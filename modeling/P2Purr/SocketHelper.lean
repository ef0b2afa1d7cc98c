import P2Purr.Exceptions
import P2Purr.Loop

namespace P2Purr
open Memory Loop

/-- `sock` is a descriptor, or -1 once it is closed. -/
structure SocketHelper where
  sock : ℤ
  host : String
  port : UInt16
  isSockOpen : Bool := false
  isSockInit : Bool := false
  deriving DecidableEq, Repr

/-- Whether `shutdown` and `close` succeed; a descriptor that could not be closed stays open. -/
structure CloseResult where
  shutdown : Bool := true
  close : Bool := true
  deriving DecidableEq, Repr

inductive RecvResult
  | data (bs : List Byte)
  | closed (k : CloseResult)
  | failed
  deriving DecidableEq, Repr

/-- What the kernel does with the bytes of a stream socket: the `i`-th `send`, of `n` bytes,
takes some of them, or fails. -/
structure Kernel where
  send : ℕ → ℕ → Option ℕ
  send_bounds : ∀ {i n k}, 1 ≤ n → send i n = some k → 1 ≤ k ∧ k ≤ n

structure Sent where
  bytes : List Byte := []
  calls : ℕ := 0
  deriving DecidableEq, Repr

def receiveError : GenericException :=
  { cls := .receive, message := "Something is wrong with recv\n" }

structure ReceiveLoop where
  helper : SocketHelper
  buffer : Block
  maxMsgLen : ℤ
  totalBytesRecvd : ℤ := 0
  stopped : Bool := false

structure SendLoop where
  sent : Sent
  bytesSentSoFar : ℤ := 0
  bytesLeftToSend : ℤ

namespace SocketHelper

/-- Both exceptions are caught where they are thrown. -/
def closeSock (s : SocketHelper) (k : CloseResult) : Bool × SocketHelper :=
  if !s.isSockOpen then (true, s)
  else if s.isSockInit && !k.shutdown then (false, s)
  else
    let s := { s with isSockInit := false }
    if !k.close then (false, s)
    else (true, { s with sock := -1, isSockOpen := false })

end SocketHelper

namespace ReceiveLoop

def guard (s : ReceiveLoop) : Bool :=
  !s.stopped && decide (s.totalBytesRecvd < s.maxMsgLen)

def turn (offset : ℕ) (r : RecvResult) (s : ReceiveLoop) :
    Except (Stop (SocketHelper × Block)) ReceiveLoop :=
  match r with
  | .data bs => do
    let bytesRecvd : ℤ := bs.length
    let buffer ← access (s.buffer.storeAll (offset + s.totalBytesRecvd.toNat) bs)
    pure { s with
      buffer := buffer
      -- `max_msg_len = bytes_recvd`, so that the loop stops
      maxMsgLen := if 0 < bytesRecvd ∧ bytesRecvd ≤ s.maxMsgLen then bytesRecvd else s.maxMsgLen
      totalBytesRecvd := s.totalBytesRecvd + bytesRecvd }
  | .closed k => pure { s with helper := (s.helper.closeSock k).2, stopped := true }
  | .failed => .error (.raised receiveError (s.helper, s.buffer))

end ReceiveLoop

namespace SendLoop

def guard (dataLen : ℤ) (s : SendLoop) : Bool := decide (s.bytesSentSoFar < dataLen)

def turn (k : Kernel) (data : Option Block) (s : SendLoop) : Except (Stop Sent) SendLoop := do
  let sent := { s.sent with calls := s.sent.calls + 1 }
  match k.send s.sent.calls s.bytesLeftToSend.toNat with
  | none => .error (.raised { cls := .send } sent)
  | some bytesSent =>
    let bs ← access (do (← deref data).loadAll s.bytesSentSoFar.toNat bytesSent)
    pure { sent := { sent with bytes := sent.bytes ++ bs }
           bytesSentSoFar := s.bytesSentSoFar + bytesSent
           bytesLeftToSend := s.bytesLeftToSend - bytesSent }

end SendLoop

namespace SocketHelper

/-- The first `recv` that gives bytes lowers `max_msg_len` to their number, so the loop
has one turn. -/
def receive (s : SocketHelper) (buffer : Block) (offset : ℕ) (maxMsgLen : ℤ) (r : RecvResult) :
    Except (Stop (SocketHelper × Block)) (ℤ × SocketHelper × Block) :=
  if !s.isSockOpen then pure (0, s, buffer)
  else do
    let l ← whileLoop ReceiveLoop.guard (ReceiveLoop.turn offset r) (.halt .hang) 1
      { helper := s, buffer := buffer, maxMsgLen := maxMsgLen }
    pure (l.totalBytesRecvd, l.helper, l.buffer)

/-- Every call of `send` takes a byte at least, so `data_len` turns are enough. -/
def sendData (k : Kernel) (data : Option Block) (dataLen : ℤ) (sent : Sent) :
    Except (Stop Sent) (Bool × Sent) := do
  let l ← whileLoop (SendLoop.guard dataLen) (SendLoop.turn k data) (.halt .hang) dataLen.toNat
    { sent := sent, bytesLeftToSend := dataLen }
  pure (decide (l.bytesSentSoFar = dataLen), l.sent)

variable {s : SocketHelper} {buffer : Block} {offset : ℕ} {maxMsgLen : ℤ} {bs : List Byte}

theorem closeSock_sock {k : CloseResult} (h : (s.closeSock k).2.isSockOpen = true) :
    (s.closeSock k).2.sock = s.sock ∧ s.isSockOpen = true := by
  unfold closeSock at h ⊢
  split
  · simp_all
  · rename_i hopen
    have hopen : s.isSockOpen = true := by simpa using hopen
    split
    · exact ⟨rfl, hopen⟩
    · split
      · exact ⟨rfl, hopen⟩
      · simp_all

theorem closeSock_of_open (h : s.isSockOpen = true) (k : CloseResult) :
    s.closeSock k =
      if s.isSockInit = true ∧ k.shutdown = false then (false, s)
      else if k.close = false then (false, { s with isSockInit := false })
      else (true, { s with isSockInit := false, sock := -1, isSockOpen := false }) := by
  simp [closeSock, h]

/-- The two kernel calls of `close_sock` as it makes them: `shutdown` only for a socket that was
connected or is listening. -/
theorem closeSock_iff {k : CloseResult} (h : s.isSockOpen = true) :
    (s.closeSock k).2.isSockOpen = false ↔
      (s.isSockInit = false ∨ k.shutdown = true) ∧ k.close = true := by
  rw [closeSock_of_open h]
  cases hinit : s.isSockInit <;> cases hshut : k.shutdown <;> cases hclose : k.close <;> simp [h]

theorem closeSock_closed {k : CloseResult} (h : s.isSockOpen = true)
    (hclosed : (s.closeSock k).2.isSockOpen = false) : (s.closeSock k).2.sock = -1 := by
  obtain ⟨hshut, hclose⟩ := (closeSock_iff h).mp hclosed
  rw [closeSock_of_open h, if_neg (by simpa [or_iff_not_imp_left] using hshut),
    if_neg (by simp [hclose])]

theorem closeSock_result {k : CloseResult} :
    (s.closeSock k).1 = true ↔ (s.closeSock k).2.isSockOpen = false := by
  cases hopen : s.isSockOpen with
  | false => simp [closeSock, hopen]
  | true =>
    rw [closeSock_of_open hopen]
    split
    · simp [hopen]
    · split <;> simp [hopen]

theorem receive_of_closed (h : s.isSockOpen = false) (r : RecvResult) :
    s.receive buffer offset maxMsgLen r = .ok (0, s, buffer) := by
  simp [receive, h]

theorem receive_data (h : s.isSockOpen = true) (hne : bs ≠ []) (hle : (bs.length : ℤ) ≤ maxMsgLen)
    {buffer' : Block} (hstore : buffer.storeAll offset bs = .ok buffer') :
    s.receive buffer offset maxMsgLen (.data bs) = .ok (bs.length, s, buffer') := by
  have hpos := List.length_pos_iff.mpr hne
  have hguard : ReceiveLoop.guard
      { helper := s, buffer := buffer, maxMsgLen := maxMsgLen } = true := by
    simp only [ReceiveLoop.guard, Bool.not_false, Bool.true_and, decide_eq_true_eq]
    omega
  have hturn : ReceiveLoop.turn offset (.data bs)
      { helper := s, buffer := buffer, maxMsgLen := maxMsgLen } =
      .ok { helper := s, buffer := buffer', maxMsgLen := bs.length
            totalBytesRecvd := bs.length } := by
    have hcond : (0 : ℤ) < bs.length ∧ (bs.length : ℤ) ≤ maxMsgLen := ⟨by omega, hle⟩
    simp only [ReceiveLoop.turn, Int.toNat_zero, Nat.add_zero, hstore, access_ok, ok_bind,
      if_pos hcond, Int.zero_add, pure_eq_ok]
  have hexit : ReceiveLoop.guard { helper := s, buffer := buffer', maxMsgLen := bs.length,
                                   totalBytesRecvd := bs.length } = false := by
    simp [ReceiveLoop.guard]
  simp only [receive, h, Bool.not_true, Bool.false_eq_true, ↓reduceIte, whileLoop_turn hguard hturn,
    whileLoop_exit hexit, ok_bind, pure_eq_ok]

/-- More bytes than there is room for are written past the end of the buffer. -/
theorem receive_data_faults (h : s.isSockOpen = true) (hpos : 0 < maxMsgLen) (hne : bs ≠ [])
    (hlong : buffer.size < offset + bs.length) :
    ∃ f, s.receive buffer offset maxMsgLen (.data bs) = .error (.halt (.fault f)) := by
  have hguard : ReceiveLoop.guard
      { helper := s, buffer := buffer, maxMsgLen := maxMsgLen } = true := by
    simp [ReceiveLoop.guard, hpos]
  cases hstore : buffer.storeAll offset bs with
  | ok b =>
    have hle := Block.storeAll_le hne hstore
    omega
  | error f =>
    have hturn : ReceiveLoop.turn offset (.data bs)
        { helper := s, buffer := buffer, maxMsgLen := maxMsgLen } =
        .error (.halt (.fault f)) := by
      simp [ReceiveLoop.turn, hstore]
    refine ⟨f, ?_⟩
    simp only [receive, h, Bool.not_true, Bool.false_eq_true, ↓reduceIte,
      whileLoop_stop hguard hturn, error_bind]

/-- No bytes, and no end of the connection: the loop does not get on. -/
theorem receive_data_nil (h : s.isSockOpen = true) (hpos : 0 < maxMsgLen) :
    s.receive buffer offset maxMsgLen (.data []) = .error (.halt .hang) := by
  have hloop : whileLoop ReceiveLoop.guard (ReceiveLoop.turn offset (.data [])) (.halt .hang) 1
      { helper := s, buffer := buffer, maxMsgLen := maxMsgLen } = .error (.halt .hang) := by
    apply whileLoop_diverges
      (fun l => l = { helper := s, buffer := buffer, maxMsgLen := maxMsgLen }) _ rfl
    intro l hl
    rw [hl]
    refine ⟨by simp [ReceiveLoop.guard, hpos], _, ?_, rfl⟩
    simp [ReceiveLoop.turn, Block.storeAll]
  simp only [receive, h, Bool.not_true, Bool.false_eq_true, ↓reduceIte, hloop, error_bind]

theorem receive_closed (h : s.isSockOpen = true) (hpos : 0 < maxMsgLen) (k : CloseResult) :
    s.receive buffer offset maxMsgLen (.closed k) = .ok (0, (s.closeSock k).2, buffer) := by
  have hguard : ReceiveLoop.guard
      { helper := s, buffer := buffer, maxMsgLen := maxMsgLen } = true := by
    simp [ReceiveLoop.guard, hpos]
  have hturn : ReceiveLoop.turn offset (.closed k)
      { helper := s, buffer := buffer, maxMsgLen := maxMsgLen } =
      .ok { helper := (s.closeSock k).2, buffer := buffer, maxMsgLen := maxMsgLen
            stopped := true } := rfl
  have hexit : ReceiveLoop.guard { helper := (s.closeSock k).2, buffer := buffer,
                                   maxMsgLen := maxMsgLen, stopped := true } = false := by
    simp [ReceiveLoop.guard]
  simp only [receive, h, Bool.not_true, Bool.false_eq_true, ↓reduceIte, whileLoop_turn hguard hturn,
    whileLoop_exit hexit, ok_bind, pure_eq_ok]

theorem receive_failed (h : s.isSockOpen = true) (hpos : 0 < maxMsgLen) :
    s.receive buffer offset maxMsgLen .failed =
      .error (.raised receiveError (s, buffer)) := by
  have hguard : ReceiveLoop.guard
      { helper := s, buffer := buffer, maxMsgLen := maxMsgLen } = true := by
    simp [ReceiveLoop.guard, hpos]
  have hturn : ReceiveLoop.turn offset .failed
      { helper := s, buffer := buffer, maxMsgLen := maxMsgLen } =
      .error (.raised receiveError (s, buffer)) := rfl
  simp only [receive, h, Bool.not_true, Bool.false_eq_true, ↓reduceIte, whileLoop_stop hguard hturn,
    error_bind]

def Kept (s : SocketHelper) (l : ReceiveLoop) : Prop :=
  l.helper = s ∨ l.stopped = true ∧ ∃ k, l.helper = (s.closeSock k).2

theorem receiveLoop_kept (s : SocketHelper) (buffer : Block) (offset : ℕ) (maxMsgLen : ℤ)
    (r : RecvResult) :
    (∀ l, whileLoop ReceiveLoop.guard (ReceiveLoop.turn offset r) (.halt .hang) 1
      { helper := s, buffer := buffer, maxMsgLen := maxMsgLen } = .ok l → Kept s l) ∧
    ∀ stop, whileLoop ReceiveLoop.guard (ReceiveLoop.turn offset r) (.halt .hang) 1
      { helper := s, buffer := buffer, maxMsgLen := maxMsgLen } = .error stop →
        ∀ e left, stop = .raised e left → left.1 = s := by
  have hsame : ∀ l, Kept s l → ReceiveLoop.guard l = true → l.helper = s := by
    intro l hl hguard
    apply hl.resolve_right
    rintro ⟨hstopped, -⟩
    simp [ReceiveLoop.guard, hstopped] at hguard
  apply whileLoop_keeps (Kept s)
    (fun stop : Stop (SocketHelper × Block) => ∀ e left, stop = .raised e left → left.1 = s)
  · intro l l' hl hguard hturn
    have hhelper := hsame l hl hguard
    cases r with
    | data bs =>
      unfold ReceiveLoop.turn at hturn
      cases hstore : l.buffer.storeAll (offset + l.totalBytesRecvd.toNat) bs with
      | error f => simp [hstore] at hturn
      | ok b =>
        simp only [hstore, access_ok, ok_bind, pure_eq_ok, Except.ok.injEq] at hturn
        rw [← hturn]
        exact Or.inl hhelper
    | closed k =>
      rw [← Except.ok.inj hturn, Kept, hhelper]
      exact Or.inr ⟨rfl, k, rfl⟩
    | failed => cases hturn
  · intro l stop hl hguard hturn e left hstop
    have hhelper := hsame l hl hguard
    rw [hstop] at hturn
    cases r with
    | data bs =>
      unfold ReceiveLoop.turn at hturn
      cases hstore : l.buffer.storeAll (offset + l.totalBytesRecvd.toNat) bs with
      | error f => simp [hstore] at hturn
      | ok b => simp [hstore] at hturn
    | closed k => cases hturn
    | failed =>
      simp only [ReceiveLoop.turn, Except.error.injEq, Stop.raised.injEq] at hturn
      rw [← hturn.2]
      exact hhelper
  · simp
  · exact Or.inl rfl

variable {r : RecvResult} {n : ℤ} {helper : SocketHelper} {buffer' : Block}

/-- `receive` closes the socket as its last step, or leaves it as it was. -/
theorem receive_helper (h : s.receive buffer offset maxMsgLen r = .ok (n, helper, buffer')) :
    helper = s ∨ ∃ k, helper = (s.closeSock k).2 := by
  unfold receive at h
  split at h
  · exact Or.inl (congrArg (fun p => p.2.1) (Except.ok.inj h)).symm
  · cases hloop : whileLoop ReceiveLoop.guard (ReceiveLoop.turn offset r) (.halt .hang) 1
      { helper := s, buffer := buffer, maxMsgLen := maxMsgLen } with
    | error stop => simp [hloop] at h
    | ok l =>
      rw [hloop, ok_bind] at h
      obtain rfl : l.helper = helper := congrArg (fun p => p.2.1) (Except.ok.inj h)
      exact ((receiveLoop_kept s buffer offset maxMsgLen r).1 l hloop).imp_right And.right

theorem receive_raised_helper {e : GenericException} {left : SocketHelper × Block}
    (h : s.receive buffer offset maxMsgLen r = .error (.raised e left)) : left.1 = s := by
  unfold receive at h
  split at h
  · cases h
  · cases hloop : whileLoop ReceiveLoop.guard (ReceiveLoop.turn offset r) (.halt .hang) 1
      { helper := s, buffer := buffer, maxMsgLen := maxMsgLen } with
    | ok l => simp [hloop] at h
    | error stop =>
      rw [hloop, error_bind] at h
      exact (receiveLoop_kept s buffer offset maxMsgLen r).2 stop hloop e left (Except.error.inj h)

end SocketHelper

end P2Purr
