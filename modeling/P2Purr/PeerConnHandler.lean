import P2Purr.Rebuild
import P2Purr.SocketHelper

namespace P2Purr
open Memory Loop

structure PeerConnHandler where
  host : String
  port : UInt16
  sockHelper : SocketHelper
  recvBuffer : Block
  currBuffIdx : ℕ := 0
  buffSize : ℕ := 1500
  completedPkts : List Packet := []
  currentPkt : Option Packet := none
  clientConn : Bool := false
  serverConn : Bool := false

/-- A packet as `recv_pkt` returns it: the object itself, that is, its place in
`completed_pkts`, and its value. -/
structure PacketRef where
  index : ℕ
  pkt : Packet

structure RecvCall where
  returned : Option PacketRef := none
  caught : Option GenericException := none

namespace PeerConnHandler

def clearBuff (h : PeerConnHandler) : Except Fault PeerConnHandler := do
  let buffer ← h.recvBuffer.memset 0 h.buffSize
  pure { h with recvBuffer := buffer, currBuffIdx := 0 }

/-- `PeerConnHandler(host, port, sock)`, when no call on the socket fails: `sockHelper` is open,
and `sock` was the descriptor it was given, or -1. -/
def ofSocket (host : String) (port : UInt16) (sock : ℤ) (sockHelper : SocketHelper) :
    Except Fault PeerConnHandler :=
  clearBuff
    { host := host, port := port, sockHelper := sockHelper, recvBuffer := Block.malloc 1500
      clientConn := sock != -1, serverConn := sock == -1 }

def connActive (h : PeerConnHandler) : Bool := h.sockHelper.isSockOpen

def close (h : PeerConnHandler) (k : CloseResult) : Bool × PeerConnHandler :=
  let (closed, helper) := h.sockHelper.closeSock k
  (closed, { h with sockHelper := helper })

/-- An exception is caught and printed. -/
def sendPkt (k : Kernel) (pkt : Packet) (sent : Sent) :
    Except Halt (Sent × Option GenericException) :=
  match SocketHelper.sendData k pkt.builtPkt pkt.pktLen sent with
  | .ok (_, sent) => .ok (sent, none)
  | .error (.raised e sent) => .ok (sent, some e)
  | .error (.halt h) => .error h

end PeerConnHandler

structure RecvState extends PeerConnHandler where
  outFile : OutFile := {}

namespace RecvState

/-- The packet to go on with, as `rebuild` finds it: a new one if there is none. -/
def decoder (s : RecvState) (recvLen : ℤ) : Decoder :=
  let pkt :=
    match s.currentPkt with
    | none => Decoder.newPacket s.currBuffIdx recvLen
    | some pkt => pkt
  { pkt := { pkt with buffTotalLen := recvLen }
    buffer := s.recvBuffer, currBuffIdx := s.currBuffIdx, outFile := s.outFile }

def resume (s : RecvState) (d : Decoder) : RecvState :=
  { s with
    currentPkt := some d.pkt, recvBuffer := d.buffer, currBuffIdx := d.currBuffIdx
    outFile := d.outFile }

def guard (recvLen : ℤ) (s : RecvState) : Bool := decide ((s.currBuffIdx : ℤ) < recvLen)

def turn (recvLen : ℤ) (s : RecvState) : Except (Stop RecvState) RecvState :=
  match (s.decoder recvLen).rebuild with
  | .ok d =>
    if d.pkt.pktBuilt then
      .ok { s.resume d with completedPkts := s.completedPkts ++ [d.pkt], currentPkt := none }
    else .ok (s.resume d)
  -- `current_pkt` is kept, with the bytes read so far
  | .error (.raised e d) => .error (.raised e (s.resume d))
  | .error (.halt h) => .error (.halt h)

def recvLoop (recvLen : ℤ) (turns : ℕ) (s : RecvState) : Except (Stop RecvState) RecvState :=
  whileLoop (guard recvLen) (turn recvLen) (.halt .hang) turns s

def clear (s : RecvState) : Except (Stop RecvState) RecvState := do
  let h ← access s.clearBuff
  pure { s with toPeerConnHandler := h }

def latest (s : RecvState) : Option PacketRef :=
  s.completedPkts.getLast?.map fun pkt => ⟨s.completedPkts.length - 1, pkt⟩

def consume (s : RecvState) (recvLen : ℤ) : Except (Stop RecvState) RecvState :=
  if 0 < recvLen ∧ (s.currBuffIdx : ℤ) < recvLen then do
    let s ← s.recvLoop recvLen recvLen.toNat
    -- also after a loop that ends in the middle of a packet
    if recvLen ≤ s.currBuffIdx then s.clear else pure s
  else pure s

/-- `recv` writes from `*pos` on; its count is used as the end of the buffer's content. -/
def recvPkt (s : RecvState) (r : RecvResult) : Except Halt (RecvState × RecvCall) :=
  match s.sockHelper.receive s.recvBuffer s.currBuffIdx (s.buffSize - s.currBuffIdx) r with
  | .error (.halt h) => .error h
  | .error (.raised e (helper, buffer)) =>
    .ok ({ s with sockHelper := helper, recvBuffer := buffer }, { caught := some e })
  | .ok (recvLen, helper, buffer) =>
    match { s with sockHelper := helper, recvBuffer := buffer }.consume recvLen with
    | .error (.halt h) => .error h
    -- caught and printed, and a null pointer is returned
    | .error (.raised e s) => .ok (s, { caught := some e })
    | .ok s => .ok (s, { returned := s.latest })

def recvAll : RecvState → List RecvResult → Except Halt (RecvState × List RecvCall)
  | s, [] => .ok (s, [])
  | s, r :: rs => do
    let (s, call) ← s.recvPkt r
    let (s, calls) ← s.recvAll rs
    pure (s, call :: calls)

variable {s s' : RecvState} {recvLen : ℤ} {e : GenericException}

theorem turn_sockHelper (h : turn recvLen s = .ok s') : s'.sockHelper = s.sockHelper := by
  unfold turn at h
  cases hr : (s.decoder recvLen).rebuild with
  | ok d =>
    simp only [hr] at h
    split at h
    · rw [← Except.ok.inj h]
      rfl
    · rw [← Except.ok.inj h]
      rfl
  | error stop => cases stop <;> simp [hr] at h

theorem turn_raised_sockHelper (h : turn recvLen s = .error (.raised e s')) :
    s'.sockHelper = s.sockHelper := by
  unfold turn at h
  cases hr : (s.decoder recvLen).rebuild with
  | ok d =>
    simp only [hr] at h
    split at h <;> cases h
  | error stop =>
    cases stop with
    | halt k => simp [hr] at h
    | raised e' d =>
      simp only [hr, Except.error.injEq, Stop.raised.injEq] at h
      rw [← h.2]
      rfl

theorem recvLoop_sockHelper (s : RecvState) (recvLen : ℤ) (turns : ℕ) :
    (∀ s', s.recvLoop recvLen turns = .ok s' → s'.sockHelper = s.sockHelper) ∧
      ∀ stop, s.recvLoop recvLen turns = .error stop →
        ∀ e s', stop = .raised e s' → s'.sockHelper = s.sockHelper := by
  unfold recvLoop
  apply whileLoop_keeps (fun t : RecvState => t.sockHelper = s.sockHelper)
    (fun stop : Stop RecvState => ∀ e t, stop = .raised e t → t.sockHelper = s.sockHelper)
  · intro t t' ht _ hturn
    exact (turn_sockHelper hturn).trans ht
  · intro t stop ht _ hturn e t' hstop
    rw [hstop] at hturn
    exact (turn_raised_sockHelper hturn).trans ht
  · simp
  · rfl

theorem consume_sockHelper (s : RecvState) (recvLen : ℤ) :
    (∀ s', s.consume recvLen = .ok s' → s'.sockHelper = s.sockHelper) ∧
      ∀ e s', s.consume recvLen = .error (.raised e s') → s'.sockHelper = s.sockHelper := by
  obtain ⟨hok, herr⟩ := recvLoop_sockHelper s recvLen recvLen.toNat
  unfold consume
  split
  · cases hrun : s.recvLoop recvLen recvLen.toNat with
    | error stop => simpa using fun e s' hstop => herr stop hrun e s' hstop
    | ok t =>
      have ht := hok t hrun
      rw [ok_bind]
      split
      · unfold clear PeerConnHandler.clearBuff
        cases t.recvBuffer.memset 0 t.buffSize with
        | error f => simp
        | ok buffer => simpa using ht
      · simpa using ht
  · simp

/-- The socket of a handler after a call: as it was, or as `close_sock` leaves it. -/
theorem recvPkt_sockHelper {r : RecvResult} {call : RecvCall}
    (h : s.recvPkt r = .ok (s', call)) :
    s'.sockHelper = s.sockHelper ∨ ∃ k, s'.sockHelper = (s.sockHelper.closeSock k).2 := by
  unfold recvPkt at h
  cases hrecv : s.sockHelper.receive s.recvBuffer s.currBuffIdx (s.buffSize - s.currBuffIdx) r with
  | error stop =>
    cases stop with
    | halt k => simp [hrecv] at h
    | raised e left =>
      simp only [hrecv, Except.ok.injEq, Prod.mk.injEq] at h
      rw [← h.1]
      exact Or.inl (SocketHelper.receive_raised_helper hrecv)
  | ok result =>
    obtain ⟨recvLen, helper, buffer⟩ := result
    have hhelper := SocketHelper.receive_helper hrecv
    obtain ⟨hok, herr⟩ :=
      consume_sockHelper { s with sockHelper := helper, recvBuffer := buffer } recvLen
    simp only [hrecv] at h
    cases hcons : consume { s with sockHelper := helper, recvBuffer := buffer } recvLen with
    | ok t =>
      simp only [hcons, Except.ok.injEq, Prod.mk.injEq] at h
      rwa [← h.1, hok t hcons]
    | error stop =>
      cases stop with
      | halt k => simp [hcons] at h
      | raised e t =>
        simp only [hcons, Except.ok.injEq, Prod.mk.injEq] at h
        rwa [← h.1, herr e t hcons]

end RecvState

end P2Purr
