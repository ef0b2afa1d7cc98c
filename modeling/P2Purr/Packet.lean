import P2Purr.Exceptions
import P2Purr.Loop
import P2Purr.Serializer

namespace P2Purr
open Memory Loop Serializer

abbrev PacketType := Byte
abbrev PacketCharSet := Byte
abbrev PacketEncoding := Byte
abbrev PacketEncryption := Byte
abbrev PacketCompression := Byte

def genericFile : PacketType := 17

/-- `attached` says whether the shared `buffer` and `curr_buff_idx` are still held; they are dropped
together.  `buffNext` is an offset into `buffer`.  `pktLen` is the one length that is signed. -/
structure Packet where
  type : PacketType := 0
  charset : PacketCharSet := 0
  encoding : PacketEncoding := 0
  encryption : PacketEncryption := 0
  compression : PacketCompression := 0
  attachmentFilePath : String := ""
  hasFileAttachment : Bool := false
  builtPkt : Option Block := none
  header : Option Block := none
  payload : Option Block := none
  pktLen : ℤ := 0
  fullHdrLen : ℕ := 0
  hdrLen : ℕ := 0
  payloadLen : ℕ := 0
  attached : Bool := false
  buffTotalLen : ℤ := 0
  buffNext : ℕ := 0
  numBytesRead : ℕ := 0
  pktBuilt : Bool := false
  pktRebuilding : Bool := false

namespace Packet

def setBuildPending (p : Packet) (isPending : Bool) : Packet :=
  let p := { p with pktRebuilding := isPending, pktBuilt := !isPending }
  if isPending then p
  else { p with attached := false, buffNext := 0, buffTotalLen := -1 }

theorem setBuildPending_true (p : Packet) :
    p.setBuildPending true = { p with pktRebuilding := true, pktBuilt := false } := rfl

theorem setBuildPending_false (p : Packet) :
    p.setBuildPending false = { p with
      pktRebuilding := false, pktBuilt := true, attached := false, buffNext := 0
      buffTotalLen := -1 } := rfl

def headerBytes (p : Packet) : List Byte :=
  [0xFF] ++ serializeInt16 (BitVec.ofNat 64 p.hdrLen) ++
    [p.type, p.charset, p.encoding, p.encryption, p.compression] ++
    serializeInt32 (BitVec.ofNat 64 p.payloadLen)

def buildHeader (p : Packet) : Except Fault Packet := do
  let p := { p with fullHdrLen := 12, hdrLen := 9 }
  let hdr ← (Block.malloc p.fullHdrLen).storeAll 0 p.headerBytes
  pure { p with header := some hdr }

/-- `memcpy` of `n` bytes from a pointer that may be null; zero bytes are never looked at. -/
def copyFrom (dst : Block) (off : ℕ) (src : Option Block) (n : ℕ) : Except Fault Block :=
  if n = 0 then .ok dst
  else do
    let src ← deref src
    dst.memcpy off src n

/-- The sizes are `int` expressions converted to `size_t`; the index of the
terminating zero is the `int` itself. -/
def makePkt (p : Packet) : Except Fault Packet := do
  let built := Block.malloc (sizeT (i32 (p.pktLen + 1)))
  -- `built_pkt[pkt_len] = 0`, before anything is copied
  let built ← if 0 ≤ p.pktLen then built.store p.pktLen.toNat 0 else .error .outOfBounds
  let built ← copyFrom built 0 p.header p.fullHdrLen
  let built ← copyFrom built p.fullHdrLen p.payload p.payloadLen
  pure { p with builtPkt := some built }

theorem copyFrom_size {dst b : Block} {off n : ℕ} {src : Option Block}
    (h : copyFrom dst off src n = .ok b) : b.size = dst.size := by
  unfold copyFrom at h
  split at h
  · rw [← Except.ok.inj h]
  · obtain ⟨c, -, hcopy⟩ := bind_eq_ok.mp h
    exact Block.memcpy_size hcopy

/-- Only the built packet is new, and its block has the size that was asked for. -/
theorem makePkt_inv {p q : Packet} (h : p.makePkt = .ok q) :
    ∃ built, q = { p with builtPkt := some built } ∧ built.size = sizeT (i32 (p.pktLen + 1)) := by
  unfold makePkt at h
  dsimp only at h
  split at h
  · obtain ⟨b₁, hstore, h⟩ := bind_eq_ok.mp h
    obtain ⟨b₂, hcopy, h⟩ := bind_eq_ok.mp h
    obtain ⟨b₃, hcopy', h⟩ := bind_eq_ok.mp h
    refine ⟨b₃, (Except.ok.inj h).symm, ?_⟩
    rw [copyFrom_size hcopy', copyFrom_size hcopy, Block.store_size hstore, Block.malloc_size]
  · cases h

end Packet

inductive ReadResult
  | full (block : List Byte)
  | short (block : List Byte)
  | error (block : List Byte)

/-- A `std::ifstream`: `device i` is the result of the `i`-th read that reaches the file. -/
structure IFStream where
  isOpen : Bool
  device : ℕ → ReadResult
  nextRead : ℕ := 0
  eofbit : Bool := false
  badbit : Bool := false

/-- A read of a stream that is not good transfers nothing. -/
def IFStream.read (f : IFStream) : List Byte × IFStream :=
  if f.eofbit || f.badbit then ([], f)
  else
    match f.device f.nextRead with
    | .full block => (block, { f with nextRead := f.nextRead + 1 })
    | .short block => (block, { f with nextRead := f.nextRead + 1, eofbit := true })
    | .error block => (block, { f with nextRead := f.nextRead + 1, badbit := true })

def fileDevice (content : List Byte) (i : ℕ) : ReadResult :=
  let rest := content.drop (1024 * i)
  if 1024 ≤ rest.length then .full (rest.take 1024) else .short rest

def fileStream (content : List Byte) : IFStream := { isOpen := true, device := fileDevice content }

/-- `while (!in_file.eof())`: read a block and append it to `buffer`. -/
def readBlocks (turns : ℕ) (f : IFStream) : Except (Stop Unit) (List Byte × IFStream) :=
  whileLoop (fun s => !s.2.eofbit) (fun s => .ok (s.1 ++ s.2.read.1, s.2.read.2))
    (.halt .hang) turns ([], f)

namespace Packet

def processInputFile (p : Packet) (f : IFStream) (turns : ℕ) : Except (Stop Unit) Packet :=
  if f.isOpen then do
    let (buffer, _) ← readBlocks turns f
    -- a `size_t` stored in a `uint32_t`
    let payloadLen := u32 buffer.length
    let payload ← access
      (copyFrom (Block.malloc payloadLen) 0 (some (Block.ofList buffer)) payloadLen)
    pure { p with payloadLen := payloadLen, payload := some payload }
  else pure p

def build (p : Packet) (f : IFStream) (turns : ℕ) : Except (Stop Unit) Packet :=
  match p.builtPkt with
  | some _ => pure p
  | none => do
    let p := p.setBuildPending true
    let p ← if p.hasFileAttachment then p.processInputFile f turns else pure p
    let p ← access p.buildHeader
    let p := { p with pktLen := i32 (u32 (p.fullHdrLen + p.payloadLen)) }
    let p ← access p.makePkt
    pure (p.setBuildPending false)

def ofPayload (payload : Option Block) (payloadLen : ℤ) (ct : PacketType) (cs : PacketCharSet)
    (enc : PacketEncoding) (compr : PacketCompression) (encr : PacketEncryption) :
    Except (Stop Unit) Packet :=
  match payload with
  | none => throwPacket "cant create packet. payload is null\n" ()
  | some src => do
    let len := u32 payloadLen
    -- room for a terminating zero, which is not counted in `payload_len`
    let own ← access ((Block.malloc (u32 (len + 1))).store len 0)
    let own ← access (copyFrom own 0 (some src) len)
    build
      { type := ct, charset := cs, encoding := enc, encryption := encr, compression := compr,
        payloadLen := len, payload := some own } { isOpen := false, device := fun _ => .short [] } 0

def ofAttachment (path : String) (f : IFStream) (turns : ℕ) (ct : PacketType) (cs : PacketCharSet)
    (enc : PacketEncoding) (compr : PacketCompression) (encr : PacketEncryption) :
    Except (Stop Unit) Packet :=
  build
    { type := ct, charset := cs, encoding := enc, encryption := encr, compression := compr,
      attachmentFilePath := path, hasFileAttachment := path != "" } f turns

def getHeader (p : Packet) : Except Fault (List Byte) := do
  (← deref p.header).loadAll 0 p.fullHdrLen

def getPayload (p : Packet) : Except Fault (List Byte) := do
  (← deref p.payload).loadAll 0 p.payloadLen

def getPacket (p : Packet) : Except Fault (List Byte) := do
  (← deref p.builtPkt).loadAll 0 p.pktLen.toNat

end Packet

end P2Purr
