import P2Purr.Packet

namespace P2Purr
open Memory Loop Serializer

structure OutFile where
  opens : Bool := true
  content : Option (List Byte) := none
  deriving DecidableEq, Repr

/-- What a call of `rebuild` works on: the packet, and what it shares with its connection. -/
structure Decoder where
  pkt : Packet
  buffer : Block
  currBuffIdx : ℕ
  outFile : OutFile

namespace Decoder

def newPacket (currBuffIdx : ℕ) (buffTotalLen : ℤ) : Packet :=
  { attached := true, buffTotalLen := buffTotalLen, buffNext := currBuffIdx }

def updateBuffIdx (d : Decoder) : Except (Stop Decoder) Decoder :=
  let d := { d with currBuffIdx := d.pkt.buffNext }
  if d.pkt.buffTotalLen < d.currBuffIdx then
    throwPacket "Buffer index  is over the maximum buffer size of \n" d
  else .ok d

def updateLocalBuffInfo (d : Decoder) : Decoder :=
  { d with pkt.buffNext := d.currBuffIdx }

end Decoder

/-- Where `hdr_ptr` points: into the local `tmp_header`, or into the header block. -/
inductive HdrPtr
  | tmp (i : ℕ)
  | header (i : ℕ)
  deriving DecidableEq, Repr

structure HeaderLoop extends Decoder where
  tmpHeader : Block
  hdrPtr : HdrPtr
  idx : ℕ

namespace HeaderLoop

def put (s : HeaderLoop) (v : Byte) : Except Fault HeaderLoop :=
  match s.hdrPtr with
  | .tmp i => do
    let tmp ← s.tmpHeader.store i v
    pure { s with tmpHeader := tmp, hdrPtr := .tmp (i + 1) }
  | .header i => do
    let hdr ← (← deref s.pkt.header).store i v
    pure { s with pkt.header := some hdr, hdrPtr := .header (i + 1) }

/-- After the third byte: read the announced length, allocate the header and go on there. -/
def openHeader (s : HeaderLoop) : Except (Stop Decoder) HeaderLoop := do
  let b₁ ← access (s.tmpHeader.load 1)
  let b₂ ← access (s.tmpHeader.load 2)
  let hdrLen := u16 ((b₁.toNat <<< 8) ||| b₂.toNat)
  let fullHdrLen := u16 (hdrLen + 3)
  let s := { s with pkt.hdrLen := hdrLen, pkt.fullHdrLen := fullHdrLen }
  if fullHdrLen ≤ 0 then
    throwPacket "Got a header length of zero or less\n" s.toDecoder
  else do
    let hdr ← access ((Block.malloc fullHdrLen).memcpy 0 s.tmpHeader 3)
    -- the third byte is in the block, but not counted yet
    pure { s with pkt.header := some hdr, hdrPtr := .header (s.pkt.numBytesRead + 1) }

def guard (s : HeaderLoop) : Bool :=
  decide ((s.idx : ℤ) < s.pkt.buffTotalLen) && decide (s.pkt.numBytesRead < s.pkt.fullHdrLen)

def turn (s : HeaderLoop) : Except (Stop Decoder) HeaderLoop := do
  let v ← access (s.buffer.load s.pkt.buffNext)
  let s ← access (s.put v)
  let s := { s with pkt.buffNext := s.pkt.buffNext + 1 }
  let s ← if s.pkt.numBytesRead = 2 then s.openHeader else pure s
  pure { s with pkt.numBytesRead := s.pkt.numBytesRead + 1, idx := s.idx + 1 }

end HeaderLoop

structure PayloadLoop extends Decoder where
  pld : ℕ
  idx : ℕ

namespace PayloadLoop

def guard (s : PayloadLoop) : Bool :=
  decide ((s.idx : ℤ) < s.pkt.buffTotalLen) && decide ((s.pkt.numBytesRead : ℤ) < s.pkt.pktLen)

def turn (s : PayloadLoop) : Except (Stop Decoder) PayloadLoop := do
  let v ← access (s.buffer.load s.pkt.buffNext)
  let payload ← access (do (← deref s.pkt.payload).store s.pld v)
  pure { s with
    pkt.payload := some payload, pkt.buffNext := s.pkt.buffNext + 1,
    pkt.numBytesRead := s.pkt.numBytesRead + 1, pld := s.pld + 1, idx := s.idx + 1 }

end PayloadLoop

namespace Decoder

/-- Entering the header branch of `header_ready`: a length of zero stands for the three bytes
that announce it, and a header that is not there yet is collected in `tmp_header`. -/
def startHeader (d : Decoder) : HeaderLoop :=
  let d := if d.pkt.fullHdrLen = 0 then { d with pkt.fullHdrLen := 3 } else d
  { toDecoder := d
    tmpHeader := Block.malloc 3
    hdrPtr :=
      match d.pkt.header with
      | none => .tmp 0
      | some _ => .header d.pkt.numBytesRead
    idx := d.currBuffIdx }

def wantsHeader (d : Decoder) (first : Byte) : Bool :=
  first == 0xFF || decide (d.pkt.numBytesRead < d.pkt.fullHdrLen) ||
    (decide (d.pkt.buffTotalLen < 3) && decide (d.pkt.numBytesRead < 3))

def collectHeader (d : Decoder) : Except (Stop Decoder) (Decoder × ℕ) := do
  let first ← access (d.buffer.load d.pkt.buffNext)
  if d.wantsHeader first then do
    let s ← whileLoop HeaderLoop.guard HeaderLoop.turn (.halt .hang)
      -- `idx` is counted up every turn, so that there are no more turns than bytes
      (d.pkt.buffTotalLen - d.currBuffIdx).toNat d.startHeader
    pure (s.toDecoder, s.idx)
  else pure (d, d.currBuffIdx)

def headerReady (d : Decoder) : Except (Stop Decoder) (Bool × Decoder) := do
  let (d, idx) ← d.collectHeader
  if d.pkt.buffTotalLen ≤ idx ∨ d.pkt.numBytesRead < d.pkt.fullHdrLen then do
    -- the length is not known yet, so that the next call starts from zero again
    let d := if d.pkt.fullHdrLen ≤ 3 then { d with pkt.fullHdrLen := 0 } else d
    let d ← d.updateBuffIdx
    pure (false, { d with pkt := d.pkt.setBuildPending true })
  else pure (decide (d.pkt.fullHdrLen ≤ d.pkt.numBytesRead), { d with currBuffIdx := idx })

/-- The fixed fields of the header, read again on every call. -/
def rebuildHeader (d : Decoder) : Except (Stop Decoder) Decoder := do
  let hdr ← access (deref d.pkt.header)
  let b₁ ← access (hdr.load 1)
  let b₂ ← access (hdr.load 2)
  let d := { d with pkt.hdrLen := (deserializeInt16 b₁ b₂).toNat }
  if d.pkt.hdrLen ≤ 0 then
    throwPacket "Got a header length of zero or less\n" d
  else do
    -- the block ends before these fields do, if the announced length is less than nine
    let type ← access (hdr.load 3)
    let charset ← access (hdr.load 4)
    let encoding ← access (hdr.load 5)
    let encryption ← access (hdr.load 6)
    let compression ← access (hdr.load 7)
    let len ← access (hdr.loadAll 8 4)
    let d := { d with
      pkt.type := type, pkt.charset := charset, pkt.encoding := encoding,
      pkt.encryption := encryption, pkt.compression := compression,
      pkt.payloadLen := (deserializeInt32 len).toNat }
    if d.pkt.payloadLen ≤ 0 then
      throwPacket "Got a payload length of zero or less\n" d
    else do
      -- a block from an earlier call is kept, with what it holds
      let payload ← match d.pkt.payload with
        | none => access ((Block.malloc d.pkt.payloadLen).memset 0 d.pkt.payloadLen)
        | some payload => pure payload
      let d := { d with
        pkt.payload := some payload
        pkt.hasFileAttachment := d.pkt.hasFileAttachment || d.pkt.type == genericFile }
      d.updateBuffIdx

def outputToFile (d : Decoder) : Except Fault Decoder :=
  if d.outFile.opens then do
    let data ← d.pkt.getPayload
    pure { d with outFile.content := some data }
  else pure d

def collectPayload (d : Decoder) : Except (Stop Decoder) Decoder := do
  let s ← whileLoop PayloadLoop.guard PayloadLoop.turn (.halt .hang)
    (d.pkt.buffTotalLen - d.currBuffIdx).toNat
    { toDecoder := d, pld := d.pkt.numBytesRead - d.pkt.fullHdrLen, idx := d.currBuffIdx }
  pure { s.toDecoder with currBuffIdx := s.idx }

def finish (d : Decoder) : Except (Stop Decoder) Decoder := do
  let numBytesRemaining := i32 (d.pkt.pktLen - d.pkt.numBytesRead)
  if 0 < numBytesRemaining then do
    let d ← d.updateBuffIdx
    pure { d with pkt := d.pkt.setBuildPending true }
  else if numBytesRemaining = 0 then do
    -- the file is written first, and `make_pkt` comes after it
    let d ← access (if d.pkt.hasFileAttachment then d.outputToFile else pure d)
    let pkt ← access d.pkt.makePkt
    let d ← updateBuffIdx { d with pkt := pkt }
    pure { d with pkt := d.pkt.setBuildPending false }
  else throwPacket "Something is wrong number of bytes remaining is negative\n" d

def rebuild (d : Decoder) : Except (Stop Decoder) Decoder := do
  if d.pkt.attached then
    let (ready, d) ← d.updateLocalBuffInfo.headerReady
    if ready then do
      let d ← d.rebuildHeader
      -- an unsigned sum, stored in an `int`
      let d := { d with pkt.pktLen := i32 (u32 (d.pkt.fullHdrLen + d.pkt.payloadLen)) }
      let d ← d.collectPayload
      d.finish
    else pure d
  else access (.error .nullAccess)

end Decoder

end P2Purr
