import Mars.Encoding.Delegate
import Mars.Lib.RoundRobin

/-!
The NDNLP link service: packets are split into fragments, and put together again.

* `sendPacket`: the effective MTU, the split into fragments and the fields of their frames;
* `reassembleWith`: the ring of sixteen buffers; what may panic is a parameter, `Slices`;
* `handleIncomingFrame`: what a frame hands up, where nothing panics;
* `LpCodec`: frames as they are on the link; the encoding of a frame is read back as it was, with
  its fragment in one segment.
-/

namespace Mars

/-! ### Packets and frames -/

/-- `NDNLPLinkServiceOptions`, as far as they bear on frames. -/
structure LinkOptions where
  isFragmentationEnabled : Bool
  isReassemblyEnabled : Bool
  isConsumerControlledForwardingEnabled : Bool
  isIncomingFaceIndicationEnabled : Bool

/-- `MakeNDNLPLinkServiceOptions`. -/
def LinkOptions.make : LinkOptions := ⟨true, true, false, false⟩

/-- A PIT token on a link: the code panics at any other length. -/
abbrev LinkToken := { token : Bytes // token.length = 6 }

/-- `FwLpPacket`. -/
structure LpPacket where
  sequence : Option ℕ := none
  fragIndex : Option ℕ := none
  fragCount : Option ℕ := none
  pitToken : Option LinkToken := none
  nack : Option ℕ := none
  incomingFaceId : Option Face := none
  nextHopFaceId : Option Face := none
  congestionMark : Option ℕ := none
  fragment : Wire
  deriving DecidableEq

/-- A packet that is to be sent: `OutPkt` with its `Pkt`. -/
structure LinkOut where
  raw : Wire
  pitToken : Option LinkToken := none
  inFace : Face := 0
  congestionMark : Option ℕ := none
  nackReason : Option ℕ := none

/-- A packet that has been received, before it is parsed and dispatched. -/
structure LinkPkt where
  raw : Wire
  pitToken : Option LinkToken := none
  congestionMark : Option ℕ := none
  nextHopFaceID : Option Face := none
  nackReason : Option ℕ := none
  deriving DecidableEq

instance instNeZeroSixteen : NeZero (16 : ℕ) := ⟨by decide⟩

/-- The state of `NDNLPLinkService`: `reassemblyIndex` and `reassemblyBuffers` are the ring, with
the sequence of a buffer as its key. -/
structure LinkService where
  options : LinkOptions
  nextSequence : ℕ
  reassembly : RoundRobin ℕ Wire 16

/-- `MakeNDNLPLinkService`. -/
def LinkService.make (options : LinkOptions) : LinkService := ⟨options, 0, .new⟩

/-- Sequences are counted with 64 bits. -/
abbrev sequences : ℕ := 2 ^ 64

/-! ### Sending -/

/-- `lpPacketOverhead`. -/
def lpPacketOverhead : ℤ := 1 + 3 + 1 + 3

/-- `pitTokenOverhead`. -/
def pitTokenOverhead : ℤ := 1 + 1 + 6

/-- `congestionMarkOverhead`. -/
def congestionMarkOverhead : ℤ := 3 + 1 + 8

/-- `computeHeaderOverhead`. -/
def LinkOptions.headerOverhead (options : LinkOptions) : ℤ :=
  lpPacketOverhead
    + (if options.isFragmentationEnabled then (1 + 1 + 8) + (1 + 1 + 2) + (1 + 1 + 2) else 0)
    + (if options.isIncomingFaceIndicationEnabled then 3 + 1 + 8 else 0)

/-- A call of `sendPacket`: the MTU of the transport and what `checkCongestion` says are as they are
then. -/
structure LinkSend where
  out : LinkOut
  mtu : ℤ
  congested : Bool := false

namespace LinkSend

/-- The congestion mark of the frames: that of the packet, or our own. -/
def congestionMark (e : LinkSend) : Option ℕ :=
  if e.congested ∧ e.out.congestionMark = none then some 1 else e.out.congestionMark

/-- What the headers take from the MTU. -/
def overhead (options : LinkOptions) (e : LinkSend) : ℤ :=
  options.headerOverhead
    + (if e.out.pitToken.isSome then pitTokenOverhead else 0)
    + (if e.congestionMark.isSome then congestionMarkOverhead else 0)

/-- `effectiveMtu`, an `int`: a difference below `-2 ^ 63` wraps. -/
def effectiveMtu (options : LinkOptions) (e : LinkSend) : ℤ :=
  Int.bmod (e.mtu - e.overhead options) (2 ^ 64)

/-- The bytes of the packet. -/
def bytes (e : LinkSend) : Bytes := e.out.raw.flatten

end LinkSend

namespace LinkService

/-- The loop that splits up a packet, from fragment `i` on; `none` is the fatal reading error.  Only
an empty packet can lead to a size below zero, and the read after that one is fatal. -/
def splitUp (effectiveMtu : ℤ) (frameLen fragCount : ℕ) :
    (left i : ℕ) → (reader : WireView) → (nextSequence : ℕ) → Option (ℕ × List LpPacket)
  | 0, _, _, nextSequence => some (nextSequence, [])
  | left + 1, i, reader, nextSequence =>
    let readSize : ℤ :=
      if i = fragCount - 1 then frameLen - effectiveMtu * (fragCount - 1) else effectiveMtu
    match if readSize < 0 then none else reader.readWire readSize.toNat with
    | none => none
    | some (frag, reader) =>
      let sequence := (nextSequence + 1) % sequences
      (splitUp effectiveMtu frameLen fragCount left (i + 1) reader sequence).map fun more =>
        (more.1,
          { sequence := some sequence
            fragIndex := some i
            fragCount := some fragCount
            fragment := frag } :: more.2)

variable (l : LinkService) (frame : LpPacket)

/-- The fragments of a packet, before the other fields are set; `none` is a panic or a fatal
error.  The lengths of packets are far below `2 ^ 62`, so that sums with them do not wrap. -/
def fragments (wire : Wire) (effectiveMtu : ℤ) : Option (ℕ × List LpPacket) :=
  let frameLen := wire.flatten.length
  if effectiveMtu < frameLen then
    if !l.options.isFragmentationEnabled then some (l.nextSequence, [])
    else if effectiveMtu = 0 then none
    else
      let fragCount := (frameLen + effectiveMtu - 1).tdiv effectiveMtu
      if fragCount < 0 then none
      else
        splitUp effectiveMtu frameLen fragCount.toNat fragCount.toNat 0 (.new wire) l.nextSequence
  else some (l.nextSequence, [{ fragment := wire }])

/-- The fields that every frame of a packet has. -/
def label (e : LinkSend) (fragment : LpPacket) : LpPacket :=
  { fragment with
    pitToken := e.out.pitToken
    incomingFaceId := if l.options.isIncomingFaceIndicationEnabled then some e.out.inFace else none
    congestionMark := e.congestionMark
    nack := e.out.nackReason }

/-- `sendPacket`: the frames that are handed to the transport. -/
def sendPacket (e : LinkSend) : Option (LinkService × List LpPacket) :=
  (l.fragments e.out.raw (e.effectiveMtu l.options)).map fun sent =>
    ({ l with nextSequence := sent.1 }, sent.2.map (l.label e))

/-- The packets of a list are sent, one after another; the frames of each. -/
def sendAll : LinkService → List LinkSend → Option (LinkService × List (List LpPacket))
  | l, [] => some (l, [])
  | l, e :: es =>
    (l.sendPacket e).bind fun sent =>
      (sendAll sent.1 es).map fun more => (more.1, sent.2 :: more.2)

/-! ### Receiving -/

end LinkService

/-- What may panic when a packet is put together: `make` of a slice, and the write of an element. -/
structure Slices (m : Type → Type) where
  make : ℕ → m Wire
  write : Wire → ℕ → Bytes → m Wire

namespace Slices

/-- Nothing panics. -/
def total : Slices Id := ⟨fun n => List.replicate n [], fun buffer i b => buffer.set i b⟩

lemma total_write (buffer : Wire) (i : ℕ) (b : Bytes) :
    total.write buffer i b = pure (buffer.set i b) := rfl

/-- A slice of more than `limit` elements panics, and so does an index out of range. -/
def checked (limit : ℕ) : Slices Option where
  make n := if n ≤ limit then some (List.replicate n []) else none
  write buffer i b := if i < buffer.length then some (buffer.set i b) else none

end Slices

namespace LinkService

variable (l : LinkService) (frame : LpPacket)

/-- The buffer that a sequence has, and its slot. -/
def bufferOf (baseSequence : ℕ) : Option (Fin 16 × Wire) :=
  (l.reassembly.find baseSequence).bind fun k =>
    (l.reassembly.slots k).2.map fun buffer => (k, buffer)

section Slices

variable {m : Type → Type} [Monad m] (s : Slices m)

/-- The buffer of a sequence, and its slot: the one there is, or the next one of the ring. -/
def findBufferWith (baseSequence fragCount : ℕ) : m (LinkService × Fin 16 × Wire) :=
  match l.bufferOf baseSequence with
  | some (bufIndex, buffer) => pure (l, bufIndex, buffer)
  | none => do
    let buffer ← s.make fragCount
    let reassembly := l.reassembly.claim baseSequence buffer
    pure ({ l with reassembly }, reassembly.index, buffer)

/-- `reassemble`. -/
def reassembleWith (baseSequence fragIndex fragCount : ℕ) : m (LinkService × Option Wire) := do
  let (l, bufIndex, buffer) ← l.findBufferWith s baseSequence fragCount
  if fragCount ≠ buffer.length then pure (l, none)
  else if buffer.length ≤ fragIndex then pure (l, none)
  else
    let buffer ← s.write buffer fragIndex frame.fragment.flatten
    if buffer.any List.isEmpty then
      pure ({ l with reassembly := l.reassembly.store bufIndex buffer }, none)
    else pure ({ l with reassembly := l.reassembly.release bufIndex }, some buffer)

end Slices

/-- What is handed up with the fields of a frame. -/
def deliver (raw : Wire) : LinkPkt where
  raw := raw
  pitToken := frame.pitToken
  congestionMark := frame.congestionMark
  nextHopFaceID :=
    if l.options.isConsumerControlledForwardingEnabled then frame.nextHopFaceId else none
  nackReason := frame.nack

/-- An LP frame in `handleIncomingFrame`. -/
def handleLpWith {m : Type → Type} [Monad m] (s : Slices m) : m (LinkService × Option LinkPkt) :=
  if frame.fragment = [] then pure (l, none)
  else if l.options.isReassemblyEnabled ∧ frame.sequence.isSome then
    let fragIndex := frame.fragIndex.getD 0
    let fragCount := frame.fragCount.getD 1
    let baseSequence := (frame.sequence.getD 0 + sequences - fragIndex % sequences) % sequences
    if fragIndex = 0 ∧ fragCount = 1 then pure (l, some (l.deliver frame frame.fragment))
    else do
      let (l, wire) ← l.reassembleWith frame s baseSequence fragIndex fragCount
      pure (l, wire.map (l.deliver frame))
  else if frame.fragCount.isSome ∨ frame.fragIndex.isSome then pure (l, none)
  else pure (l, some (l.deliver frame frame.fragment))

/-- An LP frame that does not panic. -/
def handleLp : LinkService × Option LinkPkt := (l.handleLpWith frame .total).run

end LinkService

/-- What a frame is parsed as: a bare Interest or Data packet, or an LP packet. -/
inductive ParsedFrame where
  | bare (raw : Wire)
  | lp (frame : LpPacket)

/-- A frame as it is read back: its fragment is in one segment, and there is none if it is empty. -/
def LpPacket.joined (frame : LpPacket) : LpPacket :=
  { frame with
    fragment := if frame.fragment.flatten = [] then [] else [frame.fragment.flatten] }

/-- `Encode` and `ParseFwPacket`, on frames of some type: what was encoded is read back. -/
structure LpCodec (Frame : Type*) where
  encode : LpPacket → Frame
  parse : Frame → Option ParsedFrame
  parse_encode : ∀ frame, parse (encode frame) = some (.lp frame.joined)

namespace LinkService

variable {Frame : Type*}

/-- `handleIncomingFrame`, up to the packet that is parsed and dispatched. -/
def handleIncomingFrame (codec : LpCodec Frame) (l : LinkService) (frame : Frame) :
    LinkService × List LinkPkt :=
  match codec.parse frame with
  | none => (l, [])
  | some (.bare raw) => (l, [{ raw }])
  | some (.lp frame) => ((l.handleLp frame).1, (l.handleLp frame).2.toList)

end LinkService

end Mars
