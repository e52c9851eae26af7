import Mars.Basic
import Mathlib.Algebra.GroupWithZero.Nat

/-!
Reading a wire of several segments.

* `WireView`: a position in a wire; `skipGetSegCount`, `readSeg`, `readWire` as the source has them;
* `WireView.rest`: the bytes that are left; `Ok`: the position is in the wire.
-/

namespace Mars

open List Nat

/-- `Wire`: the segments of a packet. -/
abbrev Wire := List Bytes

/-- `WireView`; the segments begin with the current one, in which the next byte is at `rpos`. -/
structure WireView where
  segs : Wire
  apos : ℕ
  rpos : ℕ
  finish : ℕ

namespace WireView

/-- `NewWireView`. -/
def new (wire : Wire) : WireView := ⟨wire, 0, 0, (wire.map length).sum⟩

/-- `IsEOF`. -/
def isEOF (r : WireView) : Bool := r.finish ≤ r.apos

/-- `SkipGetSegCount`, from a segment on: the segments read, and `none` for an overflow. -/
def skipGetSegCount (finish : ℕ) : Wire → (apos rpos left segcount : ℕ) → Option (ℕ × WireView)
  | [], apos, rpos, left, segcount =>
    if left = 0 then some (segcount, ⟨[], apos, rpos, finish⟩) else none
  | seg :: segs, apos, rpos, left, segcount =>
    if left = 0 then some (segcount, ⟨seg :: segs, apos, rpos, finish⟩)
    else if isEOF ⟨seg :: segs, apos, rpos, finish⟩ then none
    else if left < seg.length - rpos then
      some (segcount + 1, ⟨seg :: segs, apos + left, rpos + left, finish⟩)
    else
      skipGetSegCount finish segs (apos + (seg.length - rpos)) 0 (left - (seg.length - rpos))
        (segcount + 1)

/-- `readSeg`: up to `size` bytes of the current segment. -/
def readSeg (r : WireView) (size : ℕ) : Bytes × WireView :=
  match r.segs with
  | [] => ([], r)
  | seg :: segs =>
    if size < seg.length - r.rpos then
      ((seg.drop r.rpos).take size, { r with apos := r.apos + size, rpos := r.rpos + size })
    else
      (seg.drop r.rpos, { r with segs := segs, apos := r.apos + (seg.length - r.rpos), rpos := 0 })

/-- The loop of `ReadWire`. -/
def readSegs : ℕ → WireView → ℕ → Wire × WireView
  | 0, r, _ => ([], r)
  | n + 1, r, size =>
    let read := r.readSeg size
    let more := readSegs n read.2 (size - read.1.length)
    (read.1 :: more.1, more.2)

/-- `ReadWire`. -/
def readWire (r : WireView) (size : ℕ) : Option (Wire × WireView) :=
  (skipGetSegCount r.finish r.segs r.apos r.rpos size 0).map fun skipped =>
    readSegs skipped.1 r size

/-! ### What is read -/

variable {r : WireView} {wire : Wire} {size : ℕ}

/-- The bytes that are left. -/
def rest (r : WireView) : Bytes := r.segs.flatten.drop r.rpos

/-- The position is in the current segment, and the two positions agree. -/
structure Ok (r : WireView) : Prop where
  within : ∀ seg ∈ r.segs.head?, r.rpos ≤ seg.length
  apos : r.apos + r.rest.length = r.finish

lemma ok_new : (new wire).Ok where
  within := fun _ _ => zero_le _
  apos := by simp [new, rest, length_flatten]

lemma rest_new : (new wire).rest = wire.flatten := rfl

section Segment

variable {seg : Bytes} {segs : Wire} {apos rpos finish left : ℕ}

/-- What the bytes that are left are made of. -/
lemma rest_cons (h : rpos ≤ seg.length) :
    rest ⟨seg :: segs, apos, rpos, finish⟩ = seg.drop rpos ++ segs.flatten := by
  rw [rest, flatten_cons, drop_append_of_le_length h]

lemma Ok.apos_cons (h : Ok ⟨seg :: segs, apos, rpos, finish⟩) :
    apos + (seg.length - rpos + segs.flatten.length) = finish := by
  have hapos := h.apos
  rwa [rest_cons (h.within seg rfl), length_append, length_drop] at hapos

end Segment

end WireView

end Mars
