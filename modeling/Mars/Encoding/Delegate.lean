import Mars.Encoding.WireView
import Mars.Lib.Steps
import Mathlib.Order.MinMax

/-!
Views of a part of a wire.

* `WireView.walk`: the loop of `ReadFull`, `SkipGetSegCount` and `CopyN`; `readByte`, `readBuf`;
* `DelegatedView`, `delegate`, `perform`: a view with its start, and the calls on it;
* `avail`: what is left in the segments up to the one in which the view ends; `walk_spec`: the loop
  takes what is asked for or what is available;
* `Confined`: a call stays in the range of its view; `Fits`: a size is in the range, or the range
  ends with a segment; `confined_iff_fits`;
* `calls_confined_iff_fit`: over any tree of views and any sequence of calls.
-/

namespace Mars

open List Nat

/-- Why a read fails: `io.EOF`, `io.ErrUnexpectedEOF`, `ErrBufferOverflow`, an error of a writer, or
an index out of range, which panics. -/
inductive ReadErr where
  | eof
  | unexpectedEOF
  | overflow
  | write
  | outOfRange
  deriving DecidableEq, Repr

namespace WireView

/-! ### Reads -/

/-- The loop of `ReadFull`, `SkipGetSegCount` and `CopyN` from a segment on: each pass takes what is
left of a segment or what is left to take.  The chunks, the error, and the view after it; the writer
of `CopyN` may fail on chunk `stop`. -/
def walk (finish : ℕ) :
    Option ℕ → Wire → (apos rpos left : ℕ) → Wire × Option ReadErr × WireView
  | _, [], apos, rpos, left =>
    ([], if left = 0 then none else if finish ≤ apos then some .overflow else some .outOfRange,
      ⟨[], apos, rpos, finish⟩)
  | stop, seg :: segs, apos, rpos, left =>
    if left = 0 then ([], none, ⟨seg :: segs, apos, rpos, finish⟩)
    else if finish ≤ apos then ([], some .overflow, ⟨seg :: segs, apos, rpos, finish⟩)
    else if left < seg.length - rpos then
      ([(seg.drop rpos).take left], if stop = some 0 then some .write else none,
        ⟨seg :: segs, apos + left, rpos + left, finish⟩)
    else if stop = some 0 then
      ([seg.drop rpos], some .write, ⟨segs, apos + (seg.length - rpos), 0, finish⟩)
    else
      let more := walk finish (stop.map pred) segs (apos + (seg.length - rpos)) 0
        (left - (seg.length - rpos))
      (seg.drop rpos :: more.1, more.2)

variable (r : WireView) (size : ℕ)

/-- `ReadByte`. -/
def readByte : Except ReadErr ℕ × WireView :=
  if r.isEOF then (.error .eof, r)
  else
    match r.segs with
    | [] => (.error .outOfRange, r)
    | seg :: segs =>
      match seg[r.rpos]? with
      | none => (.error .outOfRange, r)
      | some b =>
        if r.rpos + 1 = seg.length then
          (.ok b, { r with
            segs := segs
            apos := r.apos + 1
            rpos := 0 })
        else
          (.ok b, { r with
            apos := r.apos + 1
            rpos := r.rpos + 1 })

/-- `ReadFull` into a buffer of `size` bytes: what is copied. -/
def readFull : Bytes × Option ReadErr × WireView :=
  let w := walk r.finish none r.segs r.apos r.rpos size
  (w.1.flatten, w.2)

/-- `Skip`. -/
def skip : Option ReadErr × WireView :=
  (walk r.finish none r.segs r.apos r.rpos size).2

/-- `CopyN`: what the writer is given. -/
def copyN (stop : Option ℕ) : Bytes × Option ReadErr × WireView :=
  let w := walk r.finish stop r.segs r.apos r.rpos size
  (w.1.flatten, w.2)

/-- `ReadBuf`; a negative size is out of range unless the view is at its end. -/
def readBuf (size : ℤ) : Except ReadErr Bytes × WireView :=
  if (r.finish : ℤ) - r.apos < size then (.error .overflow, r)
  else if size = 0 then (.ok [], r)
  else if r.isEOF then (.error .eof, r)
  else if size < 0 then (.error .outOfRange, r)
  else
    -- the size is in the range, and the loop does not look for its end again
    let w := walk (r.apos + size.toNat) none r.segs r.apos r.rpos size.toNat
    (.ok w.1.flatten, { w.2.2 with finish := r.finish })

/-! ### What is available -/

/-- What is left in the segments up to the one in which the next `rem` bytes end. -/
def avail : Wire → (rpos rem : ℕ) → ℕ
  | [], _, _ => 0
  | seg :: segs, rpos, rem =>
    if rem = 0 then 0 else seg.length - rpos + avail segs 0 (rem - (seg.length - rpos))

/-- What is left up to the end of segment `k`. -/
def upTo : Wire → (rpos k : ℕ) → ℕ
  | [], _, _ => 0
  | seg :: _, rpos, 0 => seg.length - rpos
  | seg :: segs, rpos, k + 1 => seg.length - rpos + upTo segs 0 k

/-- What is asked for, or what the writer takes. -/
def wanted (segs : Wire) (rpos left : ℕ) : Option ℕ → ℕ
  | none => left
  | some k => min left (upTo segs rpos k)

/-- The next byte is in the current segment, and the view ends in the wire. -/
structure Placed (r : WireView) : Prop where
  nonempty : ∀ seg ∈ r.segs, seg ≠ []
  within : ∀ seg ∈ r.segs.head?, r.rpos < seg.length
  lower : r.apos ≤ r.finish
  upper : r.finish ≤ r.apos + r.rest.length

/-- The view has moved by `n` bytes. -/
structure Moved (r : WireView) (n : ℕ) (r' : WireView) : Prop where
  nonempty : ∀ seg ∈ r'.segs, seg ≠ []
  within : ∀ seg ∈ r'.segs.head?, r'.rpos < seg.length
  apos : r'.apos = r.apos + n
  finish : r'.finish = r.finish
  rest : r'.rest = r.rest.drop n

/-- The loop takes `n` bytes. -/
structure Walks (r : WireView) (stop : Option ℕ) (left n : ℕ)
    (w : Wire × Option ReadErr × WireView) : Prop where
  taken : w.1.flatten = r.rest.take n
  moved : r.Moved n w.2.2
  all : w.2.1 = none → n = left
  err : ∀ e ∈ w.2.1, e = .overflow ∧ n < left ∨ e = .write ∧ stop ≠ none

variable {r r' : WireView} {n : ℕ}

lemma Placed.moved_zero (h : r.Placed) : r.Moved 0 r :=
  ⟨h.nonempty, h.within, rfl, rfl, drop_zero.symm⟩

lemma Placed.of_moved (h : r.Placed) (hm : r.Moved n r') (hn : n ≤ r.finish - r.apos) :
    r'.Placed := by
  have hlower := h.lower
  have hupper := h.upper
  refine ⟨hm.nonempty, hm.within, ?_, ?_⟩
  · rw [hm.apos, hm.finish]
    omega
  · rw [hm.apos, hm.finish, hm.rest, length_drop]
    omega

section Walk

variable {seg : Bytes} {segs : Wire} {finish apos rpos left : ℕ} {stop : Option ℕ}

/-- The view in the middle of a segment. -/
lemma moved_within (hnonempty : ∀ s ∈ seg :: segs, s ≠ []) (hlt : left < seg.length - rpos) :
    Moved ⟨seg :: segs, apos, rpos, finish⟩ left
      ⟨seg :: segs, apos + left, rpos + left, finish⟩ where
  nonempty := hnonempty
  within s hs := by
    obtain rfl := Option.some.inj hs
    dsimp only
    omega
  apos := rfl
  finish := rfl
  rest := by
    rw [rest, rest, drop_drop]

/-- The view at the start of the next segment. -/
lemma moved_next (hnonempty : ∀ s ∈ seg :: segs, s ≠ []) (hrpos : rpos < seg.length) :
    Moved ⟨seg :: segs, apos, rpos, finish⟩ (seg.length - rpos)
      ⟨segs, apos + (seg.length - rpos), 0, finish⟩ where
  nonempty s hs := hnonempty s (mem_cons_of_mem seg hs)
  within s hs :=
    length_pos_of_ne_nil
      (hnonempty s (mem_cons_of_mem seg (mem_of_mem_head? hs)))
  apos := rfl
  finish := rfl
  rest := by
    rw [rest_cons hrpos.le, drop_append, length_drop,
      drop_of_length_le (length_drop.le), Nat.sub_self]
    rfl

lemma Moved.trans {r'' : WireView} {n' : ℕ} (h : r.Moved n r') (h' : r'.Moved n' r'') :
    r.Moved (n + n') r'' where
  nonempty := h'.nonempty
  within := h'.within
  apos := by rw [h'.apos, h.apos, add_assoc]
  finish := h'.finish.trans h.finish
  rest := by rw [h'.rest, h.rest, drop_drop]

/-- What is wanted of the later segments. -/
lemma wanted_cons (hge : ¬ left < seg.length - rpos) (hstop : stop ≠ some 0) :
    wanted (seg :: segs) rpos left stop
      = seg.length - rpos + wanted segs 0 (left - (seg.length - rpos)) (stop.map pred) := by
  match stop with
  | none =>
    rw [wanted, Option.map_none, wanted]
    omega
  | some 0 => exact absurd rfl hstop
  | some (k + 1) =>
    rw [wanted, upTo, Option.map_some, Nat.pred_succ, wanted]
    omega

lemma le_upTo {k : ℕ} : seg.length - rpos ≤ upTo (seg :: segs) rpos k := by
  cases k with
  | zero => exact le_rfl
  | succ k => exact Nat.le_add_right _ _

lemma wanted_eq_left (hlt : left < seg.length - rpos) :
    wanted (seg :: segs) rpos left stop = left := by
  cases stop with
  | none => rfl
  | some k => exact min_eq_left (hlt.le.trans le_upTo)

/-- The segment has more than is asked for. -/
lemma walks_within (hnonempty : ∀ s ∈ seg :: segs, s ≠ []) (hlt : left < seg.length - rpos)
    {err : Option ReadErr} (herr : ∀ e ∈ err, e = .write ∧ stop ≠ none) :
    Walks ⟨seg :: segs, apos, rpos, finish⟩ stop left left
      ([(seg.drop rpos).take left], err, ⟨seg :: segs, apos + left, rpos + left, finish⟩) where
  taken := by
    rw [rest_cons (by omega), take_append_of_le_length (by rw [length_drop]; omega),
      flatten_cons, flatten_nil, append_nil]
  moved := moved_within hnonempty hlt
  all _ := rfl
  err e he := .inr (herr e he)

/-- What is left of the segment is taken, and `n` bytes of the next ones. -/
lemma taken_next (hrpos : rpos < seg.length) {chunks : Wire}
    (h : chunks.flatten = segs.flatten.take n) :
    (seg.drop rpos :: chunks).flatten
      = (rest ⟨seg :: segs, apos, rpos, finish⟩).take (seg.length - rpos + n) := by
  have hlen : (seg.drop rpos).length = seg.length - rpos := length_drop
  rw [rest_cons hrpos.le, take_append, hlen, Nat.add_sub_cancel_left,
    take_of_length_le (by omega), flatten_cons, h]

/-- **The loop takes what is wanted, or what is available.** -/
lemma walk_spec : ∀ {stop : Option ℕ} {apos rpos left : ℕ},
    (∀ seg ∈ segs, seg ≠ []) → (∀ seg ∈ segs.head?, rpos < seg.length) →
    finish ≤ apos + (rest ⟨segs, apos, rpos, finish⟩).length →
    Walks ⟨segs, apos, rpos, finish⟩ stop left
      (min (wanted segs rpos left stop) (avail segs rpos (finish - apos)))
      (walk finish stop segs apos rpos left) := by
  induction segs with
  | nil =>
    intro stop apos rpos left hnonempty hwithin hupper
    have heof : finish ≤ apos := by simpa [rest] using hupper
    rw [walk, avail, Nat.min_zero, if_pos heof]
    refine ⟨rfl, ⟨hnonempty, hwithin, rfl, rfl, rfl⟩, ?_, ?_⟩
    · split_ifs with hleft
      · exact fun _ => hleft.symm
      · exact fun h => by cases h
    · split_ifs with hleft
      · exact fun _ h => by cases h
      · exact fun _ h => .inl ⟨(Option.some.inj h).symm, Nat.pos_of_ne_zero hleft⟩
  | cons seg segs ih =>
    intro stop apos rpos left hnonempty hwithin hupper
    have hrpos : rpos < seg.length := hwithin seg rfl
    have hrest : rest ⟨seg :: segs, apos, rpos, finish⟩ = seg.drop rpos ++ segs.flatten :=
      rest_cons hrpos.le
    have hstay : Moved ⟨seg :: segs, apos, rpos, finish⟩ 0 ⟨seg :: segs, apos, rpos, finish⟩ :=
      ⟨hnonempty, hwithin, rfl, rfl, rfl⟩
    rw [walk]
    split_ifs with hleft heof hlt hstop hstop
    · -- nothing is asked for
      have hn : wanted (seg :: segs) rpos left stop = 0 := by
        cases stop with
        | none => exact hleft
        | some k => rw [wanted, hleft, Nat.zero_min]
      rw [hn, Nat.zero_min]
      exact ⟨rfl, hstay, fun _ => hleft.symm, fun _ h => by cases h⟩
    · -- the view is at its end
      rw [avail, if_pos (Nat.sub_eq_zero_of_le heof), Nat.min_zero]
      exact ⟨rfl, hstay, (fun h => by cases h),
        fun _ h => .inl ⟨(Option.some.inj h).symm, Nat.pos_of_ne_zero hleft⟩⟩
    all_goals
      have havail : avail (seg :: segs) rpos (finish - apos)
          = seg.length - rpos + avail segs 0 (finish - (apos + (seg.length - rpos))) := by
        rw [avail, if_neg (by omega), Nat.sub_sub]
    · -- the segment has more than is asked for
      rw [havail, wanted_eq_left hlt, Nat.min_eq_left (by omega)]
      exact walks_within hnonempty hlt (fun _ h => ⟨(Option.some.inj h).symm, by simp [hstop]⟩)
    · rw [havail, wanted_eq_left hlt, Nat.min_eq_left (by omega)]
      exact walks_within hnonempty hlt (fun _ h => by cases h)
    · -- the writer fails on what is left of the segment
      rw [havail, hstop, wanted, upTo, min_eq_right (not_lt.mp hlt),
        min_eq_left (le_add_right _ _)]
      exact ⟨taken_next hrpos (n := 0) rfl, moved_next hnonempty hrpos, (fun h => by cases h),
        fun _ h => .inr ⟨(Option.some.inj h).symm, Option.some_ne_none 0⟩⟩
    · -- the loop goes on with the next segment
      have hmoved : Moved ⟨seg :: segs, apos, rpos, finish⟩ (seg.length - rpos)
          ⟨segs, apos + (seg.length - rpos), 0, finish⟩ := moved_next hnonempty hrpos
      have hupper' : finish ≤ apos + (seg.length - rpos)
          + (rest ⟨segs, apos + (seg.length - rpos), 0, finish⟩).length := by
        rw [hrest, length_append, length_drop] at hupper
        exact hupper.trans (Nat.add_assoc _ _ _).ge
      obtain ⟨htaken, hmoved', hall, herr⟩ := ih hmoved.nonempty hmoved.within hupper'
      rw [havail, wanted_cons hlt hstop, Nat.add_min_add_left]
      refine ⟨taken_next hrpos htaken, hmoved.trans hmoved', fun h => ?_, fun e he => ?_⟩
      · rw [hall h]
        omega
      · rcases herr e he with ⟨hover, hshort⟩ | ⟨hwrite, hsome⟩
        · exact .inl ⟨hover, Nat.add_lt_of_lt_sub' hshort⟩
        · refine .inr ⟨hwrite, fun hnone => hsome ?_⟩
          rw [hnone, Option.map_none]

variable (finish) in
/-- The passes of `ReadWire` are the loop: one counts the segments, and one takes them. -/
lemma passes_eq_walk (segs : Wire) : ∀ apos rpos left segcount : ℕ,
    let w := walk finish none segs apos rpos left
    skipGetSegCount finish segs apos rpos left segcount
        = (if w.2.1 = none then some (segcount + w.1.length, w.2.2) else none)
      ∧ (w.2.1 = none → readSegs w.1.length ⟨segs, apos, rpos, finish⟩ left = (w.1, w.2.2)) := by
  induction segs with
  | nil =>
    intro apos rpos left segcount
    rw [skipGetSegCount, walk]
    refine ⟨?_, fun _ => rfl⟩
    split_ifs <;> simp_all
  | cons seg segs ih =>
    intro apos rpos left segcount
    rw [skipGetSegCount, walk, isEOF]
    by_cases hleft : left = 0
    · simp only [if_pos hleft]
      exact ⟨rfl, fun _ => rfl⟩
    by_cases heof : finish ≤ apos
    · simp only [if_neg hleft, if_pos heof, decide_eq_true heof, if_true]
      exact ⟨rfl, nofun⟩
    simp only [if_neg hleft, if_neg heof, decide_eq_false heof, Bool.false_eq_true, if_false,
      if_neg (Option.some_ne_none 0).symm]
    by_cases hlt : left < seg.length - rpos
    · simp only [if_pos hlt]
      refine ⟨rfl, fun _ => ?_⟩
      rw [length_singleton, readSegs, readSegs, readSeg]
      dsimp only
      rw [if_pos hlt]
    · simp only [if_neg hlt, Option.map_none]
      obtain ⟨hskip, hread⟩ := ih (apos + (seg.length - rpos)) 0 (left - (seg.length - rpos))
        (segcount + 1)
      rw [hskip, length_cons, Nat.add_right_comm, Nat.add_assoc]
      refine ⟨rfl, fun herr => ?_⟩
      rw [readSegs, readSeg]
      dsimp only
      rw [if_neg hlt]
      dsimp only
      rw [length_drop, hread herr]

/-- `ReadWire` is the loop, unless it fails. -/
lemma readWire_eq_walk (r : WireView) {size : ℕ} :
    r.readWire size = if (walk r.finish none r.segs r.apos r.rpos size).2.1 = none then
      some ((walk r.finish none r.segs r.apos r.rpos size).1,
        (walk r.finish none r.segs r.apos r.rpos size).2.2) else none := by
  obtain ⟨hskip, hread⟩ := passes_eq_walk r.finish r.segs r.apos r.rpos size 0
  rw [readWire, hskip]
  split_ifs with herr
  · rw [Option.map_some, Nat.zero_add]
    exact congrArg some (hread herr)
  · rfl

/-- The loop takes what is asked for, if it is there; segments may be empty. -/
lemma walk_takes : ∀ {apos rpos left : ℕ}, Ok ⟨segs, apos, rpos, finish⟩ →
    left ≤ (rest ⟨segs, apos, rpos, finish⟩).length →
    let w := walk finish none segs apos rpos left
    w.2.1 = none ∧ w.1.flatten = (rest ⟨segs, apos, rpos, finish⟩).take left
      ∧ w.2.2.rest = (rest ⟨segs, apos, rpos, finish⟩).drop left ∧ w.2.2.Ok := by
  induction segs with
  | nil =>
    intro apos rpos left hok hle
    obtain rfl : left = 0 := by simpa [rest] using hle
    exact ⟨rfl, rfl, rfl, hok⟩
  | cons seg segs ih =>
    intro apos rpos left hok hle
    have hapos := hok.apos_cons
    have hin : rpos ≤ seg.length := hok.within seg rfl
    have hlen : (seg.drop rpos).length = seg.length - rpos := length_drop
    rw [rest_cons hin] at hle ⊢
    rw [length_append, hlen] at hle
    rw [walk]
    by_cases hleft : left = 0
    · rw [if_pos hleft, hleft]
      exact ⟨rfl, rfl, rest_cons hin, hok⟩
    · rw [if_neg hleft, if_neg (show ¬finish ≤ apos by omega)]
      by_cases hlt : left < seg.length - rpos
      · have hin' : rpos + left ≤ seg.length := by omega
        rw [if_pos hlt]
        refine ⟨rfl, ?_, ?_, fun seg' hseg => ?_, ?_⟩
        · rw [take_append_of_le_length (by omega)]
          exact append_nil _
        · rw [drop_append_of_le_length (by omega), drop_drop]
          exact rest_cons hin'
        · obtain rfl := Option.some.inj hseg
          exact hin'
        · dsimp only
          rw [rest_cons hin', length_append, length_drop]
          omega
      · have hok' : Ok ⟨segs, apos + (seg.length - rpos), 0, finish⟩ :=
          ⟨fun _ _ => zero_le _, (add_assoc _ _ _).trans hapos⟩
        obtain ⟨herr, htaken, hrest, hmore⟩ := ih hok'
          (show left - (seg.length - rpos) ≤ segs.flatten.length by omega)
        rw [if_neg hlt, if_neg (Option.some_ne_none 0).symm]
        refine ⟨herr, ?_, ?_, hmore⟩
        · rw [take_append, hlen, take_of_length_le (by omega)]
          exact congrArg (seg.drop rpos ++ ·) htaken
        · have hall : (seg.drop rpos).drop left = [] := drop_of_length_le (by omega)
          rw [drop_append, hlen, hall, nil_append]
          exact hrest

/-- **A read within the bytes that are left takes them from their start.** -/
lemma readWire_spec {size : ℕ} (h : r.Ok) (hle : size ≤ r.rest.length) :
    ∃ wire r', r.readWire size = some (wire, r') ∧ wire.flatten = r.rest.take size
      ∧ r'.rest = r.rest.drop size ∧ r'.Ok := by
  obtain ⟨herr, htaken, hrest, hok⟩ := walk_takes h hle
  exact ⟨_, _, (readWire_eq_walk r).trans (if_pos herr), htaken, hrest, hok⟩

lemma le_avail : ∀ rpos rem : ℕ, rem ≤ segs.flatten.length - rpos → rem ≤ avail segs rpos rem := by
  induction segs with
  | nil => exact fun _ _ h => h.trans (sub_le 0 _)
  | cons seg segs ih =>
    intro rpos rem h
    rw [flatten_cons, length_append] at h
    have hmore := ih 0 (rem - (seg.length - rpos)) (by omega)
    rw [avail]
    split_ifs <;> omega

end Walk

/-! ### Reads of a view that is placed -/

/-- What is left of the range of a view. -/
def remaining (r : WireView) : ℕ := r.finish - r.apos

/-- What is left in the segments up to the one in which the view ends. -/
def available (r : WireView) : ℕ := avail r.segs r.rpos r.remaining

lemma Placed.walks (h : r.Placed) (stop : Option ℕ) (size : ℕ) :
    r.Walks stop size (min (wanted r.segs r.rpos size stop) r.available)
      (walk r.finish stop r.segs r.apos r.rpos size) :=
  walk_spec h.nonempty h.within h.upper

lemma Placed.remaining_le (h : r.Placed) : r.remaining ≤ r.available := by
  refine le_avail r.rpos r.remaining ?_
  have hupper := h.upper
  rw [rest, length_drop] at hupper
  rw [remaining]
  omega

/-- `ReadByte` takes the next byte of the range. -/
lemma Placed.readByte (h : r.Placed) :
    r.remaining = 0 ∧ r.readByte = (.error .eof, r) ∨
      0 < r.remaining ∧ ∃ b r', r.readByte = (.ok b, r') ∧ r.rest.take 1 = [b] ∧ r.Moved 1 r' := by
  obtain ⟨segs, apos, rpos, finish⟩ := r
  have hupper := h.upper
  by_cases heof : finish ≤ apos
  · exact .inl ⟨Nat.sub_eq_zero_of_le heof, if_pos (decide_eq_true heof)⟩
  · refine .inr ⟨Nat.sub_pos_of_lt (not_le.mp heof), ?_⟩
    cases segs with
    | nil => exact absurd (by simpa [rest] using hupper) heof
    | cons seg segs =>
      have hrpos : rpos < seg.length := h.within seg rfl
      have hbyte : rest ⟨seg :: segs, apos, rpos, finish⟩
          = seg[rpos] :: (seg.drop (rpos + 1) ++ segs.flatten) := by
        rw [rest_cons hrpos.le, drop_eq_getElem_cons hrpos, cons_append]
      rw [WireView.readByte, if_neg (by simpa [isEOF] using heof)]
      dsimp only
      rw [getElem?_eq_getElem hrpos]
      dsimp only
      refine ⟨seg[rpos], ?_⟩
      rw [hbyte]
      split_ifs with hlast
      · have hone : seg.length - rpos = 1 := by omega
        have hmoved : Moved ⟨seg :: segs, apos, rpos, finish⟩ (seg.length - rpos)
            ⟨segs, apos + (seg.length - rpos), 0, finish⟩ := moved_next h.nonempty hrpos
        rw [hone] at hmoved
        exact ⟨_, rfl, rfl, hmoved⟩
      · exact ⟨_, rfl, rfl, moved_within h.nonempty (by omega)⟩

/-- `ReadBuf` takes what is asked for, if the range has it. -/
lemma Placed.readBuf (h : r.Placed) {size : ℕ} :
    r.remaining < size ∧ r.readBuf size = (.error .overflow, r) ∨
      size ≤ r.remaining ∧
        ∃ r', r.readBuf size = (.ok (r.rest.take size), r') ∧ r.Moved size r' := by
  have hlower := h.lower
  rw [WireView.readBuf, remaining]
  by_cases hover : r.finish - r.apos < size
  · exact .inl ⟨hover, if_pos (by omega)⟩
  · refine .inr ⟨not_lt.mp hover, ?_⟩
    rw [if_neg (by omega)]
    rcases Nat.eq_zero_or_pos size with rfl | hpos
    · exact ⟨r, if_pos rfl, h.moved_zero⟩
    · have hupper := h.upper
      have heof : ¬ r.isEOF = true := by
        rw [isEOF, decide_eq_true_eq]
        omega
      rw [if_neg (by omega), if_neg heof, if_neg (by omega), Int.toNat_natCast]
      have hplaced : Placed { r with finish := r.apos + size } :=
        ⟨h.nonempty, h.within, le_add_right _ _, by dsimp only [rest] at hupper ⊢; omega⟩
      have hsize : size ≤ available { r with finish := r.apos + size } := by
        refine le_trans ?_ hplaced.remaining_le
        exact (Nat.add_sub_cancel_left r.apos size).ge
      have hwalks : Walks { r with finish := r.apos + size } none size size
          (walk (r.apos + size) none r.segs r.apos r.rpos size) := by
        have hwalks := hplaced.walks none size
        rwa [wanted, Nat.min_eq_left hsize] at hwalks
      obtain ⟨htaken, hmoved, -, -⟩ := hwalks
      exact ⟨_, Prod.ext (congrArg Except.ok htaken) rfl,
        hmoved.nonempty, hmoved.within, hmoved.apos, rfl, hmoved.rest⟩

end WireView

/-! ### Delegated views -/

/-- A `WireView` with the position at which its range starts. -/
structure DelegatedView extends WireView where
  start : ℕ

/-- The calls on a view; the writer of `copyN` may fail on a chunk. -/
inductive ViewOp where
  | readByte
  | readBuf (size : ℕ)
  | readFull (size : ℕ)
  | readWire (size : ℕ)
  | skip (size : ℕ)
  | copyN (size : ℕ) (stop : Option ℕ)

/-- The number of bytes that a call asks for. -/
def ViewOp.size : ViewOp → ℕ
  | .readByte => 1
  | .readBuf size | .readFull size | .readWire size | .skip size | .copyN size _ => size

/-- The errors of a call that asks for too much. -/
def ViewOp.refusals : ViewOp → List ReadErr
  | .readByte => [.eof]
  | .copyN _ (some _) => [.overflow, .write]
  | _ => [.overflow]

namespace DelegatedView

open WireView (wanted upTo)

/-- `NewWireView`. -/
def new (wire : Wire) : DelegatedView := ⟨WireView.new wire, 0⟩

variable (v : DelegatedView)

/-- `Delegate`: the view of the next `size` bytes, and the view itself after them. -/
def delegate (size : ℕ) : DelegatedView × DelegatedView :=
  if v.finish < v.apos + size then (⟨⟨[], 0, 0, 0⟩, 0⟩, v)
  else
    ({ v with
        start := v.apos
        finish := v.apos + size },
      { v with toWireView := (v.skip size).2 })

/-- A call: the bytes it hands out, its error, and the view after it. -/
def perform : ViewOp → Bytes × Option ReadErr × DelegatedView
  | .readByte =>
    match v.readByte with
    | (.ok b, r) => ([b], none, { v with toWireView := r })
    | (.error e, r) => ([], some e, { v with toWireView := r })
  | .readBuf size =>
    match v.readBuf size with
    | (.ok bytes, r) => (bytes, none, { v with toWireView := r })
    | (.error e, r) => ([], some e, { v with toWireView := r })
  | .readFull size =>
    let w := v.readFull size
    (w.1, w.2.1, { v with toWireView := w.2.2 })
  | .readWire size =>
    match v.readWire size with
    | some (wire, r) => (wire.flatten, none, { v with toWireView := r })
    | none => ([], some .overflow, v)
  | .skip size =>
    let w := v.skip size
    ([], w.1, { v with toWireView := w.2 })
  | .copyN size stop =>
    let w := v.copyN size stop
    (w.1, w.2.1, { v with toWireView := w.2.2 })

/-- A call hands out bytes of the range only, the view stays in its range, and what exceeds the
range is refused. -/
structure Confined (v : DelegatedView) (op : ViewOp) : Prop where
  bytes : (v.perform op).1 <+: v.rest.take v.remaining
  start : v.start ≤ (v.perform op).2.2.apos
  finish : (v.perform op).2.2.apos ≤ v.finish
  refused : v.remaining < op.size → ∃ e ∈ op.refusals, (v.perform op).2.1 = some e

/-- The size is in the range, or the range ends with a segment; the writer of `copyN` may also fail
before the end of the range, and `readWire` looks for the bytes before it reads them. -/
def Fits : ViewOp → Prop
  | .readByte | .readBuf _ => True
  | .readFull size | .skip size => size ≤ v.remaining ∨ v.available ≤ v.remaining
  | .copyN size stop => size ≤ v.remaining ∨ v.available ≤ v.remaining ∨
      ∃ k, stop = some k ∧ upTo v.segs v.rpos k ≤ v.remaining
  | .readWire size => size ≤ v.remaining ∨ v.available < size

/-- The view is placed in the wire, in its range. -/
structure InRange (v : DelegatedView) : Prop where
  placed : v.Placed
  start : v.start ≤ v.apos

variable {v : DelegatedView} {op : ViewOp}

section

variable (h : v.InRange)
include h

/-- A call that moves the view by `n` bytes is confined iff these are in the range. -/
lemma confined_iff {n : ℕ} (hmoved : v.Moved n (v.perform op).2.2.toWireView)
    (hbytes : (v.perform op).1 <+: v.rest.take n)
    (hrefused : n < op.size → ∃ e ∈ op.refusals, (v.perform op).2.1 = some e) :
    v.Confined op ↔ n ≤ v.remaining := by
  have hlower := h.placed.lower
  have hstart := h.start
  have hapos := hmoved.apos
  constructor
  · intro hconfined
    have hfinish := hconfined.finish
    rw [hapos] at hfinish
    rw [WireView.remaining]
    omega
  · intro hn
    have hin : v.apos + n ≤ v.finish := by
      rw [WireView.remaining] at hn
      omega
    exact ⟨hbytes.trans (take_prefix_take_left hn),
      hapos ▸ hstart.trans (le_add_right _ _), hapos ▸ hin,
      fun hover => hrefused (hn.trans_lt hover)⟩

/-- A call that is the loop. -/
lemma confined_of_walks {stop : Option ℕ} {n : ℕ}
    {w : Wire × Option ReadErr × WireView} (hw : v.Walks stop op.size n w)
    (hbytes : (v.perform op).1 <+: w.1.flatten)
    (hperform : (v.perform op).2 = (w.2.1, { v with toWireView := w.2.2 }))
    (hrefusals : .overflow ∈ op.refusals ∧ (stop ≠ none → .write ∈ op.refusals)) :
    v.Confined op ↔ n ≤ v.remaining := by
  refine confined_iff h ?_ (hw.taken ▸ hbytes) fun hshort => ?_
  · rw [hperform]
    exact hw.moved
  · rw [hperform]
    cases herr : w.2.1 with
    | none => exact absurd (hw.all herr) hshort.ne
    | some e =>
      rcases hw.err e herr with ⟨rfl, -⟩ | ⟨rfl, hstop⟩
      · exact ⟨_, hrefusals.1, rfl⟩
      · exact ⟨_, hrefusals.2 hstop, rfl⟩

omit h in
variable (v op) in
/-- A call hands out all that it is asked for, if a condition is met, and else it is refused. -/
def AllOrNothing (P : Prop) : Prop :=
  P ∧ (∃ r', v.Moved op.size r' ∧
    v.perform op = (v.rest.take op.size, none, { v with toWireView := r' })) ∨
  ¬P ∧ ∃ e ∈ op.refusals, v.perform op = ([], some e, v)

lemma allOrNothing_readByte : v.AllOrNothing .readByte (1 ≤ v.remaining) := by
  rcases h.placed.readByte with ⟨hnone, hread⟩ | ⟨hsome, b, r', hread, hbyte, hmoved⟩
  · exact .inr ⟨by omega, _, mem_cons_self, by rw [perform, hread]⟩
  · exact .inl ⟨hsome, r', hmoved, by rw [perform, hread, ViewOp.size, hbyte]⟩

lemma allOrNothing_readBuf {size : ℕ} :
    v.AllOrNothing (.readBuf size) (size ≤ v.remaining) := by
  rcases h.placed.readBuf with ⟨hover, hread⟩ | ⟨hin, r', hread, hmoved⟩
  · exact .inr ⟨not_le.mpr hover, _, mem_cons_self, by rw [perform, hread]⟩
  · exact .inl ⟨hin, r', hmoved, by rw [perform, hread, ViewOp.size]⟩

lemma allOrNothing_readWire {size : ℕ} :
    v.AllOrNothing (.readWire size) (size ≤ v.available) := by
  have hwalks := h.placed.walks none size
  rw [wanted] at hwalks
  rw [AllOrNothing, perform, WireView.readWire_eq_walk]
  cases herr : (WireView.walk v.finish none v.segs v.apos v.rpos size).2.1 with
  | none =>
    have hn := hwalks.all herr
    rw [hn] at hwalks
    rw [if_pos rfl]
    refine .inl ⟨min_eq_left_iff.mp hn, _, hwalks.moved, ?_⟩
    dsimp only
    rw [hwalks.taken]
    rfl
  | some e =>
    rcases hwalks.err e herr with ⟨-, hshort⟩ | ⟨-, hstop⟩
    · rw [if_neg (Option.some_ne_none e)]
      exact .inr ⟨not_le.mpr ((min_lt_iff.mp hshort).resolve_left (lt_irrefl size)), _,
        mem_cons_self, rfl⟩
    · exact absurd rfl hstop

lemma AllOrNothing.confined_iff {P : Prop} (hcall : v.AllOrNothing op P) :
    v.Confined op ↔ (P → op.size ≤ v.remaining) := by
  rcases hcall with ⟨hp, r', hmoved, hperform⟩ | ⟨hp, e, he, hperform⟩
  · rw [imp_iff_right hp]
    refine DelegatedView.confined_iff h (by rwa [hperform]) ?_ fun hlt => absurd hlt (lt_irrefl _)
    exact (congrArg Prod.fst hperform).symm ▸ prefix_rfl
  · refine iff_of_true ?_ fun hin => absurd hin hp
    refine (DelegatedView.confined_iff h (n := 0) ?_ ?_ fun _ => ?_).mpr (Nat.zero_le _)
    all_goals rw [hperform]
    · exact h.placed.moved_zero
    · exact nil_prefix
    · exact ⟨e, he, rfl⟩

lemma AllOrNothing.moved {P : Prop} (hcall : v.AllOrNothing op P) :
    (v.perform op).2.2.start = v.start ∧ ∃ n, v.Moved n (v.perform op).2.2.toWireView := by
  rcases hcall with ⟨-, r', hmoved, hperform⟩ | ⟨-, e, -, hperform⟩
  · rw [hperform]
    exact ⟨rfl, _, hmoved⟩
  · rw [hperform]
    exact ⟨rfl, 0, h.placed.moved_zero⟩

/-- **A call is confined iff it fits.** -/
lemma confined_iff_fits : v.Confined op ↔ v.Fits op := by
  cases op with
  | readByte => exact ((allOrNothing_readByte h).confined_iff h).trans (iff_of_true id trivial)
  | readBuf size => exact ((allOrNothing_readBuf h).confined_iff h).trans (iff_of_true id trivial)
  | readFull size =>
    have hiff : v.Confined (.readFull size) ↔ _ :=
      confined_of_walks h (h.placed.walks none size) prefix_rfl rfl
        ⟨mem_cons_self, fun hstop => absurd rfl hstop⟩
    rw [hiff, wanted, min_le_iff]
    rfl
  | skip size =>
    have hiff : v.Confined (.skip size) ↔ _ :=
      confined_of_walks h (h.placed.walks none size) nil_prefix rfl
        ⟨mem_cons_self, fun hstop => absurd rfl hstop⟩
    rw [hiff, wanted, min_le_iff]
    rfl
  | copyN size stop =>
    have hiff : v.Confined (.copyN size stop) ↔ _ :=
      confined_of_walks h (h.placed.walks stop size) prefix_rfl rfl
        (by cases stop <;> simp [ViewOp.refusals])
    rw [hiff, min_le_iff, Fits]
    cases stop with
    | none => simp [wanted]
    | some k =>
      rw [wanted, min_le_iff, or_assoc, or_comm (a := upTo _ _ _ ≤ _)]
      simp
  | readWire size =>
    rw [(allOrNothing_readWire h).confined_iff h, imp_iff_or_not, not_le]
    rfl

/-- Every call moves the view forward. -/
lemma exists_moved :
    (v.perform op).2.2.start = v.start ∧ ∃ n, v.Moved n (v.perform op).2.2.toWireView := by
  cases op with
  | readByte => exact (allOrNothing_readByte h).moved h
  | readBuf size => exact (allOrNothing_readBuf h).moved h
  | readWire size => exact (allOrNothing_readWire h).moved h
  | readFull size | skip size => exact ⟨rfl, _, (h.placed.walks none size).moved⟩
  | copyN size stop => exact ⟨rfl, _, (h.placed.walks stop size).moved⟩

/-- A call that is confined leaves its view in its range. -/
lemma InRange.perform (hop : v.Confined op) : (v.perform op).2.2.InRange := by
  obtain ⟨hstart, n, hmoved⟩ := exists_moved h
  have hlower := h.placed.lower
  have hfinish := hop.finish
  rw [hmoved.apos] at hfinish
  exact ⟨h.placed.of_moved hmoved (by omega), hstart ▸ hop.start⟩

omit h in
lemma inRange_new {wire : Wire} (hwire : ∀ seg ∈ wire, seg ≠ []) : (new wire).InRange where
  placed :=
    { nonempty := hwire
      within := fun seg hseg => length_pos_of_ne_nil (hwire seg (mem_of_mem_head? hseg))
      lower := zero_le _
      upper := WireView.ok_new.apos.ge }
  start := le_rfl

/-- Both views are in their ranges after a delegation. -/
lemma InRange.delegate {size : ℕ} (hsize : size ≤ v.remaining) :
    (v.delegate size).1.InRange ∧ (v.delegate size).2.InRange := by
  have hlower := h.placed.lower
  have hupper := h.placed.upper
  have hstart := h.start
  have hfits : ¬ v.finish < v.apos + size := by
    rw [WireView.remaining] at hsize
    omega
  have hmoved : v.Moved size (v.skip size).2 := by
    have hmoved := (h.placed.walks none size).moved
    rwa [wanted, min_eq_left (hsize.trans h.placed.remaining_le)] at hmoved
  rw [DelegatedView.delegate, if_neg hfits]
  refine ⟨⟨⟨h.placed.nonempty, h.placed.within, le_add_right _ _, ?_⟩, le_rfl⟩,
    ⟨h.placed.of_moved hmoved hsize, ?_⟩⟩
  · exact (not_lt.mp hfits).trans hupper
  · exact hstart.trans (hmoved.apos.symm ▸ le_add_right _ _)

end

end DelegatedView

/-! ### Trees of views -/

/-- A call on one of the views, or a delegation, which adds a view. -/
inductive ViewEvent where
  | call (i : ℕ) (op : ViewOp)
  | delegate (i size : ℕ)

/-- The views after an event. -/
def stepViews (views : List DelegatedView) : ViewEvent → List DelegatedView
  | .call i op =>
    match views[i]? with
    | none => views
    | some v => views.set i (v.perform op).2.2
  | .delegate i size =>
    match views[i]? with
    | none => views
    | some v => views.set i (v.delegate size).2 ++ [(v.delegate size).1]

/-- Calls meet a condition, and delegations are in the range of their view. -/
def CallsMeet (P : DelegatedView → ViewOp → Prop) (views : List DelegatedView) : ViewEvent → Prop
  | .call i op => ∀ v ∈ views[i]?, P v op
  | .delegate i size => ∀ v ∈ views[i]?, size ≤ v.remaining

lemma inRange_stepViews {views : List DelegatedView} (h : ∀ v ∈ views, v.InRange) {e : ViewEvent}
    (he : CallsMeet DelegatedView.Confined views e) : ∀ v ∈ stepViews views e, v.InRange := by
  have hset : ∀ {i v'}, v'.InRange → ∀ v ∈ views.set i v', v.InRange := by
    intro i v' hv' v hv
    rcases mem_or_eq_of_mem_set hv with hv | rfl
    · exact h v hv
    · exact hv'
  cases e with
  | call i op =>
    rw [stepViews]
    split
    · exact h
    · next v hv => exact hset ((h v (mem_of_getElem? hv)).perform (he v hv))
  | delegate i size =>
    rw [stepViews]
    split
    · exact h
    · next v hv =>
        obtain ⟨hchild, hparent⟩ := (h v (mem_of_getElem? hv)).delegate (he v hv)
        intro v' hv'
        rcases mem_append.mp hv' with hv' | hv'
        · exact hset hparent v' hv'
        · rw [mem_singleton.mp hv']
          exact hchild

/-- **Delegated views confine their readers iff the calls fit**: in every tree of delegations in
range over a wire of non-empty segments, with calls on the views in any order. -/
theorem calls_confined_iff_fit {wire : Wire} (hwire : ∀ seg ∈ wire, seg ≠ [])
    (es : List ViewEvent) :
    Steps.Guarded stepViews (CallsMeet DelegatedView.Confined) [DelegatedView.new wire] es
      ↔ Steps.Guarded stepViews (CallsMeet DelegatedView.Fits) [DelegatedView.new wire] es := by
  refine Steps.guarded_congr (I := fun views => ∀ v ∈ views, v.InRange) (fun views e hviews => ?_)
    (fun views e hviews he => inRange_stepViews hviews he) ?_
  · cases e with
    | call i op =>
      exact forall₂_congr fun v hv =>
        DelegatedView.confined_iff_fits (hviews v (mem_of_getElem? hv))
    | delegate i size => exact Iff.rfl
  · intro v hv
    rw [mem_singleton.mp hv]
    exact DelegatedView.inRange_new hwire

/-- Two bytes are delegated, and three are read. -/
def readPast : List ViewEvent := [.delegate 0 2, .call 1 (.readFull 3)]

theorem read_past_segment_end_refused :
    (∀ seg ∈ [[1, 2], [3, 4]], seg ≠ []) ∧
      Steps.Guarded stepViews (CallsMeet DelegatedView.Confined)
        [DelegatedView.new [[1, 2], [3, 4]]] readPast := by
  have hwire : ∀ seg ∈ [[1, 2], [3, 4]], seg ≠ [] := by decide
  refine ⟨hwire, (calls_confined_iff_fit hwire readPast).mpr
    ⟨fun v hv => ?_, fun v hv => ?_, trivial⟩⟩
  · obtain rfl := Option.some.inj hv
    decide
  · obtain rfl := Option.some.inj hv
    exact .inr (by decide)

/-- In the middle of a segment a third byte is handed out, and the view is past its range. -/
theorem read_past_range :
    let v := ((DelegatedView.new [[1, 2, 3, 4]]).delegate 2).1
    v.remaining = 2 ∧ (v.perform (.readFull 3)).1 = [1, 2, 3] ∧
      (v.perform (.readFull 3)).2.1 = none ∧
      ¬ Steps.Guarded stepViews (CallsMeet DelegatedView.Confined)
        [DelegatedView.new [[1, 2, 3, 4]]] readPast := by
  refine ⟨rfl, rfl, rfl, fun h => ?_⟩
  have hconfined := h.2.1 _ rfl
  exact absurd hconfined.finish (by decide)

end Mars
