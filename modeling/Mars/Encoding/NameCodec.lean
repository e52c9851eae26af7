import Mars.Encoding.Delegate
import Mars.Encoding.Name
import Mathlib.Algebra.Order.BigOperators.Group.List

/-!
Names that are read back from their encoding.

* `WireView.readTLNum`, `WireView.readComponent`, `WireView.readName`: the decoders of a view, with
  the way each error ends them; `componentFromBytes`, `nameFromBytes`, `nameFromTlvStr`;
* `Whole`: a view that ends with its wire; `Whole.readTLNum`, `readComponent_ok`: what the decoders
  read from it;
* `le_length_of_readComponents`: bytes that are read as a name are at least as many as its encoding
  with the shortest numbers; `tlNum_le_natBytes_iff`: the lengths of components are such numbers up
  to 252 only;
* `name_codec_round_trips_iff`: names are read back iff their encoding has at most 252 bytes;
* `NegativeLength`, `name_parsing_panics_iff`: the bytes at which the decoders panic.
-/

namespace Mars

open WireView Prod Component List Nat Option Except

/-! ### Decoders -/

/-- `int`, of a `uint64`. -/
def toInt (n : ℕ) : ℤ := if n < 2 ^ 63 then n else (n : ℤ) - 2 ^ 64

namespace WireView

/-- The loop of `ReadTLNum` over the bytes after the first. -/
def readMore : ℕ → ℕ → WireView → Except ReadErr (ℕ × WireView)
  | 0, val, r => .ok (val, r)
  | l + 1, val, r =>
    match r.readByte with
    | (.error e, _) => .error (if e = .eof then .unexpectedEOF else e)
    | (.ok x, r) => readMore l (val * 256 + x) r

/-- `ReadTLNum`. -/
def readTLNum (r : WireView) : Except ReadErr (ℕ × WireView) :=
  match r.readByte with
  | (.error e, _) => .error e
  | (.ok x, r) =>
    if x ≤ 0xfc then .ok (x, r)
    else readMore (if x = 0xfd then 2 else if x = 0xfe then 4 else 8) 0 r

/-- `ReadComponent`. -/
def readComponent (r : WireView) : Except ReadErr (Component × WireView) :=
  match r.readTLNum with
  | .error e => .error e
  | .ok (typ, r) =>
    match r.readTLNum with
    | .error e => .error (if e = .eof then .unexpectedEOF else e)
    | .ok (l, r) =>
      match r.readBuf (toInt l) with
      | (.error e, _) => .error e
      | (.ok val, r) => .ok (⟨typ, val⟩, r)

/-- The loop of `ReadName`, for at most `n` components; the end of the view ends it. -/
def readComponents : ℕ → WireView → Except ReadErr (List Component)
  | 0, _ => .error .outOfRange
  | n + 1, r =>
    match r.readComponent with
    | .ok (c, r) => (readComponents n r).map fun name => c :: name
    | .error .eof => .ok []
    | .error e => .error e

/-- `ReadName`; every component takes bytes of the view. -/
def readName (r : WireView) : Except ReadErr (List Component) := readComponents (r.remaining + 1) r

end WireView

/-- Why bytes are not a name. -/
inductive NameErr where
  | read (e : ReadErr)
  | notName
  | wrongLength
  deriving DecidableEq

/-- `ComponentFromBytes`. -/
def componentFromBytes (bytes : Bytes) : Except ReadErr Component :=
  (new [bytes]).readComponent.map fst

/-- `NameFromBytes`. -/
def nameFromBytes (bytes : Bytes) : Except NameErr (List Component) :=
  match (new [bytes]).readTLNum with
  | .error e => .error (.read e)
  | .ok (t, r) =>
    if t ≠ typeName then .error .notName
    else
      match r.readTLNum with
      | .error e => .error (.read e)
      | .ok (l, r) =>
        match r.readName with
        | .error e => .error (.read e)
        | .ok name =>
          if toInt l ≠ (r.finish : ℤ) - r.apos then .error .wrongLength else .ok name

/-- `Name.TlvStr`. -/
def tlvStr (name : List Component) : Bytes := nameInner name

/-- `NameFromTlvStr`. -/
def nameFromTlvStr (bytes : Bytes) : Except ReadErr (List Component) :=
  (new [bytes]).readName

/-! ### Lengths of numbers -/

/-- `TLNum.EncodingLength`. -/
def tlNumLength (x : ℕ) : ℕ :=
  if x ≤ 0xfc then 1 else if x ≤ 0xffff then 3 else if x ≤ 0xffffffff then 5 else 9

/-- `Nat.EncodingLength`. -/
def natLength (x : ℕ) : ℕ :=
  if x ≤ 0xff then 1 else if x ≤ 0xffff then 2 else if x ≤ 0xffffffff then 4 else 8

/-- `Component.EncodingLength`. -/
def Component.encodingLength (c : Component) : ℕ :=
  tlNumLength c.typ + natLength c.val.length + c.val.length

/-- `Name.EncodingLength`. -/
def encodingLength (name : List Component) : ℕ := (name.map Component.encodingLength).sum

lemma length_tlNum {x : ℕ} : (tlNum x).length = tlNumLength x := by
  unfold tlNum tlNumLength
  split_ifs <;> simp [length_bigEndian]

lemma length_bytes {c : Component} : c.bytes.length = c.encodingLength := by
  rw [bytes, length_append, length_append, length_tlNum, length_natBytes]
  rfl

lemma length_nameInner {name : List Component} : (nameInner name).length = encodingLength name := by
  rw [nameInner, List.length_flatMap, encodingLength]
  exact congrArg sum (map_congr_left fun c _ => length_bytes)

variable {x : ℕ}

lemma tlNumLength_mono {y : ℕ} (h : x ≤ y) : tlNumLength x ≤ tlNumLength y := by
  unfold tlNumLength
  split_ifs <;> omega

/-- A length has a number of its own size up to 252 only. -/
lemma tlNum_le_natBytes_iff {x : ℕ} : tlNumLength x ≤ natLength x ↔ x ≤ 252 := by
  unfold tlNumLength natLength
  split_ifs <;> omega

lemma natLength_le_tlNumLength {x : ℕ} : natLength x ≤ tlNumLength x := by
  unfold tlNumLength natLength
  split_ifs <;> omega

variable {bytes : Bytes}

lemma readBigEndian_lt (h : ∀ b ∈ bytes, b < 256) : readBigEndian bytes < 256 ^ bytes.length := by
  induction bytes using reverseRecOn with
  | nil => exact one_pos
  | append_singleton bytes b ih =>
    have hb : b < 256 := h b (mem_append_right _ mem_cons_self)
    have hlt := ih fun b' hb' => h b' (mem_append_left _ hb')
    rw [readBigEndian, foldl_append, length_append, length_singleton, pow_succ]
    change readBigEndian bytes * 256 + b < _
    omega

lemma tlNumLength_le {l : ℕ} (hl : l = 2 ∨ l = 4 ∨ l = 8) (hx : x < 256 ^ l) :
    tlNumLength x ≤ l + 1 := by
  unfold tlNumLength
  rcases hl with rfl | rfl | rfl <;> split_ifs <;> omega

/-- A number is the first byte, or is in the bytes after it. -/
lemma readTLNum_cases {rest : Bytes} (h : readTLNum bytes = some (x, rest)) :
    ∃ b more, bytes = b :: more ∧ (b ≤ 0xfc ∧ x = b ∧ rest = more ∨
      ∃ l, (l = 2 ∨ l = 4 ∨ l = 8) ∧ l ≤ more.length ∧ x = readBigEndian (more.take l)
        ∧ rest = more.drop l) := by
  cases bytes with
  | nil => exact nomatch h
  | cons b more =>
    refine ⟨b, more, rfl, ?_⟩
    rw [readTLNum] at h
    by_cases hshort : b ≤ 0xfc
    · rw [if_pos hshort] at h
      obtain ⟨rfl, rfl⟩ := mk.inj (some.inj h)
      exact .inl ⟨hshort, rfl, rfl⟩
    · rw [if_neg hshort] at h
      dsimp only at h
      generalize hl : (if b = 0xfd then 2 else if b = 0xfe then 4 else 8) = l at h
      have hcases : l = 2 ∨ l = 4 ∨ l = 8 := by
        split_ifs at hl <;> simp [← hl]
      split_ifs at h with hend
      obtain ⟨rfl, rfl⟩ := mk.inj (some.inj h)
      exact .inr ⟨l, hcases, not_lt.mp hend, rfl, rfl⟩

/-- A number takes at least the bytes of its shortest form. -/
lemma tlNumLength_le_of_readTLNum {rest : Bytes} (h : readTLNum bytes = some (x, rest))
    (hbytes : ∀ b ∈ bytes, b < 256) :
    tlNumLength x + rest.length ≤ bytes.length ∧ rest <:+ bytes := by
  obtain ⟨b, more, rfl, ⟨hshort, rfl, rfl⟩ | ⟨l, hcases, hle, rfl, rfl⟩⟩ := readTLNum_cases h
  · refine ⟨?_, suffix_cons _ _⟩
    rw [tlNumLength, if_pos hshort, length_cons, add_comm]
  · have hlt := readBigEndian_lt fun b' (hb' : b' ∈ more.take l) =>
      hbytes b' (mem_cons_of_mem b (mem_of_mem_take hb'))
    rw [length_take, min_eq_left hle] at hlt
    refine ⟨?_, (drop_suffix l more).trans (suffix_cons b more)⟩
    have hlen := tlNumLength_le hcases hlt
    rw [length_drop, length_cons]
    omega

/-! ### Bytes -/

/-- A component of a type from `1` to `65535`, of bytes. -/
structure Component.Valid (c : Component) : Prop where
  one_le : 1 ≤ c.typ
  le : c.typ ≤ 65535
  val : ∀ b ∈ c.val, b < 256

variable {b : ℕ}

lemma bigEndian_lt {k n : ℕ} (h : b ∈ bigEndian k n) : b < 256 := by
  obtain ⟨i, -, rfl⟩ := mem_map.mp h
  exact mod_lt _ (by decide)

lemma tlNum_lt (h : b ∈ tlNum x) : b < 256 := by
  unfold tlNum at h
  split_ifs at h with hx
  · rw [mem_singleton.mp h]
    omega
  all_goals
    rcases mem_cons.mp h with rfl | h
    · decide
    · exact bigEndian_lt h

lemma natBytes_lt (h : b ∈ natBytes x) : b < 256 := by
  unfold natBytes at h
  split_ifs at h with hx
  · rw [mem_singleton.mp h]
    omega
  all_goals exact bigEndian_lt h

variable {c : Component}

lemma bytes_lt (hc : c.Valid) (h : b ∈ c.bytes) : b < 256 := by
  rcases mem_append.mp h with h | h
  · rcases mem_append.mp h with h | h
    · exact tlNum_lt h
    · exact natBytes_lt h
  · exact hc.val b h

variable {name : List Component}

lemma nameInner_lt (hname : ∀ c ∈ name, c.Valid) (h : b ∈ nameInner name) : b < 256 := by
  obtain ⟨c, hc, hb⟩ := mem_flatMap.mp h
  exact bytes_lt (hname c hc) hb

/-! ### Views that end with their wire -/

namespace WireView

/-- The view ends with its wire. -/
structure Whole (r : WireView) : Prop where
  placed : r.Placed
  finish : r.finish = r.apos + r.rest.length

variable {r : WireView} {bytes : Bytes}

lemma whole_of_wire {wire : Wire} (hwire : ∀ seg ∈ wire, seg ≠ []) : (new wire).Whole :=
  ⟨(DelegatedView.inRange_new hwire).placed, ok_new.apos.symm⟩

lemma whole_new (h : bytes ≠ []) : (new [bytes]).Whole :=
  whole_of_wire fun _ hseg => mem_singleton.mp hseg ▸ h

lemma rest_new_singleton (bytes : Bytes) : (new [bytes]).rest = bytes := by
  rw [rest_new, flatten_cons, flatten_nil, append_nil]

namespace Whole

variable (h : r.Whole)
include h

lemma remaining : r.remaining = r.rest.length := by
  rw [WireView.remaining, h.finish, Nat.add_sub_cancel_left]

lemma of_moved {n : ℕ} {r' : WireView} (hm : r.Moved n r') (hn : n ≤ r.rest.length) : r'.Whole := by
  refine ⟨h.placed.of_moved hm (hn.trans h.remaining.ge), ?_⟩
  rw [hm.finish, hm.apos, hm.rest, length_drop, h.finish]
  omega

lemma readByte_nil (hrest : r.rest = []) : r.readByte = (.error .eof, r) := by
  rcases h.placed.readByte with ⟨-, hread⟩ | ⟨hpos, -⟩
  · exact hread
  · rw [h.remaining, hrest] at hpos
    exact absurd hpos (lt_irrefl 0)

lemma readByte_cons (hrest : r.rest = b :: bytes) :
    ∃ r', r.readByte = (.ok b, r') ∧ r'.rest = bytes ∧ r'.Whole := by
  rcases h.placed.readByte with ⟨hzero, -⟩ | ⟨-, b', r', hread, hbyte, hmoved⟩
  · rw [h.remaining, hrest] at hzero
    exact nomatch hzero
  · rw [hrest] at hbyte
    obtain rfl : b = b' := (List.cons.inj hbyte).1
    refine ⟨r', hread, ?_, h.of_moved hmoved ?_⟩
    · rw [hmoved.rest, hrest]
      rfl
    · rw [hrest]
      exact succ_pos _

lemma readMore (l val : ℕ) :
    r.rest.length < l ∧ readMore l val r = .error .unexpectedEOF ∨
      l ≤ r.rest.length ∧ ∃ r', readMore l val r
          = .ok ((r.rest.take l).foldl (fun acc b => acc * 256 + b) val, r') ∧
        r'.rest = r.rest.drop l ∧ r'.Whole := by
  induction l generalizing r val with
  | zero => exact .inr ⟨zero_le _, r, rfl, rfl, h⟩
  | succ l ih =>
    cases hrest : r.rest with
    | nil =>
      refine .inl ⟨succ_pos l, ?_⟩
      rw [readMore, h.readByte_nil hrest]
      rfl
    | cons b bytes =>
      obtain ⟨r', hread, hrest', hwhole⟩ := h.readByte_cons hrest
      rw [readMore, hread]
      dsimp only
      rcases ih hwhole (val * 256 + b) with
        ⟨hshort, hmore⟩ | ⟨hlong, r'', hmore, hrest'', hwhole'⟩
      · exact .inl ⟨by rw [hrest'] at hshort; exact succ_lt_succ hshort, hmore⟩
      · rw [hrest'] at hlong hmore hrest''
        exact .inr ⟨succ_le_succ hlong, r'', hmore, hrest'', hwhole'⟩

/-- `ReadTLNum` reads the number of the bytes that are left. -/
lemma readTLNum :
    (∃ x r', r.readTLNum = .ok (x, r') ∧ Mars.readTLNum r.rest = some (x, r'.rest) ∧ r'.Whole) ∨
      Mars.readTLNum r.rest = none ∧
        r.readTLNum = .error (if r.rest = [] then .eof else .unexpectedEOF) := by
  cases hrest : r.rest with
  | nil =>
    refine .inr ⟨rfl, ?_⟩
    rw [WireView.readTLNum, h.readByte_nil hrest]
    rfl
  | cons b bytes =>
    obtain ⟨r', hread, hrest', hwhole⟩ := h.readByte_cons hrest
    rw [WireView.readTLNum, Mars.readTLNum, hread]
    dsimp only
    by_cases hshort : b ≤ 0xfc
    · rw [if_pos hshort, if_pos hshort]
      exact .inl ⟨b, r', rfl, by rw [hrest'], hwhole⟩
    · rw [if_neg hshort, if_neg hshort]
      rcases hwhole.readMore (if b = 0xfd then 2 else if b = 0xfe then 4 else 8) 0 with
        ⟨hend, hmore⟩ | ⟨hin, r'', hmore, hrest'', hwhole'⟩
      · rw [hrest'] at hend
        exact .inr ⟨if_pos hend, hmore⟩
      · rw [hrest'] at hin hmore hrest''
        exact .inl ⟨_, r'', hmore, by rw [if_neg (not_lt.mpr hin), hrest'']; rfl, hwhole'⟩

/-- `ReadBuf` succeeds with as many bytes as it is asked for. -/
lemma readBuf_ok {z : ℤ} {val : Bytes} {r' : WireView}
    (hread : r.readBuf z = (.ok val, r')) :
    z = val.length ∧ val ++ r'.rest = r.rest ∧ r'.Whole := by
  have hlower := h.placed.lower
  cases z with
  | ofNat size =>
    change r.readBuf (size : ℤ) = _ at hread
    rcases h.placed.readBuf with ⟨-, hover⟩ | ⟨hin, r'', htaken, hmoved⟩
    · cases hover.symm.trans hread
    · rw [htaken] at hread
      obtain ⟨hval, rfl⟩ := Prod.mk.inj hread
      obtain rfl := Except.ok.inj hval
      rw [h.remaining] at hin
      refine ⟨?_, ?_, h.of_moved hmoved hin⟩
      · rw [List.length_take, min_eq_left hin]
        rfl
      · rw [hmoved.rest, List.take_append_drop]
  | negSucc n =>
    rw [readBuf, if_neg (by omega), if_neg (by omega)] at hread
    split_ifs at hread
    · cases hread
    · cases hread
    · omega

/-- `ReadComponent` up to its call of `ReadBuf`. -/
lemma readComponent_eq :
    (∃ (typ l : ℕ) (rest : Bytes) (r' : WireView), Mars.readTLNum r.rest = some (typ, rest)
      ∧ Mars.readTLNum rest = some (l, r'.rest) ∧ r'.Whole
      ∧ (∀ e r'', r'.readBuf (toInt l) = (.error e, r'') → r.readComponent = .error e)
      ∧ ∀ val r'', r'.readBuf (toInt l) = (.ok val, r'') →
        r.readComponent = .ok (⟨typ, val⟩, r''))
    ∨ ((Mars.readTLNum r.rest).bind fun typ => Mars.readTLNum typ.2) = none
      ∧ ∃ e, e ≠ .outOfRange ∧ r.readComponent = .error e := by
  rw [WireView.readComponent]
  rcases h.readTLNum with ⟨typ, r₁, htyp, hlist, h₁⟩ | ⟨hnone, herr⟩
  · rw [htyp, hlist]
    rcases h₁.readTLNum with ⟨l, r₂, hl, hlist', h₂⟩ | ⟨hnone, herr⟩
    · refine .inl ⟨typ, l, r₁.rest, r₂, rfl, hlist', h₂, fun e r' hbuf => ?_, fun val r' hbuf => ?_⟩
      all_goals simp only [hl, hbuf]
    · refine .inr ⟨hnone, _, ?_, by dsimp only; rw [herr]⟩
      split_ifs <;> decide
  · refine .inr ⟨by rw [hnone]; rfl, _, ?_, by rw [herr]⟩
    split_ifs <;> decide

/-- What is left of the bytes after a component that was read. -/
lemma readComponent_ok {r' : WireView} (hread : r.readComponent = .ok (c, r')) :
    ∃ l rest₁ rest₂, Mars.readTLNum r.rest = some (c.typ, rest₁) ∧
      Mars.readTLNum rest₁ = some (l, rest₂) ∧ c.val.length ≤ l ∧ c.val ++ r'.rest = rest₂ ∧
      r'.Whole := by
  rcases h.readComponent_eq with ⟨typ, l, rest, r₂, htyp, hl, h₂, herror, hok⟩ | ⟨-, e, -, herr⟩
  · rcases hbuf : r₂.readBuf (toInt l) with ⟨e | val, r₃⟩
    · exact nomatch (herror e r₃ hbuf).symm.trans hread
    · obtain ⟨rfl, rfl⟩ := Prod.mk.inj (Except.ok.inj ((hok val r₃ hbuf).symm.trans hread))
      obtain ⟨hlen, happ, h₃⟩ := h₂.readBuf_ok hbuf
      refine ⟨l, rest, r₂.rest, htyp, hl, ?_, happ, h₃⟩
      dsimp only
      rw [toInt] at hlen
      split_ifs at hlen <;> omega
  · exact nomatch herr.symm.trans hread

/-- A number is read back. -/
lemma readTLNum_append (hx : x < 2 ^ 64) (hrest : r.rest = tlNum x ++ bytes) :
    ∃ r', r.readTLNum = .ok (x, r') ∧ r'.rest = bytes ∧ r'.Whole := by
  rcases h.readTLNum with ⟨y, r', hread, hlist, hwhole⟩ | ⟨hnone, -⟩
  · rw [hrest, readTLNum_tlNum hx] at hlist
    obtain ⟨rfl, hrest'⟩ := Prod.mk.inj (Option.some.inj hlist)
    exact ⟨r', hread, hrest'.symm, hwhole⟩
  · rw [hrest, readTLNum_tlNum hx] at hnone
    exact nomatch hnone

lemma readBuf_append {val : Bytes} (hrest : r.rest = val ++ bytes) :
    ∃ r', r.readBuf val.length = (.ok val, r') ∧ r'.rest = bytes ∧ r'.Whole := by
  have hlen : val.length ≤ r.rest.length := by
    rw [hrest, length_append]
    exact le_add_right _ _
  rcases h.placed.readBuf with ⟨hover, -⟩ | ⟨-, r', hread, hmoved⟩
  · rw [h.remaining] at hover
    exact absurd hover (not_lt.mpr hlen)
  · refine ⟨r', ?_, ?_, h.of_moved hmoved hlen⟩
    · rw [hread, hrest, take_left]
    · rw [hmoved.rest, hrest, drop_left]

/-- A short component is read back. -/
lemma readComponent_bytes (hc : c.Short) (hrest : r.rest = c.bytes ++ bytes) :
    ∃ r', r.readComponent = .ok (c, r') ∧ r'.rest = bytes ∧ r'.Whole := by
  have hval := hc.val
  have hlen : natBytes c.val.length = tlNum c.val.length := by
    rw [natBytes, tlNum, if_pos (by omega), if_pos (by omega)]
  rw [Component.bytes, hlen, List.append_assoc, List.append_assoc] at hrest
  obtain ⟨r₁, htyp, hrest₁, hwhole₁⟩ := h.readTLNum_append hc.typ hrest
  obtain ⟨r₂, hl, hrest₂, hwhole₂⟩ :=
    hwhole₁.readTLNum_append (show c.val.length < 2 ^ 64 by omega) hrest₁
  obtain ⟨r₃, hbuf, hrest₃, hwhole₃⟩ := hwhole₂.readBuf_append hrest₂
  have hint : toInt c.val.length = (c.val.length : ℕ) := if_pos (by omega)
  refine ⟨r₃, ?_, hrest₃, hwhole₃⟩
  rw [WireView.readComponent, htyp]
  dsimp only
  rw [hl]
  dsimp only
  rw [hint, hbuf]

end Whole

/-- A name with short components is read back. -/
lemma Whole.readComponents_nameInner (hname : ∀ c ∈ name, c.Short) (h : r.Whole)
    (hrest : r.rest = nameInner name) {n : ℕ} (hn : name.length < n) :
    readComponents n r = .ok name := by
  induction name generalizing r n with
  | nil =>
    obtain ⟨n, rfl⟩ : ∃ k, n = k + 1 := ⟨n - 1, (Nat.sub_add_cancel hn).symm⟩
    rw [readComponents, WireView.readComponent, WireView.readTLNum, h.readByte_nil hrest]
  | cons c name ih =>
    obtain ⟨n, rfl⟩ : ∃ k, n = k + 1 := ⟨n - 1, (Nat.sub_add_cancel (Nat.zero_lt_of_lt hn)).symm⟩
    obtain ⟨r', hread, hrest', hwhole⟩ := h.readComponent_bytes (hname c List.mem_cons_self) hrest
    rw [readComponents, hread]
    dsimp only
    rw [ih (fun c' hc' => hname c' (List.mem_cons_of_mem c hc')) hwhole hrest'
      (Nat.lt_of_succ_lt_succ hn)]
    rfl

end WireView

/-- The length of a name with the shortest numbers. -/
def shortestLength (name : List Component) : ℕ :=
  (name.map fun c => tlNumLength c.typ + tlNumLength c.val.length + c.val.length).sum

lemma shortestLength_cons {c : Component} {name : List Component} :
    shortestLength (c :: name) = tlNumLength c.typ + tlNumLength c.val.length + c.val.length
      + shortestLength name := by
  rw [shortestLength, map_cons, sum_cons]
  rfl

lemma encodingLength_le (name : List Component) : encodingLength name ≤ shortestLength name :=
  sum_le_sum fun _ _ =>
    Nat.add_le_add_right (Nat.add_le_add_left natLength_le_tlNumLength _) _

/-- What is read as a name has the bytes of its components. -/
lemma le_length_of_readComponents {n : ℕ} {r : WireView} (h : r.Whole)
    (hbytes : ∀ b ∈ r.rest, b < 256) (hread : readComponents n r = .ok name) :
    shortestLength name ≤ r.rest.length := by
  induction n generalizing r name with
  | zero => exact nomatch hread
  | succ n ih =>
    rw [readComponents] at hread
    split at hread
    · next c r' hc =>
        obtain ⟨l, rest₁, rest₂, htyp, hlen, hval, happ, hwhole⟩ := h.readComponent_ok hc
        obtain ⟨hle₁, hsuffix₁⟩ := tlNumLength_le_of_readTLNum htyp hbytes
        have hbytes₁ : ∀ b ∈ rest₁, b < 256 := fun b hb => hbytes b (hsuffix₁.subset hb)
        obtain ⟨hle₂, hsuffix₂⟩ := tlNumLength_le_of_readTLNum hlen hbytes₁
        have hbytes₂ : ∀ b ∈ r'.rest, b < 256 := fun b hb =>
          hbytes₁ b (hsuffix₂.subset (happ ▸ mem_append_right c.val hb))
        cases hrest : readComponents n r' with
        | error e =>
          rw [hrest] at hread
          exact nomatch hread
        | ok name' =>
          rw [hrest] at hread
          obtain rfl := ok.inj hread
          have hmore := ih hwhole hbytes₂ hrest
          have hmono := tlNumLength_mono hval
          rw [← happ, length_append] at hle₂
          rw [shortestLength_cons]
          omega
    · obtain rfl := ok.inj hread
      exact zero_le _
    · exact nomatch hread

/-! ### Round trips -/

lemma Component.Valid.short (h : c.Valid) (hlen : c.val.length ≤ 252) : c.Short :=
  ⟨h.le.trans_lt (by decide), lt_succ_of_le hlen⟩

lemma Component.Valid.typ_lt (h : c.Valid) : c.typ < 2 ^ 64 :=
  h.le.trans_lt (by decide)

/-- Components are read back iff they are short. -/
lemma componentFromBytes_iff (hc : c.Valid) :
    componentFromBytes c.bytes = .ok c ↔ c.val.length ≤ 252 := by
  have hwhole := whole_new (bytes_ne_nil c)
  have hrest := rest_new_singleton c.bytes
  constructor
  · intro h
    cases hread : (new [c.bytes]).readComponent with
    | error e =>
      rw [componentFromBytes, hread] at h
      exact nomatch h
    | ok res =>
      obtain ⟨c', r'⟩ := res
      rw [componentFromBytes, hread] at h
      obtain rfl : c' = c := ok.inj h
      obtain ⟨l, rest₁, rest₂, htyp, hlen, hval, happ, -⟩ := hwhole.readComponent_ok hread
      rw [hrest, bytes, append_assoc, readTLNum_tlNum hc.typ_lt] at htyp
      obtain ⟨-, rfl⟩ := mk.inj (some.inj htyp)
      have hbytes : ∀ b ∈ natBytes c'.val.length ++ c'.val, b < 256 := fun b hb =>
        (mem_append.mp hb).elim natBytes_lt (hc.val b)
      have hle := (tlNumLength_le_of_readTLNum hlen hbytes).1
      have hmono := tlNumLength_mono hval
      rw [← happ, length_append, length_append, length_natBytes] at hle
      refine tlNum_le_natBytes_iff.mp ?_
      rw [natLength]
      omega
  · intro h
    have hall : (new [c.bytes]).rest = c.bytes ++ [] :=
      hrest.trans (append_nil _).symm
    obtain ⟨r', hread, -, -⟩ := hwhole.readComponent_bytes (hc.short h) hall
    rw [componentFromBytes, hread]
    rfl

/-- A name whose encoding is as long as the shortest one has short components. -/
lemma short_of_shortestLength_le (h : shortestLength name ≤ encodingLength name) :
    ∀ c ∈ name, c.val.length ≤ 252 := by
  intro c hc
  refine tlNum_le_natBytes_iff.mp (not_lt.mp fun hlt => absurd h (not_le.mpr ?_))
  refine List.sum_lt_sum _ _ (fun c _ => ?_) ⟨c, hc, ?_⟩
  · exact Nat.add_le_add_right (Nat.add_le_add_left natLength_le_tlNumLength _) _
  · exact Nat.add_lt_add_right (Nat.add_lt_add_left hlt _) _

lemma length_le_encodingLength {name : List Component} : name.length ≤ encodingLength name := by
  have hle := List.length_le_sum_of_one_le (name.map Component.encodingLength) ?_
  · rwa [List.length_map] at hle
  · intro len hlen
    obtain ⟨c, -, rfl⟩ := List.mem_map.mp hlen
    rw [← length_bytes]
    exact List.length_pos_of_ne_nil (bytes_ne_nil c)

/-- A view of the bytes of a name with short components is read as the name. -/
lemma WireView.Whole.readName {r : WireView} (h : r.Whole) (hname : ∀ c ∈ name, c.Short)
    (hrest : r.rest = nameInner name) : r.readName = .ok name := by
  refine h.readComponents_nameInner hname hrest ?_
  rw [h.remaining, hrest, length_nameInner]
  exact lt_succ_of_le length_le_encodingLength

/-- `NameFromTlvStr` reads back the names of short components. -/
lemma nameFromTlvStr_iff (hname : ∀ c ∈ name, c.Valid) :
    nameFromTlvStr (tlvStr name) = .ok name ↔ ∀ c ∈ name, c.val.length ≤ 252 := by
  cases name with
  | nil => exact iff_of_true rfl fun c hc => nomatch hc
  | cons c name =>
    have hne : nameInner (c :: name) ≠ [] := append_ne_nil_of_left_ne_nil (bytes_ne_nil c) _
    have hwhole := whole_new hne
    have hrest := rest_new_singleton (nameInner (c :: name))
    constructor
    · intro h
      have hle := le_length_of_readComponents hwhole
        (fun b hb => nameInner_lt hname (hrest ▸ hb)) h
      rw [hrest, length_nameInner] at hle
      exact short_of_shortestLength_le hle
    · intro h
      exact hwhole.readName (fun c' hc' => (hname c' hc').short (h c' hc')) hrest

lemma val_length_le_encodingLength (hc : c ∈ name) : c.val.length ≤ encodingLength name := by
  have hle : c.encodingLength ≤ encodingLength name := List.le_sum_of_mem (List.mem_map_of_mem hc)
  exact (le_add_left _ _).trans hle

lemma le_of_toInt_eq {l n : ℕ} (h : toInt l = n) : n ≤ l := by
  rw [toInt] at h
  split_ifs at h <;> omega

/-- `NameFromBytes` reads back the names whose encoding is short. -/
lemma nameFromBytes_iff (hname : ∀ c ∈ name, c.Valid) :
    nameFromBytes (nameBytes name) = .ok name ↔ encodingLength name ≤ 252 := by
  have hne : nameBytes name ≠ [] := append_ne_nil_of_left_ne_nil
    (append_ne_nil_of_left_ne_nil (cons_ne_nil 7 []) _) _
  have hrest : (new [nameBytes name]).rest
      = tlNum typeName ++ (natBytes (encodingLength name) ++ nameInner name) := by
    rw [rest_new_singleton, nameBytes, append_assoc, length_nameInner]
  obtain ⟨r₁, htyp, hrest₁, hwhole₁⟩ :=
    (whole_new hne).readTLNum_append (show typeName < 2 ^ 64 by decide) hrest
  rw [nameFromBytes, htyp]
  dsimp only
  rw [if_neg (not_not.mpr rfl)]
  constructor
  · intro h
    rcases hwhole₁.readTLNum with ⟨l, r₂, hl, hlist, hwhole₂⟩ | ⟨-, herr⟩
    · rw [hl] at h
      dsimp only at h
      cases hread : r₂.readName with
      | error e =>
        rw [hread] at h
        cases h
      | ok name' =>
        rw [hread] at h
        dsimp only at h
        split_ifs at h with hlen
        obtain rfl : name' = name := ok.inj h
        have hbytes : ∀ b ∈ r₁.rest, b < 256 := fun b hb =>
          (mem_append.mp (hrest₁ ▸ hb)).elim natBytes_lt (nameInner_lt hname)
        obtain ⟨hle, hsuffix⟩ := tlNumLength_le_of_readTLNum hlist hbytes
        have hshortest := le_length_of_readComponents hwhole₂
          (fun b hb => hbytes b (hsuffix.subset hb)) hread
        have hinner := encodingLength_le name'
        have hfinish := hwhole₂.finish
        have hl' : r₂.rest.length ≤ l := le_of_toInt_eq ((not_not.mp hlen).trans (by omega))
        have hmono := tlNumLength_mono (hinner.trans (hshortest.trans hl'))
        rw [hrest₁, length_append, length_natBytes, length_nameInner] at hle
        refine tlNum_le_natBytes_iff.mp ?_
        rw [natLength]
        omega
    · rw [herr] at h
      cases h
  · intro h
    have hlen : natBytes (encodingLength name) = tlNum (encodingLength name) := by
      rw [natBytes, tlNum, if_pos (by omega), if_pos h]
    rw [hlen] at hrest₁
    obtain ⟨r₂, hl, hrest₂, hwhole₂⟩ :=
      hwhole₁.readTLNum_append (show encodingLength name < 2 ^ 64 by omega) hrest₁
    have hshort : ∀ c ∈ name, c.Short := fun c hc =>
      (hname c hc).short ((val_length_le_encodingLength hc).trans h)
    have hfinish := hwhole₂.finish
    rw [hrest₂, length_nameInner] at hfinish
    have hint : toInt (encodingLength name) = (encodingLength name : ℕ) := if_pos (by omega)
    rw [hl]
    dsimp only
    rw [hwhole₂.readName hshort hrest₂]
    dsimp only
    rw [if_neg (not_not.mpr (hint.trans (by omega)))]

/-- **The name codec round-trips iff the encoding of the name has at most 252 bytes**: its
components and the name itself are read back from their bytes, and no other name has its
encoding. -/
theorem name_codec_round_trips_iff {name : List Component} (hname : ∀ c ∈ name, c.Valid) :
    ((∀ c ∈ name, componentFromBytes c.bytes = .ok c) ∧
        nameFromBytes (nameBytes name) = .ok name ∧ nameFromTlvStr (tlvStr name) = .ok name ∧
        ∀ name' : List Component, (∀ c ∈ name', c.Valid) → tlvStr name' = tlvStr name →
          name' = name)
      ↔ encodingLength name ≤ 252 := by
  refine ⟨fun h => (nameFromBytes_iff hname).mp h.2.1, fun h => ?_⟩
  have hshort : ∀ c ∈ name, c.val.length ≤ 252 := fun c hc =>
    (val_length_le_encodingLength hc).trans h
  refine ⟨fun c hc => (componentFromBytes_iff (hname c hc)).mpr (hshort c hc),
    (nameFromBytes_iff hname).mpr h, (nameFromTlvStr_iff hname).mpr hshort,
    fun name' hname' heq => ?_⟩
  -- a name with the same encoding is as short
  have hlen : encodingLength name' ≤ 252 := by
    rw [← length_nameInner, show nameInner name' = nameInner name from heq, length_nameInner]
    exact h
  exact nameInner_injOn
    (fun c hc => (hname' c hc).short ((val_length_le_encodingLength hc).trans hlen))
    (fun c hc => (hname c hc).short (hshort c hc)) heq

/-- The name `/a`. -/
def nameA : List Component := [⟨8, [97]⟩]

theorem name_a_round_trips :
    (∀ c ∈ nameA, c.Valid) ∧ nameFromBytes (nameBytes nameA) = .ok nameA ∧
      nameFromTlvStr (tlvStr nameA) = .ok nameA := by
  have hvalid : ∀ c ∈ nameA, c.Valid := by
    intro c hc
    obtain rfl := List.mem_singleton.mp hc
    exact ⟨by decide, by decide, by decide⟩
  have hround := (name_codec_round_trips_iff hvalid).mpr (by decide)
  exact ⟨hvalid, hround.2.1, hround.2.2.1⟩

/-- A component of 253 bytes is read back as an empty one, and a name of one component of 256 bytes
has the encoding of a name of three components. -/
theorem long_components_misread :
    componentFromBytes (Component.bytes ⟨8, List.replicate 253 0⟩) = .ok ⟨8, []⟩ ∧
      tlvStr [⟨8, 8 :: 252 :: (replicate 252 0 ++ [8, 0])⟩]
        = tlvStr [⟨8, [0]⟩, ⟨8, replicate 252 0⟩, ⟨8, []⟩] := by
  decide +kernel

/-- **A name is read back** from its bytes, however they are split. -/
theorem readName_split {wire : Wire} (hwire : ∀ seg ∈ wire, seg ≠ []) {name : List Component}
    (hname : ∀ c ∈ name, c.Short) (hbytes : wire.flatten = nameInner name) :
    (new wire).readName = .ok name :=
  (whole_of_wire hwire).readName hname hbytes

theorem readName_split_three : (new [[8], [1, 97, 8], [0]]).readName = .ok [⟨8, [97]⟩, ⟨8, []⟩] :=
  readName_split (by decide) (by decide) (by decide)

/-! ### Lengths that are negative -/

/-- The length of the next component, and the bytes after it. -/
def nextLength (bytes : Bytes) : Option (ℕ × Bytes) :=
  (readTLNum bytes).bind fun typ => readTLNum typ.2

/-- This length is negative as an `int`, and bytes follow. -/
def NextNegative (bytes : Bytes) : Prop :=
  ∃ l more, nextLength bytes = some (l, more) ∧ toInt l < 0 ∧ more ≠ []

/-- So is that of a component after others, which have all their bytes. -/
inductive NegativeLength : Bytes → Prop
  | here {bytes : Bytes} (hneg : NextNegative bytes) : NegativeLength bytes
  | later {bytes more : Bytes} {l size : ℕ} (hl : nextLength bytes = some (l, more))
      (hsize : toInt l = size) (hle : size ≤ more.length)
      (hneg : NegativeLength (more.drop size)) : NegativeLength bytes

section Panics

variable {bytes rest more : Bytes} {typ l : ℕ}

lemma nextNegative_iff (hl : nextLength bytes = some (l, more)) :
    NextNegative bytes ↔ toInt l < 0 ∧ more ≠ [] := by
  simp [NextNegative, hl]

lemma negativeLength_iff (hl : nextLength bytes = some (l, more)) : NegativeLength bytes
    ↔ NextNegative bytes
      ∨ ∃ size : ℕ, toInt l = size ∧ size ≤ more.length ∧ NegativeLength (more.drop size) := by
  constructor
  · rintro (hneg | ⟨hl', hsize, hle, hneg⟩)
    · exact .inl hneg
    · obtain ⟨rfl, rfl⟩ := mk.inj (some.inj (hl.symm.trans hl'))
      exact .inr ⟨_, hsize, hle, hneg⟩
  · rintro (hneg | ⟨size, hsize, hle, hneg⟩)
    exacts [.here hneg, .later hl hsize hle hneg]

lemma length_lt_of_readTLNum (h : readTLNum bytes = some (typ, rest)) :
    rest.length < bytes.length := by
  obtain ⟨b, more, rfl, ⟨-, -, rfl⟩ | ⟨l, -, -, -, rfl⟩⟩ := readTLNum_cases h
  · exact lt_succ_self _
  · rw [length_drop, length_cons]
    omega

namespace WireView

variable {r : WireView}

lemma Whole.readBuf_neg (h : r.Whole) {z : ℤ} (hz : z < 0) :
    r.readBuf z = (.error (if r.rest = [] then .eof else .outOfRange), r) := by
  have hfinish := h.finish
  rw [readBuf, if_neg (by omega), if_neg hz.ne, isEOF, if_pos hz]
  cases hrest : r.rest with
  | nil =>
    rw [hrest] at hfinish
    exact if_pos (decide_eq_true hfinish.le)
  | cons b bytes =>
    rw [hrest, length_cons] at hfinish
    exact if_neg fun heof => absurd (of_decide_eq_true heof) (by omega)

/-- How `ReadComponent` ends: it panics at a negative length, or fails, or goes on after the
component. -/
lemma Whole.readComponent_ends (h : r.Whole) :
    NextNegative r.rest ∧ r.readComponent = .error .outOfRange
      ∨ ¬NegativeLength r.rest ∧ (∃ e, e ≠ .outOfRange ∧ r.readComponent = .error e)
      ∨ ¬NextNegative r.rest ∧ ∃ c r', r.readComponent = .ok (c, r') ∧ r'.Whole
        ∧ r'.rest.length < r.rest.length ∧ (NegativeLength r.rest ↔ NegativeLength r'.rest) := by
  rcases h.readComponent_eq with ⟨typ, l, rest, r', htyp, hnext, h', herror, hok⟩ | ⟨hnone, hread⟩
  · have hl : nextLength r.rest = some (l, r'.rest) := by rw [nextLength, htyp]; exact hnext
    have hlt := (length_lt_of_readTLNum hnext).trans (length_lt_of_readTLNum htyp)
    rw [negativeLength_iff hl, nextNegative_iff hl]
    rcases lt_or_ge (toInt l) 0 with hneg | hpos
    · have hread := herror _ _ (h'.readBuf_neg hneg)
      by_cases hend : r'.rest = []
      · rw [if_pos hend] at hread
        refine .inr (.inl ⟨?_, _, by decide, hread⟩)
        rintro (hnext | ⟨size, hsize, -⟩)
        · exact hnext.2 hend
        · omega
      · rw [if_neg hend] at hread
        exact .inl ⟨⟨hneg, hend⟩, hread⟩
    · obtain ⟨size, hsize⟩ := Int.eq_ofNat_of_zero_le hpos
      have hnext : ¬(toInt l < 0 ∧ r'.rest ≠ []) := fun hnext => not_lt.mpr hpos hnext.1
      rw [or_iff_right hnext]
      simp only [hsize, Int.natCast_inj, exists_eq_left'] at hnext herror hok ⊢
      rcases h'.placed.readBuf with ⟨hover, hbuf⟩ | ⟨hin, r₃, hbuf, hmoved⟩
      · rw [h'.remaining] at hover
        exact .inr (.inl ⟨fun hle => not_le.mpr hover hle.1, _, by decide, herror _ _ hbuf⟩)
      · rw [h'.remaining] at hin
        rw [← hmoved.rest]
        refine .inr (.inr ⟨hnext, _, r₃, hok _ _ hbuf, h'.of_moved hmoved hin, ?_,
          and_iff_right hin⟩)
        rw [hmoved.rest, length_drop]
        omega
  · refine .inr (.inl ⟨?_, hread⟩)
    rintro (⟨_, _, hl, -⟩ | ⟨hl, -, -, -⟩) <;>
      exact absurd (hnone.symm.trans hl) (some_ne_none _).symm

/-- **The loop of `ReadName` panics iff it comes to a negative length.** -/
lemma Whole.readName_panics (h : r.Whole) :
    r.readName = .error .outOfRange ↔ NegativeLength r.rest := by
  have hfuel : r.rest.length < r.remaining + 1 := h.remaining ▸ lt_succ_self _
  rw [WireView.readName]
  generalize r.remaining + 1 = n at hfuel ⊢
  induction n generalizing r with
  | zero => exact absurd hfuel (not_lt_zero _)
  | succ n ih =>
    rw [readComponents]
    rcases h.readComponent_ends with
      ⟨hneg, hread⟩ | ⟨hneg, e, he, hread⟩ | ⟨-, c, r', hread, h', hlt, hiff⟩
    · rw [hread]
      exact iff_of_true rfl (.here hneg)
    · rw [hread]
      refine iff_of_false ?_ hneg
      cases e <;> simp at he ⊢
    · refine Iff.trans ?_ ((ih h' (hlt.trans_le (le_of_lt_succ hfuel))).trans hiff.symm)
      rw [hread]
      dsimp only
      cases readComponents n r' <;> simp [Except.map]

end WireView

lemma nameFromBytes_panics (bytes : Bytes) : nameFromBytes bytes = .error (.read .outOfRange)
    ↔ ∃ typ ∈ readTLNum bytes, typ.1 = typeName ∧ ∃ l ∈ readTLNum typ.2, NegativeLength l.2 := by
  rcases eq_or_ne bytes [] with rfl | hne
  · exact iff_of_false (by decide) fun ⟨_, hnone, _⟩ => nomatch hnone
  rw [nameFromBytes]
  rcases (whole_new hne).readTLNum with ⟨typ, r₁, htyp, hlist, h₁⟩ | ⟨hnone, herr⟩
  · rw [rest_new_singleton] at hlist
    simp only [htyp, hlist, mem_def, some.injEq, exists_eq_left']
    by_cases hname : typ = typeName
    · rw [if_neg (not_not.mpr hname), and_iff_right hname]
      rcases h₁.readTLNum with ⟨l, r₂, hl, hlist', h₂⟩ | ⟨hnone, herr⟩
      · simp only [hl, hlist', some.injEq, exists_eq_left', ← h₂.readName_panics]
        cases hread : r₂.readName with
        | error e => simp
        | ok name =>
          dsimp only
          split_ifs <;> simp
      · simp only [herr, hnone]
        split_ifs <;> simp
    · simp [hname]
  · rw [rest_new_singleton] at hnone herr
    rw [herr, hnone, if_neg hne]
    exact iff_of_false (fun heq => nomatch heq) fun ⟨_, hsome, _⟩ => nomatch hsome

/-- **Parsing a name panics iff it comes to a length of `2 ^ 63` or more with bytes after it**,
however the bytes are split. -/
theorem name_parsing_panics_iff {wire : Wire} (hwire : ∀ seg ∈ wire, seg ≠ []) (bytes : Bytes) :
    ((new wire).readName = .error .outOfRange ↔ NegativeLength wire.flatten)
      ∧ (componentFromBytes bytes = .error .outOfRange ↔ NextNegative bytes)
      ∧ (nameFromBytes bytes = .error (.read .outOfRange)
        ↔ ∃ typ ∈ readTLNum bytes, typ.1 = typeName
          ∧ ∃ l ∈ readTLNum typ.2, NegativeLength l.2) := by
  refine ⟨(whole_of_wire hwire).readName_panics, ?_, nameFromBytes_panics bytes⟩
  rcases eq_or_ne bytes [] with rfl | hne
  · exact iff_of_false (by decide) fun ⟨_, _, hnone, _⟩ => nomatch hnone
  rw [componentFromBytes]
  have hends := (whole_new hne).readComponent_ends
  rw [rest_new_singleton] at hends
  rcases hends with ⟨hneg, hread⟩ | ⟨hneg, e, he, hread⟩ | ⟨hneg, c, r', hread, -⟩
  · rw [hread]
    exact iff_of_true rfl hneg
  · rw [hread]
    exact iff_of_false (fun heq => he (error.inj heq)) fun hnext => hneg (.here hnext)
  · rw [hread]
    exact iff_of_false (fun heq => nomatch heq) hneg

theorem name_parsing_panics_iff_split :
    (new [[8, 255, 128], [0, 0, 0, 0, 0, 0, 0, 0]]).readName = .error .outOfRange
      ↔ NegativeLength [8, 255, 128, 0, 0, 0, 0, 0, 0, 0, 0] :=
  (name_parsing_panics_iff (by decide) []).1

/-- A component, and a name with it, whose length is `2 ^ 63`. -/
theorem negative_length_panics :
    componentFromBytes [8, 255, 128, 0, 0, 0, 0, 0, 0, 0, 0] = .error .outOfRange
      ∧ nameFromBytes [7, 11, 8, 255, 128, 0, 0, 0, 0, 0, 0, 0, 0]
        = .error (.read .outOfRange) := by
  decide +kernel

end Panics

end Mars
