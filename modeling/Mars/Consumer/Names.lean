import Mars.Basic
import Mathlib.Data.Nat.Digits.Defs

/-!
The names of a consumer's Interests.

A flow asks producer `i` for `/pro<i>app/<node>/pd/<tier>/seq-<k>` during path discovery and for
`/pro<i>app/<node>/dt/seq-<k>` afterwards.  The sequence number is written with `strconv.Itoa` and
read back from the last component.

* `itoa`, `parseDigits_itoaNat`, `itoa_injective`: numbers and their decimals;
* `extractSeqNum_seqName`: reading the sequence number of a name back;
* `seqName_injective`, `dtBaseName_ne_pdBaseName`: different requests have different names.
-/

namespace Mars

open List Function

/-! ### Decimals -/

/-- The character of a decimal digit. -/
def digitChar (d : ℕ) : Char := Char.ofNat (48 + d)

/-- The decimal of a natural number. -/
def itoaNat (n : ℕ) : Str := if n = 0 then ['0'] else (Nat.digits 10 n).reverse.map digitChar

/-- `strconv.Itoa`. -/
def itoa (n : ℤ) : Str := if n < 0 then '-' :: itoaNat n.natAbs else itoaNat n.natAbs

/-- One step of the loop of `parseDigits`. -/
private def pushDigit (acc : Option ℕ) (c : Char) : Option ℕ :=
  acc.bind fun n => if c.isDigit then some (10 * n + (c.toNat - 48)) else none

private lemma pushDigit_digitChar {n d : ℕ} (hd : d < 10) :
    pushDigit (some n) (digitChar d) = some (10 * n + d) := by
  have hchar : ∀ d < 10, (digitChar d).isDigit = true ∧ (digitChar d).toNat - 48 = d := by decide
  simp only [pushDigit, Option.bind_some, (hchar d hd).1, (hchar d hd).2, if_true]

private lemma foldl_pushDigit {digits : List ℕ} (h : ∀ d ∈ digits, d < 10) :
    (digits.reverse.map digitChar).foldl pushDigit (some 0) = some (Nat.ofDigits 10 digits) := by
  induction digits with
  | nil => rfl
  | cons d digits ih =>
    have hrest := ih fun d' hd' => h d' (mem_cons_of_mem d hd')
    rw [reverse_cons, map_append, foldl_append, hrest, Nat.ofDigits_cons]
    refine (pushDigit_digitChar (h d mem_cons_self)).trans ?_
    rw [Nat.add_comm]

lemma itoaNat_ne_nil {n : ℕ} : itoaNat n ≠ [] := by
  rw [itoaNat]
  split_ifs with h
  · exact cons_ne_nil _ _
  · simpa using Nat.digits_ne_nil_iff_ne_zero.mpr h

/-- A decimal reads back as its number. -/
@[simp] lemma parseDigits_itoaNat (n : ℕ) : parseDigits (itoaNat n) = some n := by
  have hne : (itoaNat n).isEmpty = false := by simpa using itoaNat_ne_nil
  rw [parseDigits, hne]
  change (itoaNat n).foldl pushDigit (some 0) = some n
  rw [itoaNat]
  split_ifs with h
  · rw [h]
    rfl
  · rw [foldl_pushDigit fun d hd => Nat.digits_lt_base (by norm_num) hd, Nat.ofDigits_digits]

/-- A decimal starts with a digit, not with a sign. -/
private lemma itoaNat_head {n : ℕ} {c : Char} {rest : Str} (h : itoaNat n = c :: rest) :
    c ≠ '-' ∧ c ≠ '+' := by
  have hchar : ∀ d < 10, digitChar d ≠ '-' ∧ digitChar d ≠ '+' := by decide
  have hmem : c ∈ itoaNat n := h ▸ mem_cons_self
  rw [itoaNat] at hmem
  split_ifs at hmem with hn
  · rw [mem_singleton.mp hmem]
    decide
  · obtain ⟨d, hd, rfl⟩ := mem_map.mp hmem
    exact hchar d (Nat.digits_lt_base (by norm_num) (mem_reverse.mp hd))

lemma itoaNat_injective : Injective itoaNat := by
  intro m n h
  have hparse := congrArg parseDigits h
  rw [parseDigits_itoaNat, parseDigits_itoaNat] at hparse
  exact Option.some.inj hparse

lemma itoa_injective : Injective itoa := by
  intro m n h
  rw [itoa, itoa] at h
  split_ifs at h with hm hn hn
  · have hab := itoaNat_injective (List.cons.inj h).2
    omega
  · exact absurd rfl (itoaNat_head h.symm).1
  · exact absurd rfl (itoaNat_head h).1
  · have hab := itoaNat_injective h
    omega

lemma atoi_itoaNat (n : ℕ) : atoi (itoaNat n) = if n < 2 ^ 63 then some (n : ℤ) else none := by
  obtain ⟨c, rest, hcons⟩ := exists_cons_of_ne_nil itoaNat_ne_nil
  have hparse := parseDigits_itoaNat n
  obtain ⟨hminus, hplus⟩ := itoaNat_head hcons
  rw [hcons] at hparse ⊢
  rw [atoi.eq_def]
  split
  · rename_i heq
    exact absurd (List.cons.inj heq).1 hminus
  · rename_i heq
    exact absurd (List.cons.inj heq).1 hplus
  · rw [hparse]
    rfl

/-! ### Names -/

/-- The component of a sequence number. -/
def seqComponent (seq : ℤ) : Str := "seq-".toList ++ itoa seq

/-- The name of a sequence number under a base name. -/
def seqName (base : Name) (seq : ℤ) : Name := base ++ [seqComponent seq]

/-- `extractSeqNum`: the sequence number in the last component of a name, `-1` if there is
none. -/
def extractSeqNum (name : Name) : ℤ :=
  let lastPart := name.getLastD []
  if hasPrefix lastPart "seq-".toList then
    (atoi (trimPrefix lastPart "seq-".toList)).getD (-1)
  else -1

/-- The first component of the names for a producer, from `parseProducerRange`. -/
def producerPrefix (index : ℕ) : Str := "pro".toList ++ itoaNat index ++ "app".toList

/-- The base name of path discovery, from `updatePDBaseName`. -/
def pdBaseName (flowPrefix nodeName : Str) (tier : ℕ) : Name :=
  [flowPrefix] ++ (if nodeName = [] then [] else [nodeName]) ++ ["pd".toList, itoaNat tier]

/-- The base name of data transmission, from `initDTState`. -/
def dtBaseName (flowPrefix nodeName : Str) : Name :=
  [flowPrefix] ++ (if nodeName = [] then [] else [nodeName]) ++ ["dt".toList]

lemma seqComponent_injective : Injective seqComponent := fun _ _ h =>
  itoa_injective (append_cancel_left h)

variable {base : Name}

lemma seqName_inj {base' : Name} {seq seq' : ℤ} :
    seqName base seq = seqName base' seq' ↔ base = base' ∧ seq = seq' := by
  constructor
  · intro h
    have hparts := append_inj' h rfl
    exact ⟨hparts.1, seqComponent_injective (List.cons.inj hparts.2).1⟩
  · rintro ⟨rfl, rfl⟩
    rfl

lemma seqName_injective : Injective (seqName base) :=
  fun _ _ h => (seqName_inj.mp h).2

lemma producerPrefix_injective : Injective producerPrefix := fun _ _ h =>
  itoaNat_injective (append_cancel_left (append_cancel_right h))

lemma extractSeqNum_eq {seq : ℤ} :
    extractSeqNum (seqName base seq) = (atoi (itoa seq)).getD (-1) := by
  have hlast : (seqName base seq).getLastD [] = seqComponent seq := by simp [seqName]
  have hpre : hasPrefix (seqComponent seq) "seq-".toList = true := by
    simp [hasPrefix, seqComponent]
  have htrim : trimPrefix (seqComponent seq) "seq-".toList = itoa seq := by
    rw [trimPrefix, if_pos hpre, seqComponent, drop_left]
  rw [extractSeqNum, hlast, if_pos hpre, htrim]

/-- The sequence number of a name reads back, within the range of an `int`. -/
lemma extractSeqNum_seqName {seq : ℤ} (hpos : 0 ≤ seq) (hlt : seq < 2 ^ 63) :
    extractSeqNum (seqName base seq) = seq := by
  rw [extractSeqNum_eq, itoa, if_neg (by omega), atoi_itoaNat, if_pos (by omega)]
  exact Int.natAbs_of_nonneg hpos

lemma dtBaseName_ne_pdBaseName {p p' n : Str} {tier : ℕ} :
    dtBaseName p n ≠ pdBaseName p' n tier := by
  intro h
  have hlen := congrArg length h
  simp [dtBaseName, pdBaseName] at hlen

@[simp] lemma head?_dtBaseName {p n : Str} : (dtBaseName p n).head? = some p := rfl

@[simp] lemma head?_pdBaseName {p n : Str} {tier : ℕ} : (pdBaseName p n tier).head? = some p := rfl

end Mars
