import Mars.Lib.Grouping
import Mathlib.Algebra.Group.Nat.Defs
import Mathlib.Algebra.Ring.Int.Defs

/-!
The vocabulary shared by the forwarder's modules: strings and names, faces, Interests, the
codes of NACK reasons, the order of a loop over a map, and the parts of Go's `strings` and
`strconv` that the strategy reads names with.
-/

namespace Mars

open List

/-- A Go string, as the list of its characters. -/
abbrev Str := List Char

/-- A name, as the list of the `String()` forms of its components. -/
abbrev Name := List Str

/-- A face id.  The face table hands out ids from `1`; `0` stands for no face. -/
abbrev Face := ℕ

/-- The bytes of a PIT token or of a packet. -/
abbrev Bytes := List ℕ

/-- A point in time or a duration, in nanoseconds. -/
abbrev Time := ℤ

/-- A FIB nexthop as the forwarding thread hands it to the strategy. -/
structure FibNextHopEntry where
  nexthop : Face
  cost : ℕ
  deriving DecidableEq, Repr

/-- `FwInterest`: the fields of an Interest that the forwarder decodes. -/
structure FwInterest where
  name : Name
  canBePrefix : Bool
  mustBeFresh : Bool
  forwardingHint : List Name
  nonce : Option ℕ
  lifetime : Option Time
  hopLimit : Option ℕ
  deriving DecidableEq, Repr

/-- An Interest with a nonce and no options. -/
def plainInterest (name : Name) (nonce : ℕ) : FwInterest :=
  ⟨name, false, false, [], some nonce, none, none⟩

/-- The order in which a loop over a map visits its keys: Go does not fix it, so a wish is
given, which is completed. -/
def rangeOrder {κ : Type*} [DecidableEq κ] (keys wish : List κ) : List κ :=
  (Grouping.distinct wish).filter (· ∈ keys) ++ keys.filter (· ∉ wish)

lemma mem_rangeOrder {κ : Type*} [DecidableEq κ] {keys wish : List κ} {key : κ} :
    key ∈ rangeOrder keys wish ↔ key ∈ keys := by
  simp only [rangeOrder, mem_append, mem_filter, decide_eq_true_eq, Grouping.mem_distinct]
  by_cases hwish : key ∈ wish <;> simp [hwish]

lemma nodup_rangeOrder {κ : Type*} [DecidableEq κ] {keys : List κ} (h : keys.Nodup)
    {wish : List κ} : (rangeOrder keys wish).Nodup := by
  refine Nodup.append ((Grouping.nodup_distinct wish).filter _) (h.filter _) ?_
  intro key hleft hright
  simp only [mem_filter, Grouping.mem_distinct, decide_eq_true_eq] at hleft hright
  exact hright.2 hleft.1

lemma perm_rangeOrder {κ : Type*} [DecidableEq κ] {keys : List κ} (h : keys.Nodup)
    (wish : List κ) : (rangeOrder keys wish).Perm keys :=
  (perm_ext_iff_of_nodup (nodup_rangeOrder h) h).mpr fun _ => mem_rangeOrder

/-- An element is taken out of a slice: the last one moves to its place. -/
def swapRemove {α : Type*} [DecidableEq α] (l : List α) (e : α) : List α :=
  (l.set (l.idxOf e) (l.getLastD e)).dropLast

lemma perm_swapRemove {α : Type*} [DecidableEq α] {l : List α} {e : α} (he : e ∈ l) :
    (swapRemove l e).Perm (l.erase e) := by
  obtain ⟨l₁, l₂, hout, rfl, herase⟩ := exists_erase_eq he
  have hidx : (l₁ ++ e :: l₂).idxOf e = l₁.length := by
    rw [idxOf_append_of_notMem hout, idxOf_cons_self, Nat.add_zero]
  rw [herase, swapRemove, hidx]
  rcases eq_nil_or_concat l₂ with rfl | ⟨l, z, rfl⟩
  · simp
  · have hset : ((l₁ ++ e :: (l ++ [z])).set l₁.length
        ((l₁ ++ e :: (l ++ [z])).getLastD e)).dropLast = l₁ ++ z :: l := by
      have hlast : (l₁ ++ e :: (l ++ [z])).getLastD e = z := by
        rw [show l₁ ++ e :: (l ++ [z]) = (l₁ ++ e :: l) ++ [z] by simp, getLastD_concat]
      rw [hlast, set_append_right _ _ le_rfl, Nat.sub_self, set_cons_zero,
        show l₁ ++ z :: (l ++ [z]) = (l₁ ++ z :: l) ++ [z] by simp, dropLast_concat]
    rw [concat_eq_append, hset]
    exact Perm.append_left l₁ (perm_append_singleton z l).symm

/-- `spec.NackReasonNone`. -/
def nackReasonNone : ℕ := 0

/-- `spec.NackReasonNoRoute`. -/
def nackReasonNoRoute : ℕ := 150

/-- `strings.HasPrefix`. -/
def hasPrefix (s p : Str) : Bool := p.isPrefixOf s

/-- `strings.TrimPrefix`: drops `p` once if `s` starts with it. -/
def trimPrefix (s p : Str) : Str := if hasPrefix s p then s.drop p.length else s

/-- The value of a non-empty string of decimal digits. -/
def parseDigits (s : Str) : Option ℕ :=
  if s.isEmpty then none
  else s.foldl (fun acc c => acc.bind fun n =>
    if c.isDigit then some (10 * n + (c.toNat - 48)) else none) (some 0)

/-- `strconv.Atoi`: an optional sign and decimal digits; anything else, and a
value outside the 64-bit range, is an error. -/
def atoi (s : Str) : Option ℤ :=
  match s with
  | '-' :: ds => (parseDigits ds).bind fun n => if n ≤ 2 ^ 63 then some (-(n : ℤ)) else none
  | '+' :: ds => (parseDigits ds).bind fun n => if n < 2 ^ 63 then some (n : ℤ) else none
  | ds => (parseDigits ds).bind fun n => if n < 2 ^ 63 then some (n : ℤ) else none

/-- The key under which the strategy keeps the state of a name: its first
component, or `/` for the empty name. -/
def prefixKeyOf (name : Name) : Str := name.headD ['/']

end Mars
