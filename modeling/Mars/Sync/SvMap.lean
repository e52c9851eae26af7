import Mars.Lib.FinMap
import Mars.Lib.KeyedList

/-!
State vectors, and maps with a value for each name and boot time.

* `SvVals`: the values of a name by increasing boot time, which every change keeps;
* `SvMap.get`, `SvMap.set`, with `get_set`; `SvMap.isNewerThan`.
-/

namespace Mars.Sync

open List KeyedList

/-- `SeqNoEntry`. -/
structure SeqNoEntry where
  bootstrapTime : ℕ
  seqNo : ℕ
  deriving DecidableEq

/-- `StateVectorEntry`. -/
structure StateVectorEntry (N : Type*) where
  name : N
  seqNoEntries : List SeqNoEntry

/-- `SvMapVal`. -/
structure SvMapVal (V : Type*) where
  boot : ℕ
  value : V
  deriving DecidableEq

variable {κ V : Type*}

/-- The place of a boot time in a sorted list is found, and its value replaced or inserted. -/
def insertVal (entry : SvMapVal V) : List (SvMapVal V) → List (SvMapVal V)
  | [] => [entry]
  | v :: vals =>
    if entry.boot < v.boot then entry :: v :: vals
    else if entry.boot = v.boot then entry :: vals
    else v :: insertVal entry vals

lemma mem_insertVal {entry v : SvMapVal V} {vals : List (SvMapVal V)}
    (h : v ∈ insertVal entry vals) : v = entry ∨ v ∈ vals := by
  induction vals with
  | nil => exact .inl (mem_singleton.mp h)
  | cons u vals ih =>
    rw [insertVal] at h
    split_ifs at h
    · exact mem_cons.mp h
    · exact (mem_cons.mp h).imp_right (mem_cons_of_mem u)
    · rcases mem_cons.mp h with rfl | h
      · exact .inr mem_cons_self
      · exact (ih h).imp_right (mem_cons_of_mem u)

/-- The values of a name, by increasing boot time. -/
structure SvVals (V : Type*) where
  vals : List (SvMapVal V)
  sorted : vals.Pairwise fun a b => a.boot < b.boot

namespace SvVals

/-- No value. -/
def empty : SvVals V := ⟨[], .nil⟩

/-- `SvMap.Set`, for one name. -/
def set (s : SvVals V) (entry : SvMapVal V) : SvVals V where
  vals := insertVal entry s.vals
  sorted := by
    obtain ⟨vals, hsorted⟩ := s
    induction vals with
    | nil => exact pairwise_singleton _ _
    | cons v vals ih =>
      obtain ⟨hlt, hrest⟩ := pairwise_cons.mp hsorted
      dsimp only at ih ⊢
      rw [insertVal]
      split_ifs with hbelow heq
      · refine pairwise_cons.mpr ⟨fun u hu => ?_, hsorted⟩
        rcases mem_cons.mp hu with rfl | hu
        · exact hbelow
        · exact Nat.lt_trans hbelow (hlt u hu)
      · exact pairwise_cons.mpr ⟨fun u hu => heq ▸ hlt u hu, hrest⟩
      · refine pairwise_cons.mpr ⟨fun u hu => ?_, ih hrest⟩
        rcases mem_insertVal hu with rfl | hu
        · omega
        · exact hlt u hu

/-- The value of a boot time. -/
def get? (s : SvVals V) (boot : ℕ) : Option V :=
  (find SvMapVal.boot s.vals boot).map SvMapVal.value

lemma find_insertVal {entry : SvMapVal V} {vals : List (SvMapVal V)} {boot : ℕ} :
    find SvMapVal.boot (insertVal entry vals) boot
      = if entry.boot = boot then some entry else find SvMapVal.boot vals boot := by
  induction vals with
  | nil => rw [insertVal, find_cons]
  | cons v vals ih =>
    rw [insertVal]
    by_cases hbelow : entry.boot < v.boot
    · rw [if_pos hbelow, find_cons]
    · rw [if_neg hbelow]
      by_cases heq : entry.boot = v.boot
      · rw [if_pos heq, find_cons, find_cons, ← heq]
        split_ifs <;> rfl
      · rw [if_neg heq, find_cons, find_cons, ih]
        by_cases hboot : entry.boot = boot
        · rw [if_pos hboot, if_neg fun h => heq (hboot.trans h.symm), if_pos hboot]
        · rw [if_neg hboot, if_neg hboot]

lemma get?_set (s : SvVals V) {entry : SvMapVal V} {boot : ℕ} :
    (s.set entry).get? boot = if boot = entry.boot then some entry.value else s.get? boot := by
  rw [get?, set, find_insertVal]
  by_cases h : entry.boot = boot
  · rw [if_pos h, if_pos h.symm]
    rfl
  · rw [if_neg h, if_neg (Ne.symm h)]
    rfl

end SvVals

/-- `SvMap`. -/
abbrev SvMap (κ V : Type*) := FinMap κ (SvVals V)

namespace SvMap

variable [DecidableEq κ]

/-- The value of a name and a boot time. -/
def get? (m : SvMap κ V) (hash : κ) (boot : ℕ) : Option V := (m.lookup hash).bind (·.get? boot)

/-- `SvMap.Get`. -/
def get [Inhabited V] (m : SvMap κ V) (hash : κ) (boot : ℕ) : V := (get? m hash boot).getD default

/-- `SvMap.Set`. -/
def set (m : SvMap κ V) (hash : κ) (boot : ℕ) (value : V) : SvMap κ V :=
  m.insert hash (((m.lookup hash).getD .empty).set ⟨boot, value⟩)

/-- `IsNewerThan`. -/
def isNewerThan (m other : SvMap κ V) (cmp : V → V → Bool) : Bool :=
  m.entries.any fun e => e.2.vals.any fun entry =>
    match get? other e.1 entry.boot with
    | none => true
    | some value => cmp entry.value value

lemma get?_set (m : SvMap κ V) {hash : κ} {boot : ℕ} {value : V} {hash' : κ} {boot' : ℕ} :
    get? (set m hash boot value) hash' boot'
      = if hash' = hash ∧ boot' = boot then some value else get? m hash' boot' := by
  rw [get?, set, AList.lookup_insert_eq]
  by_cases hhash : hash' = hash
  · subst hhash
    rw [if_pos rfl, Option.bind_some, SvVals.get?_set, get?]
    simp only [true_and]
    split_ifs
    · rfl
    · cases m.lookup hash' <;> rfl
  · rw [if_neg hhash, if_neg fun h => hhash h.1]
    rfl

lemma get_set [Inhabited V] (m : SvMap κ V) {hash : κ} {boot : ℕ} {value : V} {hash' : κ}
    {boot' : ℕ} :
    get (set m hash boot value) hash' boot'
      = if hash' = hash ∧ boot' = boot then value else get m hash' boot' := by
  rw [get, get?_set]
  split_ifs <;> rfl

end SvMap

end Mars.Sync
