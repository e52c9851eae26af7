import Mars.Basic
import Mathlib.Tactic.Ring

/-!
The encoding of names.

A component is its type, its length and its value.  The type is a TLV number, but the length is
a natural number without a marker of its own length, so the encoding of a name can only be read
back if the components are short.

* `tlNum`, `natBytes`, `Component.bytes`, `nameInner`, `nameBytes`: the encoders; `readTLNum`,
  `readComponent`, `readName`: the decoders;
* `readName_nameInner`: a name whose components are shorter than 253 bytes is read back;
* `nameInner_injOn`, `nameBytes_injOn`: so no two such names have the same encoding.
-/

namespace Mars

open List

/-! ### Numbers -/

/-- `PutUint16` and `PutUint32`: the bytes of a number, most significant first. -/
def bigEndian (bytes n : ℕ) : Bytes :=
  (range bytes).reverse.map fun i => n / 256 ^ i % 256

/-- `Uint32`. -/
def readBigEndian (bytes : Bytes) : ℕ := bytes.foldl (fun acc b => acc * 256 + b) 0

lemma length_bigEndian {k n : ℕ} : (bigEndian k n).length = k := by simp [bigEndian]

lemma bigEndian_succ {k n : ℕ} : bigEndian (k + 1) n = n / 256 ^ k % 256 :: bigEndian k n := by
  simp [bigEndian, range_succ]

/-- The digits of a number that fits are read back. -/
lemma readBigEndian_bigEndian {k n : ℕ} (h : n < 256 ^ k) : readBigEndian (bigEndian k n) = n := by
  have hdigits : ∀ k acc, (bigEndian k n).foldl (fun acc b => acc * 256 + b) acc
      = acc * 256 ^ k + n % 256 ^ k := by
    intro k
    induction k with
    | zero => intro acc; simp [bigEndian, Nat.mod_one]
    | succ k ih =>
      intro acc
      rw [bigEndian_succ, foldl_cons, ih, Nat.pow_succ 256 k, Nat.mod_mul]
      ring
  rw [readBigEndian, hdigits, Nat.zero_mul, Nat.zero_add, Nat.mod_eq_of_lt h]

/-- `TLNum.EncodeInto`. -/
def tlNum (x : ℕ) : Bytes :=
  if x ≤ 0xfc then [x]
  else if x ≤ 0xffff then 0xfd :: bigEndian 2 x
  else if x ≤ 0xffffffff then 0xfe :: bigEndian 4 x
  else 0xff :: bigEndian 8 x

/-- `ReadTLNum`: a number and the bytes after it. -/
def readTLNum : Bytes → Option (ℕ × Bytes)
  | [] => none
  | x :: rest =>
    if x ≤ 0xfc then some (x, rest)
    else
      let l := if x = 0xfd then 2 else if x = 0xfe then 4 else 8
      if rest.length < l then none else some (readBigEndian (rest.take l), rest.drop l)

/-- A number in `l` bytes, after the byte that says so. -/
lemma readTLNum_cons {first l x : ℕ} (hfirst : ¬ first ≤ 0xfc)
    (hl : (if first = 0xfd then 2 else if first = 0xfe then 4 else 8) = l) (h : x < 256 ^ l)
    {rest : Bytes} : readTLNum (first :: bigEndian l x ++ rest) = some (x, rest) := by
  have hlen : ¬ (bigEndian l x ++ rest).length < l := by
    rw [length_append, length_bigEndian]
    omega
  rw [cons_append, readTLNum, if_neg hfirst, hl]
  simp only [if_neg hlen, take_left' length_bigEndian,
    drop_left' length_bigEndian, readBigEndian_bigEndian h]

lemma readTLNum_tlNum {x : ℕ} (h : x < 2 ^ 64) {rest : Bytes} :
    readTLNum (tlNum x ++ rest) = some (x, rest) := by
  unfold tlNum
  split_ifs with h1
  · simp [readTLNum, h1]
  all_goals exact readTLNum_cons (by decide) rfl (by simp; omega)

/-- `Nat.EncodeInto`. -/
def natBytes (x : ℕ) : Bytes :=
  if x ≤ 0xff then [x]
  else if x ≤ 0xffff then bigEndian 2 x
  else if x ≤ 0xffffffff then bigEndian 4 x
  else bigEndian 8 x

/-! ### Names -/

/-- `Component`. -/
structure Component where
  typ : ℕ
  val : Bytes
  deriving DecidableEq, Repr

/-- The component has a 64-bit type and fewer than 253 bytes. -/
structure Component.Short (c : Component) : Prop where
  typ : c.typ < 2 ^ 64
  val : c.val.length < 253

instance decidableShort (c : Component) : Decidable c.Short :=
  decidable_of_iff (c.typ < 2 ^ 64 ∧ c.val.length < 253) ⟨fun h => ⟨h.1, h.2⟩, fun h => ⟨h.1, h.2⟩⟩

/-- `Component.EncodeInto`. -/
def Component.bytes (c : Component) : Bytes := tlNum c.typ ++ natBytes c.val.length ++ c.val

/-- `Name.EncodeInto`: the components one after another. -/
def nameInner (name : List Component) : Bytes := name.flatMap Component.bytes

def typeName : ℕ := 7

/-- `Name.Bytes`. -/
def nameBytes (name : List Component) : Bytes :=
  tlNum typeName ++ natBytes (nameInner name).length ++ nameInner name

/-- `ReadComponent`: a component and the bytes after it. -/
def readComponent (bytes : Bytes) : Option (Component × Bytes) := do
  let (typ, rest) ← readTLNum bytes
  let (l, rest) ← readTLNum rest
  if rest.length < l then none else some (⟨typ, rest.take l⟩, rest.drop l)

/-- `ReadName`; there are `fuel` components at most. -/
def readName : ℕ → Bytes → Option (List Component)
  | _, [] => some []
  | 0, _ => none
  | fuel + 1, bytes => do
      let (c, rest) ← readComponent bytes
      let name ← readName fuel rest
      some (c :: name)

lemma readComponent_bytes {c : Component} (h : c.Short) (rest : Bytes) :
    readComponent (c.bytes ++ rest) = some (c, rest) := by
  have hval := h.val
  have hlen : natBytes c.val.length = tlNum c.val.length := by
    rw [natBytes, tlNum, if_pos (by omega), if_pos (by omega)]
  simp only [readComponent, Component.bytes, hlen, append_assoc, readTLNum_tlNum h.typ,
    readTLNum_tlNum (show c.val.length < 2 ^ 64 by omega), Option.bind_eq_bind, Option.bind_some]
  simp

lemma bytes_ne_nil (c : Component) : c.bytes ≠ [] := by
  unfold Component.bytes tlNum
  split_ifs <;> simp

/-- **A name with short components is read back.** -/
lemma readName_nameInner {name : List Component} (h : ∀ c ∈ name, c.Short) {fuel : ℕ}
    (hfuel : name.length ≤ fuel) : readName fuel (nameInner name) = some name := by
  induction name generalizing fuel with
  | nil => cases fuel <;> rfl
  | cons c name ih =>
    obtain ⟨fuel, rfl⟩ : ∃ k, fuel = k + 1 := ⟨fuel - 1, by simp at hfuel; omega⟩
    obtain ⟨b, bs, hbs⟩ := exists_cons_of_ne_nil (bytes_ne_nil c)
    have hread := readComponent_bytes (h c mem_cons_self) (nameInner name)
    have hrest := ih (fun c' hc' => h c' (mem_cons_of_mem c hc'))
      (Nat.le_of_succ_le_succ hfuel)
    have hinner : nameInner (c :: name) = c.bytes ++ nameInner name := rfl
    rw [hinner]
    rw [hbs, cons_append] at hread ⊢
    simp [readName, hread, hrest]

/-- **Two names with short components have different encodings.** -/
lemma nameInner_injOn : Set.InjOn nameInner {name | ∀ c ∈ name, c.Short} := by
  intro a ha b hb hab
  have hread := readName_nameInner ha (le_max_left a.length b.length)
  rw [hab, readName_nameInner hb (le_max_right a.length b.length)] at hread
  exact (Option.some_inj.mp hread).symm

lemma length_natBytes {x : ℕ} :
    (natBytes x).length
      = if x ≤ 0xff then 1 else if x ≤ 0xffff then 2 else if x ≤ 0xffffffff then 4 else 8 := by
  unfold natBytes
  split_ifs <;> simp [length_bigEndian]

/-- So do their encodings with the outer type and length: the whole length gives the inner. -/
lemma nameBytes_injOn : Set.InjOn nameBytes {name | ∀ c ∈ name, c.Short} := by
  intro a ha b hb hab
  refine nameInner_injOn ha hb ?_
  rw [nameBytes, nameBytes, append_assoc, append_assoc, append_cancel_left_eq] at hab
  have htotal := congrArg length hab
  rw [length_append, length_append, length_natBytes, length_natBytes] at htotal
  have hlen : (nameInner a).length = (nameInner b).length := by
    split_ifs at htotal <;> omega
  rw [hlen] at hab
  exact append_cancel_left hab

end Mars
