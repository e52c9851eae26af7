import Mars.Table.PitCs

/-!
The dead nonce list of a forwarding thread: `dead-nonce-list.go`.
-/

namespace Mars

/-- `DeadNonceList`. -/
structure DeadNonceList where
  list : Finset ℕ
  expirationQueue : PriorityQueue ℕ ℤ

/-- `NewDeadNonceList`. -/
def DeadNonceList.new : DeadNonceList := ⟨∅, []⟩

namespace DeadNonceList

variable (cfg : TableConfig) (d : DeadNonceList) (name : Name)

/-- The key of a name and a nonce. -/
def key (nonce : ℕ) : ℕ := (cfg.nameHash name + nonce) % 2 ^ 64

/-- `Find`. -/
def find (nonce : ℕ) : Bool :=
  key cfg name nonce ∈ d.list

/-- `Insert`. -/
def insert (cfg : TableConfig) (d : DeadNonceList) (name : Name) (nonce : ℕ) (now : Time) :
    DeadNonceList :=
  let hash := key cfg name nonce
  if hash ∈ d.list then d
  else
    { list := Insert.insert hash d.list
      expirationQueue := d.expirationQueue.push hash (unixNano (now + cfg.deadNonceListLifetime)) }

/-- The loop of `RemoveExpiredEntries`. -/
def removeExpired (now : Time) : ℕ → DeadNonceList → DeadNonceList
  | 0, d => d
  | fuel + 1, d =>
    match d.expirationQueue.popIf (· < unixNano now) with
    | none => d
    | some popped => removeExpired now fuel ⟨d.list.erase popped.1, popped.2⟩

/-- `RemoveExpiredEntries`: at most a hundred in one call. -/
def removeExpiredEntries (now : Time) : DeadNonceList :=
  d.removeExpired now 100

/-- The nonces of some records become dead. -/
def insertAll (records : List PitOutRecord) (now : Time) : DeadNonceList :=
  records.foldl (fun d record => d.insert cfg name record.latestNonce now) d

lemma mem_insert {cfg : TableConfig} {d : DeadNonceList} {name : Name} {nonce : ℕ} {now : Time}
    {k : ℕ} : k ∈ (d.insert cfg name nonce now).list ↔ k = key cfg name nonce ∨ k ∈ d.list := by
  simp only [insert]
  split_ifs with hin
  · exact ⟨.inr, fun h => h.elim (· ▸ hin) id⟩
  · simp

/-- The nonces of the records are in the list then, and those that were. -/
lemma mem_insertAll {cfg : TableConfig} {d : DeadNonceList} {name : Name} {now : Time}
    {records : List PitOutRecord} (k : ℕ) : k ∈ (d.insertAll cfg name records now).list
      ↔ k ∈ d.list ∨ ∃ r ∈ records, k = key cfg name r.latestNonce := by
  induction records generalizing d with
  | nil => simp [insertAll]
  | cons r records ih =>
    rw [insertAll, List.foldl_cons, ← insertAll, ih, mem_insert]
    grind

end DeadNonceList

end Mars
