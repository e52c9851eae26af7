import Mars.Encoding.NameCodec
import Mars.Lib.FinMap

/-!
Objects are cut into segments, which go into a store.

* `newSegmentComponent`, `numberVal`: the number of a segment as a component, and back;
* `fillSegment`: the loop that takes buffers until a segment is full; `fillSegment_spec`: the bytes
  it takes and those it leaves, however they are split into buffers;
* `produce`: the segments of an object and its metadata are put into a store;
* `stores_produce`: the packet of every segment; `flatten_segments`: together they are the object.
-/

namespace Mars.Object

open List Nat

/-! ### Components that are numbers -/

def typeKeyword : ℕ := 0x20

def typeSegment : ℕ := 0x32

def typeVersion : ℕ := 0x36

/-- `Component.IsVersion`. -/
def isVersion (c : Component) : Bool := c.typ = typeVersion

/-- `Component.NumberVal`: bytes are shifted into a `uint64`. -/
def numberVal (c : Component) : ℕ := c.val.foldl (fun ret v => ret * 256 % 2 ^ 64 + v) 0

/-- `NewSegmentComponent`. -/
def newSegmentComponent (seg : ℕ) : Component := ⟨typeSegment, natBytes seg⟩

/-- `NewVersionComponent`. -/
def newVersionComponent (v : ℕ) : Component := ⟨typeVersion, natBytes v⟩

/-- `Name.At(-1)`. -/
def lastComponent (name : List Component) : Component := name.getLastD ⟨0, []⟩

/-- Shifting in bytes keeps the number that they spell, modulo the width. -/
lemma foldl_shift {bytes : Bytes} (h : ∀ b ∈ bytes, b < 256) (acc : ℕ) :
    bytes.foldl (fun ret v => ret * 256 % 2 ^ 64 + v) (acc % 2 ^ 64)
      = bytes.foldl (fun acc b => acc * 256 + b) acc % 2 ^ 64 := by
  induction bytes generalizing acc with
  | nil => rfl
  | cons b bytes ih =>
    have hb := h b mem_cons_self
    have hstep : acc % 2 ^ 64 * 256 % 2 ^ 64 + b = (acc * 256 + b) % 2 ^ 64 := by omega
    rw [foldl_cons, foldl_cons, hstep]
    exact ih (fun b' hb' => h b' (mem_cons_of_mem b hb')) _

lemma readBigEndian_natBytes {x : ℕ} (h : x < 2 ^ 64) : readBigEndian (natBytes x) = x := by
  unfold natBytes
  split_ifs
  · simp [readBigEndian]
  all_goals exact readBigEndian_bigEndian (by omega)

lemma numberVal_newSegmentComponent {seg : ℕ} (h : seg < 2 ^ 64) :
    numberVal (newSegmentComponent seg) = seg := by
  have hfold := foldl_shift (fun b hb => natBytes_lt (x := seg) hb) 0
  rw [zero_mod] at hfold
  rw [numberVal, newSegmentComponent, hfold]
  exact (congrArg (· % 2 ^ 64) (readBigEndian_natBytes h)).trans (mod_eq_of_lt h)

lemma newSegmentComponent_injOn : Set.InjOn newSegmentComponent {seg | seg < 2 ^ 64} := by
  intro seg hseg seg' hseg' heq
  rw [← numberVal_newSegmentComponent hseg, heq, numberVal_newSegmentComponent hseg']

/-! ### Data packets -/

/-- The parts of a Data packet that producers set. -/
structure Data where
  name : List Component
  /-- `MetaInfo.FinalBlockID`. -/
  finalBlockID : Option Bytes
  content : Wire
  deriving DecidableEq

/-- The packets of a store, by name. -/
abbrev Store := FinMap (List Component) Data

/-! ### Producing -/

/-- The size of a segment. -/
def pSegmentSize : ℕ := 8000

/-- The last segment of a content. -/
def lastSeg (content : Wire) : ℕ :=
  let contentSize := (content.map length).sum
  if 0 < contentSize then (contentSize - 1) / pSegmentSize else 0

/-- The loop that fills a segment which has `segContentSize` bytes: what it appends, and the
content that is left. -/
def fillSegment : Wire → (segContentSize : ℕ) → Wire × Wire
  | [], _ => ([], [])
  | buf :: content, segContentSize =>
    if segContentSize < pSegmentSize then
      let sizeLeft := min (pSegmentSize - segContentSize) buf.length
      let newContent := buf.take sizeLeft
      if buf.drop sizeLeft = [] then
        let (segContent, content) := fillSegment content (segContentSize + newContent.length)
        (newContent :: segContent, content)
      else
        -- a buffer is cut only where the segment is full, so the loop ends
        ([newContent], buf.drop sizeLeft :: content)
    else ([], buf :: content)

structure ProduceArgs where
  name : List Component
  content : Wire
  noMetadata : Bool

/-- What `Produce` calls: whether a transaction can begin, whether the packet of a name can be made
and put, and the encoding of the metadata. -/
structure ProduceEnv where
  begins : Bool
  makeData : List Component → Bool
  put : List Component → Bool
  encodeMetaData : (name : List Component) → (finalBlockID : Bytes) → Wire

inductive ProduceErr where
  | versionNotSet (name : List Component)
  | begin
  | makeData (name : List Component)
  | put (name : List Component)
  deriving DecidableEq

/-- A packet is made and put. -/
def putData (env : ProduceEnv) (d : Data) (store : Store) : Except ProduceErr Unit × Store :=
  if !env.makeData d.name then (.error (.makeData d.name), store)
  else if !env.put d.name then (.error (.put d.name), store)
  else (.ok (), store.insert d.name d)

/-- The loop over the segments, of which `left` are left and the next one is `seg`.  An error ends
it, and what has been put stays. -/
def putSegments (env : ProduceEnv) (name : List Component) (finalBlockID : Bytes) :
    (left seg : ℕ) → Wire → Store → Except ProduceErr Unit × Store
  | 0, _, _, store => (.ok (), store)
  | left + 1, seg, content, store =>
    let (segContent, content) := fillSegment content 0
    let d : Data := ⟨name ++ [newSegmentComponent seg], some finalBlockID, segContent⟩
    match putData env d store with
    | (.error e, store) => (.error e, store)
    | (.ok (), store) => putSegments env name finalBlockID left (seg + 1) content store

/-- `rdr.MetadataKeyword`. -/
def metadataKeyword : Component := ⟨typeKeyword, [109, 101, 116, 97, 100, 97, 116, 97]⟩

/-- The metadata packet. -/
def metadata (env : ProduceEnv) (name : List Component) (finalBlockID : Bytes) : Data where
  name := name.dropLast ++ [metadataKeyword, newVersionComponent (numberVal (lastComponent name)),
    newSegmentComponent 0]
  finalBlockID := some finalBlockID
  content := env.encodeMetaData name finalBlockID

/-- `Produce`. -/
def produce (env : ProduceEnv) (args : ProduceArgs) (store : Store) :
    Except ProduceErr (List Component) × Store :=
  if !isVersion (lastComponent args.name) then (.error (.versionNotSet args.name), store)
  else if !env.begins then (.error .begin, store)
  else
    let finalBlockID := (newSegmentComponent (lastSeg args.content)).bytes
    match putSegments env args.name finalBlockID (lastSeg args.content + 1) 0 args.content
        store with
    | (.error e, store) => (.error e, store)
    | (.ok (), store) =>
      if args.noMetadata then (.ok args.name, store)
      else
        match putData env (metadata env args.name finalBlockID) store with
        | (.error e, store) => (.error e, store)
        | (.ok (), store) => (.ok args.name, store)

/-! ### The segments of a content -/

/-- The bytes of a segment. -/
def segment (content : Wire) (seg : ℕ) : Bytes :=
  (content.flatten.drop (seg * pSegmentSize)).take pSegmentSize

/-- **A segment takes the next bytes**, however they are split into buffers. -/
lemma fillSegment_spec {content : Wire} {size : ℕ} (h : size ≤ pSegmentSize) :
    (fillSegment content size).1.flatten = content.flatten.take (pSegmentSize - size)
      ∧ (fillSegment content size).2.flatten = content.flatten.drop (pSegmentSize - size) := by
  induction content generalizing size with
  | nil => simp [fillSegment]
  | cons buf content ih =>
    rw [fillSegment]
    dsimp only
    split_ifs with hroom hused
    · -- the whole buffer goes into the segment
      have hle : buf.length ≤ min (pSegmentSize - size) buf.length := drop_eq_nil_iff.mp hused
      have hfit : buf.length ≤ pSegmentSize - size := hle.trans (min_le_left _ _)
      rw [min_eq_right hfit, take_length]
      have hroom' : size + buf.length ≤ pSegmentSize := by omega
      obtain ⟨hfill, hleft⟩ := ih hroom'
      rw [flatten_cons, flatten_cons, hfill, hleft, take_append, drop_append,
        List.take_of_length_le hfit, List.drop_eq_nil_of_le hfit, Nat.sub_sub]
      exact ⟨rfl, rfl⟩
    · have hlong : pSegmentSize - size ≤ buf.length := by
        by_contra hshort
        exact hused (drop_eq_nil_of_le (by omega))
      rw [min_eq_left hlong, flatten_singleton, flatten_cons, flatten_cons,
        take_append_of_le_length hlong, drop_append_of_le_length hlong]
      exact ⟨rfl, rfl⟩
    · rw [show pSegmentSize - size = 0 by omega, take_zero, drop_zero]
      exact ⟨rfl, rfl⟩

/-- Consecutive pieces of one length. -/
lemma flatten_pieces {α : Type*} (l : List α) (c n : ℕ) :
    ((range n).map fun k => (l.drop (k * c)).take c).flatten = l.take (n * c) := by
  induction n with
  | zero => simp
  | succ n ih =>
    rw [range_succ, map_append, flatten_append, ih, map_singleton,
      flatten_singleton, succ_mul, take_add]

/-- The segments up to the last are the whole content. -/
lemma flatten_segments (content : Wire) :
    ((range (lastSeg content + 1)).map (segment content)).flatten = content.flatten := by
  have hpieces := flatten_pieces content.flatten pSegmentSize (lastSeg content + 1)
  refine hpieces.trans (take_of_length_le ?_)
  rw [length_flatten, lastSeg]
  generalize (content.map length).sum = size
  rw [pSegmentSize]
  split_ifs <;> omega

/-! ### What is stored -/

/-- The store has every segment of the content under its name, with the last segment as the final
block. -/
def Stores (store : Store) (name : List Component) (content : Wire) : Prop :=
  ∀ seg ≤ lastSeg content, ∃ d : Data,
    store.lookup (name ++ [newSegmentComponent seg]) = some d
      ∧ d.name = name ++ [newSegmentComponent seg]
      ∧ d.finalBlockID = some (newSegmentComponent (lastSeg content)).bytes
      ∧ d.content.flatten = segment content seg

/-- Transactions begin, and every packet can be made and put. -/
structure ProduceEnv.Succeeds (env : ProduceEnv) : Prop where
  begins : env.begins = true
  makeData : ∀ name, env.makeData name = true
  put : ∀ name, env.put name = true

variable {env : ProduceEnv}

lemma putData_eq (h : env.Succeeds) {d : Data} {store : Store} :
    putData env d store = (.ok (), store.insert d.name d) := by
  rw [putData, h.makeData, h.put]
  rfl

/-- The segments from `seg` on are put, and nothing else. -/
lemma putSegments_spec (h : env.Succeeds) (name : List Component) (finalBlockID : Bytes)
    (left : ℕ) : ∀ (seg : ℕ) (content : Wire) (store : Store), seg + left ≤ 2 ^ 64 →
      ∃ store', putSegments env name finalBlockID left seg content store = (.ok (), store')
        ∧ (∀ k < left, ∃ d : Data,
            store'.lookup (name ++ [newSegmentComponent (seg + k)]) = some d
              ∧ d.name = name ++ [newSegmentComponent (seg + k)]
              ∧ d.finalBlockID = some finalBlockID
              ∧ d.content.flatten
                = (content.flatten.drop (k * pSegmentSize)).take pSegmentSize)
        ∧ ∀ other, (∀ k < left, other ≠ name ++ [newSegmentComponent (seg + k)]) →
            store'.lookup other = store.lookup other := by
  induction left with
  | zero =>
    intro seg content store _
    exact ⟨store, rfl, fun k hk => absurd hk (not_lt_zero k), fun _ _ => rfl⟩
  | succ left ih =>
    intro seg content store hseg
    obtain ⟨hfill, hleft⟩ := fillSegment_spec (zero_le pSegmentSize)
    rw [Nat.sub_zero] at hfill hleft
    rw [putSegments]
    dsimp only
    rw [putData_eq h]
    dsimp only
    obtain ⟨store', hput, hsegs, hothers⟩ := ih (seg + 1) (fillSegment content 0).2 _ (by omega)
    refine ⟨store', hput, fun k hk => ?_, fun other hother => ?_⟩
    · cases k with
      | zero =>
        -- the later segments have other names
        have hnew : ∀ k < left, name ++ [newSegmentComponent seg]
            ≠ name ++ [newSegmentComponent (seg + 1 + k)] := by
          intro k hk heq
          have hcomp := singleton_inj.mp (append_cancel_left heq)
          have := newSegmentComponent_injOn (show seg < 2 ^ 64 by omega)
            (show seg + 1 + k < 2 ^ 64 by omega) hcomp
          omega
        refine ⟨_, (hothers _ hnew).trans (AList.lookup_insert _), rfl, rfl, ?_⟩
        rw [zero_mul, drop_zero, ← hfill]
      | succ k =>
        obtain ⟨d, hd, hname, hfinal, hcontent⟩ := hsegs k (by omega)
        rw [add_right_comm, add_assoc] at hd hname
        refine ⟨d, hd, hname, hfinal, hcontent.trans ?_⟩
        rw [hleft, drop_drop, succ_mul, add_comm]
    · have hlater : ∀ k < left, other ≠ name ++ [newSegmentComponent (seg + 1 + k)] := by
        intro k hk
        have hne := hother (k + 1) (by omega)
        rwa [← add_assoc, add_right_comm] at hne
      exact (hothers other hlater).trans (AList.lookup_insert_ne (hother 0 (succ_pos left)))

/-- **Every segment is stored**: the metadata does not take the name of one. -/
theorem stores_produce (h : env.Succeeds) {args : ProduceArgs}
    (hversion : isVersion (lastComponent args.name)) (hlast : lastSeg args.content < 2 ^ 64)
    {store : Store} :
    ∃ store', produce env args store = (.ok args.name, store')
      ∧ Stores store' args.name args.content
      ∧ ((range (lastSeg args.content + 1)).map (segment args.content)).flatten
        = args.content.flatten := by
  obtain ⟨store', hput, hsegs, -⟩ := putSegments_spec h args.name
    (newSegmentComponent (lastSeg args.content)).bytes (lastSeg args.content + 1) 0 args.content
    store (by omega)
  have hstores : Stores store' args.name args.content := fun seg hseg => by
    have hseg' := hsegs seg (by omega)
    rwa [zero_add] at hseg'
  rw [produce, hversion, h.begins, if_neg (by decide), if_neg (by decide)]
  dsimp only
  rw [hput]
  dsimp only
  rw [putData_eq h]
  cases hmeta : args.noMetadata with
  | true => exact ⟨store', rfl, hstores, flatten_segments _⟩
  | false =>
    refine ⟨_, rfl, fun seg hseg => ?_, flatten_segments _⟩
    obtain ⟨d, hd, hrest⟩ := hstores seg hseg
    refine ⟨d, ?_, hrest⟩
    rw [AList.lookup_insert_ne, hd]
    intro heq
    have hlen := congrArg length heq
    have hpos : args.name ≠ [] := by
      intro hnil
      rw [hnil] at hversion
      exact absurd hversion (by decide)
    have := length_pos_iff.mpr hpos
    simp only [metadata, length_append, length_dropLast, length_cons, length_nil] at hlen
    omega

theorem stores_produce_two :
    let name := [newVersionComponent 1]
    let content : Wire := [replicate 7999 1, [], [2, 3]]
    lastSeg content = 1 ∧ segment content 1 = [3]
      ∧ ∃ store', produce ⟨true, fun _ => true, fun _ => true, fun _ _ => []⟩
          ⟨name, content, false⟩ ∅ = (.ok name, store') ∧ Stores store' name content
        ∧ ((range (lastSeg content + 1)).map (segment content)).flatten = content.flatten := by
  intro name content
  have hlast : lastSeg content = 1 := by decide +kernel
  exact ⟨hlast, by decide +kernel,
    stores_produce ⟨rfl, fun _ => rfl, fun _ => rfl⟩ rfl (by rw [hlast]; decide)⟩

end Mars.Object
