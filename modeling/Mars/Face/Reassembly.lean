import Mars.Face.FrameSize
import Mars.Lib.Arrivals
import Mars.Lib.Steps
import Mathlib.Data.Finset.Card
import Mathlib.Data.List.GetD

/-!
Packets are put together again from their fragments, in whatever order these arrive.

* `Open`: a packet of which some fragments have arrived and some have not; `Delivery`: every frame
  arrives once, and while a packet is open at most fifteen others have their first arrival;
* `Holding`: the ring holds the buffers of the open packets, with the fragments that have arrived;
* `reassemble_spec`: one fragment; `handle_spec`: one frame;
* `fragmentation_round_trips`: every packet is handed up once, when its last frame arrives;
* `reassembly_panics_iff`: what frames with any header can do; a buffer is made for any count.
-/

namespace Mars

open Function Arrivals Prod List RoundRobin LinkService LpPacket Nat

/-! ### Deliveries -/

/-- The frame of packet `i` with index `j`. -/
def frameAt (sent : List (List LpPacket)) (p : ℕ × ℕ) : LpPacket :=
  (sent.getD p.1 []).getD p.2 { fragment := [] }

/-- The packet was split. -/
def WasSplit (sent : List (List LpPacket)) (i : ℕ) : Prop := 1 < (sent.getD i []).length

instance (sent : List (List LpPacket)) : DecidablePred (WasSplit sent) := fun _ =>
  inferInstanceAs (Decidable (_ < _))

/-- Some fragments of a packet have arrived, and some have not. -/
@[mk_iff]
structure Open (sent : List (List LpPacket)) (arrived : List (ℕ × ℕ)) (i : ℕ) : Prop where
  fragmented : WasSplit sent i
  some : ∃ j, (i, j) ∈ arrived
  missing : ∃ j < (sent.getD i []).length, (i, j) ∉ arrived

/-- The other fragmented packets that have had their first arrival since that of packet `i`. -/
def newcomers (sent : List (List LpPacket)) (arrived : List (ℕ × ℕ)) (i : ℕ) : Finset ℕ :=
  Arrivals.newcomers (WasSplit sent) (arrived.map Prod.fst) i

/-- Frames arrive at most once, and while a packet is open at most fifteen others have their first
arrival. -/
structure Arrives (sent : List (List LpPacket)) (order : List (ℕ × ℕ)) : Prop where
  once : order.Nodup
  known : ∀ p ∈ order, p.1 < sent.length ∧ p.2 < (sent.getD p.1 []).length
  window : ∀ arrived, arrived <+: order → ∀ i, Open sent arrived i →
    (newcomers sent arrived i).card ≤ 15

/-- Every frame arrives. -/
structure Delivery (sent : List (List LpPacket)) (order : List (ℕ × ℕ)) : Prop
    extends Arrives sent order where
  all : ∀ i j, i < sent.length → j < (sent.getD i []).length → (i, j) ∈ order

/-! ### The ring -/

variable {sent : List (List LpPacket)} {arrived order : List (ℕ × ℕ)} {base : ℕ → ℕ}
  {packets : List Bytes} {i j i' : ℕ} {l : LinkService}

/-- The buffer of a packet: the fragments that have arrived. -/
def bufferAt (sent : List (List LpPacket)) (arrived : List (ℕ × ℕ)) (i : ℕ) : Wire :=
  (range (sent.getD i []).length).map fun j =>
    if (i, j) ∈ arrived then (frameAt sent (i, j)).fragment.flatten else []

/-- The ring holds the buffers of the open packets. -/
def Holding (sent : List (List LpPacket)) (base : ℕ → ℕ) (arrived : List (ℕ × ℕ))
    (ring : RoundRobin ℕ Wire 16) : Prop :=
  ring.Holds base (Open sent arrived) (fun i => (newcomers sent arrived i).card)
    (bufferAt sent arrived)

lemma frameAt_eq (hj : j < (sent.getD i []).length) : frameAt sent (i, j) = (sent.getD i [])[j] :=
  getD_eq_getElem _ _ hj

lemma length_bufferAt : (bufferAt sent arrived i).length = (sent.getD i []).length := by
  rw [bufferAt, length_map, length_range]

lemma bufferAt_of_not_arrived (h : i ∉ arrived.map fst) :
    bufferAt sent arrived i = replicate (sent.getD i []).length [] := by
  rw [bufferAt, eq_replicate_iff]
  refine ⟨by simp, fun b hb => ?_⟩
  obtain ⟨j, -, rfl⟩ := mem_map.mp hb
  exact if_neg fun hin => h (mem_map_of_mem hin)

lemma bufferAt_concat_of_ne (h : i' ≠ i) :
    bufferAt sent (arrived ++ [(i, j)]) i' = bufferAt sent arrived i' := by
  refine map_congr_left fun j' _ => if_congr ?_ rfl rfl
  simp [h]

/-- A fragment is stored. -/
lemma set_bufferAt :
    (bufferAt sent arrived i).set j (frameAt sent (i, j)).fragment.flatten
      = bufferAt sent (arrived ++ [(i, j)]) i := by
  refine ext_getElem (by simp [length_bufferAt]) fun k hk hk' => ?_
  rw [getElem_set]
  simp only [bufferAt, getElem_map, getElem_range, mem_append, mem_singleton,
    Prod.mk.injEq, true_and]
  split_ifs with h h' h' <;> grind

lemma open_concat_of_ne (h : i' ≠ i) :
    Open sent (arrived ++ [(i, j)]) i' ↔ Open sent arrived i' := by
  have hmem : ∀ k, (i', k) ∈ arrived ++ [(i, j)] ↔ (i', k) ∈ arrived := fun k => by simp [h]
  simp only [open_iff, hmem]

/-- What has to hold of a fragment that arrives. -/
structure Arriving (sent : List (List LpPacket)) (base : ℕ → ℕ) (arrived : List (ℕ × ℕ))
    (i j : ℕ) : Prop where
  fragmented : WasSplit sent i
  index : j < (sent.getD i []).length
  new : (i, j) ∉ arrived
  base_ne : base i ≠ 0
  distinct : ∀ i', WasSplit sent i' → base i' = base i → i' = i
  window : ∀ i', Open sent (arrived ++ [(i, j)]) i' →
    (newcomers sent (arrived ++ [(i, j)]) i').card ≤ 15

lemma Open.mem_map (h : Open sent arrived i) : i ∈ arrived.map fst := by
  obtain ⟨j, hj⟩ := h.some
  exact mem_map_of_mem hj

/-- A packet of which a fragment is still to come is open as soon as one has arrived. -/
lemma Arriving.open_iff (h : Arriving sent base arrived i j) :
    Open sent arrived i ↔ i ∈ arrived.map fst := by
  refine ⟨Open.mem_map, fun hin => ?_⟩
  obtain ⟨⟨i, j'⟩, hp, rfl⟩ := mem_map.mp hin
  exact ⟨h.fragmented, ⟨j', hp⟩, j, h.index, h.new⟩

lemma newcomers_concat (hi' : i' ∈ arrived.map fst) :
    (newcomers sent (arrived ++ [(i, j)]) i').card
      = if WasSplit sent i ∧ i ∉ arrived.map fst then (newcomers sent arrived i').card + 1
        else (newcomers sent arrived i').card := by
  rw [newcomers, List.map_append, List.map_singleton, Arrivals.newcomers_concat hi']
  split_ifs with hnew
  · refine Finset.card_insert_of_notMem fun hmem => hnew.2 ?_
    exact mem_toFinset.mp (newcomers_subset hmem)
  · rfl

/-- **The buffer of a packet is found, or made if this is its first fragment.** -/
lemma findBuffer_spec (h : Holding sent base arrived l.reassembly)
    (harrive : Arriving sent base arrived i j) :
    ∃ ring : RoundRobin ℕ Wire 16,
      l.findBufferWith .total (base i) (sent.getD i []).length
        = pure ({ l with reassembly := ring },
          ring.slotOf (newcomers sent (arrived ++ [(i, j)]) i).card, bufferAt sent arrived i)
      ∧ ring.Holds base (fun i' => Open sent arrived i' ∨ i' = i)
        (fun i' => (newcomers sent (arrived ++ [(i, j)]) i').card) (bufferAt sent arrived) := by
  have hkey : ∀ i', Open sent arrived i' → base i' = base i → i' = i := fun i' hi' =>
    harrive.distinct i' hi'.fragmented
  by_cases hin : i ∈ arrived.map fst
  · -- the packet is open
    have hopen := harrive.open_iff.mpr hin
    have hfind := Holds.find_of_held h hkey harrive.base_ne hopen
    have hage : ∀ i', Open sent arrived i' →
        (newcomers sent (arrived ++ [(i, j)]) i').card = (newcomers sent arrived i').card :=
      fun i' hi' => by rw [newcomers_concat hi'.mem_map, if_neg fun hnew => hnew.2 hin]
    refine ⟨l.reassembly, ?_, Holds.congr h (fun i' => ?_) hage fun _ _ => rfl⟩
    · rw [findBufferWith, bufferOf, hfind, Option.bind_some, h.slot i hopen, hage i hopen]
      rfl
    · refine or_iff_left_of_imp ?_
      rintro rfl
      exact hopen
  · have hopen : ¬ Open sent arrived i := fun ho => hin ho.mem_map
    have hfind := Holds.find_of_not_held h hkey harrive.base_ne hopen
    have hne : ∀ i', Open sent arrived i' → i' ≠ i := by
      rintro i' hi' rfl
      exact hopen hi'
    have hage : ∀ i', Open sent arrived i' →
        (newcomers sent (arrived ++ [(i, j)]) i').card = (newcomers sent arrived i').card + 1 :=
      fun i' hi' => by rw [newcomers_concat hi'.mem_map, if_pos ⟨harrive.fragmented, hin⟩]
    have hzero : (newcomers sent (arrived ++ [(i, j)]) i).card = 0 := by
      rw [newcomers, map_append, map_singleton, newcomers_first hin, Finset.card_empty]
    have hroom : ∀ i', Open sent arrived i' → (newcomers sent arrived i').card + 1 < 16 := by
      intro i' hi'
      have hwindow := harrive.window i' ((open_concat_of_ne (hne i' hi')).mpr hi')
      rw [hage i' hi'] at hwindow
      omega
    have hclaim := Holds.claim h hopen hroom (bufferAt sent arrived i)
    refine ⟨_, ?_, hclaim.congr (fun _ => Iff.rfl) ?_ ?_⟩
    · rw [findBufferWith, bufferOf, hfind, hzero, bufferAt_of_not_arrived hin]
      rw [slotOf, Fin.ofNat_zero, sub_zero]
      rfl
    · rintro i' (hi' | rfl)
      · rw [update_of_ne (hne i' hi'), hage i' hi']
      · rw [update_self, hzero]
    · intro i' _
      rw [update_eq_self]

/-- A buffer is complete when every fragment has arrived. -/
lemma any_isEmpty_bufferAt (h : ∀ f ∈ sent.getD i [], f.fragment.flatten ≠ []) :
    (bufferAt sent arrived i).any List.isEmpty = true
      ↔ ∃ k < (sent.getD i []).length, (i, k) ∉ arrived := by
  simp only [bufferAt, List.any_map, List.any_eq_true, List.mem_range, comp_apply, List.isEmpty_iff]
  refine exists_congr fun k => and_congr_right fun hk => ?_
  have hfrag : (frameAt sent (i, k)).fragment.flatten ≠ [] := by
    rw [frameAt_eq hk]
    exact h _ (List.getElem_mem hk)
  split_ifs with hin
  · exact ⟨fun hnil => absurd hnil hfrag, fun hout => absurd hin hout⟩
  · exact ⟨fun _ => hin, fun _ => rfl⟩

/-- **One fragment**: the packet is handed out if this was the last fragment missing. -/
lemma reassemble_spec (h : Holding sent base arrived l.reassembly)
    (harrive : Arriving sent base arrived i j)
    (hnonempty : ∀ f ∈ sent.getD i [], f.fragment.flatten ≠ []) {frame : LpPacket}
    (hframe : frame.fragment.flatten = (frameAt sent (i, j)).fragment.flatten) :
    ∃ ring, Holding sent base (arrived ++ [(i, j)]) ring
      ∧ l.reassembleWith frame .total (base i) j (sent.getD i []).length
        = pure ({ l with reassembly := ring },
          if (bufferAt sent (arrived ++ [(i, j)]) i).any isEmpty then none
          else some (bufferAt sent (arrived ++ [(i, j)]) i)) := by
  obtain ⟨ring, hfind, hring⟩ := findBuffer_spec h harrive
  have hkey : ∀ i', Open sent arrived i' ∨ i' = i → base i' = base i → i' = i := by
    rintro i' (hi' | rfl) heq
    · exact harrive.distinct i' hi'.fragmented heq
    · rfl
  have hself : Open sent (arrived ++ [(i, j)]) i
      ↔ ∃ k < (sent.getD i []).length, (i, k) ∉ arrived ++ [(i, j)] :=
    ⟨Open.missing, fun hmissing => ⟨harrive.fragmented, ⟨j, by simp⟩, hmissing⟩⟩
  rw [← any_isEmpty_bufferAt hnonempty] at hself
  rw [reassembleWith, hfind, pure_bind]
  dsimp only
  rw [if_neg (by rw [length_bufferAt]; exact not_not.mpr rfl),
    if_neg (by rw [length_bufferAt]; exact harrive.index.not_ge), hframe,
    Slices.total_write, pure_bind, set_bufferAt]
  split_ifs with hany
  · refine ⟨_, ?_, rfl⟩
    refine Holds.congr
      (hring.store hkey (.inr rfl))
      (fun i' => ?_) (fun _ _ => rfl) (fun i' _ => ?_)
    · rcases eq_or_ne i' i with rfl | hne
      · exact iff_of_true (hself.mpr hany) (.inr rfl)
      · rw [open_concat_of_ne hne, or_iff_left hne]
    · rcases eq_or_ne i' i with rfl | hne
      · rw [update_self]
      · rw [update_of_ne hne, bufferAt_concat_of_ne hne]
  · refine ⟨_, ?_, rfl⟩
    refine Holds.congr (hring.release hkey (.inr rfl)) (fun i' => ?_)
      (fun _ _ => rfl) (fun i' hi' => bufferAt_concat_of_ne hi'.2)
    rcases eq_or_ne i' i with rfl | hne
    · exact iff_of_false (fun ho => hany (hself.mp ho)) fun ho => ho.2 rfl
    · rw [open_concat_of_ne hne, and_iff_left hne, or_iff_left hne]

/-! ### One frame -/

variable {Frame : Type*}

lemma joined_flatten {f : LpPacket} : f.joined.fragment.flatten = f.fragment.flatten := by
  rw [joined]
  dsimp only
  split_ifs with hnil
  · rw [hnil, flatten_nil]
  · rw [flatten_singleton]

/-- A complete buffer holds the bytes of the packet. -/
lemma flatten_bufferAt {bytes : Bytes} (h : Split (base i) bytes (sent.getD i []))
    (hall : ∀ k < (sent.getD i []).length, (i, k) ∈ arrived) :
    (bufferAt sent arrived i).flatten = bytes := by
  rw [← h.bytes]
  congr 1
  refine ext_getElem (by rw [length_bufferAt, length_map]) fun k hk hk' => ?_
  rw [length_bufferAt] at hk
  simp only [bufferAt, getElem_map, getElem_range, if_pos (hall k hk), frameAt_eq hk]

/-- What is handed up when a frame arrives: nothing while frames of its packet are missing, and then
the packet, unless it is empty. -/
def HandsUp (sent : List (List LpPacket)) (arrived : List (ℕ × ℕ)) (i : ℕ) (bytes : Bytes)
    (out : List LinkPkt) : Prop :=
  (∃ k < (sent.getD i []).length, (i, k) ∉ arrived) ∧ out = []
    ∨ (∀ k < (sent.getD i []).length, (i, k) ∈ arrived)
      ∧ out.map (fun pkt => pkt.raw.flatten) = [bytes].filter (· ≠ [])

/-- The frame of a packet that was not split. -/
lemma handleLp_whole {f : LpPacket} {bytes : Bytes} (hsequence : f.sequence = none)
    (hindex : f.fragIndex = none) (hcount : f.fragCount = none)
    (hbytes : f.fragment.flatten = bytes) :
    (l.handleLp f.joined).1 = l
      ∧ (l.handleLp f.joined).2.toList.map (fun pkt => pkt.raw.flatten)
        = [bytes].filter (· ≠ []) := by
  rcases eq_or_ne bytes [] with rfl | hne
  · have hnil : f.joined.fragment = [] := if_pos hbytes
    rw [handleLp, handleLpWith, if_pos hnil]
    exact ⟨rfl, rfl⟩
  · have hone : f.joined.fragment = [bytes] := (if_neg (hbytes ▸ hne)).trans (by rw [hbytes])
    have hlp : l.handleLp f.joined = (l, some (l.deliver f.joined f.joined.fragment)) := by
      rw [handleLp, handleLpWith, if_neg (by rw [hone]; exact cons_ne_nil _ _),
        if_neg (by simp [joined, hsequence]),
        if_neg (by simp [joined, hindex, hcount])]
      rfl
    rw [hlp, hone]
    simp [deliver, hne]

/-- The frame of a fragment goes to the reassembly. -/
lemma handleLp_split {f : LpPacket} {base n : ℕ} (henabled : l.options.isReassemblyEnabled)
    (hbase : base + j < sequences) (hsequence : f.sequence = some ((base + j) % sequences))
    (hindex : f.fragIndex = some j) (hcount : f.fragCount = some n) (hn : 1 < n)
    (hne : f.fragment.flatten ≠ []) :
    l.handleLpWith f.joined .total = (l.reassembleWith f.joined .total base j n >>= fun r =>
      pure (r.1, r.2.map (r.1.deliver f.joined))) := by
  have hone : f.joined.fragment ≠ [] := by
    rw [joined]
    dsimp only
    rw [if_neg hne]
    exact cons_ne_nil _ _
  have hsequence' : f.joined.sequence = some (base + j) := by
    rw [← mod_eq_of_lt hbase]
    exact hsequence
  have hindex' : f.joined.fragIndex = some j := hindex
  have hcount' : f.joined.fragCount = some n := hcount
  have hsub : (base + j + sequences - j % sequences) % sequences = base := by
    rw [mod_eq_of_lt ((le_add_left j base).trans_lt hbase)]
    have hswap : base + j + sequences - j = base + sequences := by omega
    rw [hswap, add_mod_right, mod_eq_of_lt ((le_add_right base j).trans_lt hbase)]
  rw [handleLpWith, if_neg hone, if_pos ⟨henabled, by rw [hsequence']; rfl⟩, hsequence',
    hindex', hcount']
  dsimp only [Option.getD_some]
  rw [hsub, if_neg (by omega)]

/-- The ring has nothing to do with a packet that was not split. -/
lemma holding_concat_of_not_split {ring : RoundRobin ℕ Wire 16}
    (h : Holding sent base arrived ring) (hfrag : ¬ WasSplit sent i) :
    Holding sent base (arrived ++ [(i, j)]) ring := by
  have hne : ∀ i', WasSplit sent i' → i' ≠ i := by
    rintro i' hi' rfl
    exact hfrag hi'
  refine Holds.congr h (fun i' => ?_) (fun i' hi' => ?_) fun i' hi' => ?_
  · exact ⟨fun ho => (open_concat_of_ne (hne i' ho.fragmented)).mp ho,
      fun ho => (open_concat_of_ne (hne i' ho.fragmented)).mpr ho⟩
  · rw [newcomers_concat hi'.mem_map, if_neg fun hnew => hfrag hnew.1]
  · exact bufferAt_concat_of_ne (hne i' hi'.fragmented)

/-- **One frame of one of the packets.** -/
lemma handle_spec {codec : LpCodec Frame} (hnum : Numbered 0 packets sent base)
    (hwrap : sent.flatten.length < sequences) (henabled : l.options.isReassemblyEnabled)
    (h : Holding sent base arrived l.reassembly) (harrives : Arrives sent (arrived ++ [(i, j)])) :
    ∃ ring out, l.handleIncomingFrame codec (codec.encode (frameAt sent (i, j)))
        = ({ l with reassembly := ring }, out)
      ∧ Holding sent base (arrived ++ [(i, j)]) ring
      ∧ HandsUp sent (arrived ++ [(i, j)]) i (packets.getD i []) out := by
  obtain ⟨hi, hj⟩ := harrives.known (i, j) (by simp)
  rw [handleIncomingFrame, codec.parse_encode]
  dsimp only
  rcases hnum.frames i (hnum.length ▸ hi) with hwhole | hsplit
  · obtain ⟨f, hf, hsequence, hindex, hcount, hbytes⟩ := hwhole
    have hone : (sent.getD i []).length = 1 := by rw [hf]; rfl
    obtain rfl : j = 0 := by
      have hj : j < (sent.getD i []).length := hj
      omega
    have hframe : frameAt sent (i, 0) = f := by rw [frameAt, hf]; rfl
    obtain ⟨hstate, hout⟩ := handleLp_whole (l := l) hsequence hindex hcount hbytes
    rw [hframe, hstate]
    refine ⟨l.reassembly, _, rfl, holding_concat_of_not_split h ?_, .inr ⟨fun k hk => ?_, hout⟩⟩
    · rw [WasSplit, hone]
      exact lt_irrefl 1
    · obtain rfl : k = 0 := by omega
      simp
  · have hframe : frameAt sent (i, j) = (sent.getD i [])[j] := frameAt_eq hj
    have hmem : frameAt sent (i, j) ∈ sent.getD i [] := hframe ▸ getElem_mem hj
    have hbelow := hnum.below i hsplit.many
    have harrive : Arriving sent base arrived i j :=
      { fragmented := hsplit.many
        index := hj
        new := fun hin => (nodup_append.mp harrives.once).2.2 _ hin _ (by simp) rfl
        base_ne := (hnum.above i hsplit.many).ne'
        distinct := fun i' hi' heq => hnum.distinct i' i hi' hsplit.many heq
        window := harrives.window _ prefix_rfl }
    obtain ⟨ring, hring, hreassemble⟩ := reassemble_spec h harrive hsplit.nonempty
      joined_flatten
    have hlp := handleLp_split (l := l) henabled (by dsimp only at hj; omega)
      (hframe ▸ hsplit.sequence j hj) (hframe ▸ hsplit.fragIndex j hj)
      (hsplit.fragCount _ hmem) hsplit.many (hsplit.nonempty _ hmem)
    rw [hreassemble, pure_bind] at hlp
    rw [handleLp, hlp, Id.run_pure]
    refine ⟨ring, _, rfl, hring, ?_⟩
    split_ifs with hany
    · exact .inl ⟨(any_isEmpty_bufferAt hsplit.nonempty).mp hany, rfl⟩
    · have hall : ∀ k < (sent.getD i []).length, (i, k) ∈ arrived ++ [(i, j)] := fun k hk => by
        by_contra hout
        exact hany ((any_isEmpty_bufferAt hsplit.nonempty).mpr ⟨k, hk, hout⟩)
      have hflat := flatten_bufferAt hsplit hall
      -- a packet that was split is not empty
      have hbytes : packets.getD i [] ≠ [] := fun hnil => by
        rw [← hsplit.bytes, flatten_eq_nil_iff] at hnil
        exact hsplit.nonempty _ hmem (hnil _ (mem_map_of_mem hmem))
      refine .inr ⟨hall, ?_⟩
      rw [filter_cons_of_pos (by simpa using hbytes), ← hflat]
      rfl

/-! ### A whole delivery -/

lemma Arrives.of_append {ys : List (ℕ × ℕ)} (h : Arrives sent (arrived ++ ys)) :
    Arrives sent arrived where
  once := (nodup_append.mp h.once).1
  known := fun p hp => h.known p (mem_append_left ys hp)
  window := fun xs hxs => h.window xs (hxs.trans (prefix_append arrived ys))

/-- The frames that arrive from some point on. -/
lemma trace_spec {codec : LpCodec Frame} (hnum : Numbered 0 packets sent base)
    (hwrap : sent.flatten.length < sequences) {ys : List (ℕ × ℕ)} :
    ∀ {arrived : List (ℕ × ℕ)} {l : LinkService}, l.options.isReassemblyEnabled →
      Holding sent base arrived l.reassembly → Delivery sent (arrived ++ ys) →
      (Steps.trace (handleIncomingFrame codec) l
          (ys.map fun p => codec.encode (frameAt sent p))).map (fun pkt => pkt.raw.flatten)
        = ((ys.map fst).dedup.map fun i => packets.getD i []).filter (· ≠ []) := by
  induction ys with
  | nil => exact fun _ _ _ => rfl
  | cons p ys ih =>
    intro arrived l henabled h hdelivery
    obtain ⟨i, j⟩ := p
    have hsplit : arrived ++ (i, j) :: ys = (arrived ++ [(i, j)]) ++ ys := by simp
    rw [hsplit] at hdelivery
    obtain ⟨ring, out, hhandle, hring, hout⟩ := handle_spec hnum hwrap henabled h
      hdelivery.toArrives.of_append
    have hrest := ih (l := { l with reassembly := ring }) henabled hring hdelivery
    rw [map_cons, Steps.trace, hhandle, map_append, hrest, map_cons]
    -- frames of the packet are missing if and only if one is still to come
    rcases hout with ⟨⟨k, hk, hmissing⟩, rfl⟩ | ⟨hall, hbytes⟩
    · have hin : i ∈ ys.map fst := by
        have hk := hdelivery.all i k (hdelivery.known (i, j) (by simp)).1 hk
        exact mem_map_of_mem ((mem_append.mp hk).resolve_left hmissing)
      rw [dedup_cons_of_mem hin]
      rfl
    · have hout : i ∉ ys.map fst := by
        intro hin
        obtain ⟨⟨i, k⟩, hp, rfl⟩ := mem_map.mp hin
        have hk := (hdelivery.known (i, k) (mem_append_right _ hp)).2
        exact (nodup_append.mp hdelivery.once).2.2 _ (hall k hk) _ hp rfl
      rw [dedup_cons_of_notMem hout, map_cons, hbytes, ← filter_append]
      rfl

/-- **Fragmentation round-trips.**  Every list of packets is sent, whatever their segments, if the
MTU leaves room for a byte.  In whatever order their frames arrive, each once and with at most
fifteen other packets coming while one is open, a packet is handed up when its last frame arrives,
with the bytes it had, and nothing else is handed up.  A wire without bytes is no packet: its frame
is that of an idle link. -/
theorem fragmentation_round_trips {Frame : Type*} (codec : LpCodec Frame)
    (options receiver : LinkOptions) (hfrag : options.isFragmentationEnabled)
    (hreassembly : receiver.isReassemblyEnabled) (es : List LinkSend)
    (hmtu : ∀ e ∈ es, 1 ≤ e.effectiveMtu options) :
    ∃ l sent, (make options).sendAll es = some (l, sent)
      ∧ (sent.flatten.length < sequences → ∀ order, Delivery sent order →
        (Steps.trace (handleIncomingFrame codec) (.make receiver)
            (order.map fun p => codec.encode (frameAt sent p))).map (fun pkt => pkt.raw.flatten)
          = ((order.map fst).dedup.map fun i => (es.map LinkSend.bytes).getD i []).filter
            (· ≠ [])
        ∧ ((order.map fst).dedup).Perm (range es.length)) := by
  obtain ⟨l, sent, hsend, hnumbered⟩ := sendAll_spec (l := .make options) hfrag
    (Nat.two_pow_pos 64) hmtu
  refine ⟨l, sent, hsend, fun hwrap order hdelivery => ?_⟩
  obtain ⟨base, hnum⟩ := hnumbered (by rwa [make, zero_add])
  have hlength : sent.length = es.length := by rw [hnum.length, length_map]
  constructor
  · have hempty : Holding sent base [] (make receiver).reassembly :=
      holds_new fun i ho => not_mem_nil ho.mem_map
    exact trace_spec hnum hwrap hreassembly hempty hdelivery
  · refine (perm_ext_iff_of_nodup (nodup_dedup _) nodup_range).mpr fun i => ?_
    rw [mem_dedup, mem_range, ← hlength]
    constructor
    · intro hin
      obtain ⟨p, hp, rfl⟩ := mem_map.mp hin
      exact (hdelivery.known p hp).1
    · intro hi
      have hpos : 0 < (sent.getD i []).length := by
        rcases hnum.frames i (hnum.length ▸ hi) with ⟨f, hf, -⟩ | hsplit
        · rw [hf]
          exact one_pos
        · exact zero_lt_of_lt hsplit.many
      exact mem_map_of_mem (hdelivery.all i 0 hi hpos)

/-- Fifteen packets may arrive in any order. -/
lemma window_of_few (h : (order.map fst).toFinset.card ≤ 15) (hstart : arrived <+: order) :
    (newcomers sent arrived i).card ≤ 15 := by
  refine (Finset.card_le_card (Arrivals.newcomers_subset.trans ?_)).trans h
  intro b hb
  exact mem_toFinset.mpr ((hstart.sublist.map fst).subset (mem_toFinset.mp hb))

/-- Frames that are handed over as they are. -/
def plainCodec : LpCodec LpPacket := ⟨joined, fun frame => some (.lp frame), fun _ => rfl⟩

/-- Two packets of three bytes, with room for two in a frame. -/
def twoPackets : List LinkSend := [⟨{ raw := [[1, 2], [], [3]] }, 28, false⟩,
  ⟨{ raw := [[4], [5, 6]] }, 28, false⟩]

/-- An order in which their frames may arrive. -/
def mixedOrder : List (ℕ × ℕ) := [(1, 1), (0, 0), (1, 0), (0, 1)]

theorem fragmentation_round_trips_mixed :
    ∃ l sent, (make .make).sendAll twoPackets = some (l, sent)
      ∧ Delivery sent mixedOrder
      ∧ (Steps.trace (handleIncomingFrame plainCodec) (.make .make)
          (mixedOrder.map fun p => plainCodec.encode (frameAt sent p))).map
            (fun pkt => pkt.raw.flatten) = [[4, 5, 6], [1, 2, 3]] := by
  obtain ⟨l, sent, hsend, hround⟩ := fragmentation_round_trips plainCodec .make .make rfl rfl
    twoPackets (by decide)
  have hlengths : sent.map List.length = [2, 2] := by
    have hlengths : ((make .make).sendAll twoPackets).map
        (fun result => result.2.map List.length) = some [2, 2] := by decide
    rw [hsend] at hlengths
    exact Option.some.inj hlengths
  obtain ⟨a, b, rfl, ha, hb⟩ : ∃ a b, sent = [a, b] ∧ a.length = 2 ∧ b.length = 2 := by
    match sent, hlengths with
    | [a, b], h => exact ⟨a, b, rfl, by simpa using h⟩
  have hdelivery : Delivery [a, b] mixedOrder := by
    refine ⟨⟨by decide, fun p hp => ?_, fun arrived hstart i _ => ?_⟩, fun i j hi hj => ?_⟩
    · simp only [mixedOrder, mem_cons, not_mem_nil, or_false] at hp
      rcases hp with rfl | rfl | rfl | rfl <;> simp [ha, hb]
    · exact window_of_few (by decide) hstart
    · have hj : j < 2 := by
        match i, hi with
        | 0, _ => exact ha ▸ hj
        | 1, _ => exact hb ▸ hj
      match i, hi, j, hj with
      | 0, _, 0, _ => decide
      | 0, _, 1, _ => decide
      | 1, _, 0, _ => decide
      | 1, _, 1, _ => decide
  refine ⟨l, _, hsend, hdelivery, ?_⟩
  rw [(hround (by simp [ha, hb, sequences]) mixedOrder hdelivery).1]
  decide

/-! ### Any header -/

/-- The buffers of the ring that are in use. -/
def LinkService.buffersKept (l : LinkService) : Finset (Fin 16) :=
  Finset.univ.filter fun k => (l.reassembly.slots k).2.isSome

/-- **No write panics**, as the index of a fragment is checked before it is used: `reassemble` fails
only where it makes a buffer of too many slots. -/
lemma isSome_reassembleWith {limit baseSequence fragIndex fragCount : ℕ} {frame : LpPacket} :
    (l.reassembleWith frame (.checked limit) baseSequence fragIndex fragCount).isSome
      ↔ (l.bufferOf baseSequence = none → fragCount ≤ limit) := by
  have hrest : (l.findBufferWith (.checked limit) baseSequence fragCount).isSome →
      (l.reassembleWith frame (.checked limit) baseSequence fragIndex fragCount).isSome := by
    intro h
    obtain ⟨⟨l', bufIndex, buffer⟩, hfound⟩ := Option.isSome_iff_exists.mp h
    rw [reassembleWith, hfound, Option.bind_eq_bind, Option.bind_some]
    dsimp only [Slices.checked]
    split_ifs with hcount hindex hwrite
    · rfl
    · rfl
    · rw [Option.bind_eq_bind, Option.bind_some]
      split_ifs <;> rfl
    · exact absurd (not_le.mp hindex) hwrite
  cases hbuffer : l.bufferOf baseSequence with
  | some found => simpa using hrest (by simp [findBufferWith, hbuffer])
  | none =>
    rcases le_or_gt fragCount limit with hle | hgt
    · exact iff_of_true (hrest (by simp [findBufferWith, hbuffer, Slices.checked, hle]))
        fun _ => hle
    · simp [reassembleWith, findBufferWith, hbuffer, Slices.checked, hgt.not_ge]

/-- **What the header of a fragment can do.**  After any frames, a frame is handled without a panic
and with at most `MaxNDNPacketSize` new slots exactly if that is what its `FragCount` asks for, or
the fragment is not the first of its sequence.  At most sixteen buffers are kept. -/
theorem reassembly_panics_iff (options : LinkOptions) (frames : List LpPacket) (frame : LpPacket) :
    let l := Steps.run (fun l frame => (handleLp l frame).1) (make options) frames
    ((l.handleLpWith frame (.checked maxNDNPacketSize)).isSome
        ↔ (frame.fragment ≠ [] → l.options.isReassemblyEnabled → ∀ s ∈ frame.sequence,
          l.bufferOf ((s + sequences - frame.fragIndex.getD 0 % sequences) % sequences) = none →
            frame.fragCount.getD 1 ≤ maxNDNPacketSize))
      ∧ l.buffersKept.card ≤ 16 := by
  intro l
  refine ⟨?_, Finset.card_filter_le _ _⟩
  rw [handleLpWith]
  dsimp only
  split_ifs with hnil hgoes hone
  · exact iff_of_true rfl fun h => absurd hnil h
  · refine iff_of_true rfl fun _ _ _ _ _ => ?_
    rw [hone.2]
    decide
  · obtain ⟨henabled, hsequence⟩ := hgoes
    obtain ⟨s, hs⟩ := Option.isSome_iff_exists.mp hsequence
    have hbind : ∀ r : Option (LinkService × Option Wire), (r >>= fun r =>
        (pure (r.1, r.2.map (r.1.deliver frame)) : Option _)).isSome = r.isSome := by
      rintro (_ | r) <;> rfl
    rw [hbind, isSome_reassembleWith]
    simp [hnil, henabled, hs]
  all_goals
    refine iff_of_true rfl fun _ henabled s hs => absurd ⟨henabled, ?_⟩ hgoes
    rw [hs]
    rfl

/-- A fragment of one byte with the sequence `1`. -/
def countedFrame (fragCount : ℕ) : LpPacket :=
  { sequence := some 1, fragIndex := some 0, fragCount := some fragCount, fragment := [[7]] }

/-- One frame panics whatever slices there can be, and one makes `2 ^ 40` slots. -/
theorem huge_count_panics :
    (∀ limit < 2 ^ 64 - 1,
        (make .make).handleLpWith (countedFrame (2 ^ 64 - 1)) (.checked limit) = none)
      ∧ (make .make).handleLpWith (countedFrame (2 ^ 40)) (.checked (2 ^ 40 - 1)) = none := by
  have hnone : ∀ n limit, limit < n → n ≠ 1 →
      (make .make).handleLpWith (countedFrame n) (.checked limit) = none := by
    intro n limit hlt hne
    have hnew : (make .make).bufferOf 1 = none := rfl
    have henabled : (make .make).options.isReassemblyEnabled = true := rfl
    simp [handleLpWith, countedFrame, reassembleWith, findBufferWith, hnew, henabled,
      Slices.checked, hlt.not_ge, hne]
  exact ⟨fun limit hlt => hnone _ limit hlt (by decide), hnone _ _ (by decide) (by decide)⟩

end Mars
