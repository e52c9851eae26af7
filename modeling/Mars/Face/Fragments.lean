import Mars.Face.LinkService
import Mathlib.Data.Nat.ModEq
import Mathlib.Tactic.Linarith

/-!
The frames of the packets that a link service has sent.

* `Unsplit`, `Split`: the frame of a packet that fits, and the numbered frames of one that does not;
* `splitUp_spec`: the loop of `sendPacket` takes every byte into one fragment, and none is empty;
* `Fragmented`: what becomes of a packet, whatever the options;
* `Numbered`: the frames of a list of packets, whose numbers do not overlap (`sendAll_spec`).
-/

namespace Mars

open Nat List WireView

variable {bytes : Bytes} {frames : List LpPacket} {base : ℕ}

/-- The frame of a packet that is not split. -/
def Unsplit (bytes : Bytes) (frames : List LpPacket) : Prop :=
  ∃ f : LpPacket, frames = [f] ∧ f.sequence = none ∧ f.fragIndex = none ∧ f.fragCount = none
    ∧ f.fragment.flatten = bytes

/-- The frames of a packet that is split: they are numbered from `base` on. -/
structure Split (base : ℕ) (bytes : Bytes) (frames : List LpPacket) : Prop where
  many : 1 < frames.length
  sequence : ∀ j (hj : j < frames.length), frames[j].sequence = some ((base + j) % sequences)
  fragIndex : ∀ j (hj : j < frames.length), frames[j].fragIndex = some j
  fragCount : ∀ f ∈ frames, f.fragCount = some frames.length
  nonempty : ∀ f ∈ frames, f.fragment.flatten ≠ []
  bytes : (frames.map fun f => f.fragment.flatten).flatten = bytes

namespace LinkService

/-- The frames that the loop makes from fragment `i` on. -/
structure Splits (m frameLen : ℕ) (reader : WireView) (nextSequence fragCount left i : ℕ)
    (frames : List LpPacket) : Prop where
  length : frames.length = left
  sequence : ∀ j (hj : j < frames.length),
    frames[j].sequence = some ((nextSequence + 1 + j) % sequences)
  fragIndex : ∀ j (hj : j < frames.length), frames[j].fragIndex = some (i + j)
  fragCount : ∀ f ∈ frames, f.fragCount = some fragCount
  nonempty : ∀ f ∈ frames, f.fragment.flatten ≠ []
  size : ∀ j (hj : j < frames.length),
    frames[j].fragment.flatten.length = min m (frameLen - m * (i + j))
  nextHop : ∀ f ∈ frames, f.nextHopFaceId = none
  bytes : (frames.map fun f => f.fragment.flatten).flatten = reader.rest

/-- What the loop reads for fragment `i`, where `m` bytes go into each but the last. -/
lemma readSize_spec {m frameLen fragCount i : ℕ} (hlow : m * (fragCount - 1) < frameLen)
    (hhigh : frameLen ≤ m * fragCount) (hm : 0 < m) (hi : i < fragCount) :
    ∃ size : ℕ, (if i = fragCount - 1 then (frameLen : ℤ) - m * (fragCount - 1 : ℤ) else m) = size
      ∧ 0 < size ∧ size = min m (frameLen - m * i)
      ∧ frameLen - m * i - size = frameLen - m * (i + 1) := by
  obtain ⟨n, rfl⟩ : ∃ n, fragCount = n + 1 := ⟨fragCount - 1, by omega⟩
  rw [Nat.add_sub_cancel] at hlow ⊢
  split_ifs with hlast
  · subst hlast
    rw [mul_succ] at hhigh ⊢
    refine ⟨frameLen - m * i, ?_, by omega, by omega, by omega⟩
    push_cast [cast_sub hlow.le]
    rw [add_sub_cancel_right]
  · have hmore : m * (i + 1) ≤ m * n := mul_le_mul_left m (by omega)
    rw [mul_succ] at hmore ⊢
    exact ⟨m, rfl, hm, by omega, by omega⟩

/-- **The loop takes every byte into one fragment**, and no fragment is empty or too long. -/
lemma splitUp_spec {m frameLen fragCount : ℕ} (hlow : m * (fragCount - 1) < frameLen)
    (hhigh : frameLen ≤ m * fragCount) (hm : 0 < m) {left : ℕ} :
    ∀ {i : ℕ} {reader : WireView} {nextSequence : ℕ}, i + left = fragCount → reader.Ok →
      reader.rest.length = frameLen - m * i → nextSequence < sequences →
      ∃ frames, splitUp m frameLen fragCount left i reader nextSequence
          = some ((nextSequence + left) % sequences, frames)
        ∧ Splits m frameLen reader nextSequence fragCount left i frames := by
  induction left with
  | zero =>
    intro i reader nextSequence hi hok hrest hseq
    obtain rfl : i = fragCount := hi
    have hnil : reader.rest = [] :=
      List.eq_nil_of_length_eq_zero (hrest.trans (Nat.sub_eq_zero_of_le hhigh))
    refine ⟨[], by rw [splitUp, add_zero, mod_eq_of_lt hseq],
      ⟨rfl, ?_, ?_, ?_, ?_, ?_, ?_, hnil.symm⟩⟩ <;> simp
  | succ left ih =>
    intro i reader nextSequence hi hok hrest hseq
    obtain ⟨size, hsize, hpos, hmin, hleft⟩ := readSize_spec hlow hhigh hm (i := i) (by omega)
    have hle : size ≤ reader.rest.length := hrest ▸ hmin.trans_le (min_le_right _ _)
    obtain ⟨frag, reader', hread, hfrag, hrest', hok'⟩ := readWire_spec hok hle
    have hlen' : reader'.rest.length = frameLen - m * (i + 1) := by
      rw [hrest', length_drop, hrest, hleft]
    have hlength : frag.flatten.length = size := by
      rw [hfrag, length_take, min_eq_left hle]
    obtain ⟨frames, hsplit, hframes⟩ := ih (by omega) hok' hlen'
      (mod_lt (nextSequence + 1) (by norm_num))
    refine ⟨{ sequence := some ((nextSequence + 1) % sequences)
              fragIndex := some i
              fragCount := some fragCount
              fragment := frag } :: frames, ?_, ?_⟩
    · rw [splitUp, hsize, if_neg (Int.natCast_nonneg size).not_gt, Int.toNat_natCast, hread]
      dsimp only
      rw [hsplit, Option.map_some, mod_add_mod, add_right_comm, add_assoc]
    · refine ⟨congrArg (· + 1) hframes.length, fun j hj => ?_, fun j hj => ?_, ?_, ?_,
        fun j hj => ?_, forall_mem_cons.mpr ⟨rfl, hframes.nextHop⟩, ?_⟩
      · cases j with
        | zero => rfl
        | succ j =>
          rw [getElem_cons_succ, hframes.sequence, add_assoc, mod_add_mod, add_comm 1 j]
      · cases j with
        | zero => rfl
        | succ j =>
          rw [getElem_cons_succ, hframes.fragIndex, add_assoc, add_comm 1 j]
      · exact forall_mem_cons.mpr ⟨rfl, hframes.fragCount⟩
      · exact forall_mem_cons.mpr ⟨ne_nil_of_length_pos (hlength ▸ hpos), hframes.nonempty⟩
      · cases j with
        | zero => exact hlength.trans hmin
        | succ j => rw [getElem_cons_succ, hframes.size, add_assoc, add_comm 1 j]
      · rw [map_cons, flatten_cons, hframes.bytes, hfrag, hrest', take_append_drop]

/-- The frames of a packet, and the sequence that follows. -/
inductive Sends (nextSequence : ℕ) (bytes : Bytes) : ℕ → List LpPacket → Prop
  | whole {frames : List LpPacket} : Unsplit bytes frames →
      Sends nextSequence bytes nextSequence frames
  | split {frames : List LpPacket} : Split (nextSequence + 1) bytes frames →
      Sends nextSequence bytes ((nextSequence + frames.length) % sequences) frames

variable {l : LinkService}

/-- The number of fragments, for a packet that does not fit into one. -/
lemma fragCount_spec {m frameLen : ℕ} (hm : 0 < m) (hlong : m < frameLen) :
    1 < (frameLen + m - 1) / m ∧ m * ((frameLen + m - 1) / m - 1) < frameLen
      ∧ frameLen ≤ m * ((frameLen + m - 1) / m) := by
  have hdiv := div_add_mod (frameLen + m - 1) m
  have hrem := mod_lt (frameLen + m - 1) hm
  have hmany : 1 < (frameLen + m - 1) / m := by
    rw [lt_iff_add_one_le, le_div_iff_mul_le hm]
    omega
  generalize (frameLen + m - 1) / m = n at hdiv hmany ⊢
  obtain ⟨n, rfl⟩ : ∃ k, n = k + 1 := ⟨n - 1, by omega⟩
  rw [mul_succ] at hdiv ⊢
  rw [Nat.add_sub_cancel]
  exact ⟨hmany, by omega, by omega⟩

/-- What `sendPacket` makes of a packet, for every MTU that leaves room for a byte. -/
inductive Fragmented (l : LinkService) (wire : Wire) (m : ℕ) : ℕ × List LpPacket → Prop
  | dropped : l.options.isFragmentationEnabled = false → m < wire.flatten.length →
      Fragmented l wire m (l.nextSequence, [])
  | whole : wire.flatten.length ≤ m → Fragmented l wire m (l.nextSequence, [{ fragment := wire }])
  | split {frames : List LpPacket} : l.options.isFragmentationEnabled →
      m < wire.flatten.length → Split (l.nextSequence + 1) wire.flatten frames →
      frames.length = (wire.flatten.length + m - 1) / m →
      (∀ f ∈ frames, f.nextHopFaceId = none) →
      (∀ j (hj : j < frames.length),
        frames[j].fragment.flatten.length = min m (wire.flatten.length - m * j)) →
      Fragmented l wire m ((l.nextSequence + frames.length) % sequences, frames)

lemma fragmented_fragments (hseq : l.nextSequence < sequences) (wire : Wire) {m : ℕ} (hm : 0 < m) :
    ∃ sent, l.fragments wire m = some sent ∧ Fragmented l wire m sent := by
  rw [fragments]
  dsimp only
  split_ifs with hlong hoff hzero hneg
  · exact ⟨_, rfl, .dropped (by simpa using hoff) (by exact_mod_cast hlong)⟩
  · omega
  · -- the count is not negative
    exact absurd (Int.tdiv_nonneg (by omega) (by omega)) (not_le.mpr hneg)
  · have hlong : m < wire.flatten.length := by exact_mod_cast hlong
    have hcount : (((wire.flatten.length : ℤ) + m - 1).tdiv m).toNat
        = (wire.flatten.length + m - 1) / m := by
      rw [Int.tdiv_eq_ediv_of_nonneg (by omega)]
      have hcast : (wire.flatten.length : ℤ) + m - 1 = ((wire.flatten.length + m - 1 : ℕ) : ℤ) := by
        omega
      rw [hcast, ← Int.natCast_ediv, Int.toNat_natCast]
    obtain ⟨hmany, hlow, hhigh⟩ := fragCount_spec hm hlong
    rw [hcount]
    generalize hfragCount : (wire.flatten.length + m - 1) / m = fragCount at hmany hlow hhigh ⊢
    have hrest : (new wire).rest.length = wire.flatten.length - m * 0 := by
      rw [WireView.rest_new, Nat.mul_zero, Nat.sub_zero]
    obtain ⟨frames, hsplit, hframes⟩ := splitUp_spec hlow hhigh hm (zero_add fragCount)
      ok_new hrest hseq
    refine ⟨_, hsplit, ?_⟩
    rw [← hframes.length]
    refine .split (by simpa using hoff) hlong ⟨?_, hframes.sequence, fun j hj => ?_, fun f hf => ?_,
      hframes.nonempty, hframes.bytes⟩ (hframes.length.trans hfragCount.symm) hframes.nextHop
      fun j hj => ?_
    · rwa [hframes.length]
    · rw [hframes.fragIndex, zero_add]
    · rw [hframes.fragCount f hf, hframes.length]
    · rw [hframes.size, zero_add]
  · exact ⟨_, rfl, .whole (by exact_mod_cast not_lt.mp hlong)⟩

/-- **The fragments of a packet**, on a link that fragments. -/
lemma fragments_spec (hfrag : l.options.isFragmentationEnabled) (hseq : l.nextSequence < sequences)
    {wire : Wire} {effectiveMtu : ℤ} (hmtu : 1 ≤ effectiveMtu) :
    ∃ next frames, l.fragments wire effectiveMtu = some (next, frames)
      ∧ Sends l.nextSequence wire.flatten next frames := by
  obtain ⟨m, rfl⟩ := Int.eq_ofNat_of_zero_le (zero_le_one.trans hmtu)
  obtain ⟨⟨next, frames⟩, hsent, hfragmented⟩ := fragmented_fragments hseq wire (m := m) (by omega)
  refine ⟨next, frames, hsent, ?_⟩
  cases hfragmented with
  | dropped hoff => simp [hfrag] at hoff
  | whole => exact .whole ⟨_, rfl, rfl, rfl, rfl, rfl⟩
  | split _ _ hsplit => exact .split hsplit

/-- The fields that are the same for all frames change nothing. -/
lemma Sends.label {next : ℕ} {e : LinkSend} (h : Sends l.nextSequence bytes next frames) :
    Sends l.nextSequence bytes next (frames.map (l.label e)) := by
  cases h with
  | whole h =>
    obtain ⟨f, rfl, hsequence, hindex, hcount, hbytes⟩ := h
    exact .whole ⟨l.label e f, rfl, hsequence, hindex, hcount, hbytes⟩
  | split h =>
    have hlen : (frames.map (l.label e)).length = frames.length := length_map _
    rw [← hlen]
    refine .split ⟨by rw [hlen]; exact h.many, fun j hj => ?_, fun j hj => ?_, fun f hf => ?_,
      fun f hf => ?_, ?_⟩
    · rw [getElem_map]
      exact h.sequence j (hlen ▸ hj)
    · rw [getElem_map]
      exact h.fragIndex j (hlen ▸ hj)
    · obtain ⟨g, hg, rfl⟩ := mem_map.mp hf
      rw [hlen]
      exact h.fragCount g hg
    · obtain ⟨g, hg, rfl⟩ := mem_map.mp hf
      exact h.nonempty g hg
    · rw [map_map]
      exact h.bytes

lemma sendPacket_spec (hfrag : l.options.isFragmentationEnabled)
    (hseq : l.nextSequence < sequences) {e : LinkSend} (hmtu : 1 ≤ e.effectiveMtu l.options) :
    ∃ next frames, l.sendPacket e = some ({ l with nextSequence := next }, frames)
      ∧ Sends l.nextSequence e.bytes next frames := by
  obtain ⟨next, frames, hfragments, hsends⟩ := fragments_spec hfrag hseq hmtu
  exact ⟨next, frames.map (l.label e), by rw [sendPacket, hfragments]; rfl, hsends.label⟩

end LinkService

/-! ### The frames of many packets -/

/-- The frames of packets that were sent one after another, when the next sequence was `start`:
`base` gives the first number of a packet that is split. -/
structure Numbered (start : ℕ) (packets : List Bytes) (sent : List (List LpPacket))
    (base : ℕ → ℕ) : Prop where
  length : sent.length = packets.length
  frames : ∀ i < packets.length, Unsplit (packets.getD i []) (sent.getD i [])
    ∨ Split (base i) (packets.getD i []) (sent.getD i [])
  above : ∀ i, 1 < (sent.getD i []).length → start < base i
  below : ∀ i, 1 < (sent.getD i []).length →
    base i + (sent.getD i []).length ≤ start + sent.flatten.length + 1
  distinct : ∀ i i', 1 < (sent.getD i []).length → 1 < (sent.getD i' []).length →
    base i = base i' → i = i'

namespace Numbered

variable {start next : ℕ} {packets : List Bytes} {sent : List (List LpPacket)} {base : ℕ → ℕ}

lemma nil : Numbered start [] [] base where
  length := rfl
  frames := fun i hi => absurd hi (not_lt_zero i)
  above := fun i hi => absurd hi (by simp)
  below := fun i hi => absurd hi (by simp)
  distinct := fun i _ hi => absurd hi (by simp)

/-- The first numbers, when one more packet comes before. -/
def consBase (start : ℕ) (base : ℕ → ℕ) : ℕ → ℕ
  | 0 => start + 1
  | i + 1 => base i

/-- A packet that is not split uses no numbers; one that is uses the next ones. -/
lemma cons (h : Numbered next packets sent base)
    (hframes : Unsplit bytes frames ∧ next = start
      ∨ Split (start + 1) bytes frames ∧ next = start + frames.length) :
    Numbered start (bytes :: packets) (frames :: sent) (consBase start base) := by
  have hle : start ≤ next ∧ next ≤ start + frames.length := by
    rcases hframes with ⟨-, rfl⟩ | ⟨-, rfl⟩ <;> omega
  have hsplit : 1 < frames.length → next = start + frames.length := by
    rcases hframes with ⟨⟨f, rfl, -⟩, -⟩ | ⟨-, hnext⟩
    · exact fun hmany => absurd hmany (by simp)
    · exact fun _ => hnext
  constructor
  case length => exact congrArg (· + 1) h.length
  case frames =>
    intro i hi
    cases i with
    | zero => exact hframes.imp And.left And.left
    | succ i => exact h.frames i (lt_of_succ_lt_succ hi)
  case above =>
    intro i hi
    cases i with
    | zero => exact lt_succ_self start
    | succ i => exact hle.1.trans_lt (h.above i hi)
  case below =>
    intro i hi
    rw [flatten_cons, length_append]
    cases i with
    | zero =>
      rw [consBase, getD_cons_zero]
      omega
    | succ i =>
      have hbelow := h.below i hi
      rw [consBase, getD_cons_succ]
      omega
  case distinct =>
    -- the first number of the packet is below all later ones
    have hfirst : 1 < frames.length → ∀ i, 1 < (sent.getD i []).length →
        start + 1 ≠ base i := by
      intro hmany i hi heq
      have habove := h.above i hi
      rw [hsplit hmany] at habove
      omega
    intro i i' hi hi' heq
    cases i with
    | zero =>
      cases i' with
      | zero => rfl
      | succ i' => exact absurd heq (hfirst hi i' hi')
    | succ i =>
      cases i' with
      | zero => exact absurd heq.symm (hfirst hi' i hi)
      | succ i' => exact congrArg (· + 1) (h.distinct i i' hi hi' heq)

end Numbered

/-- **The sender**: every list of packets is sent, and as long as the counter does not wrap, the
frames of the packets that are split have numbers of their own. -/
lemma sendAll_spec {es : List LinkSend} : ∀ {l : LinkService}, l.options.isFragmentationEnabled →
    l.nextSequence < sequences → (∀ e ∈ es, 1 ≤ e.effectiveMtu l.options) →
    ∃ l' sent, l.sendAll es = some (l', sent)
      ∧ (l.nextSequence + sent.flatten.length < sequences →
        ∃ base, Numbered l.nextSequence (es.map LinkSend.bytes) sent base) := by
  induction es with
  | nil => exact fun _ _ _ => ⟨_, [], rfl, fun _ => ⟨fun _ => 0, .nil⟩⟩
  | cons e es ih =>
    intro l hfrag hseq hmtu
    obtain ⟨next, frames, hsend, hsends⟩ := LinkService.sendPacket_spec hfrag hseq
      (hmtu e mem_cons_self)
    have hnext : next < sequences := by
      cases hsends with
      | whole _ => exact hseq
      | split _ => exact mod_lt _ (by norm_num)
    obtain ⟨l', sent, hall, hnumbered⟩ := @ih { l with nextSequence := next } hfrag hnext
      fun e he => hmtu e (mem_cons_of_mem _ he)
    refine ⟨l', frames :: sent, ?_, fun hwrap => ?_⟩
    · rw [LinkService.sendAll, hsend, Option.bind_some, hall]
      rfl
    · rw [flatten_cons, length_append] at hwrap
      have hframes : Unsplit e.bytes frames ∧ next = l.nextSequence
          ∨ Split (l.nextSequence + 1) e.bytes frames ∧ next = l.nextSequence + frames.length := by
        cases hsends with
        | whole h => exact .inl ⟨h, rfl⟩
        | split h => exact .inr ⟨h, mod_eq_of_lt (by omega)⟩
      have hle : next ≤ l.nextSequence + frames.length := by
        rcases hframes with ⟨-, rfl⟩ | ⟨-, rfl⟩ <;> omega
      obtain ⟨base, hbase⟩ := hnumbered (lt_of_le_of_lt (Nat.add_le_add_right hle _) (by omega))
      exact ⟨_, hbase.cons hframes⟩

end Mars
