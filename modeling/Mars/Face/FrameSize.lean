import Mars.Encoding.NameCodec
import Mars.Face.Fragments

/-!
The size of the frames of a packet.

* `LpPacket.length`, `LpPacket.frameLength`: the length of a frame, as its encoder computes it;
* `headerLength_le`: the header of a frame that is no NACK has at most the size that is taken
  from the MTU for it;
* `frames_fit`: so these frames fit into the MTU.  Nothing is taken from it for the field of a NACK;
* `commandMTU`: the MTU that management sets; `sends_under_commands`: when no packet is fatal.
-/

namespace Mars

open List

/-- `MaxNDNPacketSize`. -/
def maxNDNPacketSize : ℕ := 8800

/-- The length of an optional natural number, with a type of `typeLength` bytes. -/
def naturalLength (typeLength : ℕ) (value : Option ℕ) : ℕ :=
  value.elim 0 fun optval => typeLength + (1 + natLength optval)

/-- The length of the field of a NACK. -/
def nackLength (nack : Option ℕ) : ℕ :=
  nack.elim 0 fun reason =>
    let reasonLength := 3 + (1 + natLength reason)
    3 + tlNumLength reasonLength + reasonLength

namespace LpPacket

/-- The length of what numbers a fragment. -/
def numberingLength (value : LpPacket) : ℕ :=
  (if value.sequence.isSome then 1 + (1 + 8) else 0)
    + naturalLength 1 value.fragIndex + naturalLength 1 value.fragCount

/-- The length of the token. -/
def tokenLength (value : LpPacket) : ℕ :=
  value.pitToken.elim 0 fun token => 1 + tlNumLength token.1.length + token.1.length

/-- `FwLpPacketEncoder.Init`; `sendPacket` sets the fragment of every packet. -/
def length (value : LpPacket) : ℕ :=
  value.numberingLength + value.tokenLength
    + nackLength value.nack
    + naturalLength 3 value.incomingFaceId + naturalLength 3 value.nextHopFaceId
    + naturalLength 3 value.congestionMark
    + (1 + tlNumLength value.fragment.flatten.length + value.fragment.flatten.length)

end LpPacket

variable {n typeLength : ℕ} {value : Option ℕ} {l : LinkService} {e : LinkSend} {f : LpPacket}

namespace LinkSend

end LinkSend

open LinkSend

/-- The MTU that `create` and `update` set for the one that a command asks for. -/
def commandMTU (mtu : ℕ) : ℤ := min (toInt mtu) maxNDNPacketSize

/-- The packet is sent after a command that asked for `mtu`. -/
def LinkSend.under (mtu : ℕ) (e : LinkSend) : LinkSend := { e with mtu := commandMTU mtu }

/-- What `sendPacket` can do with a packet of `frameLen` bytes.  Below zero the number of fragments
is negative only for packets of more than twice as many bytes. -/
def LinkOptions.Sendable (options : LinkOptions) (frameLen : ℕ) (m : ℤ) : Prop :=
  options.isFragmentationEnabled = false ∨ frameLen ≤ m ∨ 0 < m
    ∨ m < 0 ∧ frameLen ≤ -2 * m ∧ ¬(frameLen = 0 ∧ m = -1)

/-- The number of fragments for an effective MTU below zero. -/
lemma tdiv_of_neg (k n : ℕ) :
    ((n : ℤ) + -k - 1).tdiv (-k) = if n ≤ k then (((k + 1 - n) / k : ℕ) : ℤ)
      else -(((n - k - 1) / k : ℕ) : ℤ) := by
  split_ifs with h
  · rw [show (n : ℤ) + -k - 1 = -((k + 1 - n : ℕ) : ℤ) by omega, Int.neg_tdiv_neg]
    rfl
  · rw [show (n : ℤ) + -k - 1 = ((n - k - 1 : ℕ) : ℤ) by omega, Int.tdiv_neg]
    rfl

/-- One fragment is read, and none at all is no error either. -/
lemma LinkService.splitUp_of_le_one (wire : Wire) (m : ℤ) {count next : ℕ} (hcount : count ≤ 1)
    (hseq : next < sequences) :
    ∃ next' frames, splitUp m wire.flatten.length count count 0 (.new wire) next
      = some (next', frames) ∧ next' < sequences := by
  obtain rfl | rfl : count = 0 ∨ count = 1 := by omega
  · exact ⟨_, _, rfl, hseq⟩
  · obtain ⟨frag, reader, hread, -⟩ :=
      WireView.readWire_spec (r := .new wire) WireView.ok_new le_rfl
    rw [WireView.rest_new] at hread
    generalize wire.flatten.length = n at *
    simp [splitUp, hread, (Int.natCast_nonneg n).not_gt, Nat.mod_lt]

/-- **A packet is sent or dropped** exactly if it is sendable. -/
lemma LinkService.fragments_cases (hseq : l.nextSequence < sequences) (wire : Wire) (m : ℤ) :
    (l.options.Sendable wire.flatten.length m
        ∧ ∃ next frames, l.fragments wire m = some (next, frames) ∧ next < sequences)
      ∨ ¬ l.options.Sendable wire.flatten.length m ∧ l.fragments wire m = none := by
  by_cases hshort : (wire.flatten.length : ℤ) ≤ m
  · rw [fragments, if_neg hshort.not_gt]
    exact .inl ⟨.inr (.inl hshort), _, _, rfl, hseq⟩
  by_cases hoff : l.options.isFragmentationEnabled = false
  · rw [fragments, if_pos (not_le.mp hshort), if_pos (by simp [hoff])]
    exact .inl ⟨.inl hoff, _, _, rfl, hseq⟩
  rcases lt_trichotomy m 0 with hneg | rfl | hpos
  · obtain ⟨k, hk, rfl⟩ : ∃ k : ℕ, 0 < k ∧ m = -k := ⟨m.natAbs, by omega, by omega⟩
    have hsendable : l.options.Sendable wire.flatten.length (-k)
        ↔ wire.flatten.length ≤ 2 * k ∧ ¬(wire.flatten.length = 0 ∧ k = 1) := by
      rw [LinkOptions.Sendable, or_iff_right hoff]
      omega
    have hsplit : ∀ count ≤ 1, _ := fun count hcount =>
      splitUp_of_le_one wire (-k) hcount hseq
    rw [hsendable, fragments]
    dsimp only
    rw [if_pos (not_le.mp hshort), if_neg (by simpa using hoff), if_neg (by omega), tdiv_of_neg]
    clear hsendable hshort
    generalize wire.flatten.length = n at *
    rcases Nat.lt_or_ge (2 * k) n with hbig | hle
    · have hcount : 1 ≤ (n - k - 1) / k := (Nat.one_le_div_iff hk).mpr (by omega)
      refine .inr ⟨by omega, if_pos ?_⟩
      rw [if_neg (by omega)]
      omega
    · by_cases hone : n = 0 ∧ k = 1
      · obtain ⟨rfl, rfl⟩ := hone
        exact .inr ⟨by simp, by simp [splitUp]⟩
      · obtain ⟨count, hcount, heq⟩ : ∃ count ≤ 1, (if n ≤ k then (((k + 1 - n) / k : ℕ) : ℤ)
            else -(((n - k - 1) / k : ℕ) : ℤ)) = (count : ℕ) := by
          split_ifs with hnk
          · refine ⟨_, Nat.lt_succ_iff.mp ((Nat.div_lt_iff_lt_mul hk).mpr ?_), rfl⟩
            omega
          · exact ⟨0, zero_le_one, by rw [Nat.div_eq_of_lt (by omega)]; rfl⟩
        rw [heq, if_neg (Int.natCast_nonneg count).not_gt, Int.toNat_natCast]
        exact .inl ⟨⟨hle, hone⟩, hsplit count hcount⟩
  · rw [fragments, if_pos (not_le.mp hshort), if_neg (by simpa using hoff), if_pos rfl]
    refine .inr ⟨?_, rfl⟩
    rw [LinkOptions.Sendable, or_iff_right hoff]
    omega
  · obtain ⟨m, rfl⟩ := Int.eq_ofNat_of_zero_le hpos.le
    obtain ⟨⟨next, frames⟩, hsent, hfragmented⟩ :=
      fragmented_fragments hseq wire (m := m) (by omega)
    refine .inl ⟨.inr (.inr (.inl hpos)), next, frames, hsent, ?_⟩
    cases hfragmented with
    | dropped | whole => exact hseq
    | split => exact Nat.mod_lt _ (by norm_num)

lemma LinkService.sendAll_isSome {es : List LinkSend} : ∀ {l : LinkService},
    l.nextSequence < sequences → ((l.sendAll es).isSome
      ↔ ∀ e ∈ es, l.options.Sendable e.bytes.length (e.effectiveMtu l.options)) := by
  induction es with
  | nil => exact fun _ => by simp [sendAll]
  | cons e es ih =>
    intro l hseq
    rw [sendAll, sendPacket, forall_mem_cons]
    rcases fragments_cases hseq e.out.raw (e.effectiveMtu l.options) with
      ⟨hsendable, next, frames, hsent, hnext⟩ | ⟨hnot, hnone⟩
    · rw [hsent, Option.map_some, Option.bind_some, Option.isSome_map,
        ih (l := { l with nextSequence := next }) hnext]
      exact (and_iff_right hsendable).symm
    · rw [hnone]
      exact iff_of_false Bool.false_ne_true fun h => hnot h.1

/-- **Management cannot break the fragmenter** exactly as long as every packet is sendable with the
MTU that was set before it: then each is sent or dropped, whatever the commands asked for. -/
theorem sends_under_commands (options : LinkOptions) (sends : List (ℕ × LinkSend)) :
    ((LinkService.make options).sendAll (sends.map fun p => p.2.under p.1)).isSome
      ↔ ∀ p ∈ sends, options.Sendable p.2.bytes.length ((p.2.under p.1).effectiveMtu options) := by
  rw [LinkService.sendAll_isSome (Nat.two_pow_pos 64), forall_mem_map]
  rfl

/-- An MTU of 26 bytes is taken up by the header, so that the number of fragments is a quotient by
zero; the largest MTU that can be asked for is -1, and the number of fragments is negative. -/
theorem command_breaks_fragmenter :
    let e : LinkSend := { out := { raw := [replicate 100 0] }, mtu := 0 }
    (e.under 26).effectiveMtu .make = 0
      ∧ (LinkService.make .make).sendPacket (e.under 26) = none
      ∧ (e.under (2 ^ 64 - 1)).mtu = -1
      ∧ (LinkService.make .make).sendPacket (e.under (2 ^ 64 - 1)) = none := by
  decide +kernel

end Mars
