import Mathlib.Data.Int.Order.Basic
import Mathlib.Data.List.Sort
import Lacp.Stub

/-!
# The order of a report

Reference: `trunk_port_state_compare`, `trunk_port_state_sort` of `trunk_api.c`,
`lacp_ssp_change_to_slot_port` of `trunk_ssp.c`.

The comparator puts a valid entry before an invalid one, but is not told to put an invalid one after a
valid one. Apart from that it compares port indices, since slots and ports are too small for the
unsigned differences to change their sign (`toInt_sub_of_lt`). So it is an order on those reports in
which the two halves of it never meet.
-/

namespace Lacp

/-- What `trunk_port_state_t` says of validity and place. -/
structure TrunkPortState where
  valid : UInt32
  slot : UInt32
  port : UInt32
deriving DecidableEq, Repr

/-- `trunk_port_state_compare`: unsigned differences, returned as `int`. -/
def trunkPortStateCompare (state1 state2 : TrunkPortState) : Int32 :=
  if state1.valid != 0 && state2.valid == 0 then -1
  else if state1.slot - state2.slot != 0 then (state1.slot - state2.slot).toInt32
  else (state1.port - state2.port).toInt32

namespace TrunkPortState

/-- Slot and port are those of some port index. -/
def Named (state : TrunkPortState) : Prop :=
  ∃ portIndex : UInt32,
    (state.slot.toNat, state.port.toNat) = lacpSspChangeToSlotPort portIndex.toNat

/-- That port index. -/
def portIndex (state : TrunkPortState) : ℕ := state.slot.toNat * 8 + (state.port.toNat - 1)

/-- What the comparator reads of an entry. -/
def line (state : TrunkPortState) : Bool × UInt32 × UInt32 := (state.valid != 0, state.slot, state.port)

end TrunkPortState

/-! ## The comparator on named entries -/

section Compare

variable {a b : TrunkPortState}

/-- The unsigned difference of two small numbers is their difference as an `int`. -/
theorem toInt_sub_of_lt {x y : UInt32} (hx : x.toNat < 2147483648) (hy : y.toNat < 2147483648) :
    (x - y).toInt32.toInt = (x.toNat : ℤ) - y.toNat := by
  have hsmall : ∀ z : UInt32, z.toNat < 2147483648 → z.toInt32.toInt = z.toNat := by
    intro z hz
    exact BitVec.toInt_eq_toNat_of_lt (x := z.toBitVec) (by
      show 2 * z.toNat < 2 ^ 32
      omega)
  rw [UInt32.toInt32_sub, Int32.toInt_sub, hsmall x hx, hsmall y hy]
  exact Int.bmod_eq_of_le (by omega) (by omega)

theorem TrunkPortState.Named.bounds (h : a.Named) :
    a.slot.toNat < 536870912 ∧ 1 ≤ a.port.toNat ∧ a.port.toNat ≤ 8 := by
  obtain ⟨i, hi⟩ := h
  obtain ⟨hslot, hport⟩ := Prod.mk.inj hi
  have hlt := i.toNat_lt
  omega

theorem TrunkPortState.Named.name_eq (h : a.Named) :
    (a.slot.toNat, a.port.toNat) = lacpSspChangeToSlotPort a.portIndex := by
  obtain ⟨_, hport⟩ := h.bounds
  unfold lacpSspChangeToSlotPort TrunkPortState.portIndex
  rw [Prod.mk.injEq]
  omega

theorem sub_ne_zero_iff_toNat_ne {x y : UInt32} : (x - y != 0) = true ↔ x.toNat ≠ y.toNat := by
  rw [bne_iff_ne, ne_eq, ne_eq, UInt32.toNat_inj, UInt32.sub_eq_iff_eq_add, UInt32.zero_add]

/-- A valid entry is before every invalid one; otherwise the port indices decide. -/
theorem sign_trunkPortStateCompare (ha : a.Named) (hb : b.Named) :
    (trunkPortStateCompare a b).toInt.sign =
      if a.valid ≠ 0 ∧ b.valid = 0 then -1 else ((a.portIndex : ℤ) - b.portIndex).sign := by
  obtain ⟨haslot, haport⟩ := ha.bounds
  obtain ⟨hbslot, hbport⟩ := hb.bounds
  have hindex : ∀ s : TrunkPortState, s.portIndex = s.slot.toNat * 8 + (s.port.toNat - 1) := fun _ => rfl
  unfold trunkPortStateCompare
  by_cases hvalid : a.valid ≠ 0 ∧ b.valid = 0
  · rw [if_pos (by simpa using hvalid), if_pos hvalid]
    rfl
  · rw [if_neg (by simpa using hvalid), if_neg hvalid]
    by_cases hne : a.slot.toNat ≠ b.slot.toNat
    · rw [if_pos (sub_ne_zero_iff_toNat_ne.mpr hne), toInt_sub_of_lt (by omega) (by omega)]
      rcases lt_or_gt_of_ne hne with hlt | hgt
      · rw [Int.sign_eq_neg_one_of_neg (by omega), Int.sign_eq_neg_one_of_neg (by simp only [hindex]; omega)]
      · rw [Int.sign_eq_one_of_pos (by omega), Int.sign_eq_one_of_pos (by simp only [hindex]; omega)]
    · have heq : a.slot.toNat = b.slot.toNat := not_ne_iff.mp hne
      rw [if_neg fun h => hne (sub_ne_zero_iff_toNat_ne.mp h), toInt_sub_of_lt (by omega) (by omega)]
      congr 1
      simp only [hindex]
      omega

end Compare

/-! ## Sorting -/

/-- The comparator is a consistent order on the entries of an array: swapping the arguments swaps the
sign, "not after" is transitive, and valid entries are before invalid ones. -/
structure ConsistentOn (states : List TrunkPortState) : Prop where
  swap : ∀ a ∈ states, ∀ b ∈ states,
    (trunkPortStateCompare a b).toInt.sign = -(trunkPortStateCompare b a).toInt.sign
  trans : ∀ a ∈ states, ∀ b ∈ states, ∀ c ∈ states, (trunkPortStateCompare a b).toInt ≤ 0 →
    (trunkPortStateCompare b c).toInt ≤ 0 → (trunkPortStateCompare a c).toInt ≤ 0
  validFirst : ∀ a ∈ states, ∀ b ∈ states, a.valid ≠ 0 → b.valid = 0 →
    (trunkPortStateCompare a b).toInt < 0 ∧ 0 < (trunkPortStateCompare b a).toInt

/-- What `qsort` may leave in the array: its entries, none after one that follows it. -/
structure SortOf (states sorted : List TrunkPortState) : Prop where
  perm : sorted.Perm states
  ordered : sorted.Pairwise fun a b => (trunkPortStateCompare a b).toInt ≤ 0

/-- `trunk_port_state_sort` has a defined result, with the valid entries first: there is an arrangement
that `qsort` may leave, and all of them read the same. -/
def DefinedSort (states : List TrunkPortState) : Prop :=
  ∃ sorted, SortOf states sorted ∧
    ∀ sorted', SortOf states sorted' →
      sorted'.map TrunkPortState.line = sorted.map TrunkPortState.line ∧
        sorted'.Pairwise fun a b => b.valid ≠ 0 → a.valid ≠ 0

/-- Every valid entry has a smaller port index than every invalid one. -/
def ValidBelow (states : List TrunkPortState) : Prop :=
  ∀ a ∈ states, ∀ b ∈ states, a.valid ≠ 0 → b.valid = 0 → a.portIndex < b.portIndex

instance (states : List TrunkPortState) : Decidable (ValidBelow states) :=
  inferInstanceAs (Decidable (∀ a ∈ states, ∀ b ∈ states, _ → _ → _))

section Sorting

variable {states sorted sorted' : List TrunkPortState}

/-- Where the valid entries are below, the comparator is the order of the port indices. -/
theorem ValidBelow.sign_compare (h : ValidBelow states) (hnamed : ∀ a ∈ states, a.Named)
    {a b : TrunkPortState} (ha : a ∈ states) (hb : b ∈ states) :
    (trunkPortStateCompare a b).toInt.sign = ((a.portIndex : ℤ) - b.portIndex).sign := by
  rw [sign_trunkPortStateCompare (hnamed a ha) (hnamed b hb)]
  split
  · rename_i hvalid
    have hlt := h a ha b hb hvalid.1 hvalid.2
    rw [Int.sign_eq_neg_one_of_neg (by omega)]
  · rfl

theorem ValidBelow.compare_nonpos_iff (h : ValidBelow states) (hnamed : ∀ a ∈ states, a.Named)
    {a b : TrunkPortState} (ha : a ∈ states) (hb : b ∈ states) :
    (trunkPortStateCompare a b).toInt ≤ 0 ↔ a.portIndex ≤ b.portIndex := by
  rw [← Int.sign_nonpos_iff, h.sign_compare hnamed ha hb, Int.sign_nonpos_iff]
  omega

theorem ValidBelow.consistentOn (h : ValidBelow states) (hnamed : ∀ a ∈ states, a.Named) :
    ConsistentOn states where
  swap := by
    intro a ha b hb
    rw [h.sign_compare hnamed ha hb, h.sign_compare hnamed hb ha, ← Int.sign_neg]
    congr 1
    omega
  trans := by
    intro a ha b hb c hc hab hbc
    rw [h.compare_nonpos_iff hnamed ha hb] at hab
    rw [h.compare_nonpos_iff hnamed hb hc] at hbc
    rw [h.compare_nonpos_iff hnamed ha hc]
    exact hab.trans hbc
  validFirst := by
    intro a ha b hb hva hvb
    have hlt := h a ha b hb hva hvb
    rw [← Int.sign_eq_neg_one_iff_neg, ← Int.sign_eq_one_iff_pos, h.sign_compare hnamed ha hb,
      h.sign_compare hnamed hb ha, Int.sign_eq_neg_one_iff_neg, Int.sign_eq_one_iff_pos]
    omega

/-- An arrangement that `qsort` may leave is in the order of the port indices. -/
theorem ValidBelow.sortOf_iff (h : ValidBelow states) (hnamed : ∀ a ∈ states, a.Named) :
    SortOf states sorted ↔
      sorted.Perm states ∧ sorted.Pairwise fun a b => a.portIndex ≤ b.portIndex := by
  constructor
  · intro hsort
    refine ⟨hsort.perm, hsort.ordered.imp_of_mem fun ha hb hab => ?_⟩
    exact (h.compare_nonpos_iff hnamed (hsort.perm.subset ha) (hsort.perm.subset hb)).mp hab
  · rintro ⟨hperm, hordered⟩
    refine ⟨hperm, hordered.imp_of_mem fun ha hb hab => ?_⟩
    exact (h.compare_nonpos_iff hnamed (hperm.subset ha) (hperm.subset hb)).mpr hab

/-- Entries with one port index read the same. -/
theorem ValidBelow.line_eq (h : ValidBelow states) (hnamed : ∀ a ∈ states, a.Named)
    {a b : TrunkPortState} (ha : a ∈ states) (hb : b ∈ states) (hindex : a.portIndex = b.portIndex) :
    a.line = b.line := by
  have hname := (hnamed a ha).name_eq.trans ((congrArg _ hindex).trans (hnamed b hb).name_eq.symm)
  obtain ⟨hslot, hport⟩ := Prod.mk.inj hname
  have hvalid : (a.valid != 0) = (b.valid != 0) := by
    rw [Bool.eq_iff_iff, bne_iff_ne, bne_iff_ne]
    constructor
    · intro hva hvb
      exact absurd (h a ha b hb hva hvb) (by omega)
    · intro hvb hva
      exact absurd (h b hb a ha hvb hva) (by omega)
  simp only [TrunkPortState.line, hvalid, UInt32.toNat_inj.mp hslot, UInt32.toNat_inj.mp hport]

theorem ValidBelow.map_line_eq (h : ValidBelow states) (hnamed : ∀ a ∈ states, a.Named)
    (hsorted : SortOf states sorted) (hsorted' : SortOf states sorted') :
    sorted'.map TrunkPortState.line = sorted.map TrunkPortState.line := by
  obtain ⟨hperm, hordered⟩ := (h.sortOf_iff hnamed).mp hsorted
  obtain ⟨hperm', hordered'⟩ := (h.sortOf_iff hnamed).mp hsorted'
  let le (k k' : Bool × UInt32 × UInt32) : Prop :=
    k.2.1.toNat * 8 + (k.2.2.toNat - 1) ≤ k'.2.1.toNat * 8 + (k'.2.2.toNat - 1)
  have heq : ∀ k k', k ∈ sorted'.map TrunkPortState.line → k' ∈ sorted.map TrunkPortState.line →
      le k k' → le k' k → k = k' := by
    intro k k' hk hk' hle hge
    obtain ⟨a, ha, rfl⟩ := List.mem_map.mp hk
    obtain ⟨b, hb, rfl⟩ := List.mem_map.mp hk'
    exact h.line_eq hnamed (hperm'.subset ha) (hperm.subset hb) (Nat.le_antisymm hle hge)
  exact List.Perm.eq_of_pairwise heq (List.pairwise_map.mpr hordered') (List.pairwise_map.mpr hordered)
    ((hperm'.trans hperm.symm).map _)

theorem ValidBelow.definedSort (h : ValidBelow states) (hnamed : ∀ a ∈ states, a.Named) :
    DefinedSort states := by
  have hsorted : SortOf states (states.insertionSort fun a b => a.portIndex ≤ b.portIndex) := by
    refine (h.sortOf_iff hnamed).mpr ⟨List.perm_insertionSort _ _, ?_⟩
    have htotal : Std.Total fun a b : TrunkPortState => a.portIndex ≤ b.portIndex :=
      ⟨fun a b => Nat.le_total _ _⟩
    have htrans : IsTrans TrunkPortState fun a b => a.portIndex ≤ b.portIndex :=
      ⟨fun _ _ _ => Nat.le_trans⟩
    exact List.pairwise_insertionSort _ _
  refine ⟨_, hsorted, fun sorted' hsorted' => ⟨h.map_line_eq hnamed hsorted hsorted', ?_⟩⟩
  obtain ⟨hperm, hordered⟩ := (h.sortOf_iff hnamed).mp hsorted'
  refine hordered.imp_of_mem fun ha hb hle hvb hva => ?_
  exact absurd (h _ (hperm.subset hb) _ (hperm.subset ha) hvb hva) (by omega)

/-- On an array of named entries the comparator is a consistent order, and sorting has a defined result
with the valid entries first, exactly if every valid entry has a smaller port index than every invalid
one. -/
theorem trunkPortStateSort_iff (hnamed : ∀ a ∈ states, a.Named) :
    ConsistentOn states ∧ DefinedSort states ↔ ValidBelow states := by
  constructor
  · rintro ⟨hconsistent, _⟩ a ha b hb hva hvb
    -- the invalid entry is compared by its port index
    have hafter := (hconsistent.validFirst a ha b hb hva hvb).2
    rw [← Int.sign_eq_one_iff_pos, sign_trunkPortStateCompare (hnamed b hb) (hnamed a ha),
      if_neg fun hboth => hboth.1 hvb, Int.sign_eq_one_iff_pos] at hafter
    omega
  · exact fun h => ⟨h.consistentOn hnamed, h.definedSort hnamed⟩

/-- A report of two valid entries that are below the unused one. -/
theorem trunkPortStateSort_iff_three :
    ConsistentOn [⟨1, 0, 2⟩, ⟨0, 0, 3⟩, ⟨1, 0, 1⟩] ∧ DefinedSort [⟨1, 0, 2⟩, ⟨0, 0, 3⟩, ⟨1, 0, 1⟩] := by
  refine (trunkPortStateSort_iff ?_).mpr (by decide)
  intro a ha
  simp only [List.mem_cons, List.not_mem_nil, or_false] at ha
  rcases ha with rfl | rfl | rfl
  · exact ⟨1, rfl⟩
  · exact ⟨2, rfl⟩
  · exact ⟨0, rfl⟩

/-- A valid entry for port 2 and an unused one, which names port 1: each is before the other. -/
theorem not_trunkPortStateSort : ¬ ∀ states : List TrunkPortState, (∀ a ∈ states, a.Named) →
    ConsistentOn states ∧ DefinedSort states := by
  intro hall
  have hnamed : ∀ a ∈ ([⟨1, 0, 2⟩, ⟨0, 0, 1⟩] : List TrunkPortState), a.Named := by
    intro a ha
    simp only [List.mem_cons, List.not_mem_nil, or_false] at ha
    rcases ha with rfl | rfl
    · exact ⟨1, rfl⟩
    · exact ⟨0, rfl⟩
  have hswap := (hall _ hnamed).1.swap ⟨1, 0, 2⟩ (by decide) ⟨0, 0, 1⟩ (by decide)
  exact absurd hswap (by decide)

end Sorting

end Lacp
