import Mathlib.Data.Finset.Card
import Mathlib.Data.Finset.Prod
import Mathlib.Order.Interval.Finset.Nat
import Lacp.Sys

/-!
# Link groups as bitmaps with a count

Reference: `stub_db_agg_has_member`, `stub_db_agg_add_member` and `stub_db_agg_del_member` of
`lacp_stub.c`.

A link group keeps the set of its members twice, as a bitmap and as a number. On the set the two
operations are `insert` and `erase`; the number only ever grows.
-/

namespace Lacp

/-- `stub_db_agg_has_member`. -/
def stubDbAggHasMember (w : World) (aggId : ℕ) : Bool := (w.gLinkGroups (aggId - 1)).cnt != 0

/-- The slots and ports that a bitmap of 19 bytes has a bit for. -/
def memberNames : Finset (ℕ × ℕ) := Finset.range 19 ×ˢ Finset.Icc 1 8

/-- The members of a link group: the bits that are set in its bitmap. -/
def groupMembersOf (w : World) (aggId : ℕ) : Finset (ℕ × ℕ) :=
  memberNames.filter fun member => trunkGetPbmp member.1 member.2 (stubDbAggGetMember w aggId)

theorem mem_memberNames {slot port : ℕ} :
    (slot, port) ∈ memberNames ↔ slot ≤ 18 ∧ 1 ≤ port ∧ port ≤ 8 := by
  rw [memberNames, Finset.mem_product, Finset.mem_range, Finset.mem_Icc, Nat.lt_succ_iff]

theorem mem_groupMembersOf {w : World} {aggId slot port : ℕ} :
    (slot, port) ∈ groupMembersOf w aggId ↔
      (slot ≤ 18 ∧ 1 ≤ port ∧ port ≤ 8) ∧
        trunkGetPbmp slot port (stubDbAggGetMember w aggId) = true := by
  rw [groupMembersOf, Finset.mem_filter, mem_memberNames]

/-! ## The operations on the set of members -/

section Operations

variable {w : World} {aggId slot port : ℕ}

/-- A bit after one was set. -/
theorem trunkGetPbmp_trunkSetPbmp_iff {slot' port' : ℕ} (hport : 1 ≤ port ∧ port ≤ 8)
    (hport' : 1 ≤ port' ∧ port' ≤ 8) (pbmp : ℕ → BitVec 8) :
    trunkGetPbmp slot' port' (trunkSetPbmp slot port pbmp) = true ↔
      (slot', port') = (slot, port) ∨ trunkGetPbmp slot' port' pbmp = true := by
  unfold trunkGetPbmp trunkSetPbmp
  rw [Prod.mk.injEq]
  by_cases hslot : slot' = slot
  · have hbit : port - 1 = port' - 1 ↔ port' = port := by omega
    rw [if_pos hslot, BitVec.getLsbD_or, BitVec.getLsbD_twoPow, Bool.or_eq_true, Bool.and_eq_true,
      decide_eq_true_iff, decide_eq_true_iff, hbit, or_comm]
    refine or_congr_left ?_
    constructor
    · exact fun h => ⟨hslot, h.2⟩
    · exact fun h => ⟨by omega, h.2⟩
  · rw [if_neg hslot]
    constructor
    · exact Or.inr
    · exact fun h => h.resolve_left fun heq => hslot heq.1

/-- A bit after one was cleared. -/
theorem trunkGetPbmp_trunkClearPbmp_iff {slot' port' : ℕ} (hport : 1 ≤ port ∧ port ≤ 8)
    (hport' : 1 ≤ port' ∧ port' ≤ 8) (pbmp : ℕ → BitVec 8) :
    trunkGetPbmp slot' port' (trunkClearPbmp slot port pbmp) = true ↔
      (slot', port') ≠ (slot, port) ∧ trunkGetPbmp slot' port' pbmp = true := by
  unfold trunkGetPbmp trunkClearPbmp
  rw [ne_eq, Prod.mk.injEq]
  by_cases hslot : slot' = slot
  · have hbit : port - 1 = port' - 1 ↔ port' = port := by omega
    have hlow : port - 1 < 8 ∧ port' - 1 < 8 := by omega
    rw [if_pos hslot, BitVec.getLsbD_and, BitVec.getLsbD_not, BitVec.getLsbD_twoPow, Bool.and_eq_true,
      and_comm]
    refine and_congr_left fun _ => ?_
    simp only [hlow, hbit, hslot, decide_true, Bool.true_and, Bool.not_eq_true', decide_eq_false_iff_not,
      true_and]
  · rw [if_neg hslot]
    constructor
    · exact fun h => ⟨fun heq => hslot heq.1, h⟩
    · exact And.right

/-- Adding changes one bitmap. -/
theorem stubDbAggGetMember_add {aggId' : ℕ} (haggId : 1 ≤ aggId) (haggId' : 1 ≤ aggId') :
    stubDbAggGetMember (stubDbAggAddMember w aggId slot port) aggId' =
      if aggId' = aggId then trunkSetPbmp slot port (stubDbAggGetMember w aggId')
      else stubDbAggGetMember w aggId' := by
  have hgroup : aggId' - 1 = aggId - 1 ↔ aggId' = aggId := by omega
  simp only [stubDbAggGetMember, stubDbAggAddMember, hgroup]
  split <;> rfl

/-- Deleting changes all 32 of them. -/
theorem stubDbAggGetMember_del (haggId : 1 ≤ aggId ∧ aggId ≤ 32) :
    stubDbAggGetMember (stubDbAggDelMember w slot port) aggId =
      trunkClearPbmp slot port (stubDbAggGetMember w aggId) := by
  have hgroup : aggId - 1 < 32 := by omega
  simp only [stubDbAggGetMember, stubDbAggDelMember, hgroup, if_true]

/-- The count of one group grows, whether or not the port was a member. -/
theorem cnt_add {aggId' : ℕ} (haggId : 1 ≤ aggId) (haggId' : 1 ≤ aggId') :
    ((stubDbAggAddMember w aggId slot port).gLinkGroups (aggId' - 1)).cnt =
      if aggId' = aggId then (w.gLinkGroups (aggId' - 1)).cnt + 1
      else (w.gLinkGroups (aggId' - 1)).cnt := by
  have hgroup : aggId' - 1 = aggId - 1 ↔ aggId' = aggId := by omega
  simp only [stubDbAggAddMember, hgroup]
  split <;> rfl

/-- No count shrinks. -/
theorem cnt_del (i : ℕ) :
    ((stubDbAggDelMember w slot port).gLinkGroups i).cnt = (w.gLinkGroups i).cnt := by
  simp only [stubDbAggDelMember]
  split <;> rfl

theorem groupMembersOf_add {aggId' : ℕ} (haggId : 1 ≤ aggId) (haggId' : 1 ≤ aggId') (hslot : slot ≤ 18)
    (hport : 1 ≤ port ∧ port ≤ 8) :
    groupMembersOf (stubDbAggAddMember w aggId slot port) aggId' =
      if aggId' = aggId then insert (slot, port) (groupMembersOf w aggId')
      else groupMembersOf w aggId' := by
  unfold groupMembersOf
  rw [stubDbAggGetMember_add haggId haggId']
  by_cases hgroup : aggId' = aggId
  · rw [if_pos hgroup, if_pos hgroup]
    ext ⟨slot', port'⟩
    rw [Finset.mem_insert, Finset.mem_filter, Finset.mem_filter, mem_memberNames]
    constructor
    · rintro ⟨hname, hbit⟩
      exact ((trunkGetPbmp_trunkSetPbmp_iff hport hname.2 _).mp hbit).imp_right fun h => ⟨hname, h⟩
    · rintro (heq | ⟨hname, hbit⟩)
      · obtain ⟨rfl, rfl⟩ := Prod.mk.inj heq
        exact ⟨⟨hslot, hport⟩, (trunkGetPbmp_trunkSetPbmp_iff hport hport _).mpr (.inl rfl)⟩
      · exact ⟨hname, (trunkGetPbmp_trunkSetPbmp_iff hport hname.2 _).mpr (.inr hbit)⟩
  · rw [if_neg hgroup, if_neg hgroup]

theorem groupMembersOf_del (haggId : 1 ≤ aggId ∧ aggId ≤ 32) (hport : 1 ≤ port ∧ port ≤ 8) :
    groupMembersOf (stubDbAggDelMember w slot port) aggId =
      (groupMembersOf w aggId).erase (slot, port) := by
  unfold groupMembersOf
  rw [stubDbAggGetMember_del haggId]
  ext ⟨slot', port'⟩
  rw [Finset.mem_erase, Finset.mem_filter, Finset.mem_filter, mem_memberNames]
  constructor
  · rintro ⟨hname, hbit⟩
    obtain ⟨hne, hbit⟩ := (trunkGetPbmp_trunkClearPbmp_iff hport hname.2 _).mp hbit
    exact ⟨hne, hname, hbit⟩
  · rintro ⟨hne, hname, hbit⟩
    exact ⟨hname, (trunkGetPbmp_trunkClearPbmp_iff hport hname.2 _).mpr ⟨hne, hbit⟩⟩

theorem card_groupMembersOf_le (w : World) (aggId : ℕ) : (groupMembersOf w aggId).card ≤ 152 :=
  le_trans (Finset.card_filter_le _ _) (le_of_eq rfl)

end Operations

/-! ## Runs -/

/-- A call that changes the members of link groups. -/
inductive MemberCall
  | add (aggId slot port : ℕ)
  | del (slot port : ℕ)

/-- The slots, ports and link groups the callers use. -/
def MemberCall.InRange : MemberCall → Prop
  | .add aggId slot port => (1 ≤ aggId ∧ aggId ≤ 32) ∧ slot ≤ 18 ∧ 1 ≤ port ∧ port ≤ 8
  | .del slot port => slot ≤ 18 ∧ 1 ≤ port ∧ port ≤ 8

/-- The code a call runs. -/
def runMemberCall (w : World) : MemberCall → World
  | .add aggId slot port => stubDbAggAddMember w aggId slot port
  | .del slot port => stubDbAggDelMember w slot port

/-- The states of a run from `stub_init` in which every call meets the condition `R`. -/
inductive MemberRun (R : World → MemberCall → Prop) : World → Prop
  | init (pid : UInt32) : MemberRun R (initWorld pid)
  | step {w : World} {c : MemberCall} (h : MemberRun R w) (hrange : c.InRange) (hok : R w c) :
      MemberRun R (runMemberCall w c)

/-- A call adds a port to a group that lacks it, or deletes a port that is in no group. -/
def MemberCall.KeepsCounts (w : World) : MemberCall → Prop
  | .add aggId slot port => trunkGetPbmp slot port (stubDbAggGetMember w aggId) = false
  | .del slot port => stubDbPortLacpIsEnable w slot port = false

/-- Each count is the number of bits that are set. -/
def CountsMatch (w : World) : Prop :=
  ∀ aggId, 1 ≤ aggId → aggId ≤ 32 →
    (w.gLinkGroups (aggId - 1)).cnt.toNat = (groupMembersOf w aggId).card

section Runs

variable {w : World} {c : MemberCall}

/-- A port is in no link group exactly if it is a member of none. -/
theorem stubDbPortLacpIsEnable_eq_false_iff {slot port : ℕ} (hslot : slot ≤ 18)
    (hport : 1 ≤ port ∧ port ≤ 8) :
    stubDbPortLacpIsEnable w slot port = false ↔
      ∀ aggId, 1 ≤ aggId → aggId ≤ 32 → (slot, port) ∉ groupMembersOf w aggId := by
  have hbits : stubDbPortLacpIsEnable w slot port = false ↔
      ∀ i < 32, ¬ trunkGetPbmp slot port (w.gLinkGroups i).ports = true := by
    unfold stubDbPortLacpIsEnable stubDbAggGetPortTid
    cases hfind : (List.range 32).find? fun i => trunkGetPbmp slot port (w.gLinkGroups i).ports with
    | none =>
      refine iff_of_true rfl fun i hi => ?_
      exact List.find?_eq_none.mp hfind i (List.mem_range.mpr hi)
    | some i =>
      have hbit : trunkGetPbmp slot port (w.gLinkGroups i).ports = true := by
        simpa using List.find?_some hfind
      refine iff_of_false (by simp) fun hall => ?_
      exact hall i (List.mem_range.mp (List.mem_of_find?_eq_some hfind)) hbit
  rw [hbits]
  constructor
  · intro hall aggId h1 h32 hmem
    exact hall (aggId - 1) (by omega) (mem_groupMembersOf.mp hmem).2
  · intro hall i hi hbit
    exact hall (i + 1) (by omega) (by omega) (mem_groupMembersOf.mpr ⟨⟨hslot, hport⟩, hbit⟩)

/-- Where the counts match, they match after a call exactly if it changes the set as it changes the
count. -/
theorem CountsMatch.step_iff (h : CountsMatch w) (hrange : c.InRange) :
    CountsMatch (runMemberCall w c) ↔ c.KeepsCounts w := by
  cases c with
  | add aggId slot port =>
    obtain ⟨⟨h1, h32⟩, hslot, hport⟩ := hrange
    have hbit : (MemberCall.add aggId slot port).KeepsCounts w ↔ (slot, port) ∉ groupMembersOf w aggId := by
      rw [mem_groupMembersOf, MemberCall.KeepsCounts, not_and, ← Bool.not_eq_true]
      exact ⟨fun hclear _ => hclear, fun hclear => hclear ⟨hslot, hport⟩⟩
    rw [hbit]
    constructor
    · intro hafter hmem
      have hcnt := hafter aggId h1 h32
      rw [runMemberCall, cnt_add h1 h1, if_pos rfl, groupMembersOf_add h1 h1 hslot hport, if_pos rfl,
        Finset.insert_eq_of_mem hmem, UInt32.toNat_add, h aggId h1 h32, UInt32.toNat_one] at hcnt
      have hle := card_groupMembersOf_le w aggId
      omega
    · intro hmem aggId' h1' h32'
      rw [runMemberCall, cnt_add h1 h1', groupMembersOf_add h1 h1' hslot hport]
      by_cases hgroup : aggId' = aggId
      · subst hgroup
        have hle := card_groupMembersOf_le w aggId'
        rw [if_pos rfl, if_pos rfl, Finset.card_insert_of_notMem hmem, UInt32.toNat_add,
          h aggId' h1 h32, UInt32.toNat_one]
        omega
      · rw [if_neg hgroup, if_neg hgroup]
        exact h aggId' h1' h32'
  | del slot port =>
    obtain ⟨hslot, hport⟩ := hrange
    have hnone : (MemberCall.del slot port).KeepsCounts w ↔ _ :=
      stubDbPortLacpIsEnable_eq_false_iff hslot hport
    rw [hnone]
    constructor
    · intro hafter aggId h1 h32 hmem
      have hcnt := hafter aggId h1 h32
      rw [runMemberCall, cnt_del, groupMembersOf_del ⟨h1, h32⟩ hport, h aggId h1 h32] at hcnt
      have hlt := Finset.card_erase_lt_of_mem hmem
      omega
    · intro hall aggId h1 h32
      rw [runMemberCall, cnt_del, groupMembersOf_del ⟨h1, h32⟩ hport,
        Finset.erase_eq_of_notMem (hall aggId h1 h32)]
      exact h aggId h1 h32

theorem countsMatch_init (pid : UInt32) : CountsMatch (initWorld pid) := by
  intro aggId _ _
  have hempty : groupMembersOf (initWorld pid) aggId = ∅ := by
    refine Finset.filter_eq_empty_iff.mpr fun member _ => ?_
    show ¬ (0 : BitVec 8).getLsbD (member.2 - 1) = true
    simp
  rw [hempty]
  rfl

theorem MemberRun.countsMatch (h : MemberRun (fun w c => c.KeepsCounts w) w) : CountsMatch w := by
  induction h with
  | init pid => exact countsMatch_init pid
  | step _ hrange hok ih => exact (ih.step_iff hrange).mpr hok

/-- A count that matches says whether there are members. -/
theorem CountsMatch.hasMember_iff (h : CountsMatch w) {aggId : ℕ} (h1 : 1 ≤ aggId) (h32 : aggId ≤ 32) :
    stubDbAggHasMember w aggId = true ↔
      ∃ slot port, (slot ≤ 18 ∧ 1 ≤ port ∧ port ≤ 8) ∧
        trunkGetPbmp slot port (stubDbAggGetMember w aggId) = true := by
  have hcnt : stubDbAggHasMember w aggId = true ↔ (groupMembersOf w aggId).card ≠ 0 := by
    rw [← h aggId h1 h32, stubDbAggHasMember, bne_iff_ne, ne_eq, ne_eq, ← UInt32.toNat_inj,
      UInt32.toNat_zero]
  rw [hcnt, Finset.card_ne_zero]
  constructor
  · rintro ⟨⟨slot, port⟩, hmem⟩
    exact ⟨slot, port, mem_groupMembersOf.mp hmem⟩
  · rintro ⟨slot, port, hmem⟩
    exact ⟨(slot, port), mem_groupMembersOf.mpr hmem⟩

/-- As long as no member is added again and none is deleted, every count is the number of members and
says whether there are any; and the first call that does either ends that. -/
theorem memberRun_cnt (h : MemberRun (fun w c => c.KeepsCounts w) w) :
    (∀ aggId, 1 ≤ aggId → aggId ≤ 32 →
      (w.gLinkGroups (aggId - 1)).cnt.toNat = (groupMembersOf w aggId).card ∧
        (stubDbAggHasMember w aggId = true ↔
          ∃ slot port, (slot ≤ 18 ∧ 1 ≤ port ∧ port ≤ 8) ∧
            trunkGetPbmp slot port (stubDbAggGetMember w aggId) = true)) ∧
      ∀ c : MemberCall, c.InRange → (CountsMatch (runMemberCall w c) ↔ c.KeepsCounts w) :=
  ⟨fun aggId h1 h32 => ⟨h.countsMatch aggId h1 h32, h.countsMatch.hasMember_iff h1 h32⟩,
    fun _ hrange => h.countsMatch.step_iff hrange⟩

/-- Two ports join a group, and a third one that is in no group is deleted. -/
theorem memberRun_cnt_two : ∃ w, MemberRun (fun w c => c.KeepsCounts w) w ∧
    (w.gLinkGroups 0).cnt = 2 ∧ (w.gLinkGroups 0).cnt.toNat = (groupMembersOf w 1).card := by
  have hone := (MemberRun.init (R := fun w c => c.KeepsCounts w) 0).step (c := .add 1 0 1)
    ⟨by decide, by decide⟩ rfl
  have htwo := hone.step (c := .add 1 18 8) ⟨by decide, by decide⟩ rfl
  have hthree := htwo.step (c := .del 4 5) (by unfold MemberCall.InRange; decide) rfl
  exact ⟨_, hthree, rfl, ((memberRun_cnt hthree).1 1 (by decide) (by decide)).1⟩

/-- A port joins a group and is deleted: the bitmap is empty, and the group still has a member. -/
theorem not_memberRun_cnt : ¬ ∀ w, MemberRun (fun _ _ => True) w →
    ∀ aggId, 1 ≤ aggId → aggId ≤ 32 →
      (w.gLinkGroups (aggId - 1)).cnt.toNat = (groupMembersOf w aggId).card ∧
        (stubDbAggHasMember w aggId = true ↔
          ∃ slot port, (slot ≤ 18 ∧ 1 ≤ port ∧ port ≤ 8) ∧
            trunkGetPbmp slot port (stubDbAggGetMember w aggId) = true) := by
  intro hall
  have hjoined := (MemberRun.init (R := fun _ _ => True) 0).step (c := .add 1 0 1)
    ⟨by decide, by decide⟩ trivial
  have hleft := hjoined.step (c := .del 0 1) (by unfold MemberCall.InRange; decide) trivial
  have hcnt := (hall _ hleft 1 (by decide) (by decide)).1
  exact absurd hcnt (by decide)

end Runs

end Lacp
