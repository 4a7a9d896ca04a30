import Lacp.Reachability

/-!
# The link-group database and the engine

Reference: `trunk_port_lacp_enable`, `trunk_port_lacp_disable`, `trunk_agg_delete` and `lacp_stub.c`.

Membership is recorded twice: as a bit in the bitmap of a link group, and as the `agg_id` of a port.
`trunk_port_lacp_enable` sets the bit and clears none, also where the engine then refuses the port. So
the two records agree as long as every port that is enabled has an index of the engine and is in no
other link group (`reachableBy_databaseAgrees`).
-/

namespace Lacp

/-- The link groups and the ports of the engine have the same members. -/
structure DatabaseAgrees (w : World) : Prop where
  /-- A port is in the bitmap of one link group at most. -/
  unique : ∀ slot < 18, ∀ port, 1 ≤ port → port ≤ 8 → ∀ g g', 1 ≤ g → g ≤ 32 → 1 ≤ g' → g' ≤ 32 →
    trunkGetPbmp slot port (stubDbAggGetMember w g) = true →
    trunkGetPbmp slot port (stubDbAggGetMember w g') = true → g = g'
  /-- It is in the bitmap of the group in which it runs LACP. -/
  member : ∀ slot < 18, ∀ port, 1 ≤ port → port ≤ 8 → ∀ g, 1 ≤ g → g ≤ 32 →
    (trunkGetPbmp slot port (stubDbAggGetMember w g) = true ↔
      ∃ a ∈ w.sys.ports, (w.port a).portIndex = globalIndex slot port ∧
        (w.port a).lacpEnabled = true ∧ (w.port a).aggId = g)

/-- A port that is enabled has an index of the engine, and no other link group has it. -/
def Call.KeepsBitmaps (w : World) : Call → Prop
  | .portLacpEnable slot port aggId _ => globalIndex slot port < lacpPortMax ∧
      (stubDbAggGetPortTid w slot port = 0 ∨ stubDbAggGetPortTid w slot port = aggId)
  | _ => True

instance (w : World) : (c : Call) → Decidable (c.KeepsBitmaps w)
  | .portLacpEnable _ _ _ _ => inferInstanceAs (Decidable (_ ∧ _))
  | .sysSetPrio _ | .sysSetLongPeriod _ | .sysSetShortPeriod _ | .sysSetPeriod _
  | .portLacpDisable _ _ | .aggDelete _ | .portSetPrio _ _ _ | .portSetSpeed _ _ _
  | .portSetDuplex _ _ _ | .portLinkChange _ _ _ | .portClearStat _ _ | .setPortLinkStatus _ _
  | .rxLacpdu _ _ _ | .oneSecond => isTrue trivial

/-! ## During a call -/

/-- The bit of index `i` in the bitmap of link group `g + 1`. -/
def groupBit (w : World) (i g : ℕ) : Bool := trunkGetPbmp (i / 8) (i % 8 + 1) (w.gLinkGroups g).ports

/-- The index of a port, and the group in which it runs LACP. -/
def LacpPort.membership (p : LacpPort) : ℕ × Bool × ℕ := (p.portIndex, p.lacpEnabled, p.aggId)

/-- The bitmaps list the ports that run LACP, but none of the ports in `E`. -/
def BitmapsFollow (E : Set ℕ) (w : World) : Prop :=
  ∀ i < 144, ∀ g < 32, groupBit w i g = true ↔
    i ∉ E ∧ ∃ a ∈ w.sys.ports, (w.port a).membership = (i, true, g + 1)

variable {R : World → Call → Prop} {c : Call} {E E' : Set ℕ} {w w' : World} {a b : Addr} {i g : ℕ}
  {p : LacpPort} {u : LacpPort → LacpPort}

theorem reconfigured_membership (hu : (u p).membership = p.membership) :
    (reconfigured a g u b p).membership = p.membership := by
  simp only [reconfigured]
  split
  · exact hu
  · split <;> rfl

/-- The other ports are deselected at most. -/
theorem reconfigured_membership_of_ne (hba : b ≠ a) :
    (reconfigured a g u b p).membership = p.membership := by
  simp only [reconfigured, if_neg hba]
  split <;> rfl

theorem onlyAt_membership (hu : (u p).membership = p.membership) :
    (onlyAt a u b p).membership = p.membership := by
  simp only [onlyAt]
  split
  · exact hu
  · rfl

theorem linkChangedPort_membership (attr : PortAttr) (linkStatus : UInt32) (p : LacpPort) :
    (linkChangedPort attr linkStatus p).membership = p.membership := by
  simp only [linkChangedPort]
  split <;> rfl

theorem LacpPort.membership_of_settings {p q : LacpPort} (h : q.settings = p.settings) :
    q.membership = p.membership :=
  congrArg (fun s : PortSettings => (s.portIndex, s.lacpEnabled, s.aggId)) h

/-- The lookup finds the one group that has the bit. -/
theorem stubDbAggGetPortTid_eq (hg : g < 32) (hbit : groupBit w i g = true)
    (hunique : ∀ g' < 32, groupBit w i g' = true → g' = g) :
    stubDbAggGetPortTid w (i / 8) (i % 8 + 1) = g + 1 := by
  simp only [stubDbAggGetPortTid]
  cases hfind : (List.range 32).find? fun g => trunkGetPbmp (i / 8) (i % 8 + 1)
      (w.gLinkGroups g).ports with
  | none => exact absurd hbit (List.find?_eq_none.mp hfind g (List.mem_range.mpr hg))
  | some g' =>
    have hlt := List.mem_range.mp (List.mem_of_find?_eq_some hfind)
    obtain rfl := hunique g' hlt (List.find?_some hfind)
    rfl

/-- Adding a port to a link group sets its bit there, and no other. -/
theorem groupBit_addMember {slot port aggId : ℕ} (hport : 1 ≤ port ∧ port ≤ 8) (haggId : 1 ≤ aggId)
    (hgroups : w'.gLinkGroups = (stubDbAggAddMember w aggId slot port).gLinkGroups) :
    groupBit w' (globalIndex slot port) g = true ↔
      groupBit w (globalIndex slot port) g = true ∨ aggId = g + 1 := by
  simp only [groupBit, hgroups, stubDbAggAddMember, globalIndex_div hport, globalIndex_mod hport]
  split
  · rename_i hg
    have haggId' : aggId = g + 1 := by omega
    simp [trunkGetPbmp, trunkSetPbmp, show port - 1 < 8 by omega, haggId']
  · rename_i hg
    have haggId' : aggId ≠ g + 1 := by omega
    simp [haggId']

namespace BitmapsFollow

/-- Only the bits count, and the membership of the ports outside `E`. -/
theorem congr (h : BitmapsFollow E w) (hports : w'.sys.ports = w.sys.ports)
    (hindex : ∀ a ∈ w.sys.ports, (w'.port a).portIndex = (w.port a).portIndex)
    (hkeep : ∀ a ∈ w.sys.ports, (w.port a).portIndex ∉ E →
      (w'.port a).membership = (w.port a).membership)
    (hbits : ∀ i g, groupBit w' i g = groupBit w i g) : BitmapsFollow E w' := by
  intro i hi g hg
  rw [hbits, h i hi g hg, hports]
  refine and_congr_right fun hiE => exists_congr fun a => and_congr_right fun ha => ?_
  constructor
  · intro hmem
    have hai : (w.port a).portIndex = i := congrArg Prod.fst hmem
    rw [hkeep a ha (hai ▸ hiE), hmem]
  · intro hmem
    have hai : (w'.port a).portIndex = i := congrArg Prod.fst hmem
    rw [← hkeep a ha (hindex a ha ▸ hai ▸ hiE), hmem]

/-- A write that keeps the membership of the ports, and the bits. -/
theorem update {s : LacpSys} {t : Set ℕ} {f : Addr → LacpPort → LacpPort} (h : BitmapsFollow E w)
    (hw : Update w w' s t f) (hf : ∀ a p, (f a p).membership = p.membership)
    (hbits : ∀ i g, groupBit w' i g = groupBit w i g) : BitmapsFollow E w' := by
  have hkeep : ∀ a ∈ w.sys.ports, (w'.port a).membership = (w.port a).membership := by
    intro a ha
    rw [hw.port a ha]
    exact hf _ _
  exact h.congr hw.ports (fun a ha => congrArg Prod.fst (hkeep a ha)) (fun a ha _ => hkeep a ha) hbits

/-- The group of a port that is in a bitmap. -/
theorem eq_aggId (h : BitmapsFollow E w) (hc : Coherent E w) (ha : a ∈ w.sys.ports) (hg : g < 32)
    (hlt : (w.port a).portIndex < 144) (hbit : groupBit w (w.port a).portIndex g = true) :
    (w.port a).portIndex ∉ E ∧ (w.port a).lacpEnabled = true ∧ (w.port a).aggId = g + 1 := by
  obtain ⟨hE, b, hb, hmem⟩ := (h _ hlt g hg).mp hbit
  obtain rfl := hc.index_inj hb ha (congrArg Prod.fst hmem)
  exact ⟨hE, congrArg (fun m => m.2.1) hmem, congrArg (fun m => m.2.2) hmem⟩

/-- The group of a port that is in a bitmap is the one the database finds. -/
theorem tid_eq (h : BitmapsFollow E w) (hc : Coherent E w) (ha : a ∈ w.sys.ports) (hg : g < 32)
    (hlt : (w.port a).portIndex < 144) (hbit : groupBit w (w.port a).portIndex g = true) :
    stubDbAggGetPortTid w ((w.port a).portIndex / 8) ((w.port a).portIndex % 8 + 1) = g + 1 := by
  have hagg := (h.eq_aggId hc ha hg hlt hbit).2.2
  refine stubDbAggGetPortTid_eq hg hbit fun g' hg' hbit' => ?_
  have hagg' := (h.eq_aggId hc ha hg' hlt hbit').2.2
  omega

/-- A port joins a group: the bit is set, and the port was in no other group. -/
theorem join {slot port aggId : ℕ} {portPriority : UInt16} (h : BitmapsFollow E w)
    (hc : Coherent E w) (ha : a ∈ w.sys.ports)
    (hport : 1 ≤ port ∧ port ≤ 8) (haggId : 1 ≤ aggId)
    (hindex : (w.port a).portIndex = globalIndex slot port) (hE : E ⊆ {globalIndex slot port})
    (hok : (w.port a).lacpEnabled = true →
      stubDbAggGetPortTid w slot port = 0 ∨ stubDbAggGetPortTid w slot port = aggId)
    (hw : Update w w' w.sys {globalIndex slot port}
      (reconfigured a aggId (enablePort aggId portPriority)))
    (hgroups : w'.gLinkGroups = (stubDbAggAddMember w aggId slot port).gLinkGroups) :
    BitmapsFollow ∅ w' := by
  have hkept : ∀ b ∈ w.sys.ports, (w'.port b).portIndex = (w.port b).portIndex := by
    intro b hb
    rw [hw.port b hb]
    exact portIndex_of_core (reconfigured_core (u := enablePort _ _) (fun _ => rfl) _ _ _ _)
  intro i hi g hg
  rw [and_iff_right (Set.notMem_empty i), hw.ports]
  by_cases hia : i = globalIndex slot port
  · -- the bit of the port that joins
    subst hia
    have hself : (w'.port a).membership = (globalIndex slot port, true, aggId) := by
      rw [hw.port a ha, ← hindex]
      simp only [reconfigured, if_true]
      rfl
    rw [groupBit_addMember hport haggId hgroups]
    constructor
    · intro hcases
      refine ⟨a, ha, hself.trans ?_⟩
      rcases hcases with hold | rfl
      · -- the port was in the group before, and the database said so
        have hbit : groupBit w (w.port a).portIndex g = true := hindex ▸ hold
        have hlac := (h.eq_aggId hc ha hg (hindex ▸ hi) hbit).2.1
        have htid := h.tid_eq hc ha hg (hindex ▸ hi) hbit
        rw [hindex, globalIndex_div hport, globalIndex_mod hport] at htid
        rcases hok hlac with hzero | heq
        · omega
        · rw [← heq, htid]
      · rfl
    · rintro ⟨b, hb, hmem⟩
      have hbi : (w'.port b).portIndex = globalIndex slot port := congrArg Prod.fst hmem
      obtain rfl := hc.index_inj hb ha ((hkept b hb).symm.trans (hbi.trans hindex.symm))
      rw [hself] at hmem
      exact .inr (congrArg (fun m => m.2.2) hmem)
  · -- all other bits, and all other ports, are as they were
    have hbit : groupBit w' i g = groupBit w i g := hw.bits i hia g
    rw [hbit, h i hi g hg, and_iff_right fun hin => hia (hE hin)]
    refine exists_congr fun b => and_congr_right fun hb => ?_
    by_cases hba : b = a
    · subst hba
      have hne : ∀ p : LacpPort, p.portIndex = (w.port b).portIndex →
          p.membership ≠ (i, true, g + 1) := by
        intro p hp hmem
        have hpi : p.portIndex = i := congrArg Prod.fst hmem
        exact hia (hpi.symm.trans (hp.trans hindex))
      exact iff_of_false (hne _ rfl) (hne _ (hkept b hb))
    · rw [hw.port b hb, reconfigured_membership_of_ne hba]

/-- A new port runs no LACP, and no bitmap has its index. -/
theorem create (h : BitmapsFollow ∅ w) (hc : Coherent ∅ w) {sysMac : LacpMac}
    (hnew : ∀ a ∈ w.sys.ports, (w.port a).portIndex ≠ i) :
    BitmapsFollow {i} (withCreated w sysMac i) := by
  intro j hj g hg
  have hold := h j hj g hg
  rw [and_iff_right (Set.notMem_empty j)] at hold
  refine hold.trans ?_
  constructor
  · rintro ⟨a, ha, hmem⟩
    have haj : (w.port a).portIndex = j := congrArg Prod.fst hmem
    refine ⟨fun hji => hnew a ha (haj.trans hji), a, List.mem_cons_of_mem _ ha, ?_⟩
    rw [hc.withCreated_port ha]
    exact hmem
  · rintro ⟨hji, a, ha, hmem⟩
    rcases List.mem_cons.mp ha with rfl | ha
    · rw [withCreated_port_self] at hmem
      exact absurd (congrArg Prod.fst hmem).symm hji
    · rw [hc.withCreated_port ha] at hmem
      exact ⟨a, ha, hmem⟩

/-- Every effect keeps the two records in step. -/
theorem effect (h : BitmapsFollow E w) (hc : Coherent E w) (hrange : c.InRange)
    (hmax : ∀ slot port aggId sysMac, c = .portLacpEnable slot port aggId sysMac →
      globalIndex slot port < lacpPortMax)
    (heffect : Effect (fun w c => c.KeepsBitmaps w) c (E, w) (E', w')) : BitmapsFollow E' w' := by
  have hsame : w'.gLinkGroups = w.gLinkGroups → ∀ i g, groupBit w' i g = groupBit w i g := by
    intro heq i g
    rw [groupBit, groupBit, heq]
  cases heffect with
  | hop hop =>
    have hkeep : ∀ a, (w'.port a).membership = (w.port a).membership :=
      fun a => LacpPort.membership_of_settings (hop.settings_eq a)
    exact h.congr (by rw [hop.sys_eq]) (fun a _ => congrArg Prod.fst (hkeep a))
      (fun a _ _ => hkeep a) (hsame hop.gLinkGroups_eq)
  | rest hw hgroups =>
    refine h.update hw (fun _ _ => rfl) (hsame ?_)
    rcases hgroups with heq | ⟨slot, port, aggId, sysMac, hcall, hge⟩
    · exact heq
    · exact absurd (hmax _ _ _ _ hcall) (Nat.not_lt.mpr hge)
  | store => exact h.congr rfl (fun _ _ => rfl) (fun _ _ _ => rfl) (hsame rfl)
  | create _ _ hw =>
    obtain ⟨hnew, rfl⟩ := lacpPortCreate_eq_some hw
    exact h.create hc hnew
  | join hcall haggId ha hindex hE hq hok hw hgroups =>
    subst hcall
    exact h.join hc ha ⟨hrange.2.1, hrange.2.2.1⟩ haggId hindex hE (fun hlac => (hok hlac).2) hw
      hgroups
  | reselect _ _ _ hw _ hgroups =>
    exact h.update hw (fun _ _ => reconfigured_membership rfl) (hsame hgroups)
  | prio _ _ _ hw =>
    exact h.update hw (fun _ _ => reconfigured_membership rfl) fun i => hw.bits i (Set.notMem_empty i)
  | stat _ _ hw =>
    exact h.update hw (fun _ _ => onlyAt_membership rfl) fun i => hw.bits i (Set.notMem_empty i)
  | link _ _ _ _ hw =>
    exact h.update hw (fun _ _ => reconfigured_membership (linkChangedPort_membership _ _ _))
      fun i => hw.bits i (Set.notMem_empty i)
  | receive _ _ _ _ _ _ _ _ hw =>
    refine h.update hw (fun a p => ?_) fun i => hw.bits i (Set.notMem_empty i)
    simp only [received]
    split
    · rfl
    · split <;> rfl
  | setSys _ _ hw => exact h.update hw (fun _ _ => rfl) fun i => hw.bits i (Set.notMem_empty i)
  | tick _ _ hw => exact h.update hw (fun _ _ => rfl) fun i => hw.bits i (Set.notMem_empty i)
  | unlink _ _ _ _ hw hgroups =>
    -- the bits go first, the ports still run LACP
    intro i hi g hg
    by_cases hiE : i ∈ E'
    · have hoff : groupBit w' i g = false := hgroups i hiE hi g hg
      simp [hoff, hiE]
    · have hbit : groupBit w' i g = groupBit w i g := hw.bits i hiE g
      have hold := h i hi g hg
      rw [and_iff_right (Set.notMem_empty i)] at hold
      rw [hbit, hold, and_iff_right hiE, hw.ports]
      exact exists_congr fun a => and_congr_right fun ha => by rw [hw.port a ha]
  | notify _ _ _ hw =>
    exact h.update hw (fun _ _ => onlyAt_membership rfl) fun i => hw.bits i (Set.notMem_empty i)
  | leave _ ha hE _ _ hw =>
    refine h.congr hw.ports (fun b hb => ?_) (fun b hb hbE => ?_)
      fun i => hw.bits i (Set.notMem_empty i)
    · rw [hw.port b hb]
      exact portIndex_of_core (reconfigured_core (u := leavePort) (fun _ => rfl) _ _ _ _)
    · rw [hw.port b hb]
      exact reconfigured_membership_of_ne fun hba => hbE (hba ▸ hE)
  | remove _ _ _ hports hmem _ hw =>
    have hport : w'.port = w.port := by rw [hw]
    intro i hi g hg
    have hbit : groupBit w' i g = groupBit w i g := by
      rw [hw]
      rfl
    rw [hbit, h i hi g hg, and_iff_right (Set.notMem_empty i), hport]
    constructor
    · rintro ⟨hiE, a, ha, hm⟩
      have hai : (w.port a).portIndex = i := congrArg Prod.fst hm
      exact ⟨a, (hmem a ha).mpr (hai ▸ hiE), hm⟩
    · rintro ⟨a, ha, hm⟩
      have hai : (w.port a).portIndex = i := congrArg Prod.fst hm
      have ha' := hports.subset ha
      exact ⟨hai ▸ (hmem a ha').mp ha, a, ha', hm⟩

end BitmapsFollow

/-! ## Between two calls -/

/-- What the bitmaps say at rest. -/
theorem BitmapsFollow.databaseAgrees (h : BitmapsFollow ∅ w) (hc : Coherent ∅ w) : DatabaseAgrees w := by
  have hmember : ∀ slot < 18, ∀ port, 1 ≤ port → port ≤ 8 → ∀ g, 1 ≤ g → g ≤ 32 →
      (trunkGetPbmp slot port (stubDbAggGetMember w g) = true ↔
        ∃ a ∈ w.sys.ports, (w.port a).portIndex = globalIndex slot port ∧
          (w.port a).lacpEnabled = true ∧ (w.port a).aggId = g) := by
    intro slot hslot port hport hport' g hg hg'
    have hlt : globalIndex slot port < 144 := by
      simp only [globalIndex]
      omega
    have hbit := h (globalIndex slot port) hlt (g - 1) (by omega)
    rw [groupBit, globalIndex_div ⟨hport, hport'⟩, globalIndex_mod ⟨hport, hport'⟩,
      and_iff_right (Set.notMem_empty _), Nat.sub_add_cancel hg] at hbit
    refine hbit.trans (exists_congr fun a => and_congr_right fun _ => ?_)
    simp only [LacpPort.membership, Prod.mk.injEq]
  refine ⟨fun slot hslot port hport hport' g g' hg hg32 hg' hg32' hbit hbit' => ?_, hmember⟩
  obtain ⟨a, ha, hindex, -, rfl⟩ := (hmember slot hslot port hport hport' g hg hg32).mp hbit
  obtain ⟨b, hb, hindex', -, rfl⟩ := (hmember slot hslot port hport hport' g' hg' hg32').mp hbit'
  rw [hc.index_inj ha hb (hindex.trans hindex'.symm)]

/-- As long as every port that is enabled has an index of the engine and is in no other link group, the
database and the engine have the same members. -/
theorem reachableBy_databaseAgrees (h : ReachableBy (fun w c => c.KeepsBitmaps w) w) :
    DatabaseAgrees w := by
  have hfollow : BitmapsFollow ∅ w := by
    refine h.invariant_of_calls (Q := BitmapsFollow ∅)
      (P := fun w₀ c E w => c.KeepsBitmaps w₀ ∧ BitmapsFollow E w) (fun pid => ?_)
      (fun _ _ hfollow hok _ => ⟨hok, hfollow⟩) (fun hok hrange hc hP heffect => ⟨hok, ?_⟩)
      fun _ _ _ _ hP => hP.2
    · intro i _ g _
      refine iff_of_false ?_ fun hin => ?_
      · simp [groupBit, initWorld, trunkGetPbmp]
      · obtain ⟨-, a, ha, -⟩ := hin
        cases ha
    · refine hP.2.effect hc hrange ?_ heffect
      rintro slot port aggId sysMac rfl
      exact hok.1
  exact hfollow.databaseAgrees h.coherent.1

theorem aggregationRun_databaseAgrees :
    ∃ w, ReachableBy (fun w c => c.KeepsBitmaps w) w ∧
      trunkGetPbmp 0 1 (stubDbAggGetMember w 1) = true ∧ DatabaseAgrees w := by
  have hrun : (runCalls (fun w c => decide (c.KeepsBitmaps w)) 25 (initWorld 77)
      aggregationRun).any (fun w => trunkGetPbmp 0 1 (stubDbAggGetMember w 1)) = true := by
    decide +kernel
  obtain ⟨w, h, _, hbit⟩ := exists_reachableBy_of_runCalls (R := fun w c => c.KeepsBitmaps w)
    (by decide) (fun _ _ htest => of_decide_eq_true htest) hrun
  exact ⟨w, h, hbit, reachableBy_databaseAgrees h⟩

/-- Port 1 of slot 0 moves from link group 1 to link group 2, and stays in the bitmap of the first. -/
theorem not_reachable_databaseAgrees : ¬ ∀ w, Reachable w → DatabaseAgrees w := by
  have hrun : (runCalls (fun _ _ => true) 25 (initWorld 77)
      [.portLacpEnable 0 1 1 .zero, .portLacpEnable 0 1 2 .zero]).any
        (fun w => trunkGetPbmp 0 1 (stubDbAggGetMember w 1) &&
          trunkGetPbmp 0 1 (stubDbAggGetMember w 2)) = true := by
    decide +kernel
  obtain ⟨w, h, _, hbits⟩ := exists_reachableBy_of_runCalls (R := fun _ _ => True) (by decide)
    (fun _ _ _ => trivial) hrun
  obtain ⟨hbit, hbit'⟩ := Bool.and_eq_true_iff.mp hbits
  intro hall
  exact absurd ((hall w h).unique 0 (by decide) 1 (by decide) (by decide) 1 2 (by decide) (by decide)
    (by decide) (by decide) hbit hbit') (by decide)

end Lacp
