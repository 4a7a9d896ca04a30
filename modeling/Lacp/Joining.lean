import Lacp.Database
import Lacp.Totality

/-!
# Joining a link group

Reference: `trunk_port_lacp_enable`, `lacp_create_ports` and `lacp_port_link_change`.

`trunk_port_lacp_enable` creates the port, sets the bit in the database, configures the port and passes
the link status on. Only the last step reports an error, that the engine has no such port, and nothing
is undone then. An index below `LACP_PORT_MAX` is always found there, because the first step has created
it. Any other index is refused after the database has changed, so joining is all or nothing exactly for
the indices of the engine (`reachable_joinsWhole`).
-/

namespace Lacp

open Fuel (Returns)
open Relation (ReflTransGen)

/-- A call of `trunk_port_lacp_enable` that leads from `w` to `w'` with the return value `ret` is all or
nothing. -/
structure JoinsWhole (slot port aggId : ℕ) (w w' : World) (ret : LacpRet) : Prop where
  joined : ret = .ok →
    (∃ a ∈ w'.sys.ports, (w'.port a).portIndex = globalIndex slot port ∧
      (w'.port a).lacpEnabled = true ∧ (w'.port a).aggId = aggId) ∧
    trunkGetPbmp slot port (stubDbAggGetMember w' aggId) = true
  refused : ret ≠ .ok → w'.gLinkGroups = w.gLinkGroups ∧ w'.sys.ports = w.sys.ports ∧
    ∀ a ∈ w.sys.ports, w'.port a = w.port a

/-- The port at `a` runs LACP in link group `aggId` under the index `i`, and the database agrees. -/
structure MemberAt (i aggId : ℕ) (a : Addr) (w : World) : Prop where
  listed : a ∈ w.sys.ports
  membership : (w.port a).membership = (i, true, aggId)
  bit : groupBit w i (aggId - 1) = true

variable {E : Set ℕ} {w w' u v : World} {a : Addr} {i slot port aggId fuel : ℕ} {sysMac : LacpMac}

namespace MemberAt

theorem portIndex (h : MemberAt i aggId a w) : (w.port a).portIndex = i :=
  congrArg Prod.fst h.membership

/-- A write that keeps the membership of the ports, and the bit. -/
theorem update {s : LacpSys} {t : Set ℕ} {f : Addr → LacpPort → LacpPort} (h : MemberAt i aggId a w)
    (hw : Update w w' s t f) (hf : ∀ b p, (f b p).membership = p.membership) (hi : i ∉ t) :
    MemberAt i aggId a w' where
  listed := hw.ports ▸ h.listed
  membership := by rw [hw.port a h.listed, hf, h.membership]
  bit := (hw.bits i hi (aggId - 1)).trans h.bit

/-- The engine changes no membership. -/
theorem hops (h : MemberAt i aggId a w) (hhops : ReflTransGen OrderedHop w w') :
    MemberAt i aggId a w' := by
  induction hhops with
  | refl => exact h
  | tail _ hop ih =>
    refine ⟨hop.engineHop.sys_eq ▸ ih.listed, ?_, ?_⟩
    · rw [LacpPort.membership_of_settings (hop.engineHop.settings_eq a), ih.membership]
    · rw [groupBit, hop.engineHop.gLinkGroups_eq]
      exact ih.bit

theorem lockDepth (h : MemberAt i aggId a w) (d : ℤ) : MemberAt i aggId a { w with lockDepth := d } :=
  ⟨h.listed, h.membership, h.bit⟩

/-- After the write of a port that joins. -/
theorem of_join (hport : 1 ≤ port ∧ port ≤ 8) (haggId : 1 ≤ aggId) (ha : a ∈ w.sys.ports)
    (hindex : (w.port a).portIndex = globalIndex slot port) {prio : UInt16} {t : Set ℕ}
    (hw : Update w w' w.sys t (reconfigured a aggId (enablePort aggId prio)))
    (hgroups : w'.gLinkGroups = (stubDbAggAddMember w aggId slot port).gLinkGroups) :
    MemberAt (globalIndex slot port) aggId a w' where
  listed := hw.ports ▸ ha
  membership := by
    rw [hw.port a ha, ← hindex]
    simp only [reconfigured, if_true]
    rfl
  bit := (groupBit_addMember hport haggId hgroups).mpr (.inr (by omega))

end MemberAt

/-! ## The three steps -/

/-- With an index of the engine the port is there when `lacp_create_ports` returns. -/
theorem exists_listed_of_create (h : Coherent ∅ w) (hq : Quiescent w)
    (hlt : globalIndex slot port < lacpPortMax)
    (hrun : lacpCreatePorts fuel w (fun _ => sysMac) (portBit (globalIndex slot port)) = some u) :
    ∃ E ⊆ {globalIndex slot port}, Coherent E u ∧ Quiescent u ∧
      ∃ a ∈ u.sys.ports, (u.port a).portIndex = globalIndex slot port := by
  rcases lacpCreatePorts_eq_some (R := fun _ _ => True) (c := .portLacpEnable slot port 1 sysMac) h hq
      trivial rfl rfl hrun with
    ⟨rfl, hlisted⟩ | ⟨heffects, hq', -, a, ha, hindex, -⟩
  · refine ⟨∅, Set.empty_subset _, h, hq, ?_⟩
    rcases hlisted with hmax | hlisted
    · omega
    · exact hlisted
  · exact ⟨_, subset_rfl, h.effects heffects, hq', a, ha, hindex⟩

/-- The port is there, and `trunk_port_lacp_enable` calls `lacp_port_set_cfg` for it, which leads from `u`
to `v`. -/
structure JoinStep (fuel slot port aggId : ℕ) (sysMac : LacpMac) (E : Set ℕ) (u v : World) (a : Addr) :
    Prop where
  coherent : Coherent E u
  quiescent : Quiescent u
  disturbed : E ⊆ {globalIndex slot port}
  port_range : 1 ≤ port ∧ port ≤ 8
  aggId_pos : 1 ≤ aggId
  listed : a ∈ u.sys.ports
  portIndex : (u.port a).portIndex = globalIndex slot port
  run : lacpPortSetCfg fuel (stubDbAggAddMember u aggId slot port) (joinCfg (globalIndex slot port)
    aggId ((Call.portLacpEnable slot port aggId sysMac).newPriority u (globalIndex slot port))) = some v

/-- `lacp_port_set_cfg` on a port that joins is one write, after which the engine runs. -/
theorem JoinStep.exists_hops (h : JoinStep fuel slot port aggId sysMac E u v a) :
    ∃ x y, Update u x u.sys {globalIndex slot port} (reconfigured a aggId (enablePort aggId
        ((Call.portLacpEnable slot port aggId sysMac).newPriority u (globalIndex slot port)))) ∧
      x.gLinkGroups = (stubDbAggAddMember u aggId slot port).gLinkGroups ∧
      x.gPortList = u.gPortList ∧ ReflTransGen OrderedHop x y ∧ Coherent ∅ y ∧ Quiescent y ∧
      v = lacpCriticalPathEnd y := by
  obtain ⟨x, hw, hgroups, hattr, hcfg⟩ :=
    exists_update_join h.coherent h.port_range h.aggId_pos h.listed h.portIndex
      ((Call.portLacpEnable slot port aggId sysMac).newPriority u (globalIndex slot port))
  have hjoin : Effect (fun _ _ => True) (.portLacpEnable slot port aggId sysMac) (E, u) (∅, x) :=
    .join rfl h.aggId_pos h.listed h.portIndex h.disturbed h.quiescent (fun _ => trivial) hw hgroups
      hattr rfl
  have hx := h.coherent.effect hjoin
  have hrun := h.run
  rw [hcfg] at hrun
  obtain ⟨y, hupdate, rfl⟩ := Option.map_eq_some_iff.mp hrun
  obtain ⟨hhops, hqy, -⟩ := lacpSysUpdate_spec hx.idle hupdate
  exact ⟨x, y, hw, hgroups, hattr, hhops, hx.hops hhops, hqy, rfl⟩

/-- `lacp_port_set_cfg` makes the port a member. -/
theorem JoinStep.memberAt (h : JoinStep fuel slot port aggId sysMac E u v a) :
    Coherent ∅ v ∧ MemberAt (globalIndex slot port) aggId a v := by
  obtain ⟨x, y, hw, hgroups, -, hhops, hy, -, rfl⟩ := h.exists_hops
  have hwritten := MemberAt.of_join h.port_range h.aggId_pos h.listed h.portIndex hw hgroups
  have hmember := hwritten.hops hhops
  exact ⟨hy.update (update_lockDepth y ∅ _) (fun _ _ => rfl) hy.port, hmember.lockDepth _⟩

/-- `lacp_port_link_change` on a port that is there: nothing, or one write after which the engine runs. -/
theorem exists_hops_of_lacpPortLinkChange (h : Coherent ∅ v) (ha : a ∈ v.sys.ports)
    (hindex : (v.port a).portIndex = i) {linkStatus : UInt32} {ret : LacpRet}
    (hrun : lacpPortLinkChange fuel v i linkStatus = some (w', ret)) :
    ret = .ok ∧
      (((if (v.port a).portEnabled then 1 else 0) == linkStatus) = true ∧
          w' = lacpCriticalPathEnd (lacpCriticalPathStart v) ∨
        ((if (v.port a).portEnabled then 1 else 0) == linkStatus) = false ∧
          ∃ x y, Update v x v.sys ∅ (reconfigured a (v.port a).aggId
              fun p => linkChangedPort (v.gPortList p.portIndex) linkStatus p) ∧
            ReflTransGen OrderedHop x y ∧ w' = lacpCriticalPathEnd y) := by
  have hfind : lacpPortFind (lacpCriticalPathStart v) i = some a := by
    rw [← hindex]
    exact h.lacpPortFind_eq ha
  simp only [lacpPortLinkChange, hfind] at hrun
  by_cases hsame : ((if (v.port a).portEnabled then 1 else 0) == linkStatus) = true
  · obtain ⟨rfl, rfl⟩ := Prod.mk.inj (Option.some.inj ((if_pos hsame).symm.trans hrun))
    exact ⟨rfl, .inl ⟨hsame, rfl⟩⟩
  · obtain ⟨y, hupdate, hend⟩ := Option.map_eq_some_iff.mp ((if_neg hsame).symm.trans hrun)
    obtain ⟨rfl, rfl⟩ := Prod.mk.inj hend
    have hlac := (h.port a ha).enabled (Set.notMem_empty _)
    have hagg : ∀ attr, (linkChangedPort attr linkStatus (v.port a)).aggId = (v.port a).aggId :=
      fun attr => congrArg (fun m => m.2.2) (linkChangedPort_membership attr linkStatus (v.port a))
    have hstarted : Idle (lacpCriticalPathStart v) := h.idle
    have hwrite := update_modify_reselect (w := lacpCriticalPathStart v) (a := a)
      (u := fun p => linkChangedPort (v.gPortList p.portIndex) linkStatus p)
      (h.aggId_ne_zero ha hlac) (hagg _)
    have hidle := hstarted.update hwrite
      fun b p => reconfigured_core (fun p => linkChangedPort_core _ _ p) _ _ _ _
    obtain ⟨hhops, -, -⟩ := lacpSysUpdate_spec hidle hupdate
    exact ⟨rfl, .inr ⟨Bool.eq_false_of_not_eq_true hsame, _, y,
      (update_lockDepth v ∅ _).trans hwrite subset_rfl, hhops, rfl⟩⟩

/-- `lacp_port_link_change` finds a member, and succeeds. -/
theorem lacpPortLinkChange_of_memberAt (h : Coherent ∅ v) (hmember : MemberAt i aggId a v)
    {linkStatus : UInt32} {ret : LacpRet}
    (hrun : lacpPortLinkChange fuel v i linkStatus = some (w', ret)) :
    ret = .ok ∧ MemberAt i aggId a w' := by
  obtain ⟨hret, ⟨-, rfl⟩ | ⟨-, x, y, hw, hhops, rfl⟩⟩ :=
    exists_hops_of_lacpPortLinkChange h hmember.listed hmember.portIndex hrun
  · exact ⟨hret, (hmember.lockDepth _).lockDepth _⟩
  · have hwritten := hmember.update hw
      (fun b p => reconfigured_membership (linkChangedPort_membership _ _ _)) (Set.notMem_empty i)
    exact ⟨hret, (hwritten.hops hhops).lockDepth _⟩

/-! ## The whole call -/

/-- An index of the engine joins. -/
theorem joined_of_trunkPortLacpEnable (h : Coherent ∅ w) (hq : Quiescent w)
    (hport : 1 ≤ port ∧ port ≤ 8) (haggId : 1 ≤ aggId) (hlt : globalIndex slot port < lacpPortMax)
    {ret : LacpRet} (hrun : trunkPortLacpEnable fuel w slot port aggId sysMac = some (w', ret)) :
    ret = .ok ∧ ∃ a, MemberAt (globalIndex slot port) aggId a w' := by
  simp only [trunkPortLacpEnable, trunkSspGetGlobalIndex_eq hport.1, trunkPortGetPrio,
    Option.map_some, Option.bind_eq_bind, Option.bind_eq_some_iff] at hrun
  obtain ⟨u, hcreate, v, hcfg, hlink⟩ := hrun
  obtain ⟨E, hE, hu, hqu, a, ha, hindex⟩ := exists_listed_of_create h hq hlt hcreate
  have hstep : JoinStep fuel slot port aggId sysMac E u v a :=
    ⟨hu, hqu, hE, hport, haggId, ha, hindex, hcfg⟩
  obtain ⟨hv, hmember⟩ := hstep.memberAt
  obtain ⟨hret, hmember'⟩ := lacpPortLinkChange_of_memberAt hv hmember hlink
  exact ⟨hret, a, hmember'⟩

/-- Any other index is refused, after it has been counted as a member of the group. -/
theorem refused_of_trunkPortLacpEnable (aggId : ℕ) (sysMac : LacpMac) (h : Coherent ∅ w)
    (hq : Quiescent w) (hport : 1 ≤ port ∧ port ≤ 8) (hge : lacpPortMax ≤ globalIndex slot port) :
    ∃ w', trunkPortLacpEnable 1 w slot port aggId sysMac = some (w', .notEnable) ∧
      w'.gLinkGroups = (stubDbAggAddMember w aggId slot port).gLinkGroups := by
  have habsent : ∀ a ∈ w.sys.ports, (w.port a).portIndex ≠ globalIndex slot port := by
    intro a ha hindex
    have hlt := h.index_lt a ha
    omega
  have hupdate : ∀ {v : World} {t : Set ℕ}, Update w v w.sys t (fun _ p => p) →
      lacpSysUpdate 1 v = some v := fun hw =>
    lacpSysUpdate_succ (h.idle.update hw fun _ _ => rfl) (hq.update hw)
  have hcreate : lacpCreatePorts 1 w (fun _ => sysMac) (portBit (globalIndex slot port)) = some w := by
    rcases lacpCreatePorts_eq (R := fun _ _ => True) (c := .portLacpEnable slot port aggId sysMac)
      trivial rfl rfl with ⟨hrun, -⟩ | ⟨u, hrun, he, hmem, hnew, -⟩
    · rw [hrun]
      exact hupdate (update_lockDepth w ∅ w.lockDepth)
    · have hlt := (h.effects he).index_lt w.brk hmem
      rw [hnew] at hlt
      exact absurd hlt (Nat.not_lt.mpr hge)
  -- nothing is configured, and the engine has nothing to do
  have hadd : Update w (stubDbAggAddMember w aggId slot port) w.sys {globalIndex slot port}
      fun _ p => p := update_stubDbAggAddMember aggId hport
  set v := stubDbAggAddMember w aggId slot port with hv
  have hcfg : lacpPortSetCfg 1 v (joinCfg (globalIndex slot port) aggId
      ((Call.portLacpEnable slot port aggId sysMac).newPriority w (globalIndex slot port))) =
        some (lacpCriticalPathEnd (lacpCriticalPathStart v)) := by
    have hadded : Coherent ∅ v := h.update hadd (fun _ _ => rfl) h.port
    rcases lacpPortSetCfg_eq hadded (joinCfg (globalIndex slot port) aggId
      ((Call.portLacpEnable slot port aggId sysMac).newPriority w (globalIndex slot port))) rfl with
      ⟨-, hrun⟩ | ⟨a, ha, hindex, -⟩
    · have hstart : lacpSysUpdate 1 (lacpCriticalPathStart v) = some (lacpCriticalPathStart v) :=
        hupdate (hadd.trans (update_lockDepth v ∅ _) (Set.empty_subset _))
      rw [hrun, hstart, Option.map_some]
    · exact absurd hindex (habsent a ha)
  have hfind : lacpPortFind (lacpCriticalPathStart (lacpCriticalPathEnd (lacpCriticalPathStart v)))
      (globalIndex slot port) = none := lacpPortFind_eq_none.mpr habsent
  refine ⟨lacpCriticalPathStart (lacpCriticalPathEnd (lacpCriticalPathStart v)), ?_, rfl⟩
  simp only [trunkPortLacpEnable, trunkSspGetGlobalIndex_eq hport.1, trunkPortGetPrio,
    Option.map_some, Option.bind_eq_bind, hcreate, Option.bind_some]
  refine Option.bind_eq_some_iff.mpr ⟨_, hcfg, ?_⟩
  simp only [lacpPortLinkChange, hfind]

/-- Joining is all or nothing exactly for the indices of the engine. With non-zero periods the call
returns. -/
theorem reachable_joinsWhole (w : World) (h : Reachable w) (slot port aggId : ℕ) (sysMac : LacpMac)
    (hrange : (Call.portLacpEnable slot port aggId sysMac).InRange) :
    ((∀ fuel w' ret, trunkPortLacpEnable fuel w slot port aggId sysMac = some (w', ret) →
        JoinsWhole slot port aggId w w' ret) ↔ globalIndex slot port < lacpPortMax) ∧
      (Periodic w → Returns fun fuel => trunkPortLacpEnable fuel w slot port aggId sysMac) := by
  obtain ⟨hcoherent, hq⟩ := h.coherent
  obtain ⟨hslot, hport, hport', haggId, haggId'⟩ := hrange
  refine ⟨⟨fun hwhole => ?_, fun hlt fuel w' ret hrun => ?_⟩, fun hp => ?_⟩
  · by_contra hge
    obtain ⟨w', hrun, hgroups⟩ := refused_of_trunkPortLacpEnable aggId sysMac
      hcoherent hq ⟨hport, hport'⟩ (Nat.le_of_not_lt hge)
    obtain ⟨hkept, -, -⟩ := (hwhole 1 w' .notEnable hrun).refused (by decide)
    -- the call counts the port as a member and fails
    have hcnt := congrArg (fun groups => (groups (aggId - 1)).cnt) (hgroups.symm.trans hkept)
    simp [stubDbAggAddMember] at hcnt
  · obtain ⟨rfl, a, hmember⟩ := joined_of_trunkPortLacpEnable hcoherent hq ⟨hport, hport'⟩ haggId hlt
      hrun
    refine ⟨fun _ => ⟨⟨a, hmember.listed, hmember.portIndex, ?_, ?_⟩, ?_⟩, fun hne => absurd rfl hne⟩
    · exact congrArg (fun m => m.2.1) hmember.membership
    · exact congrArg (fun m => m.2.2) hmember.membership
    · have hbit := hmember.bit
      rwa [groupBit, globalIndex_div ⟨hport, hport'⟩, globalIndex_mod ⟨hport, hport'⟩] at hbit
  · exact returns_trunkPortLacpEnable hcoherent hq hp ⟨hport, hport'⟩ haggId

/-- Port 3 of slot 0 joins the link group in which two ports forward. -/
theorem aggregationRun_joinsWhole : ∃ w fuel w' ret, Reachable w ∧ (w.port 0).mux.state = .rxTx ∧
    trunkPortLacpEnable fuel w 0 3 1 .zero = some (w', ret) ∧ JoinsWhole 0 3 1 w w' ret := by
  have hrun : (runCalls (fun _ _ => true) 25 (initWorld 77) aggregationRun).any (fun w =>
      decide ((w.port 0).mux.state = .rxTx) && w.sys.fastPeriodicTime != 0
        && w.sys.slowPeriodicTime != 0) = true := by
    decide +kernel
  obtain ⟨w, h, _, hw⟩ := exists_reachableBy_of_runCalls (R := fun _ _ => True) (by decide)
    (fun _ _ _ => trivial) hrun
  simp only [Bool.and_eq_true, decide_eq_true_iff, bne_iff_ne] at hw
  obtain ⟨⟨hmux, hfast⟩, hslow⟩ := hw
  obtain ⟨hwhole, hreturns⟩ := reachable_joinsWhole w h 0 3 1 .zero (by decide)
  obtain ⟨⟨w', ret⟩, hresult⟩ := hreturns ⟨hfast, hslow⟩
  obtain ⟨fuel, hrun⟩ := hresult.exists_eq_some
  exact ⟨w, fuel, w', ret, h, hmux, hrun, hwhole.mpr (by decide) fuel w' ret hrun⟩

/-- Port 5 of slot 0 has the index `LACP_PORT_MAX`: the call fails, and the port stays in the bitmap. -/
theorem not_reachable_joinsWhole : ¬ ∀ w, Reachable w → ∀ slot port aggId sysMac,
    (Call.portLacpEnable slot port aggId sysMac).InRange → ∀ fuel w' ret,
      trunkPortLacpEnable fuel w slot port aggId sysMac = some (w', ret) →
        JoinsWhole slot port aggId w w' ret := by
  have hrun : (trunkPortLacpEnable 1 (initWorld 77) 0 5 1 .zero).any (fun s =>
      decide (s.2 = .notEnable) && trunkGetPbmp 0 5 (stubDbAggGetMember s.1 1)) = true := by
    decide +kernel
  intro hall
  cases hresult : trunkPortLacpEnable 1 (initWorld 77) 0 5 1 .zero with
  | none => simp [hresult] at hrun
  | some s =>
    obtain ⟨w', ret⟩ := s
    rw [hresult, Option.any_some, Bool.and_eq_true, decide_eq_true_iff] at hrun
    obtain ⟨rfl, hbit⟩ := hrun
    have hwhole := hall (initWorld 77) (.init 77) 0 5 1 .zero (by decide) 1 w' _ hresult
    have hgroups := (hwhole.refused (by decide)).1
    rw [stubDbAggGetMember, hgroups] at hbit
    simp [initWorld, trunkGetPbmp] at hbit

end Lacp
