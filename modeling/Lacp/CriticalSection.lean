import Lacp.Reachability

/-!
# The critical section

Reference: `LACP/lacp_api.h` (the definition of `LACP_CRITICAL_PATH_START` outside `__LINUX__`),
`LACP/lacp_api.c`.

The engine never touches the lock, from any world at all: `lacpSysUpdate_surroundings` needs no
invariant. So the depth an entry point returns with is decided by the path it takes through its own
body, and one path of the five lacks its `LACP_CRITICAL_PATH_END`.
-/

namespace Lacp

/-! ## What the engine leaves alone -/

/-- The worlds differ in nothing but what the machines work on: the ports, but not their indices, the
hardware table and the history. -/
structure SameSurroundings (w w' : World) : Prop where
  sys : w'.sys = w.sys
  portIndex : ∀ a, (w'.port a).portIndex = (w.port a).portIndex
  brk : w'.brk = w.brk
  gLinkGroups : w'.gLinkGroups = w.gLinkGroups
  gSysPrio : w'.gSysPrio = w.gSysPrio
  pid : w'.pid = w.pid
  lockDepth : w'.lockDepth = w.lockDepth

theorem SameSurroundings.refl (w : World) : SameSurroundings w w :=
  ⟨rfl, fun _ => rfl, rfl, rfl, rfl, rfl, rfl⟩

theorem SameSurroundings.trans {u v w : World} (huv : SameSurroundings u v)
    (hvw : SameSurroundings v w) : SameSurroundings u w where
  sys := hvw.sys.trans huv.sys
  portIndex := fun a => (hvw.portIndex a).trans (huv.portIndex a)
  brk := hvw.brk.trans huv.brk
  gLinkGroups := hvw.gLinkGroups.trans huv.gLinkGroups
  gSysPrio := hvw.gSysPrio.trans huv.gSysPrio
  pid := hvw.pid.trans huv.pid
  lockDepth := hvw.lockDepth.trans huv.lockDepth

theorem SameSurroundings.frame (w : World) {port : Addr → LacpPort} (gPortList : ℕ → PortAttr)
    (trace : List Event) (hindex : ∀ a, (port a).portIndex = (w.port a).portIndex) :
    SameSurroundings w { w with port := port, gPortList := gPortList, trace := trace } :=
  ⟨rfl, hindex, rfl, rfl, rfl, rfl, rfl⟩

/-- Assigning to a port leaves the surroundings alone if its index is kept. -/
theorem SameSurroundings.modify (w : World) (a : Addr) {f : LacpPort → LacpPort}
    (hf : ∀ p, (f p).portIndex = p.portIndex) : SameSurroundings w (w.modify a f) := by
  refine .frame w _ _ fun b => ?_
  by_cases hb : b = a
  · rw [if_pos hb, hf, hb]
  · rw [if_neg hb]

section Engine

variable {w w' : World}

theorem lacpRxEnterState_surroundings (w : World) (a : Addr) :
    SameSurroundings w (lacpRxEnterState w a) := by
  rw [lacpRxEnterState_frame]
  refine .frame w _ _ fun b => ?_
  rw [lacpRxEnterState_port]
  split
  · rename_i hb
    subst hb
    unfold rxEntered
    split <;> rfl
  · split <;> rfl

theorem lacpSelEnterState_surroundings (w : World) (a : Addr) :
    SameSurroundings w (lacpSelEnterState w a) := by
  unfold lacpSelEnterState selectionLogic
  split
  · exact .modify w a fun _ => rfl
  · exact .modify w a fun _ => rfl
  · split
    · exact .modify w a fun _ => rfl
    · split
      · exact .refl w
      · refine ⟨rfl, fun b => ?_, rfl, rfl, rfl, rfl, rfl⟩
        rw [updateAggPortsSelect_port]
        split <;> rfl

theorem lacpMuxEnterState_surroundings (w : World) (a : Addr) :
    SameSurroundings w (lacpMuxEnterState w a) := by
  rw [lacpMuxEnterState_frame]
  refine .frame w _ _ fun b => ?_
  rw [lacpMuxEnterState_port]
  split
  · rename_i hb
    subst hb
    unfold muxEntered
    split <;> rfl
  · rfl

theorem lacpTxEnterState_surroundings (w : World) (a : Addr) :
    SameSurroundings w (lacpTxEnterState w a) := by
  rw [lacpTxEnterState_frame]
  refine .frame w _ _ fun b => ?_
  rw [lacpTxEnterState_port]
  split
  · rename_i hb
    subst hb
    unfold txEntered
    split <;> rfl
  · rfl

theorem concreteEnterState_surroundings (w : World) (a : Addr) (m : Machine) :
    SameSurroundings w (concreteEnterState w a m) := by
  have hlog : SameSurroundings w (w.log (.enter m (w.port a))) := .frame w _ _ fun _ => rfl
  cases m with
  | rx => exact hlog.trans (lacpRxEnterState_surroundings _ a)
  | sel => exact hlog.trans (lacpSelEnterState_surroundings _ a)
  | mux => exact hlog.trans (lacpMuxEnterState_surroundings _ a)
  | tx => exact hlog.trans (lacpTxEnterState_surroundings _ a)

theorem lacpCheckCondition_surroundings {a : Addr} {m : Machine}
    (h : lacpCheckCondition w a m = some w') : SameSurroundings w w' := by
  cases m
  all_goals
    obtain ⟨s, _, rfl⟩ := Option.map_eq_some_iff.mp h
    exact .modify w a fun _ => rfl

theorem clearChangeState_surroundings (w : World) (a : Addr) (m : Machine) :
    SameSurroundings w (clearChangeState w a m) :=
  .modify w a fun _ => by cases m <;> rfl

theorem lacpChangeState_surroundings {n : ℕ} {fsm : Addr × Machine}
    (h : lacpChangeState n w fsm = some w') : SameSurroundings w w' := by
  induction n generalizing w with
  | zero => cases h
  | succ n ih =>
    unfold lacpChangeState at h
    split at h
    · dsimp only at h
      set u := clearChangeState (concreteEnterState w fsm.1 fsm.2) fsm.1 fsm.2
      have henter : SameSurroundings w u :=
        (concreteEnterState_surroundings w fsm.1 fsm.2).trans (clearChangeState_surroundings _ _ _)
      cases hcheck : lacpCheckCondition u fsm.1 fsm.2 with
      | none =>
        rw [hcheck, Option.getD_none] at h
        exact henter.trans (ih h)
      | some v =>
        rw [hcheck, Option.getD_some] at h
        exact henter.trans ((lacpCheckCondition_surroundings hcheck).trans (ih h))
    · obtain rfl := Option.some.inj h
      exact .refl w

/-- The engine leaves its surroundings alone, whatever world it starts in. -/
theorem lacpSysUpdate_surroundings {n : ℕ} (h : lacpSysUpdate n w = some w') :
    SameSurroundings w w' := by
  induction n generalizing w with
  | zero => cases h
  | succ n ih =>
    unfold lacpSysUpdate at h
    cases hfind : (lacpMachines w).findSome? fun fsm => lacpCheckCondition w fsm.1 fsm.2 with
    | none =>
      rw [hfind] at h
      obtain rfl := Option.some.inj h
      exact .refl w
    | some u =>
      rw [hfind] at h
      obtain ⟨v, hround, hrest⟩ := Option.bind_eq_some_iff.mp h
      obtain ⟨fsm, _, hcheck⟩ := List.exists_of_findSome?_eq_some hfind
      have hmachines : SameSurroundings w v :=
        Fuel.foldlM_invariant (P := SameSurroundings w)
          (fun _ _ _ _ hs hstep => hs.trans (lacpChangeState_surroundings hstep))
          (lacpCheckCondition_surroundings hcheck) hround
      exact hmachines.trans (ih hrest)

end Engine

/-! ## `lacp_sys_set_cfg` in two parts -/

/-- The world after the additions of `lacp_sys_set_cfg`. -/
def sysCfgAdded (w : World) (sysMac : ℕ → LacpMac) (cfg : LacpSysCfg) : World :=
  if cfg.cfgPbmpAdd then
    (List.range lacpPortMax).foldl (addPortIndex sysMac cfg.ports) (lacpCriticalPathStart w)
  else lacpCriticalPathStart w

/-- What `lacp_sys_set_cfg` changes itself, before the propagation and the engine. -/
def sysCfgChanged (w : World) (sysMac : ℕ → LacpMac) (cfg : LacpSysCfg) : Option World :=
  let w := sysCfgAdded w sysMac cfg
  if cfg.cfgPbmpDel then (List.range lacpPortMax).foldlM (delPortIndex cfg.ports) w
  else some { w with sys := setSysScalar w.sys cfg }

theorem lacpSysSetCfg_eq (fuel : ℕ) (w : World) (sysMac : ℕ → LacpMac) (cfg : LacpSysCfg) :
    lacpSysSetCfg fuel w sysMac cfg = (sysCfgChanged w sysMac cfg).bind fun v =>
      (lacpSysUpdate fuel (lacpPortUpdateInfo v)).map lacpCriticalPathEnd := by
  simp only [lacpSysSetCfg, sysCfgChanged]
  by_cases hdel : cfg.cfgPbmpDel = true
  · rw [if_pos hdel, if_pos hdel]
    refine Option.bind_congr fun v _ => ?_
    exact (Option.map_eq_bind (f := lacpCriticalPathEnd)).symm
  · rw [if_neg hdel, if_neg hdel]
    exact (Option.map_eq_bind (f := lacpCriticalPathEnd)).symm

/-! ## The lock depth -/

section Depth

variable {w w' : World}

theorem lacpPortSetReselect_lockDepth (w : World) (a : Addr) :
    (lacpPortSetReselect w (some a)).lockDepth = w.lockDepth := by
  simp only [lacpPortSetReselect]
  split <;> rfl

theorem cfgPortState_lockDepth {fuel : ℕ} {cfg : LacpPortCfg} {a : Addr}
    (h : cfgPortState fuel cfg w a = some w') : w'.lockDepth = w.lockDepth := by
  unfold cfgPortState at h
  split at h
  · obtain rfl := Option.some.inj h
    exact lacpPortSetReselect_lockDepth _ a
  · obtain ⟨v, hrun, rfl⟩ := Option.map_eq_some_iff.mp h
    exact (lacpPortSetReselect_lockDepth v a).trans (lacpSysUpdate_surroundings hrun).lockDepth

theorem cfgPort_lockDepth {fuel : ℕ} {cfg : LacpPortCfg} {a : Addr}
    (h : cfgPort fuel cfg w a = some w') : w'.lockDepth = w.lockDepth := by
  obtain ⟨v, hstate, rfl⟩ := Option.map_eq_some_iff.mp h
  have hv : v.lockDepth = w.lockDepth := by
    split at hstate
    · exact cfgPortState_lockDepth hstate
    · rw [← Option.some.inj hstate]
  rw [← hv]
  simp only [cfgPortPrio, cfgPortStat]
  split <;> split <;> split <;> simp only [lacpPortSetReselect_lockDepth, World.modify]

theorem cfgPortIndex_lockDepth {fuel : ℕ} {cfg : LacpPortCfg} {i : ℕ}
    (h : cfgPortIndex fuel cfg w i = some w') : w'.lockDepth = w.lockDepth := by
  unfold cfgPortIndex at h
  split at h
  · rw [← Option.some.inj h]
  · split at h
    · rw [← Option.some.inj h]
    · exact cfgPort_lockDepth h

theorem addPortIndex_lockDepth (sysMac : ℕ → LacpMac) (ports : LacpBitmap) (w : World) (i : ℕ) :
    (addPortIndex sysMac ports w i).lockDepth = w.lockDepth := by
  unfold addPortIndex
  split
  · unfold lacpPortCreate
    split <;> rfl
  · rfl

theorem delPortIndex_lockDepth {ports : LacpBitmap} {i : ℕ}
    (h : delPortIndex ports w i = some w') : w'.lockDepth = w.lockDepth := by
  unfold delPortIndex at h
  split at h
  · obtain ⟨a, _, rfl⟩ := Option.map_eq_some_iff.mp h
    rfl
  · rw [← Option.some.inj h]

theorem lacpRxmRxLacpdu_lockDepth (w : World) (a : Addr) (pdu : LacpPdu) :
    (lacpRxmRxLacpdu w a pdu).lockDepth = w.lockDepth := by
  simp only [lacpRxmRxLacpdu]
  split
  · rfl
  · split <;> rfl

/-- A section that is left at its end is left at the depth it was entered with. -/
theorem lacpCriticalPathEnd_lockDepth {v : World}
    (h : v.lockDepth = (lacpCriticalPathStart w).lockDepth) :
    (lacpCriticalPathEnd v).lockDepth = w.lockDepth := by
  show v.lockDepth - 1 = w.lockDepth
  rw [h]
  exact Int.add_sub_cancel w.lockDepth 1

theorem lacpPortSetCfg_lockDepth {fuel : ℕ} {cfg : LacpPortCfg}
    (h : lacpPortSetCfg fuel w cfg = some w') : w'.lockDepth = w.lockDepth := by
  obtain ⟨u, hloop, hrest⟩ := Option.bind_eq_some_iff.mp h
  obtain ⟨v, hrun, hend⟩ := Option.bind_eq_some_iff.mp hrest
  obtain rfl := Option.some.inj hend
  have hu : u.lockDepth = (lacpCriticalPathStart w).lockDepth :=
    Fuel.foldlM_invariant (P := fun u => u.lockDepth = (lacpCriticalPathStart w).lockDepth)
      (fun _ _ _ _ hs hstep => (cfgPortIndex_lockDepth hstep).trans hs) rfl hloop
  exact lacpCriticalPathEnd_lockDepth ((lacpSysUpdate_surroundings hrun).lockDepth.trans hu)

theorem lacpOneSecond_lockDepth {fuel : ℕ} (h : lacpOneSecond fuel w = some w') :
    w'.lockDepth = w.lockDepth := by
  unfold lacpOneSecond at h
  split at h
  · rw [← Option.some.inj h]
  · obtain ⟨v, hrun, rfl⟩ := Option.map_eq_some_iff.mp h
    exact lacpCriticalPathEnd_lockDepth (lacpSysUpdate_surroundings hrun).lockDepth

theorem foldl_addPortIndex_lockDepth (sysMac : ℕ → LacpMac) (ports : LacpBitmap) (l : List ℕ)
    (w : World) : (l.foldl (addPortIndex sysMac ports) w).lockDepth = w.lockDepth := by
  induction l generalizing w with
  | nil => rfl
  | cons i l ih => exact (ih _).trans (addPortIndex_lockDepth sysMac ports w i)

theorem sysCfgAdded_lockDepth (w : World) (sysMac : ℕ → LacpMac) (cfg : LacpSysCfg) :
    (sysCfgAdded w sysMac cfg).lockDepth = (lacpCriticalPathStart w).lockDepth := by
  unfold sysCfgAdded
  split
  · exact foldl_addPortIndex_lockDepth sysMac cfg.ports _ _
  · rfl

theorem sysCfgChanged_lockDepth {sysMac : ℕ → LacpMac} {cfg : LacpSysCfg}
    (h : sysCfgChanged w sysMac cfg = some w') :
    w'.lockDepth = (lacpCriticalPathStart w).lockDepth := by
  simp only [sysCfgChanged] at h
  split at h
  · exact Fuel.foldlM_invariant (P := fun u => u.lockDepth = (lacpCriticalPathStart w).lockDepth)
      (fun _ _ _ _ hs hstep => (delPortIndex_lockDepth hstep).trans hs)
      (sysCfgAdded_lockDepth w sysMac cfg) h
  · obtain rfl := Option.some.inj h
    exact sysCfgAdded_lockDepth w sysMac cfg

theorem lacpSysSetCfg_lockDepth {fuel : ℕ} {sysMac : ℕ → LacpMac} {cfg : LacpSysCfg}
    (h : lacpSysSetCfg fuel w sysMac cfg = some w') : w'.lockDepth = w.lockDepth := by
  rw [lacpSysSetCfg_eq] at h
  obtain ⟨v, hchange, hsettle⟩ := Option.bind_eq_some_iff.mp h
  obtain ⟨u, hrun, rfl⟩ := Option.map_eq_some_iff.mp hsettle
  have hv : v.lockDepth = (lacpCriticalPathStart w).lockDepth := sysCfgChanged_lockDepth hchange
  exact lacpCriticalPathEnd_lockDepth ((lacpSysUpdate_surroundings hrun).lockDepth.trans hv)

theorem lacpRxLacpdu_lockDepth {fuel i : ℕ} {pdu : LacpPdu} {ret : LacpRet}
    (h : lacpRxLacpdu fuel w i pdu = some (w', ret)) : w'.lockDepth = w.lockDepth := by
  have hearly : (lacpCriticalPathEnd (lacpCriticalPathStart w)).lockDepth = w.lockDepth :=
    lacpCriticalPathEnd_lockDepth rfl
  unfold lacpRxLacpdu at h
  dsimp only at h
  split at h
  · cases h
    exact hearly
  · split at h
    · cases h
      exact hearly
    · split at h
      · cases h
        exact hearly
      · obtain ⟨v, hrun, heq⟩ := Option.map_eq_some_iff.mp h
        cases heq
        exact lacpCriticalPathEnd_lockDepth
          ((lacpSysUpdate_surroundings hrun).lockDepth.trans (lacpRxmRxLacpdu_lockDepth _ _ _))

/-- `lacp_port_link_change` on a port that exists leaves the section on both of its paths. -/
theorem lacpPortLinkChange_lockDepth {fuel i : ℕ} {status : UInt32} {ret : LacpRet} {a : Addr}
    (hfind : lacpPortFind w i = some a) (h : lacpPortLinkChange fuel w i status = some (w', ret)) :
    w'.lockDepth = w.lockDepth := by
  have hfind' : lacpPortFind (lacpCriticalPathStart w) i = some a := hfind
  simp only [lacpPortLinkChange, hfind'] at h
  by_cases hsame : ((if ((lacpCriticalPathStart w).port a).portEnabled then 1 else 0) == status) = true
  · have heq := Option.some.inj ((if_pos hsame).symm.trans h)
    cases heq
    exact lacpCriticalPathEnd_lockDepth rfl
  · obtain ⟨v, hrun, heq⟩ := Option.map_eq_some_iff.mp ((if_neg hsame).symm.trans h)
    cases heq
    exact lacpCriticalPathEnd_lockDepth
      ((lacpSysUpdate_surroundings hrun).lockDepth.trans (lacpPortSetReselect_lockDepth _ a))

/-- On an absent port it returns before `LACP_CRITICAL_PATH_END`, one level deeper than it was
entered. -/
theorem lacpPortLinkChange_absent {i : ℕ} (hfind : lacpPortFind w i = none) (fuel : ℕ)
    (status : UInt32) :
    lacpPortLinkChange fuel w i status = some (lacpCriticalPathStart w, .notEnable) := by
  have hfind' : lacpPortFind (lacpCriticalPathStart w) i = none := hfind
  unfold lacpPortLinkChange
  dsimp only
  rw [hfind']

end Depth

/-! ## The entry points -/

/-- A call of one of the entry points that take the lock, with its arguments. -/
inductive EntryPoint
  | portSetCfg (cfg : LacpPortCfg)
  | oneSecond
  | portLinkChange (portIndex : ℕ) (linkStatus : UInt32)
  | sysSetCfg (sysMac : ℕ → LacpMac) (cfg : LacpSysCfg)
  | rxLacpdu (portIndex : ℕ) (pdu : LacpPdu)

/-- The world in which the call returns. -/
def EntryPoint.run (fuel : ℕ) (w : World) : EntryPoint → Option World
  | .portSetCfg cfg => lacpPortSetCfg fuel w cfg
  | .oneSecond => lacpOneSecond fuel w
  | .portLinkChange i status => (lacpPortLinkChange fuel w i status).map Prod.fst
  | .sysSetCfg sysMac cfg => lacpSysSetCfg fuel w sysMac cfg
  | .rxLacpdu i pdu => (lacpRxLacpdu fuel w i pdu).map Prod.fst

/-- If the call reports a link change, a port of that index is in the list. -/
def EntryPoint.FindsLink (w : World) (call : EntryPoint) : Prop :=
  ∀ i status, call = .portLinkChange i status → ∃ a ∈ w.sys.ports, (w.port a).portIndex = i

/-- A call returns at the depth it was entered with, unless it reports a link change of a port that
does not exist. -/
theorem lockDepth_eq_iff_findsLink {fuel : ℕ} {w w' : World} {call : EntryPoint}
    (h : call.run fuel w = some w') : w'.lockDepth = w.lockDepth ↔ call.FindsLink w := by
  cases call with
  | portSetCfg cfg => exact iff_of_true (lacpPortSetCfg_lockDepth h) fun _ _ heq => by cases heq
  | oneSecond => exact iff_of_true (lacpOneSecond_lockDepth h) fun _ _ heq => by cases heq
  | sysSetCfg sysMac cfg => exact iff_of_true (lacpSysSetCfg_lockDepth h) fun _ _ heq => by cases heq
  | rxLacpdu i pdu =>
    obtain ⟨r, hrun, rfl⟩ := Option.map_eq_some_iff.mp h
    exact iff_of_true (lacpRxLacpdu_lockDepth hrun) fun _ _ heq => by cases heq
  | portLinkChange i status =>
    obtain ⟨r, hrun, rfl⟩ := Option.map_eq_some_iff.mp h
    cases hfind : lacpPortFind w i with
    | some a =>
      refine iff_of_true (lacpPortLinkChange_lockDepth hfind hrun) fun j s heq => ?_
      cases heq
      exact ⟨a, lacpPortFind_eq_some hfind⟩
    | none =>
      rw [lacpPortLinkChange_absent hfind] at hrun
      obtain rfl := Option.some.inj hrun
      refine iff_of_false (fun hdepth => ?_) fun hfinds => ?_
      · have hdepth' : w.lockDepth + 1 = w.lockDepth := hdepth
        omega
      · obtain ⟨a, ha, hindex⟩ := hfinds i status rfl
        exact lacpPortFind_eq_none.mp hfind a ha hindex

/-- Port 1 of `aggregationRun` loses its link, or hears from its partner once more. -/
theorem aggregationRun_lockDepth : ∃ w, Reachable w ∧ 0 ∈ w.sys.ports ∧ (w.port 0).mux.state = .rxTx ∧
    (∃ w', (EntryPoint.portLinkChange 0 0).run 25 w = some w' ∧ (w'.port 0).mux.state = .detached ∧
      w'.lockDepth = w.lockDepth) ∧
    ∃ w', (EntryPoint.rxLacpdu 0 (peerFrame 3 1)).run 25 w = some w' ∧ (w'.port 0).rx.state = .current ∧
      w'.lockDepth = w.lockDepth := by
  have hrun : (runCalls (fun _ _ => true) 25 (initWorld 77) aggregationRun).any (fun w =>
      decide (0 ∈ w.sys.ports ∧ (w.port 0).portIndex = 0 ∧ (w.port 0).mux.state = .rxTx) &&
        ((EntryPoint.portLinkChange 0 0).run 25 w).any (fun w' => decide ((w'.port 0).mux.state = .detached)) &&
        ((EntryPoint.rxLacpdu 0 (peerFrame 3 1)).run 25 w).any
          fun w' => decide ((w'.port 0).rx.state = .current)) = true := by
    decide +kernel
  obtain ⟨w, h, _, hw⟩ := exists_reachableBy_of_runCalls (R := fun _ _ => True) (by decide)
    (fun _ _ _ => trivial) hrun
  simp only [Bool.and_eq_true, decide_eq_true_eq] at hw
  obtain ⟨⟨⟨ha, hindex, hmux⟩, hlink⟩, hframe⟩ := hw
  obtain ⟨u, hu, hdetached⟩ := (Option.any_eq_true ..).mp hlink
  obtain ⟨v, hv, hcurrent⟩ := (Option.any_eq_true ..).mp hframe
  refine ⟨w, h, ha, hmux, ⟨u, hu, of_decide_eq_true hdetached, ?_⟩, v, hv, of_decide_eq_true hcurrent, ?_⟩
  · refine (lockDepth_eq_iff_findsLink hu).mpr fun i _ heq => ⟨0, ha, ?_⟩
    obtain ⟨rfl, -⟩ := EntryPoint.portLinkChange.inj heq
    exact hindex
  · exact (lockDepth_eq_iff_findsLink hv).mpr fun _ _ heq => by cases heq

/-- A link report for a port that is in no link group returns inside the critical section. -/
theorem lockDepth_portLinkChange_absent :
    ∃ w', (EntryPoint.portLinkChange 8 1).run 1 (initWorld 0) = some w' ∧
      w'.lockDepth ≠ (initWorld 0).lockDepth :=
  ⟨lacpCriticalPathStart (initWorld 0), rfl, by decide⟩

end Lacp
