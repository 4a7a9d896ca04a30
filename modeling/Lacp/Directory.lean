import Mathlib.Logic.Function.Basic
import Mathlib.Order.Lattice.Nat
import Lacp.CriticalSection
import Lacp.Database

/-!
# The directory behind the stub

Reference: `lacp_stub.c`, the callers in `trunk_api.c` and `trunk_ssp.c`.

What the user configures of the ports and the link groups is a directory: a record of settings for each
port, a set of ports for each link group, and the priority of the system. The stub keeps it in tables of
bytes and bits, in `g_port_list` next to two fields that belong to the mux machine. Every call changes the
directory as `Call.record` says, on whichever path it takes through the engine (`directory_of_runCall`):
the protocol writes nothing of it, so the directory of a run is a function of the calls alone.
-/

namespace Lacp

/-! ## The directory -/

/-- What is configured of a port. -/
structure PortSetup where
  speed : UInt32
  duplex : UInt32
  linkStatus : UInt32
  prio : UInt32
deriving DecidableEq, Repr

/-- The directory. Link groups are counted from 1. -/
@[ext] structure Directory where
  setup : ℕ → PortSetup
  members : ℕ → Set ℕ
  sysPrio : UInt32

namespace Directory

variable (d : Directory)

/-- Nothing is configured. -/
def empty : Directory where
  setup := fun _ => { speed := 1000, duplex := 1, linkStatus := 0, prio := 0xffffffff }
  members := fun _ => ∅
  sysPrio := 0xffffffff

/-- The settings of port `i` are changed. -/
def configure (i : ℕ) (f : PortSetup → PortSetup) : Directory :=
  { d with setup := Function.update d.setup i (f (d.setup i)) }

/-- Port `i` joins a group, and stays in the groups that it was in. -/
def join (aggId i : ℕ) : Directory :=
  { d with members := Function.update d.members aggId (insert i (d.members aggId)) }

/-- Some ports leave all groups. -/
def leave (s : Set ℕ) : Directory := { d with members := fun g => d.members g \ s }

/-- The group that a port counts as a member of, 0 if there is none. -/
noncomputable def groupOf (i : ℕ) : ℕ := sInf {g | i ∈ d.members g}

/-- The priority of a port. -/
def priorityOf (i : ℕ) : UInt32 :=
  if (d.setup i).prio = 0xffffffff then defaultPortPriority.toUInt32 else (d.setup i).prio

end Directory

/-- What a call does to the directory. -/
def Call.record (d : Directory) : Call → Directory
  | .sysSetPrio prio => { d with sysPrio := prio }
  | .portLacpEnable slot port aggId _ => d.join aggId (globalIndex slot port)
  | .portLacpDisable slot port => d.leave {globalIndex slot port}
  | .aggDelete aggId => d.leave (d.members aggId)
  | .portSetPrio slot port prio => d.configure (globalIndex slot port) ({ · with prio := prio })
  | .portSetSpeed slot port speed => d.configure (globalIndex slot port) ({ · with speed := speed })
  | .portSetDuplex slot port duplex => d.configure (globalIndex slot port) ({ · with duplex := duplex })
  | .setPortLinkStatus portIndex linkStatus =>
    d.configure portIndex ({ · with linkStatus := linkStatus })
  | .sysSetLongPeriod _ | .sysSetShortPeriod _ | .sysSetPeriod _ | .portLinkChange _ _ _
  | .portClearStat _ _ | .rxLacpdu _ _ _ | .oneSecond => d

/-! ## The tables -/

/-- What the user configures in an entry of `g_port_list`. -/
def PortAttr.setup (attr : PortAttr) : PortSetup where
  speed := attr.speed
  duplex := attr.duplex
  linkStatus := attr.linkStatus
  prio := attr.prio

/-- The directory that the tables stand for. A link group has 19 bytes of bits. -/
def World.directory (w : World) : Directory where
  setup := fun i => (w.gPortList i).setup
  members := fun g => {i | 1 ≤ g ∧ g ≤ 32 ∧ i < 152 ∧ groupBit w i (g - 1) = true}
  sysPrio := w.gSysPrio

section Tables

variable {w w' : World} {i slot port aggId : ℕ}

theorem mem_members {g : ℕ} : i ∈ w.directory.members g ↔
    1 ≤ g ∧ g ≤ 32 ∧ i < 152 ∧ groupBit w i (g - 1) = true := Iff.rfl

@[simp] theorem directory_setup (w : World) (i : ℕ) : w.directory.setup i = (w.gPortList i).setup := rfl

theorem directory_congr (hattr : ∀ i, (w'.gPortList i).setup = (w.gPortList i).setup)
    (hgroups : w'.gLinkGroups = w.gLinkGroups) (hprio : w'.gSysPrio = w.gSysPrio) :
    w'.directory = w.directory := by
  refine Directory.ext (funext hattr) (funext fun g => Set.ext fun i => ?_) hprio
  rw [mem_members, mem_members, groupBit, hgroups]
  exact Iff.rfl

/-- A write of an entry of `g_port_list`. -/
theorem directory_stubSetPortAttr (w : World) (i : ℕ) {attr : PortAttr} {f : PortSetup → PortSetup}
    (hf : attr.setup = f (w.gPortList i).setup) :
    (stubSetPortAttr w i attr).directory = w.directory.configure i f := by
  refine Directory.ext (funext fun j => ?_) rfl rfl
  simp only [directory_setup, stubSetPortAttr_gPortList, Directory.configure]
  by_cases hj : j = i
  · subst hj
    rw [if_pos rfl, hf, Function.update_self]
  · rw [if_neg hj, Function.update_of_ne hj, directory_setup]

theorem groupBit_stubDbAggAddMember (hport : 1 ≤ port ∧ port ≤ 8) (i g : ℕ) :
    groupBit (stubDbAggAddMember w aggId slot port) i g =
      (groupBit w i g || decide (g = aggId - 1 ∧ i = globalIndex slot port)) := by
  have hbit : i % 8 < 8 := Nat.mod_lt _ (by omega)
  have hindex : i = globalIndex slot port ↔ i / 8 = slot ∧ port - 1 = i % 8 := by
    simp only [globalIndex]
    omega
  simp only [groupBit, stubDbAggAddMember]
  by_cases hg : g = aggId - 1
  · simp only [if_pos hg, trunkGetPbmp, trunkSetPbmp]
    by_cases hslot : i / 8 = slot
    · simp [hslot, hindex, hg, hbit, eq_comm]
    · simp [hslot, hindex]
  · simp [hg]

theorem directory_stubDbAggAddMember (hslot : slot < 19) (hport : 1 ≤ port ∧ port ≤ 8)
    (haggId : 1 ≤ aggId ∧ aggId ≤ 32) :
    (stubDbAggAddMember w aggId slot port).directory = w.directory.join aggId (globalIndex slot port) := by
  refine Directory.ext rfl (funext fun g => Set.ext fun i => ?_) rfl
  have hlt : globalIndex slot port < 152 := by
    simp only [globalIndex]
    omega
  rw [mem_members, groupBit_stubDbAggAddMember hport, Bool.or_eq_true, decide_eq_true_iff]
  by_cases hg : g = aggId
  · subst hg
    simp only [Directory.join, Function.update_self, Set.mem_insert_iff, mem_members]
    constructor
    · rintro ⟨-, -, hi, hbit | ⟨-, rfl⟩⟩
      · exact .inr ⟨haggId.1, haggId.2, hi, hbit⟩
      · exact .inl rfl
    · rintro (rfl | ⟨-, -, hi, hbit⟩)
      · exact ⟨haggId.1, haggId.2, hlt, .inr (by simp)⟩
      · exact ⟨haggId.1, haggId.2, hi, .inl hbit⟩
  · simp only [Directory.join, Function.update_of_ne hg, mem_members]
    constructor
    · rintro ⟨h1, h32, hi, hbit⟩
      refine ⟨h1, h32, hi, hbit.resolve_right fun heq => hg ?_⟩
      omega
    · rintro ⟨h1, h32, hi, hbit⟩
      exact ⟨h1, h32, hi, .inl hbit⟩

theorem groupBit_stubDbAggDelMember (hport : 1 ≤ port ∧ port ≤ 8) (i : ℕ) {g : ℕ} (hg : g < 32) :
    groupBit (stubDbAggDelMember w slot port) i g =
      (groupBit w i g && !decide (i = globalIndex slot port)) := by
  have hbit : i % 8 < 8 := Nat.mod_lt _ (by omega)
  have hindex : i = globalIndex slot port ↔ i / 8 = slot ∧ port - 1 = i % 8 := by
    simp only [globalIndex]
    omega
  simp only [groupBit, stubDbAggDelMember, if_pos hg, trunkGetPbmp, trunkClearPbmp]
  by_cases hslot : i / 8 = slot
  · simp [hslot, hindex, hbit, eq_comm]
  · simp [hslot, hindex]

theorem directory_stubDbAggDelMember (hport : 1 ≤ port ∧ port ≤ 8) :
    (stubDbAggDelMember w slot port).directory = w.directory.leave {globalIndex slot port} := by
  refine Directory.ext rfl (funext fun g => Set.ext fun i => ?_) rfl
  simp only [mem_members, Directory.leave, Set.mem_sdiff, Set.mem_singleton_iff]
  by_cases hg : 1 ≤ g ∧ g ≤ 32
  · rw [groupBit_stubDbAggDelMember hport i (by omega)]
    simp only [Bool.and_eq_true, Bool.not_eq_true', decide_eq_false_iff_not]
    tauto
  · exact iff_of_false (fun h => hg ⟨h.1, h.2.1⟩) fun h => hg ⟨h.1.1, h.1.2.1⟩

/-- `stub_db_agg_get_port_tid` finds the lowest group. -/
theorem stubDbAggGetPortTid_eq_groupOf (hslot : slot < 19) (hport : 1 ≤ port ∧ port ≤ 8) :
    stubDbAggGetPortTid w slot port = w.directory.groupOf (globalIndex slot port) := by
  have hlt : globalIndex slot port < 152 := by
    simp only [globalIndex]
    omega
  have hbit : ∀ g, groupBit w (globalIndex slot port) g = trunkGetPbmp slot port (w.gLinkGroups g).ports := by
    intro g
    rw [groupBit, globalIndex_div hport, globalIndex_mod hport]
  rw [Directory.groupOf, stubDbAggGetPortTid]
  cases hfind : (List.range 32).find? fun i => trunkGetPbmp slot port (w.gLinkGroups i).ports with
  | none =>
    have hempty : {g | globalIndex slot port ∈ w.directory.members g} = ∅ := by
      refine Set.eq_empty_of_forall_notMem fun g hg => ?_
      obtain ⟨h1, h32, -, hin⟩ := hg
      exact List.find?_eq_none.mp hfind (g - 1) (List.mem_range.mpr (by omega)) (hbit _ ▸ hin)
    rw [hempty, Nat.sInf_empty]
    rfl
  | some g =>
    obtain ⟨hset, hg, hlow⟩ := List.find?_range_eq_some.mp hfind
    have hleast : IsLeast {g | globalIndex slot port ∈ w.directory.members g} (g + 1) := by
      refine ⟨⟨by omega, Nat.succ_le_of_lt (List.mem_range.mp hg), hlt, (hbit g).trans hset⟩, ?_⟩
      rintro g' ⟨h1, -, -, hin⟩
      by_contra hlt'
      have hclear := hlow (g' - 1) (by omega)
      rw [← hbit, hin] at hclear
      cases hclear
    exact hleast.csInf_eq.symm

/-- `trunk_port_get_prio`. -/
theorem trunkPortGetPrio_eq_priorityOf (hport : 1 ≤ port) :
    trunkPortGetPrio w slot port = some (w.directory.priorityOf (globalIndex slot port)) := by
  simp only [trunkPortGetPrio, trunkSspGetGlobalIndex_eq hport, Option.map_some, stubGetPortPriority,
    Directory.priorityOf, directory_setup, PortAttr.setup, beq_iff_eq]
  by_cases hprio : (w.gPortList (globalIndex slot port)).prio = 0xffffffff <;> simp [hprio]

end Tables

/-! ## The engine -/

section Engine

variable {w w' : World}

/-- The rule for what the engine keeps whatever world it starts in: what an assignment to a port and the
entry of a state keep. -/
theorem lacpSysUpdate_rule {P : World → World → Prop} (refl : ∀ w, P w w)
    (trans : ∀ {u v w}, P u v → P v w → P u w) (modify : ∀ w a f, P w (w.modify a f))
    (enter : ∀ w a m, P w (concreteEnterState w a m)) {n : ℕ} (h : lacpSysUpdate n w = some w') :
    P w w' := by
  have hcheck : ∀ {v v' : World} {a : Addr} {m : Machine}, lacpCheckCondition v a m = some v' → P v v' := by
    intro v v' a m h
    cases m
    all_goals
      obtain ⟨s, _, rfl⟩ := Option.map_eq_some_iff.mp h
      exact modify v a _
  have hchange : ∀ {n : ℕ} {fsm : Addr × Machine} {v v' : World},
      lacpChangeState n v fsm = some v' → P v v' := by
    intro n fsm v v' h
    induction n generalizing v with
    | zero => cases h
    | succ n ih =>
      unfold lacpChangeState at h
      split at h
      · dsimp only at h
        set u := clearChangeState (concreteEnterState v fsm.1 fsm.2) fsm.1 fsm.2
        have henter : P v u := trans (enter v fsm.1 fsm.2) (modify _ _ _)
        cases hnext : lacpCheckCondition u fsm.1 fsm.2 with
        | none =>
          rw [hnext, Option.getD_none] at h
          exact trans henter (ih h)
        | some u' =>
          rw [hnext, Option.getD_some] at h
          exact trans henter (trans (hcheck hnext) (ih h))
      · obtain rfl := Option.some.inj h
        exact refl v
  induction n generalizing w with
  | zero => cases h
  | succ n ih =>
    unfold lacpSysUpdate at h
    cases hfind : (lacpMachines w).findSome? fun fsm => lacpCheckCondition w fsm.1 fsm.2 with
    | none =>
      rw [hfind] at h
      obtain rfl := Option.some.inj h
      exact refl w
    | some u =>
      rw [hfind] at h
      obtain ⟨v, hround, hrest⟩ := Option.bind_eq_some_iff.mp h
      obtain ⟨fsm, _, hfired⟩ := List.exists_of_findSome?_eq_some hfind
      have hmachines : P w v := Fuel.foldlM_invariant (P := P w)
        (fun _ _ _ _ hs hstep => trans hs (hchange hstep)) (hcheck hfired) hround
      exact trans hmachines (ih hrest)

theorem concreteEnterState_directory (w : World) (a : Addr) (m : Machine) :
    (concreteEnterState w a m).directory = w.directory := by
  have hkept := concreteEnterState_surroundings w a m
  refine directory_congr (fun i => ?_) hkept.gLinkGroups hkept.gSysPrio
  cases m with
  | rx =>
    rw [concreteEnterState, lacpRxEnterState_frame]
    rfl
  | sel =>
    simp only [concreteEnterState, lacpSelEnterState, selectionLogic]
    split
    · rfl
    · rfl
    · split
      · rfl
      · split <;> rfl
  | mux =>
    rw [concreteEnterState, lacpMuxEnterState_gPortList]
    split
    · -- the machine writes `tid` and `cd`
      unfold muxHardware
      split <;> rfl
    · rfl
  | tx =>
    rw [concreteEnterState, lacpTxEnterState_frame]
    rfl

/-- The engine changes nothing of the directory. -/
theorem lacpSysUpdate_directory {n : ℕ} (h : lacpSysUpdate n w = some w') :
    w'.directory = w.directory :=
  lacpSysUpdate_rule (P := fun v v' => v'.directory = v.directory) (fun _ => rfl)
    (fun huv hvw => hvw.trans huv) (fun _ _ _ => rfl) concreteEnterState_directory h

end Engine

/-! ## The entry points -/

section EntryPoints

variable {w w' : World} {fuel i slot port aggId : ℕ} {cfg : LacpPortCfg}

@[simp] theorem lacpPortSetReselect_directory (w : World) (a : Addr) :
    (lacpPortSetReselect w (some a)).directory = w.directory :=
  directory_congr (fun _ => by rw [lacpPortSetReselect_gPortList])
    (lacpPortSetReselect_gLinkGroups w a) (by simp only [lacpPortSetReselect]; split <;> rfl)

theorem cfgPort_directory {a : Addr} (h : cfgPort fuel cfg w a = some w') :
    w'.directory = w.directory := by
  obtain ⟨v, hstate, rfl⟩ := Option.map_eq_some_iff.mp h
  have hv : v.directory = w.directory := by
    unfold cfgPortState at hstate
    split at hstate
    · split at hstate
      · obtain rfl := Option.some.inj hstate
        exact lacpPortSetReselect_directory _ a
      · obtain ⟨u, hrun, rfl⟩ := Option.map_eq_some_iff.mp hstate
        exact (lacpPortSetReselect_directory u a).trans (lacpSysUpdate_directory (w := notifyPartner w a) hrun)
    · rw [← Option.some.inj hstate]
  rw [← hv]
  have hprio : ∀ u, (cfgPortPrio u a cfg.portPriority).directory = u.directory := fun _ =>
    lacpPortSetReselect_directory _ a
  have hstat : ∀ u, (cfgPortStat u a).directory = u.directory := fun _ => rfl
  dsimp only
  split <;> split <;> split <;> simp only [hprio, hstat, lacpPortSetReselect_directory]

theorem lacpPortSetCfg_directory (h : lacpPortSetCfg fuel w cfg = some w') :
    w'.directory = w.directory := by
  obtain ⟨u, hloop, hrest⟩ := Option.bind_eq_some_iff.mp h
  obtain ⟨v, hrun, hend⟩ := Option.bind_eq_some_iff.mp hrest
  obtain rfl := Option.some.inj hend
  have hu : u.directory = w.directory := by
    refine Fuel.foldlM_invariant (P := fun u => u.directory = w.directory) (fun i _ s t hs hstep => ?_)
      (show (lacpCriticalPathStart w).directory = w.directory from rfl) hloop
    unfold cfgPortIndex at hstep
    split at hstep
    · rw [← Option.some.inj hstep]
      exact hs
    · split at hstep
      · rw [← Option.some.inj hstep]
        exact hs
      · exact (cfgPort_directory hstep).trans hs
  exact (lacpSysUpdate_directory hrun).trans hu

theorem lacpPortLinkChange_directory {linkStatus : UInt32} {ret : LacpRet}
    (h : lacpPortLinkChange fuel w i linkStatus = some (w', ret)) : w'.directory = w.directory := by
  unfold lacpPortLinkChange at h
  dsimp only at h
  split at h
  · obtain ⟨rfl, -⟩ := Prod.mk.inj (Option.some.inj h)
    rfl
  · rename_i a _
    by_cases hsame : ((if ((lacpCriticalPathStart w).port a).portEnabled then 1 else 0) == linkStatus) = true
    · obtain ⟨rfl, -⟩ := Prod.mk.inj (Option.some.inj ((if_pos hsame).symm.trans h))
      rfl
    · obtain ⟨v, hrun, hend⟩ := Option.map_eq_some_iff.mp ((if_neg hsame).symm.trans h)
      obtain ⟨rfl, -⟩ := Prod.mk.inj hend
      exact (lacpSysUpdate_directory hrun).trans (lacpPortSetReselect_directory _ a)

theorem lacpCreatePorts_directory {sysMac : ℕ → LacpMac} {ports : LacpBitmap}
    (h : lacpCreatePorts fuel w sysMac ports = some w') : w'.directory = w.directory := by
  refine (lacpSysUpdate_directory h).trans ?_
  refine List.foldlRecOn (motive := fun v : World => v.directory = w.directory) _ _ rfl fun v hv i _ => ?_
  rw [← hv]
  unfold createPortIndex
  split
  · unfold lacpPortCreate
    split
    · rename_i hcreate
      split at hcreate
      · cases hcreate
      · obtain rfl := Option.some.inj hcreate
        rfl
    · rfl
  · rfl

theorem lacpRemovePorts_directory (w : World) (ports : LacpBitmap) :
    (lacpRemovePorts w ports).directory = w.directory := by
  refine List.foldlRecOn (motive := fun v : World => v.directory = w.directory) _ _ rfl fun v hv i _ => ?_
  rw [← hv]
  unfold removePortIndex
  split
  · split <;> rfl
  · rfl

theorem lacpSysSetCfg_directory {sysMac : ℕ → LacpMac} {cfg : LacpSysCfg}
    (hadd : cfg.cfgPbmpAdd = false) (hdel : cfg.cfgPbmpDel = false)
    (h : lacpSysSetCfg fuel w sysMac cfg = some w') : w'.directory = w.directory := by
  simp only [lacpSysSetCfg, hadd, hdel, Bool.false_eq_true, if_false, Option.bind_eq_bind,
    Option.bind_some, Option.pure_def, Option.bind_eq_some_iff] at h
  obtain ⟨v, hrun, hend⟩ := h
  obtain rfl := Option.some.inj hend
  exact (lacpSysUpdate_directory hrun : v.directory = _)

theorem lacpRxLacpdu_directory {pdu : LacpPdu} {ret : LacpRet}
    (h : lacpRxLacpdu fuel w i pdu = some (w', ret)) : w'.directory = w.directory := by
  unfold lacpRxLacpdu at h
  dsimp only at h
  split at h
  · obtain ⟨rfl, -⟩ := Prod.mk.inj (Option.some.inj h)
    rfl
  · split at h
    · obtain ⟨rfl, -⟩ := Prod.mk.inj (Option.some.inj h)
      rfl
    · split at h
      · obtain ⟨rfl, -⟩ := Prod.mk.inj (Option.some.inj h)
        rfl
      · obtain ⟨v, hrun, hend⟩ := Option.map_eq_some_iff.mp h
        obtain ⟨rfl, -⟩ := Prod.mk.inj hend
        refine (lacpSysUpdate_directory hrun).trans ?_
        simp only [lacpRxmRxLacpdu]
        split
        · rfl
        · split <;> rfl

theorem lacpOneSecond_directory (h : lacpOneSecond fuel w = some w') : w'.directory = w.directory := by
  unfold lacpOneSecond at h
  split at h
  · rw [← Option.some.inj h]
  · obtain ⟨v, hrun, rfl⟩ := Option.map_eq_some_iff.mp h
    exact (lacpSysUpdate_directory hrun : v.directory = _)

theorem trunkPortLacpDisableBatch_directory {ports : LacpBitmap}
    (h : trunkPortLacpDisableBatch fuel w ports = some w') : w'.directory = w.directory := by
  obtain ⟨v, hcfg, hend⟩ := Option.bind_eq_some_iff.mp h
  obtain rfl := Option.some.inj hend
  exact (lacpRemovePorts_directory v ports).trans (lacpPortSetCfg_directory hcfg)

/-- The loop of `trunk_agg_delete`. -/
theorem directory_foldl_aggDeletePair (pbmp : ℕ → BitVec 8) {pairs : List (ℕ × ℕ)}
    (hpairs : ∀ pair ∈ pairs, 1 ≤ pair.2 ∧ pair.2 ≤ 8) (s : World × LacpBitmap) :
    (pairs.foldl (aggDeletePair pbmp) s).1.directory = s.1.directory.leave
      {i | ∃ pair ∈ pairs, trunkGetPbmp pair.1 pair.2 pbmp = true ∧ i = globalIndex pair.1 pair.2} := by
  induction pairs generalizing s with
  | nil =>
    refine Directory.ext rfl (funext fun g => ?_) rfl
    simp [Directory.leave]
  | cons pair pairs ih =>
    have hport := hpairs pair List.mem_cons_self
    rw [List.foldl_cons, ih fun p hp => hpairs p (List.mem_cons_of_mem _ hp)]
    simp only [aggDeletePair, trunkSspGetGlobalIndex_eq hport.1]
    by_cases hin : trunkGetPbmp pair.1 pair.2 pbmp = true
    · simp only [if_pos hin, directory_stubDbAggDelMember hport]
      refine Directory.ext rfl (funext fun g => Set.ext fun i => ?_) rfl
      simp only [Directory.leave, Set.mem_sdiff, Set.mem_ofPred_eq, Set.mem_singleton_iff,
        List.exists_mem_cons_iff, hin, true_and, not_or]
      tauto
    · simp only [if_neg hin]
      refine Directory.ext rfl (funext fun g => Set.ext fun i => ?_) rfl
      simp [Directory.leave, hin]

end EntryPoints

/-! ## Calls -/

section Calls

variable {w w' : World} {fuel slot port aggId : ℕ} {c : Call} {ret : LacpRet}

/-- A port without a group leaves none. -/
theorem leave_of_not_enabled (hport : 1 ≤ port ∧ port ≤ 8)
    (h : (!stubDbPortLacpIsEnable w slot port) = true) :
    w.directory.leave {globalIndex slot port} = w.directory := by
  refine Directory.ext rfl (funext fun g => ?_) rfl
  refine Set.sdiff_singleton_eq_self fun hin => ?_
  obtain ⟨h1, h32, hlt, hbit⟩ := hin
  simp only [stubDbPortLacpIsEnable, stubDbAggGetPortTid] at h
  cases hfind : (List.range 32).find? fun i => trunkGetPbmp slot port (w.gLinkGroups i).ports with
  | none =>
    refine List.find?_eq_none.mp hfind (g - 1) (List.mem_range.mpr (by omega)) ?_
    rwa [groupBit, globalIndex_div hport, globalIndex_mod hport] at hbit
  | some j =>
    rw [hfind] at h
    simp at h

theorem aggDeletePairs_port : ∀ pair ∈ aggDeletePairs, 1 ≤ pair.2 ∧ pair.2 ≤ 8 := by
  simp only [aggDeletePairs, List.mem_flatMap, List.mem_map, List.mem_range]
  rintro _ ⟨slot, _, i, hi, rfl⟩
  exact ⟨Nat.le_add_left 1 i, hi⟩

/-- The pairs of `trunk_agg_delete` are the members of the group. -/
theorem members_eq_aggDeletePairs (haggId : 1 ≤ aggId ∧ aggId ≤ 32) :
    {i | ∃ pair ∈ aggDeletePairs, trunkGetPbmp pair.1 pair.2 (stubDbAggGetMember w aggId) = true ∧
      i = globalIndex pair.1 pair.2} = w.directory.members aggId := by
  ext i
  simp only [Set.mem_ofPred_eq, mem_members, aggDeletePairs, List.mem_flatMap, List.mem_map,
    List.mem_range, groupBit, stubDbAggGetMember]
  constructor
  · rintro ⟨_, ⟨slot, hslot, k, hk, rfl⟩, hin, rfl⟩
    have hport : 1 ≤ k + 1 ∧ k + 1 ≤ 8 := by omega
    refine ⟨haggId.1, haggId.2, ?_, ?_⟩
    · simp only [globalIndex]
      omega
    · rwa [globalIndex_div hport, globalIndex_mod hport]
  · rintro ⟨-, -, hlt, hbit⟩
    exact ⟨(i / 8, i % 8 + 1), ⟨i / 8, by omega, i % 8, by omega, rfl⟩, hbit, by
      simp only [globalIndex]
      omega⟩

/-- Every call that returns changes the directory as its record says, whatever world it starts in. -/
theorem directory_of_runCall (hrange : c.InRange) (hrun : runCall fuel w c = some (w', ret)) :
    w'.directory = c.record w.directory := by
  cases c with
  | sysSetPrio prio =>
    obtain ⟨v, hcfg, hend⟩ := Option.map_eq_some_iff.mp hrun
    obtain ⟨rfl, -⟩ := Prod.mk.inj hend
    rw [Call.record, ← lacpSysSetCfg_directory rfl rfl hcfg]
    rfl
  | sysSetLongPeriod period | sysSetShortPeriod period | sysSetPeriod period =>
    obtain ⟨v, hcfg, hend⟩ := Option.map_eq_some_iff.mp hrun
    obtain ⟨rfl, -⟩ := Prod.mk.inj hend
    exact lacpSysSetCfg_directory rfl rfl hcfg
  | portLacpEnable slot port aggId sysMac =>
    obtain ⟨hslot, h1, h8, hagg⟩ := hrange
    simp only [runCall, trunkPortLacpEnable, trunkSspGetGlobalIndex_eq h1, trunkPortGetPrio,
      Option.map_some, Option.bind_eq_bind, Option.bind_eq_some_iff] at hrun
    obtain ⟨u, hcreate, v, hcfg, hlink⟩ := hrun
    rw [lacpPortLinkChange_directory hlink, lacpPortSetCfg_directory hcfg,
      directory_stubDbAggAddMember (by omega) ⟨h1, h8⟩ hagg, lacpCreatePorts_directory hcreate]
    rfl
  | portLacpDisable slot port =>
    have hport := hrange.2
    simp only [runCall, trunkPortLacpDisable, trunkSspGetGlobalIndex_eq hport.1] at hrun
    split at hrun
    · rename_i hout
      obtain ⟨rfl, -⟩ := Prod.mk.inj (Option.some.inj hrun)
      exact (leave_of_not_enabled hport hout).symm
    · obtain ⟨v, hbatch, hend⟩ := Option.map_eq_some_iff.mp hrun
      obtain ⟨rfl, -⟩ := Prod.mk.inj hend
      rw [trunkPortLacpDisableBatch_directory hbatch, directory_stubDbAggDelMember hport]
      rfl
  | aggDelete aggId =>
    obtain ⟨v, hbatch, hend⟩ := Option.map_eq_some_iff.mp hrun
    obtain ⟨rfl, -⟩ := Prod.mk.inj hend
    rw [trunkPortLacpDisableBatch_directory hbatch, directory_foldl_aggDeletePair _ aggDeletePairs_port,
      members_eq_aggDeletePairs hrange]
    rfl
  | portSetPrio slot port prio =>
    have hstore : ∀ v : World, v.directory = w.directory →
        (stubSetPortPriority v (globalIndex slot port) prio).directory =
          w.directory.configure (globalIndex slot port) ({ · with prio := prio }) := fun v hv => by
      rw [← hv]
      exact directory_stubSetPortAttr v _ rfl
    simp only [runCall, trunkPortSetPrio, trunkSspGetGlobalIndex_eq hrange.2.1, Option.bind_eq_bind,
      Option.bind_some, Option.pure_def] at hrun
    split at hrun
    · obtain ⟨v, hcfg, hend⟩ := Option.bind_eq_some_iff.mp hrun
      obtain ⟨rfl, -⟩ := Prod.mk.inj (Option.some.inj hend)
      exact hstore v (lacpPortSetCfg_directory hcfg)
    · obtain ⟨rfl, -⟩ := Prod.mk.inj (Option.some.inj hrun)
      exact hstore w rfl
  | portSetSpeed slot port speed =>
    simp only [runCall, trunkPortSetSpeed, trunkSspGetGlobalIndex_eq hrange.2.1] at hrun
    obtain ⟨v, hcfg, hend⟩ := Option.map_eq_some_iff.mp hrun
    obtain ⟨rfl, -⟩ := Prod.mk.inj hend
    rw [lacpPortSetCfg_directory hcfg]
    exact directory_stubSetPortAttr w _ (f := ({ · with speed := speed })) rfl
  | portSetDuplex slot port duplex =>
    simp only [runCall, trunkPortSetDuplex, trunkSspGetGlobalIndex_eq hrange.2.1] at hrun
    obtain ⟨v, hcfg, hend⟩ := Option.map_eq_some_iff.mp hrun
    obtain ⟨rfl, -⟩ := Prod.mk.inj hend
    rw [lacpPortSetCfg_directory hcfg]
    exact directory_stubSetPortAttr w _ (f := ({ · with duplex := duplex })) rfl
  | portLinkChange slot port linkStatus =>
    simp only [runCall, trunkPortLinkChange, trunkSspGetGlobalIndex_eq hrange.2.1] at hrun
    split at hrun
    · obtain ⟨rfl, -⟩ := Prod.mk.inj (Option.some.inj hrun)
      rfl
    · exact lacpPortLinkChange_directory hrun
  | portClearStat slot port =>
    simp only [runCall, trunkPortClearStat, trunkSspGetGlobalIndex_eq hrange.2.1, Option.bind_eq_bind,
      Option.bind_some, Option.pure_def] at hrun
    split at hrun
    · obtain ⟨v, hcfg, hend⟩ := Option.bind_eq_some_iff.mp hrun
      obtain ⟨rfl, -⟩ := Prod.mk.inj (Option.some.inj hend)
      exact lacpPortSetCfg_directory hcfg
    · obtain ⟨rfl, -⟩ := Prod.mk.inj (Option.some.inj hrun)
      rfl
  | setPortLinkStatus portIndex linkStatus =>
    obtain ⟨rfl, -⟩ := Prod.mk.inj (Option.some.inj hrun)
    exact directory_stubSetPortAttr w portIndex (f := ({ · with linkStatus := linkStatus })) rfl
  | rxLacpdu slot port pdu =>
    simp only [runCall, trunkSspRxLacpdu, trunkSspGetGlobalIndex_eq hrange.2.1] at hrun
    split at hrun
    · obtain ⟨rfl, -⟩ := Prod.mk.inj (Option.some.inj hrun)
      rfl
    · exact lacpRxLacpdu_directory hrun
  | oneSecond =>
    obtain ⟨v, hrun', hend⟩ := Option.map_eq_some_iff.mp hrun
    obtain ⟨rfl, -⟩ := Prod.mk.inj hend
    exact lacpOneSecond_directory hrun'

/-- A bridge starts with nothing configured. -/
theorem directory_initWorld (pid : UInt32) : (initWorld pid).directory = .empty := by
  refine Directory.ext rfl (funext fun g => Set.eq_empty_of_forall_notMem fun i hi => ?_) rfl
  have hbit := hi.2.2.2
  simp [groupBit, trunkGetPbmp, initWorld] at hbit

/-- What is configured after a run is what the calls configured, in their order, whatever the protocol did
between them; and this is what the group and the priority of a port are read from. -/
theorem directory_of_runCalls (pid : UInt32) (fuel : ℕ) (calls : List Call) (w : World)
    (hrange : ∀ c ∈ calls, c.InRange)
    (hrun : runCalls (fun _ _ => true) fuel (initWorld pid) calls = some w) :
    w.directory = calls.foldl Call.record .empty ∧
      ∀ slot port, slot < 18 → 1 ≤ port ∧ port ≤ 8 →
        stubDbAggGetPortTid w slot port =
            (calls.foldl Call.record .empty).groupOf (globalIndex slot port) ∧
          trunkPortGetPrio w slot port =
            some ((calls.foldl Call.record .empty).priorityOf (globalIndex slot port)) := by
  have hdirectory : w.directory = calls.foldl Call.record .empty := by
    rw [← directory_initWorld pid]
    generalize initWorld pid = v at hrun ⊢
    induction calls generalizing v with
    | nil =>
      obtain rfl := Option.some.inj hrun
      rfl
    | cons c calls ih =>
      obtain ⟨u, hcall, hrest⟩ := Option.bind_eq_some_iff.mp hrun
      obtain ⟨⟨u', ret⟩, hcalled, rfl⟩ := Option.map_eq_some_iff.mp (((if_pos rfl).symm.trans hcall))
      rw [List.foldl_cons, ← directory_of_runCall (hrange c List.mem_cons_self) hcalled]
      exact ih (fun c' hc' => hrange c' (List.mem_cons_of_mem _ hc')) u' hrest
  refine ⟨hdirectory, fun slot port hslot hport => ?_⟩
  rw [← hdirectory]
  exact ⟨stubDbAggGetPortTid_eq_groupOf (by omega) hport, trunkPortGetPrio_eq_priorityOf hport.1⟩

end Calls

/-- Two ports of group 1 forward, and then they change the group and one gets a priority. -/
theorem regroupedRun_directory :
    let calls := aggregationRun ++ [.aggDelete 1, .portSetPrio 0 1 7, .portLacpEnable 0 1 3 .zero]
    ∃ w, runCalls (fun _ _ => true) 25 (initWorld 77) calls = some w ∧
      w.directory = calls.foldl Call.record .empty ∧
      ∀ slot port, slot < 18 → 1 ≤ port ∧ port ≤ 8 →
        stubDbAggGetPortTid w slot port =
            (calls.foldl Call.record .empty).groupOf (globalIndex slot port) ∧
          trunkPortGetPrio w slot port =
            some ((calls.foldl Call.record .empty).priorityOf (globalIndex slot port)) := by
  intro calls
  have hrun : (runCalls (fun _ _ => true) 25 (initWorld 77) calls).isSome = true := by decide +kernel
  obtain ⟨w, hw⟩ := Option.isSome_iff_exists.mp hrun
  exact ⟨w, hw, directory_of_runCalls 77 25 calls w (by decide) hw⟩

end Lacp
