import Mathlib.Tactic.Set
import Lacp.Library.Guarded
import Lacp.Rx
import Lacp.Election
import Lacp.Mux
import Lacp.Tx

/-!
# The engine

Reference: `LACP/lacp_statmch.c`, `LACP/lacp_sys.c`.

The loops of the source have no bound, so they are written with fuel; `none` is "still running".

The engine is an instance of the guarded scheduler: a component is one machine of one port, and its
transition is "the guard holds, the state is entered, `change_state` is cleared". `lacpSysUpdate_eq`
says that `lacp_sys_update` is that scheduler whenever it starts with every `change_state` clear.
`EngineHop` lists what a single transition does, machine by machine, and `PortHop` what it makes of one
port; every invariant of the engine is proved from them.
-/

namespace Lacp

/-! ## `lacp_statmch.c` -/

/-- `lacp_hop_2_state`. -/
def lacpHop2State {σ : Type} (fsm : LacpStateMach σ) (newState : σ) : LacpStateMach σ :=
  { fsm with state := newState, changeState := true }

/-- `lacp_check_condition`: `none` where the guard returns `False`, and nothing changes. -/
def lacpCheckCondition (w : World) (port : Addr) : Machine → Option World
  | .rx => (lacpRxCheckConditions w port).map fun s =>
      w.modify port fun p => { p with rx := lacpHop2State p.rx s }
  | .sel => (lacpSelCheckConditions w port).map fun s =>
      w.modify port fun p => { p with sel := lacpHop2State p.sel s }
  | .mux => (lacpMuxCheckConditions w port).map fun s =>
      w.modify port fun p => { p with mux := lacpHop2State p.mux s }
  | .tx => (lacpTxCheckConditions w port).map fun s =>
      w.modify port fun p => { p with tx := lacpHop2State p.tx s }

/-- `concreteEnterState`, with the event that it was called. -/
def concreteEnterState (w : World) (port : Addr) (fsm : Machine) : World :=
  let w := w.log (.enter fsm (w.port port))
  match fsm with
  | .rx => lacpRxEnterState w port
  | .sel => lacpSelEnterState w port
  | .mux => lacpMuxEnterState w port
  | .tx => lacpTxEnterState w port

/-- `fsm->change_state = False`. -/
def clearChangeState (w : World) (port : Addr) (fsm : Machine) : World :=
  w.modify port fun p => p.clearChangeState fsm

/-- `lacp_change_state`. -/
def lacpChangeState : ℕ → World → Addr × Machine → Option World
  | 0, _, _ => none
  | n + 1, w, fsm =>
    if (w.port fsm.1).changeState fsm.2 then
      let w := concreteEnterState w fsm.1 fsm.2
      let w := clearChangeState w fsm.1 fsm.2
      -- the guard sets the flag again where the machine can go on
      let w := (lacpCheckCondition w fsm.1 fsm.2).getD w
      lacpChangeState n w fsm
    else some w

/-! ## `lacp_sys.c` -/

/-- `port->machines`. -/
def portMachines : List Machine := [.rx, .sel, .mux, .tx]

/-- The machines in the order `lacp_iterate_machines` visits them. -/
def lacpMachines (w : World) : List (Addr × Machine) :=
  w.sys.ports.flatMap fun port => portMachines.map fun fsm => (port, fsm)

/-- `lacp_sys_update`. -/
def lacpSysUpdate : ℕ → World → Option World
  | 0, _ => none
  | n + 1, w =>
    match (lacpMachines w).findSome? fun fsm => lacpCheckCondition w fsm.1 fsm.2 with
    | none => some w
    -- one machine has hopped; every machine is offered the chance to enter its new state
    | some w => ((lacpMachines w).foldlM (lacpChangeState n) w).bind (lacpSysUpdate n)

/-- The system record after `lacp_sys_init`. -/
def lacpSysInit : LacpSys where
  ports := []
  portmap := lacpBitmapClear
  numberOfPorts := 0
  adminState := true
  priority := defaultSystemPriority
  fastPeriodicTime := 1
  slowPeriodicTime := 30
  shortTimeoutTime := 3
  longTimeoutTime := 90
  aggregateWaitTime := 2
  lacpTimeout := 0
  txHoldCount := 3

/-- The bridge after `stub_init` and `lacp_sys_init`, for a given process id. -/
def initWorld (pid : UInt32) : World where
  sys := lacpSysInit
  port := fun _ => .zero
  brk := 0
  gPortList := stubInitPortAttr
  gLinkGroups := fun _ => { cnt := 0, ports := fun _ => 0 }
  gSysPrio := 0xffffffff
  pid := pid
  lockDepth := 0
  trace := []

/-! ## The engine as a guarded family -/

/-- One transition of a machine: the guard holds, the state is entered, the flag is cleared. -/
def lacpFire (w : World) (fsm : Addr × Machine) : Option World :=
  (lacpCheckCondition w fsm.1 fsm.2).map fun w =>
    clearChangeState (concreteEnterState w fsm.1 fsm.2) fsm.1 fsm.2

/-- A hop of the receive machine to state `s`. -/
def rxHop (w : World) (a : Addr) (s : RxState) : World :=
  let entering := { w.port a with rx := ⟨false, s⟩ }
  { w with
    port := fun b =>
      if b = a then rxEntered w.sys entering
      else if b ∈ w.sys.ports ∧ rxDeselects entering ∧ (w.port b).aggId = (w.port a).aggId then
        { w.port b with selected := false }
      else w.port b
    trace := .enter .rx { w.port a with rx := ⟨true, s⟩ } :: w.trace }

/-- A hop of the selection machine, always to `SELECTION`. -/
def selHop (w : World) (a : Addr) : World :=
  let entering := fun b => if b = a then { w.port b with sel := ⟨false, .selection⟩ } else w.port b
  let aggId := (w.port a).aggId
  { w with
    port := fun b =>
      if (w.port a).lacpEnabled = false then
        if b = a then { entering b with selected := true, standby := true } else entering b
      else if aggId ≠ 0 ∧ b ∈ w.sys.ports ∧ (w.port b).aggId = aggId then
        { entering b with
          actor.key := UInt16.ofNat (trunkSspGetPortOperKey w (w.port b).portIndex)
          selected := true
          standby := selectedStandby w aggId b
          masterPort := (electedMaster w aggId).getD b }
      else entering b
    trace := .enter .sel { w.port a with sel := ⟨true, .selection⟩ } :: w.trace }

/-- A hop of the mux machine to state `s`. -/
def muxHop (w : World) (a : Addr) (s : MuxState) : World :=
  let entering := { w.port a with mux := ⟨false, s⟩ }
  { w with
    port := fun b => if b = a then muxEntered w.sys entering else w.port b
    gPortList := fun i =>
      if i = entering.portIndex then muxHardware entering (w.gPortList i) else w.gPortList i
    trace := muxWrites entering (w.gPortList entering.portIndex)
      ++ .enter .mux { w.port a with mux := ⟨true, s⟩ } :: w.trace }

/-- A hop of the transmit machine to state `s`. -/
def txHop (w : World) (a : Addr) (s : TxState) : World :=
  let entering := { w.port a with tx := ⟨true, s⟩ }
  { w with
    port := fun b => if b = a then txEntered w.sys { entering with tx := ⟨false, s⟩ } else w.port b
    trace := txSent w.pid entering ++ .enter .tx entering :: w.trace }

section Hops

variable {a b : Addr} (w : World)

theorem muxHop_port_self (a : Addr) (s : MuxState) :
    (muxHop w a s).port a = muxEntered w.sys { w.port a with mux := ⟨false, s⟩ } := if_pos rfl

theorem muxHop_port_of_ne (hba : b ≠ a) (s : MuxState) : (muxHop w a s).port b = w.port b :=
  if_neg hba

theorem muxHop_gPortList_self (a : Addr) (s : MuxState) :
    (muxHop w a s).gPortList (w.port a).portIndex =
      muxHardware { w.port a with mux := ⟨false, s⟩ } (w.gPortList (w.port a).portIndex) := if_pos rfl

theorem muxHop_gPortList_of_ne {i : ℕ} (hi : i ≠ (w.port a).portIndex) (s : MuxState) :
    (muxHop w a s).gPortList i = w.gPortList i := if_neg hi

theorem txHop_port_self (a : Addr) (s : TxState) :
    (txHop w a s).port a = txEntered w.sys { w.port a with tx := ⟨false, s⟩ } := if_pos rfl

theorem txHop_port_of_ne (hba : b ≠ a) (s : TxState) : (txHop w a s).port b = w.port b := if_neg hba

/-! What a hop leaves to the other machines. -/

theorem rxHop_frame (s : RxState) (b : Addr) :
    ((rxHop w a s).port b).mux = (w.port b).mux ∧ ((rxHop w a s).port b).tx = (w.port b).tx ∧
      ((rxHop w a s).port b).holdCount = (w.port b).holdCount ∧
      ((rxHop w a s).port b).periodicTimer = (w.port b).periodicTimer := by
  simp only [rxHop]
  split
  · rename_i hba
    subst hba
    cases s <;> exact ⟨rfl, rfl, rfl, rfl⟩
  · split <;> exact ⟨rfl, rfl, rfl, rfl⟩

theorem selHop_frame (a b : Addr) :
    ((selHop w a).port b).rx = (w.port b).rx ∧ ((selHop w a).port b).mux = (w.port b).mux ∧
      ((selHop w a).port b).tx = (w.port b).tx ∧ ((selHop w a).port b).partner = (w.port b).partner ∧
      ((selHop w a).port b).holdCount = (w.port b).holdCount ∧
      ((selHop w a).port b).periodicTimer = (w.port b).periodicTimer := by
  simp only [selHop]
  repeat' split
  all_goals exact ⟨rfl, rfl, rfl, rfl, rfl, rfl⟩

theorem muxHop_frame (s : MuxState) (b : Addr) :
    ((muxHop w a s).port b).rx = (w.port b).rx ∧ ((muxHop w a s).port b).tx = (w.port b).tx ∧
      ((muxHop w a s).port b).partner = (w.port b).partner ∧
      ((muxHop w a s).port b).holdCount = (w.port b).holdCount ∧
      ((muxHop w a s).port b).periodicTimer = (w.port b).periodicTimer := by
  simp only [muxHop]
  split
  · rename_i hba
    subst hba
    cases s <;> exact ⟨rfl, rfl, rfl, rfl, rfl⟩
  · exact ⟨rfl, rfl, rfl, rfl, rfl⟩

theorem txHop_frame (s : TxState) (b : Addr) :
    ((txHop w a s).port b).rx = (w.port b).rx ∧ ((txHop w a s).port b).mux = (w.port b).mux ∧
      ((txHop w a s).port b).partner = (w.port b).partner := by
  simp only [txHop]
  split
  · rename_i hba
    subst hba
    cases s <;> exact ⟨rfl, rfl, rfl⟩
  · exact ⟨rfl, rfl, rfl⟩

end Hops

/-! ### `lacpFire` is a hop -/

section Fire

variable (w : World) (a : Addr)

theorem rxEntered_clear (sys : LacpSys) (p : LacpPort) (s : RxState) :
    (rxEntered sys { p with rx := ⟨true, s⟩ }).clearChangeState .rx
      = rxEntered sys { p with rx := ⟨false, s⟩ } := by
  cases s <;> rfl

theorem muxEntered_clear (sys : LacpSys) (p : LacpPort) (s : MuxState) :
    (muxEntered sys { p with mux := ⟨true, s⟩ }).clearChangeState .mux
      = muxEntered sys { p with mux := ⟨false, s⟩ } := by
  cases s <;> rfl

theorem txEntered_clear (sys : LacpSys) (p : LacpPort) (s : TxState) :
    (txEntered sys { p with tx := ⟨true, s⟩ }).clearChangeState .tx
      = txEntered sys { p with tx := ⟨false, s⟩ } := by
  cases s <;> rfl

theorem lacpFire_rx : lacpFire w (a, .rx) = (lacpRxCheckConditions w a).map (rxHop w a) := by
  simp only [lacpFire, lacpCheckCondition, Option.map_map]
  congr 1
  funext s
  -- `u` is the world in which the state is entered
  set u := (w.modify a fun p => { p with rx := lacpHop2State p.rx s }) with hu
  have hself : u.port a = { w.port a with rx := ⟨true, s⟩ } := if_pos rfl
  show clearChangeState (lacpRxEnterState (u.log (.enter .rx (u.port a))) a) a .rx = rxHop w a s
  rw [hself, lacpRxEnterState_frame]
  apply World.ext <;> try rfl
  funext b
  rw [clearChangeState, modify_port]
  simp only [lacpRxEnterState_port, log_port, log_sys, hself, if_true]
  by_cases hb : b = a
  · rw [if_pos hb, rxEntered_clear]
    exact (if_pos hb).symm
  · have hother : u.port b = w.port b := if_neg hb
    rw [if_neg hb, if_neg hb, hother]
    exact (if_neg hb).symm

theorem lacpFire_mux : lacpFire w (a, .mux) = (lacpMuxCheckConditions w a).map (muxHop w a) := by
  simp only [lacpFire, lacpCheckCondition, Option.map_map]
  congr 1
  funext s
  set u := (w.modify a fun p => { p with mux := lacpHop2State p.mux s }) with hu
  have hself : u.port a = { w.port a with mux := ⟨true, s⟩ } := if_pos rfl
  show clearChangeState (lacpMuxEnterState (u.log (.enter .mux (u.port a))) a) a .mux = muxHop w a s
  rw [hself, lacpMuxEnterState_frame]
  apply World.ext <;> try rfl
  · funext b
    rw [clearChangeState, modify_port]
    simp only [lacpMuxEnterState_port, log_port, log_sys, hself, if_true]
    by_cases hb : b = a
    · rw [if_pos hb, muxEntered_clear]
      exact (if_pos hb).symm
    · have hother : u.port b = w.port b := if_neg hb
      rw [if_neg hb, if_neg hb, hother]
      exact (if_neg hb).symm
  · funext i
    rw [clearChangeState, modify_gPortList]
    simp only [lacpMuxEnterState_gPortList, log_port, hself]
    rfl
  · rw [clearChangeState, modify_trace]
    simp only [lacpMuxEnterState_trace, log_port, hself]
    rfl

theorem lacpFire_tx : lacpFire w (a, .tx) = (lacpTxCheckConditions w a).map (txHop w a) := by
  simp only [lacpFire, lacpCheckCondition, Option.map_map]
  congr 1
  funext s
  set u := (w.modify a fun p => { p with tx := lacpHop2State p.tx s }) with hu
  have hself : u.port a = { w.port a with tx := ⟨true, s⟩ } := if_pos rfl
  show clearChangeState (lacpTxEnterState (u.log (.enter .tx (u.port a))) a) a .tx = txHop w a s
  rw [hself, lacpTxEnterState_frame]
  apply World.ext <;> try rfl
  · funext b
    rw [clearChangeState, modify_port]
    simp only [lacpTxEnterState_port, log_port, log_sys, hself, if_true]
    by_cases hb : b = a
    · rw [if_pos hb, txEntered_clear]
      exact (if_pos hb).symm
    · have hother : u.port b = w.port b := if_neg hb
      rw [if_neg hb, if_neg hb, hother]
      exact (if_neg hb).symm
  · rw [clearChangeState, modify_trace]
    simp only [lacpTxEnterState_trace, log_port, hself]
    rfl

/-- The selection machine only ever hops to `SELECTION`. -/
theorem lacpSelCheckConditions_eq_some {s : SelState} (h : lacpSelCheckConditions w a = some s) :
    s = .selection := by
  simp only [lacpSelCheckConditions] at h
  split at h
  · exact (Option.some.inj h).symm
  · exact (Option.some.inj h).symm
  · split at h
    · exact (Option.some.inj h).symm
    · simp at h

/-- Marking the selection machine of a port does not change what a selection reads. -/
theorem sameInputs_modify_sel (e : Event) (m : LacpStateMach SelState) (aggId : ℕ) :
    SameInputs w ((w.modify a fun p => { p with sel := m }).log e) aggId where
  members := by
    refine List.filter_congr fun b _ => ?_
    by_cases hb : b = a <;> simp [hb]
  inputs := by
    intro b _
    have hkey : ∀ i, trunkSspGetPortOperKey ((w.modify a fun p => { p with sel := m }).log e) i
        = trunkSspGetPortOperKey w i := fun i => trunkSspGetPortOperKey_congr rfl rfl rfl
    rw [selectionInputs_eq_iff, hkey]
    by_cases hb : b = a <;> simp [hb]

/-- A selection in terms of a world with the same inputs. -/
theorem updateAggPortsSelect_sameInputs {v : World} {aggId : ℕ} (hsame : SameInputs w v aggId)
    (hports : v.sys.ports = w.sys.ports) (hagg : ∀ b, (v.port b).aggId = (w.port b).aggId) (b : Addr) :
    (updateAggPortsSelect v aggId).port b =
      if b ∈ w.sys.ports ∧ (w.port b).aggId = aggId then
        { v.port b with
          actor.key := UInt16.ofNat (trunkSspGetPortOperKey w (w.port b).portIndex)
          selected := true
          standby := selectedStandby w aggId b
          masterPort := (electedMaster w aggId).getD b }
      else v.port b := by
  rw [updateAggPortsSelect_port, hports, hagg]
  by_cases hmem : b ∈ w.sys.ports ∧ (w.port b).aggId = aggId
  · have hin := mem_groupMembers.mpr hmem
    have hkey :=
      (selectionInputs_eq_iff.mp (hsame.inputs b hin)).2.2.2.2.2.2.2.2.2.2.2.2.2.2.2
    rw [if_pos hmem, if_pos hmem, hsame.selectedStandby hin, hsame.electedMaster, hkey]
  · rw [if_neg hmem, if_neg hmem]

theorem lacpFire_sel :
    lacpFire w (a, .sel) = (lacpSelCheckConditions w a).map fun _ => selHop w a := by
  cases hs : lacpSelCheckConditions w a with
  | none => simp [lacpFire, lacpCheckCondition, hs]
  | some s =>
    obtain rfl := lacpSelCheckConditions_eq_some w a hs
    set u := (w.modify a fun p => { p with sel := ⟨true, .selection⟩ }) with hu
    have hself : u.port a = { w.port a with sel := ⟨true, .selection⟩ } := if_pos rfl
    set v := u.log (.enter .sel (u.port a)) with hv
    have hvself : v.port a = { w.port a with sel := ⟨true, .selection⟩ } := hself
    have hfire : lacpFire w (a, .sel) = some (clearChangeState (lacpSelEnterState v a) a .sel) := by
      simp only [lacpFire, lacpCheckCondition, hs]
      rfl
    have hlogic : lacpSelEnterState v a = selectionLogic v a := by
      simp only [lacpSelEnterState, hvself]
    have hlog : v.trace = (selHop w a).trace := by
      simp only [hv, log_trace, hself]
      rfl
    rw [hfire, hlogic, Option.map_some, Option.some_inj, selectionLogic, hvself]
    by_cases hen : (w.port a).lacpEnabled = false
    · rw [if_pos (by simpa using hen)]
      apply World.ext <;> try first | rfl | exact hlog
      funext b
      rw [clearChangeState, modify_port, modify_port_self, hvself]
      simp only [selHop, if_pos hen]
      by_cases hb : b = a
      · subst hb
        rw [if_pos rfl, if_pos rfl, if_pos rfl]
        rfl
      · have hother : v.port b = w.port b := if_neg hb
        rw [if_neg hb, if_neg hb, if_neg hb, modify_port, if_neg hb, hother]
    · rw [if_neg (by simpa using hen)]
      by_cases hzero : (w.port a).aggId = 0
      · rw [if_pos hzero]
        apply World.ext <;> try first | rfl | exact hlog
        funext b
        rw [clearChangeState, modify_port, hvself]
        have hno : ¬ ((w.port a).aggId ≠ 0 ∧ b ∈ w.sys.ports ∧
            (w.port b).aggId = (w.port a).aggId) := fun h => h.1 hzero
        simp only [selHop, if_neg hen, if_neg hno]
        by_cases hb : b = a
        · subst hb
          rw [if_pos rfl, if_pos rfl]
          rfl
        · rw [if_neg hb, if_neg hb]
          exact if_neg hb
      · rw [if_neg hzero]
        -- the election does not read `sel`, so entering the state changes none of its inputs
        have hsame : SameInputs w v (w.port a).aggId := sameInputs_modify_sel w a _ _ _
        have hagg : ∀ b, (v.port b).aggId = (w.port b).aggId := by
          intro b
          by_cases hb : b = a
          · rw [hb, hvself]
          · exact congrArg LacpPort.aggId (if_neg hb)
        apply World.ext <;> try first | rfl | exact hlog
        funext b
        rw [clearChangeState, modify_port, updateAggPortsSelect_sameInputs w hsame rfl hagg,
          updateAggPortsSelect_sameInputs w hsame rfl hagg, hvself]
        simp only [selHop, if_neg hen, and_true]
        by_cases hb : b = a
        · subst hb
          rw [if_pos rfl, if_pos rfl]
          by_cases hmem : b ∈ w.sys.ports
          · rw [if_pos hmem, if_pos ⟨hzero, hmem, rfl⟩]
            rfl
          · rw [if_neg hmem, if_neg fun h => hmem h.2.1]
            rfl
        · have hother : v.port b = w.port b := if_neg hb
          rw [if_neg hb, if_neg hb, hother]
          by_cases hmem : b ∈ w.sys.ports ∧ (w.port b).aggId = (w.port a).aggId
          · rw [if_pos hmem, if_pos ⟨hzero, hmem⟩]
          · rw [if_neg hmem, if_neg fun h => hmem h.2]

end Fire

section SelHop

variable {w : World} {a b : Addr}

/-- To a member of the group a hop of the selection machine does what a selection does. -/
theorem selHop_port_member (hlac : (w.port a).lacpEnabled = true) (hne : (w.port a).aggId ≠ 0)
    (hb : b ∈ w.sys.ports) (hbg : (w.port b).aggId = (w.port a).aggId) :
    (selHop w a).port b = { (updateAggPortsSelect w (w.port a).aggId).port b with
      sel := if b = a then ⟨false, .selection⟩ else (w.port b).sel } := by
  rw [updateAggPortsSelect_port, if_pos ⟨hb, hbg⟩]
  simp only [selHop, hlac, Bool.true_eq_false, if_false]
  rw [if_pos ⟨hne, hb, hbg⟩]
  split <;> rfl

/-- A hop of the selection machine leaves the ports of other groups as they are. -/
theorem selHop_port_of_ne (hba : b ≠ a) (hbg : (w.port b).aggId ≠ (w.port a).aggId) :
    (selHop w a).port b = w.port b := by
  simp only [selHop, if_neg hba]
  split
  · rfl
  · exact if_neg fun hin => hbg hin.2.2

/-- Of a port that does not run LACP the selection machine writes to that port only. -/
theorem selHop_port_of_disabled (hlac : (w.port a).lacpEnabled = false) (hba : b ≠ a) :
    (selHop w a).port b = w.port b := by
  simp only [selHop, if_pos hlac, if_neg hba]

end SelHop

/-- What a single transition of the engine does. -/
inductive EngineHop (w : World) : World → Prop
  | rx {a : Addr} {s : RxState} (ha : a ∈ w.sys.ports)
      (guard : lacpRxCheckConditions w a = some s) : EngineHop w (rxHop w a s)
  | sel {a : Addr} (ha : a ∈ w.sys.ports)
      (guard : lacpSelCheckConditions w a = some .selection) : EngineHop w (selHop w a)
  | mux {a : Addr} {s : MuxState} (ha : a ∈ w.sys.ports)
      (guard : lacpMuxCheckConditions w a = some s) : EngineHop w (muxHop w a s)
  | tx {a : Addr} {s : TxState} (ha : a ∈ w.sys.ports)
      (guard : lacpTxCheckConditions w a = some s) : EngineHop w (txHop w a s)

/-- No machine of any port has an enabled transition. -/
def Quiescent (w : World) : Prop :=
  ∀ a ∈ w.sys.ports, lacpRxCheckConditions w a = none ∧ lacpSelCheckConditions w a = none ∧
    lacpMuxCheckConditions w a = none ∧ lacpTxCheckConditions w a = none

/-- Every `change_state` flag is clear. -/
def Idle (w : World) : Prop := ∀ a ∈ w.sys.ports, ∀ fsm, (w.port a).changeState fsm = false

theorem mem_lacpMachines {w : World} {fsm : Addr × Machine} :
    fsm ∈ lacpMachines w ↔ fsm.1 ∈ w.sys.ports := by
  obtain ⟨a, m⟩ := fsm
  cases m <;> simp [lacpMachines, portMachines]

theorem engineHop_of_lacpFire {w w' : World} {a : Addr} {m : Machine} (ha : a ∈ w.sys.ports)
    (h : lacpFire w (a, m) = some w') : EngineHop w w' := by
  cases m with
  | rx =>
    rw [lacpFire_rx] at h
    obtain ⟨s, guard, rfl⟩ := Option.map_eq_some_iff.mp h
    exact .rx ha guard
  | sel =>
    rw [lacpFire_sel] at h
    obtain ⟨s, guard, rfl⟩ := Option.map_eq_some_iff.mp h
    obtain rfl := lacpSelCheckConditions_eq_some w a guard
    exact .sel ha guard
  | mux =>
    rw [lacpFire_mux] at h
    obtain ⟨s, guard, rfl⟩ := Option.map_eq_some_iff.mp h
    exact .mux ha guard
  | tx =>
    rw [lacpFire_tx] at h
    obtain ⟨s, guard, rfl⟩ := Option.map_eq_some_iff.mp h
    exact .tx ha guard

/-- No hop changes the system record. -/
theorem EngineHop.sys_eq {w w' : World} (h : EngineHop w w') : w'.sys = w.sys := by
  cases h <;> rfl

theorem EngineHop.brk_eq {w w' : World} (h : EngineHop w w') : w'.brk = w.brk := by
  cases h <;> rfl

theorem lacpFire_ports {w w' : World} {fsm : Addr × Machine} (h : lacpFire w fsm = some w') :
    w'.sys.ports = w.sys.ports := by
  obtain ⟨a, m⟩ := fsm
  cases m with
  | rx =>
    rw [lacpFire_rx] at h
    obtain ⟨s, _, rfl⟩ := Option.map_eq_some_iff.mp h
    rfl
  | sel =>
    rw [lacpFire_sel] at h
    obtain ⟨s, _, rfl⟩ := Option.map_eq_some_iff.mp h
    rfl
  | mux =>
    rw [lacpFire_mux] at h
    obtain ⟨s, _, rfl⟩ := Option.map_eq_some_iff.mp h
    rfl
  | tx =>
    rw [lacpFire_tx] at h
    obtain ⟨s, _, rfl⟩ := Option.map_eq_some_iff.mp h
    rfl

/-- The fields of a port that no machine writes. -/
structure PortSettings where
  portIndex : ℕ
  portEnabled : Bool
  lacpEnabled : Bool
  aggId : ℕ
  speed : UInt32
  duplex : UInt32
  actorAdmin : LacpPortInfo
  partnerAdmin : LacpPortInfo
  msgActor : LacpPortInfo
  msgPartner : LacpPortInfo
  rxLacpduCnt : UInt32

def LacpPort.settings (p : LacpPort) : PortSettings where
  portIndex := p.portIndex
  portEnabled := p.portEnabled
  lacpEnabled := p.lacpEnabled
  aggId := p.aggId
  speed := p.speed
  duplex := p.duplex
  actorAdmin := p.actorAdmin
  partnerAdmin := p.partnerAdmin
  msgActor := p.msgActor
  msgPartner := p.msgPartner
  rxLacpduCnt := p.rxLacpduCnt

theorem rxEntered_settings (sys : LacpSys) (p : LacpPort) :
    (rxEntered sys p).settings = p.settings := by
  simp only [rxEntered]
  split <;> rfl

theorem muxEntered_settings (sys : LacpSys) (p : LacpPort) :
    (muxEntered sys p).settings = p.settings := by
  simp only [muxEntered]
  split <;> rfl

theorem txEntered_settings (sys : LacpSys) (p : LacpPort) :
    (txEntered sys p).settings = p.settings := by
  simp only [txEntered]
  split <;> rfl

/-- What a hop makes of the record of the port at `b`: the port moves, or it is deselected or selected
with the other members of its group, or it keeps its record. -/
inductive PortHop (w : World) (b : Addr) : LacpPort → Prop
  | same : PortHop w b (w.port b)
  | rx {s : RxState} (hb : b ∈ w.sys.ports) (guard : lacpRxCheckConditions w b = some s) :
      PortHop w b (rxEntered w.sys { w.port b with rx := ⟨false, s⟩ })
  /-- Another member of the group has a new partner. -/
  | deselect {a : Addr} {s : RxState} (hb : b ∈ w.sys.ports) (ha : a ∈ w.sys.ports)
      (guard : lacpRxCheckConditions w a = some s)
      (hnew : rxDeselects { w.port a with rx := ⟨false, s⟩ } = true)
      (hagg : (w.port b).aggId = (w.port a).aggId) : PortHop w b { w.port b with selected := false }
  | selDisabled (hb : b ∈ w.sys.ports) (guard : lacpSelCheckConditions w b = some .selection)
      (hlac : (w.port b).lacpEnabled = false) :
      PortHop w b { w.port b with sel := ⟨false, .selection⟩, selected := true, standby := true }
  /-- A port in no group is not selected. -/
  | selAlone (hb : b ∈ w.sys.ports) (guard : lacpSelCheckConditions w b = some .selection)
      (hlac : (w.port b).lacpEnabled = true) (hagg : (w.port b).aggId = 0) :
      PortHop w b { w.port b with sel := ⟨false, .selection⟩ }
  /-- The group is selected, on behalf of this port or of another member. -/
  | select {a : Addr} {sel : LacpStateMach SelState} (hb : b ∈ w.sys.ports) (ha : a ∈ w.sys.ports)
      (guard : lacpSelCheckConditions w a = some .selection) (hlac : (w.port a).lacpEnabled = true)
      (hne : (w.port b).aggId ≠ 0) (hagg : (w.port b).aggId = (w.port a).aggId)
      (hsel : sel = ⟨false, .selection⟩ ∨ sel = (w.port b).sel) :
      PortHop w b { w.port b with
        sel := sel
        actor.key := UInt16.ofNat (trunkSspGetPortOperKey w (w.port b).portIndex)
        selected := true
        standby := selectedStandby w (w.port b).aggId b
        masterPort := (electedMaster w (w.port b).aggId).getD b }
  | mux {s : MuxState} (hb : b ∈ w.sys.ports) (guard : lacpMuxCheckConditions w b = some s) :
      PortHop w b (muxEntered w.sys { w.port b with mux := ⟨false, s⟩ })
  | tx {s : TxState} (hb : b ∈ w.sys.ports) (guard : lacpTxCheckConditions w b = some s) :
      PortHop w b (txEntered w.sys { w.port b with tx := ⟨false, s⟩ })

/-- The inversion of a hop, as one port sees it. -/
theorem EngineHop.portHop {w w' : World} (h : EngineHop w w') (b : Addr) :
    PortHop w b (w'.port b) := by
  cases h with
  | @rx a s ha guard =>
    by_cases hba : b = a
    · subst hba
      simp only [rxHop, if_true]
      exact .rx ha guard
    · simp only [rxHop, if_neg hba]
      split
      · rename_i hin
        exact .deselect hin.1 ha guard hin.2.1 hin.2.2
      · exact .same
  | @sel a ha guard =>
    by_cases hlac : (w.port a).lacpEnabled = false
    · by_cases hba : b = a
      · subst hba
        simp only [selHop, if_pos hlac, if_true]
        exact .selDisabled ha guard hlac
      · rw [selHop_port_of_disabled hlac hba]
        exact .same
    · have hlac : (w.port a).lacpEnabled = true := by simpa using hlac
      by_cases hmember : b ∈ w.sys.ports ∧ (w.port b).aggId = (w.port a).aggId
      · obtain ⟨hb, hagg⟩ := hmember
        by_cases hne : (w.port a).aggId = 0
        · have hport : (selHop w a).port b =
              if b = a then { w.port b with sel := ⟨false, .selection⟩ } else w.port b := by
            simp [selHop, hlac, hne]
          rw [hport]
          split
          · rename_i hba
            subst hba
            exact .selAlone ha guard hlac hne
          · exact .same
        · rw [selHop_port_member hlac hne hb hagg, updateAggPortsSelect_port, if_pos ⟨hb, hagg⟩,
            ← hagg]
          refine .select hb ha guard hlac (hagg ▸ hne) hagg ?_
          split
          · exact .inl rfl
          · exact .inr rfl
      · have hba : b ≠ a := by
          rintro rfl
          exact hmember ⟨ha, rfl⟩
        have hport : (selHop w a).port b = w.port b := by
          simp only [selHop, hlac, Bool.true_eq_false, if_false, if_neg hba]
          exact if_neg fun hin => hmember hin.2
        rw [hport]
        exact .same
  | @mux a s ha guard =>
    by_cases hba : b = a
    · subst hba
      simp only [muxHop, if_true]
      exact .mux ha guard
    · simp only [muxHop, if_neg hba]
      exact .same
  | @tx a s ha guard =>
    by_cases hba : b = a
    · subst hba
      simp only [txHop, if_true]
      exact .tx ha guard
    · simp only [txHop, if_neg hba]
      exact .same

/-- No hop changes the settings of any port. -/
theorem PortHop.settings_eq {w : World} {b : Addr} {q : LacpPort} (h : PortHop w b q) :
    q.settings = (w.port b).settings := by
  cases h with
  | rx => exact rxEntered_settings _ _
  | mux => exact muxEntered_settings _ _
  | tx => exact txEntered_settings _ _
  | same | deselect | selDisabled | selAlone | select => rfl

namespace EngineHop

variable {w w' : World}

theorem settings_eq (h : EngineHop w w') (b : Addr) : (w'.port b).settings = (w.port b).settings :=
  (h.portHop b).settings_eq

theorem portIndex_eq (h : EngineHop w w') (b : Addr) :
    (w'.port b).portIndex = (w.port b).portIndex := congrArg PortSettings.portIndex (h.settings_eq b)

theorem portEnabled_eq (h : EngineHop w w') (b : Addr) :
    (w'.port b).portEnabled = (w.port b).portEnabled :=
  congrArg PortSettings.portEnabled (h.settings_eq b)

theorem lacpEnabled_eq (h : EngineHop w w') (b : Addr) :
    (w'.port b).lacpEnabled = (w.port b).lacpEnabled :=
  congrArg PortSettings.lacpEnabled (h.settings_eq b)

theorem aggId_eq (h : EngineHop w w') (b : Addr) : (w'.port b).aggId = (w.port b).aggId :=
  congrArg PortSettings.aggId (h.settings_eq b)

theorem ports_eq (h : EngineHop w w') : w'.sys.ports = w.sys.ports := congrArg LacpSys.ports h.sys_eq

end EngineHop

/-- The engine: one component for each machine of each port. -/
def lacpFamily : Guarded.Family World (Addr × Machine) where
  comps := lacpMachines
  fire := lacpFire
  comps_fire := by
    intro w fsm w' h
    rw [lacpMachines, lacpFire_ports h, lacpMachines]

theorem hop_iff {w w' : World} : lacpFamily.Hop w w' ↔ EngineHop w w' := by
  constructor
  · rintro ⟨⟨a, m⟩, ha, h⟩
    exact engineHop_of_lacpFire (mem_lacpMachines.mp ha) h
  · intro h
    cases h with
    | @rx a s ha guard =>
      exact ⟨(a, .rx), mem_lacpMachines.mpr ha, by
        show lacpFire w (a, .rx) = _
        rw [lacpFire_rx, guard]
        rfl⟩
    | @sel a ha guard =>
      exact ⟨(a, .sel), mem_lacpMachines.mpr ha, by
        show lacpFire w (a, .sel) = _
        rw [lacpFire_sel, guard]
        rfl⟩
    | @mux a s ha guard =>
      exact ⟨(a, .mux), mem_lacpMachines.mpr ha, by
        show lacpFire w (a, .mux) = _
        rw [lacpFire_mux, guard]
        rfl⟩
    | @tx a s ha guard =>
      exact ⟨(a, .tx), mem_lacpMachines.mpr ha, by
        show lacpFire w (a, .tx) = _
        rw [lacpFire_tx, guard]
        rfl⟩

theorem lacpFire_eq_none {w : World} {a : Addr} {m : Machine} :
    lacpFire w (a, m) = none ↔ lacpCheckCondition w a m = none := by
  simp [lacpFire]

theorem quiescent_iff {w : World} : lacpFamily.Quiescent w ↔ Quiescent w := by
  constructor
  · intro h a ha
    have hnone : ∀ m, lacpCheckCondition w a m = none := fun m =>
      lacpFire_eq_none.mp (h (a, m) (mem_lacpMachines.mpr ha))
    exact ⟨by simpa [lacpCheckCondition] using hnone .rx,
      by simpa [lacpCheckCondition] using hnone .sel,
      by simpa [lacpCheckCondition] using hnone .mux,
      by simpa [lacpCheckCondition] using hnone .tx⟩
  · rintro h ⟨a, m⟩ ha
    obtain ⟨hrx, hsel, hmux, htx⟩ := h a (mem_lacpMachines.mp ha)
    refine lacpFire_eq_none.mpr ?_
    cases m <;> simp [lacpCheckCondition, hrx, hsel, hmux, htx]

/-! ## `lacp_sys_update` is the scheduler -/

section Scheduler

variable {w w' : World} {a b : Addr} {m : Machine}

theorem changeState_rxEntered (sys : LacpSys) (p : LacpPort) :
    (rxEntered sys p).changeState m = p.changeState m := by
  simp only [rxEntered]
  split <;> cases m <;> rfl

theorem changeState_muxEntered (sys : LacpSys) (p : LacpPort) :
    (muxEntered sys p).changeState m = p.changeState m := by
  simp only [muxEntered]
  split <;> cases m <;> rfl

theorem changeState_txEntered (sys : LacpSys) (p : LacpPort) :
    (txEntered sys p).changeState m = p.changeState m := by
  simp only [txEntered]
  split <;> cases m <;> rfl

/-- A hop sets no `change_state` flag. -/
theorem PortHop.idle {q : LacpPort} (h : PortHop w b q)
    (hidle : ∀ m, (w.port b).changeState m = false) (m : Machine) : q.changeState m = false := by
  have hclear := hidle m
  cases h with
  | same => exact hclear
  | rx =>
    rw [changeState_rxEntered]
    cases m <;> first | rfl | exact hclear
  | mux =>
    rw [changeState_muxEntered]
    cases m <;> first | rfl | exact hclear
  | tx =>
    rw [changeState_txEntered]
    cases m <;> first | rfl | exact hclear
  | deselect => cases m <;> exact hclear
  | selDisabled | selAlone => cases m <;> first | rfl | exact hclear
  | select _ _ _ _ _ _ hsel =>
    rcases hsel with rfl | rfl <;> cases m <;> first | rfl | exact hclear

theorem EngineHop.idle (hop : EngineHop w w') (h : Idle w) : Idle w' :=
  fun b hb => (hop.portHop b).idle (h b (hop.sys_eq ▸ hb))

theorem idle_of_lacpFire (ha : a ∈ w.sys.ports) (h : Idle w) (hfire : lacpFire w (a, m) = some w') :
    Idle w' :=
  (engineHop_of_lacpFire ha hfire).idle h

/-- A successful guard sets the flag of its own machine and no other. -/
theorem changeState_of_lacpCheckCondition (h : lacpCheckCondition w a m = some w') :
    (w'.port a).changeState m = true ∧
      ∀ b m', (b, m') ≠ (a, m) → (w'.port b).changeState m' = (w.port b).changeState m' := by
  cases m
  all_goals
    simp only [lacpCheckCondition, Option.map_eq_some_iff] at h
    obtain ⟨s, _, rfl⟩ := h
    refine ⟨by simp [LacpPort.changeState, lacpHop2State], ?_⟩
    intro b m' hne
    by_cases hb : b = a
    · subst hb
      cases m' <;> simp_all [LacpPort.changeState]
    · simp [hb]

/-- `lacp_change_state` after a check of the guard runs the machine to exhaustion. -/
theorem lacpChangeState_eq_exhaust {n : ℕ} (ha : a ∈ w.sys.ports) (h : Idle w) :
    lacpChangeState n ((lacpCheckCondition w a m).getD w) (a, m)
      = lacpFamily.exhaust n w (a, m) := by
  induction n generalizing w with
  | zero => rfl
  | succ n ih =>
    simp only [lacpChangeState, Guarded.Family.exhaust]
    cases hcheck : lacpCheckCondition w a m with
    | none =>
      have hfire : lacpFamily.fire w (a, m) = none := lacpFire_eq_none.mpr hcheck
      rw [hfire, Option.getD_none, if_neg (by simp [h a ha m])]
    | some u =>
      have hfire : lacpFire w (a, m) = some (clearChangeState (concreteEnterState u a m) a m) := by
        simp [lacpFire, hcheck]
      have hfire' : lacpFamily.fire w (a, m) = _ := hfire
      rw [hfire', Option.getD_some, if_pos (changeState_of_lacpCheckCondition hcheck).1]
      exact ih (by rw [lacpFire_ports hfire]; exact ha) (idle_of_lacpFire ha h hfire)

/-- Machines whose flag is clear are passed over. -/
theorem foldlM_lacpChangeState_of_clear {n : ℕ} {l : List (Addr × Machine)}
    (h : ∀ fsm ∈ l, (w.port fsm.1).changeState fsm.2 = false) :
    l.foldlM (lacpChangeState (n + 1)) w = some w := by
  induction l with
  | nil => rfl
  | cons fsm l ih =>
    have hclear := h fsm List.mem_cons_self
    have hpass : lacpChangeState (n + 1) w fsm = some w := by simp [lacpChangeState, hclear]
    simp only [List.foldlM_cons, hpass]
    exact ih fun fsm' hmem => h fsm' (List.mem_cons_of_mem _ hmem)

/-- After one guard succeeded, `lacp_iterate_machines (sys, lacp_change_state, False)` runs that
machine to exhaustion. -/
theorem foldlM_lacpChangeState {n : ℕ} {u : World} (ha : a ∈ w.sys.ports) (h : Idle w)
    (hcheck : lacpCheckCondition w a m = some u) :
    (lacpMachines u).foldlM (lacpChangeState n) u = lacpFamily.exhaust n w (a, m) := by
  have hports : u.sys.ports = w.sys.ports := by
    cases m
    all_goals
      simp only [lacpCheckCondition, Option.map_eq_some_iff] at hcheck
      obtain ⟨s, _, rfl⟩ := hcheck
      rfl
  have hmem : (a, m) ∈ lacpMachines u := mem_lacpMachines.mpr (hports ▸ ha)
  have hothers := (changeState_of_lacpCheckCondition hcheck).2
  obtain ⟨l₁, l₂, hsplit, hfirst⟩ := List.eq_append_cons_of_mem hmem
  have hlisted : ∀ fsm ∈ l₁ ++ l₂, fsm.1 ∈ w.sys.ports := by
    intro fsm hfsm
    have hfsm' : fsm ∈ lacpMachines u := by
      rw [hsplit]
      simp only [List.mem_append, List.mem_cons] at hfsm ⊢
      tauto
    exact hports ▸ mem_lacpMachines.mp hfsm'
  cases n with
  | zero =>
    rw [hsplit]
    cases l₁ <;> rfl
  | succ n =>
    -- only the machine `(a, m)` has its flag set, so the machines before it are passed over
    have hbefore : l₁.foldlM (lacpChangeState (n + 1)) u = some u := by
      refine foldlM_lacpChangeState_of_clear fun fsm hfsm => ?_
      have hne : fsm ≠ (a, m) := fun heq => hfirst (heq ▸ hfsm)
      rw [hothers fsm.1 fsm.2 hne]
      exact h _ (hlisted _ (List.mem_append_left _ hfsm)) _
    have hrun : lacpChangeState (n + 1) u (a, m) = lacpFamily.exhaust (n + 1) w (a, m) := by
      rw [← lacpChangeState_eq_exhaust ha h, hcheck, Option.getD_some]
    rw [hsplit, List.foldlM_append, hbefore]
    simp only [Option.bind_eq_bind, Option.bind_some, List.foldlM_cons, hrun]
    cases hexhaust : lacpFamily.exhaust (n + 1) w (a, m) with
    | none => rfl
    | some t =>
      -- and once it has stopped, so are the machines after it
      have hhops := lacpFamily.exhaust_hops (mem_lacpMachines.mpr ha) hexhaust
      have hkept : Idle t ∧ t.sys = w.sys :=
        lacpFamily.hops_invariant (P := fun v => Idle v ∧ v.sys = w.sys)
          (fun hv hop => ⟨(hop_iff.mp hop).idle hv.1, (hop_iff.mp hop).sys_eq.trans hv.2⟩)
          hhops ⟨h, rfl⟩
      refine foldlM_lacpChangeState_of_clear fun fsm hfsm => hkept.1 _ ?_ _
      rw [hkept.2]
      exact hlisted _ (List.mem_append_right _ hfsm)

/-- The first machine whose guard holds, and the world after its `lacp_hop_2_state`. -/
theorem findSome_lacpCheckCondition (w : World) :
    ((lacpMachines w).findSome? fun fsm => lacpCheckCondition w fsm.1 fsm.2)
      = (lacpFamily.first w).bind fun fsm => lacpCheckCondition w fsm.1 fsm.2 := by
  show _ = ((lacpMachines w).find? fun fsm => (lacpFire w fsm).isSome).bind _
  induction lacpMachines w with
  | nil => rfl
  | cons fsm l ih =>
    cases hcheck : lacpCheckCondition w fsm.1 fsm.2 with
    | none => simp [lacpFire, hcheck, ih]
    | some u => simp [lacpFire, hcheck]

/-- Started with every `change_state` clear, `lacp_sys_update` is the fixed-point scheduler. -/
theorem lacpSysUpdate_eq {n : ℕ} (h : Idle w) : lacpSysUpdate n w = lacpFamily.settle n w := by
  -- each round of either is one machine run to exhaustion, after which every flag is clear again
  induction n generalizing w with
  | zero => rfl
  | succ n ih =>
    simp only [lacpSysUpdate, Guarded.Family.settle, findSome_lacpCheckCondition]
    cases hfirst : lacpFamily.first w with
    | none => rfl
    | some fsm =>
      have ha : fsm.1 ∈ w.sys.ports := mem_lacpMachines.mp (lacpFamily.first_mem hfirst)
      obtain ⟨t, ht⟩ := lacpFamily.first_fires hfirst
      obtain ⟨u, hcheck, _⟩ := Option.map_eq_some_iff.mp ht
      simp only [Option.bind_some, hcheck]
      rw [foldlM_lacpChangeState ha h hcheck]
      refine Option.bind_congr fun v hv => ih ?_
      exact lacpFamily.hops_invariant (fun hidle hop => (hop_iff.mp hop).idle hidle)
        (lacpFamily.exhaust_hops (lacpFamily.first_mem hfirst) hv) h

/-- A hop as the scheduler picks it: the machines of a port are offered the chance to move in their
order, so the mux machine and the transmit machine move only where neither the receive machine nor the
selection machine of their port can. -/
inductive OrderedHop (w : World) : World → Prop
  | rx {a : Addr} {s : RxState} (ha : a ∈ w.sys.ports)
      (guard : lacpRxCheckConditions w a = some s) : OrderedHop w (rxHop w a s)
  | sel {a : Addr} (ha : a ∈ w.sys.ports)
      (guard : lacpSelCheckConditions w a = some .selection) : OrderedHop w (selHop w a)
  | mux {a : Addr} {s : MuxState} (ha : a ∈ w.sys.ports) (hrx : lacpRxCheckConditions w a = none)
      (hsel : lacpSelCheckConditions w a = none) (guard : lacpMuxCheckConditions w a = some s) :
      OrderedHop w (muxHop w a s)
  | tx {a : Addr} {s : TxState} (ha : a ∈ w.sys.ports) (hrx : lacpRxCheckConditions w a = none)
      (hsel : lacpSelCheckConditions w a = none) (guard : lacpTxCheckConditions w a = some s) :
      OrderedHop w (txHop w a s)

theorem OrderedHop.engineHop (h : OrderedHop w w') : EngineHop w w' := by
  cases h with
  | rx ha guard => exact .rx ha guard
  | sel ha guard => exact .sel ha guard
  | mux ha _ _ guard => exact .mux ha guard
  | tx ha _ _ guard => exact .tx ha guard

/-- The mux machine and the transmit machine of a port stand behind the other two. -/
def Machine.Behind : Machine → Prop
  | .rx | .sel => False
  | .mux | .tx => True

/-- If the machine stands behind the receive and the selection machine of its port, these cannot move. -/
def FrontSettled (w : World) (fsm : Addr × Machine) : Prop :=
  fsm.2.Behind → lacpRxCheckConditions w fsm.1 = none ∧ lacpSelCheckConditions w fsm.1 = none

/-- What is found in the list of machines has the front machines of its port before it. -/
theorem find_behind_of_machines {test : Addr × Machine → Bool} {ports : List Addr} {m : Machine}
    (hm : m.Behind) (h : (ports.flatMap fun port => portMachines.map fun fsm => (port, fsm)).find? test
      = some (a, m)) : test (a, .rx) = false ∧ test (a, .sel) = false := by
  induction ports with
  | nil => cases h
  | cons p ports ih =>
    rw [List.flatMap_cons, List.find?_append] at h
    by_cases hblock : (portMachines.map fun fsm => (p, fsm)).find? test = none
    · rw [hblock, Option.none_or] at h
      exact ih h
    · obtain ⟨fsm, hfsm⟩ := Option.ne_none_iff_exists'.mp hblock
      rw [hfsm, Option.some_or] at h
      obtain rfl := Option.some.inj h
      have hmem := List.mem_of_find?_eq_some hfsm
      simp only [portMachines, List.map_cons, List.map_nil, List.mem_cons, Prod.mk.injEq,
        List.not_mem_nil, or_false] at hmem
      obtain rfl : a = p := by
        rcases hmem with ⟨hap, _⟩ | ⟨hap, _⟩ | ⟨hap, _⟩ | ⟨hap, _⟩ <;> exact hap
      cases hrx : test (a, .rx) with
      | true =>
        obtain rfl : Machine.rx = m := by simpa [portMachines, hrx] using hfsm
        exact hm.elim
      | false =>
        cases hsel : test (a, .sel) with
        | true =>
          obtain rfl : Machine.sel = m := by simpa [portMachines, hrx, hsel] using hfsm
          exact hm.elim
        | false => exact ⟨rfl, rfl⟩

theorem frontSettled_of_first {fsm : Addr × Machine} (h : lacpFamily.first w = some fsm) :
    FrontSettled w fsm := by
  obtain ⟨a, m⟩ := fsm
  intro hm
  obtain ⟨hrx, hsel⟩ : (lacpFire w (a, .rx)).isSome = false ∧ (lacpFire w (a, .sel)).isSome = false :=
    find_behind_of_machines hm h
  constructor
  · simpa [lacpFire, lacpCheckCondition] using hrx
  · simpa [lacpFire, lacpCheckCondition] using hsel

/-- A mux hop changes nothing that a receive or a selection machine looks at. -/
theorem muxHop_front (w : World) (a b : Addr) (s : MuxState) :
    lacpRxCheckConditions (muxHop w a s) b = lacpRxCheckConditions w b ∧
      lacpSelCheckConditions (muxHop w a s) b = lacpSelCheckConditions w b := by
  simp only [lacpRxCheckConditions, lacpSelCheckConditions, muxHop]
  by_cases hb : b = a
  · subst hb
    cases s <;> simp [muxEntered]
  · simp [hb]

/-- Neither does a transmit hop. -/
theorem txHop_front (w : World) (a b : Addr) (s : TxState) :
    lacpRxCheckConditions (txHop w a s) b = lacpRxCheckConditions w b ∧
      lacpSelCheckConditions (txHop w a s) b = lacpSelCheckConditions w b := by
  simp only [lacpRxCheckConditions, lacpSelCheckConditions, txHop]
  by_cases hb : b = a
  · subst hb
    cases s <;> simp [txEntered]
  · simp [hb]

theorem frontSettled_of_fire {fsm : Addr × Machine} (h : FrontSettled w fsm)
    (hfire : lacpFire w fsm = some w') : FrontSettled w' fsm := by
  obtain ⟨a, m⟩ := fsm
  intro hm
  obtain ⟨hrx, hsel⟩ := h hm
  cases m with
  | rx | sel => exact hm.elim
  | mux =>
    rw [lacpFire_mux] at hfire
    obtain ⟨s, _, rfl⟩ := Option.map_eq_some_iff.mp hfire
    exact ⟨(muxHop_front w a a s).1.trans hrx, (muxHop_front w a a s).2.trans hsel⟩
  | tx =>
    rw [lacpFire_tx] at hfire
    obtain ⟨s, _, rfl⟩ := Option.map_eq_some_iff.mp hfire
    exact ⟨(txHop_front w a a s).1.trans hrx, (txHop_front w a a s).2.trans hsel⟩

theorem orderedHop_of_hopWhere (h : lacpFamily.HopWhere FrontSettled w w') : OrderedHop w w' := by
  obtain ⟨⟨a, m⟩, hlisted, hsettled, hfire⟩ := h
  have ha : a ∈ w.sys.ports := mem_lacpMachines.mp hlisted
  cases m with
  | rx =>
    rw [show lacpFamily.fire w (a, .rx) = _ from lacpFire_rx w a] at hfire
    obtain ⟨s, guard, rfl⟩ := Option.map_eq_some_iff.mp hfire
    exact .rx ha guard
  | sel =>
    rw [show lacpFamily.fire w (a, .sel) = _ from lacpFire_sel w a] at hfire
    obtain ⟨s, guard, rfl⟩ := Option.map_eq_some_iff.mp hfire
    obtain rfl := lacpSelCheckConditions_eq_some w a guard
    exact .sel ha guard
  | mux =>
    rw [show lacpFamily.fire w (a, .mux) = _ from lacpFire_mux w a] at hfire
    obtain ⟨s, guard, rfl⟩ := Option.map_eq_some_iff.mp hfire
    exact .mux ha (hsettled trivial).1 (hsettled trivial).2 guard
  | tx =>
    rw [show lacpFamily.fire w (a, .tx) = _ from lacpFire_tx w a] at hfire
    obtain ⟨s, guard, rfl⟩ := Option.map_eq_some_iff.mp hfire
    exact .tx ha (hsettled trivial).1 (hsettled trivial).2 guard

/-- What `lacp_sys_update` returns is reached by hops, enables none, and has every flag clear. -/
theorem lacpSysUpdate_spec {n : ℕ} (h : Idle w) (hrun : lacpSysUpdate n w = some w') :
    Relation.ReflTransGen OrderedHop w w' ∧ Quiescent w' ∧ Idle w' := by
  rw [lacpSysUpdate_eq h] at hrun
  have hhops := lacpFamily.settle_hops_where (P := FrontSettled) frontSettled_of_fire frontSettled_of_first hrun
  have hordered : Relation.ReflTransGen OrderedHop w w' :=
    Relation.ReflTransGen.mono (fun _ _ => orderedHop_of_hopWhere) _ _ hhops
  refine ⟨hordered, quiescent_iff.mp (lacpFamily.settle_quiescent hrun), ?_⟩
  exact lacpFamily.hops_invariant (fun hidle hop => (hop_iff.mp hop).idle hidle)
    (Relation.ReflTransGen.mono (fun _ _ => Guarded.Family.HopWhere.hop _) _ _ hhops) h

/-- The scheduler returns at once where no machine can move. -/
theorem lacpSysUpdate_succ {n : ℕ} (h : Idle w) (hq : Quiescent w) :
    lacpSysUpdate (n + 1) w = some w := by
  rw [lacpSysUpdate_eq h, lacpFamily.settle_of_quiescent (quiescent_iff.mpr hq)]

/-- A quiescent world is left as it is. -/
theorem lacpSysUpdate_of_quiescent {n : ℕ} (h : Idle w) (hq : Quiescent w)
    (hrun : lacpSysUpdate n w = some w') : w' = w := by
  cases n with
  | zero => simp [lacpSysUpdate] at hrun
  | succ n =>
    rw [lacpSysUpdate_succ h hq] at hrun
    exact (Option.some.inj hrun).symm

end Scheduler

end Lacp
