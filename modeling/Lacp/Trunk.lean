import Lacp.Api
import Lacp.Library.Fuel

/-!
# The trunk API and its runs

Reference: `trunk_api.c`, `trunk_ssp.c`, and the start-up of `bridge.c`.

`Call` is what can happen to a bridge: a call of the trunk API, a change of the link state recorded by
the bridge, the reception of a LACPDU, or the passing of a second. A run is a sequence of calls that
return; `Reachable` collects the states between two calls.
-/

namespace Lacp

/-! ## System settings -/

/-- The engine creates no port here, so the uninitialised memory does not matter. -/
def trunkSysSetCfg (fuel : ℕ) (w : World) (cfg : LacpSysCfg) : Option World :=
  lacpSysSetCfg fuel w (fun _ => .zero) cfg

/-- `trunk_sys_set_prio`. -/
def trunkSysSetPrio (fuel : ℕ) (w : World) (prio : UInt32) : Option (World × LacpRet) :=
  (trunkSysSetCfg fuel w { LacpSysCfg.zero with cfgPrio := true, priority := prio }).map fun w =>
    (stubDbSetSysPrio w prio, .ok)

/-- `trunk_sys_set_long_period`. -/
def trunkSysSetLongPeriod (fuel : ℕ) (w : World) (period : UInt32) : Option (World × LacpRet) :=
  (trunkSysSetCfg fuel w { LacpSysCfg.zero with cfgLongPeriod := true, longPeriod := period }).map
    fun w => (w, .ok)

/-- `trunk_sys_set_short_period`. -/
def trunkSysSetShortPeriod (fuel : ℕ) (w : World) (period : UInt32) : Option (World × LacpRet) :=
  (trunkSysSetCfg fuel w { LacpSysCfg.zero with cfgShortPeriod := true, shortPeriod := period }).map
    fun w => (w, .ok)

/-- `trunk_sys_set_period`. -/
def trunkSysSetPeriod (fuel : ℕ) (w : World) (isShort : UInt32) : Option (World × LacpRet) :=
  (trunkSysSetCfg fuel w { LacpSysCfg.zero with cfgPeriod := true, period := isShort }).map
    fun w => (w, .ok)

/-! ## Joining and leaving a link group -/

/-- `trunk_port_get_prio`. -/
def trunkPortGetPrio (w : World) (slot port : ℕ) : Option UInt32 :=
  (trunkSspGetGlobalIndex slot port).map fun portIndex =>
    (stubGetPortPriority w portIndex).getD defaultPortPriority.toUInt32

/-- The one-bit map of a port. -/
def portBit (portIndex : ℕ) : LacpBitmap := lacpBitmapSetBit lacpBitmapClear portIndex

/-- `trunk_port_lacp_enable`. -/
def trunkPortLacpEnable (fuel : ℕ) (w : World) (slot port aggId : ℕ) (sysMac : LacpMac) :
    Option (World × LacpRet) :=
  match trunkSspGetGlobalIndex slot port with
  | none => some (w, .internel)
  | some portIndex => do
    let w ← lacpCreatePorts fuel w (fun _ => sysMac) (portBit portIndex)
    let w := stubDbAggAddMember w aggId slot port
    match trunkPortGetPrio w slot port with
    | none => return (w, .internel)
    | some prio =>
      let w ← lacpPortSetCfg fuel w
        { cfgState := true
          cfgCost := true
          cfgPrio := true
          cfgStat := true
          portBmp := portBit portIndex
          lacpEnabled := true
          -- the store through `uint32_t *` also covers `state`, which nothing reads
          portPriority := prio.toUInt16
          aggId := aggId }
      lacpPortLinkChange fuel w portIndex
        (if trunkSspGetPortLinkStatus w portIndex != 0 then 1 else 0)

/-- `trunk_port_lacp_disable_batch`. It always returns 0. -/
def trunkPortLacpDisableBatch (fuel : ℕ) (w : World) (ports : LacpBitmap) : Option World := do
  let w ← lacpPortSetCfg fuel w
    { LacpPortCfg.zero with cfgState := true, lacpEnabled := false, aggId := 0, portBmp := ports }
  return lacpRemovePorts w ports

/-- `trunk_port_lacp_disable`. -/
def trunkPortLacpDisable (fuel : ℕ) (w : World) (slot port : ℕ) : Option (World × LacpRet) :=
  if !stubDbPortLacpIsEnable w slot port then some (w, .ok)
  else
    match trunkSspGetGlobalIndex slot port with
    | none => some (w, .internel)
    | some portIndex =>
      (trunkPortLacpDisableBatch fuel (stubDbAggDelMember w slot port) (portBit portIndex)).map
        fun w => (w, .ok)

/-- The `(slot, port)` pairs `trunk_agg_delete` looks at. -/
def aggDeletePairs : List (ℕ × ℕ) :=
  (List.range 19).flatMap fun slot => (List.range 8).map fun i => (slot, i + 1)

/-- The loop body of `trunk_agg_delete`, over the copy `pbmp` of the group's members. -/
def aggDeletePair (pbmp : ℕ → BitVec 8) (s : World × LacpBitmap) (pair : ℕ × ℕ) :
    World × LacpBitmap :=
  if trunkGetPbmp pair.1 pair.2 pbmp then
    match trunkSspGetGlobalIndex pair.1 pair.2 with
    | none => s
    | some portIndex => (stubDbAggDelMember s.1 pair.1 pair.2, lacpBitmapSetBit s.2 portIndex)
  else s

/-- `trunk_agg_delete`. -/
def trunkAggDelete (fuel : ℕ) (w : World) (aggId : ℕ) : Option (World × LacpRet) :=
  let s := aggDeletePairs.foldl (aggDeletePair (stubDbAggGetMember w aggId)) (w, lacpBitmapClear)
  (trunkPortLacpDisableBatch fuel s.1 s.2).map fun w => (w, .ok)

/-! ## Port settings -/

/-- `trunk_port_set_prio`. For port 0 the source reads an uninitialised index. -/
def trunkPortSetPrio (fuel : ℕ) (w : World) (slot port : ℕ) (prio : UInt32) :
    Option (World × LacpRet) := do
  let portIndex ← trunkSspGetGlobalIndex slot port
  let w ← if stubDbPortLacpIsEnable w slot port then
      lacpPortSetCfg fuel w { LacpPortCfg.zero with
        cfgPrio := true, portPriority := prio.toUInt16, portBmp := portBit portIndex }
    else some w
  return (stubSetPortPriority w portIndex prio, .ok)

/-- `trunk_ssp_set_port_speed`. -/
def trunkSspSetPortSpeed (fuel : ℕ) (w : World) (portIndex : ℕ) (speed : UInt32) : Option World :=
  let w := stubSetPortAttr w portIndex { w.gPortList portIndex with speed := speed }
  lacpPortSetCfg fuel w { LacpPortCfg.zero with cfgCost := true, portBmp := portBit portIndex }

/-- `trunk_ssp_set_port_duplex`. -/
def trunkSspSetPortDuplex (fuel : ℕ) (w : World) (portIndex : ℕ) (duplex : UInt32) :
    Option World :=
  let w := stubSetPortAttr w portIndex { w.gPortList portIndex with duplex := duplex }
  lacpPortSetCfg fuel w { LacpPortCfg.zero with cfgCost := true, portBmp := portBit portIndex }

/-- `trunk_port_set_speed`. -/
def trunkPortSetSpeed (fuel : ℕ) (w : World) (slot port : ℕ) (speed : UInt32) :
    Option (World × LacpRet) :=
  match trunkSspGetGlobalIndex slot port with
  | none => some (w, .internel)
  | some portIndex => (trunkSspSetPortSpeed fuel w portIndex speed).map fun w => (w, .ok)

/-- `trunk_port_set_duplex`. -/
def trunkPortSetDuplex (fuel : ℕ) (w : World) (slot port : ℕ) (duplex : UInt32) :
    Option (World × LacpRet) :=
  match trunkSspGetGlobalIndex slot port with
  | none => some (w, .internel)
  | some portIndex => (trunkSspSetPortDuplex fuel w portIndex duplex).map fun w => (w, .ok)

/-- `trunk_port_link_change`. -/
def trunkPortLinkChange (fuel : ℕ) (w : World) (slot port : ℕ) (linkStatus : UInt32) :
    Option (World × LacpRet) :=
  if !stubDbPortLacpIsEnable w slot port then some (w, .ok)
  else
    match trunkSspGetGlobalIndex slot port with
    | none => some (w, .internel)
    | some portIndex => lacpPortLinkChange fuel w portIndex linkStatus

/-- `trunk_port_clear_stat`. For port 0 the source reads an uninitialised index. -/
def trunkPortClearStat (fuel : ℕ) (w : World) (slot port : ℕ) : Option (World × LacpRet) := do
  let portIndex ← trunkSspGetGlobalIndex slot port
  let w ← if stubDbPortLacpIsEnable w slot port then
      lacpPortSetCfg fuel w
        { LacpPortCfg.zero with cfgStat := true, portBmp := portBit portIndex }
    else some w
  return (w, .ok)

/-- `trunk_ssp_rx_lacpdu`. -/
def trunkSspRxLacpdu (fuel : ℕ) (w : World) (slot port : ℕ) (pdu : LacpPdu) :
    Option (World × LacpRet) :=
  if !stubDbPortLacpIsEnable w slot port then some (w, .ok)
  else
    match trunkSspGetGlobalIndex slot port with
    | none => some (w, .internel)
    | some portIndex => lacpRxLacpdu fuel w portIndex pdu

/-! ## Runs -/

/-- What can happen to a bridge. `sysMac` is the uninitialised memory of `lacp_port_get_actor_init`. -/
inductive Call
  | sysSetPrio (prio : UInt32)
  | sysSetLongPeriod (period : UInt32)
  | sysSetShortPeriod (period : UInt32)
  | sysSetPeriod (isShort : UInt32)
  | portLacpEnable (slot port aggId : ℕ) (sysMac : LacpMac)
  | portLacpDisable (slot port : ℕ)
  | aggDelete (aggId : ℕ)
  | portSetPrio (slot port : ℕ) (prio : UInt32)
  | portSetSpeed (slot port : ℕ) (speed : UInt32)
  | portSetDuplex (slot port : ℕ) (duplex : UInt32)
  | portLinkChange (slot port : ℕ) (linkStatus : UInt32)
  | portClearStat (slot port : ℕ)
  | setPortLinkStatus (portIndex : ℕ) (linkStatus : UInt32)
  | rxLacpdu (slot port : ℕ) (pdu : LacpPdu)
  | oneSecond

/-- The arguments name a port and a link group that exist: slots 0 to 17, ports 1 to 8, groups 1 to
32. Periods, priorities, speeds, duplex values and frames are arbitrary. -/
def Call.InRange : Call → Prop
  | .portLacpEnable slot port aggId _ => slot < 18 ∧ 1 ≤ port ∧ port ≤ 8 ∧ 1 ≤ aggId ∧ aggId ≤ 32
  | .aggDelete aggId => 1 ≤ aggId ∧ aggId ≤ 32
  | .portLacpDisable slot port | .portSetPrio slot port _ | .portSetSpeed slot port _
  | .portSetDuplex slot port _ | .portLinkChange slot port _ | .portClearStat slot port
  | .rxLacpdu slot port _ => slot < 18 ∧ 1 ≤ port ∧ port ≤ 8
  | .setPortLinkStatus portIndex _ => portIndex < 144
  | .sysSetPrio _ | .sysSetLongPeriod _ | .sysSetShortPeriod _ | .sysSetPeriod _ | .oneSecond => True

instance (c : Call) : Decidable c.InRange := by
  cases c <;> simp only [Call.InRange] <;> infer_instance

/-- The code a call runs, with its return value. -/
def runCall (fuel : ℕ) (w : World) : Call → Option (World × LacpRet)
  | .sysSetPrio prio => trunkSysSetPrio fuel w prio
  | .sysSetLongPeriod period => trunkSysSetLongPeriod fuel w period
  | .sysSetShortPeriod period => trunkSysSetShortPeriod fuel w period
  | .sysSetPeriod isShort => trunkSysSetPeriod fuel w isShort
  | .portLacpEnable slot port aggId sysMac => trunkPortLacpEnable fuel w slot port aggId sysMac
  | .portLacpDisable slot port => trunkPortLacpDisable fuel w slot port
  | .aggDelete aggId => trunkAggDelete fuel w aggId
  | .portSetPrio slot port prio => trunkPortSetPrio fuel w slot port prio
  | .portSetSpeed slot port speed => trunkPortSetSpeed fuel w slot port speed
  | .portSetDuplex slot port duplex => trunkPortSetDuplex fuel w slot port duplex
  | .portLinkChange slot port linkStatus => trunkPortLinkChange fuel w slot port linkStatus
  | .portClearStat slot port => trunkPortClearStat fuel w slot port
  | .setPortLinkStatus portIndex linkStatus =>
    some (trunkSspSetPortLinkStatus w portIndex linkStatus, .ok)
  | .rxLacpdu slot port pdu => trunkSspRxLacpdu fuel w slot port pdu
  | .oneSecond => (lacpOneSecond fuel w).map fun w => (w, .ok)

/-- The call returns and leaves the world `w'`. -/
def Step (c : Call) (w w' : World) : Prop :=
  c.InRange ∧ ∃ fuel ret, runCall fuel w c = some (w', ret)

/-- The states between two calls of a run in which every call meets the condition `R`. -/
inductive ReachableBy (R : World → Call → Prop) : World → Prop
  | init (pid : UInt32) : ReachableBy R (initWorld pid)
  | step {w w' : World} {c : Call} (h : ReachableBy R w) (hok : R w c) (hstep : Step c w w') :
      ReachableBy R w'

/-- The states between two calls of any run. -/
def Reachable : World → Prop := ReachableBy fun _ _ => True

/-- The invariant rule for runs. -/
theorem ReachableBy.invariant {R : World → Call → Prop} {P : World → Prop}
    (init : ∀ pid, P (initWorld pid))
    (step : ∀ {w w' c}, ReachableBy R w → P w → R w c → Step c w w' → P w') {w : World}
    (h : ReachableBy R w) : P w := by
  induction h with
  | init pid => exact init pid
  | step h hok hstep ih => exact step h ih hok hstep

/-- Run a list of calls, each with the same fuel, as long as each passes the test. -/
def runCalls (test : World → Call → Bool) (fuel : ℕ) (w : World) (calls : List Call) :
    Option World :=
  calls.foldlM (fun w c => if test w c then (runCall fuel w c).map Prod.fst else none) w

theorem reachableBy_of_runCalls {R : World → Call → Prop} {test : World → Call → Bool}
    {fuel : ℕ} {calls : List Call} {w w' : World} (h : ReachableBy R w)
    (hrange : ∀ c ∈ calls, c.InRange) (htest : ∀ w c, test w c = true → R w c)
    (hrun : runCalls test fuel w calls = some w') : ReachableBy R w' := by
  refine Fuel.foldlM_invariant (P := ReachableBy R) (fun c hc u v hu hcall => ?_) h hrun
  split at hcall
  · rename_i hok
    obtain ⟨⟨v', ret⟩, hcalled, rfl⟩ := Option.map_eq_some_iff.mp hcall
    exact hu.step (htest u c hok) ⟨hrange c hc, fuel, ret, hcalled⟩
  · cases hcall

end Lacp
