import Lacp.Sys

/-!
# The engine's entry points

Reference: `LACP/lacp_api.c`.

An entry point takes the fuel of the scheduler it runs and returns the new world, with its return code
where that is not always 0. `none` means that it does not return: the scheduler is still running, or a
null pointer was followed.

The bodies of the source's loops are definitions of their own, so that what one iteration does can be
stated once.
-/

namespace Lacp

/-- `LACP_CRITICAL_PATH_START`. -/
def lacpCriticalPathStart (w : World) : World := { w with lockDepth := w.lockDepth + 1 }

/-- `LACP_CRITICAL_PATH_END`. -/
def lacpCriticalPathEnd (w : World) : World := { w with lockDepth := w.lockDepth - 1 }

/-! ## `lacp_port_set_cfg` -/

/-- `lacp_port_cfg_t`, with one field for each bit of `field_mask`: `PT_CFG_STATE`, `PT_CFG_COST`,
`PT_CFG_PRIO` and `PT_CFG_STAT`. -/
structure LacpPortCfg where
  cfgState : Bool
  cfgCost : Bool
  cfgPrio : Bool
  cfgStat : Bool
  portBmp : LacpBitmap
  lacpEnabled : Bool
  portPriority : UInt16
  aggId : ℕ

/-- A zeroed `lacp_port_cfg_t`, as `memset` leaves it. -/
def LacpPortCfg.zero : LacpPortCfg where
  cfgState := false
  cfgCost := false
  cfgPrio := false
  cfgStat := false
  portBmp := lacpBitmapClear
  lacpEnabled := false
  portPriority := 0
  aggId := 0

/-- `port->lacp_enabled = uid_cfg->lacp_enabled`. -/
def setLacpEnabled (w : World) (port : Addr) (lacpEnabled : Bool) : World :=
  w.modify port fun p => { p with lacpEnabled := lacpEnabled }

/-- "add to agg". -/
def addToAgg (w : World) (port : Addr) (aggId : ℕ) : World :=
  let w := w.modify port fun p =>
    { p with actorAdmin.state.AGG := true, actor.state.AGG := true, aggId := aggId }
  lacpPortSetReselect w (some port)

/-- "notify to partner": the part of "delete from agg" before the engine runs. -/
def notifyPartner (w : World) (port : Addr) : World :=
  w.modify port fun p =>
    { p with ntt := true, actorAdmin.state.AGG := false, actor.state.AGG := false }

/-- "set agg member reselect": the part of "delete from agg" after the engine ran. -/
def leaveAgg (w : World) (port : Addr) : World :=
  (lacpPortSetReselect w (some port)).modify port fun p => { p with aggId := 0 }

/-- The body of `if (uid_cfg->field_mask & PT_CFG_STATE)`. -/
def cfgPortState (fuel : ℕ) (cfg : LacpPortCfg) (w : World) (port : Addr) : Option World :=
  if cfg.lacpEnabled then
    -- the group the port may come from is not reselected
    some (setLacpEnabled (addToAgg w port cfg.aggId) port cfg.lacpEnabled)
  else
    -- the engine runs first, so that the partner hears of it while the port still runs LACP
    (lacpSysUpdate fuel (notifyPartner w port)).map fun w =>
      setLacpEnabled (leaveAgg w port) port cfg.lacpEnabled

/-- The body of `if (uid_cfg->field_mask & PT_CFG_STAT)`. -/
def cfgPortStat (w : World) (port : Addr) : World :=
  w.modify port fun p => { p with rxLacpduCnt := 0, txLacpduCnt := 0 }

/-- The body of `if (uid_cfg->field_mask & PT_CFG_PRIO)`. -/
def cfgPortPrio (w : World) (port : Addr) (portPriority : UInt16) : World :=
  let w := w.modify port fun p =>
    { p with actorAdmin.portPriority := portPriority, actor.portPriority := portPriority }
  lacpPortSetReselect w (some port)

/-- What `lacp_port_set_cfg` does to a port it found. -/
def cfgPort (fuel : ℕ) (cfg : LacpPortCfg) (w : World) (port : Addr) : Option World :=
  (if cfg.cfgState then cfgPortState fuel cfg w port else some w).map fun w =>
    let w := if cfg.cfgCost then lacpPortSetReselect w (some port) else w
    let w := if cfg.cfgStat then cfgPortStat w port else w
    if cfg.cfgPrio then cfgPortPrio w port cfg.portPriority else w

/-- The loop body of `lacp_port_set_cfg`. -/
def cfgPortIndex (fuel : ℕ) (cfg : LacpPortCfg) (w : World) (portIndex : ℕ) : Option World :=
  if !lacpBitmapGetBit cfg.portBmp portIndex then some w
  else
    match lacpPortFind w portIndex with
    | none => some w
    | some port => cfgPort fuel cfg w port

/-- `lacp_port_set_cfg`. It always returns 0. -/
def lacpPortSetCfg (fuel : ℕ) (w : World) (cfg : LacpPortCfg) : Option World := do
  let w := lacpCriticalPathStart w
  let w ← (List.range lacpPortMax).foldlM (cfgPortIndex fuel cfg) w
  let w ← lacpSysUpdate fuel w
  return lacpCriticalPathEnd w

/-! ## Timers, creation and removal -/

/-- One timer in `lacp_one_second`. -/
def decrementTimer (timer : UInt16) : UInt16 := if timer > 0 then timer - 1 else timer

theorem decrementTimer_toNat (timer : UInt16) : (decrementTimer timer).toNat = timer.toNat - 1 := by
  simp only [decrementTimer]
  split
  · rename_i hpos
    exact UInt16.toNat_sub_of_le _ _ (UInt16.le_iff_toNat_le.mpr (UInt16.lt_iff_toNat_lt.mp hpos))
  · rename_i hzero
    rw [gt_iff_lt, UInt16.lt_iff_toNat_lt, UInt16.toNat_zero] at hzero
    omega

theorem decrementTimer_le {timer bound : UInt16} (h : timer ≤ bound) :
    decrementTimer timer ≤ bound := by
  rw [UInt16.le_iff_toNat_le] at h ⊢
  rw [decrementTimer_toNat]
  omega

/-- The loop body of `lacp_one_second`: the three timers of `port->timers`, and the hold count. -/
def oneSecondPort (port : LacpPort) : LacpPort :=
  { port with
    currentWhile := decrementTimer port.currentWhile
    periodicTimer := decrementTimer port.periodicTimer
    waitWhile := decrementTimer port.waitWhile
    holdCount := 0 }

/-- `lacp_one_second`. -/
def lacpOneSecond (fuel : ℕ) (w : World) : Option World :=
  if !w.sys.adminState then some w
  else
    let w := lacpCriticalPathStart w
    let w := w.forPorts fun _ port => oneSecondPort port
    (lacpSysUpdate fuel w).map lacpCriticalPathEnd

/-- The loop body of `lacp_create_ports`. -/
def createPortIndex (sysMac : ℕ → LacpMac) (ports : LacpBitmap) (w : World) (portIndex : ℕ) :
    World :=
  if lacpBitmapGetBit ports portIndex then
    match lacpPortCreate w (sysMac portIndex) portIndex with
    | some w => { w with sys := { w.sys with
        numberOfPorts := w.sys.numberOfPorts + 1
        portmap := lacpBitmapSetBit w.sys.portmap portIndex } }
    | none => w
  else w

/-- `lacp_create_ports`. `sysMac i` is what the uninitialised local of `lacp_port_get_actor_init` held
when port `i` was created. -/
def lacpCreatePorts (fuel : ℕ) (w : World) (sysMac : ℕ → LacpMac) (ports : LacpBitmap) :
    Option World :=
  lacpSysUpdate fuel ((List.range lacpPortMax).foldl (createPortIndex sysMac ports) w)

/-- The loop body of `lacp_remove_ports`. -/
def removePortIndex (ports : LacpBitmap) (w : World) (portIndex : ℕ) : World :=
  if lacpBitmapGetBit ports portIndex then
    match lacpPortFind w portIndex with
    | none => w
    | some port =>
      let w := lacpPortDelete w port
      { w with sys := { w.sys with
          numberOfPorts := w.sys.numberOfPorts - 1
          portmap := lacpBitmapClearBit w.sys.portmap portIndex } }
  else w

/-- `lacp_remove_ports`. -/
def lacpRemovePorts (w : World) (ports : LacpBitmap) : World :=
  (List.range lacpPortMax).foldl (removePortIndex ports) w

/-! ## `lacp_port_link_change` -/

/-- The writes of `lacp_port_link_change` to the port, from its entry of `g_port_list`. -/
def linkChangedPort (attr : PortAttr) (linkStatus : UInt32) (port : LacpPort) : LacpPort :=
  let port := { port with portEnabled := linkStatus != 0 }
  let port := { port with speed := attr.speed }
  let port := { port with duplex := attr.duplex }
  if port.duplex == 0 then { port with actor.state.AGG := false } else port

/-- `lacp_port_link_change`. On an absent port it returns inside the critical section. -/
def lacpPortLinkChange (fuel : ℕ) (w : World) (portIndex : ℕ) (linkStatus : UInt32) :
    Option (World × LacpRet) :=
  let w := lacpCriticalPathStart w
  match lacpPortFind w portIndex with
  | none => some (w, .notEnable)
  | some port =>
    -- a `Bool` is compared with the 32-bit argument
    if (if (w.port port).portEnabled then 1 else 0) == linkStatus then
      some (lacpCriticalPathEnd w, .ok)
    else
      let w := w.modify port fun p => linkChangedPort (w.gPortList p.portIndex) linkStatus p
      let w := lacpPortSetReselect w (some port)
      (lacpSysUpdate fuel w).map fun w => (lacpCriticalPathEnd w, .ok)

/-! ## `lacp_sys_set_cfg` -/

/-- `lacp_sys_cfg_t`, with one field for each bit of `field_mask`. -/
structure LacpSysCfg where
  cfgPbmpAdd : Bool
  cfgPbmpDel : Bool
  cfgPrio : Bool
  cfgLongPeriod : Bool
  cfgShortPeriod : Bool
  cfgPeriod : Bool
  ports : LacpBitmap
  period : UInt32
  priority : UInt32
  shortPeriod : UInt32
  longPeriod : UInt32

/-- A zeroed `lacp_sys_cfg_t`. -/
def LacpSysCfg.zero : LacpSysCfg where
  cfgPbmpAdd := false
  cfgPbmpDel := false
  cfgPrio := false
  cfgLongPeriod := false
  cfgShortPeriod := false
  cfgPeriod := false
  ports := lacpBitmapClear
  period := 0
  priority := 0
  shortPeriod := 0
  longPeriod := 0

/-- The loop body of `_lacp_port_update_info`. -/
def updateInfoPort (sys : LacpSys) (port : LacpPort) : LacpPort :=
  { port with
    actor := { port.actor with
      systemPriority := sys.priority
      state := { port.actor.state with TMT := sys.lacpTimeout != 0 } }
    ntt := true }

/-- `_lacp_port_update_info`. -/
def lacpPortUpdateInfo (w : World) : World := w.forPorts fun _ port => updateInfoPort w.sys port

/-- The `PBMP_ADD` loop body of `lacp_sys_set_cfg`. -/
def addPortIndex (sysMac : ℕ → LacpMac) (ports : LacpBitmap) (w : World) (portIndex : ℕ) : World :=
  if lacpBitmapGetBit ports portIndex then
    (lacpPortCreate w (sysMac portIndex) portIndex).getD w
  else w

/-- The `PBMP_DEL` loop body of `lacp_sys_set_cfg`: deleting an absent port follows a null pointer. -/
def delPortIndex (ports : LacpBitmap) (w : World) (portIndex : ℕ) : Option World :=
  if lacpBitmapGetBit ports portIndex then
    (lacpPortFind w portIndex).map fun port => lacpPortDelete w port
  else some w

/-- The scalar fields in the `else if` chain of `lacp_sys_set_cfg`; the first selected one is stored,
in the width of the field. -/
def setSysScalar (sys : LacpSys) (cfg : LacpSysCfg) : LacpSys :=
  if cfg.cfgPrio then { sys with priority := cfg.priority.toUInt16 }
  else if cfg.cfgLongPeriod then { sys with slowPeriodicTime := cfg.longPeriod.toUInt16 }
  else if cfg.cfgShortPeriod then { sys with fastPeriodicTime := cfg.shortPeriod.toUInt16 }
  else if cfg.cfgPeriod then { sys with lacpTimeout := cfg.period }
  else sys

/-- `lacp_sys_set_cfg`. It always returns 0. -/
def lacpSysSetCfg (fuel : ℕ) (w : World) (sysMac : ℕ → LacpMac) (cfg : LacpSysCfg) :
    Option World := do
  let w := lacpCriticalPathStart w
  let w := if cfg.cfgPbmpAdd then
    (List.range lacpPortMax).foldl (addPortIndex sysMac cfg.ports) w else w
  -- `BR_CFG_PBMP_ADD` stands alone; the other fields are one `else if` chain
  let w ← if cfg.cfgPbmpDel then (List.range lacpPortMax).foldlM (delPortIndex cfg.ports) w
    else some { w with sys := setSysScalar w.sys cfg }
  let w := lacpPortUpdateInfo w
  let w ← lacpSysUpdate fuel w
  return lacpCriticalPathEnd w

/-! ## `lacp_rx_lacpdu` -/

/-- `lacp_rx_lacpdu`. The length is not used. -/
def lacpRxLacpdu (fuel : ℕ) (w : World) (portIndex : ℕ) (pdu : LacpPdu) :
    Option (World × LacpRet) :=
  let w := lacpCriticalPathStart w
  match lacpPortFind w portIndex with
  | none => some (lacpCriticalPathEnd w, .rstpPortIsAbsent)
  | some port =>
    if !(w.port port).portEnabled then some (lacpCriticalPathEnd w, .rstpNotEnable)
    else if !w.sys.adminState then some (lacpCriticalPathEnd w, .rstpNotEnable)
    else
      (lacpSysUpdate fuel (lacpRxmRxLacpdu w port pdu)).map fun w => (lacpCriticalPathEnd w, .ok)

end Lacp
