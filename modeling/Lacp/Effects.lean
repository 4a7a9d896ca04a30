import Mathlib.Data.Set.Insert
import Lacp.Trunk

/-!
# What a call can do

A call of the API is a sequence of small effects: writes to the database and to the ports, with hops
of the engine between them. `Effect R c` lists these effects once, for every call `c`; invariants are
proved effect by effect and lifted to whole runs.

Within a call the state carries a set `E` of port indices. The ports in `E` are being created or
removed: their link-group bits, keys and `AGG` bits need not agree with the rest of their records.
Between two calls `E` is empty.

`R` is the condition every call of the run meets. An effect that happens in the state in which its
call was made keeps it as a hypothesis.
-/

namespace Lacp

/-- The index `trunk_ssp_get_global_index` computes. -/
def globalIndex (slot port : ℕ) : ℕ := slot * 8 + (port - 1)

/-- The port index a call names. -/
def Call.target : Call → Option ℕ
  | .portLacpEnable slot port _ _ | .portLacpDisable slot port | .portSetPrio slot port _
  | .portSetSpeed slot port _ | .portSetDuplex slot port _ | .portLinkChange slot port _
  | .portClearStat slot port | .rxLacpdu slot port _ => some (globalIndex slot port)
  | .setPortLinkStatus portIndex _ => some portIndex
  | .sysSetPrio _ | .sysSetLongPeriod _ | .sysSetShortPeriod _ | .sysSetPeriod _ | .aggDelete _
  | .oneSecond => none

/-- The call removes ports. -/
def Call.isRemoval : Call → Bool
  | .portLacpDisable _ _ | .aggDelete _ => true
  | _ => false

/-- The call makes a port a member of a group. -/
def Call.isJoin : Call → Bool
  | .portLacpEnable _ _ _ _ => true
  | _ => false

/-- The call sets the priority of a port. -/
def Call.isPrioChange : Call → Bool
  | .portSetPrio _ _ _ => true
  | _ => false

/-- The call passes a link status on. -/
def Call.isLinkChange : Call → Bool
  | .portLinkChange _ _ _ => true
  | _ => false

/-- The indices of the ports a call removes. -/
def Call.removes (w : World) : Call → Set ℕ
  | .portLacpDisable slot port => {globalIndex slot port}
  | .aggDelete aggId => {i | trunkGetPbmp (i / 8) (i % 8 + 1) (stubDbAggGetMember w aggId) = true}
  | _ => ∅

/-- The `lacp_sys_cfg_t` of a system setting. -/
def Call.sysCfg : Call → Option LacpSysCfg
  | .sysSetPrio prio => some { LacpSysCfg.zero with cfgPrio := true, priority := prio }
  | .sysSetLongPeriod period =>
    some { LacpSysCfg.zero with cfgLongPeriod := true, longPeriod := period }
  | .sysSetShortPeriod period =>
    some { LacpSysCfg.zero with cfgShortPeriod := true, shortPeriod := period }
  | .sysSetPeriod isShort => some { LacpSysCfg.zero with cfgPeriod := true, period := isShort }
  | _ => none

/-- The call stores a speed or a duplex value in `g_port_list`. -/
def Call.setsAttr : Call → Bool
  | .portSetSpeed _ _ _ | .portSetDuplex _ _ _ => true
  | _ => false

/-- The call stores a priority or a link status in `g_port_list`. -/
def Call.storesAttr : Call → Bool
  | .portSetPrio _ _ _ | .setPortLinkStatus _ _ => true
  | _ => false

/-- The entry of `g_port_list` that a speed or duplex call stores. -/
def Call.newAttr (w : World) (i : ℕ) : Call → PortAttr
  | .portSetSpeed _ _ speed => { w.gPortList i with speed := speed }
  | .portSetDuplex _ _ duplex => { w.gPortList i with duplex := duplex }
  | _ => w.gPortList i

/-- The priority that a call configures: its argument, or the one recorded for the port. -/
def Call.newPriority (w : World) (i : ℕ) : Call → UInt16
  | .portSetPrio _ _ prio => prio.toUInt16
  | _ => ((stubGetPortPriority w i).getD defaultPortPriority.toUInt32).toUInt16

/-- The link status that a call passes to `lacp_port_link_change`. -/
def Call.newStatus (w : World) (i : ℕ) : Call → UInt32
  | .portLinkChange _ _ linkStatus => linkStatus
  | _ => if trunkSspGetPortLinkStatus w i != 0 then 1 else 0

/-- The port that a frame received at `a` marks as moved: the first one whose link is down and whose
recorded partner is the sender. -/
def movedPort (w : World) (a : Addr) (pdu : LacpPdu) : Option Addr :=
  w.sys.ports.find? fun p => p != a && (w.port p).rx.state == .portDisabled
    && samePort (w.port p).partner (lacpCopyInfoFromNet pdu.actor)

/-! ## Writes -/

/-- The system record is `s` but for the port inventory. -/
def SysKept (s s' : LacpSys) : Prop :=
  s' = { s with portmap := s'.portmap, numberOfPorts := s'.numberOfPorts }

theorem SysKept.trans {r s s' : LacpSys} (h : SysKept r s) (h' : SysKept s s') : SysKept r s' := by
  rw [SysKept] at h h' ⊢
  rw [h', h]

theorem SysKept.txHoldCount {s s' : LacpSys} (h : SysKept s s') : s'.txHoldCount = s.txHoldCount := by
  rw [SysKept] at h
  rw [h]

/-- A write that applies `f` to every listed port and stores `s` in the system record. The link
groups and the entries of `g_port_list` of the indices in `touched` may change as well, but for `tid`
and `cd`. -/
structure Update (w w' : World) (s : LacpSys) (touched : Set ℕ)
    (f : Addr → LacpPort → LacpPort) : Prop where
  ports : w'.sys.ports = w.sys.ports
  sys : SysKept s w'.sys
  port : ∀ a ∈ w.sys.ports, w'.port a = f a (w.port a)
  brk : w'.brk = w.brk
  trace : w'.trace = w.trace
  tid : ∀ i, (w'.gPortList i).tid = (w.gPortList i).tid
  cd : ∀ i, (w'.gPortList i).cd = (w.gPortList i).cd
  entry : ∀ i, i ∉ touched → w'.gPortList i = w.gPortList i
  bits : ∀ i, i ∉ touched → ∀ g, trunkGetPbmp (i / 8) (i % 8 + 1) (w'.gLinkGroups g).ports =
    trunkGetPbmp (i / 8) (i % 8 + 1) (w.gLinkGroups g).ports

/-- The port at `a` becomes `u` of its record, and is deselected with the members of group `g`. -/
def reconfigured (a : Addr) (g : ℕ) (u : LacpPort → LacpPort) (b : Addr) (p : LacpPort) : LacpPort :=
  if b = a then { u p with selected := false }
  else if p.aggId = g then { p with selected := false }
  else p

/-- "add to agg", with `lacp_enabled`. -/
def joinPort (aggId : ℕ) (p : LacpPort) : LacpPort :=
  { p with
    actorAdmin := { p.actorAdmin with state := { p.actorAdmin.state with AGG := true } }
    actor := { p.actor with state := { p.actor.state with AGG := true } }
    aggId := aggId
    lacpEnabled := true }

/-- `PT_CFG_PRIO`. -/
def prioPort (portPriority : UInt16) (p : LacpPort) : LacpPort :=
  { p with
    actorAdmin := { p.actorAdmin with portPriority := portPriority }
    actor := { p.actor with portPriority := portPriority } }

/-- `PT_CFG_STAT`. -/
def statPort (p : LacpPort) : LacpPort := { p with rxLacpduCnt := 0, txLacpduCnt := 0 }

/-- The blocks of `lacp_port_set_cfg` on a port that is enabled: it joins the group, its counters are
cleared and its priority is set. -/
def enablePort (aggId : ℕ) (portPriority : UInt16) (p : LacpPort) : LacpPort :=
  prioPort portPriority (statPort (joinPort aggId p))

/-- "notify to partner". -/
def notifyPort (p : LacpPort) : LacpPort :=
  { p with
    ntt := true
    actorAdmin := { p.actorAdmin with state := { p.actorAdmin.state with AGG := false } }
    actor := { p.actor with state := { p.actor.state with AGG := false } } }

/-- The port leaves its group. -/
def leavePort (p : LacpPort) : LacpPort := { p with aggId := 0, lacpEnabled := false }

/-- `lacp_rxm_rx_lacpdu` on the receiving port. -/
def receivePort (pdu : LacpPdu) (p : LacpPort) : LacpPort :=
  { p with
    rxLacpduCnt := p.rxLacpduCnt + 1
    rcvdLacpdu := true
    msgActor := lacpCopyInfoFromNet pdu.actor
    msgPartner := lacpCopyInfoFromNet pdu.partner }

/-- A reception at `a`, which marks the port at `moved` as moved. -/
def received (a : Addr) (moved : Option Addr) (pdu : LacpPdu) (b : Addr) (p : LacpPort) : LacpPort :=
  if b = a then receivePort pdu p
  else if moved = some b then { p with portMoved := true }
  else p

/-- Apply `u` to the port at `a` alone. -/
def onlyAt (a : Addr) (u : LacpPort → LacpPort) (b : Addr) (p : LacpPort) : LacpPort :=
  if b = a then u p else p

/-! ## Effects -/

/-- The effects a call `c` is made of. -/
inductive Effect (R : World → Call → Prop) (c : Call) : Set ℕ × World → Set ℕ × World → Prop
  | hop {E : Set ℕ} {w w' : World} (hop : EngineHop w w') (hord : OrderedHop w w') :
      Effect R c (E, w) (E, w')
  /-- A write the engine does not see. -/
  | rest {E : Set ℕ} {w w' : World}
      (hw : Update w w' w.sys {i | ∀ a ∈ w.sys.ports, (w.port a).portIndex ≠ i} fun _ p => p)
      (hgroups : w'.gLinkGroups = w.gLinkGroups ∨ ∃ slot port aggId sysMac,
        c = .portLacpEnable slot port aggId sysMac ∧ lacpPortMax ≤ globalIndex slot port)
      (hattr : w'.gPortList = w.gPortList ∨ c.setsAttr = true) : Effect R c (E, w) (E, w')
  /-- The priority and the link status in `g_port_list` are the bridge's own. -/
  | store {E : Set ℕ} {w : World} {i : ℕ} {prio linkStatus : UInt32} (hc : c.target = some i)
      (hstores : c.storesAttr = true) :
      Effect R c (E, w) (E, stubSetPortAttr w i
        { w.gPortList i with prio := prio, linkStatus := linkStatus })
  | create {w w' : World} {slot port aggId : ℕ} {sysMac : LacpMac}
      (hc : c = .portLacpEnable slot port aggId sysMac) (hlt : globalIndex slot port < lacpPortMax)
      (hw : lacpPortCreate w sysMac (globalIndex slot port) = some w') (hok : R w c) :
      Effect R c (∅, w) ({globalIndex slot port}, w')
  /-- A port, created for this call or not, joins a group; the database knows it already. -/
  | join {E : Set ℕ} {w w' : World} {a : Addr} {slot port aggId : ℕ} {sysMac : LacpMac}
      {portPriority : UInt16}
      (hc : c = .portLacpEnable slot port aggId sysMac) (haggId : 1 ≤ aggId)
      (ha : a ∈ w.sys.ports) (hindex : (w.port a).portIndex = globalIndex slot port)
      (hE : E ⊆ {globalIndex slot port}) (hq : Quiescent w)
      (hok : (w.port a).lacpEnabled = true → R w c)
      (hw : Update w w' w.sys {globalIndex slot port}
        (reconfigured a aggId (enablePort aggId portPriority)))
      (hgroups : w'.gLinkGroups = (stubDbAggAddMember w aggId slot port).gLinkGroups)
      (hattr : w'.gPortList = w.gPortList)
      (hprio : portPriority = c.newPriority w (globalIndex slot port)) : Effect R c (E, w) (∅, w')
  /-- The group of a port is to be selected anew, perhaps with a new speed or duplex value. -/
  | reselect {w w' : World} {a : Addr} (hc : c.target = some (w.port a).portIndex)
      (ha : a ∈ w.sys.ports) (hlac : (w.port a).lacpEnabled = true)
      (hw : Update w w' w.sys {(w.port a).portIndex} (reconfigured a (w.port a).aggId id))
      (hok : R w c) (hgroups : w'.gLinkGroups = w.gLinkGroups)
      (hattr : w'.gPortList (w.port a).portIndex = c.newAttr w (w.port a).portIndex) :
      Effect R c (∅, w) (∅, w')
  | prio {w w' : World} {a : Addr} {portPriority : UInt16}
      (hc : c.target = some (w.port a).portIndex) (ha : a ∈ w.sys.ports)
      (hlac : (w.port a).lacpEnabled = true)
      (hw : Update w w' w.sys ∅ (reconfigured a (w.port a).aggId (prioPort portPriority)))
      (hprio : portPriority = c.newPriority w (w.port a).portIndex) (hok : R w c)
      (hcall : c.isPrioChange = true) : Effect R c (∅, w) (∅, w')
  | stat {w w' : World} {a : Addr} (hc : c.target = some (w.port a).portIndex)
      (ha : a ∈ w.sys.ports) (hw : Update w w' w.sys ∅ (onlyAt a statPort)) :
      Effect R c (∅, w) (∅, w')
  | link {w w' : World} {a : Addr} {linkStatus : UInt32}
      (hc : c.target = some (w.port a).portIndex) (ha : a ∈ w.sys.ports)
      (hlac : (w.port a).lacpEnabled = true) (hq : Quiescent w)
      (hw : Update w w' w.sys ∅ (reconfigured a (w.port a).aggId
        (linkChangedPort (w.gPortList (w.port a).portIndex) linkStatus)))
      (hstatus : linkStatus = c.newStatus w (w.port a).portIndex)
      (hchange : ((if (w.port a).portEnabled then 1 else 0) == linkStatus) = false)
      (hcall : c.isJoin = true ∨ c.isLinkChange = true ∧ R w c) : Effect R c (∅, w) (∅, w')
  | receive {w w' : World} {a : Addr} {moved : Option Addr} {slot port : ℕ} {pdu : LacpPdu}
      (hc : c = .rxLacpdu slot port pdu) (hindex : (w.port a).portIndex = globalIndex slot port)
      (ha : a ∈ w.sys.ports) (hlac : (w.port a).lacpEnabled = true)
      (hen : (w.port a).portEnabled = true) (hq : Quiescent w) (hok : R w c)
      (hmoved : ∀ b, moved = some b → b ∈ w.sys.ports ∧ b ≠ a ∧
        (w.port b).rx.state = .portDisabled ∧
        samePort (w.port b).partner (lacpCopyInfoFromNet pdu.actor) = true)
      (hw : Update w w' w.sys ∅ (received a moved pdu)) (hfirst : moved = movedPort w a pdu) :
      Effect R c (∅, w) (∅, w')
  | setSys {w w' : World} {cfg : LacpSysCfg} (hc : c.sysCfg = some cfg) (hok : R w c)
      (hw : Update w w' (setSysScalar w.sys cfg) ∅
        fun _ p => updateInfoPort (setSysScalar w.sys cfg) p) : Effect R c (∅, w) (∅, w')
  | tick {w w' : World} (hc : c = .oneSecond) (hq : Quiescent w)
      (hw : Update w w' w.sys ∅ fun _ p => oneSecondPort p) (hok : R w c) :
      Effect R c (∅, w) (∅, w')
  /-- The database forgets the ports that are to be removed. -/
  | unlink {w w' : World} {E : Set ℕ} (hc : c.isRemoval = true) (hE : E = c.removes w)
      (hq : Quiescent w) (hok : R w c) (hw : Update w w' w.sys E fun _ p => p)
      (hgroups : ∀ i ∈ E, i < 144 → ∀ g < 32,
        trunkGetPbmp (i / 8) (i % 8 + 1) (w'.gLinkGroups g).ports = false) :
      Effect R c (∅, w) (E, w')
  | notify {E : Set ℕ} {w w' : World} {a : Addr} (hc : c.isRemoval = true) (ha : a ∈ w.sys.ports)
      (hE : (w.port a).portIndex ∈ E) (hw : Update w w' w.sys ∅ (onlyAt a notifyPort)) :
      Effect R c (E, w) (E, w')
  | leave {E : Set ℕ} {w w' : World} {a : Addr} (hc : c.isRemoval = true) (ha : a ∈ w.sys.ports)
      (hE : (w.port a).portIndex ∈ E) (hq : Quiescent w) (hlac : (w.port a).lacpEnabled = true)
      (hw : Update w w' w.sys ∅ (reconfigured a (w.port a).aggId leavePort)) :
      Effect R c (E, w) (E, w')
  /-- The ports that left are taken off the list. -/
  | remove {E : Set ℕ} {w w' : World} (hc : c.isRemoval = true) (hq : Quiescent w)
      (hleft : ∀ a ∈ w.sys.ports, (w.port a).portIndex ∈ E → (w.port a).lacpEnabled = false)
      (hports : w'.sys.ports.Sublist w.sys.ports)
      (hmem : ∀ a ∈ w.sys.ports, a ∈ w'.sys.ports ↔ (w.port a).portIndex ∉ E)
      (hsys : SysKept { w.sys with ports := w'.sys.ports } w'.sys)
      (hw : w' = { w with sys := w'.sys }) : Effect R c (E, w) (∅, w')

/-- The effects of a whole call. -/
def Effects (R : World → Call → Prop) (c : Call) : Set ℕ × World → Set ℕ × World → Prop :=
  Relation.ReflTransGen (Effect R c)

/-- The invariant rule for calls: what every effect preserves, every call preserves. -/
theorem Effects.invariant {R : World → Call → Prop} {c : Call} {P : Set ℕ → World → Prop}
    (hP : ∀ {E w E' w'}, P E w → Effect R c (E, w) (E', w') → P E' w') {s t : Set ℕ × World}
    (h : Effects R c s t) (hs : P s.1 s.2) : P t.1 t.2 := by
  induction h with
  | refl => exact hs
  | tail _ heffect ih => exact hP ih heffect

/-- Only the creation of a port and the database put an index among those that are being removed. -/
theorem Effect.spared {R : World → Call → Prop} {c : Call} {E E' : Set ℕ} {w w' : World} {i : ℕ}
    (heffect : Effect R c (E, w) (E', w')) (hi : i ∉ E)
    (hcreate : ∀ slot port aggId sysMac, c = .portLacpEnable slot port aggId sysMac →
      globalIndex slot port ≠ i)
    (hremoves : R w c → i ∉ c.removes w) : i ∉ E' := by
  cases heffect with
  | create hc => exact fun hin => hcreate _ _ _ _ hc (Set.mem_singleton_iff.mp hin).symm
  | unlink _ hE _ hok =>
    rw [hE]
    exact hremoves hok
  | hop | rest | store | notify | leave => exact hi
  | join | reselect | prio | stat | link | receive | setSys | tick | remove => exact Set.notMem_empty i

/-! ## Consequences of a hop -/

/-- What the API configures in an entry of `g_port_list`; the mux machine writes the rest. -/
def PortAttr.configured (attr : PortAttr) : PortAttr := { attr with cd := 0, tid := 0 }

theorem PortAttr.of_configured_eq {attr attr' : PortAttr} (h : attr'.configured = attr.configured) :
    attr'.speed = attr.speed ∧ attr'.duplex = attr.duplex ∧ attr'.linkStatus = attr.linkStatus := by
  simp only [configured, mk.injEq] at h
  exact ⟨h.2.2.1, h.2.2.2.1, h.2.2.2.2.2.2.1⟩

section Hop

variable {w w' : World}

theorem EngineHop.gLinkGroups_eq (hop : EngineHop w w') : w'.gLinkGroups = w.gLinkGroups := by
  cases hop <;> rfl

/-- No hop changes what is configured. -/
theorem EngineHop.configured_eq (hop : EngineHop w w') (i : ℕ) :
    (w'.gPortList i).configured = (w.gPortList i).configured := by
  cases hop with
  | @mux a s =>
    simp only [muxHop]
    split
    · cases s <;> rfl
    · rfl
  | rx | sel | tx => rfl

/-- No hop changes the key a port should have. -/
theorem EngineHop.operKey (hop : EngineHop w w') (i : ℕ) :
    trunkSspGetPortOperKey w' i = trunkSspGetPortOperKey w i := by
  obtain ⟨hspeed, hduplex, _⟩ := PortAttr.of_configured_eq (hop.configured_eq i)
  exact trunkSspGetPortOperKey_congr
    (stubDbAggGetPortTid_congr fun _ => by rw [hop.gLinkGroups_eq]) hspeed hduplex

end Hop

/-! ## Consequences of an update -/

section Update

variable {w w' u : World} {s : LacpSys} {t t' : Set ℕ} {f : Addr → LacpPort → LacpPort}

/-- The link group of an index that was not touched. -/
theorem Update.member (h : Update w w' s t f) {i : ℕ} (hi : i ∉ t) :
    stubDbAggGetPortTid w' (i / 8) (i % 8 + 1) = stubDbAggGetPortTid w (i / 8) (i % 8 + 1) :=
  stubDbAggGetPortTid_congr (h.bits i hi)

/-- The key of an index that was not touched. -/
theorem Update.operKey (h : Update w w' s t f) {i : ℕ} (hi : i ∉ t) :
    trunkSspGetPortOperKey w' i = trunkSspGetPortOperKey w i :=
  trunkSspGetPortOperKey_congr (h.member hi) (by rw [h.entry i hi]) (by rw [h.entry i hi])

/-- Two writes in a row. -/
theorem Update.trans {f' : Addr → LacpPort → LacpPort} (h : Update w u s t f)
    (h' : Update u w' u.sys t' f') (hsub : t' ⊆ t) :
    Update w w' s t fun a p => f' a (f a p) where
  ports := h'.ports.trans h.ports
  sys := h.sys.trans h'.sys
  port := fun a ha => by rw [h'.port a (h.ports ▸ ha), h.port a ha]
  brk := h'.brk.trans h.brk
  trace := h'.trace.trans h.trace
  tid := fun i => (h'.tid i).trans (h.tid i)
  cd := fun i => (h'.cd i).trans (h.cd i)
  entry := fun i hi => (h'.entry i fun hi' => hi (hsub hi')).trans (h.entry i hi)
  bits := fun i hi g => (h'.bits i (fun hi' => hi (hsub hi')) g).trans (h.bits i hi g)

/-- Only what is written to the listed ports matters. -/
theorem Update.congr {f' : Addr → LacpPort → LacpPort} (h : Update w w' s t f)
    (hf : ∀ a ∈ w.sys.ports, f a (w.port a) = f' a (w.port a)) (hsub : t ⊆ t') :
    Update w w' s t' f' where
  ports := h.ports
  sys := h.sys
  port := fun a ha => (h.port a ha).trans (hf a ha)
  brk := h.brk
  trace := h.trace
  tid := h.tid
  cd := h.cd
  entry := fun i hi => h.entry i fun hi' => hi (hsub hi')
  bits := fun i hi => h.bits i fun hi' => hi (hsub hi')

end Update

end Lacp
