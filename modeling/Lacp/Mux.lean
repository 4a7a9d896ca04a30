import Lacp.Stub

/-!
# The mux machine

Reference: `LACP/lacp_mux.c`.

`muxEntered` and `muxHardware` are what entering a state leaves in the port and in its entry of
`g_port_list`; `lacpMuxEnterState_port` and `lacpMuxEnterState_gPortList` connect them to the source.
-/

namespace Lacp

/-- `sys_is_ready`: every selected member of the port's group that is not in standby has waited. -/
def sysIsReady (w : World) (port : Addr) : Bool :=
  w.sys.ports.all fun p =>
    (w.port port).aggId != (w.port p).aggId
      || !((w.port p).selected && !(w.port p).standby && !(w.port p).readyN)

def disableCollectingDistributing (w : World) (port : Addr) : World :=
  trunkSspSetPortCd w (w.port port).portIndex false

def enableCollectingDistributing (w : World) (port : Addr) : World :=
  trunkSspSetPortCd w (w.port port).portIndex true

def detachMuxFromAggregator (w : World) (port : Addr) : World :=
  trunkSspAttachPort w (w.port port).portIndex false (w.port port).aggId

def attachMuxToAggregator (w : World) (port : Addr) : World :=
  trunkSspAttachPort w (w.port port).portIndex true (w.port port).aggId

/-- `lacp_mux_enter_state`. -/
def lacpMuxEnterState (w : World) (port : Addr) : World :=
  match (w.port port).mux.state with
  | .begin | .disable =>
    -- a port that does not run LACP forwards on its own
    let w := detachMuxFromAggregator w port
    let w := w.modify port fun p => { p with actor.state.SYN := false }
    let w := w.modify port fun p => { p with actor.state.COL := true }
    let w := enableCollectingDistributing w port
    w.modify port fun p => { p with actor.state.DIS := true, ntt := false }
  | .detached =>
    let w := detachMuxFromAggregator w port
    let w := w.modify port fun p => { p with actor.state.SYN := false }
    let w := w.modify port fun p => { p with actor.state.COL := false }
    let w := disableCollectingDistributing w port
    w.modify port fun p => { p with actor.state.DIS := false, ntt := true }
  | .waiting =>
    -- the only state that starts the wait timer and clears `ready_n`
    w.modify port fun p => { p with waitWhile := w.sys.aggregateWaitTime, readyN := false }
  | .readyN => w.modify port fun p => { p with readyN := true }
  | .attached =>
    let w := attachMuxToAggregator w port
    let w := w.modify port fun p => { p with actor.state.SYN := true }
    let w := w.modify port fun p => { p with actor.state.COL := false }
    let w := disableCollectingDistributing w port
    w.modify port fun p => { p with actor.state.DIS := false, ntt := true }
  | .rxTx =>
    let w := w.modify port fun p => { p with actor.state.DIS := true }
    let w := enableCollectingDistributing w port
    w.modify port fun p => { p with actor.state.COL := true, ntt := true }

/-- `lacp_mux_check_conditions`. The fall-through from `MUX_DISABLE` to `MUX_DETACHED` is behind the
first test and is never taken. -/
def lacpMuxCheckConditions (w : World) (port : Addr) : Option MuxState :=
  let p := w.port port
  if !p.lacpEnabled then
    if p.mux.state == .disable then none else some .disable
  else
    match p.mux.state with
    | .begin => some .detached
    | .disable => some .detached
    | .detached => if p.selected && !p.standby then some .waiting else none
    | .waiting => if p.waitWhile == 0 then some .readyN else none
    | .readyN =>
      if p.selected && !p.standby && sysIsReady w port then some .attached
      else if !p.selected || p.standby then some .detached
      else none
    | .attached =>
      if p.selected && !p.standby && p.partner.state.SYN then some .rxTx
      else if !p.selected || p.standby then some .detached
      else none
    | .rxTx =>
      if !p.selected || p.standby || !p.partner.state.SYN then some .attached else none

/-- The transitions of the mux machine, with the conditions under which each is taken. -/
inductive MuxGuard (ready : Bool) (p : LacpPort) : MuxState → Prop
  | off (hlac : p.lacpEnabled = false) (hs : p.mux.state ≠ .disable) : MuxGuard ready p .disable
  | reset (hlac : p.lacpEnabled = true) (hs : p.mux.state = .begin ∨ p.mux.state = .disable) :
      MuxGuard ready p .detached
  | select (hlac : p.lacpEnabled = true) (hs : p.mux.state = .detached)
      (hsel : p.selected = true) (hsb : p.standby = false) : MuxGuard ready p .waiting
  | waited (hlac : p.lacpEnabled = true) (hs : p.mux.state = .waiting)
      (hww : p.waitWhile = 0) : MuxGuard ready p .readyN
  | attach (hlac : p.lacpEnabled = true) (hs : p.mux.state = .readyN) (hsel : p.selected = true)
      (hsb : p.standby = false) (hready : ready = true) : MuxGuard ready p .attached
  | abandon (hlac : p.lacpEnabled = true) (hs : p.mux.state = .readyN)
      (hout : p.selected = false ∨ p.standby = true) : MuxGuard ready p .detached
  | sync (hlac : p.lacpEnabled = true) (hs : p.mux.state = .attached) (hsel : p.selected = true)
      (hsb : p.standby = false) (hsyn : p.partner.state.SYN = true) : MuxGuard ready p .rxTx
  | detach (hlac : p.lacpEnabled = true) (hs : p.mux.state = .attached)
      (hout : p.selected = false ∨ p.standby = true) : MuxGuard ready p .detached
  | desync (hlac : p.lacpEnabled = true) (hs : p.mux.state = .rxTx)
      (hout : p.selected = false ∨ p.standby = true ∨ p.partner.state.SYN = false) :
      MuxGuard ready p .attached

theorem muxGuard_of_check {w : World} {a : Addr} {s : MuxState}
    (h : lacpMuxCheckConditions w a = some s) : MuxGuard (sysIsReady w a) (w.port a) s := by
  simp only [lacpMuxCheckConditions] at h
  split at h
  · rename_i hlac
    split at h
    · simp at h
    · obtain rfl := Option.some.inj h
      exact .off (by simpa using hlac) (by simp_all)
  · rename_i hlac
    have hlac : (w.port a).lacpEnabled = true := by simpa using hlac
    cases hs : (w.port a).mux.state <;> simp only [hs] at h
    case begin =>
      obtain rfl := Option.some.inj h
      exact .reset hlac (.inl hs)
    case disable =>
      obtain rfl := Option.some.inj h
      exact .reset hlac (.inr hs)
    case detached =>
      split at h
      · obtain rfl := Option.some.inj h
        exact .select hlac hs (by simp_all) (by simp_all)
      · simp at h
    case waiting =>
      split at h
      · obtain rfl := Option.some.inj h
        exact .waited hlac hs (by simp_all)
      · simp at h
    case readyN =>
      split at h
      · obtain rfl := Option.some.inj h
        exact .attach hlac hs (by simp_all) (by simp_all) (by simp_all)
      · split at h
        · obtain rfl := Option.some.inj h
          exact .abandon hlac hs (by simp_all)
        · simp at h
    case attached =>
      split at h
      · obtain rfl := Option.some.inj h
        exact .sync hlac hs (by simp_all) (by simp_all) (by simp_all)
      · split at h
        · obtain rfl := Option.some.inj h
          exact .detach hlac hs (by simp_all)
        · simp at h
    case rxTx =>
      split at h
      · rename_i hout
        obtain rfl := Option.some.inj h
        exact .desync hlac hs (by simpa [or_assoc] using hout)
      · simp at h

/-! ## What entering a state does -/

/-- The actor state and the flags of the port after entering a state. -/
def muxEntered (sys : LacpSys) (p : LacpPort) : LacpPort :=
  match p.mux.state with
  | .begin | .disable =>
    { p with
      actor := { p.actor with
        state := { p.actor.state with SYN := false, COL := true, DIS := true } }
      ntt := false }
  | .detached =>
    { p with
      actor := { p.actor with
        state := { p.actor.state with SYN := false, COL := false, DIS := false } }
      ntt := true }
  | .waiting => { p with waitWhile := sys.aggregateWaitTime, readyN := false }
  | .readyN => { p with readyN := true }
  | .attached =>
    { p with
      actor := { p.actor with
        state := { p.actor.state with SYN := true, COL := false, DIS := false } }
      ntt := true }
  | .rxTx =>
    { p with
      actor := { p.actor with state := { p.actor.state with COL := true, DIS := true } }
      ntt := true }

/-- The entry of `g_port_list` after the port entered a state. -/
def muxHardware (p : LacpPort) (attr : PortAttr) : PortAttr :=
  match p.mux.state with
  | .begin | .disable => { attr with tid := 0, cd := 1 }
  | .detached => { attr with tid := 0, cd := 0 }
  | .waiting | .readyN => attr
  | .attached => { attr with tid := p.aggId, cd := 0 }
  | .rxTx => { attr with cd := 1 }

/-- The writes to `g_port_list` that entering a state makes, the last one first. -/
def muxWrites (p : LacpPort) (attr : PortAttr) : List Event :=
  match p.mux.state with
  | .begin | .disable =>
    [.hw p.portIndex { attr with tid := 0, cd := 1 }, .hw p.portIndex { attr with tid := 0 }]
  | .detached =>
    [.hw p.portIndex { attr with tid := 0, cd := 0 }, .hw p.portIndex { attr with tid := 0 }]
  | .waiting | .readyN => []
  | .attached =>
    [.hw p.portIndex { attr with tid := p.aggId, cd := 0 },
      .hw p.portIndex { attr with tid := p.aggId }]
  | .rxTx => [.hw p.portIndex { attr with cd := 1 }]

/-- The mux machine writes only to its own port's entry. -/
theorem eq_hw_of_mem_muxWrites {p : LacpPort} {attr : PortAttr} {e : Event}
    (he : e ∈ muxWrites p attr) : ∃ attr', e = .hw p.portIndex attr' := by
  cases hs : p.mux.state <;>
    simp only [muxWrites, hs, List.mem_cons, List.not_mem_nil, or_false] at he
  case rxTx => exact ⟨_, he⟩
  all_goals rcases he with he | he <;> exact ⟨_, he⟩

section EnterState

variable (w : World) (a b : Addr)

theorem lacpMuxEnterState_port :
    (lacpMuxEnterState w a).port b =
      if b = a then muxEntered w.sys (w.port a) else w.port b := by
  cases hs : (w.port a).mux.state <;> by_cases hb : b = a
  all_goals
    simp [lacpMuxEnterState, hs, muxEntered, hb, detachMuxFromAggregator, attachMuxToAggregator,
      enableCollectingDistributing, disableCollectingDistributing, trunkSspAttachPort,
      trunkSspSetPortCd]

theorem lacpMuxEnterState_gPortList (i : ℕ) :
    (lacpMuxEnterState w a).gPortList i =
      if i = (w.port a).portIndex then muxHardware (w.port a) (w.gPortList i)
      else w.gPortList i := by
  cases hs : (w.port a).mux.state <;> by_cases hi : i = (w.port a).portIndex
  all_goals
    simp [lacpMuxEnterState, hs, muxHardware, hi, detachMuxFromAggregator, attachMuxToAggregator,
      enableCollectingDistributing, disableCollectingDistributing, trunkSspAttachPort,
      trunkSspSetPortCd]

theorem lacpMuxEnterState_trace :
    (lacpMuxEnterState w a).trace =
      muxWrites (w.port a) (w.gPortList (w.port a).portIndex) ++ w.trace := by
  cases hs : (w.port a).mux.state
  all_goals
    simp [lacpMuxEnterState, hs, muxWrites, detachMuxFromAggregator, attachMuxToAggregator,
      enableCollectingDistributing, disableCollectingDistributing, trunkSspAttachPort,
      trunkSspSetPortCd]

theorem lacpMuxEnterState_frame :
    lacpMuxEnterState w a =
      { w with
        port := (lacpMuxEnterState w a).port
        gPortList := (lacpMuxEnterState w a).gPortList
        trace := (lacpMuxEnterState w a).trace } := by
  simp only [lacpMuxEnterState]
  split <;> rfl

end EnterState

end Lacp
