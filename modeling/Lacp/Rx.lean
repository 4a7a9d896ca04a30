import Lacp.Port

/-!
# The receive machine

Reference: `LACP/lacp_rx.c`.

The functions are written as the source has them, statement by statement. `rxEntered` is the record
that entering a state leaves in the port, and `lacpRxEnterState_port` says that entering a state does
this to the port, deselects the group when the partner is a new one, and nothing else.
-/

namespace Lacp

/-- `_same_port`. -/
def samePort (a b : LacpPortInfo) : Bool :=
  a.portNo == b.portNo && a.systemMac == b.systemMac

/-- `_same_partner`. -/
def samePartner (a b : LacpPortInfo) : Bool :=
  a.portPriority == b.portPriority
    && a.portNo == b.portNo
    && a.systemPriority == b.systemPriority
    && a.systemMac == b.systemMac
    && a.key == b.key
    && a.state.AGG == b.state.AGG

/-- The fields `_same_partner` compares. -/
theorem samePartner_iff {a b : LacpPortInfo} :
    samePartner a b = true ↔ a.portPriority = b.portPriority ∧ a.portNo = b.portNo ∧
      a.systemPriority = b.systemPriority ∧ a.systemMac = b.systemMac ∧ a.key = b.key ∧
      a.state.AGG = b.state.AGG := by
  simp only [samePartner, Bool.and_eq_true, beq_iff_eq, and_assoc]

/-- `lacp_rxm_rx_lacpdu`. -/
def lacpRxmRxLacpdu (w : World) (port : Addr) (lacpdu : LacpPdu) : World :=
  let w := w.modify port fun p => { p with rxLacpduCnt := p.rxLacpduCnt + 1 }
  if !(w.port port).lacpEnabled then w
  else
    let w := w.modify port fun p => { p with rcvdLacpdu := true }
    let w := w.modify port fun p => { p with msgActor := lacpCopyInfoFromNet lacpdu.actor }
    let w := w.modify port fun p => { p with msgPartner := lacpCopyInfoFromNet lacpdu.partner }
    -- the loop stops at the first link-down port that has the sender as its partner
    match w.sys.ports.find? fun p =>
        p != port && (w.port p).rx.state == .portDisabled
          && samePort (w.port p).partner (w.port port).msgActor with
    | some p => w.modify p fun p => { p with portMoved := true }
    | none => w

/-! ## State entry

A function of the source that reads and writes only `*port` is a function on port records.
-/

/-- `actor_default`. -/
def actorDefault (port : LacpPort) : LacpPort :=
  { port with actor := lacpCopyInfo port.actorAdmin }

/-- `record_default`. -/
def recordDefault (port : LacpPort) : LacpPort :=
  -- `DEF` is kept in the actor's state and says that its partner is the default one
  { port with partner := lacpCopyInfo port.partnerAdmin, actor.state.DEF := true }

/-- The test of `update_partner_syn`: the partner speaks of this port as it is, or is an individual
link, and one of the two is active. -/
def partnerMatched (port : LacpPort) : Bool :=
  (samePartner port.msgPartner port.actor || !port.msgActor.state.AGG)
    && (port.msgActor.state.ACT || port.actor.state.ACT && port.msgPartner.state.ACT)

/-- `update_partner_syn`. -/
def updatePartnerSyn (port : LacpPort) : LacpPort :=
  let matched := partnerMatched port
  -- a partner that is not matched has to hear of this port again
  let port := if matched then port else { port with ntt := true }
  let partnerSync := matched && port.msgActor.state.SYN
  { port with partner.state.SYN := partnerSync }

/-- `update_selected`. -/
def updateSelected (w : World) (port : Addr) : World :=
  if !samePartner (w.port port).msgActor (w.port port).partner then
    let w := w.modify port fun p => { p with selected := false }
    lacpPortSetReselect w (some port)
  else w

/-- The test of `update_ntt`: what the partner knows of this port is out of date. -/
def nttNeeded (port : LacpPort) : Bool :=
  !samePartner port.msgPartner port.actor
    || port.msgPartner.state.ACT != port.actor.state.ACT
    || port.msgPartner.state.TMT != port.actor.state.TMT
    || port.msgPartner.state.SYN != port.actor.state.SYN
    || port.msgPartner.state.AGG != port.actor.state.AGG

/-- `update_ntt`. -/
def updateNtt (port : LacpPort) : LacpPort :=
  if nttNeeded port then { port with ntt := true } else port

/-- `record_pdu`. -/
def recordPdu (port : LacpPort) : LacpPort :=
  { port with partner := lacpCopyInfo port.msgActor, actor.state.DEF := false }

/-- `update_default_selected`. -/
def updateDefaultSelected (port : LacpPort) : LacpPort :=
  if !samePartner port.partnerAdmin port.partner then
    { port with selected := false, actor.state.SYN := false }
  else port

/-- `start_current_while_timer`. -/
def startCurrentWhileTimer (sys : LacpSys) (port : LacpPort) (shortTimeout : Bool) : LacpPort :=
  if shortTimeout then { port with currentWhile := sys.shortTimeoutTime }
  else { port with currentWhile := sys.longTimeoutTime }

/-- `lacp_rx_enter_state`. -/
def lacpRxEnterState (w : World) (port : Addr) : World :=
  match (w.port port).rx.state with
  | .begin | .init =>
    w.modify port fun p =>
      let p := { p with selected := false }
      let p := actorDefault p
      let p := recordDefault p
      { p with actor.state.EXP := false, portMoved := false }
  | .portDisabled =>
    w.modify port fun p =>
      { p with
        partner.state.SYN := false
        rcvdLacpdu := false
        currentWhile := 0
        selected := false }
  | .lacpDisabled =>
    w.modify port fun p =>
      let p := { p with selected := false }
      let p := recordDefault p
      { p with partner.state.AGG := false }
  | .expired =>
    w.modify port fun p =>
      let p := { p with partner.state.SYN := false }
      let p := { p with partner.state.TMT := true }
      let p := startCurrentWhileTimer w.sys p true
      { p with actor.state.EXP := true }
  | .defaulted =>
    w.modify port fun p =>
      let p := updateDefaultSelected p
      let p := recordDefault p
      { p with actor.state.EXP := false }
  | .current =>
    -- `update_selected` compares with the partner recorded so far, so it comes before `record_pdu`
    let w := updateSelected w port
    w.modify port fun p =>
      let p := updateNtt p
      let p := recordPdu p
      let p := updatePartnerSyn p
      let p := startCurrentWhileTimer w.sys p p.actor.state.TMT
      { p with actor.state.EXP := false, rcvdLacpdu := false }

/-! ## Guards -/

/-- `lacp_rx_check_conditions`: the state to hop to, or `none` where the source returns `False`. -/
def lacpRxCheckConditions (w : World) (port : Addr) : Option RxState :=
  let p := w.port port
  if !p.portEnabled && !p.portMoved && p.rx.state != .begin then
    -- the link is down: from every state but the first
    if p.rx.state == .portDisabled then none else some .portDisabled
  else
    match p.rx.state with
    | .begin => some .init
    | .init => some .portDisabled
    | .portDisabled =>
      if p.portMoved then some .init
      else if p.portEnabled && p.lacpEnabled then some .expired
      else if p.portEnabled && !p.lacpEnabled then some .lacpDisabled
      else none
    | .lacpDisabled => if p.portEnabled && p.lacpEnabled then some .expired else none
    | .expired =>
      if p.currentWhile == 0 then some .defaulted
      else if p.rcvdLacpdu then some .current
      else none
    | .current =>
      if p.currentWhile == 0 && !p.rcvdLacpdu then some .expired
      else if p.rcvdLacpdu then some .current
      else none
    | .defaulted => if p.rcvdLacpdu then some .current else none

/-- The transitions of the receive machine, with the conditions under which each is taken. -/
inductive RxGuard (p : LacpPort) : RxState → Prop
  | linkDown (hen : p.portEnabled = false) (hpm : p.portMoved = false) (hb : p.rx.state ≠ .begin)
      (hs : p.rx.state ≠ .portDisabled) : RxGuard p .portDisabled
  | start (hs : p.rx.state = .begin) : RxGuard p .init
  | initialized (hs : p.rx.state = .init)
      (hup : p.portEnabled = true ∨ p.portMoved = true) : RxGuard p .portDisabled
  | moved (hs : p.rx.state = .portDisabled) (hpm : p.portMoved = true) : RxGuard p .init
  | linkUp (hs : p.rx.state = .portDisabled) (hpm : p.portMoved = false)
      (hen : p.portEnabled = true) (hlac : p.lacpEnabled = true) : RxGuard p .expired
  | linkUpOff (hs : p.rx.state = .portDisabled) (hpm : p.portMoved = false)
      (hen : p.portEnabled = true) (hlac : p.lacpEnabled = false) : RxGuard p .lacpDisabled
  | lacpOn (hs : p.rx.state = .lacpDisabled) (hen : p.portEnabled = true)
      (hlac : p.lacpEnabled = true) : RxGuard p .expired
  | timeout (hs : p.rx.state = .expired) (hup : p.portEnabled = true ∨ p.portMoved = true)
      (hcw : p.currentWhile = 0) : RxGuard p .defaulted
  | resume (hs : p.rx.state = .expired) (hup : p.portEnabled = true ∨ p.portMoved = true)
      (hcw : p.currentWhile ≠ 0) (hrv : p.rcvdLacpdu = true) : RxGuard p .current
  | expire (hs : p.rx.state = .current) (hup : p.portEnabled = true ∨ p.portMoved = true)
      (hcw : p.currentWhile = 0) (hrv : p.rcvdLacpdu = false) : RxGuard p .expired
  | refresh (hs : p.rx.state = .current) (hup : p.portEnabled = true ∨ p.portMoved = true)
      (hrv : p.rcvdLacpdu = true) : RxGuard p .current
  | recover (hs : p.rx.state = .defaulted) (hup : p.portEnabled = true ∨ p.portMoved = true)
      (hrv : p.rcvdLacpdu = true) : RxGuard p .current

theorem rxGuard_of_check {w : World} {a : Addr} {s : RxState}
    (h : lacpRxCheckConditions w a = some s) : RxGuard (w.port a) s := by
  simp only [lacpRxCheckConditions] at h
  split at h
  · rename_i hdown
    simp only [Bool.and_eq_true, Bool.not_eq_true', bne_iff_ne] at hdown
    split at h
    · simp at h
    · rename_i hpd
      obtain rfl := Option.some.inj h
      exact .linkDown hdown.1.1 hdown.1.2 hdown.2 (by simpa using hpd)
  · rename_i hdown
    cases hs : (w.port a).rx.state <;> simp only [hs] at h hdown
    case begin =>
      obtain rfl := Option.some.inj h
      exact .start hs
    all_goals
      have hup : (w.port a).portEnabled = true ∨ (w.port a).portMoved = true := by
        cases hen : (w.port a).portEnabled with
        | true => exact .inl rfl
        | false => exact .inr (by simpa [hen] using hdown)
    case init =>
      obtain rfl := Option.some.inj h
      exact .initialized hs hup
    case portDisabled =>
      split at h
      · obtain rfl := Option.some.inj h
        exact .moved hs ‹_›
      · split at h
        · obtain rfl := Option.some.inj h
          exact .linkUp hs (by simp_all) (by simp_all) (by simp_all)
        · split at h
          · obtain rfl := Option.some.inj h
            exact .linkUpOff hs (by simp_all) (by simp_all) (by simp_all)
          · simp at h
    case expired =>
      split at h
      · obtain rfl := Option.some.inj h
        exact .timeout hs hup (by simp_all)
      · split at h
        · obtain rfl := Option.some.inj h
          exact .resume hs hup (by simp_all) ‹_›
        · simp at h
    case current =>
      split at h
      · obtain rfl := Option.some.inj h
        exact .expire hs hup (by simp_all) (by simp_all)
      · split at h
        · obtain rfl := Option.some.inj h
          exact .refresh hs hup ‹_›
        · simp at h
    case lacpDisabled =>
      split at h
      · obtain rfl := Option.some.inj h
        exact .lacpOn hs (by simp_all) (by simp_all)
      · simp at h
    case defaulted =>
      split at h
      · obtain rfl := Option.some.inj h
        exact .recover hs hup ‹_›
      · simp at h

/-! ## What entering a state does -/

/-- The port's record after entering a state, as a function of its record before. -/
def rxEntered (sys : LacpSys) (p : LacpPort) : LacpPort :=
  match p.rx.state with
  | .begin | .init =>
    { p with
      selected := false
      actor := { p.actorAdmin with state := { p.actorAdmin.state with DEF := true, EXP := false } }
      partner := p.partnerAdmin
      portMoved := false }
  | .portDisabled =>
    { p with partner.state.SYN := false, rcvdLacpdu := false, currentWhile := 0, selected := false }
  | .lacpDisabled =>
    { p with
      selected := false
      partner := { p.partnerAdmin with state := { p.partnerAdmin.state with AGG := false } }
      actor.state.DEF := true }
  | .expired =>
    { p with
      partner := { p.partner with state := { p.partner.state with SYN := false, TMT := true } }
      currentWhile := sys.shortTimeoutTime
      actor.state.EXP := true }
  | .defaulted =>
    let kept := samePartner p.partnerAdmin p.partner
    { p with
      selected := p.selected && kept
      partner := p.partnerAdmin
      actor := { p.actor with
        state := { p.actor.state with
          SYN := p.actor.state.SYN && kept, DEF := true, EXP := false } } }
  | .current =>
    { p with
      selected := p.selected && samePartner p.msgActor p.partner
      ntt := p.ntt || nttNeeded p || !partnerMatched p
      partner := { p.msgActor with
        state := { p.msgActor.state with SYN := partnerMatched p && p.msgActor.state.SYN } }
      actor := { p.actor with state := { p.actor.state with DEF := false, EXP := false } }
      currentWhile := if p.actor.state.TMT then sys.shortTimeoutTime else sys.longTimeoutTime
      rcvdLacpdu := false }

/-- Entering `RXM_CURRENT` with a partner other than the recorded one deselects the group. -/
def rxDeselects (p : LacpPort) : Bool :=
  p.rx.state == .current && !samePartner p.msgActor p.partner && p.aggId != 0

section EnterState

variable (w : World) (a b : Addr)

@[simp] theorem updateSelected_sys : (updateSelected w a).sys = w.sys := by
  simp only [updateSelected]
  split <;> simp

theorem updateSelected_port :
    (updateSelected w a).port b =
      if samePartner (w.port a).msgActor (w.port a).partner then w.port b
      else if b = a then { w.port a with selected := false }
      else if b ∈ w.sys.ports ∧ (w.port a).aggId ≠ 0 ∧ (w.port b).aggId = (w.port a).aggId then
        { w.port b with selected := false }
      else w.port b := by
  simp only [updateSelected]
  cases samePartner (w.port a).msgActor (w.port a).partner with
  | true => simp
  | false =>
    by_cases hb : b = a
    · subst hb
      simp [lacpPortSetReselect_port]
    · simp [lacpPortSetReselect_port, hb]

theorem updateNtt_eq (p : LacpPort) : updateNtt p = { p with ntt := p.ntt || nttNeeded p } := by
  simp only [updateNtt]
  cases nttNeeded p <;> simp

theorem updatePartnerSyn_eq (p : LacpPort) :
    updatePartnerSyn p =
      { p with
        ntt := p.ntt || !partnerMatched p
        partner.state.SYN := partnerMatched p && p.msgActor.state.SYN } := by
  simp only [updatePartnerSyn]
  cases partnerMatched p <;> simp

theorem startCurrentWhileTimer_eq (sys : LacpSys) (p : LacpPort) (s : Bool) :
    startCurrentWhileTimer sys p s =
      { p with currentWhile := if s then sys.shortTimeoutTime else sys.longTimeoutTime } := by
  cases s <;> rfl

/-- `RXM_CURRENT` on the port itself, once `update_selected` is done. -/
theorem rxEntered_current {sys : LacpSys} {p : LacpPort} (hs : p.rx.state = .current) :
    rxEntered sys p =
      (let p := { p with selected := p.selected && samePartner p.msgActor p.partner }
       let p := updatePartnerSyn (recordPdu (updateNtt p))
       let p := startCurrentWhileTimer sys p p.actor.state.TMT
       { p with actor.state.EXP := false, rcvdLacpdu := false }) := by
  simp only [updateNtt_eq, updatePartnerSyn_eq, startCurrentWhileTimer_eq, rxEntered, hs]
  rfl

/-- Entering a state changes the port as `rxEntered` says. It deselects the other members of the
group if the state is `RXM_CURRENT` and the partner is a new one; no other port is touched. -/
theorem lacpRxEnterState_port :
    (lacpRxEnterState w a).port b =
      if b = a then rxEntered w.sys (w.port a)
      else if b ∈ w.sys.ports ∧ rxDeselects (w.port a) ∧ (w.port b).aggId = (w.port a).aggId then
        { w.port b with selected := false }
      else w.port b := by
  cases hs : (w.port a).rx.state with
  | current =>
    simp only [lacpRxEnterState, hs, modify_port, updateSelected_sys]
    by_cases hb : b = a
    · subst hb
      rw [if_pos rfl, if_pos rfl, rxEntered_current hs, updateSelected_port]
      cases hsame : samePartner (w.port b).msgActor (w.port b).partner <;> simp
    · rw [if_neg hb, if_neg hb, updateSelected_port]
      cases hsame : samePartner (w.port a).msgActor (w.port a).partner <;>
        simp [hb, rxDeselects, hs, hsame]
  | defaulted =>
    by_cases hb : b = a
    · subst hb
      cases hsame : samePartner (w.port b).partnerAdmin (w.port b).partner <;>
        simp [lacpRxEnterState, hs, rxEntered, hsame, updateDefaultSelected, recordDefault]
    · simp [lacpRxEnterState, hs, rxDeselects, hb]
  | _ =>
    by_cases hb : b = a
    · subst hb
      simp [lacpRxEnterState, hs, rxEntered, actorDefault, recordDefault, startCurrentWhileTimer]
    · simp [lacpRxEnterState, hs, rxDeselects, hb]

/-- Entering a state leaves everything but the ports alone. -/
theorem lacpRxEnterState_frame :
    lacpRxEnterState w a = { w with port := (lacpRxEnterState w a).port } := by
  simp only [lacpRxEnterState, updateSelected, lacpPortSetReselect]
  split <;> (try split) <;> (try split) <;> rfl

end EnterState

end Lacp
