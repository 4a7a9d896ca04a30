import Lacp.Port

/-!
# The transmit machine

Reference: `LACP/lacp_tx.c`.
-/

namespace Lacp

/-- `slow_protocols_address`. -/
def slowProtocolsAddress : LacpMac := ⟨0x01, 0x80, 0xc2, 0x00, 0x00, 0x02⟩

/-- The information TLV of a frame: multi-byte fields in network byte order. -/
def lacpInfoToNet (info : LacpPortInfo) : LacpPortInfo where
  systemPriority := htons info.systemPriority
  systemMac := info.systemMac
  key := htons info.key
  portPriority := htons info.portPriority
  portNo := htons info.portNo
  state := info.state

/-- The receiver's copy undoes the sender's. -/
@[simp] theorem lacpCopyInfoFromNet_lacpInfoToNet (info : LacpPortInfo) :
    lacpCopyInfoFromNet (lacpInfoToNet info) = info := by
  simp only [lacpCopyInfoFromNet, lacpInfoToNet, ntohs_htons]

/-- The frame `tx_lacpdu` builds. What it does not assign is zero. -/
def lacpduPacket (pid : UInt32) (port : LacpPort) : LacpPdu where
  slowProtocolsAddress := slowProtocolsAddress
  srcAddress := trunkSspGetMac pid .zero
  ethertype := htons 0x8809
  protocolSubtype := 1
  protocolVersion := 1
  typeActor := 1
  lenActor := 20
  actor := lacpInfoToNet port.actor
  reserved1 := .replicate 3 0
  typePartner := 2
  lenPartner := 20
  partner := lacpInfoToNet port.partner
  reserved2 := .replicate 3 0
  typeCollector := 3
  lenCollector := 16
  collectorMaxDelay := htons 10
  reserved3 := .replicate 12 0
  typeTerminator := 0
  lenTerminator := 0
  reserved4 := .replicate 50 0

/-- `tx_lacpdu`. -/
def txLacpdu (w : World) (port : Addr) : World :=
  if !(w.port port).lacpEnabled then w
  else
    let pdu := lacpduPacket w.pid (w.port port)
    let w := w.modify port fun p => { p with txLacpduCnt := p.txLacpduCnt + 1 }
    trunkSspTxPdu w (w.port port) pdu

/-- `lacp_tx_enter_state`. -/
def lacpTxEnterState (w : World) (port : Addr) : World :=
  match (w.port port).tx.state with
  | .begin | .noPeriodic => w.modify port fun p => { p with periodicTimer := 0, holdCount := 0 }
  | .periodicTx =>
    w.modify port fun p =>
      { p with
        ntt := true
        periodicTimer :=
          if p.partner.state.TMT then w.sys.fastPeriodicTime else w.sys.slowPeriodicTime }
  | .idle => w
  | .tx =>
    let w := txLacpdu w port
    w.modify port fun p => { p with holdCount := p.holdCount + 1, ntt := false }

/-- `lacp_tx_check_conditions`. -/
def lacpTxCheckConditions (w : World) (port : Addr) : Option TxState :=
  let p := w.port port
  -- `TXM_NO_PERIODIC` is entered from every state, and left only when none of these holds
  if p.tx.state == .begin || !p.lacpEnabled || !p.portEnabled
      || (!p.actor.state.ACT && !p.partner.state.ACT) then
    if p.tx.state == .noPeriodic then none else some .noPeriodic
  else
    match p.tx.state with
    | .begin => none
    | .noPeriodic => some .idle
    | .periodicTx => some .idle
    | .idle =>
      -- the periodic timer goes before a pending transmission
      if p.periodicTimer == 0 then some .periodicTx
      else if p.ntt && p.holdCount < w.sys.txHoldCount then some .tx
      else none
    | .tx => some .idle

/-- The port may run its transmit machine. -/
def txActive (p : LacpPort) : Bool :=
  p.lacpEnabled && p.portEnabled && (p.actor.state.ACT || p.partner.state.ACT)

/-- The transitions of the transmit machine, with the conditions under which each is taken. -/
inductive TxGuard (sys : LacpSys) (p : LacpPort) : TxState → Prop
  | begin (hs : p.tx.state = .begin) : TxGuard sys p .noPeriodic
  | stop (hact : txActive p = false) (hb : p.tx.state ≠ .begin) (hs : p.tx.state ≠ .noPeriodic) :
      TxGuard sys p .noPeriodic
  | start (hact : txActive p = true) (hs : p.tx.state = .noPeriodic) : TxGuard sys p .idle
  | back (hact : txActive p = true) (hs : p.tx.state = .periodicTx ∨ p.tx.state = .tx) :
      TxGuard sys p .idle
  | periodic (hact : txActive p = true) (hs : p.tx.state = .idle) (hpt : p.periodicTimer = 0) :
      TxGuard sys p .periodicTx
  | send (hact : txActive p = true) (hs : p.tx.state = .idle) (hpt : p.periodicTimer ≠ 0)
      (hntt : p.ntt = true) (hhold : p.holdCount < sys.txHoldCount) : TxGuard sys p .tx

theorem txGuard_of_check {w : World} {a : Addr} {s : TxState}
    (h : lacpTxCheckConditions w a = some s) : TxGuard w.sys (w.port a) s := by
  simp only [lacpTxCheckConditions] at h
  split at h
  · rename_i hstop
    split at h
    · simp at h
    · rename_i hs
      obtain rfl := Option.some.inj h
      by_cases hb : (w.port a).tx.state = .begin
      · exact .begin hb
      · refine .stop ?_ hb (by simpa using hs)
        simp only [hb, beq_iff_eq, Bool.or_eq_true, Bool.not_eq_true', Bool.and_eq_true] at hstop
        simp only [txActive]
        rcases hstop with ((hb' | hlac) | hen) | ⟨hact, hact'⟩ <;> simp_all
  · rename_i hrun
    have hact : txActive (w.port a) = true := by
      simp only [Bool.or_eq_true, not_or, Bool.not_eq_true, Bool.not_eq_false',
        Bool.and_eq_false_iff] at hrun
      obtain ⟨⟨⟨_, hlac⟩, hen⟩, hact⟩ := hrun
      simp only [txActive, hlac, hen, Bool.true_and, Bool.or_eq_true]
      exact hact
    cases hs : (w.port a).tx.state <;> simp only [hs] at h
    case begin => simp at h
    case noPeriodic =>
      obtain rfl := Option.some.inj h
      exact .start hact hs
    case periodicTx =>
      obtain rfl := Option.some.inj h
      exact .back hact (.inl hs)
    case tx =>
      obtain rfl := Option.some.inj h
      exact .back hact (.inr hs)
    case idle =>
      split at h
      · obtain rfl := Option.some.inj h
        exact .periodic hact hs (by simp_all)
      · split at h
        · obtain rfl := Option.some.inj h
          exact .send hact hs (by simp_all) (by simp_all) (by simp_all)
        · simp at h

/-! ## What entering a state does -/

/-- The port's record after entering a state. -/
def txEntered (sys : LacpSys) (p : LacpPort) : LacpPort :=
  match p.tx.state with
  | .begin | .noPeriodic => { p with periodicTimer := 0, holdCount := 0 }
  | .periodicTx =>
    { p with
      ntt := true
      periodicTimer := if p.partner.state.TMT then sys.fastPeriodicTime else sys.slowPeriodicTime }
  | .idle => p
  | .tx =>
    { p with
      txLacpduCnt := if p.lacpEnabled then p.txLacpduCnt + 1 else p.txLacpduCnt
      holdCount := p.holdCount + 1
      ntt := false }

/-- The frames entering a state sends. -/
def txSent (pid : UInt32) (p : LacpPort) : List Event :=
  if p.tx.state = .tx ∧ p.lacpEnabled = true then
    [.tx { p with txLacpduCnt := p.txLacpduCnt + 1 } (lacpduPacket pid p)]
  else []

theorem eq_tx_of_mem_txSent {pid : UInt32} {p : LacpPort} {e : Event} (he : e ∈ txSent pid p) :
    e = .tx { p with txLacpduCnt := p.txLacpduCnt + 1 } (lacpduPacket pid p) := by
  simp only [txSent] at he
  split at he
  · exact List.mem_singleton.mp he
  · cases he

section EnterState

variable (w : World) (a b : Addr)

theorem lacpTxEnterState_port :
    (lacpTxEnterState w a).port b =
      if b = a then txEntered w.sys (w.port a) else w.port b := by
  cases hs : (w.port a).tx.state with
  | tx =>
    cases hlac : (w.port a).lacpEnabled <;> by_cases hb : b = a
    all_goals simp [lacpTxEnterState, hs, txEntered, txLacpdu, trunkSspTxPdu, hlac, hb]
  | _ => by_cases hb : b = a <;> simp [lacpTxEnterState, hs, txEntered, hb]

/-- A frame is sent in `TXM_TX` by a LACP-enabled port, and nowhere else. -/
theorem lacpTxEnterState_trace :
    (lacpTxEnterState w a).trace = txSent w.pid (w.port a) ++ w.trace := by
  cases hs : (w.port a).tx.state with
  | tx =>
    cases hlac : (w.port a).lacpEnabled
    all_goals simp [lacpTxEnterState, hs, txSent, txLacpdu, trunkSspTxPdu, hlac]
  | _ => simp [lacpTxEnterState, hs, txSent]

theorem lacpTxEnterState_frame :
    lacpTxEnterState w a =
      { w with port := (lacpTxEnterState w a).port, trace := (lacpTxEnterState w a).trace } := by
  simp only [lacpTxEnterState, txLacpdu]
  split <;> (try split) <;> rfl

end EnterState

end Lacp
