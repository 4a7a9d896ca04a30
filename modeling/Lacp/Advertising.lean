import Lacp.Keys
import Lacp.PortStates
import Lacp.Totality
import Lacp.Transmission

/-!
# Changes of what a port advertises

Reference: `tx_lacpdu`, `update_ntt`, `lacp_port_set_cfg` and `lacp_port_link_change`.

A transmission puts the actor record into the frame and clears `ntt`. Whatever changes the record
afterwards has to set `ntt`, or the partner is not told. The mux machine and `_lacp_port_update_info` do
so, and "notify to partner" does. A new priority, a new key, and an `AGG` bit that is set by the
configuration or cleared by a link change request no transmission. As long as these leave what was sent as
it is, no change is lost (`reachableBy_advertisesChanges`).
-/

namespace Lacp

/-- What the partner of a port learns of it from a frame. -/
def LacpPdu.sender (pdu : LacpPdu) : LacpPortInfo := lacpCopyInfoFromNet pdu.actor

/-- A port whose record differs from the last frame in a field that `update_ntt` compares is about to
transmit. -/
def AdvertisesChanges (w : World) : Prop :=
  ∀ a ∈ w.sys.ports, (w.port a).lacpEnabled = true → (w.port a).portEnabled = true →
    ∀ pdu, lastSent (w.port a).portIndex w.trace = some pdu →
      nttNeeded { w.port a with msgPartner := pdu.sender } = true → (w.port a).ntt = true

/-- The port has told its partner everything, and requests no transmission. -/
def Told (w : World) (p : LacpPort) : Prop :=
  p.portEnabled = true ∧ p.ntt = false ∧ (lastSent p.portIndex w.trace).isSome = true

instance (w : World) (p : LacpPort) : Decidable (Told w p) :=
  inferInstanceAs (Decidable (_ ∧ _ ∧ _))

/-- What the call writes into the record of the port, it has told its partner: no other priority, no other
key, and no other `AGG` bit. -/
def Call.Repeats (w : World) (p : LacpPort) : Call → Prop
  | .portSetPrio _ _ prio => p.actor.portPriority = prio.toUInt16
  | .portSetSpeed _ _ speed =>
    let i := p.portIndex
    trunkSspGetPortOperKey (stubSetPortAttr w i { w.gPortList i with speed := speed }) i =
      trunkSspGetPortOperKey w i
  | .portSetDuplex _ _ duplex =>
    let i := p.portIndex
    trunkSspGetPortOperKey (stubSetPortAttr w i { w.gPortList i with duplex := duplex }) i =
      trunkSspGetPortOperKey w i
  | .portLacpEnable slot port aggId sysMac =>
    let i := p.portIndex
    p.actor.state.AGG = true ∧
      p.actor.portPriority = Call.newPriority w i (.portLacpEnable slot port aggId sysMac) ∧
      trunkSspGetPortOperKey (stubDbAggAddMember w aggId slot port) i = trunkSspGetPortOperKey w i
  | .portLinkChange _ _ linkStatus =>
    linkStatus ≠ 0 → linkStatus ≠ 1 → (w.gPortList p.portIndex).duplex = 0 →
      p.actor.state.AGG = false
  | _ => True

instance (w : World) (p : LacpPort) : (c : Call) → Decidable (c.Repeats w p)
  | .portSetPrio _ _ _ | .portSetSpeed _ _ _ | .portSetDuplex _ _ _ =>
    inferInstanceAs (Decidable (_ = _))
  | .portLacpEnable _ _ _ _ => inferInstanceAs (Decidable (_ ∧ _ ∧ _))
  | .portLinkChange _ _ _ => inferInstanceAs (Decidable (_ → _ → _ → _))
  | .sysSetPrio _ | .sysSetLongPeriod _ | .sysSetShortPeriod _ | .sysSetPeriod _
  | .portLacpDisable _ _ | .aggDelete _ | .portClearStat _ _ | .setPortLinkStatus _ _
  | .rxLacpdu _ _ _ | .oneSecond => isTrue trivial

/-- The call changes nothing that the port it names has told its partner. -/
def Call.KeepsAdvertised (w : World) (c : Call) : Prop :=
  ∀ a ∈ w.sys.ports, c.target = some (w.port a).portIndex → Told w (w.port a) →
    c.Repeats w (w.port a)

instance (w : World) (c : Call) : Decidable (c.KeepsAdvertised w) :=
  inferInstanceAs (Decidable (∀ a ∈ w.sys.ports, _ → _ → _))

variable {R : World → Call → Prop} {c : Call} {E E' : Set ℕ} {w w' : World} {b : Addr}
  {p q : LacpPort} {pdu : LacpPdu}

/-! ## What a frame says of its sender -/

/-- The fields `update_ntt` compares; the other four bits are cleared. -/
def LacpPortInfo.significant (info : LacpPortInfo) : LacpPortInfo :=
  { info with state := { info.state with COL := false, DIS := false, DEF := false, EXP := false } }

theorem nttNeeded_eq_false_iff :
    nttNeeded p = false ↔ p.msgPartner.significant = p.actor.significant := by
  simp only [nttNeeded, Bool.or_eq_false_iff, Bool.not_eq_false', samePartner_iff, bne_eq_false_iff_eq,
    LacpPortInfo.significant, LacpPortInfo.mk.injEq, LacpState.mk.injEq]
  tauto

/-- A frame brings the record of its sender to the partner. -/
theorem sender_lacpduPacket (pid : UInt32) (p : LacpPort) : (lacpduPacket pid p).sender = p.actor := by
  simp only [LacpPdu.sender, lacpduPacket, lacpCopyInfoFromNet_lacpInfoToNet]

/-- The actor record of a port with its current key. -/
def actorOf (w : World) (p : LacpPort) : LacpPortInfo :=
  { p.actor with key := UInt16.ofNat (trunkSspGetPortOperKey w p.portIndex) }

/-- A selected port has its current key. -/
theorem KeyCurrent.actorOf_eq (h : KeyCurrent w p) (hlac : p.lacpEnabled = true)
    (hsel : p.selected = true) : actorOf w p = p.actor := by
  rw [actorOf, ← h hlac hsel]

/-! ## Whose frames they are -/

/-- A last frame is the frame of a port whose transmit machine runs. -/
def FramesOwned (w : World) : Prop :=
  ∀ i pdu, lastSent i w.trace = some pdu → ∃ a ∈ w.sys.ports, (w.port a).portIndex = i ∧
    (w.port a).tx.state ≠ .begin ∧ (w.port a).tx.state ≠ .noPeriodic

/-- A port whose transmit machine is stopped has sent nothing since. -/
theorem FramesOwned.lastSent_eq_none (h : FramesOwned w) (hc : Coherent E w) (hb : b ∈ w.sys.ports)
    (hs : (w.port b).tx.state = .begin ∨ (w.port b).tx.state = .noPeriodic) :
    lastSent (w.port b).portIndex w.trace = none := by
  cases hsent : lastSent (w.port b).portIndex w.trace with
  | none => rfl
  | some pdu =>
    obtain ⟨a, ha, hindex, hbegin, hrun⟩ := h _ pdu hsent
    obtain rfl := hc.index_inj ha hb hindex
    rcases hs with hs | hs
    · exact absurd hs hbegin
    · exact absurd hs hrun

theorem FramesOwned.effect (hc : Coherent E w) (h : FramesOwned w)
    (heffect : Effect R c (E, w) (E', w')) : FramesOwned w' := by
  intro i pdu hsent
  cases heffect.cases hc with
  | hop hop =>
    have hports : w'.sys.ports = w.sys.ports := congrArg LacpSys.ports hop.engineHop.sys_eq
    have hindex := hop.engineHop.portIndex_eq
    rcases hop.txHop_or_silent with ⟨a, s, ha, _, _, guard, rfl⟩ | ⟨hsilent, hkept⟩
    · rw [lastSent_txHop] at hsent
      by_cases hi : (w.port a).portIndex = i
      · -- the port itself owns what it has sent
        have hs : s ≠ .noPeriodic := by
          rintro rfl
          rw [if_neg (not_not_intro hi), if_neg fun hs => absurd hs.1 (by simp), if_pos rfl] at hsent
          cases hsent
        have hguard := txGuard_of_check guard
        refine ⟨a, ha, (hindex a).trans hi, ?_⟩
        rw [txHop_port_self]
        cases hguard with
        | begin | stop => exact absurd rfl hs
        | start | back | periodic | send => exact ⟨by simp [txEntered], by simp [txEntered]⟩
      · rw [if_pos hi] at hsent
        obtain ⟨b, hb, hib, hrun⟩ := h i pdu hsent
        have hba : b ≠ a := by
          rintro rfl
          exact hi hib
        refine ⟨b, hb, (hindex b).trans hib, ?_⟩
        rw [txHop_port_of_ne _ hba]
        exact hrun
    · rw [(hsilent i).2] at hsent
      obtain ⟨b, hb, hib, hrun⟩ := h i pdu hsent
      refine ⟨b, hports ▸ hb, (hindex b).trans hib, ?_⟩
      rw [(hkept b).1]
      exact hrun
  | setSys _ _ _ _ hw =>
    rw [hw.trace] at hsent
    obtain ⟨b, hb, hib, hrun⟩ := h i pdu hsent
    refine ⟨b, hw.ports ▸ hb, ?_⟩
    rw [hw.port b hb]
    exact ⟨hib, hrun⟩
  | write htrace _ _ hports hgone =>
    rw [htrace] at hsent
    obtain ⟨b, hb, hib, hrun⟩ := h i pdu hsent
    have hb' : b ∈ w'.sys.ports := by
      by_contra hb'
      -- the transmit machine of a port that left is stopped
      obtain ⟨_, hlac, hq⟩ := hgone b hb hb'
      exact hrun.2 (tx_stopped_of_quiescent hq hb (.inl hlac))
    rcases (hports b hb').core_or_created with ⟨_, hcore⟩ | ⟨rfl, _⟩
    · refine ⟨b, hb', (portIndex_of_core hcore).trans hib, ?_⟩
      rw [tx_of_core hcore]
      exact hrun
    · exact absurd (hc.addr_lt _ hb) (lt_irrefl _)

/-! ## During a call -/

/-- The port is about to transmit, or about to be detached and then to transmit, or the last frame says
of it what it will say once its group is selected. -/
def Informed (w : World) (p : LacpPort) : Prop :=
  p.lacpEnabled = true → p.portEnabled = true → ∀ pdu, lastSent p.portIndex w.trace = some pdu →
    p.ntt = true ∨ (p.Attached ∧ p.actor.state.SYN = false) ∨
      pdu.sender.significant = (actorOf w p).significant

namespace Informed

/-- Another record of the port that says the same but for its key, or requests a transmission. -/
theorem congr (h : Informed w p) (hindex : q.portIndex = p.portIndex)
    (hlac : q.lacpEnabled = true → p.lacpEnabled = true)
    (hen : q.portEnabled = true → p.portEnabled = true)
    (hsent : lastSent p.portIndex w'.trace = lastSent p.portIndex w.trace)
    (hoper : trunkSspGetPortOperKey w' p.portIndex = trunkSspGetPortOperKey w p.portIndex)
    (hntt : p.ntt = true → q.ntt = true)
    (hdoomed : p.Attached → p.actor.state.SYN = false → q.Attached ∧ q.actor.state.SYN = false)
    (hactor : { q.actor.significant with key := 0 } = { p.actor.significant with key := 0 }) :
    Informed w' q := by
  intro hlac' hen' pdu hpdu
  rw [hindex, hsent] at hpdu
  rcases h (hlac hlac') (hen hen') pdu hpdu with hrequest | ⟨hatt, hsyn⟩ | hsame
  · exact .inl (hntt hrequest)
  · exact .inr (.inl (hdoomed hatt hsyn))
  · have hkeyed := congrArg (fun info : LacpPortInfo =>
      { info with key := UInt16.ofNat (trunkSspGetPortOperKey w p.portIndex) }) hactor
    refine .inr (.inr (hsame.trans ?_))
    rw [actorOf, actorOf, hindex, hoper]
    exact hkeyed.symm

/-- Only a port that has told its partner everything is in question. -/
theorem of_told (hindex : q.portIndex = p.portIndex) (hntt : q.ntt = p.ntt)
    (hen : q.portEnabled = true → p.portEnabled = true)
    (hsent : lastSent p.portIndex w'.trace = lastSent p.portIndex w.trace)
    (h : q.portEnabled = true → Told w p → Informed w' q) : Informed w' q := by
  intro hlac hen' pdu hpdu
  cases hrequest : p.ntt with
  | true => exact .inl (hntt.trans hrequest)
  | false =>
    refine h hen' ⟨hen hen', hrequest, ?_⟩ hlac hen' pdu hpdu
    rw [← hsent, ← hindex, hpdu]
    rfl

theorem of_ntt (h : p.ntt = true) : Informed w p := fun _ _ _ _ => .inl h

theorem of_lastSent_eq_none (h : lastSent p.portIndex w.trace = none) : Informed w p := by
  intro _ _ pdu hpdu
  rw [h] at hpdu
  cases hpdu

/-- A hop of the receive, the selection or the mux machine. -/
theorem hop {attr : PortAttr} (hp : PortCoherent E w.sys (w.port b) attr) (h : Informed w (w.port b))
    (hop : PortHop w b q) (htx : q.tx = (w.port b).tx)
    (hsent : lastSent (w.port b).portIndex w'.trace = lastSent (w.port b).portIndex w.trace)
    (hoper : trunkSspGetPortOperKey w' (w.port b).portIndex =
      trunkSspGetPortOperKey w (w.port b).portIndex) : Informed w' q := by
  cases hop with
  | same | deselect | selDisabled | selAlone | select =>
    exact h.congr rfl id id hsent hoper id (fun hatt hsyn => ⟨hatt, hsyn⟩) rfl
  | @rx s _ guard =>
    have hguard := rxGuard_of_check guard
    cases hguard with
    | linkDown hoff => exact fun _ hen => absurd (hen.symm.trans hoff) (by simp)
    | start hs => exact fun hlac => absurd (hlac.symm.trans (hp.fresh hs).1) (by simp)
    | moved _ hpm => exact fun _ hen => absurd (hen.symm.trans (hp.moved hpm).1) (by simp)
    | initialized | linkUp | linkUpOff | lacpOn | expire =>
      exact h.congr rfl id id hsent hoper id (fun hatt hsyn => ⟨hatt, hsyn⟩) rfl
    | resume | refresh | recover =>
      refine h.congr rfl id id hsent hoper (fun hntt => ?_) (fun hatt hsyn => ⟨hatt, hsyn⟩) rfl
      simp only [rxEntered, hntt, Bool.true_or]
    | timeout =>
      cases hkept : samePartner (w.port b).partnerAdmin (w.port b).partner with
      | true =>
        refine h.congr rfl id id hsent hoper id (fun hatt hsyn => ⟨hatt, ?_⟩) ?_
        · simp only [rxEntered, hkept, Bool.and_true, hsyn]
        · simp only [rxEntered, hkept, Bool.and_true]
          rfl
      | false =>
        cases hsyn : (w.port b).actor.state.SYN with
        | true =>
          -- the port stays attached until the mux machine detaches it
          refine fun _ _ _ _ => .inr (.inl ⟨hp.syn hsyn, ?_⟩)
          simp only [rxEntered, hkept, Bool.and_false]
        | false =>
          refine h.congr rfl id id hsent hoper id (fun hatt _ => ⟨hatt, ?_⟩) ?_
          · simp only [rxEntered, hsyn, Bool.false_and]
          · simp only [rxEntered, LacpPortInfo.significant, hsyn, Bool.false_and]
  | @mux s _ guard =>
    have hguard := muxGuard_of_check guard
    cases hguard with
    | off hlac => exact fun hlac' => absurd (hlac'.symm.trans hlac) (by simp)
    | reset | attach | abandon | sync | detach | desync => exact of_ntt rfl
    | select _ hs | waited _ hs =>
      refine h.congr rfl id id hsent hoper id (fun hatt => ?_) rfl
      exact absurd hatt (by simp [LacpPort.Attached, hs])
  | @tx s _ guard =>
    -- a transmit machine that moves changes its state
    have hs : s = (w.port b).tx.state := by
      have hstate := congrArg LacpStateMach.state htx
      cases s <;> exact hstate
    have hguard := txGuard_of_check guard
    cases hguard with
    | begin hs' | start _ hs' | periodic _ hs' | send _ hs' => exact absurd (hs.trans hs') (by simp)
    | stop _ _ hs' => exact absurd hs.symm hs'
    | back _ hs' => rcases hs' with hs' | hs' <;> exact absurd (hs.trans hs') (by simp)

/-- A hop of the transmit machine. -/
theorem txHop {s : TxState} (hkey : KeyCurrent w (w.port b)) (h : Informed w (w.port b))
    (hsel : lacpSelCheckConditions w b = none) (guard : lacpTxCheckConditions w b = some s) :
    Informed (txHop w b s) ((txHop w b s).port b) := by
  have hsent := lastSent_txHop (i := (w.port b).portIndex) w b s
  rw [if_neg (not_not_intro rfl)] at hsent
  rw [txHop_port_self]
  have hguard := txGuard_of_check guard
  cases hguard with
  | begin | stop => exact of_lastSent_eq_none hsent
  | start | back => exact h.congr rfl id id hsent rfl id (fun hatt hsyn => ⟨hatt, hsyn⟩) rfl
  | periodic => exact of_ntt rfl
  | send =>
    -- the frame brings the record as it is, with the key of a selected port
    intro hlac _ pdu hpdu
    have hselected := (of_lacpSelCheckConditions_eq_none hsel).2
    obtain rfl := Option.some.inj ((hsent.trans (if_pos ⟨rfl, hlac⟩)).symm.trans hpdu)
    rw [sender_lacpduPacket]
    exact .inr (.inr (congrArg LacpPortInfo.significant (hkey.actorOf_eq hlac hselected).symm))

/-- A new link state, where a port whose link stays up keeps an `AGG` bit that it has told. -/
theorem linkChanged {status : UInt32} (hc : Coherent E w) (hframes : FramesOwned w)
    (h : Informed w (w.port b)) (hb : b ∈ w.sys.ports) (hq : Quiescent w)
    (htrace : w'.trace = w.trace)
    (hoper : trunkSspGetPortOperKey w' (w.port b).portIndex =
      trunkSspGetPortOperKey w (w.port b).portIndex)
    (htold : Told w (w.port b) → status ≠ 0 → (w.gPortList (w.port b).portIndex).duplex = 0 →
      (w.port b).actor.state.AGG = false) :
    Informed w' { linkChangedPort (w.gPortList (w.port b).portIndex) status (w.port b) with
      selected := false } := by
  cases hen : (w.port b).portEnabled with
  | false =>
    -- a port whose link is down transmits nothing
    have hnone := hframes.lastSent_eq_none hc hb (.inr (tx_stopped_of_quiescent hq hb (.inr hen)))
    simp only [linkChangedPort]
    split <;> exact of_lastSent_eq_none ((congrArg _ htrace).trans hnone)
  | true =>
    have hsent : lastSent (w.port b).portIndex w'.trace = lastSent (w.port b).portIndex w.trace :=
      congrArg _ htrace
    simp only [linkChangedPort]
    split
    · rename_i hhalf
      refine of_told (p := w.port b) rfl rfl (fun _ => hen) hsent fun hup ht => ?_
      have hagg := htold ht (by simpa using hup) (by simpa using hhalf)
      refine h.congr rfl id (fun _ => hen) hsent hoper id (fun hatt hsyn => ⟨hatt, hsyn⟩) ?_
      simp only [LacpPortInfo.significant, hagg]
    · exact h.congr rfl id (fun _ => hen) hsent hoper id (fun hatt hsyn => ⟨hatt, hsyn⟩) rfl

/-- A write to a port that keeps its group and its key. -/
theorem write (hc : Coherent E w) (hframes : FramesOwned w) (h : Informed w (w.port b))
    (hb : b ∈ w.sys.ports) (hwrite : PortWrite (fun w c => c.KeepsAdvertised w) c E w b q)
    (htrace : w'.trace = w.trace)
    (hoper : trunkSspGetPortOperKey w' (w.port b).portIndex =
      trunkSspGetPortOperKey w (w.port b).portIndex) : Informed w' q := by
  have hsent : lastSent (w.port b).portIndex w'.trace = lastSent (w.port b).portIndex w.trace :=
    congrArg _ htrace
  cases hwrite with
  | same | deselect | stat | receive | moved | tick =>
    exact h.congr rfl id id hsent hoper id (fun hatt hsyn => ⟨hatt, hsyn⟩) rfl
  | prio htarget hlac hprio hok hcall =>
    refine of_told (p := w.port b) rfl rfl id hsent fun _ ht => ?_
    have hrepeats := hok b hb htarget ht
    cases c with
    | portSetPrio slot port prio =>
      refine h.congr rfl id id hsent hoper id (fun hatt hsyn => ⟨hatt, hsyn⟩) ?_
      have hsame : _ = (w.port b).actor.portPriority := hprio.trans hrepeats.symm
      rw [hsame]
      rfl
    | _ => cases hcall
  | @link status htarget hlac hq hstatus hchange hcall =>
    refine h.linkChanged hc hframes hb hq htrace hoper fun ht hup => ?_
    have hone : status ≠ 1 := by
      rintro rfl
      simp [ht.1] at hchange
    rcases hcall with hjoin | ⟨hchanges, hok⟩
    · cases c with
      | portLacpEnable =>
        -- the status that `trunk_port_lacp_enable` passes on is 0 or 1
        simp only [Call.newStatus] at hstatus
        split at hstatus
        · exact absurd hstatus hone
        · exact absurd hstatus hup
      | _ => cases hjoin
    · have hrepeats := hok b hb htarget ht
      cases c with
      | portLinkChange =>
        obtain rfl := hstatus
        exact hrepeats hup hone
      | _ => cases hchanges
  | notify => exact of_ntt rfl
  | leave => exact fun hlac => by cases hlac

end Informed

/-- A call that repeats what the port has told leaves the key of the port as it is. -/
theorem Call.Repeats.operKey (h : c.Repeats w p) (hgroups : w'.gLinkGroups = w.gLinkGroups)
    (hattr : w'.gPortList p.portIndex = c.newAttr w p.portIndex) :
    trunkSspGetPortOperKey w' p.portIndex = trunkSspGetPortOperKey w p.portIndex := by
  have hstored : trunkSspGetPortOperKey w' p.portIndex = trunkSspGetPortOperKey
      (stubSetPortAttr w p.portIndex (c.newAttr w p.portIndex)) p.portIndex := by
    have hentry : (stubSetPortAttr w p.portIndex (c.newAttr w p.portIndex)).gPortList p.portIndex =
        c.newAttr w p.portIndex := if_pos rfl
    refine trunkSspGetPortOperKey_congr (groupOf_congr hgroups _) ?_ ?_
    · rw [hattr, hentry]
    · rw [hattr, hentry]
  rw [hstored]
  cases c with
  | portSetSpeed | portSetDuplex => exact h
  | _ =>
    refine trunkSspGetPortOperKey_congr (groupOf_congr rfl _) ?_ ?_
    all_goals exact congrArg _ (if_pos rfl)

/-! ## Effects -/

/-- A port that is being created for a call does not run LACP yet. -/
def CreatedOnly (c : Call) (E : Set ℕ) (w : World) : Prop :=
  c.isRemoval = false → ∀ a ∈ w.sys.ports, (w.port a).portIndex ∈ E → (w.port a).lacpEnabled = false

theorem CreatedOnly.effect (hc : Coherent E w) (h : CreatedOnly c E w)
    (heffect : Effect R c (E, w) (E', w')) : CreatedOnly c E' w' := by
  intro hremoval b hb hE
  cases heffect with
  | hop hop =>
    have hindex := hop.portIndex_eq b
    have hlac := hop.lacpEnabled_eq b
    rw [hindex] at hE
    rw [hlac]
    exact h hremoval b (hop.sys_eq ▸ hb) hE
  | rest hw =>
    have hb' : b ∈ w.sys.ports := hw.ports ▸ hb
    rw [hw.port b hb'] at hE ⊢
    exact h hremoval b hb' hE
  | store => exact h hremoval b hb hE
  | @create _ _ slot port aggId sysMac _ _ hw =>
    obtain ⟨hnew, rfl⟩ := lacpPortCreate_eq_some hw
    rcases List.mem_cons.mp hb with rfl | hb
    · rw [withCreated_port_self]
      rfl
    · rw [hc.withCreated_port hb] at hE
      exact absurd hE (hnew b hb)
  | join | reselect | prio | stat | link | receive | setSys | tick =>
    exact absurd hE (Set.notMem_empty _)
  | unlink hcall | notify hcall | leave hcall | remove hcall =>
    exact absurd (hremoval.symm.trans hcall) (by simp)

/-- What is known of the frames sent while the call `c` runs. -/
structure Advertised (c : Call) (E : Set ℕ) (w : World) : Prop where
  leaving : LeavingOnly c w
  created : CreatedOnly c E w
  keys : KeysFollow E w
  frames : FramesOwned w
  informed : ∀ a ∈ w.sys.ports, (w.port a).portIndex ∉ E → Informed w (w.port a)

namespace Advertised

/-- A port that is enabled anew. -/
theorem join {slot port aggId : ℕ} {sysMac : LacpMac} {portPriority : UInt16}
    (h : Advertised (.portLacpEnable slot port aggId sysMac) E w) (hb : b ∈ w.sys.ports)
    (hindex : (w.port b).portIndex = globalIndex slot port)
    (hok : (w.port b).lacpEnabled = true →
      Call.KeepsAdvertised w (.portLacpEnable slot port aggId sysMac))
    (hgroups : w'.gLinkGroups = (stubDbAggAddMember w aggId slot port).gLinkGroups)
    (hattr : w'.gPortList = w.gPortList) (htrace : w'.trace = w.trace)
    (hprio : portPriority = Call.newPriority w (w.port b).portIndex
      (.portLacpEnable slot port aggId sysMac)) :
    Informed w' { enablePort aggId portPriority (w.port b) with selected := false } := by
  cases hlac : (w.port b).lacpEnabled with
  | false =>
    intro _ hen
    cases h.leaving b hb hlac hen
  | true =>
    have hE : (w.port b).portIndex ∉ E := fun hE =>
      absurd ((h.created rfl b hb hE).symm.trans hlac) (by simp)
    have hsent : lastSent (w.port b).portIndex w'.trace = lastSent (w.port b).portIndex w.trace :=
      congrArg _ htrace
    refine .of_told (p := w.port b) rfl rfl id hsent fun _ ht => ?_
    obtain ⟨hagg, hsame, hoper⟩ := hok hlac b hb (congrArg some hindex.symm) ht
    have hoper' : trunkSspGetPortOperKey w' (w.port b).portIndex =
        trunkSspGetPortOperKey (stubDbAggAddMember w aggId slot port) (w.port b).portIndex :=
      trunkSspGetPortOperKey_congr (groupOf_congr hgroups _) (by rw [hattr]; rfl) (by rw [hattr]; rfl)
    refine (h.informed b hb hE).congr rfl (fun _ => hlac) id hsent (hoper'.trans hoper) id
      (fun hatt hsyn => ⟨hatt, hsyn⟩) ?_
    rw [hprio, ← hsame]
    simp only [enablePort, prioPort, statPort, joinPort, LacpPortInfo.significant, hagg]

theorem informed_of_effect (hc : Coherent E w) (h : Advertised c E w)
    (heffect : Effect (fun w c => c.KeepsAdvertised w) c (E, w) (E', w')) (hb : b ∈ w'.sys.ports)
    (hE' : (w'.port b).portIndex ∉ E') : Informed w' (w'.port b) := by
  cases heffect.cases hc with
  | hop hop hE =>
    have hb' : b ∈ w.sys.ports := hop.engineHop.sys_eq ▸ hb
    have hindex := hop.engineHop.portIndex_eq b
    rw [hindex, hE] at hE'
    have hp := h.informed b hb' hE'
    have hoper := hop.engineHop.operKey (w.port b).portIndex
    rcases hop.txHop_or_silent with ⟨a, s, ha, _, hsel, guard, rfl⟩ | ⟨hsilent, hkept⟩
    · by_cases hba : b = a
      · subst hba
        exact hp.txHop (h.keys b hb' hE') hsel guard
      · have hne : (w.port a).portIndex ≠ (w.port b).portIndex :=
          fun heq => hba (hc.index_inj hb' ha heq.symm)
        rw [txHop_port_of_ne _ hba]
        exact hp.congr rfl id id ((lastSent_txHop w a s).trans (if_pos hne)) hoper id
          (fun hatt hsyn => ⟨hatt, hsyn⟩) rfl
    · exact hp.hop (hc.port b hb') (hop.engineHop.portHop b) (hkept b).1 (hsilent _).2 hoper
  | setSys _ _ _ _ hw =>
    rw [hw.port b (hw.ports ▸ hb)]
    exact .of_ntt rfl
  | write htrace _ _ hports =>
    cases hports b hb with
    | write hb' hwrite hentry =>
      have hindex := hwrite.portIndex_eq
      obtain ⟨hE, hsame⟩ := hentry (hindex ▸ hE')
      exact (h.informed b hb' hE).write hc h.frames hb' hwrite htrace hsame.operKey
    | join hb' hcall _ hindex _ hok hgroups hattr hport hprio =>
      subst hcall
      rw [hport]
      exact h.join hb' hindex hok hgroups hattr htrace hprio
    | reselect hb' htarget hlac hE hok hgroups hattr hport =>
      have hp := h.informed b hb' (by rw [hE]; exact Set.notMem_empty _)
      have hsent : lastSent (w.port b).portIndex w'.trace = lastSent (w.port b).portIndex w.trace :=
        congrArg _ htrace
      rw [hport]
      refine .of_told (p := w.port b) rfl rfl id hsent fun _ ht => ?_
      have hrepeats := hok b hb' htarget ht
      exact hp.congr rfl id id hsent (hrepeats.operKey hgroups hattr) id
        (fun hatt hsyn => ⟨hatt, hsyn⟩) rfl
    | create _ _ _ _ _ _ hport =>
      rw [hport]
      exact fun hlac => by cases hlac

/-- No effect of a call that meets the condition hides a change. -/
theorem effect (hc : Coherent E w) (h : Advertised c E w)
    (heffect : Effect (fun w c => c.KeepsAdvertised w) c (E, w) (E', w')) : Advertised c E' w' where
  leaving := h.leaving.effect hc heffect
  created := h.created.effect hc heffect
  keys := h.keys.effect hc heffect
  frames := h.frames.effect hc heffect
  informed := fun _ hb hE => h.informed_of_effect hc heffect hb hE

end Advertised

/-! ## Runs -/

/-- What is known of the frames at rest. -/
theorem Advertised.advertisesChanges (hc : Coherent ∅ w) (hq : Quiescent w) (h : Advertised c ∅ w) :
    AdvertisesChanges w := by
  intro a ha hlac hen pdu hsent hneeded
  have hquiet := hc.portQuiet hq ha
  rcases h.informed a ha (Set.notMem_empty _) hlac hen pdu hsent with hntt | ⟨hatt, hsyn⟩ | hsame
  · exact hntt
  · -- a port at rest that is attached says so
    exact absurd (((hc.port a ha).syn_iff hquiet hlac).mpr hatt) (by simp [hsyn])
  · rw [(h.keys a ha (Set.notMem_empty _)).actorOf_eq hlac hquiet.selected] at hsame
    have hcurrent : nttNeeded { w.port a with msgPartner := pdu.sender } = false :=
      nttNeeded_eq_false_iff.mpr hsame
    exact absurd (hcurrent.symm.trans hneeded) (by simp)

/-- In a run in which no call changes what a port has told without a request to transmit, every change is
advertised. -/
theorem reachableBy_advertisesChanges (w : World)
    (h : ReachableBy (fun w c => c.KeepsAdvertised w) w) : AdvertisesChanges w := by
  obtain ⟨hc, hq⟩ := h.coherent
  have hadvertised : Advertised .oneSecond ∅ w :=
    h.invariant_of_calls (Q := fun w => Advertised .oneSecond ∅ w)
      (P := fun _ c E w => Advertised c E w)
      (fun pid =>
        { leaving := (coherent_initWorld pid).leavingOnly
          created := fun _ _ ha => absurd ha List.not_mem_nil
          keys := fun _ ha => absurd ha List.not_mem_nil
          frames := fun _ _ hsent => by cases hsent
          informed := fun _ ha => absurd ha List.not_mem_nil })
      (fun hc _ hQ _ _ => { hQ with
        leaving := hc.leavingOnly
        created := fun _ _ _ hE => absurd hE (Set.notMem_empty _) })
      (fun _ _ hc hP heffect => hP.effect hc heffect)
      fun _ _ hc _ hP => { hP with
        leaving := hc.leavingOnly
        created := fun _ _ _ hE => absurd hE (Set.notMem_empty _) }
  exact hadvertised.advertisesChanges hc hq

theorem aggregationRun_advertisesChanges :
    ∃ w, ReachableBy (fun w c => c.KeepsAdvertised w) w ∧ bothForward w = true ∧
      (lastSent 0 w.trace).isSome = true ∧ AdvertisesChanges w := by
  have hrun : (runCalls (fun w c => decide (c.KeepsAdvertised w)) 25 (initWorld 77)
      aggregationRun).any (fun w => bothForward w && (lastSent 0 w.trace).isSome) = true := by
    decide +kernel
  obtain ⟨w, h, _, hstate⟩ := exists_reachableBy_of_runCalls (by decide)
    (fun _ _ => of_decide_eq_true) hrun
  obtain ⟨hboth, hsent⟩ := Bool.and_eq_true_iff.mp hstate
  exact ⟨w, h, hboth, hsent, reachableBy_advertisesChanges w h⟩

/-- The port has transmitted when it is given another priority. -/
def prioRun : List Call :=
  [.setPortLinkStatus 0 1, .portLacpEnable 0 1 1 .zero, .portSetPrio 0 1 7]

/-- The partner is not told the new priority. -/
theorem not_reachableBy_advertisesChanges :
    ¬ ∀ w, ReachableBy (fun _ c => c.KeepsPeriods) w → AdvertisesChanges w := by
  intro hall
  have hrun : (runCalls (fun _ c => decide c.KeepsPeriods) 25 (initWorld 77) prioRun).any
      (fun w => decide (0 ∈ w.sys.ports ∧ (w.port 0).lacpEnabled = true ∧
        (w.port 0).portEnabled = true ∧ (w.port 0).ntt = false ∧
        (lastSent (w.port 0).portIndex w.trace).any fun pdu =>
          nttNeeded { w.port 0 with msgPartner := pdu.sender })) = true := by decide +kernel
  obtain ⟨w, h, _, hstate⟩ := exists_reachableBy_of_runCalls (by decide)
    (fun _ _ => of_decide_eq_true) hrun
  obtain ⟨ha, hlac, hen, hntt, hlast⟩ := of_decide_eq_true hstate
  obtain ⟨pdu, hsent, hneeded⟩ := (Option.any_eq_true _ _).mp hlast
  exact absurd (hntt.symm.trans (hall w h 0 ha hlac hen pdu hsent hneeded)) (by simp)

end Lacp
