import Lacp.Totality
import Lacp.Transmission

/-!
# The transmission period

Reference: `lacp_tx_enter_state`, `lacp_rx_enter_state` and `lacp_one_second`.

`TXM_PERIODIC_TX` loads the periodic timer with the fast or the slow period, as the timeout bit of the
partner says, and nothing else loads it. The receive machine sets the bit when a frame says so, and in
`RXM_EXPIRED`; a timer that was loaded with the slow period goes on. As long as the bit is set only where
the timer is within the fast period, the partner is served in time (`reachableBy_periodHonoured`).
-/

namespace Lacp

/-- Every port that runs LACP over a working link transmits within the period its partner asks for. -/
def PeriodHonoured (w : World) : Prop :=
  ∀ a ∈ w.sys.ports, (w.port a).lacpEnabled = true → (w.port a).portEnabled = true →
    0 < (w.port a).periodicTimer ∧ (w.port a).periodicTimer ≤
      if (w.port a).partner.state.TMT then w.sys.fastPeriodicTime else w.sys.slowPeriodicTime

/-- The call leaves the two periods at the values `lacp_sys_init` gives them. -/
def Call.LeavesPeriods : Call → Prop
  | .sysSetLongPeriod period => period.toUInt16 = 30
  | .sysSetShortPeriod period => period.toUInt16 = 1
  | _ => True

instance : (c : Call) → Decidable c.LeavesPeriods
  | .sysSetLongPeriod _ => inferInstanceAs (Decidable (_ = _))
  | .sysSetShortPeriod _ => inferInstanceAs (Decidable (_ = _))
  | .sysSetPrio _ | .sysSetPeriod _ | .portLacpEnable _ _ _ _ | .portLacpDisable _ _
  | .aggDelete _ | .portSetPrio _ _ _ | .portSetSpeed _ _ _ | .portSetDuplex _ _ _
  | .portLinkChange _ _ _ | .portClearStat _ _ | .setPortLinkStatus _ _ | .rxLacpdu _ _ _
  | .oneSecond => isTrue trivial

/-- A partner asks for the short timeout, or is not heard of in time, only while the timer of its port is
within the fast period. A tick takes one from the timer before the partner is given up. -/
def Call.KeepsPeriod (w : World) : Call → Prop
  | .rxLacpdu slot port pdu => (lacpCopyInfoFromNet pdu.actor).state.TMT = true →
      ∀ a ∈ w.sys.ports, (w.port a).portIndex = globalIndex slot port →
        (w.port a).portEnabled = true → (w.port a).periodicTimer ≤ w.sys.fastPeriodicTime
  | .oneSecond => ∀ a ∈ w.sys.ports, (w.port a).rx.state = .current → (w.port a).currentWhile ≤ 1 →
      (w.port a).partner.state.TMT = false → (w.port a).periodicTimer ≤ w.sys.fastPeriodicTime + 1
  | _ => True

instance (w : World) : (c : Call) → Decidable (c.KeepsPeriod w)
  | .rxLacpdu _ _ _ => inferInstanceAs (Decidable (_ → ∀ a ∈ w.sys.ports, _ → _))
  | .oneSecond => inferInstanceAs (Decidable (∀ a ∈ w.sys.ports, _ → _))
  | .sysSetPrio _ | .sysSetLongPeriod _ | .sysSetShortPeriod _ | .sysSetPeriod _
  | .portLacpEnable _ _ _ _ | .portLacpDisable _ _ | .aggDelete _ | .portSetPrio _ _ _
  | .portSetSpeed _ _ _ | .portSetDuplex _ _ _ | .portLinkChange _ _ _ | .portClearStat _ _
  | .setPortLinkStatus _ _ => isTrue trivial

variable {w w' : World} {c : Call} {E E' : Set ℕ} {b : Addr} {p q : LacpPort} {sys : LacpSys}

/-! ## The periods -/

/-- The periods have their initial values. -/
structure InitialPeriods (sys : LacpSys) : Prop where
  fastPeriodicTime : sys.fastPeriodicTime = 1
  slowPeriodicTime : sys.slowPeriodicTime = 30

theorem InitialPeriods.effect {R : World → Call → Prop} (h : InitialPeriods w.sys)
    (hc : c.LeavesPeriods) (hcoherent : Coherent E w) (heffect : Effect R c (E, w) (E', w')) :
    InitialPeriods w'.sys := by
  obtain ⟨hfast, hslow⟩ := heffect.periods hcoherent
  constructor
  · rcases hfast with heq | ⟨period, rfl, hstored⟩
    · exact heq.trans h.fastPeriodicTime
    · exact hstored.trans hc
  · rcases hslow with heq | ⟨period, rfl, hstored⟩
    · exact heq.trans h.slowPeriodicTime
    · exact hstored.trans hc

/-! ## The timer during a call -/

theorem decrementTimer_le_of_le_succ {timer bound : UInt16} (h : timer ≤ bound + 1) :
    decrementTimer timer ≤ bound := by
  rw [UInt16.le_iff_toNat_le] at h ⊢
  rw [UInt16.toNat_add, UInt16.toNat_one] at h
  rw [decrementTimer_toNat]
  omega

theorem le_one_of_decrementTimer_eq_zero {timer : UInt16} (h : decrementTimer timer = 0) :
    timer ≤ 1 := by
  have hzero := congrArg UInt16.toNat h
  rw [decrementTimer_toNat, UInt16.toNat_zero] at hzero
  rw [UInt16.le_iff_toNat_le, UInt16.toNat_one]
  omega

/-- The partner asks for the fast period, or the receive machine is about to record that it does. -/
def AsksFast (p : LacpPort) : Prop :=
  p.partner.state.TMT = true ∨ p.rcvdLacpdu = true ∧ p.msgActor.state.TMT = true ∨
    p.rx.state = .current ∧ p.currentWhile = 0 ∨
    p.rx.state = .init ∨ p.rx.state = .portDisabled ∨ p.rx.state = .lacpDisabled

/-- The timer of a port is within the period its partner asks for; it is stopped while the transmit
machine is. -/
structure Paced (sys : LacpSys) (p : LacpPort) : Prop where
  slow : p.lacpEnabled = true → p.portEnabled = true → p.periodicTimer ≤ sys.slowPeriodicTime
  fast : p.lacpEnabled = true → p.portEnabled = true → AsksFast p →
    p.periodicTimer ≤ sys.fastPeriodicTime
  stopped : p.tx.state = .begin ∨ p.tx.state = .noPeriodic → p.periodicTimer = 0

/-- A receive machine that records a short timeout was about to. -/
theorem AsksFast.of_rxEntered {attr : PortAttr} {s : RxState} (hc : PortCoherent E sys p attr)
    (hshort : sys.shortTimeoutTime ≠ 0) (hlong : sys.longTimeoutTime ≠ 0) (guard : RxGuard p s)
    (hlac : p.lacpEnabled = true) (hen : p.portEnabled = true)
    (h : AsksFast (rxEntered sys { p with rx := ⟨false, s⟩ })) : AsksFast p := by
  have hrecord : p.rcvdLacpdu = true →
      AsksFast (rxEntered sys { p with rx := ⟨false, .current⟩ }) → AsksFast p := by
    rintro hrcvd (htmt | ⟨hrcvd', _⟩ | ⟨_, hcw⟩ | hrx | hrx | hrx)
    · exact .inr (.inl ⟨hrcvd, htmt⟩)
    · cases hrcvd'
    · -- the timer has just been started
      simp only [rxEntered] at hcw
      split at hcw
      · exact absurd hcw hshort
      · exact absurd hcw hlong
    all_goals cases hrx
  cases guard with
  | linkDown hoff => exact absurd (hen.symm.trans hoff) (by simp)
  | start hs => exact absurd (hlac.symm.trans (hc.fresh hs).1) (by simp)
  | moved _ hpm => exact absurd (hen.symm.trans (hc.moved hpm).1) (by simp)
  | linkUpOff _ _ _ hoff => exact absurd (hlac.symm.trans hoff) (by simp)
  | initialized hs => exact .inr (.inr (.inr (.inl hs)))
  | linkUp hs => exact .inr (.inr (.inr (.inr (.inl hs))))
  | lacpOn hs => exact .inr (.inr (.inr (.inr (.inr hs))))
  | timeout hs => exact .inl (hc.expired hs).2.1
  | expire hs _ hcw => exact .inr (.inr (.inl ⟨hs, hcw⟩))
  | resume _ _ _ hrcvd | refresh _ _ hrcvd | recover _ _ hrcvd => exact hrecord hrcvd h

/-- A receive machine at rest has nothing left to record. -/
theorem AsksFast.partner_tmt {attr : PortAttr} {a : Addr} (hc : PortCoherent E sys (w.port a) attr)
    (hrx : lacpRxCheckConditions w a = none) (hlac : (w.port a).lacpEnabled = true)
    (hen : (w.port a).portEnabled = true) (h : AsksFast (w.port a)) :
    (w.port a).partner.state.TMT = true := by
  have hpm : (w.port a).portMoved = false := by
    cases hpm : (w.port a).portMoved with
    | true => exact absurd (hen.symm.trans (hc.moved hpm).1) (by simp)
    | false => rfl
  rcases h with htmt | ⟨hrcvd, _⟩ | ⟨hs, hcw⟩ | hs | hs | hs
  · exact htmt
  · -- a frame is waiting, so the machine would go to `RXM_CURRENT`
    obtain ⟨_, _, hs | hs | ⟨hs, hcw⟩⟩ := hc.rcvd hrcvd
    · simp [lacpRxCheckConditions, hen, hrcvd, hs] at hrx
    · simp [lacpRxCheckConditions, hen, hrcvd, hs] at hrx
    · simp [lacpRxCheckConditions, hen, hrcvd, hs, hcw] at hrx
  · cases hrcvd : (w.port a).rcvdLacpdu <;>
      simp [lacpRxCheckConditions, hen, hrcvd, hs, hcw] at hrx
  · simp [lacpRxCheckConditions, hen, hs] at hrx
  · simp [lacpRxCheckConditions, hen, hlac, hpm, hs] at hrx
  · simp [lacpRxCheckConditions, hen, hlac, hs] at hrx

namespace Paced

/-- Another port whose timer is the same, and whose partner asks for no more. -/
theorem mono (h : Paced sys p) (htx : q.tx.state = p.tx.state)
    (htimer : q.periodicTimer = p.periodicTimer) (hlac : q.lacpEnabled = p.lacpEnabled)
    (hen : q.portEnabled = p.portEnabled)
    (hasks : p.lacpEnabled = true → p.portEnabled = true → AsksFast q → AsksFast p) :
    Paced sys q := by
  refine ⟨?_, ?_, ?_⟩
  · rw [htimer, hlac, hen]
    exact h.slow
  · rw [htimer, hlac, hen]
    exact fun hlac' hen' hq => h.fast hlac' hen' (hasks hlac' hen' hq)
  · rw [htimer, htx]
    exact h.stopped

/-- The timer is loaded with the period the partner asks for. -/
theorem txEntered {s : TxState} (h : Paced sys p) (hperiods : InitialPeriods sys)
    (guard : TxGuard sys p s)
    (hasks : p.lacpEnabled = true → p.portEnabled = true → AsksFast p → p.partner.state.TMT = true) :
    Paced sys (txEntered sys { p with tx := ⟨false, s⟩ }) := by
  have hclear : Paced sys (Lacp.txEntered sys { p with tx := ⟨false, .noPeriodic⟩ }) :=
    ⟨fun _ _ => UInt16.le_iff_toNat_le.mpr (Nat.zero_le _),
      fun _ _ _ => UInt16.le_iff_toNat_le.mpr (Nat.zero_le _), fun _ => rfl⟩
  cases guard with
  | begin | stop => exact hclear
  | start | back | send =>
    refine ⟨h.slow, h.fast, ?_⟩
    rintro (hs' | hs') <;> cases hs'
  | periodic =>
    refine ⟨fun hlac hen => ?_, fun hlac hen hq => ?_, ?_⟩
    · simp only [Lacp.txEntered]
      split
      · rw [hperiods.fastPeriodicTime, hperiods.slowPeriodicTime]
        decide
      · exact UInt16.le_refl _
    · simp only [Lacp.txEntered]
      rw [if_pos (hasks hlac hen hq)]
      exact UInt16.le_refl _
    · rintro (hs' | hs') <;> cases hs'

/-- A hop of one of the machines. -/
theorem hop (hc : Coherent E w) (hperiods : InitialPeriods w.sys)
    (h : ∀ a ∈ w.sys.ports, Paced w.sys (w.port a)) (hop : OrderedHop w w') (hb : b ∈ w.sys.ports) :
    Paced w.sys (w'.port b) := by
  rcases hop.txHop_or_silent with ⟨a, s, ha, hrx, _, guard, rfl⟩ | ⟨_, hkept⟩
  · by_cases hba : b = a
    · subst hba
      rw [txHop_port_self]
      exact (h b hb).txEntered hperiods (txGuard_of_check guard) fun hlac hen hasks =>
        hasks.partner_tmt (hc.port b hb) hrx hlac hen
    · rw [txHop_port_of_ne _ hba]
      exact h b hb
  · refine (h b hb).mono (by rw [(hkept b).1]) (hkept b).2.2
      (hop.engineHop.lacpEnabled_eq b) (hop.engineHop.portEnabled_eq b)
      fun hlac hen hasks => ?_
    have hport := hop.engineHop.portHop b
    generalize w'.port b = q at hasks hport
    cases hport with
    | same | deselect | selDisabled | selAlone | select => exact hasks
    | rx _ guard =>
      refine hasks.of_rxEntered (hc.port b hb) ?_ ?_ (rxGuard_of_check guard) hlac hen
      · rw [hc.shortTimeoutTime]
        decide
      · rw [hc.longTimeoutTime]
        decide
    | @mux s => cases s <;> exact hasks
    | @tx s => cases s <;> exact hasks

/-- A tick. -/
theorem tick (h : Paced sys p)
    (hexpire : p.rx.state = .current → p.currentWhile ≤ 1 → p.partner.state.TMT = false →
      p.periodicTimer ≤ sys.fastPeriodicTime + 1) : Paced sys (oneSecondPort p) := by
  refine ⟨fun hlac hen => decrementTimer_le (h.slow hlac hen), fun hlac hen hasks => ?_, fun htx => ?_⟩
  · show decrementTimer p.periodicTimer ≤ sys.fastPeriodicTime
    rcases hasks with htmt | hrcvd | ⟨hrx, hcw⟩ | hrest
    · exact decrementTimer_le (h.fast hlac hen (.inl htmt))
    · exact decrementTimer_le (h.fast hlac hen (.inr (.inl hrcvd)))
    · -- the partner was not heard of in time
      cases htmt : p.partner.state.TMT with
      | true => exact decrementTimer_le (h.fast hlac hen (.inl htmt))
      | false =>
        exact decrementTimer_le_of_le_succ (hexpire hrx (le_one_of_decrementTimer_eq_zero hcw) htmt)
    · exact decrementTimer_le (h.fast hlac hen (.inr (.inr (.inr hrest))))
  · show decrementTimer p.periodicTimer = 0
    rw [h.stopped htx]
    rfl

/-- A write to a port. -/
theorem write (h : Paced w.sys (w.port b))
    (hb : b ∈ w.sys.ports) (hwrite : PortWrite (fun w c => c.LeavesPeriods ∧ c.KeepsPeriod w) c E w b q) :
    Paced w.sys q := by
  cases hwrite with
  | same | deselect | prio | stat | moved | notify => exact ⟨h.slow, h.fast, h.stopped⟩
  | leave => exact ⟨fun hlac => (by cases hlac), fun hlac => (by cases hlac), h.stopped⟩
  | @receive slot port pdu hcall hindex hlac hen hq hok =>
    subst hcall
    refine ⟨h.slow, fun _ _ hasks => ?_, h.stopped⟩
    rcases hasks with htmt | ⟨_, htmt⟩ | hrest
    · exact h.fast hlac hen (.inl htmt)
    · exact hok.2 htmt b hb hindex hen
    · exact h.fast hlac hen (.inr (.inr hrest))
  | tick hcall hq hok =>
    subst hcall
    exact h.tick (hok.2 b hb)
  | @link status _ hlac hq =>
    have hfields : Paced w.sys { w.port b with portEnabled := status != 0 } := by
      cases hen : (w.port b).portEnabled with
      | true => exact ⟨fun hlac _ => h.slow hlac hen, fun hlac _ => h.fast hlac hen, h.stopped⟩
      | false =>
        -- the timer of a port whose link is down is stopped
        have hzero := h.stopped (.inr (tx_stopped_of_quiescent hq hb (.inr hen)))
        refine ⟨fun _ _ => ?_, fun _ _ _ => ?_, h.stopped⟩
        all_goals
          rw [hzero]
          exact UInt16.le_iff_toNat_le.mpr (Nat.zero_le _)
    simp only [linkChangedPort]
    split <;> exact ⟨hfields.slow, hfields.fast, hfields.stopped⟩

/-- No effect of a call that meets the condition delays a transmission. -/
theorem effect (hc : Coherent E w) (hleaving : LeavingOnly c w) (hleaves : c.LeavesPeriods)
    (hperiods : InitialPeriods w.sys) (h : ∀ a ∈ w.sys.ports, Paced w.sys (w.port a))
    (heffect : Effect (fun w c => c.LeavesPeriods ∧ c.KeepsPeriod w) c (E, w) (E', w')) :
    InitialPeriods w'.sys ∧ ∀ a ∈ w'.sys.ports, Paced w'.sys (w'.port a) := by
  have hperiods' := hperiods.effect hleaves hc heffect
  refine ⟨hperiods', fun b hb => ?_⟩
  -- the periods are the same before and after, so it does not matter which of them the timer meets
  have hsame : ∀ {p : LacpPort}, Paced w.sys p → Paced w'.sys p := fun hp =>
    ⟨by rw [hperiods'.slowPeriodicTime, ← hperiods.slowPeriodicTime]; exact hp.slow,
      by rw [hperiods'.fastPeriodicTime, ← hperiods.fastPeriodicTime]; exact hp.fast, hp.stopped⟩
  refine hsame ?_
  cases heffect.cases hc with
  | hop hop => exact Paced.hop hc hperiods h hop (hop.engineHop.sys_eq ▸ hb)
  | setSys _ _ _ _ hw =>
    have hb' : b ∈ w.sys.ports := hw.ports ▸ hb
    have hp := h b hb'
    rw [hw.port b hb']
    exact ⟨hp.slow, hp.fast, hp.stopped⟩
  | write _ _ _ hports =>
    cases hports b hb with
    | write hb' hwrite => exact (h b hb').write hb' hwrite
    | join hb' hcall _ _ _ _ _ _ hport =>
      have hp := h b hb'
      have hlac := hleaving.lacpEnabled (by rw [hcall]; rfl) hb'
      rw [hport]
      exact ⟨fun _ hen => hp.slow (hlac hen) hen, fun _ hen => hp.fast (hlac hen) hen, hp.stopped⟩
    | reselect hb' _ _ _ _ _ _ hport =>
      have hp := h b hb'
      rw [hport]
      exact ⟨hp.slow, hp.fast, hp.stopped⟩
    | create _ _ _ _ _ _ hport =>
      rw [hport]
      exact ⟨fun _ hen => (by cases hen), fun _ hen => (by cases hen), fun _ => rfl⟩

end Paced

/-! ## Runs -/

/-- In a run in which the timeout bit of a partner is set only where the timer of the port is within the
fast period, every partner is served within the period it asks for. -/
theorem reachableBy_periodHonoured (w : World)
    (h : ReachableBy (fun w c => c.LeavesPeriods ∧ c.KeepsPeriod w) w) : PeriodHonoured w := by
  have hpaced : InitialPeriods w.sys ∧ ∀ a ∈ w.sys.ports, Paced w.sys (w.port a) :=
    h.invariant_of_calls
      (Q := fun w => InitialPeriods w.sys ∧ ∀ a ∈ w.sys.ports, Paced w.sys (w.port a))
      (P := fun _ c _ w => LeavingOnly c w ∧
        InitialPeriods w.sys ∧ ∀ a ∈ w.sys.ports, Paced w.sys (w.port a))
      (fun _ => ⟨⟨rfl, rfl⟩, fun _ ha => nomatch ha⟩) (fun hc _ hQ _ _ => ⟨hc.leavingOnly, hQ⟩)
      (fun hok _ hc hP heffect => ⟨hP.1.effect hc heffect,
        Paced.effect hc hP.1 hok.1 hP.2.1 hP.2.2 heffect⟩)
      fun _ _ _ _ hP => hP.2
  intro a ha hlac hen
  have hp := hpaced.2 a ha
  have hrunning := txRunning_of_quiescent h.coherent.1 h.coherent.2 ha (h.activeMode a ha) hlac hen
  refine ⟨UInt16.pos_iff_ne_zero.mpr hrunning.1, ?_⟩
  split
  · rename_i htmt
    exact hp.fast hlac hen (.inl htmt)
  · exact hp.slow hlac hen

/-- The frame of a partner that asks for the short timeout. -/
def shortFrame (peerNo portNo : UInt16) : LacpPdu :=
  { peerFrame peerNo portNo with
    actor := lacpInfoToNet { peerInfo peerNo with state := { syncState with TMT := true } } }

/-- The partner asks for the short timeout, and a second passes. -/
def shortRun : List Call :=
  [.setPortLinkStatus 0 1, .portLacpEnable 0 1 1 .zero, .rxLacpdu 0 1 (shortFrame 3 1), .oneSecond]

theorem shortRun_periodHonoured :
    ∃ w, ReachableBy (fun w c => c.LeavesPeriods ∧ c.KeepsPeriod w) w ∧ 0 ∈ w.sys.ports ∧
      (w.port 0).portEnabled = true ∧ (w.port 0).partner.state.TMT = true ∧ PeriodHonoured w := by
  have hrun : (runCalls (fun w c => decide (c.LeavesPeriods ∧ c.KeepsPeriod w)) 25 (initWorld 77)
      shortRun).any (fun w => decide (0 ∈ w.sys.ports ∧ (w.port 0).portEnabled = true ∧
        (w.port 0).partner.state.TMT = true)) = true := by decide +kernel
  obtain ⟨w, h, _, hstate⟩ := exists_reachableBy_of_runCalls (by decide)
    (fun _ _ => of_decide_eq_true) hrun
  obtain ⟨ha, hen, htmt⟩ := of_decide_eq_true hstate
  exact ⟨w, h, ha, hen, htmt, reachableBy_periodHonoured w h⟩

/-- The partner asks for the long timeout first. A second later the timer is loaded with the slow period,
and then the partner asks for the short timeout. -/
def shortenedRun : List Call :=
  [.setPortLinkStatus 0 1, .portLacpEnable 0 1 1 .zero, .rxLacpdu 0 1 (peerFrame 3 1), .oneSecond,
    .rxLacpdu 0 1 (shortFrame 3 1)]

/-- The timer goes on with the slow period, 30 seconds; the partner waits for three. -/
theorem not_reachableBy_periodHonoured :
    ¬ ∀ w, ReachableBy (fun _ c => c.LeavesPeriods) w → PeriodHonoured w := by
  intro hall
  have hrun : (runCalls (fun _ c => decide c.LeavesPeriods) 25 (initWorld 77) shortenedRun).any
      (fun w => decide (0 ∈ w.sys.ports ∧ (w.port 0).lacpEnabled = true ∧
        (w.port 0).portEnabled = true ∧ (w.port 0).partner.state.TMT = true ∧
        (w.port 0).periodicTimer = 30 ∧ w.sys.fastPeriodicTime = 1)) = true := by decide +kernel
  obtain ⟨w, h, _, hstate⟩ := exists_reachableBy_of_runCalls (by decide)
    (fun _ _ => of_decide_eq_true) hrun
  obtain ⟨ha, hlac, hen, htmt, htimer, hfast⟩ := of_decide_eq_true hstate
  have hle := (hall w h 0 ha hlac hen).2
  rw [if_pos htmt, htimer, hfast] at hle
  exact absurd hle (by decide)

end Lacp
