import Lacp.Transmission

/-!
# The transmission rate

Reference: `lacp_tx_enter_state`, `lacp_one_second` and `lacp_port_link_change`.

`hold_count` counts the LACPDUs a port has sent since the last `lacp_one_second`, and holds a
transmission back at `tx_hold_count`. `TXM_NO_PERIODIC` clears it as well: a port whose link goes down and
up again within a second starts over, and so does a port that is created anew. As long as this happens to
no port that has sent something in the current second, `hold_count` is never behind
(`withinSecond_rateLimited`).
-/

namespace Lacp

/-! ## Seconds -/

/-- The states between two calls of a run, with the history as it was when the current second began: when
`lacp_one_second` was called last, or at the start. Every call meets the condition `R`. -/
inductive WithinSecond (R : List Event → World → Call → Prop) : List Event → World → Prop
  | init (pid : UInt32) : WithinSecond R [] (initWorld pid)
  | tick {t : List Event} {w w' : World} (h : WithinSecond R t w) (hok : R t w .oneSecond)
      (hstep : Step .oneSecond w w') : WithinSecond R w.trace w'
  | step {t : List Event} {w w' : World} {c : Call} (h : WithinSecond R t w) (hc : c ≠ .oneSecond)
      (hok : R t w c) (hstep : Step c w w') : WithinSecond R t w'

variable {t : List Event} {w w' : World}

theorem WithinSecond.reachable {R : List Event → World → Call → Prop} (h : WithinSecond R t w) :
    Reachable w := by
  induction h with
  | init pid => exact .init pid
  | tick _ _ hstep ih | step _ _ _ hstep ih => exact ih.step trivial hstep

/-- The LACPDUs the ports with index `i` sent. -/
def sentCount (i : ℕ) (trace : List Event) : ℕ := (sentBy i trace).length

/-- No port has sent more than `tx_hold_count` LACPDUs since `t`, and `hold_count` is not behind. -/
def RateLimited (t : List Event) (w : World) : Prop :=
  (∀ i, sentCount i w.trace ≤ sentCount i t + w.sys.txHoldCount.toNat) ∧
    ∀ a ∈ w.sys.ports, sentCount (w.port a).portIndex w.trace ≤
      sentCount (w.port a).portIndex t + (w.port a).holdCount.toNat

/-- The call takes down the link of no port, and creates no port with an index, that has sent LACPDUs
since `t`. A port whose link is up is not enabled again while its recorded link status is down. -/
def Call.KeepsHoldCount (t : List Event) (w : World) : Call → Prop
  | .portLinkChange slot port linkStatus => linkStatus = 0 → ∀ a ∈ w.sys.ports,
      (w.port a).portIndex = globalIndex slot port → (w.port a).portEnabled = true →
      sentCount (globalIndex slot port) w.trace = sentCount (globalIndex slot port) t
  | .portLacpEnable slot port _ _ =>
      ((∀ a ∈ w.sys.ports, (w.port a).portIndex ≠ globalIndex slot port) →
        sentCount (globalIndex slot port) w.trace = sentCount (globalIndex slot port) t) ∧
      ∀ a ∈ w.sys.ports, (w.port a).portIndex = globalIndex slot port →
        (w.port a).portEnabled = true → (w.gPortList (globalIndex slot port)).linkStatus ≠ 0
  | _ => True

instance (t : List Event) (w : World) : (c : Call) → Decidable (c.KeepsHoldCount t w)
  | .portLinkChange _ _ _ => inferInstanceAs (Decidable (_ → ∀ a ∈ w.sys.ports, _ → _))
  | .portLacpEnable _ _ _ _ => inferInstanceAs (Decidable (_ ∧ ∀ a ∈ w.sys.ports, _ → _))
  | .sysSetPrio _ | .sysSetLongPeriod _ | .sysSetShortPeriod _ | .sysSetPeriod _
  | .portLacpDisable _ _ | .aggDelete _ | .portSetPrio _ _ _ | .portSetSpeed _ _ _
  | .portSetDuplex _ _ _ | .portClearStat _ _ | .setPortLinkStatus _ _ | .rxLacpdu _ _ _
  | .oneSecond => isTrue trivial

/-! ## During a call -/

/-- What `hold_count` says of a port while the call `c` runs: `sent₀` LACPDUs were sent before the second
began, `sent` so far, and `linkStatus` is recorded in `g_port_list`. -/
structure Counted (c : Call) (max linkStatus : UInt32) (sent₀ sent : ℕ) (p : LacpPort) : Prop where
  hold_le : p.holdCount ≤ max
  linkUp : p.lacpEnabled = true → p.portEnabled = true → sent ≤ sent₀ + p.holdCount.toNat
  linkDown : p.portEnabled = false → sent ≤ sent₀
  fresh : p.tx.state = .begin → p.portEnabled = false
  joining : c.isJoin = true → c.target = some p.portIndex → p.portEnabled = true → linkStatus ≠ 0

/-- What `hold_count` says of the ports while the call `c` runs. -/
structure SecondCounted (t : List Event) (c : Call) (w : World) : Prop where
  bound : ∀ i, sentCount i w.trace ≤ sentCount i t + w.sys.txHoldCount.toNat
  active : ∀ a ∈ w.sys.ports, ActiveMode (w.port a)
  leaving : LeavingOnly c w
  port : ∀ a ∈ w.sys.ports, Counted c w.sys.txHoldCount (w.gPortList (w.port a).portIndex).linkStatus
    (sentCount (w.port a).portIndex t) (sentCount (w.port a).portIndex w.trace) (w.port a)

namespace Counted

variable {c : Call} {max linkStatus : UInt32} {sent₀ sent : ℕ} {p q : LacpPort}

/-- Only the counter, the transmit machine and three settings matter. -/
theorem congr (h : Counted c max linkStatus sent₀ sent p) (hhold : q.holdCount = p.holdCount)
    (htx : q.tx.state = p.tx.state) (hindex : q.portIndex = p.portIndex)
    (hen : q.portEnabled = p.portEnabled) (hlac : q.lacpEnabled = p.lacpEnabled) :
    Counted c max linkStatus sent₀ sent q := by
  refine ⟨?_, ?_, ?_, ?_, ?_⟩
  · rw [hhold]
    exact h.hold_le
  · rw [hhold, hlac, hen]
    exact h.linkUp
  · rw [hen]
    exact h.linkDown
  · rw [htx, hen]
    exact h.fresh
  · rw [hindex, hen]
    exact h.joining

/-- Another call runs, or another link status is recorded. -/
theorem call {c' : Call} {linkStatus' : UInt32} (h : Counted c max linkStatus sent₀ sent p)
    (hjoin : c'.isJoin = true → c'.target = some p.portIndex → p.portEnabled = true →
      linkStatus' ≠ 0) : Counted c' max linkStatus' sent₀ sent p :=
  { h with joining := hjoin }

/-- The link of the port changes. It goes down only where nothing was sent. -/
theorem linkChanged {attr : PortAttr} {status : UInt32} (h : Counted c max linkStatus sent₀ sent p)
    (hlac : p.lacpEnabled = true) (htx : p.tx.state ≠ .begin)
    (hdown : status = 0 → p.portEnabled = true → sent ≤ sent₀)
    (hjoin : c.isJoin = true → status ≠ 0 → linkStatus ≠ 0) :
    Counted c max linkStatus sent₀ sent
      { linkChangedPort attr status p with selected := false } := by
  have hup : sent ≤ sent₀ + p.holdCount.toNat := by
    cases hen : p.portEnabled with
    | true => exact h.linkUp hlac hen
    | false => exact (h.linkDown hen).trans (Nat.le_add_right _ _)
  have hfields : Counted c max linkStatus sent₀ sent { p with portEnabled := status != 0 } := by
    refine ⟨h.hold_le, fun _ _ => hup, fun hst => ?_, fun hs => absurd hs htx,
      fun hc _ hst => hjoin hc (bne_iff_ne.mp hst)⟩
    · cases hen : p.portEnabled with
      | true => exact hdown (bne_eq_false_iff_eq.mp hst) hen
      | false => exact h.linkDown hen
  simp only [linkChangedPort]
  split <;> exact hfields.congr rfl rfl rfl rfl rfl

/-- The port enters a state of the transmit machine; in `TXM_TX` it sends a LACPDU. -/
theorem txEntered {sys : LacpSys} {s : TxState} (h : Counted c sys.txHoldCount linkStatus sent₀ sent p)
    (guard : TxGuard sys p s) (hact : p.lacpEnabled = true → p.actor.state.ACT = true) :
    Counted c sys.txHoldCount linkStatus sent₀ (if s = .tx then sent + 1 else sent)
      (txEntered sys { p with tx := ⟨false, s⟩ }) := by
  -- the counter is cleared where nothing was sent, or where the port no longer counts
  have hclear : ¬ (p.lacpEnabled = true ∧ p.portEnabled = true) →
      Counted c sys.txHoldCount linkStatus sent₀ sent
        (Lacp.txEntered sys { p with tx := ⟨false, .noPeriodic⟩ }) := by
    intro hoff
    exact
      { hold_le := UInt32.le_iff_toNat_le.mpr (Nat.zero_le _)
        linkUp := fun hlac hen => absurd ⟨hlac, hen⟩ hoff
        linkDown := h.linkDown
        fresh := fun hs => by cases hs
        joining := h.joining }
  cases guard with
  | begin hs => exact hclear fun hup => absurd hup.2 (by simp [h.fresh hs])
  | stop hstop =>
    refine hclear fun hup => ?_
    simp [txActive, hup.1, hup.2, hact hup.1] at hstop
  | start hrun hs => exact { h with fresh := fun hs' => by cases hs' }
  | back hrun hs => exact { h with fresh := fun hs' => by cases hs' }
  | periodic hrun hs => exact { h with fresh := fun hs' => by cases hs' }
  | send hrun _ _ _ hhold =>
    simp only [txActive, Bool.and_eq_true] at hrun
    have hlt := UInt32.lt_iff_toNat_lt.mp hhold
    have hmax := sys.txHoldCount.toNat_lt
    have hsucc : (p.holdCount + 1).toNat = p.holdCount.toNat + 1 := by
      rw [UInt32.toNat_add, UInt32.toNat_one]
      omega
    have hcount := h.linkUp hrun.1.1 hrun.1.2
    exact
      { hold_le := by
          show p.holdCount + 1 ≤ sys.txHoldCount
          rw [UInt32.le_iff_toNat_le, hsucc]
          exact hlt
        linkUp := fun _ _ => by
          show sent + 1 ≤ sent₀ + (p.holdCount + 1).toNat
          omega
        linkDown := fun hen => absurd (hrun.1.2.symm.trans hen) (by simp)
        fresh := fun hs => by cases hs
        joining := h.joining }

end Counted

section Effect

variable {R : World → Call → Prop} {c : Call} {E E' : Set ℕ} {a b : Addr}

/-- A transmit hop sends at most one LACPDU, and only in `TXM_TX`. -/
theorem sentCount_txHop {s : TxState} (guard : TxGuard w.sys (w.port a) s) (i : ℕ) :
    sentCount i (txHop w a s).trace =
      if s = .tx ∧ (w.port a).portIndex = i then sentCount i w.trace + 1 else sentCount i w.trace := by
  have hlac : s = .tx → (w.port a).lacpEnabled = true := by
    rintro rfl
    cases guard with
    | send hrun => exact (Bool.and_eq_true_iff.mp (Bool.and_eq_true_iff.mp hrun).1).1
  rw [sentCount, sentBy_txHop]
  by_cases hs : s = .tx ∧ (w.port a).portIndex = i
  · rw [if_pos ⟨hs.1, hlac hs.1, hs.2⟩, if_pos hs]
    rfl
  · rw [if_neg fun h => hs ⟨h.1, h.2.2⟩, if_neg hs]
    rfl

namespace SecondCounted

theorem hop (hc : Coherent E w) (h : SecondCounted t c w) (hop : OrderedHop w w')
    (hleaving : LeavingOnly c w') : SecondCounted t c w' := by
  have hports : w'.sys.ports = w.sys.ports := congrArg LacpSys.ports hop.engineHop.sys_eq
  have hmax : w'.sys.txHoldCount = w.sys.txHoldCount := congrArg LacpSys.txHoldCount hop.engineHop.sys_eq
  have hindex := hop.engineHop.portIndex_eq
  have hactive : ∀ b ∈ w'.sys.ports, ActiveMode (w'.port b) :=
    fun b hb => (h.active b (hports ▸ hb)).hop (hop.engineHop.portHop b)
  rcases hop.txHop_or_silent with ⟨a, s, ha, _, _, guard, rfl⟩ | ⟨hsent, hkept⟩
  · have hguard := txGuard_of_check guard
    have hself := txHop_port_self w a s
    have hpa := (h.port a ha).txEntered hguard fun hlac => (h.active a ha).actor fun hbegin =>
      absurd ((hc.port a ha).fresh hbegin).1 (by simp [hlac])
    have hcount : sentCount (w.port a).portIndex (txHop w a s).trace =
        if s = .tx then sentCount (w.port a).portIndex w.trace + 1
        else sentCount (w.port a).portIndex w.trace := by
      rw [sentCount_txHop hguard]
      simp only [and_true]
    rw [← hcount, ← hself] at hpa
    refine ⟨fun i => ?_, hactive, hleaving, fun b hb => ?_⟩
    · by_cases hs : s = .tx ∧ (w.port a).portIndex = i
      · -- the port that sends is within its limit afterwards
        obtain ⟨rfl, rfl⟩ := hs
        cases hguard with
        | send hrun =>
          simp only [txActive, Bool.and_eq_true] at hrun
          have hup := hpa.linkUp (by rw [hself]; exact hrun.1.1) (by rw [hself]; exact hrun.1.2)
          exact hup.trans (Nat.add_le_add_left (UInt32.le_iff_toNat_le.mp hpa.hold_le) _)
      · rw [sentCount_txHop hguard, if_neg hs]
        exact h.bound i
    · rw [hindex]
      by_cases hba : b = a
      · rw [hba]
        exact hpa
      · have hne : (w.port a).portIndex ≠ (w.port b).portIndex :=
          fun heq => hba (hc.index_inj hb ha heq.symm)
        rw [sentCount_txHop hguard, if_neg fun hs => hne hs.2,
          txHop_port_of_ne _ hba]
        exact h.port b hb
  · refine ⟨fun i => ?_, hactive, hleaving, fun b hb => ?_⟩
    · rw [sentCount, (hsent i).1, hmax]
      exact h.bound i
    · have hcount : sentCount (w.port b).portIndex w'.trace = sentCount (w.port b).portIndex w.trace :=
        congrArg List.length (hsent _).1
      rw [hmax, hindex, (PortAttr.of_configured_eq (hop.engineHop.configured_eq _)).2.2,
        hcount]
      exact (h.port b (hports ▸ hb)).congr (hkept b).2.1 (by rw [(hkept b).1]) (hindex b)
        (hop.engineHop.portEnabled_eq b)
        (hop.engineHop.lacpEnabled_eq b)

/-- What a write makes of a port that keeps its index. The call was made in `w₀`. -/
theorem write {w₀ : World} {q : LacpPort} (h : SecondCounted t c w)
    (hkeeps : c.KeepsHoldCount t w₀) (htick : c = .oneSecond → t = w₀.trace)
    (hb : b ∈ w.sys.ports) (hwrite : PortWrite (fun v _ => v = w₀) c E w b q) :
    Counted c w.sys.txHoldCount (w.gPortList (w.port b).portIndex).linkStatus
      (sentCount (w.port b).portIndex t) (sentCount (w.port b).portIndex w.trace) q := by
  have hp := h.port b hb
  cases hwrite with
  | same | deselect | prio | stat | receive | moved | notify =>
    exact hp.congr rfl rfl rfl rfl rfl
  | tick hcall hq hok =>
    -- the second begins with this call
    obtain rfl : w = w₀ := hok
    rw [htick hcall]
    exact
      { hold_le := UInt32.le_iff_toNat_le.mpr (Nat.zero_le _)
        linkUp := fun _ _ => Nat.le_add_right _ _
        linkDown := fun _ => le_rfl
        fresh := hp.fresh
        joining := hp.joining }
  | leave hremoval =>
    have hjoin : c.isJoin = true → False := by
      intro hjoin
      cases c with
      | portLacpEnable => cases hremoval
      | _ => cases hjoin
    exact
      { hp with
        linkUp := fun hlac => by cases hlac
        joining := fun hc => (hjoin hc).elim }
  | @link linkStatus htarget hlac hq hstatus hchange hcall =>
    refine hp.linkChanged hlac (of_lacpTxCheckConditions_eq_none (hq b hb).2.2.2).1 ?_ ?_
    · intro hzero hen
      rcases hcall with hjoin | ⟨hlink, hok⟩
      · -- a port that joins takes over the recorded link status
        have hup := hp.joining hjoin htarget hen
        cases c with
        | portLacpEnable slot port aggId sysMac =>
          have hone : linkStatus = 1 := hstatus.trans (if_pos (bne_iff_ne.mpr hup))
          rw [hzero] at hone
          cases hone
        | _ => cases hjoin
      · obtain rfl : w = w₀ := hok
        cases c with
        | portLinkChange slot port status =>
          obtain rfl : linkStatus = status := hstatus
          have hindex : globalIndex slot port = (w.port b).portIndex := Option.some.inj htarget
          rw [← hindex]
          exact (hkeeps hzero b hb hindex.symm hen).le
        | _ => cases hlink
    · intro hjoin hne hzero
      cases c with
      | portLacpEnable slot port aggId sysMac =>
        exact hne (hstatus.trans (if_neg (by simp [trunkSspGetPortLinkStatus, hzero])))
      | _ => cases hjoin

theorem effect {w₀ : World} (hc : Coherent E w) (h : SecondCounted t c w)
    (hkeeps : c.KeepsHoldCount t w₀) (htick : c = .oneSecond → t = w₀.trace)
    (heffect : Effect (fun v _ => v = w₀) c (E, w) (E', w')) : SecondCounted t c w' := by
  have hactive := ActiveMode.effect hc h.active heffect
  have hleaving := h.leaving.effect hc heffect
  have hstatus := fun hjoin i => (PortAttr.of_configured_eq (heffect.configured_eq hjoin i)).2.2
  cases heffect.cases hc with
  | hop hop => exact h.hop hc hop hleaving
  | setSys hcfg _ _ _ hw =>
    have hmax : w'.sys.txHoldCount = w.sys.txHoldCount := by
      rw [hw.sys]
      simp only [setSysScalar]
      repeat' split
      all_goals rfl
    refine ⟨fun i => ?_, hactive, hleaving, fun b hb => ?_⟩
    · rw [hw.trace, hmax]
      exact h.bound i
    · have hb' : b ∈ w.sys.ports := hw.ports ▸ hb
      rw [hmax, hw.trace, hw.port b hb', hw.entry _ (Set.notMem_empty _)]
      exact (h.port b hb').congr rfl rfl rfl rfl rfl
  | write htrace hsys _ hports =>
    have hmax : w'.sys.txHoldCount = w.sys.txHoldCount := by rw [hsys]
    refine ⟨fun i => ?_, hactive, hleaving, fun b hb => ?_⟩
    · rw [htrace, hmax]
      exact h.bound i
    rw [htrace, hmax]
    cases hports b hb with
    | write hb' hwrite =>
      have hindex : (w'.port b).portIndex = (w.port b).portIndex := congrArg Prod.fst hwrite.core
      have hp := h.write hkeeps htick hb' hwrite
      rw [hindex]
      refine hp.call fun hjoin => ?_
      rw [hstatus hjoin]
      exact hp.joining hjoin
    | reselect hb' _ _ _ _ _ _ hport =>
      have hp := h.port b hb'
      rw [hport]
      refine (hp.call fun hjoin => ?_).congr rfl rfl rfl rfl rfl
      rw [hstatus hjoin]
      exact hp.joining hjoin
    | @join slot port aggId sysMac _ hb' hcall _ _ _ _ _ hattr hport =>
      have hp := h.port b hb'
      rw [hport, hattr]
      subst hcall
      refine { hp with linkUp := fun _ hen => ?_ }
      -- a port over a working link is a member already
      exact hp.linkUp (h.leaving.lacpEnabled rfl hb' hen) hen
    | @create slot port aggId sysMac hbrk hcall _ _ hok hnew hport =>
      obtain rfl : w = w₀ := hok
      subst hcall
      rw [hport]
      exact
        { hold_le := UInt32.le_iff_toNat_le.mpr (Nat.zero_le _)
          linkUp := fun _ hen => by cases hen
          linkDown := fun _ => (hkeeps.1 hnew).le
          fresh := fun _ => rfl
          joining := fun _ _ hen => by cases hen }

/-- A whole call, from rest to rest. -/
theorem step (hc : Coherent ∅ w) (hq : Quiescent w) (h : SecondCounted t .oneSecond w)
    (hkeeps : c.KeepsHoldCount t w) (htick : c = .oneSecond → t = w.trace) (hstep : Step c w w') :
    SecondCounted t .oneSecond w' := by
  have hstart : SecondCounted t c w := by
    refine ⟨h.bound, h.active, hc.leavingOnly, fun a ha => (h.port a ha).call ?_⟩
    intro hjoin htarget hen
    cases c with
    | portLacpEnable slot port aggId sysMac =>
      have hindex : globalIndex slot port = (w.port a).portIndex := Option.some.inj htarget
      rw [← hindex]
      exact hkeeps.2 a ha hindex.symm hen
    | _ => cases hjoin
  obtain ⟨heffects, _⟩ := completes_of_step (R := fun v _ => v = w) hc hq rfl hstep
  have hboth := heffects.invariant (P := fun E v => Coherent E v ∧ SecondCounted t c v)
    (fun hP heffect => ⟨hP.1.effect heffect, hP.2.effect hP.1 hkeeps htick heffect⟩) ⟨hc, hstart⟩
  exact ⟨hboth.2.bound, hboth.2.active, hboth.1.leavingOnly,
    fun a ha => (hboth.2.port a ha).call fun hjoin => by cases hjoin⟩

end SecondCounted

end Effect

/-- In a run in which no port that has sent something in the current second loses its link, no port sends
more than `tx_hold_count` LACPDUs within a second, and `hold_count` is never behind. -/
theorem withinSecond_rateLimited (t : List Event) (w : World)
    (h : WithinSecond (fun t w c => c.KeepsHoldCount t w) t w) : RateLimited t w := by
  have hcounted : SecondCounted t .oneSecond w := by
    induction h with
    | init pid =>
      exact ⟨fun _ => Nat.zero_le _, fun _ ha => absurd ha List.not_mem_nil,
        (coherent_initWorld pid).leavingOnly, fun _ ha => absurd ha List.not_mem_nil⟩
    | @tick t v v' h hok hstep ih =>
      obtain ⟨hcoherent, hq⟩ := h.reachable.coherent
      -- nothing has been sent in the second that begins
      have hstart : SecondCounted v.trace .oneSecond v := by
        refine ⟨fun _ => Nat.le_add_right _ _, ih.active, ih.leaving, fun a ha => ?_⟩
        exact { ih.port a ha with
          linkUp := fun _ _ => Nat.le_add_right _ _
          linkDown := fun _ => le_rfl }
      exact hstart.step (c := .oneSecond) hcoherent hq trivial (fun _ => rfl) hstep
    | step h hne hok hstep ih =>
      obtain ⟨hcoherent, hq⟩ := h.reachable.coherent
      exact ih.step hcoherent hq hok (fun heq => absurd heq hne) hstep
  refine ⟨hcounted.bound, fun a ha => ?_⟩
  have hp := hcounted.port a ha
  have hlac := (h.reachable.coherent.1.port a ha).enabled (Set.notMem_empty _)
  cases hen : (w.port a).portEnabled with
  | true => exact hp.linkUp hlac hen
  | false => exact (hp.linkDown hen).trans (Nat.le_add_right _ _)

/-- A property of the state after a run without ticks is a property of a state in the first second. -/
theorem exists_withinSecond_of_runCalls {R : List Event → World → Call → Prop}
    {test : World → Call → Bool} {fuel : ℕ} {pid : UInt32} {calls : List Call} {result : World → Bool}
    (hrange : ∀ c ∈ calls, c.InRange) (hsecond : Call.oneSecond ∉ calls)
    (htest : ∀ w c, test w c = true → R [] w c)
    (hresult : (runCalls test fuel (initWorld pid) calls).any result = true) :
    ∃ w, WithinSecond R [] w ∧ result w = true := by
  -- the calls of the run are taken one by one, each from a state in the first second
  have hcalls : ∀ {calls : List Call} {w w' : World}, WithinSecond R [] w → (∀ c ∈ calls, c.InRange) →
      Call.oneSecond ∉ calls → runCalls test fuel w calls = some w' → WithinSecond R [] w' := by
    intro calls
    induction calls with
    | nil =>
      intro w w' h _ _ hrun
      obtain rfl := Option.some.inj hrun
      exact h
    | cons c calls ih =>
      intro w w' h hrange hsecond hrun
      obtain ⟨u, hu, hrest⟩ := Option.bind_eq_some_iff.mp hrun
      obtain ⟨hc, hcalls⟩ := List.forall_mem_cons.mp hrange
      rw [List.mem_cons, not_or] at hsecond
      obtain ⟨hok, ret, hcall⟩ : test w c = true ∧ ∃ ret, runCall fuel w c = some (u, ret) := by
        simpa using hu
      exact ih (h.step (Ne.symm hsecond.1) (htest w c hok) ⟨hc, fuel, ret, hcall⟩) hcalls hsecond.2
        hrest
  cases hrun : runCalls test fuel (initWorld pid) calls with
  | none => simp [hrun] at hresult
  | some w =>
    rw [hrun] at hresult
    exact ⟨w, hcalls (.init pid) hrange hsecond hrun, hresult⟩

theorem aggregationRun_rateLimited :
    ∃ w, WithinSecond (fun t w c => c.KeepsHoldCount t w) [] w ∧ sentCount 0 w.trace = 1 ∧
      RateLimited [] w := by
  have hrun : (runCalls (fun w c => decide (c.KeepsHoldCount [] w)) 25 (initWorld 77)
      (aggregationRun.take 6)).any (fun w => decide (sentCount 0 w.trace = 1)) = true := by
    decide +kernel
  obtain ⟨w, h, hsent⟩ := exists_withinSecond_of_runCalls (by decide) (by simp [aggregationRun])
    (fun _ _ => of_decide_eq_true) hrun
  exact ⟨w, h, of_decide_eq_true hsent, withinSecond_rateLimited [] w h⟩

/-- The link of a port goes down and comes up again three times within a second. -/
def flappingRun : List Call :=
  [.setPortLinkStatus 0 1, .portLacpEnable 0 1 1 .zero,
    .portLinkChange 0 1 0, .portLinkChange 0 1 1, .portLinkChange 0 1 0, .portLinkChange 0 1 1,
    .portLinkChange 0 1 0, .portLinkChange 0 1 1]

/-- The port sends four LACPDUs within the first second; `tx_hold_count` is three. -/
theorem not_withinSecond_rateLimited :
    ¬ ∀ t w, WithinSecond (fun _ _ _ => True) t w → RateLimited t w := by
  intro hall
  have hrun : (runCalls (fun _ _ => true) 25 (initWorld 77) flappingRun).any
      (fun w => decide (sentCount 0 w.trace = 4 ∧ w.sys.txHoldCount = 3)) = true := by decide +kernel
  obtain ⟨w, h, hsent⟩ := exists_withinSecond_of_runCalls (R := fun _ _ _ => True) (by decide)
    (by simp [flappingRun]) (fun _ _ _ => trivial) hrun
  obtain ⟨hfour, hmax⟩ := of_decide_eq_true hsent
  have hbound := (hall [] w h).1 0
  rw [hfour, hmax] at hbound
  exact absurd hbound (by decide)

end Lacp
