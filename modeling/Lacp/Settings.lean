import Lacp.PortStates
import Lacp.PortWrites

/-!
# System settings in the ports

Reference: `_lacp_port_update_info`, `lacp_port_init` and `lacp_rx_enter_state`.

The system priority and the timeout are copied to the admin record of a port when it is created, from
there to its operational record when the receive machine enters `RXM_INITIALIZE`, and to the operational
record alone when they change. The machine enters that state again when the partner of the port shows up
elsewhere, and then the admin record brings the old values back. `PortFollows` says which of the two
records is up to date at every point of a run.
-/

namespace Lacp

/-- The record advertises the settings of the system. -/
def SettingsMatch (sys : LacpSys) (info : LacpPortInfo) : Prop :=
  info.systemPriority = sys.priority ∧ info.state.TMT = (sys.lacpTimeout != 0)

instance (sys : LacpSys) (info : LacpPortInfo) : Decidable (SettingsMatch sys info) :=
  inferInstanceAs (Decidable (_ ∧ _))

/-- The settings of the system are in every port. -/
def SettingsReachPorts (w : World) : Prop := ∀ a ∈ w.sys.ports, SettingsMatch w.sys (w.port a).actor

/-- A frame that shows a link-down port that its partner has moved finds the settings of the system in
the admin record of that port. -/
def Call.KeepsSettings (w : World) : Call → Prop
  | .rxLacpdu slot port pdu => ∀ a ∈ w.sys.ports, (w.port a).portIndex = globalIndex slot port →
      (w.port a).portEnabled = true →
      ∀ b ∈ movedPort w a pdu, SettingsMatch w.sys (w.port b).actorAdmin
  | _ => True

instance (w : World) : (c : Call) → Decidable (c.KeepsSettings w)
  | .rxLacpdu _ _ _ => inferInstanceAs (Decidable (∀ a ∈ w.sys.ports, _ → _))
  | .sysSetPrio _ | .sysSetLongPeriod _ | .sysSetShortPeriod _ | .sysSetPeriod _
  | .portLacpEnable _ _ _ _ | .portLacpDisable _ _ | .aggDelete _ | .portSetPrio _ _ _
  | .portSetSpeed _ _ _ | .portSetDuplex _ _ _ | .portLinkChange _ _ _ | .portClearStat _ _
  | .setPortLinkStatus _ _ | .oneSecond => isTrue trivial

/-- The operational record is up to date, and so is the admin record if it is to be copied next. A port
is marked as moved only by a reception. -/
structure PortFollows (c : Call) (sys : LacpSys) (p : LacpPort) : Prop where
  actor : p.rx.state ≠ .begin → SettingsMatch sys p.actor
  admin : p.rx.state = .begin ∨ p.portMoved = true → SettingsMatch sys p.actorAdmin
  moved : p.portMoved = true → c.sysCfg = none

variable {w : World}

section Effect

variable {c : Call} {E E' : Set ℕ} {w' : World} {b : Addr} {q : LacpPort}

/-- Entering a state of the receive machine reads the admin record only where it is up to date. -/
theorem PortFollows.rxEntered {sys : LacpSys} {p : LacpPort} (h : PortFollows c sys p) {s : RxState}
    (guard : RxGuard p s) : PortFollows c sys (rxEntered sys { p with rx := ⟨false, s⟩ }) := by
  have hkept : ∀ q : LacpPort, p.rx.state ≠ .begin → q.rx.state ≠ .begin →
      q.actor.systemPriority = p.actor.systemPriority → q.actor.state.TMT = p.actor.state.TMT →
      q.actorAdmin = p.actorAdmin → q.portMoved = p.portMoved → PortFollows c sys q := by
    intro q hp hq hprio htmt hadmin hmoved
    refine ⟨fun _ => ⟨hprio.trans (h.actor hp).1, htmt.trans (h.actor hp).2⟩, ?_, ?_⟩
    · rintro (hbegin | hm)
      · exact absurd hbegin hq
      · rw [hadmin]
        exact h.admin (.inr (hmoved ▸ hm))
    · exact fun hm => h.moved (hmoved ▸ hm)
  have hinit : SettingsMatch sys p.actorAdmin →
      PortFollows c sys (Lacp.rxEntered sys { p with rx := ⟨false, .init⟩ }) := by
    intro hadmin
    refine ⟨fun _ => hadmin, ?_, fun hm => by cases hm⟩
    rintro (hbegin | hm)
    · cases hbegin
    · cases hm
  cases guard with
  | start hs => exact hinit (h.admin (.inl hs))
  | moved hs hpm => exact hinit (h.admin (.inr hpm))
  | linkDown hen hpm hb hs => exact hkept _ hb (by simp [Lacp.rxEntered]) rfl rfl rfl rfl
  | initialized hs | linkUp hs | linkUpOff hs | lacpOn hs | timeout hs | resume hs | expire hs
  | refresh hs | recover hs =>
    exact hkept _ (by simp [hs]) (by simp [Lacp.rxEntered]) rfl rfl rfl rfl

theorem PortFollows.hop (h : PortFollows c w.sys (w.port b)) (hop : PortHop w b q) :
    PortFollows c w.sys q := by
  cases hop with
  | same => exact h
  | rx hb guard => exact h.rxEntered (rxGuard_of_check guard)
  | deselect | selDisabled | selAlone | select => exact { h with }
  | @mux s => cases s <;> exact { h with }
  | @tx s => cases s <;> exact { h with }

/-- A write keeps the records; a reception may mark a port whose admin record is up to date. -/
theorem PortFollows.write (h : PortFollows c w.sys (w.port b))
    (hwrite : PortWrite (fun w c => c.KeepsSettings w) c E w b q) : PortFollows c w.sys q := by
  cases hwrite with
  | same => exact h
  | deselect | prio | stat | receive | tick | notify | leave => exact { h with }
  | link =>
    simp only [linkChangedPort]
    split <;> exact { h with }
  | moved hc ha hindex hen hmoved hq hok =>
    subst hc
    exact { h with
      admin := fun _ => hok _ ha hindex hen b hmoved
      moved := fun _ => rfl }

/-- The port inventory is no setting. -/
theorem PortFollows.sysKept {sys sys' : LacpSys} {ports : List Addr} {p : LacpPort}
    (h : PortFollows c sys p) (hkept : SysKept { sys with ports := ports } sys') :
    PortFollows c sys' p := by
  rw [SysKept] at hkept
  rw [hkept]
  exact ⟨h.actor, h.admin, h.moved⟩

theorem PortFollows.effect (hc : Coherent E w) (h : ∀ a ∈ w.sys.ports, PortFollows c w.sys (w.port a))
    (heffect : Effect (fun w c => c.KeepsSettings w) c (E, w) (E', w')) :
    ∀ a ∈ w'.sys.ports, PortFollows c w'.sys (w'.port a) := by
  intro b hb
  cases heffect.cases hc with
  | hop hop =>
    have hsys := hop.engineHop.sys_eq
    rw [hsys] at hb ⊢
    exact (h b hb).hop (hop.engineHop.portHop b)
  | setSys hcfg _ hE hE' hw =>
    have hb' : b ∈ w.sys.ports := hw.ports ▸ hb
    have hp := hc.port b hb'
    subst hE
    rw [hw.port b hb']
    have hkept := hw.sys
    rw [SysKept] at hkept
    rw [hkept]
    refine ⟨fun _ => ⟨rfl, rfl⟩, ?_, fun hm => (h b hb').moved hm⟩
    -- a setting finds every port initialised, and none that is marked
    rintro (hbegin | hm)
    · have hlac := hp.enabled (Set.notMem_empty _)
      exact absurd (hp.fresh hbegin).1 (by simp [hlac])
    · have hnone := (h b hb').moved hm
      rw [hcfg] at hnone
      cases hnone
  | write _ hsys _ hports =>
    refine PortFollows.sysKept ?_ hsys
    cases hports b hb with
    | write hb' hwrite => exact (h b hb').write hwrite
    | join hb' _ _ _ _ _ _ _ hport =>
      rw [hport]
      exact { h b hb' with }
    | reselect hb' _ _ _ _ _ _ hport =>
      rw [hport]
      exact { h b hb' with }
    | create _ _ _ _ _ _ hport =>
      rw [hport]
      exact ⟨fun hrx => absurd rfl hrx, fun _ => ⟨rfl, rfl⟩, fun hm => by cases hm⟩

end Effect

/-- As long as no frame makes a port fall back on an admin record that is out of date, the settings of
the system are in every port. -/
theorem reachableBy_settingsReachPorts (h : ReachableBy (fun w c => c.KeepsSettings w) w) :
    SettingsReachPorts w := by
  refine h.invariant_of_calls (P := fun _ c _ w => ∀ a ∈ w.sys.ports, PortFollows c w.sys (w.port a))
    (fun _ _ ha => nomatch ha) ?_ (fun _ _ hc hP heffect => PortFollows.effect hc hP heffect) ?_
  · intro w c hc hq hmatch _ _ a ha
    have hrest := (hc.portQuiet hq ha)
    have hmoved : (w.port a).portMoved = false := hrest.moved
    have hlac := (hc.port a ha).enabled (Set.notMem_empty _)
    refine ⟨fun _ => hmatch a ha, ?_, fun hm => absurd hm (by simp [hmoved])⟩
    rintro (hbegin | hm)
    · exact absurd ((hc.port a ha).fresh hbegin).1 (by simp [hlac])
    · exact absurd hm (by simp [hmoved])
  · intro _ _ w _ _ hc _ hP a ha
    have hlac := (hc.port a ha).enabled (Set.notMem_empty _)
    refine (hP a ha).actor fun hbegin => ?_
    exact absurd ((hc.port a ha).fresh hbegin).1 (by simp [hlac])

/-- A new system priority and the short timeout, set while the ports run. -/
theorem aggregationRun_settingsReachPorts :
    ∃ w, ReachableBy (fun w c => c.KeepsSettings w) w ∧ w.sys.ports.length = 2 ∧
      w.sys.priority = 100 ∧ SettingsReachPorts w := by
  have hrun : (runCalls (fun w c => decide (c.KeepsSettings w)) 25 (initWorld 77)
      (aggregationRun ++ [.sysSetPrio 100, .sysSetPeriod 1])).any
        (fun w => w.sys.ports.length == 2 && w.sys.priority == 100) = true := by
    decide +kernel
  obtain ⟨w, h, _, hw⟩ := exists_reachableBy_of_runCalls (R := fun w c => c.KeepsSettings w)
    (by decide) (fun _ _ htest => of_decide_eq_true htest) hrun
  simp only [Bool.and_eq_true, beq_iff_eq] at hw
  exact ⟨w, h, hw.1, hw.2, reachableBy_settingsReachPorts h⟩

/-- The partner of port 2 shows up at port 1 while the link of port 2 is down and after the system
priority has changed. -/
def movedPartnerRun : List Call :=
  [.setPortLinkStatus 0 1, .setPortLinkStatus 1 1,
    .portLacpEnable 0 1 1 .zero, .portLacpEnable 0 2 1 .zero,
    .rxLacpdu 0 2 (peerFrame 4 2), .portLinkChange 0 2 0, .sysSetPrio 100,
    .rxLacpdu 0 1 (peerFrame 4 2)]

/-- Port 2 advertises the old system priority again. -/
theorem not_reachable_settingsReachPorts : ¬ ∀ w, Reachable w → SettingsReachPorts w := by
  have hrun : (runCalls (fun _ _ => true) 25 (initWorld 77) movedPartnerRun).any (fun w =>
      decide (1 ∈ w.sys.ports) && w.sys.priority == 100
        && (w.port 1).actor.systemPriority == 32768) = true := by decide +kernel
  obtain ⟨w, h, _, hw⟩ := exists_reachableBy_of_runCalls (R := fun _ _ => True) (by decide)
    (fun _ _ _ => trivial) hrun
  simp only [Bool.and_eq_true, decide_eq_true_iff, beq_iff_eq] at hw
  obtain ⟨⟨ha, hsys⟩, hport⟩ := hw
  intro hall
  have hmatch := (hall w h 1 ha).1
  rw [hport, hsys] at hmatch
  exact absurd hmatch (by decide)

end Lacp
