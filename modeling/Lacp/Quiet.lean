import Lacp.Coherence

/-!
# Ports at rest

Where no machine can move, the flags that drive the machines are down and the states of the machines
are determined by the settings of the port. `PortQuiet` reads these facts off the guards; together
with `PortCoherent` they are what holds of a port between two calls.
-/

namespace Lacp

/-- What the guards leave of a port none of whose machines can move. -/
structure PortQuiet (p : LacpPort) : Prop where
  selected : p.selected = true
  rcvd : p.rcvdLacpdu = false
  moved : p.portMoved = false
  started : p.rx.state ≠ .begin
  linkDown : p.portEnabled = false ↔ p.rx.state = .portDisabled
  linkUp : p.portEnabled = true → p.lacpEnabled = true →
    p.rx.state = .current ∨ p.rx.state = .expired ∨ p.rx.state = .defaulted
  running : p.rx.state = .expired ∨ p.rx.state = .current → p.currentWhile ≠ 0
  off : p.lacpEnabled = false → p.mux.state = .disable
  on : p.lacpEnabled = true → p.mux.state ≠ .begin ∧ p.mux.state ≠ .disable
  attached : p.lacpEnabled = true → p.Attached → p.standby = false
  collecting : p.lacpEnabled = true → p.mux.state = .rxTx → p.partner.state.SYN = true

section Guards

variable {w : World} {a : Addr}

/-- The receive machine is at rest. -/
theorem of_lacpRxCheckConditions_eq_none (h : lacpRxCheckConditions w a = none)
    (hrcvd : (w.port a).rcvdLacpdu = true →
      (w.port a).rx.state = .current ∨ (w.port a).rx.state = .defaulted ∨
        (w.port a).rx.state = .expired)
    (hmoved : (w.port a).portMoved = true → (w.port a).rx.state = .portDisabled) :
    (w.port a).rcvdLacpdu = false ∧ (w.port a).portMoved = false ∧
      (w.port a).rx.state ≠ .begin ∧
      ((w.port a).portEnabled = false ↔ (w.port a).rx.state = .portDisabled) ∧
      ((w.port a).portEnabled = true → (w.port a).lacpEnabled = true →
        (w.port a).rx.state = .current ∨ (w.port a).rx.state = .expired ∨
          (w.port a).rx.state = .defaulted) ∧
      ((w.port a).rx.state = .expired ∨ (w.port a).rx.state = .current →
        (w.port a).currentWhile ≠ 0) := by
  simp only [lacpRxCheckConditions] at h
  cases hs : (w.port a).rx.state <;> cases hen : (w.port a).portEnabled <;>
    cases hpm : (w.port a).portMoved <;> cases hrv : (w.port a).rcvdLacpdu <;> simp_all
  -- what is left moves to one of two states, whatever the remaining test says
  all_goals split at h <;> simp at h

/-- The mux machine is at rest. -/
theorem of_lacpMuxCheckConditions_eq_none (h : lacpMuxCheckConditions w a = none)
    (hsel : (w.port a).selected = true) :
    ((w.port a).lacpEnabled = false → (w.port a).mux.state = .disable) ∧
      ((w.port a).lacpEnabled = true →
        (w.port a).mux.state ≠ .begin ∧ (w.port a).mux.state ≠ .disable) ∧
      ((w.port a).lacpEnabled = true → (w.port a).Attached → (w.port a).standby = false) ∧
      ((w.port a).lacpEnabled = true → (w.port a).mux.state = .rxTx →
        (w.port a).partner.state.SYN = true) := by
  simp only [lacpMuxCheckConditions] at h
  cases hs : (w.port a).mux.state <;> cases hlac : (w.port a).lacpEnabled <;>
    cases hsb : (w.port a).standby <;> simp_all [LacpPort.Attached]

/-- The selection machine is at rest. -/
theorem of_lacpSelCheckConditions_eq_none (h : lacpSelCheckConditions w a = none) :
    (w.port a).sel.state = .selection ∧ (w.port a).selected = true := by
  simp only [lacpSelCheckConditions] at h
  cases hs : (w.port a).sel.state <;> simp_all

end Guards

/-- No port can move between two calls. -/
theorem Coherent.portQuiet {E : Set ℕ} {w : World} {a : Addr} (h : Coherent E w)
    (hq : Quiescent w) (ha : a ∈ w.sys.ports) : PortQuiet (w.port a) := by
  obtain ⟨hrx, hsel, hmux, _⟩ := hq a ha
  have hp := h.port a ha
  obtain ⟨_, hselected⟩ := of_lacpSelCheckConditions_eq_none hsel
  obtain ⟨hrcvd, hmoved, hstarted, hdown, hup, hrunning⟩ := of_lacpRxCheckConditions_eq_none hrx
    (fun hrv => (hp.rcvd hrv).2.2.imp_right (Or.imp_right And.left))
    (fun hpm => (hp.moved hpm).2.1)
  obtain ⟨hoff, hon, hattached, hcollecting⟩ := of_lacpMuxCheckConditions_eq_none hmux hselected
  exact ⟨hselected, hrcvd, hmoved, hstarted, hdown, hup, hrunning, hoff, hon, hattached, hcollecting⟩

section Port

variable {E : Set ℕ} {sys : LacpSys} {p : LacpPort} {attr : PortAttr}

/-- A port at rest that is attached works, and its partner is not an individual link. -/
theorem PortCoherent.active_of_attached (h : PortCoherent E sys p attr) (hq : PortQuiet p)
    (hlac : p.lacpEnabled = true) (hatt : p.Attached) :
    p.portEnabled = true ∧ p.partner.state.AGG = true ∧
      (p.portIndex ∉ E → p.actor.state.AGG = true) :=
  h.active hlac hq.selected (hq.attached hlac hatt)

/-- The default partner is an individual link, so no port at rest is attached on defaults. -/
theorem PortCoherent.not_defaulted_of_attached (h : PortCoherent E sys p attr) (hq : PortQuiet p)
    (hlac : p.lacpEnabled = true) (hatt : p.Attached) : p.rx.state ≠ .defaulted := by
  intro hrx
  have hagg := (h.active_of_attached hq hlac hatt).2.1
  rw [(h.defaulted hrx).2.2, h.partnerAdmin] at hagg
  exact absurd hagg (by simp)

/-- A port at rest advertises `SYN` exactly when it is attached. -/
theorem PortCoherent.syn_iff (h : PortCoherent E sys p attr) (hq : PortQuiet p)
    (hlac : p.lacpEnabled = true) : p.actor.state.SYN = true ↔ p.Attached :=
  ⟨h.syn, fun hatt => h.syn_of_attached hlac hatt (h.not_defaulted_of_attached hq hlac hatt)⟩

/-- A port at rest that does not run LACP is not attached. -/
theorem PortQuiet.not_attached_of_off (hq : PortQuiet p) (hlac : p.lacpEnabled = false) :
    ¬ p.Attached := by
  simp [LacpPort.Attached, hq.off hlac]

end Port

end Lacp
