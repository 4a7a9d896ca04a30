import Mathlib.Data.List.Nodup
import Lacp.Effects

/-!
# The states of the four machines fit together

`PortCoherent` is what holds of one port at every point of a run, between any two hops of the engine:
it pairs the states of the receive and mux machines with the flags, records and hardware entries they
keep. `Coherent` adds what holds of the list as a whole. Every effect preserves it
(`Coherent.effect`).

The hard clause is `doomed`. `update_default_selected` clears `actor.SYN` of a port that is still
attached; until the mux machine has detached the port, its receive machine stays in `RXM_DEFAULTED`.
-/

namespace Lacp

/-- The mux machine is in one of the two states in which the port is attached. -/
def LacpPort.Attached (p : LacpPort) : Prop := p.mux.state = .attached ∨ p.mux.state = .rxTx

instance (p : LacpPort) : Decidable p.Attached := inferInstanceAs (Decidable (_ ∨ _))

/-- What holds of a port and of its entry of `g_port_list` at every point of a run. -/
structure PortCoherent (E : Set ℕ) (sys : LacpSys) (p : LacpPort) (attr : PortAttr) : Prop where
  enabled : p.portIndex ∉ E → p.lacpEnabled = true
  member : p.lacpEnabled = true ↔ p.aggId ≠ 0
  rcvd : p.rcvdLacpdu = true → p.lacpEnabled = true ∧ p.portEnabled = true ∧
    (p.rx.state = .current ∨ p.rx.state = .defaulted ∨
      p.rx.state = .expired ∧ p.currentWhile ≠ 0)
  moved : p.portMoved = true → p.portEnabled = false ∧ p.rx.state = .portDisabled ∧ ¬ p.Attached
  fresh : p.rx.state = .begin →
    p.lacpEnabled = false ∧ (p.mux.state = .begin ∨ p.mux.state = .disable)
  portDisabled : p.rx.state = .portDisabled → p.partner.state.SYN = false
  expired : p.rx.state = .expired → p.actor.state.EXP = true ∧ p.partner.state.TMT = true ∧
    p.partner.state.SYN = false ∧ p.currentWhile ≤ sys.shortTimeoutTime
  defaulted : p.rx.state = .defaulted →
    p.actor.state.DEF = true ∧ p.actor.state.EXP = false ∧ p.partner = p.partnerAdmin
  current : p.rx.state = .current → p.actor.state.DEF = false ∧ p.actor.state.EXP = false ∧
    p.currentWhile ≤ sys.longTimeoutTime
  active : p.lacpEnabled = true → p.selected = true → p.standby = false → p.portEnabled = true ∧
    p.partner.state.AGG = true ∧ (p.portIndex ∉ E → p.actor.state.AGG = true)
  syn : p.actor.state.SYN = true → p.Attached
  doomed : p.lacpEnabled = true → p.Attached → p.actor.state.SYN = false →
    p.rx.state = .defaulted ∧ p.rcvdLacpdu = false ∧ p.portEnabled = true
  off : p.mux.state = .detached ∨ p.mux.state = .waiting ∨ p.mux.state = .readyN ∨
    p.mux.state = .attached → p.actor.state.COL = false ∧ p.actor.state.DIS = false ∧ attr.cd = 0
  on : p.mux.state = .rxTx → p.actor.state.COL = true ∧ p.actor.state.DIS = true ∧ attr.cd = 1
  passive : p.mux.state = .begin ∨ p.mux.state = .disable → attr.cd = 1
  unattached : ¬ p.Attached → attr.tid = 0
  actorAdmin : p.actorAdmin.state.SYN = false ∧ p.actorAdmin.state.COL = false ∧
    p.actorAdmin.state.DIS = false
  partnerAdmin : p.partnerAdmin.state.AGG = false

/-- What holds of the whole bridge at every point of a run. -/
structure Coherent (E : Set ℕ) (w : World) : Prop where
  idle : Idle w
  shortTimeoutTime : w.sys.shortTimeoutTime = 3
  longTimeoutTime : w.sys.longTimeoutTime = 90
  aggregateWaitTime : w.sys.aggregateWaitTime = 2
  adminState : w.sys.adminState = true
  nodup : (w.sys.ports.map fun a => (w.port a).portIndex).Nodup
  index_lt : ∀ a ∈ w.sys.ports, (w.port a).portIndex < lacpPortMax
  addr_lt : ∀ a ∈ w.sys.ports, a < w.brk
  port : ∀ a ∈ w.sys.ports, PortCoherent E w.sys (w.port a) (w.gPortList (w.port a).portIndex)
  absent : ∀ i, (∀ a ∈ w.sys.ports, (w.port a).portIndex ≠ i) →
    (w.gPortList i).tid = 0 ∧ (w.gPortList i).cd = 1

/-! ## Hops of one port -/

namespace PortCoherent

variable {E : Set ℕ} {sys : LacpSys} {p : LacpPort} {attr : PortAttr}

/-- Deselecting a port never hurts. -/
theorem deselect (h : PortCoherent E sys p attr) :
    PortCoherent E sys { p with selected := false } attr :=
  { h with active := fun _ hsel => by simp at hsel }

/-- A selection activates a port only if the port works and all its `AGG` bits are set. -/
theorem select (h : PortCoherent E sys p attr) {sel : LacpStateMach SelState} {key : UInt16}
    {standby : Bool} {master : Addr}
    (hactive : standby = false → p.portEnabled = true ∧ p.actor.state.AGG = true ∧
      p.partner.state.AGG = true) :
    PortCoherent E sys
      { p with
        sel := sel
        actor := { p.actor with key := key }
        selected := true
        standby := standby
        masterPort := master } attr :=
  { h with
    active := fun _ _ hsb => ⟨(hactive hsb).1, (hactive hsb).2.2, fun _ => (hactive hsb).2.1⟩ }

/-- A port whose receive machine is not in `RXM_DEFAULTED` advertises that it is attached. -/
theorem syn_of_attached (h : PortCoherent E sys p attr) (hlac : p.lacpEnabled = true)
    (hatt : p.Attached) (hrx : p.rx.state ≠ .defaulted) : p.actor.state.SYN = true := by
  by_contra hsyn
  exact hrx (h.doomed hlac hatt (by simpa using hsyn)).1

theorem enterInit (h : PortCoherent E sys p attr) (hrv : p.rcvdLacpdu = false)
    (hatt : ¬ p.Attached) :
    PortCoherent E sys (rxEntered sys { p with rx := ⟨false, .init⟩ }) attr :=
  { h with
    rcvd := fun hrv' => absurd hrv' (by simp [Lacp.rxEntered, hrv])
    moved := fun hpm => nomatch hpm
    fresh := fun hrx => nomatch hrx
    portDisabled := fun hrx => nomatch hrx
    expired := fun hrx => nomatch hrx
    defaulted := fun hrx => nomatch hrx
    current := fun hrx => nomatch hrx
    active := fun _ hsel => nomatch hsel
    syn := fun hsyn => by
      have hadmin : p.actorAdmin.state.SYN = true := hsyn
      exact absurd hadmin (by simp [h.actorAdmin.1])
    doomed := fun _ hatt' => absurd hatt' hatt
    off := fun hmux => ⟨h.actorAdmin.2.1, h.actorAdmin.2.2, (h.off hmux).2.2⟩
    on := fun hmux => absurd (.inr hmux) hatt }

theorem enterPortDisabled (h : PortCoherent E sys p attr) (hpm : p.portMoved = false)
    (hdoomed : p.rx.state ≠ .defaulted ∨ p.portEnabled = false) :
    PortCoherent E sys (rxEntered sys { p with rx := ⟨false, .portDisabled⟩ }) attr :=
  { h with
    rcvd := fun hrv => nomatch hrv
    moved := fun hpm' => absurd hpm' (by simp [Lacp.rxEntered, hpm])
    fresh := fun hrx => nomatch hrx
    portDisabled := fun _ => rfl
    expired := fun hrx => nomatch hrx
    defaulted := fun hrx => nomatch hrx
    current := fun hrx => nomatch hrx
    active := fun _ hsel => nomatch hsel
    doomed := fun hlac hatt hsyn => by
      obtain ⟨hrx, _, hen⟩ := h.doomed hlac hatt hsyn
      rcases hdoomed with hrx' | hen'
      · exact absurd hrx hrx'
      · exact absurd hen (by simp [hen']) }

theorem enterLacpDisabled (h : PortCoherent E sys p attr) (hrv : p.rcvdLacpdu = false)
    (hpm : p.portMoved = false) (hlac : p.lacpEnabled = false) :
    PortCoherent E sys (rxEntered sys { p with rx := ⟨false, .lacpDisabled⟩ }) attr :=
  { h with
    rcvd := fun hrv' => absurd hrv' (by simp [Lacp.rxEntered, hrv])
    moved := fun hpm' => absurd hpm' (by simp [Lacp.rxEntered, hpm])
    fresh := fun hrx => nomatch hrx
    portDisabled := fun hrx => nomatch hrx
    expired := fun hrx => nomatch hrx
    defaulted := fun hrx => nomatch hrx
    current := fun hrx => nomatch hrx
    active := fun _ hsel => nomatch hsel
    doomed := fun hlac' => absurd hlac' (by simp [Lacp.rxEntered, hlac]) }

theorem enterExpired (h : PortCoherent E sys p attr) (hrv : p.rcvdLacpdu = false)
    (hpm : p.portMoved = false) (hrx : p.rx.state ≠ .defaulted) :
    PortCoherent E sys (rxEntered sys { p with rx := ⟨false, .expired⟩ }) attr :=
  { h with
    rcvd := fun hrv' => absurd hrv' (by simp [Lacp.rxEntered, hrv])
    moved := fun hpm' => absurd hpm' (by simp [Lacp.rxEntered, hpm])
    fresh := fun hrx => nomatch hrx
    portDisabled := fun hrx => nomatch hrx
    expired := fun _ => ⟨rfl, rfl, rfl, UInt16.le_refl _⟩
    defaulted := fun hrx => nomatch hrx
    current := fun hrx => nomatch hrx
    doomed := fun hlac hatt hsyn => absurd (h.doomed hlac hatt hsyn).1 hrx }

/-- The default partner is an individual link, so a port that falls back on it cannot stay active. -/
theorem enterDefaulted (h : PortCoherent E sys p attr) (hrv : p.rcvdLacpdu = false)
    (hpm : p.portMoved = false) (hen : p.portEnabled = true) :
    PortCoherent E sys (rxEntered sys { p with rx := ⟨false, .defaulted⟩ }) attr :=
  { h with
    rcvd := fun hrv' => absurd hrv' (by simp [Lacp.rxEntered, hrv])
    moved := fun hpm' => absurd hpm' (by simp [Lacp.rxEntered, hpm])
    fresh := fun hrx => nomatch hrx
    portDisabled := fun hrx => nomatch hrx
    expired := fun hrx => nomatch hrx
    defaulted := fun _ => ⟨rfl, rfl, rfl⟩
    current := fun hrx => nomatch hrx
    active := fun hlac hsel hsb => by
      obtain ⟨hsel, hsame⟩ := Bool.and_eq_true_iff.mp hsel
      have hAGG : p.partnerAdmin.state.AGG = p.partner.state.AGG :=
        (samePartner_iff.mp hsame).2.2.2.2.2
      have hagg := (h.active hlac hsel hsb).2.1
      rw [← hAGG, h.partnerAdmin] at hagg
      exact absurd hagg (by simp)
    syn := fun hsyn => h.syn (Bool.and_eq_true_iff.mp hsyn).1
    doomed := fun _ _ _ => ⟨rfl, hrv, hen⟩ }

/-- A received LACPDU either has the recorded partner in it, or deselects the port. -/
theorem enterCurrent (h : PortCoherent E sys p attr)
    (htimeout : sys.shortTimeoutTime ≤ sys.longTimeoutTime) (hrv : p.rcvdLacpdu = true) :
    PortCoherent E sys (rxEntered sys { p with rx := ⟨false, .current⟩ }) attr :=
  { h with
    rcvd := fun hrv' => nomatch hrv'
    moved := fun hpm => absurd (h.moved hpm).1 (by simp [(h.rcvd hrv).2.1])
    fresh := fun hrx => nomatch hrx
    portDisabled := fun hrx => nomatch hrx
    expired := fun hrx => nomatch hrx
    defaulted := fun hrx => nomatch hrx
    current := fun _ => by
      refine ⟨rfl, rfl, ?_⟩
      show (if p.actor.state.TMT then sys.shortTimeoutTime else sys.longTimeoutTime) ≤ _
      split
      · exact htimeout
      · exact UInt16.le_refl _
    active := fun hlac hsel hsb => by
      obtain ⟨hsel, hsame⟩ := Bool.and_eq_true_iff.mp hsel
      have hAGG : p.msgActor.state.AGG = p.partner.state.AGG :=
        (samePartner_iff.mp hsame).2.2.2.2.2
      obtain ⟨hen, hagg, hactor⟩ := h.active hlac hsel hsb
      exact ⟨hen, hAGG.trans hagg, hactor⟩
    doomed := fun hlac hatt hsyn => absurd hrv (by simp [(h.doomed hlac hatt hsyn).2.1]) }

/-- Entering a state of the receive machine. -/
theorem rxEntered (h : PortCoherent E sys p attr)
    (htimeout : sys.shortTimeoutTime ≤ sys.longTimeoutTime) {s : RxState} (guard : RxGuard p s) :
    PortCoherent E sys (rxEntered sys { p with rx := ⟨false, s⟩ }) attr := by
  -- in most states a pending LACPDU or a moved partner is impossible
  have hrv : p.rx.state ≠ .current → p.rx.state ≠ .defaulted → p.rx.state ≠ .expired →
      p.rcvdLacpdu = false := by
    intro hc hd he
    by_contra hrv
    rcases (h.rcvd (by simpa using hrv)).2.2 with hrx | hrx | hrx
    · exact hc hrx
    · exact hd hrx
    · exact he hrx.1
  have hpm : p.rx.state ≠ .portDisabled → p.portMoved = false := by
    intro hrx
    by_contra hpm
    exact hrx (h.moved (by simpa using hpm)).2.1
  cases guard with
  | linkDown hen hpm hb hs => exact h.enterPortDisabled hpm (.inr hen)
  | start hs =>
    refine h.enterInit (hrv (by simp [hs]) (by simp [hs]) (by simp [hs])) ?_
    rcases (h.fresh hs).2 with hmux | hmux <;> simp [LacpPort.Attached, hmux]
  | initialized hs hup => exact h.enterPortDisabled (hpm (by simp [hs])) (.inl (by simp [hs]))
  | moved hs hpm =>
    exact h.enterInit (hrv (by simp [hs]) (by simp [hs]) (by simp [hs])) (h.moved hpm).2.2
  | linkUp hs hpm hen hlac =>
    exact h.enterExpired (hrv (by simp [hs]) (by simp [hs]) (by simp [hs])) hpm (by simp [hs])
  | linkUpOff hs hpm hen hlac =>
    exact h.enterLacpDisabled (hrv (by simp [hs]) (by simp [hs]) (by simp [hs])) hpm hlac
  | lacpOn hs hen hlac =>
    exact h.enterExpired (hrv (by simp [hs]) (by simp [hs]) (by simp [hs])) (hpm (by simp [hs]))
      (by simp [hs])
  | timeout hs hup hcw =>
    have hpm := hpm (by simp [hs])
    have hrv : p.rcvdLacpdu = false := by
      by_contra hrv
      have hstate := (h.rcvd (by simpa using hrv)).2.2
      simp [hs, hcw] at hstate
    exact h.enterDefaulted hrv hpm (by simpa [hpm] using hup)
  | resume hs hup hcw hrv => exact h.enterCurrent htimeout hrv
  | expire hs hup hcw hrv => exact h.enterExpired hrv (hpm (by simp [hs])) (by simp [hs])
  | refresh hs hup hrv => exact h.enterCurrent htimeout hrv
  | recover hs hup hrv => exact h.enterCurrent htimeout hrv

/-- A port that is not in standby has not moved. -/
theorem not_moved_of_active (h : PortCoherent E sys p attr) (hlac : p.lacpEnabled = true)
    (hsel : p.selected = true) (hsb : p.standby = false) : p.portMoved = false := by
  by_contra hpm
  have hen := (h.active hlac hsel hsb).1
  rw [(h.moved (by simpa using hpm)).1] at hen
  exact absurd hen (by simp)

theorem enterDetached (h : PortCoherent E sys p attr) (hlac : p.lacpEnabled = true)
    : PortCoherent E sys (muxEntered sys { p with mux := ⟨false, .detached⟩ })
      (muxHardware { p with mux := ⟨false, .detached⟩ } attr) :=
  { h with
    moved := fun hpm =>
      ⟨(h.moved hpm).1, (h.moved hpm).2.1, by simp [LacpPort.Attached, Lacp.muxEntered]⟩
    fresh := fun hrx => absurd (h.fresh hrx).1 (by simp [hlac])
    syn := fun hsyn => nomatch hsyn
    doomed := fun _ hatt => by rcases hatt with hatt | hatt <;> cases hatt
    off := fun _ => ⟨rfl, rfl, rfl⟩
    on := fun hmux => nomatch hmux
    passive := fun hmux => by rcases hmux with hmux | hmux <;> cases hmux
    unattached := fun _ => rfl }

theorem enterAttached (h : PortCoherent E sys p attr) (hlac : p.lacpEnabled = true)
    (hpm : p.portMoved = false) :
    PortCoherent E sys (muxEntered sys { p with mux := ⟨false, .attached⟩ })
      (muxHardware { p with mux := ⟨false, .attached⟩ } attr) :=
  { h with
    moved := fun hpm' => absurd hpm' (by simp [Lacp.muxEntered, hpm])
    fresh := fun hrx => absurd (h.fresh hrx).1 (by simp [hlac])
    syn := fun _ => .inl rfl
    doomed := fun _ _ hsyn => nomatch hsyn
    off := fun _ => ⟨rfl, rfl, rfl⟩
    on := fun hmux => nomatch hmux
    passive := fun hmux => by rcases hmux with hmux | hmux <;> cases hmux
    unattached := fun hatt => absurd (.inl rfl) hatt }

/-- A port on its way from `MUX_DETACHED` to `MUX_ATTACHED`. -/
theorem enterDetachedPhase (h : PortCoherent E sys p attr) (hlac : p.lacpEnabled = true)
    {s : MuxState} (hs : s = .waiting ∨ s = .readyN)
    (hfrom : p.mux.state = .detached ∨ p.mux.state = .waiting) :
    PortCoherent E sys (muxEntered sys { p with mux := ⟨false, s⟩ })
      (muxHardware { p with mux := ⟨false, s⟩ } attr) := by
  have hatt : ¬ p.Attached := by rcases hfrom with hmux | hmux <;> simp [LacpPort.Attached, hmux]
  have hoff := h.off (by tauto)
  rcases hs with rfl | rfl
  all_goals
    exact { h with
      moved := fun hpm =>
        ⟨(h.moved hpm).1, (h.moved hpm).2.1, by simp [LacpPort.Attached, Lacp.muxEntered]⟩
      fresh := fun hrx => absurd (h.fresh hrx).1 (by simp [hlac])
      syn := fun hsyn => absurd (h.syn hsyn) hatt
      doomed := fun _ hatt => by rcases hatt with hatt | hatt <;> cases hatt
      off := fun _ => hoff
      on := fun hmux => by cases hmux
      passive := fun hmux => by rcases hmux with hmux | hmux <;> cases hmux
      unattached := fun _ => h.unattached hatt }

/-- Entering a state of the mux machine, which rewrites the port's entry of `g_port_list` as well. -/
theorem muxEntered (h : PortCoherent E sys p attr) {ready : Bool} {s : MuxState}
    (guard : MuxGuard ready p s) :
    PortCoherent E sys (muxEntered sys { p with mux := ⟨false, s⟩ })
      (muxHardware { p with mux := ⟨false, s⟩ } attr) := by
  cases guard with
  | off hlac hs =>
    exact { h with
      moved := fun hpm =>
        ⟨(h.moved hpm).1, (h.moved hpm).2.1, by simp [LacpPort.Attached, Lacp.muxEntered]⟩
      fresh := fun hrx => ⟨(h.fresh hrx).1, .inr rfl⟩
      syn := fun hsyn => nomatch hsyn
      doomed := fun hlac' => absurd hlac' (by simp [Lacp.muxEntered, hlac])
      off := fun hmux => by rcases hmux with hmux | hmux | hmux | hmux <;> cases hmux
      on := fun hmux => nomatch hmux
      passive := fun _ => rfl
      unattached := fun _ => rfl }
  | reset hlac hs => exact h.enterDetached hlac
  | select hlac hs hsel hsb => exact h.enterDetachedPhase hlac (.inl rfl) (.inl hs)
  | waited hlac hs hww => exact h.enterDetachedPhase hlac (.inr rfl) (.inr hs)
  | attach hlac hs hsel hsb hready =>
    exact h.enterAttached hlac (h.not_moved_of_active hlac hsel hsb)
  | abandon hlac hs hout => exact h.enterDetached hlac
  | sync hlac hs hsel hsb hsyn =>
    exact { h with
      moved := fun hpm => absurd hpm (by simp [Lacp.muxEntered, h.not_moved_of_active hlac hsel hsb])
      fresh := fun hrx => absurd (h.fresh hrx).1 (by simp [hlac])
      syn := fun _ => .inr rfl
      doomed := fun _ _ hsyn => h.doomed hlac (.inl hs) hsyn
      off := fun hmux => by rcases hmux with hmux | hmux | hmux | hmux <;> cases hmux
      on := fun _ => ⟨rfl, rfl, rfl⟩
      passive := fun hmux => by rcases hmux with hmux | hmux <;> cases hmux
      unattached := fun hatt => absurd (.inr rfl) hatt }
  | detach hlac hs hout => exact h.enterDetached hlac
  | desync hlac hs hout =>
    refine h.enterAttached hlac ?_
    by_contra hpm
    exact (h.moved (by simpa using hpm)).2.2 (.inr hs)

/-- Entering a state of the transmit machine. -/
theorem txEntered (h : PortCoherent E sys p attr) {s : TxState} :
    PortCoherent E sys (txEntered sys { p with tx := ⟨false, s⟩ }) attr := by
  cases s <;> exact { h with }

/-- More ports may be exempt. -/
theorem mono {E' : Set ℕ} (hE : E ⊆ E') (h : PortCoherent E sys p attr) :
    PortCoherent E' sys p attr :=
  { h with
    enabled := fun hi => h.enabled fun hi' => hi (hE hi')
    active := fun hlac hsel hsb =>
      let ⟨hen, hagg, hactor⟩ := h.active hlac hsel hsb
      ⟨hen, hagg, fun hi => hactor fun hi' => hi (hE hi')⟩ }

end PortCoherent

/-! ## Hops of the engine -/

namespace Coherent

variable {E : Set ℕ} {w w' : World} {a b : Addr}

theorem timeout_le (h : Coherent E w) : w.sys.shortTimeoutTime ≤ w.sys.longTimeoutTime := by
  rw [h.shortTimeoutTime, h.longTimeoutTime]
  decide

/-- Two listed ports with one index are one port. -/
theorem index_inj (h : Coherent E w) (ha : a ∈ w.sys.ports) (hb : b ∈ w.sys.ports)
    (hindex : (w.port a).portIndex = (w.port b).portIndex) : a = b :=
  List.inj_on_of_nodup_map h.nodup ha hb hindex

theorem aggId_ne_zero (h : Coherent E w) (ha : a ∈ w.sys.ports)
    (hlac : (w.port a).lacpEnabled = true) : (w.port a).aggId ≠ 0 :=
  (h.port a ha).member.mp hlac

/-- What is left to show once the list and the settings of the ports are known to be the same. -/
theorem of_ports (h : Coherent E w) (hports : w'.sys.ports = w.sys.ports)
    (hshort : w'.sys.shortTimeoutTime = w.sys.shortTimeoutTime)
    (hlong : w'.sys.longTimeoutTime = w.sys.longTimeoutTime)
    (hwait : w'.sys.aggregateWaitTime = w.sys.aggregateWaitTime)
    (hadmin : w'.sys.adminState = w.sys.adminState) (hbrk : w'.brk = w.brk)
    (hindex : ∀ b ∈ w.sys.ports, (w'.port b).portIndex = (w.port b).portIndex) {E' : Set ℕ}
    (hidle : Idle w')
    (hport : ∀ b ∈ w.sys.ports,
      PortCoherent E' w'.sys (w'.port b) (w'.gPortList (w.port b).portIndex))
    (habsent : ∀ i, (∀ a ∈ w.sys.ports, (w.port a).portIndex ≠ i) →
      (w'.gPortList i).tid = (w.gPortList i).tid ∧ (w'.gPortList i).cd = (w.gPortList i).cd) :
    Coherent E' w' where
  idle := hidle
  shortTimeoutTime := hshort.trans h.shortTimeoutTime
  longTimeoutTime := hlong.trans h.longTimeoutTime
  aggregateWaitTime := hwait.trans h.aggregateWaitTime
  adminState := hadmin.trans h.adminState
  nodup := by
    rw [hports, List.map_congr_left hindex]
    exact h.nodup
  index_lt := fun b hb => by
    rw [hports] at hb
    rw [hindex b hb]
    exact h.index_lt b hb
  addr_lt := fun b hb => by
    rw [hbrk]
    exact h.addr_lt b (hports ▸ hb)
  port := fun b hb => by
    rw [hports] at hb
    rw [hindex b hb]
    exact hport b hb
  absent := fun i hi => by
    have hi' : ∀ b ∈ w.sys.ports, (w.port b).portIndex ≠ i := fun b hb => by
      rw [← hindex b hb]
      exact hi b (hports ▸ hb)
    rw [(habsent i hi').1, (habsent i hi').2]
    exact h.absent i hi'

/-- Every hop keeps the machines in step. -/
theorem hop (h : Coherent E w) (hop : EngineHop w w') : Coherent E w' := by
  have hindex : ∀ b ∈ w.sys.ports, (w'.port b).portIndex = (w.port b).portIndex :=
    fun b _ => hop.portIndex_eq b
  have hidle := hop.idle h.idle
  have hsys := hop.sys_eq
  have hcoherent : (∀ b ∈ w.sys.ports, PortCoherent E w'.sys (w'.port b)
        (w'.gPortList (w.port b).portIndex)) →
      (∀ i, (∀ a ∈ w.sys.ports, (w.port a).portIndex ≠ i) →
        (w'.gPortList i).tid = (w.gPortList i).tid ∧ (w'.gPortList i).cd = (w.gPortList i).cd) →
      Coherent E w' :=
    h.of_ports (congrArg LacpSys.ports hsys) (congrArg LacpSys.shortTimeoutTime hsys)
      (congrArg LacpSys.longTimeoutTime hsys) (congrArg LacpSys.aggregateWaitTime hsys)
      (congrArg LacpSys.adminState hsys) hop.brk_eq hindex hidle
  -- of the ports that do not move a hop writes only what a selection or a reselection writes
  cases hop with
  | @rx a s ha guard =>
    refine hcoherent ?_ fun _ _ => ⟨rfl, rfl⟩
    intro b hb
    simp only [rxHop]
    by_cases hba : b = a
    · subst hba
      rw [if_pos rfl]
      exact (h.port b hb).rxEntered h.timeout_le (rxGuard_of_check guard)
    · rw [if_neg hba]
      split
      · exact (h.port b hb).deselect
      · exact h.port b hb
  | @sel a ha guard =>
    refine hcoherent ?_ fun _ _ => ⟨rfl, rfl⟩
    intro b hb
    have hp := h.port b hb
    simp only [selHop]
    by_cases hlac : (w.port a).lacpEnabled = false
    · rw [if_pos hlac]
      by_cases hba : b = a
      · subst hba
        rw [if_pos rfl, if_pos rfl]
        exact hp.select fun hsb => by cases hsb
      · rw [if_neg hba, if_neg hba]
        exact hp
    · rw [if_neg hlac]
      split
      · rename_i hmem
        have hactive : selectedStandby w (w.port a).aggId b = false →
            (w.port b).portEnabled = true ∧ (w.port b).actor.state.AGG = true ∧
              (w.port b).partner.state.AGG = true := by
          intro hsb
          obtain ⟨hen, _, hagg, hpagg⟩ := of_selectedStandby_eq_false w _ b hsb
          exact ⟨hen, hagg, hpagg⟩
        by_cases hba : b = a
        · rw [if_pos hba]
          exact hp.select hactive
        · rw [if_neg hba]
          exact hp.select hactive
      · by_cases hba : b = a
        · rw [if_pos hba]
          exact { hp with }
        · rw [if_neg hba]
          exact hp
  | @mux a s ha guard =>
    refine hcoherent ?_ fun i hi => ?_
    · intro b hb
      simp only [muxHop]
      by_cases hba : b = a
      · subst hba
        rw [if_pos rfl, if_pos rfl]
        exact (h.port b hb).muxEntered (muxGuard_of_check guard)
      -- no two ports share an entry of `g_port_list`
      · have hne : (w.port b).portIndex ≠ (w.port a).portIndex :=
          fun heq => hba (h.index_inj hb ha heq)
        rw [if_neg hba, if_neg hne]
        exact h.port b hb
    · simp only [muxHop]
      rw [if_neg (hi a ha).symm]
      exact ⟨rfl, rfl⟩
  | @tx a s ha guard =>
    refine hcoherent ?_ fun _ _ => ⟨rfl, rfl⟩
    intro b hb
    simp only [txHop]
    by_cases hba : b = a
    · subst hba
      rw [if_pos rfl]
      exact (h.port b hb).txEntered
    · rw [if_neg hba]
      exact h.port b hb

end Coherent

end Lacp
