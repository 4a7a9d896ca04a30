import Lacp.Reachability

/-!
# The ports between two calls

What `PortCoherent` and `PortQuiet` say together, machine by machine: the receive machine and its
flags, the mux machine with the advertised bits and the hardware, and what it takes to forward.
-/

namespace Lacp

variable {E : Set ℕ} {sys : LacpSys} {p : LacpPort} {attr : PortAttr}

/-- The receive machine of a port at rest, with the flags, timers and records it keeps. -/
structure RxCoherent (sys : LacpSys) (p : LacpPort) : Prop where
  rcvd : p.rcvdLacpdu = false
  moved : p.portMoved = false
  linkDown : p.portEnabled = false → p.rx.state = .portDisabled
  linkUp : p.portEnabled = true → p.lacpEnabled = true →
    p.rx.state = .current ∨ p.rx.state = .expired ∨ p.rx.state = .defaulted
  portDisabled : p.rx.state = .portDisabled → p.partner.state.SYN = false
  expired : p.rx.state = .expired → p.actor.state.EXP = true ∧ p.partner.state.TMT = true ∧
    p.partner.state.SYN = false ∧ 0 < p.currentWhile ∧ p.currentWhile ≤ sys.shortTimeoutTime
  defaulted : p.rx.state = .defaulted →
    p.actor.state.DEF = true ∧ p.actor.state.EXP = false ∧ p.partner = p.partnerAdmin
  current : p.rx.state = .current → p.actor.state.DEF = false ∧ p.actor.state.EXP = false ∧
    0 < p.currentWhile ∧ p.currentWhile ≤ sys.longTimeoutTime

theorem PortCoherent.rxCoherent (h : PortCoherent E sys p attr) (hq : PortQuiet p) :
    RxCoherent sys p where
  rcvd := hq.rcvd
  moved := hq.moved
  linkDown := hq.linkDown.mp
  linkUp := hq.linkUp
  portDisabled := h.portDisabled
  expired := fun hrx =>
    let ⟨hexp, htmt, hsyn, hle⟩ := h.expired hrx
    ⟨hexp, htmt, hsyn, UInt16.pos_iff_ne_zero.mpr (hq.running (.inl hrx)), hle⟩
  defaulted := h.defaulted
  current := fun hrx =>
    let ⟨hdef, hexp, hle⟩ := h.current hrx
    ⟨hdef, hexp, UInt16.pos_iff_ne_zero.mpr (hq.running (.inr hrx)), hle⟩

/-- What the mux machine of a port at rest advertises and has set in the hardware. -/
structure MuxAgrees (p : LacpPort) (attr : PortAttr) : Prop where
  syn : p.actor.state.SYN = true ↔ p.mux.state = .attached ∨ p.mux.state = .rxTx
  collecting : p.actor.state.COL = true ↔ p.mux.state = .rxTx
  distributing : p.actor.state.DIS = true ↔ p.mux.state = .rxTx
  cd : attr.cd = if p.mux.state = .rxTx then 1 else 0

theorem PortCoherent.muxAgrees (h : PortCoherent E sys p attr) (hq : PortQuiet p)
    (hlac : p.lacpEnabled = true) : MuxAgrees p attr := by
  have hsyn := h.syn_iff hq hlac
  by_cases hmux : p.mux.state = .rxTx
  · obtain ⟨hcol, hdis, hcd⟩ := h.on hmux
    exact ⟨hsyn, iff_of_true hcol hmux, iff_of_true hdis hmux, by rw [if_pos hmux, hcd]⟩
  · have hoff : p.mux.state = .detached ∨ p.mux.state = .waiting ∨ p.mux.state = .readyN ∨
        p.mux.state = .attached := by
      obtain ⟨hbegin, hdisable⟩ := hq.on hlac
      cases hs : p.mux.state <;> simp_all
    obtain ⟨hcol, hdis, hcd⟩ := h.off hoff
    exact ⟨hsyn, iff_of_false (by simp [hcol]) hmux, iff_of_false (by simp [hdis]) hmux,
      by rw [if_neg hmux, hcd]⟩

/-- What it takes to collect and distribute. -/
structure ForwardsLive (p : LacpPort) : Prop where
  portEnabled : p.portEnabled = true
  lacpEnabled : p.lacpEnabled = true
  selected : p.selected = true
  standby : p.standby = false
  rx : p.rx.state = .current
  currentWhile : 0 < p.currentWhile
  partnerSYN : p.partner.state.SYN = true
  partnerAGG : p.partner.state.AGG = true
  actorAGG : p.actor.state.AGG = true
  actorDEF : p.actor.state.DEF = false
  actorEXP : p.actor.state.EXP = false

/-- A port at rest that is in `MUX_RX_TX` has a live partner: the default partner is an individual
link, and an expired partner is not in sync. -/
theorem PortCoherent.forwardsLive (h : PortCoherent ∅ sys p attr) (hq : PortQuiet p)
    (hmux : p.mux.state = .rxTx) : ForwardsLive p := by
  have hlac := h.enabled (Set.notMem_empty _)
  have hatt : p.Attached := .inr hmux
  obtain ⟨hen, hpagg, hagg⟩ := h.active_of_attached hq hlac hatt
  have hsyn := hq.collecting hlac hmux
  have hrx : p.rx.state = .current := by
    rcases hq.linkUp hen hlac with hrx | hrx | hrx
    · exact hrx
    · exact absurd hsyn (by simp [(h.expired hrx).2.2.1])
    · exact absurd hrx (h.not_defaulted_of_attached hq hlac hatt)
  obtain ⟨hdef, hexp, _⟩ := h.current hrx
  exact ⟨hen, hlac, hq.selected, hq.attached hlac hatt, hrx,
    UInt16.pos_iff_ne_zero.mpr (hq.running (.inr hrx)), hsyn, hpagg, hagg (Set.notMem_empty _), hdef,
    hexp⟩

/-! ## Every reachable state -/

/-- A port forwards only on a live, synchronised partner. -/
theorem reachable_forwardsLive (w : World) (h : Reachable w) (a : Addr) (ha : a ∈ w.sys.ports)
    (hmux : (w.port a).mux.state = .rxTx) : ForwardsLive (w.port a) :=
  (h.port ha).1.forwardsLive (h.port ha).2 hmux

/-- The mux state, the advertised bits and the collecting/distributing switch agree. -/
theorem reachable_muxAgrees (w : World) (h : Reachable w) (a : Addr) (ha : a ∈ w.sys.ports)
    (hlac : (w.port a).lacpEnabled = true) :
    MuxAgrees (w.port a) (w.gPortList (w.port a).portIndex) :=
  (h.port ha).1.muxAgrees (h.port ha).2 hlac

/-- The receive state and its flags, timers and records agree. -/
theorem reachable_rxCoherent (w : World) (h : Reachable w) (a : Addr) (ha : a ∈ w.sys.ports) :
    RxCoherent w.sys (w.port a) :=
  (h.port ha).1.rxCoherent (h.port ha).2

/-! ## Two forwarding ports -/

/-- The ports at the addresses 0 and 1 are the two ports of `aggregationRun`, and both forward. -/
def bothForward (w : World) : Bool :=
  [0, 1].all fun a =>
    decide (a ∈ w.sys.ports) && decide ((w.port a).mux.state = .rxTx) && (w.port a).lacpEnabled
      && decide ((w.port a).aggId = 1)

theorem aggregationRun_bothForward :
    (runCalls (fun _ _ => true) 25 (initWorld 77) aggregationRun).any bothForward = true := by
  decide +kernel

theorem exists_reachable_bothForward :
    ∃ w, Reachable w ∧ ∀ a ∈ [0, 1], a ∈ w.sys.ports ∧ (w.port a).mux.state = .rxTx ∧
      (w.port a).lacpEnabled = true ∧ (w.port a).aggId = 1 := by
  obtain ⟨w, hreach, _, hboth⟩ := exists_reachableBy_of_runCalls (R := fun _ _ => True)
    (by decide) (fun _ _ _ => trivial) aggregationRun_bothForward
  refine ⟨w, hreach, fun a ha => ?_⟩
  have htest := List.all_eq_true.mp hboth a ha
  simp only [Bool.and_eq_true, decide_eq_true_iff] at htest
  exact ⟨htest.1.1.1, htest.1.1.2, htest.1.2, htest.2⟩

theorem aggregationRun_forwardsLive : ∃ w, Reachable w ∧ ForwardsLive (w.port 0) := by
  obtain ⟨w, h, hboth⟩ := exists_reachable_bothForward
  obtain ⟨ha, hmux, _, _⟩ := hboth 0 (by decide)
  exact ⟨w, h, reachable_forwardsLive w h 0 ha hmux⟩

theorem aggregationRun_muxAgrees :
    ∃ w, Reachable w ∧ MuxAgrees (w.port 0) (w.gPortList (w.port 0).portIndex) := by
  obtain ⟨w, h, hboth⟩ := exists_reachable_bothForward
  obtain ⟨ha, _, hlac, _⟩ := hboth 0 (by decide)
  exact ⟨w, h, reachable_muxAgrees w h 0 ha hlac⟩

theorem aggregationRun_rxCoherent : ∃ w, Reachable w ∧ RxCoherent w.sys (w.port 0) := by
  obtain ⟨w, h, hboth⟩ := exists_reachable_bothForward
  exact ⟨w, h, reachable_rxCoherent w h 0 (hboth 0 (by decide)).1⟩

end Lacp
