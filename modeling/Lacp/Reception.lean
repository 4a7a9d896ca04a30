import Lacp.Keys
import Lacp.PortStates
import Lacp.Totality

/-!
# Reception

Reference: `lacp_rx_lacpdu`, `lacp_rxm_rx_lacpdu` and `lacp_rx.c`.

`lacp_rxm_rx_lacpdu` only records the frame; it is the engine that takes it over. From the moment of the
reception the port is either still waiting, with the record it had on entry (`Pending`), or its receive
machine has been in `RXM_CURRENT` and no other machine touches what that left behind
(`FullyProcessed`). No port waits at rest, and no receive machine moves but the one of the port that
received.
-/

namespace Lacp

open Fuel (Returns)
open Relation (ReflTransGen)

/-- What the guards of the receive machine read of a port. -/
structure RxInputs where
  state : RxState
  portEnabled : Bool
  portMoved : Bool
  lacpEnabled : Bool
  currentWhile : UInt16
  rcvdLacpdu : Bool

def LacpPort.rxInputs (p : LacpPort) : RxInputs where
  state := p.rx.state
  portEnabled := p.portEnabled
  portMoved := p.portMoved
  lacpEnabled := p.lacpEnabled
  currentWhile := p.currentWhile
  rcvdLacpdu := p.rcvdLacpdu

/-- The actor of `q` is the one of `p` but for the key and the bits of the mux machine. -/
def SameActor (p q : LacpPortInfo) : Prop :=
  q = { p with
    key := q.key
    state := { p.state with SYN := q.state.SYN, COL := q.state.COL, DIS := q.state.DIS } }

/-- `q` is `p` as far as the receive machine reads or writes it. The key may have been refreshed. -/
structure RxUntouched (key : UInt16) (p q : LacpPort) : Prop where
  inputs : q.rxInputs = p.rxInputs
  partner : q.partner = p.partner
  msgActor : q.msgActor = p.msgActor
  msgPartner : q.msgPartner = p.msgPartner
  actor : SameActor p.actor q.actor
  key : q.actor.key = p.actor.key ∨ q.actor.key = key

section Hop

variable {w w' : World} {a b : Addr} {p q : LacpPort}

theorem lacpRxCheckConditions_congr (h : (w'.port a).rxInputs = (w.port a).rxInputs) :
    lacpRxCheckConditions w' a = lacpRxCheckConditions w a := by
  simp only [LacpPort.rxInputs, RxInputs.mk.injEq] at h
  obtain ⟨hstate, hen, hpm, hlac, hcw, hrv⟩ := h
  simp only [lacpRxCheckConditions, hstate, hen, hpm, hlac, hcw, hrv]

/-- The other machines keep their hands off the records of the receive machine. -/
theorem PortHop.rx_or_untouched (h : PortHop w b q) :
    (∃ s, b ∈ w.sys.ports ∧ lacpRxCheckConditions w b = some s ∧
      q = rxEntered w.sys { w.port b with rx := ⟨false, s⟩ }) ∨
    RxUntouched (UInt16.ofNat (trunkSspGetPortOperKey w (w.port b).portIndex)) (w.port b) q := by
  cases h with
  | rx hb guard => exact .inl ⟨_, hb, guard, rfl⟩
  | select => exact .inr ⟨rfl, rfl, rfl, rfl, rfl, .inr rfl⟩
  | same | deselect | selDisabled | selAlone => exact .inr ⟨rfl, rfl, rfl, rfl, rfl, .inl rfl⟩
  | @mux s => cases s <;> exact .inr ⟨rfl, rfl, rfl, rfl, rfl, .inl rfl⟩
  | @tx s => cases s <;> exact .inr ⟨rfl, rfl, rfl, rfl, rfl, .inl rfl⟩

/-- A port whose receive machine is at rest keeps its partner, whatever the others do. -/
theorem hops_partner_eq (hrest : lacpRxCheckConditions w b = none)
    (h : ReflTransGen OrderedHop w w') :
    (w'.port b).rxInputs = (w.port b).rxInputs ∧ (w'.port b).partner = (w.port b).partner := by
  induction h with
  | refl => exact ⟨rfl, rfl⟩
  | @tail u v _ hop ih =>
    rcases (hop.engineHop.portHop b).rx_or_untouched with ⟨s, _, guard, _⟩ | huntouched
    · rw [lacpRxCheckConditions_congr ih.1, hrest] at guard
      cases guard
    · exact ⟨huntouched.inputs.trans ih.1, huntouched.partner.trans ih.2⟩

end Hop

/-! ## The port that received -/

/-- The test of `update_partner_syn` on the records of the frame and the actor the port had on entry: the
frame speaks of the port as it is, or is from an individual link, and one of the two is active. -/
def SpeaksOf (pdu : LacpPdu) (actor : LacpPortInfo) : Prop :=
  (samePartner (lacpCopyInfoFromNet pdu.partner) actor = true ∨ pdu.actor.state.AGG = false) ∧
    (pdu.actor.state.ACT = true ∨ actor.state.ACT = true ∧ pdu.partner.state.ACT = true)

/-- What the reception of a frame leaves in the port that had the record `entry`. -/
structure FullyProcessed (sys : LacpSys) (entry : LacpPort) (pdu : LacpPdu) (q : LacpPort) : Prop where
  rx : q.rx.state = .current
  rcvdLacpdu : q.rcvdLacpdu = false
  actorDEF : q.actor.state.DEF = false
  actorEXP : q.actor.state.EXP = false
  currentWhile :
    q.currentWhile = if q.actor.state.TMT then sys.shortTimeoutTime else sys.longTimeoutTime
  partner : q.partner =
    { lacpCopyInfoFromNet pdu.actor with
      state := { pdu.actor.state with SYN := q.partner.state.SYN } }
  partnerSYN : q.partner.state.SYN = true ↔ pdu.actor.state.SYN = true ∧ SpeaksOf pdu entry.actor

/-- The frame is recorded and the receive machine has still to take it over. -/
structure Pending (entry : LacpPort) (pdu : LacpPdu) (q : LacpPort) : Prop where
  inputs : q.rxInputs = { entry.rxInputs with rcvdLacpdu := true }
  msgActor : q.msgActor = lacpCopyInfoFromNet pdu.actor
  msgPartner : q.msgPartner = lacpCopyInfoFromNet pdu.partner
  actor : SameActor entry.actor q.actor
  key : q.actor.key = entry.actor.key

section Receive

variable {w w' : World} {a b : Addr} {sys : LacpSys} {entry p q : LacpPort} {pdu : LacpPdu}
  {key : UInt16}

theorem SameActor.trans {i j k : LacpPortInfo} (h : SameActor i j) (h' : SameActor j k) :
    SameActor i k := by
  rw [SameActor] at h h' ⊢
  rw [h] at h'
  exact h'

/-- Every received frame takes the receive machine to `RXM_CURRENT`. -/
theorem Pending.eq_current (h : Pending entry pdu (w.port a)) (hen : entry.portEnabled = true)
    (hstate : entry.rx.state = .current ∨ entry.rx.state = .expired ∧ entry.currentWhile ≠ 0 ∨
      entry.rx.state = .defaulted) {s : RxState} (guard : lacpRxCheckConditions w a = some s) :
    s = .current := by
  have hinputs := h.inputs
  simp only [LacpPort.rxInputs, RxInputs.mk.injEq] at hinputs
  obtain ⟨hrx, hen', hpm, hlac, hcw, hrv⟩ := hinputs
  rw [← hrx, ← hcw] at hstate
  rw [← hen'] at hen
  cases rxGuard_of_check guard with
  | linkDown hdown => exact absurd (hen.symm.trans hdown) (by simp)
  | timeout hs _ hzero => simp [hs, hzero] at hstate
  | expire _ _ _ hnone => exact absurd (hrv.symm.trans hnone) (by simp)
  | resume | refresh | recover => rfl
  | start hs | initialized hs | moved hs | linkUp hs | linkUpOff hs | lacpOn hs => simp [hs] at hstate

/-- `RXM_CURRENT` takes the frame over. -/
theorem Pending.enterCurrent (h : Pending entry pdu p) :
    FullyProcessed sys entry pdu (rxEntered sys { p with rx := ⟨false, .current⟩ }) := by
  have hsame : samePartner p.msgPartner p.actor
      = samePartner (lacpCopyInfoFromNet pdu.partner) entry.actor := by
    rw [h.msgPartner, h.actor, h.key]
    rfl
  have hact : p.actor.state.ACT = entry.actor.state.ACT := by
    rw [h.actor]
  have hmatched : partnerMatched { p with rx := ⟨false, .current⟩ } = true ↔
      SpeaksOf pdu entry.actor := by
    show ((samePartner p.msgPartner p.actor || !p.msgActor.state.AGG)
      && (p.msgActor.state.ACT || p.actor.state.ACT && p.msgPartner.state.ACT)) = true ↔ _
    rw [hsame, hact, h.msgActor, h.msgPartner]
    simp only [Bool.and_eq_true, Bool.or_eq_true, Bool.not_eq_true']
    rfl
  refine ⟨rfl, rfl, rfl, rfl, rfl, ?_, ?_⟩
  · simp only [rxEntered, h.msgActor]
    rfl
  · have hsyn : (rxEntered sys { p with rx := ⟨false, .current⟩ }).partner.state.SYN
        = (partnerMatched { p with rx := ⟨false, .current⟩ } && p.msgActor.state.SYN) := rfl
    rw [hsyn, Bool.and_eq_true, hmatched, h.msgActor]
    exact and_comm

theorem Pending.untouched (h : Pending entry pdu p) (hq : RxUntouched key p q)
    (hkey : key = entry.actor.key) : Pending entry pdu q where
  inputs := hq.inputs.trans h.inputs
  msgActor := hq.msgActor.trans h.msgActor
  msgPartner := hq.msgPartner.trans h.msgPartner
  actor := h.actor.trans hq.actor
  key := hq.key.elim (fun heq => heq.trans h.key) fun heq => heq.trans hkey

theorem FullyProcessed.untouched (h : FullyProcessed sys entry pdu p) (hq : RxUntouched key p q) :
    FullyProcessed sys entry pdu q := by
  have hinputs := hq.inputs
  simp only [LacpPort.rxInputs, RxInputs.mk.injEq] at hinputs
  obtain ⟨hrx, -, -, -, hcw, hrv⟩ := hinputs
  have hactor := hq.actor
  rw [SameActor] at hactor
  constructor
  · exact hrx.trans h.rx
  · exact hrv.trans h.rcvdLacpdu
  · rw [hactor]
    exact h.actorDEF
  · rw [hactor]
    exact h.actorEXP
  · rw [hcw, hactor]
    exact h.currentWhile
  · rw [hq.partner]
    exact h.partner
  · rw [hq.partner]
    exact h.partnerSYN

/-- A port that took a frame over is at rest. -/
theorem FullyProcessed.at_rest (h : FullyProcessed sys entry pdu (w.port a))
    (hen : (w.port a).portEnabled = true) (hshort : sys.shortTimeoutTime ≠ 0)
    (hlong : sys.longTimeoutTime ≠ 0) : lacpRxCheckConditions w a = none := by
  have hcw : (w.port a).currentWhile ≠ 0 := by
    rw [h.currentWhile]
    split
    · exact hshort
    · exact hlong
  simp [lacpRxCheckConditions, hen, h.rx, h.rcvdLacpdu, hcw]

/-- The port waits for its receive machine, or the machine is done with the frame. -/
theorem hops_received (hen : entry.portEnabled = true)
    (hstate : entry.rx.state = .current ∨ entry.rx.state = .expired ∧ entry.currentWhile ≠ 0 ∨
      entry.rx.state = .defaulted)
    (hkey : entry.actor.key = UInt16.ofNat (trunkSspGetPortOperKey w (w.port a).portIndex))
    (hshort : w.sys.shortTimeoutTime ≠ 0) (hlong : w.sys.longTimeoutTime ≠ 0)
    (hstart : Pending entry pdu (w.port a)) (h : ReflTransGen OrderedHop w w') :
    Pending entry pdu (w'.port a) ∨ FullyProcessed w.sys entry pdu (w'.port a) := by
  have hup : (w.port a).portEnabled = true :=
    (congrArg RxInputs.portEnabled hstart.inputs).trans hen
  induction h with
  | refl => exact .inl hstart
  | @tail u v hhops hop ih =>
    have hsys := hops_sys_eq hhops
    have hsettings := hops_settings_eq hhops a
    have hup' : (u.port a).portEnabled = true :=
      (congrArg PortSettings.portEnabled hsettings).trans hup
    have hindex : (u.port a).portIndex = (w.port a).portIndex :=
      congrArg PortSettings.portIndex hsettings
    have hoper : UInt16.ofNat (trunkSspGetPortOperKey u (u.port a).portIndex) = entry.actor.key := by
      rw [hkey, hindex, hops_operKey hhops]
    rcases (hop.engineHop.portHop a).rx_or_untouched with ⟨s, _, guard, hq⟩ | huntouched
    · rcases ih with hpending | hdone
      · obtain rfl := hpending.eq_current hen hstate guard
        rw [hq, hsys]
        exact .inr hpending.enterCurrent
      · rw [hdone.at_rest hup' hshort hlong] at guard
        cases guard
    · exact ih.imp (fun hpending => hpending.untouched huntouched hoper)
        fun hdone => hdone.untouched huntouched

/-- `lacp_rx_lacpdu` on a port whose link is up: the frame is recorded and the engine runs. -/
theorem lacpRxLacpdu_eq (h : Coherent ∅ w) (ha : a ∈ w.sys.ports)
    (hen : (w.port a).portEnabled = true) (fuel : ℕ) :
    lacpRxLacpdu fuel w (w.port a).portIndex pdu =
      (lacpSysUpdate fuel (lacpRxmRxLacpdu (lacpCriticalPathStart w) a pdu)).map
        fun w => (lacpCriticalPathEnd w, .ok) := by
  have hfind : lacpPortFind (lacpCriticalPathStart w) (w.port a).portIndex = some a :=
    h.lacpPortFind_eq ha
  have hen' : ((lacpCriticalPathStart w).port a).portEnabled = true := hen
  have hadmin : (lacpCriticalPathStart w).sys.adminState = true := h.adminState
  simp only [lacpRxLacpdu, hfind, hen', hadmin, Bool.not_true, Bool.false_eq_true, if_false]

/-- What the engine makes of a recorded frame. -/
theorem Coherent.receive (h : Coherent ∅ w) (hq : Quiescent w) (ha : a ∈ w.sys.ports)
    (hen : (w.port a).portEnabled = true)
    (hkey : (w.port a).actor.key = UInt16.ofNat (trunkSspGetPortOperKey w (w.port a).portIndex))
    {u : World} (hw : Update w u w.sys ∅ (received a (movedPort w a pdu) pdu))
    (hu : Coherent ∅ u) (hhops : ReflTransGen OrderedHop u w') (hq' : Quiescent w') :
    FullyProcessed w.sys (w.port a) pdu (w'.port a) ∧
      ∀ b ∈ w.sys.ports, b ≠ a → (w.port b).portEnabled = true →
        (w'.port b).partner = (w.port b).partner := by
  have hrest := h.portQuiet hq ha
  constructor
  · have hlac := (h.port a ha).enabled (Set.notMem_empty _)
    have hself : u.port a = receivePort pdu (w.port a) := by
      rw [hw.port a ha, received, if_pos rfl]
    have hstate : (w.port a).rx.state = .current ∨
        (w.port a).rx.state = .expired ∧ (w.port a).currentWhile ≠ 0 ∨
          (w.port a).rx.state = .defaulted := by
      rcases hrest.linkUp hen hlac with hrx | hrx | hrx
      · exact .inl hrx
      · exact .inr (.inl ⟨hrx, hrest.running (.inl hrx)⟩)
      · exact .inr (.inr hrx)
    have hstart : Pending (w.port a) pdu (u.port a) := by
      rw [hself]
      exact ⟨rfl, rfl, rfl, rfl, rfl⟩
    have hkey' : (w.port a).actor.key
        = UInt16.ofNat (trunkSspGetPortOperKey u (u.port a).portIndex) := by
      rw [hkey, hself]
      exact congrArg UInt16.ofNat (hw.operKey (Set.notMem_empty _)).symm
    have hsys := hw.sys
    rw [SysKept] at hsys
    have hshort : u.sys.shortTimeoutTime ≠ 0 := by
      rw [hu.shortTimeoutTime]
      decide
    have hlong : u.sys.longTimeoutTime ≠ 0 := by
      rw [hu.longTimeoutTime]
      decide
    rcases hops_received hen hstate hkey' hshort hlong hstart hhops with hpending | hdone
    · -- a waiting frame is a reason to move
      have hrcvd : (w'.port a).rcvdLacpdu = true := congrArg RxInputs.rcvdLacpdu hpending.inputs
      have hw' := hu.hops hhops
      have ha' : a ∈ w'.sys.ports := by
        rw [hops_sys_eq hhops, hw.ports]
        exact ha
      rw [(hw'.portQuiet hq' ha').rcvd] at hrcvd
      cases hrcvd
    · rw [hsys] at hdone
      exact { hdone with }
  · intro b hb hba hup
    have hother : u.port b = w.port b := by
      rw [hw.port b hb, received, if_neg hba]
      -- a port that is marked as moved has its link down
      refine if_neg fun hmoved => ?_
      have hdown := (h.portQuiet hq hb).linkDown.mpr (of_movedPort_eq_some hmoved).2.2.1
      exact absurd (hup.symm.trans hdown) (by simp)
    have hnone : lacpRxCheckConditions u b = none := by
      rw [lacpRxCheckConditions_congr (w := w) (by rw [hother])]
      exact (hq b hb).1
    rw [(hops_partner_eq hnone hhops).2, hother]

end Receive

/-! ## Every reachable state -/

/-- A frame received on a port whose link is up is fully processed, and no other port whose link is up
gets another partner. With non-zero periods the call returns. -/
theorem reachable_lacpRxLacpdu (w : World) (h : Reachable w) (a : Addr) (ha : a ∈ w.sys.ports)
    (hen : (w.port a).portEnabled = true) (hlac : (w.port a).lacpEnabled = true) (pdu : LacpPdu) :
    (Periodic w → Returns fun fuel => lacpRxLacpdu fuel w (w.port a).portIndex pdu) ∧
    ∀ fuel w' ret, lacpRxLacpdu fuel w (w.port a).portIndex pdu = some (w', ret) →
      ret = .ok ∧ FullyProcessed w.sys (w.port a) pdu (w'.port a) ∧
        ∀ b ∈ w.sys.ports, b ≠ a → (w.port b).portEnabled = true →
          (w'.port b).partner = (w.port b).partner := by
  obtain ⟨hcoherent, hq⟩ := h.coherent
  set i := (w.port a).portIndex with hi
  have hindex : globalIndex (i / 8) (i % 8 + 1) = i := by
    simp only [globalIndex]
    omega
  constructor
  · intro hp
    have hserves := serves_lacpRxLacpdu (R := fun _ _ => True)
      (c := .rxLacpdu (i / 8) (i % 8 + 1) pdu) hcoherent hq rfl trivial
    rw [hindex] at hserves
    exact hserves.returns hcoherent hp trivial
  · intro fuel w' ret hrun
    rw [lacpRxLacpdu_eq hcoherent ha hen] at hrun
    obtain ⟨v, hupdate, hend⟩ := Option.map_eq_some_iff.mp hrun
    obtain ⟨rfl, rfl⟩ := Prod.mk.inj hend
    have hw : Update w (lacpRxmRxLacpdu (lacpCriticalPathStart w) a pdu) w.sys ∅
        (received a (movedPort w a pdu) pdu) :=
      (update_lockDepth w ∅ _).trans
        (update_lacpRxmRxLacpdu (w := lacpCriticalPathStart w) hlac pdu) subset_rfl
    have hreceive : Effect (fun _ _ => True) (.rxLacpdu (i / 8) (i % 8 + 1) pdu) (∅, w)
        (∅, lacpRxmRxLacpdu (lacpCriticalPathStart w) a pdu) :=
      .receive rfl (hi.symm.trans hindex.symm) ha hlac hen hq trivial
        (fun _ => of_movedPort_eq_some) hw rfl
    have hu := hcoherent.effect hreceive
    obtain ⟨hhops, hq', _⟩ := lacpSysUpdate_spec hu.idle hupdate
    have hdone := hcoherent.receive hq ha hen (h.actor_key ha hlac) hw hu hhops hq'
    exact ⟨rfl, hdone⟩

/-- A frame of another partner, received on a port of `aggregationRun` that forwards. -/
theorem aggregationRun_lacpRxLacpdu : ∃ w, Reachable w ∧ (w.port 0).mux.state = .rxTx ∧
    ∃ fuel w' ret, lacpRxLacpdu fuel w (w.port 0).portIndex (peerFrame 9 1) = some (w', ret) ∧
      FullyProcessed w.sys (w.port 0) (peerFrame 9 1) (w'.port 0) ∧
        (w'.port 1).partner = (w.port 1).partner := by
  have hrun : (runCalls (fun _ _ => true) 25 (initWorld 77) aggregationRun).any (fun w =>
      decide (0 ∈ w.sys.ports) && decide (1 ∈ w.sys.ports) && decide ((w.port 0).mux.state = .rxTx)
        && (w.port 0).portEnabled && (w.port 1).portEnabled && (w.port 0).lacpEnabled
        && w.sys.fastPeriodicTime != 0 && w.sys.slowPeriodicTime != 0) = true := by
    decide +kernel
  obtain ⟨w, h, _, hw⟩ := exists_reachableBy_of_runCalls (R := fun _ _ => True) (by decide)
    (fun _ _ _ => trivial) hrun
  simp only [Bool.and_eq_true, decide_eq_true_iff, bne_iff_ne] at hw
  obtain ⟨⟨⟨⟨⟨⟨⟨ha, hb⟩, hmux⟩, hen⟩, hen'⟩, hlac⟩, hfast⟩, hslow⟩ := hw
  obtain ⟨hreturns, hpost⟩ := reachable_lacpRxLacpdu w h 0 ha hen hlac (peerFrame 9 1)
  obtain ⟨⟨w', ret⟩, hresult⟩ := hreturns ⟨hfast, hslow⟩
  obtain ⟨fuel, hrun⟩ := hresult.exists_eq_some
  obtain ⟨-, hdone, hothers⟩ := hpost fuel w' ret hrun
  exact ⟨w, h, hmux, fuel, w', ret, hrun, hdone, hothers 1 hb (by decide) hen'⟩

end Lacp
