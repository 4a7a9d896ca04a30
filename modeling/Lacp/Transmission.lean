import Lacp.History
import Lacp.PortWrites

/-!
# The transmit machine in a run

What a port has sent is read off the events of its index (`sentBy`, `lastSent`). A port is in active mode
from the first entry of its receive machine on (`ActiveMode`), so the transmit machine of a port that runs
LACP over a working link is not held back, and at rest its timer runs (`txRunning_of_quiescent`).
-/

namespace Lacp

/-! ## The frames a port has sent -/

/-- The record of the sender, if the event is a transmission by a port with index `i`. -/
def Event.sender (i : ℕ) : Event → Option LacpPort
  | .tx port _ => if port.portIndex = i then some port else none
  | _ => none

/-- The transmissions of the ports with index `i`, the last one first. -/
def sentBy (i : ℕ) (trace : List Event) : List LacpPort := trace.filterMap (Event.sender i)

/-- The last frame that a port with index `i` sent, if its transmit machine did not stop since. The
newest event is the first one. -/
def lastSent (i : ℕ) : List Event → Option LacpPdu
  | [] => none
  | .tx port pdu :: trace => if port.portIndex = i then some pdu else lastSent i trace
  | .enter .tx port :: trace =>
    if port.portIndex = i ∧ port.tx.state = .noPeriodic then none else lastSent i trace
  | .enter .rx _ :: trace | .enter .sel _ :: trace | .enter .mux _ :: trace | .hw _ _ :: trace =>
    lastSent i trace

section Hop

variable {w w' : World} {a b : Addr} {i : ℕ}

theorem sentBy_cons_enter (m : Machine) (p : LacpPort) (trace : List Event) :
    sentBy i (.enter m p :: trace) = sentBy i trace := rfl

theorem sentBy_muxWrites (p : LacpPort) (attr : PortAttr) (trace : List Event) :
    sentBy i (muxWrites p attr ++ trace) = sentBy i trace := by
  have hnone : (muxWrites p attr).filterMap (Event.sender i) = [] := by
    refine List.filterMap_eq_nil_iff.mpr fun e he => ?_
    obtain ⟨_, rfl⟩ := eq_hw_of_mem_muxWrites he
    rfl
  rw [sentBy, List.filterMap_append, hnone]
  rfl

/-- What a transmit hop sends. -/
theorem sentBy_txHop (w : World) (a : Addr) (s : TxState) :
    sentBy i (txHop w a s).trace =
      if s = .tx ∧ (w.port a).lacpEnabled = true ∧ (w.port a).portIndex = i then
        { w.port a with tx := ⟨true, s⟩, txLacpduCnt := (w.port a).txLacpduCnt + 1 } ::
          sentBy i w.trace
      else sentBy i w.trace := by
  simp only [txHop, txSent]
  by_cases hsend : s = .tx ∧ (w.port a).lacpEnabled = true
  · rw [if_pos hsend]
    by_cases hi : (w.port a).portIndex = i
    · rw [if_pos ⟨hsend.1, hsend.2, hi⟩]
      exact List.filterMap_cons_some (if_pos hi)
    · rw [if_neg fun h => hi h.2.2]
      exact List.filterMap_cons_none (if_neg hi)
  · rw [if_neg hsend, List.nil_append, if_neg fun h => hsend ⟨h.1, h.2.1⟩]
    rfl

theorem lastSent_muxWrites (p : LacpPort) (attr : PortAttr) (trace : List Event) :
    lastSent i (muxWrites p attr ++ trace) = lastSent i trace := by
  cases hs : p.mux.state <;> simp only [muxWrites, hs] <;> rfl

/-- A transmit hop that sends leaves its frame, one that stops leaves none. -/
theorem lastSent_txHop (w : World) (a : Addr) (s : TxState) :
    lastSent i (txHop w a s).trace =
      if (w.port a).portIndex ≠ i then lastSent i w.trace
      else if s = .tx ∧ (w.port a).lacpEnabled = true then
        some (lacpduPacket w.pid { w.port a with tx := ⟨true, s⟩ })
      else if s = .noPeriodic then none
      else lastSent i w.trace := by
  simp only [txHop, txSent]
  by_cases hi : (w.port a).portIndex = i
  · rw [if_neg (not_not_intro hi)]
    by_cases hsend : s = .tx ∧ (w.port a).lacpEnabled = true
    · rw [if_pos hsend, if_pos hsend]
      exact if_pos hi
    · rw [if_neg hsend, if_neg hsend]
      by_cases hs : s = .noPeriodic
      · rw [if_pos hs]
        exact if_pos ⟨hi, hs⟩
      · rw [if_neg hs]
        exact if_neg fun h => hs h.2
  · rw [if_pos hi]
    split
    · exact (if_neg hi).trans (if_neg fun h => hi h.1)
    · exact if_neg fun h => hi h.1

/-- A hop of another machine sends nothing and leaves the transmit machine and its counters alone. -/
theorem OrderedHop.txHop_or_silent (hop : OrderedHop w w') :
    (∃ a s, a ∈ w.sys.ports ∧ lacpRxCheckConditions w a = none ∧ lacpSelCheckConditions w a = none ∧
      lacpTxCheckConditions w a = some s ∧ w' = txHop w a s) ∨
      (∀ i, sentBy i w'.trace = sentBy i w.trace ∧ lastSent i w'.trace = lastSent i w.trace) ∧
      ∀ b, (w'.port b).tx = (w.port b).tx ∧ (w'.port b).holdCount = (w.port b).holdCount ∧
        (w'.port b).periodicTimer = (w.port b).periodicTimer := by
  cases hop with
  | @tx a s ha hrx hsel guard => exact .inl ⟨a, s, ha, hrx, hsel, guard, rfl⟩
  | @rx a s => exact .inr ⟨fun _ => ⟨rfl, rfl⟩, fun b => (rxHop_frame w s b).2⟩
  | @sel a =>
    refine .inr ⟨fun _ => ⟨rfl, rfl⟩, fun b => ?_⟩
    obtain ⟨_, _, htx, _, hhold, htimer⟩ := selHop_frame w a b
    exact ⟨htx, hhold, htimer⟩
  | @mux a s =>
    refine .inr ⟨fun i => ⟨?_, ?_⟩, fun b => ?_⟩
    · exact (sentBy_muxWrites _ _ _).trans (sentBy_cons_enter _ _ _)
    · exact lastSent_muxWrites _ _ _
    · obtain ⟨_, htx, _, hhold, htimer⟩ := muxHop_frame w s b
      exact ⟨htx, hhold, htimer⟩

end Hop

/-! ## Active mode -/

/-- The port is active by configuration, and says so once its receive machine has started. -/
structure ActiveMode (p : LacpPort) : Prop where
  admin : p.actorAdmin.state.ACT = true
  actor : p.rx.state ≠ .begin → p.actor.state.ACT = true

section Effect

variable {R : World → Call → Prop} {c : Call} {E E' : Set ℕ} {w w' : World} {b : Addr} {q : LacpPort}

theorem ActiveMode.hop (h : ActiveMode (w.port b)) (hop : PortHop w b q) : ActiveMode q := by
  cases hop with
  | same => exact h
  | @rx s hb guard =>
    have hguard := rxGuard_of_check guard
    refine ⟨by cases s <;> exact h.admin, fun _ => ?_⟩
    cases hguard with
    | start | moved => exact h.admin
    | linkDown _ _ hbegin => exact h.actor hbegin
    | initialized hs | linkUp hs | linkUpOff hs | lacpOn hs | timeout hs | resume hs | expire hs
    | refresh hs | recover hs => exact h.actor (by simp [hs])
  | deselect | selDisabled | selAlone | select => exact ⟨h.admin, h.actor⟩
  | @mux s => cases s <;> exact ⟨h.admin, h.actor⟩
  | @tx s => cases s <;> exact ⟨h.admin, h.actor⟩

theorem ActiveMode.write (h : ActiveMode (w.port b)) (hwrite : PortWrite R c E w b q) :
    ActiveMode q := by
  cases hwrite with
  | link =>
    simp only [linkChangedPort]
    split <;> exact ⟨h.admin, h.actor⟩
  | same | deselect | prio | stat | receive | moved | tick | notify | leave =>
    exact ⟨h.admin, h.actor⟩

/-- No effect makes a port passive. -/
theorem ActiveMode.effect (hc : Coherent E w) (h : ∀ a ∈ w.sys.ports, ActiveMode (w.port a))
    (heffect : Effect R c (E, w) (E', w')) : ∀ a ∈ w'.sys.ports, ActiveMode (w'.port a) := by
  intro b hb
  cases heffect.cases hc with
  | hop hop => exact (h b (hop.engineHop.sys_eq ▸ hb)).hop (hop.engineHop.portHop b)
  | setSys _ _ _ _ hw =>
    have hb' : b ∈ w.sys.ports := hw.ports ▸ hb
    rw [hw.port b hb']
    exact ⟨(h b hb').admin, (h b hb').actor⟩
  | write _ _ _ hports =>
    cases hports b hb with
    | write hb' hwrite => exact (h b hb').write hwrite
    | join hb' _ _ _ _ _ _ _ hport | reselect hb' _ _ _ _ _ _ hport =>
      rw [hport]
      exact ⟨(h b hb').admin, (h b hb').actor⟩
    | create _ _ _ _ _ _ hport =>
      rw [hport]
      exact ⟨rfl, fun hrx => absurd rfl hrx⟩

/-! ## Ports that leave -/

/-- A port that does not run LACP although its link is up is about to be removed. -/
def LeavingOnly (c : Call) (w : World) : Prop :=
  ∀ a ∈ w.sys.ports, (w.port a).lacpEnabled = false → (w.port a).portEnabled = true →
    c.isRemoval = true

/-- Between two calls every port runs LACP. -/
theorem Coherent.leavingOnly (h : Coherent ∅ w) : LeavingOnly c w := fun a ha hlac =>
  absurd (((h.port a ha).enabled (Set.notMem_empty _)).symm.trans hlac) (by simp)

/-- Where no port is to be removed, a port whose link is up runs LACP. -/
theorem LeavingOnly.lacpEnabled (h : LeavingOnly c w) (hc : c.isRemoval = false) {a : Addr}
    (ha : a ∈ w.sys.ports) (hen : (w.port a).portEnabled = true) : (w.port a).lacpEnabled = true := by
  by_contra hoff
  exact absurd (hc.symm.trans (h a ha (by simpa using hoff) hen)) (by simp)

theorem LeavingOnly.effect (hc : Coherent E w) (h : LeavingOnly c w)
    (heffect : Effect R c (E, w) (E', w')) : LeavingOnly c w' := by
  intro b hb
  cases heffect.cases hc with
  | hop hop =>
    have hlac := hop.engineHop.lacpEnabled_eq b
    have hen := hop.engineHop.portEnabled_eq b
    rw [hlac, hen]
    exact h b (hop.engineHop.sys_eq ▸ hb)
  | setSys _ _ _ _ hw =>
    have hb' : b ∈ w.sys.ports := hw.ports ▸ hb
    rw [hw.port b hb']
    exact h b hb'
  | write _ _ _ hports =>
    cases hports b hb with
    | write hb' hwrite =>
      have hp := h b hb'
      generalize w'.port b = q at hwrite ⊢
      cases hwrite with
      | same | deselect | prio | stat | receive | moved | tick | notify => exact hp
      | link _ hlac =>
        simp only [linkChangedPort]
        split <;> exact fun hoff => absurd (hlac.symm.trans hoff) (by simp)
      | leave hremoval => exact fun _ _ => hremoval
    | join _ _ _ _ _ _ _ _ hport =>
      rw [hport]
      exact fun hoff => by cases hoff
    | reselect hb' _ _ _ _ _ _ hport =>
      rw [hport]
      exact h b hb'
    | create _ _ _ _ _ _ hport =>
      rw [hport]
      exact fun _ hen => by cases hen

end Effect

variable {R : World → Call → Prop} {w : World} {a : Addr}

theorem ReachableBy.activeMode (h : ReachableBy R w) : ∀ a ∈ w.sys.ports, ActiveMode (w.port a) :=
  h.invariant_of_effects (P := fun _ w => ∀ a ∈ w.sys.ports, ActiveMode (w.port a))
    (fun _ _ ha => nomatch ha) fun hc hP heffect => ActiveMode.effect hc hP heffect

/-! ## At rest -/

/-- A transmit machine that cannot move. -/
theorem of_lacpTxCheckConditions_eq_none (h : lacpTxCheckConditions w a = none) :
    (w.port a).tx.state ≠ .begin ∧
      (txActive (w.port a) = false → (w.port a).tx.state = .noPeriodic) ∧
      (txActive (w.port a) = true → (w.port a).periodicTimer ≠ 0 ∧
        ((w.port a).ntt = true → w.sys.txHoldCount ≤ (w.port a).holdCount)) := by
  simp only [lacpTxCheckConditions] at h
  simp only [txActive]
  cases hs : (w.port a).tx.state <;> cases hlac : (w.port a).lacpEnabled <;>
    cases hen : (w.port a).portEnabled <;> cases hact : (w.port a).actor.state.ACT <;>
    cases hact' : (w.port a).partner.state.ACT <;> simp_all
  -- in `TXM_IDLE` only the timer and a held transmission are left
  all_goals
    by_cases htimer : (w.port a).periodicTimer = 0
    · simp [htimer] at h
    · simpa [htimer] using h

/-- The transmit machine of a port at rest is stopped where it may not run. -/
theorem tx_stopped_of_quiescent (hq : Quiescent w) (ha : a ∈ w.sys.ports)
    (hoff : (w.port a).lacpEnabled = false ∨ (w.port a).portEnabled = false) :
    (w.port a).tx.state = .noPeriodic := by
  refine (of_lacpTxCheckConditions_eq_none (hq a ha).2.2.2).2.1 ?_
  rcases hoff with hoff | hoff <;> simp [txActive, hoff]

/-- A port at rest that runs LACP over a working link transmits, and its timer runs. -/
theorem txRunning_of_quiescent {E : Set ℕ} (hc : Coherent E w) (hq : Quiescent w)
    (ha : a ∈ w.sys.ports) (hactive : ActiveMode (w.port a)) (hlac : (w.port a).lacpEnabled = true)
    (hen : (w.port a).portEnabled = true) :
    (w.port a).periodicTimer ≠ 0 ∧
      ((w.port a).ntt = true → w.sys.txHoldCount ≤ (w.port a).holdCount) := by
  have hact := hactive.actor (hc.portQuiet hq ha).started
  refine (of_lacpTxCheckConditions_eq_none (hq a ha).2.2.2).2.2 ?_
  simp [txActive, hlac, hen, hact]

end Lacp
