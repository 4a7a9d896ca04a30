import Lacp.Defaults
import Lacp.History

/-!
# Two bridges on one link

Two bridges run the engine, and a port of the one is linked to a port of the other. The link may lose,
delay, duplicate and reorder frames: what arrives at one end is any frame the other end has ever sent.

A port that forwards has heard, last of all, from its partner while the partner was attached and knew
the port as it was (`linkReachable_heardFromAttached`). The proof has two halves. The sender advertises
`SYN` only while its mux machine is attached, at every point of a call (`PortCoherent.syn`). The receiver
has in its record what the last processed LACPDU said (`Processed.current`), and forwards only on a
partner that is in sync and can be aggregated.
-/

namespace Lacp

/-! ## The link -/

/-- The frames the port with index `i` has sent, newest first. -/
def sentFrames (w : World) (i : ℕ) : List LacpPdu :=
  w.trace.filterMap fun
    | .tx port pdu => if port.portIndex = i then some pdu else none
    | _ => none

/-- At the port with index `i`, the call delivers only frames of `sent`. -/
def Call.Delivers (i : ℕ) (sent : List LacpPdu) : Call → Prop
  | .rxLacpdu slot port pdu => globalIndex slot port = i → pdu ∈ sent
  | _ => True

/-- The states, between two calls, of two bridges whose ports with the indices `i` and `j` are the ends
of one link. Any call may be made on either side. A frame that arrives at one end was sent by the
other. -/
inductive LinkReachable (i j : ℕ) : World → World → Prop
  | init (pid pid' : UInt32) : LinkReachable i j (initWorld pid) (initWorld pid')
  | left {w w' v : World} {c : Call} (h : LinkReachable i j w v)
      (hc : c.Delivers i (sentFrames v j)) (hstep : Step c w w') : LinkReachable i j w' v
  | right {w v v' : World} {c : Call} (h : LinkReachable i j w v)
      (hc : c.Delivers j (sentFrames w i)) (hstep : Step c v v') : LinkReachable i j w v'

/-- The record of the port with index `i` when it processed a LACPDU, if that is what the event is. -/
def Event.processedAt (i : ℕ) : Event → Option LacpPort
  | .enter .rx port => if port.portIndex = i ∧ port.rx.state = .current then some port else none
  | _ => none

/-- The record of the port with index `i` at the moment it processed its last LACPDU. -/
def lastProcessed (w : World) (i : ℕ) : Option LacpPort := w.trace.findSome? (Event.processedAt i)

/-- The last LACPDU processed at port `i` of `w` was sent by port `j` of `v` while that port was
attached; it said so, and it described port `i` as that port was when it processed the LACPDU. -/
def HeardFromAttached (w : World) (i : ℕ) (v : World) (j : ℕ) : Prop :=
  ∃ p pdu q, lastProcessed w i = some p ∧
    p.msgActor = lacpCopyInfoFromNet pdu.actor ∧ p.msgPartner = lacpCopyInfoFromNet pdu.partner ∧
    Event.tx q pdu ∈ v.trace ∧ q.portIndex = j ∧ q.Attached ∧
    pdu.actor.state.SYN = true ∧ pdu.actor.state.AGG = true ∧
    samePartner (lacpCopyInfoFromNet pdu.partner) p.actor = true

section Link

variable {i j : ℕ} {w v : World} {pdu : LacpPdu}

theorem mem_sentFrames : pdu ∈ sentFrames w i ↔ ∃ q, Event.tx q pdu ∈ w.trace ∧ q.portIndex = i := by
  simp only [sentFrames, List.mem_filterMap]
  constructor
  · rintro ⟨e, he, hsent⟩
    cases e with
    | tx q pdu' =>
      obtain ⟨hindex, hpdu⟩ := Option.ite_none_right_eq_some.mp hsent
      obtain rfl := Option.some.inj hpdu
      exact ⟨q, he, hindex⟩
    | enter | hw => cases hsent
  · rintro ⟨q, he, hindex⟩
    exact ⟨.tx q pdu, he, if_pos hindex⟩

/-- The two ends of a link are alike. -/
theorem LinkReachable.symm (h : LinkReachable i j w v) : LinkReachable j i v w := by
  induction h with
  | init pid pid' => exact .init pid' pid
  | left _ hc hstep ih => exact .right ih hc hstep
  | right _ hc hstep ih => exact .left ih hc hstep

/-- Each of the two bridges is in a reachable state. -/
theorem LinkReachable.reachable (h : LinkReachable i j w v) : Reachable w := by
  induction h with
  | init pid pid' => exact .init pid
  | left _ _ hstep ih => exact .step ih trivial hstep
  | right _ _ _ ih => exact ih

end Link

/-! ## What an effect logs -/

section Trace

variable {R : World → Call → Prop} {c : Call} {E E' : Set ℕ} {w w' : World} {i : ℕ}

theorem sentFrames_subset (h : w.trace <:+ w'.trace) : sentFrames w i ⊆ sentFrames w' i := by
  intro pdu hpdu
  obtain ⟨q, hq, hindex⟩ := mem_sentFrames.mp hpdu
  exact mem_sentFrames.mpr ⟨q, h.subset hq, hindex⟩

/-- Events that process no LACPDU at the port leave the last processed one. -/
theorem lastProcessed_append (new : List Event) (htrace : w'.trace = new ++ w.trace)
    (hnew : ∀ e ∈ new, e.processedAt i = none) : lastProcessed w' i = lastProcessed w i := by
  rw [lastProcessed, htrace, List.findSome?_append, List.findSome?_eq_none_iff.mpr hnew,
    Option.none_or]
  rfl

end Trace

/-! ## The sender -/

/-- Every frame with `SYN` set was sent by a port whose mux machine was attached. -/
def SentAttached (w : World) : Prop :=
  ∀ q pdu, Event.tx q pdu ∈ w.trace → pdu.actor.state.SYN = true → q.Attached

section Sender

variable {R : World → Call → Prop} {c : Call} {E E' : Set ℕ} {w w' : World}

/-- A port advertises `SYN` only while it is attached, also in the middle of a call. -/
theorem SentAttached.hop (hc : Coherent E w) (h : SentAttached w) (hop : EngineHop w w') :
    SentAttached w' := by
  intro q pdu hq hsyn
  cases hop with
  | rx | sel =>
    rcases List.mem_cons.mp hq with heq | hq
    · cases heq
    · exact h q pdu hq hsyn
  | mux =>
    rcases List.mem_append.mp hq with hq | hq
    · obtain ⟨_, heq⟩ := eq_hw_of_mem_muxWrites hq
      cases heq
    · rcases List.mem_cons.mp hq with heq | hq
      · cases heq
      · exact h q pdu hq hsyn
  | @tx a s ha guard =>
    rcases List.mem_append.mp hq with hq | hq
    · obtain ⟨rfl, rfl⟩ := Event.tx.inj (eq_tx_of_mem_txSent hq)
      exact (hc.port a ha).syn hsyn
    · rcases List.mem_cons.mp hq with heq | hq
      · cases heq
      · exact h q pdu hq hsyn

theorem SentAttached.effect (hc : Coherent E w) (h : SentAttached w)
    (heffect : Effect R c (E, w) (E', w')) : SentAttached w' := by
  rcases heffect.hop_or_trace_eq with hop | htrace
  · exact h.hop hc hop
  · rw [SentAttached, htrace]
    exact h

theorem ReachableBy.sentAttached (h : ReachableBy R w) : SentAttached w :=
  h.invariant_of_effects (P := fun _ => SentAttached) (fun _ _ _ hq => nomatch hq)
    fun hc hP heffect => hP.effect hc heffect

end Sender

/-! ## The receiver -/

/-- The LACPDU in the record of the port is one of `sent`. -/
def FromFrame (sent : List LacpPdu) (p : LacpPort) : Prop :=
  ∃ pdu ∈ sent, p.msgActor = lacpCopyInfoFromNet pdu.actor ∧
    p.msgPartner = lacpCopyInfoFromNet pdu.partner

/-- What a port records of its partner when it processes a LACPDU. -/
def recordedPartner (p : LacpPort) : LacpPortInfo :=
  { p.msgActor with
    state := { p.msgActor.state with SYN := partnerMatched p && p.msgActor.state.SYN } }

/-- What the port with index `i` has received and processed are frames of `sent`, and in `RXM_CURRENT`
the recorded partner is what the last processed LACPDU said. -/
structure Processed (i : ℕ) (sent : List LacpPdu) (w : World) : Prop where
  rcvd : ∀ b ∈ w.sys.ports, (w.port b).portIndex = i → (w.port b).rcvdLacpdu = true →
    FromFrame sent (w.port b)
  last : ∀ p, lastProcessed w i = some p → FromFrame sent p
  current : ∀ b ∈ w.sys.ports, (w.port b).portIndex = i → (w.port b).rx.state = .current →
    ∃ p, lastProcessed w i = some p ∧ (w.port b).partner = recordedPartner p

namespace Processed

variable {c : Call} {E E' : Set ℕ} {w w' : World} {i : ℕ} {sent sent' : List LacpPdu} {a b : Addr}

/-- The partner may send more. -/
theorem mono (hsub : sent ⊆ sent') (h : Processed i sent w) : Processed i sent' w where
  rcvd := fun b hb hindex hrcvd =>
    let ⟨pdu, hpdu, hmsg⟩ := h.rcvd b hb hindex hrcvd
    ⟨pdu, hsub hpdu, hmsg⟩
  last := fun p hp =>
    let ⟨pdu, hpdu, hmsg⟩ := h.last p hp
    ⟨pdu, hsub hpdu, hmsg⟩
  current := h.current

/-- Entering `RXM_CURRENT` records the frame that the port holds. -/
theorem rxHop {s : RxState} (hc : Coherent E w) (h : Processed i sent w) (ha : a ∈ w.sys.ports)
    (guard : lacpRxCheckConditions w a = some s) :
    (∀ p, lastProcessed (rxHop w a s) i = some p → FromFrame sent p) ∧
      ∀ b ∈ w.sys.ports, (w.port b).portIndex = i → ((rxHop w a s).port b).rx.state = .current →
        ∃ p, lastProcessed (rxHop w a s) i = some p ∧
          ((rxHop w a s).port b).partner = recordedPartner p := by
  have hself : (Lacp.rxHop w a s).port a = rxEntered w.sys { w.port a with rx := ⟨false, s⟩ } :=
    if_pos rfl
  by_cases hproc : (w.port a).portIndex = i ∧ s = .current
  · obtain ⟨hindex, rfl⟩ := hproc
    have hlast : lastProcessed (Lacp.rxHop w a .current) i
        = some { w.port a with rx := ⟨true, .current⟩ } := by
      simp [lastProcessed, Lacp.rxHop, Event.processedAt, hindex]
    rw [hlast]
    refine ⟨fun p hp => ?_, fun b hb hb' _ => ⟨_, rfl, ?_⟩⟩
    · obtain rfl := Option.some.inj hp
      exact h.rcvd a ha hindex (rxGuard_of_check guard).rcvd
    · obtain rfl := hc.index_inj hb ha (hb'.trans hindex.symm)
      rw [hself]
      rfl
  · have hlast : lastProcessed (Lacp.rxHop w a s) i = lastProcessed w i := by
      refine lastProcessed_append [.enter .rx { w.port a with rx := ⟨true, s⟩ }] rfl ?_
      intro e he
      rw [List.mem_singleton.mp he]
      exact if_neg hproc
    rw [hlast]
    refine ⟨h.last, fun b hb hindex hrx => ?_⟩
    by_cases hba : b = a
    · subst hba
      rw [hself] at hrx
      -- entering a state leaves the state as it is
      have hs : s = .current := by cases s <;> exact hrx
      exact absurd ⟨hindex, hs⟩ hproc
    · have hkept : ((Lacp.rxHop w a s).port b).rx = (w.port b).rx ∧
          ((Lacp.rxHop w a s).port b).partner = (w.port b).partner := by
        simp only [Lacp.rxHop, if_neg hba]
        split <;> exact ⟨rfl, rfl⟩
      rw [hkept.1] at hrx
      rw [hkept.2]
      exact h.current b hb hindex hrx

/-- Every hop keeps what was received and what was recorded. -/
theorem hop (hc : Coherent E w) (h : Processed i sent w) (hop : EngineHop w w') :
    Processed i sent w' := by
  have hports := hop.ports_eq
  have hindex := hop.portIndex_eq
  have hrcvd : ∀ b ∈ w'.sys.ports, (w'.port b).portIndex = i → (w'.port b).rcvdLacpdu = true →
      FromFrame sent (w'.port b) := by
    intro b hb hi hrcvd
    rw [hports] at hb
    rw [hindex] at hi
    obtain ⟨hold, hactor, hpartner⟩ := hop.keepsFrame b hrcvd
    rw [FromFrame, hactor, hpartner]
    exact h.rcvd b hb hi hold
  have hkept : lastProcessed w' i = lastProcessed w i →
      (∀ b, (w'.port b).rx = (w.port b).rx ∧ (w'.port b).partner = (w.port b).partner) →
      Processed i sent w' := by
    intro hlast hport
    refine ⟨hrcvd, fun p hp => h.last p (hlast ▸ hp), fun b hb hi hrx => ?_⟩
    rw [hports] at hb
    rw [hindex] at hi
    rw [(hport b).1] at hrx
    rw [hlast, (hport b).2]
    exact h.current b hb hi hrx
  -- only the receive machine processes frames and records partners
  cases hop with
  | @rx a s ha guard =>
    obtain ⟨hlast, hcurrent⟩ := h.rxHop hc ha guard
    refine ⟨hrcvd, hlast, fun b hb hi hrx => ?_⟩
    rw [hindex] at hi
    exact hcurrent b hb hi hrx
  | @sel a => exact hkept rfl fun b => ⟨(selHop_frame w a b).1, (selHop_frame w a b).2.2.2.1⟩
  | @mux a s =>
    refine hkept (lastProcessed_append _ (List.append_assoc _ [_] _).symm fun e he => ?_) fun b =>
      ⟨(muxHop_frame w s b).1, (muxHop_frame w s b).2.2.1⟩
    rcases List.mem_append.mp he with he | he
    · obtain ⟨_, rfl⟩ := eq_hw_of_mem_muxWrites he
      rfl
    · rw [List.mem_singleton.mp he]
      rfl
  | @tx a s =>
    refine hkept (lastProcessed_append _ (List.append_assoc _ [_] _).symm fun e he => ?_) fun b =>
      ⟨(txHop_frame w s b).1, (txHop_frame w s b).2.2⟩
    rcases List.mem_append.mp he with he | he
    · rw [eq_tx_of_mem_txSent he]
      rfl
    · rw [List.mem_singleton.mp he]
      rfl

/-- Every effect that delivers only frames of `sent` keeps what was received and what was recorded. -/
theorem effect (hc : Coherent E w) (h : Processed i sent w)
    (heffect : Effect (fun _ c => c.Delivers i sent) c (E, w) (E', w')) : Processed i sent w' := by
  rcases heffect.hop_or_written hc with hop | ⟨_, hports⟩
  · exact h.hop hc hop
  rcases heffect.hop_or_trace_eq with hop | htrace
  · exact h.hop hc hop
  have hlast : lastProcessed w' i = lastProcessed w i := by rw [lastProcessed, htrace, lastProcessed]
  refine ⟨fun b hb hi hrcvd => ?_, fun p hp => h.last p (hlast ▸ hp), fun b hb hi hrx => ?_⟩
  · rcases hports b hb with ⟨hb', hwritten⟩ | ⟨rfl, _, _, hnew⟩
    · rw [portIndex_of_core hwritten.core] at hi
      rcases heffect.received_cases hb' hrcvd with
        ⟨hold, hactor, hpartner⟩ | ⟨slot, port, pdu, rfl, hok, hindex, hactor, hpartner⟩
      · rw [FromFrame, hactor, hpartner]
        exact h.rcvd b hb' hi hold
      · exact ⟨pdu, hok (hindex.symm.trans hi), hactor, hpartner⟩
    · rw [hnew] at hrcvd
      cases hrcvd
  · rcases hports b hb with ⟨hb', hwritten⟩ | ⟨rfl, _, _, hnew⟩
    · have hcore := hwritten.core
      simp only [LacpPort.core, Prod.mk.injEq] at hcore
      rw [hcore.2.1] at hrx
      rw [hlast, hwritten.partner]
      exact h.current b hb' (hcore.1 ▸ hi) hrx
    · rw [hnew] at hrx
      cases hrx

end Processed

/-! ## Safety -/

section Safety

variable {i j : ℕ} {w w' v : World} {c : Call}

/-- A call that delivers only frames of the partner. -/
theorem Processed.step {sent : List LacpPdu} (hw : Reachable w) (h : Processed i sent w)
    (hc : c.Delivers i sent) (hstep : Step c w w') : Processed i sent w' := by
  obtain ⟨hcoherent, hq⟩ := hw.coherent
  have hcompletes := completes_of_step (R := fun _ c => c.Delivers i sent) hcoherent hq hc hstep
  have hboth := hcompletes.1.invariant (P := fun E w => Coherent E w ∧ Processed i sent w)
    (fun hP heffect => ⟨hP.1.effect heffect, hP.2.effect hP.1 heffect⟩) ⟨hcoherent, h⟩
  exact hboth.2

theorem sentFrames_subset_of_step (hw : Reachable w) (hstep : Step c w w') (i : ℕ) :
    sentFrames w i ⊆ sentFrames w' i := by
  obtain ⟨hcoherent, hq⟩ := hw.coherent
  have hcompletes := completes_of_step (R := fun _ _ => True) hcoherent hq trivial hstep
  exact sentFrames_subset hcompletes.1.trace_suffix

/-- On both ends, what was processed was sent by the other end. -/
theorem LinkReachable.processed (h : LinkReachable i j w v) :
    Processed i (sentFrames v j) w ∧ Processed j (sentFrames w i) v := by
  induction h with
  | init pid pid' =>
    have hinit : ∀ i sent pid, Processed i sent (initWorld pid) := fun _ _ _ =>
      ⟨(fun _ ha => nomatch ha), (fun _ hp => nomatch hp), fun _ ha => nomatch ha⟩
    exact ⟨hinit _ _ _, hinit _ _ _⟩
  | left h hc hstep ih =>
    exact ⟨ih.1.step h.reachable hc hstep,
      ih.2.mono (sentFrames_subset_of_step h.reachable hstep _)⟩
  | right h hc hstep ih =>
    exact ⟨ih.1.mono (sentFrames_subset_of_step h.symm.reachable hstep _),
      ih.2.step h.symm.reachable hc hstep⟩

/-- A port that forwards has processed, last of all, a LACPDU of its attached partner. -/
theorem LinkReachable.heardFromAttached (h : LinkReachable i j w v) {a : Addr}
    (ha : a ∈ w.sys.ports) (hindex : (w.port a).portIndex = i)
    (hmux : (w.port a).mux.state = .rxTx) : HeardFromAttached w i v j := by
  have hlive := (h.reachable.port ha).1.forwardsLive (h.reachable.port ha).2 hmux
  obtain ⟨p, hlast, hpartner⟩ := h.processed.1.current a ha hindex hlive.rx
  obtain ⟨pdu, hpdu, hactor, hpart⟩ := h.processed.1.last p hlast
  obtain ⟨q, hq, hqindex⟩ := mem_sentFrames.mp hpdu
  have hstate : p.msgActor.state = pdu.actor.state := by
    rw [hactor]
    rfl
  have hsyn : (partnerMatched p && p.msgActor.state.SYN) = true := by
    have hsyn := hlive.partnerSYN
    rwa [hpartner] at hsyn
  obtain ⟨hmatched, hsyn⟩ := Bool.and_eq_true_iff.mp hsyn
  have hagg : p.msgActor.state.AGG = true := by
    have hagg := hlive.partnerAGG
    rwa [hpartner] at hagg
  -- the partner is no individual link, so it matched because it knew this port
  have hsame : samePartner p.msgPartner p.actor = true := by
    simpa [partnerMatched, hagg] using (Bool.and_eq_true_iff.mp hmatched).1
  rw [hstate] at hsyn hagg
  refine ⟨p, pdu, q, hlast, hactor, hpart, hq, hqindex, ?_, hsyn, hagg, hpart ▸ hsame⟩
  exact h.symm.reachable.sentAttached q pdu hq hsyn

/-- In every run of the two bridges, a port of the link that forwards has processed, last of all, a LACPDU
that the other port sent while it was attached. -/
theorem linkReachable_heardFromAttached (i j : ℕ) (w v : World) (h : LinkReachable i j w v) :
    (∀ a ∈ w.sys.ports, (w.port a).portIndex = i → (w.port a).mux.state = .rxTx →
      HeardFromAttached w i v j) ∧
    ∀ b ∈ v.sys.ports, (v.port b).portIndex = j → (v.port b).mux.state = .rxTx →
      HeardFromAttached v j w i :=
  ⟨fun _ ha hindex hmux => h.heardFromAttached ha hindex hmux,
    fun _ hb hindex hmux => h.symm.heardFromAttached hb hindex hmux⟩

end Safety

/-! ## A run

Port 1 of slot 0 on either side, until both ends forward.
-/

/-- One move of a run of two bridges. -/
inductive LinkMove
  /-- A call on the left bridge, not a reception. -/
  | call (c : Call)
  /-- The newest frame of the right end arrives at the left end. -/
  | deliver
  /-- The bridges change sides. -/
  | swap

def runLinkMove (fuel : ℕ) (s : World × World) : LinkMove → Option (World × World)
  | .call (.rxLacpdu _ _ _) => none
  | .call c =>
    if c.InRange then (runCall fuel s.1 c).map fun result => (result.1, s.2) else none
  | .deliver => do
    let pdu ← (sentFrames s.2 0).head?
    let result ← runCall fuel s.1 (.rxLacpdu 0 1 pdu)
    return (result.1, s.2)
  | .swap => some s.swap

theorem linkReachable_of_runLinkMove {fuel : ℕ} {move : LinkMove} {s s' : World × World}
    (h : LinkReachable 0 0 s.1 s.2) (hrun : runLinkMove fuel s move = some s') :
    LinkReachable 0 0 s'.1 s'.2 := by
  cases move with
  | call c =>
    have hcall : c.Delivers 0 (sentFrames s.2 0) ∧
        (if c.InRange then (runCall fuel s.1 c).map fun result => (result.1, s.2) else none)
          = some s' := by
      cases c with
      | rxLacpdu => cases hrun
      | _ => exact ⟨trivial, hrun⟩
    obtain ⟨hdelivers, hrun⟩ := hcall
    obtain ⟨hrange, hrun⟩ := Option.ite_none_right_eq_some.mp hrun
    obtain ⟨⟨w', ret⟩, hcall, rfl⟩ := Option.map_eq_some_iff.mp hrun
    exact h.left hdelivers ⟨hrange, fuel, ret, hcall⟩
  | deliver =>
    obtain ⟨pdu, hpdu, hrun⟩ := Option.bind_eq_some_iff.mp hrun
    obtain ⟨⟨w', ret⟩, hcall, hend⟩ := Option.bind_eq_some_iff.mp hrun
    obtain rfl := Option.some.inj hend
    have hsent : pdu ∈ sentFrames s.2 0 := List.mem_of_mem_head? hpdu
    exact h.left (c := .rxLacpdu 0 1 pdu) (fun _ => hsent) ⟨⟨by decide, by decide⟩, fuel, ret, hcall⟩
  | swap =>
    obtain rfl := Option.some.inj hrun
    exact h.symm

theorem linkReachable_of_moves {fuel : ℕ} {moves : List LinkMove} {s s' : World × World}
    (h : LinkReachable 0 0 s.1 s.2) (hrun : moves.foldlM (runLinkMove fuel) s = some s') :
    LinkReachable 0 0 s'.1 s'.2 := by
  induction moves generalizing s with
  | nil =>
    obtain rfl := Option.some.inj hrun
    exact h
  | cons move moves ih =>
    obtain ⟨u, hu, hrest⟩ := Option.bind_eq_some_iff.mp hrun
    exact ih (linkReachable_of_runLinkMove h hu) hrest

def linkRun : List LinkMove :=
  [.call (.setPortLinkStatus 0 1), .call (.portLacpEnable 0 1 1 .zero), .swap,
    .call (.setPortLinkStatus 0 1), .call (.portLacpEnable 0 1 1 .zero),
    .deliver, .swap, .deliver, .swap, .deliver, .call .oneSecond, .call .oneSecond, .swap,
    .call .oneSecond, .call .oneSecond, .deliver, .swap, .deliver]

theorem linkRun_heardFromAttached :
    ∃ w v, LinkReachable 0 0 w v ∧ HeardFromAttached w 0 v 0 ∧ HeardFromAttached v 0 w 0 := by
  have hrun : (linkRun.foldlM (runLinkMove 25) (initWorld 77, initWorld 88)).any (fun s =>
      [s.1, s.2].all fun w => decide (0 ∈ w.sys.ports) && decide ((w.port 0).portIndex = 0)
        && decide ((w.port 0).mux.state = .rxTx)) = true := by decide +kernel
  cases hs : linkRun.foldlM (runLinkMove 25) (initWorld 77, initWorld 88) with
  | none => simp [hs] at hrun
  | some s =>
    have hlink := linkReachable_of_moves (.init 77 88) hs
    simp only [hs, Option.any_some, List.all_cons, List.all_nil, Bool.and_true, Bool.and_eq_true,
      decide_eq_true_iff] at hrun
    obtain ⟨⟨⟨ha, hindex⟩, hmux⟩, ⟨hb, hindex'⟩, hmux'⟩ := hrun
    have hboth := linkReachable_heardFromAttached 0 0 s.1 s.2 hlink
    exact ⟨s.1, s.2, hlink, hboth.1 0 ha hindex hmux, hboth.2 0 hb hindex' hmux'⟩

end Lacp
