import Lacp.Aggregatability
import Lacp.TwoParty

/-!
# Whom a port listens to

A port in `RXM_CURRENT` has in its record what it processed last, and what it processes is what it holds.
So if a port heard only from one end of a line since its receive machine was last out of `RXM_CURRENT`, it
goes by what that end has sent (`HeardFrom`), whatever it processed before. A port whose link is down
listens to nobody, and this is how a new line starts (`HeardFrom.of_linkDown`).
-/

namespace Lacp

/-- The frame that the port with index `i` holds, and the one that it goes by in `RXM_CURRENT`, are frames
of `sent`. -/
structure HeardFrom (i : ℕ) (sent : List LacpPdu) (w : World) : Prop where
  rcvd : ∀ b ∈ w.sys.ports, (w.port b).portIndex = i → (w.port b).rcvdLacpdu = true →
    FromFrame sent (w.port b)
  current : ∀ b ∈ w.sys.ports, (w.port b).portIndex = i → (w.port b).rx.state = .current →
    ∃ p, lastProcessed w i = some p ∧ FromFrame sent p ∧ (w.port b).partner = recordedPartner p

theorem FromFrame.mono {sent sent' : List LacpPdu} {p : LacpPort} (hsub : sent ⊆ sent')
    (h : FromFrame sent p) : FromFrame sent' p :=
  let ⟨pdu, hpdu, hmsg⟩ := h
  ⟨pdu, hsub hpdu, hmsg⟩

namespace HeardFrom

variable {c : Call} {E E' : Set ℕ} {w w' : World} {i : ℕ} {sent sent' : List LacpPdu} {a b : Addr}

/-- The other end may send more. -/
theorem mono (hsub : sent ⊆ sent') (h : HeardFrom i sent w) : HeardFrom i sent' w where
  rcvd := fun b hb hindex hrcvd => (h.rcvd b hb hindex hrcvd).mono hsub
  current := fun b hb hindex hrx =>
    let ⟨p, hlast, hframe, hpartner⟩ := h.current b hb hindex hrx
    ⟨p, hlast, hframe.mono hsub, hpartner⟩

/-- Entering `RXM_CURRENT` records the frame that the port holds. -/
theorem rxHop {s : RxState} (hc : Coherent E w) (h : HeardFrom i sent w) (ha : a ∈ w.sys.ports)
    (guard : lacpRxCheckConditions w a = some s) (b : Addr) (hb : b ∈ w.sys.ports)
    (hindex : (w.port b).portIndex = i) (hrx : ((Lacp.rxHop w a s).port b).rx.state = .current) :
    ∃ p, lastProcessed (Lacp.rxHop w a s) i = some p ∧ FromFrame sent p ∧
      ((Lacp.rxHop w a s).port b).partner = recordedPartner p := by
  have hself : (Lacp.rxHop w a s).port a = rxEntered w.sys { w.port a with rx := ⟨false, s⟩ } :=
    if_pos rfl
  by_cases hba : b = a
  · subst hba
    rw [hself] at hrx
    -- entering a state leaves the state as it is
    obtain rfl : s = .current := by cases s <;> exact hrx
    refine ⟨{ w.port b with rx := ⟨true, .current⟩ }, ?_, ?_, ?_⟩
    · simp [lastProcessed, Lacp.rxHop, Event.processedAt, hindex]
    · exact h.rcvd b hb hindex (rxGuard_of_check guard).rcvd
    · rw [hself]
      rfl
  · have hkept : ((Lacp.rxHop w a s).port b).rx = (w.port b).rx ∧
        ((Lacp.rxHop w a s).port b).partner = (w.port b).partner := by
      simp only [Lacp.rxHop, if_neg hba]
      split <;> exact ⟨rfl, rfl⟩
    have hlast : lastProcessed (Lacp.rxHop w a s) i = lastProcessed w i := by
      refine lastProcessed_append [.enter .rx { w.port a with rx := ⟨true, s⟩ }] rfl ?_
      intro e he
      rw [List.mem_singleton.mp he]
      exact if_neg fun hproc => hba (hc.index_inj hb ha (hindex.trans hproc.1.symm))
    rw [hkept.1] at hrx
    rw [hlast, hkept.2]
    exact h.current b hb hindex hrx

/-- Every hop keeps what was received and what was recorded. -/
theorem hop (hc : Coherent E w) (h : HeardFrom i sent w) (hop : EngineHop w w') :
    HeardFrom i sent w' := by
  have hports := hop.ports_eq
  have hindex := hop.portIndex_eq
  have hrcvd : ∀ b ∈ w'.sys.ports, (w'.port b).portIndex = i → (w'.port b).rcvdLacpdu = true →
      FromFrame sent (w'.port b) := by
    intro b hb hi hrcvd
    rw [hports] at hb
    rw [hindex] at hi
    obtain ⟨hold, hactor, hpartner⟩ := hop.keepsFrame b hrcvd
    rw [FromFrame, hactor, hpartner]
    exact h.rcvd b hb hi hold
  have hkept : lastProcessed w' i = lastProcessed w i →
      (∀ b, (w'.port b).rx = (w.port b).rx ∧ (w'.port b).partner = (w.port b).partner) →
      HeardFrom i sent w' := by
    intro hlast hport
    refine ⟨hrcvd, fun b hb hi hrx => ?_⟩
    rw [hports] at hb
    rw [hindex] at hi
    rw [(hport b).1] at hrx
    rw [hlast, (hport b).2]
    exact h.current b hb hi hrx
  -- only the receive machine processes frames and records partners
  cases hop with
  | @rx a s ha guard =>
    refine ⟨hrcvd, fun b hb hi hrx => ?_⟩
    rw [hindex] at hi
    exact h.rxHop hc ha guard b hb hi hrx
  | @sel a => exact hkept rfl fun b => ⟨(selHop_frame w a b).1, (selHop_frame w a b).2.2.2.1⟩
  | @mux a s =>
    refine hkept (lastProcessed_append _ (List.append_assoc _ [_] _).symm fun e he => ?_) fun b =>
      ⟨(muxHop_frame w s b).1, (muxHop_frame w s b).2.2.1⟩
    rcases List.mem_append.mp he with he | he
    · obtain ⟨_, rfl⟩ := eq_hw_of_mem_muxWrites he
      rfl
    · rw [List.mem_singleton.mp he]
      rfl
  | @tx a s =>
    refine hkept (lastProcessed_append _ (List.append_assoc _ [_] _).symm fun e he => ?_) fun b =>
      ⟨(txHop_frame w s b).1, (txHop_frame w s b).2.2⟩
    rcases List.mem_append.mp he with he | he
    · rw [eq_tx_of_mem_txSent he]
      rfl
    · rw [List.mem_singleton.mp he]
      rfl

/-- Every effect that delivers only frames of `sent` keeps what was received and what was recorded. -/
theorem effect (hc : Coherent E w) (h : HeardFrom i sent w)
    (heffect : Effect (fun _ c => c.Delivers i sent) c (E, w) (E', w')) : HeardFrom i sent w' := by
  rcases heffect.hop_or_written hc with hop | ⟨_, hports⟩
  · exact h.hop hc hop
  rcases heffect.hop_or_trace_eq with hop | htrace
  · exact h.hop hc hop
  have hlast : lastProcessed w' i = lastProcessed w i := by rw [lastProcessed, htrace, lastProcessed]
  refine ⟨fun b hb hi hrcvd => ?_, fun b hb hi hrx => ?_⟩
  · rcases hports b hb with ⟨hb', hwritten⟩ | ⟨rfl, _, _, hnew⟩
    · rw [portIndex_of_core hwritten.core] at hi
      rcases heffect.received_cases hb' hrcvd with
        ⟨hold, hactor, hpartner⟩ | ⟨slot, port, pdu, rfl, hok, hindex, hactor, hpartner⟩
      · rw [FromFrame, hactor, hpartner]
        exact h.rcvd b hb' hi hold
      · exact ⟨pdu, hok (hindex.symm.trans hi), hactor, hpartner⟩
    · rw [hnew] at hrcvd
      cases hrcvd
  · rcases hports b hb with ⟨hb', hwritten⟩ | ⟨rfl, _, _, hnew⟩
    · have hcore := hwritten.core
      simp only [LacpPort.core, Prod.mk.injEq] at hcore
      rw [hcore.2.1] at hrx
      rw [hlast, hwritten.partner]
      exact h.current b hb' (hcore.1 ▸ hi) hrx
    · rw [hnew] at hrx
      cases hrx

/-- A call that delivers only frames of `sent`. -/
theorem step (hw : Reachable w) (h : HeardFrom i sent w) (hc : c.Delivers i sent) (hstep : Step c w w') :
    HeardFrom i sent w' := by
  obtain ⟨hcoherent, hq⟩ := hw.coherent
  have hcompletes := completes_of_step (R := fun _ c => c.Delivers i sent) hcoherent hq hc hstep
  have hboth := hcompletes.1.invariant (P := fun E w => Coherent E w ∧ HeardFrom i sent w)
    (fun hP heffect => ⟨hP.1.effect heffect, hP.2.effect hP.1 heffect⟩) ⟨hcoherent, h⟩
  exact hboth.2

/-- A port whose link is down listens to nobody. -/
theorem of_linkDown (hw : Reachable w)
    (hdown : ∀ b ∈ w.sys.ports, (w.port b).portIndex = i → (w.port b).portEnabled = false) :
    HeardFrom i [] w where
  rcvd := fun b hb _ hrcvd => absurd ((hw.port hb).2.rcvd.symm.trans hrcvd) (by decide)
  current := fun b hb hindex hrx => by
    have hrx' := (hw.port hb).2.linkDown.mp (hdown b hb hindex)
    rw [hrx'] at hrx
    cases hrx

theorem init (i : ℕ) (sent : List LacpPdu) (pid : UInt32) : HeardFrom i sent (initWorld pid) :=
  ⟨(fun _ hb => nomatch hb), fun _ hb => nomatch hb⟩

end HeardFrom

end Lacp
