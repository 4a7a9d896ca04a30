import Lacp.PortStates

/-!
# The `DEF` bit and the default partner

`actor.DEF` says that the recorded partner is the default one. The receive machine sets the bit when it
records `partner_admin` and clears it when it records a received LACPDU, so the two agree as long as no
partner sends the values of `partner_admin` itself.
-/

namespace Lacp

/-- The port holds the same frame as before, if it holds one. -/
def KeepsFrame (p q : LacpPort) : Prop :=
  q.rcvdLacpdu = true →
    p.rcvdLacpdu = true ∧ q.msgActor = p.msgActor ∧ q.msgPartner = p.msgPartner

namespace KeepsFrame

variable {p : LacpPort} {u : LacpPort → LacpPort} {a b : Addr}

theorem refl (p : LacpPort) : KeepsFrame p p := fun hrcvd => ⟨hrcvd, rfl, rfl⟩

theorem reconfigured (hself : KeepsFrame p (u p)) (g : ℕ) :
    KeepsFrame p (Lacp.reconfigured a g u b p) := by
  simp only [Lacp.reconfigured]
  split
  · exact hself
  · split <;> exact .refl p

theorem onlyAt (hself : KeepsFrame p (u p)) : KeepsFrame p (Lacp.onlyAt a u b p) := by
  simp only [Lacp.onlyAt]
  split
  · exact hself
  · exact .refl p

theorem linkChanged (attr : PortAttr) (linkStatus : UInt32) (p : LacpPort) :
    KeepsFrame p (linkChangedPort attr linkStatus p) := by
  simp only [linkChangedPort]
  split <;> exact .refl p

end KeepsFrame

section Frames

variable {R : World → Call → Prop} {c : Call} {E E' : Set ℕ} {w w' : World} {b : Addr}

/-- No hop receives a frame. -/
theorem PortHop.keepsFrame {q : LacpPort} (h : PortHop w b q) : KeepsFrame (w.port b) q := by
  intro hrcvd
  have hsettings := h.settings_eq
  refine ⟨?_, congrArg PortSettings.msgActor hsettings, congrArg PortSettings.msgPartner hsettings⟩
  cases h with
  | @rx s => cases s <;> first | exact hrcvd | cases hrcvd
  | @mux s | @tx s => cases s <;> exact hrcvd
  | same | deselect | selDisabled | selAlone | select => exact hrcvd

theorem EngineHop.keepsFrame (hop : EngineHop w w') (b : Addr) :
    KeepsFrame (w.port b) (w'.port b) :=
  (hop.portHop b).keepsFrame

/-- A port that holds a frame after an effect held it before, or the effect received it. -/
theorem Effect.received_cases (heffect : Effect R c (E, w) (E', w')) (hb : b ∈ w.sys.ports)
    (hrcvd : (w'.port b).rcvdLacpdu = true) :
    ((w.port b).rcvdLacpdu = true ∧ (w'.port b).msgActor = (w.port b).msgActor ∧
        (w'.port b).msgPartner = (w.port b).msgPartner) ∨
      ∃ slot port pdu, c = .rxLacpdu slot port pdu ∧ R w c ∧
        (w.port b).portIndex = globalIndex slot port ∧
        (w'.port b).msgActor = lacpCopyInfoFromNet pdu.actor ∧
        (w'.port b).msgPartner = lacpCopyInfoFromNet pdu.partner := by
  have hkeeps : ∀ {s t f}, Update w w' s t f → KeepsFrame (w.port b) (f b (w.port b)) →
      (w.port b).rcvdLacpdu = true ∧ (w'.port b).msgActor = (w.port b).msgActor ∧
        (w'.port b).msgPartner = (w.port b).msgPartner := by
    intro s t f hw hf
    rw [hw.port b hb] at hrcvd ⊢
    exact hf hrcvd
  cases heffect with
  | hop hop => exact .inl (hop.keepsFrame b hrcvd)
  | rest hw | unlink _ _ _ _ hw | setSys _ _ hw | tick _ _ hw => exact .inl (hkeeps hw (.refl _))
  | store hc => exact .inl ⟨hrcvd, rfl, rfl⟩
  | @create _ _ slot port aggId sysMac hc hlt hw =>
    obtain ⟨_, rfl⟩ := lacpPortCreate_eq_some hw
    by_cases hnew : b = w.brk
    · subst hnew
      rw [withCreated_port_self] at hrcvd
      cases hrcvd
    · have hport : (withCreated w sysMac (globalIndex slot port)).port b = w.port b := if_neg hnew
      rw [hport] at hrcvd ⊢
      exact .inl ⟨hrcvd, rfl, rfl⟩
  | join _ _ _ _ _ _ _ hw | reselect _ _ _ hw | prio _ _ _ hw | leave _ _ _ _ _ hw =>
    exact .inl (hkeeps hw (.reconfigured (.refl _) _))
  | link _ _ _ _ hw => exact .inl (hkeeps hw (.reconfigured (.linkChanged _ _ _) _))
  | stat _ _ hw | notify _ _ _ hw => exact .inl (hkeeps hw (.onlyAt (.refl _)))
  | @receive _ _ a moved slot port pdu hc hindex _ _ _ _ hok _ hw =>
    by_cases hba : b = a
    · subst hba
      refine .inr ⟨slot, port, pdu, hc, hok, hindex, ?_⟩
      rw [hw.port b hb, received, if_pos rfl]
      exact ⟨rfl, rfl⟩
    · refine .inl (hkeeps hw ?_)
      simp only [received, if_neg hba]
      split <;> exact .refl _
  | remove _ _ _ _ _ _ hw =>
    have hport : w'.port = w.port := by rw [hw]
    rw [hport] at hrcvd ⊢
    exact .inl ⟨hrcvd, rfl, rfl⟩

end Frames

/-! ## The invariant -/

@[simp] theorem samePartner_self (p : LacpPortInfo) : samePartner p p = true := by
  simp [samePartner_iff]

/-- `DEF` is set exactly when the recorded partner is the default one, and a pending frame does not
hold the default values. -/
structure DefaultMarked (p : LacpPort) : Prop where
  DEF : p.actor.state.DEF = samePartner p.partnerAdmin p.partner
  rcvd : p.rcvdLacpdu = true → samePartner p.partnerAdmin p.msgActor = false

theorem DefaultMarked.rxEntered {p : LacpPort} (h : DefaultMarked p) (sys : LacpSys) {s : RxState}
    (hadmin : p.partnerAdmin.state.AGG = false) (hcurrent : s = .current → p.rcvdLacpdu = true) :
    DefaultMarked (rxEntered sys { p with rx := ⟨false, s⟩ }) := by
  cases s with
  | begin | init =>
    exact ⟨(samePartner_self p.partnerAdmin).symm, h.rcvd⟩
  | lacpDisabled =>
    refine ⟨?_, h.rcvd⟩
    simp [Lacp.rxEntered, samePartner, hadmin]
  | defaulted => exact ⟨(samePartner_self p.partnerAdmin).symm, h.rcvd⟩
  | portDisabled => exact ⟨h.DEF, fun hrcvd => by cases hrcvd⟩
  | expired => exact ⟨h.DEF, h.rcvd⟩
  | current => exact ⟨(h.rcvd (hcurrent rfl)).symm, fun hrcvd => by cases hrcvd⟩

/-- The pending frame is recorded only in `RXM_CURRENT`. -/
theorem RxGuard.rcvd {p : LacpPort} (h : RxGuard p .current) : p.rcvdLacpdu = true := by
  cases h with
  | resume _ _ _ hrv | refresh _ _ hrv | recover _ _ hrv => exact hrv

section Runs

variable {R : World → Call → Prop} {c : Call} {E E' : Set ℕ} {w w' : World}

theorem PortHop.defaultMarked {b : Addr} {q : LacpPort} (h : PortHop w b q)
    (hadmin : (w.port b).partnerAdmin.state.AGG = false) (hmarked : DefaultMarked (w.port b)) :
    DefaultMarked q := by
  cases h with
  | @rx s _ guard =>
    -- `record_pdu` runs on a pending frame, and that one does not hold the default values
    refine hmarked.rxEntered _ hadmin fun hs => ?_
    subst hs
    exact (rxGuard_of_check guard).rcvd
  | @mux s | @tx s => cases s <;> exact ⟨hmarked.DEF, hmarked.rcvd⟩
  | same | deselect | selDisabled | selAlone | select => exact ⟨hmarked.DEF, hmarked.rcvd⟩

/-- No received LACPDU holds the values of the default partner. -/
def ReceivesOthers (R : World → Call → Prop) : Prop :=
  ∀ w slot port pdu, R w (.rxLacpdu slot port pdu) → ∀ a ∈ w.sys.ports,
    (w.port a).portIndex = globalIndex slot port →
    samePartner (w.port a).partnerAdmin (lacpCopyInfoFromNet pdu.actor) = false

/-- Every effect keeps `DEF` in step with the recorded partner. -/
theorem DefaultMarked.effect (hothers : ReceivesOthers R) (hc : Coherent E w)
    (h : ∀ b ∈ w.sys.ports, DefaultMarked (w.port b)) (heffect : Effect R c (E, w) (E', w')) :
    ∀ b ∈ w'.sys.ports, DefaultMarked (w'.port b) := by
  intro b hb
  rcases heffect.hop_or_written hc with hop | ⟨_, hports⟩
  · have hb' : b ∈ w.sys.ports := hop.sys_eq ▸ hb
    exact (hop.portHop b).defaultMarked (hc.port b hb').partnerAdmin (h b hb')
  · rcases hports b hb with ⟨hb', hwritten⟩ | ⟨rfl, sysMac, i, hnew⟩
    · refine ⟨?_, fun hrcvd => ?_⟩
      · rw [hwritten.DEF, hwritten.partnerAdmin, hwritten.partner]
        exact (h b hb').DEF
      · rw [hwritten.partnerAdmin]
        rcases heffect.received_cases hb' hrcvd with
          ⟨hold, hmsg, _⟩ | ⟨slot, port, pdu, rfl, hok, hindex, hmsg, _⟩
        · rw [hmsg]
          exact (h b hb').rcvd hold
        · rw [hmsg]
          exact hothers w slot port pdu hok b hb' hindex
    · rw [hnew]
      refine ⟨?_, fun hrcvd => by cases hrcvd⟩
      simp [createdPort, lacpPortNew, samePartner, LacpPortInfo.zero, LacpState.zero,
        lacpPortGetPartnerInit, defaultPortPriority]

end Runs

end Lacp
