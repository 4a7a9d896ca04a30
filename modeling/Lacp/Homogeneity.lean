import Lacp.PortStates

/-!
# The active ports of a group are alike

Two ports of one link group that are both selected and not in standby have the same partner system,
the same partner key and the same key of their own. It holds at every point of a run: whatever rewrites
one of these fields deselects the port, and a selection compares every member with the master it
elects.
-/

namespace Lacp

/-- The port takes part in the aggregation of its group. -/
def LacpPort.Active (p : LacpPort) : Prop :=
  p.lacpEnabled = true ∧ p.selected = true ∧ p.standby = false

instance (p : LacpPort) : Decidable p.Active := inferInstanceAs (Decidable (_ ∧ _))

/-- The two ports can be aggregated with each other. -/
structure SameAggregate (p q : LacpPort) : Prop where
  partnerSystemMac : p.partner.systemMac = q.partner.systemMac
  partnerSystemPriority : p.partner.systemPriority = q.partner.systemPriority
  partnerKey : p.partner.key = q.partner.key
  key : p.actor.key = q.actor.key

/-- Any two active ports of one link group can be aggregated with each other. -/
def Homogeneous (w : World) : Prop :=
  ∀ a ∈ w.sys.ports, ∀ b ∈ w.sys.ports, (w.port a).Active → (w.port b).Active →
    (w.port a).aggId = (w.port b).aggId → SameAggregate (w.port a) (w.port b)

namespace SameAggregate

variable {p q r : LacpPort}

theorem refl (p : LacpPort) : SameAggregate p p := ⟨rfl, rfl, rfl, rfl⟩

theorem symm (h : SameAggregate p q) : SameAggregate q p :=
  ⟨h.partnerSystemMac.symm, h.partnerSystemPriority.symm, h.partnerKey.symm, h.key.symm⟩

theorem trans (h : SameAggregate p q) (h' : SameAggregate q r) : SameAggregate p r :=
  ⟨h.partnerSystemMac.trans h'.partnerSystemMac,
    h.partnerSystemPriority.trans h'.partnerSystemPriority, h.partnerKey.trans h'.partnerKey,
    h.key.trans h'.key⟩

end SameAggregate

/-- The port was active before, in the same group and with the same partner and key. -/
def StaysActive (p q : LacpPort) : Prop :=
  q.Active → p.Active ∧ q.aggId = p.aggId ∧ SameAggregate q p

theorem StaysActive.refl (p : LacpPort) : StaysActive p p := fun hact => ⟨hact, rfl, .refl p⟩

theorem StaysActive.deselect (p : LacpPort) : StaysActive p { p with selected := false } :=
  fun hact => nomatch hact.2.1

/-- Entering a state of the receive machine either keeps the partner or deselects the port. -/
theorem StaysActive.rxEntered (sys : LacpSys) (p : LacpPort) (s : RxState) :
    StaysActive p (rxEntered sys { p with rx := ⟨false, s⟩ }) := by
  intro hact
  obtain ⟨hlac, hsel, hsb⟩ := hact
  cases s with
  | expired => exact ⟨⟨hlac, hsel, hsb⟩, rfl, rfl, rfl, rfl, rfl⟩
  | defaulted =>
    obtain ⟨hsel, hsame⟩ := Bool.and_eq_true_iff.mp hsel
    obtain ⟨_, _, hprio, hmac, hkey, _⟩ := samePartner_iff.mp hsame
    exact ⟨⟨hlac, hsel, hsb⟩, rfl, hmac, hprio, hkey, rfl⟩
  | current =>
    obtain ⟨hsel, hsame⟩ := Bool.and_eq_true_iff.mp hsel
    obtain ⟨_, _, hprio, hmac, hkey, _⟩ := samePartner_iff.mp hsame
    exact ⟨⟨hlac, hsel, hsb⟩, rfl, hmac, hprio, hkey, rfl⟩
  | _ => cases hsel

/-- A write of the API never makes a port active. -/
theorem StaysActive.written {p q : LacpPort} (h : Written p q) : StaysActive p q := by
  rintro ⟨hlac, hsel, hsb⟩
  obtain ⟨hsel', hagg, hlac'⟩ := h.selected hsel
  refine ⟨⟨hlac' ▸ hlac, hsel', h.standby ▸ hsb⟩, hagg, ?_, ?_, ?_, h.key⟩
  · rw [h.partner]
  · rw [h.partner]
  · rw [h.partner]

namespace Homogeneous

variable {E : Set ℕ} {w w' : World}

theorem mono (h : Homogeneous w)
    (hports : ∀ a ∈ w'.sys.ports, (w'.port a).Active → a ∈ w.sys.ports)
    (hstays : ∀ a ∈ w'.sys.ports, a ∈ w.sys.ports → StaysActive (w.port a) (w'.port a)) :
    Homogeneous w' := by
  intro a ha b hb hact hact' hagg
  have ha' := hports a ha hact
  have hb' := hports b hb hact'
  obtain ⟨hold, hagg₁, hsame₁⟩ := hstays a ha ha' hact
  obtain ⟨hold', hagg₂, hsame₂⟩ := hstays b hb hb' hact'
  have hsame := h a ha' b hb' hold hold' (by rw [← hagg₁, ← hagg₂, hagg])
  exact (hsame₁.trans hsame).trans hsame₂.symm

/-- A member that a selection leaves active has the key and the partner of the elected master. -/
theorem sameAggregate_selHop {a b : Addr} (hlac : (w.port a).lacpEnabled = true)
    (hne : (w.port a).aggId ≠ 0) (hb : b ∈ w.sys.ports) (hbg : (w.port b).aggId = (w.port a).aggId)
    (hact : ((Lacp.selHop w a).port b).Active) :
    ∃ best, electedMaster w (w.port a).aggId = some best ∧ SameAggregate
      ((Lacp.selHop w a).port b) ((updatePortInfo w (w.port a).aggId).port best) := by
  have hport := selHop_port_member hlac hne hb hbg
  rw [updateAggPortsSelect_port, if_pos ⟨hb, hbg⟩] at hport
  rw [hport] at hact ⊢
  obtain ⟨best, hbest, hkey, hprio, hmac, hpkey⟩ :=
    sameAggregate_of_selectedStandby_eq_false w _ b hact.2.2
  rw [updatePortInfo_member hb hbg] at hkey
  obtain ⟨key, hkeyed⟩ := updatePortInfo_keyed w (w.port a).aggId best
  refine ⟨best, hbest, ?_⟩
  rw [hkeyed] at hkey ⊢
  exact ⟨hmac, hprio, hpkey, hkey⟩

/-- A selection compares every member with the elected master. -/
theorem selHop (hc : Coherent E w) (h : Homogeneous w) {a : Addr} (ha : a ∈ w.sys.ports) :
    Homogeneous (selHop w a) := by
  by_cases hlac : (w.port a).lacpEnabled = true
  · have hne := hc.aggId_ne_zero ha hlac
    have hkept : ∀ b, ((Lacp.selHop w a).port b).aggId = (w.port b).aggId := by
      intro b
      simp only [Lacp.selHop]
      repeat' split
      all_goals rfl
    intro x hx y hy hact hact' hxy
    rw [hkept x, hkept y] at hxy
    by_cases hxg : (w.port x).aggId = (w.port a).aggId
    · obtain ⟨best, hbest, hsame⟩ := sameAggregate_selHop hlac hne hx hxg hact
      obtain ⟨best', hbest', hsame'⟩ := sameAggregate_selHop hlac hne hy (hxy ▸ hxg) hact'
      obtain rfl := Option.some.inj (hbest.symm.trans hbest')
      exact hsame.trans hsame'.symm
    · -- neither port is in the group that is selected
      have hyg : (w.port y).aggId ≠ (w.port a).aggId := hxy ▸ hxg
      have hxa : x ≠ a := fun hxa => hxg (hxa ▸ rfl)
      have hya : y ≠ a := fun hya => hyg (hya ▸ rfl)
      rw [selHop_port_of_ne hxa hxg] at hact ⊢
      rw [selHop_port_of_ne hya hyg] at hact' ⊢
      exact h x hx y hy hact hact' hxy
  · refine h.mono (fun b hb _ => hb) fun b _ _ => ?_
    by_cases hba : b = a
    · rintro ⟨_, _, hsb⟩
      simp [Lacp.selHop, hlac, hba] at hsb
    · rw [selHop_port_of_disabled (by simpa using hlac) hba]
      exact .refl _

/-- Every hop keeps the active ports of a group alike. -/
theorem hop (hc : Coherent E w) (h : Homogeneous w) (hop : EngineHop w w') : Homogeneous w' := by
  cases hop with
  | @rx a s ha guard =>
    refine h.mono (fun b hb _ => hb) fun b _ _ => ?_
    simp only [rxHop]
    by_cases hba : b = a
    · subst hba
      rw [if_pos rfl]
      exact .rxEntered _ _ _
    · rw [if_neg hba]
      split
      · exact .deselect _
      · exact .refl _
  | sel ha guard => exact h.selHop hc ha
  | @mux a s ha guard =>
    refine h.mono (fun b hb _ => hb) fun b _ _ => ?_
    simp only [muxHop]
    by_cases hba : b = a
    · subst hba
      rw [if_pos rfl]
      cases s <;> exact fun hact => ⟨hact, rfl, rfl, rfl, rfl, rfl⟩
    · rw [if_neg hba]
      exact .refl _
  | @tx a s ha guard =>
    refine h.mono (fun b hb _ => hb) fun b _ _ => ?_
    simp only [txHop]
    by_cases hba : b = a
    · subst hba
      rw [if_pos rfl]
      cases s <;> exact fun hact => ⟨hact, rfl, rfl, rfl, rfl, rfl⟩
    · rw [if_neg hba]
      exact .refl _

/-- Every effect keeps the active ports of a group alike. -/
theorem effect (hc : Coherent E w) (h : Homogeneous w) {R : World → Call → Prop} {c : Call}
    {E' : Set ℕ} (heffect : Effect R c (E, w) (E', w')) : Homogeneous w' := by
  rcases heffect.hop_or_written hc with hop | ⟨_, hports⟩
  · exact h.hop hc hop
  · refine h.mono (fun a ha hact => ?_) fun a ha ha' => ?_
    · rcases hports a ha with ⟨ha', _⟩ | ⟨rfl, sysMac, i, hnew⟩
      · exact ha'
      · rw [hnew] at hact
        exact nomatch hact.1
    · rcases hports a ha with ⟨_, hwritten⟩ | ⟨rfl, _⟩
      · exact .written hwritten
      · exact absurd (hc.addr_lt _ ha') (lt_irrefl _)

end Homogeneous

/-- In every reachable state the active ports of a group are alike. -/
theorem reachable_homogeneous (w : World) (h : Reachable w) : Homogeneous w :=
  h.invariant_of_effects (P := fun _ => Homogeneous) (fun _ _ ha => nomatch ha)
    fun hc hP heffect => hP.effect hc heffect

/-- Both ports of `aggregationRun` are active, in one group. -/
theorem aggregationRun_homogeneous :
    ∃ w, Reachable w ∧ (∀ a ∈ [0, 1], a ∈ w.sys.ports ∧ (w.port a).Active ∧ (w.port a).aggId = 1) ∧
      SameAggregate (w.port 0) (w.port 1) := by
  obtain ⟨w, h, hboth⟩ := exists_reachable_bothForward
  have hactive : ∀ a ∈ [0, 1], a ∈ w.sys.ports ∧ (w.port a).Active ∧ (w.port a).aggId = 1 := by
    intro a ha
    obtain ⟨hlisted, hmux, hlac, hagg⟩ := hboth a ha
    have hlive := (h.port hlisted).1.forwardsLive (h.port hlisted).2 hmux
    exact ⟨hlisted, ⟨hlac, hlive.selected, hlive.standby⟩, hagg⟩
  obtain ⟨ha, hact, hagg⟩ := hactive 0 (by decide)
  obtain ⟨ha', hact', hagg'⟩ := hactive 1 (by decide)
  exact ⟨w, h, hactive, reachable_homogeneous w h 0 ha 1 ha' hact hact' (hagg.trans hagg'.symm)⟩

end Lacp
