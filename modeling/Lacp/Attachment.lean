import Lacp.PortStates

/-!
# Hardware attachment follows the configured aggregator

`tid` is written when the mux machine enters `MUX_ATTACHED`, and `agg_id` when a port joins a group.
`trunk_port_lacp_enable` on a port that is attached writes `agg_id` without detaching the port, so
that a port which is active in its new group keeps the `tid` of the old one
(`not_reachable_attachmentFollows`). In a run that never moves an attached port, `tid` follows
`agg_id` (`reachableBy_attachmentFollows`).
-/

namespace Lacp

/-- An attached port is attached to the aggregator of its group, every other port to none, and an
index without a port is switched on and attached to none. -/
def AttachmentFollows (w : World) : Prop :=
  (∀ a ∈ w.sys.ports, (w.gPortList (w.port a).portIndex).tid =
    if (w.port a).mux.state = .attached ∨ (w.port a).mux.state = .rxTx then (w.port a).aggId
    else 0) ∧
  ∀ i, (∀ a ∈ w.sys.ports, (w.port a).portIndex ≠ i) →
    (w.gPortList i).tid = 0 ∧ (w.gPortList i).cd = 1

/-- The call does not move an attached port to another group. -/
def Call.KeepsAttached (w : World) : Call → Prop
  | .portLacpEnable slot port aggId _ => ∀ a ∈ w.sys.ports,
    (w.port a).portIndex = globalIndex slot port → (w.port a).Attached → (w.port a).aggId = aggId
  | _ => True

instance (w : World) : (c : Call) → Decidable (c.KeepsAttached w)
  | .portLacpEnable _ _ _ _ => inferInstanceAs (Decidable (∀ a ∈ w.sys.ports, _ → _ → _))
  | .sysSetPrio _ | .sysSetLongPeriod _ | .sysSetShortPeriod _ | .sysSetPeriod _ | .portLacpDisable _ _
  | .aggDelete _ | .portSetPrio _ _ _ | .portSetSpeed _ _ _ | .portSetDuplex _ _ _
  | .portLinkChange _ _ _ | .portClearStat _ _ | .setPortLinkStatus _ _ | .rxLacpdu _ _ _
  | .oneSecond => isTrue trivial

/-- A port that runs LACP afterwards ran it before, in the same group. -/
def KeepsGroup (p q : LacpPort) : Prop :=
  q.lacpEnabled = true → q.aggId = p.aggId ∧ p.lacpEnabled = true

section Membership

variable {R : World → Call → Prop} {c : Call} {E E' : Set ℕ} {w w' : World} {a b : Addr}
  {p : LacpPort} {u : LacpPort → LacpPort}

theorem KeepsGroup.refl (p : LacpPort) : KeepsGroup p p := fun hlac => ⟨rfl, hlac⟩

theorem KeepsGroup.reconfigured (hself : b = a → KeepsGroup p (u p)) (g : ℕ) :
    KeepsGroup p (Lacp.reconfigured a g u b p) := by
  simp only [Lacp.reconfigured]
  split
  · exact hself ‹_›
  · split <;> exact .refl p

theorem KeepsGroup.onlyAt (hself : KeepsGroup p (u p)) : KeepsGroup p (Lacp.onlyAt a u b p) := by
  simp only [Lacp.onlyAt]
  split
  · exact hself
  · exact .refl p

theorem KeepsGroup.received (moved : Option Addr) (pdu : LacpPdu) :
    KeepsGroup p (Lacp.received a moved pdu b p) := by
  simp only [Lacp.received]
  split
  · exact .refl p
  · split <;> exact .refl p

theorem KeepsGroup.linkChanged (attr : PortAttr) (linkStatus : UInt32) (p : LacpPort) :
    KeepsGroup p (linkChangedPort attr linkStatus p) := by
  simp only [linkChangedPort]
  split <;> exact .refl p

/-- A port that runs LACP after an effect was in its group before, or the effect put it there. -/
theorem Effect.membership (heffect : Effect R c (E, w) (E', w')) (hb : b ∈ w.sys.ports)
    (hlac : (w'.port b).lacpEnabled = true) :
    ((w'.port b).aggId = (w.port b).aggId ∧ (w.port b).lacpEnabled = true) ∨
      ∃ slot port sysMac, c = .portLacpEnable slot port (w'.port b).aggId sysMac ∧
        (w.port b).portIndex = globalIndex slot port ∧ Quiescent w ∧
        ((w.port b).lacpEnabled = true → R w c) := by
  have hkeeps : ∀ {s t f}, Update w w' s t f → KeepsGroup (w.port b) (f b (w.port b)) →
      (w'.port b).aggId = (w.port b).aggId ∧ (w.port b).lacpEnabled = true := by
    intro s t f hw hf
    rw [hw.port b hb] at hlac ⊢
    exact hf hlac
  cases heffect with
  | hop hop =>
    exact .inl ⟨hop.aggId_eq b,
      (hop.lacpEnabled_eq b).symm.trans hlac⟩
  | rest hw | unlink _ _ _ _ hw | setSys _ _ hw | tick _ _ hw => exact .inl (hkeeps hw (.refl _))
  | store hc => exact .inl ⟨rfl, hlac⟩
  | @create _ _ slot port aggId sysMac hc hlt hw =>
    obtain ⟨_, rfl⟩ := lacpPortCreate_eq_some hw
    by_cases hnew : b = w.brk
    · subst hnew
      rw [withCreated_port_self] at hlac
      cases hlac
    · have hport : (withCreated w sysMac (globalIndex slot port)).port b = w.port b := if_neg hnew
      rw [hport] at hlac ⊢
      exact .inl ⟨rfl, hlac⟩
  | @join _ _ _ a slot port aggId sysMac _ hc _ _ hindex _ hq hok hw =>
    by_cases hba : b = a
    · subst hba
      have hagg : (w'.port b).aggId = aggId := by
        rw [hw.port b hb, reconfigured, if_pos rfl]
        rfl
      exact .inr ⟨slot, port, sysMac, hagg ▸ hc, hindex, hq, hok⟩
    · exact .inl (hkeeps hw (.reconfigured (fun heq => absurd heq hba) _))
  | reselect _ _ _ hw | prio _ _ _ hw =>
    exact .inl (hkeeps hw (.reconfigured (fun _ => .refl _) _))
  | link _ _ _ _ hw => exact .inl (hkeeps hw (.reconfigured (fun _ => .linkChanged _ _ _) _))
  | stat _ _ hw | notify _ _ _ hw => exact .inl (hkeeps hw (.onlyAt (.refl _)))
  | receive _ _ _ _ _ _ _ _ hw => exact .inl (hkeeps hw (.received _ _))
  | leave _ _ _ _ _ hw =>
    exact .inl (hkeeps hw (.reconfigured (fun _ hoff => absurd hoff (by simp [leavePort])) _))
  | remove _ _ _ _ _ _ hw =>
    have hport : w'.port = w.port := by rw [hw]
    rw [hport] at hlac ⊢
    exact .inl ⟨rfl, hlac⟩

end Membership

/-- An attached port is attached to the aggregator of its group. -/
def TidFollows (w : World) : Prop :=
  ∀ a ∈ w.sys.ports, (w.port a).lacpEnabled = true → (w.port a).Attached →
    (w.gPortList (w.port a).portIndex).tid = (w.port a).aggId

namespace TidFollows

variable {E E' : Set ℕ} {w w' : World}

/-- Only `MUX_ATTACHED` attaches a port, and it does so with the port's own `agg_id`. -/
theorem hop (hc : Coherent E w) (h : TidFollows w) (hop : EngineHop w w') : TidFollows w' := by
  intro b hb hlac hatt
  have hb' : b ∈ w.sys.ports := hop.sys_eq ▸ hb
  have hindex := hop.portIndex_eq b
  have hagg := hop.aggId_eq b
  have hlac' : (w.port b).lacpEnabled = true :=
    (hop.lacpEnabled_eq b).symm.trans hlac
  rw [hindex, hagg]
  -- unless the mux machine hops, the entry and the mux state are what they were
  have hsame : w'.gPortList (w.port b).portIndex = w.gPortList (w.port b).portIndex →
      (w'.port b).mux = (w.port b).mux →
      (w'.gPortList (w.port b).portIndex).tid = (w.port b).aggId := by
    intro hentry hmux
    rw [hentry]
    refine h b hb' hlac' ?_
    rwa [LacpPort.Attached, ← hmux]
  cases hop with
  | @rx a s => exact hsame rfl (rxHop_frame w s b).1
  | @sel a => exact hsame rfl (selHop_frame w a b).2.1
  | @tx a s => exact hsame rfl (txHop_frame w s b).2.1
  | @mux a s ha guard =>
    by_cases hba : b = a
    · subst hba
      rw [muxHop_port_self] at hatt
      rw [muxHop_gPortList_self]
      cases muxGuard_of_check guard with
      | attach | desync => rfl
      | sync _ hs => exact h b hb' hlac' (.inl hs)
      | _ => rcases hatt with hatt | hatt <;> cases hatt
    · have hne : (w.port b).portIndex ≠ (w.port a).portIndex :=
        fun heq => hba (hc.index_inj hb' ha heq)
      exact hsame (if_neg hne) (congrArg LacpPort.mux (if_neg hba))

/-- As long as no attached port is moved, `tid` follows `agg_id`. -/
theorem effect (hc : Coherent E w) (h : TidFollows w) {c : Call}
    (heffect : Effect (fun w c => c.KeepsAttached w) c (E, w) (E', w')) : TidFollows w' := by
  rcases heffect.hop_or_written hc with hop | ⟨htid, hports⟩
  · exact h.hop hc hop
  · intro b hb hlac hatt
    rcases hports b hb with ⟨hb', hwritten⟩ | ⟨rfl, sysMac, i, hnew⟩
    · have hindex : (w'.port b).portIndex = (w.port b).portIndex := portIndex_of_core hwritten.core
      have hmux : (w'.port b).mux = (w.port b).mux := by
        have hcore := hwritten.core
        simp only [LacpPort.core, Prod.mk.injEq] at hcore
        exact hcore.2.2.2.1
      have hatt' : (w.port b).Attached := by rwa [LacpPort.Attached, ← hmux]
      rw [htid, hindex]
      rcases heffect.membership hb' hlac with ⟨hagg, hlac'⟩ | ⟨slot, port, sysMac, rfl, hi, hq, hok⟩
      · rw [hagg]
        exact h b hb' hlac' hatt'
      · have hlac' : (w.port b).lacpEnabled = true := by
          by_contra hoff
          exact (hc.portQuiet hq hb').not_attached_of_off (by simpa using hoff) hatt'
        rw [h b hb' hlac' hatt']
        exact hok hlac' b hb' hi hatt'
    · rw [hnew] at hlac
      cases hlac

end TidFollows

/-- In every state of a run that never moves an attached port, `tid` follows `agg_id`. -/
theorem reachableBy_attachmentFollows (w : World)
    (h : ReachableBy (fun w c => c.KeepsAttached w) w) : AttachmentFollows w := by
  have htid : TidFollows w := h.invariant_of_effects (P := fun _ => TidFollows)
    (fun _ _ ha => nomatch ha) fun hc hP heffect => hP.effect hc heffect
  refine ⟨fun a ha => ?_, h.coherent.1.absent⟩
  split
  · rename_i hatt
    exact htid a ha ((h.port ha).1.enabled (Set.notMem_empty _)) hatt
  · rename_i hatt
    exact (h.port ha).1.unattached hatt

theorem aggregationRun_attachmentFollows :
    ∃ w, ReachableBy (fun w c => c.KeepsAttached w) w ∧ bothForward w = true ∧
      AttachmentFollows w := by
  have hrun : (runCalls (fun w c => decide (c.KeepsAttached w)) 25 (initWorld 77)
      aggregationRun).any bothForward = true := by decide +kernel
  obtain ⟨w, h, _, hboth⟩ := exists_reachableBy_of_runCalls (by decide)
    (fun _ _ htest => of_decide_eq_true htest) hrun
  exact ⟨w, h, hboth, reachableBy_attachmentFollows w h⟩

/-- Port 1 of slot 0 is attached in link group 1, and is then enabled in link group 2. -/
def moveAttachedRun : List Call :=
  [.setPortLinkStatus 0 1, .portLacpEnable 0 1 1 .zero, .rxLacpdu 0 1 (peerFrame 3 1),
    .oneSecond, .oneSecond, .oneSecond, .portLacpEnable 0 1 2 .zero]

/-- The moved port forwards in its new group while the hardware has it in the old one. -/
theorem not_reachable_attachmentFollows : ¬ ∀ w, Reachable w → AttachmentFollows w := by
  intro hall
  have hrun : (runCalls (fun _ _ => true) 25 (initWorld 77) moveAttachedRun).any (fun w =>
      decide (0 ∈ w.sys.ports) && decide ((w.port 0).mux.state = .rxTx)
        && decide ((w.gPortList (w.port 0).portIndex).tid = 1)
        && decide ((w.port 0).aggId = 2)) = true := by decide +kernel
  obtain ⟨w, h, _, hstate⟩ := exists_reachableBy_of_runCalls (R := fun _ _ => True) (by decide)
    (fun _ _ _ => trivial) hrun
  simp only [Bool.and_eq_true, decide_eq_true_iff] at hstate
  obtain ⟨⟨⟨ha, hmux⟩, htid⟩, hagg⟩ := hstate
  have hfollows := (hall w h).1 0 ha
  rw [htid, hagg, if_pos (.inr hmux)] at hfollows
  exact absurd hfollows (by decide)

end Lacp
