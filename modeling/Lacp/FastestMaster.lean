import Lacp.Database
import Lacp.PortWrites
import Lacp.Ranking
import Lacp.Reachability

/-!
# The fastest master

Reference: `select_master_port`, `trunk_ssp_set_port_speed`, `trunk_ssp_set_port_duplex`,
`lacp_port_link_change` and the "add to agg" of `lacp_port_set_cfg`.

The election compares the speeds that `lacp_port_link_change` has copied out of `g_port_list`. Setting a
speed or a duplex value writes to `g_port_list` and has the group select anew, with the old copies. A port
that is enabled in another group has its new group select anew, and not the one it leaves.
`Call.RefreshesMasters` excludes both, and then a port that has a master has the fastest one.
-/

namespace Lacp

open Relation (ReflTransGen)

/-- No member of a group that works, at a duplex value other than zero in `g_port_list`, is faster there
than a master of the group that works. -/
def MasterFastest (w : World) : Prop :=
  ∀ a ∈ w.sys.ports, (w.port a).lacpEnabled = true → (w.port (w.port a).masterPort).portEnabled = true →
    ∀ q ∈ w.sys.ports, (w.port q).lacpEnabled = true → (w.port q).aggId = (w.port a).aggId →
      (w.port q).portEnabled = true → (w.gPortList (w.port q).portIndex).duplex ≠ 0 →
        (w.gPortList (w.port q).portIndex).speed ≤
          (w.gPortList (w.port (w.port a).masterPort).portIndex).speed

/-- The speed set for a port that works is the one it has copied, a port that works with a copied duplex
value of zero gets no other one, and a port that moves to another group is no other port's master. -/
def Call.RefreshesMasters (w : World) : Call → Prop
  | .portSetSpeed slot port speed => ∀ a ∈ w.sys.ports, (w.port a).portIndex = globalIndex slot port →
    (w.port a).portEnabled = true → speed = (w.port a).speed
  | .portSetDuplex slot port duplex => ∀ a ∈ w.sys.ports, (w.port a).portIndex = globalIndex slot port →
    (w.port a).portEnabled = true → duplex ≠ 0 → (w.port a).duplex ≠ 0
  | .portLacpEnable slot port aggId _ => ∀ a ∈ w.sys.ports,
    (w.port a).portIndex = globalIndex slot port → (w.port a).aggId = aggId ∨
      ∀ b ∈ w.sys.ports, b ≠ a → (w.port b).masterPort ≠ a
  | _ => True

instance (w : World) : (c : Call) → Decidable (c.RefreshesMasters w)
  | .portSetSpeed _ _ _ | .portSetDuplex _ _ _ | .portLacpEnable _ _ _ _ =>
    inferInstanceAs (Decidable (∀ a ∈ w.sys.ports, _ → _))
  | .sysSetPrio _ | .sysSetLongPeriod _ | .sysSetShortPeriod _ | .sysSetPeriod _
  | .portLacpDisable _ _ | .aggDelete _ | .portSetPrio _ _ _ | .portLinkChange _ _ _
  | .portClearStat _ _ | .setPortLinkStatus _ _ | .rxLacpdu _ _ _ | .oneSecond => isTrue trivial

/-! ## The copies -/

/-- A port that works has a copy of its speed, and of a duplex value other than zero. -/
structure CopyCurrent (attr : PortAttr) (p : LacpPort) : Prop where
  speed : p.portEnabled = true → p.speed = attr.speed
  duplex : p.portEnabled = true → attr.duplex ≠ 0 → p.duplex ≠ 0

/-- The ports that do not leave have current copies. -/
def CopiesCurrent (c : Call) (E : Set ℕ) (w : World) : Prop :=
  ∀ a ∈ w.sys.ports, (w.port a).portIndex ∉ E ∨ c.isJoin = true →
    CopyCurrent (w.gPortList (w.port a).portIndex) (w.port a)

section Copies

variable {R : World → Call → Prop} {c : Call} {E E' : Set ℕ} {w w' : World} {b : Addr} {p q : LacpPort}
  {attr attr' : PortAttr}

theorem CopyCurrent.congr (h : CopyCurrent attr p) (hup : q.portEnabled = p.portEnabled)
    (hspeed : q.speed = p.speed) (hduplex : q.duplex = p.duplex) (hattr : attr'.speed = attr.speed)
    (hattr' : attr'.duplex = attr.duplex) : CopyCurrent attr' q := by
  constructor
  · rw [hup, hspeed, hattr]
    exact h.speed
  · rw [hup, hduplex, hattr']
    exact h.duplex

/-- A link change takes the copies, and no other write touches them. -/
theorem CopyCurrent.write (h : CopyCurrent (w.gPortList (w.port b).portIndex) (w.port b))
    (hwrite : PortWrite R c E w b q) : CopyCurrent (w.gPortList (w.port b).portIndex) q := by
  cases hwrite with
  | link =>
    simp only [linkChangedPort]
    split
    · exact ⟨fun _ => rfl, fun _ hne => hne⟩
    · exact ⟨fun _ => rfl, fun _ hne => hne⟩
  | same | deselect | prio | stat | receive | moved | tick | notify | leave =>
    exact h.congr rfl rfl rfl rfl rfl

/-- Setting a speed or a duplex value keeps the copies current, if it changes nothing of weight. -/
theorem CopyCurrent.reselect {i : ℕ} (h : CopyCurrent (w.gPortList i) (w.port b)) (hb : b ∈ w.sys.ports)
    (hindex : (w.port b).portIndex = i) (hcall : c.target = some i) (hok : c.RefreshesMasters w) :
    CopyCurrent (c.newAttr w i) (w.port b) := by
  cases c with
  | portSetSpeed slot port speed =>
    have hname : (w.port b).portIndex = globalIndex slot port := hindex.trans (Option.some.inj hcall).symm
    exact ⟨fun hup => (hok b hb hname hup).symm, h.duplex⟩
  | portSetDuplex slot port duplex =>
    have hname : (w.port b).portIndex = globalIndex slot port := hindex.trans (Option.some.inj hcall).symm
    exact ⟨h.speed, hok b hb hname⟩
  | _ => exact h

theorem CopiesCurrent.effect (hc : Coherent E w) (h : CopiesCurrent c E w)
    (heffect : Effect (fun w c => c.RefreshesMasters w) c (E, w) (E', w')) : CopiesCurrent c E' w' := by
  intro b hb hbE
  cases heffect.cases hc with
  | hop hop hE =>
    have hb' : b ∈ w.sys.ports := hop.engineHop.sys_eq ▸ hb
    have hsettings := hop.engineHop.settings_eq b
    have hindex := hop.engineHop.portIndex_eq b
    rw [hindex] at hbE ⊢
    obtain ⟨hspeed, hduplex, -⟩ :=
      PortAttr.of_configured_eq (hop.engineHop.configured_eq (w.port b).portIndex)
    exact (h b hb' (hE ▸ hbE)).congr (congrArg PortSettings.portEnabled hsettings)
      (congrArg PortSettings.speed hsettings) (congrArg PortSettings.duplex hsettings) hspeed hduplex
  | setSys _ _ hE _ hw =>
    have hb' : b ∈ w.sys.ports := hw.ports ▸ hb
    rw [hw.port b hb', hw.entry _ (Set.notMem_empty _)]
    exact (h b hb' (.inl (by rw [hE]; exact Set.notMem_empty _))).congr rfl rfl rfl rfl rfl
  | write _ _ _ hports =>
    cases hports b hb with
    | write hb' hwrite hentry =>
      have hindex := hwrite.portIndex_eq
      rw [hindex] at hbE ⊢
      rcases hbE with hbE | hjoin
      · obtain ⟨hbE', hsame⟩ := hentry hbE
        exact ((h b hb' (.inl hbE')).write hwrite).congr rfl rfl rfl hsame.speed hsame.duplex
      · obtain ⟨hspeed, hduplex, -⟩ :=
          PortAttr.of_configured_eq (heffect.configured_eq hjoin (w.port b).portIndex)
        exact ((h b hb' (.inr hjoin)).write hwrite).congr rfl rfl rfl hspeed hduplex
    | join hb' hcall _ _ _ _ _ hattr hport =>
      subst hcall
      rw [hport, hattr]
      exact (h b hb' (.inr rfl)).congr rfl rfl rfl rfl rfl
    | reselect hb' hcall _ hE hok _ hattr hport =>
      have hcopy := h b hb' (.inl (by rw [hE]; exact Set.notMem_empty _))
      rw [hport]
      show CopyCurrent (w'.gPortList (w.port b).portIndex) _
      rw [hattr]
      exact (hcopy.reselect hb' rfl hcall hok).congr rfl rfl rfl rfl rfl
    | create _ _ _ _ _ _ hport =>
      rw [hport]
      constructor
      · intro hup
        cases hup
      · intro hup
        cases hup

end Copies

/-! ## The masters -/

/-- What the election reads of a port, but for the priorities. -/
def LacpPort.candidacy (p : LacpPort) : Bool × Bool × ℕ × UInt32 × UInt32 :=
  (p.portEnabled, p.lacpEnabled, p.aggId, p.speed, p.duplex)

/-- The port at `m` is in the group, and if it works no electable member of the group is faster. -/
structure Leads (w : World) (g : ℕ) (m : Addr) : Prop where
  listed : m ∈ w.sys.ports
  aggId : (w.port m).aggId = g
  fastest : (w.port m).portEnabled = true → ∀ q ∈ w.sys.ports, Eligible g (w.port q) →
    (w.port q).speed ≤ (w.port m).speed

/-- The master of every selected port leads its group. -/
def MastersLead (w : World) : Prop :=
  ∀ a ∈ w.sys.ports, (w.port a).lacpEnabled = true → (w.port a).selected = true →
    Leads w (w.port a).aggId (w.port a).masterPort

section Masters

variable {c : Call} {E E' : Set ℕ} {w w' : World} {a b m : Addr} {g : ℕ}

theorem LacpPort.eligible_congr {p q : LacpPort} (h : q.candidacy = p.candidacy) :
    Eligible g q ↔ Eligible g p := by
  simp only [candidacy, Prod.mk.injEq] at h
  obtain ⟨hup, hlac, hagg, -, hduplex⟩ := h
  constructor
  · rintro ⟨h1, h2, h3, h4⟩
    exact ⟨hagg ▸ h1, hup ▸ h2, hlac ▸ h3, hduplex ▸ h4⟩
  · rintro ⟨h1, h2, h3, h4⟩
    exact ⟨hagg ▸ h1, hup ▸ h2, hlac ▸ h3, hduplex ▸ h4⟩

/-- The elected port leads; where there is none, no member is electable and every one leads. -/
theorem leads_electedMaster (hb : b ∈ w.sys.ports) (hg : (w.port b).aggId = g) :
    Leads w g ((electedMaster w g).getD b) := by
  cases hbest : electedMaster w g with
  | none =>
    exact ⟨hb, hg, fun _ q hq heligible => absurd heligible (electedMaster_eq_none.mp hbest q hq)⟩
  | some best =>
    obtain ⟨hlisted, hagg, -⟩ := electedMaster_eq_some hbest
    refine ⟨hlisted, hagg, fun _ q hq heligible => ?_⟩
    rw [electedMaster_eq_argmin] at hbest
    have hrank := List.le_of_mem_argmin (mem_eligibleMembers.mpr ⟨hq, heligible⟩) hbest
    have hslower := not_lt.mpr hrank
    rw [electionRank_lt] at hslower
    exact UInt32.not_lt.mp fun hlt => hslower (.inl hlt)

/-- A port goes on leading a group no member of which has changed and to which none was added. -/
theorem Leads.of_kept (h : Leads w g m) (hm : m ∈ w'.sys.ports) (hmagg : (w'.port m).aggId = g)
    (hkept : ∀ q ∈ w'.sys.ports, (w'.port q).aggId = g →
      q ∈ w.sys.ports ∧ (w'.port q).candidacy = (w.port q).candidacy) : Leads w' g m := by
  refine ⟨hm, hmagg, fun hup q hq heligible => ?_⟩
  obtain ⟨-, hsame⟩ := hkept m hm hmagg
  obtain ⟨hq', hsameq⟩ := hkept q hq heligible.aggId
  have hfast := h.fastest ((congrArg Prod.fst hsame).symm.trans hup) q hq'
    ((LacpPort.eligible_congr hsameq).mp heligible)
  simp only [LacpPort.candidacy, Prod.mk.injEq] at hsame hsameq
  rw [hsame.2.2.2.1, hsameq.2.2.2.1]
  exact hfast

/-- A hop deselects ports, or has their group elect a master. -/
theorem PortHop.elects {q : LacpPort} (h : PortHop w b q) (hlac : (w.port b).lacpEnabled = true)
    (hsel : q.selected = true) :
    (w.port b).selected = true ∧ q.masterPort = (w.port b).masterPort ∨
      b ∈ w.sys.ports ∧ q.masterPort = (electedMaster w (w.port b).aggId).getD b := by
  cases h with
  | select hb => exact .inr ⟨hb, rfl⟩
  | same | selAlone => exact .inl ⟨hsel, rfl⟩
  | deselect => cases hsel
  | selDisabled _ _ hoff => exact absurd (hoff.symm.trans hlac) (by simp)
  | @rx s =>
    cases s with
    | defaulted | current => exact .inl ⟨(Bool.and_eq_true_iff.mp hsel).1, rfl⟩
    | expired => exact .inl ⟨hsel, rfl⟩
    | _ => cases hsel
  | @mux s | @tx s => cases s <;> exact .inl ⟨hsel, rfl⟩

theorem candidacy_of_settings {p q : LacpPort} (h : q.settings = p.settings) :
    q.candidacy = p.candidacy := by
  simp only [LacpPort.settings, PortSettings.mk.injEq] at h
  simp only [LacpPort.candidacy, h]

theorem MastersLead.hop (h : MastersLead w) (hop : EngineHop w w') : MastersLead w' := by
  intro b hb hlac hsel
  have hports : w'.sys.ports = w.sys.ports := congrArg LacpSys.ports hop.sys_eq
  have hsame : ∀ q, (w'.port q).candidacy = (w.port q).candidacy := fun q =>
    candidacy_of_settings (hop.settings_eq q)
  have hagg : ∀ q, (w'.port q).aggId = (w.port q).aggId := fun q =>
    congrArg PortSettings.aggId (hop.settings_eq q)
  have hlac' : (w.port b).lacpEnabled = true :=
    (congrArg PortSettings.lacpEnabled (hop.settings_eq b)).symm.trans hlac
  have hb' : b ∈ w.sys.ports := hports ▸ hb
  have hleads : Leads w (w.port b).aggId (w'.port b).masterPort := by
    rcases (hop.portHop b).elects hlac' hsel with ⟨hsel', hmaster⟩ | ⟨-, hmaster⟩
    · rw [hmaster]
      exact h b hb' hlac' hsel'
    · rw [hmaster]
      exact leads_electedMaster hb' rfl
  rw [hagg b]
  refine hleads.of_kept (hports ▸ hleads.listed) ((hagg _).trans hleads.aggId) fun q hq _ => ?_
  exact ⟨hports ▸ hq, hsame q⟩

/-- A write after which the masters of the selected ports are still in their groups, and nothing has been
added to these groups. -/
theorem MastersLead.update {s : LacpSys} {t : Set ℕ} {f : Addr → LacpPort → LacpPort}
    (h : MastersLead w) (hw : Update w w' s t f) (hwritten : ∀ b p, Written p (f b p))
    (hmaster : ∀ r ∈ w.sys.ports, (w.port r).lacpEnabled = true → (f r (w.port r)).selected = true →
      ∀ m, (w.port r).masterPort = m → (w.port m).aggId = (w.port r).aggId →
        (f m (w.port m)).aggId = (w.port r).aggId)
    (hkept : ∀ r ∈ w.sys.ports, (w.port r).lacpEnabled = true → (f r (w.port r)).selected = true →
      ∀ q, (f q (w.port q)).aggId = (w.port r).aggId →
        (f q (w.port q)).candidacy = (w.port q).candidacy) : MastersLead w' := by
  intro b hb hlac hsel
  have hb' : b ∈ w.sys.ports := hw.ports ▸ hb
  rw [hw.port b hb'] at hlac hsel ⊢
  obtain ⟨hsel', hagg, hlac'⟩ := (hwritten b (w.port b)).selected hsel
  rw [hlac'] at hlac
  rw [hagg, (hwritten b _).masterPort]
  have hleads := h b hb' hlac hsel'
  refine hleads.of_kept (hw.ports ▸ hleads.listed) ?_ fun q hq hqagg => ?_
  · rw [hw.port _ hleads.listed]
    exact hmaster b hb' hlac hsel _ rfl hleads.aggId
  · have hq' : q ∈ w.sys.ports := hw.ports ▸ hq
    rw [hw.port q hq'] at hqagg ⊢
    exact ⟨hq', hkept b hb' hlac hsel q hqagg⟩

/-- A write that the election does not see. -/
theorem MastersLead.unseen {s : LacpSys} {t : Set ℕ} {f : Addr → LacpPort → LacpPort}
    (h : MastersLead w) (hw : Update w w' s t f) (hwritten : ∀ b p, Written p (f b p))
    (hsame : ∀ b p, (f b p).candidacy = p.candidacy) : MastersLead w' := by
  refine h.update hw hwritten (fun r _ _ _ m _ hm => ?_) fun _ _ _ _ q _ => hsame q _
  exact (congrArg (fun v => v.2.2.1) (hsame m (w.port m))).trans hm

/-- The port at `a` is written and its new group deselected. No other port that stays selected follows it,
and it joins none of their groups. -/
theorem MastersLead.reconfigured {s : LacpSys} {t : Set ℕ} {u : LacpPort → LacpPort} (h : MastersLead w)
    (hw : Update w w' s t (reconfigured a g u)) (hself : ∀ p, Written p { u p with selected := false })
    (hfollows : ∀ r ∈ w.sys.ports, (w.port r).lacpEnabled = true → r ≠ a → (w.port r).aggId ≠ g →
      (w.port r).masterPort = a → (w.port a).aggId ≠ (w.port r).aggId)
    (hjoins : ∀ r ∈ w.sys.ports, (w.port r).lacpEnabled = true → (w.port r).aggId ≠ g →
      (u (w.port a)).aggId ≠ (w.port r).aggId) : MastersLead w' := by
  -- a port that stays selected is not the one that is written, nor in the group
  have hout : ∀ r, (Lacp.reconfigured a g u r (w.port r)).selected = true →
      r ≠ a ∧ (w.port r).aggId ≠ g := by
    intro r hsel
    refine ⟨fun hra => ?_, fun hrg => ?_⟩
    · rw [Lacp.reconfigured, if_pos hra] at hsel
      cases hsel
    · simp only [Lacp.reconfigured, if_pos hrg] at hsel
      split at hsel <;> cases hsel
  have hother : ∀ q, q ≠ a → (Lacp.reconfigured a g u q (w.port q)).candidacy = (w.port q).candidacy := by
    intro q hqa
    rw [Lacp.reconfigured, if_neg hqa]
    split <;> rfl
  refine h.update hw (fun _ p => .reconfigured (hself p) g) (fun r hr hlac hsel m hrm hm => ?_)
    fun r hr hlac hsel q hq => ?_
  · obtain ⟨hra, hrg⟩ := hout r hsel
    have hma : m ≠ a := by
      rintro rfl
      exact hfollows r hr hlac hra hrg hrm hm
    exact (congrArg (fun v => v.2.2.1) (hother m hma)).trans hm
  · obtain ⟨hra, hrg⟩ := hout r hsel
    refine hother q fun hqa => ?_
    subst hqa
    rw [Lacp.reconfigured, if_pos rfl] at hq
    exact hjoins r hr hlac hrg hq

/-- A port is created, and is in no group. -/
theorem MastersLead.create (hc : Coherent ∅ w) (h : MastersLead w) {sysMac : LacpMac} {i : ℕ}
    (hw : lacpPortCreate w sysMac i = some w') : MastersLead w' := by
  obtain ⟨_, rfl⟩ := lacpPortCreate_eq_some hw
  intro b hb hlac hsel
  rcases List.mem_cons.mp hb with rfl | hb'
  · rw [withCreated_port_self] at hlac
    cases hlac
  · rw [hc.withCreated_port hb'] at hlac hsel ⊢
    have hleads := h b hb' hlac hsel
    refine hleads.of_kept (List.mem_cons_of_mem _ hleads.listed) ?_ fun q hq hqagg => ?_
    · rw [hc.withCreated_port hleads.listed]
      exact hleads.aggId
    · rcases List.mem_cons.mp hq with rfl | hq'
      · rw [withCreated_port_self] at hqagg
        exact absurd hqagg.symm (hc.aggId_ne_zero hb' hlac)
      · exact ⟨hq', by rw [hc.withCreated_port hq']⟩

/-- The ports that left are taken off the list. None of them is in a group. -/
theorem MastersLead.remove (hc : Coherent E w) (h : MastersLead w)
    (hleft : ∀ a ∈ w.sys.ports, (w.port a).portIndex ∈ E → (w.port a).lacpEnabled = false)
    (hports : w'.sys.ports.Sublist w.sys.ports)
    (hmem : ∀ a ∈ w.sys.ports, a ∈ w'.sys.ports ↔ (w.port a).portIndex ∉ E)
    (hw : w' = { w with sys := w'.sys }) : MastersLead w' := by
  have hport : w'.port = w.port := by rw [hw]
  intro b hb hlac hsel
  rw [hport] at hlac hsel ⊢
  have hb' := hports.subset hb
  have hleads := h b hb' hlac hsel
  refine hleads.of_kept ((hmem _ hleads.listed).mpr fun hE => ?_) (by rw [hport]; exact hleads.aggId)
    fun q hq _ => ⟨hports.subset hq, by rw [hport]⟩
  have hon := (hc.port _ hleads.listed).member.mpr (hleads.aggId ▸ hc.aggId_ne_zero hb' hlac)
  exact absurd (hon.symm.trans (hleft _ hleads.listed hE)) (by simp)

/-- Every effect keeps the masters in the lead, if no port moves away from others that follow it. -/
theorem MastersLead.effect (hc : Coherent E w) (h : MastersLead w)
    (heffect : Effect (fun w c => c.RefreshesMasters w) c (E, w) (E', w')) : MastersLead w' := by
  -- a write to a port that stays in its group, or leaves it
  have hwritten : ∀ {a : Addr} {u : LacpPort → LacpPort} {s t},
      Update w w' s t (Lacp.reconfigured a (w.port a).aggId u) →
      (∀ p, Written p { u p with selected := false }) →
      (u (w.port a)).aggId = (w.port a).aggId ∨ (u (w.port a)).aggId = 0 → MastersLead w' := by
    intro a u s t hw hself hagg
    refine h.reconfigured hw hself (fun r _ _ _ hrg _ => hrg.symm) fun r hr hlac hrg => ?_
    rcases hagg with hagg | hagg
    · rw [hagg]
      exact hrg.symm
    · rw [hagg]
      exact (hc.aggId_ne_zero hr hlac).symm
  cases heffect with
  | hop hop => exact h.hop hop
  | rest hw => exact h.unseen hw (fun _ p => .refl p) fun _ _ => rfl
  | store hc => exact h.unseen (update_stubSetPortAttr w rfl rfl) (fun _ p => .refl p) fun _ _ => rfl
  | create _ _ hw => exact h.create hc hw
  | @join _ _ _ a slot port aggId sysMac _ hcall _ ha hindex _ _ hok hw =>
    subst hcall
    refine h.reconfigured hw (fun p => ?_) (fun r hr hlac hra hrg hmaster hagg => ?_)
      fun r _ _ hrg => hrg.symm
    · exact ⟨rfl, rfl, rfl, rfl, rfl, rfl, rfl, fun hsel => by cases hsel⟩
    · have hon := (hc.port a ha).member.mpr (hagg ▸ hc.aggId_ne_zero hr hlac)
      rcases hok hon a ha hindex with heq | hfree
      · exact hrg (hagg.symm.trans heq)
      · exact hfree r hr hra hmaster
  | reselect _ _ _ hw => exact hwritten hw .deselect (.inl rfl)
  | prio _ _ _ hw =>
    refine hwritten hw (fun p => ?_) (.inl rfl)
    exact ⟨rfl, rfl, rfl, rfl, rfl, rfl, rfl, fun hsel => by cases hsel⟩
  | @link _ _ a linkStatus _ _ _ _ hw =>
    refine hwritten hw (fun p => .linkChanged _ _ p) (.inl ?_)
    exact congrArg (fun m => m.2.2) (linkChangedPort_membership _ linkStatus (w.port a))
  | stat _ _ hw | notify _ _ _ hw =>
    refine h.unseen hw (fun _ p => .onlyAt ?_) fun b p => ?_
    · exact ⟨rfl, rfl, rfl, rfl, rfl, rfl, rfl, fun hsel => ⟨hsel, rfl, rfl⟩⟩
    · simp only [onlyAt]
      split <;> rfl
  | receive _ _ _ _ _ _ _ _ hw =>
    refine h.unseen hw (fun _ p => .received _ _) fun b p => ?_
    simp only [received]
    repeat' split
    all_goals rfl
  | setSys _ _ hw | tick _ _ hw =>
    refine h.unseen hw (fun _ p => ?_) fun _ _ => rfl
    exact ⟨rfl, rfl, rfl, rfl, rfl, rfl, rfl, fun hsel => ⟨hsel, rfl, rfl⟩⟩
  | unlink _ _ _ _ hw => exact h.unseen hw (fun _ p => .refl p) fun _ _ => rfl
  | leave _ _ _ _ _ hw =>
    refine hwritten hw (fun p => ?_) (.inr rfl)
    exact ⟨rfl, rfl, rfl, rfl, rfl, rfl, rfl, fun hsel => by cases hsel⟩
  | remove _ _ hleft hports hmem _ hw => exact h.remove hc hleft hports hmem hw

end Masters

/-! ## Runs -/

/-- In every run in which no setting overtakes a copy and no port moves away from others that follow it,
every master is the fastest port of its group, as `g_port_list` has the speeds now. -/
theorem reachableBy_masterFastest {w : World} (h : ReachableBy (fun w c => c.RefreshesMasters w) w) :
    MasterFastest w := by
  have hcopies : ∀ a ∈ w.sys.ports, CopyCurrent (w.gPortList (w.port a).portIndex) (w.port a) := by
    refine h.invariant_of_calls
      (Q := fun w => ∀ a ∈ w.sys.ports, CopyCurrent (w.gPortList (w.port a).portIndex) (w.port a))
      (P := fun _ c E w => CopiesCurrent c E w) (fun _ _ ha => absurd ha List.not_mem_nil)
      (fun _ _ hQ _ _ a ha _ => hQ a ha) (fun _ _ hc hP heffect => hP.effect hc heffect)
      fun _ _ _ _ hP a ha => hP a ha (.inl (Set.notMem_empty _))
  have hmasters : MastersLead w := h.invariant_of_effects (P := fun _ w => MastersLead w)
    (fun _ _ ha => absurd ha List.not_mem_nil) fun hc hP heffect => hP.effect hc heffect
  intro a ha hlac hup q hq hqlac hqagg hqup hqduplex
  have hleads := hmasters a ha hlac (h.port ha).2.selected
  have hcopy := hcopies q hq
  have hfast := hleads.fastest hup q hq ⟨hqagg, hqup, hqlac, hcopy.duplex hqup hqduplex⟩
  rw [hcopy.speed hqup, (hcopies _ hleads.listed).speed hup] at hfast
  exact hfast

/-- Port 2 gets a higher speed while its link is down, and takes the lead when it comes up. -/
theorem speedRun_masterFastest :
    ∃ w, ReachableBy (fun w c => c.RefreshesMasters w) w ∧ w.sys.ports = [1, 0] ∧
      (w.port 0).masterPort = 1 ∧ (w.port 1).portEnabled = true ∧ MasterFastest w := by
  have hrun : (runCalls (fun w c => decide (c.RefreshesMasters w)) 25 (initWorld 77)
      [.portLacpEnable 0 1 1 .zero, .portLacpEnable 0 2 1 .zero, .portLinkChange 0 1 1,
        .portSetSpeed 0 2 10000, .portLinkChange 0 2 1]).any (fun w =>
          decide (w.sys.ports = [1, 0]) && decide ((w.port 0).masterPort = 1) && (w.port 1).portEnabled)
        = true := by
    decide +kernel
  obtain ⟨w, h, _, hw⟩ := exists_reachableBy_of_runCalls (R := fun w c => c.RefreshesMasters w)
    (by decide) (fun _ _ htest => of_decide_eq_true htest) hrun
  simp only [Bool.and_eq_true, decide_eq_true_iff] at hw
  exact ⟨w, h, hw.1.1, hw.1.2, hw.2, reachableBy_masterFastest h⟩

/-- Port 2 gets a higher speed while its link is up: port 1 stays its master. -/
theorem not_reachable_masterFastest : ¬ ∀ w, Reachable w → MasterFastest w := by
  have hrun : (runCalls (fun _ _ => true) 25 (initWorld 77)
      [.portLacpEnable 0 1 1 .zero, .portLacpEnable 0 2 1 .zero, .portLinkChange 0 1 1,
        .portLinkChange 0 2 1, .portSetSpeed 0 2 10000]).any (fun w =>
          decide (w.sys.ports = [1, 0]) && (w.port 1).lacpEnabled && decide ((w.port 1).masterPort = 0) &&
            (w.port 0).portEnabled && (w.port 1).portEnabled &&
            decide ((w.gPortList (w.port 1).portIndex).duplex ≠ 0) &&
            decide ((w.gPortList (w.port 0).portIndex).speed < (w.gPortList (w.port 1).portIndex).speed))
        = true := by
    decide +kernel
  obtain ⟨w, h, _, hw⟩ := exists_reachableBy_of_runCalls (R := fun _ _ => True) (by decide)
    (fun _ _ _ => trivial) hrun
  simp only [Bool.and_eq_true, decide_eq_true_iff] at hw
  obtain ⟨⟨⟨⟨⟨⟨hports, hlac⟩, hmaster⟩, hup⟩, hup'⟩, hduplex⟩, hslow⟩ := hw
  have hlisted : 1 ∈ w.sys.ports := by
    rw [hports]
    exact List.mem_cons_self
  intro hall
  have hfast := hall w h 1 hlisted hlac (by rw [hmaster]; exact hup) 1 hlisted hlac rfl hup' hduplex
  rw [hmaster] at hfast
  exact UInt32.not_lt.mpr hfast hslow

end Lacp
