import Lacp.PortStates

/-!
# Master ports

`master_port` is written by the selection of a group, and by nothing else. Removing a port does not
look for references to it: `lacp_port_set_cfg` has its group select a master anew before the port is
taken off the list. The ports that follow a removed port are reselected with it as long as some removed
port is in their group (`reachableBy_noDanglingMaster`). `trunk_port_lacp_enable` on a listed port
reselects the group it joins but not the one it leaves, so that the ports it leaves behind may follow a
port of another group; removing that one leaves them with a dangling master
(`not_reachable_noDanglingMaster`).
-/

namespace Lacp

/-- The master of every listed port is a listed port. -/
def NoDanglingMaster (w : World) : Prop := ∀ a ∈ w.sys.ports, (w.port a).masterPort ∈ w.sys.ports

instance (w : World) (i : ℕ) : (c : Call) → Decidable (i ∈ c.removes w)
  | .portLacpDisable slot port => inferInstanceAs (Decidable (i = globalIndex slot port))
  | .aggDelete aggId => inferInstanceAs (Decidable
    (trunkGetPbmp (i / 8) (i % 8 + 1) (stubDbAggGetMember w aggId) = true))
  | .sysSetPrio _ | .sysSetLongPeriod _ | .sysSetShortPeriod _ | .sysSetPeriod _
  | .portLacpEnable _ _ _ _ | .portSetPrio _ _ _ | .portSetSpeed _ _ _ | .portSetDuplex _ _ _
  | .portLinkChange _ _ _ | .portClearStat _ _ | .setPortLinkStatus _ _ | .rxLacpdu _ _ _
  | .oneSecond => isFalse id

/-- Every remaining port whose master the call removes is in the group of a port the call removes. -/
def Call.ReselectsFollowers (w : World) (c : Call) : Prop :=
  ∀ r ∈ w.sys.ports, (w.port r).portIndex ∉ c.removes w →
    (w.port (w.port r).masterPort).portIndex ∈ c.removes w →
    ∃ e ∈ w.sys.ports, (w.port e).portIndex ∈ c.removes w ∧ (w.port e).aggId = (w.port r).aggId

instance (w : World) (c : Call) : Decidable (c.ReselectsFollowers w) :=
  inferInstanceAs (Decidable (∀ r ∈ _, _))

/-- Masters are listed, and a port whose master is being removed is about to be reselected: it is
deselected already, or a port that has yet to leave is in its group. -/
structure MastersListed (E : Set ℕ) (w : World) : Prop where
  listed : ∀ a ∈ w.sys.ports, (w.port a).masterPort ∈ w.sys.ports
  leaving : ∀ r ∈ w.sys.ports, (w.port r).portIndex ∉ E →
    (w.port (w.port r).masterPort).portIndex ∈ E →
    (w.port r).selected = false ∨ ∃ e ∈ w.sys.ports, (w.port e).portIndex ∈ E ∧
      (w.port e).lacpEnabled = true ∧ (w.port e).aggId = (w.port r).aggId

section Hop

variable {E : Set ℕ} {w w' : World} {b : Addr}

/-- A hop keeps the master of a port or sets it to the one elected by its group. It selects no port
without an election, but for ports that left their group. -/
theorem PortHop.masterPort (hc : Coherent E w) {q : LacpPort} (h : PortHop w b q) :
    (q.masterPort = (w.port b).masterPort ∧
        (q.selected = true → (w.port b).selected = true ∨ (w.port b).portIndex ∈ E)) ∨
      q.masterPort = (electedMaster w (w.port b).aggId).getD b := by
  cases h with
  | select => exact .inr rfl
  | same | selAlone => exact .inl ⟨rfl, .inl⟩
  | deselect => exact .inl ⟨rfl, fun hsel => by cases hsel⟩
  | selDisabled hb _ hlac =>
    -- a port that does not run LACP is exempt
    have hE : (w.port b).portIndex ∈ E := by
      by_contra hE
      exact absurd ((hc.port b hb).enabled hE) (by simp [hlac])
    exact .inl ⟨rfl, fun _ => .inr hE⟩
  | @rx s =>
    refine .inl ?_
    cases s with
    | defaulted | current => exact ⟨rfl, fun hsel => .inl (Bool.and_eq_true_iff.mp hsel).1⟩
    | expired => exact ⟨rfl, .inl⟩
    | _ => exact ⟨rfl, fun hsel => by cases hsel⟩
  | @mux s | @tx s =>
    refine .inl ?_
    cases s <;> exact ⟨rfl, .inl⟩

end Hop

namespace MastersListed

variable {E E' : Set ℕ} {w w' : World} {a : Addr}

/-- Every hop keeps masters listed. -/
theorem hop (hc : Coherent E w) (h : MastersListed E w) (hop : EngineHop w w') :
    MastersListed E w' := by
  have hports := hop.ports_eq
  have hindex := hop.portIndex_eq
  have hlac := hop.lacpEnabled_eq
  have hagg := hop.aggId_eq
  refine ⟨fun b hb => ?_, fun r hr hE hmaster => ?_⟩
  · rw [hports] at hb ⊢
    rcases (hop.portHop b).masterPort hc with ⟨hkept, _⟩ | helected
    · rw [hkept]
      exact h.listed b hb
    · rw [helected]
      exact getD_electedMaster_mem hb
  · rw [hports] at hr ⊢
    simp only [hindex, hlac, hagg] at hE hmaster ⊢
    rcases (hop.portHop r).masterPort hc with ⟨hkept, hsel⟩ | helected
    · rw [hkept] at hmaster
      rcases h.leaving r hr hE hmaster with hout | hgroup
      · refine .inl ?_
        by_contra hin
        rcases hsel (by simpa using hin) with hin' | hE'
        · exact absurd hin' (by simp [hout])
        · exact hE hE'
      · exact .inr hgroup
    -- a master that was just elected runs LACP in the group of its follower
    · rw [helected] at hmaster
      cases hbest : electedMaster w (w.port r).aggId with
      | none =>
        rw [hbest] at hmaster
        exact absurd hmaster hE
      | some best =>
        rw [hbest] at hmaster
        obtain ⟨hin, hbagg, _, hblac, _⟩ := electedMaster_eq_some hbest
        exact .inr ⟨best, hin, hmaster, hblac, hbagg⟩

/-- A write to the ports after which no port is being removed. -/
theorem update (h : MastersListed E w) {s : LacpSys} {t : Set ℕ} {f : Addr → LacpPort → LacpPort}
    (hw : Update w w' s t f) (hf : ∀ b p, (f b p).masterPort = p.masterPort) :
    MastersListed ∅ w' where
  listed := fun b hb => by
    rw [hw.ports] at hb ⊢
    rw [hw.port b hb, hf]
    exact h.listed b hb
  leaving := fun _ _ _ hmaster => absurd hmaster (Set.notMem_empty _)

/-- A write to the ports while ports are being removed. -/
theorem updateLeaving (h : MastersListed E w) {s : LacpSys} {t : Set ℕ}
    {f : Addr → LacpPort → LacpPort} (hw : Update w w' s t f)
    (hwritten : ∀ b p, Written p (f b p))
    (hgroup : ∀ r ∈ w.sys.ports, ∀ e ∈ w.sys.ports, (w.port e).lacpEnabled = true →
      (w.port e).aggId = (w.port r).aggId →
      (f r (w.port r)).selected = false ∨ ((f e (w.port e)).lacpEnabled = true ∧
        (f e (w.port e)).aggId = (f r (w.port r)).aggId)) : MastersListed E w' := by
  refine ⟨fun b hb => ?_, fun r hr hE hmaster => ?_⟩
  · rw [hw.ports] at hb ⊢
    rw [hw.port b hb, (hwritten b _).masterPort]
    exact h.listed b hb
  · rw [hw.ports] at hr ⊢
    have hindex : ∀ b ∈ w.sys.ports, (w'.port b).portIndex = (w.port b).portIndex := by
      intro b hb
      rw [hw.port b hb]
      exact portIndex_of_core (hwritten b _).core
    have hkept : (w'.port r).masterPort = (w.port r).masterPort := by
      rw [hw.port r hr]
      exact (hwritten r _).masterPort
    rw [hkept, hindex _ (h.listed r hr)] at hmaster
    rw [hindex r hr] at hE
    rw [hw.port r hr]
    rcases h.leaving r hr hE hmaster with hout | ⟨e, he, heE, helac, heagg⟩
    · refine .inl ?_
      by_contra hin
      exact absurd ((hwritten r _).selected (by simpa using hin)).1 (by simp [hout])
    · rcases hgroup r hr e he helac heagg with hout | ⟨helac', heagg'⟩
      · exact .inl hout
      · refine .inr ⟨e, he, ?_, ?_, ?_⟩
        · rw [hindex e he]
          exact heE
        · rw [hw.port e he]
          exact helac'
        · rw [hw.port e he]
          exact heagg'

/-- A new port is its own master. -/
theorem create (hc : Coherent ∅ w) (h : MastersListed ∅ w) {sysMac : LacpMac} {i : ℕ}
    (hw : lacpPortCreate w sysMac i = some w') : MastersListed {i} w' := by
  obtain ⟨habsent, rfl⟩ := lacpPortCreate_eq_some hw
  have hold : ∀ b ∈ w.sys.ports, (withCreated w sysMac i).port b = w.port b :=
    fun b hb => hc.withCreated_port hb sysMac i
  refine ⟨fun b hb => ?_, fun r hr hi hmaster => ?_⟩
  · rcases List.mem_cons.mp hb with rfl | hb
    · rw [withCreated_port_self]
      exact List.mem_cons_self
    · rw [hold b hb]
      exact List.mem_cons_of_mem _ (h.listed b hb)
  · rcases List.mem_cons.mp hr with rfl | hr
    · rw [withCreated_port_self] at hi
      exact absurd rfl hi
    · rw [hold r hr, hold _ (h.listed r hr)] at hmaster
      exact absurd hmaster (habsent _ (h.listed r hr))

/-- The database forgets the ports that are to be removed. A follower of one of them has a member of its
own group among them, which will deselect it. -/
theorem unlink (hc : Coherent ∅ w) (h : MastersListed ∅ w) {c : Call} (hok : c.ReselectsFollowers w)
    (hw : Update w w' w.sys (c.removes w) fun _ p => p) : MastersListed (c.removes w) w' := by
  refine ⟨fun b hb => ?_, fun r hr hrE hmaster => ?_⟩
  · rw [hw.ports] at hb ⊢
    rw [hw.port b hb]
    exact h.listed b hb
  · rw [hw.ports] at hr ⊢
    rw [hw.port r hr] at hrE hmaster ⊢
    rw [hw.port _ (h.listed r hr)] at hmaster
    obtain ⟨e, he, heE, heagg⟩ := hok r hr hrE hmaster
    refine .inr ⟨e, he, ?_⟩
    rw [hw.port e he]
    exact ⟨heE, (hc.port e he).enabled (Set.notMem_empty _), heagg⟩

/-- A port leaves: the members of its group are deselected, the other groups stay as they are. -/
theorem leave (h : MastersListed E w)
    (hw : Update w w' w.sys ∅ (reconfigured a (w.port a).aggId leavePort)) : MastersListed E w' := by
  refine h.updateLeaving hw (fun _ p => .reconfigured ?_ _) fun r hr e he helac heagg => ?_
  · exact ⟨rfl, rfl, rfl, rfl, rfl, rfl, rfl, fun hsel => by cases hsel⟩
  · by_cases hra : r = a
    · exact .inl (by simp only [reconfigured, if_pos hra])
    · by_cases hrg : (w.port r).aggId = (w.port a).aggId
      · exact .inl (by simp only [reconfigured, if_neg hra, if_pos hrg])
      · have hea : e ≠ a := fun hea => hrg (hea ▸ heagg).symm
        have heg : (w.port e).aggId ≠ (w.port a).aggId := fun heg => hrg (heagg ▸ heg)
        refine .inr ?_
        simp only [reconfigured, if_neg hra, if_neg hrg, if_neg hea, if_neg heg]
        exact ⟨helac, heagg⟩

/-- The ports that left are taken off the list. The machines are at rest, so every port that stays was
selected anew since. -/
theorem remove (hc : Coherent E w) (h : MastersListed E w) (hq : Quiescent w)
    (hleft : ∀ a ∈ w.sys.ports, (w.port a).portIndex ∈ E → (w.port a).lacpEnabled = false)
    (hports : w'.sys.ports.Sublist w.sys.ports)
    (hmem : ∀ a ∈ w.sys.ports, a ∈ w'.sys.ports ↔ (w.port a).portIndex ∉ E)
    (hw : w' = { w with sys := w'.sys }) : MastersListed ∅ w' := by
  have hport : w'.port = w.port := by rw [hw]
  refine ⟨fun b hb => ?_, fun _ _ _ hmaster => absurd hmaster (Set.notMem_empty _)⟩
  have hb' := hports.subset hb
  rw [hport, hmem _ (h.listed b hb')]
  intro hE
  rcases h.leaving b hb' ((hmem b hb').mp hb) hE with hout | ⟨e, he, heE, helac, _⟩
  · exact absurd (hc.portQuiet hq hb').selected (by simp [hout])
  · exact absurd helac (by simp [hleft e he heE])

/-- Every effect keeps masters listed, if removals reselect the followers of removed ports. -/
theorem effect (hc : Coherent E w) (h : MastersListed E w) {c : Call}
    (heffect : Effect (fun w c => c.ReselectsFollowers w) c (E, w) (E', w')) :
    MastersListed E' w' := by
  have hsame : ∀ {s t}, Update w w' s t (fun _ p => p) → MastersListed E w' := fun hw =>
    h.updateLeaving hw (fun _ p => .refl p) fun _ _ _ _ hlac hagg => .inr ⟨hlac, hagg⟩
  have hreconfigured : ∀ {u : LacpPort → LacpPort}, (∀ p, (u p).masterPort = p.masterPort) →
      ∀ a g b p, (reconfigured a g u b p).masterPort = p.masterPort := by
    intro u hu a g b p
    simp only [reconfigured]
    split
    · exact hu p
    · split <;> rfl
  cases heffect with
  | hop hop => exact h.hop hc hop
  | rest hw => exact hsame hw
  | store hc => exact hsame (update_stubSetPortAttr w rfl rfl)
  | create _ _ hw => exact h.create hc hw
  | join _ _ _ _ _ _ _ hw | reselect _ _ _ hw | prio _ _ _ hw =>
    refine h.update hw (hreconfigured (fun p => ?_) _ _)
    rfl
  | link _ _ _ _ hw =>
    refine h.update hw (hreconfigured (fun p => ?_) _ _)
    simp only [linkChangedPort]
    split <;> rfl
  | stat _ _ hw =>
    refine h.update hw fun b p => ?_
    simp only [onlyAt]
    split <;> rfl
  | receive _ _ _ _ _ _ _ _ hw =>
    refine h.update hw fun b p => ?_
    simp only [received]
    repeat' split
    all_goals rfl
  | setSys _ _ hw | tick _ _ hw => exact h.update hw fun _ _ => rfl
  | unlink _ hE _ hok hw =>
    subst hE
    exact h.unlink hc hok hw
  | notify _ _ _ hw =>
    have hkept : ∀ a b p, (onlyAt a notifyPort b p).lacpEnabled = p.lacpEnabled ∧
        (onlyAt a notifyPort b p).aggId = p.aggId := by
      intro a b p
      simp only [onlyAt]
      split <;> exact ⟨rfl, rfl⟩
    refine h.updateLeaving hw (fun _ p => .onlyAt ?_) fun r _ e _ hlac hagg => .inr ?_
    · exact ⟨rfl, rfl, rfl, rfl, rfl, rfl, rfl, fun hsel => ⟨hsel, rfl, rfl⟩⟩
    · rw [(hkept _ e _).1, (hkept _ e _).2, (hkept _ r _).2]
      exact ⟨hlac, hagg⟩
  | leave _ _ _ _ _ hw => exact h.leave hw
  | remove _ hq hleft hports hmem _ hw => exact h.remove hc hq hleft hports hmem hw

end MastersListed

/-- In every state of a run whose removals reselect the followers of the removed ports, every master
is a listed port. -/
theorem reachableBy_noDanglingMaster (w : World)
    (h : ReachableBy (fun w c => c.ReselectsFollowers w) w) : NoDanglingMaster w := by
  have hmasters : MastersListed ∅ w := h.invariant_of_effects (P := MastersListed)
    (fun _ => ⟨(fun _ ha => nomatch ha), fun _ ha => nomatch ha⟩)
    fun hc hP heffect => hP.effect hc heffect
  exact hmasters.listed

/-- The master of a link group is disabled, and the other port takes its place. -/
theorem aggregationRun_noDanglingMaster :
    ∃ w, ReachableBy (fun w c => c.ReselectsFollowers w) w ∧ w.sys.ports = [1] ∧
      NoDanglingMaster w := by
  have hrun : (runCalls (fun w c => decide (c.ReselectsFollowers w)) 25 (initWorld 77)
      (aggregationRun ++ [.portLacpDisable 0 1])).any (fun w => decide (w.sys.ports = [1])) = true := by
    decide +kernel
  obtain ⟨w, h, _, hports⟩ := exists_reachableBy_of_runCalls (by decide)
    (fun _ _ htest => of_decide_eq_true htest) hrun
  exact ⟨w, h, of_decide_eq_true hports, reachableBy_noDanglingMaster w h⟩

/-- Port 1 of slot 0 is the master of port 2 in link group 1; it is enabled in link group 2 and then
disabled. -/
def orphanRun : List Call :=
  [.portLacpEnable 0 1 1 .zero, .portLacpEnable 0 2 1 .zero,
    .setPortLinkStatus 0 1, .setPortLinkStatus 1 1, .portLinkChange 0 1 1, .portLinkChange 0 2 1,
    .portLacpEnable 0 1 2 .zero, .portLacpDisable 0 1]

/-- Port 2 still has the removed port as its master. -/
theorem not_reachable_noDanglingMaster : ¬ ∀ w, Reachable w → NoDanglingMaster w := by
  intro hall
  have hrun : (runCalls (fun _ _ => true) 25 (initWorld 77) orphanRun).any (fun w =>
      decide (w.sys.ports = [1]) && decide ((w.port 1).masterPort = 0)) = true := by decide +kernel
  obtain ⟨w, h, _, hstate⟩ := exists_reachableBy_of_runCalls (R := fun _ _ => True) (by decide)
    (fun _ _ _ => trivial) hrun
  simp only [Bool.and_eq_true, decide_eq_true_iff] at hstate
  obtain ⟨hports, hmaster⟩ := hstate
  have hlisted := hall w h 1 (by rw [hports]; exact List.mem_singleton_self 1)
  rw [hmaster, hports] at hlisted
  exact absurd hlisted (by decide)

end Lacp
