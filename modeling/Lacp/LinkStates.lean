import Lacp.Aggregatability
import Lacp.Directory

/-!
# Link states

Reference: `lacp_port_link_change` and its callers `trunk_port_link_change` and `trunk_port_lacp_enable`.

The link of a port is known twice: the engine has `port_enabled`, and `g_port_list` has the status that the
bridge was told. A port that is enabled takes the status of `g_port_list`, `trunk_port_link_change` sets
`port_enabled` alone and `trunk_ssp_set_port_link_status` the table alone; every other call leaves both as
they are (`LinkAgrees.step`).
-/

namespace Lacp

/-- The port with index `i`, if there is one, has its link up or down. -/
def LinkIs (i : ℕ) (up : Bool) (w : World) : Prop :=
  ∀ a ∈ w.sys.ports, (w.port a).portIndex = i → (w.port a).portEnabled = up

/-- The engine and `g_port_list` agree on the link of port `i`. -/
def LinkAgrees (i : ℕ) (w : World) : Prop := LinkIs i (trunkSspGetPortLinkStatus w i != 0) w

/-- The call is one of the two that write one of the link states of port `i` alone. -/
def Call.SetsLink (i : ℕ) : Call → Prop
  | .portLinkChange slot port _ => globalIndex slot port = i
  | .setPortLinkStatus portIndex _ => portIndex = i
  | _ => False

section Effect

variable {R : World → Call → Prop} {w w' : World} {c : Call} {E E' : Set ℕ} {b : Addr} {i : ℕ}
  {q : LacpPort} {up : Bool}

theorem PortWrite.portEnabled (hwrite : PortWrite R c E w b q)
    (hother : c.isJoin = true ∨ c.isLinkChange = true → c.target ≠ some (w.port b).portIndex) :
    q.portEnabled = (w.port b).portEnabled := by
  cases hwrite with
  | link hcall _ _ _ _ hkind => exact absurd hcall (hother (hkind.imp_right And.left))
  | same | deselect | prio | stat | receive | moved | tick | notify | leave => rfl

/-- Only a call that enables the port or changes its link touches the link. -/
theorem LinkIs.effect (hc : Coherent E w) (h : LinkIs i up w)
    (hother : c.isJoin = true ∨ c.isLinkChange = true → c.target ≠ some i)
    (heffect : Effect R c (E, w) (E', w')) : LinkIs i up w' := by
  intro b hb hindex
  cases heffect.cases hc with
  | hop hop =>
    rw [hop.engineHop.portIndex_eq b] at hindex
    have hup : (w'.port b).portEnabled = (w.port b).portEnabled :=
      congrArg PortSettings.portEnabled (hop.engineHop.settings_eq b)
    exact hup.trans (h b (hop.engineHop.sys_eq ▸ hb) hindex)
  | setSys _ _ _ _ hw =>
    have hb' : b ∈ w.sys.ports := hw.ports ▸ hb
    rw [hw.port b hb'] at hindex ⊢
    exact h b hb' hindex
  | write _ _ _ hports =>
    cases hports b hb with
    | write hb' hwrite =>
      rw [hwrite.portIndex_eq] at hindex
      rw [hwrite.portEnabled (hindex.symm ▸ hother)]
      exact h b hb' hindex
    | join _ hcall _ hindex' _ _ _ _ hport =>
      subst hcall
      rw [hport] at hindex
      exact absurd (congrArg some (hindex'.symm.trans hindex)) (hother (.inl rfl))
    | reselect hb' _ _ _ _ _ _ hport =>
      rw [hport] at hindex ⊢
      exact h b hb' hindex
    | create _ hcall _ _ _ _ hport =>
      subst hcall
      rw [hport] at hindex
      exact absurd (congrArg some hindex) (hother (.inl rfl))

end Effect

section Calls

variable {w w' u v : World} {fuel slot port aggId i : ℕ} {sysMac : LacpMac} {linkStatus : UInt32}
  {ret : LacpRet} {a : Addr} {c : Call} {E : Set ℕ}

theorem linkChangedPort_portEnabled (attr : PortAttr) (linkStatus : UInt32) (p : LacpPort) :
    (linkChangedPort attr linkStatus p).portEnabled = (linkStatus != 0) := by
  simp only [linkChangedPort]
  split <;> rfl

/-- `lacp_port_link_change` at rest leaves the port that it finds with the link that was asked for. -/
theorem portEnabled_of_lacpPortLinkChange (h : Coherent ∅ v) (hq : Quiescent v) (ha : a ∈ v.sys.ports)
    (hindex : (v.port a).portIndex = i)
    (hrun : lacpPortLinkChange fuel v i linkStatus = some (w', ret)) :
    a ∈ w'.sys.ports ∧ (w'.port a).portIndex = i ∧ (w'.port a).portEnabled = (linkStatus != 0) := by
  obtain ⟨hports, hindex', hagg⟩ := aggregation_of_lacpPortLinkChange h hq ha hindex hrun
  refine ⟨hports ▸ ha, hindex', ?_⟩
  by_cases hsame : ((if (v.port a).portEnabled then 1 else 0) == linkStatus) = true
  · rw [if_pos hsame] at hagg
    have hlink : (w'.port a).portEnabled = (v.port a).portEnabled := congrArg Prod.fst hagg
    rw [hlink, ← eq_of_beq hsame]
    cases (v.port a).portEnabled <;> rfl
  · rw [if_neg hsame] at hagg
    exact (congrArg Prod.fst hagg).trans (linkChangedPort_portEnabled _ _ _)

/-- Where one listed port has the index, it is the only one. -/
theorem LinkIs.of_listed {up : Bool} (h : Coherent E w) (ha : a ∈ w.sys.ports)
    (hindex : (w.port a).portIndex = i) (hup : (w.port a).portEnabled = up) : LinkIs i up w := by
  intro b hb hbindex
  rw [h.index_inj hb ha (hbindex.trans hindex.symm)]
  exact hup

/-- `trunk_port_link_change` leaves the port, if there is one, with the link that was asked for. -/
theorem linkIs_of_trunkPortLinkChange (hw : Reachable w)
    (hrange : (Call.portLinkChange slot port linkStatus).InRange)
    (hrun : trunkPortLinkChange fuel w slot port linkStatus = some (w', ret)) :
    LinkIs (globalIndex slot port) (linkStatus != 0) w' := by
  have hport : 1 ≤ port ∧ port ≤ 8 := hrange.2
  have hw' : Reachable w' := hw.step trivial (c := .portLinkChange slot port linkStatus)
    ⟨hrange, fuel, ret, hrun⟩
  obtain ⟨hc, hq⟩ := hw.coherent
  by_cases hlisted : ∃ b ∈ w.sys.ports, (w.port b).portIndex = globalIndex slot port
  · obtain ⟨b, hb, hbindex⟩ := hlisted
    have henabled := hw.groupsKnown.lacpIsEnable hc hport hb hbindex
    simp only [trunkPortLinkChange, henabled, trunkSspGetGlobalIndex_eq hport.1] at hrun
    obtain ⟨hb', hbindex', hup⟩ := portEnabled_of_lacpPortLinkChange hc hq hb hbindex hrun
    exact .of_listed hw'.coherent.1 hb' hbindex' hup
  · -- nothing happens, and the port is not there
    have hsame : w'.sys = w.sys ∧ w'.port = w.port := by
      by_cases henabled : stubDbPortLacpIsEnable w slot port = true
      · have hfind : lacpPortFind (lacpCriticalPathStart w) (globalIndex slot port) = none :=
          lacpPortFind_eq_none.mpr fun a ha hindex => hlisted ⟨a, ha, hindex⟩
        simp only [trunkPortLinkChange, henabled, trunkSspGetGlobalIndex_eq hport.1,
          lacpPortLinkChange, hfind] at hrun
        obtain ⟨rfl, -⟩ := Prod.mk.inj (Option.some.inj hrun)
        exact ⟨rfl, rfl⟩
      · simp only [trunkPortLinkChange, henabled] at hrun
        obtain ⟨rfl, -⟩ := Prod.mk.inj (Option.some.inj hrun)
        exact ⟨rfl, rfl⟩
    intro a ha hindex
    rw [hsame.1] at ha
    rw [hsame.2] at hindex
    exact absurd ⟨a, ha, hindex⟩ hlisted

/-- A port that joins takes the link status of `g_port_list`. -/
theorem JoinStep.linkAgrees (h : JoinStep fuel slot port aggId sysMac E u v a)
    (hlink : lacpPortLinkChange fuel v (globalIndex slot port)
      (if trunkSspGetPortLinkStatus v (globalIndex slot port) != 0 then 1 else 0) = some (w', ret)) :
    a ∈ w'.sys.ports ∧ (w'.port a).portIndex = globalIndex slot port ∧
      (w'.port a).portEnabled = (trunkSspGetPortLinkStatus w' (globalIndex slot port) != 0) := by
  obtain ⟨hv, hqv, hav, hindexv, -, -⟩ := h.aggregation
  obtain ⟨ha', hindex', hup⟩ := portEnabled_of_lacpPortLinkChange hv hqv hav hindexv hlink
  have hkept : trunkSspGetPortLinkStatus w' (globalIndex slot port) =
      trunkSspGetPortLinkStatus v (globalIndex slot port) :=
    congrArg (fun d => (d.setup (globalIndex slot port)).linkStatus) (lacpPortLinkChange_directory hlink)
  refine ⟨ha', hindex', hup.trans ?_⟩
  rw [hkept]
  by_cases hstatus : (trunkSspGetPortLinkStatus v (globalIndex slot port) != 0) = true
  · rw [if_pos hstatus, hstatus]
    rfl
  · rw [if_neg hstatus, Bool.eq_false_of_not_eq_true hstatus]
    rfl

/-- After `trunk_port_lacp_enable` the engine and `g_port_list` agree on the link of the port. -/
theorem linkAgrees_of_trunkPortLacpEnable (hw : Reachable w)
    (hrange : (Call.portLacpEnable slot port aggId sysMac).InRange)
    (hrun : trunkPortLacpEnable fuel w slot port aggId sysMac = some (w', ret)) :
    LinkAgrees (globalIndex slot port) w' := by
  have hport : 1 ≤ port ∧ port ≤ 8 := ⟨hrange.2.1, hrange.2.2.1⟩
  have hw' : Reachable w' := hw.step trivial (c := .portLacpEnable slot port aggId sysMac)
    ⟨hrange, fuel, ret, hrun⟩
  obtain ⟨h, hq⟩ := hw.coherent
  by_cases hlt : globalIndex slot port < lacpPortMax
  · simp only [trunkPortLacpEnable, trunkSspGetGlobalIndex_eq hport.1, trunkPortGetPrio,
      Option.map_some, Option.bind_eq_bind, Option.bind_eq_some_iff] at hrun
    obtain ⟨u, hcreate, v, hcfg, hlink⟩ := hrun
    have hjoin : ∃ E a, JoinStep fuel slot port aggId sysMac E u v a := by
      rcases lacpCreatePorts_eq_some (R := fun _ _ => True)
          (c := .portLacpEnable slot port aggId sysMac) h hq trivial rfl rfl hcreate with
        ⟨rfl, hlisted⟩ | ⟨heffects, hqu, -, a, ha, hindex, -, -⟩
      · obtain ⟨a, ha, hindex⟩ := hlisted.resolve_left (Nat.not_le.mpr hlt)
        exact ⟨∅, a, h, hq, Set.empty_subset _, hport, hrange.2.2.2.1, ha, hindex, hcfg⟩
      · exact ⟨_, a, h.effects heffects, hqu, subset_rfl, hport, hrange.2.2.2.1, ha, hindex, hcfg⟩
    obtain ⟨E, a, hstep⟩ := hjoin
    obtain ⟨ha', hindex', hup⟩ := hstep.linkAgrees hlink
    exact .of_listed hw'.coherent.1 ha' hindex' hup
  · intro a ha hindex
    exact absurd (hindex ▸ hw'.coherent.1.index_lt a ha) hlt

/-- Only `trunk_ssp_set_port_link_status` writes the status of `g_port_list`. -/
theorem linkStatus_of_step (hstep : Step c w w') (hc : ∀ linkStatus, c ≠ .setPortLinkStatus i linkStatus) :
    trunkSspGetPortLinkStatus w' i = trunkSspGetPortLinkStatus w i := by
  obtain ⟨hrange, fuel, ret, hrun⟩ := hstep
  have hrecord : trunkSspGetPortLinkStatus w' i = ((c.record w.directory).setup i).linkStatus := by
    rw [← directory_of_runCall hrange hrun]
    rfl
  rw [hrecord]
  cases c with
  | portSetPrio slot port | portSetSpeed slot port | portSetDuplex slot port =>
    simp only [Call.record, Directory.configure]
    by_cases hi : i = globalIndex slot port
    · subst hi
      rw [Function.update_self]
      rfl
    · rw [Function.update_of_ne hi]
      rfl
  | setPortLinkStatus portIndex linkStatus =>
    simp only [Call.record, Directory.configure]
    rw [Function.update_of_ne fun hi => hc linkStatus (by rw [hi])]
    rfl
  | _ => rfl

/-- Every call but the two that write one link state alone keeps the agreement. -/
theorem LinkAgrees.step (hw : Reachable w) (h : LinkAgrees i w) (hc : ¬ c.SetsLink i)
    (hstep : Step c w w') : LinkAgrees i w' := by
  by_cases hjoins : c.isJoin = true ∧ c.target = some i
  · obtain ⟨hrange, fuel, ret, hrun⟩ := hstep
    cases c with
    | portLacpEnable slot port aggId sysMac =>
      obtain rfl := Option.some.inj hjoins.2
      exact linkAgrees_of_trunkPortLacpEnable hw hrange hrun
    | _ => cases hjoins.1
  · have hstatus := linkStatus_of_step (i := i) hstep fun linkStatus hcall => hc (by rw [hcall]; exact rfl)
    have hother : c.isJoin = true ∨ c.isLinkChange = true → c.target ≠ some i := by
      rintro (hjoin | hlink) htarget
      · exact hjoins ⟨hjoin, htarget⟩
      · cases c with
        | portLinkChange => exact hc (Option.some.inj htarget)
        | _ => cases hlink
    obtain ⟨hcoherent, hq⟩ := hw.coherent
    have hcompletes := completes_of_step (R := fun _ _ => True) hcoherent hq trivial hstep
    rw [LinkAgrees, hstatus]
    exact (hcompletes.1.invariant (P := fun E v => Coherent E v ∧ LinkIs i _ v)
      (fun hP heffect => ⟨hP.1.effect heffect, hP.2.effect hP.1 hother heffect⟩) ⟨hcoherent, h⟩).2

theorem LinkAgrees.init (i : ℕ) (pid : UInt32) : LinkAgrees i (initWorld pid) := fun _ hb => nomatch hb

end Calls

end Lacp
