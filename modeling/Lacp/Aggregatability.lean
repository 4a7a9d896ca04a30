import Lacp.Joining
import Lacp.Keys
import Lacp.Leaving

/-!
# Aggregatability

Reference: `lacp_port_link_change`, the "add to agg" of `lacp_port_set_cfg`, and `actor_default`.

`lacp_port_link_change` takes the duplex value from `g_port_list` and clears `actor.AGG` where it is zero.
No later link change sets the bit again: that is left to `actor_default`, which a port runs that has
moved, and to `trunk_port_lacp_enable`, which does not look at the duplex value. `Call.KeepsAgg` says when
neither of the two matters.
-/

namespace Lacp

open Relation (ReflTransGen)

/-- A port that works can be aggregated exactly if its admin record says so and its duplex value is not
zero. -/
def LacpPort.AggFollows (p : LacpPort) : Prop :=
  p.portEnabled = true → (p.actor.state.AGG = true ↔ p.actorAdmin.state.AGG = true ∧ p.duplex ≠ 0)

/-- Every port that runs LACP and works can be aggregated exactly if its admin record says so and its
duplex value is not zero. -/
def AggFollowsDuplex (w : World) : Prop :=
  ∀ a ∈ w.sys.ports, (w.port a).lacpEnabled = true → (w.port a).AggFollows

/-- A link that comes up at a duplex value other than zero finds `actor.AGG` set; and a port that works at
the duplex value zero is enabled again only if its link is recorded as down. -/
def Call.KeepsAgg (w : World) : Call → Prop
  | .portLinkChange slot port linkStatus => ∀ a ∈ w.sys.ports,
    (w.port a).portIndex = globalIndex slot port →
      linkStatus ≠ 0 → linkStatus ≠ (if (w.port a).portEnabled then 1 else 0) →
        (w.gPortList (globalIndex slot port)).duplex ≠ 0 → (w.port a).actor.state.AGG = true
  | .portLacpEnable slot port _ _ => ∀ a ∈ w.sys.ports,
    (w.port a).portIndex = globalIndex slot port →
      (w.port a).portEnabled = true → (w.port a).duplex = 0 →
        (w.gPortList (globalIndex slot port)).linkStatus = 0
  | _ => True

instance (w : World) : (c : Call) → Decidable (c.KeepsAgg w)
  | .portLacpEnable _ _ _ _ | .portLinkChange _ _ _ =>
    inferInstanceAs (Decidable (∀ a ∈ w.sys.ports, _ → _))
  | .sysSetPrio _ | .sysSetLongPeriod _ | .sysSetShortPeriod _ | .sysSetPeriod _
  | .portLacpDisable _ _ | .aggDelete _ | .portSetPrio _ _ _ | .portSetSpeed _ _ _
  | .portSetDuplex _ _ _ | .portClearStat _ _ | .setPortLinkStatus _ _ | .rxLacpdu _ _ _
  | .oneSecond => isTrue trivial

/-! ## The ports a call does not name -/

section Effect

variable {R : World → Call → Prop} {c : Call} {E E' : Set ℕ} {w w' : World} {b : Addr} {p q : LacpPort}

/-- The fields of a record that `AggFollows` reads. -/
def LacpPort.aggregation (p : LacpPort) : Bool × UInt32 × Bool × Bool :=
  (p.portEnabled, p.duplex, p.actor.state.AGG, p.actorAdmin.state.AGG)

theorem LacpPort.aggFollows_congr (h : q.aggregation = p.aggregation) : q.AggFollows ↔ p.AggFollows := by
  simp only [aggregation, Prod.mk.injEq] at h
  obtain ⟨henabled, hduplex, hagg, hadmin⟩ := h
  rw [AggFollows, AggFollows, henabled, hduplex, hagg, hadmin]

/-- Only `actor_default` writes `actor.AGG` in a hop. -/
theorem aggregation_rxEntered {s : RxState} (hinit : s ≠ .begin ∧ s ≠ .init) (sys : LacpSys) :
    (rxEntered sys { p with rx := ⟨false, s⟩ }).aggregation = p.aggregation := by
  cases s with
  | begin => exact absurd rfl hinit.1
  | init => exact absurd rfl hinit.2
  | _ => rfl

/-- No hop changes the aggregatability of a port that has started. -/
theorem Started.hop_aggregation (h : Started (w.port b)) (hop : PortHop w b q) :
    q.aggregation = (w.port b).aggregation := by
  cases hop with
  | rx _ guard => exact aggregation_rxEntered (h.not_init (rxGuard_of_check guard)) w.sys
  | same | deselect | selDisabled | selAlone | select => rfl
  | @mux s => cases s <;> rfl
  | @tx s => cases s <;> rfl

/-- A port enters `RXM_INITIALIZE` only while its link is down. -/
theorem AggFollows.hop {attr : PortAttr} (h : (w.port b).AggFollows)
    (hc : PortCoherent E w.sys (w.port b) attr) (hE : (w.port b).portIndex ∉ E) (hop : PortHop w b q) :
    q.AggFollows := by
  cases hop with
  | @rx s _ guard =>
    by_cases hinit : s ≠ .begin ∧ s ≠ .init
    · exact (LacpPort.aggFollows_congr (aggregation_rxEntered hinit w.sys)).mpr h
    · have hdown : (w.port b).portEnabled = false := by
        cases rxGuard_of_check guard with
        | start hs => exact absurd ((hc.fresh hs).1.symm.trans (hc.enabled hE)) (by simp)
        | moved _ hpm => exact (hc.moved hpm).1
        | _ => exact absurd hinit (by simp)
      intro hup
      have hkept : (rxEntered w.sys { w.port b with rx := ⟨false, s⟩ }).portEnabled =
          (w.port b).portEnabled := by cases s <;> rfl
      exact absurd ((hkept.trans hdown).symm.trans hup) (by simp)
  | same | deselect | selDisabled | selAlone | select => exact h
  | @mux s => cases s <;> exact h
  | @tx s => cases s <;> exact h

/-- The write to a port that does not leave keeps `AGG` in the admin record. -/
theorem PortWrite.adminAgg (hwrite : PortWrite R c E w b q) (hE : (w.port b).portIndex ∉ E) :
    q.actorAdmin.state.AGG = (w.port b).actorAdmin.state.AGG := by
  cases hwrite with
  | link =>
    simp only [linkChangedPort]
    split <;> rfl
  | notify hin | leave _ hin => exact absurd hin hE
  | same | deselect | prio | stat | receive | moved | tick => rfl

/-- Of the writes only a link change touches the aggregatability of a port that does not leave. -/
theorem AggFollows.write (h : (w.port b).AggFollows) (hwrite : PortWrite R c E w b q)
    (hE : (w.port b).portIndex ∉ E)
    (hother : c.isJoin = true ∨ c.isLinkChange = true → c.target ≠ some (w.port b).portIndex) :
    q.AggFollows := by
  cases hwrite with
  | link hcall _ _ _ _ hkind => exact absurd hcall (hother (hkind.imp_right And.left))
  | notify hin | leave _ hin => exact absurd hin hE
  | same | deselect | prio | stat | receive | moved | tick => exact h

/-- The ports outside `E` have `AGG` in their admin records. -/
def AdminAgg (E : Set ℕ) (w : World) : Prop :=
  ∀ a ∈ w.sys.ports, (w.port a).portIndex ∉ E → (w.port a).actorAdmin.state.AGG = true

theorem AdminAgg.effect (hc : Coherent E w) (h : AdminAgg E w) (heffect : Effect R c (E, w) (E', w')) :
    AdminAgg E' w' := by
  intro b hb hbE
  cases heffect.cases hc with
  | hop hop hE =>
    have hb' : b ∈ w.sys.ports := hop.engineHop.sys_eq ▸ hb
    have hadmin : (w'.port b).actorAdmin = (w.port b).actorAdmin :=
      congrArg PortSettings.actorAdmin (hop.engineHop.settings_eq b)
    rw [hop.engineHop.portIndex_eq b, hE] at hbE
    rw [hadmin]
    exact h b hb' hbE
  | setSys _ _ hE _ hw =>
    have hb' : b ∈ w.sys.ports := hw.ports ▸ hb
    rw [hw.port b hb']
    exact h b hb' (by rw [hE]; exact Set.notMem_empty _)
  | write _ _ _ hports =>
    cases hports b hb with
    | write hb' hwrite hentry =>
      rw [hwrite.portIndex_eq] at hbE
      rw [hwrite.adminAgg (hentry hbE).1]
      exact h b hb' (hentry hbE).1
    | join _ _ _ _ _ _ _ _ hport => rw [hport]; rfl
    | reselect hb' _ _ hE _ _ _ hport =>
      rw [hport]
      exact h b hb' (by rw [hE]; exact Set.notMem_empty _)
    | create _ _ _ hE' _ _ hport =>
      rw [hport, hE'] at hbE
      exact absurd rfl hbE

/-- During the call `c` the ports outside `E` follow their duplex values, but for the port that is enabled
or whose link changes. -/
def AggKept (c : Call) (E : Set ℕ) (w : World) : Prop :=
  ∀ a ∈ w.sys.ports, (w.port a).portIndex ∉ E →
    (c.isJoin = true ∨ c.isLinkChange = true → c.target ≠ some (w.port a).portIndex) →
      (w.port a).AggFollows

theorem AggKept.effect (hc : Coherent E w) (h : AggKept c E w) (heffect : Effect R c (E, w) (E', w')) :
    AggKept c E' w' := by
  intro b hb hbE hother
  cases heffect.cases hc with
  | hop hop hE =>
    have hb' : b ∈ w.sys.ports := hop.engineHop.sys_eq ▸ hb
    rw [hop.engineHop.portIndex_eq b] at hbE hother
    rw [hE] at hbE
    exact AggFollows.hop (h b hb' hbE hother) (hc.port b hb') hbE (hop.engineHop.portHop b)
  | setSys _ _ hE _ hw =>
    have hb' : b ∈ w.sys.ports := hw.ports ▸ hb
    rw [hw.port b hb'] at hother ⊢
    exact h b hb' (by rw [hE]; exact Set.notMem_empty _) hother
  | write _ _ _ hports =>
    cases hports b hb with
    | write hb' hwrite hentry =>
      rw [hwrite.portIndex_eq] at hbE hother
      exact AggFollows.write (h b hb' (hentry hbE).1 hother) hwrite (hentry hbE).1 hother
    | join hb' hcall _ hindex _ _ _ _ hport =>
      subst hcall
      rw [hport] at hother
      exact absurd (congrArg some hindex.symm) (hother (.inl rfl))
    | reselect hb' _ _ hE _ _ _ hport =>
      rw [hport] at hother ⊢
      exact h b hb' (by rw [hE]; exact Set.notMem_empty _) hother
    | create _ _ _ hE' _ _ hport =>
      rw [hport, hE'] at hbE
      exact absurd rfl hbE

end Effect

/-! ## The port a call names -/

section Call

variable {w w' u v : World} {c : Call} {E : Set ℕ} {a : Addr} {i slot port aggId fuel : ℕ}
  {sysMac : LacpMac} {linkStatus : UInt32} {ret : LacpRet} {p : LacpPort} {attr : PortAttr}

/-- What a link change leaves follows the duplex value, unless the link comes up at another value than
zero and `AGG` is not set. -/
theorem aggFollows_linkChangedPort (hadmin : p.actorAdmin.state.AGG = true) :
    (linkChangedPort attr linkStatus p).AggFollows ↔
      (linkStatus ≠ 0 → attr.duplex ≠ 0 → p.actor.state.AGG = true) := by
  simp only [LacpPort.AggFollows, linkChangedPort]
  by_cases hduplex : attr.duplex = 0
  · simp [hduplex]
  · simp [hduplex, hadmin]

/-- `lacp_port_link_change` at rest, on a port that is there. -/
theorem aggregation_of_lacpPortLinkChange (h : Coherent ∅ v) (hq : Quiescent v) (ha : a ∈ v.sys.ports)
    (hindex : (v.port a).portIndex = i)
    (hrun : lacpPortLinkChange fuel v i linkStatus = some (w', ret)) :
    w'.sys.ports = v.sys.ports ∧ (w'.port a).portIndex = i ∧
      (w'.port a).aggregation =
        if ((if (v.port a).portEnabled then 1 else 0) == linkStatus) = true then (v.port a).aggregation
        else (linkChangedPort (v.gPortList i) linkStatus (v.port a)).aggregation := by
  obtain ⟨-, ⟨hsame, rfl⟩ | ⟨hchange, x, y, hw, hhops, rfl⟩⟩ :=
    exists_hops_of_lacpPortLinkChange h ha hindex hrun
  · rw [if_pos hsame]
    exact ⟨rfl, hindex, rfl⟩
  · rw [if_neg (by simp [hchange])]
    have hport : x.port a =
        { linkChangedPort (v.gPortList i) linkStatus (v.port a) with selected := false } := by
      rw [hw.port a ha, reconfigured, if_pos rfl, hindex]
    have hquiet := (h.portQuiet hq ha).isStarted ((h.port a ha).enabled (Set.notMem_empty _))
    have hmoved : (linkChangedPort (v.gPortList i) linkStatus (v.port a)).portMoved =
        (v.port a).portMoved := by
      simp only [linkChangedPort]
      split <;> rfl
    have hstarted : Started (x.port a) := by
      rw [hport]
      exact hquiet.of_core (linkChangedPort_core (v.gPortList i) linkStatus (v.port a)) hmoved
    have hindex' : (x.port a).portIndex = i := by
      rw [hport]
      exact (portIndex_of_core (linkChangedPort_core _ _ _)).trans hindex
    obtain ⟨hkept, -⟩ := hstarted.hops (V := LacpPort.aggregation) Started.hop_aggregation hhops
    refine ⟨(hops_ports_eq hhops).trans hw.ports, (hops_portIndex_eq hhops a).trans hindex', ?_⟩
    rw [show (lacpCriticalPathEnd y).port a = y.port a from rfl, hkept, hport]
    rfl

/-- A port that can be aggregated, with an admin record that says so, stays that way in a hop. -/
theorem PortHop.agg {q : LacpPort} (hop : PortHop w a q)
    (h : (w.port a).actor.state.AGG = true ∧ (w.port a).actorAdmin.state.AGG = true) :
    q.actor.state.AGG = true ∧ q.actorAdmin.state.AGG = true := by
  cases hop with
  | @rx s =>
    cases s with
    | begin | init => exact ⟨h.2, h.2⟩
    | _ => exact h
  | same | deselect | selDisabled | selAlone | select => exact h
  | @mux s => cases s <;> exact h
  | @tx s => cases s <;> exact h

theorem agg_of_hops (h : (w.port a).actor.state.AGG = true ∧ (w.port a).actorAdmin.state.AGG = true)
    (hhops : ReflTransGen OrderedHop w w') :
    (w'.port a).actor.state.AGG = true ∧ (w'.port a).actorAdmin.state.AGG = true := by
  induction hhops with
  | refl => exact h
  | tail _ hop ih => exact (hop.engineHop.portHop a).agg ih

/-- `lacp_port_set_cfg` on a port that joins sets `AGG`, whatever the duplex value of the port is. -/
theorem JoinStep.aggregation (h : JoinStep fuel slot port aggId sysMac E u v a) :
    Coherent ∅ v ∧ Quiescent v ∧ a ∈ v.sys.ports ∧ (v.port a).portIndex = globalIndex slot port ∧
      (∀ j, (v.gPortList j).configured = (u.gPortList j).configured) ∧
      (v.port a).aggregation = ((u.port a).portEnabled, (u.port a).duplex, true, true) := by
  obtain ⟨x, y, hw, -, hattr, hhops, hy, hqy, rfl⟩ := h.exists_hops
  have hx : x.port a = { enablePort aggId ((Call.portLacpEnable slot port aggId sysMac).newPriority u
      (globalIndex slot port)) (u.port a) with selected := false } := by
    rw [hw.port a h.listed, reconfigured, if_pos rfl]
  have hsettings : (y.port a).settings = (x.port a).settings := hops_settings_eq hhops a
  rw [hx] at hsettings
  have hagg := agg_of_hops (a := a) (by rw [hx]; exact ⟨rfl, rfl⟩) hhops
  refine ⟨hy.update (update_lockDepth y ∅ _) (fun _ _ => rfl) hy.port, hqy, ?_, ?_, fun j => ?_, ?_⟩
  · show a ∈ y.sys.ports
    rw [hops_sys_eq hhops, hw.ports]
    exact h.listed
  · exact (congrArg PortSettings.portIndex hsettings).trans h.portIndex
  · exact (hops_configured hhops j).trans (by rw [hattr])
  · exact Prod.ext (congrArg PortSettings.portEnabled hsettings)
      (Prod.ext (congrArg PortSettings.duplex hsettings) (Prod.ext hagg.1 hagg.2))

/-- A port that joins is aggregatable in the end, but a port that works already, and has a link on record,
keeps its duplex value. -/
theorem JoinStep.aggFollows (h : JoinStep fuel slot port aggId sysMac E u v a)
    (hlink : lacpPortLinkChange fuel v (globalIndex slot port)
      (if trunkSspGetPortLinkStatus v (globalIndex slot port) != 0 then 1 else 0) = some (w', ret)) :
    a ∈ w'.sys.ports ∧ (w'.port a).portIndex = globalIndex slot port ∧
      ((w'.port a).AggFollows ↔ ((u.port a).portEnabled = true → (u.port a).duplex = 0 →
        (u.gPortList (globalIndex slot port)).linkStatus = 0)) := by
  obtain ⟨hv, hqv, hav, hindexv, hattr, hjoined⟩ := h.aggregation
  obtain ⟨hports, hindex', hagg⟩ := aggregation_of_lacpPortLinkChange hv hqv hav hindexv hlink
  refine ⟨hports ▸ hav, hindex', ?_⟩
  have hstatus : trunkSspGetPortLinkStatus v (globalIndex slot port) =
      (u.gPortList (globalIndex slot port)).linkStatus := (PortAttr.of_configured_eq (hattr _)).2.2
  rw [hstatus] at hagg
  simp only [LacpPort.aggregation, Prod.mk.injEq] at hjoined
  obtain ⟨henabled, hduplex, hset, hadmin⟩ := hjoined
  rw [henabled] at hagg
  by_cases hsame : ((if (u.port a).portEnabled then 1 else 0) ==
      if (u.gPortList (globalIndex slot port)).linkStatus != 0 then (1 : UInt32) else 0) = true
  · -- nothing to do: a port that works has a link on record
    rw [if_pos hsame] at hagg
    rw [LacpPort.aggFollows_congr hagg, LacpPort.AggFollows, henabled, hduplex, hset, hadmin]
    cases hen : (u.port a).portEnabled
    · simp
    · simp_all
  · rw [if_neg hsame] at hagg
    rw [LacpPort.aggFollows_congr hagg, aggFollows_linkChangedPort hadmin]
    refine iff_of_true (fun _ _ => hset) fun hen _ => ?_
    by_contra hlinked
    exact hsame (by simp [hen, hlinked])

/-- Enabling a port keeps its aggregatability exactly if it does not work at the duplex value zero with a
link on record. -/
theorem aggFollows_of_trunkPortLacpEnable (h : Coherent ∅ w) (hq : Quiescent w)
    (hport : 1 ≤ port ∧ port ≤ 8) (haggId : 1 ≤ aggId) (hlt : globalIndex slot port < lacpPortMax)
    (hrun : trunkPortLacpEnable fuel w slot port aggId sysMac = some (w', ret)) :
    ∃ a ∈ w'.sys.ports, (w'.port a).portIndex = globalIndex slot port ∧
      ((w'.port a).AggFollows ↔ (Call.portLacpEnable slot port aggId sysMac).KeepsAgg w) := by
  simp only [trunkPortLacpEnable, trunkSspGetGlobalIndex_eq hport.1, trunkPortGetPrio,
    Option.map_some, Option.bind_eq_bind, Option.bind_eq_some_iff] at hrun
  obtain ⟨u, hcreate, v, hcfg, hlink⟩ := hrun
  rcases lacpCreatePorts_eq_some (R := fun _ _ => True)
      (c := .portLacpEnable slot port aggId sysMac) h hq trivial rfl rfl hcreate with
    ⟨rfl, hlisted⟩ | ⟨heffects, hqu, habsent, a, ha, hindex, -, hdown⟩
  · obtain ⟨a, ha, hindex⟩ := hlisted.resolve_left (Nat.not_le.mpr hlt)
    have hstep : JoinStep fuel slot port aggId sysMac ∅ u v a :=
      ⟨h, hq, Set.empty_subset _, hport, haggId, ha, hindex, hcfg⟩
    obtain ⟨ha', hindex', hiff⟩ := hstep.aggFollows hlink
    refine ⟨a, ha', hindex', hiff.trans ⟨fun hkeeps b hb hbindex => ?_, fun hkeeps => hkeeps a ha hindex⟩⟩
    rw [h.index_inj hb ha (hbindex.trans hindex.symm)]
    exact hkeeps
  · have hstep : JoinStep fuel slot port aggId sysMac {globalIndex slot port} u v a :=
      ⟨h.effects heffects, hqu, subset_rfl, hport, haggId, ha, hindex, hcfg⟩
    obtain ⟨ha', hindex', hiff⟩ := hstep.aggFollows hlink
    refine ⟨a, ha', hindex', hiff.trans (iff_of_true (fun hup => ?_) fun b hb hbindex => ?_)⟩
    · exact absurd (hdown.symm.trans hup) (by simp)
    · exact absurd hbindex (habsent b hb)

/-- What a call leaves depends on the port that it enables or whose link it changes. -/
theorem aggFollowsDuplex_iff_of_target (h : AggKept c ∅ w) (hc : Coherent ∅ w)
    (htarget : c.target = some i) :
    AggFollowsDuplex w ↔ ∀ a ∈ w.sys.ports, (w.port a).portIndex = i → (w.port a).AggFollows := by
  refine forall₂_congr fun a ha => ?_
  have hlac := (hc.port a ha).enabled (Set.notMem_empty _)
  constructor
  · exact fun hfollows _ => hfollows hlac
  · intro hfollows _
    by_cases hindex : (w.port a).portIndex = i
    · exact hfollows hindex
    · refine h a ha (Set.notMem_empty _) fun _ => ?_
      rw [htarget]
      exact fun heq => hindex (Option.some.inj heq).symm

/-- There is one port with an index. -/
theorem forall_listed_iff {P : Addr → Prop} (h : Coherent E w) (ha : a ∈ w.sys.ports)
    (hindex : (w.port a).portIndex = i) :
    (∀ b ∈ w.sys.ports, (w.port b).portIndex = i → P b) ↔ P a := by
  constructor
  · exact fun hall => hall a ha hindex
  · intro hP b hb hbindex
    rw [h.index_inj hb ha (hbindex.trans hindex.symm)]
    exact hP

/-- A link change keeps the aggregatability exactly if it does not bring a port up at a duplex value other
than zero whose `AGG` is not set. -/
theorem aggFollows_of_trunkPortLinkChange (h : Coherent ∅ w) (hq : Quiescent w) (hc' : Coherent ∅ w')
    (hknown : GroupsKnown ∅ w) (hadmin : ∀ a ∈ w.sys.ports, (w.port a).actorAdmin.state.AGG = true)
    (hfollows : AggFollowsDuplex w) (hport : 1 ≤ port ∧ port ≤ 8)
    (hrun : trunkPortLinkChange fuel w slot port linkStatus = some (w', ret)) :
    (∀ a ∈ w'.sys.ports, (w'.port a).portIndex = globalIndex slot port → (w'.port a).AggFollows) ↔
      (Call.portLinkChange slot port linkStatus).KeepsAgg w := by
  by_cases hlisted : ∃ a ∈ w.sys.ports, (w.port a).portIndex = globalIndex slot port
  · obtain ⟨a, ha, hindex⟩ := hlisted
    simp only [trunkPortLinkChange, hknown.lacpIsEnable h hport ha hindex,
      trunkSspGetGlobalIndex_eq hport.1] at hrun
    obtain ⟨hports, hindex', hagg⟩ := aggregation_of_lacpPortLinkChange h hq ha hindex hrun
    rw [forall_listed_iff hc' (hports ▸ ha) hindex', Call.KeepsAgg, forall_listed_iff h ha hindex]
    by_cases hsame : ((if (w.port a).portEnabled then 1 else 0) == linkStatus) = true
    · rw [if_pos hsame] at hagg
      refine iff_of_true ((LacpPort.aggFollows_congr hagg).mpr ?_) fun _ hchange => ?_
      · exact hfollows a ha ((h.port a ha).enabled (Set.notMem_empty _))
      · exact absurd (eq_of_beq hsame).symm hchange
    · rw [if_neg hsame] at hagg
      have hchange : linkStatus ≠ if (w.port a).portEnabled then 1 else 0 := fun heq => hsame (by simp [heq])
      rw [LacpPort.aggFollows_congr hagg, aggFollows_linkChangedPort (hadmin a ha)]
      exact ⟨fun hkeeps hup _ => hkeeps hup, fun hkeeps hup => hkeeps hup hchange⟩
  · have hsame : w'.sys = w.sys ∧ w'.port = w.port := by
      by_cases henabled : stubDbPortLacpIsEnable w slot port = true
      · have hfind : lacpPortFind (lacpCriticalPathStart w) (globalIndex slot port) = none :=
          lacpPortFind_eq_none.mpr fun a ha hindex => hlisted ⟨a, ha, hindex⟩
        simp only [trunkPortLinkChange, henabled, trunkSspGetGlobalIndex_eq hport.1,
          lacpPortLinkChange, hfind] at hrun
        obtain ⟨rfl, -⟩ := Prod.mk.inj (Option.some.inj hrun)
        exact ⟨rfl, rfl⟩
      · simp only [trunkPortLinkChange, henabled] at hrun
        obtain ⟨rfl, -⟩ := Prod.mk.inj (Option.some.inj hrun)
        exact ⟨rfl, rfl⟩
    rw [hsame.1, hsame.2]
    refine iff_of_true (fun a ha hindex => ?_) fun a ha hindex => ?_
    · exact absurd ⟨a, ha, hindex⟩ hlisted
    · exact absurd ⟨a, ha, hindex⟩ hlisted

/-- After a call the aggregatability follows the duplex values exactly if the call keeps it. -/
theorem aggFollowsDuplex_of_step (h : Coherent ∅ w) (hq : Quiescent w) (hknown : GroupsKnown ∅ w)
    (hadmin : ∀ a ∈ w.sys.ports, (w.port a).actorAdmin.state.AGG = true) (hfollows : AggFollowsDuplex w)
    (hstep : Step c w w') : AggFollowsDuplex w' ↔ c.KeepsAgg w := by
  have hstart : AggKept c ∅ w := fun a ha _ _ =>
    hfollows a ha ((h.port a ha).enabled (Set.notMem_empty _))
  obtain ⟨heffects, -⟩ := completes_of_step (R := fun _ _ => True) h hq trivial hstep
  have hend := heffects.invariant (P := fun E v => Coherent E v ∧ AggKept c E v)
    (fun hP heffect => ⟨hP.1.effect heffect, hP.2.effect hP.1 heffect⟩) ⟨h, hstart⟩
  obtain ⟨hrange, fuel, ret, hrun⟩ := hstep
  cases c with
  | portLacpEnable slot port aggId sysMac =>
    rw [aggFollowsDuplex_iff_of_target hend.2 hend.1 rfl]
    by_cases hlt : globalIndex slot port < lacpPortMax
    · obtain ⟨a, ha, hindex, hiff⟩ :=
        aggFollows_of_trunkPortLacpEnable h hq ⟨hrange.2.1, hrange.2.2.1⟩ hrange.2.2.2.1 hlt hrun
      rw [forall_listed_iff hend.1 ha hindex]
      exact hiff
    · refine iff_of_true (fun a ha hindex => ?_) fun a ha hindex => ?_
      · exact absurd (hindex ▸ hend.1.index_lt a ha) hlt
      · exact absurd (hindex ▸ h.index_lt a ha) hlt
  | portLinkChange slot port linkStatus =>
    rw [aggFollowsDuplex_iff_of_target hend.2 hend.1 rfl]
    exact aggFollows_of_trunkPortLinkChange h hq hend.1 hknown hadmin hfollows hrange.2 hrun
  | _ =>
    refine iff_of_true (fun a ha _ => hend.2 a ha (Set.notMem_empty _) fun hkind => ?_) trivial
    simp [Call.isJoin, Call.isLinkChange] at hkind

end Call

/-! ## Runs -/

/-- In every reachable state the admin records have `AGG`. -/
theorem ReachableBy.adminAgg {R : World → Call → Prop} {w : World} (h : ReachableBy R w) :
    ∀ a ∈ w.sys.ports, (w.port a).actorAdmin.state.AGG = true := fun a ha =>
  h.invariant_of_effects (P := AdminAgg) (fun _ _ ha => absurd ha List.not_mem_nil)
    (fun hc hP heffect => hP.effect hc heffect) a ha (Set.notMem_empty _)

/-- In every run in which no call brings a port up, or enables it, against its duplex value, every port
that works is aggregatable exactly if its duplex value is not zero; any other call ends that. -/
theorem reachableBy_aggFollowsDuplex {w : World} (h : ReachableBy (fun w c => c.KeepsAgg w) w) :
    AggFollowsDuplex w ∧ ∀ c w', Step c w w' → (AggFollowsDuplex w' ↔ c.KeepsAgg w) := by
  have hfollows : AggFollowsDuplex w := by
    apply h.invariant (fun _ _ ha => absurd ha List.not_mem_nil)
    intro v v' c hv ih hok hstep
    obtain ⟨hcoherent, hq⟩ := hv.coherent
    exact (aggFollowsDuplex_of_step hcoherent hq hv.groupsKnown hv.adminAgg ih hstep).mpr hok
  obtain ⟨hcoherent, hq⟩ := h.coherent
  exact ⟨hfollows, fun c w' hstep =>
    aggFollowsDuplex_of_step hcoherent hq h.groupsKnown h.adminAgg hfollows hstep⟩

/-- A port that comes up at half duplex for the first time cannot be aggregated. -/
theorem halfDuplexRun_aggFollowsDuplex :
    ∃ w, ReachableBy (fun w c => c.KeepsAgg w) w ∧ 0 ∈ w.sys.ports ∧ (w.port 0).portEnabled = true ∧
      (w.port 0).duplex = 0 ∧
      AggFollowsDuplex w ∧ ∀ c w', Step c w w' → (AggFollowsDuplex w' ↔ c.KeepsAgg w) := by
  have hrun : (runCalls (fun w c => decide (c.KeepsAgg w)) 25 (initWorld 77)
      [.portSetDuplex 0 1 0, .portLacpEnable 0 1 1 .zero, .portLinkChange 0 1 1]).any
        (fun w => decide (0 ∈ w.sys.ports) && (w.port 0).portEnabled && (w.port 0).duplex == 0) = true := by
    decide +kernel
  obtain ⟨w, h, _, hw⟩ := exists_reachableBy_of_runCalls (R := fun w c => c.KeepsAgg w)
    (by decide) (fun _ _ htest => of_decide_eq_true htest) hrun
  simp only [Bool.and_eq_true, beq_iff_eq, decide_eq_true_iff] at hw
  exact ⟨w, h, hw.1.1, hw.1.2, hw.2, reachableBy_aggFollowsDuplex h⟩

/-- A port comes up at half duplex, goes down, and comes up at full duplex: it cannot be aggregated. -/
theorem not_reachable_aggFollowsDuplex : ¬ ∀ w, Reachable w → AggFollowsDuplex w := by
  have hrun : (runCalls (fun _ _ => true) 25 (initWorld 77)
      [.portSetDuplex 0 1 0, .portLacpEnable 0 1 1 .zero, .portLinkChange 0 1 1, .portLinkChange 0 1 0,
        .portSetDuplex 0 1 1, .portLinkChange 0 1 1]).any (fun w =>
          decide (0 ∈ w.sys.ports) && (w.port 0).lacpEnabled && (w.port 0).portEnabled &&
            (w.port 0).duplex == 1 && (w.port 0).actorAdmin.state.AGG && !(w.port 0).actor.state.AGG)
        = true := by
    decide +kernel
  obtain ⟨w, h, _, hw⟩ := exists_reachableBy_of_runCalls (R := fun _ _ => True) (by decide)
    (fun _ _ _ => trivial) hrun
  simp only [Bool.and_eq_true, beq_iff_eq, decide_eq_true_iff, Bool.not_eq_true'] at hw
  obtain ⟨⟨⟨⟨⟨hlisted, hlac⟩, hup⟩, hduplex⟩, hadmin⟩, hagg⟩ := hw
  intro hall
  have hset := (hall w h 0 hlisted hlac hup).mpr ⟨hadmin, by rw [hduplex]; decide⟩
  exact absurd (hagg.symm.trans hset) (by simp)

end Lacp
