import Lacp.Joining
import Lacp.Keys
import Lacp.Leaving

/-!
# Stored and effective port priorities

Reference: `trunk_port_get_prio`, `trunk_port_set_prio` and `trunk_port_lacp_enable` of `trunk_api.c`,
`stub_get_port_priority` of `lacp_stub.c`.

`g_port_list` keeps the 32 bits of a port priority, the engine 16 of them. The engine gets the priority
when it is set on a member of a link group and when a port joins one, and by no other call does either
side change; so the two agree as long as no priority that is passed on needs more than 16 bits.
-/

namespace Lacp

open Relation (ReflTransGen)

/-- The priority that is reported for an index. -/
def reportedPrio (w : World) (i : ℕ) : UInt32 :=
  (stubGetPortPriority w i).getD defaultPortPriority.toUInt32

/-- `trunk_port_get_prio` reports the priority of the index it computes. -/
theorem trunkPortGetPrio_eq {slot port : ℕ} (hport : 1 ≤ port) (w : World) :
    trunkPortGetPrio w slot port = some (reportedPrio w (globalIndex slot port)) := by
  rw [trunkPortGetPrio, trunkSspGetGlobalIndex_eq hport]
  rfl

/-- The reported priority depends on the entry of `g_port_list` alone. -/
theorem reportedPrio_congr {w w' : World} {i : ℕ}
    (h : (w'.gPortList i).prio = (w.gPortList i).prio) : reportedPrio w' i = reportedPrio w i := by
  unfold reportedPrio stubGetPortPriority
  rw [h]

/-- The priorities of the record are the reported one, as integers. -/
structure PrioMatches (w : World) (p : LacpPort) : Prop where
  actor : p.actor.portPriority.toNat = (reportedPrio w p.portIndex).toNat
  actorAdmin : p.actorAdmin.portPriority.toNat = (reportedPrio w p.portIndex).toNat

/-- The priorities of a record. -/
def LacpPort.priorities (p : LacpPort) : UInt16 × UInt16 := (p.actor.portPriority, p.actorAdmin.portPriority)

theorem prioMatches_iff {w : World} {p : LacpPort} :
    PrioMatches w p ↔ p.priorities.1.toNat = (reportedPrio w p.portIndex).toNat ∧
      p.priorities.2.toNat = (reportedPrio w p.portIndex).toNat :=
  ⟨fun h => ⟨h.actor, h.actorAdmin⟩, fun h => ⟨h.1, h.2⟩⟩

/-- A priority that is passed on to the engine fits into 16 bits. -/
def Call.PriorityFits (w : World) : Call → Prop
  | .portSetPrio slot port prio =>
    (∃ a ∈ w.sys.ports, (w.port a).portIndex = globalIndex slot port) → prio.toNat < 65536
  | .portLacpEnable slot port _ _ =>
    globalIndex slot port < lacpPortMax → (reportedPrio w (globalIndex slot port)).toNat < 65536
  | _ => True

instance (w : World) : (c : Call) → Decidable (c.PriorityFits w)
  | .portSetPrio _ _ _ | .portLacpEnable _ _ _ _ => inferInstanceAs (Decidable (_ → _))
  | .sysSetPrio _ | .sysSetLongPeriod _ | .sysSetShortPeriod _ | .sysSetPeriod _
  | .portLacpDisable _ _ | .aggDelete _ | .portSetSpeed _ _ _ | .portSetDuplex _ _ _
  | .portLinkChange _ _ _ | .portClearStat _ _ | .setPortLinkStatus _ _ | .rxLacpdu _ _ _
  | .oneSecond => isTrue trivial

section Effect

variable {R : World → Call → Prop} {c : Call} {E E' : Set ℕ} {w₀ w w' : World} {b : Addr} {q : LacpPort}

/-- The record depends on its index and its priorities. -/
theorem PrioMatches.congr {p : LacpPort} (h : PrioMatches w p) (hindex : q.portIndex = p.portIndex)
    (hactor : q.actor.portPriority = p.actor.portPriority)
    (hadmin : q.actorAdmin.portPriority = p.actorAdmin.portPriority)
    (hprio : reportedPrio w' p.portIndex = reportedPrio w p.portIndex) : PrioMatches w' q := by
  constructor
  · rw [hactor, hindex, hprio]
    exact h.actor
  · rw [hadmin, hindex, hprio]
    exact h.actorAdmin

/-- A hop writes a priority only by copying the admin record. -/
theorem PrioMatches.hop (h : PrioMatches w (w.port b)) (hop : PortHop w b q) : PrioMatches w q := by
  cases hop with
  | @rx s =>
    cases s with
    | begin | init => exact ⟨h.actorAdmin, h.actorAdmin⟩
    | _ => exact h.congr rfl rfl rfl rfl
  | same | deselect | selDisabled | selAlone | select => exact h.congr rfl rfl rfl rfl
  | @mux s => cases s <;> exact h.congr rfl rfl rfl rfl
  | @tx s => cases s <;> exact h.congr rfl rfl rfl rfl

/-- Of the writes only one sets a priority. -/
theorem PrioMatches.write (h : PrioMatches w (w.port b)) (hwrite : PortWrite R c E w b q)
    (hc : c.isPrioChange = false) : PrioMatches w q := by
  cases hwrite with
  | prio _ _ _ _ hcall => exact absurd (hc.symm.trans hcall) (by simp)
  | link =>
    simp only [linkChangedPort]
    split <;> exact h.congr rfl rfl rfl rfl
  | same | deselect | stat | receive | moved | tick | notify | leave => exact h.congr rfl rfl rfl rfl

/-- A call that stores no entry of its own leaves the reported priorities as they are, but for those of
ports it removes and, if it sets a speed or a duplex value, those of ports that do not exist. -/
theorem Effect.prio_eq (hc : c.storesAttr = false) (heffect : Effect R c (E, w) (E', w')) {i : ℕ}
    (hE' : c.isRemoval = true → i ∉ E')
    (hi : c.setsAttr = true → ∃ a ∈ w.sys.ports, (w.port a).portIndex = i) :
    (w'.gPortList i).prio = (w.gPortList i).prio := by
  cases heffect with
  | hop hop =>
    have hprio : ((w'.gPortList i).configured).prio = ((w.gPortList i).configured).prio := by
      rw [hop.configured_eq i]
    exact hprio
  | rest hw _ hattr =>
    rcases hattr with heq | hsets
    · rw [heq]
    · obtain ⟨a, ha, hindex⟩ := hi hsets
      rw [hw.entry i fun habsent => habsent a ha hindex]
  | store _ hstores => exact absurd (hc.symm.trans hstores) (by simp)
  | create _ _ hw =>
    obtain ⟨_, rfl⟩ := lacpPortCreate_eq_some hw
    rfl
  | join _ _ _ _ _ _ _ _ _ hattr => rw [hattr]
  | @reselect _ _ a _ _ _ hw _ _ hattr =>
    by_cases hindex : i = (w.port a).portIndex
    · rw [hindex, hattr]
      cases c <;> rfl
    · rw [hw.entry i hindex]
  | prio _ _ _ hw | stat _ _ hw | link _ _ _ _ hw | receive _ _ _ _ _ _ _ _ hw | setSys _ _ hw
  | tick _ _ hw | notify _ _ _ hw | leave _ _ _ _ _ hw => rw [hw.entry i (Set.notMem_empty i)]
  | unlink hremoval _ _ _ hw => rw [hw.entry i (hE' hremoval)]
  | remove _ _ _ _ _ _ hw => rw [hw]

/-- During the call `c` made in `w₀` the ports outside `E` agree with their entries of `g_port_list`, and
the entry that a port is to join with is the one from before. -/
structure PrioritiesFollow (w₀ : World) (c : Call) (E : Set ℕ) (w : World) : Prop where
  ports : ∀ a ∈ w.sys.ports, (w.port a).portIndex ∉ E → PrioMatches w (w.port a)
  joins : c.isJoin = true → ∀ i, reportedPrio w i = reportedPrio w₀ i

theorem PrioritiesFollow.effect (hcoherent : Coherent E w) (h : PrioritiesFollow w₀ c E w)
    (hc : c.storesAttr = false) (hok : c.PriorityFits w₀)
    (heffect : Effect R c (E, w) (E', w')) : PrioritiesFollow w₀ c E' w' := by
  have hprioChange : c.isPrioChange = false := by
    cases c <;> first | rfl | cases hc
  -- an entry of a port that is listed before and outside `E'`
  have hkept : ∀ a ∈ w.sys.ports, (w.port a).portIndex ∉ E' →
      reportedPrio w' (w.port a).portIndex = reportedPrio w (w.port a).portIndex := fun a ha hE' =>
    reportedPrio_congr (heffect.prio_eq hc (fun _ => hE') fun _ => ⟨a, ha, rfl⟩)
  constructor
  · intro b hb hbE
    cases heffect.cases hcoherent with
    | hop hop hE =>
      have hb' : b ∈ w.sys.ports := hop.engineHop.sys_eq ▸ hb
      have hindex := hop.engineHop.portIndex_eq b
      rw [hindex] at hbE
      refine ((h.ports b hb' (hE ▸ hbE)).hop (hop.engineHop.portHop b)).congr rfl rfl rfl ?_
      rw [hindex]
      exact hkept b hb' hbE
    | setSys _ _ hE _ hw =>
      have hb' : b ∈ w.sys.ports := hw.ports ▸ hb
      rw [hw.port b hb'] at hbE ⊢
      exact (h.ports b hb' (by rw [hE]; exact Set.notMem_empty _)).congr rfl rfl rfl (hkept b hb' hbE)
    | write _ _ _ hports =>
      cases hports b hb with
      | write hb' hwrite hentry =>
        have hindex := hwrite.portIndex_eq
        rw [hindex] at hbE
        refine ((h.ports b hb' (hentry hbE).1).write hwrite hprioChange).congr rfl rfl rfl ?_
        rw [hindex]
        exact hkept b hb' hbE
      | @join slot port aggId sysMac portPriority hb' hcall _ hindex _ _ _ hattr hport hprio =>
        -- the port gets the priority reported for it, in 16 bits
        subst hcall
        have hreported : reportedPrio w' (w.port b).portIndex = reportedPrio w (w.port b).portIndex := by
          refine reportedPrio_congr ?_
          rw [hattr]
        have hlt : (reportedPrio w (w.port b).portIndex).toNat < 65536 := by
          rw [h.joins rfl, hindex]
          exact hok (hindex ▸ hcoherent.index_lt b hb')
        have hvalue : portPriority.toNat = (reportedPrio w (w.port b).portIndex).toNat := by
          rw [hprio]
          show (reportedPrio w (w.port b).portIndex).toUInt16.toNat = _
          rw [UInt32.toNat_toUInt16]
          exact Nat.mod_eq_of_lt hlt
        rw [hport]
        exact ⟨hvalue.trans (congrArg _ hreported.symm), hvalue.trans (congrArg _ hreported.symm)⟩
      | reselect hb' _ _ hE _ _ _ hport =>
        rw [hport] at hbE ⊢
        exact (h.ports b hb' (by rw [hE]; exact Set.notMem_empty _)).congr rfl rfl rfl
          (hkept b hb' hbE)
      | create _ _ _ hE' _ _ hport =>
        rw [hport, hE'] at hbE
        exact absurd rfl hbE
  · intro hjoin i
    rw [← h.joins hjoin i]
    refine reportedPrio_congr ?_
    cases c with
    | portLacpEnable => exact heffect.prio_eq hc (fun hremoval => by cases hremoval) fun hsets => by cases hsets
    | _ => cases hjoin

end Effect

/-! ## One call -/

/-- `trunk_port_get_prio` reports for every port the priority that its two records have. -/
def PrioritiesAgree (w : World) : Prop :=
  ∀ a ∈ w.sys.ports, ∃ prio,
    trunkPortGetPrio w ((w.port a).portIndex / 8) ((w.port a).portIndex % 8 + 1) = some prio ∧
      (w.port a).actor.portPriority.toNat = prio.toNat ∧
      (w.port a).actorAdmin.portPriority.toNat = prio.toNat

section Call

variable {w w' : World} {c : Call} {i : ℕ}

theorem prioritiesAgree_iff :
    PrioritiesAgree w ↔ ∀ a ∈ w.sys.ports, PrioMatches w (w.port a) := by
  refine forall₂_congr fun a _ => ?_
  have hname : globalIndex ((w.port a).portIndex / 8) ((w.port a).portIndex % 8 + 1) =
      (w.port a).portIndex := by
    unfold globalIndex
    omega
  rw [trunkPortGetPrio_eq (Nat.le_add_left 1 _), hname]
  constructor
  · rintro ⟨prio, hprio, hactor, hadmin⟩
    obtain rfl := Option.some.inj hprio
    exact ⟨hactor, hadmin⟩
  · exact fun h => ⟨_, rfl, h.actor, h.actorAdmin⟩

/-- The effects of a call that passes no priority on that is too large keep the agreement. -/
theorem prioritiesAgree_of_effects (h : Coherent ∅ w) (hagree : PrioritiesAgree w)
    (hc : c.storesAttr = false) (hok : c.PriorityFits w)
    (heffects : Effects (fun _ _ => True) c (∅, w) (∅, w')) : PrioritiesAgree w' := by
  have hstart : PrioritiesFollow w c ∅ w := ⟨fun a ha _ => prioritiesAgree_iff.mp hagree a ha, fun _ _ => rfl⟩
  have hend := heffects.invariant (P := fun E v => Coherent E v ∧ PrioritiesFollow w c E v)
    (fun hP heffect => ⟨hP.1.effect heffect, hP.2.effect hP.1 hc hok heffect⟩) ⟨h, hstart⟩
  exact prioritiesAgree_iff.mpr fun a ha => hend.2.ports a ha (Set.notMem_empty _)

/-! ### `trunk_port_set_prio` -/

/-- The engine runs after a write that starts no receive machine again. -/
theorem settle_after_write {u y : World} {fuel : ℕ} {t : Set ℕ} {f : Addr → LacpPort → LacpPort}
    (h : Coherent ∅ w) (hq : Quiescent w) (hw : Update w u w.sys t f)
    (hf : ∀ b p, (f b p).core = p.core ∧ (f b p).portMoved = p.portMoved)
    (hrun : lacpSysUpdate fuel u = some y) :
    y.sys.ports = w.sys.ports ∧ (∀ j, (y.gPortList j).configured = (u.gPortList j).configured) ∧
      ∀ b ∈ w.sys.ports, (y.port b).portIndex = (w.port b).portIndex ∧
        (y.port b).priorities = (f b (w.port b)).priorities := by
  have hidle : Idle u := h.idle.update hw fun b p => (hf b p).1
  obtain ⟨hhops, -, -⟩ := lacpSysUpdate_spec hidle hrun
  refine ⟨(hops_ports_eq hhops).trans hw.ports, hops_configured hhops, fun b hb => ?_⟩
  have hquiet := (h.portQuiet hq hb).isStarted ((h.port b hb).enabled (Set.notMem_empty _))
  have hport := hw.port b hb
  obtain ⟨hcore, hmoved⟩ := hf b (w.port b)
  have hstarted : Started (u.port b) := by
    rw [hport]
    exact hquiet.of_core hcore hmoved
  have hview : ∀ {v : World} {q : LacpPort}, Started (v.port b) → PortHop v b q →
      (q.portIndex, q.priorities) = ((v.port b).portIndex, (v.port b).priorities) := by
    intro v q hv hop
    obtain ⟨hconfig, -⟩ := hv.hop hop
    have hindex : q.portIndex = (v.port b).portIndex := congrArg Prod.fst hconfig.membership
    exact Prod.ext hindex (Prod.ext hconfig.actor.1 hconfig.actorAdmin.1)
  obtain ⟨hkept, -⟩ := hstarted.hops (V := fun p => (p.portIndex, p.priorities)) hview hhops
  obtain ⟨hindex, hpriorities⟩ := Prod.mk.inj hkept
  rw [hport] at hindex hpriorities
  exact ⟨hindex.trans (portIndex_of_core hcore), hpriorities⟩

/-- `PT_CFG_PRIO` sets the two priorities of the port, if there is one, and no others. -/
theorem priorities_of_cfgPrio {x : World} {fuel : ℕ} {prio : UInt16} (h : Coherent ∅ w)
    (hq : Quiescent w)
    (hrun : lacpPortSetCfg fuel w
      { LacpPortCfg.zero with cfgPrio := true, portPriority := prio, portBmp := portBit i } = some x) :
    x.sys.ports = w.sys.ports ∧ (∀ j, (x.gPortList j).configured = (w.gPortList j).configured) ∧
      ∀ b ∈ w.sys.ports, (x.port b).portIndex = (w.port b).portIndex ∧
        (x.port b).priorities =
          if (w.port b).portIndex = i then (prio, prio) else (w.port b).priorities := by
  rcases lacpPortSetCfg_eq h { LacpPortCfg.zero with
    cfgPrio := true, portPriority := prio, portBmp := portBit i } rfl with
    ⟨habsent, heq⟩ | ⟨a, ha, hindex, heq⟩
  · rw [heq] at hrun
    obtain ⟨y, hupdate, rfl⟩ := Option.map_eq_some_iff.mp hrun
    have hw : Update w (lacpCriticalPathStart w) w.sys ∅ fun _ p => p := update_lockDepth w ∅ _
    obtain ⟨hports, hattr, hport⟩ := settle_after_write h hq hw (fun _ _ => ⟨rfl, rfl⟩) hupdate
    refine ⟨hports, hattr, fun b hb => ?_⟩
    rw [if_neg (habsent b hb)]
    exact hport b hb
  · rw [heq] at hrun
    obtain ⟨u, hcfg, hsettle⟩ := Option.bind_eq_some_iff.mp hrun
    obtain rfl : cfgPortPrio (lacpCriticalPathStart w) a prio = u := Option.some.inj hcfg
    obtain ⟨y, hupdate, rfl⟩ := Option.map_eq_some_iff.mp hsettle
    have hlac := (h.port a ha).enabled (Set.notMem_empty _)
    have hw : Update w (cfgPortPrio (lacpCriticalPathStart w) a prio) w.sys ∅
        (reconfigured a (w.port a).aggId (prioPort prio)) :=
      (update_lockDepth w ∅ _).trans
        (update_modify_reselect _ (h.aggId_ne_zero ha hlac) rfl) subset_rfl
    have hkept : ∀ b p, (reconfigured a (w.port a).aggId (prioPort prio) b p).core = p.core ∧
        (reconfigured a (w.port a).aggId (prioPort prio) b p).portMoved = p.portMoved := by
      intro b p
      unfold reconfigured
      split
      · exact ⟨rfl, rfl⟩
      · split <;> exact ⟨rfl, rfl⟩
    obtain ⟨hports, hattr, hport⟩ := settle_after_write h hq hw hkept hupdate
    have hentries : ∀ j, (cfgPortPrio (lacpCriticalPathStart w) a prio).gPortList j = w.gPortList j :=
      fun j => hw.entry j (Set.notMem_empty j)
    refine ⟨hports, fun j => (hattr j).trans (congrArg _ (hentries j)), fun b hb => ?_⟩
    obtain ⟨hindex', hpriorities⟩ := hport b hb
    refine ⟨hindex', hpriorities.trans ?_⟩
    have hself : b = a ↔ (w.port b).portIndex = i := by
      rw [← hindex]
      exact ⟨fun hba => by rw [hba], fun hi => h.index_inj hb ha hi⟩
    unfold reconfigured
    by_cases hba : b = a
    · rw [if_pos hba, if_pos (hself.mp hba)]
      rfl
    · rw [if_neg hba, if_neg fun hi => hba (hself.mpr hi)]
      split <;> rfl

/-- A port that is there is a member of a group, so its priority is passed on. -/
theorem passesPrio_of_trunkPortSetPrio {slot port fuel : ℕ} {prio : UInt32} {ret : LacpRet}
    (h : Coherent ∅ w) (hq : Quiescent w) (hknown : GroupsKnown ∅ w) (hport : 1 ≤ port ∧ port ≤ 8)
    (hrun : trunkPortSetPrio fuel w slot port prio = some (w', ret)) :
    ∃ x, w' = stubSetPortPriority x (globalIndex slot port) prio ∧ x.sys.ports = w.sys.ports ∧
      (∀ j, (x.gPortList j).configured = (w.gPortList j).configured) ∧
      ∀ b ∈ w.sys.ports, (x.port b).portIndex = (w.port b).portIndex ∧
        (x.port b).priorities = if (w.port b).portIndex = globalIndex slot port then
          (prio.toUInt16, prio.toUInt16) else (w.port b).priorities := by
  simp only [trunkPortSetPrio, trunkSspGetGlobalIndex_eq hport.1, Option.bind_eq_bind,
    Option.bind_some, Option.pure_def] at hrun
  by_cases hmember : stubDbPortLacpIsEnable w slot port = true
  · rw [if_pos hmember] at hrun
    obtain ⟨x, hcfg, hend⟩ := Option.bind_eq_some_iff.mp hrun
    obtain ⟨rfl, -⟩ := Prod.mk.inj (Option.some.inj hend)
    exact ⟨x, rfl, priorities_of_cfgPrio h hq hcfg⟩
  · rw [if_neg hmember] at hrun
    obtain ⟨rfl, -⟩ := Prod.mk.inj (Option.some.inj hrun)
    refine ⟨w, rfl, rfl, fun _ => rfl, fun b hb => ⟨rfl, ?_⟩⟩
    rw [if_neg]
    exact fun hindex => hmember (hknown.lacpIsEnable h hport hb hindex)

/-- The reported priority after `stub_set_port_priority`. -/
theorem reportedPrio_stubSetPortPriority (x : World) (i j : ℕ) (prio : UInt32) :
    reportedPrio (stubSetPortPriority x i prio) j =
      if j = i then (if prio = 0xffffffff then defaultPortPriority.toUInt32 else prio)
      else reportedPrio x j := by
  unfold reportedPrio stubGetPortPriority stubSetPortPriority stubSetPortAttr
  by_cases hji : j = i
  · by_cases hprio : prio = 0xffffffff
    · simp [hji, hprio]
    · simp [hji, hprio]
  · simp [hji]

/-- What the engine keeps of a priority is what is reported exactly if it needs 16 bits; the value that
stands for "never set" is no exception. -/
theorem toUInt16_eq_reported_iff (prio : UInt32) :
    prio.toUInt16.toNat = (if prio = 0xffffffff then defaultPortPriority.toUInt32 else prio).toNat ↔
      prio.toNat < 65536 := by
  rw [UInt32.toNat_toUInt16]
  split
  · rename_i hunset
    subst hunset
    decide
  · exact Nat.mod_eq_iff_lt (by decide)

/-- Setting a priority keeps the agreement exactly if the priority of a port needs 16 bits. -/
theorem prioritiesAgree_of_trunkPortSetPrio {slot port fuel : ℕ} {prio : UInt32} {ret : LacpRet}
    (h : Coherent ∅ w) (hq : Quiescent w) (hknown : GroupsKnown ∅ w) (hagree : PrioritiesAgree w)
    (hport : 1 ≤ port ∧ port ≤ 8) (hrun : trunkPortSetPrio fuel w slot port prio = some (w', ret)) :
    PrioritiesAgree w' ↔ (Call.portSetPrio slot port prio).PriorityFits w := by
  obtain ⟨x, rfl, hports, hattr, hx⟩ := passesPrio_of_trunkPortSetPrio h hq hknown hport hrun
  have hiff : ∀ b ∈ w.sys.ports,
      (PrioMatches (stubSetPortPriority x (globalIndex slot port) prio) (x.port b) ↔
        ((w.port b).portIndex = globalIndex slot port → prio.toNat < 65536)) := by
    intro b hb
    obtain ⟨hindex, hpriorities⟩ := hx b hb
    have hreported := reportedPrio_stubSetPortPriority x (globalIndex slot port) (x.port b).portIndex prio
    rw [prioMatches_iff, hreported, hpriorities, hindex]
    by_cases hb' : (w.port b).portIndex = globalIndex slot port
    · rw [if_pos hb', if_pos hb']
      show (_ ∧ _) ↔ _
      rw [toUInt16_eq_reported_iff]
      exact ⟨fun hlt _ => hlt.1, fun hlt => ⟨hlt hb', hlt hb'⟩⟩
    · have hprio : ((x.gPortList (w.port b).portIndex).configured).prio =
          ((w.gPortList (w.port b).portIndex).configured).prio := by rw [hattr]
      rw [if_neg hb', if_neg hb', reportedPrio_congr hprio]
      exact ⟨fun _ hindex => absurd hindex hb',
        fun _ => prioMatches_iff.mp (prioritiesAgree_iff.mp hagree b hb)⟩
  rw [prioritiesAgree_iff]
  constructor
  · rintro hmatches ⟨b, hb, hindex⟩
    exact (hiff b hb).mp (hmatches b (hports ▸ hb)) hindex
  · intro hok b hb
    have hb' : b ∈ w.sys.ports := hports ▸ hb
    exact (hiff b hb').mpr fun hindex => hok ⟨b, hb', hindex⟩

/-! ### Every call -/

/-- Joining leaves the reported priorities as they are. -/
theorem reportedPrio_of_join (hjoin : c.isJoin = true)
    (heffects : Effects (fun _ _ => True) c (∅, w) (∅, w')) (i : ℕ) :
    reportedPrio w' i = reportedPrio w i := by
  refine heffects.invariant (P := fun _ v => reportedPrio v i = reportedPrio w i) ?_ rfl
  intro E v E' v' hP heffect
  rw [← hP]
  refine reportedPrio_congr ?_
  cases c with
  | portLacpEnable => exact heffect.prio_eq rfl (fun hremoval => by cases hremoval) fun hsets => by cases hsets
  | _ => cases hjoin

/-- After a call the priorities agree exactly if the priority it passes on fits. -/
theorem prioritiesAgree_of_step (h : Coherent ∅ w) (hq : Quiescent w) (hknown : GroupsKnown ∅ w)
    (hagree : PrioritiesAgree w) (hstep : Step c w w') :
    PrioritiesAgree w' ↔ c.PriorityFits w := by
  obtain ⟨hrange, fuel, ret, hrun⟩ := hstep
  obtain ⟨heffects, -⟩ := completes_of_step (R := fun _ _ => True) h hq trivial ⟨hrange, fuel, ret, hrun⟩
  cases c with
  | portSetPrio slot port prio => exact prioritiesAgree_of_trunkPortSetPrio h hq hknown hagree hrange.2 hrun
  | setPortLinkStatus portIndex linkStatus =>
    obtain ⟨rfl, -⟩ := Prod.mk.inj (Option.some.inj hrun)
    refine iff_of_true (prioritiesAgree_iff.mpr fun a ha => ?_) trivial
    refine (prioritiesAgree_iff.mp hagree a ha).congr rfl rfl rfl (reportedPrio_congr ?_)
    simp only [trunkSspSetPortLinkStatus, stubSetPortAttr_gPortList]
    split
    · rename_i hindex
      rw [hindex]
    · rfl
  | portLacpEnable slot port aggId sysMac =>
    refine ⟨fun hagree' hlt => ?_, fun hok => prioritiesAgree_of_effects h hagree rfl hok heffects⟩
    -- the port has the priority in 16 bits now
    obtain ⟨-, a, hmember⟩ :=
      joined_of_trunkPortLacpEnable h hq ⟨hrange.2.1, hrange.2.2.1⟩ hrange.2.2.2.1 hlt hrun
    have hactor := (prioritiesAgree_iff.mp hagree' a hmember.listed).actor
    rw [hmember.portIndex, reportedPrio_of_join rfl heffects] at hactor
    rw [← hactor]
    exact UInt16.toNat_lt _
  | _ =>
    refine iff_of_true (prioritiesAgree_of_effects h hagree ?_ ?_ heffects) trivial
    · rfl
    · trivial

end Call

/-! ## Runs -/

/-- In every run in which no priority that is passed on needs more than 16 bits, the reported priorities
and those of the records agree between two calls; any other call ends that. -/
theorem reachableBy_prioritiesAgree {w : World} (h : ReachableBy (fun w c => c.PriorityFits w) w) :
    PrioritiesAgree w ∧ ∀ c w', Step c w w' → (PrioritiesAgree w' ↔ c.PriorityFits w) := by
  have hagree : PrioritiesAgree w := by
    apply h.invariant (fun _ _ ha => absurd ha List.not_mem_nil)
    intro v v' c hv ih hok hstep
    obtain ⟨hcoherent, hq⟩ := hv.coherent
    exact (prioritiesAgree_of_step hcoherent hq hv.groupsKnown ih hstep).mpr hok
  obtain ⟨hcoherent, hq⟩ := h.coherent
  exact ⟨hagree, fun c w' hstep => prioritiesAgree_of_step hcoherent hq h.groupsKnown hagree hstep⟩

/-- A member of group 1 gets the priority 70, leaves, and joins group 2 with it. -/
theorem priorityRun_prioritiesAgree :
    ∃ w, ReachableBy (fun w c => c.PriorityFits w) w ∧ 0 ∈ w.sys.ports ∧
      (w.port 0).actor.portPriority = 70 ∧
      PrioritiesAgree w ∧ ∀ c w', Step c w w' → (PrioritiesAgree w' ↔ c.PriorityFits w) := by
  have hrun : (runCalls (fun w c => decide (c.PriorityFits w)) 25 (initWorld 77)
      [.portLacpEnable 0 1 1 .zero, .portSetPrio 0 1 70, .portLacpEnable 0 1 2 .zero]).any
        (fun w => decide (0 ∈ w.sys.ports) && (w.port 0).actor.portPriority == 70) = true := by
    decide +kernel
  obtain ⟨w, h, _, hw⟩ := exists_reachableBy_of_runCalls (R := fun w c => c.PriorityFits w)
    (by decide) (fun _ _ htest => of_decide_eq_true htest) hrun
  obtain ⟨hlisted, hprio⟩ := Bool.and_eq_true_iff.mp hw
  exact ⟨w, h, of_decide_eq_true hlisted, eq_of_beq hprio, reachableBy_prioritiesAgree h⟩

/-- A member of group 1 gets the priority 70000; the engine has 4464. -/
theorem not_reachable_prioritiesAgree : ¬ ∀ w, Reachable w → PrioritiesAgree w := by
  have hrun : (runCalls (fun _ _ => true) 25 (initWorld 77)
      [.portLacpEnable 0 1 1 .zero, .portSetPrio 0 1 70000]).any
        (fun w => decide (0 ∈ w.sys.ports) && (w.port 0).actor.portPriority == 4464 &&
          (w.gPortList (w.port 0).portIndex).prio == 70000) = true := by
    decide +kernel
  obtain ⟨w, h, _, hw⟩ := exists_reachableBy_of_runCalls (R := fun _ _ => True) (by decide)
    (fun _ _ _ => trivial) hrun
  simp only [Bool.and_eq_true, beq_iff_eq, decide_eq_true_iff] at hw
  obtain ⟨⟨hlisted, hprio⟩, hreported⟩ := hw
  intro hall
  have hactor := (prioritiesAgree_iff.mp (hall w h) 0 hlisted).actor
  have hset : reportedPrio w (w.port 0).portIndex = 70000 := by
    unfold reportedPrio stubGetPortPriority
    rw [hreported]
    rfl
  rw [hprio, hset] at hactor
  exact absurd hactor (by decide)

end Lacp
