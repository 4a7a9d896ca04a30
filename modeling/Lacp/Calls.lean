import Lacp.Preservation
import Lacp.Writes

/-!
# Calls as sequences of effects

Between two calls the machines are coherent and no machine can move. `Completes R c w w'` says that
the call `c` leads from such a state to another one by the effects of `Effect`; `completes_of_step`
proves it for every call. With it, what every effect preserves holds of every reachable state
(`ReachableBy.invariant_of_effects`).
-/

namespace Lacp

open Relation (ReflTransGen)

/-! ## Loops over the port indices -/

section Loops

variable {i n : ℕ}

theorem lacpBitmapGetBit_portBit (i j : ℕ) :
    lacpBitmapGetBit (portBit i) j = decide (j = i) := by
  simp [portBit]

/-- A loop that passes over every index but one. -/
theorem foldlM_range_of_skip {f : World → ℕ → Option World} (hskip : ∀ w, ∀ j ≠ i, f w j = some w)
    (w : World) : (List.range n).foldlM f w = if i < n then f w i else some w := by
  induction n with
  | zero => rfl
  | succ n ih =>
    rw [List.range_succ, List.foldlM_append, ih]
    simp only [Option.bind_eq_bind, List.foldlM_cons, List.foldlM_nil]
    rcases lt_trichotomy i n with hlt | rfl | hgt
    · rw [if_pos hlt, if_pos (by omega)]
      cases f w i with
      | none => rfl
      | some v => simp [hskip v n (by omega)]
    · rw [if_neg (by omega), if_pos (by omega)]
      cases hf : f w i <;> simp [hf]
    · rw [if_neg (by omega), if_neg (by omega)]
      simp [hskip w n (by omega)]

theorem foldl_range_of_skip {f : World → ℕ → World} (hskip : ∀ w, ∀ j ≠ i, f w j = w) (w : World) :
    (List.range n).foldl f w = if i < n then f w i else w := by
  induction n with
  | zero => rfl
  | succ n ih =>
    rw [List.range_succ, List.foldl_append, ih]
    simp only [List.foldl_cons, List.foldl_nil]
    rcases lt_trichotomy i n with hlt | rfl | hgt
    · rw [if_pos hlt, if_pos (by omega), hskip _ n (by omega)]
    · rw [if_neg (by omega), if_pos (by omega)]
    · rw [if_neg (by omega), if_neg (by omega), hskip w n (by omega)]

theorem lacpPortFind_eq_none {w : World} :
    lacpPortFind w i = none ↔ ∀ a ∈ w.sys.ports, (w.port a).portIndex ≠ i := by
  rw [lacpPortFind, List.find?_eq_none]
  refine forall₂_congr fun a _ => ?_
  rw [beq_iff_eq, ne_eq, eq_comm]

theorem lacpPortFind_eq_some {w : World} {a : Addr} (h : lacpPortFind w i = some a) :
    a ∈ w.sys.ports ∧ (w.port a).portIndex = i := by
  have htest := List.find?_some h
  exact ⟨List.mem_of_find?_eq_some h, (beq_iff_eq.mp htest).symm⟩

/-- A listed port is the one that is found at its index. -/
theorem Coherent.lacpPortFind_eq {E : Set ℕ} {w : World} (h : Coherent E w) {a : Addr}
    (ha : a ∈ w.sys.ports) : lacpPortFind w (w.port a).portIndex = some a := by
  cases hfind : lacpPortFind w (w.port a).portIndex with
  | none => exact absurd rfl (lacpPortFind_eq_none.mp hfind a ha)
  | some b =>
    obtain ⟨hb, hindex⟩ := lacpPortFind_eq_some hfind
    rw [h.index_inj hb ha hindex]

end Loops

/-! ## Rest -/

section Rest

variable {E : Set ℕ} {w w' u v : World} {a : Addr} {R : World → Call → Prop} {c : Call} {fuel : ℕ}

/-- The guards of a port read its record, the readiness of its group and the limit of its transmissions. -/
theorem atRest_congr (hport : w'.port a = w.port a) (hready : sysIsReady w' a = sysIsReady w a)
    (hhold : w'.sys.txHoldCount = w.sys.txHoldCount)
    (hrest : lacpRxCheckConditions w a = none ∧ lacpSelCheckConditions w a = none ∧
      lacpMuxCheckConditions w a = none ∧ lacpTxCheckConditions w a = none) :
    lacpRxCheckConditions w' a = none ∧ lacpSelCheckConditions w' a = none ∧
      lacpMuxCheckConditions w' a = none ∧ lacpTxCheckConditions w' a = none := by
  obtain ⟨hrx, hsel, hmux, htx⟩ := hrest
  refine ⟨?_, ?_, ?_, ?_⟩
  · simpa only [lacpRxCheckConditions, hport] using hrx
  · simpa only [lacpSelCheckConditions, hport] using hsel
  · simpa only [lacpMuxCheckConditions, hport, hready] using hmux
  · simpa only [lacpTxCheckConditions, hport, hhold] using htx

/-- Removing ports of other groups wakes no machine up. -/
theorem Quiescent.of_subset (hq : Quiescent w) (hsub : w'.sys.ports ⊆ w.sys.ports)
    (hhold : w'.sys.txHoldCount = w.sys.txHoldCount)
    (hport : ∀ a ∈ w.sys.ports, w'.port a = w.port a)
    (hgroup : ∀ a ∈ w'.sys.ports, ∀ b ∈ w.sys.ports, (w.port b).aggId = (w.port a).aggId →
      b ∈ w'.sys.ports) : Quiescent w' := by
  intro a ha
  have hself := hport a (hsub ha)
  -- only `sys_is_ready` looks at other ports, and only at members of the group
  have hready : sysIsReady w' a = sysIsReady w a := by
    rw [Bool.eq_iff_iff]
    simp only [sysIsReady, List.all_eq_true, hself]
    constructor
    · intro hall b hb
      by_cases hagg : (w.port b).aggId = (w.port a).aggId
      · rw [← hport b hb]
        exact hall b (hgroup a ha b hb hagg)
      · simp [Ne.symm hagg]
    · intro hall b hb
      rw [hport b (hsub hb)]
      exact hall b (hsub hb)
  exact atRest_congr hself hready hhold (hq a (hsub ha))

/-- A write that the ports do not see wakes no machine up. -/
theorem Quiescent.update (hq : Quiescent w) {t : Set ℕ} (hw : Update w w' w.sys t fun _ p => p) :
    Quiescent w' := by
  exact hq.of_subset (fun a ha => hw.ports ▸ ha) hw.sys.txHoldCount hw.port
    fun _ _ b hb _ => hw.ports ▸ hb

theorem hops_sys_eq (h : ReflTransGen OrderedHop w w') : w'.sys = w.sys := by
  induction h with
  | refl => rfl
  | tail _ hop ih => exact hop.engineHop.sys_eq.trans ih

theorem hops_ports_eq (h : ReflTransGen OrderedHop w w') : w'.sys.ports = w.sys.ports :=
  congrArg LacpSys.ports (hops_sys_eq h)

theorem hops_brk_eq (h : ReflTransGen OrderedHop w w') : w'.brk = w.brk := by
  induction h with
  | refl => rfl
  | tail _ hop ih => exact hop.engineHop.brk_eq.trans ih

theorem hops_settings_eq (h : ReflTransGen OrderedHop w w') (b : Addr) :
    (w'.port b).settings = (w.port b).settings := by
  induction h with
  | refl => rfl
  | tail _ hop ih => exact (hop.engineHop.settings_eq b).trans ih

theorem hops_portIndex_eq (h : ReflTransGen OrderedHop w w') (b : Addr) :
    (w'.port b).portIndex = (w.port b).portIndex :=
  congrArg PortSettings.portIndex (hops_settings_eq h b)

theorem hops_configured (h : ReflTransGen OrderedHop w w') (i : ℕ) :
    (w'.gPortList i).configured = (w.gPortList i).configured := by
  induction h with
  | refl => rfl
  | tail _ hop ih => exact (hop.engineHop.configured_eq i).trans ih

theorem hops_operKey (h : ReflTransGen OrderedHop w w') (i : ℕ) :
    trunkSspGetPortOperKey w' i = trunkSspGetPortOperKey w i := by
  induction h with
  | refl => rfl
  | tail _ hop ih => exact (hop.engineHop.operKey i).trans ih

theorem Coherent.hops (h : Coherent E w) (hhops : ReflTransGen OrderedHop w w') : Coherent E w' := by
  induction hhops with
  | refl => exact h
  | tail _ hop ih => exact ih.hop hop.engineHop

theorem Effects.of_hops (h : ReflTransGen OrderedHop w w') : Effects R c (E, w) (E, w') :=
  h.lift (fun w => (E, w)) fun _ _ hop => .hop hop.engineHop hop

theorem Coherent.effects {E' : Set ℕ} (h : Coherent E w) (he : Effects R c (E, w) (E', w')) :
    Coherent E' w' :=
  Effects.invariant (P := Coherent) (fun h => h.effect) he h

/-- The scheduler runs until no machine can move. -/
theorem Coherent.settle (h : Coherent E w) (hrun : lacpSysUpdate fuel w = some w') :
    Effects R c (E, w) (E, w') ∧ Quiescent w' := by
  obtain ⟨hhops, hq, _⟩ := lacpSysUpdate_spec h.idle hrun
  exact ⟨.of_hops hhops, hq⟩

/-- The indices of no listed port. -/
def absentIndices (w : World) : Set ℕ := {i | ∀ a ∈ w.sys.ports, (w.port a).portIndex ≠ i}

/-- The call leads from `w` to `w'`, where no machine can move. -/
def Completes (R : World → Call → Prop) (c : Call) (w w' : World) : Prop :=
  Effects R c (∅, w) (∅, w') ∧ Quiescent w'

theorem Completes.refl (hq : Quiescent w) : Completes R c w w := ⟨.refl, hq⟩

/-- A write at the end of a call that the engine does not see. -/
theorem Completes.rest (h : Completes R c w v)
    (hw : Update v w' v.sys (absentIndices v) fun _ p => p)
    (hgroups : w'.gLinkGroups = v.gLinkGroups) (hattr : w'.gPortList = v.gPortList) :
    Completes R c w w' :=
  ⟨h.1.tail (.rest hw (.inl hgroups) (.inl hattr)), h.2.update hw⟩

/-- A write to the priority or the link status of an entry of `g_port_list`. -/
theorem Completes.store (h : Completes R c w v) {i : ℕ} {prio linkStatus : UInt32}
    (hc : c.target = some i) (hstores : c.storesAttr = true) :
    Completes R c w (stubSetPortAttr v i
      { v.gPortList i with prio := prio, linkStatus := linkStatus }) :=
  ⟨h.1.tail (.store hc hstores), h.2.update (update_stubSetPortAttr v rfl rfl)⟩

/-- How an entry point that takes the engine's lock runs: it writes what effects of the call lead to,
and then the engine runs until no machine can move. -/
def Settles (R : World → Call → Prop) (c : Call) (E : Set ℕ) (w : World) (f : ℕ → Option World) :
    Prop :=
  ∃ u, Effects R c (E, w) (∅, u) ∧ ∀ fuel, f fuel = (lacpSysUpdate fuel u).map lacpCriticalPathEnd

theorem Settles.effects {f : ℕ → Option World} (hf : Settles R c E w f) (h : Coherent E w)
    (hrun : f fuel = some w') : Effects R c (E, w) (∅, w') ∧ Quiescent w' := by
  obtain ⟨u, he, hf⟩ := hf
  rw [hf] at hrun
  obtain ⟨v, hupdate, rfl⟩ := Option.map_eq_some_iff.mp hrun
  obtain ⟨hsettle, hq⟩ := (h.effects he).settle (R := R) (c := c) hupdate
  exact ⟨(he.trans hsettle).tail (.rest (update_lockDepth v _ _) (.inl rfl) (.inl rfl)),
    hq.update (update_lockDepth v ∅ _)⟩

theorem Settles.completes {f : ℕ → Option World} (hf : Settles R c ∅ w f) (h : Coherent ∅ w)
    (hrun : f fuel = some w') : Completes R c w w' := hf.effects h hrun

/-- How an entry point with a return value runs: it returns at once, or it settles. -/
inductive Serves (R : World → Call → Prop) (c : Call) (w : World)
    (f : ℕ → Option (World × LacpRet)) : Prop
  | done {w' : World} {ret : LacpRet} (h : Completes R c w w') (hf : ∀ fuel, f fuel = some (w', ret))
  | settle {u : World} {ret : LacpRet} (he : Effects R c (∅, w) (∅, u))
      (hf : ∀ fuel, f fuel = (lacpSysUpdate fuel u).map fun w => (lacpCriticalPathEnd w, ret))

theorem Serves.completes {f : ℕ → Option (World × LacpRet)} (hf : Serves R c w f)
    (h : Coherent ∅ w) {ret : LacpRet} (hrun : f fuel = some (w', ret)) : Completes R c w w' := by
  cases hf with
  | done hcompletes hf =>
    rw [hf] at hrun
    obtain ⟨rfl, -⟩ := Prod.mk.inj (Option.some.inj hrun)
    exact hcompletes
  | @settle u _ he hf =>
    rw [hf] at hrun
    obtain ⟨v, hupdate, hend⟩ := Option.map_eq_some_iff.mp hrun
    obtain ⟨rfl, -⟩ := Prod.mk.inj hend
    have hsettles : Settles R c ∅ w fun fuel => (lacpSysUpdate fuel u).map lacpCriticalPathEnd :=
      ⟨u, he, fun _ => rfl⟩
    exact hsettles.completes h (Option.map_eq_some_iff.mpr ⟨v, hupdate, rfl⟩)

end Rest

/-! ## `lacp_port_set_cfg` on one port -/

section SetCfg

variable {E : Set ℕ} {w w' u v : World} {a : Addr} {R : World → Call → Prop} {c : Call}
  {fuel i : ℕ} {cfg : LacpPortCfg}

/-- The loop of `lacp_port_set_cfg` finds the port with the one index in the bitmap, or none. -/
theorem lacpPortSetCfg_eq (h : Coherent E w) (cfg : LacpPortCfg) (hbmp : cfg.portBmp = portBit i) :
    (i ∈ absentIndices w ∧ ∀ fuel, lacpPortSetCfg fuel w cfg =
        (lacpSysUpdate fuel (lacpCriticalPathStart w)).map lacpCriticalPathEnd) ∨
      ∃ a ∈ w.sys.ports, (w.port a).portIndex = i ∧ ∀ fuel, lacpPortSetCfg fuel w cfg =
        (cfgPort fuel cfg (lacpCriticalPathStart w) a).bind fun u =>
          (lacpSysUpdate fuel u).map lacpCriticalPathEnd := by
  -- the bitmap has one bit, so one round of the loop counts
  have hskip : ∀ fuel w, ∀ j ≠ i, cfgPortIndex fuel cfg w j = some w := by
    intro fuel w j hj
    simp [cfgPortIndex, hbmp, lacpBitmapGetBit_portBit, hj]
  have hbit : ¬ (!lacpBitmapGetBit cfg.portBmp i) = true := by
    simp [hbmp, lacpBitmapGetBit_portBit]
  have hend : ∀ fuel (u : World), ((lacpSysUpdate fuel u).bind fun w => some (lacpCriticalPathEnd w)) =
      (lacpSysUpdate fuel u).map lacpCriticalPathEnd := fun _ _ => Option.map_eq_bind.symm
  simp only [lacpPortSetCfg, Option.bind_eq_bind, Option.pure_def, hend,
    foldlM_range_of_skip (hskip _)]
  by_cases hlt : i < lacpPortMax
  · simp only [if_pos hlt, cfgPortIndex, if_neg hbit]
    cases hfind : lacpPortFind (lacpCriticalPathStart w) i with
    | none => exact .inl ⟨lacpPortFind_eq_none.mp hfind, fun _ => rfl⟩
    | some a =>
      obtain ⟨ha, hindex⟩ := lacpPortFind_eq_some hfind
      exact .inr ⟨a, ha, hindex, fun _ => rfl⟩
  · simp only [if_neg hlt]
    refine .inl ⟨fun a ha hindex => hlt ?_, fun _ => rfl⟩
    exact hindex ▸ h.index_lt a ha

/-- A setting of one port that joins or leaves no group. -/
theorem settles_lacpPortSetCfg (h : Coherent ∅ w) (hbmp : cfg.portBmp = portBit i)
    (hfound : ∀ a ∈ w.sys.ports, (w.port a).portIndex = i → ∃ u, Effects R c (∅, w) (∅, u) ∧
      ∀ fuel, cfgPort fuel cfg (lacpCriticalPathStart w) a = some u) :
    Settles R c ∅ w fun fuel => lacpPortSetCfg fuel w cfg := by
  rcases lacpPortSetCfg_eq h cfg hbmp with ⟨_, hrun⟩ | ⟨a, ha, hindex, hrun⟩
  · exact ⟨lacpCriticalPathStart w, .single (.rest (update_lockDepth w _ _) (.inl rfl) (.inl rfl)),
      hrun⟩
  · obtain ⟨u, he, hcfg⟩ := hfound a ha hindex
    exact ⟨u, he, fun fuel => (hrun fuel).trans (by rw [hcfg, Option.bind_some])⟩

end SetCfg

/-! ## System settings, priorities, speeds and counters -/

section Settings

variable {w w' : World} {a : Addr} {R : World → Call → Prop} {c : Call} {fuel i slot port : ℕ}

/-- `lacp_sys_set_cfg` without port maps. -/
theorem settles_lacpSysSetCfg (hok : R w c) {cfg : LacpSysCfg} {sysMac : ℕ → LacpMac}
    (hc : c.sysCfg = some cfg) (hadd : cfg.cfgPbmpAdd = false) (hdel : cfg.cfgPbmpDel = false) :
    Settles R c ∅ w fun fuel => lacpSysSetCfg fuel w sysMac cfg := by
  have hports : (setSysScalar w.sys cfg).ports = w.sys.ports := by
    simp only [setSysScalar]
    repeat' split
    all_goals rfl
  refine ⟨lacpPortUpdateInfo { lacpCriticalPathStart w with sys := setSysScalar w.sys cfg },
    .single (.setSys hc hok ?_), fun fuel => ?_⟩
  rotate_left
  · simp only [lacpSysSetCfg, hadd, hdel, Bool.false_eq_true, if_false, Option.bind_eq_bind,
      Option.bind_some, Option.pure_def]
    exact Option.map_eq_bind.symm
  · exact
      { ports := hports
        sys := rfl
        port := fun b hb => if_pos (hports ▸ hb)
        brk := rfl
        trace := rfl
        tid := fun _ => rfl
        cd := fun _ => rfl
        entry := fun _ _ => rfl
        bits := fun _ _ _ => rfl }

/-- `PT_CFG_PRIO` alone. -/
theorem settles_cfgPrio (h : Coherent ∅ w) (hok : R w c) {prio : UInt16} (hc : c.target = some i)
    (hprio : prio = c.newPriority w i) (hcall : c.isPrioChange = true) :
    Settles R c ∅ w fun fuel => lacpPortSetCfg fuel w
      { LacpPortCfg.zero with cfgPrio := true, portPriority := prio, portBmp := portBit i } := by
  refine settles_lacpPortSetCfg h rfl fun a ha hindex =>
    ⟨cfgPortPrio (lacpCriticalPathStart w) a prio, ?_, fun _ => rfl⟩
  have hlac := (h.port a ha).enabled (Set.notMem_empty _)
  have hwrite : Update w (cfgPortPrio (lacpCriticalPathStart w) a prio) w.sys ∅
      (reconfigured a (w.port a).aggId (prioPort prio)) :=
    (update_lockDepth w ∅ _).trans
      (update_modify_reselect _ (h.aggId_ne_zero ha hlac) rfl) subset_rfl
  exact .single (.prio (by rw [hindex, hc]) ha hlac hwrite (by rw [hindex, hprio]) hok hcall)

/-- `PT_CFG_STAT` alone. -/
theorem settles_cfgStat (h : Coherent ∅ w) (hc : c.target = some i) :
    Settles R c ∅ w fun fuel => lacpPortSetCfg fuel w
      { LacpPortCfg.zero with cfgStat := true, portBmp := portBit i } := by
  refine settles_lacpPortSetCfg h rfl fun a ha hindex =>
    ⟨cfgPortStat (lacpCriticalPathStart w) a, ?_, fun _ => rfl⟩
  refine .single (.stat (by rw [hindex, hc]) ha ?_)
  exact (update_lockDepth w ∅ _).trans (update_modify _ statPort) subset_rfl

/-- A new speed or duplex value, and `PT_CFG_COST`. -/
theorem settles_cfgCost (h : Coherent ∅ w) (hok : R w c) (attr : PortAttr)
    (hc : c.target = some i) (hsets : c.setsAttr = true) (hattrc : attr = c.newAttr w i)
    (htid : attr.tid = (w.gPortList i).tid) (hcd : attr.cd = (w.gPortList i).cd) :
    Settles R c ∅ w fun fuel => lacpPortSetCfg fuel (stubSetPortAttr w i attr)
      { LacpPortCfg.zero with cfgCost := true, portBmp := portBit i } := by
  have hattr : Update w (stubSetPortAttr w i attr) w.sys {i} fun _ p => p :=
    update_stubSetPortAttr w htid hcd
  have hattr' : Coherent ∅ (stubSetPortAttr w i attr) := h.update hattr (fun _ _ => rfl) h.port
  rcases lacpPortSetCfg_eq hattr' { LacpPortCfg.zero with cfgCost := true, portBmp := portBit i }
    rfl with ⟨habsent, hrun⟩ | ⟨a, ha, hindex, hrun⟩
  · refine ⟨lacpCriticalPathStart (stubSetPortAttr w i attr),
      .single (.rest ?_ (.inl rfl) (.inr hsets)), hrun⟩
    refine (hattr.trans (update_lockDepth _ ∅ _) (Set.empty_subset _)).congr (fun _ _ => rfl) ?_
    exact Set.singleton_subset_iff.mpr habsent
  · have hlac := (h.port a ha).enabled (Set.notMem_empty _)
    have hentry : (lacpPortSetReselect (lacpCriticalPathStart (stubSetPortAttr w i attr))
        (some a)).gPortList (w.port a).portIndex = c.newAttr w (w.port a).portIndex := by
      rw [lacpPortSetReselect_gPortList, show (w.port a).portIndex = i from hindex, ← hattrc]
      exact if_pos rfl
    refine ⟨lacpPortSetReselect (lacpCriticalPathStart (stubSetPortAttr w i attr)) (some a),
      .single (.reselect (a := a) (by rw [hc]; exact congrArg some hindex.symm) ha hlac ?_ hok
        (lacpPortSetReselect_gLinkGroups _ _) hentry), hrun⟩
    rw [show (w.port a).portIndex = i from hindex]
    exact (hattr.trans (update_lockDepth _ ∅ _) (Set.empty_subset _)).trans
      (update_lacpPortSetReselect _ (h.aggId_ne_zero ha hlac)) (Set.empty_subset _)

/-- `lacp_port_link_change` at rest. -/
theorem serves_lacpPortLinkChange (h : Coherent ∅ w) (hq : Quiescent w)
    (hc : c.target = some i) {linkStatus : UInt32} (hstatus : linkStatus = c.newStatus w i)
    (hcall : c.isJoin = true ∨ c.isLinkChange = true ∧ R w c) :
    Serves R c w fun fuel => lacpPortLinkChange fuel w i linkStatus := by
  have hrest : ∀ d, Completes R c w { w with lockDepth := d } := fun d =>
    (Completes.refl hq).rest (update_lockDepth w _ d) rfl rfl
  simp only [lacpPortLinkChange]
  cases hfind : lacpPortFind (lacpCriticalPathStart w) i with
  | none => exact .done (hrest _) fun _ => rfl
  | some a =>
    obtain ⟨ha, hindex⟩ := lacpPortFind_eq_some hfind
    by_cases hsame : ((if (w.port a).portEnabled then 1 else 0) == linkStatus) = true
    · exact .done (hrest _) fun _ => if_pos hsame
    · have hlac := (h.port a ha).enabled (Set.notMem_empty _)
      have htarget : c.target = some (w.port a).portIndex := by
        rw [hc]
        exact congrArg some hindex.symm
      have hagg : ((linkChangedPort (w.gPortList (w.port a).portIndex) linkStatus
          (w.port a))).aggId = (w.port a).aggId := by
        simp only [linkChangedPort]
        split <;> rfl
      have hindex : (w.port a).portIndex = i := hindex
      refine .settle (.single (.link htarget ha hlac hq (?_ : Update _ _ _ _
        (reconfigured a _ (linkChangedPort _ linkStatus))) (by rw [hindex, hstatus])
        (by simpa using hsame) hcall)) fun fuel => if_neg hsame
      refine ((update_lockDepth w ∅ _).trans
        (update_modify_reselect (lacpCriticalPathStart w) (a := a) (h.aggId_ne_zero ha hlac) hagg)
        subset_rfl).congr (fun b _ => ?_) subset_rfl
      simp only [reconfigured]

/-- `lacp_rx_lacpdu` at rest. -/
theorem serves_lacpRxLacpdu (h : Coherent ∅ w) (hq : Quiescent w) {pdu : LacpPdu}
    (hc : c = .rxLacpdu slot port pdu) (hok : R w c) :
    Serves R c w fun fuel => lacpRxLacpdu fuel w (globalIndex slot port) pdu := by
  have hrest : ∀ d, Completes R c w { w with lockDepth := d } := fun d =>
    (Completes.refl hq).rest (update_lockDepth w _ d) rfl rfl
  simp only [lacpRxLacpdu]
  cases hfind : lacpPortFind (lacpCriticalPathStart w) (globalIndex slot port) with
  | none => exact .done (hrest _) fun _ => rfl
  | some a =>
    obtain ⟨ha, hindex⟩ := lacpPortFind_eq_some hfind
    by_cases hen : (!(w.port a).portEnabled) = true
    · exact .done (hrest _) fun _ => if_pos hen
    · by_cases hadmin : (!w.sys.adminState) = true
      · exact .done (hrest _) fun _ => (if_neg hen).trans (if_pos hadmin)
      · have hlac := (h.port a ha).enabled (Set.notMem_empty _)
        -- the frame may also mark one other port, of any group, as moved
        have hreceived := update_lacpRxmRxLacpdu (w := lacpCriticalPathStart w) hlac pdu
        have hen' : (w.port a).portEnabled = true := by simpa using hen
        refine .settle (.single (.receive hc hindex ha hlac hen' hq hok
          (fun _ => of_movedPort_eq_some) ?_ rfl)) fun fuel => (if_neg hen).trans (if_neg hadmin)
        exact (update_lockDepth w ∅ _).trans hreceived subset_rfl

/-- `lacp_one_second` at rest. -/
theorem settles_lacpOneSecond (h : Coherent ∅ w) (hq : Quiescent w) (hok : R w c)
    (hc : c = .oneSecond) : Settles R c ∅ w fun fuel => lacpOneSecond fuel w := by
  refine ⟨(lacpCriticalPathStart w).forPorts fun _ port => oneSecondPort port,
    .single (.tick hc hq (update_oneSecond w) hok), fun fuel => ?_⟩
  simp only [lacpOneSecond, h.adminState, Bool.not_true, Bool.false_eq_true, if_false]

end Settings

end Lacp
