import Lacp.Calls

/-!
# Joining and leaving a link group

The calls that create, move and remove ports, and the theorem for all calls (`completes_of_step`).
-/

namespace Lacp

variable {E : Set ℕ} {w w' u v : World} {a : Addr} {R : World → Call → Prop} {c : Call}
  {fuel i slot port aggId : ℕ} {sysMac : LacpMac}

theorem Completes.trans (h : Completes R c w v) (h' : Completes R c v w') : Completes R c w w' :=
  ⟨h.1.trans h'.1, h'.2⟩

theorem trunkSspGetGlobalIndex_eq (hport : 1 ≤ port) :
    trunkSspGetGlobalIndex slot port = some (globalIndex slot port) :=
  if_neg (by omega)

theorem globalIndex_div (hport : 1 ≤ port ∧ port ≤ 8) : globalIndex slot port / 8 = slot := by
  simp only [globalIndex]
  omega

theorem globalIndex_mod (hport : 1 ≤ port ∧ port ≤ 8) : globalIndex slot port % 8 + 1 = port := by
  simp only [globalIndex]
  omega

/-! ## Enabling a port -/

/-- `lacp_create_ports` at rest: the engine runs on a list with the new port, or, for a listed port or
an index out of range, on what is there. -/
theorem lacpCreatePorts_eq (hok : R w c)
    (hc : c = .portLacpEnable slot port aggId sysMac) (hi : i = globalIndex slot port) :
    ((∀ fuel, lacpCreatePorts fuel w (fun _ => sysMac) (portBit i) = lacpSysUpdate fuel w) ∧
        (lacpPortMax ≤ i ∨ ∃ a ∈ w.sys.ports, (w.port a).portIndex = i)) ∨
      ∃ u, (∀ fuel, lacpCreatePorts fuel w (fun _ => sysMac) (portBit i) = lacpSysUpdate fuel u) ∧
        Effects R c (∅, w) ({i}, u) ∧ w.brk ∈ u.sys.ports ∧
        u.port w.brk = createdPort w sysMac i ∧ ∀ a ∈ w.sys.ports, (w.port a).portIndex ≠ i := by
  have hskip : ∀ w, ∀ j ≠ i, createPortIndex (fun _ => sysMac) (portBit i) w j = w := by
    intro w j hj
    simp [createPortIndex, lacpBitmapGetBit_portBit, hj]
  simp only [lacpCreatePorts, foldl_range_of_skip hskip]
  by_cases hlt : i < lacpPortMax
  · rw [if_pos hlt, createPortIndex, lacpBitmapGetBit_portBit, decide_eq_true rfl, if_pos rfl]
    cases hcreate : lacpPortCreate w sysMac i with
    | none =>
      have hlisted : w.sys.ports.any (fun a => (w.port a).portIndex == i) = true := by
        by_contra hnone
        simp [lacpPortCreate, hnone] at hcreate
      obtain ⟨a, ha, hindex⟩ := List.any_eq_true.mp hlisted
      exact .inl ⟨fun _ => rfl, .inr ⟨a, ha, beq_iff_eq.mp hindex⟩⟩
    | some u =>
      subst hi
      have hcreated : Effect R c (∅, w) ({globalIndex slot port}, u) :=
        .create hc hlt hcreate hok
      -- the port inventory is none of the engine's business
      set u' : World := { u with sys := { u.sys with
        numberOfPorts := u.sys.numberOfPorts + 1
        portmap := lacpBitmapSetBit u.sys.portmap (globalIndex slot port) } } with hu'
      have hrest : Update u u' u.sys (absentIndices u) fun _ p => p :=
        ⟨rfl, rfl, fun _ _ => rfl, rfl, rfl, fun _ => rfl, fun _ => rfl, fun _ _ => rfl,
          fun _ _ _ => rfl⟩
      obtain ⟨habsent, rfl⟩ := lacpPortCreate_eq_some hcreate
      exact .inr ⟨u', fun _ => rfl, .tail (.single hcreated) (.rest hrest (.inl rfl) (.inl rfl)),
        List.mem_cons_self, withCreated_port_self w sysMac _, habsent⟩
  · rw [if_neg hlt]
    exact .inl ⟨fun _ => rfl, .inl (Nat.le_of_not_lt hlt)⟩

/-- `lacp_create_ports` at rest changes nothing, or it leaves a new port that runs no LACP yet and has no
link. -/
theorem lacpCreatePorts_eq_some (h : Coherent ∅ w) (hq : Quiescent w) (hok : R w c)
    (hc : c = .portLacpEnable slot port aggId sysMac) (hi : i = globalIndex slot port)
    (hrun : lacpCreatePorts fuel w (fun _ => sysMac) (portBit i) = some w') :
    (w' = w ∧ (lacpPortMax ≤ i ∨ ∃ a ∈ w.sys.ports, (w.port a).portIndex = i)) ∨
      Effects R c (∅, w) ({i}, w') ∧ Quiescent w' ∧ (∀ a ∈ w.sys.ports, (w.port a).portIndex ≠ i) ∧
      ∃ a ∈ w'.sys.ports, (w'.port a).portIndex = i ∧ (w'.port a).lacpEnabled = false ∧
        (w'.port a).portEnabled = false := by
  rcases lacpCreatePorts_eq hok hc hi with
    ⟨hcreate, hlisted⟩ | ⟨u, hcreate, heffects, hmem, hnew, habsent⟩
  · rw [hcreate] at hrun
    exact .inl ⟨lacpSysUpdate_of_quiescent h.idle hq hrun, hlisted⟩
  · rw [hcreate] at hrun
    obtain ⟨hhops, hq', _⟩ := lacpSysUpdate_spec (h.effects heffects).idle hrun
    refine .inr ⟨heffects.trans (Effects.of_hops hhops), hq', habsent, w.brk, ?_, ?_⟩
    · rw [hops_sys_eq hhops]
      exact hmem
    · have hsettings := hops_settings_eq hhops w.brk
      rw [hnew] at hsettings
      exact ⟨congrArg PortSettings.portIndex hsettings,
        congrArg PortSettings.lacpEnabled hsettings, congrArg PortSettings.portEnabled hsettings⟩

/-- The configuration of `trunk_port_lacp_enable`. -/
def joinCfg (i aggId : ℕ) (prio : UInt16) : LacpPortCfg where
  cfgState := true
  cfgCost := true
  cfgPrio := true
  cfgStat := true
  portBmp := portBit i
  lacpEnabled := true
  portPriority := prio
  aggId := aggId

/-- `lacp_port_set_cfg` on a listed port that joins a group, once the database knows it: one write, and
then the engine runs. -/
theorem exists_update_join (h : Coherent E w) (hport : 1 ≤ port ∧ port ≤ 8) (haggId : 1 ≤ aggId)
    {a : Addr} (ha : a ∈ w.sys.ports) (hindex : (w.port a).portIndex = globalIndex slot port)
    (prio : UInt16) :
    ∃ x, Update w x w.sys {globalIndex slot port} (reconfigured a aggId (enablePort aggId prio)) ∧
      x.gLinkGroups = (stubDbAggAddMember w aggId slot port).gLinkGroups ∧
      x.gPortList = w.gPortList ∧
      ∀ fuel, lacpPortSetCfg fuel (stubDbAggAddMember w aggId slot port)
        (joinCfg (globalIndex slot port) aggId prio) =
          (lacpSysUpdate fuel x).map lacpCriticalPathEnd := by
  -- the database learns of the port before its record does
  have hadd : Update w (stubDbAggAddMember w aggId slot port) w.sys {globalIndex slot port}
      fun _ p => p := update_stubDbAggAddMember aggId hport
  have hadded : Coherent E (stubDbAggAddMember w aggId slot port) :=
    h.update hadd (fun _ _ => rfl) h.port
  rcases lacpPortSetCfg_eq hadded (joinCfg (globalIndex slot port) aggId prio) rfl with
    ⟨habsent, _⟩ | ⟨b, hb, hbindex, hrun⟩
  · exact absurd hindex (habsent a ha)
  · obtain rfl := h.index_inj (a := b) hb ha (hbindex.trans hindex.symm)
    -- every block applies, with no run of the engine between them
    set v := lacpCriticalPathStart (stubDbAggAddMember w aggId slot port) with hv
    set x := cfgPortPrio (cfgPortStat (lacpPortSetReselect (setLacpEnabled (addToAgg v b aggId) b true)
      (some b)) b) b prio with hx
    have hw : Update w x w.sys {globalIndex slot port}
        (reconfigured b aggId (enablePort aggId prio)) :=
      (hadd.trans (update_lockDepth _ ∅ _) (Set.empty_subset _)).trans
        (update_enable haggId prio) (Set.empty_subset _)
    have hxattr : x.gPortList = w.gPortList := by
      simp only [hx, cfgPortPrio, cfgPortStat, lacpPortSetReselect_gPortList, setLacpEnabled, addToAgg,
        modify_gPortList]
      rfl
    have hxgroups : x.gLinkGroups = (stubDbAggAddMember w aggId slot port).gLinkGroups := by
      simp only [hx, cfgPortPrio, cfgPortStat, lacpPortSetReselect_gLinkGroups, setLacpEnabled,
        addToAgg, modify_gLinkGroups]
      rfl
    exact ⟨x, hw, hxgroups, hxattr, hrun⟩

/-- A port joins a group, once the database knows it. -/
theorem settles_join (hports : Coherent E w) (hq : Quiescent w)
    (hc : c = .portLacpEnable slot port aggId sysMac) (hport : 1 ≤ port ∧ port ≤ 8)
    (haggId : 1 ≤ aggId) (hE : E ⊆ {globalIndex slot port})
    (hok : ∀ a ∈ w.sys.ports, (w.port a).portIndex = globalIndex slot port →
      (w.port a).lacpEnabled = true → R w c)
    (hlisted : (E = ∅ ∧ lacpPortMax ≤ globalIndex slot port) ∨
      ∃ a ∈ w.sys.ports, (w.port a).portIndex = globalIndex slot port)
    {prio : UInt16} (hprio : prio = c.newPriority w (globalIndex slot port)) :
    Settles R c E w fun fuel => lacpPortSetCfg fuel (stubDbAggAddMember w aggId slot port)
      (joinCfg (globalIndex slot port) aggId prio) := by
  by_cases hfound : ∃ a ∈ w.sys.ports, (w.port a).portIndex = globalIndex slot port
  · obtain ⟨a, ha, hindex⟩ := hfound
    obtain ⟨x, hw, hxgroups, hxattr, hrun⟩ := exists_update_join hports hport haggId ha hindex prio
    exact ⟨x, .single (.join hc haggId ha hindex hE hq (hok a ha hindex) hw hxgroups hxattr hprio),
      hrun⟩
  · have hadd : Update w (stubDbAggAddMember w aggId slot port) w.sys {globalIndex slot port}
        fun _ p => p := update_stubDbAggAddMember aggId hport
    have hadded : Coherent E (stubDbAggAddMember w aggId slot port) :=
      hports.update hadd (fun _ _ => rfl) hports.port
    rcases lacpPortSetCfg_eq hadded (joinCfg (globalIndex slot port) aggId prio) rfl with
      ⟨habsent, hrun⟩ | ⟨a, ha, hindex, _⟩
    · obtain ⟨rfl, hmax⟩ := hlisted.resolve_right hfound
      refine ⟨lacpCriticalPathStart (stubDbAggAddMember w aggId slot port), ?_, hrun⟩
      refine .single (.rest ?_ (.inr ⟨slot, port, aggId, sysMac, hc, hmax⟩) (.inl rfl))
      refine (hadd.trans (update_lockDepth _ ∅ _) (Set.empty_subset _)).congr (fun _ _ => rfl) ?_
      exact Set.singleton_subset_iff.mpr habsent
    · exact absurd ⟨a, ha, hindex⟩ hfound

/-- After `lacp_create_ports` the port can join. -/
theorem settles_join_of_create (h : Coherent ∅ w) (hq : Quiescent w) (hok : R w c)
    (hc : c = .portLacpEnable slot port aggId sysMac) (hport : 1 ≤ port ∧ port ≤ 8)
    (haggId : 1 ≤ aggId)
    (hcreate : lacpCreatePorts fuel w (fun _ => sysMac) (portBit (globalIndex slot port)) = some u) :
    ∃ E, Effects R c (∅, w) (E, u) ∧
      Settles R c E u fun fuel => lacpPortSetCfg fuel (stubDbAggAddMember u aggId slot port)
        (joinCfg (globalIndex slot port) aggId (c.newPriority u (globalIndex slot port))) := by
  rcases lacpCreatePorts_eq_some (R := R) h hq hok hc rfl hcreate with
    ⟨rfl, hlisted⟩ | ⟨heffects, hq', -, a, ha, hindex, hlac, -⟩
  · exact ⟨∅, .refl, settles_join h hq hc hport haggId (Set.empty_subset _) (fun _ _ _ _ => hok)
      (hlisted.imp_left fun hmax => ⟨rfl, hmax⟩) rfl⟩
  · have hu := h.effects heffects
    refine ⟨_, heffects, settles_join hu hq' hc hport haggId subset_rfl ?_ (.inr ⟨a, ha, hindex⟩) rfl⟩
    intro b hb hbindex hblac
    obtain rfl := hu.index_inj hb ha (hbindex.trans hindex.symm)
    exact absurd hblac (by simp [hlac])

/-- `trunk_port_lacp_enable` at rest. -/
theorem completes_trunkPortLacpEnable (h : Coherent ∅ w) (hq : Quiescent w)
    (hok : R w (.portLacpEnable slot port aggId sysMac)) (hport : 1 ≤ port ∧ port ≤ 8)
    (haggId : 1 ≤ aggId) {ret : LacpRet}
    (hrun : trunkPortLacpEnable fuel w slot port aggId sysMac = some (w', ret)) :
    Completes R (.portLacpEnable slot port aggId sysMac) w w' := by
  simp only [trunkPortLacpEnable, trunkSspGetGlobalIndex_eq hport.1, trunkPortGetPrio,
    Option.map_some, Option.bind_eq_bind, Option.bind_eq_some_iff] at hrun
  obtain ⟨u, hcreate, v, hcfg, hlink⟩ := hrun
  obtain ⟨E, he, hsettles⟩ := settles_join_of_create h hq hok rfl hport haggId hcreate
  obtain ⟨hjoin, hq'⟩ := hsettles.effects (h.effects he) hcfg
  have hjoined : Completes R _ w v := ⟨he.trans hjoin, hq'⟩
  have hv := h.effects hjoined.1
  exact hjoined.trans ((serves_lacpPortLinkChange hv hq' rfl rfl (.inl rfl)).completes hv hlink)

/-! ## Removing ports -/

/-- The configuration of `trunk_port_lacp_disable_batch`. -/
def leaveCfg (ports : LacpBitmap) : LacpPortCfg :=
  { LacpPortCfg.zero with cfgState := true, lacpEnabled := false, aggId := 0, portBmp := ports }

/-- `PT_CFG_STATE` with `lacp_enabled` false: the configuration disables LACP on the ports it names. -/
def LacpPortCfg.Disabling (cfg : LacpPortCfg) : Prop := cfg.cfgState = true ∧ cfg.lacpEnabled = false

theorem leaveCfg_disabling (ports : LacpBitmap) : (leaveCfg ports).Disabling := ⟨rfl, rfl⟩

/-- The members of the bridge after some of them, those with an index in `gone`, left their groups:
the list and the indices are as they were, and exactly these ports were disabled. -/
structure Leaves (R : World → Call → Prop) (c : Call) (E gone : Set ℕ) (v w' : World) : Prop where
  effects : Effects R c (E, v) (E, w')
  ports : w'.sys.ports = v.sys.ports
  portIndex : ∀ a ∈ v.sys.ports, (w'.port a).portIndex = (v.port a).portIndex
  lacpEnabled : ∀ a ∈ v.sys.ports, (w'.port a).lacpEnabled = false ↔
    (v.port a).lacpEnabled = false ∨ (v.port a).portIndex ∈ gone

namespace Leaves

variable {gone gone' : Set ℕ}

/-- Nobody leaves. -/
theorem refl (hgone : ∀ a ∈ v.sys.ports, (v.port a).portIndex ∉ gone) : Leaves R c E gone v v where
  effects := .refl
  ports := rfl
  portIndex := fun _ _ => rfl
  lacpEnabled := fun a ha => (or_iff_left (hgone a ha)).symm

theorem trans (h : Leaves R c E gone v u) (h' : Leaves R c E gone' u w') :
    Leaves R c E (gone ∪ gone') v w' where
  effects := h.effects.trans h'.effects
  ports := h'.ports.trans h.ports
  portIndex := fun a ha => (h'.portIndex a (h.ports ▸ ha)).trans (h.portIndex a ha)
  lacpEnabled := fun a ha => by
    rw [h'.lacpEnabled a (h.ports ▸ ha), h.lacpEnabled a ha, h.portIndex a ha, Set.mem_union, or_assoc]

/-- The first rounds of the loop disable ports of smaller indices only. -/
theorem enabled_next {n : ℕ} (h : Leaves R c E {j | j < n ∧ j ∈ E} v w')
    (hlac : ∀ a ∈ v.sys.ports, (v.port a).lacpEnabled = true) {a : Addr} (ha : a ∈ w'.sys.ports)
    (hindex : (w'.port a).portIndex = n) : (w'.port a).lacpEnabled = true := by
  rw [h.ports] at ha
  rw [h.portIndex a ha] at hindex
  by_contra hoff
  rcases (h.lacpEnabled a ha).mp (by simpa using hoff) with hoff | hin
  · exact absurd (hlac a ha) (by simp [hoff])
  · exact absurd hin.1 (by omega)

end Leaves

/-- Neither the notification of a partner nor the engine changes a membership. -/
theorem membership_of_notified {x : World} {a : Addr}
    (hhops : Relation.ReflTransGen OrderedHop (notifyPartner v a) x) (b : Addr) :
    (x.port b).portIndex = (v.port b).portIndex ∧ (x.port b).lacpEnabled = (v.port b).lacpEnabled ∧
      (x.port b).aggId = (v.port b).aggId := by
  have hsettings := hops_settings_eq hhops b
  have hnotified : ((notifyPartner v a).port b).portIndex = (v.port b).portIndex ∧
      ((notifyPartner v a).port b).lacpEnabled = (v.port b).lacpEnabled ∧
      ((notifyPartner v a).port b).aggId = (v.port b).aggId := by
    simp only [notifyPartner, modify_port]
    split
    · rename_i hba
      subst hba
      exact ⟨rfl, rfl, rfl⟩
    · exact ⟨rfl, rfl, rfl⟩
  exact ⟨(congrArg PortSettings.portIndex hsettings).trans hnotified.1,
    (congrArg PortSettings.lacpEnabled hsettings).trans hnotified.2.1,
    (congrArg PortSettings.aggId hsettings).trans hnotified.2.2⟩

/-- A port leaves its group: its partner is told, the engine runs, the group is selected anew. -/
theorem cfgPort_leave (h : Coherent E v) (hc : c.isRemoval = true) {ports : LacpBitmap} {a : Addr}
    (ha : a ∈ v.sys.ports) (hE : (v.port a).portIndex ∈ E) (hlac : (v.port a).lacpEnabled = true)
    (hrun : cfgPort fuel (leaveCfg ports) v a = some w') :
    Leaves R c E {(v.port a).portIndex} v w' := by
  obtain ⟨y, hstate, rfl⟩ := Option.map_eq_some_iff.mp hrun
  obtain ⟨x, hupdate, rfl⟩ := Option.map_eq_some_iff.mp hstate
  have hnotify : Effect R c (E, v) (E, notifyPartner v a) :=
    .notify hc ha hE (update_modify v notifyPort)
  obtain ⟨hhops, hq, _⟩ := lacpSysUpdate_spec (h.effect hnotify).idle hupdate
  have hx := (h.effect hnotify).hops hhops
  have hports : x.sys.ports = v.sys.ports := by
    rw [hops_sys_eq hhops]
    rfl
  have hxa : a ∈ x.sys.ports := hports ▸ ha
  have hkeep := fun b => membership_of_notified hhops b
  have hxlac : (x.port a).lacpEnabled = true := (hkeep a).2.1.trans hlac
  have hw := update_leave (hx.aggId_ne_zero hxa hxlac)
  have hleave : Effect R c (E, x) (E, setLacpEnabled (leaveAgg x a) a false) :=
    .leave hc hxa ((hkeep a).1 ▸ hE) hq hxlac hw
  have hport : ∀ b ∈ v.sys.ports, (setLacpEnabled (leaveAgg x a) a false).port b =
      reconfigured a (x.port a).aggId leavePort b (x.port b) := fun b hb => hw.port b (hports ▸ hb)
  refine ⟨.tail (.head hnotify (Effects.of_hops hhops)) hleave, hw.ports.trans hports, ?_, ?_⟩
  · intro b hb
    show ((setLacpEnabled (leaveAgg x a) a false).port b).portIndex = _
    rw [hport b hb, ← (hkeep b).1]
    exact portIndex_of_core (reconfigured_core (u := leavePort) (fun _ => rfl) _ _ _ _)
  · intro b hb
    show ((setLacpEnabled (leaveAgg x a) a false).port b).lacpEnabled = false ↔ _
    rw [hport b hb]
    by_cases hba : b = a
    · subst hba
      simp only [reconfigured, if_true, leavePort]
      exact iff_of_true trivial (.inr rfl)
    · have hne : (v.port b).portIndex ∉ ({(v.port a).portIndex} : Set ℕ) :=
        fun hbi => hba (h.index_inj hb ha hbi)
      have hsame : (reconfigured a (x.port a).aggId leavePort b (x.port b)).lacpEnabled =
          (v.port b).lacpEnabled := by
        simp only [reconfigured, if_neg hba]
        split <;> exact (hkeep b).2.1
      rw [hsame, or_iff_left hne]

/-- The port of one index leaves its group. -/
theorem cfgPortIndex_leave (h : Coherent E v) (hc : c.isRemoval = true) {ports : LacpBitmap}
    (hbit : lacpBitmapGetBit ports i = true ↔ i ∈ E)
    (hlac : ∀ a ∈ v.sys.ports, (v.port a).portIndex = i → (v.port a).lacpEnabled = true)
    (hrun : cfgPortIndex fuel (leaveCfg ports) v i = some w') :
    Leaves R c E {j | j = i ∧ i ∈ E} v w' := by
  have hbit' : lacpBitmapGetBit (leaveCfg ports).portBmp i = true ↔ i ∈ E := hbit
  simp only [cfgPortIndex] at hrun
  by_cases hi : i ∈ E
  · rw [if_neg (by simp [hbit'.mpr hi])] at hrun
    cases hfind : lacpPortFind v i with
    | none =>
      rw [hfind] at hrun
      obtain rfl := Option.some.inj hrun
      exact .refl fun a ha hin => lacpPortFind_eq_none.mp hfind a ha hin.1
    | some a =>
      rw [hfind] at hrun
      obtain ⟨ha, rfl⟩ := lacpPortFind_eq_some hfind
      have hgone : {j | j = (v.port a).portIndex ∧ (v.port a).portIndex ∈ E} =
          {(v.port a).portIndex} := Set.ext fun j => and_iff_left hi
      rw [hgone]
      exact cfgPort_leave h hc ha hi (hlac a ha rfl) hrun
  · rw [if_pos (by simp [mt hbit'.mp hi])] at hrun
    obtain rfl := Option.some.inj hrun
    exact .refl fun _ _ hin => hi hin.2

/-- The loop over the ports that leave. -/
theorem foldlM_leave (h : Coherent E v) (hc : c.isRemoval = true) {ports : LacpBitmap} {n : ℕ}
    (hbits : ∀ j < n, lacpBitmapGetBit ports j = true ↔ j ∈ E)
    (hlac : ∀ a ∈ v.sys.ports, (v.port a).lacpEnabled = true)
    (hrun : (List.range n).foldlM (cfgPortIndex fuel (leaveCfg ports)) v = some w') :
    Leaves R c E {j | j < n ∧ j ∈ E} v w' := by
  induction n generalizing w' with
  | zero =>
    obtain rfl := Option.some.inj hrun
    exact .refl fun _ _ hin => absurd hin.1 (Nat.not_lt_zero _)
  | succ n ih =>
    rw [List.range_succ, List.foldlM_append] at hrun
    obtain ⟨x, hx, hlast⟩ := Option.bind_eq_some_iff.mp hrun
    simp only [List.foldlM_cons, List.foldlM_nil, Option.pure_def, Option.bind_eq_bind,
      Option.bind_fun_some] at hlast
    have hleft := ih (fun j hj => hbits j (by omega)) hx
    have hlastLeft := cfgPortIndex_leave (R := R) (h.effects hleft.effects) hc
      (hbits n (by omega)) (fun _ ha hindex => hleft.enabled_next hlac ha hindex) hlast
    have hgone : {j | j < n + 1 ∧ j ∈ E} = {j | j < n ∧ j ∈ E} ∪ {j | j = n ∧ n ∈ E} := by
      ext j
      constructor
      · rintro ⟨hlt, hE⟩
        rcases Nat.lt_succ_iff_lt_or_eq.mp hlt with hlt | rfl
        · exact .inl ⟨hlt, hE⟩
        · exact .inr ⟨rfl, hE⟩
      · rintro (⟨hlt, hE⟩ | ⟨rfl, hE⟩)
        · exact ⟨by omega, hE⟩
        · exact ⟨by omega, hE⟩
    rw [hgone]
    exact hleft.trans hlastLeft

/-- With distinct indices `lacp_port_delete` unlinks exactly the port it is given. -/
theorem mem_lacpPortDelete {a b : Addr}
    (hnodup : (w.sys.ports.map fun b => (w.port b).portIndex).Nodup) (ha : a ∈ w.sys.ports) :
    b ∈ (lacpPortDelete w a).sys.ports ↔
      b ∈ w.sys.ports ∧ (w.port b).portIndex ≠ (w.port a).portIndex := by
  obtain ⟨d, l₁, l₂, _, hd, hl, herase⟩ := List.exists_of_eraseP
    (p := fun tmp => (w.port tmp).portIndex == (w.port a).portIndex) ha (by simp)
  have hd : (w.port d).portIndex = (w.port a).portIndex := by simpa using hd
  rw [hl, List.map_append, List.map_cons, List.nodup_middle, List.nodup_cons,
    ← List.map_append] at hnodup
  simp only [lacpPortDelete]
  rw [herase, hl]
  constructor
  · intro hb
    refine ⟨?_, fun hindex => ?_⟩
    · rw [List.mem_append, List.mem_cons]
      exact (List.mem_append.mp hb).imp_right .inr
    · rw [hd, ← hindex] at hnodup
      exact hnodup.1 (List.mem_map_of_mem hb)
  · rintro ⟨hb, hindex⟩
    rw [List.mem_append, List.mem_cons] at hb
    rw [List.mem_append]
    refine hb.imp_right fun hb => hb.resolve_left ?_
    rintro rfl
    exact hindex hd

/-- `lacp_remove_ports` unlinks the ports whose indices are in the bitmap, and nothing else. -/
theorem foldl_removePortIndex (h : Coherent E v) (ports : LacpBitmap) (n : ℕ) :
    ∃ s : LacpSys, (List.range n).foldl (removePortIndex ports) v = { v with sys := s } ∧
      SysKept { v.sys with ports := s.ports } s ∧ s.ports.Sublist v.sys.ports ∧
      ∀ a ∈ v.sys.ports, a ∈ s.ports ↔
        ¬ ((v.port a).portIndex < n ∧ lacpBitmapGetBit ports (v.port a).portIndex = true) := by
  induction n with
  | zero => exact ⟨v.sys, rfl, rfl, .refl _, fun a ha => by simp [ha]⟩
  | succ n ih =>
    obtain ⟨s, hs, hkept, hsub, hmem⟩ := ih
    rw [List.range_succ, List.foldl_append, hs]
    simp only [List.foldl_cons, List.foldl_nil, removePortIndex]
    have hskip : (∀ a ∈ s.ports, ¬ ((v.port a).portIndex = n ∧
        lacpBitmapGetBit ports (v.port a).portIndex = true)) →
        ∀ a ∈ v.sys.ports, a ∈ s.ports ↔ ¬ ((v.port a).portIndex < n + 1 ∧
          lacpBitmapGetBit ports (v.port a).portIndex = true) := by
      intro hnot a ha
      constructor
      · rintro has ⟨hlt, hbit⟩
        rcases Nat.lt_succ_iff_lt_or_eq.mp hlt with hlt | heq
        · exact (hmem a ha).mp has ⟨hlt, hbit⟩
        · exact hnot a has ⟨heq, hbit⟩
      · intro hna
        exact (hmem a ha).mpr fun hin => hna ⟨by omega, hin.2⟩
    split
    · rename_i hbit
      cases hfind : lacpPortFind { v with sys := s } n with
      | none =>
        refine ⟨s, rfl, hkept, hsub, hskip fun a ha hin => ?_⟩
        exact lacpPortFind_eq_none.mp hfind a ha hin.1
      | some a =>
        obtain ⟨ha, hindex⟩ := lacpPortFind_eq_some hfind
        have hindex : (v.port a).portIndex = n := hindex
        refine ⟨_, rfl, ?_, List.eraseP_sublist.trans hsub, fun b hb => ?_⟩
        · rw [SysKept] at hkept
          simp only [SysKept, lacpPortDelete]
          rw [hkept]
        · have hdeleted : b ∈ (lacpPortDelete { v with sys := s } a).sys.ports ↔
              b ∈ s.ports ∧ (v.port b).portIndex ≠ (v.port a).portIndex :=
            mem_lacpPortDelete (h.nodup.sublist (hsub.map _)) ha
          refine hdeleted.trans ?_
          rw [hmem b hb, hindex]
          constructor
          · rintro ⟨hna, hne⟩ ⟨hlt, hin⟩
            exact hna ⟨by omega, hin⟩
          · intro hna
            refine ⟨fun hin => hna ⟨by omega, hin.2⟩, fun heq => hna ⟨by omega, ?_⟩⟩
            rw [heq]
            exact hbit
    · rename_i hbit
      exact ⟨s, rfl, hkept, hsub, hskip fun a _ hin => hbit (hin.1 ▸ hin.2)⟩

/-- No machine can move after the ports that left are taken off the list: they are in no group, and the
readiness of a group depends on its members only. -/
theorem Quiescent.of_remove {s : LacpSys} (hq : Quiescent v) (h : Coherent E v)
    (hleft : ∀ a ∈ v.sys.ports, (v.port a).portIndex ∈ E → (v.port a).lacpEnabled = false)
    (hsub : s.ports.Sublist v.sys.ports)
    (hmem : ∀ a ∈ v.sys.ports, a ∈ s.ports ↔ (v.port a).portIndex ∉ E)
    (hkept : SysKept { v.sys with ports := s.ports } s) : Quiescent { v with sys := s } := by
  refine hq.of_subset hsub.subset hkept.txHoldCount (fun _ _ => rfl) fun a ha b hb hagg => ?_
  by_contra hb'
  have hbE : (v.port b).portIndex ∈ E := by
    by_contra hbE
    exact hb' ((hmem b hb).mpr hbE)
  have ha' := hsub.subset ha
  have haE : (v.port a).portIndex ∉ E := (hmem a ha').mp ha
  have hane := (h.port a ha').member.mp ((h.port a ha').enabled haE)
  have hbzero : (v.port b).aggId = 0 := by
    by_contra hne
    exact absurd ((h.port b hb).member.mpr hne) (by simp [hleft b hb hbE])
  exact hane (hagg.symm.trans hbzero)

/-- In `u` the database has forgotten the ports that the call `c` removes, and `ports` is their map. -/
structure Unlinks (c : Call) (w u : World) (ports : LacpBitmap) : Prop where
  update : Update w u w.sys (c.removes w) fun _ p => p
  groups : ∀ i ∈ c.removes w, i < 144 → ∀ g < 32,
    trunkGetPbmp (i / 8) (i % 8 + 1) (u.gLinkGroups g).ports = false
  bits : ∀ j < lacpPortMax, lacpBitmapGetBit ports j = true ↔ j ∈ c.removes w

section Unlinks

variable {ports : LacpBitmap}

theorem Unlinks.effect (hu : Unlinks c w u ports) (hq : Quiescent w) (hok : R w c)
    (hc : c.isRemoval = true) : Effect R c (∅, w) (c.removes w, lacpCriticalPathStart u) :=
  .unlink hc rfl hq hok (hu.update.trans (update_lockDepth u ∅ _) (Set.empty_subset _)) hu.groups

theorem Unlinks.lacpEnabled (hu : Unlinks c w u ports) (h : Coherent ∅ w) {a : Addr}
    (ha : a ∈ u.sys.ports) : (u.port a).lacpEnabled = true := by
  have ha' : a ∈ w.sys.ports := hu.update.ports ▸ ha
  rw [hu.update.port a ha']
  exact (h.port a ha').enabled (Set.notMem_empty _)

/-- `trunk_port_lacp_disable_batch` at rest, once the database has forgotten the ports: the ports are
taken off the list. -/
theorem Unlinks.removes (hu : Unlinks c w u ports) (h : Coherent ∅ w) (hq : Quiescent w)
    (hok : R w c) (hc : c.isRemoval = true)
    (hrun : trunkPortLacpDisableBatch fuel u ports = some w') :
    Effects R c (c.removes w, lacpCriticalPathStart u) (∅, w') ∧ Quiescent w' ∧
      ∀ a ∈ w'.sys.ports, (w'.port a).portIndex ∉ c.removes w := by
  simp only [trunkPortLacpDisableBatch, Option.bind_eq_bind, Option.pure_def,
    Option.bind_eq_some_iff] at hrun
  obtain ⟨v, hcfg, hend⟩ := hrun
  obtain rfl := Option.some.inj hend
  simp only [lacpPortSetCfg, Option.bind_eq_bind, Option.pure_def, Option.bind_eq_some_iff] at hcfg
  obtain ⟨x, hloop, y, hupdate, hend⟩ := hcfg
  obtain rfl := Option.some.inj hend
  set E := c.removes w with hE
  have hlocked : Effect R c (∅, w) (E, lacpCriticalPathStart u) := hu.effect hq hok hc
  have hstart := h.effect hlocked
  have hleaves := foldlM_leave (R := R) hstart hc hu.bits (fun _ ha => hu.lacpEnabled h ha) hloop
  have hx := hstart.effects hleaves.effects
  obtain ⟨hhops, hq', _⟩ := lacpSysUpdate_spec hx.idle hupdate
  have hy := hx.hops hhops
  have hsettled : Effects R c (E, lacpCriticalPathStart u) (E, lacpCriticalPathEnd y) :=
    .tail (.trans hleaves.effects (Effects.of_hops hhops))
      (.rest (update_lockDepth y _ _) (.inl rfl) (.inl rfl))
  have hended := hstart.effects hsettled
  have hqend : Quiescent (lacpCriticalPathEnd y) := hq'.update (update_lockDepth y ∅ _)
  obtain ⟨s, hs, hkept, hsub, hmem⟩ := foldl_removePortIndex hended ports lacpPortMax
  have hleft : ∀ a ∈ y.sys.ports, (y.port a).portIndex ∈ E → (y.port a).lacpEnabled = false := by
    intro a ha hin
    have hsettings := hops_settings_eq hhops a
    have ha' : a ∈ (lacpCriticalPathStart u).sys.ports := by
      rw [← hleaves.ports, ← hops_sys_eq hhops]
      exact ha
    have hyindex : (y.port a).portIndex = ((lacpCriticalPathStart u).port a).portIndex :=
      (congrArg PortSettings.portIndex hsettings).trans (hleaves.portIndex a ha')
    have hylac : (y.port a).lacpEnabled = (x.port a).lacpEnabled :=
      congrArg PortSettings.lacpEnabled hsettings
    rw [hylac, hleaves.lacpEnabled a ha', ← hyindex]
    exact .inr ⟨hy.index_lt a ha, hin⟩
  have hmem' : ∀ a ∈ y.sys.ports, a ∈ s.ports ↔ (y.port a).portIndex ∉ E := by
    intro a ha
    rw [hmem a ha, ← hu.bits _ (hy.index_lt a ha)]
    exact ⟨fun hna hbit => hna ⟨hy.index_lt a ha, hbit⟩, fun hna hin => hna hin.2⟩
  have hremove : Effect R c (E, lacpCriticalPathEnd y)
      (∅, lacpRemovePorts (lacpCriticalPathEnd y) ports) := by
    rw [lacpRemovePorts, hs]
    exact .remove hc hqend hleft hsub hmem' hkept rfl
  refine ⟨hsettled.tail hremove, ?_, ?_⟩
  · rw [lacpRemovePorts, hs]
    exact hqend.of_remove hended hleft hsub hmem' hkept
  · rw [lacpRemovePorts, hs]
    exact fun a ha => (hmem' a (hsub.subset ha)).mp ha

theorem Unlinks.completes (hu : Unlinks c w u ports) (h : Coherent ∅ w) (hq : Quiescent w)
    (hok : R w c) (hc : c.isRemoval = true)
    (hrun : trunkPortLacpDisableBatch fuel u ports = some w') : Completes R c w w' := by
  obtain ⟨heffects, hq', _⟩ := hu.removes h hq hok hc hrun
  exact ⟨.head (hu.effect hq hok hc) heffects, hq'⟩

end Unlinks

/-- The database part of `trunk_port_lacp_disable`. -/
theorem unlinks_stubDbAggDelMember (hport : 1 ≤ port ∧ port ≤ 8) :
    Unlinks (.portLacpDisable slot port) w (stubDbAggDelMember w slot port)
      (portBit (globalIndex slot port)) where
  update := update_stubDbAggDelMember hport
  groups := by
    rintro i rfl _ g hg
    rw [globalIndex_div hport, globalIndex_mod hport]
    exact trunkGetPbmp_stubDbAggDelMember_self w slot port hg
  bits := fun j _ => by
    rw [lacpBitmapGetBit_portBit, decide_eq_true_iff]
    rfl

/-- `trunk_port_lacp_disable` at rest. -/
theorem completes_trunkPortLacpDisable (h : Coherent ∅ w) (hq : Quiescent w)
    (hok : R w (.portLacpDisable slot port)) (hport : 1 ≤ port ∧ port ≤ 8) {ret : LacpRet}
    (hrun : trunkPortLacpDisable fuel w slot port = some (w', ret)) :
    Completes R (.portLacpDisable slot port) w w' := by
  simp only [trunkPortLacpDisable, trunkSspGetGlobalIndex_eq hport.1] at hrun
  split at hrun
  · obtain ⟨rfl, -⟩ := Prod.mk.inj (Option.some.inj hrun)
    exact .refl hq
  · obtain ⟨v, hbatch, hend⟩ := Option.map_eq_some_iff.mp hrun
    obtain ⟨rfl, -⟩ := Prod.mk.inj hend
    exact (unlinks_stubDbAggDelMember hport).completes h hq hok rfl hbatch

/-- The loop of `trunk_agg_delete`. -/
theorem foldl_aggDeletePair (pbmp : ℕ → BitVec 8) {l : List (ℕ × ℕ)}
    (hl : ∀ pair ∈ l, 1 ≤ pair.2 ∧ pair.2 ≤ 8) (w : World) (bits : LacpBitmap) :
    Update w (l.foldl (aggDeletePair pbmp) (w, bits)).1 w.sys
        {i | trunkGetPbmp (i / 8) (i % 8 + 1) pbmp = true} (fun _ p => p) ∧
      (∀ j, lacpBitmapGetBit (l.foldl (aggDeletePair pbmp) (w, bits)).2 j = true ↔
        lacpBitmapGetBit bits j = true ∨
          ∃ pair ∈ l, trunkGetPbmp pair.1 pair.2 pbmp = true ∧ globalIndex pair.1 pair.2 = j) ∧
      ∀ slot port g, g < 32 →
        trunkGetPbmp slot port (w.gLinkGroups g).ports = false ∨
          (slot, port) ∈ l ∧ trunkGetPbmp slot port pbmp = true →
        trunkGetPbmp slot port
          ((l.foldl (aggDeletePair pbmp) (w, bits)).1.gLinkGroups g).ports = false := by
  induction l generalizing w bits with
  | nil => exact ⟨update_lockDepth w _ w.lockDepth, by simp, by simp⟩
  | cons pair l ih =>
    have hpair := hl pair List.mem_cons_self
    have hrest := fun pair' hmem => hl pair' (List.mem_cons_of_mem _ hmem)
    rw [List.foldl_cons, aggDeletePair]
    by_cases hin : trunkGetPbmp pair.1 pair.2 pbmp = true
    · rw [if_pos hin, trunkSspGetGlobalIndex_eq hpair.1]
      obtain ⟨hupdate, hbits, hclear⟩ := ih hrest (stubDbAggDelMember w pair.1 pair.2)
        (lacpBitmapSetBit bits (globalIndex pair.1 pair.2))
      have hsub : ({globalIndex pair.1 pair.2} : Set ℕ) ⊆
          {i | trunkGetPbmp (i / 8) (i % 8 + 1) pbmp = true} := by
        rw [Set.singleton_subset_iff, Set.mem_ofPred_eq, globalIndex_div hpair, globalIndex_mod hpair]
        exact hin
      refine ⟨?_, fun j => ?_, fun slot port g hg hcases => hclear slot port g hg ?_⟩
      · have hdel : Update w (stubDbAggDelMember w pair.1 pair.2) w.sys
            {i | trunkGetPbmp (i / 8) (i % 8 + 1) pbmp = true} fun _ p => p :=
          (update_stubDbAggDelMember hpair).congr (fun _ _ => rfl) hsub
        exact hdel.trans hupdate subset_rfl
      · rw [hbits j, lacpBitmapGetBit_setBit, Bool.or_eq_true, decide_eq_true_iff]
        simp only [List.mem_cons, exists_eq_or_imp, hin, true_and]
        rw [eq_comm (a := j)]
        tauto
      · rcases hcases with hfalse | ⟨hmem, htrue⟩
        · exact .inl (trunkGetPbmp_stubDbAggDelMember_of_false w _ _ hfalse)
        · rcases List.mem_cons.mp hmem with rfl | hmem
          · exact .inl (trunkGetPbmp_stubDbAggDelMember_self w _ _ hg)
          · exact .inr ⟨hmem, htrue⟩
    · rw [if_neg hin]
      obtain ⟨hupdate, hbits, hclear⟩ := ih hrest w bits
      refine ⟨hupdate, fun j => ?_, fun slot port g hg hcases => hclear slot port g hg ?_⟩
      · rw [hbits j]
        simp [hin]
      · refine hcases.imp_right fun ⟨hmem, htrue⟩ => ⟨?_, htrue⟩
        refine (List.mem_cons.mp hmem).resolve_left ?_
        rintro rfl
        exact hin htrue

/-- The database part of `trunk_agg_delete`. -/
theorem unlinks_aggDeletePairs (w : World) (aggId : ℕ) :
    Unlinks (.aggDelete aggId) w
      (aggDeletePairs.foldl (aggDeletePair (stubDbAggGetMember w aggId)) (w, lacpBitmapClear)).1
      (aggDeletePairs.foldl (aggDeletePair (stubDbAggGetMember w aggId)) (w, lacpBitmapClear)).2 := by
  have hpairs : ∀ pair ∈ aggDeletePairs, 1 ≤ pair.2 ∧ pair.2 ≤ 8 := by
    intro pair hpair
    simp only [aggDeletePairs, List.mem_flatMap, List.mem_map, List.mem_range] at hpair
    obtain ⟨slot, _, i, hi, rfl⟩ := hpair
    exact ⟨by simp, by omega⟩
  obtain ⟨hupdate, hbits, hclear⟩ := foldl_aggDeletePair (stubDbAggGetMember w aggId) hpairs w
    lacpBitmapClear
  refine ⟨hupdate, fun i hi hlt g hg => ?_, fun j hj => ?_⟩
  · refine hclear _ _ g hg (.inr ⟨?_, hi⟩)
    simp only [aggDeletePairs, List.mem_flatMap, List.mem_map, List.mem_range]
    exact ⟨i / 8, by omega, i % 8, by omega, rfl⟩
  · rw [hbits j, lacpBitmapGetBit_clear]
    simp only [Bool.false_eq_true, false_or, Call.removes, Set.mem_ofPred_eq]
    constructor
    · rintro ⟨pair, hpair, hin, rfl⟩
      rwa [globalIndex_div (hpairs pair hpair), globalIndex_mod (hpairs pair hpair)]
    · intro hin
      have hlisted : ∀ j < lacpPortMax, (j / 8, j % 8 + 1) ∈ aggDeletePairs := by decide
      exact ⟨_, hlisted j hj, hin, by simp only [globalIndex]; omega⟩

/-- `trunk_agg_delete` at rest. -/
theorem completes_trunkAggDelete (h : Coherent ∅ w) (hq : Quiescent w)
    (hok : R w (.aggDelete aggId)) {ret : LacpRet}
    (hrun : trunkAggDelete fuel w aggId = some (w', ret)) : Completes R (.aggDelete aggId) w w' := by
  simp only [trunkAggDelete] at hrun
  obtain ⟨v, hbatch, hend⟩ := Option.map_eq_some_iff.mp hrun
  obtain ⟨rfl, -⟩ := Prod.mk.inj hend
  exact (unlinks_aggDeletePairs w aggId).completes h hq hok rfl hbatch

end Lacp
