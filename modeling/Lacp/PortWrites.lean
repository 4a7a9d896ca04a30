import Lacp.Preservation

/-!
# What an effect makes of one port

`Effect.cases` is the inversion of an effect as its ports see it: a hop of the engine, a system setting,
or a write for which `PortCase` says what becomes of each port that is listed afterwards, with the facts
about the call that the write comes with. Invariants about single ports are proved from it and from
`PortHop`.
-/

namespace Lacp

/-- Nothing that the key of an index depends on has changed. -/
structure SameEntry (w w' : World) (i : ℕ) : Prop where
  speed : (w'.gPortList i).speed = (w.gPortList i).speed
  duplex : (w'.gPortList i).duplex = (w.gPortList i).duplex
  tid : stubDbAggGetPortTid w' (i / 8) (i % 8 + 1) = stubDbAggGetPortTid w (i / 8) (i % 8 + 1)

theorem SameEntry.operKey {w w' : World} {i : ℕ} (h : SameEntry w w' i) :
    trunkSspGetPortOperKey w' i = trunkSspGetPortOperKey w i :=
  trunkSspGetPortOperKey_congr h.tid h.speed h.duplex

/-- What a write makes of the record of the port at `b`, where the port keeps its group and its key. -/
inductive PortWrite (R : World → Call → Prop) (c : Call) (E : Set ℕ) (w : World) (b : Addr) :
    LacpPort → Prop
  | same : PortWrite R c E w b (w.port b)
  /-- Another member of the group is reconfigured. -/
  | deselect : PortWrite R c E w b { w.port b with selected := false }
  | prio {portPriority : UInt16} (hc : c.target = some (w.port b).portIndex)
      (hlac : (w.port b).lacpEnabled = true)
      (hprio : portPriority = c.newPriority w (w.port b).portIndex) (hok : R w c)
      (hcall : c.isPrioChange = true) :
      PortWrite R c E w b { prioPort portPriority (w.port b) with selected := false }
  | stat : PortWrite R c E w b (statPort (w.port b))
  | link {linkStatus : UInt32} (hc : c.target = some (w.port b).portIndex)
      (hlac : (w.port b).lacpEnabled = true) (hq : Quiescent w)
      (hstatus : linkStatus = c.newStatus w (w.port b).portIndex)
      (hchange : ((if (w.port b).portEnabled then 1 else 0) == linkStatus) = false)
      (hcall : c.isJoin = true ∨ c.isLinkChange = true ∧ R w c) : PortWrite R c E w b
        { linkChangedPort (w.gPortList (w.port b).portIndex) linkStatus (w.port b) with
          selected := false }
  | receive {slot port : ℕ} {pdu : LacpPdu} (hc : c = .rxLacpdu slot port pdu)
      (hindex : (w.port b).portIndex = globalIndex slot port) (hlac : (w.port b).lacpEnabled = true)
      (hen : (w.port b).portEnabled = true) (hq : Quiescent w) (hok : R w c) :
      PortWrite R c E w b (receivePort pdu (w.port b))
  | moved {a : Addr} {slot port : ℕ} {pdu : LacpPdu} (hc : c = .rxLacpdu slot port pdu)
      (ha : a ∈ w.sys.ports) (hindex : (w.port a).portIndex = globalIndex slot port)
      (hen : (w.port a).portEnabled = true) (hmoved : movedPort w a pdu = some b)
      (hq : Quiescent w) (hok : R w c) : PortWrite R c E w b { w.port b with portMoved := true }
  | tick (hc : c = .oneSecond) (hq : Quiescent w) (hok : R w c) :
      PortWrite R c E w b (oneSecondPort (w.port b))
  | notify (hE : (w.port b).portIndex ∈ E) : PortWrite R c E w b (notifyPort (w.port b))
  | leave (hc : c.isRemoval = true) (hE : (w.port b).portIndex ∈ E) (hq : Quiescent w)
      (hlac : (w.port b).lacpEnabled = true) :
      PortWrite R c E w b { leavePort (w.port b) with selected := false }

/-- What becomes of a port that is listed after a write. -/
inductive PortCase (R : World → Call → Prop) (c : Call) (E E' : Set ℕ) (w w' : World) (b : Addr) : Prop
  | write (hb : b ∈ w.sys.ports) (hwrite : PortWrite R c E w b (w'.port b))
      (hE : (w.port b).portIndex ∉ E' → (w.port b).portIndex ∉ E ∧ SameEntry w w' (w.port b).portIndex)
  /-- The port joins a group, the database knows it already. -/
  | join {slot port aggId : ℕ} {sysMac : LacpMac} {portPriority : UInt16} (hb : b ∈ w.sys.ports)
      (hc : c = .portLacpEnable slot port aggId sysMac) (haggId : 1 ≤ aggId)
      (hindex : (w.port b).portIndex = globalIndex slot port) (hq : Quiescent w)
      (hok : (w.port b).lacpEnabled = true → R w c)
      (hgroups : w'.gLinkGroups = (stubDbAggAddMember w aggId slot port).gLinkGroups)
      (hattr : w'.gPortList = w.gPortList)
      (hport : w'.port b = { enablePort aggId portPriority (w.port b) with selected := false })
      (hprio : portPriority = c.newPriority w (w.port b).portIndex)
  /-- The port has a new speed or duplex value, perhaps. -/
  | reselect (hb : b ∈ w.sys.ports) (hc : c.target = some (w.port b).portIndex)
      (hlac : (w.port b).lacpEnabled = true) (hE : E = ∅) (hok : R w c)
      (hgroups : w'.gLinkGroups = w.gLinkGroups)
      (hattr : w'.gPortList (w.port b).portIndex = c.newAttr w (w.port b).portIndex)
      (hport : w'.port b = { w.port b with selected := false })
  | create {slot port aggId : ℕ} {sysMac : LacpMac} (hb : b = w.brk)
      (hc : c = .portLacpEnable slot port aggId sysMac) (hE : E = ∅)
      (hE' : E' = {globalIndex slot port}) (hok : R w c)
      (hnew : ∀ a ∈ w.sys.ports, (w.port a).portIndex ≠ globalIndex slot port)
      (hport : w'.port b = createdPort w sysMac (globalIndex slot port))

/-- What an effect is, as the ports see it. -/
inductive EffectCase (R : World → Call → Prop) (c : Call) (E E' : Set ℕ) (w w' : World) : Prop
  | hop (hop : OrderedHop w w') (hE : E' = E)
  | setSys {cfg : LacpSysCfg} (hc : c.sysCfg = some cfg) (hok : R w c) (hE : E = ∅) (hE' : E' = ∅)
      (hw : Update w w' (setSysScalar w.sys cfg) ∅
        fun _ p => updateInfoPort (setSysScalar w.sys cfg) p)
  | write (htrace : w'.trace = w.trace) (hsys : SysKept { w.sys with ports := w'.sys.ports } w'.sys)
      (htid : ∀ i, (w'.gPortList i).tid = (w.gPortList i).tid)
      (hports : ∀ b ∈ w'.sys.ports, PortCase R c E E' w w' b)
      (hgone : ∀ b ∈ w.sys.ports, b ∉ w'.sys.ports →
        (w.port b).portIndex ∈ E ∧ (w.port b).lacpEnabled = false ∧ Quiescent w)

section Cases

variable {R : World → Call → Prop} {c : Call} {E E' : Set ℕ} {w w' : World} {a b : Addr}

/-- The key of an index that an update does not touch. -/
theorem Update.sameEntry {s : LacpSys} {t : Set ℕ} {f : Addr → LacpPort → LacpPort}
    (h : Update w w' s t f) {i : ℕ} (hi : i ∉ t) : SameEntry w w' i :=
  ⟨by rw [h.entry i hi], by rw [h.entry i hi], h.member hi⟩

/-- A write to the ports, port by port. -/
theorem EffectCase.of_update {t : Set ℕ} {f : Addr → LacpPort → LacpPort} (hw : Update w w' w.sys t f)
    (hports : ∀ b ∈ w.sys.ports, PortCase R c E E' w w' b) : EffectCase R c E E' w w' := by
  refine .write hw.trace ?_ hw.tid (fun b hb => hports b (hw.ports ▸ hb)) fun b hb hb' => ?_
  · rw [hw.ports]
    exact hw.sys
  · exact absurd (hw.ports ▸ hb) hb'

/-- A write that leaves every group and every key as it is. -/
theorem EffectCase.of_writes {f : Addr → LacpPort → LacpPort} (hw : Update w w' w.sys ∅ f)
    (hports : ∀ b ∈ w.sys.ports, PortWrite R c E w b (f b (w.port b))) :
    EffectCase R c E E w w' := by
  refine .of_update hw fun b hb => .write hb ?_ fun hE => ⟨hE, hw.sameEntry (Set.notMem_empty _)⟩
  rw [hw.port b hb]
  exact hports b hb

theorem PortWrite.reconfigured {u : LacpPort → LacpPort} {g : ℕ}
    (hself : b = a → PortWrite R c E w b { u (w.port b) with selected := false }) :
    PortWrite R c E w b (Lacp.reconfigured a g u b (w.port b)) := by
  simp only [Lacp.reconfigured]
  split
  · exact hself ‹_›
  · split
    · exact .deselect
    · exact .same

theorem PortWrite.onlyAt {u : LacpPort → LacpPort}
    (hself : b = a → PortWrite R c E w b (u (w.port b))) :
    PortWrite R c E w b (Lacp.onlyAt a u b (w.port b)) := by
  simp only [Lacp.onlyAt]
  split
  · exact hself ‹_›
  · exact .same

/-- No write touches the index or the machines of a port. -/
theorem PortWrite.core {q : LacpPort} (h : PortWrite R c E w b q) : q.core = (w.port b).core := by
  cases h with
  | link => exact linkChangedPort_core _ _ _
  | same | deselect | prio | stat | receive | moved | tick | notify | leave => rfl

theorem PortWrite.portIndex_eq {q : LacpPort} (h : PortWrite R c E w b q) :
    q.portIndex = (w.port b).portIndex :=
  portIndex_of_core h.core

/-- A port that runs LACP after such a write ran it before, in the same group. -/
theorem PortWrite.group_eq {q : LacpPort} (h : PortWrite R c E w b q) (hlac : q.lacpEnabled = true) :
    (w.port b).lacpEnabled = true ∧ q.aggId = (w.port b).aggId := by
  cases h with
  | link _ hon =>
    refine ⟨hon, ?_⟩
    simp only [linkChangedPort]
    split <;> rfl
  | leave => cases hlac
  | same | deselect | prio | stat | receive | moved | tick | notify => exact ⟨hlac, rfl⟩

/-- A port that is listed after a write was listed before, with the same index and machines, or it was
created for an index that no port had. -/
theorem PortCase.core_or_created (h : PortCase R c E E' w w' b) :
    (b ∈ w.sys.ports ∧ (w'.port b).core = (w.port b).core) ∨
      b = w.brk ∧ ∃ sysMac i, (∀ a ∈ w.sys.ports, (w.port a).portIndex ≠ i) ∧
        w'.port b = createdPort w sysMac i := by
  cases h with
  | write hb hwrite => exact .inl ⟨hb, hwrite.core⟩
  | join hb _ _ _ _ _ _ _ hport | reselect hb _ _ _ _ _ _ hport =>
    rw [hport]
    exact .inl ⟨hb, rfl⟩
  | create hb _ _ _ _ hnew hport => exact .inr ⟨hb, _, _, hnew, hport⟩

/-- The inversion of an effect. -/
theorem Effect.cases (h : Coherent E w) (heffect : Effect R c (E, w) (E', w')) :
    EffectCase R c E E' w w' := by
  cases heffect with
  | hop _ hord => exact .hop hord rfl
  | rest hw =>
    refine .of_update hw fun b hb => .write hb ?_ fun hE => ⟨hE, hw.sameEntry ?_⟩
    · rw [hw.port b hb]
      exact .same
    · exact fun habsent => habsent b hb rfl
  | @store _ _ i prio linkStatus hc =>
    have hkept : ∀ j, ((stubSetPortAttr w i
        { w.gPortList i with prio := prio, linkStatus := linkStatus }).gPortList j) =
          if j = i then { w.gPortList j with prio := prio, linkStatus := linkStatus }
          else w.gPortList j := by
      intro j
      rw [stubSetPortAttr_gPortList]
      split
      · rename_i hj
        rw [hj]
      · rfl
    refine .write rfl rfl (fun j => ?_) (fun b hb => .write hb .same fun hE => ⟨hE, ?_, ?_, rfl⟩)
      fun b hb hb' => absurd hb hb'
    all_goals
      rw [hkept]
      split <;> rfl
  | @create _ _ slot port aggId sysMac hc hlt hw hok =>
    obtain ⟨hnew, rfl⟩ := lacpPortCreate_eq_some hw
    refine .write rfl rfl (fun _ => rfl) (fun b hb => ?_)
      fun b hb hb' => absurd (List.mem_cons_of_mem _ hb) hb'
    -- the new port stands at the head of the list
    rcases List.mem_cons.mp hb with rfl | hb
    · exact .create rfl hc rfl rfl hok hnew (withCreated_port_self w _ _)
    · refine .write hb ?_ fun _ => ⟨Set.notMem_empty _, rfl, rfl, rfl⟩
      rw [h.withCreated_port hb]
      exact .same
  | @join _ _ _ a slot port aggId sysMac _ hc haggId ha hindex hE hq hok hw hgroups hattr hprio =>
    refine .of_update hw fun b hb => ?_
    by_cases hba : b = a
    · subst hba
      refine .join hb hc haggId hindex hq hok hgroups hattr ?_ (hprio.trans (by rw [hindex]))
      rw [hw.port b hb, reconfigured, if_pos rfl]
    · have hi : (w.port b).portIndex ≠ globalIndex slot port :=
        fun hi => hba (h.index_inj hb ha (hi.trans hindex.symm))
      refine .write hb ?_ fun _ => ⟨fun hin => hi (hE hin), hw.sameEntry hi⟩
      rw [hw.port b hb]
      exact .reconfigured fun heq => absurd heq hba
  | @reselect _ _ a hc ha hlac hw hok hgroups hattr =>
    refine .of_update hw fun b hb => ?_
    by_cases hba : b = a
    · subst hba
      refine .reselect hb hc hlac rfl hok hgroups hattr ?_
      rw [hw.port b hb, reconfigured, if_pos rfl]
      rfl
    · have hi : (w.port b).portIndex ≠ (w.port a).portIndex := fun hi => hba (h.index_inj hb ha hi)
      refine .write hb ?_ fun hE => ⟨hE, hw.sameEntry hi⟩
      rw [hw.port b hb]
      exact .reconfigured fun heq => absurd heq hba
  | prio hc ha hlac hw hprio hok hcall =>
    refine .of_writes hw fun b hb => .reconfigured ?_
    rintro rfl
    exact .prio hc hlac hprio hok hcall
  | stat hc ha hw => exact .of_writes hw fun b hb => .onlyAt fun _ => .stat
  | link hc ha hlac hq hw hstatus hchange hcall =>
    refine .of_writes hw fun b hb => .reconfigured ?_
    rintro rfl
    exact .link hc hlac hq hstatus hchange hcall
  | @receive _ _ a moved slot port pdu hc hindex ha hlac hen hq hok hmoved hw hfirst =>
    refine .of_writes hw fun b hb => ?_
    simp only [received]
    split
    · rename_i hba
      subst hba
      exact .receive hc hindex hlac hen hq hok
    · split
      · rename_i hb'
        exact .moved hc ha hindex hen (hfirst ▸ hb') hq hok
      · exact .same
  | setSys hc hok hw => exact .setSys hc hok rfl rfl hw
  | tick hc hq hw hok => exact .of_writes hw fun b hb => .tick hc hq hok
  | unlink hc hE hq hok hw =>
    refine .of_update hw fun b hb => .write hb ?_ fun hE' => ⟨Set.notMem_empty _, hw.sameEntry hE'⟩
    rw [hw.port b hb]
    exact .same
  | notify hc ha hE hw =>
    refine .of_writes hw fun b hb => .onlyAt ?_
    rintro rfl
    exact .notify hE
  | leave hc ha hE hq hlac hw =>
    refine .of_writes hw fun b hb => .reconfigured ?_
    rintro rfl
    exact .leave hc hE hq hlac
  | remove hc hq hleft hports hmem hsys hw =>
    have hport : w'.port = w.port := by rw [hw]
    refine .write (by rw [hw]) hsys (fun _ => by rw [hw]) (fun b hb => ?_) fun b hb hb' => ?_
    · have hb' := hports.subset hb
      refine .write hb' ?_ fun _ => ⟨(hmem b hb').mp hb, ?_⟩
      · rw [hport]
        exact .same
      · rw [hw]
        exact ⟨rfl, rfl, rfl⟩
    · have hin : (w.port b).portIndex ∈ E := by
        by_contra hE
        exact hb' ((hmem b hb).mpr hE)
      exact ⟨hin, hleft b hb hin, hq⟩

/-- Enabling a port leaves the configuration of every port as it is. -/
theorem Effect.configured_eq (hjoin : c.isJoin = true) (heffect : Effect R c (E, w) (E', w')) (i : ℕ) :
    (w'.gPortList i).configured = (w.gPortList i).configured := by
  cases c with
  | portLacpEnable slot port aggId sysMac =>
    cases heffect with
    | hop hop => exact hop.configured_eq i
    | rest hw hgroups hattr =>
      rcases hattr with heq | hsets
      · rw [heq]
      · cases hsets
    | store _ hstores => cases hstores
    | create _ _ hw =>
      obtain ⟨_, rfl⟩ := lacpPortCreate_eq_some hw
      rfl
    | join _ _ _ _ _ _ _ _ _ hattr => rw [hattr]
    | @reselect _ _ a _ _ _ hw _ _ hattr =>
      by_cases hi : i = (w.port a).portIndex
      · rw [hi, hattr]
        rfl
      · rw [hw.entry i hi]
    | prio _ _ _ hw | stat _ _ hw | link _ _ _ _ hw | receive _ _ _ _ _ _ _ _ hw | setSys _ _ hw
    | tick _ _ hw => rw [hw.entry i (Set.notMem_empty i)]
    | unlink hremoval => cases hremoval
    | notify hremoval => cases hremoval
    | leave hremoval => cases hremoval
    | remove hremoval => cases hremoval
  | _ => cases hjoin

end Cases

end Lacp
