import Lacp.Quiet
import Lacp.Writes

/-!
# Every effect keeps the machines in step

`Coherent.effect` is the step lemma for `Coherent`. The writes to the ports come down to one port at a
time (`Coherent.update`); the effects that need more than that are the ones that happen between two
calls, where every port is at rest, and the creation and removal of ports.
-/

namespace Lacp

/-- What no write outside the engine changes: the index and the machines. -/
def LacpPort.core (p : LacpPort) :
    ℕ × LacpStateMach RxState × LacpStateMach SelState × LacpStateMach MuxState ×
      LacpStateMach TxState :=
  (p.portIndex, p.rx, p.sel, p.mux, p.tx)

section Core

variable {p q : LacpPort} {u : LacpPort → LacpPort}

theorem portIndex_of_core (h : p.core = q.core) : p.portIndex = q.portIndex := congrArg Prod.fst h

theorem tx_of_core (h : p.core = q.core) : p.tx = q.tx := congrArg (fun core => core.2.2.2.2) h

theorem changeState_of_core (h : p.core = q.core) (m : Machine) :
    p.changeState m = q.changeState m := by
  simp only [LacpPort.core, Prod.mk.injEq] at h
  cases m <;> simp only [LacpPort.changeState, h]

theorem reconfigured_core (hu : ∀ p, (u p).core = p.core) (a b : Addr) (g : ℕ) (p : LacpPort) :
    (reconfigured a g u b p).core = p.core := by
  simp only [reconfigured]
  split
  · exact hu p
  · split <;> rfl

theorem onlyAt_core (hu : ∀ p, (u p).core = p.core) (a b : Addr) (p : LacpPort) :
    (onlyAt a u b p).core = p.core := by
  simp only [onlyAt]
  split
  · exact hu p
  · rfl

theorem received_core (a : Addr) (moved : Option Addr) (pdu : LacpPdu) (b : Addr) (p : LacpPort) :
    (received a moved pdu b p).core = p.core := by
  simp only [received]
  split
  · rfl
  · split <;> rfl

theorem linkChangedPort_core (attr : PortAttr) (linkStatus : UInt32) (p : LacpPort) :
    (linkChangedPort attr linkStatus p).core = p.core := by
  simp only [linkChangedPort]
  split <;> rfl

end Core

namespace PortCoherent

variable {E E' : Set ℕ} {sys sys' : LacpSys} {p : LacpPort} {attr attr' : PortAttr}

/-- Only the two timeouts, `tid` and `cd` matter. -/
theorem congr (h : PortCoherent E sys p attr) (hshort : sys'.shortTimeoutTime = sys.shortTimeoutTime)
    (hlong : sys'.longTimeoutTime = sys.longTimeoutTime) (htid : attr'.tid = attr.tid)
    (hcd : attr'.cd = attr.cd) : PortCoherent E sys' p attr' :=
  { h with
    expired := by
      rw [hshort]
      exact h.expired
    current := by
      rw [hlong]
      exact h.current
    off := by
      rw [hcd]
      exact h.off
    on := by
      rw [hcd]
      exact h.on
    passive := by
      rw [hcd]
      exact h.passive
    unattached := by
      rw [htid]
      exact h.unattached }

/-- For a port that is not exempt the exemptions do not matter. -/
theorem of_notMem (h : PortCoherent E sys p attr) (hi : p.portIndex ∉ E) :
    PortCoherent E' sys p attr :=
  { h with
    enabled := fun _ => h.enabled hi
    active := fun hlac hsel hsb =>
      let ⟨hen, hagg, hactor⟩ := h.active hlac hsel hsb
      ⟨hen, hagg, fun _ => hactor hi⟩ }

/-- A port that only the group's deselection reaches. -/
theorem reconfigured_of_ne (h : PortCoherent E sys p attr) {a b : Addr} {g : ℕ}
    {u : LacpPort → LacpPort} (hba : b ≠ a) :
    PortCoherent E sys (reconfigured a g u b p) attr := by
  simp only [reconfigured, if_neg hba]
  split
  · exact h.deselect
  · exact h

/-- A port at rest joins a group. -/
theorem join (h : PortCoherent E sys p attr) (hq : PortQuiet p) {aggId : ℕ} (haggId : 1 ≤ aggId)
    (portPriority : UInt16) :
    PortCoherent ∅ sys { enablePort aggId portPriority p with selected := false } attr :=
  { h with
    enabled := fun _ => rfl
    member := ⟨fun _ => Nat.one_le_iff_ne_zero.mp haggId, fun _ => rfl⟩
    rcvd := fun hrv => absurd hrv (by simp [enablePort, prioPort, statPort, joinPort, hq.rcvd])
    fresh := fun hrx => absurd hrx hq.started
    active := fun _ hsel => nomatch hsel
    doomed := fun _ hatt hsyn => by
      have hlac : p.lacpEnabled = true := by
        by_contra hlac
        exact hq.not_attached_of_off (by simpa using hlac) hatt
      exact h.doomed hlac hatt hsyn }

/-- The link of a port at rest comes up or goes down. -/
theorem linkChanged (h : PortCoherent E sys p attr) (hq : PortQuiet p)
    (hlac : p.lacpEnabled = true) (hw : PortAttr) (linkStatus : UInt32) :
    PortCoherent E sys { linkChangedPort hw linkStatus p with selected := false } attr := by
  have hcore : ∀ AGG, PortCoherent E sys
      { p with
        portEnabled := linkStatus != 0
        speed := hw.speed
        duplex := hw.duplex
        actor := { p.actor with state := { p.actor.state with AGG := AGG } }
        selected := false } attr := fun AGG =>
    { h with
      rcvd := fun hrv => absurd hrv (by simp [hq.rcvd])
      moved := fun hpm => absurd hpm (by simp [hq.moved])
      active := fun _ hsel => nomatch hsel
      doomed := fun _ hatt hsyn => absurd ((h.syn_iff hq hlac).mpr hatt) (by simpa using hsyn) }
  simp only [linkChangedPort]
  split
  · exact hcore false
  · exact hcore p.actor.state.AGG

/-- A frame arrives at a port at rest. -/
theorem receive (h : PortCoherent E sys p attr) (hq : PortQuiet p) (hlac : p.lacpEnabled = true)
    (hen : p.portEnabled = true) (pdu : LacpPdu) :
    PortCoherent E sys (receivePort pdu p) attr :=
  { h with
    rcvd := fun _ => by
      refine ⟨hlac, hen, ?_⟩
      rcases hq.linkUp hen hlac with hrx | hrx | hrx
      · exact .inl hrx
      · exact .inr (.inr ⟨hrx, hq.running (.inl hrx)⟩)
      · exact .inr (.inl hrx)
    doomed := fun _ hatt hsyn =>
      absurd ((h.syn_iff hq hlac).mpr hatt) (by simpa [receivePort] using hsyn) }

/-- A link-down port at rest learns that its partner has moved. -/
theorem partnerMoved (h : PortCoherent E sys p attr) (hq : PortQuiet p)
    (hrx : p.rx.state = .portDisabled) : PortCoherent E sys { p with portMoved := true } attr :=
  { h with
    moved := fun _ => by
      have hen := hq.linkDown.mpr hrx
      refine ⟨hen, hrx, ?_⟩
      cases hlac : p.lacpEnabled with
      | false => exact hq.not_attached_of_off hlac
      | true =>
        intro hatt
        exact absurd (h.active_of_attached hq hlac hatt).1 (by simp [hen]) }

/-- A second passes for a port at rest. -/
theorem oneSecond (h : PortCoherent E sys p attr) (hq : PortQuiet p) :
    PortCoherent E sys (oneSecondPort p) attr :=
  { h with
    rcvd := fun hrv => absurd hrv (by simp [oneSecondPort, hq.rcvd])
    expired := fun hrx =>
      let ⟨hexp, htmt, hsyn, hcw⟩ := h.expired hrx
      ⟨hexp, htmt, hsyn, decrementTimer_le hcw⟩
    current := fun hrx =>
      let ⟨hdef, hexp, hcw⟩ := h.current hrx
      ⟨hdef, hexp, decrementTimer_le hcw⟩ }

/-- An exempt port tells its partner that it leaves. -/
theorem notify (h : PortCoherent E sys p attr) (hE : p.portIndex ∈ E) :
    PortCoherent E sys (notifyPort p) attr :=
  { h with
    active := fun hlac hsel hsb =>
      let ⟨hen, hagg, _⟩ := h.active hlac hsel hsb
      ⟨hen, hagg, fun hi => absurd hE hi⟩ }

/-- An exempt port at rest leaves its group. -/
theorem leave (h : PortCoherent E sys p attr) (hq : PortQuiet p) (hE : p.portIndex ∈ E) :
    PortCoherent E sys { leavePort p with selected := false } attr :=
  { h with
    enabled := fun hi => absurd hE hi
    member := ⟨(fun hlac => nomatch hlac), fun hagg => absurd rfl hagg⟩
    rcvd := fun hrv => absurd hrv (by simp [leavePort, hq.rcvd])
    fresh := fun hrx => absurd hrx hq.started
    active := fun hlac => nomatch hlac
    doomed := fun hlac => nomatch hlac }

end PortCoherent

/-! ## Created ports -/

/-- The record of a created port, once `lacp_port_init` is done. -/
def createdPort (w : World) (sysMac : LacpMac) (portIndex : ℕ) : LacpPort :=
  let new := lacpPortNew w sysMac portIndex
  { new with
    actorAdmin :=
      { new.actorAdmin with
        systemPriority := w.sys.priority
        state := { new.actorAdmin.state with TMT := w.sys.lacpTimeout != 0 } } }

/-- The world with one more port, at the head of the list. -/
def withCreated (w : World) (sysMac : LacpMac) (portIndex : ℕ) : World :=
  { w with
    brk := w.brk + 1
    sys := { w.sys with ports := w.brk :: w.sys.ports }
    port := fun a => if a = w.brk then createdPort w sysMac portIndex else w.port a }

theorem withCreated_port_self (w : World) (sysMac : LacpMac) (i : ℕ) :
    (withCreated w sysMac i).port w.brk = createdPort w sysMac i := if_pos rfl

/-- The ports that were there before keep their records. -/
theorem Coherent.withCreated_port {E : Set ℕ} {w : World} {b : Addr} (h : Coherent E w)
    (hb : b ∈ w.sys.ports) (sysMac : LacpMac) (i : ℕ) :
    (withCreated w sysMac i).port b = w.port b := if_neg (h.addr_lt b hb).ne

/-- `lacp_port_create` refuses exactly the indices that are in the list. -/
theorem lacpPortCreate_eq_none_iff {w : World} {sysMac : LacpMac} {i : ℕ} :
    lacpPortCreate w sysMac i = none ↔ ∃ a ∈ w.sys.ports, (w.port a).portIndex = i := by
  constructor
  · intro hnone
    by_contra habsent
    have hany : (w.sys.ports.any fun port => (w.port port).portIndex == i) = false := by
      simpa using fun a ha hindex => habsent ⟨a, ha, hindex⟩
    simp [lacpPortCreate, hany] at hnone
  · rintro ⟨a, ha, hindex⟩
    have hany : (w.sys.ports.any fun port => (w.port port).portIndex == i) = true :=
      List.any_eq_true.mpr ⟨a, ha, by simpa using hindex⟩
    simp [lacpPortCreate, hany]

/-- `lacp_port_create` pushes a new record, if the index is free. -/
theorem lacpPortCreate_eq_some {w w' : World} {sysMac : LacpMac} {i : ℕ}
    (h : lacpPortCreate w sysMac i = some w') :
    (∀ a ∈ w.sys.ports, (w.port a).portIndex ≠ i) ∧ w' = withCreated w sysMac i := by
  simp only [lacpPortCreate] at h
  split at h
  · simp at h
  · rename_i habsent
    refine ⟨by simpa using habsent, ?_⟩
    rw [← Option.some.inj h]
    apply World.ext <;> try rfl
    funext b
    simp only [lacpPortInit, modify_port, withCreated]
    by_cases hb : b = w.brk
    · simp [hb, createdPort, lacpPortNew]
    · simp [hb]

theorem PortCoherent.created {w : World} {sys : LacpSys} {sysMac : LacpMac} {i : ℕ} {attr : PortAttr}
    (htid : attr.tid = 0) (hcd : attr.cd = 1) :
    PortCoherent {i} sys (createdPort w sysMac i) attr where
  enabled := fun hi => absurd rfl hi
  member := ⟨(fun hlac => nomatch hlac), fun hagg => absurd rfl hagg⟩
  rcvd := fun hrv => nomatch hrv
  moved := fun hpm => nomatch hpm
  fresh := fun _ => ⟨rfl, .inl rfl⟩
  portDisabled := fun hrx => nomatch hrx
  expired := fun hrx => nomatch hrx
  defaulted := fun hrx => nomatch hrx
  current := fun hrx => nomatch hrx
  active := fun hlac => nomatch hlac
  syn := fun hsyn => nomatch hsyn
  doomed := fun hlac => nomatch hlac
  off := fun hmux => by rcases hmux with hmux | hmux | hmux | hmux <;> cases hmux
  on := fun hmux => nomatch hmux
  passive := fun _ => hcd
  unattached := fun _ => htid
  actorAdmin := ⟨rfl, rfl, rfl⟩
  partnerAdmin := rfl

/-! ## The step lemma -/

/-- A write to the ports raises no `change_state` flag. -/
theorem Idle.update {w w' : World} {s : LacpSys} {touched : Set ℕ} {f : Addr → LacpPort → LacpPort}
    (h : Idle w) (hw : Update w w' s touched f) (hcore : ∀ b p, (f b p).core = p.core) : Idle w' := by
  intro b hb m
  have hb' : b ∈ w.sys.ports := hw.ports ▸ hb
  rw [hw.port b hb', changeState_of_core (hcore b _)]
  exact h b hb' m

namespace Coherent

variable {E E' : Set ℕ} {w w' : World} {a b : Addr}

/-- A write to the ports. -/
theorem update (h : Coherent E w) {s : LacpSys} {touched : Set ℕ} {f : Addr → LacpPort → LacpPort}
    (hw : Update w w' s touched f) (hcore : ∀ b p, (f b p).core = p.core)
    (hport : ∀ b ∈ w.sys.ports,
      PortCoherent E' w.sys (f b (w.port b)) (w.gPortList (w.port b).portIndex))
    (hshort : s.shortTimeoutTime = w.sys.shortTimeoutTime := by rfl)
    (hlong : s.longTimeoutTime = w.sys.longTimeoutTime := by rfl)
    (hwait : s.aggregateWaitTime = w.sys.aggregateWaitTime := by rfl)
    (hadmin : s.adminState = w.sys.adminState := by rfl) : Coherent E' w' := by
  have hsys := hw.sys
  rw [SysKept] at hsys
  have hshort' : w'.sys.shortTimeoutTime = w.sys.shortTimeoutTime := by
    rw [hsys]
    exact hshort
  have hlong' : w'.sys.longTimeoutTime = w.sys.longTimeoutTime := by
    rw [hsys]
    exact hlong
  refine h.of_ports hw.ports hshort' hlong' ?_ ?_ hw.brk ?_ ?_ ?_ ?_
  · rw [hsys]
    exact hwait
  · rw [hsys]
    exact hadmin
  · intro b hb
    rw [hw.port b hb]
    exact portIndex_of_core (hcore b _)
  · exact h.idle.update hw hcore
  · intro b hb
    rw [hw.port b hb]
    exact (hport b hb).congr hshort' hlong' (hw.tid _) (hw.cd _)
  · exact fun i _ => ⟨hw.tid i, hw.cd i⟩

/-- A write to one port that deselects its group. -/
theorem reconfigure (h : Coherent E w) (ha : a ∈ w.sys.ports) {touched : Set ℕ} {g : ℕ}
    {u : LacpPort → LacpPort} (hw : Update w w' w.sys touched (reconfigured a g u))
    (hcore : ∀ p, (u p).core = p.core)
    (hE : ∀ b ∈ w.sys.ports, b ≠ a → (w.port b).portIndex ∉ E ∨ E' = E)
    (hport : PortCoherent E' w.sys { u (w.port a) with selected := false }
      (w.gPortList (w.port a).portIndex)) : Coherent E' w' := by
  refine h.update hw (fun b p => reconfigured_core hcore a b g p) ?_
  intro b hb
  by_cases hba : b = a
  · subst hba
    simpa only [reconfigured, if_true] using hport
  · rcases hE b hb hba with hi | rfl
    · exact ((h.port b hb).of_notMem hi).reconfigured_of_ne hba
    · exact (h.port b hb).reconfigured_of_ne hba

/-- A port is created. -/
theorem create (h : Coherent ∅ w) {sysMac : LacpMac} {i : ℕ} (hlt : i < lacpPortMax)
    (hw : lacpPortCreate w sysMac i = some w') : Coherent {i} w' := by
  obtain ⟨habsent, rfl⟩ := lacpPortCreate_eq_some hw
  have hnew := withCreated_port_self w sysMac i
  have hold : ∀ b ∈ w.sys.ports, (withCreated w sysMac i).port b = w.port b :=
    fun b hb => h.withCreated_port hb sysMac i
  obtain ⟨htid, hcd⟩ := h.absent i habsent
  have hnodup : ((w.brk :: w.sys.ports).map fun a =>
      ((withCreated w sysMac i).port a).portIndex).Nodup := by
    rw [List.map_cons, hnew, List.nodup_cons,
      List.map_congr_left fun b hb => congrArg LacpPort.portIndex (hold b hb)]
    refine ⟨?_, h.nodup⟩
    rw [List.mem_map]
    rintro ⟨b, hb, hindex⟩
    exact habsent b hb hindex
  -- the new port is coherent by construction, the others keep their records
  refine ⟨?_, h.shortTimeoutTime, h.longTimeoutTime, h.aggregateWaitTime, h.adminState, hnodup,
    ?_, ?_, ?_, ?_⟩
  · intro b hb m
    rcases List.mem_cons.mp hb with rfl | hb
    · rw [hnew]
      cases m <;> rfl
    · rw [hold b hb]
      exact h.idle b hb m
  · intro b hb
    rcases List.mem_cons.mp hb with rfl | hb
    · rw [hnew]
      exact hlt
    · rw [hold b hb]
      exact h.index_lt b hb
  · intro b hb
    rcases List.mem_cons.mp hb with rfl | hb
    · exact Nat.lt_succ_self _
    · exact Nat.lt_succ_of_lt (h.addr_lt b hb)
  · intro b hb
    rcases List.mem_cons.mp hb with rfl | hb
    · rw [hnew]
      exact .created htid hcd
    · rw [hold b hb]
      exact ((h.port b hb).of_notMem (Set.notMem_empty _)).congr rfl rfl rfl rfl
  · intro j hj
    refine h.absent j fun b hb => ?_
    have hb' := hj b (List.mem_cons_of_mem _ hb)
    rwa [hold b hb] at hb'

/-- The ports that left are removed. -/
theorem remove (h : Coherent E w) (hq : Quiescent w)
    (hleft : ∀ a ∈ w.sys.ports, (w.port a).portIndex ∈ E → (w.port a).lacpEnabled = false)
    (hports : w'.sys.ports.Sublist w.sys.ports)
    (hmem : ∀ a ∈ w.sys.ports, a ∈ w'.sys.ports ↔ (w.port a).portIndex ∉ E)
    (hsys : SysKept { w.sys with ports := w'.sys.ports } w'.sys)
    (hw : w' = { w with sys := w'.sys }) : Coherent ∅ w' := by
  rw [SysKept] at hsys
  have hport : w'.port = w.port := by rw [hw]
  have hattr : w'.gPortList = w.gPortList := by rw [hw]
  have hbrk : w'.brk = w.brk := by rw [hw]
  have hshort : w'.sys.shortTimeoutTime = w.sys.shortTimeoutTime := by rw [hsys]
  have hlong : w'.sys.longTimeoutTime = w.sys.longTimeoutTime := by rw [hsys]
  refine ⟨?_, hshort.trans h.shortTimeoutTime, hlong.trans h.longTimeoutTime, ?_, ?_, ?_, ?_, ?_, ?_,
    ?_⟩
  · intro b hb m
    rw [hport]
    exact h.idle b (hports.subset hb) m
  · rw [hsys]
    exact h.aggregateWaitTime
  · rw [hsys]
    exact h.adminState
  · rw [hport]
    exact h.nodup.sublist (hports.map _)
  · intro b hb
    rw [hport]
    exact h.index_lt b (hports.subset hb)
  · intro b hb
    rw [hbrk]
    exact h.addr_lt b (hports.subset hb)
  · intro b hb
    have hb' := hports.subset hb
    rw [hport, hattr]
    exact ((h.port b hb').of_notMem ((hmem b hb').mp hb)).congr hshort hlong rfl rfl
  · intro i hi
    rw [hattr]
    by_cases hin : ∃ a ∈ w.sys.ports, (w.port a).portIndex = i
    · obtain ⟨a, ha, rfl⟩ := hin
      -- a removed port has left its group, and its mux machine is in `MUX_DISABLE`
      have hE : (w.port a).portIndex ∈ E := by
        by_contra hE
        have hne := hi a ((hmem a ha).mpr hE)
        rw [hport] at hne
        exact hne rfl
      have hoff := (h.portQuiet hq ha).off (hleft a ha hE)
      exact ⟨(h.port a ha).unattached (by simp [LacpPort.Attached, hoff]),
        (h.port a ha).passive (.inr hoff)⟩
    · push Not at hin
      exact h.absent i hin

/-- The exemptions may grow. -/
theorem mono (h : Coherent E w) (hE : E ⊆ E') : Coherent E' w :=
  { h with port := fun b hb => (h.port b hb).mono hE }

/-- An exempt port tells its partner that it leaves. -/
theorem notify (h : Coherent E w) (hE : (w.port a).portIndex ∈ E)
    (hw : Update w w' w.sys ∅ (onlyAt a notifyPort)) : Coherent E w' := by
  refine h.update hw (fun b p => onlyAt_core (u := notifyPort) (fun _ => rfl) a b p) fun b hb => ?_
  simp only [onlyAt]
  split
  · rename_i hba
    subst hba
    exact (h.port b hb).notify hE
  · exact h.port b hb

/-- Every effect keeps the machines in step. -/
theorem effect (h : Coherent E w) {R : World → Call → Prop} {c : Call}
    (heffect : Effect R c (E, w) (E', w')) : Coherent E' w' := by
  cases heffect with
  | hop hop => exact h.hop hop
  | rest hw => exact h.update hw (fun _ _ => rfl) h.port
  | store hc => exact h.update (update_stubSetPortAttr w rfl rfl) (fun _ _ => rfl) h.port
  | create hc hlt hw => exact h.create hlt hw
  | @join _ _ _ a slot port aggId sysMac _ hc haggId ha hindex hE hq hok hw =>
    -- only the joining port was exempt, and it is exempt no longer
    refine h.reconfigure ha hw (fun _ => rfl) (fun b hb hba => .inl fun hi => ?_) ?_
    · exact hba (h.index_inj hb ha ((hE hi).trans hindex.symm))
    · exact (h.port a ha).join (h.portQuiet hq ha) haggId _
  | @reselect _ _ a hc ha hlac hw =>
    exact h.reconfigure ha hw (fun _ => rfl) (fun _ _ _ => .inr rfl) (h.port a ha).deselect
  | @prio _ _ a portPriority hc ha hlac hw =>
    refine h.reconfigure ha hw (fun _ => rfl) (fun _ _ _ => .inr rfl) ?_
    exact { (h.port a ha).deselect with }
  | @stat _ _ a hc ha hw =>
    refine h.update hw (fun b p => onlyAt_core (u := statPort) (fun _ => rfl) a b p) fun b hb => ?_
    simp only [onlyAt]
    split
    · exact { h.port b hb with }
    · exact h.port b hb
  | @link _ _ a linkStatus hc ha hlac hq hw =>
    refine h.reconfigure ha hw (linkChangedPort_core _ _) (fun _ _ _ => .inr rfl) ?_
    exact (h.port a ha).linkChanged (h.portQuiet hq ha) hlac _ _
  | @receive _ _ a moved slot port pdu hc hindex ha hlac hen hq hok hmoved hw =>
    refine h.update hw (fun b p => received_core a moved pdu b p) fun b hb => ?_
    have hquiet := h.portQuiet hq hb
    simp only [received]
    split
    · rename_i hba
      subst hba
      exact (h.port b hb).receive hquiet hlac hen pdu
    · split
      · rename_i hb'
        exact (h.port b hb).partnerMoved hquiet (hmoved b hb').2.2.1
      · exact h.port b hb
  | @setSys _ _ cfg hc hok hw =>
    have hscalar : (setSysScalar w.sys cfg).shortTimeoutTime = w.sys.shortTimeoutTime ∧
        (setSysScalar w.sys cfg).longTimeoutTime = w.sys.longTimeoutTime ∧
        (setSysScalar w.sys cfg).aggregateWaitTime = w.sys.aggregateWaitTime ∧
        (setSysScalar w.sys cfg).adminState = w.sys.adminState := by
      simp only [setSysScalar]
      repeat' split
      all_goals exact ⟨rfl, rfl, rfl, rfl⟩
    obtain ⟨hshort, hlong, hwait, hadmin⟩ := hscalar
    refine h.update hw (fun _ _ => rfl) (fun b hb => ?_) hshort hlong hwait hadmin
    exact { h.port b hb with }
  | tick hc hq hw =>
    exact h.update hw (fun _ _ => rfl) fun b hb => (h.port b hb).oneSecond (h.portQuiet hq hb)
  | unlink hc hE hq hok hw =>
    exact h.update hw (fun _ _ => rfl) fun b hb => (h.port b hb).mono (Set.empty_subset _)
  | notify hc ha hE hw => exact h.notify hE hw
  | @leave _ _ _ a hc ha hE hq hlac hw =>
    refine h.reconfigure ha hw (fun _ => rfl) (fun _ _ _ => .inr rfl) ?_
    exact (h.port a ha).leave (h.portQuiet hq ha) hE
  | remove hc hq hleft hports hmem hsys hw => exact h.remove hq hleft hports hmem hsys hw

end Coherent

/-! ## What the writes leave alone -/

/-- What no write of the API touches: everything a partner or a selection has put into the record. A
port that is still selected afterwards has not changed its group. -/
structure Written (p q : LacpPort) : Prop where
  core : q.core = p.core
  partner : q.partner = p.partner
  partnerAdmin : q.partnerAdmin = p.partnerAdmin
  key : q.actor.key = p.actor.key
  DEF : q.actor.state.DEF = p.actor.state.DEF
  standby : q.standby = p.standby
  masterPort : q.masterPort = p.masterPort
  selected : q.selected = true →
    p.selected = true ∧ q.aggId = p.aggId ∧ q.lacpEnabled = p.lacpEnabled

namespace Written

variable {p q : LacpPort} {u : LacpPort → LacpPort} {a b : Addr}

theorem refl (p : LacpPort) : Written p p :=
  ⟨rfl, rfl, rfl, rfl, rfl, rfl, rfl, fun hsel => ⟨hsel, rfl, rfl⟩⟩

theorem deselect (p : LacpPort) : Written p { p with selected := false } :=
  ⟨rfl, rfl, rfl, rfl, rfl, rfl, rfl, fun hsel => nomatch hsel⟩

theorem reconfigured (hself : Written p { u p with selected := false }) (g : ℕ) :
    Written p (Lacp.reconfigured a g u b p) := by
  simp only [Lacp.reconfigured]
  split
  · exact hself
  · split
    · exact .deselect p
    · exact .refl p

theorem onlyAt (hself : Written p (u p)) : Written p (Lacp.onlyAt a u b p) := by
  simp only [Lacp.onlyAt]
  split
  · exact hself
  · exact .refl p

theorem received (moved : Option Addr) (pdu : LacpPdu) :
    Written p (Lacp.received a moved pdu b p) := by
  simp only [Lacp.received]
  split
  · exact ⟨rfl, rfl, rfl, rfl, rfl, rfl, rfl, fun hsel => ⟨hsel, rfl, rfl⟩⟩
  · split
    · exact ⟨rfl, rfl, rfl, rfl, rfl, rfl, rfl, fun hsel => ⟨hsel, rfl, rfl⟩⟩
    · exact .refl p

theorem linkChanged (attr : PortAttr) (linkStatus : UInt32) (p : LacpPort) :
    Written p { linkChangedPort attr linkStatus p with selected := false } := by
  simp only [linkChangedPort]
  split <;> exact ⟨rfl, rfl, rfl, rfl, rfl, rfl, rfl, fun hsel => nomatch hsel⟩

end Written

/-- An effect is a hop of the engine, or it writes to ports that were there before and perhaps
creates one. -/
theorem Effect.hop_or_written {R : World → Call → Prop} {c : Call} {E E' : Set ℕ} {w w' : World}
    (h : Coherent E w) (heffect : Effect R c (E, w) (E', w')) :
    EngineHop w w' ∨
      (∀ i, (w'.gPortList i).tid = (w.gPortList i).tid) ∧
      ∀ b ∈ w'.sys.ports, (b ∈ w.sys.ports ∧ Written (w.port b) (w'.port b)) ∨
        (b = w.brk ∧ ∃ sysMac i, w'.port b = createdPort w sysMac i) := by
  have hupdate : ∀ {s t f}, Update w w' s t f → (∀ b p, Written p (f b p)) →
      (∀ i, (w'.gPortList i).tid = (w.gPortList i).tid) ∧
      ∀ b ∈ w'.sys.ports, (b ∈ w.sys.ports ∧ Written (w.port b) (w'.port b)) ∨
        (b = w.brk ∧ ∃ sysMac i, w'.port b = createdPort w sysMac i) := by
    intro s t f hw hf
    refine ⟨hw.tid, fun b hb => ?_⟩
    have hb' : b ∈ w.sys.ports := hw.ports ▸ hb
    rw [hw.port b hb']
    exact .inl ⟨hb', hf b _⟩
  cases heffect with
  | hop hop => exact .inl hop
  | rest hw | unlink _ _ _ _ hw => exact .inr (hupdate hw fun _ p => .refl p)
  | store hc => exact .inr (hupdate (update_stubSetPortAttr w rfl rfl) fun _ p => .refl p)
  | @create _ _ slot port aggId sysMac hc hlt hw =>
    obtain ⟨_, rfl⟩ := lacpPortCreate_eq_some hw
    -- the new port stands at the head of the list
    refine .inr ⟨fun _ => rfl, fun b hb => ?_⟩
    rcases List.mem_cons.mp hb with rfl | hb
    · exact .inr ⟨rfl, sysMac, _, withCreated_port_self w _ _⟩
    · rw [h.withCreated_port hb]
      exact .inl ⟨hb, .refl _⟩
  | join _ _ _ _ _ _ _ hw | reselect _ _ _ hw | prio _ _ _ hw | leave _ _ _ _ _ hw =>
    refine .inr (hupdate hw fun _ p => .reconfigured ?_ _)
    exact ⟨rfl, rfl, rfl, rfl, rfl, rfl, rfl, fun hsel => nomatch hsel⟩
  | link _ _ _ _ hw => exact .inr (hupdate hw fun _ p => .reconfigured (.linkChanged _ _ p) _)
  | stat _ _ hw | notify _ _ _ hw =>
    refine .inr (hupdate hw fun _ p => .onlyAt ?_)
    exact ⟨rfl, rfl, rfl, rfl, rfl, rfl, rfl, fun hsel => ⟨hsel, rfl, rfl⟩⟩
  | receive _ _ _ _ _ _ _ _ hw => exact .inr (hupdate hw fun _ p => .received _ _)
  | setSys _ _ hw | tick _ _ hw =>
    refine .inr (hupdate hw fun _ p => ?_)
    exact ⟨rfl, rfl, rfl, rfl, rfl, rfl, rfl, fun hsel => ⟨hsel, rfl, rfl⟩⟩
  | remove _ _ _ hports _ _ hw =>
    have hport : w'.port = w.port := by rw [hw]
    have hattr : w'.gPortList = w.gPortList := by rw [hw]
    refine .inr ⟨fun _ => by rw [hattr], fun b hb => ?_⟩
    rw [hport]
    exact .inl ⟨hports.subset hb, .refl _⟩

end Lacp
