import Lacp.Directory
import Lacp.PortWrites
import Lacp.SystemUpdate

/-!
# The settings of the system

Reference: `lacp_sys_get_cfg` of `LACP/lacp_api.c`, `trunk_sys_get_cfg` and the `trunk_sys_set_` calls of
`trunk_api.c`, `cli_print_sys_header` of `trunk_cli.c`.

A setting goes through `lacp_sys_set_cfg`, which stores one field of the system record and runs the engine.
Nothing else stores a field that `trunk_sys_get_cfg` reads, so the report after a run is what the calls set
last (`trunkSysGetCfg_of_runCalls`). What is set is 32 bits wide; the priority and the two periods are kept
in 16 bits, and the report is what is left of them.
-/

namespace Lacp

/-! ## The report -/

/-- `trunk_sys_cfg_t`. -/
structure TrunkSysCfg where
  prio : UInt32
  longPeriod : UInt32
  shortPeriod : UInt32
  period : UInt32
deriving DecidableEq, Repr

/-- `lacp_sys_get_cfg`. It always returns 0. -/
def lacpSysGetCfg (w : World) (uidCfg : LacpSysCfg) : LacpSysCfg :=
  { uidCfg with
    ports := w.sys.ports.foldl (fun ports port => lacpBitmapSetBit ports (w.port port).portIndex) uidCfg.ports
    priority := w.sys.priority.toUInt32
    shortPeriod := w.sys.fastPeriodicTime.toUInt32
    longPeriod := w.sys.slowPeriodicTime.toUInt32
    period := w.sys.lacpTimeout }

/-- `trunk_sys_get_cfg`. -/
def trunkSysGetCfg (w : World) : TrunkSysCfg :=
  let sysCfg := lacpSysGetCfg w .zero
  { prio := sysCfg.priority
    longPeriod := sysCfg.longPeriod
    shortPeriod := sysCfg.shortPeriod
    period := sysCfg.period }

/-! ## What the calls set -/

/-- The report of a bridge that has started. -/
def TrunkSysCfg.initial : TrunkSysCfg where
  prio := 0x8000
  longPeriod := 30
  shortPeriod := 1
  period := 0

/-- What a call sets. -/
def Call.setting (cfg : TrunkSysCfg) : Call → TrunkSysCfg
  | .sysSetPrio prio => { cfg with prio := prio.toUInt16.toUInt32 }
  | .sysSetLongPeriod period => { cfg with longPeriod := period.toUInt16.toUInt32 }
  | .sysSetShortPeriod period => { cfg with shortPeriod := period.toUInt16.toUInt32 }
  | .sysSetPeriod isShort => { cfg with period := isShort }
  | _ => cfg

section Setting

variable {R : World → Call → Prop} {c : Call} {E E' : Set ℕ} {w w' : World} {fuel : ℕ} {ret : LacpRet}

/-- The report depends on four fields of the system record. -/
theorem trunkSysGetCfg_congr {l : List Addr} {portmap : LacpBitmap} {n : UInt32}
    (h : w'.sys = { w.sys with ports := l, portmap := portmap, numberOfPorts := n }) :
    trunkSysGetCfg w' = trunkSysGetCfg w := by
  simp only [trunkSysGetCfg, lacpSysGetCfg, h]

/-- The report after a change of the system configuration. -/
theorem trunkSysGetCfg_lacpSysSetCfg {sysMac : ℕ → LacpMac} {cfg : LacpSysCfg} (h : Coherent E w)
    (hdel : cfg.cfgPbmpDel = false) (hrun : lacpSysSetCfg fuel w sysMac cfg = some w') :
    trunkSysGetCfg w' = trunkSysGetCfg { w with sys := setSysScalar w.sys cfg } := by
  obtain ⟨l, hsys⟩ := lacpSysSetCfg_sys (fun a ha => h.addr_lt a ha) hrun
  rw [storedSys, if_neg (by simp [hdel])] at hsys
  have hsys' : w'.sys = { setSysScalar w.sys cfg with
      ports := l, portmap := (setSysScalar w.sys cfg).portmap
      numberOfPorts := (setSysScalar w.sys cfg).numberOfPorts } := hsys
  exact trunkSysGetCfg_congr hsys'

/-- Where a call does not set anything, no effect of it changes the report. -/
theorem Effect.trunkSysGetCfg (hc : c.sysCfg = none) (hcoherent : Coherent E w)
    (heffect : Effect R c (E, w) (E', w')) : trunkSysGetCfg w' = trunkSysGetCfg w := by
  cases heffect.cases hcoherent with
  | hop hop => exact trunkSysGetCfg_congr hop.engineHop.sys_eq
  | setSys hcfg => rw [hc] at hcfg; cases hcfg
  | write _ hsys => exact trunkSysGetCfg_congr hsys

/-- A call sets what it says, and the engine, which it runs, nothing. -/
theorem trunkSysGetCfg_of_step (hw : Reachable w) (hstep : Step c w w') :
    trunkSysGetCfg w' = c.setting (trunkSysGetCfg w) := by
  obtain ⟨hcoherent, hq⟩ := hw.coherent
  by_cases hc : c.sysCfg = none
  · have hcompletes := completes_of_step (R := fun _ _ => True) hcoherent hq trivial hstep
    have heffects := hcompletes.1.invariant
      (P := fun E v => Coherent E v ∧ trunkSysGetCfg v = trunkSysGetCfg w)
      (fun hP heffect => ⟨hP.1.effect heffect, (heffect.trunkSysGetCfg hc hP.1).trans hP.2⟩) ⟨hcoherent, rfl⟩
    have hsetting : c.setting (trunkSysGetCfg w) = trunkSysGetCfg w := by
      cases c with
      | sysSetPrio | sysSetLongPeriod | sysSetShortPeriod | sysSetPeriod => cases hc
      | _ => rfl
    rw [hsetting]
    exact heffects.2
  · obtain ⟨-, fuel, ret, hrun⟩ := hstep
    cases c with
    | sysSetPrio | sysSetLongPeriod | sysSetShortPeriod | sysSetPeriod =>
      obtain ⟨v, hv, hend⟩ := Option.map_eq_some_iff.mp hrun
      obtain ⟨rfl, -⟩ := Prod.mk.inj hend
      exact trunkSysGetCfg_lacpSysSetCfg hcoherent rfl hv
    | _ => exact absurd rfl hc

end Setting

/-! ## The ports on the list -/

section Enrolled

variable {R : World → Call → Prop} {c : Call} {E E' : Set ℕ} {w w' : World} {i : ℕ}

/-- The port with index `i` is on the list. -/
def World.Lists (w : World) (i : ℕ) : Prop := ∃ a ∈ w.sys.ports, (w.port a).portIndex = i

/-- The ports on the list, but for those in `E`, are those that are in a link group. -/
def Enrolled (E : Set ℕ) (w : World) : Prop :=
  ∀ i < lacpPortMax, (∃ g < 32, groupBit w i g = true) ↔ i ∉ E ∧ w.Lists i

theorem Update.lists_iff {s : LacpSys} {t : Set ℕ} {f : Addr → LacpPort → LacpPort} (hw : Update w w' s t f)
    (hf : ∀ a p, (f a p).portIndex = p.portIndex) (i : ℕ) : w'.Lists i ↔ w.Lists i := by
  simp only [World.Lists, hw.ports]
  refine exists_congr fun a => and_congr_right fun ha => ?_
  rw [hw.port a ha, hf]

theorem EngineHop.lists_iff (hop : EngineHop w w') (i : ℕ) : w'.Lists i ↔ w.Lists i := by
  have hindex : ∀ a, (w'.port a).portIndex = (w.port a).portIndex :=
    fun a => congrArg PortSettings.portIndex (hop.settings_eq a)
  simp only [World.Lists, hop.sys_eq, hindex]

/-! No write changes the index of a port. -/

variable {a b : Addr} {g : ℕ} {u : LacpPort → LacpPort} {p : LacpPort}

theorem reconfigured_portIndex (hu : ∀ p, (u p).portIndex = p.portIndex) (b : Addr) (p : LacpPort) :
    (reconfigured a g u b p).portIndex = p.portIndex := by
  simp only [reconfigured]
  split
  · exact hu p
  · split <;> rfl

theorem onlyAt_portIndex (hu : ∀ p, (u p).portIndex = p.portIndex) (b : Addr) (p : LacpPort) :
    (onlyAt a u b p).portIndex = p.portIndex := by
  simp only [onlyAt]
  split
  · exact hu p
  · rfl

theorem linkChangedPort_portIndex (attr : PortAttr) (linkStatus : UInt32) (p : LacpPort) :
    (linkChangedPort attr linkStatus p).portIndex = p.portIndex := by
  simp only [linkChangedPort]
  split <;> rfl

theorem received_portIndex {moved : Option Addr} {pdu : LacpPdu} (b : Addr) (p : LacpPort) :
    (received a moved pdu b p).portIndex = p.portIndex := by
  simp only [received]
  split
  · rfl
  · split <;> rfl

/-- A call that creates no port and removes none leaves the list alone. -/
theorem Effect.lists_iff (hc : Coherent E w) (hremoval : c.isRemoval = false)
    (hmax : ∀ slot port aggId sysMac, c = .portLacpEnable slot port aggId sysMac →
      lacpPortMax ≤ globalIndex slot port)
    (heffect : Effect R c (E, w) (E', w')) (i : ℕ) : w'.Lists i ↔ w.Lists i := by
  have hkept : c.isRemoval ≠ true := by simp [hremoval]
  cases heffect with
  | hop hop => exact hop.lists_iff i
  | rest hw | setSys _ _ hw | tick _ _ hw => exact hw.lists_iff (fun _ _ => rfl) i
  | store => exact Iff.rfl
  | create hcall hlt => exact absurd hlt (Nat.not_lt.mpr (hmax _ _ _ _ hcall))
  | join hcall _ ha hindex => exact absurd (hindex ▸ hc.index_lt _ ha) (Nat.not_lt.mpr (hmax _ _ _ _ hcall))
  | reselect _ _ _ hw | prio _ _ _ hw => exact hw.lists_iff (reconfigured_portIndex fun _ => rfl) i
  | stat _ _ hw => exact hw.lists_iff (onlyAt_portIndex fun _ => rfl) i
  | link _ _ _ _ hw => exact hw.lists_iff (reconfigured_portIndex (linkChangedPort_portIndex _ _)) i
  | receive _ _ _ _ _ _ _ _ hw => exact hw.lists_iff received_portIndex i
  | unlink hcall | notify hcall | leave hcall | remove hcall => exact absurd hcall hkept

namespace Enrolled

theorem congr (h : Enrolled E w) (hlists : ∀ i, w'.Lists i ↔ w.Lists i)
    (hbits : ∀ i g, groupBit w' i g = groupBit w i g) : Enrolled E w' := by
  intro i hi
  simp only [hbits, hlists]
  exact h i hi

theorem update {s : LacpSys} {f : Addr → LacpPort → LacpPort} (h : Enrolled E w) (hw : Update w w' s ∅ f)
    (hf : ∀ a p, (f a p).portIndex = p.portIndex) : Enrolled E w' :=
  h.congr (hw.lists_iff hf) fun i => hw.bits i (Set.notMem_empty i)

/-- The new port is in no group. -/
theorem create (h : Enrolled ∅ w) (hc : Coherent ∅ w) {sysMac : LacpMac} (hnew : ¬ w.Lists i) :
    Enrolled {i} (withCreated w sysMac i) := by
  intro j hj
  have hold := h j hj
  rw [and_iff_right (Set.notMem_empty j)] at hold
  have hlists : (withCreated w sysMac i).Lists j ↔ j = i ∨ w.Lists j := by
    constructor
    · rintro ⟨a, ha, haj⟩
      rcases List.mem_cons.mp ha with rfl | ha
      · rw [withCreated_port_self] at haj
        exact .inl haj.symm
      · rw [hc.withCreated_port ha] at haj
        exact .inr ⟨a, ha, haj⟩
    · rintro (rfl | ⟨a, ha, haj⟩)
      · exact ⟨w.brk, List.mem_cons_self, by rw [withCreated_port_self]; rfl⟩
      · exact ⟨a, List.mem_cons_of_mem _ ha, by rw [hc.withCreated_port ha]; exact haj⟩
  rw [hlists, Set.mem_singleton_iff]
  refine hold.trans ⟨fun hlisted => ⟨?_, .inr hlisted⟩, fun hboth => hboth.2.resolve_left hboth.1⟩
  rintro rfl
  exact hnew hlisted

/-- The database knows the port that joins. -/
theorem join {slot port aggId : ℕ} {f : Addr → LacpPort → LacpPort} (h : Enrolled E w)
    (hport : 1 ≤ port ∧ port ≤ 8) (haggId : 1 ≤ aggId ∧ aggId ≤ 32)
    (hlisted : w.Lists (globalIndex slot port)) (hE : E ⊆ {globalIndex slot port})
    (hw : Update w w' w.sys {globalIndex slot port} f) (hf : ∀ a p, (f a p).portIndex = p.portIndex)
    (hgroups : w'.gLinkGroups = (stubDbAggAddMember w aggId slot port).gLinkGroups) : Enrolled ∅ w' := by
  intro i hi
  rw [hw.lists_iff hf, and_iff_right (Set.notMem_empty i)]
  by_cases hindex : i = globalIndex slot port
  · subst hindex
    refine iff_of_true ⟨aggId - 1, by omega, ?_⟩ hlisted
    exact (groupBit_addMember hport haggId.1 hgroups).mpr (.inr (by omega))
  · have hbit : ∀ g, groupBit w' i g = groupBit w i g := hw.bits i hindex
    simp only [hbit]
    rw [h i hi, and_iff_right fun hin => hindex (hE hin)]

/-- The database forgets the ports that are removed. -/
theorem unlink (h : Enrolled ∅ w) (hw : Update w w' w.sys E fun _ p => p)
    (hgroups : ∀ i ∈ E, i < 144 → ∀ g < 32, groupBit w' i g = false) : Enrolled E w' := by
  intro i hi
  rw [hw.lists_iff fun _ _ => rfl]
  by_cases hiE : i ∈ E
  · refine iff_of_false ?_ fun hboth => hboth.1 hiE
    rintro ⟨g, hg, hbit⟩
    rw [hgroups i hiE (hi.trans (by decide)) g hg] at hbit
    cases hbit
  · have hbit : ∀ g, groupBit w' i g = groupBit w i g := hw.bits i hiE
    have hold := h i hi
    rw [and_iff_right (Set.notMem_empty i)] at hold
    simp only [hbit]
    rw [hold, and_iff_right hiE]

/-- The ports that left are taken off the list. -/
theorem remove (h : Enrolled E w) (hports : w'.sys.ports.Sublist w.sys.ports)
    (hmem : ∀ a ∈ w.sys.ports, a ∈ w'.sys.ports ↔ (w.port a).portIndex ∉ E)
    (hw : w' = { w with sys := w'.sys }) : Enrolled ∅ w' := by
  have hport : w'.port = w.port := by rw [hw]
  have hbit : ∀ i g, groupBit w' i g = groupBit w i g := by
    rw [hw]
    exact fun _ _ => rfl
  intro i hi
  simp only [hbit]
  rw [h i hi, and_iff_right (Set.notMem_empty i)]
  constructor
  · rintro ⟨hiE, a, ha, rfl⟩
    exact ⟨a, (hmem a ha).mpr hiE, by rw [hport]⟩
  · rintro ⟨a, ha, rfl⟩
    have ha' := hports.subset ha
    rw [hport]
    exact ⟨(hmem a ha').mp ha, a, ha', rfl⟩

/-- Every effect keeps the list and the database in step. -/
theorem effect (h : Enrolled E w) (hc : Coherent E w) (hrange : c.InRange)
    (hmax : ∀ slot port aggId sysMac, c = .portLacpEnable slot port aggId sysMac →
      globalIndex slot port < lacpPortMax)
    (heffect : Effect R c (E, w) (E', w')) : Enrolled E' w' := by
  have hsame : w'.gLinkGroups = w.gLinkGroups → ∀ i g, groupBit w' i g = groupBit w i g := by
    intro heq i g
    rw [groupBit, groupBit, heq]
  cases heffect with
  | hop hop => exact h.congr hop.lists_iff (hsame hop.gLinkGroups_eq)
  | rest hw hgroups =>
    refine h.congr (hw.lists_iff fun _ _ => rfl) (hsame ?_)
    rcases hgroups with heq | ⟨slot, port, aggId, sysMac, hcall, hge⟩
    · exact heq
    · exact absurd (hmax _ _ _ _ hcall) (Nat.not_lt.mpr hge)
  | store => exact h.congr (fun _ => Iff.rfl) (hsame rfl)
  | create _ _ hw =>
    obtain ⟨hnew, rfl⟩ := lacpPortCreate_eq_some hw
    refine h.create hc ?_
    rintro ⟨a, ha, hindex⟩
    exact hnew a ha hindex
  | join hcall haggId ha hindex hE _ _ hw hgroups =>
    subst hcall
    exact h.join ⟨hrange.2.1, hrange.2.2.1⟩ hrange.2.2.2 ⟨_, ha, hindex⟩ hE hw
      (reconfigured_portIndex fun _ => rfl) hgroups
  | reselect _ _ _ hw _ hgroups =>
    exact h.congr (hw.lists_iff (reconfigured_portIndex fun _ => rfl)) (hsame hgroups)
  | prio _ _ _ hw => exact h.update hw (reconfigured_portIndex fun _ => rfl)
  | stat _ _ hw => exact h.update hw (onlyAt_portIndex fun _ => rfl)
  | link _ _ _ _ hw => exact h.update hw (reconfigured_portIndex (linkChangedPort_portIndex _ _))
  | receive _ _ _ _ _ _ _ _ hw => exact h.update hw received_portIndex
  | setSys _ _ hw | tick _ _ hw => exact h.update hw fun _ _ => rfl
  | unlink _ _ _ _ hw hgroups => exact h.unlink hw hgroups
  | notify _ _ _ hw => exact h.update hw (onlyAt_portIndex fun _ => rfl)
  | leave _ _ _ _ _ hw => exact h.update hw (reconfigured_portIndex fun _ => rfl)
  | remove _ _ _ hports hmem _ hw => exact h.remove hports hmem hw

end Enrolled

/-- Enabling a port beyond those of the engine is a change of the database alone. -/
theorem Enrolled.enableBeyond {slot port aggId fuel : ℕ} {sysMac : LacpMac} {ret : LacpRet} (h : Enrolled ∅ w)
    (hw : Reachable w) (hmax : lacpPortMax ≤ globalIndex slot port)
    (hrange : (Call.portLacpEnable slot port aggId sysMac).InRange)
    (hrun : runCall fuel w (.portLacpEnable slot port aggId sysMac) = some (w', ret)) : Enrolled ∅ w' := by
  obtain ⟨hcoherent, hq⟩ := hw.coherent
  have hlists : ∀ i, w'.Lists i ↔ w.Lists i := by
    refine ((completes_of_step (R := fun _ _ => True) hcoherent hq trivial ⟨hrange, fuel, ret, hrun⟩).1.invariant
      (P := fun E v => Coherent E v ∧ ∀ i, v.Lists i ↔ w.Lists i) (fun hP heffect => ?_)
      ⟨hcoherent, fun _ => Iff.rfl⟩).2
    refine ⟨hP.1.effect heffect, fun i => (heffect.lists_iff hP.1 rfl ?_ i).trans (hP.2 i)⟩
    rintro _ _ _ _ heq
    obtain ⟨rfl, rfl, -⟩ := Call.portLacpEnable.inj heq
    exact hmax
  intro i hi
  rw [hlists, ← h i hi]
  have hmembers : ∀ g, i ∈ w'.directory.members g ↔ i ∈ w.directory.members g := by
    intro g
    rw [directory_of_runCall hrange hrun]
    by_cases hg : g = aggId
    · subst hg
      simp only [Call.record, Directory.join, Function.update_self, Set.mem_insert_iff]
      exact or_iff_right fun heq => Nat.not_lt.mpr hmax (heq ▸ hi)
    · simp only [Call.record, Directory.join, Function.update_of_ne hg]
  refine exists_congr fun g => and_congr_right fun hg => ?_
  have hi' : i < 152 := hi.trans (by decide)
  have hbit := hmembers (g + 1)
  rw [mem_members, mem_members, Nat.add_sub_cancel] at hbit
  simpa [hi', hg, Nat.succ_le_of_lt hg] using hbit

/-- Between two calls the ports on the list are those that are in a link group. -/
theorem Reachable.enrolled (h : Reachable w) : Enrolled ∅ w := by
  refine ReachableBy.invariant (fun pid i _ => ?_) (fun {v v' c} hv ih _ hstep => ?_) h
  · refine iff_of_false ?_ fun hboth => List.not_mem_nil hboth.2.choose_spec.1
    rintro ⟨g, -, hbit⟩
    simp [groupBit, trunkGetPbmp, initWorld] at hbit
  · by_cases hmax : ∀ slot port aggId sysMac, c = .portLacpEnable slot port aggId sysMac →
        globalIndex slot port < lacpPortMax
    · obtain ⟨hcoherent, hq⟩ := hv.coherent
      exact ((completes_of_step (R := fun _ _ => True) hcoherent hq trivial hstep).1.invariant
        (P := fun E u => Coherent E u ∧ Enrolled E u)
        (fun hP heffect => ⟨hP.1.effect heffect, hP.2.effect hP.1 hstep.1 hmax heffect⟩) ⟨hcoherent, ih⟩).2
    · simp only [not_forall, not_lt] at hmax
      obtain ⟨slot, port, aggId, sysMac, rfl, hge⟩ := hmax
      obtain ⟨hrange, fuel, ret, hrun⟩ := hstep
      exact ih.enableBeyond hv hge hrange hrun

/-- The bits that are reported are those of the ports on the list. -/
theorem lacpBitmapGetBit_lacpSysGetCfg (w : World) (i : ℕ) :
    lacpBitmapGetBit (lacpSysGetCfg w .zero).ports i = true ↔ w.Lists i := by
  have hfold : ∀ (ports : List Addr) (bitmap : LacpBitmap),
      lacpBitmapGetBit (ports.foldl (fun b a => lacpBitmapSetBit b (w.port a).portIndex) bitmap) i = true ↔
        (∃ a ∈ ports, (w.port a).portIndex = i) ∨ lacpBitmapGetBit bitmap i = true := by
    intro ports
    induction ports with
    | nil => simp
    | cons a ports ih =>
      intro bitmap
      rw [List.foldl_cons, ih, lacpBitmapGetBit_setBit, Bool.or_eq_true, decide_eq_true_iff,
        List.exists_mem_cons_iff, eq_comm (a := i), or_left_comm, ← or_assoc]
  refine (hfold w.sys.ports _).trans (or_iff_left ?_)
  exact Bool.eq_false_iff.mp (lacpBitmapGetBit_clear i)

end Enrolled

/-! ## A run -/

theorem Reachable.runCalls {calls : List Call} {fuel : ℕ} {w w' : World} (hw : Reachable w)
    (hrange : ∀ c ∈ calls, c.InRange) (hrun : runCalls (fun _ _ => true) fuel w calls = some w') :
    Reachable w' ∧ trunkSysGetCfg w' = calls.foldl Call.setting (trunkSysGetCfg w) ∧
      w'.directory = calls.foldl Call.record w.directory := by
  induction calls generalizing w with
  | nil =>
    obtain rfl := Option.some.inj hrun
    exact ⟨hw, rfl, rfl⟩
  | cons c calls ih =>
    obtain ⟨u, hcall, hrest⟩ := Option.bind_eq_some_iff.mp hrun
    obtain ⟨⟨u', ret⟩, hcalled, rfl⟩ := Option.map_eq_some_iff.mp ((if_pos rfl).symm.trans hcall)
    have hstep : Step c w u' := ⟨hrange c List.mem_cons_self, fuel, ret, hcalled⟩
    rw [List.foldl_cons, List.foldl_cons, ← trunkSysGetCfg_of_step hw hstep,
      ← directory_of_runCall hstep.1 hcalled]
    exact ih (hw.step trivial hstep) (fun c' hc' => hrange c' (List.mem_cons_of_mem _ hc')) hrest

/-- What is reported of the system after a run is a function of the calls alone, whatever the protocol did
between them: of each setting the last value, in the width of the record, and by `lacp_sys_get_cfg`, whose
ports `trunk_sys_get_cfg` drops, the ports of the engine that are in a link group. -/
theorem trunkSysGetCfg_of_runCalls (pid : UInt32) (fuel : ℕ) (calls : List Call) (w : World)
    (hrange : ∀ c ∈ calls, c.InRange)
    (hrun : runCalls (fun _ _ => true) fuel (initWorld pid) calls = some w) :
    trunkSysGetCfg w = calls.foldl Call.setting .initial ∧
      ∀ i, lacpBitmapGetBit (lacpSysGetCfg w .zero).ports i = true ↔
        i < lacpPortMax ∧ ∃ g, i ∈ (calls.foldl Call.record .empty).members g := by
  obtain ⟨hw, hsettings, hdirectory⟩ := Reachable.runCalls (.init pid) hrange hrun
  refine ⟨hsettings, fun i => ?_⟩
  rw [lacpBitmapGetBit_lacpSysGetCfg, ← directory_initWorld pid, ← hdirectory]
  have hmax : w.Lists i → i < lacpPortMax := fun ⟨a, ha, hindex⟩ => hindex ▸ hw.coherent.1.index_lt a ha
  rw [← and_iff_right_of_imp hmax]
  refine and_congr_right fun hi => ?_
  have henrolled := hw.enrolled i hi
  rw [and_iff_right (Set.notMem_empty i)] at henrolled
  have hi' : i < 152 := hi.trans (by decide)
  rw [← henrolled]
  constructor
  · rintro ⟨g, hg, hbit⟩
    exact ⟨g + 1, Nat.succ_pos g, hg, hi', hbit⟩
  · rintro ⟨g, hg, hg', -, hbit⟩
    exact ⟨g - 1, by omega, hbit⟩

/-- Two ports of group 1 forward, and then the settings change and the group is deleted. -/
theorem retunedRun_trunkSysGetCfg :
    let calls := aggregationRun ++ [.sysSetPrio 0x10007, .sysSetShortPeriod 2, .aggDelete 1,
      .portLacpEnable 0 2 3 .zero, .oneSecond]
    ∃ w, runCalls (fun _ _ => true) 25 (initWorld 77) calls = some w ∧
      trunkSysGetCfg w = calls.foldl Call.setting .initial ∧
      ∀ i, lacpBitmapGetBit (lacpSysGetCfg w .zero).ports i = true ↔
        i < lacpPortMax ∧ ∃ g, i ∈ (calls.foldl Call.record .empty).members g := by
  intro calls
  have hrun : (runCalls (fun _ _ => true) 25 (initWorld 77) calls).isSome = true := by decide +kernel
  obtain ⟨w, hw⟩ := Option.isSome_iff_exists.mp hrun
  exact ⟨w, hw, trunkSysGetCfg_of_runCalls 77 25 calls w (by decide) hw⟩

end Lacp
