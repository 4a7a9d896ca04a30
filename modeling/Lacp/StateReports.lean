import Lacp.Freshness
import Lacp.GroupCounts
import Lacp.Homogeneity
import Lacp.Reporting

/-!
# What the commands show

Reference: `_lacp_copy_port_state`, `lacp_agg_get_port_state` and `lacp_port_get_port_state` of
`LACP/lacp_api.c`, `trunk_agg_get_state` and `trunk_port_get_lacp_info` of `trunk_api.c`,
`cli_sys_get_lacp_brief` of `trunk_cli.c`.

A report of a link group copies the records of its members into eight entries, in the order of the list.
There are never more members than entries, so nothing is left out, and the entry of a port is what the
report of the port alone says (`reachable_aggReport`). The line that is printed for a group counts its
members, and what it says of the partner holds for every selected member (`reachableBy_briefLine`).

`master_port` is read from the record of the master, also where that record was freed.
-/

namespace Lacp

/-! ## The engine's reports -/

/-- `lacp_port_state_t`. -/
structure LacpPortState where
  valid : Bool
  portIndex : ℕ
  key : UInt16
  aggId : ℕ
  masterPort : ℕ
  selState : Bool
  rxCnt : UInt32
  txCnt : UInt32
  actor : LacpPortInfo
  partner : LacpPortInfo
deriving DecidableEq, Repr

/-- The bytes that `memset` leaves. -/
def LacpPortState.zero : LacpPortState where
  valid := false
  portIndex := 0
  key := 0
  aggId := 0
  masterPort := 0
  selState := false
  rxCnt := 0
  txCnt := 0
  actor := .zero
  partner := .zero

/-- `_lacp_copy_port_state`. `key` stays what it was. -/
def lacpCopyPortState (w : World) (statePara : LacpPortState) (port : Addr) : LacpPortState :=
  { statePara with
    valid := true
    portIndex := (w.port port).portIndex
    aggId := (w.port port).aggId
    rxCnt := (w.port port).rxLacpduCnt
    txCnt := (w.port port).txLacpduCnt
    masterPort := (w.port (w.port port).masterPort).portIndex
    selState := (w.port port).selected && !(w.port port).standby
    actor := (w.port port).actor
    partner := (w.port port).partner }

/-- The port is selected, and its own master. -/
def isSelectedMaster (w : World) (port : Addr) : Bool :=
  (w.port port).selected && !(w.port port).standby && (w.port port).masterPort == port

/-- The loop of `lacp_agg_get_port_state`, with `cnt` entries filled. -/
def aggPortStates (w : World) (aggId : ℕ) :
    List Addr → ℕ → (ℕ → LacpPortState) × UInt32 → (ℕ → LacpPortState) × UInt32
  | [], _, s => s
  | port :: ports, cnt, s =>
    if (w.port port).aggId ≠ aggId then aggPortStates w aggId ports cnt s
    else if cnt ≥ 8 then s
    else
      aggPortStates w aggId ports (cnt + 1)
        (Function.update s.1 cnt (lacpCopyPortState w (s.1 cnt) port),
          if isSelectedMaster w port then UInt32.ofNat cnt else s.2)

/-- `lacp_agg_get_port_state`. It always returns 0. -/
def lacpAggGetPortState (w : World) (aggId : ℕ) (statePara : ℕ → LacpPortState) (masterIndex : UInt32) :
    (ℕ → LacpPortState) × UInt32 :=
  aggPortStates w aggId w.sys.ports 0 (statePara, masterIndex)

/-- `lacp_port_get_port_state`. -/
def lacpPortGetPortState (w : World) (portIndex : ℕ) (statePara : LacpPortState) : LacpRet × LacpPortState :=
  match lacpPortFind w portIndex with
  | none => (.notFound, statePara)
  | some port => (.ok, lacpCopyPortState w statePara port)

/-! ## The reports of the trunk API -/

/-- `TRUNK_UINT_INVALID`. -/
def trunkUintInvalid : UInt32 := 0xffffffff

/-- `trunk_port_state_t`. -/
structure TrunkPortReport extends TrunkPortState where
  key : UInt16
  aggId : ℕ
  masterPort : ℕ
  selState : Bool
  rxCnt : UInt32
  txCnt : UInt32
  actor : LacpPortInfo
  partner : LacpPortInfo
deriving DecidableEq, Repr

/-- `trunk_agg_state_t`. -/
structure TrunkAggState where
  masterIndex : UInt32
  portsState : ℕ → TrunkPortReport

/-- What `trunk_agg_get_state` and `trunk_port_get_lacp_info` copy from one report to the other. -/
def LacpPortState.toTrunk (portState : LacpPortState) : TrunkPortReport where
  valid := if portState.valid then 1 else 0
  slot := UInt32.ofNat (lacpSspChangeToSlotPort portState.portIndex).1
  port := UInt32.ofNat (lacpSspChangeToSlotPort portState.portIndex).2
  key := portState.key
  aggId := portState.aggId
  masterPort := portState.masterPort
  selState := portState.selState
  rxCnt := portState.rxCnt
  txCnt := portState.txCnt
  actor := portState.actor
  partner := portState.partner

/-- `trunk_agg_get_state`. It always returns 0, and writes every field of the eight entries. -/
def trunkAggGetState (w : World) (aggId : ℕ) : TrunkAggState :=
  let s := lacpAggGetPortState w aggId (fun _ => .zero) trunkUintInvalid
  { masterIndex := s.2
    portsState := fun index => (s.1 index).toTrunk }

/-- `trunk_port_get_lacp_info`. `portState` is the uninitialised local. -/
def trunkPortGetLacpInfo (w : World) (slot port : ℕ) (portState : LacpPortState)
    (trunkPortState : TrunkPortReport) : LacpRet × TrunkPortReport :=
  match trunkSspGetGlobalIndex slot port with
  | none => (.internel, trunkPortState)
  | some portIndex =>
    let (ret, portState) := lacpPortGetPortState w portIndex portState
    if ret != .ok || portState.aggId == 0 then (.notEnable, trunkPortState)
    else (.ok, portState.toTrunk)

/-! ## The brief -/

/-- A line of `show lacp link-group brief`. Where there is no master, dashes are printed. -/
structure BriefLine where
  aggId : ℕ
  selectedCnt : ℕ
  standbyCnt : ℕ
  master : Option TrunkPortReport

/-- The line of one group. -/
def briefLine (w : World) (aggId : ℕ) : BriefLine :=
  let aggState := trunkAggGetState w aggId
  let valid := ((List.range 8).map aggState.portsState).filter fun s => s.valid != 0
  { aggId := aggId
    selectedCnt := valid.countP fun s => s.selState
    standbyCnt := valid.countP fun s => !s.selState
    master :=
      if aggState.masterIndex = trunkUintInvalid then none
      else some (aggState.portsState aggState.masterIndex.toNat) }

/-- `cli_sys_get_lacp_brief`. -/
def cliSysGetLacpBrief (w : World) : List BriefLine :=
  ((List.range 32).filter fun aggIndex => stubDbAggHasMember w (aggIndex + 1)).map fun aggIndex =>
    briefLine w (aggIndex + 1)

/-! ## The loop -/

section Loop

variable {w : World} {aggId cnt : ℕ} {ports : List Addr} {s : (ℕ → LacpPortState) × UInt32}

/-- The loop visits a member. -/
theorem aggPortStates_member {port : Addr} (hagg : (w.port port).aggId = aggId) (hcnt : cnt < 8) :
    aggPortStates w aggId (port :: ports) cnt s =
      aggPortStates w aggId ports (cnt + 1) (Function.update s.1 cnt (lacpCopyPortState w (s.1 cnt) port),
        if isSelectedMaster w port then UInt32.ofNat cnt else s.2) := by
  simp [aggPortStates, hagg, hcnt]

/-- The loop passes over a port of another group. -/
theorem aggPortStates_other {port : Addr} (hagg : (w.port port).aggId ≠ aggId) :
    aggPortStates w aggId (port :: ports) cnt s = aggPortStates w aggId ports cnt s := by
  simp [aggPortStates, hagg]

/-- Where the members fit in, the loop leaves the entries before `cnt`, and fills one for each member. -/
theorem aggPortStates_fst (hfits : cnt + (ports.filter fun a => (w.port a).aggId = aggId).length ≤ 8) :
    (∀ k < cnt, (aggPortStates w aggId ports cnt s).1 k = s.1 k) ∧
    ∀ k, (aggPortStates w aggId ports cnt s).1 (cnt + k) =
      ((ports.filter fun a => (w.port a).aggId = aggId)[k]?).elim (s.1 (cnt + k))
        (lacpCopyPortState w (s.1 (cnt + k))) := by
  induction ports generalizing cnt s with
  | nil => exact ⟨fun _ _ => rfl, fun _ => rfl⟩
  | cons port ports ih =>
    by_cases hagg : (w.port port).aggId = aggId
    · rw [List.filter_cons_of_pos (by simpa using hagg), List.length_cons] at hfits
      rw [List.filter_cons_of_pos (by simpa using hagg), aggPortStates_member hagg (by omega)]
      obtain ⟨hbefore, hfill⟩ := @ih (cnt + 1)
        (Function.update s.1 cnt (lacpCopyPortState w (s.1 cnt) port),
          if isSelectedMaster w port then UInt32.ofNat cnt else s.2) (by omega)
      refine ⟨fun k hk => ?_, fun k => ?_⟩
      · rw [hbefore k (by omega)]
        exact Function.update_of_ne hk.ne ..
      · cases k with
        | zero =>
          rw [hbefore (cnt + 0) (by omega), List.getElem?_cons_zero]
          exact Function.update_self ..
        | succ k =>
          have hother : Function.update s.1 cnt (lacpCopyPortState w (s.1 cnt) port) (cnt + 1 + k) =
              s.1 (cnt + 1 + k) := Function.update_of_ne (by omega) ..
          have hindex : cnt + (k + 1) = cnt + 1 + k := by omega
          rw [hindex, hfill k, List.getElem?_cons_succ]
          simp only [hother]
    · rw [List.filter_cons_of_neg (by simpa using hagg)] at hfits
      rw [List.filter_cons_of_neg (by simpa using hagg), aggPortStates_other hagg]
      exact ih hfits

/-- The index that the loop reports is the one of a selected master, if there is one. -/
theorem aggPortStates_snd (hfits : cnt + (ports.filter fun a => (w.port a).aggId = aggId).length ≤ 8) :
    ((aggPortStates w aggId ports cnt s).2 = s.2 ∧
      ∀ a ∈ ports.filter fun a => (w.port a).aggId = aggId, isSelectedMaster w a = false) ∨
    ∃ k a, (ports.filter fun a => (w.port a).aggId = aggId)[k]? = some a ∧ isSelectedMaster w a = true ∧
      (aggPortStates w aggId ports cnt s).2 = UInt32.ofNat (cnt + k) := by
  induction ports generalizing cnt s with
  | nil => exact .inl ⟨rfl, fun _ ha => nomatch ha⟩
  | cons port ports ih =>
    by_cases hagg : (w.port port).aggId = aggId
    · rw [List.filter_cons_of_pos (by simpa using hagg), List.length_cons] at hfits
      rw [List.filter_cons_of_pos (by simpa using hagg), aggPortStates_member hagg (by omega)]
      rcases @ih (cnt + 1) (Function.update s.1 cnt (lacpCopyPortState w (s.1 cnt) port),
        if isSelectedMaster w port then UInt32.ofNat cnt else s.2) (by omega) with
        ⟨hkept, hnone⟩ | ⟨k, a, ha, hmaster, hindex⟩
      · by_cases hport : isSelectedMaster w port = true
        · exact .inr ⟨0, port, rfl, hport, hkept.trans (if_pos hport)⟩
        · refine .inl ⟨hkept.trans (if_neg hport), fun a ha => ?_⟩
          rcases List.mem_cons.mp ha with rfl | ha
          · exact Bool.eq_false_of_not_eq_true hport
          · exact hnone a ha
      · refine .inr ⟨k + 1, a, ha, hmaster, hindex.trans ?_⟩
        rw [show cnt + 1 + k = cnt + (k + 1) by omega]
    · rw [List.filter_cons_of_neg (by simpa using hagg)] at hfits
      rw [List.filter_cons_of_neg (by simpa using hagg), aggPortStates_other hagg]
      exact ih hfits

end Loop

/-! ## The report of a group -/

/-- What is reported of a port, but for `key`. -/
def trunkReport (w : World) (a : Addr) : TrunkPortReport := (lacpCopyPortState w .zero a).toTrunk

/-- The report `r` of the group says what is so. -/
structure AggReport (w : World) (aggId : ℕ) (r : TrunkAggState) : Prop where
  /-- There is an entry for each member, in the order of the list. -/
  entry : ∀ k < 8, (r.portsState k).valid ≠ 0 ↔ k < (groupMembers w aggId).length
  fits : (groupMembers w aggId).length ≤ 8
  /-- The entry of a member is what the report of the port says. `key` is zero here, and uninitialised
  there. -/
  info : ∀ k a, (groupMembers w aggId)[k]? = some a → ∀ portState t, trunkPortGetLacpInfo w
    (lacpSspChangeToSlotPort (w.port a).portIndex).1 (lacpSspChangeToSlotPort (w.port a).portIndex).2
      portState t = (.ok, { r.portsState k with key := portState.key })
  /-- Selected members have the same key and the same partner. -/
  alike : ∀ k < 8, ∀ l < 8, (r.portsState k).valid ≠ 0 → (r.portsState l).valid ≠ 0 →
    (r.portsState k).selState = true → (r.portsState l).selState = true →
      (r.portsState k).actor.key = (r.portsState l).actor.key ∧
      (r.portsState k).partner.systemPriority = (r.portsState l).partner.systemPriority ∧
      (r.portsState k).partner.systemMac = (r.portsState l).partner.systemMac ∧
      (r.portsState k).partner.key = (r.portsState l).partner.key
  /-- If a master is reported, it is a selected member that is its own master. -/
  master : r.masterIndex = trunkUintInvalid ∧ (∀ a ∈ groupMembers w aggId, isSelectedMaster w a = false) ∨
    ∃ k a, k < 8 ∧ r.masterIndex = UInt32.ofNat k ∧ (groupMembers w aggId)[k]? = some a ∧
      isSelectedMaster w a = true ∧ r.portsState k = trunkReport w a

section Report

variable {w : World} {aggId k : ℕ} {a : Addr}

/-- There are no more ports than indices. -/
theorem Coherent.length_ports_le {E : Set ℕ} (h : Coherent E w) : w.sys.ports.length ≤ lacpPortMax := by
  have hsub : (w.sys.ports.map fun a => (w.port a).portIndex) ⊆ List.range lacpPortMax := by
    intro i hi
    obtain ⟨a, ha, rfl⟩ := List.mem_map.mp hi
    exact List.mem_range.mpr (h.index_lt a ha)
  have hlength := (List.subperm_of_subset h.nodup hsub).length_le
  rwa [List.length_map, List.length_range] at hlength

theorem length_groupMembers_le (hw : Reachable w) (aggId : ℕ) : (groupMembers w aggId).length ≤ 4 :=
  (List.length_filter_le ..).trans hw.coherent.1.length_ports_le

/-- The entries of the report. -/
theorem portsState_trunkAggGetState (hw : Reachable w) (aggId k : ℕ) :
    (trunkAggGetState w aggId).portsState k =
      ((groupMembers w aggId)[k]?).elim LacpPortState.zero.toTrunk (trunkReport w) := by
  have hfits : 0 + (groupMembers w aggId).length ≤ 8 := by
    have hle := length_groupMembers_le hw aggId
    omega
  have hfill := (aggPortStates_fst (s := (fun _ => .zero, trunkUintInvalid)) hfits).2 k
  rw [Nat.zero_add] at hfill
  simp only [trunkAggGetState, lacpAggGetPortState, hfill, groupMembers]
  cases (w.sys.ports.filter fun a => (w.port a).aggId = aggId)[k]? <;> rfl

/-- Between two calls every port that is listed has a link group. -/
theorem aggId_ne_zero_of_mem (hw : Reachable w) (ha : a ∈ w.sys.ports) : (w.port a).aggId ≠ 0 :=
  hw.coherent.1.aggId_ne_zero ha ((hw.coherent.1.port a ha).enabled (Set.notMem_empty _))

/-- The report of a port that is listed. -/
theorem trunkPortGetLacpInfo_of_mem (hw : Reachable w) (ha : a ∈ w.sys.ports) {slot port : ℕ} (hport : 1 ≤ port)
    (hindex : globalIndex slot port = (w.port a).portIndex) (portState : LacpPortState) (t : TrunkPortReport) :
    trunkPortGetLacpInfo w slot port portState t = (.ok, { trunkReport w a with key := portState.key }) := by
  have hne := aggId_ne_zero_of_mem hw ha
  simp [trunkPortGetLacpInfo, trunkSspGetGlobalIndex_eq hport, hindex, lacpPortGetPortState,
    hw.coherent.1.lacpPortFind_eq ha, lacpCopyPortState, hne, trunkReport, LacpPortState.toTrunk]

theorem selState_trunkReport : (trunkReport w a).selState = true ↔
    (w.port a).selected = true ∧ (w.port a).standby = false := by
  simp [trunkReport, LacpPortState.toTrunk, lacpCopyPortState]

theorem ReachableBy.homogeneous {R : World → Call → Prop} (h : ReachableBy R w) : Homogeneous w :=
  h.invariant_of_effects (P := fun _ => Homogeneous) (fun _ _ ha => nomatch ha)
    fun hc hP heffect => hP.effect hc heffect

theorem Reachable.aggReport (hw : Reachable w) (aggId : ℕ) :
    AggReport w aggId (trunkAggGetState w aggId) := by
  have hfits := length_groupMembers_le hw aggId
  have hentry := portsState_trunkAggGetState hw aggId
  have hvalid : ∀ k, ((trunkAggGetState w aggId).portsState k).valid ≠ 0 ↔
      ∃ a, (groupMembers w aggId)[k]? = some a := by
    intro k
    rw [hentry]
    cases (groupMembers w aggId)[k]? <;>
      simp [trunkReport, LacpPortState.toTrunk, lacpCopyPortState, LacpPortState.zero]
  refine ⟨fun k _ => ?_, by omega, fun k a ha portState t => ?_, fun k _ l _ hk hl hsel hsel' => ?_, ?_⟩
  · rw [hvalid]
    exact ⟨fun ⟨a, ha⟩ => (List.getElem?_eq_some_iff.mp ha).1, fun hk => ⟨_, List.getElem?_eq_getElem hk⟩⟩
  · have hmem := (mem_groupMembers.mp (List.mem_of_getElem? ha)).1
    rw [hentry, ha]
    refine trunkPortGetLacpInfo_of_mem hw hmem (Nat.succ_pos _) ?_ portState t
    simp only [lacpSspChangeToSlotPort, globalIndex]
    omega
  · obtain ⟨a, ha⟩ := (hvalid k).mp hk
    obtain ⟨b, hb⟩ := (hvalid l).mp hl
    obtain ⟨haports, haagg⟩ := mem_groupMembers.mp (List.mem_of_getElem? ha)
    obtain ⟨hbports, hbagg⟩ := mem_groupMembers.mp (List.mem_of_getElem? hb)
    rw [hentry, ha] at hsel ⊢
    rw [hentry, hb] at hsel' ⊢
    have hactive : ∀ c ∈ w.sys.ports, (trunkReport w c).selState = true → (w.port c).Active :=
      fun c hc hsel => ⟨(hw.coherent.1.port c hc).enabled (Set.notMem_empty _), selState_trunkReport.mp hsel⟩
    have hsame := ReachableBy.homogeneous hw a haports b hbports (hactive a haports hsel) (hactive b hbports hsel')
      (haagg.trans hbagg.symm)
    exact ⟨hsame.key, hsame.partnerSystemPriority, hsame.partnerSystemMac, hsame.partnerKey⟩
  · have hfits' : 0 + (groupMembers w aggId).length ≤ 8 := by omega
    rcases aggPortStates_snd (s := (fun _ => .zero, trunkUintInvalid)) hfits' with
      ⟨hkept, hnone⟩ | ⟨k, a, ha, hmaster, hindex⟩
    · exact .inl ⟨hkept, hnone⟩
    · have hk : k < (groupMembers w aggId).length := (List.getElem?_eq_some_iff.mp ha).1
      refine .inr ⟨k, a, by omega, by rwa [Nat.zero_add] at hindex, ha, hmaster, ?_⟩
      rw [hentry, groupMembers, ha]
      rfl

/-- In every reachable state the report of a group has an entry for each of its ports and for no other,
in the order of the list, and each but for `key` the same as the report of the port alone; selected ports are reported with one key and one partner;
and a reported master is a selected port that is its own master. -/
theorem reachable_aggReport (w : World) (hw : Reachable w) (aggId : ℕ) :
    AggReport w aggId (trunkAggGetState w aggId) := hw.aggReport aggId

theorem aggregationRun_aggReport : ∃ w, Reachable w ∧ groupMembers w 1 ≠ [] ∧
    AggReport w 1 (trunkAggGetState w 1) := by
  obtain ⟨w, h, hboth⟩ := exists_reachable_bothForward
  obtain ⟨ha, _, _, hagg⟩ := hboth 0 (by decide)
  exact ⟨w, h, List.ne_nil_of_mem (mem_groupMembers.mpr ⟨ha, hagg⟩), reachable_aggReport w h 1⟩

end Report

/-! ## The brief -/

/-- The line says what a selection of the group that ran now would decide. -/
structure BriefLine.Faithful (w : World) (line : BriefLine) : Prop where
  members : line.selectedCnt + line.standbyCnt = (groupMembers w line.aggId).length
  standby : line.standbyCnt = (groupMembers w line.aggId).countP (selectedStandby w line.aggId)
  /-- The elected master is shown unless it stands by. -/
  master : ∀ t, line.master = some t ↔ ∃ a, electedMaster w line.aggId = some a ∧
    selectedStandby w line.aggId a = false ∧ t = trunkReport w a
  /-- The key and the partner that are shown are those of every selected port. -/
  alike : ∀ t, line.master = some t → ∀ a ∈ groupMembers w line.aggId,
    selectedStandby w line.aggId a = false → (w.port a).actor.key = t.actor.key ∧
      (w.port a).partner.systemPriority = t.partner.systemPriority ∧
      (w.port a).partner.systemMac = t.partner.systemMac

section Brief

variable {w : World} {aggId : ℕ} {a : Addr}

/-- The valid entries of a report, in their order. -/
theorem valid_portsState (hw : Reachable w) (aggId : ℕ) :
    ((List.range 8).map (trunkAggGetState w aggId).portsState).filter (fun s => s.valid != 0) =
      (groupMembers w aggId).map (trunkReport w) := by
  have hfits := length_groupMembers_le hw aggId
  have hrange : List.range 8 = List.range (groupMembers w aggId).length ++
      (List.range (8 - (groupMembers w aggId).length)).map ((groupMembers w aggId).length + ·) := by
    rw [← List.range_add]
    congr 1
    omega
  have hfirst : (List.range (groupMembers w aggId).length).map (trunkAggGetState w aggId).portsState =
      (groupMembers w aggId).map (trunkReport w) := by
    refine List.ext_getElem (by simp) fun k hk _ => ?_
    have hk' : k < (groupMembers w aggId).length := by simpa using hk
    simp [portsState_trunkAggGetState hw, List.getElem?_eq_getElem hk']
  rw [hrange, List.map_append, hfirst, List.filter_append, List.filter_eq_self.mpr, List.filter_eq_nil_iff.mpr,
    List.append_nil]
  · intro s hs
    simp only [List.map_map, List.mem_map, Function.comp_apply] at hs
    obtain ⟨j, -, rfl⟩ := hs
    rw [portsState_trunkAggGetState hw, List.getElem?_eq_none (Nat.le_add_right _ _)]
    simp [LacpPortState.toTrunk, LacpPortState.zero]
  · intro s hs
    obtain ⟨a, -, rfl⟩ := List.mem_map.mp hs
    simp [trunkReport, LacpPortState.toTrunk, lacpCopyPortState]

/-- In a group whose selection is fresh, a selected master is the elected one. -/
theorem SelectionFresh.isSelectedMaster_iff (h : SelectionFresh w aggId) (ha : a ∈ groupMembers w aggId) :
    isSelectedMaster w a = true ↔ electedMaster w aggId = some a ∧ selectedStandby w aggId a = false := by
  obtain ⟨hsel, hsb, hmaster, -⟩ := selectionFresh_iff.mp h a ha
  simp only [isSelectedMaster, hsel, hsb, hmaster, Bool.true_and, Bool.and_eq_true, Bool.not_eq_true',
    beq_iff_eq]
  cases helected : electedMaster w aggId with
  | none =>
    have hstandby : selectedStandby w aggId a = true := by simp [selectedStandby, helected]
    simp [hstandby]
  | some best => simp [and_comm]

/-- In a run that keeps the selections, the selection of a group that has a port is fresh between two
calls. -/
theorem ReachableBy.selectionFresh (h : ReachableBy (fun w c => c.KeepsSelections w) w)
    (ha : a ∈ w.sys.ports) : SelectionFresh w (w.port a).aggId := by
  have hne : (w.port a).aggId ≠ 0 :=
    h.coherent.1.aggId_ne_zero ha ((h.coherent.1.port a ha).enabled (Set.notMem_empty _))
  have hboth := h.invariant_of_effects
    (P := fun E w => (∀ g, g ≠ 0 → GroupSettled E w g) ∧ ∀ b ∈ w.sys.ports, DefaultMarked (w.port b))
    (fun _ => ⟨fun _ _ => .inr (.inr (.of_empty fun _ ha => nomatch ha)), fun _ ha => nomatch ha⟩)
    fun hc hP heffect => ⟨fun g hne => (hP.1 g hne).effect hc hP.2 hne heffect,
      .effect receivesOthers_keepsSelections hc hP.2 heffect⟩
  rcases hboth.1 _ hne with ⟨_, _, hE⟩ | ⟨r, hr, hsel⟩ | hfresh
  · exact absurd hE (Set.notMem_empty _)
  · exact absurd (h.port (mem_groupMembers.mp hr).1).2.selected (by simp [hsel])
  · exact hfresh

/-- A state of any run that meets a condition is a state of a run. -/
theorem ReachableBy.reachable {R : World → Call → Prop} (h : ReachableBy R w) : Reachable w := by
  induction h with
  | init pid => exact .init pid
  | step _ _ hstep ih => exact ih.step trivial hstep

theorem standbyCnt_briefLine (hw : Reachable w) (h : SelectionFresh w aggId) :
    (briefLine w aggId).standbyCnt = (groupMembers w aggId).countP (selectedStandby w aggId) := by
  simp only [briefLine, valid_portsState hw, List.countP_map]
  refine List.countP_congr fun a ha => ?_
  obtain ⟨hsel, hsb, -⟩ := selectionFresh_iff.mp h a ha
  simp [trunkReport, LacpPortState.toTrunk, lacpCopyPortState, hsel, hsb]

theorem cnt_briefLine (hw : Reachable w) (aggId : ℕ) :
    (briefLine w aggId).selectedCnt + (briefLine w aggId).standbyCnt = (groupMembers w aggId).length := by
  simp only [briefLine, valid_portsState hw, List.countP_map]
  rw [List.length_eq_countP_add_countP (fun a => (trunkReport w a).selState)]
  congr 2
  funext a
  simp

/-- The entry of the reported master is shown. -/
theorem master_briefLine {k : ℕ} (hk : k < 8)
    (hindex : (trunkAggGetState w aggId).masterIndex = UInt32.ofNat k) :
    (briefLine w aggId).master = some ((trunkAggGetState w aggId).portsState k) := by
  have hkNat : (UInt32.ofNat k).toNat = k := UInt32.toNat_ofNat_of_lt' (by
    show k < 4294967296
    omega)
  have hne : UInt32.ofNat k ≠ trunkUintInvalid := by
    intro heq
    have hinvalid : trunkUintInvalid.toNat = 4294967295 := rfl
    rw [heq, hinvalid] at hkNat
    omega
  simp only [briefLine, hindex, if_neg hne, hkNat]

/-- The master that is shown is the elected one. -/
theorem SelectionFresh.master_briefLine_iff (h : SelectionFresh w aggId)
    (hreport : AggReport w aggId (trunkAggGetState w aggId)) (t : TrunkPortReport) :
    (briefLine w aggId).master = some t ↔ ∃ a, electedMaster w aggId = some a ∧
      selectedStandby w aggId a = false ∧ t = trunkReport w a := by
  have hlisted : ∀ a, electedMaster w aggId = some a → a ∈ groupMembers w aggId := fun a ha =>
    mem_groupMembers.mpr ⟨(electedMaster_eq_some ha).1, (electedMaster_eq_some ha).2.1⟩
  rcases hreport.master with ⟨hindex, hnone⟩ | ⟨k, a, hk, hindex, ha, hselected, hentry⟩
  · have hmaster : (briefLine w aggId).master = none := by simp only [briefLine, hindex, if_true]
    rw [hmaster]
    refine ⟨fun h => (nomatch h), fun ⟨a, ha, hsb, _⟩ => ?_⟩
    have hisMaster := (h.isSelectedMaster_iff (hlisted a ha)).mpr ⟨ha, hsb⟩
    rw [hnone a (hlisted a ha)] at hisMaster
    cases hisMaster
  · obtain ⟨helected, hsb⟩ := (h.isSelectedMaster_iff (List.mem_of_getElem? ha)).mp hselected
    rw [master_briefLine hk hindex, hentry, Option.some.injEq]
    constructor
    · rintro rfl
      exact ⟨a, helected, hsb, rfl⟩
    · rintro ⟨b, hb, -, rfl⟩
      rw [Option.some.inj (helected.symm.trans hb)]

/-- In every run that keeps the selections, the brief of a group that has a port shows how many of its ports
a selection would leave selected and in standby, the master that it would elect, if that does not stand by,
and the key and the partner system of every selected port. -/
theorem reachableBy_briefLine (w : World) (hw : ReachableBy (fun w c => c.KeepsSelections w) w) (aggId : ℕ)
    (hmember : ∃ a ∈ w.sys.ports, (w.port a).aggId = aggId) : (briefLine w aggId).Faithful w := by
  obtain ⟨c, hc, rfl⟩ := hmember
  have hfresh := hw.selectionFresh hc
  have hmaster := hfresh.master_briefLine_iff (hw.reachable.aggReport _)
  refine ⟨cnt_briefLine hw.reachable _, standbyCnt_briefLine hw.reachable hfresh, hmaster,
    fun t ht a ha hsb => ?_⟩
  obtain ⟨best, hbest, hbestActive, rfl⟩ := (hmaster t).mp ht
  obtain ⟨hlisted, hagg, -⟩ := electedMaster_eq_some hbest
  have hactive : ∀ b ∈ groupMembers w (w.port c).aggId, selectedStandby w (w.port c).aggId b = false →
      (w.port b).Active := by
    intro b hb hsb
    obtain ⟨hsel, hstandby, -⟩ := selectionFresh_iff.mp hfresh b hb
    exact ⟨(hw.coherent.1.port b (mem_groupMembers.mp hb).1).enabled (Set.notMem_empty _), hsel,
      hstandby.trans hsb⟩
  have hsame := hw.homogeneous a (mem_groupMembers.mp ha).1 best hlisted (hactive a ha hsb)
    (hactive best (mem_groupMembers.mpr ⟨hlisted, hagg⟩) hbestActive)
    ((mem_groupMembers.mp ha).2.trans hagg.symm)
  exact ⟨hsame.key, hsame.partnerSystemPriority, hsame.partnerSystemMac⟩

theorem aggregationRun_briefLine : ∃ w, ReachableBy (fun w c => c.KeepsSelections w) w ∧
    bothForward w = true ∧ (briefLine w 1).Faithful w := by
  have hrun : (runCalls (fun w c => decide (c.KeepsSelections w)) 25 (initWorld 77)
      aggregationRun).any bothForward = true := by decide +kernel
  obtain ⟨w, h, _, hboth⟩ := exists_reachableBy_of_runCalls (by decide)
    (fun _ _ htest => of_decide_eq_true htest) hrun
  have hmember := List.all_eq_true.mp hboth 0 (by decide)
  simp only [Bool.and_eq_true, decide_eq_true_iff] at hmember
  exact ⟨w, h, hboth, reachableBy_briefLine w h 1 ⟨0, hmember.1.1.1, hmember.2⟩⟩

end Brief

end Lacp
