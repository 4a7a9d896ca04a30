import Lacp.Sel

/-!
# What a selection depends on

A selection of a group reads some twenty fields of each member. `SelectionInputs` collects them,
and `SameInputs` says that two worlds agree on them for one group. Selections of such worlds elect the
same master and decide alike (`SameInputs.electedMaster`, `SameInputs.selectedStandby`). A selection
writes none of its own inputs, so repeating it changes nothing
(`selectionFresh_updateAggPortsSelect`).
-/

namespace Lacp

/-- What `update_agg_ports_select` reads of one member of the group. -/
structure SelectionInputs where
  portEnabled : Bool
  lacpEnabled : Bool
  speed : UInt32
  duplex : UInt32
  systemPriority : UInt16
  systemMac : LacpMac
  portPriority : UInt16
  portNo : UInt16
  AGG : Bool
  DEF : Bool
  partnerSystemPriority : UInt16
  partnerSystemMac : LacpMac
  partnerKey : UInt16
  partnerPortNo : UInt16
  partnerAGG : Bool
  operKey : UInt16

/-- The inputs of a selection that the port at `a` contributes. -/
def selectionInputs (w : World) (a : Addr) : SelectionInputs where
  portEnabled := (w.port a).portEnabled
  lacpEnabled := (w.port a).lacpEnabled
  speed := (w.port a).speed
  duplex := (w.port a).duplex
  systemPriority := (w.port a).actor.systemPriority
  systemMac := (w.port a).actor.systemMac
  portPriority := (w.port a).actor.portPriority
  portNo := (w.port a).actor.portNo
  AGG := (w.port a).actor.state.AGG
  DEF := (w.port a).actor.state.DEF
  partnerSystemPriority := (w.port a).partner.systemPriority
  partnerSystemMac := (w.port a).partner.systemMac
  partnerKey := (w.port a).partner.key
  partnerPortNo := (w.port a).partner.portNo
  partnerAGG := (w.port a).partner.state.AGG
  operKey := UInt16.ofNat (trunkSspGetPortOperKey w (w.port a).portIndex)

/-- The listed members of a group, in the order of the list. -/
def groupMembers (w : World) (aggId : ℕ) : List Addr :=
  w.sys.ports.filter fun a => (w.port a).aggId = aggId

@[simp] theorem mem_groupMembers {w : World} {aggId : ℕ} {a : Addr} :
    a ∈ groupMembers w aggId ↔ a ∈ w.sys.ports ∧ (w.port a).aggId = aggId := by
  simp [groupMembers]

/-- The two worlds have the same members in the group, with the same inputs. -/
structure SameInputs (w w' : World) (aggId : ℕ) : Prop where
  members : groupMembers w' aggId = groupMembers w aggId
  inputs : ∀ a ∈ groupMembers w aggId, selectionInputs w' a = selectionInputs w a

/-! ## The elected master -/

section Election

variable {w w' : World} {aggId : ℕ} {a b p : Addr} {best : Option Addr}

theorem notElectable_eq_false {p : LacpPort} :
    notElectable aggId p = false ↔
      p.aggId = aggId ∧ p.portEnabled = true ∧ p.lacpEnabled = true ∧ p.duplex ≠ 0 := by
  simp only [notElectable, Bool.or_eq_false_iff, bne_eq_false_iff_eq, Bool.not_eq_false',
    beq_eq_false_iff_ne, ne_eq, and_assoc]
  rw [eq_comm]

/-- The election does not read keys, so it does not matter that they were refreshed first. -/
theorem electBest_updatePortInfo : electBest (updatePortInfo w aggId) aggId = electBest w aggId := by
  funext best p
  obtain ⟨key, hkey⟩ := updatePortInfo_keyed w aggId p
  have hel : notElectable aggId ((updatePortInfo w aggId).port p) = notElectable aggId (w.port p) := by
    rw [hkey]
    rfl
  cases best with
  | none => simp only [electBest, hel]
  | some b =>
    obtain ⟨key', hkey'⟩ := updatePortInfo_keyed w aggId b
    have hbest : replacesBest ((updatePortInfo w aggId).port p) ((updatePortInfo w aggId).port b)
        = replacesBest (w.port p) (w.port b) := by
      rw [hkey, hkey']
      rfl
    simp only [electBest, hel, hbest]

theorem electedMaster_eq : electedMaster w aggId = w.sys.ports.foldl (electBest w aggId) none := by
  rw [← electBest_updatePortInfo]
  rfl

theorem electBest_eq_some (h : electBest w aggId best p = some b) :
    best = some b ∨ (p = b ∧ notElectable aggId (w.port b) = false) := by
  cases hp : notElectable aggId (w.port p) with
  | true => exact .inl (by simpa [electBest, hp] using h)
  | false =>
    cases best with
    | none =>
      obtain rfl : p = b := by simpa [electBest, hp] using h
      exact .inr ⟨rfl, hp⟩
    | some c =>
      cases hr : replacesBest (w.port p) (w.port c) with
      | true =>
        obtain rfl : p = b := by simpa [electBest, hp, hr] using h
        exact .inr ⟨rfl, hp⟩
      | false => exact .inl (by simpa [electBest, hp, hr] using h)

theorem foldl_electBest_eq_some {l : List Addr} (h : l.foldl (electBest w aggId) best = some b) :
    best = some b ∨ (b ∈ l ∧ notElectable aggId (w.port b) = false) := by
  induction l generalizing best with
  | nil => exact .inl h
  | cons p l ih =>
    rcases ih h with hp | ⟨hmem, hel⟩
    · rcases electBest_eq_some hp with hbest | ⟨rfl, hel⟩
      · exact .inl hbest
      · exact .inr ⟨List.mem_cons_self, hel⟩
    · exact .inr ⟨List.mem_cons_of_mem _ hmem, hel⟩

/-- The election passes over the ports of other groups. -/
theorem foldl_electBest_filter (l : List Addr) :
    l.foldl (electBest w aggId) best
      = (l.filter fun a => (w.port a).aggId = aggId).foldl (electBest w aggId) best := by
  induction l generalizing best with
  | nil => rfl
  | cons p l ih =>
    by_cases hagg : (w.port p).aggId = aggId
    · rw [List.filter_cons_of_pos (by simpa using hagg), List.foldl_cons, List.foldl_cons, ih]
    · have hpass : notElectable aggId (w.port p) = true := by
        rw [notElectable, bne_iff_ne.mpr (Ne.symm hagg)]
        rfl
      have hskip : electBest w aggId best p = best := if_pos hpass
      rw [List.filter_cons_of_neg (by simpa using hagg), List.foldl_cons, hskip, ih]

/-- The election reads the electable ports only through `notElectable` and `replacesBest`. -/
theorem foldl_electBest_congr {l m : List Addr}
    (hel : ∀ a ∈ m, notElectable aggId (w'.port a) = notElectable aggId (w.port a))
    (hreplaces : ∀ a ∈ m, ∀ b ∈ m,
      replacesBest (w'.port a) (w'.port b) = replacesBest (w.port a) (w.port b))
    (hl : l ⊆ m) (hbest : ∀ b, best = some b → b ∈ m) :
    l.foldl (electBest w' aggId) best = l.foldl (electBest w aggId) best := by
  induction l generalizing best with
  | nil => rfl
  | cons p l ih =>
    have hp : p ∈ m := hl List.mem_cons_self
    have hstep : electBest w' aggId best p = electBest w aggId best p := by
      simp only [electBest, hel p hp]
      cases best with
      | none => rfl
      | some b => simp only [hreplaces p hp b (hbest b rfl)]
    rw [List.foldl_cons, List.foldl_cons, hstep]
    refine ih (fun q hq => hl (List.mem_cons_of_mem _ hq)) ?_
    intro b hb
    rcases electBest_eq_some hb with hold | ⟨rfl, _⟩
    · exact hbest b hold
    · exact hp

theorem electedMaster_eq_members :
    electedMaster w aggId = (groupMembers w aggId).foldl (electBest w aggId) none := by
  rw [electedMaster_eq, foldl_electBest_filter, groupMembers]

/-- The elected master is a listed member of the group that works at full duplex. -/
theorem electedMaster_eq_some (h : electedMaster w aggId = some b) :
    b ∈ w.sys.ports ∧ (w.port b).aggId = aggId ∧ (w.port b).portEnabled = true ∧
      (w.port b).lacpEnabled = true ∧ (w.port b).duplex ≠ 0 := by
  rw [electedMaster_eq] at h
  rcases foldl_electBest_eq_some h with hnone | ⟨hmem, hel⟩
  · simp at hnone
  · exact ⟨hmem, notElectable_eq_false.mp hel⟩

/-- The master a selection writes is a listed port. -/
theorem getD_electedMaster_mem (ha : a ∈ w.sys.ports) :
    (electedMaster w aggId).getD a ∈ w.sys.ports := by
  cases h : electedMaster w aggId with
  | none => exact ha
  | some b => exact (electedMaster_eq_some h).1

end Election

/-! ## Selections of worlds with the same inputs -/

section Congruence

variable {w w' : World} {aggId : ℕ} {a b : Addr}

theorem selectionInputs_eq_iff :
    selectionInputs w' a = selectionInputs w b ↔
      (w'.port a).portEnabled = (w.port b).portEnabled ∧
      (w'.port a).lacpEnabled = (w.port b).lacpEnabled ∧
      (w'.port a).speed = (w.port b).speed ∧
      (w'.port a).duplex = (w.port b).duplex ∧
      (w'.port a).actor.systemPriority = (w.port b).actor.systemPriority ∧
      (w'.port a).actor.systemMac = (w.port b).actor.systemMac ∧
      (w'.port a).actor.portPriority = (w.port b).actor.portPriority ∧
      (w'.port a).actor.portNo = (w.port b).actor.portNo ∧
      (w'.port a).actor.state.AGG = (w.port b).actor.state.AGG ∧
      (w'.port a).actor.state.DEF = (w.port b).actor.state.DEF ∧
      (w'.port a).partner.systemPriority = (w.port b).partner.systemPriority ∧
      (w'.port a).partner.systemMac = (w.port b).partner.systemMac ∧
      (w'.port a).partner.key = (w.port b).partner.key ∧
      (w'.port a).partner.portNo = (w.port b).partner.portNo ∧
      (w'.port a).partner.state.AGG = (w.port b).partner.state.AGG ∧
      UInt16.ofNat (trunkSspGetPortOperKey w' (w'.port a).portIndex)
        = UInt16.ofNat (trunkSspGetPortOperKey w (w.port b).portIndex) := by
  simp only [selectionInputs, SelectionInputs.mk.injEq]

namespace SameInputs

theorem refl (w : World) (aggId : ℕ) : SameInputs w w aggId :=
  ⟨rfl, fun _ _ => rfl⟩

theorem symm (h : SameInputs w w' aggId) : SameInputs w' w aggId where
  members := h.members.symm
  inputs := fun a ha => (h.inputs a (h.members ▸ ha)).symm

/-- A member of the group in one world is a member in the other. -/
theorem aggId_eq (h : SameInputs w w' aggId) (ha : a ∈ groupMembers w aggId) :
    a ∈ w'.sys.ports ∧ (w'.port a).aggId = aggId :=
  mem_groupMembers.mp (h.members ▸ ha)

theorem notElectable (h : SameInputs w w' aggId) (ha : a ∈ groupMembers w aggId) :
    Lacp.notElectable aggId (w'.port a) = Lacp.notElectable aggId (w.port a) := by
  obtain ⟨hen, hlac, _, hduplex, _⟩ := selectionInputs_eq_iff.mp (h.inputs a ha)
  simp only [Lacp.notElectable, (mem_groupMembers.mp ha).2, (h.aggId_eq ha).2, hen, hlac, hduplex]

theorem replacesBest (h : SameInputs w w' aggId) (ha : a ∈ groupMembers w aggId)
    (hb : b ∈ groupMembers w aggId) :
    Lacp.replacesBest (w'.port a) (w'.port b) = Lacp.replacesBest (w.port a) (w.port b) := by
  obtain ⟨_, _, hs, _, _, _, hpp, hno, _, hdef, _⟩ := selectionInputs_eq_iff.mp (h.inputs a ha)
  obtain ⟨_, _, hs', _, _, _, hpp', hno', _, hdef', _⟩ := selectionInputs_eq_iff.mp (h.inputs b hb)
  rw [Lacp.replacesBest, Lacp.replacesBest, hs, hpp, hno, hdef, hs', hpp', hno', hdef']

/-- The same inputs elect the same master. -/
theorem electedMaster (h : SameInputs w w' aggId) :
    Lacp.electedMaster w' aggId = Lacp.electedMaster w aggId := by
  rw [electedMaster_eq_members, electedMaster_eq_members, h.members]
  exact foldl_electBest_congr (fun a ha => h.notElectable ha)
    (fun a ha b hb => h.replacesBest ha hb) (fun _ ha => ha) (by simp)

/-- One direction of `partnersAport`. -/
theorem partnersAport_of (h : SameInputs w w' aggId) (ha : a ∈ groupMembers w aggId)
    (hloop : Lacp.partnersAport (updatePortInfo w aggId) a = true) :
    Lacp.partnersAport (updatePortInfo w' aggId) a = true := by
  obtain ⟨hmem, hagg⟩ := mem_groupMembers.mp ha
  obtain ⟨hmem', hagg'⟩ := h.aggId_eq ha
  obtain ⟨_, _, _, _, _, _, hpp, hno, _, _, hqs, hqm, hqk, hqn, _⟩ :=
    selectionInputs_eq_iff.mp (h.inputs a ha)
  simp only [Lacp.partnersAport, List.any_eq_true, updatePortInfo_sys] at hloop ⊢
  obtain ⟨p, hp, htest⟩ := hloop
  have hpagg : (w.port p).aggId = aggId := by
    obtain ⟨key, hkey⟩ := updatePortInfo_keyed w aggId p
    simp only [updatePortInfo_member hmem hagg, hkey, Bool.and_eq_true, beq_iff_eq, hagg] at htest
    exact htest.1.1.1.1.1.symm
  have hpin : p ∈ groupMembers w aggId := mem_groupMembers.mpr ⟨hp, hpagg⟩
  obtain ⟨hp', hpagg'⟩ := h.aggId_eq hpin
  obtain ⟨_, _, _, _, hs', hm', hpp', hno', _, _, _, _, _, _, _, hkey'⟩ :=
    selectionInputs_eq_iff.mp (h.inputs p hpin)
  refine ⟨p, hp', ?_⟩
  simpa only [updatePortInfo_member hmem hagg, updatePortInfo_member hmem' hagg',
    updatePortInfo_member hp hpagg, updatePortInfo_member hp' hpagg', hagg, hagg', hpagg, hpagg', hpp,
    hno, hqs, hqm, hqk, hqn, hs', hm', hpp', hno', hkey'] using htest

theorem partnersAport (h : SameInputs w w' aggId) (ha : a ∈ groupMembers w aggId) :
    Lacp.partnersAport (updatePortInfo w' aggId) a
      = Lacp.partnersAport (updatePortInfo w aggId) a :=
  Bool.eq_iff_iff.mpr
    ⟨h.symm.partnersAport_of (h.members ▸ ha), h.partnersAport_of ha⟩

theorem joinsBest (h : SameInputs w w' aggId) (ha : a ∈ groupMembers w aggId)
    (hb : b ∈ groupMembers w aggId) :
    Lacp.joinsBest ((updatePortInfo w' aggId).port a) ((updatePortInfo w' aggId).port b)
      = Lacp.joinsBest ((updatePortInfo w aggId).port a) ((updatePortInfo w aggId).port b) := by
  obtain ⟨hmem, hagg⟩ := mem_groupMembers.mp ha
  obtain ⟨hmem', hagg'⟩ := h.aggId_eq ha
  obtain ⟨hbmem, hbagg⟩ := mem_groupMembers.mp hb
  obtain ⟨hbmem', hbagg'⟩ := h.aggId_eq hb
  obtain ⟨hen, hlac, _, _, _, _, _, _, hA, _, hqs, hqm, hqk, _, hqA, hkey⟩ :=
    selectionInputs_eq_iff.mp (h.inputs a ha)
  obtain ⟨_, _, _, _, _, _, _, _, hA', _, hqs', hqm', hqk', _, hqA', hkey'⟩ :=
    selectionInputs_eq_iff.mp (h.inputs b hb)
  simp only [Lacp.joinsBest, updatePortInfo_member hmem hagg, updatePortInfo_member hbmem hbagg,
    updatePortInfo_member hmem' hagg', updatePortInfo_member hbmem' hbagg', hen, hlac, hA, hqs, hqm,
    hqk, hqA, hkey, hA', hqs', hqm', hqk', hqA', hkey']

/-- The same inputs put the same members in standby. -/
theorem selectedStandby (h : SameInputs w w' aggId) (ha : a ∈ groupMembers w aggId) :
    Lacp.selectedStandby w' aggId a = Lacp.selectedStandby w aggId a := by
  simp only [Lacp.selectedStandby, h.electedMaster]
  cases hbest : Lacp.electedMaster w aggId with
  | none => rfl
  | some best =>
    obtain ⟨hb, hbagg, _⟩ := electedMaster_eq_some hbest
    simp only [h.joinsBest ha (mem_groupMembers.mpr ⟨hb, hbagg⟩), h.partnersAport ha]

end SameInputs

/-- A selection writes none of its inputs, of its own group or of any other. -/
theorem selectionInputs_updateAggPortsSelect :
    selectionInputs (updateAggPortsSelect w aggId) a = selectionInputs w a := by
  have hkey : ∀ i, trunkSspGetPortOperKey (updateAggPortsSelect w aggId) i
      = trunkSspGetPortOperKey w i :=
    fun i => trunkSspGetPortOperKey_congr rfl rfl rfl
  rw [selectionInputs_eq_iff, updateAggPortsSelect_port, hkey]
  split <;> simp

theorem SameInputs.updateAggPortsSelect (aggId' : ℕ) :
    SameInputs w (updateAggPortsSelect w aggId) aggId' where
  members := by
    refine List.filter_congr fun a _ => ?_
    rw [updateAggPortsSelect_port]
    split <;> rfl
  inputs := fun _ _ => selectionInputs_updateAggPortsSelect

end Congruence

/-! ## A selection that would change nothing -/

/-- Running `update_agg_ports_select` on the group again would change no port's `selected`,
`standby`, `master_port` or key. -/
def SelectionFresh (w : World) (aggId : ℕ) : Prop :=
  ∀ a ∈ w.sys.ports,
    ((updateAggPortsSelect w aggId).port a).selected = (w.port a).selected ∧
    ((updateAggPortsSelect w aggId).port a).standby = (w.port a).standby ∧
    ((updateAggPortsSelect w aggId).port a).masterPort = (w.port a).masterPort ∧
    ((updateAggPortsSelect w aggId).port a).actor.key = (w.port a).actor.key

section Fresh

variable {w w' : World} {aggId : ℕ}

/-- Only the members matter, and they hold what the selection would write. -/
theorem selectionFresh_iff :
    SelectionFresh w aggId ↔ ∀ a ∈ groupMembers w aggId,
      (w.port a).selected = true ∧
      (w.port a).standby = selectedStandby w aggId a ∧
      (w.port a).masterPort = (electedMaster w aggId).getD a ∧
      (w.port a).actor.key = UInt16.ofNat (trunkSspGetPortOperKey w (w.port a).portIndex) := by
  constructor
  · intro h a ha
    have hport := h a (mem_groupMembers.mp ha).1
    rw [updateAggPortsSelect_port, if_pos (mem_groupMembers.mp ha)] at hport
    obtain ⟨hsel, hsb, hmaster, hkey⟩ := hport
    exact ⟨hsel.symm, hsb.symm, hmaster.symm, hkey.symm⟩
  · intro h a ha
    rw [updateAggPortsSelect_port]
    by_cases hagg : (w.port a).aggId = aggId
    · obtain ⟨hsel, hsb, hmaster, hkey⟩ := h a (mem_groupMembers.mpr ⟨ha, hagg⟩)
      rw [if_pos ⟨ha, hagg⟩]
      exact ⟨hsel.symm, hsb.symm, hmaster.symm, hkey.symm⟩
    · rw [if_neg fun hmem => hagg hmem.2]
      exact ⟨rfl, rfl, rfl, rfl⟩

/-- A selection just made is fresh. -/
theorem selectionFresh_updateAggPortsSelect : SelectionFresh (updateAggPortsSelect w aggId) aggId := by
  have hsame : SameInputs w (updateAggPortsSelect w aggId) aggId := .updateAggPortsSelect aggId
  rw [selectionFresh_iff]
  intro a ha
  have ha' : a ∈ groupMembers w aggId := hsame.members ▸ ha
  have hkey := (selectionInputs_eq_iff.mp (hsame.inputs a ha')).2.2.2.2.2.2.2.2.2.2.2.2.2.2.2
  rw [hsame.selectedStandby ha', hsame.electedMaster, hkey, updateAggPortsSelect_port,
    if_pos (mem_groupMembers.mp ha')]
  exact ⟨rfl, rfl, rfl, rfl⟩

/-- Freshness is kept by what changes neither the inputs of the group nor the results. -/
theorem SelectionFresh.congr (hsame : SameInputs w w' aggId)
    (hkeep : ∀ a ∈ groupMembers w aggId,
      (w'.port a).selected = (w.port a).selected ∧ (w'.port a).standby = (w.port a).standby ∧
      (w'.port a).masterPort = (w.port a).masterPort ∧
      (w'.port a).actor.key = (w.port a).actor.key)
    (h : SelectionFresh w aggId) : SelectionFresh w' aggId := by
  rw [selectionFresh_iff] at h ⊢
  intro a ha
  have ha' : a ∈ groupMembers w aggId := hsame.members ▸ ha
  obtain ⟨hsel, hsb, hmaster, hkey⟩ := h a ha'
  obtain ⟨hsel', hsb', hmaster', hkey'⟩ := hkeep a ha'
  have hoper := (selectionInputs_eq_iff.mp (hsame.inputs a ha')).2.2.2.2.2.2.2.2.2.2.2.2.2.2.2
  rw [hsel', hsb', hmaster', hkey', hsame.selectedStandby ha', hsame.electedMaster, hoper]
  exact ⟨hsel, hsb, hmaster, hkey⟩

end Fresh

end Lacp
