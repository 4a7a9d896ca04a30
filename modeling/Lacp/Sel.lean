import Lacp.Port

/-!
# The selection machine

Reference: `LACP/lacp_sel.c`.

Selecting a group refreshes the keys of its members, elects a master among them and then decides,
member by member, between selected and standby. `updateAggPortsSelect_port` is the whole effect.
-/

namespace Lacp

/-- `partners_aport`: the recorded partner is a port of the same group of this very system, and that
port ranks before this one. -/
def partnersAport (w : World) (port : Addr) : Bool :=
  w.sys.ports.any fun p =>
    (w.port port).aggId == (w.port p).aggId
      && (w.port p).actor.systemPriority == (w.port port).partner.systemPriority
      && (w.port p).actor.systemMac == (w.port port).partner.systemMac
      && (w.port p).actor.key == (w.port port).partner.key
      && (w.port p).actor.portNo == (w.port port).partner.portNo
      && ((w.port p).actor.portPriority < (w.port port).actor.portPriority
        || (w.port p).actor.portPriority == (w.port port).actor.portPriority
          && (w.port p).actor.portNo < (w.port port).actor.portNo)

/-- The comparisons of `select_master_port`: does `p` take the place of the best port so far? -/
def replacesBest (p best : LacpPort) : Bool :=
  if p.speed > best.speed then true
  else if p.speed < best.speed then false
  else if p.actor.portPriority < best.actor.portPriority then true
  else if p.actor.portPriority > best.actor.portPriority then false
  else if !p.actor.state.DEF && best.actor.state.DEF then true
  else if p.actor.state.DEF && !best.actor.state.DEF then false
  else p.actor.portNo < best.actor.portNo

/-- A port the election passes over. -/
def notElectable (aggId : ℕ) (p : LacpPort) : Bool :=
  aggId != p.aggId || !p.portEnabled || !p.lacpEnabled || p.duplex == 0

/-- The first loop of `select_master_port`: "update port info". -/
def updatePortInfo (w : World) (aggId : ℕ) : World :=
  w.forPorts fun _ p =>
    if aggId ≠ p.aggId then p
    else { p with actor.key := UInt16.ofNat (trunkSspGetPortOperKey w p.portIndex) }

/-- One round of the second loop of `select_master_port`. -/
def electBest (w : World) (aggId : ℕ) (best : Option Addr) (p : Addr) : Option Addr :=
  if notElectable aggId (w.port p) then best
  else
    match best with
    | none => some p
    | some b => if replacesBest (w.port p) (w.port b) then some p else some b

/-- `select_master_port`. -/
def selectMasterPort (w : World) (aggId : ℕ) : World × Option Addr :=
  let w := updatePortInfo w aggId
  (w, w.sys.ports.foldl (electBest w aggId) none)

/-- The condition of `update_agg_ports_select`, but for the loop test: the port works, and has the
key and the partner of the best port, and all four `AGG` bits are set. -/
def joinsBest (port best : LacpPort) : Bool :=
  port.portEnabled
    && port.lacpEnabled
    && port.actor.key == best.actor.key
    && port.partner.systemPriority == best.partner.systemPriority
    && port.partner.systemMac == best.partner.systemMac
    && port.partner.key == best.partner.key
    && port.actor.state.AGG
    && port.partner.state.AGG
    && best.actor.state.AGG
    && best.partner.state.AGG

/-- The loop body of `update_agg_ports_select`. -/
def updateAggPort (w : World) (aggId : ℕ) (best : Option Addr) (a : Addr) (port : LacpPort) :
    LacpPort :=
  if port.aggId ≠ aggId then port
  else
    match best with
    -- without a master every member stands by and is its own master
    | none => { port with selected := true, standby := true, masterPort := a }
    | some best =>
      let port := { port with masterPort := best }
      if joinsBest port (w.port best) && !partnersAport w a then
        { port with selected := true, standby := false }
      else { port with selected := true, standby := true }

/-- `update_agg_ports_select`. -/
def updateAggPortsSelect (w : World) (aggId : ℕ) : World :=
  let (w, best) := selectMasterPort w aggId
  w.forPorts (updateAggPort w aggId best)

/-- `selection_logic`, with `lacp_select`; the return value is never used. -/
def selectionLogic (w : World) (port : Addr) : World :=
  if !(w.port port).lacpEnabled then
    w.modify port fun p => { p with selected := true, standby := true }
  else if (w.port port).aggId = 0 then w
  else updateAggPortsSelect w (w.port port).aggId

/-- `lacp_sel_enter_state`. -/
def lacpSelEnterState (w : World) (port : Addr) : World :=
  match (w.port port).sel.state with
  | .begin | .init => w.modify port fun p => { p with selected := false }
  | .selection => selectionLogic w port

/-- `lacp_sel_check_conditions`. -/
def lacpSelCheckConditions (w : World) (port : Addr) : Option SelState :=
  match (w.port port).sel.state with
  | .begin | .init => some .selection
  | .selection => if !(w.port port).selected then some .selection else none

/-! ## The effect of a selection -/

/-- The master a selection of the group elects. -/
def electedMaster (w : World) (aggId : ℕ) : Option Addr := (selectMasterPort w aggId).2

/-- A selection of the group leaves this member in standby. -/
def selectedStandby (w : World) (aggId : ℕ) (a : Addr) : Bool :=
  match electedMaster w aggId with
  | none => true
  | some best =>
    let w := updatePortInfo w aggId
    !(joinsBest (w.port a) (w.port best) && !partnersAport w a)

section Selection

variable (w : World) (aggId : ℕ) (a b : Addr)

@[simp] theorem updatePortInfo_sys : (updatePortInfo w aggId).sys = w.sys := rfl

theorem updatePortInfo_port :
    (updatePortInfo w aggId).port b =
      if b ∈ w.sys.ports ∧ (w.port b).aggId = aggId then
        { w.port b with
          actor.key := UInt16.ofNat (trunkSspGetPortOperKey w (w.port b).portIndex) }
      else w.port b := by
  by_cases hb : b ∈ w.sys.ports <;> by_cases hagg : aggId = (w.port b).aggId <;>
    simp [updatePortInfo, hb, hagg, eq_comm]

/-- The record of a member after its key was refreshed. -/
theorem updatePortInfo_member {w : World} {aggId : ℕ} {a : Addr} (ha : a ∈ w.sys.ports)
    (hagg : (w.port a).aggId = aggId) :
    (updatePortInfo w aggId).port a =
      { w.port a with
        actor.key := UInt16.ofNat (trunkSspGetPortOperKey w (w.port a).portIndex) } := by
  rw [updatePortInfo_port, if_pos ⟨ha, hagg⟩]

/-- Refreshing the keys changes nothing but keys. -/
theorem updatePortInfo_keyed :
    ∃ key, (updatePortInfo w aggId).port b = { w.port b with actor.key := key } := by
  rw [updatePortInfo_port]
  by_cases hmem : b ∈ w.sys.ports ∧ (w.port b).aggId = aggId
  · exact ⟨_, if_pos hmem⟩
  · exact ⟨(w.port b).actor.key, by rw [if_neg hmem]⟩

/-- `update_agg_ports_select`, with the election and the tests read off the refreshed records. -/
theorem updateAggPortsSelect_eq :
    updateAggPortsSelect w aggId =
      (updatePortInfo w aggId).forPorts fun a port =>
        if port.aggId ≠ aggId then port
        else { port with
          selected := true
          standby := selectedStandby w aggId a
          masterPort := (electedMaster w aggId).getD a } := by
  show (updatePortInfo w aggId).forPorts
    (updateAggPort (updatePortInfo w aggId) aggId (electedMaster w aggId)) = _
  apply forPorts_congr
  intro a _
  by_cases hagg : ((updatePortInfo w aggId).port a).aggId ≠ aggId
  · rw [if_pos hagg, updateAggPort.eq_def, if_pos hagg]
  · rw [if_neg hagg, updateAggPort.eq_def, if_neg hagg]
    cases hbest : electedMaster w aggId with
    | none => simp only [selectedStandby, hbest, Option.getD_none]
    | some best =>
      have hjoins : joinsBest { (updatePortInfo w aggId).port a with masterPort := best }
          ((updatePortInfo w aggId).port best)
          = joinsBest ((updatePortInfo w aggId).port a) ((updatePortInfo w aggId).port best) := rfl
      simp only [selectedStandby, hbest, hjoins, Option.getD_some]
      cases joinsBest ((updatePortInfo w aggId).port a) ((updatePortInfo w aggId).port best)
        && !partnersAport (updatePortInfo w aggId) a <;> rfl

/-- A selection writes the key, `selected`, `standby` and the master of the members. -/
theorem updateAggPortsSelect_port :
    (updateAggPortsSelect w aggId).port b =
      if b ∈ w.sys.ports ∧ (w.port b).aggId = aggId then
        { w.port b with
          actor.key := UInt16.ofNat (trunkSspGetPortOperKey w (w.port b).portIndex)
          selected := true
          standby := selectedStandby w aggId b
          masterPort := (electedMaster w aggId).getD b }
      else w.port b := by
  rw [updateAggPortsSelect_eq, forPorts_port, updatePortInfo_port, updatePortInfo_sys]
  by_cases hmem : b ∈ w.sys.ports ∧ (w.port b).aggId = aggId
  · rw [if_pos hmem, if_pos hmem, if_pos hmem.1, if_neg (by simpa using hmem.2)]
  · rw [if_neg hmem, if_neg hmem]
    by_cases hb : b ∈ w.sys.ports
    · rw [if_pos hb, if_pos fun hagg => hmem ⟨hb, hagg⟩]
    · rw [if_neg hb]

/-- A member that is not in standby works, and all four `AGG` bits were set. -/
theorem of_selectedStandby_eq_false (h : selectedStandby w aggId a = false) :
    (w.port a).portEnabled = true ∧ (w.port a).lacpEnabled = true ∧
      (w.port a).actor.state.AGG = true ∧ (w.port a).partner.state.AGG = true := by
  cases hbest : electedMaster w aggId with
  | none => simp [selectedStandby, hbest] at h
  | some best =>
    obtain ⟨key, hkey⟩ := updatePortInfo_keyed w aggId a
    simp only [selectedStandby, hbest, hkey, joinsBest, Bool.not_eq_false', Bool.and_eq_true,
      beq_iff_eq] at h
    obtain ⟨⟨⟨⟨⟨⟨⟨⟨⟨⟨hen, hlac⟩, _⟩, _⟩, _⟩, _⟩, hagg⟩, hpagg⟩, _⟩, _⟩, _⟩ := h
    exact ⟨hen, hlac, hagg, hpagg⟩

/-- A member that is not in standby has the key and the partner of the master. -/
theorem sameAggregate_of_selectedStandby_eq_false (h : selectedStandby w aggId a = false) :
    ∃ best, electedMaster w aggId = some best ∧
      ((updatePortInfo w aggId).port a).actor.key = ((updatePortInfo w aggId).port best).actor.key ∧
      (w.port a).partner.systemPriority = (w.port best).partner.systemPriority ∧
      (w.port a).partner.systemMac = (w.port best).partner.systemMac ∧
      (w.port a).partner.key = (w.port best).partner.key := by
  cases hbest : electedMaster w aggId with
  | none => simp [selectedStandby, hbest] at h
  | some best =>
    obtain ⟨key, hkey⟩ := updatePortInfo_keyed w aggId a
    obtain ⟨key', hkey'⟩ := updatePortInfo_keyed w aggId best
    simp only [selectedStandby, hbest, hkey, hkey', joinsBest, Bool.not_eq_false',
      Bool.and_eq_true, beq_iff_eq] at h
    obtain ⟨⟨⟨⟨⟨⟨⟨⟨⟨⟨_, _⟩, hk⟩, hprio⟩, hmac⟩, hpkey⟩, _⟩, _⟩, _⟩, _⟩, _⟩ := h
    refine ⟨best, rfl, ?_, hprio, hmac, hpkey⟩
    rw [hkey, hkey']
    exact hk

end Selection

end Lacp
