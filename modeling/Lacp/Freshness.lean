import Mathlib.Data.List.Perm.Subperm
import Lacp.Masters
import Lacp.Defaults

/-!
# Selections are never stale

Whatever changes an input of a selection deselects a member of the group, so that the group is
selected anew before the call returns. `GroupSettled` follows one group through a call, and
`reachableBy_selectionNeverStale` is the result.

The code misses three writes to an input. `trunk_port_lacp_enable` on a listed port reselects the group
it joins and not the one it leaves (`not_reachable_selectionNeverStale`). `record_pdu` and
`record_default` change `DEF` without a reselection when the partner sends the default values.
`_lacp_port_update_info` changes `actor.system_priority`, which decides whether two looped ports see
each other. `Call.KeepsSelections` excludes the three.
-/

namespace Lacp

/-- Running `update_agg_ports_select` again on a group that has a LACP-enabled member would change
nothing. -/
def SelectionNeverStale (w : World) : Prop :=
  ∀ aggId, aggId ≠ 0 →
    (∃ a ∈ w.sys.ports, (w.port a).aggId = aggId ∧ (w.port a).lacpEnabled = true) →
    SelectionFresh w aggId

/-! ## The condition on the calls -/

/-- The port at `q` has the port at `p`, another member of its group, as its recorded partner, but for
the priorities. -/
def Loops (w : World) (p q : Addr) : Prop :=
  p ≠ q ∧ (w.port p).aggId = (w.port q).aggId ∧
    (w.port p).actor.systemMac = (w.port q).partner.systemMac ∧
    (w.port p).actor.key = (w.port q).partner.key ∧
    (w.port p).actor.portNo = (w.port q).partner.portNo

instance (w : World) (p q : Addr) : Decidable (Loops w p q) := inferInstanceAs (Decidable (_ ∧ _))

/-- Writing the system priority to every port changes nothing, or no link group is looped. -/
def KeepsPriorities (w : World) (priority : UInt16) : Prop :=
  (∀ a ∈ w.sys.ports, (w.port a).actor.systemPriority = priority) ∨
    ∀ p ∈ w.sys.ports, ∀ q ∈ w.sys.ports, ¬ Loops w p q

instance (w : World) (priority : UInt16) : Decidable (KeepsPriorities w priority) :=
  inferInstanceAs (Decidable (_ ∨ _))

/-- The call moves no port out of a group that keeps another member, receives no frame with the values
of the default partner, and writes no system priority to a looped group. -/
def Call.KeepsSelections (w : World) : Call → Prop
  | .portLacpEnable slot port aggId _ => ∀ a ∈ w.sys.ports,
    (w.port a).portIndex = globalIndex slot port → (w.port a).aggId = aggId ∨
      ∀ b ∈ w.sys.ports, b ≠ a → (w.port b).aggId ≠ (w.port a).aggId
  | .rxLacpdu slot port pdu => ∀ a ∈ w.sys.ports, (w.port a).portIndex = globalIndex slot port →
    samePartner (w.port a).partnerAdmin (lacpCopyInfoFromNet pdu.actor) = false
  | .sysSetPrio prio => KeepsPriorities w prio.toUInt16
  | .sysSetLongPeriod _ | .sysSetShortPeriod _ | .sysSetPeriod _ => KeepsPriorities w w.sys.priority
  | _ => True

instance (w : World) : (c : Call) → Decidable (c.KeepsSelections w)
  | .portLacpEnable _ _ _ _ | .rxLacpdu _ _ _ =>
    inferInstanceAs (Decidable (∀ a ∈ w.sys.ports, _ → _))
  | .sysSetPrio _ | .sysSetLongPeriod _ | .sysSetShortPeriod _ | .sysSetPeriod _ =>
    inferInstanceAs (Decidable (KeepsPriorities w _))
  | .portLacpDisable _ _ | .aggDelete _ | .portSetPrio _ _ _ | .portSetSpeed _ _ _
  | .portSetDuplex _ _ _ | .portLinkChange _ _ _ | .portClearStat _ _ | .setPortLinkStatus _ _
  | .oneSecond => isTrue trivial

theorem Call.KeepsSelections.priorities {w : World} {c : Call} (h : c.KeepsSelections w)
    {cfg : LacpSysCfg} (hc : c.sysCfg = some cfg) :
    KeepsPriorities w (setSysScalar w.sys cfg).priority := by
  cases c with
  | sysSetPrio | sysSetLongPeriod | sysSetShortPeriod | sysSetPeriod =>
    obtain rfl := Option.some.inj hc
    exact h
  | _ => cases hc

/-! ## What a selection reads and writes -/

/-- The inputs and the results of a selection that one port holds. -/
structure SelectionView where
  portIndex : ℕ
  aggId : ℕ
  portEnabled : Bool
  lacpEnabled : Bool
  speed : UInt32
  duplex : UInt32
  systemPriority : UInt16
  systemMac : LacpMac
  portPriority : UInt16
  portNo : UInt16
  AGG : Bool
  DEF : Bool
  partnerSystemPriority : UInt16
  partnerSystemMac : LacpMac
  partnerKey : UInt16
  partnerPortNo : UInt16
  partnerAGG : Bool
  selected : Bool
  standby : Bool
  masterPort : Addr
  key : UInt16

def LacpPort.selectionView (p : LacpPort) : SelectionView where
  portIndex := p.portIndex
  aggId := p.aggId
  portEnabled := p.portEnabled
  lacpEnabled := p.lacpEnabled
  speed := p.speed
  duplex := p.duplex
  systemPriority := p.actor.systemPriority
  systemMac := p.actor.systemMac
  portPriority := p.actor.portPriority
  portNo := p.actor.portNo
  AGG := p.actor.state.AGG
  DEF := p.actor.state.DEF
  partnerSystemPriority := p.partner.systemPriority
  partnerSystemMac := p.partner.systemMac
  partnerKey := p.partner.key
  partnerPortNo := p.partner.portNo
  partnerAGG := p.partner.state.AGG
  selected := p.selected
  standby := p.standby
  masterPort := p.masterPort
  key := p.actor.key

section Views

variable {w w' : World} {g : ℕ}

/-- A group whose members kept their views is as fresh as before. -/
theorem SelectionFresh.of_views (hmembers : groupMembers w' g = groupMembers w g)
    (hviews : ∀ b ∈ groupMembers w g, (w'.port b).selectionView = (w.port b).selectionView)
    (hkeys : ∀ b ∈ groupMembers w g, trunkSspGetPortOperKey w' (w.port b).portIndex
      = trunkSspGetPortOperKey w (w.port b).portIndex)
    (h : SelectionFresh w g) : SelectionFresh w' g := by
  refine SelectionFresh.congr ⟨hmembers, fun b hb => ?_⟩ (fun b hb => ?_) h
  · have hview := hviews b hb
    have hkey := hkeys b hb
    simp only [LacpPort.selectionView, SelectionView.mk.injEq] at hview
    obtain ⟨hindex, _, hen, hlac, hspeed, hduplex, hsp, hsm, hpp, hno, hA, hdef, hqs, hqm, hqk, hqn,
      hqA, _⟩ := hview
    rw [selectionInputs_eq_iff, hindex, hkey]
    exact ⟨hen, hlac, hspeed, hduplex, hsp, hsm, hpp, hno, hA, hdef, hqs, hqm, hqk, hqn, hqA, rfl⟩
  · have hview := hviews b hb
    exact ⟨congrArg SelectionView.selected hview, congrArg SelectionView.standby hview,
      congrArg SelectionView.masterPort hview, congrArg SelectionView.key hview⟩

/-- The group is fresh, or it will be selected anew: a member is deselected, or has yet to leave. -/
def GroupSettled (E : Set ℕ) (w : World) (g : ℕ) : Prop :=
  (∃ e ∈ groupMembers w g, (w.port e).portIndex ∈ E) ∨
    (∃ r ∈ groupMembers w g, (w.port r).selected = false) ∨ SelectionFresh w g

theorem GroupSettled.of_views {E E' : Set ℕ} (hmembers : groupMembers w' g = groupMembers w g)
    (hviews : ∀ b ∈ groupMembers w g, (w'.port b).selectionView = (w.port b).selectionView)
    (hkeys : ∀ b ∈ groupMembers w g, trunkSspGetPortOperKey w' (w.port b).portIndex
      = trunkSspGetPortOperKey w (w.port b).portIndex)
    (hE : ∀ b ∈ groupMembers w g, (w.port b).portIndex ∈ E → (w.port b).portIndex ∈ E')
    (h : GroupSettled E w g) : GroupSettled E' w' g := by
  rcases h with ⟨e, he, heE⟩ | ⟨r, hr, hsel⟩ | hfresh
  · refine .inl ⟨e, hmembers ▸ he, ?_⟩
    rw [show (w'.port e).portIndex = (w.port e).portIndex from
      congrArg SelectionView.portIndex (hviews e he)]
    exact hE e he heE
  · refine .inr (.inl ⟨r, hmembers ▸ hr, ?_⟩)
    rw [show (w'.port r).selected = (w.port r).selected from
      congrArg SelectionView.selected (hviews r hr)]
    exact hsel
  · exact .inr (.inr (hfresh.of_views hmembers hviews hkeys))

theorem groupMembers_congr (hports : w'.sys.ports = w.sys.ports)
    (hagg : ∀ b ∈ w.sys.ports, (w'.port b).aggId = g ↔ (w.port b).aggId = g) :
    groupMembers w' g = groupMembers w g := by
  simp only [groupMembers, hports]
  refine List.filter_congr fun b hb => ?_
  simp only [hagg b hb]

end Views

/-! ## Hops -/

section Hops

variable {E : Set ℕ} {w w' : World} {a : Addr} {g : ℕ}

/-- A receive hop that leaves the port selected changes nothing a selection reads. -/
theorem rxEntered_selectionView {p : LacpPort} (sys : LacpSys) {s : RxState}
    (h : DefaultMarked p) (hcurrent : s = .current → p.rcvdLacpdu = true)
    (hsel : (rxEntered sys { p with rx := ⟨false, s⟩ }).selected = true) :
    (rxEntered sys { p with rx := ⟨false, s⟩ }).selectionView = p.selectionView := by
  cases s with
  | expired => rfl
  | defaulted =>
    obtain ⟨hsel, hsame⟩ := Bool.and_eq_true_iff.mp hsel
    have hsel : p.selected = true := hsel
    have hsame : samePartner p.partnerAdmin p.partner = true := hsame
    obtain ⟨_, hno, hprio, hmac, hkey, hagg⟩ := samePartner_iff.mp hsame
    have hdef : p.actor.state.DEF = true := h.DEF.trans hsame
    simp [LacpPort.selectionView, rxEntered, hsel, hsame, hno, hprio, hmac, hkey, hagg, hdef]
  | current =>
    obtain ⟨hsel, hsame⟩ := Bool.and_eq_true_iff.mp hsel
    have hsel : p.selected = true := hsel
    have hsame : samePartner p.msgActor p.partner = true := hsame
    obtain ⟨hpp, hno, hprio, hmac, hkey, hagg⟩ := samePartner_iff.mp hsame
    -- the partner sends what is recorded, which is not the default partner
    have hother : samePartner p.partnerAdmin p.partner = false := by
      have hmsg := h.rcvd (hcurrent rfl)
      rwa [samePartner, hpp, hno, hprio, hmac, hkey, hagg] at hmsg
    have hdef : p.actor.state.DEF = false := h.DEF.trans hother
    simp [LacpPort.selectionView, rxEntered, hsel, hsame, hno, hprio, hmac, hkey, hagg, hdef]
  | _ => cases hsel

theorem muxEntered_selectionView (sys : LacpSys) (p : LacpPort) (s : MuxState) :
    (muxEntered sys { p with mux := ⟨false, s⟩ }).selectionView = p.selectionView := by
  cases s <;> rfl

theorem txEntered_selectionView (sys : LacpSys) (p : LacpPort) (s : TxState) :
    (txEntered sys { p with tx := ⟨false, s⟩ }).selectionView = p.selectionView := by
  cases s <;> rfl

theorem EngineHop.groupMembers (hop : EngineHop w w') (g : ℕ) :
    Lacp.groupMembers w' g = Lacp.groupMembers w g :=
  groupMembers_congr hop.ports_eq fun b _ => by
    rw [show (w'.port b).aggId = (w.port b).aggId from
      hop.aggId_eq b]

/-- A selection hop leaves its group fresh. -/
theorem selectionFresh_selHop (hlac : (w.port a).lacpEnabled = true) (hg : (w.port a).aggId = g)
    (hne : g ≠ 0) : SelectionFresh (selHop w a) g := by
  have hport : ∀ b ∈ groupMembers w g, (selHop w a).port b =
      { (updateAggPortsSelect w g).port b with
        sel := if b = a then ⟨false, .selection⟩ else (w.port b).sel } := by
    intro b hb
    obtain ⟨hin, hbg⟩ := mem_groupMembers.mp hb
    subst hg
    exact selHop_port_member hlac hne hin hbg
  have hmembers : groupMembers (updateAggPortsSelect w g) g = groupMembers w g :=
    (SameInputs.updateAggPortsSelect g).members
  refine (selectionFresh_updateAggPortsSelect (w := w)).of_views ?_ (fun b hb => ?_) fun b hb => ?_
  · rw [hmembers]
    refine groupMembers_congr rfl fun b _ => ?_
    simp only [selHop]
    repeat' split
    all_goals rfl
  · rw [hport b (hmembers ▸ hb)]
    rfl
  · exact trunkSspGetPortOperKey_congr rfl rfl rfl

/-- A hop that changes no view of the group. -/
theorem GroupSettled.hop_of_views (h : GroupSettled E w g) (hop : EngineHop w w')
    (hviews : ∀ b ∈ groupMembers w g, (w'.port b).selectionView = (w.port b).selectionView) :
    GroupSettled E w' g :=
  h.of_views (hop.groupMembers g) hviews (fun _ _ => hop.operKey _) fun _ _ hE => hE

/-- A hop of the receive machine deselects the port, or the selection does not see the hop. -/
theorem GroupSettled.rxHop {s : RxState} (hdefault : DefaultMarked (w.port a))
    (h : GroupSettled E w g) (ha : a ∈ w.sys.ports)
    (guard : lacpRxCheckConditions w a = some s) : GroupSettled E (rxHop w a s) g := by
  have hop : EngineHop w (Lacp.rxHop w a s) := .rx ha guard
  by_cases hag : (w.port a).aggId = g
  · have hself : (Lacp.rxHop w a s).port a = rxEntered w.sys { w.port a with rx := ⟨false, s⟩ } :=
      if_pos rfl
    cases hsel : ((Lacp.rxHop w a s).port a).selected with
    | false =>
      exact .inr (.inl ⟨a, hop.groupMembers g ▸ mem_groupMembers.mpr ⟨ha, hag⟩, hsel⟩)
    | true =>
      rw [hself] at hsel
      have hview := rxEntered_selectionView w.sys hdefault
        (fun hs => by
          subst hs
          exact (rxGuard_of_check guard).rcvd) hsel
      -- the port stayed selected, so its partner is the one it had
      have hkeep : rxDeselects { w.port a with rx := ⟨false, s⟩ } = false := by
        cases s with
        | current =>
          obtain ⟨_, hsame⟩ := Bool.and_eq_true_iff.mp hsel
          have hsame : samePartner (w.port a).msgActor (w.port a).partner = true := hsame
          simp [rxDeselects, hsame]
        | _ => rfl
      refine h.hop_of_views hop fun b hb => ?_
      by_cases hba : b = a
      · subst hba
        rw [hself, hview]
      · simp only [Lacp.rxHop, if_neg hba, hkeep]
        rw [if_neg (by simp)]
  · refine h.hop_of_views hop fun b hb => ?_
    obtain ⟨_, hbg⟩ := mem_groupMembers.mp hb
    have hba : b ≠ a := fun hba => hag (hba ▸ hbg)
    simp only [Lacp.rxHop, if_neg hba]
    rw [if_neg fun hin => hag (hin.2.2.symm.trans hbg)]

/-- A hop of the selection machine leaves its own group fresh and the others as they are. -/
theorem GroupSettled.selHop (hc : Coherent E w) (hne : g ≠ 0) (h : GroupSettled E w g)
    (ha : a ∈ w.sys.ports) (guard : lacpSelCheckConditions w a = some .selection) :
    GroupSettled E (selHop w a) g := by
  by_cases hlac : (w.port a).lacpEnabled = true
  · by_cases hag : (w.port a).aggId = g
    · exact .inr (.inr (selectionFresh_selHop hlac hag hne))
    · refine h.hop_of_views (.sel ha guard) fun b hb => ?_
      obtain ⟨_, hbg⟩ := mem_groupMembers.mp hb
      have hba : b ≠ a := fun hba => hag (hba ▸ hbg)
      rw [selHop_port_of_ne hba fun hin => hag (hin.symm.trans hbg)]
  · -- a disabled port is in no group, and the hop writes to that port only
    have hoff : (w.port a).aggId = 0 := by
      by_contra hzero
      exact hlac ((hc.port a ha).member.mpr hzero)
    refine h.hop_of_views (.sel ha guard) fun b hb => ?_
    obtain ⟨_, hbg⟩ := mem_groupMembers.mp hb
    have hba : b ≠ a := fun hba => hne (by rw [← hbg, hba, hoff])
    rw [selHop_port_of_disabled (by simpa using hlac) hba]

/-- Every hop keeps every group settled. -/
theorem GroupSettled.hop (hc : Coherent E w) (hdefaults : ∀ b ∈ w.sys.ports, DefaultMarked (w.port b))
    (hne : g ≠ 0) (h : GroupSettled E w g) (hop : EngineHop w w') : GroupSettled E w' g := by
  cases hop with
  | @rx a s ha guard => exact h.rxHop (hdefaults a ha) ha guard
  | @sel a ha guard => exact h.selHop hc hne ha guard
  | @mux a s ha guard =>
    refine h.hop_of_views (.mux ha guard) fun b _ => ?_
    simp only [muxHop]
    split
    · rename_i hba
      rw [hba, muxEntered_selectionView]
    · rfl
  | @tx a s ha guard =>
    refine h.hop_of_views (.tx ha guard) fun b _ => ?_
    simp only [txHop]
    split
    · rename_i hba
      rw [hba]
      exact txEntered_selectionView _ _ _
    · rfl

end Hops

/-! ## Writes -/

section Writes

variable {E E' : Set ℕ} {w w' : World} {a : Addr} {g : ℕ}

/-- A group without members is fresh. -/
theorem SelectionFresh.of_empty (h : ∀ b ∈ w.sys.ports, (w.port b).aggId ≠ g) :
    SelectionFresh w g := by
  rw [selectionFresh_iff]
  intro b hb
  obtain ⟨hin, hbg⟩ := mem_groupMembers.mp hb
  exact absurd hbg (h b hin)

/-- A write that changes no view of the group. -/
theorem GroupSettled.update {s : LacpSys} {t : Set ℕ} {f : Addr → LacpPort → LacpPort}
    (h : GroupSettled E w g) (hw : Update w w' s t f)
    (hviews : ∀ b ∈ groupMembers w g, (f b (w.port b)).selectionView = (w.port b).selectionView)
    (hothers : ∀ b ∈ w.sys.ports, (w.port b).aggId ≠ g → (f b (w.port b)).aggId ≠ g)
    (htouched : ∀ b ∈ groupMembers w g, (w.port b).portIndex ∉ t)
    (hE : ∀ b ∈ groupMembers w g, (w.port b).portIndex ∈ E → (w.port b).portIndex ∈ E') :
    GroupSettled E' w' g := by
  refine h.of_views (groupMembers_congr hw.ports fun b hb => ?_) (fun b hb => ?_)
    (fun b hb => hw.operKey (htouched b hb)) hE
  · rw [hw.port b hb]
    refine ⟨fun hbg => ?_, fun hbg => ?_⟩
    · by_contra hne
      exact hothers b hb hne hbg
    · exact (congrArg SelectionView.aggId (hviews b (mem_groupMembers.mpr ⟨hb, hbg⟩))).trans hbg
  · rw [hw.port b (mem_groupMembers.mp hb).1]
    exact hviews b hb

/-- A write that the selection of no group sees. -/
theorem GroupSettled.unseen {s : LacpSys} {t : Set ℕ} {f : Addr → LacpPort → LacpPort}
    (h : GroupSettled E w g) (hw : Update w w' s t f)
    (hviews : ∀ b ∈ w.sys.ports, (f b (w.port b)).selectionView = (w.port b).selectionView)
    (htouched : ∀ b ∈ w.sys.ports, (w.port b).portIndex ∉ t) : GroupSettled E w' g := by
  refine h.update hw (fun b hb => hviews b (mem_groupMembers.mp hb).1) (fun b hb hne => ?_)
    (fun b hb => htouched b (mem_groupMembers.mp hb).1) fun _ _ hE => hE
  rw [show (f b (w.port b)).aggId = (w.port b).aggId from
    congrArg SelectionView.aggId (hviews b hb)]
  exact hne

/-- A port is reconfigured that neither was nor comes into the group. -/
theorem GroupSettled.reconfigured_of_ne {s : LacpSys} {t : Set ℕ} {k : ℕ}
    {u : LacpPort → LacpPort} (hc : Coherent E w) (h : GroupSettled E w g)
    (hw : Update w w' s t (reconfigured a k u)) (ha : a ∈ w.sys.ports) (hag : (w.port a).aggId ≠ g)
    (hug : (u (w.port a)).aggId ≠ g) (hkg : k ≠ g) (ht : t ⊆ {(w.port a).portIndex})
    (hE : ∀ b ∈ w.sys.ports, b ≠ a → (w.port b).portIndex ∈ E → (w.port b).portIndex ∈ E') :
    GroupSettled E' w' g := by
  have hne : ∀ b ∈ groupMembers w g, b ≠ a := fun b hb hba =>
    hag (hba ▸ (mem_groupMembers.mp hb).2)
  refine h.update hw (fun b hb => ?_) (fun b hb hbg => ?_) (fun b hb hbt => ?_)
    fun b hb => hE b (mem_groupMembers.mp hb).1 (hne b hb)
  · have hbk : (w.port b).aggId ≠ k := (mem_groupMembers.mp hb).2 ▸ Ne.symm hkg
    simp only [reconfigured, if_neg (hne b hb), if_neg hbk]
  · simp only [reconfigured]
    split
    · rename_i hba
      rw [hba]
      exact hug
    · split <;> exact hbg
  · exact hne b hb (hc.index_inj (mem_groupMembers.mp hb).1 ha (ht hbt))

/-- A port is reconfigured and deselected that is in the group afterwards. -/
theorem GroupSettled.of_reconfigured {s : LacpSys} {t : Set ℕ} {k : ℕ} {u : LacpPort → LacpPort}
    (hw : Update w w' s t (reconfigured a k u)) (ha : a ∈ w.sys.ports)
    (hug : (u (w.port a)).aggId = g) : GroupSettled E' w' g := by
  have hport : w'.port a = { u (w.port a) with selected := false } := by
    rw [hw.port a ha, reconfigured, if_pos rfl]
  refine .inr (.inl ⟨a, mem_groupMembers.mpr ⟨hw.ports ▸ ha, ?_⟩, ?_⟩)
  · rw [hport]
    exact hug
  · rw [hport]

/-- The settings of a port change, and its group is deselected. -/
theorem GroupSettled.reconfigure {s : LacpSys} {t : Set ℕ} {u : LacpPort → LacpPort}
    (hc : Coherent E w) (h : GroupSettled E w g)
    (hw : Update w w' s t (reconfigured a (w.port a).aggId u)) (ha : a ∈ w.sys.ports)
    (hu : (u (w.port a)).aggId = (w.port a).aggId) (ht : t ⊆ {(w.port a).portIndex}) :
    GroupSettled E w' g := by
  by_cases hag : (w.port a).aggId = g
  · exact .of_reconfigured hw ha (hu.trans hag)
  · exact h.reconfigured_of_ne hc hw ha hag (hu ▸ hag) hag ht fun _ _ _ hE => hE

/-- A port leaves: the members that stay are deselected. -/
theorem GroupSettled.leave {s : LacpSys} (hc : Coherent E w) (h : GroupSettled E w g) (hne : g ≠ 0)
    (hw : Update w w' s ∅ (reconfigured a (w.port a).aggId leavePort)) (ha : a ∈ w.sys.ports) :
    GroupSettled E w' g := by
  by_cases hag : (w.port a).aggId = g
  · by_cases hstay : ∃ b ∈ w.sys.ports, b ≠ a ∧ (w.port b).aggId = g
    · obtain ⟨b, hb, hba, hbg⟩ := hstay
      have hport : w'.port b = { w.port b with selected := false } := by
        rw [hw.port b hb, reconfigured, if_neg hba, if_pos (hbg.trans hag.symm)]
      refine .inr (.inl ⟨b, mem_groupMembers.mpr ⟨hw.ports ▸ hb, ?_⟩, ?_⟩)
      · rw [hport]
        exact hbg
      · rw [hport]
    · refine .inr (.inr (.of_empty fun b hb hbg => ?_))
      rw [hw.ports] at hb
      rw [hw.port b hb] at hbg
      by_cases hba : b = a
      · rw [reconfigured, if_pos hba] at hbg
        exact hne hbg.symm
      · refine hstay ⟨b, hb, hba, ?_⟩
        simp only [reconfigured, if_neg hba] at hbg
        split at hbg <;> exact hbg
  · exact h.reconfigured_of_ne hc hw ha hag (Ne.symm hne) hag (Set.empty_subset _)
      fun _ _ _ hE => hE

/-- A port joins a group. Another group that it leaves keeps no member. -/
theorem GroupSettled.join {s : LacpSys} {i aggId : ℕ} {portPriority : UInt16} (hc : Coherent E w)
    (h : GroupSettled E w g) (hne : g ≠ 0)
    (hw : Update w w' s {i} (reconfigured a aggId (enablePort aggId portPriority)))
    (ha : a ∈ w.sys.ports) (hindex : (w.port a).portIndex = i) (hE : E ⊆ {i})
    (hkeeps : (w.port a).lacpEnabled = true → (w.port a).aggId = aggId ∨
      ∀ b ∈ w.sys.ports, b ≠ a → (w.port b).aggId ≠ (w.port a).aggId) : GroupSettled ∅ w' g := by
  by_cases hjoin : aggId = g
  · exact .of_reconfigured hw ha hjoin
  · by_cases hag : (w.port a).aggId = g
    · have hlac := (hc.port a ha).member.mpr (hag ▸ hne)
      have halone := (hkeeps hlac).resolve_left fun heq => hjoin (heq ▸ hag)
      refine .inr (.inr (.of_empty fun b hb hbg => ?_))
      rw [hw.ports] at hb
      rw [hw.port b hb] at hbg
      by_cases hba : b = a
      · rw [reconfigured, if_pos hba] at hbg
        exact hjoin hbg
      · refine halone b hb hba ?_
        simp only [reconfigured, if_neg hba] at hbg
        split at hbg <;> exact hbg.trans hag.symm
    · exact h.reconfigured_of_ne hc hw ha hag hjoin hjoin (hindex ▸ subset_rfl)
        fun b hb hba hbE => hba (hc.index_inj hb ha ((hE hbE).trans hindex.symm))

/-- A created port is in no group. -/
theorem GroupSettled.create {i : ℕ} {sysMac : LacpMac} (hc : Coherent ∅ w)
    (h : GroupSettled ∅ w g) (hne : g ≠ 0) (hw : lacpPortCreate w sysMac i = some w') :
    GroupSettled {i} w' g := by
  obtain ⟨_, rfl⟩ := lacpPortCreate_eq_some hw
  have hmembers : groupMembers (withCreated w sysMac i) g = groupMembers w g := by
    have hnew : ((withCreated w sysMac i).port w.brk).aggId ≠ g := by
      rw [withCreated_port_self]
      exact Ne.symm hne
    show (w.brk :: w.sys.ports).filter _ = _
    rw [List.filter_cons_of_neg (by simpa using hnew)]
    exact List.filter_congr fun b hb => by rw [hc.withCreated_port hb]
  refine h.of_views hmembers (fun b hb => ?_) (fun b _ => ?_)
    fun _ _ hE => absurd hE (Set.notMem_empty _)
  · rw [hc.withCreated_port (mem_groupMembers.mp hb).1]
  · exact trunkSspGetPortOperKey_congr rfl rfl rfl

/-- Taking members off the list that are not in the group. -/
theorem groupMembers_of_sublist (hnodup : w.sys.ports.Nodup) (hport : w'.port = w.port)
    (hports : w'.sys.ports.Sublist w.sys.ports)
    (hstay : ∀ b ∈ w.sys.ports, (w.port b).aggId = g → b ∈ w'.sys.ports) :
    groupMembers w' g = groupMembers w g := by
  have hsub : (groupMembers w' g).Sublist (groupMembers w g) := by
    simp only [groupMembers, hport]
    exact hports.filter _
  have hback : groupMembers w g ⊆ groupMembers w' g := fun b hb => by
    obtain ⟨hin, hbg⟩ := mem_groupMembers.mp hb
    refine mem_groupMembers.mpr ⟨hstay b hin hbg, ?_⟩
    rw [hport]
    exact hbg
  exact hsub.eq_of_length_le (List.subperm_of_subset (hnodup.filter _) hback).length_le

/-- Where no group is looped, no port is passed over for the port it has as its partner. -/
theorem partnersAport_eq_false {v : World} (hports : v.sys.ports = w.sys.ports)
    (hsame : ∀ b ∈ w.sys.ports, (v.port b).aggId = (w.port b).aggId ∧
      (v.port b).actor.systemMac = (w.port b).actor.systemMac ∧
      (v.port b).actor.key = (w.port b).actor.key ∧
      (v.port b).actor.portNo = (w.port b).actor.portNo ∧ (v.port b).partner = (w.port b).partner)
    (hloops : ∀ p ∈ w.sys.ports, ∀ q ∈ w.sys.ports, ¬ Loops w p q) (ha : a ∈ w.sys.ports) :
    partnersAport v a = false := by
  by_contra hloop
  simp only [partnersAport, Bool.not_eq_false, List.any_eq_true, Bool.and_eq_true,
    beq_iff_eq] at hloop
  obtain ⟨p, hp, ⟨⟨⟨⟨⟨hagg, _⟩, hmac⟩, hkey⟩, hno⟩, hrank⟩⟩ := hloop
  rw [hports] at hp
  obtain ⟨hpagg, hpmac, hpkey, hpno, _⟩ := hsame p hp
  obtain ⟨hqagg, _, _, _, hqpartner⟩ := hsame a ha
  rw [hqpartner] at hmac hkey hno
  refine hloops p hp a ha ⟨fun hpa => ?_, ?_, hpmac ▸ hmac, hpkey ▸ hkey, hpno ▸ hno⟩
  · -- a port does not rank before itself
    subst hpa
    simp at hrank
  · rw [← hpagg, ← hqagg, hagg]

section UpdateInfo

variable {s : LacpSys} {b : Addr}

theorem groupMembers_updateInfo (hw : Update w w' s ∅ fun _ p => updateInfoPort s p) :
    groupMembers w' g = groupMembers w g :=
  groupMembers_congr hw.ports fun b hb => by
    rw [hw.port b hb]
    rfl

/-- The election does not read the system priority. -/
theorem electedMaster_updateInfo (hw : Update w w' s ∅ fun _ p => updateInfoPort s p) :
    electedMaster w' g = electedMaster w g := by
  rw [electedMaster_eq_members, electedMaster_eq_members, groupMembers_updateInfo hw]
  refine foldl_electBest_congr (fun b hb => ?_) (fun b hb b' hb' => ?_) (List.Subset.refl _) (by simp)
  · rw [hw.port b (mem_groupMembers.mp hb).1]
    rfl
  · rw [hw.port b (mem_groupMembers.mp hb).1, hw.port b' (mem_groupMembers.mp hb').1]
    rfl

theorem updatePortInfo_updateInfo (hw : Update w w' s ∅ fun _ p => updateInfoPort s p)
    (hb : b ∈ w.sys.ports) :
    (updatePortInfo w' g).port b = updateInfoPort s ((updatePortInfo w g).port b) := by
  rw [updatePortInfo_port, updatePortInfo_port, hw.ports, hw.port b hb]
  by_cases hbg : (w.port b).aggId = g
  · rw [if_pos ⟨hb, hbg⟩, if_pos ⟨hb, hbg⟩, hw.operKey (Set.notMem_empty _)]
    rfl
  · rw [if_neg fun hmem => hbg hmem.2, if_neg fun hmem => hbg hmem.2]

/-- Where no link group is looped, the system priority does not decide who stands by. -/
theorem selectedStandby_updateInfo (hw : Update w w' s ∅ fun _ p => updateInfoPort s p)
    (hloops : ∀ p ∈ w.sys.ports, ∀ q ∈ w.sys.ports, ¬ Loops w p q) (h : SelectionFresh w g)
    (hb : b ∈ w.sys.ports) : selectedStandby w' g b = selectedStandby w g b := by
  -- the keys are up to date already
  have hfresh : ∀ b ∈ w.sys.ports, (updatePortInfo w g).port b = w.port b := by
    intro b hb
    rw [updatePortInfo_port]
    split
    · rename_i hmem
      rw [← (selectionFresh_iff.mp h b (mem_groupMembers.mpr hmem)).2.2.2]
    · rfl
  simp only [selectedStandby, electedMaster_updateInfo hw]
  cases hbest : electedMaster w g with
  | none => rfl
  | some best =>
    have hbestIn : best ∈ w.sys.ports := (electedMaster_eq_some hbest).1
    have hjoins : joinsBest ((updatePortInfo w' g).port b) ((updatePortInfo w' g).port best)
        = joinsBest ((updatePortInfo w g).port b) ((updatePortInfo w g).port best) := by
      rw [updatePortInfo_updateInfo hw hb, updatePortInfo_updateInfo hw hbestIn]
      rfl
    have hloop : partnersAport (updatePortInfo w g) b = false := by
      refine partnersAport_eq_false (w := w) rfl (fun p hp => ?_) hloops hb
      rw [hfresh p hp]
      exact ⟨rfl, rfl, rfl, rfl, rfl⟩
    have hloop' : partnersAport (updatePortInfo w' g) b = false := by
      refine partnersAport_eq_false hw.ports (fun p hp => ?_) hloops hb
      rw [updatePortInfo_updateInfo hw hp, hfresh p hp]
      exact ⟨rfl, rfl, rfl, rfl, rfl⟩
    simp only [hjoins, hloop, hloop']

/-- The system priority of the ports changes, and no link group is looped. -/
theorem SelectionFresh.updateInfo (hw : Update w w' s ∅ fun _ p => updateInfoPort s p)
    (hloops : ∀ p ∈ w.sys.ports, ∀ q ∈ w.sys.ports, ¬ Loops w p q) (h : SelectionFresh w g) :
    SelectionFresh w' g := by
  rw [selectionFresh_iff, groupMembers_updateInfo hw]
  intro b hb
  have hin := (mem_groupMembers.mp hb).1
  obtain ⟨hsel, hsb, hbest, hold⟩ := selectionFresh_iff.mp h b hb
  rw [selectedStandby_updateInfo hw hloops h hin, electedMaster_updateInfo hw,
    hw.operKey (Set.notMem_empty _), hw.port b hin]
  exact ⟨hsel, hsb, hbest, hold⟩

end UpdateInfo

/-- The settings of the bridge change. -/
theorem GroupSettled.updateInfo {s : LacpSys} (h : GroupSettled ∅ w g)
    (hw : Update w w' s ∅ fun _ p => updateInfoPort s p)
    (hkeeps : KeepsPriorities w s.priority) : GroupSettled ∅ w' g := by
  rcases hkeeps with hkept | hloops
  · refine h.unseen hw (fun b hb => ?_) fun _ _ => Set.notMem_empty _
    simp only [LacpPort.selectionView, updateInfoPort, hkept b hb]
  · rcases h with ⟨_, _, hE⟩ | ⟨r, hr, hsel⟩ | hfresh
    · exact absurd hE (Set.notMem_empty _)
    · obtain ⟨hin, hrg⟩ := mem_groupMembers.mp hr
      refine .inr (.inl ⟨r, mem_groupMembers.mpr ⟨hw.ports ▸ hin, ?_⟩, ?_⟩)
      · rw [hw.port r hin]
        exact hrg
      · rw [hw.port r hin]
        exact hsel
    · exact .inr (.inr (.updateInfo hw hloops hfresh))

/-- The database forgets some ports: their groups are about to lose a member. -/
theorem GroupSettled.unlink {s : LacpSys} (h : GroupSettled ∅ w g)
    (hw : Update w w' s E' fun _ p => p) : GroupSettled E' w' g := by
  by_cases hleaving : ∃ e ∈ groupMembers w g, (w.port e).portIndex ∈ E'
  · obtain ⟨e, he, heE⟩ := hleaving
    obtain ⟨hin, heg⟩ := mem_groupMembers.mp he
    refine .inl ⟨e, mem_groupMembers.mpr ⟨hw.ports ▸ hin, ?_⟩, ?_⟩
    · rw [hw.port e hin]
      exact heg
    · rw [hw.port e hin]
      exact heE
  · exact h.update hw (fun _ _ => rfl) (fun _ _ hbg => hbg)
      (fun b hb hbE => hleaving ⟨b, hb, hbE⟩) fun _ _ hE => absurd hE (Set.notMem_empty _)

/-- A member that is about to leave tells its partner. -/
theorem GroupSettled.notify {s : LacpSys} (h : GroupSettled E w g)
    (hw : Update w w' s ∅ (onlyAt a notifyPort)) (ha : a ∈ w.sys.ports)
    (hE : (w.port a).portIndex ∈ E) : GroupSettled E w' g := by
  by_cases hag : (w.port a).aggId = g
  · have hport : w'.port a = notifyPort (w.port a) := by rw [hw.port a ha, onlyAt, if_pos rfl]
    refine .inl ⟨a, mem_groupMembers.mpr ⟨hw.ports ▸ ha, ?_⟩, ?_⟩
    · rw [hport]
      exact hag
    · rw [hport]
      exact hE
  · refine h.update hw (fun b hb => ?_) (fun b _ hbg => ?_) (fun _ _ => Set.notMem_empty _)
      fun _ _ hE => hE
    · have hba : b ≠ a := fun hba => hag (hba ▸ (mem_groupMembers.mp hb).2)
      rw [onlyAt, if_neg hba]
    · simp only [onlyAt]
      split <;> exact hbg

/-- The ports that left are taken off the list: they are in no group any more. -/
theorem GroupSettled.remove (hc : Coherent E w) (hne : g ≠ 0) (h : GroupSettled E w g)
    (hleft : ∀ a ∈ w.sys.ports, (w.port a).portIndex ∈ E → (w.port a).lacpEnabled = false)
    (hports : w'.sys.ports.Sublist w.sys.ports)
    (hmem : ∀ a ∈ w.sys.ports, a ∈ w'.sys.ports ↔ (w.port a).portIndex ∉ E)
    (hw : w' = { w with sys := w'.sys }) : GroupSettled ∅ w' g := by
  have hport : w'.port = w.port := by rw [hw]
  have hout : ∀ b ∈ groupMembers w g, (w.port b).portIndex ∉ E := fun b hb hbE => by
    obtain ⟨hin, hbg⟩ := mem_groupMembers.mp hb
    have hlac := (hc.port b hin).member.mpr (hbg ▸ hne)
    exact absurd hlac (by simp [hleft b hin hbE])
  refine h.of_views (groupMembers_of_sublist hc.nodup.of_map hport hports fun b hb hbg => ?_)
    (fun b _ => by rw [hport]) (fun b _ => ?_) fun b hb hbE => absurd hbE (hout b hb)
  · exact (hmem b hb).mpr (hout b (mem_groupMembers.mpr ⟨hb, hbg⟩))
  · rw [hw]
    exact trunkSspGetPortOperKey_congr rfl rfl rfl

end Writes

/-! ## Every reachable state -/

theorem receivesOthers_keepsSelections : ReceivesOthers fun w c => c.KeepsSelections w :=
  fun _ _ _ _ hok => hok

/-- Every effect keeps every group settled, if the calls write an input of a selection only where they
reselect. -/
theorem GroupSettled.effect {c : Call} {E E' : Set ℕ} {w w' : World} {g : ℕ} (hc : Coherent E w)
    (hdefaults : ∀ b ∈ w.sys.ports, DefaultMarked (w.port b)) (hne : g ≠ 0) (h : GroupSettled E w g)
    (heffect : Effect (fun w c => c.KeepsSelections w) c (E, w) (E', w')) :
    GroupSettled E' w' g := by
  cases heffect with
  | hop hop => exact h.hop hc hdefaults hne hop
  | rest hw => exact h.unseen hw (fun _ _ => rfl) fun b hb hmem => hmem b hb rfl
  | @store _ _ i prio linkStatus hc =>
    refine GroupSettled.of_views (w := w) rfl (fun _ _ => rfl) (fun b _ => ?_) (fun _ _ hE => hE) h
    refine trunkSspGetPortOperKey_congr rfl ?_ ?_
    · rw [stubSetPortAttr_gPortList]
      split <;> simp_all
    · rw [stubSetPortAttr_gPortList]
      split <;> simp_all
  | create _ _ hw => exact h.create hc hne hw
  | @join _ _ _ a slot port aggId sysMac _ hcall _ ha hindex hE _ hok hw =>
    subst hcall
    exact h.join hc hne hw ha hindex hE fun hlac => hok hlac a ha hindex
  | reselect _ ha _ hw => exact h.reconfigure hc hw ha rfl subset_rfl
  | prio _ ha _ hw => exact h.reconfigure hc hw ha rfl (Set.empty_subset _)
  | @link _ _ a linkStatus _ ha _ _ hw =>
    refine h.reconfigure hc hw ha ?_ (Set.empty_subset _)
    simp only [linkChangedPort]
    split <;> rfl
  | stat _ _ hw =>
    refine h.unseen hw (fun b _ => ?_) fun _ _ => Set.notMem_empty _
    simp only [onlyAt]
    split <;> rfl
  | receive _ _ _ _ _ _ _ _ hw =>
    refine h.unseen hw (fun b _ => ?_) fun _ _ => Set.notMem_empty _
    simp only [received]
    repeat' split
    all_goals rfl
  | tick _ _ hw => exact h.unseen hw (fun _ _ => rfl) fun _ _ => Set.notMem_empty _
  | setSys hcall hok hw => exact h.updateInfo hw (hok.priorities hcall)
  | unlink _ _ _ _ hw => exact h.unlink hw
  | notify _ ha hE hw => exact h.notify hw ha hE
  | leave _ ha _ _ _ hw => exact h.leave hc hne hw ha
  | remove _ _ hleft hports hmem _ hw => exact h.remove hc hne hleft hports hmem hw

/-- In every state of a run that keeps the selections, no selection is stale. -/
theorem reachableBy_selectionNeverStale (w : World)
    (h : ReachableBy (fun w c => c.KeepsSelections w) w) : SelectionNeverStale w := by
  have hboth : (∀ g, g ≠ 0 → GroupSettled ∅ w g) ∧ ∀ b ∈ w.sys.ports, DefaultMarked (w.port b) :=
    h.invariant_of_effects
      (P := fun E w => (∀ g, g ≠ 0 → GroupSettled E w g) ∧
        ∀ b ∈ w.sys.ports, DefaultMarked (w.port b))
      (fun _ => ⟨fun _ _ => .inr (.inr (.of_empty fun _ ha => nomatch ha)), fun _ ha => nomatch ha⟩)
      fun hc hP heffect =>
        ⟨fun g hne => (hP.1 g hne).effect hc hP.2 hne heffect,
          .effect receivesOthers_keepsSelections hc hP.2 heffect⟩
  intro g hne _
  rcases hboth.1 g hne with ⟨_, _, hE⟩ | ⟨r, hr, hsel⟩ | hfresh
  · exact absurd hE (Set.notMem_empty _)
  · exact absurd (h.port (mem_groupMembers.mp hr).1).2.selected (by simp [hsel])
  · exact hfresh

theorem aggregationRun_selectionNeverStale :
    ∃ w, ReachableBy (fun w c => c.KeepsSelections w) w ∧ bothForward w = true ∧
      SelectionNeverStale w := by
  have hrun : (runCalls (fun w c => decide (c.KeepsSelections w)) 25 (initWorld 77)
      aggregationRun).any bothForward = true := by decide +kernel
  obtain ⟨w, h, _, hboth⟩ := exists_reachableBy_of_runCalls (by decide)
    (fun _ _ htest => of_decide_eq_true htest) hrun
  exact ⟨w, h, hboth, reachableBy_selectionNeverStale w h⟩

/-- Port 1 of slot 0, the master of link group 1, is enabled in link group 2. -/
def moveMasterRun : List Call :=
  [.portLacpEnable 0 1 1 .zero, .portLacpEnable 0 2 1 .zero,
    .setPortLinkStatus 0 1, .setPortLinkStatus 1 1, .portLinkChange 0 1 1, .portLinkChange 0 2 1,
    .portLacpEnable 0 1 2 .zero]

/-- Port 2 stays behind in link group 1 and follows a master of link group 2. -/
theorem not_reachable_selectionNeverStale : ¬ ∀ w, Reachable w → SelectionNeverStale w := by
  intro hall
  have hrun : (runCalls (fun _ _ => true) 25 (initWorld 77) moveMasterRun).any (fun w =>
      decide (1 ∈ w.sys.ports) && decide ((w.port 1).aggId = 1) && (w.port 1).lacpEnabled
        && decide (((updateAggPortsSelect w 1).port 1).masterPort ≠ (w.port 1).masterPort))
      = true := by decide +kernel
  obtain ⟨w, h, _, hstate⟩ := exists_reachableBy_of_runCalls (R := fun _ _ => True) (by decide)
    (fun _ _ _ => trivial) hrun
  simp only [Bool.and_eq_true, decide_eq_true_iff] at hstate
  obtain ⟨⟨⟨ha, hagg⟩, hlac⟩, hmaster⟩ := hstate
  exact hmaster (hall w h 1 (by decide) ⟨1, ha, hagg, hlac⟩ 1 ha).2.2.1

end Lacp
