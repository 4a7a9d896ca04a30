import Lacp.PortWrites
import Lacp.Reachability

/-!
# Operational keys

Reference: `trunk_ssp_get_port_oper_key` and `update_port_info`.

A key is the link group of the port in the upper byte and its speed class in the lower one. It is read
from the database and from `g_port_list` when the group is selected. Whatever changes one of the two
deselects the port, so a selected port has its current key (`KeysFollow`); and the database knows the
group of every port that runs LACP (`GroupsKnown`). No port is left deselected between two calls, so
there every port advertises its current key (`reachable_keysAdvertised`).
-/

namespace Lacp

/-- A selected port has the key that the database and `g_port_list` give it. -/
def KeyCurrent (w : World) (p : LacpPort) : Prop :=
  p.lacpEnabled = true → p.selected = true →
    p.actor.key = UInt16.ofNat (trunkSspGetPortOperKey w p.portIndex)

/-- The selected ports outside `E` have their current keys. -/
def KeysFollow (E : Set ℕ) (w : World) : Prop :=
  ∀ a ∈ w.sys.ports, (w.port a).portIndex ∉ E → KeyCurrent w (w.port a)

/-- The link group of an index, as the database has it. -/
def groupOf (w : World) (i : ℕ) : ℕ := stubDbAggGetPortTid w (i / 8) (i % 8 + 1)

theorem groupOf_congr {w w' : World} (h : w'.gLinkGroups = w.gLinkGroups) (i : ℕ) :
    groupOf w' i = groupOf w i := stubDbAggGetPortTid_congr fun _ => by rw [h]

/-- The database knows the link group of every port that runs LACP, but for the ports in `E`. -/
def GroupsKnown (E : Set ℕ) (w : World) : Prop :=
  ∀ a ∈ w.sys.ports, (w.port a).portIndex ∉ E → (w.port a).lacpEnabled = true →
    groupOf w (w.port a).portIndex ≠ 0

/-- The speed class is the lower byte of the key. -/
theorem trunkSspGetPortOperKey_mod {w : World} {i : ℕ} (h : groupOf w i ≠ 0) :
    trunkSspGetPortOperKey w i % 256 =
      trunkSspGetSpeedIndex (w.gPortList i).speed (w.gPortList i).duplex := by
  have hlt : trunkSspGetSpeedIndex (w.gPortList i).speed (w.gPortList i).duplex < 2 ^ 8 := by
    simp only [trunkSspGetSpeedIndex]
    repeat' split
    all_goals decide
  have hkey : trunkSspGetPortOperKey w i = groupOf w i <<< 8 |||
      trunkSspGetSpeedIndex (w.gPortList i).speed (w.gPortList i).duplex := if_neg h
  rw [hkey, ← Nat.shiftLeft_add_eq_or_of_lt hlt, Nat.shiftLeft_eq]
  omega

section Effect

variable {R : World → Call → Prop} {c : Call} {E E' : Set ℕ} {w w' : World} {b : Addr} {q : LacpPort}

/-- A key depends on the record of the port and on its current value. -/
theorem KeyCurrent.congr {p : LacpPort} (h : KeyCurrent w p) (hindex : q.portIndex = p.portIndex)
    (hlac : q.lacpEnabled = true → p.lacpEnabled = true)
    (hsel : q.selected = true → p.selected = true) (hkey : q.actor.key = p.actor.key)
    (hoper : trunkSspGetPortOperKey w' p.portIndex = trunkSspGetPortOperKey w p.portIndex) :
    KeyCurrent w' q := by
  intro hlac' hsel'
  rw [hkey, hindex, hoper]
  exact h (hlac hlac') (hsel hsel')

theorem KeyCurrent.hop (h : KeyCurrent w (w.port b)) (hop : PortHop w b q) : KeyCurrent w q := by
  cases hop with
  | same => exact h
  | @rx s =>
    cases s with
    | begin | init | portDisabled | lacpDisabled => exact fun _ hsel => by cases hsel
    | expired => exact h.congr rfl id id rfl rfl
    | defaulted | current =>
      exact h.congr rfl id (fun hsel => (Bool.and_eq_true_iff.mp hsel).1) rfl rfl
  | deselect => exact fun _ hsel => by cases hsel
  | selDisabled _ _ hlac => exact fun hlac' => absurd (hlac.symm.trans hlac') (by simp)
  | selAlone => exact h.congr rfl id id rfl rfl
  | select => exact fun _ _ => rfl
  | @mux s => cases s <;> exact h.congr rfl id id rfl rfl
  | @tx s => cases s <;> exact h.congr rfl id id rfl rfl

theorem KeyCurrent.write (h : KeyCurrent w (w.port b)) (hwrite : PortWrite R c E w b q) :
    KeyCurrent w q := by
  cases hwrite with
  | deselect | prio | leave => exact fun _ hsel => by cases hsel
  | link => exact fun _ hsel => by cases hsel
  | same | stat | receive | moved | tick | notify => exact h.congr rfl id id rfl rfl

/-- Every effect deselects the ports whose keys change. -/
theorem KeysFollow.effect (hc : Coherent E w) (h : KeysFollow E w)
    (heffect : Effect R c (E, w) (E', w')) : KeysFollow E' w' := by
  intro b hb hbE
  cases heffect.cases hc with
  | hop hop hE =>
    have hb' : b ∈ w.sys.ports := hop.engineHop.sys_eq ▸ hb
    have hindex := hop.engineHop.portIndex_eq b
    rw [hindex, hE] at hbE
    exact ((h b hb' hbE).hop (hop.engineHop.portHop b)).congr rfl id id rfl (hop.engineHop.operKey _)
  | setSys _ _ hE _ hw =>
    have hb' : b ∈ w.sys.ports := hw.ports ▸ hb
    subst hE
    rw [hw.port b hb']
    exact (h b hb' (Set.notMem_empty _)).congr rfl id id rfl (hw.operKey (Set.notMem_empty _))
  | write _ _ _ hports =>
    cases hports b hb with
    | write hb' hwrite hentry =>
      have hindex := hwrite.portIndex_eq
      obtain ⟨hbE', hsame⟩ := hentry (hindex ▸ hbE)
      refine ((h b hb' hbE').write hwrite).congr rfl id id rfl ?_
      rw [hindex]
      exact hsame.operKey
    | join _ _ _ _ _ _ _ _ hport | reselect _ _ _ _ _ _ _ hport =>
      rw [hport]
      exact fun _ hsel => by cases hsel
    | create _ _ _ _ _ _ hport =>
      rw [hport]
      exact fun hlac => by cases hlac

/-- The database finds a port in a link group after the port was added to one. -/
theorem stubDbAggGetPortTid_addMember {slot port aggId : ℕ} (hport : 1 ≤ port ∧ port ≤ 8)
    (haggId : 1 ≤ aggId ∧ aggId ≤ 32) :
    stubDbAggGetPortTid (stubDbAggAddMember w aggId slot port) slot port ≠ 0 := by
  simp only [stubDbAggGetPortTid]
  cases hfind : (List.range 32).find? fun g => trunkGetPbmp slot port
      ((stubDbAggAddMember w aggId slot port).gLinkGroups g).ports with
  | none =>
    have hbit := List.find?_eq_none.mp hfind (aggId - 1) (List.mem_range.mpr (by omega))
    exact absurd (by simp [stubDbAggAddMember, trunkGetPbmp, trunkSetPbmp,
      show port - 1 < 8 by omega]) hbit
  | some g => exact Nat.succ_ne_zero g

theorem GroupsKnown.effect (hc : Coherent E w) (h : GroupsKnown E w) (hrange : c.InRange)
    (heffect : Effect R c (E, w) (E', w')) : GroupsKnown E' w' := by
  intro b hb hbE hlac
  cases heffect.cases hc with
  | hop hop hE =>
    have hindex := hop.engineHop.portIndex_eq b
    have hlac' := hop.engineHop.lacpEnabled_eq b
    rw [hindex] at hbE ⊢
    rw [groupOf_congr hop.engineHop.gLinkGroups_eq]
    exact h b (hop.engineHop.sys_eq ▸ hb) (hE ▸ hbE) (hlac'.symm.trans hlac)
  | setSys _ _ hE _ hw =>
    have hb' : b ∈ w.sys.ports := hw.ports ▸ hb
    subst hE
    rw [hw.port b hb'] at hlac ⊢
    rw [groupOf, hw.member (Set.notMem_empty _)]
    exact h b hb' (Set.notMem_empty _) hlac
  | write _ _ _ hports =>
    cases hports b hb with
    | write hb' hwrite hentry =>
      have hindex := hwrite.portIndex_eq
      obtain ⟨hbE', hsame⟩ := hentry (hindex ▸ hbE)
      rw [hindex, groupOf, hsame.tid]
      exact h b hb' hbE' (hwrite.group_eq hlac).1
    | @join slot port aggId sysMac _ hb' hcall _ hindex _ _ hgroups _ hport =>
      subst hcall
      have hport' : 1 ≤ port ∧ port ≤ 8 := ⟨hrange.2.1, hrange.2.2.1⟩
      have hindex' : (w'.port b).portIndex = globalIndex slot port := by
        rw [hport]
        exact hindex
      rw [hindex', groupOf_congr hgroups, groupOf, globalIndex_div hport', globalIndex_mod hport']
      exact stubDbAggGetPortTid_addMember hport' hrange.2.2.2
    | reselect hb' _ hlac' hE _ hgroups _ hport =>
      rw [hport, groupOf_congr hgroups]
      exact h b hb' (by rw [hE]; exact Set.notMem_empty _) hlac'
    | create _ _ _ _ _ _ hport =>
      rw [hport] at hlac
      cases hlac

end Effect

/-! ## Between two calls -/

theorem ReachableBy.keysFollow {R : World → Call → Prop} {w : World} (h : ReachableBy R w) :
    KeysFollow ∅ w :=
  h.invariant_of_effects (fun _ _ ha => absurd ha List.not_mem_nil)
    fun hc hP heffect => hP.effect hc heffect

/-- The database knows the group of every port of a run. -/
theorem ReachableBy.groupsKnown {R : World → Call → Prop} {w : World} (h : ReachableBy R w) :
    GroupsKnown ∅ w :=
  h.invariant_of_calls (Q := GroupsKnown ∅) (P := fun _ _ => GroupsKnown)
    (fun _ _ ha => absurd ha List.not_mem_nil) (fun _ _ hQ _ _ => hQ)
    (fun _ hrange hc hP heffect => hP.effect hc hrange heffect) fun _ _ _ _ hP => hP

/-- A port that is there is a member of a group. -/
theorem GroupsKnown.lacpIsEnable {w : World} (h : GroupsKnown ∅ w) (hc : Coherent ∅ w) {slot port : ℕ}
    (hport : 1 ≤ port ∧ port ≤ 8) {b : Addr} (hb : b ∈ w.sys.ports)
    (hindex : (w.port b).portIndex = globalIndex slot port) :
    stubDbPortLacpIsEnable w slot port = true := by
  have hgroup := h b hb (Set.notMem_empty _) ((hc.port b hb).enabled (Set.notMem_empty _))
  rw [groupOf, hindex, globalIndex_div hport, globalIndex_mod hport] at hgroup
  exact bne_iff_ne.mpr hgroup

/-- Every port that runs LACP advertises the key that the database and `g_port_list` give it. -/
def KeysAdvertised (w : World) : Prop :=
  ∀ a ∈ w.sys.ports, (w.port a).lacpEnabled = true →
    (w.port a).actor.key = UInt16.ofNat (trunkSspGetPortOperKey w (w.port a).portIndex)

/-- A port between two calls is selected, so its key is current. -/
theorem ReachableBy.actor_key {R : World → Call → Prop} {w : World} (h : ReachableBy R w) {a : Addr}
    (ha : a ∈ w.sys.ports) (hlac : (w.port a).lacpEnabled = true) :
    (w.port a).actor.key = UInt16.ofNat (trunkSspGetPortOperKey w (w.port a).portIndex) :=
  h.keysFollow a ha (Set.notMem_empty _) hlac (h.port ha).2.selected

/-- In every reachable state every port advertises its current key. -/
theorem reachable_keysAdvertised (w : World) (h : Reachable w) : KeysAdvertised w :=
  fun _ ha hlac => h.actor_key ha hlac

/-- A member of group 1 gets a new speed and moves on to group 2; its key keeps the lower group. -/
theorem movedRun_keysAdvertised :
    ∃ w, Reachable w ∧ 0 ∈ w.sys.ports ∧ (w.port 0).aggId = 2 ∧ (w.port 0).actor.key = 258 ∧
      KeysAdvertised w := by
  have hrun : (runCalls (fun _ _ => true) 40 (initWorld 77) [.setPortLinkStatus 0 1,
      .portLacpEnable 0 1 1 .zero, .portSetSpeed 0 1 100, .portLacpEnable 0 1 2 .zero]).any
        (fun w => decide (0 ∈ w.sys.ports) && (w.port 0).aggId == 2 && (w.port 0).actor.key == 258)
      = true := by
    decide +kernel
  obtain ⟨w, h, _, hw⟩ := exists_reachableBy_of_runCalls (R := fun _ _ => True) (by decide)
    (fun _ _ _ => trivial) hrun
  simp only [Bool.and_eq_true, beq_iff_eq, decide_eq_true_iff] at hw
  exact ⟨w, h, hw.1.1, hw.1.2, hw.2, reachable_keysAdvertised w h⟩

end Lacp
