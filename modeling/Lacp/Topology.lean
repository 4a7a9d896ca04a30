import Mathlib.Order.BooleanAlgebra.Set
import Mathlib.Tactic.Set
import Mathlib.Tactic.Tauto
import Lacp.Library.Pairing
import Lacp.Manager

/-!
# The topology of the manager

Reference: `register_bridge`, `unregister_bridge`, `link_bridges`, `unlink_port` and `disconnect_port`.

The two ends of a wire are entries of two tables, and every operation writes at one or both of them.
The wires are a pairing of the ports of the registered bridges, and each operation is one of the rules of
`Pairing` (`Wired`). The range checks of `link_bridges` and `unlink_port` let the index
`number_of_ports` pass, one behind the table, and `unlink_port` does not initialise the pointer that it
looks for; as long as no command makes use of either, the wires stay a pairing and no entry outside a
table is touched (`mngrRun_topology`).
-/

namespace Lacp

open Pairing

namespace Mngr

/-- The ports of the registered bridges. -/
def portSet (m : Mngr) : Set PortPtr :=
  {x | x.1 ∈ m.brLst ∧ 0 ≤ x.2 ∧ x.2 < (m.bridge x.1).numberOfPorts}

theorem mem_portSet {m : Mngr} {x : PortPtr} : x ∈ m.portSet ↔
    x.1 ∈ m.brLst ∧ 0 ≤ x.2 ∧ x.2 < (m.bridge x.1).numberOfPorts := Iff.rfl

/-- The port at the other end of the wire. -/
def partner (m : Mngr) (x : PortPtr) : Option PortPtr :=
  (m.entry x).bridgePartner.map fun b => (b, (m.entry x).portPartner)

end Mngr

/-- Both ends of every wire agree, and no entry outside a table was touched. -/
structure Topology (m : Mngr) : Prop where
  symmetric : ∀ a ∈ m.brLst, ∀ i, 0 ≤ i → i < (m.bridge a).numberOfPorts →
    ∀ b j, (m.bridge a).ports i = { bridgePartner := some b, portPartner := j } →
      b ∈ m.brLst ∧ 0 ≤ j ∧ j < (m.bridge b).numberOfPorts ∧
        (m.bridge b).ports j = { bridgePartner := some a, portPartner := i }
  inTable : ∀ b i, .entry (b, i) ∈ m.trace → 0 ≤ i ∧ i < (m.bridge b).numberOfPorts

/-- A command that passes the range checks of `link_bridges` names two entries of the tables. -/
def Mngr.LinksInTable (m : Mngr) (pid1 : Int64) (indx1 : ℤ) (pid2 : Int64) (indx2 : ℤ) : Prop :=
  ∀ br1 ∈ m.lastBridge none pid1, ∀ br2 ∈ m.lastBridge none pid2, 0 ≤ indx1 → 0 ≤ indx2 →
    indx1 ≤ (m.bridge br1).numberOfPorts → indx2 ≤ (m.bridge br2).numberOfPorts →
      indx1 < (m.bridge br1).numberOfPorts ∧ indx2 < (m.bridge br2).numberOfPorts

/-- A command that passes the range check of `unlink_port` names an entry of the table of a registered
bridge. -/
def Mngr.UnlinksInTable (m : Mngr) (br1 : Option BridgeAddr) (pid1 : Int64) (indx1 : ℤ) : Prop :=
  ∀ br ∈ m.lastBridge br1 pid1, 0 ≤ indx1 → indx1 ≤ (m.bridge br).numberOfPorts →
    br ∈ m.brLst ∧ indx1 < (m.bridge br).numberOfPorts

/-- No command names the index behind a table, or a bridge that is not registered. -/
def MngrCall.InTable (m : Mngr) : MngrCall → Prop
  | .link (_ :: name1 :: port1 :: name2 :: port2 :: _) =>
    m.LinksInTable (scanBrName name1) (scanPort port1) (scanBrName name2) (scanPort port2)
  | .unlink (_ :: name :: port :: _) br1 =>
    m.UnlinksInTable br1 (scanBrName name) (scanPort port)
  | _ => True

/-! ## Wires -/

/-- The wires are a pairing of the ports, and the trace stays in the tables. -/
structure Wired (m : Mngr) : Prop where
  nodup : m.brLst.Nodup
  addr_lt : ∀ b ∈ m.brLst, b < m.brk
  pairing : PairingOn m.portSet m.partner
  inTable : ∀ x, .entry x ∈ m.trace → x.1 < m.brk ∧ 0 ≤ x.2 ∧ x.2 < (m.bridge x.1).numberOfPorts

/-- What is written in the tables of `m` is all that differs. -/
structure SameTables (m m' : Mngr) : Prop where
  brLst : m'.brLst = m.brLst
  brk : m'.brk = m.brk
  numberOfPorts : ∀ b, (m'.bridge b).numberOfPorts = (m.bridge b).numberOfPorts

/-- The bridges are the same, whatever their wires are. -/
structure SameBridges (m m' : Mngr) : Prop extends SameTables m m' where
  pid : ∀ b, (m'.bridge b).pid = (m.bridge b).pid

section Writes

variable {m m' : Mngr} {x : PortPtr} {e : PortT}

theorem SameTables.refl (m : Mngr) : SameTables m m := ⟨rfl, rfl, fun _ => rfl⟩

theorem SameTables.trans {m'' : Mngr} (h : SameTables m m') (h' : SameTables m' m'') :
    SameTables m m'' :=
  ⟨h'.brLst.trans h.brLst, h'.brk.trans h.brk,
    fun b => (h'.numberOfPorts b).trans (h.numberOfPorts b)⟩

theorem SameTables.portSet (h : SameTables m m') : m'.portSet = m.portSet := by
  simp only [Mngr.portSet, h.brLst, h.numberOfPorts]

theorem sameTables_log (m : Mngr) (ev : MngrEvent) : SameTables m (m.log ev) :=
  ⟨rfl, rfl, fun _ => rfl⟩

theorem sameTables_setEntry (m : Mngr) (x : PortPtr) (e : PortT) : SameTables m (m.setEntry x e) := by
  refine ⟨rfl, rfl, fun b => ?_⟩
  simp only [Mngr.setEntry]
  split <;> rfl

theorem SameBridges.refl (m : Mngr) : SameBridges m m := ⟨.refl m, fun _ => rfl⟩

theorem SameBridges.trans {m'' : Mngr} (h : SameBridges m m') (h' : SameBridges m' m'') : SameBridges m m'' :=
  ⟨h.toSameTables.trans h'.toSameTables, fun b => (h'.pid b).trans (h.pid b)⟩

theorem sameBridges_log (m : Mngr) (ev : MngrEvent) : SameBridges m (m.log ev) :=
  ⟨sameTables_log m ev, fun _ => rfl⟩

theorem sameBridges_setEntry (m : Mngr) (x : PortPtr) (e : PortT) : SameBridges m (m.setEntry x e) := by
  refine ⟨sameTables_setEntry m x e, fun b => ?_⟩
  simp only [Mngr.setEntry]
  split <;> rfl

theorem sameBridges_disconnectPort (m : Mngr) (x : PortPtr) (resetMyself : Bool) :
    SameBridges m (m.disconnectPort x resetMyself) := by
  simp only [Mngr.disconnectPort]
  split
  · exact sameBridges_log m _
  · exact ((sameBridges_log m _).trans (sameBridges_log _ _)).trans (sameBridges_setEntry ..)

theorem sameBridges_linkTwoPorts (m : Mngr) (br1 : BridgeAddr) (port1 : PortPtr) (indx1 : ℤ)
    (br2 : BridgeAddr) (port2 : PortPtr) (indx2 : ℤ) :
    SameBridges m (m.linkTwoPorts br1 port1 indx1 br2 port2 indx2) :=
  ((sameBridges_setEntry ..).trans (sameBridges_setEntry ..)).trans
    ((sameBridges_log _ _).trans (sameBridges_log _ _))

@[simp] theorem entry_log (m : Mngr) (ev : MngrEvent) (x : PortPtr) : (m.log ev).entry x = m.entry x :=
  rfl

@[simp] theorem entry_touch (m : Mngr) (x y : PortPtr) : (m.touch x).entry y = m.entry y := rfl

theorem mem_trace_touch {y : PortPtr} (h : .entry y ∈ (m.touch x).trace) :
    y = x ∨ .entry y ∈ m.trace := by
  rcases List.mem_cons.mp h with heq | hold
  · exact .inl (MngrEvent.entry.inj heq)
  · exact .inr hold

@[simp] theorem partner_log (m : Mngr) (ev : MngrEvent) : (m.log ev).partner = m.partner := rfl

theorem entry_setEntry (m : Mngr) (x : PortPtr) (e : PortT) (y : PortPtr) :
    (m.setEntry x e).entry y = if y = x then e else m.entry y := by
  obtain ⟨b, i⟩ := x
  obtain ⟨c, j⟩ := y
  simp only [Mngr.entry, Mngr.setEntry, Prod.mk.injEq]
  by_cases hb : c = b
  · by_cases hi : j = i <;> simp [hb, hi]
  · simp [hb]

/-- A write to an entry sets one end of a wire. -/
theorem partner_setEntry (m : Mngr) (x : PortPtr) (e : PortT) :
    (m.setEntry x e).partner =
      Function.update m.partner x (e.bridgePartner.map fun b => (b, e.portPartner)) := by
  funext y
  simp only [Mngr.partner, entry_setEntry]
  by_cases hy : y = x
  · subst hy
    simp
  · rw [Function.update_of_ne hy, if_neg hy]
    rfl

/-- `disconnect_port` touches the port and its partner, and resets one of the two. -/
structure Disconnects (m m' : Mngr) (x y : PortPtr) (reset : PortPtr) : Prop where
  tables : SameTables m m'
  partner : m'.partner = Function.update m.partner reset none
  entries : ∀ z, .entry z ∈ m'.trace → .entry z ∈ m.trace ∨ z = x ∨ z = y

theorem partner_eq_some_iff {y : PortPtr} : m.partner x = some y ↔
    (m.entry x).bridgePartner = some y.1 ∧ (m.entry x).portPartner = y.2 := by
  obtain ⟨b, j⟩ := y
  simp only [Mngr.partner, Option.map_eq_some_iff, Prod.mk.injEq]
  constructor
  · rintro ⟨c, hc, rfl, rfl⟩
    exact ⟨hc, rfl⟩
  · rintro ⟨hb, rfl⟩
    exact ⟨b, hb, rfl, rfl⟩

theorem partner_eq_none_iff : m.partner x = none ↔ (m.entry x).bridgePartner = none := by
  simp only [Mngr.partner, Option.map_eq_none_iff]

theorem disconnectPort_of_none (h : m.partner x = none) (resetMyself : Bool) :
    m.disconnectPort x resetMyself = m.touch x := by
  simp only [Mngr.disconnectPort, entry_touch, partner_eq_none_iff.mp h]

theorem disconnects_of_some {y : PortPtr} (h : m.partner x = some y) (resetMyself : Bool) :
    Disconnects m (m.disconnectPort x resetMyself) x y (if resetMyself then x else y) := by
  obtain ⟨hb, hj⟩ := partner_eq_some_iff.mp h
  set z := if resetMyself then x else y with hz
  have hrun : m.disconnectPort x resetMyself =
      ((m.touch x).log (.send y.1 .portDisconnect y.2)).setEntry z
        { m.entry z with bridgePartner := none } := by
    simp only [Mngr.disconnectPort, entry_touch, hb, hj, entry_log]
    rfl
  rw [hrun]
  refine ⟨(sameTables_log _ _).trans ((sameTables_log _ _).trans (sameTables_setEntry _ _ _)), ?_, ?_⟩
  · rw [partner_setEntry]
    rfl
  · intro t ht
    have hcases : t = z ∨ t = x ∨ .entry t ∈ m.trace := by
      simpa [Mngr.setEntry, Mngr.log, Mngr.touch] using ht
    rcases hcases with rfl | rfl | hold
    · rw [hz]
      split
      · exact .inr (.inl rfl)
      · exact .inr (.inr rfl)
    · exact .inr (.inl rfl)
    · exact .inl hold

/-- The other end of a wire that one end was disconnected from. The two can be one port. -/
theorem partner_disconnectPort_end {y : PortPtr} (hxy : m.partner x = some y)
    (hyx : m.partner y = some x) :
    (m.disconnectPort x true).partner y = some x ∧ y ≠ x ∨
      (m.disconnectPort x true).partner y = none ∧ y = x := by
  rw [(disconnects_of_some hxy true).partner, if_pos rfl]
  by_cases hself : y = x
  · subst hself
    exact .inr ⟨Function.update_self .., rfl⟩
  · rw [Function.update_of_ne hself]
    exact .inl ⟨hyx, hself⟩

/-- `disconnect_port` from one end of a wire, and then from the other. -/
theorem partner_disconnectPort_both {y : PortPtr} (hxy : m.partner x = some y)
    (hyx : m.partner y = some x) :
    ((m.disconnectPort x true).disconnectPort y true).partner =
      Function.update (Function.update m.partner x none) y none := by
  have hfirst : (m.disconnectPort x true).partner = Function.update m.partner x none :=
    (disconnects_of_some hxy true).partner
  rcases partner_disconnectPort_end hxy hyx with ⟨hend, -⟩ | ⟨hend, rfl⟩
  · rw [(disconnects_of_some hend true).partner, hfirst]
    rfl
  · rw [disconnectPort_of_none hend]
    exact hfirst.trans (Function.update_idem ..).symm

theorem entries_disconnectPort_both {y z : PortPtr} (hxy : m.partner x = some y)
    (hyx : m.partner y = some x)
    (hz : .entry z ∈ ((m.disconnectPort x true).disconnectPort y true).trace) :
    .entry z ∈ m.trace ∨ z = x ∨ z = y := by
  have hfirst := (disconnects_of_some hxy true).entries
  rcases partner_disconnectPort_end hxy hyx with ⟨hend, -⟩ | ⟨hend, -⟩
  · rcases (disconnects_of_some hend true).entries z hz with hold | rfl | rfl
    · exact hfirst z hold
    · exact .inr (.inr rfl)
    · exact .inr (.inl rfl)
  · rw [disconnectPort_of_none hend] at hz
    rcases mem_trace_touch hz with rfl | hold
    · exact .inr (.inr rfl)
    · exact hfirst z hold

end Writes

/-! ## The operations -/

namespace Wired

variable {m m' : Mngr} {x y : PortPtr}

/-- The trace stays in the tables where only entries of the tables were touched. -/
theorem inTable_of_entries (h : Wired m)
    (hentries : ∀ z, .entry z ∈ m'.trace → .entry z ∈ m.trace ∨ z ∈ m.portSet) (z : PortPtr)
    (hz : .entry z ∈ m'.trace) :
    z.1 < m.brk ∧ 0 ≤ z.2 ∧ z.2 < (m.bridge z.1).numberOfPorts := by
  rcases hentries z hz with hold | ⟨hlisted, hrange⟩
  · exact h.inTable z hold
  · exact ⟨h.addr_lt _ hlisted, hrange⟩

/-- The tables differ in the wires, and only entries of the tables were touched. -/
theorem of_tables (h : Wired m) (htables : SameTables m m') (hpairing : PairingOn m.portSet m'.partner)
    (hentries : ∀ z, .entry z ∈ m'.trace → .entry z ∈ m.trace ∨ z ∈ m.portSet) : Wired m' where
  nodup := htables.brLst ▸ h.nodup
  addr_lt := by
    rw [htables.brLst, htables.brk]
    exact h.addr_lt
  pairing := by
    rw [htables.portSet]
    exact hpairing
  inTable := fun z hz => by
    rw [htables.brk, htables.numberOfPorts]
    exact h.inTable_of_entries hentries z hz

theorem touch (h : Wired m) (hx : x ∈ m.portSet) : Wired (m.touch x) := by
  refine h.of_tables (sameTables_log m _) h.pairing fun z hz => ?_
  rcases mem_trace_touch hz with rfl | hold
  · exact .inr hx
  · exact .inl hold

/-- `disconnect_port` from one end, and then from the other. -/
theorem disconnect (h : Wired m) (hx : x ∈ m.portSet) (hxy : m.partner x = some y) :
    Wired ((m.disconnectPort x true).disconnectPort y true) := by
  obtain ⟨hy, hyx⟩ := h.pairing x hx y hxy
  refine h.of_tables ((sameBridges_disconnectPort ..).trans (sameBridges_disconnectPort ..)).toSameTables ?_
    fun z hz => ?_
  · rw [partner_disconnectPort_both hxy hyx]
    exact h.pairing.unlink hx hxy
  · rcases entries_disconnectPort_both hxy hyx hz with hold | rfl | rfl
    · exact .inl hold
    · exact .inr hx
    · exact .inr hy

/-- `_link_two_ports` on two ports without a wire. -/
theorem link (h : Wired m) (hx : x ∈ m.portSet) (hy : y ∈ m.portSet) (hpx : m.partner x = none)
    (hpy : m.partner y = none) : Wired (m.linkTwoPorts x.1 x x.2 y.1 y y.2) := by
  refine h.of_tables (sameBridges_linkTwoPorts ..).toSameTables ?_ fun z hz => ?_
  · simp only [Mngr.linkTwoPorts, partner_log, partner_setEntry]
    exact h.pairing.link hx hy hpx hpy
  · have hcases : z = y ∨ z = x ∨ .entry z ∈ m.trace := by
      simpa [Mngr.linkTwoPorts, Mngr.setEntry, Mngr.log] using hz
    rcases hcases with rfl | rfl | hold
    · exact .inr hy
    · exact .inr hx
    · exact .inl hold

/-- `register_bridge`: the ports of the new bridge have no wires. -/
theorem registerBridge (h : Wired m) (senderPid : Int64) (param1 : UInt64)
    (memory : Option (ℤ → PortT)) : Wired (m.registerBridge senderPid param1 memory) := by
  cases memory with
  | none => exact h
  | some around =>
    set m' := m.registerBridge senderPid param1 (some around) with hm'
    have hold : ∀ b, b ∈ m.brLst → m'.bridge b = m.bridge b := fun b hb => if_neg (h.addr_lt b hb).ne
    have hnew : m'.bridge m.brk =
        { pid := senderPid
          numberOfPorts := param1.toInt64.toInt
          ports := fun i => if 0 ≤ i ∧ i < param1.toNat then .zero else around i } := if_pos rfl
    have hlisted : ∀ b, b ∈ m'.brLst ↔ b = m.brk ∨ b ∈ m.brLst := fun b => List.mem_cons
    have hfree : m.brk ∉ m.brLst := fun hin => (h.addr_lt _ hin).false
    -- a count that is a negative `long` leaves no port
    have hcount : param1.toInt64.toInt ≤ param1.toNat := by
      show param1.toBitVec.toInt ≤ param1.toBitVec.toNat
      rw [BitVec.toInt_eq_toNat_cond]
      split <;> omega
    have hkept : PairingOn m.portSet m'.partner := h.pairing.congr fun x hx => by
      simp only [Mngr.partner, Mngr.entry, hold _ hx.1]
    have hnone : ∀ x ∈ m'.portSet \ m.portSet, m'.partner x = none := by
      rintro ⟨b, i⟩ ⟨⟨hin, hpos, hlt⟩, hout⟩
      have hb : b = m.brk := by
        refine ((hlisted b).mp hin).resolve_right fun hb => hout ?_
        rw [Mngr.mem_portSet, ← hold b hb]
        exact ⟨hb, hpos, hlt⟩
      subst hb
      have hi : 0 ≤ i ∧ i < param1.toNat := by
        rw [hnew] at hlt
        exact ⟨hpos, lt_of_lt_of_le hlt hcount⟩
      simp only [Mngr.partner, Mngr.entry, hnew, if_pos hi, PortT.zero, Option.map_none]
    have hports : m'.portSet = m.portSet ∪ (m'.portSet \ m.portSet) := by
      refine (Set.union_sdiff_cancel fun x hx => ?_).symm
      rw [Mngr.mem_portSet, hlisted, hold _ hx.1]
      exact ⟨.inr hx.1, hx.2⟩
    constructor
    · exact List.nodup_cons.mpr ⟨hfree, h.nodup⟩
    · intro b hb
      rcases (hlisted b).mp hb with rfl | hb
      · exact Nat.lt_succ_self _
      · exact Nat.lt_succ_of_lt (h.addr_lt b hb)
    · rw [hports]
      exact hkept.union hnone
    · intro x hx
      obtain ⟨hlt, hin⟩ := h.inTable x hx
      have hbridge : m'.bridge x.1 = m.bridge x.1 := if_neg hlt.ne
      rw [hbridge]
      exact ⟨Nat.lt_succ_of_lt hlt, hin⟩

end Wired

/-! ### `unregister_bridge` -/

/-- The first `k` ports of a bridge were disconnected, and count no more. -/
structure Unregistering (m : Mngr) (oldbr : BridgeAddr) (k : ℕ) (m' : Mngr) : Prop where
  tables : SameTables m m'
  pairing : PairingOn (m.portSet \ {x | x.1 = oldbr ∧ x.2 < k}) m'.partner
  entries : ∀ z, .entry z ∈ m'.trace → .entry z ∈ m.trace ∨ z ∈ m.portSet

section Unregister

variable {m m' u : Mngr} {oldbr : BridgeAddr} {k : ℕ}

theorem Unregistering.step (h : Unregistering m oldbr k u) (hlisted : oldbr ∈ m.brLst)
    (hk : (k : ℤ) < (m.bridge oldbr).numberOfPorts) :
    Unregistering m oldbr (k + 1) (Mngr.unregisterPort oldbr u k) := by
  set x : PortPtr := (oldbr, (k : ℤ)) with hx
  have hport : x ∈ m.portSet := ⟨hlisted, Int.natCast_nonneg k, hk⟩
  have hlive : x ∈ m.portSet \ {x | x.1 = oldbr ∧ x.2 < k} := ⟨hport, fun hin => hin.2.false⟩
  -- the port that is visited goes
  have hset : m.portSet \ {x | x.1 = oldbr ∧ x.2 < ((k + 1 : ℕ) : ℤ)} =
      (m.portSet \ {x | x.1 = oldbr ∧ x.2 < k}) \ {x} := by
    ext ⟨b, i⟩
    have hlt : i < ((k + 1 : ℕ) : ℤ) ↔ i < k ∨ i = k := by omega
    show (_ ∧ ¬ (b = oldbr ∧ i < ((k + 1 : ℕ) : ℤ))) ↔
      (_ ∧ ¬ (b = oldbr ∧ i < (k : ℤ))) ∧ ¬ (b, i) = (oldbr, (k : ℤ))
    rw [hlt, Prod.mk.injEq]
    tauto
  have htouch : ∀ z, .entry z ∈ (u.touch x).trace → .entry z ∈ m.trace ∨ z ∈ m.portSet := by
    intro z hz
    rcases mem_trace_touch hz with rfl | hold
    · exact .inr hport
    · exact h.entries z hold
  cases hpartner : u.partner x with
  | none =>
    have hrun : Mngr.unregisterPort oldbr u k = u.touch x := by
      simp only [Mngr.unregisterPort, entry_touch, ← hx, partner_eq_none_iff.mp hpartner,
        Option.isSome_none, Bool.false_eq_true, if_false]
    rw [hrun]
    refine ⟨h.tables.trans (sameTables_log u _), ?_, htouch⟩
    rw [hset]
    exact h.pairing.diff hlive hpartner
  | some y =>
    have hsome := (partner_eq_some_iff.mp hpartner).1
    have hrun : Mngr.unregisterPort oldbr u k = (u.touch x).disconnectPort x false := by
      simp only [Mngr.unregisterPort, entry_touch, ← hx, hsome, Option.isSome_some, if_true]
    have hdisconnects := disconnects_of_some (m := u.touch x) hpartner false
    obtain ⟨hy, -⟩ := h.pairing x hlive y hpartner
    rw [hrun]
    refine ⟨(h.tables.trans (sameTables_log u _)).trans hdisconnects.tables, ?_, fun z hz => ?_⟩
    · rw [hset, hdisconnects.partner]
      exact h.pairing.leave hlive hpartner
    · rcases hdisconnects.entries z hz with hold | rfl | rfl
      · exact htouch z hold
      · exact .inr hport
      · exact .inr hy.1

theorem Unregistering.foldl (h : Wired m) (hlisted : oldbr ∈ m.brLst)
    (hk : k ≤ (m.bridge oldbr).numberOfPorts.toNat) :
    Unregistering m oldbr k ((List.range k).foldl (Mngr.unregisterPort oldbr) m) := by
  induction k with
  | zero =>
    refine ⟨.refl m, ?_, fun _ hz => .inl hz⟩
    have hset : m.portSet \ {x | x.1 = oldbr ∧ x.2 < ((0 : ℕ) : ℤ)} = m.portSet := by
      refine sdiff_eq_left.mpr (Set.disjoint_left.mpr fun x hx hbefore => ?_)
      exact absurd hx.2.1 (not_le_of_gt hbefore.2)
    rw [hset]
    exact h.pairing
  | succ k ih =>
    rw [List.range_succ, List.foldl_append, List.foldl_cons, List.foldl_nil]
    exact (ih (by omega)).step hlisted (by omega)

/-- The bridge leaves once all of its ports are disconnected. -/
theorem Wired.unregisterBridge (h : Wired m) (senderPid : Int64)
    (hrun : m.unregisterBridge senderPid = some m') : Wired m' := by
  unfold Mngr.unregisterBridge at hrun
  cases hfind : m.brLst.find? fun br => (m.bridge br).pid == senderPid with
  | none =>
    obtain rfl : m = m' := by simpa [hfind] using hrun
    exact h
  | some oldbr =>
    have hlisted : oldbr ∈ m.brLst := List.mem_of_find?_eq_some hfind
    set n := (m.bridge oldbr).numberOfPorts with hn
    set u := (List.range n.toNat).foldl (Mngr.unregisterPort oldbr) m with hu
    obtain ⟨-, rfl⟩ : n ≤ 0x7fffffff ∧ { u with brLst := u.brLst.erase oldbr } = m' := by
      simpa [hfind, ← hn, ← hu] using hrun
    obtain ⟨htables, hpairing, hentries⟩ : Unregistering m oldbr n.toNat u :=
      .foldl h hlisted le_rfl
    -- the ports of the bridges that stay
    have hports : Mngr.portSet { u with brLst := u.brLst.erase oldbr } =
        m.portSet \ {x | x.1 = oldbr ∧ x.2 < (n.toNat : ℤ)} := by
      ext ⟨b, i⟩
      simp only [Mngr.mem_portSet, Set.mem_sdiff, Set.mem_ofPred_eq, htables.brLst,
        htables.numberOfPorts, h.nodup.mem_erase_iff]
      constructor
      · rintro ⟨⟨hb, hin⟩, hrange⟩
        exact ⟨⟨hin, hrange⟩, fun hgone => hb hgone.1⟩
      · rintro ⟨⟨hin, hrange⟩, hstays⟩
        refine ⟨⟨?_, hin⟩, hrange⟩
        rintro rfl
        exact hstays ⟨rfl, by omega⟩
    constructor
    · rw [htables.brLst]
      exact h.nodup.erase oldbr
    · intro b hb
      rw [htables.brLst] at hb
      rw [htables.brk]
      exact h.addr_lt b (List.mem_of_mem_erase hb)
    · rw [hports]
      exact hpairing
    · intro x hx
      rw [htables.brk, htables.numberOfPorts]
      exact h.inTable_of_entries hentries x hx

end Unregister

/-! ### `link_bridges` and `unlink_port` -/

section Commands

variable {m m' : Mngr}

/-- A bridge that the loop finds is in the list. -/
theorem lastBridge_mem {pid : Int64} {br : BridgeAddr} (h : m.lastBridge none pid = some br) :
    br ∈ m.brLst := by
  have hloop : ∀ (brs : List BridgeAddr) (init : Option BridgeAddr),
      brs.foldl (fun found br => if (m.bridge br).pid == pid then some br else found) init = some br →
        init = some br ∨ br ∈ brs := by
    intro brs
    induction brs with
    | nil => exact fun init hinit => .inl hinit
    | cons b brs ih =>
      intro init hfound
      rw [List.foldl_cons] at hfound
      rcases ih _ hfound with hhead | htail
      · split at hhead
        · exact .inr (Option.some.inj hhead ▸ List.mem_cons_self)
        · exact .inl hhead
      · exact .inr (List.mem_cons_of_mem b htail)
  exact (hloop m.brLst none h).resolve_left (by simp)

theorem Wired.linkPorts (h : Wired m) {pid1 pid2 : Int64} {indx1 indx2 : ℤ}
    (hin : m.LinksInTable pid1 indx1 pid2 indx2) : Wired (m.linkPorts pid1 indx1 pid2 indx2) := by
  unfold Mngr.linkPorts
  cases hbr1 : m.lastBridge none pid1 with
  | none => exact h
  | some br1 =>
  cases hbr2 : m.lastBridge none pid2 with
  | none => exact h
  | some br2 =>
    simp only [Bool.or_eq_true, decide_eq_true_eq]
    split
    · exact h
    split
    · exact h
    rename_i hrange1 hrange2
    obtain ⟨hlt1, hlt2⟩ := hin br1 hbr1 br2 hbr2 (by omega) (by omega) (by omega) (by omega)
    have hport1 : (br1, indx1) ∈ m.portSet := ⟨lastBridge_mem hbr1, by omega, hlt1⟩
    have hport2 : (br2, indx2) ∈ m.portSet := ⟨lastBridge_mem hbr2, by omega, hlt2⟩
    have htouched : Wired ((m.touch (br1, indx1)).touch (br2, indx2)) :=
      (h.touch hport1).touch hport2
    split
    · exact htouched
    rename_i hfree
    rw [not_or, Option.not_isSome_iff_eq_none, Option.not_isSome_iff_eq_none] at hfree
    exact htouched.link hport1 hport2 (partner_eq_none_iff.mpr hfree.1)
      (partner_eq_none_iff.mpr hfree.2)

theorem Wired.unlinkIndex (h : Wired m) {br1 : Option BridgeAddr} {pid1 : Int64} {indx1 : ℤ}
    (hin : m.UnlinksInTable br1 pid1 indx1) : Wired (m.unlinkIndex br1 pid1 indx1) := by
  unfold Mngr.unlinkIndex
  cases hbr : m.lastBridge br1 pid1 with
  | none => exact h
  | some br =>
    simp only [Bool.or_eq_true, decide_eq_true_eq]
    split
    · exact h
    rename_i hrange
    obtain ⟨hlisted, hlt⟩ := hin br hbr (by omega) (by omega)
    have hport : (br, indx1) ∈ m.portSet := ⟨hlisted, by omega, hlt⟩
    have htouched : Wired (m.touch (br, indx1)) := h.touch hport
    cases hpartner : ((m.touch (br, indx1)).entry (br, indx1)).bridgePartner with
    | none => exact htouched
    | some br2 => exact htouched.disconnect hport (partner_eq_some_iff.mpr ⟨hpartner, rfl⟩)

end Commands

/-! ## Runs -/

theorem Wired.init : Wired initMngr where
  nodup := List.nodup_nil
  addr_lt := fun _ hb => absurd hb List.not_mem_nil
  pairing := fun _ _ _ hnone => by simp [Mngr.partner, Mngr.entry, initMngr, PortT.zero] at hnone
  inTable := fun _ hx => absurd hx List.not_mem_nil

/-- Every call keeps the wires a pairing. -/
theorem Wired.step {m m' : Mngr} (h : Wired m) {c : MngrCall} (hin : c.InTable m)
    (hrun : runMngrCall m c = some m') : Wired m' := by
  cases c with
  | handshake senderPid param1 memory =>
    obtain rfl := Option.some.inj hrun
    exact h.registerBridge senderPid param1 memory
  | shutdown senderPid => exact h.unregisterBridge senderPid hrun
  | link argv =>
    obtain rfl := Option.some.inj hrun
    unfold Mngr.linkBridges
    split
    · exact h.linkPorts hin
    · exact h
  | unlink argv br1 =>
    obtain rfl := Option.some.inj hrun
    unfold Mngr.unlinkPort
    split
    · exact h.unlinkIndex hin
    · exact h

theorem MngrRun.wired {m : Mngr} (h : MngrRun (fun m c => c.InTable m) m) : Wired m := by
  induction h with
  | init => exact .init
  | step _ hin hrun ih => exact ih.step hin hrun

/-- A pairing of the ports, read at the entries of the tables. -/
theorem Wired.topology {m : Mngr} (h : Wired m) : Topology m where
  symmetric := by
    intro a ha i hpos hlt b j hentry
    have hpartner : m.partner (a, i) = some (b, j) := by
      simp only [Mngr.partner, Mngr.entry, hentry, Option.map_some]
    obtain ⟨⟨hb, hj, hjlt⟩, hback⟩ := h.pairing (a, i) ⟨ha, hpos, hlt⟩ (b, j) hpartner
    obtain ⟨hbridge, hport⟩ := partner_eq_some_iff.mp hback
    refine ⟨hb, hj, hjlt, ?_⟩
    calc (m.bridge b).ports j
        = ⟨(m.entry (b, j)).bridgePartner, (m.entry (b, j)).portPartner⟩ := rfl
      _ = ⟨some a, i⟩ := by rw [hbridge, hport]
  inTable := fun b i hi => (h.inTable (b, i) hi).2

/-- In every run in which no command names the index behind a table or a bridge that is not registered,
the wires are a symmetric matching of the ports that exist, and no entry outside a table is touched. -/
theorem mngrRun_topology (m : Mngr) (h : MngrRun (fun m c => c.InTable m) m) : Topology m :=
  h.wired.topology

/-- Two bridges with two ports each are wired. -/
theorem mngrRun_topology_two :
    ∃ m, Topology m ∧ m.brLst = [1, 0] ∧
      (m.bridge 0).ports 1 = { bridgePartner := some 1, portPartner := 1 } := by
  have hfirst := (MngrRun.init (R := fun m c => c.InTable m)).step
    (c := .handshake 10 2 (some fun _ => .zero)) trivial rfl
  have hsecond := hfirst.step (c := .handshake 11 2 (some fun _ => .zero)) trivial rfl
  have hlink := hsecond.step
    (c := .link [['l'], ['B', '1', '0'], ['1'], ['B', '1', '1'], ['1']])
    (fun br1 hbr1 br2 hbr2 _ _ _ _ => by
      obtain rfl : 0 = br1 := Option.some.inj hbr1
      obtain rfl : 1 = br2 := Option.some.inj hbr2
      decide) rfl
  exact ⟨_, mngrRun_topology _ hlink, by decide, by decide⟩

/-- A bridge with two ports is asked to link port 2 to port 1. -/
theorem not_mngrRun_topology : ¬ ∀ m, MngrRun (fun _ _ => True) m → Topology m := by
  intro h
  have hregistered := (MngrRun.init (R := fun _ _ => True)).step
    (c := .handshake 10 2 (some fun _ => .zero)) trivial rfl
  have hlink := hregistered.step
    (c := .link [['l'], ['B', '1', '0'], ['2'], ['B', '1', '0'], ['1']]) trivial rfl
  have hin := (h _ hlink).inTable 0 2 (by decide)
  exact absurd hin.2 (by decide)

end Lacp
