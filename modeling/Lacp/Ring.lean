import Lacp.Library.Cyclic
import Lacp.Topology

/-!
# The ring command

Reference: `link_ring`, `_link_two_ports` and `mngr_rx_bpdu` in `mngr.c`.

The first loop of `link_ring` takes all wires away, the second links port 1 of every bridge to port 0 of
the next. It hands `_link_two_ports` pointers to these two entries, and with them the numbers 2 and 1
that they would have if ports were counted from one. The numbers are what is stored at the other end and
sent to the bridges, so each end names the port behind the one that it is wired to (`linkRing_linkedRing`).
-/

namespace Lacp

open Cyclic (linkEach linkEach_invariant linkEach_next)
open Pairing

/-! ## Taking the wires away -/

/-- Wires were taken away, and nothing else is different. -/
structure Unwired (m m' : Mngr) : Prop where
  same : SameBridges m m'
  pairing : PairingOn m.portSet m'.partner
  free : ∀ x, m.partner x = none → m'.partner x = none

section Unlinking

variable {m m' m'' : Mngr} {b : BridgeAddr} {k : ℕ}

theorem Unwired.refl (h : PairingOn m.portSet m.partner) : Unwired m m :=
  ⟨.refl m, h, fun _ hx => hx⟩

theorem Unwired.trans (h : Unwired m m') (h' : Unwired m' m'') : Unwired m m'' where
  same := h.same.trans h'.same
  pairing := h.same.portSet ▸ h'.pairing
  free := fun x hx => h'.free x (h.free x hx)

/-- The wires that are left are a pairing to go on with. -/
theorem Unwired.pairing_left (h : Unwired m m') : PairingOn m'.portSet m'.partner := by
  rw [h.same.portSet]
  exact h.pairing

/-- A port is visited, and has no wire after that. -/
theorem unwired_unlinkRingPort (h : PairingOn m.portSet m.partner) (hport : (b, (k : ℤ)) ∈ m.portSet) :
    Unwired m (Mngr.unlinkRingPort b m k) ∧ (Mngr.unlinkRingPort b m k).partner (b, k) = none := by
  set x : PortPtr := (b, (k : ℤ)) with hx
  cases hpartner : m.partner x with
  | none =>
    have hrun : Mngr.unlinkRingPort b m k = m.touch x := by
      simp only [Mngr.unlinkRingPort, entry_touch, ← hx, partner_eq_none_iff.mp hpartner]
    rw [hrun]
    exact ⟨⟨sameBridges_log m _, h, fun _ hy => hy⟩, hpartner⟩
  | some y =>
    obtain ⟨-, hyx⟩ := h x hport y hpartner
    obtain ⟨hb, hj⟩ := partner_eq_some_iff.mp hpartner
    have hrun : Mngr.unlinkRingPort b m k =
        ((m.touch x).disconnectPort x true).disconnectPort y true := by
      simp only [Mngr.unlinkRingPort, entry_touch, ← hx, hb, hj]
    have hboth : (Mngr.unlinkRingPort b m k).partner =
        Function.update (Function.update m.partner x none) y none := by
      rw [hrun]
      exact partner_disconnectPort_both (m := m.touch x) hpartner hyx
    refine ⟨⟨?_, ?_, fun z hz => ?_⟩, ?_⟩
    · rw [hrun]
      exact (sameBridges_log m _).trans
        ((sameBridges_disconnectPort ..).trans (sameBridges_disconnectPort ..))
    · rw [hboth]
      exact h.unlink hport hpartner
    · rw [hboth]
      exact unlink_eq_none (.inl hz)
    · rw [hboth]
      exact unlink_eq_none (.inr rfl)

/-- The first `k` ports of a bridge were visited. -/
theorem unwired_foldl (h : PairingOn m.portSet m.partner) (hb : b ∈ m.brLst)
    (hk : (k : ℤ) ≤ (m.bridge b).numberOfPorts) :
    Unwired m ((List.range k).foldl (Mngr.unlinkRingPort b) m) ∧
      ∀ i : ℕ, i < k → ((List.range k).foldl (Mngr.unlinkRingPort b) m).partner (b, i) = none := by
  induction k with
  | zero => exact ⟨.refl h, fun i hi => absurd hi (Nat.not_lt_zero i)⟩
  | succ k ih =>
    obtain ⟨hbefore, hfree⟩ := ih (by omega)
    rw [List.range_succ, List.foldl_append, List.foldl_cons, List.foldl_nil]
    have hlt : (k : ℤ) < (m.bridge b).numberOfPorts := by omega
    have hport : (b, (k : ℤ)) ∈ ((List.range k).foldl (Mngr.unlinkRingPort b) m).portSet := by
      rw [hbefore.same.portSet]
      exact ⟨hb, Int.natCast_nonneg k, hlt⟩
    obtain ⟨hstep, hlast⟩ := unwired_unlinkRingPort hbefore.pairing_left hport
    refine ⟨hbefore.trans hstep, fun i hi => ?_⟩
    rcases Nat.lt_succ_iff_lt_or_eq.mp hi with hlt | rfl
    · exact hstep.free _ (hfree i hlt)
    · exact hlast

theorem unwired_unlinkRingBridge (h : PairingOn m.portSet m.partner) (hb : b ∈ m.brLst)
    (hrun : m.unlinkRingBridge b = some m') :
    Unwired m m' ∧ ∀ x ∈ m.portSet, x.1 = b → m'.partner x = none := by
  unfold Mngr.unlinkRingBridge at hrun
  split at hrun
  · cases hrun
  obtain rfl := Option.some.inj hrun
  by_cases hneg : (m.bridge b).numberOfPorts < 0
  · rw [Int.toNat_of_nonpos hneg.le]
    refine ⟨.refl h, ?_⟩
    rintro ⟨c, i⟩ ⟨-, hpos, hlt⟩ rfl
    exact absurd (hpos.trans_lt hlt) hneg.not_gt
  · obtain ⟨hunwired, hfree⟩ := unwired_foldl h hb (k := (m.bridge b).numberOfPorts.toNat) (by omega)
    refine ⟨hunwired, ?_⟩
    rintro ⟨c, i⟩ ⟨-, hpos, hlt⟩ rfl
    obtain ⟨n, rfl⟩ := Int.eq_ofNat_of_zero_le hpos
    exact hfree n (by omega)

/-- The first loop, over the bridges of a list. -/
theorem unwired_foldlM {brs : List BridgeAddr} (h : PairingOn m.portSet m.partner)
    (hbrs : ∀ b ∈ brs, b ∈ m.brLst) (hrun : brs.foldlM Mngr.unlinkRingBridge m = some m') :
    Unwired m m' ∧ ∀ x ∈ m.portSet, x.1 ∈ brs → m'.partner x = none := by
  induction brs generalizing m with
  | nil =>
    obtain rfl := Option.some.inj hrun
    exact ⟨.refl h, fun _ _ hx => absurd hx List.not_mem_nil⟩
  | cons b brs ih =>
    obtain ⟨u, hu, hrest⟩ := Option.bind_eq_some_iff.mp hrun
    obtain ⟨hstep, hfree⟩ := unwired_unlinkRingBridge h (hbrs b List.mem_cons_self) hu
    obtain ⟨hlater, hfree'⟩ := ih hstep.pairing_left
      (fun c hc => hstep.same.brLst ▸ hbrs c (List.mem_cons_of_mem b hc)) hrest
    refine ⟨hstep.trans hlater, fun x hx hlisted => ?_⟩
    rcases List.mem_cons.mp hlisted with hhead | htail
    · exact hlater.free x (hfree x hx hhead)
    · exact hfree' x (hstep.same.portSet ▸ hx) htail

/-- The first loop ends where an `int` can count every table. -/
theorem exists_foldlM_unlinkRingBridge_iff {brs : List BridgeAddr}
    (h : PairingOn m.portSet m.partner) (hbrs : ∀ b ∈ brs, b ∈ m.brLst) :
    (∃ m', brs.foldlM Mngr.unlinkRingBridge m = some m') ↔
      ∀ b ∈ brs, (m.bridge b).numberOfPorts ≤ 0x7fffffff := by
  induction brs generalizing m with
  | nil => exact ⟨fun _ b hb => absurd hb List.not_mem_nil, fun _ => ⟨m, rfl⟩⟩
  | cons b brs ih =>
    rw [List.forall_mem_cons, List.foldlM_cons]
    by_cases hcount : 0x7fffffff < (m.bridge b).numberOfPorts
    · have hnone : m.unlinkRingBridge b = none := if_pos hcount
      rw [hnone]
      exact ⟨fun ⟨_, hrun⟩ => (by cases hrun), fun hall => absurd hall.1 hcount.not_ge⟩
    · obtain ⟨u, hu⟩ : ∃ u, m.unlinkRingBridge b = some u := ⟨_, if_neg hcount⟩
      obtain ⟨hstep, -⟩ := unwired_unlinkRingBridge h (hbrs b List.mem_cons_self) hu
      rw [hu]
      refine (ih hstep.pairing_left
        fun c hc => hstep.same.brLst ▸ hbrs c (List.mem_cons_of_mem b hc)).trans ?_
      simp only [hstep.same.numberOfPorts, not_lt.mp hcount, true_and]

end Unlinking

/-! ## Building the ring -/

/-- The loop body of `link_ring` that links a bridge to the next one. -/
def Mngr.linkNext (m : Mngr) (br1 br2 : BridgeAddr) : Mngr :=
  m.linkTwoPorts br1 (br1, 1) 2 br2 (br2, 0) 1

/-- Ports 0 and 1 were linked, and nothing else is different. -/
structure Links (m m' : Mngr) : Prop where
  same : SameBridges m m'
  rest : ∀ x : PortPtr, x.2 ≠ 0 → x.2 ≠ 1 → m'.partner x = m.partner x

/-- The wire of two bridges as it is stored: port 1 of the one names port 1 of the other, and port 0 of
the other names port 2 of the one. -/
structure NextLinked (a b : BridgeAddr) (m : Mngr) : Prop where
  out : m.partner (a, 1) = some (b, 1)
  back : m.partner (b, 0) = some (a, 2)

section Building

variable {m m' : Mngr} {a b c d first : BridgeAddr}

theorem Links.refl (m : Mngr) : Links m m := ⟨.refl m, fun _ _ _ => rfl⟩

theorem partner_linkNext (m : Mngr) (a b : BridgeAddr) : (m.linkNext a b).partner =
    Function.update (Function.update m.partner (a, 1) (some (b, 1))) (b, 0) (some (a, 2)) := by
  simp only [Mngr.linkNext, Mngr.linkTwoPorts, partner_log, partner_setEntry]
  rfl

theorem Links.linkNext (h : Links m m') (a b : BridgeAddr) : Links m (m'.linkNext a b) where
  same := h.same.trans (sameBridges_linkTwoPorts ..)
  rest := by
    intro x hzero hone
    have hxa : x ≠ (a, 1) := fun heq => hone (congrArg Prod.snd heq)
    have hxb : x ≠ (b, 0) := fun heq => hzero (congrArg Prod.snd heq)
    rw [partner_linkNext, Function.update_of_ne hxb, Function.update_of_ne hxa]
    exact h.rest x hzero hone

theorem nextLinked_linkNext (m : Mngr) (a b : BridgeAddr) : NextLinked a b (m.linkNext a b) := by
  constructor
  · rw [partner_linkNext, Function.update_of_ne (by simp), Function.update_self]
  · rw [partner_linkNext, Function.update_self]

/-- Other pairs of bridges have other ports. -/
theorem NextLinked.linkNext (h : NextLinked a b m) (hca : c ≠ a) (hdb : d ≠ b) :
    NextLinked a b (m.linkNext c d) := by
  constructor
  · rw [partner_linkNext, Function.update_of_ne (by simp), Function.update_of_ne (by simp [hca.symm])]
    exact h.out
  · rw [partner_linkNext, Function.update_of_ne (by simp [hdb.symm]), Function.update_of_ne (by simp)]
    exact h.back

/-- The loop of the source is the loop around the list of the bridges. -/
theorem buildRing_eq_linkEach {brs : List BridgeAddr} (hfirst : m.brLst.head? = some first) :
    m.buildRing brs = linkEach Mngr.linkNext first m brs := by
  induction brs generalizing m with
  | nil => rfl
  | cons br1 next ih =>
    rw [Mngr.buildRing, linkEach, List.headD_eq_head?_getD (l := m.brLst), hfirst, Option.getD_some]
    exact ih hfirst

theorem links_buildRing (hfirst : m.brLst.head? = some first) (hnodup : m.brLst.Nodup) :
    Links m (m.buildRing m.brLst) ∧
      ∀ a (ha : a ∈ m.brLst), NextLinked a (m.brLst.next a ha) (m.buildRing m.brLst) := by
  rw [buildRing_eq_linkEach hfirst]
  refine ⟨linkEach_invariant (fun _ a b hs => hs.linkNext a b) (.refl m), fun a ha => ?_⟩
  exact linkEach_next (P := Links m) (fun _ a b hs => hs.linkNext a b)
    (fun u a b _ => nextLinked_linkNext u a b) (fun _ _ _ _ _ _ hq hca hdb => hq.linkNext hca hdb)
    (.refl m) hnodup hfirst ha

end Building

/-! ## The whole command -/

/-- At least two bridges are registered, each with at least two ports, and the wires are a pairing of the
ports. -/
structure RingReady (m : Mngr) : Prop where
  nodup : m.brLst.Nodup
  bridges : 2 ≤ m.brLst.length
  ports : ∀ b ∈ m.brLst, 2 ≤ (m.bridge b).numberOfPorts
  pairing : PairingOn m.portSet m.partner

/-- What `link_ring` leaves: every bridge is linked to the next, and no other port has a wire. -/
structure LinkedRing (m m' : Mngr) : Prop where
  same : SameBridges m m'
  linked : ∀ a (ha : a ∈ m.brLst), NextLinked a (m.brLst.next a ha) m'
  free : ∀ x ∈ m.portSet, x.2 ≠ 0 → x.2 ≠ 1 → m'.partner x = none

/-- Where a BPDU from the port `x` is sent on to. -/
def Mngr.Relays (m : Mngr) (x y : PortPtr) : Prop :=
  ∀ msg : BrIpcMsg, msg.header.senderPid = (m.bridge x.1).pid → msg.header.sourcePort = x.2 →
    (m.mngrRxBpdu msg).2 = some (y.1, msg.withDestination y.2)

/-- A BPDU from port 1 of a bridge is sent on to port 0 of the next one, and the other way round. -/
def Mngr.RelaysAround (m : Mngr) : Prop :=
  ∀ a (ha : a ∈ m.brLst), m.Relays (a, 1) (m.brLst.next a ha, 0) ∧
    m.Relays (m.brLst.next a ha, 0) (a, 1)

/-- The ring that the command is for. -/
structure ConsistentRing (m : Mngr) : Prop where
  pointsBack : PairingOn m.portSet m.partner
  relaysAround : m.RelaysAround

/-- The search of `mngr_rx_bpdu` for the process id of a bridge ends at that bridge. -/
def Mngr.Finds (m : Mngr) (a : BridgeAddr) : Prop :=
  m.brLst.find? (fun br => (m.bridge br).pid == (m.bridge a).pid) = some a

section Command

variable {m m' : Mngr}

theorem RingReady.length_pos (h : RingReady m) : 0 < m.brLst.length :=
  lt_of_lt_of_le Nat.zero_lt_two h.bridges

/-- In every run in which no command names an index behind a table, two bridges with two ports each can be
made a ring. -/
theorem Wired.ringReady (h : Wired m) (hbridges : 2 ≤ m.brLst.length)
    (hports : ∀ b ∈ m.brLst, 2 ≤ (m.bridge b).numberOfPorts) : RingReady m :=
  ⟨h.nodup, hbridges, hports, h.pairing⟩

theorem linkRing_linkedRing (h : RingReady m) (hrun : m.linkRing = some m') : LinkedRing m m' := by
  obtain ⟨u, hu, rfl⟩ := Option.map_eq_some_iff.mp hrun
  obtain ⟨hunwired, hfree⟩ := unwired_foldlM h.pairing (fun _ hb => hb) hu
  obtain ⟨first, rest, hlist⟩ := List.exists_cons_of_length_pos h.length_pos
  have hbrLst : u.brLst = m.brLst := hunwired.same.brLst
  have hfirst : u.brLst.head? = some first := by rw [hbrLst, hlist, List.head?_cons]
  obtain ⟨hlinks, hlinked⟩ := links_buildRing hfirst (hbrLst ▸ h.nodup)
  constructor
  · exact hunwired.same.trans hlinks.same
  · intro a ha
    have hnext := hlinked a (hbrLst ▸ ha)
    simp only [hbrLst] at hnext ⊢
    exact hnext
  · intro x hx hzero hone
    exact (hlinks.rest x hzero hone).trans (hfree x hx hx.1)

/-- A BPDU is sent on to what the entry of its port names. -/
theorem relays_of_partner {x y : PortPtr} (hfind : m.Finds x.1) (hpartner : m.partner x = some y) :
    m.Relays x y := by
  intro msg hpid hport
  obtain ⟨hb, hj⟩ := partner_eq_some_iff.mp hpartner
  have hx : (x.1, msg.header.sourcePort) = x := by rw [hport]
  have hfind' : m.brLst.find? (fun br => (m.bridge br).pid == msg.header.senderPid) = some x.1 := by
    rw [hpid]
    exact hfind
  simp only [Mngr.mngrRxBpdu, hfind', entry_touch, hx, hb, hj]

theorem Mngr.Relays.unique {x y y' : PortPtr} (h : m.Relays x y) (h' : m.Relays x y') : y = y' := by
  set msg : BrIpcMsg :=
    { header := { cmdType := .bpdu, senderPid := (m.bridge x.1).pid, destinationPort := 0,
                  sourcePort := x.2, bodyLen := 0 }
      bpdu := [] } with hmsg
  have heq := (h msg rfl rfl).symm.trans (h' msg rfl rfl)
  obtain ⟨hbridge, hsent⟩ := Prod.mk.inj (Option.some.inj heq)
  have hdestination : y.2 = y'.2 := congrArg (fun msg => msg.header.destinationPort) hsent
  exact Prod.ext hbridge hdestination

theorem finds_of_unique {a : BridgeAddr} (ha : a ∈ m.brLst)
    (hunique : ∀ b ∈ m.brLst, (m.bridge b).pid = (m.bridge a).pid → b = a) : m.Finds a := by
  cases hfind : m.brLst.find? (fun br => (m.bridge br).pid == (m.bridge a).pid) with
  | none => exact absurd (List.find?_eq_none.mp hfind a ha) (by simp)
  | some b =>
    obtain rfl := hunique b (List.mem_of_find?_eq_some hfind)
      (by simpa using List.find?_some hfind)
    exact hfind

theorem finds_head {a : BridgeAddr} (ha : m.brLst.head? = some a) : m.Finds a := by
  obtain ⟨rest, hlist⟩ := List.head?_eq_some_iff.mp ha
  rw [Mngr.Finds, hlist]
  exact List.find?_cons_of_pos (by simp)

/-- Where no two bridges have one process id, a BPDU from port 1 of a bridge arrives at port 1 of the next,
and one from port 0 of the next arrives at port 2 of the bridge. -/
theorem linkRing_relays (h : RingReady m) (hrun : m.linkRing = some m')
    (hpid : Set.InjOn (fun b => (m.bridge b).pid) {b | b ∈ m.brLst}) {a : BridgeAddr} (ha : a ∈ m.brLst) :
    m'.Relays (a, 1) (m.brLst.next a ha, 1) ∧ m'.Relays (m.brLst.next a ha, 0) (a, 2) := by
  have hring := linkRing_linkedRing h hrun
  have hfinds : ∀ c ∈ m.brLst, m'.Finds c := by
    intro c hc
    refine finds_of_unique (hring.same.brLst ▸ hc) fun b hb heq => ?_
    rw [hring.same.pid, hring.same.pid] at heq
    exact hpid (hring.same.brLst ▸ hb) hc heq
  exact ⟨relays_of_partner (hfinds a ha) (hring.linked a ha).out,
    relays_of_partner (hfinds _ (List.next_mem m.brLst a ha)) (hring.linked a ha).back⟩

/-- Port 0 of a bridge names port 2 of the one before it, which has no wire or does not exist. -/
theorem LinkedRing.not_pairing (h : LinkedRing m m') (hready : RingReady m) :
    ¬ PairingOn m'.portSet m'.partner := by
  intro hpairing
  obtain ⟨a, ha⟩ := List.exists_mem_of_length_pos hready.length_pos
  have hnext := List.next_mem m.brLst a ha
  have hcount := hready.ports _ hnext
  have hport : (m.brLst.next a ha, (0 : ℤ)) ∈ m'.portSet := by
    rw [h.same.portSet]
    exact ⟨hnext, le_rfl, lt_of_lt_of_le (show (0 : ℤ) < 2 by decide) hcount⟩
  obtain ⟨hin, hback⟩ := hpairing _ hport _ (h.linked a ha).back
  rw [h.same.portSet] at hin
  have hfree := h.free (a, 2) hin (by simp) (by simp)
  exact absurd (hfree.symm.trans hback) (by simp)

/-- The process id of the head of the list finds the head, and its BPDUs arrive at the wrong port. -/
theorem LinkedRing.not_relaysAround (h : LinkedRing m m') (hready : RingReady m) :
    ¬ m'.RelaysAround := by
  intro haround
  obtain ⟨a, rest, hlist⟩ := List.exists_cons_of_length_pos hready.length_pos
  have ha : a ∈ m.brLst := hlist ▸ List.mem_cons_self
  have ha' : a ∈ m'.brLst := h.same.brLst ▸ ha
  have hfind : m'.Finds a := finds_head (by rw [h.same.brLst, hlist, List.head?_cons])
  have hdone : m'.Relays (a, 1) (m.brLst.next a ha, 1) := relays_of_partner hfind (h.linked a ha).out
  have hmeant : m'.Relays (a, 1) (m'.brLst.next a ha', 0) := (haround a ha').1
  exact absurd (congrArg Prod.snd (hdone.unique hmeant)) (by simp)

/-- After `link_ring`, which returns where an `int` can count every table, no ring is consistent: an end
of a wire does not point back, and a BPDU is sent on to another port. -/
theorem linkRing_not_consistentRing (m : Mngr) (h : RingReady m) :
    ((∃ m', m.linkRing = some m') ↔ ∀ b ∈ m.brLst, (m.bridge b).numberOfPorts ≤ 0x7fffffff) ∧
      ∀ m', m.linkRing = some m' → ¬ PairingOn m'.portSet m'.partner ∧ ¬ m'.RelaysAround := by
  refine ⟨?_, fun m' hrun => ?_⟩
  · rw [← exists_foldlM_unlinkRingBridge_iff h.pairing fun _ hb => hb]
    simp only [Mngr.linkRing, Option.map_eq_some_iff]
    exact ⟨fun ⟨_, u, hu, _⟩ => ⟨u, hu⟩, fun ⟨u, hu⟩ => ⟨_, u, hu, rfl⟩⟩
  · have hlinked := linkRing_linkedRing h hrun
    exact ⟨hlinked.not_pairing h, hlinked.not_relaysAround h⟩

end Command

/-- Two bridges with four ports each, the number that a bridge has by default, are linked at their ports 3. -/
def bridgePair : Mngr :=
  ((initMngr.registerBridge 10 4 (some fun _ => .zero)).registerBridge 11 4
    (some fun _ => .zero)).linkPorts 10 3 11 3

theorem bridgePair_ready : RingReady bridgePair := by
  have hregistered : Wired ((initMngr.registerBridge 10 4 (some fun _ => .zero)).registerBridge 11 4
      (some fun _ => .zero)) := (Wired.init.registerBridge ..).registerBridge ..
  have hwired : Wired bridgePair := hregistered.linkPorts fun br1 hbr1 br2 hbr2 _ _ _ _ => by
    obtain rfl : 0 = br1 := Option.some.inj hbr1
    obtain rfl : 1 = br2 := Option.some.inj hbr2
    decide
  exact hwired.ringReady (by decide) (by decide)

/-- The ring of two bridges. -/
theorem linkRing_not_consistentRing_pair :
    ∃ m', bridgePair.linkRing = some m' ∧ ¬ PairingOn m'.portSet m'.partner ∧ ¬ m'.RelaysAround := by
  obtain ⟨hreturns, hring⟩ := linkRing_not_consistentRing bridgePair bridgePair_ready
  obtain ⟨m', hrun⟩ := hreturns.mpr (by decide)
  exact ⟨m', hrun, hring m' hrun⟩

/-- Port 0 of a bridge names port 2 of the other, which has no wire. -/
theorem not_linkRing_consistentRing :
    ¬ ∀ m, RingReady m → ∀ m', m.linkRing = some m' → ConsistentRing m' := by
  intro h
  obtain ⟨-, hback⟩ := (h bridgePair bridgePair_ready _ rfl).pointsBack (0, 0)
    ⟨by decide, by decide, by decide⟩ (1, 2) (by decide)
  exact absurd hback (by decide)

end Lacp
