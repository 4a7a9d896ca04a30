import Lacp.Ranking
import Lacp.Settling
import Lacp.StateReports
import Lacp.Transmission

/-!
# Two link groups that are wired to each other

Reference: `update_selected`, `update_partner_syn`, `lacp_mux_check_conditions`, `lacp_one_second`.

A trunk is a bundle of wires between a link group of one system and a link group of another. While nobody
configures the two, seconds pass and frames arrive, in any order (`Trunk.Talk`). Two things are asked of them:
a frame that arrives over a wire says what the port at the other end has on record at that time, and no second
is the last one that an end waits for its partner: an end that goes without a frame for too long forgets the
other one, and its group is selected anew.

An end that hears takes over the identity of the other end, and no second and no frame changes an identity;
so once all ends have heard, each knows the other (`Trunk.Knows`), nothing that arrives is news, and both
groups are left alone: after `aggregate_wait_time` seconds they are settled. From then on an end says that it
is in sync exactly if it is active, so once all ends have heard again, a wire forwards at both ends if it is
active at both, and at neither if it is not (`reachable_trunkAgreed`).
-/

namespace Lacp

open Relation (ReflTransGen)

/-! ## Identities -/

/-- What `_same_partner` compares. -/
def LacpPortInfo.identity (i : LacpPortInfo) : UInt16 × UInt16 × UInt16 × LacpMac × UInt16 × Bool :=
  (i.portPriority, i.portNo, i.systemPriority, i.systemMac, i.key, i.state.AGG)

theorem samePartner_iff_identity {i j : LacpPortInfo} : samePartner i j = true ↔ i.identity = j.identity := by
  simp only [samePartner_iff, LacpPortInfo.identity, Prod.mk.injEq]

/-- The link of the port is up, and its receive machine runs. -/
structure Listens (p : LacpPort) : Prop where
  portEnabled : p.portEnabled = true
  lacpEnabled : p.lacpEnabled = true
  portMoved : p.portMoved = false
  rx : p.rx.state = .current ∨ p.rx.state = .expired ∨ p.rx.state = .defaulted

/-- `q` is a later record of the port that had the record `p`: it listens, under the same identity. -/
structure ListensOn (p q : LacpPort) : Prop where
  listens : Listens q
  identity : q.actor.identity = p.actor.identity
  portIndex : q.portIndex = p.portIndex
  aggId : q.aggId = p.aggId
  duplex : q.duplex = p.duplex

section Listens

variable {R : World → Call → Prop} {w w' u x : World} {a b : Addr} {p q r : LacpPort} {slot port : ℕ}
  {pdu : LacpPdu} {c : Call}

theorem Listens.refl (h : Listens p) : ListensOn p p := ⟨h, rfl, rfl, rfl, rfl⟩

theorem ListensOn.trans (h : ListensOn p q) (h' : ListensOn q r) : ListensOn p r :=
  ⟨h'.listens, h'.identity.trans h.identity, h'.portIndex.trans h.portIndex, h'.aggId.trans h.aggId,
    h'.duplex.trans h.duplex⟩

/-- In every reachable state a port whose link is up listens. -/
theorem ReachableBy.listens (h : ReachableBy R w) (ha : a ∈ w.sys.ports) (hen : (w.port a).portEnabled = true) :
    Listens (w.port a) := by
  obtain ⟨hp, hq⟩ := h.port ha
  have hlac := hp.enabled (Set.notMem_empty _)
  exact ⟨hen, hlac, hq.moved, hq.linkUp hen hlac⟩

/-- No machine gives a port that listens another identity. -/
theorem PortHop.listensOn (h : PortHop w b q) (hp : Listens (w.port b))
    (hkey : (w.port b).actor.key = UInt16.ofNat (trunkSspGetPortOperKey w (w.port b).portIndex)) :
    ListensOn (w.port b) q := by
  have hsettings := h.settings_eq
  rcases h.rx_or_untouched with ⟨s, _, guard, rfl⟩ | huntouched
  · have hs : s = .current ∨ s = .expired ∨ s = .defaulted := by
      have hrx := hp.rx
      cases rxGuard_of_check guard with
      | linkDown hen => exact absurd (hp.portEnabled.symm.trans hen) (by simp)
      | resume | refresh | recover => exact .inl rfl
      | expire => exact .inr (.inl rfl)
      | timeout => exact .inr (.inr rfl)
      | start hs | initialized hs | moved hs | linkUp hs | linkUpOff hs | lacpOn hs => simp [hs] at hrx
    rcases hs with rfl | rfl | rfl
    · exact ⟨⟨hp.portEnabled, hp.lacpEnabled, hp.portMoved, .inl rfl⟩, rfl, rfl, rfl, rfl⟩
    · exact ⟨⟨hp.portEnabled, hp.lacpEnabled, hp.portMoved, .inr (.inl rfl)⟩, rfl, rfl, rfl, rfl⟩
    · exact ⟨⟨hp.portEnabled, hp.lacpEnabled, hp.portMoved, .inr (.inr rfl)⟩, rfl, rfl, rfl, rfl⟩
  · have hinputs := huntouched.inputs
    simp only [LacpPort.rxInputs, RxInputs.mk.injEq] at hinputs
    obtain ⟨hrx, hen, hmoved, hlac, -, -⟩ := hinputs
    have hactor := huntouched.actor
    rw [SameActor] at hactor
    have hsame : q.actor.key = (w.port b).actor.key := huntouched.key.elim id fun heq => heq.trans hkey.symm
    refine ⟨⟨hen ▸ hp.portEnabled, hlac ▸ hp.lacpEnabled, hmoved ▸ hp.portMoved, hrx ▸ hp.rx⟩, ?_,
      congrArg PortSettings.portIndex hsettings, congrArg PortSettings.aggId hsettings,
      congrArg PortSettings.duplex hsettings⟩
    rw [hactor, hsame]
    rfl

theorem hops_listensOn (h : ReflTransGen OrderedHop w w') (hp : Listens (w.port b))
    (hkey : (w.port b).actor.key = UInt16.ofNat (trunkSspGetPortOperKey w (w.port b).portIndex)) :
    ListensOn (w.port b) (w'.port b) := by
  induction h with
  | refl => exact hp.refl
  | @tail v x hhops hop ih =>
    refine ih.trans ((hop.engineHop.portHop b).listensOn ih.listens ?_)
    have hsame : (v.port b).actor.key = (w.port b).actor.key :=
      congrArg (fun i => i.2.2.2.2.1) ih.identity
    rw [hsame, hkey, ih.portIndex, hops_operKey hhops]

/-- The ports are there still, in their groups, and those that listen do so under the same identity. -/
structure PortsKept (w w' : World) : Prop where
  ports : w'.sys.ports = w.sys.ports
  aggId : ∀ b ∈ w.sys.ports, (w'.port b).aggId = (w.port b).aggId
  listensOn : ∀ b ∈ w.sys.ports, Listens (w.port b) → ListensOn (w.port b) (w'.port b)

/-- A write that keeps the ports, and the engine that runs after it. -/
theorem Update.portsKept {f : Addr → LacpPort → LacpPort} (h : ReachableBy R w) (hw : Update w u w.sys ∅ f)
    (hhops : ReflTransGen OrderedHop u w') (hagg : ∀ b ∈ w.sys.ports, (f b (w.port b)).aggId = (w.port b).aggId)
    (hf : ∀ b ∈ w.sys.ports, Listens (w.port b) → ListensOn (w.port b) (f b (w.port b))) : PortsKept w w' where
  ports := (hops_ports_eq hhops).trans hw.ports
  aggId := fun b hb => by
    have hsame : (w'.port b).aggId = (u.port b).aggId := congrArg PortSettings.aggId (hops_settings_eq hhops b)
    rw [hsame, hw.port b hb, hagg b hb]
  listensOn := fun b hb hlistens => by
    have hu : ListensOn (w.port b) (u.port b) := hw.port b hb ▸ hf b hb hlistens
    refine hu.trans (hops_listensOn hhops hu.listens ?_)
    have hsame : (u.port b).actor.key = (w.port b).actor.key := congrArg (fun i => i.2.2.2.2.1) hu.identity
    rw [hsame, h.actor_key hb hlistens.lacpEnabled, hu.portIndex, hw.operKey (Set.notMem_empty _)]

theorem Listens.received (h : Listens (w.port b)) :
    ListensOn (w.port b) (received a (movedPort w a pdu) pdu b (w.port b)) := by
  simp only [Lacp.received]
  split
  · exact ⟨⟨h.portEnabled, h.lacpEnabled, h.portMoved, h.rx⟩, rfl, rfl, rfl, rfl⟩
  · split
    · rename_i hmoved
      have hrx := h.rx
      simp [(of_movedPort_eq_some hmoved).2.2.1] at hrx
    · exact h.refl

theorem received_aggId (a : Addr) (moved : Option Addr) (pdu : LacpPdu) (b : Addr) (p : LacpPort) :
    (received a moved pdu b p).aggId = p.aggId := by
  simp only [received]
  split
  · rfl
  · split <;> rfl

end Listens

/-! ## A second and a frame -/

section Steps

variable {R : World → Call → Prop} {w w' : World} {a b : Addr} {slot port : ℕ} {pdu : LacpPdu}

/-- What stays of a port that knows its partner, unless the partner falls silent. -/
structure StaysCurrent (p q : LacpPort) : Prop where
  rx : q.rx.state = .current
  partner : q.partner = p.partner

/-- A port whose receive machine has nothing to do stays as it is, whatever the engine does. -/
theorem staysCurrent_of_hops {u x : World} (hrest : lacpRxCheckConditions u b = none)
    (hcurrent : (u.port b).rx.state = .current) (hpartner : (u.port b).partner = (w.port b).partner)
    (hhops : ReflTransGen OrderedHop u x) : StaysCurrent (w.port b) (x.port b) := by
  obtain ⟨hinputs, hkept⟩ := hops_partner_eq hrest hhops
  exact ⟨(congrArg RxInputs.state hinputs).trans hcurrent, hkept.trans hpartner⟩

/-- A second, unless it is the last one of the partner. -/
theorem ReachableBy.second (h : ReachableBy R w) (hstep : Step .oneSecond w w') :
    PortsKept w w' ∧ ∀ b ∈ w.sys.ports, Listens (w.port b) → (w.port b).rx.state = .current →
      (w.port b).currentWhile ≠ 1 → StaysCurrent (w.port b) (w'.port b) := by
  obtain ⟨u, x, hw, hhops, hsys, hport⟩ := exists_hops_of_oneSecond h.coherent.1 hstep
  have hkept : PortsKept w x := hw.portsKept h hhops (fun _ _ => rfl) fun b _ hlistens =>
    ⟨⟨hlistens.portEnabled, hlistens.lacpEnabled, hlistens.portMoved, hlistens.rx⟩, rfl, rfl, rfl, rfl⟩
  refine ⟨⟨hsys ▸ hkept.ports, hport ▸ hkept.aggId, hport ▸ hkept.listensOn⟩,
    fun b hb hlistens hcurrent hcalm => ?_⟩
  have hb' : u.port b = oneSecondPort (w.port b) := hw.port b hb
  have hquiet := (h.port hb).2
  have hrunning : decrementTimer (w.port b).currentWhile ≠ 0 := by
    intro hzero
    have hpos := hquiet.running (.inr hcurrent)
    have hnat := decrementTimer_toNat (w.port b).currentWhile
    rw [hzero] at hnat
    rw [Ne, ← UInt16.toNat_inj] at hpos hcalm
    simp only [UInt16.toNat_zero, UInt16.toNat_one] at hnat hpos hcalm
    omega
  have hrest : lacpRxCheckConditions u b = none := by
    simp [lacpRxCheckConditions, hb', oneSecondPort, hlistens.portEnabled, hcurrent, hquiet.rcvd, hrunning]
  rw [hport]
  exact staysCurrent_of_hops hrest (hb' ▸ hcurrent) (hb' ▸ rfl) hhops

/-- The port that a frame is for takes it over. -/
theorem ReachableBy.frame (h : ReachableBy R w) (ha : a ∈ w.sys.ports) (hen : (w.port a).portEnabled = true)
    (hindex : (w.port a).portIndex = globalIndex slot port) (hstep : Step (.rxLacpdu slot port pdu) w w') :
    FullyProcessed w.sys (w.port a) pdu (w'.port a) := by
  obtain ⟨hc, hq⟩ := h.coherent
  obtain ⟨hrange, fuel, ret, hrun⟩ := hstep
  have hlac := (hc.port a ha).enabled (Set.notMem_empty _)
  simp only [runCall, trunkSspRxLacpdu, h.groupsKnown.lacpIsEnable hc hrange.2 ha hindex,
    trunkSspGetGlobalIndex_eq hrange.2.1, ← hindex, Bool.not_true, Bool.false_eq_true, if_false] at hrun
  rw [lacpRxLacpdu_eq hc ha hen] at hrun
  obtain ⟨x, hupdate, hend⟩ := Option.map_eq_some_iff.mp hrun
  obtain ⟨rfl, -⟩ := Prod.mk.inj hend
  have hw : Update w (lacpRxmRxLacpdu (lacpCriticalPathStart w) a pdu) w.sys ∅
      (received a (movedPort w a pdu) pdu) :=
    (update_lockDepth w ∅ _).trans
      (update_lacpRxmRxLacpdu (w := lacpCriticalPathStart w) hlac pdu) subset_rfl
  have hreceive : Effect (fun _ _ => True) (.rxLacpdu slot port pdu) (∅, w)
      (∅, lacpRxmRxLacpdu (lacpCriticalPathStart w) a pdu) :=
    .receive rfl hindex ha hlac hen hq trivial (fun _ => of_movedPort_eq_some) hw rfl
  have hu := hc.effect hreceive
  obtain ⟨hhops, hq', -⟩ := lacpSysUpdate_spec hu.idle hupdate
  exact (hc.receive hq ha hen (h.actor_key ha hlac) hw hu hhops hq').1

/-- A frame, for another port. -/
theorem ReachableBy.otherFrame (h : ReachableBy R w) (hstep : Step (.rxLacpdu slot port pdu) w w') :
    PortsKept w w' ∧ ∀ b ∈ w.sys.ports, (w.port b).rx.state = .current →
      (w.port b).portIndex ≠ globalIndex slot port → StaysCurrent (w.port b) (w'.port b) := by
  obtain ⟨hc, hq⟩ := h.coherent
  rcases exists_hops_of_rxLacpdu hc hstep with ⟨hsys, hport⟩ | ⟨a, ha, hindex, u, x, hw, hhops, hsys, hport⟩
  · rw [hport]
    refine ⟨⟨by rw [hsys], by rw [hport]; exact fun _ _ => rfl, ?_⟩, fun b _ hcurrent _ => ⟨hcurrent, rfl⟩⟩
    rw [hport]
    exact fun _ _ hlistens => hlistens.refl
  · have hkept : PortsKept w x := hw.portsKept h hhops (fun b _ => received_aggId ..) fun b _ hlistens =>
      hlistens.received
    refine ⟨⟨hsys ▸ hkept.ports, hport ▸ hkept.aggId, hport ▸ hkept.listensOn⟩,
      fun b hb hcurrent hother => ?_⟩
    have hba : b ≠ a := fun hba => hother (hba ▸ hindex)
    have hb' : u.port b = w.port b := by
      rw [hw.port b hb, received, if_neg hba]
      refine if_neg fun hmoved => ?_
      simp [(of_movedPort_eq_some hmoved).2.2.1] at hcurrent
    have hrest : lacpRxCheckConditions u b = none := by
      rw [lacpRxCheckConditions_congr (w := w) (by rw [hb'])]
      exact (hq b hb).1
    rw [hport]
    exact staysCurrent_of_hops hrest (hb' ▸ hcurrent) (by rw [hb']) hhops

end Steps

/-! ## The wires -/

/-- Wires between a link group of one system and a link group of another: the system `s` has the group
`group s`, and the end of wire `k` there is the port at `port s k`. -/
structure Trunk (ι : Type) where
  group : Bool → ℕ
  port : Bool → ι → Addr

/-- The frame says what the port has on record, of itself and of its partner. -/
def LacpPdu.Says (pdu : LacpPdu) (p : LacpPort) : Prop :=
  lacpCopyInfoFromNet pdu.actor = p.actor ∧ lacpCopyInfoFromNet pdu.partner = p.partner

namespace Trunk

variable {ι : Type}

/-- The record of an end. -/
def record (T : Trunk ι) (W : Bool → World) (s : Bool) (k : ι) : LacpPort := (W s).port (T.port s k)

/-- The systems are in reachable states, the ends of the wires are the members of the groups, and their
links are up. -/
structure Connects (T : Trunk ι) (W : Bool → World) : Prop where
  reachable : ∀ s, Reachable (W s)
  mem : ∀ s k, T.port s k ∈ (W s).sys.ports
  aggId : ∀ s k, (T.record W s k).aggId = T.group s
  only : ∀ s, ∀ a ∈ (W s).sys.ports, ((W s).port a).aggId = T.group s → ∃ k, a = T.port s k
  up : ∀ s k, (T.record W s k).portEnabled = true

/-- Between `W` and `W'` each system sees `n s` seconds pass, and its ends in `H s` hear from the other
system. No second is the last one in which an end knows its partner, and a frame for an end says what the other
end has on record when it arrives. -/
inductive Talk (T : Trunk ι) : (Bool → ℕ) → (Bool → Set ι) → (Bool → World) → (Bool → World) → Prop
  | done (W : Bool → World) : Talk T (fun _ => 0) (fun _ => ∅) W W
  | second {n : Bool → ℕ} {H : Bool → Set ι} {W W' : Bool → World} (s : Bool) {u : World}
      (hstep : Step .oneSecond (W s) u)
      (hcalm : ∀ k, (T.record W s k).rx.state = .current → (T.record W s k).currentWhile ≠ 1)
      (hrest : Talk T n H (Function.update W s u) W') : Talk T (Function.update n s (n s + 1)) H W W'
  | frame {n : Bool → ℕ} {H : Bool → Set ι} {W W' : Bool → World} (s : Bool) {u : World} {slot port : ℕ}
      {pdu : LacpPdu} (hstep : Step (.rxLacpdu slot port pdu) (W s) u)
      (hframe : ∀ k, (T.record W s k).portIndex = globalIndex slot port → pdu.Says (T.record W (!s) k))
      (hrest : Talk T n H (Function.update W s u) W') :
      Talk T n (Function.update H s (H s ∪ {k | (T.record W s k).portIndex = globalIndex slot port})) W W'

/-- The end has heard from the other end, and knows it as it is. -/
structure Knows (T : Trunk ι) (W : Bool → World) (s : Bool) (k : ι) : Prop where
  rx : (T.record W s k).rx.state = .current
  partner : (T.record W s k).partner.identity = (T.record W (!s) k).actor.identity

/-- The end has heard whether the other end is active. -/
def Told (T : Trunk ι) (V W : Bool → World) (s : Bool) (k : ι) : Prop :=
  (T.record W s k).partner.state.SYN = !(T.record V (!s) k).standby

section Events

variable {T : Trunk ι} {W : Bool → World} {u : World} {s t : Bool} {k : ι}

theorem record_update_self : T.record (Function.update W s u) s k = u.port (T.port s k) := by
  rw [record, Function.update_self]

theorem record_update_of_ne (h : t ≠ s) : T.record (Function.update W s u) t k = T.record W t k := by
  rw [record, Function.update_of_ne h, record]

theorem Connects.listens (h : T.Connects W) (s : Bool) (k : ι) : Listens (T.record W s k) :=
  (h.reachable s).listens (h.mem s k) (h.up s k)

/-- What happens to one of the systems leaves the other as it is. -/
theorem Connects.update (h : T.Connects W) (hreach : Reachable u) (hkept : PortsKept (W s) u) :
    T.Connects (Function.update W s u) where
  reachable := by
    exact (Function.forall_update_iff W fun _ w => Reachable w).mpr ⟨hreach, fun t _ => h.reachable t⟩
  mem := by
    refine (Function.forall_update_iff W fun t w => ∀ k, T.port t k ∈ w.sys.ports).mpr
      ⟨fun k => ?_, fun t _ => h.mem t⟩
    rw [hkept.ports]
    exact h.mem s k
  aggId := by
    refine (Function.forall_update_iff W fun t w => ∀ k, (w.port (T.port t k)).aggId = T.group t).mpr
      ⟨fun k => ?_, fun t _ => h.aggId t⟩
    rw [hkept.aggId _ (h.mem s k)]
    exact h.aggId s k
  only := by
    refine (Function.forall_update_iff W fun t w => ∀ a ∈ w.sys.ports, (w.port a).aggId = T.group t →
      ∃ k, a = T.port t k).mpr ⟨fun a ha hg => ?_, fun t _ => h.only t⟩
    rw [hkept.ports] at ha
    exact h.only s a ha (hkept.aggId a ha ▸ hg)
  up := by
    refine (Function.forall_update_iff W fun t w => ∀ k, (w.port (T.port t k)).portEnabled = true).mpr
      ⟨fun k => ?_, fun t _ => h.up t⟩
    exact (hkept.listensOn _ (h.mem s k) (h.listens s k)).listens.portEnabled

/-- The other end hears nothing new about an end that keeps its identity, and an end that stays as it is
knows what it knew. -/
theorem Knows.update (h : T.Connects W) (hknows : T.Knows W t k) (hkept : PortsKept (W s) u)
    (hstays : t = s → (T.record W s k).rx.state = .current →
      StaysCurrent (T.record W s k) (u.port (T.port s k))) : T.Knows (Function.update W s u) t k := by
  rcases eq_or_ne t s with rfl | hts
  · have hcurrent := hstays rfl hknows.rx
    refine ⟨?_, ?_⟩
    · rw [record_update_self]
      exact hcurrent.rx
    · rw [record_update_self, record_update_of_ne (Bool.not_ne_self t), hcurrent.partner]
      exact hknows.partner
  · obtain rfl : s = !t := by rwa [Bool.eq_not, ne_comm]
    refine ⟨?_, ?_⟩
    · rw [record_update_of_ne hts]
      exact hknows.rx
    · rw [record_update_of_ne hts, record_update_self,
        (hkept.listensOn _ (h.mem _ k) (h.listens _ k)).identity]
      exact hknows.partner

/-- An end that hears from the other end knows it. -/
theorem Connects.knows (h : T.Connects W) {slot port : ℕ} {pdu : LacpPdu}
    (hstep : Step (.rxLacpdu slot port pdu) (W s) u) (hframe : pdu.Says (T.record W (!s) k))
    (hindex : (T.record W s k).portIndex = globalIndex slot port) : T.Knows (Function.update W s u) s k := by
  have hdone := (h.reachable s).frame (h.mem s k) (h.up s k) hindex hstep
  refine ⟨?_, ?_⟩
  · rw [record_update_self]
    exact hdone.rx
  · rw [record_update_self, record_update_of_ne (Bool.not_ne_self s), ← hframe.1]
    exact (congrArg LacpPortInfo.identity hdone.partner).trans rfl

/-- A frame leaves what it does not teach. -/
theorem Knows.frame (h : T.Connects W) (hknows : T.Knows W t k) {slot port : ℕ} {pdu : LacpPdu}
    (hstep : Step (.rxLacpdu slot port pdu) (W s) u)
    (hframe : ∀ k, (T.record W s k).portIndex = globalIndex slot port → pdu.Says (T.record W (!s) k)) :
    T.Knows (Function.update W s u) t k := by
  obtain ⟨hkept, hstays⟩ := (h.reachable s).otherFrame hstep
  by_cases hhears : t = s ∧ (T.record W s k).portIndex = globalIndex slot port
  · obtain ⟨rfl, hindex⟩ := hhears
    exact h.knows hstep (hframe k hindex) hindex
  · exact hknows.update h hkept fun hts hcurrent =>
      hstays _ (h.mem s k) hcurrent fun hindex => hhears ⟨hts, hindex⟩

theorem Knows.second (h : T.Connects W) (hknows : T.Knows W t k) (hstep : Step .oneSecond (W s) u)
    (hcalm : ∀ k, (T.record W s k).rx.state = .current → (T.record W s k).currentWhile ≠ 1) :
    T.Knows (Function.update W s u) t k := by
  obtain ⟨hkept, hstays⟩ := (h.reachable s).second hstep
  exact hknows.update h hkept fun _ hcurrent =>
    hstays _ (h.mem s k) (h.listens s k) hcurrent (hcalm k hcurrent)

end Events

/-! ## Greetings -/

section Runs

variable {T : Trunk ι} {n m : Bool → ℕ} {H : Bool → Set ι} {V W W' : Bool → World} {u : World} {s : Bool}
  {slot port : ℕ} {pdu : LacpPdu}

/-- An end that has heard knows the other end, and goes on to know it. -/
theorem Talk.knows (h : T.Talk n H W W') (hc : T.Connects W) :
    T.Connects W' ∧ ∀ s k, T.Knows W s k ∨ k ∈ H s → T.Knows W' s k := by
  induction h with
  | done => exact ⟨hc, fun s k hknows => hknows.resolve_right (Set.notMem_empty k)⟩
  | @second n H W W' s u hstep hcalm _ ih =>
    have hreach := (hc.reachable s).step trivial hstep
    obtain ⟨hend, hthen⟩ := ih (hc.update hreach ((hc.reachable s).second hstep).1)
    refine ⟨hend, fun t k hknows => hthen t k ?_⟩
    exact hknows.imp_left fun hknows => hknows.second hc hstep hcalm
  | @frame n H W W' s u slot port pdu hstep hframe _ ih =>
    have hreach := (hc.reachable s).step trivial hstep
    obtain ⟨hend, hthen⟩ := ih (hc.update hreach ((hc.reachable s).otherFrame hstep).1)
    refine ⟨hend, fun t k hknows => hthen t k ?_⟩
    rcases hknows with hknows | hhears
    · exact .inl (hknows.frame hc hstep hframe)
    · rcases eq_or_ne t s with rfl | hts
      · rw [Function.update_self] at hhears
        rcases hhears with hhears | hindex
        · exact .inr hhears
        · exact .inl (hc.knows hstep (hframe k hindex) hindex)
      · rw [Function.update_of_ne hts] at hhears
        exact .inr hhears

/-! ## Waiting -/

/-- The ends know each other, and the groups are as they were in `V`, with at most `m s` seconds left to
wait. -/
structure Undisturbed (T : Trunk ι) (m : Bool → ℕ) (V W : Bool → World) : Prop where
  connects : T.Connects W
  knows : ∀ s k, T.Knows W s k
  alone : ∀ s, LeftAlone (T.group s) (m s) (V s) ∅ (W s)

/-- Nothing that a second does disturbs ends that know each other. -/
theorem Undisturbed.second (h : T.Undisturbed m V W) (hstep : Step .oneSecond (W s) u)
    (hcalm : ∀ k, (T.record W s k).rx.state = .current → (T.record W s k).currentWhile ≠ 1) :
    T.Undisturbed (Function.update m s (m s - 1)) V (Function.update W s u) where
  connects := h.connects.update ((h.connects.reachable s).step trivial hstep)
    ((h.connects.reachable s).second hstep).1
  knows := fun t k => (h.knows t k).second h.connects hstep hcalm
  alone := fun t => by
    rcases eq_or_ne t s with rfl | hts
    · have hsteady : Call.oneSecond.Steady (T.group t) (W t) := by
        intro b hb hg _
        obtain ⟨k, rfl⟩ := h.connects.only t b hb hg
        exact hcalm k (h.knows t k).rx
      rw [Function.update_self, Function.update_self]
      exact (h.alone t).trans ((h.alone t).refl.tick (h.connects.reachable t).coherent.1 hsteady hstep)
    · rw [Function.update_of_ne hts, Function.update_of_ne hts]
      exact h.alone t

/-- Nothing that arrives is news to an end that knows the other. -/
theorem Undisturbed.steady (h : T.Undisturbed m V W)
    (hframe : ∀ k, (T.record W s k).portIndex = globalIndex slot port → pdu.Says (T.record W (!s) k)) :
    (Call.rxLacpdu slot port pdu).Steady (T.group s) (W s) := by
  intro a ha hindex
  refine ⟨fun hg => ?_, fun b hb hg => ?_⟩
  · obtain ⟨k, rfl⟩ := h.connects.only s a ha hg
    rw [samePartner_iff_identity, (hframe k hindex).1]
    exact (h.knows s k).partner.symm
  · obtain ⟨hb, -, hdown, -⟩ := of_movedPort_eq_some hb
    obtain ⟨k, rfl⟩ := h.connects.only s b hb hg
    exact absurd (hdown.symm.trans (h.knows s k).rx) (by simp)

theorem Undisturbed.frame (h : T.Undisturbed m V W) (hgroup : T.group s ≠ 0)
    (hstep : Step (.rxLacpdu slot port pdu) (W s) u)
    (hframe : ∀ k, (T.record W s k).portIndex = globalIndex slot port → pdu.Says (T.record W (!s) k)) :
    T.Undisturbed m V (Function.update W s u) where
  connects := h.connects.update ((h.connects.reachable s).step trivial hstep)
    ((h.connects.reachable s).otherFrame hstep).1
  knows := fun t k => (h.knows t k).frame h.connects hstep hframe
  alone := fun t => by
    rcases eq_or_ne t s with rfl | hts
    · obtain ⟨hcoherent, hq⟩ := (h.connects.reachable t).coherent
      rw [Function.update_self]
      exact (h.alone t).trans ((h.alone t).refl.call hcoherent hq hgroup (by simp) (h.steady hframe) hstep)
    · rw [Function.update_of_ne hts]
      exact h.alone t

theorem Talk.undisturbed (h : T.Talk n H W W') (hgroup : ∀ s, T.group s ≠ 0) (hu : T.Undisturbed m V W) :
    T.Undisturbed (fun s => m s - n s) V W' := by
  induction h generalizing m with
  | done => exact hu
  | @second n H W W' s u hstep hcalm _ ih =>
    convert ih (hu.second hstep hcalm) using 2 with t
    rcases eq_or_ne t s with rfl | hts
    · rw [Function.update_self, Function.update_self, Nat.sub_sub, Nat.add_comm]
    · rw [Function.update_of_ne hts, Function.update_of_ne hts]
  | frame s hstep hframe _ ih => exact ih (hu.frame (hgroup s) hstep hframe)

/-! ## The second greeting -/

theorem Undisturbed.standby (h : T.Undisturbed m V W) (s : Bool) (k : ι) :
    (T.record W s k).standby = (T.record V s k).standby :=
  ((h.alone s).member _ (h.connects.mem s k) (h.connects.aggId s k)).standby

/-- Groups that have nothing left to wait for are settled. -/
theorem Undisturbed.settled (h : T.Undisturbed m V W) (hm : ∀ s, m s = 0) (s : Bool) (k : ι) :
    Settled (T.record W s k) ((W s).gPortList (T.record W s k).portIndex) :=
  LeftAlone.settled (h.connects.reachable s) (hm s ▸ h.alone s) (h.connects.mem s k) (h.connects.aggId s k)

/-- An end that hears from a settled end is told whether that end is active. -/
theorem Undisturbed.told (h : T.Undisturbed m V W) (hm : ∀ s, m s = 0) {k : ι}
    (hstep : Step (.rxLacpdu slot port pdu) (W s) u) (hframe : pdu.Says (T.record W (!s) k))
    (hindex : (T.record W s k).portIndex = globalIndex slot port) : T.Told V (Function.update W s u) s k := by
  have hdone := (h.connects.reachable s).frame (h.connects.mem s k) (h.connects.up s k) hindex hstep
  have hother := h.settled hm (!s) k
  have hmode := (h.connects.reachable (!s)).activeMode _ (h.connects.mem (!s) k)
  have hstate : pdu.actor.state = (T.record W (!s) k).actor.state := by
    rw [← hframe.1]
    rfl
  have hact : pdu.actor.state.ACT = true := by
    rw [hstate]
    exact hmode.actor (by rw [show ((W !s).port (T.port (!s) k)).rx.state = _ from (h.knows (!s) k).rx]; simp)
  have hsame : samePartner (lacpCopyInfoFromNet pdu.partner) (T.record W s k).actor = true := by
    rw [samePartner_iff_identity, hframe.2, (h.knows (!s) k).partner, Bool.not_not]
  have hspeaks : SpeaksOf pdu ((W s).port (T.port s k)).actor := ⟨.inl hsame, .inl hact⟩
  have hsyn : pdu.actor.state.SYN = !(T.record V (!s) k).standby := by
    rw [hstate, hother.actorSYN, h.standby]
  rw [Told, record_update_self, Bool.eq_iff_iff, hdone.partnerSYN, hsyn]
  exact and_iff_left hspeaks

/-- What an end was told stays with it. -/
theorem Told.update {t : Bool} {k : ι} (h : T.Told V W t k) (hcurrent : (T.record W t k).rx.state = .current)
    (hstays : t = s → (T.record W s k).rx.state = .current →
      StaysCurrent (T.record W s k) (u.port (T.port s k))) : T.Told V (Function.update W s u) t k := by
  rcases eq_or_ne t s with rfl | hts
  · rw [Told, record_update_self, (hstays rfl hcurrent).partner]
    exact h
  · rw [Told, record_update_of_ne hts]
    exact h

/-- An end that has heard from a settled end was told, and goes on to know. -/
theorem Talk.told (h : T.Talk n H W W') (hgroup : ∀ s, T.group s ≠ 0) (hu : T.Undisturbed m V W)
    (hm : ∀ s, m s = 0) : ∀ s k, T.Told V W s k ∨ k ∈ H s → T.Told V W' s k := by
  induction h generalizing m with
  | done => exact fun s k htold => htold.resolve_right (Set.notMem_empty k)
  | @second n H W W' s u hstep hcalm _ ih =>
    refine fun t k htold => ih (hu.second hstep hcalm) (fun t => ?_) t k (htold.imp_left fun htold => ?_)
    · rcases eq_or_ne t s with rfl | hts
      · rw [Function.update_self, hm]
      · rw [Function.update_of_ne hts, hm]
    · obtain ⟨-, hstays⟩ := (hu.connects.reachable s).second hstep
      exact htold.update (hu.knows t k).rx fun _ hcurrent =>
        hstays _ (hu.connects.mem s k) (hu.connects.listens s k) hcurrent (hcalm k hcurrent)
  | @frame n H W W' s u slot port pdu hstep hframe _ ih =>
    refine fun t k htold => ih (hu.frame (hgroup s) hstep hframe) hm t k ?_
    by_cases hhears : t = s ∧ (T.record W s k).portIndex = globalIndex slot port
    · obtain ⟨rfl, hindex⟩ := hhears
      exact .inl (hu.told hm hstep (hframe k hindex) hindex)
    · rcases htold with htold | hheard
      · obtain ⟨-, hstays⟩ := (hu.connects.reachable s).otherFrame hstep
        exact .inl (htold.update (hu.knows t k).rx fun hts hcurrent =>
          hstays _ (hu.connects.mem s k) hcurrent fun hindex => hhears ⟨hts, hindex⟩)
      · rcases eq_or_ne t s with rfl | hts
        · rw [Function.update_self] at hheard
          exact .inr (hheard.resolve_right fun hindex => hhears ⟨rfl, hindex⟩)
        · rw [Function.update_of_ne hts] at hheard
          exact .inr hheard

/-- An end keeps its identity. -/
theorem Talk.listensOn (h : T.Talk n H W W') (hc : T.Connects W) (s : Bool) (k : ι) :
    ListensOn (T.record W s k) (T.record W' s k) := by
  have hupdate : ∀ {W : Bool → World} {t : Bool} {u : World}, T.Connects W → PortsKept (W t) u →
      ListensOn (T.record W s k) (T.record (Function.update W t u) s k) := by
    intro W t u hc hkept
    rcases eq_or_ne s t with rfl | hts
    · rw [record_update_self]
      exact hkept.listensOn _ (hc.mem s k) (hc.listens s k)
    · rw [record_update_of_ne hts]
      exact (hc.listens s k).refl
  induction h with
  | done => exact (hc.listens s k).refl
  | @second n H W W' t u hstep hcalm _ ih =>
    have hkept := ((hc.reachable t).second hstep).1
    exact (hupdate hc hkept).trans (ih (hc.update ((hc.reachable t).step trivial hstep) hkept))
  | @frame n H W W' t u slot port pdu hstep hframe _ ih =>
    have hkept := ((hc.reachable t).otherFrame hstep).1
    exact (hupdate hc hkept).trans (ih (hc.update ((hc.reachable t).step trivial hstep) hkept))

end Runs

/-! ## Groups that are alike -/

/-- The ends of each system have one key and one system, are aggregatable and at full duplex; and the two
systems differ. -/
structure Alike (T : Trunk ι) (W : Bool → World) : Prop where
  agg : ∀ s k, (T.record W s k).actor.state.AGG = true
  duplex : ∀ s k, (T.record W s k).duplex ≠ 0
  key : ∀ s k l, (T.record W s k).actor.key = (T.record W s l).actor.key
  systemPriority : ∀ s k l, (T.record W s k).actor.systemPriority = (T.record W s l).actor.systemPriority
  systemMac : ∀ s k l, (T.record W s k).actor.systemMac = (T.record W s l).actor.systemMac
  systems : ∀ s k l, (T.record W s k).actor.systemMac ≠ (T.record W (!s) l).actor.systemMac

section Alike

variable {T : Trunk ι} {W W' : Bool → World} {s : Bool} {k : ι}

theorem Alike.congr (h : T.Alike W) (hkept : ∀ s k, ListensOn (T.record W s k) (T.record W' s k)) : T.Alike W' := by
  have hsame := fun s k => Prod.mk.injEq .. ▸ (hkept s k).identity
  simp only [Prod.mk.injEq] at hsame
  constructor
  · intro s k
    rw [(hsame s k).2.2.2.2.2]
    exact h.agg s k
  · intro s k
    rw [(hkept s k).duplex]
    exact h.duplex s k
  · intro s k l
    rw [(hsame s k).2.2.2.2.1, (hsame s l).2.2.2.2.1]
    exact h.key s k l
  · intro s k l
    rw [(hsame s k).2.2.1, (hsame s l).2.2.1]
    exact h.systemPriority s k l
  · intro s k l
    rw [(hsame s k).2.2.2.1, (hsame s l).2.2.2.1]
    exact h.systemMac s k l
  · intro s k l
    rw [(hsame s k).2.2.2.1, (hsame (!s) l).2.2.2.1]
    exact h.systems s k l

/-- Where no selection is stale, ends that know each other in groups that are alike are all active. -/
theorem Alike.active (h : T.Alike W) (hc : T.Connects W) (hknows : ∀ s k, T.Knows W s k)
    (hfresh : SelectionFresh (W s) (T.group s)) : (T.record W s k).standby = false := by
  have hpartner := fun k => (hknows s k).partner
  simp only [LacpPortInfo.identity, Prod.mk.injEq] at hpartner
  have ha := hc.mem s k
  have hmember := mem_groupMembers.mpr ⟨ha, hc.aggId s k⟩
  obtain ⟨-, hstandby, -, -⟩ := selectionFresh_iff.mp hfresh _ hmember
  -- refreshing the keys changes nothing
  have hsame : ∀ k, (updatePortInfo (W s) (T.group s)).port (T.port s k) = T.record W s k := by
    intro k
    rw [updatePortInfo_member (hc.mem s k) (hc.aggId s k),
      ← (hc.reachable s).actor_key (hc.mem s k) (hc.listens s k).lacpEnabled]
    rfl
  rw [record, hstandby]
  cases hbest : electedMaster (W s) (T.group s) with
  | none =>
    have heligible : Eligible (T.group s) (T.record W s k) :=
      ⟨hc.aggId s k, hc.up s k, (hc.listens s k).lacpEnabled, h.duplex s k⟩
    exact absurd heligible (electedMaster_eq_none.mp hbest _ ha)
  | some best =>
    obtain ⟨hb, hbg, -⟩ := electedMaster_eq_some hbest
    obtain ⟨l, rfl⟩ := hc.only s best hb hbg
    have hjoins : joinsBest (T.record W s k) (T.record W s l) = true := by
      obtain ⟨-, -, hprio, hmac, hkey, hagg⟩ := hpartner k
      obtain ⟨-, -, hprio', hmac', hkey', hagg'⟩ := hpartner l
      simp only [joinsBest, hc.up s k, (hc.listens s k).lacpEnabled, h.key s k l, hprio, hprio', hmac, hmac', hkey,
        hkey', hagg, hagg', h.agg, h.key (!s) k l, h.systemPriority (!s) k l, h.systemMac (!s) k l, beq_self_eq_true,
        Bool.and_self]
    have hlone : partnersAport (updatePortInfo (W s) (T.group s)) (T.port s k) = false := by
      refine Bool.eq_false_iff.mpr fun hloop => ?_
      obtain ⟨p, hp, hloop⟩ := List.any_eq_true.mp hloop
      simp only [Bool.and_eq_true, beq_iff_eq, hsame] at hloop
      obtain ⟨⟨⟨⟨⟨hgroup, -⟩, hmac⟩, -⟩, -⟩, -⟩ := hloop
      obtain ⟨key, hkeyed⟩ := updatePortInfo_keyed (W s) (T.group s) p
      rw [hkeyed, hc.aggId s k] at hgroup
      obtain ⟨j, rfl⟩ := hc.only s p hp hgroup.symm
      rw [hsame, (hpartner k).2.2.2.1] at hmac
      exact h.systems s j k hmac
    simp only [selectedStandby, hbest, hsame, hjoins, hlone, Bool.not_false, Bool.and_self, Bool.not_true]

end Alike

end Trunk

/-! ## Both ends -/

/-- Every end hears from the other end. -/
def Trunk.Greets {ι : Type} (T : Trunk ι) (W W' : Bool → World) : Prop :=
  ∃ n H, T.Talk n H W W' ∧ ∀ s k, k ∈ H s

/-- Both systems see `aggregate_wait_time` seconds pass. -/
def Trunk.Waits {ι : Type} (T : Trunk ι) (W W' : Bool → World) : Prop :=
  ∃ n H, T.Talk n H W W' ∧ ∀ s, (W s).sys.aggregateWaitTime.toNat ≤ n s

/-- The end forwards if both ends of the wire are active, waits for the other end if only that one is in
standby, and is detached if it is in standby itself. -/
structure Trunk.Agreed {ι : Type} (T : Trunk ι) (W : Bool → World) (s : Bool) (k : ι) : Prop where
  mux : (T.record W s k).mux.state =
    if (T.record W s k).standby then .detached else if (T.record W (!s) k).standby then .attached else .rxTx
  cd : ((W s).gPortList (T.record W s k).portIndex).cd =
    if (T.record W s k).standby || (T.record W (!s) k).standby then 0 else 1

section Both

variable {ι : Type} {T : Trunk ι} {W₀ W₁ W₂ W₃ : Bool → World}

/-- Ends that know each other agree when both systems have waited and every end has heard again. -/
theorem Trunk.Connects.agreed (hconnects : T.Connects W₁) (hgroup : ∀ s, T.group s ≠ 0)
    (hknows : ∀ s k, T.Knows W₁ s k) (hwaits : T.Waits W₁ W₂) (hagain : T.Greets W₂ W₃) (s : Bool) (k : ι) :
    (T.record W₃ s k).standby = (T.record W₁ s k).standby ∧ T.Agreed W₃ s k := by
  obtain ⟨n, H, hwait, hlong⟩ := hwaits
  obtain ⟨n', H', hagain, hall⟩ := hagain
  have h₁ : T.Undisturbed (fun s => (W₁ s).sys.aggregateWaitTime.toNat) W₁ W₁ :=
    ⟨hconnects, hknows, fun s => (hconnects.reachable s).leftAlone _⟩
  have h₂ := hwait.undisturbed hgroup h₁
  have hzero : ∀ s, (W₁ s).sys.aggregateWaitTime.toNat - n s = 0 := fun s => Nat.sub_eq_zero_of_le (hlong s)
  have h₃ := hagain.undisturbed hgroup h₂
  have hsettled := h₃.settled (fun s => by rw [hzero, Nat.zero_sub]) s k
  have htold := hagain.told hgroup h₂ hzero s k (.inr (hall s k))
  rw [Trunk.Told, ← h₃.standby] at htold
  refine ⟨h₃.standby s k, ?_, ?_⟩
  · rw [hsettled.mux, htold]
    cases (T.record W₃ s k).standby <;> cases (T.record W₃ (!s) k).standby <;> rfl
  · rw [hsettled.cd, htold]
    cases (T.record W₃ s k).standby <;> cases (T.record W₃ (!s) k).standby <;> rfl

theorem Trunk.Greets.knows (h : T.Greets W₀ W₁) (hconnects : T.Connects W₀) :
    T.Connects W₁ ∧ ∀ s k, T.Knows W₁ s k := by
  obtain ⟨n, H, htalk, hall⟩ := h
  obtain ⟨hconnects', hknows⟩ := htalk.knows hconnects
  exact ⟨hconnects', fun s k => hknows s k (.inr (hall s k))⟩

/-- Two link groups are wired to each other, in whatever states the two systems are. Once every end has
heard from the other end, `aggregate_wait_time` seconds have passed at both systems, and every end has
heard again, both ends of every wire forward that has both ends active, and no other end does; in all this
time no end loses its partner, and frames are up to date when they arrive (`Trunk.Talk`). -/
theorem reachable_trunkAgreed (hgroup : ∀ s, T.group s ≠ 0) (hconnects : T.Connects W₀)
    (hgreets : T.Greets W₀ W₁) (hwaits : T.Waits W₁ W₂) (hagain : T.Greets W₂ W₃) (s : Bool) (k : ι) :
    (T.record W₃ s k).standby = (T.record W₁ s k).standby ∧ T.Agreed W₃ s k := by
  obtain ⟨hconnects₁, hknows⟩ := hgreets.knows hconnects
  exact hconnects₁.agreed hgroup hknows hwaits hagain s k

/-- If the groups are alike, and the runs of the two systems up to the first greeting keep the selections, all
ends forward in the end. -/
theorem reachableBy_trunkForwards (hgroup : ∀ s, T.group s ≠ 0) (hconnects : T.Connects W₀) (halike : T.Alike W₀)
    (hgreets : T.Greets W₀ W₁) (hkeeps : ∀ s, ReachableBy (fun w c => c.KeepsSelections w) (W₁ s))
    (hwaits : T.Waits W₁ W₂) (hagain : T.Greets W₂ W₃) (s : Bool) (k : ι) :
    (T.record W₃ s k).mux.state = .rxTx ∧ ((W₃ s).gPortList (T.record W₃ s k).portIndex).cd = 1 := by
  obtain ⟨hconnects₁, hknows⟩ := hgreets.knows hconnects
  obtain ⟨n, H, htalk, -⟩ := hgreets
  have hactive : ∀ s k, (T.record W₁ s k).standby = false := fun s k =>
    (halike.congr (htalk.listensOn hconnects)).active hconnects₁ hknows
      (hconnects₁.aggId s k ▸ (hkeeps s).selectionFresh (hconnects₁.mem s k))
  have hend : ∀ s k, (T.record W₃ s k).standby = false := fun s k =>
    (hconnects₁.agreed hgroup hknows hwaits hagain s k).1.trans (hactive s k)
  obtain ⟨hmux, hcd⟩ := (hconnects₁.agreed hgroup hknows hwaits hagain s k).2
  rw [hend s k, hend (!s) k] at hmux hcd
  exact ⟨hmux, hcd⟩

end Both

/-! ## A run

Two systems, each with two ports in a link group, are wired to each other by two wires.
-/

/-- A second at one system, or a frame for one end. -/
inductive TrunkEvent
  | second (s : Bool)
  | hear (s : Bool) (k : Fin 2)
  deriving DecidableEq

/-- What happens to which system, if it may. -/
def Trunk.call (T : Trunk (Fin 2)) (W : Bool → World) : TrunkEvent → Option (Bool × Call)
  | .second s =>
    if ∀ k, (T.record W s k).rx.state = .current → (T.record W s k).currentWhile ≠ 1 then some (s, .oneSecond)
    else none
  | .hear s k =>
    let i := (T.record W s k).portIndex
    if ∀ j, (T.record W s j).portIndex = i → j = k then
      some (s, .rxLacpdu (i / 8) (i % 8 + 1) (lacpduPacket (W !s).pid (T.record W (!s) k)))
    else none

def Trunk.runEvent (T : Trunk (Fin 2)) (fuel : ℕ) (W : Bool → World) (e : TrunkEvent) :
    Option (Bool → World) := do
  let (s, c) ← T.call W e
  if c.InRange ∧ c.KeepsSelections (W s) then
    let (u, _) ← runCall fuel (W s) c
    return Function.update W s u
  else none

section Run

variable {T : Trunk (Fin 2)} {fuel : ℕ} {W W' : Bool → World} {e : TrunkEvent} {events : List TrunkEvent}

theorem exists_step_of_runEvent (h : T.runEvent fuel W e = some W') : ∃ s c u, T.call W e = some (s, c) ∧
    c.KeepsSelections (W s) ∧ Step c (W s) u ∧ W' = Function.update W s u := by
  obtain ⟨⟨s, c⟩, hcall, hrest⟩ := Option.bind_eq_some_iff.mp h
  simp only at hrest
  split at hrest
  · rename_i hok
    obtain ⟨⟨u, ret⟩, hrun, hend⟩ := Option.bind_eq_some_iff.mp hrest
    exact ⟨s, c, u, hcall, hok.2, ⟨hok.1, fuel, ret, hrun⟩, (Option.some.inj hend).symm⟩
  · cases hrest

theorem keepsSelections_of_runEvents (h : events.foldlM (T.runEvent fuel) W = some W')
    (hkeeps : ∀ s, ReachableBy (fun w c => c.KeepsSelections w) (W s)) (s : Bool) :
    ReachableBy (fun w c => c.KeepsSelections w) (W' s) := by
  induction events generalizing W with
  | nil =>
    obtain rfl := Option.some.inj h
    exact hkeeps s
  | cons e events ih =>
    rw [List.foldlM_cons] at h
    obtain ⟨V, hfirst, hrest⟩ := Option.bind_eq_some_iff.mp h
    obtain ⟨t, c, u, -, hok, hstep, rfl⟩ := exists_step_of_runEvent hfirst
    refine ih hrest fun s => ?_
    rcases eq_or_ne s t with rfl | hst
    · rw [Function.update_self]
      exact (hkeeps s).step hok hstep
    · rw [Function.update_of_ne hst]
      exact hkeeps s

theorem exists_talk_of_runEvents (h : events.foldlM (T.runEvent fuel) W = some W') :
    ∃ n H, T.Talk n H W W' ∧ (∀ s, n s = events.count (.second s)) ∧ ∀ s k, .hear s k ∈ events → k ∈ H s := by
  induction events generalizing W with
  | nil =>
    obtain rfl := Option.some.inj h
    exact ⟨_, _, .done W, fun _ => rfl, fun _ _ hin => absurd hin List.not_mem_nil⟩
  | cons e events ih =>
    rw [List.foldlM_cons] at h
    obtain ⟨V, hfirst, hrest⟩ := Option.bind_eq_some_iff.mp h
    obtain ⟨n, H, htalk, hn, hH⟩ := ih hrest
    obtain ⟨t, c, u, hcall, -, hstep, rfl⟩ := exists_step_of_runEvent hfirst
    cases e with
    | second s =>
      obtain ⟨hcalm, hcall⟩ := Option.ite_none_right_eq_some.mp hcall
      obtain ⟨rfl, rfl⟩ := Prod.mk.inj (Option.some.inj hcall)
      refine ⟨_, _, .second s hstep hcalm htalk, fun t => ?_, fun t k hin => hH t k (by simpa using hin)⟩
      rcases eq_or_ne t s with rfl | hts
      · rw [Function.update_self, hn, List.count_cons_self]
      · rw [Function.update_of_ne hts, hn, List.count_cons_of_ne]
        simpa using hts.symm
    | hear s k =>
      obtain ⟨honly, hcall⟩ := Option.ite_none_right_eq_some.mp hcall
      obtain ⟨rfl, rfl⟩ := Prod.mk.inj (Option.some.inj hcall)
      have hindex : globalIndex ((T.record W s k).portIndex / 8) ((T.record W s k).portIndex % 8 + 1) =
          (T.record W s k).portIndex := by
        simp only [globalIndex]
        omega
      refine ⟨_, _, .frame s hstep (fun j hj => ?_) htalk, fun t => ?_, fun t j hin => ?_⟩
      · obtain rfl := honly j (hj.trans hindex)
        exact ⟨lacpCopyInfoFromNet_lacpInfoToNet _, lacpCopyInfoFromNet_lacpInfoToNet _⟩
      · rw [hn, List.count_cons_of_ne (by simp)]
      · rcases List.mem_cons.mp hin with heq | hlater
        · obtain ⟨rfl, rfl⟩ := TrunkEvent.hear.inj heq
          rw [Function.update_self]
          exact .inr hindex.symm
        · rcases eq_or_ne t s with rfl | hts
          · rw [Function.update_self]
            exact .inl (hH t j hlater)
          · rw [Function.update_of_ne hts]
            exact hH t j hlater

end Run

/-- Ports 0/1 and 0/2 of group 1 are wired to ports 0/3 and 0/4 of group 2. -/
def wiredTrunk : Trunk (Fin 2) where
  group := fun s => if s then 1 else 2
  port := fun _ k => k

/-- The calls that set up one of the systems. -/
def trunkSetup : Bool → List Call
  | true => [.setPortLinkStatus 0 1, .setPortLinkStatus 1 1, .portLacpEnable 0 1 1 .zero, .portLacpEnable 0 2 1 .zero]
  | false => [.setPortLinkStatus 2 1, .setPortLinkStatus 3 1, .portLacpEnable 0 3 2 .zero, .portLacpEnable 0 4 2 .zero]

/-- Every end hears. -/
def greeting : List TrunkEvent := [.hear true 0, .hear false 1, .hear false 0, .hear true 1]

/-- The two systems when they are set up. -/
def trunkStart (s : Bool) : World :=
  (runCalls (fun w c => decide (c.KeepsSelections w)) 40 (initWorld (if s then 77 else 88)) (trunkSetup s)).getD
    (initWorld 0)

theorem reachableBy_trunkStart (s : Bool) : ReachableBy (fun w c => c.KeepsSelections w) (trunkStart s) := by
  have hrun : (runCalls (fun w c => decide (c.KeepsSelections w)) 40 (initWorld (if s then 77 else 88))
      (trunkSetup s)).any (fun _ => true) = true := by
    revert s
    decide +kernel
  obtain ⟨w, h, hw, -⟩ := exists_reachableBy_of_runCalls (by revert s; decide)
    (fun _ _ htest => of_decide_eq_true htest) hrun
  rw [trunkStart, hw]
  exact h

theorem connects_trunkStart : wiredTrunk.Connects trunkStart where
  reachable := fun s => (reachableBy_trunkStart s).reachable
  mem := by decide +kernel
  aggId := by decide +kernel
  only := by decide +kernel
  up := by decide +kernel

theorem alike_trunkStart : wiredTrunk.Alike trunkStart := by
  constructor <;> decide +kernel

/-- The two systems greet, wait for two seconds each, and greet again. -/
theorem exists_greetedTrunk : ∃ W₁ W₂ W₃, wiredTrunk.Greets trunkStart W₁ ∧
    (∀ s, ReachableBy (fun w c => c.KeepsSelections w) (W₁ s)) ∧ wiredTrunk.Waits W₁ W₂ ∧
      wiredTrunk.Greets W₂ W₃ := by
  have hrun : ((greeting.foldlM (wiredTrunk.runEvent 40) trunkStart).bind fun W₁ =>
      (([.second true, .second false, .second false, .second true] : List TrunkEvent).foldlM
        (wiredTrunk.runEvent 40) W₁).bind fun W₂ => greeting.foldlM (wiredTrunk.runEvent 40) W₂).isSome = true := by
    decide +kernel
  obtain ⟨W₃, hrun⟩ := Option.isSome_iff_exists.mp hrun
  obtain ⟨W₁, hfirst, hrun⟩ := Option.bind_eq_some_iff.mp hrun
  obtain ⟨W₂, hthen, hlast⟩ := Option.bind_eq_some_iff.mp hrun
  have hhears : ∀ s k, TrunkEvent.hear s k ∈ greeting := by decide
  have hkeeps := keepsSelections_of_runEvents hfirst reachableBy_trunkStart
  obtain ⟨n, H, hgreet, -, hH⟩ := exists_talk_of_runEvents hfirst
  obtain ⟨n', H', hwait, hn, -⟩ := exists_talk_of_runEvents hthen
  obtain ⟨n'', H'', hagain, -, hH'⟩ := exists_talk_of_runEvents hlast
  refine ⟨W₁, W₂, W₃, ⟨n, H, hgreet, fun s k => hH s k (hhears s k)⟩, hkeeps, ⟨n', H', hwait, fun s => ?_⟩,
    ⟨n'', H'', hagain, fun s k => hH' s k (hhears s k)⟩⟩
  rw [(hkeeps s).coherent.1.aggregateWaitTime, hn]
  cases s <;> decide

theorem greetedTrunk_agreed : ∃ W₁ W₂ W₃, wiredTrunk.Greets trunkStart W₁ ∧ wiredTrunk.Waits W₁ W₂ ∧
    wiredTrunk.Greets W₂ W₃ ∧ wiredTrunk.Agreed W₃ true 0 := by
  obtain ⟨W₁, W₂, W₃, hgreets, -, hwaits, hagain⟩ := exists_greetedTrunk
  exact ⟨W₁, W₂, W₃, hgreets, hwaits, hagain,
    (reachable_trunkAgreed (by decide) connects_trunkStart hgreets hwaits hagain true 0).2⟩

theorem greetedTrunk_forwards : ∃ W₁ W₂ W₃, wiredTrunk.Greets trunkStart W₁ ∧ wiredTrunk.Waits W₁ W₂ ∧
    wiredTrunk.Greets W₂ W₃ ∧ (wiredTrunk.record W₃ false 1).mux.state = .rxTx := by
  obtain ⟨W₁, W₂, W₃, hgreets, hkeeps, hwaits, hagain⟩ := exists_greetedTrunk
  exact ⟨W₁, W₂, W₃, hgreets, hwaits, hagain, (reachableBy_trunkForwards (by decide) connects_trunkStart
    alike_trunkStart hgreets hkeeps hwaits hagain false 1).1⟩

end Lacp
