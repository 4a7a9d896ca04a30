import Lacp.Masters
import Lacp.Readiness
import Lacp.Silence

/-!
# A link group that is left alone

Reference: `lacp_mux_check_conditions`, `sys_is_ready`, `lacp_one_second`.

A port that is selected waits for `aggregate_wait_time` seconds, and then for the other members of its
group, before it is attached; it forwards as soon as its partner is in sync. Nothing else holds it up: when
a group was left alone for that long, its active ports are attached, those with a partner in sync forward,
and the others are detached (`reachable_settled`). A group is left alone while no call names one of its
members or makes a port join, no frame brings a member a new partner or, wherever it arrives, marks one as
moved, and no partner falls silent (`Call.Steady`). Meanwhile no member is deselected (`Settling`), so no mux
machine goes back to `MUX_WAITING`.
-/

namespace Lacp

open Relation (ReflTransGen)

/-! ## The wait timer -/

/-- The wait timer is bounded by the wait time, and a port that has waited is ready. -/
def WaitBounded (w : World) : Prop :=
  ∀ a ∈ w.sys.ports,
    ((w.port a).mux.state = .waiting → (w.port a).waitWhile.toNat ≤ w.sys.aggregateWaitTime.toNat) ∧
      ((w.port a).Waited → (w.port a).readyN = true)

section Wait

variable {R : World → Call → Prop} {c : Call} {E E' : Set ℕ} {w w' : World} {b : Addr} {q : LacpPort}

/-- The mux machine starts the timer with the wait time, and a port gets ready before it is attached. -/
theorem PortHop.waitBounded (h : PortHop w b q)
    (hwait : (w.port b).mux.state = .waiting → (w.port b).waitWhile.toNat ≤ w.sys.aggregateWaitTime.toNat)
    (hready : (w.port b).Waited → (w.port b).readyN = true) :
    (q.mux.state = .waiting → q.waitWhile.toNat ≤ w.sys.aggregateWaitTime.toNat) ∧
      (q.Waited → q.readyN = true) := by
  cases h with
  | same | deselect | selDisabled | selAlone | select => exact ⟨hwait, hready⟩
  | @rx s => cases s <;> exact ⟨hwait, hready⟩
  | @tx s => cases s <;> exact ⟨hwait, hready⟩
  | @mux s _ guard =>
    have hwaited : ∀ {s}, s = .attached ∨ s = .rxTx → lacpMuxCheckConditions w b = some s →
        (w.port b).readyN = true := by
      rintro s hs guard
      cases muxGuard_of_check guard with
      | off | reset | select | waited | abandon | detach => simp at hs
      | attach _ hs' => exact hready (.inl hs')
      | sync _ hs' => exact hready (.inr (.inl hs'))
      | desync _ hs' => exact hready (.inr (.inr hs'))
    cases s with
    | waiting =>
      refine ⟨fun _ => le_rfl, ?_⟩
      rintro (hs | hs | hs) <;> cases hs
    | readyN => exact ⟨by rintro ⟨⟩, fun _ => rfl⟩
    | attached => exact ⟨by rintro ⟨⟩, fun _ => hwaited (.inl rfl) guard⟩
    | rxTx => exact ⟨by rintro ⟨⟩, fun _ => hwaited (.inr rfl) guard⟩
    | begin | disable | detached =>
      refine ⟨by rintro ⟨⟩, ?_⟩
      rintro (hs | hs | hs) <;> cases hs

/-- No write starts the timer. -/
theorem PortWrite.waitWhile_le (h : PortWrite R c E w b q) : q.waitWhile.toNat ≤ (w.port b).waitWhile.toNat := by
  cases h with
  | link =>
    simp only [linkChangedPort]
    split <;> exact le_rfl
  | tick => exact (decrementTimer_toNat _).trans_le (Nat.sub_le _ _)
  | same | deselect | prio | stat | receive | moved | notify | leave => exact le_rfl

theorem WaitBounded.effect (hc : Coherent E w) (h : WaitBounded w)
    (heffect : Effect R c (E, w) (E', w')) : WaitBounded w' := by
  have hwait : w'.sys.aggregateWaitTime = w.sys.aggregateWaitTime := by
    rw [hc.aggregateWaitTime, (hc.effect heffect).aggregateWaitTime]
  intro b hb
  cases heffect.cases hc with
  | hop hop =>
    obtain ⟨hwaiting, hready⟩ := h b (hop.engineHop.sys_eq ▸ hb)
    rw [hwait]
    exact (hop.engineHop.portHop b).waitBounded hwaiting hready
  | setSys _ _ _ _ hw =>
    have hb' : b ∈ w.sys.ports := hw.ports ▸ hb
    rw [hw.port b hb', hwait]
    exact h b hb'
  | write _ _ _ hports =>
    cases hports b hb with
    | write hb' hwrite =>
      obtain ⟨hwaiting, hready⟩ := h b hb'
      have hcore := hwrite.core
      simp only [LacpPort.core, Prod.mk.injEq] at hcore
      rw [LacpPort.Waited, hcore.2.2.2.1, hwrite.ready_eq.1, hwait]
      exact ⟨fun hs => hwrite.waitWhile_le.trans (hwaiting hs), hready⟩
    | join hb' _ _ _ _ _ _ _ hport | reselect hb' _ _ _ _ _ _ hport =>
      rw [hport, hwait]
      exact h b hb'
    | create _ _ _ _ _ _ hport =>
      rw [hport]
      refine ⟨by rintro ⟨⟩, ?_⟩
      rintro (hs | hs | hs) <;> cases hs

end Wait

theorem ReachableBy.waitBounded {R : World → Call → Prop} {w : World} (h : ReachableBy R w) :
    WaitBounded w :=
  h.invariant_of_effects (P := fun _ => WaitBounded) (fun _ _ ha => nomatch ha)
    fun hc hP heffect => hP.effect hc heffect

/-! ## A member of the group -/

/-- The port keeps its partner: it is selected, and its receive machine can only hear what it knows. -/
structure KeepsPartner (p : LacpPort) : Prop where
  enabled : p.lacpEnabled = true
  selected : p.selected = true
  sel : p.sel.state = .selection
  linkDown : p.portEnabled = false → p.rx.state = .portDisabled
  linkUp : p.portEnabled = true → p.rx.state = .current ∨ p.rx.state = .expired ∨ p.rx.state = .defaulted
  moved : p.portMoved = false
  running : p.rx.state = .expired ∨ p.rx.state = .current → p.currentWhile ≠ 0
  rcvd : p.rcvdLacpdu = true → samePartner p.msgActor p.partner = true

/-- A member of a group that is left alone, with at most `k` seconds left to wait. -/
structure Settling (k : ℕ) (p : LacpPort) : Prop extends KeepsPartner p where
  active : p.standby = false → p.mux.state = .waiting ∨ p.Waited
  standby : p.standby = true → p.mux.state = .detached ∨ p.mux.state = .waiting ∨ p.mux.state = .readyN
  wait : p.mux.state = .waiting → p.waitWhile.toNat ≤ k
  ready : p.Waited → p.readyN = true

namespace Settling

variable {w w' : World} {a b : Addr} {k : ℕ} {p q : LacpPort} {attr : PortAttr} {sys : LacpSys}

/-- The receive machine moves for a frame only. -/
theorem rxGuard (h : Settling k p) {s : RxState} (guard : RxGuard p s) :
    s = .current ∧ p.rcvdLacpdu = true ∧ p.portEnabled = true := by
  have hup : p.portEnabled = true ∨ p.portMoved = true → p.portEnabled = true := fun hup =>
    hup.resolve_right (by simp [h.moved])
  have hstate : p.rx.state = .portDisabled ∨ p.rx.state = .current ∨ p.rx.state = .expired ∨
      p.rx.state = .defaulted := by
    cases hen : p.portEnabled with
    | false => exact .inl (h.linkDown hen)
    | true => exact .inr (h.linkUp hen)
  cases guard with
  | resume _ hen _ hrcvd | refresh _ hen hrcvd | recover _ hen hrcvd => exact ⟨rfl, hrcvd, hup hen⟩
  | linkDown hen _ _ hs => exact absurd (h.linkDown hen) hs
  | start hs | initialized hs | lacpOn hs => simp [hs] at hstate
  | moved _ hmoved => exact absurd hmoved (by simp [h.moved])
  | linkUp hs _ hen | linkUpOff hs _ hen =>
    have hlinkUp := h.linkUp hen
    simp [hs] at hlinkUp
  | timeout hs _ hzero => exact absurd hzero (h.running (.inl hs))
  | expire hs _ hzero => exact absurd hzero (h.running (.inr hs))

/-- The selection machine is at rest. -/
theorem selGuard (h : Settling k (w.port b)) : lacpSelCheckConditions w b = none := by
  simp [lacpSelCheckConditions, h.sel, h.selected]

/-- A frame that tells nothing new keeps the port as it is, and starts the timer again. -/
theorem rxEntered (h : Settling k p) (htimes : sys.shortTimeoutTime ≠ 0 ∧ sys.longTimeoutTime ≠ 0)
    (hen : p.portEnabled = true) (hrcvd : p.rcvdLacpdu = true) :
    Settling k (rxEntered sys { p with rx := ⟨false, .current⟩ }) where
  enabled := h.enabled
  selected := by
    show (p.selected && samePartner p.msgActor p.partner) = true
    rw [h.selected, h.rcvd hrcvd]
    rfl
  sel := h.sel
  linkDown := fun hdown => absurd (hen.symm.trans hdown) (by simp)
  linkUp := fun _ => .inl rfl
  moved := h.moved
  running := fun _ => by
    show (if p.actor.state.TMT then sys.shortTimeoutTime else sys.longTimeoutTime) ≠ 0
    split
    · exact htimes.1
    · exact htimes.2
  rcvd := by rintro ⟨⟩
  active := h.active
  standby := h.standby
  wait := h.wait
  ready := h.ready

/-- The mux machine goes on, or back to where a port in standby belongs. -/
theorem muxEntered (h : Settling k p) {ready : Bool} {s : MuxState} (guard : MuxGuard ready p s) :
    Settling k (muxEntered sys { p with mux := ⟨false, s⟩ }) := by
  have hkeeps : KeepsPartner (Lacp.muxEntered sys { p with mux := ⟨false, s⟩ }) := by
    cases s <;>
      exact ⟨h.enabled, h.selected, h.sel, h.linkDown, h.linkUp, h.moved, h.running, h.rcvd⟩
  have hstandby : p.Attached → p.standby = false := by
    intro hatt
    by_contra hsb
    have hs := h.standby (by simpa using hsb)
    rcases hatt with hatt | hatt <;> simp [hatt] at hs
  have hout : p.selected = false ∨ p.standby = true → p.standby = true := fun hout =>
    hout.resolve_left (by simp [h.selected])
  have hactive : p.standby = false → p.mux.state ≠ .detached ∧ p.mux.state ≠ .begin ∧
      p.mux.state ≠ .disable := by
    intro hsb
    rcases h.active hsb with hs | hs | hs | hs <;> simp [hs]
  have hon : p.mux.state ≠ .begin ∧ p.mux.state ≠ .disable := by
    cases hsb : p.standby with
    | false => exact (hactive hsb).2
    | true => rcases h.standby hsb with hs | hs | hs <;> simp [hs]
  cases guard with
  | off hlac => exact absurd (h.enabled.symm.trans hlac) (by simp)
  | reset _ hs => exact absurd hs (not_or.mpr hon)
  | select _ hs _ hsb => exact absurd hs (hactive hsb).1
  | waited =>
    exact { hkeeps with
      active := fun _ => .inr (.inl rfl)
      standby := fun _ => .inr (.inr rfl)
      wait := by rintro ⟨⟩
      ready := fun _ => rfl }
  | attach _ hs _ hsb =>
    exact { hkeeps with
      active := fun _ => .inr (.inr (.inl rfl))
      standby := fun hsb' => absurd (hsb.symm.trans hsb') (by simp)
      wait := by rintro ⟨⟩
      ready := fun _ => h.ready (.inl hs) }
  | abandon _ hs hout' =>
    exact { hkeeps with
      active := fun hsb => absurd (hsb.symm.trans (hout hout')) (by simp)
      standby := fun _ => .inl rfl
      wait := by rintro ⟨⟩
      ready := by rintro (hs | hs | hs) <;> cases hs }
  | sync _ hs _ hsb =>
    exact { hkeeps with
      active := fun _ => .inr (.inr (.inr rfl))
      standby := fun hsb' => absurd (hsb.symm.trans hsb') (by simp)
      wait := by rintro ⟨⟩
      ready := fun _ => h.ready (.inr (.inl hs)) }
  | detach _ hs hout' => exact absurd ((hstandby (.inl hs)).symm.trans (hout hout')) (by simp)
  | desync _ hs =>
    exact { hkeeps with
      active := fun _ => .inr (.inr (.inl rfl))
      standby := fun hsb => absurd ((hstandby (.inr hs)).symm.trans hsb) (by simp)
      wait := by rintro ⟨⟩
      ready := fun _ => h.ready (.inr (.inr hs)) }

theorem txEntered (h : Settling k p) {s : TxState} :
    Settling k (txEntered sys { p with tx := ⟨false, s⟩ }) := by
  cases s <;>
    exact ⟨⟨h.enabled, h.selected, h.sel, h.linkDown, h.linkUp, h.moved, h.running, h.rcvd⟩,
      h.active, h.standby, h.wait, h.ready⟩

/-- A second passes, unless it is the last one of the partner. -/
theorem oneSecond (h : Settling k p) (hcalm : p.rx.state = .expired ∨ p.rx.state = .current →
    p.currentWhile ≠ 1) : Settling (k - 1) (oneSecondPort p) where
  enabled := h.enabled
  selected := h.selected
  sel := h.sel
  linkDown := h.linkDown
  linkUp := h.linkUp
  moved := h.moved
  running := fun hs hzero => by
    have hpos := h.running hs
    have hone := hcalm hs
    have hnat := decrementTimer_toNat p.currentWhile
    rw [show decrementTimer p.currentWhile = 0 from hzero] at hnat
    rw [Ne, ← UInt16.toNat_inj] at hpos hone
    simp only [UInt16.toNat_zero, UInt16.toNat_one] at hnat hpos hone
    omega
  rcvd := h.rcvd
  active := h.active
  standby := h.standby
  wait := fun hs => (decrementTimer_toNat _).trans_le (Nat.sub_le_sub_right (h.wait hs) 1)
  ready := h.ready

/-- A member at rest, in a group that is left alone. -/
theorem of_rest (hp : PortCoherent ∅ sys p attr) (hq : PortQuiet p)
    (hsel : lacpSelCheckConditions w b = none) (hmux : lacpMuxCheckConditions w b = none) (hb : w.port b = p)
    (hwait : p.mux.state = .waiting → p.waitWhile.toNat ≤ k) (hready : p.Waited → p.readyN = true) :
    Settling k p := by
  subst hb
  have hlac := hp.enabled (Set.notMem_empty _)
  obtain ⟨hbegin, hdisable⟩ := hq.on hlac
  refine ⟨⟨hlac, hq.selected, (of_lacpSelCheckConditions_eq_none hsel).1, hq.linkDown.mp, fun hup =>
    hq.linkUp hup hlac, hq.moved, hq.running, fun hrcvd => absurd (hq.rcvd.symm.trans hrcvd) (by simp)⟩,
    fun hsb => ?_, fun hsb => ?_, hwait, hready⟩
  · cases hs : (w.port b).mux.state with
    | begin => exact absurd hs hbegin
    | disable => exact absurd hs hdisable
    | detached => simp [lacpMuxCheckConditions, hlac, hs, hq.selected, hsb] at hmux
    | waiting => exact .inl rfl
    | readyN => exact .inr (.inl hs)
    | attached => exact .inr (.inr (.inl hs))
    | rxTx => exact .inr (.inr (.inr hs))
  · cases hs : (w.port b).mux.state with
    | begin => exact absurd hs hbegin
    | disable => exact absurd hs hdisable
    | detached => exact .inl rfl
    | waiting => exact .inr (.inl rfl)
    | readyN => exact .inr (.inr rfl)
    | attached => exact absurd ((hq.attached hlac (.inl hs)).symm.trans hsb) (by simp)
    | rxTx => exact absurd ((hq.attached hlac (.inr hs)).symm.trans hsb) (by simp)

end Settling

/-! ## The group -/

/-- The group that a port is to join. -/
def Call.joins : Call → Option ℕ
  | .portLacpEnable _ _ aggId _ => some aggId
  | _ => none

/-- The call names no member of the group, removes none and adds none. -/
def Call.Spares (g : ℕ) (w : World) (c : Call) : Prop :=
  c.joins ≠ some g ∧
    ∀ b ∈ w.sys.ports, (w.port b).aggId = g →
      c.target ≠ some (w.port b).portIndex ∧ (w.port b).portIndex ∉ c.removes w

/-- The call leaves the group alone: a second is not the last one of a partner, a frame tells a member
nothing new about its partner and marks no member as moved, and every other call concerns other ports. -/
def Call.Steady (g : ℕ) (w : World) : Call → Prop
  | .oneSecond => ∀ b ∈ w.sys.ports, (w.port b).aggId = g →
    (w.port b).rx.state = .expired ∨ (w.port b).rx.state = .current → (w.port b).currentWhile ≠ 1
  | .rxLacpdu slot port pdu => ∀ a ∈ w.sys.ports, (w.port a).portIndex = globalIndex slot port →
    ((w.port a).aggId = g → samePartner (lacpCopyInfoFromNet pdu.actor) (w.port a).partner = true) ∧
      ∀ b ∈ movedPort w a pdu, (w.port b).aggId ≠ g
  | c => c.Spares g w

instance (g : ℕ) (w : World) (c : Call) : Decidable (c.Spares g w) := inferInstanceAs (Decidable (_ ∧ _))

instance (g : ℕ) (w : World) : (c : Call) → Decidable (c.Steady g w)
  | .oneSecond => inferInstanceAs (Decidable (∀ b ∈ w.sys.ports, _ → _ → _))
  | .rxLacpdu _ _ pdu => inferInstanceAs (Decidable (∀ a ∈ w.sys.ports, _ →
    (_ → _) ∧ ∀ b ∈ movedPort w a pdu, _))
  | .sysSetPrio _ | .sysSetLongPeriod _ | .sysSetShortPeriod _ | .sysSetPeriod _
  | .portLacpEnable _ _ _ _ | .portLacpDisable _ _ | .aggDelete _ | .portSetPrio _ _ _ | .portSetSpeed _ _ _
  | .portSetDuplex _ _ _ | .portLinkChange _ _ _ | .portClearStat _ _ | .setPortLinkStatus _ _ =>
    inferInstanceAs (Decidable (_ ∧ _))

/-- A member of the group in the state `v` is the same port still, it is settling, and its index is not
among those that are being removed. -/
structure StaysMember (k : ℕ) (E : Set ℕ) (p q : LacpPort) : Prop where
  settling : Settling k q
  standby : q.standby = p.standby
  portIndex : q.portIndex = p.portIndex
  spared : q.portIndex ∉ E

/-- The members of the group are those of the state `v`, and they are settling. -/
structure LeftAlone (g k : ℕ) (v : World) (E : Set ℕ) (w : World) : Prop where
  members : ∀ b, b ∈ w.sys.ports ∧ (w.port b).aggId = g ↔ b ∈ v.sys.ports ∧ (v.port b).aggId = g
  member : ∀ b ∈ w.sys.ports, (w.port b).aggId = g → StaysMember k E (v.port b) (w.port b)

theorem Call.Steady.spares {g : ℕ} {w : World} {c : Call} (h : c.Steady g w) (hc : c ≠ .oneSecond)
    (hrx : ∀ slot port pdu, c ≠ .rxLacpdu slot port pdu) : c.Spares g w := by
  cases c with
  | oneSecond => exact absurd rfl hc
  | rxLacpdu => exact absurd rfl (hrx _ _ _)
  | _ => exact h

namespace LeftAlone

variable {R : World → Call → Prop} {c : Call} {E E' : Set ℕ} {v u w w' : World} {a b : Addr} {g k l : ℕ}

theorem refl (h : LeftAlone g k v E w) : LeftAlone g k w E w where
  members := fun _ => Iff.rfl
  member := fun b hb hg =>
    ⟨(h.member b hb hg).settling, rfl, rfl, (h.member b hb hg).spared⟩

theorem trans (h : LeftAlone g k v E u) (h' : LeftAlone g l u E' w) : LeftAlone g l v E' w where
  members := fun b => (h'.members b).trans (h.members b)
  member := fun b hb hg => by
    obtain ⟨hb', hg'⟩ := (h'.members b).mp ⟨hb, hg⟩
    have hfirst := h.member b hb' hg'
    have hthen := h'.member b hb hg
    exact ⟨hthen.settling, hthen.standby.trans hfirst.standby, hthen.portIndex.trans hfirst.portIndex,
      hthen.spared⟩

/-- What keeps the groups keeps the members that it keeps settling. -/
theorem step (h : LeftAlone g k v E w) (hports : ∀ b, b ∈ w'.sys.ports ∧ (w'.port b).aggId = g ↔
      b ∈ w.sys.ports ∧ (w.port b).aggId = g)
    (hport : ∀ b ∈ w.sys.ports, (w.port b).aggId = g → Settling k (w.port b) →
      Settling l (w'.port b) ∧ (w'.port b).standby = (w.port b).standby ∧
        (w'.port b).portIndex = (w.port b).portIndex)
    (hE : ∀ b ∈ w.sys.ports, (w.port b).aggId = g → (w.port b).portIndex ∉ E → (w.port b).portIndex ∉ E') :
    LeftAlone g l v E' w' where
  members := fun b => (hports b).trans (h.members b)
  member := fun b hb' hg' => by
    obtain ⟨hb, hg⟩ := (hports b).mp ⟨hb', hg'⟩
    have hmember := h.member b hb hg
    obtain ⟨hsettling, hstandby, hindex⟩ := hport b hb hg hmember.settling
    exact ⟨hsettling, hstandby.trans hmember.standby, hindex.trans hmember.portIndex,
      hindex ▸ hE b hb hg hmember.spared⟩

/-- A hop leaves the group alone: no member takes over a partner, so none is deselected. -/
theorem hop (h : LeftAlone g k v E w) (htimes : w.sys.shortTimeoutTime ≠ 0 ∧ w.sys.longTimeoutTime ≠ 0)
    (hop : EngineHop w w') : LeftAlone g k v E w' := by
  have hrest : ∀ a ∈ w.sys.ports, (w.port a).aggId = g → lacpSelCheckConditions w a = none :=
    fun a ha hga => (h.member a ha hga).settling.selGuard
  refine h.step (fun b => by rw [hop.ports_eq, hop.aggId_eq]) (fun b hb hgb hsettling => ?_)
    fun _ _ _ hspared => hspared
  have hkept : Settling k (w'.port b) ∧ (w'.port b).standby = (w.port b).standby := by
    have hport := hop.portHop b
    revert hport
    generalize w'.port b = q
    intro hport
    cases hport with
    | same => exact ⟨hsettling, rfl⟩
    | rx _ guard =>
      obtain ⟨rfl, hrcvd, hen⟩ := hsettling.rxGuard (rxGuard_of_check guard)
      exact ⟨hsettling.rxEntered htimes hen hrcvd, rfl⟩
    | @deselect a s _ ha guard hnew hagg =>
      have hgroup := (h.member a ha (hagg ▸ hgb)).settling
      obtain ⟨rfl, hrcvd, -⟩ := hgroup.rxGuard (rxGuard_of_check guard)
      simp [rxDeselects, hgroup.rcvd hrcvd] at hnew
    | selDisabled _ guard | selAlone _ guard =>
      rw [hrest b hb hgb] at guard
      cases guard
    | select _ ha guard _ _ hagg =>
      rw [hrest _ ha (hagg ▸ hgb)] at guard
      cases guard
    | @mux s _ guard => exact ⟨hsettling.muxEntered (muxGuard_of_check guard), by cases s <;> rfl⟩
    | @tx s => exact ⟨hsettling.txEntered, by cases s <;> rfl⟩
  exact ⟨hkept.1, hkept.2, hop.portIndex_eq b⟩

/-- A write that leaves the members alone. -/
theorem update (h : LeftAlone g k v E w) {s : LacpSys} {t : Set ℕ} {f : Addr → LacpPort → LacpPort}
    (hw : Update w w' s t f)
    (hagg : ∀ b ∈ w.sys.ports, (f b (w.port b)).aggId = g ↔ (w.port b).aggId = g)
    (hport : ∀ b ∈ w.sys.ports, (w.port b).aggId = g → f b (w.port b) = w.port b)
    (hE : ∀ b ∈ w.sys.ports, (w.port b).aggId = g → (w.port b).portIndex ∉ E → (w.port b).portIndex ∉ E') :
    LeftAlone g k v E' w' := by
  refine h.step (fun b => ?_) (fun b hb hgb hsettling => ?_) hE
  · rw [hw.ports]
    exact and_congr_right fun hb => by rw [hw.port b hb, hagg b hb]
  · rw [hw.port b hb, hport b hb hgb]
    exact ⟨hsettling, rfl, rfl⟩

/-- A port of another group is reconfigured with its group, and stays out. -/
theorem reconfigure (h : LeftAlone g k v E w) {s : LacpSys} {t : Set ℕ} {g' : ℕ} {u : LacpPort → LacpPort}
    (hw : Update w w' s t (reconfigured a g' u)) (hg' : g' ≠ g) (ha : (w.port a).aggId ≠ g)
    (hu : (u (w.port a)).aggId ≠ g)
    (hE : ∀ b ∈ w.sys.ports, (w.port b).aggId = g → (w.port b).portIndex ∉ E → (w.port b).portIndex ∉ E') :
    LeftAlone g k v E' w' := by
  refine h.update hw (fun b _ => ?_) (fun b _ hgb => ?_) hE
  · simp only [reconfigured]
    split
    · rename_i hba
      subst hba
      exact iff_of_false hu ha
    · split <;> rfl
  · have hba : b ≠ a := fun hba => ha (hba ▸ hgb)
    rw [reconfigured, if_neg hba, if_neg fun hgb' => hg' (hgb'.symm.trans hgb)]

/-- A port that a call names is no member. -/
theorem aggId_ne (h : LeftAlone g k v E w) (hspares : c.Spares g v) (ha : a ∈ w.sys.ports)
    (hc : c.target = some (w.port a).portIndex) : (w.port a).aggId ≠ g := by
  intro hga
  obtain ⟨ha', hga'⟩ := (h.members a).mp ⟨ha, hga⟩
  exact (hspares.2 a ha' hga').1 (hc.trans (by rw [(h.member a ha hga).portIndex]))

/-- What happens to a port of another group alone. -/
theorem alone (h : LeftAlone g k v E w) {s : LacpSys} {t : Set ℕ} {u : LacpPort → LacpPort}
    (hw : Update w w' s t (onlyAt a u)) (ha : (w.port a).aggId ≠ g) (hu : (u (w.port a)).aggId ≠ g)
    (hE : ∀ b ∈ w.sys.ports, (w.port b).aggId = g → (w.port b).portIndex ∉ E → (w.port b).portIndex ∉ E') :
    LeftAlone g k v E' w' := by
  refine h.update hw (fun b _ => ?_) (fun b _ hgb => ?_) hE
  · simp only [onlyAt]
    split
    · rename_i hba
      subst hba
      exact iff_of_false hu ha
    · rfl
  · have hba : b ≠ a := fun hba => ha (hba ▸ hgb)
    rw [onlyAt, if_neg hba]

/-- A port is created, in no group. -/
theorem create (h : LeftAlone g k v ∅ w) (hc : Coherent ∅ w) (hg : g ≠ 0) {sysMac : LacpMac} {i : ℕ}
    (hnew : ∀ a ∈ w.sys.ports, (w.port a).portIndex ≠ i) : LeftAlone g k v {i} (withCreated w sysMac i) := by
  refine h.step (fun b => ?_) (fun b hb _ hsettling => ?_) fun b hb _ _ => hnew b hb
  · constructor
    · rintro ⟨hb, hgb⟩
      rcases List.mem_cons.mp hb with rfl | hb
      · rw [withCreated_port_self] at hgb
        exact absurd hgb.symm hg
      · rw [hc.withCreated_port hb] at hgb
        exact ⟨hb, hgb⟩
    · rintro ⟨hb, hgb⟩
      rw [hc.withCreated_port hb]
      exact ⟨List.mem_cons_of_mem _ hb, hgb⟩
  · rw [hc.withCreated_port hb]
    exact ⟨hsettling, rfl, rfl⟩

/-- An effect of a call that names no member leaves the group alone. -/
theorem effect (h : LeftAlone g k v E w) (hc : Coherent E w) (hg : g ≠ 0) (hspares : c.Spares g v)
    (htick : c ≠ .oneSecond) (hrx : ∀ slot port pdu, c ≠ .rxLacpdu slot port pdu)
    (heffect : Effect (Call.Spares g) c (E, w) (E', w')) : LeftAlone g k v E' w' := by
  have hkept : ∀ b ∈ w.sys.ports, (w.port b).aggId = g → (w.port b).portIndex ∉ E → (w.port b).portIndex ∉ E :=
    fun _ _ _ hspared => hspared
  have hnone : ∀ b ∈ w.sys.ports, (w.port b).aggId = g → (w.port b).portIndex ∉ E →
      (w.port b).portIndex ∉ (∅ : Set ℕ) := fun _ _ _ _ => Set.notMem_empty _
  cases heffect with
  | hop hop =>
    refine h.hop ?_ hop
    rw [hc.shortTimeoutTime, hc.longTimeoutTime]
    decide
  | rest hw => exact h.update hw (fun _ _ => Iff.rfl) (fun _ _ _ => rfl) hkept
  | store => exact h.step (fun _ => Iff.rfl) (fun _ _ _ hsettling => ⟨hsettling, rfl, rfl⟩) hkept
  | create _ _ hw =>
    obtain ⟨hnew, rfl⟩ := lacpPortCreate_eq_some hw
    exact h.create hc hg hnew
  | @join _ _ _ a slot port aggId sysMac _ hcall _ ha hindex _ _ _ hw =>
    have hga := h.aggId_ne hspares ha (by rw [hcall, hindex]; rfl)
    have hne : aggId ≠ g := fun heq => hspares.1 (by rw [hcall, heq]; rfl)
    exact h.reconfigure hw hne hga hne hnone
  | reselect hcall ha _ hw | prio hcall ha _ hw =>
    have hga := h.aggId_ne hspares ha hcall
    exact h.reconfigure hw hga hga hga hnone
  | stat hcall ha hw =>
    have hga := h.aggId_ne hspares ha hcall
    exact h.alone hw hga hga hnone
  | link hcall ha _ _ hw =>
    have hga := h.aggId_ne hspares ha hcall
    refine h.reconfigure hw hga hga ?_ hnone
    simp only [linkChangedPort]
    split <;> exact hga
  | receive hcall => exact absurd hcall (hrx _ _ _)
  | setSys _ _ hw =>
    refine h.step (fun b => ?_) (fun b hb _ hsettling => ?_) hnone
    · rw [hw.ports]
      exact and_congr_right fun hb => by rw [hw.port b hb]; rfl
    · rw [hw.port b hb]
      exact ⟨⟨⟨hsettling.enabled, hsettling.selected, hsettling.sel, hsettling.linkDown, hsettling.linkUp,
        hsettling.moved, hsettling.running, hsettling.rcvd⟩, hsettling.active, hsettling.standby,
        hsettling.wait, hsettling.ready⟩, rfl, rfl⟩
  | tick hcall => exact absurd hcall htick
  | unlink _ hE _ hok hw =>
    exact h.update hw (fun _ _ => Iff.rfl) (fun _ _ _ => rfl) fun b hb hgb _ => hE ▸ (hok.2 b hb hgb).2
  | notify _ ha hE hw =>
    have hga : (w.port _).aggId ≠ g := fun hga => (h.member _ ha hga).spared hE
    exact h.alone hw hga hga hkept
  | leave _ ha hE _ _ hw =>
    have hga : (w.port _).aggId ≠ g := fun hga => (h.member _ ha hga).spared hE
    exact h.reconfigure hw hga hga hg.symm hkept
  | remove _ _ _ hports hmem _ hw =>
    have hport : w'.port = w.port := by rw [hw]
    refine h.step (fun b => ?_) (fun b _ _ hsettling => ?_) hnone
    · rw [hport]
      constructor
      · rintro ⟨hb, hgb⟩
        exact ⟨hports.subset hb, hgb⟩
      · rintro ⟨hb, hgb⟩
        exact ⟨(hmem b hb).mpr (h.member b hb hgb).spared, hgb⟩
    · rw [hport]
      exact ⟨hsettling, rfl, rfl⟩

theorem hops (h : LeftAlone g k v E w) (htimes : w.sys.shortTimeoutTime ≠ 0 ∧ w.sys.longTimeoutTime ≠ 0)
    (hhops : ReflTransGen OrderedHop w w') : LeftAlone g k v E w' := by
  induction hhops with
  | refl => exact h
  | tail hhops hop ih =>
    rw [← hops_sys_eq hhops] at htimes
    exact ih.hop htimes hop.engineHop

end LeftAlone

/-! ## Runs -/

section Runs

variable {R : World → Call → Prop} {c : Call} {v w w' : World} {a b : Addr} {g k n slot port : ℕ} {pdu : LacpPdu}

/-- A second passes, and then the engine runs. -/
theorem exists_hops_of_oneSecond (hc : Coherent ∅ w) (hstep : Step .oneSecond w w') :
    ∃ u x, Update w u w.sys ∅ (fun _ p => oneSecondPort p) ∧ ReflTransGen OrderedHop u x ∧
      w'.sys = x.sys ∧ w'.port = x.port := by
  obtain ⟨-, fuel, ret, hrun⟩ := hstep
  obtain ⟨x, hx, hend⟩ := Option.map_eq_some_iff.mp hrun
  obtain ⟨rfl, -⟩ := Prod.mk.inj hend
  simp only [lacpOneSecond, hc.adminState, Bool.not_true, Bool.false_eq_true, if_false] at hx
  obtain ⟨y, hupdate, rfl⟩ := Option.map_eq_some_iff.mp hx
  have hidle := hc.idle.update (update_oneSecond w) fun _ _ => rfl
  exact ⟨_, y, update_oneSecond w, (lacpSysUpdate_spec hidle hupdate).1, rfl, rfl⟩

/-- A frame is recorded, and then the engine runs, or the frame is dropped. -/
theorem exists_hops_of_rxLacpdu (hc : Coherent ∅ w) (hstep : Step (.rxLacpdu slot port pdu) w w') :
    (w'.sys = w.sys ∧ w'.port = w.port) ∨
      ∃ a ∈ w.sys.ports, (w.port a).portIndex = globalIndex slot port ∧ ∃ u x,
        Update w u w.sys ∅ (received a (movedPort w a pdu) pdu) ∧ ReflTransGen OrderedHop u x ∧
          w'.sys = x.sys ∧ w'.port = x.port := by
  obtain ⟨hrange, fuel, ret, hrun⟩ := hstep
  simp only [runCall, trunkSspRxLacpdu, trunkSspGetGlobalIndex_eq hrange.2.1] at hrun
  split at hrun
  · obtain ⟨rfl, -⟩ := Prod.mk.inj (Option.some.inj hrun)
    exact .inl ⟨rfl, rfl⟩
  · simp only [lacpRxLacpdu] at hrun
    split at hrun
    · obtain ⟨rfl, -⟩ := Prod.mk.inj (Option.some.inj hrun)
      exact .inl ⟨rfl, rfl⟩
    · rename_i a hfind
      obtain ⟨ha, hindex⟩ := lacpPortFind_eq_some hfind
      split at hrun
      · obtain ⟨rfl, -⟩ := Prod.mk.inj (Option.some.inj hrun)
        exact .inl ⟨rfl, rfl⟩
      · split at hrun
        · obtain ⟨rfl, -⟩ := Prod.mk.inj (Option.some.inj hrun)
          exact .inl ⟨rfl, rfl⟩
        · obtain ⟨x, hupdate, hend⟩ := Option.map_eq_some_iff.mp hrun
          obtain ⟨rfl, -⟩ := Prod.mk.inj hend
          have hlac := (hc.port a ha).enabled (Set.notMem_empty _)
          have hw : Update w (lacpRxmRxLacpdu (lacpCriticalPathStart w) a pdu) w.sys ∅
              (received a (movedPort w a pdu) pdu) :=
            (update_lockDepth w ∅ _).trans
              (update_lacpRxmRxLacpdu (w := lacpCriticalPathStart w) hlac pdu) subset_rfl
          have hidle := hc.idle.update hw fun b p => received_core a _ pdu b p
          exact .inr ⟨a, ha, hindex, _, x, hw, (lacpSysUpdate_spec hidle hupdate).1, rfl, rfl⟩

theorem LeftAlone.congr (h : LeftAlone g k v ∅ w) (hsys : w'.sys = w.sys) (hport : w'.port = w.port) :
    LeftAlone g k v ∅ w' := by
  constructor
  · rw [hsys, hport]
    exact h.members
  · rw [hsys, hport]
    exact h.member

/-- A frame that a member knows, or that is for another port. -/
theorem Settling.received {p : LacpPort} (h : Settling k p) {moved : Option Addr}
    (hsame : b = a → samePartner (lacpCopyInfoFromNet pdu.actor) p.partner = true) (hmoved : moved ≠ some b) :
    Settling k (received a moved pdu b p) := by
  simp only [Lacp.received]
  split
  · rename_i hba
    exact ⟨⟨h.enabled, h.selected, h.sel, h.linkDown, h.linkUp, h.moved, h.running, fun _ => hsame hba⟩,
      h.active, h.standby, h.wait, h.ready⟩
  · exact h

/-- No write gives a partner no time. -/
theorem Coherent.timeouts (hc : Coherent ∅ w) {u : World} {f : Addr → LacpPort → LacpPort}
    (hw : Update w u w.sys ∅ f) : u.sys.shortTimeoutTime ≠ 0 ∧ u.sys.longTimeoutTime ≠ 0 := by
  have hkept := hw.sys
  rw [SysKept] at hkept
  rw [hkept]
  show w.sys.shortTimeoutTime ≠ 0 ∧ w.sys.longTimeoutTime ≠ 0
  rw [hc.shortTimeoutTime, hc.longTimeoutTime]
  decide

/-- A call that leaves the group alone leaves its members as they are. -/
theorem LeftAlone.call (hc : Coherent ∅ w) (hq : Quiescent w) (h : LeftAlone g k w ∅ w) (hg : g ≠ 0)
    (htick : c ≠ .oneSecond) (hsteady : c.Steady g w) (hstep : Step c w w') : LeftAlone g k w ∅ w' := by
  by_cases hrx : ∃ slot port pdu, c = .rxLacpdu slot port pdu
  · obtain ⟨slot, port, pdu, rfl⟩ := hrx
    rcases exists_hops_of_rxLacpdu hc hstep with ⟨hsys, hport⟩ |
      ⟨a, ha, hindex, u, x, hw, hhops, hsys, hport⟩
    · exact h.congr hsys hport
    · obtain ⟨hsame, hmoved⟩ := hsteady a ha hindex
      have hreceived : LeftAlone g k w ∅ u := by
        refine h.step (fun b => ?_) (fun b hb hgb hsettling => ?_) fun _ _ _ hspared => hspared
        · rw [hw.ports]
          refine and_congr_right fun hb => ?_
          rw [hw.port b hb]
          simp only [Lacp.received]
          split
          · rfl
          · split <;> rfl
        · rw [hw.port b hb]
          refine ⟨hsettling.received (fun hba => hba ▸ hsame (hba ▸ hgb)) fun hb' => hmoved b hb' hgb, ?_,
            portIndex_of_core (received_core ..)⟩
          simp only [Lacp.received]
          split
          · rfl
          · split <;> rfl
      exact (hreceived.hops (hc.timeouts hw) hhops).congr hsys hport
  · have hother : ∀ slot port pdu, c ≠ .rxLacpdu slot port pdu := fun slot port pdu heq =>
      hrx ⟨slot, port, pdu, heq⟩
    have hspares := hsteady.spares htick hother
    obtain ⟨heffects, -⟩ := completes_of_step (R := Call.Spares g) hc hq hspares hstep
    have hboth := heffects.invariant (P := fun E u => Coherent E u ∧ LeftAlone g k w E u)
      (fun hP heffect => ⟨hP.1.effect heffect, hP.2.effect hP.1 hg hspares htick hother heffect⟩) ⟨hc, h⟩
    exact hboth.2

/-- A second takes one off what is left to wait. -/
theorem LeftAlone.tick (hc : Coherent ∅ w) (h : LeftAlone g k w ∅ w) (hsteady : Call.oneSecond.Steady g w)
    (hstep : Step .oneSecond w w') : LeftAlone g (k - 1) w ∅ w' := by
  obtain ⟨u, x, hw, hhops, hsys, hport⟩ := exists_hops_of_oneSecond hc hstep
  have hticked : LeftAlone g (k - 1) w ∅ u := by
    refine h.step (fun b => ?_) (fun b hb hgb hsettling => ?_) fun _ _ _ hspared => hspared
    · rw [hw.ports]
      exact and_congr_right fun hb => by rw [hw.port b hb]; rfl
    · rw [hw.port b hb]
      exact ⟨hsettling.oneSecond (hsteady b hb hgb), rfl, rfl⟩
  exact (hticked.hops (hc.timeouts hw) hhops).congr hsys hport

end Runs

/-- `n` seconds pass between `w` and `w'`, with calls between them, and all of it leaves group `g` alone. -/
inductive SteadyRun (g : ℕ) : ℕ → World → World → Prop
  | done (w : World) : SteadyRun g 0 w w
  | tick {n : ℕ} {w v w' : World} (hok : Call.oneSecond.Steady g w) (hstep : Step .oneSecond w v)
      (hrest : SteadyRun g n v w') : SteadyRun g (n + 1) w w'
  | call {n : ℕ} {w v w' : World} {c : Call} (hc : c ≠ .oneSecond) (hok : c.Steady g w)
      (hstep : Step c w v) (hrest : SteadyRun g n v w') : SteadyRun g n w w'

section Settled

variable {R : World → Call → Prop} {v w w' : World} {a : Addr} {g k n : ℕ}

/-- A group in a reachable state. -/
theorem ReachableBy.leftAlone (h : ReachableBy R w) (g : ℕ) :
    LeftAlone g w.sys.aggregateWaitTime.toNat w ∅ w where
  members := fun _ => Iff.rfl
  member := fun b hb _ => by
    obtain ⟨hp, hq⟩ := h.port hb
    obtain ⟨-, hsel, hmux, -⟩ := h.coherent.2 b hb
    obtain ⟨hwait, hready⟩ := h.waitBounded b hb
    exact ⟨.of_rest hp hq hsel hmux rfl hwait hready, rfl, rfl, Set.notMem_empty _⟩

theorem LeftAlone.run (hreach : Reachable w) (h : LeftAlone g k w ∅ w) (hg : g ≠ 0)
    (hrun : SteadyRun g n w w') : Reachable w' ∧ LeftAlone g (k - n) w ∅ w' := by
  induction hrun generalizing k with
  | done => exact ⟨hreach, h⟩
  | @tick n w v w' hok hstep _ ih =>
    have hfirst := h.tick hreach.coherent.1 hok hstep
    obtain ⟨hreach', hthen⟩ := ih (hreach.step trivial hstep) hfirst.refl
    rw [Nat.sub_sub, Nat.add_comm 1 n] at hthen
    exact ⟨hreach', hfirst.trans hthen⟩
  | call hc hok hstep _ ih =>
    have hfirst := h.call hreach.coherent.1 hreach.coherent.2 hg hc hok hstep
    obtain ⟨hreach', hthen⟩ := ih (hreach.step trivial hstep) hfirst.refl
    exact ⟨hreach', hfirst.trans hthen⟩

/-- What a member comes to: an active port is attached and forwards if its partner is in sync, a port in
standby is detached. -/
structure Settled (p : LacpPort) (attr : PortAttr) : Prop where
  mux : p.mux.state =
    if p.standby then .detached else if p.partner.state.SYN then .rxTx else .attached
  actorSYN : p.actor.state.SYN = !p.standby
  cd : attr.cd = if !p.standby && p.partner.state.SYN then 1 else 0

/-- Nobody has to wait any longer, so the engine has settled the group. -/
theorem LeftAlone.settled (hreach : Reachable w) (h : LeftAlone g 0 v ∅ w) (ha : a ∈ w.sys.ports)
    (hga : (w.port a).aggId = g) : Settled (w.port a) (w.gPortList (w.port a).portIndex) := by
  obtain ⟨hp, hq⟩ := hreach.port ha
  have hmember := (h.member a ha hga).settling
  have hnotWaiting : ∀ b ∈ w.sys.ports, (w.port b).aggId = g → (w.port b).mux.state ≠ .waiting := by
    intro b hb hgb hs
    have hsettling := (h.member b hb hgb).settling
    have hzero : (w.port b).waitWhile = 0 := UInt16.toNat_inj.mp (Nat.le_zero.mp (hsettling.wait hs))
    have hguard := (hreach.coherent.2 b hb).2.2.1
    simp [lacpMuxCheckConditions, hsettling.enabled, hs, hzero] at hguard
  have hguard := (hreach.coherent.2 a ha).2.2.1
  cases hsb : (w.port a).standby with
  | true =>
    have hdetached : (w.port a).mux.state = .detached := by
      rcases hmember.standby hsb with hs | hs | hs
      · exact hs
      · exact absurd hs (hnotWaiting a ha hga)
      · simp [lacpMuxCheckConditions, hmember.enabled, hs, hsb] at hguard
    have hunattached : ¬ (w.port a).Attached := by
      rintro (hs | hs) <;> rw [hdetached] at hs <;> cases hs
    refine ⟨by rw [hdetached, hsb]; rfl, ?_, by rw [(hp.off (.inl hdetached)).2.2, hsb]; rfl⟩
    rw [hsb]
    exact Bool.eq_false_iff.mpr fun hsyn => hunattached (hp.syn hsyn)
  | false =>
    -- the active members have waited, so each of them is ready
    have hready : sysIsReady w a = true := by
      refine List.all_eq_true.mpr fun b hb => ?_
      by_cases hgb : (w.port b).aggId = g
      · have hsettling := (h.member b hb hgb).settling
        cases hsb : (w.port b).standby with
        | true => simp
        | false =>
          have hwaited := (hsettling.active hsb).resolve_left (hnotWaiting b hb hgb)
          simp [hsettling.ready hwaited]
      · have hne : (w.port a).aggId ≠ (w.port b).aggId := fun heq => hgb (heq.symm.trans hga)
        rw [bne_iff_ne.mpr hne, Bool.true_or]
    have hattached : (w.port a).Attached := by
      rcases (hmember.active hsb).resolve_left (hnotWaiting a ha hga) with hs | hs | hs
      · simp [lacpMuxCheckConditions, hmember.enabled, hs, hmember.selected, hsb, hready] at hguard
      · exact .inl hs
      · exact .inr hs
    have hsyn : (w.port a).actor.state.SYN = true := (hp.syn_iff hq hmember.enabled).mpr hattached
    rcases hattached with hs | hs
    · have hpartner : (w.port a).partner.state.SYN = false := by
        by_contra hpartner
        simp [lacpMuxCheckConditions, hmember.enabled, hs, hmember.selected, hsb, hpartner] at hguard
      exact ⟨by simp [hs, hsb, hpartner], by rw [hsyn, hsb]; rfl,
        by rw [(hp.off (.inr (.inr (.inr hs)))).2.2, hsb, hpartner]; rfl⟩
    · have hpartner := hq.collecting hmember.enabled hs
      exact ⟨by simp [hs, hsb, hpartner], by rw [hsyn, hsb]; rfl,
        by rw [(hp.on hs).2.2, hsb, hpartner]; rfl⟩

/-- When a link group of a reachable state was left alone for `aggregate_wait_time` seconds, its members are
the same and are active or in standby as before; those in standby are detached, the others are attached,
and those of the latter whose partner is in sync forward. -/
theorem reachable_settled (w : World) (h : Reachable w) (g : ℕ) (hg : g ≠ 0) (n : ℕ)
    (hn : w.sys.aggregateWaitTime.toNat ≤ n) (w' : World) (hrun : SteadyRun g n w w') :
    (∀ a, a ∈ w'.sys.ports ∧ (w'.port a).aggId = g ↔ a ∈ w.sys.ports ∧ (w.port a).aggId = g) ∧
      ∀ a ∈ w.sys.ports, (w.port a).aggId = g → (w'.port a).standby = (w.port a).standby ∧
        Settled (w'.port a) (w'.gPortList (w'.port a).portIndex) := by
  obtain ⟨hreach, hend⟩ := (h.leftAlone g).run h hg hrun
  rw [Nat.sub_eq_zero_of_le hn] at hend
  refine ⟨hend.members, fun a ha hga => ?_⟩
  obtain ⟨ha', hga'⟩ := (hend.members a).mpr ⟨ha, hga⟩
  exact ⟨(hend.member a ha' hga').standby, hend.settled hreach ha' hga'⟩

end Settled

/-! ## A run

Two ports have heard from their partners; then two seconds pass, with a frame, a port that joins another
group and a system setting between them.
-/

theorem steadyRun_of_runCalls {g fuel : ℕ} {calls : List Call} {w w' : World} (hrange : ∀ c ∈ calls, c.InRange)
    (hrun : runCalls (fun w c => decide (c.Steady g w)) fuel w calls = some w') :
    SteadyRun g (calls.map Call.ticks).sum w w' := by
  induction calls generalizing w with
  | nil =>
    obtain rfl := Option.some.inj hrun
    exact .done w
  | cons c calls ih =>
    obtain ⟨u, hu, hrest⟩ := Option.bind_eq_some_iff.mp hrun
    simp only at hu
    split at hu
    · rename_i hsteady
      obtain ⟨⟨u', ret⟩, hcall, rfl⟩ := Option.map_eq_some_iff.mp hu
      have hstep : Step c w u' := ⟨hrange c List.mem_cons_self, fuel, ret, hcall⟩
      have hrest := ih (fun d hd => hrange d (List.mem_cons_of_mem _ hd)) hrest
      rw [List.map_cons, List.sum_cons, Nat.add_comm]
      by_cases htick : c = .oneSecond
      · subst htick
        exact .tick (of_decide_eq_true hsteady) hstep hrest
      · have hzero : c.ticks = 0 := by
          cases c with
          | oneSecond => exact absurd rfl htick
          | _ => rfl
        rw [hzero]
        exact .call htick (of_decide_eq_true hsteady) hstep hrest
    · cases hu

def steadyRun : List Call × List Call :=
  (aggregationRun.take 6,
   [.oneSecond, .rxLacpdu 0 1 (peerFrame 3 1), .portLacpEnable 0 3 2 .zero, .sysSetPrio 9, .oneSecond])

theorem steadyRun_settled : ∃ w w', Reachable w ∧ (w.port 0).mux.state = .waiting ∧ (w.port 0).standby = false ∧
    SteadyRun 1 2 w w' ∧ (w'.port 0).standby = false ∧
      Settled (w'.port 0) (w'.gPortList (w'.port 0).portIndex) := by
  have hrun : (runCalls (fun _ _ => true) 40 (initWorld 77) steadyRun.1).any (fun w =>
      decide (0 ∈ w.sys.ports ∧ (w.port 0).aggId = 1 ∧ (w.port 0).mux.state = .waiting ∧
        (w.port 0).standby = false ∧ w.sys.aggregateWaitTime.toNat ≤ 2) &&
      (runCalls (fun w c => decide (c.Steady 1 w)) 40 w steadyRun.2).isSome) = true := by
    decide +kernel
  obtain ⟨w, h, _, hw⟩ := exists_reachableBy_of_runCalls (R := fun _ _ => True) (by decide)
    (fun _ _ _ => trivial) hrun
  obtain ⟨hstate, hrest⟩ := Bool.and_eq_true_iff.mp hw
  obtain ⟨ha, hgroup, hmux, hsb, hwait⟩ := of_decide_eq_true hstate
  obtain ⟨w', hw'⟩ := Option.isSome_iff_exists.mp hrest
  have hsteady : SteadyRun 1 2 w w' := steadyRun_of_runCalls (by decide) hw'
  obtain ⟨hsb', hsettled⟩ := (reachable_settled w h 1 (by decide) 2 hwait w' hsteady).2 0 ha hgroup
  exact ⟨w, w', h, hmux, hsb, hsteady, hsb'.trans hsb, hsettled⟩

end Lacp
