import Lacp.Database
import Lacp.Totality

/-!
# Leaving a link group

Reference: `trunk_port_lacp_disable`, `trunk_agg_delete` and `trunk_port_lacp_disable_batch`.

A removal runs the engine once for each port that leaves and once more for the group that stays. The
ports that leave are off the list, out of the database and out of the hardware afterwards
(`Unlinks.removes`, `Effect.groupBit_of_removal`, `Coherent.absent`). What is configured of the others
is written by no effect of the call (`Bystander.effect`): they are not among the indices the call exempts,
and no hop writes a priority but the one into `RXM_INITIALIZE`, which a port at rest is not near.
-/

namespace Lacp

open Fuel (Returns)
open Relation (ReflTransGen)

/-- The configuration of a port is what it was. -/
structure SameConfig (p q : LacpPort) : Prop where
  /-- The index, `lacp_enabled` and the link group. -/
  membership : q.membership = p.membership
  portEnabled : q.portEnabled = p.portEnabled
  actor : q.actor.portPriority = p.actor.portPriority ∧
    q.actor.systemPriority = p.actor.systemPriority
  actorAdmin : q.actorAdmin.portPriority = p.actorAdmin.portPriority ∧
    q.actorAdmin.systemPriority = p.actorAdmin.systemPriority

/-- What the removal `c` leaves behind. -/
structure LeavesClean (c : Call) (w w' : World) : Prop where
  /-- No port has an index that was removed. -/
  unlisted : ∀ a ∈ w'.sys.ports, (w'.port a).portIndex ∉ c.removes w
  /-- A removed index is in no link group. -/
  ungrouped : ∀ i ∈ c.removes w, i < 144 → ∀ g < 32, groupBit w' i g = false
  /-- The hardware of a removed index stands on its own and forwards. -/
  hardware : ∀ i ∈ c.removes w, (w'.gPortList i).tid = 0 ∧ (w'.gPortList i).cd = 1
  /-- The other ports are still there. -/
  kept : ∀ a ∈ w.sys.ports, (w.port a).portIndex ∉ c.removes w →
    a ∈ w'.sys.ports ∧ SameConfig (w.port a) (w'.port a)
  /-- The other bits of all link groups are as they were. -/
  bits : ∀ i, i ∉ c.removes w → ∀ g, groupBit w' i g = groupBit w i g

namespace SameConfig

variable {w : World} {b : Addr} {sys : LacpSys} {p q r : LacpPort}

theorem refl (p : LacpPort) : SameConfig p p := ⟨rfl, rfl, ⟨rfl, rfl⟩, ⟨rfl, rfl⟩⟩

theorem trans (h : SameConfig p q) (h' : SameConfig q r) : SameConfig p r :=
  ⟨h'.membership.trans h.membership, h'.portEnabled.trans h.portEnabled,
    ⟨h'.actor.1.trans h.actor.1, h'.actor.2.trans h.actor.2⟩,
    ⟨h'.actorAdmin.1.trans h.actorAdmin.1, h'.actorAdmin.2.trans h.actorAdmin.2⟩⟩

/-- Only `RXM_INITIALIZE` writes the priorities of the actor. -/
theorem rxEntered (s : RxState) (hinit : s ≠ .begin ∧ s ≠ .init) :
    SameConfig p (rxEntered sys { p with rx := ⟨false, s⟩ }) := by
  cases s with
  | begin => exact absurd rfl hinit.1
  | init => exact absurd rfl hinit.2
  | _ => exact ⟨rfl, rfl, ⟨rfl, rfl⟩, ⟨rfl, rfl⟩⟩

end SameConfig

/-- The receive machine is past `RXM_INITIALIZE` and has no reason to enter it again. -/
structure Started (p : LacpPort) : Prop where
  state : p.rx.state ≠ .begin ∧ p.rx.state ≠ .init
  portMoved : p.portMoved = false

theorem PortQuiet.isStarted {p : LacpPort} (h : PortQuiet p) (hlac : p.lacpEnabled = true) :
    Started p := by
  refine ⟨⟨h.started, fun hinit => ?_⟩, h.moved⟩
  cases hen : p.portEnabled with
  | false =>
    rw [h.linkDown.mp hen] at hinit
    cases hinit
  | true => rcases h.linkUp hen hlac with hrx | hrx | hrx <;> rw [hrx] at hinit <;> cases hinit

theorem Started.of_core {p q : LacpPort} (h : Started p) (hcore : q.core = p.core)
    (hmoved : q.portMoved = p.portMoved) : Started q := by
  have hrx : q.rx = p.rx := congrArg (fun core => core.2.1) hcore
  exact ⟨hrx ▸ h.state, hmoved.trans h.portMoved⟩

/-- The port at `a` is not among those that are being removed, and has the configuration of `p`. -/
structure Bystander (i : ℕ) (p : LacpPort) (a : Addr) (E : Set ℕ) (w : World) : Prop where
  listed : a ∈ w.sys.ports
  portIndex : (w.port a).portIndex = i
  spared : i ∉ E
  started : Started (w.port a)
  config : SameConfig p (w.port a)

section Effect

variable {R : World → Call → Prop} {w w' : World} {c : Call} {E E' : Set ℕ} {a b : Addr} {i g : ℕ}
  {p q : LacpPort}

/-- A port that has started does not enter `RXM_INITIALIZE` again. -/
theorem Started.not_init (h : Started p) {s : RxState} (guard : RxGuard p s) : s ≠ .begin ∧ s ≠ .init := by
  cases guard with
  | start hs => exact absurd hs h.state.1
  | moved _ hpm => exact absurd (h.portMoved.symm.trans hpm) (by simp)
  | _ => simp

theorem Started.rxEntered {sys : LacpSys} (h : Started p) {s : RxState} (guard : RxGuard p s) :
    SameConfig p (rxEntered sys { p with rx := ⟨false, s⟩ }) ∧
      Started (rxEntered sys { p with rx := ⟨false, s⟩ }) := by
  have hinit := h.not_init guard
  refine ⟨.rxEntered s hinit, ?_⟩
  cases s with
  | begin => exact absurd rfl hinit.1
  | init => exact absurd rfl hinit.2
  | _ => exact ⟨hinit, h.portMoved⟩

/-- No hop writes what is configured of a port that has started. -/
theorem Started.hop (h : Started (w.port b)) (hop : PortHop w b q) :
    SameConfig (w.port b) q ∧ Started q := by
  cases hop with
  | rx _ guard => exact h.rxEntered (rxGuard_of_check guard)
  | same | deselect | selDisabled | selAlone | select =>
    exact ⟨⟨rfl, rfl, ⟨rfl, rfl⟩, ⟨rfl, rfl⟩⟩, ⟨h.state, h.portMoved⟩⟩
  | @mux s => cases s <;> exact ⟨⟨rfl, rfl, ⟨rfl, rfl⟩, ⟨rfl, rfl⟩⟩, ⟨h.state, h.portMoved⟩⟩
  | @tx s => cases s <;> exact ⟨⟨rfl, rfl, ⟨rfl, rfl⟩, ⟨rfl, rfl⟩⟩, ⟨h.state, h.portMoved⟩⟩

/-- What no hop changes of a port that has started, no run of the engine changes. -/
theorem Started.hops {α : Type} {V : LacpPort → α}
    (hV : ∀ {v : World} {q : LacpPort}, Started (v.port b) → PortHop v b q → V q = V (v.port b))
    (h : Started (w.port b)) (hhops : ReflTransGen OrderedHop w w') :
    V (w'.port b) = V (w.port b) ∧ Started (w'.port b) := by
  induction hhops with
  | refl => exact ⟨rfl, h⟩
  | tail _ hop ih =>
    have hport := hop.engineHop.portHop b
    exact ⟨(hV ih.2 hport).trans ih.1, (ih.2.hop hport).2⟩

/-- A removal writes the other ports' flags only. -/
theorem Bystander.write (h : Bystander i p a E w) (hc : c.isRemoval = true)
    (hwrite : PortWrite R c E w a q) : SameConfig (w.port a) q ∧ Started q := by
  cases hwrite with
  | same | deselect | stat =>
    exact ⟨⟨rfl, rfl, ⟨rfl, rfl⟩, ⟨rfl, rfl⟩⟩, ⟨h.started.state, h.started.portMoved⟩⟩
  | notify hE | leave _ hE => exact absurd (h.portIndex ▸ hE) h.spared
  | prio _ _ _ _ hcall => cases c <;> simp_all [Call.isRemoval, Call.isPrioChange]
  | link _ _ _ _ _ hcall =>
    cases c <;> simp_all [Call.isRemoval, Call.isJoin, Call.isLinkChange]
  | receive hcall | moved hcall | tick hcall =>
    subst hcall
    cases hc

theorem Bystander.effect (hcoherent : Coherent E w) (h : Bystander i p a E w)
    (hc : c.isRemoval = true)
    (heffect : Effect (fun w c => i ∉ c.removes w) c (E, w) (E', w')) : Bystander i p a E' w' := by
  have hspared : i ∉ E' := by
    refine heffect.spared h.spared (fun slot port aggId sysMac hcall => ?_) id
    subst hcall
    cases hc
  cases heffect.cases hcoherent with
  | hop hop =>
    obtain ⟨hconfig, hstarted⟩ := h.started.hop (hop.engineHop.portHop a)
    exact ⟨hop.engineHop.sys_eq ▸ h.listed, (hop.engineHop.portIndex_eq a).trans h.portIndex,
      hspared, hstarted, h.config.trans hconfig⟩
  | setSys hcfg =>
    cases c with
    | portLacpDisable | aggDelete => cases hcfg
    | _ => cases hc
  | write _ _ _ hports hgone =>
    have hlisted : a ∈ w'.sys.ports := by
      by_contra hgone'
      exact h.spared (h.portIndex ▸ (hgone a h.listed hgone').1)
    cases hports a hlisted with
    | write _ hwrite =>
      obtain ⟨hconfig, hstarted⟩ := h.write hc hwrite
      exact ⟨hlisted, hwrite.portIndex_eq.trans h.portIndex, hspared, hstarted,
        h.config.trans hconfig⟩
    | reselect _ htarget _ _ hok =>
      -- a removal that names a port removes it
      cases c with
      | portLacpDisable slot port =>
        exact absurd (h.portIndex.symm.trans (Option.some.inj htarget).symm) hok
      | aggDelete aggId => cases htarget
      | _ => cases hc
    | join _ hcall =>
      subst hcall
      cases hc
    | create _ hcall =>
      subst hcall
      cases hc

/-- An effect of a removal keeps a bit of the database, unless it forgets the ports that are removed. -/
theorem Effect.groupBit_of_removal (hc : c.isRemoval = true)
    (heffect : Effect R c (E, w) (E', w')) :
    groupBit w' i g = groupBit w i g ∨
      i ∈ c.removes w ∧ R w c ∧ (i < 144 → g < 32 → groupBit w' i g = false) := by
  have hkept : w'.gLinkGroups = w.gLinkGroups → groupBit w' i g = groupBit w i g := fun heq => by
    rw [groupBit, groupBit, heq]
  have hupdate : ∀ {s f}, Update w w' s ∅ f → groupBit w' i g = groupBit w i g := fun hw =>
    hw.bits i (Set.notMem_empty i) g
  cases heffect with
  | hop hop => exact .inl (hkept hop.gLinkGroups_eq)
  | rest _ hgroups =>
    rcases hgroups with heq | ⟨_, _, _, _, hcall, _⟩
    · exact .inl (hkept heq)
    · subst hcall
      cases hc
  | store => exact .inl rfl
  | create hcall | join hcall =>
    subst hcall
    cases hc
  | reselect _ _ _ _ _ hgroups => exact .inl (hkept hgroups)
  | prio _ _ _ hw | stat _ _ hw | link _ _ _ _ hw | receive _ _ _ _ _ _ _ _ hw | setSys _ _ hw
  | tick _ _ hw | notify _ _ _ hw | leave _ _ _ _ _ hw => exact .inl (hupdate hw)
  | unlink _ hE _ hok hw hgroups =>
    by_cases hi : i ∈ E'
    · exact .inr ⟨hE ▸ hi, hok, fun hlt hg => hgroups i hi hlt g hg⟩
    · exact .inl (hw.bits i hi g)
  | remove _ _ _ _ _ _ hw => exact .inl (hkept (by rw [hw]))

/-! ## The whole call -/

/-- Both calls forget the ports first and then disable them as a batch. -/
theorem exists_unlinks_of_runCall (hc : c.isRemoval = true) (hrange : c.InRange)
    (hmember : ∀ slot port, c = .portLacpDisable slot port →
      stubDbPortLacpIsEnable w slot port = true)
    {fuel : ℕ} {ret : LacpRet} (hrun : runCall fuel w c = some (w', ret)) :
    ∃ u ports, Unlinks c w u ports ∧ trunkPortLacpDisableBatch fuel u ports = some w' := by
  cases c with
  | portLacpDisable slot port =>
    have hport : 1 ≤ port ∧ port ≤ 8 := hrange.2
    simp only [runCall, trunkPortLacpDisable, hmember slot port rfl, trunkSspGetGlobalIndex_eq hport.1,
      Bool.not_true, Bool.false_eq_true, if_false] at hrun
    obtain ⟨v, hbatch, hend⟩ := Option.map_eq_some_iff.mp hrun
    obtain ⟨rfl, -⟩ := Prod.mk.inj hend
    exact ⟨_, _, unlinks_stubDbAggDelMember hport, hbatch⟩
  | aggDelete aggId =>
    obtain ⟨v, hbatch, hend⟩ := Option.map_eq_some_iff.mp hrun
    obtain ⟨rfl, -⟩ := Prod.mk.inj hend
    exact ⟨_, _, unlinks_aggDeletePairs w aggId, hbatch⟩
  | _ => cases hc

theorem groupBit_eq_of_removal (hc : c.isRemoval = true)
    (heffects : Effects (fun w c => i ∉ c.removes w) c (E, w) (E', w')) :
    groupBit w' i g = groupBit w i g :=
  heffects.invariant (P := fun _ v => groupBit v i g = groupBit w i g) (fun hP heffect =>
    (heffect.groupBit_of_removal hc).elim (fun heq => heq.trans hP)
      fun hforgets => absurd hforgets.1 hforgets.2.1) rfl

theorem groupBit_stays_clear (hc : c.isRemoval = true) (hi : i < 144) (hg : g < 32)
    (heffects : Effects R c (E, w) (E', w')) (hclear : groupBit w i g = false) :
    groupBit w' i g = false :=
  heffects.invariant (P := fun _ v => groupBit v i g = false) (fun hP heffect =>
    (heffect.groupBit_of_removal hc).elim (fun heq => heq.trans hP)
      fun hforgets => hforgets.2.2 hi hg) hclear

/-- A removal at rest. -/
theorem leavesClean_of_runCall (h : Coherent ∅ w) (hq : Quiescent w) (hc : c.isRemoval = true)
    (hrange : c.InRange) (hmember : ∀ slot port, c = .portLacpDisable slot port →
      stubDbPortLacpIsEnable w slot port = true)
    {fuel : ℕ} {ret : LacpRet} (hrun : runCall fuel w c = some (w', ret)) : LeavesClean c w w' := by
  obtain ⟨u, ports, hu, hbatch⟩ := exists_unlinks_of_runCall hc hrange hmember hrun
  obtain ⟨heffects, _, hunlisted⟩ := hu.removes (R := fun _ _ => True) h hq trivial hc hbatch
  have hw' : Coherent ∅ w' :=
    (hu.completes (R := fun _ _ => True) h hq trivial hc hbatch).1.invariant
      (fun hP heffect => hP.effect heffect) h
  constructor
  · exact hunlisted
  · intro i hi hlt g hg
    exact groupBit_stays_clear hc hlt hg heffects (hu.groups i hi hlt g hg)
  · intro i hi
    refine hw'.absent i fun a ha hindex => hunlisted a ha ?_
    rw [hindex]
    exact hi
  · intro a ha hspared
    set i := (w.port a).portIndex with hi
    obtain ⟨hcompletes, _⟩ := hu.completes (R := fun w c => i ∉ c.removes w) h hq hspared hc hbatch
    have hlac := (h.port a ha).enabled (Set.notMem_empty _)
    have hstart : Bystander i (w.port a) a ∅ w :=
      ⟨ha, hi.symm, Set.notMem_empty _, (h.portQuiet hq ha).isStarted hlac, .refl _⟩
    have hboth := hcompletes.invariant (P := fun E v => Coherent E v ∧ Bystander i (w.port a) a E v)
      (fun hP heffect => ⟨hP.1.effect heffect, hP.2.effect hP.1 hc heffect⟩) ⟨h, hstart⟩
    exact ⟨hboth.2.listed, hboth.2.config⟩
  · intro i hi g
    exact groupBit_eq_of_removal hc (hu.completes (R := fun w c => i ∉ c.removes w) h hq hi hc hbatch).1

end Effect

/-! ## Every reachable state -/

/-- A port that leaves its group, or all ports of a group that is deleted, are gone without a trace, and
nothing else is touched. With non-zero periods the call returns. -/
theorem reachable_leavesClean (w : World) (h : Reachable w) (c : Call) (hc : c.isRemoval = true)
    (hrange : c.InRange) (hmember : ∀ slot port, c = .portLacpDisable slot port →
      stubDbPortLacpIsEnable w slot port = true) :
    (Periodic w → Returns fun fuel => runCall fuel w c) ∧
      ∀ fuel w' ret, runCall fuel w c = some (w', ret) → LeavesClean c w w' := by
  obtain ⟨hcoherent, hq⟩ := h.coherent
  constructor
  · intro hp
    have hkeeps : c.KeepsPeriods := by
      cases c with
      | portLacpDisable | aggDelete => trivial
      | _ => cases hc
    exact returns_runCall hcoherent hq hp hrange hkeeps
  · exact fun fuel w' ret hrun => leavesClean_of_runCall hcoherent hq hc hrange hmember hrun

/-- Port 1 of `aggregationRun` leaves its group while both ports forward. -/
theorem aggregationRun_leavesClean : ∃ w fuel w' ret, Reachable w ∧ (w.port 0).mux.state = .rxTx ∧
    runCall fuel w (.portLacpDisable 0 1) = some (w', ret) ∧
      LeavesClean (.portLacpDisable 0 1) w w' := by
  have hrun : (runCalls (fun _ _ => true) 25 (initWorld 77) aggregationRun).any (fun w =>
      decide ((w.port 0).mux.state = .rxTx) && stubDbPortLacpIsEnable w 0 1
        && w.sys.fastPeriodicTime != 0 && w.sys.slowPeriodicTime != 0) = true := by
    decide +kernel
  obtain ⟨w, h, _, hw⟩ := exists_reachableBy_of_runCalls (R := fun _ _ => True) (by decide)
    (fun _ _ _ => trivial) hrun
  simp only [Bool.and_eq_true, decide_eq_true_iff, bne_iff_ne] at hw
  obtain ⟨⟨⟨hmux, hmember⟩, hfast⟩, hslow⟩ := hw
  obtain ⟨hreturns, hclean⟩ := reachable_leavesClean w h (.portLacpDisable 0 1) rfl (by decide)
    fun slot port hcall => by
      obtain ⟨rfl, rfl⟩ := Call.portLacpDisable.inj hcall
      exact hmember
  obtain ⟨⟨w', ret⟩, hresult⟩ := hreturns ⟨hfast, hslow⟩
  obtain ⟨fuel, hrun⟩ := hresult.exists_eq_some
  exact ⟨w, fuel, w', ret, h, hmux, hrun, hclean fuel w' ret hrun⟩

end Lacp
