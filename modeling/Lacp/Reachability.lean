import Lacp.Membership

/-!
# Reachable states

Every call leads from rest to rest by effects (`completes_of_step`), so between two calls the machines
are coherent and no machine can move, and what every effect preserves holds of every reachable state
(`ReachableBy.invariant_of_effects`).
-/

namespace Lacp

variable {w w' : World} {R : World → Call → Prop} {c : Call}

/-- Every call that returns leads from rest to rest. -/
theorem completes_of_step (h : Coherent ∅ w) (hq : Quiescent w) (hok : R w c)
    (hstep : Step c w w') : Completes R c w w' := by
  obtain ⟨hrange, fuel, ret, hrun⟩ := hstep
  cases c with
  | sysSetPrio prio =>
    obtain ⟨v, hv, hend⟩ := Option.map_eq_some_iff.mp hrun
    obtain ⟨rfl, -⟩ := Prod.mk.inj hend
    refine ((settles_lacpSysSetCfg hok rfl rfl rfl).completes h hv).rest ?_ rfl rfl
    exact ⟨rfl, rfl, fun _ _ => rfl, rfl, rfl, fun _ => rfl, fun _ => rfl, fun _ _ => rfl,
      fun _ _ _ => rfl⟩
  | sysSetLongPeriod period | sysSetShortPeriod period | sysSetPeriod isShort =>
    obtain ⟨v, hv, hend⟩ := Option.map_eq_some_iff.mp hrun
    obtain ⟨rfl, -⟩ := Prod.mk.inj hend
    exact (settles_lacpSysSetCfg hok rfl rfl rfl).completes h hv
  | portLacpEnable slot port aggId sysMac =>
    exact completes_trunkPortLacpEnable h hq hok ⟨hrange.2.1, hrange.2.2.1⟩ hrange.2.2.2.1 hrun
  | portLacpDisable slot port => exact completes_trunkPortLacpDisable h hq hok hrange.2 hrun
  | aggDelete aggId => exact completes_trunkAggDelete h hq hok hrun
  | portSetPrio slot port prio =>
    simp only [runCall, trunkPortSetPrio, trunkSspGetGlobalIndex_eq hrange.2.1, Option.bind_eq_bind,
      Option.bind_some, Option.pure_def] at hrun
    split at hrun
    · obtain ⟨v, hv, hend⟩ := Option.bind_eq_some_iff.mp hrun
      obtain ⟨rfl, -⟩ := Prod.mk.inj (Option.some.inj hend)
      have hsettles := settles_cfgPrio (c := .portSetPrio slot port prio) h hok rfl rfl rfl
      exact (hsettles.completes h hv).store rfl rfl
    · obtain ⟨rfl, -⟩ := Prod.mk.inj (Option.some.inj hrun)
      exact Completes.store (.refl hq) rfl rfl
  | portSetSpeed slot port speed =>
    simp only [runCall, trunkPortSetSpeed, trunkSspGetGlobalIndex_eq hrange.2.1] at hrun
    obtain ⟨v, hv, hend⟩ := Option.map_eq_some_iff.mp hrun
    obtain ⟨rfl, -⟩ := Prod.mk.inj hend
    exact (settles_cfgCost h hok { w.gPortList (globalIndex slot port) with speed := speed } rfl rfl
      rfl rfl rfl).completes h hv
  | portSetDuplex slot port duplex =>
    simp only [runCall, trunkPortSetDuplex, trunkSspGetGlobalIndex_eq hrange.2.1] at hrun
    obtain ⟨v, hv, hend⟩ := Option.map_eq_some_iff.mp hrun
    obtain ⟨rfl, -⟩ := Prod.mk.inj hend
    exact (settles_cfgCost h hok { w.gPortList (globalIndex slot port) with duplex := duplex } rfl
      rfl rfl rfl rfl).completes h hv
  | portLinkChange slot port linkStatus =>
    simp only [runCall, trunkPortLinkChange, trunkSspGetGlobalIndex_eq hrange.2.1] at hrun
    split at hrun
    · obtain ⟨rfl, -⟩ := Prod.mk.inj (Option.some.inj hrun)
      exact .refl hq
    · exact (serves_lacpPortLinkChange h hq rfl rfl (.inr ⟨rfl, hok⟩)).completes h hrun
  | portClearStat slot port =>
    simp only [runCall, trunkPortClearStat, trunkSspGetGlobalIndex_eq hrange.2.1,
      Option.bind_eq_bind, Option.bind_some, Option.pure_def] at hrun
    split at hrun
    · obtain ⟨v, hv, hend⟩ := Option.bind_eq_some_iff.mp hrun
      obtain ⟨rfl, -⟩ := Prod.mk.inj (Option.some.inj hend)
      exact (settles_cfgStat h rfl).completes h hv
    · obtain ⟨rfl, -⟩ := Prod.mk.inj (Option.some.inj hrun)
      exact .refl hq
  | setPortLinkStatus portIndex linkStatus =>
    obtain ⟨rfl, -⟩ := Prod.mk.inj (Option.some.inj hrun)
    exact Completes.store (.refl hq) rfl rfl
  | rxLacpdu slot port pdu =>
    simp only [runCall, trunkSspRxLacpdu, trunkSspGetGlobalIndex_eq hrange.2.1] at hrun
    split at hrun
    · obtain ⟨rfl, -⟩ := Prod.mk.inj (Option.some.inj hrun)
      exact .refl hq
    · exact (serves_lacpRxLacpdu h hq rfl hok).completes h hrun
  | oneSecond =>
    obtain ⟨v, hv, hend⟩ := Option.map_eq_some_iff.mp hrun
    obtain ⟨rfl, -⟩ := Prod.mk.inj hend
    exact (settles_lacpOneSecond h hq hok rfl).completes h hv

/-- A bridge without ports is at rest. -/
theorem coherent_initWorld (pid : UInt32) : Coherent ∅ (initWorld pid) where
  idle := fun _ ha => nomatch ha
  shortTimeoutTime := rfl
  longTimeoutTime := rfl
  aggregateWaitTime := rfl
  adminState := rfl
  nodup := List.nodup_nil
  index_lt := fun _ ha => nomatch ha
  addr_lt := fun _ ha => nomatch ha
  port := fun _ ha => nomatch ha
  absent := fun _ _ => ⟨rfl, rfl⟩

/-- Between two calls the machines are coherent and none of them can move. -/
theorem ReachableBy.coherent (h : ReachableBy R w) : Coherent ∅ w ∧ Quiescent w := by
  apply h.invariant (fun pid => ⟨coherent_initWorld pid, fun _ ha => nomatch ha⟩)
  intro v v' c _ ih hok hstep
  obtain ⟨heffects, hq⟩ := completes_of_step ih.1 ih.2 hok hstep
  exact ⟨ih.1.effects heffects, hq⟩

/-- A port between two calls. -/
theorem ReachableBy.port (h : ReachableBy R w) {a : Addr} (ha : a ∈ w.sys.ports) :
    PortCoherent ∅ w.sys (w.port a) (w.gPortList (w.port a).portIndex) ∧ PortQuiet (w.port a) :=
  ⟨h.coherent.1.port a ha, h.coherent.1.portQuiet h.coherent.2 ha⟩

/-- The invariant rule for runs, call by call: between two calls `Q` holds, and during the call `c` made
in `w₀` the invariant `P w₀ c` is kept by every effect. -/
theorem ReachableBy.invariant_of_calls {Q : World → Prop}
    {P : World → Call → Set ℕ → World → Prop} (init : ∀ pid, Q (initWorld pid))
    (start : ∀ {w c}, Coherent ∅ w → Quiescent w → Q w → R w c → c.InRange → P w c ∅ w)
    (effect : ∀ {w₀ c E w E' w'}, R w₀ c → c.InRange → Coherent E w → P w₀ c E w →
      Effect R c (E, w) (E', w') → P w₀ c E' w')
    (finish : ∀ {w₀ c w}, R w₀ c → c.InRange → Coherent ∅ w → Quiescent w → P w₀ c ∅ w → Q w)
    (h : ReachableBy R w) : Q w := by
  apply h.invariant init
  intro v v' c hv ih hok hstep
  obtain ⟨hcoherent, hq⟩ := hv.coherent
  obtain ⟨heffects, hq'⟩ := completes_of_step hcoherent hq hok hstep
  -- The effects between the two states need coherence too, so both are carried along.
  have hboth := heffects.invariant (P := fun E w => Coherent E w ∧ P v c E w)
    (fun hP heffect => ⟨hP.1.effect heffect, effect hok hstep.1 hP.1 hP.2 heffect⟩)
    ⟨hcoherent, start hcoherent hq ih hok hstep.1⟩
  exact finish hok hstep.1 hboth.1 hq' hboth.2

/-- The invariant rule for runs, effect by effect. -/
theorem ReachableBy.invariant_of_effects {P : Set ℕ → World → Prop}
    (init : ∀ pid, P ∅ (initWorld pid))
    (effect : ∀ {c E w E' w'}, Coherent E w → P E w → Effect R c (E, w) (E', w') → P E' w')
    (h : ReachableBy R w) : P ∅ w :=
  h.invariant_of_calls (Q := P ∅) (P := fun _ _ => P) init (fun _ _ hP _ _ => hP)
    (fun _ _ hc hP heffect => effect hc hP heffect) fun _ _ _ _ hP => hP

/-! ## A run

Two ports of one link group, each with a partner that answers, three seconds after the frames.
-/

/-- The state of an active port that can be aggregated and is in sync. -/
def syncState : LacpState := ⟨true, false, true, true, true, true, false, false⟩

/-- What the partner at port `portNo` says of itself. -/
def peerInfo (portNo : UInt16) : LacpPortInfo where
  systemPriority := 1
  systemMac := ⟨2, 0, 0, 0, 0, 9⟩
  key := 5
  portPriority := 7
  portNo := portNo
  state := syncState

/-- What a port of the bridge with process id 77 says of itself in link group 1. -/
def localInfo (portNo : UInt16) : LacpPortInfo where
  systemPriority := defaultSystemPriority
  systemMac := trunkSspGetMac 77 .zero
  key := 259
  portPriority := defaultPortPriority
  portNo := portNo
  state := { syncState with SYN := false, COL := false, DIS := false }

/-- The frame in which the partner answers. -/
def peerFrame (peerNo portNo : UInt16) : LacpPdu :=
  { lacpduPacket 0 .zero with
    actor := lacpInfoToNet (peerInfo peerNo), partner := lacpInfoToNet (localInfo portNo) }

/-- Ports 1 and 2 of slot 0 join link group 1 and exchange frames with their partners. -/
def aggregationRun : List Call :=
  [.setPortLinkStatus 0 1, .setPortLinkStatus 1 1,
    .portLacpEnable 0 1 1 .zero, .portLacpEnable 0 2 1 .zero,
    .rxLacpdu 0 1 (peerFrame 3 1), .rxLacpdu 0 2 (peerFrame 4 2),
    .oneSecond, .oneSecond, .oneSecond]

/-- A property of the state after a run is a property of a reachable state. -/
theorem exists_reachableBy_of_runCalls {R : World → Call → Prop} {test : World → Call → Bool}
    {fuel : ℕ} {pid : UInt32} {calls : List Call} {result : World → Bool}
    (hrange : ∀ c ∈ calls, c.InRange) (htest : ∀ w c, test w c = true → R w c)
    (hresult : (runCalls test fuel (initWorld pid) calls).any result = true) :
    ∃ w, ReachableBy R w ∧ runCalls test fuel (initWorld pid) calls = some w ∧
      result w = true := by
  cases hrun : runCalls test fuel (initWorld pid) calls with
  | none => simp [hrun] at hresult
  | some w =>
    rw [hrun] at hresult
    exact ⟨w, reachableBy_of_runCalls (.init pid) hrange htest hrun, rfl, hresult⟩

end Lacp
