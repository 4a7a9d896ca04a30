import Lacp.PortWrites
import Lacp.Reachability
import Lacp.Termination

/-!
# Every call returns

Reference: `lacp_sys_set_cfg`, `lacp_tx_enter_state` and `lacp_change_state`.

A period is an argument of 32 bits that is stored in 16, and none is refused. A period that is stored as
zero makes the transmit machine enter `TXM_PERIODIC_TX` for ever. As long as no call stores a multiple of
2^16 the two periods stay non-zero, and then every call returns from every state between two calls
(`reachableBy_neverSpins`).
-/

namespace Lacp

open Fuel (Returns)

/-- Neither of the two periods is zero. -/
structure Periodic (w : World) : Prop where
  fastPeriodicTime : w.sys.fastPeriodicTime ≠ 0
  slowPeriodicTime : w.sys.slowPeriodicTime ≠ 0

/-- The call stores no period that is a multiple of 2^16. -/
def Call.KeepsPeriods : Call → Prop
  | .sysSetLongPeriod period | .sysSetShortPeriod period => period.toUInt16 ≠ 0
  | _ => True

instance : (c : Call) → Decidable c.KeepsPeriods
  | .sysSetLongPeriod _ | .sysSetShortPeriod _ => inferInstanceAs (Decidable (_ ≠ _))
  | .sysSetPrio _ | .sysSetPeriod _ | .portLacpEnable _ _ _ _ | .portLacpDisable _ _
  | .aggDelete _ | .portSetPrio _ _ _ | .portSetSpeed _ _ _ | .portSetDuplex _ _ _
  | .portLinkChange _ _ _ | .portClearStat _ _ | .setPortLinkStatus _ _ | .rxLacpdu _ _ _
  | .oneSecond => isTrue trivial

variable {R : World → Call → Prop} {c : Call} {E E' : Set ℕ} {w w' u v : World} {fuel slot port : ℕ}

/-! ## The periods during a call -/

/-- A period changes only where a system setting stores it. -/
theorem Effect.periods (hcoherent : Coherent E w) (heffect : Effect R c (E, w) (E', w')) :
    (w'.sys.fastPeriodicTime = w.sys.fastPeriodicTime ∨
      ∃ period, c = .sysSetShortPeriod period ∧ w'.sys.fastPeriodicTime = period.toUInt16) ∧
    (w'.sys.slowPeriodicTime = w.sys.slowPeriodicTime ∨
      ∃ period, c = .sysSetLongPeriod period ∧ w'.sys.slowPeriodicTime = period.toUInt16) := by
  cases heffect.cases hcoherent with
  | hop hop =>
    rw [hop.engineHop.sys_eq]
    exact ⟨.inl rfl, .inl rfl⟩
  | @setSys cfg hcfg _ _ _ hw =>
    have hsys := hw.sys
    rw [SysKept] at hsys
    rw [hsys]
    cases c with
    | sysSetLongPeriod period =>
      obtain rfl := Option.some.inj hcfg
      exact ⟨.inl rfl, .inr ⟨period, rfl, rfl⟩⟩
    | sysSetShortPeriod period =>
      obtain rfl := Option.some.inj hcfg
      exact ⟨.inr ⟨period, rfl, rfl⟩, .inl rfl⟩
    | sysSetPrio | sysSetPeriod =>
      obtain rfl := Option.some.inj hcfg
      exact ⟨.inl rfl, .inl rfl⟩
    | _ => cases hcfg
  | write _ hsys =>
    rw [SysKept] at hsys
    rw [hsys]
    exact ⟨.inl rfl, .inl rfl⟩

theorem Periodic.effect (h : Periodic w) (hc : c.KeepsPeriods) (hcoherent : Coherent E w)
    (heffect : Effect R c (E, w) (E', w')) : Periodic w' := by
  obtain ⟨hfast, hslow⟩ := heffect.periods hcoherent
  constructor
  · rcases hfast with heq | ⟨period, rfl, hstored⟩
    · rw [heq]
      exact h.fastPeriodicTime
    · rw [hstored]
      exact hc
  · rcases hslow with heq | ⟨period, rfl, hstored⟩
    · rw [heq]
      exact h.slowPeriodicTime
    · rw [hstored]
      exact hc

theorem Periodic.effects (h : Periodic w) (hc : c.KeepsPeriods) (hcoherent : Coherent E w)
    (heffects : Effects R c (E, w) (E', w')) : Coherent E' w' ∧ Periodic w' :=
  heffects.invariant (P := fun E w => Coherent E w ∧ Periodic w)
    (fun hP heffect => ⟨hP.1.effect heffect, hP.2.effect hc hP.1 heffect⟩) ⟨hcoherent, h⟩

/-! ## Entry points -/

/-- The engine returns on every coherent state. -/
theorem Coherent.returns (h : Coherent E w) (hp : Periodic w) :
    Returns fun fuel => lacpSysUpdate fuel w := by
  refine returns_lacpSysUpdate h.idle ⟨hp.fastPeriodicTime, hp.slowPeriodicTime, ?_, ?_, ?_, ?_⟩
  · rw [h.shortTimeoutTime]
    decide
  · rw [h.longTimeoutTime]
    decide
  · rw [h.aggregateWaitTime]
    decide
  · exact fun a ha hlac => h.aggId_ne_zero ha hlac

theorem Settles.returns {f : ℕ → Option World} (hf : Settles R c E w f) (h : Coherent E w)
    (hp : Periodic w) (hc : c.KeepsPeriods) : Returns f := by
  obtain ⟨u, he, hf⟩ := hf
  obtain ⟨hu, hpu⟩ := hp.effects hc h he
  exact ((hu.returns hpu).map lacpCriticalPathEnd).congr hf

theorem Serves.returns {f : ℕ → Option (World × LacpRet)} (hf : Serves R c w f) (h : Coherent ∅ w)
    (hp : Periodic w) (hc : c.KeepsPeriods) : Returns f := by
  cases hf with
  | done _ hf => exact (Returns.const _).congr hf
  | settle he hf =>
    obtain ⟨hu, hpu⟩ := hp.effects hc h he
    exact ((hu.returns hpu).map _).congr hf

/-! ## Joining and leaving a link group -/

/-- `trunk_port_lacp_enable` runs the engine three times. -/
theorem returns_trunkPortLacpEnable {aggId : ℕ} {sysMac : LacpMac}
    (h : Coherent ∅ w) (hq : Quiescent w) (hp : Periodic w) (hport : 1 ≤ port ∧ port ≤ 8)
    (haggId : 1 ≤ aggId) : Returns fun fuel => trunkPortLacpEnable fuel w slot port aggId sysMac := by
  set c : Call := .portLacpEnable slot port aggId sysMac with hc
  have hkeeps : c.KeepsPeriods := trivial
  simp only [trunkPortLacpEnable, trunkSspGetGlobalIndex_eq hport.1, trunkPortGetPrio,
    Option.map_some, Option.bind_eq_bind]
  refine Returns.bind ?_ fun _ u hcreate => ?_
  · rcases lacpCreatePorts_eq (R := fun _ _ => True) trivial hc rfl with ⟨hrun, _⟩ | ⟨u, hrun, he, _⟩
    · exact (h.returns hp).congr hrun
    · obtain ⟨hu, hpu⟩ := hp.effects hkeeps h he
      exact (hu.returns hpu).congr hrun
  · obtain ⟨E, he, hsettles⟩ := settles_join_of_create (R := fun _ _ => True) h hq trivial hc hport
      haggId hcreate
    obtain ⟨hu, hpu⟩ := hp.effects hkeeps h he
    refine Returns.bind (hsettles.returns hu hpu hkeeps) fun _ v hcfg => ?_
    obtain ⟨hjoin, hq'⟩ := hsettles.effects hu hcfg
    obtain ⟨hv, hpv⟩ := hpu.effects hkeeps hu hjoin
    have hserves := serves_lacpPortLinkChange (R := fun _ _ => True) hv hq' (c := c) rfl rfl (.inl rfl)
    exact hserves.returns hv hpv hkeeps

/-- A port leaves its group: the engine runs before it does. -/
theorem returns_cfgPort (h : Coherent E v) (hp : Periodic v) {cfg : LacpPortCfg}
    (hcfg : cfg.Disabling) {a : Addr} (hE : (v.port a).portIndex ∈ E) :
    Returns fun fuel => cfgPort fuel cfg v a := by
  have hcoherent : Coherent E (notifyPartner v a) := h.notify hE (update_modify v notifyPort)
  have hnotified : Returns fun fuel => lacpSysUpdate fuel (notifyPartner v a) :=
    hcoherent.returns ⟨hp.fastPeriodicTime, hp.slowPeriodicTime⟩
  simp only [cfgPort, cfgPortState, hcfg.1, hcfg.2, if_true, Bool.false_eq_true, if_false]
  exact (hnotified.map _).map _

theorem returns_cfgPortIndex (h : Coherent E v) (hp : Periodic v) {cfg : LacpPortCfg}
    (hcfg : cfg.Disabling) {i : ℕ} (hbit : lacpBitmapGetBit cfg.portBmp i = true → i ∈ E) :
    Returns fun fuel => cfgPortIndex fuel cfg v i := by
  simp only [cfgPortIndex]
  split
  · exact .const v
  · rename_i hin
    cases hfind : lacpPortFind v i with
    | none => exact .const v
    | some a =>
      obtain ⟨-, rfl⟩ := lacpPortFind_eq_some hfind
      exact returns_cfgPort h hp hcfg (hbit (by simpa using hin))

/-- `trunk_port_lacp_disable_batch` runs the engine once for each port, and once more. -/
theorem Unlinks.returns {ports : LacpBitmap} (hu : Unlinks c w u ports) (h : Coherent ∅ w)
    (hq : Quiescent w) (hp : Periodic w) (hkeeps : c.KeepsPeriods) (hc : c.isRemoval = true) :
    Returns fun fuel => trunkPortLacpDisableBatch fuel u ports := by
  have hlocked : Effect (fun _ _ => True) c (∅, w) (c.removes w, lacpCriticalPathStart u) :=
    hu.effect hq trivial hc
  have hstart := h.effect hlocked
  have hpstart := hp.effect hkeeps h hlocked
  -- every state in the loop is coherent and has its periods
  have hrounds : ∀ k ≤ lacpPortMax, ∀ fuel t,
      (List.range k).foldlM (cfgPortIndex fuel (leaveCfg ports)) (lacpCriticalPathStart u) = some t →
      Coherent (c.removes w) t ∧ Periodic t := by
    intro k hk fuel t ht
    have hleaves := foldlM_leave (R := fun _ _ => True) hstart hc
      (fun j hj => hu.bits j (lt_of_lt_of_le hj hk)) (fun _ ha => hu.lacpEnabled h ha) ht
    exact hpstart.effects hkeeps hstart hleaves.effects
  have hloop : Returns fun fuel => (List.range lacpPortMax).foldlM
      (cfgPortIndex fuel (leaveCfg ports)) (lacpCriticalPathStart u) := by
    refine Returns.foldlM_range fun k hk fuel t ht => ?_
    obtain ⟨hcoherent, hperiodic⟩ := hrounds k hk.le fuel t ht
    exact returns_cfgPortIndex hcoherent hperiodic (leaveCfg_disabling ports) (hu.bits k hk).mp
  have hcfg : Returns fun fuel => lacpPortSetCfg fuel u (leaveCfg ports) := by
    refine Returns.bind hloop fun fuel t ht => ?_
    obtain ⟨hcoherent, hperiodic⟩ := hrounds lacpPortMax le_rfl fuel t ht
    exact Returns.bind (hcoherent.returns hperiodic) fun _ _ _ => .const _
  exact Returns.bind hcfg fun _ _ _ => .const _

/-! ## All calls -/

/-- With non-zero periods every call that keeps them returns. -/
theorem returns_runCall (h : Coherent ∅ w) (hq : Quiescent w) (hp : Periodic w)
    (hrange : c.InRange) (hkeeps : c.KeepsPeriods) : Returns fun fuel => runCall fuel w c := by
  cases c with
  | sysSetPrio | sysSetLongPeriod | sysSetShortPeriod | sysSetPeriod =>
    exact ((settles_lacpSysSetCfg (R := fun _ _ => True) trivial rfl rfl rfl).returns h hp hkeeps).map _
  | portLacpEnable slot port aggId sysMac =>
    exact returns_trunkPortLacpEnable h hq hp ⟨hrange.2.1, hrange.2.2.1⟩ hrange.2.2.2.1
  | portLacpDisable slot port =>
    simp only [runCall, trunkPortLacpDisable, trunkSspGetGlobalIndex_eq hrange.2.1]
    split
    · exact .const _
    · exact ((unlinks_stubDbAggDelMember hrange.2).returns h hq hp hkeeps rfl).map _
  | aggDelete aggId =>
    exact ((unlinks_aggDeletePairs w aggId).returns h hq hp hkeeps rfl).map _
  | portSetPrio slot port prio =>
    simp only [runCall, trunkPortSetPrio, trunkSspGetGlobalIndex_eq hrange.2.1, Option.bind_eq_bind,
      Option.bind_some, Option.pure_def]
    split
    · have hsettles := settles_cfgPrio (R := fun _ _ => True) (c := .portSetPrio slot port prio) h
        trivial rfl rfl rfl
      exact Returns.bind (hsettles.returns h hp hkeeps) fun _ _ _ => .const _
    · exact .const _
  | portSetSpeed slot port speed =>
    simp only [runCall, trunkPortSetSpeed, trunkSspGetGlobalIndex_eq hrange.2.1]
    have hsettles := settles_cfgCost (R := fun _ _ => True) (c := .portSetSpeed slot port speed) h
      trivial { w.gPortList (globalIndex slot port) with speed := speed } rfl rfl rfl rfl rfl
    exact (hsettles.returns h hp hkeeps).map _
  | portSetDuplex slot port duplex =>
    simp only [runCall, trunkPortSetDuplex, trunkSspGetGlobalIndex_eq hrange.2.1]
    have hsettles := settles_cfgCost (R := fun _ _ => True) (c := .portSetDuplex slot port duplex)
      h trivial { w.gPortList (globalIndex slot port) with duplex := duplex } rfl rfl rfl rfl rfl
    exact (hsettles.returns h hp hkeeps).map _
  | portLinkChange slot port linkStatus =>
    simp only [runCall, trunkPortLinkChange, trunkSspGetGlobalIndex_eq hrange.2.1]
    split
    · exact .const _
    · have hserves := serves_lacpPortLinkChange (R := fun _ _ => True)
        (c := .portLinkChange slot port linkStatus) h hq rfl rfl (.inr ⟨rfl, trivial⟩)
      exact hserves.returns h hp hkeeps
  | portClearStat slot port =>
    simp only [runCall, trunkPortClearStat, trunkSspGetGlobalIndex_eq hrange.2.1,
      Option.bind_eq_bind, Option.bind_some, Option.pure_def]
    split
    · have hsettles := settles_cfgStat (R := fun _ _ => True) (c := .portClearStat slot port) h rfl
      exact Returns.bind (hsettles.returns h hp hkeeps) fun _ _ _ => .const _
    · exact .const _
  | setPortLinkStatus portIndex linkStatus => exact .const _
  | rxLacpdu slot port pdu =>
    simp only [runCall, trunkSspRxLacpdu, trunkSspGetGlobalIndex_eq hrange.2.1]
    split
    · exact .const _
    · exact (serves_lacpRxLacpdu (R := fun _ _ => True) h hq rfl trivial).returns h hp hkeeps
  | oneSecond =>
    exact ((settles_lacpOneSecond (R := fun _ _ => True) h hq trivial rfl).returns h hp hkeeps).map _

/-! ## Runs -/

/-- No configuration makes the engine spin: neither period is zero, and every accepted call returns. -/
structure NeverSpins (accepted : Call → Prop) (w : World) : Prop where
  fastPeriodicTime : w.sys.fastPeriodicTime ≠ 0
  slowPeriodicTime : w.sys.slowPeriodicTime ≠ 0
  returns : ∀ c : Call, c.InRange → accepted c → Returns fun fuel => runCall fuel w c

theorem ReachableBy.periodic (h : ReachableBy (fun _ c => c.KeepsPeriods) w) : Periodic w :=
  h.invariant_of_calls (P := fun _ c _ w => c.KeepsPeriods ∧ Periodic w)
    (fun _ => ⟨by simp [initWorld, lacpSysInit], by simp [initWorld, lacpSysInit]⟩)
    (fun _ _ hp hkeeps _ => ⟨hkeeps, hp⟩)
    (fun _ _ hcoherent hP heffect => ⟨hP.1, hP.2.effect hP.1 hcoherent heffect⟩)
    fun _ _ _ _ hP => hP.2

/-- As long as no call stores a multiple of 2^16 as a period, no call makes the engine spin. -/
theorem reachableBy_neverSpins (h : ReachableBy (fun _ c => c.KeepsPeriods) w) :
    NeverSpins Call.KeepsPeriods w := by
  obtain ⟨hcoherent, hq⟩ := h.coherent
  have hp := h.periodic
  exact ⟨hp.fastPeriodicTime, hp.slowPeriodicTime, fun c hrange hkeeps =>
    returns_runCall hcoherent hq hp hrange hkeeps⟩

/-- The calls of `aggregationRun` after other periods are set. -/
theorem aggregationRun_neverSpins :
    ∃ w, ReachableBy (fun _ c => c.KeepsPeriods) w ∧ w.sys.slowPeriodicTime = 20 ∧
      w.sys.ports.length = 2 ∧ NeverSpins Call.KeepsPeriods w := by
  have hrun : (runCalls (fun _ c => decide c.KeepsPeriods) 60 (initWorld 77)
      (.sysSetLongPeriod 20 :: .sysSetShortPeriod 2 :: aggregationRun)).any
        (fun w => w.sys.slowPeriodicTime == 20 && w.sys.ports.length == 2) = true := by
    decide +kernel
  obtain ⟨w, h, _, hw⟩ := exists_reachableBy_of_runCalls (R := fun _ c => c.KeepsPeriods)
    (by decide) (fun _ _ htest => of_decide_eq_true htest) hrun
  simp only [Bool.and_eq_true, beq_iff_eq] at hw
  exact ⟨w, h, hw.1, hw.2, reachableBy_neverSpins h⟩

/-- Zero, like any multiple of 2^16, is accepted as a long period and stored as zero. -/
theorem not_reachable_neverSpins : ¬ ∀ w, Reachable w → NeverSpins (fun _ => True) w := by
  have hrun : (runCalls (fun _ _ => true) 60 (initWorld 77) [.sysSetLongPeriod 65536]).any
      (fun w => w.sys.slowPeriodicTime == 0) = true := by
    decide +kernel
  obtain ⟨w, h, _, hw⟩ := exists_reachableBy_of_runCalls (R := fun _ _ => True) (by decide)
    (fun _ _ _ => trivial) hrun
  intro hall
  exact (hall w h).slowPeriodicTime (by simpa using hw)

end Lacp
