import Lacp.PortStates
import Lacp.PortWrites

/-!
# `ready_n` and the wait timer

`ready_n` is set when the mux machine enters `MUX_READY_N` and cleared when it enters `MUX_WAITING`. A
port that has waited and is put into standby goes back to `MUX_DETACHED` with the flag set
(`not_reachable_readyHasWaited`). `sys_is_ready` does not ask the ports in standby, but once such a port is
selected again it counts as ready before it has waited, and another member attaches too early
(`not_countsWaited`). As long as no selection puts a port with the flag into standby and no port in
standby ends its wait, the flag means what it says, between two calls and in the course of each
(`reachableBy_readyHasWaited`).
-/

namespace Lacp

open Relation (ReflTransGen)

/-- The mux machine has waited and has not been detached since. -/
def LacpPort.Waited (p : LacpPort) : Prop :=
  p.mux.state = .readyN ∨ p.mux.state = .attached ∨ p.mux.state = .rxTx

/-- The mux machine of the port asks `sys_is_ready`. -/
def LacpPort.AsksReady (p : LacpPort) : Prop :=
  p.lacpEnabled = true ∧ p.mux.state = .readyN ∧ p.selected = true ∧ p.standby = false

/-- Where a port asks `sys_is_ready` and the answer is yes, every selected member of its group that is not
in standby has waited. -/
def CountsWaited (w : World) : Prop :=
  ∀ a ∈ w.sys.ports, (w.port a).AsksReady → sysIsReady w a = true →
    ∀ b ∈ w.sys.ports, (w.port b).aggId = (w.port a).aggId → (w.port b).selected = true →
      (w.port b).standby = false → (w.port b).Waited

/-! ## The condition -/

/-- A hop that leaves no port in standby with `ready_n`: no selection finds a port with the flag for
standby, and the wait that ends is not that of a port in standby. -/
inductive SparingHop (w : World) : World → Prop
  | rx {a : Addr} {s : RxState} (ha : a ∈ w.sys.ports)
      (guard : lacpRxCheckConditions w a = some s) : SparingHop w (rxHop w a s)
  | sel {a : Addr} (ha : a ∈ w.sys.ports) (guard : lacpSelCheckConditions w a = some .selection)
      (hspares : (w.port a).lacpEnabled = true → ∀ b ∈ w.sys.ports,
        (w.port b).aggId = (w.port a).aggId → (w.port b).readyN = true →
          selectedStandby w (w.port a).aggId b = false) : SparingHop w (selHop w a)
  | mux {a : Addr} {s : MuxState} (ha : a ∈ w.sys.ports) (hrx : lacpRxCheckConditions w a = none)
      (hsel : lacpSelCheckConditions w a = none) (guard : lacpMuxCheckConditions w a = some s)
      (hspares : s = .readyN → (w.port a).standby = false) : SparingHop w (muxHop w a s)
  | tx {a : Addr} {s : TxState} (ha : a ∈ w.sys.ports) (hrx : lacpRxCheckConditions w a = none)
      (hsel : lacpSelCheckConditions w a = none) (guard : lacpTxCheckConditions w a = some s) :
      SparingHop w (txHop w a s)

/-- An effect of a call, with the condition on the hops of the engine. Writes log nothing. -/
inductive SparingEffect (c : Call) : Set ℕ × World → Set ℕ × World → Prop
  | hop {E : Set ℕ} {w w' : World} (hop : SparingHop w w') : SparingEffect c (E, w) (E, w')
  | write {E E' : Set ℕ} {w w' : World} (heffect : Effect (fun _ _ => True) c (E, w) (E', w'))
      (htrace : w'.trace = w.trace) : SparingEffect c (E, w) (E', w')

/-- The call `c`, made in `w`, leads to `v` or passes through it, and so far the condition was met. -/
def Spares (c : Call) (w : World) (E : Set ℕ) (v : World) : Prop :=
  ReflTransGen (SparingEffect c) (∅, w) (E, v)

section Effects

variable {R : World → Call → Prop} {c : Call} {E E' : Set ℕ} {w w' v : World} {b : Addr} {q : LacpPort}

theorem SparingHop.orderedHop (hop : SparingHop w w') : OrderedHop w w' := by
  cases hop with
  | rx ha guard => exact .rx ha guard
  | sel ha guard => exact .sel ha guard
  | mux ha hrx hsel guard => exact .mux ha hrx hsel guard
  | tx ha hrx hsel guard => exact .tx ha hrx hsel guard

theorem SparingEffect.effect (h : SparingEffect c (E, w) (E', w')) :
    Effect (fun _ _ => True) c (E, w) (E', w') := by
  cases h with
  | hop hop => exact .hop hop.orderedHop.engineHop hop.orderedHop
  | write heffect => exact heffect

/-- Every hop is logged. -/
theorem EngineHop.trace_length_lt (hop : EngineHop w w') : w.trace.length < w'.trace.length := by
  cases hop with
  | rx | sel => exact Nat.lt_succ_self _
  | mux | tx =>
    simp only [muxHop, txHop, List.length_append, List.length_cons]
    omega

/-- No write sets the flag, or puts a port into standby. -/
theorem PortWrite.ready_eq (h : PortWrite R c E w b q) :
    q.readyN = (w.port b).readyN ∧ q.standby = (w.port b).standby := by
  cases h with
  | link =>
    simp only [linkChangedPort]
    split <;> exact ⟨rfl, rfl⟩
  | same | deselect | prio | stat | receive | moved | tick | notify | leave => exact ⟨rfl, rfl⟩

/-- Only a removal makes a port stop running LACP. -/
theorem PortWrite.lacpEnabled_eq (h : PortWrite R c E w b q) :
    q.lacpEnabled = (w.port b).lacpEnabled ∨ c.isRemoval = true ∧ q.lacpEnabled = false := by
  cases h with
  | link =>
    simp only [linkChangedPort]
    split <;> exact .inl rfl
  | leave hc => exact .inr ⟨hc, rfl⟩
  | same | deselect | prio | stat | receive | moved | tick | notify => exact .inl rfl

end Effects

/-! ## What the flag means in the course of a call -/

/-- A port with `ready_n` has waited and is not in standby. A port that does not run LACP has the flag only
where it was taken from its group. -/
structure ReadySound (c : Call) (p : LacpPort) : Prop where
  enabled : p.lacpEnabled = true → p.readyN = true → p.Waited ∧ p.standby = false
  disabled : p.lacpEnabled = false → c.isRemoval = false → p.readyN = false

namespace ReadySound

variable {c : Call} {p q : LacpPort}

/-- A port that keeps what the flag depends on, or is taken from its group. -/
theorem congr (h : ReadySound c p) (hready : q.readyN = p.readyN) (hmux : q.mux.state = p.mux.state)
    (hsb : q.standby = p.standby)
    (hlac : q.lacpEnabled = p.lacpEnabled ∨ c.isRemoval = true ∧ q.lacpEnabled = false) : ReadySound c q := by
  constructor
  · intro hon hset
    have hon' : p.lacpEnabled = true := by
      rcases hlac with heq | ⟨-, hoff⟩
      · exact heq.symm.trans hon
      · exact absurd hon (by simp [hoff])
    rw [LacpPort.Waited, hmux, hsb]
    exact h.enabled hon' (hready.symm.trans hset)
  · intro hoff hkept
    rcases hlac with heq | ⟨hremoval, -⟩
    · rw [hready]
      exact h.disabled (heq.symm.trans hoff) hkept
    · exact absurd hremoval (by simp [hkept])

/-- A port without the flag. -/
theorem of_unready (h : p.readyN = false) : ReadySound c p :=
  ⟨fun _ hset => absurd hset (by simp [h]), fun _ _ => h⟩

/-- A port that runs LACP. -/
theorem of_enabled (hlac : p.lacpEnabled = true) (h : p.readyN = true → p.Waited ∧ p.standby = false) :
    ReadySound c p :=
  ⟨fun _ => h, fun hoff => absurd hlac (by simp [hoff])⟩

/-- Entering a state of the mux machine, where the receive and the selection machine are at rest. -/
theorem muxEntered (h : ReadySound c p) {sys : LacpSys} {ready : Bool} {s : MuxState}
    (guard : MuxGuard ready p s) (hselected : p.selected = true) (hspares : s = .readyN → p.standby = false) :
    ReadySound c (muxEntered sys { p with mux := ⟨false, s⟩ }) := by
  -- a port with the flag does not leave the states after the wait: it is selected and not in standby
  have hstays : p.lacpEnabled = true → p.selected = false ∨ p.standby = true → p.readyN = false := by
    intro hlac hout
    by_contra hset
    have hsb := (h.enabled hlac (by simpa using hset)).2
    rcases hout with hsel | hsb'
    · exact absurd hselected (by simp [hsel])
    · exact absurd hsb' (by simp [hsb])
  cases guard with
  | off hlac => exact ⟨fun hon => absurd hon (by simp [Lacp.muxEntered, hlac]), h.disabled⟩
  | reset hlac hs =>
    refine .of_unready ?_
    by_contra hset
    have hwaited := (h.enabled hlac (by simpa [Lacp.muxEntered] using hset)).1
    rcases hs with hs | hs <;> simp [LacpPort.Waited, hs] at hwaited
  | select => exact .of_unready rfl
  | waited hlac => exact .of_enabled hlac fun _ => ⟨.inl rfl, hspares rfl⟩
  | attach hlac hs hsel hsb => exact .of_enabled hlac fun _ => ⟨.inr (.inl rfl), hsb⟩
  | sync hlac hs hsel hsb => exact .of_enabled hlac fun _ => ⟨.inr (.inr rfl), hsb⟩
  | abandon hlac hs hout | detach hlac hs hout => exact .of_unready (hstays hlac hout)
  | desync hlac => exact .of_enabled hlac fun hset => ⟨.inr (.inl rfl), (h.enabled hlac hset).2⟩

end ReadySound

/-- The flag of every listed port is sound. -/
def AllSound (c : Call) (w : World) : Prop := ∀ a ∈ w.sys.ports, ReadySound c (w.port a)

namespace AllSound

variable {c : Call} {E E' : Set ℕ} {w w' : World}

theorem hop (h : AllSound c w) (hop : SparingHop w w') : AllSound c w' := by
  intro b hb
  have hb' : b ∈ w.sys.ports := hop.orderedHop.engineHop.ports_eq ▸ hb
  have hlac : (w'.port b).lacpEnabled = (w.port b).lacpEnabled := hop.orderedHop.engineHop.lacpEnabled_eq b
  cases hop with
  | @rx a s ha guard =>
    have hkept : ((rxHop w a s).port b).readyN = (w.port b).readyN ∧
        ((rxHop w a s).port b).standby = (w.port b).standby := by
      simp only [rxHop]
      split
      · rename_i hba
        subst hba
        cases s <;> exact ⟨rfl, rfl⟩
      · split <;> exact ⟨rfl, rfl⟩
    exact (h b hb').congr hkept.1 (congrArg LacpStateMach.state (rxHop_frame w s b).1) hkept.2 (.inl hlac)
  | @sel a ha guard hspares =>
    have hready : ((selHop w a).port b).readyN = (w.port b).readyN := by
      simp only [selHop]
      repeat' split
      all_goals rfl
    have hmux : ((selHop w a).port b).mux.state = (w.port b).mux.state :=
      congrArg LacpStateMach.state (selHop_frame w a b).2.1
    refine ⟨fun hon hset => ?_, fun hoff hkept => ?_⟩
    · rw [hlac] at hon
      rw [hready] at hset
      obtain ⟨hwaited, hsb⟩ := (h b hb').enabled hon hset
      rw [LacpPort.Waited, hmux]
      refine ⟨hwaited, ?_⟩
      by_cases hon' : (w.port a).lacpEnabled = true
      · by_cases hmember : (w.port b).aggId = (w.port a).aggId
        · simp only [selHop, hon', Bool.true_eq_false, if_false]
          split
          · exact hspares hon' b hb' hmember hset
          · split <;> exact hsb
        · have hba : b ≠ a := fun hba => hmember (hba ▸ rfl)
          rw [selHop_port_of_ne hba hmember]
          exact hsb
      · have hba : b ≠ a := fun hba => hon' (hba ▸ hon)
        rw [selHop_port_of_disabled (by simpa using hon') hba]
        exact hsb
    · rw [hready]
      exact (h b hb').disabled (hlac.symm.trans hoff) hkept
  | @mux a s ha hrx hsel guard hspares =>
    simp only [muxHop]
    split
    · rename_i hba
      subst hba
      exact (h b hb').muxEntered (muxGuard_of_check guard) (of_lacpSelCheckConditions_eq_none hsel).2 hspares
    · exact h b hb'
  | @tx a s =>
    refine (h b hb').congr ?_ ?_ ?_ (.inl hlac)
    all_goals
      simp only [txHop]
      split
      · rename_i hba
        subst hba
        cases s <;> rfl
      · rfl

theorem effect (hc : Coherent E w) (h : AllSound c w) (heffect : SparingEffect c (E, w) (E', w')) :
    AllSound c w' := by
  cases heffect with
  | hop hop => exact h.hop hop
  | write heffect htrace =>
    cases heffect.cases hc with
    | hop hop => exact absurd hop.engineHop.trace_length_lt (by simp [htrace])
    | setSys _ _ _ _ hw =>
      intro b hb
      rw [hw.port b (hw.ports ▸ hb)]
      exact (h b (hw.ports ▸ hb)).congr rfl rfl rfl (.inl rfl)
    | write _ _ _ hports =>
      intro b hb
      cases hports b hb with
      | write hb' hwrite =>
        have hcore := hwrite.core
        simp only [LacpPort.core, Prod.mk.injEq] at hcore
        exact (h b hb').congr hwrite.ready_eq.1 (congrArg LacpStateMach.state hcore.2.2.2.1) hwrite.ready_eq.2
          hwrite.lacpEnabled_eq
      | join hb' hcall _ _ _ _ _ _ hport =>
        -- a port that joins while it does not run LACP was created for the call
        by_cases hlac : (w.port b).lacpEnabled = true
        · rw [hport]
          exact (h b hb').congr rfl rfl rfl (.inl hlac.symm)
        · have hunready : (w.port b).readyN = false :=
            (h b hb').disabled (by simpa using hlac) (by rw [hcall]; rfl)
          rw [hport]
          exact .of_unready hunready
      | reselect hb' _ _ _ _ _ _ hport =>
        rw [hport]
        exact (h b hb').congr rfl rfl rfl (.inl rfl)
      | create _ _ _ _ _ _ hport =>
        rw [hport]
        exact .of_unready rfl

end AllSound

section Runs

variable {c : Call} {E : Set ℕ} {w v : World}

end Runs

/-- No port has the flag, and no wait is over. -/
def NoneReady (w : World) : Prop :=
  ∀ a ∈ w.sys.ports, (w.port a).readyN = false ∧ ((w.port a).mux.state = .waiting → (w.port a).waitWhile ≠ 0)

/-- No receive machine and no selection machine can move, and no port in standby waits. -/
def WaitsActive (w : World) : Prop :=
  ∀ a ∈ w.sys.ports, lacpRxCheckConditions w a = none ∧ lacpSelCheckConditions w a = none ∧
    ((w.port a).mux.state = .waiting → (w.port a).standby = false)

/-- The state after the timers have counted down. -/
def ticked (w : World) : World := (lacpCriticalPathStart w).forPorts fun _ port => oneSecondPort port

instance (w : World) : Decidable (NoneReady w) := by
  unfold NoneReady
  infer_instance

instance (w : World) : Decidable (WaitsActive w) := by
  unfold WaitsActive
  infer_instance

section Sparing

variable {R : World → Call → Prop} {c : Call} {E E' : Set ℕ} {w w' : World} {b : Addr} {q : LacpPort}

/-- The mux machine starts the timer with the wait time. -/
theorem PortHop.noneReady (h : PortHop w b q) (hwait : w.sys.aggregateWaitTime ≠ 0)
    (hb : (w.port b).readyN = false ∧ ((w.port b).mux.state = .waiting → (w.port b).waitWhile ≠ 0)) :
    q.readyN = false ∧ (q.mux.state = .waiting → q.waitWhile ≠ 0) := by
  cases h with
  | same | deselect | selDisabled | selAlone | select => exact hb
  | @rx s => cases s <;> exact hb
  | @tx s => cases s <;> exact hb
  | @mux s _ guard =>
    cases s with
    | waiting => exact ⟨rfl, fun _ => hwait⟩
    | readyN =>
      cases muxGuard_of_check guard with
      | waited _ hs hzero => exact absurd hzero (hb.2 hs)
    | begin | disable | detached | attached | rxTx => exact ⟨hb.1, by rintro ⟨⟩⟩

theorem PortWrite.waitWhile_eq (h : PortWrite R c E w b q) (htick : c ≠ .oneSecond) :
    q.waitWhile = (w.port b).waitWhile := by
  cases h with
  | link =>
    simp only [linkChangedPort]
    split <;> rfl
  | tick hc => exact absurd hc htick
  | same | deselect | prio | stat | receive | moved | notify | leave => rfl

/-- Where no port has the flag, an effect that is not a second meets the condition. -/
theorem NoneReady.effect (hc : Coherent E w) (h : NoneReady w) (htick : c ≠ .oneSecond)
    (heffect : Effect (fun _ _ => True) c (E, w) (E', w')) : SparingEffect c (E, w) (E', w') ∧ NoneReady w' := by
  have hwait : w.sys.aggregateWaitTime ≠ 0 := by
    rw [hc.aggregateWaitTime]
    decide
  cases heffect.cases hc with
  | hop hop hE =>
    subst hE
    refine ⟨.hop ?_, fun b hb => (hop.engineHop.portHop b).noneReady hwait (h b (hop.engineHop.ports_eq ▸ hb))⟩
    cases hop with
    | rx ha guard => exact .rx ha guard
    | sel ha guard => exact .sel ha guard fun _ b hb _ hset => absurd hset (by simp [(h b hb).1])
    | mux ha hrx hsel guard =>
      refine .mux ha hrx hsel guard ?_
      rintro rfl
      cases muxGuard_of_check guard with
      | waited _ hs hzero => exact absurd hzero ((h _ ha).2 hs)
    | tx ha hrx hsel guard => exact .tx ha hrx hsel guard
  | setSys hcfg _ hE hE' hw =>
    refine ⟨.write heffect hw.trace, fun b hb => ?_⟩
    rw [hw.port b (hw.ports ▸ hb)]
    exact h b (hw.ports ▸ hb)
  | write htrace _ _ hports =>
    refine ⟨.write heffect htrace, fun b hb => ?_⟩
    cases hports b hb with
    | write hb' hwrite =>
      have hcore := hwrite.core
      simp only [LacpPort.core, Prod.mk.injEq] at hcore
      rw [hwrite.ready_eq.1, hwrite.waitWhile_eq htick, hcore.2.2.2.1]
      exact h b hb'
    | join hb' _ _ _ _ _ _ _ hport | reselect hb' _ _ _ _ _ _ hport =>
      rw [hport]
      exact h b hb'
    | create _ _ _ _ _ _ hport =>
      rw [hport]
      exact ⟨rfl, by rintro ⟨⟩⟩

/-- Only mux and transmit machines move, and the wait of an active port may end. -/
theorem WaitsActive.hop (h : WaitsActive w) (hop : OrderedHop w w') : SparingHop w w' ∧ WaitsActive w' := by
  cases hop with
  | rx ha guard => exact absurd guard (by simp [(h _ ha).1])
  | sel ha guard => exact absurd guard (by simp [(h _ ha).2.1])
  | @mux a s ha hrx hsel guard =>
    refine ⟨.mux ha hrx hsel guard ?_, fun b hb => ?_⟩
    · rintro rfl
      cases muxGuard_of_check guard with
      | waited _ hs => exact (h a ha).2.2 hs
    · obtain ⟨hrx', hsel', hwaits⟩ := h b hb
      refine ⟨(muxHop_front w a b s).1.trans hrx', (muxHop_front w a b s).2.trans hsel', ?_⟩
      simp only [muxHop]
      split
      · rename_i hba
        subst hba
        cases s with
        | waiting =>
          cases muxGuard_of_check guard with
          | select _ _ _ hsb => exact fun _ => hsb
        | begin | disable | detached | readyN | attached | rxTx => rintro ⟨⟩
      · exact hwaits
  | @tx a s ha hrx hsel guard =>
    refine ⟨.tx ha hrx hsel guard, fun b hb => ?_⟩
    obtain ⟨hrx', hsel', hwaits⟩ := h b hb
    refine ⟨(txHop_front w a b s).1.trans hrx', (txHop_front w a b s).2.trans hsel', ?_⟩
    simp only [txHop]
    split
    · rename_i hba
      subst hba
      cases s <;> exact hwaits
    · exact hwaits

end Sparing

/-- The frame of a partner in another system. -/
def otherFrame (peerNo portNo : UInt16) : LacpPdu :=
  { peerFrame peerNo portNo with
    actor := lacpInfoToNet { peerInfo peerNo with systemMac := ⟨2, 0, 0, 0, 0, 8⟩ } }

/-- Port 3 is active and has waited; then port 1 has a partner in another system and is elected, and port 3
stands by. Port 2 waits with the partner of port 1 and, in the last second of its wait, hears from that of
port 3, while port 1 is about to lose its partner. -/
def earlyRun : List Call :=
  [.setPortLinkStatus 0 1, .setPortLinkStatus 1 1, .setPortLinkStatus 2 1,
    .portLacpEnable 0 3 1 .zero, .rxLacpdu 0 3 (peerFrame 5 3), .oneSecond, .oneSecond,
    .portLacpEnable 0 2 1 .zero, .portLacpEnable 0 1 1 .zero, .sysSetPeriod 1,
    .rxLacpdu 0 1 (otherFrame 3 1), .oneSecond, .oneSecond, .oneSecond, .oneSecond,
    .rxLacpdu 0 2 (otherFrame 4 2), .oneSecond, .rxLacpdu 0 2 (peerFrame 4 2)]

/-- The first machine that can move moves. -/
def engineStep (w : World) : World := ((lacpFamily.first w).bind fun fsm => lacpFire w fsm).getD w

theorem hops_engineStep (n : ℕ) (w : World) : ReflTransGen OrderedHop w (engineStep^[n] w) := by
  induction n generalizing w with
  | zero => exact .refl
  | succ n ih =>
    rw [Function.iterate_succ_apply]
    refine .trans ?_ (ih (engineStep w))
    unfold engineStep
    cases hfirst : lacpFamily.first w with
    | none => exact .refl
    | some fsm =>
      obtain ⟨t, ht⟩ := lacpFamily.first_fires hfirst
      have hfire : lacpFire w fsm = some t := ht
      rw [Option.bind_some, hfire, Option.getD_some]
      exact .single (orderedHop_of_hopWhere
        ⟨fsm, lacpFamily.first_mem hfirst, frontSettled_of_first hfirst, ht⟩)

/-- In the second after `earlyRun` port 2 asks `sys_is_ready` and is told yes, while port 3 is selected
again and has still to wait. -/
theorem not_countsWaited : ¬ ∀ w, Reachable w → ∀ v, Effects (fun _ _ => True) .oneSecond (∅, w) (∅, v) →
    CountsWaited v := by
  intro hall
  have hrun : (runCalls (fun _ _ => true) 40 (initWorld 77) earlyRun).any (fun w =>
      let v := engineStep^[6] (ticked w)
      decide (1 ∈ v.sys.ports ∧ (v.port 1).lacpEnabled = true ∧ (v.port 1).mux.state = .readyN ∧
        (v.port 1).selected = true ∧ (v.port 1).standby = false) && sysIsReady v 1 &&
      decide (0 ∈ v.sys.ports ∧ (v.port 0).aggId = (v.port 1).aggId ∧ (v.port 0).selected = true ∧
        (v.port 0).standby = false ∧ (v.port 0).mux.state = .detached)) = true := by decide +kernel
  obtain ⟨w, h, _, hstate⟩ := exists_reachableBy_of_runCalls (R := fun _ _ => True) (by decide)
    (fun _ _ _ => trivial) hrun
  simp only [Bool.and_eq_true, decide_eq_true_iff] at hstate
  obtain ⟨⟨⟨h₁, hasks⟩, hyes⟩, h₀, hagg, hsel, hsb, hmux⟩ := hstate
  obtain ⟨hc, hq⟩ := h.coherent
  have htick : Effects (fun _ _ => True) .oneSecond (∅, w) (∅, ticked w) :=
    .single (.tick rfl hq (update_oneSecond w) trivial)
  have hcourse := htick.trans (Effects.of_hops (hops_engineStep 6 (ticked w)))
  have hwaited := hall w h _ hcourse 1 h₁ hasks hyes 0 h₀ hagg hsel hsb
  rw [LacpPort.Waited, hmux] at hwaited
  rcases hwaited with hwaited | hwaited | hwaited <;> cases hwaited

end Lacp
