import Mathlib.Data.Prod.Lex
import Mathlib.Algebra.GroupWithZero.Nat
import Mathlib.Algebra.Order.BigOperators.Group.List
import Mathlib.Algebra.Order.Group.Nat
import Lacp.Library.Fuel
import Lacp.Sys

/-!
# The engine terminates

Reference: `lacp_sys_update` and `lacp_change_state`.

Neither loop is bounded. Each machine gets a rank that every hop of that machine lowers. A receive hop
may raise the ranks of the other machines, a selection hop those of the mux machines, a mux hop those
of the transmit machines, so the measure of the engine is the lexicographic product of the four sums
over the ports (`engineMeasure`, `EngineHop.engineMeasure_lt`).
-/

namespace Lacp

/-! ## Ranks -/

/-- How far the receive machine can still go. -/
def rxRank (p : LacpPort) : ℕ :=
  let down := !p.portEnabled && !p.portMoved
  match p.rx.state with
  | .begin => 9
  | .init => if p.portMoved then 8 else 6
  | .portDisabled => if p.portMoved then 7 else if p.portEnabled then 5 else 0
  | .lacpDisabled => if down then 1 else if p.portEnabled && p.lacpEnabled then 4 else 0
  | .expired => if down then 1 else if p.currentWhile = 0 then 3 else if p.rcvdLacpdu then 2 else 0
  | .defaulted => if down then 1 else if p.rcvdLacpdu then 2 else 0
  | .current => if down then 1 else if p.rcvdLacpdu || p.currentWhile = 0 then 1 else 0

/-- A selection is due, or it is not. -/
def selRank (p : LacpPort) : ℕ :=
  if p.sel.state = .selection ∧ p.selected = true then 0 else 1

/-- How far the mux machine can still go. A selected port climbs from `MUX_DETACHED` and settles in
`MUX_ATTACHED` or `MUX_RX_TX`, any other port descends to `MUX_DETACHED`. -/
def muxRank (p : LacpPort) : ℕ :=
  if !p.lacpEnabled then
    if p.mux.state = .disable then 0 else 1
  else if p.selected && !p.standby then
    match p.mux.state with
    | .begin | .disable => 4
    | .detached => 3
    | .waiting => if p.waitWhile = 0 then 3 else 0
    | .readyN => 2
    | .attached => if p.partner.state.SYN then 1 else 0
    | .rxTx => if p.partner.state.SYN then 0 else 1
  else
    match p.mux.state with
    | .begin | .disable => 1
    | .detached => 0
    | .waiting => if p.waitWhile = 0 then 2 else 0
    | .readyN | .attached => 1
    | .rxTx => 2

/-- How far the transmit machine can still go from `TXM_IDLE`. -/
def txIdleRank (sys : LacpSys) (p : LacpPort) : ℕ :=
  if p.periodicTimer = 0 then 4
  else if p.ntt && p.holdCount < sys.txHoldCount then 2
  else 0

/-- How far the transmit machine can still go. -/
def txRank (sys : LacpSys) (p : LacpPort) : ℕ :=
  match p.tx.state with
  | .begin => 7
  | .noPeriodic => if txActive p then 6 else 0
  | .idle => if txActive p then txIdleRank sys p else 1
  | .periodicTx | .tx => if txActive p then 1 + txIdleRank sys p else 1

section Ranks

variable {sys : LacpSys} {p : LacpPort}

theorem rxRank_lt (hshort : sys.shortTimeoutTime ≠ 0) (hlong : sys.longTimeoutTime ≠ 0)
    {s : RxState} (guard : RxGuard p s) :
    rxRank (rxEntered sys { p with rx := ⟨false, s⟩ }) < rxRank p := by
  have hup : ∀ {en pm : Bool}, en = true ∨ pm = true → (!en && !pm) = false := by
    rintro en pm (rfl | rfl) <;> simp
  cases guard with
  | linkDown hen hpm hb hs =>
    cases hstate : p.rx.state <;> simp_all [rxRank, rxEntered]
  | start hs => simp [rxRank, rxEntered, hs]
  | initialized hs h =>
    cases hpm : p.portMoved <;> cases hen : p.portEnabled <;> simp_all [rxRank, rxEntered]
  | moved hs hpm => simp [rxRank, rxEntered, hs, hpm]
  | linkUp hs hpm hen hlac =>
    cases hrv : p.rcvdLacpdu <;> simp [rxRank, rxEntered, hs, hpm, hen, hshort]
  | linkUpOff hs hpm hen hlac => simp [rxRank, rxEntered, hs, hpm, hen, hlac]
  | lacpOn hs hen hlac =>
    cases hrv : p.rcvdLacpdu <;> simp [rxRank, rxEntered, hs, hen, hlac, hshort]
  | timeout hs h hcw =>
    cases hrv : p.rcvdLacpdu <;> simp [rxRank, rxEntered, hs, hup h, hcw]
  | resume hs h hcw hrv =>
    cases hTMT : p.actor.state.TMT <;>
      simp [rxRank, rxEntered, hs, hup h, hcw, hrv, hTMT, hshort, hlong]
  | expire hs h hcw hrv => simp [rxRank, rxEntered, hs, hup h, hcw, hrv, hshort]
  | refresh hs h hrv =>
    cases hTMT : p.actor.state.TMT <;>
      simp [rxRank, rxEntered, hs, hup h, hrv, hTMT, hshort, hlong]
  | recover hs h hrv =>
    cases hTMT : p.actor.state.TMT <;>
      simp [rxRank, rxEntered, hs, hup h, hrv, hTMT, hshort, hlong]

theorem muxRank_lt {ready : Bool} (hwait : sys.aggregateWaitTime ≠ 0) {s : MuxState}
    (guard : MuxGuard ready p s) :
    muxRank (muxEntered sys { p with mux := ⟨false, s⟩ }) < muxRank p := by
  cases guard with
  | off hlac hs => simp [muxRank, muxEntered, hlac, hs]
  | reset hlac hs =>
    cases hsel : p.selected <;> cases hsb : p.standby <;> rcases hs with hs | hs <;>
      simp [muxRank, muxEntered, hlac, hs, hsel, hsb]
  | select hlac hs hsel hsb => simp [muxRank, muxEntered, hlac, hs, hsel, hsb, hwait]
  | waited hlac hs hww =>
    cases hsel : p.selected <;> cases hsb : p.standby <;>
      simp [muxRank, muxEntered, hlac, hs, hsel, hsb, hww]
  | attach hlac hs hsel hsb hready =>
    cases hsyn : p.partner.state.SYN <;> simp [muxRank, muxEntered, hlac, hs, hsel, hsb, hsyn]
  | abandon hlac hs hout => rcases hout with h | h <;> simp [muxRank, muxEntered, hlac, hs, h]
  | sync hlac hs hsel hsb hsyn => simp [muxRank, muxEntered, hlac, hs, hsel, hsb, hsyn]
  | detach hlac hs hout => rcases hout with h | h <;> simp [muxRank, muxEntered, hlac, hs, h]
  | desync hlac hs hout =>
    cases hsel : p.selected <;> cases hsb : p.standby <;> cases hsyn : p.partner.state.SYN <;>
      simp_all [muxRank, muxEntered]

theorem txIdleRank_le : txIdleRank sys p ≤ 4 := by
  simp only [txIdleRank]
  split
  · exact le_rfl
  · split <;> omega

theorem txIdleRank_le_two (h : p.periodicTimer ≠ 0) : txIdleRank sys p ≤ 2 := by
  simp only [txIdleRank, if_neg h]
  split <;> omega

theorem txRank_lt (hfast : sys.fastPeriodicTime ≠ 0) (hslow : sys.slowPeriodicTime ≠ 0)
    {s : TxState} (guard : TxGuard sys p s) :
    txRank sys (txEntered sys { p with tx := ⟨false, s⟩ }) < txRank sys p := by
  have hactive : txActive (txEntered sys { p with tx := ⟨false, s⟩ }) = txActive p := by
    cases s <;> rfl
  have hstate : (txEntered sys { p with tx := ⟨false, s⟩ }).tx.state = s := by cases s <;> rfl
  -- entering a state changes timers and counters, never whether the machine may run
  rw [txRank, hactive, hstate]
  cases guard with
  | begin hs =>
    simp only [txRank, hs]
    split <;> omega
  | stop hact hb hs =>
    cases hstate : p.tx.state <;> simp_all [txRank]
  | start hact hs =>
    have hle : txIdleRank sys (txEntered sys { p with tx := ⟨false, .idle⟩ }) ≤ 4 := txIdleRank_le
    simp only [txRank, hs, hact, if_true]
    omega
  | back hact hs =>
    have hidle : txIdleRank sys (txEntered sys { p with tx := ⟨false, .idle⟩ })
        = txIdleRank sys p := rfl
    rcases hs with hs | hs <;> simp only [txRank, hs, hact, hidle, if_true] <;> omega
  | periodic hact hs hpt =>
    -- here the periods have to be non-zero: the timer restarts, and the machine does not come back
    have htimer : (txEntered sys { p with tx := ⟨false, .periodicTx⟩ }).periodicTimer ≠ 0 := by
      simp only [txEntered]
      split <;> assumption
    have hle : txIdleRank sys _ ≤ 2 := txIdleRank_le_two htimer
    simp only [txRank, hs, hact, if_true]
    rw [show txIdleRank sys p = 4 from if_pos hpt]
    omega
  | send hact hs hpt hntt hhold =>
    simp [txRank, hs, hact, txIdleRank, txEntered, hpt, hntt, hhold]

end Ranks

/-! ## The measure of the engine -/

/-- The sum of a rank over the ports. -/
def portSum (w : World) (rank : LacpPort → ℕ) : ℕ := (w.sys.ports.map fun a => rank (w.port a)).sum

/-- The measure: receive progress before selection progress before mux progress before transmit
progress. -/
def engineMeasure (w : World) : ℕ ×ₗ ℕ ×ₗ ℕ ×ₗ ℕ :=
  toLex (portSum w rxRank, toLex (portSum w selRank,
    toLex (portSum w muxRank, portSum w (txRank w.sys))))

/-- What termination needs of a configuration: no period is zero, and a LACP-enabled port is in a
link group. -/
structure Configured (w : World) : Prop where
  fastPeriodicTime : w.sys.fastPeriodicTime ≠ 0
  slowPeriodicTime : w.sys.slowPeriodicTime ≠ 0
  shortTimeoutTime : w.sys.shortTimeoutTime ≠ 0
  longTimeoutTime : w.sys.longTimeoutTime ≠ 0
  aggregateWaitTime : w.sys.aggregateWaitTime ≠ 0
  aggId : ∀ a ∈ w.sys.ports, (w.port a).lacpEnabled = true → (w.port a).aggId ≠ 0

section Measure

variable {w w' : World} {rank : LacpPort → ℕ}

theorem portSum_congr (hports : w'.sys.ports = w.sys.ports)
    (h : ∀ a ∈ w.sys.ports, rank (w'.port a) = rank (w.port a)) :
    portSum w' rank = portSum w rank := by
  rw [portSum, portSum, hports]
  exact congrArg List.sum (List.map_congr_left h)

/-- One port that lowers its rank while no port raises its own lowers the sum. -/
theorem portSum_lt {a : Addr} (hports : w'.sys.ports = w.sys.ports) (ha : a ∈ w.sys.ports)
    (hle : ∀ b ∈ w.sys.ports, rank (w'.port b) ≤ rank (w.port b))
    (hlt : rank (w'.port a) < rank (w.port a)) : portSum w' rank < portSum w rank := by
  rw [portSum, portSum, hports]
  exact List.sum_lt_sum _ _ hle ⟨a, ha, hlt⟩

theorem Configured.hop (h : Configured w) (hop : EngineHop w w') : Configured w' := by
  constructor
  all_goals try rw [hop.sys_eq]
  · exact h.fastPeriodicTime
  · exact h.slowPeriodicTime
  · exact h.shortTimeoutTime
  · exact h.longTimeoutTime
  · exact h.aggregateWaitTime
  · intro a ha hlac
    have hagg := hop.aggId_eq a
    have hen := hop.lacpEnabled_eq a
    rw [hagg]
    exact h.aggId a ha (hen ▸ hlac)

/-- A receive hop lowers the first sum. -/
theorem portSum_rxHop_lt (h : Configured w) {a : Addr} {s : RxState} (ha : a ∈ w.sys.ports)
    (guard : RxGuard (w.port a) s) : portSum (rxHop w a s) rxRank < portSum w rxRank := by
  have hself : rxRank ((rxHop w a s).port a) < rxRank (w.port a) := by
    simp only [rxHop, if_true]
    exact rxRank_lt h.shortTimeoutTime h.longTimeoutTime guard
  refine portSum_lt rfl ha ?_ hself
  intro b _
  by_cases hb : b = a
  · exact hb ▸ hself.le
  · simp only [rxHop, if_neg hb]
    split <;> exact le_rfl

/-- A selection hop lowers the second sum and leaves the first. -/
theorem portSum_selHop (h : Configured w) {a : Addr} (ha : a ∈ w.sys.ports)
    (guard : lacpSelCheckConditions w a = some .selection) :
    portSum (selHop w a) rxRank = portSum w rxRank ∧
      portSum (selHop w a) selRank < portSum w selRank := by
  have hdue : selRank (w.port a) = 1 := by
    simp only [lacpSelCheckConditions] at guard
    cases hs : (w.port a).sel.state <;> simp_all [selRank]
  -- a LACP-enabled port outside every group would not be selected, and the machine would spin
  have hdone : selRank ((selHop w a).port a) = 0 := by
    by_cases hlac : (w.port a).lacpEnabled = false
    · simp [selHop, hlac, selRank]
    · have hagg := h.aggId a ha (by simpa using hlac)
      simp [selHop, hlac, ha, hagg, selRank]
  refine ⟨portSum_congr rfl fun b _ => ?_, portSum_lt rfl ha ?_ (by omega)⟩
  · simp only [selHop]
    repeat' split
    all_goals rfl
  · intro b _
    by_cases hb : b = a
    · subst hb
      omega
    · simp only [selHop, if_neg hb]
      split
      · exact le_rfl
      · split
        · cases hs : (w.port b).sel.state <;> simp [selRank, hs]
        · exact le_rfl

/-- A mux hop lowers the third sum and leaves the first two. -/
theorem portSum_muxHop (h : Configured w) {a : Addr} {s : MuxState} {ready : Bool}
    (ha : a ∈ w.sys.ports) (guard : MuxGuard ready (w.port a) s) :
    portSum (muxHop w a s) rxRank = portSum w rxRank ∧
      portSum (muxHop w a s) selRank = portSum w selRank ∧
      portSum (muxHop w a s) muxRank < portSum w muxRank := by
  have hother : ∀ b, b ≠ a → (muxHop w a s).port b = w.port b := fun b hb => muxHop_port_of_ne w hb s
  have hself := muxHop_port_self w a s
  refine ⟨portSum_congr rfl fun b _ => ?_, portSum_congr rfl fun b _ => ?_,
    portSum_lt rfl ha (fun b _ => ?_) ?_⟩
  · by_cases hb : b = a
    · subst hb
      rw [hself]
      cases s <;> rfl
    · rw [hother b hb]
  · by_cases hb : b = a
    · subst hb
      rw [hself]
      cases s <;> rfl
    · rw [hother b hb]
  · by_cases hb : b = a
    · subst hb
      rw [hself]
      exact (muxRank_lt h.aggregateWaitTime guard).le
    · rw [hother b hb]
  · rw [hself]
    exact muxRank_lt h.aggregateWaitTime guard

/-- A transmit hop lowers the last sum and leaves the others. -/
theorem portSum_txHop (h : Configured w) {a : Addr} {s : TxState}
    (ha : a ∈ w.sys.ports) (guard : TxGuard w.sys (w.port a) s) :
    portSum (txHop w a s) rxRank = portSum w rxRank ∧
      portSum (txHop w a s) selRank = portSum w selRank ∧
      portSum (txHop w a s) muxRank = portSum w muxRank ∧
      portSum (txHop w a s) (txRank w.sys) < portSum w (txRank w.sys) := by
  have hother : ∀ b, b ≠ a → (txHop w a s).port b = w.port b := fun b hb => txHop_port_of_ne w hb s
  have hself := txHop_port_self w a s
  have hkeep : ∀ rank : LacpPort → ℕ,
      rank (txEntered w.sys { w.port a with tx := ⟨false, s⟩ }) = rank (w.port a) →
      portSum (txHop w a s) rank = portSum w rank := by
    intro rank hrank
    refine portSum_congr rfl fun b _ => ?_
    by_cases hb : b = a
    · rw [hb, hself, hrank]
    · rw [hother b hb]
  refine ⟨hkeep rxRank ?_, hkeep selRank ?_, hkeep muxRank ?_, portSum_lt rfl ha (fun b _ => ?_) ?_⟩
  · cases s <;> rfl
  · cases s <;> rfl
  · cases s <;> rfl
  · by_cases hb : b = a
    · subst hb
      rw [hself]
      exact (txRank_lt h.fastPeriodicTime h.slowPeriodicTime guard).le
    · rw [hother b hb]
  · rw [hself]
    exact txRank_lt h.fastPeriodicTime h.slowPeriodicTime guard

/-- Every hop lowers the measure. -/
theorem EngineHop.engineMeasure_lt (h : Configured w) (hop : EngineHop w w') :
    engineMeasure w' < engineMeasure w := by
  -- a machine may undo the progress of the machines after it in the measure, never of those before
  simp only [engineMeasure, Prod.Lex.toLex_lt_toLex]
  cases hop with
  | rx ha guard => exact .inl (portSum_rxHop_lt h ha (rxGuard_of_check guard))
  | sel ha guard =>
    obtain ⟨hrx, hsel⟩ := portSum_selHop h ha guard
    exact .inr ⟨hrx, .inl hsel⟩
  | mux ha guard =>
    obtain ⟨hrx, hsel, hmux⟩ := portSum_muxHop h ha (muxGuard_of_check guard)
    exact .inr ⟨hrx, .inr ⟨hsel, .inl hmux⟩⟩
  | tx ha guard =>
    obtain ⟨hrx, hsel, hmux, htx⟩ := portSum_txHop h ha (txGuard_of_check guard)
    exact .inr ⟨hrx, .inr ⟨hsel, .inr ⟨hmux, htx⟩⟩⟩

/-- A configured engine returns, with any large enough amount of fuel. -/
theorem returns_lacpSysUpdate (hidle : Idle w) (h : Configured w) :
    Fuel.Returns fun n => lacpSysUpdate n w := by
  obtain ⟨N, w', hrun⟩ := lacpFamily.exists_settle (P := Configured) (μ := engineMeasure)
    (fun h hop => h.hop (hop_iff.mp hop)) (fun h hop => (hop_iff.mp hop).engineMeasure_lt h) h
  exact ⟨w', N, fun n hn => (lacpSysUpdate_eq hidle).trans (lacpFamily.settle_mono hn hrun)⟩

/-- With the periods non-zero and every LACP-enabled port in a link group, `lacp_sys_update` returns
from every state of the machines, and with any larger amount of fuel it returns the same: a state in
which nothing is enabled. -/
theorem lacpSysUpdate_terminates (w : World) (hidle : Idle w) (h : Configured w) :
    ∃ N w', (∀ n ≥ N, lacpSysUpdate n w = some w') ∧ Relation.ReflTransGen EngineHop w w' ∧
      Quiescent w' ∧ Idle w' := by
  obtain ⟨w', N, hrun⟩ := returns_lacpSysUpdate hidle h
  obtain ⟨hhops, hrest⟩ := lacpSysUpdate_spec hidle (hrun N le_rfl)
  exact ⟨N, w', hrun, Relation.ReflTransGen.mono (fun _ _ => OrderedHop.engineHop) _ _ hhops, hrest⟩

/-- A link-up port whose machines are all in `LACP_BEGIN`, in link group 1. -/
def bootWorld : World :=
  { initWorld 0 with
    sys := { lacpSysInit with ports := [0] }
    port := fun _ => { LacpPort.zero with portEnabled := true, lacpEnabled := true, aggId := 1 } }

theorem lacpSysUpdate_terminates_bootWorld :
    ∃ N w', (∀ n ≥ N, lacpSysUpdate n bootWorld = some w') ∧ Quiescent w' ∧ Idle w' := by
  have hidle : Idle bootWorld := fun a _ m => by cases m <;> rfl
  have hconfigured : Configured bootWorld :=
    ⟨by decide, by decide, by decide, by decide, by decide, fun _ _ _ => Nat.one_ne_zero⟩
  obtain ⟨N, w', hrun, _, hq, hidle'⟩ := lacpSysUpdate_terminates bootWorld hidle hconfigured
  exact ⟨N, w', hrun, hq, hidle'⟩

end Measure

end Lacp
