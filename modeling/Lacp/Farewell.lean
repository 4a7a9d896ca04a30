import Lacp.Aggregatability
import Lacp.Isolation
import Lacp.Transmission

/-!
# Taking leave

Reference: "notify to partner" in `lacp_port_set_cfg`, and `lacp_tx_check_conditions`.

`farewells` counts the LACPDUs with which a port tells its partner that it is not to be aggregated. A port
that is to leave asks for one; a run of the engine sends it exactly if `hold_count` leaves room for it
(`Running.saysFarewell_of_hops`, `Running.farewells_eq_of_held`). A port that cannot be aggregated, but is not to
leave either, has nothing to say (`Awaits.hops`).
-/

namespace Lacp

open Relation (ReflTransGen)

/-- A LACPDU of a port with index `i` that runs LACP, and is not to be aggregated. -/
def Event.isFarewell (i : ℕ) : Event → Bool
  | .tx port pdu => port.portIndex == i && port.lacpEnabled && !pdu.actor.state.AGG
  | .enter _ _ | .hw _ _ => false

/-- How often a port with index `i` has told its partner that it is not to be aggregated. -/
def farewells (i : ℕ) (trace : List Event) : ℕ := trace.countP (Event.isFarewell i)

/-- Between `w` and `w'` the port with index `i` sends, while it still runs LACP, a LACPDU in which
`actor.AGG` is clear. -/
def SaysFarewell (i : ℕ) (w w' : World) : Prop := farewells i w.trace < farewells i w'.trace

/-! ## Hops -/

section Hop

variable {E : Set ℕ} {w w' : World} {a b : Addr} {i : ℕ} {q : LacpPort}

/-- A transmit hop tells the partner if it sends a LACPDU in which `actor.AGG` is clear. -/
theorem farewells_txHop (w : World) (a : Addr) (s : TxState) (i : ℕ) :
    farewells i (txHop w a s).trace = farewells i w.trace +
      if s = .tx ∧ (w.port a).lacpEnabled = true ∧ (w.port a).portIndex = i ∧
        (w.port a).actor.state.AGG = false then 1 else 0 := by
  simp only [txHop, txSent, farewells]
  by_cases hsend : s = .tx ∧ (w.port a).lacpEnabled = true
  · obtain ⟨rfl, hlac⟩ := hsend
    rw [if_pos ⟨rfl, hlac⟩, List.countP_append, List.countP_singleton, List.countP_cons, Nat.add_comm]
    simp [Event.isFarewell, lacpduPacket, lacpInfoToNet, hlac]
  · rw [if_neg hsend, if_neg fun h => hsend ⟨h.1, h.2.1⟩]
    rfl

/-- Only the transmission of a port with `actor.AGG` clear counts. -/
theorem OrderedHop.farewell_or_silent (hop : OrderedHop w w') (i : ℕ) :
    (∃ a ∈ w.sys.ports, (w.port a).portIndex = i ∧ (w.port a).lacpEnabled = true ∧
      (w.port a).actor.state.AGG = false ∧ TxGuard w.sys (w.port a) .tx) ∨
    farewells i w'.trace = farewells i w.trace := by
  cases hop with
  | rx | sel => exact .inr rfl
  | @mux a s =>
    have hnone : (muxWrites { w.port a with mux := ⟨false, s⟩ }
        (w.gPortList (w.port a).portIndex)).countP (Event.isFarewell i) = 0 := by
      refine List.countP_eq_zero.mpr fun e he => ?_
      obtain ⟨_, rfl⟩ := eq_hw_of_mem_muxWrites he
      simp [Event.isFarewell]
    refine .inr ?_
    simp only [muxHop, farewells, List.countP_append, hnone, Nat.zero_add]
    rfl
  | @tx a s ha _ _ guard =>
    rw [farewells_txHop]
    split
    · rename_i hsaid
      obtain ⟨rfl, hlac, hindex, hagg⟩ := hsaid
      exact .inl ⟨a, ha, hindex, hlac, hagg, txGuard_of_check guard⟩
    · exact .inr rfl

/-- The rule for runs of the engine in which a port does not tell its partner. -/
theorem farewells_eq_of_hops {P : World → Prop} (hP : ∀ {w w'}, P w → OrderedHop w w' → P w')
    (hsilent : ∀ {w : World} {b}, P w → b ∈ w.sys.ports → (w.port b).portIndex = i →
      (w.port b).lacpEnabled = true → (w.port b).actor.state.AGG = false →
        ¬ TxGuard w.sys (w.port b) .tx)
    (hhops : ReflTransGen OrderedHop w w') (h : P w) :
    farewells i w'.trace = farewells i w.trace ∧ P w' := by
  induction hhops with
  | refl => exact ⟨rfl, h⟩
  | tail _ hop ih =>
    obtain ⟨hcount, hp⟩ := ih
    refine ⟨?_, hP hp hop⟩
    rcases hop.farewell_or_silent i with ⟨b, hb, hindex, hlac, hagg, guard⟩ | hsame
    · exact absurd guard (hsilent hp hb hindex hlac hagg)
    · exact hsame.trans hcount

end Hop

/-! ## A port in the engine -/

/-- The port runs LACP over a working link, and its machines have started. -/
structure Running (p : LacpPort) : Prop where
  lacpEnabled : p.lacpEnabled = true
  portEnabled : p.portEnabled = true
  active : ActiveMode p
  started : Started p
  tx : p.tx.state ≠ .begin

/-- What keeps a port that cannot be aggregated from sending: its receive machine is at rest, it is not
attached, and its transmissions are held back, if it has any. -/
structure Dormant (max : UInt32) (p : LacpPort) : Prop where
  rcvd : p.rcvdLacpdu = false
  rx : p.rx.state = .current ∨ p.rx.state = .expired ∨ p.rx.state = .defaulted
  currentWhile : p.rx.state = .expired ∨ p.rx.state = .current → p.currentWhile ≠ 0
  mux : p.mux.state = .detached ∨ p.mux.state = .waiting ∧ p.waitWhile ≠ 0
  periodicTimer : p.periodicTimer ≠ 0
  held : p.ntt = true → max ≤ p.holdCount

section Port

variable {E : Set ℕ} {w w' : World} {a b : Addr} {i : ℕ} {p q : LacpPort} {sys : LacpSys}
  {attr : PortAttr} {max : UInt32}

theorem Running.txActive (h : Running p) : txActive p = true := by
  simp only [Lacp.txActive, h.lacpEnabled, h.portEnabled, h.active.actor h.started.state.1,
    Bool.true_and, Bool.true_or]

theorem Running.deselect (h : Running p) : Running { p with selected := false } :=
  ⟨h.lacpEnabled, h.portEnabled, ⟨h.active.admin, h.active.actor⟩,
    ⟨h.started.state, h.started.portMoved⟩, h.tx⟩

theorem Running.notify (h : Running p) : Running (notifyPort p) :=
  ⟨h.lacpEnabled, h.portEnabled, ⟨h.active.admin, h.active.actor⟩,
    ⟨h.started.state, h.started.portMoved⟩, h.tx⟩

theorem Running.hop (h : Running (w.port b)) (hop : PortHop w b q) : Running q := by
  have hsettings := hop.settings_eq
  refine ⟨?_, ?_, h.active.hop hop, (h.started.hop hop).2, ?_⟩
  · exact (congrArg PortSettings.lacpEnabled hsettings).trans h.lacpEnabled
  · exact (congrArg PortSettings.portEnabled hsettings).trans h.portEnabled
  · cases hop with
    | same | deselect | selDisabled | selAlone | select => exact h.tx
    | @rx s => cases s <;> exact h.tx
    | @mux s => cases s <;> exact h.tx
    | @tx s _ guard => cases txGuard_of_check guard <;> simp [Lacp.txEntered]

/-- Where the limit is reached nothing is sent, and `hold_count` is kept. -/
theorem Running.held_hop (h : Running (w.port b)) (hheld : w.sys.txHoldCount ≤ (w.port b).holdCount)
    (hop : PortHop w b q) : w.sys.txHoldCount ≤ q.holdCount := by
  cases hop with
  | same | deselect | selDisabled | selAlone | select => exact hheld
  | @rx s => cases s <;> exact hheld
  | @mux s => cases s <;> exact hheld
  | tx _ guard =>
    cases txGuard_of_check guard with
    | begin hs => exact absurd hs h.tx
    | stop hact => exact absurd (hact.symm.trans h.txActive) (by simp)
    | start | back | periodic => exact hheld
    | send _ _ _ _ hlt => exact absurd hlt (UInt32.not_lt.mpr hheld)

/-- A request to transmit stays until it is served: no hop of a port that runs LACP drops it. -/
theorem Running.ntt_hop (h : Running (w.port b)) (hntt : (w.port b).ntt = true)
    (hop : PortHop w b q) : q.ntt = true ∧ q.holdCount = (w.port b).holdCount ∨
      TxGuard w.sys (w.port b) .tx ∧ q.tx.state = .tx := by
  cases hop with
  | same | deselect | selDisabled | selAlone | select => exact .inl ⟨hntt, rfl⟩
  | @rx s =>
    refine .inl ⟨?_, by cases s <;> rfl⟩
    cases s <;> simp [Lacp.rxEntered, hntt]
  | @mux s _ guard =>
    have hlac := h.lacpEnabled
    refine .inl ⟨?_, by cases s <;> rfl⟩
    cases muxGuard_of_check guard with
    | off hoff => exact absurd (hoff.symm.trans hlac) (by simp)
    | select | waited => exact hntt
    | reset | attach | abandon | sync | detach | desync => rfl
  | tx _ guard =>
    cases txGuard_of_check guard with
    | begin hs => exact absurd hs h.tx
    | stop hact => exact absurd (hact.symm.trans h.txActive) (by simp)
    | start | back => exact .inl ⟨hntt, rfl⟩
    | periodic => exact .inl ⟨rfl, rfl⟩
    | send hact hs hpt hntt hlt => exact .inr ⟨.send hact hs hpt hntt hlt, rfl⟩

/-- The receive machine of a dormant port is at rest. -/
theorem Dormant.not_rxGuard (h : Dormant max p) (hrun : Running p) {s : RxState} : ¬ RxGuard p s := by
  intro guard
  have hrx := h.rx
  cases guard with
  | linkDown hen => exact absurd (hen.symm.trans hrun.portEnabled) (by simp)
  | start hs | initialized hs | moved hs | linkUp hs | linkUpOff hs | lacpOn hs => simp [hs] at hrx
  | timeout hs _ hcw => exact h.currentWhile (.inl hs) hcw
  | expire hs _ hcw => exact h.currentWhile (.inr hs) hcw
  | resume _ _ _ hrv | refresh _ _ hrv | recover _ _ hrv =>
    exact absurd (hrv.symm.trans h.rcvd) (by simp)

/-- The transmit machine of a dormant port sends nothing. -/
theorem Dormant.not_txGuard (h : Dormant sys.txHoldCount p) : ¬ TxGuard sys p .tx := by
  intro guard
  cases guard with
  | send _ _ _ hntt hlt => exact absurd hlt (UInt32.not_lt.mpr (h.held hntt))

/-- A port outside `E` that cannot be aggregated is selected at most in standby, and stays dormant. -/
theorem Dormant.hop (h : Dormant w.sys.txHoldCount (w.port b)) (hrun : Running (w.port b))
    (hc : PortCoherent E w.sys (w.port b) attr) (hE : (w.port b).portIndex ∉ E)
    (hagg : (w.port b).actor.state.AGG = false) (hop : PortHop w b q) :
    Dormant w.sys.txHoldCount q := by
  cases hop with
  | same => exact h
  | deselect | selDisabled | selAlone | select =>
    exact ⟨h.rcvd, h.rx, h.currentWhile, h.mux, h.periodicTimer, h.held⟩
  | rx _ guard => exact absurd (rxGuard_of_check guard) (h.not_rxGuard hrun)
  | mux _ guard =>
    have hmux := h.mux
    cases muxGuard_of_check guard with
    | off hoff => exact absurd (hoff.symm.trans hrun.lacpEnabled) (by simp)
    | select hlac _ hsel hsb =>
      -- a selection that is not in standby takes a port that can be aggregated
      have hset := (hc.active hlac hsel hsb).2.2 hE
      exact absurd (hset.symm.trans hagg) (by simp)
    | waited _ hs hww =>
      rcases hmux with hs' | ⟨_, hww'⟩
      · rw [hs] at hs'
        cases hs'
      · exact absurd hww hww'
    | reset _ hs => rcases hs with hs | hs <;> simp [hs] at hmux
    | attach _ hs | abandon _ hs | sync _ hs | detach _ hs | desync _ hs => simp [hs] at hmux
  | @tx s _ guard =>
    cases txGuard_of_check guard with
    | begin hs => exact absurd hs hrun.tx
    | stop hact => exact absurd (hact.symm.trans hrun.txActive) (by simp)
    | start | back => exact ⟨h.rcvd, h.rx, h.currentWhile, h.mux, h.periodicTimer, h.held⟩
    | periodic _ _ hpt => exact absurd hpt h.periodicTimer
    | send _ _ _ hntt hlt => exact absurd hlt (UInt32.not_lt.mpr (h.held hntt))

/-! ## At rest -/

/-- A port that works is running where no machine can move. -/
theorem Coherent.running (hc : Coherent E w) (hq : Quiescent w) (ha : a ∈ w.sys.ports)
    (hactive : ActiveMode (w.port a)) (hlac : (w.port a).lacpEnabled = true)
    (hen : (w.port a).portEnabled = true) : Running (w.port a) :=
  ⟨hlac, hen, hactive, (hc.portQuiet hq ha).isStarted hlac,
    (of_lacpTxCheckConditions_eq_none (hq a ha).2.2.2).1⟩

/-- A running port that cannot be aggregated is dormant where no machine can move. -/
theorem Running.dormant (h : Running (w.port a)) (hc : Coherent E w) (hq : Quiescent w)
    (ha : a ∈ w.sys.ports) (hE : (w.port a).portIndex ∉ E)
    (hagg : (w.port a).actor.state.AGG = false) : Dormant w.sys.txHoldCount (w.port a) := by
  have hp := hc.port a ha
  have hquiet := hc.portQuiet hq ha
  have hlac := h.lacpEnabled
  obtain ⟨htimer, hheld⟩ := txRunning_of_quiescent hc hq ha h.active hlac h.portEnabled
  refine ⟨hquiet.rcvd, hquiet.linkUp h.portEnabled hlac, hquiet.running, ?_, htimer, hheld⟩
  have hstandby : (w.port a).standby = true := by
    by_contra hsb
    have hset := (hp.active hlac hquiet.selected (by simpa using hsb)).2.2 hE
    exact absurd (hset.symm.trans hagg) (by simp)
  have hmux := (hq a ha).2.2.1
  simp only [lacpMuxCheckConditions, hlac, hquiet.selected, hstandby] at hmux
  cases hs : (w.port a).mux.state with
  | detached => exact .inl rfl
  | waiting =>
    refine .inr ⟨rfl, fun hww => ?_⟩
    simp [hs, hww] at hmux
  | begin | disable | readyN | attached | rxTx => simp [hs] at hmux

end Port

/-! ## Runs of the engine -/

/-- The port runs, and if it cannot be aggregated it is dormant. -/
structure Awaits (a : Addr) (w : World) : Prop where
  listed : a ∈ w.sys.ports
  running : Running (w.port a)
  dormant : (w.port a).actor.state.AGG = false → Dormant w.sys.txHoldCount (w.port a)

/-- No listed port with index `i` runs LACP. -/
def Off (i : ℕ) (w : World) : Prop :=
  ∀ b ∈ w.sys.ports, (w.port b).portIndex = i → (w.port b).lacpEnabled = false

section Run

variable {E : Set ℕ} {w w' : World} {a : Addr}

theorem Running.agg_hop (h : Running (w.port a)) (hop : OrderedHop w w') :
    (w'.port a).actor.state.AGG = (w.port a).actor.state.AGG :=
  congrArg (fun aggregation => aggregation.2.2.1)
    (h.started.hop_aggregation (hop.engineHop.portHop a))

theorem Awaits.hop (h : Awaits a w) (hc : Coherent E w) (hE : (w.port a).portIndex ∉ E)
    (hop : OrderedHop w w') : Awaits a w' := by
  have hport := hop.engineHop.portHop a
  refine ⟨hop.engineHop.ports_eq ▸ h.listed, h.running.hop hport, fun hagg => ?_⟩
  have hagg' := (h.running.agg_hop hop).symm.trans hagg
  rw [hop.engineHop.sys_eq]
  exact (h.dormant hagg').hop h.running (hc.port a h.listed) hE hagg' hport

/-- A port that is not told to leave does not take leave. -/
theorem Awaits.hops (h : Awaits a w) (hc : Coherent E w) (hE : (w.port a).portIndex ∉ E)
    (hhops : ReflTransGen OrderedHop w w') :
    farewells (w.port a).portIndex w'.trace = farewells (w.port a).portIndex w.trace ∧
      Awaits a w' := by
  have hrule := farewells_eq_of_hops (i := (w.port a).portIndex)
    (P := fun v => Coherent E v ∧ (v.port a).portIndex = (w.port a).portIndex ∧ Awaits a v)
    (fun hv hop => ?_) (fun hv hb hindex _ hagg guard => ?_) hhops ⟨hc, rfl, h⟩
  · exact ⟨hrule.1, hrule.2.2.2⟩
  · obtain ⟨hcv, hindex, hawaits⟩ := hv
    exact ⟨hcv.hop hop.engineHop, (hop.engineHop.portIndex_eq a).trans hindex,
      hawaits.hop hcv (hindex ▸ hE) hop⟩
  · obtain ⟨hcv, hindex', hawaits⟩ := hv
    obtain rfl := hcv.index_inj hb hawaits.listed (hindex.trans hindex'.symm)
    exact (hawaits.dormant hagg).not_txGuard guard

/-- A port that is to leave and has no room sends nothing. -/
theorem Running.farewells_eq_of_held (h : Running (w.port a)) (hc : Coherent E w)
    (ha : a ∈ w.sys.ports) (hheld : w.sys.txHoldCount ≤ (w.port a).holdCount)
    (hhops : ReflTransGen OrderedHop w w') :
    farewells (w.port a).portIndex w'.trace = farewells (w.port a).portIndex w.trace := by
  have hrule := farewells_eq_of_hops (i := (w.port a).portIndex)
    (P := fun v => Coherent E v ∧ a ∈ v.sys.ports ∧ (v.port a).portIndex = (w.port a).portIndex ∧
      Running (v.port a) ∧ v.sys.txHoldCount ≤ (v.port a).holdCount)
    (fun hv hop => ?_) (fun hv hb hindex _ _ guard => ?_) hhops ⟨hc, ha, rfl, h, hheld⟩
  · exact hrule.1
  · obtain ⟨hcv, hav, hindex, hrun, hheld⟩ := hv
    have hport := hop.engineHop.portHop a
    refine ⟨hcv.hop hop.engineHop, hop.engineHop.ports_eq ▸ hav,
      (hop.engineHop.portIndex_eq a).trans hindex, hrun.hop hport, ?_⟩
    rw [hop.engineHop.sys_eq]
    exact hrun.held_hop hheld hport
  · obtain ⟨hcv, hav, hindex', _, hheld⟩ := hv
    obtain rfl := hcv.index_inj hb hav (hindex.trans hindex'.symm)
    cases guard with
    | send _ _ _ _ hlt => exact absurd hlt (UInt32.not_lt.mpr hheld)

/-- A port that no longer runs LACP sends nothing. -/
theorem Off.hops {i : ℕ} (h : Off i w) (hhops : ReflTransGen OrderedHop w w') :
    farewells i w'.trace = farewells i w.trace ∧ Off i w' := by
  refine farewells_eq_of_hops (P := Off i) (fun hv hop b hb hindex => ?_)
    (fun hv hb hindex hlac _ _ => ?_) hhops h
  · rw [hop.engineHop.lacpEnabled_eq b]
    exact hv b (hop.engineHop.ports_eq ▸ hb) ((hop.engineHop.portIndex_eq b).symm.trans hindex)
  · exact absurd (hlac.symm.trans (hv _ hb hindex)) (by simp)

/-- A port that is to leave keeps its request until it has told its partner. -/
theorem Running.farewell_hop (h : Running (w.port a))
    (hagg : (w.port a).actor.state.AGG = false) (hntt : (w.port a).ntt = true) (hop : OrderedHop w w') :
    farewells (w.port a).portIndex w.trace < farewells (w.port a).portIndex w'.trace ∨
      (w'.port a).ntt = true ∧ (w'.port a).holdCount = (w.port a).holdCount := by
  rcases h.ntt_hop hntt (hop.engineHop.portHop a) with hkept | ⟨guard, htx⟩
  · exact .inr hkept
  · have hidle : (w.port a).tx.state = .idle := by
      cases guard with
      | send _ hs => exact hs
    rcases hop.txHop_or_silent with ⟨b, s, hb, _, _, hguard, rfl⟩ | ⟨_, hkept⟩
    · by_cases hba : a = b
      · subst hba
        obtain rfl : s = .tx := by
          rw [txHop_port_self] at htx
          cases s <;> first | rfl | cases htx
        rw [farewells_txHop, if_pos ⟨rfl, h.lacpEnabled, rfl, hagg⟩]
        exact .inl (Nat.lt_succ_self _)
      · rw [txHop_port_of_ne _ hba, hidle] at htx
        cases htx
    · rw [(hkept a).1, hidle] at htx
      cases htx

/-- A port that is to leave and has room tells its partner before the engine comes to rest. -/
theorem Running.saysFarewell_of_hops (h : Running (w.port a)) (ha : a ∈ w.sys.ports)
    (hagg : (w.port a).actor.state.AGG = false) (hntt : (w.port a).ntt = true)
    (hroom : (w.port a).holdCount < w.sys.txHoldCount) (hhops : ReflTransGen OrderedHop w w')
    (hq : Quiescent w') : SaysFarewell (w.port a).portIndex w w' := by
  have hrun : (Running (w'.port a) ∧ (w'.port a).actor.state.AGG = false) ∧
      (SaysFarewell (w.port a).portIndex w w' ∨
        (w'.port a).ntt = true ∧ (w'.port a).holdCount = (w.port a).holdCount) := by
    clear hq
    induction hhops with
    | refl => exact ⟨⟨h, hagg⟩, .inr ⟨hntt, rfl⟩⟩
    | @tail v u hhops hop ih =>
      obtain ⟨⟨hv, haggv⟩, hsaid⟩ := ih
      have hindex : (v.port a).portIndex = (w.port a).portIndex :=
        hops_portIndex_eq hhops a
      refine ⟨⟨hv.hop (hop.engineHop.portHop a), (hv.agg_hop hop).trans haggv⟩, ?_⟩
      have hgrows : farewells (w.port a).portIndex v.trace ≤ farewells (w.port a).portIndex u.trace :=
        hop.engineHop.trace_suffix.sublist.countP_le
      rcases hsaid with hsaid | ⟨hnttv, hhold⟩
      · exact .inl (Nat.lt_of_lt_of_le hsaid hgrows)
      · have hsent : farewells (w.port a).portIndex w.trace ≤ farewells (w.port a).portIndex v.trace :=
          (hops_trace_suffix hhops).sublist.countP_le
        rcases hv.farewell_hop haggv hnttv hop with hsaid | ⟨hnttu, hholdu⟩
        · rw [hindex] at hsaid
          exact .inl (Nat.lt_of_le_of_lt hsent hsaid)
        · exact .inr ⟨hnttu, hholdu.trans hhold⟩
  obtain ⟨⟨hrun, _⟩, hsaid | ⟨hntt', hhold⟩⟩ := hrun
  · exact hsaid
  · -- at rest a request is held back, but there is room
    have hsys := hops_sys_eq hhops
    have hrest := (hq a (hsys ▸ ha)).2.2.2
    have hheld := ((of_lacpTxCheckConditions_eq_none hrest).2.2 hrun.txActive).2 hntt'
    rw [hsys, hhold] at hheld
    exact absurd hroom (UInt32.not_lt.mpr hheld)

end Run

end Lacp
