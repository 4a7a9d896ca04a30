import Lacp.History
import Lacp.PortWrites

/-!
# No write to the hardware makes a detached port forward

A port is under LACP control from the end of its first `MUX_DETACHED` entry to its next `MUX_DISABLE`
entry. Each entry of the mux machine makes up to two writes to `g_port_list`, and in between the entry
holds a mixture of the old and the new settings. The order of the writes keeps the mixture safe: a port
is switched on only while it is attached, and a port that is detached has been switched off by an earlier
entry (`reachable_neverForwardsDetached`).
-/

namespace Lacp

/-- A `MUX_DETACHED` entry and no `MUX_DISABLE` entry since; the last entry comes first. -/
def detachedSince : List MuxState → Bool
  | [] => false
  | .detached :: _ => true
  | .disable :: _ => false
  | _ :: entries => detachedSince entries

/-- A write that belongs to the first of these entries comes after the completion of a `MUX_DETACHED`
entry and before the next `MUX_DISABLE` entry. -/
def underLacp : List MuxState → Bool
  | [] => false
  | s :: entries => s != .disable && detachedSince entries

/-- Each write to the hardware that was made under LACP control leaves the port attached or off. -/
def NeverForwardsDetached (w : World) : Prop :=
  ∀ i attr later earlier, w.trace = later ++ .hw i attr :: earlier →
    underLacp (muxEntries i earlier) = true → attr.cd ≠ 0 → attr.tid ≠ 0

/-- A machine that has not started yet counts as disabled. -/
def MuxState.settled : MuxState → MuxState
  | .begin => .disable
  | s => s

/-- The history agrees with the present: the last entry is the state the machine is in, an attached port
has an aggregator in the hardware, and the writes so far were safe. -/
structure MuxHistory (w : World) : Prop where
  last : ∀ a ∈ w.sys.ports, (muxEntries (w.port a).portIndex w.trace).headD .disable
    = (w.port a).mux.state.settled
  absent : ∀ i, (∀ a ∈ w.sys.ports, (w.port a).portIndex ≠ i) →
    (muxEntries i w.trace).headD .disable = .disable
  tid : ∀ a ∈ w.sys.ports, (w.port a).Attached → (w.gPortList (w.port a).portIndex).tid ≠ 0
  safe : NeverForwardsDetached w

theorem detachedSince_of_headD {entries : List MuxState} (h : entries.headD .disable = .disable) :
    detachedSince entries = false := by
  cases entries with
  | nil => rfl
  | cons s entries =>
    obtain rfl : s = .disable := h
    rfl

section Writes

variable {E : Set ℕ} {sys : LacpSys} {p : LacpPort} {attr attr' : PortAttr} {i : ℕ}

/-- A port that is off is off after each write of a `MUX_DETACHED` or a `MUX_ATTACHED` entry. -/
theorem cd_eq_zero_of_mem_muxWrites {s : MuxState} (hs : s = .detached ∨ s = .attached)
    (hoff : attr.cd = 0) (hw : .hw i attr' ∈ muxWrites { p with mux := ⟨false, s⟩ } attr) :
    attr'.cd = 0 := by
  rcases hs with rfl | rfl
  all_goals
    simp only [muxWrites, List.mem_cons, List.not_mem_nil, or_false, Event.hw.injEq] at hw
    rcases hw with ⟨_, rfl⟩ | ⟨_, rfl⟩
    · rfl
    · exact hoff

/-- The writes of one entry: those made under LACP control leave the port attached or off. -/
theorem safe_of_mem_muxWrites (h : PortCoherent E sys p attr) {ready : Bool} {s : MuxState}
    (guard : MuxGuard ready p s) (htid : p.Attached → attr.tid ≠ 0) {entries : List MuxState}
    (hlast : entries.headD .disable = p.mux.state.settled)
    (hw : .hw i attr' ∈ muxWrites { p with mux := ⟨false, s⟩ } attr)
    (hunder : underLacp (s :: entries) = true) (hcd : attr'.cd ≠ 0) : attr'.tid ≠ 0 := by
  obtain ⟨hs, hsince⟩ := Bool.and_eq_true_iff.mp hunder
  cases guard with
  | off => exact absurd hs (by decide)
  | reset _ hfrom =>
    -- the first `MUX_DETACHED` entry is not under LACP control yet
    have hhead : entries.headD .disable = .disable := by
      rcases hfrom with hmux | hmux <;> rw [hlast, hmux] <;> rfl
    rw [detachedSince_of_headD hhead] at hsince
    cases hsince
  | select | waited => cases hw
  | attach _ hmux =>
    exact absurd (cd_eq_zero_of_mem_muxWrites (.inr rfl) (h.off (.inr (.inr (.inl hmux)))).2.2 hw) hcd
  | abandon _ hmux =>
    exact absurd (cd_eq_zero_of_mem_muxWrites (.inl rfl) (h.off (.inr (.inr (.inl hmux)))).2.2 hw) hcd
  | detach _ hmux =>
    exact absurd (cd_eq_zero_of_mem_muxWrites (.inl rfl) (h.off (.inr (.inr (.inr hmux)))).2.2 hw) hcd
  | sync hlac hmux =>
    -- switched on while it is attached
    obtain ⟨-, rfl⟩ := Event.hw.inj (List.mem_singleton.mp hw)
    exact htid (.inl hmux)
  | desync hlac hmux =>
    -- attached again, with the aggregator of its group, before it is switched off
    have hagg : p.aggId ≠ 0 := h.member.mp hlac
    simp only [muxWrites, List.mem_cons, List.not_mem_nil, or_false, Event.hw.injEq] at hw
    rcases hw with ⟨_, rfl⟩ | ⟨_, rfl⟩ <;> exact hagg

/-- An attached port has an aggregator after the hop as well. -/
theorem tid_ne_zero_of_muxGuard (h : PortCoherent E sys p attr) {ready : Bool} {s : MuxState}
    (guard : MuxGuard ready p s) (htid : p.Attached → attr.tid ≠ 0) (hs : s = .attached ∨ s = .rxTx) :
    (muxHardware { p with mux := ⟨false, s⟩ } attr).tid ≠ 0 := by
  cases guard with
  | attach hlac | desync hlac => exact h.member.mp hlac
  | sync _ hmux => exact htid (.inl hmux)
  | _ => rcases hs with hs | hs <;> cases hs

end Writes

/-- An event of an extended history is one of the new events or one of the old. -/
theorem append_eq_split {α : Type} {new trace later earlier : List α} {e : α}
    (h : new ++ trace = later ++ e :: earlier) :
    (∃ mid, trace = mid ++ e :: earlier) ∨ ∃ mid, new = later ++ e :: mid ∧ earlier = mid ++ trace := by
  rcases List.append_eq_append_iff.mp h with ⟨mid, rfl, hmid⟩ | ⟨mid, rfl, hmid⟩
  · exact .inl ⟨mid, hmid⟩
  · cases mid with
    | nil => exact .inl ⟨[], hmid.symm⟩
    | cons e' mid =>
      obtain ⟨rfl, rfl⟩ := List.cons_eq_cons.mp hmid
      exact .inr ⟨mid, rfl, rfl⟩

namespace MuxHistory

variable {R : World → Call → Prop} {c : Call} {E E' : Set ℕ} {w w' : World} {a b : Addr} {i : ℕ}

/-- A hop that makes no write to the hardware keeps the history safe. -/
theorem safe_of_quiet (h : NeverForwardsDetached w) (new : List Event)
    (htrace : w'.trace = new ++ w.trace) (hnew : ∀ i attr, .hw i attr ∉ new) :
    NeverForwardsDetached w' := by
  intro i attr later earlier hsplit hunder hcd
  rcases append_eq_split (htrace.symm.trans hsplit) with ⟨mid, hmid⟩ | ⟨mid, hmid, -⟩
  · exact h i attr mid earlier hmid hunder hcd
  · rw [hmid] at hnew
    exact absurd (List.mem_append_right _ List.mem_cons_self) (hnew i attr)

/-- The writes of a mux hop are safe, and so are those before it. -/
theorem safe_muxHop (hc : Coherent E w) (h : MuxHistory w) (ha : a ∈ w.sys.ports) {s : MuxState}
    (guard : lacpMuxCheckConditions w a = some s) : NeverForwardsDetached (muxHop w a s) := by
  intro i attr later earlier hsplit hunder hcd
  have htrace : (muxHop w a s).trace = muxWrites { w.port a with mux := ⟨false, s⟩ }
      (w.gPortList (w.port a).portIndex) ++
        (.enter .mux { w.port a with mux := ⟨true, s⟩ } :: w.trace) := rfl
  rcases append_eq_split (htrace.symm.trans hsplit) with ⟨mid, hmid⟩ | ⟨mid, hmid, rfl⟩
  · cases mid with
    | nil => cases hmid
    | cons e mid =>
      obtain ⟨-, hmid⟩ := List.cons_eq_cons.mp hmid
      exact h.safe i attr mid earlier hmid hunder hcd
  · have hmem : Event.hw i attr ∈ muxWrites { w.port a with mux := ⟨false, s⟩ }
        (w.gPortList (w.port a).portIndex) := by
      rw [hmid]
      exact List.mem_append_right _ List.mem_cons_self
    obtain ⟨attr', heq⟩ := eq_hw_of_mem_muxWrites hmem
    obtain ⟨rfl, -⟩ := Event.hw.inj heq
    -- the write belongs to the entry of `s`
    have hentries : muxEntries (w.port a).portIndex
        (mid ++ .enter .mux { w.port a with mux := ⟨true, s⟩ } :: w.trace)
          = s :: muxEntries (w.port a).portIndex w.trace := by
      have hmid' : ∀ e ∈ mid, e ∈ muxWrites { w.port a with mux := ⟨false, s⟩ }
          (w.gPortList (w.port a).portIndex) := by
        rw [hmid]
        exact fun e he => List.mem_append_right _ (List.mem_cons_of_mem _ he)
      rw [muxEntries_append fun e he => muxEntry_of_mem_muxWrites (hmid' e he) _]
      simp [muxEntries, Event.muxEntry]
    exact safe_of_mem_muxWrites (hc.port a ha) (muxGuard_of_check guard) (h.tid a ha) (h.last a ha)
      hmem (hentries ▸ hunder) hcd

/-- A mux hop makes one entry and brings the hardware of its port along. -/
theorem muxHop (hc : Coherent E w) (h : MuxHistory w) (ha : a ∈ w.sys.ports) {s : MuxState}
    (guard : lacpMuxCheckConditions w a = some s) : MuxHistory (muxHop w a s) := by
  have hguard := muxGuard_of_check guard
  have hindex := (EngineHop.mux ha guard).portIndex_eq
  have hstate : ((Lacp.muxHop w a s).port a).mux.state = s := by
    rw [muxHop_port_self]
    cases s <;> rfl
  have hsettled : s.settled = s := by cases hguard <;> rfl
  have hne : ∀ b ∈ w.sys.ports, b ≠ a → (w.port b).portIndex ≠ (w.port a).portIndex :=
    fun b hb hba heq => hba (hc.index_inj hb ha heq)
  refine ⟨fun b hb => ?_, fun i hi => ?_, fun b hb hatt => ?_, h.safe_muxHop hc ha guard⟩
  · rw [muxEntries_muxHop, hindex]
    by_cases hba : b = a
    · subst hba
      rw [if_pos rfl, hstate, hsettled]
      rfl
    · rw [if_neg (Ne.symm (hne b hb hba)), muxHop_port_of_ne w hba]
      exact h.last b hb
  · rw [muxEntries_muxHop, if_neg (hindex a ▸ hi a ha)]
    exact h.absent i fun b hb => hindex b ▸ hi b hb
  · rw [hindex]
    by_cases hba : b = a
    · subst hba
      rw [muxHop_gPortList_self]
      rw [LacpPort.Attached, hstate] at hatt
      exact tid_ne_zero_of_muxGuard (hc.port b hb) hguard (h.tid b hb) hatt
    · rw [muxHop_gPortList_of_ne w (hne b hb hba)]
      rw [muxHop_port_of_ne w hba] at hatt
      exact h.tid b hb hatt

/-- Every hop keeps the history in step with the ports. -/
theorem hop (hc : Coherent E w) (h : MuxHistory w) (hop : EngineHop w w') : MuxHistory w' := by
  have hports := hop.ports_eq
  have hindex := hop.portIndex_eq
  -- every hop but a mux hop leaves the states of the mux machines and the hardware
  have hkept : (∀ i, muxEntries i w'.trace = muxEntries i w.trace) → w'.gPortList = w.gPortList →
      (∀ b, (w'.port b).mux = (w.port b).mux) → NeverForwardsDetached w' → MuxHistory w' := by
    intro hentries hattr hmux hsafe
    refine ⟨fun b hb => ?_, fun i hi => ?_, fun b hb hatt => ?_, hsafe⟩
    · rw [hentries, hindex, hmux]
      exact h.last b (hports ▸ hb)
    · rw [hentries]
      exact h.absent i fun b hb => hindex b ▸ hi b (hports ▸ hb)
    · rw [hattr, hindex]
      rw [LacpPort.Attached, hmux] at hatt
      exact h.tid b (hports ▸ hb) hatt
  cases hop with
  | @rx a s =>
    refine hkept (fun i => muxEntries_cons rfl) rfl (fun b => (rxHop_frame w s b).1) ?_
    exact safe_of_quiet h.safe [_] rfl (by simp)
  | @sel a =>
    refine hkept (fun i => muxEntries_cons rfl) rfl (fun b => (selHop_frame w a b).2.1) ?_
    exact safe_of_quiet h.safe [_] rfl (by simp)
  | @tx a s =>
    refine hkept (fun i => ?_) rfl (fun b => (txHop_frame w s b).2.1)
      (safe_of_quiet h.safe (_ ++ [_]) (List.append_assoc _ [_] _).symm fun i attr he => ?_)
    · exact (muxEntries_append fun e he => by rw [eq_tx_of_mem_txSent he]; rfl).trans
        (muxEntries_cons rfl)
    · rcases List.mem_append.mp he with he | he
      · cases eq_tx_of_mem_txSent he
      · cases List.mem_singleton.mp he
  | mux ha guard => exact h.muxHop hc ha guard

/-- A write keeps the machines, the hardware and the history. -/
theorem write (hc : Coherent E w) (h : MuxHistory w) (htrace : w'.trace = w.trace)
    (htid : ∀ i, (w'.gPortList i).tid = (w.gPortList i).tid)
    (hports : ∀ b ∈ w'.sys.ports, PortCase R c E E' w w' b)
    (hgone : ∀ b ∈ w.sys.ports, b ∉ w'.sys.ports →
      (w.port b).portIndex ∈ E ∧ (w.port b).lacpEnabled = false ∧ Quiescent w) : MuxHistory w' := by
  have hmux : ∀ b, (w'.port b).core = (w.port b).core → (w'.port b).mux = (w.port b).mux := by
    intro b hcore
    simp only [LacpPort.core, Prod.mk.injEq] at hcore
    exact hcore.2.2.2.1
  refine ⟨fun b hb => ?_, fun i hi => ?_, fun b hb hatt => ?_, ?_⟩
  · rw [htrace]
    rcases (hports b hb).core_or_created with ⟨hb', hcore⟩ | ⟨_, sysMac, i, hnew, hport⟩
    · rw [portIndex_of_core hcore, hmux b hcore]
      exact h.last b hb'
    · rw [hport]
      exact h.absent i hnew
  · rw [htrace]
    by_cases habsent : ∀ a ∈ w.sys.ports, (w.port a).portIndex ≠ i
    · exact h.absent i habsent
    · -- the port with this index was taken off the list, with its mux machine in `MUX_DISABLE`
      push Not at habsent
      obtain ⟨a, ha, rfl⟩ := habsent
      have hgone' : a ∉ w'.sys.ports := by
        intro ha'
        rcases (hports a ha').core_or_created with ⟨_, hcore⟩ | ⟨hbrk, _⟩
        · exact hi a ha' (portIndex_of_core hcore)
        · exact absurd hbrk (hc.addr_lt a ha).ne
      obtain ⟨_, hlac, hq⟩ := hgone a ha hgone'
      rw [h.last a ha, (hc.portQuiet hq ha).off hlac]
      rfl
  · rw [htid]
    rcases (hports b hb).core_or_created with ⟨hb', hcore⟩ | ⟨_, sysMac, i, hnew, hport⟩
    · rw [portIndex_of_core hcore]
      rw [LacpPort.Attached, hmux b hcore] at hatt
      exact h.tid b hb' hatt
    · rw [hport] at hatt
      rcases hatt with hatt | hatt <;> cases hatt
  · rw [NeverForwardsDetached, htrace]
    exact h.safe

/-- Every effect keeps the history in step with the ports. -/
theorem effect (hc : Coherent E w) (h : MuxHistory w) (heffect : Effect R c (E, w) (E', w')) :
    MuxHistory w' := by
  cases heffect.cases hc with
  | hop hop => exact h.hop hc hop.engineHop
  | @setSys cfg _ _ hE hE' hw =>
    refine ⟨fun b hb => ?_, fun i hi => ?_, fun b hb hatt => ?_, ?_⟩
    · rw [hw.trace, hw.port b (hw.ports ▸ hb)]
      exact h.last b (hw.ports ▸ hb)
    · rw [hw.trace]
      refine h.absent i fun b hb => ?_
      have hne := hi b (hw.ports ▸ hb)
      rwa [hw.port b hb] at hne
    · rw [hw.tid]
      rw [hw.port b (hw.ports ▸ hb)] at hatt ⊢
      exact h.tid b (hw.ports ▸ hb) hatt
    · rw [NeverForwardsDetached, hw.trace]
      exact h.safe
  | write htrace _ htid hports hgone => exact h.write hc htrace htid hports hgone

end MuxHistory

/-- In every reachable state, each write to the hardware that was made under LACP control left the port
attached to an aggregator or off. -/
theorem reachable_neverForwardsDetached (w : World) (h : Reachable w) : NeverForwardsDetached w := by
  have hhistory : MuxHistory w := h.invariant_of_effects (P := fun _ => MuxHistory)
    (fun _ => ⟨(fun _ ha => nomatch ha), (fun _ _ => rfl), (fun _ ha => nomatch ha),
      fun _ _ later _ hsplit => by cases later <;> cases hsplit⟩)
    fun hc hP heffect => hP.effect hc heffect
  exact hhistory.safe

/-- Some write under LACP control switched a port on. -/
def switchedOnUnderLacp : List Event → Bool
  | [] => false
  | .hw i attr :: earlier =>
    (underLacp (muxEntries i earlier) && attr.cd != 0) || switchedOnUnderLacp earlier
  | _ :: earlier => switchedOnUnderLacp earlier

theorem aggregationRun_neverForwardsDetached :
    ∃ w, Reachable w ∧ switchedOnUnderLacp w.trace = true ∧ NeverForwardsDetached w := by
  have hrun : (runCalls (fun _ _ => true) 25 (initWorld 77) aggregationRun).any
      (fun w => switchedOnUnderLacp w.trace) = true := by decide +kernel
  obtain ⟨w, h, _, hon⟩ := exists_reachableBy_of_runCalls (R := fun _ _ => True) (by decide)
    (fun _ _ _ => trivial) hrun
  exact ⟨w, h, hon, reachable_neverForwardsDetached w h⟩

end Lacp
