import Lacp.Attachment

/-!
# Isolation between aggregators

A call that names a port of one link group and moves no port leaves the ports of the other groups as
they are (`reachable_isolated`). The engine runs over all ports of the bridge, but its walks over the
list pass over the ports of other groups, and those ports are at rest and stay at rest: a guard reads
the port's own record and the readiness of its own group (`Isolated.othersAtRest`).
-/

namespace Lacp

/-- The index of the port an event is about. -/
def Event.portIndex : Event → ℕ
  | .enter _ port => port.portIndex
  | .tx port _ => port.portIndex
  | .hw portIndex _ => portIndex

/-- The ports outside the group, with their entries of `g_port_list`, are as they were, and no new event
is about one of them. No port changes its group. -/
structure Isolated (g : ℕ) (w w' : World) : Prop where
  ports : w'.sys.ports = w.sys.ports
  sys : SysKept w.sys w'.sys
  portIndex : ∀ b ∈ w.sys.ports, (w'.port b).portIndex = (w.port b).portIndex
  aggId : ∀ b ∈ w.sys.ports, (w'.port b).aggId = (w.port b).aggId
  port : ∀ b ∈ w.sys.ports, (w.port b).aggId ≠ g → w'.port b = w.port b
  entry : ∀ b ∈ w.sys.ports, (w.port b).aggId ≠ g →
    w'.gPortList (w.port b).portIndex = w.gPortList (w.port b).portIndex
  trace : ∃ new, w'.trace = new ++ w.trace ∧
    ∀ b ∈ w.sys.ports, (w.port b).aggId ≠ g → ∀ e ∈ new, e.portIndex ≠ (w.port b).portIndex

/-- No machine of a port outside the group can move. -/
def OthersAtRest (g : ℕ) (w : World) : Prop :=
  ∀ b ∈ w.sys.ports, (w.port b).aggId ≠ g →
    lacpRxCheckConditions w b = none ∧ lacpSelCheckConditions w b = none ∧
      lacpMuxCheckConditions w b = none ∧ lacpTxCheckConditions w b = none

/-! ## Ports that are kept -/

/-- No machine of the port can move. -/
def AtRest (w : World) (b : Addr) : Prop :=
  lacpRxCheckConditions w b = none ∧ lacpSelCheckConditions w b = none ∧
    lacpMuxCheckConditions w b = none ∧ lacpTxCheckConditions w b = none

/-- The readiness of a group is read off its members, and a port of another group does not count. -/
theorem sysIsReady_congr {w w' : World} {b : Addr} (hports : w'.sys.ports = w.sys.ports)
    (hb : (w'.port b).aggId = (w.port b).aggId)
    (hsame : ∀ p ∈ w.sys.ports, (w.port p).aggId = (w.port b).aggId →
      (w'.port p).aggId = (w.port p).aggId ∧ (w'.port p).selected = (w.port p).selected ∧
        (w'.port p).standby = (w.port p).standby ∧ (w'.port p).readyN = (w.port p).readyN)
    (hjoins : ∀ p ∈ w.sys.ports, (w'.port p).aggId = (w.port b).aggId →
      (w.port p).aggId = (w.port b).aggId) : sysIsReady w' b = sysIsReady w b := by
  simp only [sysIsReady, hports, hb]
  refine Bool.eq_iff_iff.mpr ?_
  simp only [List.all_eq_true]
  refine forall₂_congr fun p hp => ?_
  by_cases hpg : (w.port p).aggId = (w.port b).aggId
  · obtain ⟨hagg, hsel, hsb, hready⟩ := hsame p hp hpg
    rw [hagg, hsel, hsb, hready]
  · have hpg' : (w'.port p).aggId ≠ (w.port b).aggId := fun heq => hpg (hjoins p hp heq)
    rw [bne_iff_ne.mpr (Ne.symm hpg), bne_iff_ne.mpr (Ne.symm hpg')]
    simp

/-- The ports of the group are as they were, and no port has joined it. -/
structure GroupKept (g : ℕ) (w w' : World) : Prop where
  ports : w'.sys.ports = w.sys.ports
  txHoldCount : w'.sys.txHoldCount = w.sys.txHoldCount
  port : ∀ b ∈ w.sys.ports, (w.port b).aggId = g → w'.port b = w.port b
  aggId : ∀ b ∈ w.sys.ports, (w'.port b).aggId = g → (w.port b).aggId = g

namespace GroupKept

variable {g : ℕ} {w u w' : World} {b : Addr}

theorem refl (g : ℕ) (w : World) : GroupKept g w w :=
  ⟨rfl, rfl, fun _ _ _ => rfl, fun _ _ hbg => hbg⟩

theorem trans (h : GroupKept g w u) (h' : GroupKept g u w') : GroupKept g w w' := by
  have hin : ∀ {b}, b ∈ w.sys.ports → b ∈ u.sys.ports := fun hb => h.ports.symm ▸ hb
  refine ⟨h'.ports.trans h.ports, h'.txHoldCount.trans h.txHoldCount, fun b hb hbg => ?_,
    fun b hb hbg => h.aggId b hb (h'.aggId b (hin hb) hbg)⟩
  have hport := h.port b hb hbg
  exact (h'.port b (hin hb) (hport.symm ▸ hbg)).trans hport

/-- A port of the group stays at rest: its guards read its own record, and the readiness of its own
group. -/
theorem atRest (h : GroupKept g w w') (hb : b ∈ w.sys.ports) (hbg : (w.port b).aggId = g)
    (hrest : AtRest w b) : AtRest w' b := by
  have hport := h.port b hb hbg
  have hready : sysIsReady w' b = sysIsReady w b := by
    refine sysIsReady_congr h.ports (congrArg LacpPort.aggId hport) (fun p hp hpg => ?_) fun p hp hpg => ?_
    · rw [h.port p hp (hpg.trans hbg)]
      exact ⟨rfl, rfl, rfl, rfl⟩
    · rw [hbg]
      exact h.aggId p hp (hpg.trans hbg)
  exact atRest_congr hport hready h.txHoldCount hrest

end GroupKept

namespace Isolated

variable {g : ℕ} {w u w' : World}

theorem refl (g : ℕ) (w : World) : Isolated g w w where
  ports := rfl
  sys := rfl
  portIndex := fun _ _ => rfl
  aggId := fun _ _ => rfl
  port := fun _ _ _ => rfl
  entry := fun _ _ _ => rfl
  trace := ⟨[], rfl, fun _ _ _ _ he => nomatch he⟩

theorem trans (h : Isolated g w u) (h' : Isolated g u w') : Isolated g w w' := by
  have hin : ∀ {b}, b ∈ w.sys.ports → b ∈ u.sys.ports := fun hb => h.ports.symm ▸ hb
  have hout : ∀ {b}, b ∈ w.sys.ports → (w.port b).aggId ≠ g → (u.port b).aggId ≠ g :=
    fun hb hbg => by
      rw [h.aggId _ hb]
      exact hbg
  refine ⟨h'.ports.trans h.ports, h.sys.trans h'.sys,
    fun b hb => (h'.portIndex b (hin hb)).trans (h.portIndex b hb),
    fun b hb => (h'.aggId b (hin hb)).trans (h.aggId b hb),
    fun b hb hbg => (h'.port b (hin hb) (hout hb hbg)).trans (h.port b hb hbg), ?_, ?_⟩
  · intro b hb hbg
    have hentry := h'.entry b (hin hb) (hout hb hbg)
    rw [h.portIndex b hb] at hentry
    exact hentry.trans (h.entry b hb hbg)
  · obtain ⟨new, htrace, hnew⟩ := h.trace
    obtain ⟨new', htrace', hnew'⟩ := h'.trace
    refine ⟨new' ++ new, by rw [htrace', htrace, List.append_assoc], fun b hb hbg e he => ?_⟩
    rcases List.mem_append.mp he with he | he
    · rw [← h.portIndex b hb]
      exact hnew' b (hin hb) (hout hb hbg) e he
    · exact hnew b hb hbg e he

/-- The ports of another group are kept. -/
theorem groupKept (h : Isolated g w w') {g' : ℕ} (hne : g' ≠ g) : GroupKept g' w w' where
  ports := h.ports
  txHoldCount := h.sys.txHoldCount
  port := fun b hb hbg => h.port b hb (hbg ▸ hne)
  aggId := fun b hb hbg => (h.aggId b hb).symm.trans hbg

/-- The ports outside the group stay at rest. -/
theorem othersAtRest (h : Isolated g w w') (hrest : OthersAtRest g w) : OthersAtRest g w' := by
  intro b hb hbg
  rw [h.ports] at hb
  rw [h.aggId b hb] at hbg
  exact (h.groupKept hbg).atRest hb rfl (hrest b hb hbg)

/-- A write to the ports of the group. -/
theorem update {s : LacpSys} {t : Set ℕ} {f : Addr → LacpPort → LacpPort} (hw : Update w w' s t f)
    (hsys : SysKept w.sys s) (hcore : ∀ b p, (f b p).core = p.core)
    (hagg : ∀ b p, (f b p).aggId = p.aggId)
    (hport : ∀ b ∈ w.sys.ports, (w.port b).aggId ≠ g → f b (w.port b) = w.port b)
    (htouched : ∀ b ∈ w.sys.ports, (w.port b).aggId ≠ g → (w.port b).portIndex ∉ t) :
    Isolated g w w' where
  ports := hw.ports
  sys := hsys.trans hw.sys
  portIndex := fun b hb => by
    rw [hw.port b hb]
    exact portIndex_of_core (hcore b _)
  aggId := fun b hb => by
    rw [hw.port b hb]
    exact hagg b _
  port := fun b hb hbg => (hw.port b hb).trans (hport b hb hbg)
  entry := fun b hb hbg => hw.entry _ (htouched b hb hbg)
  trace := ⟨[], hw.trace, fun _ _ _ _ he => nomatch he⟩

end Isolated

/-! ## Hops -/

section Hops

variable {E : Set ℕ} {w w' : World} {a : Addr} {g : ℕ}

/-- What is left to show of a hop once the port that moves is known to be in the group. -/
theorem EngineHop.isolated_of_aggId_eq (hc : Coherent E w) (hop : EngineHop w w')
    (ha : a ∈ w.sys.ports) (hag : (w.port a).aggId = g)
    (hport : ∀ b, b ≠ a → (w.port b).aggId ≠ g → w'.port b = w.port b)
    (hentry : ∀ i, i ≠ (w.port a).portIndex → w'.gPortList i = w.gPortList i)
    (htrace : ∃ new, w'.trace = new ++ w.trace ∧ ∀ e ∈ new, e.portIndex = (w.port a).portIndex) :
    Isolated g w w' := by
  have hba : ∀ b, (w.port b).aggId ≠ g → b ≠ a := fun b hbg hba => hbg (hba ▸ hag)
  -- a port of another group is another port, and no two ports have one index
  have hindex : ∀ b ∈ w.sys.ports, (w.port b).aggId ≠ g →
      (w.port b).portIndex ≠ (w.port a).portIndex :=
    fun b hb hbg heq => hba b hbg (hc.index_inj hb ha heq)
  obtain ⟨new, hnew, habout⟩ := htrace
  refine ⟨hop.ports_eq, ?_,
    fun b _ => hop.portIndex_eq b,
    fun b _ => hop.aggId_eq b,
    fun b _ hbg => hport b (hba b hbg) hbg, fun b hb hbg => hentry _ (hindex b hb hbg),
    new, hnew, fun b hb hbg e he => ?_⟩
  · rw [hop.sys_eq]
    rfl
  · rw [habout e he]
    exact (hindex b hb hbg).symm

/-- A hop of a port leaves the other groups alone. A port none of whose other machines can move sends. -/
theorem EngineHop.exists_isolated (hc : Coherent E w) (hop : EngineHop w w') :
    ∃ a ∈ w.sys.ports, ¬ AtRest w a ∧
      (lacpRxCheckConditions w a = none → lacpSelCheckConditions w a = none →
        lacpMuxCheckConditions w a = none → ∃ s, w' = txHop w a s) ∧
      Isolated (w.port a).aggId w w' := by
  cases hop with
  | @rx a s ha guard =>
    refine ⟨a, ha, fun hnone => by simp [hnone.1] at guard, fun hrx => by simp [hrx] at guard, ?_⟩
    refine (EngineHop.rx ha guard).isolated_of_aggId_eq hc ha rfl (fun b hba hbg => ?_)
      (fun _ _ => rfl) ⟨[.enter .rx { w.port a with rx := ⟨true, s⟩ }], rfl, ?_⟩
    · simp only [rxHop, if_neg hba]
      -- a new partner deselects the members of the port's own group only
      rw [if_neg fun hin => hbg hin.2.2]
    · intro e he
      rw [List.mem_singleton.mp he]
      rfl
  | @sel a ha guard =>
    refine ⟨a, ha, fun hnone => by simp [hnone.2.1] at guard, fun _ hsel => by simp [hsel] at guard, ?_⟩
    refine (EngineHop.sel ha guard).isolated_of_aggId_eq hc ha rfl (fun b hba hbg => ?_)
      (fun _ _ => rfl) ⟨[.enter .sel { w.port a with sel := ⟨true, .selection⟩ }], rfl, ?_⟩
    · exact selHop_port_of_ne hba hbg
    · intro e he
      rw [List.mem_singleton.mp he]
      rfl
  | @mux a s ha guard =>
    refine ⟨a, ha, fun hnone => by simp [hnone.2.2.1] at guard, fun _ _ hmux => by simp [hmux] at guard, ?_⟩
    refine (EngineHop.mux ha guard).isolated_of_aggId_eq hc ha rfl (fun b hba _ => ?_)
      (fun i hi => if_neg hi) ⟨muxWrites { w.port a with mux := ⟨false, s⟩ }
        (w.gPortList (w.port a).portIndex) ++ [.enter .mux { w.port a with mux := ⟨true, s⟩ }],
        by simp [muxHop], ?_⟩
    · simp only [muxHop, if_neg hba]
    · intro e he
      rcases List.mem_append.mp he with he | he
      · obtain ⟨_, rfl⟩ := eq_hw_of_mem_muxWrites he
        rfl
      · rw [List.mem_singleton.mp he]
        rfl
  | @tx a s ha guard =>
    refine ⟨a, ha, fun hnone => by simp [hnone.2.2.2] at guard, fun _ _ _ => ⟨s, rfl⟩, ?_⟩
    refine (EngineHop.tx ha guard).isolated_of_aggId_eq hc ha rfl (fun b hba _ => ?_)
      (fun _ _ => rfl) ⟨txSent w.pid { w.port a with tx := ⟨true, s⟩ }
        ++ [.enter .tx { w.port a with tx := ⟨true, s⟩ }], by simp [txHop], ?_⟩
    · simp only [txHop, if_neg hba]
    · intro e he
      rcases List.mem_append.mp he with he | he
      · obtain rfl := eq_tx_of_mem_txSent he
        rfl
      · rw [List.mem_singleton.mp he]
        rfl

/-- Where the other groups are at rest, the port that moves is in the group. -/
theorem EngineHop.isolated (hc : Coherent E w) (hrest : OthersAtRest g w) (hop : EngineHop w w') :
    Isolated g w w' := by
  obtain ⟨a, ha, hmoves, -, hisolated⟩ := hop.exists_isolated hc
  have hag : (w.port a).aggId = g := by
    by_contra hag
    exact hmoves (hrest a ha hag)
  exact hag ▸ hisolated

end Hops

/-! ## Calls -/

/-- The call concerns one port and changes no membership: a reception, a link change, a setting of the
port or its counters. -/
def Call.KeepsMembership : Call → Prop
  | .portSetPrio _ _ _ | .portSetSpeed _ _ _ | .portSetDuplex _ _ _ | .portLinkChange _ _ _
  | .portClearStat _ _ | .setPortLinkStatus _ _ | .rxLacpdu _ _ _ => True
  | .sysSetPrio _ | .sysSetLongPeriod _ | .sysSetShortPeriod _ | .sysSetPeriod _
  | .portLacpEnable _ _ _ _ | .portLacpDisable _ _ | .aggDelete _ | .oneSecond => False

/-- No link-down port outside the group has the sender of the frame as its recorded partner. -/
def SenderUnknown (g : ℕ) (w : World) (pdu : LacpPdu) : Prop :=
  ∀ b ∈ w.sys.ports, (w.port b).aggId ≠ g → (w.port b).portEnabled = false →
    samePort (w.port b).partner (lacpCopyInfoFromNet pdu.actor) = false

instance (g : ℕ) (w : World) (pdu : LacpPdu) : Decidable (SenderUnknown g w pdu) :=
  inferInstanceAs (Decidable (∀ b ∈ _, _))

section Calls

variable {R : World → Call → Prop} {c : Call} {E E' : Set ℕ} {w w' : World} {g : ℕ}

theorem Isolated.reconfigured {t : Set ℕ} {a : Addr} {u : LacpPort → LacpPort}
    (hc : Coherent E w) (hw : Update w w' w.sys t (reconfigured a (w.port a).aggId u))
    (ha : a ∈ w.sys.ports) (hag : (w.port a).aggId = g) (hcore : ∀ p, (u p).core = p.core)
    (hagg : ∀ p, (u p).aggId = p.aggId) (ht : t ⊆ {(w.port a).portIndex}) : Isolated g w w' := by
  have hba : ∀ b, (w.port b).aggId ≠ g → b ≠ a := fun b hbg hba => hbg (hba ▸ hag)
  refine .update hw rfl (fun b p => reconfigured_core hcore a b _ p) (fun b p => ?_)
    (fun b _ hbg => ?_) fun b hb hbg hbt => hba b hbg (hc.index_inj hb ha (ht hbt))
  · simp only [Lacp.reconfigured]
    split
    · exact hagg p
    · split <;> rfl
  · simp only [Lacp.reconfigured, if_neg (hba b hbg), hag, if_neg hbg]

/-- An effect of a call that names a port of the group leaves the other groups alone. -/
theorem Effect.isolated (hc : Coherent E w) (hrest : OthersAtRest g w) (hkeeps : c.KeepsMembership)
    (htarget : ∀ a ∈ w.sys.ports, c.target = some (w.port a).portIndex → (w.port a).aggId = g)
    (hsender : ∀ slot port pdu, c = .rxLacpdu slot port pdu → SenderUnknown g w pdu)
    (heffect : Effect R c (E, w) (E', w')) : Isolated g w w' := by
  have hremoval : ∀ {c : Call}, c.KeepsMembership → c.isRemoval = true → False := by
    intro c hkeeps hremoval
    cases c <;> first | exact hkeeps | cases hremoval
  cases heffect with
  | hop hop => exact hop.isolated hc hrest
  | rest hw =>
    exact .update hw rfl (fun _ _ => rfl) (fun _ _ => rfl) (fun _ _ _ => rfl)
      fun b hb _ hmem => hmem b hb rfl
  | @store _ _ i prio linkStatus hcall =>
    refine ⟨rfl, rfl, fun _ _ => rfl, fun _ _ => rfl, fun _ _ _ => rfl, fun b hb hbg => ?_,
      [], rfl, fun _ _ _ _ he => nomatch he⟩
    refine if_neg fun hindex => hbg (htarget b hb ?_)
    rw [hcall, hindex]
  | create hcall | join hcall =>
    subst hcall
    exact hkeeps.elim
  | @reselect _ _ a hcall ha _ hw =>
    exact .reconfigured hc hw ha (htarget a ha hcall) (fun _ => rfl) (fun _ => rfl) subset_rfl
  | @prio _ _ a _ hcall ha _ hw =>
    exact .reconfigured hc hw ha (htarget a ha hcall) (fun _ => rfl) (fun _ => rfl)
      (Set.empty_subset _)
  | @link _ _ a linkStatus hcall ha _ _ hw =>
    refine .reconfigured hc hw ha (htarget a ha hcall) (linkChangedPort_core _ _) (fun p => ?_)
      (Set.empty_subset _)
    simp only [linkChangedPort]
    split <;> rfl
  | @stat _ _ a hcall ha hw =>
    refine .update hw rfl (fun b p => onlyAt_core (u := statPort) (fun _ => rfl) a b p)
      (fun b p => ?_) (fun b _ hbg => ?_) fun _ _ _ => Set.notMem_empty _
    · simp only [onlyAt]
      split <;> rfl
    · have hba : b ≠ a := fun hba => hbg (hba ▸ htarget a ha hcall)
      rw [onlyAt, if_neg hba]
  | @receive _ _ a moved slot port pdu hcall hindex ha _ _ hq _ hmoved hw =>
    subst hcall
    have hag : (w.port a).aggId = g := htarget a ha (congrArg some hindex.symm)
    refine .update hw rfl (fun b p => received_core a moved pdu b p) (fun b p => ?_)
      (fun b hb hbg => ?_) fun _ _ _ => Set.notMem_empty _
    · simp only [received]
      repeat' split
      all_goals rfl
    · have hba : b ≠ a := fun hba => hbg (hba ▸ hag)
      -- a port of another group is marked as moved only if it knows the sender
      have hbm : moved ≠ some b := by
        intro hbm
        obtain ⟨_, _, hrx, hsame⟩ := hmoved b hbm
        have hdown := (hc.portQuiet hq hb).linkDown.mpr hrx
        exact absurd hsame (by simp [hsender slot port pdu rfl b hb hbg hdown])
      simp only [received, if_neg hba, if_neg hbm]
  | setSys hcall =>
    cases c <;> first | exact hkeeps.elim | cases hcall
  | tick hcall =>
    subst hcall
    exact hkeeps.elim
  | unlink hcall | notify hcall | leave hcall | remove hcall => exact (hremoval hkeeps hcall).elim

/-- A call that names a port and changes no membership leaves the ports of other groups unchanged, and
transmits nothing on them. -/
theorem reachable_isolated (w w' : World) (h : Reachable w) (q : Addr) (hq : q ∈ w.sys.ports)
    (c : Call) (hkeeps : c.KeepsMembership) (htarget : c.target = some (w.port q).portIndex)
    (hsender : ∀ slot port pdu, c = .rxLacpdu slot port pdu →
      SenderUnknown (w.port q).aggId w pdu)
    (hstep : Step c w w') : Isolated (w.port q).aggId w w' := by
  obtain ⟨hc, hquiet⟩ := h.coherent
  have hcompletes := completes_of_step (R := fun _ _ => True) hc hquiet trivial hstep
  have hrest : OthersAtRest (w.port q).aggId w := fun b hb _ => hquiet b hb
  have hboth := hcompletes.1.invariant
    (P := fun E u => Coherent E u ∧ Isolated (w.port q).aggId w u) (fun {E u E' u'} hP heffect => ?_)
    ⟨hc, .refl _ w⟩
  · exact hboth.2
  · obtain ⟨hcu, hisolated⟩ := hP
    refine ⟨hcu.effect heffect, hisolated.trans (heffect.isolated hcu
      (hisolated.othersAtRest hrest) hkeeps (fun a ha hcall => ?_) fun slot port pdu hcall => ?_)⟩
    · rw [hisolated.ports] at ha
      rw [hisolated.portIndex a ha, htarget] at hcall
      rw [hisolated.aggId a ha, hc.index_inj ha hq (Option.some.inj hcall).symm]
    · intro b hb hbg hdown
      rw [hisolated.ports] at hb
      rw [hisolated.aggId b hb] at hbg
      rw [hisolated.port b hb hbg] at hdown ⊢
      exact hsender slot port pdu hcall b hb hbg hdown

end Calls

/-- Ports 1 and 2 of slot 0 forward in link groups 1 and 2. -/
def twoGroupsRun : List Call :=
  [.setPortLinkStatus 0 1, .setPortLinkStatus 1 1,
    .portLacpEnable 0 1 1 .zero, .portLacpEnable 0 2 2 .zero,
    .rxLacpdu 0 1 (peerFrame 3 1), .rxLacpdu 0 2 (peerFrame 4 2),
    .oneSecond, .oneSecond, .oneSecond]

/-- Port 1 gets a new partner; port 2 is left alone. -/
theorem twoGroupsRun_isolated :
    ∃ w w', Reachable w ∧ Step (.rxLacpdu 0 1 (peerFrame 5 1)) w w' ∧ 1 ∈ w.sys.ports ∧
      (w.port 1).aggId = 2 ∧ Isolated 1 w w' := by
  have hrun : (runCalls (fun _ _ => true) 25 (initWorld 77) twoGroupsRun).any (fun w =>
      decide (0 ∈ w.sys.ports ∧ 1 ∈ w.sys.ports) && decide ((w.port 0).portIndex = 0)
        && decide ((w.port 0).aggId = 1) && decide ((w.port 1).aggId = 2)
        && decide (SenderUnknown 1 w (peerFrame 5 1))
        && (runCall 25 w (.rxLacpdu 0 1 (peerFrame 5 1))).isSome) = true := by decide +kernel
  obtain ⟨w, h, _, hstate⟩ := exists_reachableBy_of_runCalls (R := fun _ _ => True) (by decide)
    (fun _ _ _ => trivial) hrun
  simp only [Bool.and_eq_true, decide_eq_true_iff] at hstate
  obtain ⟨⟨⟨⟨⟨hports, hindex⟩, hagg⟩, hagg'⟩, hsender⟩, hcall⟩ := hstate
  obtain ⟨⟨w', ret⟩, hcall⟩ := Option.isSome_iff_exists.mp hcall
  have hstep : Step (.rxLacpdu 0 1 (peerFrame 5 1)) w w' := ⟨by decide, 25, ret, hcall⟩
  have hisolated := reachable_isolated w w' h 0 hports.1 (.rxLacpdu 0 1 (peerFrame 5 1)) trivial
    (by rw [hindex]; rfl) (fun slot port pdu hrx => by cases hrx; rw [hagg]; exact hsender) hstep
  rw [hagg] at hisolated
  exact ⟨w, w', h, hstep, hports.2, hagg', hisolated⟩

end Lacp
