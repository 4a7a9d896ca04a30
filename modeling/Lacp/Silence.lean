import Lacp.Reception

/-!
# A silent partner

Reference: `lacp_one_second`, `lacp_rx_check_conditions` and `record_default`.

While nothing is received on a port and no call names it, only time moves its receive machine:
`RXM_CURRENT` until `current_while` runs out, then `RXM_EXPIRED` for `short_timeout_time` seconds, then
`RXM_DEFAULTED` for good. `silentTicks` is the number of seconds that are left. Nothing but a tick changes
it, and a tick takes one off (`Silent`). At rest a port on the default partner is detached, so this is
where it ends (`reachable_silent_detached`).
-/

namespace Lacp

open Relation (ReflTransGen)

/-- The seconds until a port that hears nothing falls back on the default partner. -/
def silentTicks (sys : LacpSys) (p : RxInputs) : ℕ :=
  match p.state with
  | .current => p.currentWhile.toNat + sys.shortTimeoutTime.toNat
  | .expired => p.currentWhile.toNat
  | _ => 0

/-- A port whose link is up and that has no frame to take over, with `k` seconds left. -/
structure Silent (sys : LacpSys) (k : ℕ) (p : RxInputs) : Prop where
  portEnabled : p.portEnabled = true
  rcvdLacpdu : p.rcvdLacpdu = false
  state : p.state = .current ∨ p.state = .expired ∨ p.state = .defaulted
  ticks : silentTicks sys p = k

/-- The call neither names the port with this index nor removes it. -/
def Call.ConcernsOthers (i : ℕ) (w : World) (c : Call) : Prop :=
  c.target ≠ some i ∧ i ∉ c.removes w

/-- `n` seconds pass between `w` and `w'`, with calls between them that concern other ports only. -/
inductive SilentRun (i : ℕ) : ℕ → World → World → Prop
  | done (w : World) : SilentRun i 0 w w
  | tick {n : ℕ} {w v w' : World} (hstep : Step .oneSecond w v) (hrest : SilentRun i n v w') :
      SilentRun i (n + 1) w w'
  | call {n : ℕ} {w v w' : World} {c : Call} (hc : c ≠ .oneSecond) (hok : c.ConcernsOthers i w)
      (hstep : Step c w v) (hrest : SilentRun i n v w') : SilentRun i n w w'

namespace Silent

variable {w w' : World} {a b : Addr} {sys sys' : LacpSys} {i k : ℕ} {p q : LacpPort}

theorem sys_congr (h : Silent sys k p.rxInputs)
    (hsys : sys'.shortTimeoutTime = sys.shortTimeoutTime) : Silent sys' k p.rxInputs := by
  refine ⟨h.portEnabled, h.rcvdLacpdu, h.state, ?_⟩
  rw [← h.ticks]
  simp only [silentTicks, hsys]

/-- A receive machine moves on when its timer has run out, and starts the next one. -/
theorem hop (h : Silent w.sys k (w.port b).rxInputs) (hop : PortHop w b q) :
    Silent w.sys k q.rxInputs := by
  rcases hop.rx_or_untouched with ⟨s, _, guard, rfl⟩ | huntouched
  · have hen : (w.port b).portEnabled = true := h.portEnabled
    have hrv : (w.port b).rcvdLacpdu = false := h.rcvdLacpdu
    have hstate : (w.port b).rx.state = .current ∨ (w.port b).rx.state = .expired ∨
        (w.port b).rx.state = .defaulted := h.state
    have hticks := h.ticks
    cases rxGuard_of_check guard with
    | expire hs _ hcw =>
      refine ⟨hen, hrv, .inr (.inl rfl), ?_⟩
      rw [← hticks]
      simp [silentTicks, LacpPort.rxInputs, rxEntered, hs, hcw]
    | timeout hs _ hcw =>
      refine ⟨hen, hrv, .inr (.inr rfl), ?_⟩
      rw [← hticks]
      simp [silentTicks, LacpPort.rxInputs, rxEntered, hs, hcw]
    | linkDown hdown => exact absurd (hen.symm.trans hdown) (by simp)
    | resume _ _ _ hrcvd | refresh _ _ hrcvd | recover _ _ hrcvd =>
      exact absurd (hrv.symm.trans hrcvd) (by simp)
    | start hs | initialized hs | moved hs | linkUp hs | linkUpOff hs | lacpOn hs =>
      simp [hs] at hstate
  · rw [huntouched.inputs]
    exact h

theorem hops (h : Silent w.sys k (w.port b).rxInputs) (hhops : ReflTransGen OrderedHop w w') :
    Silent w'.sys k (w'.port b).rxInputs := by
  induction hhops with
  | refl => exact h
  | tail _ hop ih =>
    rw [hop.engineHop.sys_eq]
    exact ih.hop (hop.engineHop.portHop b)

/-- A second passes: one is off, unless the port is on the default partner already. -/
theorem oneSecond (h : Silent sys k p.rxInputs) (hrunning : p.rx.state = .expired ∨
    p.rx.state = .current → p.currentWhile ≠ 0) : Silent sys (k - 1) (oneSecondPort p).rxInputs := by
  refine ⟨h.portEnabled, h.rcvdLacpdu, h.state, ?_⟩
  have hpos : p.currentWhile ≠ 0 → p.currentWhile.toNat ≠ 0 := fun hne hzero =>
    hne (UInt16.toNat_inj.mp hzero)
  have hticks := h.ticks
  rcases h.state with hs | hs | hs <;> replace hs : p.rx.state = _ := hs
  · have hne := hpos (hrunning (.inr hs))
    simp only [silentTicks, LacpPort.rxInputs, oneSecondPort, hs, decrementTimer_toNat] at hticks ⊢
    omega
  · simp only [silentTicks, LacpPort.rxInputs, oneSecondPort, hs, decrementTimer_toNat] at hticks ⊢
    omega
  · simp only [silentTicks, LacpPort.rxInputs, oneSecondPort, hs] at hticks ⊢
    omega

end Silent

section Call

variable {w w' : World} {c : Call} {E E' : Set ℕ} {a : Addr} {i k : ℕ} {q : LacpPort}

/-- The port at `a` is silent, and it is not among those that are being removed. -/
structure SilentAt (i k : ℕ) (a : Addr) (E : Set ℕ) (w : World) : Prop where
  listed : a ∈ w.sys.ports
  portIndex : (w.port a).portIndex = i
  spared : i ∉ E
  silent : Silent w.sys k (w.port a).rxInputs

/-- No write of a call that concerns others reaches what the receive machine reads. -/
theorem SilentAt.write (h : SilentAt i k a E w) (hc : c ≠ .oneSecond) (hothers : c.target ≠ some i)
    (hwrite : PortWrite (Call.ConcernsOthers i) c E w a q) : q.rxInputs = (w.port a).rxInputs := by
  have hindex := h.portIndex
  cases hwrite with
  | same | deselect | stat => rfl
  | prio htarget | link htarget => exact absurd (htarget.trans (by rw [hindex])) hothers
  | receive hrx hport =>
    subst hrx
    exact absurd (congrArg some (hport.symm.trans hindex)) hothers
  | moved _ _ _ _ hmoved =>
    -- only a port whose link is down is marked
    have hdown := (of_movedPort_eq_some hmoved).2.2.1
    have hstate : (w.port a).rx.state = .current ∨ (w.port a).rx.state = .expired ∨
        (w.port a).rx.state = .defaulted := h.silent.state
    simp [hdown] at hstate
  | tick htick => exact absurd htick hc
  | notify hE => exact absurd (hindex ▸ hE) h.spared
  | leave _ hE => exact absurd (hindex ▸ hE) h.spared

theorem SilentAt.effect (hcoherent : Coherent E w) (h : SilentAt i k a E w) (hc : c ≠ .oneSecond)
    (hothers : c.target ≠ some i)
    (heffect : Effect (Call.ConcernsOthers i) c (E, w) (E', w')) : SilentAt i k a E' w' := by
  have hspared : i ∉ E' := by
    refine heffect.spared h.spared (fun slot port aggId sysMac hcall hindex => ?_) And.right
    subst hcall
    exact hothers (congrArg some hindex)
  have hcoherent' := hcoherent.effect heffect
  have hshort : w'.sys.shortTimeoutTime = w.sys.shortTimeoutTime := by
    rw [hcoherent'.shortTimeoutTime, hcoherent.shortTimeoutTime]
  cases heffect.cases hcoherent with
  | hop hop =>
    have hsys := hop.engineHop.sys_eq
    refine ⟨hsys ▸ h.listed, (hop.engineHop.portIndex_eq a).trans h.portIndex, hspared, ?_⟩
    rw [hsys]
    exact h.silent.hop (hop.engineHop.portHop a)
  | setSys _ _ _ _ hw =>
    have hport := hw.port a h.listed
    refine ⟨hw.ports ▸ h.listed, by rw [hport]; exact h.portIndex, hspared, ?_⟩
    rw [hport]
    exact h.silent.sys_congr hshort
  | write _ _ _ hports hgone =>
    have hlisted : a ∈ w'.sys.ports := by
      by_contra hgone'
      exact h.spared (h.portIndex ▸ (hgone a h.listed hgone').1)
    cases hports a hlisted with
    | write _ hwrite =>
      have hindex := hwrite.portIndex_eq
      refine ⟨hlisted, hindex.trans h.portIndex, hspared, ?_⟩
      rw [h.write hc hothers hwrite]
      exact h.silent.sys_congr hshort
    | join _ hcall _ hindex =>
      subst hcall
      exact absurd (congrArg some (hindex.symm.trans h.portIndex)) hothers
    | reselect _ htarget => exact absurd (htarget.trans (by rw [h.portIndex])) hothers
    | create hb => exact absurd hb (hcoherent.addr_lt a h.listed).ne

/-- A call that concerns others leaves a silent port silent. -/
theorem SilentAt.call (hcoherent : Coherent ∅ w) (hq : Quiescent w) (h : SilentAt i k a ∅ w)
    (hc : c ≠ .oneSecond) (hok : c.ConcernsOthers i w) (hstep : Step c w w') :
    SilentAt i k a ∅ w' := by
  obtain ⟨heffects, _⟩ := completes_of_step hcoherent hq hok hstep
  have hboth := heffects.invariant (P := fun E w => Coherent E w ∧ SilentAt i k a E w)
    (fun hP heffect => ⟨hP.1.effect heffect, hP.2.effect hP.1 hc hok.1 heffect⟩) ⟨hcoherent, h⟩
  exact hboth.2

/-- A second brings a silent port one second nearer to the default partner. -/
theorem SilentAt.tick (hcoherent : Coherent ∅ w) (hq : Quiescent w) (h : SilentAt i k a ∅ w)
    (hstep : Step .oneSecond w w') : SilentAt i (k - 1) a ∅ w' := by
  obtain ⟨_, fuel, ret, hrun⟩ := hstep
  obtain ⟨v, hv, hend⟩ := Option.map_eq_some_iff.mp hrun
  obtain ⟨rfl, -⟩ := Prod.mk.inj hend
  set u := (lacpCriticalPathStart w).forPorts fun _ port => oneSecondPort port with hu
  simp only [lacpOneSecond, hcoherent.adminState, Bool.not_true, Bool.false_eq_true, if_false] at hv
  obtain ⟨x, hupdate, rfl⟩ := Option.map_eq_some_iff.mp hv
  have hport : u.port a = oneSecondPort (w.port a) := if_pos h.listed
  have hidle : Idle u := hcoherent.idle.update (update_oneSecond w) fun _ _ => rfl
  obtain ⟨hhops, -, -⟩ := lacpSysUpdate_spec hidle hupdate
  have hsys := hops_sys_eq hhops
  have hstart : Silent u.sys (k - 1) (u.port a).rxInputs := by
    rw [hport]
    exact h.silent.oneSecond (hcoherent.portQuiet hq h.listed).running
  have hindex : (x.port a).portIndex = (u.port a).portIndex := hops_portIndex_eq hhops a
  have hend : Silent x.sys (k - 1) (x.port a).rxInputs := hstart.hops hhops
  refine ⟨?_, ?_, Set.notMem_empty i, hend⟩
  · show a ∈ x.sys.ports
    rw [hsys]
    exact h.listed
  · show (x.port a).portIndex = i
    rw [hindex, hport]
    exact h.portIndex

/-- After `n` seconds `n` are off. -/
theorem SilentAt.run {n : ℕ} (hreach : Reachable w) (h : SilentAt i k a ∅ w)
    (hrun : SilentRun i n w w') : Reachable w' ∧ SilentAt i (k - n) a ∅ w' := by
  induction hrun generalizing k with
  | done => exact ⟨hreach, h⟩
  | @tick n w v w' hstep _ ih =>
    obtain ⟨hcoherent, hq⟩ := hreach.coherent
    have hrest := ih (hreach.step trivial hstep) (h.tick hcoherent hq hstep)
    rwa [Nat.sub_sub, Nat.add_comm 1 n] at hrest
  | call hc hok hstep _ ih =>
    obtain ⟨hcoherent, hq⟩ := hreach.coherent
    exact ih (hreach.step trivial hstep) (h.call hcoherent hq hc hok hstep)

end Call

/-! ## Silent runs -/

/-- The seconds that pass in a call. -/
def Call.ticks : Call → ℕ
  | .oneSecond => 1
  | _ => 0

theorem silentRun_of_runCalls {i : ℕ} {test : World → Call → Bool} {fuel : ℕ} {calls : List Call}
    {w w' : World} (hrange : ∀ c ∈ calls, c.InRange)
    (htest : ∀ w c, test w c = true → c = .oneSecond ∨ c.ConcernsOthers i w)
    (hrun : runCalls test fuel w calls = some w') :
    SilentRun i (calls.map Call.ticks).sum w w' := by
  induction calls generalizing w with
  | nil =>
    obtain rfl := Option.some.inj hrun
    exact .done w
  | cons c calls ih =>
    obtain ⟨u, hu, hrest⟩ := Option.bind_eq_some_iff.mp hrun
    simp only at hu
    split at hu
    · rename_i hpass
      obtain ⟨⟨u', ret⟩, hcall, rfl⟩ := Option.map_eq_some_iff.mp hu
      have hstep : Step c w u' := ⟨hrange c List.mem_cons_self, fuel, ret, hcall⟩
      have hrest := ih (fun d hd => hrange d (List.mem_cons_of_mem _ hd)) hrest
      rw [List.map_cons, List.sum_cons, Nat.add_comm]
      by_cases htick : c = .oneSecond
      · subst htick
        exact .tick hstep hrest
      · have hzero : c.ticks = 0 := by
          cases c with
          | oneSecond => exact absurd rfl htick
          | _ => rfl
        rw [hzero]
        exact .call htick ((htest w c hpass).resolve_left htick) hstep hrest
    · cases hu

/-! ## Every reachable state -/

/-- The port has fallen back on its default partner and forwards nothing. -/
structure FallenBack (p : LacpPort) (attr : PortAttr) : Prop where
  rx : p.rx.state = .defaulted
  partner : p.partner = p.partnerAdmin
  standby : p.standby = true
  mux : p.mux.state ≠ .attached ∧ p.mux.state ≠ .rxTx
  actorSYN : p.actor.state.SYN = false
  tid : attr.tid = 0
  cd : attr.cd = 0

/-- At rest a port on the default partner is detached: its partner cannot be aggregated. -/
theorem PortCoherent.fallenBack {sys : LacpSys} {p : LacpPort} {attr : PortAttr}
    (h : PortCoherent ∅ sys p attr) (hq : PortQuiet p) (hrx : p.rx.state = .defaulted) :
    FallenBack p attr := by
  have hlac := h.enabled (Set.notMem_empty _)
  have hpartner := (h.defaulted hrx).2.2
  have hstandby : p.standby = true := by
    by_contra hsb
    have hagg := (h.active hlac hq.selected (by simpa using hsb)).2.1
    rw [hpartner, h.partnerAdmin] at hagg
    cases hagg
  have hdetached : ¬ p.Attached := fun hatt => h.not_defaulted_of_attached hq hlac hatt hrx
  have hmux : p.mux.state ≠ .attached ∧ p.mux.state ≠ .rxTx :=
    ⟨fun hs => hdetached (.inl hs), fun hs => hdetached (.inr hs)⟩
  have hoff : p.mux.state = .detached ∨ p.mux.state = .waiting ∨ p.mux.state = .readyN ∨
      p.mux.state = .attached := by
    obtain ⟨hbegin, hdisable⟩ := hq.on hlac
    cases hs : p.mux.state <;> simp_all
  refine ⟨hrx, hpartner, hstandby, hmux, ?_, h.unattached hdetached, (h.off hoff).2.2⟩
  by_contra hsyn
  exact hdetached (h.syn (by simpa using hsyn))

/-- A port whose receive machine is in `RXM_CURRENT` with `n` seconds left has fallen back on its default
partner when `n` seconds and the short timeout have passed in silence. -/
theorem reachable_silent_detached (w : World) (h : Reachable w) (a : Addr) (ha : a ∈ w.sys.ports)
    (hrx : (w.port a).rx.state = .current) (w' : World)
    (hrun : SilentRun (w.port a).portIndex
      ((w.port a).currentWhile.toNat + w.sys.shortTimeoutTime.toNat) w w') :
    a ∈ w'.sys.ports ∧ FallenBack (w'.port a) (w'.gPortList (w'.port a).portIndex) := by
  obtain ⟨hcoherent, hq⟩ := h.port ha
  have hen : (w.port a).portEnabled = true := by
    by_contra hdown
    have hs := hq.linkDown.mp (by simpa using hdown)
    rw [hrx] at hs
    cases hs
  have hstart : SilentAt (w.port a).portIndex
      ((w.port a).currentWhile.toNat + w.sys.shortTimeoutTime.toNat) a ∅ w :=
    ⟨ha, rfl, Set.notMem_empty _, hen, hq.rcvd, .inl hrx, by
      simp only [silentTicks, LacpPort.rxInputs, hrx]⟩
  obtain ⟨hreach, hend⟩ := hstart.run h hrun
  obtain ⟨hcoherent', hq'⟩ := hreach.port hend.listed
  rw [Nat.sub_self] at hend
  refine ⟨hend.listed, hcoherent'.fallenBack hq' ?_⟩
  -- elsewhere there would be seconds left
  have hticks := hend.silent.ticks
  have hpos : (w'.port a).rx.state = .expired ∨ (w'.port a).rx.state = .current →
      (w'.port a).currentWhile.toNat ≠ 0 := fun hs hzero =>
    hq'.running hs (UInt16.toNat_inj.mp hzero)
  rcases hend.silent.state with hs | hs | hs <;> replace hs : (w'.port a).rx.state = _ := hs
  · simp only [silentTicks, LacpPort.rxInputs, hs] at hticks
    have hne := hpos (.inr hs)
    omega
  · simp only [silentTicks, LacpPort.rxInputs, hs] at hticks
    have hne := hpos (.inl hs)
    omega
  · exact hs

/-- Two partners answer with the short timeout, and then the first one falls silent. -/
def silentPartnerRun : List Call × List Call :=
  ([.sysSetPeriod 1, .setPortLinkStatus 0 1, .setPortLinkStatus 1 1,
    .portLacpEnable 0 1 1 .zero, .portLacpEnable 0 2 1 .zero,
    .rxLacpdu 0 1 (peerFrame 3 1), .rxLacpdu 0 2 (peerFrame 4 2), .oneSecond],
   [.oneSecond, .rxLacpdu 0 2 (peerFrame 4 2), .oneSecond, .oneSecond, .portSetSpeed 0 2 100,
    .rxLacpdu 0 2 (peerFrame 4 2), .oneSecond, .oneSecond])

/-- The calls of the second part: seconds, and calls that name port 2 of slot 0. -/
def silentPartnerTest (_ : World) : Call → Bool
  | .oneSecond | .rxLacpdu 0 2 _ | .portSetSpeed 0 2 _ => true
  | _ => false

theorem silentPartnerRun_detached : ∃ w w', Reachable w ∧ (w.port 0).rx.state = .current ∧
    (w.port 0).currentWhile = 2 ∧ SilentRun 0 5 w w' ∧ (w'.port 1).rx.state = .current ∧
    FallenBack (w'.port 0) (w'.gPortList (w'.port 0).portIndex) := by
  have hrun : (runCalls (fun _ _ => true) 40 (initWorld 77) silentPartnerRun.1).any (fun w =>
      decide (0 ∈ w.sys.ports) && decide ((w.port 0).rx.state = .current)
        && (w.port 0).currentWhile == 2 && w.sys.shortTimeoutTime == 3 && (w.port 0).portIndex == 0
        && (runCalls silentPartnerTest 40 w silentPartnerRun.2).any
          fun w' => decide ((w'.port 1).rx.state = .current)) = true := by
    decide +kernel
  obtain ⟨w, h, _, hw⟩ := exists_reachableBy_of_runCalls (R := fun _ _ => True) (by decide)
    (fun _ _ _ => trivial) hrun
  simp only [Bool.and_eq_true, decide_eq_true_iff, beq_iff_eq, Option.any_eq_true] at hw
  obtain ⟨⟨⟨⟨⟨ha, hrx⟩, hcw⟩, hshort⟩, hindex⟩, w', hrest, hother⟩ := hw
  have hothers : ∀ w c, silentPartnerTest w c = true → c = .oneSecond ∨ c.ConcernsOthers 0 w := by
    intro w c htest
    simp only [silentPartnerTest] at htest
    split at htest
    · exact .inl rfl
    · exact .inr ⟨by simp [Call.target, globalIndex], Set.notMem_empty 0⟩
    · exact .inr ⟨by simp [Call.target, globalIndex], Set.notMem_empty 0⟩
    · cases htest
  have hsilent : SilentRun 0 5 w w' := silentRun_of_runCalls (by decide) hothers hrest
  refine ⟨w, w', h, hrx, hcw, hsilent, hother, ?_⟩
  refine (reachable_silent_detached w h 0 ha hrx w' ?_).2
  rw [hindex, hcw, hshort]
  exact hsilent

end Lacp
