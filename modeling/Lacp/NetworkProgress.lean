import Lacp.NetworkSafety
import Lacp.Totality

/-!
# Progress of the network

Reference: `main_loop` of `bridge.c`, `read_uid` of `mngr.c`.

As long as no command stores a period of zero, no process gets stuck: a bridge that runs finishes every
iteration of its main loop, and the manager reads every message that waits (`netRun_progress`). So a bridge
that is left to read what waits for it ends, or comes to know of its wires what the manager knows
(`netRun_learns`). Both are about runs whose commands are in the tables, and what is typed next names ports
and groups that exist as well.
-/

namespace Lacp

open Fuel (Returns)

/-- What `select` reports is there: a message that can be read, and a line with a command. -/
def Ready.Possible (queue : List ToBridge) : Ready → Prop
  | .timeout => True
  | .input line message => (∀ c, line = some (.call c) → c.isCommand = true) ∧ (message = true → queue ≠ [])

/-- The event stores no period that is a multiple of 2^16. -/
def NetEvent.KeepsPeriods : NetEvent → Prop
  | .bridge _ ready _ => ∀ c ∈ ready.call, c.KeepsPeriods
  | _ => True

instance : (e : NetEvent) → Decidable e.KeepsPeriods
  | .bridge _ ready _ => inferInstanceAs (Decidable (∀ c ∈ ready.call, c.KeepsPeriods))
  | .start _ | .mngrRead _ | .mngrPrompt _ => .isTrue trivial

/-! ## An iteration of the main loop -/

section MainLoop

variable {b b' : Bridge} {w w' : World} {c : Call} {queue queue' : List ToBridge} {ready : Ready}
  {msg : ToBridge} {fuel : ℕ}

/-! Whether there is a message as well makes no difference to the line. -/

theorem Ready.call_input (line : Option PromptLine) (message message' : Bool) :
    (Ready.input line message).call = (Ready.input line message').call := by
  rcases line with _ | _ | c <;> rfl

theorem Ready.inRange_input {line : Option PromptLine} {message : Bool} (message' : Bool)
    (h : (Ready.input line message).InRange) : (Ready.input line message').InRange := by
  rcases line with _ | _ | c <;> exact h

theorem Periodic.step (hw : Reachable w) (h : Periodic w) (hc : c.KeepsPeriods) (hstep : Step c w w') :
    Periodic w' := by
  obtain ⟨hcoherent, hq⟩ := hw.coherent
  have hcompletes := completes_of_step (R := fun _ _ => True) hcoherent hq trivial hstep
  exact (h.effects hc hcoherent hcompletes.1).2

theorem Call.keepsPeriods_of_isTold (hc : c.isTold = true) : c.KeepsPeriods := by
  cases c with
  | sysSetLongPeriod | sysSetShortPeriod => cases hc
  | _ => trivial

/-- Calls that keep the periods. -/
theorem Periodic.ran {Q : Call → Prop} (hw : Reachable b.world) (h : Periodic b.world)
    (hQ : ∀ c, Q c → c.KeepsPeriods) (hran : b.Ran Q b') : Periodic b'.world :=
  (hran.invariant (P := fun w => Reachable w ∧ Periodic w)
    (fun hP hc hstep => ⟨hP.1.step trivial hstep, hP.2.step hP.1 (hQ _ hc) hstep⟩) ⟨hw, h⟩).2

theorem returns_readCli {line : PromptLine} (hw : Reachable b.world) (h : Periodic b.world)
    (hready : (Ready.input (some line) false).InRange)
    (hkeeps : ∀ c ∈ (Ready.input (some line) false).call, c.KeepsPeriods)
    (hcommand : ∀ c, line = .call c → c.isCommand = true) : Returns fun fuel => b.readCli fuel line := by
  cases line with
  | exit => exact .const _
  | call c =>
    simp only [Bridge.readCli, hcommand c rfl, if_true]
    exact (returns_runCall hw.coherent.1 hw.coherent.2 h hready (hkeeps c rfl)).map _

theorem returns_bridgePortControl {k : ℕ} {linkStatus : UInt32} (hw : Reachable w) (h : Periodic w)
    (hk : k < lacpPortMax) : Returns fun fuel => bridgePortControl fuel w k linkStatus := by
  have hlt : k < 4 := hk
  simp only [bridgePortControl, toUint32_natCast hk, lacpSspChangeToSlotPort]
  exact (returns_runCall (c := .portLinkChange (k / 8) (k % 8 + 1) linkStatus) hw.coherent.1 hw.coherent.2 h
    ⟨by omega, by omega, by omega⟩ trivial).map _

theorem returns_readIpc (hw : Reachable b.world) (h : Periodic b.world) (hport : msg.ForPort) :
    Returns fun fuel => b.readIpc fuel msg := by
  cases msg with
  | bpdu msg =>
    obtain ⟨k, hk, hport⟩ := hport
    have hlt : k < 4 := hk
    simp only [Bridge.readIpc, bridgeRxBpdu, hport, toUint32_natCast hk, lacpSspChangeToSlotPort]
    exact (returns_runCall (c := .rxLacpdu (k / 8) (k % 8 + 1) (.ofBytes msg.bpdu)) hw.coherent.1
      hw.coherent.2 h ⟨by omega, by omega, by omega⟩ trivial).map _
  | cntrl cmd port =>
    cases cmd with
    | portConnect | portDisconnect =>
      obtain ⟨k, hk, rfl⟩ := hport
      exact (returns_bridgePortControl hw h hk).map _
    | bridgeShutdown | bridgeHandshake => exact .const _

/-- Every iteration of the main loop comes to an end. -/
theorem returns_mainLoop (hw : Reachable b.world) (h : Periodic b.world) (hready : ready.InRange)
    (hkeeps : ∀ c ∈ ready.call, c.KeepsPeriods) (hqueue : ∀ msg ∈ queue, msg.ForPort)
    (hpossible : ready.Possible queue) : Returns fun fuel => b.mainLoop fuel queue ready := by
  cases ready with
  | timeout =>
    have hsecond := (settles_lacpOneSecond (R := fun _ _ => True) hw.coherent.1 hw.coherent.2 trivial rfl).returns
      hw.coherent.1 h (c := .oneSecond) trivial
    exact hsecond.map _
  | input line message =>
    obtain ⟨hcommand, hmessage⟩ := hpossible
    have hready := Ready.inRange_input false hready
    rw [Ready.call_input line message false] at hkeeps
    -- the line, if there is one
    have hline : Returns fun fuel => line.elim (some b) (b.readCli fuel) := by
      cases line with
      | none => exact .const _
      | some line => exact returns_readCli hw h hready hkeeps fun c hc => hcommand c (congrArg some hc)
    refine Returns.bind hline fun fuel u hu => ?_
    -- the message, if there is one
    have hown : b.mainLoop fuel queue (.input line false) = some (u, queue) := by
      simp only [Bridge.mainLoop, hu, Option.bind_eq_bind, Option.bind_some]
      rfl
    have hran := ran_mainLoop hw hready hqueue hown
    have hperiodic := h.ran hw (fun c hc => hc.elim (hkeeps c) Call.keepsPeriods_of_isTold) hran
    cases message with
    | false => exact .const _
    | true =>
      obtain ⟨msg, rest, rfl⟩ := List.exists_cons_of_ne_nil (hmessage rfl)
      exact Returns.bind (returns_readIpc (hran.reachable hw) hperiodic (hqueue msg List.mem_cons_self))
        fun _ _ _ => .const _

end MainLoop

/-! ## The processes -/

/-- No process is stuck. -/
structure Network.NeverStuck (n : Network) : Prop where
  /-- A bridge that runs finishes an iteration of its main loop, if the command it reads is in range. -/
  bridge : ∀ pid b, n.bridge pid = some b → b.shutdownFlag = false → ∀ ready memory, ready.InRange →
    (∀ c ∈ ready.call, c.KeepsPeriods) → ready.Possible (n.toBridge pid) →
      ∃ n', NetStep (.bridge pid ready memory) n n'
  /-- The manager reads what waits for it. -/
  mngr : n.mngrShutdown = false → n.toMngr ≠ [] → ∀ memory, ∃ n', NetStep (.mngrRead memory) n n'

theorem keepsPeriods_reads (pid : Int64) (memory : ℕ → ℤ) :
    (NetEvent.bridge pid (.input none true) memory).KeepsPeriods := fun _ hc => nomatch hc

/-- The bridge does nothing but read the next message. -/
def Network.Reads (pid : Int64) (n n' : Network) : Prop :=
  ∃ memory, NetStep (.bridge pid (.input none true) memory) n n'

section Processes

variable {n n' : Network} {pid : Int64} {b : Bridge} {ready : Ready}

theorem NetRun.periodic (h : NetRun (fun _ e => e.KeepsPeriods) n) :
    ∀ pid b, n.bridge pid = some b → Periodic b.world := by
  refine (h.invariant (P := fun n => Consistent n ∧ ∀ pid b, n.bridge pid = some b → Periodic b.world)
    ⟨.init, fun _ _ hb => nomatch hb⟩ fun {n n' e} hP hkeeps hstep => ?_).2
  refine ⟨hP.1.step hstep, fun pid b' hb' => ?_⟩
  rcases bridge_of_netStep hstep hb' with hb | ⟨-, rfl⟩ |
    ⟨b, ready, memory, queue', fuel, rfl, hb, -, hloop⟩
  · exact hP.2 pid b' hb
  · exact ReachableBy.periodic (.init _)
  · have hw := (hP.1.bridges pid b hb).2
    exact (hP.2 pid b hb).ran hw (fun c hc => hc.elim (hkeeps c) Call.keepsPeriods_of_isTold)
      (ran_mainLoop hw hstep.1 (hP.1.forPort pid) hloop)

/-- An iteration of the main loop of a bridge that runs. -/
theorem exists_netStep_bridge (h : NetRun (fun _ e => e.KeepsPeriods) n) (hb : n.bridge pid = some b)
    (hrunning : b.shutdownFlag = false) (memory : ℕ → ℤ) (hready : ready.InRange)
    (hkeeps : ∀ c ∈ ready.call, c.KeepsPeriods) (hpossible : ready.Possible (n.toBridge pid)) :
    ∃ n', NetStep (.bridge pid ready memory) n n' := by
  have hreturns := returns_mainLoop (h.consistent.bridges pid b hb).2 (h.periodic pid b hb) hready hkeeps
    (h.consistent.forPort pid) hpossible
  obtain ⟨⟨b', queue⟩, hreturns⟩ := hreturns
  obtain ⟨fuel, hloop⟩ := hreturns.exists_eq_some
  have hrun : (n.bridgeLoop fuel pid ready memory).isSome = true := by
    simp [Network.bridgeLoop, hb, hrunning, hloop]
  obtain ⟨n', hrun⟩ := Option.isSome_iff_exists.mp hrun
  exact ⟨n', hready, fuel, hrun⟩

/-- Every message that a bridge has sent can be read. -/
theorem exists_readUid (h : Consistent n) (msg : ToMngr) (memory : Option (ℤ → PortT)) :
    ∃ r, n.mngr.readUid memory msg = some r := by
  cases msg with
  | handshake | bpdu => exact ⟨_, rfl⟩
  | shutdown senderPid =>
    simp only [Mngr.readUid, Mngr.unregisterBridge]
    cases hfind : n.mngr.brLst.find? fun br => (n.mngr.bridge br).pid == senderPid with
    | none => exact ⟨_, rfl⟩
    | some oldbr =>
      have hports := h.ports _ (List.mem_of_find?_eq_some hfind)
      simp [hports, lacpPortMax]

/-- As long as all commands are in the tables and none stores a period of zero, no process gets stuck. -/
theorem netRun_neverStuck (n : Network) (h : NetRun (fun _ e => e.KeepsPeriods) n) : n.NeverStuck where
  bridge := fun _ _ hb hrunning _ memory hready hkeeps hpossible =>
    exists_netStep_bridge h hb hrunning memory hready hkeeps hpossible
  mngr := fun hrunning hqueue memory => by
    obtain ⟨msg, rest, hcons⟩ := List.exists_cons_of_ne_nil hqueue
    obtain ⟨⟨m', relayed⟩, hread⟩ := exists_readUid h.consistent msg memory
    have hrun : (n.mngrRead memory).isSome = true := by
      simp [Network.mngrRead, hrunning, hcons, hread]
    obtain ⟨n', hrun⟩ := Option.isSome_iff_exists.mp hrun
    exact ⟨n', trivial, 0, hrun⟩

/-! ## Reading what waits -/

/-- One message less waits, and the manager has done nothing. -/
theorem Network.Reads.queue (h : Network.Reads pid n n') :
    n'.mngr = n.mngr ∧ (∃ msg, n.toBridge pid = msg :: n'.toBridge pid) ∧ ∃ b', n'.bridge pid = some b' := by
  obtain ⟨memory, -, fuel, hrun⟩ := h
  obtain ⟨b, hb, hrun⟩ := Option.bind_eq_some_iff.mp hrun
  dsimp only at hrun
  split at hrun
  · cases hrun
  obtain ⟨⟨b', queue⟩, hloop, hend⟩ := Option.bind_eq_some_iff.mp hrun
  obtain rfl := Option.some.inj hend
  obtain ⟨msg, hmsg, hmessage⟩ := Option.bind_eq_some_iff.mp hloop
  obtain ⟨u, -, hend⟩ := Option.bind_eq_some_iff.mp hmessage
  obtain ⟨rfl, rfl⟩ := Prod.mk.inj (Option.some.inj hend)
  refine ⟨rfl, ⟨msg, ?_⟩, u, Function.update_self ..⟩
  show n.toBridge pid = msg :: Function.update n.toBridge pid (n.toBridge pid).tail pid
  rw [Function.update_self]
  exact (List.cons_head?_tail hmsg).symm

theorem NetRun.reads {R : Network → NetEvent → Prop} (hR : ∀ n memory, R n (.bridge pid (.input none true) memory))
    (h : NetRun R n) (hreads : Relation.ReflTransGen (Network.Reads pid) n n') : NetRun R n' := by
  induction hreads with
  | refl => exact h
  | tail _ hread ih =>
    obtain ⟨memory, hstep⟩ := hread
    exact .step ih (hR _ memory) hstep

/-- A bridge can read everything that waits, unless it ends before. -/
theorem NetRun.exists_reads (h : NetRun (fun _ e => e.KeepsPeriods) n) (hb : n.bridge pid = some b) :
    ∃ n' b', Relation.ReflTransGen (Network.Reads pid) n n' ∧ n'.mngr = n.mngr ∧ n'.bridge pid = some b' ∧
      (b'.shutdownFlag = true ∨ n'.toBridge pid = []) := by
  induction hlength : (n.toBridge pid).length generalizing n b with
  | zero => exact ⟨n, b, .refl, rfl, hb, .inr (List.eq_nil_of_length_eq_zero hlength)⟩
  | succ k ih =>
    by_cases hended : b.shutdownFlag = true
    · exact ⟨n, b, .refl, rfl, hb, .inl hended⟩
    have hne : n.toBridge pid ≠ [] := by
      rintro heq
      rw [heq] at hlength
      cases hlength
    obtain ⟨u, hstep⟩ : ∃ u, NetStep (.bridge pid (.input none true) fun _ => 0) n u :=
      exists_netStep_bridge h hb (Bool.eq_false_of_not_eq_true hended) _ trivial (fun _ hc => nomatch hc)
        ⟨fun _ hc => (nomatch hc), fun _ => hne⟩
    have hread : Network.Reads pid n u := ⟨_, hstep⟩
    obtain ⟨hmngr, ⟨msg, hqueue⟩, b', hb'⟩ := hread.queue
    have hu : NetRun (fun _ e => e.KeepsPeriods) u := h.step (keepsPeriods_reads _ _) hstep
    rw [hqueue, List.length_cons] at hlength
    obtain ⟨n', b'', hreads, hmngr', hrest⟩ := ih hu hb' (by omega)
    exact ⟨n', b'', .head hread hreads, hmngr'.trans hmngr, hrest⟩

/-- In every run whose commands are in the tables and store no period of zero, a bridge that reads what
waits for it ends, or comes to know of every wire what the manager knows. -/
theorem netRun_learns (n : Network) (h : NetRun (fun _ e => e.KeepsPeriods) n) :
    ∀ pid b, n.bridge pid = some b → ∃ n' b', Relation.ReflTransGen (Network.Reads pid) n n' ∧
      n'.mngr = n.mngr ∧ n'.bridge pid = some b' ∧ (b'.shutdownFlag = true ∨ ∀ i < lacpPortMax,
        lacpBitmapGetBit b'.enabledPorts i = (n.mngr.otherEnd pid i).isSome ∧
        trunkSspGetPortLinkStatus b'.world i = if (n.mngr.otherEnd pid i).isSome then 1 else 0) := by
  intro pid b hb
  obtain ⟨n', b', hreads, hmngr, hb', hend⟩ := h.exists_reads hb
  refine ⟨n', b', hreads, hmngr, hb', ?_⟩
  by_cases hended : b'.shutdownFlag = true
  · exact .inl hended
  have hempty := hend.resolve_left hended
  have hn' : NetRun (fun _ e => e.KeepsPeriods) n' := h.reads (fun _ _ => keepsPeriods_reads _ _) hreads
  refine .inr fun i hi => ?_
  rw [← hmngr]
  refine hn'.consistent.linkStatus hb' (Bool.eq_false_of_not_eq_true hended) hi ?_
  rw [Network.Informed, hempty]
  exact ⟨List.not_mem_nil, List.not_mem_nil⟩

end Processes

/-! ## A run

Two bridges are wired, and have not read so yet.
-/

def waitingRun : List NetEvent := networkRun.take 5

theorem exists_netRun_waitingRun :
    ∃ n, NetRun (fun _ e => e.KeepsPeriods) n ∧ n.mngr.otherEnd 77 0 = some (88, 0) ∧
      n.toBridge 77 = [.cntrl .portConnect 0] ∧ ∃ b, n.bridge 77 = some b := by
  have hrun : (runEvents (fun e => decide e.KeepsPeriods) 40 initNetwork waitingRun).any (fun n =>
      decide (n.mngr.otherEnd 77 0 = some (88, 0) ∧ n.toBridge 77 = [.cntrl .portConnect 0] ∧
        (n.bridge 77).isSome = true)) = true := by
    decide +kernel
  obtain ⟨n, h, hresult⟩ := exists_netRun_of_runEvents (fun _ htest => of_decide_eq_true htest) hrun
  obtain ⟨hother, hqueue, hbridge⟩ := of_decide_eq_true hresult
  exact ⟨n, h, hother, hqueue, Option.isSome_iff_exists.mp hbridge⟩

theorem waitingRun_neverStuck :
    ∃ n : Network, n.NeverStuck ∧ n.toBridge 77 = [.cntrl .portConnect 0] ∧ ∃ b, n.bridge 77 = some b := by
  obtain ⟨n, h, -, hqueue, hbridge⟩ := exists_netRun_waitingRun
  exact ⟨n, netRun_neverStuck n h, hqueue, hbridge⟩

theorem waitingRun_learns :
    ∃ (n n' : Network) (b' : Bridge), ¬ n.Informed 77 0 ∧ Relation.ReflTransGen (Network.Reads 77) n n' ∧ n'.bridge 77 = some b' ∧
      (b'.shutdownFlag = true ∨ lacpBitmapGetBit b'.enabledPorts 0 = true) := by
  obtain ⟨n, h, hother, hqueue, b, hb⟩ := exists_netRun_waitingRun
  obtain ⟨n', b', hreads, -, hb', hend⟩ := netRun_learns n h 77 b hb
  refine ⟨n, n', b', ?_, hreads, hb', hend.imp_right fun hall => ?_⟩
  · rw [Network.Informed, hqueue]
    decide
  · rw [(hall 0 (by decide)).1, hother]
    rfl

end Lacp
