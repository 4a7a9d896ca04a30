import Mathlib.Logic.Function.Basic
import Mathlib.Logic.Relation
import Lacp.Bridge
import Lacp.Topology

/-!
# Bridges and their manager

Reference: `mngr.c` (`read_uid`, `mngr_control`, `mngr_shutdown`), `bridge.c`.

The processes exchange messages over local datagram sockets, which neither lose nor reorder anything: one
queue leads to the manager and one to each bridge. In a step one process does one iteration of its main
loop. A process id is not given out twice, and a process that has ended reads nothing more.

What is typed names ports, groups and bridges that exist, and `ring` is not typed (`NetEvent.InTable`). With
other lines the tables are left, and `ring` makes wires that lead one way only.
-/

namespace Lacp

/-! ## The manager's side -/

/-- A control message that the manager has sent, and the bridge it was sent to. -/
def MngrEvent.message : MngrEvent → Option (BridgeAddr × ToBridge)
  | .send bridge cmd destinationPort => some (bridge, .cntrl cmd destinationPort)
  | .entry _ => none

/-- The control messages that were sent since `m`, the first one first. -/
def Mngr.messagesSince (m m' : Mngr) : List (BridgeAddr × ToBridge) :=
  ((m'.trace.take (m'.trace.length - m.trace.length)).reverse).filterMap MngrEvent.message

/-- What arrives at the process of messages to bridges. -/
def Mngr.addressed (m : Mngr) (messages : List (BridgeAddr × ToBridge)) (pid : Int64) : List ToBridge :=
  messages.filterMap fun message => if (m.bridge message.1).pid = pid then some message.2 else none

/-- `read_uid`, with the BPDU that is passed on and the bridge it is passed on to. `memory` is what the
allocation of a handshake finds. -/
def Mngr.readUid (m : Mngr) (memory : Option (ℤ → PortT)) :
    ToMngr → Option (Mngr × Option (BridgeAddr × BrIpcMsg))
  | .handshake senderPid param1 => some (m.registerBridge senderPid param1 memory, none)
  | .shutdown senderPid => (m.unregisterBridge senderPid).map fun m => (m, none)
  | .bpdu msg => some (m.mngrRxBpdu msg)

/-- A line at the manager's prompt. `br1` is the uninitialised variable of `unlink_port`, and
`destinationPort` the field that `mngr_shutdown` leaves uninitialised. -/
inductive MngrLine
  | link (argv : List CString)
  | unlink (argv : List CString) (br1 : Option BridgeAddr)
  | ring
  | exit (destinationPort : ℤ)

/-! ## The network -/

/-- The processes and the messages on their way, the one that is read next first. -/
structure Network where
  mngr : Mngr
  /-- The manager's main loop has ended. -/
  mngrShutdown : Bool
  toMngr : List ToMngr
  bridge : Int64 → Option Bridge
  toBridge : Int64 → List ToBridge

/-- The manager alone. -/
def initNetwork : Network where
  mngr := initMngr
  mngrShutdown := false
  toMngr := []
  bridge := fun _ => none
  toBridge := fun _ => []

namespace Network

/-- The messages arrive in the queues of the processes that registered the bridges. -/
def deliver (n : Network) (messages : List (BridgeAddr × ToBridge)) : Network :=
  { n with toBridge := fun pid => n.toBridge pid ++ n.mngr.addressed messages pid }

/-- The manager goes over to `m`, and what it has sent since arrives. -/
def mngrTo (n : Network) (m : Mngr) : Network :=
  { n with mngr := m }.deliver (n.mngr.messagesSince m)

/-- `bridge_start`. -/
def start (n : Network) (pid : Int64) : Option Network :=
  if (n.bridge pid).isSome then none
  else some { n with
    bridge := Function.update n.bridge pid (some (bridgeStart pid))
    toMngr := n.toMngr ++ [bridgeHandshake pid] }

/-- A bridge does one iteration of its main loop. -/
def bridgeLoop (fuel : ℕ) (n : Network) (pid : Int64) (ready : Ready) (memory : ℕ → ℤ) :
    Option Network := do
  let b ← n.bridge pid
  if b.shutdownFlag then none
  let (b', queue) ← b.mainLoop fuel (n.toBridge pid) ready
  return { n with
    bridge := Function.update n.bridge pid (some b')
    toBridge := Function.update n.toBridge pid queue
    toMngr := n.toMngr ++ b.sends b' memory }

/-- The manager reads a message. -/
def mngrRead (n : Network) (memory : Option (ℤ → PortT)) : Option Network := do
  if n.mngrShutdown then none
  let msg ← n.toMngr.head?
  let (m, relayed) ← n.mngr.readUid memory msg
  return ({ n with toMngr := n.toMngr.tail }.mngrTo m).deliver
    (relayed.toList.map fun (r : BridgeAddr × BrIpcMsg) => (r.1, .bpdu r.2))

/-- The manager reads a line. -/
def mngrPrompt (n : Network) (line : MngrLine) : Option Network :=
  if n.mngrShutdown then none
  else match line with
    | .link argv => some (n.mngrTo (n.mngr.linkBridges argv))
    | .unlink argv br1 => some (n.mngrTo (n.mngr.unlinkPort br1 argv))
    | .ring => n.mngr.linkRing.map n.mngrTo
    -- `mngr_shutdown`
    | .exit destinationPort => some ({ n with mngrShutdown := true }.deliver
        (n.mngr.brLst.map fun br => (br, .cntrl .bridgeShutdown destinationPort)))

end Network

/-! ## Runs -/

/-- What happens next. -/
inductive NetEvent
  | start (pid : Int64)
  | bridge (pid : Int64) (ready : Ready) (memory : ℕ → ℤ)
  | mngrRead (memory : Option (ℤ → PortT))
  | mngrPrompt (line : MngrLine)

/-- The code that an event runs. -/
def netStep (fuel : ℕ) (n : Network) : NetEvent → Option Network
  | .start pid => n.start pid
  | .bridge pid ready memory => n.bridgeLoop fuel pid ready memory
  | .mngrRead memory => n.mngrRead memory
  | .mngrPrompt line => n.mngrPrompt line

/-- Commands name ports and link groups that exist: no command of a bridge names another slot, port or
group, no command of the manager names the index behind a table or unlinks a port of a bridge that is not
registered, and `ring`, whose wires lead one way only, is not used. -/
def NetEvent.InTable (n : Network) : NetEvent → Prop
  | .bridge _ ready _ => ready.InRange
  | .mngrPrompt (.link argv) => (MngrCall.link argv).InTable n.mngr
  | .mngrPrompt (.unlink argv br1) => (MngrCall.unlink argv br1).InTable n.mngr
  | .mngrPrompt .ring => False
  | _ => True

instance (ready : Ready) : Decidable ready.InRange :=
  match ready with
  | .input (some (.call c)) _ => inferInstanceAs (Decidable c.InRange)
  | .input (some .exit) _ | .input none _ | .timeout => isTrue trivial

instance (m : Mngr) (pid1 : Int64) (indx1 : ℤ) (pid2 : Int64) (indx2 : ℤ) :
    Decidable (m.LinksInTable pid1 indx1 pid2 indx2) := by
  unfold Mngr.LinksInTable
  infer_instance

instance (m : Mngr) (br1 : Option BridgeAddr) (pid1 : Int64) (indx1 : ℤ) :
    Decidable (m.UnlinksInTable br1 pid1 indx1) := by
  unfold Mngr.UnlinksInTable
  infer_instance

instance (m : Mngr) (c : MngrCall) : Decidable (c.InTable m) := by
  unfold MngrCall.InTable
  split <;> infer_instance

instance (n : Network) (e : NetEvent) : Decidable (e.InTable n) := by
  unfold NetEvent.InTable
  split <;> infer_instance

/-- The event leads from one state to the other. -/
def NetStep (e : NetEvent) (n n' : Network) : Prop :=
  e.InTable n ∧ ∃ fuel, netStep fuel n e = some n'

/-- The states of a run in which every event meets the condition `R`, and no command is outside of the
tables. -/
inductive NetRun (R : Network → NetEvent → Prop) : Network → Prop
  | init : NetRun R initNetwork
  | step {n n' : Network} {e : NetEvent} (h : NetRun R n) (hok : R n e) (hstep : NetStep e n n') :
      NetRun R n'

/-- The states of any run in which no command is outside of the tables, and `ring` is not used. -/
def NetReachable : Network → Prop := NetRun fun _ _ => True

/-- The invariant rule for runs of the network. -/
theorem NetRun.invariant {R : Network → NetEvent → Prop} {P : Network → Prop} (init : P initNetwork)
    (step : ∀ {n n' e}, P n → R n e → NetStep e n n' → P n') {n : Network} (h : NetRun R n) : P n := by
  induction h with
  | init => exact init
  | step _ hok hstep ih => exact step ih hok hstep

theorem NetRun.mono {R R' : Network → NetEvent → Prop} (hsub : ∀ n e, R n e → R' n e) {n : Network}
    (h : NetRun R n) : NetRun R' n := by
  induction h with
  | init => exact .init
  | step _ hok hstep ih => exact .step ih (hsub _ _ hok) hstep

/-- The events happen one after the other, each with the same fuel, as long as each passes the test. -/
def runEvents (test : NetEvent → Bool) (fuel : ℕ) (n : Network) (events : List NetEvent) : Option Network :=
  events.foldlM (fun n e => if decide (e.InTable n) && test e then netStep fuel n e else none) n

/-- A property of the state after a run is a property of a state of a run. -/
theorem exists_netRun_of_runEvents {R : NetEvent → Prop} {test : NetEvent → Bool} {fuel : ℕ}
    {events : List NetEvent} {result : Network → Bool} (htest : ∀ e, test e = true → R e)
    (hresult : (runEvents test fuel initNetwork events).any result = true) :
    ∃ n, NetRun (fun _ e => R e) n ∧ result n = true := by
  cases hrun : runEvents test fuel initNetwork events with
  | none => simp [hrun] at hresult
  | some n =>
    rw [hrun] at hresult
    refine ⟨n, ?_, hresult⟩
    refine Fuel.foldlM_invariant (P := NetRun fun _ e => R e) (fun e _ u v hu he => ?_) .init hrun
    obtain ⟨htests, hstep⟩ := Option.ite_none_right_eq_some.mp he
    obtain ⟨hin, hok⟩ := Bool.and_eq_true_iff.mp htests
    exact hu.step (htest e hok) ⟨of_decide_eq_true hin, fuel, hstep⟩

/-- What becomes of a process in a step: it is left alone, it starts, or it does an iteration of its main
loop. -/
theorem bridge_of_netStep {n n' : Network} {e : NetEvent} {pid : Int64} {b' : Bridge}
    (hstep : NetStep e n n') (hb' : n'.bridge pid = some b') :
    n.bridge pid = some b' ∨ (e = .start pid ∧ b' = bridgeStart pid) ∨
    ∃ b ready memory queue' fuel, e = .bridge pid ready memory ∧ n.bridge pid = some b ∧
      b.shutdownFlag = false ∧ b.mainLoop fuel (n.toBridge pid) ready = some (b', queue') := by
  obtain ⟨-, fuel, hrun⟩ := hstep
  cases e with
  | start pid' =>
    simp only [netStep, Network.start] at hrun
    split at hrun
    · cases hrun
    obtain rfl := Option.some.inj hrun
    dsimp only at hb'
    by_cases hpid : pid = pid'
    · subst hpid
      rw [Function.update_self] at hb'
      exact .inr (.inl ⟨rfl, (Option.some.inj hb').symm⟩)
    · rw [Function.update_of_ne hpid] at hb'
      exact .inl hb'
  | bridge pid' ready memory =>
    obtain ⟨b, hb, hrun⟩ := Option.bind_eq_some_iff.mp hrun
    dsimp only at hrun
    split at hrun
    · cases hrun
    rename_i hflag
    obtain ⟨⟨u, queue'⟩, hloop, hend⟩ := Option.bind_eq_some_iff.mp hrun
    obtain rfl := Option.some.inj hend
    dsimp only at hb'
    by_cases hpid : pid = pid'
    · subst hpid
      rw [Function.update_self] at hb'
      obtain rfl := Option.some.inj hb'
      exact .inr (.inr ⟨b, ready, memory, queue', fuel, rfl, hb, Bool.eq_false_of_not_eq_true hflag, hloop⟩)
    · rw [Function.update_of_ne hpid] at hb'
      exact .inl hb'
  | mngrRead memory =>
    simp only [netStep, Network.mngrRead] at hrun
    split at hrun
    · cases hrun
    obtain ⟨msg, -, hrest⟩ := Option.bind_eq_some_iff.mp hrun
    obtain ⟨⟨m', relayed⟩, -, hend⟩ := Option.bind_eq_some_iff.mp hrest
    obtain rfl := Option.some.inj hend
    exact .inl hb'
  | mngrPrompt line =>
    simp only [netStep, Network.mngrPrompt] at hrun
    split at hrun
    · cases hrun
    cases line with
    | link | unlink | exit =>
      obtain rfl := Option.some.inj hrun
      exact .inl hb'
    | ring =>
      obtain ⟨m', -, rfl⟩ := Option.map_eq_some_iff.mp hrun
      exact .inl hb'

end Lacp
