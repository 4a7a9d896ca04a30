import Lacp.Network
import Lacp.Prompt

/-!
# What is typed at the prompts

Reference: `CLI/cli.c`, `lang` of `mngr.c`, `lang` of `trunk_cli.c`.

The manager has a prompt as well, with a table of four commands whose callbacks look at `argc` first. In a
run of the network text is typed: a step is the same as before, but that the lines at the prompts are read
as text. Such a step is a step of the network or makes no difference, whatever is typed (`textStep_eq`). So
the network goes through the states of a run, as long as no line is outside of the tables, and none is `ring`
(`textReachable_netReachable`). Each table answers a line in the same way in whatever order it is written
(`tables_perm`).
-/

namespace Lacp

/-! ## The manager's table -/

/-- The callbacks of `lang` in `mngr.c`. -/
inductive MngrCallback
  | showBridge
  | linkBridges
  | unlinkPort
  | linkRing
deriving DecidableEq, Repr

/-- `lang` of `mngr.c`. -/
def mngrLang : List (CmdDscr MngrCallback) :=
  [{ cmdName := "show".toList, defaultValues := [some "all".toList], clbk := some .showBridge },
   { cmdName := "link".toList, defaultValues := [none, none, none, none], clbk := some .linkBridges },
   { cmdName := "unlink".toList, defaultValues := [none, none], clbk := some .unlinkPort },
   { cmdName := "ring".toList, defaultValues := [], clbk := some .linkRing }]

/-- What the callbacks of the manager find where nothing was stored: the variable `br1` of `unlink_port`,
and the field that `mngr_shutdown` sends. -/
structure MngrMemory where
  br1 : Option BridgeAddr
  destinationPort : ℤ

/-- The arguments that `argc` counts. -/
def Argv.words (argv : Argv) (argc : ℕ) : List CString := (List.range argc).map argv.arg

/-- What a line at the manager's prompt comes to. -/
def mngrLine (line : CString) (memory : MngrMemory) : Option MngrLine :=
  match cliExecuteCommand mngrLang line with
  | .ret code => if code = 0 then none else some (.exit memory.destinationPort)
  | .call .showBridge _ _ => none
  | .call .linkBridges argc argv => some (.link (argv.words argc))
  | .call .unlinkPort argc argv => some (.unlink (argv.words argc) memory.br1)
  | .call .linkRing _ _ => some .ring

theorem prefixFree_mngrLang : Words.PrefixFree CmdDscr.key mngrLang := by decide +kernel

/-- The tables can be written in any order. -/
theorem tables_perm (line : CString) :
    (∀ theList, theList.Perm lang → cliExecuteCommand theList line = cliExecuteCommand lang line) ∧
      ∀ theList, theList.Perm mngrLang →
        cliExecuteCommand theList line = cliExecuteCommand mngrLang line :=
  ⟨fun _ hperm => cliExecuteCommand_perm prefixFree_lang hperm.symm line,
    fun _ hperm => cliExecuteCommand_perm prefixFree_mngrLang hperm.symm line⟩

theorem reversed_tables : cliExecuteCommand mngrLang.reverse "un B7 2".toList =
    cliExecuteCommand mngrLang "un B7 2".toList :=
  (tables_perm _).2 _ (List.reverse_perm mngrLang)

/-! ## Typing -/

/-- What `select` reports to a bridge, with the line as text. -/
inductive TextReady
  | timeout
  | input (line : Option (CString × CliMemory)) (message : Bool)

/-- `main_loop` of a bridge, with its prompt. -/
def Bridge.mainLoopText (fuel : ℕ) (b : Bridge) (queue : List ToBridge) :
    TextReady → Option (Bridge × List ToBridge)
  | .timeout => (lacpOneSecond fuel b.world).map fun w => ({ b with world := w }, queue)
  | .input line message => do
    let b ← line.elim (some b) fun l => b.readLine fuel l.1 l.2
    if message then
      let msg ← queue.head?
      let b ← b.readIpc fuel msg
      return (b, queue.tail)
    else return (b, queue)

/-- What happens next, with the lines as text. -/
inductive TextEvent
  | start (pid : Int64)
  | bridge (pid : Int64) (ready : TextReady) (memory : ℕ → ℤ)
  | mngrRead (memory : Option (ℤ → PortT))
  | mngrPrompt (line : CString) (memory : MngrMemory)

namespace Network

/-- A bridge does one iteration of its main loop, with its prompt. -/
def bridgeLoopText (fuel : ℕ) (n : Network) (pid : Int64) (ready : TextReady) (memory : ℕ → ℤ) :
    Option Network := do
  let b ← n.bridge pid
  if b.shutdownFlag then none
  let (b', queue) ← b.mainLoopText fuel (n.toBridge pid) ready
  return { n with
    bridge := Function.update n.bridge pid (some b')
    toBridge := Function.update n.toBridge pid queue
    toMngr := n.toMngr ++ b.sends b' memory }

/-- The manager reads a line of text. -/
def mngrReadLine (n : Network) (line : CString) (memory : MngrMemory) : Option Network :=
  if n.mngrShutdown then none
  else if line.isEmpty then some n
  else match cliExecuteCommand mngrLang line with
    | .ret code =>
      if code = 0 then some n
      -- `mngr_shutdown`
      else some ({ n with mngrShutdown := true }.deliver
        (n.mngr.brLst.map fun br => (br, .cntrl .bridgeShutdown memory.destinationPort)))
    | .call .showBridge _ _ => some n
    | .call .linkBridges argc argv => some (n.mngrTo (n.mngr.linkBridges (argv.words argc)))
    | .call .unlinkPort argc argv => some (n.mngrTo (n.mngr.unlinkPort memory.br1 (argv.words argc)))
    | .call .linkRing _ _ => n.mngr.linkRing.map n.mngrTo

end Network

/-- The code that an event runs. -/
def textStep (fuel : ℕ) (n : Network) : TextEvent → Option Network
  | .start pid => n.start pid
  | .bridge pid ready memory => n.bridgeLoopText fuel pid ready memory
  | .mngrRead memory => n.mngrRead memory
  | .mngrPrompt line memory => n.mngrReadLine line memory

/-- What a bridge reads, in a state. -/
def TextReady.ready (w : World) : TextReady → Ready
  | .timeout => .timeout
  | .input line message => .input (line.bind fun l => promptLine w l.1 l.2) message

/-- The event of the network, if it makes a difference. -/
def TextEvent.netEvent (n : Network) : TextEvent → Option NetEvent
  | .start pid => some (.start pid)
  | .bridge pid ready memory => (n.bridge pid).map fun b => .bridge pid (ready.ready b.world) memory
  | .mngrRead memory => some (.mngrRead memory)
  | .mngrPrompt line memory => (mngrLine line memory).map .mngrPrompt

/-- The manager does nothing once it has ended. -/
def TextEvent.Heard (n : Network) : TextEvent → Prop
  | .mngrPrompt _ _ => n.mngrShutdown = false
  | .bridge pid _ _ => (n.bridge pid).isSome
  | _ => True

section Steps

variable {fuel : ℕ} {n n' : Network} {e : TextEvent} {b : Bridge} {queue : List ToBridge} {line : CString}
  {memory : MngrMemory}

theorem mainLoopText_eq (fuel : ℕ) (b : Bridge) (queue : List ToBridge) (ready : TextReady) :
    b.mainLoopText fuel queue ready = b.mainLoop fuel queue (ready.ready b.world) := by
  cases ready with
  | timeout => rfl
  | input line message =>
    have hread : (line.elim (some b) fun l => b.readLine fuel l.1 l.2) =
        (line.bind fun l => promptLine b.world l.1 l.2).elim (some b) (b.readCli fuel) := by
      cases line with
      | none => rfl
      | some l => exact readLine_eq fuel b l.1 l.2
    rw [Bridge.mainLoopText, hread]
    rfl

theorem mngrReadLine_eq (h : n.mngrShutdown = false) :
    n.mngrReadLine line memory = (mngrLine line memory).elim (some n) n.mngrPrompt := by
  rw [Network.mngrReadLine, h, if_neg Bool.false_ne_true]
  cases hempty : line.isEmpty with
  | true =>
    have hnothing : mngrLine line memory = none := by
      rw [mngrLine, cliExecuteCommand_eq, if_pos (by rw [isNothing, hempty, Bool.or_true])]
      rfl
    rw [hnothing]
    rfl
  | false =>
    rw [if_neg Bool.false_ne_true, mngrLine]
    cases cliExecuteCommand mngrLang line with
    | ret code =>
      by_cases hcode : code = 0
      · simp [hcode]
      · simp [hcode, Network.mngrPrompt, h]
    | call clbk argc argv => cases clbk <;> simp [Network.mngrPrompt, h]

/-- A step with text is a step of the network, or it changes nothing. -/
theorem textStep_eq (h : e.Heard n) : textStep fuel n e = (e.netEvent n).elim (some n) (netStep fuel n) := by
  cases e with
  | start | mngrRead => rfl
  | bridge pid ready memory =>
    obtain ⟨b, hb⟩ := Option.isSome_iff_exists.mp h
    simp only [textStep, Network.bridgeLoopText, TextEvent.netEvent, hb, Option.map_some, Option.elim_some, netStep,
      Network.bridgeLoop, Option.bind_eq_bind, Option.bind_some, mainLoopText_eq]
  | mngrPrompt line memory =>
    rw [textStep, mngrReadLine_eq h, TextEvent.netEvent]
    cases mngrLine line memory <;> rfl

theorem heard_of_textStep (hstep : textStep fuel n e = some n') : e.Heard n := by
  cases e with
  | start | mngrRead => trivial
  | bridge pid ready memory =>
    obtain ⟨b, hb, -⟩ := Option.bind_eq_some_iff.mp hstep
    exact Option.isSome_iff_exists.mpr ⟨b, hb⟩
  | mngrPrompt line memory =>
    by_contra hended
    rw [textStep, Network.mngrReadLine, if_pos (Bool.eq_true_of_not_eq_false hended)] at hstep
    cases hstep

end Steps

/-! ## Runs -/

/-- What is typed names ports, link groups and bridges that exist, and is not `ring`. -/
def TextEvent.InTable (n : Network) (e : TextEvent) : Prop := ∀ e' ∈ e.netEvent n, e'.InTable n

/-- The states of a run in which lines are typed, none of them outside of the tables. -/
inductive TextReachable : Network → Prop
  | init : TextReachable initNetwork
  | step {n n' : Network} {e : TextEvent} {fuel : ℕ} (h : TextReachable n) (hin : e.InTable n)
      (hstep : textStep fuel n e = some n') : TextReachable n'

instance (n : Network) (e : TextEvent) : Decidable (e.InTable n) :=
  match h : e.netEvent n with
  | none => .isTrue fun e' he' => by simp [h] at he'
  | some e' => decidable_of_iff (e'.InTable n) (by simp [TextEvent.InTable, h])

/-- As long as what is typed is in the tables, the network goes through the states of a run. -/
theorem textReachable_netReachable (n : Network) (h : TextReachable n) : NetReachable n := by
  induction h with
  | init => exact .init
  | @step n n' e fuel _ hin hstep ih =>
    rw [textStep_eq (heard_of_textStep hstep)] at hstep
    cases hevent : e.netEvent n with
    | none =>
      rw [hevent] at hstep
      exact Option.some.inj hstep ▸ ih
    | some e' =>
      rw [hevent] at hstep
      exact ih.step trivial ⟨hin e' hevent, fuel, hstep⟩

/-- The events happen one after the other, as long as what is typed is in the tables. -/
def runTexts (fuel : ℕ) (n : Network) (events : List TextEvent) : Option Network :=
  events.foldlM (fun n (e : TextEvent) => if e.InTable n then textStep fuel n e else none) n

/-- Two bridges that are wired, and the command that makes a port run LACP, abbreviated. -/
def typedRun : List TextEvent :=
  let read := .mngrRead (some fun _ => .zero)
  [.start 77, .start 88, read, read, .mngrPrompt "link B77 0  B88 0".toList ⟨none, 0⟩,
    .bridge 77 (.input none true) fun _ => 0, .mngrPrompt "sh".toList ⟨none, 0⟩,
    .bridge 88 (.input (some ("PORT Link".toList, ⟨.zero, 0⟩)) true) fun _ => 0]

theorem typedRun_netReachable :
    ∃ n b, NetReachable n ∧ n.bridge 88 = some b ∧ 0 ∈ b.world.sys.ports ∧ (b.world.port 0).aggId = 1 ∧
      trunkSspGetPortLinkStatus b.world 0 = 1 := by
  have hrun : (runTexts 25 initNetwork typedRun).any (fun n =>
      (n.bridge 88).any fun b => decide (0 ∈ b.world.sys.ports ∧ (b.world.port 0).aggId = 1 ∧
        trunkSspGetPortLinkStatus b.world 0 = 1)) = true := by
    decide +kernel
  obtain ⟨n, hn, hresult⟩ := (Option.any_eq_true ..).mp hrun
  obtain ⟨b, hb, hstate⟩ := (Option.any_eq_true ..).mp hresult
  refine ⟨n, b, textReachable_netReachable n ?_, hb, of_decide_eq_true hstate⟩
  refine Fuel.foldlM_invariant (P := TextReachable) (fun e _ u v hu he => ?_) .init hn
  obtain ⟨hin, hstep⟩ := Option.ite_none_right_eq_some.mp he
  exact hu.step hin hstep

end Lacp
