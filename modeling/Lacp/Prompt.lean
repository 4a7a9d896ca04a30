import Mathlib.Algebra.Order.BigOperators.Group.List
import Mathlib.Algebra.Order.Group.Nat
import Lacp.Bridge
import Lacp.CommandLine
import Lacp.PortNames

/-!
# The prompt of a bridge

Reference: `trunk_cli.c`, `cli_pr_get_attr` of `lacp_stub.c`, `read_cli` of `CLI/cli.c`.

A line at the prompt is one of four things: it does nothing, as far as the engine is concerned; it asks for
what is only printed; it ends the process; or it makes one call of the trunk API. `Bridge.promptLine` says
which, and reading the text is what reading this `PromptLine` is (`readLine_eq`). A callback reads its
arguments from `argv`; the defaults in the table see to it that none of them is a null pointer.

The calls that can be typed are those with a port from 1 to 8, and, where a port is enabled, a link group
from 1 to 32 (`exists_promptLine_iff`): nothing bounds the slot, nor the link group that is deleted.
-/

namespace Lacp

/-! ## Reading numbers -/

/-- `isspace`. -/
def isSpace (c : Char) : Bool := c.toNat == 32 || (9 ≤ c.toNat && c.toNat ≤ 13)

/-- White space and a sign: whether it is a minus, and what follows. -/
def scanSign (s : CString) : Bool × CString :=
  match s.dropWhile isSpace with
  | '-' :: rest => (true, rest)
  | '+' :: rest => (false, rest)
  | s => (false, s)

/-- `strtol` with base 10. A value that does not fit is `LONG_MIN` or `LONG_MAX`. -/
def strtol (s : CString) : Int64 :=
  let (negative, s) := scanSign s
  let n := Nat.ofDigitChars 10 (s.takeWhile Char.isDigit) 0
  if negative then if 0x8000000000000000 ≤ n then Int64.minValue else -(Int64.ofNat n)
  else if 0x7fffffffffffffff ≤ n then Int64.maxValue else Int64.ofNat n

/-- `(uint32_t)atoi(...)`: the `long` is cut to an `int`. -/
def atoi (s : CString) : UInt32 := (strtol s).toUInt64.toUInt32

/-- The conversion `%u`, with what follows the number. A value that does not fit is `ULONG_MAX`, cut to an
`unsigned int`. -/
def scanU (s : CString) : Option (UInt32 × CString) :=
  let (negative, s) := scanSign s
  if (s.takeWhile Char.isDigit).isEmpty then none
  else
    let n := Nat.ofDigitChars 10 (s.takeWhile Char.isDigit) 0
    let value : UInt64 :=
      if 0xffffffffffffffff < n then 0xffffffffffffffff
      else if negative then 0 - UInt64.ofNat n else UInt64.ofNat n
    some (value.toUInt32, s.dropWhile Char.isDigit)

/-- `sscanf (sIfnet, "%u/%u", &ulSlot, &ulPort)`, where both numbers are converted. -/
def scanSlotPort (s : CString) : Option (Int32 × Int32) := do
  let (ulSlot, rest) ← scanU s
  match rest with
  | '/' :: rest =>
    let (ulPort, _) ← scanU rest
    return (ulSlot.toInt32, ulPort.toInt32)
  | _ => none

section Numbers

variable {n : ℕ} {rest : CString}

/-- A number as it is printed. -/
def decimal (n : ℕ) : CString := Nat.toDigits 10 n

theorem isDigit_of_mem_decimal {c : Char} (hc : c ∈ decimal n) : c.isDigit = true :=
  Nat.isDigit_of_mem_toDigits (by decide) (by decide) hc

theorem ofDigitChars_decimal (n : ℕ) : Nat.ofDigitChars 10 (decimal n) 0 = n := Nat.ofDigitChars_ten_toDigits

theorem decimal_ne_nil (n : ℕ) : decimal n ≠ [] := Nat.toDigits_ne_nil

theorem toNat_of_isDigit {c : Char} (h : c.isDigit = true) : 48 ≤ c.toNat ∧ c.toNat ≤ 57 := by
  simp only [Char.isDigit, ge_iff_le, Bool.and_eq_true, decide_eq_true_eq] at h
  exact ⟨UInt32.le_iff_toNat_le.mp h.1, UInt32.le_iff_toNat_le.mp h.2⟩

/-- There is nothing to skip before a digit. -/
theorem scanSign_decimal (n : ℕ) (rest : CString) : scanSign (decimal n ++ rest) = (false, decimal n ++ rest) := by
  obtain ⟨c, digits, heq⟩ := List.exists_cons_of_ne_nil (decimal_ne_nil n)
  obtain ⟨hge, hle⟩ := toNat_of_isDigit (isDigit_of_mem_decimal (n := n) (heq ▸ List.mem_cons_self))
  have hspace : isSpace c = false := by
    simp only [isSpace, Bool.or_eq_false_iff, Bool.and_eq_false_iff, beq_eq_false_iff_ne,
      decide_eq_false_iff_not]
    omega
  have hminus : c ≠ '-' := by
    rintro rfl
    exact absurd hge (by decide)
  have hplus : c ≠ '+' := by
    rintro rfl
    exact absurd hge (by decide)
  rw [heq, List.cons_append, scanSign, List.dropWhile_cons_of_neg (by simp [hspace])]
  split
  · rename_i hcons
    exact absurd (List.cons.inj hcons).1 hminus
  · rename_i hcons
    exact absurd (List.cons.inj hcons).1 hplus
  · rfl

/-- The digits end where the number does. -/
theorem takeWhile_decimal (hrest : ∀ c ∈ rest.head?, c.isDigit = false) :
    (decimal n ++ rest).takeWhile Char.isDigit = decimal n ∧
      (decimal n ++ rest).dropWhile Char.isDigit = rest := by
  have hdigit : ∀ c ∈ decimal n, c.isDigit = true := fun c hc => isDigit_of_mem_decimal hc
  rw [List.takeWhile_append_of_pos hdigit, List.dropWhile_append_of_pos hdigit]
  cases rest with
  | nil => simp
  | cons c rest => simp [hrest c rfl]

theorem atoi_decimal (h : n < 4294967296) : atoi (decimal n) = UInt32.ofNat n := by
  have hvalue : strtol (decimal n) = Int64.ofNat n := by
    have hsign := scanSign_decimal n []
    have hdigits := (@takeWhile_decimal n [] (by simp)).1
    rw [List.append_nil] at hsign hdigits
    simp only [strtol, hsign, hdigits, ofDigitChars_decimal]
    rw [if_neg Bool.false_ne_true, if_neg (by omega)]
  rw [atoi, hvalue]
  exact UInt64.toUInt32_ofNat' ..

theorem scanU_decimal (h : n < 4294967296) (hrest : ∀ c ∈ rest.head?, c.isDigit = false) :
    scanU (decimal n ++ rest) = some (UInt32.ofNat n, rest) := by
  obtain ⟨htake, hdrop⟩ := takeWhile_decimal (n := n) hrest
  have hne : (decimal n).isEmpty = false := by simp [decimal_ne_nil]
  simp only [scanU, scanSign_decimal, htake, hdrop, hne]
  rw [if_neg Bool.false_ne_true, ofDigitChars_decimal, if_neg (by omega), if_neg Bool.false_ne_true]
  exact congrArg (fun value => some (value, rest)) (UInt64.toUInt32_ofNat' ..)

end Numbers

/-! ## The callbacks -/

/-- The value of an error code. -/
def LacpRet.code : LacpRet → ℤ
  | .ok => 0
  | .internel => 1
  | .notEnable => 2
  | .notFound => 3
  | .notCreated => 4
  | .rstpPortIsAbsent => 5
  | .rstpNotEnable => 6

/-- The callbacks of `lang`. -/
inductive Callback
  | lacpAggDelete
  | lacpPortLacpEnable
  | lacpPortLacpDisable
  | cliSysGetLacpBrief
  | cliSysGetLacpVerbose
  | cliSysGetLacpPortinfo
  | cliPortClearStat
  | cliSysSetPrio
  | cliSysSetLongPeriod
  | cliSysSetShortPeriod
  | cliSysSetPeriod
  | cliDebugTrace
  | cliDebugPkt
  | cliPortSetPrio
  | cliPrGetCfg
  | cliPrSetSpeed
  | cliPrSetDuplex
  | cliPrSetLink
  | cliPrGetAttr
deriving DecidableEq, Repr

/-- What the callbacks find where nothing was stored: the uninitialised MAC of `lacp_port_get_actor_init`,
and what `cli_sys_get_lacp_portinfo` returns where it returns no value. -/
structure CliMemory where
  sysMac : LacpMac
  returned : ℤ

/-- `DEV_GetIfPonFromIfnet`, with the text it scans. -/
def devGetIfPon (sIfnet : Option CString) : Option (ℕ × ℕ) := do
  let sIfnet ← sIfnet
  let (slot, port) ← devGetIfPonFromIfnet (scanSlotPort sIfnet)
  return (slot.toNat, port.toNat)

/-- A callback that starts with `DEV_GetIfPonFromIfnet`, and returns its -1. -/
def onPort (w : World) (argv : Argv) (f : ℕ → ℕ → Option (World × ℤ)) : Option (World × ℤ) :=
  match devGetIfPon (argv 1) with
  | none => some (w, -1)
  | some (slot, port) => f slot port

/-- A callback that returns what the API returned. -/
def returning (result : Option (World × LacpRet)) : Option (World × ℤ) :=
  result.map fun r => (r.1, r.2.code)

/-- A callback that returns 0. -/
def ignoring (result : Option (World × LacpRet)) : Option (World × ℤ) :=
  result.map fun r => (r.1, 0)

/-- The callbacks. What they print is left out, and so are the switches that only make the program print
more. Reading a null pointer is no result. -/
def Callback.run (fuel : ℕ) (w : World) (argv : Argv) (memory : CliMemory) : Callback → Option (World × ℤ)
  | .lacpAggDelete => do
    let aggId := atoi (← argv 1)
    ignoring (trunkAggDelete fuel w aggId.toNat)
  | .lacpPortLacpEnable => do
    let aggId := atoi (← argv 2)
    onPort w argv fun slot port =>
      if aggId == 0 || aggId > 32 then some (w, LacpRet.internel.code)
      else returning (trunkPortLacpEnable fuel w slot port aggId.toNat memory.sysMac)
  | .lacpPortLacpDisable => onPort w argv fun slot port => returning (trunkPortLacpDisable fuel w slot port)
  | .cliSysGetLacpBrief => some (w, 0)
  | .cliSysGetLacpVerbose => do
    let _aggId := atoi (← argv 1)
    return (w, 0)
  | .cliSysGetLacpPortinfo => onPort w argv fun slot port =>
    match trunkPortGetPrio w slot port with
    | none => some (w, LacpRet.internel.code)
    -- `return;` where the port is in no link group
    | some _ => some (w, if stubDbAggGetPortTid w slot port = 0 then memory.returned else 0)
  | .cliPortClearStat => onPort w argv fun slot port => returning (trunkPortClearStat fuel w slot port)
  | .cliSysSetPrio => do
    let prio := atoi (← argv 1)
    returning (trunkSysSetPrio fuel w prio)
  | .cliSysSetLongPeriod => do
    let longPeriod := atoi (← argv 1)
    returning (trunkSysSetLongPeriod fuel w longPeriod)
  | .cliSysSetShortPeriod => do
    let shortPeriod := atoi (← argv 1)
    returning (trunkSysSetShortPeriod fuel w shortPeriod)
  | .cliSysSetPeriod => do
    let period := atoi (← argv 1)
    returning (trunkSysSetPeriod fuel w period)
  | .cliDebugTrace => onPort w argv fun _ _ => do
    let _stateName ← argv 2
    let _on ← argv 3
    return (w, 0)
  | .cliDebugPkt => onPort w argv fun _ _ => do
    let _direction ← argv 2
    let _en ← argv 3
    return (w, 0)
  | .cliPortSetPrio => do
    let prio := atoi (← argv 2)
    onPort w argv fun slot port => returning (trunkPortSetPrio fuel w slot port prio)
  | .cliPrGetCfg =>
    match devGetIfPon (argv 1) with
    | none => some (w, 0)
    | some _ => some (w, 0)
  | .cliPrSetSpeed => do
    let speed := atoi (← argv 2)
    onPort w argv fun slot port => ignoring (trunkPortSetSpeed fuel w slot port speed)
  | .cliPrSetDuplex => do
    let duplex := atoi (← argv 2)
    onPort w argv fun slot port => ignoring (trunkPortSetDuplex fuel w slot port duplex)
  | .cliPrSetLink => do
    let linkStatus := atoi (← argv 2)
    onPort w argv fun slot port => ignoring (trunkPortLinkChange fuel w slot port linkStatus)
  | .cliPrGetAttr => do
    let port ← argv 1
    if port.head? = some 'a' then return (w, 0)
    else onPort w argv fun _ _ => some (w, 0)

/-- A command of `lang`. -/
def command (cmdName : String) (defaultValues : List String) (clbk : Callback) : CmdDscr Callback where
  cmdName := cmdName.toList
  defaultValues := defaultValues.map fun value => some value.toList
  clbk := some clbk

/-- `lang`. -/
def lang : List (CmdDscr Callback) :=
  [command "no link-group" ["1"] .lacpAggDelete,
   command "port link-group" ["0/1", "1"] .lacpPortLacpEnable,
   command "no port link-group" ["0/1"] .lacpPortLacpDisable,
   command "show lacp link-group brief" [] .cliSysGetLacpBrief,
   command "show lacp link-group verbose" ["1"] .cliSysGetLacpVerbose,
   command "show lacp port-info" ["0/1"] .cliSysGetLacpPortinfo,
   command "clear lacp stat" ["all"] .cliPortClearStat,
   command "lacp priority" ["all"] .cliSysSetPrio,
   command "lacp long-period" ["30"] .cliSysSetLongPeriod,
   command "lacp short-period" ["30"] .cliSysSetShortPeriod,
   command "lacp period" ["30"] .cliSysSetPeriod,
   command "lacp debug-fsm" ["0/1", "all", "n"] .cliDebugTrace,
   command "lacp debug-pkt" ["0/1", "all", "n"] .cliDebugPkt,
   command "port lacp priority" ["0/1", "all"] .cliPortSetPrio,
   command "show port" ["0/1"] .cliPrGetCfg,
   command "set speed " ["0/1", "all"] .cliPrSetSpeed,
   command "set duplex " ["0/1", "all"] .cliPrSetDuplex,
   command "set link " ["0/1", "1"] .cliPrSetLink,
   command "show attr " ["all"] .cliPrGetAttr]

/-! ## What a line comes to -/

/-- An argument, where there is one. -/
def Argv.arg (argv : Argv) (k : ℕ) : CString := (argv k).getD []

/-- A line that names a port; where it does not, the process ends. -/
def namingPort (argv : Argv) (f : ℕ → ℕ → Option PromptLine) : Option PromptLine :=
  (devGetIfPon (argv 1)).elim (some .exit) fun p => f p.1 p.2

/-- What a callback comes to, or `none` where it leaves the engine alone and returns 0. -/
def Callback.promptLine (w : World) (argv : Argv) (memory : CliMemory) : Callback → Option PromptLine
  | .lacpAggDelete => some (.call (.aggDelete (atoi (argv.arg 1)).toNat))
  | .lacpPortLacpEnable => namingPort argv fun slot port =>
    if atoi (argv.arg 2) == 0 || atoi (argv.arg 2) > 32 then some .exit
    else some (.call (.portLacpEnable slot port (atoi (argv.arg 2)).toNat memory.sysMac))
  | .lacpPortLacpDisable => namingPort argv fun slot port => some (.call (.portLacpDisable slot port))
  | .cliPortClearStat => namingPort argv fun slot port => some (.call (.portClearStat slot port))
  | .cliSysSetPrio => some (.call (.sysSetPrio (atoi (argv.arg 1))))
  | .cliSysSetLongPeriod => some (.call (.sysSetLongPeriod (atoi (argv.arg 1))))
  | .cliSysSetShortPeriod => some (.call (.sysSetShortPeriod (atoi (argv.arg 1))))
  | .cliSysSetPeriod => some (.call (.sysSetPeriod (atoi (argv.arg 1))))
  | .cliPortSetPrio => namingPort argv fun slot port => some (.call (.portSetPrio slot port (atoi (argv.arg 2))))
  | .cliPrSetSpeed => namingPort argv fun slot port => some (.call (.portSetSpeed slot port (atoi (argv.arg 2))))
  | .cliPrSetDuplex => namingPort argv fun slot port =>
    some (.call (.portSetDuplex slot port (atoi (argv.arg 2))))
  | .cliPrSetLink => namingPort argv fun slot port =>
    some (.call (.portLinkChange slot port (atoi (argv.arg 2))))
  | .cliSysGetLacpBrief | .cliSysGetLacpVerbose | .cliPrGetCfg => none
  | .cliSysGetLacpPortinfo => namingPort argv fun slot port =>
    if stubDbAggGetPortTid w slot port = 0 ∧ memory.returned ≠ 0 then some .exit else none
  | .cliDebugTrace | .cliDebugPkt => namingPort argv fun _ _ => none
  | .cliPrGetAttr => if (argv.arg 1).head? = some 'a' then none else namingPort argv fun _ _ => none

/-- The arguments that a callback reads without a look at the pointer. -/
def Callback.reads : Callback → List ℕ
  | .lacpAggDelete | .cliSysGetLacpVerbose | .cliSysSetPrio | .cliSysSetLongPeriod | .cliSysSetShortPeriod
  | .cliSysSetPeriod | .cliPrGetAttr => [1]
  | .lacpPortLacpEnable | .cliPortSetPrio | .cliPrSetSpeed | .cliPrSetDuplex | .cliPrSetLink => [2]
  | .cliDebugTrace | .cliDebugPkt => [2, 3]
  | .lacpPortLacpDisable | .cliSysGetLacpBrief | .cliSysGetLacpPortinfo | .cliPortClearStat | .cliPrGetCfg => []

section Callbacks

variable {fuel slot port : ℕ} {w : World} {argv : Argv} {memory : CliMemory} {clbk : Callback}
  {sIfnet : Option CString}

/-- The port that a callback goes on with. -/
theorem devGetIfPon_eq_some (h : devGetIfPon sIfnet = some (slot, port)) :
    slot < 2147483648 ∧ 1 ≤ port ∧ port ≤ 8 := by
  obtain ⟨s, -, h⟩ := Option.bind_eq_some_iff.mp h
  obtain ⟨p, hp, h⟩ := Option.bind_eq_some_iff.mp h
  obtain ⟨rfl, rfl⟩ := Prod.mk.inj (Option.some.inj h)
  exact devGetIfPonFromIfnet_eq_some hp

/-- What running a line comes to: the state, and whether the process ends. -/
def PromptLine.outcome (fuel : ℕ) (w : World) : PromptLine → Option (World × Bool)
  | .exit => some (w, true)
  | .call c => (runCall fuel w c).map fun r => (r.1, !c.ignoresRet && r.2 != .ok)

/-- What running a callback comes to. -/
def ends (result : Option (World × ℤ)) : Option (World × Bool) := result.map fun r => (r.1, r.2 != 0)

theorem ends_returning {c : Call} (hc : c.ignoresRet = false) :
    ends (returning (runCall fuel w c)) = (PromptLine.call c).outcome fuel w := by
  rw [ends, returning, Option.map_map, PromptLine.outcome, hc]
  congr 1
  funext ⟨v, ret⟩
  cases ret <;> rfl

theorem ends_ignoring {c : Call} (hc : c.ignoresRet = true) :
    ends (ignoring (runCall fuel w c)) = (PromptLine.call c).outcome fuel w := by
  rw [ends, ignoring, Option.map_map, PromptLine.outcome, hc]
  rfl

theorem ends_onPort {f : ℕ → ℕ → Option (World × ℤ)} {g : ℕ → ℕ → Option PromptLine}
    (h : ∀ slot port, 1 ≤ port → ends (f slot port) = (g slot port).elim (some (w, false)) (·.outcome fuel w)) :
    ends (onPort w argv f) = (namingPort argv g).elim (some (w, false)) (·.outcome fuel w) := by
  rw [onPort, namingPort]
  cases hname : devGetIfPon (argv 1) with
  | none => rfl
  | some p => exact h p.1 p.2 (devGetIfPon_eq_some hname).2.1

/-- A callback that has its arguments does what its line says. -/
theorem ends_run (hargs : ∀ k ∈ clbk.reads, argv k ≠ none) :
    ends (clbk.run fuel w argv memory) =
      (clbk.promptLine w argv memory).elim (some (w, false)) (·.outcome fuel w) := by
  have harg : ∀ k ∈ clbk.reads, argv k = some (argv.arg k) := fun k hk => by
    obtain ⟨s, hs⟩ := Option.ne_none_iff_exists'.mp (hargs k hk)
    rw [Argv.arg, hs, Option.getD_some]
  cases clbk with
  | lacpAggDelete =>
    rw [Callback.run, Callback.promptLine, harg 1 (by decide)]
    exact ends_ignoring (c := .aggDelete _) rfl
  | lacpPortLacpEnable =>
    rw [Callback.run, Callback.promptLine, harg 2 (by decide), Option.bind_eq_bind, Option.bind_some]
    dsimp only
    refine ends_onPort fun slot port _ => ?_
    split
    · rfl
    · exact ends_returning (c := .portLacpEnable slot port _ memory.sysMac) rfl
  | lacpPortLacpDisable =>
    rw [Callback.run, Callback.promptLine]
    exact ends_onPort fun slot port _ => ends_returning (c := .portLacpDisable slot port) rfl
  | cliPortClearStat =>
    rw [Callback.run, Callback.promptLine]
    exact ends_onPort fun slot port _ => ends_returning (c := .portClearStat slot port) rfl
  | cliSysGetLacpBrief => rfl
  | cliSysGetLacpVerbose =>
    rw [Callback.run, Callback.promptLine, harg 1 (by decide)]
    rfl
  | cliSysGetLacpPortinfo =>
    rw [Callback.run, Callback.promptLine]
    refine ends_onPort fun slot port hport => ?_
    rw [trunkPortGetPrio, trunkSspGetGlobalIndex_eq hport]
    simp only [Option.map_some, ends]
    by_cases htid : stubDbAggGetPortTid w slot port = 0
    · by_cases hreturned : memory.returned = 0
      · simp [htid, hreturned]
      · simp [htid, hreturned, PromptLine.outcome]
    · simp [htid]
  | cliSysSetPrio =>
    rw [Callback.run, Callback.promptLine, harg 1 (by decide)]
    exact ends_returning (c := .sysSetPrio _) rfl
  | cliSysSetLongPeriod =>
    rw [Callback.run, Callback.promptLine, harg 1 (by decide)]
    exact ends_returning (c := .sysSetLongPeriod _) rfl
  | cliSysSetShortPeriod =>
    rw [Callback.run, Callback.promptLine, harg 1 (by decide)]
    exact ends_returning (c := .sysSetShortPeriod _) rfl
  | cliSysSetPeriod =>
    rw [Callback.run, Callback.promptLine, harg 1 (by decide)]
    exact ends_returning (c := .sysSetPeriod _) rfl
  | cliDebugTrace | cliDebugPkt =>
    rw [Callback.run, Callback.promptLine]
    refine ends_onPort fun _ _ _ => ?_
    rw [harg 2 (by decide), harg 3 (by decide)]
    rfl
  | cliPortSetPrio =>
    rw [Callback.run, Callback.promptLine, harg 2 (by decide), Option.bind_eq_bind, Option.bind_some]
    dsimp only
    exact ends_onPort fun slot port _ => ends_returning (c := .portSetPrio slot port _) rfl
  | cliPrGetCfg =>
    rw [Callback.run, Callback.promptLine]
    cases devGetIfPon (argv 1) <;> rfl
  | cliPrSetSpeed =>
    rw [Callback.run, Callback.promptLine, harg 2 (by decide), Option.bind_eq_bind, Option.bind_some]
    dsimp only
    exact ends_onPort fun slot port _ => ends_ignoring (c := .portSetSpeed slot port _) rfl
  | cliPrSetDuplex =>
    rw [Callback.run, Callback.promptLine, harg 2 (by decide), Option.bind_eq_bind, Option.bind_some]
    dsimp only
    exact ends_onPort fun slot port _ => ends_ignoring (c := .portSetDuplex slot port _) rfl
  | cliPrSetLink =>
    rw [Callback.run, Callback.promptLine, harg 2 (by decide), Option.bind_eq_bind, Option.bind_some]
    dsimp only
    exact ends_onPort fun slot port _ => ends_ignoring (c := .portLinkChange slot port _) rfl
  | cliPrGetAttr =>
    rw [Callback.run, Callback.promptLine, harg 1 (by decide)]
    dsimp only [Option.bind_eq_bind, Option.bind_some]
    split
    · rfl
    · exact ends_onPort fun _ _ _ => rfl

end Callbacks

/-! ## Reading a line -/

/-- `read_cli` on a line. The loop ends where it does not return 0. -/
def Bridge.readLine (fuel : ℕ) (b : Bridge) (line : CString) (memory : CliMemory) : Option Bridge :=
  if line.isEmpty then some b
  else match cliExecuteCommand lang line with
    | .ret code => some { b with shutdownFlag := b.shutdownFlag || code != 0 }
    | .call clbk _ argv => (clbk.run fuel b.world argv memory).map fun (r : World × ℤ) =>
      { b with world := r.1, shutdownFlag := b.shutdownFlag || r.2 != 0 }

/-- What a line comes to. -/
def promptLine (w : World) (line : CString) (memory : CliMemory) : Option PromptLine :=
  match cliExecuteCommand lang line with
  | .ret code => if code = 0 then none else some .exit
  | .call clbk _ argv => clbk.promptLine w argv memory

theorem prefixFree_lang : Words.PrefixFree CmdDscr.key lang := by decide +kernel

theorem wellNamed_lang : ∀ reg ∈ lang, reg.WellNamed := by decide +kernel

/-- The defaults of a command stand for every argument that its callback reads. -/
theorem default_ne_none : ∀ reg ∈ lang, ∀ clbk ∈ reg.clbk, ∀ k ∈ clbk.reads, reg.default k ≠ none := by
  decide +kernel

section Lines

variable {fuel : ℕ} {w : World} {b : Bridge} {line : CString} {memory : CliMemory} {c : Call} {clbk : Callback}
  {argc : ℕ} {argv : Argv}

/-- No callback reads a null pointer. -/
theorem argv_ne_none (h : cliExecuteCommand lang line = .call clbk argc argv) : ∀ k ∈ clbk.reads, argv k ≠ none := by
  obtain ⟨reg, hselects, hclbk, -, rfl⟩ := (cliExecuteCommand_eq_call_iff prefixFree_lang ..).mp h
  intro k hk
  dsimp only
  cases ((lineWords line).drop (cliCountWords reg.cmdName))[k]? with
  | some word => simp only [Option.some_or, ne_eq, reduceCtorEq, not_false_eq_true]
  | none => exact default_ne_none reg (hselects.mem hclbk) clbk hclbk k hk

/-- The calls that can be typed. -/
def Call.Typed (memory : CliMemory) : Call → Prop
  | .portLacpEnable slot port aggId sysMac =>
    slot < 2147483648 ∧ 1 ≤ port ∧ port ≤ 8 ∧ 1 ≤ aggId ∧ aggId ≤ 32 ∧ sysMac = memory.sysMac
  | .portLacpDisable slot port | .portSetPrio slot port _ | .portSetSpeed slot port _
  | .portSetDuplex slot port _ | .portLinkChange slot port _ | .portClearStat slot port =>
    slot < 2147483648 ∧ 1 ≤ port ∧ port ≤ 8
  | .aggDelete aggId => aggId < 4294967296
  | .sysSetPrio _ | .sysSetLongPeriod _ | .sysSetShortPeriod _ | .sysSetPeriod _ => True
  | .setPortLinkStatus _ _ | .rxLacpdu _ _ _ | .oneSecond => False

theorem Call.Typed.isCommand (h : c.Typed memory) : c.isCommand = true := by
  cases c with
  | setPortLinkStatus | rxLacpdu | oneSecond => exact h.elim
  | _ => rfl

theorem typed_of_namingPort {f : ℕ → ℕ → Option PromptLine}
    (h : ∀ slot port, slot < 2147483648 → 1 ≤ port → port ≤ 8 → f slot port = some (.call c) → c.Typed memory)
    (hline : namingPort argv f = some (.call c)) : c.Typed memory := by
  rw [namingPort] at hline
  cases hname : devGetIfPon (argv 1) with
  | none =>
    rw [hname] at hline
    cases hline
  | some p =>
    rw [hname] at hline
    obtain ⟨hslot, hport, hport'⟩ := devGetIfPon_eq_some hname
    exact h p.1 p.2 hslot hport hport' hline

/-- A callback makes calls that can be typed. -/
theorem Callback.typed (h : clbk.promptLine w argv memory = some (.call c)) : c.Typed memory := by
  cases clbk with
  | lacpAggDelete =>
    obtain rfl := PromptLine.call.inj (Option.some.inj h)
    exact UInt32.toNat_lt _
  | cliSysSetPrio | cliSysSetLongPeriod | cliSysSetShortPeriod | cliSysSetPeriod =>
    obtain rfl := PromptLine.call.inj (Option.some.inj h)
    trivial
  | lacpPortLacpEnable =>
    rw [Callback.promptLine] at h
    refine typed_of_namingPort (fun slot port hslot hport hport' hcall => ?_) h
    split at hcall
    · cases hcall
    · rename_i haggId
      obtain rfl := PromptLine.call.inj (Option.some.inj hcall)
      simp only [Bool.or_eq_true, beq_iff_eq, decide_eq_true_eq, not_or, gt_iff_lt] at haggId
      refine ⟨hslot, hport, hport', ?_, Nat.le_of_not_lt fun h => haggId.2 (UInt32.lt_iff_toNat_lt.mpr h), rfl⟩
      exact Nat.one_le_iff_ne_zero.mpr fun heq => haggId.1 (UInt32.toNat_inj.mp heq)
  | lacpPortLacpDisable | cliPortClearStat | cliPortSetPrio | cliPrSetSpeed | cliPrSetDuplex | cliPrSetLink =>
    rw [Callback.promptLine] at h
    refine typed_of_namingPort (fun slot port hslot hport hport' hcall => ?_) h
    obtain rfl := PromptLine.call.inj (Option.some.inj hcall)
    exact ⟨hslot, hport, hport'⟩
  | cliSysGetLacpBrief | cliSysGetLacpVerbose | cliPrGetCfg => cases h
  | cliSysGetLacpPortinfo =>
    rw [Callback.promptLine] at h
    refine typed_of_namingPort (fun slot port _ _ _ hcall => ?_) h
    split at hcall <;> cases hcall
  | cliDebugTrace | cliDebugPkt =>
    rw [Callback.promptLine] at h
    exact typed_of_namingPort (fun _ _ _ _ _ hcall => by cases hcall) h
  | cliPrGetAttr =>
    rw [Callback.promptLine] at h
    split at h
    · cases h
    · exact typed_of_namingPort (fun _ _ _ _ _ hcall => by cases hcall) h

theorem typed_of_promptLine (h : promptLine w line memory = some (.call c)) : c.Typed memory := by
  rw [promptLine] at h
  split at h
  · split at h <;> cases h
  · exact Callback.typed h

/-- Running a callback is reading what it comes to. -/
theorem Callback.readCli_run (hargs : ∀ k ∈ clbk.reads, argv k ≠ none) :
    ((clbk.run fuel b.world argv memory).map fun r =>
        { b with world := r.1, shutdownFlag := b.shutdownFlag || r.2 != 0 }) =
      (clbk.promptLine b.world argv memory).elim (some b) (b.readCli fuel) := by
  have hrun : ((clbk.run fuel b.world argv memory).map fun r =>
      { b with world := r.1, shutdownFlag := b.shutdownFlag || r.2 != 0 }) =
        (ends (clbk.run fuel b.world argv memory)).map fun r =>
          { b with world := r.1, shutdownFlag := b.shutdownFlag || r.2 } := by
    rw [ends, Option.map_map]
    rfl
  rw [hrun, ends_run hargs]
  cases hline : clbk.promptLine b.world argv memory with
  | none => simp
  | some l =>
    cases l with
    | exit => simp [PromptLine.outcome, Bridge.readCli]
    | call c =>
      rw [Option.elim_some, Option.elim_some, PromptLine.outcome, Bridge.readCli,
        if_pos (Callback.typed hline).isCommand, Option.map_map]
      rfl

/-- Reading a line is reading what it comes to. -/
theorem readLine_eq (fuel : ℕ) (b : Bridge) (line : CString) (memory : CliMemory) :
    b.readLine fuel line memory = (promptLine b.world line memory).elim (some b) (b.readCli fuel) := by
  rw [Bridge.readLine]
  cases hempty : line.isEmpty with
  | true =>
    have hnothing : promptLine b.world line memory = none := by
      rw [promptLine, cliExecuteCommand_eq, if_pos (by rw [isNothing, hempty, Bool.or_true])]
      rfl
    rw [hnothing]
    rfl
  | false =>
    rw [if_neg Bool.false_ne_true]
    cases hexecute : cliExecuteCommand lang line with
    | ret code =>
      by_cases hcode : code = 0
      · simp [promptLine, hexecute, hcode]
      · simp [promptLine, hexecute, hcode, Bridge.readCli]
    | call clbk argc argv =>
      rw [promptLine, hexecute]
      exact Callback.readCli_run (argv_ne_none hexecute)

end Lines

/-! ## Writing a line -/

/-- A port as it is written. -/
def portName (slot port : ℕ) : CString := decimal slot ++ '/' :: decimal port

/-- The command and the words with which a call is typed. -/
def Call.written : Call → Option (Callback × List CString)
  | .aggDelete aggId => some (.lacpAggDelete, [decimal aggId])
  | .portLacpEnable slot port aggId _ => some (.lacpPortLacpEnable, [portName slot port, decimal aggId])
  | .portLacpDisable slot port => some (.lacpPortLacpDisable, [portName slot port])
  | .portClearStat slot port => some (.cliPortClearStat, [portName slot port])
  | .sysSetPrio prio => some (.cliSysSetPrio, [decimal prio.toNat])
  | .sysSetLongPeriod longPeriod => some (.cliSysSetLongPeriod, [decimal longPeriod.toNat])
  | .sysSetShortPeriod shortPeriod => some (.cliSysSetShortPeriod, [decimal shortPeriod.toNat])
  | .sysSetPeriod period => some (.cliSysSetPeriod, [decimal period.toNat])
  | .portSetPrio slot port prio => some (.cliPortSetPrio, [portName slot port, decimal prio.toNat])
  | .portSetSpeed slot port speed => some (.cliPrSetSpeed, [portName slot port, decimal speed.toNat])
  | .portSetDuplex slot port duplex => some (.cliPrSetDuplex, [portName slot port, decimal duplex.toNat])
  | .portLinkChange slot port linkStatus => some (.cliPrSetLink, [portName slot port, decimal linkStatus.toNat])
  | .setPortLinkStatus _ _ | .rxLacpdu _ _ _ | .oneSecond => none

section Written

variable {w : World} {slot port n : ℕ} {line : CString} {memory : CliMemory} {c : Call} {clbk : Callback}
  {argv : Argv} {args : List CString} {reg : CmdDscr Callback}

theorem scanSlotPort_portName (hslot : slot < 4294967296) (hport : port < 4294967296) :
    scanSlotPort (portName slot port) = some ((UInt32.ofNat slot).toInt32, (UInt32.ofNat port).toInt32) := by
  have hulPort : scanU (decimal port) = some (UInt32.ofNat port, []) := by
    simpa using @scanU_decimal _ [] hport (by simp)
  rw [scanSlotPort, portName, scanU_decimal hslot (by simp)]
  simp [hulPort]

/-- The name of a port names it. -/
theorem devGetIfPon_portName (hslot : slot < 2147483648) (hport : 1 ≤ port) (hport' : port ≤ 8) :
    devGetIfPon (some (portName slot port)) = some (slot, port) := by
  have hslot' : (UInt32.ofNat slot).toNat = slot := UInt32.toNat_ofNat_of_lt' (hslot.trans (by decide))
  have hport'' : (UInt32.ofNat port).toNat = port :=
    UInt32.toNat_ofNat_of_lt' (hport'.trans_lt (by decide))
  have hulSlot : (UInt32.ofNat slot).toInt32.toInt = slot := by rw [toInt_toInt32 (hslot'.symm ▸ hslot), hslot']
  have hulPort : (UInt32.ofNat port).toInt32.toInt = port := by rw [toInt_toInt32 (by omega), hport'']
  have hzero : (0 : Int32).toInt = 0 := rfl
  have height : (8 : Int32).toInt = 8 := rfl
  have hrange : ((UInt32.ofNat slot).toInt32 < 0 || (UInt32.ofNat port).toInt32 ≤ 0 ||
      (UInt32.ofNat port).toInt32 > 8) = false := by
    simp only [Bool.or_eq_false_iff, decide_eq_false_iff_not, gt_iff_lt, Int32.lt_iff_toInt_lt,
      Int32.le_iff_toInt_le, hulSlot, hulPort, hzero, height]
    omega
  have hparse : devGetIfPonFromIfnet (some ((UInt32.ofNat slot).toInt32, (UInt32.ofNat port).toInt32)) =
      some (UInt32.ofNat slot, UInt32.ofNat port) := by
    rw [devGetIfPonFromIfnet, hrange, UInt32.toUInt32_toInt32, UInt32.toUInt32_toInt32]
    rfl
  have hscan := @scanSlotPort_portName slot port (by omega) (by omega)
  rw [devGetIfPon, Option.bind_eq_bind, Option.bind_some, hscan, hparse, Option.bind_eq_bind, Option.bind_some]
  exact congrArg some (Prod.ext hslot' hport'')

theorem namingPort_portName {f : ℕ → ℕ → Option PromptLine} (hslot : slot < 2147483648) (hport : 1 ≤ port)
    (hport' : port ≤ 8) (hargv : argv 1 = some (portName slot port)) : namingPort argv f = f slot port := by
  rw [namingPort, hargv, devGetIfPon_portName hslot hport hport']
  rfl

/-- A number of 32 bits is read as it was written. -/
theorem atoi_toNat (x : UInt32) : atoi (decimal x.toNat) = x := by
  rw [atoi_decimal (UInt32.toNat_lt x), UInt32.ofNat_toNat]

/-- The words of a call make its callback make the call. -/
theorem Callback.promptLine_written (hc : c.Typed memory) (hwritten : c.written = some (clbk, args))
    (hargv : ∀ k word, args[k]? = some word → argv (k + 1) = some word) :
    clbk.promptLine w argv memory = some (.call c) := by
  have harg : ∀ k word, args[k]? = some word → argv.arg (k + 1) = word := fun k word hword => by
    rw [Argv.arg, hargv k word hword, Option.getD_some]
  cases c with
  | setPortLinkStatus | rxLacpdu | oneSecond => cases hwritten
  | aggDelete aggId =>
    obtain ⟨rfl, rfl⟩ := Prod.mk.inj (Option.some.inj hwritten)
    have hnat : (UInt32.ofNat aggId).toNat = aggId := UInt32.toNat_ofNat_of_lt' hc
    rw [Callback.promptLine, harg 0 _ rfl, atoi_decimal hc, hnat]
  | sysSetPrio | sysSetLongPeriod | sysSetShortPeriod | sysSetPeriod =>
    obtain ⟨rfl, rfl⟩ := Prod.mk.inj (Option.some.inj hwritten)
    rw [Callback.promptLine, harg 0 _ rfl, atoi_toNat]
  | portLacpEnable slot port aggId sysMac =>
    obtain ⟨rfl, rfl⟩ := Prod.mk.inj (Option.some.inj hwritten)
    obtain ⟨hslot, hport, hport', haggId, haggId', rfl⟩ := hc
    have hlt : aggId < 4294967296 := by omega
    have hnat : (UInt32.ofNat aggId).toNat = aggId := UInt32.toNat_ofNat_of_lt' hlt
    have hrange : (UInt32.ofNat aggId == 0 || UInt32.ofNat aggId > 32) = false := by
      rw [Bool.or_eq_false_iff, beq_eq_false_iff_ne, decide_eq_false_iff_not, gt_iff_lt, UInt32.lt_iff_toNat_lt,
        hnat, Ne, ← UInt32.toNat_inj, hnat]
      exact ⟨Nat.ne_of_gt haggId, Nat.not_lt.mpr haggId'⟩
    rw [Callback.promptLine, namingPort_portName hslot hport hport' (hargv 0 _ rfl), harg 1 _ rfl,
      atoi_decimal hlt, hrange, hnat]
    rfl
  | portLacpDisable slot port | portClearStat slot port =>
    obtain ⟨rfl, rfl⟩ := Prod.mk.inj (Option.some.inj hwritten)
    obtain ⟨hslot, hport, hport'⟩ := hc
    rw [Callback.promptLine, namingPort_portName hslot hport hport' (hargv 0 _ rfl)]
  | portSetPrio slot port | portSetSpeed slot port | portSetDuplex slot port | portLinkChange slot port =>
    obtain ⟨rfl, rfl⟩ := Prod.mk.inj (Option.some.inj hwritten)
    obtain ⟨hslot, hport, hport'⟩ := hc
    rw [Callback.promptLine, namingPort_portName hslot hport hport' (hargv 0 _ rfl), harg 1 _ rfl, atoi_toNat]

theorem decimal_isWord (n : ℕ) : decimal n ≠ [] ∧ ∀ c ∈ decimal n, isDelimiter c = false := by
  refine ⟨decimal_ne_nil n, fun c hc => ?_⟩
  obtain ⟨hge, -⟩ := toNat_of_isDigit (isDigit_of_mem_decimal hc)
  simp only [isDelimiter, Bool.or_eq_false_iff, beq_eq_false_iff_ne]
  refine ⟨⟨?_, ?_⟩, ?_⟩ <;>
  · rintro rfl
    exact absurd hge (by decide)

theorem portName_isWord (slot port : ℕ) :
    portName slot port ≠ [] ∧ ∀ c ∈ portName slot port, isDelimiter c = false := by
  refine ⟨by simp [portName], fun c hc => ?_⟩
  rcases List.mem_append.mp hc with hc | hc
  · exact (decimal_isWord slot).2 c hc
  · rcases List.mem_cons.mp hc with rfl | hc
    · decide
    · exact (decimal_isWord port).2 c hc

/-- What a call is written with: one or two words, none of them long. -/
theorem written_words (hc : c.Typed memory) (hwritten : c.written = some (clbk, args)) :
    args ≠ [] ∧ args.length ≤ 2 ∧
      ∀ word ∈ args, (word ≠ [] ∧ ∀ ch ∈ word, isDelimiter ch = false) ∧ word.length ≤ 12 := by
  have hshort : ∀ n, n < 4294967296 → (decimal n).length ≤ 10 := fun n hn =>
    (Nat.length_toDigits_le_iff (by decide) (by decide)).mpr (hn.trans (by decide))
  have hnumber : ∀ n, n < 4294967296 →
      (decimal n ≠ [] ∧ ∀ ch ∈ decimal n, isDelimiter ch = false) ∧ (decimal n).length ≤ 12 := fun n hn =>
    ⟨decimal_isWord n, (hshort n hn).trans (by decide)⟩
  have hname : ∀ slot port, slot < 2147483648 → port ≤ 8 →
      (portName slot port ≠ [] ∧ ∀ ch ∈ portName slot port, isDelimiter ch = false) ∧
        (portName slot port).length ≤ 12 := fun slot port hslot hport => by
    have hdigit : (decimal port).length ≤ 1 :=
      (Nat.length_toDigits_le_iff (by decide) (by decide)).mpr (Nat.lt_of_le_of_lt hport (by decide))
    refine ⟨portName_isWord slot port, ?_⟩
    have hlength := hshort slot (hslot.trans (by decide))
    rw [portName, List.length_append, List.length_cons]
    omega
  cases c with
  | setPortLinkStatus | rxLacpdu | oneSecond => cases hwritten
  | aggDelete aggId =>
    obtain ⟨rfl, rfl⟩ := Prod.mk.inj (Option.some.inj hwritten)
    simpa using hnumber aggId hc
  | sysSetPrio x | sysSetLongPeriod x | sysSetShortPeriod x | sysSetPeriod x =>
    obtain ⟨rfl, rfl⟩ := Prod.mk.inj (Option.some.inj hwritten)
    simpa using hnumber _ (UInt32.toNat_lt x)
  | portLacpEnable slot port aggId =>
    obtain ⟨rfl, rfl⟩ := Prod.mk.inj (Option.some.inj hwritten)
    obtain ⟨hslot, -, hport, -, haggId, -⟩ := hc
    simpa using ⟨hname slot port hslot hport, hnumber aggId (by omega)⟩
  | portLacpDisable slot port | portClearStat slot port =>
    obtain ⟨rfl, rfl⟩ := Prod.mk.inj (Option.some.inj hwritten)
    obtain ⟨hslot, -, hport⟩ := hc
    simpa using hname slot port hslot hport
  | portSetPrio slot port x | portSetSpeed slot port x | portSetDuplex slot port x
  | portLinkChange slot port x =>
    obtain ⟨rfl, rfl⟩ := Prod.mk.inj (Option.some.inj hwritten)
    obtain ⟨hslot, -, hport⟩ := hc
    simpa using ⟨hname slot port hslot hport, hnumber _ (UInt32.toNat_lt x)⟩

/-- The names of the commands leave room for two words. -/
theorem lang_fits : ∀ reg ∈ lang,
    cliCountWords reg.cmdName + 3 ≤ maxParamNum ∧ reg.cmdName.length ≤ 28 ∧ '\n' ∉ reg.cmdName := by
  decide +kernel

/-- The command of a call that is written out runs, on the words of the call. -/
theorem exists_execute_written (hc : c.Typed memory) (hwritten : c.written = some (clbk, args))
    (hreg : reg ∈ lang) (hclbk : reg.clbk = some clbk) (hline : Spells reg args line) :
    ∃ argc argv, cliExecuteCommand lang line = .call clbk argc argv ∧
      ∀ k word, args[k]? = some word → argv (k + 1) = some word := by
  obtain ⟨hne, hlength, hwords⟩ := written_words hc hwritten
  have hfits := (lang_fits reg hreg).1
  obtain ⟨word, hexecute⟩ := cliExecuteCommand_of_spells prefixFree_lang hreg (wellNamed_lang reg hreg) hclbk hline
    (fun _ => hne) (fun t ht => (hwords t ht).1) (by omega)
  refine ⟨_, _, hexecute, fun k arg harg => ?_⟩
  rw [List.getElem?_cons_succ, harg, Option.some_or]

/-- A call that is written out is made, whatever the capitals and the blanks are, as long as the line is not
cut and a space follows the name of the command (`Spells`). -/
theorem promptLine_of_spells (hc : c.Typed memory) (hwritten : c.written = some (clbk, args))
    (hreg : reg ∈ lang) (hclbk : reg.clbk = some clbk) (hline : Spells reg args line) :
    promptLine w line memory = some (.call c) := by
  obtain ⟨argc, argv, hexecute, hargv⟩ := exists_execute_written hc hwritten hreg hclbk hline
  rw [promptLine, hexecute]
  exact Callback.promptLine_written hc hwritten hargv

theorem enableLine_promptLine :
    promptLine (initWorld 77) "Port LINK-group  0/3\t2 ".toList ⟨.zero, 0⟩ =
      some (.call (.portLacpEnable 0 3 2 .zero)) := by
  refine @promptLine_of_spells _ _ _ _ _ [portName 0 3, decimal 2]
    (command "port link-group" ["0/1", "1"] .lacpPortLacpEnable)
    ⟨by decide, by decide, by decide, by decide, by decide, rfl⟩ rfl
    (by decide) rfl ⟨by decide, by decide, "Port LINK-group".toList,
      [("  ".toList, portName 0 3), ("\t".toList, decimal 2)], " ".toList, ?_⟩
  refine ⟨by decide, by decide, rfl, ?_, ?_, ?_⟩ <;> simp [isDelimiter]

/-- A call that can be typed has its command. -/
theorem exists_written (hc : c.Typed memory) : ∃ clbk args, c.written = some (clbk, args) := by
  cases c with
  | setPortLinkStatus | rxLacpdu | oneSecond => exact hc.elim
  | _ => exact ⟨_, _, rfl⟩

theorem exists_mem_lang (clbk : Callback) : ∃ reg ∈ lang, reg.clbk = some clbk := by
  cases clbk <;> decide +kernel

/-- The plainest spelling of a command: its name, and a space before each word. -/
def spelling (reg : CmdDscr Callback) (args : List CString) : CString :=
  reg.cmdName.rdropWhile isDelimiter ++ Words.spaced (args.map fun word => ([' '], word))

theorem spells_spelling (hreg : reg ∈ lang) (hlength : args.length ≤ 2)
    (hwords : ∀ word ∈ args, (word ≠ [] ∧ ∀ ch ∈ word, isDelimiter ch = false) ∧ word.length ≤ 12) :
    Spells reg args (spelling reg args) where
  fits := by
    have hname : (reg.cmdName.rdropWhile isDelimiter).length ≤ 28 :=
      (List.rdropWhile_prefix _ _).length_le.trans (lang_fits reg hreg).2.1
    have hspaced : (Words.spaced (args.map fun word => ([' '], word))).length ≤ args.length * 13 := by
      rw [Words.spaced, List.flatMap_map, List.length_flatMap]
      refine (List.sum_le_card_nsmul _ 13 fun n hn => ?_).trans_eq (by simp)
      obtain ⟨word, hword, rfl⟩ := List.mem_map.mp hn
      rw [List.length_append, List.length_singleton, Nat.add_comm]
      exact Nat.succ_le_succ (hwords word hword).2
    rw [spelling, List.length_append, maxCliBuff]
    omega
  oneLine := by
    rw [spelling, List.mem_append, not_or]
    refine ⟨fun h => (lang_fits reg hreg).2.2 ((List.rdropWhile_prefix _ _).mem h), fun h => ?_⟩
    obtain ⟨t, ht, hchar⟩ := List.mem_flatMap.mp h
    obtain ⟨word, hword, rfl⟩ := List.mem_map.mp ht
    rcases List.mem_append.mp hchar with hspace | hchar
    · exact absurd (List.mem_singleton.mp hspace) (by decide)
    · exact absurd ((hwords word hword).1.2 _ hchar) (by decide)
  text := by
    refine ⟨reg.cmdName.rdropWhile isDelimiter, args.map fun word => ([' '], word), [], rfl, ?_, ?_, ?_, ?_, ?_⟩
    · rw [spelling, List.append_nil]
    · rw [List.map_map]
      exact List.map_id _
    · intro t ht
      obtain ⟨word, -, rfl⟩ := List.mem_map.mp ht
      exact ⟨by simp, by simp [isDelimiter]⟩
    · simp
    · intro t ht
      obtain ⟨word, -, rfl⟩ := List.mem_map.mp (List.mem_of_mem_head? ht)
      rfl

/-- The calls that can be typed. -/
theorem exists_promptLine_iff : (∃ line, promptLine w line memory = some (.call c)) ↔ c.Typed memory := by
  constructor
  · rintro ⟨line, hline⟩
    exact typed_of_promptLine hline
  · intro hc
    obtain ⟨clbk, args, hwritten⟩ := exists_written hc
    obtain ⟨reg, hreg, hclbk⟩ := exists_mem_lang clbk
    obtain ⟨hne, hlength, hwords⟩ := written_words hc hwritten
    obtain ⟨argc, argv, hexecute, hargv⟩ :=
      exists_execute_written hc hwritten hreg hclbk (spells_spelling hreg hlength hwords)
    refine ⟨spelling reg args, ?_⟩
    rw [promptLine, hexecute]
    exact Callback.promptLine_written hc hwritten hargv

end Written

end Lacp
