import Mathlib.Data.List.DropRight
import Mathlib.Logic.Function.Basic
import Lacp.Library.Words
import Lacp.Manager

/-!
# The command line

Reference: `CLI/cli.c`.

A process registers a table of commands. A line runs the first command whose name it starts with, or else
the only command that it abbreviates, where capital letters do not count; the words of the line are the
arguments, and a default stands for a word that is missing. `exit`, `quit` and the help come before the
table. No name in the two tables of the program is a prefix of another, so that a line runs the same
command in whatever order a table is written (`cliExecuteCommand_perm`).

What is printed is left out, and so is an overrun: for every command `cli_count_words` copies 80 bytes, from
the name of the command on, into a pool of 44 bytes (`memcpy` of `MAX_CLI_BUFF`), and ends the 80th. What is
modelled is that it counts the words of the name, all of which lie in the pool.
-/

namespace Lacp

variable {γ : Type}

/-! ## The interpreter -/

/-- `MAXPARAMNUM`. -/
def maxParamNum : ℕ := 6

/-- `MAX_CLI_BUFF`. -/
def maxCliBuff : ℕ := 80

/-- `argv`. Where nothing was stored there is no string. -/
abbrev Argv := ℕ → Option CString

/-- `CMD_DSCR_T`: of the parameters, the defaults. The callback of the standard commands is `cli_dummy`. -/
structure CmdDscr (γ : Type) where
  cmdName : CString
  defaultValues : List (Option CString)
  clbk : Option γ
deriving DecidableEq

/-- What a line comes to: a value that is returned, or a callback with its arguments. -/
inductive Execution (γ : Type)
  | ret (code : ℤ)
  | call (clbk : γ) (argc : ℕ) (argv : Argv)

/-- The delimiters of `strtok`. -/
def isDelimiter (c : Char) : Bool := c == '\t' || c == '\n' || c == ' '

/-- What `memcpy` leaves in the pool: a line ends at the line feed, and after 79 characters. -/
def cliPool (line : CString) : CString := (line.takeWhile (· != '\n')).take (maxCliBuff - 1)

/-- The loop of `cli_parse_parms`. -/
def parseParms : ℕ → CString → ℕ → ℕ → Argv → ℕ × Argv
  | 0, _, _, argc, argv => (argc, argv)
  | n + 1, pool, skipWords, argc, argv =>
    match Words.next isDelimiter pool with
    | none => (argc, argv)
    | some (ptr, pool) =>
      if skipWords ≤ 0 then parseParms n pool 0 (argc + 1) (Function.update argv argc (some ptr))
      else parseParms n pool (skipWords - 1) argc argv

/-- `cli_parse_parms`. -/
def cliParseParms (line : CString) (skipWords : ℕ) (argv : Argv) : ℕ × Argv :=
  parseParms maxParamNum (cliPool line) skipWords 0 argv

/-- `cli_count_words`: one less than there are. -/
def cliCountWords (line : CString) : ℕ := (Words.words isDelimiter (cliPool line)).length - 1

/-- `cli_set_defaults`, for the parameters from `iii` on. -/
def cliSetDefaults (argv : Argv) : ℕ → List (Option CString) → Argv
  | _, [] => argv
  | iii, value :: values => cliSetDefaults (Function.update argv (iii + 1) value) (iii + 1) values

/-- `cli_call_callback`. -/
def cliCallCallback (reg : CmdDscr γ) (line : CString) : Execution γ :=
  let cnt := cliCountWords reg.cmdName
  let argv := cliSetDefaults (fun _ => none) 0 reg.defaultValues
  let (argc, argv) := cliParseParms line cnt argv
  match reg.clbk with
  | none => .ret 0
  | some clbk => .call clbk argc argv

/-- `stdcmd`. -/
def stdcmd : List (CmdDscr γ) :=
  [{ cmdName := "exit".toList, defaultValues := [], clbk := none },
   { cmdName := "?".toList, defaultValues := [], clbk := none }]

/-- Whether `strncasecmp` finds no difference. -/
def strncasecmp (s t : CString) (n : ℕ) : Bool :=
  (s.take n).map Char.toLower == (t.take n).map Char.toLower

/-- `find_command`: how many names start with the line, and the last of them. -/
def findCommand (theList : List (CmdDscr γ)) (line : CString) : ℕ × Option (CmdDscr γ) :=
  (stdcmd ++ theList).foldl (fun found (reg : CmdDscr γ) =>
    if strncasecmp reg.cmdName line line.length then (found.1 + 1, some reg) else found) (0, none)

/-! The lines that do not get to the table. -/

def isNothing (line : CString) : Bool := line.head? == some '\n' || line.isEmpty

def isExit (line : CString) : Bool := line.head? == some 'q' || strncasecmp "ex".toList line 2

def isHelp (line : CString) : Bool := line.head? == some '?' || line.head? == some 'h'

/-- `cli_execute_command`, where a table is registered. -/
def cliExecuteCommand (theList : List (CmdDscr γ)) (line : CString) : Execution γ :=
  if isNothing line then .ret 0
  else if isExit line then .ret 4
  -- `cli_help` prints
  else if isHelp line then .ret 0
  else match theList.find? fun reg => strncasecmp reg.cmdName line reg.cmdName.length with
    | some reg => cliCallCallback reg line
    | none =>
      match findCommand theList line with
      | (1, some reg) => cliCallCallback reg line
      -- `usage` prints
      | _ => .ret 0

/-! ## The arguments -/

section Arguments

variable {reg : CmdDscr γ} {line : CString} {argv : Argv}

/-- The words of a line that are looked at. -/
def lineWords (line : CString) : List CString := (Words.words isDelimiter (cliPool line)).take maxParamNum

/-- The default of an argument. The first argument, which is the last word of the name, has none. -/
def CmdDscr.default (reg : CmdDscr γ) : Argv
  | 0 => none
  | k + 1 => (reg.defaultValues[k]?).join

/-- The loop stores the words after those that are skipped. -/
theorem parseParms_eq (n : ℕ) (pool : CString) (skipWords argc : ℕ) (argv : Argv) :
    parseParms n pool skipWords argc argv =
      (argc + (((Words.words isDelimiter pool).take n).drop skipWords).length,
        fun k => if argc ≤ k then (((Words.words isDelimiter pool).take n).drop skipWords)[k - argc]?.or (argv k)
          else argv k) := by
  induction n generalizing pool skipWords argc argv with
  | zero => simp [parseParms]
  | succ n ih =>
    rw [parseParms, Words.words_eq_next]
    cases hnext : Words.next isDelimiter pool with
    | none => simp
    | some s =>
      obtain ⟨ptr, pool'⟩ := s
      simp only [Option.elim_some, List.take_succ_cons]
      cases skipWords with
      | zero =>
        rw [if_pos le_rfl, ih]
        refine Prod.ext (by simp [Nat.add_assoc, Nat.add_comm]) (funext fun k => ?_)
        simp only [List.drop_zero]
        rcases Nat.lt_trichotomy argc k with hlt | rfl | hgt
        · have hindex : k - argc = k - (argc + 1) + 1 := by omega
          rw [if_pos (by omega : argc + 1 ≤ k), if_pos hlt.le, hindex, List.getElem?_cons_succ,
            Function.update_of_ne hlt.ne']
        · rw [if_neg (by omega), if_pos le_rfl, Nat.sub_self, List.getElem?_cons_zero, Function.update_self,
            Option.some_or]
        · rw [if_neg (by omega), if_neg (by omega), Function.update_of_ne hgt.ne]
      | succ skipWords =>
        rw [if_neg (by omega), Nat.add_sub_cancel, ih, List.drop_succ_cons]

theorem cliParseParms_eq (line : CString) (skipWords : ℕ) (argv : Argv) :
    cliParseParms line skipWords argv =
      (((lineWords line).drop skipWords).length, fun k => ((lineWords line).drop skipWords)[k]?.or (argv k)) := by
  rw [cliParseParms, parseParms_eq]
  simp [lineWords]

theorem cliSetDefaults_apply (values : List (Option CString)) (iii : ℕ) (argv : Argv) (k : ℕ) :
    cliSetDefaults argv iii values k =
      if iii < k ∧ k ≤ iii + values.length then (values[k - iii - 1]?).join else argv k := by
  induction values generalizing iii argv with
  | nil => rw [cliSetDefaults, if_neg (by simp)]
  | cons value values ih =>
    rw [cliSetDefaults, ih, List.length_cons]
    by_cases hk : k = iii + 1
    · subst hk
      rw [if_neg (by omega), if_pos ⟨by omega, by omega⟩, Function.update_self]
      simp
    · rw [Function.update_of_ne hk]
      by_cases hrange : iii < k ∧ k ≤ iii + (values.length + 1)
      · have hindex : k - iii - 1 = k - (iii + 1) - 1 + 1 := by omega
        rw [if_pos ⟨by omega, by omega⟩, if_pos hrange, hindex, List.getElem?_cons_succ]
      · rw [if_neg (by omega), if_neg hrange]

theorem cliSetDefaults_eq (reg : CmdDscr γ) :
    cliSetDefaults (fun _ => none) 0 reg.defaultValues = reg.default := by
  funext k
  rw [cliSetDefaults_apply]
  cases k with
  | zero => rfl
  | succ k =>
    by_cases hk : k < reg.defaultValues.length
    · rw [if_pos ⟨by omega, by omega⟩]
      simp [CmdDscr.default]
    · rw [if_neg (by omega), CmdDscr.default, List.getElem?_eq_none (by omega)]
      rfl

/-- A callback gets the words of the line from the last one of the name on, and the defaults. -/
theorem cliCallCallback_eq (reg : CmdDscr γ) (line : CString) :
    cliCallCallback reg line =
      let args := (lineWords line).drop (cliCountWords reg.cmdName)
      reg.clbk.elim (.ret 0) fun clbk => .call clbk args.length fun k => args[k]?.or (reg.default k) := by
  simp only [cliCallCallback, cliParseParms_eq, cliSetDefaults_eq]
  cases reg.clbk <;> rfl

end Arguments

/-! ## The dispatch -/

section Dispatch

variable {theList theList' : List (CmdDscr γ)} {reg : CmdDscr γ} {line : CString}

/-- Capital letters do not count. -/
def foldCase (s : CString) : CString := s.map Char.toLower

/-- What a line is compared with. -/
def CmdDscr.key (reg : CmdDscr γ) : CString := foldCase reg.cmdName

/-- The commands of a list that a line abbreviates. -/
def abbreviations (commands : List (CmdDscr γ)) (line : CString) : List (CmdDscr γ) :=
  Words.abbreviated CmdDscr.key commands (foldCase line)

/-- The command that a line runs. -/
def lookup (theList : List (CmdDscr γ)) (line : CString) : Option (CmdDscr γ) :=
  (theList.find? fun reg => reg.key <+: foldCase line).or (Words.only (abbreviations (stdcmd ++ theList) line))

theorem strncasecmp_left (s t : CString) : strncasecmp s t s.length = decide (foldCase s <+: foldCase t) := by
  rw [strncasecmp, List.take_length, Bool.eq_iff_iff, beq_iff_eq, decide_eq_true_iff,
    List.prefix_iff_eq_take, foldCase, foldCase, List.length_map, List.map_take]

theorem strncasecmp_right (s t : CString) : strncasecmp s t t.length = decide (foldCase t <+: foldCase s) := by
  rw [← strncasecmp_left, strncasecmp, strncasecmp, Bool.eq_iff_iff, beq_iff_eq, beq_iff_eq, eq_comm]

theorem findCommand_eq (theList : List (CmdDscr γ)) (line : CString) :
    findCommand theList line =
      ((abbreviations (stdcmd ++ theList) line).length, (abbreviations (stdcmd ++ theList) line).getLast?) := by
  have hfold : ∀ (l : List (CmdDscr γ)) (found : List (CmdDscr γ)),
      l.foldl (fun found (reg : CmdDscr γ) => if strncasecmp reg.cmdName line line.length
        then (found.1 + 1, some reg) else found) (found.length, found.getLast?) =
      ((found ++ abbreviations l line).length, (found ++ abbreviations l line).getLast?) := by
    intro l
    induction l with
    | nil => simp [abbreviations, Words.abbreviated]
    | cons reg l ih =>
      intro found
      rw [List.foldl_cons]
      by_cases hkey : foldCase line <+: reg.key
      · have hstep := ih (found ++ [reg])
        rw [List.length_append, List.length_singleton, List.getLast?_concat] at hstep
        have hfound : abbreviations (reg :: l) line = reg :: abbreviations l line := by
          simp [abbreviations, Words.abbreviated, hkey]
        rw [if_pos ((strncasecmp_right _ _).trans (decide_eq_true hkey)), hstep, hfound, List.append_assoc,
          List.singleton_append]
      · have hfound : abbreviations (reg :: l) line = abbreviations l line := by
          simp [abbreviations, Words.abbreviated, hkey]
        rw [if_neg fun h => hkey (of_decide_eq_true ((strncasecmp_right _ _).symm.trans h)), ih, hfound]
  exact hfold _ []

theorem cliExecuteCommand_eq (theList : List (CmdDscr γ)) (line : CString) :
    cliExecuteCommand theList line =
      if isNothing line then .ret 0
      else if isExit line then .ret 4
      else if isHelp line then .ret 0
      else (lookup theList line).elim (.ret 0) (cliCallCallback · line) := by
  have hname : (theList.find? fun reg => strncasecmp reg.cmdName line reg.cmdName.length) =
      theList.find? fun reg => reg.key <+: foldCase line := by
    simp only [strncasecmp_left]
    rfl
  rw [cliExecuteCommand, hname, findCommand_eq, lookup]
  congr 3
  cases theList.find? fun reg => reg.key <+: foldCase line with
  | some reg => rfl
  | none =>
    rcases abbreviations (stdcmd ++ theList) line with _ | ⟨reg, _ | ⟨reg', found⟩⟩ <;> rfl

/-- The order of a table makes no difference. -/
theorem lookup_perm (hfree : Words.PrefixFree CmdDscr.key theList) (hperm : theList.Perm theList')
    (line : CString) : lookup theList' line = lookup theList line := by
  rw [lookup, lookup, hfree.find?_perm hperm, abbreviations, abbreviations,
    Words.abbreviated_perm (hperm.append_left stdcmd)]

theorem cliExecuteCommand_perm (hfree : Words.PrefixFree CmdDscr.key theList)
    (hperm : theList.Perm theList') (line : CString) :
    cliExecuteCommand theList' line = cliExecuteCommand theList line := by
  rw [cliExecuteCommand_eq, cliExecuteCommand_eq, lookup_perm hfree hperm]

/-- The line gets to the table, and starts with the name of the command, or with no name and abbreviates
this command alone. -/
def Selects (theList : List (CmdDscr γ)) (line : CString) (reg : CmdDscr γ) : Prop :=
  (isNothing line = false ∧ isExit line = false ∧ isHelp line = false) ∧
    (reg ∈ theList ∧ reg.key <+: foldCase line ∨
      (∀ reg' ∈ theList, ¬ reg'.key <+: foldCase line) ∧ abbreviations (stdcmd ++ theList) line = [reg])

theorem lookup_eq_some_iff (hfree : Words.PrefixFree CmdDscr.key theList) (line : CString) :
    lookup theList line = some reg ↔ reg ∈ theList ∧ reg.key <+: foldCase line ∨
      (∀ reg' ∈ theList, ¬ reg'.key <+: foldCase line) ∧ abbreviations (stdcmd ++ theList) line = [reg] := by
  rw [lookup]
  cases hfind : theList.find? fun reg => reg.key <+: foldCase line with
  | some reg' =>
    obtain ⟨hreg', hhead⟩ := hfree.find?_eq_some_iff.mp hfind
    rw [Option.some_or, Option.some.injEq]
    constructor
    · rintro rfl
      exact .inl ⟨hreg', hhead⟩
    · rintro (⟨hreg, hhead'⟩ | ⟨hnone, -⟩)
      · exact hfree.unique hreg' hreg hhead hhead'
      · exact absurd hhead (hnone reg' hreg')
  | none =>
    have hnone : ∀ reg' ∈ theList, ¬ reg'.key <+: foldCase line := fun reg' hreg' => by
      simpa using List.find?_eq_none.mp hfind reg' hreg'
    rw [Option.none_or, Words.only_eq_some_iff]
    exact ⟨fun heq => .inr ⟨hnone, heq⟩, fun h => h.elim (fun h => absurd h.2 (hnone reg h.1)) And.right⟩

/-- What a line calls. -/
theorem cliExecuteCommand_eq_call_iff (hfree : Words.PrefixFree CmdDscr.key theList) (line : CString)
    (clbk : γ) (argc : ℕ) (argv : Argv) :
    cliExecuteCommand theList line = .call clbk argc argv ↔
      ∃ reg, Selects theList line reg ∧ reg.clbk = some clbk ∧
        argc = ((lineWords line).drop (cliCountWords reg.cmdName)).length ∧
        argv = fun k => ((lineWords line).drop (cliCountWords reg.cmdName))[k]?.or (reg.default k) := by
  have hcall : ∀ reg : CmdDscr γ, cliCallCallback reg line = .call clbk argc argv ↔ reg.clbk = some clbk ∧
      argc = ((lineWords line).drop (cliCountWords reg.cmdName)).length ∧
      argv = fun k => ((lineWords line).drop (cliCountWords reg.cmdName))[k]?.or (reg.default k) := by
    intro reg
    rw [cliCallCallback_eq]
    cases reg.clbk with
    | none => simp
    | some clbk' =>
      simp only [Option.elim_some, Execution.call.injEq, Option.some.injEq]
      rw [eq_comm (b := argc), eq_comm (b := argv)]
  rw [cliExecuteCommand_eq]
  cases hnothing : isNothing line
  · cases hexit : isExit line
    · cases hhelp : isHelp line
      · cases hlookup : lookup theList line with
        | none =>
          refine iff_of_false (fun h => (nomatch h)) ?_
          rintro ⟨reg, ⟨-, hselects⟩, -⟩
          rw [(lookup_eq_some_iff hfree line).mpr hselects] at hlookup
          cases hlookup
        | some reg =>
          refine (hcall reg).trans ⟨fun h => ⟨reg, ⟨⟨hnothing, hexit, hhelp⟩,
            (lookup_eq_some_iff hfree line).mp hlookup⟩, h⟩, ?_⟩
          rintro ⟨reg', ⟨-, hselects⟩, h⟩
          rw [(lookup_eq_some_iff hfree line).mpr hselects] at hlookup
          obtain rfl := Option.some.inj hlookup
          exact h
      · refine iff_of_false (fun h => (nomatch h)) ?_
        rintro ⟨reg, ⟨⟨-, -, hhelp'⟩, -⟩, -⟩
        rw [hhelp'] at hhelp
        cases hhelp
    · refine iff_of_false (fun h => (nomatch h)) ?_
      rintro ⟨reg, ⟨⟨-, hexit', -⟩, -⟩, -⟩
      rw [hexit'] at hexit
      cases hexit
  · refine iff_of_false (fun h => (nomatch h)) ?_
    rintro ⟨reg, ⟨⟨hnothing', -⟩, -⟩, -⟩
    rw [hnothing'] at hnothing
    cases hnothing

/-- A command that is selected and has a callback is in the table. -/
theorem Selects.mem (h : Selects theList line reg) {clbk : γ} (hclbk : reg.clbk = some clbk) :
    reg ∈ theList := by
  rcases h.2 with ⟨hreg, -⟩ | ⟨-, heq⟩
  · exact hreg
  · have hmem : reg ∈ abbreviations (stdcmd ++ theList) line := heq ▸ List.mem_singleton_self reg
    rcases List.mem_append.mp (List.mem_filter.mp hmem).1 with hstd | hreg
    · have hnone : ∀ std ∈ (stdcmd : List (CmdDscr γ)), std.clbk = none := by simp [stdcmd]
      rw [hnone reg hstd] at hclbk
      cases hclbk
    · exact hreg

/-- The name of a command gets to the table. -/
def CmdDscr.Reachable (reg : CmdDscr γ) : Prop :=
  2 ≤ reg.key.length ∧ reg.key.take 2 ≠ "ex".toList ∧
    reg.key.head? ∉ [some '\n', some 'q', some '?', some 'h']

instance (reg : CmdDscr γ) : Decidable reg.Reachable :=
  inferInstanceAs (Decidable (2 ≤ reg.key.length ∧ reg.key.take 2 ≠ "ex".toList ∧
    reg.key.head? ∉ [some '\n', some 'q', some '?', some 'h']))

/-- A line that starts with the name of a command runs the command. -/
theorem cliExecuteCommand_of_name (hfree : Words.PrefixFree CmdDscr.key theList) (hreg : reg ∈ theList)
    (hname : reg.Reachable) (hline : reg.key <+: foldCase line) :
    cliExecuteCommand theList line = cliCallCallback reg line := by
  obtain ⟨hlength, hexit, hhead⟩ := hname
  have hfold : (foldCase line).take 2 = reg.key.take 2 := by
    obtain ⟨rest, hrest⟩ := hline
    rw [← hrest, List.take_append_of_le_length hlength]
  have hother : ∀ c ∈ ['\n', 'q', '?', 'h'], line.head? ≠ some c := by
    intro c hc heq
    refine hhead (?_ : reg.key.head? ∈ ['\n', 'q', '?', 'h'].map some)
    refine List.mem_map.mpr ⟨c, hc, ?_⟩
    have hlower : Char.toLower c = c := by
      simp only [List.mem_cons, List.not_mem_nil, or_false] at hc
      rcases hc with rfl | rfl | rfl | rfl <;> decide
    have hfirst : (foldCase line).head? = some c := by
      rw [foldCase, List.head?_map, heq, Option.map_some, hlower]
    have hboth := congrArg List.head? hfold
    rw [List.head?_take, List.head?_take, if_neg (by decide), if_neg (by decide)] at hboth
    rw [← hfirst, hboth]
  have hne : line ≠ [] := by
    rintro rfl
    have hkey := hline.length_le
    rw [foldCase, List.map_nil, List.length_nil] at hkey
    omega
  have hex : strncasecmp "ex".toList line 2 = false := by
    refine beq_eq_false_iff_ne.mpr fun heq => hexit ?_
    rw [← hfold, foldCase, ← List.map_take, ← heq]
    decide
  have hnothing : isNothing line = false := by
    simpa [isNothing, hne] using hother '\n' (by simp)
  have hquit : isExit line = false := by
    rw [isExit, hex, Bool.or_false]
    simpa using hother 'q' (by simp)
  have hhelp : isHelp line = false := by
    simpa [isHelp] using ⟨hother '?' (by simp), hother 'h' (by simp)⟩
  have hlookup : lookup theList line = some reg := by
    rw [lookup, hfree.find?_eq_some_iff.mpr ⟨hreg, hline⟩, Option.some_or]
  rw [cliExecuteCommand_eq, hnothing, hquit, hhelp, hlookup]
  rfl

end Dispatch

/-! ## Writing a command -/

section Spelling

variable {theList : List (CmdDscr γ)} {reg : CmdDscr γ} {args : List CString} {line : CString} {clbk : γ}

/-- The line is the name of the command, with any capitals, and words with blanks between them; a space
follows the name. -/
structure Spells (reg : CmdDscr γ) (args : List CString) (line : CString) : Prop where
  fits : line.length < maxCliBuff
  oneLine : '\n' ∉ line
  text : ∃ head ts trail, foldCase head = foldCase (reg.cmdName.rdropWhile isDelimiter) ∧
    line = head ++ Words.spaced ts ++ trail ∧ ts.map Prod.snd = args ∧
    (∀ t ∈ ts, t.1 ≠ [] ∧ ∀ c ∈ t.1, isDelimiter c = true) ∧ (∀ c ∈ trail, isDelimiter c = true) ∧
    ∀ t ∈ ts.head?, t.1.head? = some ' '

/-- What is asked of the name of a command: a line can start with it, and at most one space ends it. -/
structure CmdDscr.WellNamed (reg : CmdDscr γ) : Prop where
  reachable : reg.Reachable
  fits : cliPool reg.cmdName = reg.cmdName
  words : 0 < (Words.words isDelimiter reg.cmdName).length
  space : reg.cmdName = reg.cmdName.rdropWhile isDelimiter ∨
    reg.cmdName = reg.cmdName.rdropWhile isDelimiter ++ [' ']

instance (reg : CmdDscr γ) : Decidable reg.WellNamed :=
  decidable_of_iff (reg.Reachable ∧ cliPool reg.cmdName = reg.cmdName ∧
    0 < (Words.words isDelimiter reg.cmdName).length ∧
    (reg.cmdName = reg.cmdName.rdropWhile isDelimiter ∨
      reg.cmdName = reg.cmdName.rdropWhile isDelimiter ++ [' ']))
    ⟨fun ⟨h₁, h₂, h₃, h₄⟩ => ⟨h₁, h₂, h₃, h₄⟩, fun h => ⟨h.reachable, h.fits, h.words, h.space⟩⟩

theorem isDelimiter_eq_false {c : Char} (h : 65 ≤ c.val.toNat) : isDelimiter c = false := by
  refine Bool.eq_false_iff.mpr fun hc => ?_
  simp only [isDelimiter, Bool.or_eq_true, beq_iff_eq] at hc
  rcases hc with (rfl | rfl) | rfl <;> exact absurd h (by decide)

theorem isDelimiter_toLower (c : Char) : isDelimiter c.toLower = isDelimiter c := by
  unfold Char.toLower
  split
  · rename_i h
    have hge : 65 ≤ c.val.toNat := UInt32.le_iff_toNat_le.mp h.1
    have hle : c.val.toNat ≤ 90 := UInt32.le_iff_toNat_le.mp h.2
    have hlower : (c.val + ('a'.val - 'A'.val)).toNat = c.val.toNat + 32 := by
      have hdiff : ('a'.val - 'A'.val).toNat = 32 := by decide
      rw [UInt32.toNat_add]
      omega
    rw [isDelimiter_eq_false hge]
    exact isDelimiter_eq_false (hlower ▸ hge.trans (Nat.le_add_right _ _))
  · rfl

/-- Capitals make no difference to the number of words. -/
theorem length_words_foldCase (s : CString) :
    (Words.words isDelimiter (foldCase s)).length = (Words.words isDelimiter s).length := by
  rw [foldCase, Words.words_map isDelimiter_toLower, List.length_map]

theorem CmdDscr.WellNamed.words_stem (h : reg.WellNamed) :
    Words.words isDelimiter (reg.cmdName.rdropWhile isDelimiter) = Words.words isDelimiter reg.cmdName := by
  rcases h.space with heq | heq
  · rw [← heq]
  · conv_rhs => rw [heq]
    rw [Words.words_append_cons _ _ (by decide), Words.words_nil, List.append_nil]

/-- A line that spells a command starts with its name. -/
theorem Spells.key_prefix (h : Spells reg args line) (hname : reg.WellNamed)
    (hargs : reg.cmdName ≠ reg.cmdName.rdropWhile isDelimiter → args ≠ []) : reg.key <+: foldCase line := by
  obtain ⟨head, ts, trail, hhead, rfl, hts, -, -, hspace⟩ := h.text
  have hline : foldCase (head ++ Words.spaced ts ++ trail) =
      foldCase (reg.cmdName.rdropWhile isDelimiter) ++ foldCase (Words.spaced ts ++ trail) := by
    rw [← hhead, foldCase, foldCase, foldCase, List.append_assoc, List.map_append]
  rw [hline]
  by_cases heq : reg.cmdName = reg.cmdName.rdropWhile isDelimiter
  · rw [← heq]
    exact List.prefix_append _ _
  · obtain ⟨t, ts, rfl⟩ : ∃ t ts', ts = t :: ts' := by
      refine List.exists_cons_of_ne_nil ?_
      rintro rfl
      exact hargs heq hts.symm
    have hfirst := hspace t rfl
    obtain ⟨blank, hblank⟩ : ∃ blank, t.1 = ' ' :: blank := by
      cases hgap : t.1 with
      | nil => simp [hgap] at hfirst
      | cons c blank =>
        rw [hgap, List.head?_cons, Option.some.injEq] at hfirst
        exact ⟨blank, by rw [hfirst]⟩
    have hkey : reg.key = foldCase (reg.cmdName.rdropWhile isDelimiter) ++ [' '] := by
      rw [CmdDscr.key]
      conv_lhs => rw [hname.space.resolve_left heq]
      rw [foldCase, foldCase, List.map_append]
      rfl
    rw [hkey]
    refine (List.prefix_append_right_inj _).mpr ⟨foldCase (blank ++ (t.2 ++ Words.spaced ts ++ trail)), ?_⟩
    simp [Words.spaced, hblank, foldCase]

/-- The words of a line that spells a command. -/
theorem Spells.lineWords (h : Spells reg args line) (hname : reg.WellNamed)
    (hwords : ∀ t ∈ args, t ≠ [] ∧ ∀ c ∈ t, isDelimiter c = false)
    (hfits : cliCountWords reg.cmdName + 1 + args.length ≤ maxParamNum) :
    ∃ word, (lineWords line).drop (cliCountWords reg.cmdName) = word :: args := by
  have hpool : cliPool line = line := by
    have hline : line.takeWhile (· != '\n') = line :=
      List.takeWhile_eq_self_iff.mpr fun c hc => bne_iff_ne.mpr fun heq => h.oneLine (heq ▸ hc)
    rw [cliPool, hline]
    exact List.take_of_length_le (Nat.le_sub_one_of_lt h.fits)
  have hcount : cliCountWords reg.cmdName + 1 = (Words.words isDelimiter reg.cmdName).length := by
    rw [cliCountWords, hname.fits]
    exact Nat.sub_add_cancel hname.words
  obtain ⟨head, ts, trail, hhead, hline, hts, hblank, htrail, -⟩ := h.text
  have hwords' : Words.words isDelimiter line = Words.words isDelimiter head ++ args := by
    rw [hline, Words.words_spaced hblank (fun t ht => hwords t.2 (hts ▸ List.mem_map_of_mem ht)) htrail, hts]
  have hlength : (Words.words isDelimiter head).length = cliCountWords reg.cmdName + 1 := by
    rw [hcount, ← length_words_foldCase, hhead, length_words_foldCase, hname.words_stem]
  rw [Lacp.lineWords, hpool, hwords', List.take_of_length_le (by rw [List.length_append, hlength]; exact hfits),
    List.drop_append_of_le_length (by omega)]
  obtain ⟨word, hword⟩ : ∃ word, (Words.words isDelimiter head).drop (cliCountWords reg.cmdName) = [word] :=
    List.length_eq_one_iff.mp (by rw [List.length_drop]; omega)
  exact ⟨word, by rw [hword, List.singleton_append]⟩

/-- A command that is written out runs with the words that are written, and with the defaults of those that
are not. -/
theorem cliExecuteCommand_of_spells (hfree : Words.PrefixFree CmdDscr.key theList) (hreg : reg ∈ theList)
    (hname : reg.WellNamed) (hclbk : reg.clbk = some clbk) (h : Spells reg args line)
    (hargs : reg.cmdName ≠ reg.cmdName.rdropWhile isDelimiter → args ≠ [])
    (hwords : ∀ t ∈ args, t ≠ [] ∧ ∀ c ∈ t, isDelimiter c = false)
    (hfits : cliCountWords reg.cmdName + 1 + args.length ≤ maxParamNum) :
    ∃ word, cliExecuteCommand theList line =
      .call clbk (args.length + 1) fun k => (word :: args)[k]?.or (reg.default k) := by
  obtain ⟨word, hword⟩ := h.lineWords hname hwords hfits
  refine ⟨word, ?_⟩
  rw [cliExecuteCommand_of_name hfree hreg hname.reachable (h.key_prefix hname hargs), cliCallCallback_eq, hword,
    hclbk]
  rfl

end Spelling

end Lacp
