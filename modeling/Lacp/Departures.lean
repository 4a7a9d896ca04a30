import Lacp.NetworkSafety

/-!
# Bridges that end

Reference: `bridge_shutdown` of `bridge.c`, `mngr_control` and `unregister_bridge` of `mngr.c`.

A process that ends has said goodbye, and says nothing after that. Until the manager has read so it may
still have a record of the process, and wires to its ports; afterwards it has neither
(`netReachable_forgotten`). The proof follows what the manager would make of the messages that wait:
whoever has ended would not be known to it in the end (`knownAfter`).
-/

namespace Lacp

/-- Whether the process may be registered after the message, if it is `known` before. A handshake that finds
no memory registers nobody. -/
def ToMngr.mayKnow (pid : Int64) (known : Bool) : ToMngr → Bool
  | .handshake senderPid _ => known || senderPid == pid
  | .shutdown senderPid => known && senderPid != pid
  | .bpdu _ => known

/-- Whether the process may be registered after all the messages. -/
def knownAfter (pid : Int64) (known : Bool) (toMngr : List ToMngr) : Bool :=
  toMngr.foldl (ToMngr.mayKnow pid) known

section Messages

variable {pid : Int64} {known known' : Bool} {l l' : List ToMngr}

theorem knownAfter_append : knownAfter pid known (l ++ l') = knownAfter pid (knownAfter pid known l) l' :=
  List.foldl_append

theorem ToMngr.mayKnow_mono (h : known = true → known' = true) (msg : ToMngr)
    (hknown : msg.mayKnow pid known = true) : msg.mayKnow pid known' = true := by
  cases msg with
  | handshake senderPid =>
    simp only [mayKnow, Bool.or_eq_true] at hknown ⊢
    exact hknown.imp_left h
  | shutdown senderPid =>
    simp only [mayKnow, Bool.and_eq_true] at hknown ⊢
    exact hknown.imp_left h
  | bpdu => exact h hknown

theorem knownAfter_mono (h : known = true → known' = true) (hknown : knownAfter pid known l = true) :
    knownAfter pid known' l = true := by
  induction l generalizing known known' with
  | nil => exact h hknown
  | cons msg l ih => exact ih (msg.mayKnow_mono h) hknown

/-- Messages that do not greet make nobody known. -/
theorem knownAfter_false (h : ∀ msg ∈ l, msg.greets ≠ some pid) : knownAfter pid false l = false := by
  induction l with
  | nil => rfl
  | cons msg l ih =>
    have hfirst : msg.mayKnow pid false = false := by
      have hgreets := h msg List.mem_cons_self
      cases msg with
      | handshake senderPid =>
        have hne : senderPid ≠ pid := fun heq => hgreets (congrArg some heq)
        simp [ToMngr.mayKnow, hne]
      | shutdown | bpdu => rfl
    show knownAfter pid (msg.mayKnow pid false) l = false
    rw [hfirst]
    exact ih fun msg hmsg => h msg (List.mem_cons_of_mem _ hmsg)

/-- Who is known is forgotten by a farewell alone. -/
theorem knownAfter_true (h : .shutdown pid ∉ l) : knownAfter pid true l = true := by
  induction l with
  | nil => rfl
  | cons msg l ih =>
    have hfirst : msg.mayKnow pid true = true := by
      cases msg with
      | shutdown senderPid =>
        have hne : senderPid ≠ pid := by
          rintro rfl
          exact h List.mem_cons_self
        simp [ToMngr.mayKnow, hne]
      | handshake | bpdu => rfl
    show knownAfter pid (msg.mayKnow pid true) l = true
    rw [hfirst]
    exact ih fun hin => h (List.mem_cons_of_mem _ hin)

end Messages

/-! ## The invariant -/

/-- Whoever has ended will not be known to the manager. -/
def Departed (n : Network) : Prop :=
  ∀ pid b, n.bridge pid = some b → b.shutdownFlag = true →
    knownAfter pid (decide (pid ∈ n.mngr.pids)) n.toMngr = false

section Steps

variable {n n' : Network} {pid : Int64} {fuel : ℕ}

/-- The manager reads `msg`, if anything, and knows nobody whom it should not. -/
theorem Departed.ofManager (h : Departed n) (msg : Option ToMngr) {l : List ToMngr}
    (hqueue : n.toMngr = msg.toList ++ l) (hbridge : n'.bridge = n.bridge) (hl : n'.toMngr = l)
    (hknown : ∀ p ∈ n'.mngr.pids, knownAfter p (decide (p ∈ n.mngr.pids)) msg.toList = true) :
    Departed n' := by
  intro p b hb hended
  rw [hbridge] at hb
  have hold := h p b hb hended
  rw [hqueue, knownAfter_append] at hold
  rw [hl]
  refine Bool.eq_false_of_not_eq_true fun htrue => ?_
  have hmono := knownAfter_mono (fun hp => hknown p (of_decide_eq_true hp)) htrue
  rw [hold] at hmono
  cases hmono

/-- What a call makes of the records. -/
theorem mem_pids_of_runMngrCall (h : Consistent n) {c : MngrCall} {m' : Mngr}
    (hrun : runMngrCall n.mngr c = some m') {p : Int64} (hp : p ∈ m'.pids) :
    (p ∈ n.mngr.pids ∨ ∃ param1 memory, c = .handshake p param1 memory) ∧ c ≠ .shutdown p := by
  obtain ⟨hroster, hkept⟩ := h.wired.roster hrun
  exact hroster.mem_pids_cases hkept (List.nodup_append.mp h.nodup).2.1 hp

theorem Departed.start (h : Departed n) (hrun : n.start pid = some n') : Departed n' := by
  simp only [Network.start] at hrun
  split at hrun
  · cases hrun
  rename_i hnew
  obtain rfl := Option.some.inj hrun
  intro p b hb hended
  dsimp only at hb
  by_cases hp : p = pid
  · subst hp
    rw [Function.update_self] at hb
    obtain rfl := Option.some.inj hb
    cases hended
  · rw [Function.update_of_ne hp] at hb
    show knownAfter p _ (n.toMngr ++ [bridgeHandshake pid]) = false
    rw [knownAfter_append, h p b hb hended]
    refine knownAfter_false fun msg hmsg hgreets => hp ?_
    rw [List.mem_singleton.mp hmsg] at hgreets
    exact (Option.some.inj hgreets).symm

theorem Departed.bridgeLoop (hc : Consistent n) (h : Departed n) {ready : Ready} {memory : ℕ → ℤ}
    (hrun : n.bridgeLoop fuel pid ready memory = some n') : Departed n' := by
  obtain ⟨b, hb, hrun⟩ := Option.bind_eq_some_iff.mp hrun
  dsimp only at hrun
  split at hrun
  · cases hrun
  obtain ⟨⟨b', queue⟩, hloop, hend⟩ := Option.bind_eq_some_iff.mp hrun
  obtain rfl := Option.some.inj hend
  intro p u hu hended
  dsimp only at hu
  show knownAfter p _ (n.toMngr ++ b.sends b' memory) = false
  rw [knownAfter_append]
  by_cases hp : p = pid
  · -- the farewell comes last
    subst hp
    rw [Function.update_self] at hu
    obtain rfl := Option.some.inj hu
    obtain ⟨hpid, -⟩ := hc.bridges p b hb
    simp only [Bridge.sends, hended, if_true, hpid]
    rw [knownAfter_append]
    simp [knownAfter, ToMngr.mayKnow]
  · rw [Function.update_of_ne hp] at hu
    rw [h p u hu hended]
    refine knownAfter_false fun msg hmsg hgreets => ?_
    have hnone := greets_sends b b' memory
    rw [List.filterMap_eq_nil_iff] at hnone
    rw [hnone msg hmsg] at hgreets
    cases hgreets

theorem Departed.mngrRead (hc : Consistent n) (h : Departed n) {memory : Option (ℤ → PortT)}
    (hrun : n.mngrRead memory = some n') : Departed n' := by
  simp only [Network.mngrRead] at hrun
  split at hrun
  · cases hrun
  obtain ⟨msg, hmsg, hrest⟩ := Option.bind_eq_some_iff.mp hrun
  obtain ⟨⟨m', relayed⟩, hread, hend⟩ := Option.bind_eq_some_iff.mp hrest
  obtain rfl := Option.some.inj hend
  refine h.ofManager (some msg) (List.cons_head?_tail hmsg).symm rfl rfl fun p hp => ?_
  have hp : p ∈ m'.pids := hp
  cases msg with
  | handshake pid param1 =>
    obtain ⟨rfl, -⟩ := Prod.mk.inj (Option.some.inj hread)
    obtain ⟨hknown, -⟩ := mem_pids_of_runMngrCall (c := .handshake pid param1 memory) hc rfl hp
    rcases hknown with hknown | ⟨_, _, hcall⟩
    · simp [knownAfter, ToMngr.mayKnow, hknown]
    · obtain ⟨rfl, -⟩ := MngrCall.handshake.inj hcall
      simp [knownAfter, ToMngr.mayKnow]
  | shutdown pid =>
    obtain ⟨u, hrun', hend⟩ := Option.map_eq_some_iff.mp hread
    obtain ⟨rfl, -⟩ := Prod.mk.inj hend
    obtain ⟨hknown, hne⟩ := mem_pids_of_runMngrCall (c := .shutdown pid) hc hrun' hp
    have hne : pid ≠ p := fun heq => hne (by rw [heq])
    rcases hknown with hknown | ⟨_, _, hcall⟩
    · simp [knownAfter, ToMngr.mayKnow, hknown, hne]
    · cases hcall
  | bpdu msg =>
    have hpids : m'.pids = n.mngr.pids := by
      have hread : n.mngr.mngrRxBpdu msg = (m', relayed) := Option.some.inj hread
      obtain hdrop | ⟨x, -, -, -, hdrop | ⟨y, -, hpass⟩⟩ := mngrRxBpdu_cases n.mngr msg
      · rw [← (Prod.mk.inj (hread.symm.trans hdrop)).1]
      · rw [(Prod.mk.inj (hread.symm.trans hdrop)).1]
        rfl
      · rw [(Prod.mk.inj (hread.symm.trans hpass)).1]
        rfl
    rw [hpids] at hp
    simp [knownAfter, ToMngr.mayKnow, hp]

theorem Departed.mngrPrompt (hc : Consistent n) (h : Departed n) {line : MngrLine}
    (hin : (NetEvent.mngrPrompt line).InTable n) (hrun : n.mngrPrompt line = some n') : Departed n' := by
  simp only [Network.mngrPrompt] at hrun
  split at hrun
  · cases hrun
  cases line with
  | link argv =>
    obtain rfl := Option.some.inj hrun
    refine h.ofManager none rfl rfl rfl fun p hp => ?_
    obtain ⟨hknown | ⟨_, _, hcall⟩, -⟩ := mem_pids_of_runMngrCall (c := .link argv) hc rfl hp
    · exact decide_eq_true hknown
    · cases hcall
  | unlink argv br1 =>
    obtain rfl := Option.some.inj hrun
    refine h.ofManager none rfl rfl rfl fun p hp => ?_
    obtain ⟨hknown | ⟨_, _, hcall⟩, -⟩ := mem_pids_of_runMngrCall (c := .unlink argv br1) hc rfl hp
    · exact decide_eq_true hknown
    · cases hcall
  | ring => exact hin.elim
  | exit =>
    obtain rfl := Option.some.inj hrun
    exact h.ofManager none rfl rfl rfl fun p hp => decide_eq_true hp

theorem Departed.step {e : NetEvent} (hc : Consistent n) (h : Departed n) (hstep : NetStep e n n') :
    Departed n' := by
  obtain ⟨hin, fuel, hrun⟩ := hstep
  cases e with
  | start pid => exact h.start hrun
  | bridge pid ready memory => exact h.bridgeLoop hc hrun
  | mngrRead memory => exact h.mngrRead hc hrun
  | mngrPrompt line => exact h.mngrPrompt hc hin hrun

theorem NetRun.departed {R : Network → NetEvent → Prop} (h : NetRun R n) : Departed n :=
  (h.invariant (P := fun n => Consistent n ∧ Departed n) ⟨.init, fun _ _ hb => nomatch hb⟩
    fun hP _ hstep => ⟨hP.1.step hstep, hP.2.step hP.1 hstep⟩).2

end Steps

/-! ## Forgotten -/

/-- In every run whose commands are in the tables, once the farewell of a process that has ended is read, the
manager has no record of it, and no wire leads from or to one of its ports. -/
theorem netReachable_forgotten (n : Network) (h : NetReachable n) :
    ∀ pid b, n.bridge pid = some b → b.shutdownFlag = true → .shutdown pid ∉ n.toMngr →
      pid ∉ n.mngr.pids ∧ ∀ p i e, i < lacpPortMax → n.mngr.otherEnd p i = some e → p ≠ pid ∧ e.1 ≠ pid := by
  intro pid b hb hended hread
  have hgone := NetRun.departed h pid b hb hended
  have hunknown : pid ∉ n.mngr.pids := by
    intro hknown
    rw [decide_eq_true hknown, knownAfter_true hread] at hgone
    cases hgone
  have hown : ∀ p i e, n.mngr.otherEnd p i = some e → p ≠ pid := by
    rintro p i e he rfl
    rw [otherEnd_of_notMem hunknown] at he
    cases he
  refine ⟨hunknown, fun p i e hi he => ⟨hown p i e he, ?_⟩⟩
  have hback := (NetRun.consistent h).otherEnd_symm hi he
  exact hown e.1 e.2 (p, i) hback

/-- Two bridges are wired, and one of them is told to exit. -/
def departureRun : List NetEvent :=
  let read := .mngrRead (some fun _ => .zero)
  [.start 77, .start 88, read, read,
    .mngrPrompt (.link [['l'], ['B', '7', '7'], ['0'], ['B', '8', '8'], ['0']]),
    .bridge 88 (.input (some .exit) false) fun _ => 0, read]

theorem departureRun_forgotten :
    ∃ n b, NetReachable n ∧ n.bridge 88 = some b ∧ b.shutdownFlag = true ∧ 77 ∈ n.mngr.pids ∧
      88 ∉ n.mngr.pids := by
  have hrun : (runEvents (fun _ => true) 40 initNetwork departureRun).any (fun n =>
      (n.bridge 88).any fun b => decide (b.shutdownFlag = true ∧ .shutdown 88 ∉ n.toMngr ∧
        77 ∈ n.mngr.pids)) = true := by
    decide +kernel
  obtain ⟨n, h, hresult⟩ := exists_netRun_of_runEvents (R := fun _ => True) (fun _ _ => trivial) hrun
  obtain ⟨b, hb, hstate⟩ := (Option.any_eq_true ..).mp hresult
  obtain ⟨hended, hread, hother⟩ := of_decide_eq_true hstate
  exact ⟨n, b, h, hb, hended, hother, (netReachable_forgotten n h 88 b hb hended hread).1⟩

end Lacp
