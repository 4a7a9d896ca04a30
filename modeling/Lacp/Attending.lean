import Lacp.Library.Session
import Lacp.Bridge
import Lacp.Hearing
import Lacp.LinkStates

/-!
# What a bridge knows of its wires

Reference: `bridge_control`, `bridge_rx_bpdu`, `read_ipc` and `main_loop` of `bridge.c`.

A bridge learns of the wire of a port from the control messages alone. `Attends sent i v b` says that what
it made of them is right for the other end `v`: the bit in `enabled_ports` and the status in `g_port_list`
say whether there is one, and what the port processed last came from there. Reading the next message of a
trail keeps this for the end that the trail leads to (`Attends.readIpc`), and so does everything that a
bridge does on its own (`Attends.own`).
-/

namespace Lacp

open Session

/-- An end of a wire: the process of a bridge, and the index of a port. -/
abbrev WireEnd := Int64 × ℕ

/-- What a message says to port `i` of the bridge that reads it. -/
def ToBridge.signal (i : ℕ) : ToBridge → Option (Signal BrIpcMsg)
  | .cntrl .portConnect port => if port = i then some .connect else none
  | .cntrl .portDisconnect port => if port = i then some .disconnect else none
  | .cntrl .bridgeShutdown _ | .cntrl .bridgeHandshake _ => none
  | .bpdu msg => if msg.header.destinationPort = i then some (.data msg) else none

/-- The message is for a port that the bridge has, if it is for a port. -/
def ToBridge.ForPort : ToBridge → Prop
  | .cntrl .portConnect port | .cntrl .portDisconnect port => ∃ k < lacpPortMax, port = (k : ℕ)
  | .cntrl .bridgeShutdown _ | .cntrl .bridgeHandshake _ => True
  | .bpdu msg => ∃ k < lacpPortMax, msg.header.destinationPort = (k : ℕ)

/-- The BPDU of the message is a frame that the end has sent. -/
def Carries (sent : WireEnd → List LacpPdu) (e : WireEnd) (msg : BrIpcMsg) : Prop :=
  ∃ pdu ∈ sent e, msg.bpdu = pdu.image.bytes

/-- What the bridge knows of the wire of port `i` is right if `v` is the other end. -/
structure Attends (sent : WireEnd → List LacpPdu) (i : ℕ) (v : Option WireEnd) (b : Bridge) : Prop where
  heard : HeardFrom i (v.elim [] sent) b.world
  enabled : lacpBitmapGetBit b.enabledPorts i = v.isSome
  linkStatus : trunkSspGetPortLinkStatus b.world i = if v.isSome then 1 else 0

/-- The calls that a bridge makes when it is told nothing. -/
def Call.isOwn : Call → Bool
  | .setPortLinkStatus _ _ | .rxLacpdu _ _ _ => false
  | _ => true

section Own

variable {sent sent' : WireEnd → List LacpPdu} {i : ℕ} {v : Option WireEnd} {b b' : Bridge} {c : Call}

/-- The ends may send more. -/
theorem Attends.mono (hsub : ∀ e, sent e ⊆ sent' e) (h : Attends sent i v b) : Attends sent' i v b where
  heard := h.heard.mono (by
    cases v with
    | none => exact List.Subset.refl _
    | some e => exact hsub e)
  enabled := h.enabled
  linkStatus := h.linkStatus

/-- A call that is no news of the wire, and delivers only frames from its other end. -/
theorem Attends.step (hw : Reachable b.world) (h : Attends sent i v b)
    (hdelivers : c.Delivers i (v.elim [] sent)) (hstatus : ∀ s, c ≠ .setPortLinkStatus i s)
    (hstep : Step c b.world b'.world) (hports : b'.enabledPorts = b.enabledPorts) :
    Attends sent i v b' where
  heard := h.heard.step hw hdelivers hstep
  enabled := hports ▸ h.enabled
  linkStatus := (linkStatus_of_step hstep hstatus).trans h.linkStatus

theorem Attends.own (hw : Reachable b.world) (h : Attends sent i v b) (hc : c.isOwn = true)
    (hstep : Step c b.world b'.world) (hports : b'.enabledPorts = b.enabledPorts) :
    Attends sent i v b' := by
  refine h.step hw ?_ ?_ hstep hports
  · cases c with
    | rxLacpdu => cases hc
    | _ => trivial
  · rintro s rfl
    cases hc

theorem Attends.init (sent : WireEnd → List LacpPdu) (i : ℕ) (pid : Int64) :
    Attends sent i none (bridgeStart pid) where
  heard := .init i _ _
  enabled := lacpBitmapGetBit_clear i
  linkStatus := rfl

end Own

/-! ## Control messages -/

section Control

variable {w w' : World} {fuel k : ℕ} {linkStatus : UInt32}

theorem toUint32_natCast (hk : k < lacpPortMax) : toUint32 (k : ℤ) = k := by
  simp only [lacpPortMax] at hk
  simp only [toUint32]
  omega

/-- What `PORT_CONNECT` and `PORT_DISCONNECT` do to the engine and to `g_port_list` is two calls. -/
structure Relinked (k : ℕ) (linkStatus : UInt32) (w w' : World) : Prop where
  steps : ∃ u, Step (.portLinkChange (k / 8) (k % 8 + 1) linkStatus) w u ∧
    Step (.setPortLinkStatus k linkStatus) u w'
  link : LinkIs k (linkStatus != 0) w'
  linkStatus : trunkSspGetPortLinkStatus w' k = linkStatus

theorem relinked_of_bridgePortControl (hw : Reachable w) (hk : k < lacpPortMax)
    (hrun : bridgePortControl fuel w k linkStatus = some w') : Relinked k linkStatus w w' := by
  simp only [bridgePortControl, toUint32_natCast hk, lacpSspChangeToSlotPort] at hrun
  obtain ⟨⟨u, ret⟩, hchange, rfl⟩ := Option.map_eq_some_iff.mp hrun
  have hlt : k < 4 := hk
  have hrange : (Call.portLinkChange (k / 8) (k % 8 + 1) linkStatus).InRange :=
    ⟨by omega, by omega, by omega⟩
  have hindex : globalIndex (k / 8) (k % 8 + 1) = k := by
    simp only [globalIndex]
    omega
  have hlink := linkIs_of_trunkPortLinkChange hw hrange hchange
  rw [hindex] at hlink
  refine ⟨⟨u, ⟨hrange, fuel, ret, hchange⟩, ?_, fuel, .ok, rfl⟩, hlink, ?_⟩
  · show k < 144
    omega
  · simp [trunkSspGetPortLinkStatus, trunkSspSetPortLinkStatus]

namespace Relinked

theorem reachable (hw : Reachable w) (h : Relinked k linkStatus w w') : Reachable w' := by
  obtain ⟨u, hchange, hstore⟩ := h.steps
  exact (hw.step trivial hchange).step trivial hstore

/-- No frame is delivered. -/
theorem heardFrom {i : ℕ} {sent : List LacpPdu} (hw : Reachable w) (h : Relinked k linkStatus w w')
    (hheard : HeardFrom i sent w) : HeardFrom i sent w' := by
  obtain ⟨u, hchange, hstore⟩ := h.steps
  exact (hheard.step hw (c := .portLinkChange _ _ _) trivial hchange).step (hw.step trivial hchange)
    (c := .setPortLinkStatus _ _) trivial hstore

/-- The status of the other ports is what it was. -/
theorem linkStatus_of_ne {i : ℕ} (h : Relinked k linkStatus w w') (hi : i ≠ k) :
    trunkSspGetPortLinkStatus w' i = trunkSspGetPortLinkStatus w i := by
  obtain ⟨u, hchange, hstore⟩ := h.steps
  have hfirst := linkStatus_of_step (i := i) hchange fun _ hc => nomatch hc
  refine (linkStatus_of_step hstore fun s hc => ?_).trans hfirst
  exact hi (Call.setPortLinkStatus.inj hc).1.symm

theorem sentFrames_subset (hw : Reachable w) (h : Relinked k linkStatus w w') (i : ℕ) :
    sentFrames w i ⊆ sentFrames w' i := by
  obtain ⟨u, hchange, hstore⟩ := h.steps
  exact List.Subset.trans (sentFrames_subset_of_step hw hchange i)
    (sentFrames_subset_of_step (hw.step trivial hchange) hstore i)

/-- The engine and `g_port_list` agree afterwards where they agreed before, and on the port in any case. -/
theorem linkAgrees {i : ℕ} (hw : Reachable w) (h : Relinked k linkStatus w w') (hagrees : LinkAgrees i w) :
    LinkAgrees i w' := by
  by_cases hi : i = k
  · subst hi
    rw [LinkAgrees, h.linkStatus]
    exact h.link
  · obtain ⟨u, hchange, hstore⟩ := h.steps
    have hindex : globalIndex (k / 8) (k % 8 + 1) = k := by
      simp only [globalIndex]
      omega
    refine (hagrees.step hw ?_ hchange).step (hw.step trivial hchange) ?_ hstore
    · exact fun hsets => hi (hsets.symm.trans hindex)
    · exact fun hsets => hi hsets.symm

end Relinked

end Control

/-! ## Reading a message -/

section ReadIpc

variable {sent : WireEnd → List LacpPdu} {i k fuel : ℕ} {v u : Option WireEnd} {b b' : Bridge}
  {msg : ToBridge} {l : List (Signal BrIpcMsg)}

theorem natCast_ne (h : i ≠ k) : (k : ℤ) ≠ i := by omega

/-- `PORT_CONNECT` for port `k`. -/
theorem Attends.portConnect (hw : Reachable b.world) (hk : k < lacpPortMax)
    (hrun : bridgeControl fuel b k .portConnect = some b') (h : Attends sent i v b)
    (htrail : Trail (Carries sent) v (((ToBridge.cntrl .portConnect k).signal i).toList ++ l) u) :
    ∃ v', Trail (Carries sent) v' l u ∧ Attends sent i v' b' := by
  obtain ⟨w', hcontrol, rfl⟩ := Option.map_eq_some_iff.mp hrun
  have hrelinked := relinked_of_bridgePortControl hw hk hcontrol
  by_cases hi : i = k
  · subst hi
    obtain ⟨e, hv, htrail⟩ := (show Trail _ v (.connect :: l) u by simpa [ToBridge.signal] using htrail).of_connect
    refine ⟨some e, htrail, hrelinked.heardFrom hw (h.heard.mono ?_), ?_, hrelinked.linkStatus⟩
    · rcases hv with rfl | rfl
      · exact List.nil_subset _
      · exact List.Subset.refl _
    · simp
  · refine ⟨v, ?_, hrelinked.heardFrom hw h.heard, ?_, ?_⟩
    · simpa [ToBridge.signal, natCast_ne hi] using htrail
    · simpa [hi] using h.enabled
    · exact (hrelinked.linkStatus_of_ne hi).trans h.linkStatus

/-- `PORT_DISCONNECT` for port `k`. -/
theorem Attends.portDisconnect (hw : Reachable b.world) (hk : k < lacpPortMax)
    (hrun : bridgeControl fuel b k .portDisconnect = some b') (h : Attends sent i v b)
    (htrail : Trail (Carries sent) v (((ToBridge.cntrl .portDisconnect k).signal i).toList ++ l) u) :
    ∃ v', Trail (Carries sent) v' l u ∧ Attends sent i v' b' := by
  obtain ⟨w', hcontrol, rfl⟩ := Option.map_eq_some_iff.mp hrun
  have hrelinked := relinked_of_bridgePortControl hw hk hcontrol
  by_cases hi : i = k
  · subst hi
    refine ⟨none, (show Trail _ v (.disconnect :: l) u by simpa [ToBridge.signal] using htrail).of_disconnect,
      .of_linkDown (hrelinked.reachable hw) hrelinked.link, ?_, hrelinked.linkStatus⟩
    simp
  · refine ⟨v, ?_, hrelinked.heardFrom hw h.heard, ?_, ?_⟩
    · simpa [ToBridge.signal, natCast_ne hi] using htrail
    · simpa [hi] using h.enabled
    · exact (hrelinked.linkStatus_of_ne hi).trans h.linkStatus

/-- A BPDU for port `k` is a call that delivers what the other end of the wire has sent. -/
theorem step_of_bridgeRxBpdu {msg : BrIpcMsg} (hk : k < lacpPortMax)
    (hport : msg.header.destinationPort = (k : ℤ)) (hrun : bridgeRxBpdu fuel b msg = some b') :
    Step (.rxLacpdu (k / 8) (k % 8 + 1) (.ofBytes msg.bpdu)) b.world b'.world ∧
      b' = { b with world := b'.world } := by
  simp only [bridgeRxBpdu, hport, toUint32_natCast hk, lacpSspChangeToSlotPort] at hrun
  obtain ⟨⟨w', ret⟩, hreceive, rfl⟩ := Option.map_eq_some_iff.mp hrun
  have hlt : k < 4 := hk
  exact ⟨⟨⟨by omega, by omega, by omega⟩, fuel, ret, hreceive⟩, rfl⟩

theorem Attends.rxBpdu {msg : BrIpcMsg} (hw : Reachable b.world) (hk : k < lacpPortMax)
    (hport : msg.header.destinationPort = (k : ℤ)) (hrun : bridgeRxBpdu fuel b msg = some b')
    (h : Attends sent i v b)
    (htrail : Trail (Carries sent) v (((ToBridge.bpdu msg).signal i).toList ++ l) u) :
    ∃ v', Trail (Carries sent) v' l u ∧ Attends sent i v' b' := by
  obtain ⟨hstep, hb'⟩ := step_of_bridgeRxBpdu hk hport hrun
  have hindex : globalIndex (k / 8) (k % 8 + 1) = k := by
    simp only [globalIndex]
    omega
  have hports : b'.enabledPorts = b.enabledPorts := by rw [hb']
  by_cases hi : i = k
  · subst hi
    obtain ⟨e, rfl, ⟨pdu, hpdu, hbytes⟩, htrail⟩ :=
      (show Trail _ v (.data msg :: l) u by simpa [ToBridge.signal, hport] using htrail).of_data
    refine ⟨some e, htrail, h.step hw ?_ (fun _ hc => by cases hc) hstep hports⟩
    intro _
    rw [hbytes, LacpPdu.ofBytes_image]
    exact hpdu
  · refine ⟨v, ?_, h.step hw ?_ (fun _ hc => by cases hc) hstep hports⟩
    · simpa [ToBridge.signal, hport, natCast_ne hi] using htrail
    · exact fun heq => absurd (heq.symm.trans hindex) hi

/-- A bridge that reads the next message of a trail knows what the rest of the trail starts from. -/
theorem Attends.readIpc (hw : Reachable b.world) (hport : msg.ForPort)
    (hrun : b.readIpc fuel msg = some b') (h : Attends sent i v b)
    (htrail : Trail (Carries sent) v ((msg.signal i).toList ++ l) u) :
    ∃ v', Trail (Carries sent) v' l u ∧ Attends sent i v' b' := by
  cases msg with
  | bpdu msg =>
    obtain ⟨k, hk, hport⟩ := hport
    exact h.rxBpdu hw hk hport hrun htrail
  | cntrl cmd port =>
    cases cmd with
    | portConnect =>
      obtain ⟨k, hk, rfl⟩ := hport
      exact h.portConnect hw hk hrun htrail
    | portDisconnect =>
      obtain ⟨k, hk, rfl⟩ := hport
      exact h.portDisconnect hw hk hrun htrail
    | bridgeShutdown | bridgeHandshake =>
      obtain rfl := Option.some.inj hrun
      exact ⟨v, htrail, h.heard, h.enabled, h.linkStatus⟩

end ReadIpc

/-! ## An iteration of the main loop -/

/-- The calls that a bridge makes when it reads a message. -/
def Call.isTold : Call → Bool
  | .portLinkChange _ _ _ | .setPortLinkStatus _ _ | .rxLacpdu _ _ _ => true
  | _ => false

/-- The bridge made calls that meet the condition `Q`, and nothing else happened to its engine. -/
structure Bridge.Ran (Q : Call → Prop) (b b' : Bridge) : Prop where
  myPid : b'.myPid = b.myPid
  steps : Relation.ReflTransGen (fun w w' => ∃ c, Q c ∧ Step c w w') b.world b'.world

/-- The bridge did what no message told it. -/
structure Bridge.RanOwn (b b' : Bridge) (c : Option Call) : Prop where
  myPid : b'.myPid = b.myPid
  enabledPorts : b'.enabledPorts = b.enabledPorts
  own : ∀ c' ∈ c, c'.isOwn = true
  step : c.elim (b'.world = b.world) fun c => Step c b.world b'.world

/-- The call that an iteration makes before it reads a message. -/
def Ready.call : Ready → Option Call
  | .timeout => some .oneSecond
  | .input (some (.call c)) _ => some c
  | .input (some .exit) _ | .input none _ => none

section MainLoop

variable {sent : WireEnd → List LacpPdu} {i fuel : ℕ} {v u : Option WireEnd} {b b' b'' : Bridge}
  {queue queue' : List ToBridge} {ready : Ready} {msg : ToBridge} {w w' : World} {Q Q' : Call → Prop}

namespace Bridge.Ran

/-- What the calls keep, the bridge keeps. -/
theorem invariant {P : World → Prop} (h : b.Ran Q b')
    (step : ∀ {w w' c}, P w → Q c → Step c w w' → P w') (hb : P b.world) : P b'.world := by
  have hsteps := h.steps
  generalize b'.world = w at hsteps
  induction hsteps with
  | refl => exact hb
  | tail _ hstep ih =>
    obtain ⟨c, hc, hstep⟩ := hstep
    exact step ih hc hstep

theorem reachable (hw : Reachable b.world) (h : b.Ran Q b') : Reachable b'.world :=
  h.invariant (fun hw _ hstep => hw.step trivial hstep) hw

theorem sentFrames_subset (hw : Reachable b.world) (h : b.Ran Q b') (i : ℕ) :
    sentFrames b.world i ⊆ sentFrames b'.world i :=
  (h.invariant (P := fun w => Reachable w ∧ sentFrames b.world i ⊆ sentFrames w i)
    (fun hP _ hstep => ⟨hP.1.step trivial hstep,
      List.Subset.trans hP.2 (sentFrames_subset_of_step hP.1 hstep i)⟩) ⟨hw, List.Subset.refl _⟩).2

theorem mono (hQ : ∀ c, Q c → Q' c) (h : b.Ran Q b') : b.Ran Q' b' :=
  ⟨h.myPid, h.steps.lift id fun _ _ ⟨c, hc, hstep⟩ => ⟨c, hQ c hc, hstep⟩⟩

theorem trans (h : b.Ran Q b') (h' : b'.Ran Q b'') : b.Ran Q b'' :=
  ⟨h'.myPid.trans h.myPid, h.steps.trans h'.steps⟩

end Bridge.Ran

theorem Bridge.RanOwn.ran {c : Option Call} (h : b.RanOwn b' c) : b.Ran (· ∈ c) b' := by
  refine ⟨h.myPid, ?_⟩
  have hstep := h.step
  cases c with
  | none =>
    rw [show b'.world = b.world from hstep]
  | some c => exact .single ⟨c, rfl, hstep⟩

theorem Attends.ranOwn {c : Option Call} (hw : Reachable b.world) (h : Attends sent i v b)
    (hown : b.RanOwn b' c) : Attends sent i v b' := by
  cases c with
  | none =>
    have hworld : b'.world = b.world := hown.step
    exact ⟨hworld ▸ h.heard, hown.enabledPorts ▸ h.enabled, hworld ▸ h.linkStatus⟩
  | some c => exact h.own hw (hown.own c rfl) hown.step hown.enabledPorts

theorem ran_readIpc (hport : msg.ForPort) (hw : Reachable b.world) (hrun : b.readIpc fuel msg = some b') :
    b.Ran (fun c => c.isTold = true) b' := by
  cases msg with
  | bpdu msg =>
    obtain ⟨k, hk, hport⟩ := hport
    obtain ⟨hstep, hb'⟩ := step_of_bridgeRxBpdu hk hport hrun
    exact ⟨by rw [hb'], .single ⟨_, rfl, hstep⟩⟩
  | cntrl cmd port =>
    cases cmd with
    | portConnect | portDisconnect =>
      obtain ⟨k, hk, rfl⟩ := hport
      obtain ⟨w', hcontrol, rfl⟩ := Option.map_eq_some_iff.mp hrun
      obtain ⟨u, hchange, hstore⟩ := (relinked_of_bridgePortControl hw hk hcontrol).steps
      exact ⟨rfl, .tail (.single ⟨_, rfl, hchange⟩) ⟨_, rfl, hstore⟩⟩
    | bridgeShutdown | bridgeHandshake =>
      obtain rfl := Option.some.inj hrun
      exact ⟨rfl, .refl⟩

theorem ranOwn_readCli {line : PromptLine} {message : Bool} (hready : (Ready.input (some line) message).InRange)
    (hrun : b.readCli fuel line = some b') :
    b.RanOwn b' (Ready.input (some line) message).call := by
  cases line with
  | exit =>
    obtain rfl := Option.some.inj hrun
    exact ⟨rfl, rfl, fun _ hc => (nomatch hc), rfl⟩
  | call c =>
    simp only [Bridge.readCli] at hrun
    split at hrun
    · rename_i hcommand
      obtain ⟨⟨w, ret⟩, hcall, rfl⟩ := Option.map_eq_some_iff.mp hrun
      refine ⟨rfl, rfl, ?_, hready, fuel, ret, hcall⟩
      intro c' hc'
      obtain rfl := Option.some.inj hc'
      cases c with
      | setPortLinkStatus | rxLacpdu => cases hcommand
      | _ => rfl
    · cases hrun

/-- An iteration is a call of the bridge's own, or none, and then the next message, or none. -/
theorem mainLoop_cases (hready : ready.InRange) (hrun : b.mainLoop fuel queue ready = some (b', queue')) :
    ∃ u, b.RanOwn u ready.call ∧
      ((b' = u ∧ queue' = queue) ∨ ∃ msg, queue = msg :: queue' ∧ u.readIpc fuel msg = some b') := by
  cases ready with
  | timeout =>
    obtain ⟨w, hsecond, hend⟩ := Option.map_eq_some_iff.mp hrun
    obtain ⟨rfl, rfl⟩ := Prod.mk.inj hend
    refine ⟨{ b with world := w }, ⟨rfl, rfl, ?_, trivial, fuel, .ok, ?_⟩, .inl ⟨rfl, rfl⟩⟩
    · intro c hc
      obtain rfl := Option.some.inj hc
      rfl
    · exact congrArg (Option.map fun w => (w, LacpRet.ok)) hsecond
  | input line message =>
    obtain ⟨u, hline, hmessage⟩ := Option.bind_eq_some_iff.mp hrun
    have hown : b.RanOwn u (Ready.input line message).call := by
      cases line with
      | none =>
        obtain rfl := Option.some.inj hline
        exact ⟨rfl, rfl, fun _ hc => (nomatch hc), rfl⟩
      | some line => exact ranOwn_readCli hready hline
    refine ⟨u, hown, ?_⟩
    split at hmessage
    · obtain ⟨msg, hmsg, hmessage⟩ := Option.bind_eq_some_iff.mp hmessage
      obtain ⟨v, hread, hend⟩ := Option.bind_eq_some_iff.mp hmessage
      obtain ⟨rfl, rfl⟩ := Prod.mk.inj (Option.some.inj hend)
      exact .inr ⟨msg, (List.cons_head?_tail hmsg).symm, hread⟩
    · obtain ⟨rfl, rfl⟩ := Prod.mk.inj (Option.some.inj hmessage)
      exact .inl ⟨rfl, rfl⟩

/-- An iteration of a bridge whose messages are for its ports is a run of calls: its own call, and what
it is told. -/
theorem ran_mainLoop (hw : Reachable b.world) (hready : ready.InRange) (hqueue : ∀ msg ∈ queue, msg.ForPort)
    (hrun : b.mainLoop fuel queue ready = some (b', queue')) :
    b.Ran (fun c => c ∈ ready.call ∨ c.isTold = true) b' := by
  obtain ⟨u, hown, ⟨rfl, -⟩ | ⟨msg, rfl, hread⟩⟩ := mainLoop_cases hready hrun
  · exact hown.ran.mono fun _ => .inl
  · have hread := ran_readIpc (hqueue msg List.mem_cons_self) (hown.ran.reachable hw) hread
    exact (hown.ran.mono fun _ => .inl).trans (hread.mono fun _ => .inr)

/-- After an iteration the bridge knows of its wires what the messages say that it has read. -/
theorem Attends.mainLoop (hw : Reachable b.world) (hready : ready.InRange)
    (hqueue : ∀ msg ∈ queue, msg.ForPort) (hrun : b.mainLoop fuel queue ready = some (b', queue'))
    (h : Attends sent i v b) (htrail : Trail (Carries sent) v (queue.filterMap (ToBridge.signal i)) u) :
    ∃ v', Trail (Carries sent) v' (queue'.filterMap (ToBridge.signal i)) u ∧ Attends sent i v' b' := by
  obtain ⟨x, hown, ⟨rfl, rfl⟩ | ⟨msg, rfl, hread⟩⟩ := mainLoop_cases hready hrun
  · exact ⟨v, htrail, h.ranOwn hw hown⟩
  · refine (h.ranOwn hw hown).readIpc (hown.ran.reachable hw) (hqueue msg List.mem_cons_self) hread ?_
    rw [List.filterMap_cons] at htrail
    cases hsignal : msg.signal i with
    | none =>
      rw [hsignal] at htrail
      exact htrail
    | some signal =>
      rw [hsignal] at htrail
      exact htrail

/-- An iteration without a link command keeps the engine and `g_port_list` in agreement. -/
theorem LinkAgrees.mainLoop (hw : Reachable b.world) (hready : ready.InRange)
    (hqueue : ∀ msg ∈ queue, msg.ForPort) (hrun : b.mainLoop fuel queue ready = some (b', queue'))
    (hcommand : ∀ c ∈ ready.call, c.isLinkChange = false) (h : LinkAgrees i b.world) :
    LinkAgrees i b'.world := by
  have hfirst : ∀ x, b.RanOwn x ready.call → LinkAgrees i x.world := by
    intro x hown
    cases hcall : ready.call with
    | none =>
      have hworld : x.world = b.world := by
        have hstep := hown.step
        rwa [hcall] at hstep
      rw [hworld]
      exact h
    | some c =>
      have hstep := hown.step
      rw [hcall] at hstep
      have hc := hown.own c hcall
      have hlink := hcommand c hcall
      refine h.step hw (fun hsets => ?_) hstep
      cases c with
      | portLinkChange => cases hlink
      | setPortLinkStatus => cases hc
      | _ => exact hsets
  obtain ⟨x, hown, ⟨rfl, rfl⟩ | ⟨msg, rfl, hread⟩⟩ := mainLoop_cases hready hrun
  · exact hfirst _ hown
  · have hx := hown.ran.reachable hw
    have hport := hqueue msg List.mem_cons_self
    cases msg with
    | bpdu msg =>
      obtain ⟨k, hk, hport⟩ := hport
      exact (hfirst x hown).step hx (c := .rxLacpdu _ _ _) id (step_of_bridgeRxBpdu hk hport hread).1
    | cntrl cmd port =>
      cases cmd with
      | portConnect | portDisconnect =>
        obtain ⟨k, hk, rfl⟩ := hport
        obtain ⟨w', hcontrol, rfl⟩ := Option.map_eq_some_iff.mp hread
        exact (relinked_of_bridgePortControl hx hk hcontrol).linkAgrees hx (hfirst x hown)
      | bridgeShutdown | bridgeHandshake =>
        obtain rfl := Option.some.inj hread
        exact hfirst x hown

end MainLoop

end Lacp
