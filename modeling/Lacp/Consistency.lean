import Lacp.Registry

/-!
# The invariant of the network

Reference: `mngr.c`, `bridge.c`.

Wires come and go while frames and control messages are on their way, and every process acts on what it has
read so far. Still a bridge never takes a frame for one of another wire: what waits for a port is a trail
from the other end that the bridge knows to the one that the manager knows, and everything on it comes from
the end that is connected at that point (`Consistent.attends`).

The invariant is kept by every step of every process (`Consistent.step`). A bridge changes what its own end
has sent, and what waits in its own queue (`Consistent.ofBridge`); the manager changes wires, and what it
sends about them is a trail (`Consistent.ofManager`).
-/

namespace Lacp

open Session

/-! ## The invariant -/

/-- What the port at the end of a wire has sent. -/
def Network.sentBy (n : Network) (e : WireEnd) : List LacpPdu :=
  (n.bridge e.1).elim [] fun b => sentFrames b.world e.2

/-- The process that says hello. -/
def ToMngr.greets : ToMngr → Option Int64
  | .handshake pid _ => some pid
  | .shutdown _ | .bpdu _ => none

/-- The message is what a bridge sends. -/
def ToMngr.Genuine (n : Network) : ToMngr → Prop
  | .handshake _ param1 => param1 = bridgeNumberOfPorts
  | .shutdown pid => ∃ b, n.bridge pid = some b ∧ b.shutdownFlag = true
  | .bpdu msg => ∃ i < lacpPortMax, msg.header.sourcePort = (i : ℕ) ∧
      Carries n.sentBy (msg.header.senderPid, i) msg

/-- The processes that have said hello: the manager has read it, or is going to. -/
def presentPids (toMngr : List ToMngr) (m : Mngr) : List Int64 :=
  toMngr.filterMap ToMngr.greets ++ m.pids

/-- What the manager keeps in order. -/
structure Ordered (n : Network) (toMngr : List ToMngr) (m : Mngr) : Prop where
  wired : Wired m
  ports : ∀ b ∈ m.brLst, (m.bridge b).numberOfPorts = lacpPortMax
  nodup : (presentPids toMngr m).Nodup
  started : ∀ pid ∈ presentPids toMngr m, (n.bridge pid).isSome = true
  genuine : ∀ msg ∈ toMngr, msg.Genuine n

/-- The invariant of the network. -/
structure Consistent (n : Network) : Prop extends Ordered n n.toMngr n.mngr where
  bridges : ∀ pid b, n.bridge pid = some b → b.myPid = pid ∧ Reachable b.world
  forPort : ∀ pid, ∀ msg ∈ n.toBridge pid, msg.ForPort
  unstarted : ∀ pid, n.bridge pid = none → n.toBridge pid = []
  attends : ∀ pid b, n.bridge pid = some b → b.shutdownFlag = false → ∀ i < lacpPortMax, ∃ v,
    Trail (Carries n.sentBy) v ((n.toBridge pid).filterMap (ToBridge.signal i)) (n.mngr.otherEnd pid i) ∧
      Attends n.sentBy i v b

section Frames

variable {n n' : Network} {w w' : World}

/-- Every frame that leaves a bridge leaves it at a port that the bridge has. -/
theorem ReachableBy.sentIndex {R : World → Call → Prop} (h : ReachableBy R w) :
    ∀ q pdu, Event.tx q pdu ∈ w.trace → q.portIndex < lacpPortMax := by
  refine h.invariant_of_effects
    (P := fun _ w => ∀ q pdu, Event.tx q pdu ∈ w.trace → q.portIndex < lacpPortMax)
    (fun _ _ _ hq => nomatch hq) fun {E w E' w' c} hc hP heffect => ?_
  rcases heffect.hop_or_trace_eq with hop | htrace
  · intro q pdu hq
    cases hop with
    | rx | sel =>
      rcases List.mem_cons.mp hq with heq | hq
      · cases heq
      · exact hP q pdu hq
    | mux =>
      rcases List.mem_append.mp hq with hq | hq
      · obtain ⟨_, heq⟩ := eq_hw_of_mem_muxWrites hq
        cases heq
      · rcases List.mem_cons.mp hq with heq | hq
        · cases heq
        · exact hP q pdu hq
    | @tx a s ha guard =>
      rcases List.mem_append.mp hq with hq | hq
      · obtain ⟨rfl, rfl⟩ := Event.tx.inj (eq_tx_of_mem_txSent hq)
        exact hc.index_lt a ha
      · rcases List.mem_cons.mp hq with heq | hq
        · cases heq
        · exact hP q pdu hq
  · rw [htrace]
    exact hP

/-- What an iteration hands to the socket was sent by one of the ports. -/
theorem mem_framesSince (hw : Reachable w') {frame : ℕ × List UInt8} (hframe : frame ∈ w.framesSince w') :
    frame.1 < lacpPortMax ∧ ∃ pdu ∈ sentFrames w' frame.1, frame.2 = pdu.image.bytes := by
  obtain ⟨e, he, hsent⟩ := List.mem_filterMap.mp hframe
  have he' : e ∈ w'.trace := List.mem_of_mem_take (List.mem_reverse.mp he)
  cases e with
  | tx q pdu =>
    obtain rfl := Option.some.inj hsent
    exact ⟨hw.sentIndex q pdu he', pdu, mem_sentFrames.mpr ⟨q, he', rfl⟩, rfl⟩
  | enter | hw => cases hsent

/-- The processes send more. -/
theorem Carries.mono (hsub : ∀ e, n.sentBy e ⊆ n'.sentBy e) {e : WireEnd} {msg : BrIpcMsg}
    (h : Carries n.sentBy e msg) : Carries n'.sentBy e msg :=
  let ⟨pdu, hpdu, hbytes⟩ := h
  ⟨pdu, hsub e hpdu, hbytes⟩

/-- A process that ends does not come back, and what was sent stays sent. -/
theorem ToMngr.Genuine.mono (hsub : ∀ e, n.sentBy e ⊆ n'.sentBy e)
    (hended : ∀ pid b, n.bridge pid = some b → b.shutdownFlag = true → n'.bridge pid = some b)
    {msg : ToMngr} (h : msg.Genuine n) : msg.Genuine n' := by
  cases msg with
  | handshake => exact h
  | shutdown pid =>
    obtain ⟨b, hb, hflag⟩ := h
    exact ⟨b, hended pid b hb hflag, hflag⟩
  | bpdu msg =>
    obtain ⟨i, hi, hport, hcarries⟩ := h
    exact ⟨i, hi, hport, hcarries.mono hsub⟩

/-- Nothing that a bridge sends in its main loop is a greeting. -/
theorem greets_sends (b b' : Bridge) (memory : ℕ → ℤ) :
    (b.sends b' memory).filterMap ToMngr.greets = [] := by
  refine List.filterMap_eq_nil_iff.mpr fun msg hmsg => ?_
  simp only [Bridge.sends, List.mem_append, List.mem_mapIdx] at hmsg
  rcases hmsg with ⟨k, hk, rfl⟩ | hmsg
  · rfl
  · split at hmsg
    · rw [List.mem_singleton.mp hmsg]
      rfl
    · cases hmsg

/-- Everything that a bridge sends in an iteration is genuine. -/
theorem genuine_sends {b b' : Bridge} {memory : ℕ → ℤ}
    (hb' : n.bridge b.myPid = some b') (hw : Reachable b'.world) {msg : ToMngr}
    (hmsg : msg ∈ b.sends b' memory) : msg.Genuine n := by
  simp only [Bridge.sends, List.mem_append, List.mem_mapIdx] at hmsg
  rcases hmsg with ⟨k, hk, rfl⟩ | hmsg
  · obtain ⟨hlt, pdu, hpdu, hbytes⟩ := mem_framesSince hw (List.getElem_mem hk)
    refine ⟨_, hlt, rfl, pdu, ?_, hbytes⟩
    show pdu ∈ (n.bridge b.myPid).elim [] _
    rw [hb']
    exact hpdu
  · split at hmsg
    · rw [List.mem_singleton.mp hmsg]
      exact ⟨b', hb', ‹_›⟩
    · cases hmsg

end Frames

/-! ## Steps of the bridges -/

section Steps

variable {n n' : Network} {pid : Int64} {fuel : ℕ}

theorem Consistent.init : Consistent initNetwork where
  wired := .init
  ports := fun _ hb => nomatch hb
  nodup := List.nodup_nil
  started := fun _ hpid => nomatch hpid
  genuine := fun _ hmsg => nomatch hmsg
  bridges := fun _ _ hb => nomatch hb
  forPort := fun _ _ hmsg => nomatch hmsg
  unstarted := fun _ _ => rfl
  attends := fun _ _ hb => nomatch hb

/-- A process that is not there has said nothing. -/
theorem Consistent.notMem_presentPids (h : Consistent n) (hb : n.bridge pid = none) :
    pid ∉ presentPids n.toMngr n.mngr := fun hpid => by
  have hstarted := h.started pid hpid
  rw [hb] at hstarted
  cases hstarted

/-- What the ends of wires have sent, when one process goes on. -/
theorem sentBy_subset_update {b' : Bridge}
    (hsub : ∀ b, n.bridge pid = some b → ∀ i, sentFrames b.world i ⊆ sentFrames b'.world i)
    (hbridge : n'.bridge = Function.update n.bridge pid (some b')) (e : WireEnd) :
    n.sentBy e ⊆ n'.sentBy e := by
  simp only [Network.sentBy, hbridge]
  by_cases he : e.1 = pid
  · rw [he, Function.update_self]
    cases hb : n.bridge pid with
    | none => exact List.nil_subset _
    | some b => exact hsub b hb e.2
  · rw [Function.update_of_ne he]
    exact List.Subset.refl _

/-- The process `pid` goes on, or starts, and sends something. -/
theorem Consistent.ofBridge (h : Consistent n) (pid : Int64) (b' : Bridge) (queue : List ToBridge)
    (sends : List ToMngr)
    (hold : ∀ b, n.bridge pid = some b →
      b.shutdownFlag = false ∧ ∀ i, sentFrames b.world i ⊆ sentFrames b'.world i)
    (hb' : b'.myPid = pid ∧ Reachable b'.world) (hnodup : (presentPids (n.toMngr ++ sends) n.mngr).Nodup)
    (hpresent : ∀ p ∈ presentPids (n.toMngr ++ sends) n.mngr, p = pid ∨ p ∈ presentPids n.toMngr n.mngr)
    (hgenuine : ∀ m : Network, m.bridge pid = some b' → ∀ msg ∈ sends, msg.Genuine m)
    (hqueue : queue ⊆ n.toBridge pid)
    (hattends : b'.shutdownFlag = false → ∀ i < lacpPortMax, ∃ v,
      Trail (Carries n.sentBy) v (queue.filterMap (ToBridge.signal i)) (n.mngr.otherEnd pid i) ∧
        Attends n.sentBy i v b') :
    Consistent { n with
      bridge := Function.update n.bridge pid (some b')
      toBridge := Function.update n.toBridge pid queue
      toMngr := n.toMngr ++ sends } := by
  set n' : Network := { n with
    bridge := Function.update n.bridge pid (some b')
    toBridge := Function.update n.toBridge pid queue
    toMngr := n.toMngr ++ sends } with hn'
  have hsub : ∀ e, n.sentBy e ⊆ n'.sentBy e := sentBy_subset_update (fun b hb => (hold b hb).2) rfl
  have hself : n'.bridge pid = some b' := Function.update_self ..
  have hselfQueue : n'.toBridge pid = queue := Function.update_self ..
  have hother : ∀ p, p ≠ pid → n'.bridge p = n.bridge p := fun p hp => Function.update_of_ne hp ..
  have hotherQueue : ∀ p, p ≠ pid → n'.toBridge p = n.toBridge p := fun p hp => Function.update_of_ne hp ..
  refine
    { wired := h.wired
      ports := h.ports
      nodup := hnodup
      started := fun p hp => ?_
      genuine := fun msg hmsg => ?_
      bridges := fun p b hb => ?_
      forPort := fun p msg hmsg => ?_
      unstarted := fun p hp => ?_
      attends := fun p b hb hrunning i hi => ?_ }
  · by_cases hpid : p = pid
    · rw [hpid, hself]
      rfl
    · rw [hother p hpid]
      exact h.started p ((hpresent p hp).resolve_left hpid)
  · rcases List.mem_append.mp hmsg with hmsg | hmsg
    · refine (h.genuine msg hmsg).mono hsub fun p b hb hended => ?_
      have hne : p ≠ pid := by
        rintro rfl
        exact absurd (hended.symm.trans (hold b hb).1) (by simp)
      rw [hother p hne, hb]
    · exact hgenuine n' hself msg hmsg
  · by_cases hpid : p = pid
    · subst hpid
      obtain rfl := Option.some.inj (hself.symm.trans hb)
      exact hb'
    · exact h.bridges p b (hother p hpid ▸ hb)
  · by_cases hpid : p = pid
    · subst hpid
      rw [hselfQueue] at hmsg
      exact h.forPort p msg (hqueue hmsg)
    · rw [hotherQueue p hpid] at hmsg
      exact h.forPort p msg hmsg
  · have hne : p ≠ pid := by
      rintro rfl
      rw [hself] at hp
      cases hp
    rw [hotherQueue p hne]
    exact h.unstarted p (hother p hne ▸ hp)
  · by_cases hpid : p = pid
    · subst hpid
      obtain rfl := Option.some.inj (hself.symm.trans hb)
      obtain ⟨v, htrail, hv⟩ := hattends hrunning i hi
      rw [hselfQueue]
      exact ⟨v, htrail.mono fun _ _ => Carries.mono hsub, hv.mono hsub⟩
    · obtain ⟨v, htrail, hv⟩ := h.attends p b (hother p hpid ▸ hb) hrunning i hi
      rw [hotherQueue p hpid]
      exact ⟨v, htrail.mono fun _ _ => Carries.mono hsub, hv.mono hsub⟩

theorem Consistent.start (h : Consistent n) (hrun : n.start pid = some n') : Consistent n' := by
  simp only [Network.start] at hrun
  split at hrun
  · cases hrun
  rename_i hnew
  rw [Option.not_isSome_iff_eq_none] at hnew
  obtain rfl := Option.some.inj hrun
  have hfree := h.notMem_presentPids hnew
  have hgreets : presentPids (n.toMngr ++ [bridgeHandshake pid]) n.mngr =
      n.toMngr.filterMap ToMngr.greets ++ pid :: n.mngr.pids := by
    simp [presentPids, bridgeHandshake, ToMngr.greets]
  have hbridge := h.ofBridge pid (bridgeStart pid) (n.toBridge pid) [bridgeHandshake pid]
    (fun b hb => by rw [hnew] at hb; cases hb) ⟨rfl, .init _⟩ ?_ ?_ ?_ (List.Subset.refl _) ?_
  · rwa [Function.update_eq_self] at hbridge
  · rw [hgreets, List.nodup_middle]
    exact List.nodup_cons.mpr ⟨hfree, h.nodup⟩
  · intro p hp
    rw [hgreets, List.mem_append, List.mem_cons] at hp
    rw [presentPids, List.mem_append]
    tauto
  · intro m _ msg hmsg
    rw [List.mem_singleton.mp hmsg]
    rfl
  · intro _ i _
    refine ⟨none, ?_, .init _ i pid⟩
    rw [h.unstarted pid hnew, otherEnd_of_notMem (fun hin => hfree (List.mem_append_right _ hin)) i]
    exact .nil none

theorem Consistent.bridgeLoop (h : Consistent n) {ready : Ready} (hready : ready.InRange)
    {memory : ℕ → ℤ} (hrun : n.bridgeLoop fuel pid ready memory = some n') : Consistent n' := by
  obtain ⟨b, hb, hrun⟩ := Option.bind_eq_some_iff.mp hrun
  dsimp only at hrun
  split at hrun
  · cases hrun
  rename_i hflag
  obtain ⟨⟨b', queue⟩, hloop, hend⟩ := Option.bind_eq_some_iff.mp hrun
  obtain rfl := Option.some.inj hend
  have hrunning : b.shutdownFlag = false := Bool.eq_false_of_not_eq_true hflag
  obtain ⟨rfl, hw⟩ := h.bridges _ b hb
  have hran := ran_mainLoop hw hready (h.forPort _) hloop
  have hpresent : presentPids (n.toMngr ++ b.sends b' memory) n.mngr = presentPids n.toMngr n.mngr := by
    simp only [presentPids, List.filterMap_append, greets_sends, List.append_nil]
  refine h.ofBridge _ b' queue _ (fun c hc => ?_) ⟨hran.myPid, hran.reachable hw⟩ (hpresent ▸ h.nodup)
    (fun p hp => .inr (hpresent ▸ hp)) (fun m hm msg hmsg => genuine_sends hm (hran.reachable hw) hmsg) ?_
    fun _ i hi => ?_
  · obtain rfl := Option.some.inj (hb.symm.trans hc)
    exact ⟨hrunning, hran.sentFrames_subset hw⟩
  · obtain ⟨u, -, ⟨-, rfl⟩ | ⟨msg, hmsgs, -⟩⟩ := mainLoop_cases hready hloop
    · exact List.Subset.refl _
    · rw [hmsgs]
      exact List.subset_cons_self msg queue
  · obtain ⟨v, htrail, hattends⟩ := h.attends _ b hb hrunning i hi
    exact hattends.mainLoop hw hready (h.forPort _) hloop htrail

/-! ## Steps of the manager -/

/-- The manager goes on, and what it sends arrives. -/
theorem Consistent.ofManager (h : Consistent n) {m' : Mngr} {l : List ToMngr}
    {extra : Int64 → List ToBridge} (ended : Bool) (hordered : Ordered n l m')
    (hforPort : ∀ pid, ∀ msg ∈ extra pid, msg.ForPort)
    (hunstarted : ∀ pid, n.bridge pid = none → extra pid = [])
    (htrail : ∀ pid b, n.bridge pid = some b → b.shutdownFlag = false → ∀ i < lacpPortMax,
      Trail (Carries n.sentBy) (n.mngr.otherEnd pid i) ((extra pid).filterMap (ToBridge.signal i))
        (m'.otherEnd pid i)) :
    Consistent { n with
      mngr := m'
      mngrShutdown := ended
      toMngr := l
      toBridge := fun pid => n.toBridge pid ++ extra pid } where
  wired := hordered.wired
  ports := hordered.ports
  nodup := hordered.nodup
  started := hordered.started
  genuine := fun msg hmsg => (hordered.genuine msg hmsg).mono (fun _ => List.Subset.refl _) fun _ _ hb _ => hb
  bridges := h.bridges
  forPort := fun pid msg hmsg => by
    rcases List.mem_append.mp hmsg with hmsg | hmsg
    · exact h.forPort pid msg hmsg
    · exact hforPort pid msg hmsg
  unstarted := fun pid hpid => by
    show n.toBridge pid ++ extra pid = []
    rw [h.unstarted pid hpid, hunstarted pid hpid, List.append_nil]
  attends := fun pid b hb hrunning i hi => by
    obtain ⟨v, hv, hattends⟩ := h.attends pid b hb hrunning i hi
    rw [List.filterMap_append]
    exact ⟨v, hv.append (htrail pid b hb hrunning i hi), hattends⟩

/-- What is present after a call was present before. -/
theorem presentPids_subperm {m m' : Mngr} {c : MngrCall} {l l' : List ToMngr} (hl : l <:+ l')
    (hroster : Roster m m' c) (hkept : RecordsKept m m')
    (hhandshake : ∀ pid param1 memory, c = .handshake pid param1 memory → l' = .handshake pid param1 :: l) :
    (presentPids l m').Subperm (presentPids l' m) := by
  have hgreets : (l.filterMap ToMngr.greets).Sublist (l'.filterMap ToMngr.greets) := hl.sublist.filterMap _
  cases hroster with
  | same hlist =>
    rw [presentPids, hkept.pids_eq hlist]
    exact (hgreets.append (List.Sublist.refl _)).subperm
  | leave _ hlist => exact (hgreets.append (hkept.pids_sublist hlist)).subperm
  | @join pid _ _ hlist hnew =>
    rw [presentPids, presentPids, hkept.pids_cons hlist hnew, hhandshake _ _ _ rfl]
    exact List.perm_middle.subperm

/-- What the manager tells a bridge is about a port that the bridge has. -/
theorem forPort_of_mem_portSet {m : Mngr} {b : BridgeAddr} {port : ℤ}
    (hports : (m.bridge b).numberOfPorts = lacpPortMax) (hport : (b, port) ∈ m.portSet)
    (cmd : BrIpcCntrlCmd) : (ToBridge.cntrl cmd port).ForPort := by
  obtain ⟨-, hpos, hlt⟩ := hport
  rw [hports] at hlt
  have hindex : ∃ k < lacpPortMax, port = (k : ℕ) := ⟨port.toNat, by omega, by omega⟩
  cases cmd with
  | portConnect | portDisconnect => exact hindex
  | bridgeShutdown | bridgeHandshake => trivial

theorem Consistent.mngrCall (h : Consistent n) {c : MngrCall} {m' : Mngr} {l : List ToMngr}
    (hl : l <:+ n.toMngr) (hin : c.InTable n.mngr) (hrun : runMngrCall n.mngr c = some m')
    (hhandshake : ∀ pid param1 memory, c = .handshake pid param1 memory →
      n.toMngr = .handshake pid param1 :: l)
    (hshutdown : ∀ pid, c = .shutdown pid → ∃ b, n.bridge pid = some b ∧ b.shutdownFlag = true) :
    Consistent ({ n with toMngr := l }.mngrTo m') := by
  obtain ⟨hroster, hkept⟩ := h.wired.roster hrun
  obtain ⟨new, hnew⟩ := h.wired.notices hin hrun
  have hpresent := presentPids_subperm hl hroster hkept hhandshake
  have hpids : n.mngr.pids.Nodup := (List.nodup_append.mp h.nodup).2.1
  have hnodup' : (presentPids l m').Nodup := by
    obtain ⟨l', hperm, hsub⟩ := hpresent
    exact hperm.nodup_iff.mp (h.nodup.sublist hsub)
  have hports' : ∀ b ∈ m'.brLst, (m'.bridge b).numberOfPorts = lacpPortMax := by
    intro b hb
    have hold : b ∈ n.mngr.brLst → (m'.bridge b).numberOfPorts = lacpPortMax := fun hb =>
      (hkept b hb).2.trans (h.ports b hb)
    cases hroster with
    | same hlist => exact hold (hlist ▸ hb)
    | leave _ hlist => exact hold (List.mem_of_mem_erase (hlist ▸ hb))
    | @join pid param1 _ hlist hnew =>
      rcases List.mem_cons.mp (hlist ▸ hb) with rfl | hb
      · have hgenuine : param1 = bridgeNumberOfPorts :=
          h.genuine (.handshake pid param1) (by rw [hhandshake _ _ _ rfl]; exact List.mem_cons_self)
        rw [hnew, hgenuine]
        rfl
      · exact hold hb
  refine h.ofManager n.mngrShutdown ⟨h.wired.step hin hrun, hports', hnodup', fun pid hpid =>
    h.started pid (hpresent.subset hpid), fun msg hmsg => h.genuine msg (hl.subset hmsg)⟩ ?_ ?_ ?_
  · intro pid msg hmsg
    obtain ⟨message, hmessage, hpid⟩ := List.mem_filterMap.mp hmsg
    obtain ⟨cmd, port, hcntrl, hport⟩ := exists_of_mem_messages hnew hmessage
    split at hpid
    · obtain rfl := Option.some.inj hpid
      rw [hcntrl]
      exact forPort_of_mem_portSet (h.ports _ hport.1) hport cmd
    · cases hpid
  · intro pid hpid
    exact addressed_of_notMem hnew hkept fun hin => h.notMem_presentPids hpid (List.mem_append_right _ hin)
  · intro pid b hb hrunning i hi
    refine (h.wired.trail hin hrun hpids (List.nodup_append.mp hnodup').2.1 (fun b hb => ?_) ?_).mono
      fun _ _ hsent => hsent.elim
    · rw [hports' b hb]
      omega
    · rintro rfl
      obtain ⟨b', hb', hended⟩ := hshutdown pid rfl
      obtain rfl := Option.some.inj (hb.symm.trans hb')
      exact absurd (hended.symm.trans hrunning) (by simp)

/-- A BPDU of a port arrives at the other end of the wire. -/
theorem Consistent.deliver_bpdu (h : Consistent n) {x y : PortPtr} {msg : BrIpcMsg}
    (hx : x ∈ n.mngr.portSet) (hxy : n.mngr.partner x = some y)
    (hcarries : Carries n.sentBy (n.mngr.wireEnd x) msg) :
    Consistent (n.deliver [(y.1, .bpdu (msg.withDestination y.2))]) := by
  obtain ⟨hy, hyx⟩ := h.wired.pairing x hx y hxy
  have hpids : n.mngr.pids.Nodup := (List.nodup_append.mp h.nodup).2.1
  have hextra : ∀ pid, n.mngr.addressed [(y.1, .bpdu (msg.withDestination y.2))] pid =
      if (n.mngr.bridge y.1).pid = pid then [.bpdu (msg.withDestination y.2)] else [] := by
    intro pid
    by_cases hpid : (n.mngr.bridge y.1).pid = pid <;> simp [Mngr.addressed, hpid]
  obtain ⟨hlisted, hpos, hlt⟩ := hy
  rw [h.ports _ hlisted] at hlt
  refine h.ofManager n.mngrShutdown h.toOrdered ?_ ?_ ?_
  · intro pid m hm
    rw [hextra] at hm
    split at hm
    · rw [List.mem_singleton.mp hm]
      exact ⟨y.2.toNat, by omega, (Int.toNat_of_nonneg hpos).symm⟩
    · cases hm
  · intro pid hpid
    rw [hextra, if_neg]
    rintro rfl
    exact h.notMem_presentPids hpid (List.mem_append_right _ (mem_pids.mpr ⟨y.1, hlisted, rfl⟩))
  · intro pid b hb hrunning i hi
    rw [hextra]
    split
    · rename_i hpid
      subst hpid
      by_cases hport : y.2 = i
      · have hother : n.mngr.otherEnd (n.mngr.bridge y.1).pid i = some (n.mngr.wireEnd x) := by
          rw [otherEnd_of_mem hpids hlisted, ← hport, hyx]
          rfl
        have hsignal : (ToBridge.bpdu (msg.withDestination y.2)).signal i =
            some (.data (msg.withDestination y.2)) := if_pos hport
        rw [hother, List.filterMap_cons, hsignal]
        exact .data hcarries (.nil _)
      · have hsignal : (ToBridge.bpdu (msg.withDestination y.2)).signal i = none := if_neg hport
        rw [List.filterMap_cons, hsignal]
        exact .nil _
    · exact .nil _

/-- The manager reads a message, and writes and sends nothing. -/
theorem Consistent.traced (h : Consistent n) {l : List ToMngr} (hl : l <:+ n.toMngr) (new : List MngrEvent)
    (hwired : Wired { n.mngr with trace := new ++ n.mngr.trace })
    (hnew : new.reverse.filterMap MngrEvent.message = []) :
    Consistent ({ n with toMngr := l }.mngrTo { n.mngr with trace := new ++ n.mngr.trace }) := by
  have hmessages : n.mngr.messagesSince { n.mngr with trace := new ++ n.mngr.trace } = [] :=
    (messagesSince_eq rfl).trans hnew
  have hgreets : (l.filterMap ToMngr.greets).Sublist (n.toMngr.filterMap ToMngr.greets) :=
    hl.sublist.filterMap _
  have hpresent : (presentPids l { n.mngr with trace := new ++ n.mngr.trace }).Sublist
      (presentPids n.toMngr n.mngr) := hgreets.append (List.Sublist.refl _)
  refine h.ofManager n.mngrShutdown
    ⟨hwired, h.ports, h.nodup.sublist hpresent, fun pid hpid => h.started pid (hpresent.subset hpid),
      fun msg hmsg => h.genuine msg (hl.subset hmsg)⟩ ?_ ?_ ?_
  all_goals rw [hmessages]
  · exact fun _ _ hmsg => nomatch hmsg
  · exact fun _ _ => rfl
  · exact fun pid _ _ _ i _ => .nil (n.mngr.otherEnd pid i)

theorem deliver_nil (n : Network) : n.deliver [] = n := by
  simp [Network.deliver, Mngr.addressed]

/-- The manager reads nothing that it writes or sends about. -/
theorem Consistent.dropped (h : Consistent n) {l : List ToMngr} (hl : l <:+ n.toMngr) :
    Consistent ({ n with toMngr := l }.mngrTo n.mngr) :=
  h.traced hl [] h.wired rfl

/-- What `mngr_rx_bpdu` does with a BPDU that a bridge has sent: it drops it, or looks at the port it
came from and passes it on to the other end of its wire. -/
theorem mngrRxBpdu_cases (m : Mngr) (msg : BrIpcMsg) :
    m.mngrRxBpdu msg = (m, none) ∨
    ∃ x, x.1 ∈ m.brLst ∧ (m.bridge x.1).pid = msg.header.senderPid ∧ x.2 = msg.header.sourcePort ∧
      (m.mngrRxBpdu msg = (m.touch x, none) ∨
        ∃ y, m.partner x = some y ∧
          m.mngrRxBpdu msg = (m.touch x, some (y.1, msg.withDestination y.2))) := by
  cases hfind : m.brLst.find? fun br => (m.bridge br).pid == msg.header.senderPid with
  | none => exact .inl (by simp only [Mngr.mngrRxBpdu, hfind])
  | some br =>
    have hpid : (m.bridge br).pid = msg.header.senderPid := by simpa using List.find?_some hfind
    refine .inr ⟨(br, msg.header.sourcePort), List.mem_of_find?_eq_some hfind, hpid, rfl, ?_⟩
    cases hpartner : (m.entry (br, msg.header.sourcePort)).bridgePartner with
    | none => exact .inl (by simp only [Mngr.mngrRxBpdu, hfind, entry_touch, hpartner])
    | some b' =>
      refine .inr ⟨(b', (m.entry (br, msg.header.sourcePort)).portPartner),
        partner_eq_some_iff.mpr ⟨hpartner, rfl⟩, ?_⟩
      simp only [Mngr.mngrRxBpdu, hfind, entry_touch, hpartner]

/-- The manager relays a BPDU, or drops it. -/
theorem Consistent.relay (h : Consistent n) {l : List ToMngr} (hl : l <:+ n.toMngr) {msg : BrIpcMsg}
    (hgenuine : (ToMngr.bpdu msg).Genuine n) {m' : Mngr} {relayed : Option (BridgeAddr × BrIpcMsg)}
    (hrelay : n.mngr.mngrRxBpdu msg = (m', relayed)) :
    Consistent (({ n with toMngr := l }.mngrTo m').deliver
      (relayed.toList.map fun (r : BridgeAddr × BrIpcMsg) => (r.1, .bpdu r.2))) := by
  obtain ⟨j, hj, hsource, hcarries⟩ := hgenuine
  obtain hdrop | ⟨x, hlisted, hpid, hport, hrest⟩ := mngrRxBpdu_cases n.mngr msg
  · obtain ⟨rfl, rfl⟩ := Prod.mk.inj (hrelay.symm.trans hdrop)
    exact (deliver_nil _).symm ▸ h.dropped hl
  rw [hsource] at hport
  have hx : x ∈ n.mngr.portSet := by
    refine ⟨hlisted, by omega, ?_⟩
    rw [h.ports _ hlisted]
    omega
  have htouched : Consistent ({ n with toMngr := l }.mngrTo (n.mngr.touch x)) :=
    h.traced hl [.entry x] (h.wired.touch hx) rfl
  obtain hdrop | ⟨y, hpartner, hpass⟩ := hrest
  · obtain ⟨rfl, rfl⟩ := Prod.mk.inj (hrelay.symm.trans hdrop)
    exact (deliver_nil _).symm ▸ htouched
  · obtain ⟨rfl, rfl⟩ := Prod.mk.inj (hrelay.symm.trans hpass)
    have hend : n.mngr.wireEnd x = (msg.header.senderPid, j) := by
      simp only [Mngr.wireEnd, hpid, hport, Int.toNat_natCast]
    refine htouched.deliver_bpdu (x := x) hx hpartner ?_
    exact (show n.mngr.wireEnd x = _ from hend) ▸ hcarries

theorem Consistent.mngrRead (h : Consistent n) {memory : Option (ℤ → PortT)}
    (hrun : n.mngrRead memory = some n') : Consistent n' := by
  simp only [Network.mngrRead] at hrun
  split at hrun
  · cases hrun
  obtain ⟨msg, hmsg, hrest⟩ := Option.bind_eq_some_iff.mp hrun
  obtain ⟨⟨m', relayed⟩, hread, hend⟩ := Option.bind_eq_some_iff.mp hrest
  obtain rfl := Option.some.inj hend
  have hqueue : n.toMngr = msg :: n.toMngr.tail := (List.cons_head?_tail hmsg).symm
  have hin : msg ∈ n.toMngr := hqueue ▸ List.mem_cons_self
  have htail : n.toMngr.tail <:+ n.toMngr := List.tail_suffix _
  cases msg with
  | handshake pid param1 =>
    obtain ⟨rfl, rfl⟩ := Prod.mk.inj (Option.some.inj hread)
    refine (deliver_nil _).symm ▸ h.mngrCall (c := .handshake pid param1 memory) htail trivial rfl ?_ ?_
    · rintro _ _ _ hc
      obtain ⟨rfl, rfl, rfl⟩ := MngrCall.handshake.inj hc
      exact hqueue
    · rintro _ ⟨⟩
  | shutdown pid =>
    obtain ⟨u, hrun', hend⟩ := Option.map_eq_some_iff.mp hread
    obtain ⟨rfl, rfl⟩ := Prod.mk.inj hend
    refine (deliver_nil _).symm ▸ h.mngrCall (c := .shutdown pid) htail trivial hrun' ?_ ?_
    · rintro _ _ _ ⟨⟩
    · rintro _ hc
      obtain rfl := MngrCall.shutdown.inj hc
      exact h.genuine _ hin
  | bpdu msg =>
    exact h.relay htail (h.genuine _ hin) (Option.some.inj hread)

theorem Consistent.mngrPrompt (h : Consistent n) {line : MngrLine}
    (hin : (NetEvent.mngrPrompt line).InTable n) (hrun : n.mngrPrompt line = some n') :
    Consistent n' := by
  simp only [Network.mngrPrompt] at hrun
  split at hrun
  · cases hrun
  cases line with
  | link argv =>
    obtain rfl := Option.some.inj hrun
    refine h.mngrCall (c := .link argv) (List.suffix_refl _) hin rfl ?_ ?_
    · rintro _ _ _ ⟨⟩
    · rintro _ ⟨⟩
  | unlink argv br1 =>
    obtain rfl := Option.some.inj hrun
    refine h.mngrCall (c := .unlink argv br1) (List.suffix_refl _) hin rfl ?_ ?_
    · rintro _ _ _ ⟨⟩
    · rintro _ ⟨⟩
  | ring => exact hin.elim
  | exit destinationPort =>
    obtain rfl := Option.some.inj hrun
    have hextra : ∀ pid, ∀ msg ∈ n.mngr.addressed
        (n.mngr.brLst.map fun br => (br, .cntrl .bridgeShutdown destinationPort)) pid,
        msg = .cntrl .bridgeShutdown destinationPort ∧ pid ∈ n.mngr.pids := by
      intro pid msg hmsg
      obtain ⟨message, hmessage, hpid⟩ := List.mem_filterMap.mp hmsg
      obtain ⟨br, hbr, rfl⟩ := List.mem_map.mp hmessage
      split at hpid
      · rename_i heq
        exact ⟨(Option.some.inj hpid).symm, mem_pids.mpr ⟨br, hbr, heq⟩⟩
      · cases hpid
    refine h.ofManager true h.toOrdered (fun pid msg hmsg => ?_) (fun pid hpid => ?_)
      fun pid b _ _ i _ => ?_
    · rw [(hextra pid msg hmsg).1]
      trivial
    · refine List.eq_nil_iff_forall_not_mem.mpr fun msg hmsg => ?_
      exact h.notMem_presentPids hpid (List.mem_append_right _ (hextra pid msg hmsg).2)
    · rw [List.filterMap_eq_nil_iff.mpr fun msg hmsg => by rw [(hextra pid msg hmsg).1]; rfl]
      exact .nil _

/-- Every step keeps the invariant. -/
theorem Consistent.step (h : Consistent n) {e : NetEvent} (hstep : NetStep e n n') : Consistent n' := by
  obtain ⟨hin, fuel, hrun⟩ := hstep
  cases e with
  | start pid => exact h.start hrun
  | bridge pid ready memory => exact h.bridgeLoop hin hrun
  | mngrRead memory => exact h.mngrRead hrun
  | mngrPrompt line => exact h.mngrPrompt hin hrun

theorem NetRun.consistent {R : Network → NetEvent → Prop} (h : NetRun R n) : Consistent n :=
  h.invariant .init fun hP _ hstep => hP.step hstep

end Steps

end Lacp
