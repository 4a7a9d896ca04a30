import Lacp.Consistency

/-!
# Safety of the network

Reference: `mngr.c`, `bridge.c`.

A port that forwards has heard last from an attached port at the other end of the wire that its bridge
knows (`netReachable_heardFromAttached`). Once no control message for a port waits, its bridge knows what
the manager knows (`netReachable_linkStatus`), and where no command changes the link of a port, the engine
does so too (`netRun_portEnabled`). All this is about runs whose commands are in the tables
(`NetEvent.InTable`).
-/

namespace Lacp

open Session

/-- No message that waits for the bridge changes the wire of port `i`. -/
def Network.Informed (n : Network) (pid : Int64) (i : ℕ) : Prop :=
  .cntrl .portConnect i ∉ n.toBridge pid ∧ .cntrl .portDisconnect i ∉ n.toBridge pid

instance (n : Network) (pid : Int64) (i : ℕ) : Decidable (n.Informed pid i) :=
  inferInstanceAs (Decidable (_ ∧ _))

section Safety

variable {n : Network} {pid : Int64} {b : Bridge} {i j : ℕ} {w v : World} {a : Addr} {e : WireEnd}

/-- A port that forwards, and has heard only from port `j` of the other bridge, has heard last from that
port while it was attached. -/
theorem HeardFrom.heardFromAttached (hw : Reachable w) (hv : Reachable v)
    (h : HeardFrom i (sentFrames v j) w) (ha : a ∈ w.sys.ports) (hindex : (w.port a).portIndex = i)
    (hmux : (w.port a).mux.state = .rxTx) : HeardFromAttached w i v j := by
  have hlive := (hw.port ha).1.forwardsLive (hw.port ha).2 hmux
  obtain ⟨p, hlast, ⟨pdu, hpdu, hactor, hpart⟩, hpartner⟩ := h.current a ha hindex hlive.rx
  obtain ⟨q, hq, hqindex⟩ := mem_sentFrames.mp hpdu
  have hstate : p.msgActor.state = pdu.actor.state := by
    rw [hactor]
    rfl
  have hsyn : (partnerMatched p && p.msgActor.state.SYN) = true := by
    have hsyn := hlive.partnerSYN
    rwa [hpartner] at hsyn
  obtain ⟨hmatched, hsyn⟩ := Bool.and_eq_true_iff.mp hsyn
  have hagg : p.msgActor.state.AGG = true := by
    have hagg := hlive.partnerAGG
    rwa [hpartner] at hagg
  have hsame : samePartner p.msgPartner p.actor = true := by
    simpa [partnerMatched, hagg] using (Bool.and_eq_true_iff.mp hmatched).1
  rw [hstate] at hsyn hagg
  exact ⟨p, pdu, q, hlast, hactor, hpart, hq, hqindex, hv.sentAttached q pdu hq hsyn, hsyn, hagg,
    hpart ▸ hsame⟩

/-- A wire has two ends. -/
theorem Consistent.otherEnd_symm (h : Consistent n) (hi : i < lacpPortMax)
    (he : n.mngr.otherEnd pid i = some e) : n.mngr.otherEnd e.1 e.2 = some (pid, i) := by
  have hpids : n.mngr.pids.Nodup := (List.nodup_append.mp h.nodup).2.1
  have hregistered : pid ∈ n.mngr.pids := by
    by_contra hnot
    rw [otherEnd_of_notMem hnot] at he
    cases he
  obtain ⟨br, hbr, rfl⟩ := mem_pids.mp hregistered
  rw [otherEnd_of_mem hpids hbr] at he
  obtain ⟨y, hy, rfl⟩ := Option.map_eq_some_iff.mp he
  have hport : (br, (i : ℤ)) ∈ n.mngr.portSet :=
    ⟨hbr, Int.natCast_nonneg i, by rw [h.ports br hbr]; omega⟩
  obtain ⟨hyport, hback⟩ := h.wired.pairing _ hport y hy
  have hindex : (y.1, ((n.mngr.wireEnd y).2 : ℤ)) = y := Prod.ext rfl (Int.toNat_of_nonneg hyport.2.1)
  rw [show (n.mngr.wireEnd y).1 = (n.mngr.bridge y.1).pid from rfl, otherEnd_of_mem hpids hyport.1, hindex,
    hback]
  rfl

/-- What a bridge that is informed knows is what the manager knows. -/
theorem Network.Informed.eq_otherEnd (hinformed : n.Informed pid i) {u : Option WireEnd}
    (htrail : Trail (Carries n.sentBy) u ((n.toBridge pid).filterMap (ToBridge.signal i))
      (n.mngr.otherEnd pid i)) : u = n.mngr.otherEnd pid i := by
  refine htrail.eq_of_plain fun x hx => ?_
  obtain ⟨msg, hmsg, hsignal⟩ := List.mem_filterMap.mp hx
  cases msg with
  | bpdu msg =>
    obtain ⟨-, hdata⟩ := Option.ite_none_right_eq_some.mp hsignal
    exact ⟨msg, (Option.some.inj hdata).symm⟩
  | cntrl cmd port =>
    cases cmd with
    | portConnect =>
      obtain ⟨rfl, -⟩ := Option.ite_none_right_eq_some.mp hsignal
      exact absurd hmsg hinformed.1
    | portDisconnect =>
      obtain ⟨rfl, -⟩ := Option.ite_none_right_eq_some.mp hsignal
      exact absurd hmsg hinformed.2
    | bridgeShutdown | bridgeHandshake => cases hsignal

/-- What a bridge that is informed says of its links. -/
theorem Consistent.linkStatus (h : Consistent n) (hb : n.bridge pid = some b) (hrunning : b.shutdownFlag = false)
    (hi : i < lacpPortMax) (hinformed : n.Informed pid i) :
    lacpBitmapGetBit b.enabledPorts i = (n.mngr.otherEnd pid i).isSome ∧
      trunkSspGetPortLinkStatus b.world i = if (n.mngr.otherEnd pid i).isSome then 1 else 0 := by
  obtain ⟨u, htrail, hattends⟩ := h.attends pid b hb hrunning i hi
  obtain rfl := hinformed.eq_otherEnd htrail
  exact ⟨hattends.enabled, hattends.linkStatus⟩

/-- In every run whose commands are in the tables, a port that forwards has processed, last of all, a LACPDU
that another port sent while it was attached. Once no message about the wire of the port waits, that port is at the other
end of the wire, for both ends. -/
theorem netReachable_heardFromAttached (n : Network) (h : NetReachable n) :
    ∀ pid b, n.bridge pid = some b → b.shutdownFlag = false → ∀ a ∈ b.world.sys.ports,
      (b.world.port a).mux.state = .rxTx → ∃ e b', n.bridge e.1 = some b' ∧
        HeardFromAttached b.world (b.world.port a).portIndex b'.world e.2 ∧
        (n.Informed pid (b.world.port a).portIndex →
          n.mngr.otherEnd pid (b.world.port a).portIndex = some e ∧
          n.mngr.otherEnd e.1 e.2 = some (pid, (b.world.port a).portIndex)) := by
  intro pid b hb hrunning a ha hmux
  have hconsistent := NetRun.consistent h
  have hw := (hconsistent.bridges pid b hb).2
  have hi : (b.world.port a).portIndex < lacpPortMax := hw.coherent.1.index_lt a ha
  obtain ⟨u, htrail, hattends⟩ := hconsistent.attends pid b hb hrunning _ hi
  have hlive := (hw.port ha).1.forwardsLive (hw.port ha).2 hmux
  obtain ⟨p, -, ⟨pdu, hpdu, -, -⟩, -⟩ := hattends.heard.current a ha rfl hlive.rx
  -- what was heard was heard from the end that the bridge knows
  obtain ⟨e, rfl⟩ : ∃ e, u = some e := by
    cases u with
    | none => cases hpdu
    | some e => exact ⟨e, rfl⟩
  obtain ⟨b', hb'⟩ : ∃ b', n.bridge e.1 = some b' := by
    refine Option.isSome_iff_exists.mp ?_
    by_contra hnone
    rw [Option.not_isSome_iff_eq_none] at hnone
    simp [Network.sentBy, hnone] at hpdu
  have hsent : n.sentBy e = sentFrames b'.world e.2 := by rw [Network.sentBy, hb', Option.elim_some]
  have hheard : HeardFrom (b.world.port a).portIndex (sentFrames b'.world e.2) b.world :=
    hsent ▸ hattends.heard
  refine ⟨e, b', hb', hheard.heardFromAttached hw (hconsistent.bridges _ b' hb').2 ha rfl hmux,
    fun hinformed => ?_⟩
  have hother := (hinformed.eq_otherEnd htrail).symm
  exact ⟨hother, hconsistent.otherEnd_symm hi hother⟩

/-- In every run whose commands are in the tables, once no message about the wire of a port waits,
`enabled_ports` and `g_port_list` of the bridge say whether the manager has a wire there. -/
theorem netReachable_linkStatus (n : Network) (h : NetReachable n) :
    ∀ pid b, n.bridge pid = some b → b.shutdownFlag = false → ∀ i < lacpPortMax, n.Informed pid i →
      lacpBitmapGetBit b.enabledPorts i = (n.mngr.otherEnd pid i).isSome ∧
      trunkSspGetPortLinkStatus b.world i = if (n.mngr.otherEnd pid i).isSome then 1 else 0 :=
  fun _ _ hb hrunning _ hi hinformed => (NetRun.consistent h).linkStatus hb hrunning hi hinformed

end Safety

/-! ## The engine -/

/-- The event is no command that changes the link of a port. -/
def NetEvent.LeavesLinks : NetEvent → Prop
  | .bridge _ ready _ => ∀ c ∈ ready.call, c.isLinkChange = false
  | _ => True

instance : (e : NetEvent) → Decidable e.LeavesLinks
  | .bridge _ ready _ => inferInstanceAs (Decidable (∀ c ∈ ready.call, c.isLinkChange = false))
  | .start _ | .mngrRead _ | .mngrPrompt _ => .isTrue trivial

/-- As long as no command changes the link of a port, every bridge agrees with its engine on its links. -/
theorem NetRun.linkAgrees {n : Network} (h : NetRun (fun _ e => e.LeavesLinks) n) :
    ∀ pid b, n.bridge pid = some b → ∀ i, LinkAgrees i b.world := by
  refine (h.invariant (P := fun n => Consistent n ∧ ∀ pid b, n.bridge pid = some b →
    ∀ i, LinkAgrees i b.world) ⟨.init, fun _ _ hb => nomatch hb⟩ fun {n n' e} hP hleaves hstep => ?_).2
  refine ⟨hP.1.step hstep, fun pid b' hb' i => ?_⟩
  rcases bridge_of_netStep hstep hb' with hb | ⟨-, rfl⟩ |
    ⟨b, ready, memory, queue', fuel, rfl, hb, -, hloop⟩
  · exact hP.2 pid b' hb i
  · exact .init i _
  · exact (hP.2 pid b hb i).mainLoop (hP.1.bridges pid b hb).2 hstep.1 (hP.1.forPort pid) hloop hleaves

/-- In every run whose commands are in the tables and change the link of no port, once no message about the
wire of a port waits, its engine takes the link for up exactly if the manager has a wire there. -/
theorem netRun_portEnabled (n : Network) (h : NetRun (fun _ e => e.LeavesLinks) n) :
    ∀ pid b, n.bridge pid = some b → b.shutdownFlag = false → ∀ a ∈ b.world.sys.ports,
      n.Informed pid (b.world.port a).portIndex →
        (b.world.port a).portEnabled = (n.mngr.otherEnd pid (b.world.port a).portIndex).isSome := by
  intro pid b hb hrunning a ha hinformed
  have hw := (h.consistent.bridges pid b hb).2
  have hstatus := (h.consistent.linkStatus hb hrunning (hw.coherent.1.index_lt a ha) hinformed).2
  rw [h.linkAgrees pid b hb _ a ha rfl, hstatus]
  cases (n.mngr.otherEnd pid (b.world.port a).portIndex).isSome <;> rfl

/-! ## A run

Two bridges, with port 0 of the one wired to port 0 of the other, until both ports forward.
-/

def NetEvent.reads (pid : Int64) : NetEvent := .bridge pid (.input none true) fun _ => 0

def NetEvent.types (pid : Int64) (c : Call) : NetEvent :=
  .bridge pid (.input (some (.call c)) false) fun _ => 0

def NetEvent.waits (pid : Int64) : NetEvent := .bridge pid .timeout fun _ => 0

def networkRun : List NetEvent :=
  let read := .mngrRead (some fun _ => .zero)
  [.start 77, .start 88, read, read,
    .mngrPrompt (.link [['l'], ['B', '7', '7'], ['0'], ['B', '8', '8'], ['0']]),
    .reads 77, .reads 88, .types 77 (.portLacpEnable 0 1 1 .zero), .types 88 (.portLacpEnable 0 1 1 .zero),
    read, read, .reads 77, .reads 88, read, read, .reads 77, .reads 88,
    .waits 77, .waits 77, .waits 88, .waits 88, read, read, read, read,
    .reads 77, .reads 77, .reads 88, .reads 88]

theorem exists_netRun_networkRun :
    ∃ n, NetRun (fun _ e => e.LeavesLinks) n ∧ ∃ b, n.bridge 77 = some b ∧ b.shutdownFlag = false ∧
      0 ∈ b.world.sys.ports ∧ (b.world.port 0).portIndex = 0 ∧ (b.world.port 0).mux.state = .rxTx ∧
      n.Informed 77 0 ∧ n.mngr.otherEnd 77 0 = some (88, 0) := by
  have hrun : (runEvents (fun e => decide e.LeavesLinks) 40 initNetwork networkRun).any (fun n =>
      (n.bridge 77).any fun b => decide (b.shutdownFlag = false ∧ 0 ∈ b.world.sys.ports ∧
        (b.world.port 0).portIndex = 0 ∧ (b.world.port 0).mux.state = .rxTx ∧ n.Informed 77 0 ∧
        n.mngr.otherEnd 77 0 = some (88, 0))) = true := by
    decide +kernel
  obtain ⟨n, h, hresult⟩ := exists_netRun_of_runEvents (fun _ htest => of_decide_eq_true htest) hrun
  obtain ⟨b, hb, hstate⟩ := (Option.any_eq_true ..).mp hresult
  exact ⟨n, h, b, hb, of_decide_eq_true hstate⟩

theorem networkRun_heardFromAttached :
    ∃ n b b', NetReachable n ∧ n.bridge 77 = some b ∧ n.bridge 88 = some b' ∧
      HeardFromAttached b.world 0 b'.world 0 := by
  obtain ⟨n, h, b, hb, hrunning, ha, hindex, hmux, hinformed, hother⟩ := exists_netRun_networkRun
  have hreachable : NetReachable n := h.mono fun _ _ _ => trivial
  obtain ⟨e, b', hb', hheard, hend⟩ :=
    netReachable_heardFromAttached n hreachable 77 b hb hrunning 0 ha hmux
  rw [hindex] at hheard hend
  obtain rfl := Option.some.inj ((hend hinformed).1.symm.trans hother)
  exact ⟨n, b, b', hreachable, hb, hb', hheard⟩

theorem networkRun_linkStatus :
    ∃ n b, NetReachable n ∧ n.bridge 77 = some b ∧ lacpBitmapGetBit b.enabledPorts 0 = true ∧
      trunkSspGetPortLinkStatus b.world 0 = 1 := by
  obtain ⟨n, h, b, hb, hrunning, -, -, -, hinformed, hother⟩ := exists_netRun_networkRun
  have hreachable : NetReachable n := h.mono fun _ _ _ => trivial
  have hstatus := netReachable_linkStatus n hreachable 77 b hb hrunning 0 (by decide) hinformed
  rw [hother] at hstatus
  exact ⟨n, b, hreachable, hb, hstatus⟩

theorem networkRun_portEnabled :
    ∃ n b, NetRun (fun _ e => e.LeavesLinks) n ∧ n.bridge 77 = some b ∧
      (b.world.port 0).portEnabled = true := by
  obtain ⟨n, h, b, hb, hrunning, ha, hindex, -, hinformed, hother⟩ := exists_netRun_networkRun
  have hup := netRun_portEnabled n h 77 b hb hrunning 0 ha (hindex.symm ▸ hinformed)
  rw [hindex, hother] at hup
  exact ⟨n, b, h, hb, hup⟩

end Lacp
