import Lacp.Attending
import Lacp.Notices

/-!
# The registered bridges

Reference: `register_bridge`, `unregister_bridge` and the lookups in `br_lst`.

The manager names a bridge by its process. `Roster` says how a call changes the list: a handshake puts a
new record in front, a shutdown takes the first record of the process off, and the commands leave the list
as it is; no call changes the process or the number of ports of a record. Where no process is registered
twice, what the manager sends to a process is a trail for each of its ports, from the other end that its
wire had to the one that it has (`Wired.trail`).
-/

namespace Lacp

open Session

namespace Mngr

/-- The processes that are registered. -/
def pids (m : Mngr) : List Int64 := m.brLst.map fun b => (m.bridge b).pid

/-- What a bridge calls a port of the manager's tables. -/
def wireEnd (m : Mngr) (x : PortPtr) : WireEnd := ((m.bridge x.1).pid, x.2.toNat)

/-- The other end of the wire of port `i` of the process. -/
def otherEnd (m : Mngr) (pid : Int64) (i : ℕ) : Option WireEnd :=
  (m.brLst.find? fun b => (m.bridge b).pid == pid).bind fun b => (m.partner (b, (i : ℤ))).map m.wireEnd

end Mngr

/-- The records that were there are of the same processes. -/
def RecordsKept (m m' : Mngr) : Prop :=
  ∀ b ∈ m.brLst, (m'.bridge b).pid = (m.bridge b).pid ∧
    (m'.bridge b).numberOfPorts = (m.bridge b).numberOfPorts

/-- How a call changes the list of the bridges. -/
inductive Roster (m m' : Mngr) : MngrCall → Prop
  | same {c : MngrCall} (hlist : m'.brLst = m.brLst) (hc : ∀ pid, c = .shutdown pid → pid ∉ m.pids) :
      Roster m m' c
  | join {pid : Int64} {param1 : UInt64} {around : ℤ → PortT} (hlist : m'.brLst = m.brk :: m.brLst)
      (hnew : m'.bridge m.brk = { pid := pid
                                  numberOfPorts := param1.toInt64.toInt
                                  ports := fun i => if 0 ≤ i ∧ i < param1.toNat then .zero else around i }) :
      Roster m m' (.handshake pid param1 (some around))
  | leave {pid : Int64} {b : BridgeAddr} (hfind : m.brLst.find? (fun b => (m.bridge b).pid == pid) = some b)
      (hlist : m'.brLst = m.brLst.erase b) : Roster m m' (.shutdown pid)

section Lookup

variable {m m' : Mngr} {b : BridgeAddr} {pid : Int64} {i : ℕ}

theorem RecordsKept.of_sameBridges (h : SameBridges m m') : RecordsKept m m' := fun b _ =>
  ⟨h.pid b, h.numberOfPorts b⟩

theorem mem_pids : pid ∈ m.pids ↔ ∃ b ∈ m.brLst, (m.bridge b).pid = pid := List.mem_map

theorem find?_pid_eq_none : m.brLst.find? (fun b => (m.bridge b).pid == pid) = none ↔ pid ∉ m.pids := by
  rw [List.find?_eq_none, mem_pids]
  exact ⟨fun h ⟨b, hb, hpid⟩ => h b hb (beq_iff_eq.mpr hpid),
    fun h b hb hpid => h ⟨b, hb, beq_iff_eq.mp hpid⟩⟩

/-- Where no process is registered twice, its record is the one that is found. -/
theorem find?_pid (hnodup : m.pids.Nodup) (hb : b ∈ m.brLst) :
    m.brLst.find? (fun a => (m.bridge a).pid == (m.bridge b).pid) = some b := by
  cases hfind : m.brLst.find? fun a => (m.bridge a).pid == (m.bridge b).pid with
  | none => exact absurd (mem_pids.mpr ⟨b, hb, rfl⟩) (find?_pid_eq_none.mp hfind)
  | some a =>
    have ha := List.mem_of_find?_eq_some hfind
    have hpid : (m.bridge a).pid = (m.bridge b).pid := by simpa using List.find?_some hfind
    rw [List.inj_on_of_nodup_map hnodup ha hb hpid]

theorem otherEnd_of_mem (hnodup : m.pids.Nodup) (hb : b ∈ m.brLst) (i : ℕ) :
    m.otherEnd (m.bridge b).pid i = (m.partner (b, (i : ℤ))).map m.wireEnd := by
  rw [Mngr.otherEnd, find?_pid hnodup hb]
  rfl

theorem otherEnd_of_notMem (h : pid ∉ m.pids) (i : ℕ) : m.otherEnd pid i = none := by
  rw [Mngr.otherEnd, find?_pid_eq_none.mpr h]
  rfl

end Lookup

/-! ## The list -/

section Roster

variable {m m' : Mngr} {c : MngrCall} {pid : Int64}

theorem sameBridges_unregisterPort (oldbr : BridgeAddr) (m : Mngr) (indx : ℕ) :
    SameBridges m (Mngr.unregisterPort oldbr m indx) := by
  unfold Mngr.unregisterPort
  dsimp only
  split
  · exact (sameBridges_log m _).trans (sameBridges_disconnectPort ..)
  · exact sameBridges_log m _

theorem sameBridges_linkPorts (m : Mngr) (pid1 : Int64) (indx1 : ℤ) (pid2 : Int64) (indx2 : ℤ) :
    SameBridges m (m.linkPorts pid1 indx1 pid2 indx2) := by
  unfold Mngr.linkPorts
  split
  · split
    · exact .refl m
    · split
      · exact .refl m
      · dsimp only
        split
        · exact (sameBridges_log m _).trans (sameBridges_log _ _)
        · exact ((sameBridges_log m _).trans (sameBridges_log _ _)).trans (sameBridges_linkTwoPorts ..)
  · exact .refl m

theorem sameBridges_unlinkIndex (m : Mngr) (br1 : Option BridgeAddr) (pid1 : Int64) (indx1 : ℤ) :
    SameBridges m (m.unlinkIndex br1 pid1 indx1) := by
  unfold Mngr.unlinkIndex
  split
  · exact .refl m
  · split
    · exact .refl m
    · dsimp only
      split
      · exact sameBridges_log m _
      · exact (sameBridges_log m _).trans
          ((sameBridges_disconnectPort ..).trans (sameBridges_disconnectPort ..))

/-- What a call makes of the list, and of the records that are on it. -/
theorem Wired.roster (h : Wired m) (hrun : runMngrCall m c = some m') : Roster m m' c ∧ RecordsKept m m' := by
  cases c with
  | handshake pid param1 memory =>
    obtain rfl := Option.some.inj hrun
    cases memory with
    | none => exact ⟨.same rfl fun _ hc => (nomatch hc), .of_sameBridges (.refl m)⟩
    | some around =>
      refine ⟨.join rfl (if_pos rfl), fun b hb => ?_⟩
      have hold : (m.registerBridge pid param1 (some around)).bridge b = m.bridge b :=
        if_neg (h.addr_lt b hb).ne
      rw [hold]
      exact ⟨rfl, rfl⟩
  | shutdown pid =>
    simp only [runMngrCall, Mngr.unregisterBridge] at hrun
    cases hfind : m.brLst.find? fun b => (m.bridge b).pid == pid with
    | none =>
      obtain rfl : m = m' := by simpa [hfind] using hrun
      refine ⟨.same rfl fun p hc => ?_, .of_sameBridges (.refl m)⟩
      obtain rfl := MngrCall.shutdown.inj hc
      exact find?_pid_eq_none.mp hfind
    | some b =>
      set u := (List.range (m.bridge b).numberOfPorts.toNat).foldl (Mngr.unregisterPort b) m with hu
      have hsame : SameBridges m u := List.foldlRecOn (motive := SameBridges m) _ _ (.refl m)
        fun v hv i _ => hv.trans (sameBridges_unregisterPort b v i)
      obtain ⟨-, rfl⟩ : (m.bridge b).numberOfPorts ≤ 0x7fffffff ∧
          { u with brLst := u.brLst.erase b } = m' := by
        simpa [hfind, ← hu] using hrun
      refine ⟨.leave hfind ?_, fun a _ => ⟨hsame.pid a, hsame.numberOfPorts a⟩⟩
      show u.brLst.erase b = m.brLst.erase b
      rw [hsame.brLst]
  | link argv =>
    obtain rfl := Option.some.inj hrun
    have hsame : SameBridges m (m.linkBridges argv) := by
      unfold Mngr.linkBridges
      split
      · exact sameBridges_linkPorts ..
      · exact .refl m
    exact ⟨.same hsame.brLst fun _ hc => (nomatch hc), .of_sameBridges hsame⟩
  | unlink argv br1 =>
    obtain rfl := Option.some.inj hrun
    have hsame : SameBridges m (m.unlinkPort br1 argv) := by
      unfold Mngr.unlinkPort
      split
      · exact sameBridges_unlinkIndex ..
      · exact .refl m
    exact ⟨.same hsame.brLst fun _ hc => (nomatch hc), .of_sameBridges hsame⟩

end Roster

/-! ## The processes -/

section Pids

variable {m m' : Mngr} {c : MngrCall}

theorem RecordsKept.map_pid (h : RecordsKept m m') {l : List BridgeAddr} (hl : l ⊆ m.brLst) :
    l.map (fun b => (m'.bridge b).pid) = l.map fun b => (m.bridge b).pid :=
  List.map_congr_left fun b hb => (h b (hl hb)).1

theorem RecordsKept.pids_eq (h : RecordsKept m m') (hlist : m'.brLst = m.brLst) : m'.pids = m.pids := by
  rw [Mngr.pids, hlist, h.map_pid (List.Subset.refl _), Mngr.pids]

theorem RecordsKept.pids_cons (h : RecordsKept m m') {newbr : BridgeT} (hlist : m'.brLst = m.brk :: m.brLst)
    (hnew : m'.bridge m.brk = newbr) : m'.pids = newbr.pid :: m.pids := by
  rw [Mngr.pids, hlist, List.map_cons, hnew, h.map_pid (List.Subset.refl _), Mngr.pids]

theorem RecordsKept.pids_sublist (h : RecordsKept m m') {b : BridgeAddr} (hlist : m'.brLst = m.brLst.erase b) :
    m'.pids.Sublist m.pids := by
  rw [Mngr.pids, hlist, h.map_pid List.erase_subset]
  exact List.erase_sublist.map _

/-- A process that is registered after a call was registered before, or it is the one that says hello; and
it has not said goodbye. -/
theorem Roster.mem_pids_cases (h : Roster m m' c) (hkept : RecordsKept m m') (hnodup : m.pids.Nodup)
    {pid : Int64} (hpid : pid ∈ m'.pids) :
    (pid ∈ m.pids ∨ ∃ param1 memory, c = .handshake pid param1 memory) ∧ c ≠ .shutdown pid := by
  cases h with
  | same hlist hc =>
    rw [hkept.pids_eq hlist] at hpid
    exact ⟨.inl hpid, fun heq => hc pid heq hpid⟩
  | @join pid' param1 around hlist hnew =>
    rw [hkept.pids_cons hlist hnew] at hpid
    refine ⟨?_, fun heq => nomatch heq⟩
    rcases List.mem_cons.mp hpid with rfl | hpid
    · exact .inr ⟨param1, some around, rfl⟩
    · exact .inl hpid
  | @leave pid' b hfind hlist =>
    refine ⟨.inl ((hkept.pids_sublist hlist).subset hpid), fun heq => ?_⟩
    obtain rfl := MngrCall.shutdown.inj heq
    obtain ⟨a, ha, hapid⟩ := mem_pids.mp hpid
    rw [hlist] at ha
    have hlisted : a ∈ m.brLst := List.mem_of_mem_erase ha
    have hbpid : (m.bridge b).pid = pid' := by simpa using List.find?_some hfind
    rw [(hkept a hlisted).1] at hapid
    -- the record that is found is the only one of the process, and it is taken off
    obtain rfl := List.inj_on_of_nodup_map hnodup hlisted (List.mem_of_find?_eq_some hfind)
      (hapid.trans hbpid.symm)
    exact (List.Nodup.mem_erase_iff (List.Nodup.of_map _ hnodup)).mp ha |>.1 rfl

/-- A process that is registered stays registered unless it says goodbye. -/
theorem Roster.mem_brLst (h : Roster m m' c) {b : BridgeAddr} (hb : b ∈ m.brLst)
    (hc : c ≠ .shutdown (m.bridge b).pid) : b ∈ m'.brLst := by
  cases h with
  | same hlist => exact hlist ▸ hb
  | join hlist => exact hlist ▸ List.mem_cons_of_mem _ hb
  | @leave pid b' hfind hlist =>
    have hpid : (m.bridge b').pid = pid := by simpa using List.find?_some hfind
    have hne : b ≠ b' := by
      rintro rfl
      exact hc (by rw [hpid])
    rw [hlist]
    exact (List.mem_erase_of_ne hne).mpr hb

end Pids

/-! ## What a process is sent -/

section Trail

variable {m m' : Mngr} {c : MngrCall} {pid : Int64} {new : List MngrEvent} {b : BridgeAddr} {i : ℕ}

theorem messagesSince_eq (htrace : m'.trace = new ++ m.trace) :
    m.messagesSince m' = new.reverse.filterMap MngrEvent.message := by
  simp [Mngr.messagesSince, htrace]

/-- A message that is sent is for a port of a record that was there. -/
theorem exists_of_mem_messages {P : Set PortPtr} (hnew : Notices P new m m')
    {message : BridgeAddr × ToBridge} (hmessage : message ∈ m.messagesSince m') :
    ∃ cmd port, message.2 = .cntrl cmd port ∧ (message.1, port) ∈ m.portSet := by
  rw [messagesSince_eq hnew.trace, List.mem_filterMap] at hmessage
  obtain ⟨e, he, hsent⟩ := hmessage
  cases e with
  | entry => cases hsent
  | send bridge cmd port =>
    obtain rfl := Option.some.inj hsent
    exact ⟨cmd, port, rfl, hnew.targets _ (List.mem_reverse.mp he) _ rfl⟩

/-- A process that is not registered is sent nothing. -/
theorem addressed_of_notMem {P : Set PortPtr} (hnew : Notices P new m m') (hkept : RecordsKept m m')
    (h : pid ∉ m.pids) : m'.addressed (m.messagesSince m') pid = [] := by
  refine List.filterMap_eq_nil_iff.mpr fun message hmessage => if_neg fun hpid => h ?_
  obtain ⟨cmd, port, -, hport⟩ := exists_of_mem_messages hnew hmessage
  exact mem_pids.mpr ⟨message.1, hport.1, (hkept _ hport.1).1.symm.trans hpid⟩

/-- Where no process is registered twice, what its messages say to a port is what was sent to the
port. -/
theorem signals_addressed {P : Set PortPtr} (hnew : Notices P new m m') (hkept : RecordsKept m m')
    (hnodup : m.pids.Nodup) (hb : b ∈ m.brLst) (i : ℕ) :
    (m'.addressed (m.messagesSince m') (m.bridge b).pid).filterMap (ToBridge.signal i) =
      signalsTo (b, (i : ℤ)) new := by
  rw [messagesSince_eq hnew.trace, Mngr.addressed, signalsTo, List.filterMap_filterMap,
    List.filterMap_filterMap]
  refine List.filterMap_congr fun e he => ?_
  cases e with
  | entry => rfl
  | send a cmd port =>
    have ha : a ∈ m.brLst := (hnew.targets _ (List.mem_reverse.mp he) _ rfl).1
    have hpid : (m'.bridge a).pid = (m.bridge b).pid ↔ a = b := by
      rw [(hkept a ha).1]
      exact ⟨fun heq => List.inj_on_of_nodup_map hnodup ha hb heq, fun heq => by rw [heq]⟩
    simp only [MngrEvent.message, Option.bind_some, hpid]
    by_cases hab : a = b
    · subst hab
      cases cmd <;> simp [ToBridge.signal, MngrEvent.signal]
    · cases cmd <;> simp [ToBridge.signal, MngrEvent.signal, hab]

/-- What the manager sends to a process that does not say goodbye leads, for each of its ports, from the
other end that the wire of the port had to the one that it has. -/
theorem Wired.trail (h : Wired m) (hin : c.InTable m) (hrun : runMngrCall m c = some m')
    (hnodup : m.pids.Nodup) (hnodup' : m'.pids.Nodup)
    (hports : ∀ b ∈ m'.brLst, (i : ℤ) < (m'.bridge b).numberOfPorts) (hc : c ≠ .shutdown pid) :
    Trail (fun _ _ => False) (m.otherEnd pid i)
      ((m'.addressed (m.messagesSince m') pid).filterMap (ToBridge.signal i)) (m'.otherEnd pid i) := by
  obtain ⟨new, hnew⟩ := h.notices hin hrun
  obtain ⟨hroster, hkept⟩ := h.roster hrun
  by_cases hpid : pid ∈ m.pids
  · obtain ⟨b, hb, rfl⟩ := mem_pids.mp hpid
    have hb' := hroster.mem_brLst hb hc
    have hport : (b, (i : ℤ)) ∈ m.portSet := ⟨hb, Int.natCast_nonneg i, (hkept b hb).2 ▸ hports b hb'⟩
    have hport' : (b, (i : ℤ)) ∈ m'.portSet := ⟨hb', Int.natCast_nonneg i, hports b hb'⟩
    have hold : m.otherEnd (m.bridge b).pid i = (m.partner (b, (i : ℤ))).map m'.wireEnd := by
      rw [otherEnd_of_mem hnodup hb]
      refine Option.map_congr fun y hy => ?_
      obtain ⟨hy, -⟩ := h.pairing _ hport y hy
      simp only [Mngr.wireEnd, (hkept _ hy.1).1]
    rw [hold, signals_addressed hnew hkept hnodup hb, ← (hkept b hb).1, otherEnd_of_mem hnodup' hb']
    exact (hnew.trail _ ⟨hport, hport'⟩).map fun _ _ hsent => hsent.elim
  · have hfree : m'.otherEnd pid i = none := by
      by_cases hpid' : pid ∈ m'.pids
      · cases hroster with
        | same hlist => exact absurd (hkept.pids_eq hlist ▸ hpid') hpid
        | leave _ hlist => exact absurd ((hkept.pids_sublist hlist).subset hpid') hpid
        | @join _ param1 _ hlist hnew =>
          rw [hkept.pids_cons hlist hnew] at hpid'
          obtain rfl : pid = _ := (List.mem_cons.mp hpid').resolve_right hpid
          have hbrk : m.brk ∈ m'.brLst := hlist ▸ List.mem_cons_self
          have hlt := hports _ hbrk
          -- a count that is a negative `long` leaves no port
          have hcount : param1.toInt64.toInt ≤ param1.toNat := by
            show param1.toBitVec.toInt ≤ param1.toBitVec.toNat
            rw [BitVec.toInt_eq_toNat_cond]
            split <;> omega
          have hi : 0 ≤ (i : ℤ) ∧ (i : ℤ) < param1.toNat := by
            rw [hnew] at hlt
            exact ⟨Int.natCast_nonneg i, lt_of_lt_of_le hlt hcount⟩
          have hother := otherEnd_of_mem hnodup' hbrk i
          simp only [Mngr.partner, Mngr.entry, hnew, if_pos hi, PortT.zero, Option.map_none] at hother
          exact hother
      · exact otherEnd_of_notMem hpid' i
    rw [otherEnd_of_notMem hpid, hfree, addressed_of_notMem hnew hkept hpid]
    exact .nil none

end Trail

end Lacp
