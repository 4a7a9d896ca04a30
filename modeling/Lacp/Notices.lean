import Lacp.Library.Session
import Lacp.Network

/-!
# What the manager tells the bridges

Reference: `_link_two_ports`, `disconnect_port` and their callers.

Whatever the manager changes in the wire of a registered port, it tells the bridge of the port, and in the
order in which it changes it. So the control messages of an operation are a trail from the wire that the
port had to the wire that it has (`Wired.notices`). A wire that leads back to its own port is connected
twice.
-/

namespace Lacp

open Session Pairing

/-- What a control message says to the port it is for. -/
def MngrEvent.signal (x : PortPtr) : MngrEvent → Option (Signal BrIpcMsg)
  | .send bridge .portConnect port => if (bridge, port) = x then some .connect else none
  | .send bridge .portDisconnect port => if (bridge, port) = x then some .disconnect else none
  | .send _ .bridgeShutdown _ | .send _ .bridgeHandshake _ | .entry _ => none

/-- The port that a control message is for. -/
def MngrEvent.target : MngrEvent → Option PortPtr
  | .send bridge _ port => some (bridge, port)
  | .entry _ => none

/-- What `events`, the last one first, say to the port. -/
def signalsTo (x : PortPtr) (events : List MngrEvent) : List (Signal BrIpcMsg) :=
  events.reverse.filterMap (MngrEvent.signal x)

/-- The events in `new` lead from `m` to `m'`. Every port in `P` is told what becomes of its wire, and
only ports that exist are told anything. -/
structure Notices (P : Set PortPtr) (new : List MngrEvent) (m m' : Mngr) : Prop where
  trace : m'.trace = new ++ m.trace
  trail : ∀ x ∈ P, Trail (fun _ _ => False) (m.partner x) (signalsTo x new) (m'.partner x)
  targets : ∀ e ∈ new, ∀ x, e.target = some x → x ∈ m.portSet

section Writes

variable {P Q : Set PortPtr} {new new' : List MngrEvent} {m m' u : Mngr} {x y : PortPtr}

@[simp] theorem signalsTo_nil (x : PortPtr) : signalsTo x [] = [] := rfl

@[simp] theorem signalsTo_cons (x : PortPtr) (e : MngrEvent) (new : List MngrEvent) :
    signalsTo x (e :: new) = signalsTo x new ++ (e.signal x).toList := by
  simp only [signalsTo, List.reverse_cons, List.filterMap_append]
  cases h : e.signal x <;> simp [h]

theorem signalsTo_append (x : PortPtr) (new' new : List MngrEvent) :
    signalsTo x (new' ++ new) = signalsTo x new ++ signalsTo x new' := by
  simp only [signalsTo, List.reverse_append, List.filterMap_append]

@[simp] theorem signal_entry (x y : PortPtr) : (MngrEvent.entry y).signal x = none := rfl

@[simp] theorem signal_portConnect (x y : PortPtr) :
    (MngrEvent.send y.1 .portConnect y.2).signal x = if y = x then some .connect else none := rfl

@[simp] theorem target_send (y : PortPtr) (cmd : BrIpcCntrlCmd) :
    (MngrEvent.send y.1 cmd y.2).target = some y := rfl

@[simp] theorem target_entry (y : PortPtr) : (MngrEvent.entry y).target = none := rfl

@[simp] theorem signal_portDisconnect (x y : PortPtr) :
    (MngrEvent.send y.1 .portDisconnect y.2).signal x = if y = x then some .disconnect else none := rfl

theorem Notices.refl (P : Set PortPtr) (m : Mngr) : Notices P [] m m :=
  ⟨rfl, fun _ _ => .nil _, fun _ hin => nomatch hin⟩

theorem Notices.trans (h : Notices P new m u) (h' : Notices P new' u m') (hports : u.portSet = m.portSet) :
    Notices P (new' ++ new) m m' where
  trace := by rw [h'.trace, h.trace, List.append_assoc]
  trail := fun x hx => by
    rw [signalsTo_append]
    exact (h.trail x hx).append (h'.trail x hx)
  targets := fun e he x hx => by
    rcases List.mem_append.mp he with he | he
    · exact hports ▸ h'.targets e he x hx
    · exact h.targets e he x hx

theorem Notices.subset (h : Notices P new m m') (hsub : Q ⊆ P) : Notices Q new m m' :=
  ⟨h.trace, fun x hx => h.trail x (hsub hx), h.targets⟩

/-- An entry is read. -/
theorem notices_touch (P : Set PortPtr) (m : Mngr) (x : PortPtr) : Notices P [.entry x] m (m.touch x) :=
  ⟨rfl, fun _ _ => .nil _, by simp⟩

/-- What `disconnect_port` logs. -/
theorem trace_disconnectPort (h : m.partner x = some y) (resetMyself : Bool) :
    (m.disconnectPort x resetMyself).trace =
      [.entry (if resetMyself then x else y), .send y.1 .portDisconnect y.2, .entry x] ++ m.trace := by
  obtain ⟨hb, hj⟩ := partner_eq_some_iff.mp h
  simp only [Mngr.disconnectPort, entry_touch, hb, hj, entry_log]
  rfl

/-- `disconnect_port` from one end of a wire, and then from the other: both ends are told. -/
theorem notices_unlink (hx : x ∈ m.portSet) (hy : y ∈ m.portSet) (hxy : m.partner x = some y)
    (hyx : m.partner y = some x) :
    ∃ new, Notices Set.univ new m ((m.disconnectPort x true).disconnectPort y true) := by
  have hpartner := partner_disconnectPort_both hxy hyx
  have hfirst := trace_disconnectPort hxy true
  rcases partner_disconnectPort_end hxy hyx with ⟨hend, hne⟩ | ⟨hend, rfl⟩
  · have hsecond := trace_disconnectPort hend true
    rw [hfirst, ← List.append_assoc] at hsecond
    refine ⟨_, hsecond, fun z _ => ?_, by simp [-Prod.forall, hx, hy]⟩
    rw [hpartner]
    by_cases hzy : y = z
    · subst hzy
      simpa [hne.symm] using .disconnect (.nil none)
    · rw [Function.update_of_ne (Ne.symm hzy)]
      by_cases hzx : x = z
      · subst hzx
        simpa [hzy] using .disconnect (.nil none)
      · rw [Function.update_of_ne (Ne.symm hzx)]
        simpa [hzy, hzx] using .nil _
  · -- the wire leads back to its own port, which is told once
    have htouch : (m.disconnectPort y true).disconnectPort y true = (m.disconnectPort y true).touch y :=
      disconnectPort_of_none hend true
    have htrace : ((m.disconnectPort y true).disconnectPort y true).trace =
        [.entry y, .entry y, .send y.1 .portDisconnect y.2, .entry y] ++ m.trace := by
      rw [htouch]
      exact congrArg (MngrEvent.entry y :: ·) hfirst
    refine ⟨_, htrace, fun z _ => ?_, by simp [-Prod.forall, hy]⟩
    rw [hpartner, Function.update_idem]
    by_cases hzy : y = z
    · subst hzy
      simpa using .disconnect (.nil none)
    · rw [Function.update_of_ne (Ne.symm hzy)]
      simpa [hzy] using .nil _

/-- `_link_two_ports` on two ports without a wire: both are told. -/
theorem notices_link (hx : x ∈ m.portSet) (hy : y ∈ m.portSet) (hpx : m.partner x = none)
    (hpy : m.partner y = none) :
    ∃ new, Notices Set.univ new m (m.linkTwoPorts x.1 x x.2 y.1 y y.2) := by
  have htrace : (m.linkTwoPorts x.1 x x.2 y.1 y y.2).trace =
      [.send y.1 .portConnect y.2, .send x.1 .portConnect x.2, .entry y, .entry x] ++ m.trace := rfl
  refine ⟨_, htrace, fun z _ => ?_, by simp [-Prod.forall, hx, hy]⟩
  simp only [Mngr.linkTwoPorts, partner_log, partner_setEntry, Option.map_some]
  by_cases hzy : y = z
  · subst hzy
    rw [Function.update_self]
    by_cases hyx : x = y
    · -- the other end of the wire is the port itself
      subst hyx
      simpa using .connect (.inl hpx) (.connect (.inr rfl) (.nil _))
    · simpa [hyx] using .connect (.inl hpy) (.nil _)
  · rw [Function.update_of_ne (Ne.symm hzy)]
    by_cases hzx : x = z
    · subst hzx
      simpa [hzy] using .connect (.inl hpx) (.nil _)
    · rw [Function.update_of_ne (Ne.symm hzx)]
      simpa [hzy, hzx] using .nil _

/-- `disconnect_port` before a port leaves: the other end is told, and only the port that leaves is
not. -/
theorem notices_leave (hy : y ∈ m.portSet) (hxy : m.partner x = some y) :
    ∃ new, Notices {z | z ≠ x} new m (m.disconnectPort x false) := by
  refine ⟨_, trace_disconnectPort hxy false, fun z hz => ?_, by simp [-Prod.forall, hy]⟩
  have hpartner : (m.disconnectPort x false).partner = Function.update m.partner y none :=
    (disconnects_of_some hxy false).partner
  rw [hpartner]
  by_cases hzy : y = z
  · subst hzy
    simpa using .disconnect (.nil none)
  · rw [Function.update_of_ne (Ne.symm hzy)]
    simpa [hzy] using .nil _

end Writes

/-! ## The operations -/

section Operations

variable {m m' : Mngr}

/-- The loop of `unregister_bridge`: the ports of the other bridges are told. -/
theorem Unregistering.notices {oldbr : BridgeAddr} {k : ℕ} (h : Wired m) (hlisted : oldbr ∈ m.brLst)
    (hk : k ≤ (m.bridge oldbr).numberOfPorts.toNat) :
    ∃ new, Notices {z | z.1 ≠ oldbr} new m ((List.range k).foldl (Mngr.unregisterPort oldbr) m) := by
  induction k with
  | zero => exact ⟨[], .refl _ m⟩
  | succ k ih =>
    rw [List.range_succ, List.foldl_append, List.foldl_cons, List.foldl_nil]
    obtain ⟨new, hnew⟩ := ih (by omega)
    obtain ⟨htables, hpairing, -⟩ : Unregistering m oldbr k _ := .foldl h hlisted (by omega)
    set u := (List.range k).foldl (Mngr.unregisterPort oldbr) m
    set x : PortPtr := (oldbr, (k : ℤ)) with hx
    have hlive : x ∈ m.portSet \ {x | x.1 = oldbr ∧ x.2 < k} :=
      ⟨⟨hlisted, Int.natCast_nonneg k, by simp only [hx]; omega⟩, fun hin => hin.2.false⟩
    have htouched := hnew.trans (notices_touch _ u x) htables.portSet
    cases hpartner : u.partner x with
    | none =>
      have hrun : Mngr.unregisterPort oldbr u k = u.touch x := by
        simp only [Mngr.unregisterPort, entry_touch, ← hx, partner_eq_none_iff.mp hpartner,
          Option.isSome_none, Bool.false_eq_true, if_false]
      rw [hrun]
      exact ⟨_, htouched⟩
    | some y =>
      have hsome := (partner_eq_some_iff.mp hpartner).1
      have hrun : Mngr.unregisterPort oldbr u k = (u.touch x).disconnectPort x false := by
        simp only [Mngr.unregisterPort, entry_touch, ← hx, hsome, Option.isSome_some, if_true]
      have hports : (u.touch x).portSet = m.portSet :=
        (htables.trans (sameTables_log u _)).portSet
      have hy : y ∈ (u.touch x).portSet := hports ▸ (hpairing x hlive y hpartner).1.1
      obtain ⟨last, hlast⟩ := notices_leave (m := u.touch x) hy hpartner
      rw [hrun]
      refine ⟨_, htouched.trans (hlast.subset fun z hz => ?_) hports⟩
      rintro rfl
      exact hz rfl

theorem Wired.notices_unregisterBridge (h : Wired m) {senderPid : Int64}
    (hrun : m.unregisterBridge senderPid = some m') :
    ∃ new, Notices m'.portSet new m m' := by
  unfold Mngr.unregisterBridge at hrun
  cases hfind : m.brLst.find? fun br => (m.bridge br).pid == senderPid with
  | none =>
    obtain rfl : m = m' := by simpa [hfind] using hrun
    exact ⟨[], .refl _ m⟩
  | some oldbr =>
    have hlisted : oldbr ∈ m.brLst := List.mem_of_find?_eq_some hfind
    set n := (m.bridge oldbr).numberOfPorts with hn
    obtain ⟨htables, -, -⟩ : Unregistering m oldbr n.toNat _ := .foldl h hlisted le_rfl
    obtain ⟨new, hnew⟩ := Unregistering.notices (k := n.toNat) h hlisted le_rfl
    set u := (List.range n.toNat).foldl (Mngr.unregisterPort oldbr) m with hu
    obtain ⟨-, rfl⟩ : n ≤ 0x7fffffff ∧ { u with brLst := u.brLst.erase oldbr } = m' := by
      simpa [hfind, ← hn, ← hu] using hrun
    refine ⟨new, hnew.trace, fun z hz => hnew.trail z ?_, hnew.targets⟩
    rintro rfl
    have hin := hz.1
    rw [htables.brLst, h.nodup.mem_erase_iff] at hin
    exact hin.1 rfl

theorem notices_linkPorts {pid1 pid2 : Int64} {indx1 indx2 : ℤ}
    (hin : m.LinksInTable pid1 indx1 pid2 indx2) :
    ∃ new, Notices Set.univ new m (m.linkPorts pid1 indx1 pid2 indx2) := by
  unfold Mngr.linkPorts
  cases hbr1 : m.lastBridge none pid1 with
  | none => exact ⟨[], .refl _ m⟩
  | some br1 =>
  cases hbr2 : m.lastBridge none pid2 with
  | none => exact ⟨[], .refl _ m⟩
  | some br2 =>
    simp only [Bool.or_eq_true, decide_eq_true_eq]
    split
    · exact ⟨[], .refl _ m⟩
    split
    · exact ⟨[], .refl _ m⟩
    rename_i hrange1 hrange2
    obtain ⟨hlt1, hlt2⟩ := hin br1 hbr1 br2 hbr2 (by omega) (by omega) (by omega) (by omega)
    have hport1 : (br1, indx1) ∈ m.portSet := ⟨lastBridge_mem hbr1, by omega, hlt1⟩
    have hport2 : (br2, indx2) ∈ m.portSet := ⟨lastBridge_mem hbr2, by omega, hlt2⟩
    have htouched := (notices_touch Set.univ m (br1, indx1)).trans
      (notices_touch _ (m.touch (br1, indx1)) (br2, indx2)) rfl
    split
    · exact ⟨_, htouched⟩
    rename_i hfree
    rw [not_or, Option.not_isSome_iff_eq_none, Option.not_isSome_iff_eq_none] at hfree
    obtain ⟨new, hnew⟩ := notices_link (m := (m.touch (br1, indx1)).touch (br2, indx2))
      (x := (br1, indx1)) (y := (br2, indx2)) hport1 hport2 (partner_eq_none_iff.mpr hfree.1)
      (partner_eq_none_iff.mpr hfree.2)
    exact ⟨_, htouched.trans hnew rfl⟩

theorem Wired.notices_unlinkIndex (h : Wired m) {br1 : Option BridgeAddr} {pid1 : Int64} {indx1 : ℤ}
    (hin : m.UnlinksInTable br1 pid1 indx1) :
    ∃ new, Notices Set.univ new m (m.unlinkIndex br1 pid1 indx1) := by
  unfold Mngr.unlinkIndex
  cases hbr : m.lastBridge br1 pid1 with
  | none => exact ⟨[], .refl _ m⟩
  | some br =>
    simp only [Bool.or_eq_true, decide_eq_true_eq]
    split
    · exact ⟨[], .refl _ m⟩
    rename_i hrange
    obtain ⟨hlisted, hlt⟩ := hin br hbr (by omega) (by omega)
    have hport : (br, indx1) ∈ m.portSet := ⟨hlisted, by omega, hlt⟩
    have htouched := notices_touch Set.univ m (br, indx1)
    cases hpartner : ((m.touch (br, indx1)).entry (br, indx1)).bridgePartner with
    | none => exact ⟨_, htouched⟩
    | some br2 =>
      have hxy : m.partner (br, indx1) = some (br2, (m.entry (br, indx1)).portPartner) :=
        partner_eq_some_iff.mpr ⟨hpartner, rfl⟩
      obtain ⟨hy, hyx⟩ := h.pairing _ hport _ hxy
      obtain ⟨new, hnew⟩ := notices_unlink (m := m.touch (br, indx1)) hport hy hxy hyx
      exact ⟨_, htouched.trans hnew rfl⟩

/-- `register_bridge` changes no wire of the bridges that were there. -/
theorem Wired.partner_registerBridge (h : Wired m) (senderPid : Int64) (param1 : UInt64)
    (memory : Option (ℤ → PortT)) {x : PortPtr} (hx : x.1 ∈ m.brLst) :
    (m.registerBridge senderPid param1 memory).partner x = m.partner x := by
  cases memory with
  | none => rfl
  | some around =>
    have hold : (m.registerBridge senderPid param1 (some around)).bridge x.1 = m.bridge x.1 :=
      if_neg (h.addr_lt _ hx).ne
    simp only [Mngr.partner, Mngr.entry, hold]

/-- Every port that is there before and after a call of a run is told what becomes of its wire. -/
theorem Wired.notices (h : Wired m) {c : MngrCall} (hin : c.InTable m) (hrun : runMngrCall m c = some m') :
    ∃ new, Notices (m.portSet ∩ m'.portSet) new m m' := by
  cases c with
  | handshake senderPid param1 memory =>
    obtain rfl := Option.some.inj hrun
    refine ⟨[], ?_, fun x hx => ?_, fun _ hin => nomatch hin⟩
    · cases memory <;> rfl
    · rw [h.partner_registerBridge senderPid param1 memory hx.1.1]
      exact .nil _
  | shutdown senderPid =>
    obtain ⟨new, hnew⟩ := h.notices_unregisterBridge hrun
    exact ⟨new, hnew.subset Set.inter_subset_right⟩
  | link argv =>
    obtain rfl := Option.some.inj hrun
    unfold Mngr.linkBridges
    split
    · obtain ⟨new, hnew⟩ := notices_linkPorts hin
      exact ⟨new, hnew.subset (Set.subset_univ _)⟩
    · exact ⟨[], .refl _ m⟩
  | unlink argv br1 =>
    obtain rfl := Option.some.inj hrun
    unfold Mngr.unlinkPort
    split
    · obtain ⟨new, hnew⟩ := h.notices_unlinkIndex hin
      exact ⟨new, hnew.subset (Set.subset_univ _)⟩
    · exact ⟨[], .refl _ m⟩

end Operations

end Lacp
