import Lacp.Farewell

/-!
# Disabling a port

Reference: "delete from agg" in `lacp_port_set_cfg`.

A port that is disabled clears `actor.AGG`, asks for a transmission and runs the engine before it stops
running LACP. `hold_count` can hold that transmission back, and then the request is dropped with the port.
The loop of `lacp_port_set_cfg` takes the ports one by one; a round leaves the ports of larger indices
running (`Looped.round`), and the groups alone that no port has left (`Departs.groupKept`). The first port
to leave a group only sends while the engine runs (`OnlySends`); it is the next run that selects the group
anew. So the partner is told exactly if there is room when the loop comes to the port
(`reachable_saysFarewell_iff`).
-/

namespace Lacp

open Fuel (Returns)
open Relation (ReflTransGen)

/-- The configuration disables LACP on the port with index `i`. -/
structure LacpPortCfg.Disables (cfg : LacpPortCfg) (i : ℕ) : Prop where
  disabling : cfg.Disabling
  named : lacpBitmapGetBit cfg.portBmp i = true

/-- Between a port of the group of `a` that the configuration names and `a` itself, it names no other. -/
def LacpPortCfg.NamesNoneBetween (cfg : LacpPortCfg) (w : World) (a : Addr) : Prop :=
  ∀ b ∈ w.sys.ports, ∀ c ∈ w.sys.ports, (w.port b).portIndex < (w.port c).portIndex →
    (w.port c).portIndex < (w.port a).portIndex → lacpBitmapGetBit cfg.portBmp (w.port b).portIndex = true →
      lacpBitmapGetBit cfg.portBmp (w.port c).portIndex = true → (w.port b).aggId ≠ (w.port a).aggId

/-- The state in which the loop of `lacp_port_set_cfg` comes to the index `i`. -/
def cfgReaches (fuel : ℕ) (w : World) (cfg : LacpPortCfg) (i : ℕ) : Option World :=
  (List.range i).foldlM (cfgPortIndex fuel cfg) (lacpCriticalPathStart w)

/-! ## The other members of the group -/

/-- `q` differs from `p` in what concerns transmissions only. -/
def Sends (p q : LacpPort) : Prop :=
  ∃ tx ntt periodicTimer holdCount txLacpduCnt actorAdmin actor, q = { p with
    tx := tx
    ntt := ntt
    periodicTimer := periodicTimer
    holdCount := holdCount
    txLacpduCnt := txLacpduCnt
    actorAdmin := actorAdmin
    actor := actor }

theorem Sends.txEntered {p q : LacpPort} (h : Sends p q) (sys : LacpSys) (s : TxState) :
    Sends p (txEntered sys { q with tx := ⟨false, s⟩ }) := by
  obtain ⟨tx, ntt, periodicTimer, holdCount, txLacpduCnt, actorAdmin, actor, rfl⟩ := h
  cases s <;> exact ⟨_, _, _, _, _, _, _, rfl⟩

/-- Since `v` the port at `b` has sent, and no other port of the group has moved. -/
structure OnlySends (g : ℕ) (b : Addr) (v y : World) : Prop where
  ports : y.sys.ports = v.sys.ports
  sends : Sends (v.port b) (y.port b)
  port : ∀ c ∈ v.sys.ports, (v.port c).aggId = g → c ≠ b → y.port c = v.port c
  aggId : ∀ c ∈ v.sys.ports, (y.port c).aggId = g → (v.port c).aggId = g
  txHoldCount : y.sys.txHoldCount = v.sys.txHoldCount

section OnlySends

variable {E : Set ℕ} {g : ℕ} {v w w' y z : World} {b c : Addr}

theorem OnlySends.kept (h : OnlySends g b v y) (hc : c ∈ v.sys.ports) (hcg : (v.port c).aggId = g) :
    (y.port c).aggId = (v.port c).aggId ∧ (y.port c).selected = (v.port c).selected ∧
      (y.port c).standby = (v.port c).standby ∧ (y.port c).readyN = (v.port c).readyN := by
  by_cases hcb : c = b
  · obtain ⟨_, _, _, _, _, _, _, hown⟩ := h.sends
    rw [hcb, hown]
    exact ⟨rfl, rfl, rfl, rfl⟩
  · rw [h.port c hc hcg hcb]
    exact ⟨rfl, rfl, rfl, rfl⟩

/-- A member that only sends makes nobody ready. -/
theorem OnlySends.sysIsReady (h : OnlySends g b v y) (hc : c ∈ v.sys.ports) (hcg : (v.port c).aggId = g) :
    sysIsReady y c = sysIsReady v c :=
  sysIsReady_congr h.ports (h.kept hc hcg).1 (fun _ hp hpg => h.kept hp (hpg.trans hcg))
    fun p hp hpg => (h.aggId p hp (hpg.trans hcg)).trans hcg.symm

/-- The other members stay at rest, and so do the other machines of the port that sends. -/
theorem OnlySends.rest (h : OnlySends g b v y) (hc : c ∈ v.sys.ports) (hcg : (v.port c).aggId = g)
    (hrest : AtRest v c) : lacpRxCheckConditions y c = none ∧ lacpSelCheckConditions y c = none ∧
      lacpMuxCheckConditions y c = none ∧ (c ≠ b → lacpTxCheckConditions y c = none) := by
  have hready := h.sysIsReady hc hcg
  by_cases hcb : c = b
  · obtain ⟨hrx, hsel, hmux, -⟩ := hrest
    obtain ⟨_, _, _, _, _, _, _, hown⟩ := h.sends
    subst hcb
    refine ⟨?_, ?_, ?_, fun hne => absurd rfl hne⟩
    · simpa only [lacpRxCheckConditions, hown] using hrx
    · simpa only [lacpSelCheckConditions, hown] using hsel
    · simpa only [lacpMuxCheckConditions, hown, hready] using hmux
  · obtain ⟨hrx, hsel, hmux, htx⟩ := atRest_congr (h.port c hc hcg hcb) hready h.txHoldCount hrest
    exact ⟨hrx, hsel, hmux, fun _ => htx⟩

/-- What moves in the group is the transmit machine of the port that sends. -/
theorem OnlySends.hop (h : OnlySends g b v y) (hc : Coherent E y) (hb : b ∈ v.sys.ports) (hbg : (v.port b).aggId = g)
    (hrest : ∀ c ∈ v.sys.ports, (v.port c).aggId = g → AtRest v c) (hop : OrderedHop y z) :
    OnlySends g b v z := by
  obtain ⟨a, ha, hmoves, hsends, hisolated⟩ := hop.engineHop.exists_isolated hc
  have hav : a ∈ v.sys.ports := h.ports ▸ ha
  by_cases hag : (y.port a).aggId = g
  · have hagv := h.aggId a hav hag
    obtain ⟨hrx, hsel, hmux, htx⟩ := h.rest hav hagv (hrest a hav hagv)
    obtain rfl : a = b := by
      by_contra hab
      exact hmoves ⟨hrx, hsel, hmux, htx hab⟩
    obtain ⟨s, rfl⟩ := hsends hrx hsel hmux
    refine ⟨h.ports, ?_, fun c hcv hcg hca => ?_, fun c hcv hcg => ?_, h.txHoldCount⟩
    · rw [txHop_port_self]
      exact h.sends.txEntered _ s
    · rw [txHop_port_of_ne _ hca]
      exact h.port c hcv hcg hca
    · exact h.aggId c hcv ((congrArg PortSettings.aggId (hop.engineHop.settings_eq c)).symm.trans hcg)
  · have hkept := hisolated.groupKept (Ne.symm hag)
    have hy : ∀ c ∈ v.sys.ports, c ∈ y.sys.ports := fun c hcv => h.ports.symm ▸ hcv
    have hport : ∀ c ∈ v.sys.ports, (v.port c).aggId = g → z.port c = y.port c := fun c hcv hcg =>
      hkept.port c (hy c hcv) ((h.kept hcv hcg).1.trans hcg)
    refine ⟨hkept.ports.trans h.ports, ?_, fun c hcv hcg hcb => ?_, fun c hcv hcg => ?_,
      hkept.txHoldCount.trans h.txHoldCount⟩
    · rw [hport b hb hbg]
      exact h.sends
    · rw [hport c hcv hcg]
      exact h.port c hcv hcg hcb
    · exact h.aggId c hcv (hkept.aggId c (hy c hcv) hcg)

end OnlySends
/-! ## One round of the loop -/

/-- What `lacp_port_set_cfg` makes of the record of a port that it disables, once the engine has run. -/
def disablePort (cfg : LacpPortCfg) (p : LacpPort) : LacpPort :=
  let p := leavePort p
  let p := if cfg.cfgStat then statPort p else p
  if cfg.cfgPrio then prioPort cfg.portPriority p else p

/-- The port at `b` leaves its group: the engine runs from `v`, where its partner is to be told, to `x`,
and the port is disabled in `v'`. -/
structure Departs (cfg : LacpPortCfg) (b : Addr) (v x v' : World) : Prop where
  hops : ReflTransGen OrderedHop (notifyPartner v b) x
  quiescent : Quiescent x
  aggId : (x.port b).aggId ≠ 0
  update : Update x v' x.sys ∅ (reconfigured b (x.port b).aggId (disablePort cfg))

/-- The state before round `n` of the loop of `lacp_port_set_cfg`, which began in `w`: the ports of larger
indices still run LACP. -/
structure Looped (cfg : LacpPortCfg) (w : World) (n : ℕ) (v : World) : Prop where
  coherent : Coherent {j | j < n ∧ lacpBitmapGetBit cfg.portBmp j = true} v
  ports : v.sys.ports = w.sys.ports
  sys : SysKept w.sys v.sys
  portIndex : ∀ b ∈ w.sys.ports, (v.port b).portIndex = (w.port b).portIndex
  lacpEnabled : ∀ b ∈ w.sys.ports, n ≤ (w.port b).portIndex → (v.port b).lacpEnabled = true

section Round

variable {E : Set ℕ} {w v v' x : World} {a b : Addr} {cfg : LacpPortCfg} {fuel n : ℕ}

/-- A block of `lacp_port_set_cfg` that its bit of `field_mask` selects. -/
theorem update_modify_ite (w : World) (c : Bool) (u : LacpPort → LacpPort) :
    Update w (if c then w.modify a u else w) w.sys ∅ (onlyAt a fun p => if c then u p else p) := by
  cases c with
  | true => exact update_modify w u
  | false =>
    refine (update_lockDepth w ∅ w.lockDepth).congr (fun b _ => ?_) subset_rfl
    simp [onlyAt]

/-- The blocks after the engine ran. A port without a group reselects nobody. -/
theorem departs_of_cfgPort (hcfg : cfg.Disabling) (hidle : Idle (notifyPartner v b))
    (hagg : (v.port b).aggId ≠ 0) (hrun : cfgPort fuel cfg v b = some v') :
    ∃ x, Departs cfg b v x v' := by
  obtain ⟨hstate, hlac⟩ := hcfg
  simp only [cfgPort, hstate, if_true, cfgPortState, hlac, Bool.false_eq_true, if_false,
    Option.map_map] at hrun
  obtain ⟨x, hupdate, hv'⟩ := Option.map_eq_some_iff.mp hrun
  obtain ⟨hhops, hq, _⟩ := lacpSysUpdate_spec hidle hupdate
  have haggx : (x.port b).aggId ≠ 0 := (membership_of_notified hhops b).2.2 ▸ hagg
  refine ⟨x, hhops, hq, haggx, ?_⟩
  set y := setLacpEnabled (leaveAgg x b) b false with hy
  set z := if cfg.cfgStat then cfgPortStat y b else y with hz
  have hself : (y.port b).aggId = 0 := by
    simp only [hy, setLacpEnabled, leaveAgg, modify_port_self]
  have halone : ∀ u : World, (u.port b).aggId = 0 → lacpPortSetReselect u (some b) = u :=
    fun u hu => if_neg (not_not_intro hu)
  have hleave : Update x y x.sys ∅ (reconfigured b (x.port b).aggId leavePort) := update_leave haggx
  have hstat : Update y z y.sys ∅ (onlyAt b fun p => if cfg.cfgStat then statPort p else p) :=
    update_modify_ite y cfg.cfgStat statPort
  have hprio : Update z (if cfg.cfgPrio then z.modify b (prioPort cfg.portPriority) else z) z.sys ∅
      (onlyAt b fun p => if cfg.cfgPrio then prioPort cfg.portPriority p else p) :=
    update_modify_ite z cfg.cfgPrio (prioPort cfg.portPriority)
  have hend : v' = if cfg.cfgPrio then z.modify b (prioPort cfg.portPriority) else z := by
    rw [← hv']
    simp only [Function.comp_apply, ← hy, halone y hself, ite_self, ← hz]
    split
    · refine halone _ ?_
      rw [modify_port_self, hz]
      split
      · exact (congrArg LacpPort.aggId (modify_port_self y b statPort)).trans hself
      · exact hself
    · rfl
  rw [hend]
  refine ((hleave.trans hstat subset_rfl).trans hprio subset_rfl).congr (fun c _ => ?_) subset_rfl
  by_cases hcb : c = b
  · simp only [onlyAt, reconfigured, if_pos hcb, disablePort]
    split <;> split <;> rfl
  · simp only [onlyAt, reconfigured, if_neg hcb]

theorem disablePort_core (p : LacpPort) : (disablePort cfg p).core = p.core := by
  simp only [disablePort]
  split <;> split <;> rfl

theorem disablePort_lacpEnabled (p : LacpPort) : (disablePort cfg p).lacpEnabled = false := by
  simp only [disablePort]
  split <;> split <;> rfl

/-- The port of the round that begins is exempt. -/
theorem Looped.grows (h : Looped cfg w n v) :
    Coherent {j | j < n + 1 ∧ lacpBitmapGetBit cfg.portBmp j = true} v :=
  h.coherent.mono fun _ hj => ⟨Nat.lt_succ_of_lt hj.1, hj.2⟩

/-- While the engine runs, the port that is to leave is exempt. -/
theorem Looped.notified (h : Looped cfg w n v) (hb : b ∈ w.sys.ports)
    (hindex : (w.port b).portIndex = n) (hnamed : lacpBitmapGetBit cfg.portBmp n = true) :
    Coherent {j | j < n + 1 ∧ lacpBitmapGetBit cfg.portBmp j = true} (notifyPartner v b) := by
  refine h.grows.notify ?_ (update_modify v notifyPort)
  rw [h.portIndex b hb, hindex]
  exact ⟨Nat.lt_succ_self n, hnamed⟩

theorem Looped.departs (h : Looped cfg w n v) (hb : b ∈ w.sys.ports)
    (hindex : (w.port b).portIndex = n) (hnamed : lacpBitmapGetBit cfg.portBmp n = true)
    (hd : Departs cfg b v x v') : Looped cfg w (n + 1) v' := by
  have hx := (h.notified hb hindex hnamed).hops hd.hops
  have hsys : x.sys = v.sys := (hops_sys_eq hd.hops).trans rfl
  have hports : x.sys.ports = w.sys.ports := (congrArg LacpSys.ports hsys).trans h.ports
  have hkeep := membership_of_notified hd.hops
  have hbx : b ∈ x.sys.ports := hports ▸ hb
  refine ⟨?_, hd.update.ports.trans hports, ?_, fun c hc => ?_, fun c hc hle => ?_⟩
  · refine hx.reconfigure hbx hd.update disablePort_core (fun _ _ _ => .inr rfl) ?_
    have hE : (x.port b).portIndex ∈ {j | j < n + 1 ∧ lacpBitmapGetBit cfg.portBmp j = true} := by
      rw [(hkeep b).1, h.portIndex b hb, hindex]
      exact ⟨Nat.lt_succ_self n, hnamed⟩
    have hleft := (hx.port b hbx).leave (hx.portQuiet hd.quiescent hbx) hE
    -- the counters and the priority do not matter
    simp only [disablePort]
    split <;> split <;> exact { hleft with }
  · exact h.sys.trans (hsys ▸ hd.update.sys)
  · rw [hd.update.port c (hports ▸ hc), ← h.portIndex c hc, ← (hkeep c).1]
    exact portIndex_of_core (reconfigured_core disablePort_core b c _ _)
  · have hcb : c ≠ b := by
      rintro rfl
      omega
    have hlac : (x.port c).lacpEnabled = true :=
      (hkeep c).2.1.trans (h.lacpEnabled c hc (Nat.le_of_succ_le hle))
    rw [hd.update.port c (hports ▸ hc), reconfigured, if_neg hcb]
    split <;> exact hlac

/-- A round passes over its index, or the port with this index leaves. -/
theorem Looped.round (h : Looped cfg w n v) (hcfg : cfg.Disabling)
    (hrun : cfgPortIndex fuel cfg v n = some v') :
    Looped cfg w (n + 1) v' ∧
      (v' = v ∧ (lacpBitmapGetBit cfg.portBmp n = true → ∀ b ∈ w.sys.ports, (w.port b).portIndex ≠ n) ∨
        lacpBitmapGetBit cfg.portBmp n = true ∧
          ∃ b ∈ w.sys.ports, (w.port b).portIndex = n ∧ ∃ x, Departs cfg b v x v') := by
  have hskip : Looped cfg w (n + 1) v :=
    { h with
      coherent := h.grows
      lacpEnabled := fun b hb hle => h.lacpEnabled b hb (Nat.le_of_succ_le hle) }
  rw [cfgPortIndex] at hrun
  by_cases hnamed : lacpBitmapGetBit cfg.portBmp n = true
  · rw [if_neg (by simp [hnamed])] at hrun
    cases hfind : lacpPortFind v n with
    | none =>
      rw [hfind] at hrun
      obtain rfl := Option.some.inj hrun
      have hnone : ∀ b ∈ w.sys.ports, (w.port b).portIndex ≠ n := fun b hb => by
        rw [← h.portIndex b hb]
        exact lacpPortFind_eq_none.mp hfind b (h.ports ▸ hb)
      exact ⟨hskip, .inl ⟨rfl, fun _ => hnone⟩⟩
    | some b =>
      rw [hfind] at hrun
      obtain ⟨hbv, hindexv⟩ := lacpPortFind_eq_some hfind
      have hb : b ∈ w.sys.ports := h.ports ▸ hbv
      have hindex : (w.port b).portIndex = n := (h.portIndex b hb).symm.trans hindexv
      have hagg := h.coherent.aggId_ne_zero hbv (h.lacpEnabled b hb hindex.ge)
      obtain ⟨x, hd⟩ := departs_of_cfgPort hcfg (h.notified hb hindex hnamed).idle hagg hrun
      exact ⟨h.departs hb hindex hnamed hd, .inr ⟨hnamed, b, hb, hindex, x, hd⟩⟩
  · rw [if_pos (by simp [hnamed])] at hrun
    obtain rfl := Option.some.inj hrun
    exact ⟨hskip, .inl ⟨rfl, fun hin => absurd hin hnamed⟩⟩

/-! ## The loop -/

/-- The loop begins at rest. -/
theorem looped_zero (h : Coherent ∅ w) : Looped cfg w 0 (lacpCriticalPathStart w) where
  coherent := (h.update (update_lockDepth w ∅ _) (fun _ _ => rfl) h.port).mono (Set.empty_subset _)
  ports := rfl
  sys := rfl
  portIndex := fun _ _ => rfl
  lacpEnabled := fun b hb _ => (h.port b hb).enabled (Set.notMem_empty _)

/-- What the rounds before a port leave of it. -/
theorem Awaits.departs (h : Awaits a v) (hv : Looped cfg w n v) (hb : b ∈ w.sys.ports)
    (hindex : (w.port b).portIndex = n) (hnamed : lacpBitmapGetBit cfg.portBmp n = true)
    (hlt : n < (w.port a).portIndex) (hd : Departs cfg b v x v') :
    farewells (w.port a).portIndex v'.trace = farewells (w.port a).portIndex v.trace ∧
      Awaits a v' := by
  have ha : a ∈ w.sys.ports := hv.ports ▸ h.listed
  have hab : a ≠ b := by
    rintro rfl
    omega
  have hself : (notifyPartner v b).port a = v.port a := by
    simp only [notifyPartner, modify_port, if_neg hab]
  have hawaits : Awaits a (notifyPartner v b) := by
    refine ⟨h.listed, ?_, ?_⟩
    · rw [hself]
      exact h.running
    · rw [hself]
      exact h.dormant
  have hindexa : ((notifyPartner v b).port a).portIndex = (w.port a).portIndex := by
    rw [hself]
    exact hv.portIndex a ha
  have hspared : ((notifyPartner v b).port a).portIndex ∉
      {j | j < n + 1 ∧ lacpBitmapGetBit cfg.portBmp j = true} := by
    rw [hindexa]
    exact fun hin => absurd hin.1 (by omega)
  obtain ⟨hcount, hx⟩ := hawaits.hops (hv.notified hb hindex hnamed) hspared hd.hops
  rw [hindexa] at hcount
  have hport := hd.update.port a hx.listed
  refine ⟨?_, hd.update.ports ▸ hx.listed, ?_, ?_⟩
  · rw [hd.update.trace]
    exact hcount
  · rw [hport, reconfigured, if_neg hab]
    split
    · exact hx.running.deselect
    · exact hx.running
  · rw [hport, hd.update.sys.txHoldCount, reconfigured, if_neg hab]
    split
    · exact fun hagg => { hx.dormant hagg with }
    · exact hx.dormant

theorem cfgReaches_succ : cfgReaches fuel w cfg (n + 1) =
    (cfgReaches fuel w cfg n).bind fun v => cfgPortIndex fuel cfg v n := by
  simp only [cfgReaches, List.range_succ, List.foldlM_append, List.foldlM_cons, List.foldlM_nil,
    Option.pure_def, Option.bind_eq_bind, Option.bind_fun_some]

theorem looped_of_cfgReaches (h : Coherent ∅ w) (hcfg : cfg.Disabling)
    (hrun : cfgReaches fuel w cfg n = some v) : Looped cfg w n v := by
  induction n generalizing v with
  | zero =>
    obtain rfl := Option.some.inj hrun
    exact looped_zero h
  | succ n ih =>
    rw [cfgReaches_succ] at hrun
    obtain ⟨u, hu, hlast⟩ := Option.bind_eq_some_iff.mp hrun
    exact ((ih hu).round hcfg hlast).1

/-- The rounds before a port. -/
theorem awaits_of_cfgReaches (h : Coherent ∅ w) (hcfg : cfg.Disabling) (ha : Awaits a w)
    (hn : n ≤ (w.port a).portIndex) (hrun : cfgReaches fuel w cfg n = some v) :
    Awaits a v ∧
      farewells (w.port a).portIndex v.trace = farewells (w.port a).portIndex w.trace := by
  induction n generalizing v with
  | zero =>
    obtain rfl := Option.some.inj hrun
    exact ⟨⟨ha.listed, ha.running, ha.dormant⟩, rfl⟩
  | succ n ih =>
    rw [cfgReaches_succ] at hrun
    obtain ⟨u, hu, hlast⟩ := Option.bind_eq_some_iff.mp hrun
    obtain ⟨hawaits, hcount⟩ := ih (Nat.le_of_succ_le hn) hu
    have hlooped := looped_of_cfgReaches h hcfg hu
    obtain ⟨_, ⟨rfl, _⟩ | ⟨hnamed, b, hb, hindex, x, hd⟩⟩ := hlooped.round hcfg hlast
    · exact ⟨hawaits, hcount⟩
    · obtain ⟨hkept, hawaits'⟩ := hawaits.departs hlooped hb hindex hnamed hn hd
      exact ⟨hawaits', hkept.trans hcount⟩

/-- A port leaves the ports of another group alone, if these are at rest. -/
theorem Departs.groupKept (hd : Departs cfg b v x v') (hv : Looped cfg w n v) (hb : b ∈ w.sys.ports)
    (hindex : (w.port b).portIndex = n) (hnamed : lacpBitmapGetBit cfg.portBmp n = true) {g : ℕ}
    (hg : g ≠ 0) (hbg : (v.port b).aggId ≠ g)
    (hrest : ∀ c ∈ v.sys.ports, (v.port c).aggId = g → AtRest v c) : GroupKept g v v' := by
  have hnotified : GroupKept g v (notifyPartner v b) := by
    refine ⟨rfl, rfl, fun c _ hcg => ?_, fun c _ hcg => ?_⟩
    · have hcb : c ≠ b := fun hcb => hbg (hcb ▸ hcg)
      simp only [notifyPartner, modify_port, if_neg hcb]
    · exact (membership_of_notified (v := v) (a := b) .refl c).2.2.symm.trans hcg
  -- a port that moves is in another group
  have hrun : ∀ y, ReflTransGen OrderedHop (notifyPartner v b) y → GroupKept g v y := by
    intro y hhops
    induction hhops with
    | refl => exact hnotified
    | @tail y z hhops hop hkept =>
      have hy := (hv.notified hb hindex hnamed).hops hhops
      obtain ⟨c, hc, hmoves, -, hisolated⟩ := hop.engineHop.exists_isolated hy
      refine hkept.trans (hisolated.groupKept fun hcg => hmoves ?_)
      have hcv : c ∈ v.sys.ports := hkept.ports ▸ hc
      have hcg' := hkept.aggId c hcv hcg.symm
      exact hkept.atRest hcv hcg' (hrest c hcv hcg')
  have hx := hrun x hd.hops
  have hbgx : (x.port b).aggId ≠ g := by
    rw [(membership_of_notified hd.hops b).2.2]
    exact hbg
  refine hx.trans ⟨hd.update.ports, hd.update.sys.txHoldCount, fun c hc hcg => ?_, fun c hc hcg => ?_⟩
  · have hcb : c ≠ b := fun hcb => hbgx (hcb ▸ hcg)
    rw [hd.update.port c hc, reconfigured, if_neg hcb, if_neg fun heq => hbgx (heq.symm.trans hcg)]
  · rw [hd.update.port c hc, reconfigured] at hcg
    split at hcg
    · have hzero : (disablePort cfg (x.port c)).aggId = 0 := by
        simp only [disablePort]
        split <;> split <;> rfl
      exact absurd (hcg.symm.trans hzero) hg
    · split at hcg <;> exact hcg

/-- The first port of a group to leave holds up no transmission of another member. -/
theorem Departs.holdCount_eq (hd : Departs cfg b v x v') (hv : Looped cfg w n v) (hb : b ∈ w.sys.ports)
    (hindex : (w.port b).portIndex = n) (hnamed : lacpBitmapGetBit cfg.portBmp n = true)
    (hrest : ∀ c ∈ v.sys.ports, (v.port c).aggId = (v.port b).aggId → AtRest v c)
    (ha : a ∈ v.sys.ports) (hag : (v.port a).aggId = (v.port b).aggId) (hab : a ≠ b) :
    (v'.port a).holdCount = (v.port a).holdCount := by
  have hbv : b ∈ v.sys.ports := hv.ports.symm ▸ hb
  have hself : (notifyPartner v b).port b = notifyPort (v.port b) := modify_port_self v b _
  have hother : ∀ c, c ≠ b → (notifyPartner v b).port c = v.port c := fun c hcb => by
    simp only [notifyPartner, modify_port, if_neg hcb]
  have hstart : OnlySends (v.port b).aggId b v (notifyPartner v b) := by
    refine ⟨rfl, ?_, fun c _ _ hcb => hother c hcb, fun c _ hcg => ?_, rfl⟩
    · rw [hself]
      exact ⟨_, _, _, _, _, _, _, rfl⟩
    · exact (membership_of_notified (v := v) (a := b) .refl c).2.2.symm.trans hcg
  have hrun : ∀ y, ReflTransGen OrderedHop (notifyPartner v b) y → OnlySends (v.port b).aggId b v y := by
    intro y hhops
    induction hhops with
    | refl => exact hstart
    | tail hhops hop hsends =>
      exact hsends.hop ((hv.notified hb hindex hnamed).hops hhops) hbv rfl hrest hop
  have hx := hrun x hd.hops
  have hax : a ∈ x.sys.ports := hx.ports.symm ▸ ha
  rw [hd.update.port a hax, reconfigured, if_neg hab, hx.port a ha hag hab]
  split <;> rfl

/-- The rounds before a port leave its `hold_count` alone, as long as no port of its group has left before
another round. -/
theorem holdCount_of_cfgReaches (h : Coherent ∅ w) (hq : Quiescent w) (hcfg : cfg.Disabling)
    (ha : a ∈ w.sys.ports) (hagg : (w.port a).aggId ≠ 0)
    (hnone : cfg.NamesNoneBetween w a)
    (hn : n ≤ (w.port a).portIndex) (hrun : cfgReaches fuel w cfg n = some v) :
    (v.port a).holdCount = (w.port a).holdCount ∧ (GroupKept (w.port a).aggId w v ∨
      ∃ b ∈ w.sys.ports, (w.port b).portIndex < n ∧ (w.port b).aggId = (w.port a).aggId ∧
        lacpBitmapGetBit cfg.portBmp (w.port b).portIndex = true) := by
  induction n generalizing v with
  | zero =>
    obtain rfl := Option.some.inj hrun
    exact ⟨rfl, .inl ⟨rfl, rfl, fun _ _ _ => rfl, fun _ _ hcg => hcg⟩⟩
  | succ n ih =>
    rw [cfgReaches_succ] at hrun
    obtain ⟨u, hu, hround⟩ := Option.bind_eq_some_iff.mp hrun
    obtain ⟨hcount, hbefore⟩ := ih (Nat.le_of_succ_le hn) hu
    have hlooped := looped_of_cfgReaches h hcfg hu
    obtain ⟨_, ⟨rfl, _⟩ | ⟨hnamed, c, hc, rfl, x, hd⟩⟩ := hlooped.round hcfg hround
    · refine ⟨hcount, hbefore.imp_right ?_⟩
      rintro ⟨b, hb, hlt, hleft⟩
      exact ⟨b, hb, Nat.lt_succ_of_lt hlt, hleft⟩
    · have hac : a ≠ c := fun hac => absurd hn (by rw [hac]; omega)
      rcases hbefore with hkept | ⟨b, hb, hlt, hbg, hbnamed⟩
      · have hrest : ∀ d ∈ u.sys.ports, (u.port d).aggId = (w.port a).aggId → AtRest u d := by
          intro d hd hdg
          have hdw : d ∈ w.sys.ports := hkept.ports ▸ hd
          have hdg' := hkept.aggId d hdw hdg
          exact hkept.atRest hdw hdg' (hq d hdw)
        have hag : (u.port a).aggId = (w.port a).aggId := congrArg LacpPort.aggId (hkept.port a ha rfl)
        by_cases hcg : (u.port c).aggId = (w.port a).aggId
        · refine ⟨(hd.holdCount_eq hlooped hc rfl hnamed (hcg ▸ hrest) (hkept.ports.symm ▸ ha)
            (hag.trans hcg.symm) hac).trans hcount, .inr ⟨c, hc, Nat.lt_succ_self _, ?_, hnamed⟩⟩
          exact hkept.aggId c hc hcg
        · have hkept' := hkept.trans (hd.groupKept hlooped hc rfl hnamed hagg hcg hrest)
          exact ⟨congrArg LacpPort.holdCount (hkept'.port a ha rfl), .inl hkept'⟩
      · exact absurd hbg (hnone b hb c hc hlt hn hbnamed hnamed)

/-- The round of the port itself: it tells its partner exactly if there is room. -/
theorem Awaits.saysFarewell_iff (h : Awaits a v) (hv : Looped cfg w n v) (hindex : (w.port a).portIndex = n)
    (hnamed : lacpBitmapGetBit cfg.portBmp n = true) (hd : Departs cfg a v x v') :
    SaysFarewell n v v' ↔ (v.port a).holdCount < v.sys.txHoldCount := by
  have ha : a ∈ w.sys.ports := hv.ports ▸ h.listed
  have hself : (notifyPartner v a).port a = notifyPort (v.port a) := modify_port_self v a _
  have hrun : Running ((notifyPartner v a).port a) := by
    rw [hself]
    exact h.running.notify
  have hindexa : ((notifyPartner v a).port a).portIndex = n := by
    rw [hself]
    exact (hv.portIndex a ha).trans hindex
  have hhold : ((notifyPartner v a).port a).holdCount = (v.port a).holdCount := by
    rw [hself]
    rfl
  constructor
  · intro hsaid
    by_contra hfull
    have hheld : (notifyPartner v a).sys.txHoldCount ≤ ((notifyPartner v a).port a).holdCount := by
      rw [hhold]
      exact UInt32.not_lt.mp hfull
    have hsame := hrun.farewells_eq_of_held (hv.notified ha hindex hnamed) h.listed hheld hd.hops
    rw [hindexa] at hsame
    rw [SaysFarewell, hd.update.trace, hsame] at hsaid
    exact absurd hsaid (lt_irrefl _)
  · intro hroom
    have hsaid := hrun.saysFarewell_of_hops h.listed (by rw [hself]; rfl) (by rw [hself]; rfl)
      (by rw [hhold]; exact hroom) hd.hops hd.quiescent
    rw [hindexa] at hsaid
    rw [SaysFarewell, hd.update.trace]
    exact hsaid

/-- The rounds of other ports leave a port that is off alone. -/
theorem Off.departs {i : ℕ} (h : Off i v) (hd : Departs cfg b v x v') :
    farewells i v'.trace = farewells i v.trace ∧ Off i v' := by
  have hnotified : Off i (notifyPartner v b) := by
    intro c hc hindex
    have hkept := membership_of_notified (v := v) (a := b) .refl c
    rw [hkept.2.1]
    exact h c hc (hkept.1.symm.trans hindex)
  have hports : x.sys.ports = v.sys.ports := (hops_ports_eq hd.hops).trans rfl
  refine ⟨?_, fun c hc hindex => ?_⟩
  · rw [hd.update.trace]
    exact (hnotified.hops hd.hops).1
  · have hcx : c ∈ x.sys.ports := hd.update.ports ▸ hc
    have hkept := membership_of_notified hd.hops c
    rw [hd.update.port c hcx] at hindex ⊢
    rw [portIndex_of_core (reconfigured_core disablePort_core b c _ _), hkept.1] at hindex
    have hoff := hkept.2.1.trans (h c (hports ▸ hcx) hindex)
    simp only [reconfigured]
    split
    · exact disablePort_lacpEnabled _
    · split <;> exact hoff

/-- The rounds from the one of a port on. -/
theorem saysFarewell_iff_of_rounds (h : Coherent ∅ w) (hcfg : cfg.Disables (w.port a).portIndex)
    (ha : Awaits a w) (k : ℕ) {u : World}
    (hrun : cfgReaches fuel w cfg ((w.port a).portIndex + 1 + k) = some u) :
    Off (w.port a).portIndex u ∧ ∃ v, cfgReaches fuel w cfg (w.port a).portIndex = some v ∧
      (SaysFarewell (w.port a).portIndex w u ↔ (v.port a).holdCount < w.sys.txHoldCount) := by
  have hdis := hcfg.disabling
  induction k generalizing u with
  | zero =>
    rw [Nat.add_zero, cfgReaches_succ] at hrun
    obtain ⟨v, hv, hlast⟩ := Option.bind_eq_some_iff.mp hrun
    have hlooped := looped_of_cfgReaches h hdis hv
    obtain ⟨hawaits, hcount⟩ := awaits_of_cfgReaches h hdis ha le_rfl hv
    obtain ⟨hlooped', ⟨_, hnone⟩ | ⟨_, b, hb, hindex, x, hd⟩⟩ := hlooped.round hdis hlast
    · exact absurd rfl (hnone hcfg.named a ha.listed)
    · obtain rfl := h.index_inj hb ha.listed hindex
      refine ⟨?_, v, hv, ?_⟩
      · intro c hc hindexc
        have hc' : c ∈ w.sys.ports := hlooped'.ports ▸ hc
        obtain rfl := h.index_inj hc' ha.listed ((hlooped'.portIndex c hc').symm.trans hindexc)
        have hcx : c ∈ x.sys.ports := hd.update.ports ▸ hc
        rw [hd.update.port c hcx, reconfigured, if_pos rfl]
        exact disablePort_lacpEnabled _
      · rw [← hlooped.sys.txHoldCount, ← hawaits.saysFarewell_iff hlooped rfl hcfg.named hd, SaysFarewell, SaysFarewell, hcount]
  | succ k ih =>
    rw [← Nat.add_assoc, cfgReaches_succ] at hrun
    obtain ⟨v, hv, hlast⟩ := Option.bind_eq_some_iff.mp hrun
    obtain ⟨hoff, hiff⟩ := ih hv
    obtain ⟨_, ⟨rfl, _⟩ | ⟨_, b, hb, hindex, x, hd⟩⟩ := (looped_of_cfgReaches h hdis hv).round hdis hlast
    · exact ⟨hoff, hiff⟩
    · obtain ⟨hcount, hoff'⟩ := hoff.departs hd
      rw [SaysFarewell, ← hcount] at hiff
      exact ⟨hoff', hiff⟩

/-! ## The whole call -/

theorem lacpPortSetCfg_eq_bind (fuel : ℕ) (w : World) (cfg : LacpPortCfg) :
    lacpPortSetCfg fuel w cfg = (cfgReaches fuel w cfg lacpPortMax).bind fun u =>
      (lacpSysUpdate fuel u).map lacpCriticalPathEnd := by
  simp only [lacpPortSetCfg, cfgReaches, Option.bind_eq_bind, Option.pure_def, Option.map_eq_bind]
  rfl

/-- With non-zero periods a call that disables ports returns. -/
theorem returns_lacpPortSetCfg (h : Coherent ∅ w) (hp : Periodic w) (hcfg : cfg.Disabling) :
    Returns fun fuel => lacpPortSetCfg fuel w cfg := by
  have hperiodic : ∀ {n v}, Looped cfg w n v → Periodic v := by
    intro n v hv
    have hsys := hv.sys
    rw [SysKept] at hsys
    refine ⟨?_, ?_⟩ <;> rw [hsys]
    · exact hp.fastPeriodicTime
    · exact hp.slowPeriodicTime
  have hloop : Returns fun fuel => cfgReaches fuel w cfg lacpPortMax := by
    refine Returns.foldlM_range fun n _ fuel v hv => ?_
    have hreached : cfgReaches fuel w cfg n = some v := hv
    have hlooped := looped_of_cfgReaches h hcfg hreached
    exact returns_cfgPortIndex hlooped.grows (hperiodic hlooped) hcfg
      fun hbit => ⟨Nat.lt_succ_self n, hbit⟩
  refine (Returns.bind hloop fun fuel u hu => ?_).congr fun fuel => lacpPortSetCfg_eq_bind fuel w cfg
  have hlooped := looped_of_cfgReaches h hcfg hu
  exact (hlooped.coherent.returns (hperiodic hlooped)).map lacpCriticalPathEnd

/-- A call that disables the port at `a`. -/
theorem saysFarewell_iff_of_lacpPortSetCfg (h : Coherent ∅ w) (ha : Awaits a w)
    (hcfg : cfg.Disables (w.port a).portIndex) {w' : World}
    (hrun : lacpPortSetCfg fuel w cfg = some w') :
    (w'.port a).lacpEnabled = false ∧ ∃ v, cfgReaches fuel w cfg (w.port a).portIndex = some v ∧
      (SaysFarewell (w.port a).portIndex w w' ↔ (v.port a).holdCount < w.sys.txHoldCount) := by
  rw [lacpPortSetCfg_eq_bind] at hrun
  obtain ⟨u, hu, hend⟩ := Option.bind_eq_some_iff.mp hrun
  obtain ⟨y, hy, rfl⟩ := Option.map_eq_some_iff.mp hend
  have hlooped := looped_of_cfgReaches h hcfg.disabling hu
  have hlt := h.index_lt a ha.listed
  obtain ⟨k, hk⟩ := Nat.exists_eq_add_of_le (Nat.succ_le_of_lt hlt)
  rw [hk] at hu
  obtain ⟨hoff, v, hv, hiff⟩ := saysFarewell_iff_of_rounds h hcfg ha k hu
  obtain ⟨hhops, _, _⟩ := lacpSysUpdate_spec hlooped.coherent.idle hy
  obtain ⟨hcount, hoffy⟩ := hoff.hops hhops
  refine ⟨?_, v, hv, ?_⟩
  · have hay : a ∈ y.sys.ports := by
      rw [hops_ports_eq hhops, hlooped.ports]
      exact ha.listed
    exact hoffy a hay ((hops_portIndex_eq hhops a).trans (hlooped.portIndex a ha.listed))
  · rw [SaysFarewell, ← hcount] at hiff
    exact hiff

/-- A call that disables the port at `a`, and none between it and another port of its group. -/
theorem saysFarewell_iff_of_noneBetween (h : Coherent ∅ w) (hq : Quiescent w) (ha : Awaits a w)
    (hcfg : cfg.Disables (w.port a).portIndex)
    (hnone : cfg.NamesNoneBetween w a)
    {w' : World} (hrun : lacpPortSetCfg fuel w cfg = some w') :
    SaysFarewell (w.port a).portIndex w w' ↔ (w.port a).holdCount < w.sys.txHoldCount := by
  obtain ⟨_, v, hv, hiff⟩ := saysFarewell_iff_of_lacpPortSetCfg h ha hcfg hrun
  have hagg := h.aggId_ne_zero ha.listed ha.running.lacpEnabled
  rw [hiff, (holdCount_of_cfgReaches h hq hcfg.disabling ha.listed hagg hnone le_rfl hv).1]

end Round

/-- A port at rest awaits the call. -/
theorem Reachable.awaits {w : World} (h : Reachable w) {a : Addr} (ha : a ∈ w.sys.ports)
    (hlac : (w.port a).lacpEnabled = true) (hen : (w.port a).portEnabled = true) : Awaits a w := by
  obtain ⟨hc, hq⟩ := h.coherent
  have hrun := hc.running hq ha (h.activeMode a ha) hlac hen
  exact ⟨ha, hrun, hrun.dormant hc hq ha (Set.notMem_empty _)⟩

/-! ## Every reachable state -/

/-- A call that disables LACP on a port whose link is up tells the partner exactly if there is room for a
LACPDU: if `hold_count` is below its limit when the loop comes to the port. That is the `hold_count` it had
before the call, unless a port of its group and after that another port, both with smaller indices, leave in
the same call. With non-zero periods the call returns. -/
theorem reachable_saysFarewell_iff (w : World) (h : Reachable w) (a : Addr) (ha : a ∈ w.sys.ports)
    (hlac : (w.port a).lacpEnabled = true) (hen : (w.port a).portEnabled = true) (cfg : LacpPortCfg)
    (hcfg : cfg.Disables (w.port a).portIndex) :
    (Periodic w → Returns fun fuel => lacpPortSetCfg fuel w cfg) ∧
    ∀ fuel w', lacpPortSetCfg fuel w cfg = some w' →
      (w'.port a).lacpEnabled = false ∧
      (∃ v, cfgReaches fuel w cfg (w.port a).portIndex = some v ∧
        (SaysFarewell (w.port a).portIndex w w' ↔ (v.port a).holdCount < w.sys.txHoldCount)) ∧
      (cfg.NamesNoneBetween w a →
        (SaysFarewell (w.port a).portIndex w w' ↔ (w.port a).holdCount < w.sys.txHoldCount)) := by
  obtain ⟨hc, hq⟩ := h.coherent
  have hawaits := h.awaits ha hlac hen
  refine ⟨fun hp => returns_lacpPortSetCfg hc hp hcfg.disabling, fun fuel w' hrun => ?_⟩
  obtain ⟨hoff, v, hv, hiff⟩ := saysFarewell_iff_of_lacpPortSetCfg hc hawaits hcfg hrun
  exact ⟨hoff, ⟨v, hv, hiff⟩, fun hnone => saysFarewell_iff_of_noneBetween hc hq hawaits hcfg hnone hrun⟩

/-- The configuration that `trunk_port_lacp_disable` makes for a port. -/
theorem disables_leaveCfg (i : ℕ) : (leaveCfg (portBit i)).Disables i :=
  ⟨leaveCfg_disabling _, by simp [leaveCfg, lacpBitmapGetBit_portBit]⟩

/-- Both ports of `aggregationRun` leave in one call; the second has room and tells its partner. -/
theorem aggregationRun_saysFarewell : ∃ w fuel w', Reachable w ∧ 0 ∈ w.sys.ports ∧
    (w.port 0).aggId = (w.port 1).aggId ∧ (w.port 1).mux.state = .rxTx ∧
    lacpPortSetCfg fuel w (leaveCfg (lacpBitmapSetBit (portBit 0) 1)) = some w' ∧ SaysFarewell 1 w w' := by
  have hrun : (runCalls (fun _ _ => true) 25 (initWorld 77) aggregationRun).any (fun w =>
      decide (0 ∈ w.sys.ports ∧ (w.port 0).aggId = (w.port 1).aggId ∧ 1 ∈ w.sys.ports ∧
        (w.port 1).portIndex = 1 ∧ (w.port 1).lacpEnabled = true ∧
        (w.port 1).portEnabled = true ∧ (w.port 1).mux.state = .rxTx ∧
        (w.port 1).holdCount < w.sys.txHoldCount ∧ w.sys.fastPeriodicTime ≠ 0 ∧
        w.sys.slowPeriodicTime ≠ 0)) = true := by
    decide +kernel
  obtain ⟨w, h, _, hw⟩ := exists_reachableBy_of_runCalls (R := fun _ _ => True) (by decide)
    (fun _ _ _ => trivial) hrun
  obtain ⟨hfirst, hagg, ha, hindex, hlac, hen, hmux, hroom, hfast, hslow⟩ := of_decide_eq_true hw
  have hcfg : (leaveCfg (lacpBitmapSetBit (portBit 0) 1)).Disables (w.port 1).portIndex :=
    ⟨leaveCfg_disabling _, by simp [leaveCfg, hindex]⟩
  obtain ⟨hreturns, hsaid⟩ := reachable_saysFarewell_iff w h 1 ha hlac hen _ hcfg
  obtain ⟨w', hresult⟩ := hreturns ⟨hfast, hslow⟩
  obtain ⟨fuel, hcall⟩ := hresult.exists_eq_some
  obtain ⟨_, _, hiff⟩ := hsaid fuel w' hcall
  rw [hindex] at hiff
  refine ⟨w, fuel, w', h, hfirst, hagg, hmux, hcall, (hiff fun b _ c _ hbc hc => ?_).mpr hroom⟩
  rw [hindex] at hc
  omega

/-- The system priority changes three times within a second, so that every port has sent three LACPDUs. -/
def saturatedRun : List Call := aggregationRun ++ [.sysSetPrio 1, .sysSetPrio 2, .sysSetPrio 3]

/-- Both ports of `saturatedRun` forward, and the partner of the first is not told that it leaves. -/
theorem not_reachable_saysFarewell : ¬ ∀ w, Reachable w → Periodic w → ∀ a ∈ w.sys.ports,
    (w.port a).lacpEnabled = true → (w.port a).portEnabled = true → ∀ cfg : LacpPortCfg,
      cfg.Disables (w.port a).portIndex → ∀ fuel w', lacpPortSetCfg fuel w cfg = some w' →
        SaysFarewell (w.port a).portIndex w w' := by
  intro hall
  have hrun : (runCalls (fun _ _ => true) 25 (initWorld 77) saturatedRun).any (fun w =>
      decide (0 ∈ w.sys.ports ∧ (w.port 0).portIndex = 0 ∧ (w.port 0).lacpEnabled = true ∧
        (w.port 0).portEnabled = true ∧ (w.port 0).holdCount = w.sys.txHoldCount ∧
        w.sys.fastPeriodicTime ≠ 0 ∧ w.sys.slowPeriodicTime ≠ 0)) = true := by
    decide +kernel
  obtain ⟨w, h, _, hw⟩ := exists_reachableBy_of_runCalls (R := fun _ _ => True) (by decide)
    (fun _ _ _ => trivial) hrun
  obtain ⟨ha, hindex, hlac, hen, hhold, hfast, hslow⟩ := of_decide_eq_true hw
  obtain ⟨hc, hq⟩ := h.coherent
  have hcfg : (leaveCfg (portBit 0)).Disables (w.port 0).portIndex := hindex.symm ▸ disables_leaveCfg 0
  obtain ⟨w', hresult⟩ := returns_lacpPortSetCfg hc ⟨hfast, hslow⟩ hcfg.disabling
  obtain ⟨fuel, hcall⟩ := hresult.exists_eq_some
  have hsaid := hall w h ⟨hfast, hslow⟩ 0 ha hlac hen _ hcfg fuel w' hcall
  have hiff := saysFarewell_iff_of_noneBetween hc hq (Reachable.awaits h ha hlac hen) hcfg
    (fun b _ c _ _ hlt => absurd (hindex ▸ hlt) (Nat.not_lt_zero _)) hcall
  rw [hiff, hhold] at hsaid
  exact absurd hsaid (UInt32.lt_irrefl _)

end Lacp
