import Lacp.Effects

/-!
# The writes of the source as updates

One lemma for each kind of write the API makes: to a port, to a port and its group, to the link-group
database, to the hardware table.
-/

namespace Lacp

/-! ## The link-group database -/

section Database

variable {w : World} {slot port : ℕ} (aggId : ℕ)

/-- The bits of one port are those of one index. -/
theorem trunkGetPbmp_trunkSetPbmp {i : ℕ} (hport : 1 ≤ port ∧ port ≤ 8)
    (hi : i ≠ globalIndex slot port) (pbmp : ℕ → BitVec 8) :
    trunkGetPbmp (i / 8) (i % 8 + 1) (trunkSetPbmp slot port pbmp)
      = trunkGetPbmp (i / 8) (i % 8 + 1) pbmp := by
  simp only [trunkGetPbmp, trunkSetPbmp, Nat.add_sub_cancel]
  split
  · rename_i hslot
    have hbit : port - 1 ≠ i % 8 := by
      simp only [globalIndex] at hi
      omega
    simp [hbit]
  · rfl

theorem trunkGetPbmp_trunkClearPbmp {i : ℕ} (hport : 1 ≤ port ∧ port ≤ 8)
    (hi : i ≠ globalIndex slot port) (pbmp : ℕ → BitVec 8) :
    trunkGetPbmp (i / 8) (i % 8 + 1) (trunkClearPbmp slot port pbmp)
      = trunkGetPbmp (i / 8) (i % 8 + 1) pbmp := by
  simp only [trunkGetPbmp, trunkClearPbmp, Nat.add_sub_cancel]
  split
  · rename_i hslot
    have hbit : port - 1 ≠ i % 8 := by
      simp only [globalIndex] at hi
      omega
    have hlt : i % 8 < 8 := Nat.mod_lt _ (by omega)
    simp only [BitVec.getLsbD_and, BitVec.getLsbD_not, BitVec.getLsbD_twoPow, hlt, decide_true,
      decide_eq_false hbit, Bool.and_false, Bool.not_false, Bool.and_true]
  · rfl

/-- A cleared bit is clear. -/
theorem trunkGetPbmp_stubDbAggDelMember_self (w : World) (slot port : ℕ) {g : ℕ} (hg : g < 32) :
    trunkGetPbmp slot port ((stubDbAggDelMember w slot port).gLinkGroups g).ports = false := by
  simp [stubDbAggDelMember, hg, trunkGetPbmp, trunkClearPbmp]

/-- A bit that is clear stays clear. -/
theorem trunkGetPbmp_stubDbAggDelMember_of_false (w : World) {slot' port' : ℕ} (slot port : ℕ) {g : ℕ}
    (h : trunkGetPbmp slot' port' (w.gLinkGroups g).ports = false) :
    trunkGetPbmp slot' port' ((stubDbAggDelMember w slot port).gLinkGroups g).ports = false := by
  simp only [stubDbAggDelMember]
  split
  · simp only [trunkGetPbmp, trunkClearPbmp] at h ⊢
    split
    · rw [BitVec.getLsbD_and, h, Bool.false_and]
    · exact h
  · exact h

/-- The database learns that the port is in the group. -/
theorem update_stubDbAggAddMember (hport : 1 ≤ port ∧ port ≤ 8) :
    Update w (stubDbAggAddMember w aggId slot port) w.sys {globalIndex slot port} fun _ p => p where
  ports := rfl
  sys := rfl
  port := fun _ _ => rfl
  brk := rfl
  trace := rfl
  tid := fun _ => rfl
  cd := fun _ => rfl
  entry := fun _ _ => rfl
  bits := fun i hi j => by
    simp only [stubDbAggAddMember]
    split
    · exact trunkGetPbmp_trunkSetPbmp hport hi _
    · rfl

/-- The database forgets the port. -/
theorem update_stubDbAggDelMember (hport : 1 ≤ port ∧ port ≤ 8) :
    Update w (stubDbAggDelMember w slot port) w.sys {globalIndex slot port} fun _ p => p where
  ports := rfl
  sys := rfl
  port := fun _ _ => rfl
  brk := rfl
  trace := rfl
  tid := fun _ => rfl
  cd := fun _ => rfl
  entry := fun _ _ => rfl
  bits := fun i hi j => by
    simp only [stubDbAggDelMember]
    split
    · exact trunkGetPbmp_trunkClearPbmp hport hi _
    · rfl

end Database

/-! ## Ports and their groups -/

section Ports

variable (w : World) {a : Addr} (t : Set ℕ)

/-- A write the ports do not see. -/
theorem update_lockDepth (d : ℤ) : Update w { w with lockDepth := d } w.sys t fun _ p => p :=
  ⟨rfl, rfl, fun _ _ => rfl, rfl, rfl, fun _ => rfl, fun _ => rfl, fun _ _ => rfl,
    fun _ _ _ => rfl⟩

/-- The timers of all ports count down, in the critical section. -/
theorem update_oneSecond :
    Update w ((lacpCriticalPathStart w).forPorts fun _ port => oneSecondPort port) w.sys ∅
      fun _ p => oneSecondPort p :=
  ⟨rfl, rfl, fun _ hb => if_pos hb, rfl, rfl, fun _ => rfl, fun _ => rfl, fun _ _ => rfl,
    fun _ _ _ => rfl⟩

/-- A write to an entry of `g_port_list`. -/
theorem update_stubSetPortAttr {i : ℕ} {attr : PortAttr} (htid : attr.tid = (w.gPortList i).tid)
    (hcd : attr.cd = (w.gPortList i).cd) :
    Update w (stubSetPortAttr w i attr) w.sys {i} fun _ p => p where
  ports := rfl
  sys := rfl
  port := fun _ _ => rfl
  brk := rfl
  trace := rfl
  tid := fun j => by
    rw [stubSetPortAttr_gPortList]
    split
    · rename_i hj
      rw [htid, hj]
    · rfl
  cd := fun j => by
    rw [stubSetPortAttr_gPortList]
    split
    · rename_i hj
      rw [hcd, hj]
    · rfl
  entry := fun j hj => if_neg hj
  bits := fun _ _ _ => rfl

/-- A write to one port. -/
theorem update_modify (u : LacpPort → LacpPort) :
    Update w (w.modify a u) w.sys ∅ (onlyAt a u) where
  ports := rfl
  sys := rfl
  port := fun b _ => by
    rw [modify_port, onlyAt]
    split
    · rename_i hba
      rw [hba]
    · rfl
  brk := rfl
  trace := rfl
  tid := fun _ => rfl
  cd := fun _ => rfl
  entry := fun _ _ => rfl
  bits := fun _ _ _ => rfl

/-- Reselection of the group of a port. -/
theorem update_lacpPortSetReselect (hagg : (w.port a).aggId ≠ 0) :
    Update w (lacpPortSetReselect w (some a)) w.sys ∅ (reconfigured a (w.port a).aggId id) where
  ports := by rw [lacpPortSetReselect_sys]
  sys := by
    rw [lacpPortSetReselect_sys]
    rfl
  port := fun b hb => by
    rw [lacpPortSetReselect_port, reconfigured]
    by_cases hba : b = a
    · subst hba
      rw [if_pos ⟨hb, hagg, rfl⟩, if_pos rfl]
      rfl
    · rw [if_neg hba]
      by_cases hmem : (w.port b).aggId = (w.port a).aggId
      · rw [if_pos ⟨hb, hagg, hmem⟩, if_pos hmem]
      · rw [if_neg fun h => hmem h.2.2, if_neg hmem]
  brk := lacpPortSetReselect_brk w a
  trace := lacpPortSetReselect_trace w a
  tid := fun _ => by rw [lacpPortSetReselect_gPortList]
  cd := fun _ => by rw [lacpPortSetReselect_gPortList]
  entry := fun _ _ => by rw [lacpPortSetReselect_gPortList]
  bits := fun _ _ _ => by rw [lacpPortSetReselect_gLinkGroups]

/-- A write to a port, followed by the reselection of its group. -/
theorem update_modify_reselect {u : LacpPort → LacpPort} {g : ℕ} (hg : g ≠ 0)
    (hagg : (u (w.port a)).aggId = g) :
    Update w (lacpPortSetReselect (w.modify a u) (some a)) w.sys ∅ (reconfigured a g u) := by
  have hself : ((w.modify a u).port a).aggId = g := by
    rw [modify_port_self]
    exact hagg
  have hreselect := update_lacpPortSetReselect (w.modify a u) (a := a) (by rwa [hself])
  rw [hself] at hreselect
  refine ((update_modify w u).trans hreselect subset_rfl).congr ?_ subset_rfl
  intro b _
  simp only [onlyAt, reconfigured]
  split <;> rfl

end Ports

/-! ## The blocks of `lacp_port_set_cfg` and `lacp_rxm_rx_lacpdu` -/

section Blocks

variable {w : World} {a : Addr}

/-- "add to agg", `lacp_enabled`, and `PT_CFG_COST`. -/
theorem update_join {aggId : ℕ} (haggId : 1 ≤ aggId) :
    Update w (lacpPortSetReselect (setLacpEnabled (addToAgg w a aggId) a true) (some a)) w.sys ∅
      (reconfigured a aggId (joinPort aggId)) := by
  have hne : aggId ≠ 0 := Nat.one_le_iff_ne_zero.mp haggId
  have hadd : Update w (addToAgg w a aggId) w.sys ∅ (reconfigured a aggId _) :=
    update_modify_reselect w hne rfl
  have hself : ((addToAgg w a aggId).port a).aggId = aggId := by
    simp only [addToAgg, lacpPortSetReselect_port, modify_port_self]
    split <;> rfl
  have henable := update_modify_reselect (addToAgg w a aggId)
    (u := fun p => { p with lacpEnabled := true }) (a := a) hne hself
  refine (hadd.trans henable subset_rfl).congr ?_ subset_rfl
  intro b _
  by_cases hba : b = a
  · simp only [reconfigured, if_pos hba]
    rfl
  · by_cases hmem : (w.port b).aggId = aggId
    · simp only [reconfigured, if_neg hba, if_pos hmem]
    · simp only [reconfigured, if_neg hba, if_neg hmem]

/-- All blocks for a port that is enabled. -/
theorem update_enable {aggId : ℕ} (haggId : 1 ≤ aggId) (portPriority : UInt16) :
    Update w (cfgPortPrio (cfgPortStat
        (lacpPortSetReselect (setLacpEnabled (addToAgg w a aggId) a true) (some a)) a) a portPriority)
      w.sys ∅ (reconfigured a aggId (enablePort aggId portPriority)) := by
  set x := lacpPortSetReselect (setLacpEnabled (addToAgg w a aggId) a true) (some a) with hx
  have hjoin : Update w x w.sys ∅ (reconfigured a aggId (joinPort aggId)) := update_join haggId
  have hstat : Update x (cfgPortStat x a) x.sys ∅ (onlyAt a statPort) := update_modify x statPort
  have hself : ((cfgPortStat x a).port a).aggId = aggId := by
    rw [show (cfgPortStat x a).port a = statPort (x.port a) from modify_port_self x a _]
    simp only [hx, statPort, setLacpEnabled, addToAgg, lacpPortSetReselect_port, modify_port_self]
    repeat' split
    all_goals rfl
  have hprio : Update (cfgPortStat x a) (cfgPortPrio (cfgPortStat x a) a portPriority)
      (cfgPortStat x a).sys ∅ (reconfigured a aggId (prioPort portPriority)) :=
    update_modify_reselect (cfgPortStat x a) (u := prioPort portPriority)
      (Nat.one_le_iff_ne_zero.mp haggId) hself
  refine ((hjoin.trans hstat subset_rfl).trans hprio subset_rfl).congr ?_ subset_rfl
  intro b _
  by_cases hba : b = a
  · simp only [onlyAt, reconfigured, if_pos hba]
    rfl
  · by_cases hmem : (w.port b).aggId = aggId
    · simp only [onlyAt, reconfigured, if_neg hba, if_pos hmem]
    · simp only [onlyAt, reconfigured, if_neg hba, if_neg hmem]

/-- "set agg member reselect", with `lacp_enabled`. -/
theorem update_leave (hagg : (w.port a).aggId ≠ 0) :
    Update w (setLacpEnabled (leaveAgg w a) a false) w.sys ∅
      (reconfigured a (w.port a).aggId leavePort) := by
  have hreselect := update_lacpPortSetReselect w hagg
  have hleave : Update _ (leaveAgg w a) _ ∅ (onlyAt a fun p => { p with aggId := 0 }) :=
    update_modify _ _
  have hdisable := update_modify (leaveAgg w a) (a := a) fun p => { p with lacpEnabled := false }
  refine ((hreselect.trans hleave subset_rfl).trans hdisable subset_rfl).congr ?_ subset_rfl
  intro b _
  by_cases hba : b = a
  · simp only [onlyAt, reconfigured, if_pos hba]
    rfl
  · simp only [onlyAt, reconfigured, if_neg hba]

/-- The port that a frame marks as moved is another one, whose link is down and whose partner was the
sender. -/
theorem of_movedPort_eq_some {pdu : LacpPdu} {b : Addr} (h : movedPort w a pdu = some b) :
    b ∈ w.sys.ports ∧ b ≠ a ∧ (w.port b).rx.state = .portDisabled ∧
      samePort (w.port b).partner (lacpCopyInfoFromNet pdu.actor) = true := by
  have htest := List.find?_some h
  simp only [Bool.and_eq_true, bne_iff_ne, ne_eq, beq_iff_eq] at htest
  exact ⟨List.mem_of_find?_eq_some h, htest.1.1, htest.1.2, htest.2⟩

/-- `lacp_rxm_rx_lacpdu` on a port that runs LACP writes to that port, and to the one that has moved. -/
theorem lacpRxmRxLacpdu_eq (hlac : (w.port a).lacpEnabled = true) (pdu : LacpPdu) :
    lacpRxmRxLacpdu w a pdu = (movedPort w a pdu).elim (w.modify a (receivePort pdu)) fun p =>
      (w.modify a (receivePort pdu)).modify p fun p => { p with portMoved := true } := by
  -- `u` is the world in which the source looks for a port that has moved
  set u := w.modify a (receivePort pdu) with hu
  have hself : u.port a = receivePort pdu (w.port a) := modify_port_self w a _
  have hother : ∀ b, b ≠ a → u.port b = w.port b := fun b hb => if_neg hb
  have hwrites : ((((w.modify a fun p => { p with rxLacpduCnt := p.rxLacpduCnt + 1 }).modify a
      fun p => { p with rcvdLacpdu := true }).modify a
      fun p => { p with msgActor := lacpCopyInfoFromNet pdu.actor }).modify a
      fun p => { p with msgPartner := lacpCopyInfoFromNet pdu.partner }) = u := by
    apply World.ext <;> try rfl
    funext b
    by_cases hb : b = a
    · simp [hu, hb, receivePort]
    · simp [hu, hb]
  have hrun : lacpRxmRxLacpdu w a pdu =
      (u.sys.ports.find? fun p => p != a && (u.port p).rx.state == .portDisabled
        && samePort (u.port p).partner (u.port a).msgActor).elim u
        fun p => u.modify p fun p => { p with portMoved := true } := by
    have hon : ¬ (!((w.modify a fun p => { p with rxLacpduCnt := p.rxLacpduCnt + 1 }).port
        a).lacpEnabled) = true := by simp [hlac]
    rw [← hwrites]
    refine (if_neg hon).trans ?_
    split <;> rename_i hfind <;> rw [hfind] <;> rfl
  have hfind : (u.sys.ports.find? fun p => p != a && (u.port p).rx.state == .portDisabled
      && samePort (u.port p).partner (u.port a).msgActor) = movedPort w a pdu := by
    simp only [movedPort, hself]
    congr 1
    funext b
    by_cases hba : b = a
    · simp [hba]
    · rw [hother b hba]
      rfl
  rw [hrun, hfind]

/-- `lacp_rxm_rx_lacpdu` on a port that runs LACP. -/
theorem update_lacpRxmRxLacpdu (hlac : (w.port a).lacpEnabled = true) (pdu : LacpPdu) :
    Update w (lacpRxmRxLacpdu w a pdu) w.sys ∅ (received a (movedPort w a pdu) pdu) := by
  have hrun := lacpRxmRxLacpdu_eq hlac pdu
  set u := w.modify a (receivePort pdu) with hu
  have hbase : Update w u w.sys ∅ (onlyAt a (receivePort pdu)) := update_modify w _
  cases hmoved : movedPort w a pdu with
  | none =>
    rw [hmoved] at hrun
    rw [hrun, Option.elim_none]
    refine hbase.congr (fun b _ => ?_) subset_rfl
    simp [onlyAt, received]
  | some m =>
    rw [hmoved] at hrun
    obtain ⟨_, hne, _⟩ := of_movedPort_eq_some hmoved
    rw [hrun, Option.elim_some]
    refine (hbase.trans (update_modify u _) subset_rfl).congr (fun b _ => ?_) subset_rfl
    simp only [onlyAt, received]
    by_cases hba : b = a
    · have hbm : b ≠ m := fun h => hne (h ▸ hba)
      rw [if_neg hbm, if_pos hba, if_pos hba]
    · rw [if_neg hba, if_neg hba]
      by_cases hbm : b = m
      · rw [if_pos hbm, if_pos (congrArg some hbm.symm)]
      · rw [if_neg hbm, if_neg fun h => hbm (Option.some.inj h).symm]

end Blocks

end Lacp
