import Mathlib.Data.Finset.Card
import Lacp.Reachability

/-!
# The port inventory

Reference: `lacp_create_ports`, `lacp_remove_ports`, `lacp_sys_set_cfg`, `lacp_port_create` and
`lacp_port_delete`.

The system keeps the set of its ports three times: as the list `ports`, as the counter
`number_of_ports` and as the bitmap `portmap`. `PortInventory` is what the three records say, with the
list as a finite set, and every function of the source does to the system what an operation on this
record says (`Lists`). `lacp_create_ports` and `lacp_remove_ports` update all three;
`BR_CFG_PBMP_ADD` and `BR_CFG_PBMP_DEL` of `lacp_sys_set_cfg` update the list alone, so the records agree
as long as these leave the list as it is (`inventoryRun_inventory`).
-/

namespace Lacp

open Relation (ReflTransGen)

/-! ## Three records of one set -/

/-- The three records of the port inventory agree. -/
structure Inventory (w : World) : Prop where
  nodup : (w.sys.ports.map fun a => (w.port a).portIndex).Nodup
  numberOfPorts : w.sys.numberOfPorts.toNat = w.sys.ports.length
  portmap : ∀ i, lacpBitmapGetBit w.sys.portmap i = true ↔
    ∃ a ∈ w.sys.ports, (w.port a).portIndex = i

/-- What the three records say. -/
structure PortInventory where
  indices : Finset ℕ
  numberOfPorts : UInt32
  portmap : LacpBitmap

namespace PortInventory

/-- `lacp_create_ports` on one index. -/
def create (s : PortInventory) (i : ℕ) : PortInventory :=
  if i ∈ s.indices then s
  else ⟨insert i s.indices, s.numberOfPorts + 1, lacpBitmapSetBit s.portmap i⟩

/-- `lacp_remove_ports` on one index. -/
def remove (s : PortInventory) (i : ℕ) : PortInventory :=
  if i ∈ s.indices then ⟨s.indices.erase i, s.numberOfPorts - 1, lacpBitmapClearBit s.portmap i⟩
  else s

/-- `BR_CFG_PBMP_ADD` on one index. -/
def add (s : PortInventory) (i : ℕ) : PortInventory := { s with indices := insert i s.indices }

/-- `BR_CFG_PBMP_DEL` on one index. -/
def del (s : PortInventory) (i : ℕ) : PortInventory := { s with indices := s.indices.erase i }

/-- An operation for each bit of a bitmap that is set, for the first `n` indices. -/
def forBits (op : PortInventory → ℕ → PortInventory) (ports : LacpBitmap) (n : ℕ) (s : PortInventory) :
    PortInventory :=
  (List.range n).foldl (fun s i => if lacpBitmapGetBit ports i then op s i else s) s

/-- The records agree. -/
structure Consistent (s : PortInventory) : Prop where
  lt_max : ∀ i ∈ s.indices, i < lacpPortMax
  numberOfPorts : s.numberOfPorts.toNat = s.indices.card
  portmap : ∀ i, lacpBitmapGetBit s.portmap i = true ↔ i ∈ s.indices

variable {s : PortInventory} {i : ℕ}

theorem Consistent.card_le (h : Consistent s) : s.indices.card ≤ lacpPortMax := by
  have hsub : s.indices ⊆ Finset.range lacpPortMax := fun i hi => Finset.mem_range.mpr (h.lt_max i hi)
  simpa using Finset.card_le_card hsub

theorem Consistent.create (h : Consistent s) (hi : i < lacpPortMax) : Consistent (s.create i) := by
  unfold PortInventory.create
  split
  · exact h
  · rename_i hnew
    have hcard := h.card_le
    constructor
    · simp only [Finset.mem_insert]
      rintro j (rfl | hj)
      · exact hi
      · exact h.lt_max j hj
    · have hlt : s.numberOfPorts.toNat + 1 < 2 ^ 32 := by
        rw [h.numberOfPorts]
        simp only [lacpPortMax] at hcard
        omega
      rw [Finset.card_insert_of_notMem hnew, UInt32.toNat_add, h.numberOfPorts]
      rw [h.numberOfPorts] at hlt
      exact Nat.mod_eq_of_lt hlt
    · intro j
      simp [h.portmap j]

theorem Consistent.remove (h : Consistent s) (i : ℕ) : Consistent (s.remove i) := by
  unfold PortInventory.remove
  split
  · rename_i hi
    have hpos : 0 < s.indices.card := Finset.card_pos.mpr ⟨i, hi⟩
    constructor
    · exact fun j hj => h.lt_max j (Finset.mem_of_mem_erase hj)
    · have hle : (1 : UInt32) ≤ s.numberOfPorts := by
        rw [UInt32.le_iff_toNat_le, h.numberOfPorts]
        exact hpos
      rw [Finset.card_erase_of_mem hi, UInt32.toNat_sub_of_le _ _ hle, h.numberOfPorts]
      rfl
    · intro j
      simp [h.portmap j]
  · exact h

theorem forBits_succ (op : PortInventory → ℕ → PortInventory) (ports : LacpBitmap) (n : ℕ)
    (s : PortInventory) : forBits op ports (n + 1) s =
      if lacpBitmapGetBit ports n then op (forBits op ports n s) n else forBits op ports n s := by
  simp only [forBits, List.range_succ, List.foldl_append, List.foldl_cons, List.foldl_nil]

/-- What every operation keeps, the loop keeps. -/
theorem forBits_invariant {P : PortInventory → Prop} {op : PortInventory → ℕ → PortInventory}
    (ports : LacpBitmap) {n : ℕ} (hop : ∀ s i, i < n → P s → P (op s i)) (h : P s) :
    P (forBits op ports n s) := by
  induction n with
  | zero => exact h
  | succ n ih =>
    have hn := ih fun s i hi => hop s i (Nat.lt_succ_of_lt hi)
    rw [forBits_succ]
    split
    · exact hop _ n (Nat.lt_succ_self n) hn
    · exact hn

/-- The indices below `n` whose bit is set. -/
def named (ports : LacpBitmap) (n : ℕ) : Finset ℕ :=
  (Finset.range n).filter fun i => lacpBitmapGetBit ports i = true

theorem mem_named {ports : LacpBitmap} {n : ℕ} :
    i ∈ named ports n ↔ i < n ∧ lacpBitmapGetBit ports i = true := by
  simp [named]

theorem named_succ (ports : LacpBitmap) (n : ℕ) :
    named ports (n + 1) = if lacpBitmapGetBit ports n then insert n (named ports n)
      else named ports n := by
  simp only [named, Finset.range_add_one, Finset.filter_insert]

theorem forBits_add (ports : LacpBitmap) (n : ℕ) (s : PortInventory) :
    forBits add ports n s = { s with indices := s.indices ∪ named ports n } := by
  induction n with
  | zero => simp [forBits, named]
  | succ n ih =>
    rw [forBits_succ, ih, named_succ]
    split
    · simp [add, Finset.union_insert]
    · rfl

theorem forBits_del (ports : LacpBitmap) (n : ℕ) (s : PortInventory) :
    forBits del ports n s = { s with indices := s.indices \ named ports n } := by
  induction n with
  | zero => simp [forBits, named]
  | succ n ih =>
    rw [forBits_succ, ih, named_succ]
    split
    · simp [del, Finset.sdiff_insert]
    · rfl

/-- `lacp_sys_set_cfg`. -/
def setCfg (s : PortInventory) (cfg : LacpSysCfg) : PortInventory :=
  let s := if cfg.cfgPbmpAdd then forBits add cfg.ports lacpPortMax s else s
  if cfg.cfgPbmpDel then forBits del cfg.ports lacpPortMax s else s

/-- The configuration adds and deletes no port: `BR_CFG_PBMP_DEL` names no port that is listed, and
`BR_CFG_PBMP_ADD` alone names only ports that are listed. -/
def Keeps (s : PortInventory) (cfg : LacpSysCfg) : Prop :=
  if cfg.cfgPbmpDel then Disjoint (named cfg.ports lacpPortMax) s.indices
  else if cfg.cfgPbmpAdd then named cfg.ports lacpPortMax ⊆ s.indices
  else True

theorem setCfg_indices_eq_iff {cfg : LacpSysCfg} :
    (s.setCfg cfg).indices = s.indices ↔ s.Keeps cfg := by
  simp only [setCfg, Keeps, forBits_add, forBits_del]
  cases cfg.cfgPbmpDel <;> cases cfg.cfgPbmpAdd <;>
    simp only [Bool.false_eq_true, if_false, if_true]
  · exact Finset.union_eq_left
  · rw [Finset.sdiff_eq_self_iff_disjoint, disjoint_comm]
  · rw [Finset.union_sdiff_right, Finset.sdiff_eq_self_iff_disjoint, disjoint_comm]

theorem setCfg_eq {cfg : LacpSysCfg} : s.setCfg cfg = { s with indices := (s.setCfg cfg).indices } := by
  simp only [setCfg, forBits_add, forBits_del]
  split <;> split <;> rfl

theorem setCfg_lt_max (h : ∀ i ∈ s.indices, i < lacpPortMax) (cfg : LacpSysCfg) :
    ∀ i ∈ (s.setCfg cfg).indices, i < lacpPortMax := by
  intro i hi
  have hsub : (s.setCfg cfg).indices ⊆ s.indices ∪ named cfg.ports lacpPortMax := by
    simp only [setCfg, forBits_add, forBits_del]
    split <;> split
    · exact Finset.sdiff_subset
    · exact Finset.sdiff_subset.trans Finset.subset_union_left
    · exact subset_rfl
    · exact Finset.subset_union_left
  rcases Finset.mem_union.mp (hsub hi) with hi | hi
  · exact h i hi
  · exact (mem_named.mp hi).1

/-- The bitmap and the counter stay as they are, so the set has to. -/
theorem Consistent.setCfg_iff (h : Consistent s) {cfg : LacpSysCfg} :
    Consistent (s.setCfg cfg) ↔ s.Keeps cfg := by
  rw [← setCfg_indices_eq_iff]
  constructor
  · intro hcfg
    ext i
    rw [← hcfg.portmap i, ← h.portmap i, setCfg_eq]
  · intro hindices
    rw [setCfg_eq, hindices]
    exact h

end PortInventory

/-! ## What the system lists -/

/-- The world keeps the inventory `s`, in a list of distinct ports whose machines are at rest. -/
structure Lists (w : World) (s : PortInventory) : Prop where
  idle : Idle w
  addr_lt : ∀ a ∈ w.sys.ports, a < w.brk
  nodup : (w.sys.ports.map fun a => (w.port a).portIndex).Nodup
  indices : ∀ i, i ∈ s.indices ↔ ∃ a ∈ w.sys.ports, (w.port a).portIndex = i
  numberOfPorts : w.sys.numberOfPorts = s.numberOfPorts
  portmap : w.sys.portmap = s.portmap

namespace Lists

variable {w w' : World} {s : PortInventory} {i n fuel : ℕ} {sysMac : ℕ → LacpMac}
  {ports : LacpBitmap}

/-- The list is as long as the set is large. -/
theorem length_eq (h : Lists w s) : w.sys.ports.length = s.indices.card := by
  have hset : s.indices = (w.sys.ports.map fun a => (w.port a).portIndex).toFinset := by
    ext i
    simp [h.indices i]
  rw [hset, List.toFinset_card_of_nodup h.nodup, List.length_map]

theorem inventory_iff (h : Lists w s) (hlt : ∀ i ∈ s.indices, i < lacpPortMax) :
    Inventory w ↔ s.Consistent := by
  constructor
  · intro hw
    refine ⟨hlt, ?_, fun i => ?_⟩
    · rw [← h.numberOfPorts, hw.numberOfPorts, h.length_eq]
    · rw [← h.portmap, hw.portmap i, h.indices i]
  · intro hs
    refine ⟨h.nodup, ?_, fun i => ?_⟩
    · rw [h.numberOfPorts, hs.numberOfPorts, h.length_eq]
    · rw [h.portmap, hs.portmap i, h.indices i]

/-- A write that lists the same ports, and raises no flag. -/
theorem congr (h : Lists w s) (hports : w'.sys.ports = w.sys.ports) (hbrk : w'.brk = w.brk)
    (hindex : ∀ a ∈ w.sys.ports, (w'.port a).portIndex = (w.port a).portIndex) (hidle : Idle w')
    (hnumber : w'.sys.numberOfPorts = w.sys.numberOfPorts)
    (hportmap : w'.sys.portmap = w.sys.portmap) : Lists w' s where
  idle := hidle
  addr_lt := by
    rw [hports, hbrk]
    exact h.addr_lt
  nodup := by
    rw [hports, List.map_congr_left hindex]
    exact h.nodup
  indices := fun i => by
    rw [h.indices i, hports]
    exact exists_congr fun a => and_congr_right fun ha => by rw [hindex a ha]
  numberOfPorts := hnumber.trans h.numberOfPorts
  portmap := hportmap.trans h.portmap

theorem lockDepth (h : Lists w s) (d : ℤ) : Lists { w with lockDepth := d } s :=
  h.congr rfl rfl (fun _ _ => rfl) h.idle rfl rfl

theorem setSysScalar (h : Lists w s) (cfg : LacpSysCfg) :
    Lists { w with sys := Lacp.setSysScalar w.sys cfg } s := by
  have hscalar : (Lacp.setSysScalar w.sys cfg).ports = w.sys.ports ∧
      (Lacp.setSysScalar w.sys cfg).numberOfPorts = w.sys.numberOfPorts ∧
      (Lacp.setSysScalar w.sys cfg).portmap = w.sys.portmap := by
    unfold Lacp.setSysScalar
    split_ifs <;> exact ⟨rfl, rfl, rfl⟩
  refine h.congr hscalar.1 rfl (fun _ _ => rfl) (fun a ha => ?_) hscalar.2.1 hscalar.2.2
  exact h.idle a (hscalar.1 ▸ ha)

theorem updateInfo (h : Lists w s) : Lists (lacpPortUpdateInfo w) s := by
  have hport : ∀ a ∈ w.sys.ports, (lacpPortUpdateInfo w).port a = updateInfoPort w.sys (w.port a) :=
    fun a ha => if_pos ha
  refine h.congr rfl rfl (fun a ha => ?_) (fun a ha m => ?_) rfl rfl
  · rw [hport a ha]
    rfl
  · rw [hport a ha]
    exact h.idle a ha m

/-- The engine lists the same ports. -/
theorem settled (h : Lists w s) (hrun : lacpSysUpdate fuel w = some w') : Lists w' s := by
  obtain ⟨hhops, -, hidle⟩ := lacpSysUpdate_spec h.idle hrun
  have hsys := hops_sys_eq hhops
  exact h.congr (by rw [hsys]) (hops_brk_eq hhops) (fun a _ => hops_portIndex_eq hhops a) hidle
    (by rw [hsys]) (by rw [hsys])

/-- `lacp_port_create` refuses an index that is listed. -/
theorem lacpPortCreate_eq_none_iff (h : Lists w s) {mac : LacpMac} :
    lacpPortCreate w mac i = none ↔ i ∈ s.indices := by
  rw [h.indices i]
  exact Lacp.lacpPortCreate_eq_none_iff

/-- `lacp_port_create` adds the index to the list. -/
theorem created (h : Lists w s) {mac : LacpMac} (hw : lacpPortCreate w mac i = some w') :
    Lists w' (s.add i) := by
  obtain ⟨habsent, rfl⟩ := lacpPortCreate_eq_some hw
  have hport : ∀ a ∈ w.sys.ports, (withCreated w mac i).port a = w.port a := fun a ha =>
    if_neg (h.addr_lt a ha).ne
  have hnew : (withCreated w mac i).port w.brk = createdPort w mac i := withCreated_port_self w mac i
  have hindices : (withCreated w mac i).sys.ports.map (fun a => ((withCreated w mac i).port a).portIndex)
      = i :: w.sys.ports.map fun a => (w.port a).portIndex := by
    have hold : w.sys.ports.map (fun a => ((withCreated w mac i).port a).portIndex)
        = w.sys.ports.map fun a => (w.port a).portIndex :=
      List.map_congr_left fun a ha => by rw [hport a ha]
    rw [← hold]
    show List.map _ (w.brk :: w.sys.ports) = _
    rw [List.map_cons, hnew]
    rfl
  constructor
  · intro a ha m
    rcases List.mem_cons.mp ha with rfl | ha
    · rw [hnew]
      cases m <;> rfl
    · rw [hport a ha]
      exact h.idle a ha m
  · intro a ha
    rcases List.mem_cons.mp ha with rfl | ha
    · exact Nat.lt_succ_self _
    · exact Nat.lt_succ_of_lt (h.addr_lt a ha)
  · rw [hindices, List.nodup_cons]
    refine ⟨fun hi => ?_, h.nodup⟩
    obtain ⟨a, ha, hindex⟩ := List.mem_map.mp hi
    exact habsent a ha hindex
  · intro j
    have hmem : (∃ a ∈ (withCreated w mac i).sys.ports, ((withCreated w mac i).port a).portIndex = j) ↔
        j ∈ (withCreated w mac i).sys.ports.map fun a => ((withCreated w mac i).port a).portIndex :=
      List.mem_map.symm
    rw [hmem, hindices, List.mem_cons, List.mem_map, ← h.indices j]
    exact Finset.mem_insert
  · exact h.numberOfPorts
  · exact h.portmap

/-- `lacp_port_delete` takes the index off the list. -/
theorem deleted (h : Lists w s) {a : Addr} (hfind : lacpPortFind w i = some a) :
    Lists (lacpPortDelete w a) (s.del i) := by
  obtain ⟨ha, hindex⟩ := lacpPortFind_eq_some hfind
  have hsub : (lacpPortDelete w a).sys.ports.Sublist w.sys.ports := List.eraseP_sublist
  constructor
  · exact fun b hb => h.idle b (hsub.subset hb)
  · exact fun b hb => h.addr_lt b (hsub.subset hb)
  · exact h.nodup.sublist (hsub.map _)
  · intro j
    rw [PortInventory.del, Finset.mem_erase, h.indices j]
    constructor
    · rintro ⟨hji, b, hb, hbj⟩
      refine ⟨b, (mem_lacpPortDelete h.nodup ha).mpr ⟨hb, ?_⟩, hbj⟩
      rw [hbj, hindex]
      exact hji
    · rintro ⟨b, hb, hbj⟩
      obtain ⟨hb, hne⟩ := (mem_lacpPortDelete h.nodup ha).mp hb
      rw [← hbj]
      exact ⟨hindex ▸ hne, b, hb, rfl⟩
  · exact h.numberOfPorts
  · exact h.portmap

theorem lacpPortFind_eq_none_iff (h : Lists w s) : lacpPortFind w i = none ↔ i ∉ s.indices := by
  rw [h.indices i, lacpPortFind_eq_none]
  simp only [not_exists, not_and, ne_eq]

/-! ### The loop bodies -/

theorem create (h : Lists w s) (sysMac : ℕ → LacpMac) (ports : LacpBitmap) (i : ℕ) :
    Lists (createPortIndex sysMac ports w i)
      (if lacpBitmapGetBit ports i then s.create i else s) := by
  unfold createPortIndex PortInventory.create
  split
  · cases hcreate : lacpPortCreate w (sysMac i) i with
    | none =>
      rw [if_pos (h.lacpPortCreate_eq_none_iff.mp hcreate)]
      exact h
    | some v =>
      have hnew : i ∉ s.indices := fun hi => by simp [h.lacpPortCreate_eq_none_iff.mpr hi] at hcreate
      have hv := h.created hcreate
      rw [if_neg hnew]
      refine ⟨hv.idle, hv.addr_lt, hv.nodup, hv.indices, ?_, ?_⟩
      · exact congrArg (· + 1) hv.numberOfPorts
      · exact congrArg (lacpBitmapSetBit · i) hv.portmap
  · exact h

theorem remove (h : Lists w s) (ports : LacpBitmap) (i : ℕ) :
    Lists (removePortIndex ports w i) (if lacpBitmapGetBit ports i then s.remove i else s) := by
  unfold removePortIndex PortInventory.remove
  split
  · cases hfind : lacpPortFind w i with
    | none =>
      rw [if_neg (h.lacpPortFind_eq_none_iff.mp hfind)]
      exact h
    | some a =>
      have hi : i ∈ s.indices := by
        by_contra hi
        simp [h.lacpPortFind_eq_none_iff.mpr hi] at hfind
      have hv := h.deleted hfind
      rw [if_pos hi]
      refine ⟨hv.idle, hv.addr_lt, hv.nodup, hv.indices, ?_, ?_⟩
      · exact congrArg (· - 1) hv.numberOfPorts
      · exact congrArg (lacpBitmapClearBit · i) hv.portmap
  · exact h

theorem add (h : Lists w s) (sysMac : ℕ → LacpMac) (ports : LacpBitmap) (i : ℕ) :
    Lists (addPortIndex sysMac ports w i) (if lacpBitmapGetBit ports i then s.add i else s) := by
  unfold addPortIndex
  split
  · cases hcreate : lacpPortCreate w (sysMac i) i with
    | none =>
      have hi := h.lacpPortCreate_eq_none_iff.mp hcreate
      rw [PortInventory.add, Finset.insert_eq_of_mem hi]
      exact h
    | some v => exact h.created hcreate
  · exact h

theorem del (h : Lists w s) (hrun : delPortIndex ports w i = some w') :
    Lists w' (if lacpBitmapGetBit ports i then s.del i else s) := by
  unfold delPortIndex at hrun
  split at hrun
  · rename_i hbit
    obtain ⟨a, hfind, rfl⟩ := Option.map_eq_some_iff.mp hrun
    rw [if_pos hbit]
    exact h.deleted hfind
  · rename_i hbit
    obtain rfl := Option.some.inj hrun
    rw [if_neg hbit]
    exact h

/-! ### The three functions -/

theorem createPorts (h : Lists w s)
    (hrun : lacpCreatePorts fuel w sysMac ports = some w') :
    Lists w' (s.forBits .create ports lacpPortMax) :=
  settled (List.foldl_rel h fun i _ _ _ hi => hi.create sysMac ports i) hrun

theorem removePorts (h : Lists w s) (ports : LacpBitmap) :
    Lists (lacpRemovePorts w ports) (s.forBits .remove ports lacpPortMax) :=
  List.foldl_rel h fun i _ _ _ hi => hi.remove ports i

theorem delPorts (h : Lists w s) (hrun : (List.range n).foldlM (delPortIndex ports) w
    = some w') : Lists w' (s.forBits .del ports n) := by
  induction n generalizing w' with
  | zero =>
    obtain rfl := Option.some.inj hrun
    exact h
  | succ n ih =>
    rw [List.range_succ, List.foldlM_append, Option.bind_eq_bind, Option.bind_eq_some_iff] at hrun
    obtain ⟨v, hv, hlast⟩ := hrun
    obtain ⟨_, hdel, hend⟩ := Option.bind_eq_some_iff.mp hlast
    obtain rfl := Option.some.inj hend
    rw [PortInventory.forBits_succ]
    exact (ih hv).del hdel

theorem sysSetCfg (h : Lists w s) {cfg : LacpSysCfg}
    (hrun : lacpSysSetCfg fuel w sysMac cfg = some w') : Lists w' (s.setCfg cfg) := by
  have hstart : Lists (lacpCriticalPathStart w) s := h.lockDepth _
  have hadd : Lists (if cfg.cfgPbmpAdd then
      (List.range lacpPortMax).foldl (addPortIndex sysMac cfg.ports) (lacpCriticalPathStart w)
      else lacpCriticalPathStart w)
      (if cfg.cfgPbmpAdd then s.forBits .add cfg.ports lacpPortMax else s) := by
    split
    · exact List.foldl_rel hstart fun i _ _ _ hi => hi.add sysMac cfg.ports i
    · exact hstart
  have hfinish : ∀ {v t}, Lists v t → ((lacpSysUpdate fuel (lacpPortUpdateInfo v)).bind
      fun w => some (lacpCriticalPathEnd w)) = some w' → Lists w' t := by
    intro v t hv hsettle
    obtain ⟨x, hupdate, hend⟩ := Option.bind_eq_some_iff.mp hsettle
    obtain rfl := Option.some.inj hend
    exact (hv.updateInfo.settled hupdate).lockDepth _
  unfold PortInventory.setCfg
  simp only [lacpSysSetCfg] at hrun
  split at hrun
  · rename_i hdel
    obtain ⟨v, hports, hsettle⟩ := Option.bind_eq_some_iff.mp hrun
    rw [if_pos hdel]
    exact hfinish (hadd.delPorts hports) hsettle
  · rename_i hdel
    rw [if_neg hdel]
    exact hfinish (hadd.setSysScalar cfg) hrun

end Lists

/-! ## Runs -/

/-- A call of one of the three functions that list ports. -/
inductive InventoryCall
  | createPorts (sysMac : ℕ → LacpMac) (ports : LacpBitmap)
  | removePorts (ports : LacpBitmap)
  | sysSetCfg (sysMac : ℕ → LacpMac) (cfg : LacpSysCfg)

/-- The code a call runs. -/
def runInventoryCall (fuel : ℕ) (w : World) : InventoryCall → Option World
  | .createPorts sysMac ports => lacpCreatePorts fuel w sysMac ports
  | .removePorts ports => some (lacpRemovePorts w ports)
  | .sysSetCfg sysMac cfg => lacpSysSetCfg fuel w sysMac cfg

/-- The states between two calls of a run in which every call meets the condition `R`. -/
inductive InventoryRun (R : World → InventoryCall → Prop) : World → Prop
  | init (pid : UInt32) : InventoryRun R (initWorld pid)
  | step {w w' : World} {c : InventoryCall} {fuel : ℕ} (h : InventoryRun R w) (hok : R w c)
      (hrun : runInventoryCall fuel w c = some w') : InventoryRun R w'

/-- The inventory of a world. -/
def portInventory (w : World) : PortInventory where
  indices := (w.sys.ports.map fun a => (w.port a).portIndex).toFinset
  numberOfPorts := w.sys.numberOfPorts
  portmap := w.sys.portmap

/-- `lacp_sys_set_cfg` adds and deletes no port. -/
def InventoryCall.KeepsPorts (w : World) : InventoryCall → Prop
  | .sysSetCfg _ cfg => (portInventory w).Keeps cfg
  | _ => True

/-- `lacp_sys_set_cfg` adds and deletes only ports that are listed. -/
def InventoryCall.NamesListed (w : World) : InventoryCall → Prop
  | .sysSetCfg _ cfg => cfg.cfgPbmpAdd = true ∨ cfg.cfgPbmpDel = true →
      PortInventory.named cfg.ports lacpPortMax ⊆ (portInventory w).indices
  | _ => True

instance (s : PortInventory) (cfg : LacpSysCfg) : Decidable (s.Keeps cfg) :=
  inferInstanceAs (Decidable (if cfg.cfgPbmpDel = true then Disjoint (PortInventory.named _ _) _
    else if cfg.cfgPbmpAdd = true then PortInventory.named _ _ ⊆ _ else True))

instance (w : World) : (c : InventoryCall) → Decidable (c.KeepsPorts w)
  | .sysSetCfg _ _ => inferInstanceAs (Decidable (PortInventory.Keeps _ _))
  | .createPorts _ _ | .removePorts _ => isTrue trivial

instance (w : World) : (c : InventoryCall) → Decidable (c.NamesListed w)
  | .sysSetCfg _ _ => inferInstanceAs (Decidable (_ → _))
  | .createPorts _ _ | .removePorts _ => isTrue trivial

section Runs

variable {R : World → InventoryCall → Prop} {w w' : World} {s : PortInventory}

theorem Lists.eq_portInventory (h : Lists w s) : s = portInventory w := by
  have hindices : s.indices = (portInventory w).indices := by
    ext i
    simp [portInventory, h.indices i]
  obtain ⟨indices, numberOfPorts, portmap⟩ := s
  obtain rfl : indices = _ := hindices
  rw [portInventory, h.numberOfPorts, h.portmap]

/-- Every call that keeps the ports keeps the records consistent. -/
theorem Lists.step {fuel : ℕ} {c : InventoryCall} (h : Lists w s) (hs : s.Consistent)
    (hok : c.KeepsPorts w) (hrun : runInventoryCall fuel w c = some w') :
    ∃ t, Lists w' t ∧ t.Consistent := by
  cases c with
  | createPorts sysMac ports =>
    exact ⟨_, h.createPorts hrun, PortInventory.forBits_invariant ports
      (fun _ _ hi ht => ht.create hi) hs⟩
  | removePorts ports =>
    obtain rfl := Option.some.inj hrun
    exact ⟨_, h.removePorts ports, PortInventory.forBits_invariant ports
      (fun _ i _ ht => ht.remove i) hs⟩
  | sysSetCfg sysMac cfg =>
    have hkeeps : s.Keeps cfg := by
      rw [h.eq_portInventory]
      exact hok
    exact ⟨_, h.sysSetCfg hrun, hs.setCfg_iff.mpr hkeeps⟩

theorem InventoryRun.lists (h : InventoryRun (fun w c => c.KeepsPorts w) w) :
    ∃ s, Lists w s ∧ s.Consistent := by
  induction h with
  | init pid =>
    refine ⟨⟨∅, 0, lacpBitmapClear⟩, ?_, ?_⟩
    · exact ⟨fun _ ha => absurd ha List.not_mem_nil, fun _ ha => absurd ha List.not_mem_nil,
        List.nodup_nil, fun i => by simp [initWorld, lacpSysInit], rfl, rfl⟩
    · exact ⟨fun i hi => absurd hi (Finset.notMem_empty i), rfl, fun i => by simp⟩
  | step _ hok hrun ih =>
    obtain ⟨s, hlists, hs⟩ := ih
    exact hlists.step hs hok hrun

/-- In every run in which `lacp_sys_set_cfg` adds and deletes no port, the list, the counter and the bitmap
are one set; and a call that adds or deletes one ends that. -/
theorem inventoryRun_inventory (h : InventoryRun (fun w c => c.KeepsPorts w) w) :
    Inventory w ∧ ∀ fuel sysMac cfg w', lacpSysSetCfg fuel w sysMac cfg = some w' →
      (Inventory w' ↔ (InventoryCall.sysSetCfg sysMac cfg).KeepsPorts w) := by
  obtain ⟨s, hlists, hs⟩ := h.lists
  refine ⟨(hlists.inventory_iff hs.lt_max).mpr hs, fun fuel sysMac cfg w' hrun => ?_⟩
  rw [(hlists.sysSetCfg hrun).inventory_iff (PortInventory.setCfg_lt_max hs.lt_max cfg), hs.setCfg_iff,
    hlists.eq_portInventory]
  rfl

/-- Run a list of calls, as long as each passes the test. -/
def runInventoryCalls (test : World → InventoryCall → Bool) (fuel : ℕ) (w : World)
    (calls : List InventoryCall) : Option World :=
  calls.foldlM (fun w c => if test w c then runInventoryCall fuel w c else none) w

theorem exists_inventoryRun {test : World → InventoryCall → Bool} {fuel : ℕ} {pid : UInt32}
    {calls : List InventoryCall} {result : World → Bool} (htest : ∀ w c, test w c = true → R w c)
    (hresult : (runInventoryCalls test fuel (initWorld pid) calls).any result = true) :
    ∃ w, InventoryRun R w ∧ result w = true := by
  cases hrun : runInventoryCalls test fuel (initWorld pid) calls with
  | none => simp [hrun] at hresult
  | some w =>
    rw [hrun] at hresult
    refine ⟨w, ?_, hresult⟩
    refine Fuel.foldlM_invariant (P := InventoryRun R) (fun c _ u v hu hcall => ?_) (.init pid) hrun
    split at hcall
    · rename_i hok
      exact hu.step (htest u c hok) hcall
    · cases hcall

/-- Three ports are created, a port is added that is there already, and one is removed. -/
theorem inventoryRun_inventory_two : ∃ w, InventoryRun (fun w c => c.KeepsPorts w) w ∧
    w.sys.numberOfPorts = 2 ∧ Inventory w := by
  have hrun : (runInventoryCalls (fun w c => decide (c.KeepsPorts w)) 30 (initWorld 77)
      [.createPorts (fun _ => .zero) (lacpBitmapSetBit (lacpBitmapSetBit (portBit 0) 1) 3),
        .sysSetCfg (fun _ => .zero) { LacpSysCfg.zero with cfgPbmpAdd := true, ports := portBit 3 },
        .removePorts (portBit 1)]).any (fun w => w.sys.numberOfPorts == 2) = true := by
    decide +kernel
  obtain ⟨w, h, hnumber⟩ := exists_inventoryRun (R := fun w c => c.KeepsPorts w)
    (fun _ _ htest => of_decide_eq_true htest) hrun
  exact ⟨w, h, beq_iff_eq.mp hnumber, (inventoryRun_inventory h).1⟩

/-- `BR_CFG_PBMP_DEL` on the one port there is: the list is empty, the counter and the bitmap are not. -/
theorem not_inventoryRun_inventory :
    ¬ ∀ w, InventoryRun (fun w c => c.NamesListed w) w → Inventory w := by
  have hrun : (runInventoryCalls (fun w c => decide (c.NamesListed w)) 30 (initWorld 77)
      [.createPorts (fun _ => .zero) (portBit 0),
        .sysSetCfg (fun _ => .zero) { LacpSysCfg.zero with cfgPbmpDel := true, ports := portBit 0 }]).any
        (fun w => w.sys.ports.isEmpty && w.sys.numberOfPorts == 1) = true := by
    decide +kernel
  obtain ⟨w, h, hw⟩ := exists_inventoryRun (R := fun w c => c.NamesListed w)
    (fun _ _ htest => of_decide_eq_true htest) hrun
  obtain ⟨hports, hnumber⟩ := Bool.and_eq_true_iff.mp hw
  intro hall
  have hcount := (hall w h).numberOfPorts
  rw [beq_iff_eq.mp hnumber, List.isEmpty_iff.mp hports] at hcount
  cases hcount

end Runs

end Lacp
