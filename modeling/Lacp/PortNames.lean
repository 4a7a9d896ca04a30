import Lacp.Reachability

/-!
# Names of ports and the tables they index

Reference: `DEV_GetIfPonFromIfnet` of `trunk_cli.c`, `trunk_dbg_get_switch`, `trunk_ssp_rx_lacpdu` and
`trunk_ssp_get_global_index` of `trunk_ssp.c`, the tables of `lacp_stub.c`, `BITMAP/bitmap.c`, and the calls
of `trunk_api.c` that name a port.

The parser bounds the port and not the slot. What follows addresses four tables: `g_port_list` by the flat
index, the 19 bytes of a link group by the slot, in 32 bits where a bit is read and in 16 where it is
written, the 19 bytes of a `lacp_bitmap_t` by the flat index, as an `int`, over 8, and the debug switches of
18 slots by the flat index again. `PortCall.accesses` lists the accesses of a call in the order of the
source, and `accesses_inRange_iff` says which names keep them in range.
-/

namespace Lacp

/-! ## The parser -/

/-- `DEV_GetIfPonFromIfnet`. `scanned` is what `sscanf` stores, or `none` where it does not convert two
numbers. -/
def devGetIfPonFromIfnet (scanned : Option (Int32 × Int32)) : Option (UInt32 × UInt32) :=
  match scanned with
  | none => none
  | some (ulSlot, ulPort) =>
    if ulSlot < 0 || ulPort ≤ 0 || ulPort > 8 then none else some (ulSlot.toUInt32, ulPort.toUInt32)

/-- `trunk_ssp_get_global_index`, where the port is not 0. -/
def trunkSspGlobalIndex (slot port : UInt32) : UInt32 := slot * 8 + (port - 1)

/-! ## Accesses -/

/-- An access to one of the tables, with its index as the source computes it. -/
inductive Access
  /-- `g_port_list[144]` -/
  | gPortList (i : ℕ)
  /-- `ports[19]` of a `LINK_GROUP_T` -/
  | linkGroup (byte : ℕ)
  /-- `bmp_array[19]` of a `lacp_bitmap_t` -/
  | lacpBitmap (byte : ℤ)
  /-- `g_lacp_debug_rx_tx[18][8][2]` -/
  | debugSwitch (slot port direction : ℤ)

/-- The access is inside its table. -/
def Access.InRange : Access → Prop
  | .gPortList i => i < 144
  | .linkGroup byte => byte < 19
  | .lacpBitmap byte => 0 ≤ byte ∧ byte < 19
  | .debugSwitch slot port direction =>
    (0 ≤ slot ∧ slot < 18) ∧ (0 ≤ port ∧ port < 8) ∧ 0 ≤ direction ∧ direction < 2

/-- `lacp_bitmap_get_bit`, `lacp_bitmap_set_bit` and `lacp_bitmap_clear_bit`: the bit is an `int`. -/
def lacpBitmapAccess (bit : UInt32) : Access := .lacpBitmap (bit.toInt32.toInt.tdiv 8)

/-- `trunk_dbg_get_switch(port_index, 1, direction)`. -/
def trunkDbgGetSwitchAccess (portIndex : UInt32) (direction : ℤ) : Access :=
  .debugSwitch portIndex.toInt32.toInt (1 - 1) direction

/-- `stub_db_agg_get_port_tid`: one byte of each group, up to the first that has the bit. -/
def stubDbAggGetPortTidAccesses (w : World) (slot port : UInt32) : List Access :=
  List.replicate (if stubDbAggGetPortTid w slot.toNat port.toNat = 0 then 32
    else stubDbAggGetPortTid w slot.toNat port.toNat) (.linkGroup slot.toNat)

/-- `stub_db_agg_add_member`: `BCM_HWW_TRUNK_SET_PBMP` keeps the slot in 16 bits. -/
def stubDbAggAddMemberAccess (slot : UInt32) : Access := .linkGroup slot.toUInt16.toNat

/-- `stub_db_agg_del_member`. -/
def stubDbAggDelMemberAccesses (slot : UInt32) : List Access :=
  List.replicate 32 (.linkGroup slot.toUInt16.toNat)

/-- What the engine accesses on behalf of the port with index `i`: its entry of `g_port_list`, its bytes
in the link groups (for the key) and in bitmaps, and the switch for the frames it sends. -/
def portAccesses (i : ℕ) : List Access :=
  [.gPortList i, .linkGroup (i / 8), lacpBitmapAccess (UInt32.ofNat i),
    trunkDbgGetSwitchAccess (UInt32.ofNat i) 1]

/-- The accesses of an entry point of the engine: its loops are over the indices below `LACP_PORT_MAX` and
over the listed ports. -/
def engineAccesses (w : World) : List Access :=
  ((w.sys.ports.map fun a => (w.port a).portIndex) ++ List.range lacpPortMax).flatMap portAccesses

/-- The calls of `trunk_api.h` that name a port, and the reception of a LACPDU. `trunk_dbg_pkt`, which the
command `lacp debug-pkt` runs with a name that was parsed, indexes the debug switches as well; it is no call
of `trunk_api.h` and not among these. -/
inductive PortCall
  | lacpEnable
  | lacpDisable
  | getPrio
  | setPrio
  | setSpeed
  | setDuplex
  | linkChange
  | getLacpInfo
  | clearStat
  | rxLacpdu

/-- The accesses of a call for the port `slot`/`port`. -/
def PortCall.accesses (w : World) (slot port : UInt32) : PortCall → List Access
  | .lacpEnable =>
    lacpBitmapAccess (trunkSspGlobalIndex slot port) :: engineAccesses w ++
      stubDbAggAddMemberAccess slot :: lacpBitmapAccess (trunkSspGlobalIndex slot port) ::
      .gPortList (trunkSspGlobalIndex slot port).toNat :: engineAccesses w ++
      .gPortList (trunkSspGlobalIndex slot port).toNat :: engineAccesses w
  | .lacpDisable =>
    stubDbAggGetPortTidAccesses w slot port ++
      if stubDbPortLacpIsEnable w slot.toNat port.toNat then
        stubDbAggDelMemberAccesses slot ++
          lacpBitmapAccess (trunkSspGlobalIndex slot port) :: engineAccesses w
      else []
  | .getPrio => [.gPortList (trunkSspGlobalIndex slot port).toNat]
  | .setPrio =>
    lacpBitmapAccess (trunkSspGlobalIndex slot port) :: stubDbAggGetPortTidAccesses w slot port ++
      (if stubDbPortLacpIsEnable w slot.toNat port.toNat then engineAccesses w else []) ++
      -- the entry is read and written back
      [.gPortList (trunkSspGlobalIndex slot port).toNat, .gPortList (trunkSspGlobalIndex slot port).toNat]
  | .setSpeed | .setDuplex =>
    .gPortList (trunkSspGlobalIndex slot port).toNat :: .gPortList (trunkSspGlobalIndex slot port).toNat ::
      lacpBitmapAccess (trunkSspGlobalIndex slot port) :: engineAccesses w
  | .linkChange =>
    stubDbAggGetPortTidAccesses w slot port ++
      if stubDbPortLacpIsEnable w slot.toNat port.toNat then engineAccesses w else []
  | .getLacpInfo => []
  | .clearStat =>
    lacpBitmapAccess (trunkSspGlobalIndex slot port) :: stubDbAggGetPortTidAccesses w slot port ++
      if stubDbPortLacpIsEnable w slot.toNat port.toNat then engineAccesses w else []
  | .rxLacpdu =>
    stubDbAggGetPortTidAccesses w slot port ++
      if stubDbPortLacpIsEnable w slot.toNat port.toNat then
        -- the flat index stands where the table has the slot
        trunkDbgGetSwitchAccess (trunkSspGlobalIndex slot port) 0 :: engineAccesses w
      else []

/-- The names for which a call stays inside the tables. Slots are counted modulo `2 ^ 29` where only the
flat index is used, whose 32 bits drop the rest. -/
def PortCall.Covers (w : World) (slot port : UInt32) : PortCall → Prop
  | .lacpEnable | .getPrio | .setSpeed | .setDuplex => slot.toNat % 536870912 < 18
  | .setPrio => slot.toNat < 18
  | .lacpDisable | .linkChange | .clearStat => slot.toNat < 19
  | .getLacpInfo => True
  | .rxLacpdu => slot.toNat < 19 ∧ (stubDbPortLacpIsEnable w slot.toNat port.toNat = true →
      8 * slot.toNat + port.toNat ≤ 18)

section Range

variable {w : World} {slot port i : UInt32} {scanned : Option (Int32 × Int32)}

/-- A signed value by its 32 bits. -/
theorem int32_toInt_eq (x : Int32) : x.toInt =
    if x.toUInt32.toNat < 2147483648 then (x.toUInt32.toNat : ℤ) else x.toUInt32.toNat - 4294967296 := by
  have hint : x.toInt = x.toBitVec.toInt := rfl
  have hnat : x.toUInt32.toNat = x.toBitVec.toNat := rfl
  rw [hint, hnat, BitVec.toInt_eq_toNat_cond]
  split <;> split <;> omega

theorem toInt_toInt32 (h : i.toNat < 2147483648) : i.toInt32.toInt = i.toNat := by
  rw [int32_toInt_eq, UInt32.toUInt32_toInt32, if_pos h]

/-- What the parser accepts. -/
theorem devGetIfPonFromIfnet_eq_some (h : devGetIfPonFromIfnet scanned = some (slot, port)) :
    slot.toNat < 2147483648 ∧ 1 ≤ port.toNat ∧ port.toNat ≤ 8 := by
  unfold devGetIfPonFromIfnet at h
  split at h
  · cases h
  · rename_i ulSlot ulPort
    split at h
    · cases h
    · rename_i hrange
      obtain ⟨rfl, rfl⟩ := Prod.mk.inj (Option.some.inj h)
      simp only [Bool.or_eq_true, decide_eq_true_eq, not_or, gt_iff_lt, Int32.lt_iff_toInt_lt,
        Int32.le_iff_toInt_le] at hrange
      obtain ⟨⟨hslot, hport⟩, hport'⟩ := hrange
      have hzero : (0 : Int32).toInt = 0 := rfl
      have height : (8 : Int32).toInt = 8 := rfl
      rw [hzero] at hslot hport
      rw [height] at hport'
      have hslotBits := int32_toInt_eq ulSlot
      have hportBits := int32_toInt_eq ulPort
      have hslotLt := UInt32.toNat_lt ulSlot.toUInt32
      have hportLt := UInt32.toNat_lt ulPort.toUInt32
      split at hslotBits <;> split at hportBits <;> omega

/-- The flat index keeps 29 bits of the slot. -/
theorem trunkSspGlobalIndex_toNat (hport : 1 ≤ port.toNat) (hport' : port.toNat ≤ 8) :
    (trunkSspGlobalIndex slot port).toNat = 8 * (slot.toNat % 536870912) + (port.toNat - 1) := by
  unfold trunkSspGlobalIndex
  have hpred : (port - 1).toNat = port.toNat - 1 :=
    UInt32.toNat_sub_of_le _ _ (UInt32.le_iff_toNat_le.mpr hport)
  have height : (8 : UInt32).toNat = 8 := rfl
  rw [UInt32.toNat_add, UInt32.toNat_mul, hpred, height]
  omega

/-- Small slots have the index that the tables are laid out for. -/
theorem trunkSspGlobalIndex_eq_globalIndex (hslot : slot.toNat < 536870912) (hport : 1 ≤ port.toNat)
    (hport' : port.toNat ≤ 8) :
    (trunkSspGlobalIndex slot port).toNat = globalIndex slot.toNat port.toNat := by
  rw [trunkSspGlobalIndex_toNat hport hport', Nat.mod_eq_of_lt hslot]
  unfold globalIndex
  omega

theorem lacpBitmapAccess_inRange (h : i.toNat < 152) : (lacpBitmapAccess i).InRange := by
  unfold lacpBitmapAccess Access.InRange
  rw [toInt_toInt32 (by omega), Int.tdiv_eq_ediv_of_nonneg (Int.natCast_nonneg _)]
  omega

theorem trunkDbgGetSwitchAccess_inRange_iff (h : i.toNat < 2147483648) {direction : ℤ}
    (hdirection : 0 ≤ direction ∧ direction < 2) :
    (trunkDbgGetSwitchAccess i direction).InRange ↔ i.toNat < 18 := by
  unfold trunkDbgGetSwitchAccess Access.InRange
  rw [toInt_toInt32 h]
  constructor
  · rintro ⟨⟨-, hlt⟩, -⟩
    omega
  · intro hlt
    exact ⟨by omega, by omega, hdirection⟩

theorem stubDbAggGetPortTidAccesses_inRange_iff :
    (∀ x ∈ stubDbAggGetPortTidAccesses w slot port, x.InRange) ↔ slot.toNat < 19 := by
  unfold stubDbAggGetPortTidAccesses
  have hsome : (if stubDbAggGetPortTid w slot.toNat port.toNat = 0 then 32
      else stubDbAggGetPortTid w slot.toNat port.toNat) ≠ 0 := by
    split
    · decide
    · assumption
  constructor
  · exact fun hall => hall _ (List.mem_replicate.mpr ⟨hsome, rfl⟩)
  · intro hlt x hx
    rw [(List.mem_replicate.mp hx).2]
    exact hlt

theorem stubDbAggDelMemberAccesses_inRange (h : slot.toNat < 19) :
    ∀ x ∈ stubDbAggDelMemberAccesses slot, x.InRange := by
  intro x hx
  rw [(List.mem_replicate.mp hx).2]
  show slot.toUInt16.toNat < 19
  rw [UInt32.toNat_toUInt16]
  omega

/-- The engine stays inside the tables, since the listed ports have indices below `LACP_PORT_MAX`. -/
theorem engineAccesses_inRange (h : ∀ a ∈ w.sys.ports, (w.port a).portIndex < lacpPortMax) :
    ∀ x ∈ engineAccesses w, x.InRange := by
  intro x hx
  obtain ⟨j, hj, hx⟩ := List.mem_flatMap.mp hx
  have hlt : j < 4 := by
    rcases List.mem_append.mp hj with hlisted | hrange
    · obtain ⟨a, ha, rfl⟩ := List.mem_map.mp hlisted
      exact h a ha
    · exact List.mem_range.mp hrange
  have hnat : (UInt32.ofNat j).toNat = j := UInt32.toNat_ofNat_of_lt' (hlt.trans (by decide))
  simp only [portAccesses, List.mem_cons, List.not_mem_nil, or_false] at hx
  rcases hx with rfl | rfl | rfl | rfl
  · exact (by omega : j < 144)
  · exact (by omega : j / 8 < 19)
  · exact lacpBitmapAccess_inRange (by omega)
  · exact (trunkDbgGetSwitchAccess_inRange_iff (by omega) (by decide)).mpr (by omega)

/-- What follows a test of the database. -/
theorem forall_mem_ite {P : Access → Prop} {test : Bool} {l : List Access} :
    (∀ x ∈ if test then l else [], P x) ↔ (test = true → ∀ x ∈ l, P x) := by
  cases test
  · simp
  · simp

/-- For every name the parser accepts a call stays inside the tables exactly if it covers the name. The
indices of the listed ports are below `LACP_PORT_MAX` in every reachable state (`Coherent.index_lt`). -/
theorem accesses_inRange_iff (h : ∀ a ∈ w.sys.ports, (w.port a).portIndex < lacpPortMax)
    (hname : devGetIfPonFromIfnet scanned = some (slot, port)) (c : PortCall) :
    (∀ x ∈ c.accesses w slot port, x.InRange) ↔ c.Covers w slot port := by
  obtain ⟨hslot, hport, hport'⟩ := devGetIfPonFromIfnet_eq_some hname
  have hengine := engineAccesses_inRange h
  have hindex : (trunkSspGlobalIndex slot port).toNat =
      8 * (slot.toNat % 536870912) + (port.toNat - 1) := trunkSspGlobalIndex_toNat hport hport'
  have hlist : ∀ {n : ℕ}, Access.InRange (.gPortList n) ↔ n < 144 := Iff.rfl
  cases c with
  | getLacpInfo => exact iff_of_true (fun x hx => absurd hx List.not_mem_nil) trivial
  | getPrio =>
    simp only [PortCall.accesses, PortCall.Covers, List.forall_mem_singleton, hlist]
    omega
  | setSpeed | setDuplex =>
    simp only [PortCall.accesses, PortCall.Covers, List.forall_mem_cons, hlist]
    constructor
    · rintro ⟨hlt, -⟩
      omega
    · intro hlt
      exact ⟨by omega, by omega, lacpBitmapAccess_inRange (by omega), hengine⟩
  | lacpEnable =>
    simp only [PortCall.accesses, PortCall.Covers, List.forall_mem_append, List.forall_mem_cons, hlist]
    constructor
    · rintro ⟨⟨-, -, -, hlt, -⟩, -⟩
      omega
    · intro hlt
      have hbyte : (stubDbAggAddMemberAccess slot).InRange := by
        show slot.toUInt16.toNat < 19
        rw [UInt32.toNat_toUInt16]
        omega
      have hbit := lacpBitmapAccess_inRange (i := trunkSspGlobalIndex slot port) (by omega)
      exact ⟨⟨⟨hbit, hengine⟩, hbyte, hbit, by omega, hengine⟩, by omega, hengine⟩
  | linkChange =>
    simp only [PortCall.accesses, PortCall.Covers, List.forall_mem_append, forall_mem_ite,
      stubDbAggGetPortTidAccesses_inRange_iff]
    exact ⟨fun hall => hall.1, fun hlt => ⟨hlt, fun _ => hengine⟩⟩
  | lacpDisable =>
    simp only [PortCall.accesses, PortCall.Covers, List.forall_mem_append, List.forall_mem_cons,
      forall_mem_ite, stubDbAggGetPortTidAccesses_inRange_iff]
    constructor
    · exact fun hall => hall.1
    · intro hlt
      exact ⟨hlt, fun _ => ⟨stubDbAggDelMemberAccesses_inRange hlt,
        lacpBitmapAccess_inRange (by omega), hengine⟩⟩
  | clearStat =>
    simp only [PortCall.accesses, PortCall.Covers, List.forall_mem_append, List.forall_mem_cons,
      forall_mem_ite, stubDbAggGetPortTidAccesses_inRange_iff]
    constructor
    · exact fun hall => hall.1.2
    · intro hlt
      exact ⟨⟨lacpBitmapAccess_inRange (by omega), hlt⟩, fun _ => hengine⟩
  | setPrio =>
    simp only [PortCall.accesses, PortCall.Covers, List.forall_mem_append, List.forall_mem_cons,
      forall_mem_ite, stubDbAggGetPortTidAccesses_inRange_iff, hlist]
    constructor
    · rintro ⟨⟨⟨-, hbyte⟩, -⟩, hlt, -⟩
      omega
    · intro hlt
      refine ⟨⟨⟨lacpBitmapAccess_inRange (by omega), by omega⟩, fun _ => hengine⟩, by omega, by omega, ?_⟩
      exact fun x hx => absurd hx List.not_mem_nil
  | rxLacpdu =>
    simp only [PortCall.accesses, PortCall.Covers, List.forall_mem_append, List.forall_mem_cons,
      forall_mem_ite, stubDbAggGetPortTidAccesses_inRange_iff]
    refine and_congr_right fun hbyte => forall_congr' fun _ => ?_
    rw [trunkDbgGetSwitchAccess_inRange_iff (by omega) (by decide)]
    constructor
    · rintro ⟨hlt, -⟩
      omega
    · intro hle
      exact ⟨by omega, hengine⟩

/-- Port 2 of slot 0 is in link group 1, and a frame arrives for it. -/
theorem accesses_inRange_iff_member : ∃ w, Reachable w ∧ stubDbPortLacpIsEnable w 0 2 = true ∧
    devGetIfPonFromIfnet (some (0, 2)) = some (0, 2) ∧
    ∀ x ∈ PortCall.rxLacpdu.accesses w 0 2, x.InRange := by
  have hrun : (runCalls (fun _ _ => true) 25 (initWorld 77) [.portLacpEnable 0 2 1 .zero]).any
      (fun w => stubDbPortLacpIsEnable w 0 2) = true := by decide +kernel
  obtain ⟨w, h, _, hmember⟩ := exists_reachableBy_of_runCalls (R := fun _ _ => True) (by decide)
    (fun _ _ _ => trivial) hrun
  have hname : devGetIfPonFromIfnet (some (0, 2)) = some (0, 2) := by decide
  refine ⟨w, h, hmember, hname, ?_⟩
  exact (accesses_inRange_iff h.coherent.1.index_lt hname .rxLacpdu).mpr ⟨by decide, fun _ => by decide⟩

/-- The parser accepts slot 18 port 1, and `trunk_port_set_speed` writes to `g_port_list[144]`. -/
theorem not_accesses_inRange : ¬ ∀ w, Reachable w → ∀ scanned slot port,
    devGetIfPonFromIfnet scanned = some (slot, port) →
    ∀ c : PortCall, ∀ x ∈ c.accesses w slot port, x.InRange := by
  intro hall
  have hname : devGetIfPonFromIfnet (some (18, 1)) = some (18, 1) := by decide
  have hrange := hall (initWorld 0) (.init 0) _ 18 1 hname .setSpeed (.gPortList 144) List.mem_cons_self
  exact absurd hrange (Nat.lt_irrefl 144)

end Range

end Lacp
