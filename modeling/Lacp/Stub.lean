import Lacp.Types

/-!
# Bitmaps, the link-group database and the hardware table

Reference: `BITMAP/bitmap.c`, `lacp_stub.c`, `lacp_stub.h`, `trunk_ssp.c`.
-/

namespace Lacp

/-- `LACP_PORT_MAX`. -/
def lacpPortMax : ℕ := 4

/-- Success, or one of `LACP_ERROR_E`. -/
inductive LacpRet
  | ok
  | internel
  | notEnable
  | notFound
  | notCreated
  | rstpPortIsAbsent
  | rstpNotEnable
deriving DecidableEq, Repr

/-! ## `lacp_bitmap_t` -/

def lacpBitmapClear : LacpBitmap := fun _ => 0

def lacpBitmapGetBit (bitmap : LacpBitmap) (bit : ℕ) : Bool :=
  (bitmap (bit / 8)).getLsbD (bit % 8)

def lacpBitmapSetBit (bitmap : LacpBitmap) (bit : ℕ) : LacpBitmap :=
  fun i => if i = bit / 8 then bitmap i ||| BitVec.twoPow 8 (bit % 8) else bitmap i

def lacpBitmapClearBit (bitmap : LacpBitmap) (bit : ℕ) : LacpBitmap :=
  fun i => if i = bit / 8 then bitmap i &&& ~~~(BitVec.twoPow 8 (bit % 8)) else bitmap i

@[simp] theorem lacpBitmapGetBit_clear (i : ℕ) : lacpBitmapGetBit lacpBitmapClear i = false := by
  simp [lacpBitmapGetBit, lacpBitmapClear]

@[simp] theorem lacpBitmapGetBit_setBit (bitmap : LacpBitmap) (i j : ℕ) :
    lacpBitmapGetBit (lacpBitmapSetBit bitmap i) j
      = (decide (j = i) || lacpBitmapGetBit bitmap j) := by
  simp only [lacpBitmapGetBit, lacpBitmapSetBit]
  by_cases hbyte : j / 8 = i / 8
  · rw [if_pos hbyte, BitVec.getLsbD_or, BitVec.getLsbD_twoPow]
    have hlt : i % 8 < 8 := Nat.mod_lt _ (by omega)
    by_cases hij : j = i
    · subst hij
      simp [hlt]
    · have hbit : i % 8 ≠ j % 8 := by omega
      simp [hij, hbit]
  · have hij : j ≠ i := fun h => hbyte (by rw [h])
    simp [hbyte, hij]

@[simp] theorem lacpBitmapGetBit_clearBit (bitmap : LacpBitmap) (i j : ℕ) :
    lacpBitmapGetBit (lacpBitmapClearBit bitmap i) j
      = (!decide (j = i) && lacpBitmapGetBit bitmap j) := by
  simp only [lacpBitmapGetBit, lacpBitmapClearBit]
  by_cases hbyte : j / 8 = i / 8
  · rw [if_pos hbyte, BitVec.getLsbD_and, BitVec.getLsbD_not, BitVec.getLsbD_twoPow]
    have hlt : i % 8 < 8 ∧ j % 8 < 8 := ⟨Nat.mod_lt _ (by omega), Nat.mod_lt _ (by omega)⟩
    by_cases hij : j = i
    · subst hij
      simp [hlt.1]
    · have hbit : i % 8 ≠ j % 8 := by omega
      simp [hij, hbit, hlt.2]
  · have hij : j ≠ i := fun h => hbyte (by rw [h])
    simp [hbyte, hij]

/-! ## The link-group database

A link group keeps one byte for each slot and one bit for each port of the slot
(`BCM_HWW_TRUNK_SET_PBMP`, `_CLEAR_PBMP` and `_GET_PBMP`).
-/

def trunkGetPbmp (slot port : ℕ) (pbmp : ℕ → BitVec 8) : Bool :=
  (pbmp slot).getLsbD (port - 1)

def trunkSetPbmp (slot port : ℕ) (pbmp : ℕ → BitVec 8) : ℕ → BitVec 8 :=
  fun i => if i = slot then pbmp i ||| BitVec.twoPow 8 (port - 1) else pbmp i

def trunkClearPbmp (slot port : ℕ) (pbmp : ℕ → BitVec 8) : ℕ → BitVec 8 :=
  fun i => if i = slot then pbmp i &&& ~~~(BitVec.twoPow 8 (port - 1)) else pbmp i

/-- `stub_db_agg_get_member`. -/
def stubDbAggGetMember (w : World) (aggId : ℕ) : ℕ → BitVec 8 :=
  (w.gLinkGroups (aggId - 1)).ports

/-- `stub_db_agg_add_member`. -/
def stubDbAggAddMember (w : World) (aggId slot port : ℕ) : World :=
  { w with gLinkGroups := fun i =>
      let group := w.gLinkGroups i
      if i = aggId - 1 then
        -- `cnt` grows also where the bit was set before
        { group with ports := trunkSetPbmp slot port group.ports, cnt := group.cnt + 1 }
      else group }

/-- `stub_db_agg_del_member`: clears the bit in all 32 groups. -/
def stubDbAggDelMember (w : World) (slot port : ℕ) : World :=
  { w with gLinkGroups := fun i =>
      let group := w.gLinkGroups i
      -- `cnt` is left as it is, though the group loses a member
      if i < 32 then { group with ports := trunkClearPbmp slot port group.ports } else group }

/-- `stub_db_agg_get_port_tid`: the lowest group with the bit set, counted from 1, or 0. -/
def stubDbAggGetPortTid (w : World) (slot port : ℕ) : ℕ :=
  ((List.range 32).find? fun i => trunkGetPbmp slot port (w.gLinkGroups i).ports).elim 0 (· + 1)

/-- The link group of a port depends only on its bits. -/
theorem stubDbAggGetPortTid_congr {w w' : World} {slot port : ℕ}
    (h : ∀ i, trunkGetPbmp slot port (w'.gLinkGroups i).ports
      = trunkGetPbmp slot port (w.gLinkGroups i).ports) :
    stubDbAggGetPortTid w' slot port = stubDbAggGetPortTid w slot port := by
  simp only [stubDbAggGetPortTid, h]

/-- `stub_db_port_lacp_is_enable`. -/
def stubDbPortLacpIsEnable (w : World) (slot port : ℕ) : Bool :=
  stubDbAggGetPortTid w slot port != 0

/-! ## `g_port_list` -/

/-- An entry of `g_port_list` after `stub_init`. -/
def stubInitPortAttr (i : ℕ) : PortAttr where
  slot := i / 8
  port := i % 8 + 1
  speed := 1000
  duplex := 1
  cd := 1
  tid := 0
  linkStatus := 0
  prio := 0xffffffff

/-- `stub_set_port_attr`. -/
def stubSetPortAttr (w : World) (portIndex : ℕ) (attr : PortAttr) : World :=
  { w with gPortList := fun i => if i = portIndex then attr else w.gPortList i }

/-- `stub_get_port_priority`: fails where the priority was never set. -/
def stubGetPortPriority (w : World) (portIndex : ℕ) : Option UInt32 :=
  if (w.gPortList portIndex).prio == 0xffffffff then none else some (w.gPortList portIndex).prio

/-- `stub_set_port_priority`. -/
def stubSetPortPriority (w : World) (portIndex : ℕ) (prio : UInt32) : World :=
  stubSetPortAttr w portIndex { w.gPortList portIndex with prio := prio }

/-- `stub_db_set_sys_prio`. -/
def stubDbSetSysPrio (w : World) (prio : UInt32) : World := { w with gSysPrio := prio }

/-! ## `trunk_ssp.c` -/

/-- `trunk_ssp_get_global_index`: fails on port 0. -/
def trunkSspGetGlobalIndex (slot port : ℕ) : Option ℕ :=
  if port = 0 then none else some (slot * 8 + (port - 1))

/-- `lacp_ssp_change_to_slot_port`. -/
def lacpSspChangeToSlotPort (portIndex : ℕ) : ℕ × ℕ := (portIndex / 8, portIndex % 8 + 1)

/-- `trunk_ssp_get_mac`: copies five bytes, a zero and the process id, over the first five bytes of
its argument. The sixth byte stays what it was. -/
def trunkSspGetMac (pid : UInt32) (mac : LacpMac) : LacpMac :=
  { mac with
    b0 := 0
    b1 := pid.toUInt8
    b2 := (pid >>> 8).toUInt8
    b3 := (pid >>> 16).toUInt8
    b4 := (pid >>> 24).toUInt8 }

def trunkSspGetPortOperSpeed (w : World) (portIndex : ℕ) : UInt32 := (w.gPortList portIndex).speed

def trunkSspGetPortOperDuplex (w : World) (portIndex : ℕ) : UInt32 :=
  (w.gPortList portIndex).duplex

def trunkSspGetPortLinkStatus (w : World) (portIndex : ℕ) : UInt32 :=
  (w.gPortList portIndex).linkStatus

/-- `trunk_ssp_set_port_link_status`. -/
def trunkSspSetPortLinkStatus (w : World) (portIndex : ℕ) (linkStatus : UInt32) : World :=
  stubSetPortAttr w portIndex { w.gPortList portIndex with linkStatus := linkStatus }

/-- `trunk_ssp_attach_port`. -/
def trunkSspAttachPort (w : World) (portIndex : ℕ) (attach : Bool) (tid : ℕ) : World :=
  let attr := { w.gPortList portIndex with tid := if attach then tid else 0 }
  (stubSetPortAttr w portIndex attr).log (.hw portIndex attr)

/-- `trunk_ssp_set_port_cd`. -/
def trunkSspSetPortCd (w : World) (portIndex : ℕ) (state : Bool) : World :=
  let attr := { w.gPortList portIndex with cd := if state then 1 else 0 }
  (stubSetPortAttr w portIndex attr).log (.hw portIndex attr)

/-- `trunk_ssp_tx_pdu`: the frame leaves the bridge. -/
def trunkSspTxPdu (w : World) (port : LacpPort) (pdu : LacpPdu) : World := w.log (.tx port pdu)

/-- `trunk_ssp_get_speed_index`. -/
def trunkSspGetSpeedIndex (speed duplex : UInt32) : ℕ :=
  if duplex == 0 then 0
  else if speed == 10 then 1
  else if speed == 100 then 2
  else if speed == 1000 then 3
  else if speed == 10000 then 4
  else 0

/-- `trunk_ssp_get_port_oper_key`. -/
def trunkSspGetPortOperKey (w : World) (portIndex : ℕ) : ℕ :=
  let (slot, port) := lacpSspChangeToSlotPort portIndex
  let tid := stubDbAggGetPortTid w slot port
  if tid = 0 then 0
  else
    let speed := trunkSspGetPortOperSpeed w portIndex
    let duplex := trunkSspGetPortOperDuplex w portIndex
    -- the link group in the upper byte, the speed class in the lower one
    tid <<< 8 ||| trunkSspGetSpeedIndex speed duplex

section Projections

variable (w : World) (i : ℕ) (attr : PortAttr) (b : Bool) (tid : ℕ) (port : LacpPort) (pdu : LacpPdu)

@[simp] theorem stubSetPortAttr_port : (stubSetPortAttr w i attr).port = w.port := rfl
@[simp] theorem stubSetPortAttr_sys : (stubSetPortAttr w i attr).sys = w.sys := rfl
@[simp] theorem stubSetPortAttr_brk : (stubSetPortAttr w i attr).brk = w.brk := rfl
@[simp] theorem stubSetPortAttr_trace : (stubSetPortAttr w i attr).trace = w.trace := rfl

@[simp] theorem stubSetPortAttr_gLinkGroups :
    (stubSetPortAttr w i attr).gLinkGroups = w.gLinkGroups := rfl

@[simp] theorem stubSetPortAttr_gPortList (j : ℕ) :
    (stubSetPortAttr w i attr).gPortList j = if j = i then attr else w.gPortList j := rfl

/-- The key of a port depends only on its link group, its speed and its duplex value. -/
theorem trunkSspGetPortOperKey_congr {w w' : World} {i : ℕ}
    (htid : stubDbAggGetPortTid w' (i / 8) (i % 8 + 1) = stubDbAggGetPortTid w (i / 8) (i % 8 + 1))
    (hspeed : (w'.gPortList i).speed = (w.gPortList i).speed)
    (hduplex : (w'.gPortList i).duplex = (w.gPortList i).duplex) :
    trunkSspGetPortOperKey w' i = trunkSspGetPortOperKey w i := by
  have hkey : ∀ v, trunkSspGetPortOperKey v i =
      if stubDbAggGetPortTid v (i / 8) (i % 8 + 1) = 0 then 0
      else stubDbAggGetPortTid v (i / 8) (i % 8 + 1) <<< 8 |||
        trunkSspGetSpeedIndex (v.gPortList i).speed (v.gPortList i).duplex := fun _ => rfl
  rw [hkey, hkey, htid, hspeed, hduplex]

end Projections

end Lacp
