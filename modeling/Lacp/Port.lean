import Lacp.Stub

/-!
# Port records: creation, deletion and reselection

Reference: `LACP/lacp_port.c`, `LACP/lacp_util.c`, and the default records of `LACP/lacp_api.c`.
-/

namespace Lacp

/-! ## Port information records -/

/-- `LACP_STATE_T` with every bit clear, as `calloc` and `memset` leave it. -/
def LacpState.zero : LacpState := ⟨false, false, false, false, false, false, false, false⟩

def LacpMac.zero : LacpMac := ⟨0, 0, 0, 0, 0, 0⟩

def LacpPortInfo.zero : LacpPortInfo := ⟨0, .zero, 0, 0, 0, .zero⟩

/-- `lacp_port_t` as `calloc` leaves it. -/
def LacpPort.zero : LacpPort where
  portIndex := 0
  rx := ⟨false, .begin⟩
  sel := ⟨false, .begin⟩
  mux := ⟨false, .begin⟩
  tx := ⟨false, .begin⟩
  actor := .zero
  partner := .zero
  actorAdmin := .zero
  partnerAdmin := .zero
  msgActor := .zero
  msgPartner := .zero
  currentWhile := 0
  periodicTimer := 0
  waitWhile := 0
  masterPort := 0
  portEnabled := false
  portMoved := false
  lacpEnabled := false
  selected := false
  standby := false
  speed := 0
  duplex := 0
  aggId := 0
  rcvdLacpdu := false
  ntt := false
  readyN := false
  holdCount := 0
  txLacpduCnt := 0
  rxLacpduCnt := 0

/-- `htons` on a little-endian host: the two bytes change places. -/
def htons (x : UInt16) : UInt16 := x <<< 8 ||| x >>> 8

/-- `ntohs`. -/
def ntohs (x : UInt16) : UInt16 := htons x

/-- `lacp_copy_info`. -/
def lacpCopyInfo (src : LacpPortInfo) : LacpPortInfo where
  portPriority := src.portPriority
  portNo := src.portNo
  systemPriority := src.systemPriority
  key := src.key
  state := src.state
  systemMac := src.systemMac

/-- `lacp_copy_info_from_net`. -/
def lacpCopyInfoFromNet (src : LacpPortInfo) : LacpPortInfo where
  portPriority := ntohs src.portPriority
  portNo := ntohs src.portNo
  systemPriority := ntohs src.systemPriority
  key := ntohs src.key
  state := src.state
  systemMac := src.systemMac

@[simp] theorem lacpCopyInfo_eq (src : LacpPortInfo) : lacpCopyInfo src = src := rfl

/-- Swapping the bytes twice gives the value back. -/
@[simp] theorem ntohs_htons (x : UInt16) : ntohs (htons x) = x := by
  apply UInt16.toBitVec_inj.mp
  apply BitVec.eq_of_getLsbD_eq
  intro i hi
  simp only [ntohs, htons, UInt16.toBitVec_or, UInt16.toBitVec_shiftLeft,
    UInt16.toBitVec_shiftRight, BitVec.getLsbD_or]
  by_cases h : i < 8
  · have hlow : 8 + i < 16 ∧ ¬ 8 + i < 8 := by omega
    have hhigh : x.toBitVec.getLsbD (8 + (8 + i)) = false := BitVec.getLsbD_of_ge _ _ (by omega)
    simp [h, hlow, hhigh, BitVec.getLsbD_eq_getElem hi]
  · have hlow : i - 8 < 8 ∧ ¬ 8 + i < 16 := by omega
    have hhigh : x.toBitVec.getLsbD (8 + (8 + i)) = false := BitVec.getLsbD_of_ge _ _ (by omega)
    have hback : 8 + (i - 8) = i := by omega
    simp [h, hi, hlow, hhigh, hback]

/-! ## Defaults -/

/-- `Default_system_priority`. -/
def defaultSystemPriority : UInt16 := 32768

/-- `Default_port_priority`. -/
def defaultPortPriority : UInt16 := 16384

/-- `lacp_port_get_actor_init` on a zeroed record. `sysMac` is what the uninitialised local of the
function held; `trunk_ssp_get_mac` leaves its last byte alone. -/
def lacpPortGetActorInit (pid : UInt32) (sysMac : LacpMac) (portIndex : ℕ) : LacpPortInfo where
  portNo := UInt16.ofNat (portIndex + 1)
  systemMac := trunkSspGetMac pid sysMac
  key := 0
  systemPriority := defaultSystemPriority
  portPriority := defaultPortPriority
  state :=
    { LacpState.zero with
      ACT := true, TMT := false, AGG := false, SYN := false, DEF := true, EXP := false }

/-- `lacp_port_get_partner_init`. -/
def lacpPortGetPartnerInit (portIndex : ℕ) : LacpPortInfo where
  portPriority := defaultPortPriority
  portNo := UInt16.ofNat (portIndex + 1)
  systemPriority := defaultSystemPriority
  systemMac := .zero
  key := UInt16.ofNat (portIndex + 1)
  state :=
    { ACT := false, TMT := false, AGG := false, SYN := true, COL := true, DIS := true, DEF := true,
      EXP := false }

/-! ## The port list -/

/-- `_lacp_port_find`. -/
def lacpPortFind (w : World) (portIndex : ℕ) : Option Addr :=
  w.sys.ports.find? fun port => portIndex == (w.port port).portIndex

/-- `lacp_port_init`. -/
def lacpPortInit (w : World) (port : Addr) : World :=
  let w := w.modify port fun p =>
    { p with
      actorAdmin :=
        { p.actorAdmin with
          systemPriority := w.sys.priority
          state := { p.actorAdmin.state with TMT := w.sys.lacpTimeout != 0 } } }
  w.modify port fun p => { p with currentWhile := 0, periodicTimer := 0, waitWhile := 0 }

/-- The record `lacp_port_create` fills in: zeroed by `calloc`, then its fields and the four
machines in `LACP_BEGIN`. -/
def lacpPortNew (w : World) (sysMac : LacpMac) (portIndex : ℕ) : LacpPort where
  portIndex := portIndex
  rx := ⟨false, .begin⟩
  sel := ⟨false, .begin⟩
  mux := ⟨false, .begin⟩
  tx := ⟨false, .begin⟩
  actor := .zero
  partner := .zero
  actorAdmin := lacpPortGetActorInit w.pid sysMac portIndex
  partnerAdmin := lacpPortGetPartnerInit portIndex
  msgActor := .zero
  msgPartner := .zero
  currentWhile := 0
  periodicTimer := 0
  waitWhile := 0
  -- `port->master_port = port`
  masterPort := w.brk
  portEnabled := false
  portMoved := false
  lacpEnabled := false
  selected := false
  standby := false
  speed := trunkSspGetPortOperSpeed w portIndex
  duplex := trunkSspGetPortOperDuplex w portIndex
  aggId := 0
  rcvdLacpdu := false
  ntt := false
  readyN := false
  holdCount := 0
  txLacpduCnt := 0
  rxLacpduCnt := 0

/-- `lacp_port_create`: refuses an index that is already in the list. -/
def lacpPortCreate (w : World) (sysMac : LacpMac) (portIndex : ℕ) : Option World :=
  if (w.sys.ports.any fun port => (w.port port).portIndex == portIndex) then none
  else
    let port := w.brk
    let w := { w with
      brk := w.brk + 1
      sys := { w.sys with ports := port :: w.sys.ports }
      port := fun a => if a = port then lacpPortNew w sysMac portIndex else w.port a }
    some (lacpPortInit w port)

/-- `lacp_port_delete`: unlinks the first node with the port's index. -/
def lacpPortDelete (w : World) (port : Addr) : World :=
  { w with sys := { w.sys with
      ports := w.sys.ports.eraseP fun tmp => (w.port tmp).portIndex == (w.port port).portIndex } }

/-- `lacp_port_set_reselect`: on `NULL` all ports, otherwise the members of the port's group. -/
def lacpPortSetReselect (w : World) (port : Option Addr) : World :=
  match port with
  | none => w.forPorts fun _ p => { p with selected := false }
  | some port =>
    if (w.port port).aggId ≠ 0 then
      w.forPorts fun _ p =>
        if p.aggId = (w.port port).aggId then { p with selected := false } else p
    else w

section Reselect

variable (w : World) (a b : Addr)

@[simp] theorem lacpPortSetReselect_sys : (lacpPortSetReselect w (some a)).sys = w.sys := by
  simp only [lacpPortSetReselect]
  split <;> rfl

@[simp] theorem lacpPortSetReselect_brk : (lacpPortSetReselect w (some a)).brk = w.brk := by
  simp only [lacpPortSetReselect]
  split <;> rfl

@[simp] theorem lacpPortSetReselect_gPortList :
    (lacpPortSetReselect w (some a)).gPortList = w.gPortList := by
  simp only [lacpPortSetReselect]
  split <;> rfl

@[simp] theorem lacpPortSetReselect_gLinkGroups :
    (lacpPortSetReselect w (some a)).gLinkGroups = w.gLinkGroups := by
  simp only [lacpPortSetReselect]
  split <;> rfl

@[simp] theorem lacpPortSetReselect_trace :
    (lacpPortSetReselect w (some a)).trace = w.trace := by
  simp only [lacpPortSetReselect]
  split <;> rfl

/-- Reselection clears `selected` on the listed members of the port's group, and nothing else. -/
theorem lacpPortSetReselect_port :
    (lacpPortSetReselect w (some a)).port b =
      if b ∈ w.sys.ports ∧ (w.port a).aggId ≠ 0 ∧ (w.port b).aggId = (w.port a).aggId then
        { w.port b with selected := false }
      else w.port b := by
  simp only [lacpPortSetReselect]
  by_cases hagg : (w.port a).aggId = 0
  · simp [hagg]
  · by_cases hmem : b ∈ w.sys.ports <;> simp [hagg, hmem]

end Reselect

end Lacp
