import Mathlib.Data.Int.Notation
import Mathlib.Data.Nat.Notation

/-!
# The data model

Reference: `LACP/lacp_type.h`, `LACP/lacp_statmch.h`, `LACP/lacp_api.h`, `lacp_stub.h`.

Ports are records on a heap: a pointer to a port is an address, and the linked list `sys->ports` is
the list of the addresses of its nodes, head first. Allocation never hands out an address twice, so
a pointer to a freed port stays distinguishable from a pointer to a new one.

Fixed-size tables (`g_port_list`, the link-group table, the byte arrays of the bitmaps) are total
functions of the index; which indices the program may use is said where it uses them.
-/

namespace Lacp

/-- The address of a port record. -/
abbrev Addr := ℕ

/-- `lacp_mac_t`. -/
structure LacpMac where
  b0 : UInt8
  b1 : UInt8
  b2 : UInt8
  b3 : UInt8
  b4 : UInt8
  b5 : UInt8
deriving DecidableEq, Repr

/-- `lacp_state_t`, one field for each mask `LACP_STATE_ACT` (bit 0) to `LACP_STATE_EXP` (bit 7). -/
structure LacpState where
  ACT : Bool
  TMT : Bool
  AGG : Bool
  SYN : Bool
  COL : Bool
  DIS : Bool
  DEF : Bool
  EXP : Bool
deriving DecidableEq, Repr

/-- `lacp_port_info_t`. -/
structure LacpPortInfo where
  systemPriority : UInt16
  systemMac : LacpMac
  key : UInt16
  portPriority : UInt16
  portNo : UInt16
  state : LacpState
deriving DecidableEq, Repr

/-! ## State machines -/

/-- The states of the receive machine (`lacp_rx.c`), with `LACP_BEGIN`. `init` is
`RXM_INITIALIZE`. -/
inductive RxState
  | begin
  | init
  | portDisabled
  | expired
  | current
  | lacpDisabled
  | defaulted
deriving DecidableEq, Repr

/-- The states of the selection machine (`lacp_sel.c`), with `LACP_BEGIN`. -/
inductive SelState
  | begin
  | init
  | selection
deriving DecidableEq, Repr

/-- The states of the mux machine (`lacp_mux.c`), with `LACP_BEGIN`. -/
inductive MuxState
  | begin
  | detached
  | disable
  | waiting
  | readyN
  | attached
  | rxTx
deriving DecidableEq, Repr

/-- The states of the transmit machine (`lacp_tx.c`), with `LACP_BEGIN`. -/
inductive TxState
  | begin
  | noPeriodic
  | periodicTx
  | idle
  | tx
deriving DecidableEq, Repr

/-- `lacp_state_mach_t`: the two fields the engine works with. -/
structure LacpStateMach (σ : Type) where
  changeState : Bool
  state : σ
deriving DecidableEq, Repr

/-- The four machines of a port, in the order of its `machines` list. -/
inductive Machine
  | rx
  | sel
  | mux
  | tx
deriving DecidableEq, Repr

/-! ## Ports -/

/-- `lacp_port_t`. -/
structure LacpPort where
  portIndex : ℕ
  rx : LacpStateMach RxState
  sel : LacpStateMach SelState
  mux : LacpStateMach MuxState
  tx : LacpStateMach TxState
  actor : LacpPortInfo
  partner : LacpPortInfo
  actorAdmin : LacpPortInfo
  partnerAdmin : LacpPortInfo
  msgActor : LacpPortInfo
  msgPartner : LacpPortInfo
  currentWhile : UInt16
  periodicTimer : UInt16
  waitWhile : UInt16
  masterPort : Addr
  portEnabled : Bool
  portMoved : Bool
  lacpEnabled : Bool
  selected : Bool
  standby : Bool
  speed : UInt32
  duplex : UInt32
  aggId : ℕ
  rcvdLacpdu : Bool
  ntt : Bool
  readyN : Bool
  holdCount : UInt32
  txLacpduCnt : UInt32
  rxLacpduCnt : UInt32
deriving DecidableEq, Repr

/-- The `change_state` flag of one machine of a port. -/
def LacpPort.changeState (port : LacpPort) : Machine → Bool
  | .rx => port.rx.changeState
  | .sel => port.sel.changeState
  | .mux => port.mux.changeState
  | .tx => port.tx.changeState

/-- Clear the `change_state` flag of one machine of a port. -/
def LacpPort.clearChangeState (port : LacpPort) : Machine → LacpPort
  | .rx => { port with rx.changeState := false }
  | .sel => { port with sel.changeState := false }
  | .mux => { port with mux.changeState := false }
  | .tx => { port with tx.changeState := false }

/-- `lacp_pdu_t`. Multi-byte fields hold what is on the wire, in network byte order. -/
structure LacpPdu where
  slowProtocolsAddress : LacpMac
  srcAddress : LacpMac
  ethertype : UInt16
  protocolSubtype : UInt8
  protocolVersion : UInt8
  typeActor : UInt8
  lenActor : UInt8
  actor : LacpPortInfo
  reserved1 : Vector UInt8 3
  typePartner : UInt8
  lenPartner : UInt8
  partner : LacpPortInfo
  reserved2 : Vector UInt8 3
  typeCollector : UInt8
  lenCollector : UInt8
  collectorMaxDelay : UInt16
  reserved3 : Vector UInt8 12
  typeTerminator : UInt8
  lenTerminator : UInt8
  reserved4 : Vector UInt8 50

/-! ## The system, the hardware table and the link-group database -/

/-- `lacp_bitmap_t`: the bytes of `bmp_array`. -/
abbrev LacpBitmap := ℕ → BitVec 8

/-- `lacp_sys_t`. -/
structure LacpSys where
  ports : List Addr
  portmap : LacpBitmap
  numberOfPorts : UInt32
  adminState : Bool
  priority : UInt16
  fastPeriodicTime : UInt16
  slowPeriodicTime : UInt16
  shortTimeoutTime : UInt16
  longTimeoutTime : UInt16
  aggregateWaitTime : UInt16
  lacpTimeout : UInt32
  txHoldCount : UInt32

/-- `port_attr_t`, an entry of `g_port_list`. -/
structure PortAttr where
  slot : ℕ
  port : ℕ
  speed : UInt32
  duplex : UInt32
  cd : UInt32
  tid : ℕ
  linkStatus : UInt32
  prio : UInt32
deriving DecidableEq, Repr

/-- `LINK_GROUP_T`. -/
structure LinkGroup where
  cnt : UInt32
  ports : ℕ → BitVec 8

/-- What the engine does to its environment, and what it takes from it. -/
inductive Event
  /-- A state was entered; the record of the port is the one `concreteEnterState` started from. -/
  | enter (fsm : Machine) (port : LacpPort)
  /-- A frame was handed to `trunk_ssp_tx_pdu`, with the record of the port that sent it. -/
  | tx (port : LacpPort) (pdu : LacpPdu)
  /-- `trunk_ssp_attach_port` or `trunk_ssp_set_port_cd` left this entry in `g_port_list`. -/
  | hw (portIndex : ℕ) (attr : PortAttr)

/-- The whole state of one bridge process: the engine's heap and system record, the tables of
`lacp_stub.c`, the process id the MAC is made of, the depth of the critical section, and the history
of the engine's events, newest first. -/
@[ext]
structure World where
  sys : LacpSys
  port : Addr → LacpPort
  brk : Addr
  gPortList : ℕ → PortAttr
  gLinkGroups : ℕ → LinkGroup
  gSysPrio : UInt32
  pid : UInt32
  lockDepth : ℤ
  trace : List Event

/-- Assign fields of the record at `a`. -/
def World.modify (w : World) (a : Addr) (f : LacpPort → LacpPort) : World :=
  { w with port := fun b => if b = a then f (w.port a) else w.port b }

/-- Visit every port of the list in turn, as `for (p = sys->ports; p; p = p->next)` does, with a body
that reads and writes only the port it visits. -/
def World.forPorts (w : World) (f : Addr → LacpPort → LacpPort) : World :=
  { w with port := fun b => if b ∈ w.sys.ports then f b (w.port b) else w.port b }

/-- Record an event. -/
def World.log (w : World) (e : Event) : World := { w with trace := e :: w.trace }

section Projections

variable (w : World) (a b : Addr) (f : LacpPort → LacpPort) (g : Addr → LacpPort → LacpPort)
  (e : Event)

@[simp] theorem modify_port :
    (w.modify a f).port b = if b = a then f (w.port a) else w.port b := rfl

theorem modify_port_self : (w.modify a f).port a = f (w.port a) := by simp

@[simp] theorem modify_sys : (w.modify a f).sys = w.sys := rfl
@[simp] theorem modify_brk : (w.modify a f).brk = w.brk := rfl
@[simp] theorem modify_gPortList : (w.modify a f).gPortList = w.gPortList := rfl
@[simp] theorem modify_gLinkGroups : (w.modify a f).gLinkGroups = w.gLinkGroups := rfl
@[simp] theorem modify_trace : (w.modify a f).trace = w.trace := rfl

@[simp] theorem forPorts_port :
    (w.forPorts g).port b = if b ∈ w.sys.ports then g b (w.port b) else w.port b := rfl

@[simp] theorem forPorts_sys : (w.forPorts g).sys = w.sys := rfl
@[simp] theorem forPorts_brk : (w.forPorts g).brk = w.brk := rfl
@[simp] theorem forPorts_gPortList : (w.forPorts g).gPortList = w.gPortList := rfl
@[simp] theorem forPorts_gLinkGroups : (w.forPorts g).gLinkGroups = w.gLinkGroups := rfl
@[simp] theorem forPorts_trace : (w.forPorts g).trace = w.trace := rfl

theorem forPorts_congr {g' : Addr → LacpPort → LacpPort}
    (h : ∀ a ∈ w.sys.ports, g a (w.port a) = g' a (w.port a)) : w.forPorts g = w.forPorts g' := by
  have hport : ∀ b, (w.forPorts g).port b = (w.forPorts g').port b := by
    intro b
    by_cases hb : b ∈ w.sys.ports
    · simp [hb, h b hb]
    · simp [hb]
  simp only [World.forPorts, World.mk.injEq, true_and, and_true]
  exact funext hport

@[simp] theorem log_port : (w.log e).port = w.port := rfl
@[simp] theorem log_sys : (w.log e).sys = w.sys := rfl
@[simp] theorem log_brk : (w.log e).brk = w.brk := rfl
@[simp] theorem log_gPortList : (w.log e).gPortList = w.gPortList := rfl
@[simp] theorem log_gLinkGroups : (w.log e).gLinkGroups = w.gLinkGroups := rfl
@[simp] theorem log_trace : (w.log e).trace = e :: w.trace := rfl

end Projections

end Lacp
