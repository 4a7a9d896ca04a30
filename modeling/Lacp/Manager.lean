import Mathlib.Data.Int.Notation
import Mathlib.Data.Nat.Notation

/-!
# The manager of the simulated wire

Reference: `mngr.c`, `br_ipc.h`.

The manager is the process that connects bridges. It knows a bridge from its handshake on, keeps a table
of the bridge's ports, and records at both ends of a wire which port is at the other end. The functions
are written as the source has them, without what they print.

Bridges are records on a heap, and no address is handed out twice. A table is a total function of the
index: `calloc` clears `number_of_ports` entries, and what lies around them is whatever the memory holds.
The trace records every entry of a table that is read or written, and every control message to a bridge.
-/

namespace Lacp

/-- The address of a bridge record. -/
abbrev BridgeAddr := ℕ

/-- `PORT_T`. An `int` is a value, converted where the source converts. -/
structure PortT where
  bridgePartner : Option BridgeAddr
  portPartner : ℤ
deriving DecidableEq, Repr

/-- A `PORT_T` as `calloc` leaves it. -/
def PortT.zero : PortT := { bridgePartner := none, portPartner := 0 }

/-- `BRIDGE_T`. The address stands for the socket too. -/
structure BridgeT where
  pid : Int64
  numberOfPorts : ℤ
  ports : ℤ → PortT

/-- A `PORT_T *`: an entry of the table of a bridge. -/
abbrev PortPtr := BridgeAddr × ℤ

/-- `BR_IPC_CNTRL_CMD_T`. -/
inductive BrIpcCntrlCmd
  | portConnect
  | portDisconnect
  | bridgeShutdown
  | bridgeHandshake
deriving DecidableEq, Repr

/-- What the manager does. -/
inductive MngrEvent
  /-- An entry of the table of a bridge is read or written. -/
  | entry (port : PortPtr)
  /-- A control message is sent to a bridge. -/
  | send (bridge : BridgeAddr) (cmd : BrIpcCntrlCmd) (destinationPort : ℤ)
deriving DecidableEq, Repr

/-- The manager: `br_lst`, head first, the heap, and the events so far, the last one first. -/
structure Mngr where
  brLst : List BridgeAddr
  bridge : BridgeAddr → BridgeT
  brk : BridgeAddr
  trace : List MngrEvent

/-- The manager when it starts. -/
def initMngr : Mngr where
  brLst := []
  bridge := fun _ => { pid := 0, numberOfPorts := 0, ports := fun _ => .zero }
  brk := 0
  trace := []

namespace Mngr

/-! ## Entries -/

/-- The entry behind a pointer. -/
def entry (m : Mngr) (port : PortPtr) : PortT := (m.bridge port.1).ports port.2

def log (m : Mngr) (e : MngrEvent) : Mngr := { m with trace := e :: m.trace }

/-- The entry is read. -/
def touch (m : Mngr) (port : PortPtr) : Mngr := m.log (.entry port)

/-- The entry is written. -/
def setEntry (m : Mngr) (port : PortPtr) (e : PortT) : Mngr :=
  { m with
    bridge := fun b =>
      if b = port.1 then
        { m.bridge b with ports := fun i => if i = port.2 then e else (m.bridge b).ports i }
      else m.bridge b
    trace := .entry port :: m.trace }

/-! ## Wires -/

/-- `disconnect_port`. -/
def disconnectPort (m : Mngr) (port : PortPtr) (resetMyself : Bool) : Mngr :=
  let m := m.touch port
  match (m.entry port).bridgePartner with
  | none => m
  | some partner =>
    let m := m.log (.send partner .portDisconnect (m.entry port).portPartner)
    let port := if resetMyself then port else (partner, (m.entry port).portPartner)
    m.setEntry port { m.entry port with bridgePartner := none }

/-- `_link_two_ports`. -/
def linkTwoPorts (m : Mngr) (br1 : BridgeAddr) (port1 : PortPtr) (indx1 : ℤ) (br2 : BridgeAddr)
    (port2 : PortPtr) (indx2 : ℤ) : Mngr :=
  let m := m.setEntry port1 { bridgePartner := some br2, portPartner := indx2 }
  let m := m.setEntry port2 { bridgePartner := some br1, portPartner := indx1 }
  (m.log (.send br1 .portConnect indx1)).log (.send br2 .portConnect indx2)

/-! ## Registration -/

/-- `register_bridge`. A process that is registered already is registered once more. `memory` is none
where an allocation fails, and otherwise what lies around the new table. -/
def registerBridge (m : Mngr) (senderPid : Int64) (param1 : UInt64) (memory : Option (ℤ → PortT)) :
    Mngr :=
  match memory with
  | none => m
  | some around =>
    let newbr : BridgeT :=
      { pid := senderPid
        -- an `unsigned long` is stored in a `long`
        numberOfPorts := param1.toInt64.toInt
        ports := fun i => if 0 ≤ i ∧ i < param1.toNat then .zero else around i }
    { m with
      brLst := m.brk :: m.brLst
      bridge := fun b => if b = m.brk then newbr else m.bridge b
      brk := m.brk + 1 }

/-- The loop body of `unregister_bridge`. -/
def unregisterPort (oldbr : BridgeAddr) (m : Mngr) (indx : ℕ) : Mngr :=
  let port : PortPtr := (oldbr, indx)
  let m := m.touch port
  if (m.entry port).bridgePartner.isSome then m.disconnectPort port false else m

/-- `unregister_bridge`: the first bridge with the sender's process id. It does not return where the
table has more entries than an `int` can count. -/
def unregisterBridge (m : Mngr) (senderPid : Int64) : Option Mngr :=
  match m.brLst.find? fun br => (m.bridge br).pid == senderPid with
  | none => some m
  | some oldbr =>
    if 0x7fffffff < (m.bridge oldbr).numberOfPorts then none
    else
      let m := (List.range (m.bridge oldbr).numberOfPorts.toNat).foldl (unregisterPort oldbr) m
      some { m with brLst := m.brLst.erase oldbr }

/-! ## Commands -/

/-- The loop of `link_bridges` and `unlink_port` over `br_lst`: the last bridge with the process id, or
what the variable held before. -/
def lastBridge (m : Mngr) (br : Option BridgeAddr) (pid : Int64) : Option BridgeAddr :=
  m.brLst.foldl (fun found br => if (m.bridge br).pid == pid then some br else found) br

end Mngr

/-- A C string. -/
abbrev CString := List Char

/-- `strtoul` with base 10: white space, a sign, digits. A value that does not fit is `ULONG_MAX`. -/
def strtoul (s : CString) : UInt64 :=
  let s := s.dropWhile fun c => c.toNat == 32 || (9 ≤ c.toNat && c.toNat ≤ 13)
  let (negative, s) := match s with
    | '-' :: rest => (true, rest)
    | '+' :: rest => (false, rest)
    | s => (false, s)
  let n := (s.takeWhile Char.isDigit).foldl (fun n c => n * 10 + (c.toNat - 48)) 0
  if 0xffffffffffffffff < n then 0xffffffffffffffff
  else if negative then 0 - UInt64.ofNat n else UInt64.ofNat n

/-- `scan_br_name`. -/
def scanBrName (param : CString) : Int64 :=
  match param with
  | 'B' :: rest => (strtoul rest).toInt64
  | param => (strtoul param).toInt64

/-- A port number of a command: an `unsigned long` is stored in an `int`. -/
def scanPort (param : CString) : ℤ := (strtoul param).toUInt32.toInt32.toInt

namespace Mngr

/-- `link_bridges`, once its arguments are read. -/
def linkPorts (m : Mngr) (pid1 : Int64) (indx1 : ℤ) (pid2 : Int64) (indx2 : ℤ) : Mngr :=
  match m.lastBridge none pid1, m.lastBridge none pid2 with
  | some br1, some br2 =>
    if indx1 > (m.bridge br1).numberOfPorts || indx1 < 0 then m
    else if indx2 > (m.bridge br2).numberOfPorts || indx2 < 0 then m
    else
      let port1 : PortPtr := (br1, indx1)
      let port2 : PortPtr := (br2, indx2)
      let m := (m.touch port1).touch port2
      if (m.entry port1).bridgePartner.isSome || (m.entry port2).bridgePartner.isSome then m
      else m.linkTwoPorts br1 port1 indx1 br2 port2 indx2
  | _, _ => m

/-- `link_bridges`. -/
def linkBridges (m : Mngr) (argv : List CString) : Mngr :=
  match argv with
  | _ :: name1 :: port1 :: name2 :: port2 :: _ =>
    m.linkPorts (scanBrName name1) (scanPort port1) (scanBrName name2) (scanPort port2)
  | _ => m

/-- `unlink_port`, once its arguments are read. `br1` is what the uninitialised variable holds. -/
def unlinkIndex (m : Mngr) (br1 : Option BridgeAddr) (pid1 : Int64) (indx1 : ℤ) : Mngr :=
  match m.lastBridge br1 pid1 with
  | none => m
  | some br1 =>
    if indx1 > (m.bridge br1).numberOfPorts || indx1 < 0 then m
    else
      let port1 : PortPtr := (br1, indx1)
      let m := m.touch port1
      match (m.entry port1).bridgePartner with
      | none => m
      | some br2 =>
        let port2 : PortPtr := (br2, (m.entry port1).portPartner)
        (m.disconnectPort port1 true).disconnectPort port2 true

/-- `unlink_port`. -/
def unlinkPort (m : Mngr) (br1 : Option BridgeAddr) (argv : List CString) : Mngr :=
  match argv with
  | _ :: name :: port :: _ => m.unlinkIndex br1 (scanBrName name) (scanPort port)
  | _ => m

end Mngr

/-! ## The ring command -/

namespace Mngr

/-- The loop body of `link_ring` that takes a wire away. -/
def unlinkRingPort (br1 : BridgeAddr) (m : Mngr) (indx : ℕ) : Mngr :=
  let port1 : PortPtr := (br1, indx)
  let m := m.touch port1
  match (m.entry port1).bridgePartner with
  | none => m
  | some br2 =>
    let port2 : PortPtr := (br2, (m.entry port1).portPartner)
    (m.disconnectPort port1 true).disconnectPort port2 true

/-- The loop of `link_ring` over the ports of a bridge. It does not return where the table has more
entries than an `int` can count. -/
def unlinkRingBridge (m : Mngr) (br1 : BridgeAddr) : Option Mngr :=
  if 0x7fffffff < (m.bridge br1).numberOfPorts then none
  else some ((List.range (m.bridge br1).numberOfPorts.toNat).foldl (unlinkRingPort br1) m)

/-- The loop of `link_ring` that builds the ring, from a bridge on the list on. -/
def buildRing (m : Mngr) : List BridgeAddr → Mngr
  | [] => m
  | br1 :: next =>
    -- the last bridge is linked to the head of `br_lst`
    let br2 := next.headD (m.brLst.headD br1)
    (m.linkTwoPorts br1 (br1, 1) 2 br2 (br2, 0) 1).buildRing next

/-- `link_ring`. -/
def linkRing (m : Mngr) : Option Mngr :=
  (m.brLst.foldlM unlinkRingBridge m).map fun m => m.buildRing m.brLst

end Mngr

/-! ## Frames -/

/-- `BR_IPC_CMD_TYPE_T`. -/
inductive BrIpcCmdType
  | cntrl
  | bpdu
deriving DecidableEq, Repr

/-- `BR_IPC_MSG_HEADER_T`. -/
structure BrIpcMsgHeader where
  cmdType : BrIpcCmdType
  senderPid : Int64
  destinationPort : ℤ
  sourcePort : ℤ
  bodyLen : UInt64
deriving DecidableEq, Repr

/-- `BR_IPC_MSG_T`, whose body is a BPDU. -/
structure BrIpcMsg where
  header : BrIpcMsgHeader
  bpdu : List UInt8
deriving DecidableEq, Repr

/-- The message with `destination_port` set. -/
def BrIpcMsg.withDestination (msg : BrIpcMsg) (port : ℤ) : BrIpcMsg :=
  { msg with header := { msg.header with destinationPort := port } }

/-- `mngr_rx_bpdu`, with the message that is sent and the bridge it is sent to. The source port is not
checked. -/
def Mngr.mngrRxBpdu (m : Mngr) (msg : BrIpcMsg) : Mngr × Option (BridgeAddr × BrIpcMsg) :=
  match m.brLst.find? fun br => (m.bridge br).pid == msg.header.senderPid with
  | none => (m, none)
  | some br =>
    let port : PortPtr := (br, msg.header.sourcePort)
    let m := m.touch port
    match (m.entry port).bridgePartner with
    | none => (m, none)
    | some br => (m, some (br, msg.withDestination (m.entry port).portPartner))

/-! ## Runs -/

/-- A message of a bridge or a command of the user. `br1` is the uninitialised variable of
`unlink_port`. -/
inductive MngrCall
  | handshake (senderPid : Int64) (param1 : UInt64) (memory : Option (ℤ → PortT))
  | shutdown (senderPid : Int64)
  | link (argv : List CString)
  | unlink (argv : List CString) (br1 : Option BridgeAddr)

/-- The code a call runs: `mngr_control` or the callback of the command. -/
def runMngrCall (m : Mngr) : MngrCall → Option Mngr
  | .handshake senderPid param1 memory => some (m.registerBridge senderPid param1 memory)
  | .shutdown senderPid => m.unregisterBridge senderPid
  | .link argv => some (m.linkBridges argv)
  | .unlink argv br1 => some (m.unlinkPort br1 argv)

/-- The states between two calls of a run in which every call meets the condition `R`. -/
inductive MngrRun (R : Mngr → MngrCall → Prop) : Mngr → Prop
  | init : MngrRun R initMngr
  | step {m m' : Mngr} {c : MngrCall} (h : MngrRun R m) (hok : R m c)
      (hrun : runMngrCall m c = some m') : MngrRun R m'

end Lacp
