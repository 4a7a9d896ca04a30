import Lacp.Decoding
import Lacp.Manager

/-!
# The bridge process

Reference: `bridge.c`, `CLI/cli.c` (`read_cli`), the callbacks of `trunk_cli.c`.

A bridge runs the engine between a prompt and a socket. Its main loop waits for one of the two, or for a
second to pass. From the manager it reads control messages, which say that a port was connected or
disconnected, and BPDUs; what the engine sends goes to the manager. A command whose callback does not
return 0 ends the process, as `exit` does, and so does a shutdown message; a process that ends says
goodbye.

A message carries what its reader looks at. The BPDU of a message is the memory that was copied into its
body.
-/

namespace Lacp

/-- What a bridge reads from the manager. -/
inductive ToBridge
  | cntrl (cmd : BrIpcCntrlCmd) (destinationPort : ℤ)
  | bpdu (msg : BrIpcMsg)
deriving DecidableEq, Repr

/-- What the manager reads from a bridge. -/
inductive ToMngr
  | handshake (senderPid : Int64) (param1 : UInt64)
  | shutdown (senderPid : Int64)
  | bpdu (msg : BrIpcMsg)
deriving DecidableEq, Repr

/-- A bridge process. -/
structure Bridge where
  myPid : Int64
  world : World
  enabledPorts : LacpBitmap
  /-- The main loop has ended. -/
  shutdownFlag : Bool

/-- `bridge_start` and `lacp_cli_init`, in a process that reaches the manager. The MAC is made of the
first four bytes of the process id. -/
def bridgeStart (myPid : Int64) : Bridge where
  myPid := myPid
  world := initWorld myPid.toUInt64.toUInt32
  enabledPorts := lacpBitmapClear
  shutdownFlag := false

/-- `number_of_ports` of `bridge_start`. -/
def bridgeNumberOfPorts : UInt64 := 4

/-- The greeting of `bridge_start`. -/
def bridgeHandshake (myPid : Int64) : ToMngr := .handshake myPid bridgeNumberOfPorts

/-! ## Sending -/

/-- `bridge_tx_bpdu`. `destinationPort` is what the uninitialised field holds. -/
def bridgeTxBpdu (myPid : Int64) (destinationPort : ℤ) (portIndex : ℕ) (bpdu : List UInt8) : BrIpcMsg where
  header :=
    { cmdType := .bpdu
      senderPid := myPid
      destinationPort := destinationPort
      sourcePort := portIndex
      bodyLen := UInt64.ofNat bpdu.length }
  bpdu := bpdu

/-- A frame that was handed to `trunk_ssp_tx_pdu`: the port, and the memory of the `lacp_pdu_t`. -/
def Event.sentFrame : Event → Option (ℕ × List UInt8)
  | .tx port pdu => some (port.portIndex, pdu.image.bytes)
  | _ => none

/-- The frames that were sent since `w`, the first one first. -/
def World.framesSince (w w' : World) : List (ℕ × List UInt8) :=
  ((w'.trace.take (w'.trace.length - w.trace.length)).reverse).filterMap Event.sentFrame

/-! ## Receiving -/

/-- An `int` passed as a `uint32_t`. -/
def toUint32 (i : ℤ) : ℕ := (i % 0x100000000).toNat

/-- What `PORT_CONNECT` and `PORT_DISCONNECT` make of the engine and of `g_port_list`. The engine is told
first. -/
def bridgePortControl (fuel : ℕ) (w : World) (portIndex : ℤ) (linkStatus : UInt32) : Option World :=
  let (slot, port) := lacpSspChangeToSlotPort (toUint32 portIndex)
  (trunkPortLinkChange fuel w slot port linkStatus).map fun result =>
    trunkSspSetPortLinkStatus result.1 (toUint32 portIndex) linkStatus

/-- `bridge_control`. A negative index, which is outside of `enabled_ports`, is not sent. -/
def bridgeControl (fuel : ℕ) (b : Bridge) (portIndex : ℤ) : BrIpcCntrlCmd → Option Bridge
  | .portConnect => (bridgePortControl fuel b.world portIndex 1).map fun w =>
    { b with world := w, enabledPorts := lacpBitmapSetBit b.enabledPorts portIndex.toNat }
  | .portDisconnect => (bridgePortControl fuel b.world portIndex 0).map fun w =>
    { b with world := w, enabledPorts := lacpBitmapClearBit b.enabledPorts portIndex.toNat }
  | .bridgeShutdown => some { b with shutdownFlag := true }
  | .bridgeHandshake => some b

/-- `bridge_rx_bpdu`. -/
def bridgeRxBpdu (fuel : ℕ) (b : Bridge) (msg : BrIpcMsg) : Option Bridge :=
  let (slot, port) := lacpSspChangeToSlotPort (toUint32 msg.header.destinationPort)
  (trunkSspRxLacpdu fuel b.world slot port (.ofBytes msg.bpdu)).map fun result =>
    { b with world := result.1 }

/-- `read_ipc`, with what the main loop does with its result. -/
def Bridge.readIpc (fuel : ℕ) (b : Bridge) : ToBridge → Option Bridge
  | .cntrl cmd destinationPort => bridgeControl fuel b destinationPort cmd
  | .bpdu msg => bridgeRxBpdu fuel b msg

/-! ## The prompt -/

/-- The calls that the commands of `trunk_cli.c` make. -/
def Call.isCommand : Call → Bool
  | .setPortLinkStatus _ _ | .rxLacpdu _ _ _ | .oneSecond => false
  | .sysSetPrio _ | .sysSetLongPeriod _ | .sysSetShortPeriod _ | .sysSetPeriod _
  | .portLacpEnable _ _ _ _ | .portLacpDisable _ _ | .aggDelete _ | .portSetPrio _ _ _
  | .portSetSpeed _ _ _ | .portSetDuplex _ _ _ | .portLinkChange _ _ _ | .portClearStat _ _ => true

/-- The callbacks that return 0 whatever the API returned. -/
def Call.ignoresRet : Call → Bool
  | .aggDelete _ | .portSetSpeed _ _ _ | .portSetDuplex _ _ _ | .portLinkChange _ _ _ => true
  | _ => false

/-- A line at the prompt. What only prints is left out. -/
inductive PromptLine
  /-- `exit`, or a command whose callback fails before it calls the API. -/
  | exit
  | call (c : Call)

/-- `read_cli`: where the callback does not return 0, the loop ends. -/
def Bridge.readCli (fuel : ℕ) (b : Bridge) : PromptLine → Option Bridge
  | .exit => some { b with shutdownFlag := true }
  | .call c =>
    if c.isCommand then
      (runCall fuel b.world c).map fun result =>
        { b with world := result.1, shutdownFlag := b.shutdownFlag || !c.ignoresRet && result.2 != .ok }
    else none

/-! ## The main loop -/

/-- What `select` reports: that a second has passed, or what can be read. -/
inductive Ready
  | timeout
  | input (line : Option PromptLine) (message : Bool)

/-- A command names a slot, a port and a link group that exist. -/
def Ready.InRange : Ready → Prop
  | .input (some (.call c)) _ => c.InRange
  | _ => True

/-- One iteration of `main_loop`, with the queue of the socket. The prompt comes first, and both are read
before the flag is looked at. -/
def Bridge.mainLoop (fuel : ℕ) (b : Bridge) (queue : List ToBridge) :
    Ready → Option (Bridge × List ToBridge)
  | .timeout => (lacpOneSecond fuel b.world).map fun w => ({ b with world := w }, queue)
  | .input line message => do
    let b ← line.elim (some b) (b.readCli fuel)
    if message then
      let msg ← queue.head?
      let b ← b.readIpc fuel msg
      return (b, queue.tail)
    else return (b, queue)

/-- What an iteration sends. `memory` is what the uninitialised fields of the messages hold. -/
def Bridge.sends (b b' : Bridge) (memory : ℕ → ℤ) : List ToMngr :=
  ((b.world.framesSince b'.world).mapIdx fun k frame =>
    .bpdu (bridgeTxBpdu b.myPid (memory k) frame.1 frame.2)) ++
  -- `bridge_shutdown`
  if b'.shutdownFlag then [.shutdown b.myPid] else []

end Lacp
