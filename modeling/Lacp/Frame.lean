import Lacp.Library.Layout
import Lacp.Sys

/-!
# The frame on the wire

Reference: `LACP/lacp_tx.c` (`tx_lacpdu`), `LACP/lacp_type.h` (`lacp_port_info_s`, `lacpdu_t`).

`tx_lacpdu` hands the memory of a `lacp_pdu_t` to `trunk_ssp_tx_pdu`, so the frame is the image of that
structure. Its information records are 16 bytes long and start on an even address: a tail byte follows
each record, and a gap comes before the partner's record and before the collector's delay. The length
bytes are those of the standard's packed layout, and a receiver that follows them never meets the
partner's item.
-/

namespace Lacp

open Layout

/-! ## The structures in memory -/

/-- The bytes of a `lacp_mac_t`. -/
def LacpMac.bytes (mac : LacpMac) : List UInt8 := [mac.b0, mac.b1, mac.b2, mac.b3, mac.b4, mac.b5]

/-- The byte of a `lacp_state_t`: `LACP_STATE_ACT` is 0x1, `LACP_STATE_EXP` is 0x80. -/
def LacpState.byte (state : LacpState) : UInt8 :=
  (if state.ACT then 0x1 else 0) ||| (if state.TMT then 0x2 else 0)
    ||| (if state.AGG then 0x4 else 0) ||| (if state.SYN then 0x8 else 0)
    ||| (if state.COL then 0x10 else 0) ||| (if state.DIS then 0x20 else 0)
    ||| (if state.DEF then 0x40 else 0) ||| (if state.EXP then 0x80 else 0)

/-- A `lacp_port_info_t` in memory. -/
def LacpPortInfo.image (info : LacpPortInfo) : Image :=
  .struct [.short info.systemPriority, .chars info.systemMac.bytes, .short info.key,
    .short info.portPriority, .short info.portNo, .char info.state.byte]

/-- A `lacp_pdu_t` in memory. -/
def LacpPdu.image (pdu : LacpPdu) : Image :=
  .struct [.chars pdu.slowProtocolsAddress.bytes, .chars pdu.srcAddress.bytes, .short pdu.ethertype,
    .char pdu.protocolSubtype, .char pdu.protocolVersion,
    .char pdu.typeActor, .char pdu.lenActor, pdu.actor.image, .chars pdu.reserved1.toList,
    .char pdu.typePartner, .char pdu.lenPartner, pdu.partner.image, .chars pdu.reserved2.toList,
    .char pdu.typeCollector, .char pdu.lenCollector, .short pdu.collectorMaxDelay,
    .chars pdu.reserved3.toList,
    .char pdu.typeTerminator, .char pdu.lenTerminator, .chars pdu.reserved4.toList]

/-! ## The standard's layout -/

/-- A 16-bit value in network byte order. -/
def networkBytes (x : UInt16) : List UInt8 := [(x >>> 8).toUInt8, x.toUInt8]

/-- An information record in network byte order, without gaps. -/
def LacpPortInfo.networkBytes (info : LacpPortInfo) : List UInt8 :=
  Lacp.networkBytes info.systemPriority ++ info.systemMac.bytes ++ Lacp.networkBytes info.key
    ++ Lacp.networkBytes info.portPriority ++ Lacp.networkBytes info.portNo ++ [info.state.byte]

/-- The values of `info` stand where an item at `off` implies them. -/
structure InfoAt (frame : List UInt8) (off : ℕ) (info : LacpPortInfo) : Prop where
  systemPriority : bytesAt frame (off + 2) 2 = networkBytes info.systemPriority
  systemMac : bytesAt frame (off + 4) 6 = info.systemMac.bytes
  key : bytesAt frame (off + 10) 2 = networkBytes info.key
  portPriority : bytesAt frame (off + 12) 2 = networkBytes info.portPriority
  portNo : bytesAt frame (off + 14) 2 = networkBytes info.portNo
  state : bytesAt frame (off + 16) 1 = [info.state.byte]

/-- A well-formed frame of `port`: the items that follow the protocol version are the actor's, the
partner's, the collector's and the terminator, and the first two carry the port's records. -/
structure WellFormedLacpdu (port : LacpPort) (frame : List UInt8) : Prop where
  items : ∃ length, Visits frame 16 [⟨16, 1, 20⟩, ⟨36, 2, 20⟩, ⟨56, 3, 16⟩, ⟨72, 0, length⟩]
  actor : InfoAt frame 16 port.actor
  partner : InfoAt frame 36 port.partner

/-! ## The bytes of a frame -/

section Bytes

variable (x : UInt16) (pid : UInt32) (port : LacpPort) (info : LacpPortInfo)

/-- `htons` puts the high byte first in memory. -/
theorem short_htons_bytes : (Image.short (htons x)).bytes = networkBytes x := by
  have hlow : (htons x).toUInt8 = (x >>> 8).toUInt8 := by
    apply UInt8.toBitVec_inj.mp
    apply BitVec.eq_of_getLsbD_eq
    intro i hi
    have hlt : i < 16 := by omega
    simp [htons, hi, hlt]
  have hhigh : (htons x >>> 8).toUInt8 = x.toUInt8 := by
    apply UInt8.toBitVec_inj.mp
    apply BitVec.eq_of_getLsbD_eq
    intro i hi
    have hlt : 8 + i < 16 ∧ ¬ 8 + i < 8 := by omega
    have hzero : x.toBitVec.getLsbD (8 + (8 + i)) = false := BitVec.getLsbD_of_ge _ _ (by omega)
    have hbit : x.toBitVec[i] = x.toBitVec.getLsbD i := rfl
    simp [htons, hi, hlt, hzero, hbit]
  simp only [Image.short, networkBytes, hlow, hhigh]

/-- A record in memory is the record on the wire with a tail byte. -/
theorem image_lacpInfoToNet_bytes :
    (lacpInfoToNet info).image.bytes = info.networkBytes ++ [0] := by
  simp [LacpPortInfo.image, lacpInfoToNet, LacpPortInfo.networkBytes, networkBytes, LacpMac.bytes,
    Image.struct, structAlign, place, padTo, padding, short_htons_bytes]

theorem image_align : info.image.align = 2 := rfl

theorem length_image_bytes : info.image.bytes.length = 16 := by
  simp [LacpPortInfo.image, LacpMac.bytes, Image.struct, structAlign, place, padTo, padding, Image.short]

/-- Every byte of the frame that `tx_lacpdu` hands over, gaps and tails on their own. -/
theorem image_lacpduPacket_bytes :
    (lacpduPacket pid port).image.bytes =
      slowProtocolsAddress.bytes ++ (trunkSspGetMac pid .zero).bytes ++ [0x88, 0x09, 1, 1]
        ++ [1, 20] ++ port.actor.networkBytes ++ [0] ++ [0, 0, 0]
        ++ [2, 20] ++ [0] ++ port.partner.networkBytes ++ [0] ++ [0, 0, 0]
        ++ [3, 16] ++ [0] ++ [0, 10] ++ List.replicate 12 0
        ++ [0, 0] ++ List.replicate 50 0 := by
  have htype : ((0x8809 : UInt16) >>> 8).toUInt8 = 0x88 := by decide
  have hdelay : ((10 : UInt16) >>> 8).toUInt8 = 0 := by decide
  simp [LacpPdu.image, lacpduPacket, LacpPortInfo.networkBytes, networkBytes, LacpMac.bytes,
    Image.struct, structAlign, place, padTo, padding, short_htons_bytes,
    image_lacpInfoToNet_bytes, image_align, htype, hdelay]

/-- The frame has the length of a `lacp_pdu_t`. -/
theorem length_image_lacpduPacket : (lacpduPacket pid port).image.bytes.length = 128 := by
  simp [image_lacpduPacket_bytes, LacpPortInfo.networkBytes, networkBytes, LacpMac.bytes]

/-! ## What a walk over the frame meets -/

/-- An item whose value is a record in memory carries the values of the record. -/
theorem infoAt_of_bytesAt {frame : List UInt8} {off : ℕ} {info : LacpPortInfo}
    (h : bytesAt frame (off + 2) 16 = (lacpInfoToNet info).image.bytes) : InfoAt frame off info := by
  have hfield : ∀ k n, k + n ≤ 16 →
      bytesAt frame (off + 2 + k) n = bytesAt (info.networkBytes ++ [0]) k n := fun k n hle => by
    rw [← image_lacpInfoToNet_bytes, ← h, bytesAt_bytesAt hle]
  constructor
  · exact hfield 0 2 (by decide)
  · exact hfield 2 6 (by decide)
  · exact hfield 8 2 (by decide)
  · exact hfield 10 2 (by decide)
  · exact hfield 12 2 (by decide)
  · exact hfield 14 1 (by decide)

/-- A record of a `lacp_pdu_t` in memory stands behind the members that come before it. -/
theorem infoAt_of_image {pdu : LacpPdu} {info : LacpPortInfo} {after : List Image} {off : ℕ}
    (before : List Image)
    (himage : pdu.image = .struct (before ++ (lacpInfoToNet info).image :: after))
    (hoff : offset before (lacpInfoToNet info).image = off + 2) : InfoAt pdu.image.bytes off info := by
  refine infoAt_of_bytesAt ?_
  have hbytes := bytesAt_struct before (lacpInfoToNet info).image after
  rwa [← himage, hoff, Image.size, length_image_bytes] at hbytes

/-- The actor's item is where it should be. -/
theorem infoAt_actor : InfoAt (lacpduPacket pid port).image.bytes 16 port.actor := by
  set pdu := lacpduPacket pid port
  refine infoAt_of_image [.chars pdu.slowProtocolsAddress.bytes, .chars pdu.srcAddress.bytes,
    .short pdu.ethertype, .char pdu.protocolSubtype, .char pdu.protocolVersion, .char pdu.typeActor,
    .char pdu.lenActor] rfl ?_
  simp [offset, place, padTo, padding, LacpMac.bytes, Image.short, image_align]

/-- The partner's values stand two bytes behind their place in the standard's layout: there is a tail byte
behind the actor's record and a gap before the partner's. -/
theorem infoAt_partner : InfoAt (lacpduPacket pid port).image.bytes 38 port.partner := by
  set pdu := lacpduPacket pid port
  refine infoAt_of_image [.chars pdu.slowProtocolsAddress.bytes, .chars pdu.srcAddress.bytes,
    .short pdu.ethertype, .char pdu.protocolSubtype, .char pdu.protocolVersion, .char pdu.typeActor,
    .char pdu.lenActor, pdu.actor.image, .chars pdu.reserved1.toList, .char pdu.typePartner,
    .char pdu.lenPartner] rfl ?_
  simp [offset, place, padTo, padding, LacpMac.bytes, Image.short, image_align, length_image_bytes]

/-- Twenty bytes from the actor's item the walk meets a reserved byte, which reads as the terminator;
the byte that follows is the type of the partner's item. -/
theorem visits_lacpduPacket :
    Visits (lacpduPacket pid port).image.bytes 16 [⟨16, 1, 20⟩, ⟨36, 0, 2⟩] := by
  rw [image_lacpduPacket_bytes]
  refine .item ?_ (by decide) ?_ (.terminator ?_ ?_) <;>
    simp [LacpPortInfo.networkBytes, networkBytes, LacpMac.bytes]

end Bytes

/-- No frame that `tx_lacpdu` hands over is a well-formed LACPDU, whatever the port's state. -/
theorem lacpduPacket_not_wellFormed (pid : UInt32) (port : LacpPort) :
    ¬ WellFormedLacpdu port (lacpduPacket pid port).image.bytes := by
  rintro ⟨⟨length, hitems⟩, -, -⟩
  have hwalk := (visits_lacpduPacket pid port).unique hitems
  simp at hwalk

/-- The first frame of a port that was just created and enabled, in a process with id 1. -/
theorem not_forall_wellFormed_lacpduPacket :
    ¬ ∀ (pid : UInt32) (port : LacpPort),
      WellFormedLacpdu port (lacpduPacket pid port).image.bytes := by
  set port : LacpPort :=
    { lacpPortNew (initWorld 1) .zero 0 with lacpEnabled := true, portEnabled := true }
  intro h
  obtain ⟨length, hitems⟩ := (h 1 port).items
  have hpartner : (lacpduPacket 1 port).image.bytes[36]? = some 0 := by decide +kernel
  cases hitems with
  | item _ _ _ hrest =>
    cases hrest with
    | item htype => exact absurd (hpartner.symm.trans htype) (by decide)

end Lacp
