import Lacp.Frame
import Lacp.Reachability

/-!
# Reading a frame back

Reference: `LACP/lacp_rx.c` (`lacp_rxm_rx_lacpdu`), `LACP/lacp_util.c` (`lacp_copy_info_from_net`).

The receiver overlays the bytes of a frame with a `lacp_pdu_t` and copies the two information records
field by field. `LacpPdu.ofBytes` is that overlay. It is a left inverse of the image in memory
(`LacpPdu.ofBytes_image`), and the copy undoes `htons`, so the receiver records what the sender has
recorded, and nothing but the 32 bytes of the two records matters.
-/

namespace Lacp

open Layout

/-! ## The overlay -/

/-- The `lacp_mac_t` at `off`. -/
def LacpMac.ofBytes (frame : List UInt8) (off : ℕ) : LacpMac where
  b0 := charAt frame off
  b1 := charAt frame (off + 1)
  b2 := charAt frame (off + 2)
  b3 := charAt frame (off + 3)
  b4 := charAt frame (off + 4)
  b5 := charAt frame (off + 5)

/-- The flags of a state byte. -/
def LacpState.ofByte (byte : UInt8) : LacpState where
  ACT := byte &&& 0x1 != 0
  TMT := byte &&& 0x2 != 0
  AGG := byte &&& 0x4 != 0
  SYN := byte &&& 0x8 != 0
  COL := byte &&& 0x10 != 0
  DIS := byte &&& 0x20 != 0
  DEF := byte &&& 0x40 != 0
  EXP := byte &&& 0x80 != 0

/-- The `lacp_port_info_t` at `off`. -/
def LacpPortInfo.ofBytes (frame : List UInt8) (off : ℕ) : LacpPortInfo where
  systemPriority := shortAt frame off
  systemMac := .ofBytes frame (off + 2)
  key := shortAt frame (off + 8)
  portPriority := shortAt frame (off + 10)
  portNo := shortAt frame (off + 12)
  state := .ofByte (charAt frame (off + 14))

/-- The `lacp_pdu_t` that overlays a frame. -/
def LacpPdu.ofBytes (frame : List UInt8) : LacpPdu where
  slowProtocolsAddress := .ofBytes frame 0
  srcAddress := .ofBytes frame 6
  ethertype := shortAt frame 12
  protocolSubtype := charAt frame 14
  protocolVersion := charAt frame 15
  typeActor := charAt frame 16
  lenActor := charAt frame 17
  actor := .ofBytes frame 18
  reserved1 := .ofFn fun i => charAt frame (34 + i)
  typePartner := charAt frame 37
  lenPartner := charAt frame 38
  partner := .ofBytes frame 40
  reserved2 := .ofFn fun i => charAt frame (56 + i)
  typeCollector := charAt frame 59
  lenCollector := charAt frame 60
  collectorMaxDelay := shortAt frame 62
  reserved3 := .ofFn fun i => charAt frame (64 + i)
  typeTerminator := charAt frame 76
  lenTerminator := charAt frame 77
  reserved4 := .ofFn fun i => charAt frame (78 + i)

/-! ## The overlay undoes the image -/

section Image

variable {frame frame' : List UInt8} {off : ℕ}

theorem LacpState.ofByte_byte (state : LacpState) : ofByte state.byte = state := by
  obtain ⟨ACT, TMT, AGG, SYN, COL, DIS, DEF, EXP⟩ := state
  revert ACT TMT AGG SYN COL DIS DEF EXP
  decide +kernel

/-- Every byte is the byte of a state. -/
theorem LacpState.byte_ofByte (byte : UInt8) : (ofByte byte).byte = byte := by
  obtain ⟨bits⟩ := byte
  revert bits
  decide +kernel

theorem LacpMac.ofBytes_eq {mac : LacpMac} (h : StandsAt frame off (.chars mac.bytes)) :
    ofBytes frame off = mac := by
  have hbyte : ∀ k, k < 6 → charAt frame (off + k) = mac.bytes.getD k 0 := fun k hk =>
    h.charAt (m := .chars mac.bytes) hk
  have h0 : charAt frame off = mac.b0 := hbyte 0 (by decide)
  have h1 : charAt frame (off + 1) = mac.b1 := hbyte 1 (by decide)
  have h2 : charAt frame (off + 2) = mac.b2 := hbyte 2 (by decide)
  have h3 : charAt frame (off + 3) = mac.b3 := hbyte 3 (by decide)
  have h4 : charAt frame (off + 4) = mac.b4 := hbyte 4 (by decide)
  have h5 : charAt frame (off + 5) = mac.b5 := hbyte 5 (by decide)
  simp only [ofBytes, h0, h1, h2, h3, h4, h5]

/-- The members of a `lacp_port_info_t` and their offsets. -/
theorem LacpPortInfo.layout_eq (info : LacpPortInfo) :
    layout 0 [.short info.systemPriority, .chars info.systemMac.bytes, .short info.key,
      .short info.portPriority, .short info.portNo, .char info.state.byte] =
    [(0, .short info.systemPriority), (2, .chars info.systemMac.bytes), (8, .short info.key),
      (10, .short info.portPriority), (12, .short info.portNo), (14, .char info.state.byte)] := by
  simp [layout, padding, Image.size, LacpMac.bytes, Image.short]

/-- A record stands where its image does. -/
theorem LacpPortInfo.ofBytes_eq {info : LacpPortInfo} (h : StandsAt frame off info.image) :
    ofBytes frame off = info := by
  have hmembers : ∀ x ∈ layout 0 _, StandsAt frame (off + x.1) x.2 := fun _ hx => h.member hx
  rw [layout_eq] at hmembers
  simp only [List.forall_mem_cons, Nat.add_zero] at hmembers
  obtain ⟨hpriority, hmac, hkey, hport, hno, hstate, -⟩ := hmembers
  simp only [ofBytes, hpriority.short, LacpMac.ofBytes_eq hmac, hkey.short, hport.short, hno.short,
    hstate.char, LacpState.ofByte_byte]

/-- A reserved array stands where its image does. -/
theorem ofFn_charAt_eq {n : ℕ} {xs : Vector UInt8 n} (h : StandsAt frame off (.chars xs.toList)) :
    (Vector.ofFn fun i : Fin n => charAt frame (off + i)) = xs := by
  ext i hi
  have hlt : i < (Image.chars xs.toList).size := by simpa [Image.size] using hi
  simp [h.charAt hlt, hi]

/-- The members of a `lacp_pdu_t` and their offsets. -/
theorem LacpPdu.layout_eq (pdu : LacpPdu) :
    layout 0 [.chars pdu.slowProtocolsAddress.bytes, .chars pdu.srcAddress.bytes,
      .short pdu.ethertype, .char pdu.protocolSubtype, .char pdu.protocolVersion,
      .char pdu.typeActor, .char pdu.lenActor, pdu.actor.image, .chars pdu.reserved1.toList,
      .char pdu.typePartner, .char pdu.lenPartner, pdu.partner.image, .chars pdu.reserved2.toList,
      .char pdu.typeCollector, .char pdu.lenCollector, .short pdu.collectorMaxDelay,
      .chars pdu.reserved3.toList,
      .char pdu.typeTerminator, .char pdu.lenTerminator, .chars pdu.reserved4.toList] =
    [(0, .chars pdu.slowProtocolsAddress.bytes), (6, .chars pdu.srcAddress.bytes),
      (12, .short pdu.ethertype), (14, .char pdu.protocolSubtype), (15, .char pdu.protocolVersion),
      (16, .char pdu.typeActor), (17, .char pdu.lenActor), (18, pdu.actor.image),
      (34, .chars pdu.reserved1.toList), (37, .char pdu.typePartner), (38, .char pdu.lenPartner),
      (40, pdu.partner.image), (56, .chars pdu.reserved2.toList), (59, .char pdu.typeCollector),
      (60, .char pdu.lenCollector), (62, .short pdu.collectorMaxDelay),
      (64, .chars pdu.reserved3.toList), (76, .char pdu.typeTerminator),
      (77, .char pdu.lenTerminator), (78, .chars pdu.reserved4.toList)] := by
  simp [layout, padding, Image.size, LacpMac.bytes, Image.short, image_align, length_image_bytes]

/-- The overlay of the image of a `lacp_pdu_t` is that `lacp_pdu_t`. -/
theorem LacpPdu.ofBytes_image (pdu : LacpPdu) : ofBytes pdu.image.bytes = pdu := by
  have hmembers : ∀ x ∈ layout 0 _, StandsAt pdu.image.bytes (0 + x.1) x.2 := fun _ hx =>
    (standsAt_self pdu.image).member hx
  rw [layout_eq] at hmembers
  simp only [List.forall_mem_cons, Nat.zero_add] at hmembers
  obtain ⟨hdst, hsrc, htype, hsub, hversion, hactor, hactorLen, hactorInfo, hreserved1, hpartner,
    hpartnerLen, hpartnerInfo, hreserved2, hcollector, hcollectorLen, hdelay, hreserved3, hterminator,
    hterminatorLen, hreserved4, -⟩ := hmembers
  simp only [ofBytes, LacpMac.ofBytes_eq hdst, LacpMac.ofBytes_eq hsrc, htype.short, hsub.char,
    hversion.char, hactor.char, hactorLen.char, LacpPortInfo.ofBytes_eq hactorInfo,
    ofFn_charAt_eq hreserved1, hpartner.char, hpartnerLen.char, LacpPortInfo.ofBytes_eq hpartnerInfo,
    ofFn_charAt_eq hreserved2, hcollector.char, hcollectorLen.char, hdelay.short,
    ofFn_charAt_eq hreserved3, hterminator.char, hterminatorLen.char, ofFn_charAt_eq hreserved4]

end Image

/-! ## The reception of a frame -/

/-- The bytes of the two information records of a frame. -/
def InfoByte (i : ℕ) : Prop := (18 ≤ i ∧ i < 34) ∨ (40 ≤ i ∧ i < 56)

section Reception

variable {frame frame' : List UInt8} {off : ℕ}

/-- A record depends on its own bytes only. -/
theorem LacpPortInfo.ofBytes_congr (h : ∀ i, off ≤ i → i < off + 16 → frame[i]? = frame'[i]?) :
    ofBytes frame off = ofBytes frame' off := by
  have hchar : ∀ k < 16, charAt frame (off + k) = charAt frame' (off + k) := fun k hk =>
    charAt_congr (h _ (Nat.le_add_right _ _) (by omega))
  have hbase := hchar 0 (by decide)
  rw [Nat.add_zero] at hbase
  simp only [ofBytes, shortAt, LacpMac.ofBytes, Nat.add_assoc, Nat.reduceAdd, hbase, hchar 1 (by decide),
    hchar 2 (by decide), hchar 3 (by decide), hchar 4 (by decide), hchar 5 (by decide),
    hchar 6 (by decide), hchar 7 (by decide), hchar 8 (by decide), hchar 9 (by decide),
    hchar 10 (by decide), hchar 11 (by decide), hchar 12 (by decide), hchar 13 (by decide),
    hchar 14 (by decide)]

/-- What the receiver writes down. -/
theorem lacpRxmRxLacpdu_port_self {w : World} {port : Addr} (hlac : (w.port port).lacpEnabled = true)
    (pdu : LacpPdu) : (lacpRxmRxLacpdu w port pdu).port port = receivePort pdu (w.port port) := by
  rw [lacpRxmRxLacpdu_eq hlac]
  cases hmoved : movedPort w port pdu with
  | none => exact modify_port_self w port _
  | some moved =>
    have hne := (of_movedPort_eq_some hmoved).2.1
    rw [Option.elim_some, modify_port, if_neg hne.symm]
    exact modify_port_self w port _

/-- The receiver of a frame has the sender's two records, whatever they are and whatever the receiver's
state is. Every sequence of bytes that agrees with the frame on the two records gives the same. -/
theorem lacpRxmRxLacpdu_image (pid : UInt32) (sender : LacpPort) (w : World) (port : Addr)
    (hlac : (w.port port).lacpEnabled = true) :
    let received := fun frame => (lacpRxmRxLacpdu w port (.ofBytes frame)).port port
    (received (lacpduPacket pid sender).image.bytes).msgActor = sender.actor ∧
      (received (lacpduPacket pid sender).image.bytes).msgPartner = sender.partner ∧
      ∀ frame frame' : List UInt8, (∀ i, InfoByte i → frame[i]? = frame'[i]?) →
        (received frame).msgActor = (received frame').msgActor ∧
          (received frame).msgPartner = (received frame').msgPartner := by
  intro received
  have hreceived : ∀ frame, received frame = receivePort (.ofBytes frame) (w.port port) := fun _ =>
    lacpRxmRxLacpdu_port_self hlac _
  simp only [hreceived, LacpPdu.ofBytes_image]
  refine ⟨lacpCopyInfoFromNet_lacpInfoToNet _, lacpCopyInfoFromNet_lacpInfoToNet _,
    fun frame frame' hagree => ⟨?_, ?_⟩⟩
  · exact congrArg lacpCopyInfoFromNet
      (LacpPortInfo.ofBytes_congr fun i hi hi' => hagree i (.inl ⟨hi, hi'⟩))
  · exact congrArg lacpCopyInfoFromNet
      (LacpPortInfo.ofBytes_congr fun i hi hi' => hagree i (.inr ⟨hi, hi'⟩))

/-- A port of the bridge with process id 77 sends, and a port that was just enabled receives. -/
theorem lacpRxmRxLacpdu_image_local :
    let sender : LacpPort :=
      { lacpPortNew (initWorld 77) .zero 1 with actor := localInfo 2, partner := peerInfo 4 }
    let w := (initWorld 1).modify 0 fun p => { p with lacpEnabled := true }
    let received := (lacpRxmRxLacpdu w 0 (.ofBytes (lacpduPacket 77 sender).image.bytes)).port 0
    received.msgActor = localInfo 2 ∧ received.msgPartner = peerInfo 4 := by
  intro sender w received
  obtain ⟨hactor, hpartner, -⟩ := lacpRxmRxLacpdu_image 77 sender w 0 rfl
  exact ⟨hactor, hpartner⟩

end Reception

end Lacp
