import SerialUsb.Firmware.ControlRequest
import SerialUsb.Proxy.Process

/-!
# Control packets in the proxy

`send_control_packet` takes the value of the packet for a `struct usb_ctrlrequest`. What it
does is stated here for that request: the endpoint in `wIndex` is translated, the device
qualifier is not asked for, and anything else becomes a transfer on endpoint 0.
-/

namespace SerialUsb

open Memory

/-- The request with the endpoint of the device in `wIndex`, if it is made to an
endpoint. -/
def ControlRequest.translate (serialToUsb : EndpointTable) (r : ControlRequest) :
    ControlRequest :=
  if r.bmRequestType &&& 0x1f = 0x02 ∧ r.wIndex ≠ 0 then
    { r with wIndex := (serialToUsb.get r.wIndex.toNat).toUInt16 }
  else r

def ControlRequest.IsDeviceQualifier (r : ControlRequest) : Prop :=
  r.bmRequestType = 0x80 ∧ r.bRequest = 6 ∧ (r.wValue >>> 8).toUInt8 = 6

instance (r : ControlRequest) : Decidable r.IsDeviceQualifier :=
  inferInstanceAs (Decidable (_ ∧ _))

/-- The transfer that `gusb_write` builds on endpoint 0 for a packet. -/
def controlTransfer (packet : SPacket) : Transfer :=
  let count := writeCount 0 packet.value packet.length.toNat
  ⟨0, transferTypeControl, packet.value.take count, count⟩

section Fields

variable (serialToUsb : EndpointTable) (r : ControlRequest)

@[simp] theorem ControlRequest.translate_bmRequestType :
    (r.translate serialToUsb).bmRequestType = r.bmRequestType := by
  unfold translate
  split <;> rfl

@[simp] theorem ControlRequest.translate_bRequest :
    (r.translate serialToUsb).bRequest = r.bRequest := by
  unfold translate
  split <;> rfl

@[simp] theorem ControlRequest.translate_wValue :
    (r.translate serialToUsb).wValue = r.wValue := by
  unfold translate
  split <;> rfl

@[simp] theorem ControlRequest.translate_wLength :
    (r.translate serialToUsb).wLength = r.wLength := by
  unfold translate
  split <;> rfl

theorem ControlRequest.isDeviceQualifier_translate :
    (r.translate serialToUsb).IsDeviceQualifier ↔ r.IsDeviceQualifier := by
  unfold IsDeviceQualifier
  simp only [translate_bmRequestType, translate_bRequest, translate_wValue]

end Fields

section Packet

variable {packet : SPacket} {r : ControlRequest} {rest : List UInt8}

theorem isDeviceQualifier_iff (h : packet.value = r.bytes ++ rest) :
    isDeviceQualifier packet ↔ r.IsDeviceQualifier := by
  unfold isDeviceQualifier
  rw [h]
  rfl

theorem ofLe16_wIndex (h : packet.value = r.bytes ++ rest) :
    ofLe16 (packet.value.getD 4 0) (packet.value.getD 5 0) = r.wIndex := by
  rw [h]
  exact ofLe16_le16 r.wIndex

theorem ofLe16_wLength (h : packet.value = r.bytes ++ rest) :
    ofLe16 (packet.value.getD 6 0) (packet.value.getD 7 0) = r.wLength := by
  rw [h]
  exact ofLe16_le16 r.wLength

theorem le16_toUInt16 (b : UInt8) : le16 b.toUInt16 = [b, 0] := by
  obtain ⟨⟨b⟩⟩ := b
  revert b
  decide +kernel

theorem SPacket.value_copyAt_wIndex {s : List UInt8} {a b : UInt8} (hs : s.length = 4)
    (h : packet.value = s ++ a :: b :: rest) (a' b' : UInt8) :
    SPacket.value ⟨copyAt packet.bytes 6 [a', b']⟩ = s ++ a' :: b' :: rest := by
  have htake : (copyAt packet.bytes 6 [a', b']).toList.take 8 =
      packet.bytes.toList.take 6 ++ [a', b'] := by
    have hfit : 6 + [a', b'].length ≤ maxPacketSize := Nat.le_of_ble_eq_true rfl
    exact toList_take_copyAt packet.bytes hfit
  have hdrop : (copyAt packet.bytes 6 [a', b']).toList.drop 8 = packet.bytes.toList.drop 8 :=
    toList_drop_copyAt packet.bytes 6 [a', b']
  have hbytes : packet.bytes.toList = packet.type :: packet.length :: (s ++ a :: b :: rest) := by
    rw [packet.toList_eq, h]
  obtain ⟨s0, s1, s2, s3, rfl⟩ : ∃ s0 s1 s2 s3, s = [s0, s1, s2, s3] :=
    List.length_eq_four.1 hs
  rw [hbytes] at htake hdrop
  unfold SPacket.value
  rw [← List.take_append_drop 8 (copyAt packet.bytes 6 [a', b']).toList, htake, hdrop]
  rfl

theorem translateIndex_value (p : Proxy) (h : packet.value = r.bytes ++ rest) :
    (translateIndex p packet).value = (r.translate p.serialToUsb).bytes ++ rest := by
  have hrequest : packet.value.headD 0 = r.bmRequestType := by
    rw [h]
    rfl
  unfold translateIndex ControlRequest.translate
  dsimp only
  rw [ofLe16_wIndex h, hrequest]
  split
  · rw [SPacket.value_copyAt_wIndex (s := [r.bmRequestType, r.bRequest] ++ le16 r.wValue) rfl h]
    simp only [ControlRequest.bytes, le16_toUInt16, List.append_assoc]
    rfl
  · exact h

theorem translateIndex_length (p : Proxy) (packet : SPacket) :
    (translateIndex p packet).length = packet.length := by
  unfold translateIndex
  dsimp only
  split
  · exact getElem_copyAt_of_lt packet.bytes _ _ (by decide)
  · rfl

/-- What `send_control_packet` does: it stalls, or it submits the transfer. -/
theorem sendControlPacket_of_not_isDeviceQualifier {p : Proxy}
    (h : ¬ isDeviceQualifier (translateIndex p packet)) :
    sendControlPacket p packet =
      ({ p with usb := (submitTransfer p.usb (controlTransfer (translateIndex p packet))).1 },
        translateIndex p packet,
        (submitTransfer p.usb (controlTransfer (translateIndex p packet))).2) := by
  unfold sendControlPacket
  dsimp only
  rw [if_neg h]
  rfl

theorem writeCount_zero (h : packet.value = r.bytes ++ rest) :
    writeCount 0 packet.value packet.length.toNat =
      packet.length.toNat + if r.deviceToHost then r.wLength.toNat else 0 := by
  have hrequest : packet.value.headD 0 = r.bmRequestType := by
    rw [h]
    rfl
  have hlength := packet.length.toNat_lt
  have hwLength := r.wLength.toNat_lt
  unfold writeCount ControlRequest.deviceToHost
  rw [ofLe16_wLength h, hrequest]
  by_cases hin : r.bmRequestType &&& 0x80 = 0
  · simp [hin]
  · simp only [hin, ne_eq, not_false_eq_true, and_self, if_true, bne_iff_ne]
    omega

end Packet

theorem SPacket.exists_request (packet : SPacket) :
    ∃ (r : ControlRequest) (rest : List UInt8), packet.value = r.bytes ++ rest := by
  have hlength := packet.value_length
  match hvalue : packet.value with
  | b0 :: b1 :: b2 :: b3 :: b4 :: b5 :: b6 :: b7 :: rest =>
      refine ⟨⟨b0, b1, ofLe16 b2 b3, ofLe16 b4 b5, ofLe16 b6 b7⟩, rest, ?_⟩
      unfold ControlRequest.bytes
      rw [le16_ofLe16, le16_ofLe16, le16_ofLe16]
      rfl
  | [] | [_] | [_, _] | [_, _, _] | [_, _, _, _] | [_, _, _, _, _] | [_, _, _, _, _, _]
  | [_, _, _, _, _, _, _] =>
      rw [hvalue] at hlength
      simp at hlength

end SerialUsb
