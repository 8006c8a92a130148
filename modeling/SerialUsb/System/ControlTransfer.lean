import SerialUsb.Adapter.Delivered
import SerialUsb.Firmware.Control
import SerialUsb.Proxy.ControlPackets
import SerialUsb.Proxy.Descriptors

/-!
# From a control request to the transfer

The firmware limits `wLength`, the packet limits setup and data, and `gusb_write` copies
the length of the packet, with `wLength` added for a device-to-host request. The three
agree as long as setup and `wLength` bytes fit the value of a packet.
-/

namespace SerialUsb

open Framing Memory Transition

def HostRequest.outData (q : HostRequest) : List UInt8 :=
  if q.setup.deviceToHost then [] else q.data.getD []

/-- The buffer that `gusb_write` builds for a packet has room for setup and data, starts
with them, and is a copy of bytes of the value. -/
structure ConsistentTransfer (setup : ControlRequest) (data : List UInt8) (packet : SPacket) :
    Prop where
  copied : writeCount 0 packet.value packet.length.toNat ≤ maxPacketValueSize
  holds : 8 + setup.wLength.toNat ≤ (controlTransfer packet).buffer.length
  starts : setup.bytes ++ data <+: (controlTransfer packet).buffer

/-- A receiver at the start of a header that reads what the request puts on the line, in
whatever pieces, delivers a packet for which the proxy builds a consistent transfer, or
none because it is the request that it stalls. -/
def HostRequest.Transferred (q : HostRequest) : Prop :=
  ∀ (realloc : ℕ → Bool) (r : Receiver) (p : Proxy) (chunks : List (List UInt8))
    (t : Session Proxy), (∀ n, realloc n = true) → r.Waiting → r.bread = 0 →
    exec (Session.recv realloc processPacket) ⟨r, p, []⟩ chunks = some t →
    chunks.flatten = q.sends →
      ∃ packet, t.delivered.head? = some packet ∧
        (¬ isDeviceQualifier (translateIndex p packet) →
          ConsistentTransfer (q.setup.translate p.serialToUsb) q.outData (translateIndex p packet))

theorem HostRequest.Forwarded.message_eq {q : HostRequest} (h : q.Forwarded) :
    q.message = some (PacketType.eTypeControl.toByte, q.setup.bytes ++ q.outData) := by
  have hshort : ¬ maxControlTransferSize < q.setup.wLength.toNat := not_lt.2 h.1
  unfold HostRequest.message HostRequest.outData
  rw [if_neg hshort]
  by_cases hdir : q.setup.deviceToHost = true
  · rw [if_pos hdir, if_pos hdir, List.append_nil]
  · obtain ⟨d, hd⟩ := Option.ne_none_iff_exists'.1 (h.2.resolve_left hdir)
    rw [if_neg hdir, if_neg hdir, hd]
    rfl

theorem HostRequest.Forwarded.length_outData {q : HostRequest} (h : q.Forwarded) :
    q.outData.length = if q.setup.deviceToHost then 0 else q.setup.wLength.toNat := by
  unfold HostRequest.outData
  by_cases hdir : q.setup.deviceToHost = true
  · rw [if_pos hdir, if_pos hdir, List.length_nil]
  · obtain ⟨d, hd⟩ := Option.ne_none_iff_exists'.1 (h.2.resolve_left hdir)
    rw [if_neg hdir, if_neg hdir, hd]
    exact q.length_data d hd

theorem Session.run_follows {π : Type*} {realloc : ℕ → Bool} (halloc : ∀ n, realloc n = true)
    {cb : PacketCallback π} {r : Receiver} {u : π} (hwait : r.Waiting) (hbread : r.bread = 0)
    {chunks : List (List UInt8)} {t : Session π}
    (hrun : exec (Session.recv realloc cb) ⟨r, u, []⟩ chunks = some t) :
    t.receiver.Waiting ∧ t.Follows chunks.flatten ∧ t.Announced := by
  have hempty : r.stored = [] := by
    rw [Receiver.stored, hbread, List.take_zero]
  have hstart : Session.Follows ⟨r, u, []⟩ [] := ⟨[], rfl, Or.inl hempty.symm⟩
  obtain ⟨hwait', hfollows, _⟩ := Session.exec_recv halloc hwait hstart rfl hrun
  exact ⟨hwait', hfollows, Session.run_announced halloc hwait hrun⟩

/-- A request that fits is delivered as one packet, whose value starts with it. -/
theorem HostRequest.Forwarded.delivered {q : HostRequest} (h : q.Forwarded) (hfits : q.Fits)
    {realloc : ℕ → Bool} (halloc : ∀ n, realloc n = true) {π : Type*} {cb : PacketCallback π}
    {r : Receiver} {u : π} (hwait : r.Waiting) (hbread : r.bread = 0)
    {chunks : List (List UInt8)} {t : Session π}
    (hrun : exec (Session.recv realloc cb) ⟨r, u, []⟩ chunks = some t)
    (hstream : chunks.flatten = q.sends) :
    ∃ packet rest, t.delivered.head? = some packet ∧
      packet.value = q.setup.bytes ++ (q.outData ++ rest) ∧
      packet.length.toNat = 8 + q.outData.length := by
  obtain ⟨hwait', hfollows, hannounced⟩ := Session.run_follows halloc hwait hbread hrun
  have hframes := (hfollows.frames_eq hwait').1
  obtain ⟨f, hsends, hmessage⟩ := hfits.sends_eq.resolve_left fun hnone =>
    absurd (hnone.2.symm.trans h.message_eq) (by simp)
  have hvalue : f.value = q.setup.bytes ++ q.outData :=
    (Prod.mk.inj (Option.some.inj (hmessage.symm.trans h.message_eq))).2
  rw [hstream, hsends, ← List.append_nil f.encode, frames_encode_append maxPacketValueSize_lt,
    frames_of_takeFrame_none rfl] at hframes
  obtain ⟨packet, hdelivered, hpacket⟩ := List.map_eq_singleton_iff.1 hframes.symm
  have hlength := hannounced packet (hdelivered ▸ List.mem_singleton_self _)
  refine ⟨packet, packet.value.drop packet.length.toNat, by rw [hdelivered]; rfl, ?_, ?_⟩
  · rw [← List.append_assoc, ← hvalue, ← hpacket]
    exact (List.take_append_drop _ _).symm
  · rw [hlength, hpacket, hvalue, List.length_append, ControlRequest.length_bytes]

theorem consistentTransfer_of_value {packet : SPacket} {setup : ControlRequest}
    {data rest : List UInt8} (hvalue : packet.value = setup.bytes ++ (data ++ rest))
    (hlength : packet.length.toNat = 8 + data.length)
    (hdata : data.length = if setup.deviceToHost then 0 else setup.wLength.toNat)
    (hfits : 8 + setup.wLength.toNat ≤ maxPacketValueSize) :
    ConsistentTransfer setup data packet := by
  have hcount : writeCount 0 packet.value packet.length.toNat = 8 + setup.wLength.toNat := by
    rw [writeCount_zero hvalue, hlength, hdata]
    cases setup.deviceToHost with
    | false => rfl
    | true => rfl
  have hbuffer : (controlTransfer packet).buffer =
      packet.value.take (8 + setup.wLength.toNat) := by
    rw [← hcount]
    rfl
  have hdata_le : data.length ≤ setup.wLength.toNat := by
    rw [hdata]
    split
    · exact Nat.zero_le _
    · exact Nat.le_refl _
  refine ⟨hcount.symm ▸ hfits, ?_, ?_⟩
  · rw [hbuffer, List.length_take, packet.value_length]
    exact Nat.le_min.2 ⟨Nat.le_refl _, hfits⟩
  · rw [hbuffer, hvalue, ← List.append_assoc]
    refine List.prefix_take_iff.2 ⟨List.prefix_append _ _, ?_⟩
    rw [List.length_append, ControlRequest.length_bytes]
    exact Nat.add_le_add_left hdata_le 8

theorem ControlRequest.deviceToHost_translate (serialToUsb : EndpointTable) (r : ControlRequest) :
    (r.translate serialToUsb).deviceToHost = r.deviceToHost := by
  unfold deviceToHost
  rw [r.translate_bmRequestType serialToUsb]

theorem HostRequest.Forwarded.transferred {q : HostRequest} (h : q.Forwarded)
    (hfits : 8 + q.setup.wLength.toNat ≤ maxPacketValueSize ∨ q.setup.IsDeviceQualifier) :
    q.Transferred := by
  intro realloc r p chunks t halloc hwait hbread hrun hstream
  have hpacket : q.Fits := by
    rcases hfits with hfits | hqualifier
    · exact Or.inr (Or.inr (Or.inl hfits))
    · left
      unfold ControlRequest.deviceToHost
      rw [hqualifier.1]
      rfl
  obtain ⟨packet, rest, hhead, hvalue, hlength⟩ :=
    h.delivered hpacket halloc hwait hbread hrun hstream
  refine ⟨packet, hhead, fun hasked => ?_⟩
  have hvalue' := translateIndex_value p hvalue
  rw [isDeviceQualifier_iff hvalue', q.setup.isDeviceQualifier_translate p.serialToUsb] at hasked
  refine consistentTransfer_of_value hvalue' ?_ ?_ ?_
  · rw [translateIndex_length, hlength]
  · rw [h.length_outData, ControlRequest.deviceToHost_translate,
      ControlRequest.translate_wLength]
  · rw [ControlRequest.translate_wLength]
    exact hfits.resolve_right hasked

/-- A packet with less than a setup, from the host, makes a transfer that is too short. -/
theorem SPacket.not_consistentTransfer {packet : SPacket} (hhost : packet.value.headD 0 &&& 0x80 = 0)
    (hlength : packet.length.toNat ≤ 6) (setup : ControlRequest) (data : List UInt8) (p : Proxy)
    (h : ¬ isDeviceQualifier (translateIndex p packet) →
      ConsistentTransfer (setup.translate p.serialToUsb) data (translateIndex p packet)) :
    False := by
  obtain ⟨r, rest, hvalue⟩ := packet.exists_request
  have hr : r.bmRequestType &&& 0x80 = 0 := by
    rw [hvalue] at hhost
    exact hhost
  have hvalue' := translateIndex_value p hvalue
  have hasked : ¬ isDeviceQualifier (translateIndex p packet) := by
    rw [isDeviceQualifier_iff hvalue', r.isDeviceQualifier_translate p.serialToUsb]
    rintro ⟨hrequest, _⟩
    rw [hrequest] at hr
    exact absurd hr (by decide)
  have hnot : r.deviceToHost = false := by
    simp [ControlRequest.deviceToHost, hr]
  have hcount : writeCount 0 (translateIndex p packet).value
      (translateIndex p packet).length.toNat = packet.length.toNat := by
    rw [writeCount_zero hvalue', ControlRequest.deviceToHost_translate, hnot,
      translateIndex_length]
    rfl
  have hholds := (h hasked).holds
  have hbuffer : (controlTransfer (translateIndex p packet)).buffer.length ≤ 6 := by
    refine (List.length_take_le _ _).trans ?_
    rw [hcount]
    exact hlength
  omega

theorem HostRequest.Forwarded.not_transferred_deviceToHost {q : HostRequest} (h : q.Forwarded)
    (hdir : q.setup.deviceToHost = true)
    (hlong : ¬ 8 + q.setup.wLength.toNat ≤ maxPacketValueSize)
    (hqualifier : ¬ q.setup.IsDeviceQualifier) (p : Proxy) : ¬ q.Transferred := by
  intro htransferred
  let realloc : ℕ → Bool := fun _ => true
  have halloc : ∀ n, realloc n = true := fun _ => rfl
  obtain ⟨chunks, t, hstream, hrun⟩ :=
    Session.exists_run_start halloc processPacket p q.sends
  obtain ⟨packet, hhead, hconsistent⟩ := htransferred _ _ p chunks t halloc
    Receiver.waiting_start rfl hrun hstream
  obtain ⟨packet', rest, hhead', hvalue, hlength⟩ :=
    h.delivered (Or.inl hdir) halloc Receiver.waiting_start rfl hrun hstream
  obtain rfl : packet' = packet := Option.some.inj (hhead'.symm.trans hhead)
  have hvalue' := translateIndex_value p hvalue
  have hasked : ¬ isDeviceQualifier (translateIndex p packet') := by
    rwa [isDeviceQualifier_iff hvalue', q.setup.isDeviceQualifier_translate p.serialToUsb]
  have hcopied := (hconsistent hasked).copied
  rw [writeCount_zero hvalue', ControlRequest.deviceToHost_translate, if_pos hdir,
    ControlRequest.translate_wLength, translateIndex_length, hlength, h.length_outData,
    if_pos hdir] at hcopied
  exact hlong hcopied

theorem HostRequest.Forwarded.sends_hostToDevice {q : HostRequest} (h : q.Forwarded)
    (hdir : q.setup.deviceToHost = false) :
    ∃ d, q.sends = PacketType.eTypeControl.toByte :: (8 + q.setup.wLength.toUInt8) ::
      q.setup.bmRequestType :: d := by
  have hnot : ¬ maxControlTransferSize < q.setup.wLength.toNat := not_lt.2 h.1
  obtain ⟨d, hd⟩ := Option.ne_none_iff_exists'.1
    (h.2.resolve_left (by rw [hdir]; exact Bool.false_ne_true))
  unfold HostRequest.sends
  rw [if_neg hnot, hdir, hd]
  dsimp only
  rw [if_neg Bool.false_ne_true, sendControlHeader_append, hdir]
  exact ⟨_, rfl⟩

theorem SPacket.value_of_filled {packet : SPacket}
    (h : Filled packet.bytes packet.frame.encode) :
    packet.value =
      packet.frame.value ++ List.replicate (254 - packet.frame.value.length) 0 := by
  have hdrop := congrArg (List.drop 2) (show packet.bytes.toList = _ from h)
  rw [Frame.encode_length, Frame.encode, List.cons_append, List.cons_append] at hdrop
  refine hdrop.trans (congrArg (packet.frame.value ++ List.replicate · 0) ?_)
  rw [maxPacketSize_eq]
  omega

/-- The length byte of a long host-to-device request is 255 or at most 6: no packet is
delivered, or one with less than the setup. -/
theorem HostRequest.Forwarded.not_transferred_hostToDevice {q : HostRequest} (h : q.Forwarded)
    (hdir : q.setup.deviceToHost = false)
    (hlong : ¬ 8 + q.setup.wLength.toNat ≤ maxPacketValueSize) (p : Proxy) :
    ¬ q.Transferred := by
  intro htransferred
  have hshort : q.setup.wLength.toNat ≤ 254 := h.1
  let realloc : ℕ → Bool := fun _ => true
  have halloc : ∀ n, realloc n = true := fun _ => rfl
  obtain ⟨chunks, t, hstream, hrun⟩ :=
    Session.exists_run_start halloc processPacket p q.sends
  obtain ⟨packet, hhead, hconsistent⟩ := htransferred _ _ p chunks t halloc
    Receiver.waiting_start rfl hrun hstream
  obtain ⟨_, ⟨tail, hfollows, _⟩, hannounced⟩ :=
    Session.run_follows halloc Receiver.waiting_start rfl hrun
  have hfilled := (Session.run_fresh halloc hrun).first packet hhead
  obtain ⟨ps, hdelivered⟩ : ∃ ps, t.delivered = packet :: ps :=
    List.head?_eq_some_iff.1 hhead
  have hlength := hannounced packet (hdelivered ▸ List.mem_cons_self)
  -- the header of the packet is the header of the request
  obtain ⟨d, hsends⟩ := h.sends_hostToDevice hdir
  rw [hdelivered, List.map_cons, List.flatMap_cons, hstream, hsends, Frame.encode] at hfollows
  have hbyte := congrArg UInt8.toNat (List.cons.inj (List.cons.inj hfollows).2).1
  have hvalue := (List.cons.inj (List.cons.inj hfollows).2).2
  rw [packet.frame.toNat_length maxPacketValueSize_lt, UInt8.toNat_add, UInt16.toNat_toUInt8]
    at hbyte
  have hsmall : packet.frame.value.length ≤ 6 := by
    have hle : packet.frame.value.length ≤ 254 := packet.frame.value_le
    change (8 + q.setup.wLength.toNat % 256) % 256 = packet.frame.value.length at hbyte
    rw [maxPacketValueSize_eq] at hlong
    omega
  -- its first byte is that of the request, or a zero behind an empty value
  have hbytes := SPacket.value_of_filled hfilled
  have hhost : q.setup.bmRequestType &&& 0x80 = 0 := by
    simpa [ControlRequest.deviceToHost] using hdir
  have hrequest : packet.value.headD 0 &&& 0x80 = 0 := by
    rw [hbytes]
    cases hframe : packet.frame.value with
    | nil => rfl
    | cons b v =>
        rw [hframe] at hvalue
        have hfirst := (List.cons.inj (show _ :: d = b :: _ from hvalue)).1
        rw [List.cons_append, List.headD_cons, ← hfirst]
        exact hhost
  exact packet.not_consistentTransfer hrequest (hlength.trans_le hsmall) q.setup q.outData p
    hconsistent

theorem HostRequest.Forwarded.not_transferred {q : HostRequest} (h : q.Forwarded)
    (hlong : ¬ 8 + q.setup.wLength.toNat ≤ maxPacketValueSize)
    (hqualifier : ¬ q.setup.IsDeviceQualifier) : ¬ q.Transferred := by
  let usb : Usb := ⟨Vector.replicate _ ⟨0, 0⟩, Vector.replicate _ ⟨0, 0⟩, [], []⟩
  let table : EndpointTable := ⟨Vector.replicate _ 0, fun _ => 0⟩
  let p := Proxy.start [] table table usb
  cases hdir : q.setup.deviceToHost with
  | false => exact h.not_transferred_hostToDevice hdir hlong p
  | true => exact h.not_transferred_deviceToHost hdir hlong hqualifier p

/-- The transfers are consistent exactly for the requests that fit a packet with the room
for their reply, and for the one that is stalled. -/
theorem transferred_iff {q : HostRequest} (h : q.Forwarded) :
    q.Transferred ↔
      8 + q.setup.wLength.toNat ≤ maxPacketValueSize ∨ q.setup.IsDeviceQualifier := by
  refine ⟨fun htransferred => ?_, h.transferred⟩
  by_contra hnot
  exact h.not_transferred (not_or.1 hnot).1 (not_or.1 hnot).2 htransferred

def requestFor247 : HostRequest where
  setup := ⟨0xc0, 1, 0, 0, 247⟩
  data := none
  length_data := fun _ h => absurd h (by simp)

/-- A vendor request for 246 bytes is transferred. -/
theorem transferred_requestFor246 :
    HostRequest.Transferred ⟨⟨0xc0, 1, 0, 0, 246⟩, none, fun _ h => absurd h (by simp)⟩ :=
  (transferred_iff (by decide)).2 (by decide)

/-- The copy of `gusb_write` reads the byte behind the value. -/
theorem not_transferred_requestFor247 :
    requestFor247.Forwarded ∧ ¬ requestFor247.Transferred :=
  ⟨by decide, HostRequest.Forwarded.not_transferred (by decide) (by decide) (by decide)⟩

end SerialUsb
