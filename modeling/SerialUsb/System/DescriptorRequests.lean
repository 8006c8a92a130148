import SerialUsb.System.DataStage
import SerialUsb.System.Requests

/-!
# The descriptors from the device to the target host

A GET_DESCRIPTOR request, from the call of `send_descriptors` on the PC to the packets that
the target host takes: the start, the requests before it, the choice of the handler, the table
of the descriptors and the data stage.
-/

namespace SerialUsb

open Framing Segmentation Transition

def UsbDescriptors.maxPacketSize0 (d : UsbDescriptors) : ℕ := (d.device.toList.getD 7 0).toNat

structure DataStage.Delivers (size : ℕ) (data : List UInt8) (wLength : UInt16) (t : DataStage) :
    Prop where
  received : t.received.flatten <+: data.take wLength.toNat
  packets : ∀ p ∈ t.received, p.length ≤ size
  ended : Ended size wLength.toNat t.received →
    t.received.flatten = data.take wLength.toNat
  completes : wLength ≠ 0 → t.Live → t.endpoint.outReceived = false →
    ∃ t', t.Reaches size wLength.toNat t' ∧ t'.call.next = .returned .noError ∧
      t'.received.flatten = data.take wLength.toNat

theorem DataStage.delivers_exec {size : ℕ} (hsize : 0 < size) {data : List UInt8}
    {wLength : UInt16} {state : DeviceState} {es : List DataStageEvent} {t : DataStage}
    (hrun : exec (DataStage.next size) (DataStage.start data wLength state) es = some t) :
    t.Delivers size data wLength := by
  have h := DataStage.splits_exec hsize hrun
  have hpre := h.received_isPrefix.trans (packetsFor_isPrefix size data wLength)
  have hlen : (data.take wLength.toNat).length ≤ wLength.toNat := List.length_take_le _ _
  constructor
  case received => exact flatten_isPrefix hsize hpre
  case packets => exact fun p hp => length_le_of_mem_segments hsize (hpre.subset hp)
  case ended => exact flatten_of_ended hsize hlen hpre
  case completes =>
    intro hasked hlive hout
    have hpackets : packetsFor size data wLength = segments size (data.take wLength.toNat) := by
      rw [packetsFor, if_neg fun hnone => hasked hnone.1]
    rw [hpackets] at h
    obtain ⟨t', ht', hreturned, hended⟩ :=
      h.completes hsize (ended_segments hsize wLength.toNat _) hlive hout
    exact ⟨t', ht', hreturned,
      flatten_of_ended hsize hlen (h.reaches hsize ht').received_isPrefix hended⟩

theorem HostRequest.sends_of_deviceToHost {q : HostRequest}
    (hdir : q.setup.deviceToHost = true)
    (hshort : q.setup.wLength.toNat ≤ maxControlTransferSize) :
    ∃ f : PacketFrame, q.sends = f.encode ∧ f.type = PacketType.eTypeControl.toByte ∧
      f.value = q.setup.bytes := by
  refine ⟨⟨PacketType.eTypeControl.toByte, q.setup.bytes, by simp⟩, ?_, rfl, rfl⟩
  rw [HostRequest.sends, if_neg (not_lt.2 hshort), if_pos hdir, sendControlHeader, hdir]
  rfl

/-- A GET_DESCRIPTOR request, in every state of every run of the device behind every run of the
start:

* a descriptor that is there and has a byte is sent by the firmware: whatever the order of what
  the firmware, the host and the interrupt do, the host has a beginning of the first `wLength`
  bytes, in packets of the size of the device descriptor if that is not 0; it has all of them
  when it has seen the end, and as long as the bus is up and the call has not returned it can get
  there, unless it has asked for no byte;
* for any other descriptor the firmware changes nothing, and asks the proxy if `wLength` is not
  above the 254 bytes of a reply. -/
theorem descriptor_requested {d : UsbDescriptors} (hd : d.Storable) {u : Upload}
    (hu : d.Uploads u) {cfgok : Controller → Bool} {es : List RequestEvent} {s : StandardDevice}
    (hrun : exec (StandardDevice.next cfgok) (StandardDevice.start cfgok u) es = some s)
    (hattached : s.setup.device.deviceState ≠ .unattached) {r : ControlRequest}
    (hget : StandardRequest.ofByte r.bRequest = some .reqGetDescriptor)
    (htype : r.bmRequestType = 0x80 ∨ r.bmRequestType = 0x81) :
    u.controlEndpointSize.toNat = d.maxPacketSize0 ∧
    (∀ a, firstDescriptor r.wValue r.wIndex d.added = some a → a.data ≠ [] →
      usbDeviceProcessControlRequest cfgok s r = some (s, some (.stream a.data)) ∧
      ∀ (state : DeviceState) (events : List DataStageEvent) (t : DataStage),
        0 < d.maxPacketSize0 →
        exec (DataStage.next d.maxPacketSize0) (DataStage.start a.data r.wLength state) events =
          some t → t.Delivers d.maxPacketSize0 a.data r.wLength) ∧
    ((∀ a, firstDescriptor r.wValue r.wIndex d.added = some a → a.data = []) →
      usbDeviceProcessControlRequest cfgok s r = some (s, none) ∧
      ∀ q : HostRequest, q.setup = r → r.wLength.toNat ≤ maxControlTransferSize →
        ∃ f : PacketFrame, q.sends = f.encode ∧ f.type = PacketType.eTypeControl.toByte ∧
          f.value = r.bytes) := by
  have hserves := hu.serves hd
  have hprocess : usbDeviceProcessControlRequest cfgok s r =
      some (s, usbDeviceGetDescriptor u r) := by
    have hupload := (StandardDevice.exec_shows hserves hrun).upload
    rw [usbDeviceProcessControlRequest, if_neg hattached, hget, ← hupload]
    exact if_pos htype
  refine ⟨congrArg UInt8.toNat hserves.controlEndpointSize, fun a ha hne => ⟨?_, ?_⟩,
    fun hnone => ⟨?_, ?_⟩⟩
  · rw [hprocess, (usbDeviceGetDescriptor_eq_some_iff hserves r _).2 ⟨a, ha, hne, rfl⟩]
  · exact fun state events t hsize hstage => DataStage.delivers_exec hsize hstage
  · rw [hprocess]
    cases hanswer : usbDeviceGetDescriptor u r with
    | none => rfl
    | some answer =>
        obtain ⟨a, ha, hne, _⟩ := (usbDeviceGetDescriptor_eq_some_iff hserves r answer).1 hanswer
        exact absurd (hnone a ha) hne
  · rintro q rfl hshort
    refine HostRequest.sends_of_deviceToHost ?_ hshort
    rcases htype with htype | htype
    all_goals
      rw [ControlRequest.deviceToHost, htype]
      rfl

/-- The device descriptor of a device that has one configuration, in packets of eight bytes. -/
theorem descriptor_requested_oneConfiguration :
    ∃ (u : Upload) (s : StandardDevice),
      exec (StandardDevice.next fun _ => true) (.start (fun _ => true) u)
        [.device (.vbus true) []] = some s ∧
      usbDeviceProcessControlRequest (fun _ => true) s ⟨0x80, 6, 0x0100, 0, 18⟩ =
        some (s, some (.stream oneConfiguration.device.toList)) ∧
      (DataStage.start oneConfiguration.device.toList 18 .powered).Delivers 8
        oneConfiguration.device.toList 18 := by
  obtain ⟨hd, u, hu⟩ := exists_uploads_oneConfiguration
  have hrun : ∃ s, exec (StandardDevice.next fun _ => true) (.start (fun _ => true) u)
      [.device (.vbus true) []] = some s ∧ s.setup.device.deviceState ≠ .unattached :=
    ⟨_, rfl, show DeviceState.powered ≠ .unattached by decide⟩
  obtain ⟨s, hs, hattached⟩ := hrun
  obtain ⟨_, hthere, _⟩ := descriptor_requested hd hu hs hattached
    (r := ⟨0x80, 6, 0x0100, 0, 18⟩) rfl (Or.inl rfl)
  obtain ⟨hprocess, hstage⟩ := hthere ⟨0x0100, 0, 18, oneConfiguration.device.toList, by simp⟩ rfl
    (by decide +kernel)
  exact ⟨u, s, hs, hprocess, hstage .powered [] _ (by decide +kernel) rfl⟩

end SerialUsb
