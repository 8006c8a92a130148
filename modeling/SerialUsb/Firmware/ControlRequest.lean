import SerialUsb.Adapter.Receive

/-!
# Control requests on the serial line

What `EVENT_USB_Device_UnhandledControlRequest` puts on the line for a request
of the target host, and what the proxy makes of it. The size check looks at
`wLength` alone, while the packet of a host-to-device request carries the eight
setup bytes and the data: from 247 data bytes on the length byte is wrong.
-/

namespace SerialUsb

open Framing Memory Transition

structure ControlRequest where
  bmRequestType : UInt8
  bRequest : UInt8
  wValue : UInt16
  wIndex : UInt16
  wLength : UInt16
  deriving DecidableEq, Repr

def ControlRequest.bytes (r : ControlRequest) : List UInt8 :=
  [r.bmRequestType, r.bRequest] ++ le16 r.wValue ++ le16 r.wIndex ++ le16 r.wLength

@[simp] theorem ControlRequest.length_bytes (r : ControlRequest) :
    r.bytes.length = 8 := rfl

def ControlRequest.deviceToHost (r : ControlRequest) : Bool :=
  r.bmRequestType &&& 0x80 != 0

abbrev maxControlTransferSize : ℕ := maxPacketValueSize

@[simp] theorem maxControlTransferSize_eq : maxControlTransferSize = 254 := rfl

def sendControlHeader (r : ControlRequest) : List UInt8 :=
  let len : UInt8 := if r.deviceToHost then 8 else 8 + r.wLength.toUInt8
  [PacketType.eTypeControl.toByte, len] ++ r.bytes

/-- A request of the target host. `data` is what
`Endpoint_Read_Control_Stream_LE` reads in the data stage of a host-to-device
request: `wLength` bytes, or an error code. -/
structure HostRequest where
  setup : ControlRequest
  data : Option (List UInt8)
  length_data : ∀ d, data = some d → d.length = setup.wLength.toNat

/-- The bytes `EVENT_USB_Device_UnhandledControlRequest` puts on the line. -/
def HostRequest.sends (q : HostRequest) : List UInt8 :=
  if maxControlTransferSize < q.setup.wLength.toNat then
    [PacketType.eTypeDebug.toByte, 8] ++ q.setup.bytes
  else if q.setup.deviceToHost then sendControlHeader q.setup
  else
    match q.data with
    | none => []
    | some d => sendControlHeader q.setup ++ d

def HostRequest.message (q : HostRequest) : Option (UInt8 × List UInt8) :=
  if maxControlTransferSize < q.setup.wLength.toNat then
    some (PacketType.eTypeDebug.toByte, q.setup.bytes)
  else if q.setup.deviceToHost then
    some (PacketType.eTypeControl.toByte, q.setup.bytes)
  else
    q.data.map fun d => (PacketType.eTypeControl.toByte, q.setup.bytes ++ d)

def OneFrame (bytes : List UInt8) : Prop :=
  ∃ t l v, bytes = t :: l :: v ∧ l.toNat = v.length ∧ l.toNat ≤ maxPacketValueSize

/-- Setup and data fit a packet, unless no data is put on the line. -/
def HostRequest.Fits (q : HostRequest) : Prop :=
  q.setup.deviceToHost = true ∨ q.data = none ∨
    8 + q.setup.wLength.toNat ≤ maxPacketValueSize ∨
    maxControlTransferSize < q.setup.wLength.toNat

instance (q : HostRequest) : Decidable q.Fits :=
  inferInstanceAs (Decidable (_ ∨ _ ∨ _ ∨ _))

theorem sendControlHeader_append (r : ControlRequest) (d : List UInt8) :
    sendControlHeader r ++ d =
      PacketType.eTypeControl.toByte ::
        (if r.deviceToHost then 8 else 8 + r.wLength.toUInt8) :: (r.bytes ++ d) := rfl

/-- A request that fits is sent as one packet with its message, or not at all. -/
theorem HostRequest.Fits.sends_eq {q : HostRequest} (h : q.Fits) :
    (q.sends = [] ∧ q.message = none) ∨
      ∃ f : PacketFrame, q.sends = f.encode ∧ q.message = some (f.type, f.value) := by
  unfold HostRequest.sends HostRequest.message
  by_cases hbig : maxControlTransferSize < q.setup.wLength.toNat
  · right
    rw [if_pos hbig, if_pos hbig]
    exact ⟨⟨PacketType.eTypeDebug.toByte, q.setup.bytes, by simp⟩, rfl, rfl⟩
  · rw [if_neg hbig, if_neg hbig]
    by_cases hdir : q.setup.deviceToHost = true
    · right
      rw [if_pos hdir, if_pos hdir]
      refine ⟨⟨PacketType.eTypeControl.toByte, q.setup.bytes, by simp⟩, ?_, rfl⟩
      simp only [sendControlHeader, if_pos hdir]
      rfl
    · rw [if_neg hdir, if_neg hdir]
      cases hdata : q.data with
      | none => exact Or.inl ⟨rfl, rfl⟩
      | some d =>
          right
          have hlen := q.length_data d hdata
          have hsmall : 8 + d.length ≤ 254 := by
            rcases h with h | h | h | h
            · exact absurd h hdir
            · exact absurd (h.symm.trans hdata) (by simp)
            · rwa [hlen]
            · exact absurd h hbig
          refine ⟨⟨PacketType.eTypeControl.toByte, q.setup.bytes ++ d, ?_⟩, ?_, rfl⟩
          · rw [List.length_append, ControlRequest.length_bytes]
            exact hsmall
          · have hbyte : 8 + q.setup.wLength.toUInt8 =
                UInt8.ofNat (q.setup.bytes ++ d).length := by
              apply UInt8.toNat_inj.1
              rw [UInt8.toNat_add, UInt16.toNat_toUInt8, UInt8.toNat_ofNat',
                List.length_append, ControlRequest.length_bytes, ← hlen]
              change (8 + d.length % 2 ^ 8) % 2 ^ 8 = (8 + d.length) % 2 ^ 8
              omega
            simp only [sendControlHeader_append, if_neg hdir, hbyte, Frame.encode]

theorem HostRequest.not_oneFrame_of_not_fits {q : HostRequest} (h : ¬ q.Fits) :
    q.sends ≠ [] ∧ ¬ OneFrame q.sends := by
  simp only [HostRequest.Fits, not_or, maxPacketValueSize_eq] at h
  obtain ⟨hdir, hsome, hsmall, hbig⟩ := h
  obtain ⟨d, hdata⟩ := Option.ne_none_iff_exists'.1 hsome
  have hlen := q.length_data d hdata
  have hsends : q.sends = sendControlHeader q.setup ++ d := by
    unfold HostRequest.sends
    rw [maxControlTransferSize_eq, if_neg hbig, if_neg hdir, hdata]
  rw [hsends, sendControlHeader_append]
  refine ⟨by simp, ?_⟩
  rintro ⟨t, l, v, heq, hl, hle⟩
  obtain ⟨_, heq⟩ := List.cons.inj heq
  obtain ⟨_, rfl⟩ := List.cons.inj heq
  rw [List.length_append, ControlRequest.length_bytes] at hl
  rw [maxPacketValueSize_eq] at hle
  omega

theorem HostRequest.Fits.oneFrame {q : HostRequest} (h : q.Fits) (hne : q.sends ≠ []) :
    OneFrame q.sends := by
  rcases h.sends_eq with ⟨hnil, _⟩ | ⟨f, hf, _⟩
  · exact absurd hnil hne
  · have hle := f.value_le
    have hlen := f.toNat_length maxPacketValueSize_lt
    exact ⟨f.type, _, f.value, hf, hlen, hlen.le.trans hle⟩

theorem exists_frames_of_fits {qs : List HostRequest} (h : ∀ q ∈ qs, q.Fits) :
    ∃ fs : List PacketFrame, qs.flatMap HostRequest.sends = fs.flatMap Frame.encode ∧
      qs.filterMap HostRequest.message = fs.map fun f => (f.type, f.value) := by
  induction qs with
  | nil => exact ⟨[], rfl, rfl⟩
  | cons q qs ih =>
      rw [List.forall_mem_cons] at h
      obtain ⟨fs, hsends, hmessages⟩ := ih h.2
      rcases h.1.sends_eq with ⟨hnil, hnone⟩ | ⟨f, hf, hsome⟩
      · refine ⟨fs, ?_, ?_⟩
        · rw [List.flatMap_cons, hnil, hsends, List.nil_append]
        · rw [List.filterMap_cons_none hnone, hmessages]
      · refine ⟨f :: fs, ?_, ?_⟩
        · rw [List.flatMap_cons, List.flatMap_cons, hf, hsends]
        · rw [List.filterMap_cons_some hsome, hmessages, List.map_cons]

/-- A receiver that has read whole frames has delivered them and waits for the
next header. -/
theorem Session.run_whole_frames {π : Type*} {realloc : ℕ → Bool}
    (halloc : ∀ n, realloc n = true) {cb : PacketCallback π} {u : π}
    {chunks : List (List UInt8)} {s : Session π} {fs : List PacketFrame}
    (hrun : exec (Session.recv realloc cb) (Session.start u) chunks = some s)
    (hstream : chunks.flatten = fs.flatMap Frame.encode) :
    s.delivered.map SPacket.frame = fs ∧ s.receiver.bread = 0 := by
  obtain ⟨hwait, _, hframes, hpending⟩ := Session.run_frames halloc hrun
  rw [hstream, frames_flatMap maxPacketValueSize_lt] at hframes
  rw [hstream, pending_flatMap maxPacketValueSize_lt] at hpending
  refine ⟨hframes.symm, ?_⟩
  rcases hpending with hstored | hover
  · rw [← s.receiver.stored_length hwait.bread_le, ← hstored]
    rfl
  · exact hover.elim

/-- Every request that puts bytes on the line puts one frame there; and a
receiver that reads what a sequence of requests puts there, in whatever pieces,
delivers the message of each request and is back at the start of a header. -/
def RoundTrip (qs : List HostRequest) : Prop :=
  (∀ q ∈ qs, q.sends ≠ [] → OneFrame q.sends) ∧
  ∀ (π : Type) (realloc : ℕ → Bool) (cb : PacketCallback π) (u : π)
    (chunks : List (List UInt8)) (s : Session π), (∀ n, realloc n = true) →
    exec (Session.recv realloc cb) (Session.start u) chunks = some s →
    chunks.flatten = qs.flatMap HostRequest.sends →
      s.delivered.map (fun p => (p.frame.type, p.frame.value)) =
        qs.filterMap HostRequest.message ∧ s.receiver.bread = 0

/-- A sequence of control requests makes the round trip exactly when the setup
and the data of each request fit a packet. -/
theorem roundTrip_iff_fits (qs : List HostRequest) :
    RoundTrip qs ↔ ∀ q ∈ qs, q.Fits := by
  constructor
  · rintro ⟨hframe, _⟩ q hq
    by_contra hfits
    obtain ⟨hne, hnot⟩ := HostRequest.not_oneFrame_of_not_fits hfits
    exact hnot (hframe q hq hne)
  · intro h
    refine ⟨fun q hq hne => (h q hq).oneFrame hne, ?_⟩
    intro π realloc cb u chunks s halloc hrun hstream
    obtain ⟨fs, hsends, hmessages⟩ := exists_frames_of_fits h
    obtain ⟨hframes, hsync⟩ := Session.run_whole_frames halloc hrun (hstream.trans hsends)
    refine ⟨?_, hsync⟩
    rw [hmessages, ← hframes, List.map_map]
    rfl

def requestOf248 : HostRequest where
  setup := ⟨0x40, 1, 0, 0, 248⟩
  data := some (List.replicate 248 0)
  length_data := by
    rintro d ⟨⟩
    exact List.length_replicate

/-- Its length byte is 0: the proxy delivers an empty control packet and takes
the setup and the data for further packets. -/
theorem roundTrip_requestOf248 :
    ¬ RoundTrip [requestOf248] ∧
      requestOf248.sends.take 2 = [PacketType.eTypeControl.toByte, 0] := by
  have hfits : ¬ requestOf248.Fits := by
    simp only [HostRequest.Fits]
    decide
  obtain ⟨hne, hnot⟩ := HostRequest.not_oneFrame_of_not_fits hfits
  refine ⟨fun h => ?_, by decide⟩
  exact hnot (h.1 requestOf248 (List.mem_singleton_self _) hne)

end SerialUsb
