import SerialUsb.Adapter.Delivered
import SerialUsb.Firmware.Control
import SerialUsb.Firmware.EndpointConfigs
import SerialUsb.Firmware.Input
import SerialUsb.Proxy.SizedPackets
import SerialUsb.System.Startup

/-!
# The arrays of the firmware

The interrupt stores the value of a packet as far as the length byte says, and looks at the
end of no array. `SendNextInput` and the control requests read as many bytes as they were
told. `arrays_inside` says that the packets of the proxy keep all of them inside: whatever
bytes the proxy reads from the line, whatever ends its transfers come to, and wherever the
interrupt comes between the steps of the main loop.

The acknowledgements may come twice or in any order here, so the upload is only known by
its parts: `Tables.Uploaded`.
-/

namespace SerialUsb

open Framing Memory Transition

/-- The array that the value of a packet is stored to: where the store ends, and the size. -/
def Firmware.stores (fw : Firmware) (type : PacketType) (count : ℕ) : ℕ × ℕ :=
  match type with
  | .eTypeDescriptors => (fw.upload.pdesc + count, maxDescriptorsSize)
  | .eTypeIndex => (fw.upload.pindex + count, 8 * maxDescriptors)
  | .eTypeEndpoints => (count, 3 * maxEndpoints)
  | .eTypeControl | .eTypeControlStall => (count, maxControlTransferSize)
  | .eTypeIn => (count, 1 + maxPayloadSizeEp)
  | .eTypeReset | .eTypeOut | .eTypeDebug => (0, 0)

def Firmware.storesOutside (fw : Firmware) : List UInt8 → Bool
  | type :: len :: _ =>
      match PacketType.ofByte? type with
      | none => false
      | some type => (fw.stores type len.toNat).2 < (fw.stores type len.toNat).1
  | _ => false

def InputPhase.readsOutside : InputPhase → Bool
  | .writing _ length released bank =>
      released + bank.length < length ∧ maxPayloadSizeEp ≤ released + bank.length
  | _ => false

/-- `USB_USBTask` can run: between the tasks of the main loop, and in the stream write. -/
def InputPhase.inUsbTask : InputPhase → Bool
  | .idle | .inTask _ _ _ => true
  | _ => false

def ControlPhase.accessesOutside : ControlPhase → Bool
  | .dataStage q => maxControlTransferSize < q.setup.wLength.toNat
  | .writing _ length sent => sent.length < length ∧ maxControlTransferSize ≤ sent.length
  | _ => false

/-- The proxy and the firmware. `outside` tells of an access outside of an array, behind which
nothing is said. -/
structure ArrayRun where
  session : Session Proxy
  exited : Bool
  fw : Firmware
  control : ControlPhase
  input : InputPhase
  outside : Bool

def ArrayRun.proxy (s : ArrayRun) : Proxy := s.session.user

def ArrayRun.setProxy (s : ArrayRun) (p : Proxy) : ArrayRun :=
  { s with session := { s.session with user := p } }

def ArrayRun.start (t : Tables) (serialToUsb usbToSerial : EndpointTable) (usb : Usb) :
    ArrayRun where
  session := Session.start
    ((Proxy.collected t serialToUsb usbToSerial usb).send .eTypeDescriptors t.desc).1
  exited := false
  fw := Firmware.boot
  control := .idle
  input := .idle
  outside := false

inductive ArrayEvent where
  /-- a `read` of the adapter returns bytes, whatever the line made of them -/
  | bytes (chunk : List UInt8)
  /-- the transfer at a position of the table ends, in the loop or in `gusb_close` -/
  | complete (i : ℕ) (status : TransferStatus)
  /-- one of the callbacks that only set `done` -/
  | close
  /-- the proxy leaves its loop and sends the reset -/
  | exit
  /-- the interrupt takes a packet -/
  | interrupt
  /-- the target host makes a request that LUFA does not handle -/
  | request (q : HostRequest)
  /-- a step of `EVENT_USB_Device_UnhandledControlRequest` -/
  | controlRequest (leave : Bool)
  /-- a step of `SendNextInput` -/
  | sendNextInput (inReady : Bool)

def ArrayRun.Proxying (s : ArrayRun) : Prop := s.exited = false ∧ s.proxy.fault = false

instance (s : ArrayRun) : Decidable s.Proxying := inferInstanceAs (Decidable (_ ∧ _))

def ArrayRun.Looping (s : ArrayRun) : Prop :=
  s.fw.upload.started = true ∧ s.fw.halted = false

instance (s : ArrayRun) : Decidable s.Looping := inferInstanceAs (Decidable (_ ∧ _))

def ArrayRun.next (size : UInt8 → ℕ) (realloc : ℕ → Bool) (s : ArrayRun) (e : ArrayEvent) :
    Option ArrayRun :=
  if s.outside then none
  else
    match e with
    | .bytes chunk =>
        if s.Proxying then
          (s.session.recv realloc processPacket chunk).map fun session =>
            { s with session := session }
        else none
    | .complete i status =>
        if s.proxy.fault = false then (usbCallback s.proxy i status).map s.setProxy else none
    | .close => if s.Proxying then some (s.setProxy { s.proxy with done := true }) else none
    | .exit =>
        if s.Proxying ∧ s.proxy.done = true then
          some { s.setProxy (s.proxy.send .eTypeReset []).1 with exited := true }
        else none
    | .interrupt =>
        (receive s.fw s.proxy.serial.line).map fun (fw, _, rest) =>
          { s.setProxy (s.proxy.setLine rest) with
            fw := fw
            outside := s.fw.storesOutside s.proxy.serial.line }
    | .request q =>
        match s.control with
        | .idle =>
            if s.Looping ∧ s.input.inUsbTask = true then
              let (slot, phase) := beginControlRequest s.fw.slot q
              some { s with fw := { s.fw with slot := slot }, control := phase }
            else none
        | _ => none
    | .controlRequest leave =>
        if s.Looping then
          let step := unhandledControlRequest s.fw.slot leave s.control
          some { s with
            fw := { s.fw with slot := step.slot }
            control := step.phase
            outside := s.control.accessesOutside }
        else none
    | .sendNextInput inReady =>
        match s.control with
        | .idle =>
            if s.Looping then
              let step := sendNextInput size s.fw inReady s.input
              some { s with fw := step.fw, input := step.phase, outside := s.input.readsOutside }
            else none
        | _ => none

structure Tables.Uploaded (t : Tables) (index config : Bool) (fs : List PacketFrame) : Prop where
  descriptors : ofType .eTypeDescriptors fs = packets .eTypeDescriptors t.desc
  descIndex : ofType .eTypeIndex fs = if index = true then packets .eTypeIndex t.index else []
  endpoints : ofType .eTypeEndpoints fs =
    if config = true then packets .eTypeEndpoints t.config else []
  types : ∀ f ∈ fs, ∃ type : PacketType, (type.isUpload = true ∨ type.isRuntime = true) ∧
    f.type = type.toByte
  inputs : ∀ f ∈ fs, f.type = PacketType.eTypeIn.toByte →
    1 ≤ f.value.length ∧ f.value.length ≤ 1 + maxPayloadSizeEp

section Uploaded

variable {t : Tables} {index config : Bool} {fs : List PacketFrame}

theorem Tables.uploaded_start (t : Tables) :
    t.Uploaded false false (packets .eTypeDescriptors t.desc) where
  descriptors := ofType_packets _ _
  descIndex := ofType_packets_of_ne (by decide) _
  endpoints := ofType_packets_of_ne (by decide) _
  types := fun _ hf => ⟨.eTypeDescriptors, Or.inl rfl, type_of_mem_packets hf⟩
  inputs := fun _ hf hin =>
    absurd (PacketType.toByte_injective ((type_of_mem_packets hf).symm.trans hin)) (by decide)

theorem Tables.Uploaded.runtime (h : t.Uploaded index config fs) {gs : List PacketFrame}
    (hgs : ∀ f ∈ gs, RuntimeFits f) : t.Uploaded index config (fs ++ gs) := by
  have hruntime : ∀ f ∈ gs, Runtime f := fun f hf => (hgs f hf).1
  constructor
  case descriptors =>
    rw [ofType_append, ofType_runtime rfl hruntime, List.append_nil, h.descriptors]
  case descIndex =>
    rw [ofType_append, ofType_runtime rfl hruntime, List.append_nil, h.descIndex]
  case endpoints =>
    rw [ofType_append, ofType_runtime rfl hruntime, List.append_nil, h.endpoints]
  case types =>
    refine List.forall_mem_append.2 ⟨h.types, fun f hf => ?_⟩
    obtain ⟨type, htype, heq⟩ := hruntime f hf
    exact ⟨type, Or.inr htype, heq⟩
  case inputs => exact List.forall_mem_append.2 ⟨h.inputs, fun f hf => (hgs f hf).2⟩

/-- The first acknowledgement of the descriptors makes the proxy send the index. -/
theorem Tables.Uploaded.sendIndex (h : t.Uploaded false config fs) :
    t.Uploaded true config (fs ++ packets .eTypeIndex t.index) := by
  constructor
  case descriptors =>
    rw [ofType_append, ofType_packets_of_ne (by decide), List.append_nil, h.descriptors]
  case descIndex =>
    rw [ofType_append, ofType_packets, h.descIndex]
    rfl
  case endpoints =>
    rw [ofType_append, ofType_packets_of_ne (by decide), List.append_nil, h.endpoints]
  case types =>
    refine List.forall_mem_append.2 ⟨h.types, fun f hf => ?_⟩
    exact ⟨.eTypeIndex, Or.inl rfl, type_of_mem_packets hf⟩
  case inputs =>
    refine List.forall_mem_append.2 ⟨h.inputs, fun f hf hin => ?_⟩
    exact absurd (PacketType.toByte_injective ((type_of_mem_packets hf).symm.trans hin))
      (by decide)

theorem Tables.Uploaded.sendEndpoints (h : t.Uploaded index false fs) :
    t.Uploaded index true (fs ++ packets .eTypeEndpoints t.config) := by
  constructor
  case descriptors =>
    rw [ofType_append, ofType_packets_of_ne (by decide), List.append_nil, h.descriptors]
  case descIndex =>
    rw [ofType_append, ofType_packets_of_ne (by decide), List.append_nil, h.descIndex]
  case endpoints =>
    rw [ofType_append, ofType_packets, h.endpoints]
    rfl
  case types =>
    refine List.forall_mem_append.2 ⟨h.types, fun f hf => ?_⟩
    exact ⟨.eTypeEndpoints, Or.inl rfl, type_of_mem_packets hf⟩
  case inputs =>
    refine List.forall_mem_append.2 ⟨h.inputs, fun f hf hin => ?_⟩
    exact absurd (PacketType.toByte_injective ((type_of_mem_packets hf).symm.trans hin))
      (by decide)

theorem Tables.Uploaded.content_endpoints (h : t.Uploaded index config fs) :
    content .eTypeEndpoints fs = if config = true then t.config else [] := by
  rw [content, h.endpoints]
  split
  · exact flatMap_value_packets _ _
  · rfl

theorem Tables.Uploaded.fits (h : t.Uploaded index config fs) : FitsUpload fs where
  descriptors := by
    rw [content, h.descriptors, flatMap_value_packets]
    exact t.desc_le
  descIndex := by
    have hle := t.descIndex_le
    rw [content, h.descIndex]
    split
    · rw [flatMap_value_packets, t.length_index]
      omega
    · exact Nat.zero_le _
  endpoints := by
    have hle := t.endpoints_le
    rw [h.content_endpoints]
    split
    · rw [t.length_config]
      omega
    · exact Nat.zero_le _
  single := by
    obtain ⟨f, hf, _⟩ := t.packets_config
    rw [h.endpoints]
    split
    · rw [hf]
      exact Nat.le_refl 1
    · exact Nat.zero_le 1

end Uploaded

def InputPhase.Bounded : InputPhase → Prop
  | .writing _ length _ _ | .inTask _ length _ | .waiting _ length _ => length ≤ maxPayloadSizeEp
  | _ => True

def ControlPhase.Bounded : ControlPhase → Prop
  | .resetting q | .dataStage q => q.setup.wLength.toNat ≤ maxControlTransferSize
  | .writing _ length _ => length ≤ maxControlTransferSize
  | _ => True

structure Firmware.Bounded (fw : Firmware) : Prop where
  inputDataLen : fw.input.inputDataLen.toNat ≤ maxPayloadSizeEp
  controlReplyLen : fw.slot.controlReplyLen.toNat ≤ maxControlTransferSize

theorem InputPhase.Bounded.not_readsOutside {phase : InputPhase} (h : phase.Bounded) :
    phase.readsOutside = false := by
  cases phase with
  | writing endpoint length released bank =>
      apply decide_eq_false
      rintro ⟨hlt, hle⟩
      exact absurd (hle.trans_lt hlt) (not_lt.2 h)
  | _ => rfl

theorem ControlPhase.Bounded.not_accessesOutside {phase : ControlPhase} (h : phase.Bounded) :
    phase.accessesOutside = false := by
  cases phase with
  | dataStage q => exact decide_eq_false (not_lt.2 h)
  | writing q length sent =>
      apply decide_eq_false
      rintro ⟨hlt, hle⟩
      exact absurd (hle.trans_lt hlt) (not_lt.2 h)
  | _ => rfl

theorem Firmware.Bounded.sendNextInput {fw : Firmware} (h : fw.Bounded) {phase : InputPhase}
    (hphase : phase.Bounded) (size : UInt8 → ℕ) (inReady : Bool) :
    (SerialUsb.sendNextInput size fw inReady phase).fw.Bounded ∧
      (SerialUsb.sendNextInput size fw inReady phase).phase.Bounded ∧
      (SerialUsb.sendNextInput size fw inReady phase).fw.upload = fw.upload := by
  unfold SerialUsb.sendNextInput
  cases phase with
  | idle =>
      dsimp only
      split
      · exact ⟨h, h.inputDataLen, rfl⟩
      · exact ⟨h, trivial, rfl⟩
  | writing endpoint length released bank =>
      dsimp only
      split
      · split
        · exact ⟨h, hphase, rfl⟩
        · exact ⟨h, hphase, rfl⟩
      · exact ⟨h, trivial, rfl⟩
  | inTask endpoint length released => exact ⟨h, hphase, rfl⟩
  | waiting endpoint length released =>
      dsimp only
      split
      · exact ⟨h, hphase, rfl⟩
      · exact ⟨h, trivial, rfl⟩
  | failed endpoint => exact ⟨h, trivial, rfl⟩
  | cleared => exact ⟨⟨h.inputDataLen, h.controlReplyLen⟩, trivial, rfl⟩
  | acking => exact ⟨h, trivial, rfl⟩
  | ackLength => exact ⟨h, trivial, rfl⟩

theorem ControlPhase.bounded_begin (slot : ControlSlot) (q : HostRequest) :
    (beginControlRequest slot q).1.controlReplyLen = slot.controlReplyLen ∧
      (beginControlRequest slot q).2.Bounded := by
  unfold beginControlRequest
  split
  · exact ⟨rfl, trivial⟩
  next hshort => exact ⟨rfl, not_lt.1 hshort⟩

theorem ControlPhase.Bounded.step {slot : ControlSlot} {phase : ControlPhase}
    (h : phase.Bounded) (hslot : slot.controlReplyLen.toNat ≤ maxControlTransferSize)
    (leave : Bool) :
    (unhandledControlRequest slot leave phase).slot.controlReplyLen = slot.controlReplyLen ∧
      (unhandledControlRequest slot leave phase).phase.Bounded := by
  unfold unhandledControlRequest
  cases phase with
  | idle => exact ⟨rfl, trivial⟩
  | resetting q =>
      dsimp only
      split
      · exact ⟨rfl, trivial⟩
      · exact ⟨rfl, h⟩
  | dataStage q =>
      dsimp only
      split
      · exact ⟨rfl, trivial⟩
      · exact ⟨rfl, trivial⟩
  | sending q unsent =>
      cases unsent with
      | nil =>
          dsimp only
          split
          · exact ⟨rfl, trivial⟩
          · exact ⟨rfl, trivial⟩
      | cons b unsent => exact ⟨rfl, trivial⟩
  | waiting q =>
      dsimp only
      split
      · exact ⟨rfl, trivial⟩
      · exact ⟨rfl, trivial⟩
  | left q =>
      dsimp only
      split
      · exact ⟨rfl, trivial⟩
      · exact ⟨rfl, trivial⟩
  | replied q =>
      dsimp only
      split
      · exact ⟨rfl, trivial⟩
      · split
        · exact ⟨rfl, trivial⟩
        · exact ⟨rfl, trivial⟩
  | replying q => exact ⟨rfl, (Nat.min_le_left _ _).trans hslot⟩
  | writing q length sent =>
      dsimp only
      split
      · exact ⟨rfl, h⟩
      · exact ⟨rfl, trivial⟩

section Interrupt

variable {fw : Firmware} {fs : List PacketFrame} {f : PacketFrame} {type : PacketType}

theorem Upload.Holds.stores_le (h : fw.upload.Holds fs) (hf : f.type = type.toByte)
    (hfit : FitsUpload (fs ++ [f]))
    (hin : type = .eTypeIn → f.value.length ≤ 1 + maxPayloadSizeEp) :
    (fw.stores type f.value.length).1 ≤ (fw.stores type f.value.length).2 := by
  have hd := hfit.descriptors
  have hi := hfit.descIndex
  have he := hfit.endpoints
  rw [content_concat hf, List.length_append] at hd hi he
  cases type with
  | eTypeDescriptors =>
      rw [if_pos rfl, ← h.staged.pdesc] at hd
      exact hd
  | eTypeIndex =>
      rw [if_pos rfl, ← h.staged.pindex] at hi
      exact hi
  | eTypeEndpoints =>
      rw [if_pos rfl] at he
      exact (Nat.le_add_left _ _).trans he
  | eTypeReset => exact Nat.le_refl 0
  | eTypeControl => exact f.value_le
  | eTypeControlStall => exact f.value_le
  | eTypeIn => exact hin rfl
  | eTypeOut => exact Nat.le_refl 0
  | eTypeDebug => exact Nat.le_refl 0

theorem Firmware.storesOutside_encode (fw : Firmware) (hf : f.type = type.toByte)
    (rest : List UInt8)
    (hle : (fw.stores type f.value.length).1 ≤ (fw.stores type f.value.length).2) :
    fw.storesOutside (f.encode ++ rest) = false := by
  have hlen := f.toNat_length maxPacketValueSize_lt
  simp only [Frame.encode, List.cons_append, Firmware.storesOutside, hf,
    PacketType.ofByte?_toByte, hlen]
  exact decide_eq_false (not_lt.2 hle)

theorem Firmware.Bounded.interrupt (h : fw.Bounded)
    (hin : type = .eTypeIn → 1 ≤ f.value.length ∧ f.value.length ≤ 1 + maxPayloadSizeEp) :
    (SerialUsb.interrupt fw type f.value).1.Bounded := by
  cases type with
  | eTypeControl =>
      refine ⟨h.inputDataLen, ?_⟩
      have hlen : (UInt8.ofNat f.value.length).toNat = f.value.length :=
        f.toNat_length maxPacketValueSize_lt
      change (UInt8.ofNat f.value.length).toNat ≤ _
      rw [hlen]
      exact f.value_le
  | eTypeIn =>
      refine ⟨?_, h.controlReplyLen⟩
      obtain ⟨hpos, hle⟩ := hin rfl
      rw [maxPayloadSizeEp_eq] at hle ⊢
      change (UInt8.ofNat f.value.length - 1).toNat ≤ 64
      obtain ⟨n, hn⟩ := Nat.exists_eq_add_of_le' hpos
      rw [hn, UInt8.ofNat_add]
      have hcancel : UInt8.ofNat n + UInt8.ofNat 1 - 1 = UInt8.ofNat n := UInt8.add_sub_cancel _ _
      rw [hcancel, UInt8.toNat_ofNat']
      omega
  | _ => exact ⟨h.inputDataLen, h.controlReplyLen⟩

end Interrupt

structure ArrayRun.Inv (t : Tables) (s : ArrayRun) (rs fs : List PacketFrame) : Prop where
  line : s.proxy.serial.line = fs.flatMap Frame.encode
  sized : s.proxy.Sized
  descIndex : s.proxy.descIndex = t.descIndex
  endpoints : s.proxy.endpoints = t.endpoints
  uploaded : t.Uploaded s.proxy.descIndexSent s.proxy.endpointsSent (rs ++ fs)
  holds : s.fw.upload.Holds rs
  bounded : s.fw.Bounded
  control : s.control.Bounded
  input : s.input.Bounded
  inside : s.outside = false

theorem ArrayRun.inv_start (t : Tables) (serialToUsb usbToSerial : EndpointTable) (usb : Usb) :
    (ArrayRun.start t serialToUsb usbToSerial usb).Inv t []
      (packets .eTypeDescriptors t.desc) := by
  have hwrites : (Proxy.collected t serialToUsb usbToSerial usb).serial.writes = [] := rfl
  have hadds := Proxy.adds_send hwrites .eTypeDescriptors t.desc
  constructor
  case line => exact hadds.line
  case sized =>
    exact ⟨hadds.writes, fun _ h => absurd h List.not_mem_nil, fun _ h => absurd h List.not_mem_nil⟩
  case descIndex => exact hadds.descIndex
  case endpoints => exact hadds.endpoints
  case uploaded =>
    rw [ArrayRun.proxy, ArrayRun.start, Session.start, hadds.descIndexSent, hadds.endpointsSent]
    exact t.uploaded_start
  case holds => exact Upload.holds_boot
  case bounded => exact ⟨Nat.zero_le _, Nat.zero_le _⟩
  case control => trivial
  case input => trivial
  case inside => rfl

section Step

variable {t : Tables} {s s' : ArrayRun} {rs fs : List PacketFrame} {size : UInt8 → ℕ}
  {realloc : ℕ → Bool}

theorem ArrayRun.Inv.feeds (h : s.Inv t rs fs) (session : Session Proxy) (exited : Bool)
    (hfeeds : s.proxy.Feeds session.user) :
    ∃ gs, { s with session := session, exited := exited }.Inv t rs gs := by
  obtain ⟨gs, hadds, hgs, hsized⟩ := hfeeds
  refine ⟨fs ++ gs, ?_⟩
  constructor
  case line => rw [ArrayRun.proxy, hadds.line, h.line, List.flatMap_append]
  case sized => exact hsized
  case descIndex => exact hadds.descIndex.trans h.descIndex
  case endpoints => exact hadds.endpoints.trans h.endpoints
  case uploaded =>
    rw [ArrayRun.proxy, hadds.descIndexSent, hadds.endpointsSent, ← List.append_assoc]
    exact h.uploaded.runtime hgs
  case holds => exact h.holds
  case bounded => exact h.bounded
  case control => exact h.control
  case input => exact h.input
  case inside => exact h.inside

theorem ArrayRun.Inv.uploads (h : s.Inv t rs fs) {session : Session Proxy}
    (index config : Bool) {gs : List PacketFrame}
    (huser : session.user = { s.proxy with
      descIndexSent := index
      endpointsSent := config
      serial := ⟨s.proxy.serial.line ++ gs.flatMap Frame.encode, []⟩ })
    (huploaded : t.Uploaded index config (rs ++ fs ++ gs)) :
    ∃ gs, { s with session := session }.Inv t rs gs := by
  refine ⟨fs ++ gs, ?_⟩
  constructor
  case line =>
    rw [ArrayRun.proxy, huser, List.flatMap_append, ← h.line]
  case sized =>
    rw [ArrayRun.proxy, huser]
    exact ⟨rfl, h.sized.fifo, h.sized.transfers⟩
  case descIndex =>
    rw [ArrayRun.proxy, huser]
    exact h.descIndex
  case endpoints =>
    rw [ArrayRun.proxy, huser]
    exact h.endpoints
  case uploaded =>
    rw [ArrayRun.proxy, huser, ← List.append_assoc]
    exact huploaded
  case holds => exact h.holds
  case bounded => exact h.bounded
  case control => exact h.control
  case input => exact h.input
  case inside => exact h.inside

theorem ArrayRun.Inv.processPacket (h : s.Inv t rs fs) {session : Session Proxy}
    {packet : SPacket} (huser : session.user = (processPacket s.proxy packet).1) :
    ∃ gs, { s with session := session }.Inv t rs gs := by
  have hwrites := h.sized.writes
  by_cases hd : packet.type = PacketType.eTypeDescriptors.toByte
  · rw [processPacket_descriptors hwrites hd] at huser
    by_cases hsent : s.proxy.descIndexSent = true
    · rw [if_pos hsent] at huser
      exact h.feeds session s.exited (huser ▸ h.sized.feeds_self)
    · rw [if_neg hsent] at huser
      have huploaded := h.uploaded
      rw [Bool.eq_false_of_not_eq_true hsent] at huploaded
      refine h.uploads true s.proxy.endpointsSent huser ?_
      rw [h.descIndex]
      exact huploaded.sendIndex
  by_cases hi : packet.type = PacketType.eTypeIndex.toByte
  · rw [processPacket_index hwrites hi] at huser
    by_cases hsent : s.proxy.endpointsSent = true
    · rw [if_pos hsent] at huser
      exact h.feeds session s.exited (huser ▸ h.sized.feeds_self)
    · rw [if_neg hsent] at huser
      have huploaded := h.uploaded
      rw [Bool.eq_false_of_not_eq_true hsent] at huploaded
      refine h.uploads s.proxy.descIndexSent true huser ?_
      rw [h.endpoints]
      exact huploaded.sendEndpoints
  · exact h.feeds session s.exited (huser ▸ h.sized.feeds_processPacket hd hi)

theorem ArrayRun.Inv.interrupt (h : s.Inv t rs fs) {fw : Firmware} {sent rest : List UInt8}
    (hreceive : receive s.fw s.proxy.serial.line = some (fw, sent, rest)) :
    ∃ rs' fs', { s.setProxy (s.proxy.setLine rest) with
      fw := fw
      outside := s.fw.storesOutside s.proxy.serial.line }.Inv t rs' fs' := by
  have hhalt := not_halted_of_receive hreceive
  rw [h.line] at hreceive ⊢
  cases fs with
  | nil => exact absurd hreceive (by simp [receive])
  | cons f fs =>
      have hmem : f ∈ rs ++ f :: fs := List.mem_append_right _ List.mem_cons_self
      obtain ⟨type, htype, hf⟩ := h.uploaded.types f hmem
      have hin : type = .eTypeIn →
          1 ≤ f.value.length ∧ f.value.length ≤ 1 + maxPayloadSizeEp := by
        rintro rfl
        exact h.uploaded.inputs f hmem hf
      have hsplit : rs ++ f :: fs = (rs ++ [f]) ++ fs := by simp
      have huploaded := h.uploaded
      rw [hsplit] at huploaded
      have hfit := huploaded.fits.of_append
      rw [List.flatMap_cons, receive_encode hhalt hf htype] at hreceive
      simp only [Option.some.injEq, Prod.mk.injEq] at hreceive
      obtain ⟨rfl, rfl, rfl⟩ := hreceive
      refine ⟨rs ++ [f], fs, ?_⟩
      constructor
      case line => rfl
      case sized => exact ⟨h.sized.writes, h.sized.fifo, h.sized.transfers⟩
      case descIndex => exact h.descIndex
      case endpoints => exact h.endpoints
      case uploaded => exact huploaded
      case holds => exact h.holds.receives hf hfit
      case bounded => exact h.bounded.interrupt hin
      case control => exact h.control
      case input => exact h.input
      case inside =>
        have hle := h.holds.stores_le hf hfit fun htype => (hin htype).2
        exact s.fw.storesOutside_encode hf (fs.flatMap Frame.encode) hle

theorem ArrayRun.Inv.next {e : ArrayEvent} (h : s.Inv t rs fs)
    (hnext : s.next size realloc e = some s') : ∃ rs' fs', s'.Inv t rs' fs' := by
  have hinside : ¬ s.outside = true := by
    rw [h.inside]
    exact Bool.false_ne_true
  unfold ArrayRun.next at hnext
  rw [if_neg hinside] at hnext
  cases e with
  | bytes chunk =>
      dsimp only at hnext
      split at hnext
      · obtain ⟨session, hrecv, rfl⟩ := Option.map_eq_some_iff.1 hnext
        rcases Session.user_recv_cases hrecv with huser | ⟨packet, huser⟩
        · obtain ⟨gs, hinv⟩ := h.feeds session s.exited (huser ▸ h.sized.feeds_self)
          exact ⟨rs, gs, hinv⟩
        · obtain ⟨gs, hinv⟩ := h.processPacket huser
          exact ⟨rs, gs, hinv⟩
      · exact absurd hnext (by simp)
  | complete i status =>
      dsimp only at hnext
      split at hnext
      · obtain ⟨q, hq, rfl⟩ := Option.map_eq_some_iff.1 hnext
        obtain ⟨gs, hinv⟩ := h.feeds { s.session with user := q } s.exited
          (h.sized.feeds_usbCallback hq)
        exact ⟨rs, gs, hinv⟩
      · exact absurd hnext (by simp)
  | close =>
      dsimp only at hnext
      split at hnext
      · obtain rfl := Option.some.inj hnext
        obtain ⟨gs, hinv⟩ := h.feeds
          { s.session with user := { s.proxy with done := true } } s.exited
          h.sized.feeds_self.setDone
        exact ⟨rs, gs, hinv⟩
      · exact absurd hnext (by simp)
  | exit =>
      dsimp only at hnext
      split at hnext
      · obtain rfl := Option.some.inj hnext
        obtain ⟨gs, hinv⟩ := h.feeds
          { s.session with user := (s.proxy.send .eTypeReset []).1 } true
          (h.sized.feeds_send rfl (by decide) [])
        exact ⟨rs, gs, hinv⟩
      · exact absurd hnext (by simp)
  | interrupt =>
      obtain ⟨⟨fw, sent, rest⟩, hreceive, rfl⟩ := Option.map_eq_some_iff.1 hnext
      exact h.interrupt hreceive
  | request q =>
      dsimp only at hnext
      split at hnext
      · split at hnext
        · obtain rfl := Option.some.inj hnext
          obtain ⟨hlen, hphase⟩ := ControlPhase.bounded_begin s.fw.slot q
          exact ⟨rs, fs, { h with
            holds := h.holds
            bounded := ⟨h.bounded.inputDataLen, hlen ▸ h.bounded.controlReplyLen⟩
            control := hphase }⟩
        · exact absurd hnext (by simp)
      · exact absurd hnext (by simp)
  | controlRequest leave =>
      dsimp only at hnext
      split at hnext
      · obtain rfl := Option.some.inj hnext
        obtain ⟨hlen, hphase⟩ := h.control.step h.bounded.controlReplyLen leave
        exact ⟨rs, fs, { h with
          holds := h.holds
          bounded := ⟨h.bounded.inputDataLen, hlen ▸ h.bounded.controlReplyLen⟩
          control := hphase
          inside := h.control.not_accessesOutside }⟩
      · exact absurd hnext (by simp)
  | sendNextInput inReady =>
      dsimp only at hnext
      split at hnext
      · split at hnext
        · obtain rfl := Option.some.inj hnext
          obtain ⟨hbounded, hphase, hupload⟩ := h.bounded.sendNextInput h.input size inReady
          exact ⟨rs, fs, { h with
            holds := hupload ▸ h.holds
            bounded := hbounded
            input := hphase
            inside := h.input.not_readsOutside }⟩
        · exact absurd hnext (by simp)
      · exact absurd hnext (by simp)

/-- The endpoints that `ReceiveNextOutput` reads are those of the table, or still zeros. -/
theorem ArrayRun.Inv.configs (h : s.Inv t rs fs) :
    ∀ c ∈ s.fw.upload.configs, c ∈ t.endpoints ∨ c = ⟨0, 0, 0⟩ := by
  have hstaged := h.holds.staged.endpoints
  have hcontent : ∃ cs, cs ⊆ t.endpoints ∧ cs.length ≤ maxEndpoints ∧
      content .eTypeEndpoints rs = cs.flatMap EndpointConfig.bytes := by
    have hall := h.uploaded.endpoints
    rw [ofType_append] at hall
    obtain ⟨f, hf, hftype⟩ := t.packets_config
    have hvalue := flatMap_value_packets .eTypeEndpoints t.config
    rw [hf] at hvalue
    split at hall
    · rw [hf, List.append_eq_singleton_iff] at hall
      rcases hall with ⟨hnil, _⟩ | ⟨hone, _⟩
      · exact ⟨[], List.nil_subset _, Nat.zero_le _, by rw [content, hnil]; rfl⟩
      · exact ⟨t.endpoints, List.Subset.refl _, t.endpoints_le, by rw [content, hone, hvalue]; rfl⟩
    · exact ⟨[], List.nil_subset _, Nat.zero_le _, by
        rw [content, (List.append_eq_nil_iff.1 hall).1]; rfl⟩
  obtain ⟨cs, hsubset, hle, hcs⟩ := hcontent
  rw [hcs] at hstaged
  rw [Upload.configs_of_filled hstaged hle]
  intro c hc
  rcases List.mem_append.1 hc with hc | hc
  · exact Or.inl (hsubset hc)
  · exact Or.inr (List.eq_of_mem_replicate hc)

end Step

theorem ArrayRun.exec_inv (t : Tables) (serialToUsb usbToSerial : EndpointTable) (usb : Usb)
    {size : UInt8 → ℕ} {realloc : ℕ → Bool} {es : List ArrayEvent} {s : ArrayRun}
    (hrun : exec (ArrayRun.next size realloc) (ArrayRun.start t serialToUsb usbToSerial usb) es =
      some s) : ∃ rs fs, s.Inv t rs fs :=
  exec_invariant (I := fun s => ∃ rs fs, s.Inv t rs fs)
    (fun _ _ _ ⟨_, _, h⟩ hnext => h.next hnext)
    ⟨_, _, ArrayRun.inv_start t serialToUsb usbToSerial usb⟩ hrun

section Sizes

/-- `ReceiveNextOutput` has room for the packets of the endpoints in the table. -/
def EndpointMaps.Sized (m : EndpointMaps) : Prop :=
  ∀ c ∈ m.endpoints, c.size.toNat ≤ maxPayloadSizeEp

/-- An endpoint of a larger size is skipped. -/
theorem EndpointMaps.Sized.fixEndpoint {m : EndpointMaps} (h : m.Sized)
    (configurationIndex : ℕ) (renumber : Bool) (e : EndpointDescriptor) :
    (SerialUsb.fixEndpoint configurationIndex renumber m e).1.Sized := by
  obtain ⟨number, address, _, _, _, hfix⟩ := fixEndpoint_cases configurationIndex renumber m e
  rw [hfix]
  split
  · exact h
  next hkept =>
    refine List.forall_mem_append.2 ⟨h, fun c hc => ?_⟩
    simp only [skipsEndpoint, decide_eq_true_eq, not_or, not_lt] at hkept
    have hsize := hkept.2.2.2.1
    rw [List.mem_singleton.1 hc, UInt16.toNat_toUInt8]
    exact (Nat.mod_le _ _).trans hsize

theorem EndpointMaps.Sized.fixConfigurations {m : EndpointMaps} (h : m.Sized)
    (configurationIndex : ℕ) (cs : List Configuration) :
    (SerialUsb.fixConfigurations configurationIndex m cs).1.Sized := by
  induction cs generalizing m configurationIndex with
  | nil => exact h
  | cons c cs ih =>
      have hloop : ∀ (es : List EndpointDescriptor) (m : EndpointMaps), m.Sized →
          (es.foldl (fun m e => (SerialUsb.fixEndpoint configurationIndex c.renumber m e).1)
            m).Sized := by
        intro es
        induction es with
        | nil => exact fun m hm => hm
        | cons e es ih => exact fun m hm => ih _ (hm.fixEndpoint configurationIndex c.renumber e)
      have hfirst : (fixConfiguration configurationIndex m c).1.Sized := by
        rw [fixConfiguration_fst]
        exact hloop c.endpoints _ h
      exact ih hfirst (configurationIndex + 1)

theorem fixEndpoints_sized (m : EndpointMaps) (cs : List Configuration) :
    (fixEndpoints m cs).1.Sized := by
  have hempty : EndpointMaps.Sized { m with endpoints := [] } :=
    fun _ hc => absurd hc List.not_mem_nil
  exact hempty.fixConfigurations 0 cs

end Sizes

/-- Whatever bytes reach the proxy in whatever pieces, whatever ends its transfers come to, and
wherever the interrupt comes between the steps of the main loop, in every state of every run:

* nothing was stored or read outside of `descriptors`, `descIndex`, `endpoints`, `control`,
  `buffer` and `input`;
* the lengths that the interrupt leaves for the main loop are within `input.data` and
  `control`;
* the packets that `ReceiveNextOutput` reads have room in its local `packet`, when the table
  of the endpoints is one that `fix_endpoints` makes. -/
theorem arrays_inside (t : Tables) (serialToUsb usbToSerial : EndpointTable) (usb : Usb)
    {size : UInt8 → ℕ} {realloc : ℕ → Bool} {es : List ArrayEvent} {s : ArrayRun}
    (hrun : exec (ArrayRun.next size realloc) (ArrayRun.start t serialToUsb usbToSerial usb) es =
      some s) :
    s.outside = false ∧ s.fw.upload.overrun = false ∧
      s.fw.input.inputDataLen.toNat ≤ maxPayloadSizeEp ∧
      s.fw.slot.controlReplyLen.toNat ≤ maxControlTransferSize ∧
      ∀ m cs, t.endpoints = (fixEndpoints m cs).1.endpoints →
        ∀ c ∈ s.fw.upload.configs, c.size.toNat ≤ maxPayloadSizeEp := by
  obtain ⟨rs, fs, h⟩ := ArrayRun.exec_inv t serialToUsb usbToSerial usb hrun
  refine ⟨h.inside, h.holds.staged.overrun, h.bounded.inputDataLen, h.bounded.controlReplyLen, ?_⟩
  intro m cs hfixed c hc
  rcases h.configs c hc with hmem | rfl
  · rw [hfixed] at hmem
    exact fixEndpoints_sized m cs c hmem
  · exact Nat.zero_le _

/-- The acknowledgement of the descriptors comes twice, and the interrupt puts an IN packet
into `input` while the main loop is about to send. -/
theorem arrays_inside_twice :
    ∃ s : ArrayRun,
      exec (ArrayRun.next (fun _ => 8) fun _ => true)
        (ArrayRun.start ⟨[18, 1], [⟨0, 0x0100, 0, 2⟩], [⟨0x81, 3, 8⟩], by decide, by decide,
            by decide⟩
          ⟨Vector.ofFn fun i => if i.val = 15 then 0x81 else 0, fun _ => 0⟩
          ⟨Vector.ofFn fun i => if i.val = 15 then 0x81 else 0, fun _ => 0⟩
          ⟨Vector.ofFn fun i => if i.val = 0 then ⟨3, 8⟩ else ⟨0, 0⟩, Vector.replicate _ ⟨0, 0⟩,
            [], []⟩)
        [.interrupt, .bytes [], .bytes [0, 0], .bytes [0, 0], .interrupt, .bytes [1, 0],
          .interrupt, .bytes [2, 0], .sendNextInput true, .complete 0 (.completed [1, 2, 3]),
          .interrupt, .sendNextInput true, .sendNextInput true] = some s ∧
      s.outside = false ∧ s.fw.input.inputDataLen.toNat ≤ maxPayloadSizeEp ∧
      ∀ c ∈ s.fw.upload.configs, c.size.toNat ≤ maxPayloadSizeEp := by
  have hrun : ((exec (ArrayRun.next (fun _ => 8) fun _ => true)
      (ArrayRun.start ⟨[18, 1], [⟨0, 0x0100, 0, 2⟩], [⟨0x81, 3, 8⟩], by decide, by decide,
          by decide⟩
        ⟨Vector.ofFn fun i => if i.val = 15 then 0x81 else 0, fun _ => 0⟩
        ⟨Vector.ofFn fun i => if i.val = 15 then 0x81 else 0, fun _ => 0⟩
        ⟨Vector.ofFn fun i => if i.val = 0 then ⟨3, 8⟩ else ⟨0, 0⟩, Vector.replicate _ ⟨0, 0⟩,
          [], []⟩)
      [.interrupt, .bytes [], .bytes [0, 0], .bytes [0, 0], .interrupt, .bytes [1, 0],
        .interrupt, .bytes [2, 0], .sendNextInput true, .complete 0 (.completed [1, 2, 3]),
        .interrupt, .sendNextInput true, .sendNextInput true]).map
          fun s => s.fw.input.inputDataLen) = some 3 := by
    decide +kernel
  obtain ⟨s, hs, _⟩ := Option.map_eq_some_iff.1 hrun
  have hall := arrays_inside _ _ _ _ hs
  exact ⟨s, hs, hall.1, hall.2.2.1, hall.2.2.2.2 (EndpointMaps.start 0 0)
    [⟨0, [], [⟨[⟨[⟨0x81, 3, 8⟩]⟩]⟩], rfl⟩] (by decide +kernel)⟩

end SerialUsb
