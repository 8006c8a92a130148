import SerialUsb.Firmware.Upload
import SerialUsb.Proxy.Descriptors
import SerialUsb.Transition.Run

/-!
# The start-up handshake

The proxy and the firmware joined by the two directions of the serial line, from
the call of `send_descriptors` on. The proxy reads the line in any pieces, the
transfers of its USB device end in any way, and it may leave its loop at any time
once `done` is set; `gpoll` can return much later. Behind the loop `gusb_close` handles
events until the transfers have ended. The firmware takes the packets of the proxy in
its interrupt; once it has started, its main loop writes its own variables and any bytes.

The invariant compares the packets the interrupt has taken and those still on
the line with the upload: the descriptors, the index once it was asked for, the
endpoints once they were asked for, and packets that carry no upload behind them.
-/

namespace SerialUsb

open Framing Memory Transition

/-- The tables the proxy uploads, within the sizes of the arrays. -/
structure Tables where
  desc : List UInt8
  descIndex : List DescriptorIndex
  endpoints : List EndpointConfig
  desc_le : desc.length ≤ maxDescriptorsSize
  descIndex_le : descIndex.length ≤ maxDescriptors
  endpoints_le : endpoints.length ≤ maxEndpoints

def Tables.index (t : Tables) : List UInt8 := t.descIndex.flatMap DescriptorIndex.bytes

def Tables.config (t : Tables) : List UInt8 := t.endpoints.flatMap EndpointConfig.bytes

/-- The two parties, the bytes on the way to the proxy, and what has happened:
the bytes the interrupt has taken, those it has sent, those the main loop has
sent, and all the firmware has sent in order. -/
structure Startup where
  session : Session Proxy
  exited : Bool
  fw : Firmware
  toProxy : List UInt8
  consumed : List UInt8
  ackBytes : List UInt8
  mainBytes : List UInt8
  fwBytes : List UInt8

def Startup.proxy (s : Startup) : Proxy := s.session.user

def Startup.setProxy (s : Startup) (p : Proxy) : Startup :=
  { s with session := { s.session with user := p } }

def Proxy.collected (t : Tables) (serialToUsb usbToSerial : EndpointTable) (usb : Usb) :
    Proxy :=
  { Proxy.start t.endpoints serialToUsb usbToSerial usb with
    desc := t.desc, descIndex := t.descIndex }

def Startup.startOf (p : Proxy) : Startup where
  session := Session.start p
  exited := false
  fw := Firmware.boot
  toProxy := []
  consumed := []
  ackBytes := []
  mainBytes := []
  fwBytes := []

def Startup.start (t : Tables) (serialToUsb usbToSerial : EndpointTable) (usb : Usb) :
    Startup :=
  Startup.startOf
    ((Proxy.collected t serialToUsb usbToSerial usb).send .eTypeDescriptors t.desc).1

inductive StartupEvent where
  /-- a `read` of the adapter returns `n` bytes -/
  | read (n : ℕ)
  /-- the transfer at a position of the table ends, in the loop or in `gusb_close` -/
  | complete (i : ℕ) (status : TransferStatus)
  /-- one of the callbacks that only set `done`: a timer, the adapter, the device -/
  | close
  /-- the proxy leaves its loop and sends the reset -/
  | exit
  /-- the interrupt takes a packet -/
  | interrupt
  /-- a step of the main loop: what it writes and sends -/
  | mainLoop (slot : ControlSlot) (input : InputBuffer) (bytes : List UInt8)

def Startup.next (s : Startup) : StartupEvent → Option Startup
  | .read n =>
      if s.exited = true ∨ s.toProxy.length < n then none
      else
        (s.session.recv (fun _ => true) processPacket (s.toProxy.take n)).map fun session =>
          { s with session := session, toProxy := s.toProxy.drop n }
  | .complete i status => (usbCallback s.proxy i status).map s.setProxy
  | .close => if s.exited = true then none else some (s.setProxy { s.proxy with done := true })
  | .exit =>
      if s.exited = true ∨ s.proxy.done = false then none
      else some { s.setProxy (s.proxy.send .eTypeReset []).1 with exited := true }
  | .interrupt =>
      let line := s.proxy.serial.line
      (receive s.fw line).map fun (fw, sent, rest) =>
        { s.setProxy (s.proxy.setLine rest) with
          fw := fw
          toProxy := s.toProxy ++ sent
          consumed := s.consumed ++ line.take (line.length - rest.length)
          ackBytes := s.ackBytes ++ sent
          fwBytes := s.fwBytes ++ sent }
  | .mainLoop slot input bytes =>
      if s.fw.upload.started = true ∧ s.fw.halted = false then
        some { s with
          fw := { s.fw with slot := slot, input := input }
          toProxy := s.toProxy ++ bytes
          mainBytes := s.mainBytes ++ bytes
          fwBytes := s.fwBytes ++ bytes }
      else none

/-- The packets of the upload that have been sent when the index (`index`) and
the endpoints (`config`) have been asked for or not. -/
def Tables.sent (t : Tables) (index config : Bool) : List PacketFrame :=
  packets .eTypeDescriptors t.desc ++
    ((if index then packets .eTypeIndex t.index else []) ++
      if config then packets .eTypeEndpoints t.config else [])

theorem Tables.length_index (t : Tables) : t.index.length = 8 * t.descIndex.length := by
  unfold Tables.index
  induction t.descIndex with
  | nil => rfl
  | cons d ds ih =>
      rw [List.flatMap_cons, List.length_append, ih, List.length_cons]
      simp [DescriptorIndex.bytes]
      omega

theorem Tables.length_config (t : Tables) : t.config.length = 3 * t.endpoints.length := by
  unfold Tables.config
  induction t.endpoints with
  | nil => rfl
  | cons c cs ih =>
      rw [List.flatMap_cons, List.length_append, ih, List.length_cons]
      simp [EndpointConfig.bytes]
      omega

theorem Tables.packets_config (t : Tables) :
    ∃ f : PacketFrame, packets .eTypeEndpoints t.config = [f] ∧
      f.type = PacketType.eTypeEndpoints.toByte := by
  have hle : t.config.length ≤ maxPacketValueSize := by
    have h := t.endpoints_le
    rw [t.length_config]
    rw [maxEndpoints_eq] at h
    rw [maxPacketValueSize_eq]
    omega
  exact ⟨_, packets_of_le hle, rfl⟩

section Sent

variable {t : Tables} {i c : Bool} {rt : List PacketFrame}

theorem Tables.ofType_sent_descriptors (hrt : ∀ f ∈ rt, Runtime f) :
    ofType .eTypeDescriptors (t.sent i c ++ rt) = packets .eTypeDescriptors t.desc := by
  have hnil : ofType .eTypeDescriptors rt = [] := ofType_runtime rfl hrt
  cases i <;> cases c <;> simp [Tables.sent, ofType_append, ofType_packets_of_ne, hnil]

theorem Tables.ofType_sent_index (hrt : ∀ f ∈ rt, Runtime f) :
    ofType .eTypeIndex (t.sent i c ++ rt) =
      if i = true then packets .eTypeIndex t.index else [] := by
  have hnil : ofType .eTypeIndex rt = [] := ofType_runtime rfl hrt
  cases i <;> cases c <;> simp [Tables.sent, ofType_append, ofType_packets_of_ne, hnil]

theorem Tables.ofType_sent_endpoints (hrt : ∀ f ∈ rt, Runtime f) :
    ofType .eTypeEndpoints (t.sent i c ++ rt) =
      if c = true then packets .eTypeEndpoints t.config else [] := by
  have hnil : ofType .eTypeEndpoints rt = [] := ofType_runtime rfl hrt
  cases i <;> cases c <;> simp [Tables.sent, ofType_append, ofType_packets_of_ne, hnil]

theorem Tables.fitsUpload_sent (hrt : ∀ f ∈ rt, Runtime f) :
    FitsUpload (t.sent i c ++ rt) where
  descriptors := by
    rw [content, Tables.ofType_sent_descriptors hrt, flatMap_value_packets]
    exact t.desc_le
  descIndex := by
    have hle := t.descIndex_le
    rw [content, Tables.ofType_sent_index hrt]
    split
    · rw [flatMap_value_packets, t.length_index]
      omega
    · exact Nat.zero_le _
  endpoints := by
    have hle := t.endpoints_le
    rw [content, Tables.ofType_sent_endpoints hrt]
    split
    · rw [flatMap_value_packets, t.length_config]
      omega
    · exact Nat.zero_le _
  single := by
    obtain ⟨f, hf, _⟩ := t.packets_config
    rw [Tables.ofType_sent_endpoints hrt]
    split
    · rw [hf]
      exact Nat.le_refl 1
    · exact Nat.zero_le 1

theorem Tables.type_of_mem_sent (hrt : ∀ f ∈ rt, Runtime f) {f : PacketFrame}
    (hf : f ∈ t.sent i c ++ rt) :
    ∃ type : PacketType, (type.isUpload = true ∨ type.isRuntime = true) ∧
      f.type = type.toByte := by
  rcases List.mem_append.1 hf with hf | hf
  · unfold Tables.sent at hf
    simp only [List.mem_append] at hf
    rcases hf with hf | hf | hf
    · exact ⟨.eTypeDescriptors, Or.inl rfl, type_of_mem_packets hf⟩
    · split at hf
      · exact ⟨.eTypeIndex, Or.inl rfl, type_of_mem_packets hf⟩
      · exact absurd hf List.not_mem_nil
    · split at hf
      · exact ⟨.eTypeEndpoints, Or.inl rfl, type_of_mem_packets hf⟩
      · exact absurd hf List.not_mem_nil
  · obtain ⟨type, htype, heq⟩ := hrt f hf
    exact ⟨type, Or.inr htype, heq⟩

/-- When the endpoints have been taken from the line, so has the whole upload. -/
theorem Tables.sent_initial_of_endpoints (hrt : ∀ f ∈ rt, Runtime f)
    {rs fs : List PacketFrame} (hsent : rs ++ fs = t.sent i c ++ rt)
    (hrs : ofType .eTypeEndpoints rs ≠ []) :
    c = true ∧ ∃ rt', rs = t.sent i c ++ rt' ∧ rt = rt' ++ fs := by
  obtain ⟨e, he, hetype⟩ := t.packets_config
  have hc : c = true := by
    by_contra hc
    have hnil := congrArg (ofType .eTypeEndpoints) hsent
    rw [Tables.ofType_sent_endpoints hrt, if_neg hc, ofType_append,
      List.append_eq_nil_iff] at hnil
    exact hrs hnil.1
  refine ⟨hc, ?_⟩
  rcases List.append_eq_append_iff.1 hsent with ⟨as, hsplit, hfs⟩ | ⟨bs, hsplit, hrt'⟩
  · -- the packets taken end inside the upload, whose last packet are the endpoints
    cases hlast : as.reverse with
    | nil =>
        rw [List.reverse_eq_nil_iff] at hlast
        subst hlast
        exact ⟨[], by rw [List.append_nil, hsplit, List.append_nil], by simpa using hfs.symm⟩
    | cons l init =>
        exfalso
        have has : as = init.reverse ++ [l] := by
          rw [← List.reverse_reverse as, hlast, List.reverse_cons]
        have hcount := congrArg (ofType .eTypeEndpoints) hsplit
        have hl : l = e := by
          have hend := congrArg List.getLast? hsplit
          simp [Tables.sent, hc, he, has] at hend
          exact hend.symm
        have hone : (ofType .eTypeEndpoints (t.sent i c)).length = 1 := by
          have h := @Tables.ofType_sent_endpoints t i c [] (by simp)
          rw [List.append_nil, if_pos hc, he] at h
          rw [h]
          rfl
        rw [hcount, has, ofType_append, ofType_concat (hl ▸ hetype), if_pos rfl] at hone
        have hpos := List.length_pos_iff.2 hrs
        simp at hone
        omega
  · exact ⟨bs, hsplit, hrt'⟩

end Sent

def Startup.Received (s : Startup) (type : PacketType) : Prop :=
  ∃ p ∈ s.session.delivered, p.type = type.toByte

structure Startup.Inv (t : Tables) (s : Startup) (rs fs rt : List PacketFrame)
    (stream : List UInt8) : Prop where
  waiting : s.session.receiver.Waiting
  follows : s.session.Follows stream
  consumed : s.consumed = rs.flatMap Frame.encode
  line : s.proxy.serial.line = fs.flatMap Frame.encode
  writes : s.proxy.serial.writes = []
  sent : rs ++ fs = t.sent s.proxy.descIndexSent s.proxy.endpointsSent ++ rt
  runtime : ∀ f ∈ rt, Runtime f
  quiet : s.fw.upload.started = false → s.exited = false → rt = []
  holds : s.fw.upload.Holds rs
  descIndex : s.proxy.descIndex = t.descIndex
  endpoints : s.proxy.endpoints = t.endpoints
  ackBytes : s.ackBytes = (acks rs).flatMap Frame.encode
  fwBytes : s.fwBytes = s.ackBytes ++ s.mainBytes
  unread : stream ++ s.toProxy = s.fwBytes
  mainBytes : s.fw.upload.started = false → s.mainBytes = []
  transfers : s.fw.upload.started = false → s.proxy.usb.transfers = []
  index_iff : s.proxy.descIndexSent = true ↔ s.Received .eTypeDescriptors
  config_iff : s.proxy.endpointsSent = true ↔ s.Received .eTypeIndex
  order : s.proxy.endpointsSent = true → s.proxy.descIndexSent = true

theorem Startup.inv_start (t : Tables) (serialToUsb usbToSerial : EndpointTable) (usb : Usb) :
    (Startup.start t serialToUsb usbToSerial usb).Inv t []
      (packets .eTypeDescriptors t.desc) [] [] := by
  have hwrites : (Proxy.collected t serialToUsb usbToSerial usb).serial.writes = [] := rfl
  have hadds := Proxy.adds_send hwrites .eTypeDescriptors t.desc
  constructor
  case waiting => exact Receiver.waiting_start
  case follows => exact Session.follows_start _
  case holds => exact Upload.holds_boot
  case line => exact hadds.line
  case writes => exact hadds.writes
  case sent =>
    rw [Startup.proxy, Startup.start, Startup.startOf, Session.start, hadds.descIndexSent,
      hadds.endpointsSent]
    simp [Proxy.collected, Proxy.start, Tables.sent]
  case descIndex => exact hadds.descIndex
  case endpoints => exact hadds.endpoints
  case transfers => exact fun _ => rfl
  case index_iff =>
    rw [Startup.proxy, Startup.start, Startup.startOf, Session.start, hadds.descIndexSent]
    simp [Proxy.collected, Proxy.start, Startup.Received]
  case config_iff =>
    rw [Startup.proxy, Startup.start, Startup.startOf, Session.start, hadds.endpointsSent]
    simp [Proxy.collected, Proxy.start, Startup.Received]
  case order =>
    rw [Startup.proxy, Startup.start, Startup.startOf, Session.start, hadds.endpointsSent]
    exact fun h => absurd h Bool.false_ne_true
  all_goals simp [Startup.start, Startup.startOf, acks]

theorem Session.Follows.delivered_initial {π : Type*} {s : Session π}
    {stream rest main : List UInt8} {fs : List PacketFrame} (h : s.Follows stream)
    (hs : stream ++ rest = fs.flatMap Frame.encode ++ main) :
    s.delivered.map SPacket.frame <+: fs ++ frames maxPacketValueSize main := by
  obtain ⟨tail, rfl, _⟩ := h
  have hframes := congrArg (frames maxPacketValueSize) hs
  rw [List.append_assoc, frames_flatMap_append maxPacketValueSize_lt,
    frames_flatMap_append maxPacketValueSize_lt] at hframes
  exact ⟨_, hframes⟩

section Step

variable {t : Tables} {s : Startup} {rs fs rt : List PacketFrame} {stream : List UInt8}

/-- Once the firmware has started, the whole upload has been taken. -/
theorem Startup.Inv.of_started (h : s.Inv t rs fs rt stream)
    (hstarted : s.fw.upload.started = true) :
    s.proxy.endpointsSent = true ∧ s.proxy.descIndexSent = true ∧
      ∃ rt', rs = t.sent true true ++ rt' ∧ rt = rt' ++ fs := by
  obtain ⟨hconfig, rt', hrs, hrt⟩ :=
    Tables.sent_initial_of_endpoints h.runtime h.sent (h.holds.started.1 hstarted)
  have hindex := h.order hconfig
  rw [hconfig, hindex] at hrs
  exact ⟨hconfig, hindex, rt', hrs, hrt⟩

/-- A packet that reaches the proxy before the start acknowledges one of the same
type. -/
theorem Startup.Inv.exists_of_delivered (h : s.Inv t rs fs rt stream)
    (hstarted : s.fw.upload.started = false) {session : Session Proxy}
    {stream' rest : List UInt8} (hfollows : session.Follows stream')
    (hrest : stream' ++ rest = s.fwBytes) {p : SPacket} (hp : p ∈ session.delivered) :
    ∃ f ∈ rs, f.type = p.type ∧ p.type < PacketType.eTypeReset.toByte := by
  rw [h.fwBytes, h.mainBytes hstarted, h.ackBytes] at hrest
  have hinitial := hfollows.delivered_initial hrest
  rw [frames_of_takeFrame_none rfl, List.append_nil] at hinitial
  have hmem := hinitial.subset (List.mem_map_of_mem hp)
  obtain ⟨f, hf, heq⟩ := List.mem_map.1 hmem
  rw [List.mem_filter] at hf
  have htype : f.type = p.type := congrArg Frame.type heq
  exact ⟨f, hf.1, htype, htype ▸ of_decide_eq_true hf.2⟩

theorem Startup.Inv.addsRuntime (h : s.Inv t rs fs rt stream) {session : Session Proxy}
    {exited : Bool} {toProxy stream' : List UInt8} {gs : List PacketFrame}
    (hwaiting : session.receiver.Waiting) (hfollows : session.Follows stream')
    (hunread : stream' ++ toProxy = s.fwBytes) (hadds : s.proxy.Adds session.user gs)
    (hgs : ∀ f ∈ gs, Runtime f)
    (hquiet : s.fw.upload.started = false → exited = false → gs = [] ∧ s.exited = false)
    (htransfers : s.fw.upload.started = false → session.user.usb.transfers = [])
    (hindex : (∃ p ∈ session.delivered, p.type = PacketType.eTypeDescriptors.toByte) ↔
      s.Received .eTypeDescriptors)
    (hconfig : (∃ p ∈ session.delivered, p.type = PacketType.eTypeIndex.toByte) ↔
      s.Received .eTypeIndex) :
    { s with session := session, exited := exited, toProxy := toProxy }.Inv t rs (fs ++ gs)
      (rt ++ gs) stream' where
  waiting := hwaiting
  follows := hfollows
  consumed := h.consumed
  line := by
    rw [Startup.proxy, hadds.line, h.line, List.flatMap_append]
  writes := hadds.writes
  sent := by
    rw [Startup.proxy, hadds.descIndexSent, hadds.endpointsSent, ← List.append_assoc, h.sent,
      List.append_assoc]
  runtime := by
    intro f hf
    rcases List.mem_append.1 hf with hf | hf
    · exact h.runtime f hf
    · exact hgs f hf
  quiet := by
    intro hstarted hexited
    obtain ⟨hnil, hnot⟩ := hquiet hstarted hexited
    rw [hnil, List.append_nil]
    exact h.quiet hstarted hnot
  holds := h.holds
  descIndex := hadds.descIndex.trans h.descIndex
  endpoints := hadds.endpoints.trans h.endpoints
  ackBytes := h.ackBytes
  fwBytes := h.fwBytes
  unread := hunread
  mainBytes := h.mainBytes
  transfers := htransfers
  index_iff := by
    rw [Startup.proxy, hadds.descIndexSent]
    exact h.index_iff.trans hindex.symm
  config_iff := by
    rw [Startup.proxy, hadds.endpointsSent]
    exact h.config_iff.trans hconfig.symm
  order := by
    rw [Startup.proxy, hadds.descIndexSent, hadds.endpointsSent]
    exact h.order

theorem Startup.Inv.addsUpload (h : s.Inv t rs fs [] stream) {session : Session Proxy}
    {toProxy stream' : List UInt8} {gs : List PacketFrame}
    (hwaiting : session.receiver.Waiting) (hfollows : session.Follows stream')
    (hunread : stream' ++ toProxy = s.fwBytes)
    (hline : session.user.serial.line = s.proxy.serial.line ++ gs.flatMap Frame.encode)
    (hwrites : session.user.serial.writes = [])
    (hdescIndex : session.user.descIndex = s.proxy.descIndex)
    (hendpoints : session.user.endpoints = s.proxy.endpoints)
    (husb : session.user.usb = s.proxy.usb)
    (hsent : t.sent session.user.descIndexSent session.user.endpointsSent =
      t.sent s.proxy.descIndexSent s.proxy.endpointsSent ++ gs)
    (hindex : session.user.descIndexSent = true ↔
      ∃ p ∈ session.delivered, p.type = PacketType.eTypeDescriptors.toByte)
    (hconfig : session.user.endpointsSent = true ↔
      ∃ p ∈ session.delivered, p.type = PacketType.eTypeIndex.toByte)
    (horder : session.user.endpointsSent = true → session.user.descIndexSent = true) :
    { s with session := session, toProxy := toProxy }.Inv t rs (fs ++ gs) [] stream' where
  waiting := hwaiting
  follows := hfollows
  consumed := h.consumed
  line := by
    rw [Startup.proxy, hline, h.line, List.flatMap_append]
  writes := hwrites
  sent := by
    rw [Startup.proxy, hsent, List.append_nil, ← List.append_assoc, h.sent, List.append_nil]
  runtime := h.runtime
  quiet := fun _ _ => rfl
  holds := h.holds
  descIndex := hdescIndex.trans h.descIndex
  endpoints := hendpoints.trans h.endpoints
  ackBytes := h.ackBytes
  fwBytes := h.fwBytes
  unread := hunread
  mainBytes := h.mainBytes
  transfers := by
    rw [Startup.proxy, husb]
    exact h.transfers
  index_iff := hindex
  config_iff := hconfig
  order := horder

theorem Startup.received_concat {session : Session Proxy} {p : SPacket}
    (hdelivered : session.delivered = s.session.delivered ++ [p]) (type : PacketType) :
    (∃ q ∈ session.delivered, q.type = type.toByte) ↔
      s.Received type ∨ p.type = type.toByte := by
  rw [hdelivered]
  simp [Startup.Received, or_and_right, exists_or]

theorem Startup.Inv.nil_of_not_sent (h : s.Inv t rs fs rt stream)
    (hexited : s.exited = false) (hconfig : s.proxy.endpointsSent = false) : rt = [] := by
  apply h.quiet _ hexited
  by_contra hstarted
  rw [(h.of_started (Bool.eq_true_of_not_eq_false hstarted)).1] at hconfig
  exact Bool.false_ne_true hconfig.symm

/-- An acknowledged part of the upload has been sent. -/
theorem Startup.Inv.index_of_mem (h : s.Inv t rs fs rt stream) {f : PacketFrame}
    (hf : f ∈ rs) (htype : f.type = PacketType.eTypeIndex.toByte) :
    s.proxy.descIndexSent = true := by
  by_contra hsent
  have hnil := congrArg (ofType .eTypeIndex) h.sent
  rw [Tables.ofType_sent_index h.runtime, if_neg hsent, ofType_append,
    List.append_eq_nil_iff] at hnil
  exact ofType_ne_nil.2 ⟨f, hf, htype⟩ hnil.1

theorem Startup.Inv.waits (h : s.Inv t rs fs rt stream) (hexited : s.exited = false)
    {session : Session Proxy} {toProxy stream' : List UInt8}
    (hwaiting : session.receiver.Waiting) (hfollows : session.Follows stream')
    (hunread : stream' ++ toProxy = s.fwBytes) (huser : session.user = s.proxy)
    (hdelivered : session.delivered = s.session.delivered) :
    ∃ fs' rt', { s with session := session, toProxy := toProxy }.Inv t rs fs' rt' stream' := by
  have hadds : s.proxy.Adds session.user [] := by
    rw [huser]
    exact .refl h.writes
  refine ⟨_, _, h.addsRuntime hwaiting hfollows hunread hadds (by simp)
    (fun _ _ => ⟨rfl, hexited⟩) (fun hstarted => huser ▸ h.transfers hstarted) ?_ ?_⟩
  · rw [hdelivered]
    rfl
  · rw [hdelivered]
    rfl

section Delivers

variable {session : Session Proxy} {toProxy stream' : List UInt8} {p : SPacket}
  (h : s.Inv t rs fs rt stream) (hexited : s.exited = false)
  (hwaiting : session.receiver.Waiting) (hfollows : session.Follows stream')
  (hunread : stream' ++ toProxy = s.fwBytes)
  (huser : session.user = (processPacket s.proxy p).1)
  (hdelivered : session.delivered = s.session.delivered ++ [p])
include h hexited hwaiting hfollows hunread huser hdelivered

theorem Startup.Inv.delivers_descriptors (hd : p.type = PacketType.eTypeDescriptors.toByte) :
    ∃ fs' rt', { s with session := session, toProxy := toProxy }.Inv t rs fs' rt' stream' := by
  have hreceived := Startup.received_concat hdelivered
  have hne : p.type ≠ PacketType.eTypeIndex.toByte := by
    rw [hd]
    exact PacketType.toByte_injective.ne (by decide)
  rw [processPacket_descriptors h.writes hd] at huser
  by_cases hsent : s.proxy.descIndexSent = true
  · rw [if_pos hsent] at huser
    have hadds : s.proxy.Adds session.user [] := by
      rw [huser]
      exact .refl h.writes
    refine ⟨fs ++ [], rt ++ [], h.addsRuntime hwaiting hfollows hunread hadds (by simp)
      (fun _ _ => ⟨rfl, hexited⟩) (fun hstarted => huser ▸ h.transfers hstarted) ?_ ?_⟩
    · rw [hreceived]
      exact or_iff_left_of_imp fun _ => h.index_iff.1 hsent
    · rw [hreceived]
      exact or_iff_left hne
  · rw [if_neg hsent] at huser
    have hconfig : s.proxy.endpointsSent = false := by
      by_contra hconfig
      exact hsent (h.order (Bool.eq_true_of_not_eq_false hconfig))
    have hrt := h.nil_of_not_sent hexited hconfig
    subst hrt
    refine ⟨_, _, h.addsUpload hwaiting hfollows hunread (by rw [huser]) (by rw [huser])
      (by rw [huser]) (by rw [huser]) (by rw [huser]) ?_ ?_ ?_ ?_⟩
    · rw [huser, h.descIndex]
      simp [Tables.sent, hsent, hconfig, Tables.index]
    · rw [hreceived, huser]
      simp [hd]
    · rw [hreceived, huser]
      simp [hne, h.config_iff]
    · rw [huser]
      exact fun _ => rfl

theorem Startup.Inv.delivers_index (hi : p.type = PacketType.eTypeIndex.toByte) :
    ∃ fs' rt', { s with session := session, toProxy := toProxy }.Inv t rs fs' rt' stream' := by
  have hreceived := Startup.received_concat hdelivered
  have hne : p.type ≠ PacketType.eTypeDescriptors.toByte := by
    rw [hi]
    exact PacketType.toByte_injective.ne (by decide)
  rw [processPacket_index h.writes hi] at huser
  by_cases hsent : s.proxy.endpointsSent = true
  · rw [if_pos hsent] at huser
    have hadds : s.proxy.Adds session.user [] := by
      rw [huser]
      exact .refl h.writes
    refine ⟨fs ++ [], rt ++ [], h.addsRuntime hwaiting hfollows hunread hadds (by simp)
      (fun _ _ => ⟨rfl, hexited⟩) (fun hstarted => huser ▸ h.transfers hstarted) ?_ ?_⟩
    · rw [hreceived]
      exact or_iff_left hne
    · rw [hreceived]
      exact or_iff_left_of_imp fun _ => h.config_iff.1 hsent
  · rw [if_neg hsent] at huser
    have hrt := h.nil_of_not_sent hexited (Bool.eq_false_of_not_eq_true hsent)
    subst hrt
    have hstarted : s.fw.upload.started = false := by
      by_contra hstarted
      exact hsent (h.of_started (Bool.eq_true_of_not_eq_false hstarted)).1
    have hmem : p ∈ session.delivered := by
      rw [hdelivered]
      exact List.mem_append_right _ (List.mem_singleton_self p)
    obtain ⟨f, hf, htype, _⟩ := h.exists_of_delivered hstarted hfollows hunread hmem
    have hindex := h.index_of_mem hf (htype.trans hi)
    refine ⟨_, _, h.addsUpload hwaiting hfollows hunread (by rw [huser]) (by rw [huser])
      (by rw [huser]) (by rw [huser]) (by rw [huser]) ?_ ?_ ?_ ?_⟩
    · rw [huser, h.endpoints]
      simp [Tables.sent, hsent, hindex, Tables.config]
    · rw [hreceived, huser]
      simp [hne, h.index_iff]
    · rw [hreceived, huser]
      simp [hi]
    · rw [huser]
      exact fun _ => hindex

omit hexited in
/-- Any other packet: before the start it acknowledges the endpoints, so that the
firmware has started. -/
theorem Startup.Inv.delivers_other (hd : p.type ≠ PacketType.eTypeDescriptors.toByte)
    (hi : p.type ≠ PacketType.eTypeIndex.toByte) :
    ∃ fs' rt', { s with session := session, toProxy := toProxy }.Inv t rs fs' rt' stream' := by
  have hreceived := Startup.received_concat hdelivered
  have hmem : p ∈ session.delivered := by
    rw [hdelivered]
    exact List.mem_append_right _ (List.mem_singleton_self p)
  have hstarted : s.fw.upload.started = true := by
    by_contra hstarted
    have hnot := Bool.eq_false_of_not_eq_true hstarted
    obtain ⟨f, hf, htype, hlt⟩ := h.exists_of_delivered hnot hfollows hunread hmem
    have he : p.type = PacketType.eTypeEndpoints.toByte := by
      have hd' : p.type.toNat ≠ 0 := fun hz => hd (UInt8.toNat_inj.1 hz)
      have hi' : p.type.toNat ≠ 1 := fun hz => hi (UInt8.toNat_inj.1 hz)
      have hlt' : p.type.toNat < 3 := hlt
      apply UInt8.toNat_inj.1
      change p.type.toNat = 2
      omega
    exact hstarted (h.holds.started.2 (ofType_ne_nil.2 ⟨f, hf, htype.trans he⟩))
  obtain ⟨gs, hadds, hgs⟩ := addsRuntime_processPacket h.writes hd hi
  rw [← huser] at hadds
  refine ⟨fs ++ gs, rt ++ gs, h.addsRuntime hwaiting hfollows hunread hadds hgs
    (fun hnot => ?_) (fun hnot => ?_) ?_ ?_⟩
  · exact absurd (hstarted.symm.trans hnot) (by decide)
  · exact absurd (hstarted.symm.trans hnot) (by decide)
  · rw [hreceived]
    exact or_iff_left hd
  · rw [hreceived]
    exact or_iff_left hi

end Delivers

theorem Startup.Inv.read {s' : Startup} {n : ℕ} (h : s.Inv t rs fs rt stream)
    (hnext : s.next (.read n) = some s') :
    ∃ fs' rt' stream', s'.Inv t rs fs' rt' stream' := by
  simp only [Startup.next] at hnext
  split at hnext
  next => exact absurd hnext (by simp)
  next hcan =>
    rw [not_or, Bool.not_eq_true] at hcan
    obtain ⟨session, hrecv, rfl⟩ := Option.map_eq_some_iff.1 hnext
    have halloc : ∀ n : ℕ, (fun _ => true : ℕ → Bool) n = true := fun _ => rfl
    have hwaiting := Session.waiting_recv halloc h.waiting hrecv
    have hfollows := Session.follows_recv halloc h.waiting h.follows hrecv
    have hunread : (stream ++ s.toProxy.take n) ++ s.toProxy.drop n = s.fwBytes := by
      rw [List.append_assoc, List.take_append_drop, h.unread]
    rcases Session.recv_cases halloc h.waiting hrecv with
      ⟨_, rfl⟩ | ⟨_, _, huser, hdelivered⟩ | ⟨_, _, p, _, huser, hdelivered⟩
    · obtain ⟨fs', rt', hinv⟩ := h.waits hcan.1 hwaiting hfollows hunread rfl rfl
      exact ⟨fs', rt', _, hinv⟩
    · obtain ⟨fs', rt', hinv⟩ := h.waits hcan.1 hwaiting hfollows hunread huser hdelivered
      exact ⟨fs', rt', _, hinv⟩
    · by_cases hd : p.type = PacketType.eTypeDescriptors.toByte
      · obtain ⟨fs', rt', hinv⟩ := h.delivers_descriptors hcan.1 hwaiting hfollows hunread huser
          hdelivered hd
        exact ⟨fs', rt', _, hinv⟩
      by_cases hi : p.type = PacketType.eTypeIndex.toByte
      · obtain ⟨fs', rt', hinv⟩ := h.delivers_index hcan.1 hwaiting hfollows hunread huser
          hdelivered hi
        exact ⟨fs', rt', _, hinv⟩
      · obtain ⟨fs', rt', hinv⟩ := h.delivers_other hwaiting hfollows hunread huser hdelivered
          hd hi
        exact ⟨fs', rt', _, hinv⟩

/-- A step of the proxy besides reading, as long as it does not leave its loop. -/
theorem Startup.Inv.setProxy {q : Proxy} (h : s.Inv t rs fs rt stream)
    (hq : s.proxy.AddsRuntime q)
    (hquiet : s.fw.upload.started = false → q.serial = s.proxy.serial ∧ q.usb = s.proxy.usb) :
    ∃ fs' rt', (s.setProxy q).Inv t rs fs' rt' stream := by
  obtain ⟨gs, hadds, hgs⟩ := hq
  refine ⟨_, _, h.addsRuntime h.waiting h.follows h.unread hadds hgs ?_ ?_ Iff.rfl Iff.rfl⟩
  · intro hstarted hexited
    refine ⟨?_, hexited⟩
    have hline := hadds.line
    rw [(hquiet hstarted).1, List.self_eq_append_right] at hline
    cases gs with
    | nil => rfl
    | cons f gs => simp [f.encode_ne_nil] at hline
  · intro hstarted
    exact (congrArg Usb.transfers (hquiet hstarted).2).trans (h.transfers hstarted)

theorem Startup.Inv.exit {s' : Startup} (h : s.Inv t rs fs rt stream)
    (hnext : s.next .exit = some s') : ∃ fs' rt', s'.Inv t rs fs' rt' stream := by
  simp only [Startup.next] at hnext
  split at hnext
  next => exact absurd hnext (by simp)
  next =>
    obtain rfl := Option.some.inj hnext
    obtain ⟨gs, hadds, hgs⟩ : s.proxy.AddsRuntime (s.proxy.send .eTypeReset []).1 :=
      s.proxy.addsRuntime_send h.writes rfl []
    exact ⟨_, _, h.addsRuntime h.waiting h.follows h.unread hadds hgs
      (fun _ hexited => absurd hexited (by simp)) h.transfers Iff.rfl Iff.rfl⟩

theorem Startup.Inv.interrupt_cases {s' : Startup} (h : s.Inv t rs fs rt stream)
    (hnext : s.next .interrupt = some s') :
    ∃ f fs' type, fs = f :: fs' ∧ f.type = PacketType.toByte type ∧
      (type.isUpload = true ∨ type.isRuntime = true) ∧
      s' = { s.setProxy (s.proxy.setLine (fs'.flatMap Frame.encode)) with
        fw := (SerialUsb.interrupt s.fw type f.value).1
        toProxy := s.toProxy ++ (SerialUsb.interrupt s.fw type f.value).2
        consumed := s.consumed ++ f.encode
        ackBytes := s.ackBytes ++ (SerialUsb.interrupt s.fw type f.value).2
        fwBytes := s.fwBytes ++ (SerialUsb.interrupt s.fw type f.value).2 } := by
  simp only [Startup.next] at hnext
  obtain ⟨⟨fw, sent, rest⟩, hreceive, rfl⟩ := Option.map_eq_some_iff.1 hnext
  have hhalt := not_halted_of_receive hreceive
  cases fs with
  | nil =>
      rw [h.line] at hreceive
      exact absurd hreceive (by simp [receive])
  | cons f fs =>
      have hmem : f ∈ t.sent s.proxy.descIndexSent s.proxy.endpointsSent ++ rt := by
        rw [← h.sent]
        simp
      obtain ⟨type, htype, hf⟩ := Tables.type_of_mem_sent h.runtime hmem
      rw [h.line, List.flatMap_cons, receive_encode hhalt hf htype] at hreceive
      simp only [Option.some.injEq, Prod.mk.injEq] at hreceive
      obtain ⟨rfl, rfl, rfl⟩ := hreceive
      have hbytes : s.proxy.serial.line.take
          (s.proxy.serial.line.length - (List.flatMap Frame.encode fs).length) = f.encode := by
        rw [h.line, List.flatMap_cons, List.length_append, Nat.add_sub_cancel, List.take_left]
      refine ⟨f, fs, type, rfl, hf, htype, ?_⟩
      dsimp only
      rw [hbytes]

/-- Once the firmware has started, only packets behind the upload are left. -/
theorem Startup.Inv.acks_singleton {f : PacketFrame} (h : s.Inv t rs (f :: fs) rt stream)
    (hstarted : s.fw.upload.started = true) : acks [f] = [] := by
  obtain ⟨_, _, rt', _, hrt⟩ := h.of_started hstarted
  have hmem : f ∈ rt := by
    rw [hrt]
    exact List.mem_append_right _ List.mem_cons_self
  obtain ⟨type, htype, hf⟩ := h.runtime f hmem
  cases type <;> simp [PacketType.isRuntime] at htype <;>
    simp [acks, hf, PacketType.toByte]

theorem Startup.Inv.started_or_mainBytes (h : s.Inv t rs fs rt stream) :
    s.fw.upload.started = true ∨ s.mainBytes = [] := by
  by_cases hstarted : s.fw.upload.started = true
  · exact Or.inl hstarted
  · exact Or.inr (h.mainBytes (Bool.eq_false_of_not_eq_true hstarted))

theorem Startup.Inv.interrupt {s' : Startup} (h : s.Inv t rs fs rt stream)
    (hnext : s.next .interrupt = some s') :
    (∃ rs' fs', s'.Inv t rs' fs' rt stream) ∧
      (s.fw.upload.started = true → s'.ackBytes = s.ackBytes) := by
  obtain ⟨f, fs, type, rfl, hf, htype, rfl⟩ := h.interrupt_cases hnext
  have hsent := h.sent
  rw [← List.singleton_append, ← List.append_assoc] at hsent
  have hfit : FitsUpload (rs ++ [f]) := by
    apply FitsUpload.of_append
    rw [hsent]
    exact Tables.fitsUpload_sent h.runtime
  have hholds := h.holds.receives hf hfit
  have hmono := h.holds.started_mono hholds
  have hack : (SerialUsb.interrupt s.fw type f.value).2 = (acks [f]).flatMap Frame.encode :=
    interrupt_snd hf htype
  have hacks : acks (rs ++ [f]) = acks rs ++ acks [f] := by
    simp [acks]
  refine ⟨⟨rs ++ [f], fs, ?_⟩, fun hstarted => by simp [hack, h.acks_singleton hstarted]⟩
  constructor
  case consumed => rw [h.consumed, List.flatMap_append, List.flatMap_singleton]
  case sent => exact hsent
  case quiet => exact fun hstarted hexited => h.quiet (hmono hstarted) hexited
  case holds => exact hholds
  case ackBytes => rw [h.ackBytes, hack, hacks, List.flatMap_append]
  case fwBytes =>
    rcases h.started_or_mainBytes with hstarted | hnil
    · rw [hack, h.acks_singleton hstarted, h.fwBytes]
      simp [Startup.setProxy]
    · rw [h.fwBytes]
      simp [Startup.setProxy, hnil]
  case unread => rw [← List.append_assoc, h.unread]
  case mainBytes => exact fun hstarted => h.mainBytes (hmono hstarted)
  case transfers => exact fun hstarted => h.transfers (hmono hstarted)
  case line => rfl
  case waiting => exact h.waiting
  case follows => exact h.follows
  case writes => exact h.writes
  case runtime => exact h.runtime
  case descIndex => exact h.descIndex
  case endpoints => exact h.endpoints
  case index_iff => exact h.index_iff
  case config_iff => exact h.config_iff
  case order => exact h.order

theorem Startup.Inv.mainLoop {s' : Startup} {slot : ControlSlot} {input : InputBuffer}
    {bytes : List UInt8} (h : s.Inv t rs fs rt stream)
    (hnext : s.next (.mainLoop slot input bytes) = some s') : s'.Inv t rs fs rt stream := by
  simp only [Startup.next] at hnext
  split at hnext
  next hcan =>
    obtain rfl := Option.some.inj hnext
    have hstarted : ∀ q : Prop, s.fw.upload.started = false → q :=
      fun q hnot => absurd (hcan.1.symm.trans hnot) (by decide)
    exact { h with
      quiet := fun hnot => hstarted _ hnot
      holds := h.holds
      fwBytes := by rw [h.fwBytes, List.append_assoc]
      unread := by rw [← List.append_assoc, h.unread]
      mainBytes := hstarted _
      transfers := hstarted _ }
  next => exact absurd hnext (by simp)

theorem Startup.Inv.next {s' : Startup} {e : StartupEvent} (h : s.Inv t rs fs rt stream)
    (hnext : s.next e = some s') : ∃ rs' fs' rt' stream', s'.Inv t rs' fs' rt' stream' := by
  cases e with
  | read n =>
      obtain ⟨fs', rt', stream', h'⟩ := h.read hnext
      exact ⟨rs, fs', rt', stream', h'⟩
  | complete i status =>
      obtain ⟨q, hq, rfl⟩ := Option.map_eq_some_iff.1 hnext
      obtain ⟨fs', rt', h'⟩ := h.setProxy (addsRuntime_usbCallback h.writes hq) fun hstarted => by
        -- before the start no transfer has been submitted
        rw [usbCallback, h.transfers hstarted] at hq
        exact absurd hq (by simp)
      exact ⟨rs, fs', rt', stream, h'⟩
  | close =>
      simp only [Startup.next] at hnext
      split at hnext
      next => exact absurd hnext (by simp)
      next =>
        obtain rfl := Option.some.inj hnext
        obtain ⟨fs', rt', h'⟩ := h.setProxy
          (.of_eq (q := { s.proxy with done := true }) h.writes rfl rfl rfl rfl rfl rfl)
          fun _ => ⟨rfl, rfl⟩
        exact ⟨rs, fs', rt', stream, h'⟩
  | exit =>
      obtain ⟨fs', rt', h'⟩ := h.exit hnext
      exact ⟨rs, fs', rt', stream, h'⟩
  | interrupt =>
      obtain ⟨⟨rs', fs', h'⟩, _⟩ := h.interrupt hnext
      exact ⟨rs', fs', rt, stream, h'⟩
  | mainLoop slot input bytes => exact ⟨rs, fs, rt, stream, h.mainLoop hnext⟩

/-- Once the firmware has started, its arrays hold the tables. -/
theorem Startup.Inv.staged (h : s.Inv t rs fs rt stream)
    (hstarted : s.fw.upload.started = true) :
    s.fw.upload.Staged t.desc t.index t.config := by
  obtain ⟨_, _, rt', hrs, hrt⟩ := h.of_started hstarted
  have hruntime : ∀ f ∈ rt', Runtime f := by
    intro f hf
    apply h.runtime
    rw [hrt]
    exact List.mem_append_left _ hf
  have hstaged := h.holds.staged
  rw [hrs, content, content, content, Tables.ofType_sent_descriptors hruntime,
    Tables.ofType_sent_index hruntime, Tables.ofType_sent_endpoints hruntime, if_pos rfl,
    if_pos rfl, flatMap_value_packets, flatMap_value_packets, flatMap_value_packets] at hstaged
  exact hstaged

/-- The interrupt acknowledges the endpoints at most once. -/
theorem Startup.Inv.endpoints_acks (h : s.Inv t rs fs rt stream) :
    (ofType .eTypeEndpoints (acks rs)).length ≤ 1 := by
  have hfit : FitsUpload (rs ++ fs) := by
    rw [h.sent]
    exact Tables.fitsUpload_sent h.runtime
  have hle := hfit.of_append.single
  have hlen : (ofType .eTypeEndpoints (acks rs)).length ≤ (ofType .eTypeEndpoints rs).length := by
    simp only [ofType, acks, List.filter_map, List.length_map, List.filter_filter]
    apply List.Sublist.length_le
    apply List.monotone_filter_right
    intro f
    simpa using fun htype _ => htype
  omega

end Step

theorem Startup.exec_inv (t : Tables) (serialToUsb usbToSerial : EndpointTable) (usb : Usb)
    {es : List StartupEvent} {s : Startup}
    (hrun : exec Startup.next (Startup.start t serialToUsb usbToSerial usb) es = some s) :
    ∃ rs fs rt stream, s.Inv t rs fs rt stream :=
  exec_invariant (I := fun s => ∃ rs fs rt stream, s.Inv t rs fs rt stream)
    (fun _ _ _ ⟨_, _, _, _, h⟩ hnext => h.next hnext)
    ⟨_, _, _, _, Startup.inv_start t serialToUsb usbToSerial usb⟩ hrun

/-- In every state of every run of the start:

* nothing was written past the arrays of the firmware, and once it has started they
  hold the tables of the proxy and zeros behind them;
* the index and the endpoints have been sent once if the acknowledgement that asks
  for them has come in, however often, and not at all otherwise;
* the firmware has sent its acknowledgements before anything the main loop sends,
  and sends none once it has started;
* the proxy has received packets of these acknowledgements, at most one of which
  acknowledges the endpoints, and then packets of the main loop; so it polls the
  endpoints at most once, unless the main loop sends an acknowledgement itself. -/
theorem startup_handshake (t : Tables) (serialToUsb usbToSerial : EndpointTable) (usb : Usb)
    {es : List StartupEvent} {s : Startup}
    (hrun : exec Startup.next (Startup.start t serialToUsb usbToSerial usb) es = some s) :
    s.fw.upload.overrun = false ∧
    (s.fw.upload.started = true →
      Filled s.fw.upload.descriptors t.desc ∧ Filled s.fw.upload.descIndex t.index ∧
        Filled s.fw.upload.endpoints t.config) ∧
    (∃ sent : List PacketFrame,
      s.consumed ++ s.proxy.serial.line = sent.flatMap Frame.encode ∧
      (s.Received .eTypeDescriptors → ofType .eTypeIndex sent = packets .eTypeIndex t.index) ∧
      (¬ s.Received .eTypeDescriptors → ofType .eTypeIndex sent = []) ∧
      (s.Received .eTypeIndex →
        ofType .eTypeEndpoints sent = packets .eTypeEndpoints t.config) ∧
      (¬ s.Received .eTypeIndex → ofType .eTypeEndpoints sent = [])) ∧
    s.fwBytes = s.ackBytes ++ s.mainBytes ∧
    (∀ s', s.next .interrupt = some s' → s.fw.upload.started = true →
      s'.ackBytes = s.ackBytes) ∧
    (∃ acks : List PacketFrame, s.ackBytes = acks.flatMap Frame.encode ∧
      s.session.delivered.map SPacket.frame <+:
        acks ++ frames maxPacketValueSize s.mainBytes ∧
      (ofType .eTypeEndpoints acks).length ≤ 1 ∧
      (ofType .eTypeEndpoints (frames maxPacketValueSize s.mainBytes) = [] →
        (ofType .eTypeEndpoints (s.session.delivered.map SPacket.frame)).length ≤ 1)) := by
  obtain ⟨rs, fs, rt, stream, h⟩ := Startup.exec_inv t serialToUsb usbToSerial usb hrun
  have hstream := h.unread
  rw [h.fwBytes, h.ackBytes] at hstream
  have hinitial := h.follows.delivered_initial hstream
  refine ⟨h.holds.staged.overrun, fun hstarted => ?_, ⟨rs ++ fs, ?_, ?_, ?_, ?_, ?_⟩, h.fwBytes,
    fun s' hnext => (h.interrupt hnext).2, acks rs, h.ackBytes, hinitial, h.endpoints_acks,
    fun hmain => ?_⟩
  · have hstaged := h.staged hstarted
    exact ⟨hstaged.descriptors, hstaged.descIndex, hstaged.endpoints⟩
  · rw [h.consumed, h.line, List.flatMap_append]
  · intro hreceived
    rw [h.sent, Tables.ofType_sent_index h.runtime, if_pos (h.index_iff.2 hreceived)]
  · intro hreceived
    rw [h.sent, Tables.ofType_sent_index h.runtime, if_neg (mt h.index_iff.1 hreceived)]
  · intro hreceived
    rw [h.sent, Tables.ofType_sent_endpoints h.runtime, if_pos (h.config_iff.2 hreceived)]
  · intro hreceived
    rw [h.sent, Tables.ofType_sent_endpoints h.runtime, if_neg (mt h.config_iff.1 hreceived)]
  · have hle := (hinitial.sublist.filter fun f : PacketFrame =>
      f.type = PacketType.eTypeEndpoints.toByte).length_le
    rw [List.filter_append, List.length_append] at hle
    have hacks := h.endpoints_acks
    have hzero := congrArg List.length hmain
    rw [List.length_nil] at hzero
    unfold ofType at hacks hzero ⊢
    omega

/-- A start with one descriptor and one endpoint, whose table is kept by both
sides, up to the acknowledgement of the endpoints. -/
theorem startup_handshake_one :
    ∃ s : Startup,
      exec Startup.next
        (Startup.start ⟨[18, 1], [⟨0, 0x0100, 0, 2⟩], [⟨0x81, 3, 8⟩], by decide, by decide,
            by decide⟩
          ⟨Vector.replicate 30 0, fun _ => 0⟩ ⟨Vector.replicate 30 0, fun _ => 0⟩
          ⟨Vector.replicate 15 ⟨0, 0⟩, Vector.replicate 15 ⟨0, 0⟩, [], []⟩)
        [.interrupt, .read 0, .read 1, .read 1, .interrupt, .read 2, .interrupt, .read 2] =
        some s ∧
      s.fw.upload.started = true ∧ Filled s.fw.upload.descriptors [18, 1] := by
  have hrun : ((exec Startup.next
      (Startup.start ⟨[18, 1], [⟨0, 0x0100, 0, 2⟩], [⟨0x81, 3, 8⟩], by decide, by decide,
          by decide⟩
        ⟨Vector.replicate 30 0, fun _ => 0⟩ ⟨Vector.replicate 30 0, fun _ => 0⟩
        ⟨Vector.replicate 15 ⟨0, 0⟩, Vector.replicate 15 ⟨0, 0⟩, [], []⟩)
      [.interrupt, .read 0, .read 1, .read 1, .interrupt, .read 2, .interrupt, .read 2]).map
        fun s => s.fw.upload.started) = some true := by
    decide +kernel
  obtain ⟨s, hs, hstarted⟩ := Option.map_eq_some_iff.1 hrun
  exact ⟨s, hs, hstarted, ((startup_handshake _ _ _ _ hs).2.1 hstarted).1⟩

end SerialUsb
