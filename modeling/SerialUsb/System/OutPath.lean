import SerialUsb.Firmware.Output
import SerialUsb.Proxy.EndpointMaps
import SerialUsb.Transition.Run

/-!
# The way of the OUT packets

The target host puts packets into the free banks of the OUT endpoints at any time
between the steps of `ReceiveNextOutput`, and `USB_USBTask` puts other packets on the
serial line. A short packet is released by `Endpoint_Read_Stream_LE`, and its
endpoint is cleared once more behind it: a packet that the controller has accepted in
between is lost. `outPath_delivered_iff` says that this is the only way to lose one.
-/

namespace SerialUsb

open Framing Memory Transition

/-- The firmware's OUT side: its tables, the banks, the next step and the bytes on
the line, with the packets released and sent so far. -/
structure OutPath where
  configs : List EndpointConfig
  outputs : Outputs
  banks : Banks
  phase : OutputPhase
  line : List UInt8
  released : List (UInt8 × List UInt8)
  sent : List (UInt8 × List UInt8)

inductive OutEvent where
  /-- the controller accepts a packet for an endpoint -/
  | arrive (endpoint : UInt8) (packet : List UInt8)
  /-- a step of `ReceiveNextOutput` -/
  | mainLoop
  /-- `USB_USBTask` or `SendNextInput` puts a packet on the line -/
  | other (f : PacketFrame)

/-- The target host sends packets of at most `wMaxPacketSize` bytes. -/
def OutPath.Accepts (s : OutPath) (endpoint : UInt8) (packet : List UInt8) : Prop :=
  endpoint ≠ 0 ∧ s.banks endpoint = none ∧ packet.length ≤ maxPayloadSizeEp ∧
    ∀ c ∈ s.configs, c.number = endpoint → packet.length ≤ c.size.toNat

instance (s : OutPath) (endpoint : UInt8) (packet : List UInt8) :
    Decidable (s.Accepts endpoint packet) :=
  inferInstanceAs (Decidable (_ ∧ _))

/-- Other packets are sent between two calls of `ReceiveNextOutput` and inside the
`USB_USBTask` of `Endpoint_Read_Stream_LE`. -/
def OutputPhase.allowsOther : OutputPhase → Bool
  | .idle | .inTask _ _ => true
  | _ => false

def OutPath.next (s : OutPath) : OutEvent → Option OutPath
  | .arrive endpoint packet =>
      if s.Accepts endpoint packet then
        some { s with banks := Function.update s.banks endpoint (some ⟨packet, packet⟩) }
      else none
  | .mainLoop =>
      let step := receiveNextOutput s.configs s.outputs s.banks s.phase
      some { s with
        outputs := step.outputs
        banks := step.banks
        phase := step.phase
        line := s.line ++ step.bytes
        released := s.released ++ step.released.toList
        sent := s.sent ++ step.sent.toList }
  | .other f =>
      if s.phase.allowsOther = true ∧ f.type ≠ PacketType.eTypeOut.toByte then
        some { s with line := s.line ++ f.encode }
      else none

/-- The packet that the firmware has released and not sent yet. -/
def OutputPhase.inTransit : OutputPhase → List (UInt8 × List UInt8)
  | .inTask c data | .returned c data true => [(c.number, data)]
  | .sending c data => if data ≠ [] then [(c.number, data)] else []
  | _ => []

def OutPath.accepted (s : OutPath) : List (UInt8 × List UInt8) :=
  s.released.filter fun x => x.2 ≠ []

def Proxy.writeOut (p : Proxy) (endpoint : UInt8) (payload : List UInt8) : Proxy :=
  let (usb, ret) := gusbWrite p.usb endpoint payload payload.length
  { p with usb := usb, done := p.done || decide (ret < 0) }

/-- Every packet released is sent once, in order and with its bytes; however the proxy
reads the line, it calls `process_packet` for it once, and that writes the payload
once to the endpoint that the number is mapped to. -/
structure OutPath.Delivered (s : OutPath) : Prop where
  accepted : ∀ endpoint, payloadsOf endpoint s.accepted =
    payloadsOf endpoint s.sent ++ payloadsOf endpoint s.phase.inTransit
  received : ∀ (realloc : ℕ → Bool) (p : Proxy) (chunks : List (List UInt8))
    (session : Session Proxy), (∀ n, realloc n = true) →
    exec (Session.recv realloc processPacket) (Session.start p) chunks = some session →
    chunks.flatten = s.line →
      ((session.delivered.map SPacket.frame).filter fun f =>
        f.type = PacketType.eTypeOut.toByte).map Frame.value = s.sent.map fun x => x.1 :: x.2
  writes : ∀ x ∈ s.sent, ∀ (p : Proxy) (packet : SPacket),
    packet.frame.type = PacketType.eTypeOut.toByte → packet.frame.value = x.1 :: x.2 →
      p.serialToUsb.get x.1.toNat ≠ 0 →
        (processPacket p packet).1 = p.writeOut (p.serialToUsb.get x.1.toNat) x.2

/-- The second `Endpoint_ClearOUT` for a short packet finds no other packet. -/
def OutPath.NoLateArrival (s : OutPath) (e : OutEvent) : Prop :=
  e = .mainLoop → ∀ c data b, s.phase = .returned c data true →
    s.banks c.number = some b → b.packet = []

instance (s : OutPath) (e : OutEvent) : Decidable (s.NoLateArrival e) :=
  decidable_of_iff
    ((match e, s.phase with
      | .mainLoop, .returned c _ true => (s.banks c.number).all fun b => b.packet = []
      | _, _ => true) = true) <| by
    unfold OutPath.NoLateArrival
    split
    next c data hcase =>
      rw [Option.all_eq_true, hcase]
      refine ⟨?_, fun h b hb => decide_eq_true (h rfl c data b rfl hb)⟩
      rintro h - c' data' b ⟨⟩ hb
      exact of_decide_eq_true (h b hb)
    next hother =>
      exact ⟨fun _ he c data b hcase => absurd hcase (hother c data he), fun _ => rfl⟩

theorem processPacket_out (p : Proxy) {packet : SPacket} {endpoint : UInt8}
    {payload : List UInt8} (hlen : payload.length ≤ maxPayloadSizeEp)
    (htype : packet.frame.type = PacketType.eTypeOut.toByte)
    (hvalue : packet.frame.value = endpoint :: payload)
    (hmapped : p.serialToUsb.get endpoint.toNat ≠ 0) :
    (processPacket p packet).1 = p.writeOut (p.serialToUsb.get endpoint.toNat) payload := by
  rw [maxPayloadSizeEp_eq] at hlen
  have hvalue' : packet.value.take packet.length.toNat = endpoint :: payload := hvalue
  have hlength : packet.length.toNat = payload.length + 1 := by
    have hcount := congrArg List.length hvalue'
    rw [List.length_take, packet.value_length, List.length_cons] at hcount
    omega
  have hsplit : packet.value = endpoint :: (payload ++ packet.value.drop (payload.length + 1)) := by
    have happend := List.take_append_drop packet.length.toNat packet.value
    rw [hvalue', hlength] at happend
    exact happend.symm
  have hcount : unsignedSub packet.length.toNat 1 = payload.length := by
    rw [unsignedSub_of_le (by omega) (by omega), hlength]
    rfl
  have hwriteCount : ∀ data, writeCount (p.serialToUsb.get endpoint.toNat) data payload.length =
      payload.length := by
    intro data
    unfold writeCount
    rw [if_neg fun h => hmapped h.1]
  have hwrite : ∀ rest, gusbWrite p.usb (p.serialToUsb.get endpoint.toNat) (payload ++ rest)
      payload.length =
      gusbWrite p.usb (p.serialToUsb.get endpoint.toNat) payload payload.length := by
    intro rest
    unfold gusbWrite
    simp only [hwriteCount, List.take_left, List.take_length]
  have hfault : ∀ data, writeFaults p.usb (p.serialToUsb.get endpoint.toNat) data payload.length =
      false := by
    intro data
    unfold writeFaults
    rw [hwriteCount]
    have hsmall : ¬ 2 ^ 31 ≤ payload.length := by omega
    exact decide_eq_false fun h => hsmall h.2
  have hsend : sendOutPacket p packet =
      ({ p with usb := (gusbWrite p.usb (p.serialToUsb.get endpoint.toNat) payload
          payload.length).1 },
        (gusbWrite p.usb (p.serialToUsb.get endpoint.toNat) payload payload.length).2) := by
    unfold sendOutPacket
    rw [hsplit]
    simp only [List.headD_cons, List.drop_one, List.tail_cons, hcount, hwrite, hfault,
      Bool.or_false]
  have hbyte : packet.type = PacketType.eTypeOut.toByte := htype
  unfold processPacket dispatchPacket Proxy.writeOut
  rw [hbyte, PacketType.ofByte?_toByte]
  simp only [hsend]
  split
  next hneg => simp [hneg]
  next hpos => simp [hpos]

def Unread (banks : Banks) (except : Option UInt8) : Prop :=
  ∀ endpoint b, banks endpoint = some b → some endpoint ≠ except → b.unread = b.packet

def OutputPhase.Holds (configs : List EndpointConfig) (banks : Banks) : OutputPhase → Prop
  | .idle => Unread banks none
  | .selected c => (c ∈ configs ∨ c.number = 0) ∧ Unread banks none
  | .received c =>
      (c ∈ configs ∨ c.number = 0) ∧ Unread banks none ∧ (banks c.number).isSome
  | .reading c data =>
      (c ∈ configs ∨ c.number = 0) ∧ Unread banks (some c.number) ∧
        ∃ b, banks c.number = some b ∧ b.packet = data ++ b.unread ∧ b.packet ≠ []
  | .inTask _ data | .returned _ data true =>
      Unread banks none ∧ data ≠ [] ∧ data.length ≤ maxPayloadSizeEp
  | .returned c data false =>
      Unread banks (some c.number) ∧ ∃ b, banks c.number = some b ∧ b.packet = data
  | .sending _ data => Unread banks none ∧ data.length ≤ maxPayloadSizeEp

def outFrame (endpoint : UInt8) (payload : List UInt8) (h : payload.length ≤ maxPayloadSizeEp) :
    PacketFrame :=
  ⟨PacketType.eTypeOut.toByte, endpoint :: payload, length_cons_payload_le endpoint h⟩

theorem outBytes_eq (endpoint : UInt8) {payload : List UInt8}
    (h : payload.length ≤ maxPayloadSizeEp) :
    outBytes endpoint payload = (outFrame endpoint payload h).encode := by
  unfold outBytes outFrame Frame.encode
  rw [List.length_cons, UInt8.ofNat_add]
  rfl

structure OutPath.Inv (s : OutPath) : Prop where
  fits : ∀ endpoint b, s.banks endpoint = some b → endpoint ≠ 0 ∧
    b.packet.length ≤ maxPayloadSizeEp ∧
    ∀ c ∈ s.configs, c.number = endpoint → b.packet.length ≤ c.size.toNat
  phase : s.phase.Holds s.configs s.banks
  accepted : s.accepted = s.sent ++ s.phase.inTransit
  line : ∃ fs : List PacketFrame, s.line = fs.flatMap Frame.encode ∧
    (fs.filter fun f => f.type = PacketType.eTypeOut.toByte).map Frame.value =
      s.sent.map fun x => x.1 :: x.2
  short : ∀ x ∈ s.sent, x.2.length ≤ maxPayloadSizeEp

section Step

variable {s t : OutPath}

theorem payloadsOf_append (endpoint : UInt8) (l m : List (UInt8 × List UInt8)) :
    payloadsOf endpoint (l ++ m) = payloadsOf endpoint l ++ payloadsOf endpoint m := by
  unfold payloadsOf
  rw [List.filter_append, List.map_append]

theorem OutPath.Inv.delivered (h : s.Inv) : s.Delivered where
  accepted := by
    intro endpoint
    rw [h.accepted, payloadsOf_append]
  received := by
    intro realloc p chunks session halloc hrun hstream
    obtain ⟨fs, hline, hvalues⟩ := h.line
    obtain ⟨_, _, hframes, _⟩ := Session.run_frames halloc hrun
    rw [← hframes, hstream, hline, frames_flatMap maxPacketValueSize_lt]
    exact hvalues
  writes := fun x hx p _ htype hvalue hmapped =>
    processPacket_out p (h.short x hx) htype hvalue hmapped

theorem OutputPhase.Holds.accepts {configs : List EndpointConfig} {banks banks' : Banks}
    {phase : OutputPhase} (h : phase.Holds configs banks)
    (hunread : ∀ except, Unread banks except → Unread banks' except)
    (hkeep : ∀ e b, banks e = some b → banks' e = some b) : phase.Holds configs banks' := by
  cases phase with
  | idle => exact hunread none h
  | selected c => exact ⟨h.1, hunread none h.2⟩
  | received c =>
      obtain ⟨hc, hall, hsome⟩ := h
      obtain ⟨b, hb⟩ := Option.isSome_iff_exists.1 hsome
      exact ⟨hc, hunread none hall, Option.isSome_iff_exists.2 ⟨b, hkeep _ b hb⟩⟩
  | reading c data =>
      obtain ⟨hc, hall, b, hb, hrest⟩ := h
      exact ⟨hc, hunread _ hall, b, hkeep _ b hb, hrest⟩
  | inTask c data => exact ⟨hunread none h.1, h.2⟩
  | returned c data short =>
      cases short with
      | true => exact ⟨hunread none h.1, h.2⟩
      | false =>
          obtain ⟨hall, b, hb, hrest⟩ := h
          exact ⟨hunread _ hall, b, hkeep _ b hb, hrest⟩
  | sending c data => exact ⟨hunread none h.1, h.2⟩

theorem OutPath.Inv.arrive (h : s.Inv) {endpoint : UInt8} {packet : List UInt8}
    (ht : s.next (.arrive endpoint packet) = some t) : t.Inv := by
  simp only [OutPath.next] at ht
  split at ht
  case isFalse => exact absurd ht (by simp)
  case isTrue haccepts =>
    obtain ⟨hne, hfree, hshort, hsize⟩ := haccepts
    obtain rfl := Option.some.inj ht
    have hunread : ∀ except, Unread s.banks except →
        Unread (Function.update s.banks endpoint (some ⟨packet, packet⟩)) except := by
      intro except hunread e b hb hexcept
      by_cases he : e = endpoint
      · subst he
        rw [Function.update_self] at hb
        rw [← Option.some.inj hb]
      · rw [Function.update_of_ne he] at hb
        exact hunread e b hb hexcept
    -- the bank the main loop is reading is not free
    have hkeep : ∀ e b, s.banks e = some b →
        Function.update s.banks endpoint (some ⟨packet, packet⟩) e = some b := by
      intro e b hb
      have he : e ≠ endpoint := by
        rintro rfl
        rw [hfree] at hb
        exact absurd hb (by simp)
      rw [Function.update_of_ne he]
      exact hb
    refine ⟨?_, ?_, h.accepted, h.line, h.short⟩
    · intro e b hb
      by_cases he : e = endpoint
      · subst he
        change Function.update s.banks e _ e = some b at hb
        rw [Function.update_self] at hb
        rw [← Option.some.inj hb]
        exact ⟨hne, hshort, hsize⟩
      · change Function.update s.banks endpoint _ e = some b at hb
        rw [Function.update_of_ne he] at hb
        exact h.fits e b hb
    · exact h.phase.accepts hunread hkeep

theorem OutPath.Inv.other (h : s.Inv) {f : PacketFrame}
    (ht : s.next (.other f) = some t) : t.Inv := by
  simp only [OutPath.next] at ht
  split at ht
  case isFalse => exact absurd ht (by simp)
  case isTrue hother =>
    obtain rfl := Option.some.inj ht
    obtain ⟨fs, hline, hvalues⟩ := h.line
    refine ⟨h.fits, h.phase, h.accepted, ⟨fs ++ [f], ?_, ?_⟩, h.short⟩
    · rw [hline, List.flatMap_append, List.flatMap_singleton]
    · rw [List.filter_append, List.filter_cons_of_neg (by simpa using hother.2), List.filter_nil,
        List.append_nil]
      exact hvalues

theorem clearOut_some {banks : Banks} {endpoint e : UInt8} {b : Bank}
    (h : (clearOut banks endpoint).1 e = some b) : e ≠ endpoint ∧ banks e = some b := by
  by_cases he : e = endpoint
  · subst he
    exact absurd h (by simp [clearOut])
  · refine ⟨he, ?_⟩
    rw [← h]
    exact (Function.update_of_ne he _ _).symm

theorem Unread.clearOut {banks : Banks} {endpoint : UInt8}
    (h : Unread banks (some endpoint)) : Unread (clearOut banks endpoint).1 none := by
  intro e b hb _
  obtain ⟨he, hb⟩ := clearOut_some hb
  exact h e b hb fun heq => he (Option.some.inj heq)

theorem Unread.some {banks : Banks} (h : Unread banks none) (endpoint : UInt8) :
    Unread banks (some endpoint) :=
  fun e b hb _ => h e b hb (Option.some_ne_none e)

theorem OutPath.Inv.silent (h : s.Inv) {outputs : Outputs} {banks : Banks} {phase : OutputPhase}
    (hfits : ∀ endpoint b, banks endpoint = some b →
      ∃ b', s.banks endpoint = some b' ∧ b'.packet = b.packet)
    (hphase : phase.Holds s.configs banks) (htransit : phase.inTransit = s.phase.inTransit) :
    OutPath.Inv { s with outputs := outputs, banks := banks, phase := phase } where
  fits := by
    intro endpoint b hb
    obtain ⟨b', hb', hpacket⟩ := hfits endpoint b hb
    rw [← hpacket]
    exact h.fits endpoint b' hb'
  phase := hphase
  accepted := by
    rw [htransit]
    exact h.accepted
  line := h.line
  short := h.short

/-- The packet that is released when a bank is cleared, unless it is empty. -/
def Banks.releases (banks : Banks) (endpoint : UInt8) : List (UInt8 × List UInt8) :=
  (clearOut banks endpoint).2.toList.filter fun x => x.2 ≠ []

theorem Banks.releases_of_some {banks : Banks} {endpoint : UInt8} {b : Bank}
    (h : banks endpoint = some b) :
    banks.releases endpoint = if b.packet ≠ [] then [(endpoint, b.packet)] else [] := by
  unfold Banks.releases clearOut
  rw [h, Option.map_some, Option.toList_some]
  by_cases hempty : b.packet = []
  · rw [if_neg (not_not.2 hempty), List.filter_cons_of_neg (by simpa using hempty)]
    rfl
  · rw [if_pos hempty, List.filter_cons_of_pos (by simpa using hempty)]
    rfl

theorem Banks.releases_of_none {banks : Banks} {endpoint : UInt8} (h : banks endpoint = none) :
    banks.releases endpoint = [] := by
  unfold Banks.releases clearOut
  rw [h]
  rfl

theorem OutPath.Inv.clears (h : s.Inv) {endpoint : UInt8} {phase : OutputPhase}
    (hphase : phase.Holds s.configs (clearOut s.banks endpoint).1)
    (htransit : s.phase.inTransit ++ s.banks.releases endpoint = phase.inTransit) :
    OutPath.Inv { s with
      banks := (clearOut s.banks endpoint).1
      phase := phase
      released := s.released ++ (clearOut s.banks endpoint).2.toList } where
  fits := by
    intro e b hb
    exact h.fits e b (clearOut_some hb).2
  phase := hphase
  accepted := by
    have hfilter : (s.released ++ (clearOut s.banks endpoint).2.toList).filter
        (fun x => x.2 ≠ []) = s.accepted ++ s.banks.releases endpoint :=
      List.filter_append ..
    refine hfilter.trans ?_
    rw [h.accepted, List.append_assoc, htransit]
  line := h.line
  short := h.short

section MainLoop

variable {c : EndpointConfig} {data : List UInt8}

theorem OutPath.Inv.selects (h : s.Inv) (hcase : s.phase = .idle)
    (ht : s.next .mainLoop = some t) : t.Inv := by
  have hphase := h.phase
  rw [hcase] at hphase
  obtain rfl := Option.some.inj ht
  rw [hcase]
  simp only [receiveNextOutput]
  cases hnext : s.outputs.selectNext with
  | mk outputs index =>
      cases index with
      | none =>
          simp only [Option.toList_none, List.append_nil]
          exact h.silent (fun _ b hb => ⟨b, hb, rfl⟩) hphase (by rw [hcase])
      | some i =>
          simp only [Option.toList_none, List.append_nil]
          refine h.silent (fun _ b hb => ⟨b, hb, rfl⟩) ⟨?_, hphase⟩ (by rw [hcase]; rfl)
          rw [List.getD_eq_getElem?_getD]
          cases hget : s.configs[i.toNat]? with
          | none => exact Or.inr rfl
          | some c => exact Or.inl (List.mem_of_getElem? hget)

theorem OutPath.Inv.tests (h : s.Inv) (hcase : s.phase = .selected c)
    (ht : s.next .mainLoop = some t) : t.Inv := by
  have hphase := h.phase
  rw [hcase] at hphase
  obtain rfl := Option.some.inj ht
  rw [hcase]
  simp only [receiveNextOutput, Option.toList_none, List.append_nil]
  by_cases hsome : (s.banks c.number).isSome = true
  · rw [if_pos hsome]
    exact h.silent (fun _ b hb => ⟨b, hb, rfl⟩) ⟨hphase.1, hphase.2, hsome⟩ (by rw [hcase]; rfl)
  · rw [if_neg hsome]
    exact h.silent (fun _ b hb => ⟨b, hb, rfl⟩) hphase.2 (by rw [hcase]; rfl)

theorem OutPath.Inv.enters (h : s.Inv) (hcase : s.phase = .received c)
    (ht : s.next .mainLoop = some t) : t.Inv := by
  have hphase := h.phase
  rw [hcase] at hphase
  obtain ⟨hc, hall, hsome⟩ := hphase
  obtain ⟨b, hb⟩ := Option.isSome_iff_exists.1 hsome
  have hunread := hall _ b hb (Option.some_ne_none _)
  obtain rfl := Option.some.inj ht
  rw [hcase]
  simp only [receiveNextOutput, Option.toList_none, List.append_nil, hb, Option.map_some,
    Option.getD_some, hunread]
  by_cases hempty : b.packet = []
  · rw [if_neg (not_not.2 hempty)]
    exact h.silent (fun _ b hb => ⟨b, hb, rfl⟩) ⟨hall.some _, b, hb, hempty⟩ (by rw [hcase]; rfl)
  · rw [if_pos hempty]
    exact h.silent (fun _ b hb => ⟨b, hb, rfl⟩)
      ⟨hc, hall.some _, b, hb, hunread.symm, hempty⟩ (by rw [hcase]; rfl)

theorem OutPath.Inv.reads (h : s.Inv) (hcase : s.phase = .reading c data)
    (ht : s.next .mainLoop = some t) : t.Inv := by
  have hphase := h.phase
  rw [hcase] at hphase
  obtain ⟨hc, hall, ⟨packet, unread⟩, hb, hpacket, hne⟩ := hphase
  obtain ⟨hnonzero, hshort, hsize⟩ := h.fits _ _ hb
  have hle := hsize c (hc.resolve_right hnonzero) rfl
  obtain rfl := Option.some.inj ht
  rw [hcase]
  simp only [receiveNextOutput]
  by_cases hlt : data.length < c.size.toNat
  · rw [if_pos hlt]
    cases unread with
    | nil =>
        -- the packet is shorter than the endpoint
        simp only [hb, Option.toList_none, List.append_nil]
        have hdata : packet = data := by simpa using hpacket
        subst hdata
        refine h.clears ⟨hall.clearOut, hne, hshort⟩ ?_
        rw [hcase, Banks.releases_of_some hb, if_pos hne]
        rfl
    | cons byte unread =>
        simp only [hb, Option.toList_none, List.append_nil]
        have hupdate : ∀ e b', Function.update s.banks c.number (some ⟨packet, unread⟩) e = some b' →
            e = c.number ∧ b' = ⟨packet, unread⟩ ∨ e ≠ c.number ∧ s.banks e = some b' := by
          intro e b' hb'
          by_cases he : e = c.number
          · subst he
            rw [Function.update_self] at hb'
            exact Or.inl ⟨rfl, (Option.some.inj hb').symm⟩
          · rw [Function.update_of_ne he] at hb'
            exact Or.inr ⟨he, hb'⟩
        refine h.silent ?_ ⟨hc, ?_, ⟨packet, unread⟩, Function.update_self _ _ _, ?_, hne⟩
          (by rw [hcase]; rfl)
        · intro e b' hb'
          rcases hupdate e b' hb' with ⟨rfl, rfl⟩ | ⟨_, hb'⟩
          · exact ⟨_, hb, rfl⟩
          · exact ⟨b', hb', rfl⟩
        · intro e b' hb' hexcept
          rcases hupdate e b' hb' with ⟨rfl, _⟩ | ⟨_, hb'⟩
          · exact absurd rfl hexcept
          · exact hall e b' hb' hexcept
        · rw [List.append_assoc]
          exact hpacket
  · rw [if_neg hlt]
    simp only [Option.toList_none, List.append_nil]
    have hpacket' : packet = data ++ unread := hpacket
    have hlength := congrArg List.length hpacket'
    rw [List.length_append] at hlength
    have hdone : unread = [] := by
      apply List.length_eq_zero_iff.1
      change packet.length ≤ c.size.toNat at hle
      omega
    rw [hdone, List.append_nil] at hpacket'
    exact h.silent (fun _ b hb => ⟨b, hb, rfl⟩) ⟨hall, _, hb, hpacket'⟩ (by rw [hcase]; rfl)

theorem OutPath.Inv.returns (h : s.Inv) {short : Bool} (hcase : s.phase = .returned c data short)
    (hlate : s.NoLateArrival .mainLoop) (ht : s.next .mainLoop = some t) : t.Inv := by
  have hphase := h.phase
  rw [hcase] at hphase
  obtain rfl := Option.some.inj ht
  rw [hcase]
  simp only [receiveNextOutput, Option.toList_none, List.append_nil]
  cases short with
  | true =>
      obtain ⟨hall, hne, hshort⟩ := hphase
      have hlate' := fun b => hlate rfl c data b hcase
      refine h.clears ⟨(hall.some _).clearOut, hshort⟩ ?_
      have hnothing : s.banks.releases c.number = [] := by
        cases hb : s.banks c.number with
        | none => exact Banks.releases_of_none hb
        | some b => rw [Banks.releases_of_some hb, if_neg (not_not.2 (hlate' b hb))]
      rw [hcase, hnothing]
      exact (if_pos hne).symm
  | false =>
      obtain ⟨hall, b, hb, hpacket⟩ := hphase
      obtain ⟨_, hshort, _⟩ := h.fits _ b hb
      refine h.clears ⟨hall.clearOut, hpacket ▸ hshort⟩ ?_
      rw [hcase, Banks.releases_of_some hb, hpacket]
      rfl

theorem OutPath.Inv.sends (h : s.Inv) (hcase : s.phase = .sending c data)
    (ht : s.next .mainLoop = some t) : t.Inv := by
  have hphase := h.phase
  rw [hcase] at hphase
  obtain ⟨hall, hshort⟩ := hphase
  obtain rfl := Option.some.inj ht
  rw [hcase]
  simp only [receiveNextOutput]
  by_cases hempty : data = []
  · rw [if_neg (not_not.2 hempty)]
    simp only [Option.toList_none, List.append_nil]
    refine h.silent (fun _ b hb => ⟨b, hb, rfl⟩) hall ?_
    rw [hcase]
    exact (if_neg (not_not.2 hempty)).symm
  · rw [if_pos hempty]
    simp only [Option.toList_none, List.append_nil, Option.toList_some]
    have htransit : s.phase.inTransit = [(c.number, data)] := by
      rw [hcase]
      exact if_pos hempty
    obtain ⟨fs, hline, hvalues⟩ := h.line
    refine ⟨h.fits, hall, ?_, ⟨fs ++ [outFrame c.number data hshort], ?_, ?_⟩, ?_⟩
    · change s.accepted = (s.sent ++ [(c.number, data)]) ++ []
      rw [h.accepted, htransit, List.append_nil]
    · rw [hline, outBytes_eq _ hshort, List.flatMap_append, List.flatMap_singleton]
    · rw [List.filter_append, List.map_append, List.map_append, hvalues]
      rfl
    · intro x hx
      rcases List.mem_append.1 hx with hx | hx
      · exact h.short x hx
      · rw [List.mem_singleton.1 hx]
        exact hshort

end MainLoop

theorem OutPath.Inv.mainLoop (h : s.Inv) (hlate : s.NoLateArrival .mainLoop)
    (ht : s.next .mainLoop = some t) : t.Inv := by
  cases hcase : s.phase with
  | idle => exact h.selects hcase ht
  | selected c => exact h.tests hcase ht
  | received c => exact h.enters hcase ht
  | reading c data => exact h.reads hcase ht
  | inTask c data =>
      have hphase := h.phase
      rw [hcase] at hphase
      obtain rfl := Option.some.inj ht
      rw [hcase]
      simp only [receiveNextOutput, Option.toList_none, List.append_nil]
      exact h.silent (fun _ b hb => ⟨b, hb, rfl⟩) hphase (by rw [hcase]; rfl)
  | returned c data short => exact h.returns hcase hlate ht
  | sending c data => exact h.sends hcase ht

theorem OutPath.Inv.next (h : s.Inv) {e : OutEvent} (hlate : s.NoLateArrival e)
    (ht : s.next e = some t) : t.Inv := by
  cases e with
  | arrive endpoint packet => exact h.arrive ht
  | mainLoop => exact h.mainLoop hlate ht
  | other f => exact h.other ht

/-- A packet that the second `Endpoint_ClearOUT` drops is never sent. -/
theorem OutPath.Inv.noLateArrival (h : s.Inv) {e : OutEvent} (ht : s.next e = some t)
    (hdelivered : t.Delivered) : s.NoLateArrival e := by
  rintro rfl c data b hcase hb
  by_contra hne
  have hphase := h.phase
  rw [hcase] at hphase
  have haccepted := hdelivered.accepted c.number
  obtain rfl := Option.some.inj ht
  rw [hcase] at haccepted
  simp only [receiveNextOutput, Option.toList_none, List.append_nil, OutPath.accepted,
    List.filter_append] at haccepted
  have hreleases : (clearOut s.banks c.number).2.toList.filter (fun x => x.2 ≠ []) =
      [(c.number, b.packet)] :=
    (Banks.releases_of_some hb).trans (if_pos hne)
  have hbefore : s.released.filter (fun x => x.2 ≠ []) = s.sent ++ [(c.number, data)] := by
    have hinv := h.accepted
    rw [hcase] at hinv
    exact hinv
  have htransit : (OutputPhase.sending c data).inTransit = [(c.number, data)] :=
    if_pos hphase.2.1
  rw [hreleases, hbefore, htransit, payloadsOf_append, payloadsOf_append] at haccepted
  have hcount := congrArg List.length haccepted
  rw [List.length_append, List.length_append] at hcount
  have hone : (payloadsOf c.number [(c.number, b.packet)]).length = 1 := by
    simp [payloadsOf]
  omega

end Step

structure OutPath.Fresh (s : OutPath) : Prop where
  banks : ∀ endpoint, s.banks endpoint = none
  phase : s.phase = .idle
  line : s.line = []
  released : s.released = []
  sent : s.sent = []

theorem OutPath.Fresh.inv {s : OutPath} (h : s.Fresh) : s.Inv where
  fits := by
    intro endpoint b hb
    rw [h.banks] at hb
    exact absurd hb (by simp)
  phase := by
    rw [h.phase]
    intro endpoint b hb
    rw [h.banks] at hb
    exact absurd hb (by simp)
  accepted := by
    rw [OutPath.accepted, h.released, h.sent, h.phase]
    rfl
  line := ⟨[], by rw [h.line]; rfl, by rw [h.sent]; rfl⟩
  short := by
    intro x hx
    rw [h.sent] at hx
    exact absurd hx List.not_mem_nil

/-- The OUT path is lossless and ordered all along a run exactly when no packet is
accepted between the two `Endpoint_ClearOUT` for a short one. -/
theorem outPath_delivered_iff {s t : OutPath} (h : s.Fresh) {es : List OutEvent}
    (hrun : exec OutPath.next s es = some t) :
    Always OutPath.next OutPath.Delivered s es ↔
      Along OutPath.next OutPath.NoLateArrival s es :=
  always_iff_along (I := OutPath.Inv) (fun _ _ _ hs hlate hnext => hs.next hlate hnext)
    (fun _ _ _ hs _ hnext =>
      ⟨fun hdelivered => hs.noLateArrival hnext hdelivered,
        fun hlate => (hs.next hlate hnext).delivered⟩)
    h.inv h.inv.delivered hrun

def oneOutput : OutPath where
  configs := [⟨1, 3, 8⟩]
  outputs := ⟨Vector.replicate _ 0, 0, 1⟩
  banks := fun _ => none
  phase := .idle
  line := []
  released := []
  sent := []

theorem oneOutput_fresh : oneOutput.Fresh := ⟨fun _ => rfl, rfl, rfl, rfl, rfl⟩

/-- Two packets, the second one when the endpoint has been cleared twice. -/
theorem outPath_delivered_two :
    ∃ t, exec OutPath.next oneOutput
        ([.arrive 1 [5, 6]] ++ List.replicate 8 .mainLoop ++ [.arrive 1 [7]] ++
          List.replicate 9 .mainLoop) = some t ∧
      t.sent = [(1, [5, 6]), (1, [7])] ∧
      Always OutPath.next OutPath.Delivered oneOutput
        ([.arrive 1 [5, 6]] ++ List.replicate 8 .mainLoop ++ [.arrive 1 [7]] ++
          List.replicate 9 .mainLoop) := by
  have hrun : (exec OutPath.next oneOutput
      ([.arrive 1 [5, 6]] ++ List.replicate 8 .mainLoop ++ [.arrive 1 [7]] ++
        List.replicate 9 .mainLoop)).map OutPath.sent = some [(1, [5, 6]), (1, [7])] := by
    decide +kernel
  obtain ⟨t, ht, hsent⟩ := Option.map_eq_some_iff.1 hrun
  exact ⟨t, ht, hsent, (outPath_delivered_iff oneOutput_fresh ht).2 (by decide +kernel)⟩

/-- The second packet arrives one step earlier, and is lost. -/
theorem outPath_lateArrival :
    ∃ t, exec OutPath.next oneOutput
        ([.arrive 1 [5, 6]] ++ List.replicate 7 .mainLoop ++ [.arrive 1 [7]] ++
          List.replicate 2 .mainLoop) = some t ∧
      t.phase = .idle ∧ payloadsOf 1 t.accepted = [[5, 6], [7]] ∧
      payloadsOf 1 t.sent = [[5, 6]] ∧ ¬ t.Delivered := by
  have hrun : (exec OutPath.next oneOutput
      ([.arrive 1 [5, 6]] ++ List.replicate 7 .mainLoop ++ [.arrive 1 [7]] ++
        List.replicate 2 .mainLoop)).map (fun t => (t.phase, t.accepted, t.sent)) =
      some (.idle, [(1, [5, 6]), (1, [7])], [(1, [5, 6])]) := by
    decide +kernel
  obtain ⟨t, ht, heq⟩ := Option.map_eq_some_iff.1 hrun
  obtain ⟨hphase, haccepted, hsent⟩ : t.phase = .idle ∧ t.accepted = [(1, [5, 6]), (1, [7])] ∧
      t.sent = [(1, [5, 6])] := by
    simpa using heq
  refine ⟨t, ht, hphase, by rw [haccepted]; decide, by rw [hsent]; decide, fun h => ?_⟩
  have hlost := h.accepted 1
  rw [haccepted, hsent, hphase] at hlost
  exact absurd hlost (by decide)

end SerialUsb
