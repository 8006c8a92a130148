import SerialUsb.Adapter.Delivered
import SerialUsb.System.Shutdown

/-!
# The start gets through

The handshake of the start has no way to get stuck. As long as the proxy is in its loop, with
`done` not set, and has not read the acknowledgement of the endpoints, the interrupt can take a
packet or the adapter can read a byte. Both lower a measure that nothing else raises: what is
left of the upload, and the acknowledgements that the proxy has not read. So whatever the order
of the steps, the start is over after at most so many of them.
-/

namespace SerialUsb

open Framing Memory Transition

def Tables.size (t : Tables) : ℕ := ((t.sent true true).flatMap Frame.encode).length

instance (s : Startup) (type : PacketType) : Decidable (s.Received type) :=
  inferInstanceAs (Decidable (∃ p ∈ s.session.delivered, p.type = type.toByte))

/-- The steps that bring the start on: the interrupt takes a packet of the upload, or the adapter
reads a byte before `done` is set. The adapter asks for no byte in its first read. -/
def Startup.Advances (s : Startup) : StartupEvent → Prop
  | .interrupt => s.exited = false ∧ s.fw.upload.started = false
  | .read n => s.proxy.done = false ∧ ¬ s.Received .eTypeEndpoints ∧
      (0 < n ∨ s.session.receiver.read.count = 0)
  | .complete _ _ | .close | .exit | .mainLoop _ _ _ => False

instance (s : Startup) (e : StartupEvent) : Decidable (s.Advances e) :=
  match e with
  | .interrupt => inferInstanceAs (Decidable (_ ∧ _))
  | .read _ => inferInstanceAs (Decidable (_ ∧ _))
  | .complete _ _ | .close | .exit | .mainLoop _ _ _ => isFalse id

/-- What is left of the start: twice the bytes of the upload that the interrupt has not taken,
and the bytes of the acknowledgements that the proxy has not read. -/
def Startup.left (t : Tables) (s : Startup) : ℕ :=
  if s.exited then 0
  else
    2 * (t.size - s.consumed.length) +
      (s.ackBytes.length - (s.fwBytes.length - s.toProxy.length)) +
      if s.session.receiver.read.count = 0 then 1 else 0

theorem packets_ne_nil (type : PacketType) (data : List UInt8) : packets type data ≠ [] := by
  intro hnil
  have hlen := length_message (show 0 < maxPacketValueSize by decide) type.toByte data
  rw [packets] at hnil
  rw [hnil, List.length_nil] at hlen
  omega

theorem Tables.length_sent_le (t : Tables) (i c : Bool) :
    ((t.sent i c).flatMap Frame.encode).length ≤ t.size := by
  cases i <;> cases c <;> simp [Tables.size, Tables.sent]

section Step

variable {t : Tables} {s s' : Startup} {rs fs rt : List PacketFrame} {stream : List UInt8}

theorem Startup.Inv.length_stream (h : s.Inv t rs fs rt stream) :
    s.fwBytes.length - s.toProxy.length = stream.length := by
  have hunread := congrArg List.length h.unread
  rw [List.length_append] at hunread
  omega

/-- When the proxy has read all of the acknowledgements, it has received each of them. -/
theorem Startup.Inv.received (h : s.Inv t rs fs rt stream)
    (hread : s.ackBytes.length ≤ stream.length) {type : PacketType}
    (htype : type.toByte < PacketType.eTypeReset.toByte) (hrs : ofType type rs ≠ []) :
    s.Received type := by
  obtain ⟨rest, hrest⟩ : s.ackBytes <+: stream :=
    List.prefix_of_prefix_length_le ⟨s.mainBytes, h.fwBytes.symm⟩ ⟨s.toProxy, h.unread⟩ hread
  rw [h.ackBytes] at hrest
  have hframes := (h.follows.frames_eq h.waiting).1
  rw [← hrest, frames_flatMap_append maxPacketValueSize_lt] at hframes
  obtain ⟨f, hf, hftype⟩ := ofType_ne_nil.1 hrs
  have hack : (⟨f.type, [], Nat.zero_le _⟩ : PacketFrame) ∈ acks rs :=
    List.mem_map.2 ⟨f, List.mem_filter.2 ⟨hf, decide_eq_true (hftype ▸ htype)⟩, rfl⟩
  have hmem : (⟨f.type, [], Nat.zero_le _⟩ : PacketFrame) ∈
      s.session.delivered.map SPacket.frame := by
    rw [← hframes]
    exact List.mem_append_left _ hack
  obtain ⟨p, hp, hpf⟩ := List.mem_map.1 hmem
  exact ⟨p, hp, (congrArg Frame.type hpf).trans hftype⟩

/-- As long as the endpoints are not acknowledged, an acknowledgement is missing: the proxy has
not read all that the firmware has sent, or not received it. -/
theorem Startup.Inv.length_stream_lt (h : s.Inv t rs fs rt stream)
    (hnot : ¬ s.Received .eTypeEndpoints) (hmore : s.toProxy ≠ []) :
    stream.length < s.ackBytes.length := by
  by_contra hread
  have hall : s.ackBytes.length ≤ stream.length := not_lt.1 hread
  by_cases hstarted : s.fw.upload.started = true
  · exact hnot (h.received hall (by decide) (h.holds.started.1 hstarted))
  · -- only acknowledgements are on the way before the start
    have hunread := congrArg List.length h.unread
    rw [h.fwBytes, h.mainBytes (Bool.eq_false_of_not_eq_true hstarted), List.append_nil,
      List.length_append] at hunread
    exact hmore (List.length_eq_zero_iff.1 (by omega))

theorem Startup.Inv.left_read {n : ℕ} (h : s.Inv t rs fs rt stream)
    (hnext : s.next (.read n) = some s') :
    s'.left t ≤ s.left t ∧ (s.Advances (.read n) → s'.left t < s.left t) := by
  simp only [Startup.next] at hnext
  split at hnext
  next => exact absurd hnext (by simp)
  next hcan =>
    rw [not_or, Bool.not_eq_true, not_lt] at hcan
    obtain ⟨session, hrecv, rfl⟩ := Option.map_eq_some_iff.1 hnext
    have hcount := Session.count_recv (fun _ => rfl) h.waiting hrecv
    have hasked : (s.toProxy.take n).length ≤ s.session.receiver.read.count :=
      (Option.ite_none_right_eq_some.1 hrecv).1
    have hunread := congrArg List.length h.unread
    rw [List.length_append] at hunread
    simp only [Startup.left, hcan.1, Bool.false_eq_true, if_false, List.length_drop, if_neg hcount]
    refine ⟨?_, fun hadvances => ?_⟩
    · split <;> omega
    · obtain ⟨_, hnot, hn | hzero⟩ := hadvances
      · have hmore : s.toProxy ≠ [] := by
          intro hnil
          rw [hnil, List.length_nil] at hcan
          omega
        have hlt := h.length_stream_lt hnot hmore
        split <;> omega
      · rw [if_pos hzero]
        omega

theorem Startup.Inv.left_interrupt (h : s.Inv t rs fs rt stream)
    (hnext : s.next .interrupt = some s') :
    s'.left t ≤ s.left t ∧ (s.Advances .interrupt → s'.left t < s.left t) := by
  obtain ⟨f, fs, type, rfl, hf, htype, rfl⟩ := h.interrupt_cases hnext
  have hack : (SerialUsb.interrupt s.fw type f.value).2 = (acks [f]).flatMap Frame.encode :=
    interrupt_snd hf htype
  have hstream := h.length_stream
  have hencode : f.encode.length = 2 + f.value.length := by
    rw [Frame.encode, List.length_cons, List.length_cons]
    omega
  have hshort : ((acks [f]).flatMap Frame.encode).length ≤ 2 := by
    by_cases hupload : f.type < PacketType.eTypeReset.toByte
    · simp [acks, hupload, Frame.encode]
    · simp [acks, hupload]
  cases hexited : s.exited with
  | true => simp [Startup.left, Startup.setProxy, hexited, Startup.Advances]
  | false =>
      by_cases hstarted : s.fw.upload.started = true
      · -- no acknowledgement is sent any more
        rw [h.acks_singleton hstarted] at hack
        simp only [Startup.left, Startup.setProxy, hexited, hack, List.flatMap_nil,
          List.append_nil, List.length_append, Startup.Advances, hstarted]
        refine ⟨?_, by simp⟩
        simp only [Bool.false_eq_true, if_false]
        omega
      · have hnot := Bool.eq_false_of_not_eq_true hstarted
        have hsize : s.consumed.length + f.encode.length ≤ t.size := by
          refine le_trans ?_ (t.length_sent_le s.proxy.descIndexSent s.proxy.endpointsSent)
          have hsent := h.sent
          rw [h.quiet hnot hexited, List.append_nil] at hsent
          rw [← hsent, h.consumed, List.flatMap_append, List.flatMap_cons, List.length_append,
            List.length_append]
          omega
        simp only [Startup.left, Startup.setProxy, hexited, hack, Bool.false_eq_true, if_false,
          List.length_append, Startup.proxy, Proxy.setLine]
        have hlt : 2 * (t.size - (s.consumed.length + f.encode.length)) +
            (s.ackBytes.length + ((acks [f]).flatMap Frame.encode).length - stream.length) <
            2 * (t.size - s.consumed.length) + (s.ackBytes.length - stream.length) := by
          have hread : stream.length ≤ s.ackBytes.length := by
            have hunread := congrArg List.length h.unread
            rw [h.fwBytes, h.mainBytes hnot, List.append_nil, List.length_append] at hunread
            omega
          omega
        have hsame : s.fwBytes.length + ((acks [f]).flatMap Frame.encode).length -
            (s.toProxy.length + ((acks [f]).flatMap Frame.encode).length) = stream.length := by
          omega
        rw [hsame, hstream]
        exact ⟨by omega, fun _ => by omega⟩

/-- A step that is no step of the interrupt or of the adapter leaves the measure, or it ends
the loop of the proxy. -/
theorem Startup.Inv.left_next (h : s.Inv t rs fs rt stream) {e : StartupEvent}
    (hnext : s.next e = some s') :
    s'.left t ≤ s.left t ∧ (s.Advances e → s'.left t < s.left t) := by
  cases e with
  | interrupt => exact h.left_interrupt hnext
  | read n => exact h.left_read hnext
  | complete i status =>
      obtain ⟨q, _, rfl⟩ := Option.map_eq_some_iff.1 hnext
      exact ⟨Nat.le_refl _, False.elim⟩
  | close =>
      obtain ⟨_, hclose⟩ := Option.ite_none_left_eq_some.1 hnext
      obtain rfl := Option.some.inj hclose
      exact ⟨Nat.le_refl _, False.elim⟩
  | exit =>
      obtain ⟨_, hexit⟩ := Option.ite_none_left_eq_some.1 hnext
      obtain rfl := Option.some.inj hexit
      refine ⟨?_, False.elim⟩
      rw [Startup.left, if_pos rfl]
      exact Nat.zero_le _
  | mainLoop slot input bytes =>
      obtain ⟨_, hmain⟩ := Option.ite_none_right_eq_some.1 hnext
      obtain rfl := Option.some.inj hmain
      refine ⟨Nat.le_of_eq ?_, False.elim⟩
      simp only [Startup.left, List.length_append, Nat.add_sub_add_right]

/-- As long as the endpoints are not acknowledged, a step can advance. -/
theorem Startup.Inv.advances (h : s.Inv t rs fs rt stream) (hends : s.Ends)
    (hexited : s.exited = false) (hdone : s.proxy.done = false)
    (hnot : ¬ s.Received .eTypeEndpoints) :
    ∃ e s', s.Advances e ∧ s.next e = some s' := by
  have hread : ∀ n, n ≤ s.toProxy.length → n ≤ s.session.receiver.read.count →
      ∃ s', s.next (.read n) = some s' := by
    intro n hn hcount
    have hlen : (s.toProxy.take n).length ≤ s.session.receiver.read.count :=
      (List.length_take_le n _).trans hcount
    have hcan : ¬ (s.exited = true ∨ s.toProxy.length < n) := by
      rw [hexited]
      simpa using hn
    exact ⟨_, by rw [Startup.next, if_neg hcan, Session.recv, if_pos hlen]; rfl⟩
  by_cases hzero : s.session.receiver.read.count = 0
  · -- the first read
    obtain ⟨s', hs'⟩ := hread 0 (Nat.zero_le _) (Nat.zero_le _)
    exact ⟨.read 0, s', ⟨hdone, hnot, Or.inr hzero⟩, hs'⟩
  by_cases hmore : s.toProxy = []
  · have hall : s.ackBytes.length ≤ stream.length := by
      have hunread := congrArg List.length h.unread
      rw [hmore, List.append_nil, h.fwBytes, List.length_append] at hunread
      omega
    have hstarted : s.fw.upload.started = false := by
      by_contra hstarted
      exact hnot (h.received hall (by decide)
        (h.holds.started.1 (Bool.eq_true_of_not_eq_false hstarted)))
    have hsent := h.sent
    rw [h.quiet hstarted hexited, List.append_nil] at hsent
    cases fs with
    | nil =>
        -- every packet has been taken, so the next part of the upload has been asked for
        exfalso
        rw [List.append_nil] at hsent
        have hdescriptors : ofType .eTypeDescriptors rs ≠ [] := by
          rw [hsent, ← List.append_nil (t.sent _ _), Tables.ofType_sent_descriptors (by simp)]
          exact packets_ne_nil _ _
        have hindexSent := h.index_iff.2 (h.received hall (by decide) hdescriptors)
        have hindex : ofType .eTypeIndex rs ≠ [] := by
          rw [hsent, ← List.append_nil (t.sent _ _), Tables.ofType_sent_index (by simp),
            if_pos hindexSent]
          exact packets_ne_nil _ _
        have hconfigSent := h.config_iff.2 (h.received hall (by decide) hindex)
        have hconfig : ofType .eTypeEndpoints rs ≠ [] := by
          rw [hsent, ← List.append_nil (t.sent _ _), Tables.ofType_sent_endpoints (by simp),
            if_pos hconfigSent]
          exact packets_ne_nil _ _
        exact Bool.false_ne_true (hstarted.symm.trans (h.holds.started.2 hconfig))
    | cons f fs =>
        have hmem : f ∈ t.sent s.proxy.descIndexSent s.proxy.endpointsSent ++ [] := by
          rw [List.append_nil, ← hsent]
          exact List.mem_append_right _ List.mem_cons_self
        obtain ⟨type, htype, hf⟩ := Tables.type_of_mem_sent (by simp) hmem
        have hreceive := receive_encode (hends.running hexited).1 hf htype
          (fs.flatMap Frame.encode)
        rw [← List.flatMap_cons, ← h.line] at hreceive
        exact ⟨.interrupt, _, ⟨hexited, hstarted⟩, by rw [Startup.next, hreceive]; rfl⟩
  · obtain ⟨s', hs'⟩ := hread (min s.session.receiver.read.count s.toProxy.length)
      (Nat.min_le_right _ _) (Nat.min_le_left _ _)
    have hpos := List.length_pos_iff.2 hmore
    exact ⟨.read _, s', ⟨hdone, hnot, Or.inl (by omega)⟩, hs'⟩

/-- As long as the endpoints are not acknowledged, a packet that is delivered is an
acknowledgement. -/
theorem Startup.Inv.type_lt_of_delivers (h : s.Inv t rs fs rt stream)
    (hnot : ¬ s.Received .eTypeEndpoints) {session : Session Proxy} {stream' rest : List UInt8}
    (hfollows : session.Follows stream') (hunread : stream' ++ rest = s.fwBytes) {p : SPacket}
    (hdelivered : session.delivered = s.session.delivered ++ [p]) :
    p.type < PacketType.eTypeReset.toByte := by
  have hwhole := h.unread
  rw [h.fwBytes, h.ackBytes] at hunread hwhole
  have hnew := hfollows.delivered_initial hunread
  have hold := h.follows.delivered_initial hwhole
  rw [hdelivered, List.map_append, List.map_singleton] at hnew
  by_cases hmore : s.session.delivered.length < (acks rs).length
  · -- it is one of the acknowledgements
    have hacks : s.session.delivered.map SPacket.frame ++ [p.frame] <+: acks rs := by
      refine List.prefix_of_prefix_length_le hnew (List.prefix_append _ _) ?_
      rw [List.length_append, List.length_map]
      exact hmore
    have hmem : p.frame ∈ acks rs :=
      hacks.subset (List.mem_append_right _ (List.mem_singleton_self _))
    obtain ⟨f, hf, heq⟩ := List.mem_map.1 hmem
    have htype : f.type = p.type := congrArg Frame.type heq
    exact htype ▸ of_decide_eq_true (List.mem_filter.1 hf).2
  · -- all of them have been delivered, the last one too
    exfalso
    rw [not_lt] at hmore
    have hacks : acks rs <+: s.session.delivered.map SPacket.frame := by
      refine List.prefix_of_prefix_length_le (List.prefix_append _ _) hold ?_
      rwa [List.length_map]
    by_cases hstarted : s.fw.upload.started = true
    · obtain ⟨f, hf, hftype⟩ := ofType_ne_nil.1 (h.holds.started.1 hstarted)
      have hupload : f.type < PacketType.eTypeReset.toByte := by
        rw [hftype]
        decide
      have hack : (⟨f.type, [], Nat.zero_le _⟩ : PacketFrame) ∈ acks rs :=
        List.mem_map.2 ⟨f, List.mem_filter.2 ⟨hf, decide_eq_true hupload⟩, rfl⟩
      obtain ⟨p', hp', heq⟩ := List.mem_map.1 (hacks.subset hack)
      exact hnot ⟨p', hp', (congrArg Frame.type heq).trans hftype⟩
    · rw [h.mainBytes (Bool.eq_false_of_not_eq_true hstarted), frames_of_takeFrame_none rfl,
        List.append_nil] at hnew
      have hle := hnew.length_le
      rw [List.length_append, List.length_map, List.length_singleton] at hle
      omega

theorem Startup.Inv.done_read {n : ℕ} (h : s.Inv t rs fs rt stream)
    (hdone : s.proxy.done = false) (hnot : ¬ s.Received .eTypeEndpoints)
    (hnext : s.next (.read n) = some s') :
    s'.Received .eTypeEndpoints ∨ s'.proxy.done = false := by
  obtain ⟨_, hread⟩ := Option.ite_none_left_eq_some.1 hnext
  obtain ⟨session, hrecv, rfl⟩ := Option.map_eq_some_iff.1 hread
  have halloc : ∀ n : ℕ, (fun _ => true : ℕ → Bool) n = true := fun _ => rfl
  have hfollows := Session.follows_recv halloc h.waiting h.follows hrecv
  have hunread : (stream ++ s.toProxy.take n) ++ s.toProxy.drop n = s.fwBytes := by
    rw [List.append_assoc, List.take_append_drop, h.unread]
  rcases Session.recv_cases halloc h.waiting hrecv with
    ⟨_, rfl⟩ | ⟨_, _, huser, _⟩ | ⟨_, _, p, _, huser, hdelivered⟩
  · exact Or.inr hdone
  · exact Or.inr ((congrArg Proxy.done huser).trans hdone)
  · have hlt := h.type_lt_of_delivers hnot hfollows hunread hdelivered
    replace huser : session.user = (processPacket s.proxy p).1 := huser
    by_cases hd : p.type = PacketType.eTypeDescriptors.toByte
    · right
      rw [processPacket_descriptors h.writes hd] at huser
      change session.user.done = false
      rw [huser]
      split <;> exact hdone
    by_cases hi : p.type = PacketType.eTypeIndex.toByte
    · right
      rw [processPacket_index h.writes hi] at huser
      change session.user.done = false
      rw [huser]
      split <;> exact hdone
    · left
      refine ⟨p, ?_, ?_⟩
      · change p ∈ session.delivered
        rw [hdelivered]
        exact List.mem_append_right _ (List.mem_singleton_self p)
      · have hd' : p.type.toNat ≠ 0 := fun hz => hd (UInt8.toNat_inj.1 hz)
        have hi' : p.type.toNat ≠ 1 := fun hz => hi (UInt8.toNat_inj.1 hz)
        have hlt' : p.type.toNat < 3 := hlt
        apply UInt8.toNat_inj.1
        change p.type.toNat = 2
        omega

theorem Startup.Inv.done_advances {e : StartupEvent} (h : s.Inv t rs fs rt stream)
    (hdone : s.proxy.done = false) (hadvances : s.Advances e) (hnext : s.next e = some s') :
    s'.Received .eTypeEndpoints ∨ s'.proxy.done = false := by
  cases e with
  | read n => exact h.done_read hdone hadvances.2.1 hnext
  | interrupt =>
      obtain ⟨_, _, rfl⟩ := Option.map_eq_some_iff.1 hnext
      exact Or.inr hdone
  | complete i status => exact hadvances.elim
  | close => exact hadvances.elim
  | exit => exact hadvances.elim
  | mainLoop slot input bytes => exact hadvances.elim

theorem Startup.Inv.started_of_received (h : s.Inv t rs fs rt stream)
    (hreceived : s.Received .eTypeEndpoints) : s.fw.upload.started = true := by
  by_contra hnot
  obtain ⟨p, hp, htype⟩ := hreceived
  obtain ⟨f, hf, hftype, _⟩ :=
    h.exists_of_delivered (Bool.eq_false_of_not_eq_true hnot) h.follows h.unread hp
  exact hnot (h.holds.started.2 (ofType_ne_nil.2 ⟨f, hf, hftype.trans htype⟩))

end Step

theorem Startup.measures (t : Tables) :
    Measures Startup.next Startup.Advances (Startup.Runs t) (Startup.left t) where
  keeps := fun _ _ _ h hnext => h.next hnext
  le := by
    rintro s e s' ⟨⟨_, _, _, _, h⟩, _⟩ hnext
    exact (h.left_next hnext).1
  lt := by
    rintro s e s' ⟨⟨_, _, _, _, h⟩, _⟩ hnext hadvances
    exact (h.left_next hnext).2 hadvances

theorem Startup.exited_of_advances {s s' : Startup} {e : StartupEvent} (h : s.Advances e)
    (hnext : s.next e = some s') : s'.exited = s.exited := by
  cases e with
  | read n =>
      obtain ⟨_, hread⟩ := Option.ite_none_left_eq_some.1 hnext
      obtain ⟨session, _, rfl⟩ := Option.map_eq_some_iff.1 hread
      rfl
  | interrupt =>
      obtain ⟨_, _, rfl⟩ := Option.map_eq_some_iff.1 hnext
      rfl
  | complete i status => exact h.elim
  | close => exact h.elim
  | exit => exact h.elim
  | mainLoop slot input bytes => exact h.elim

/-- The start gets through with complete writes, for every upload and every order of the steps:

* a run has at most twice as many steps that bring the start on as the upload has bytes, and
  one, whatever other steps it has between them;
* as long as the proxy is in its loop with `done` not set, and has not received the
  acknowledgement of the endpoints, one of them can be taken;
* and they lead to the acknowledgement from every such state, with the firmware started and the
  tables in its arrays. -/
theorem startup_completes (t : Tables) (serialToUsb usbToSerial : EndpointTable) (usb : Usb)
    {es : List StartupEvent} {s : Startup}
    (hrun : exec Startup.next (Startup.start t serialToUsb usbToSerial usb) es = some s) :
    steps Startup.next Startup.Advances (Startup.start t serialToUsb usbToSerial usb) es ≤
      2 * t.size + 1 ∧
    (s.exited = false → s.proxy.done = false → ¬ s.Received .eTypeEndpoints →
      ∃ e s', s.Advances e ∧ s.next e = some s') ∧
    (s.exited = false → s.proxy.done = false →
      ∃ es' s', Along Startup.next Startup.Advances s es' ∧ exec Startup.next s es' = some s' ∧
        s'.Received .eTypeEndpoints ∧ s'.fw.upload.started = true ∧
        s'.fw.upload.Staged t.desc t.index t.config) := by
  have hstart := Startup.runs_start t serialToUsb usbToSerial usb
  have hruns := Startup.exec_runs t serialToUsb usbToSerial usb hrun
  have hcan : ∀ s : Startup, s.Runs t → s.exited = false → s.proxy.done = false →
      ¬ s.Received .eTypeEndpoints → ∃ e s', s.Advances e ∧ s.next e = some s' := by
    rintro s ⟨⟨_, _, _, _, h⟩, hends⟩ hexited hdone hnot
    exact h.advances hends hexited hdone hnot
  refine ⟨?_, hcan s hruns, fun hexited hdone => ?_⟩
  · have hsteps := (Startup.measures t).steps_add_le hstart hrun
    have hleft : (Startup.start t serialToUsb usbToSerial usb).left t = 2 * t.size + 1 := rfl
    omega
  · obtain ⟨es', s', halong, hrun', ⟨⟨_, _, _, _, h⟩, _⟩, _, hreceived⟩ :=
      (Startup.measures t).reaches
        (J := fun s => s.exited = false ∧ (s.Received .eTypeEndpoints ∨ s.proxy.done = false))
        (G := fun s => s.Received .eTypeEndpoints)
        (fun s hs hin hnot => by
          have hrunning := hin.2.resolve_left hnot
          obtain ⟨e, s', hadvances, hnext⟩ := hcan s hs hin.1 hrunning hnot
          obtain ⟨⟨_, _, _, _, h⟩, _⟩ := hs
          exact ⟨e, s', hadvances, hnext,
            (Startup.exited_of_advances hadvances hnext).trans hin.1,
            h.done_advances hrunning hadvances hnext⟩)
        hruns ⟨hexited, Or.inr hdone⟩
    have hstarted := h.started_of_received hreceived
    exact ⟨es', s', halong, hrun', hreceived, hstarted, h.staged hstarted⟩

/-- From the first packet that the interrupt has taken. -/
theorem startup_completes_one :
    ∃ (s : Startup) (es' : List StartupEvent) (s' : Startup), exec Startup.next
        (Startup.start ⟨[18, 1], [⟨0, 0x0100, 0, 2⟩], [⟨0x81, 3, 8⟩], by decide, by decide,
            by decide⟩
          ⟨Vector.replicate 30 0, fun _ => 0⟩ ⟨Vector.replicate 30 0, fun _ => 0⟩
          ⟨Vector.replicate 15 ⟨0, 0⟩, Vector.replicate 15 ⟨0, 0⟩, [], []⟩) [.interrupt] = some s ∧
      exec Startup.next s es' = some s' ∧ s'.fw.upload.started = true := by
  have hrun : ((exec Startup.next
      (Startup.start ⟨[18, 1], [⟨0, 0x0100, 0, 2⟩], [⟨0x81, 3, 8⟩], by decide, by decide,
          by decide⟩
        ⟨Vector.replicate 30 0, fun _ => 0⟩ ⟨Vector.replicate 30 0, fun _ => 0⟩
        ⟨Vector.replicate 15 ⟨0, 0⟩, Vector.replicate 15 ⟨0, 0⟩, [], []⟩) [.interrupt]).map
          fun s => (s.exited, s.proxy.done)) = some (false, false) := by
    decide +kernel
  obtain ⟨s, hs, hstate⟩ := Option.map_eq_some_iff.1 hrun
  obtain ⟨hexited, hdone⟩ := Prod.mk.inj hstate
  obtain ⟨es', s', _, hrun', _, hstarted, _⟩ := (startup_completes _ _ _ _ hs).2.2 hexited hdone
  exact ⟨s, es', s', hs, hrun', hstarted⟩

end SerialUsb
