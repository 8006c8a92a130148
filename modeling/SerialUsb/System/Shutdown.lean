import SerialUsb.Proxy.Sending
import SerialUsb.System.Startup
import SerialUsb.Transition.Progress

/-!
# The end of a session

The proxy sends a reset when it leaves its loop, and nothing else it does makes the firmware
halt. Behind the reset `gusb_close` handles events until the transfers have ended, and what they
send comes after it. Whatever is before the reset, the interrupt comes to it, and takes nothing
of what is behind it.
-/

namespace SerialUsb

open Framing Memory Transition

theorem eq_of_flatMap_encode {fs gs : List PacketFrame}
    (h : fs.flatMap Frame.encode = gs.flatMap Frame.encode) : fs = gs := by
  have hframes := congrArg (frames maxPacketValueSize) h
  rwa [frames_flatMap maxPacketValueSize_lt, frames_flatMap maxPacketValueSize_lt] at hframes

def Proxy.NoReset (p : Proxy) : Prop :=
  p.serial.writes = [] ∧ ∃ gs : List PacketFrame, ofType .eTypeReset gs = [] ∧
    p.serial.line = gs.flatMap Frame.encode

theorem keptBySending_noReset : KeptBySending PacketType.isSentInLoop Proxy.NoReset where
  send := by
    rintro type htype p data ⟨hwrites, gs, hnone, hline⟩
    have hadds := p.adds_send hwrites type data
    have hne : PacketType.eTypeReset ≠ type := by
      rintro rfl
      exact absurd htype (by decide)
    refine ⟨hadds.writes, gs ++ packets type data, ?_, ?_⟩
    · rw [ofType_append, hnone, ofType_packets_of_ne hne]
      rfl
    · rw [hadds.line, hline, List.flatMap_append]
  congr := by
    rintro p q hp hserial
    rwa [Proxy.NoReset, hserial]

def SentByTransfer (f : PacketFrame) : Prop :=
  ∃ type : PacketType, type.isSentByTransfer = true ∧ f.type = type.toByte

/-- The packets on the line are `fs`, and behind them some that the end of a transfer sends. -/
def Proxy.Behind (fs : List PacketFrame) (p : Proxy) : Prop :=
  p.serial.writes = [] ∧ ∃ hs : List PacketFrame, (∀ f ∈ hs, SentByTransfer f) ∧
    p.serial.line = (fs ++ hs).flatMap Frame.encode

theorem keptBySending_behind (fs : List PacketFrame) :
    KeptBySending PacketType.isSentByTransfer (Proxy.Behind fs) where
  send := by
    rintro type htype p data ⟨hwrites, hs, hsent, hline⟩
    have hadds := p.adds_send hwrites type data
    refine ⟨hadds.writes, hs ++ packets type data, ?_, ?_⟩
    · refine List.forall_mem_append.2 ⟨hsent, fun f hf => ?_⟩
      exact ⟨type, htype, type_of_mem_packets hf⟩
    · rw [hadds.line, hline, ← List.flatMap_append, List.append_assoc fs]
  congr := by
    rintro p q hp hserial
    rwa [Proxy.Behind, hserial]

theorem Session.user_recv_of_kept {π : Type*} {P : π → Prop} {realloc : ℕ → Bool}
    {cb : PacketCallback π} (hcb : ∀ u packet, P u → P (cb u packet).1) {s s' : Session π}
    {chunk : List UInt8} (hs : P s.user) (h : s.recv realloc cb chunk = some s') : P s'.user := by
  obtain ⟨_, heq⟩ := Option.ite_none_right_eq_some.1 h
  obtain rfl := Option.some.inj heq
  simp only [adapterRecv]
  split
  · split
    · exact hcb _ _ hs
    · exact hs
  · exact hs

/-- Before the proxy has left its loop no reset is on the line and the firmware runs; behind that
one reset is on the line until the firmware has halted, with packets behind it that the end of a
transfer sends. -/
structure Startup.Ends (s : Startup) : Prop where
  writes : s.proxy.serial.writes = []
  running : s.exited = false → s.fw.halted = false ∧ ∃ gs : List PacketFrame,
    ofType .eTypeReset gs = [] ∧ s.proxy.serial.line = gs.flatMap Frame.encode
  ending : s.exited = true → s.fw.halted = false → ∃ gs hs : List PacketFrame,
    ofType .eTypeReset gs = [] ∧ (∀ f ∈ hs, SentByTransfer f) ∧
      s.proxy.serial.line = (gs ++ packets .eTypeReset [] ++ hs).flatMap Frame.encode
  halted : s.fw.halted = true → s.exited = true ∧ ∃ hs : List PacketFrame,
    (∀ f ∈ hs, SentByTransfer f) ∧ s.proxy.serial.line = hs.flatMap Frame.encode

theorem Startup.Ends.noReset {s : Startup} (h : s.Ends) (hexited : s.exited = false) :
    s.proxy.NoReset :=
  ⟨h.writes, (h.running hexited).2⟩

theorem Startup.Ends.of_noReset {s s' : Startup} (h : s.Ends) (hexited : s.exited = false)
    (hexited' : s'.exited = s.exited) (hfw : s'.fw = s.fw) (hproxy : s'.proxy.NoReset) :
    s'.Ends where
  writes := hproxy.1
  running := fun _ => ⟨hfw ▸ (h.running hexited).1, hproxy.2⟩
  ending := fun hnot => absurd (hexited'.symm.trans hnot) (by simp [hexited])
  halted := by
    rw [hfw, (h.running hexited).1]
    exact fun hhalted => absurd hhalted (by simp)

section Step

variable {t : Tables} {s s' : Startup} {rs fs rt : List PacketFrame} {stream : List UInt8}

theorem Startup.Ends.exit (h : s.Ends) (hnext : s.next .exit = some s') : s'.Ends := by
  obtain ⟨hcan, hexit⟩ := Option.ite_none_left_eq_some.1 hnext
  rw [not_or, Bool.not_eq_true] at hcan
  obtain rfl := Option.some.inj hexit
  obtain ⟨hhalted, gs, hnone, hline⟩ := h.running hcan.1
  have hadds := s.proxy.adds_send h.writes .eTypeReset []
  refine ⟨hadds.writes, fun hnot => absurd hnot (by simp), fun _ _ => ?_, fun hhalted' => ?_⟩
  · refine ⟨gs, [], hnone, by simp, ?_⟩
    rw [List.append_nil, List.flatMap_append, ← hline]
    exact hadds.line
  · exact absurd (hhalted.symm.trans hhalted') (by simp)

/-- The end of a transfer in the loop, or in `gusb_close`. -/
theorem Startup.Ends.complete (h : s.Ends) {i : ℕ} {status : TransferStatus}
    (hnext : s.next (.complete i status) = some s') : s'.Ends := by
  obtain ⟨q, hq, rfl⟩ := Option.map_eq_some_iff.1 hnext
  cases hexited : s.exited with
  | false =>
      exact h.of_noReset hexited rfl rfl
        (keptBySending_noReset.byTransfer.usbCallback (h.noReset hexited) hq)
  | true =>
      have hbehind : ∀ fs hs : List PacketFrame, (∀ f ∈ hs, SentByTransfer f) →
          s.proxy.serial.line = (fs ++ hs).flatMap Frame.encode → q.Behind fs :=
        fun fs hs hsent hline =>
          (keptBySending_behind fs).usbCallback ⟨h.writes, hs, hsent, hline⟩ hq
      refine ⟨?_, fun hnot => absurd (hexited.symm.trans hnot) (by simp), fun _ hhalted => ?_,
        fun hhalted => ⟨hexited, ?_⟩⟩
      · cases hhalted : s.fw.halted with
        | false =>
            obtain ⟨gs, hs, _, hsent, hline⟩ := h.ending hexited hhalted
            exact (hbehind _ hs hsent hline).1
        | true =>
            obtain ⟨_, hs, hsent, hline⟩ := h.halted hhalted
            exact (hbehind [] hs hsent hline).1
      · obtain ⟨gs, hs, hnone, hsent, hline⟩ := h.ending hexited hhalted
        obtain ⟨_, hs', hsent', hline'⟩ := hbehind _ hs hsent hline
        exact ⟨gs, hs', hnone, hsent', hline'⟩
      · obtain ⟨_, hs, hsent, hline⟩ := h.halted hhalted
        exact (hbehind [] hs hsent hline).2

theorem halted_interrupt_eq {type : PacketType} (htype : type ≠ .eTypeReset) (fw : Firmware)
    (value : List UInt8) : (SerialUsb.interrupt fw type value).1.halted = fw.halted := by
  cases type <;> first | rfl | exact absurd rfl htype

def Startup.toReset (s : Startup) : ℕ :=
  ((frames maxPacketValueSize s.proxy.serial.line).takeWhile fun f =>
    f.type ≠ PacketType.eTypeReset.toByte).length + 1

theorem Startup.toReset_eq {gs hs : List PacketFrame} (hnone : ofType .eTypeReset gs = [])
    (hline : s.proxy.serial.line = (gs ++ packets .eTypeReset [] ++ hs).flatMap Frame.encode) :
    s.toReset = gs.length + 1 := by
  have hgs : ∀ f ∈ gs, decide (f.type ≠ PacketType.eTypeReset.toByte) = true := by
    intro f hf
    apply decide_eq_true
    intro htype
    exact ofType_ne_nil.2 ⟨f, hf, htype⟩ hnone
  rw [Startup.toReset, hline, frames_flatMap maxPacketValueSize_lt,
    packets_of_le (Nat.zero_le _), List.append_assoc, List.takeWhile_append_of_pos hgs]
  simp

/-- The interrupt takes a packet before the reset, or it takes the reset. -/
theorem Startup.Ends.interrupt_cases (h : s.Ends) (hinv : s.Inv t rs fs rt stream)
    (hnext : s.next .interrupt = some s') :
    s'.Ends ∧ (s.exited = true → s'.fw.halted = true ∨ s'.toReset < s.toReset) := by
  have hreceives : s.fw.halted = false := by
    obtain ⟨_, hreceive, _⟩ := Option.map_eq_some_iff.1 hnext
    exact not_halted_of_receive hreceive
  have hline := hinv.line
  obtain ⟨f, fs, type, rfl, hf, _, rfl⟩ := hinv.interrupt_cases hnext
  -- the packet is no reset as long as none is among the packets in front of it
  have hother : ∀ gs : List PacketFrame, f ∈ gs → ofType .eTypeReset gs = [] →
      (SerialUsb.interrupt s.fw type f.value).1.halted = false := by
    intro gs hmem hnone
    rw [halted_interrupt_eq _ s.fw f.value]
    · exact hreceives
    · rintro rfl
      exact ofType_ne_nil.2 ⟨f, hmem, hf⟩ hnone
  have htail : ∀ gs : List PacketFrame, ofType .eTypeReset (f :: gs) = [] →
      ofType .eTypeReset gs = [] := by
    intro gs hnone
    rw [← List.singleton_append, ofType_append, List.append_eq_nil_iff] at hnone
    exact hnone.2
  cases hexited : s.exited with
  | false =>
      obtain ⟨_, gs, hnone, hgs⟩ := h.running hexited
      obtain rfl := eq_of_flatMap_encode (hline.symm.trans hgs)
      have hruns := hother _ List.mem_cons_self hnone
      refine ⟨⟨h.writes, fun _ => ⟨hruns, fs, htail fs hnone, rfl⟩, ?_, ?_⟩, ?_⟩
      · exact fun hnot => absurd (hexited.symm.trans hnot) (by simp)
      · exact fun hnot => absurd (hruns.symm.trans hnot) (by simp)
      · exact fun hnot => absurd hnot (by simp)
  | true =>
      obtain ⟨gs, hs, hnone, hsent, hgs⟩ := h.ending hexited hreceives
      have hreset := Startup.toReset_eq hnone hgs
      have hfs := eq_of_flatMap_encode (hline.symm.trans hgs)
      cases gs with
      | nil =>
          rw [packets_of_le (Nat.zero_le _), List.nil_append] at hfs
          obtain ⟨rfl, rfl⟩ := List.cons.inj hfs
          obtain rfl : type = .eTypeReset := PacketType.toByte_injective hf.symm
          refine ⟨⟨h.writes, ?_, ?_, ?_⟩, fun _ => Or.inl rfl⟩
          · exact fun hnot => absurd (hexited.symm.trans hnot) (by simp)
          · exact fun _ hnot => absurd hnot (by simp [SerialUsb.interrupt])
          · exact fun _ => ⟨hexited, _, hsent, rfl⟩
      | cons g gs =>
          obtain ⟨rfl, rfl⟩ := List.cons.inj hfs
          have hruns := hother _ List.mem_cons_self hnone
          refine ⟨⟨h.writes, ?_, ?_, ?_⟩, fun _ => Or.inr ?_⟩
          · exact fun hnot => absurd (hexited.symm.trans hnot) (by simp)
          · exact fun _ _ => ⟨gs, hs, htail gs hnone, hsent, rfl⟩
          · exact fun hnot => absurd (hruns.symm.trans hnot) (by simp)
          · rw [hreset, Startup.toReset_eq (htail gs hnone) rfl]
            exact Nat.lt_succ_self _

theorem Startup.Ends.next (h : s.Ends) (hinv : s.Inv t rs fs rt stream) {e : StartupEvent}
    (hnext : s.next e = some s') : s'.Ends := by
  cases e with
  | exit => exact h.exit hnext
  | interrupt => exact (h.interrupt_cases hinv hnext).1
  | complete i status => exact h.complete hnext
  | read n =>
      obtain ⟨hcan, hread⟩ := Option.ite_none_left_eq_some.1 hnext
      rw [not_or, Bool.not_eq_true] at hcan
      obtain ⟨session, hrecv, rfl⟩ := Option.map_eq_some_iff.1 hread
      refine h.of_noReset hcan.1 rfl rfl ?_
      exact Session.user_recv_of_kept (P := Proxy.NoReset)
        (fun _ packet hp => keptBySending_noReset.processPacket hp packet) (h.noReset hcan.1) hrecv
  | close =>
      obtain ⟨hcan, hclose⟩ := Option.ite_none_left_eq_some.1 hnext
      rw [Bool.not_eq_true] at hcan
      obtain rfl := Option.some.inj hclose
      exact h.of_noReset hcan rfl rfl (h.noReset hcan)
  | mainLoop slot input bytes =>
      obtain ⟨_, hmain⟩ := Option.ite_none_right_eq_some.1 hnext
      obtain rfl := Option.some.inj hmain
      exact ⟨h.writes, h.running, h.ending, h.halted⟩

end Step

structure Startup.Runs (t : Tables) (s : Startup) : Prop where
  inv : ∃ rs fs rt stream, s.Inv t rs fs rt stream
  ends : s.Ends

theorem Startup.Runs.next {t : Tables} {s s' : Startup} {e : StartupEvent} (h : s.Runs t)
    (hnext : s.next e = some s') : s'.Runs t := by
  obtain ⟨⟨_, _, _, _, hinv⟩, hends⟩ := h
  exact ⟨hinv.next hnext, hends.next hinv hnext⟩

theorem Startup.runs_start (t : Tables) (serialToUsb usbToSerial : EndpointTable) (usb : Usb) :
    (Startup.start t serialToUsb usbToSerial usb).Runs t := by
  have hinv := Startup.inv_start t serialToUsb usbToSerial usb
  refine ⟨⟨_, _, _, _, hinv⟩, hinv.writes, fun _ => ⟨rfl, _, ?_, hinv.line⟩, ?_, ?_⟩
  · exact ofType_packets_of_ne (by decide) _
  · exact fun hexited => absurd hexited (by simp [Startup.start, Startup.startOf])
  · exact fun hhalted => absurd hhalted (by simp [Startup.start, Startup.startOf, Firmware.boot])

theorem Startup.exec_runs (t : Tables) (serialToUsb usbToSerial : EndpointTable) (usb : Usb)
    {es : List StartupEvent} {s : Startup}
    (hrun : exec Startup.next (Startup.start t serialToUsb usbToSerial usb) es = some s) :
    s.Runs t :=
  exec_invariant (fun _ _ _ h hnext => h.next hnext)
    (Startup.runs_start t serialToUsb usbToSerial usb) hrun

def StartupEvent.IsInterrupt : StartupEvent → Prop
  | .interrupt => True
  | .read _ | .complete _ _ | .close | .exit | .mainLoop _ _ _ => False

instance (e : StartupEvent) : Decidable e.IsInterrupt :=
  match e with
  | .interrupt => isTrue trivial
  | .read _ | .complete _ _ | .close | .exit | .mainLoop _ _ _ => isFalse id

/-- A halted firmware does nothing, and the proxy behind its loop only ends transfers. -/
theorem Startup.complete_of_halted {s s' : Startup} {e : StartupEvent}
    (hhalted : s.fw.halted = true) (hexited : s.exited = true) (hnext : s.next e = some s') :
    s'.fw = s.fw ∧ ∃ i status, e = .complete i status := by
  cases e with
  | complete i status =>
      obtain ⟨q, _, rfl⟩ := Option.map_eq_some_iff.1 hnext
      exact ⟨rfl, i, status, rfl⟩
  | interrupt =>
      obtain ⟨_, hreceive, _⟩ := Option.map_eq_some_iff.1 hnext
      exact absurd (hhalted.symm.trans (not_halted_of_receive hreceive)) (by simp)
  | mainLoop slot input bytes => simp [Startup.next, hhalted] at hnext
  | read n => simp [Startup.next, hexited] at hnext
  | close => simp [Startup.next, hexited] at hnext
  | exit => simp [Startup.next, hexited] at hnext

def Startup.leftToReset (s : Startup) : ℕ := if s.fw.halted = true then 0 else s.toReset

theorem Startup.leftToReset_of_halted {s : Startup} (h : s.fw.halted = true) :
    s.leftToReset = 0 :=
  if_pos h

theorem Startup.leftToReset_le (s : Startup) : s.leftToReset ≤ s.toReset := by
  rw [Startup.leftToReset]
  split
  · exact Nat.zero_le _
  · exact Nat.le_refl _

theorem Startup.leftToReset_of_running {s : Startup} (h : s.fw.halted = false) :
    s.leftToReset = s.toReset :=
  if_neg (by simp [h])

/-- Behind the end of the loop the interrupt takes what is left up to the reset, and what the
transfers send comes behind that. -/
theorem Startup.measures_exited (t : Tables) :
    Measures Startup.next (fun _ e => e.IsInterrupt) (fun s => s.Runs t ∧ s.exited = true)
      Startup.leftToReset := by
  have hcases : ∀ (s : Startup) (e : StartupEvent) (s' : Startup), s.Runs t ∧ s.exited = true →
      s.next e = some s' → s'.exited = true ∧
        (e.IsInterrupt ∧ s'.leftToReset < s.leftToReset ∨
          ¬ e.IsInterrupt ∧ s'.leftToReset = s.leftToReset) := by
    rintro s e s' ⟨⟨⟨rs, fs, rt, stream, hinv⟩, hends⟩, hexited⟩ hnext
    cases e with
    | interrupt =>
        have hreceives : s.fw.halted = false := by
          obtain ⟨_, hreceive, _⟩ := Option.map_eq_some_iff.1 hnext
          exact not_halted_of_receive hreceive
        have hlt : s'.leftToReset < s.leftToReset := by
          rw [Startup.leftToReset_of_running hreceives]
          rcases (hends.interrupt_cases hinv hnext).2 hexited with hhalted | hlt
          · rw [Startup.leftToReset_of_halted hhalted]
            exact Nat.succ_pos _
          · exact s'.leftToReset_le.trans_lt hlt
        obtain ⟨_, _, _, _, _, _, rfl⟩ := hinv.interrupt_cases hnext
        exact ⟨hexited, Or.inl ⟨trivial, hlt⟩⟩
    | complete i status =>
        obtain ⟨q, hq, rfl⟩ := Option.map_eq_some_iff.1 hnext
        refine ⟨hexited, Or.inr ⟨id, ?_⟩⟩
        have hfw : (s.setProxy q).fw = s.fw := rfl
        cases hhalted : s.fw.halted with
        | true =>
            rw [Startup.leftToReset_of_halted hhalted,
              Startup.leftToReset_of_halted (hfw ▸ hhalted)]
        | false =>
            obtain ⟨gs, hs, hnone, hsent, hline⟩ := hends.ending hexited hhalted
            obtain ⟨_, hs', _, hline'⟩ := (keptBySending_behind
              (gs ++ packets .eTypeReset [])).usbCallback ⟨hends.writes, hs, hsent, hline⟩ hq
            rw [Startup.leftToReset_of_running hhalted,
              Startup.leftToReset_of_running (hfw ▸ hhalted), Startup.toReset_eq hnone hline,
              Startup.toReset_eq (s := s.setProxy q) hnone hline']
    | mainLoop slot input bytes =>
        obtain ⟨_, hmain⟩ := Option.ite_none_right_eq_some.1 hnext
        obtain rfl := Option.some.inj hmain
        exact ⟨hexited, Or.inr ⟨id, rfl⟩⟩
    | read n => simp [Startup.next, hexited] at hnext
    | close => simp [Startup.next, hexited] at hnext
    | exit => simp [Startup.next, hexited] at hnext
  constructor
  case keeps => exact fun s e s' hs hnext => ⟨hs.1.next hnext, (hcases s e s' hs hnext).1⟩
  case le =>
    intro s e s' hs hnext
    rcases (hcases s e s' hs hnext).2 with ⟨_, hlt⟩ | ⟨_, heq⟩
    · exact hlt.le
    · exact heq.le
  case lt =>
    intro s e s' hs hnext hinterrupt
    rcases (hcases s e s' hs hnext).2 with ⟨_, hlt⟩ | ⟨hnot, _⟩
    · exact hlt
    · exact absurd hinterrupt hnot

theorem Startup.Runs.interrupts {t : Tables} {s : Startup} (h : s.Runs t)
    (hexited : s.exited = true) (hhalted : s.fw.halted = false) :
    ∃ s', s.next .interrupt = some s' := by
  obtain ⟨⟨rs, fs, rt, stream, hinv⟩, hends⟩ := h
  obtain ⟨gs, hs, _, _, hline⟩ := hends.ending hexited hhalted
  have hfs := eq_of_flatMap_encode (hinv.line.symm.trans hline)
  rw [packets_of_le (Nat.zero_le _)] at hfs
  cases fs with
  | nil => simp at hfs
  | cons f fs =>
      have hmem : f ∈ t.sent s.proxy.descIndexSent s.proxy.endpointsSent ++ rt := by
        rw [← hinv.sent]
        exact List.mem_append_right _ List.mem_cons_self
      obtain ⟨type, htype, hf⟩ := Tables.type_of_mem_sent hinv.runtime hmem
      have hreceive := receive_encode hhalted hf htype (fs.flatMap Frame.encode)
      rw [← List.flatMap_cons, ← hinv.line] at hreceive
      exact ⟨_, by rw [Startup.next, hreceive]; rfl⟩

end SerialUsb
