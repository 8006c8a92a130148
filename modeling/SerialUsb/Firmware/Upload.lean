import SerialUsb.Firmware.Interrupt
import SerialUsb.Proxy.Spec

/-!
# The upload into the firmware

What the receive interrupt makes of the packets of the proxy. As long as the
three tables fit their arrays, the arrays hold the values of the packets of
their type, put together, whatever way the packets were cut and mixed.
-/

namespace SerialUsb

open Framing Memory

def ofType (type : PacketType) (fs : List PacketFrame) : List PacketFrame :=
  fs.filter fun f => f.type = type.toByte

theorem ofType_append (type : PacketType) (fs gs : List PacketFrame) :
    ofType type (fs ++ gs) = ofType type fs ++ ofType type gs :=
  List.filter_append ..

theorem ofType_of_ne {type : PacketType} {fs : List PacketFrame}
    (h : ∀ f ∈ fs, f.type ≠ type.toByte) : ofType type fs = [] := by
  apply List.filter_eq_nil_iff.2
  intro f hf
  simpa using h f hf

theorem ofType_ne_nil {type : PacketType} {fs : List PacketFrame} :
    ofType type fs ≠ [] ↔ ∃ f ∈ fs, f.type = type.toByte := by
  simp [ofType]

@[simp] theorem ofType_packets (type : PacketType) (data : List UInt8) :
    ofType type (packets type data) = packets type data := by
  apply List.filter_eq_self.2
  intro f hf
  exact decide_eq_true (type_of_mem_packets hf)

theorem ofType_packets_of_ne {type other : PacketType} (h : type ≠ other)
    (data : List UInt8) : ofType type (packets other data) = [] := by
  apply ofType_of_ne
  intro f hf
  rw [type_of_mem_packets hf]
  exact PacketType.toByte_injective.ne h.symm

theorem ofType_runtime {type : PacketType} (h : type.isRuntime = false)
    {fs : List PacketFrame} (hfs : ∀ f ∈ fs, Runtime f) : ofType type fs = [] := by
  apply ofType_of_ne
  intro f hf heq
  obtain ⟨t, ht, htype⟩ := hfs f hf
  rw [PacketType.toByte_injective (htype.symm.trans heq), h] at ht
  exact Bool.false_ne_true ht

theorem ofType_concat {type t : PacketType} {f : PacketFrame} (h : f.type = t.toByte)
    (fs : List PacketFrame) :
    ofType type (fs ++ [f]) = ofType type fs ++ if t = type then [f] else [] := by
  rw [ofType_append]
  congr 1
  split
  next heq => simp [ofType, h, heq]
  next hne =>
    apply ofType_of_ne
    intro g hg
    rw [List.mem_singleton.1 hg, h]
    exact PacketType.toByte_injective.ne hne

def content (type : PacketType) (fs : List PacketFrame) : List UInt8 :=
  (ofType type fs).flatMap Frame.value

theorem content_append (type : PacketType) (fs gs : List PacketFrame) :
    content type (fs ++ gs) = content type fs ++ content type gs := by
  rw [content, ofType_append, List.flatMap_append]
  rfl

theorem content_concat {type t : PacketType} {f : PacketFrame} (h : f.type = t.toByte)
    (fs : List PacketFrame) :
    content type (fs ++ [f]) = content type fs ++ if t = type then f.value else [] := by
  rw [content, ofType_concat h, List.flatMap_append]
  split <;> simp [content]

def PacketType.isUpload : PacketType → Bool
  | .eTypeDescriptors | .eTypeIndex | .eTypeEndpoints => true
  | _ => false

def acks (fs : List PacketFrame) : List PacketFrame :=
  (fs.filter fun f => f.type < PacketType.eTypeReset.toByte).map fun f =>
    ⟨f.type, [], Nat.zero_le _⟩

/-- The arrays hold the three given tables and zeros behind them, the pointers
stand behind the first two, and nothing was written past an array. -/
structure Upload.Staged (u : Upload) (desc index endpoints : List UInt8) : Prop where
  descriptors : Filled u.descriptors desc
  descIndex : Filled u.descIndex index
  endpoints : Filled u.endpoints endpoints
  pdesc : u.pdesc = desc.length
  pindex : u.pindex = index.length
  overrun : u.overrun = false

theorem Upload.staged_boot : Firmware.boot.upload.Staged [] [] [] :=
  ⟨filled_nil _, filled_nil _, filled_nil _, rfl, rfl, rfl⟩

theorem Upload.Staged.readDescriptors {u : Upload} {desc index endpoints value : List UInt8}
    (h : u.Staged desc index endpoints)
    (hfit : desc.length + value.length ≤ maxDescriptorsSize) :
    (u.readDescriptors value).Staged (desc ++ value) index endpoints where
  descriptors := by
    rw [Upload.readDescriptors, h.pdesc]
    exact h.descriptors.copyAt hfit
  descIndex := h.descIndex
  endpoints := h.endpoints
  pdesc := by rw [Upload.readDescriptors, h.pdesc, List.length_append]
  pindex := h.pindex
  overrun := by
    simp only [Upload.readDescriptors, h.overrun, h.pdesc, Bool.false_or, decide_eq_false_iff_not,
      Nat.not_lt]
    exact hfit

theorem Upload.Staged.readIndex {u : Upload} {desc index endpoints value : List UInt8}
    (h : u.Staged desc index endpoints)
    (hfit : index.length + value.length ≤ 8 * maxDescriptors) :
    (u.readIndex value).Staged desc (index ++ value) endpoints where
  descriptors := h.descriptors
  descIndex := by
    rw [Upload.readIndex, h.pindex]
    exact h.descIndex.copyAt hfit
  endpoints := h.endpoints
  pdesc := h.pdesc
  pindex := by rw [Upload.readIndex, h.pindex, List.length_append]
  overrun := by
    simp only [Upload.readIndex, h.overrun, h.pindex, Bool.false_or, decide_eq_false_iff_not,
      Nat.not_lt]
    exact hfit

/-- The endpoints are always written to the start of their array. -/
theorem Upload.Staged.readEndpoints {u : Upload} {desc index value : List UInt8}
    (h : u.Staged desc index []) (hfit : value.length ≤ 3 * maxEndpoints) :
    (u.readEndpoints value).Staged desc index value where
  descriptors := h.descriptors
  descIndex := h.descIndex
  endpoints := by
    have hzero : ([] : List UInt8).length + value.length ≤ 3 * maxEndpoints := by
      rwa [List.length_nil, Nat.zero_add]
    exact h.endpoints.copyAt hzero
  pdesc := h.pdesc
  pindex := h.pindex
  overrun := by
    simp only [Upload.readEndpoints, h.overrun, Bool.false_or, decide_eq_false_iff_not,
      Nat.not_lt]
    exact hfit

structure Upload.Holds (u : Upload) (fs : List PacketFrame) : Prop where
  staged : u.Staged (content .eTypeDescriptors fs) (content .eTypeIndex fs)
    (content .eTypeEndpoints fs)
  started : u.started = true ↔ ofType .eTypeEndpoints fs ≠ []

theorem Upload.holds_boot : Firmware.boot.upload.Holds [] :=
  ⟨Upload.staged_boot, by simp [Firmware.boot, ofType]⟩

structure FitsUpload (fs : List PacketFrame) : Prop where
  descriptors : (content .eTypeDescriptors fs).length ≤ maxDescriptorsSize
  descIndex : (content .eTypeIndex fs).length ≤ 8 * maxDescriptors
  endpoints : (content .eTypeEndpoints fs).length ≤ 3 * maxEndpoints
  single : (ofType .eTypeEndpoints fs).length ≤ 1

theorem FitsUpload.of_append {fs gs : List PacketFrame} (h : FitsUpload (fs ++ gs)) :
    FitsUpload fs := by
  obtain ⟨hd, hi, he, hs⟩ := h
  rw [content_append, List.length_append] at hd hi he
  rw [ofType_append, List.length_append] at hs
  exact ⟨by omega, by omega, by omega, by omega⟩

theorem FitsUpload.endpoints_eq_nil {fs : List PacketFrame} {f : PacketFrame}
    (h : FitsUpload (fs ++ [f])) (hf : f.type = PacketType.eTypeEndpoints.toByte) :
    content .eTypeEndpoints fs = [] := by
  have hsingle := h.single
  rw [ofType_concat hf, if_pos rfl, List.length_append, List.length_singleton] at hsingle
  have hnone : (ofType .eTypeEndpoints fs).length = 0 := by omega
  rw [content, List.length_eq_zero_iff.1 hnone, List.flatMap_nil]

theorem receive_encode {fw : Firmware} {f : PacketFrame} {t : PacketType}
    (hhalt : fw.halted = false) (hf : f.type = t.toByte)
    (ht : t.isUpload = true ∨ t.isRuntime = true) (rest : List UInt8) :
    receive fw (f.encode ++ rest) =
      some ((interrupt fw t f.value).1, (interrupt fw t f.value).2, rest) := by
  have hlen := f.toNat_length maxPacketValueSize_lt
  have htype : PacketType.ofByte? f.type = some t := by rw [hf, PacketType.ofByte?_toByte]
  have hle : f.value.length ≤ (f.value ++ rest).length := by
    rw [List.length_append]
    exact Nat.le_add_right _ _
  have htake : (f.value ++ rest).take f.value.length = f.value := List.take_left
  have hdrop : (f.value ++ rest).drop f.value.length = rest := List.drop_left
  simp only [Frame.encode, List.cons_append, receive, hhalt, Bool.false_eq_true, if_false,
    htype, hlen, if_pos hle, htake, hdrop]
  cases t with
  | eTypeOut => simp [PacketType.isUpload, PacketType.isRuntime] at ht
  | eTypeDebug => simp [PacketType.isUpload, PacketType.isRuntime] at ht
  | _ => rfl

theorem Upload.Holds.receives {fw : Firmware} {fs : List PacketFrame} {f : PacketFrame}
    {t : PacketType} (h : fw.upload.Holds fs) (hf : f.type = t.toByte)
    (hfit : FitsUpload (fs ++ [f])) :
    (interrupt fw t f.value).1.upload.Holds (fs ++ [f]) := by
  obtain ⟨hstaged, hstarted⟩ := h
  have hd := hfit.descriptors
  have hi := hfit.descIndex
  have he := hfit.endpoints
  rw [content_concat hf, List.length_append] at hd hi he
  constructor
  · rw [content_concat hf, content_concat hf, content_concat hf]
    cases t with
    | eTypeDescriptors => simpa [interrupt] using hstaged.readDescriptors (by simpa using hd)
    | eTypeIndex => simpa [interrupt] using hstaged.readIndex (by simpa using hi)
    | eTypeEndpoints =>
        have hnil := hfit.endpoints_eq_nil hf
        rw [hnil] at hstaged he ⊢
        simpa [interrupt] using hstaged.readEndpoints (by simpa using he)
    | _ => simpa [interrupt] using hstaged
  · rw [ofType_concat hf]
    cases t <;>
      simp [interrupt, Upload.readDescriptors, Upload.readIndex, Upload.readEndpoints,
        hstarted]

theorem Upload.Holds.started_mono {u v : Upload} {fs gs : List PacketFrame} (h : u.Holds fs)
    (h' : v.Holds (fs ++ gs)) (hstarted : v.started = false) : u.started = false := by
  by_contra hnot
  have hne := h.started.1 (Bool.eq_true_of_not_eq_false hnot)
  have hmore : ofType .eTypeEndpoints (fs ++ gs) ≠ [] := by
    rw [ofType_append]
    exact List.append_ne_nil_of_left_ne_nil hne _
  exact Bool.false_ne_true (hstarted.symm.trans (h'.started.2 hmore))

/-- The interrupt acknowledges a packet that carries a part of the upload. -/
theorem interrupt_snd {fw : Firmware} {f : PacketFrame} {t : PacketType}
    (hf : f.type = t.toByte) (ht : t.isUpload = true ∨ t.isRuntime = true) :
    (interrupt fw t f.value).2 = (acks [f]).flatMap Frame.encode := by
  cases t with
  | eTypeOut => simp [PacketType.isUpload, PacketType.isRuntime] at ht
  | eTypeDebug => simp [PacketType.isUpload, PacketType.isRuntime] at ht
  | _ => simp [interrupt, acks, hf, ack, Frame.encode, PacketType.toByte]

end SerialUsb
