import SerialUsb.Gusb.Accesses
import SerialUsb.Proxy.Rewritten

/-!
# The accesses through the raw buffers

The buffer for a configuration has the size that the first reply of the device tells, and its
content from the second reply. `probe_configurations`, `fix_endpoints` and `send_descriptors`
go by the content. `accessesInBounds_iff` says for which replies every access is inside.
-/

namespace SerialUsb

open Framing Memory

/-- What `get_configurations` gets for a configuration: the outcome of the two requests and of
the allocation, and what the memory held before in the local `descriptor` and behind the
buffer. -/
structure ConfigurationReplies where
  first : Option (List UInt8)
  allocated : Bool
  second : Option (List UInt8)
  stack : ℕ → UInt8
  behind : ℕ → UInt8

/-- `descriptor.wTotalLength`, for a reply that is cut to the 9 bytes of the structure. -/
def ConfigurationReplies.wTotalLength (c : ConfigurationReplies) (reply : List UInt8) : UInt16 :=
  let byte i := if i < (reply.take 9).length then reply.getD i 0 else c.stack i
  ofLe16 (byte 2) (byte 3)

def ConfigurationReplies.buffer (c : ConfigurationReplies) : Option Buffer :=
  match c.first with
  | none => none
  | some reply =>
      let size := (c.wTotalLength reply).toNat
      if c.allocated then
        match c.second with
        | none => none
        | some reply =>
            some ⟨⟨fun i => if i < size then (reply.take size).getD i 0 else c.behind i⟩, size⟩
      else none

def getConfigurations : List ConfigurationReplies → Option (List Buffer)
  | [] => some []
  | c :: cs =>
      match c.buffer with
      | none => none
      | some b => (getConfigurations cs).map (b :: ·)

section Accesses

variable (env : Environment) (iterations : RawConfiguration → ℕ)

def probeConfigurationsAccesses (d : GusbDevice) : List Buffer → List (Buffer × ℕ)
  | [] => []
  | b :: bs =>
      (probeConfigurationAccesses env (iterations b.raw) d b.raw).map (b, ·) ++
        match probeConfiguration env (iterations b.raw) d b.raw with
        | none => []
        | some r => if r.ret < 0 then [] else probeConfigurationsAccesses r.device bs

def fixEndpointAccesses (configurationIndex : ℕ) (r : RawConfiguration) (p : ℕ) : List ℕ :=
  [p + 2, p + 3] ++
    if endpointNumber (r.endpoint p).bEndpointAddress ≠ 0 ∧ configurationIndex = 0 ∧
        (r.endpoint p).xferType = usbEndpointXferInt then [p + 4, p + 5] else []

def PConfiguration.records (c : PConfiguration) : List PAltInterface :=
  (List.range c.raw.bNumInterfaces.toNat).flatMap fun number =>
    (c.interface number).altInterfaces.visible

/-- The body of the outermost loop of `fix_endpoints`: `bNumInterfaces` and
`bConfigurationValue`, the descriptors of the records, and the endpoints. -/
def fixConfigurationAccesses (configurationIndex : ℕ) (c : PConfiguration) : List ℕ :=
  [4, 5] ++ (c.records.flatMap fun a => [a.descriptor + 2, a.descriptor + 3]) ++
    c.endpoints.zipIdx.flatMap fun y =>
      fixEndpointAccesses configurationIndex (c.rawAfter y.2) y.1

def fixAccesses (configurationIndex : ℕ) : List (Buffer × PConfiguration) → List (Buffer × ℕ)
  | [] => []
  | (b, c) :: bs =>
      (fixConfigurationAccesses configurationIndex c).map (b, ·) ++
        fixAccesses (configurationIndex + 1) bs

def sendAccesses (p : Proxy) (descNumber : ℕ) :
    List (Buffer × PConfiguration) → List (Buffer × ℕ)
  | [] => []
  | (b, c) :: bs =>
      let (p, ret) := addDescriptor p (c.read.descriptor descNumber)
      [(b, 2), (b, 3)] ++
        if ret < 0 then []
        else
          (List.range c.raw.wTotalLength.toNat).map (b, ·) ++ sendAccesses p (descNumber + 1) bs

/-- The tests of `proxy_init` before `fix_endpoints`. -/
def offered : List PConfiguration → Bool
  | [] => false
  | c :: _ => c.raw.bNumInterfaces ≠ 0 ∧ (c.interface 0).altInterfaces.count ≠ 0

/-- What `proxy_start` has when it comes to the configurations: it may not get there, and it adds
the descriptor of the device and the one of the languages before. -/
structure Started where
  reached : Bool
  usb : Usb
  device : Vector UInt8 18
  langId0 : Vector UInt8 4

def Started.proxy (x : Started) (m : EndpointMaps) : Proxy :=
  (addDescriptors (Proxy.start m.endpoints m.serialToUsb m.usbToSerial x.usb)
    [⟨0x0100, 0, 18, x.device.toList, by simp⟩, ⟨0x0300, 0, 4, x.langId0.toList, by simp⟩]).1

/-- All accesses through the raw buffers behind `get_configurations`. -/
def bufferAccesses (d : GusbDevice) (m : EndpointMaps) (x : Started) (bs : List Buffer) :
    List (Buffer × ℕ) :=
  probeConfigurationsAccesses env iterations d bs ++
    match probeConfigurations env iterations d (bs.map Buffer.raw) with
    | none => []
    | some (_, rs, ret) =>
        let cs := rs.map fun r => r.probing.tree
        if ret < 0 then []
        else
          (bs.take 1).map (·, 4) ++
            if offered cs then
              let (m, fixed) := fixEndpointsAt m cs
              fixAccesses 0 (bs.zip cs) ++
                if x.reached then sendAccesses (x.proxy m) 0 (bs.zip fixed) else []
            else []

end Accesses

/-- Whatever the calls do, every access is inside of its buffer. -/
def AccessesInBounds (replies : List ConfigurationReplies) : Prop :=
  ∀ bs, getConfigurations replies = some bs → ∀ env iterations d m x,
    ∀ a ∈ bufferAccesses env iterations d m x bs, a.2 < a.1.size

/-- The walk over the buffer gets to its end: no descriptor is refused, and none has the
length 0. -/
def Buffer.Completes (b : Buffer) : Prop :=
  b.raw.AllAccepted b.raw.positions ∧ ∀ p ∈ b.raw.positions, b.raw.descriptorLength p ≠ 0

def Offered : List Buffer → Prop
  | [] => False
  | b :: _ => b.raw.bNumInterfaces ≠ 0 ∧ (b.raw.settings b.raw.positions 0).length % 256 ≠ 0

def Fits (size count : ℕ) (before : List Buffer) (b : Buffer) : Prop :=
  size + ((before ++ [b]).map fun x => x.raw.wTotalLength.toNat).sum ≤ maxDescriptorsSize ∧
    count + before.length < maxDescriptors

structure Covered (bs : List Buffer) : Prop where
  probed : ∀ before b after, bs = before ++ b :: after → (∀ x ∈ before, x.Completes) → b.Holds
  copied : (∀ b ∈ bs, b.Completes) → Offered bs →
    ∀ before b after, bs = before ++ b :: after → Fits 22 2 before b →
      b.raw.wTotalLength.toNat ≤ b.size

section Probe

variable {env : Environment} {iterations : RawConfiguration → ℕ} {bs : List Buffer}

theorem Parsed.completes {b : Buffer} {r : ProbeResult} (h : Parsed b.raw r) : b.Completes :=
  ⟨h.accepted, h.advances⟩

theorem probeConfigurationsAccesses_lt
    (h : ∀ before b after, bs = before ++ b :: after → (∀ x ∈ before, x.Completes) → b.Holds)
    (d : GusbDevice) :
    ∀ a ∈ probeConfigurationsAccesses env iterations d bs, a.2 < a.1.size := by
  induction bs generalizing d with
  | nil => exact fun a ha => absurd ha List.not_mem_nil
  | cons b bs ih =>
      rw [forall_split_cons] at h
      intro a ha
      rcases List.mem_append.1 ha with ha | ha
      · obtain ⟨o, ho, rfl⟩ := List.mem_map.1 ha
        exact probeConfigurationAccesses_lt (h.1 fun x hx => absurd hx List.not_mem_nil) _ _ _ o ho
      · cases hr : probeConfiguration env (iterations b.raw) d b.raw with
        | none =>
            rw [hr] at ha
            exact absurd ha List.not_mem_nil
        | some r =>
            rw [hr] at ha
            dsimp only at ha
            rcases probeConfiguration_ret hr with hret | hret
            · rw [if_neg (by omega)] at ha
              have hcompletes : b.Completes := (parsed_of_ret hr hret).1.completes
              refine ih (fun before x after heq hbefore => ?_) _ a ha
              exact h.2 before x after heq (List.forall_mem_cons.2 ⟨hcompletes, hbefore⟩)
            · rw [if_pos (by omega)] at ha
              exact absurd ha List.not_mem_nil

theorem holds_of_probeConfigurationsAccesses (hs : env.Succeeds)
    (hiterations : ∀ b ∈ bs, b.raw.wTotalLength.toNat ≤ iterations b.raw) (d : GusbDevice)
    (h : ∀ a ∈ probeConfigurationsAccesses env iterations d bs, a.2 < a.1.size) :
    ∀ before b after, bs = before ++ b :: after → (∀ x ∈ before, x.Completes) → b.Holds := by
  induction bs generalizing d with
  | nil => exact forall_split_nil
  | cons b bs ih =>
      rw [List.forall_mem_cons] at hiterations
      rw [forall_split_cons]
      refine ⟨fun _ => ?_, fun before x after heq hbefore => ?_⟩
      · refine holds_of_probeConfigurationAccesses hs d hiterations.1 fun o ho => ?_
        exact h (b, o) (List.mem_append_left _ (List.mem_map_of_mem ho))
      · obtain ⟨hcompletes, hbefore⟩ := List.forall_mem_cons.1 hbefore
        obtain ⟨r, hr, hret⟩ :=
          probeConfiguration_of_advances hs hcompletes.1 hcompletes.2 hiterations.1 d
        refine ih hiterations.2 r.device (fun a ha => ?_) before x after heq hbefore
        refine h a (List.mem_append_right _ ?_)
        rw [hr]
        dsimp only
        rw [if_neg (by omega)]
        exact ha

theorem probeConfigurations_of_completes (hs : env.Succeeds)
    (hiterations : ∀ b ∈ bs, b.raw.wTotalLength.toNat ≤ iterations b.raw)
    (h : ∀ b ∈ bs, b.Completes) (d : GusbDevice) :
    ∃ d' rs, probeConfigurations env iterations d (bs.map Buffer.raw) = some (d', rs, 0) := by
  induction bs generalizing d with
  | nil => exact ⟨d, [], rfl⟩
  | cons b bs ih =>
      rw [List.forall_mem_cons] at hiterations h
      obtain ⟨r, hr, hret⟩ := probeConfiguration_of_advances hs h.1.1 h.1.2 hiterations.1 d
      obtain ⟨d', rs, hrest⟩ := ih hiterations.2 h.2 r.device
      refine ⟨d', r :: rs, ?_⟩
      rw [List.map_cons, probeConfigurations, hr]
      dsimp only
      rw [if_neg (by omega), hrest]
      rfl

end Probe

section Fix

theorem Built.of_mem_records {raw : RawConfiguration} {ps : List ℕ} {s : Probing}
    (h : Built raw ps s) {a : PAltInterface} (ha : a ∈ s.tree.records) :
    a.descriptor ∈ ps ∧ raw.isInterface a.descriptor := by
  unfold PConfiguration.records at ha
  rw [h.raw_eq] at ha
  obtain ⟨number, hnumber, ha⟩ := List.mem_flatMap.1 ha
  have hmem : a.descriptor ∈ kept (raw.settings ps number) := by
    rw [← h.descriptors (List.mem_range.1 hnumber)]
    exact List.mem_map_of_mem ha
  obtain ⟨hposition, hinterface, -⟩ :=
    RawConfiguration.mem_settings.1 ((kept_sublist _).subset hmem)
  exact ⟨hposition, hinterface⟩

variable {b : Buffer}

theorem Buffer.Holds.extent_le (h : b.Holds) (hall : b.raw.AllAccepted b.raw.positions) {p : ℕ}
    (hp : p ∈ b.raw.positions) :
    ∃ before, b.raw.Accepted before p ∧ p + b.raw.extent before p ≤ b.size := by
  obtain ⟨before, after, heq⟩ := List.append_of_mem hp
  have hbefore : b.raw.AllAccepted before := by
    rw [heq] at hall
    exact hall.left
  exact ⟨before, hall before p after heq, h.2 before p after heq hbefore⟩

theorem Buffer.Holds.interface_le (h : b.Holds) (hall : b.raw.AllAccepted b.raw.positions)
    {q : ℕ} (hq : q ∈ b.raw.positions) (hinterface : b.raw.isInterface q) : q + 9 ≤ b.size := by
  obtain ⟨before, haccepted, hle⟩ := h.extent_le hall hq
  rwa [extent_of_accepted_interface (of_decide_eq_true hinterface) haccepted] at hle

theorem Buffer.Holds.endpoint_le (h : b.Holds) (hall : b.raw.AllAccepted b.raw.positions)
    {e : ℕ} (he : e ∈ b.raw.positions) (hendpoint : b.raw.isEndpoint e) : e + 6 ≤ b.size := by
  obtain ⟨before, haccepted, hle⟩ := h.extent_le hall he
  rwa [extent_of_accepted_endpoint (of_decide_eq_true hendpoint) haccepted] at hle

/-- What `fix_endpoints` reads and writes was read by the walk. -/
theorem fixConfigurationAccesses_lt {r : ProbeResult} (h : b.Holds) (hparsed : Parsed b.raw r)
    (configurationIndex : ℕ) :
    ∀ o ∈ fixConfigurationAccesses configurationIndex r.probing.tree, o < b.size := by
  intro o ho
  unfold fixConfigurationAccesses at ho
  rw [List.append_assoc, List.mem_append, List.mem_append] at ho
  rcases ho with ho | ho | ho
  · have hheader := h.1
    simp at ho
    omega
  · obtain ⟨a, ha, ho⟩ := List.mem_flatMap.1 ho
    obtain ⟨hposition, hinterface⟩ := hparsed.built.of_mem_records ha
    have hle := h.interface_le hparsed.accepted hposition hinterface
    simp at ho
    omega
  · obtain ⟨y, hy, ho⟩ := List.mem_flatMap.1 ho
    obtain ⟨hposition, hendpoint, -⟩ :=
      hparsed.built.of_mem_endpoints (List.fst_mem_of_mem_zipIdx hy)
    have hle := h.endpoint_le hparsed.accepted hposition hendpoint
    unfold fixEndpointAccesses at ho
    rcases List.mem_append.1 ho with ho | ho
    · simp at ho
      omega
    · split at ho
      · simp at ho
        omega
      · exact absurd ho List.not_mem_nil

theorem fixAccesses_lt {bs : List Buffer} {rs : List ProbeResult}
    (h : List.Forall₂ (fun b r => Parsed b.raw r) bs rs) (hholds : ∀ b ∈ bs, b.Holds)
    (configurationIndex : ℕ) :
    ∀ a ∈ fixAccesses configurationIndex (bs.zip (rs.map fun r => r.probing.tree)),
      a.2 < a.1.size := by
  induction h generalizing configurationIndex with
  | nil => exact fun a ha => absurd ha List.not_mem_nil
  | cons hparsed _ ih =>
      rw [List.forall_mem_cons] at hholds
      intro a ha
      rcases List.mem_append.1 ha with ha | ha
      · obtain ⟨o, ho, rfl⟩ := List.mem_map.1 ha
        exact fixConfigurationAccesses_lt hholds.1 hparsed configurationIndex o ho
      · exact ih hholds.2 (configurationIndex + 1) a ha

end Fix

section Send

theorem Started.length_proxy (x : Started) (m : EndpointMaps) :
    (x.proxy m).desc.length = 22 ∧ (x.proxy m).descIndex.length = 2 := by
  unfold Started.proxy
  rw [addDescriptors_of_hasRoomFor]
  · simp [Proxy.start, length_indexEntries]
  · simp [Proxy.HasRoomFor, Proxy.start]
    decide

theorem fits_cons {size count : ℕ} {before : List Buffer} {b x : Buffer} :
    Fits size count (b :: before) x ↔
      Fits (size + b.raw.wTotalLength.toNat) (count + 1) before x := by
  unfold Fits
  simp only [List.cons_append, List.map_cons, List.sum_cons, List.length_cons]
  omega

/-- `send_descriptors` copies the bytes of the configurations up to the first one that has no
room, as many as each of them says. -/
theorem sendAccesses_lt_iff {bs : List Buffer} {cs : List PConfiguration}
    (h : List.Forall₂ (fun b c => c.raw.wTotalLength = b.raw.wTotalLength ∧ 4 ≤ b.size) bs cs)
    (p : Proxy) (descNumber : ℕ) :
    (∀ a ∈ sendAccesses p descNumber (bs.zip cs), a.2 < a.1.size) ↔
      ∀ before b after, bs = before ++ b :: after →
        Fits p.desc.length p.descIndex.length before b → b.raw.wTotalLength.toNat ≤ b.size := by
  induction h generalizing p descNumber with
  | nil => exact ⟨fun _ => forall_split_nil, fun _ a ha => absurd ha List.not_mem_nil⟩
  | @cons b c bs cs hbc _ ih =>
      obtain ⟨hlength, hsize⟩ := hbc
      have hheader : ∀ a ∈ [(b, 2), (b, 3)], a.2 < a.1.size := by
        intro a ha
        simp at ha
        rcases ha with rfl | rfl <;> dsimp only <;> omega
      have hcopy : (∀ a ∈ (List.range c.raw.wTotalLength.toNat).map (b, ·), a.2 < a.1.size) ↔
          b.raw.wTotalLength.toNat ≤ b.size := by
        rw [List.forall_mem_map, hlength]
        constructor
        · intro hall
          by_contra hlt
          exact absurd (hall b.size (List.mem_range.2 (by omega))) (Nat.lt_irrefl _)
        · exact fun hle i hi => (List.mem_range.1 hi).trans_le hle
      rw [forall_split_cons, List.zip_cons_cons, sendAccesses]
      have hdata : (c.read.descriptor descNumber).data.length = b.raw.wTotalLength.toNat :=
        (c.read.descriptor descNumber).length_data.trans (congrArg UInt16.toNat hlength)
      have hfits : Fits p.desc.length p.descIndex.length [] b ↔
          p.HasRoom (c.read.descriptor descNumber) := by
        unfold Fits Proxy.HasRoom
        rw [hdata]
        simp
      by_cases hroom : p.HasRoom (c.read.descriptor descNumber)
      · have hadded : (p.addedDescriptor (c.read.descriptor descNumber)).desc.length =
            p.desc.length + b.raw.wTotalLength.toNat := by
          rw [Proxy.addedDescriptor, List.length_append, hdata]
        have hcount : (p.addedDescriptor (c.read.descriptor descNumber)).descIndex.length =
            p.descIndex.length + 1 := List.length_append
        have hrest := ih (p.addedDescriptor (c.read.descriptor descNumber)) (descNumber + 1)
        rw [hadded, hcount] at hrest
        rw [addDescriptor_of_hasRoom hroom]
        dsimp only
        rw [if_neg (Int.lt_irrefl 0), List.forall_mem_append, List.forall_mem_append, hcopy,
          hrest, hfits]
        simp only [fits_cons]
        exact ⟨fun hall => ⟨fun _ => hall.2.1, hall.2.2⟩,
          fun hall => ⟨hheader, hall.1 hroom, hall.2⟩⟩
      · rw [addDescriptor_of_not_hasRoom hroom]
        dsimp only
        rw [if_pos (by decide), List.append_nil, hfits]
        refine ⟨fun _ => ⟨fun h => absurd h hroom, fun before x after heq hx => ?_⟩,
          fun _ => hheader⟩
        -- what does not fit is not reached
        refine absurd (hfits.1 ?_) hroom
        unfold Fits at hx ⊢
        simp at hx ⊢
        omega

end Send

section Runs

variable {bs : List Buffer} {rs : List ProbeResult}

theorem completes_of_parsed (h : List.Forall₂ (fun b r => Parsed b.raw r) bs rs) :
    ∀ b ∈ bs, b.Completes := by
  induction h with
  | nil => exact fun b hb => absurd hb List.not_mem_nil
  | cons hparsed _ ih => exact List.forall_mem_cons.2 ⟨hparsed.completes, ih⟩

theorem holds_of_completes
    (h : ∀ before b after, bs = before ++ b :: after → (∀ x ∈ before, x.Completes) → b.Holds)
    (hcompletes : ∀ b ∈ bs, b.Completes) : ∀ b ∈ bs, b.Holds := by
  intro b hb
  obtain ⟨before, after, heq⟩ := List.append_of_mem hb
  refine h before b after heq fun x hx => hcompletes x ?_
  rw [heq]
  exact List.mem_append_left _ hx

/-- The tests of `proxy_init` go by what the bytes of the first configuration say. -/
theorem offered_iff (h : List.Forall₂ (fun b r => Parsed b.raw r) bs rs) :
    offered (rs.map fun r => r.probing.tree) ↔ Offered bs := by
  cases h with
  | nil => simp [offered, Offered]
  | @cons b r bs rs hparsed _ =>
      rw [List.map_cons, offered, decide_eq_true_iff, Offered, hparsed.raw_eq]
      refine and_congr_right fun hne => ?_
      have hpos : 0 < b.raw.bNumInterfaces.toNat :=
        Nat.pos_of_ne_zero fun hzero => hne (UInt8.toNat_inj.1 hzero)
      rw [← hparsed.built.count hpos, ne_eq, ne_eq, ← UInt8.toNat_inj]
      rfl

theorem fixConfigurationsAt_wTotalLength (h : List.Forall₂ (fun b r => Parsed b.raw r) bs rs)
    (hholds : ∀ b ∈ bs, b.Holds) (configurationIndex : ℕ) (m : EndpointMaps) :
    List.Forall₂ (fun b c => c.raw.wTotalLength = b.raw.wTotalLength ∧ 4 ≤ b.size) bs
      (fixConfigurationsAt configurationIndex m (rs.map fun r => r.probing.tree)).2 := by
  induction h generalizing configurationIndex m with
  | nil => exact List.Forall₂.nil
  | @cons b r bs rs hparsed _ ih =>
      rw [List.forall_mem_cons] at hholds
      have hnodup := hparsed.nodup_endpoints
      have hkept : ∀ i < 5, (r.probing.tree.rawAfter r.probing.tree.endpoints.length).byte i =
          b.raw.byte i := by
        intro i hi
        rw [PConfiguration.rawAfter_of_ne hnodup, hparsed.raw_eq]
        intro p hp
        have hthree := hparsed.three_le_of_mem hp
        omega
      have hlength : (fixConfigurationAt configurationIndex m r.probing.tree).2.raw.wTotalLength =
          b.raw.wTotalLength := by
        rw [fixConfigurationAt_spec configurationIndex m hnodup fun p => hparsed.three_le_of_mem]
        unfold RawConfiguration.wTotalLength RawConfiguration.word
        rw [hkept 2 (by decide), hkept 3 (by decide)]
      exact List.Forall₂.cons ⟨hlength, (by decide : 4 ≤ 7).trans hholds.1.1⟩ (ih hholds.2 _ _)

/-- The bytes that the buffers are covered for are enough, whatever the calls do. -/
theorem Covered.bufferAccesses_lt (h : Covered bs) (env : Environment)
    (iterations : RawConfiguration → ℕ) (d : GusbDevice) (m : EndpointMaps) (x : Started) :
    ∀ a ∈ bufferAccesses env iterations d m x bs, a.2 < a.1.size := by
  intro a ha
  rcases List.mem_append.1 ha with ha | ha
  · exact probeConfigurationsAccesses_lt h.probed d a ha
  · cases hrun : probeConfigurations env iterations d (bs.map Buffer.raw) with
    | none =>
        rw [hrun] at ha
        exact absurd ha List.not_mem_nil
    | some y =>
        obtain ⟨d', rs, ret⟩ := y
        rw [hrun] at ha
        dsimp only at ha
        rcases probeConfigurations_ret hrun with rfl | rfl
        · have hparsed := List.forall₂_map_left_iff.1 (parsed_of_probeConfigurations hrun).1
          have hcompletes := completes_of_parsed hparsed
          have hholds := holds_of_completes h.probed hcompletes
          rw [if_neg (Int.lt_irrefl 0)] at ha
          rcases List.mem_append.1 ha with ha | ha
          · obtain ⟨b, hb, rfl⟩ := List.mem_map.1 ha
            exact (by decide : 4 < 7).trans_le (hholds b (List.mem_of_mem_take hb)).1
          · split at ha
            next hoffered =>
              rcases List.mem_append.1 ha with ha | ha
              · exact fixAccesses_lt hparsed hholds 0 a ha
              · split at ha
                · have hfixed := fixConfigurationsAt_wTotalLength hparsed hholds 0
                    { m with endpoints := [] }
                  refine (sendAccesses_lt_iff hfixed _ 0).2 ?_ a ha
                  rw [(x.length_proxy _).1, (x.length_proxy _).2]
                  exact h.copied hcompletes ((offered_iff hparsed).1 hoffered)
                · exact absurd ha List.not_mem_nil
            next => exact absurd ha List.not_mem_nil
        · rw [if_pos (by decide)] at ha
          exact absurd ha List.not_mem_nil

/-- A run in which every call succeeds reads and copies all of these bytes. -/
theorem covered_of_bufferAccesses {env : Environment} (hs : env.Succeeds) {d : GusbDevice}
    {iterations : RawConfiguration → ℕ}
    (hiterations : ∀ b ∈ bs, b.raw.wTotalLength.toNat ≤ iterations b.raw) {m : EndpointMaps}
    {x : Started} (hx : x.reached = true)
    (h : ∀ a ∈ bufferAccesses env iterations d m x bs, a.2 < a.1.size) : Covered bs := by
  have hprobed := holds_of_probeConfigurationsAccesses hs hiterations d
    fun a ha => h a (List.mem_append_left _ ha)
  refine ⟨hprobed, fun hcompletes hoffered => ?_⟩
  obtain ⟨d', rs, hrun⟩ := probeConfigurations_of_completes hs hiterations hcompletes d
  have hparsed := List.forall₂_map_left_iff.1 (parsed_of_probeConfigurations hrun).1
  have hholds := holds_of_completes hprobed hcompletes
  have hfixed := fixConfigurationsAt_wTotalLength hparsed hholds 0 { m with endpoints := [] }
  have hsend := sendAccesses_lt_iff hfixed
    (x.proxy (fixEndpointsAt m (rs.map fun r => r.probing.tree)).1) 0
  rw [(x.length_proxy _).1, (x.length_proxy _).2] at hsend
  apply hsend.1
  intro a ha
  apply h a
  apply List.mem_append_right
  rw [hrun]
  dsimp only
  rw [if_neg (Int.lt_irrefl 0), if_pos ((offered_iff hparsed).2 hoffered), if_pos hx]
  exact List.mem_append_right _ (List.mem_append_right _ ha)

end Runs

def Started.empty : Started where
  reached := true
  usb := ⟨Vector.replicate _ ⟨0, 0⟩, Vector.replicate _ ⟨0, 0⟩, [], []⟩
  device := Vector.replicate _ 0
  langId0 := Vector.replicate _ 0

/-- Every access is inside of its buffer exactly when the bytes that are read for the
descriptors and the lengths that are copied are. -/
theorem accessesInBounds_iff (replies : List ConfigurationReplies) :
    AccessesInBounds replies ↔ ∀ bs, getConfigurations replies = some bs → Covered bs := by
  constructor
  · intro h bs hbs
    have hrun := h bs hbs Environment.empty (fun raw => raw.wTotalLength.toNat) GusbDevice.start
      (EndpointMaps.start 0 0) Started.empty
    exact covered_of_bufferAccesses Environment.empty_succeeds (fun b _ => Nat.le_refl _) rfl hrun
  · exact fun h bs hbs => (h bs hbs).bufferAccesses_lt

def truncatedReplies : ConfigurationReplies where
  first := some [9, 2, 9, 0, 1, 1, 0, 0x80, 50]
  allocated := true
  second := some [9, 2, 10, 0, 1, 1, 0, 0x80, 50]
  stack := 0
  behind := 0

/-- The walk reads the type of a descriptor at position 9. -/
theorem not_accessesInBounds_truncatedReplies : ¬ AccessesInBounds [truncatedReplies] := by
  intro h
  obtain ⟨b, hb, hsize⟩ : ∃ b, truncatedReplies.buffer = some b ∧ b.size = 9 := ⟨_, rfl, rfl⟩
  have hmem : 10 ∈ probeConfigurationAccesses Environment.empty 10 GusbDevice.start b.raw := by
    obtain rfl := Option.some.inj hb
    decide +kernel
  have hbs : getConfigurations [truncatedReplies] = some [b] := by
    rw [getConfigurations, hb]
    rfl
  have hlt : 10 < b.size := by
    apply h [b] hbs Environment.empty (fun _ => 10) GusbDevice.start (EndpointMaps.start 0 0)
      Started.empty (b, 10)
    apply List.mem_append_left
    exact List.mem_append_left _ (List.mem_map_of_mem hmem)
  omega

end SerialUsb
