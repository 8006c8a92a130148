import SerialUsb.Proxy.EndpointRequests
import SerialUsb.System.InPathProgress
import SerialUsb.System.OutPath
import SerialUsb.System.OutWrites

/-!
# The endpoints that the target host sees

`fix_endpoints` may give the endpoints of the first configuration other addresses. It announces
these in the descriptors, and the maps that it fills turn them back wherever an address passes
the proxy: the packets of the device leave under the address that was announced for their
endpoint, and what the target host sends or asks under that address goes to the endpoint.
-/

namespace SerialUsb

open Framing Memory Transition

def Proxy.ofConfigurations (outside outside' : ℤ → UInt8) (cs : List Configuration) (usb : Usb) :
    Proxy :=
  let m := (fixEndpoints (EndpointMaps.start outside outside') cs).1
  Proxy.start m.endpoints m.serialToUsb m.usbToSerial usb

/-- `fix_endpoints` rewrites nothing of an endpoint but its address. -/
theorem forEach_fixEndpoint_forall₂ (configurationIndex : ℕ) (renumber : Bool)
    (es : List EndpointDescriptor) (m : EndpointMaps) :
    List.Forall₂ (fun e e' => e' = { e with bEndpointAddress := e'.bEndpointAddress }) es
      (forEach (fixEndpoint configurationIndex renumber) m es).2 := by
  induction es generalizing m with
  | nil => exact List.Forall₂.nil
  | cons e es ih =>
      rw [forEach_cons]
      refine List.Forall₂.cons ?_ (ih _)
      obtain ⟨number, address, _, _, hfixed, _⟩ :=
        fixEndpoint_cases configurationIndex renumber m e
      rw [hfixed]

theorem exists_announced (outside outside' : ℤ → UInt8) (c : Configuration)
    {e : EndpointDescriptor × ℕ} (he : e ∈ c.configured) :
    ∃ e', (fixConfiguration 0 (EndpointMaps.start outside outside') c).2.endpoints[e.2 - 1]? =
        some e' ∧ e' = { e.1 with bEndpointAddress := targetAddress c.renumber e } := by
  obtain ⟨e, position⟩ := e
  obtain ⟨hmem, _⟩ := List.mem_filter.1 he
  obtain ⟨hpos, hget⟩ := List.mk_mem_zipIdx_iff_le_and_getElem?_sub.1 hmem
  have haddresses := congrArg (·[position - 1]?)
    (fixConfiguration_addresses 0 (EndpointMaps.start outside outside') c)
  rw [List.getElem?_map, List.getElem?_map, List.getElem?_zipIdx, hget, Option.map_some,
    Option.map_some, Nat.add_sub_cancel' hpos] at haddresses
  obtain ⟨e', hget', haddress⟩ := Option.map_eq_some_iff.1 haddresses
  refine ⟨e', hget', ?_⟩
  have hforall := forEach_fixEndpoint_forall₂ 0 c.renumber c.endpoints
    { EndpointMaps.start outside outside' with number := 0 }
  rw [← (fixConfiguration_eq 0 (EndpointMaps.start outside outside') c).2] at hforall
  obtain ⟨hi, rfl⟩ := List.getElem?_eq_some_iff.1 hget
  obtain ⟨hi', rfl⟩ := List.getElem?_eq_some_iff.1 hget'
  have hsame := hforall.get hi hi'
  rw [← haddress]
  exact hsame

section Lookup

variable {outside outside' : ℤ → UInt8} {c : Configuration} {cs : List Configuration} {usb : Usb}

theorem serialToUsb_of_distinct (hc : c.Distinct) {q : UInt8 × UInt8} (hq : q ∈ c.addresses) :
    (Proxy.ofConfigurations outside outside' (c :: cs) usb).serialToUsb.get q.2.toNat = q.1 := by
  obtain ⟨husable, _, htargets⟩ := c.distinct_iff.2 hc
  have htracks := tracks_fixEndpoints outside outside' c cs q.2
    (Nat.one_le_iff_ne_zero.1 (husable.numbers q hq).1)
  rw [(fixEndpoints_cons outside outside' c cs).2, backward_of_nodup htargets hq] at htracks
  exact htracks

theorem serialToUsb_eq_iff (hc : c.Distinct) {q q' : UInt8 × UInt8} (hq : q ∈ c.addresses)
    (hq' : q' ∈ c.addresses) :
    (Proxy.ofConfigurations outside outside' (c :: cs) usb).serialToUsb.get q'.2.toNat = q.1 ↔
      q'.2 = q.2 := by
  obtain ⟨_, horiginals, _⟩ := c.distinct_iff.2 hc
  constructor
  · intro h
    rw [serialToUsb_of_distinct hc hq'] at h
    rw [List.inj_on_of_nodup_map horiginals hq' hq (congrArg slot h)]
  · intro h
    rw [h, serialToUsb_of_distinct hc hq]

theorem mem_endpoints_ofConfigurations {x : EndpointConfig}
    (hx : x ∈ (Proxy.ofConfigurations outside outside' (c :: cs) usb).endpoints) :
    ∃ q ∈ c.addresses, q.2 = x.number := by
  obtain ⟨hfilled, hregistered⟩ := fixEndpoints_cons outside outside' c cs
  have hnumber : x.number ∈ c.addresses.map Prod.snd := by
    rw [← hregistered, ← hfilled.endpoints]
    exact List.mem_map_of_mem hx
  exact List.mem_map.1 hnumber

end Lookup

section Configured

variable {s t : OutPath}

def OutputPhase.Of (configs : List EndpointConfig) : OutputPhase → Prop
  | .idle => True
  | .selected c => c ∈ configs ∨ c.number = 0
  | .received c | .reading c _ | .inTask c _ | .returned c _ _ | .sending c _ =>
      c ∈ configs ∧ c.number ≠ 0

/-- Packets are in the banks of endpoints only, and what is sent is from endpoints of the list. -/
structure OutPath.Configured (l : List EndpointConfig) (s : OutPath) : Prop where
  configs : s.configs = l
  banks : s.banks 0 = none
  phase : s.phase.Of l
  sent : ∀ x ∈ s.sent, ∃ c ∈ l, c.number ≠ 0 ∧ c.number = x.1

theorem receiveNextOutput_of {l : List EndpointConfig} (outputs : Outputs) {banks : Banks}
    {phase : OutputPhase} (hbanks : banks 0 = none) (hphase : phase.Of l) :
    (receiveNextOutput l outputs banks phase).banks 0 = none ∧
      (receiveNextOutput l outputs banks phase).phase.Of l ∧
      ∀ x ∈ (receiveNextOutput l outputs banks phase).sent,
        ∃ c ∈ l, c.number ≠ 0 ∧ c.number = x.1 := by
  have hcleared : ∀ endpoint, (clearOut banks endpoint).1 0 = none := by
    intro endpoint
    by_contra hne
    obtain ⟨b, hb⟩ := Option.ne_none_iff_exists'.1 hne
    exact absurd (hbanks.symm.trans (clearOut_some hb).2) (by simp)
  have hnone : ∀ x ∈ (none : Option (UInt8 × List UInt8)),
      ∃ c ∈ l, c.number ≠ 0 ∧ c.number = x.1 := fun _ hx => absurd hx (by simp)
  cases phase with
  | idle =>
      rw [receiveNextOutput]
      split
      · exact ⟨hbanks, trivial, hnone⟩
      next i _ =>
        refine ⟨hbanks, ?_, hnone⟩
        dsimp only [OutputPhase.Of]
        rw [List.getD_eq_getElem?_getD]
        cases hget : l[i.toNat]? with
        | none => exact Or.inr rfl
        | some c => exact Or.inl (List.mem_of_getElem? hget)
  | selected c =>
      rw [receiveNextOutput]
      refine ⟨hbanks, ?_, hnone⟩
      dsimp only
      split
      next hsome =>
        have hne : c.number ≠ 0 := by
          intro hzero
          rw [hzero, hbanks] at hsome
          exact absurd hsome (by simp)
        exact ⟨hphase.resolve_right hne, hne⟩
      next => trivial
  | received c =>
      rw [receiveNextOutput]
      refine ⟨hbanks, ?_, hnone⟩
      dsimp only
      split
      · exact hphase
      · exact hphase
  | reading c data =>
      rw [receiveNextOutput]
      split
      · split
        · refine ⟨?_, hphase, hnone⟩
          exact (Function.update_of_ne hphase.2.symm _ _).trans hbanks
        · exact ⟨hcleared c.number, hphase, hnone⟩
      · exact ⟨hbanks, hphase, hnone⟩
  | inTask c data => exact ⟨hbanks, hphase, hnone⟩
  | returned c data short => exact ⟨hcleared c.number, hphase, hnone⟩
  | sending c data =>
      rw [receiveNextOutput]
      split
      · refine ⟨hbanks, trivial, fun x hx => ?_⟩
        rw [← Option.some.inj hx]
        exact ⟨c, hphase.1, hphase.2, rfl⟩
      · exact ⟨hbanks, trivial, hnone⟩

theorem OutPath.Configured.next {l : List EndpointConfig} (h : s.Configured l)
    {e : OutEvent} (ht : s.next e = some t) : t.Configured l := by
  cases e with
  | arrive endpoint packet =>
      obtain ⟨haccepts, harrive⟩ := Option.ite_none_right_eq_some.1 ht
      obtain rfl := Option.some.inj harrive
      refine ⟨h.configs, ?_, h.phase, h.sent⟩
      exact (Function.update_of_ne haccepts.1.symm _ _).trans h.banks
  | other f =>
      obtain ⟨_, hother⟩ := Option.ite_none_right_eq_some.1 ht
      obtain rfl := Option.some.inj hother
      exact ⟨h.configs, h.banks, h.phase, h.sent⟩
  | mainLoop =>
      obtain rfl := Option.some.inj ht
      obtain ⟨hbanks, hphase, hsent⟩ := receiveNextOutput_of s.outputs h.banks h.phase
      rw [← h.configs] at hbanks hphase hsent
      refine ⟨h.configs, hbanks, h.configs ▸ hphase, fun x hx => ?_⟩
      rcases List.mem_append.1 hx with hx | hx
      · exact h.sent x hx
      · exact h.configs ▸ hsent x (Option.mem_toList.1 hx)

theorem OutPath.Fresh.configured {l : List EndpointConfig} (h : s.Fresh) (hl : s.configs = l) :
    s.Configured l where
  configs := hl
  banks := h.banks 0
  phase := by
    rw [h.phase]
    trivial
  sent := by
    intro x hx
    rw [h.sent] at hx
    exact absurd hx List.not_mem_nil

end Configured

/-- What is read, written and asked under the address that was announced is read from, written
to and asked of the endpoint of the device. -/
structure Proxy.Transparent (p : Proxy) (r : Receiver) (fw : Firmware)
    (original announced : UInt8) : Prop where
  /-- The target host reads the packets of the device in their order, and each of them can
  still reach it, as long as the polls return no more bytes than the banks have. -/
  reads : endpointIn original = true → ∀ size es s,
    Along (InPath.next size) (InPath.FitsBank size) (InPath.start r p fw) es →
      exec (InPath.next size) (InPath.start r p fw) es = some s →
        s.writtenAt announced <+: s.completedAt original ∧
          ∃ es' t, exec (InPath.next size) s es' = some t ∧
            s.completedAt original <+: t.writtenAt announced
  /-- The device is sent the packets of the target host in their order, and all of them once
  everything has been read, when no packet comes while `ReceiveNextOutput` is about to clear
  the endpoint again. -/
  writes : endpointIn original = false → ∀ s₀ es s, OutPath.Fresh s₀ →
    (∀ x ∈ s₀.configs, x.number ≠ 0 → x ∈ p.endpoints) → exec OutPath.next s₀ es = some s →
      Along OutPath.next OutPath.NoLateArrival s₀ es →
        ∀ realloc : ℕ → Bool, (∀ n, realloc n = true) → ∀ fs u,
          exec (OutLink.next realloc) (OutLink.start r p) fs = some u → u.read <+: s.line →
            buffersTo original u.submitted <+: payloadsOf announced s.accepted ∧
              (u.read = s.line → s.phase = .idle →
                buffersTo original u.submitted = payloadsOf announced s.accepted)
  /-- A request to the address is made to the endpoint. -/
  requests : ∀ q : Proxy, q.serialToUsb = p.serialToUsb → ∀ packet request rest,
    packet.value = ControlRequest.bytes request ++ rest →
      request.bmRequestType &&& 0x1f = 0x02 → request.wIndex = announced.toUInt16 →
        q.Forwards packet ({ request with wIndex := original.toUInt16 }.bytes ++ rest)

section Transparent

variable {p : Proxy} {r : Receiver} {fw : Firmware}

/-- What the polls of an endpoint have returned can be written under its address. -/
theorem InPath.Inv.catchesUp {size : UInt8 → ℕ} {l : List (UInt8 × UInt8)} {s : InPath}
    (h : s.Inv size l) {q : UInt8 × UInt8} (hq : q ∈ l) :
    ∃ es t, exec (InPath.next size) s es = some t ∧ s.completedAt q.1 <+: t.writtenAt q.2 := by
  by_cases hnone : s.completedAt q.1 = []
  · refine ⟨[], s, rfl, ?_⟩
    rw [hnone]
    exact List.nil_prefix
  · have hpos := List.length_pos_iff.2 hnone
    have hlast : s.Polled size l q ((s.completedAt q.1).length - 1) :=
      ⟨h, Nat.sub_one_lt_of_lt hpos⟩
    obtain ⟨es, t, _, hrun, ht, hkept, hget⟩ := hlast.reaches hq
    refine ⟨es, t, hrun, List.prefix_of_prefix_length_le hkept (ht.inv.initial hq) ?_⟩
    have hwritten : (s.completedAt q.1).length - 1 < (t.writtenAt q.2).length := by
      rw [List.getElem?_eq_getElem hlast.polled] at hget
      exact (List.getElem?_eq_some_iff.1 hget).1
    omega

theorem OutLink.Inv.written_isPrefix {u : OutLink} {table : EndpointTable} {endpoint : UInt8}
    (h : u.Inv table endpoint) {s : OutPath} (hs : s.Inv) (hread : u.read <+: s.line) :
    buffersTo endpoint u.submitted <+:
        (s.sent.filter fun x => table.get x.1.toNat = endpoint).map Prod.snd ∧
      (u.read = s.line → buffersTo endpoint u.submitted =
        (s.sent.filter fun x => table.get x.1.toNat = endpoint).map Prod.snd) := by
  obtain ⟨fs, hline, hvalues⟩ := hs.line
  have hframes : frames maxPacketValueSize u.read =
      u.service.session.delivered.map SPacket.frame := (h.follows.frames_eq h.waiting).1
  have hall : frames maxPacketValueSize s.line = fs := by
    rw [hline, frames_flatMap maxPacketValueSize_lt]
  constructor
  · obtain ⟨rest, hrest⟩ := hread
    have hpre := frames_append_isPrefix maxPacketValueSize_lt u.read rest
    rw [hrest, hframes, hall] at hpre
    obtain ⟨n, hn⟩ : ∃ n, ((u.service.session.delivered.map SPacket.frame).filter fun f =>
        f.type = PacketType.eTypeOut.toByte).map Frame.value =
          (s.sent.take n).map fun x => x.1 :: x.2 := by
      have hout := ((hpre.filter fun f => f.type = PacketType.eTypeOut.toByte).map Frame.value)
      rw [hvalues] at hout
      exact ⟨_, (List.prefix_iff_eq_take.1 hout).trans List.map_take.symm⟩
    rw [h.written, flatMap_writesTo table endpoint hn]
    exact ((List.take_prefix n s.sent).filter _).map _
  · intro heq
    rw [heq, hall] at hframes
    rw [hframes] at hvalues
    rw [h.written, flatMap_writesTo table endpoint hvalues]

variable {outside outside' : ℤ → UInt8} {c : Configuration} {cs : List Configuration} {usb : Usb}

/-- The packets of the endpoints of the firmware that go to an endpoint of the device are those
for its address. -/
theorem filter_sent_eq (hc : c.Distinct) {q : UInt8 × UInt8} (hq : q ∈ c.addresses) {s : OutPath}
    {l : List EndpointConfig} (hl : ∀ x ∈ l, x.number ≠ 0 →
      x ∈ (Proxy.ofConfigurations outside outside' (c :: cs) usb).endpoints)
    (hs : s.Configured l) :
    (s.sent.filter fun x => (Proxy.ofConfigurations outside outside'
        (c :: cs) usb).serialToUsb.get x.1.toNat = q.1).map Prod.snd =
      payloadsOf q.2 s.sent := by
  rw [payloadsOf]
  congr 1
  refine List.filter_congr fun x hx => ?_
  obtain ⟨d, hd, hne, hnumber⟩ := hs.sent x hx
  obtain ⟨q', hq', htarget⟩ := mem_endpoints_ofConfigurations (hl d hd hne)
  rw [← hnumber, ← htarget]
  exact decide_eq_decide.2 (serialToUsb_eq_iff hc hq hq')

/-- A device whose configured endpoints are known to libusb as interrupt endpoints. -/
def Usb.Knows (usb : Usb) (c : Configuration) : Prop :=
  ∀ e ∈ c.configured, ∃ info,
    getEndpoint usb e.1.bEndpointAddress (endpointIn e.1.bEndpointAddress) = some info ∧
      info.type = transferTypeInterrupt

theorem ready_ofConfigurations (hc : c.Distinct) (hknown : usb.Knows c) (hwaiting : r.Waiting)
    (hstored : r.stored = []) (hsubmits : usb.submits = [])
    (hhalted : fw.halted = false) (hinput : fw.input.endpoint = 0) :
    InPath.Ready (c.addresses.filter fun q => endpointIn q.2) r
      (Proxy.ofConfigurations outside outside' (c :: cs) usb) fw := by
  have htables : (Proxy.ofConfigurations outside outside' (c :: cs) usb).InTables
      (c.addresses.filter fun q => endpointIn q.2) := by
    refine inTables_fixEndpoints hc rfl rfl fun q hq hin => ?_
    obtain ⟨e, he, rfl⟩ := List.mem_map.1 hq
    have hinfo := hknown e he
    rwa [show endpointIn e.1.bEndpointAddress = true from (endpointIn_targetAddress he).symm.trans hin]
      at hinfo
  exact ⟨hwaiting, hstored, htables, rfl, rfl, hsubmits, rfl, rfl, rfl, rfl, hhalted, hinput⟩

theorem transparent_targetAddress (hc : c.Distinct) (hknown : usb.Knows c)
    (hwaiting : r.Waiting) (hstored : r.stored = []) (hsubmits : usb.submits = [])
    (hhalted : fw.halted = false)
    (hinput : fw.input.endpoint = 0) {e : EndpointDescriptor × ℕ} (he : e ∈ c.configured) :
    (Proxy.ofConfigurations outside outside' (c :: cs) usb).Transparent r fw
      e.1.bEndpointAddress (targetAddress c.renumber e) := by
  have hq : (e.1.bEndpointAddress, targetAddress c.renumber e) ∈ c.addresses :=
    List.mem_map_of_mem (f := fun e => (e.1.bEndpointAddress, targetAddress c.renumber e)) he
  constructor
  case reads =>
    intro hin size es s hbank hrun
    have hready : InPath.Ready (c.addresses.filter fun q => endpointIn q.2) r
        (Proxy.ofConfigurations outside outside' (c :: cs) usb) fw :=
      ready_ofConfigurations hc hknown hwaiting hstored hsubmits hhalted hinput
    have hinv : s.Inv size (c.addresses.filter fun q => endpointIn q.2) :=
      exec_invariant_along (fun _ _ _ h hfits ht => h.next hfits ht) hready.inv_start hbank hrun
    have hmem : (e.1.bEndpointAddress, targetAddress c.renumber e) ∈
        c.addresses.filter fun q => endpointIn q.2 :=
      List.mem_filter.2 ⟨hq, (endpointIn_targetAddress he).trans hin⟩
    exact ⟨hinv.initial hmem, hinv.catchesUp hmem⟩
  case writes =>
    intro hout s₀ es s hfresh hl hrun halong realloc halloc fs u hlink hread
    have hs : s.Inv := exec_invariant_along (I := OutPath.Inv)
      (fun _ _ _ h hlate hnext => h.next hlate hnext) hfresh.inv halong hrun
    have hconfigured : s.Configured s₀.configs :=
      exec_invariant (fun _ _ _ h ht => h.next ht) (hfresh.configured rfl) hrun
    have hinfo : getEndpoint usb e.1.bEndpointAddress false ≠ none := by
      obtain ⟨info, hinfo, _⟩ := hknown e he
      rw [hout] at hinfo
      exact Option.ne_none_iff_exists'.2 ⟨info, hinfo⟩
    have hu := exec_invariant (fun _ _ _ h ht => h.next halloc ht)
      (OutLink.inv_start (p := Proxy.ofConfigurations outside outside' (c :: cs) usb)
        hwaiting hstored hsubmits hinfo) hlink
    obtain ⟨hpre, hall⟩ := hu.written_isPrefix hs hread
    rw [filter_sent_eq hc hq hl hconfigured] at hpre hall
    have haccepted := hs.delivered.accepted (targetAddress c.renumber e)
    refine ⟨hpre.trans ⟨_, haccepted.symm⟩, fun heq hidle => ?_⟩
    rw [hidle] at haccepted
    rw [hall heq, haccepted]
    exact (List.append_nil _).symm
  case requests =>
    intro q hmap packet request rest hvalue hrecipient hindex
    have hforward := q.forwards_translate hvalue (ControlRequest.not_isDeviceQualifier hrecipient)
    have hnumber := (c.distinct_iff.2 hc).1.numbers _ hq
    rwa [ControlRequest.translate_endpoint hrecipient hindex
      (Nat.one_le_iff_ne_zero.1 hnumber.1), hmap, serialToUsb_of_distinct hc hq] at hforward

end Transparent

def twoEndpoints : Configuration where
  wTotalLength := 40
  raw := List.replicate 40 0
  interfaces := [⟨[⟨[⟨0x8a, 3, 8⟩, ⟨0x0a, 3, 8⟩]⟩]⟩]
  length_raw := List.length_replicate

def twoEndpointsUsb : Usb :=
  ⟨(Vector.replicate 15 ⟨0, 0⟩).set 9 ⟨3, 8⟩, (Vector.replicate 15 ⟨0, 0⟩).set 9 ⟨3, 8⟩, [], []⟩

theorem twoEndpoints_configured :
    twoEndpoints.configured = [(⟨0x8a, 3, 8⟩, 1), (⟨0x0a, 3, 8⟩, 2)] := by
  decide +kernel

theorem twoEndpointsUsb_knows : twoEndpointsUsb.Knows twoEndpoints := by
  intro e he
  rw [twoEndpoints_configured] at he
  refine ⟨⟨3, 8⟩, ?_, rfl⟩
  rcases List.mem_cons.1 he with rfl | he
  · decide +kernel
  · rw [List.mem_singleton.1 he]
    decide +kernel

end SerialUsb
