import SerialUsb.Proxy.ControlPackets
import SerialUsb.Proxy.EndpointMaps

/-!
# Requests to an endpoint

`send_control_packet` reads the endpoint of the device from `serialToUsbEndpoint`, which
`fix_endpoints` fills for the endpoints that it registers. A request to such an endpoint
goes to the one it names, unless a later one of another address has taken its element.
-/

namespace SerialUsb

open Memory

def EndpointMaps.Tracks (s : ℤ → UInt8) (m : EndpointMaps) : Prop :=
  ∀ a : UInt8, endpointNumber a ≠ 0 →
    m.serialToUsb.get a.toNat = backward slot s m.registered (slot a)

theorem EndpointMaps.Tracks.register {s : ℤ → UInt8} {m : EndpointMaps} (hm : m.Tracks s)
    (e : EndpointDescriptor) (address : UInt8) : (m.register e address).Tracks s := by
  intro a ha
  change (m.serialToUsb.set address.toNat e.bEndpointAddress).get a.toNat = _
  have hlast : backward slot s (m.register e address).registered =
      Function.update (backward slot s m.registered) (slot address) e.bEndpointAddress := by
    unfold backward assignAll EndpointMaps.register
    rw [List.map_append, List.foldl_append]
    rfl
  rw [hlast]
  by_cases h : slot a = slot address
  · have hbounds : 0 ≤ tableIndex address.toNat ∧ tableIndex address.toNat < 30 := by
      have hself := tableIndex_bounds ha
      rwa [show tableIndex a.toNat = tableIndex address.toNat from h] at hself
    rw [h, Function.update_self, EndpointTable.get_congr _ h]
    simp [EndpointTable.set, EndpointTable.get, hbounds]
  · rw [Function.update_of_ne h, EndpointTable.get_set_of_ne _ _ (Ne.symm h)]
    exact hm a ha

theorem EndpointMaps.Tracks.fixEndpoint {s : ℤ → UInt8} {m : EndpointMaps} (hm : m.Tracks s)
    (configurationIndex : ℕ) (renumber : Bool) (e : EndpointDescriptor) :
    (fixEndpoint configurationIndex renumber m e).1.Tracks s := by
  obtain ⟨number, address, _, _, _, hfst⟩ := fixEndpoint_cases configurationIndex renumber m e
  rw [hfst]
  have hcounted : ({ m with number := number } : EndpointMaps).Tracks s := hm
  split
  · exact hcounted
  · exact hcounted.register e address

theorem EndpointMaps.Tracks.foldl {s : ℤ → UInt8} {m : EndpointMaps} (hm : m.Tracks s)
    (configurationIndex : ℕ) (renumber : Bool) (es : List EndpointDescriptor) :
    (es.foldl (fun m e => (SerialUsb.fixEndpoint configurationIndex renumber m e).1) m).Tracks
      s := by
  induction es generalizing m with
  | nil => exact hm
  | cons e es ih => exact ih (hm.fixEndpoint configurationIndex renumber e)

theorem tracks_fixEndpoints (outside outside' : ℤ → UInt8) (c : Configuration)
    (cs : List Configuration) :
    (fixEndpoints (EndpointMaps.start outside outside') (c :: cs)).1.Tracks
      (EndpointMaps.start outside outside').serialToUsb.slots := by
  obtain ⟨number, hrest⟩ := fixConfigurations_succ 0 cs
    (fixConfiguration 0 (EndpointMaps.start outside outside') c).1
  have hfix : (fixEndpoints (EndpointMaps.start outside outside') (c :: cs)).1 =
      { (fixConfiguration 0 (EndpointMaps.start outside outside') c).1 with number := number } :=
    hrest
  rw [hfix, fixConfiguration_fst]
  have hstart : (EndpointMaps.start outside outside').Tracks
      (EndpointMaps.start outside outside').serialToUsb.slots := fun _ _ => rfl
  exact hstart.foldl 0 c.renumber c.endpoints

/-- The rewritten descriptors of a configuration advertise the target addresses. -/
theorem forEach_fixEndpoint_addresses (configurationIndex : ℕ) (renumber : Bool)
    (es : List EndpointDescriptor) (m : EndpointMaps) (k : ℕ)
    (hm : m.number = if renumber then UInt8.ofNat k else 0) :
    (forEach (fixEndpoint configurationIndex renumber) m es).2.map
        EndpointDescriptor.bEndpointAddress =
      (es.zipIdx (k + 1)).map (targetAddress renumber) := by
  induction es generalizing m k with
  | nil => rfl
  | cons e es ih =>
      obtain ⟨number, address, hnumber, haddress, hsnd, hfst⟩ :=
        fixEndpoint_cases configurationIndex renumber m e
      have hcount : number = if renumber then UInt8.ofNat (k + 1) else 0 := by
        rw [hnumber, hm, UInt8.ofNat_add]
        cases renumber <;> rfl
      have hkept : (fixEndpoint configurationIndex renumber m e).1.number = number := by
        rw [hfst]
        split <;> rfl
      rw [forEach_cons, List.map_cons, List.zipIdx_cons, List.map_cons,
        ih _ (k + 1) (hkept.trans hcount), hsnd]
      congr 1
      unfold targetAddress
      rw [haddress, hcount]
      cases renumber <;> rfl

theorem fixConfiguration_addresses (configurationIndex : ℕ) (m : EndpointMaps)
    (c : Configuration) :
    (fixConfiguration configurationIndex m c).2.endpoints.map
        EndpointDescriptor.bEndpointAddress =
      (c.endpoints.zipIdx 1).map (targetAddress c.renumber) := by
  rw [(fixConfiguration_eq configurationIndex m c).2]
  exact forEach_fixEndpoint_addresses configurationIndex c.renumber c.endpoints _ 0
    (by cases c.renumber <;> rfl)

def firstAddresses (cs : List Configuration) : List UInt8 :=
  (cs.head?.elim [] Configuration.endpoints).map EndpointDescriptor.bEndpointAddress

/-- What is registered are addresses of the first configuration, each with the address that
the rewritten configuration advertises for it. -/
theorem registered_sublist (outside outside' : ℤ → UInt8) (cs : List Configuration) :
    (fixEndpoints (EndpointMaps.start outside outside') cs).1.registered.Sublist
      ((firstAddresses cs).zip
        (firstAddresses (fixEndpoints (EndpointMaps.start outside outside') cs).2)) := by
  cases cs with
  | nil => exact List.Sublist.refl _
  | cons c cs =>
      have hoffered : firstAddresses (fixEndpoints (EndpointMaps.start outside outside')
          (c :: cs)).2 = (c.endpoints.zipIdx 1).map (targetAddress c.renumber) :=
        fixConfiguration_addresses 0 (EndpointMaps.start outside outside') c
      have horiginal : firstAddresses (c :: cs) =
          (c.endpoints.zipIdx 1).map fun e => e.1.bEndpointAddress := by
        have hfst : (c.endpoints.zipIdx 1).map Prod.fst = c.endpoints := List.zipIdx_map_fst ..
        calc firstAddresses (c :: cs)
            = ((c.endpoints.zipIdx 1).map Prod.fst).map EndpointDescriptor.bEndpointAddress := by
              rw [hfst]
              rfl
          _ = _ := List.map_map
      rw [(fixEndpoints_cons outside outside' c cs).2, hoffered, horiginal, List.zip_map']
      exact List.filter_sublist.map _

def Proxy.Forwards (p : Proxy) (packet : SPacket) (value : List UInt8) : Prop :=
  ∃ packet' : SPacket, packet'.value = value ∧ packet'.length = packet.length ∧
    sendControlPacket p packet =
      ({ p with usb := (submitTransfer p.usb (controlTransfer packet')).1 }, packet',
        (submitTransfer p.usb (controlTransfer packet')).2)

theorem Proxy.forwards_translate (p : Proxy) {packet : SPacket} {r : ControlRequest}
    {rest : List UInt8} (hvalue : packet.value = r.bytes ++ rest) (h : ¬ r.IsDeviceQualifier) :
    p.Forwards packet ((r.translate p.serialToUsb).bytes ++ rest) := by
  have hvalue' := translateIndex_value p hvalue
  refine ⟨translateIndex p packet, hvalue', translateIndex_length p packet, ?_⟩
  refine sendControlPacket_of_not_isDeviceQualifier ?_
  rwa [isDeviceQualifier_iff hvalue', r.isDeviceQualifier_translate p.serialToUsb]

/-- How `send_control_packet` treats requests when the pairs of addresses are registered. -/
structure Proxy.Routes (p : Proxy) (registered : List (UInt8 × UInt8)) : Prop where
  /-- a request to a registered endpoint, whose element no later one has taken -/
  toEndpoint : ∀ before q after, registered = before ++ q :: after → endpointNumber q.2 ≠ 0 →
    (∀ q' ∈ after, directionNumber q'.2 = directionNumber q.2 → q'.1 = q.1) →
    ∀ packet r rest, packet.value = ControlRequest.bytes r ++ rest →
      r.bmRequestType &&& 0x1f = 0x02 → r.wIndex = q.2.toUInt16 →
        p.Forwards packet ({ r with wIndex := q.1.toUInt16 }.bytes ++ rest)
  /-- a request to another endpoint is not sent to a registered one -/
  named : (∀ q ∈ registered, q.1 ≠ 0 ∧ endpointNumber q.2 ≠ 0) → ∀ a, endpointNumber a ≠ 0 →
    ∀ packet r rest, packet.value = ControlRequest.bytes r ++ rest →
      r.bmRequestType &&& 0x1f = 0x02 → r.wIndex = a.toUInt16 →
        ∃ index, p.Forwards packet ({ r with wIndex := index }.bytes ++ rest) ∧
          ∀ q ∈ registered, index = q.1.toUInt16 →
            ∃ q' ∈ registered, q'.1 = q.1 ∧ directionNumber q'.2 = directionNumber a
  toOther : ∀ packet r rest, packet.value = ControlRequest.bytes r ++ rest →
    r.bmRequestType &&& 0x1f ≠ 0x02 → ¬ r.IsDeviceQualifier → p.Forwards packet packet.value
  /-- the request that is never forwarded -/
  stalled : ∀ packet r rest, packet.value = ControlRequest.bytes r ++ rest →
    r.IsDeviceQualifier →
      sendControlPacket p packet =
        ((p.send .eTypeControlStall []).1, packet, (p.send .eTypeControlStall []).2)

theorem ControlRequest.not_isDeviceQualifier {r : ControlRequest}
    (h : r.bmRequestType &&& 0x1f = 0x02) : ¬ r.IsDeviceQualifier := by
  rintro ⟨hrequest, _⟩
  rw [hrequest] at h
  exact absurd h (by decide)

theorem ControlRequest.translate_endpoint {r : ControlRequest} {a : UInt8}
    (hrecipient : r.bmRequestType &&& 0x1f = 0x02) (hindex : r.wIndex = a.toUInt16)
    (ha : endpointNumber a ≠ 0) (serialToUsb : EndpointTable) :
    r.translate serialToUsb = { r with wIndex := (serialToUsb.get a.toNat).toUInt16 } := by
  have hnat : r.wIndex.toNat = a.toNat := by
    rw [hindex, UInt8.toNat_toUInt16]
  have hne : r.wIndex ≠ 0 := by
    intro hzero
    rw [hzero] at hnat
    unfold endpointNumber at ha
    exact ha (by rw [← hnat]; rfl)
  unfold translate
  rw [if_pos ⟨hrecipient, hne⟩, hnat]

theorem directionNumber_eq_of_slot {a b : UInt8} (ha : endpointNumber a ≤ maxEndpoints)
    (hb : endpointNumber b ≤ maxEndpoints) (h : slot a = slot b) :
    directionNumber a = directionNumber b := by
  rcases (tableIndex_eq_iff a b).1 h with ⟨hin, hnumber⟩ | ⟨_, ⟨_, hlarge, _⟩ | ⟨hlarge, _⟩⟩
  · exact Prod.ext hin hnumber
  · exact absurd (hlarge ▸ hb) (by decide)
  · exact absurd (hlarge ▸ ha) (by decide)

theorem Configuration.number_addresses_le (c : Configuration) :
    ∀ q ∈ c.addresses, endpointNumber q.2 ≤ maxEndpoints := by
  intro q hq
  obtain ⟨e, he, rfl⟩ := List.mem_map.1 hq
  exact endpointNumber_targetAddress_le he

theorem Proxy.routes_of_tracks (p : Proxy) {s : ℤ → UInt8} {m : EndpointMaps} (hm : m.Tracks s)
    (hsmall : ∀ q ∈ m.registered, endpointNumber q.2 ≤ maxEndpoints)
    (hzero : ∀ i, 0 ≤ i → i < 30 → s i = 0) (hp : p.serialToUsb = m.serialToUsb) :
    p.Routes m.registered where
  toEndpoint := by
    intro before q after hsplit hq hlast packet r rest hvalue hrecipient hindex
    have hget : m.serialToUsb.get q.2.toNat = q.1 := by
      rw [hm q.2 hq, hsplit]
      unfold backward
      rw [List.map_append, List.map_cons]
      refine assignAll_of_last (p := (slot q.2, q.1)) fun pair hpair hslot => ?_
      obtain ⟨q', hq', rfl⟩ := List.mem_map.1 hpair
      refine hlast q' hq' ?_
      have hmem : ∀ x ∈ q :: after, endpointNumber x.2 ≤ maxEndpoints :=
        fun x hx => hsmall x (hsplit ▸ List.mem_append_right _ hx)
      exact directionNumber_eq_of_slot (hmem q' (List.mem_cons_of_mem _ hq'))
        (hmem q List.mem_cons_self) hslot
    have hforward := p.forwards_translate hvalue (ControlRequest.not_isDeviceQualifier hrecipient)
    rwa [ControlRequest.translate_endpoint hrecipient hindex hq, hp, hget] at hforward
  named := by
    intro hnumbers a ha packet r rest hvalue hrecipient hindex
    have hforward := p.forwards_translate hvalue (ControlRequest.not_isDeviceQualifier hrecipient)
    rw [ControlRequest.translate_endpoint hrecipient hindex ha, hp, hm a ha] at hforward
    refine ⟨_, hforward, fun q hq hindex => ?_⟩
    have hsame : backward slot s m.registered (slot a) = q.1 := by
      have hnat := congrArg UInt16.toNat hindex
      rw [UInt8.toNat_toUInt16, UInt8.toNat_toUInt16] at hnat
      exact UInt8.toNat_inj.1 hnat
    rcases assignAll_eq_or_mem s (m.registered.map fun q => (slot q.2, q.1)) (slot a) with
      hkept | hmem
    · have hbounds := tableIndex_bounds ha
      have hnone : backward slot s m.registered (slot a) = 0 :=
        hkept.trans (hzero _ hbounds.1 hbounds.2)
      exact absurd (hsame.symm.trans hnone) (hnumbers q hq).1
    · obtain ⟨q', hq', heq⟩ := List.mem_map.1 hmem
      rw [Prod.mk.injEq] at heq
      exact ⟨q', hq', heq.2.trans hsame, (slot_eq_iff (hnumbers q' hq').2 ha).1 heq.1⟩
  toOther := by
    intro packet r rest hvalue hrecipient hqualifier
    have hforward := p.forwards_translate hvalue hqualifier
    unfold ControlRequest.translate at hforward
    rwa [if_neg fun h => hrecipient h.1, ← hvalue] at hforward
  stalled := by
    intro packet r rest hvalue hqualifier
    have hsame : translateIndex p packet = packet := by
      unfold translateIndex
      dsimp only
      rw [if_neg]
      rintro ⟨hrecipient, _⟩
      rw [hvalue] at hrecipient
      exact ControlRequest.not_isDeviceQualifier hrecipient hqualifier
    unfold sendControlPacket
    dsimp only
    rw [hsame, if_pos ((isDeviceQualifier_iff hvalue).2 hqualifier)]

/-- Requests to the endpoints that are registered reach them, and only the request for the
device qualifier is not forwarded. -/
theorem routes_fixEndpoints (outside outside' : ℤ → UInt8) (cs : List Configuration)
    (p : Proxy) :
    let (m, rewritten) := fixEndpoints (EndpointMaps.start outside outside') cs
    m.registered.Sublist ((firstAddresses cs).zip (firstAddresses rewritten)) ∧
      Proxy.Routes { p with serialToUsb := m.serialToUsb } m.registered := by
  have hzero : ∀ i, 0 ≤ i → i < 30 →
      (EndpointMaps.start outside outside').serialToUsb.slots i = 0 := by
    intro i hi hi'
    unfold EndpointTable.slots EndpointMaps.start
    rw [dif_pos ⟨hi, hi'⟩]
    exact Vector.getElem_replicate _
  refine ⟨registered_sublist outside outside' cs, ?_⟩
  cases cs with
  | nil =>
      have hstart : (EndpointMaps.start outside outside').Tracks
          (EndpointMaps.start outside outside').serialToUsb.slots := fun _ _ => rfl
      exact Proxy.routes_of_tracks _ hstart (fun _ hq => absurd hq List.not_mem_nil) hzero rfl
  | cons c cs =>
      have hsmall : ∀ q ∈ (fixEndpoints (EndpointMaps.start outside outside')
          (c :: cs)).1.registered, endpointNumber q.2 ≤ maxEndpoints := by
        rw [(fixEndpoints_cons outside outside' c cs).2]
        exact c.number_addresses_le
      exact Proxy.routes_of_tracks _ (tracks_fixEndpoints outside outside' c cs) hsmall hzero rfl

def bulkInterface : Configuration where
  wTotalLength := 25
  raw := List.replicate 25 0
  interfaces := [⟨[⟨[⟨0x81, 2, 64⟩]⟩]⟩]
  length_raw := List.length_replicate

def clearHalt (endpoint : UInt8) : ControlRequest := ⟨0x02, 1, 0, endpoint.toUInt16, 0⟩

/-- The bulk endpoint is advertised and not registered: a request to it goes to endpoint 0.
And the request for the device qualifier, which is not made to an endpoint, is stalled. -/
theorem bulkInterface_redirected :
    firstAddresses (fixEndpoints (EndpointMaps.start 0 0) [bulkInterface]).2 = [0x81] ∧
      (∀ (p : Proxy) (packet : SPacket) (rest : List UInt8),
        p.serialToUsb = (fixEndpoints (EndpointMaps.start 0 0) [bulkInterface]).1.serialToUsb →
        packet.value = (clearHalt 0x81).bytes ++ rest →
          p.Forwards packet ((clearHalt 0).bytes ++ rest)) ∧
      ∀ (p : Proxy) (packet : SPacket) (rest : List UInt8),
        packet.value = (⟨0x80, 6, 0x0600, 0, 10⟩ : ControlRequest).bytes ++ rest →
          (sendControlPacket p packet).1.usb = p.usb := by
  refine ⟨by decide +kernel, fun p packet rest hp hvalue => ?_, fun p packet rest hvalue => ?_⟩
  · have hforward := p.forwards_translate hvalue (ControlRequest.not_isDeviceQualifier rfl)
    rw [hp] at hforward
    have htranslated : (clearHalt 0x81).translate (fixEndpoints (EndpointMaps.start 0 0)
        [bulkInterface]).1.serialToUsb = clearHalt 0 := by
      decide +kernel
    rwa [htranslated] at hforward
  · have hqualifier : isDeviceQualifier (translateIndex p packet) := by
      rw [isDeviceQualifier_iff (translateIndex_value p hvalue),
        ControlRequest.isDeviceQualifier_translate]
      decide
    unfold sendControlPacket
    dsimp only
    rw [if_pos hqualifier]
    rfl

end SerialUsb
