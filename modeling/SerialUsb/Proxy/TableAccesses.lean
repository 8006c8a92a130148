import SerialUsb.Proxy.Served

/-!
# Accesses to the endpoint tables

Which elements of `serialToUsbEndpoint`, `usbToSerialEndpoint`, `epProps` and `inPackets`
the functions of `proxy.c` ask for. The macros subtract 1 from a number that may be 0 and
shift a word that may have more than 8 bits.
-/

namespace SerialUsb

open Memory

/-- The indices of an access; the tables with one index have the direction 0. -/
structure TableAccess where
  direction : ℕ
  index : ℤ
  deriving DecidableEq, Repr

def TableAccess.InRange (a : TableAccess) : Prop :=
  a.direction ≤ 1 ∧ 0 ≤ a.index ∧ a.index < endpointMaxNumber

instance (a : TableAccess) : Decidable a.InRange := inferInstanceAs (Decidable (_ ∧ _ ∧ _))

def macroAccess (endpoint : ℕ) : TableAccess :=
  ⟨endpointDirToIndex endpoint, endpointAddrToIndex endpoint⟩

/-- `epProps[epIndex]` and `inPackets[inPacketIndex]`, with a `uint8_t` index. -/
def indexAccess (endpoint : UInt8) : TableAccess := ⟨0, inPacketIndex endpoint⟩

def propertiesAccesses (c : Configuration) : List TableAccess :=
  c.endpoints.map fun e => indexAccess e.bEndpointAddress

/-- The accesses of `fix_endpoints`: those of `get_endpoint_properties` for each
configuration, and two for each endpoint that it registers. -/
def fixEndpointsAccesses (m : EndpointMaps) (cs : List Configuration) : List TableAccess :=
  cs.flatMap propertiesAccesses ++
    (fixEndpoints m cs).1.registered.flatMap fun q =>
      [macroAccess q.1.toNat, macroAccess q.2.toNat]

def pollAccesses (p : Proxy) : List ℕ → List TableAccess
  | [] => []
  | i :: rest =>
      let endpoint := p.serialToUsb.get (0x80 ||| i)
      macroAccess (0x80 ||| i) ::
        if endpoint ≠ 0 then
          let (p, ret) := p.poll endpoint
          if ret < 0 then [] else pollAccesses p rest
        else pollAccesses p rest

def queueAccesses (p : Proxy) (endpoint : UInt8) : List TableAccess :=
  if p.inEpFifo.length = maxEndpoints then []
  else [macroAccess endpoint.toNat, indexAccess endpoint]

def outAccesses (packet : SPacket) : List TableAccess :=
  [macroAccess (packet.value.headD 0).toNat]

def controlAccesses (packet : SPacket) : List TableAccess :=
  let wIndex := ofLe16 (packet.value.getD 4 0) (packet.value.getD 5 0)
  if packet.value.headD 0 &&& 0x1f = 0x02 ∧ wIndex ≠ 0 then [macroAccess wIndex.toNat] else []

def packetAccesses (p : Proxy) (packet : SPacket) : List TableAccess :=
  match PacketType.ofByte? packet.type with
  | some .eTypeEndpoints => pollAccesses { p with initTimer := -1 } (List.range endpointMaxNumber)
  | some .eTypeOut => outAccesses packet
  | some .eTypeControl => controlAccesses packet
  | _ => []

def readCallbackAccesses (p : Proxy) (endpoint : UInt8) (status : Int) : List TableAccess :=
  if status = TransferStatus.error.code ∨ endpoint = 0 ∨ (maxPayloadSizeEp : Int) < status ∨
      status < 0 then []
  else queueAccesses p endpoint

def callbackAccesses (p : Proxy) (transfer : Transfer) (status : TransferStatus) :
    List TableAccess :=
  if status = .cancelled then []
  else if transfer.type = transferTypeControl then
    if transfer.buffer.headD 0 &&& 0x80 ≠ 0 then
      readCallbackAccesses p transfer.endpoint status.code
    else []
  else if endpointIn transfer.endpoint then
    readCallbackAccesses p transfer.endpoint status.code
  else []

theorem macroAccess_inRange_iff (endpoint : ℕ) :
    (macroAccess endpoint).InRange ↔ endpoint < 256 ∧ endpoint % 16 ≠ 0 := by
  have hand : endpoint &&& 0x0f = endpoint % 16 := Nat.and_two_pow_sub_one_eq_mod endpoint 4
  have hshift : endpoint >>> 7 = endpoint / 128 := Nat.shiftRight_eq_div_pow endpoint 7
  unfold TableAccess.InRange macroAccess endpointDirToIndex endpointAddrToIndex
  dsimp only
  rw [hand, hshift, endpointMaxNumber_eq]
  omega

/-- For the byte of an address only the number 0 is out of range. -/
theorem macroAccess_byte_iff (endpoint : UInt8) :
    (macroAccess endpoint.toNat).InRange ↔ endpointNumber endpoint ≠ 0 := by
  rw [macroAccess_inRange_iff]
  exact and_iff_right endpoint.toNat_lt

theorem indexAccess_inRange_iff (endpoint : UInt8) :
    (indexAccess endpoint).InRange ↔ endpointNumber endpoint ≠ 0 := by
  have hlt : endpointNumber endpoint < 16 := Nat.mod_lt _ (by decide)
  unfold TableAccess.InRange indexAccess inPacketIndex
  dsimp only
  rw [endpointMaxNumber_eq]
  omega

def AllInRange (accesses : List TableAccess) : Prop := ∀ a ∈ accesses, a.InRange

instance (accesses : List TableAccess) : Decidable (AllInRange accesses) :=
  inferInstanceAs (Decidable (∀ a ∈ accesses, a.InRange))

theorem allInRange_append {as bs : List TableAccess} :
    AllInRange (as ++ bs) ↔ AllInRange as ∧ AllInRange bs :=
  List.forall_mem_append

/-- `poll_all_endpoints` starts with the number 0. -/
theorem not_allInRange_pollAccesses (p : Proxy) :
    ¬ AllInRange (pollAccesses p (List.range endpointMaxNumber)) := by
  intro h
  have hfirst := h (macroAccess (0x80 ||| 0)) List.mem_cons_self
  exact absurd hfirst (by decide)

/-- The packets that no access out of range is made for: `E_TYPE_ENDPOINTS` makes one, an OUT
packet must name a number, and so must a request to an endpoint, in one byte. -/
def SPacket.Addresses (packet : SPacket) : Prop :=
  packet.type ≠ PacketType.eTypeEndpoints.toByte ∧
    (packet.type = PacketType.eTypeOut.toByte → endpointNumber (packet.value.headD 0) ≠ 0) ∧
    (packet.type = PacketType.eTypeControl.toByte → packet.value.headD 0 &&& 0x1f = 0x02 →
      let wIndex := ofLe16 (packet.value.getD 4 0) (packet.value.getD 5 0)
      wIndex ≠ 0 → wIndex.toNat < 256 ∧ wIndex.toNat % 16 ≠ 0)

instance (packet : SPacket) : Decidable packet.Addresses :=
  inferInstanceAs (Decidable (_ ∧ _ ∧ _))

theorem allInRange_controlAccesses_iff (packet : SPacket) :
    AllInRange (controlAccesses packet) ↔
      (packet.value.headD 0 &&& 0x1f = 0x02 →
        let wIndex := ofLe16 (packet.value.getD 4 0) (packet.value.getD 5 0)
        wIndex ≠ 0 → wIndex.toNat < 256 ∧ wIndex.toNat % 16 ≠ 0) := by
  unfold AllInRange controlAccesses
  dsimp only
  split
  next h =>
    rw [List.forall_mem_singleton, macroAccess_inRange_iff]
    exact ⟨fun hrange _ _ => hrange, fun hrange => hrange h.1 h.2⟩
  next h =>
    exact iff_of_true (fun _ hmem => absurd hmem List.not_mem_nil)
      fun hrecipient hindex => absurd ⟨hrecipient, hindex⟩ h

theorem allInRange_packetAccesses_iff (p : Proxy) (packet : SPacket) :
    AllInRange (packetAccesses p packet) ↔ packet.Addresses := by
  have hnone : AllInRange [] := fun _ hmem => absurd hmem List.not_mem_nil
  unfold packetAccesses SPacket.Addresses
  cases htype : PacketType.ofByte? packet.type with
  | none =>
      have hne : ∀ t : PacketType, packet.type ≠ t.toByte := by
        intro t h
        rw [h, PacketType.ofByte?_toByte] at htype
        exact absurd htype (by simp)
      exact iff_of_true hnone
        ⟨hne _, fun h => absurd h (hne _), fun h => absurd h (hne _)⟩
  | some t =>
      have hbyte : ∀ t' : PacketType, packet.type = t'.toByte ↔ t = t' := by
        intro t'
        rw [PacketType.eq_toByte_of_ofByte? htype]
        exact PacketType.toByte_injective.eq_iff
      simp only [ne_eq, hbyte]
      cases t with
      | eTypeEndpoints =>
          exact iff_of_false (not_allInRange_pollAccesses _) fun h => h.1 rfl
      | eTypeOut =>
          have hout : AllInRange (outAccesses packet) ↔
              endpointNumber (packet.value.headD 0) ≠ 0 := by
            unfold AllInRange outAccesses
            rw [List.forall_mem_singleton, macroAccess_byte_iff]
          refine hout.trans ⟨fun h => ⟨by simp, fun _ => h, by simp⟩, fun h => h.2.1 rfl⟩
      | eTypeControl =>
          refine (allInRange_controlAccesses_iff packet).trans
            ⟨fun h => ⟨by simp, by simp, fun _ => h⟩, fun h => h.2.2 rfl⟩
      | eTypeDescriptors => exact iff_of_true hnone (by simp)
      | eTypeIndex => exact iff_of_true hnone (by simp)
      | eTypeReset => exact iff_of_true hnone (by simp)
      | eTypeControlStall => exact iff_of_true hnone (by simp)
      | eTypeIn => exact iff_of_true hnone (by simp)
      | eTypeDebug => exact iff_of_true hnone (by simp)

/-- The descriptions for which `fix_endpoints` stays in the tables: no endpoint has the
number 0, and none is registered under it. -/
def Numbered (cs : List Configuration) : Prop :=
  (∀ c ∈ cs, ∀ e ∈ c.endpoints, endpointNumber e.bEndpointAddress ≠ 0) ∧
    ∀ c, cs.head? = some c → c.renumber = true → ∀ e ∈ c.configured, e.2 % 256 ≠ 0

theorem allInRange_propertiesAccesses_iff (c : Configuration) :
    AllInRange (propertiesAccesses c) ↔
      ∀ e ∈ c.endpoints, endpointNumber e.bEndpointAddress ≠ 0 := by
  unfold AllInRange propertiesAccesses
  rw [List.forall_mem_map]
  exact forall₂_congr fun e _ => indexAccess_inRange_iff e.bEndpointAddress

/-- The new addresses have a number exactly when renumbering gives none the number 0. -/
theorem Configuration.targets_numbered_iff (c : Configuration) :
    (∀ q ∈ c.addresses, endpointNumber q.2 ≠ 0) ↔
      (c.renumber = true → ∀ e ∈ c.configured, e.2 % 256 ≠ 0) := by
  unfold Configuration.addresses
  rw [List.forall_mem_map]
  cases hc : c.renumber with
  | false =>
      refine iff_of_true (fun e he => ?_) fun h => absurd h Bool.false_ne_true
      exact (of_mem_configured he).2.1
  | true =>
      have htarget : ∀ e ∈ c.configured, endpointNumber (targetAddress true e) = e.2 % 256 :=
        fun e he => (targetAddress_true ((of_mem_configured he).2.2 hc)).1
      refine ⟨fun h _ e he => ?_, fun h e he => ?_⟩
      · rw [← htarget e he]
        exact h e he
      · rw [htarget e he]
        exact h rfl e he

theorem allInRange_fixEndpointsAccesses_iff (outside outside' : ℤ → UInt8)
    (cs : List Configuration) :
    AllInRange (fixEndpointsAccesses (EndpointMaps.start outside outside') cs) ↔
      Numbered cs := by
  unfold fixEndpointsAccesses Numbered
  rw [allInRange_append]
  refine and_congr ?_ ?_
  · unfold AllInRange
    rw [List.forall_mem_flatMap]
    exact forall₂_congr fun c _ => allInRange_propertiesAccesses_iff c
  · cases cs with
    | nil => exact iff_of_true (fun _ hmem => absurd hmem List.not_mem_nil) (by simp)
    | cons c cs =>
        rw [(fixEndpoints_cons outside outside' c cs).2]
        have horiginals : ∀ q ∈ c.addresses, endpointNumber q.1 ≠ 0 := by
          intro q hq
          obtain ⟨e, he, rfl⟩ := List.mem_map.1 hq
          exact (Configuration.of_mem_configured he).2.1
        have hregistered : AllInRange (c.addresses.flatMap fun q =>
            [macroAccess q.1.toNat, macroAccess q.2.toNat]) ↔
            ∀ q ∈ c.addresses, endpointNumber q.2 ≠ 0 := by
          unfold AllInRange
          rw [List.forall_mem_flatMap]
          refine forall₂_congr fun q hq => ?_
          rw [List.forall_mem_cons, List.forall_mem_singleton, macroAccess_byte_iff,
            macroAccess_byte_iff]
          exact and_iff_right (horiginals q hq)
        rw [hregistered, c.targets_numbered_iff]
        simp

end SerialUsb
