import SerialUsb.Proxy.Served
import SerialUsb.Proxy.Spec

/-!
# The IN endpoints of the proxy

Each configured IN endpoint is polled, waits in the queue, or has its packet at the
firmware. `Proxy.Credit` is this invariant of the proxy; the two steps that move an
endpoint on are the end of its poll (`usbCallback_credit`) and the acknowledgement
of its packet (`ackIn_credit`).
-/

namespace SerialUsb

open Framing Memory

/-- The pairs of original and target addresses of the configured IN endpoints: the
maps are inverse to each other on them, and no other endpoint is polled. -/
structure Proxy.InTables (p : Proxy) (l : List (UInt8 × UInt8)) : Prop where
  length_le : l.length ≤ maxEndpoints
  nodup : l.Nodup
  serialToUsb : ∀ q ∈ l, p.serialToUsb.get q.2.toNat = q.1
  usbToSerial : ∀ q ∈ l, p.usbToSerial.get q.1.toNat = q.2
  target : ∀ q ∈ l, endpointIn q.2 = true ∧ 1 ≤ endpointNumber q.2 ∧
    endpointNumber q.2 ≤ maxEndpoints
  original : ∀ q ∈ l, ∃ info, getEndpoint p.usb q.1 true = some info ∧
    info.type = transferTypeInterrupt
  others : ∀ i < endpointMaxNumber, p.serialToUsb.get (0x80 ||| i) ≠ 0 →
    ∃ q ∈ l, endpointNumber q.2 = i

/-- Each configured IN endpoint is in exactly one place, with libusb and the serial
line in order. -/
structure Proxy.Credit (p : Proxy) (l : List (UInt8 × UInt8)) : Prop where
  tables : p.InTables l
  writes : p.serial.writes = []
  submits : p.usb.submits = []
  done : p.done = false
  polls : ∀ t ∈ p.usb.transfers, t.type = transferTypeInterrupt ∧ ∃ q ∈ l, t.endpoint = q.1
  fifo : ∀ o ∈ p.inEpFifo, ∃ q ∈ l, o = q.1
  pending : p.inPending ≠ 0 → ∃ q ∈ l, p.inPending = q.1
  idle : p.inPending = 0 → p.inEpFifo = []
  once : ∀ q ∈ l, p.polled.count q.1 + p.inEpFifo.count q.1 +
    (if p.inPending = q.1 then 1 else 0) = 1

section Tables

variable {p : Proxy} {l : List (UInt8 × UInt8)} {q q' : UInt8 × UInt8}

theorem tableIndex_target {q : UInt8} (hin : endpointIn q = true) :
    tableIndex q.toNat = endpointNumber q + 14 := by
  have h128 := (endpointIn_iff q).1 hin
  have hlt := q.toNat_lt
  rw [tableIndex_eq]
  unfold endpointNumber
  omega

theorem Proxy.InTables.original_ne_zero (h : p.InTables l) (hq : q ∈ l) : q.1 ≠ 0 := by
  obtain ⟨info, hinfo, _⟩ := h.original q hq
  exact ne_zero_of_endpointNumber (getEndpoint_some hinfo).2

theorem Proxy.InTables.target_ne_zero (h : p.InTables l) (hq : q ∈ l) : q.2 ≠ 0 :=
  ne_zero_of_endpointNumber (Nat.one_le_iff_ne_zero.1 (h.target q hq).2.1)

theorem Proxy.InTables.eq_of_original (h : p.InTables l) (hq : q ∈ l) (hq' : q' ∈ l)
    (heq : q.1 = q'.1) : q = q' := by
  refine Prod.ext heq ?_
  rw [← h.usbToSerial q hq, ← h.usbToSerial q' hq', heq]

theorem Proxy.InTables.eq_of_target (h : p.InTables l) (hq : q ∈ l) (hq' : q' ∈ l)
    (heq : q.2 = q'.2) : q = q' := by
  refine Prod.ext ?_ heq
  rw [← h.serialToUsb q hq, ← h.serialToUsb q' hq', heq]

theorem inPacketIndex_lt (endpoint : UInt8) (h : endpointNumber endpoint ≠ 0) :
    inPacketIndex endpoint < endpointMaxNumber := by
  have hlt : endpointNumber endpoint < 16 := Nat.mod_lt _ (by decide)
  unfold inPacketIndex
  rw [endpointMaxNumber_eq]
  omega

theorem Proxy.InTables.eq_of_inPacketIndex (h : p.InTables l) (hq : q ∈ l) (hq' : q' ∈ l)
    (heq : inPacketIndex q.1 = inPacketIndex q'.1) : q = q' := by
  obtain ⟨_, hinfo, _⟩ := h.original q hq
  obtain ⟨_, hinfo', _⟩ := h.original q' hq'
  obtain ⟨hin, hnumber⟩ := getEndpoint_some hinfo
  obtain ⟨hin', hnumber'⟩ := getEndpoint_some hinfo'
  have hsame : endpointNumber q.1 = endpointNumber q'.1 := by
    have hlt : endpointNumber q.1 < 16 := Nat.mod_lt _ (by decide)
    have hlt' : endpointNumber q'.1 < 16 := Nat.mod_lt _ (by decide)
    unfold inPacketIndex at heq
    omega
  have hslot : tableIndex q.1.toNat = tableIndex q'.1.toNat :=
    (tableIndex_eq_iff q.1 q'.1).2 (Or.inl ⟨hin.trans hin'.symm, hsame⟩)
  refine h.eq_of_target hq hq' ?_
  rw [← h.usbToSerial q hq, ← h.usbToSerial q' hq', p.usbToSerial.get_congr hslot]

theorem Proxy.InTables.congr {p' : Proxy} (h : p.InTables l)
    (hs : p'.serialToUsb = p.serialToUsb) (hu : p'.usbToSerial = p.usbToSerial)
    (hin : p'.usb.inInfo = p.usb.inInfo) : p'.InTables l where
  length_le := h.length_le
  nodup := h.nodup
  serialToUsb := hs ▸ h.serialToUsb
  usbToSerial := hu ▸ h.usbToSerial
  target := h.target
  original := by
    intro q hq
    obtain ⟨info, hinfo, htype⟩ := h.original q hq
    refine ⟨info, ?_, htype⟩
    rw [← hinfo]
    unfold getEndpoint
    simp only [hin, if_true]
  others := hs ▸ h.others

end Tables

/-- The registered IN endpoints have different numbers from 1 to 6. -/
theorem Usable.length_in_le {l : List (UInt8 × UInt8)} (h : Usable l)
    (hslot : (l.map fun q => slot q.2).Nodup) :
    (l.filter fun q => endpointIn q.2).length ≤ maxEndpoints := by
  have hmem : ∀ q ∈ l.filter fun q => endpointIn q.2, q ∈ l ∧ endpointIn q.2 = true :=
    fun q hq => List.mem_filter.1 hq
  have hslots : ((l.filter fun q => endpointIn q.2).map fun q => slot q.2).Nodup := by
    rw [List.Nodup, List.pairwise_map] at hslot ⊢
    exact hslot.filter _
  have hsame : ∀ q ∈ l.filter (fun q => endpointIn q.2),
      ∀ q' ∈ l.filter (fun q => endpointIn q.2),
      endpointNumber q.2 = endpointNumber q'.2 ↔ slot q.2 = slot q'.2 := by
    intro q hq q' hq'
    have htarget := tableIndex_target (hmem q hq).2
    have htarget' := tableIndex_target (hmem q' hq').2
    unfold slot
    omega
  have hnodup : ((l.filter fun q => endpointIn q.2).map fun q => endpointNumber q.2).Nodup :=
    (nodup_map_congr hsame).2 hslots
  have hsubset : ((l.filter fun q => endpointIn q.2).map fun q => endpointNumber q.2) ⊆
      List.range' 1 maxEndpoints := by
    intro n hn
    obtain ⟨q, hq, rfl⟩ := List.mem_map.1 hn
    have hrange := h.numbers q (hmem q hq).1
    rw [List.mem_range'_1]
    omega
  have hlength := (hnodup.subperm hsubset).length_le
  rwa [List.length_map, List.length_range'] at hlength

theorem EndpointMaps.FilledOver.inTables {u s : ℤ → UInt8} {m : EndpointMaps}
    (hm : m.FilledOver u s) (hzero : ∀ i < endpointMaxNumber, s (i + 14) = 0)
    (hbijection : m.Bijection) {p : Proxy} (hs : p.serialToUsb = m.serialToUsb)
    (hu : p.usbToSerial = m.usbToSerial)
    (hinfo : ∀ q ∈ m.registered, endpointIn q.2 = true → ∃ info,
      getEndpoint p.usb q.1 true = some info ∧ info.type = transferTypeInterrupt) :
    p.InTables (m.registered.filter fun q => endpointIn q.2) := by
  obtain ⟨husable, hslot, hslot'⟩ := (hm.bijection_iff hzero).1 hbijection
  have hnumbers := fun q hq => Nat.one_le_iff_ne_zero.1 (husable.numbers q hq).1
  have hmem : ∀ q ∈ m.registered.filter fun q => endpointIn q.2,
      q ∈ m.registered ∧ endpointIn q.2 = true := fun q hq => List.mem_filter.1 hq
  constructor
  case length_le => exact husable.length_in_le hslot'
  case nodup => exact (List.Nodup.of_map _ hslot').filter _
  case serialToUsb =>
    intro q hq
    rw [hs]
    exact (congrFun (hm.serialToUsb hnumbers) _).trans (backward_of_nodup hslot' (hmem q hq).1)
  case usbToSerial =>
    intro q hq
    rw [hu]
    exact (congrFun hm.usbToSerial _).trans (forward_of_nodup hslot (hmem q hq).1)
  case target => exact fun q hq => ⟨(hmem q hq).2, husable.numbers q (hmem q hq).1⟩
  case original => exact fun q hq => hinfo q (hmem q hq).1 (hmem q hq).2
  case others =>
    intro i hi hne
    rw [hs] at hne
    obtain ⟨q, hq, hindex, _⟩ := hm.exists_of_get_ne_zero hzero hnumbers hi hne
    have hin : endpointIn q.2 = true := by
      have hrange := husable.numbers q hq
      rw [endpointIn_iff]
      unfold slot at hindex
      rw [tableIndex_eq] at hindex
      unfold endpointNumber at hrange
      rw [maxEndpoints_eq] at hrange
      omega
    refine ⟨q, List.mem_filter.2 ⟨hq, hin⟩, ?_⟩
    unfold slot at hindex
    rw [tableIndex_target hin] at hindex
    omega

/-- After `fix_endpoints` the maps are inverse to each other on the configured IN
endpoints when the first configuration uses no address twice. -/
theorem inTables_fixEndpoints {outside outside' : ℤ → UInt8} {c : Configuration}
    {cs : List Configuration} (hc : c.Distinct) {p : Proxy}
    (hs : p.serialToUsb =
      (fixEndpoints (EndpointMaps.start outside outside') (c :: cs)).1.serialToUsb)
    (hu : p.usbToSerial =
      (fixEndpoints (EndpointMaps.start outside outside') (c :: cs)).1.usbToSerial)
    (hinfo : ∀ q ∈ c.addresses, endpointIn q.2 = true → ∃ info,
      getEndpoint p.usb q.1 true = some info ∧ info.type = transferTypeInterrupt) :
    p.InTables (c.addresses.filter fun q => endpointIn q.2) := by
  obtain ⟨hfilled, hregistered⟩ := fixEndpoints_cons outside outside' c cs
  have hbijection := (hfilled.bijection_iff (EndpointMaps.start_serialToUsb outside outside')).2
    (hregistered ▸ c.distinct_iff.2 hc)
  rw [← hregistered] at hinfo ⊢
  exact hfilled.inTables (EndpointMaps.start_serialToUsb outside outside') hbijection hs hu hinfo

theorem Proxy.poll_eq {p : Proxy} {l : List (UInt8 × UInt8)} (h : p.InTables l)
    (hsubmits : p.usb.submits = []) {q : UInt8 × UInt8} (hq : q ∈ l) :
    ∃ t : Transfer, t.endpoint = q.1 ∧ t.type = transferTypeInterrupt ∧
      p.poll q.1 = ({ p with usb := { p.usb with transfers := p.usb.transfers ++ [t] } }, 0) := by
  obtain ⟨info, hinfo, htype⟩ := h.original q hq
  refine ⟨⟨q.1, transferTypeInterrupt, List.replicate info.size.toNat 0, info.size.toNat⟩,
    rfl, rfl, ?_⟩
  unfold Proxy.poll gusbPoll
  simp only [hinfo, htype, if_true, submitTransfer_of_nil hsubmits]

theorem pollEndpoints_eq {p : Proxy} {l : List (UInt8 × UInt8)} (h : p.InTables l)
    (hsubmits : p.usb.submits = []) {is : List ℕ} (his : ∀ i ∈ is, i < endpointMaxNumber) :
    ∃ ts : List Transfer,
      ts.map Transfer.endpoint =
        (is.map fun i => p.serialToUsb.get (0x80 ||| i)).filter (· ≠ 0) ∧
      (∀ t ∈ ts, t.type = transferTypeInterrupt ∧ ∃ q ∈ l, t.endpoint = q.1) ∧
      pollEndpoints p is =
        ({ p with usb := { p.usb with transfers := p.usb.transfers ++ ts } }, 0) := by
  induction is generalizing p with
  | nil => exact ⟨[], rfl, by simp, by simp [pollEndpoints]⟩
  | cons i is ih =>
      have his' := fun j hj => his j (List.mem_cons_of_mem i hj)
      rw [pollEndpoints, List.map_cons]
      by_cases hzero : p.serialToUsb.get (0x80 ||| i) = 0
      · obtain ⟨ts, hts, hpolls, heq⟩ := ih h hsubmits his'
        refine ⟨ts, ?_, hpolls, ?_⟩
        · rw [List.filter_cons_of_neg (by simpa using hzero)]
          exact hts
        · simpa only [hzero, ne_eq, not_true_eq_false, if_false] using heq
      · obtain ⟨q, hq, hnumber⟩ := h.others i (his i List.mem_cons_self) hzero
        have hindex : tableIndex (0x80 ||| i) = tableIndex q.2.toNat := by
          rw [tableIndex_in i (his i List.mem_cons_self), tableIndex_target (h.target q hq).1,
            hnumber]
        have horiginal : p.serialToUsb.get (0x80 ||| i) = q.1 := by
          rw [← h.serialToUsb q hq, p.serialToUsb.get_congr hindex]
        obtain ⟨t, hendpoint, htype, hpoll⟩ := Proxy.poll_eq h hsubmits hq
        obtain ⟨ts, hts, hpolls, heq⟩ := ih (p := { p with
          usb := { p.usb with transfers := p.usb.transfers ++ [t] } })
          (h.congr rfl rfl rfl) hsubmits his'
        refine ⟨t :: ts, ?_, ?_, ?_⟩
        · rw [List.filter_cons_of_pos (by simpa using hzero), List.map_cons, hendpoint,
            horiginal, hts]
        · intro t' ht'
          rcases List.mem_cons.1 ht' with rfl | ht'
          · exact ⟨htype, q, hq, hendpoint⟩
          · exact hpolls t' ht'
        · simp only [horiginal, h.original_ne_zero hq, ne_eq, not_false_eq_true, if_true,
            hpoll, Int.lt_irrefl, if_false, heq, List.append_assoc, List.singleton_append]

theorem Proxy.InTables.count_entries {p : Proxy} {l : List (UInt8 × UInt8)} (h : p.InTables l)
    {q : UInt8 × UInt8} (hq : q ∈ l) :
    (((List.range endpointMaxNumber).map fun i =>
      p.serialToUsb.get (0x80 ||| i)).filter (· ≠ 0)).count q.1 = 1 := by
  have htarget := h.target q hq
  have hlt : endpointNumber q.2 < endpointMaxNumber := by
    have hle := htarget.2.2
    rw [maxEndpoints_eq] at hle
    rw [endpointMaxNumber_eq]
    omega
  have hentry : ∀ i ∈ List.range endpointMaxNumber,
      p.serialToUsb.get (0x80 ||| i) = q.1 ↔ i = endpointNumber q.2 := by
    intro i hi
    rw [List.mem_range] at hi
    constructor
    · intro heq
      obtain ⟨q', hq', hnumber⟩ := h.others i hi (heq ▸ h.original_ne_zero hq)
      have hindex : tableIndex (0x80 ||| i) = tableIndex q'.2.toNat := by
        rw [tableIndex_in i hi, tableIndex_target (h.target q' hq').1, hnumber]
      rw [p.serialToUsb.get_congr hindex, h.serialToUsb q' hq'] at heq
      rw [← hnumber, h.eq_of_original hq' hq heq]
    · rintro rfl
      have hindex : tableIndex (0x80 ||| endpointNumber q.2) = tableIndex q.2.toNat := by
        rw [tableIndex_in _ hi, tableIndex_target htarget.1]
      rw [p.serialToUsb.get_congr hindex, h.serialToUsb q hq]
  rw [List.count_filter (by simpa using h.original_ne_zero hq), List.count, List.countP_map]
  have hcount : List.countP ((· == q.1) ∘ fun i => p.serialToUsb.get (0x80 ||| i))
      (List.range endpointMaxNumber) =
      (List.range endpointMaxNumber).count (endpointNumber q.2) := by
    refine List.countP_congr fun i hi => ?_
    simpa using hentry i hi
  rw [hcount]
  exact List.count_eq_one_of_mem List.nodup_range (List.mem_range.2 hlt)

/-- After `poll_all_endpoints` every configured endpoint is polled. -/
theorem pollAllEndpoints_credit {p : Proxy} {l : List (UInt8 × UInt8)} (h : p.InTables l)
    (hwrites : p.serial.writes = []) (hsubmits : p.usb.submits = []) (hdone : p.done = false)
    (htransfers : p.usb.transfers = []) (hfifo : p.inEpFifo = []) (hpending : p.inPending = 0) :
    (pollAllEndpoints p).1.Credit l ∧ (pollAllEndpoints p).1.serial = p.serial ∧
      (pollAllEndpoints p).1.inEpFifo = [] ∧ (pollAllEndpoints p).1.inPending = 0 := by
  obtain ⟨ts, hts, hpolls, heq⟩ := @pollEndpoints_eq p l h hsubmits
    (List.range endpointMaxNumber) fun i hi => List.mem_range.1 hi
  unfold pollAllEndpoints
  rw [heq, htransfers, List.nil_append]
  refine ⟨⟨h.congr rfl rfl rfl, hwrites, hsubmits, hdone, hpolls, ?_, fun hne => absurd hpending hne,
    fun _ => hfifo, ?_⟩, rfl, hfifo, hpending⟩
  · intro o ho
    rw [hfifo] at ho
    exact absurd ho List.not_mem_nil
  · intro q hq
    have hne : ¬ p.inPending = q.1 := hpending ▸ (h.original_ne_zero hq).symm
    have hcount : (ts.map Transfer.endpoint).count q.1 = 1 := hts ▸ h.count_entries hq
    simp only [Proxy.polled, hfifo, hne, hcount, List.count_nil, if_false]

theorem Proxy.Credit.length_fifo {p : Proxy} {l : List (UInt8 × UInt8)} (h : p.Credit l) :
    p.inEpFifo.Nodup ∧ p.inEpFifo.length ≤ maxEndpoints ∧
      ∀ q ∈ l, q.1 ∈ p.polled → q.1 ∉ p.inEpFifo ∧ p.inPending ≠ q.1 ∧
        p.inEpFifo.length < maxEndpoints := by
  have hsubset : p.inEpFifo ⊆ l.map Prod.fst := by
    intro o ho
    obtain ⟨q, hq, rfl⟩ := h.fifo o ho
    exact List.mem_map_of_mem hq
  have hnodup : p.inEpFifo.Nodup := by
    rw [List.nodup_iff_count_le_one]
    intro o
    by_cases ho : o ∈ p.inEpFifo
    · obtain ⟨q, hq, rfl⟩ := h.fifo o ho
      have hone := h.once q hq
      omega
    · rw [List.count_eq_zero_of_not_mem ho]
      exact Nat.zero_le 1
  have hle := h.tables.length_le
  refine ⟨hnodup, ?_, ?_⟩
  · have hlength := (hnodup.subperm hsubset).length_le
    rw [List.length_map] at hlength
    exact hlength.trans hle
  · intro q hq hpolled
    have hone := h.once q hq
    have hpos := List.count_pos_iff.2 hpolled
    have hnot : q.1 ∉ p.inEpFifo := by
      intro hmem
      have hpos' := List.count_pos_iff.2 hmem
      omega
    have hpending : p.inPending ≠ q.1 := by
      intro heq
      rw [if_pos heq] at hone
      omega
    refine ⟨hnot, hpending, ?_⟩
    have hcons : (q.1 :: p.inEpFifo) ⊆ l.map Prod.fst :=
      List.cons_subset.2 ⟨List.mem_map_of_mem hq, hsubset⟩
    have hlength := ((List.nodup_cons.2 ⟨hnot, hnodup⟩).subperm hcons).length_le
    rw [List.length_map, List.length_cons] at hlength
    omega

/-- The endpoint whose packet is under way is neither polled nor queued. -/
theorem Proxy.Credit.ne_of_pending {p : Proxy} {l : List (UInt8 × UInt8)} (h : p.Credit l)
    {q q' : UInt8 × UInt8} (hq' : q' ∈ l) (heq : p.inPending = q.1)
    (hmem : q'.1 ∈ p.polled ∨ q'.1 ∈ p.inEpFifo) : q' ≠ q := by
  rintro rfl
  have hone := h.once q' hq'
  rw [if_pos heq] at hone
  rcases hmem with hmem | hmem
  · have hpos := List.count_pos_iff.2 hmem
    omega
  · have hpos := List.count_pos_iff.2 hmem
    omega

def inFrame (target : UInt8) (payload : List UInt8) (h : payload.length ≤ maxPayloadSizeEp) :
    PacketFrame :=
  ⟨PacketType.eTypeIn.toByte, target :: payload, length_cons_payload_le target h⟩

def Proxy.HoldsPacket (p : Proxy) (q : UInt8 × UInt8) (payload : List UInt8) : Prop :=
  (p.inPacket q.1).sent = q.2 :: payload

theorem sendNextInPacket_cons {p : Proxy} (hwrites : p.serial.writes = [])
    (hpending : p.inPending = 0) {q : UInt8 × UInt8} {rest : List UInt8}
    (hfifo : p.inEpFifo = q.1 :: rest) {payload : List UInt8}
    (hlen : payload.length ≤ maxPayloadSizeEp) (hpacket : p.HoldsPacket q payload) :
    sendNextInPacket p =
      ({ p with
          serial := ⟨p.serial.line ++ (inFrame q.2 payload hlen).encode, []⟩
          inPending := q.1
          inEpFifo := rest }, 0) := by
  have hle : (q.2 :: payload).length ≤ maxPacketValueSize := (inFrame q.2 payload hlen).value_le
  have hsent : (p.inPacket q.1).sent = q.2 :: payload := hpacket
  unfold sendNextInPacket
  simp only [hpending, ne_eq, not_true_eq_false, if_false, hfifo, hsent,
    Proxy.send_of_complete hwrites, packets_of_le hle, Int.lt_irrefl]
  simp [inFrame]

theorem inPacket_setIfInBounds {p : Proxy} {o : UInt8} (ho : endpointNumber o ≠ 0)
    (packet : InPacket) (fifo : List UInt8) (o' : UInt8) :
    { p with
      inPackets := p.inPackets.setIfInBounds (inPacketIndex o) packet
      inEpFifo := fifo }.inPacket o' =
      if inPacketIndex o = inPacketIndex o' then packet else p.inPacket o' := by
  have hlt := inPacketIndex_lt o ho
  unfold Proxy.inPacket
  simp only [Vector.getD, Vector.toArray_setIfInBounds, Array.getD_eq_getD_getElem?,
    Array.getElem?_setIfInBounds, Vector.size_toArray, hlt, if_true]
  split <;> rfl

theorem queueInPacket_eq {p : Proxy} {l : List (UInt8 × UInt8)} (h : p.Credit l)
    {q : UInt8 × UInt8} (hq : q ∈ l) (hpolled : q.1 ∈ p.polled) {payload : List UInt8}
    (hlen : payload.length ≤ maxPayloadSizeEp) :
    ∃ packets, queueInPacket p q.1 payload =
        ({ p with inPackets := packets, inEpFifo := p.inEpFifo ++ [q.1] }, 0) ∧
      ({ p with inPackets := packets } : Proxy).HoldsPacket q payload ∧
      ∀ q' ∈ l, q' ≠ q → ({ p with inPackets := packets } : Proxy).inPacket q'.1 =
        p.inPacket q'.1 := by
  obtain ⟨info, hinfo, _⟩ := h.tables.original q hq
  have hnumber := (getEndpoint_some hinfo).2
  have hroom := (h.length_fifo.2.2 q hq hpolled).2.2
  have hnot : ¬ p.inEpFifo.length = maxEndpoints := Nat.ne_of_lt hroom
  have hset := fun packet o' => @inPacket_setIfInBounds p q.1 hnumber packet p.inEpFifo o'
  refine ⟨_, by unfold queueInPacket; rw [if_neg hnot], ?_, ?_⟩
  · unfold Proxy.HoldsPacket
    rw [hset, if_pos rfl]
    unfold InPacket.sent
    rw [List.take_succ_cons, toList_take_copyAt_zero _ hlen, h.tables.usbToSerial q hq]
  · intro q' hq' hne
    rw [hset, if_neg]
    intro heq
    exact hne (h.tables.eq_of_inPacketIndex hq hq' heq).symm

theorem usbReadCallback_in (p : Proxy) {endpoint : UInt8} (hne : endpoint ≠ 0)
    {payload : List UInt8} (hlen : payload.length ≤ maxPayloadSizeEp) :
    usbReadCallback p endpoint payload (payload.length : ℕ) =
      let (p, ret) := queueInPacket p endpoint payload
      if ret < 0 then ({ p with done := true }, -1)
      else
        let (p, ret) := sendNextInPacket p
        if ret < 0 then ({ p with done := true }, -1) else (p, 0) := by
  have hstatus : ¬ ((payload.length : ℕ) : Int) = TransferStatus.error.code := by
    change ¬ ((payload.length : ℕ) : Int) = -3
    omega
  have hsize : ¬ ((maxPayloadSizeEp : ℕ) : Int) < (payload.length : ℕ) := by
    rw [Int.not_lt]
    exact_mod_cast hlen
  unfold usbReadCallback
  rw [if_neg hstatus, if_neg hne, if_neg hsize, if_pos (Int.natCast_nonneg _)]

theorem sendNextInPacket_queued {p : Proxy} {l : List (UInt8 × UInt8)} (h : p.Credit l)
    {q : UInt8 × UInt8} {payload : List UInt8} (hlen : payload.length ≤ maxPayloadSizeEp)
    {packets : Vector InPacket endpointMaxNumber}
    (hholds : ({ p with inPackets := packets } : Proxy).HoldsPacket q payload) :
    sendNextInPacket { p with inPackets := packets, inEpFifo := p.inEpFifo ++ [q.1] } =
      (if p.inPending = 0 then
        { p with
          inPackets := packets
          serial := ⟨p.serial.line ++ (inFrame q.2 payload hlen).encode, []⟩
          inPending := q.1 }
      else { p with inPackets := packets, inEpFifo := p.inEpFifo ++ [q.1] }, 0) := by
  by_cases hpending : p.inPending = 0
  · have hfifo := h.idle hpending
    rw [if_pos hpending]
    refine (sendNextInPacket_cons
      (p := { p with inPackets := packets, inEpFifo := p.inEpFifo ++ [q.1] })
      h.writes hpending (by rw [hfifo]; rfl) hlen hholds).trans ?_
    rw [hfifo]
  · rw [if_neg hpending]
    unfold sendNextInPacket
    exact if_pos hpending

/-- The end of a poll: its packet waits in the queue, or is sent when no other packet
is at the firmware. -/
theorem usbCallback_completed {p : Proxy} {l : List (UInt8 × UInt8)} (h : p.Credit l) {i : ℕ}
    {t : Transfer} (ht : p.usb.transfers[i]? = some t) {q : UInt8 × UInt8} (hq : q ∈ l)
    (hendpoint : t.endpoint = q.1) {payload : List UInt8}
    (hlen : payload.length ≤ maxPayloadSizeEp) :
    ∃ packets, ({ p with inPackets := packets } : Proxy).HoldsPacket q payload ∧
      (∀ q' ∈ l, q' ≠ q → ({ p with inPackets := packets } : Proxy).inPacket q'.1 =
        p.inPacket q'.1) ∧
      usbCallback p i (.completed payload) = some
        (Proxy.removeTransfer
          (if p.inPending = 0 then
            { p with
              inPackets := packets
              serial := ⟨p.serial.line ++ (inFrame q.2 payload hlen).encode, []⟩
              inPending := q.1 }
          else { p with inPackets := packets, inEpFifo := p.inEpFifo ++ [q.1] }) i) := by
  have htype := (h.polls t (List.mem_of_getElem? ht)).1
  have hpolled : q.1 ∈ p.polled := by
    rw [← hendpoint]
    exact List.mem_map_of_mem (List.mem_of_getElem? ht)
  obtain ⟨packets, hqueue, hholds, hothers⟩ := queueInPacket_eq h hq hpolled hlen
  refine ⟨packets, hholds, hothers, ?_⟩
  obtain ⟨info, hinfo, _⟩ := h.tables.original q hq
  have hin := (getEndpoint_some hinfo).1
  have hcall : callCallback p t (.completed payload) =
      (usbReadCallback p q.1 payload (payload.length : ℕ)).1 := by
    have hcontrol : ¬ transferTypeInterrupt = transferTypeControl := by decide
    unfold callCallback
    rw [if_neg (by simp), htype, if_neg hcontrol, hendpoint, if_pos hin]
    rfl
  unfold usbCallback
  rw [ht, Option.map_some, hcall, usbReadCallback_in p (h.tables.original_ne_zero hq) hlen]
  simp only [hqueue, Int.lt_irrefl, if_false, sendNextInPacket_queued h hlen hholds]
  rfl

theorem Proxy.count_polled_removeTransfer {p : Proxy} {i : ℕ} {t : Transfer}
    (ht : p.usb.transfers[i]? = some t) (o : UInt8) :
    p.polled.count o = (p.removeTransfer i).polled.count o + if t.endpoint = o then 1 else 0 := by
  obtain ⟨hi, hget⟩ := List.getElem?_eq_some_iff.1 ht
  have hperm := (List.getElem_cons_eraseIdx_perm hi).map Transfer.endpoint
  rw [hget] at hperm
  unfold Proxy.polled Proxy.removeTransfer
  rw [← hperm.count_eq o, List.map_cons, List.count_cons]
  simp only [beq_iff_eq]

/-- The end of a poll moves its endpoint on. -/
theorem usbCallback_credit {p p' : Proxy} {l : List (UInt8 × UInt8)} (h : p.Credit l) {i : ℕ}
    {t : Transfer} (ht : p.usb.transfers[i]? = some t) {q : UInt8 × UInt8} (hq : q ∈ l)
    (hendpoint : t.endpoint = q.1) {payload : List UInt8}
    (hlen : payload.length ≤ maxPayloadSizeEp)
    (hp' : usbCallback p i (.completed payload) = some p') : p'.Credit l := by
  obtain ⟨packets, _, _, heq⟩ := usbCallback_completed h ht hq hendpoint hlen
  have hresult := Option.some.inj (hp'.symm.trans heq)
  have hcount := fun o => Proxy.count_polled_removeTransfer ht o
  have hpolls : ∀ t' ∈ p.usb.transfers.eraseIdx i,
      t'.type = transferTypeInterrupt ∧ ∃ q ∈ l, t'.endpoint = q.1 :=
    fun t' ht' => h.polls t' (List.mem_of_mem_eraseIdx ht')
  by_cases hpending : p.inPending = 0
  · rw [if_pos hpending] at hresult
    subst hresult
    refine ⟨h.tables.congr rfl rfl rfl, rfl, h.submits, h.done, hpolls, h.fifo,
      fun _ => ⟨q, hq, rfl⟩, fun h0 => absurd h0 (h.tables.original_ne_zero hq), ?_⟩
    intro q' hq'
    have hone := h.once q' hq'
    have hold : ¬ p.inPending = q'.1 := hpending ▸ (h.tables.original_ne_zero hq').symm
    rw [hcount q'.1, if_neg hold, hendpoint] at hone
    exact (Nat.add_right_comm _ _ _).trans hone
  · rw [if_neg hpending] at hresult
    subst hresult
    refine ⟨h.tables.congr rfl rfl rfl, h.writes, h.submits, h.done, hpolls, ?_, h.pending,
      fun h0 => absurd h0 hpending, ?_⟩
    · intro o ho
      rcases List.mem_append.1 ho with ho | ho
      · exact h.fifo o ho
      · exact ⟨q, hq, List.mem_singleton.1 ho⟩
    · intro q' hq'
      have hone := h.once q' hq'
      rw [hcount q'.1, hendpoint] at hone
      change (p.removeTransfer i).polled.count q'.1 + (p.inEpFifo ++ [q.1]).count q'.1 +
        (if p.inPending = q'.1 then 1 else 0) = 1
      rw [List.count_append, List.count_singleton]
      simp only [beq_iff_eq]
      omega

def Proxy.polledAgain (p : Proxy) (t : Transfer) : Proxy :=
  { p with usb := { p.usb with transfers := p.usb.transfers ++ [t] }, inPending := 0 }

/-- The acknowledgement of a packet: its endpoint is polled again, and the next
packet of the queue is sent. -/
theorem ackIn_eq {p : Proxy} {l : List (UInt8 × UInt8)} (h : p.Credit l) {q : UInt8 × UInt8}
    (hq : q ∈ l) (hpending : p.inPending = q.1)
    (hqueued : ∀ q' ∈ l, q'.1 ∈ p.inEpFifo → ∃ payload : List UInt8,
      payload.length ≤ maxPayloadSizeEp ∧ p.HoldsPacket q' payload) :
    ∃ t : Transfer, t.endpoint = q.1 ∧ t.type = transferTypeInterrupt ∧
      (p.inEpFifo = [] ∧ ackIn p = (p.polledAgain t, 0) ∨
      ∃ q' ∈ l, ∃ rest payload, ∃ hlen : payload.length ≤ maxPayloadSizeEp,
        p.inEpFifo = q'.1 :: rest ∧ p.HoldsPacket q' payload ∧
        ackIn p = ({ p.polledAgain t with
          serial := ⟨p.serial.line ++ (inFrame q'.2 payload hlen).encode, []⟩
          inPending := q'.1
          inEpFifo := rest }, 0)) := by
  obtain ⟨t, hendpoint, htype, hpoll⟩ := Proxy.poll_eq h.tables h.submits hq
  have hne := h.tables.original_ne_zero hq
  have hack : ackIn p = sendNextInPacket (p.polledAgain t) := by
    unfold ackIn
    rw [hpending, if_pos hne]
    simp only [hpoll]
    exact if_pos (by decide)
  refine ⟨t, hendpoint, htype, ?_⟩
  cases hfifo : p.inEpFifo with
  | nil =>
      refine Or.inl ⟨rfl, hack.trans ?_⟩
      unfold sendNextInPacket
      rw [if_neg (by simp [Proxy.polledAgain])]
      simp only [Proxy.polledAgain, hfifo]
  | cons o rest =>
      have ho : o ∈ p.inEpFifo := hfifo ▸ List.mem_cons_self
      obtain ⟨q', hq', rfl⟩ := h.fifo o ho
      obtain ⟨payload, hlen, hholds⟩ := hqueued q' hq' ho
      refine Or.inr ⟨q', hq', rest, payload, hlen, rfl, hholds, hack.trans ?_⟩
      exact sendNextInPacket_cons (p := p.polledAgain t) h.writes rfl hfifo hlen hholds

/-- The acknowledgement of a packet moves its endpoint on. -/
theorem ackIn_credit {p : Proxy} {l : List (UInt8 × UInt8)} (h : p.Credit l) {q : UInt8 × UInt8}
    (hq : q ∈ l) (hpending : p.inPending = q.1)
    (hqueued : ∀ q' ∈ l, q'.1 ∈ p.inEpFifo → ∃ payload : List UInt8,
      payload.length ≤ maxPayloadSizeEp ∧ p.HoldsPacket q' payload) :
    (ackIn p).1.Credit l ∧ (ackIn p).2 = 0 := by
  obtain ⟨t, hendpoint, htype, hcases⟩ := ackIn_eq h hq hpending hqueued
  have hpolls : ∀ t' ∈ p.usb.transfers ++ [t],
      t'.type = transferTypeInterrupt ∧ ∃ q ∈ l, t'.endpoint = q.1 := by
    intro t' ht'
    rcases List.mem_append.1 ht' with ht' | ht'
    · exact h.polls t' ht'
    · rw [List.mem_singleton.1 ht']
      exact ⟨htype, q, hq, hendpoint⟩
  have hcount : ∀ o, (p.polledAgain t).polled.count o =
      p.polled.count o + if p.inPending = o then 1 else 0 := by
    intro o
    unfold Proxy.polled Proxy.polledAgain
    rw [List.map_append, List.count_append, List.map_singleton, List.count_singleton, hendpoint,
      hpending]
    simp only [beq_iff_eq]
  rcases hcases with ⟨hfifo, hack⟩ | ⟨q', hq', rest, payload, hlen, hfifo, _, hack⟩
  · rw [hack]
    refine ⟨⟨h.tables.congr rfl rfl rfl, h.writes, h.submits, h.done, hpolls, h.fifo,
      fun hne => absurd rfl hne, fun _ => hfifo, ?_⟩, rfl⟩
    intro r hr
    have hone := h.once r hr
    have hzero : ¬ (p.polledAgain t).inPending = r.1 := (h.tables.original_ne_zero hr).symm
    rw [hcount r.1, if_neg hzero]
    change _ + p.inEpFifo.count r.1 + 0 = 1
    omega
  · rw [hack]
    refine ⟨⟨h.tables.congr rfl rfl rfl, rfl, h.submits, h.done, hpolls, ?_,
      fun _ => ⟨q', hq', rfl⟩, fun h0 => absurd h0 (h.tables.original_ne_zero hq'), ?_⟩, rfl⟩
    · intro o ho
      exact h.fifo o (hfifo ▸ List.mem_cons_of_mem _ ho)
    · intro r hr
      have hone := h.once r hr
      rw [hfifo, List.count_cons] at hone
      simp only [beq_iff_eq] at hone
      change (p.polledAgain t).polled.count r.1 + rest.count r.1 +
        (if q'.1 = r.1 then 1 else 0) = 1
      rw [hcount r.1]
      omega

def oneInput : Configuration where
  wTotalLength := 34
  raw := List.replicate 34 0
  interfaces := [⟨[⟨[⟨0x81, 3, 8⟩]⟩]⟩]
  length_raw := List.length_replicate

def oneInputProxy : Proxy :=
  let m := (fixEndpoints (EndpointMaps.start 0 0) [oneInput]).1
  Proxy.start m.endpoints m.serialToUsb m.usbToSerial
    ⟨(Vector.replicate 15 ⟨0, 0⟩).set 0 ⟨3, 8⟩, Vector.replicate 15 ⟨0, 0⟩, [], []⟩

theorem oneInputProxy_inTables : oneInputProxy.InTables [(0x81, 0x81)] := by
  have hlist : (oneInput.addresses.filter fun q => endpointIn q.2) = [(0x81, 0x81)] := by
    decide +kernel
  rw [← hlist]
  refine inTables_fixEndpoints (by decide +kernel) rfl rfl ?_
  have haddresses : oneInput.addresses = [(0x81, 0x81)] := by decide +kernel
  intro q hq _
  rw [haddresses, List.mem_singleton] at hq
  subst hq
  exact ⟨⟨3, 8⟩, by decide +kernel, rfl⟩

end SerialUsb
