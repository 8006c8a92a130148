import SerialUsb.System.TableRanges

/-!
# The OUT packets at the proxy

The proxy with the transfers that the packets of the firmware submit. Whatever it reads in
whatever pieces, and whatever transfers end meanwhile, what it writes to an OUT endpoint are the
payloads of the OUT packets whose address `serialToUsbEndpoint` turns into that endpoint, in the
order in which they were read.
-/

namespace SerialUsb

open Framing Transition

structure Proxy.Submitted (p q : Proxy) (ts : List Transfer) : Prop where
  usb : q.usb = { p.usb with transfers := p.usb.transfers ++ ts }
  serialToUsb : q.serialToUsb = p.serialToUsb

def SPacket.writesTo (serialToUsb : EndpointTable) (endpoint : UInt8) (packet : SPacket) :
    List (List UInt8) :=
  if packet.type = PacketType.eTypeOut.toByte ∧
      serialToUsb.get (packet.value.headD 0).toNat = endpoint then
    [(packet.value.drop 1).take (unsignedSub packet.length.toNat 1)]
  else []

def buffersTo (endpoint : UInt8) (ts : List Transfer) : List (List UInt8) :=
  (ts.filter fun t => t.endpoint = endpoint).map Transfer.buffer

theorem buffersTo_append (endpoint : UInt8) (ts us : List Transfer) :
    buffersTo endpoint (ts ++ us) = buffersTo endpoint ts ++ buffersTo endpoint us := by
  rw [buffersTo, List.filter_append, List.map_append, buffersTo, buffersTo]

theorem buffersTo_eq_nil {endpoint : UInt8} {ts : List Transfer}
    (h : ∀ t ∈ ts, t.endpoint ≠ endpoint) : buffersTo endpoint ts = [] := by
  rw [buffersTo, List.filter_eq_nil_iff.2 (fun t ht => by simpa using h t ht), List.map_nil]

section Submitted

variable {p q r : Proxy} {ts us : List Transfer} {endpoint : UInt8}

theorem Proxy.Submitted.of_eq (husb : q.usb = p.usb) (hmap : q.serialToUsb = p.serialToUsb) :
    p.Submitted q [] := by
  refine ⟨?_, hmap⟩
  rw [husb, List.append_nil]

theorem Proxy.Submitted.trans (h : p.Submitted q ts) (h' : q.Submitted r us) :
    p.Submitted r (ts ++ us) := by
  refine ⟨?_, h'.serialToUsb.trans h.serialToUsb⟩
  rw [h'.usb, h.usb, List.append_assoc]

theorem Proxy.Submitted.submits (h : p.Submitted q ts) (hsubmits : p.usb.submits = []) :
    q.usb.submits = [] := by
  rw [h.usb]
  exact hsubmits

theorem Proxy.Submitted.getEndpoint (h : p.Submitted q ts) (endpoint : UInt8)
    (directionIn : Bool) :
    SerialUsb.getEndpoint q.usb endpoint directionIn =
      SerialUsb.getEndpoint p.usb endpoint directionIn := by
  rw [h.usb]
  rfl

theorem Proxy.Submitted.drop (h : p.Submitted q ts) :
    q.usb.transfers.drop p.usb.transfers.length = ts := by
  rw [h.usb]
  exact List.drop_left

theorem Proxy.submitted_poll (hsubmits : p.usb.submits = []) (endpoint : UInt8) :
    ∃ ts, (∀ t ∈ ts, endpointIn t.endpoint = true) ∧ p.Submitted (p.poll endpoint).1 ts := by
  have hnone : (gusbPoll p.usb endpoint).1 = p.usb → p.Submitted (p.poll endpoint).1 [] :=
    fun h => .of_eq h rfl
  rcases hinfo : SerialUsb.getEndpoint p.usb endpoint true with _ | info
  · exact ⟨[], fun _ ht => absurd ht List.not_mem_nil, hnone (by simp [gusbPoll, hinfo])⟩
  · by_cases htype : info.type = transferTypeInterrupt
    · have hpoll : (gusbPoll p.usb endpoint).1 = { p.usb with transfers := p.usb.transfers ++
          [⟨endpoint, transferTypeInterrupt, List.replicate info.size.toNat 0,
            info.size.toNat⟩] } := by
        simp [gusbPoll, hinfo, htype, submitTransfer_of_nil hsubmits]
      refine ⟨_, fun t ht => ?_, ⟨hpoll, rfl⟩⟩
      rw [List.mem_singleton.1 ht]
      exact (getEndpoint_some hinfo).1
    · exact ⟨[], fun _ ht => absurd ht List.not_mem_nil, hnone (by simp [gusbPoll, hinfo, htype])⟩

theorem submitted_pollEndpoints (hsubmits : p.usb.submits = []) (is : List ℕ) :
    ∃ ts, (∀ t ∈ ts, endpointIn t.endpoint = true) ∧ p.Submitted (pollEndpoints p is).1 ts := by
  induction is generalizing p with
  | nil => exact ⟨[], fun _ ht => absurd ht List.not_mem_nil, .of_eq rfl rfl⟩
  | cons i is ih =>
      obtain ⟨ts, hin, hpoll⟩ := Proxy.submitted_poll hsubmits (p.serialToUsb.get (0x80 ||| i))
      rw [pollEndpoints]
      dsimp only
      split
      · split
        · exact ⟨ts, hin, hpoll⟩
        · obtain ⟨us, hrest, hpolls⟩ := ih (hpoll.submits hsubmits)
          exact ⟨ts ++ us, List.forall_mem_append.2 ⟨hin, hrest⟩, hpoll.trans hpolls⟩
      · exact ih hsubmits

theorem submitted_sendNextInPacket (p : Proxy) : p.Submitted (sendNextInPacket p).1 [] :=
  .of_eq (usb_sendNextInPacket p) (keeps_sendNextInPacket p).serialToUsb

theorem submitted_ackIn (hsubmits : p.usb.submits = []) :
    ∃ ts, (∀ t ∈ ts, endpointIn t.endpoint = true) ∧ p.Submitted (ackIn p).1 ts := by
  unfold ackIn
  split
  · obtain ⟨ts, hin, hpoll⟩ := Proxy.submitted_poll hsubmits p.inPending
    have hpolled : p.Submitted { (p.poll p.inPending).1 with inPending := 0 } ts :=
      ⟨hpoll.usb, hpoll.serialToUsb⟩
    dsimp only
    split
    · refine ⟨ts ++ [], List.forall_mem_append.2 ⟨hin, fun _ ht => absurd ht List.not_mem_nil⟩, ?_⟩
      exact hpolled.trans (submitted_sendNextInPacket _)
    · exact ⟨ts, hin, hpolled⟩
  · exact ⟨[], fun _ ht => absurd ht List.not_mem_nil, .of_eq rfl rfl⟩

theorem gusbWrite_of_nil {usb : Usb} (hsubmits : usb.submits = []) (endpoint : UInt8)
    (buf : List UInt8) (count : ℕ) :
    ∃ ts : List Transfer, (∀ t ∈ ts, t.endpoint = endpoint) ∧
      (gusbWrite usb endpoint buf count).1 = { usb with transfers := usb.transfers ++ ts } ∧
      (endpoint ≠ 0 → SerialUsb.getEndpoint usb endpoint false ≠ none →
        ts.map Transfer.buffer = [buf.take count]) := by
  unfold gusbWrite
  split
  next hinvalid =>
    refine ⟨[], fun _ ht => absurd ht List.not_mem_nil, by rw [List.append_nil], ?_⟩
    exact fun _ hknown => absurd hinvalid.2 hknown
  next =>
    dsimp only
    rw [submitTransfer_of_nil hsubmits]
    refine ⟨_, fun t ht => ?_, rfl, fun hne _ => ?_⟩
    · rw [List.mem_singleton.1 ht]
    · have hcount : writeCount endpoint buf count = count := by
        rw [writeCount, if_neg fun h => hne h.1]
      rw [List.map_singleton, hcount]

theorem submitted_sendOutPacket (hsubmits : p.usb.submits = [])
    (hknown : SerialUsb.getEndpoint p.usb endpoint false ≠ none) {packet : SPacket}
    (htype : packet.type = PacketType.eTypeOut.toByte) :
    ∃ ts, p.Submitted (sendOutPacket p packet).1 ts ∧
      buffersTo endpoint ts = packet.writesTo p.serialToUsb endpoint := by
  have hne := ne_zero_of_endpointNumber (endpointNumber_of_getEndpoint hknown)
  obtain ⟨ts, hendpoint, husb, hbuffers⟩ := gusbWrite_of_nil hsubmits
    (p.serialToUsb.get (packet.value.headD 0).toNat) (packet.value.drop 1)
    (unsignedSub packet.length.toNat 1)
  refine ⟨ts, ⟨husb, rfl⟩, ?_⟩
  by_cases hsame : p.serialToUsb.get (packet.value.headD 0).toNat = endpoint
  · rw [SPacket.writesTo, if_pos ⟨htype, hsame⟩, ← hbuffers (hsame ▸ hne) (hsame ▸ hknown),
      buffersTo, List.filter_eq_self.2 fun t ht => decide_eq_true ((hendpoint t ht).trans hsame)]
  · rw [SPacket.writesTo, if_neg fun h => hsame h.2]
    exact buffersTo_eq_nil fun t ht heq => hsame ((hendpoint t ht).symm.trans heq)

theorem submitted_sendControlPacket (hsubmits : p.usb.submits = []) (packet : SPacket) :
    ∃ ts, (∀ t ∈ ts, t.endpoint = 0) ∧ p.Submitted (sendControlPacket p packet).1 ts := by
  unfold sendControlPacket
  dsimp only
  split
  · exact ⟨[], fun _ ht => absurd ht List.not_mem_nil, .of_eq rfl rfl⟩
  · obtain ⟨ts, hzero, husb, _⟩ := gusbWrite_of_nil hsubmits 0 (translateIndex p packet).value
      (translateIndex p packet).length.toNat
    exact ⟨ts, hzero, husb, rfl⟩

theorem submitted_sendIndex (p : Proxy) : p.Submitted (sendIndex p).1 [] := by
  unfold sendIndex
  split
  · exact .of_eq rfl rfl
  · exact .of_eq rfl rfl

theorem submitted_sendEndpoints (p : Proxy) : p.Submitted (sendEndpoints p).1 [] := by
  unfold sendEndpoints
  split
  · exact .of_eq rfl rfl
  · exact .of_eq rfl rfl

theorem endpointIn_of_getEndpoint {usb : Usb} {directionIn : Bool}
    (h : SerialUsb.getEndpoint usb endpoint directionIn ≠ none) :
    endpointIn endpoint = directionIn := by
  by_contra hne
  rw [SerialUsb.getEndpoint, if_pos hne] at h
  exact h rfl

theorem submitted_dispatchPacket_other (hsubmits : p.usb.submits = []) {packet : SPacket}
    (htype : packet.type ≠ PacketType.eTypeOut.toByte) :
    ∃ ts, (∀ t ∈ ts, endpointIn t.endpoint = true ∨ t.endpoint = 0) ∧
      p.Submitted (dispatchPacket p packet).1 ts := by
  have hnone : ∀ {q : Proxy}, p.Submitted q [] →
      ∃ ts : List Transfer, (∀ t ∈ ts, endpointIn t.endpoint = true ∨ t.endpoint = 0) ∧
        p.Submitted q ts := fun h => ⟨[], fun _ ht => absurd ht List.not_mem_nil, h⟩
  unfold dispatchPacket
  cases hbyte : PacketType.ofByte? packet.type with
  | none => exact hnone (.of_eq rfl rfl)
  | some type =>
      cases type with
      | eTypeDescriptors => exact hnone (submitted_sendIndex p)
      | eTypeIndex => exact hnone (submitted_sendEndpoints p)
      | eTypeEndpoints =>
          obtain ⟨ts, hin, hsubmitted⟩ := submitted_pollEndpoints (p := { p with initTimer := -1 })
            hsubmits (List.range endpointMaxNumber)
          exact ⟨ts, fun t ht => Or.inl (hin t ht), hsubmitted.usb, hsubmitted.serialToUsb⟩
      | eTypeIn =>
          obtain ⟨ts, hin, hsubmitted⟩ := submitted_ackIn hsubmits
          exact ⟨ts, fun t ht => Or.inl (hin t ht), hsubmitted⟩
      | eTypeOut => exact absurd (PacketType.eq_toByte_of_ofByte? hbyte) htype
      | eTypeControl =>
          obtain ⟨ts, hzero, hsubmitted⟩ := submitted_sendControlPacket hsubmits packet
          exact ⟨ts, fun t ht => Or.inr (hzero t ht), hsubmitted⟩
      | eTypeReset => exact hnone (.of_eq rfl rfl)
      | eTypeControlStall => exact hnone (.of_eq rfl rfl)
      | eTypeDebug => exact hnone (.of_eq rfl rfl)

/-- What a packet of the firmware writes to an OUT endpoint of the device. -/
theorem submitted_processPacket (hsubmits : p.usb.submits = [])
    (hknown : SerialUsb.getEndpoint p.usb endpoint false ≠ none) (packet : SPacket) :
    ∃ ts, p.Submitted (processPacket p packet).1 ts ∧
      buffersTo endpoint ts = packet.writesTo p.serialToUsb endpoint := by
  have hdispatch : ∃ ts, p.Submitted (dispatchPacket p packet).1 ts ∧
      buffersTo endpoint ts = packet.writesTo p.serialToUsb endpoint := by
    by_cases htype : packet.type = PacketType.eTypeOut.toByte
    · obtain ⟨ts, hsubmitted, hbuffers⟩ := submitted_sendOutPacket hsubmits hknown htype
      refine ⟨ts, ?_, hbuffers⟩
      rw [dispatchPacket, htype, PacketType.ofByte?_toByte]
      exact hsubmitted
    · obtain ⟨ts, hother, hsubmitted⟩ := submitted_dispatchPacket_other hsubmits htype
      refine ⟨ts, hsubmitted, ?_⟩
      rw [SPacket.writesTo, if_neg fun h => htype h.1]
      refine buffersTo_eq_nil fun t ht heq => ?_
      rcases hother t ht with hin | hzero
      · rw [heq, endpointIn_of_getEndpoint hknown] at hin
        exact absurd hin (by decide)
      · exact ne_zero_of_endpointNumber (endpointNumber_of_getEndpoint hknown)
          (heq.symm.trans hzero)
  obtain ⟨ts, hsubmitted, hbuffers⟩ := hdispatch
  refine ⟨ts, ?_, hbuffers⟩
  unfold processPacket
  dsimp only
  split
  · exact ⟨hsubmitted.usb, hsubmitted.serialToUsb⟩
  · exact hsubmitted

theorem submitted_usbReadCallback (p : Proxy) (endpoint : UInt8) (buf : List UInt8)
    (status : Int) : p.Submitted (usbReadCallback p endpoint buf status).1 [] := by
  refine .of_eq (usb_usbReadCallback p endpoint buf status) ?_
  have hqueue := (keeps_queueInPacket p endpoint buf).1.serialToUsb
  unfold usbReadCallback
  dsimp only
  split
  · rfl
  · split
    · split
      · rfl
      · split
        · split <;> rfl
        · split <;> rfl
    · split
      · rfl
      · split
        · split
          · exact hqueue
          · split
            · exact (keeps_sendNextInPacket _).serialToUsb.trans hqueue
            · exact (keeps_sendNextInPacket _).serialToUsb.trans hqueue
        · rfl

theorem submitted_usbWriteCallback (p : Proxy) (endpoint : UInt8) (status : Int) :
    p.Submitted (usbWriteCallback p endpoint status).1 [] := by
  refine .of_eq (usb_usbWriteCallback p endpoint status) ?_
  unfold usbWriteCallback
  dsimp only
  split
  · rfl
  · split
    · split
      · split <;> rfl
      · rfl
    · split
      · rfl
      · split
        · split <;> rfl
        · rfl

theorem submitted_callCallback (p : Proxy) (t : Transfer) (status : TransferStatus) :
    p.Submitted (callCallback p t status) [] := by
  have hread := submitted_usbReadCallback p t.endpoint status.data status.code
  have hwrite := submitted_usbWriteCallback p t.endpoint status.code
  unfold callCallback
  split
  · exact .of_eq rfl rfl
  · split
    · split
      · exact hread
      · exact hwrite
    · split
      · exact hread
      · exact hwrite

end Submitted

structure OutLink where
  service : Service
  read : List UInt8
  submitted : List Transfer

def OutLink.next (realloc : ℕ → Bool) (s : OutLink) (e : ServiceEvent) : Option OutLink :=
  (s.service.next realloc e).map fun service =>
    match e with
    | .bytes chunk =>
        { service := service
          read := s.read ++ chunk
          submitted := s.submitted ++
            service.proxy.usb.transfers.drop s.service.proxy.usb.transfers.length }
    | _ => { s with service := service }

def OutLink.start (r : Receiver) (p : Proxy) : OutLink := ⟨Service.start r p, [], []⟩

structure OutLink.Inv (table : EndpointTable) (endpoint : UInt8) (s : OutLink) : Prop where
  waiting : s.service.session.receiver.Waiting
  follows : s.service.session.Follows s.read
  serialToUsb : s.service.proxy.serialToUsb = table
  submits : s.service.proxy.usb.submits = []
  known : getEndpoint s.service.proxy.usb endpoint false ≠ none
  written : buffersTo endpoint s.submitted =
    s.service.session.delivered.flatMap (SPacket.writesTo table endpoint)

section Link

variable {realloc : ℕ → Bool} {s t : OutLink} {table : EndpointTable} {endpoint : UInt8}

theorem OutLink.Inv.bytes (halloc : ∀ n, realloc n = true) (h : s.Inv table endpoint)
    {chunk : List UInt8} (ht : s.next realloc (.bytes chunk) = some t) :
    t.Inv table endpoint := by
  obtain ⟨service, hnext, rfl⟩ := Option.map_eq_some_iff.1 ht
  obtain ⟨_, hnext⟩ := Option.ite_none_left_eq_some.1 hnext
  obtain ⟨session, hrecv, rfl⟩ := Option.map_eq_some_iff.1 hnext
  have hwaiting := Session.waiting_recv halloc h.waiting hrecv
  have hfollows := Session.follows_recv halloc h.waiting h.follows hrecv
  have hstays : session.user = s.service.proxy → session.delivered = s.service.session.delivered →
      OutLink.Inv table endpoint ⟨{ s.service with session := session }, s.read ++ chunk,
        s.submitted ++ session.user.usb.transfers.drop s.service.proxy.usb.transfers.length⟩ := by
    intro huser hdelivered
    refine ⟨hwaiting, hfollows, ?_, ?_, ?_, ?_⟩
    · exact (congrArg Proxy.serialToUsb huser).trans h.serialToUsb
    · exact (congrArg (fun p : Proxy => p.usb.submits) huser).trans h.submits
    · rw [show Service.proxy { s.service with session := session } = _ from huser]
      exact h.known
    · rw [huser, List.drop_length, List.append_nil, hdelivered]
      exact h.written
  rcases Session.recv_cases halloc h.waiting hrecv with
    ⟨_, rfl⟩ | ⟨_, _, huser, hdelivered⟩ | ⟨_, _, packet, _, huser, hdelivered⟩
  · exact hstays rfl rfl
  · exact hstays huser hdelivered
  · obtain ⟨ts, hsubmitted, hbuffers⟩ := submitted_processPacket h.submits h.known packet
    have hproxy : (processPacket s.service.session.user packet).1 = session.user := huser.symm
    rw [show s.service.proxy = s.service.session.user from rfl] at hsubmitted
    rw [hproxy] at hsubmitted
    refine ⟨hwaiting, hfollows, hsubmitted.serialToUsb.trans h.serialToUsb,
      hsubmitted.submits h.submits, ?_, ?_⟩
    · exact (hsubmitted.getEndpoint endpoint false).trans_ne h.known
    · have hdrop := hsubmitted.drop
      refine (congrArg (fun us => buffersTo endpoint (s.submitted ++ us)) hdrop).trans ?_
      rw [buffersTo_append, hbuffers, h.written, h.serialToUsb, hdelivered, List.flatMap_append,
        List.flatMap_singleton]

theorem OutLink.Inv.next (halloc : ∀ n, realloc n = true) (h : s.Inv table endpoint)
    {e : ServiceEvent} (ht : s.next realloc e = some t) : t.Inv table endpoint := by
  cases e with
  | bytes chunk => exact h.bytes halloc ht
  | readError =>
      obtain ⟨service, hnext, rfl⟩ := Option.map_eq_some_iff.1 ht
      obtain ⟨_, hnext⟩ := Option.ite_none_left_eq_some.1 hnext
      obtain rfl := Option.some.inj hnext
      refine ⟨h.waiting, ?_, h.serialToUsb, h.submits, h.known, ?_⟩
      · obtain ⟨tail, hread, htail⟩ := h.follows
        exact ⟨tail, by simpa [adapterRecv] using hread, htail⟩
      · rw [h.written]
        simp [adapterRecv]
  | complete i status =>
      obtain ⟨service, hnext, rfl⟩ := Option.map_eq_some_iff.1 ht
      obtain ⟨_, hnext⟩ := Option.ite_none_left_eq_some.1 hnext
      obtain ⟨_, hnext⟩ := Option.ite_none_left_eq_some.1 hnext
      obtain ⟨transfer, htransfer, hnext⟩ := Option.bind_eq_some_iff.1 hnext
      obtain ⟨p, hp, rfl⟩ := Option.map_eq_some_iff.1 hnext
      obtain ⟨transfer', _, rfl⟩ := Option.map_eq_some_iff.1 hp
      have hcall := submitted_callCallback s.service.proxy transfer' status
      exact ⟨h.waiting, h.follows, hcall.serialToUsb.trans h.serialToUsb, hcall.submits h.submits,
        (hcall.getEndpoint endpoint false).trans_ne h.known, h.written⟩

theorem OutLink.inv_start {r : Receiver} {p : Proxy} (hwaiting : r.Waiting)
    (hstored : r.stored = []) (hsubmits : p.usb.submits = [])
    (hknown : getEndpoint p.usb endpoint false ≠ none) :
    (OutLink.start r p).Inv p.serialToUsb endpoint := by
  obtain ⟨ts, _, hsubmitted⟩ := submitted_pollEndpoints hsubmits (List.range endpointMaxNumber)
  refine ⟨hwaiting, ⟨[], rfl, Or.inl hstored.symm⟩, hsubmitted.serialToUsb,
    hsubmitted.submits hsubmits, ?_, rfl⟩
  exact (hsubmitted.getEndpoint endpoint false).trans_ne hknown

end Link

/-- The payload of an OUT packet is written to the endpoint that its address stands for. -/
theorem SPacket.writesTo_out {packet : SPacket} {address : UInt8} {payload : List UInt8}
    (htype : packet.frame.type = PacketType.eTypeOut.toByte)
    (hvalue : packet.frame.value = address :: payload) (table : EndpointTable)
    (endpoint : UInt8) :
    packet.writesTo table endpoint =
      if table.get address.toNat = endpoint then [payload] else [] := by
  have htake : packet.value.take packet.length.toNat = address :: payload := hvalue
  have hlt := packet.length.toNat_lt
  obtain ⟨n, hn⟩ : ∃ n, packet.length.toNat = n + 1 := by
    refine Nat.exists_eq_succ_of_ne_zero fun hzero => ?_
    rw [hzero, List.take_zero] at htake
    exact absurd htake (List.cons_ne_nil _ _).symm
  obtain ⟨b, rest, hcons⟩ : ∃ b rest, packet.value = b :: rest :=
    List.exists_cons_of_ne_nil fun hnil => by simp [hnil] at htake
  rw [hcons, hn, List.take_succ_cons] at htake
  obtain ⟨rfl, rfl⟩ := List.cons.inj htake
  have hcount : unsignedSub packet.length.toNat 1 = n := by
    rw [unsignedSub_of_le (by omega) (by omega), hn]
    rfl
  have hbyte : packet.type = PacketType.eTypeOut.toByte := htype
  simp [SPacket.writesTo, hbyte, hcons, hcount]

theorem flatMap_writesTo (table : EndpointTable) (endpoint : UInt8) {packets : List SPacket}
    {xs : List (UInt8 × List UInt8)}
    (h : ((packets.map SPacket.frame).filter fun f => f.type = PacketType.eTypeOut.toByte).map
      Frame.value = xs.map fun x => x.1 :: x.2) :
    packets.flatMap (SPacket.writesTo table endpoint) =
      (xs.filter fun x => table.get x.1.toNat = endpoint).map Prod.snd := by
  induction packets generalizing xs with
  | nil =>
      rw [List.map_eq_nil_iff.1 h.symm]
      rfl
  | cons packet packets ih =>
      rw [List.flatMap_cons]
      by_cases htype : packet.frame.type = PacketType.eTypeOut.toByte
      · rw [List.map_cons, List.filter_cons_of_pos (by simpa using htype), List.map_cons] at h
        cases xs with
        | nil => exact absurd h (by simp)
        | cons x xs =>
            rw [List.map_cons] at h
            obtain ⟨hvalue, hrest⟩ := List.cons.inj h
            rw [SPacket.writesTo_out htype hvalue, ih hrest]
            by_cases hsame : table.get x.1.toNat = endpoint
            · rw [if_pos hsame, List.filter_cons_of_pos (by simpa using hsame), List.map_cons]
              rfl
            · rw [if_neg hsame, List.filter_cons_of_neg (by simpa using hsame)]
              rfl
      · rw [List.map_cons, List.filter_cons_of_neg (by simpa using htype)] at h
        have hbyte : packet.type ≠ PacketType.eTypeOut.toByte := htype
        rw [ih h, SPacket.writesTo, if_neg fun hcase => hbyte hcase.1, List.nil_append]

end SerialUsb
