import SerialUsb.System.ControlInvariant

/-!
# Each request gets its own reply

What every step does to the invariant: the proxy moves a request from its packet to its
transfer and from there to its reply, the interrupt takes the reply, and the main loop of
the firmware forwards a request and acts on the reply that was taken.
-/

namespace SerialUsb

open Framing Memory Transition

section Step

variable {s t : ControlLink} {fs gs : List (Option ℕ × PacketFrame)}

theorem ControlLink.Inv.owned (h : s.Inv fs gs) {i : ℕ} {transfer : Transfer}
    (hget : s.proxy.usb.transfers[i]? = some transfer) :
    i < s.owners.length ∧ Owned transfer (s.owners.getD i none) := by
  obtain ⟨hi, htransfer⟩ := List.getElem?_eq_some_iff.1 hget
  have hi' : i < s.owners.length := h.owners.length_eq ▸ hi
  have howned := (List.forall₂_iff_get.1 h.owners).2 i hi hi'
  refine ⟨hi', ?_⟩
  rw [List.getD_eq_getElem?_getD, List.getElem?_eq_getElem hi', Option.getD_some, ← htransfer]
  exact howned

/-- The request of a transfer says what its callback can send. -/
theorem ControlLink.Inv.traffic_callCallback (h : s.Inv fs gs) {transfer : Transfer}
    {o : Option ℕ} (howned : Owned transfer o) {status : TransferStatus}
    (hstatus : status ≠ .cancelled) :
    ∃ new, Traffic o new [] ∧ s.proxy.Emits (callCallback s.proxy transfer status) new [] := by
  rcases howned with ⟨htype, hzero, hsome⟩ | ⟨htype, hne, hnone⟩
  · obtain ⟨k, rfl⟩ := Option.ne_none_iff_exists'.1 hsome
    exact emits_callCallback_control h.writes htype hzero hstatus
  · subst hnone
    exact emits_callCallback_interrupt h.writes htype hne hstatus

theorem ControlLink.Inv.complete (h : s.Inv fs gs) {i : ℕ} {status : TransferStatus}
    (ht : s.next (.complete i status) = some t) : ∃ gs', t.Inv fs gs' := by
  unfold ControlLink.next at ht
  dsimp only at ht
  split at ht
  next => exact absurd ht (by simp)
  next hruns =>
    have hstatus : status ≠ .cancelled := fun heq => hruns (Or.inr (Or.inr heq))
    obtain ⟨p, hp, rfl⟩ := Option.map_eq_some_iff.1 ht
    unfold usbCallback at hp
    obtain ⟨transfer, htransfer, rfl⟩ := Option.map_eq_some_iff.1 hp
    obtain ⟨hi, howned⟩ := h.owned htransfer
    obtain ⟨new, htraffic, hemits⟩ := h.traffic_callCallback howned hstatus
    obtain ⟨hline, horigins, hdownward, _, _⟩ := h.setProxy hemits htraffic
    have herase := count_eraseIdx hi
    generalize s.owners.getD i none = o at *
    have hle : ∀ k, ControlLink.tokens
        { s.setProxy { callCallback s.proxy transfer status with
            usb := { (callCallback s.proxy transfer status).usb with
              transfers := (callCallback s.proxy transfer status).usb.transfers.eraseIdx i } }
            o with owners := s.owners.eraseIdx i } fs (gs ++ new.map fun f => (o, f)) k ≤
          s.tokens fs gs k := by
      intro k
      have herase := herase k
      change _ + (s.owners.eraseIdx i).count (some k) + _ + (s.taken.map Prod.fst).count (some k) ≤ _
      unfold ControlLink.tokens
      rw [List.map_append, List.count_append, count_map_fst]
      by_cases hk : o = some k
      · have hone := htraffic.le_one hk
        rw [if_pos hk] at herase ⊢
        omega
      · rw [if_neg hk] at herase ⊢
        omega
    refine ⟨gs ++ new.map fun f => (o, f), ?_⟩
    constructor
    case waiting => exact h.waiting
    case writes => exact hemits.writes
    case upstream => exact h.upstream
    case upward =>
      exact fun x hx => (h.upward x hx).congr hemits.serialToUsb
    case line => exact hline
    case origins => exact horigins
    case downward => exact hdownward
    case owners =>
      change List.Forall₂ Owned ((callCallback s.proxy transfer status).usb.transfers.eraseIdx i)
        (s.owners.eraseIdx i)
      rw [hemits.transfers, List.append_nil]
      exact forall₂_eraseIdx h.owners i
    case once => exact fun k => (hle k).trans (h.once k)
    case stage => exact h.stage.mono rfl rfl rfl rfl hle

theorem ControlLink.setProxy_self (s : ControlLink) (o : Option ℕ) : s.setProxy s.proxy o = s := by
  have hnone : ∀ l : List (Option ℕ), ∀ n, l ++ List.replicate (n - n) o = l := by
    intro l n
    rw [Nat.sub_self, List.replicate_zero, List.append_nil]
  unfold ControlLink.setProxy
  rw [hnone, hnone]
  rfl

theorem ControlLink.Inv.partialRead (h : s.Inv fs gs) {n : ℕ} {session : Session Proxy}
    (hwait : session.receiver.Waiting)
    (hstored : session.receiver.stored =
      s.session.receiver.stored ++ (s.toProxy.take n).map Prod.fst)
    (huser : session.user = s.proxy) :
    ControlLink.Inv fs gs { s with session := session, toProxy := s.toProxy.drop n } := by
  obtain ⟨head, hhead, hfs⟩ := h.upstream
  have htokens : ∀ k, ControlLink.tokens
      { s with session := session, toProxy := s.toProxy.drop n } fs gs k ≤
        s.tokens fs gs k := fun _ => le_refl _
  constructor
  case waiting => exact hwait
  case writes =>
    change session.user.serial.writes = []
    rw [huser]
    exact h.writes
  case upstream =>
    refine ⟨head ++ s.toProxy.take n, ?_, ?_⟩
    · rw [List.map_append, hhead, hstored]
    · rw [← hfs, List.append_assoc head, List.take_append_drop]
      rfl
  case upward => exact fun x hx => (h.upward x hx).congr (congrArg Proxy.serialToUsb huser)
  case line =>
    change session.user.serial.line = _
    rw [huser]
    exact h.line
  case origins => exact h.origins
  case downward => exact h.downward
  case owners =>
    change List.Forall₂ Owned session.user.usb.transfers s.owners
    rw [huser]
    exact h.owners
  case once => exact h.once
  case stage => exact h.stage.mono rfl rfl rfl rfl htokens

/-- The request of a packet says what the proxy can send and submit for it. -/
theorem ControlLink.Inv.traffic_processPacket (h : s.Inv fs gs) {o : Option ℕ} {p : SPacket}
    (hup : s.Upward (o, p.frame)) :
    ∃ new ts, Traffic o new ts ∧ s.proxy.Emits (processPacket s.proxy p).1 new ts := by
  cases o with
  | none => exact emits_processPacket_other h.writes hup
  | some k => exact emits_processPacket_control h.writes hup

theorem ControlLink.Inv.packetRead (h : s.Inv fs gs) {n : ℕ} {session : Session Proxy}
    {p : SPacket} (hwait : session.receiver.Waiting) (hstored : session.receiver.stored = [])
    (hp : s.session.receiver.stored ++ (s.toProxy.take n).map Prod.fst = p.frame.encode)
    (huser : session.user = (processPacket s.proxy p).1) :
    ∃ fs' gs', ControlLink.Inv fs' gs'
      { s.setProxy session.user ((s.toProxy.take n).getLast?.bind Prod.snd) with
        session := session, toProxy := s.toProxy.drop n } := by
  obtain ⟨fs', hfs, hrest⟩ := h.completes hp
  generalize (s.toProxy.take n).getLast?.bind Prod.snd = o at hfs ⊢
  subst hfs
  obtain ⟨new, ts, htraffic, hemits⟩ := h.traffic_processPacket (h.upward _ List.mem_cons_self)
  rw [← huser] at hemits
  obtain ⟨hline, horigins, hdownward, howners, htokens⟩ := h.setProxy hemits htraffic
  have hle : ∀ k, ControlLink.tokens
      { s.setProxy session.user o with session := session, toProxy := s.toProxy.drop n } fs'
        (gs ++ new.map fun f => (o, f)) k ≤ s.tokens ((o, p.frame) :: fs') gs k := by
    intro k
    have hbound := htokens k
    unfold ControlLink.tokens at hbound ⊢
    rw [List.map_cons, List.count_cons] at hbound ⊢
    simp only [beq_iff_eq] at hbound ⊢
    omega
  refine ⟨fs', gs ++ new.map fun f => (o, f), ?_⟩
  constructor
  case waiting => exact hwait
  case writes => exact hemits.writes
  case upstream => exact ⟨[], hstored.symm, hrest⟩
  case upward =>
    exact fun x hx => (h.upward x (List.mem_cons_of_mem _ hx)).congr hemits.serialToUsb
  case line => exact hline
  case origins => exact horigins
  case downward => exact hdownward
  case owners => exact howners
  case once => exact fun k => (hle k).trans (h.once k)
  case stage => exact h.stage.mono rfl rfl rfl rfl hle

theorem ControlLink.Inv.read (h : s.Inv fs gs) {n : ℕ} (ht : s.next (.read n) = some t) :
    ∃ fs' gs', t.Inv fs' gs' := by
  unfold ControlLink.next at ht
  dsimp only at ht
  split at ht
  next => exact absurd ht (by simp)
  next =>
    obtain ⟨session, hsession, rfl⟩ := Option.map_eq_some_iff.1 ht
    rcases Session.recv_cases (fun _ => rfl) h.waiting hsession with
      ⟨hover, _⟩ | ⟨hwait, hstored, huser, _⟩ | ⟨hwait, hstored, p, hp, huser, _⟩
    · exact absurd hover h.not_oversized
    · refine ⟨fs, gs, ?_⟩
      rw [huser]
      change ControlLink.Inv fs gs
        { s.setProxy s.proxy _ with session := session, toProxy := s.toProxy.drop n }
      rw [s.setProxy_self]
      exact h.partialRead hwait hstored huser
    · exact h.packetRead hwait hstored hp huser

theorem ControlLink.Inv.exit (h : s.Inv fs gs) (ht : s.next .exit = some t) :
    ∃ gs', t.Inv fs gs' := by
  unfold ControlLink.next at ht
  dsimp only at ht
  split at ht
  next =>
    obtain rfl := Option.some.inj ht
    have hemits := Proxy.emits_send h.writes .eTypeReset []
    have htraffic : Traffic none (message maxPacketValueSize PacketType.eTypeReset.toByte []) [] :=
      ⟨fun f hf => Or.inr (type_of_mem_message hf), fun _ hmem => absurd hmem List.not_mem_nil⟩
    obtain ⟨hline, horigins, hdownward, howners, htokens⟩ := h.setProxy hemits htraffic
    have hle : ∀ k, (s.setProxy (s.proxy.send .eTypeReset []).1 none).tokens fs
        (gs ++ (message maxPacketValueSize PacketType.eTypeReset.toByte []).map
          fun f => ((none : Option ℕ), f)) k ≤ s.tokens fs gs k :=
      fun k => htokens k
    exact ⟨_, h.waiting, hemits.writes, h.upstream, h.upward, hline, horigins, hdownward, howners,
      fun k => (hle k).trans (h.once k), h.stage.mono rfl rfl rfl rfl hle⟩
  next => exact absurd ht (by simp)

theorem Downward.exists_type {x : Option ℕ × PacketFrame} (h : Downward x) :
    ∃ type : PacketType, x.2.type = type.toByte ∧ type.isRuntime = true := by
  unfold Downward at h
  split at h
  · rcases h with htype | htype
    · exact ⟨.eTypeIn, htype, rfl⟩
    · exact ⟨.eTypeReset, htype, rfl⟩
  · rcases h with htype | htype
    · exact ⟨.eTypeControl, htype, rfl⟩
    · exact ⟨.eTypeControlStall, htype, rfl⟩

theorem ControlLink.Inv.interrupt_cases (h : s.Inv fs gs) (ht : s.next .interrupt = some t) :
    ∃ x gs' type, gs = x :: gs' ∧ x.2.type = PacketType.toByte type ∧ Downward x ∧
      t = { s with
        session := { s.session with user := s.proxy.setLine ((tagged gs').map Prod.fst) }
        fw := (interrupt s.fw type x.2.value).1
        toProxy := s.toProxy ++ (interrupt s.fw type x.2.value).2.map fun b => (b, none)
        origins := (tagged gs').map Prod.snd
        taken := if isReplyType x.2.encode then s.taken ++ [(x.1, x.2.encode)] else s.taken } := by
  unfold ControlLink.next at ht
  obtain ⟨⟨fw, sent, rest⟩, hreceive, rfl⟩ := Option.map_eq_some_iff.1 ht
  have hhalted := not_halted_of_receive hreceive
  cases hgs : gs with
  | nil =>
      rw [h.line, hgs] at hreceive
      exact absurd hreceive (by simp [tagged, receive])
  | cons x gs' =>
      have hdown := h.downward x (hgs ▸ List.mem_cons_self)
      obtain ⟨type, htype, hruntime⟩ := hdown.exists_type
      have hline : s.proxy.serial.line = x.2.encode ++ (tagged gs').map Prod.fst := by
        rw [h.line, hgs, map_fst_tagged, map_fst_tagged, List.map_cons, List.flatMap_cons]
      have horigins : s.origins =
          List.replicate x.2.encode.length x.1 ++ (tagged gs').map Prod.snd := by
        rw [h.origins, hgs]
        change ((x.2.encode.map fun b => (b, x.1)) ++ tagged gs').map Prod.snd = _
        rw [List.map_append, List.map_map]
        congr 1
        exact List.map_const
      rw [hline, receive_encode hhalted htype (Or.inr hruntime), Option.some.injEq,
        Prod.mk.injEq, Prod.mk.injEq] at hreceive
      obtain ⟨rfl, rfl, rfl⟩ := hreceive
      have hn : s.proxy.serial.line.length - ((tagged gs').map Prod.fst).length =
          x.2.encode.length := by
        rw [hline, List.length_append, Nat.add_sub_cancel_right]
      refine ⟨x, gs', type, rfl, htype, hdown, ?_⟩
      have hdrop : s.origins.drop x.2.encode.length = (tagged gs').map Prod.snd := by
        rw [horigins]
        exact List.drop_left' List.length_replicate
      have htake : s.proxy.serial.line.take x.2.encode.length = x.2.encode := by
        rw [hline, List.take_left]
      have hhead : s.origins.headD none = x.1 := by
        rw [horigins]
        rfl
      have hreply : isReplyType s.proxy.serial.line = isReplyType x.2.encode := by
        rw [hline]
        rfl
      dsimp only
      rw [hn, hdrop, htake, hhead, hreply]

/-- A reply that is taken while a request expects one answers it. -/
theorem ControlLink.Inv.takes (h : s.Inv fs gs) {k : ℕ} {f : PacketFrame} (hmem : (some k, f) ∈ gs)
    (hphase : t.phase = s.phase) (hrequests : t.requests = s.requests)
    (htaken : t.taken = s.taken ++ [(some k, f.encode)])
    (hholds : s.fw.slot.controlStall = false → t.fw.slot.Holds f)
    (hreply : t.fw.slot.controlReply = true) {tokens : ℕ → ℕ} : t.Stage tokens := by
  have hpresent : ¬ ∀ k, s.tokens fs gs k = 0 := by
    intro hzero
    have hgs : 1 ≤ (gs.map Prod.fst).count (some k) :=
      List.one_le_count_iff.2 (List.mem_map_of_mem hmem)
    have hk := hzero k
    unfold ControlLink.tokens at hk
    omega
  cases h.stage with
  | idle phase => exact .idle (hphase.trans phase)
  | resetting q phase short fresh =>
      exact .resetting q (hphase.trans phase) short fun hq => absurd (fresh hq).2.1 hpresent
  | dataStage q phase short fresh =>
      exact .dataStage q (hphase.trans phase) short fun hq => absurd (fresh hq).2.1 hpresent
  | debug q unsent phase long => exact .debug q unsent (hphase.trans phase) long
  | unanswered q phase forwarded last taken reply stall =>
      refine .answered q k f (hphase ▸ phase) forwarded (hrequests ▸ last) ?_ (hholds stall) hreply
      rw [htaken, taken, List.nil_append]
  | answered q j g phase forwarded last taken holds reply =>
      exact absurd (h.alone taken hmem) (Option.some_ne_none k)
  | acting q j g phase last taken holds sends =>
      exact absurd (h.alone taken hmem) (Option.some_ne_none k)

theorem isReplyType_encode (f : PacketFrame) :
    isReplyType f.encode = decide (f.type = PacketType.eTypeControl.toByte ∨
      f.type = PacketType.eTypeControlStall.toByte) := rfl

theorem interrupt_of_downward_none (fw : Firmware) {f : PacketFrame} {type : PacketType}
    (htype : f.type = type.toByte) (hdown : Downward (none, f)) :
    (interrupt fw type f.value).1.slot = fw.slot ∧ (interrupt fw type f.value).2 = [] ∧
      isReplyType f.encode = false := by
  rw [isReplyType_encode, htype]
  have hcases : type = .eTypeIn ∨ type = .eTypeReset := by
    have hdown' : f.type = _ ∨ f.type = _ := hdown
    rw [htype] at hdown'
    exact hdown'.imp (fun h => PacketType.toByte_injective h)
      fun h => PacketType.toByte_injective h
  rcases hcases with rfl | rfl
  · exact ⟨rfl, rfl, by decide⟩
  · exact ⟨rfl, rfl, by decide⟩

theorem interrupt_of_downward_some (fw : Firmware) {f : PacketFrame} {type : PacketType} {k : ℕ}
    (htype : f.type = type.toByte) (hdown : Downward (some k, f)) :
    (fw.slot.controlStall = false → (interrupt fw type f.value).1.slot.Holds f) ∧
      (interrupt fw type f.value).1.slot.controlReply = true ∧
      (interrupt fw type f.value).2 = [] ∧ isReplyType f.encode = true := by
  have hdown' : f.type = _ ∨ f.type = _ := hdown
  rw [isReplyType_encode, decide_eq_true_iff]
  have hcases : type = .eTypeControl ∨ type = .eTypeControlStall := by
    rw [htype] at hdown'
    exact hdown'.imp (fun h => PacketType.toByte_injective h)
      fun h => PacketType.toByte_injective h
  rcases hcases with rfl | rfl
  · exact ⟨fun hstall => ControlSlot.holds_readControl hstall htype, rfl, rfl, hdown'⟩
  · exact ⟨fun _ => ControlSlot.holds_readStall fw.slot htype, rfl, rfl, hdown'⟩

theorem ControlLink.Inv.interrupt (h : s.Inv fs gs) (ht : s.next .interrupt = some t) :
    ∃ gs', t.Inv fs gs' := by
  obtain ⟨⟨o, f⟩, gs', type, rfl, htype, hdown, rfl⟩ := h.interrupt_cases ht
  obtain ⟨head, hhead, hfs⟩ := h.upstream
  dsimp only at htype ⊢
  have hdownward : ∀ x ∈ gs', Downward x := fun x hx => h.downward x (List.mem_cons_of_mem _ hx)
  refine ⟨gs', ?_⟩
  cases o with
  | none =>
      obtain ⟨hslot, hsent, hreply⟩ := interrupt_of_downward_none s.fw htype hdown
      rw [hsent, hreply, if_neg Bool.false_ne_true, List.map_nil, List.append_nil]
      have hle : ∀ k, s.tokens fs gs' k ≤ s.tokens fs ((none, f) :: gs') k := by
        intro k
        unfold ControlLink.tokens
        rw [List.map_cons, List.count_cons]
        omega
      exact ⟨h.waiting, h.writes, ⟨head, hhead, hfs⟩, h.upward, rfl, rfl, hdownward, h.owners,
        fun k => (hle k).trans (h.once k), h.stage.mono rfl hslot rfl rfl hle⟩
  | some k =>
      obtain ⟨hholds, hreplied, hsent, hreply⟩ := interrupt_of_downward_some s.fw htype hdown
      rw [hsent, hreply, if_pos rfl, List.map_nil, List.append_nil]
      refine ⟨h.waiting, h.writes, ⟨head, hhead, hfs⟩, h.upward, rfl, rfl, hdownward, h.owners,
        fun j => ?_, ?_⟩
      · have honce := h.once j
        unfold ControlLink.tokens at honce ⊢
        dsimp only
        rw [List.map_append, List.count_append]
        rw [List.map_cons, List.count_cons] at honce
        rw [List.map_singleton, List.count_singleton]
        dsimp only at honce ⊢
        omega
      · refine h.takes List.mem_cons_self ?_ ?_ ?_ hholds hreplied
        · rfl
        · rfl
        · rfl

/-- A step of the firmware that puts the packets `new` behind those on the way. -/
theorem ControlLink.Inv.firmwareStep (h : s.Inv fs gs) {fs' new : List (Option ℕ × PacketFrame)}
    (hsession : t.session = s.session) (howners : t.owners = s.owners)
    (horigins : t.origins = s.origins) (hfs' : fs' = fs ++ new)
    (hbytes : t.toProxy ++ t.unsent = s.toProxy ++ s.unsent ++ tagged new)
    (hup : ∀ x ∈ new, s.Upward x)
    (honce : ∀ k, t.tokens fs' gs k ≤ if k + 1 = t.requests.length then 1 else 0)
    (hstage : t.Stage (t.tokens fs' gs)) : t.Inv fs' gs := by
  subst hfs'
  have hproxy : t.proxy = s.proxy := congrArg Session.user hsession
  obtain ⟨head, hhead, hfs⟩ := h.upstream
  constructor
  case waiting => exact hsession ▸ h.waiting
  case writes => exact hproxy ▸ h.writes
  case upstream =>
    refine ⟨head, hsession ▸ hhead, ?_⟩
    rw [tagged_append, ← hfs, List.append_assoc, hbytes]
    simp only [List.append_assoc]
  case upward =>
    exact fun x hx => ((List.forall_mem_append.2 ⟨h.upward, hup⟩) x hx).congr
      (congrArg Proxy.serialToUsb hproxy)
  case line => exact hproxy ▸ h.line
  case origins => exact horigins ▸ h.origins
  case downward => exact h.downward
  case owners =>
    rw [hproxy, howners]
    exact h.owners
  case once => exact honce
  case stage => exact hstage

theorem ControlLink.Inv.other (h : s.Inv fs gs) {f : PacketFrame} {input : InputBuffer}
    (ht : s.next (.other f input) = some t) : ∃ fs', t.Inv fs' gs := by
  unfold ControlLink.next at ht
  dsimp only at ht
  split at ht
  next hidle =>
    split at ht
    next hother =>
      obtain rfl := Option.some.inj ht
      have hunsent : s.unsent = [] := ControlLink.unsent_eq_nil (by simp [hidle])
      have hle : ∀ k, ControlLink.tokens
          { s with
            fw := { s.fw with input := input }
            toProxy := s.toProxy ++ f.encode.map fun b => (b, none) }
            (fs ++ [(none, f)]) gs k ≤ s.tokens fs gs k :=
        fun k => (s.tokens_concat_none fs gs f k).le
      refine ⟨fs ++ [(none, f)], h.firmwareStep rfl rfl rfl rfl ?_ ?_
        (fun k => (hle k).trans (h.once k)) (h.stage.mono rfl rfl rfl rfl hle)⟩
      · rw [hunsent, List.append_nil]
        change s.toProxy ++ f.encode.map (fun b => (b, none)) ++ s.unsent = _
        rw [hunsent, List.append_nil]
        exact congrArg _ (List.append_nil _).symm
      · intro x hx
        rw [List.mem_singleton.1 hx]
        exact hother.2
    next => exact absurd ht (by simp)
  next => exact absurd ht (by simp)

theorem ControlLink.Inv.beginLong (h : s.Inv fs gs) (hunsent : s.unsent = []) {q : HostRequest}
    (hlong : maxControlTransferSize < q.setup.wLength.toNat) :
    ∃ fs', ControlLink.Inv fs' gs { s with phase := .sending q q.sends, taken := [] } := by
  obtain ⟨f, hsends, htype⟩ := q.exists_debug hlong
  have hnot : ¬ q.Forwarded := fun hq => absurd hq.1 (not_le.2 hlong)
  have hbytes : ControlLink.unsent { s with phase := .sending q q.sends, taken := [] } =
      tagged [(none, f)] := by
    unfold ControlLink.unsent ControlLink.origin
    dsimp only
    rw [if_neg hnot, hsends]
    exact (List.append_nil _).symm
  have hle : ∀ k, ControlLink.tokens { s with phase := .sending q q.sends, taken := [] }
      (fs ++ [(none, f)]) gs k ≤ s.tokens fs gs k := by
    intro k
    rw [ControlLink.tokens_concat_none]
    exact Nat.le_add_right _ _
  refine ⟨fs ++ [(none, f)], h.firmwareStep rfl rfl rfl rfl ?_ ?_
    (fun k => (hle k).trans (h.once k)) (.debug q q.sends rfl hlong)⟩
  · rw [hbytes, hunsent, List.append_nil]
  · intro x hx
    rw [List.mem_singleton.1 hx]
    exact Or.inr (Or.inr (Or.inl htype))

theorem ControlLink.Inv.request (h : s.Inv fs gs) {q : HostRequest}
    (hturn : s.InTurn (.request q)) (ht : s.next (.request q) = some t) :
    ∃ fs', t.Inv fs' gs := by
  unfold ControlLink.next at ht
  dsimp only at ht
  split at ht
  next hidle =>
    have hunsent : s.unsent = [] := ControlLink.unsent_eq_nil (by simp [hidle])
    split at ht
    next => exact absurd ht (by simp)
    next =>
      obtain rfl := Option.some.inj ht
      unfold beginControlRequest
      by_cases hlong : maxControlTransferSize < q.setup.wLength.toNat
      · rw [if_pos hlong]
        exact h.beginLong hunsent hlong
      · rw [if_neg hlong]
        have hle : ∀ k, ControlLink.tokens { s with
            fw := { s.fw with slot := { s.fw.slot with controlReply := false } }
            phase := .resetting q, taken := [] } fs gs k ≤ s.tokens fs gs k :=
          fun k => Nat.le_add_right _ _
        refine ⟨fs, h.firmwareStep rfl rfl rfl (List.append_nil fs).symm ?_
          (fun _ hx => absurd hx List.not_mem_nil) (fun k => (hle k).trans (h.once k))
          (.resetting q rfl (not_lt.1 hlong) fun hq => ?_)⟩
        · rw [hunsent]
          exact (List.append_nil _).symm
        · obtain ⟨hfits, hsettled⟩ := hturn hq
          exact ⟨hfits, h.tokens_of_settled hunsent hsettled, rfl, rfl⟩
  next => exact absurd ht (by simp)

def ControlLink.moved (s : ControlLink) (step : ControlStep) : ControlLink :=
  { s with
    fw := { s.fw with slot := step.slot }
    phase := step.phase
    toProxy := s.toProxy ++ step.sent.map fun b => (b, s.origin)
    requests := s.requests ++ step.forwarded.toList }

theorem ControlLink.requests_moved (slot : ControlSlot) (phase : ControlPhase)
    (sent : List UInt8) : (s.moved ⟨slot, phase, sent, none⟩).requests = s.requests :=
  List.append_nil _

theorem ControlLink.Inv.once_moved (h : s.Inv fs gs) (slot : ControlSlot) (phase : ControlPhase)
    (sent : List UInt8) (k : ℕ) : (s.moved ⟨slot, phase, sent, none⟩).tokens fs gs k ≤
      if k + 1 = (s.moved ⟨slot, phase, sent, none⟩).requests.length then 1 else 0 := by
  rw [ControlLink.requests_moved]
  exact h.once k

theorem ControlLink.Inv.silent (h : s.Inv fs gs) (hunsent : s.unsent = []) {slot : ControlSlot}
    {phase : ControlPhase} (hphase : ∀ q b bytes, phase ≠ .sending q (b :: bytes))
    (hstage : (s.moved ⟨slot, phase, [], none⟩).Stage (s.tokens fs gs)) :
    (s.moved ⟨slot, phase, [], none⟩).Inv fs gs := by
  have hunsent' : (s.moved ⟨slot, phase, [], none⟩).unsent = [] := ControlLink.unsent_eq_nil hphase
  refine h.firmwareStep rfl rfl rfl (List.append_nil fs).symm ?_
    (fun _ hx => absurd hx List.not_mem_nil) (h.once_moved slot phase []) hstage
  rw [hunsent, hunsent']
  simp [ControlLink.moved, tagged]

theorem ControlLink.Inv.forwards (h : s.Inv fs gs) (hunsent : s.unsent = []) {slot : ControlSlot}
    {q : HostRequest} (hq : q.Forwarded) (hfits : q.Fits) (hnone : ∀ k, s.tokens fs gs k = 0)
    (htaken : s.taken = []) (hreply : slot.controlReply = false)
    (hstall : slot.controlStall = false) :
    ∃ fs', (s.moved ⟨slot, .sending q q.sends, [], some q⟩).Inv fs' gs := by
  obtain ⟨f, hsends, htype⟩ := hq.exists_packet hfits
  have hunsent' : (s.moved ⟨slot, .sending q q.sends, [], some q⟩).unsent =
      tagged [(some s.requests.length, f)] := by
    unfold ControlLink.unsent ControlLink.origin ControlLink.moved
    dsimp only
    rw [if_pos hq, hsends, List.length_append]
    exact (List.append_nil _).symm
  have hlength : (s.moved ⟨slot, .sending q q.sends, [], some q⟩).requests.length =
      s.requests.length + 1 := List.length_append
  refine ⟨fs ++ [(some s.requests.length, f)], h.firmwareStep rfl rfl rfl rfl ?_ ?_
    (fun k => ?_) (.unanswered q (Or.inl ⟨q.sends, rfl⟩) hq List.getLast?_concat htaken hreply
      hstall)⟩
  · rw [hunsent', hunsent]
    exact congrArg (· ++ _) rfl
  · intro x hx
    rw [List.mem_singleton.1 hx]
    exact htype
  · have hzero : (s.moved ⟨slot, .sending q q.sends, [], some q⟩).tokens fs gs k = 0 := hnone k
    rw [ControlLink.tokens_concat_some, hzero, hlength]
    split <;> split <;> omega

theorem ControlLink.Inv.sends (h : s.Inv fs gs) {q : HostRequest} {b : UInt8} {bytes : List UInt8}
    (hphase : s.phase = .sending q (b :: bytes))
    (hstage : (s.moved ⟨s.fw.slot, .sending q bytes, [b], none⟩).Stage (s.tokens fs gs)) :
    (s.moved ⟨s.fw.slot, .sending q bytes, [b], none⟩).Inv fs gs := by
  have horigin : (s.moved ⟨s.fw.slot, .sending q bytes, [b], none⟩).origin = s.origin := by
    unfold ControlLink.origin
    rw [hphase, ControlLink.requests_moved]
    rfl
  have hunsent : s.unsent = (b, s.origin) :: bytes.map fun b => (b, s.origin) := by
    unfold ControlLink.unsent
    rw [hphase]
    rfl
  have hunsent' : (s.moved ⟨s.fw.slot, .sending q bytes, [b], none⟩).unsent =
      bytes.map fun b => (b, s.origin) := by
    rw [← horigin]
    rfl
  refine h.firmwareStep rfl rfl rfl (List.append_nil fs).symm ?_
    (fun _ hx => absurd hx List.not_mem_nil) (h.once_moved _ _ _) hstage
  rw [hunsent, hunsent']
  simp [ControlLink.moved, tagged]

/-- While the reply is not tested, the main loop sends a byte, goes on to wait, or tests the
reply. -/
theorem ControlPhase.Expects.step {q : HostRequest} {phase : ControlPhase} (h : phase.Expects q)
    (hq : q.Forwarded) (slot : ControlSlot) (leave : Bool) :
    (∃ b bytes, phase = .sending q (b :: bytes)) ∨
      (∀ q' b bytes, phase ≠ .sending q' (b :: bytes)) ∧
        ((∃ phase', (phase' = .waiting q ∨ phase' = .left q) ∧
            unhandledControlRequest slot leave phase = ⟨slot, phase', [], none⟩) ∨
          unhandledControlRequest slot leave phase =
            ⟨slot, if slot.controlReply then .replied q else .idle, [], none⟩) := by
  rcases h with ⟨unsent, rfl⟩ | rfl | rfl
  · cases unsent with
    | nil =>
        refine Or.inr ⟨by simp, Or.inl ⟨.waiting q, Or.inl rfl, ?_⟩⟩
        rw [unhandledControlRequest, if_neg (not_lt.2 hq.1)]
    | cons b bytes => exact Or.inl ⟨b, bytes, rfl⟩
  · refine Or.inr ⟨by simp, Or.inl ?_⟩
    rw [unhandledControlRequest]
    split
    · exact ⟨.left q, Or.inr rfl, rfl⟩
    · exact ⟨.waiting q, Or.inl rfl, rfl⟩
  · refine Or.inr ⟨by simp, Or.inr ?_⟩
    rw [unhandledControlRequest]
    split <;> rfl

theorem ControlLink.Inv.expects (h : s.Inv fs gs) {q : HostRequest} (phase : s.phase.Expects q)
    (forwarded : q.Forwarded) (leave : Bool)
    (hexpects : ∀ (phase' : ControlPhase) (sent : List UInt8), phase'.Expects q →
      (s.moved ⟨s.fw.slot, phase', sent, none⟩).Stage (s.tokens fs gs))
    (htested : (s.moved ⟨s.fw.slot, if s.fw.slot.controlReply then .replied q else .idle, [],
      none⟩).Stage (s.tokens fs gs)) :
    (s.moved (unhandledControlRequest s.fw.slot leave s.phase)).Inv fs gs := by
  rcases phase.step forwarded s.fw.slot leave with ⟨b, bytes, phase⟩ | ⟨hnot, hstep | hstep⟩
  · rw [phase]
    exact h.sends phase (hexpects _ _ (Or.inl ⟨bytes, rfl⟩))
  · obtain ⟨phase', hphase, hstep⟩ := hstep
    rw [hstep]
    refine h.silent (ControlLink.unsent_eq_nil hnot) ?_ (hexpects phase' [] (Or.inr hphase))
    rcases hphase with rfl | rfl
    · simp
    · simp
  · rw [hstep]
    refine h.silent (ControlLink.unsent_eq_nil hnot) ?_ htested
    split
    · simp
    · simp

theorem ControlLink.Inv.mainLoop (h : s.Inv fs gs) {leave : Bool}
    (ht : s.next (.mainLoop leave) = some t) : ∃ fs', t.Inv fs' gs := by
  have hmoved : t = s.moved (unhandledControlRequest s.fw.slot leave s.phase) := by
    unfold ControlLink.next at ht
    dsimp only at ht
    split at ht
    · exact absurd ht (by simp)
    · exact (Option.some.inj ht).symm
  subst hmoved
  have hlast : ∀ {q}, s.requests.getLast? = some q →
      (s.requests ++ (none : Option HostRequest).toList).getLast? = some q :=
    fun last => (congrArg List.getLast? (List.append_nil _)).trans last
  cases h.stage with
  | idle phase =>
      rw [phase]
      exact ⟨fs, h.silent (ControlLink.unsent_eq_nil (by simp [phase])) (by simp) (.idle rfl)⟩
  | resetting q phase short fresh =>
      have hunsent : s.unsent = [] := ControlLink.unsent_eq_nil (by simp [phase])
      rw [phase, unhandledControlRequest]
      by_cases hdir : q.setup.deviceToHost = true
      · rw [if_pos hdir]
        have hq : q.Forwarded := ⟨short, Or.inl hdir⟩
        obtain ⟨hfits, hnone, htaken, hreply⟩ := fresh hq
        exact h.forwards hunsent hq hfits hnone htaken hreply rfl
      · rw [if_neg hdir]
        refine ⟨fs, h.silent hunsent (by simp) (.dataStage q rfl short fun hq => ?_)⟩
        obtain ⟨hfits, hnone, htaken, hreply⟩ := fresh hq
        exact ⟨hfits, hnone, htaken, hreply, rfl⟩
  | dataStage q phase short fresh =>
      have hunsent : s.unsent = [] := ControlLink.unsent_eq_nil (by simp [phase])
      rw [phase, unhandledControlRequest]
      cases hdata : q.data with
      | none => exact ⟨fs, h.silent hunsent (by simp) (.idle rfl)⟩
      | some d =>
          have hq : q.Forwarded := ⟨short, Or.inr (by simp [hdata])⟩
          obtain ⟨hfits, hnone, htaken, hreply, hstall⟩ := fresh hq
          exact h.forwards hunsent hq hfits hnone htaken hreply hstall
  | debug q unsent phase long =>
      rw [phase]
      cases unsent with
      | nil =>
          rw [unhandledControlRequest, if_pos long]
          exact ⟨fs, h.silent (ControlLink.unsent_eq_nil (by simp [phase])) (by simp) (.idle rfl)⟩
      | cons b bytes => exact ⟨fs, h.sends phase (.debug q bytes rfl long)⟩
  | unanswered q phase forwarded last taken reply stall =>
      refine ⟨fs, h.expects phase forwarded leave (fun phase' sent hphase =>
        .unanswered q hphase forwarded (hlast last) taken reply stall) ?_⟩
      rw [reply]
      exact .idle rfl
  | answered q k f phase forwarded last taken holds reply =>
      refine ⟨fs, h.expects phase forwarded leave (fun phase' sent hphase =>
        .answered q k f hphase forwarded (hlast last) taken holds reply) ?_⟩
      rw [reply]
      exact .acting q k f rfl (hlast last) taken holds trivial
  | acting q k f phase last taken holds sends =>
      have hnot : ∀ {phase : ControlPhase}, phase.acting = some q →
          ∀ q' b bytes, phase ≠ .sending q' (b :: bytes) := by
        rintro _ hacting q' b bytes rfl
        exact absurd hacting (by simp [ControlPhase.acting])
      have hunsent : s.unsent = [] := ControlLink.unsent_eq_nil (hnot phase)
      obtain ⟨phase', hstep, hsends, hnext⟩ := sends.step holds leave phase
      rw [hstep]
      rcases hnext with rfl | hacting
      · exact ⟨fs, h.silent hunsent (by simp) (.idle rfl)⟩
      · exact ⟨fs, h.silent hunsent (hnot hacting)
          (.acting q k f hacting (hlast last) taken holds hsends)⟩

/-- A step whose request, if it makes one, is in turn. -/
theorem ControlLink.Inv.next (h : s.Inv fs gs) {e : ControlEvent} (hturn : s.InTurn e)
    (ht : s.next e = some t) : ∃ fs' gs', t.Inv fs' gs' := by
  cases e with
  | request q =>
      obtain ⟨fs', h'⟩ := h.request hturn ht
      exact ⟨fs', gs, h'⟩
  | mainLoop leave =>
      obtain ⟨fs', h'⟩ := h.mainLoop ht
      exact ⟨fs', gs, h'⟩
  | other f input =>
      obtain ⟨fs', h'⟩ := h.other ht
      exact ⟨fs', gs, h'⟩
  | interrupt =>
      obtain ⟨gs', h'⟩ := h.interrupt ht
      exact ⟨fs, gs', h'⟩
  | read n => exact h.read ht
  | complete i status =>
      obtain ⟨gs', h'⟩ := h.complete ht
      exact ⟨fs, gs', h'⟩
  | exit =>
      obtain ⟨gs', h'⟩ := h.exit ht
      exact ⟨fs, gs', h'⟩

end Step

theorem ControlLink.Ready.inv {r : Receiver} {p : Proxy} {bytes : List UInt8}
    (h : ControlLink.Ready r p bytes) (fw : Firmware) :
    ∃ fs, (ControlLink.start r p fw bytes).Inv fs [] := by
  obtain ⟨fs, hother, hbytes⟩ := h.back
  have htagged : tagged (fs.map fun f => ((none : Option ℕ), f)) =
      (r.stored ++ bytes).map fun b => (b, none) := by
    rw [tagged_map, ← hbytes]
  have hnone : ∀ k, (ControlLink.start r p fw bytes).tokens
      (fs.map fun f => ((none : Option ℕ), f)) [] k = 0 := by
    intro k
    unfold ControlLink.tokens ControlLink.start
    simp [List.count_replicate]
  refine ⟨fs.map fun f => (none, f), h.waiting, h.writes,
    ⟨r.stored.map fun b => (b, none), ?_, ?_⟩, ?_, h.line, rfl,
    fun _ hx => absurd hx List.not_mem_nil, ?_, fun k => ?_, .idle rfl⟩
  · rw [List.map_map]
    exact List.map_id _
  · rw [htagged, List.map_append]
    exact List.append_nil _
  · intro x hx
    obtain ⟨f, hf, rfl⟩ := List.mem_map.1 hx
    exact hother f hf
  · have howned := @forall₂_owned_append [] p.usb.transfers [] none .nil
      fun t ht => Or.inr ⟨(h.transfers t ht).1, (h.transfers t ht).2, rfl⟩
    exact howned
  · rw [hnone k]
    exact Nat.zero_le _

/-- When every request that is forwarded fits a packet and begins after all that belongs
to the earlier requests has gone, each reply that is acted on is the one produced for its
request, and it stays in the buffer as long as it is sent to the host. -/
theorem control_matched {r : Receiver} {p : Proxy} {fw : Firmware} {bytes : List UInt8}
    (h : ControlLink.Ready r p bytes) {es : List ControlEvent} {s : ControlLink}
    (hrun : exec ControlLink.next (ControlLink.start r p fw bytes) es = some s)
    (hturn : Along ControlLink.next ControlLink.InTurn (ControlLink.start r p fw bytes) es) :
    s.Matched := by
  have hstep : ∀ s e t, (∃ fs gs, ControlLink.Inv fs gs s) → s.InTurn e → s.next e = some t →
      ∃ fs gs, ControlLink.Inv fs gs t := by
    rintro s e t ⟨fs, gs, hs⟩ hturn ht
    exact hs.next hturn ht
  obtain ⟨fs, hstart⟩ := h.inv fw
  obtain ⟨fs', gs', hs⟩ := exec_invariant_along hstep ⟨fs, [], hstart⟩ hturn hrun
  exact hs.matched

def vendorRequest (bRequest : UInt8) : HostRequest where
  setup := ⟨0xC0, bRequest, 0, 0, 1⟩
  data := none
  length_data := by
    rintro d ⟨⟩

def forwardSteps : List ControlEvent := List.replicate 12 (.mainLoop false)

def replySteps : List ControlEvent := List.replicate 5 (.mainLoop false)

theorem oneInputProxy_controlReady : ControlLink.Ready Receiver.start oneInputProxy [] where
  waiting := Receiver.waiting_start
  back := ⟨[], fun _ hf => absurd hf List.not_mem_nil, rfl⟩
  line := rfl
  writes := rfl
  transfers := fun _ ht => absurd ht List.not_mem_nil

/-- Two requests in turn: each is forwarded, answered by the device and completed. -/
def twoRequests : List ControlEvent :=
  [.request (vendorRequest 1)] ++ forwardSteps ++ [.read 0, .read 2, .read 8,
    .complete 0 (.completed [7]), .interrupt] ++ replySteps ++
  [.mainLoop false, .request (vendorRequest 2)] ++ forwardSteps ++ [.read 2, .read 8,
    .complete 0 (.completed [8]), .interrupt] ++ replySteps

theorem control_matched_two :
    ∃ s : ControlLink, exec ControlLink.next
        (ControlLink.start Receiver.start oneInputProxy Firmware.boot []) twoRequests = some s ∧
      s.requests.length = 2 ∧ s.taken = [(some 1, [4, 1, 8])] ∧
      s.Matched := by
  have hrun : (exec ControlLink.next
      (ControlLink.start Receiver.start oneInputProxy Firmware.boot []) twoRequests).map
        (fun s => (s.requests.length, s.taken)) =
      some (2, [(some 1, [4, 1, 8])]) := by
    decide +kernel
  obtain ⟨s, hs, hstate⟩ := Option.map_eq_some_iff.1 hrun
  obtain ⟨hrequests, htaken⟩ := Prod.mk.inj hstate
  exact ⟨s, hs, hrequests, htaken,
    control_matched oneInputProxy_controlReady hs (by decide +kernel)⟩

/-- The reply to a first request comes after its 50 ms, when a second request waits: its
byte goes to the host as the answer to the second one. -/
theorem control_lateReply :
    ControlLink.Ready Receiver.start oneInputProxy [] ∧
    ∃ s : ControlLink, exec ControlLink.next
        (ControlLink.start Receiver.start oneInputProxy Firmware.boot [])
        ([.request (vendorRequest 1)] ++ forwardSteps ++ [.read 0, .read 2, .read 8,
          .mainLoop true, .mainLoop false, .request (vendorRequest 2)] ++ forwardSteps ++
          [.complete 0 (.completed [7]), .interrupt] ++ replySteps) = some s ∧
      s.requests.length = 2 ∧ s.taken = [(some 0, [4, 1, 7])] ∧
      (∃ q length, s.phase = .writing q length [7]) ∧ ¬ s.Matched := by
  have hrun : (exec ControlLink.next
      (ControlLink.start Receiver.start oneInputProxy Firmware.boot [])
      ([.request (vendorRequest 1)] ++ forwardSteps ++ [.read 0, .read 2, .read 8,
        .mainLoop true, .mainLoop false, .request (vendorRequest 2)] ++ forwardSteps ++
        [.complete 0 (.completed [7]), .interrupt] ++ replySteps)).map
        (fun s => (s.requests.length, s.taken, match s.phase with
          | .writing _ _ sent => some sent
          | _ => none)) = some (2, [(some 0, [4, 1, 7])], some [7]) := by
    decide +kernel
  obtain ⟨s, hs, hstate⟩ := Option.map_eq_some_iff.1 hrun
  rw [Prod.mk.injEq, Prod.mk.injEq] at hstate
  obtain ⟨hlength, htaken, hsent⟩ := hstate
  have hphase : ∃ q length, s.phase = .writing q length [7] := by
    split at hsent
    next q length sent heq => exact ⟨q, length, by rw [heq, Option.some.inj hsent]⟩
    next => exact absurd hsent (by simp)
  refine ⟨oneInputProxy_controlReady, s, hs, hlength, htaken, hphase, fun hmatched => ?_⟩
  obtain ⟨q, length, hphase⟩ := hphase
  obtain ⟨f, _, hown, _⟩ := hmatched q (by rw [hphase]; rfl)
  rw [htaken, hlength] at hown
  exact absurd hown (by simp)

end SerialUsb
