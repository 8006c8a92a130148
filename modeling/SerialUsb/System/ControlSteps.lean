import SerialUsb.System.ControlMatching
import SerialUsb.System.ControlRun

/-!
# The steps of the firmware

What the steps of the firmware do to the invariant of `ControlRun`, in any order. A request that
is forwarded gets the next number, and the interrupt takes a reply under the number of its
request.
-/

namespace SerialUsb

open Framing Memory Transition

theorem count_map_fst_eq (l : List (Option ℕ × PacketFrame)) (k : ℕ) :
    (l.map Prod.fst).count (some k) = (l.filterMap Prod.fst).count k := by
  induction l with
  | nil => rfl
  | cons x l ih =>
      rw [List.map_cons, List.count_cons, ih]
      cases hx : x.1 with
      | none => simp [hx]
      | some j => simp [hx, List.count_cons]

section Step

variable {table : EndpointTable} {fs gs : List (Option ℕ × PacketFrame)} {s t : ControlRun}

theorem ControlRun.Inv.lt_length (h : s.Inv table fs gs) {k : ℕ}
    (hk : k ∈ s.asked.map Prod.fst ++ fs.filterMap Prod.fst) : k < s.link.requests.length := by
  rcases List.mem_append.1 hk with hasked | hup
  · obtain ⟨a, ha, rfl⟩ := List.mem_map.1 hasked
    obtain ⟨q, hq, _⟩ := h.asks a ha
    exact (List.getElem?_eq_some_iff.1 hq).1
  · obtain ⟨x, hx, hk⟩ := List.mem_filterMap.1 hup
    have hpacket := h.upward x hx
    unfold ControlRun.Upward at hpacket
    rw [hk] at hpacket
    obtain ⟨q, hq, _⟩ := hpacket
    exact (List.getElem?_eq_some_iff.1 hq).1

theorem ControlRun.Answered.lt_length {k : ℕ} {f : PacketFrame} (h : s.Answered k f) :
    k < s.link.requests.length := by
  obtain ⟨q, hq, _⟩ := h
  exact (List.getElem?_eq_some_iff.1 hq).1

theorem ControlRun.Inv.places_eq_zero (h : s.Inv table fs gs) {k : ℕ}
    (hk : s.link.requests.length ≤ k) : s.places fs gs k = 0 := by
  have hup : some k ∉ fs.map Prod.fst := by
    intro hmem
    obtain ⟨x, hx, hfst⟩ := List.mem_map.1 hmem
    have hlt := h.lt_length (List.mem_append_right _ (List.mem_filterMap.2 ⟨x, hx, hfst⟩))
    omega
  have howned : some k ∉ s.link.owners := by
    intro hmem
    obtain ⟨i, hi, hget⟩ := List.getElem_of_mem hmem
    have howns := (List.forall₂_iff_get.1 h.owners).2 i (h.owners.length_eq ▸ hi) hi
    rw [List.get_eq_getElem, List.get_eq_getElem, hget] at howns
    have hlt := h.lt_length (List.mem_append_left _ (List.mem_map_of_mem (f := Prod.fst) howns))
    dsimp only at hlt
    omega
  have hdown : some k ∉ gs.map Prod.fst := by
    intro hmem
    obtain ⟨x, hx, hfst⟩ := List.mem_map.1 hmem
    have hpacket := h.downward x hx
    unfold ControlRun.Downward at hpacket
    rw [hfst] at hpacket
    have hlt := hpacket.1.lt_length
    omega
  have hreplied : some k ∉ s.replies.map Prod.fst := by
    intro hmem
    obtain ⟨x, hx, hfst⟩ := List.mem_map.1 hmem
    obtain ⟨j, f, rfl, hf⟩ := h.replies x hx
    have hlt := hf.lt_length
    obtain rfl := Option.some.inj hfst
    omega
  unfold ControlRun.places
  rw [List.count_eq_zero.2 hup, List.count_eq_zero.2 howned, List.count_eq_zero.2 hdown,
    List.count_eq_zero.2 hreplied]

/-- A step of the firmware puts the packets `new` behind those on the way; a request that it
forwards has the next number. -/
theorem ControlRun.Inv.firmwareStep (h : s.Inv table fs gs) {link : ControlLink}
    {new : List (Option ℕ × PacketFrame)} (forwarded : Option HostRequest)
    (hsession : link.session = s.link.session) (howners : link.owners = s.link.owners)
    (horigins : link.origins = s.link.origins)
    (hrequests : link.requests = s.link.requests ++ forwarded.toList)
    (htaken : link.taken ⊆ s.link.taken)
    (hbytes : link.toProxy ++ link.unsent = s.link.toProxy ++ s.link.unsent ++ tagged new)
    (hup : ∀ x ∈ new, ControlRun.Upward { s with link := link } x)
    (hnew : new.filterMap Prod.fst = forwarded.toList.map fun _ => s.link.requests.length)
    (hphase : link.phase.Takes) :
    ControlRun.Inv table (fs ++ new) gs { s with link := link } := by
  have hproxy : link.proxy = s.link.proxy := congrArg Session.user hsession
  have hextends : s.Extends { s with link := link } :=
    ⟨⟨_, hrequests.symm⟩, List.Subset.refl _, List.Subset.refl _,
      congrArg Proxy.serialToUsb hproxy⟩
  obtain ⟨head, hhead, hfs⟩ := h.upstream
  constructor
  case waiting => exact hsession ▸ h.waiting
  case announced => exact hsession ▸ h.announced
  case writes => exact hproxy ▸ h.writes
  case serialToUsb => exact hproxy ▸ h.serialToUsb
  case upstream =>
    refine ⟨head, hsession ▸ hhead, ?_⟩
    rw [tagged_append, ← hfs, List.append_assoc, hbytes]
    simp only [List.append_assoc]
  case upward =>
    exact List.forall_mem_append.2 ⟨fun x hx => hextends.upward (h.upward x hx), hup⟩
  case line => exact hproxy ▸ h.line
  case origins => exact horigins ▸ h.origins
  case downward => exact fun x hx => hextends.downward (h.downward x hx)
  case owners =>
    change List.Forall₂ _ link.proxy.usb.transfers link.owners
    rw [hproxy, howners]
    exact h.owners.imp fun u o => hextends.owns
  case asks => exact fun a ha => hextends.asks (h.asks a ha)
  case ended => exact h.ended
  case order =>
    rw [List.filterMap_append, ← List.append_assoc, hnew]
    refine List.pairwise_append.2 ⟨h.order, ?_, fun i hi j hj => ?_⟩
    · cases forwarded with
      | none => exact .nil
      | some q => exact List.pairwise_singleton _ _
    · obtain ⟨_, _, rfl⟩ := List.mem_map.1 hj
      exact h.lt_length hi
  case endsOnce =>
    intro k
    change link.owners.count (some k) + _ ≤ _
    rw [howners]
    exact h.endsOnce k
  case placesOnce =>
    intro k
    have honce := h.placesOnce k
    have hfree := h.places_eq_zero (k := k)
    unfold ControlRun.places at honce hfree ⊢
    dsimp only
    rw [List.map_append, List.count_append, count_map_fst_eq new, hnew, howners]
    cases forwarded with
    | none => exact honce
    | some q =>
        simp only [Option.toList_some, List.map_singleton, List.count_singleton, beq_iff_eq]
        split <;> omega
  case taken => exact List.Subset.trans htaken h.taken
  case replies =>
    intro x hx
    obtain ⟨k, f, hx, hf⟩ := h.replies x hx
    exact ⟨k, f, hx, hextends.answered hf⟩
  case phase => exact hphase

theorem ControlRun.next_of_firmware {e : ControlEvent} (ht : s.next e = some t)
    (hends : s.link.ends e = [])
    (hlink : ∀ link, s.link.next e = some link → link.owners = s.link.owners ∧
      link.taken.length ≤ s.link.taken.length ∧
        ∃ fs', ControlRun.Inv table fs' gs { s with link := link }) :
    ∃ fs', t.Inv table fs' gs := by
  obtain ⟨link, hnext, rfl⟩ := Option.map_eq_some_iff.1 ht
  obtain ⟨howners, htaken, hinv⟩ := hlink link hnext
  rw [ControlLink.submitted_eq_nil (congrArg List.length howners).le, hends,
    List.drop_eq_nil_of_le htaken, List.append_nil, List.append_nil, List.append_nil]
  exact hinv

theorem ControlRun.Inv.other (h : s.Inv table fs gs) {f : PacketFrame} {input : InputBuffer}
    (ht : s.next (.other f input) = some t) : ∃ fs', t.Inv table fs' gs := by
  refine ControlRun.next_of_firmware ht rfl fun link hlink => ?_
  unfold ControlLink.next at hlink
  dsimp only at hlink
  split at hlink
  next hidle =>
    split at hlink
    next hother =>
      obtain rfl := Option.some.inj hlink
      have hunsent : s.link.unsent = [] := ControlLink.unsent_eq_nil (by simp [hidle])
      refine ⟨rfl, Nat.le_refl _, fs ++ [(none, f)], h.firmwareStep none rfl rfl rfl
        (List.append_nil _).symm (List.Subset.refl _) ?_ ?_ rfl h.phase⟩
      · rw [hunsent, List.append_nil]
        change s.link.toProxy ++ f.encode.map (fun b => (b, none)) ++ s.link.unsent = _
        rw [hunsent, List.append_nil]
        exact congrArg _ (List.append_nil _).symm
      · intro x hx
        rw [List.mem_singleton.1 hx]
        exact hother.2
    next => exact absurd hlink (by simp)
  next => exact absurd hlink (by simp)

/-- A request begins; the debug packet of one that is too long is sent. -/
theorem ControlRun.Inv.request (h : s.Inv table fs gs) {q : HostRequest}
    (hfits : ControlEvent.Fits (.request q)) (ht : s.next (.request q) = some t) :
    ∃ fs', t.Inv table fs' gs := by
  refine ControlRun.next_of_firmware ht rfl fun link hlink => ?_
  unfold ControlLink.next at hlink
  dsimp only at hlink
  split at hlink
  next hidle =>
    have hunsent : s.link.unsent = [] := ControlLink.unsent_eq_nil (by simp [hidle])
    split at hlink
    next => exact absurd hlink (by simp)
    next =>
      obtain rfl := Option.some.inj hlink
      refine ⟨rfl, Nat.zero_le _, ?_⟩
      unfold beginControlRequest
      by_cases hlong : maxControlTransferSize < q.setup.wLength.toNat
      · rw [if_pos hlong]
        obtain ⟨f, hsends, htype⟩ := q.exists_debug hlong
        have hnot : ¬ q.Forwarded := fun hq => absurd hq.1 (not_le.2 hlong)
        refine ⟨fs ++ [(none, f)], h.firmwareStep none rfl rfl rfl
          (List.append_nil _).symm (List.nil_subset _) ?_ ?_ rfl (Or.inl hlong)⟩
        · rw [hunsent, List.append_nil]
          unfold ControlLink.unsent ControlLink.origin
          dsimp only
          rw [if_neg hnot, hsends]
          exact congrArg _ (List.append_nil _).symm
        · intro x hx
          rw [List.mem_singleton.1 hx]
          exact Or.inr (Or.inr (Or.inl htype))
      · rw [if_neg hlong]
        refine ⟨fs ++ [], h.firmwareStep none rfl rfl rfl
          (List.append_nil _).symm (List.nil_subset _) ?_
          (fun _ hx => absurd hx List.not_mem_nil) rfl ⟨not_lt.1 hlong, hfits⟩⟩
        rw [hunsent]
        exact (List.append_nil _).symm
  next => exact absurd hlink (by simp)

theorem ControlRun.Inv.silent (h : s.Inv table fs gs) (hunsent : s.link.unsent = [])
    {slot : ControlSlot} {phase : ControlPhase} (hphase : phase.Takes)
    (hnot : ∀ q b bytes, phase ≠ .sending q (b :: bytes)) :
    ControlRun.Inv table fs gs { s with link := s.link.moved ⟨slot, phase, [], none⟩ } := by
  have hunsent' : (s.link.moved ⟨slot, phase, [], none⟩).unsent = [] :=
    ControlLink.unsent_eq_nil hnot
  rw [← List.append_nil fs]
  refine h.firmwareStep none rfl rfl rfl rfl (List.Subset.refl _) ?_
    (fun _ hx => absurd hx List.not_mem_nil) rfl hphase
  rw [hunsent, hunsent']
  simp [ControlLink.moved, tagged]

theorem ControlRun.Inv.forwards (h : s.Inv table fs gs) (hunsent : s.link.unsent = [])
    {slot : ControlSlot} {q : HostRequest} (hq : q.Forwarded) (hfits : q.Fits) :
    ∃ fs', ControlRun.Inv table fs' gs
      { s with link := s.link.moved ⟨slot, .sending q q.sends, [], some q⟩ } := by
  obtain ⟨f, hsends, hmessage⟩ := hfits.sends_eq.resolve_left fun hnone =>
    absurd (hnone.2.symm.trans hq.message_eq) (by simp)
  rw [hq.message_eq, Option.some.injEq, Prod.mk.injEq] at hmessage
  have hunsent' : (s.link.moved ⟨slot, .sending q q.sends, [], some q⟩).unsent =
      tagged [(some s.link.requests.length, f)] := by
    unfold ControlLink.unsent ControlLink.origin ControlLink.moved
    dsimp only
    rw [if_pos hq, hsends, List.length_append]
    exact (List.append_nil _).symm
  refine ⟨fs ++ [(some s.link.requests.length, f)], h.firmwareStep (some q) rfl rfl rfl rfl
    (List.Subset.refl _) ?_ ?_ rfl (Or.inr hq)⟩
  · rw [hunsent', hunsent]
    simp [ControlLink.moved]
  · intro x hx
    rw [List.mem_singleton.1 hx]
    exact ⟨q, List.getElem?_concat_length, hq, hmessage.1.symm, hmessage.2.symm⟩

theorem ControlRun.Inv.sends (h : s.Inv table fs gs) {q : HostRequest} {b : UInt8}
    {bytes : List UInt8} (hphase : s.link.phase = .sending q (b :: bytes)) :
    ControlRun.Inv table fs gs
      { s with link := s.link.moved ⟨s.link.fw.slot, .sending q bytes, [b], none⟩ } := by
  have horigin : (s.link.moved ⟨s.link.fw.slot, .sending q bytes, [b], none⟩).origin =
      s.link.origin := by
    unfold ControlLink.origin
    rw [hphase, ControlLink.requests_moved]
    rfl
  have hunsent : s.link.unsent =
      (b, s.link.origin) :: bytes.map fun b => (b, s.link.origin) := by
    unfold ControlLink.unsent
    rw [hphase]
    rfl
  have hunsent' : (s.link.moved ⟨s.link.fw.slot, .sending q bytes, [b], none⟩).unsent =
      bytes.map fun b => (b, s.link.origin) := by
    rw [← horigin]
    rfl
  have htakes := h.phase
  rw [hphase] at htakes
  rw [← List.append_nil fs]
  refine h.firmwareStep none rfl rfl rfl rfl (List.Subset.refl _) ?_
    (fun _ hx => absurd hx List.not_mem_nil) rfl htakes
  rw [hunsent, hunsent']
  simp [ControlLink.moved, tagged]

theorem ControlRun.Inv.mainLoop (h : s.Inv table fs gs) {leave : Bool}
    (ht : s.next (.mainLoop leave) = some t) : ∃ fs', t.Inv table fs' gs := by
  refine ControlRun.next_of_firmware ht rfl fun link hlink => ?_
  have hmoved :
      link = s.link.moved (unhandledControlRequest s.link.fw.slot leave s.link.phase) := by
    unfold ControlLink.next at hlink
    dsimp only at hlink
    split at hlink
    · exact absurd hlink (by simp)
    · exact (Option.some.inj hlink).symm
  subst hmoved
  refine ⟨rfl, Nat.le_refl _, ?_⟩
  have htakes := h.phase
  cases hphase : s.link.phase with
  | sending q unsent =>
      cases unsent with
      | nil =>
          have hunsent : s.link.unsent = [] := ControlLink.unsent_eq_nil (by simp [hphase])
          rw [unhandledControlRequest]
          split
          · exact ⟨fs, h.silent hunsent trivial (by simp)⟩
          · exact ⟨fs, h.silent hunsent trivial (by simp)⟩
      | cons b bytes => exact ⟨fs, h.sends hphase⟩
  | idle =>
      exact ⟨fs, h.silent (ControlLink.unsent_eq_nil (by simp [hphase])) trivial (by simp)⟩
  | resetting q =>
      have hunsent : s.link.unsent = [] := ControlLink.unsent_eq_nil (by simp [hphase])
      rw [hphase] at htakes
      rw [unhandledControlRequest]
      by_cases hdir : q.setup.deviceToHost = true
      · rw [if_pos hdir]
        have hq : q.Forwarded := ⟨htakes.1, Or.inl hdir⟩
        exact h.forwards hunsent hq (htakes.2 hq)
      · rw [if_neg hdir]
        exact ⟨fs, h.silent hunsent htakes (by simp)⟩
  | dataStage q =>
      have hunsent : s.link.unsent = [] := ControlLink.unsent_eq_nil (by simp [hphase])
      rw [hphase] at htakes
      rw [unhandledControlRequest]
      cases hdata : q.data with
      | none => exact ⟨fs, h.silent hunsent trivial (by simp)⟩
      | some d =>
          have hq : q.Forwarded := ⟨htakes.1, Or.inr (by simp [hdata])⟩
          exact h.forwards hunsent hq (htakes.2 hq)
  | waiting q =>
      have hunsent : s.link.unsent = [] := ControlLink.unsent_eq_nil (by simp [hphase])
      rw [unhandledControlRequest]
      split <;> exact ⟨fs, h.silent hunsent trivial (by simp)⟩
  | left q =>
      have hunsent : s.link.unsent = [] := ControlLink.unsent_eq_nil (by simp [hphase])
      rw [unhandledControlRequest]
      split <;> exact ⟨fs, h.silent hunsent trivial (by simp)⟩
  | replied q =>
      have hunsent : s.link.unsent = [] := ControlLink.unsent_eq_nil (by simp [hphase])
      rw [unhandledControlRequest]
      split
      · exact ⟨fs, h.silent hunsent trivial (by simp)⟩
      · split <;> exact ⟨fs, h.silent hunsent trivial (by simp)⟩
  | replying q =>
      exact ⟨fs, h.silent (ControlLink.unsent_eq_nil (by simp [hphase])) trivial (by simp)⟩
  | writing q length sent =>
      have hunsent : s.link.unsent = [] := ControlLink.unsent_eq_nil (by simp [hphase])
      rw [unhandledControlRequest]
      split <;> exact ⟨fs, h.silent hunsent trivial (by simp)⟩

theorem ControlRun.Downward.plain {x : Option ℕ × PacketFrame} (h : s.Downward x) :
    SerialUsb.Downward x := by
  unfold ControlRun.Downward at h
  unfold SerialUsb.Downward
  split
  next hnone =>
    rw [hnone] at h
    exact h
  next hsome =>
    rw [hsome] at h
    exact h.2

/-- The interrupt takes the first packet on the line, and has taken a reply if the packet
belongs to a request. -/
theorem ControlRun.Inv.interrupt_cases (h : s.Inv table fs gs) {link : ControlLink}
    (hlink : s.link.next .interrupt = some link) :
    ∃ x gs' fw, gs = x :: gs' ∧ link = { s.link with
      session := { s.link.session with
        user := s.link.proxy.setLine ((tagged gs').map Prod.fst) }
      fw := fw
      origins := (tagged gs').map Prod.snd
      taken := s.link.taken ++ x.1.toList.map fun k => (some k, x.2.encode) } := by
  unfold ControlLink.next at hlink
  obtain ⟨⟨fw, sent, rest⟩, hreceive, rfl⟩ := Option.map_eq_some_iff.1 hlink
  have hhalted := not_halted_of_receive hreceive
  cases hgs : gs with
  | nil =>
      rw [h.line, hgs] at hreceive
      exact absurd hreceive (by simp [tagged, receive])
  | cons x gs' =>
      obtain ⟨o, f⟩ := x
      have hdown := (h.downward (o, f) (hgs ▸ List.mem_cons_self)).plain
      obtain ⟨type, htype, hruntime⟩ := hdown.exists_type
      have hline : s.link.proxy.serial.line = f.encode ++ (tagged gs').map Prod.fst := by
        rw [h.line, hgs, map_fst_tagged, map_fst_tagged, List.map_cons, List.flatMap_cons]
      have horigins : s.link.origins =
          List.replicate f.encode.length o ++ (tagged gs').map Prod.snd := by
        rw [h.origins, hgs]
        change ((f.encode.map fun b => (b, o)) ++ tagged gs').map Prod.snd = _
        rw [List.map_append, List.map_map]
        exact congrArg (· ++ _) List.map_const
      rw [hline, receive_encode hhalted htype (Or.inr hruntime), Option.some.injEq,
        Prod.mk.injEq, Prod.mk.injEq] at hreceive
      obtain ⟨rfl, rfl, rfl⟩ := hreceive
      have hn : s.link.proxy.serial.line.length - ((tagged gs').map Prod.fst).length =
          f.encode.length := by
        rw [hline, List.length_append, Nat.add_sub_cancel_right]
      have hdrop : s.link.origins.drop f.encode.length = (tagged gs').map Prod.snd := by
        rw [horigins]
        exact List.drop_left' List.length_replicate
      have htake : s.link.proxy.serial.line.take f.encode.length = f.encode := by
        rw [hline, List.take_left]
      have hhead : s.link.origins.headD none = o := by
        rw [horigins]
        rfl
      have hreply : isReplyType s.link.proxy.serial.line = isReplyType f.encode := by
        rw [hline]
        rfl
      refine ⟨(o, f), gs', (interrupt s.link.fw type f.value).1, rfl, ?_⟩
      dsimp only
      rw [hn, hdrop, htake, hhead, hreply]
      cases o with
      | none =>
          obtain ⟨_, hsent, hnot⟩ := interrupt_of_downward_none s.link.fw htype hdown
          rw [hsent, hnot, List.map_nil, List.append_nil]
          simp
      | some k =>
          obtain ⟨_, _, hsent, hyes⟩ := interrupt_of_downward_some s.link.fw htype hdown
          rw [hsent, hyes, List.map_nil, List.append_nil]
          simp

theorem ControlRun.Inv.interrupt (h : s.Inv table fs gs) (ht : s.next .interrupt = some t) :
    ∃ gs', t.Inv table fs gs' := by
  obtain ⟨link, hlink, rfl⟩ := Option.map_eq_some_iff.1 ht
  obtain ⟨⟨o, f⟩, gs', fw, rfl, hlink⟩ := h.interrupt_cases hlink
  have hdown := h.downward _ List.mem_cons_self
  have howners : link.owners = s.link.owners := by rw [hlink]
  have htaken : link.taken.drop s.link.taken.length =
      o.toList.map fun k => (some k, f.encode) := by
    rw [hlink]
    exact List.drop_left
  rw [ControlLink.submitted_eq_nil (congrArg List.length howners).le, htaken, List.append_nil,
    show s.link.ends .interrupt = [] from rfl, List.append_nil]
  subst hlink
  have hextends : s.Extends
      { link := { s.link with
          session := { s.link.session with
            user := s.link.proxy.setLine ((tagged gs').map Prod.fst) }
          fw := fw
          origins := (tagged gs').map Prod.snd
          taken := s.link.taken ++ o.toList.map fun k => (some k, f.encode) }
        asked := s.asked
        ends := s.ends
        replies := s.replies ++ o.toList.map fun k => (some k, f.encode) } :=
    ⟨List.prefix_rfl, List.Subset.refl _, List.Subset.refl _, rfl⟩
  refine ⟨gs', ?_⟩
  constructor
  case waiting => exact h.waiting
  case announced => exact h.announced
  case writes => exact h.writes
  case serialToUsb => exact h.serialToUsb
  case upstream => exact h.upstream
  case upward => exact fun x hx => hextends.upward (h.upward x hx)
  case line => rfl
  case origins => rfl
  case downward =>
    exact fun x hx => hextends.downward (h.downward x (List.mem_cons_of_mem _ hx))
  case owners => exact h.owners.imp fun u o => hextends.owns
  case asks => exact h.asks
  case ended => exact h.ended
  case order => exact h.order
  case endsOnce => exact h.endsOnce
  case placesOnce =>
    intro k
    have honce := h.placesOnce k
    unfold ControlRun.places at honce ⊢
    dsimp only
    rw [List.map_cons, List.count_cons] at honce
    cases o with
    | none => simpa using honce
    | some j =>
        simp only [Option.toList_some, List.map_singleton, List.map_append, List.count_append,
          List.count_singleton, beq_iff_eq] at honce ⊢
        omega
  case taken =>
    exact List.append_subset.2 ⟨List.Subset.trans h.taken (List.subset_append_left _ _),
      List.subset_append_right _ _⟩
  case replies =>
    refine List.forall_mem_append.2 ⟨fun x hx => ?_, fun x hx => ?_⟩
    · obtain ⟨k, g, hx, hg⟩ := h.replies x hx
      exact ⟨k, g, hx, hextends.answered hg⟩
    · obtain ⟨k, hk, rfl⟩ := List.mem_map.1 hx
      obtain rfl := Option.mem_toList.1 hk
      exact ⟨k, f, rfl, hextends.answered hdown.1⟩
  case phase => exact h.phase

end Step

end SerialUsb
