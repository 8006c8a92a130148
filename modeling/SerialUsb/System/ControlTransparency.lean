import SerialUsb.System.ControlSteps

/-!
# Control requests are transparent

What the steps of the proxy do to the invariant of `ControlRun`. The proxy turns a request into
its transfer and the end of that transfer into its reply, each under the number of the request,
and nothing else makes a transfer of endpoint 0 or a reply.
-/

namespace SerialUsb

open Framing Memory Transition

theorem forall₂_append_replicate {α β : Type*} {R : α → β → Prop} {as : List α} {bs : List β}
    (h : List.Forall₂ R as bs) {us : List α} {b : β} (hus : ∀ u ∈ us, R u b) :
    List.Forall₂ R (as ++ us) (bs ++ List.replicate us.length b) := by
  refine List.rel_append h ?_
  induction us with
  | nil => exact .nil
  | cons u us ih =>
      rw [List.forall_mem_cons] at hus
      exact .cons hus.1 (ih hus.2)

theorem not_oversized_of_tagged {stored rest : List UInt8}
    {fs : List (Option ℕ × PacketFrame)} (h : stored ++ rest = (tagged fs).map Prod.fst) :
    ¬ Oversized maxPacketValueSize stored := by
  intro hover
  have hall := hover.append rest
  rw [h, map_fst_tagged] at hall
  cases fs with
  | nil => exact hall
  | cons x xs =>
      rw [List.map_cons, List.flatMap_cons] at hall
      exact x.2.not_oversized_append maxPacketValueSize_lt _ hall

theorem tagged_completes {head a b : List (UInt8 × Option ℕ)}
    {fs : List (Option ℕ × PacketFrame)} {f : PacketFrame} (h : head ++ (a ++ b) = tagged fs)
    (hf : (head ++ a).map Prod.fst = f.encode) (ha : a ≠ []) :
    ∃ fs', fs = (a.getLast?.bind Prod.snd, f) :: fs' ∧ b = tagged fs' := by
  rw [← List.append_assoc] at h
  obtain ⟨o, fs', rfl, hbytes, hrest⟩ := tagged_eq_append h hf
  refine ⟨fs', ?_, hrest⟩
  obtain ⟨b, hb⟩ := getLast?_tagged_concat [] (o, f)
  have hone : tagged [(o, f)] = f.encode.map fun b => (b, o) := List.append_nil _
  have hlast : a.getLast? = some (b, o) := by
    rw [← List.getLast?_append_of_ne_nil head ha, hbytes, ← hone]
    exact hb
  rw [hlast]
  rfl

section Step

variable {table : EndpointTable} {fs gs : List (Option ℕ × PacketFrame)} {s t : ControlRun}

/-- A step of the proxy for the packets `removed`, which belong to `o`. -/
theorem ControlRun.Inv.proxyStep {removed fs' : List (Option ℕ × PacketFrame)}
    (h : s.Inv table (removed ++ fs') gs) {o : Option ℕ}
    (hremoved : removed.filterMap Prod.fst = o.toList) {session : Session Proxy}
    {rest : List (UInt8 × Option ℕ)} {new : List PacketFrame} {ts : List Transfer}
    (hemits : s.link.proxy.Emits session.user new ts) (hwaiting : session.receiver.Waiting)
    (hannounced : session.Announced)
    (hupstream : ∃ head, head.map Prod.fst = session.receiver.stored ∧
      head ++ rest ++ s.link.unsent = tagged fs')
    (hdown : ∀ f ∈ new, s.Downward (o, f)) (hsubmits : ∀ u ∈ ts, s.Submits table o u)
    (hone : o ≠ none → new.length + ts.length ≤ 1) {link : ControlLink}
    {exited : Bool} (hlink : link = { s.link.setProxy session.user o with
      session := session, exited := exited, toProxy := rest }) :
    ControlRun.Inv table fs' (gs ++ new.map fun f => (o, f))
      { s with link := link, asked := s.asked ++ s.link.submitted link } := by
  have hlength := h.owners.length_eq
  have hsubmitted : s.link.submitted link = ts.filterMap fun u => o.map fun k => (k, u) :=
    ControlLink.submitted_setProxy hemits hlength (by rw [hlink]; rfl) (by rw [hlink])
  have howners : link.owners = s.link.owners ++ List.replicate ts.length o := by
    rw [hlink]
    exact ControlLink.owners_setProxy hemits
  have horigins : link.origins =
      s.link.origins ++ List.replicate (new.flatMap Frame.encode).length o := by
    rw [hlink]
    exact ControlLink.origins_setProxy hemits
  have hproxy : link.proxy = session.user := by rw [hlink]; rfl
  have hrequests : link.requests = s.link.requests := by rw [hlink]; rfl
  have hcount : ∀ k, ((s.link.submitted link).map Prod.fst).count k =
      if o = some k then ts.length else 0 := by
    intro k
    rw [hsubmitted]
    cases o with
    | none => simp
    | some j => simp [List.count_replicate]
  have hextends : s.Extends { s with link := link, asked := s.asked ++ s.link.submitted link } :=
    ⟨hrequests ▸ List.prefix_rfl, List.subset_append_left _ _, List.Subset.refl _,
      hproxy ▸ hemits.serialToUsb⟩
  constructor
  case waiting => rw [hlink]; exact hwaiting
  case announced => rw [hlink]; exact hannounced
  case writes => rw [hproxy]; exact hemits.writes
  case serialToUsb => rw [hproxy]; exact hemits.serialToUsb.trans h.serialToUsb
  case upstream => rw [hlink]; exact hupstream
  case upward =>
    exact fun x hx => hextends.upward (h.upward x (List.mem_append_right _ hx))
  case line =>
    rw [hproxy, hemits.line, h.line, tagged_concat, List.map_append, List.map_map]
    exact congrArg _ (List.map_id _).symm
  case origins =>
    change link.origins = _
    rw [horigins, h.origins, tagged_concat, List.map_append, List.map_map]
    exact congrArg _ List.map_const.symm
  case downward =>
    refine List.forall_mem_append.2 ⟨fun x hx => hextends.downward (h.downward x hx),
      fun x hx => ?_⟩
    obtain ⟨f, hf, rfl⟩ := List.mem_map.1 hx
    exact hextends.downward (hdown f hf)
  case owners =>
    change List.Forall₂ _ link.proxy.usb.transfers link.owners
    rw [hproxy, howners, hemits.transfers]
    refine forall₂_append_replicate (h.owners.imp fun u o => hextends.owns) fun u hu => ?_
    cases o with
    | none => exact hsubmits u hu
    | some k =>
        refine List.mem_append_right _ ?_
        rw [hsubmitted]
        exact List.mem_filterMap.2 ⟨u, hu, rfl⟩
  case asks =>
    refine List.forall_mem_append.2 ⟨fun a ha => hextends.asks (h.asks a ha), fun a ha => ?_⟩
    rw [hsubmitted] at ha
    obtain ⟨u, hu, hk⟩ := List.mem_filterMap.1 ha
    obtain ⟨k, rfl, rfl⟩ := Option.map_eq_some_iff.1 hk
    exact hextends.asks (hsubmits u hu)
  case ended => exact fun e he => List.mem_append_left _ (h.ended e he)
  case order =>
    have horder := h.order
    rw [List.filterMap_append, hremoved] at horder
    rw [List.map_append, List.append_assoc]
    refine horder.sublist (.append_left (.append_right ?_ _) _)
    rw [hsubmitted]
    cases o with
    | none => simp
    | some k =>
        have hle : ts.length ≤ 1 := (Nat.le_add_left _ _).trans (hone (Option.some_ne_none k))
        match ts, hle with
        | [], _ => exact List.nil_sublist _
        | [u], _ => exact List.Sublist.refl _
  case endsOnce =>
    intro k
    have honce := h.endsOnce k
    change link.owners.count (some k) + _ ≤ _
    rw [howners, List.count_append, List.count_replicate, List.map_append, List.count_append,
      hcount k]
    simp only [beq_iff_eq]
    omega
  case placesOnce =>
    intro k
    have honce := h.placesOnce k
    unfold ControlRun.places at honce ⊢
    dsimp only
    rw [List.map_append, List.count_append, count_map_fst_eq removed, hremoved] at honce
    rw [howners, List.count_append, List.count_replicate, List.map_append, List.count_append,
      count_map_fst]
    simp only [beq_iff_eq]
    cases o with
    | none => simpa using honce
    | some j =>
        have hle := hone (Option.some_ne_none j)
        simp only [Option.toList_some, List.count_singleton, Option.some.injEq, beq_iff_eq]
          at honce ⊢
        by_cases hk : j = k
        · simp only [if_pos hk] at honce ⊢
          omega
        · simp only [if_neg hk] at honce ⊢
          omega
  case taken =>
    rw [hlink]
    exact h.taken
  case replies =>
    intro x hx
    obtain ⟨k, f, hx, hf⟩ := h.replies x hx
    exact ⟨k, f, hx, hextends.answered hf⟩
  case phase =>
    rw [hlink]
    exact h.phase

theorem ControlRun.Inv.packet {o : Option ℕ} {packet : SPacket}
    (h : s.Inv table ((o, packet.frame) :: fs) gs)
    (hlength : packet.length.toNat = packet.frame.value.length) :
    ∃ new ts, s.link.proxy.Emits (processPacket s.link.proxy packet).1 new ts ∧
      (∀ f ∈ new, s.Downward (o, f)) ∧ (∀ u ∈ ts, s.Submits table o u) ∧
      (o ≠ none → new.length + ts.length ≤ 1) := by
  have hup := h.upward _ List.mem_cons_self
  cases o with
  | none =>
      obtain ⟨new, ts, hother, hemits⟩ := emits_processPacket_other h.writes hup
      exact ⟨new, ts, hemits, hother.1, hother.2, fun hne => absurd rfl hne⟩
  | some k =>
      obtain ⟨q, hq, hforwarded, htype, hvalue⟩ := hup
      rcases emits_processPacket_request h.writes hforwarded htype hlength hvalue with
        ⟨hqualifier, f, hstall, hempty, hemits⟩ | ⟨ts, hle, hasks, hemits, _⟩
      · refine ⟨[f], [], hemits, fun g hg => ?_, fun _ hu => absurd hu List.not_mem_nil,
          fun _ => Nat.le_refl 1⟩
        rw [List.mem_singleton.1 hg]
        exact ⟨⟨q, hq, Or.inl ⟨hqualifier, hstall, hempty⟩⟩, Or.inr hstall⟩
      · refine ⟨[], ts, hemits, fun _ hf => absurd hf List.not_mem_nil, fun u hu => ?_,
          fun _ => (Nat.zero_add _).trans_le hle⟩
        exact ⟨q, hq, h.serialToUsb ▸ hasks u hu⟩

theorem ControlRun.Inv.read (h : s.Inv table fs gs) {n : ℕ} (ht : s.next (.read n) = some t) :
    ∃ fs' gs', t.Inv table fs' gs' := by
  obtain ⟨link, hlink, rfl⟩ := Option.map_eq_some_iff.1 ht
  unfold ControlLink.next at hlink
  dsimp only at hlink
  split at hlink
  next => exact absurd hlink (by simp)
  next =>
    obtain ⟨session, hsession, hlink⟩ := Option.map_eq_some_iff.1 hlink
    have htaken : link.taken = s.link.taken := by rw [← hlink]; rfl
    rw [htaken, List.drop_length, List.append_nil, show s.link.ends (.read n) = [] from rfl,
      List.append_nil]
    have hannounced := h.announced.recv (fun _ => rfl) h.waiting hsession
    obtain ⟨head, hhead, hfs⟩ := h.upstream
    rw [← List.take_append_drop n s.link.toProxy, List.append_assoc, List.append_assoc] at hfs
    rcases Session.recv_cases (fun _ => rfl) h.waiting hsession with
      ⟨hover, _⟩ | ⟨hwait, hstored, huser, _⟩ | ⟨hwait, hstored, packet, hp, huser, hdelivered⟩
    · rw [← hhead] at hover
      exact absurd hover (not_oversized_of_tagged (by rw [← List.map_append, hfs]))
    · -- the packet is still incomplete, and the proxy does nothing
      have hself : session.user = s.link.proxy := huser
      have hemits : s.link.proxy.Emits session.user [] [] := by
        rw [hself]
        exact .of_eq h.writes rfl rfl rfl
      have hnone : s.Inv table ([] ++ fs) gs := h
      rw [hself, s.link.setProxy_self] at hlink
      have hread : link = { s.link.setProxy session.user none with
          session := session, toProxy := s.link.toProxy.drop n } := by
        rw [hself, s.link.setProxy_self, hlink]
      refine ⟨fs, gs ++ [].map fun f => (none, f), hnone.proxyStep rfl hemits hwait hannounced
        ⟨head ++ s.link.toProxy.take n, ?_, ?_⟩ (fun _ hf => absurd hf List.not_mem_nil)
        (fun _ hu => absurd hu List.not_mem_nil) (fun hne => absurd rfl hne) hread⟩
      · rw [List.map_append, hhead, hstored]
      · rw [List.append_assoc, List.append_assoc, hfs]
    · have hne : s.link.toProxy.take n ≠ [] := by
        intro hnil
        rw [hnil, List.map_nil, List.append_nil, ← List.append_nil packet.frame.encode] at hp
        exact h.waiting.stored_ne packet.frame [] hp
      obtain ⟨fs', rfl, hrest⟩ := tagged_completes hfs (by rw [List.map_append, hhead, hp]) hne
      generalize (s.link.toProxy.take n).getLast?.bind Prod.snd = o at h hlink
      have hlength := hannounced packet
        (hdelivered ▸ List.mem_append_right _ (List.mem_singleton_self packet))
      obtain ⟨new, ts, hemits, hdown, hsubmits, hone⟩ := h.packet hlength
      rw [show (processPacket s.link.proxy packet).1 = session.user from huser.symm] at hemits
      have hfirst : s.Inv table ([(o, packet.frame)] ++ fs') gs := h
      refine ⟨fs', gs ++ new.map fun f => (o, f), hfirst.proxyStep ?_ hemits hwait hannounced
        ⟨[], hstored.symm, hrest⟩ hdown hsubmits hone hlink.symm⟩
      cases o with
      | none => rfl
      | some k => rfl

theorem ControlRun.Inv.exit (h : s.Inv table fs gs) (ht : s.next .exit = some t) :
    ∃ gs', t.Inv table fs gs' := by
  obtain ⟨link, hlink, rfl⟩ := Option.map_eq_some_iff.1 ht
  unfold ControlLink.next at hlink
  dsimp only at hlink
  split at hlink
  next =>
    have hemits := Proxy.emits_send h.writes .eTypeReset []
    have hnone : s.Inv table ([] ++ fs) gs := h
    have hsent : ∀ f ∈ message maxPacketValueSize PacketType.eTypeReset.toByte [],
        s.Downward (none, f) := fun f hf => Or.inr (type_of_mem_message hf)
    replace hlink := (Option.some.inj hlink).symm
    have htaken : link.taken = s.link.taken := by
      rw [hlink]
      rfl
    rw [htaken, List.drop_length, List.append_nil, show s.link.ends .exit = [] from rfl,
      List.append_nil]
    let session : Session Proxy :=
      { s.link.session with user := (s.link.proxy.send .eTypeReset []).1 }
    have hexit : link = { s.link.setProxy session.user none with
        session := session, exited := true, toProxy := s.link.toProxy } := hlink
    have hwaiting : session.receiver.Waiting := h.waiting
    exact ⟨_, hnone.proxyStep rfl (show s.link.proxy.Emits session.user _ [] from hemits) hwaiting
      h.announced h.upstream hsent (fun _ hu => absurd hu List.not_mem_nil)
      (fun hne => absurd rfl hne) hexit⟩
  next => exact absurd hlink (by simp)

theorem ControlRun.Inv.callback (h : s.Inv table fs gs) {o : Option ℕ} {u : Transfer}
    (hu : s.Owns u o) {status : TransferStatus} (hstatus : status ≠ .cancelled) :
    ∃ new, s.link.proxy.Emits (callCallback s.link.proxy u status) new [] ∧
      (o ≠ none → new.length ≤ 1) ∧ ∀ f ∈ new, ControlRun.Downward
        { s with ends := s.ends ++ o.toList.map fun k => ⟨k, u, status⟩ } (o, f) := by
  cases o with
  | none =>
      obtain ⟨new, hother, hemits⟩ :=
        emits_callCallback_interrupt h.writes hu.1 hu.2 hstatus
      exact ⟨new, hemits, fun hne => absurd rfl hne, hother.1⟩
  | some k =>
      obtain ⟨q, hq, hasks⟩ := h.asks _ hu
      obtain ⟨new, hnew, hemits⟩ := emits_callCallback_request h.writes hasks hstatus
      have hlength := congrArg List.length hnew
      rw [List.length_map] at hlength
      refine ⟨new, hemits, fun _ => ?_, fun f hf => ?_⟩
      · rw [hlength]
        exact Option.length_toList_le
      · have hreply : q.reply status = some (f.type, f.value) := by
          rw [← Option.mem_toList, ← hnew]
          exact List.mem_map_of_mem hf
        have hend : (⟨k, u, status⟩ : ControlEnd) ∈ s.ends ++ [⟨k, u, status⟩] :=
          List.mem_append_right _ (List.mem_singleton_self _)
        exact ⟨⟨q, hq, Or.inr ⟨_, hend, rfl, hreply⟩⟩, q.type_of_reply hreply⟩

theorem ControlRun.Inv.owns_at (h : s.Inv table fs gs) {i : ℕ} {u : Transfer}
    (hu : s.link.proxy.usb.transfers[i]? = some u) :
    i < s.link.owners.length ∧ s.Owns u (s.link.owners.getD i none) := by
  obtain ⟨hi, hget⟩ := List.getElem?_eq_some_iff.1 hu
  have hi' : i < s.link.owners.length := h.owners.length_eq ▸ hi
  have howns := (List.forall₂_iff_get.1 h.owners).2 i hi hi'
  refine ⟨hi', ?_⟩
  rw [List.getD_eq_getElem?_getD, List.getElem?_eq_getElem hi', Option.getD_some, ← hget]
  exact howns

theorem ControlLink.ends_complete (s : ControlLink) {i : ℕ} {u : Transfer}
    (hu : s.proxy.usb.transfers[i]? = some u) (status : TransferStatus) :
    s.ends (.complete i status) = (s.owners.getD i none).toList.map fun k => ⟨k, u, status⟩ := by
  unfold ControlLink.ends
  dsimp only
  rw [hu]
  cases s.owners.getD i none with
  | none => rfl
  | some k => rfl

theorem ControlRun.Inv.endStep (h : s.Inv table fs gs) {i : ℕ} {u : Transfer} {o : Option ℕ}
    (hi : i < s.link.owners.length) (howner : s.link.owners.getD i none = o)
    (howns : s.Owns u o) {status : TransferStatus} {q : Proxy} {new : List PacketFrame}
    (hemits : s.link.proxy.Emits q new []) (hone : o ≠ none → new.length ≤ 1)
    (hdown : ∀ f ∈ new, ControlRun.Downward
      { s with ends := s.ends ++ o.toList.map fun k => ⟨k, u, status⟩ } (o, f))
    {link : ControlLink} (hlink : link = { s.link.setProxy { q with
      usb := { q.usb with transfers := q.usb.transfers.eraseIdx i } } o with
        owners := s.link.owners.eraseIdx i }) :
    ControlRun.Inv table fs (gs ++ new.map fun f => (o, f))
      { s with link := link, ends := s.ends ++ o.toList.map fun k => ⟨k, u, status⟩ } := by
  have herase := count_eraseIdx hi
  rw [howner] at herase
  have howners : link.owners = s.link.owners.eraseIdx i := by rw [hlink]
  have horigins : link.origins =
      s.link.origins ++ List.replicate (new.flatMap Frame.encode).length o := by
    have horigins := ControlLink.origins_setProxy (o := o) hemits
    rw [hlink]
    exact horigins
  have hproxy : link.proxy = { q with
      usb := { q.usb with transfers := q.usb.transfers.eraseIdx i } } := by
    rw [hlink]
    rfl
  have hrequests : link.requests = s.link.requests := by
    rw [hlink]
    rfl
  have hextends : ControlRun.Extends
      { s with ends := s.ends ++ o.toList.map fun k => ⟨k, u, status⟩ }
      { s with link := link, ends := s.ends ++ o.toList.map fun k => ⟨k, u, status⟩ } :=
    ⟨hrequests ▸ List.prefix_rfl, List.Subset.refl _, List.Subset.refl _,
      hproxy ▸ hemits.serialToUsb⟩
  have hbefore : s.Extends
      { s with link := link, ends := s.ends ++ o.toList.map fun k => ⟨k, u, status⟩ } :=
    ⟨hextends.requests, List.Subset.refl _, List.subset_append_left _ _, hextends.serialToUsb⟩
  have hcount : ∀ k, ((o.toList.map fun k => (⟨k, u, status⟩ : ControlEnd)).map
      ControlEnd.request).count k = if o = some k then 1 else 0 := by
    intro k
    cases o with
    | none => simp
    | some j => simp [List.count_singleton]
  constructor
  case waiting => rw [hlink]; exact h.waiting
  case announced => rw [hlink]; exact h.announced
  case writes => rw [hproxy]; exact hemits.writes
  case serialToUsb => exact hbefore.serialToUsb.trans h.serialToUsb
  case upstream => rw [hlink]; exact h.upstream
  case upward => exact fun x hx => hbefore.upward (h.upward x hx)
  case line =>
    rw [hproxy, hemits.line, h.line, tagged_concat, List.map_append, List.map_map]
    exact congrArg _ (List.map_id _).symm
  case origins =>
    change link.origins = _
    rw [horigins, h.origins, tagged_concat, List.map_append, List.map_map]
    exact congrArg _ List.map_const.symm
  case downward =>
    refine List.forall_mem_append.2 ⟨fun x hx => hbefore.downward (h.downward x hx),
      fun x hx => ?_⟩
    obtain ⟨f, hf, rfl⟩ := List.mem_map.1 hx
    exact hextends.downward (hdown f hf)
  case owners =>
    change List.Forall₂ _ link.proxy.usb.transfers link.owners
    rw [howners, hproxy]
    dsimp only
    rw [hemits.transfers, List.append_nil]
    exact forall₂_eraseIdx (h.owners.imp fun u o => hbefore.owns) i
  case asks => exact fun a ha => hbefore.asks (h.asks a ha)
  case ended =>
    refine List.forall_mem_append.2 ⟨h.ended, fun e he => ?_⟩
    obtain ⟨k, hk, rfl⟩ := List.mem_map.1 he
    obtain rfl := Option.mem_toList.1 hk
    exact howns
  case order => exact h.order
  case endsOnce =>
    intro k
    have honce := h.endsOnce k
    have herase := herase k
    change link.owners.count (some k) + _ ≤ (s.asked.map Prod.fst).count k
    rw [howners, List.map_append, List.count_append, hcount k]
    omega
  case placesOnce =>
    intro k
    have honce := h.placesOnce k
    have herase := herase k
    unfold ControlRun.places at honce ⊢
    dsimp only
    rw [howners, List.map_append, List.count_append, count_map_fst]
    by_cases hk : o = some k
    · have hle := hone (hk ▸ Option.some_ne_none k)
      rw [if_pos hk] at herase ⊢
      omega
    · rw [if_neg hk] at herase ⊢
      omega
  case taken =>
    change link.taken ⊆ s.replies
    rw [hlink]
    exact h.taken
  case replies =>
    intro x hx
    obtain ⟨k, f, hx, hf⟩ := h.replies x hx
    exact ⟨k, f, hx, hbefore.answered hf⟩
  case phase => rw [hlink]; exact h.phase

theorem ControlRun.Inv.complete (h : s.Inv table fs gs) {i : ℕ} {status : TransferStatus}
    (ht : s.next (.complete i status) = some t) : ∃ gs', t.Inv table fs gs' := by
  obtain ⟨link, hlink, rfl⟩ := Option.map_eq_some_iff.1 ht
  unfold ControlLink.next at hlink
  dsimp only at hlink
  split at hlink
  next => exact absurd hlink (by simp)
  next hruns =>
    have hstatus : status ≠ .cancelled := fun heq => hruns (Or.inr (Or.inr heq))
    obtain ⟨p, hp, hlink⟩ := Option.map_eq_some_iff.1 hlink
    unfold usbCallback at hp
    obtain ⟨u, hu, rfl⟩ := Option.map_eq_some_iff.1 hp
    obtain ⟨hi, howns⟩ := h.owns_at hu
    obtain ⟨new, hemits, hone, hdown⟩ := h.callback howns hstatus
    have howners : link.owners.length ≤ s.link.owners.length := by
      rw [← hlink]
      exact List.length_eraseIdx_le _ _
    have htaken : link.taken = s.link.taken := by
      rw [← hlink]
      rfl
    rw [ControlLink.submitted_eq_nil howners, s.link.ends_complete hu, htaken, List.drop_length,
      List.append_nil, List.append_nil]
    exact ⟨_, h.endStep hi rfl howns hemits hone hdown hlink.symm⟩

theorem ControlRun.Inv.next (h : s.Inv table fs gs) {e : ControlEvent} (hfits : e.Fits)
    (ht : s.next e = some t) : ∃ fs' gs', t.Inv table fs' gs' := by
  cases e with
  | request q =>
      obtain ⟨fs', h'⟩ := h.request hfits ht
      exact ⟨fs', gs, h'⟩
  | mainLoop leave =>
      obtain ⟨fs', h'⟩ := h.mainLoop ht
      exact ⟨fs', gs, h'⟩
  | other f input =>
      obtain ⟨fs', h'⟩ := h.other ht
      exact ⟨fs', gs, h'⟩
  | interrupt =>
      obtain ⟨gs', h'⟩ := h.interrupt ht
      exact ⟨fs, gs', h'⟩
  | read n => exact h.read ht
  | complete i status =>
      obtain ⟨gs', h'⟩ := h.complete ht
      exact ⟨fs, gs', h'⟩
  | exit =>
      obtain ⟨gs', h'⟩ := h.exit ht
      exact ⟨fs, gs', h'⟩

/-- What the invariant says about the device and the replies. -/
theorem ControlRun.Inv.transparent (h : s.Inv table fs gs) : s.Transparent table := by
  have horder := (List.pairwise_append.1 h.order).1
  constructor
  case order => exact horder
  case asks => exact h.asks
  case owned =>
    intro u hu htype
    obtain ⟨i, hi, hget⟩ := List.getElem_of_mem hu
    have howns := (List.forall₂_iff_get.1 h.owners).2 i hi (h.owners.length_eq ▸ hi)
    rw [List.get_eq_getElem, hget] at howns
    revert howns
    generalize List.get _ _ = o
    intro howns
    cases o with
    | none => exact absurd (howns.1.symm.trans htype) (by decide)
    | some k => exact ⟨k, howns⟩
  case ended => exact h.ended
  case endsOnce =>
    refine List.nodup_iff_count_le_one.2 fun k => ?_
    have hasked : (s.asked.map Prod.fst).count k ≤ 1 :=
      List.nodup_iff_count_le_one.1 (horder.imp fun hlt => Nat.ne_of_lt hlt) k
    exact (Nat.le_add_left _ _).trans ((h.endsOnce k).trans hasked)
  case repliesOnce =>
    refine List.nodup_iff_count_le_one.2 fun o => ?_
    cases o with
    | none =>
        refine (List.count_eq_zero.2 fun hmem => ?_).trans_le (Nat.zero_le 1)
        obtain ⟨x, hx, hnone⟩ := List.mem_map.1 hmem
        obtain ⟨k, f, rfl, _⟩ := h.replies x hx
        exact absurd hnone (Option.some_ne_none k)
    | some k => exact (Nat.le_add_left _ _).trans (h.placesOnce k)
  case replies => exact h.replies

end Step

theorem ControlLink.Ready.controlRun {r : Receiver} {p : Proxy} {bytes : List UInt8}
    (h : ControlLink.Ready r p bytes) (fw : Firmware) :
    ∃ fs, (ControlRun.start (ControlLink.start r p fw bytes)).Inv p.serialToUsb fs [] := by
  obtain ⟨fs, hother, hbytes⟩ := h.back
  have hnone : (fs.map fun f => ((none : Option ℕ), f)).filterMap Prod.fst = [] := by
    rw [List.filterMap_map]
    exact List.filterMap_eq_nil_iff.2 fun _ _ => rfl
  refine ⟨fs.map fun f => (none, f), ?_⟩
  constructor
  case waiting => exact h.waiting
  case announced => exact fun _ hp => absurd hp List.not_mem_nil
  case writes => exact h.writes
  case serialToUsb => rfl
  case upstream =>
    refine ⟨r.stored.map fun b => (b, none), ?_, ?_⟩
    · rw [List.map_map]
      exact List.map_id _
    · rw [tagged_map, ← hbytes, List.map_append]
      exact List.append_nil _
  case upward =>
    intro x hx
    obtain ⟨f, hf, rfl⟩ := List.mem_map.1 hx
    exact hother f hf
  case line => exact h.line
  case origins => rfl
  case downward => exact fun _ hx => absurd hx List.not_mem_nil
  case owners =>
    exact forall₂_append_replicate .nil fun t ht => h.transfers t ht
  case asks => exact fun _ ha => absurd ha List.not_mem_nil
  case ended => exact fun _ he => absurd he List.not_mem_nil
  case order =>
    rw [hnone]
    exact .nil
  case endsOnce =>
    intro k
    simp [ControlRun.start, ControlLink.start, List.count_replicate]
  case placesOnce =>
    intro k
    unfold ControlRun.places
    rw [count_map_fst_eq, hnone]
    simp [ControlRun.start, ControlLink.start, List.count_replicate]
  case taken => exact List.Subset.refl _
  case replies => exact fun _ hx => absurd hx List.not_mem_nil
  case phase => trivial

theorem ControlRun.exec_link {s t : ControlRun} {es : List ControlEvent}
    (hrun : exec ControlRun.next s es = some t) :
    exec ControlLink.next s.link es = some t.link := by
  refine exec_map (f := ControlRun.link) (fun s e t ht => ?_) hrun
  obtain ⟨link, hlink, rfl⟩ := Option.map_eq_some_iff.1 ht
  exact hlink

/-- Whatever the order of the steps is, the requests are asked in their order, each at most once
and as the target host made it, and what the firmware takes for a reply is the reply to the
request that it belongs to. When each request begins after all that belongs to the earlier ones
has gone, it is acted on with this reply alone, and the target host gets its bytes. -/
theorem control_transparent {r : Receiver} {p : Proxy} {fw : Firmware} {bytes : List UInt8}
    (h : ControlLink.Ready r p bytes) {es : List ControlEvent} {s : ControlRun}
    (hrun : exec ControlRun.next (ControlRun.start (ControlLink.start r p fw bytes)) es = some s)
    (hfits : ∀ e ∈ es, e.Fits) :
    s.Transparent p.serialToUsb ∧
      (Along ControlLink.next ControlLink.InTurn (ControlLink.start r p fw bytes) es →
        ∀ q, s.link.phase.acting = some q → ∃ f, s.link.requests.getLast? = some q ∧
          s.Answered (s.link.requests.length - 1) f ∧ s.link.fw.slot.Holds f ∧
            s.link.phase.Sends f) := by
  obtain ⟨fs, hstart⟩ := h.controlRun fw
  have hstep : ∀ (s : ControlRun) e t, (∃ fs gs, s.Inv p.serialToUsb fs gs) → e.Fits →
      s.next e = some t → ∃ fs gs, t.Inv p.serialToUsb fs gs := by
    rintro s e t ⟨fs, gs, hs⟩ he ht
    exact hs.next he ht
  obtain ⟨fs', gs', hs⟩ := exec_invariant_along hstep ⟨fs, [], hstart⟩ (along_of_forall hfits) hrun
  refine ⟨hs.transparent, fun hturn q hq => ?_⟩
  have hlink : ∀ s e t, (∃ fs gs, ControlLink.Inv fs gs s) → s.InTurn e → s.next e = some t →
      ∃ fs gs, ControlLink.Inv fs gs t := by
    rintro s e t ⟨fs, gs, hs⟩ hturn ht
    exact hs.next hturn ht
  obtain ⟨xs, hready⟩ := h.inv fw
  obtain ⟨xs', ys', hmatched⟩ := exec_invariant_along hlink ⟨xs, [], hready⟩ hturn
    (ControlRun.exec_link hrun)
  obtain ⟨f, hlast, htaken, hholds, hsends⟩ := hmatched.matched q hq
  refine ⟨f, hlast, ?_, hholds, hsends⟩
  have hmem : (some (s.link.requests.length - 1), f.encode) ∈ s.replies :=
    hs.taken (htaken ▸ List.mem_singleton_self _)
  obtain ⟨k, g, hx, hanswered⟩ := hs.replies _ hmem
  obtain ⟨hk, hencode⟩ := Prod.mk.inj hx
  obtain rfl := Option.some.inj hk
  have htake := takeFrame_encode_append maxPacketValueSize_lt f []
  rw [hencode, takeFrame_encode_append maxPacketValueSize_lt] at htake
  rw [← (Prod.mk.inj (Option.some.inj htake)).1]
  exact hanswered

/-- Two vendor requests for one byte, up to the byte that the target host gets for the second. -/
theorem control_transparent_two :
    ∃ s : ControlRun, exec ControlRun.next
        (ControlRun.start (ControlLink.start Receiver.start oneInputProxy Firmware.boot []))
        twoRequests = some s ∧
      s.replies = [(some 0, [4, 1, 7]), (some 1, [4, 1, 8])] ∧
      s.Transparent oneInputProxy.serialToUsb ∧
      ∀ q, s.link.phase.acting = some q → ∃ f, s.link.requests.getLast? = some q ∧
        s.Answered (s.link.requests.length - 1) f ∧ s.link.fw.slot.Holds f ∧
          s.link.phase.Sends f := by
  have hrun : (exec ControlRun.next
      (ControlRun.start (ControlLink.start Receiver.start oneInputProxy Firmware.boot []))
      twoRequests).map ControlRun.replies = some [(some 0, [4, 1, 7]), (some 1, [4, 1, 8])] := by
    decide +kernel
  obtain ⟨s, hs, hreplies⟩ := Option.map_eq_some_iff.1 hrun
  have hone : (vendorRequest 1).Fits := Or.inl rfl
  have htwo : (vendorRequest 2).Fits := Or.inl rfl
  obtain ⟨htransparent, hanswered⟩ := control_transparent oneInputProxy_controlReady hs
    (by simp [twoRequests, forwardSteps, replySteps, ControlEvent.Fits, hone, htwo])
  exact ⟨s, hs, hreplies, htransparent, hanswered (by decide +kernel)⟩

end SerialUsb
