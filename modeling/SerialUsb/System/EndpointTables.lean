import SerialUsb.Proxy.Rewritten

/-!
# The two endpoint tables

`probe_endpoint` fills the table of `gusb.c` with the last definition of an address over all
configurations, and `fix_endpoints` registers each definition in the first one. `tablesAgree_iff`
says when every endpoint that was registered is found in the table with its type and size.
-/

namespace SerialUsb

open Memory

def infoKey (address : UInt8) : Bool × ℕ := (endpointIn address, endpointNumber address - 1)

theorem infoKey_lt (address : UInt8) : endpointNumber address - 1 < endpointMaxNumber := by
  have hlt := Nat.mod_lt address.toNat (show 0 < 16 by decide)
  unfold endpointNumber
  rw [endpointMaxNumber_eq]
  omega

namespace EndpointInfos

def infos (t : EndpointInfos) (key : Bool × ℕ) : EndpointInfo :=
  if key.1 then t.inInfo.getD key.2 ⟨0, 0⟩ else t.outInfo.getD key.2 ⟨0, 0⟩

theorem getD_setIfInBounds_of_lt {n : ℕ} (v : Vector EndpointInfo n) {i : ℕ} (hi : i < n)
    (j : ℕ) (x : EndpointInfo) :
    (v.setIfInBounds i x).getD j ⟨0, 0⟩ = if j = i then x else v.getD j ⟨0, 0⟩ := by
  unfold Vector.getD
  rw [Vector.toArray_setIfInBounds]
  simp only [Array.getD_eq_getD_getElem?, Array.getElem?_setIfInBounds]
  have hsize : i < v.toArray.size := by rwa [v.size_toArray]
  by_cases hj : j = i
  · rw [if_pos hj, if_pos hj.symm, if_pos hsize]
    rfl
  · rw [if_neg hj, if_neg (Ne.symm hj)]

theorem infos_define (t : EndpointInfos) {e : EndpointDescriptor}
    (h : endpointNumber e.bEndpointAddress ≠ 0) :
    (t.define e).infos =
      Function.update t.infos (infoKey e.bEndpointAddress) ⟨e.xferType, e.wMaxPacketSize⟩ := by
  have hindex := infoKey_lt e.bEndpointAddress
  funext key
  obtain ⟨dir, i⟩ := key
  unfold define infos infoKey
  dsimp only
  rw [if_pos (Nat.pos_of_ne_zero h), Function.update_apply]
  cases hin : endpointIn e.bEndpointAddress <;> cases dir <;>
    simp [getD_setIfInBounds_of_lt _ hindex]

end EndpointInfos

/-- What the endpoint descriptors of the configurations define, in the order of the walks. -/
def definitions (raws : List RawConfiguration) : List ((Bool × ℕ) × EndpointInfo) :=
  raws.flatMap fun raw =>
    (raw.positions.filter fun p =>
      raw.isEndpoint p ∧ endpointNumber (raw.endpoint p).bEndpointAddress ≠ 0).map fun p =>
        (infoKey (raw.endpoint p).bEndpointAddress,
          ⟨(raw.endpoint p).xferType, (raw.endpoint p).wMaxPacketSize⟩)

def lastDefinition (raws : List RawConfiguration) (address : UInt8) : Option EndpointInfo :=
  ((definitions raws).filter fun p => p.1 = infoKey address).getLast?.map Prod.snd

theorem infos_foldl_handle (raw : RawConfiguration) (ps : List ℕ) (t : EndpointInfos) :
    (ps.foldl (EndpointInfos.handle raw) t).infos =
      assignAll t.infos ((ps.filter fun p =>
        raw.isEndpoint p ∧ endpointNumber (raw.endpoint p).bEndpointAddress ≠ 0).map fun p =>
          (infoKey (raw.endpoint p).bEndpointAddress,
            ⟨(raw.endpoint p).xferType, (raw.endpoint p).wMaxPacketSize⟩)) := by
  induction ps generalizing t with
  | nil => rfl
  | cons p ps ih =>
      rw [List.foldl_cons, ih]
      unfold EndpointInfos.handle
      by_cases hendpoint : raw.bDescriptorType p = libusbDtEndpoint
      · have htype : raw.isEndpoint p = true := decide_eq_true hendpoint
        rw [if_pos hendpoint]
        by_cases hnumber : endpointNumber (raw.endpoint p).bEndpointAddress = 0
        · have hsame : t.define (raw.endpoint p) = t := by
            unfold EndpointInfos.define
            dsimp only
            rw [hnumber]
            rfl
          rw [hsame, List.filter_cons_of_neg (by simp [hnumber])]
        · rw [List.filter_cons_of_pos (by simp [htype, hnumber]), List.map_cons, assignAll_cons,
            t.infos_define hnumber]
      · have htype : raw.isEndpoint p = false := decide_eq_false hendpoint
        rw [if_neg hendpoint, List.filter_cons_of_neg (by simp [htype])]

/-- The table after a run that returns 0 holds the last definitions. -/
theorem infos_foldl (raws : List RawConfiguration) (t : EndpointInfos) :
    (raws.foldl (fun t raw => raw.positions.foldl (EndpointInfos.handle raw) t) t).infos =
      assignAll t.infos (definitions raws) := by
  induction raws generalizing t with
  | nil => rfl
  | cons raw raws ih =>
      rw [List.foldl_cons, ih, infos_foldl_handle]
      unfold definitions assignAll
      rw [List.flatMap_cons, List.foldl_append]

theorem infos_eq_lastDefinition (raws : List RawConfiguration) (t : EndpointInfos)
    (address : UInt8) :
    (raws.foldl (fun t raw => raw.positions.foldl (EndpointInfos.handle raw) t) t).infos
        (infoKey address) =
      (lastDefinition raws address).getD (t.infos (infoKey address)) := by
  rw [infos_foldl, assignAll_eq_getLast]
  rfl

/-- The two tables agree on what was registered: the table of `gusb.c` has the interrupt type and
the same size, so that a poll submits a transfer of the size that the firmware was told, and a
write submits its bytes. -/
structure TablesAgree (m : EndpointMaps) (t : EndpointInfos) : Prop where
  infos : List.Forall₂ (fun p config =>
    (t.infos (infoKey p.1)).type = transferTypeInterrupt ∧
      (t.infos (infoKey p.1)).size.toNat = config.size.toNat) m.registered m.endpoints
  polls : ∀ usb : Usb, usb.inInfo = t.inInfo → List.Forall₂ (fun p config =>
    endpointIn p.1 = true → gusbPoll usb p.1 = submitTransfer usb
      ⟨p.1, transferTypeInterrupt, List.replicate config.size.toNat 0, config.size.toNat⟩)
    m.registered m.endpoints
  writes : ∀ usb : Usb, usb.outInfo = t.outInfo → ∀ p ∈ m.registered,
    endpointIn p.1 = false → ∀ buf count, gusbWrite usb p.1 buf count =
      submitTransfer usb ⟨p.1, transferTypeInterrupt, buf.take count, count⟩

theorem forall₂_map_map {α β γ : Type*} {R : β → γ → Prop} {f : α → β} {g : α → γ}
    {l : List α} : List.Forall₂ R (l.map f) (l.map g) ↔ ∀ x ∈ l, R (f x) (g x) := by
  rw [List.forall₂_map_left_iff, List.forall₂_map_right_iff, List.forall₂_same]

theorem getEndpoint_of_infos {usb : Usb} {t : EndpointInfos} {address : UInt8} {dir : Bool}
    (hin : endpointIn address = dir) (hnumber : endpointNumber address ≠ 0)
    (hdir : if dir then usb.inInfo = t.inInfo else usb.outInfo = t.outInfo)
    (htype : (t.infos (infoKey address)).type ≠ 0) :
    getEndpoint usb address dir = some (t.infos (infoKey address)) := by
  have hindex := infoKey_lt address
  unfold getEndpoint
  rw [if_neg (not_not.2 hin), dif_neg hnumber]
  unfold EndpointInfos.infos infoKey at htype ⊢
  have hget : ∀ v : Vector EndpointInfo endpointMaxNumber,
      v.getD (endpointNumber address - 1) ⟨0, 0⟩ = v[endpointNumber address - 1] := by
    intro v
    unfold Vector.getD
    rw [Array.getD_eq_getD_getElem?, Array.getElem?_eq_getElem (by rwa [v.size_toArray])]
    rfl
  cases dir <;> simp_all

theorem gusbWrite_of_getEndpoint {usb : Usb} {address : UInt8} {info : EndpointInfo}
    (hnumber : endpointNumber address ≠ 0) (h : getEndpoint usb address false = some info)
    (buf : List UInt8) (count : ℕ) :
    gusbWrite usb address buf count =
      submitTransfer usb ⟨address, transferTypeInterrupt, buf.take count, count⟩ := by
  have hne : address ≠ 0 := by
    rintro rfl
    exact hnumber rfl
  unfold gusbWrite writeCount
  rw [if_neg fun hnone => Option.some_ne_none info (h.symm.trans hnone.2), if_neg hne,
    if_neg fun hzero => hne hzero.1]

theorem tablesAgree_iff_of_map {m : EndpointMaps} {t : EndpointInfos}
    {l : List (EndpointDescriptor × ℕ)} (target : EndpointDescriptor × ℕ → UInt8)
    (hregistered : m.registered = l.map fun e => (e.1.bEndpointAddress, target e))
    (hendpoints : m.endpoints =
      l.map fun e => ⟨target e, e.1.xferType, e.1.wMaxPacketSize.toUInt8⟩)
    (hl : ∀ e ∈ l, endpointNumber e.1.bEndpointAddress ≠ 0 ∧
      e.1.wMaxPacketSize.toNat ≤ maxPayloadSizeEp) :
    TablesAgree m t ↔ ∀ e ∈ l, t.infos (infoKey e.1.bEndpointAddress) =
      ⟨transferTypeInterrupt, e.1.wMaxPacketSize⟩ := by
  have hsize : ∀ e ∈ l, e.1.wMaxPacketSize.toUInt8.toNat = e.1.wMaxPacketSize.toNat := by
    intro e he
    have hle := (hl e he).2
    rw [UInt16.toNat_toUInt8]
    exact Nat.mod_eq_of_lt (hle.trans_lt (by decide))
  have hinterrupt : transferTypeInterrupt ≠ 0 := by decide
  constructor
  · intro h e he
    have hinfos := h.infos
    rw [hregistered, hendpoints, forall₂_map_map] at hinfos
    obtain ⟨htype, hlength⟩ := hinfos e he
    dsimp only at htype hlength
    rw [hsize e he] at hlength
    have hword := UInt16.toNat_inj.1 hlength
    cases hinfo : t.infos (infoKey e.1.bEndpointAddress) with
    | mk type size =>
        rw [hinfo] at htype hword
        rw [← hword, ← htype]
  · intro h
    refine ⟨?_, fun usb husb => ?_, fun usb husb p hp hout buf count => ?_⟩
    · rw [hregistered, hendpoints, forall₂_map_map]
      intro e he
      dsimp only
      rw [h e he, hsize e he]
      exact ⟨rfl, rfl⟩
    · rw [hregistered, hendpoints, forall₂_map_map]
      intro e he hin
      have hget := getEndpoint_of_infos hin (hl e he).1 husb (by rwa [h e he])
      dsimp only
      unfold gusbPoll
      rw [hget, h e he, hsize e he]
      exact if_pos rfl
    · rw [hregistered] at hp
      obtain ⟨e, he, rfl⟩ := List.mem_map.1 hp
      have hget := getEndpoint_of_infos hout (hl e he).1 husb (by rwa [h e he])
      exact gusbWrite_of_getEndpoint (hl e he).1 hget buf count

def RawConfiguration.registrations (raw : RawConfiguration) : List EndpointDescriptor :=
  ((raw.tree.found.zipIdx 1).filter (isConfigured raw.tree.renumber)).map Prod.fst

theorem fixConfigurationsAt_succ {cs : List PConfiguration}
    (h : ∀ c ∈ cs, c.endpoints.Nodup ∧ ∀ p ∈ c.endpoints, 3 ≤ p) (k : ℕ) (m : EndpointMaps) :
    ∃ number, (fixConfigurationsAt (k + 1) m cs).1 = { m with number := number } := by
  induction cs generalizing k m with
  | nil => exact ⟨m.number, rfl⟩
  | cons c cs ih =>
      obtain ⟨hnodup, hthree⟩ := h c List.mem_cons_self
      have hspec := fixConfigurationAt_spec (k + 1) m hnodup hthree
      obtain ⟨number, hnumber⟩ :=
        foldl_fixEndpoint_succ k c.renumber c.found { m with number := 0 }
      obtain ⟨number', hnumber'⟩ := ih (fun c' hc' => h c' (List.mem_cons_of_mem c hc')) (k + 1)
        { m with number := number }
      refine ⟨number', ?_⟩
      change (fixConfigurationsAt (k + 2) (fixConfigurationAt (k + 1) m c).1 cs).1 = _
      rw [hspec, hnumber]
      exact hnumber'

theorem fixEndpointsAt_cons {c : PConfiguration} {cs : List PConfiguration}
    (h : ∀ c' ∈ c :: cs, c'.endpoints.Nodup ∧ ∀ p ∈ c'.endpoints, 3 ≤ p)
    (outside outside' : ℤ → UInt8) :
    (fixEndpointsAt (EndpointMaps.start outside outside') (c :: cs)).1.registered =
        ((c.found.zipIdx 1).filter (isConfigured c.renumber)).map
          (fun e => (e.1.bEndpointAddress, targetAddress c.renumber e)) ∧
      (fixEndpointsAt (EndpointMaps.start outside outside') (c :: cs)).1.endpoints =
        ((c.found.zipIdx 1).filter (isConfigured c.renumber)).map
          fun e => ⟨targetAddress c.renumber e, e.1.xferType, e.1.wMaxPacketSize.toUInt8⟩ := by
  obtain ⟨hnodup, hthree⟩ := h c List.mem_cons_self
  have hspec := congrArg Prod.fst
    (fixConfigurationAt_spec 0 (EndpointMaps.start outside outside') hnodup hthree)
  obtain ⟨number, hnumber⟩ := fixConfigurationsAt_succ
    (fun c' hc' => h c' (List.mem_cons_of_mem c hc')) 0
    (fixConfigurationAt 0 (EndpointMaps.start outside outside') c).1
  have hfix : (fixEndpointsAt (EndpointMaps.start outside outside') (c :: cs)).1 =
      { (fixConfigurationAt 0 (EndpointMaps.start outside outside') c).1 with number := number } :=
    hnumber
  have hstart : (EndpointMaps.start outside outside').number =
      if c.renumber then UInt8.ofNat 0 else 0 := by
    cases c.renumber <;> rfl
  rw [hfix, hspec]
  constructor
  · refine (foldl_fixEndpoint c.renumber c.found (EndpointMaps.start outside outside') 0 hstart
      (EndpointMaps.filledOver_start outside outside')).2.trans (List.nil_append _)
  · exact (foldl_fixEndpoint_endpoints c.renumber c.found
      (EndpointMaps.start outside outside') 0 hstart).trans (List.nil_append _)

theorem PConfiguration.exists_of_mem_found {c : PConfiguration} (hnodup : c.endpoints.Nodup)
    {e : EndpointDescriptor} (he : e ∈ c.found) :
    ∃ p ∈ c.endpoints, e.bEndpointAddress = (c.raw.endpoint p).bEndpointAddress := by
  obtain ⟨y, hy, rfl⟩ := List.mem_map.1 he
  have hget := List.mem_zipIdx_iff_getElem?.1 hy
  refine ⟨y.1, List.fst_mem_of_mem_zipIdx hy, ?_⟩
  rw [← foldl_take_fixEndpointAt hnodup 0 (EndpointMaps.start 0 0) y.2]
  refine foldl_fixEndpointAt_of_ne _ _ fun q hq heq => ?_
  -- the endpoint does not stand among those before it
  obtain ⟨j, hj, hgetj⟩ := List.getElem_of_mem hq
  rw [List.length_take] at hj
  rw [List.getElem_take] at hgetj
  obtain ⟨hlt, hgety⟩ := List.getElem?_eq_some_iff.1 hget
  have hsame : c.endpoints[j] = c.endpoints[y.2] := by
    rw [hgetj, hgety]
    exact (Nat.add_right_cancel heq).symm
  have hindex := (List.Nodup.getElem_inj_iff hnodup).1 hsame
  omega

theorem lastDefinition_ne_none {raws : List RawConfiguration} {raw : RawConfiguration}
    (hraw : raw ∈ raws) {p : ℕ} (hp : p ∈ raw.positions) (hendpoint : raw.isEndpoint p)
    (hnumber : endpointNumber (raw.endpoint p).bEndpointAddress ≠ 0) :
    lastDefinition raws (raw.endpoint p).bEndpointAddress ≠ none := by
  have hmem : (infoKey (raw.endpoint p).bEndpointAddress,
      (⟨(raw.endpoint p).xferType, (raw.endpoint p).wMaxPacketSize⟩ : EndpointInfo)) ∈
        definitions raws := by
    refine List.mem_flatMap.2 ⟨raw, hraw, List.mem_map.2 ⟨p, ?_, rfl⟩⟩
    exact List.mem_filter.2 ⟨hp, decide_eq_true ⟨hendpoint, hnumber⟩⟩
  unfold lastDefinition
  rw [Ne, Option.map_eq_none_iff, List.getLast?_eq_none_iff]
  exact List.ne_nil_of_mem (List.mem_filter.2 ⟨hmem, decide_eq_true rfl⟩)

/-- After a run that returns 0 the tables agree exactly when, for each endpoint of the first
configuration that is registered, the last definition of its direction and number in all
configurations is an interrupt endpoint of the same size. -/
theorem tablesAgree_iff {env : Environment} {iterations : RawConfiguration → ℕ}
    {d d' : GusbDevice} {raws : List RawConfiguration} {rs : List ProbeResult}
    (h : probeConfigurations env iterations d raws = some (d', rs, 0))
    (outside outside' : ℤ → UInt8) :
    TablesAgree (fixEndpointsAt (EndpointMaps.start outside outside')
        (rs.map fun r => r.probing.tree)).1 d'.endpoints ↔
      ∀ raw, raws.head? = some raw → ∀ e ∈ raw.registrations,
        lastDefinition raws e.bEndpointAddress =
          some ⟨transferTypeInterrupt, e.wMaxPacketSize⟩ := by
  obtain ⟨hparsed, hinfos⟩ := parsed_of_probeConfigurations h
  cases hparsed with
  | nil =>
      refine ⟨fun _ raw hraw => absurd hraw (by simp), fun _ => ?_⟩
      exact ⟨List.Forall₂.nil, fun _ _ => List.Forall₂.nil,
        fun _ _ p hp => absurd hp List.not_mem_nil⟩
  | @cons raw r raws rs hfirst hrest =>
      have hpointers := pointers_of_parsed (List.Forall₂.cons hfirst hrest)
      obtain ⟨hregistered, hendpoints⟩ := fixEndpointsAt_cons hpointers outside outside'
      obtain ⟨hrenumber, hfound⟩ : r.probing.tree.renumber = raw.tree.renumber ∧
          r.probing.tree.found = raw.tree.found :=
        PConfiguration.found_congr hfirst.raw_eq hfirst.endpoints_eq
      rw [hrenumber, hfound] at hregistered hendpoints
      have hconfigured : ∀ x ∈ (raw.tree.found.zipIdx 1).filter (isConfigured raw.tree.renumber),
          endpointNumber x.1.bEndpointAddress ≠ 0 ∧
            x.1.wMaxPacketSize.toNat ≤ maxPayloadSizeEp := by
        intro x hx
        have htests := of_decide_eq_true (List.mem_filter.1 hx).2
        exact ⟨htests.1, htests.2.2.1⟩
      refine (tablesAgree_iff_of_map (targetAddress raw.tree.renumber) hregistered hendpoints
        hconfigured).trans ?_
      have hlast : ∀ x ∈ (raw.tree.found.zipIdx 1).filter (isConfigured raw.tree.renumber),
          d'.endpoints.infos (infoKey x.1.bEndpointAddress) =
              ⟨transferTypeInterrupt, x.1.wMaxPacketSize⟩ ↔
            lastDefinition (raw :: raws) x.1.bEndpointAddress =
              some ⟨transferTypeInterrupt, x.1.wMaxPacketSize⟩ := by
        intro x hx
        have hmem := List.fst_mem_of_mem_zipIdx (List.mem_filter.1 hx).1
        rw [← hfound] at hmem
        obtain ⟨p, hp, haddress⟩ :=
          PConfiguration.exists_of_mem_found hfirst.nodup_endpoints hmem
        obtain ⟨hposition, hendpoint, -⟩ := hfirst.built.of_mem_endpoints hp
        rw [hfirst.raw_eq] at haddress
        have hnumber := (hconfigured x hx).1
        rw [haddress] at hnumber ⊢
        have hraw : raw ∈ raw :: raws := List.mem_cons_self
        have hne := lastDefinition_ne_none hraw hposition hendpoint hnumber
        obtain ⟨info, hinfo⟩ := Option.ne_none_iff_exists'.1 hne
        rw [hinfos, infos_eq_lastDefinition, hinfo, Option.getD_some, Option.some_inj]
      constructor
      · intro hagree raw' hraw' e he
        obtain rfl : raw = raw' := Option.some.inj hraw'
        obtain ⟨x, hx, rfl⟩ := List.mem_map.1 he
        exact (hlast x hx).1 (hagree x hx)
      · intro hall x hx
        exact (hlast x hx).2 (hall raw rfl x.1 (List.mem_map_of_mem hx))

/-- An interface with the interrupt endpoint `0x81` of 8 bytes in the first alternate setting
and of 16 bytes in the second one. -/
def twoSizes : RawConfiguration := RawConfiguration.ofBytes
  [9, 2, 41, 0, 1, 1, 0, 0x80, 50, 9, 4, 0, 0, 1, 255, 0, 0, 0, 7, 5, 0x81, 3, 8, 0, 10,
    9, 4, 0, 1, 1, 255, 0, 0, 0, 7, 5, 0x81, 3, 16, 0, 10]

theorem tablesAgree_iff_twoSizes : ∃ d' rs,
    probeConfigurations Environment.empty (fun _ => 41) GusbDevice.start [twoSizes] =
        some (d', rs, 0) ∧
      (TablesAgree (fixEndpointsAt (EndpointMaps.start 0 0)
          (rs.map fun r => r.probing.tree)).1 d'.endpoints ↔
        ∀ raw, [twoSizes].head? = some raw → ∀ e ∈ raw.registrations,
          lastDefinition [twoSizes] e.bEndpointAddress =
            some ⟨transferTypeInterrupt, e.wMaxPacketSize⟩) := by
  obtain ⟨d', rs, h⟩ : ∃ d' rs, probeConfigurations Environment.empty (fun _ => 41)
    GusbDevice.start [twoSizes] = some (d', rs, 0) := ⟨_, _, rfl⟩
  exact ⟨d', rs, h, tablesAgree_iff h 0 0⟩

/-- The first of the two registrations has 8 bytes, and the table has 16. -/
theorem not_tablesAgree_twoSizes :
    ¬ ∀ env iterations d raws d' rs outside outside',
      probeConfigurations env iterations d raws = some (d', rs, 0) →
        TablesAgree (fixEndpointsAt (EndpointMaps.start outside outside')
          (rs.map fun r => r.probing.tree)).1 d'.endpoints := by
  intro h
  have hinfos := (h Environment.empty (fun _ => 41) GusbDevice.start [twoSizes] _ _ 0 0
    rfl).infos
  exact absurd hinfos (by decide +kernel)

end SerialUsb
