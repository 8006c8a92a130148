import SerialUsb.Proxy.FixEndpoints

/-!
# When the endpoint maps are a bijection

`Configuration.configured` lists the endpoints that pass the tests of
`fix_endpoints`, with their positions in the loops. The maps are filled from this
list, and they are inverse to each other exactly when no two of its endpoints have
the same direction and number, and renumbering gives no number twice.
-/

namespace SerialUsb

open Memory

def EndpointTable.slots (t : EndpointTable) (i : ℤ) : UInt8 :=
  if h : 0 ≤ i ∧ i < 30 then t.entries[i.toNat] else t.outside i

theorem EndpointTable.get_congr (t : EndpointTable) {a b : ℕ} (h : tableIndex a = tableIndex b) :
    t.get a = t.get b :=
  congrArg t.slots h

def slot (address : UInt8) : ℤ := tableIndex address.toNat

theorem EndpointTable.slots_set (t : EndpointTable) {address : UInt8} (value : UInt8)
    (h : endpointNumber address ≠ 0) :
    (t.set address.toNat value).slots = Function.update t.slots (slot address) value := by
  have hbounds := tableIndex_bounds h
  funext i
  by_cases hi : i = slot address
  · subst hi
    rw [Function.update_self]
    exact t.get_set_self value h
  · rw [Function.update_of_ne hi]
    unfold EndpointTable.set
    rw [dif_pos hbounds]
    unfold EndpointTable.slots
    split
    next hi' =>
      have hne : (tableIndex address.toNat).toNat ≠ i.toNat := by
        intro heq
        apply hi
        unfold slot
        omega
      exact t.entries.getElem_set_ne (by omega) (by omega) hne
    next => rfl

def directionNumber (address : UInt8) : Bool × ℕ := (endpointIn address, endpointNumber address)

theorem slot_eq_iff {a b : UInt8} (ha : endpointNumber a ≠ 0) (hb : endpointNumber b ≠ 0) :
    slot a = slot b ↔ directionNumber a = directionNumber b := by
  unfold slot directionNumber
  rw [tableIndex_eq_iff, Prod.mk.injEq]
  constructor
  · rintro (h | ⟨_, ⟨h, _⟩ | ⟨_, h, _⟩⟩)
    · exact h
    · exact absurd h ha
    · exact absurd h hb
  · exact Or.inl

/-- What `fix_endpoints` promises: the targets are distinct, can be used by the
firmware, the maps are inverse to each other, and `poll_all_endpoints` polls no
endpoint twice. -/
structure EndpointMaps.Bijection (m : EndpointMaps) : Prop where
  targets : (m.registered.map Prod.snd).Nodup
  numbers : ∀ p ∈ m.registered, 1 ≤ endpointNumber p.2 ∧ endpointNumber p.2 ≤ maxEndpoints
  directions : ∀ p ∈ m.registered, ∀ q ∈ m.registered,
    endpointNumber p.2 = endpointNumber q.2 → endpointIn p.2 = endpointIn q.2
  serialToUsb_usbToSerial : ∀ p ∈ m.registered,
    m.serialToUsb.get (m.usbToSerial.get p.1.toNat).toNat = p.1
  usbToSerial_serialToUsb : ∀ p ∈ m.registered,
    m.usbToSerial.get (m.serialToUsb.get p.2.toNat).toNat = p.2
  polled : (((List.range endpointMaxNumber).map fun i =>
    m.serialToUsb.get (0x80 ||| i)).filter (· ≠ 0)).Nodup

/-- The targets can be used by the firmware. -/
structure Usable (l : List (UInt8 × UInt8)) : Prop where
  numbers : ∀ p ∈ l, 1 ≤ endpointNumber p.2 ∧ endpointNumber p.2 ≤ maxEndpoints
  directions : ∀ p ∈ l, ∀ q ∈ l,
    endpointNumber p.2 = endpointNumber q.2 → endpointIn p.2 = endpointIn q.2

structure EndpointMaps.FilledOver (u s : ℤ → UInt8) (m : EndpointMaps) : Prop where
  originals : ∀ p ∈ m.registered, endpointNumber p.1 ≠ 0
  usbToSerial : m.usbToSerial.slots = forward slot u m.registered
  serialToUsb : (∀ p ∈ m.registered, endpointNumber p.2 ≠ 0) →
    m.serialToUsb.slots = backward slot s m.registered
  endpoints : m.endpoints.map EndpointConfig.number = m.registered.map Prod.snd

theorem EndpointMaps.FilledOver.register {u s : ℤ → UInt8} {m : EndpointMaps}
    (hm : m.FilledOver u s) {e : EndpointDescriptor} (address : UInt8)
    (he : endpointNumber e.bEndpointAddress ≠ 0) : (m.register e address).FilledOver u s where
  originals := by
    intro p hp
    rcases List.mem_append.1 hp with hp | hp
    · exact hm.originals p hp
    · rw [List.mem_singleton.1 hp]
      exact he
  usbToSerial := by
    change (m.usbToSerial.set e.bEndpointAddress.toNat address).slots = _
    rw [EndpointTable.slots_set _ _ he, hm.usbToSerial]
    unfold forward assignAll EndpointMaps.register
    rw [List.map_append, List.foldl_append]
    rfl
  serialToUsb := by
    intro hnumbers
    have haddress : endpointNumber address ≠ 0 :=
      hnumbers _ (List.mem_append_right _ (List.mem_singleton_self _))
    change (m.serialToUsb.set address.toNat e.bEndpointAddress).slots = _
    rw [EndpointTable.slots_set _ _ haddress,
      hm.serialToUsb fun p hp => hnumbers p (List.mem_append_left _ hp)]
    unfold backward assignAll EndpointMaps.register
    rw [List.map_append, List.foldl_append]
    rfl
  endpoints := by
    change (m.endpoints ++ _).map _ = (m.registered ++ _).map _
    rw [List.map_append, List.map_append, hm.endpoints]
    rfl

theorem EndpointMaps.filledOver_start (outside outside' : ℤ → UInt8) :
    (EndpointMaps.start outside outside').FilledOver
      (EndpointMaps.start outside outside').usbToSerial.slots
      (EndpointMaps.start outside outside').serialToUsb.slots where
  originals := fun _ hp => absurd hp List.not_mem_nil
  usbToSerial := rfl
  serialToUsb := fun _ => rfl
  endpoints := rfl

theorem tableIndex_in : ∀ i < endpointMaxNumber, tableIndex (0x80 ||| i) = i + 14 := by
  decide

theorem EndpointMaps.FilledOver.exists_of_get_ne_zero {u s : ℤ → UInt8} {m : EndpointMaps}
    (hm : m.FilledOver u s) (hzero : ∀ i < endpointMaxNumber, s (i + 14) = 0)
    (hnumbers : ∀ p ∈ m.registered, endpointNumber p.2 ≠ 0) {k : ℕ} (hk : k < endpointMaxNumber)
    (hk0 : m.serialToUsb.get (0x80 ||| k) ≠ 0) :
    ∃ p ∈ m.registered, slot p.2 = k + 14 ∧ p.1 = m.serialToUsb.get (0x80 ||| k) := by
  have hget : m.serialToUsb.get (0x80 ||| k) = backward slot s m.registered (k + 14) := by
    rw [← hm.serialToUsb hnumbers, ← tableIndex_in k hk]
    rfl
  rcases assignAll_eq_or_mem s (m.registered.map fun p => (slot p.2, p.1)) (k + 14) with h | h
  · rw [hzero k hk] at h
    exact absurd (hget.trans h) hk0
  · obtain ⟨p, hp, heq⟩ := List.mem_map.1 h
    rw [Prod.mk.injEq] at heq
    exact ⟨p, hp, heq.1, heq.2.trans hget.symm⟩

/-- Maps that hold what was registered are a bijection when the firmware can use
the targets and no two of the registered pairs share an element of a table. -/
theorem EndpointMaps.FilledOver.bijection_iff {u s : ℤ → UInt8} {m : EndpointMaps}
    (hm : m.FilledOver u s) (hzero : ∀ i < endpointMaxNumber, s (i + 14) = 0) :
    m.Bijection ↔
      Usable m.registered ∧ (m.registered.map fun p => slot p.1).Nodup ∧
        (m.registered.map fun p => slot p.2).Nodup := by
  constructor
  · intro h
    have hs := hm.serialToUsb fun p hp => Nat.one_le_iff_ne_zero.1 (h.numbers p hp).1
    refine ⟨⟨h.numbers, h.directions⟩,
      (inverse_iff (u := u) (s := s)).1 ⟨h.targets, fun p hp => ?_, fun p hp => ?_⟩⟩
    · rw [← hm.usbToSerial, ← hs]
      exact h.serialToUsb_usbToSerial p hp
    · rw [← hm.usbToSerial, ← hs]
      exact h.usbToSerial_serialToUsb p hp
  · rintro ⟨husable, hfirst, hsecond⟩
    have hs := hm.serialToUsb fun p hp => Nat.one_le_iff_ne_zero.1 (husable.numbers p hp).1
    obtain ⟨htargets, hsu, hus⟩ := (inverse_iff (u := u) (s := s)).2 ⟨hfirst, hsecond⟩
    rw [← hm.usbToSerial, ← hs] at hsu hus
    refine ⟨htargets, husable.numbers, husable.directions, hsu, hus, ?_⟩
    rw [List.Nodup, List.pairwise_filter, List.pairwise_map]
    refine List.Pairwise.imp_of_mem ?_ List.nodup_range
    intro i j hi hj hne hi0 hj0 heq
    have hpair := fun (k : ℕ) (hk : k ∈ List.range endpointMaxNumber) =>
      hm.exists_of_get_ne_zero hzero
        (fun p hp => Nat.one_le_iff_ne_zero.1 (husable.numbers p hp).1) (List.mem_range.1 hk)
    obtain ⟨p, hp, hpi, hp1⟩ := hpair i hi (by simpa using hi0)
    obtain ⟨q, hq, hqj, hq1⟩ := hpair j hj (by simpa using hj0)
    have hpq : p = q := List.inj_on_of_nodup_map hfirst hp hq (by rw [hp1, hq1, heq])
    subst hpq
    exact hne (by omega)

/-- The tests of `fix_endpoints` on the endpoint at a position of the first
configuration, counted from 1. -/
def isConfigured (renumber : Bool) (e : EndpointDescriptor × ℕ) : Bool :=
  endpointNumber e.1.bEndpointAddress ≠ 0 ∧ e.1.xferType = usbEndpointXferInt ∧
    e.1.wMaxPacketSize.toNat ≤ maxPayloadSizeEp ∧ (renumber = true → e.2 % 256 ≤ maxEndpoints)

/-- The endpoints of a configuration that are put into the maps when it is the
first one, with their positions. -/
def Configuration.configured (c : Configuration) : List (EndpointDescriptor × ℕ) :=
  (c.endpoints.zipIdx 1).filter (isConfigured c.renumber)

def targetAddress (renumber : Bool) (e : EndpointDescriptor × ℕ) : UInt8 :=
  if renumber then (e.1.bEndpointAddress &&& 0x80) ||| UInt8.ofNat e.2
  else e.1.bEndpointAddress

/-- No two configured endpoints have the same direction and number, and when the
configuration is renumbered no two of them get the same number. -/
structure Configuration.Distinct (c : Configuration) : Prop where
  originals : (c.configured.map fun e => directionNumber e.1.bEndpointAddress).Nodup
  positions : c.renumber = true →
    (∀ e ∈ c.configured, e.2 % 256 ≠ 0) ∧ (c.configured.map fun e => e.2 % 256).Nodup

instance (c : Configuration) : Decidable c.Distinct :=
  decidable_of_iff
    ((c.configured.map fun e => directionNumber e.1.bEndpointAddress).Nodup ∧
      (c.renumber = true →
        (∀ e ∈ c.configured, e.2 % 256 ≠ 0) ∧ (c.configured.map fun e => e.2 % 256).Nodup))
    ⟨fun h => ⟨h.1, h.2⟩, fun h => ⟨h.1, h.2⟩⟩

theorem fixEndpoint_fst (renumber : Bool) (m : EndpointMaps) (e : EndpointDescriptor) (k : ℕ)
    (hm : m.number = if renumber then UInt8.ofNat k else 0) :
    (fixEndpoint 0 renumber m e).1 =
      let m := { m with number := if renumber then UInt8.ofNat (k + 1) else 0 }
      if isConfigured renumber (e, k + 1) then m.register e (targetAddress renumber (e, k + 1))
      else m := by
  have hnumber : (if renumber then m.number + 1 else m.number) =
      if renumber then UInt8.ofNat (k + 1) else 0 := by
    rw [hm, UInt8.ofNat_add]
    cases renumber <;> rfl
  have hskips : skipsEndpoint 0 (if renumber then UInt8.ofNat (k + 1) else 0) e =
      !isConfigured renumber (e, k + 1) := by
    unfold skipsEndpoint isConfigured
    rw [← decide_not]
    refine decide_eq_decide.2 ?_
    cases renumber <;> simp [UInt8.toNat_ofNat'] <;> grind
  unfold fixEndpoint
  simp only [hnumber, hskips]
  cases hconfigured : isConfigured renumber (e, k + 1)
  · rfl
  · cases renumber <;> rfl

/-- The loop over the endpoints of the first configuration registers those that
are configured, in order, and fills the maps with them. -/
theorem foldl_fixEndpoint (renumber : Bool) {u s : ℤ → UInt8} (es : List EndpointDescriptor)
    (m : EndpointMaps) (k : ℕ) (hm : m.number = if renumber then UInt8.ofNat k else 0)
    (hfilled : m.FilledOver u s) :
    (es.foldl (fun m e => (fixEndpoint 0 renumber m e).1) m).FilledOver u s ∧
    (es.foldl (fun m e => (fixEndpoint 0 renumber m e).1) m).registered =
      m.registered ++ ((es.zipIdx (k + 1)).filter (isConfigured renumber)).map
        fun e => (e.1.bEndpointAddress, targetAddress renumber e) := by
  induction es generalizing m k with
  | nil => exact ⟨hfilled, (List.append_nil _).symm⟩
  | cons e es ih =>
      rw [List.foldl_cons, List.zipIdx_cons, fixEndpoint_fst renumber m e k hm]
      have hcounted : ({ m with number := if renumber then UInt8.ofNat (k + 1) else 0 } :
          EndpointMaps).FilledOver u s :=
        ⟨hfilled.originals, hfilled.usbToSerial, hfilled.serialToUsb, hfilled.endpoints⟩
      cases hconfigured : isConfigured renumber (e, k + 1) with
      | false =>
          rw [List.filter_cons_of_neg (by simp [hconfigured])]
          exact ih _ (k + 1) rfl hcounted
      | true =>
          rw [List.filter_cons_of_pos hconfigured, List.map_cons]
          have hnumber : endpointNumber e.bEndpointAddress ≠ 0 := by
            unfold isConfigured at hconfigured
            exact (of_decide_eq_true hconfigured).1
          obtain ⟨hfilled', hregistered⟩ :=
            ih _ (k + 1) rfl (hcounted.register (targetAddress renumber (e, k + 1)) hnumber)
          refine ⟨hfilled', hregistered.trans ?_⟩
          unfold EndpointMaps.register
          rw [List.append_assoc]
          rfl

theorem foldl_fixEndpoint_endpoints (renumber : Bool) (es : List EndpointDescriptor)
    (m : EndpointMaps) (k : ℕ) (hm : m.number = if renumber then UInt8.ofNat k else 0) :
    (es.foldl (fun m e => (fixEndpoint 0 renumber m e).1) m).endpoints =
      m.endpoints ++ ((es.zipIdx (k + 1)).filter (isConfigured renumber)).map
        fun e => ⟨targetAddress renumber e, e.1.xferType, e.1.wMaxPacketSize.toUInt8⟩ := by
  induction es generalizing m k with
  | nil => exact (List.append_nil _).symm
  | cons e es ih =>
      rw [List.foldl_cons, List.zipIdx_cons, fixEndpoint_fst renumber m e k hm]
      cases hconfigured : isConfigured renumber (e, k + 1) with
      | false =>
          rw [List.filter_cons_of_neg (by simp [hconfigured])]
          exact ih _ (k + 1) rfl
      | true =>
          rw [List.filter_cons_of_pos hconfigured, List.map_cons]
          refine (ih _ (k + 1) rfl).trans ?_
          exact List.append_assoc m.endpoints [_] _

theorem foldl_fixEndpoint_succ (k : ℕ) (renumber : Bool) (es : List EndpointDescriptor)
    (m : EndpointMaps) : ∃ number,
      es.foldl (fun m e => (fixEndpoint (k + 1) renumber m e).1) m =
        { m with number := number } := by
  induction es generalizing m with
  | nil => exact ⟨m.number, rfl⟩
  | cons e es ih =>
      have hbody : (fixEndpoint (k + 1) renumber m e).1 =
          { m with number := if renumber then m.number + 1 else m.number } := by
        unfold fixEndpoint
        rw [if_pos (by simp [skipsEndpoint])]
      rw [List.foldl_cons, hbody]
      exact ih _

/-- Later configurations leave the maps as they are. -/
theorem fixConfigurations_succ (k : ℕ) (cs : List Configuration) (m : EndpointMaps) :
    ∃ number, (fixConfigurations (k + 1) m cs).1 = { m with number := number } := by
  induction cs generalizing m k with
  | nil => exact ⟨m.number, rfl⟩
  | cons c cs ih =>
      obtain ⟨number, hnumber⟩ :=
        foldl_fixEndpoint_succ k c.renumber c.endpoints { m with number := 0 }
      obtain ⟨number', hnumber'⟩ := ih (k + 1) { m with number := number }
      refine ⟨number', ?_⟩
      change (fixConfigurations (k + 2) (fixConfiguration (k + 1) m c).1 cs).1 = _
      rw [fixConfiguration_fst, hnumber]
      exact hnumber'

section Properties

theorem or_and_of_and {p b : UInt8} (x : UInt8) (h : p &&& b = b) : (p ||| x) &&& b = b := by
  apply UInt8.toBitVec_inj.1
  have h := congrArg UInt8.toBitVec h
  simp only [UInt8.toBitVec_and, UInt8.toBitVec_or] at h ⊢
  ext i hi
  have hbit := congrArg (fun v => v.getLsbD i) h
  simp only [BitVec.getLsbD_and] at hbit
  simp only [← BitVec.getLsbD_eq_getElem, BitVec.getLsbD_and, BitVec.getLsbD_or]
  grind

theorem and_in_out : ∀ p : UInt8, p &&& epPropIn = epPropIn → p &&& epPropOut = epPropOut →
    p &&& (epPropIn ||| epPropOut) = epPropIn ||| epPropOut := by
  rintro ⟨⟨p⟩⟩
  revert p
  decide +kernel

/-- A number with a property that the target has not, makes the configuration be
renumbered: only the numbers 1 to 6 have properties, and none is bidirectional. -/
theorem and_targetProperties : ∀ (i : Fin endpointMaxNumber) (p : UInt8),
    targetProperties.get i &&& p = p → p &&& epPropIn = epPropIn ∨ p &&& epPropOut = epPropOut →
    i.val < maxEndpoints ∧ p &&& epPropBidir ≠ epPropBidir := by
  rintro i ⟨⟨p⟩⟩
  revert i p
  decide +kernel

theorem getD_setIfInBounds {n : ℕ} (v : Vector UInt8 n) (i j : ℕ) (hj : j < n) (x : UInt8) :
    (v.setIfInBounds i x).getD j 0 = if i = j then x else v.getD j 0 := by
  unfold Vector.getD
  rw [Vector.toArray_setIfInBounds]
  simp [Array.getElem?_setIfInBounds]
  grind

theorem mergeProps_and {p b : UInt8} (e : EndpointDescriptor) (h : p &&& b = b) :
    mergeProps p e &&& b = b := by
  have hor := or_and_of_and e.dirProp (or_and_of_and e.typeProp h)
  unfold mergeProps
  dsimp only
  split
  · exact or_and_of_and _ hor
  · exact hor

theorem mergeProps_and_dirProp (p : UInt8) (e : EndpointDescriptor) :
    mergeProps p e &&& e.dirProp = e.dirProp := by
  have hor : (p ||| e.typeProp ||| e.dirProp) &&& e.dirProp = e.dirProp := by
    rw [UInt8.or_comm]
    exact or_and_of_and _ (UInt8.and_self)
  unfold mergeProps
  dsimp only
  split
  · exact or_and_of_and _ hor
  · exact hor

theorem mergeProps_and_bidir {p : UInt8} {e : EndpointDescriptor}
    (hin : mergeProps p e &&& epPropIn = epPropIn)
    (hout : mergeProps p e &&& epPropOut = epPropOut) :
    mergeProps p e &&& epPropBidir = epPropBidir := by
  have hboth := and_in_out _ hin hout
  unfold mergeProps at hboth ⊢
  dsimp only at hboth ⊢
  split
  · rw [UInt8.or_comm]
    exact or_and_of_and _ UInt8.and_self
  next h =>
    rw [if_neg h] at hboth
    exact absurd hboth h

theorem foldl_addEndpointProperties (es : List EndpointDescriptor)
    (v : Vector UInt8 endpointMaxNumber) {i : ℕ} (hi : i < endpointMaxNumber) :
    (es.foldl addEndpointProperties v).getD i 0 =
      (es.filter fun e => inPacketIndex e.bEndpointAddress = i).foldl mergeProps
        (v.getD i 0) := by
  induction es generalizing v with
  | nil => rfl
  | cons e es ih =>
      rw [List.foldl_cons, ih]
      unfold addEndpointProperties
      rw [getD_setIfInBounds _ _ _ hi]
      by_cases h : inPacketIndex e.bEndpointAddress = i
      · rw [if_pos h, List.filter_cons_of_pos (by simp [h]), List.foldl_cons, h]
      · rw [if_neg h, List.filter_cons_of_neg (by simp [h])]

theorem foldl_mergeProps_and {p b : UInt8} (es : List EndpointDescriptor) (h : p &&& b = b) :
    es.foldl mergeProps p &&& b = b := by
  induction es generalizing p with
  | nil => exact h
  | cons e es ih => exact ih (mergeProps_and e h)

theorem foldl_mergeProps_dirProp (p : UInt8) {es : List EndpointDescriptor}
    {e : EndpointDescriptor} (he : e ∈ es) :
    es.foldl mergeProps p &&& e.dirProp = e.dirProp := by
  induction es generalizing p with
  | nil => exact absurd he List.not_mem_nil
  | cons a es ih =>
      rw [List.foldl_cons]
      rcases List.mem_cons.1 he with rfl | he
      · exact foldl_mergeProps_and es (mergeProps_and_dirProp p e)
      · exact ih _ he

theorem foldl_mergeProps_bidir (p : UInt8) {es : List EndpointDescriptor} (hes : es ≠ [])
    (hin : es.foldl mergeProps p &&& epPropIn = epPropIn)
    (hout : es.foldl mergeProps p &&& epPropOut = epPropOut) :
    es.foldl mergeProps p &&& epPropBidir = epPropBidir := by
  rw [← List.dropLast_append_getLast hes, List.foldl_concat] at hin hout ⊢
  exact mergeProps_and_bidir hin hout

/-- The endpoints with the number of an endpoint. -/
def Configuration.sharing (c : Configuration) (e : EndpointDescriptor) : List EndpointDescriptor :=
  c.endpoints.filter fun e' =>
    inPacketIndex e'.bEndpointAddress = inPacketIndex e.bEndpointAddress

theorem getEndpointProperties_getElem (c : Configuration) (e : EndpointDescriptor)
    (hi : inPacketIndex e.bEndpointAddress < endpointMaxNumber) :
    (getEndpointProperties c)[inPacketIndex e.bEndpointAddress] =
      (c.sharing e).foldl mergeProps 0 := by
  have hfold := foldl_addEndpointProperties c.endpoints (Vector.replicate _ 0) hi
  have hzero : (Vector.replicate endpointMaxNumber (0 : UInt8)).getD
      (inPacketIndex e.bEndpointAddress) 0 = 0 := by
    simp only [Vector.getD, Vector.toArray_replicate, Array.getD_eq_getD_getElem?,
      Array.getElem?_replicate]
    split <;> rfl
  rw [hzero] at hfold
  rw [Configuration.sharing, ← hfold]
  simp [getEndpointProperties, Vector.getD, hi]

/-- The adapter has the properties of every number of a configuration that is not renumbered. -/
theorem and_getEndpointProperties {c : Configuration} (hc : c.renumber = false)
    (i : Fin endpointMaxNumber) :
    targetProperties.get i &&& (getEndpointProperties c).get i =
      (getEndpointProperties c).get i := by
  by_contra hne
  have hnonzero : (getEndpointProperties c).get i ≠ 0 := by
    intro h0
    rw [h0] at hne
    exact hne UInt8.and_zero
  unfold Configuration.renumber compareEndpointProperties at hc
  rw [List.any_eq_false] at hc
  exact hc i (List.mem_finRange i) (decide_eq_true ⟨hnonzero, hne⟩)

theorem EndpointDescriptor.dirProp_cases (e : EndpointDescriptor) :
    e.dirProp = epPropIn ∨ e.dirProp = epPropOut := by
  unfold EndpointDescriptor.dirProp
  split
  · exact Or.inl rfl
  · exact Or.inr rfl

theorem foldl_mergeProps_both {es : List EndpointDescriptor} {e e' : EndpointDescriptor}
    (he : e ∈ es) (he' : e' ∈ es)
    (hne : endpointIn e.bEndpointAddress ≠ endpointIn e'.bEndpointAddress) :
    es.foldl mergeProps 0 &&& epPropBidir = epPropBidir := by
  have hboth : es.foldl mergeProps 0 &&& epPropIn = epPropIn ∧
      es.foldl mergeProps 0 &&& epPropOut = epPropOut := by
    have h := foldl_mergeProps_dirProp 0 he
    have h' := foldl_mergeProps_dirProp 0 he'
    unfold EndpointDescriptor.dirProp at h h'
    cases hin : endpointIn e.bEndpointAddress <;> cases hin' : endpointIn e'.bEndpointAddress
    · exact absurd (hin.trans hin'.symm) hne
    · simp only [hin, hin', if_true, Bool.false_eq_true, if_false] at h h'
      exact ⟨h', h⟩
    · simp only [hin, hin', if_true, Bool.false_eq_true, if_false] at h h'
      exact ⟨h, h'⟩
    · exact absurd (hin.trans hin'.symm) hne
  exact foldl_mergeProps_bidir 0 (List.ne_nil_of_mem he) hboth.1 hboth.2

/-- In a configuration that is not renumbered an endpoint has a number up to 6, and
the endpoints with its number have its direction. -/
theorem usable_of_not_renumber {c : Configuration} (hc : c.renumber = false)
    {e : EndpointDescriptor} (he : e ∈ c.endpoints) (he0 : endpointNumber e.bEndpointAddress ≠ 0) :
    endpointNumber e.bEndpointAddress ≤ maxEndpoints ∧
      ∀ e' ∈ c.endpoints, endpointNumber e.bEndpointAddress = endpointNumber e'.bEndpointAddress →
        endpointIn e.bEndpointAddress = endpointIn e'.bEndpointAddress := by
  have hnumber : endpointNumber e.bEndpointAddress < 16 := Nat.mod_lt _ (by decide)
  have hindex : inPacketIndex e.bEndpointAddress = endpointNumber e.bEndpointAddress - 1 := by
    unfold inPacketIndex
    omega
  have hi : inPacketIndex e.bEndpointAddress < endpointMaxNumber := by
    rw [hindex, endpointMaxNumber_eq]
    omega
  have hes : e ∈ c.sharing e := List.mem_filter.2 ⟨he, decide_eq_true rfl⟩
  have hinOut : (c.sharing e).foldl mergeProps 0 &&& epPropIn = epPropIn ∨
      (c.sharing e).foldl mergeProps 0 &&& epPropOut = epPropOut := by
    have h := foldl_mergeProps_dirProp 0 hes
    rcases e.dirProp_cases with hp | hp
    · exact Or.inl (hp ▸ h)
    · exact Or.inr (hp ▸ h)
  have htarget := and_getEndpointProperties hc ⟨_, hi⟩
  have hsource := getEndpointProperties_getElem c e hi
  change _ &&& (getEndpointProperties c)[inPacketIndex e.bEndpointAddress] =
    (getEndpointProperties c)[inPacketIndex e.bEndpointAddress] at htarget
  rw [hsource] at htarget
  obtain ⟨hsix, hbidir⟩ := and_targetProperties ⟨_, hi⟩ _ htarget hinOut
  refine ⟨?_, ?_⟩
  · have hlt : inPacketIndex e.bEndpointAddress < maxEndpoints := hsix
    omega
  · intro e' he' heq
    have hes' : e' ∈ c.sharing e := by
      refine List.mem_filter.2 ⟨he', decide_eq_true ?_⟩
      unfold inPacketIndex
      rw [heq]
    by_contra hne
    exact hbidir (foldl_mergeProps_both hes hes' hne)

end Properties

/-- The numbers that renumbering gives can be read back from the address. -/
theorem targetAddress_true {e : EndpointDescriptor × ℕ} (he : e.2 % 256 ≤ maxEndpoints) :
    endpointNumber (targetAddress true e) = e.2 % 256 ∧
      endpointIn (targetAddress true e) = endpointIn e.1.bEndpointAddress := by
  have hbyte : ∀ (address : UInt8), ∀ n ≤ maxEndpoints,
      endpointNumber ((address &&& 0x80) ||| UInt8.ofNat n) = n ∧
        endpointIn ((address &&& 0x80) ||| UInt8.ofNat n) = endpointIn address := by
    rintro ⟨⟨address⟩⟩
    revert address
    decide +kernel
  have hmod : UInt8.ofNat e.2 = UInt8.ofNat (e.2 % 256) := UInt8.ofNat_mod_size.symm
  unfold targetAddress
  rw [if_pos rfl, hmod]
  exact hbyte _ _ he

theorem Configuration.of_mem_configured {c : Configuration} {e : EndpointDescriptor × ℕ}
    (he : e ∈ c.configured) :
    e.1 ∈ c.endpoints ∧ endpointNumber e.1.bEndpointAddress ≠ 0 ∧
      (c.renumber = true → e.2 % 256 ≤ maxEndpoints) := by
  obtain ⟨hmem, hconfigured⟩ := List.mem_filter.1 he
  unfold isConfigured at hconfigured
  obtain ⟨hnumber, _, _, hposition⟩ := of_decide_eq_true hconfigured
  exact ⟨List.fst_mem_of_mem_zipIdx hmem, hnumber, hposition⟩

theorem endpointIn_targetAddress {c : Configuration} {e : EndpointDescriptor × ℕ}
    (he : e ∈ c.configured) :
    endpointIn (targetAddress c.renumber e) = endpointIn e.1.bEndpointAddress := by
  cases hrenumber : c.renumber with
  | false => rfl
  | true => exact (targetAddress_true ((Configuration.of_mem_configured he).2.2 hrenumber)).2

theorem endpointNumber_targetAddress_le {c : Configuration} {e : EndpointDescriptor × ℕ}
    (he : e ∈ c.configured) : endpointNumber (targetAddress c.renumber e) ≤ maxEndpoints := by
  obtain ⟨hmem, hnumber, hposition⟩ := Configuration.of_mem_configured he
  cases hc : c.renumber with
  | false => exact (usable_of_not_renumber hc hmem hnumber).1
  | true =>
      have hle := hposition hc
      exact (targetAddress_true hle).1.trans_le hle

def Configuration.addresses (c : Configuration) : List (UInt8 × UInt8) :=
  c.configured.map fun e => (e.1.bEndpointAddress, targetAddress c.renumber e)

theorem Configuration.nodup_slot_originals_iff (c : Configuration) :
    (c.addresses.map fun p => slot p.1).Nodup ↔
      (c.configured.map fun e => directionNumber e.1.bEndpointAddress).Nodup := by
  unfold Configuration.addresses
  rw [List.map_map]
  refine nodup_map_congr fun e he e' he' => ?_
  exact slot_eq_iff (of_mem_configured he).2.1 (of_mem_configured he').2.1

theorem Configuration.distinct_iff_of_not_renumber {c : Configuration} (hc : c.renumber = false) :
    (Usable c.addresses ∧ (c.addresses.map fun p => slot p.1).Nodup ∧
      (c.addresses.map fun p => slot p.2).Nodup) ↔ c.Distinct := by
  have htarget : ∀ p ∈ c.addresses, p.2 = p.1 := by
    intro p hp
    obtain ⟨e, _, rfl⟩ := List.mem_map.1 hp
    unfold targetAddress
    rw [hc]
    rfl
  have husable : Usable c.addresses := by
    constructor
    · intro p hp
      rw [htarget p hp]
      obtain ⟨e, he, rfl⟩ := List.mem_map.1 hp
      obtain ⟨hmem, hnumber, _⟩ := of_mem_configured he
      exact ⟨Nat.one_le_iff_ne_zero.2 hnumber, (usable_of_not_renumber hc hmem hnumber).1⟩
    · intro p hp q hq
      rw [htarget p hp, htarget q hq]
      obtain ⟨e, he, rfl⟩ := List.mem_map.1 hp
      obtain ⟨e', he', rfl⟩ := List.mem_map.1 hq
      obtain ⟨hmem, hnumber, _⟩ := of_mem_configured he
      exact (usable_of_not_renumber hc hmem hnumber).2 _ (of_mem_configured he').1
  have hslots : (c.addresses.map fun p => slot p.2) = c.addresses.map fun p => slot p.1 :=
    List.map_congr_left fun p hp => by rw [htarget p hp]
  rw [hslots, and_self, c.nodup_slot_originals_iff]
  constructor
  · rintro ⟨_, horiginals⟩
    exact ⟨horiginals, fun h => absurd (hc.symm.trans h) Bool.false_ne_true⟩
  · intro h
    exact ⟨husable, h.originals⟩

theorem Configuration.distinct_iff_of_renumber {c : Configuration} (hc : c.renumber = true) :
    (Usable c.addresses ∧ (c.addresses.map fun p => slot p.1).Nodup ∧
      (c.addresses.map fun p => slot p.2).Nodup) ↔ c.Distinct := by
  have htarget : ∀ e ∈ c.configured,
      endpointNumber (targetAddress c.renumber e) = e.2 % 256 ∧
        endpointIn (targetAddress c.renumber e) = endpointIn e.1.bEndpointAddress := by
    intro e he
    rw [hc]
    exact targetAddress_true ((of_mem_configured he).2.2 hc)
  have hmem : ∀ e ∈ c.configured,
      (e.1.bEndpointAddress, targetAddress c.renumber e) ∈ c.addresses :=
    fun e he => List.mem_map_of_mem (f := fun e => (_, targetAddress c.renumber e)) he
  -- when the firmware can use the targets, they share an element when they share a number
  have hslots : Usable c.addresses → ((c.addresses.map fun p => slot p.2).Nodup ↔
      (c.configured.map fun e => e.2 % 256).Nodup) := by
    intro husable
    unfold Configuration.addresses
    rw [List.map_map]
    refine nodup_map_congr fun e he e' he' => ?_
    have hpos := husable.numbers _ (hmem e he)
    have hpos' := husable.numbers _ (hmem e' he')
    refine (slot_eq_iff (Nat.one_le_iff_ne_zero.1 hpos.1) (Nat.one_le_iff_ne_zero.1 hpos'.1)).trans ?_
    rw [← (htarget e he).1, ← (htarget e' he').1]
    unfold directionNumber
    rw [Prod.mk.injEq]
    exact ⟨And.right, fun h => ⟨husable.directions _ (hmem e he) _ (hmem e' he') h, h⟩⟩
  rw [c.nodup_slot_originals_iff]
  constructor
  · rintro ⟨husable, horiginals, htargets⟩
    refine ⟨horiginals, fun _ => ⟨fun e he => ?_, (hslots husable).1 htargets⟩⟩
    rw [← (htarget e he).1]
    exact Nat.one_le_iff_ne_zero.1 (husable.numbers _ (hmem e he)).1
  · intro h
    obtain ⟨hzero, hnodup⟩ := h.positions hc
    have husable : Usable c.addresses := by
      constructor
      · intro p hp
        obtain ⟨e, he, rfl⟩ := List.mem_map.1 hp
        rw [(htarget e he).1]
        exact ⟨Nat.one_le_iff_ne_zero.2 (hzero e he), (of_mem_configured he).2.2 hc⟩
      · intro p hp q hq heq
        obtain ⟨e, he, rfl⟩ := List.mem_map.1 hp
        obtain ⟨e', he', rfl⟩ := List.mem_map.1 hq
        rw [(htarget e he).1, (htarget e' he').1] at heq
        rw [List.inj_on_of_nodup_map hnodup he he' heq]
    exact ⟨husable, h.originals, (hslots husable).2 hnodup⟩

theorem Configuration.distinct_iff (c : Configuration) :
    (Usable c.addresses ∧ (c.addresses.map fun p => slot p.1).Nodup ∧
      (c.addresses.map fun p => slot p.2).Nodup) ↔ c.Distinct := by
  cases hc : c.renumber with
  | false => exact distinct_iff_of_not_renumber hc
  | true => exact distinct_iff_of_renumber hc

/-- The maps are filled with the configured endpoints of the first configuration. -/
theorem fixEndpoints_cons (outside outside' : ℤ → UInt8) (c : Configuration)
    (cs : List Configuration) :
    (fixEndpoints (EndpointMaps.start outside outside') (c :: cs)).1.FilledOver
        (EndpointMaps.start outside outside').usbToSerial.slots
        (EndpointMaps.start outside outside').serialToUsb.slots ∧
      (fixEndpoints (EndpointMaps.start outside outside') (c :: cs)).1.registered =
        c.addresses := by
  obtain ⟨hfilled, hregistered⟩ := foldl_fixEndpoint c.renumber c.endpoints
    (EndpointMaps.start outside outside') 0 (by cases c.renumber <;> rfl)
    (EndpointMaps.filledOver_start outside outside')
  obtain ⟨number, hrest⟩ := fixConfigurations_succ 0 cs
    (fixConfiguration 0 (EndpointMaps.start outside outside') c).1
  have hfix : (fixEndpoints (EndpointMaps.start outside outside') (c :: cs)).1 =
      (fixConfigurations 1 (fixConfiguration 0 (EndpointMaps.start outside outside') c).1 cs).1 :=
    rfl
  rw [hfix, hrest]
  rw [fixConfiguration_fst]
  exact ⟨⟨hfilled.originals, hfilled.usbToSerial, hfilled.serialToUsb, hfilled.endpoints⟩,
    hregistered.trans (List.nil_append _)⟩

theorem EndpointMaps.start_serialToUsb (outside outside' : ℤ → UInt8) :
    ∀ i < endpointMaxNumber,
      (EndpointMaps.start outside outside').serialToUsb.slots (i + 14) = 0 := by
  intro i hi
  have hi' : 0 ≤ (i + 14 : ℤ) ∧ (i + 14 : ℤ) < 30 := by
    rw [endpointMaxNumber_eq] at hi
    omega
  unfold EndpointTable.slots EndpointMaps.start
  rw [dif_pos hi']
  exact Vector.getElem_replicate _

/-- The maps are a bijection exactly when the first configuration uses no address
for two of the endpoints that are configured, and renumbering, if it is made, does
not come back to a number. -/
theorem fixEndpoints_bijection_iff (outside outside' : ℤ → UInt8) (cs : List Configuration) :
    (fixEndpoints (EndpointMaps.start outside outside') cs).1.Bijection ↔
      ∀ c, cs.head? = some c → c.Distinct := by
  cases cs with
  | nil =>
      have hstart := EndpointMaps.filledOver_start outside outside'
      refine ⟨fun _ c hc => absurd hc (Option.some_ne_none c).symm, fun _ => ?_⟩
      refine (hstart.bijection_iff (EndpointMaps.start_serialToUsb outside outside')).2 ?_
      exact ⟨⟨fun _ hp => absurd hp List.not_mem_nil, fun _ hp => absurd hp List.not_mem_nil⟩,
        List.nodup_nil, List.nodup_nil⟩
  | cons c cs =>
      obtain ⟨hfilled, hregistered⟩ := fixEndpoints_cons outside outside' c cs
      rw [hfilled.bijection_iff (EndpointMaps.start_serialToUsb outside outside'), hregistered]
      have hdistinct : (∀ c', (c :: cs).head? = some c' → c'.Distinct) ↔ c.Distinct :=
        ⟨fun h => h c rfl, fun h c' hc' => Option.some.inj hc' ▸ h⟩
      rw [hdistinct]
      exact c.distinct_iff

def twoAlternates : Configuration where
  wTotalLength := 41
  raw := List.replicate 41 0
  interfaces := [⟨[⟨[⟨0x87, 3, 8⟩]⟩, ⟨[⟨0x87, 3, 8⟩]⟩]⟩]
  length_raw := List.length_replicate

/-- The endpoint is registered as `0x81` and as `0x82`: its packets are delivered on
`0x82` only, and it is polled twice. -/
theorem fixEndpoints_twoAlternates :
    (∀ e ∈ twoAlternates.endpoints, 1 ≤ endpointNumber e.bEndpointAddress) ∧
      (fixEndpoints (EndpointMaps.start 0 0) [twoAlternates]).1.registered =
        [(0x87, 0x81), (0x87, 0x82)] ∧
      ¬ (fixEndpoints (EndpointMaps.start 0 0) [twoAlternates]).1.Bijection := by
  have hpolled : ¬ (((List.range endpointMaxNumber).map fun i =>
      (fixEndpoints (EndpointMaps.start 0 0) [twoAlternates]).1.serialToUsb.get
        (0x80 ||| i)).filter (· ≠ 0)).Nodup := by
    decide +kernel
  exact ⟨by decide +kernel, by decide +kernel, fun h => hpolled h.polled⟩

end SerialUsb
