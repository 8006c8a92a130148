import SerialUsb.System.Configuration
import SerialUsb.System.OutPath
import SerialUsb.Transition.Progress

/-!
# No OUT packet waits for ever

`ReceiveNextOutput` takes the endpoints of the list in turn, one for each call. A packet in the
bank of a listed endpoint is taken out when its turn comes, after a number of steps that depends
on the length of the list and the sizes of the endpoints alone, whatever the target host sends
to the other endpoints.
-/

namespace SerialUsb

open Memory Transition

def OutputPhase.left : OutputPhase → ℕ
  | .idle => 0
  | .selected c => c.size.toNat + 6
  | .received c => c.size.toNat + 5
  | .reading c data => c.size.toNat - data.length + 4
  | .inTask _ _ => 3
  | .returned _ _ _ => 2
  | .sending _ _ => 1

def OutputPhase.endpoint? : OutputPhase → Option UInt8
  | .selected c | .received c | .reading c _ | .inTask c _ | .returned c _ _ => some c.number
  | .idle | .sending _ _ => none

/-- How many calls select another entry of the list before entry `k`. -/
def Outputs.before (o : Outputs) (k : ℕ) : ℕ :=
  if o.selectedOutEndpoint.toNat ≤ k then k - o.selectedOutEndpoint.toNat
  else k + o.outEndpointNumber.toNat - o.selectedOutEndpoint.toNat

structure OutPath.Lists (size k : ℕ) (c : EndpointConfig) (s : OutPath) : Prop where
  selected_lt : s.outputs.selectedOutEndpoint.toNat < s.outputs.outEndpointNumber.toNat
  lt : k < s.outputs.outEndpointNumber.toNat
  entry : s.configs.getD (s.outputs.outEndpoints.toList.getD k 0).toNat ⟨0, 0, 0⟩ = c
  sizes : ∀ x ∈ s.configs, x.size.toNat ≤ size
  left_le : s.phase.left ≤ size + 6

def OutPath.Holds (e : UInt8) (packet : List UInt8) (n : ℕ) (s : OutPath) : Prop :=
  (payloadsOf e s.released).length = n ∧ (s.banks e).map Bank.packet = some packet ∨
    (payloadsOf e s.released)[n]? = some packet

def OutPath.left (size k : ℕ) (e : UInt8) (n : ℕ) (s : OutPath) : ℕ :=
  if n < (payloadsOf e s.released).length then 0
  else if s.phase.endpoint? = some e then s.phase.left
  else (s.outputs.before k + 1) * (size + 7) + s.phase.left

def OutEvent.isMainLoop : OutEvent → Bool
  | .mainLoop => true
  | .arrive _ _ | .other _ => false

section Step

variable {configs : List EndpointConfig} {outputs : Outputs} {banks : Banks} {phase : OutputPhase}
  {e : UInt8} {b : Bank}

theorem clearOut_of_some (hb : banks e = some b) (endpoint : UInt8) :
    (clearOut banks endpoint).2 = some (e, b.packet) ∨
      (clearOut banks endpoint).1 e = some b ∧ ∀ x ∈ (clearOut banks endpoint).2, x.1 ≠ e := by
  by_cases he : endpoint = e
  · left
    rw [clearOut, he, hb]
    rfl
  · right
    rw [clearOut]
    refine ⟨(Function.update_of_ne (Ne.symm he) _ _).trans hb, fun x hx => ?_⟩
    obtain ⟨_, _, rfl⟩ := Option.map_eq_some_iff.1 hx
    exact he

theorem receiveNextOutput_bank (configs : List EndpointConfig) (outputs : Outputs)
    (phase : OutputPhase) (hb : banks e = some b) :
    (receiveNextOutput configs outputs banks phase).released = some (e, b.packet) ∨
      (∃ b', (receiveNextOutput configs outputs banks phase).banks e = some b' ∧
        b'.packet = b.packet) ∧
      ∀ x ∈ (receiveNextOutput configs outputs banks phase).released, x.1 ≠ e := by
  cases phase with
  | idle =>
      right
      simp only [receiveNextOutput]
      split <;> exact ⟨⟨b, hb, rfl⟩, by simp⟩
  | selected c => exact Or.inr ⟨⟨b, hb, rfl⟩, by simp [receiveNextOutput]⟩
  | received c => exact Or.inr ⟨⟨b, hb, rfl⟩, by simp [receiveNextOutput]⟩
  | reading c data =>
      rw [receiveNextOutput]
      split
      · split
        next packet byte unread hbank =>
          -- a byte is taken from the packet, which stays the one in the bank
          right
          refine ⟨?_, by simp⟩
          by_cases he : c.number = e
          · subst he
            obtain rfl := Option.some.inj (hb.symm.trans hbank)
            exact ⟨_, Function.update_self _ _ _, rfl⟩
          · exact ⟨b, (Function.update_of_ne (Ne.symm he) _ _).trans hb, rfl⟩
        next =>
          rcases clearOut_of_some hb c.number with hreleased | ⟨hkept, hother⟩
          · exact Or.inl hreleased
          · exact Or.inr ⟨⟨b, hkept, rfl⟩, hother⟩
      · exact Or.inr ⟨⟨b, hb, rfl⟩, by simp⟩
  | inTask c data => exact Or.inr ⟨⟨b, hb, rfl⟩, by simp [receiveNextOutput]⟩
  | returned c data short =>
      rw [receiveNextOutput]
      rcases clearOut_of_some hb c.number with hreleased | ⟨hkept, hother⟩
      · exact Or.inl hreleased
      · exact Or.inr ⟨⟨b, hkept, rfl⟩, hother⟩
  | sending c data =>
      right
      rw [receiveNextOutput]
      split <;> exact ⟨⟨b, hb, rfl⟩, by simp⟩

theorem receiveNextOutput_idle (configs : List EndpointConfig) (banks : Banks)
    {outputs' : Outputs} {i : UInt8} (h : outputs.selectNext = (outputs', some i)) :
    receiveNextOutput configs outputs banks .idle =
      ⟨outputs', banks, .selected (configs.getD i.toNat ⟨0, 0, 0⟩), none, none, []⟩ := by
  rw [receiveNextOutput, h]

/-- Inside of a call a step brings it nearer to its end. -/
theorem receiveNextOutput_left (configs : List EndpointConfig) (outputs : Outputs)
    (banks : Banks) (hphase : phase ≠ .idle) :
    (receiveNextOutput configs outputs banks phase).outputs = outputs ∧
      (receiveNextOutput configs outputs banks phase).phase.left < phase.left := by
  cases phase with
  | idle => exact absurd rfl hphase
  | selected c =>
      rw [receiveNextOutput]
      split <;> exact ⟨rfl, by simp [OutputPhase.left]⟩
  | received c =>
      rw [receiveNextOutput]
      refine ⟨rfl, ?_⟩
      dsimp only
      split <;> simp [OutputPhase.left]
  | reading c data =>
      rw [receiveNextOutput]
      split
      · split
        · refine ⟨rfl, ?_⟩
          simp only [OutputPhase.left, List.length_append, List.length_singleton]
          omega
        · refine ⟨rfl, ?_⟩
          simp only [OutputPhase.left]
          omega
      · refine ⟨rfl, ?_⟩
        simp only [OutputPhase.left]
        omega
  | inTask c data => exact ⟨rfl, by simp [receiveNextOutput, OutputPhase.left]⟩
  | returned c data short => exact ⟨rfl, by simp [receiveNextOutput, OutputPhase.left]⟩
  | sending c data =>
      rw [receiveNextOutput]
      split <;> exact ⟨rfl, by simp [OutputPhase.left]⟩

theorem receiveNextOutput_endpoint (configs : List EndpointConfig) (outputs : Outputs)
    (hb : banks e = some b) (hphase : phase ≠ .idle) :
    (receiveNextOutput configs outputs banks phase).released = some (e, b.packet) ∨
      ((receiveNextOutput configs outputs banks phase).phase.endpoint? = some e ↔
        phase.endpoint? = some e) := by
  cases phase with
  | idle => exact absurd rfl hphase
  | selected c =>
      right
      rw [receiveNextOutput]
      split
      next => exact Iff.rfl
      next hbank =>
        refine iff_of_false (by simp [OutputPhase.endpoint?]) ?_
        rintro ⟨⟩
        simp [hb] at hbank
  | received c =>
      right
      rw [receiveNextOutput]
      dsimp only
      split <;> rfl
  | reading c data =>
      right
      rw [receiveNextOutput]
      split
      · split <;> rfl
      · rfl
  | inTask c data => exact Or.inr Iff.rfl
  | returned c data short =>
      rw [receiveNextOutput]
      by_cases he : c.number = e
      · left
        rw [clearOut, he, hb]
        rfl
      · right
        simp [OutputPhase.endpoint?, he]
  | sending c data =>
      right
      rw [receiveNextOutput]
      split <;> rfl

end Step

/-- The choice of an endpoint brings entry `k` of the list nearer, or it is entry `k`. -/
theorem Outputs.before_selectNext {o : Outputs} {k : ℕ}
    (hlt : o.selectedOutEndpoint.toNat < o.outEndpointNumber.toNat)
    (hk : k < o.outEndpointNumber.toNat) :
    o.selectNext.2 = some (o.outEndpoints.toList.getD o.selectedOutEndpoint.toNat 0) ∧
      o.selectNext.1.outEndpoints = o.outEndpoints ∧
      o.selectNext.1.outEndpointNumber = o.outEndpointNumber ∧
      o.selectNext.1.selectedOutEndpoint.toNat < o.outEndpointNumber.toNat ∧
      (o.before k = 0 ∧ o.selectedOutEndpoint.toNat = k ∨
        o.selectNext.1.before k + 1 = o.before k) := by
  have hpos : 0 < o.outEndpointNumber := (Nat.zero_le _).trans_lt hlt
  have hbound := o.outEndpointNumber.toNat_lt
  have hnext : (o.selectedOutEndpoint + 1).toNat = o.selectedOutEndpoint.toNat + 1 := by
    rw [UInt8.toNat_add]
    change (o.selectedOutEndpoint.toNat + 1) % 256 = _
    omega
  have hcursor : o.selectNext.1.selectedOutEndpoint.toNat =
      if o.selectedOutEndpoint.toNat + 1 = o.outEndpointNumber.toNat then 0
      else o.selectedOutEndpoint.toNat + 1 := by
    rw [Outputs.selectNext, if_pos hpos]
    dsimp only
    rw [← hnext]
    by_cases hend : o.selectedOutEndpoint + 1 = o.outEndpointNumber
    · rw [if_pos hend, if_pos (congrArg UInt8.toNat hend)]
      rfl
    · rw [if_neg hend, if_neg fun heq => hend (UInt8.toNat_inj.1 heq)]
  have hnumber : o.selectNext.1.outEndpointNumber = o.outEndpointNumber := by
    rw [Outputs.selectNext, if_pos hpos]
  refine ⟨by rw [Outputs.selectNext, if_pos hpos], by rw [Outputs.selectNext, if_pos hpos], hnumber,
    ?_, ?_⟩
  · rw [hcursor]
    split <;> omega
  · rw [Outputs.before, Outputs.before, hcursor, hnumber]
    split <;> split <;> split <;> omega

section Run

variable {size k n : ℕ} {c : EndpointConfig} {packet : List UInt8} {s t : OutPath}

theorem OutPath.Holds.mainLoop (h : s.Holds c.number packet n)
    (hnot : ¬ n < (payloadsOf c.number s.released).length) (ht : s.next .mainLoop = some t) :
    ∃ b, s.banks c.number = some b ∧ b.packet = packet ∧
      ((receiveNextOutput s.configs s.outputs s.banks s.phase).released = some (c.number, packet) ∧
          payloadsOf c.number t.released = payloadsOf c.number s.released ++ [packet] ∨
        (receiveNextOutput s.configs s.outputs s.banks s.phase).released ≠
            some (c.number, b.packet) ∧
          payloadsOf c.number t.released = payloadsOf c.number s.released ∧
          (t.banks c.number).map Bank.packet = some packet) := by
  obtain ⟨_, hbank⟩ := h.resolve_right fun hget => by
    obtain ⟨hlt, _⟩ := List.getElem?_eq_some_iff.1 hget
    exact hnot hlt
  obtain ⟨b, hb, rfl⟩ := Option.map_eq_some_iff.1 hbank
  obtain rfl := Option.some.inj ht
  refine ⟨b, hb, rfl, ?_⟩
  rcases receiveNextOutput_bank s.configs s.outputs s.phase hb with
    hreleased | ⟨⟨b', hb', hpacket⟩, hother⟩
  · left
    refine ⟨hreleased, ?_⟩
    dsimp only
    rw [hreleased, Option.toList_some, payloadsOf_concat_self]
  · right
    refine ⟨fun hreleased => hother _ hreleased rfl, ?_, ?_⟩
    · dsimp only
      cases hcase : (receiveNextOutput s.configs s.outputs s.banks s.phase).released with
      | none => rw [Option.toList_none, List.append_nil]
      | some x => rw [Option.toList_some, payloadsOf_concat, if_neg (hother x hcase), List.append_nil]
    · dsimp only
      rw [hb', Option.map_some, hpacket]

structure OutPath.Keeps (size k : ℕ) (c : EndpointConfig) (packet : List UInt8) (n : ℕ)
    (s : OutPath) : Prop where
  lists : s.Lists size k c
  holds : s.Holds c.number packet n

theorem OutPath.Lists.next (h : s.Lists size k c) {e : OutEvent} (ht : s.next e = some t) :
    t.Lists size k c := by
  cases e with
  | arrive endpoint packet =>
      obtain ⟨_, harrive⟩ := Option.ite_none_right_eq_some.1 ht
      obtain rfl := Option.some.inj harrive
      exact ⟨h.selected_lt, h.lt, h.entry, h.sizes, h.left_le⟩
  | other f =>
      obtain ⟨_, hother⟩ := Option.ite_none_right_eq_some.1 ht
      obtain rfl := Option.some.inj hother
      exact ⟨h.selected_lt, h.lt, h.entry, h.sizes, h.left_le⟩
  | mainLoop =>
      obtain rfl := Option.some.inj ht
      by_cases hidle : s.phase = .idle
      · obtain ⟨hindex, hendpoints, hnumber, hselected, _⟩ :=
          Outputs.before_selectNext h.selected_lt h.lt
        rw [hidle]
        simp only [receiveNextOutput]
        split
        next outputs hnext => simp [hnext] at hindex
        next outputs i hnext =>
          rw [hnext] at hendpoints hnumber hselected
          refine ⟨by rwa [hnumber], by rw [hnumber]; exact h.lt, ?_, h.sizes, ?_⟩
          · rw [hendpoints]
            exact h.entry
          · refine Nat.add_le_add_right ?_ 6
            rw [List.getD_eq_getElem?_getD]
            cases hget : s.configs[i.toNat]? with
            | none => exact Nat.zero_le _
            | some x => exact h.sizes x (List.mem_of_getElem? hget)
      · obtain ⟨houtputs, hlt⟩ := receiveNextOutput_left s.configs s.outputs s.banks hidle
        constructor
        case selected_lt => rw [houtputs]; exact h.selected_lt
        case lt => rw [houtputs]; exact h.lt
        case entry => rw [houtputs]; exact h.entry
        case sizes => exact h.sizes
        case left_le => exact hlt.le.trans h.left_le

theorem OutPath.Keeps.next (h : s.Keeps size k c packet n) {e : OutEvent}
    (ht : s.next e = some t) : t.Keeps size k c packet n where
  lists := h.lists.next ht
  holds := by
    have hholds := h.holds
    cases e with
    | arrive endpoint x =>
        obtain ⟨haccepts, harrive⟩ := Option.ite_none_right_eq_some.1 ht
        obtain rfl := Option.some.inj harrive
        refine hholds.imp_left fun ⟨hcount, hbank⟩ => ⟨hcount, ?_⟩
        have hother : c.number ≠ endpoint := by
          rintro rfl
          rw [haccepts.2.1] at hbank
          exact absurd hbank (by simp)
        dsimp only
        rwa [Function.update_of_ne hother]
    | other f =>
        obtain ⟨_, hother⟩ := Option.ite_none_right_eq_some.1 ht
        obtain rfl := Option.some.inj hother
        exact hholds
    | mainLoop =>
        by_cases hdone : n < (payloadsOf c.number s.released).length
        · right
          rw [OutPath.Holds, or_iff_right fun hcase => absurd hcase.1 hdone.ne'] at hholds
          rw [← Option.some.inj ht]
          dsimp only
          rw [payloadsOf_append, List.getElem?_append_left hdone]
          exact hholds
        · have hcount := (hholds.resolve_right fun hget => by
            obtain ⟨hlt, _⟩ := List.getElem?_eq_some_iff.1 hget
            exact hdone hlt).1
          obtain ⟨_, _, _, ⟨_, hreleased⟩ | ⟨_, hreleased, hbank⟩⟩ := hholds.mainLoop hdone ht
          · right
            rw [hreleased, List.getElem?_append_right hcount.le, hcount, Nat.sub_self]
            rfl
          · exact Or.inl ⟨by rw [hreleased, hcount], hbank⟩

/-- A step of the main loop brings the packet nearer to its release, the others do not put it
off. -/
theorem OutPath.Keeps.left_next (h : s.Keeps size k c packet n) {e : OutEvent}
    (ht : s.next e = some t) :
    t.left size k c.number n ≤ s.left size k c.number n ∧
      (¬ n < (payloadsOf c.number s.released).length ∧ e.isMainLoop = true →
        t.left size k c.number n < s.left size k c.number n) := by
  cases e with
  | arrive endpoint x =>
      obtain ⟨_, harrive⟩ := Option.ite_none_right_eq_some.1 ht
      obtain rfl := Option.some.inj harrive
      exact ⟨Nat.le_refl _, fun hmain => absurd hmain.2 (by simp [OutEvent.isMainLoop])⟩
  | other f =>
      obtain ⟨_, hother⟩ := Option.ite_none_right_eq_some.1 ht
      obtain rfl := Option.some.inj hother
      exact ⟨Nat.le_refl _, fun hmain => absurd hmain.2 (by simp [OutEvent.isMainLoop])⟩
  | mainLoop =>
      by_cases hdone : n < (payloadsOf c.number s.released).length
      · have hdone' : n < (payloadsOf c.number t.released).length := by
          rw [← Option.some.inj ht]
          dsimp only
          rw [payloadsOf_append, List.length_append]
          omega
        rw [OutPath.left, if_pos hdone']
        exact ⟨Nat.zero_le _, fun hmain => absurd hdone hmain.1⟩
      · suffices hlt : t.left size k c.number n < s.left size k c.number n from ⟨hlt.le, fun _ => hlt⟩
        have hcount := (h.holds.resolve_right fun hget => by
          obtain ⟨hlt, _⟩ := List.getElem?_eq_some_iff.1 hget
          exact hdone hlt).1
        obtain ⟨b, hb, rfl, hcases⟩ := h.holds.mainLoop hdone ht
        rw [OutPath.left.eq_1 size k c.number n s, if_neg hdone]
        by_cases hidle : s.phase = .idle
        · obtain ⟨hindex, _, _, _, hturn⟩ := Outputs.before_selectNext h.lists.selected_lt h.lists.lt
          have hleft := (h.lists.next ht).left_le
          have hstep := receiveNextOutput_idle s.configs s.banks (Prod.ext rfl hindex)
          have hphase : t.phase = .selected (s.configs.getD (s.outputs.outEndpoints.toList.getD
              s.outputs.selectedOutEndpoint.toNat 0).toNat ⟨0, 0, 0⟩) := by
            rw [← Option.some.inj ht, hidle, hstep]
          have houtputs : t.outputs = s.outputs.selectNext.1 := by
            rw [← Option.some.inj ht, hidle, hstep]
          have hreleased : t.released = s.released := by
            rw [← Option.some.inj ht, hidle, hstep]
            exact List.append_nil _
          have hnone : OutputPhase.idle.endpoint? ≠ some c.number := by simp [OutputPhase.endpoint?]
          have hturns : (s.outputs.before k + 1) * (size + 7) =
              s.outputs.before k * (size + 7) + (size + 7) := Nat.succ_mul _ _
          rw [OutPath.left, hreleased, if_neg hdone, houtputs, hidle, if_neg hnone, OutputPhase.left,
            Nat.add_zero, hturns]
          rcases hturn with ⟨_, hsame⟩ | hnearer
          · -- entry `k` is the one that is selected
            have hentry : t.phase.endpoint? = some c.number := by
              rw [hphase, hsame, h.lists.entry]
              rfl
            rw [if_pos hentry]
            omega
          · rw [hnearer]
            split <;> omega
        · obtain ⟨houtputs, hless⟩ := receiveNextOutput_left s.configs s.outputs s.banks hidle
          have hendpoint := receiveNextOutput_endpoint s.configs s.outputs hb hidle
          rcases hcases with ⟨hreleased, hpackets⟩ | ⟨hkept, hpackets, _⟩
          · rw [OutPath.left, if_pos (by rw [hpackets, List.length_append, hcount]; exact Nat.lt_succ_self _)]
            have hpos : 0 < s.phase.left := (Nat.zero_le _).trans_lt hless
            split <;> omega
          · have hsame := hendpoint.resolve_left hkept
            obtain rfl := Option.some.inj ht
            rw [OutPath.left, if_neg (by rwa [hpackets])]
            dsimp only
            rw [houtputs]
            simp only [hsame]
            split <;> omega

theorem OutPath.measures (size k : ℕ) (c : EndpointConfig) (packet : List UInt8) (n : ℕ) :
    Measures OutPath.next
      (fun s e => ¬ n < (payloadsOf c.number s.released).length ∧ e.isMainLoop = true)
      (OutPath.Keeps size k c packet n) (OutPath.left size k c.number n) where
  keeps := fun _ _ _ h ht => h.next ht
  le := fun _ _ _ h ht => (h.left_next ht).1
  lt := fun _ _ _ h ht hmain => (h.left_next ht).2 hmain

theorem OutPath.released_isPrefix {e : OutEvent} (ht : s.next e = some t) :
    s.released <+: t.released := by
  cases e with
  | arrive endpoint packet =>
      obtain ⟨_, harrive⟩ := Option.ite_none_right_eq_some.1 ht
      obtain rfl := Option.some.inj harrive
      exact List.prefix_rfl
  | mainLoop =>
      obtain rfl := Option.some.inj ht
      exact List.prefix_append _ _
  | other f =>
      obtain ⟨_, hother⟩ := Option.ite_none_right_eq_some.1 ht
      obtain rfl := Option.some.inj hother
      exact List.prefix_rfl

theorem OutPath.Lists.left_le_of (h : s.Lists size k c) (n : ℕ) :
    s.left size k c.number n < (s.outputs.outEndpointNumber.toNat + 1) * (size + 7) := by
  have hleft := h.left_le
  have hbefore : s.outputs.before k + 1 ≤ s.outputs.outEndpointNumber.toNat := by
    have hlt := h.lt
    have hselected := h.selected_lt
    rw [Outputs.before]
    split <;> omega
  have hturns := Nat.mul_le_mul_right (size + 7) hbefore
  rw [Nat.succ_mul, OutPath.left]
  split
  · omega
  · split <;> omega

theorem Outputs.Lists.exists_lists (h : s.outputs.Lists s.configs)
    (hsizes : ∀ x ∈ s.configs, x.size.toNat ≤ size) (hphase : s.phase = .idle) {i : UInt8}
    (hc : (s.configs.takeWhile fun c => c.number != 0)[i.toNat]? = some c) (hout : c.isOut = true) :
    ∃ k, s.Lists size k c := by
  obtain ⟨k, hk, hget⟩ := List.mem_iff_getElem.1 ((h.mem_iff i).2 ⟨c, hc, hout⟩)
  have hlt := hk
  rw [Outputs.length_listed h.number_le] at hlt
  have hne : s.outputs.outEndpointNumber ≠ 0 := by
    intro hzero
    rw [hzero] at hlt
    exact absurd hlt (Nat.not_lt_zero _)
  refine ⟨k, h.selected_lt hne, hlt, ?_, hsizes, by rw [hphase]; exact Nat.zero_le _⟩
  have hentry : s.outputs.outEndpoints.toList.getD k 0 = i := by
    rw [← hget, List.getD_eq_getElem?_getD, ← List.getElem?_take_of_lt hlt]
    exact congrArg (·.getD 0) (List.getElem?_eq_getElem hk)
  obtain ⟨hi, hcget⟩ := List.getElem?_eq_some_iff.1 hc
  have hprefix := List.takeWhile_prefix (l := s.configs) fun c : EndpointConfig => c.number != 0
  rw [hentry, List.getD_eq_getElem?_getD, List.getElem?_eq_getElem (hi.trans_le hprefix.length_le),
    ← hprefix.getElem hi, hcget, Option.getD_some]

theorem payloadsOf_filter (e : UInt8) (l : List (UInt8 × List UInt8)) :
    payloadsOf e (l.filter fun x => x.2 ≠ []) = (payloadsOf e l).filter (· ≠ []) := by
  induction l with
  | nil => rfl
  | cons x l ih =>
      rw [← List.singleton_append, payloadsOf_append, List.filter_append, List.filter_append,
        payloadsOf_append, ih]
      congr 1
      by_cases hempty : x.2 = []
      · by_cases he : x.1 = e <;> simp [payloadsOf, hempty, he]
      · by_cases he : x.1 = e <;> simp [payloadsOf, hempty, he]

end Run

/-- In every state of every run of the OUT side:

* a packet in the bank of a listed OUT endpoint is the next packet of its endpoint that the
  firmware takes out of a bank, after at most `size + 7` steps of the main loop for each endpoint
  of the list and one more, with `size` the largest of their sizes, whatever the target host
  sends meanwhile;
* and if no packet is accepted between two `Endpoint_ClearOUT` for a short one, what was taken
  out of an endpoint has been sent to the proxy when the call of `ReceiveNextOutput` returns, but
  for empty packets. -/
theorem outPath_progress {s₀ : OutPath} (hfresh : s₀.Fresh) {es : List OutEvent} {s : OutPath}
    (hrun : exec OutPath.next s₀ es = some s) :
    (s₀.outputs.Lists s₀.configs → ∀ size : ℕ, (∀ x ∈ s₀.configs, x.size.toNat ≤ size) →
      ∀ (i : UInt8) (c : EndpointConfig),
        (s₀.configs.takeWhile fun c => c.number != 0)[i.toNat]? = some c → c.isOut = true →
          ∀ b : Bank, s.banks c.number = some b → ∀ es' t, exec OutPath.next s es' = some t →
            (s.outputs.outEndpointNumber.toNat + 1) * (size + 7) ≤
              es'.countP OutEvent.isMainLoop →
            (payloadsOf c.number t.released)[(payloadsOf c.number s.released).length]? =
              some b.packet) ∧
    (Along OutPath.next OutPath.NoLateArrival s₀ es → s.phase = .idle → ∀ endpoint,
      payloadsOf endpoint s.sent = (payloadsOf endpoint s.released).filter (· ≠ [])) := by
  constructor
  · intro hlists size hsizes i c hc hout b hb es' t hrun' hcount
    obtain ⟨k, hk⟩ := hlists.exists_lists hsizes hfresh.phase hc hout
    have hlists' : s.Lists size k c :=
      exec_invariant (I := OutPath.Lists size k c) (fun _ _ _ h ht => h.next ht) hk hrun
    have hs : s.Keeps size k c b.packet (payloadsOf c.number s.released).length :=
      ⟨hlists', Or.inl ⟨rfl, by rw [hb, Option.map_some]⟩⟩
    have hreleased := (OutPath.measures size k c b.packet _).of_lt_countP
      (fun _ _ _ ht hG =>
        hG.trans_le (payloadsOf_isPrefix c.number (OutPath.released_isPrefix ht)).length_le)
      hs hrun' ((hlists'.left_le_of _).trans_le hcount)
    have ht : t.Keeps size k c b.packet (payloadsOf c.number s.released).length :=
      exec_invariant (I := OutPath.Keeps size k c b.packet _) (fun _ _ _ h ht => h.next ht) hs hrun'
    exact ht.holds.resolve_left fun hcase => absurd hcase.1 hreleased.ne'
  · intro halong hidle endpoint
    have hs : s.Inv := exec_invariant_along (I := OutPath.Inv)
      (fun _ _ _ h hlate hnext => h.next hlate hnext) hfresh.inv halong hrun
    have haccepted := hs.delivered.accepted endpoint
    rw [OutPath.accepted, payloadsOf_filter, hidle] at haccepted
    rw [haccepted]
    exact (List.append_nil _).symm

theorem oneOutput_lists : oneOutput.outputs.Lists oneOutput.configs where
  number_le := by decide
  nodup := by decide
  mem_iff := by
    intro i
    have hlisted : oneOutput.outputs.listed = [0] := by decide
    have hentry : IsOutEntry oneOutput.configs i.toNat ↔ i.toNat = 0 := by
      have hout : EndpointConfig.isOut ⟨1, 3, 8⟩ = true := rfl
      rw [oneOutput, isOutEntry_cons (by decide)]
      simp [IsOutEntry, hout]
    rw [hlisted, List.mem_singleton, hentry]
    exact ⟨congrArg UInt8.toNat, fun h => UInt8.toNat_inj.1 h⟩
  selected_lt := by decide

/-- A packet of two bytes. -/
theorem outPath_progress_one :
    ∃ s t : OutPath, exec OutPath.next oneOutput [.arrive 1 [5, 6]] = some s ∧
      exec OutPath.next s (List.replicate 30 .mainLoop) = some t ∧
      (payloadsOf 1 t.released)[0]? = some [5, 6] := by
  have hrun : ∃ s, s ∈ exec OutPath.next oneOutput [.arrive 1 [5, 6]] ∧
      ∃ t, t ∈ exec OutPath.next s (List.replicate 30 .mainLoop) ∧
        s.banks 1 = some ⟨[5, 6], [5, 6]⟩ ∧ s.outputs.outEndpointNumber = 1 ∧
          payloadsOf 1 s.released = [] := by
    decide +kernel
  obtain ⟨s, hs, t, ht, hb, hnumber, hreleased⟩ := hrun
  have hsizes : ∀ x ∈ oneOutput.configs, x.size.toNat ≤ 8 := by decide
  have hprogress := (outPath_progress oneOutput_fresh hs).1 oneOutput_lists 8 hsizes 0 ⟨1, 3, 8⟩
    rfl rfl _ hb _ t ht (by rw [hnumber]; decide)
  rw [hreleased] at hprogress
  exact ⟨s, t, hs, ht, hprogress⟩

end SerialUsb
