import SerialUsb.Firmware.Interrupt

/-!
# The IN packet of the firmware

`SendNextInput` in the steps between which the interrupt can run: the test, the steps of
`Endpoint_Write_Stream_LE`, `Endpoint_ClearIN`, the store into `input.endpoint` and the two
bytes of the acknowledgement.

The stream write releases a bank that is full while bytes are left, lets `USB_USBTask` run and
waits for the next bank. An error of this wait ends it with bytes left over, and
`SendNextInput` looks at no error: the rest is dropped, and acknowledged. Its first wait comes
right behind the test, when the bank is ready.
-/

namespace SerialUsb

open Memory

/-- Where the main loop is in `SendNextInput`; in the stream write with the selected endpoint,
how many bytes it has to write and has released, and those in the bank. -/
inductive InputPhase where
  | idle
  | writing (endpoint : UInt8) (length released : ℕ) (bank : List UInt8)
  | inTask (endpoint : UInt8) (length released : ℕ)
  | waiting (endpoint : UInt8) (length released : ℕ)
  | failed (endpoint : UInt8)
  | cleared
  | acking
  | ackLength
  deriving DecidableEq

/-- What a step of `SendNextInput` leaves: the statics, the next step, the endpoint
and the packet released to the host if it did that, and the bytes sent. -/
structure InputStep where
  fw : Firmware
  phase : InputPhase
  released : Option (UInt8 × List UInt8)
  sent : List UInt8

/-- A step of `SendNextInput`, for banks of these sizes. `inReady` is what `Endpoint_IsINReady`
returns; for `Endpoint_WaitUntilReady`, whether it comes back without an error. -/
def sendNextInput (size : UInt8 → ℕ) (fw : Firmware) (inReady : Bool) :
    InputPhase → InputStep
  | .idle =>
      if fw.input.input[0] ≠ 0 ∧ inReady = true then
        ⟨fw, .writing fw.input.input[0] fw.input.inputDataLen.toNat 0 [], none, []⟩
      else ⟨fw, .idle, none, []⟩
  | .writing endpoint length released bank =>
      if released + bank.length < length then
        if bank.length < size endpoint then
          ⟨fw, .writing endpoint length released
            (bank ++ [fw.input.input.toList.getD (1 + (released + bank.length)) 0]), none, []⟩
        else
          -- the bank is full
          ⟨fw, .inTask endpoint length (released + bank.length), some (endpoint, bank), []⟩
      else ⟨fw, .cleared, some (endpoint, bank), []⟩
  | .inTask endpoint length released => ⟨fw, .waiting endpoint length released, none, []⟩
  | .waiting endpoint length released =>
      if inReady = true then ⟨fw, .writing endpoint length released [], none, []⟩
      else ⟨fw, .failed endpoint, none, []⟩
  | .failed endpoint =>
      -- `Endpoint_ClearIN` finds a bank only if one has become free meanwhile
      ⟨fw, .cleared, if inReady = true then some (endpoint, []) else none, []⟩
  | .cleared =>
      ⟨{ fw with input := { fw.input with input := fw.input.input.set 0 0 } }, .acking, none, []⟩
  | .acking => ⟨fw, .ackLength, none, [PacketType.eTypeIn.toByte]⟩
  | .ackLength => ⟨fw, .idle, none, [0]⟩

def InputBuffer.endpoint (i : InputBuffer) : UInt8 := i.input[0]

theorem InputBuffer.endpoint_clear (i : InputBuffer) :
    ({ i with input := i.input.set 0 0 } : InputBuffer).endpoint = 0 := by
  simp [InputBuffer.endpoint]

section Steps

variable {size : UInt8 → ℕ}

/-- Nothing but `input.endpoint = 0` changes the input buffer. -/
theorem sendNextInput_input (fw : Firmware) (inReady : Bool) {phase : InputPhase}
    (h : phase ≠ .cleared) : (sendNextInput size fw inReady phase).fw = fw := by
  unfold sendNextInput
  cases phase with
  | idle => dsimp only; split <;> rfl
  | writing endpoint length released bank => dsimp only; split <;> (try split) <;> rfl
  | waiting endpoint length released => dsimp only; split <;> rfl
  | cleared => exact absurd rfl h
  | _ => rfl

theorem sendNextInput_halted (fw : Firmware) (inReady : Bool) (phase : InputPhase) :
    (sendNextInput size fw inReady phase).fw.halted = fw.halted := by
  by_cases h : phase = .cleared
  · rw [h]
    rfl
  · rw [sendNextInput_input fw inReady h]

theorem sendNextInput_empty {fw : Firmware} (h : fw.input.endpoint = 0) (inReady : Bool) :
    sendNextInput size fw inReady .idle = ⟨fw, .idle, none, []⟩ := by
  rw [sendNextInput, if_neg]
  exact fun hcond => hcond.1 h

theorem sendNextInput_busy (fw : Firmware) :
    sendNextInput size fw false .idle = ⟨fw, .idle, none, []⟩ := by
  rw [sendNextInput, if_neg]
  exact fun hcond => Bool.false_ne_true hcond.2

end Steps

structure InputBuffer.Holds (i : InputBuffer) (endpoint : UInt8) (payload : List UInt8) :
    Prop where
  input : i.input.toList.take (endpoint :: payload).length = endpoint :: payload
  inputDataLen : i.inputDataLen.toNat = payload.length

theorem InputBuffer.holds_read (i : InputBuffer) (endpoint : UInt8) {payload : List UInt8}
    (h : payload.length ≤ maxPayloadSizeEp) :
    (i.read (endpoint :: payload)).Holds endpoint payload := by
  rw [maxPayloadSizeEp_eq] at h
  constructor
  · apply toList_take_copyAt_zero
    rw [List.length_cons, maxPayloadSizeEp_eq]
    omega
  · have hbyte : UInt8.ofNat (endpoint :: payload).length - 1 = UInt8.ofNat payload.length := by
      rw [List.length_cons, UInt8.ofNat_add]
      exact UInt8.add_sub_cancel _ _
    change (UInt8.ofNat (endpoint :: payload).length - 1).toNat = _
    rw [hbyte, UInt8.toNat_ofNat']
    omega

theorem InputBuffer.Holds.endpoint_eq {i : InputBuffer} {endpoint : UInt8}
    {payload : List UInt8} (h : i.Holds endpoint payload) : i.endpoint = endpoint := by
  have hget := congrArg (fun l => l[0]?) h.input
  simpa [InputBuffer.endpoint] using hget

theorem InputBuffer.Holds.getD {i : InputBuffer} {endpoint : UInt8} {payload : List UInt8}
    (h : i.Holds endpoint payload) {n : ℕ} (hn : n < payload.length) :
    i.input.toList.getD (1 + n) 0 = payload[n] := by
  have hget := congrArg (fun l => l[1 + n]?) h.input
  have hlt : 1 + n < (endpoint :: payload).length := by
    rw [List.length_cons]
    omega
  rw [Nat.add_comm 1 n] at hget hlt ⊢
  simp only [List.getElem?_take, hlt, if_true, List.getElem?_cons_succ,
    List.getElem?_eq_getElem hn] at hget
  rw [List.getD_eq_getElem?_getD, hget, Option.getD_some]

section Held

variable {size : UInt8 → ℕ} {fw : Firmware} {endpoint : UInt8} {payload : List UInt8}

theorem sendNextInput_ready (h : fw.input.Holds endpoint payload) (hne : endpoint ≠ 0) :
    sendNextInput size fw true .idle = ⟨fw, .writing endpoint payload.length 0 [], none, []⟩ := by
  have hzero : fw.input.input[0] = endpoint := h.endpoint_eq
  rw [sendNextInput, if_pos ⟨hzero.symm ▸ hne, rfl⟩, hzero, h.inputDataLen]

/-- A byte of a payload that fits the bank goes there. -/
theorem sendNextInput_writing (h : fw.input.Holds endpoint payload)
    (hfits : payload.length ≤ size endpoint) {n : ℕ} (hn : n < payload.length) (inReady : Bool) :
    sendNextInput size fw inReady (.writing endpoint payload.length 0 (payload.take n)) =
      ⟨fw, .writing endpoint payload.length 0 (payload.take (n + 1)), none, []⟩ := by
  have hlength : (payload.take n).length = n := by
    rw [List.length_take, Nat.min_eq_left (Nat.le_of_lt hn)]
  rw [sendNextInput, hlength, Nat.zero_add, if_pos hn, if_pos (hn.trans_le hfits), h.getD hn,
    List.take_succ_eq_append_getElem hn]

theorem sendNextInput_written (inReady : Bool) :
    sendNextInput size fw inReady (.writing endpoint payload.length 0 payload) =
      ⟨fw, .cleared, some (endpoint, payload), []⟩ := by
  rw [sendNextInput, Nat.zero_add, if_neg (Nat.lt_irrefl _)]

end Held

end SerialUsb
