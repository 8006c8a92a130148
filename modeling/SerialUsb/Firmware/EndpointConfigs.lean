import SerialUsb.Firmware.Outputs
import SerialUsb.Memory.Copy

/-!
# The uploaded endpoints

The array `endpoints` read back: the entries that were uploaded, and entries that mark the
end behind them.
-/

namespace SerialUsb

open Memory

theorem EndpointConfig.length_bytes (c : EndpointConfig) : c.bytes.length = 3 := rfl

theorem EndpointConfig.ofBytes_bytes_append (c : EndpointConfig) (rest : List UInt8) :
    EndpointConfig.ofBytes (c.bytes ++ rest) = c := by
  cases c
  simp [EndpointConfig.ofBytes, EndpointConfig.bytes]

theorem readConfigs_replicate (n m : ℕ) :
    readConfigs n (List.replicate m 0) = List.replicate n ⟨0, 0, 0⟩ := by
  induction n generalizing m with
  | zero => rfl
  | succ n ih =>
      have hzero : EndpointConfig.ofBytes (List.replicate m 0) = ⟨0, 0, 0⟩ := by
        have hget : ∀ i, (List.replicate m (0 : UInt8)).getD i 0 = 0 := by
          intro i
          rw [List.getD_eq_getElem?_getD, List.getElem?_replicate]
          split <;> rfl
        simp only [EndpointConfig.ofBytes, hget]
      rw [readConfigs, hzero, List.drop_replicate, ih, List.replicate_succ]

theorem readConfigs_flatMap (cs : List EndpointConfig) {n : ℕ} (h : cs.length ≤ n) (m : ℕ) :
    readConfigs n (cs.flatMap EndpointConfig.bytes ++ List.replicate m 0) =
      cs ++ List.replicate (n - cs.length) ⟨0, 0, 0⟩ := by
  induction cs generalizing n with
  | nil =>
      rw [List.flatMap_nil, List.nil_append, List.nil_append, readConfigs_replicate]
      rfl
  | cons c cs ih =>
      obtain ⟨k, rfl⟩ : ∃ k, n = k + 1 := Nat.exists_eq_succ_of_ne_zero (by
        rw [List.length_cons] at h
        omega)
      rw [List.length_cons] at h
      rw [List.flatMap_cons, List.append_assoc, readConfigs, EndpointConfig.ofBytes_bytes_append,
        List.drop_left' c.length_bytes, ih (Nat.le_of_succ_le_succ h), List.length_cons,
        Nat.add_sub_add_right, List.cons_append]

theorem Upload.configs_of_filled {u : Upload} {cs : List EndpointConfig}
    (hfilled : Filled u.endpoints (cs.flatMap EndpointConfig.bytes))
    (hle : cs.length ≤ maxEndpoints) :
    u.configs = cs ++ List.replicate (maxEndpoints - cs.length) ⟨0, 0, 0⟩ := by
  rw [Upload.configs, hfilled, readConfigs_flatMap cs hle]

end SerialUsb
