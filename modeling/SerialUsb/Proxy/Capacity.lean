import SerialUsb.Firmware.Interrupt
import SerialUsb.Proxy.EndpointMaps

/-!
# The capacity of the endpoint table

`fix_endpoints` takes the next element of `endpoints` for every endpoint that passes its
tests. Nothing counts them against `MAX_ENDPOINTS`: renumbering stops at the number 6, and
without it six numbers are left, but alternate settings may repeat them.
-/

namespace SerialUsb

open Framing Memory

/-- The table has room for the endpoints, and the packets that carry it fit the array of
the firmware. -/
structure EndpointMaps.FitsTable (m : EndpointMaps) : Prop where
  endpoints : m.endpoints.length ≤ maxEndpoints
  value : ∀ f ∈ message maxPacketValueSize PacketType.eTypeEndpoints.toByte
    (m.endpoints.flatMap EndpointConfig.bytes), f.value.length ≤ 3 * maxEndpoints
  firmware : ∀ f ∈ message maxPacketValueSize PacketType.eTypeEndpoints.toByte
    (m.endpoints.flatMap EndpointConfig.bytes), ∀ u : Upload,
      (u.readEndpoints f.value).overrun = u.overrun

theorem length_flatMap_endpointConfig (cs : List EndpointConfig) :
    (cs.flatMap EndpointConfig.bytes).length = 3 * cs.length := by
  induction cs with
  | nil => rfl
  | cons c cs ih =>
      rw [List.flatMap_cons, List.length_append, ih, List.length_cons]
      simp only [EndpointConfig.bytes, List.length_cons, List.length_nil]
      omega

theorem EndpointMaps.fitsTable_of_le {m : EndpointMaps} (h : m.endpoints.length ≤ maxEndpoints) :
    m.FitsTable := by
  have hbytes : (m.endpoints.flatMap EndpointConfig.bytes).length ≤ 3 * maxEndpoints := by
    rw [length_flatMap_endpointConfig]
    exact Nat.mul_le_mul_left 3 h
  have hvalue : ∀ f ∈ message maxPacketValueSize PacketType.eTypeEndpoints.toByte
      (m.endpoints.flatMap EndpointConfig.bytes), f.value.length ≤ 3 * maxEndpoints := by
    intro f hf
    rw [message_of_le (hbytes.trans (by decide)), List.mem_singleton] at hf
    exact hf ▸ hbytes
  refine ⟨h, hvalue, fun f hf u => ?_⟩
  have hle := hvalue f hf
  unfold Upload.readEndpoints
  dsimp only
  rw [decide_eq_false (Nat.not_lt.2 hle), Bool.or_false]

/-- A configuration that is renumbered and has fewer than 256 endpoints uses each number
once, so that at most six of them are configured. -/
theorem Configuration.length_configured_le {c : Configuration} (hc : c.renumber = true)
    (hlength : c.endpoints.length < 256) : c.configured.length ≤ maxEndpoints := by
  have hpositions : ∀ e ∈ c.configured, e.2 ∈ List.range' 1 maxEndpoints := by
    intro e he
    have hsmall := (of_mem_configured he).2.2 hc
    have hmem := List.mem_zipIdx (List.mem_filter.1 he).1
    rw [List.mem_range'_1]
    omega
  have hnodup : (c.configured.map Prod.snd).Nodup := by
    refine List.Nodup.sublist (List.Sublist.map Prod.snd List.filter_sublist) ?_
    rw [List.zipIdx_map_snd]
    exact List.nodup_range'
  have hsubset : c.configured.map Prod.snd ⊆ List.range' 1 maxEndpoints := by
    intro k hk
    obtain ⟨e, he, rfl⟩ := List.mem_map.1 hk
    exact hpositions e he
  have hle := (hnodup.subperm hsubset).length_le
  rwa [List.length_map, List.length_range'] at hle

/-- The table has room for the endpoints that are registered exactly when at most six of
the first configuration pass the tests. -/
theorem fixEndpoints_fitsTable_iff (outside outside' : ℤ → UInt8) (cs : List Configuration) :
    (fixEndpoints (EndpointMaps.start outside outside') cs).1.FitsTable ↔
      ∀ c, cs.head? = some c → c.configured.length ≤ maxEndpoints := by
  cases cs with
  | nil =>
      refine ⟨fun _ c hc => absurd hc (by simp), fun _ => EndpointMaps.fitsTable_of_le ?_⟩
      exact Nat.zero_le _
  | cons c cs =>
      obtain ⟨hfilled, hregistered⟩ := fixEndpoints_cons outside outside' c cs
      have hlength := congrArg List.length hfilled.endpoints
      rw [hregistered, List.length_map, List.length_map, Configuration.addresses,
        List.length_map] at hlength
      constructor
      · rintro h c' hc'
        rw [← Option.some.inj hc', ← hlength]
        exact h.endpoints
      · intro h
        exact EndpointMaps.fitsTable_of_le (hlength ▸ h c rfl)

def sevenAlternates : Configuration where
  wTotalLength := 121
  raw := List.replicate 121 0
  interfaces := [⟨List.replicate 7 ⟨[⟨0x81, 3, 8⟩]⟩⟩]
  length_raw := List.length_replicate

/-- The address is allowed, nothing is renumbered, and seven entries are recorded. -/
theorem fixEndpoints_sevenAlternates :
    sevenAlternates.renumber = false ∧
      (fixEndpoints (EndpointMaps.start 0 0) [sevenAlternates]).1.endpoints.length = 7 ∧
      ¬ (fixEndpoints (EndpointMaps.start 0 0) [sevenAlternates]).1.FitsTable := by
  have hseven : (fixEndpoints (EndpointMaps.start 0 0) [sevenAlternates]).1.endpoints.length =
      7 := by
    decide +kernel
  refine ⟨by decide +kernel, hseven, fun h => ?_⟩
  have hle := h.endpoints
  rw [hseven] at hle
  exact absurd hle (by decide)

end SerialUsb
