import Mathlib.Data.List.Nodup
import SerialUsb.System.Opening

/-!
# Tearing down what was built

`gusb_close` frees nothing twice, whatever it finds. For descriptors that `get_descriptors` built
up to any point, `Staged.tornDown_iff` says when it also frees all of them and reads nothing else.
-/

namespace SerialUsb

open Memory

theorem nodup_flatMap_range {β : Type*} {f : ℕ → List β} (index : β → ℕ)
    (hindex : ∀ i, ∀ b ∈ f i, index b = i) (hf : ∀ i, (f i).Nodup) (n : ℕ) :
    ((List.range n).flatMap f).Nodup := by
  rw [List.nodup_flatMap]
  refine ⟨fun i _ => hf i, ?_⟩
  apply List.nodup_range.imp
  intro i j hne b hi hj
  exact hne ((hindex i b hi).symm.trans (hindex j b hj))

theorem nodup_append_of_lt {β : Type*} {l l' : List β} (rank : β → ℕ) (n : ℕ)
    (hrank : ∀ b ∈ l, rank b < n) (hrank' : ∀ b ∈ l', n ≤ rank b) (h : l.Nodup) (h' : l'.Nodup) :
    (l ++ l').Nodup := by
  rw [List.nodup_append]
  refine ⟨h, h', ?_⟩
  rintro b hb b' hb' rfl
  exact Nat.not_le.2 (hrank b hb) (hrank' b hb')

def HeapNode.index : HeapNode → ℕ
  | .raw index => index
  | .interfaces index => index
  | .altInterfaces index _ => index
  | .endpoints index _ _ => index
  | _ => 0

def HeapNode.number : HeapNode → ℕ
  | .altInterfaces _ number => number
  | .endpoints _ number _ => number
  | _ => 0

/-- The order in which `gusb_close` frees. -/
def HeapNode.rank : HeapNode → ℕ
  | .path => 0
  | .endpoints .. => 1
  | .altInterfaces .. => 2
  | .interfaces _ => 3
  | .raw _ => 4
  | .configurations => 5
  | .data _ => 6
  | .others => 7

namespace Probed

variable {y : Probed} {index number : ℕ} {node : HeapNode}

theorem mem_freesEndpoints :
    node ∈ y.freesEndpoints index number ↔
      ∃ alt x, (y.tree.interface number).altInterfaces.visible[alt]? = some x ∧
        x.endpoints.elements ≠ [] ∧
        node = .endpoints index number (y.arrivals.first number + alt) := by
  unfold freesEndpoints
  rw [List.mem_filterMap]
  constructor
  · rintro ⟨⟨x, alt⟩, hmem, hnode⟩
    rw [List.mem_zipIdx_iff_getElem?] at hmem
    dsimp only at hmem hnode
    split at hnode
    · cases hnode
    next hne => exact ⟨alt, x, hmem, hne, (Option.some.inj hnode).symm⟩
  · rintro ⟨alt, x, hx, hne, rfl⟩
    refine ⟨(x, alt), List.mem_zipIdx_iff_getElem?.2 hx, ?_⟩
    dsimp only
    rw [if_neg hne]

theorem mem_freesInterface :
    node ∈ y.freesInterface index number ↔
      node ∈ y.freesEndpoints index number ∨
        (y.tree.interface number).altInterfaces.elements ≠ [] ∧
          node = .altInterfaces index number := by
  unfold freesInterface
  rw [List.mem_append]
  apply or_congr_right
  split
  next hempty => simp [hempty]
  next hempty => simp [hempty]

theorem mem_frees :
    node ∈ y.frees index ↔
      (∃ number < y.tree.raw.bNumInterfaces.toNat, node ∈ y.freesInterface index number) ∨
        y.allocated = true ∧ node = .interfaces index := by
  unfold frees
  rw [List.mem_append, List.mem_flatMap]
  simp only [List.mem_range]
  apply or_congr_right
  split
  next hallocated => simp [hallocated]
  next hallocated => simp [hallocated]

theorem interfaces_mem_frees : .interfaces index ∈ y.frees index ↔ y.allocated = true := by
  simp [mem_frees, mem_freesInterface, mem_freesEndpoints]

theorem altInterfaces_mem_frees :
    .altInterfaces index number ∈ y.frees index ↔
      number < y.tree.raw.bNumInterfaces.toNat ∧
        (y.tree.interface number).altInterfaces.elements ≠ [] := by
  simp [mem_frees, mem_freesInterface, mem_freesEndpoints]

theorem endpoints_mem_frees {arrival : ℕ} :
    .endpoints index number arrival ∈ y.frees index ↔
      number < y.tree.raw.bNumInterfaces.toNat ∧
        ∃ alt x, (y.tree.interface number).altInterfaces.visible[alt]? = some x ∧
          x.endpoints.elements ≠ [] ∧ arrival = y.arrivals.first number + alt := by
  simp [mem_frees, mem_freesInterface, mem_freesEndpoints]

theorem rank_of_mem_freesEndpoints (h : node ∈ y.freesEndpoints index number) :
    node.rank = 1 ∧ node.number = number ∧ node.index = index := by
  obtain ⟨alt, x, -, -, rfl⟩ := mem_freesEndpoints.1 h
  exact ⟨rfl, rfl, rfl⟩

theorem rank_of_mem_freesInterface (h : node ∈ y.freesInterface index number) :
    0 < node.rank ∧ node.rank < 3 ∧ node.number = number ∧ node.index = index := by
  rcases mem_freesInterface.1 h with h | ⟨-, rfl⟩
  · obtain ⟨hrank, hnumber, hindex⟩ := rank_of_mem_freesEndpoints h
    omega
  · exact ⟨Nat.two_pos, Nat.lt_succ_self 2, rfl, rfl⟩

theorem rank_of_mem_frees (h : node ∈ y.frees index) :
    0 < node.rank ∧ node.rank < 4 ∧ node.index = index := by
  rcases mem_frees.1 h with ⟨number, -, h⟩ | ⟨-, rfl⟩
  · obtain ⟨hpos, hrank, -, hindex⟩ := rank_of_mem_freesInterface h
    omega
  · exact ⟨Nat.succ_pos 2, Nat.lt_succ_self 3, rfl⟩

theorem nodup_freesEndpoints (y : Probed) (index number : ℕ) :
    (y.freesEndpoints index number).Nodup := by
  have hplaces : ((y.tree.interface number).altInterfaces.visible.zipIdx).Pairwise
      fun a b => a.2 ≠ b.2 := by
    rw [← List.pairwise_map (f := Prod.snd), List.zipIdx_map_snd]
    exact List.nodup_range'
  apply hplaces.filterMap
  intro a b hne node hnode node' hnode' heq
  split at hnode
  · cases hnode
  · split at hnode'
    · cases hnode'
    · obtain rfl := Option.some.inj hnode
      obtain rfl := Option.some.inj hnode'
      injection heq with _ _ harrival
      omega

theorem nodup_freesInterface (y : Probed) (index number : ℕ) :
    (y.freesInterface index number).Nodup := by
  unfold freesInterface
  apply nodup_append_of_lt HeapNode.rank 2
  · intro node hnode
    rw [(rank_of_mem_freesEndpoints hnode).1]
    exact Nat.lt_succ_self 1
  · intro node hnode
    split at hnode
    · cases hnode
    · rw [List.mem_singleton.1 hnode]
      exact Nat.le_refl 2
  · exact y.nodup_freesEndpoints index number
  · split <;> simp

theorem nodup_frees (y : Probed) (index : ℕ) : (y.frees index).Nodup := by
  unfold frees
  apply nodup_append_of_lt HeapNode.rank 3
  · intro node hnode
    obtain ⟨number, -, hnode⟩ := List.mem_flatMap.1 hnode
    exact (rank_of_mem_freesInterface hnode).2.1
  · intro node hnode
    split at hnode
    · rw [List.mem_singleton.1 hnode]
      exact Nat.le_refl 3
    · cases hnode
  · apply nodup_flatMap_range HeapNode.number
    · intro number node hnode
      exact (rank_of_mem_freesInterface hnode).2.2.1
    · exact y.nodup_freesInterface index
  · split <;> simp

end Probed

namespace Construction

variable {x : Construction} {raws : List Buffer} {index : ℕ} {node : HeapNode}

theorem mem_freesConfiguration :
    node ∈ x.freesConfiguration raws index ↔
      (∃ y, x.probed[index]? = some y ∧ node ∈ y.frees index) ∨
        index < raws.length ∧ node = .raw index := by
  unfold freesConfiguration
  rw [List.mem_append]
  apply or_congr
  · cases x.probed[index]? <;> simp
  · split
    next hlt => simp [hlt]
    next hlt => simp [hlt]

theorem rank_of_mem_freesConfiguration (h : node ∈ x.freesConfiguration raws index) :
    0 < node.rank ∧ node.rank < 5 ∧ node.index = index := by
  rcases mem_freesConfiguration.1 h with ⟨y, -, h⟩ | ⟨-, rfl⟩
  · obtain ⟨hpos, hrank, hindex⟩ := Probed.rank_of_mem_frees h
    omega
  · exact ⟨Nat.succ_pos 3, Nat.lt_succ_self 4, rfl⟩

theorem nodup_freesConfiguration (x : Construction) (raws : List Buffer) (index : ℕ) :
    (x.freesConfiguration raws index).Nodup := by
  unfold freesConfiguration
  apply nodup_append_of_lt HeapNode.rank 4
  · intro node hnode
    split at hnode
    · cases hnode
    · exact (Probed.rank_of_mem_frees hnode).2.1
  · intro node hnode
    split at hnode
    · rw [List.mem_singleton.1 hnode]
      exact Nat.le_refl 4
    · cases hnode
  · split
    · exact List.nodup_nil
    next y _ => exact y.nodup_frees index
  · split <;> simp

def freesConfigurations (x : Construction) : List HeapNode :=
  match x.configurations with
  | none => []
  | some raws =>
      (List.range x.bNumConfigurations.toNat).flatMap (x.freesConfiguration raws) ++
        [.configurations]

theorem mem_freesConfigurations :
    node ∈ x.freesConfigurations ↔
      ∃ raws, x.configurations = some raws ∧
        ((∃ index < x.bNumConfigurations.toNat, node ∈ x.freesConfiguration raws index) ∨
          node = .configurations) := by
  unfold freesConfigurations
  cases x.configurations <;> simp

theorem mem_frees :
    node ∈ x.frees ↔
      node = .path ∨ node ∈ x.freesConfigurations ∨
        (∃ i < x.device.others.length, node = .data i) ∨
        x.device.others ≠ [] ∧ node = .others := by
  have hothers : node ∈ (if x.device.others = [] then [] else [HeapNode.others]) ↔
      x.device.others ≠ [] ∧ node = .others := by
    split
    next hempty => simp [hempty]
    next hempty => simp [hempty]
  change node ∈ [HeapNode.path] ++ x.freesConfigurations ++ _ ++ _ ↔ _
  rw [List.mem_append, List.mem_append, List.mem_append, hothers, List.mem_singleton,
    List.mem_map, or_assoc, or_assoc]
  simp only [List.mem_range, eq_comm (b := node)]

theorem rank_of_mem_freesConfigurations (h : node ∈ x.freesConfigurations) :
    0 < node.rank ∧ node.rank < 6 := by
  obtain ⟨raws, -, ⟨index, -, h⟩ | rfl⟩ := mem_freesConfigurations.1 h
  · obtain ⟨hpos, hrank, -⟩ := rank_of_mem_freesConfiguration h
    omega
  · exact ⟨Nat.succ_pos 4, Nat.lt_succ_self 5⟩

theorem nodup_freesConfigurations (x : Construction) : x.freesConfigurations.Nodup := by
  unfold freesConfigurations
  split
  · exact List.nodup_nil
  next raws _ =>
    apply nodup_append_of_lt HeapNode.rank 5
    · intro node hnode
      obtain ⟨index, -, hnode⟩ := List.mem_flatMap.1 hnode
      exact (rank_of_mem_freesConfiguration hnode).2.1
    · intro node hnode
      rw [List.mem_singleton.1 hnode]
      exact Nat.le_refl 5
    · apply nodup_flatMap_range HeapNode.index
      · intro index node hnode
        exact (rank_of_mem_freesConfiguration hnode).2.2
      · exact x.nodup_freesConfiguration raws
    · exact List.nodup_singleton _

/-- `gusb_close` frees nothing twice. -/
theorem nodup_frees (x : Construction) : x.frees.Nodup := by
  have hconfigurations : ([HeapNode.path] ++ x.freesConfigurations).Nodup := by
    rw [List.singleton_append, List.nodup_cons]
    refine ⟨fun hmem => ?_, x.nodup_freesConfigurations⟩
    exact Nat.lt_irrefl 0 (rank_of_mem_freesConfigurations hmem).1
  have hrank : ∀ node ∈ [HeapNode.path] ++ x.freesConfigurations, node.rank < 6 := by
    intro node hnode
    rw [List.mem_append, List.mem_singleton] at hnode
    rcases hnode with rfl | hnode
    · exact Nat.succ_pos 5
    · exact (rank_of_mem_freesConfigurations hnode).2
  have hdata : ((List.range x.device.others.length).map HeapNode.data).Nodup := by
    apply List.nodup_range.map
    intro i j heq
    exact HeapNode.data.inj heq
  have hdataRank : ∀ node ∈ (List.range x.device.others.length).map HeapNode.data,
      node.rank = 6 := by
    intro node hnode
    obtain ⟨i, -, rfl⟩ := List.mem_map.1 hnode
    rfl
  change ([HeapNode.path] ++ x.freesConfigurations ++ _ ++ _).Nodup
  apply nodup_append_of_lt HeapNode.rank 7
  · intro node hnode
    rcases List.mem_append.1 hnode with hnode | hnode
    · exact (hrank node hnode).trans (Nat.lt_succ_self 6)
    · rw [hdataRank node hnode]
      exact Nat.lt_succ_self 6
  · intro node hnode
    split at hnode
    · cases hnode
    · rw [List.mem_singleton.1 hnode]
      exact Nat.le_refl 7
  · apply nodup_append_of_lt HeapNode.rank 6 hrank _ hconfigurations hdata
    intro node hnode
    rw [hdataRank node hnode]
  · split <;> simp

end Construction

structure Probed.Walked (y : Probed) : Prop where
  raw : y.tree.raw = y.buffer.raw
  arrived : y.allocated = true → Arrived y.tree y.arrivals
  empty : y.allocated = false → y.tree.interfaces = [] ∧ y.arrivals = Arrivals.start

structure Construction.Staged (x : Construction) : Prop where
  walked : ∀ y ∈ x.probed, y.Walked
  buffers : ∀ (index : ℕ) y, x.probed[index]? = some y →
    ∃ raws : List Buffer, x.configurations = some raws ∧ raws[index]? = some y.buffer
  number : ∀ raws, x.configurations = some raws → raws.length ≤ x.bNumConfigurations.toNat

namespace Probed.Walked

variable {y : Probed} (h : y.Walked) {number : ℕ}

include h

theorem elements :
    (number < y.tree.raw.bNumInterfaces.toNat ∧
      (y.tree.interface number).altInterfaces.elements ≠ []) ↔ y.arrivals.total number ≠ 0 := by
  cases hallocated : y.allocated with
  | false =>
      obtain ⟨hinterfaces, harrivals⟩ := h.empty hallocated
      unfold PConfiguration.interface
      rw [hinterfaces, harrivals]
      constructor
      · rintro ⟨-, hne⟩
        exact absurd rfl hne
      · intro hne
        exact absurd rfl hne
  | true =>
      have harrived := h.arrived hallocated
      constructor
      · rintro ⟨hnumber, hne⟩ hzero
        exact hne ((harrived.interface number hnumber).elements.2 hzero)
      · intro hne
        have hnumber : number < y.tree.raw.bNumInterfaces.toNat := by
          by_contra hle
          exact hne (harrived.outside number (Nat.not_lt.1 hle))
        exact ⟨hnumber, fun hempty => hne ((harrived.interface number hnumber).elements.1 hempty)⟩

theorem visible {arrival : ℕ} :
    (number < y.tree.raw.bNumInterfaces.toNat ∧
      ∃ alt x, (y.tree.interface number).altInterfaces.visible[alt]? = some x ∧
        x.endpoints.elements ≠ [] ∧ arrival = y.arrivals.first number + alt) ↔
      (number, arrival) ∈ y.arrivals.endpoints ∧ y.arrivals.first number ≤ arrival := by
  cases hallocated : y.allocated with
  | false =>
      obtain ⟨hinterfaces, harrivals⟩ := h.empty hallocated
      unfold PConfiguration.interface
      rw [hinterfaces, harrivals]
      constructor
      · rintro ⟨-, alt, x, hx, -⟩
        change (List.take 0 [])[alt]? = some x at hx
        simp at hx
      · rintro ⟨hmem, -⟩
        cases hmem
  | true =>
      have harrived := h.arrived hallocated
      constructor
      · rintro ⟨hnumber, alt, x, hx, hne, rfl⟩
        refine ⟨?_, Nat.le_add_right _ _⟩
        by_contra hmem
        exact hne (((harrived.interface number hnumber).endpoints alt x hx).2 hmem)
      · rintro ⟨hmem, hle⟩
        obtain ⟨hnumber, hlt⟩ := harrived.below number arrival hmem
        obtain ⟨alt, rfl⟩ := Nat.exists_eq_add_of_le hle
        have halt : alt < (y.tree.interface number).altInterfaces.visible.length := by
          rw [CountedArray.length_visible, (harrived.interface number hnumber).count]
          unfold Arrivals.first at hlt
          omega
        have hx := List.getElem?_eq_getElem halt
        refine ⟨hnumber, alt, _, hx, fun hempty => ?_, rfl⟩
        exact ((harrived.interface number hnumber).endpoints alt _ hx).1 hempty hmem

end Probed.Walked

namespace Construction

variable {x : Construction} {index number : ℕ} {y : Probed}

theorem size_interfaces (hy : x.probed[index]? = some y) :
    x.size (.interfaces index) = y.tree.raw.bNumInterfaces.toNat := by
  simp [size, hy]

theorem size_altInterfaces (hy : x.probed[index]? = some y) :
    x.size (.altInterfaces index number) =
      (y.tree.interface number).altInterfaces.elements.length := by
  simp [size, hy]

end Construction

namespace Construction.Staged

variable {x : Construction} (h : x.Staged)

include h

theorem index_lt {index : ℕ} {y : Probed} (hy : x.probed[index]? = some y) :
    index < x.bNumConfigurations.toNat := by
  obtain ⟨raws, hraws, hbuffer⟩ := h.buffers index y hy
  exact (List.getElem?_eq_some_iff.1 hbuffer).1.trans_le (h.number raws hraws)

theorem mem_frees_iff {node : HeapNode} (hrank : 0 < node.rank) (hrank' : node.rank < 4) :
    node ∈ x.frees ↔ ∃ y, x.probed[node.index]? = some y ∧ node ∈ y.frees node.index := by
  rw [mem_frees, mem_freesConfigurations]
  constructor
  · rintro (rfl | ⟨raws, -, ⟨index, -, hmem⟩ | rfl⟩ | ⟨i, -, rfl⟩ | ⟨-, rfl⟩)
    · cases hrank
    · rw [(rank_of_mem_freesConfiguration hmem).2.2]
      rcases mem_freesConfiguration.1 hmem with hmem | ⟨-, rfl⟩
      · exact hmem
      · exact absurd hrank' (Nat.lt_irrefl 4)
    · exact absurd hrank' (Nat.not_lt.2 (Nat.le_succ 4))
    · exact absurd hrank' (Nat.not_lt.2 (Nat.le_add_right 4 2))
    · exact absurd hrank' (Nat.not_lt.2 (Nat.le_add_right 4 3))
  · rintro ⟨y, hy, hmem⟩
    obtain ⟨raws, hraws, -⟩ := h.buffers _ y hy
    right
    left
    exact ⟨raws, hraws, Or.inl ⟨_, h.index_lt hy, mem_freesConfiguration.2 (Or.inl ⟨y, hy, hmem⟩)⟩⟩

theorem walked_of_getElem? {index : ℕ} {y : Probed} (hy : x.probed[index]? = some y) :
    y.Walked := h.walked y (List.mem_of_getElem? hy)

theorem endpoints_mem_frees {index number arrival : ℕ} :
    .endpoints index number arrival ∈ x.frees ↔
      ∃ y, x.probed[index]? = some y ∧ (number, arrival) ∈ y.arrivals.endpoints ∧
        y.arrivals.first number ≤ arrival := by
  have hrank : HeapNode.rank (.endpoints index number arrival) = 1 := rfl
  rw [h.mem_frees_iff (by omega) (by omega)]
  apply exists_congr
  intro y
  apply and_congr_right
  intro hy
  exact Probed.endpoints_mem_frees.trans (h.walked_of_getElem? hy).visible

theorem mem_frees_iff_built {node : HeapNode} (hnode : node.rank ≠ 1) :
    node ∈ x.frees ↔ x.Built node := by
  cases node with
  | path => simp [mem_frees, Built]
  | configurations =>
      simp [mem_frees, mem_freesConfigurations, Built, Option.ne_none_iff_exists']
  | raw index =>
      have hnot : ∀ (y : Probed) i, HeapNode.raw index ∉ y.frees i := fun y i hmem =>
        Nat.lt_irrefl 4 (Probed.rank_of_mem_frees hmem).2.1
      have hmem : .raw index ∈ x.frees ↔ ∃ raws, x.configurations = some raws ∧
          index < x.bNumConfigurations.toNat ∧ index < raws.length := by
        simp [mem_frees, mem_freesConfigurations, mem_freesConfiguration, hnot]
      rw [hmem]
      apply exists_congr
      intro raws
      apply and_congr_right
      intro hraws
      exact and_iff_right_of_imp fun hlt => hlt.trans_le (h.number raws hraws)
  | interfaces index =>
      have hrank : HeapNode.rank (.interfaces index) = 3 := rfl
      rw [h.mem_frees_iff (by omega) (by omega)]
      simp [HeapNode.index, Probed.interfaces_mem_frees, Built]
  | altInterfaces index number =>
      have hrank : HeapNode.rank (.altInterfaces index number) = 2 := rfl
      rw [h.mem_frees_iff (by omega) (by omega)]
      apply exists_congr
      intro y
      apply and_congr_right
      intro hy
      exact Probed.altInterfaces_mem_frees.trans (h.walked_of_getElem? hy).elements
  | endpoints => exact absurd rfl hnode
  | others =>
      have hnot : HeapNode.others ∉ x.freesConfigurations := fun hmem =>
        absurd (rank_of_mem_freesConfigurations hmem).2 (Nat.not_lt.2 (Nat.le_succ 6))
      simp [mem_frees, hnot, Built]
  | data index =>
      have hnot : HeapNode.data index ∉ x.freesConfigurations := fun hmem =>
        Nat.lt_irrefl 6 (rank_of_mem_freesConfigurations hmem).2
      simp [mem_frees, hnot, Built]

/-- Everything that was built is freed if no array of endpoints is lost. -/
theorem freed_iff :
    (∀ node, node ∈ x.frees ↔ x.Built node) ↔ ∀ y ∈ x.probed, y.arrivals.Shown := by
  constructor
  · rintro hfreed y hy ⟨number, arrival⟩ hmem
    obtain ⟨index, hindex⟩ := List.getElem?_of_mem hy
    have hbuilt : x.Built (.endpoints index number arrival) := ⟨y, hindex, hmem⟩
    obtain ⟨y', hy', -, hle⟩ := h.endpoints_mem_frees.1 ((hfreed _).2 hbuilt)
    obtain rfl := Option.some.inj (hindex.symm.trans hy')
    exact hle
  · intro hshown node
    by_cases hnode : node.rank = 1
    · cases node with
      | endpoints index number arrival =>
          rw [h.endpoints_mem_frees]
          apply exists_congr
          intro y
          apply and_congr_right
          intro hy
          exact and_iff_left_of_imp (hshown y (List.mem_of_getElem? hy) (number, arrival))
      | _ => cases hnode
    · exact h.mem_frees_iff_built hnode

theorem reads_within_iff {index : ℕ} {y : Probed} (hy : x.probed[index]? = some y) :
    (∀ access ∈ y.reads index, x.Within access) ↔
      4 < y.buffer.size ∧ (y.allocated = true ∨ y.buffer.raw.bNumInterfaces = 0) := by
  obtain ⟨raws, hraws, hbuffer⟩ := h.buffers index y hy
  have hwalked := h.walked_of_getElem? hy
  have hbounds : ∀ number, number < y.tree.raw.bNumInterfaces.toNat →
      y.buffer.raw.bNumInterfaces ≠ 0 := by
    intro number hnumber hzero
    rw [hwalked.raw, hzero] at hnumber
    exact Nat.not_lt_zero number hnumber
  have hsize : x.size (.raw index) = y.buffer.size := by
    simp [size, hraws, hbuffer]
  constructor
  · intro hreads
    constructor
    · rw [← hsize]
      exact (hreads (.raw index, 4) List.mem_cons_self).2
    · by_cases hzero : y.buffer.raw.bNumInterfaces = 0
      · exact Or.inr hzero
      · have hpos : 0 < y.tree.raw.bNumInterfaces.toNat := by
          rw [hwalked.raw, Nat.pos_iff_ne_zero]
          exact fun heq => hzero (UInt8.toNat_inj.1 heq)
        have hmem : (HeapNode.interfaces index, 0) ∈ y.reads index := by
          apply List.mem_cons_of_mem
          rw [List.mem_flatMap]
          exact ⟨0, List.mem_range.2 hpos, List.mem_cons_self⟩
        obtain ⟨y', hy', hallocated⟩ := (hreads _ hmem).1
        obtain rfl := Option.some.inj (hy.symm.trans hy')
        exact Or.inl hallocated
  · rintro ⟨hlt, hallocated⟩ access hmem
    rcases List.mem_cons.1 hmem with rfl | hmem
    · refine ⟨⟨raws, hraws, (List.getElem?_eq_some_iff.1 hbuffer).1⟩, ?_⟩
      rwa [hsize]
    · obtain ⟨number, hnumber, hmem⟩ := List.mem_flatMap.1 hmem
      rw [List.mem_range] at hnumber
      rcases List.mem_cons.1 hmem with rfl | hmem
      · refine ⟨⟨y, hy, hallocated.resolve_right (hbounds number hnumber)⟩, ?_⟩
        rwa [size_interfaces hy]
      · obtain ⟨alt, halt, rfl⟩ := List.mem_map.1 hmem
        have hlength : alt < (y.tree.interface number).altInterfaces.elements.length :=
          (List.mem_range.1 halt).trans_le (CountedArray.count_le _)
        have hne : (y.tree.interface number).altInterfaces.elements ≠ [] :=
          List.ne_nil_of_length_pos (Nat.zero_lt_of_lt hlength)
        refine ⟨⟨y, hy, hwalked.elements.1 ⟨hnumber, hne⟩⟩, ?_⟩
        rwa [size_altInterfaces hy]

/-- What is read was built, if the configurations have the byte `bNumInterfaces` and their
interfaces. -/
theorem read_iff :
    (∀ access ∈ x.reads, x.Within access) ↔
      ∀ y ∈ x.probed, 4 < y.buffer.size ∧
        (y.allocated = true ∨ y.buffer.raw.bNumInterfaces = 0) := by
  constructor
  · intro hreads y hy
    obtain ⟨index, hindex⟩ := List.getElem?_of_mem hy
    obtain ⟨raws, hraws, -⟩ := h.buffers index y hindex
    apply (h.reads_within_iff hindex).1
    intro access hmem
    apply hreads
    unfold reads
    rw [hraws, List.mem_append, List.mem_flatMap]
    refine Or.inl ⟨index, List.mem_range.2 (h.index_lt hindex), ?_⟩
    rw [hindex]
    exact List.mem_cons_of_mem _ hmem
  · intro hprobed access hmem
    unfold reads at hmem
    rcases List.mem_append.1 hmem with hmem | hmem
    · cases hraws : x.configurations with
      | none =>
          rw [hraws] at hmem
          cases hmem
      | some raws =>
          rw [hraws] at hmem
          obtain ⟨index, hindex, hmem⟩ := List.mem_flatMap.1 hmem
          rcases List.mem_cons.1 hmem with rfl | hmem
          · refine ⟨?_, List.mem_range.1 hindex⟩
            change x.configurations ≠ none
            rw [hraws]
            exact Option.some_ne_none raws
          · cases hy : x.probed[index]? with
            | none =>
                rw [hy] at hmem
                cases hmem
            | some y =>
                rw [hy] at hmem
                exact (h.reads_within_iff hy).2 (hprobed y (List.mem_of_getElem? hy)) access hmem
    · obtain ⟨i, hi, rfl⟩ := List.mem_map.1 hmem
      rw [List.mem_range] at hi
      exact ⟨List.ne_nil_of_length_pos (Nat.zero_lt_of_lt hi), hi⟩

/-- When `gusb_close` tears the descriptors down. -/
theorem tornDown_iff : x.TornDown ↔ x.Clean := by
  constructor
  · intro htorn y hy
    obtain ⟨hsize, hinterfaces⟩ := h.read_iff.1 htorn.read y hy
    exact ⟨hsize, hinterfaces, h.freed_iff.1 htorn.freed y hy⟩
  · intro hclean
    constructor
    · exact x.nodup_frees
    · exact h.freed_iff.2 fun y hy => (hclean y hy).2.2
    · exact h.read_iff.2 fun y hy => ⟨(hclean y hy).1, (hclean y hy).2.1⟩

end Construction.Staged

end SerialUsb
