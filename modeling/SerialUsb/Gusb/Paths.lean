import SerialUsb.Gasync.Async
import SerialUsb.Memory.Copy

/-!
# The paths of the devices

`make_path` writes the bus and the ports of a device into a buffer that it keeps between its
calls, two digits and a colon for each of them. Eight bytes of them are one character more than
the buffer has, so that `snprintf` leaves out the last colon, which is never part of the path. The
paths of two devices are the same only when their places are.
-/

namespace SerialUsb

open Memory

abbrev pathSize : ℕ := 24

@[simp] theorem pathSize_eq : pathSize = 24 := rfl

abbrev nul : Char := Char.ofNat 0

def formatByte (b : UInt8) : List Char :=
  [Nat.digitChar (b.toNat / 16), Nat.digitChar (b.toNat % 16), ':']

/-- `snprintf` to the memory from `str + i` on, with the rest of the buffer as its size. -/
def snprintfAt (str : Vector Char pathSize) (i : ℕ) (text : List Char) : Vector Char pathSize :=
  copyAt str i (text.take (pathSize - i - 1) ++ [nul])

def formatPath (str : Vector Char pathSize) (i : ℕ) : List UInt8 → Vector Char pathSize
  | [] => str
  | b :: bs => formatPath (snprintfAt str (i * 3) (formatByte b)) (i + 1) bs

/-- What libusb knows of the place of a device: the bus, and the ports unless it fails; seven
of them are the most that it returns. -/
structure Place where
  bus : UInt8
  ports : Option (List UInt8)
  ports_le : ∀ l ∈ ports, l.length ≤ 7

def cString (str : Vector Char pathSize) : Path := str.toList.takeWhile fun c => c ≠ nul

/-- `make_path`, with what it leaves in `str`. -/
def makePath (str : Vector Char pathSize) (d : Place) : Vector Char pathSize × Option Path :=
  match d.ports with
  | none => (str, none)
  | some ports =>
      let str := formatPath str 0 (d.bus :: ports)
      let str := str.setIfInBounds ((ports.length + 1) * 3 - 1) nul
      (str, some (cString str))

def pathOf (bs : List UInt8) : Path := (bs.flatMap formatByte).dropLast

theorem length_formatByte (b : UInt8) : (formatByte b).length = 3 := rfl

theorem length_flatMap_formatByte (bs : List UInt8) :
    (bs.flatMap formatByte).length = bs.length * 3 := by
  induction bs with
  | nil => rfl
  | cons b bs ih =>
      rw [List.flatMap_cons, List.length_append, ih, length_formatByte, List.length_cons]
      omega

theorem nul_notMem_formatByte (b : UInt8) : nul ∉ formatByte b := by
  obtain ⟨⟨b⟩⟩ := b
  revert b
  decide +kernel

theorem digitChar_inj {m n : ℕ} (hm : m < 16) (hn : n < 16)
    (h : Nat.digitChar m = Nat.digitChar n) : m = n := by
  have hall : ∀ m < 16, ∀ n < 16, Nat.digitChar m = Nat.digitChar n → m = n := by
    decide
  exact hall m hm n hn h

theorem formatByte_injective : Function.Injective formatByte := by
  intro a b h
  obtain ⟨hhigh, hrest⟩ := List.cons.inj h
  obtain ⟨hlow, _⟩ := List.cons.inj hrest
  have ha := a.toNat_lt
  have hb := b.toNat_lt
  have hdiv := digitChar_inj (by omega) (by omega) hhigh
  have hmod := digitChar_inj (by omega) (by omega) hlow
  exact UInt8.toNat_inj.1 (by omega)

/-- The bytes can be read back from the path. -/
theorem flatMap_formatByte_injective {as bs : List UInt8}
    (h : as.flatMap formatByte = bs.flatMap formatByte) : as = bs := by
  induction as generalizing bs with
  | nil =>
      cases bs with
      | nil => rfl
      | cons b bs => exact absurd h (by simp [formatByte])
  | cons a as ih =>
      cases bs with
      | nil => exact absurd h (by simp [formatByte])
      | cons b bs =>
          rw [List.flatMap_cons, List.flatMap_cons] at h
          obtain ⟨hbyte, hrest⟩ := List.append_inj h rfl
          rw [formatByte_injective hbyte, ih hrest]

theorem pathOf_append_colon {bs : List UInt8} (hbs : bs ≠ []) :
    pathOf bs ++ [':'] = bs.flatMap formatByte := by
  rw [← List.dropLast_append_getLast hbs, List.flatMap_append, List.flatMap_singleton, pathOf,
    List.flatMap_append, List.flatMap_singleton, formatByte,
    List.dropLast_append_of_ne_nil (by simp), List.append_assoc]
  rfl

theorem pathOf_injective {as bs : List UInt8} (has : as ≠ []) (hbs : bs ≠ [])
    (h : pathOf as = pathOf bs) : as = bs := by
  refine flatMap_formatByte_injective ?_
  rw [← pathOf_append_colon has, ← pathOf_append_colon hbs, h]

/-- A byte is written behind those before it, and the last one without its colon. -/
theorem take_snprintfAt (str : Vector Char pathSize) {i : ℕ} (hi : i ≤ 7) (b : UInt8) :
    (snprintfAt str (i * 3) (formatByte b)).toList.take (min ((i + 1) * 3) 23) =
      str.toList.take (i * 3) ++ (formatByte b).take (23 - i * 3) := by
  have hsize : pathSize - i * 3 - 1 = 23 - i * 3 := by
    rw [pathSize_eq]
    omega
  have hlen : ((formatByte b).take (23 - i * 3) ++ [nul]).length = min (23 - i * 3) 3 + 1 := by
    rw [List.length_append, List.length_take, length_formatByte, List.length_singleton]
  have hfit : i * 3 + ((formatByte b).take (23 - i * 3) ++ [nul]).length ≤ pathSize := by
    rw [hlen, pathSize_eq]
    omega
  have hcopy := congrArg (List.take (min ((i + 1) * 3) 23)) (toList_take_copyAt str hfit)
  have hbefore : (str.toList.take (i * 3) ++ (formatByte b).take (23 - i * 3)).length =
      min ((i + 1) * 3) 23 := by
    rw [List.length_append, List.length_take, List.length_take, length_formatByte,
      Vector.length_toList, pathSize_eq]
    omega
  rw [List.take_take, hlen, min_eq_left (by omega), ← List.append_assoc,
    List.take_left' hbefore] at hcopy
  rw [snprintfAt, hsize]
  exact hcopy

/-- What the loop has written: the bytes so far, but for what does not fit. -/
theorem take_formatPath (str : Vector Char pathSize) {i : ℕ} (b : UInt8) {bs : List UInt8}
    (hlen : i + bs.length ≤ 7) :
    (formatPath str i (b :: bs)).toList.take (min ((i + bs.length + 1) * 3) 23) =
      str.toList.take (i * 3) ++ ((b :: bs).flatMap formatByte).take (23 - i * 3) := by
  induction bs generalizing str i b with
  | nil =>
      rw [List.length_nil] at hlen ⊢
      rw [List.flatMap_singleton]
      exact take_snprintfAt str hlen b
  | cons b' bs ih =>
      rw [List.length_cons] at hlen ⊢
      have hi : i ≤ 6 := by omega
      have hbyte := take_snprintfAt str (i := i) (by omega) b
      have hfits : (formatByte b).take (23 - i * 3) = formatByte b :=
        List.take_of_length_le (by rw [length_formatByte]; omega)
      rw [min_eq_left (by omega), hfits] at hbyte
      have hrest := ih (snprintfAt str (i * 3) (formatByte b)) (i := i + 1) b' (by omega)
      rw [hbyte] at hrest
      rw [List.flatMap_cons, List.take_append, hfits, length_formatByte, ← List.append_assoc,
        show 23 - i * 3 - 3 = 23 - (i + 1) * 3 by omega, ← hrest,
        show i + (bs.length + 1) + 1 = i + 1 + bs.length + 1 by omega]
      rfl

/-- `make_path` returns the digits of the bus and of the ports, whatever it left in its buffer
before. -/
theorem makePath_snd (str : Vector Char pathSize) (d : Place) :
    (makePath str d).2 = d.ports.map fun ports => pathOf (d.bus :: ports) := by
  unfold makePath
  cases hports : d.ports with
  | none => rfl
  | some ports =>
      have hle := d.ports_le ports hports
      have hpos : (ports.length + 1) * 3 - 1 < pathSize := by
        rw [pathSize_eq]
        omega
      have hwritten := congrArg (List.take ((ports.length + 1) * 3 - 1))
        (take_formatPath str d.bus (show 0 + ports.length ≤ 7 by omega))
      have hlength := length_flatMap_formatByte (d.bus :: ports)
      rw [List.take_take, min_eq_left (by omega), Nat.zero_mul, List.take_zero, List.nil_append,
        List.take_take, min_eq_left (by omega)] at hwritten
      have hpath : ((d.bus :: ports).flatMap formatByte).take ((ports.length + 1) * 3 - 1) =
          pathOf (d.bus :: ports) := by
        rw [pathOf, List.dropLast_eq_take, hlength, List.length_cons]
      have hnul : ∀ c ∈ pathOf (d.bus :: ports), c ≠ nul := by
        rintro c hc rfl
        obtain ⟨b, _, hb⟩ := List.mem_flatMap.1 (List.mem_of_mem_dropLast hc)
        exact nul_notMem_formatByte b hb
      dsimp only
      rw [Option.map_some, cString, Vector.toList_setIfInBounds, List.set_eq_take_append_cons_drop,
        if_pos (by rwa [Vector.length_toList]), hwritten, hpath,
        List.takeWhile_append_of_pos (fun c hc => decide_eq_true (hnul c hc)),
        List.takeWhile_cons_of_neg (by simp), List.append_nil]

/-- The paths of two devices are the same only when they are at the same ports of the same bus. -/
theorem makePath_injective {str str' : Vector Char pathSize} {d d' : Place} {path : Path}
    (h : (makePath str d).2 = some path) (h' : (makePath str' d').2 = some path) :
    d.bus = d'.bus ∧ d.ports = d'.ports := by
  rw [makePath_snd, Option.map_eq_some_iff] at h h'
  obtain ⟨ports, hports, hpath⟩ := h
  obtain ⟨ports', hports', hpath'⟩ := h'
  have hbytes := pathOf_injective (List.cons_ne_nil _ _) (List.cons_ne_nil _ _)
    (hpath.trans hpath'.symm)
  obtain ⟨hbus, rfl⟩ := List.cons.inj hbytes
  exact ⟨hbus, hports.trans hports'.symm⟩

/-- The buffer is just large enough for seven ports. -/
example : (makePath (Vector.replicate _ nul) ⟨1, some [2, 3, 4, 5, 6, 7, 255], by decide⟩).2 =
    some ("01:02:03:04:05:06:07:ff".toList) := by
  decide +kernel

end SerialUsb
