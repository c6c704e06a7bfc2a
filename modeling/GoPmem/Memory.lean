import Mathlib.Logic.Function.Basic
import Mathlib.Data.List.Range
import Mathlib.Algebra.Group.Int

/-!
# GoPmem.Memory — byte-addressed memory

The logging functions write persistent memory through `uint32` and `int` stores, `memmove` and
`memclrNoHeapPointers`. The address space is a map from addresses to bytes.

* `storeBytes m a bs` stores the bytes `bs` from `a` on; `storeUInt m a n v` stores the low `n`
  bytes of `v`, little-endian; `loadUInt m a n` reads the `n`-byte value at `a`.
* `storeBytes_of_not_mem`: a store leaves every byte outside its range alone.
* `loadUInt_storeUInt`: a load reads back what a store of the same width wrote;
  `storeUInt_loadUInt`: storing the value a word already holds changes nothing.
-/

namespace GoPmem

/-- The address space: one byte per address. -/
abbrev Mem := Nat → UInt8

/-- The low `n` bytes of `v`, least significant first. -/
def leBytes : Nat → Nat → List UInt8
  | 0, _ => []
  | n + 1, v => UInt8.ofNat (v % 256) :: leBytes n (v / 256)

/-- Stores the bytes `bs` at `a`, `a + 1`, .... -/
def storeBytes (m : Mem) (a : Nat) : List UInt8 → Mem
  | [] => m
  | b :: bs => storeBytes (Function.update m a b) (a + 1) bs

/-- The `n`-byte little-endian value at `a`. -/
def loadUInt (m : Mem) (a : Nat) : Nat → Nat
  | 0 => 0
  | n + 1 => (m a).toNat + 256 * loadUInt m (a + 1) n

/-- An `n`-byte store of `v` at `a` (`*(*uint32)(a) = v` for `n = 4`, `*(*int)(a) = v` for `8`). -/
def storeUInt (m : Mem) (a n v : Nat) : Mem := storeBytes m a (leBytes n v)

/-- `memmove(dst, src, n)` between two ranges that do not overlap. -/
def memmove (m : Mem) (dst src n : Nat) : Mem :=
  storeBytes m dst ((List.range n).map fun i => m (src + i))

/-- `memclrNoHeapPointers(p, n)`. -/
def memclr (m : Mem) (p n : Nat) : Mem := storeBytes m p (List.replicate n 0)

@[simp] theorem length_leBytes : ∀ (n v : Nat), (leBytes n v).length = n
  | 0, _ => rfl
  | n + 1, v => by simp [leBytes, length_leBytes n]

/-! ## Frame and read-back -/

/-- A store leaves every byte outside its range alone. -/
theorem storeBytes_of_not_mem : ∀ (bs : List UInt8) (m : Mem) (a b : Nat),
    b < a ∨ a + bs.length ≤ b → storeBytes m a bs b = m b
  | [], _, _, _, _ => rfl
  | c :: bs, m, a, b, h => by
    simp only [List.length_cons] at h
    rw [storeBytes, storeBytes_of_not_mem bs _ _ _ (by omega), Function.update_noteq (by omega)]

theorem storeUInt_of_not_mem {m : Mem} {a n v b : Nat} (h : b < a ∨ a + n ≤ b) :
    storeUInt m a n v b = m b :=
  storeBytes_of_not_mem _ _ _ _ (by simpa using h)

theorem memclr_of_not_mem {m : Mem} {p n b : Nat} (h : b < p ∨ p + n ≤ b) : memclr m p n b = m b :=
  storeBytes_of_not_mem _ _ _ _ (by simpa using h)

theorem memmove_of_not_mem {m : Mem} {dst src n b : Nat} (h : b < dst ∨ dst + n ≤ b) :
    memmove m dst src n b = m b :=
  storeBytes_of_not_mem _ _ _ _ (by simpa using h)

/-- A load reads only the bytes of its range. -/
theorem loadUInt_congr {m m' : Mem} : ∀ {a n : Nat}, (∀ i < n, m (a + i) = m' (a + i)) →
    loadUInt m a n = loadUInt m' a n
  | _, 0, _ => rfl
  | a, n + 1, h => by
    simp only [loadUInt]
    rw [show m a = m' a from h 0 (by omega), loadUInt_congr fun i hi => by
      simpa [Nat.add_assoc, Nat.add_comm 1] using h (i + 1) (by omega)]

theorem loadUInt_storeUInt : ∀ (m : Mem) (a n v : Nat), loadUInt (storeUInt m a n v) a n = v % 256 ^ n
  | _, _, 0, v => by simp [loadUInt, Nat.mod_one]
  | m, a, n + 1, v => by
    simp only [storeUInt, leBytes, storeBytes, loadUInt]
    have hb := storeBytes_of_not_mem (leBytes n (v / 256)) (Function.update m a (UInt8.ofNat (v % 256)))
      (a + 1) a (.inl (by omega))
    have ih := loadUInt_storeUInt (Function.update m a (UInt8.ofNat (v % 256))) (a + 1) n (v / 256)
    simp only [storeUInt] at ih
    rw [hb, Function.update_same, ih, UInt8.toNat_ofNat_of_lt (Nat.mod_lt _ (by decide)), Nat.pow_succ',
      Nat.mod_mul]

theorem loadUInt_lt : ∀ (m : Mem) (a n : Nat), loadUInt m a n < 256 ^ n
  | _, _, 0 => by simp [loadUInt]
  | m, a, n + 1 => by
    have := loadUInt_lt m (a + 1) n
    have := (m a).toNat_lt_size
    simp only [loadUInt, Nat.pow_succ']
    simp only [UInt8.size] at *
    omega

theorem uint8_ofNat_toNat (b : UInt8) : UInt8.ofNat b.toNat = b :=
  UInt8.toNat.inj (UInt8.toNat_ofNat_of_lt b.toNat_lt_size)

/-- A word read from `m'` and stored in `m`: the bytes of `m'` in the range, those of `m`
outside. -/
theorem storeUInt_loadUInt_apply : ∀ (m m' : Mem) (a n b : Nat),
    storeUInt m a n (loadUInt m' a n) b = if a ≤ b ∧ b < a + n then m' b else m b
  | m, _, a, 0, b => by simp only [storeUInt, leBytes, storeBytes]; split_ifs <;> first | rfl | omega
  | m, m', a, n + 1, b => by
    have hlt := (m' a).toNat_lt_size
    simp only [UInt8.size] at hlt
    have h1 : ((m' a).toNat + 256 * loadUInt m' (a + 1) n) % 256 = (m' a).toNat := by omega
    have h2 : ((m' a).toNat + 256 * loadUInt m' (a + 1) n) / 256 = loadUInt m' (a + 1) n := by omega
    have ih := storeUInt_loadUInt_apply (Function.update m a (m' a)) m' (a + 1) n b
    simp only [storeUInt] at ih
    simp only [storeUInt, loadUInt, leBytes, storeBytes, h1, h2, uint8_ofNat_toNat, ih]
    by_cases hb : b = a
    · subst hb; simp
    · rw [Function.update_noteq hb]; split_ifs <;> first | rfl | omega

/-- Storing the value a word already holds changes nothing. -/
theorem storeUInt_loadUInt (m : Mem) (a n : Nat) : storeUInt m a n (loadUInt m a n) = m :=
  funext fun b => by rw [storeUInt_loadUInt_apply]; split_ifs <;> rfl

/-- A store's byte depends on the memory under it only outside the store's range. -/
theorem storeUInt_apply_congr : ∀ {m m' : Mem} {a n v b : Nat}, m b = m' b →
    storeUInt m a n v b = storeUInt m' a n v b
  | _, _, _, 0, _, _, h => h
  | m, m', a, n + 1, v, b, h => by
    simp only [storeUInt, leBytes, storeBytes] at *
    exact storeUInt_apply_congr (by by_cases hb : b = a <;> simp [Function.update_apply, hb, h])

/-- A word that reads zero has every byte zero. -/
theorem eq_zero_of_loadUInt_eq_zero : ∀ {m : Mem} {a n : Nat}, loadUInt m a n = 0 →
    ∀ i < n, m (a + i) = 0
  | _, _, 0, _, _, hi => absurd hi (Nat.not_lt_zero _)
  | m, a, n + 1, h, i, hi => by
    simp only [loadUInt] at h
    rcases i with _ | i
    · rw [Nat.add_zero]; exact UInt8.toNat.inj (show (m a).toNat = 0 by omega)
    · rw [show a + (i + 1) = a + 1 + i by omega]
      exact eq_zero_of_loadUInt_eq_zero (show loadUInt m (a + 1) n = 0 by omega) i (by omega)

/-- A word below 256 is its first byte; the others are zero. -/
theorem loadUInt_lt_256 {m : Mem} {a n : Nat} (h : loadUInt m a (n + 1) < 256) :
    (m a).toNat = loadUInt m a (n + 1) ∧ ∀ i, 0 < i → i < n + 1 → m (a + i) = 0 := by
  simp only [loadUInt] at h ⊢
  refine ⟨by omega, fun i hi hin => ?_⟩
  obtain ⟨j, rfl⟩ : ∃ j, i = j + 1 := ⟨i - 1, by omega⟩
  rw [show a + (j + 1) = a + 1 + j by omega]
  exact eq_zero_of_loadUInt_eq_zero (show loadUInt m (a + 1) n = 0 by omega) j (by omega)

/-- A store keeps only the low `n` bytes of the value. -/
theorem leBytes_mod : ∀ (n v : Nat), leBytes n (v % 256 ^ n) = leBytes n v
  | 0, _ => rfl
  | n + 1, v => by
    rw [leBytes, leBytes, Nat.pow_succ', Nat.mod_mul_right_mod, Nat.mod_mul_right_div_self,
      leBytes_mod n]

/-- A store of the value a word already holds, up to its width, changes nothing. -/
theorem storeUInt_eq_self {m : Mem} {a n v : Nat} (h : loadUInt m a n = v % 256 ^ n) :
    storeUInt m a n v = m := by
  rw [storeUInt, ← leBytes_mod, ← h]
  exact storeUInt_loadUInt m a n

/-! ## Copies -/

/-- The bytes `f j, f (j + 1), ...` stored from `a` on: the byte at `a + i` is `f (j + i)`. -/
theorem storeBytes_map_range'_apply (f : Nat → UInt8) :
    ∀ (k : Nat) (m : Mem) (a j i : Nat), i < k →
      storeBytes m a ((List.range' j k).map f) (a + i) = f (j + i)
  | 0, _, _, _, _, h => absurd h (Nat.not_lt_zero _)
  | k + 1, m, a, j, 0, _ => by
    rw [List.range'_succ, List.map_cons, storeBytes,
      storeBytes_of_not_mem _ _ _ _ (.inl (by omega)), Nat.add_zero, Nat.add_zero,
      Function.update_same]
  | k + 1, m, a, j, i + 1, h => by
    rw [List.range'_succ, List.map_cons, storeBytes, show a + (i + 1) = a + 1 + i by omega,
      storeBytes_map_range'_apply f k _ (a + 1) (j + 1) i (by omega),
      show j + 1 + i = j + (i + 1) by omega]

/-- Storing the bytes a range already holds changes nothing. -/
theorem storeBytes_map_range'_eq_self (f : Nat → UInt8) :
    ∀ (k : Nat) (m : Mem) (a j : Nat), (∀ i < k, m (a + i) = f (j + i)) →
      storeBytes m a ((List.range' j k).map f) = m
  | 0, _, _, _, _ => rfl
  | k + 1, m, a, j, h => by
    rw [List.range'_succ, List.map_cons, storeBytes,
      Function.update_eq_self_iff.2 (by simpa using (h 0 (by omega)).symm)]
    exact storeBytes_map_range'_eq_self f k m (a + 1) (j + 1) fun i hi => by
      rw [show a + 1 + i = a + (i + 1) by omega, show j + 1 + i = j + (i + 1) by omega]
      exact h (i + 1) (by omega)

/-- `memmove` puts byte `i` of the source at byte `i` of the destination. -/
theorem memmove_apply {m : Mem} {dst src n i : Nat} (hi : i < n) :
    memmove m dst src n (dst + i) = m (src + i) := by
  rw [memmove, List.range_eq_range', storeBytes_map_range'_apply _ n m dst 0 i hi, Nat.zero_add]

/-- A `memmove` onto bytes that already hold the source changes nothing. -/
theorem memmove_eq_self {m : Mem} {dst src n : Nat} (h : ∀ i < n, m (dst + i) = m (src + i)) :
    memmove m dst src n = m := by
  rw [memmove, List.range_eq_range']
  exact storeBytes_map_range'_eq_self _ n m dst 0 fun i hi => by rw [Nat.zero_add]; exact h i hi

end GoPmem
