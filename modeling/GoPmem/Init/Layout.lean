import GoPmem.Basic

/-!
# GoPmem.Init.Layout — the layout `PmallocInit` computes for the region

`PmallocInit(fname, size, offset)` maps a region of `size` bytes. The first `offset` bytes are left
to the application; then come the magic word, the size word, the span bitmap and the heap type
bitmap, rounded up to whole pages (`reservePages`); the allocator gets the remaining pages.

* `initArgsOk`: the argument checks. `initSizes`: the sizes computed before mapping. `initAddrs`:
  the addresses and slice lengths computed once the region is mapped at `M`. `seedSpan`: the free
  span `growPmemRegion` hands to the heap.
* `initSizes_nat`, `initAddrs_nat`: for a non-negative offset and a mapping inside the address
  space no `uintptr` operation wraps, and the sizes and addresses are plain `Nat` arithmetic.
* `initLayout_sound`: for a non-negative offset the layout is sound: the windows lie in order
  inside the reserved pages and the two bitmaps cover every usable address.
* `initLayout_negOffset`: a negative offset passes the checks, and the reserved size wraps.
* `initLayout_typeEntries_large`: from 8.5 GiB after the offset on, the type bitmap is longer than
  its fixed array view.
-/

namespace GoPmem

/-! ## Constants and `uintptr` conversions -/

/-- `pmemHdrMagic`: written to the first header word on the first run. -/
def pmemHdrMagic : Int := 0xABCDCBA

/-- `pmemHdrSize`: the magic word and the size word. -/
def pmemHdrSize : Int := 16

/-- `pmemInitSize`: the region grows in 64 MiB steps. -/
def pmemInitSize : Int := 64 * 1024 * 1024

/-- `uintptr(x)` of a Go `int`. -/
def uintptrOfInt (x : Int) : Nat := (x % 2 ^ 64).toNat

theorem uintptrOfInt_of_nonneg {x : Int} (h₀ : 0 ≤ x) (h : x < 2 ^ 64) : uintptrOfInt x = x.toNat := by
  unfold uintptrOfInt; rw [Int.emod_eq_of_lt h₀ h]

/-- Declared outside the source, in the Go runtime: `round(n, a) = (n + a - 1) &^ (a - 1)`, `n`
rounded up to a multiple of the power of two `a`, in `uintptr` arithmetic. -/
def round (n a : Nat) : Nat := uadd n (a - 1) &&& (2 ^ 64 - a)

/-- Clearing the low `pageShift` bits of a word rounds it down to whole pages. -/
theorem land_pageMask {x : Nat} (hx : x < 2 ^ 64) : x &&& (2 ^ 64 - pageSize) = x / 8192 * 8192 := by
  have hm : 2 ^ 64 - pageSize = 2 ^ 13 * (2 ^ 51 - 1) := by decide
  rw [hm, show x / 8192 * 8192 = 2 ^ 13 * (x >>> 13) by rw [Nat.shiftRight_eq_div_pow]; omega]
  refine Nat.eq_of_testBit_eq fun j => ?_
  simp only [Nat.testBit_and, Nat.testBit_mul_pow_two, Nat.testBit_two_pow_sub_one,
    Nat.testBit_shiftRight]
  by_cases h13 : 13 ≤ j
  · by_cases h64 : j < 64
    · simp [h13, show j - 13 < 51 by omega, show 13 + (j - 13) = j by omega]
    · have : x.testBit j = false :=
        Nat.testBit_lt_two_pow (lt_of_lt_of_le hx (Nat.pow_le_pow_right (by decide) (by omega)))
      simp [h13, show ¬ j - 13 < 51 by omega, this]
  · simp [h13]

theorem round_pageSize {n : Nat} (hn : n + 8191 < 2 ^ 64) :
    round n pageSize = (n + 8191) / 8192 * 8192 := by
  rw [round, uadd, show pageSize - 1 = 8191 from rfl, Nat.mod_eq_of_lt hn, land_pageMask hn]

theorem shiftLeft_pageShift_mod {a : Nat} (h : a * 8192 < 2 ^ 64) :
    a <<< pageShift % 2 ^ 64 = a * 8192 := by
  rw [shiftLeft_pageShift, pageSize, Nat.mod_eq_of_lt h]

theorem uintptrOfInt_natCast {n : Nat} (h : n < 2 ^ 64) : uintptrOfInt n = n := by
  rw [uintptrOfInt_of_nonneg (Int.natCast_nonneg n) (by omega), Int.toNat_natCast]

/-! ## The computations -/

/-- The argument checks of `PmallocInit`: at least 64 MiB after the offset, a size that is a
multiple of 64 MiB, and a page-aligned offset; Go's `%` truncates. -/
def initArgsOk (size offset : Int) : Bool :=
  !(size - offset < pmemInitSize || size.tmod pmemInitSize != 0) && offset.tmod pageSize == 0

/-- The sizes `PmallocInit` computes from `size` and `offset` before it maps the region, under the
source's names. -/
structure InitSizes where
  availPages : Int
  heapTypeBitmapSize : Int
  spanBitmapSize : Int
  headerSize : Int
  reservePages : Nat
  totalPages : Nat
  deriving DecidableEq, Repr

/-- `PmallocInit`'s sizes: the header holds a type-bitmap byte per 32 bytes and a span-bitmap word
per page of the region after the offset, and the magic and size words. -/
def initSizes (size offset : Int) : InitSizes :=
  let availSize := size - offset
  let availPages := availSize >>> pageShift
  let heapTypeBitmapSize := availPages * heapBytesPerPage
  let spanBitmapSize := availPages * logBytesPerPage
  let headerSize := heapTypeBitmapSize + spanBitmapSize + pmemHdrSize
  let reserveSize := uintptrOfInt (offset + headerSize)
  let reservePages := round reserveSize pageSize >>> pageShift
  let totalPages := uintptrOfInt size >>> pageShift
  ⟨availPages, heapTypeBitmapSize, spanBitmapSize, headerSize, reservePages, totalPages⟩

/-- The addresses and counts `PmallocInit` computes once the region is mapped at `M`. -/
structure InitAddrs where
  startAddr : Nat
  hdrAddr : Nat
  usablePages : Nat
  spanBitsAddr : Nat
  typeEntries : Nat
  typeBitsAddr : Nat
  endAddr : Nat
  deriving DecidableEq, Repr

/-- `PmallocInit`'s addresses; `spanBitsAddr` is `&addresses[2]`, two words after the header. -/
def initAddrs (z : InitSizes) (offset : Int) (M : Nat) : InitAddrs :=
  let startAddr := uadd M (z.reservePages <<< pageShift % 2 ^ 64)
  let hdrAddr := uadd M (uintptrOfInt offset)
  let usablePages := usub z.totalPages z.reservePages
  let spanBitsAddr := uadd hdrAddr 16
  let typeEntries := (usablePages <<< pageShift % 2 ^ 64) / 32
  let typeBitsAddr := uadd spanBitsAddr (uintptrOfInt z.spanBitmapSize)
  let endAddr := usub (uadd startAddr (usablePages <<< pageShift % 2 ^ 64)) 1
  ⟨startAddr, hdrAddr, usablePages, spanBitsAddr, typeEntries, typeBitsAddr, endAddr⟩

/-- The entries of the fixed array views `(*[1 << 28]uint32)` and `(*[1 << 28]byte)` that
`PmallocInit` slices the two bitmaps from. -/
def bitmapViewLen : Nat := 2 ^ 28

/-- A free span the heap holds: its first address and its pages. -/
structure FreeSpan where
  base : Nat
  npages : Nat
  deriving DecidableEq, Repr

/-- The span `growPmemRegion(npages, reservePages)` frees into the heap, for a region mapped at `v`. -/
def seedSpan (v npages reservePages : Nat) : FreeSpan :=
  ⟨uadd v (reservePages <<< pageShift % 2 ^ 64), usub npages reservePages⟩

/-! ## Soundness for a non-negative offset -/

section Sound

variable {size offset : Int}

/-- What the argument checks give, as divisibility. -/
theorem initArgsOk_iff :
    initArgsOk size offset = true ↔
      pmemInitSize ≤ size - offset ∧ pmemInitSize ∣ size ∧ (pageSize : Int) ∣ offset := by
  simp only [initArgsOk, Bool.and_eq_true, Bool.not_eq_true', Bool.or_eq_false_iff,
    decide_eq_false_iff_not, Int.not_lt, bne_eq_false_iff_eq, beq_iff_eq]
  exact ⟨fun ⟨⟨h₁, h₂⟩, h₃⟩ => ⟨h₁, Int.dvd_of_tmod_eq_zero h₂, Int.dvd_of_tmod_eq_zero h₃⟩,
    fun ⟨h₁, h₂, h₃⟩ => ⟨⟨h₁, Int.tmod_eq_zero_of_dvd h₂⟩, Int.tmod_eq_zero_of_dvd h₃⟩⟩

theorem initSizes_availPages : (initSizes size offset).availPages = (size - offset) / 8192 := by
  simp only [initSizes, Int.shiftRight_eq_div_pow]; rfl

theorem initSizes_spanBitmapSize :
    (initSizes size offset).spanBitmapSize = 4 * (initSizes size offset).availPages := by
  simp only [initSizes, logBytesPerPage]; push_cast; omega

theorem initSizes_headerSize :
    (initSizes size offset).headerSize = 260 * (initSizes size offset).availPages + 16 := by
  simp only [initSizes, heapBytesPerPage, logBytesPerPage, pmemHdrSize, pageSize]; push_cast; omega

theorem initSizes_reservePages :
    (initSizes size offset).reservePages =
      round (uintptrOfInt (offset + (initSizes size offset).headerSize)) pageSize / 8192 := by
  simp only [initSizes, Nat.shiftRight_eq_div_pow]; rfl

theorem initSizes_totalPages : (initSizes size offset).totalPages = uintptrOfInt size / 8192 := by
  simp only [initSizes, Nat.shiftRight_eq_div_pow]; rfl

/-- The sizes as arithmetic on `Nat`, for admissible arguments with a non-negative offset: the
region after the offset has `a ≥ 8192` pages. -/
theorem initSizes_nat (hargs : initArgsOk size offset = true) (hoff : 0 ≤ offset)
    (hint : size < 2 ^ 63) :
    ∃ o a : Nat, offset = o ∧ size.toNat = o + 8192 * a ∧ 8192 ≤ a ∧ o % 8192 = 0 ∧
      (initSizes size offset).availPages = a ∧ (initSizes size offset).spanBitmapSize = 4 * a ∧
      (initSizes size offset).reservePages = (o + 260 * a + 16 + 8191) / 8192 ∧
      (initSizes size offset).totalPages = o / 8192 + a := by
  obtain ⟨h₁, h₂, h₃⟩ := initArgsOk_iff.1 hargs
  simp only [pmemInitSize, pageSize] at h₁ h₂ h₃
  obtain ⟨o, rfl⟩ := Int.eq_ofNat_of_zero_le hoff
  obtain ⟨a, rfl⟩ : ∃ a : Nat, size = o + 8192 * a := ⟨((size - o) / 8192).toNat, by omega⟩
  have hA : (initSizes (o + 8192 * a) o).availPages = a := by rw [initSizes_availPages]; omega
  refine ⟨o, a, rfl, by omega, by omega, by omega, hA, by rw [initSizes_spanBitmapSize, hA], ?_, ?_⟩
  · rw [initSizes_reservePages, initSizes_headerSize, hA,
      show (o : Int) + (260 * a + 16) = ((o + 260 * a + 16 : Nat) : Int) by omega,
      uintptrOfInt_natCast (by omega), round_pageSize (by omega), Nat.mul_div_cancel _ (by decide)]
  · rw [initSizes_totalPages, show (o : Int) + 8192 * a = ((o + 8192 * a : Nat) : Int) by omega,
      uintptrOfInt_natCast (by omega)]
    omega

end Sound

/-- The addresses as arithmetic on `Nat`: with a non-negative offset and a mapping inside the
address space, no `uintptr` operation of `PmallocInit` wraps. The header ends in the `R` reserved
pages, and `U + 1` pages are left. -/
theorem initAddrs_nat {size offset : Int} (M : Nat) (hargs : initArgsOk size offset = true)
    (hoff : 0 ≤ offset) (hint : size < 2 ^ 63) (hmap : M + size.toNat ≤ 2 ^ 64) :
    ∃ o n R U : Nat, offset = o ∧ size.toNat = o + 8192 * n ∧ o % 8192 = 0 ∧
      (o + 260 * n + 16 + 8191) / 8192 = R ∧ o / 8192 + n = R + U + 1 ∧
      (initSizes size offset).availPages = n ∧ (initSizes size offset).reservePages = R ∧
      (initSizes size offset).totalPages = o / 8192 + n ∧
      initAddrs (initSizes size offset) offset M =
        ⟨M + R * 8192, M + o, U + 1, M + o + 16, (U + 1) * 256, M + o + 16 + 4 * n,
          M + size.toNat - 1⟩ := by
  obtain ⟨o, n, rfl, hsz, hn, ho, hav, hsb, hrp, htp⟩ := initSizes_nat hargs hoff hint
  generalize hR : (o + 260 * n + 16 + 8191) / 8192 = R at hrp
  obtain ⟨U, hU⟩ : ∃ U, o / 8192 + n = R + U + 1 := ⟨o / 8192 + n - R - 1, by omega⟩
  refine ⟨o, n, R, U, rfl, hsz, ho, hR, hU, hav, hrp, htp, ?_⟩
  rw [hsz] at hmap ⊢
  have hR₁ : 1 ≤ R := by omega
  clear hargs hint hR hav hsz
  have hend : usub (uadd (M + R * 8192) ((U + 1) * 8192)) 1 = M + (o + 8192 * n) - 1 := by
    rw [uadd, show M + R * 8192 + (U + 1) * 8192 = M + (o + 8192 * n) by omega]
    rcases Nat.lt_or_ge (M + (o + 8192 * n)) (2 ^ 64) with h | h
    · rw [Nat.mod_eq_of_lt h, usub_of_le (by omega) h]
    · rw [show M + (o + 8192 * n) = 2 ^ 64 by omega, Nat.mod_self]; rfl
  simp only [initAddrs, hsb, hrp, htp, Int.toNat_natCast, usub_of_le (show R ≤ o / 8192 + n by omega)
      (show o / 8192 + n < 2 ^ 64 by omega), show o / 8192 + n - R = U + 1 by omega,
    shiftLeft_pageShift_mod (show R * 8192 < 2 ^ 64 by omega),
    shiftLeft_pageShift_mod (show (U + 1) * 8192 < 2 ^ 64 by omega),
    uadd_of_lt (show M + R * 8192 < 2 ^ 64 by omega), hend,
    uintptrOfInt_natCast (show o < 2 ^ 64 by omega), uadd_of_lt (show M + o < 2 ^ 64 by omega),
    uadd_of_lt (show M + o + 16 < 2 ^ 64 by omega), show 4 * (n : Int) = ((4 * n : Nat) : Int) by push_cast; rfl,
    uintptrOfInt_natCast (show 4 * n < 2 ^ 64 by omega), uadd_of_lt (show M + o + 16 + 4 * n < 2 ^ 64 by omega),
    show (U + 1) * 8192 / 32 = (U + 1) * 256 by omega]

/-- **The region layout is sound** for admissible arguments with a non-negative offset and a
mapping at `M` inside the address space: at least one usable page; `[startAddr, endAddr]` is the
region after the reserved pages, and the span `growPmemRegion` frees; the magic word, the size
word, the span bitmap and the type bitmap lie in order between `M + offset` and `startAddr`; and
the two bitmaps have an entry for every usable address. -/
theorem initLayout_sound (size offset : Int) (M : Nat) (hargs : initArgsOk size offset = true)
    (hoff : 0 ≤ offset) (hint : size < 2 ^ 63) (hmap : M + size.toNat ≤ 2 ^ 64) :
    let z := initSizes size offset
    let a := initAddrs z offset M
    1 ≤ a.usablePages ∧
    a.startAddr = M + z.reservePages * pageSize ∧ a.endAddr = M + size.toNat - 1 ∧
    seedSpan M z.totalPages z.reservePages = ⟨a.startAddr, a.usablePages⟩ ∧
    a.hdrAddr = M + offset.toNat ∧ a.spanBitsAddr = a.hdrAddr + 16 ∧
    a.typeBitsAddr = a.spanBitsAddr + 4 * z.availPages.toNat ∧
    a.spanBitsAddr + 4 * a.usablePages ≤ a.typeBitsAddr ∧
    a.typeBitsAddr + a.typeEntries ≤ a.startAddr ∧
    ∀ x, a.startAddr ≤ x → x ≤ a.endAddr →
      usub x a.startAddr >>> pageShift < a.usablePages ∧ usub x a.startAddr / 32 < a.typeEntries := by
  obtain ⟨o, n, R, U, rfl, hsz, ho, hR, hU, hav, hrp, -, ha⟩ := initAddrs_nat M hargs hoff hint hmap
  -- the seed span is the usable range by definition
  have hseed : seedSpan M (initSizes size o).totalPages (initSizes size o).reservePages =
      ⟨(initAddrs (initSizes size o) o M).startAddr, (initAddrs (initSizes size o) o M).usablePages⟩ :=
    rfl
  dsimp only
  rw [hseed]
  simp only [ha, hav, hrp, pageSize, Int.toNat_natCast, eq_self_iff_true, true_and]
  have hUn : U + 1 ≤ n := by omega
  refine ⟨by omega, by omega, by omega, fun x hx hx' => ?_⟩
  rw [usub_of_le hx (by omega), shiftRight_pageShift, pageSize]
  constructor <;> omega

theorem initLayout_sound_minRegion :
    initArgsOk pmemInitSize 0 = true ∧ 0 + pmemInitSize.toNat ≤ 2 ^ 64 ∧
    let z := initSizes pmemInitSize 0
    let a := initAddrs z 0 0
    1 ≤ a.usablePages ∧
    a.startAddr = 0 + z.reservePages * pageSize ∧ a.endAddr = 0 + pmemInitSize.toNat - 1 ∧
    seedSpan 0 z.totalPages z.reservePages = ⟨a.startAddr, a.usablePages⟩ ∧
    a.hdrAddr = 0 + (0 : Int).toNat ∧ a.spanBitsAddr = a.hdrAddr + 16 ∧
    a.typeBitsAddr = a.spanBitsAddr + 4 * z.availPages.toNat ∧
    a.spanBitsAddr + 4 * a.usablePages ≤ a.typeBitsAddr ∧
    a.typeBitsAddr + a.typeEntries ≤ a.startAddr ∧
    ∀ x, a.startAddr ≤ x → x ≤ a.endAddr →
      usub x a.startAddr >>> pageShift < a.usablePages ∧ usub x a.startAddr / 32 < a.typeEntries :=
  have hargs : initArgsOk pmemInitSize 0 = true := by decide
  have hmap : 0 + pmemInitSize.toNat ≤ 2 ^ 64 := by decide
  ⟨hargs, hmap, initLayout_sound pmemInitSize 0 0 hargs (Int.le_refl 0) (by decide) hmap⟩

/-- An offset of -270 pages passes the checks, but `offset + headerSize` is negative: the reserved
size wraps, `reservePages` exceeds `totalPages`, `usablePages` wraps, and the span bitmap runs past
the start of the type bitmap. -/
theorem initLayout_negOffset :
    let z := initSizes pmemInitSize (-2211840)
    let a := initAddrs z (-2211840) (2 ^ 32)
    initArgsOk pmemInitSize (-2211840) = true ∧ z.totalPages < z.reservePages ∧
      a.typeBitsAddr < a.spanBitsAddr + 4 * a.usablePages :=
  ⟨by decide, by decide, by decide⟩

/-- From 8.5 GiB after a non-negative offset on, the type bitmap has more entries than the
`1 << 28`-entry array view it is sliced from. -/
theorem initLayout_typeEntries_large {size offset : Int} (M : Nat)
    (hargs : initArgsOk size offset = true) (hoff : 0 ≤ offset) (hint : size < 2 ^ 63)
    (hbig : 17 * 2 ^ 29 ≤ size - offset) :
    bitmapViewLen < (initAddrs (initSizes size offset) offset M).typeEntries := by
  -- the type bitmap's length does not depend on where the region is mapped
  show bitmapViewLen < (initAddrs (initSizes size offset) offset 0).typeEntries
  obtain ⟨o, n, R, U, rfl, hsz, -, hR, hU, -, -, -, ha⟩ := initAddrs_nat 0 hargs hoff hint (by omega)
  rw [ha, bitmapViewLen]
  dsimp only
  omega

end GoPmem
