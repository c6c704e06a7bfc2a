import Mathlib.Logic.Function.Basic
import GoPmem.Init.Layout

/-!
# GoPmem.Init.PmallocInit — `PmallocInit` and `growPmemRegion`

The state `PmallocInit` reads and writes: `pmemInfo`, the heap's free persistent spans and its span
map, the mapped regions, and the header words of the backing file. `h.sysAlloc` (declared outside
the source) maps the file; its result is a parameter.

* `growPmemRegion`: maps the region, frees its pages after the reserved ones into the heap as one
  span, or unmaps it again when it got another size than it asked for.
* `initGrow`, `initHeader`, `initFinish`: the three parts of the body after the CAS — map the region,
  check or write the header, slice the bitmaps — and `pmallocInit`, the whole call.
* `pmallocInit_exits`: the exits of a call, said once; the lemmas about whole calls follow from it.
* `pmallocInit_sizeMismatch`: that exit leaves the heap a free span over unmapped memory.
* `pmallocInit_large`: no call for a region of 8.5 GiB or more after the offset returns non-nil;
  one that maps the region and accepts its header panics slicing the type bitmap.
  `pmallocInit_16GiB`: a region of 16 GiB passes every check and then panics.
* `pmallocInitRun_freeInMapped`: over any run of calls with one size and a non-negative offset,
  on a file whose header records that size, every free span stays inside a mapped region.
-/

namespace GoPmem

/-! ## State -/

/-- `initNotDone`, `initOngoing`, `initDone`: the values of `pmemInfo.initState`. -/
def initNotDone : Nat := 0

@[inherit_doc initNotDone] def initOngoing : Nat := 1

@[inherit_doc initNotDone] def initDone : Nat := 2

/-- The fields of `pmemInfo` besides `initState`; a slice is its address and length. -/
structure PmemInfo where
  fname : String
  spanBitmap : Nat × Nat
  typeBitmap : Nat × Nat
  startAddr : Nat
  endAddr : Nat
  deriving DecidableEq, Repr

/-- What `PmallocInit` reads and writes. -/
structure World where
  /-- `pmemInfo.initState`. -/
  initState : Nat
  info : PmemInfo
  /-- The heap's free persistent spans. -/
  free : List FreeSpan
  /-- `h.setSpan` entries: an address and its span. -/
  spanMap : List (Nat × FreeSpan)
  /-- The mapped regions: address and length. -/
  mapped : List (Nat × Nat)
  /-- The words of the backing file, by offset, as they appear at `M + offset` once it is mapped
  at `M`. -/
  file : Int → Int

/-! ## `growPmemRegion` -/

/-- `growPmemRegion(npages, reservePages)`, where `h.sysAlloc(ask, isPersistent)` returned `r`:
`none` when it reserved nothing, else the address and size it returned, an address of 0 being
nil. -/
def growPmemRegion (npages reservePages : Nat) (r : Option (Nat × Nat)) (w : World) :
    World × Option Nat :=
  let ask := npages <<< pageShift % 2 ^ 64
  match r with
  | none => (w, none)
  | some (v, size) =>
    if v = 0 then (w, none)
    else
    let w := { w with mapped := (v, size) :: w.mapped }
    if size ≠ ask then
      ({ w with mapped := w.mapped.erase (v, size) }, none)
    else
      let s := seedSpan v npages reservePages
      let last := usub (uadd s.base (s.npages * pageSize % 2 ^ 64)) 1
      ({ w with spanMap := (s.base, s) :: (last, s) :: w.spanMap, free := s :: w.free }, some v)

/-- A nil return of `growPmemRegion` changes nothing. -/
theorem growPmemRegion_none {npages reservePages : Nat} {r : Option (Nat × Nat)} {w w' : World}
    (h : growPmemRegion npages reservePages r w = (w', none)) : w' = w := by
  unfold growPmemRegion at h
  split at h
  · cases h; rfl
  · dsimp only at h
    split at h
    · cases h; rfl
    split at h
    · cases h; simp
    · cases h

/-- A non-nil return of `growPmemRegion`: the region is mapped at `v` with the size asked for, and
the heap has gained the seed span. -/
theorem growPmemRegion_some {npages reservePages : Nat} {r : Option (Nat × Nat)} {w w' : World}
    {v : Nat} (h : growPmemRegion npages reservePages r w = (w', some v)) :
    r = some (v, npages <<< pageShift % 2 ^ 64) ∧
      w'.mapped = (v, npages <<< pageShift % 2 ^ 64) :: w.mapped ∧
      w'.free = seedSpan v npages reservePages :: w.free ∧ w'.initState = w.initState ∧
      w'.info = w.info ∧ w'.file = w.file := by
  unfold growPmemRegion at h
  split at h
  · cases h
  · dsimp only at h
    split at h
    · cases h
    split at h
    · cases h
    · rename_i hs; cases h
      simp only [not_not] at hs
      subst hs
      exact ⟨rfl, rfl, rfl, rfl, rfl, rfl⟩

/-! ## `PmallocInit` -/

/-- The start of the body after the CAS: record the file name, map the region and free its usable
pages into the heap, and record `startAddr`. -/
def initGrow (fname : String) (size offset : Int) (r : Option (Nat × Nat)) (w : World) :
    World × Option Nat :=
  let w := { w with info := { w.info with fname := fname } }
  let z := initSizes size offset
  match growPmemRegion z.totalPages z.reservePages r w with
  | (w, none) => (w, none)
  | (w, some M) =>
    ({ w with info := { w.info with startAddr := (initAddrs z offset M).startAddr } }, some M)

/-- The header check of the region mapped at `M`: on a later run the size word must match, else the
region is unmapped (`false`); on the first run the size word, then the magic word, are written. -/
def initHeader (size offset : Int) (M : Nat) (w : World) : World × Bool :=
  if w.file offset = pmemHdrMagic then
    if w.file (offset + 8) ≠ size then
      ({ w with mapped := w.mapped.erase (M, uintptrOfInt size) }, false)
    else (w, true)
  else
    let file := Function.update w.file (offset + 8) size
    ({ w with file := Function.update file offset pmemHdrMagic }, true)

/-- The end of the body: slice the two bitmaps out of their fixed array views, which panics when a
slice is longer than the view, and record them with `endAddr`. -/
def initFinish (size offset : Int) (M : Nat) (w : World) : Except String World :=
  let a := initAddrs (initSizes size offset) offset M
  if bitmapViewLen < a.usablePages then throw "slice bounds out of range"
  else if bitmapViewLen < a.typeEntries then throw "slice bounds out of range"
  else
    let info := { w.info with spanBitmap := (a.spanBitsAddr, a.usablePages),
                              typeBitmap := (a.typeBitsAddr, a.typeEntries), endAddr := a.endAddr }
    pure { w with info := info }

/-- `PmallocInit(fname, size, offset)`, where `h.sysAlloc` returns `r`: the world after the call and
the address it returns (`none` for nil), or the panic that ends the process. -/
def pmallocInit (fname : String) (size offset : Int) (r : Option (Nat × Nat)) (w : World) :
    Except String (World × Option Nat) :=
  if !initArgsOk size offset then pure (w, none)
  else if w.initState ≠ initNotDone then pure (w, none)
  else
    let w := { w with initState := initOngoing }
    match initGrow fname size offset r w with
    | (w, none) => pure ({ w with initState := initNotDone }, none)
    | (w, some M) =>
      match initHeader size offset M w with
      | (w, false) => pure ({ w with initState := initNotDone }, none)
      | (w, true) => do
        let w ← initFinish size offset M w
        pure ({ w with initState := initDone }, some M)

/-! ## What each part of the body changes -/

section Parts

variable {fname : String} {size offset : Int} {r : Option (Nat × Nat)} {M : Nat} {w w' : World}

/-- The heap, its span map, the mappings and `initState` of two worlds. -/
def SameHeap (w w' : World) : Prop :=
  w'.free = w.free ∧ w'.spanMap = w.spanMap ∧ w'.mapped = w.mapped ∧ w'.initState = w.initState

theorem initGrow_none (h : initGrow fname size offset r w = (w', none)) : SameHeap w w' := by
  unfold initGrow at h
  dsimp only at h
  split at h
  · rename_i w₁ hg; cases h
    cases growPmemRegion_none hg
    exact ⟨rfl, rfl, rfl, rfl⟩
  · cases h

theorem initGrow_some (h : initGrow fname size offset r w = (w', some M)) :
    r = some (M, (initSizes size offset).totalPages <<< pageShift % 2 ^ 64) ∧
      w'.mapped = (M, (initSizes size offset).totalPages <<< pageShift % 2 ^ 64) :: w.mapped ∧
      w'.free = seedSpan M (initSizes size offset).totalPages (initSizes size offset).reservePages ::
        w.free ∧ w'.initState = w.initState ∧ w'.file = w.file := by
  unfold initGrow at h
  dsimp only at h
  split at h
  · cases h
  · rename_i w₁ M' hg; cases h
    obtain ⟨hr, hm, hf, hi, -, hfile⟩ := growPmemRegion_some hg
    exact ⟨hr, hm, hf, hi, hfile⟩

/-- The header check fails only on a later run whose size word differs; it then unmaps the region. -/
theorem initHeader_false (h : initHeader size offset M w = (w', false)) :
    w.file offset = pmemHdrMagic ∧ w.file (offset + 8) ≠ size ∧
      w'.mapped = w.mapped.erase (M, uintptrOfInt size) ∧ w'.free = w.free ∧
      w'.spanMap = w.spanMap ∧ w'.initState = w.initState := by
  unfold initHeader at h
  split at h
  · split at h
    · cases h; exact ⟨‹_›, ‹_›, rfl, rfl, rfl, rfl⟩
    · cases h
  · cases h

theorem initHeader_true (h : initHeader size offset M w = (w', true)) : SameHeap w w' := by
  unfold initHeader at h
  split at h
  · split at h
    · cases h
    · cases h; exact ⟨rfl, rfl, rfl, rfl⟩
  · cases h; exact ⟨rfl, rfl, rfl, rfl⟩

theorem initFinish_ok (h : initFinish size offset M w = .ok w') : SameHeap w w' := by
  unfold initFinish at h
  dsimp only at h
  split at h
  · cases h
  · split at h
    · cases h
    · cases h; exact ⟨rfl, rfl, rfl, rfl⟩

theorem initGrow_none_file (h : initGrow fname size offset r w = (w', none)) : w'.file = w.file := by
  unfold initGrow at h
  dsimp only at h
  split at h
  · rename_i w₁ hg; cases h
    cases growPmemRegion_none hg
    rfl
  · cases h

theorem initFinish_file (h : initFinish size offset M w = .ok w') : w'.file = w.file := by
  unfold initFinish at h
  dsimp only at h
  split at h
  · cases h
  · split at h
    · cases h
    · cases h; rfl

/-- **The exits of `PmallocInit`.** A call that returns has failed the checks, or lost the CAS, and
changed nothing; or it has won the CAS and left the body when the mapping failed, when the header
check failed, or at the end. -/
theorem pmallocInit_exits {ret : Option Nat} (h : pmallocInit fname size offset r w = .ok (w', ret)) :
    (initArgsOk size offset = false ∧ w' = w ∧ ret = none) ∨
    (initArgsOk size offset = true ∧ w.initState ≠ initNotDone ∧ w' = w ∧ ret = none) ∨
    (initArgsOk size offset = true ∧ w.initState = initNotDone ∧
      ((∃ w₁, initGrow fname size offset r { w with initState := initOngoing } = (w₁, none) ∧
          w' = { w₁ with initState := initNotDone } ∧ ret = none) ∨
        (∃ w₁ M w₂, initGrow fname size offset r { w with initState := initOngoing } = (w₁, some M) ∧
          initHeader size offset M w₁ = (w₂, false) ∧ w' = { w₂ with initState := initNotDone } ∧
          ret = none) ∨
        (∃ w₁ M w₂ w₃, initGrow fname size offset r { w with initState := initOngoing } = (w₁, some M) ∧
          initHeader size offset M w₁ = (w₂, true) ∧ initFinish size offset M w₂ = .ok w₃ ∧
          w' = { w₃ with initState := initDone } ∧ ret = some M))) := by
  unfold pmallocInit at h
  cases hargs : initArgsOk size offset
  · simp only [hargs, Bool.not_false, if_true] at h
    cases h; exact .inl ⟨rfl, rfl, rfl⟩
  simp only [hargs, Bool.not_true, Bool.false_eq_true, if_false] at h
  by_cases hcas : w.initState = initNotDone
  swap
  · rw [if_pos hcas] at h; cases h; exact .inr (.inl ⟨rfl, hcas, rfl, rfl⟩)
  rw [if_neg (not_not.2 hcas)] at h
  refine .inr (.inr ⟨rfl, hcas, ?_⟩)
  rcases hg : initGrow fname size offset r { w with initState := initOngoing } with ⟨w₁, _ | M⟩
  · rw [hg] at h; cases h; exact .inl ⟨w₁, rfl, rfl, rfl⟩
  rw [hg] at h; dsimp only at h
  rcases hh : initHeader size offset M w₁ with ⟨w₂, _ | _⟩
  · rw [hh] at h; dsimp only at h; cases h; exact .inr (.inl ⟨w₁, M, w₂, rfl, hh, rfl, rfl⟩)
  rw [hh] at h; dsimp only at h
  rcases hf : initFinish size offset M w₂ with _ | w₃
  · rw [hf] at h; cases h
  rw [hf] at h; cases h; exact .inr (.inr ⟨w₁, M, w₂, w₃, rfl, hh, hf, rfl, rfl⟩)

end Parts

/-- A world left by an earlier run of 128 MiB: nothing mapped, no free span, and the backing file's
header records the magic and a size of 128 MiB. -/
def staleWorld : World where
  initState := initNotDone
  info := ⟨"", (0, 0), (0, 0), 0, 0⟩
  free := []
  spanMap := []
  mapped := []
  file := fun o => if o = 0 then pmemHdrMagic else if o = 8 then 2 * pmemInitSize else 0

/-- Asked for 64 MiB over that file, `PmallocInit` returns nil with the region unmapped and a free
span of 7931 pages over it left in the heap. -/
theorem pmallocInit_sizeMismatch :
    ∃ w, pmallocInit "" pmemInitSize 0 (some (2 ^ 32, 2 ^ 26)) staleWorld = .ok (w, none) ∧
      staleWorld.free = [] ∧ w.free = [⟨2 ^ 32 + 261 * pageSize, 7931⟩] ∧ w.mapped = [] :=
  ⟨_, rfl, rfl, rfl, rfl⟩

/-- A world before the first run: nothing mapped, no free span, an empty backing file. -/
def freshWorld : World := { staleWorld with file := fun _ => 0 }

/-- **A 16 GiB region panics.** The arguments pass every check, the CAS is won and the region is
mapped, and then the type bitmap of 519831296 entries does not fit the `1 << 28`-entry array view
it is sliced from. -/
theorem pmallocInit_16GiB :
    initArgsOk (2 ^ 34) 0 = true ∧
      pmallocInit "" (2 ^ 34) 0 (some (2 ^ 32, 2 ^ 34)) freshWorld = .error "slice bounds out of range" :=
  ⟨by decide, rfl⟩

/-- From 8.5 GiB after the offset on, the type bitmap does not fit its array view. -/
theorem initFinish_large {size offset : Int} {M : Nat} {w : World}
    (hargs : initArgsOk size offset = true) (hoff : 0 ≤ offset) (hint : size < 2 ^ 63)
    (hbig : 17 * 2 ^ 29 ≤ size - offset) :
    initFinish size offset M w = .error "slice bounds out of range" := by
  have h := initLayout_typeEntries_large M hargs hoff hint hbig
  unfold initFinish
  dsimp only
  split <;> rfl

/-- **No large region initializes.** For admissible arguments with a non-negative offset and at
least 8.5 GiB after it, every call of `PmallocInit` returns nil or panics, whatever the mapping and
the backing file. -/
theorem pmallocInit_large (fname : String) (size offset : Int) (r : Option (Nat × Nat)) (w : World)
    (hargs : initArgsOk size offset = true) (hoff : 0 ≤ offset) (hint : size < 2 ^ 63)
    (hbig : 17 * 2 ^ 29 ≤ size - offset) :
    (∃ w', pmallocInit fname size offset r w = .ok (w', none)) ∨
      pmallocInit fname size offset r w = .error "slice bounds out of range" := by
  unfold pmallocInit
  split
  · exact .inl ⟨_, rfl⟩
  split
  · exact .inl ⟨_, rfl⟩
  dsimp only
  split
  · exact .inl ⟨_, rfl⟩
  split
  · exact .inl ⟨_, rfl⟩
  · exact .inr (by rw [initFinish_large hargs hoff hint hbig]; rfl)

/-- A region of exactly 8.5 GiB on a fresh file, mapped at `2^32`. -/
theorem pmallocInit_large_threshold :
    initArgsOk (17 * 2 ^ 29) 0 = true ∧
      ((∃ w', pmallocInit "" (17 * 2 ^ 29) 0 (some (2 ^ 32, 17 * 2 ^ 29)) freshWorld = .ok (w', none)) ∨
        pmallocInit "" (17 * 2 ^ 29) 0 (some (2 ^ 32, 17 * 2 ^ 29)) freshWorld =
          .error "slice bounds out of range") :=
  have hargs : initArgsOk (17 * 2 ^ 29) 0 = true := by decide
  ⟨hargs, pmallocInit_large "" _ 0 _ freshWorld hargs (Int.le_refl 0) (by decide) (by decide)⟩

/-! ## Free spans stay mapped -/

/-- Every free span of the heap lies inside a mapped region. -/
def FreeInMapped (w : World) : Prop :=
  ∀ s ∈ w.free, ∃ m ∈ w.mapped, m.1 ≤ s.base ∧ s.base + s.npages * pageSize ≤ m.1 + m.2

instance : DecidablePred FreeInMapped := fun w =>
  inferInstanceAs (Decidable (∀ s ∈ w.free, ∃ m ∈ w.mapped,
    m.1 ≤ s.base ∧ s.base + s.npages * pageSize ≤ m.1 + m.2))

/-- The backing file's header, if it holds the magic, records `size`. -/
def HeaderFor (size offset : Int) (w : World) : Prop :=
  w.file offset = pmemHdrMagic → w.file (offset + 8) = size

section Mapped

variable {fname : String} {size offset : Int} {r : Option (Nat × Nat)} {M : Nat} {w w' : World}

theorem FreeInMapped.of_sameHeap (h : FreeInMapped w) (hs : SameHeap w w') : FreeInMapped w' := by
  rw [FreeInMapped, hs.1, hs.2.2.1]; exact h

/-- The span `growPmemRegion` frees lies inside the region it maps. -/
theorem seedSpan_mapped (hargs : initArgsOk size offset = true) (hoff : 0 ≤ offset)
    (hint : size < 2 ^ 63)
    (hmap : M + (initSizes size offset).totalPages <<< pageShift % 2 ^ 64 ≤ 2 ^ 64) :
    M ≤ (seedSpan M (initSizes size offset).totalPages (initSizes size offset).reservePages).base ∧
      (seedSpan M (initSizes size offset).totalPages (initSizes size offset).reservePages).base +
        (seedSpan M (initSizes size offset).totalPages (initSizes size offset).reservePages).npages *
          pageSize ≤ M + (initSizes size offset).totalPages <<< pageShift % 2 ^ 64 := by
  -- the mapping is as long as the region, so it ends inside the address space
  obtain ⟨o, n, rfl, hsz, -, ho, -, -, -, htp⟩ := initSizes_nat hargs hoff hint
  have hask : (initSizes size o).totalPages <<< pageShift % 2 ^ 64 = size.toNat := by
    rw [htp, shiftLeft_pageShift_mod (by omega)]; omega
  rw [hask] at hmap ⊢
  obtain ⟨o', n, R, U, ho', hsz, -, hR, hU, -, hrp, htp, ha⟩ := initAddrs_nat M hargs hoff hint hmap
  have hseed : seedSpan M (initSizes size o).totalPages (initSizes size o).reservePages =
      ⟨(initAddrs (initSizes size o) o M).startAddr, (initAddrs (initSizes size o) o M).usablePages⟩ :=
    rfl
  rw [hseed, ha, pageSize]
  dsimp only
  omega

theorem HeaderFor.of_file (h : HeaderFor size offset w) (hf : w'.file = w.file) :
    HeaderFor size offset w' := by
  unfold HeaderFor; rw [hf]; exact h

/-- A header check that passes leaves a header that records `size`. -/
theorem initHeader_headerFor (h : initHeader size offset M w = (w', true)) :
    HeaderFor size offset w' := by
  unfold initHeader at h
  split at h
  · split at h
    · cases h
    · rename_i hsz; cases h; exact fun _ => not_not.1 hsz
  · cases h
    intro _
    show Function.update (Function.update w.file (offset + 8) size) offset pmemHdrMagic (offset + 8) = size
    rw [Function.update_noteq (by omega), Function.update_same]

/-- A mapping inside the address space keeps the free spans mapped: the seed span lies in it. -/
theorem FreeInMapped.initGrow (hargs : initArgsOk size offset = true) (hoff : 0 ≤ offset)
    (hint : size < 2 ^ 63) (hr : ∀ M len, r = some (M, len) → M + len ≤ 2 ^ 64)
    (hw : FreeInMapped w) (hg : initGrow fname size offset r w = (w', some M)) : FreeInMapped w' := by
  obtain ⟨hr', hm, hf, -, -⟩ := initGrow_some hg
  have hs := seedSpan_mapped hargs hoff hint (hr _ _ hr')
  intro s hs'
  rw [hf] at hs'
  rw [hm]
  rcases List.mem_cons.1 hs' with rfl | hs'
  · exact ⟨_, List.mem_cons_self _ _, hs⟩
  · obtain ⟨m, hm, hle⟩ := hw s hs'
    exact ⟨m, List.mem_cons_of_mem _ hm, hle⟩

/-- **One call keeps free spans mapped**, unless it finds a header recording another size: a call
with a non-negative offset, whose mapping lies inside the address space, over a file whose header
records `size` if it holds the magic, leaves every free span inside a mapped region, and the header
still recording `size`. -/
theorem pmallocInit_freeInMapped {ret : Option Nat} (hoff : 0 ≤ offset) (hint : size < 2 ^ 63)
    (hr : ∀ M len, r = some (M, len) → M + len ≤ 2 ^ 64) (hw : FreeInMapped w)
    (hh : HeaderFor size offset w) (h : pmallocInit fname size offset r w = .ok (w', ret)) :
    FreeInMapped w' ∧ HeaderFor size offset w' := by
  rcases pmallocInit_exits h with ⟨-, rfl, -⟩ | ⟨-, -, rfl, -⟩ |
    ⟨hargs, -, ⟨w₁, hg, rfl, -⟩ | ⟨w₁, M, w₂, hg, hh₂, -⟩ | ⟨w₁, M, w₂, w₃, hg, hh₂, hf, rfl, -⟩⟩
  · exact ⟨hw, hh⟩
  · exact ⟨hw, hh⟩
  · have hw₁ : FreeInMapped w₁ :=
      (show FreeInMapped { w with initState := initOngoing } from hw).of_sameHeap (initGrow_none hg)
    have hh₁ : HeaderFor size offset w₁ :=
      (show HeaderFor size offset { w with initState := initOngoing } from hh).of_file
        (initGrow_none_file hg)
    exact ⟨hw₁, hh₁⟩
  · -- the header records `size`, so the check does not fail
    obtain ⟨-, -, -, -, hfile⟩ := initGrow_some hg
    obtain ⟨hmag, hsz, -⟩ := initHeader_false hh₂
    rw [hfile] at hmag hsz
    exact absurd (hh hmag) hsz
  · have hw₃ : FreeInMapped w₃ :=
      (((show FreeInMapped { w with initState := initOngoing } from hw).initGrow hargs hoff hint hr
        hg).of_sameHeap (initHeader_true hh₂)).of_sameHeap (initFinish_ok hf)
    have hh₃ : HeaderFor size offset w₃ := (initHeader_headerFor hh₂).of_file (initFinish_file hf)
    exact ⟨hw₃, hh₃⟩

end Mapped

/-- A program that calls `PmallocInit(fname, size, offset)` once for each entry of `calls`, with the
mapping `h.sysAlloc` gives that call; a panic ends the program. -/
def pmallocInitRun (size offset : Int) : List (String × Option (Nat × Nat)) → World → Except String World
  | [], w => pure w
  | (fname, r) :: calls, w => do
    let (w, _) ← pmallocInit fname size offset r w
    pmallocInitRun size offset calls w

/-- **Free spans stay mapped over a run** of calls with one size and one non-negative offset, whose
mappings lie inside the address space, over a file whose header records that size if it holds the
magic: if every free span lies inside a mapped region before the run, it does after it. -/
theorem pmallocInitRun_freeInMapped (size offset : Int) (calls : List (String × Option (Nat × Nat)))
    (w w' : World) (hoff : 0 ≤ offset) (hint : size < 2 ^ 63)
    (hr : ∀ c ∈ calls, ∀ M len, c.2 = some (M, len) → M + len ≤ 2 ^ 64) (hw : FreeInMapped w)
    (hh : HeaderFor size offset w) (h : pmallocInitRun size offset calls w = .ok w') :
    FreeInMapped w' := by
  induction calls generalizing w with
  | nil => cases h; exact hw
  | cons c calls ih =>
    obtain ⟨fname, r⟩ := c
    cases h₁ : pmallocInit fname size offset r w with
    | error e => simp only [pmallocInitRun, h₁, bind, Except.bind] at h; cases h
    | ok p =>
      obtain ⟨w₁, ret⟩ := p
      simp only [pmallocInitRun, h₁, bind, Except.bind] at h
      obtain ⟨hw₁, hh₁⟩ :=
        pmallocInit_freeInMapped hoff hint (hr _ (List.mem_cons_self _ _)) hw hh h₁
      exact ih w₁ (fun c hc => hr c (List.mem_cons_of_mem _ hc)) hw₁ hh₁ h

/-- Two calls of 64 MiB on a fresh file: the first maps the region at `2^32` and initializes it, the
second loses the CAS. -/
theorem pmallocInitRun_freeInMapped_twoCalls :
    (∀ c ∈ [("", some (2 ^ 32, 2 ^ 26)), ("", some (2 ^ 33, 2 ^ 26))], ∀ M len,
      c.2 = some (M, len) → M + len ≤ 2 ^ 64) ∧
    FreeInMapped freshWorld ∧ HeaderFor pmemInitSize 0 freshWorld ∧
    ∃ w', pmallocInitRun pmemInitSize 0 [("", some (2 ^ 32, 2 ^ 26)), ("", some (2 ^ 33, 2 ^ 26))]
      freshWorld = .ok w' ∧ FreeInMapped w' := by
  have hr : ∀ c ∈ [("", some (2 ^ 32, 2 ^ 26)), ("", some (2 ^ 33, 2 ^ 26))], ∀ M len,
      c.2 = some (M, len) → M + len ≤ 2 ^ 64 := by
    intro c hc M len e
    simp only [List.mem_cons, List.mem_singleton, List.not_mem_nil, or_false] at hc
    rcases hc with rfl | rfl <;> cases e <;> decide
  have hw : FreeInMapped freshWorld := fun _ h => absurd h (List.not_mem_nil _)
  have hh : HeaderFor pmemInitSize 0 freshWorld := fun e => absurd e (by decide)
  obtain ⟨w', hrun⟩ : ∃ w', pmallocInitRun pmemInitSize 0
      [("", some (2 ^ 32, 2 ^ 26)), ("", some (2 ^ 33, 2 ^ 26))] freshWorld = .ok w' := ⟨_, by rfl⟩
  exact ⟨hr, hw, hh, w', hrun, pmallocInitRun_freeInMapped pmemInitSize 0 _ freshWorld w'
    (Int.le_refl 0) (by decide) hr hw hh hrun⟩

end GoPmem
