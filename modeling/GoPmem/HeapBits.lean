import GoPmem.SpanLog.Log

/-!
# GoPmem.HeapBits — heap type-bit logging and the footprint of a span's logs

`logHeapBits` copies the pointer bitmap of a newly allocated object into the arena's type bitmap.
On a span whose objects all have one type (`typIndex ≠ 0`) it writes, once per span, a descriptor
`{typIndex, kind, size, ptrdata, gcdata}` at the span's log position instead
(`logTypeDescriptor`). `V1.clearHeapBits` of the earlier revision zeroes an object's type bits;
its `V1.logHeapBits` always copies the object's bits.

* `logHeapBits_flag`: bit 1 of a span's log word, the flag recovery reads, is set exactly when
  the span is small and `logHeapBits` takes its optimized branch; on a large span it is clear
  whatever the branch. `logHeapBits_largeTyped`: a large span with `typIndex ≠ 0` disagrees.
* `logFootprint`: the bytes a span owns in its arena's logs — its span-bitmap word and its slice
  of the type bitmap, `typeSlice`, the only bytes `logHeapBits` writes (`logHeapBits_in_typeSlice`).
* `log_writes_in_footprint`: every log write made for a span of an arena stays inside the span's
  footprint, and footprints of spans with disjoint pages are disjoint.
* `DescriptorAt`: the descriptor of a typed span as recovery reads it. `logHeapBits_typedSpan`:
  the first `logHeapBits` on a typed span leaves it in place, and every later one is a no-op.
-/

namespace GoPmem

/-- The fields of a Go `_type` that the optimized logging copies. -/
structure GoType where
  kind : Nat
  size : Nat
  ptrdata : Nat
  /-- The address of the type's pointer bitmap. -/
  gcdata : Nat
  deriving DecidableEq, Repr

/-- The two's-complement bits of a Go `int`. -/
def intBits (v : Int) : Nat := (v % 2 ^ 64).toNat

variable (hs : HeaderSizes)

/-- The optimized branch of `logHeapBits`: the type descriptor at the span's log position. -/
def logTypeDescriptor (m : Mem) (span : MSpan) (pa : PArena) (typ : GoType) : Mem :=
  let typAddr := pmemHeapBitsAddr hs span.base pa
  let m := if loadUInt m typAddr intSize ≠ intBits span.typIndex then
      storeUInt m typAddr intSize (intBits span.typIndex) else m
  let m := storeUInt m (typAddr + intSize) 1 typ.kind
  let m := storeUInt m (typAddr + 16) 8 typ.size
  let m := storeUInt m (typAddr + 24) 8 typ.ptrdata
  let numHeapTypeBits := (typ.ptrdata + 7) / 8
  let numHeapTypeBytes := (numHeapTypeBits + 7) / 8
  memmove m (typAddr + 32) typ.gcdata numHeapTypeBytes

/-- `logHeapBits`: logs the heap type bits `[startByte, endByte]` of the object at `addr`, an
object of span `span` of arena `pa`. -/
def logHeapBits (m : Mem) (span : MSpan) (pa : PArena) (addr startByte endByte : Nat)
    (typ : GoType) : Except String Mem :=
  if span.memtype ≠ isPersistent then throw "Invalid heap type bits logging request"
  else
    let optLog := span.typIndex ≠ 0
    let numHeapBytes := usub endByte startByte + 1
    if optLog then pure (logTypeDescriptor hs m span pa typ)
    else
      let logAddr := pmemHeapBitsAddr hs addr pa
      pure (memmove m logAddr startByte numHeapBytes)

/-- `clearHeapBits` of the earlier revision: zeroes the type bits of the `size` bytes at `addr`. -/
def V1.clearHeapBits (m : Mem) (span : MSpan) (pa : PArena) (addr size : Nat) :
    Except String Mem :=
  if span.memtype ≠ isPersistent then throw "Invalid heap type bits logging request"
  else
    let heapBitsAddr := V1.pmemHeapBitsAddr hs addr pa
    let numTypeBytes := size / bytesPerBitmapByte
    pure (memclr m heapBitsAddr numTypeBytes)

/-- `logHeapBits` of the earlier revision: no optimized branch; the bits go to the type-bitmap
byte of `addr`, found from `pa.offset`. -/
def V1.logHeapBits (m : Mem) (span : MSpan) (pa : PArena) (addr startByte endByte : Nat) :
    Except String Mem :=
  if span.memtype ≠ isPersistent then throw "Invalid heap type bits logging request"
  else
    let numHeapBytes := usub endByte startByte + 1
    let dstAddr := V1.pmemHeapBitsAddr hs addr pa
    pure (memmove m dstAddr startByte numHeapBytes)

/-- The bytes span `s` owns in the logs of arena `pa`: its span-bitmap word and its slice of the
type bitmap. -/
def logFootprint (pa : PArena) (s : MSpan) (b : Nat) : Prop :=
  spanLogAddr hs pa s ≤ b ∧ b < spanLogAddr hs pa s + 4 ∨
    pmemHeapBitsAddr hs s.base pa ≤ b ∧ b < pmemHeapBitsAddr hs s.base pa + s.npages * pageSize / 32

/-- The type-bitmap bytes of span `s`: `npages * pageSize / 32` bytes from the byte of its base. -/
def typeSlice (pa : PArena) (s : MSpan) (b : Nat) : Prop :=
  pmemHeapBitsAddr hs s.base pa ≤ b ∧ b < pmemHeapBitsAddr hs s.base pa + s.npages * pageSize / 32

/-- Every log write made for span `s` of arena `pa` stays in the span's footprint: the span-log
word of `logSpanAlloc` and `logSpanFree`, the bytes of `logHeapBits` for an object whose bits cover
only the span and a type with `ptrdata ≤ size ≤ elemsize`, and those of `clearHeapBits` for an
object of the span. The footprints of spans with disjoint pages are disjoint, and a span's
type-bitmap bytes lie before the span bitmap, where its word lies. -/
structure LogsInFootprint (pa : PArena) (s : Span) : Prop where
  spanAlloc : ∀ m m' b, logSpanAlloc hs m pa s.toMSpan = .ok m' →
    ¬ logFootprint hs pa s.toMSpan b → m' b = m b
  spanFree : ∀ m m' b, logSpanFree hs m pa s.toMSpan = .ok m' →
    ¬ logFootprint hs pa s.toMSpan b → m' b = m b
  heapBits : ∀ m m' addr startByte endByte typ b, s.base ≤ addr →
    addr + (usub endByte startByte + 1) * 32 ≤ s.limit → typ.ptrdata ≤ typ.size →
    typ.size ≤ s.elemsize → logHeapBits hs m s.toMSpan pa addr startByte endByte typ = .ok m' →
    ¬ logFootprint hs pa s.toMSpan b → m' b = m b
  clearHeapBits : ∀ m m' addr size b, s.base ≤ addr → addr < s.limit → addr + size ≤ s.limit →
    V1.clearHeapBits hs m s.toMSpan pa addr size = .ok m' → ¬ logFootprint hs pa s.toMSpan b →
    m' b = m b
  disjoint : ∀ t : Span, pa.arenaStart ≤ t.base → t.limit ≤ pa.arenaStart + pa.allocSize →
    SpansDisjoint s.toMSpan t.toMSpan →
    ∀ b, ¬ (logFootprint hs pa s.toMSpan b ∧ logFootprint hs pa t.toMSpan b)
  typeBytes : ∀ b, pmemHeapBitsAddr hs s.base pa ≤ b →
    b < pmemHeapBitsAddr hs s.base pa + s.npages * pageSize / 32 →
    pa.typeBitmap hs ≤ b ∧ b < pa.spanBitmap hs
  spanWord_le : pa.spanBitmap hs ≤ spanLogAddr hs pa s.toMSpan

/-! ## The branches of `logHeapBits` -/

section Branches

variable {hs} {m : Mem} {span : MSpan} {pa : PArena} {addr startByte endByte : Nat} {typ : GoType}

theorem logHeapBits_opt (hp : span.memtype = isPersistent) (ht : span.typIndex ≠ 0) :
    logHeapBits hs m span pa addr startByte endByte typ = .ok (logTypeDescriptor hs m span pa typ) := by
  simp only [logHeapBits, hp, ne_eq, not_true_eq_false, ↓reduceIte, ht, not_false_eq_true]; rfl

theorem logHeapBits_direct (hp : span.memtype = isPersistent) (ht : span.typIndex = 0) :
    logHeapBits hs m span pa addr startByte endByte typ =
      .ok (memmove m (pmemHeapBitsAddr hs addr pa) startByte (usub endByte startByte + 1)) := by
  simp only [logHeapBits, hp, ne_eq, not_true_eq_false, ↓reduceIte, ht]; rfl

/-- The descriptor writes only `[typAddr, typAddr + 32 + ⌈⌈ptrdata/8⌉/8⌉)`. -/
theorem logTypeDescriptor_of_not_mem {b : Nat}
    (hb : b < pmemHeapBitsAddr hs span.base pa ∨
      pmemHeapBitsAddr hs span.base pa + 32 + ((typ.ptrdata + 7) / 8 + 7) / 8 ≤ b) :
    logTypeDescriptor hs m span pa typ b = m b := by
  unfold logTypeDescriptor
  rw [memmove_of_not_mem (by omega), storeUInt_of_not_mem (by omega),
    storeUInt_of_not_mem (by omega), storeUInt_of_not_mem (by simp only [intSize]; omega)]
  split
  · exact storeUInt_of_not_mem (by simp only [intSize]; omega)
  · rfl

end Branches

/-- **The flag recovery reads.** Bit 1 of a span's log word is set exactly when the span is small
and `logHeapBits` takes its optimized branch, which writes the type descriptor at the span's log
position, whatever the object; with the flag clear on a small span, `logHeapBits` copies the
object's own bits. On a large span the bit is clear whatever the branch. -/
theorem logHeapBits_flag (s : Span) (hp : s.memtype = isPersistent) :
    ((spanLogValue s.toMSpan).testBit 1 = true ↔ ¬ s.IsLarge ∧ s.typIndex ≠ 0) ∧
    (s.typIndex ≠ 0 → ∀ m pa addr startByte endByte typ,
      logHeapBits hs m s.toMSpan pa addr startByte endByte typ =
        .ok (logTypeDescriptor hs m s.toMSpan pa typ)) ∧
    (s.typIndex = 0 → ∀ m pa addr startByte endByte typ,
      logHeapBits hs m s.toMSpan pa addr startByte endByte typ =
        .ok (memmove m (pmemHeapBitsAddr hs addr pa) startByte (usub endByte startByte + 1))) := by
  refine ⟨?_, fun ht _ _ _ _ _ _ => logHeapBits_opt hp ht, fun ht _ _ _ _ _ _ => logHeapBits_direct hp ht⟩
  rw [spanLogValue_testBit_one]
  simp

theorem logHeapBits_flag_typedSmallSpan :
    ((spanLogValue typedSmallSpan.toMSpan).testBit 1 = true ↔
        ¬ typedSmallSpan.IsLarge ∧ typedSmallSpan.typIndex ≠ 0) ∧
    (typedSmallSpan.typIndex ≠ 0 → ∀ m pa addr startByte endByte typ,
      logHeapBits sampleSizes m typedSmallSpan.toMSpan pa addr startByte endByte typ =
        .ok (logTypeDescriptor sampleSizes m typedSmallSpan.toMSpan pa typ)) ∧
    (typedSmallSpan.typIndex = 0 → ∀ m pa addr startByte endByte typ,
      logHeapBits sampleSizes m typedSmallSpan.toMSpan pa addr startByte endByte typ =
        .ok (memmove m (pmemHeapBitsAddr sampleSizes addr pa) startByte
          (usub endByte startByte + 1))) :=
  logHeapBits_flag sampleSizes typedSmallSpan rfl

/-- `fivePageSpan` with one type for all its objects. -/
def typedFivePageSpan : Span := { fivePageSpan with typIndex := 1 }

/-- A large span with `typIndex ≠ 0`: its flag is clear, yet `logHeapBits` writes the descriptor,
so recovery would read the descriptor as direct heap bits. -/
theorem logHeapBits_largeTyped :
    (spanLogValue typedFivePageSpan.toMSpan).testBit 1 = false ∧
      logHeapBits ⟨0, 0⟩ (fun _ => 0) typedFivePageSpan.toMSpan ⟨0, 0, 0, 0, 0, 0, 0⟩ 0 0 0
        ⟨0, 8, 8, 0⟩ = .ok (logTypeDescriptor ⟨0, 0⟩ (fun _ => 0) typedFivePageSpan.toMSpan
          ⟨0, 0, 0, 0, 0, 0, 0⟩ ⟨0, 8, 8, 0⟩) :=
  ⟨by decide, rfl⟩

/-! ## The footprint of a span -/

section Footprint

variable {hs} {pa : PArena}

theorem persistent_of_logHeapBits {m m' : Mem} {span : MSpan} {addr startByte endByte : Nat}
    {typ : GoType} (h : logHeapBits hs m span pa addr startByte endByte typ = .ok m') :
    span.memtype = isPersistent := by
  by_contra hne
  simp only [logHeapBits, ne_eq, hne, not_false_eq_true, ↓reduceIte] at h
  cases h

/-- A span's footprint as arithmetic: the word of its first page in the span bitmap, and its
`npages * 256` bytes of the type bitmap. -/
theorem logFootprint_iff (hpa : ArenaAt hs pa) {s : Span} (hin : pa.arenaStart ≤ s.base) (b : Nat) :
    logFootprint hs pa s.toMSpan b ↔
      pa.spanBitmap hs + pageOf pa s.toMSpan * 4 ≤ b ∧
        b < pa.spanBitmap hs + pageOf pa s.toMSpan * 4 + 4 ∨
      pa.typeBitmap hs + (s.base - pa.arenaStart) / 32 ≤ b ∧
        b < pa.typeBitmap hs + (s.base - pa.arenaStart) / 32 + s.npages * 256 := by
  rw [logFootprint, spanLogAddr_eq_pageOf hin, pmemHeapBitsAddr_eq hpa hin s.base_lt,
    show s.npages * pageSize / 32 = s.npages * 256 by simp only [pageSize]; omega]

theorem logSpanAlloc_in_footprint {s : Span} {m m' : Mem} {b : Nat}
    (h : logSpanAlloc hs m pa s.toMSpan = .ok m') (hb : ¬ logFootprint hs pa s.toMSpan b) :
    m' b = m b := by
  unfold logFootprint at hb
  rw [logSpanAlloc_ok h]
  exact storeUInt_of_not_mem (by omega)

theorem logSpanFree_in_footprint {s : Span} {m m' : Mem} {b : Nat}
    (h : logSpanFree hs m pa s.toMSpan = .ok m') (hb : ¬ logFootprint hs pa s.toMSpan b) :
    m' b = m b := by
  unfold logFootprint at hb
  unfold logSpanFree at h
  split at h
  · cases h
  · cases h
    exact storeUInt_of_not_mem (by omega)

/-- `logHeapBits` for an object of `s` writes only the type-bitmap bytes of `s`: the object's own
bytes there, or on a typed span a descriptor whose pointer bitmap fits the span. -/
theorem logHeapBits_in_typeSlice (hpa : ArenaAt hs pa) {s : Span} (hin : pa.arenaStart ≤ s.base)
    {m m' : Mem} {addr startByte endByte : Nat} {typ : GoType} {b : Nat} (ha : s.base ≤ addr)
    (hN : addr + (usub endByte startByte + 1) * 32 ≤ s.limit)
    (hpd : s.typIndex ≠ 0 → typ.ptrdata ≤ s.elemsize)
    (h : logHeapBits hs m s.toMSpan pa addr startByte endByte typ = .ok m')
    (hb : ¬ typeSlice hs pa s.toMSpan b) : m' b = m b := by
  unfold typeSlice at hb
  rw [pmemHeapBitsAddr_eq hpa hin s.base_lt] at hb
  have hel := s.elemsize_le
  have hlim := s.limit_le
  have hp := persistent_of_logHeapBits h
  simp only [MSpan.limit, pageSize] at hN hel hlim hb
  by_cases ht : s.typIndex = 0
  · rw [logHeapBits_direct hp ht] at h
    cases h
    rw [pmemHeapBitsAddr_eq hpa (by omega) (by omega)]
    exact memmove_of_not_mem (by omega)
  · rw [logHeapBits_opt hp ht] at h
    cases h
    have := hpd ht
    exact logTypeDescriptor_of_not_mem (by rw [pmemHeapBitsAddr_eq hpa hin s.base_lt]; omega)

theorem logHeapBits_in_footprint (hpa : ArenaAt hs pa) {s : Span} (hin : pa.arenaStart ≤ s.base)
    {m m' : Mem} {addr startByte endByte : Nat} {typ : GoType} {b : Nat} (ha : s.base ≤ addr)
    (hN : addr + (usub endByte startByte + 1) * 32 ≤ s.limit) (hpd : typ.ptrdata ≤ typ.size)
    (hsz : typ.size ≤ s.elemsize) (h : logHeapBits hs m s.toMSpan pa addr startByte endByte typ = .ok m')
    (hb : ¬ logFootprint hs pa s.toMSpan b) : m' b = m b :=
  logHeapBits_in_typeSlice hpa hin ha hN (fun _ => hpd.trans hsz) h fun hsl => hb (.inr hsl)

theorem clearHeapBits_in_footprint (hpa : ArenaAt hs pa) {s : Span} (hin : pa.arenaStart ≤ s.base)
    {m m' : Mem} {addr size b : Nat} (ha : s.base ≤ addr) (hlt : addr < s.limit)
    (hsize : addr + size ≤ s.limit) (h : V1.clearHeapBits hs m s.toMSpan pa addr size = .ok m')
    (hb : ¬ logFootprint hs pa s.toMSpan b) : m' b = m b := by
  rw [logFootprint_iff hpa hin] at hb
  have hlim := s.limit_le
  simp only [MSpan.limit, pageSize] at hlt hsize hlim
  unfold V1.clearHeapBits at h
  split at h
  · cases h
  · cases h
    rw [V1.pmemHeapBitsAddr_eq hpa (by omega) (by omega)]
    exact memclr_of_not_mem (by simp only [bytesPerBitmapByte]; omega)

/-- Spans of the arena with disjoint pages have disjoint footprints. -/
theorem logFootprint_disjoint (hpa : ArenaAt hs pa) {s t : Span} (hin : pa.arenaStart ≤ s.base)
    (ht : pa.arenaStart ≤ t.base) (hend : s.limit ≤ pa.arenaStart + pa.allocSize)
    (htend : t.limit ≤ pa.arenaStart + pa.allocSize) (hd : SpansDisjoint s.toMSpan t.toMSpan)
    (b : Nat) : ¬ (logFootprint hs pa s.toMSpan b ∧ logFootprint hs pa t.toMSpan b) := by
  have hpg := pageOf_ne_of_disjoint hin ht hd
  have hSB : pa.spanBitmap hs = pa.typeBitmap hs + pa.allocSize / 32 := rfl
  rw [logFootprint_iff hpa hin, logFootprint_iff hpa ht]
  unfold pageOf at hpg ⊢
  unfold SpansDisjoint MSpan.limit at hd
  simp only [MSpan.limit, pageSize] at hend htend hd hpg ⊢
  omega

/-- **Log writes stay in their span's footprint**, for every span inside the allocatable range of
an arena whose header lies where its header offset says. -/
theorem log_writes_in_footprint (hpa : ArenaAt hs pa) (s : Span) (hin : pa.arenaStart ≤ s.base)
    (hend : s.limit ≤ pa.arenaStart + pa.allocSize) : LogsInFootprint hs pa s := by
  have hSB : pa.spanBitmap hs = pa.typeBitmap hs + pa.allocSize / 32 := rfl
  have hT := pmemHeapBitsAddr_eq hpa hin s.base_lt
  simp only [MSpan.limit, pageSize] at hend
  refine ⟨fun _ _ _ => logSpanAlloc_in_footprint, fun _ _ _ => logSpanFree_in_footprint,
    fun _ _ _ _ _ _ _ => logHeapBits_in_footprint hpa hin,
    fun _ _ _ _ _ => clearHeapBits_in_footprint hpa hin,
    fun _ ht htend hd => logFootprint_disjoint hpa hin ht hend htend hd, fun b h1 h2 => ?_, ?_⟩
  · rw [hT] at h1 h2
    simp only [pageSize] at h2
    omega
  · rw [spanLogAddr_eq_pageOf hin]
    omega

theorem log_writes_in_footprint_sampleArena :
    LogsInFootprint sampleSizes sampleArena fivePageSpan :=
  log_writes_in_footprint sampleArena_layoutFits.2 fivePageSpan (by decide) (by decide)

end Footprint

/-! ## The descriptor of a typed span -/

theorem intBits_lt (v : Int) : intBits v < 2 ^ 64 := by unfold intBits; omega

/-- The descriptor of a span whose objects have type `typ`, as it lies at `a`: the type index as
an 8-byte `int`, the kind byte at `a + intSize`, `size` and `ptrdata` as words at `a + 16` and
`a + 24`, and from `a + 32` the `⌈⌈ptrdata / 8⌉ / 8⌉` bytes of the type's pointer bitmap. -/
structure DescriptorAt (m : Mem) (a : Nat) (idx : Int) (typ : GoType) : Prop where
  index : loadUInt m a intSize = intBits idx
  kind : loadUInt m (a + intSize) 1 = typ.kind % 256
  size : loadUInt m (a + 16) 8 = typ.size % 2 ^ 64
  ptrdata : loadUInt m (a + 24) 8 = typ.ptrdata % 2 ^ 64
  gcdata : ∀ i < ((typ.ptrdata + 7) / 8 + 7) / 8, m (a + 32 + i) = m (typ.gcdata + i)

section Descriptor

variable {hs} {m : Mem} {span : MSpan} {pa : PArena} {typ : GoType}

/-- The type-index step of the descriptor leaves the index in its word, whether it stores it or
finds it there. -/
theorem loadUInt_typIndex (m : Mem) (a : Nat) (idx : Int) :
    loadUInt (if loadUInt m a intSize ≠ intBits idx then storeUInt m a intSize (intBits idx) else m)
      a intSize = intBits idx := by
  split_ifs with h
  · rw [loadUInt_storeUInt]; exact Nat.mod_eq_of_lt (intBits_lt idx)
  · exact not_not.1 h

/-- **The descriptor reads back.** After the optimized branch the span's log position holds the
span's type index, the type's kind, size and ptrdata, and a copy of its pointer bitmap, when
that bitmap does not overlap the copy. -/
theorem logTypeDescriptor_descriptorAt
    (hg : typ.gcdata + ((typ.ptrdata + 7) / 8 + 7) / 8 ≤ pmemHeapBitsAddr hs span.base pa + 32 ∨
      pmemHeapBitsAddr hs span.base pa + 32 + ((typ.ptrdata + 7) / 8 + 7) / 8 ≤ typ.gcdata) :
    DescriptorAt (logTypeDescriptor hs m span pa typ) (pmemHeapBitsAddr hs span.base pa)
      span.typIndex typ := by
  have h₁ := loadUInt_typIndex m (pmemHeapBitsAddr hs span.base pa) span.typIndex
  unfold logTypeDescriptor
  dsimp only
  generalize pmemHeapBitsAddr hs span.base pa = a at hg h₁ ⊢
  generalize (if loadUInt m a intSize ≠ intBits span.typIndex then
      storeUInt m a intSize (intBits span.typIndex) else m) = m₁ at h₁ ⊢
  simp only [intSize] at h₁ ⊢
  refine ⟨?_, ?_, ?_, ?_, fun i hi => ?_⟩
  · show loadUInt _ a 8 = _
    rw [← h₁]
    refine loadUInt_congr fun i hi => ?_
    rw [memmove_of_not_mem (by omega), storeUInt_of_not_mem (by omega),
      storeUInt_of_not_mem (by omega), storeUInt_of_not_mem (by omega)]
  · show loadUInt _ (a + 8) 1 = _
    refine (Eq.trans ?_ (loadUInt_storeUInt m₁ (a + 8) 1 typ.kind))
    refine loadUInt_congr fun i hi => ?_
    rw [memmove_of_not_mem (by omega), storeUInt_of_not_mem (by omega),
      storeUInt_of_not_mem (by omega)]
  · refine (Eq.trans ?_ (loadUInt_storeUInt (storeUInt m₁ (a + 8) 1 typ.kind) (a + 16) 8 typ.size))
    refine loadUInt_congr fun i hi => ?_
    rw [memmove_of_not_mem (by omega), storeUInt_of_not_mem (by omega)]
  · refine (Eq.trans ?_ (loadUInt_storeUInt
      (storeUInt (storeUInt m₁ (a + 8) 1 typ.kind) (a + 16) 8 typ.size) (a + 24) 8 typ.ptrdata))
    exact loadUInt_congr fun i hi => memmove_of_not_mem (by omega)
  · rw [memmove_apply hi, memmove_of_not_mem (by omega)]

/-- A descriptor already in place is written again unchanged. -/
theorem DescriptorAt.logTypeDescriptor_eq
    (h : DescriptorAt m (pmemHeapBitsAddr hs span.base pa) span.typIndex typ) :
    logTypeDescriptor hs m span pa typ = m := by
  unfold logTypeDescriptor
  dsimp only
  rw [if_neg (not_not.2 h.index), storeUInt_eq_self h.kind, storeUInt_eq_self h.size,
    storeUInt_eq_self h.ptrdata, memmove_eq_self h.gcdata]

end Descriptor

/-- **A typed span is logged once.** On a persistent span with a common type, `logHeapBits` for
any object leaves the span's descriptor at its log position, and every later `logHeapBits` for an
object of the span, with the same type, changes nothing. -/
theorem logHeapBits_typedSpan {span : MSpan} (pa : PArena) (typ : GoType)
    (hp : span.memtype = isPersistent) (ht : span.typIndex ≠ 0)
    (hg : typ.gcdata + ((typ.ptrdata + 7) / 8 + 7) / 8 ≤ pmemHeapBitsAddr hs span.base pa + 32 ∨
      pmemHeapBitsAddr hs span.base pa + 32 + ((typ.ptrdata + 7) / 8 + 7) / 8 ≤ typ.gcdata)
    (m : Mem) (addr startByte endByte : Nat) :
    ∃ m', logHeapBits hs m span pa addr startByte endByte typ = .ok m' ∧
      DescriptorAt m' (pmemHeapBitsAddr hs span.base pa) span.typIndex typ ∧
      ∀ addr' startByte' endByte',
        logHeapBits hs m' span pa addr' startByte' endByte' typ = .ok m' := by
  have hd := logTypeDescriptor_descriptorAt (m := m) hg
  exact ⟨_, logHeapBits_opt hp ht, hd, fun _ _ _ => by rw [logHeapBits_opt hp ht, hd.logTypeDescriptor_eq]⟩

theorem logHeapBits_typedSpan_sampleArena :
    ∃ m', logHeapBits sampleSizes (fun _ => 0) typedSmallSpan.toMSpan sampleArena
        (typedSmallSpan.base + 128) 0 0 ⟨25, 40, 16, 2 ^ 40⟩ = .ok m' ∧
      DescriptorAt m' (pmemHeapBitsAddr sampleSizes typedSmallSpan.base sampleArena)
        typedSmallSpan.typIndex ⟨25, 40, 16, 2 ^ 40⟩ ∧
      ∀ addr' startByte' endByte', logHeapBits sampleSizes m' typedSmallSpan.toMSpan
        sampleArena addr' startByte' endByte' ⟨25, 40, 16, 2 ^ 40⟩ = .ok m' :=
  logHeapBits_typedSpan sampleSizes _ _ rfl (by decide) (.inr (by decide)) _ _ 0 0

end GoPmem
