import GoPmem.Init.PmallocInit
import GoPmem.SpanLog.Revisions

/-!
# GoPmem.Init.RegionLog — the logging calls of the region revision, after `PmallocInit`

In the region revision the logging calls find the logs through `pmemInfo`, which `PmallocInit`
fills: `logSpanAlloc` and `logSpanFree` index the slice `pmemInfo.spanBitmap` by the page of the
span's first address, and `logHeapBits` checks `inPmem(addr)`, indexes `pmemInfo.typeBitmap` by
`(addr - startAddr) / 32` and copies the heap bits from there on, one byte at a time, with no
further bounds check.

* `sliceIndex`: `&sl[i]`, which panics beyond the slice's length. `ChangesOnly m m' lo hi`: the
  bytes outside `[lo, hi)` are the same.
* `V0.spanLogValue`, `V0.logSpanAlloc`, `V0.logSpanFree`, `V0.inPmem`, `V0.copyHeapBits`,
  `V0.logHeapBits`: the calls of the region revision.
* `logSpanAlloc_idempotent`: in each revision, a second `logSpanAlloc` of a span right after one
  that returned changes nothing.
* `V0.copyHeapBits_changes`, `V0.copyHeapBits_copies`: the loop writes its `n` bytes and no
  others, and copies the bytes it reads when the two ranges are apart.
* `pmallocInit_info`: what a `PmallocInit` call that returns the region leaves in `pmemInfo`;
  `RegionLayout`: the bounds of the two bitmaps that follow (`pmallocInit_layout`), under which
  `RegionLayout.logHeapBits` gives the bytes a heap-bits call writes.
* `regionSpanLog_in_metadata`, `regionHeapBits_in_metadata`: after such a call, every span and
  every object of the managed range is logged where its slot is, and no logging call writes outside
  the bytes between the header words and `startAddr`.
-/

namespace GoPmem

/-! ## Slices and the bytes a call changes -/

/-- `&sl[index]` of a slice `sl` (its address and length) of elements of `width` bytes; an index
beyond the length panics. -/
def sliceIndex (sl : Nat × Nat) (width index : Nat) : Except String Nat :=
  if index < sl.2 then pure (sl.1 + index * width) else throw "index out of range"

/-- `m'` holds what `m` holds at every address outside `[lo, hi)`. -/
def ChangesOnly (m m' : Mem) (lo hi : Nat) : Prop := ∀ b, b < lo ∨ hi ≤ b → m' b = m b

section Changes

variable {m m' m'' : Mem} {lo hi : Nat}

theorem ChangesOnly.refl (m : Mem) (lo hi : Nat) : ChangesOnly m m lo hi := fun _ _ => rfl

theorem ChangesOnly.mono (h : ChangesOnly m m' lo hi) {lo' hi' : Nat} (hlo : lo' ≤ lo)
    (hhi : hi ≤ hi') : ChangesOnly m m' lo' hi' := fun b hb => h b (by omega)

theorem ChangesOnly.trans (h : ChangesOnly m m' lo hi) (h' : ChangesOnly m' m'' lo hi) :
    ChangesOnly m m'' lo hi := fun b hb => (h' b hb).trans (h b hb)

theorem changesOnly_storeUInt (m : Mem) (a n v : Nat) : ChangesOnly m (storeUInt m a n v) a (a + n) :=
  fun _ hb => storeUInt_of_not_mem hb

theorem changesOnly_update (m : Mem) (a : Nat) (x : UInt8) :
    ChangesOnly m (Function.update m a x) a (a + 1) :=
  fun _ hb => Function.update_noteq (by omega) _ _

end Changes

theorem sliceIndex_of_lt {sl : Nat × Nat} {width index : Nat} (h : index < sl.2) :
    sliceIndex sl width index = pure (sl.1 + index * width) := if_pos h

/-- The compare-and-store changes at most the word it is given. -/
theorem V1.logSpanAllocAt_changes {m m' : Mem} {a v : Nat} (h : V1.logSpanAllocAt m a v = .ok m') :
    ChangesOnly m m' a (a + 4) := by
  unfold V1.logSpanAllocAt at h
  dsimp only at h
  split_ifs at h <;> cases h
  all_goals first | exact .refl _ _ _ | exact changesOnly_storeUInt _ _ _ _

/-! ## The calls of the region revision -/

/-- `spanLogValue` of the region revision: the word of pmemLog.go. -/
def V0.spanLogValue (s : MSpan) : Nat := V1.spanLogValue s

/-- `logSpanAlloc` of the region revision: the word of the span's first page in `pmemInfo.spanBitmap`. -/
def V0.logSpanAlloc (info : PmemInfo) (m : Mem) (s : MSpan) : Except String Mem :=
  if s.memtype = isNotPersistent then throw "Invalid span passed to logSpanAlloc"
  else do
    let index := usub s.base info.startAddr >>> pageShift
    let logVal := V0.spanLogValue s
    let logAddr ← sliceIndex info.spanBitmap 4 index
    V1.logSpanAllocAt m logAddr logVal

/-- `logSpanFree` of the region revision. -/
def V0.logSpanFree (info : PmemInfo) (m : Mem) (s : MSpan) : Except String Mem :=
  if s.memtype = isNotPersistent then throw "Invalid span passed to logSpanFree"
  else do
    let index := usub s.base info.startAddr >>> pageShift
    let logAddr ← sliceIndex info.spanBitmap 4 index
    pure (storeUInt m logAddr 4 0)

/-- `inPmem(addr)`: `addr` lies in `[startAddr, endAddr]`. -/
def V0.inPmem (info : PmemInfo) (addr : Nat) : Bool :=
  addr ≥ info.startAddr && addr ≤ info.endAddr

/-- The loop of `logHeapBits`: copy the byte at `sourceAddr` to `bitAddr`, stop once `endByte` is
copied, and otherwise move both on by one. The source pointer reaches `endByte` within `2^64`
turns, which bound the recursion. -/
def V0.copyHeapBits (endByte : Nat) : Nat → Mem → Nat → Nat → Mem
  | 0, m, _, _ => m
  | fuel + 1, m, bitAddr, sourceAddr =>
    let m := Function.update m bitAddr (m sourceAddr)
    if sourceAddr = endByte then m
    else V0.copyHeapBits endByte fuel m (uadd bitAddr 1) (uadd sourceAddr 1)

/-- `logHeapBits(addr, startByte, endByte)` of the region revision. -/
def V0.logHeapBits (info : PmemInfo) (m : Mem) (addr startByte endByte : Nat) : Except String Mem :=
  if endByte < startByte then throw "Invalid addresses passed to logHeapBits"
  else if !V0.inPmem info addr then throw "Invalid heap type bits logging request"
  else do
    let offset := usub addr info.startAddr / 32
    let bitAddr ← sliceIndex info.typeBitmap 1 offset
    pure (V0.copyHeapBits endByte (2 ^ 64) m bitAddr startByte)

/-! ## What one call writes -/

section Calls

variable {info : PmemInfo} {m m' : Mem} {s : MSpan}

/-- A span of the region passes the index check, and is logged at the word of its first page. -/
theorem V0.logSpanAlloc_of_lt (hp : s.memtype ≠ isNotPersistent)
    (hi : usub s.base info.startAddr >>> pageShift < info.spanBitmap.2) :
    V0.logSpanAlloc info m s = V1.logSpanAllocAt m
      (info.spanBitmap.1 + (usub s.base info.startAddr >>> pageShift) * 4) (V0.spanLogValue s) := by
  simp only [V0.logSpanAlloc, if_neg hp, sliceIndex_of_lt hi, pure_bind]

theorem V0.logSpanFree_of_lt (hp : s.memtype ≠ isNotPersistent)
    (hi : usub s.base info.startAddr >>> pageShift < info.spanBitmap.2) :
    V0.logSpanFree info m s =
      pure (storeUInt m (info.spanBitmap.1 + (usub s.base info.startAddr >>> pageShift) * 4) 4 0) := by
  simp only [V0.logSpanFree, if_neg hp, sliceIndex_of_lt hi, pure_bind]

/-- A `logSpanAlloc` that returns has passed both checks and run the compare-and-store. -/
theorem V0.logSpanAlloc_ok (h : V0.logSpanAlloc info m s = .ok m') :
    s.memtype ≠ isNotPersistent ∧ usub s.base info.startAddr >>> pageShift < info.spanBitmap.2 ∧
      V1.logSpanAllocAt m (info.spanBitmap.1 + (usub s.base info.startAddr >>> pageShift) * 4)
        (V0.spanLogValue s) = .ok m' := by
  by_cases hp : s.memtype = isNotPersistent
  · rw [V0.logSpanAlloc, if_pos hp] at h; cases h
  by_cases hi : usub s.base info.startAddr >>> pageShift < info.spanBitmap.2
  · rw [V0.logSpanAlloc_of_lt hp hi] at h
    exact ⟨hp, hi, h⟩
  · simp only [V0.logSpanAlloc, if_neg hp, sliceIndex, if_neg hi] at h; cases h

/-- A span call that returns has written inside the span bitmap only. -/
theorem V0.logSpanAlloc_changes (h : V0.logSpanAlloc info m s = .ok m') :
    ChangesOnly m m' info.spanBitmap.1 (info.spanBitmap.1 + info.spanBitmap.2 * 4) := by
  obtain ⟨-, hi, h⟩ := V0.logSpanAlloc_ok h
  exact (V1.logSpanAllocAt_changes h).mono (by omega) (by omega)

theorem V0.logSpanFree_ok (h : V0.logSpanFree info m s = .ok m') :
    s.memtype ≠ isNotPersistent ∧ usub s.base info.startAddr >>> pageShift < info.spanBitmap.2 ∧
      m' = storeUInt m (info.spanBitmap.1 + (usub s.base info.startAddr >>> pageShift) * 4) 4 0 := by
  by_cases hp : s.memtype = isNotPersistent
  · rw [V0.logSpanFree, if_pos hp] at h; cases h
  by_cases hi : usub s.base info.startAddr >>> pageShift < info.spanBitmap.2
  · rw [V0.logSpanFree_of_lt hp hi] at h; cases h
    exact ⟨hp, hi, rfl⟩
  · simp only [V0.logSpanFree, if_neg hp, sliceIndex, if_neg hi] at h; cases h

theorem V0.logSpanFree_changes (h : V0.logSpanFree info m s = .ok m') :
    ChangesOnly m m' info.spanBitmap.1 (info.spanBitmap.1 + info.spanBitmap.2 * 4) := by
  obtain ⟨-, hi, rfl⟩ := V0.logSpanFree_ok h
  exact (changesOnly_storeUInt _ _ _ _).mono (by omega) (by omega)

end Calls

/-! ## Logging a span twice -/

/-- Storing the value a word holds changes nothing. -/
theorem storeUInt_of_loadUInt {m : Mem} {a n v : Nat} (h : loadUInt m a n = v) :
    storeUInt m a n v = m := by
  rw [← h, storeUInt_loadUInt]

theorem loadUInt_storeUInt_four (m : Mem) (a : Nat) {v : Nat} (hv : v < 2 ^ 32) :
    loadUInt (storeUInt m a 4 v) a 4 = v := by
  rw [loadUInt_storeUInt]; exact Nat.mod_eq_of_lt hv

theorem eq_of_shiftRight_one {x y : Nat} (h1 : x >>> 1 = y >>> 1) (h2 : x &&& 1 = y &&& 1) :
    x = y := by
  simp only [Nat.shiftRight_eq_div_pow, Nat.and_one_is_mod] at h1 h2; omega

theorem V1.spanLogValue_lt (s : MSpan) : V1.spanLogValue s < 2 ^ 32 := Nat.mod_lt _ (by decide)

/-- A compare-and-store that returns leaves the value in the word: it stored it, or the word
agreed in every bit. -/
theorem V1.logSpanAllocAt_ok {m m' : Mem} {a v : Nat} (h : V1.logSpanAllocAt m a v = .ok m') :
    m' = storeUInt m a 4 v := by
  unfold V1.logSpanAllocAt at h
  dsimp only at h
  split_ifs at h with h0 h1 h2 <;> cases h
  · rw [← eq_of_shiftRight_one (not_not.1 h1) h2, storeUInt_loadUInt]
  all_goals rfl

/-- A second compare-and-store of the same value finds it, or stores again the zero it holds. -/
theorem V1.logSpanAllocAt_twice {m m' : Mem} {a v : Nat} (hv : v < 2 ^ 32)
    (h : V1.logSpanAllocAt m a v = .ok m') : V1.logSpanAllocAt m' a v = .ok m' := by
  have hw : loadUInt m' a 4 = v := by rw [V1.logSpanAllocAt_ok h, loadUInt_storeUInt_four _ _ hv]
  unfold V1.logSpanAllocAt
  dsimp only
  rw [hw]
  by_cases hv0 : v = 0
  · subst hv0
    rw [if_neg (not_not.2 rfl), storeUInt_of_loadUInt hw]; rfl
  · rw [if_pos hv0, if_neg (not_not.2 rfl), if_pos rfl]; rfl

theorem logSpanAlloc_twice {hs : HeaderSizes} {pa : PArena} {s : MSpan} {m m' : Mem}
    (h : logSpanAlloc hs m pa s = .ok m') : logSpanAlloc hs m' pa s = .ok m' := by
  have hp : s.memtype ≠ isNotPersistent := fun hp => by rw [logSpanAlloc, if_pos hp] at h; cases h
  have hw : loadUInt m' (spanLogAddr hs pa s) 4 = spanLogValue s := by
    rw [logSpanAlloc_ok h, loadUInt_storeUInt_four _ _ (spanLogValue_lt s)]
  obtain ⟨m'', h'⟩ := logSpanAlloc_isOk hp (.inr (by rw [hw]))
  rwa [logSpanAlloc_ok h', storeUInt_of_loadUInt hw] at h'

theorem V1.logSpanAlloc_twice {hs : HeaderSizes} {pa : PArena} {s : MSpan} {m m' : Mem}
    (h : V1.logSpanAlloc hs m pa s = .ok m') : V1.logSpanAlloc hs m' pa s = .ok m' := by
  unfold V1.logSpanAlloc at h ⊢
  split_ifs at h ⊢
  exact V1.logSpanAllocAt_twice (V1.spanLogValue_lt s) h

theorem V0.logSpanAlloc_twice {info : PmemInfo} {s : MSpan} {m m' : Mem}
    (h : V0.logSpanAlloc info m s = .ok m') : V0.logSpanAlloc info m' s = .ok m' := by
  obtain ⟨hp, hi, h⟩ := V0.logSpanAlloc_ok h
  rw [V0.logSpanAlloc_of_lt hp hi]
  exact V1.logSpanAllocAt_twice (V1.spanLogValue_lt s) h

/-- **Logging a span twice is logging it once**, in each of the three revisions: right after a
`logSpanAlloc` of a span that returned, a second one of the same span returns the same memory.
This holds for every memory, also when the span's word is zero. -/
theorem logSpanAlloc_idempotent (hs : HeaderSizes) (pa : PArena) (info : PmemInfo) (s : MSpan)
    (m m' : Mem) :
    (logSpanAlloc hs m pa s = .ok m' → logSpanAlloc hs m' pa s = .ok m') ∧
      (V1.logSpanAlloc hs m pa s = .ok m' → V1.logSpanAlloc hs m' pa s = .ok m') ∧
      (V0.logSpanAlloc info m s = .ok m' → V0.logSpanAlloc info m' s = .ok m') :=
  ⟨logSpanAlloc_twice, V1.logSpanAlloc_twice, V0.logSpanAlloc_twice⟩

/-- The five-page span, logged twice from a zero memory in the arena revision. -/
theorem logSpanAlloc_idempotent_fivePageSpan :
    ∃ m', logSpanAlloc ⟨0, 0⟩ (fun _ => 0) ⟨0, 0, 0, 0, 0, 0, 0⟩ fivePageSpan.toMSpan = .ok m' ∧
      logSpanAlloc ⟨0, 0⟩ m' ⟨0, 0, 0, 0, 0, 0, 0⟩ fivePageSpan.toMSpan = .ok m' :=
  ⟨_, rfl, (logSpanAlloc_idempotent ⟨0, 0⟩ ⟨0, 0, 0, 0, 0, 0, 0⟩ ⟨"", (0, 1), (0, 0), 0, 0⟩
    fivePageSpan.toMSpan (fun _ => 0) _).1 rfl⟩

/-! ## The heap-bits loop -/

section Copy

variable {endByte : Nat}

/-- The loop writes the `endByte - sourceAddr + 1` bytes from `bitAddr` on, and no other. -/
theorem V0.copyHeapBits_changes {fuel : Nat} {m : Mem} {bitAddr sourceAddr : Nat}
    (hs : sourceAddr ≤ endByte) (hfuel : endByte - sourceAddr < fuel) (hend : endByte < 2 ^ 64)
    (hbit : bitAddr + (endByte - sourceAddr) < 2 ^ 64) :
    ChangesOnly m (V0.copyHeapBits endByte fuel m bitAddr sourceAddr) bitAddr
      (bitAddr + (endByte - sourceAddr + 1)) := by
  induction fuel generalizing m bitAddr sourceAddr with
  | zero => omega
  | succ fuel ih =>
    simp only [V0.copyHeapBits]
    split_ifs with he
    · exact (changesOnly_update _ _ _).mono le_rfl (by omega)
    · rw [uadd_of_lt (by omega), uadd_of_lt (by omega)]
      exact ((changesOnly_update _ _ _).mono le_rfl (by omega)).trans
        ((ih (by omega) (by omega) (by omega)).mono (by omega) (by omega))

/-- When the bytes it reads lie apart from those it writes, the loop copies them in order. -/
theorem V0.copyHeapBits_copies {fuel : Nat} {m : Mem} {bitAddr sourceAddr : Nat}
    (hs : sourceAddr ≤ endByte) (hfuel : endByte - sourceAddr < fuel) (hend : endByte < 2 ^ 64)
    (hbit : bitAddr + (endByte - sourceAddr) < 2 ^ 64)
    (hapart : endByte < bitAddr ∨ bitAddr + (endByte - sourceAddr) < sourceAddr) :
    ∀ k ≤ endByte - sourceAddr,
      V0.copyHeapBits endByte fuel m bitAddr sourceAddr (bitAddr + k) = m (sourceAddr + k) := by
  induction fuel generalizing m bitAddr sourceAddr with
  | zero => omega
  | succ fuel ih =>
    intro k hk
    simp only [V0.copyHeapBits]
    split_ifs with he
    · obtain rfl : k = 0 := by omega
      exact Function.update_same _ _ _
    rw [uadd_of_lt (by omega), uadd_of_lt (by omega)]
    rcases k with _ | k
    · -- the first byte is written before the rest of the loop, which leaves it alone
      rw [V0.copyHeapBits_changes (by omega) (by omega) hend (by omega) _ (.inl (by omega))]
      exact Function.update_same _ _ _
    · rw [show bitAddr + (k + 1) = bitAddr + 1 + k by omega,
        ih (by omega) (by omega) (by omega) (by omega) k (by omega),
        Function.update_noteq (by omega), show sourceAddr + 1 + k = sourceAddr + (k + 1) by omega]

end Copy

/-- `logHeapBits` for an address of `[startAddr, endAddr]` whose type-bitmap byte exists. -/
theorem V0.logHeapBits_of_lt {info : PmemInfo} {m : Mem} {addr startByte endByte : Nat}
    (hse : startByte ≤ endByte) (hin : V0.inPmem info addr = true)
    (hi : usub addr info.startAddr / 32 < info.typeBitmap.2) :
    V0.logHeapBits info m addr startByte endByte =
      .ok (V0.copyHeapBits endByte (2 ^ 64) m (info.typeBitmap.1 + usub addr info.startAddr / 32)
        startByte) := by
  simp only [V0.logHeapBits, if_neg (show ¬ endByte < startByte by omega), hin, Bool.not_true,
    Bool.false_eq_true, if_false, sliceIndex_of_lt hi, Nat.mul_one, pure_bind]; rfl

/-! ## `pmemInfo` after `PmallocInit` -/

section Info

variable {fname : String} {size offset : Int} {r : Option (Nat × Nat)} {M : Nat} {w w' : World}

theorem initGrow_startAddr (h : initGrow fname size offset r w = (w', some M)) :
    w'.info.startAddr = (initAddrs (initSizes size offset) offset M).startAddr := by
  unfold initGrow at h
  dsimp only at h
  split at h
  · cases h
  · cases h; rfl

theorem initHeader_info {b : Bool} (h : initHeader size offset M w = (w', b)) : w'.info = w.info := by
  unfold initHeader at h
  split at h
  · split at h <;> cases h <;> rfl
  · cases h; rfl

theorem initFinish_info (h : initFinish size offset M w = .ok w') :
    let a := initAddrs (initSizes size offset) offset M
    w'.info = { w.info with spanBitmap := (a.spanBitsAddr, a.usablePages),
                            typeBitmap := (a.typeBitsAddr, a.typeEntries), endAddr := a.endAddr } := by
  unfold initFinish at h
  dsimp only at h
  split at h
  · cases h
  · split at h
    · cases h
    · cases h; rfl

/-- What `PmallocInit` records in `pmemInfo` when it returns the region mapped at `M`. -/
theorem pmallocInit_info (h : pmallocInit fname size offset r w = .ok (w', some M)) :
    let a := initAddrs (initSizes size offset) offset M
    initArgsOk size offset = true ∧ w'.info.spanBitmap = (a.spanBitsAddr, a.usablePages) ∧
      w'.info.typeBitmap = (a.typeBitsAddr, a.typeEntries) ∧ w'.info.startAddr = a.startAddr ∧
      w'.info.endAddr = a.endAddr := by
  rcases pmallocInit_exits h with ⟨-, -, ⟨⟩⟩ | ⟨-, -, -, ⟨⟩⟩ |
    ⟨hargs, -, ⟨-, -, -, ⟨⟩⟩ | ⟨-, -, -, -, -, -, ⟨⟩⟩ | ⟨w₁, M', w₂, w₃, hg, hh, hf, rfl, ⟨⟩⟩⟩
  have h₃ := initFinish_info hf
  dsimp only at h₃ ⊢
  rw [h₃, initHeader_info hh, initGrow_startAddr hg]
  exact ⟨hargs, rfl, rfl, rfl, rfl⟩

/-- The same as arithmetic on `Nat`, for a non-negative offset and a mapping inside the address
space: the span bitmap has the `U + 1` usable pages, the type bitmap follows the `n` words
reserved for it, and both end below `startAddr`. -/
theorem pmallocInit_region (hoff : 0 ≤ offset) (hint : size < 2 ^ 63) (hmap : M + size.toNat ≤ 2 ^ 64)
    (h : pmallocInit fname size offset r w = .ok (w', some M)) :
    ∃ o n R U : Nat, size.toNat = o + 8192 * n ∧ U + 1 ≤ n ∧ o + 260 * n + 16 ≤ R * 8192 ∧
      M + R * 8192 + (U + 1) * 8192 = M + size.toNat ∧
      initAddrs (initSizes size offset) offset M =
        ⟨M + R * 8192, M + o, U + 1, M + o + 16, (U + 1) * 256, M + o + 16 + 4 * n,
          M + size.toNat - 1⟩ ∧
      w'.info.spanBitmap = (M + o + 16, U + 1) ∧
      w'.info.typeBitmap = (M + o + 16 + 4 * n, (U + 1) * 256) ∧
      w'.info.startAddr = M + R * 8192 ∧ w'.info.endAddr = M + size.toNat - 1 := by
  obtain ⟨hargs, hsb, htb, hst, hen⟩ := pmallocInit_info h
  obtain ⟨o, n, R, U, rfl, hsz, ho, hR, hU, -, -, -, ha⟩ := initAddrs_nat M hargs hoff hint hmap
  rw [ha] at hsb htb hst hen
  exact ⟨o, n, R, U, hsz, by omega, by omega, by omega, ha, hsb, htb, hst, hen⟩

/-- What `PmallocInit` leaves in `pmemInfo` when it returns a region: a span-bitmap word for every
page of `[startAddr, endAddr]` and a type-bitmap byte for every 32 bytes of it, the type bitmap after
the span bitmap, and both below `startAddr`, in the address space. -/
structure RegionLayout (info : PmemInfo) : Prop where
  span_le_type : info.spanBitmap.1 + info.spanBitmap.2 * 4 ≤ info.typeBitmap.1
  type_le_start : info.typeBitmap.1 + info.typeBitmap.2 ≤ info.startAddr
  start_le_end : info.startAddr ≤ info.endAddr
  end_lt : info.endAddr < 2 ^ 64
  page_lt : (info.endAddr - info.startAddr) / pageSize < info.spanBitmap.2
  byte_lt : (info.endAddr - info.startAddr) / 32 < info.typeBitmap.2

theorem pmallocInit_layout (hoff : 0 ≤ offset) (hint : size < 2 ^ 63) (hmap : M + size.toNat ≤ 2 ^ 64)
    (h : pmallocInit fname size offset r w = .ok (w', some M)) : RegionLayout w'.info := by
  obtain ⟨o, n, R, U, hsz, hUn, hR, hE, -, hsb, htb, hst, hen⟩ := pmallocInit_region hoff hint hmap h
  refine ⟨?_, ?_, ?_, ?_, ?_, ?_⟩ <;> simp only [hsb, htb, hst, hen, pageSize] <;> omega

end Info

/-- The page index of an address of the region. -/
theorem usub_shiftRight_pageShift {b S : Nat} (h : S ≤ b) (hb : b < 2 ^ 64) :
    usub b S >>> pageShift = (b - S) / pageSize := by
  rw [usub_of_le h hb, shiftRight_pageShift]

namespace RegionLayout

variable {info : PmemInfo} (hl : RegionLayout info)
include hl

/-- An address of `[startAddr, endAddr]` has a span-bitmap word. -/
theorem index_lt {b : Nat} (hS : info.startAddr ≤ b) (hE : b ≤ info.endAddr) :
    usub b info.startAddr >>> pageShift < info.spanBitmap.2 := by
  rw [usub_shiftRight_pageShift hS (by have := hl.end_lt; omega)]
  exact lt_of_le_of_lt (Nat.div_le_div_right (show b - info.startAddr ≤ info.endAddr - info.startAddr
    by omega)) hl.page_lt

/-- `logHeapBits` of an object at `addr` of the region whose bits describe addresses up to
`endAddr` only: it returns, writes only the bytes from that of `addr` on, which lie in the type
bitmap, and copies the bits there when the two ranges are apart. -/
theorem logHeapBits (m : Mem) {addr startByte endByte : Nat} (hS : info.startAddr ≤ addr)
    (hfit : addr + 32 * (endByte - startByte) ≤ info.endAddr) (hse : startByte ≤ endByte)
    (hend : endByte < 2 ^ 64) :
    let bitAddr := info.typeBitmap.1 + (addr - info.startAddr) / 32
    ∃ m', V0.logHeapBits info m addr startByte endByte = .ok m' ∧
      ChangesOnly m m' bitAddr (bitAddr + (endByte - startByte + 1)) ∧
      bitAddr + (endByte - startByte + 1) ≤ info.typeBitmap.1 + info.typeBitmap.2 ∧
      (endByte < bitAddr ∨ bitAddr + (endByte - startByte) < startByte →
        ∀ k ≤ endByte - startByte, m' (bitAddr + k) = m (startByte + k)) := by
  have := hl.byte_lt; have := hl.end_lt; have := hl.type_le_start
  have hoffs : usub addr info.startAddr = addr - info.startAddr := usub_of_le hS (by omega)
  have hin : V0.inPmem info addr = true := by
    simp only [V0.inPmem, Bool.and_eq_true, decide_eq_true_eq]; omega
  -- the byte of `addr` and those after it that the loop writes are type-bitmap bytes
  have hkey : (addr - info.startAddr) / 32 + (endByte - startByte) < info.typeBitmap.2 := by omega
  rw [V0.logHeapBits_of_lt hse hin (by rw [hoffs]; omega), hoffs]
  refine ⟨_, rfl, V0.copyHeapBits_changes hse (by omega) hend (by omega), by omega,
    fun hapart => V0.copyHeapBits_copies hse (by omega) hend (by omega) hapart⟩

end RegionLayout

/-! ## The logging calls after `PmallocInit` -/

section Region

variable {fname : String} {size offset : Int} {r : Option (Nat × Nat)} {M : Nat} {w w' : World}

/-- **Span logging after `PmallocInit`.** Once `PmallocInit` has returned the region mapped at `M`
(with a non-negative offset, and the mapping inside the address space), `logSpanAlloc` and
`logSpanFree` of a persistent span whose first address lies in `[startAddr, endAddr]` pass the
index check and log at the span-bitmap word of its first page; and every call of either that
returns, on any span, writes inside the span bitmap only, which lies between the header's two
words and `startAddr`. -/
theorem regionSpanLog_in_metadata (hoff : 0 ≤ offset) (hint : size < 2 ^ 63)
    (hmap : M + size.toNat ≤ 2 ^ 64) (h : pmallocInit fname size offset r w = .ok (w', some M)) :
    let a := initAddrs (initSizes size offset) offset M
    (∀ (m : Mem) (s : MSpan), s.memtype ≠ isNotPersistent → a.startAddr ≤ s.base →
      s.base ≤ a.endAddr →
      V0.logSpanAlloc w'.info m s = V1.logSpanAllocAt m
          (a.spanBitsAddr + (s.base - a.startAddr) / pageSize * 4) (V0.spanLogValue s) ∧
        V0.logSpanFree w'.info m s =
          .ok (storeUInt m (a.spanBitsAddr + (s.base - a.startAddr) / pageSize * 4) 4 0)) ∧
    (∀ (m m' : Mem) (s : MSpan),
      V0.logSpanAlloc w'.info m s = .ok m' ∨ V0.logSpanFree w'.info m s = .ok m' →
        ChangesOnly m m' a.spanBitsAddr (a.spanBitsAddr + a.usablePages * 4)) ∧
    a.hdrAddr + 16 ≤ a.spanBitsAddr ∧ a.spanBitsAddr + a.usablePages * 4 ≤ a.startAddr := by
  obtain ⟨o, n, R, U, hsz, hUn, hR, hE, ha, hsb, -, hst, hen⟩ := pmallocInit_region hoff hint hmap h
  dsimp only
  rw [ha]
  dsimp only
  refine ⟨fun m s hp hS hE' => ?_, fun m m' s hs => ?_, by omega, by omega⟩
  · have hi := (pmallocInit_layout hoff hint hmap h).index_lt
      (show w'.info.startAddr ≤ s.base by rw [hst]; exact hS)
      (show s.base ≤ w'.info.endAddr by rw [hen]; exact hE')
    rw [V0.logSpanAlloc_of_lt hp hi, V0.logSpanFree_of_lt hp hi, hsb, hst,
      usub_shiftRight_pageShift hS (by omega)]
    exact ⟨rfl, rfl⟩
  · have hc := hs.elim V0.logSpanAlloc_changes V0.logSpanFree_changes
    rwa [hsb] at hc

/-- A first run over a fresh 64 MiB file mapped at `2^32`: 261 pages are reserved, and the span
calls write only the 7931 words from `2^32 + 16` on. -/
theorem regionSpanLog_in_metadata_firstRun :
    ∃ w', pmallocInit "" pmemInitSize 0 (some (2 ^ 32, 2 ^ 26)) freshWorld = .ok (w', some (2 ^ 32)) ∧
      (0 : Int) ≤ 0 ∧ pmemInitSize < 2 ^ 63 ∧ 2 ^ 32 + pmemInitSize.toNat ≤ 2 ^ 64 ∧
      ∀ (m m' : Mem) (s : MSpan),
        V0.logSpanAlloc w'.info m s = .ok m' ∨ V0.logSpanFree w'.info m s = .ok m' →
          ChangesOnly m m' (2 ^ 32 + 16) (2 ^ 32 + 16 + 7931 * 4) := by
  obtain ⟨w', hw⟩ : ∃ w', pmallocInit "" pmemInitSize 0 (some (2 ^ 32, 2 ^ 26)) freshWorld =
      .ok (w', some (2 ^ 32)) := ⟨_, by rfl⟩
  exact ⟨w', hw, le_rfl, by decide, by decide,
    (regionSpanLog_in_metadata (le_refl 0) (by decide) (by decide) hw).2.1⟩

/-- **Heap-bits logging after `PmallocInit`.** Once `PmallocInit` has returned the region mapped at
`M`, `logHeapBits(addr, startByte, endByte)` for an object at `addr` in the region whose heap bits,
one byte for 32 bytes, describe addresses of the region only, returns; it writes inside the type
bitmap only, from the byte of `addr` on, and copies the heap bits there when they lie outside the
mapped region. The copy loop checks no bound itself: that the bytes describe the region is the
caller's part. -/
theorem regionHeapBits_in_metadata (hoff : 0 ≤ offset) (hint : size < 2 ^ 63)
    (hmap : M + size.toNat ≤ 2 ^ 64) (h : pmallocInit fname size offset r w = .ok (w', some M)) :
    let a := initAddrs (initSizes size offset) offset M
    ∀ (m : Mem) (addr startByte endByte : Nat), a.startAddr ≤ addr →
      addr + 32 * (endByte - startByte) ≤ a.endAddr → startByte ≤ endByte → endByte < 2 ^ 64 →
      ∃ m', V0.logHeapBits w'.info m addr startByte endByte = .ok m' ∧
        ChangesOnly m m' a.typeBitsAddr (a.typeBitsAddr + a.typeEntries) ∧
        a.typeBitsAddr + a.typeEntries ≤ a.startAddr ∧
        (endByte < M ∨ M + size.toNat ≤ startByte →
          ∀ k ≤ endByte - startByte,
            m' (a.typeBitsAddr + (addr - a.startAddr) / 32 + k) = m (startByte + k)) := by
  obtain ⟨o, n, R, U, hsz, hUn, hR, hE, ha, -, htb, hst, hen⟩ := pmallocInit_region hoff hint hmap h
  have hl := pmallocInit_layout hoff hint hmap h
  dsimp only
  rw [ha]
  dsimp only
  intro m addr startByte endByte hS hfit hse hend
  obtain ⟨m', hm', hch, hle, hcopy⟩ :=
    hl.logHeapBits m (show w'.info.startAddr ≤ addr by rw [hst]; exact hS)
      (show addr + 32 * (endByte - startByte) ≤ w'.info.endAddr by rw [hen]; exact hfit) hse hend
  rw [htb, hst] at hch hle hcopy
  refine ⟨m', hm', hch.mono (by omega) hle, by omega, fun hapart => hcopy (by omega)⟩

/-- On the same first run, the four heap-bits bytes at address 0 of an object at `startAddr` are
copied to the first four type-bitmap bytes, `2^32 + 16 + 4 * 8192` on. -/
theorem regionHeapBits_in_metadata_firstRun :
    ∃ w', pmallocInit "" pmemInitSize 0 (some (2 ^ 32, 2 ^ 26)) freshWorld = .ok (w', some (2 ^ 32)) ∧
      (0 : Int) ≤ 0 ∧ pmemInitSize < 2 ^ 63 ∧ 2 ^ 32 + pmemInitSize.toNat ≤ 2 ^ 64 ∧
      ∀ m : Mem, ∃ m', V0.logHeapBits w'.info m (2 ^ 32 + 261 * 8192) 0 3 = .ok m' ∧
        ∀ k ≤ 3, m' (2 ^ 32 + 16 + 4 * 8192 + k) = m k := by
  obtain ⟨w', hw⟩ : ∃ w', pmallocInit "" pmemInitSize 0 (some (2 ^ 32, 2 ^ 26)) freshWorld =
      .ok (w', some (2 ^ 32)) := ⟨_, by rfl⟩
  refine ⟨w', hw, le_rfl, by decide, by decide, fun m => ?_⟩
  have ha : initAddrs (initSizes pmemInitSize 0) 0 (2 ^ 32) = ⟨2 ^ 32 + 261 * 8192, 2 ^ 32, 7931,
      2 ^ 32 + 16, 7931 * 256, 2 ^ 32 + 16 + 4 * 8192, 2 ^ 32 + 2 ^ 26 - 1⟩ := by rfl
  obtain ⟨m', hm', -, -, hcopy⟩ := regionHeapBits_in_metadata (le_refl 0) (by decide) (by decide) hw
    m (2 ^ 32 + 261 * 8192) 0 3 (by rw [ha]) (by rw [ha]; decide) (by decide) (by decide)
  rw [ha] at hcopy
  exact ⟨m', hm', by simpa using hcopy (.inl (by decide))⟩

end Region

end GoPmem
