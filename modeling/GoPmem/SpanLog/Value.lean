import GoPmem.Basic

/-!
# GoPmem.SpanLog.Value — the span-log word

`spanLogValue s` is the `uint32` that `logSpanAlloc` stores for span `s`:
`spanclass << 2 | optTypeLog << 1 | needzero` for a small span and
`(66 + npages - 4) << 3 | spanclass << 2 | needzero` for a large one, truncated to 32 bits.

* `spanLogValue_small`, `spanLogValue_large`: the word as arithmetic on the span's fields.
* `decodeSpanLog`: reads a word back — bits `≥ 2` at most 133 are a small spanclass, larger ones
  are `(npages + 62) << 1 | spanclass`.
* `spanLogValue_lossless`: for every span whose page count fits the 29 bits the word leaves it
  (`Span.FitsWord`), decoding inverts the word; so the word is non-zero and determines the record.
* `spanLogValue_wrapSpan`: without that bound the truncation to 32 bits can make the word zero.
-/

namespace GoPmem

/-! ## The word -/

/-- `spanLogValue`: the value logged for the allocation of span `s`. -/
def spanLogValue (s : MSpan) : Nat :=
  let logVal :=
    if s.elemsize > maxSmallSize then
      let npages := s.elemsize >>> pageShift
      (66 + npages - 4) <<< 3 ||| s.spanclass <<< 2 ||| s.needzero
    else
      let optTypeLog := if s.typIndex ≠ 0 then 1 else 0
      s.spanclass <<< 2 ||| optTypeLog <<< 1 ||| s.needzero
  logVal % 2 ^ 32

/-- What a span-log word records about a span. -/
inductive SpanLogRecord
  | small (spanclass : Nat) (optTypeLog : Bool) (needzero : Nat)
  | large (npages spanclass needzero : Nat)
  deriving DecidableEq, Repr

/-- The record of a span: its shape, spanclass and `needzero`, with its page count when it is
large and its optimized-type flag when it is small. -/
def MSpan.logRecord (s : MSpan) : SpanLogRecord :=
  if s.elemsize > maxSmallSize then .large (s.elemsize >>> pageShift) s.spanclass s.needzero
  else .small s.spanclass (s.typIndex != 0) s.needzero

/-- Reads the record back from a span-log word. -/
def decodeSpanLog (w : Nat) : SpanLogRecord :=
  if w >>> 2 ≤ 133 then .small (w >>> 2) (w.testBit 1) (w % 2)
  else .large (w >>> 3 - 62) (w >>> 2 % 2) (w % 2)

/-- A span whose page count fits the 29 bits the word leaves for it. -/
def Span.FitsWord (s : Span) : Prop := s.IsLarge → s.npages + 62 < 2 ^ 29

instance (s : Span) : Decidable s.FitsWord := inferInstanceAs (Decidable (_ → _))

/-! ## The word as arithmetic -/

section Arith

variable (s : Span)

theorem spanLogValue_small (h : ¬ s.IsLarge) :
    spanLogValue s.toMSpan = s.spanclass * 4 + (if s.typIndex ≠ 0 then 2 else 0) + s.needzero := by
  have hsc := (s.small_spanclass (Nat.le_of_not_lt h)).2
  have hnz := s.needzero_le
  unfold spanLogValue
  dsimp only
  rw [if_neg (show ¬ s.elemsize > maxSmallSize from h)]
  by_cases ht : s.typIndex = 0 <;>
    simp only [ht, ne_eq, not_true_eq_false, not_false_eq_true, ↓reduceIte, Nat.shiftLeft_eq] <;>
    rw [lor_eq_add (x := s.spanclass * 2 ^ 2) (k := 2) (by omega) (by omega),
      lor_eq_add (k := 1) (by omega) (by omega), Nat.mod_eq_of_lt (by omega)]

theorem spanLogValue_large (h : s.IsLarge) :
    spanLogValue s.toMSpan = ((s.npages + 62) * 8 + s.spanclass * 4 + s.needzero) % 2 ^ 32 := by
  have hsc := (s.large_shape h).2
  have hnz := s.needzero_le
  unfold spanLogValue
  dsimp only
  rw [if_pos (show s.elemsize > maxSmallSize from h), s.large_npages h, Nat.shiftLeft_eq,
    Nat.shiftLeft_eq, lor_eq_add (x := (66 + s.npages - 4) * 2 ^ 3) (k := 3) (Nat.dvd_mul_left _ _) (by omega),
    lor_eq_add (k := 1) (by omega) (by omega)]
  congr 1
  omega

/-- Bit 1 of the word, the optimized-type flag, is `typIndex ≠ 0` for a small span and clear for
a large one. -/
theorem spanLogValue_testBit_one :
    (spanLogValue s.toMSpan).testBit 1 = (!decide s.IsLarge && s.typIndex != 0) := by
  have hnz := s.needzero_le
  rw [Nat.testBit_to_div_mod]
  by_cases h : s.IsLarge
  · rw [spanLogValue_large s h]
    simp only [h, decide_True, Bool.not_true, Bool.false_and, decide_eq_false_iff_not]
    omega
  · rw [spanLogValue_small s h]
    by_cases ht : s.typIndex = 0
    · simp only [ht, ne_eq, not_true_eq_false, ↓reduceIte, h, decide_False, Bool.not_false,
        bne_self_eq_false, Bool.and_false, decide_eq_false_iff_not]
      omega
    · have hb : (s.typIndex != 0) = true := by simpa using ht
      simp only [ne_eq, ht, not_false_eq_true, ↓reduceIte, h, decide_False, Bool.not_false, hb,
        Bool.true_and, decide_eq_true_eq]
      omega

end Arith

/-! ## Decoding -/

theorem decodeSpanLog_spanLogValue (s : Span) (hw : s.FitsWord) :
    decodeSpanLog (spanLogValue s.toMSpan) = s.logRecord := by
  have hnz := s.needzero_le
  unfold decodeSpanLog MSpan.logRecord
  by_cases h : s.IsLarge
  · have h5 := s.five_le_npages h
    have hsc := (s.large_shape h).2
    have hfit := hw h
    rw [spanLogValue_large s h, Nat.mod_eq_of_lt (by omega),
      if_pos (show s.elemsize > maxSmallSize from h), s.large_npages h]
    simp only [Nat.shiftRight_eq_div_pow]
    rw [if_neg (by omega)]
    congr 1 <;> omega
  · have hsc := s.small_spanclass (Nat.le_of_not_lt h)
    rw [spanLogValue_small s h, if_neg (show ¬ s.elemsize > maxSmallSize from h),
      Nat.testBit_to_div_mod]
    simp only [Nat.shiftRight_eq_div_pow]
    by_cases ht : s.typIndex = 0
    · simp only [ht, ne_eq, not_true_eq_false, ↓reduceIte, bne_self_eq_false]
      rw [if_pos (by omega)]
      simp only [SpanLogRecord.small.injEq, decide_eq_false_iff_not]
      omega
    · have hb : (s.typIndex != 0) = true := by simpa using ht
      simp only [ne_eq, ht, not_false_eq_true, ↓reduceIte, hb]
      rw [if_pos (by omega)]
      simp only [SpanLogRecord.small.injEq, decide_eq_true_eq]
      omega

theorem spanLogValue_ne_zero (s : Span) (hw : s.FitsWord) : spanLogValue s.toMSpan ≠ 0 := by
  intro h0
  have hd := decodeSpanLog_spanLogValue s hw
  rw [h0] at hd
  unfold MSpan.logRecord at hd
  have := s.small_spanclass
  split at hd <;> simp only [decodeSpanLog, Nat.zero_shiftRight, Nat.zero_le, ↓reduceIte,
    reduceCtorEq, SpanLogRecord.small.injEq] at hd
  omega

theorem spanLogValue_lt (s : MSpan) : spanLogValue s < 2 ^ 32 := Nat.mod_lt _ (by decide)

/-- The bits above the two flags depend only on the spanclass and, for a large span, the page
count. -/
theorem spanLogValue_shiftRight_two (s : Span) :
    spanLogValue s.toMSpan >>> 2 =
      if s.IsLarge then ((s.npages + 62) * 2 + s.spanclass) % 2 ^ 30 else s.spanclass := by
  have hnz := s.needzero_le
  rw [Nat.shiftRight_eq_div_pow]
  by_cases h : s.IsLarge
  · rw [spanLogValue_large s h, if_pos h]; omega
  · rw [spanLogValue_small s h, if_neg h]; split <;> omega

/-- **The span-log word is lossless.** For spans whose page count fits the word, the word is
non-zero, equal words mean equal records, and `decodeSpanLog` inverts it. -/
theorem spanLogValue_lossless (s t : Span) (hs : s.FitsWord) (ht : t.FitsWord) :
    spanLogValue s.toMSpan ≠ 0 ∧
      (spanLogValue s.toMSpan = spanLogValue t.toMSpan → s.logRecord = t.logRecord) ∧
      decodeSpanLog (spanLogValue s.toMSpan) = s.logRecord :=
  ⟨spanLogValue_ne_zero s hs, fun he => by
    rw [← decodeSpanLog_spanLogValue s hs, ← decodeSpanLog_spanLogValue t ht, he],
    decodeSpanLog_spanLogValue s hs⟩

/-- A large span of five pages, the smallest large span, on the first allocatable page of the
sample arena (`sampleArena`, mapped at 4 GiB with 253 pages of metadata). -/
def fivePageSpan : Span where
  base := 2 ^ 32 + 253 * 8192
  npages := 5
  spanclass := 1
  elemsize := 5 * pageSize
  needzero := 1
  typIndex := 0
  memtype := isPersistent
  npages_pos := by decide
  needzero_le := le_refl _
  elemsize_le := le_refl _
  small_spanclass := by decide
  large_shape := fun _ => ⟨rfl, le_refl _⟩
  limit_le := by decide

/-- A one-page span of 64-byte objects with one type for all of them, spanclass 12, on the page
after `fivePageSpan`. -/
def typedSmallSpan : Span where
  base := 2 ^ 32 + 258 * 8192
  npages := 1
  spanclass := 12
  elemsize := 64
  needzero := 0
  typIndex := 3
  memtype := isPersistent
  npages_pos := by decide
  needzero_le := by decide
  elemsize_le := by decide
  small_spanclass := fun _ => ⟨by decide, by decide⟩
  large_shape := fun h => absurd h (by decide)
  limit_le := by decide

theorem spanLogValue_lossless_twoSpans :
    spanLogValue fivePageSpan.toMSpan ≠ 0 ∧
      (spanLogValue fivePageSpan.toMSpan = spanLogValue typedSmallSpan.toMSpan →
        fivePageSpan.logRecord = typedSmallSpan.logRecord) ∧
      decodeSpanLog (spanLogValue fivePageSpan.toMSpan) = fivePageSpan.logRecord :=
  spanLogValue_lossless fivePageSpan typedSmallSpan (by decide) (by decide)

/-! ## The truncation to 32 bits -/

/-- A large span of `2^29 - 62` pages, spanclass 0 and `needzero` 0: the page field of its word
is `2^29`, which the truncation to 32 bits drops. -/
def wrapSpan : Span where
  base := 0
  npages := 2 ^ 29 - 62
  spanclass := 0
  elemsize := (2 ^ 29 - 62) * pageSize
  needzero := 0
  typIndex := 0
  memtype := isPersistent
  npages_pos := by decide
  needzero_le := Nat.zero_le _
  elemsize_le := le_refl _
  small_spanclass := by decide
  large_shape := fun _ => ⟨rfl, Nat.zero_le _⟩
  limit_le := by decide

theorem spanLogValue_wrapSpan : spanLogValue wrapSpan.toMSpan = 0 := by decide

end GoPmem
