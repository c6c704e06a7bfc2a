import GoPmem.SpanLog.Log

/-!
# GoPmem.SpanLog.Revisions — the span log of pmemLog.go against that of the arena revision

The revision of the logging file in `runtime/pmemLog.go` logs a span in one word with a single
flag: `spanclass << 1 | needzero` for a small span and `(66 + npages - 4) << 2 | spanclass << 1 |
needzero` for a large one. Its `logSpanAlloc` compares a non-zero word above bit 0 and stores
again only when `needzero` differs. The arena revision adds the `optTypeLog` flag at bit 1,
and compares above bit 1.

* `V1.spanLogValue`, `V1.spanLogAddr`, `V1.logSpanAllocAt`, `V1.logSpanAlloc`, `V1.logSpanFree`:
  the calls of pmemLog.go. `V1.logSpanAllocAt` is the body of `logSpanAlloc` from the word's
  address on, which the region revision shares.
* `dropOptTypeLog`: a word of the arena revision with bit 1 taken out. `V1.spanLogValue_eq`: for
  a span whose page count fits the word, the pmemLog.go word is the word of the arena revision
  without `optTypeLog`.
* `ExceptRel`, `SpanRecoded`: both calls throw the same message, or both return memories whose
  span bitmaps differ only by `dropOptTypeLog` in every word.
* `spanLog_revisions_agree`: over every sequence of calls on spans of an arena, from a zero span
  bitmap, pmemLog.go throws exactly when the arena revision throws and otherwise keeps the same
  log without the `optTypeLog` bit, even though the two skip a store in different cases.
-/

namespace GoPmem

variable (hs : HeaderSizes)

/-! ## The calls of pmemLog.go -/

/-- `spanLogValue` of pmemLog.go: one flag bit, `needzero`. -/
def V1.spanLogValue (s : MSpan) : Nat :=
  let logVal :=
    if s.elemsize > maxSmallSize then
      let npages := s.elemsize >>> pageShift
      (66 + npages - 4) <<< 2 ||| s.spanclass <<< 1 ||| s.needzero
    else s.spanclass <<< 1 ||| s.needzero
  logVal % 2 ^ 32

/-- `spanLogAddr` of pmemLog.go: the header offset is read from `pa.offset`. -/
def V1.spanLogAddr (pa : PArena) (s : MSpan) : Nat :=
  let arenaStart := pa.mapAddr + pa.mdSize
  let spanBitmap := pa.mapAddr + pa.offset + hs.pArenaHeaderSize + pa.allocSize / bytesPerBitmapByte
  let pageOffset := usub s.base arenaStart >>> pageShift
  spanBitmap + pageOffset * spanBytesPerPage

/-- The body of `logSpanAlloc` in pmemLog.go and the region revision once the word's address and the value
are known: a non-zero word must agree with the value above bit 0, and is stored again only when
bit 0 differs. -/
def V1.logSpanAllocAt (m : Mem) (logAddr logVal : Nat) : Except String Mem :=
  let bitmapVal := loadUInt m logAddr 4
  if bitmapVal ≠ 0 then
    if bitmapVal >>> 1 ≠ logVal >>> 1 then throw "Logged span information mismatch"
    else if bitmapVal &&& 1 = logVal &&& 1 then pure m
    else pure (storeUInt m logAddr 4 logVal)
  else pure (storeUInt m logAddr 4 logVal)

/-- `logSpanAlloc` of pmemLog.go. -/
def V1.logSpanAlloc (m : Mem) (pa : PArena) (s : MSpan) : Except String Mem :=
  if s.memtype = isNotPersistent then throw "Invalid span passed to logSpanAlloc"
  else V1.logSpanAllocAt m (V1.spanLogAddr hs pa s) (V1.spanLogValue s)

/-- `logSpanFree` of pmemLog.go. -/
def V1.logSpanFree (m : Mem) (pa : PArena) (s : MSpan) : Except String Mem :=
  if s.memtype = isNotPersistent then throw "Invalid span passed to logSpanAlloc"
  else pure (storeUInt m (V1.spanLogAddr hs pa s) 4 0)

/-- The span a call is about. -/
def SpanOp.span : SpanOp → Span
  | .alloc s => s
  | .free s => s

/-- One call of pmemLog.go on memory `m`. -/
def SpanOp.runV1 (pa : PArena) (m : Mem) : SpanOp → Except String Mem
  | .alloc s => V1.logSpanAlloc hs m pa s.toMSpan
  | .free s => V1.logSpanFree hs m pa s.toMSpan

/-- The calls of pmemLog.go in order, up to the first that throws. -/
def V1.runSpanOps (pa : PArena) (m : Mem) : List SpanOp → Except String Mem
  | [] => pure m
  | op :: ops => (op.runV1 hs pa m).bind fun m' => V1.runSpanOps pa m' ops

/-! ## The word without `optTypeLog` -/

/-- A span-log word of the arena revision with bit 1, `optTypeLog`, taken out. -/
def dropOptTypeLog (w : Nat) : Nat := w / 4 * 2 + w % 2

theorem dropOptTypeLog_le (w : Nat) : dropOptTypeLog w ≤ w := by unfold dropOptTypeLog; omega

/-- What pmemLog.go compares of its word is what the arena revision compares of its own. -/
theorem dropOptTypeLog_shiftRight_one (w : Nat) : dropOptTypeLog w >>> 1 = w >>> 2 := by
  simp only [dropOptTypeLog, Nat.shiftRight_eq_div_pow]; omega

theorem dropOptTypeLog_and_one (w : Nat) : dropOptTypeLog w &&& 1 = w &&& 1 := by
  simp only [dropOptTypeLog, Nat.and_one_is_mod]; omega

theorem dropOptTypeLog_eq_zero {w : Nat} (hw : w = 0 ∨ 4 ≤ w) : dropOptTypeLog w = 0 ↔ w = 0 := by
  unfold dropOptTypeLog; omega

/-- The word as arithmetic, for a small span. -/
theorem V1.spanLogValue_small (s : Span) (h : ¬ s.IsLarge) :
    V1.spanLogValue s.toMSpan = s.spanclass * 2 + s.needzero := by
  have hsc := (s.small_spanclass (Nat.le_of_not_lt h)).2
  have hnz := s.needzero_le
  unfold V1.spanLogValue
  rw [if_neg (show ¬ s.elemsize > maxSmallSize from h), Nat.shiftLeft_eq,
    lor_eq_add (k := 1) (by omega) (by omega), Nat.mod_eq_of_lt (by omega)]

/-- The word as arithmetic, for a large span. -/
theorem V1.spanLogValue_large (s : Span) (h : s.IsLarge) :
    V1.spanLogValue s.toMSpan = ((s.npages + 62) * 4 + s.spanclass * 2 + s.needzero) % 2 ^ 32 := by
  have hsc := (s.large_shape h).2
  have hnz := s.needzero_le
  unfold V1.spanLogValue
  dsimp only
  rw [if_pos (show s.elemsize > maxSmallSize from h), s.large_npages h, Nat.shiftLeft_eq,
    Nat.shiftLeft_eq, lor_eq_add (x := (66 + s.npages - 4) * 2 ^ 2) (k := 2) (Nat.dvd_mul_left _ _)
      (by omega), lor_eq_add (k := 1) (by omega) (by omega)]
  congr 1
  omega

/-- For a span whose page count fits the word, the pmemLog.go word is the word of the arena revision without
`optTypeLog`. -/
theorem V1.spanLogValue_eq (s : Span) (hw : s.FitsWord) :
    V1.spanLogValue s.toMSpan = dropOptTypeLog (GoPmem.spanLogValue s.toMSpan) := by
  have hnz := s.needzero_le
  unfold dropOptTypeLog
  by_cases h : s.IsLarge
  · have := hw h
    have := (s.large_shape h).2
    rw [V1.spanLogValue_large s h, GoPmem.spanLogValue_large s h, Nat.mod_eq_of_lt (by omega),
      Nat.mod_eq_of_lt (by omega)]
    omega
  · rw [V1.spanLogValue_small s h, GoPmem.spanLogValue_small s h]
    split <;> omega

/-- The arena revision's word of a span whose page count fits the word has a bit above the two flags. -/
theorem four_le_spanLogValue (s : Span) (hw : s.FitsWord) : 4 ≤ spanLogValue s.toMSpan := by
  by_cases h : s.IsLarge
  · have := hw h
    have := (s.large_shape h).2
    have := s.needzero_le
    rw [spanLogValue_large s h, Nat.mod_eq_of_lt (by omega)]
    omega
  · have := (s.small_spanclass (Nat.le_of_not_lt h)).1
    rw [spanLogValue_small s h]
    omega

/-- Under `ArenaAt`, pmemLog.go finds the word where the arena revision does. -/
theorem V1.spanLogAddr_eq {pa : PArena} (hpa : ArenaAt hs pa) (s : MSpan) :
    V1.spanLogAddr hs pa s = GoPmem.spanLogAddr hs pa s := by
  simp only [V1.spanLogAddr, GoPmem.spanLogAddr, hpa.offset_eq, PArena.hdrOff]

/-! ## The two bitmaps over a run -/

/-- Two results that throw the same message, or that both return values related by `R`. -/
def ExceptRel {α β : Type} (R : α → β → Prop) : Except String α → Except String β → Prop
  | .error e, .error e' => e = e'
  | .ok a, .ok b => R a b
  | _, _ => False

section Recoded

variable (pa : PArena)

/-- The pmemLog.go memory `m₁` is the arena revision's memory `m` with `optTypeLog` taken out of every
span-bitmap word: the two agree below the span bitmap, and each word of `m₁` is the word of `m`
without bit 1. Every word of `m` is zero or has a bit above the two flags. -/
structure SpanRecoded (m m₁ : Mem) : Prop where
  below : ∀ b < pa.spanBitmap hs, m₁ b = m b
  word : ∀ p, spanWord hs pa m₁ p = dropOptTypeLog (spanWord hs pa m p)
  flagged : ∀ p, spanWord hs pa m p = 0 ∨ 4 ≤ spanWord hs pa m p

variable {hs pa} {m m₁ : Mem}

/-- A zero span bitmap, and the same bytes below it. -/
theorem SpanRecoded.zero (h₀ : ∀ p, spanWord hs pa m p = 0) : SpanRecoded hs pa m m where
  below _ _ := rfl
  word p := by rw [h₀]; rfl
  flagged p := .inl (h₀ p)

/-- Storing a word in both bitmaps, without `optTypeLog` in pmemLog.go's. -/
theorem SpanRecoded.store (h : SpanRecoded hs pa m m₁) (p v : Nat) (hv : v < 2 ^ 32)
    (hv4 : v = 0 ∨ 4 ≤ v) :
    SpanRecoded hs pa (storeUInt m (pa.spanBitmap hs + p * 4) 4 v)
      (storeUInt m₁ (pa.spanBitmap hs + p * 4) 4 (dropOptTypeLog v)) where
  below b hb := by
    rw [storeUInt_of_not_mem (by omega), storeUInt_of_not_mem (by omega), h.below b hb]
  word q := by
    by_cases hq : q = p
    · have := dropOptTypeLog_le v
      subst hq
      rw [spanWord_store_self, spanWord_store_self, Nat.mod_eq_of_lt hv, Nat.mod_eq_of_lt (by omega)]
    · rw [spanWord_store_ne _ hq, spanWord_store_ne _ hq, h.word q]
  flagged q := by
    by_cases hq : q = p
    · subst hq; rw [spanWord_store_self, Nat.mod_eq_of_lt hv]; exact hv4
    · rw [spanWord_store_ne _ hq]; exact h.flagged q

/-- **`logSpanAlloc`.** On a span of the arena whose page count fits the word, the two revisions
throw together, or keep the recoding. pmemLog.go skips the store whenever `needzero` agrees, where
the arena revision also compares `optTypeLog`; the word it keeps is then the one the arena
revision stores, recoded. -/
theorem SpanRecoded.alloc (hpa : ArenaAt hs pa) (h : SpanRecoded hs pa m m₁) {s : Span}
    (hin : pa.arenaStart ≤ s.base) (hfit : s.FitsWord) :
    ExceptRel (SpanRecoded hs pa) (logSpanAlloc hs m pa s.toMSpan)
      (V1.logSpanAlloc hs m₁ pa s.toMSpan) := by
  unfold logSpanAlloc V1.logSpanAlloc
  by_cases hp : s.memtype = isNotPersistent
  · rw [if_pos hp, if_pos hp]; rfl
  rw [if_neg hp, if_neg hp, V1.spanLogAddr_eq hs hpa, spanLogAddr_eq_pageOf hin,
    V1.spanLogValue_eq s hfit]
  unfold V1.logSpanAllocAt
  set p := pageOf pa s.toMSpan
  set v := spanLogValue s.toMSpan
  have hv : v < 2 ^ 32 := spanLogValue_lt _
  have hv4 : v = 0 ∨ 4 ≤ v := .inr (four_le_spanLogValue s hfit)
  have hx₁ : loadUInt m₁ (pa.spanBitmap hs + p * 4) 4 = dropOptTypeLog (spanWord hs pa m p) :=
    h.word p
  have hx := h.flagged p
  have hst := h.store p v hv hv4
  -- where pmemLog.go skips the store that the arena revision makes, it already holds the recoded value
  have hkeep : dropOptTypeLog (spanWord hs pa m p) = dropOptTypeLog v →
      SpanRecoded hs pa (storeUInt m (pa.spanBitmap hs + p * 4) 4 v) m₁ := fun e => by
    rw [← storeUInt_loadUInt m₁ (pa.spanBitmap hs + p * 4) 4, hx₁, e]; exact hst
  dsimp only
  rw [hx₁, show loadUInt m (pa.spanBitmap hs + p * 4) 4 = spanWord hs pa m p from rfl]
  simp only [ne_eq, dropOptTypeLog_eq_zero hx, dropOptTypeLog_shiftRight_one, dropOptTypeLog_and_one]
  by_cases c0 : spanWord hs pa m p = 0
  · -- an empty word: both store
    simp only [c0, not_true_eq_false, if_false]; exact hst
  by_cases cup : spanWord hs pa m p >>> 2 = v >>> 2
  swap
  · -- a word of another span: both throw
    simp only [c0, cup, not_false_eq_true, if_true]; rfl
  have hlow3 : spanWord hs pa m p &&& 3 = v &&& 3 → spanWord hs pa m p &&& 1 = v &&& 1 := by
    simp only [Nat.and_one_is_mod, show (3 : Nat) = 2 ^ 2 - 1 from rfl, Nat.and_pow_two_sub_one_eq_mod]
    omega
  simp only [c0, cup, not_false_eq_true, not_true_eq_false, if_true, if_false]
  by_cases c3 : spanWord hs pa m p &&& 3 = v &&& 3
  · -- the same word: both keep it
    simp only [c3, hlow3 c3, if_true]; exact h
  by_cases c1 : spanWord hs pa m p &&& 1 = v &&& 1
  · -- only `optTypeLog` differs: the arena revision stores, pmemLog.go keeps the recoded word
    simp only [c3, c1, if_true, if_false]
    refine hkeep ?_
    simp only [dropOptTypeLog]
    simp only [Nat.shiftRight_eq_div_pow, Nat.and_one_is_mod] at cup c1
    omega
  · simp only [c3, c1, if_false]; exact hst

/-- **`logSpanFree`.** Both revisions throw on a span that is not persistent, and otherwise zero
the same word. -/
theorem SpanRecoded.free (hpa : ArenaAt hs pa) (h : SpanRecoded hs pa m m₁) {s : Span}
    (hin : pa.arenaStart ≤ s.base) :
    ExceptRel (SpanRecoded hs pa) (logSpanFree hs m pa s.toMSpan)
      (V1.logSpanFree hs m₁ pa s.toMSpan) := by
  unfold logSpanFree V1.logSpanFree
  by_cases hp : s.memtype = isNotPersistent
  · rw [if_pos hp, if_pos hp]; rfl
  rw [if_neg hp, if_neg hp, V1.spanLogAddr_eq hs hpa, spanLogAddr_eq_pageOf hin]
  exact h.store _ 0 (by decide) (.inl rfl)

theorem ExceptRel.bind {α β γ δ : Type} {R : α → β → Prop} {S : γ → δ → Prop}
    {a : Except String α} {b : Except String β} {f : α → Except String γ} {g : β → Except String δ}
    (h : ExceptRel R a b) (hfg : ∀ x y, R x y → ExceptRel S (f x) (g y)) :
    ExceptRel S (a.bind f) (b.bind g) := by
  cases a <;> cases b <;> first | exact h | exact hfg _ _ h | exact h.elim

/-- **Every run.** From memories related by the recoding, the two revisions run every sequence of
calls on spans of the arena whose page counts fit the word to related results. -/
theorem SpanRecoded.run (hpa : ArenaAt hs pa) :
    ∀ (ops : List SpanOp) {m m₁ : Mem}, SpanRecoded hs pa m m₁ →
      (∀ op ∈ ops, pa.arenaStart ≤ op.span.base ∧ op.span.FitsWord) →
      ExceptRel (SpanRecoded hs pa) (runSpanOps hs pa m ops) (V1.runSpanOps hs pa m₁ ops)
  | [], _, _, h, _ => h
  | op :: ops, m, m₁, h, hops => by
    obtain ⟨hin, hfit⟩ := hops op (List.mem_cons_self _ _)
    have hop : ExceptRel (SpanRecoded hs pa) (op.run hs pa m) (op.runV1 hs pa m₁) := by
      cases op with
      | alloc s => exact h.alloc hpa hin hfit
      | free s => exact h.free hpa hin
    exact hop.bind fun _ _ hr => SpanRecoded.run hpa ops hr fun o ho => hops o (List.mem_cons_of_mem _ ho)

end Recoded

/-- **The two revisions keep one span log.** On an arena whose header lies where its header
offset says, over every sequence of `logSpanAlloc` and `logSpanFree` calls on spans of the arena
whose page counts fit the word, from a zero span bitmap, the calls of pmemLog.go throw exactly when
those of the arena revision throw, with the same message. Otherwise the two memories agree below the span
bitmap, and every pmemLog.go word is the word of the arena revision without `optTypeLog`. -/
theorem spanLog_revisions_agree {pa : PArena} (hpa : ArenaAt hs pa) (m₀ : Mem)
    (h₀ : ∀ p, spanWord hs pa m₀ p = 0) (ops : List SpanOp)
    (hops : ∀ op ∈ ops, pa.arenaStart ≤ op.span.base ∧ op.span.FitsWord) :
    ExceptRel (SpanRecoded hs pa) (runSpanOps hs pa m₀ ops) (V1.runSpanOps hs pa m₀ ops) :=
  SpanRecoded.run hpa ops (.zero h₀) hops

theorem spanLog_revisions_agree_allocFree :
    ArenaAt ⟨0, 0⟩ ⟨0, 0, 0, 0, 0, 0, 5 * pageSize⟩ ∧
      (∀ p, spanWord ⟨0, 0⟩ ⟨0, 0, 0, 0, 0, 0, 5 * pageSize⟩ (fun _ => 0) p = 0) ∧
      ExceptRel (SpanRecoded ⟨0, 0⟩ ⟨0, 0, 0, 0, 0, 0, 5 * pageSize⟩)
        (runSpanOps ⟨0, 0⟩ ⟨0, 0, 0, 0, 0, 0, 5 * pageSize⟩ (fun _ => 0)
          [.alloc fivePageSpan, .free fivePageSpan])
        (V1.runSpanOps ⟨0, 0⟩ ⟨0, 0, 0, 0, 0, 0, 5 * pageSize⟩ (fun _ => 0)
          [.alloc fivePageSpan, .free fivePageSpan]) :=
  have hpa : ArenaAt ⟨0, 0⟩ ⟨0, 0, 0, 0, 0, 0, 5 * pageSize⟩ := ⟨rfl, rfl, by decide⟩
  have h₀ : ∀ p, spanWord ⟨0, 0⟩ ⟨0, 0, 0, 0, 0, 0, 5 * pageSize⟩ (fun _ => 0) p = 0 := fun _ => rfl
  ⟨hpa, h₀, spanLog_revisions_agree ⟨0, 0⟩ hpa _ h₀ _ fun op hop => by
    simp only [List.mem_cons, List.mem_singleton, List.not_mem_nil, or_false] at hop
    rcases hop with rfl | rfl <;> exact ⟨Nat.zero_le _, by decide⟩⟩

end GoPmem
