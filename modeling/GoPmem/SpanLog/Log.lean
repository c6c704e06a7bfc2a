import Mathlib.Data.List.Nodup
import GoPmem.Memory
import GoPmem.Arena
import GoPmem.SpanLog.Value

/-!
# GoPmem.SpanLog.Log — span allocation and free, over whole runs

`logSpanAlloc` stores `spanLogValue s` in the span-bitmap word of the first page of `s`, after
checking that a non-zero word already there agrees with it above the two flag bits;
`logSpanFree` stores zero there. Their `FlushRange`/`PersistRange` calls order the word against
later stores and are left out here: a single aligned word store is never torn.

* `logSpanAlloc_ok`: a call that returns has stored `spanLogValue s` at the slot — its skip path
  leaves memory exactly as the store would.
* `Allowed`, `Disciplined`: the allocator's discipline over a sequence of calls, from the live
  spans; `liveAfter`: the live spans after it, each with the record of its latest allocation.
* `Represents`: the bitmap holds the latest word of every live span at its first page and zero
  elsewhere; `represents_step` keeps it over one allowed call.
* `logSpan_run`: for every disciplined sequence from a zero bitmap, no call throws, and the word
  of page `p` is non-zero exactly when `p` is the first page of a live span, where it is that
  span's latest `spanLogValue`. `logSpan_run_wrapSpan`: a span whose page count overflows the word
  breaks this.
-/

namespace GoPmem

variable (hs : HeaderSizes)

/-! ## The two calls -/

/-- `logSpanAlloc`: logs the allocation of span `s` of arena `pa`. -/
def logSpanAlloc (m : Mem) (pa : PArena) (s : MSpan) : Except String Mem :=
  if s.memtype = isNotPersistent then throw "Invalid span passed to logSpanAlloc"
  else
    let logAddr := spanLogAddr hs pa s
    let logVal := spanLogValue s
    let bitmapVal := loadUInt m logAddr 4
    if bitmapVal ≠ 0 then
      if bitmapVal >>> 2 ≠ logVal >>> 2 then throw "Logged span information mismatch"
      else if bitmapVal &&& 3 = logVal &&& 3 then pure m
      else pure (storeUInt m logAddr 4 logVal)
    else pure (storeUInt m logAddr 4 logVal)

/-- `logSpanFree`: logs that span `s` of arena `pa` is free by zeroing its word. -/
def logSpanFree (m : Mem) (pa : PArena) (s : MSpan) : Except String Mem :=
  if s.memtype = isNotPersistent then throw "Invalid span passed to logSpanAlloc"
  else pure (storeUInt m (spanLogAddr hs pa s) 4 0)

section Calls

variable {hs} {m m' : Mem} {pa : PArena} {s : MSpan}

/-- Two words that agree above bit 1 and in their two low bits are equal. -/
theorem eq_of_shiftRight_two {x y : Nat} (h1 : x >>> 2 = y >>> 2) (h2 : x &&& 3 = y &&& 3) :
    x = y := by
  rw [show (3 : Nat) = 2 ^ 2 - 1 from rfl, Nat.and_pow_two_sub_one_eq_mod,
    Nat.and_pow_two_sub_one_eq_mod] at h2
  rw [Nat.shiftRight_eq_div_pow, Nat.shiftRight_eq_div_pow] at h1
  omega

/-- A call of `logSpanAlloc` that returns has stored `spanLogValue s` at the slot of `s`. -/
theorem logSpanAlloc_ok (h : logSpanAlloc hs m pa s = .ok m') :
    m' = storeUInt m (spanLogAddr hs pa s) 4 (spanLogValue s) := by
  unfold logSpanAlloc at h
  split at h
  · cases h
  dsimp only at h
  split at h
  · split at h
    · cases h
    split at h
    · rename_i _ hup hlow
      cases h
      rw [← eq_of_shiftRight_two (not_not.mp hup) hlow, storeUInt_loadUInt]
    all_goals (cases h; rfl)
  · cases h; rfl

theorem logSpanAlloc_isOk (hp : s.memtype ≠ isNotPersistent)
    (hw : loadUInt m (spanLogAddr hs pa s) 4 = 0 ∨
      loadUInt m (spanLogAddr hs pa s) 4 >>> 2 = spanLogValue s >>> 2) :
    ∃ m', logSpanAlloc hs m pa s = .ok m' := by
  unfold logSpanAlloc
  rw [if_neg hp]
  dsimp only
  split
  · rename_i hne
    rw [if_neg (by simpa using hw.resolve_left hne)]
    split <;> exact ⟨_, rfl⟩
  · exact ⟨_, rfl⟩

theorem logSpanFree_eq (hp : s.memtype ≠ isNotPersistent) :
    logSpanFree hs m pa s = .ok (storeUInt m (spanLogAddr hs pa s) 4 0) := by
  rw [logSpanFree, if_neg hp]; rfl

end Calls

/-! ## Runs under the allocator's discipline -/

/-- A call of the span-logging interface. -/
inductive SpanOp
  | alloc (s : Span)
  | free (s : Span)

/-- The pages of two spans do not overlap. -/
def SpansDisjoint (s t : MSpan) : Prop := s.limit ≤ t.base ∨ t.limit ≤ s.base

/-- The live spans after a call, each with the record of its latest allocation. -/
def nextLive (live : List Span) : SpanOp → List Span
  | .alloc s => s :: live.filter (·.base != s.base)
  | .free s => live.filter (·.base != s.base)

/-- The live spans after a sequence of calls. -/
def liveAfter : List Span → List SpanOp → List Span
  | live, [] => live
  | live, op :: ops => liveAfter (nextLive live op) ops

section Run

variable (pa : PArena)

/-- The page of the arena that holds the first address of `s`. -/
def pageOf (s : MSpan) : Nat := (s.base - pa.arenaStart) / pageSize

/-- The span-bitmap word of page `p`. -/
def spanWord (m : Mem) (p : Nat) : Nat := loadUInt m (pa.spanBitmap hs + p * 4) 4

/-- One call on memory `m`. -/
def SpanOp.run (m : Mem) : SpanOp → Except String Mem
  | .alloc s => logSpanAlloc hs m pa s.toMSpan
  | .free s => logSpanFree hs m pa s.toMSpan

/-- The calls in order, up to the first that throws. -/
def runSpanOps (m : Mem) : List SpanOp → Except String Mem
  | [] => pure m
  | op :: ops => (op.run hs pa m).bind fun m' => runSpanOps m' ops

/-- A persistent span of arena `pa` whose page count fits the word. -/
structure InArena (s : Span) : Prop where
  persistent : s.memtype ≠ isNotPersistent
  start_le : pa.arenaStart ≤ s.base
  fits : s.FitsWord

/-- The calls the allocator makes, given its live spans: allocating a span of the arena disjoint
from every live one, allocating again a live span with the same base, spanclass and elemsize
(`needzero` and `typIndex` may differ), or freeing a live span. -/
def Allowed (live : List Span) : SpanOp → Prop
  | .alloc s => InArena pa s ∧
      ((∀ t ∈ live, SpansDisjoint s.toMSpan t.toMSpan) ∨
        ∃ t ∈ live, t.base = s.base ∧ t.spanclass = s.spanclass ∧ t.elemsize = s.elemsize)
  | .free s => s.memtype ≠ isNotPersistent ∧ ∃ t ∈ live, t.base = s.base

/-- A sequence of calls that the discipline allows, one after the other, from `live`. -/
def Disciplined : List Span → List SpanOp → Prop
  | _, [] => True
  | live, op :: ops => Allowed pa live op ∧ Disciplined (nextLive live op) ops

/-- The bitmap represents the live spans: each one's first page holds its latest word, and a page
where no live span starts holds zero. -/
structure Represents (m : Mem) (live : List Span) : Prop where
  in_arena : ∀ s ∈ live, InArena pa s
  nodup : (live.map fun s => pageOf pa s.toMSpan).Nodup
  live_word : ∀ s ∈ live, spanWord hs pa m (pageOf pa s.toMSpan) = spanLogValue s.toMSpan
  free_word : ∀ p, (∀ s ∈ live, pageOf pa s.toMSpan ≠ p) → spanWord hs pa m p = 0

end Run

/-! ## One call keeps the representation -/

section Step

variable {hs} {pa : PArena} {m : Mem} {live : List Span} {s : Span}

theorem spanWord_store_self (p v : Nat) :
    spanWord hs pa (storeUInt m (pa.spanBitmap hs + p * 4) 4 v) p = v % 2 ^ 32 := by
  rw [spanWord, loadUInt_storeUInt]; rfl

theorem spanWord_store_ne {p q : Nat} (v : Nat) (hq : q ≠ p) :
    spanWord hs pa (storeUInt m (pa.spanBitmap hs + p * 4) 4 v) q = spanWord hs pa m q :=
  loadUInt_congr fun _ _ => storeUInt_of_not_mem (by omega)

theorem spanLogAddr_eq_pageOf (h : pa.arenaStart ≤ s.base) :
    spanLogAddr hs pa s.toMSpan = pa.spanBitmap hs + pageOf pa s.toMSpan * 4 :=
  spanLogAddr_eq s.toMSpan h s.base_lt

/-- Spans of the arena with disjoint pages start on different pages. -/
theorem pageOf_ne_of_disjoint {t : Span} (hs' : pa.arenaStart ≤ s.base) (ht : pa.arenaStart ≤ t.base)
    (hd : SpansDisjoint s.toMSpan t.toMSpan) : pageOf pa s.toMSpan ≠ pageOf pa t.toMSpan := by
  have := s.npages_pos
  have := t.npages_pos
  unfold pageOf
  unfold SpansDisjoint MSpan.limit at hd
  simp only [pageSize] at *
  omega

/-- Storing `v` at the first page of `s` and dropping the live spans that start where `s` starts
keeps the words of the other live spans, and zero wherever none of them starts. -/
theorem represents_filter (hr : Represents hs pa m live) (hstart : pa.arenaStart ≤ s.base)
    (hfresh : ∀ u ∈ live, u.base ≠ s.base → pageOf pa u.toMSpan ≠ pageOf pa s.toMSpan) (v : Nat) :
    (∀ u ∈ live.filter (·.base != s.base),
      spanWord hs pa (storeUInt m (spanLogAddr hs pa s.toMSpan) 4 v) (pageOf pa u.toMSpan) =
        spanLogValue u.toMSpan) ∧
    (∀ p ≠ pageOf pa s.toMSpan, (∀ u ∈ live.filter (·.base != s.base), pageOf pa u.toMSpan ≠ p) →
      spanWord hs pa (storeUInt m (spanLogAddr hs pa s.toMSpan) 4 v) p = 0) := by
  rw [spanLogAddr_eq_pageOf hstart]
  refine ⟨fun u hu => ?_, fun p hp hfree => ?_⟩
  · obtain ⟨hu, hb⟩ := List.mem_filter.mp hu
    rw [spanWord_store_ne v (hfresh u hu (by simpa using hb)), hr.live_word u hu]
  · rw [spanWord_store_ne v hp]
    refine hr.free_word p fun u hu hup => ?_
    by_cases hb : u.base = s.base
    · exact hp (hup ▸ (congrArg (fun b => (b - pa.arenaStart) / pageSize) hb))
    · exact hfree u (List.mem_filter.mpr ⟨hu, by simpa using hb⟩) hup

/-- A live span starting where `s` starts is the only live span on that page. -/
theorem fresh_of_live (hr : Represents hs pa m live) {t : Span} (ht : t ∈ live)
    (hb : t.base = s.base) : ∀ u ∈ live, u.base ≠ s.base →
      pageOf pa u.toMSpan ≠ pageOf pa s.toMSpan := by
  intro u hu hub hup
  have hpt : pageOf pa s.toMSpan = pageOf pa t.toMSpan := by simp only [pageOf, hb]
  exact hub (hb ▸ congrArg (·.base) (List.inj_on_of_nodup_map hr.nodup hu ht (hup.trans hpt)))

theorem nodup_filter (hr : Represents hs pa m live) :
    ((live.filter (·.base != s.base)).map fun u => pageOf pa u.toMSpan).Nodup :=
  hr.nodup.sublist ((List.filter_sublist _).map _)

theorem represents_free (hr : Represents hs pa m live) (hp : s.memtype ≠ isNotPersistent)
    {t : Span} (ht : t ∈ live) (hb : t.base = s.base) :
    ∃ m', logSpanFree hs m pa s.toMSpan = .ok m' ∧ Represents hs pa m' (live.filter (·.base != s.base)) := by
  have hstart : pa.arenaStart ≤ s.base := hb ▸ (hr.in_arena t ht).start_le
  obtain ⟨hlive, hfree⟩ := represents_filter hr hstart (fresh_of_live hr ht hb) 0
  refine ⟨_, logSpanFree_eq hp, fun u hu => hr.in_arena u (List.mem_of_mem_filter hu),
    nodup_filter hr, hlive, fun p hnot => ?_⟩
  by_cases hps : p = pageOf pa s.toMSpan
  · rw [hps, spanLogAddr_eq_pageOf hstart, spanWord_store_self, Nat.zero_mod]
  · exact hfree p hps hnot

theorem represents_alloc (hr : Represents hs pa m live) (ha : Allowed pa live (.alloc s)) :
    ∃ m', logSpanAlloc hs m pa s.toMSpan = .ok m' ∧
      Represents hs pa m' (s :: live.filter (·.base != s.base)) := by
  obtain ⟨hin, hcase⟩ := ha
  have hstart := hin.start_le
  have hfresh : ∀ u ∈ live, u.base ≠ s.base → pageOf pa u.toMSpan ≠ pageOf pa s.toMSpan := by
    rcases hcase with hdis | ⟨t, ht, hb, -⟩
    · exact fun u hu _ => (pageOf_ne_of_disjoint hstart (hr.in_arena u hu).start_le (hdis u hu)).symm
    · exact fresh_of_live hr ht hb
  have hword : loadUInt m (spanLogAddr hs pa s.toMSpan) 4 = 0 ∨
      loadUInt m (spanLogAddr hs pa s.toMSpan) 4 >>> 2 = spanLogValue s.toMSpan >>> 2 := by
    rw [spanLogAddr_eq_pageOf hstart]
    rcases hcase with hdis | ⟨t, ht, hb, hsc, hel⟩
    · exact .inl (hr.free_word _ fun u hu =>
        pageOf_ne_of_disjoint (hr.in_arena u hu).start_le hstart (hdis u hu).symm)
    · right
      have hpt : pageOf pa s.toMSpan = pageOf pa t.toMSpan := by simp only [pageOf, hb]
      have hnp : t.IsLarge → t.npages = s.npages := fun hl =>
        Nat.eq_of_mul_eq_mul_right (by decide : 0 < pageSize)
          ((t.large_shape hl).1.symm.trans (hel.trans (s.large_shape (hel ▸ hl)).1))
      change spanWord hs pa m _ >>> 2 = _
      rw [hpt, hr.live_word t ht, spanLogValue_shiftRight_two, spanLogValue_shiftRight_two, hsc]
      by_cases hl : t.IsLarge
      · have hl' : s.IsLarge := by unfold MSpan.IsLarge at hl ⊢; omega
        rw [if_pos hl, if_pos hl', hnp hl]
      · have hl' : ¬ s.IsLarge := by unfold MSpan.IsLarge at hl ⊢; omega
        rw [if_neg hl, if_neg hl']
  obtain ⟨m', hm'⟩ := logSpanAlloc_isOk hin.persistent hword
  refine ⟨m', hm', ?_⟩
  rw [logSpanAlloc_ok hm']
  obtain ⟨hlive, hfree⟩ := represents_filter hr hstart hfresh (spanLogValue s.toMSpan)
  have hnot : ∀ u ∈ live.filter (·.base != s.base), pageOf pa u.toMSpan ≠ pageOf pa s.toMSpan :=
    fun u hu => let h := List.mem_filter.mp hu; hfresh u h.1 (by simpa using h.2)
  refine ⟨?_, ?_, ?_, fun p hp => hfree p (hp s (List.mem_cons_self _ _)).symm
    fun u hu => hp u (List.mem_cons_of_mem _ hu)⟩
  · rintro u (_ | ⟨_, hu⟩)
    exacts [hin, hr.in_arena u (List.mem_of_mem_filter hu)]
  · refine List.nodup_cons.mpr ⟨fun hmem => ?_, nodup_filter hr⟩
    obtain ⟨u, hu, he⟩ := List.mem_map.mp hmem
    exact hnot u hu he
  · rintro u (_ | ⟨_, hu⟩)
    · rw [spanLogAddr_eq_pageOf hstart, spanWord_store_self,
        Nat.mod_eq_of_lt (spanLogValue_lt _)]
    · exact hlive u hu

end Step

/-! ## Whole runs -/

section Runs

variable {hs} {pa : PArena}

theorem represents_run : ∀ (ops : List SpanOp) (live : List Span) (m : Mem),
    Represents hs pa m live → Disciplined pa live ops →
      ∃ m', runSpanOps hs pa m ops = .ok m' ∧ Represents hs pa m' (liveAfter live ops)
  | [], _, m, hr, _ => ⟨m, rfl, hr⟩
  | op :: ops, live, m, hr, ⟨ha, hd⟩ => by
    obtain ⟨m₁, h₁, hr₁⟩ : ∃ m₁, op.run hs pa m = .ok m₁ ∧
        Represents hs pa m₁ (nextLive live op) := by
      cases op with
      | alloc s => exact represents_alloc hr ha
      | free s => obtain ⟨hp, t, ht, hb⟩ := ha; exact represents_free hr hp ht hb
    obtain ⟨m', h', hr'⟩ := represents_run ops _ m₁ hr₁ hd
    exact ⟨m', by rw [runSpanOps, h₁]; exact h', hr'⟩

/-- **Span-log run invariant.** From a zero span bitmap, every sequence of calls the allocator's
discipline allows runs without a throw, and afterwards the word of page `p` is non-zero exactly
when `p` is the first page of a live span, where it is the `spanLogValue` of that span's latest
allocation. -/
theorem logSpan_run (m₀ : Mem) (h₀ : ∀ p, spanWord hs pa m₀ p = 0) (ops : List SpanOp)
    (hd : Disciplined pa [] ops) :
    ∃ m, runSpanOps hs pa m₀ ops = .ok m ∧ ∀ p,
      (spanWord hs pa m p ≠ 0 ↔ ∃ s ∈ liveAfter [] ops, pageOf pa s.toMSpan = p) ∧
      ∀ s ∈ liveAfter [] ops, pageOf pa s.toMSpan = p →
        spanWord hs pa m p = spanLogValue s.toMSpan := by
  obtain ⟨m, hm, hr⟩ := represents_run ops [] m₀
    ⟨fun _ h => absurd h (List.not_mem_nil _), List.nodup_nil, fun _ h => absurd h (List.not_mem_nil _),
      fun p _ => h₀ p⟩ hd
  refine ⟨m, hm, fun p => ⟨⟨fun hne => ?_, ?_⟩, fun s hsl hp => hp ▸ hr.live_word s hsl⟩⟩
  · by_contra hno
    push_neg at hno
    exact hne (hr.free_word p hno)
  · rintro ⟨s, hsl, rfl⟩
    rw [hr.live_word s hsl]
    exact spanLogValue_ne_zero s (hr.in_arena s hsl).fits

theorem logSpan_run_allocFreeAlloc :
    ∃ m, runSpanOps sampleSizes sampleArena (fun _ => 0)
        [.alloc fivePageSpan, .free fivePageSpan, .alloc fivePageSpan] = .ok m ∧ ∀ p,
      (spanWord sampleSizes sampleArena m p ≠ 0 ↔
        ∃ s ∈ liveAfter [] [.alloc fivePageSpan, .free fivePageSpan, .alloc fivePageSpan],
          pageOf sampleArena s.toMSpan = p) ∧
      ∀ s ∈ liveAfter [] [.alloc fivePageSpan, .free fivePageSpan, .alloc fivePageSpan],
        pageOf sampleArena s.toMSpan = p →
          spanWord sampleSizes sampleArena m p = spanLogValue s.toMSpan :=
  logSpan_run (fun _ => 0) (fun _ => rfl) _
    ⟨⟨⟨by decide, by decide, by decide⟩, .inl fun _ h => absurd h (List.not_mem_nil _)⟩,
      ⟨by decide, fivePageSpan, List.mem_singleton_self _, rfl⟩,
      ⟨⟨by decide, by decide, by decide⟩, .inl fun _ h => by simp [nextLive] at h⟩, trivial⟩

/-- The span of `2^29 - 62` pages: logging its allocation from a zero bitmap leaves the word of
its first page zero, so recovery would read its pages as free. -/
theorem logSpan_run_wrapSpan :
    wrapSpan.memtype ≠ isNotPersistent ∧
      (⟨0, 0, 0, 0, 0, 0, 0⟩ : PArena).arenaStart ≤ wrapSpan.base ∧
      ∃ m, runSpanOps ⟨0, 0⟩ ⟨0, 0, 0, 0, 0, 0, 0⟩ (fun _ => 0) [.alloc wrapSpan] = .ok m ∧
        spanWord ⟨0, 0⟩ ⟨0, 0, 0, 0, 0, 0, 0⟩ m (pageOf ⟨0, 0, 0, 0, 0, 0, 0⟩ wrapSpan.toMSpan) = 0 :=
  ⟨by decide, le_refl _, _, rfl, by decide⟩

end Runs

end GoPmem
