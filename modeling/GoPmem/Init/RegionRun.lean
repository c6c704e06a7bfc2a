import GoPmem.Init.RegionLog

/-!
# GoPmem.Init.RegionRun — the region's span log over whole runs

Over a sequence of span calls, the region revision keeps the span bitmap of the region as
pmemLog.go keeps that of an arena. Seen as an arena with no header whose metadata ends at
`startAddr` and whose span bitmap is `pmemInfo.spanBitmap`, the region gets the same words from
both revisions, so what holds of the arenas of the arena revision (the bitmap represents the live
spans) and of the recoding between the two revisions carries over. The heap-bits calls write the type bitmap only, after the span bitmap,
and the span calls read only the span bitmap, so a run needs only that to be zero.

* `SpanOp.runV0`, `V0.runSpanOps`: the span calls of the region revision in order. `RegionCall`,
  `V0.runCalls`: span calls and heap-bits calls interleaved; `RegionCall.Fits`: the caller's part.
* `InRegion`: a persistent span of the region whose first page has a word and whose page count fits
  it. `regionArena`: the region as an arena of pmemLog.go. `V0.runSpanOps_eq`: on spans of the
  region, the region revision's run is pmemLog.go's.
* `AgreeOn lo hi`: the same bytes in `[lo, hi)`. `V0.runCalls_agree`: from memories with the same
  span bitmap, a run of all the calls and a run of its span calls alone throw together, or keep the
  same span bitmap.
* `RegionLayout.runCalls`: on a region with the layout `PmallocInit` makes, from a zero span
  bitmap, every run of the caller's part returns, and leaves in the word of each usable page the
  pmemLog.go word of the live span that starts there, and zero where none does.
  `regionSpanLog_run`: the same after `PmallocInit`, in the region's own addresses.
-/

namespace GoPmem

/-! ## Runs of the region revision -/

/-- One call of the region revision on memory `m`. -/
def SpanOp.runV0 (info : PmemInfo) (m : Mem) : SpanOp → Except String Mem
  | .alloc s => V0.logSpanAlloc info m s.toMSpan
  | .free s => V0.logSpanFree info m s.toMSpan

/-- The calls of the region revision in order, up to the first that throws. -/
def V0.runSpanOps (info : PmemInfo) (m : Mem) : List SpanOp → Except String Mem
  | [] => pure m
  | op :: ops => (op.runV0 info m).bind fun m' => V0.runSpanOps info m' ops

/-- A persistent span of the region: its first page has a word in the span bitmap, and its page
count fits the word. -/
structure InRegion (info : PmemInfo) (s : Span) : Prop where
  persistent : s.memtype ≠ isNotPersistent
  start_le : info.startAddr ≤ s.base
  page_lt : (s.base - info.startAddr) / pageSize < info.spanBitmap.2
  fits : s.FitsWord

theorem InRegion.index_lt {info : PmemInfo} {s : Span} (h : InRegion info s) :
    usub s.base info.startAddr >>> pageShift < info.spanBitmap.2 := by
  rw [usub_shiftRight_pageShift h.start_le s.base_lt]; exact h.page_lt

/-- The live spans after a run were live before it or allocated in it. -/
theorem mem_liveAfter {s : Span} {live : List Span} {ops : List SpanOp}
    (h : s ∈ liveAfter live ops) : s ∈ live ∨ SpanOp.alloc s ∈ ops := by
  induction ops generalizing live with
  | nil => exact .inl h
  | cons op ops ih =>
    rcases ih h with h | h
    · cases op with
      | alloc t =>
        simp only [nextLive, List.mem_cons] at h
        rcases h with rfl | h
        · exact .inr (List.mem_cons_self _ _)
        · exact .inl (List.mem_of_mem_filter h)
      | free t => exact .inl (List.mem_of_mem_filter h)
    · exact .inr (List.mem_cons_of_mem _ h)

/-! ## The region as an arena of pmemLog.go -/

/-- No region header and no arena header. -/
def noHeaders : HeaderSizes := ⟨0, 0⟩

/-- The region as an arena of pmemLog.go: it starts at the span bitmap, which no type bitmap
precedes, and its metadata ends at `startAddr`. -/
def regionArena (info : PmemInfo) : PArena :=
  ⟨info.spanBitmap.1, info.spanBitmap.1, 0, 0, 0, info.startAddr - info.spanBitmap.1, 0⟩

section Arena

variable {info : PmemInfo}

theorem regionArena_at (h : info.spanBitmap.1 < 2 ^ 64) : ArenaAt noHeaders (regionArena info) :=
  ⟨rfl, rfl, h⟩

@[simp] theorem regionArena_spanBitmap : (regionArena info).spanBitmap noHeaders = info.spanBitmap.1 := by
  simp [PArena.spanBitmap, PArena.typeBitmap, PArena.hdrOff, regionArena, noHeaders]

theorem regionArena_arenaStart (h : info.spanBitmap.1 ≤ info.startAddr) :
    (regionArena info).arenaStart = info.startAddr := Nat.add_sub_cancel' h

/-- pmemLog.go finds the word of a span of the region where the region revision does. -/
theorem regionArena_spanLogAddr (h : info.spanBitmap.1 ≤ info.startAddr) (s : MSpan) :
    V1.spanLogAddr noHeaders (regionArena info) s =
      info.spanBitmap.1 + (usub s.base info.startAddr >>> pageShift) * 4 := by
  simp only [V1.spanLogAddr, regionArena, noHeaders, Nat.add_sub_cancel' h, Nat.zero_div,
    Nat.add_zero, spanBytesPerPage]

variable (h : info.spanBitmap.1 ≤ info.startAddr) {s : Span} (hs : InRegion info s) (m : Mem)
include h hs

theorem V0.logSpanAlloc_eq_V1 :
    V0.logSpanAlloc info m s.toMSpan = V1.logSpanAlloc noHeaders m (regionArena info) s.toMSpan := by
  rw [V0.logSpanAlloc_of_lt hs.persistent hs.index_lt, V1.logSpanAlloc, if_neg hs.persistent,
    regionArena_spanLogAddr h]; rfl

theorem V0.logSpanFree_eq_V1 :
    V0.logSpanFree info m s.toMSpan = V1.logSpanFree noHeaders m (regionArena info) s.toMSpan := by
  rw [V0.logSpanFree_of_lt hs.persistent hs.index_lt, V1.logSpanFree, if_neg hs.persistent,
    regionArena_spanLogAddr h]

end Arena

/-- **The region's run is pmemLog.go's.** On spans of the region, every run of the region revision
is the run of pmemLog.go on the region seen as an arena. -/
theorem V0.runSpanOps_eq {info : PmemInfo} (h : info.spanBitmap.1 ≤ info.startAddr) :
    ∀ (ops : List SpanOp) (m : Mem), (∀ op ∈ ops, InRegion info op.span) →
      V0.runSpanOps info m ops = V1.runSpanOps noHeaders (regionArena info) m ops
  | [], _, _ => rfl
  | op :: ops, m, hops => by
    have hop : op.runV0 info m = op.runV1 noHeaders (regionArena info) m := by
      cases op with
      | alloc s => exact V0.logSpanAlloc_eq_V1 h (hops _ (List.mem_cons_self _ _)) m
      | free s => exact V0.logSpanFree_eq_V1 h (hops _ (List.mem_cons_self _ _)) m
    simp only [V0.runSpanOps, V1.runSpanOps, hop,
      V0.runSpanOps_eq h ops _ fun o ho => hops o (List.mem_cons_of_mem _ ho)]

/-! ## Runs that read only the span bitmap -/

/-- `m` and `m'` hold the same bytes in `[lo, hi)`. -/
def AgreeOn (lo hi : Nat) (m m' : Mem) : Prop := ∀ b, lo ≤ b → b < hi → m b = m' b

theorem ExceptRel.of_ok_left {α β : Type} {R : α → β → Prop} {x : α} {b : Except String β}
    (h : ExceptRel R (.ok x) b) : ∃ y, b = .ok y ∧ R x y := by
  cases b with
  | error e => exact h.elim
  | ok y => exact ⟨y, rfl, h⟩

theorem ExceptRel.of_ok_right {α β : Type} {R : α → β → Prop} {a : Except String α} {y : β}
    (h : ExceptRel R a (.ok y)) : ∃ x, a = .ok x ∧ R x y := by
  cases a with
  | error e => exact h.elim
  | ok x => exact ⟨x, rfl, h⟩

section Agree

variable {lo hi : Nat} {m m' : Mem}

theorem AgreeOn.update (h : AgreeOn lo hi m m') (a : Nat) (x : UInt8) :
    AgreeOn lo hi (Function.update m a x) (Function.update m' a x) := fun b hlo hhi => by
  by_cases hb : b = a
  · subst hb; rw [Function.update_same, Function.update_same]
  · rw [Function.update_noteq hb, Function.update_noteq hb]; exact h b hlo hhi

theorem AgreeOn.storeBytes : ∀ (bs : List UInt8) {m m' : Mem} (a : Nat), AgreeOn lo hi m m' →
    AgreeOn lo hi (GoPmem.storeBytes m a bs) (GoPmem.storeBytes m' a bs)
  | [], _, _, _, h => h
  | b :: bs, _, _, a, h => AgreeOn.storeBytes bs (a + 1) (h.update a b)

theorem AgreeOn.storeUInt (h : AgreeOn lo hi m m') (a n v : Nat) :
    AgreeOn lo hi (GoPmem.storeUInt m a n v) (GoPmem.storeUInt m' a n v) :=
  h.storeBytes _ a

theorem AgreeOn.loadUInt (h : AgreeOn lo hi m m') {a n : Nat} (hlo : lo ≤ a) (hhi : a + n ≤ hi) :
    GoPmem.loadUInt m a n = GoPmem.loadUInt m' a n :=
  loadUInt_congr fun _ _ => h _ (by omega) (by omega)

/-- The compare-and-store on a word of the window reads the same word in both memories, so it
throws in both or in neither, and keeps the window the same. -/
theorem AgreeOn.logSpanAllocAt (h : AgreeOn lo hi m m') {a : Nat} (v : Nat) (hlo : lo ≤ a)
    (hhi : a + 4 ≤ hi) :
    ExceptRel (AgreeOn lo hi) (V1.logSpanAllocAt m a v) (V1.logSpanAllocAt m' a v) := by
  unfold V1.logSpanAllocAt
  rw [h.loadUInt hlo hhi]
  dsimp only
  split_ifs
  exacts [rfl, h, h.storeUInt _ _ _, h.storeUInt _ _ _]

/-- One call on a span of the region. -/
theorem AgreeOn.runV0 {info : PmemInfo}
    (h : AgreeOn info.spanBitmap.1 (info.spanBitmap.1 + info.spanBitmap.2 * 4) m m') {op : SpanOp}
    (hop : InRegion info op.span) :
    ExceptRel (AgreeOn info.spanBitmap.1 (info.spanBitmap.1 + info.spanBitmap.2 * 4))
      (op.runV0 info m) (op.runV0 info m') := by
  cases op with
  | alloc s =>
    have hop : InRegion info s := hop
    have hi := hop.index_lt
    rw [SpanOp.runV0, SpanOp.runV0, V0.logSpanAlloc_of_lt hop.persistent hi,
      V0.logSpanAlloc_of_lt hop.persistent hi]
    exact h.logSpanAllocAt _ (by omega) (by omega)
  | free s =>
    have hop : InRegion info s := hop
    rw [SpanOp.runV0, SpanOp.runV0, V0.logSpanFree_of_lt hop.persistent hop.index_lt,
      V0.logSpanFree_of_lt hop.persistent hop.index_lt]
    exact h.storeUInt _ _ _

end Agree

/-! ## Every logging call of the region -/

/-- A logging call of the region revision: a span call, or `logHeapBits(addr, startByte, endByte)`. -/
inductive RegionCall
  | span (op : SpanOp)
  | heapBits (addr startByte endByte : Nat)

/-- One call on memory `m`. -/
def RegionCall.run (info : PmemInfo) (m : Mem) : RegionCall → Except String Mem
  | .span op => op.runV0 info m
  | .heapBits addr startByte endByte => V0.logHeapBits info m addr startByte endByte

/-- The calls in order, up to the first that throws. -/
def V0.runCalls (info : PmemInfo) (m : Mem) : List RegionCall → Except String Mem
  | [] => pure m
  | c :: cs => (c.run info m).bind fun m' => V0.runCalls info m' cs

/-- The span calls among `cs`, in order. -/
def RegionCall.spanOps : List RegionCall → List SpanOp
  | [] => []
  | .span op :: cs => op :: RegionCall.spanOps cs
  | .heapBits .. :: cs => RegionCall.spanOps cs

/-- The caller's part of a call on the region `[S, E]`: a span call on a persistent span whose
first address lies in `[S, E]` and whose page count fits the word; a heap-bits call for an object
at `addr ≥ S` whose bits, one byte for 32 bytes, describe addresses up to `E` only. -/
def RegionCall.Fits (S E : Nat) : RegionCall → Prop
  | .span op => op.span.memtype ≠ isNotPersistent ∧ S ≤ op.span.base ∧ op.span.base ≤ E ∧
      op.span.FitsWord
  | .heapBits addr startByte endByte =>
      S ≤ addr ∧ addr + 32 * (endByte - startByte) ≤ E ∧ startByte ≤ endByte ∧ endByte < 2 ^ 64

instance (S E : Nat) : DecidablePred (RegionCall.Fits S E)
  | .span _ => inferInstanceAs (Decidable (_ ∧ _ ∧ _ ∧ _))
  | .heapBits .. => inferInstanceAs (Decidable (_ ∧ _ ∧ _ ∧ _))

section Calls

variable {info : PmemInfo} (hl : RegionLayout info)
include hl

theorem RegionLayout.inRegion {s : Span} (hp : s.memtype ≠ isNotPersistent)
    (hS : info.startAddr ≤ s.base) (hE : s.base ≤ info.endAddr) (hfit : s.FitsWord) :
    InRegion info s :=
  ⟨hp, hS, lt_of_le_of_lt (Nat.div_le_div_right (show s.base - info.startAddr ≤
    info.endAddr - info.startAddr by omega)) hl.page_lt, hfit⟩

theorem RegionLayout.spanOps_inRegion : ∀ (cs : List RegionCall),
    (∀ c ∈ cs, c.Fits info.startAddr info.endAddr) →
      ∀ op ∈ RegionCall.spanOps cs, InRegion info op.span
  | [], _ => fun _ h => absurd h (List.not_mem_nil _)
  | .span o :: cs, hcs => by
    intro op hop
    rcases List.mem_cons.1 hop with rfl | hop
    · obtain ⟨hp, hS, hE, hfit⟩ := hcs _ (List.mem_cons_self _ _)
      exact hl.inRegion hp hS hE hfit
    · exact RegionLayout.spanOps_inRegion cs (fun c hc => hcs c (List.mem_cons_of_mem _ hc)) op hop
  | .heapBits .. :: cs, hcs =>
    RegionLayout.spanOps_inRegion cs fun c hc => hcs c (List.mem_cons_of_mem _ hc)

/-- A heap-bits call of the caller's part returns and keeps the span bitmap, which lies before
the type bitmap. -/
theorem AgreeOn.logHeapBits {m m₂ : Mem}
    (h : AgreeOn info.spanBitmap.1 (info.spanBitmap.1 + info.spanBitmap.2 * 4) m m₂)
    {addr startByte endByte : Nat}
    (hc : (RegionCall.heapBits addr startByte endByte).Fits info.startAddr info.endAddr) :
    ∃ m', V0.logHeapBits info m addr startByte endByte = .ok m' ∧
      AgreeOn info.spanBitmap.1 (info.spanBitmap.1 + info.spanBitmap.2 * 4) m' m₂ := by
  obtain ⟨hS, hfit, hse, hend⟩ := hc
  obtain ⟨m', hm', hch, -, -⟩ := hl.logHeapBits m hS hfit hse hend
  refine ⟨m', hm', fun b hlo hhi => ?_⟩
  rw [hch b (.inl (by have := hl.span_le_type; omega))]
  exact h b hlo hhi

/-- **Every run.** From memories with the same span bitmap, the region revision runs every sequence of
logging calls of the caller's part as it runs the span calls alone: the heap-bits calls return and
leave the span bitmap alone, and the span calls throw together or keep the same span bitmap. -/
theorem V0.runCalls_agree : ∀ (cs : List RegionCall) {m m₂ : Mem},
    AgreeOn info.spanBitmap.1 (info.spanBitmap.1 + info.spanBitmap.2 * 4) m m₂ →
    (∀ c ∈ cs, c.Fits info.startAddr info.endAddr) →
    ExceptRel (AgreeOn info.spanBitmap.1 (info.spanBitmap.1 + info.spanBitmap.2 * 4))
      (V0.runCalls info m cs) (V0.runSpanOps info m₂ (RegionCall.spanOps cs))
  | [], _, _, h, _ => h
  | .span op :: cs, _, _, h, hcs =>
    have hop : InRegion info op.span :=
      hl.spanOps_inRegion _ hcs op (List.mem_cons_self _ _)
    (h.runV0 hop).bind fun _ _ hr =>
      V0.runCalls_agree cs hr fun c hc => hcs c (List.mem_cons_of_mem _ hc)
  | .heapBits .. :: cs, m, _, h, hcs => by
    obtain ⟨m', hm', h'⟩ := h.logHeapBits hl (hcs _ (List.mem_cons_self _ _))
    simp only [V0.runCalls, RegionCall.run, hm']
    exact V0.runCalls_agree cs h' fun c hc => hcs c (List.mem_cons_of_mem _ hc)

end Calls

/-! ## The span log of the region over every run -/

theorem loadUInt_zero : ∀ (a n : Nat), loadUInt (fun _ => 0) a n = 0
  | _, 0 => rfl
  | a, n + 1 => by simp only [loadUInt, loadUInt_zero (a + 1) n]; rfl

section Layout

variable {info : PmemInfo} (hl : RegionLayout info)
include hl

/-- **The span words of a region over a run.** On a region with this layout, from a memory whose
span-bitmap words are zero, every run whose span calls the discipline allows and whose calls fit
the region returns. Afterwards the word of each live span's first page is its `spanLogValue`, and
the words of the other pages are zero. -/
theorem RegionLayout.runCalls (m₀ : Mem)
    (h₀ : AgreeOn info.spanBitmap.1 (info.spanBitmap.1 + info.spanBitmap.2 * 4) m₀ (fun _ => 0))
    (calls : List RegionCall) (hd : Disciplined (regionArena info) [] (RegionCall.spanOps calls))
    (hcs : ∀ c ∈ calls, c.Fits info.startAddr info.endAddr) :
    ∃ m, V0.runCalls info m₀ calls = .ok m ∧
      (∀ s ∈ liveAfter [] (RegionCall.spanOps calls),
        loadUInt m (info.spanBitmap.1 + (s.base - info.startAddr) / pageSize * 4) 4 =
          V0.spanLogValue s.toMSpan) ∧
      ∀ p < info.spanBitmap.2,
        (∀ s ∈ liveAfter [] (RegionCall.spanOps calls), (s.base - info.startAddr) / pageSize ≠ p) →
          loadUInt m (info.spanBitmap.1 + p * 4) 4 = 0 := by
  set ops := RegionCall.spanOps calls
  have hle : info.spanBitmap.1 ≤ info.startAddr := by
    have := hl.span_le_type; have := hl.type_le_start; omega
  have hreg : ∀ op ∈ ops, InRegion info op.span := hl.spanOps_inRegion calls hcs
  have hstart := regionArena_arenaStart hle
  -- the arena revision on the region seen as an arena, from a zero memory, represents the live spans
  obtain ⟨m₂, hm₂, hr⟩ := represents_run ops [] (fun _ => 0)
    (show Represents noHeaders (regionArena info) (fun _ => 0) [] from
      ⟨nofun, List.nodup_nil, nofun, fun p _ => loadUInt_zero _ _⟩) hd
  -- pmemLog.go keeps its words without `optTypeLog`, and the region revision's span calls are pmemLog.go's
  have hrec := SpanRecoded.run (regionArena_at (by have := hl.end_lt; have := hl.start_le_end; omega)) ops
    (.zero fun p => loadUInt_zero _ _)
    fun op hop => ⟨hstart ▸ (hreg op hop).start_le, (hreg op hop).fits⟩
  rw [hm₂, ← V0.runSpanOps_eq hle ops _ hreg] at hrec
  obtain ⟨m₃, hm₃, hrec⟩ := ExceptRel.of_ok_left hrec
  -- from `m₀`, with the heap-bits calls, the region revision keeps the span bitmap of the span calls alone
  have hag := V0.runCalls_agree hl calls h₀ hcs
  rw [hm₃] at hag
  obtain ⟨m, hm, hag⟩ := ExceptRel.of_ok_right hag
  have hword : ∀ p < info.spanBitmap.2, loadUInt m (info.spanBitmap.1 + p * 4) 4 =
      dropOptTypeLog (spanWord noHeaders (regionArena info) m₂ p) := fun p hp => by
    rw [← hrec.word p, spanWord, regionArena_spanBitmap, hag.loadUInt (by omega) (by omega)]
  have hpage : ∀ s : Span,
      pageOf (regionArena info) s.toMSpan = (s.base - info.startAddr) / pageSize := fun s => by
    rw [pageOf, hstart]
  refine ⟨m, hm, fun s hs => ?_, fun p hp hfree => ?_⟩
  · have hsr : InRegion info s := by
      rcases mem_liveAfter hs with h | h
      · exact absurd h (List.not_mem_nil _)
      · exact hreg _ h
    rw [hword _ hsr.page_lt, ← hpage, hr.live_word s hs, V0.spanLogValue,
      V1.spanLogValue_eq s hsr.fits]
  · rw [hword p hp, hr.free_word p fun s hs => by rw [hpage]; exact hfree s hs]
    rfl

end Layout

section Region

variable {fname : String} {size offset : Int} {r : Option (Nat × Nat)} {M : Nat} {w w' : World}

/-- **The region's span log over every run.** After a call of `PmallocInit` that returns the
region mapped at `M` (with a non-negative offset, and the mapping inside the address space), from
a memory whose span bitmap is zero, every sequence of the region revision's logging calls of the
caller's part (heap-bits calls for objects of the region, and span calls on persistent spans of
`[startAddr, endAddr]` whose page counts fit the word, which the allocator's discipline allows)
runs without a throw. Afterwards the word of the first page of each live span is the word of its
latest allocation, and the word of every other usable page is zero: the heap-bits calls leave the
span log alone. -/
theorem regionSpanLog_run (hoff : 0 ≤ offset) (hint : size < 2 ^ 63) (hmap : M + size.toNat ≤ 2 ^ 64)
    (h : pmallocInit fname size offset r w = .ok (w', some M)) :
    let a := initAddrs (initSizes size offset) offset M
    ∀ m₀ : Mem, (∀ b, a.spanBitsAddr ≤ b → b < a.spanBitsAddr + a.usablePages * 4 → m₀ b = 0) →
    ∀ calls : List RegionCall, Disciplined (regionArena w'.info) [] (RegionCall.spanOps calls) →
      (∀ c ∈ calls, c.Fits a.startAddr a.endAddr) →
      ∃ m, V0.runCalls w'.info m₀ calls = .ok m ∧
        (∀ s ∈ liveAfter [] (RegionCall.spanOps calls),
          loadUInt m (a.spanBitsAddr + (s.base - a.startAddr) / pageSize * 4) 4 =
            V0.spanLogValue s.toMSpan) ∧
        ∀ p < a.usablePages,
          (∀ s ∈ liveAfter [] (RegionCall.spanOps calls), (s.base - a.startAddr) / pageSize ≠ p) →
            loadUInt m (a.spanBitsAddr + p * 4) 4 = 0 := by
  obtain ⟨o, n, R, U, hsz, hUn, hR, hE, ha, hsb, -, hst, hen⟩ := pmallocInit_region hoff hint hmap h
  dsimp only
  rw [ha]
  dsimp only
  intro m₀ h₀ calls hd hcs
  rw [← hst, ← hen] at hcs
  obtain ⟨m, hm, hlive, hfree⟩ := (pmallocInit_layout hoff hint hmap h).runCalls m₀
    (fun b hlo hhi => by rw [hsb] at hlo hhi; exact h₀ b hlo (by omega)) calls hd hcs
  rw [hsb, hst] at hlive hfree
  exact ⟨m, hm, hlive, hfree⟩

/-- The five-page span at the first usable page of a first run over a 64 MiB file mapped at
`2^32`. -/
def firstPageSpan : Span where
  base := 2 ^ 32 + 261 * 8192
  npages := 5
  spanclass := 1
  elemsize := 5 * pageSize
  needzero := 1
  typIndex := 0
  memtype := isPersistent
  npages_pos := by decide
  needzero_le := le_refl _
  elemsize_le := le_refl _
  small_spanclass := by decide
  large_shape := fun _ => ⟨rfl, le_refl _⟩
  limit_le := by decide

/-- On that first run, allocating the span, logging the heap bits of its first object, freeing the
span and allocating it again returns, and leaves the pmemLog.go word of the span in the first word
of the span bitmap. -/
theorem regionSpanLog_run_allocFreeAlloc :
    ∃ w', pmallocInit "" pmemInitSize 0 (some (2 ^ 32, 2 ^ 26)) freshWorld = .ok (w', some (2 ^ 32)) ∧
      (0 : Int) ≤ 0 ∧ pmemInitSize < 2 ^ 63 ∧ 2 ^ 32 + pmemInitSize.toNat ≤ 2 ^ 64 ∧
      Disciplined (regionArena w'.info) []
        [.alloc firstPageSpan, .free firstPageSpan, .alloc firstPageSpan] ∧
      ∃ m, V0.runCalls w'.info (fun _ => 0)
          [.span (.alloc firstPageSpan), .heapBits (2 ^ 32 + 261 * 8192) 0 3,
            .span (.free firstPageSpan), .span (.alloc firstPageSpan)] = .ok m ∧
        loadUInt m (2 ^ 32 + 16) 4 = V0.spanLogValue firstPageSpan.toMSpan := by
  obtain ⟨w', hw⟩ : ∃ w', pmallocInit "" pmemInitSize 0 (some (2 ^ 32, 2 ^ 26)) freshWorld =
      .ok (w', some (2 ^ 32)) := ⟨_, by rfl⟩
  have ha : initAddrs (initSizes pmemInitSize 0) 0 (2 ^ 32) = ⟨2 ^ 32 + 261 * 8192, 2 ^ 32, 7931,
      2 ^ 32 + 16, 7931 * 256, 2 ^ 32 + 16 + 4 * 8192, 2 ^ 32 + 2 ^ 26 - 1⟩ := by rfl
  obtain ⟨-, hsb, -, hst, -⟩ := pmallocInit_info hw
  rw [ha] at hsb hst
  have hstart : (regionArena w'.info).arenaStart = 2 ^ 32 + 261 * 8192 := by
    rw [regionArena_arenaStart (by rw [hsb, hst]; decide), hst]
  have hd : Disciplined (regionArena w'.info) []
      [.alloc firstPageSpan, .free firstPageSpan, .alloc firstPageSpan] :=
    ⟨⟨⟨by decide, hstart.le, by decide⟩, .inl fun _ h => absurd h (List.not_mem_nil _)⟩,
      ⟨by decide, firstPageSpan, List.mem_singleton_self _, rfl⟩,
      ⟨⟨by decide, hstart.le, by decide⟩, .inl fun _ h => by simp [nextLive] at h⟩, trivial⟩
  obtain ⟨m, hm, hlive, -⟩ := regionSpanLog_run (le_refl 0) (by decide) (by decide) hw
    (fun _ => 0) (fun _ _ _ => rfl) [.span (.alloc firstPageSpan), .heapBits (2 ^ 32 + 261 * 8192) 0 3,
      .span (.free firstPageSpan), .span (.alloc firstPageSpan)] hd (by rw [ha]; decide)
  refine ⟨w', hw, le_rfl, by decide, by decide, hd, m, hm, ?_⟩
  have h := hlive firstPageSpan (by simp [RegionCall.spanOps, liveAfter, nextLive])
  rwa [ha] at h

end Region

end GoPmem
