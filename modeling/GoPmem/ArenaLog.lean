import GoPmem.HeapBits
import GoPmem.SpanLog.Revisions

/-!
# GoPmem.ArenaLog — the span log and the type log of an arena over whole runs

In the arena revision an arena keeps two logs in its metadata: the type bitmap, where
`logHeapBits` copies an object's heap bits or, on a span whose objects have one type, writes the
span's descriptor; and after it the span bitmap, one word per page, which `logSpanAlloc` and
`logSpanFree` write.
The allocator calls the three in any order. This module runs them interleaved and shows that
neither log disturbs the other.

* `ArenaCall`, `runArenaCalls`: the calls, run in order up to the first that throws.
  `ArenaCall.Allowed`, `ArenaDisciplined`: the calls the allocator makes, given its live spans.
* `ArenaLogs`: the span bitmap represents the live spans (`Represents`), and every typed span
  logged since its latest allocation holds its descriptor (`DescriptorAt`).
* `DescriptorAt.of_agree`, `Represents.of_agree`: the bytes each log is read from.
* `ArenaLogs.alloc`, `ArenaLogs.free`, `ArenaLogs.heapBits`: each allowed call returns and keeps
  `ArenaLogs`; `ArenaLogs.run`: so does every allowed sequence of calls.
* `arenaLogs_run`: from a zero span bitmap, every allowed run returns, and after it both logs hold.
-/

namespace GoPmem

/-! ## Calls and the allocator's discipline -/

/-- A logging call on an arena: a span call, or `logHeapBits` for the object at `addr` of span
`s`, with heap bits `[startByte, endByte]` and type `typ`. -/
inductive ArenaCall
  | span (op : SpanOp)
  | heapBits (s : Span) (addr startByte endByte : Nat) (typ : GoType)

/-- The live spans after a call: `logHeapBits` leaves them as they are. -/
def ArenaCall.nextLive (live : List Span) : ArenaCall → List Span
  | .span op => GoPmem.nextLive live op
  | .heapBits .. => live

/-- The typed spans logged since their latest allocation, after a call: a span call drops those
that start where its span starts, and `logHeapBits` on a typed span adds it. -/
def ArenaCall.nextLogged (logged : List Span) : ArenaCall → List Span
  | .span op => logged.filter (·.base != op.span.base)
  | .heapBits s .. => if s.typIndex = 0 then logged else s :: logged

variable (hs : HeaderSizes) (pa : PArena)

/-- One call on memory `m`. -/
def ArenaCall.run (m : Mem) : ArenaCall → Except String Mem
  | .span op => op.run hs pa m
  | .heapBits s addr startByte endByte typ => logHeapBits hs m s.toMSpan pa addr startByte endByte typ

/-- The calls in order, up to the first that throws. -/
def runArenaCalls (m : Mem) : List ArenaCall → Except String Mem
  | [] => pure m
  | c :: cs => (c.run hs pa m).bind fun m' => runArenaCalls m' cs

/-- The pointer bitmap of `typ` lies outside the arena's logs: before the type bitmap, or after the
word of the last allocatable page. -/
def GcdataApart (typ : GoType) : Prop :=
  typ.gcdata + ((typ.ptrdata + 7) / 8 + 7) / 8 ≤ pa.typeBitmap hs ∨
    pa.spanBitmap hs + pa.allocSize / pageSize * 4 ≤ typ.gcdata

variable (types : Int → GoType)

/-- The calls the allocator makes, given its live spans, where `types i` is the type of the
objects of a span with `typIndex = i ≠ 0`. Span calls as `Allowed` has them, with an allocated span
inside the allocatable bytes and apart from the live spans with another base; `logHeapBits` for
an object of a live persistent span whose heap bits lie in the span, with the span's type if it
has one, a type no larger than its objects and whose pointer bitmap lies outside the logs. -/
def ArenaCall.Allowed (live : List Span) : ArenaCall → Prop
  | .span (.alloc s) => GoPmem.Allowed pa live (.alloc s) ∧ s.limit ≤ pa.arenaStart + pa.allocSize ∧
      ∀ t ∈ live, t.base ≠ s.base → SpansDisjoint s.toMSpan t.toMSpan
  | .span (.free s) => GoPmem.Allowed pa live (.free s)
  | .heapBits s addr startByte endByte typ => s ∈ live ∧ s.memtype = isPersistent ∧
      s.base ≤ addr ∧ addr + (usub endByte startByte + 1) * 32 ≤ s.limit ∧
      (s.typIndex ≠ 0 → typ = types s.typIndex ∧ typ.ptrdata ≤ s.elemsize ∧ GcdataApart hs pa typ)

/-- A sequence of calls that the discipline allows, one after the other, from `live`. -/
def ArenaDisciplined : List Span → List ArenaCall → Prop
  | _, [] => True
  | live, c :: cs => c.Allowed hs pa types live ∧ ArenaDisciplined (c.nextLive live) cs

/-- The logs of the arena: the span bitmap represents the live spans, which lie in the
allocatable bytes and apart from each other; every typed span logged since its latest allocation
is live, and holds its type's descriptor at its position of the type bitmap. -/
structure ArenaLogs (m : Mem) (live logged : List Span) : Prop where
  spans : Represents hs pa m live
  in_alloc : ∀ s ∈ live, s.limit ≤ pa.arenaStart + pa.allocSize
  disjoint : ∀ s ∈ live, ∀ t ∈ live, s.base ≠ t.base → SpansDisjoint s.toMSpan t.toMSpan
  logged_live : ∀ d ∈ logged, d ∈ live ∧ d.typIndex ≠ 0 ∧ (types d.typIndex).ptrdata ≤ d.elemsize ∧
    GcdataApart hs pa (types d.typIndex)
  descriptor : ∀ d ∈ logged,
    DescriptorAt m (pmemHeapBitsAddr hs d.base pa) d.typIndex (types d.typIndex)

/-! ## Where the logs lie -/

section Layout

variable {pa : PArena}

/-- The word of a span inside the allocatable bytes is a word of the span bitmap. -/
theorem spanLogAddr_in_bitmap (s : MSpan) (hin : pa.arenaStart ≤ s.base) (hlt : s.base < 2 ^ 64)
    (hend : s.base + pageSize ≤ pa.arenaStart + pa.allocSize) :
    pa.spanBitmap hs ≤ spanLogAddr hs pa s ∧
      spanLogAddr hs pa s + 4 ≤ pa.spanBitmap hs + pa.allocSize / pageSize * 4 := by
  rw [spanLogAddr_eq s hin hlt]
  simp only [pageSize] at hend ⊢
  omega

variable {hs}

/-- The type-bitmap bytes of a span inside the allocatable bytes lie in the type bitmap. -/
theorem typeSlice_le_spanBitmap (hpa : ArenaAt hs pa) {s : Span} (hin : pa.arenaStart ≤ s.base)
    (hend : s.limit ≤ pa.arenaStart + pa.allocSize) :
    pa.typeBitmap hs ≤ pmemHeapBitsAddr hs s.base pa ∧
      pmemHeapBitsAddr hs s.base pa + s.npages * pageSize / 32 ≤ pa.spanBitmap hs := by
  have hSB : pa.spanBitmap hs = pa.typeBitmap hs + pa.allocSize / 32 := rfl
  rw [pmemHeapBitsAddr_eq hpa hin s.base_lt]
  simp only [MSpan.limit, pageSize] at hend ⊢
  omega

/-- The descriptor of a type no larger than the objects of `d` fits the type-bitmap bytes of
`d`. -/
theorem descriptor_le_typeSlice {d : Span} {typ : GoType} (hpd : typ.ptrdata ≤ d.elemsize) (a : Nat) :
    a + 32 + ((typ.ptrdata + 7) / 8 + 7) / 8 ≤ a + d.npages * pageSize / 32 := by
  have := d.elemsize_le
  have := d.npages_pos
  simp only [pageSize] at *
  omega

/-- Spans with disjoint pages have disjoint type-bitmap bytes. -/
theorem typeSlice_disjoint (hpa : ArenaAt hs pa) {s t : Span} (hs' : pa.arenaStart ≤ s.base)
    (ht : pa.arenaStart ≤ t.base) (hd : SpansDisjoint s.toMSpan t.toMSpan) (b : Nat) :
    ¬ (typeSlice hs pa s.toMSpan b ∧ typeSlice hs pa t.toMSpan b) := by
  unfold typeSlice
  unfold SpansDisjoint MSpan.limit at hd
  rw [pmemHeapBitsAddr_eq hpa hs' s.base_lt, pmemHeapBitsAddr_eq hpa ht t.base_lt]
  simp only [pageSize] at hd ⊢
  omega

end Layout

/-! ## The bytes each log is read from -/

section Frame

variable {hs} {pa : PArena}

/-- A descriptor is read from its own bytes and those of its type's pointer bitmap. -/
theorem DescriptorAt.of_agree {m m' : Mem} {a : Nat} {idx : Int} {typ : GoType}
    (h : DescriptorAt m a idx typ)
    (hm : ∀ b, a ≤ b ∧ b < a + 32 + ((typ.ptrdata + 7) / 8 + 7) / 8 ∨
      typ.gcdata ≤ b ∧ b < typ.gcdata + ((typ.ptrdata + 7) / 8 + 7) / 8 → m' b = m b) :
    DescriptorAt m' a idx typ where
  index := (loadUInt_congr fun i hi => hm _ (.inl (by simp only [intSize] at hi; omega))).trans h.index
  kind := (loadUInt_congr fun i hi => hm _ (.inl (by simp only [intSize]; omega))).trans h.kind
  size := (loadUInt_congr fun i hi => hm _ (.inl (by omega))).trans h.size
  ptrdata := (loadUInt_congr fun i hi => hm _ (.inl (by omega))).trans h.ptrdata
  gcdata i hi := by rw [hm _ (.inl (by omega)), hm _ (.inr (by omega)), h.gcdata i hi]

/-- The span bitmap is read from its first word on. -/
theorem Represents.of_agree {m m' : Mem} {live : List Span} (h : Represents hs pa m live)
    (hm : ∀ b, pa.spanBitmap hs ≤ b → m' b = m b) : Represents hs pa m' live where
  in_arena := h.in_arena
  nodup := h.nodup
  live_word s hsl := (loadUInt_congr fun _ _ => hm _ (by omega)).trans (h.live_word s hsl)
  free_word p hp := (loadUInt_congr fun _ _ => hm _ (by omega)).trans (h.free_word p hp)

variable {types : Int → GoType} {m m' : Mem} {live logged : List Span}

/-- A logged descriptor survives every write to bytes of the logs that are not type-bitmap bytes
of its span. -/
theorem ArenaLogs.descriptor_frame (hpa : ArenaAt hs pa) (h : ArenaLogs hs pa types m live logged)
    {d : Span} (hd : d ∈ logged)
    (hw : ∀ b, m' b ≠ m b → pa.typeBitmap hs ≤ b ∧ b < pa.spanBitmap hs + pa.allocSize / pageSize * 4 ∧
      (b < pa.spanBitmap hs → ¬ typeSlice hs pa d.toMSpan b)) :
    DescriptorAt m' (pmemHeapBitsAddr hs d.base pa) d.typIndex (types d.typIndex) := by
  obtain ⟨hdl, -, hpd, hg⟩ := h.logged_live d hd
  have hsl := typeSlice_le_spanBitmap hpa (h.spans.in_arena d hdl).start_le (h.in_alloc d hdl)
  have hfit := descriptor_le_typeSlice hpd (pmemHeapBitsAddr hs d.base pa)
  refine (h.descriptor d hd).of_agree fun b hb => by_contra fun hne => ?_
  obtain ⟨h1, h2, h3⟩ := hw b hne
  unfold typeSlice at h3
  unfold GcdataApart at hg
  omega

end Frame

/-! ## Each call keeps the logs -/

section Step

variable {hs} {pa : PArena} {types : Int → GoType} {m : Mem} {live logged : List Span}

/-- A store to a word of the span bitmap keeps every logged descriptor. -/
theorem ArenaLogs.descriptor_storeWord (hpa : ArenaAt hs pa) (h : ArenaLogs hs pa types m live logged)
    {a : Nat} (ha : pa.spanBitmap hs ≤ a ∧ a + 4 ≤ pa.spanBitmap hs + pa.allocSize / pageSize * 4)
    (v : Nat) {d : Span} (hd : d ∈ logged) :
    DescriptorAt (storeUInt m a 4 v) (pmemHeapBitsAddr hs d.base pa) d.typIndex (types d.typIndex) := by
  have hSB : pa.spanBitmap hs = pa.typeBitmap hs + pa.allocSize / 32 := rfl
  refine h.descriptor_frame hpa hd fun b hne => ?_
  have hb : a ≤ b ∧ b < a + 4 := by
    by_contra hb
    exact hne (storeUInt_of_not_mem (by omega))
  omega

/-- After a span call, the logged spans that start elsewhere are still live and logged. -/
theorem ArenaLogs.logged_filter (h : ArenaLogs hs pa types m live logged) (s : Span) :
    ∀ d ∈ logged.filter (·.base != s.base), d ∈ live.filter (·.base != s.base) ∧ d.typIndex ≠ 0 ∧
      (types d.typIndex).ptrdata ≤ d.elemsize ∧ GcdataApart hs pa (types d.typIndex) := by
  intro d hd
  obtain ⟨hd, hb⟩ := List.mem_filter.1 hd
  obtain ⟨hl, ht, hp, hg⟩ := h.logged_live d hd
  exact ⟨List.mem_filter.2 ⟨hl, hb⟩, ht, hp, hg⟩

/-- **`logSpanAlloc`.** An allowed allocation returns, stores the span's word, and keeps the logs:
the new span replaces the live spans with its base and is apart from the others. -/
theorem ArenaLogs.alloc (hpa : ArenaAt hs pa) (h : ArenaLogs hs pa types m live logged) {s : Span}
    (ha : (ArenaCall.span (.alloc s)).Allowed hs pa types live) :
    ∃ m', logSpanAlloc hs m pa s.toMSpan = .ok m' ∧
      ArenaLogs hs pa types m' (s :: live.filter (·.base != s.base)) (logged.filter (·.base != s.base)) := by
  obtain ⟨hA, hend, hdis⟩ := ha
  obtain ⟨m', hm', hr⟩ := represents_alloc h.spans hA
  have hw := spanLogAddr_in_bitmap hs s.toMSpan hA.1.start_le s.base_lt
    (by have := s.npages_pos; simp only [MSpan.limit, pageSize] at hend ⊢; omega)
  refine ⟨m', hm', hr, ?_, ?_, fun d hd => ?_, fun d hd => ?_⟩
  · simp only [List.mem_cons, List.mem_filter]
    rintro u (rfl | ⟨hu, -⟩)
    exacts [hend, h.in_alloc u hu]
  · simp only [List.mem_cons, List.mem_filter, bne_iff_ne, ne_eq]
    rintro u (rfl | ⟨hu, hus⟩) w (rfl | ⟨hw, hws⟩) hne
    · exact absurd rfl hne
    · exact hdis w hw hws
    · exact (hdis u hu hus).symm
    · exact h.disjoint u hu w hw hne
  · obtain ⟨hl, hrest⟩ := h.logged_filter s d hd
    exact ⟨List.mem_cons_of_mem _ hl, hrest⟩
  · rw [logSpanAlloc_ok hm']
    exact h.descriptor_storeWord hpa hw _ (List.mem_of_mem_filter hd)

/-- **`logSpanFree`.** An allowed free returns, clears the span's word, and keeps the logs. -/
theorem ArenaLogs.free (hpa : ArenaAt hs pa) (h : ArenaLogs hs pa types m live logged) {s : Span}
    (ha : (ArenaCall.span (.free s)).Allowed hs pa types live) :
    ∃ m', logSpanFree hs m pa s.toMSpan = .ok m' ∧
      ArenaLogs hs pa types m' (live.filter (·.base != s.base)) (logged.filter (·.base != s.base)) := by
  obtain ⟨hp, t, ht, hb⟩ := ha
  obtain ⟨m', hm', hr⟩ := represents_free h.spans hp ht hb
  have hw := spanLogAddr_in_bitmap hs s.toMSpan (hb ▸ (h.spans.in_arena t ht).start_le) s.base_lt
    (by have := h.in_alloc t ht; have := t.npages_pos; simp only [MSpan.limit, pageSize] at *; omega)
  refine ⟨m', hm', hr, fun u hu => h.in_alloc u (List.mem_of_mem_filter hu),
    fun u hu w hw' => h.disjoint u (List.mem_of_mem_filter hu) w (List.mem_of_mem_filter hw'),
    h.logged_filter s, fun d hd => ?_⟩
  cases (logSpanFree_eq hp).symm.trans hm'
  exact h.descriptor_storeWord hpa hw _ (List.mem_of_mem_filter hd)

section HeapBits

variable {s : Span} {addr startByte endByte : Nat} {typ : GoType} {m' : Mem}

/-- An allowed `logHeapBits` call writes only type-bitmap bytes of its span. -/
theorem ArenaLogs.heapBits_writes (hpa : ArenaAt hs pa) (h : ArenaLogs hs pa types m live logged)
    (ha : (ArenaCall.heapBits s addr startByte endByte typ).Allowed hs pa types live)
    (hm' : logHeapBits hs m s.toMSpan pa addr startByte endByte typ = .ok m') :
    ∀ b, m' b ≠ m b → typeSlice hs pa s.toMSpan b := fun _ hne => by_contra fun hb =>
  hne (logHeapBits_in_typeSlice hpa (h.spans.in_arena s ha.1).start_le ha.2.2.1 ha.2.2.2.1
    (fun ht => (ha.2.2.2.2 ht).2.1) hm' hb)

/-- An allowed `logHeapBits` call keeps the descriptor of every logged span: that of another span,
whose type-bitmap bytes it does not write, and that of its own span, which it writes again
unchanged. -/
theorem ArenaLogs.heapBits_keeps (hpa : ArenaAt hs pa) (h : ArenaLogs hs pa types m live logged)
    (ha : (ArenaCall.heapBits s addr startByte endByte typ).Allowed hs pa types live)
    (hm' : logHeapBits hs m s.toMSpan pa addr startByte endByte typ = .ok m') :
    ∀ d ∈ logged, DescriptorAt m' (pmemHeapBitsAddr hs d.base pa) d.typIndex (types d.typIndex) := by
  have hw := h.heapBits_writes hpa ha hm'
  obtain ⟨hsl, hp, -, -, htyp⟩ := ha
  intro d hd
  obtain ⟨hdl, hdt, -, -⟩ := h.logged_live d hd
  by_cases hb : d.base = s.base
  · -- `d` is `s`: its descriptor is in place, so the call writes it again unchanged
    obtain rfl : d = s :=
      List.inj_on_of_nodup_map h.spans.nodup hdl hsl (by simp only [pageOf, hb])
    rw [logHeapBits_opt hp hdt, (htyp hdt).1, (h.descriptor d hd).logTypeDescriptor_eq] at hm'
    cases hm'
    exact h.descriptor d hd
  · have hin := (h.spans.in_arena s hsl).start_le
    have hslice := typeSlice_le_spanBitmap hpa hin (h.in_alloc s hsl)
    have hSB : pa.spanBitmap hs = pa.typeBitmap hs + pa.allocSize / 32 := rfl
    refine h.descriptor_frame hpa hd fun b hne => ?_
    have hb' := hw b hne
    have hsd := typeSlice_disjoint hpa hin (h.spans.in_arena d hdl).start_le
      (h.disjoint s hsl d hdl (Ne.symm hb)) b
    unfold typeSlice at hb' hsd ⊢
    omega

/-- **`logHeapBits`.** An allowed call returns, leaves the span bitmap and the descriptors of the
logged spans, and on a typed span puts the span's descriptor in place. -/
theorem ArenaLogs.heapBits (hpa : ArenaAt hs pa) (h : ArenaLogs hs pa types m live logged)
    (ha : (ArenaCall.heapBits s addr startByte endByte typ).Allowed hs pa types live) :
    ∃ m', logHeapBits hs m s.toMSpan pa addr startByte endByte typ = .ok m' ∧
      ArenaLogs hs pa types m' live (if s.typIndex = 0 then logged else s :: logged) := by
  obtain ⟨m', hm'⟩ : ∃ m', logHeapBits hs m s.toMSpan pa addr startByte endByte typ = .ok m' := by
    by_cases ht : s.typIndex = 0
    exacts [⟨_, logHeapBits_direct ha.2.1 ht⟩, ⟨_, logHeapBits_opt ha.2.1 ht⟩]
  have hw := h.heapBits_writes hpa ha hm'
  have hkeep := h.heapBits_keeps hpa ha hm'
  obtain ⟨hsl, hp, -, -, htyp⟩ := ha
  have hslice := typeSlice_le_spanBitmap hpa (h.spans.in_arena s hsl).start_le (h.in_alloc s hsl)
  refine ⟨m', hm', h.spans.of_agree fun b hb => by_contra fun hne => ?_, h.in_alloc, h.disjoint,
    ?_, ?_⟩
  · have := hw b hne
    unfold typeSlice at this
    omega
  · split_ifs with ht
    · exact h.logged_live
    · obtain ⟨htp, hpd, hg⟩ := htyp ht
      intro d hd
      rcases List.mem_cons.1 hd with rfl | hd
      exacts [⟨hsl, ht, htp ▸ hpd, htp ▸ hg⟩, h.logged_live d hd]
  · split_ifs with ht
    · exact hkeep
    · obtain ⟨rfl, hpd, hg⟩ := htyp ht
      have hSB : pa.spanBitmap hs = pa.typeBitmap hs + pa.allocSize / 32 := rfl
      intro d hd
      rcases List.mem_cons.1 hd with rfl | hd
      · rw [logHeapBits_opt hp ht] at hm'
        cases hm'
        have hfit := descriptor_le_typeSlice hpd (pmemHeapBitsAddr hs d.base pa)
        unfold GcdataApart at hg
        exact logTypeDescriptor_descriptorAt (by omega)
      · exact hkeep d hd

end HeapBits

/-- Every allowed call returns and keeps the logs. -/
theorem ArenaLogs.step (hpa : ArenaAt hs pa) (h : ArenaLogs hs pa types m live logged) {c : ArenaCall}
    (ha : c.Allowed hs pa types live) :
    ∃ m', c.run hs pa m = .ok m' ∧ ArenaLogs hs pa types m' (c.nextLive live) (c.nextLogged logged) := by
  match c, ha with
  | .span (.alloc s), ha => exact h.alloc hpa ha
  | .span (.free s), ha => exact h.free hpa ha
  | .heapBits s addr startByte endByte typ, ha => exact h.heapBits hpa ha

end Step

/-! ## Whole runs -/

section Runs

variable {hs} {pa : PArena} {types : Int → GoType}

/-- Every allowed sequence of calls returns and keeps the logs. -/
theorem ArenaLogs.run (hpa : ArenaAt hs pa) : ∀ (calls : List ArenaCall) (live logged : List Span) (m : Mem),
    ArenaLogs hs pa types m live logged → ArenaDisciplined hs pa types live calls →
      ∃ m', runArenaCalls hs pa m calls = .ok m' ∧
        ArenaLogs hs pa types m' (calls.foldl ArenaCall.nextLive live)
          (calls.foldl ArenaCall.nextLogged logged)
  | [], _, _, m, h, _ => ⟨m, rfl, h⟩
  | c :: cs, live, logged, m, h, ⟨ha, hd⟩ => by
    obtain ⟨m₁, h₁, hl₁⟩ := h.step hpa ha
    obtain ⟨m', h', hl'⟩ := ArenaLogs.run hpa cs _ _ m₁ hl₁ hd
    exact ⟨m', by rw [runArenaCalls, h₁]; exact h', hl'⟩

/-- **The two logs of an arena do not interfere.** From a zero span bitmap, every sequence of
`logSpanAlloc`, `logSpanFree` and `logHeapBits` calls that the allocator's discipline allows, in
any interleaving, returns without a throw. Afterwards the span bitmap represents the live spans,
and every typed span that had an object logged since its latest allocation holds its type's
descriptor. -/
theorem arenaLogs_run (hpa : ArenaAt hs pa) (types : Int → GoType) (m₀ : Mem)
    (h₀ : ∀ p, spanWord hs pa m₀ p = 0) (calls : List ArenaCall)
    (hd : ArenaDisciplined hs pa types [] calls) :
    ∃ m, runArenaCalls hs pa m₀ calls = .ok m ∧
      Represents hs pa m (calls.foldl ArenaCall.nextLive []) ∧
      ∀ d ∈ calls.foldl ArenaCall.nextLogged [],
        DescriptorAt m (pmemHeapBitsAddr hs d.base pa) d.typIndex (types d.typIndex) := by
  have h : ArenaLogs hs pa types m₀ [] [] :=
    ⟨⟨nofun, List.nodup_nil, nofun, fun p _ => h₀ p⟩, nofun, nofun, nofun, nofun⟩
  obtain ⟨m, hm, hl⟩ := ArenaLogs.run hpa calls [] [] m₀ h hd
  exact ⟨m, hm, hl.spans, hl.descriptor⟩

end Runs

/-- An arena whose first 64 KiB are its metadata and whose next MiB is allocatable. -/
def logArena : PArena := ⟨0, 0, 0, 0, 2 ^ 16 + 2 ^ 20, 2 ^ 16, 2 ^ 20⟩

/-- The first page of `logArena`, a span of 48-byte objects of type 1. -/
def typedPageSpan : Span where
  base := 2 ^ 16
  npages := 1
  spanclass := 10
  elemsize := 48
  needzero := 0
  typIndex := 1
  memtype := isPersistent
  npages_pos := by decide
  needzero_le := by decide
  elemsize_le := by decide
  small_spanclass := fun _ => ⟨by decide, by decide⟩
  large_shape := fun h => absurd h (by decide)
  limit_le := by decide

/-- `fivePageSpan` on the next five pages of `logArena`. -/
def untypedSpan : Span := { fivePageSpan with base := 2 ^ 16 + pageSize, limit_le := by decide }

/-- A 48-byte struct type whose first two words are pointers. -/
def pairType : GoType := ⟨25, 48, 16, 2 ^ 40⟩

/-- Two spans allocated, objects of both logged, a second object of the typed span logged, and
the untyped span freed. -/
def interleavedCalls : List ArenaCall :=
  [.span (.alloc typedPageSpan), .span (.alloc untypedSpan),
    .heapBits typedPageSpan (2 ^ 16) 0 0 pairType, .heapBits untypedSpan (2 ^ 16 + pageSize) 0 3 pairType,
    .heapBits typedPageSpan (2 ^ 16 + 48) 0 0 pairType, .span (.free untypedSpan)]

theorem arenaLogs_run_interleaved :
    ∃ m, runArenaCalls ⟨0, 0⟩ logArena (fun _ => 0) interleavedCalls = .ok m ∧
      Represents ⟨0, 0⟩ logArena m (interleavedCalls.foldl ArenaCall.nextLive []) ∧
      ∀ d ∈ interleavedCalls.foldl ArenaCall.nextLogged [],
        DescriptorAt m (pmemHeapBitsAddr ⟨0, 0⟩ d.base logArena) d.typIndex pairType :=
  arenaLogs_run ⟨rfl, rfl, by decide⟩ (fun _ => pairType) (fun _ => 0) (fun _ => rfl) interleavedCalls
    (by
      have hT : InArena logArena typedPageSpan := ⟨by decide, by decide, by decide⟩
      have hU : InArena logArena untypedSpan := ⟨by decide, by decide, by decide⟩
      have hd : SpansDisjoint untypedSpan.toMSpan typedPageSpan.toMSpan := .inr (by decide)
      have hTl : typedPageSpan ∈ untypedSpan :: [typedPageSpan].filter (·.base != untypedSpan.base) :=
        List.mem_cons_of_mem _ (List.mem_filter.2 ⟨List.mem_singleton_self _, by decide⟩)
      exact ⟨⟨⟨hT, .inl nofun⟩, by decide, nofun⟩,
        ⟨⟨hU, .inl (List.forall_mem_cons.2 ⟨hd, nofun⟩)⟩, by decide, List.forall_mem_cons.2 ⟨fun _ => hd, nofun⟩⟩,
        ⟨hTl, rfl, by decide, by decide, fun _ => ⟨rfl, by decide, .inr (by decide)⟩⟩,
        ⟨List.mem_cons_self _ _, rfl, by decide, by decide, fun h => absurd rfl h⟩,
        ⟨hTl, rfl, by decide, by decide, fun _ => ⟨rfl, by decide, .inr (by decide)⟩⟩,
        ⟨by decide, untypedSpan, List.mem_cons_self _ _, rfl⟩, trivial⟩)

end GoPmem
