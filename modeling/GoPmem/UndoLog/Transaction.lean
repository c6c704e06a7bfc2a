import GoPmem.UndoLog.Log

/-!
# GoPmem.UndoLog.Transaction — what a transaction leaves when it closes

Without crashes, on the bytes the program reads: a transaction that logs words of the arena
before writing them and closes with `commitLog`, `revertLog` or `resetLog`.

* `BodyInv`: between two calls of the body, the bytes outside the log's fields are as the
  caller's writes left them, the log holds one entry per `logEntry`, each with the value its word
  had when the transaction opened, and every written word is logged. `body_vol` carries it over
  the body, one lemma per kind of call.
* `runVol_restoreSteps`: restoring entries that all hold opening values puts every byte of a
  logged word back to its opening value, whatever their order and repetitions.
* `undoLog_tx_close`: `revertLog` leaves every byte outside the log's fields as it was when the
  transaction opened, `commitLog` and `resetLog` leave it as the caller's writes left it; each sets
  the count to 0 and stores only the count and logged words.
* `revertLog_misses_writes`: outside that discipline `revertLog` leaves a write in place, for a
  word logged again after a write and for a log that names its own count.
-/

namespace GoPmem

section Body

variable {pa : PArena} {la : LogLayout}

/-- The words a body logs lie in the arena, apart from the log's fields. -/
theorem TxBody.loggable : ∀ {L Wr : List Nat} {ops : List TxOp}, TxBody pa la L Wr ops →
    ∀ o ∈ loggedOffsets pa ops, la.Loggable pa o
  | _, _, [], _, o, ho => absurd ho (List.not_mem_nil o)
  | _, _, .logEntry _ :: _, hb, o, ho => by
    rcases List.mem_cons.1 ho with rfl | ho
    exacts [hb.2.1, hb.2.2.2.2.loggable o ho]
  | _, _, .write _ _ :: _, hb, o, ho => hb.2.loggable o ho
  | _, _, .commit :: _, hb, _, _ | _, _, .revert :: _, hb, _, _ | _, _, .reset :: _, hb, _, _ =>
    hb.elim

/-- The state between two calls of a body opened on the bytes `m₀`: the bytes outside the log's
fields are those of `cw`, the caller's writes so far; the log holds the entries `E`, each naming a
word apart from its fields with the value it had at the opening; every word written (`Wr`) is
logged; and the bytes of no written word are as they were. -/
structure BodyInv (pa : PArena) (la : LogLayout) (m₀ m cw : Mem) (E : List (Nat × Nat))
    (Wr : List Nat) : Prop where
  frame : ∀ b, ¬ la.IsField pa b → m b = cw b
  holds : Holds pa la m E
  len_le : E.length ≤ maxLogEntries
  entry : ∀ e ∈ E, la.Loggable pa e.1 ∧ e.2 = loadUInt m₀ (pa.addr + e.1) intSize
  written : ∀ w ∈ Wr, ∃ e ∈ E, e.1 = w
  unwritten : ∀ b, (∀ w ∈ Wr, b < pa.addr + w ∨ pa.addr + w + intSize ≤ b) → cw b = m₀ b

variable {m₀ m cw : Mem} {E : List (Nat × Nat)} {Wr : List Nat}

/-- A transaction opens on a log whose count is 0. -/
theorem BodyInv.init (h : loadUInt m₀ (la.countAddr pa) intSize = 0) :
    BodyInv pa la m₀ m₀ m₀ [] [] :=
  ⟨fun _ _ => rfl, ⟨h, fun _ hj => absurd hj (Nat.not_lt_zero _),
    fun _ hj => absurd hj (Nat.not_lt_zero _)⟩, Nat.zero_le _,
    fun _ he => absurd he (List.not_mem_nil _), fun _ hw => absurd hw (List.not_mem_nil _),
    fun _ _ => rfl⟩

/-- `logEntry` on a word written by no earlier write records its opening value. -/
theorem BodyInv.logEntry (hpa : pa.addr + pa.size ≤ 2 ^ 64) (h : BodyInv pa la m₀ m cw E Wr)
    {a : Nat} (ha : pa.addr ≤ a) (hl : la.Loggable pa (a - pa.addr))
    (hlen : E.length < maxLogEntries) (hWr : ∀ w ∈ Wr, WordsApart (a - pa.addr) w) :
    ∃ ps, logEntry pa la m a = .ok ps ∧
      BodyInv pa la m₀ (runVol ps m) cw (E ++ [(a - pa.addr, loadUInt m₀ a intSize)]) Wr := by
  have hsize := hl.1
  unfold intSize at hsize
  -- the word at `a` still holds its opening bytes
  have hv : loadUInt m a intSize = loadUInt m₀ a intSize := loadUInt_congr fun i hi => by
    rw [h.frame _ (hl.2.not_isField (by omega)), h.unwritten _ fun w hw => by
      have := hWr w hw; unfold WordsApart at this; omega]
  refine ⟨_, logEntry_eq hpa ha (by omega) h.holds.count hlen, ?_⟩
  rw [hv]
  refine ⟨fun b hb => (runVol_entrySteps_of_not_isField m hlen hb).trans (h.frame b hb),
    h.holds.entrySteps hlen (by omega) (loadUInt_int_lt _ _), by simpa using hlen,
    fun e he => ?_, fun w hw => (h.written w hw).imp fun e he => ⟨List.mem_append_left _ he.1, he.2⟩,
    h.unwritten⟩
  rcases List.mem_append.1 he with he | he
  · exact h.entry e he
  · rw [List.mem_singleton.1 he]; exact ⟨hl, by rw [Nat.add_sub_cancel' ha]⟩

/-- A write to a logged word. -/
theorem BodyInv.write (h : BodyInv pa la m₀ m cw E Wr) {o : Nat} (ho : o ∈ E.map Prod.fst)
    (v : Nat) : BodyInv pa la m₀ (storeUInt m (pa.addr + o) intSize v)
      (storeUInt cw (pa.addr + o) intSize v) E (Wr ++ [o]) := by
  obtain ⟨e, he, rfl⟩ := List.mem_map.1 ho
  refine ⟨fun b hb => storeUInt_apply_congr (h.frame b hb),
    h.holds.store_apart h.len_le (h.entry e he).1.2 v, h.len_le, h.entry, fun w hw => ?_,
    fun b hb => ?_⟩
  · rcases List.mem_append.1 hw with hw | hw
    exacts [h.written w hw, ⟨e, he, (List.mem_singleton.1 hw).symm⟩]
  · rw [storeUInt_of_not_mem (hb _ (List.mem_append_right _ (List.mem_singleton_self _)))]
    exact h.unwritten b fun w hw => hb w (List.mem_append_left _ hw)

/-- **The body.** The calls of a body that keeps the discipline do not throw, and they leave the
log holding an entry per `logEntry`, the bytes outside its fields as the caller's writes left
them. -/
theorem body_vol (hpa : pa.addr + pa.size ≤ 2 ^ 64) :
    ∀ {ops : List TxOp} {s : PState} {cw : Mem} {E : List (Nat × Nat)} {Wr : List Nat},
      BodyInv pa la m₀ s.vol cw E Wr → TxBody pa la (E.map Prod.fst) Wr ops →
      ∃ ps E' Wr', txTrace pa la s ops = .ok ps ∧
        BodyInv pa la m₀ (runVol ps s.vol) (callerWrites cw ops) E' Wr' ∧
        E'.map Prod.fst = E.map Prod.fst ++ loggedOffsets pa ops
  | [], _, _, E, Wr, h, _ => ⟨[], E, Wr, rfl, h, by simp [loggedOffsets]⟩
  | .logEntry a :: ops, s, cw, E, Wr, h, hb => by
    obtain ⟨ha, hl, hlen, hWr, hb⟩ := hb
    obtain ⟨ps, hps, h'⟩ := h.logEntry hpa ha hl (by simpa using hlen) hWr
    obtain ⟨qs, E', Wr', hqs, h'', hE'⟩ :=
      body_vol hpa (s := runPrims ps s) (by simpa using h') (by simpa using hb)
    exact ⟨ps ++ qs, E', Wr', txTrace_cons_ok hps hqs, by simpa [runVol_append] using h'',
      by simp [hE', loggedOffsets]⟩
  | .write a v :: ops, s, cw, E, Wr, h, hb => by
    obtain ⟨⟨o, ho, rfl⟩, hb⟩ := hb
    obtain ⟨qs, E', Wr', hqs, h'', hE'⟩ :=
      body_vol hpa (s := (Prim.store (pa.addr + o) v).run s) (by simpa using h.write ho v)
        (by simpa using hb)
    exact ⟨_, E', Wr', txTrace_cons_ok rfl hqs, by simpa using h'', by simpa [loggedOffsets] using hE'⟩
  | .commit :: _, _, _, _, _, _, hb | .revert :: _, _, _, _, _, _, hb
  | .reset :: _, _, _, _, _, _, hb => hb.elim

end Body

/-! ## The closing call -/

section Close

variable {pa : PArena} {la : LogLayout}

theorem runVol_persists {α : Type} (xs : List α) (f : α → Nat) (n : Nat) (m : Mem) :
    runVol (xs.map fun x => .persist (f x) n) m = m := by
  induction xs generalizing m with
  | nil => rfl
  | cons x xs ih => exact ih m

/-- Restoring entries that each hold the opening value of their word puts every byte of a
restored word back to its opening value, whatever the order and the repetitions, and leaves the
other bytes alone. -/
theorem runVol_restoreSteps (m₀ : Mem) :
    ∀ (E : List (Nat × Nat)) (m : Mem), (∀ e ∈ E, e.2 = loadUInt m₀ (pa.addr + e.1) intSize) →
      ∀ b, runVol (restoreSteps pa E) m b =
        if ∃ e ∈ E, pa.addr + e.1 ≤ b ∧ b < pa.addr + e.1 + intSize then m₀ b else m b
  | [], m, _, b => by simp
  | e :: E, m, hE, b => by
    rw [restoreSteps_cons, runVol_cons, runVol_cons, Prim.vol_store, Prim.vol_persist,
      runVol_restoreSteps m₀ E _ (fun e' he' => hE e' (List.mem_cons_of_mem _ he')) b,
      hE e (List.mem_cons_self _ _), storeUInt_loadUInt_apply]
    by_cases h1 : ∃ e' ∈ E, pa.addr + e'.1 ≤ b ∧ b < pa.addr + e'.1 + intSize <;>
      by_cases h2 : pa.addr + e.1 ≤ b ∧ b < pa.addr + e.1 + intSize <;> simp [h1, h2]

variable {m₀ m cw : Mem} {E : List (Nat × Nat)} {Wr : List Nat}

/-- **The closing call.** After a body that keeps the discipline, `commitLog`, `revertLog` and
`resetLog` do not throw, store nothing but the count and the logged words, and leave the count 0;
`revertLog` puts every byte outside the log's fields back to its opening value, the other two
leave it as the caller's writes left it. -/
theorem close_vol (hpa : pa.addr + pa.size ≤ 2 ^ 64) (h : BodyInv pa la m₀ m cw E Wr)
    {close : TxOp} (hclose : close = .commit ∨ close = .revert ∨ close = .reset) :
    ∃ qs, close.prims pa la m = .ok qs ∧
      (∀ a v, Prim.store a v ∈ qs → a = la.countAddr pa ∨ ∃ e ∈ E, a = pa.addr + e.1) ∧
      loadUInt (runVol qs m) (la.countAddr pa) intSize = 0 ∧
      ∀ b, ¬ la.IsField pa b → runVol qs m b = if close = .revert then m₀ b else cw b := by
  have hE : ∀ e ∈ E, e.1 < pa.size ∧ la.Apart e.1 := fun e he =>
    ⟨(h.entry e he).1.lt_size, (h.entry e he).1.2⟩
  have hreset : ∀ a v, Prim.store a v ∈ resetLog pa la → a = la.countAddr pa := by
    simp [resetLog]
  rcases hclose with rfl | rfl | rfl <;> rw [TxOp.prims]
  · refine ⟨_, commitLog_eq hpa h.holds (fun e he => (hE e he).1) h.len_le, fun a v hv => ?_,
      loadUInt_runVol_resetLog _ _, fun b hb => ?_⟩
    · simp only [List.mem_append, List.mem_map, reduceCtorEq, and_false, exists_false,
        false_or] at hv
      exact .inl (hreset a v hv)
    · rw [runVol_append, runVol_resetLog_of_not_isField _ hb, runVol_persists]
      exact h.frame b hb
  · by_cases hE0 : E = []
    · subst hE0
      have hc : loadUInt m (la.countAddr pa) intSize = 0 := h.holds.count
      refine ⟨[], by rw [revertLog, if_pos hc]; rfl, by simp, hc,
        fun b hb => (h.frame b hb).trans (h.unwritten b fun w hw => ?_)⟩
      obtain ⟨_, he, _⟩ := h.written w hw
      exact absurd he (List.not_mem_nil _)
    refine ⟨_, revertLog_eq hpa h.holds hE h.len_le (List.length_pos.2 hE0), fun a v hv => ?_,
      loadUInt_runVol_resetLog _ _, fun b hb => ?_⟩
    · rcases List.mem_append.1 hv with hv | hv
      · simp only [restoreSteps, List.mem_flatMap, List.mem_cons, Prim.store.injEq,
          reduceCtorEq, List.mem_singleton, or_false, List.not_mem_nil] at hv
        obtain ⟨e, he, rfl, -⟩ := hv
        exact .inr ⟨e, he, rfl⟩
      · exact .inl (hreset a v hv)
    · rw [runVol_append, runVol_resetLog_of_not_isField _ hb,
        runVol_restoreSteps m₀ E m (fun e he => (h.entry e he).2) b, if_pos rfl]
      split_ifs with hcov
      · rfl
      · push_neg at hcov
        refine (h.frame b hb).trans (h.unwritten b fun w hw => ?_)
        obtain ⟨e, he, rfl⟩ := h.written w hw
        by_contra hin
        exact absurd (hcov e he (by omega)) (by omega)
  · refine ⟨_, rfl, fun a v hv => .inl (hreset a v hv), loadUInt_runVol_resetLog [] m,
      fun b hb => ?_⟩
    rw [runVol_resetLog_of_not_isField _ hb]
    exact h.frame b hb

end Close

end GoPmem
