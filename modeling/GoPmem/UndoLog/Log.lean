import Mathlib.Data.List.Range
import GoPmem.Memory
import GoPmem.Arena

/-!
# GoPmem.UndoLog.Log — the arena undo log

Every arena header holds an undo log: a count `numLogEntries` and `maxLogEntries = 2` entries
`logs[i] = {off, val}`. `pa.logEntry(addr)` records the `int` at `addr` before the caller
overwrites it; `commitLog`, `revertLog` and `resetLog` close the transaction.

The header lies in the arena, so the count and the entries are arena bytes like any other: the
model is one byte memory, and a `LogLayout` says where in the header the two fields lie. A word
the caller logs or writes may overlap them; `revertLog` reads the count and the entry again after
every word it restores, so it then reads what it has just stored.

The bytes live in volatile memory over a durable image. A state `PState` holds both and the byte
stores that may not have reached the media yet. Each function is modelled by the primitive steps
it performs — 8-byte stores and `PersistRange` of a byte range — computed from the bytes it reads
when it reads them.

* `LogLayout`: the offsets of `numLogEntries` and `logs` from the arena header; `Apart o`: the
  word at offset `o` overlaps neither.
* `Prim.run`: a store updates the volatile bytes and leaves one pending store per byte; a persist
  makes the volatile bytes of its range durable and drops their pending stores.
* `logEntry`, `resetLog`, `revertLoop`, `revertLog`, `commitLog`: the steps of the four functions.
* `TxOp`, `txTrace`: a transaction of calls and caller writes, and all the steps it performs;
  `TxBody`: the discipline the undo log is meant to be used under.
* `logEntry_ok`, `revertLog_ok`, `commitLog_ok`: what each function can return.
  `logEntry_eq`, `revertLog_eq`, `commitLog_eq`: the steps of each function when the log holds
  entries naming words apart from its fields.
-/

namespace GoPmem

/-! ## Layout -/

/-- `maxLogEntries`. -/
def maxLogEntries : Nat := 2

/-- `logEntrySize = unsafe.Sizeof(logEntry{})`: a `uintptr` offset and an `int` value. -/
def logEntrySize : Nat := 16

/-- The Go `int` whose 64 bits are `v`. -/
def intOfBits (v : Nat) : Int := if v < 2 ^ 63 then v else (v : Int) - 2 ^ 64

theorem intOfBits_of_lt {v : Nat} (h : v < 2 ^ 63) : intOfBits v = v := if_pos h

/-- The words at `a` and `a'` do not overlap. -/
def WordsApart (a a' : Nat) : Prop := a + intSize ≤ a' ∨ a' + intSize ≤ a

instance (a a' : Nat) : Decidable (WordsApart a a') := inferInstanceAs (Decidable (_ ∨ _))

theorem WordsApart.symm {a a' : Nat} (h : WordsApart a a') : WordsApart a' a := Or.symm h

theorem WordsApart.ne {a a' : Nat} (h : WordsApart a a') : a ≠ a' := by
  unfold WordsApart intSize at h; omega

/-- Modelled from the spec, which fixes the arena header's size and puts the undo log in it: the
offsets of `numLogEntries` and of `logs[0]` from the header's address. The `pArena` declaration
is outside the logging files; its two fields do not overlap. -/
structure LogLayout where
  count : Nat
  /-- `logs[i]` lies at `logs + logEntrySize * i`: its `off`, then its `val`. -/
  logs : Nat
  apart : count + intSize ≤ logs ∨ logs + maxLogEntries * logEntrySize ≤ count

namespace LogLayout

variable (la : LogLayout) (pa : PArena)

/-- `&pa.numLogEntries`. -/
def countAddr : Nat := pa.addr + la.count

/-- `&pa.logs[i]`, which is also `&pa.logs[i].off`. -/
def offAddr (i : Nat) : Nat := pa.addr + la.logs + logEntrySize * i

/-- `&pa.logs[i].val`. -/
def valAddr (i : Nat) : Nat := la.offAddr pa i + intSize

/-- The byte at `b` belongs to `numLogEntries` or to an entry. -/
def IsField (b : Nat) : Prop :=
  la.countAddr pa ≤ b ∧ b < la.countAddr pa + intSize ∨
    pa.addr + la.logs ≤ b ∧ b < pa.addr + la.logs + maxLogEntries * logEntrySize

/-- The word at offset `o` of the arena overlaps neither `numLogEntries` nor an entry. -/
def Apart (o : Nat) : Prop :=
  WordsApart o la.count ∧ (o + intSize ≤ la.logs ∨ la.logs + maxLogEntries * logEntrySize ≤ o)

/-- The word at offset `o` lies inside the arena, apart from the log's fields. -/
def Loggable (o : Nat) : Prop := o + intSize ≤ pa.size ∧ la.Apart o

instance (b : Nat) : Decidable (la.IsField pa b) := inferInstanceAs (Decidable (_ ∨ _))

instance (o : Nat) : Decidable (la.Apart o) := inferInstanceAs (Decidable (_ ∧ _))

instance (o : Nat) : Decidable (la.Loggable pa o) := inferInstanceAs (Decidable (_ ∧ _))

variable {la pa}

/-! ### Which words overlap -/

theorem count_apart_off {i : Nat} (hi : i < maxLogEntries) :
    WordsApart (la.countAddr pa) (la.offAddr pa i) := by
  have := la.apart
  simp only [WordsApart, countAddr, offAddr, logEntrySize, maxLogEntries, intSize] at *; omega

theorem count_apart_val {i : Nat} (hi : i < maxLogEntries) :
    WordsApart (la.countAddr pa) (la.valAddr pa i) := by
  have := la.apart
  simp only [WordsApart, countAddr, valAddr, offAddr, logEntrySize, maxLogEntries, intSize] at *
  omega

/-- The words of two different entries do not overlap, nor do an entry's two words. -/
theorem slot_apart {i j : Nat} (hij : i ≠ j) :
    WordsApart (la.offAddr pa i) (la.offAddr pa j) ∧ WordsApart (la.offAddr pa i) (la.valAddr pa j) ∧
      WordsApart (la.valAddr pa i) (la.valAddr pa j) := by
  simp only [WordsApart, valAddr, offAddr, logEntrySize, intSize]; omega

theorem off_apart_val (i : Nat) : WordsApart (la.offAddr pa i) (la.valAddr pa i) :=
  .inl (le_refl _)

theorem Apart.count {o : Nat} (h : la.Apart o) : WordsApart (pa.addr + o) (la.countAddr pa) := by
  have := h.1; simp only [WordsApart, countAddr] at *; omega

theorem Apart.off {o i : Nat} (h : la.Apart o) (hi : i < maxLogEntries) :
    WordsApart (pa.addr + o) (la.offAddr pa i) := by
  have := h.2
  simp only [WordsApart, offAddr, logEntrySize, maxLogEntries, intSize] at *; omega

theorem Apart.val {o i : Nat} (h : la.Apart o) (hi : i < maxLogEntries) :
    WordsApart (pa.addr + o) (la.valAddr pa i) := by
  have := h.2
  simp only [WordsApart, valAddr, offAddr, logEntrySize, maxLogEntries, intSize] at *; omega

/-- A loggable word starts inside the arena. -/
theorem Loggable.lt_size {o : Nat} (h : la.Loggable pa o) : o < pa.size := by
  have := h.1; unfold intSize at this; omega

/-- No byte of a word apart from the log's fields is a field byte. -/
theorem Apart.not_isField {o b : Nat} (h : la.Apart o) (hb : pa.addr + o ≤ b ∧ b < pa.addr + o + intSize) :
    ¬ la.IsField pa b := by
  have := h.1; have := h.2
  simp only [IsField, WordsApart, countAddr, maxLogEntries, logEntrySize, intSize] at *; omega

theorem not_isField_of_count {b : Nat} (hb : ¬ la.IsField pa b) :
    b < la.countAddr pa ∨ la.countAddr pa + intSize ≤ b := by
  simp only [IsField] at hb; omega

theorem not_isField_of_slot {b i : Nat} (hb : ¬ la.IsField pa b) (hi : i < maxLogEntries) :
    (b < la.offAddr pa i ∨ la.offAddr pa i + logEntrySize ≤ b) := by
  simp only [IsField, offAddr, maxLogEntries, logEntrySize] at *; omega

end LogLayout

/-! ## Steps -/

/-- A primitive step: an 8-byte store of `v` at `a`, or `PersistRange(a, n)`. -/
inductive Prim
  | store (a v : Nat)
  | persist (a n : Nat)
  deriving DecidableEq, Repr

/-- The address a step stores to or flushes from. -/
def Prim.addr : Prim → Nat
  | .store a _ => a
  | .persist a _ => a

/-- The arena's bytes as the program reads them, as the media holds them, and the byte stores
that may not have reached the media yet, oldest first. -/
structure PState where
  vol : Mem
  dur : Mem
  pend : List (Nat × UInt8)

/-- What a step does to the bytes the program reads. -/
def Prim.vol : Prim → Mem → Mem
  | .store a v, m => storeUInt m a intSize v
  | .persist _ _, m => m

/-- One primitive step. A store leaves a pending store for each of its bytes; a persist makes the
bytes of its range durable as the program reads them and drops their pending stores. -/
def Prim.run : Prim → PState → PState
  | .store a v, s =>
    ⟨storeUInt s.vol a intSize v, s.dur,
      s.pend ++ (List.range intSize).map fun i => (a + i, storeUInt s.vol a intSize v (a + i))⟩
  | .persist a n, s =>
    ⟨s.vol, fun b => if a ≤ b ∧ b < a + n then s.vol b else s.dur b,
      s.pend.filter fun e => !decide (a ≤ e.1 ∧ e.1 < a + n)⟩

section Run

variable {a v n : Nat} {s : PState}

@[simp] theorem Prim.run_vol (p : Prim) (s : PState) : (p.run s).vol = p.vol s.vol := by
  cases p <;> rfl

@[simp] theorem Prim.vol_store (m : Mem) : (Prim.store a v).vol m = storeUInt m a intSize v := rfl

@[simp] theorem Prim.vol_persist (m : Mem) : (Prim.persist a n).vol m = m := rfl

@[simp] theorem Prim.run_store_dur : ((Prim.store a v).run s).dur = s.dur := rfl

theorem Prim.mem_run_store_pend {e : Nat × UInt8} :
    e ∈ ((Prim.store a v).run s).pend ↔
      e ∈ s.pend ∨ ∃ i < intSize, e = (a + i, storeUInt s.vol a intSize v (a + i)) := by
  simp only [Prim.run, List.mem_append, List.mem_map, List.mem_range, eq_comm]

@[simp] theorem Prim.run_persist_dur :
    ((Prim.persist a n).run s).dur = fun b => if a ≤ b ∧ b < a + n then s.vol b else s.dur b := rfl

theorem Prim.mem_run_persist_pend {e : Nat × UInt8} :
    e ∈ ((Prim.persist a n).run s).pend ↔ e ∈ s.pend ∧ ¬ (a ≤ e.1 ∧ e.1 < a + n) := by
  rw [Prim.run, List.mem_filter, Bool.not_eq_true', decide_eq_false_iff_not]

end Run

/-- Primitive steps in order. -/
def runPrims : List Prim → PState → PState
  | [], s => s
  | p :: ps, s => runPrims ps (p.run s)

/-- What steps in order do to the bytes the program reads. -/
def runVol : List Prim → Mem → Mem
  | [], m => m
  | p :: ps, m => runVol ps (p.vol m)

@[simp] theorem runPrims_nil (s : PState) : runPrims [] s = s := rfl

@[simp] theorem runPrims_cons (p : Prim) (ps : List Prim) (s : PState) :
    runPrims (p :: ps) s = runPrims ps (p.run s) := rfl

@[simp] theorem runVol_nil (m : Mem) : runVol [] m = m := rfl

@[simp] theorem runVol_cons (p : Prim) (ps : List Prim) (m : Mem) :
    runVol (p :: ps) m = runVol ps (p.vol m) := rfl

theorem runPrims_append (ps qs : List Prim) (s : PState) :
    runPrims (ps ++ qs) s = runPrims qs (runPrims ps s) := by
  induction ps generalizing s with
  | nil => rfl
  | cons p ps ih => exact ih _

theorem runVol_append (ps qs : List Prim) (m : Mem) :
    runVol (ps ++ qs) m = runVol qs (runVol ps m) := by
  induction ps generalizing m with
  | nil => rfl
  | cons p ps ih => exact ih _

@[simp] theorem runPrims_vol (ps : List Prim) (s : PState) :
    (runPrims ps s).vol = runVol ps s.vol := by
  induction ps generalizing s with
  | nil => rfl
  | cons p ps ih => simp [ih]

/-- An `int` store reads back modulo `2^64`. -/
@[simp] theorem loadUInt_storeUInt_int (m : Mem) (a v : Nat) :
    loadUInt (storeUInt m a intSize v) a intSize = v % 2 ^ 64 :=
  loadUInt_storeUInt m a intSize v

theorem loadUInt_int_lt (m : Mem) (a : Nat) : loadUInt m a intSize < 2 ^ 64 := loadUInt_lt m a 8

/-- An `int` store leaves every word apart from it alone. -/
theorem loadUInt_storeUInt_apart {m : Mem} {a a' v : Nat} (h : WordsApart a a') :
    loadUInt (storeUInt m a intSize v) a' intSize = loadUInt m a' intSize :=
  loadUInt_congr fun i hi => storeUInt_of_not_mem (by unfold WordsApart intSize at *; omega)

/-! ## The four functions -/

section Functions

variable (pa : PArena) (la : LogLayout)

/-- The steps `pa.logEntry` performs once its checks pass, for entry `ind`: store the offset and
the value, persist the entry, then count it and persist the count. -/
def entrySteps (ind off val : Nat) : List Prim :=
  [.store (la.offAddr pa ind) off, .store (la.valAddr pa ind) val,
    .persist (la.offAddr pa ind) logEntrySize,
    .store (la.countAddr pa) (ind + 1), .persist (la.countAddr pa) intSize]

/-- `pa.logEntry(addr)`. The offset is taken in `uintptr` arithmetic; Go's bounds check on
`pa.logs[ind]` panics on a count that is neither 0 nor 1 once the first check has passed. -/
def logEntry (vol : Mem) (addr : Nat) : Except String (List Prim) :=
  let off := usub addr pa.addr
  if pa.size ≤ off then throw "Invalid arena logging request"
  else
    let ind := loadUInt vol (la.countAddr pa) intSize
    if ind = maxLogEntries then throw "No more space in the arena to log values"
    else if maxLogEntries < ind then throw "index out of range"
    else pure (entrySteps pa la ind off (loadUInt vol addr intSize))

/-- `pa.resetLog()`, also the end of `revertLog` and `commitLog`: clear the count, persist it. -/
def resetLog : List Prim := [.store (la.countAddr pa) 0, .persist (la.countAddr pa) intSize]

/-- The loop of `pa.revertLog()` from entry `i`. On every turn it compares `i` with the count and
reads entry `i`, after the stores of the turns before; it stores the entry's value at
`pa + off` and persists that word. Go's bounds check on `pa.logs[i]` panics at
`i = maxLogEntries`, so the loop has ended or panicked within `maxLogEntries + 1` turns, the fuel
`revertLog` gives it (`revertLoop_fuel`). -/
def revertLoop : Nat → Nat → Mem → Except String (List Prim)
  | 0, _, _ => pure []
  | fuel + 1, i, vol =>
    if (i : Int) < intOfBits (loadUInt vol (la.countAddr pa) intSize) then
      if maxLogEntries ≤ i then throw "index out of range"
      else
        let addr := uadd (loadUInt vol (la.offAddr pa i) intSize) pa.addr
        let val := loadUInt vol (la.valAddr pa i) intSize
        (revertLoop fuel (i + 1) (storeUInt vol addr intSize val)).map
          ([.store addr val, .persist addr intSize] ++ ·)
    else pure []

/-- `pa.revertLog()`: nothing when the count is 0; else the loop, then `resetLog`'s steps. -/
def revertLog (vol : Mem) : Except String (List Prim) :=
  if loadUInt vol (la.countAddr pa) intSize = 0 then pure []
  else (revertLoop pa la (maxLogEntries + 1) 0 vol).map (· ++ resetLog pa la)

/-- `pa.commitLog()`: persist the word of every entry below the count, then `resetLog`'s steps.
Its loop stores nothing, so the count and the offsets it reads are those at the call. -/
def commitLog (vol : Mem) : Except String (List Prim) :=
  let n := intOfBits (loadUInt vol (la.countAddr pa) intSize)
  if (maxLogEntries : Int) < n then throw "index out of range"
  else pure ((List.range n.toNat).map (fun i =>
    .persist (uadd (loadUInt vol (la.offAddr pa i) intSize) pa.addr) intSize) ++ resetLog pa la)

end Functions

/-- More fuel changes nothing: by the turn at `i = maxLogEntries` the loop has returned or
panicked. -/
theorem revertLoop_fuel (pa : PArena) (la : LogLayout) :
    ∀ (fuel i : Nat) (vol : Mem), i ≤ maxLogEntries → maxLogEntries < fuel + i →
      revertLoop pa la (fuel + 1) i vol = revertLoop pa la fuel i vol
  | 0, i, _, hi, h => absurd h (by omega)
  | fuel + 1, i, vol, hi, h => by
    conv_lhs => rw [revertLoop]
    conv_rhs => rw [revertLoop]
    split_ifs with h1 h2
    · rfl
    · simp only [revertLoop_fuel pa la fuel (i + 1) _ (by omega) (by omega)]
    · rfl

/-! ## Transactions -/

/-- A call on an arena's undo log, or the caller's `int` store of `v` at `addr`. -/
inductive TxOp
  | logEntry (addr : Nat)
  | write (addr v : Nat)
  | commit
  | revert
  | reset
  deriving DecidableEq, Repr

section Tx

variable (pa : PArena) (la : LogLayout)

/-- The steps of one call, from the bytes it starts from. -/
def TxOp.prims (vol : Mem) : TxOp → Except String (List Prim)
  | .logEntry a => GoPmem.logEntry pa la vol a
  | .write a v => pure [.store a v]
  | .commit => commitLog pa la vol
  | .revert => revertLog pa la vol
  | .reset => pure (resetLog pa la)

/-- All the steps of a sequence of calls, up to the first that throws. -/
def txTrace : PState → List TxOp → Except String (List Prim)
  | _, [] => pure []
  | s, op :: ops => do
    let ps ← op.prims pa la s.vol
    let rest ← txTrace (runPrims ps s) ops
    pure (ps ++ rest)

/-- The offsets from the header of the words a sequence of calls passes to `logEntry`. -/
def loggedOffsets : List TxOp → List Nat
  | [] => []
  | .logEntry a :: ops => (a - pa.addr) :: loggedOffsets ops
  | _ :: ops => loggedOffsets ops

/-- The caller's writes in `ops`, made on `m`: the bytes as the caller means them to be. -/
def callerWrites (m : Mem) : List TxOp → Mem
  | [] => m
  | .write a v :: ops => callerWrites (storeUInt m a intSize v) ops
  | _ :: ops => callerWrites m ops

/-- The body of a transaction as the undo log is meant to be used, after the offsets `L` logged
and `Wr` written: each `logEntry` names a word of the arena apart from the log's fields, while
fewer than `maxLogEntries` are counted, overlapping no word written before; each write is to a
word logged before. A word may be logged again before it is first written. -/
def TxBody : List Nat → List Nat → List TxOp → Prop
  | _, _, [] => True
  | L, Wr, .logEntry a :: ops => pa.addr ≤ a ∧ la.Loggable pa (a - pa.addr) ∧
      L.length < maxLogEntries ∧ (∀ o ∈ Wr, WordsApart (a - pa.addr) o) ∧
      TxBody (L ++ [a - pa.addr]) Wr ops
  | L, Wr, .write a _ :: ops => (∃ o ∈ L, a = pa.addr + o) ∧ TxBody L (Wr ++ [a - pa.addr]) ops
  | _, _, _ :: _ => False

instance decTxBody : ∀ (L Wr : List Nat) (ops : List TxOp), Decidable (TxBody pa la L Wr ops)
  | _, _, [] => isTrue trivial
  | L, Wr, .logEntry a :: ops =>
    have := decTxBody (L ++ [a - pa.addr]) Wr ops
    inferInstanceAs (Decidable (_ ∧ _ ∧ _ ∧ _ ∧ _))
  | L, Wr, .write a _ :: ops =>
    have := decTxBody L (Wr ++ [a - pa.addr]) ops
    inferInstanceAs (Decidable (_ ∧ _))
  | _, _, .commit :: _ | _, _, .revert :: _ | _, _, .reset :: _ => isFalse id

end Tx

section Traces

variable {pa : PArena} {la : LogLayout}

theorem txTrace_vol_congr (ops : List TxOp) {s t : PState} (h : s.vol = t.vol) :
    txTrace pa la s ops = txTrace pa la t ops := by
  induction ops generalizing s t with
  | nil => rfl
  | cons op ops ih =>
    simp only [txTrace, h]
    congr 1; funext ps
    rw [@ih (runPrims ps s) (runPrims ps t) (by simp [h])]

theorem txTrace_cons_ok {op : TxOp} {ops : List TxOp} {s : PState} {ps qs : List Prim}
    (h : op.prims pa la s.vol = .ok ps) (hr : txTrace pa la (runPrims ps s) ops = .ok qs) :
    txTrace pa la s (op :: ops) = .ok (ps ++ qs) := by
  simp only [txTrace, h, bind, Except.bind, hr]; rfl

theorem txTrace_cons_inv {op : TxOp} {ops : List TxOp} {s : PState} {ps : List Prim}
    (h : txTrace pa la s (op :: ops) = .ok ps) :
    ∃ ps₁ ps₂, op.prims pa la s.vol = .ok ps₁ ∧ txTrace pa la (runPrims ps₁ s) ops = .ok ps₂ ∧
      ps = ps₁ ++ ps₂ := by
  simp only [txTrace, bind, Except.bind] at h
  split at h
  · cases h
  · rename_i ps₁ h₁
    split at h
    · cases h
    · rename_i ps₂ h₂
      cases h
      exact ⟨ps₁, ps₂, h₁, h₂, rfl⟩

theorem txTrace_append_ok {ops ops' : List TxOp} {s : PState} {ps qs : List Prim}
    (h : txTrace pa la s ops = .ok ps) (hr : txTrace pa la (runPrims ps s) ops' = .ok qs) :
    txTrace pa la s (ops ++ ops') = .ok (ps ++ qs) := by
  induction ops generalizing s ps with
  | nil => cases h; exact hr
  | cons op ops ih =>
    obtain ⟨ps₁, ps₂, h₁, h₂, rfl⟩ := txTrace_cons_inv h
    rw [List.append_assoc]
    exact txTrace_cons_ok h₁ (ih h₂ (by rwa [runPrims_append] at hr))

end Traces

/-! ## The steps when the log names words apart from its fields -/

/-- The log in `m` counts the entries `E`, and entry `j` holds the offset and the value `E[j]`. -/
structure Holds (pa : PArena) (la : LogLayout) (m : Mem) (E : List (Nat × Nat)) : Prop where
  count : loadUInt m (la.countAddr pa) intSize = E.length
  off : ∀ j (h : j < E.length), loadUInt m (la.offAddr pa j) intSize = E[j].1
  val : ∀ j (h : j < E.length), loadUInt m (la.valAddr pa j) intSize = E[j].2

/-- The entries the log in `m` counts, as it reads them. -/
def logEntries (pa : PArena) (la : LogLayout) (m : Mem) : List (Nat × Nat) :=
  (List.range (loadUInt m (la.countAddr pa) intSize)).map fun i =>
    (loadUInt m (la.offAddr pa i) intSize, loadUInt m (la.valAddr pa i) intSize)

/-- The steps of `revertLog`'s loop over the entries `E`: store each value at its word, persist
that word. -/
def restoreSteps (pa : PArena) (E : List (Nat × Nat)) : List Prim :=
  E.flatMap fun e => [.store (pa.addr + e.1) e.2, .persist (pa.addr + e.1) intSize]

section Spec

variable {pa : PArena} {la : LogLayout} {m : Mem} {E : List (Nat × Nat)}

theorem holds_logEntries (pa : PArena) (la : LogLayout) (m : Mem) :
    Holds pa la m (logEntries pa la m) :=
  ⟨by simp [logEntries], fun j hj => by simp [logEntries], fun j hj => by simp [logEntries]⟩

@[simp] theorem length_logEntries (pa : PArena) (la : LogLayout) (m : Mem) :
    (logEntries pa la m).length = loadUInt m (la.countAddr pa) intSize := by
  simp [logEntries]

/-- What the log holds is what it counts. -/
theorem Holds.logEntries_eq (h : Holds pa la m E) : logEntries pa la m = E :=
  List.ext_getElem (by rw [length_logEntries, h.count]) fun j hj hj' => by
    simp only [logEntries, List.getElem_map, List.getElem_range, h.off j hj', h.val j hj']

/-- `logEntry`'s steps for entry `E.length` add the entry `(o, v)` to what the log holds. -/
theorem Holds.entrySteps {o v : Nat} (h : Holds pa la m E) (hlen : E.length < maxLogEntries)
    (ho : o < 2 ^ 64) (hv : v < 2 ^ 64) :
    Holds pa la (runVol (entrySteps pa la E.length o v) m) (E ++ [(o, v)]) := by
  have hcv := @LogLayout.count_apart_val la pa _ hlen
  have hco := @LogLayout.count_apart_off la pa _ hlen
  simp only [GoPmem.entrySteps, runVol_cons, runVol_nil, Prim.vol_store, Prim.vol_persist]
  refine ⟨?_, fun j hj => ?_, fun j hj => ?_⟩
  · rw [loadUInt_storeUInt_int, List.length_append, List.length_singleton,
      Nat.mod_eq_of_lt (by unfold maxLogEntries at hlen; omega)]
  · rcases Nat.lt_or_ge j E.length with hj' | hj'
    · -- an earlier entry: the three stores miss its offset
      have hs := @LogLayout.slot_apart la pa _ _ (show E.length ≠ j by omega)
      have hs' := @LogLayout.slot_apart la pa _ _ (show j ≠ E.length by omega)
      rw [loadUInt_storeUInt_apart (LogLayout.count_apart_off (by omega)),
        loadUInt_storeUInt_apart hs'.2.1.symm, loadUInt_storeUInt_apart hs.1,
        List.getElem_append_left hj', h.off j hj']
    · obtain rfl : j = E.length := by simp at hj; omega
      rw [loadUInt_storeUInt_apart hco, loadUInt_storeUInt_apart (LogLayout.off_apart_val _).symm,
        loadUInt_storeUInt_int, Nat.mod_eq_of_lt ho]
      simp
  · rcases Nat.lt_or_ge j E.length with hj' | hj'
    · -- an earlier entry: the three stores miss its value
      have hs := @LogLayout.slot_apart la pa _ _ (show E.length ≠ j by omega)
      rw [loadUInt_storeUInt_apart (LogLayout.count_apart_val (by omega)),
        loadUInt_storeUInt_apart hs.2.2, loadUInt_storeUInt_apart hs.2.1,
        List.getElem_append_left hj', h.val j hj']
    · obtain rfl : j = E.length := by simp at hj; omega
      rw [loadUInt_storeUInt_apart hcv, loadUInt_storeUInt_int, Nat.mod_eq_of_lt hv]
      simp

/-- `logEntry`'s steps store only the log's fields. -/
theorem runVol_entrySteps_of_not_isField {k o v b : Nat} (m : Mem) (hk : k < maxLogEntries)
    (hb : ¬ la.IsField pa b) : runVol (entrySteps pa la k o v) m b = m b := by
  have h1 := LogLayout.not_isField_of_count hb
  have h2 := LogLayout.not_isField_of_slot hb hk
  simp only [GoPmem.entrySteps, runVol_cons, runVol_nil, Prim.vol_store, Prim.vol_persist]
  rw [storeUInt_of_not_mem h1, storeUInt_of_not_mem (by
      simp only [LogLayout.valAddr, logEntrySize, intSize] at *; omega),
    storeUInt_of_not_mem (by simp only [logEntrySize, intSize] at *; omega)]

/-- What `logEntry` can return: the steps of a new entry, for an offset below `pa.size` while
fewer than `maxLogEntries` entries are counted. -/
theorem logEntry_ok {a : Nat} {ps : List Prim} (h : logEntry pa la m a = .ok ps) :
    usub a pa.addr < pa.size ∧ loadUInt m (la.countAddr pa) intSize < maxLogEntries ∧
      ps = entrySteps pa la (loadUInt m (la.countAddr pa) intSize) (usub a pa.addr)
        (loadUInt m a intSize) := by
  simp only [logEntry] at h
  split_ifs at h with hoff hfull hrange
  simp only [pure, Except.pure, Except.ok.injEq] at h
  exact ⟨by omega, by unfold maxLogEntries at *; omega, h.symm⟩

/-- What `commitLog` can return: steps that end with `resetLog`'s. -/
theorem commitLog_ok {ps : List Prim} (h : commitLog pa la m = .ok ps) :
    ∃ xs, ps = xs ++ resetLog pa la := by
  rw [commitLog] at h
  split_ifs at h
  simp only [pure, Except.pure, Except.ok.injEq] at h
  exact ⟨_, h.symm⟩

/-- What `revertLog` can return: nothing when the count is 0, else steps that end with
`resetLog`'s. -/
theorem revertLog_ok {ps : List Prim} (h : revertLog pa la m = .ok ps) :
    (loadUInt m (la.countAddr pa) intSize = 0 ∧ ps = []) ∨ ∃ xs, ps = xs ++ resetLog pa la := by
  rw [revertLog] at h
  split_ifs at h with h0
  · simp only [pure, Except.pure, Except.ok.injEq] at h
    exact .inl ⟨h0, h.symm⟩
  · cases hl : revertLoop pa la (maxLogEntries + 1) 0 m with
    | error => rw [hl] at h; cases h
    | ok xs => rw [hl] at h; cases h; exact .inr ⟨xs, rfl⟩

/-- Steps that end with `resetLog`'s leave the count 0. -/
theorem loadUInt_runVol_resetLog (xs : List Prim) (m : Mem) :
    loadUInt (runVol (xs ++ resetLog pa la) m) (la.countAddr pa) intSize = 0 := by
  rw [runVol_append]
  simp [resetLog]

/-- `resetLog`'s steps store only the count. -/
theorem runVol_resetLog_of_not_isField {b : Nat} (m : Mem) (hb : ¬ la.IsField pa b) :
    runVol (resetLog pa la) m b = m b := by
  simp only [resetLog, runVol_cons, runVol_nil, Prim.vol_store, Prim.vol_persist]
  exact storeUInt_of_not_mem (LogLayout.not_isField_of_count hb)

/-- A store to a word apart from the log's fields keeps what the log holds. -/
theorem Holds.store_apart (h : Holds pa la m E) (hlen : E.length ≤ maxLogEntries) {o : Nat}
    (ho : la.Apart o) (v : Nat) : Holds pa la (storeUInt m (pa.addr + o) intSize v) E :=
  ⟨by rw [loadUInt_storeUInt_apart ho.count, h.count],
    fun j hj => by rw [loadUInt_storeUInt_apart (ho.off (by omega)), h.off j hj],
    fun j hj => by rw [loadUInt_storeUInt_apart (ho.val (by omega)), h.val j hj]⟩

@[simp] theorem restoreSteps_nil (pa : PArena) : restoreSteps pa [] = [] := rfl

@[simp] theorem restoreSteps_cons (pa : PArena) (e : Nat × Nat) (E : List (Nat × Nat)) :
    restoreSteps pa (e :: E) =
      .store (pa.addr + e.1) e.2 :: .persist (pa.addr + e.1) intSize :: restoreSteps pa E := rfl

section Fits

variable (hpa : pa.addr + pa.size ≤ 2 ^ 64)
include hpa

/-- `logEntry` on an address of the arena while fewer than `maxLogEntries` entries are counted. -/
theorem logEntry_eq {a k : Nat} (ha : pa.addr ≤ a) (hs : a - pa.addr < pa.size)
    (hc : loadUInt m (la.countAddr pa) intSize = k) (hk : k < maxLogEntries) :
    logEntry pa la m a = .ok (entrySteps pa la k (a - pa.addr) (loadUInt m a intSize)) := by
  have hu : usub a pa.addr = a - pa.addr := usub_of_le ha (by omega)
  unfold maxLogEntries at hk
  simp only [logEntry, hu, hc, if_neg (Nat.not_le.2 hs), maxLogEntries,
    if_neg (show k ≠ 2 by omega), if_neg (show ¬ 2 < k by omega)]
  rfl

/-- **The loop of `revertLog`.** While the log holds `E`, entries apart from its fields in the
arena, the loop from entry `i` restores the entries from `i` on, in order: its own stores leave
the count and the entries it reads next alone. -/
theorem revertLoop_eq (hE : ∀ e ∈ E, e.1 < pa.size ∧ la.Apart e.1)
    (hlen : E.length ≤ maxLogEntries) :
    ∀ (fuel i : Nat) (m : Mem), Holds pa la m E → i ≤ E.length → E.length < fuel + i →
      revertLoop pa la fuel i m = .ok (restoreSteps pa (E.drop i))
  | 0, i, m, _, hi, hf => absurd hf (by omega)
  | fuel + 1, i, m, h, hi, hf => by
    have hlen' : E.length < 2 ^ 63 := by unfold maxLogEntries at hlen; omega
    rw [revertLoop, h.count, intOfBits_of_lt hlen']
    by_cases hlt : i < E.length
    · have he := hE _ (List.getElem_mem hlt)
      have haddr : uadd E[i].1 pa.addr = pa.addr + E[i].1 := by
        rw [uadd_of_lt (by omega), Nat.add_comm]
      rw [if_pos (by exact_mod_cast hlt), if_neg (by omega), h.off i hlt, h.val i hlt, haddr]
      dsimp only
      rw [revertLoop_eq hE hlen fuel (i + 1) _ (h.store_apart hlen he.2 _) (by omega) (by omega),
        List.drop_eq_getElem_cons hlt]
      rfl
    · obtain rfl : i = E.length := by omega
      rw [if_neg (by omega), List.drop_length]
      rfl

/-- **`revertLog`.** While the log holds `E`, at least one entry, entries apart from its fields
in the arena, `revertLog` restores them in order and then clears the count. -/
theorem revertLog_eq (h : Holds pa la m E) (hE : ∀ e ∈ E, e.1 < pa.size ∧ la.Apart e.1)
    (hlen : E.length ≤ maxLogEntries) (hpos : 0 < E.length) :
    revertLog pa la m = .ok (restoreSteps pa E ++ resetLog pa la) := by
  rw [revertLog, h.count, if_neg (by omega),
    revertLoop_eq hpa hE hlen _ 0 m h (Nat.zero_le _) (by omega)]
  rfl

/-- **`commitLog`.** While the log holds `E`, entries in the arena, `commitLog` persists their
words in order and then clears the count. -/
theorem commitLog_eq (h : Holds pa la m E) (hE : ∀ e ∈ E, e.1 < pa.size)
    (hlen : E.length ≤ maxLogEntries) :
    commitLog pa la m = .ok (E.map (fun e => .persist (pa.addr + e.1) intSize) ++ resetLog pa la) := by
  have hlen' : E.length < 2 ^ 63 := by unfold maxLogEntries at hlen; omega
  simp only [commitLog, h.count, intOfBits_of_lt hlen', Int.toNat_ofNat,
    if_neg (show ¬ ((maxLogEntries : Nat) : Int) < E.length by omega)]
  congr 2
  refine List.ext_getElem (by simp) fun i hi _ => ?_
  have hi' : i < E.length := by simpa using hi
  have he := hE _ (List.getElem_mem hi')
  simp only [List.getElem_map, List.getElem_range, h.off i hi']
  rw [uadd_of_lt (by omega), Nat.add_comm]

end Fits

end Spec

/-! ## A sample -/

/-- The undo log of the sample arena: the count at byte 40 of the header and the entries from byte
48, inside the header's 96 bytes. -/
def sampleLayout : LogLayout := ⟨40, 48, by decide⟩

/-- Every byte 0, and durable. -/
def zeroPState : PState := ⟨fun _ => 0, fun _ => 0, []⟩

end GoPmem
