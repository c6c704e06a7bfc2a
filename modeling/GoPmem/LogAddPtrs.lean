import Mathlib.Data.List.Range
import GoPmem.Basic

/-!
# GoPmem.LogAddPtrs — the pointer words of an object

`LogAddPtrs(objPtr, objSize, ptrArray)` appends to `ptrArray` the address of every word of the
object at `objPtr` that the heap bitmap marks as a pointer. It walks the bitmap with `goto`s: the
first word, the second (whose scan bit it does not read), then a `for` loop over the rest, stopping
at the first word whose scan bit is clear or when `objSize` reaches 0.

* `HeapBit`, `MSpan.noscan`: the two bits of a word's bitmap entry, and the span class's noscan bit.
* `logAddPtrs`, `logAddPtrsLoop`: the walk, with fuel for the turns of the `for` loop.
* `DeadEncoded`, `deadIndex`, `pointerWords`: Go's encoding of where an object's pointers end, the
  first word it marks, and the pointer words before that word. `scannedWords` adds the dead word.
* `logAddPtrsLoop_spec`: one induction over the loop's turns.
* `logAddPtrs_eq_scannedWords`: on any bitmap, with fuel for `n - 2` turns (the two unrolled words
  and the loop read at most `n` bitmap entries), the walk returns the pointer words up to and
  including the dead word; it appends a word before it reads the word's scan bit.
* `logAddPtrs_pointerWords`: in the dead encoding these are exactly the pointer words.
-/

namespace GoPmem

/-! ## The walk -/

/-- Declared outside the source: the heap bitmap entry of one word, read by `h.isPointer()` and
`h.morePointers()` (the scan bit). -/
structure HeapBit where
  isPointer : Bool
  morePointers : Bool
  deriving DecidableEq, Repr

/-- Declared outside the source: `spanClass.noscan()`, the low bit of the span class. -/
def MSpan.noscan (s : MSpan) : Bool := s.spanclass &&& 1 != 0

/-- The `for` loop of `LogAddPtrs` at word `i` of the object, at address `objPtr`, with `objSize`
bytes left; `hb i` is the entry `h` after `i` calls of `h.next()`. -/
def logAddPtrsLoop (hb : Nat → HeapBit) : Nat → Nat → Nat → Int → List Nat → Option (List Nat)
  | 0, _, _, _, _ => none
  | fuel + 1, i, objPtr, objSize, ptrArray =>
    let ptrArray := if (hb i).isPointer then ptrArray ++ [objPtr] else ptrArray
    if !(hb i).morePointers then some ptrArray
    else
      let objPtr := uadd objPtr 8
      let objSize := objSize - 8
      if objSize = 0 then some ptrArray
      else logAddPtrsLoop hb fuel (i + 1) objPtr objSize ptrArray

/-- `LogAddPtrs(objPtr, objSize, ptrArray)` on an object of the span `s` (`spanOfUnchecked`)
whose words have the bitmap entries `hb` (`heapBitsForAddr` and `h.next()`). -/
def logAddPtrs (fuel : Nat) (s : MSpan) (hb : Nat → HeapBit) (objPtr : Nat) (objSize : Int)
    (ptrArray : List Nat) : Option (List Nat) :=
  if s.noscan then some ptrArray
  else
    -- the first 8 bytes
    let ptrArray := if (hb 0).isPointer then ptrArray ++ [objPtr] else ptrArray
    if !(hb 0).morePointers then some ptrArray
    else
      let objSize := objSize - 8
      if objSize = 0 then some ptrArray
      else
        let objPtr := uadd objPtr 8
        -- the second 8 bytes: the scan bit is not read
        let ptrArray := if (hb 1).isPointer then ptrArray ++ [objPtr] else ptrArray
        let objSize := objSize - 8
        if objSize = 0 then some ptrArray
        else logAddPtrsLoop hb fuel 2 (uadd objPtr 8) objSize ptrArray

/-! ## Where an object's pointers end -/

/-- Go's dead encoding of an object of `n` words: a word other than the second whose scan bit is
clear has its pointer bit clear too. -/
def DeadEncoded (hb : Nat → HeapBit) (n : Nat) : Prop :=
  ∀ i < n, i ≠ 1 → (hb i).morePointers = false → (hb i).isPointer = false

/-- The least `i < n`, `i ≠ 1`, whose scan bit is clear, or `n` if there is none. -/
def deadIndex (hb : Nat → HeapBit) (n : Nat) : Nat :=
  ((List.range n).find? fun i => i != 1 && !(hb i).morePointers).getD n

/-- The addresses `objPtr + 8*i` (in `uintptr` arithmetic) of the words `i < deadIndex hb n` whose
pointer bit is set, in increasing order. -/
def pointerWords (hb : Nat → HeapBit) (objPtr n : Nat) : List Nat :=
  ((List.range (deadIndex hb n)).filter fun i => (hb i).isPointer).map fun i => uadd objPtr (8 * i)

/-- `deadIndex` is at most `n`, every word before it but the second has its scan bit set, and
below `n` it is a word other than the second with its scan bit clear. -/
theorem deadIndex_spec (hb : Nat → HeapBit) (n : Nat) :
    deadIndex hb n ≤ n ∧ (∀ j < deadIndex hb n, j ≠ 1 → (hb j).morePointers = true) ∧
      (deadIndex hb n < n → deadIndex hb n ≠ 1 ∧ (hb (deadIndex hb n)).morePointers = false) := by
  unfold deadIndex
  cases h : (List.range n).find? fun i => i != 1 && !(hb i).morePointers with
  | none =>
    rw [List.find?_range_eq_none] at h
    refine ⟨le_rfl, fun j hj h1 => ?_, fun h => absurd h (lt_irrefl n)⟩
    simpa [h1] using h j hj
  | some d =>
    simp only [List.find?_range_eq_some, List.mem_range, Bool.and_eq_true, bne_iff_ne,
      Bool.not_eq_true', Bool.not_and, Bool.not_not, Bool.or_eq_true, beq_iff_eq] at h
    obtain ⟨⟨h1, hs⟩, hd, hmin⟩ := h
    refine ⟨hd.le, fun j hj hj1 => ?_, fun _ => ⟨h1, hs⟩⟩
    simpa [hj1] using hmin j hj

/-- The words the walk reads a pointer bit of: every word before the dead word, and the dead word
itself if it is a word of the object. -/
def scannedWords (hb : Nat → HeapBit) (objPtr n : Nat) : List Nat :=
  ((List.range (min (deadIndex hb n + 1) n)).filter fun i => (hb i).isPointer).map
    fun i => uadd objPtr (8 * i)

/-- In the dead encoding the dead word has no pointer bit, so the words the walk reads a pointer
bit of give the pointer words. -/
theorem scannedWords_eq_pointerWords {hb : Nat → HeapBit} {n : Nat} (hd : DeadEncoded hb n)
    (objPtr : Nat) : scannedWords hb objPtr n = pointerWords hb objPtr n := by
  obtain ⟨hdn, -, hdead⟩ := deadIndex_spec hb n
  unfold scannedWords pointerWords
  rcases Nat.lt_or_eq_of_le hdn with hlt | heq
  · rw [Nat.min_eq_left hlt, List.range_succ, List.filter_append, List.filter_singleton,
      hd _ hlt (hdead hlt).1 (hdead hlt).2, cond_false, List.append_nil]
  · rw [heq, Nat.min_eq_right (Nat.le_succ n)]

/-! ## The loop -/

section Loop

variable {hb : Nat → HeapBit} {p n d : Nat}

/-- **The loop.** Started at a word `2 ≤ i ≤ d` of an object of `n` words whose first dead word
is `d`, with the bytes of words `i..n-1` left, the loop appends the pointer words `i ≤ j ≤ d`
of the object and stops within `n - i` turns. -/
theorem logAddPtrsLoop_spec (hdn : d ≤ n) (hscan : ∀ j, 2 ≤ j → j < d → (hb j).morePointers = true)
    (hdead : d < n → (hb d).morePointers = false) (fuel : Nat) :
    ∀ i acc, 2 ≤ i → i ≤ d → i < n → n - i ≤ fuel →
      logAddPtrsLoop hb fuel i (uadd p (8 * i)) (8 * ((n : Int) - i)) acc =
        some (acc ++ ((List.range' i (min (d + 1) n - i)).filter fun j => (hb j).isPointer).map
          fun j => uadd p (8 * j)) := by
  induction fuel with
  | zero => intro i acc _ _ hi hf; omega
  | succ fuel ih =>
    intro i acc h2 hid hi hf
    rw [show min (d + 1) n - i = min (d + 1) n - (i + 1) + 1 by omega, List.range'_succ]
    rcases Nat.lt_or_eq_of_le hid with hid | rfl
    · -- word `i` comes before the dead word: its scan bit is set
      simp only [logAddPtrsLoop, hscan i h2 hid, Bool.not_true]
      by_cases hlast : i + 1 = n
      · rw [if_pos (by omega : 8 * ((n : Int) - i) - 8 = 0),
          show min (d + 1) n - (i + 1) = 0 by omega]
        cases hpi : (hb i).isPointer <;> simp [hpi]
      · have hsize : 8 * ((n : Int) - i) - 8 = 8 * ((n : Int) - ↑(i + 1)) := by omega
        rw [if_neg (by omega : 8 * ((n : Int) - i) - 8 ≠ 0), uadd_uadd, hsize,
          show 8 * i + 8 = 8 * (i + 1) by omega, ih (i + 1) _ (by omega) hid (by omega) (by omega)]
        cases hpi : (hb i).isPointer <;> simp [hpi]
    · -- word `i` is the dead word: the walk reads its pointer bit, then stops
      rw [show min (i + 1) n - (i + 1) = 0 by omega]
      cases hpi : (hb i).isPointer <;> simp [logAddPtrsLoop, hdead hi, hpi]

end Loop

/-! ## The walk returns the pointer words -/

theorem range_eq_zero_one_range' (k : Nat) : List.range (k + 2) = 0 :: 1 :: List.range' 2 k := by
  rw [List.range_eq_range']; rfl

/-- What `LogAddPtrs` returns on any bitmap: `acc` for a noscan span, and otherwise `acc` followed
by the pointer words up to and including the dead word, with fuel for `n - 2` turns of the loop. -/
theorem logAddPtrs_eq_scannedWords (s : MSpan) (hb : Nat → HeapBit) (objPtr n fuel : Nat)
    (acc : List Nat) (hn : 1 ≤ n) (hp : objPtr < 2 ^ 64) (hf : n - 2 ≤ fuel) :
    logAddPtrs fuel s hb objPtr (8 * n) acc =
      some (if s.noscan then acc else acc ++ scannedWords hb objPtr n) := by
  unfold logAddPtrs scannedWords
  cases hs : s.noscan
  case true => rfl
  obtain ⟨hdn, hscan, hdead⟩ := deadIndex_spec hb n
  generalize deadIndex hb n = d at hdn hscan hdead
  have hp0 : uadd objPtr 0 = objPtr := Nat.mod_eq_of_lt hp
  simp only [Bool.false_eq_true, if_false]
  cases h0 : (hb 0).morePointers
  case false =>
    -- the first word is dead
    obtain rfl : d = 0 := Nat.eq_zero_of_not_pos fun h => by simpa [h0] using hscan 0 h
    rw [show min (0 + 1) n = 1 by omega]
    cases hp0' : (hb 0).isPointer <;> simp [hp0', hp0, List.range_succ]
  -- the first word is live, so the dead word is past the second
  have hd1 : 1 ≤ d := Nat.pos_of_ne_zero fun e => by subst e; simp [h0] at hdead; omega
  simp only [Bool.not_true, Bool.false_eq_true, if_false]
  rcases Nat.lt_or_ge n 2 with hn1 | hn2
  · -- one word
    obtain rfl : n = 1 := by omega
    rw [if_pos (by omega : (8 * ((1 : Nat) : Int) - 8) = 0), show min (d + 1) 1 = 1 by omega]
    cases hp0' : (hb 0).isPointer <;> simp [hp0', hp0, List.range_succ]
  have hd2 : 2 ≤ d := by
    by_contra h
    exact (hdead (by omega)).1 (by omega)
  rw [if_neg (by omega : (8 * (n : Int) - 8) ≠ 0),
    show min (d + 1) n = (min (d + 1) n - 2) + 2 by omega, range_eq_zero_one_range']
  rcases Nat.lt_or_ge n 3 with hn2' | hn3
  · -- two words
    obtain rfl : n = 2 := by omega
    rw [if_pos (by omega : (8 * ((2 : Nat) : Int) - 8 - 8) = 0), show min (d + 1) 2 - 2 = 0 by omega]
    cases hp0' : (hb 0).isPointer <;> cases hp1 : (hb 1).isPointer <;> simp [hp0', hp1, hp0]
  -- three words or more: the loop from the third
  rw [if_neg (by omega : (8 * (n : Int) - 8 - 8) ≠ 0), uadd_uadd,
    show (8 * (n : Int) - 8 - 8) = 8 * ((n : Int) - ((2 : Nat) : Int)) by omega,
    logAddPtrsLoop_spec hdn (fun j h2 hj => hscan j hj (by omega)) (fun h => (hdead h).2) fuel 2 _
      le_rfl (by omega) (by omega) hf]
  cases hp0' : (hb 0).isPointer <;> cases hp1 : (hb 1).isPointer <;> simp [hp0', hp1, hp0]

/-- **`LogAddPtrs` returns exactly the object's pointer words.** On an object of `n ≥ 1` words at
the `uintptr` `objPtr`, whose bitmap is in the dead encoding, and with fuel for `n - 2` turns of
the loop (the two unrolled words and the loop then read at most `n` bitmap entries), `LogAddPtrs`
returns `acc` for a noscan span and `acc` followed by `pointerWords` otherwise. -/
theorem logAddPtrs_pointerWords (s : MSpan) (hb : Nat → HeapBit) (objPtr n fuel : Nat)
    (acc : List Nat) (hn : 1 ≤ n) (hp : objPtr < 2 ^ 64) (hd : DeadEncoded hb n)
    (hf : n - 2 ≤ fuel) :
    logAddPtrs fuel s hb objPtr (8 * n) acc =
      some (if s.noscan then acc else acc ++ pointerWords hb objPtr n) := by
  rw [logAddPtrs_eq_scannedWords s hb objPtr n fuel acc hn hp hf, scannedWords_eq_pointerWords hd]

/-- A span of objects with pointers (an even span class). -/
def scanSpan : MSpan := ⟨0, 1, 10, 40, 0, 0, 1⟩

/-- A five-word object: two pointers, a scalar, then the dead word before a stale pointer bit;
the second word's scan bit is clear, which the walk does not read. -/
def fiveWordBits : Nat → HeapBit
  | 0 => ⟨true, true⟩
  | 1 => ⟨true, false⟩
  | 2 => ⟨false, true⟩
  | 3 => ⟨false, false⟩
  | _ => ⟨true, true⟩

theorem logAddPtrs_pointerWords_fiveWords :
    DeadEncoded fiveWordBits 5 ∧
      logAddPtrs 3 scanSpan fiveWordBits 4096 (8 * 5) [] = some [4096, 4104] :=
  have hd : DeadEncoded fiveWordBits 5 := by unfold DeadEncoded; decide
  ⟨hd, (logAddPtrs_pointerWords scanSpan fiveWordBits 4096 5 3 [] (by decide) (by decide) hd
    (by decide)).trans rfl⟩

end GoPmem
