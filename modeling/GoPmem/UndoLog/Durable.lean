import Mathlib.Data.List.Pairwise
import GoPmem.UndoLog.Log

/-!
# GoPmem.UndoLog.Durable — what a crash can leave of an undo-log transaction

A crash keeps the durable image with any of the pending byte stores applied, in any order: every
byte is the durable byte or that of one of its pending stores (`CrashImage`). A byte is `Settled`
when the durable byte and every pending store to it are what the program reads there, and
`Fixed s a v` says that the word at `a` holds `v` with all its bytes settled: every crash leaves
`v` there.

* `store_image_small`: right after a store of a value below 256 over a fixed word below 256, a
  crash leaves the old word or the new one, never a mix, since the two differ only in their first
  byte. This is what makes the store of the count a commit point.
* `CrashSafe G ps s`: every state of the run of `ps` from `s` leaves only crash images that satisfy
  `G`; it composes over `++` and covers a crash after every prefix of the run (`CrashSafe.crashAt`).
* `LogWords`: the words a transaction logs lie in the arena, apart from the log's fields and from
  each other.
* `Names`: the log names the words `L` with their values from before the transaction, and every
  other logged word still holds that value. `Logged`: the same, durable, with the count durable at
  `L.length` — the state between two calls of a transaction.
* `Atomic`, `Recoverable`: the images recovery must end with, and those it can start from.
* One lemma per function, from `Logged`: `logEntry_run`, `resetLog_run`, `revertLog_run`,
  `commitLog_run`; and `body_run` for the calls of a transaction before it closes.
-/

namespace GoPmem

/-- A crash image of `s`: every byte is the durable byte or that of a pending store. -/
def CrashImage (s : PState) (I : Mem) : Prop := ∀ b, I b = s.dur b ∨ (b, I b) ∈ s.pend

/-- The state recovery starts from: the crash image, all of it durable. -/
def PState.ofImage (I : Mem) : PState := ⟨I, I, []⟩

/-- The byte at `b` is durable as the program reads it, and so is every pending store to it. -/
def Settled (s : PState) (b : Nat) : Prop :=
  s.dur b = s.vol b ∧ ∀ e ∈ s.pend, e.1 = b → e.2 = s.vol b

/-- The word at `a` holds `v`, and every crash leaves `v` there. -/
structure Fixed (s : PState) (a v : Nat) : Prop where
  vol_eq : loadUInt s.vol a intSize = v
  settled : ∀ i < intSize, Settled s (a + i)

instance (s : PState) (b : Nat) : Decidable (Settled s b) := inferInstanceAs (Decidable (_ ∧ _))

instance (s : PState) (a v : Nat) : Decidable (Fixed s a v) :=
  decidable_of_iff (loadUInt s.vol a intSize = v ∧ ∀ i < intSize, Settled s (a + i))
    ⟨fun h => ⟨h.1, h.2⟩, fun h => ⟨h.1, h.2⟩⟩

/-! ## Settled bytes and fixed words under one step -/

section Fixed

variable {s : PState} {a a' b u v w n : Nat} {I : Mem}

theorem Settled.image (h : Settled s b) (hI : CrashImage s I) : I b = s.vol b :=
  (hI b).elim (fun e => e.trans h.1) fun hm => h.2 _ hm rfl

theorem Fixed.image (h : Fixed s a v) (hI : CrashImage s I) : loadUInt I a intSize = v :=
  (loadUInt_congr fun i hi => (h.settled i hi).image hI).trans h.vol_eq

theorem Fixed.lt (h : Fixed s a v) : v < 2 ^ 64 := h.vol_eq ▸ loadUInt_int_lt s.vol a

/-- A store leaves a settled byte outside its word settled. -/
theorem Settled.store (h : Settled s b) (hb : b < a ∨ a + intSize ≤ b) :
    Settled ((Prim.store a w).run s) b := by
  simp only [Settled, Prim.run_store_dur, Prim.run_vol, Prim.vol_store, storeUInt_of_not_mem hb]
  refine ⟨h.1, fun e he heb => ?_⟩
  rcases Prim.mem_run_store_pend.1 he with he | ⟨i, hi, rfl⟩
  · exact h.2 e he heb
  · simp only at heb; omega

/-- A store that changes no byte leaves every settled byte settled. -/
theorem Settled.store_same (h : Settled s b) (hv : storeUInt s.vol a intSize w = s.vol) :
    Settled ((Prim.store a w).run s) b := by
  simp only [Settled, Prim.run_store_dur, Prim.run_vol, Prim.vol_store, hv]
  refine ⟨h.1, fun e he heb => ?_⟩
  rcases Prim.mem_run_store_pend.1 he with he | ⟨i, -, rfl⟩
  · exact h.2 e he heb
  · simp only [hv] at heb ⊢; rw [heb]

theorem Settled.persist (h : Settled s b) : Settled ((Prim.persist a n).run s) b := by
  refine ⟨?_, fun e he heb => h.2 e (Prim.mem_run_persist_pend.1 he).1 heb⟩
  simp only [Prim.run_persist_dur, Prim.run_vol, Prim.vol_persist]
  split_ifs
  · rfl
  · exact h.1

theorem settled_persist (hb : a ≤ b ∧ b < a + n) : Settled ((Prim.persist a n).run s) b :=
  ⟨by simp [hb], fun _ he heb => absurd (heb ▸ hb) (Prim.mem_run_persist_pend.1 he).2⟩

/-- A store keeps a fixed word apart from it fixed. -/
theorem Fixed.store (h : Fixed s a v) (hd : WordsApart a' a) : Fixed ((Prim.store a' w).run s) a v :=
  ⟨by rw [Prim.run_vol, Prim.vol_store, loadUInt_storeUInt_apart hd, h.vol_eq],
    fun i hi => (h.settled i hi).store (by unfold WordsApart at hd; omega)⟩

/-- Storing the value a fixed word holds keeps it fixed. -/
theorem Fixed.store_self (h : Fixed s a v) : Fixed ((Prim.store a v).run s) a v := by
  have hv : storeUInt s.vol a intSize v = s.vol :=
    storeUInt_eq_self (by rw [h.vol_eq, Nat.mod_eq_of_lt (h.vol_eq ▸ loadUInt_lt s.vol a intSize)])
  exact ⟨by rw [Prim.run_vol, Prim.vol_store, hv, h.vol_eq],
    fun i hi => (h.settled i hi).store_same hv⟩

theorem Fixed.persist (h : Fixed s a' v) : Fixed ((Prim.persist a n).run s) a' v :=
  ⟨by rw [Prim.run_vol, Prim.vol_persist, h.vol_eq], fun i hi => (h.settled i hi).persist⟩

/-- A persist over a whole word fixes it at what the program reads there. -/
theorem fixed_persist (ha : a ≤ a' ∧ a' + intSize ≤ a + n) (hv : loadUInt s.vol a' intSize = v) :
    Fixed ((Prim.persist a n).run s) a' v :=
  ⟨by rw [Prim.run_vol, Prim.vol_persist, hv], fun _ _ => settled_persist (by omega)⟩

/-- A store of `w` at `a` then a persist of its word fix the word at `w`. -/
theorem fixed_store_persist (hw : w < 2 ^ 64) :
    Fixed ((Prim.persist a intSize).run ((Prim.store a w).run s)) a w :=
  fixed_persist ⟨le_refl _, le_refl _⟩ (by rw [Prim.run_vol, Prim.vol_store,
    loadUInt_storeUInt_int, Nat.mod_eq_of_lt hw])

/-- **The count is a commit point.** Right after a store of a value below 256 over a fixed word
below 256, a crash leaves the old value or the new one: the two differ only in their first
byte. -/
theorem store_image_small (h : Fixed s a u) (hu : u < 256) (hv : v < 256)
    (hI : CrashImage ((Prim.store a v).run s) I) :
    loadUInt I a intSize = u ∨ loadUInt I a intSize = v := by
  set m' := storeUInt s.vol a intSize v
  -- every byte of the word is the old byte or the new one
  have hbyte : ∀ i < intSize, I (a + i) = s.vol (a + i) ∨ I (a + i) = m' (a + i) := by
    intro i hi
    rcases hI (a + i) with e | e
    · exact .inl (e.trans (h.settled i hi).1)
    · rcases Prim.mem_run_store_pend.1 e with e | ⟨j, -, he⟩
      · exact .inl ((h.settled i hi).2 _ e rfl)
      · simp only [Prod.mk.injEq] at he
        exact .inr (he.1 ▸ he.2)
  -- both words are their first byte, the others zero
  have hv' : loadUInt m' a intSize = v := by rw [loadUInt_storeUInt_int, Nat.mod_eq_of_lt (by omega)]
  have hold := loadUInt_lt_256 (n := 7) (show loadUInt s.vol a intSize < 256 by rw [h.vol_eq]; exact hu)
  have hnew := loadUInt_lt_256 (n := 7) (show loadUInt m' a intSize < 256 by rw [hv']; exact hv)
  have hz : ∀ i < intSize, 0 < i → I (a + i) = s.vol (a + i) ∧ I (a + i) = m' (a + i) := by
    intro i hi h0
    rw [hold.2 i h0 hi, hnew.2 i h0 hi]
    rcases hbyte i hi with e | e <;> rw [e] <;> simp [hold.2 i h0 hi, hnew.2 i h0 hi]
  rcases hbyte 0 (by decide) with e | e
  · refine .inl ((loadUInt_congr fun i hi => ?_).trans h.vol_eq)
    rcases Nat.eq_zero_or_pos i with rfl | h0
    exacts [e, (hz i hi h0).1]
  · refine .inr ((loadUInt_congr fun i hi => ?_).trans hv')
    rcases Nat.eq_zero_or_pos i with rfl | h0
    exacts [e, (hz i hi h0).2]

theorem fixed_ofImage (I : Mem) (a : Nat) : Fixed (PState.ofImage I) a (loadUInt I a intSize) :=
  ⟨rfl, fun _ _ => ⟨rfl, fun _ hx _ => absurd hx (List.not_mem_nil _)⟩⟩

/-- Recovery's own state has one crash image: itself. -/
theorem crashImage_ofImage {J : Mem} (h : CrashImage (PState.ofImage I) J) : J = I :=
  funext fun b => (h b).resolve_right (List.not_mem_nil _)

end Fixed

/-! ## Crash safety along a run -/

/-- Every crash image of `s` satisfies `G`. -/
def AllImages (G : Mem → Prop) (s : PState) : Prop := ∀ I, CrashImage s I → G I

/-- Every state of the run of `ps` from `s`, the first and the last included, leaves only crash
images that satisfy `G`. -/
def CrashSafe (G : Mem → Prop) : List Prim → PState → Prop
  | [], s => AllImages G s
  | p :: ps, s => AllImages G s ∧ CrashSafe G ps (p.run s)

section CrashSafe

variable {G : Mem → Prop} {ps qs : List Prim} {s : PState}

theorem CrashSafe.append (h : CrashSafe G ps s) (h' : CrashSafe G qs (runPrims ps s)) :
    CrashSafe G (ps ++ qs) s := by
  induction ps generalizing s with
  | nil => exact h'
  | cons p ps ih => exact ⟨h.1, ih h.2 h'⟩

/-- A crash after any prefix of the run leaves an image satisfying `G`. -/
theorem CrashSafe.crashAt (h : CrashSafe G ps s) {p : List Prim} (hp : p <+: ps) :
    AllImages G (runPrims p s) := by
  induction ps generalizing p s with
  | nil => rw [List.prefix_nil.1 hp]; exact h
  | cons q ps ih =>
    rcases List.prefix_cons_iff.1 hp with rfl | ⟨t, rfl, ht⟩
    · cases ps <;> exact h.1
    · exact ih h.2 ht

end CrashSafe

/-! ## What the log names -/

section Names

variable (pa : PArena) (la : LogLayout)

/-- The words at offsets `W` from the header lie in the arena, apart from the log's fields and
from each other, and the arena lies in the address space. -/
structure LogWords (W : List Nat) : Prop where
  fits : pa.addr + pa.size ≤ 2 ^ 64
  loggable : ∀ o ∈ W, la.Loggable pa o
  pairwise : W.Pairwise WordsApart

/-- The log names the words at offsets `L`, in order, with their values `c` from before the
transaction, and every other logged word (of `W`) holds that value; `P a v` says where each value
is found. -/
structure Names (P : Nat → Nat → Prop) (W : List Nat) (c : Nat → Nat) (L : List Nat) : Prop where
  len_le : L.length ≤ maxLogEntries
  sub : ∀ o ∈ L, o ∈ W
  off : ∀ j (h : j < L.length), P (la.offAddr pa j) L[j]
  val : ∀ j (h : j < L.length), P (la.valAddr pa j) (c L[j])
  rest : ∀ o ∈ W, o ∉ L → P (pa.addr + o) (c o)

/-- The state between two calls of a transaction that has logged `L`: the count and the entries
are durable, and every logged word not yet named holds its value from before. -/
structure Logged (W : List Nat) (c : Nat → Nat) (L : List Nat) (s : PState) : Prop where
  count : Fixed s (la.countAddr pa) L.length
  names : Names pa la (Fixed s) W c L

/-- The bytes recovery must end with: nothing counted, and the logged words all at their values
from before (`c`) or all at their committed values (`d`). -/
def Atomic (W : List Nat) (c d : Nat → Nat) (J : Mem) : Prop :=
  loadUInt J (la.countAddr pa) intSize = 0 ∧
    ((∀ o ∈ W, loadUInt J (pa.addr + o) intSize = c o) ∨
      ∀ o ∈ W, loadUInt J (pa.addr + o) intSize = d o)

instance (W : List Nat) (c d : Nat → Nat) (J : Mem) : Decidable (Atomic pa la W c d J) :=
  inferInstanceAs (Decidable (_ ∧ (_ ∨ _)))

/-- A crash image recovery can start from: already `Atomic`, or counting entries that name
logged words with their values from before. -/
def Recoverable (W : List Nat) (c d : Nat → Nat) (I : Mem) : Prop :=
  Atomic pa la W c d I ∨ ∃ L : List Nat, 0 < L.length ∧
    loadUInt I (la.countAddr pa) intSize = L.length ∧
    Names pa la (fun a v => loadUInt I a intSize = v) W c L

end Names

section Names

variable {pa : PArena} {la : LogLayout} {W L : List Nat} {c d e : Nat → Nat}
  {P Q : Nat → Nat → Prop} {s : PState} {a v : Nat} {I : Mem}

theorem LogWords.apart (hW : LogWords pa la W) {o o' : Nat} (ho : o ∈ W) (ho' : o' ∈ W)
    (hne : o ≠ o') : WordsApart (pa.addr + o) (pa.addr + o') := by
  have := hW.pairwise.forall (fun _ _ => WordsApart.symm) ho ho' hne
  unfold WordsApart at *; omega

theorem Names.mono (h : Names pa la P W c L) (hPQ : ∀ a v, P a v → Q a v) : Names pa la Q W c L :=
  ⟨h.len_le, h.sub, fun j hj => hPQ _ _ (h.off j hj), fun j hj => hPQ _ _ (h.val j hj),
    fun o ho hn => hPQ _ _ (h.rest o ho hn)⟩

/-- A store apart from the entries and from the words not yet named keeps the log's naming. -/
theorem Names.store (h : Names pa la (Fixed s) W c L)
    (hs : ∀ j < L.length, WordsApart a (la.offAddr pa j) ∧ WordsApart a (la.valAddr pa j))
    (hw : ∀ o ∈ W, o ∉ L → WordsApart a (pa.addr + o)) :
    Names pa la (Fixed ((Prim.store a v).run s)) W c L :=
  ⟨h.len_le, h.sub, fun j hj => (h.off j hj).store (hs j hj).1,
    fun j hj => (h.val j hj).store (hs j hj).2, fun o ho hn => (h.rest o ho hn).store (hw o ho hn)⟩

theorem Names.persist {n : Nat} (h : Names pa la (Fixed s) W c L) :
    Names pa la (Fixed ((Prim.persist a n).run s)) W c L :=
  h.mono fun _ _ hf => hf.persist

/-- A new last entry naming a logged word with its value from before. -/
theorem Names.snoc {o : Nat} (h : Names pa la P W c L) (hlen : L.length < maxLogEntries)
    (hW : o ∈ W) (hoff : P (la.offAddr pa L.length) o) (hval : P (la.valAddr pa L.length) (c o)) :
    Names pa la P W c (L ++ [o]) where
  len_le := by simpa using hlen
  sub o' ho' := (List.mem_append.1 ho').elim (h.sub o') fun e => List.eq_of_mem_singleton e ▸ hW
  off j hj := by
    rcases Nat.lt_or_ge j L.length with hj' | hj'
    · rw [List.getElem_append_left hj']; exact h.off j hj'
    · obtain rfl : j = L.length := by simp at hj; omega
      simpa using hoff
  val j hj := by
    rcases Nat.lt_or_ge j L.length with hj' | hj'
    · rw [List.getElem_append_left hj']; exact h.val j hj'
    · obtain rfl : j = L.length := by simp at hj; omega
      simpa using hval
  rest o' ho' hn := h.rest o' ho' fun e => hn (List.mem_append_left _ e)

/-- An image counting the entries of a durable naming can be recovered. -/
theorem recoverable_of_names (h : Names pa la (Fixed s) W c L) (hI : CrashImage s I)
    (hc : loadUInt I (la.countAddr pa) intSize = L.length) : Recoverable pa la W c d I := by
  cases L with
  | nil => exact .inl ⟨hc, .inl fun o ho => (h.rest o ho (List.not_mem_nil o)).image hI⟩
  | cons o L => exact .inr ⟨o :: L, by simp, hc, h.mono fun _ _ hf => hf.image hI⟩

theorem Logged.images (h : Logged pa la W c L s) : AllImages (Recoverable pa la W c d) s :=
  fun _ hI => recoverable_of_names h.names hI (h.count.image hI)

theorem Logged.store (h : Logged pa la W c L s) (hc : WordsApart a (la.countAddr pa))
    (hs : ∀ j < L.length, WordsApart a (la.offAddr pa j) ∧ WordsApart a (la.valAddr pa j))
    (hw : ∀ o ∈ W, o ∉ L → WordsApart a (pa.addr + o)) :
    Logged pa la W c L ((Prim.store a v).run s) :=
  ⟨h.count.store hc, h.names.store hs hw⟩

theorem Logged.persist {n : Nat} (h : Logged pa la W c L s) :
    Logged pa la W c L ((Prim.persist a n).run s) :=
  ⟨h.count.persist, h.names.persist⟩

/-- A store to a word the transaction has logged keeps it `Logged`. -/
theorem Logged.store_word {o : Nat} (hW : LogWords pa la W) (h : Logged pa la W c L s)
    (ho : o ∈ L) : Logged pa la W c L ((Prim.store (pa.addr + o) v).run s) :=
  have hl := (hW.loggable o (h.names.sub o ho)).2
  h.store hl.count (fun j hj => ⟨hl.off (by have := h.names.len_le; omega),
      hl.val (by have := h.names.len_le; omega)⟩)
    fun o' ho' hn => hW.apart (h.names.sub o ho) ho' fun e => hn (e ▸ ho)

/-- What the log of a `Logged` state holds. -/
theorem Logged.holds (h : Logged pa la W c L s) :
    Holds pa la s.vol (L.map fun o => (o, c o)) :=
  ⟨by rw [h.count.vol_eq, List.length_map],
    fun j hj => by simpa using (h.names.off j (by simpa using hj)).vol_eq,
    fun j hj => by simpa using (h.names.val j (by simpa using hj)).vol_eq⟩

theorem atomic_of (hce : e = c ∨ e = d) (h0 : loadUInt I (la.countAddr pa) intSize = 0)
    (hw : ∀ o ∈ W, loadUInt I (pa.addr + o) intSize = e o) : Atomic pa la W c d I :=
  ⟨h0, by rcases hce with rfl | rfl; exacts [.inl hw, .inr hw]⟩

end Names

/-! ## One lemma per function -/

section Functions

variable {pa : PArena} {la : LogLayout} {W L : List Nat} {c d e : Nat → Nat} {s : PState}

/-- `commitLog`'s loop over logged words `K`: each persisted word is fixed at what the program
reads there (`D` holds those already persisted). -/
theorem persistWords_run {K D : List Nat} (h : Logged pa la W c L s)
    (hD : ∀ o ∈ D, Fixed s (pa.addr + o) (loadUInt s.vol (pa.addr + o) intSize)) :
    CrashSafe (Recoverable pa la W c d) (K.map fun o => .persist (pa.addr + o) intSize) s ∧
      Logged pa la W c L (runPrims (K.map fun o => .persist (pa.addr + o) intSize) s) ∧
      ∀ o ∈ D ++ K, Fixed (runPrims (K.map fun o => .persist (pa.addr + o) intSize) s) (pa.addr + o)
        (loadUInt s.vol (pa.addr + o) intSize) := by
  induction K generalizing s D with
  | nil => exact ⟨h.images, h, by simpa using hD⟩
  | cons o K ih =>
    have ih' := ih h.persist (D := D ++ [o]) fun o' ho' =>
      (List.mem_append.1 ho').elim (fun m => (hD o' m).persist) fun m => by
        rw [List.eq_of_mem_singleton m]; exact fixed_persist ⟨le_refl _, le_refl _⟩ rfl
    exact ⟨⟨h.images, ih'.1⟩, ih'.2.1, by simpa using ih'.2.2⟩

variable (hW : LogWords pa la W)
include hW

/-- `pa.resetLog()`, here also the end of `revertLog` and `commitLog`, once every logged word
durably holds one version `e`. -/
theorem resetLog_run (h : Logged pa la W c L s) (he : ∀ o ∈ W, Fixed s (pa.addr + o) (e o))
    (hce : e = c ∨ e = d) :
    CrashSafe (Recoverable pa la W c d) (resetLog pa la) s ∧
      Fixed (runPrims (resetLog pa la) s) (la.countAddr pa) 0 ∧
      ∀ o ∈ W, Fixed (runPrims (resetLog pa la) s) (pa.addr + o) (e o) := by
  have hapart : ∀ o ∈ W, WordsApart (la.countAddr pa) (pa.addr + o) :=
    fun o ho => (hW.loggable o ho).2.count.symm
  have hlen : L.length < 256 := by have := h.names.len_le; unfold maxLogEntries at this; omega
  set s1 := (Prim.store (la.countAddr pa) 0).run s
  have he1 : ∀ o ∈ W, Fixed s1 (pa.addr + o) (e o) := fun o ho => (he o ho).store (hapart o ho)
  have hc2 : Fixed ((Prim.persist (la.countAddr pa) intSize).run s1) (la.countAddr pa) 0 :=
    fixed_store_persist (by decide)
  have he2 : ∀ o ∈ W, Fixed ((Prim.persist (la.countAddr pa) intSize).run s1) (pa.addr + o) (e o) :=
    fun o ho => (he1 o ho).persist
  refine ⟨⟨h.images, fun I hI => ?_, fun I hI =>
    .inl (atomic_of hce (hc2.image hI) fun o ho => (he2 o ho).image hI)⟩, hc2, he2⟩
  rcases store_image_small h.count hlen (by decide) hI with hn | h0
  · exact recoverable_of_names (h.names.store
      (fun j hj => ⟨LogLayout.count_apart_off (by have := h.names.len_le; omega),
        LogLayout.count_apart_val (by have := h.names.len_le; omega)⟩) fun o ho _ => hapart o ho) hI hn
  · exact .inl (atomic_of hce h0 fun o ho => (he1 o ho).image hI)

/-- `pa.logEntry(addr)` on a word not yet logged: every crash inside it can be recovered, and it
leaves the word named by a new durable entry. The entry is persisted before the count names it,
and the count's store is a commit point. -/
theorem logEntry_run {a : Nat} (hc : ∀ o, c o < 2 ^ 64) (h : Logged pa la W c L s)
    (ha : pa.addr ≤ a) (hoW : a - pa.addr ∈ W) (hnew : a - pa.addr ∉ L)
    (hlen : L.length < maxLogEntries) :
    ∃ ps, logEntry pa la s.vol a = .ok ps ∧ CrashSafe (Recoverable pa la W c d) ps s ∧
      Logged pa la W c (L ++ [a - pa.addr]) (runPrims ps s) := by
  set o := a - pa.addr
  set m := L.length
  have hlog := hW.loggable o hoW
  have hao : pa.addr + o = a := by omega
  have hv : loadUInt s.vol a intSize = c o := hao ▸ (h.names.rest o hoW hnew).vol_eq
  have ho64 : o < 2 ^ 64 := by have := hW.fits; have := hlog.lt_size; omega
  refine ⟨_, hv ▸ logEntry_eq hW.fits ha hlog.lt_size h.count.vol_eq hlen, ?_⟩
  have hslot : ∀ j < m, WordsApart (la.offAddr pa m) (la.offAddr pa j) ∧
      WordsApart (la.offAddr pa m) (la.valAddr pa j) ∧ WordsApart (la.valAddr pa m) (la.offAddr pa j) ∧
      WordsApart (la.valAddr pa m) (la.valAddr pa j) := fun j hj =>
    have h₁ := @LogLayout.slot_apart la pa _ _ (show m ≠ j by omega)
    have h₂ := @LogLayout.slot_apart la pa _ _ (show j ≠ m by omega)
    ⟨h₁.1, h₁.2.1, h₂.2.1.symm, h₁.2.2⟩
  have hrest : ∀ (x : Nat), (∀ o' ∈ W, WordsApart (pa.addr + o') x) →
      ∀ o' ∈ W, o' ∉ L → WordsApart x (pa.addr + o') := fun _ hx o' ho' _ => (hx o' ho').symm
  -- the entry is stored and persisted while the count still says `m`
  set s1 := (Prim.store (la.offAddr pa m) o).run s
  set s2 := (Prim.store (la.valAddr pa m) (c o)).run s1
  set s3 := (Prim.persist (la.offAddr pa m) logEntrySize).run s2
  have h1 : Logged pa la W c L s1 :=
    h.store (LogLayout.count_apart_off hlen).symm (fun j hj => ⟨(hslot j hj).1, (hslot j hj).2.1⟩)
      (hrest _ fun o' ho' => (hW.loggable o' ho').2.off hlen)
  have h2 : Logged pa la W c L s2 :=
    h1.store (LogLayout.count_apart_val hlen).symm (fun j hj => ⟨(hslot j hj).2.2.1, (hslot j hj).2.2.2⟩)
      (hrest _ fun o' ho' => (hW.loggable o' ho').2.val hlen)
  have h3 : Logged pa la W c L s3 := h2.persist
  have hoff3 : Fixed s3 (la.offAddr pa m) o := fixed_persist ⟨le_refl _, by
      simp only [logEntrySize, intSize]; omega⟩ (by
    simp only [s2, s1, Prim.run_vol, Prim.vol_store,
      loadUInt_storeUInt_apart (LogLayout.off_apart_val m).symm, loadUInt_storeUInt_int,
      Nat.mod_eq_of_lt ho64])
  have hval3 : Fixed s3 (la.valAddr pa m) (c o) := fixed_persist ⟨by
      simp only [LogLayout.valAddr]; omega, by
      simp only [LogLayout.valAddr, logEntrySize, intSize]; omega⟩ (by
    simp only [s2, Prim.run_vol, Prim.vol_store, loadUInt_storeUInt_int, Nat.mod_eq_of_lt (hc o)])
  have n3 : Names pa la (Fixed s3) W c (L ++ [o]) := h3.names.snoc hlen hoW hoff3 hval3
  -- then the count is stored and persisted
  set s4 := (Prim.store (la.countAddr pa) (m + 1)).run s3
  have hcount : ∀ j < maxLogEntries, WordsApart (la.countAddr pa) (la.offAddr pa j) ∧
      WordsApart (la.countAddr pa) (la.valAddr pa j) := fun j hj =>
    ⟨LogLayout.count_apart_off hj, LogLayout.count_apart_val hj⟩
  have hcw : ∀ o' ∈ W, WordsApart (la.countAddr pa) (pa.addr + o') :=
    fun o' ho' => (hW.loggable o' ho').2.count.symm
  have n4 : Names pa la (Fixed s4) W c (L ++ [o]) :=
    n3.store (fun j hj => hcount j (by have := n3.len_le; omega)) fun o' ho' _ => hcw o' ho'
  have n4' : Names pa la (Fixed s4) W c L :=
    h3.names.store (fun j hj => hcount j (by omega)) fun o' ho' _ => hcw o' ho'
  have hm : m < 256 := by unfold maxLogEntries at hlen; omega
  have hm1 : m + 1 < 256 := by unfold maxLogEntries at hlen; omega
  have hc5 : Fixed ((Prim.persist (la.countAddr pa) intSize).run s4) (la.countAddr pa) (m + 1) :=
    fixed_store_persist (by omega)
  have h5 : Logged pa la W c (L ++ [o]) ((Prim.persist (la.countAddr pa) intSize).run s4) :=
    ⟨by simpa using hc5, n4.persist⟩
  refine ⟨?_, h5⟩
  unfold entrySteps
  exact ⟨h.images, h1.images, h2.images, h3.images,
    fun I hI => (store_image_small h3.count hm hm1 hI).elim
      (recoverable_of_names n4' hI) fun e => recoverable_of_names n4 hI (by simpa using e),
    h5.images⟩

/-- `revertLog`'s loop over logged words `K`: each restored word stays fixed at its value from
before (`D` holds those already restored). -/
theorem restoreSteps_run (hc : ∀ o, c o < 2 ^ 64) {K D : List Nat} (h : Logged pa la W c L s)
    (hK : ∀ o ∈ K, o ∈ L) (hD : ∀ o ∈ D, o ∈ W ∧ Fixed s (pa.addr + o) (c o)) :
    CrashSafe (Recoverable pa la W c d) (restoreSteps pa (K.map fun o => (o, c o))) s ∧
      Logged pa la W c L (runPrims (restoreSteps pa (K.map fun o => (o, c o))) s) ∧
      ∀ o ∈ D ++ K, Fixed (runPrims (restoreSteps pa (K.map fun o => (o, c o))) s) (pa.addr + o) (c o) := by
  induction K generalizing s D with
  | nil => exact ⟨h.images, h, by simpa using fun o ho => (hD o ho).2⟩
  | cons o K ih =>
    have hoL := hK o (List.mem_cons_self _ _)
    have hoW := h.names.sub o hoL
    set s1 := (Prim.store (pa.addr + o) (c o)).run s
    have h1 : Logged pa la W c L s1 := h.store_word hW hoL
    have hD1 : ∀ o' ∈ D, o' ∈ W ∧ Fixed s1 (pa.addr + o') (c o') := fun o' ho' => by
      refine ⟨(hD o' ho').1, ?_⟩
      by_cases e : o' = o
      · subst e; exact (hD o' ho').2.store_self
      · exact (hD o' ho').2.store (hW.apart hoW (hD o' ho').1 (Ne.symm e))
    have ih' := ih h1.persist (D := D ++ [o]) (fun o' ho' => hK o' (List.mem_cons_of_mem _ ho'))
      fun o' ho' => (List.mem_append.1 ho').elim (fun m => ⟨(hD1 o' m).1, (hD1 o' m).2.persist⟩)
        fun m => by rw [List.eq_of_mem_singleton m]; exact ⟨hoW, fixed_store_persist (hc o)⟩
    exact ⟨⟨h.images, h1.images, ih'.1⟩, ih'.2.1, by simpa using ih'.2.2⟩

/-- `pa.revertLog()`: every crash inside it can be recovered, and it leaves every logged word
durably at its value from before, with the count durably 0. -/
theorem revertLog_run (hc : ∀ o, c o < 2 ^ 64) (h : Logged pa la W c L s) :
    ∃ ps, revertLog pa la s.vol = .ok ps ∧ CrashSafe (Recoverable pa la W c d) ps s ∧
      Fixed (runPrims ps s) (la.countAddr pa) 0 ∧
      ∀ o ∈ W, Fixed (runPrims ps s) (pa.addr + o) (c o) := by
  by_cases hL : L = []
  · subst hL
    exact ⟨[], by
      rw [revertLog, if_pos (show loadUInt s.vol (la.countAddr pa) intSize = 0 from h.count.vol_eq)]
      rfl, h.images, h.count,
      fun o ho => h.names.rest o ho (List.not_mem_nil o)⟩
  · obtain ⟨hs, hl, hw⟩ := restoreSteps_run (d := d) (K := L) (D := []) hW hc h (fun _ => id)
      (by simp)
    have hWo : ∀ o ∈ W, Fixed (runPrims (restoreSteps pa (L.map fun o => (o, c o))) s)
        (pa.addr + o) (c o) := fun o ho =>
      if hoL : o ∈ L then hw o (by simpa using hoL) else hl.names.rest o ho hoL
    obtain ⟨hs', hc0, he⟩ := resetLog_run hW hl hWo (.inl rfl)
    have hE : ∀ e ∈ L.map (fun o => (o, c o)), e.1 < pa.size ∧ la.Apart e.1 := by
      simp only [List.mem_map]
      rintro _ ⟨o, ho, rfl⟩
      have := hW.loggable o (h.names.sub o ho)
      exact ⟨this.lt_size, this.2⟩
    refine ⟨_, revertLog_eq hW.fits h.holds hE (by simpa using h.names.len_le)
      (by simpa using List.length_pos.2 hL), hs.append hs', ?_, ?_⟩ <;>
      rw [runPrims_append] <;> assumption

/-- `pa.commitLog()`: every crash inside it can be recovered, and it leaves every logged word
durably at its committed value `d`, with the count durably 0. -/
theorem commitLog_run (h : Logged pa la W c L s)
    (hd : ∀ o ∈ W, loadUInt s.vol (pa.addr + o) intSize = d o) :
    ∃ ps, commitLog pa la s.vol = .ok ps ∧ CrashSafe (Recoverable pa la W c d) ps s ∧
      Fixed (runPrims ps s) (la.countAddr pa) 0 ∧
      ∀ o ∈ W, Fixed (runPrims ps s) (pa.addr + o) (d o) := by
  obtain ⟨hs, hl, hw⟩ := persistWords_run (d := d) (K := L) (D := []) h (by simp)
  have hWo : ∀ o ∈ W, Fixed (runPrims (L.map fun o => .persist (pa.addr + o) intSize) s)
      (pa.addr + o) (d o) := fun o ho => by
    rw [← hd o ho]
    by_cases hoL : o ∈ L
    · exact hw o (by simpa using hoL)
    · rw [(h.names.rest o ho hoL).vol_eq]; exact hl.names.rest o ho hoL
  obtain ⟨hs', hc0, he⟩ := resetLog_run hW hl hWo (.inr rfl)
  have hE : ∀ e ∈ L.map (fun o => (o, c o)), e.1 < pa.size := by
    simp only [List.mem_map]
    rintro _ ⟨o, ho, rfl⟩
    exact (hW.loggable o (h.names.sub o ho)).lt_size
  have hcl : commitLog pa la s.vol =
      .ok ((L.map fun o => .persist (pa.addr + o) intSize) ++ resetLog pa la) := by
    rw [commitLog_eq hW.fits h.holds hE (by simpa using h.names.len_le), List.map_map]; rfl
  refine ⟨_, hcl, hs.append hs', ?_, ?_⟩ <;> rw [runPrims_append] <;> assumption

/-- The calls of a transaction before it closes, when the words it logs are those of `W`, each
once: every crash among them can be recovered, and they leave every logged word named by a
durable entry. -/
theorem body_run (hc : ∀ o, c o < 2 ^ 64) {ops : List TxOp} {Wr : List Nat}
    (h : Logged pa la W c L s) (hb : TxBody pa la L Wr ops) (hL : L ++ loggedOffsets pa ops = W) :
    ∃ ps, txTrace pa la s ops = .ok ps ∧ CrashSafe (Recoverable pa la W c d) ps s ∧
      Logged pa la W c W (runPrims ps s) := by
  induction ops generalizing L Wr s with
  | nil =>
    simp only [loggedOffsets, List.append_nil] at hL
    subst hL
    exact ⟨[], rfl, h.images, h⟩
  | cons op ops ih =>
    cases op with
    | logEntry a =>
      obtain ⟨ha, -, hlen, -, hb⟩ := hb
      simp only [loggedOffsets] at hL
      have hoW : a - pa.addr ∈ W := hL ▸ List.mem_append_right _ (List.mem_cons_self _ _)
      have hnew : a - pa.addr ∉ L := fun hm => by
        have hp := hW.pairwise
        rw [← hL, List.pairwise_append] at hp
        exact (hp.2.2 _ hm _ (List.mem_cons_self _ _)).ne rfl
      obtain ⟨ps, hps, hs, hl⟩ := logEntry_run (d := d) hW hc h ha hoW hnew hlen
      obtain ⟨qs, hqs, hs', hl'⟩ := ih hl hb (by simpa using hL)
      exact ⟨ps ++ qs, txTrace_cons_ok hps hqs, hs.append hs', by rwa [runPrims_append]⟩
    | write a v =>
      obtain ⟨⟨o, ho, rfl⟩, hb⟩ := hb
      obtain ⟨qs, hqs, hs', hl'⟩ := ih (h.store_word hW ho) hb hL
      exact ⟨_, txTrace_cons_ok rfl hqs, ⟨h.images, hs'⟩, hl'⟩
    | commit | revert | reset => exact hb.elim

end Functions

end GoPmem
