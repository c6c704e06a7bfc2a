import Mathlib.Data.Nat.Bitwise
import Mathlib.Algebra.Group.Int

/-!
# GoPmem.Basic — runtime constants, `uintptr` arithmetic and spans

The persistent-memory logging of go-pmem reads a handful of Go runtime constants, computes
addresses in `uintptr` arithmetic and reads a few fields of an `mspan`. The repository holds three
revisions of the logging file: `runtime/pmemLog.go`, the earliest; the region revision, which
`PmallocInit` sets up over one mapped region and whose logs it finds through `pmemInfo`; and the
arena revision, whose arenas keep their logs in their own metadata.

* The constants of `malloc.go`/`sizeclasses.go` the logging code uses (`pageShift`, `pageSize`,
  `maxSmallSize`) and those of the logging files themselves (`logBytesPerPage`, `heapBytesPerPage`).
* `usub`, `uadd`: `uintptr` subtraction and addition, which wrap modulo `2^64`.
* `MSpan`: the fields of an `mspan` the logging code reads. `Span`: an `mspan` of a shape the
  comment on `logBytesPerPage` allows — a small span has a spanclass between 4 and 133, a large
  one holds one object of whole pages and has spanclass 0 or 1.
-/

namespace GoPmem

/-! ## Constants -/

/-- `_PageShift` of the Go runtime. -/
def pageShift : Nat := 13

/-- `pageSize = 1 << pageShift`. -/
def pageSize : Nat := 8192

/-- `maxSmallSize` of the Go runtime: objects above it get a span of their own. -/
def maxSmallSize : Nat := 32768

/-- Heap bytes described by one byte of the heap type bitmap. -/
def bytesPerBitmapByte : Nat := 32

/-- Bytes of the span bitmap per page: one `uint32` log word. -/
def logBytesPerPage : Nat := 4

/-- Modelled from the spec: `spanBytesPerPage`, declared outside the logging files; the span
bitmap holds one 32-bit word per page. -/
def spanBytesPerPage : Nat := 4

/-- `intSize`: the bytes of a Go `int`. -/
def intSize : Nat := 8

/-- `heapBytesPerPage = pageSize / 32`: type-bitmap bytes per page. -/
def heapBytesPerPage : Nat := pageSize / 32

@[simp] theorem pageSize_eq : pageSize = 2 ^ pageShift := rfl

theorem shiftRight_pageShift (a : Nat) : a >>> pageShift = a / pageSize := by
  rw [Nat.shiftRight_eq_div_pow]; rfl

theorem shiftLeft_pageShift (a : Nat) : a <<< pageShift = a * pageSize := by
  rw [Nat.shiftLeft_eq]; rfl

/-! ## `uintptr` arithmetic -/

/-- `a - b` on `uintptr`: it wraps modulo `2^64`. -/
def usub (a b : Nat) : Nat := (a + 2 ^ 64 - b) % 2 ^ 64

theorem usub_of_le {a b : Nat} (h : b ≤ a) (ha : a < 2 ^ 64) : usub a b = a - b := by
  unfold usub
  rw [show a + 2 ^ 64 - b = (a - b) + 2 ^ 64 by omega, Nat.add_mod_right, Nat.mod_eq_of_lt (by omega)]

/-- `a + b` on `uintptr`. -/
def uadd (a b : Nat) : Nat := (a + b) % 2 ^ 64

theorem uadd_of_lt {a b : Nat} (h : a + b < 2 ^ 64) : uadd a b = a + b := Nat.mod_eq_of_lt h

/-- Two `uintptr` additions are one. -/
theorem uadd_uadd (a b c : Nat) : uadd (uadd a b) c = uadd a (b + c) := by
  rw [uadd, uadd, uadd, Nat.mod_add_mod, Nat.add_assoc]

/-- An `|` of a multiple of `2^k` and a value below `2^k` is their sum. -/
theorem lor_eq_add {x b k : Nat} (hx : 2 ^ k ∣ x) (hb : b < 2 ^ k) : x ||| b = x + b := by
  obtain ⟨a, rfl⟩ := hx
  exact (Nat.mul_add_lt_is_or hb a).symm

/-! ## Spans -/

/-- The fields of an `mspan` that the logging functions read. -/
structure MSpan where
  /-- `s.base()`, the span's first address. -/
  base : Nat
  npages : Nat
  spanclass : Nat
  elemsize : Nat
  needzero : Nat
  /-- Non-zero when every object of the span has one type (optimized heap-bit logging). -/
  typIndex : Int
  memtype : Nat
  deriving DecidableEq, Repr

/-- `isNotPersistent`. -/
def isNotPersistent : Nat := 0

/-- `isPersistent`. -/
def isPersistent : Nat := 1

/-- A span is large when its objects are above `maxSmallSize`. -/
def MSpan.IsLarge (s : MSpan) : Prop := maxSmallSize < s.elemsize

instance (s : MSpan) : Decidable s.IsLarge := inferInstanceAs (Decidable (_ < _))

/-- `s.base() + s.npages*pageSize`, the end of the span's pages. -/
def MSpan.limit (s : MSpan) : Nat := s.base + s.npages * pageSize

/-- An `mspan` of a shape the allocator makes: at least one page, `needzero` a flag, room for one
object, the small and large shapes of the comment on `logBytesPerPage`, and its pages inside the
64-bit address space. -/
structure Span extends MSpan where
  npages_pos : 0 < npages
  needzero_le : needzero ≤ 1
  elemsize_le : elemsize ≤ npages * pageSize
  small_spanclass : elemsize ≤ maxSmallSize → 4 ≤ spanclass ∧ spanclass ≤ 133
  large_shape : maxSmallSize < elemsize → elemsize = npages * pageSize ∧ spanclass ≤ 1
  limit_le : base + npages * pageSize ≤ 2 ^ 64

namespace Span

variable (s : Span)

theorem large_npages (h : s.IsLarge) : s.elemsize >>> pageShift = s.npages := by
  rw [shiftRight_pageShift, (s.large_shape h).1, Nat.mul_div_cancel _ (by decide)]

/-- A large span has at least five pages. -/
theorem five_le_npages (h : s.IsLarge) : 5 ≤ s.npages := by
  have := (s.large_shape h).1
  unfold MSpan.IsLarge maxSmallSize at h
  simp only [pageSize] at this
  omega

theorem base_lt : s.base < 2 ^ 64 := by
  have := s.limit_le; have := s.npages_pos; simp only [pageSize] at *; omega

end Span

end GoPmem
