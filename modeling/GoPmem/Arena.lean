import GoPmem.Basic

/-!
# GoPmem.Arena — persistent arenas and the addresses of their logs

A persistent arena is a mapped extent laid out as: the region header (first arena only), the
arena header, the type bitmap (one byte per 32 bytes of the allocatable range), the span bitmap
(one word per page), then the allocatable pages from `arenaStart = mapAddr + mdSize` on.

* `HeaderSizes`: `pmemHeaderSize` and `pArenaHeaderSize`, declared outside the logging files.
* `PArena`: the arena fields the logging code reads, with the two results of `layout()`.
* `spanLogAddr` and `pmemHeapBitsAddr`, and `V1.pmemHeapBitsAddr` of the earlier revision of the
  logging file, which reads the header offset from `pa.offset`.
* `ArenaAt`: the arena header lies where its header offset says. Then all three computations
  agree on `arenaStart` (`spanLogAddr_eq`, `pmemHeapBitsAddr_eq`, `V1.pmemHeapBitsAddr_eq`).
-/

namespace GoPmem

/-- The sizes of the two persistent headers, declared outside the logging files. -/
structure HeaderSizes where
  /-- The region header at the start of the first arena. -/
  pmemHeaderSize : Nat
  /-- An arena's header, its undo-log slots included. -/
  pArenaHeaderSize : Nat

/-- The fields of a `pArena` that the logging code reads. -/
structure PArena where
  /-- `unsafe.Pointer(pa)`: the address of the arena header itself. -/
  addr : Nat
  mapAddr : Nat
  fileOffset : Nat
  /-- `pa.offset` of the earlier revision: the bytes before the arena header. -/
  offset : Nat
  size : Nat
  /-- The first result of `pa.layout()`: the metadata bytes before `arenaStart`. -/
  mdSize : Nat
  /-- The second result of `pa.layout()`: the allocatable bytes. -/
  allocSize : Nat
  deriving DecidableEq, Repr

variable (hs : HeaderSizes)

namespace PArena

variable (pa : PArena)

/-- The bytes before the arena header: the region header, in the first arena only. -/
def hdrOff : Nat := if pa.fileOffset = 0 then hs.pmemHeaderSize else 0

/-- The first allocatable address. -/
def arenaStart : Nat := pa.mapAddr + pa.mdSize

/-- The first byte of the type bitmap. -/
def typeBitmap : Nat := pa.mapAddr + pa.hdrOff hs + hs.pArenaHeaderSize

/-- The first word of the span bitmap, right after the type bitmap. -/
def spanBitmap : Nat := pa.typeBitmap hs + pa.allocSize / bytesPerBitmapByte

/-- The two results of `layout()` fit the arena: the metadata before `arenaStart` holds the
headers, the type bitmap (a byte per 32 allocatable bytes) and the span bitmap (a word per
allocatable page), and the allocatable bytes follow inside the mapped extent. -/
structure LayoutFits : Prop where
  md_le : pa.hdrOff hs + hs.pArenaHeaderSize + pa.allocSize / bytesPerBitmapByte +
    pa.allocSize / pageSize * spanBytesPerPage ≤ pa.mdSize
  size_le : pa.mdSize + pa.allocSize ≤ pa.size

instance : Decidable (pa.LayoutFits hs) :=
  decidable_of_iff (_ ∧ _) ⟨fun h => ⟨h.1, h.2⟩, fun h => ⟨h.1, h.2⟩⟩

end PArena

/-- `spanLogAddr`: the address of the span-log word of `s`, a span of arena `pa`. -/
def spanLogAddr (pa : PArena) (s : MSpan) : Nat :=
  let arenaStart := pa.mapAddr + pa.mdSize
  let offset := if pa.fileOffset = 0 then hs.pmemHeaderSize else 0
  let spanBitmap := pa.mapAddr + offset + hs.pArenaHeaderSize + pa.allocSize / bytesPerBitmapByte
  let pageOffset := usub s.base arenaStart >>> pageShift
  spanBitmap + pageOffset * spanBytesPerPage

/-- `pmemHeapBitsAddr`: the type-bitmap byte of address `x`, found from the header's address. -/
def pmemHeapBitsAddr (x : Nat) (pa : PArena) : Nat :=
  let off := if pa.fileOffset = 0 then hs.pmemHeaderSize else 0
  let pu := pa.addr
  let arenaStart := usub pu off + pa.mdSize
  let allocOffset := usub x arenaStart / 32
  let typeBitsAddr := pu + hs.pArenaHeaderSize
  typeBitsAddr + allocOffset

/-- `pmemHeapBitsAddr` of the earlier revision: the header offset is read from `pa.offset`. -/
def V1.pmemHeapBitsAddr (x : Nat) (pa : PArena) : Nat :=
  let arenaOffset := pa.offset
  let typeBitsAddr := pa.mapAddr + arenaOffset + hs.pArenaHeaderSize
  let arenaStart := pa.mapAddr + pa.mdSize
  let allocOffset := usub x arenaStart / 32
  typeBitsAddr + allocOffset

/-- The arena header lies where its header offset says, in both revisions, at an address of the
64-bit address space. -/
structure ArenaAt (pa : PArena) : Prop where
  addr_eq : pa.addr = pa.mapAddr + pa.hdrOff hs
  offset_eq : pa.offset = pa.hdrOff hs
  addr_lt : pa.addr < 2 ^ 64

/-! ## A sample arena -/

/-- Header sizes for the examples: a 64-byte region header and a 96-byte arena header. -/
def sampleSizes : HeaderSizes := ⟨64, 96⟩

/-- The first arena of a 64 MiB region mapped at 4 GiB: its header follows the region header,
`layout()` reserves 253 pages of metadata and leaves 7939 pages to allocate. -/
def sampleArena : PArena where
  addr := 2 ^ 32 + 64
  mapAddr := 2 ^ 32
  fileOffset := 0
  offset := 64
  size := 2 ^ 26
  mdSize := 253 * pageSize
  allocSize := 7939 * pageSize

theorem sampleArena_layoutFits : sampleArena.LayoutFits sampleSizes ∧ ArenaAt sampleSizes sampleArena :=
  ⟨by decide, ⟨rfl, rfl, by decide⟩⟩

/-! ## The three computations agree -/

section Agree

variable {hs} {pa : PArena} {x : Nat}

theorem spanLogAddr_eq (s : MSpan) (hx : pa.arenaStart ≤ s.base) (hlt : s.base < 2 ^ 64) :
    spanLogAddr hs pa s = pa.spanBitmap hs + (s.base - pa.arenaStart) / pageSize * 4 := by
  unfold PArena.arenaStart at hx ⊢
  simp only [spanLogAddr, PArena.spanBitmap, PArena.typeBitmap, PArena.hdrOff,
    shiftRight_pageShift, usub_of_le hx hlt, spanBytesPerPage]

theorem pmemHeapBitsAddr_eq (h : ArenaAt hs pa) (hx : pa.arenaStart ≤ x) (hlt : x < 2 ^ 64) :
    pmemHeapBitsAddr hs x pa = pa.typeBitmap hs + (x - pa.arenaStart) / 32 := by
  have hu : usub pa.addr (pa.hdrOff hs) = pa.mapAddr := by
    rw [usub_of_le (by rw [h.addr_eq]; omega) h.addr_lt, h.addr_eq]; omega
  show pa.addr + hs.pArenaHeaderSize + usub x (usub pa.addr (pa.hdrOff hs) + pa.mdSize) / 32 = _
  rw [hu, show pa.mapAddr + pa.mdSize = pa.arenaStart from rfl, usub_of_le hx hlt, h.addr_eq]
  rfl

theorem V1.pmemHeapBitsAddr_eq (h : ArenaAt hs pa) (hx : pa.arenaStart ≤ x) (hlt : x < 2 ^ 64) :
    V1.pmemHeapBitsAddr hs x pa = pa.typeBitmap hs + (x - pa.arenaStart) / 32 := by
  unfold PArena.arenaStart at hx ⊢
  simp only [V1.pmemHeapBitsAddr, usub_of_le hx hlt, PArena.typeBitmap, h.offset_eq]

end Agree

end GoPmem
