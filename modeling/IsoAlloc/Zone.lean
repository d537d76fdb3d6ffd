import IsoAlloc.Basic

/-!
The zone record `iso_alloc_zone_t` and the macros that read it. The bitmap
contents are kept with the zone; the two stored bases are masked at rest, and
the real bases that `mmap` returned are kept beside them as ghost fields so
that the masking discipline can be stated. A bitmap access goes through the
pointer the code computes and faults unless that pointer is the real base of
a mapped bitmap.
-/

namespace IsoAlloc

/-- A zone: the fields of `iso_alloc_zone_t` that the modelled functions use,
the bitmap words at the real bitmap base, and the ghost fields `userBase`,
`bitmapBase` (the real bases) and `mapped` (the mappings still exist). -/
structure Zone where
  index : Nat
  internal : Bool
  isFull : Bool
  chunkSize : Nat
  bitmapSize : Nat
  userPagesStart : Word
  bitmapStart : Word
  pointerMask : Word
  canarySecret : Word
  freeBitSlotCache : Nat → Int
  freeBitSlotCacheUsable : Nat
  freeBitSlotCacheIndex : Nat
  nextFreeBitSlot : Int
  afCount : Int
  allocCount : Nat
  nextSzIndex : Nat
  bitmap : Nat → Word
  userBase : Word
  bitmapBase : Word
  mapped : Bool

namespace Zone

variable (C : Config) (z : Zone)

/-- `MASK_ZONE_PTRS`, which is also `UNMASK_ZONE_PTRS`: XOR both stored
bases with the zone's `pointer_mask`. -/
def maskZonePtrs : Zone :=
  { z with bitmapStart := z.bitmapStart ^^^ z.pointerMask,
           userPagesStart := z.userPagesStart ^^^ z.pointerMask }

/-- `UNMASK_USER_PTR`, which reads without storing. -/
def unmaskUserPtr : Word := z.userPagesStart ^^^ z.pointerMask

/-- `UNMASK_BITMAP_PTR`. -/
def unmaskBitmapPtr : Word := z.bitmapStart ^^^ z.pointerMask

/-- `GET_CHUNK_COUNT`: the chunks that fit the user region. -/
def getChunkCount : Nat := C.zoneUserSize / z.chunkSize

/-- `GET_MAX_BITMASK_INDEX`: the number of 64-bit bitmap words. -/
def getMaxBitmaskIndex : Nat := z.bitmapSize >>> 3

/-- `POINTER_FROM_BITSLOT`, through the stored user base. -/
def pointerFromBitslot (bitSlot : Nat) : Word :=
  z.userPagesStart + BitVec.ofNat 64 ((bitSlot >>> 1) * z.chunkSize)

/-- The two stored bases hold the real bases XOR `pointer_mask`. -/
def Masked : Prop :=
  z.userPagesStart = z.userBase ^^^ z.pointerMask ∧
    z.bitmapStart = z.bitmapBase ^^^ z.pointerMask

/-- The two stored bases hold the real bases, as between an unmask and a mask. -/
def Unmasked : Prop := z.userPagesStart = z.userBase ∧ z.bitmapStart = z.bitmapBase

/-- Read bitmap word `i` through the base pointer `bm` the code computed. -/
def readBitmap (bm : Word) (i : Nat) : Except Stop Word :=
  if z.mapped ∧ bm = z.bitmapBase then .ok (z.bitmap i)
  else .error (.segv (bm + BitVec.ofNat 64 (8 * i)))

/-- Write bitmap word `i` through the base pointer `bm`. -/
def writeBitmap (bm : Word) (i : Nat) (w : Word) : Except Stop Zone :=
  if z.mapped ∧ bm = z.bitmapBase then
    .ok { z with bitmap := Function.update z.bitmap i w }
  else .error (.segv (bm + BitVec.ofNat 64 (8 * i)))

/-- The low ("in use") bit of the slot `bitSlot`. -/
def lowBit (bitSlot : Nat) : Bool := getBit (z.bitmap (wordOfSlot bitSlot)) (whichBit bitSlot)

/-- The high ("carries a canary") bit of the slot `bitSlot`. -/
def highBit (bitSlot : Nat) : Bool :=
  getBit (z.bitmap (wordOfSlot bitSlot)) (whichBit bitSlot + 1)

@[simp] theorem maskZonePtrs_maskZonePtrs : z.maskZonePtrs.maskZonePtrs = z := by
  simp [maskZonePtrs, BitVec.xor_assoc]

@[simp] theorem maskZonePtrs_bitmap : z.maskZonePtrs.bitmap = z.bitmap := rfl
@[simp] theorem maskZonePtrs_pointerMask : z.maskZonePtrs.pointerMask = z.pointerMask := rfl
@[simp] theorem maskZonePtrs_userBase : z.maskZonePtrs.userBase = z.userBase := rfl
@[simp] theorem maskZonePtrs_bitmapBase : z.maskZonePtrs.bitmapBase = z.bitmapBase := rfl
@[simp] theorem maskZonePtrs_mapped : z.maskZonePtrs.mapped = z.mapped := rfl
@[simp] theorem maskZonePtrs_chunkSize : z.maskZonePtrs.chunkSize = z.chunkSize := rfl
@[simp] theorem maskZonePtrs_bitmapSize : z.maskZonePtrs.bitmapSize = z.bitmapSize := rfl
@[simp] theorem maskZonePtrs_internal : z.maskZonePtrs.internal = z.internal := rfl
@[simp] theorem maskZonePtrs_index : z.maskZonePtrs.index = z.index := rfl
@[simp] theorem maskZonePtrs_isFull : z.maskZonePtrs.isFull = z.isFull := rfl

theorem maskZonePtrs_unmasked_iff : z.maskZonePtrs.Unmasked ↔ z.Masked := by
  simp only [Unmasked, Masked, maskZonePtrs, xor_eq_iff_eq_xor]

theorem maskZonePtrs_masked_iff : z.maskZonePtrs.Masked ↔ z.Unmasked := by
  rw [← maskZonePtrs_unmasked_iff, maskZonePtrs_maskZonePtrs]

theorem unmaskUserPtr_of_masked (h : z.Masked) : z.unmaskUserPtr = z.userBase := by
  simp [unmaskUserPtr, h.1, BitVec.xor_assoc]

theorem unmaskBitmapPtr_of_masked (h : z.Masked) : z.unmaskBitmapPtr = z.bitmapBase := by
  simp [unmaskBitmapPtr, h.2, BitVec.xor_assoc]

end Zone

end IsoAlloc
