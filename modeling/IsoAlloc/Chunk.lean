import IsoAlloc.BitSlotCache

/-!
User memory and the two operations on one chunk of a zone:
`_iso_alloc_bitslot_from_zone` and `iso_free_chunk_from_zone`, with the
canary writes and checks and the poisoning they perform. Memory is a map from
addresses to 64-bit words together with the set of accessible addresses; an
access to any other address (a guard page, an unmapped range) faults.
-/

namespace IsoAlloc

/-- `x` lies in `[a, a + len)`, with 64-bit wrap-around. -/
def inRange (a : Word) (len : Nat) (x : Word) : Bool := decide ((x - a).toNat < len)

/-- The user memory: the word stored at each address and whether the page of
that address is mapped readable and writable. -/
structure Heap where
  mem : Word → Word
  acc : Word → Bool

namespace Heap

variable (h : Heap)

def read (a : Word) : Except Stop Word :=
  if h.acc a then pure (h.mem a) else throw (.segv a)

def write (a v : Word) : Except Stop Heap :=
  if h.acc a then pure { h with mem := Function.update h.mem a v } else throw (.segv a)

/-- `memset` of the word `v` over `[a, a + len)`: it faults when the range's
first or last word is not accessible (the ranges the allocator clears are
chunks, which start either inside a user region or on its guard page). -/
def memset (a v : Word) (len : Nat) : Except Stop Heap :=
  if h.acc a ∧ h.acc (a + BitVec.ofNat 64 (len - 8)) then
    pure { h with mem := fun x => if inRange a len x then v else h.mem x }
  else throw (.segv a)

/-- `madvise(a, len, MADV_DONTNEED)` on private anonymous memory: the mapped
pages of the range read back as zeros; the call itself never faults. -/
def madviseDontneed (a : Word) (len : Nat) : Heap :=
  { h with mem := fun x => if inRange a len x then 0 else h.mem x }

/-- Change the protection of `[a, a + len)` (`mmap`, `mprotect`, `munmap`). -/
def protect (a : Word) (len : Nat) (accessible : Bool) : Heap :=
  { h with acc := fun x => if inRange a len x then accessible else h.acc x }

end Heap

namespace Zone

variable (C : Config) (z : Zone)

/-- The canary of the chunk at `p`: `(canary_secret ^ p) & CANARY_VALIDATE_MASK`. -/
def canaryAt (p : Word) : Word := (z.canarySecret ^^^ p) &&& C.canaryValidateMask

/-- `write_canary`: the canary at the first and the last word of the chunk. -/
def writeCanary (h : Heap) (p : Word) : Except Stop Heap := do
  let h ← h.write p (z.canaryAt C p)
  h.write (p + BitVec.ofNat 64 (z.chunkSize - 8)) (z.canaryAt C p)

/-- `check_canary`. -/
def checkCanary (h : Heap) (p : Word) : Except Stop Unit := do
  let v ← h.read p
  if v ≠ z.canaryAt C p then
    throw (.abort "Canary at beginning of chunk 0x%p in zone[%d][%d byte chunks] has been corrupted! Value: 0x%x Expected: 0x%x")
  let v ← h.read (p + BitVec.ofNat 64 (z.chunkSize - 8))
  if v ≠ z.canaryAt C p then
    throw (.abort "Canary at end of chunk 0x%p in zone[%d][%d byte chunks] has been corrupted! Value: 0x%x Expected: 0x%x")

/-- `iso_clear_user_chunk`: poison the whole chunk. -/
def isoClearUserChunk (h : Heap) (p : Word) : Except Stop Heap := h.memset p poisonWord z.chunkSize

/-- The zone after slot `bitslot` is handed out: low bit set, high bit
cleared, both counters incremented. -/
def markAllocated (bitslot : Nat) : Zone :=
  let w := wordOfSlot bitslot
  let k := whichBit bitslot
  { z with bitmap := Function.update z.bitmap w (unsetBit (setBit (z.bitmap w) k) (k + 1)),
           afCount := z.afCount + 1, allocCount := z.allocCount + 1 }

/-- The memory part of handing out the chunk at `p` whose slot word is `b`:
a chunk that carries a canary has it checked and its first word zeroed. -/
def allocChunkMemory (h : Heap) (b : Word) (k : Nat) (p : Word) : Except Stop Heap :=
  if getBit b (k + 1) then do
    z.checkCanary C h p
    h.write p 0
  else pure h

/-- `_iso_alloc_bitslot_from_zone`, on an unmasked zone. -/
def isoAllocBitslotFromZone (h : Heap) (bitslot : Nat) : Except Stop (Word × Zone × Heap) := do
  let w := wordOfSlot bitslot
  let k := whichBit bitslot
  let p := z.pointerFromBitslot bitslot
  z.checkBitmap z.bitmapStart
  let b := z.bitmap w
  if (z.userPagesStart + BitVec.ofNat 64 C.zoneUserSize).ult p then
    throw (.abort "Allocating an address 0x%p from zone[%d], bit slot %lu %ld bytes %ld pages outside zones user pages 0x%p 0x%p")
  if getBit b k then
    throw (.abort "Zone[%d] for chunk size %d cannot return allocated chunk at 0x%p bitmap location @ 0x%p. bit slot was %lu, bit number was %lu")
  let h ← z.allocChunkMemory C h b k p
  pure (p, z.markAllocated bitslot, h)

/-- The check of the neighbour with chunk number `n`: its canary is verified
when its high bit is set. -/
def checkNeighbour (h : Heap) (n : Nat) (q : Word) : Except Stop Unit :=
  if getBit (z.bitmap (wordOfSlot (n <<< 1))) (whichBit (n <<< 1) + 1) then z.checkCanary C h q
  else pure ()

/-- The zone after the slot `bitSlot` is freed: high bit set; a non-permanent
free also clears the low bit, queues the slot and clears `is_full`; the live
count drops by one. -/
def markFreed (bitSlot : Nat) (permanent : Bool) : Zone :=
  let w := wordOfSlot bitSlot
  let k := whichBit bitSlot
  let b := setBit (z.bitmap w) (k + 1)
  if permanent then { z with bitmap := Function.update z.bitmap w b, afCount := z.afCount - 1 }
  else
    let z1 := z.insertFreeBitSlot bitSlot
    { z1 with isFull := false, bitmap := Function.update z1.bitmap w (unsetBit b k),
              afCount := z1.afCount - 1 }

/-- The memory part of freeing the chunk `chunkNumber` at `p`, run on the zone
after `markFreed`: poisoning, the fresh canary and the neighbour checks. -/
def freeChunkMemory (h : Heap) (p : Word) (chunkNumber : Nat) (permanent : Bool) :
    Except Stop Heap := do
  let h ← if permanent || C.sanitizeChunks then z.isoClearUserChunk h p else pure h
  let h ← z.writeCanary C h p
  if chunkNumber + 1 ≠ z.getChunkCount C then
    z.checkNeighbour C h (chunkNumber + 1) (p + BitVec.ofNat 64 z.chunkSize)
  if chunkNumber ≠ 0 then
    z.checkNeighbour C h (chunkNumber - 1) (p - BitVec.ofNat 64 z.chunkSize)
  pure h

/-- `iso_free_chunk_from_zone`, on a masked zone, up to the thread zone-cache
update that its caller makes. -/
def isoFreeChunkFromZone (h : Heap) (p : Word) (permanent : Bool) : Except Stop (Zone × Heap) := do
  if p &&& BitVec.ofNat 64 (C.alignment - 1) ≠ 0 then
    throw (.abort "Chunk at 0x%p of zone[%d] is not %d byte aligned")
  let chunkOffset := p - z.unmaskUserPtr
  if chunkOffset &&& BitVec.ofNat 64 (z.chunkSize - 1) ≠ 0 then
    throw (.abort "Chunk at 0x%p is not a multiple of zone[%d] chunk size %d. Off by %lu bits")
  let chunkNumber := chunkOffset.toNat / z.chunkSize
  let bitSlot := chunkNumber <<< 1
  let w := wordOfSlot bitSlot
  if z.bitmapSize >>> 3 < w then
    throw (.abort "Cannot calculate this chunks location in the bitmap 0x%p")
  z.checkBitmap z.unmaskBitmapPtr
  if getBit (z.bitmap w) (whichBit bitSlot) = false then
    throw (.abort "Double free of chunk 0x%p detected from zone[%d] dwords_to_bit_slot=%lu bit_slot=%lu")
  let z' := z.markFreed bitSlot permanent
  let h ← z'.freeChunkMemory C h p chunkNumber permanent
  pure (z', h)

end Zone

end IsoAlloc
