import IsoAlloc.Lookup

/-!
Zone destruction: `_unmap_zone` and the root-lock part of
`_iso_alloc_destroy_zone_unlocked`. A private zone is wiped and then either
zeroed and sealed (`NEVER_REUSE_ZONES` or `FUZZ_MODE`) or re-seeded as an
internal zone; an internal zone is unmapped and, on retirement, re-created at
its own index. `madvise(MADV_DONTNEED)` zeroes whatever memory its range
covers, user pages and bitmap words alike; the rest of the allocator's data
lies outside the memory the model gives addresses to (see `Root`).
-/

namespace IsoAlloc

namespace Root

variable (C : Config) (r : Root)

/-- A zone's bitmap after `madvise(a, len, MADV_DONTNEED)`. -/
def Zone.bitmapAfterMadvise (a : Word) (len : Nat) (z : Zone) : Nat → Word :=
  fun k => if z.mapped ∧ inRange a len (z.bitmapBase + BitVec.ofNat 64 (8 * k)) then 0
    else z.bitmap k

/-- `madvise(a, len, MADV_DONTNEED)` through a pointer: the user memory and
the bitmap words in the range read back as zeros. Zone records, lookup tables,
big-zone records and thread caches have no address here, so the call leaves
them alone: the model assumes the range misses them. -/
def madviseDontneed (a : Word) (len : Nat) : Root :=
  { r with heap := r.heap.madviseDontneed a len,
           zones := fun i => { r.zones i with bitmap := Zone.bitmapAfterMadvise a len (r.zones i) },
           osCalls := r.osCalls ++ [.madvise a len] }

@[simp] theorem madviseDontneed_zones (a : Word) (len i : Nat) :
    (r.madviseDontneed a len).zones i =
      { r.zones i with bitmap := Zone.bitmapAfterMadvise a len (r.zones i) } := rfl
@[simp] theorem madviseDontneed_osCalls (a : Word) (len : Nat) :
    (r.madviseDontneed a len).osCalls = r.osCalls ++ [.madvise a len] := rfl
@[simp] theorem madviseDontneed_heap (a : Word) (len : Nat) :
    (r.madviseDontneed a len).heap = r.heap.madviseDontneed a len := rfl
@[simp] theorem madviseDontneed_zonesUsed (a : Word) (len : Nat) :
    (r.madviseDontneed a len).zonesUsed = r.zonesUsed := rfl

/-- `_unmap_zone` on zone `i`, whose stored bases are unmasked: clear its
chunk lookup bucket and unmap the bitmap and the user pages with their guard
pages, at the addresses the stored bases give. -/
def unmapZone (i : Nat) : Root :=
  let z := r.zones i
  let page := BitVec.ofNat 64 r.systemPageSize
  let bucket := C.chunkTableBucket z.userPagesStart
  let total := C.zoneUserSize + 2 * r.systemPageSize
  let calls := [OsCall.munmap z.bitmapStart z.bitmapSize, .munmap z.userPagesStart C.zoneUserSize]
  { r with chunkLookupTable := Function.update r.chunkLookupTable bucket 0,
           heap := r.heap.protect (z.userPagesStart - page) total false,
           zones := Function.update r.zones i
             { z with mapped := z.mapped && z.bitmapStart != z.bitmapBase },
           osCalls := r.osCalls ++ calls }

@[simp] theorem unmapZone_zonesUsed (i : Nat) : (r.unmapZone C i).zonesUsed = r.zonesUsed := rfl
@[simp] theorem unmapZone_zoneLookupTable (i : Nat) :
    (r.unmapZone C i).zoneLookupTable = r.zoneLookupTable := rfl
theorem unmapZone_chunkLookupTable (i : Nat) : (r.unmapZone C i).chunkLookupTable =
    Function.update r.chunkLookupTable (C.chunkTableBucket (r.zones i).userPagesStart) 0 := rfl

/-- The private-zone branch of `_iso_alloc_destroy_zone_unlocked` on the
unmasked zone `z` at index `i`, after its bitmap and user pages are wiped. -/
def destroyPrivate (env : NewZoneEnv) (i : Nat) (z : Zone) (h : Heap) : Except Stop Root :=
  if C.neverReuseZones then
    let calls := [OsCall.mprotect z.bitmapStart z.bitmapSize, .mprotect z.userPagesStart C.zoneUserSize]
    let h := h.protect z.userPagesStart C.zoneUserSize false
    let z := { Zone.zeroed with isFull := true }
    let r := { r with heap := h, osCalls := r.osCalls ++ calls }.setZone i z
    pure ((r.madviseDontneed z.bitmapStart z.bitmapSize).madviseDontneed z.userPagesStart C.zoneUserSize)
  else do
    let z := { z with internal := true, isFull := false }
    let (z, h) ← z.createCanaryChunks C env.canaryRand h
    let z ← z.fillFreeBitSlotCache C env.fillRand
    let z := z.getNextFreeBitSlot.2.maskZonePtrs
    let r := { r with heap := h }.setZone i z
    pure ((r.madviseDontneed z.bitmapStart z.bitmapSize).madviseDontneed z.userPagesStart C.zoneUserSize)

/-- `_iso_alloc_destroy_zone_unlocked(zone i, ..., replace)` after its
optional flush of the calling thread's caches. -/
def isoAllocDestroyZoneUnlocked (env : NewZoneEnv) (i : Nat) (replace : Bool) : Except Stop Root := do
  let z := (r.zones i).maskZonePtrs
  if z.internal = false then
    z.checkBitmap z.bitmapStart
    let m := z.getMaxBitmaskIndex
    let z := { z with bitmap := fun k => if k < m then 0 else z.bitmap k }
    let h ← r.heap.memset z.userPagesStart 0 C.zoneUserSize
    destroyPrivate C r env i z h
  else if replace then
    let saved := r.zonesUsed
    let r := { r.setZone i z with zonesUsed := z.index }
    let r := r.unmapZone C i
    let (_, r) ← r.isoNewZone C env z.chunkSize true
    pure { r with zonesUsed := saved }
  else pure ((r.setZone i z).unmapZone C i)

end Root

end IsoAlloc
