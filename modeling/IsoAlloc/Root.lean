import IsoAlloc.Chunk

/-!
The root `iso_alloc_root`: the zones array, the two lookup tables, the page
size and user memory, with zone creation. `_iso_new_zone` maps the bitmap and
the user pages, seeds canary chunks, refills the free-slot cache and, for an
internal zone, splices it into the size chain. The chain walk is bounded by
`zones_used + 1` steps, past which the C loop could only be cycling.
-/

namespace IsoAlloc

/-- A call to the operating system made through a zone's base pointers. -/
inductive OsCall where
  | madvise (addr : Word) (len : Nat)
  | munmap (addr : Word) (len : Nat)
  | mprotect (addr : Word) (len : Nat)
  deriving DecidableEq, Repr

/-- A big-zone record `iso_alloc_big_zone_t`; `next` is stored masked and 0
is NULL. -/
structure BigZone where
  userPagesStart : Word
  size : Nat
  free : Bool
  next : Word
  canaryA : Word
  canaryB : Word
  deriving DecidableEq, Repr

/-- The root: `zones` (slots from `zones_used` on are not in use),
`zone_lookup_table`, `chunk_lookup_table`, `system_page_size`, the big-zone
list head (masked, 0 is NULL) and secrets, the big-zone records by address
(a wiped record is gone: its page is `PROT_NONE`), the user memory, and the
log of the OS calls made through zone base pointers and by
`iso_free_big_zone`.

Of the allocator's own data only the zone bitmaps lie in memory that
`madvise` and `memset` reach. The zone records, the two lookup tables, the
big-zone records and the thread caches sit apart from the heap, so no
operation on an address range touches them: the model assumes that every
range the allocator clears or discards, the masked ranges of a private zone's
destruction included, misses those mappings. -/
structure Root where
  zones : Nat → Zone
  zonesUsed : Nat
  zoneLookupTable : Nat → Nat
  chunkLookupTable : Nat → Nat
  systemPageSize : Nat
  bigZoneHead : Word
  bigZoneNextMask : Word
  bigZoneCanarySecret : Word
  bigZones : List (Word × BigZone)
  heap : Heap
  osCalls : List OsCall

/-- A zone record after `memset(zone, 0, sizeof(iso_alloc_zone_t))`. -/
def Zone.zeroed : Zone where
  index := 0
  internal := false
  isFull := false
  chunkSize := 0
  bitmapSize := 0
  userPagesStart := 0
  bitmapStart := 0
  pointerMask := 0
  canarySecret := 0
  freeBitSlotCache := fun _ => 0
  freeBitSlotCacheUsable := 0
  freeBitSlotCacheIndex := 0
  nextFreeBitSlot := 0
  afCount := 0
  allocCount := 0
  nextSzIndex := 0
  bitmap := fun _ => 0
  userBase := 0
  bitmapBase := 0
  mapped := false

/-- What `_iso_new_zone` receives from the environment: the two mappings
`mmap` returns and the values of its `rand_uint64()` calls. -/
structure NewZoneEnv where
  bitmapMap : Word
  userMap : Word
  canarySecret : Word
  pointerMask : Word
  canaryRand : Nat → Word
  fillRand : Nat → Word

/-- Modelled from the spec: `is_pow2`. -/
def isPow2 (n : Nat) : Bool := n &&& (n - 1) == 0

/-- `next_pow2`: the or-shift cascade on a 64-bit value, then `+ 1`. -/
def nextPow2 (sz : Word) : Word :=
  let sz := sz ||| sz >>> 1
  let sz := sz ||| sz >>> 2
  let sz := sz ||| sz >>> 4
  let sz := sz ||| sz >>> 8
  let sz := sz ||| sz >>> 16
  let sz := sz ||| sz >>> 32
  sz + 1

/-- Modelled from the spec: `ROUND_UP_PAGE`. -/
def roundUpPage (page : Nat) (a : Word) : Word :=
  BitVec.ofNat 64 ((a.toNat + page - 1) / page * page)

/-- `ROUND_DOWN_PAGE`: the start of the page of `a`. -/
def roundDownPage (page : Nat) (a : Word) : Word :=
  BitVec.ofNat 64 (a.toNat / page * page)

namespace Zone

variable (C : Config) (z : Zone)

/-- One canary chunk: slot 0 of bitmap word `i` becomes `11`, and the chunk
gets its canary, unless the slot's low bit is already set. -/
def addCanaryChunk (h : Heap) (i : Nat) : Except Stop (Zone × Heap) :=
  if getBit (z.bitmap i) 0 then pure (z, h)
  else do
    let z' := { z with bitmap := Function.update z.bitmap i (setBit (setBit (z.bitmap i) 0) 1) }
    let h ← z'.writeCanary C h (z'.pointerFromBitslot (i <<< 6))
    pure (z', h)

/-- The word chosen by the `n`-th draw of `create_canary_chunks`. -/
def canaryWord (rand : Nat → Word) (n : Nat) : Nat :=
  let idx := C.alignSzDown ((rand n).toNat % (z.getMaxBitmaskIndex - 1))
  if idx < 0 then 0 else idx.toNat

/-- The loop of `create_canary_chunks` over draws `n, n + 1, ...`. -/
def canaryLoop (rand : Nat → Word) : Nat → Nat → Zone → Heap → Except Stop (Zone × Heap)
  | 0, _, z, h => pure (z, h)
  | k + 1, n, z, h => do
    let (z, h) ← z.addCanaryChunk C h (z.canaryWord C rand n)
    canaryLoop rand k (n + 1) z h

/-- `create_canary_chunks`, on an unmasked zone. -/
def createCanaryChunks (rand : Nat → Word) (h : Heap) : Except Stop (Zone × Heap) :=
  if maxDefaultZoneSz < z.chunkSize then pure (z, h)
  else do
    z.checkBitmap z.bitmapStart
    canaryLoop C rand (z.getChunkCount C / canaryCountDiv) 0 z h

end Zone

namespace Root

variable (C : Config) (r : Root)

/-- Replace zone `i`. -/
def setZone (i : Nat) (z : Zone) : Root := { r with zones := Function.update r.zones i z }

@[simp] theorem setZone_zones_same (i : Nat) (z : Zone) : (r.setZone i z).zones i = z := by
  simp [setZone]

@[simp] theorem setZone_zones_ne (i j : Nat) (z : Zone) (h : j ≠ i) :
    (r.setZone i z).zones j = r.zones j := by
  simp [setZone, h]

@[simp] theorem setZone_zonesUsed (i : Nat) (z : Zone) : (r.setZone i z).zonesUsed = r.zonesUsed := rfl
@[simp] theorem setZone_zoneLookupTable (i : Nat) (z : Zone) :
    (r.setZone i z).zoneLookupTable = r.zoneLookupTable := rfl
@[simp] theorem setZone_chunkLookupTable (i : Nat) (z : Zone) :
    (r.setZone i z).chunkLookupTable = r.chunkLookupTable := rfl
@[simp] theorem setZone_systemPageSize (i : Nat) (z : Zone) :
    (r.setZone i z).systemPageSize = r.systemPageSize := rfl

/-- The size-chain walk of `_iso_new_zone` from zone `i`: the last zone of the
chain gets `next_sz_index := index`. -/
def spliceWalk (size index : Nat) : Nat → Nat → Root → Except Stop Root
  | 0, _, _ => throw .loop
  | fuel + 1, i, r =>
    if i < r.zonesUsed then
      let zt := r.zones i
      if zt.chunkSize ≠ size then
        throw (.abort "Inconsistent lookup table for zone[%d] chunk size %d (%d)")
      else if zt.nextSzIndex ≠ 0 then spliceWalk size index fuel zt.nextSzIndex r
      else pure (r.setZone i { zt with nextSzIndex := index })
    else pure r

/-- The lookup-table update of `_iso_new_zone`, made only for an internal zone. -/
def spliceNewZone (z : Zone) : Except Stop Root :=
  if z.internal = false then pure r
  else
    let bucket := C.chunkTableBucket z.userPagesStart
    let r := { r with chunkLookupTable := Function.update r.chunkLookupTable bucket z.index }
    if r.zoneLookupTable z.chunkSize = 0 then
      pure { r with zoneLookupTable := Function.update r.zoneLookupTable z.chunkSize z.index }
    else spliceWalk z.chunkSize z.index (r.zonesUsed + 1) (r.zoneLookupTable z.chunkSize) r

/-- The size `_iso_new_zone` rounds a request to, or `none` when it returns
NULL for a request above `SMALL_SZ_MAX`. -/
def newZoneSize (size : Nat) : Option Nat :=
  let size := if isPow2 size then size else (nextPow2 (BitVec.ofNat 64 size)).toNat
  if C.smallSzMax < size then none
  else some (if size < smallestChunkSz then smallestChunkSz else size)

/-- The zone record `_iso_new_zone` builds at index `zones_used`, unmasked,
before its canary chunks and refill, with the heap after the user mapping. -/
def freshZone (env : NewZoneEnv) (size : Nat) (internal : Bool) : Zone × Heap :=
  let page := r.systemPageSize
  let chunkCount := C.zoneUserSize / size
  let bitmapSize := (chunkCount <<< 1) >>> 3
  let user := env.userMap + BitVec.ofNat 64 page
  let total := C.zoneUserSize + (page <<< 1)
  let h := (r.heap.madviseDontneed env.userMap total).protect env.userMap total true
  let h := h.protect env.userMap page false
  let h := h.protect (roundUpPage page (env.userMap + BitVec.ofNat 64 (C.zoneUserSize + page))) page false
  ({ Zone.zeroed with
      index := r.zonesUsed, internal := internal, chunkSize := size,
      bitmapSize := if 8 < bitmapSize then bitmapSize else 8,
      userPagesStart := user, bitmapStart := env.bitmapMap + BitVec.ofNat 64 page,
      pointerMask := env.pointerMask, canarySecret := env.canarySecret,
      userBase := user, bitmapBase := env.bitmapMap + BitVec.ofNat 64 page, mapped := true }, h)

/-- The zone `_iso_new_zone` builds at index `zones_used`, unmasked: the
fresh record with its canary chunks, a refilled cache and a primed slot. -/
def buildZone (env : NewZoneEnv) (size : Nat) (internal : Bool) : Except Stop (Zone × Heap) := do
  let (z, h) := freshZone C r env size internal
  let (z, h) ← z.createCanaryChunks C env.canaryRand h
  let z ← z.fillFreeBitSlotCache C env.fillRand
  pure (z.getNextFreeBitSlot.2, h)

/-- `_iso_new_zone`: the index of the new zone, or `none` for NULL. -/
def isoNewZone (env : NewZoneEnv) (size : Nat) (internal : Bool) : Except Stop (Option Nat × Root) := do
  if maxZones ≤ r.zonesUsed then
    throw (.abort "Cannot allocate additional zones. I have already allocated %d")
  match newZoneSize C size with
  | none => pure (none, r)
  | some size =>
    let (z, h) ← r.buildZone C env size internal
    let calls := [OsCall.madvise z.bitmapStart z.bitmapSize,
      OsCall.madvise z.userPagesStart C.zoneUserSize]
    let r ← spliceNewZone C { r with heap := h, osCalls := r.osCalls ++ calls } z
    let r := r.setZone z.index z.maskZonePtrs
    pure (some z.index, { r with zonesUsed := r.zonesUsed + 1 })

end Root

end IsoAlloc
