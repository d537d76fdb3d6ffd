import IsoAlloc.Root

/-!
Finding zones. `iso_find_zone_range` and `iso_find_zone_bitmap_range` probe
the chunk lookup table, then the calling thread's zone cache, then every zone
in use. `iso_find_zone_fit` follows the size chain from the zone lookup table
and then scans all zones, trying each with `iso_does_zone_fit`, which may
refill a zone's cache or mark it full.
-/

namespace IsoAlloc

namespace Root

variable (C : Config) (r : Root)

/-- The user region test of the lookups: `start <= p && start + ZONE_USER_SIZE > p`
on the unmasked start, in 64-bit pointer arithmetic. -/
def userRangeHas (z : Zone) (p : Word) : Bool :=
  z.unmaskUserPtr.ule p && p.ult (z.unmaskUserPtr + BitVec.ofNat 64 C.zoneUserSize)

/-- The bitmap region test of `iso_find_zone_bitmap_range`. -/
def bitmapRangeHas (z : Zone) (p : Word) : Bool :=
  z.unmaskBitmapPtr.ule p && p.ult (z.unmaskBitmapPtr + BitVec.ofNat 64 z.bitmapSize)

/-- The three probes shared by both lookups, for a region test `has`: the
table entry, the zone cache `cache` (zone indices), then all zones in use. -/
def findZoneBy (has : Zone → Word → Bool) (cache : List Nat) (p : Word) :
    Except Stop (Option Nat) :=
  let zoneIndex := r.chunkLookupTable (C.chunkTableBucket p)
  if r.zonesUsed < zoneIndex then
    throw (.abort "Pointer to zone lookup table corrupted at position %zu")
  else if has (r.zones zoneIndex) p then pure (some zoneIndex)
  else match cache.find? (fun i => has (r.zones i) p) with
    | some i => pure (some i)
    | none => pure ((List.range r.zonesUsed).find? (fun i => has (r.zones i) p))

/-- `iso_find_zone_range`. -/
def isoFindZoneRange (cache : List Nat) (p : Word) : Except Stop (Option Nat) :=
  r.findZoneBy C (userRangeHas C) cache p

/-- `iso_find_zone_bitmap_range`. -/
def isoFindZoneBitmapRange (cache : List Nat) (p : Word) : Except Stop (Option Nat) :=
  r.findZoneBy C bitmapRangeHas cache p

/-- Modelled from the spec: `ALIGN_SZ_UP`, rounding up to `ALIGNMENT`. -/
def alignSzUp (n : Nat) : Nat := (n + C.alignment - 1) / C.alignment * C.alignment

/-- `iso_does_zone_fit` on zone `i`, storing the zone back. -/
def doesZoneFit (rand : Nat → Nat → Word) (i size : Nat) : Except Stop (Bool × Root) := do
  let (fits, z) ← (r.zones i).isoDoesZoneFit C (rand i) size
  pure (fits, r.setZone i z)

/-- The chain loop of `iso_find_zone_fit` from zone `i`, bounded like the
chain walk of `_iso_new_zone`. -/
def fitChain (rand : Nat → Nat → Word) (size : Nat) : Nat → Nat → Root → Except Stop (Option Nat × Root)
  | 0, _, _ => throw .loop
  | fuel + 1, i, r =>
    if i < r.zonesUsed then
      let zone := r.zones i
      if zone.chunkSize ≠ size then
        throw (.abort "Zone lookup table failed to match sizes for zone[%d](%d) for chunk size (%d)")
      else if zone.internal = false then
        throw (.abort "Lookup table should never contain private zones")
      else do
        let (fits, r) ← r.doesZoneFit C rand i size
        if fits then pure (some i, r)
        else if (r.zones i).nextSzIndex ≠ 0 then fitChain rand size fuel (r.zones i).nextSzIndex r
        else pure (none, r)
    else pure (none, r)

/-- The linear loop of `iso_find_zone_fit` over the zones `is`. -/
def fitScan (rand : Nat → Nat → Word) (size : Nat) : List Nat → Root → Except Stop (Option Nat × Root)
  | [], r => pure (none, r)
  | i :: is, r => do
    let (fits, r) ← r.doesZoneFit C rand i size
    if fits then pure (some i, r) else fitScan rand size is r

/-- The fast path of `iso_find_zone_fit`: the size chain, when the zone
lookup table has an entry for the size. -/
def fitLookup (rand : Nat → Nat → Word) (size : Nat) : Except Stop (Option Nat × Root) :=
  if r.zoneLookupTable size ≠ 0 then fitChain C rand size (r.zonesUsed + 1) (r.zoneLookupTable size) r
  else pure (none, r)

/-- `iso_find_zone_fit`, in a build without `SMALL_MEM_STARTUP`. -/
def isoFindZoneFit (rand : Nat → Nat → Word) (size : Nat) : Except Stop (Option Nat × Root) := do
  let size := if size &&& (C.alignment - 1) ≠ 0 then alignSzUp C size else size
  let (found, r) ← r.fitLookup C rand size
  match found with
  | some i => pure (some i, r)
  | none => fitScan C rand size (List.range r.zonesUsed) r

/-- The `next_sz_index` checks of `_verify_zone` on zone `i`. -/
def verifyZoneLinks (i : Nat) : Except Stop Unit :=
  let zone := r.zones i
  if r.zonesUsed < zone.nextSzIndex then
    throw (.abort "Detected corruption in zone[%d] next_sz_index=%d")
  else if zone.nextSzIndex ≠ 0 ∧ zone.chunkSize ≠ (r.zones zone.nextSzIndex).chunkSize then
    throw (.abort "Inconsistent chunk sizes for zones %d,%d with chunk sizes %d,%d")
  else pure ()

/-- The canary checks of `_verify_zone` in bitmap word `i` of value `w`: the
chunk of every slot whose high bit is set, free or canary, carries its canary. -/
def verifyWord (z : Zone) (i : Nat) (w : Word) : Except Stop Unit :=
  ((List.range 32).map (2 * · + 1)).forM fun j =>
    if getBit w j then z.checkCanary C r.heap (z.pointerFromBitslot ((i <<< 6) + j)) else pure ()

/-- `_verify_zone` on zone `i`: the link checks, then the canary checks of
every bitmap word, read through the unmasked bitmap base. -/
def verifyZone (i : Nat) : Except Stop Unit := do
  r.verifyZoneLinks i
  let zone := (r.zones i).maskZonePtrs
  (List.range zone.getMaxBitmaskIndex).forM fun k => do
    let w ← zone.readBitmap zone.bitmapStart k
    r.verifyWord C zone k w

end Root

namespace Zone

/-- `_is_zone_retired`. -/
def isZoneRetired (C : Config) (z : Zone) : Bool :=
  z.afCount = 0 ∧ z.getChunkCount C * zoneAllocRetire < z.allocCount ∧
    z.internal ∧ z.chunkSize < maxDefaultZoneSz * 2

end Zone

end IsoAlloc
