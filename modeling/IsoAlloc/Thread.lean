import IsoAlloc.BigZone

/-!
Per-thread state: the zone cache (`zone_cache`, `zone_cache_count`) and the
chunk quarantine (`chunk_quarantine`, `chunk_quarantine_count`), with the free
path that runs under the root lock: `_iso_free_internal_unlocked`, which frees
into a zone (then updates the zone cache and may retire the zone) or into the
big-zone list, and `_flush_chunk_quarantine`.
-/

namespace IsoAlloc

/-- What one top-level operation receives from its environment: the random
draws of every refill `is_zone_usable` makes, by zone index; the mappings and
random values of every zone it creates or re-seeds, by index; and those of a
new big zone. -/
structure OpEnv where
  usableRand : Nat → Nat → Word
  zoneEnv : Nat → NewZoneEnv
  bigEnv : BigAllocEnv

/-- A thread's caches. `zoneCache` holds `(zone index, chunk_size)` pairs, of
which the first `zoneCacheCount` are read; the quarantine holds the pending
pointers in order. -/
structure ThreadState where
  zoneCache : Nat → Nat × Nat
  zoneCacheCount : Nat
  chunkQuarantine : List Word

namespace ThreadState

variable (t : ThreadState)

/-- The zones of the cache prefix that the lookups scan, in order. -/
def cachedZones : List Nat := (List.range t.zoneCacheCount).map fun i => (t.zoneCache i).1

/-- `populate_zone_cache` for zone `i`, whose record is `z`. -/
def populateZoneCache (i : Nat) (z : Zone) : ThreadState :=
  if z.internal = false then t
  else if t.zoneCacheCount ≠ 0 ∧ (t.zoneCache (t.zoneCacheCount - 1)).1 = i then t
  else if t.zoneCacheCount < zoneCacheSz then
    { t with zoneCache := Function.update t.zoneCache t.zoneCacheCount (i, z.chunkSize),
             zoneCacheCount := t.zoneCacheCount + 1 }
  else { t with zoneCache := Function.update t.zoneCache 0 (i, z.chunkSize), zoneCacheCount := 0 }

/-- `clear_zone_cache`. -/
def clearZoneCache : ThreadState := { t with zoneCache := fun _ => (0, 0), zoneCacheCount := 0 }

/-- `clear_chunk_quarantine`. -/
def clearChunkQuarantine : ThreadState := { t with chunkQuarantine := [] }

end ThreadState

namespace Root

variable (C : Config)

/-- The zone a free goes to: the one given, else the one `iso_find_zone_range` finds. -/
def resolveZone (t : ThreadState) (r : Root) (p : Word) : Option Nat → Except Stop (Option Nat)
  | some i => pure (some i)
  | none => r.isoFindZoneRange C t.cachedZones p

/-- `_iso_free_internal_unlocked(p, permanent, zone)` by a thread with caches `t`. -/
def isoFreeInternalUnlocked (env : OpEnv) (t : ThreadState) (r : Root) (p : Word)
    (permanent : Bool) (zone : Option Nat) : Except Stop (ThreadState × Root) := do
  match ← resolveZone C t r p zone with
  | some i =>
    let (z, h) ← (r.zones i).isoFreeChunkFromZone C r.heap p permanent
    let r := { r with heap := h }.setZone i z
    let t := t.populateZoneCache i z
    if z.isZoneRetired C then
      let r ← r.isoAllocDestroyZoneUnlocked C (env.zoneEnv i) i true
      pure (t, r)
    else pure (t, r)
  | none =>
    match ← r.isoFindBigZone p with
    | none => throw (.abort "Could not find any zone for allocation at 0x%p")
    | some a => pure (t, ← r.isoFreeBigZone C a permanent)

/-- The frees of a quarantine drain, in order. -/
def freeEach (env : OpEnv) : List Word → ThreadState → Root → Except Stop (ThreadState × Root)
  | [], t, r => pure (t, r)
  | p :: ps, t, r => do
    let (t, r) ← isoFreeInternalUnlocked C env t r p false none
    freeEach env ps t r

/-- `_flush_chunk_quarantine`. -/
def flushChunkQuarantine (env : OpEnv) (t : ThreadState) (r : Root) :
    Except Stop (ThreadState × Root) := do
  let (t', r) ← freeEach C env t.chunkQuarantine t r
  pure (t'.clearChunkQuarantine, r)

end Root

end IsoAlloc
