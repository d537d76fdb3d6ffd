import IsoAlloc.Thread

/-!
The allocator's entry points as the root lock serialises them: `_iso_alloc`
with its zone-cache probe, size-chain and linear searches and zone creation,
`_iso_calloc`, `_iso_free` with its quarantine, `_iso_free_size`,
`_iso_free_from_zone`, `iso_new_zone`, `_iso_alloc_destroy_zone` and
`flush_caches`. A system state is the root and every thread's caches, and a
step is one entry point run atomically by one thread.
-/

namespace IsoAlloc

namespace Root

variable (C : Config)

/-- The zone-cache probe of `_iso_alloc` over the entries `es`: the first
entry with `chunk_size >= size` whose zone `iso_does_zone_fit`. -/
def cacheProbe (rand : Nat → Nat → Word) (size : Nat) :
    List (Nat × Nat) → Root → Except Stop (Option Nat × Root)
  | [], r => pure (none, r)
  | e :: es, r =>
    if size ≤ e.2 then do
      let (fits, r) ← r.doesZoneFit C rand e.1 size
      if fits then pure (some e.1, r) else cacheProbe rand size es r
    else cacheProbe rand size es r

/-- The zone `_iso_alloc` settles on: the one it was given, else a zone of
the thread's zone cache that fits, else the one `iso_find_zone_fit` finds. -/
def chooseZone (env : OpEnv) (t : ThreadState) (zone : Option Nat) (size : Nat) (r : Root) :
    Except Stop (Option Nat × Root) :=
  match zone with
  | some i => pure (some i, r)
  | none => do
    let (zone, r) ← cacheProbe C env.usableRand size ((List.range t.zoneCacheCount).map t.zoneCache) r
    match zone with
    | some i => pure (some i, r)
    | none => r.isoFindZoneFit C env.usableRand size

/-- The `is_zone_usable` check `_iso_alloc` makes when the zone it settled on
is private; an internal zone passes as it is. -/
def usableIfPrivate (rand : Nat → Word) (i size : Nat) (r : Root) : Except Stop (Bool × Root) :=
  if (r.zones i).internal = false then do
    let (ok, z) ← (r.zones i).isZoneUsable C rand size
    pure (ok, r.setZone i z)
  else pure (true, r)

/-- The slot `_iso_alloc` takes from the zone it chose, or `none` for the
NULL return; a new zone is made when no zone was chosen. -/
def chooseSlot (env : OpEnv) (zone : Option Nat) (size : Nat) (r : Root) :
    Except Stop (Option (Nat × Int) × Root) := do
  match zone with
  | some i =>
    let (usable, r) ← usableIfPrivate C (env.usableRand i) i size r
    if !usable then return (none, r)
    let slot := (r.zones i).nextFreeBitSlot
    if slot = badBitSlot then return (none, r)
    pure (some (i, slot), r)
  | none =>
    let (made, r) ← r.isoNewZone C (env.zoneEnv r.zonesUsed) size true
    match made with
    | none => throw (.abort "Failed to create a zone for allocation of %zu bytes")
    | some i =>
      let slot := (r.zones i).nextFreeBitSlot
      if slot = badBitSlot then throw (.abort "Allocated a new zone with no free bit slots")
      pure (some (i, slot), r)

/-- `_iso_alloc(zone, size)` by a thread with caches `t`, in a build without
`NO_ZERO_ALLOCATIONS`, `ALLOC_SANITY` or `ABORT_ON_NULL`; 0 is NULL. -/
def isoAlloc (env : OpEnv) (t : ThreadState) (r : Root) (zone : Option Nat) (size : Nat) :
    Except Stop (Word × Root) := do
  if zone.any fun i => (r.zones i).chunkSize < size then
    throw (.abort "Private zone %d cannot hold chunks of size %d")
  if size ≤ C.smallSzMax then
    let (zone, r) ← chooseZone C env t zone size r
    let (chosen, r) ← chooseSlot C env zone size r
    match chosen with
    | none => pure (0, r)
    | some (i, slot) =>
      let z := { (r.zones i).maskZonePtrs with nextFreeBitSlot := badBitSlot }
      let (p, z, h) ← z.isoAllocBitslotFromZone C r.heap slot.toNat
      pure (p, { r with heap := h }.setZone i z.maskZonePtrs)
  else
    if zone.isSome then
      throw (.abort "Allocation size of %d is > %d and cannot use a private zone")
    r.isoBigAlloc C env.bigEnv size

/-- `_iso_calloc`: `__builtin_umul_overflow` with `unsigned int` operands and
result, so it multiplies the low 32 bits of `nmemb` and of `size` and reports
a product of `2^32` or more; then `_iso_alloc(NULL, nmemb * size)` with the
64-bit product, and a zeroing `memset` of a small chunk (a big payload is left
as `_iso_big_alloc` hands it out). -/
def isoCalloc (env : OpEnv) (t : ThreadState) (r : Root) (nmemb size : Nat) :
    Except Stop (Word × Root) := do
  if 0x100000000 ≤ nmemb % 0x100000000 * (size % 0x100000000) then
    throw (.abort "Call to calloc() will overflow nmemb=%zu size=%zu")
  let sz := nmemb * size % 0x10000000000000000
  let (p, r) ← isoAlloc C env t r none sz
  if sz ≤ C.smallSzMax then
    let h ← r.heap.memset p 0 sz
    pure (p, { r with heap := h })
  else pure (p, r)

/-- `_iso_free(p, permanent)`; the drain of a full quarantine frees every
entry, then the quarantine restarts with `p`. -/
def isoFree (env : OpEnv) (t : ThreadState) (r : Root) (p : Word) (permanent : Bool) :
    Except Stop (ThreadState × Root) := do
  if p = 0 then return (t, r)
  if permanent then return ← isoFreeInternalUnlocked C env t r p true none
  if t.chunkQuarantine.length < chunkQuarantineSz then
    return ({ t with chunkQuarantine := t.chunkQuarantine ++ [p] }, r)
  let (t', r) ← freeEach C env t.chunkQuarantine t r
  pure ({ t' with chunkQuarantine := [p] }, r)

/-- `_iso_free_size(p, size)`. -/
def isoFreeSize (env : OpEnv) (t : ThreadState) (r : Root) (p : Word) (size : Nat) :
    Except Stop (ThreadState × Root) := do
  if p = 0 then return (t, r)
  if C.smallSzMax < size then
    match ← r.isoFindBigZone p with
    | none => throw (.abort "Could not find any zone for allocation at 0x%p")
    | some a => return (t, ← r.isoFreeBigZone C a false)
  match ← r.isoFindZoneRange C t.cachedZones p with
  | none => throw (.abort "Could not find zone for %p")
  | some i =>
    if (r.zones i).chunkSize < size then
      throw (.abort "Invalid size (expected %d, got %d) for chunk 0x%p")
    isoFreeInternalUnlocked C env t r p false (some i)

/-- `_iso_free_from_zone(p, zone, permanent)`, with `MEMORY_TAGGING` off. -/
def isoFreeFromZone (env : OpEnv) (t : ThreadState) (r : Root) (p : Word) (zone : Option Nat)
    (permanent : Bool) : Except Stop (ThreadState × Root) :=
  if p = 0 then pure (t, r) else isoFreeInternalUnlocked C env t r p permanent zone

/-- `iso_new_zone(size, internal)`. -/
def isoNewZonePublic (env : OpEnv) (r : Root) (size : Nat) (internal : Bool) :
    Except Stop (Option Nat × Root) :=
  if C.smallSzMax < size then pure (none, r) else r.isoNewZone C (env.zoneEnv r.zonesUsed) size internal

/-- `_iso_alloc_destroy_zone(zone)`: flush the calling thread's caches, then
destroy without replacement. -/
def isoAllocDestroyZone (env : OpEnv) (t : ThreadState) (r : Root) (i : Nat) :
    Except Stop (ThreadState × Root) := do
  let (t, r) ← flushChunkQuarantine C env t.clearZoneCache r
  pure (t, ← r.isoAllocDestroyZoneUnlocked C (env.zoneEnv i) i false)

/-- `flush_caches`. -/
def flushCaches (env : OpEnv) (t : ThreadState) (r : Root) : Except Stop (ThreadState × Root) :=
  flushChunkQuarantine C env t.clearZoneCache r

end Root

/-- The entry points a thread can call. -/
inductive Op where
  | alloc (zone : Option Nat) (size : Nat)
  | calloc (nmemb size : Nat)
  | free (p : Word) (permanent : Bool)
  | freeSize (p : Word) (size : Nat)
  | freeFromZone (p : Word) (zone : Option Nat) (permanent : Bool)
  | newZone (size : Nat) (internal : Bool)
  | destroyZone (zone : Nat)
  | flushCaches

/-- The allocator: the root and each thread's caches. -/
structure Sys where
  root : Root
  threads : Nat → ThreadState

/-- What an entry point hands back: a pointer, a zone, or nothing. -/
inductive Ret where
  | ptr (p : Word)
  | zone (z : Option Nat)
  | none

namespace Sys

variable (C : Config) (s : Sys)

/-- Store thread `th`'s caches and the root. -/
def put (th : Nat) (t : ThreadState) (r : Root) : Sys :=
  { root := r, threads := Function.update s.threads th t }

/-- Thread `th` runs `op` atomically. -/
def step (env : OpEnv) (th : Nat) : Op → Except Stop (Ret × Sys)
  | .alloc zone size => do
    let (p, r) ← s.root.isoAlloc C env (s.threads th) zone size
    pure (.ptr p, { s with root := r })
  | .calloc nmemb size => do
    let (p, r) ← s.root.isoCalloc C env (s.threads th) nmemb size
    pure (.ptr p, { s with root := r })
  | .free p permanent => do
    let (t, r) ← Root.isoFree C env (s.threads th) s.root p permanent
    pure (.none, s.put th t r)
  | .freeSize p size => do
    let (t, r) ← Root.isoFreeSize C env (s.threads th) s.root p size
    pure (.none, s.put th t r)
  | .freeFromZone p zone permanent => do
    let (t, r) ← Root.isoFreeFromZone C env (s.threads th) s.root p zone permanent
    pure (.none, s.put th t r)
  | .newZone size internal => do
    let (z, r) ← s.root.isoNewZonePublic C env size internal
    pure (.zone z, { s with root := r })
  | .destroyZone i => do
    let (t, r) ← Root.isoAllocDestroyZone C env (s.threads th) s.root i
    pure (.none, s.put th t r)
  | .flushCaches => do
    let (t, r) ← Root.flushCaches C env (s.threads th) s.root
    pure (.none, s.put th t r)

end Sys

end IsoAlloc
