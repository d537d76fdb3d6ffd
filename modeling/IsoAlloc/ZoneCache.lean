import IsoAlloc.BigPlacement

/-!
The thread zone cache. `populate_zone_cache` appends a zone until the cache
holds `ZONE_CACHE_SZ` entries, and then writes the next zone at index 0 and
resets `zone_cache_count` to 0: the prefix `_iso_alloc` scans becomes empty.
`_iso_alloc` calls it only when `zone->internal == false`, a zone it then
refuses, so an allocation never caches its zone.
-/

namespace IsoAlloc

namespace ThreadState

variable {t : ThreadState} {i : Nat} {z : Zone}

theorem populateZoneCache_count_le (h : t.zoneCacheCount ≤ zoneCacheSz) :
    (t.populateZoneCache i z).zoneCacheCount ≤ zoneCacheSz := by
  unfold populateZoneCache
  split_ifs <;> simp only [zoneCacheSz] at * <;> omega

/-- On a full cache, caching a new internal zone leaves the scanned prefix
empty. -/
theorem populateZoneCache_full (hi : z.internal = true) (hfull : t.zoneCacheCount = zoneCacheSz)
    (hlast : (t.zoneCache (zoneCacheSz - 1)).1 ≠ i) : (t.populateZoneCache i z).cachedZones = [] := by
  unfold populateZoneCache
  rw [if_neg (by simp [hi]), if_neg (by rw [hfull]; exact fun h => hlast h.2), if_neg (by omega)]
  rfl

end ThreadState

namespace Sys

variable {C : Config} {s s' : Sys} {env : OpEnv} {th : Nat} {ret : Ret}

theorem step_alloc_threads {zone : Option Nat} {size : Nat}
    (h : s.step C env th (.alloc zone size) = .ok (ret, s')) : s'.threads = s.threads := by
  obtain ⟨⟨p, r⟩, -, h⟩ := bind_eq_ok.1 h
  cases pure_eq_ok.1 h
  rfl

end Sys

/-- Thread `th` allocates each size in turn and frees the chunk it gets
through `_iso_free_from_zone`, which frees at once. -/
def allocThenFreeEach (C : Config) (env : OpEnv) (th : Nat) : List Nat → Sys → Except Stop Sys
  | [], s => pure s
  | size :: sizes, s => do
    let (.ptr p, s) ← s.step C env th (.alloc none size) | throw .loop
    let (_, s) ← s.step C env th (.freeFromZone p none false)
    allocThenFreeEach C env th sizes s

set_option maxRecDepth 8000 in
/-- From the initial state, thread 0 allocates 16 bytes from internal zone 0,
and its cache prefix stays empty. Allocating and freeing one chunk of each of
the sizes 16 to 2048 fills the prefix with zones 0 to 7; one more zone, of
4096-byte chunks, empties the prefix, the new zone hidden at index 0. -/
theorem zone_cache_misses_recent_zones :
    (do
      let r ← Root.initializeGlobalRoot smallZoneConfig smallInitEnv 4096 unmappedHeap
      let s : Sys := ⟨r, fun _ => ThreadState.empty⟩
      let (.ptr p, s) ← s.step smallZoneConfig smallOpEnv 0 (.alloc none 16) | throw .loop
      pure (p, (s.root.zones 0).internal, (s.threads 0).cachedZones) :
        Except Stop (Word × Bool × List Nat)).toOption = some (0x700000001010#64, true, []) ∧
    (do
      let r ← Root.initializeGlobalRoot smallZoneConfig smallInitEnv 4096 unmappedHeap
      let s : Sys := ⟨r, fun _ => ThreadState.empty⟩
      let s8 ← allocThenFreeEach smallZoneConfig smallOpEnv 0 [16, 32, 64, 128, 256, 512, 1024, 2048] s
      let s9 ← allocThenFreeEach smallZoneConfig smallOpEnv 0 [4096] s8
      pure ((s8.threads 0).cachedZones, (s9.root.zones 8).internal, (s9.threads 0).cachedZones,
        (s9.threads 0).zoneCache 0) : Except Stop (List Nat × Bool × List Nat × Nat × Nat)).toOption =
      some ([0, 1, 2, 3, 4, 5, 6, 7], true, [], 8, 4096) :=
  ⟨by decide, by decide⟩

end IsoAlloc
