import IsoAlloc.FreeBounds

/-!
`_verify_all_zones`. Its zone loop stops, with `break`, at the first record
whose `bitmap_start` or `user_pages_start` is NULL. A private zone destroyed
in a `NEVER_REUSE_ZONES` build is such a record and stays below
`zones_used`, so no zone after it is verified again.
-/

namespace IsoAlloc

namespace Root

variable (C : Config) (r : Root)

/-- The zone loop of `_verify_all_zones` over the zones `is`. -/
def verifyZonesFrom : List Nat → Except Stop Unit
  | [] => pure ()
  | i :: is =>
    if (r.zones i).bitmapStart = 0 ∨ (r.zones i).userPagesStart = 0 then pure ()
    else do
      r.verifyZone C i
      verifyZonesFrom is

/-- The big-zone loop of `_verify_all_zones` from record `a`. -/
def verifyBigWalk : Nat → Word → Except Stop Unit
  | 0, _ => throw .loop
  | fuel + 1, a => do
    if a = 0 then return ()
    let b ← r.readBig a
    r.checkBigCanary a b
    verifyBigWalk fuel (r.bigNext b)

/-- `_verify_all_zones`. -/
def verifyAllZones : Except Stop Unit := do
  r.verifyZonesFrom C (List.range r.zonesUsed)
  r.verifyBigWalk (r.bigZones.length + 1) r.bigHead

end Root

/-- A build with `NEVER_REUSE_ZONES`. -/
def sealingConfig : Config := { smallZoneConfig with neverReuseZones := true }

/-- In a build that seals destroyed zones, thread 0 creates the private zones
10 and 11 of 16-byte chunks and destroys zone 10. A store of 0 over the canary
that zone 11 keeps in its first chunk then makes `_verify_zone` on zone 11
abort, but `_verify_all_zones` stops at the sealed zone 10 and returns. -/
theorem verifier_stops_at_sealed_zone :
    (do
      let r ← Root.initializeGlobalRoot sealingConfig smallInitEnv 4096 unmappedHeap
      let s : Sys := ⟨r, fun _ => ThreadState.empty⟩
      let (_, s) ← s.step sealingConfig smallOpEnv 0 (.newZone 16 false)
      let (_, s) ← s.step sealingConfig smallOpEnv 0 (.newZone 16 false)
      let (_, s) ← s.step sealingConfig smallOpEnv 0 (.destroyZone 10)
      let r := s.root
      let r' := { r with heap := { r.heap with
        mem := Function.update r.heap.mem (r.zones 11).userPagesStart 0#64 } }
      pure (r.zonesUsed,
        (match r'.verifyZone sealingConfig 11 with
          | .error e => some e
          | .ok _ => none),
        (match r'.verifyAllZones sealingConfig with
          | .error e => some e
          | .ok _ => none)) : Except Stop (Nat × Option Stop × Option Stop)).toOption =
      some (12, some (.abort "Canary at beginning of chunk 0x%p in zone[%d][%d byte chunks] has been corrupted! Value: 0x%x Expected: 0x%x"),
        none) := by
  decide

end IsoAlloc
