import IsoAlloc.Refill

/-!
`iso_free_chunk_from_zone` never checks that `p` lies in the zone's user
pages. It rejects a pointer only when its bitmap word lies strictly past
`bitmap_size >> 3`, so the chunk just past the user pages, whose word is
`bitmap_size >> 3` itself, gets through and the free reads, and may write,
the bitmap word one past the end.
-/

namespace IsoAlloc

/-- In the initial state, zone 0 has 256 chunks of 16 bytes and an 8-word
bitmap. The pointer `user_pages_start + 4096`, the guard page after its user
pages, is outside the zone, and its bitmap word is word 8, one past the
bitmap. `_iso_free_from_zone` on it aborts as a double free, because word 8
reads 0; with word 8 reading 1 the free passes that check, stores the word and
faults writing the canary into the guard page. -/
theorem free_past_zone_reads_word_past_bitmap :
    (do
      let r ← Root.initializeGlobalRoot smallZoneConfig smallInitEnv 4096 unmappedHeap
      let z := r.zones 0
      let p := z.userPagesStart + 4096#64
      let s : Sys := ⟨r, fun _ => ThreadState.empty⟩
      let z8 := { z with bitmap := Function.update z.bitmap 8 1#64 }
      pure (z.getMaxBitmaskIndex, wordOfSlot (z.freeSlot p), Root.userRangeHas smallZoneConfig z p,
        (match s.step smallZoneConfig smallOpEnv 0 (.freeFromZone p (some 0) false) with
          | .error e => some e
          | .ok _ => none),
        (match z8.isoFreeChunkFromZone smallZoneConfig r.heap p false with
          | .error e => some e
          | .ok _ => none)) :
        Except Stop (Nat × Nat × Bool × Option Stop × Option Stop)).toOption =
      some (8, 8, false,
        some (.abort "Double free of chunk 0x%p detected from zone[%d] dwords_to_bit_slot=%lu bit_slot=%lu"),
        some (.segv 0x700000002000#64)) := by
  decide

end IsoAlloc
