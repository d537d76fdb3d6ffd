import IsoAlloc.ZoneCache

/-!
Two paths of the refill and the scans that miss what they are for. The slow
scan compares each bitmap word, as a signed value, below
`ALLOCATED_BITSLOTS = 0x5555555555555555` before it looks for a slot with a
clear low bit, so it skips a word whose top slots are set however many of its
other slots are free; `is_zone_usable` then marks a zone full that has free
slots. The refill shuffles its cache only on the loop's normal exit, when the
255th slot is the last slot of a word: its two early returns skip the pass.
-/

namespace IsoAlloc

/-- A zone of 512 chunks of 8 KiB whose cache is empty: word 0 has slots 0 to
29 free, a canary in slot 30 and an allocated slot 31; words 1 to 15 are fully
allocated. -/
def skippedWordZone : Zone :=
  { Zone.zeroed with
    internal := true, chunkSize := 8192, bitmapSize := 128, mapped := true,
    bitmapStart := 0x600000001000#64, bitmapBase := 0x600000001000#64,
    userPagesStart := 0x700000001000#64, userBase := 0x700000001000#64,
    nextFreeBitSlot := badBitSlot, freeBitSlotCache := fun _ => badBitSlot,
    bitmap := fun w => if w = 0 then 0x7000000000000000#64 else if w < 16 then 0x5555555555555555#64 else 0 }

/-- Slot 0 of the zone is free, yet the slow scan finds nothing, and
`is_zone_usable`, whose refill starts at word 7, refuses the zone and sets
`is_full` while slot 0 stays free. -/
theorem zone_marked_full_with_free_slot :
    skippedWordZone.lowBit 0 = false ∧ skippedWordZone.isoScanZoneFreeSlotSlow.toOption = some badBitSlot ∧
      (skippedWordZone.isZoneUsable exampleConfig (fun _ => 0x80000000#64) 8192).toOption.map
        (fun x => (x.1, x.2.isFull, x.2.lowBit 0)) = some (false, true, false) :=
  ⟨by decide, by decide, by decide⟩

/-- A zone of one 128 KiB chunk with its one bitmap word clear. -/
def clearWordZone : Zone :=
  { Zone.zeroed with
    internal := true, chunkSize := 131072, bitmapSize := 8, mapped := true,
    bitmapStart := 0x600000001000#64, bitmapBase := 0x600000001000#64,
    userPagesStart := 0x700000001000#64, userBase := 0x700000001000#64,
    nextFreeBitSlot := badBitSlot, freeBitSlotCache := fun _ => badBitSlot }

/-- With `SHUFFLE_BIT_SLOT_CACHE` on, the refill of that zone queues its 32
slots and returns at the end of the bitmap, leaving them in increasing order,
though the Fisher-Yates pass with the same draws would reorder them. -/
theorem refill_skips_shuffle :
    (clearWordZone.fillFreeBitSlotCache { exampleConfig with shuffleBitSlotCache := true }
        (fun _ => 0)).toOption.map (fun z => ((List.range 32).map z.freeBitSlotCache, z.freeBitSlotCacheIndex)) =
      some ((List.range 32).map (fun k => ((2 * k : Nat) : Int)), 32) ∧
    (List.range 32).map (Zone.shuffleCache (fun _ => 0) 31 fun k => ((2 * k : Nat) : Int)) ≠
      (List.range 32).map (fun k => ((2 * k : Nat) : Int)) :=
  ⟨by decide, by decide⟩

end IsoAlloc
