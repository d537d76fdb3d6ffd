import IsoAlloc.Zone

/-!
The free bit-slot cache of a zone and the bitmap scans behind it:
`fill_free_bit_slot_cache` with its two loops and three exits, the optional
Fisher-Yates pass, `insert_free_bit_slot`, `get_next_free_bit_slot`, the fast
and slow scans and `is_zone_usable`. Every `rand_uint64()` call reads the
stream `rand`; the loops recurse on the list of words or slots they visit.
-/

namespace IsoAlloc

namespace Zone

variable (C : Config) (z : Zone)

/-- A bitmap access through the stored base `bm` faults unless `bm` is the
real base of a mapped bitmap. -/
def checkBitmap (bm : Word) : Except Stop Unit :=
  if z.mapped ∧ bm = z.bitmapBase then pure () else throw (.segv bm)

/-- The even offsets `0, 2, ..., 62` that the slot loops visit. -/
def slotOffsets : List Nat := (List.range 32).map (2 * ·)

/-- The refill's inner loop over the slots `js` of word `i`, whose value is
`w`. `.inl` is the early return taken when the cache is already full. -/
def fillWord (w : Word) (i : Nat) :
    List Nat → (Nat → Int) → Nat → ((Nat → Int) × Nat) ⊕ ((Nat → Int) × Nat)
  | [], cache, idx => .inr (cache, idx)
  | j :: js, cache, idx =>
    if bitSlotCacheSz ≤ idx then .inl (cache, idx)
    else if getBit w j = false then
      fillWord w i js (Function.update cache idx ((i * 64 + j : Nat) : Int)) (idx + 1)
    else fillWord w i js cache idx

/-- The refill's outer loop over the words `words`. The flag is `true` only
on the loop's normal exit (the cache filled at the end of a word), the one
exit that runs the shuffle. -/
def fillWords (bm : Nat → Word) : List Nat → (Nat → Int) → Nat → (Nat → Int) × Nat × Bool
  | [], cache, idx => (cache, idx, !decide (idx < bitSlotCacheSz))
  | i :: rest, cache, idx =>
    if idx < bitSlotCacheSz then
      match fillWord (bm i) i slotOffsets cache idx with
      | .inl (c, k) => (c, k, false)
      | .inr (c, k) => fillWords bm rest c k
    else (cache, idx, true)

/-- Exchange entries `i` and `j`. -/
def swapEntries (cache : Nat → Int) (i j : Nat) : Nat → Int :=
  fun k => if k = i then cache j else if k = j then cache i else cache k

/-- The Fisher-Yates pass for `i = n, n - 1, ..., 1`. -/
def shuffleCache (rand : Nat → Word) : Nat → (Nat → Int) → (Nat → Int)
  | 0, cache => cache
  | n + 1, cache => shuffleCache rand n (swapEntries cache (n + 1) ((rand (n + 1)).toNat % (n + 2)))

/-- The random start word of the refill. -/
def fillStart (rand : Nat → Word) (m : Nat) : Nat :=
  if m > C.alignment then ((rand 0).toNat % 0x100000000 * (m - 1)) >>> 32 else 0

/-- `fill_free_bit_slot_cache`. -/
def fillFreeBitSlotCache (rand : Nat → Word) : Except Stop Zone := do
  z.checkBitmap z.bitmapStart
  let m := z.getMaxBitmaskIndex
  let b := fillStart C rand m
  let r := fillWords z.bitmap (List.range' b (m - b)) (fun _ => badBitSlot) 0
  let cache :=
    if C.shuffleBitSlotCache && r.2.2 && decide (1 < r.2.1) then shuffleCache rand (r.2.1 - 1) r.1
    else r.1
  pure { z with freeBitSlotCache := cache, freeBitSlotCacheUsable := 0,
                freeBitSlotCacheIndex := r.2.1 }

/-- `insert_free_bit_slot`: append at the write cursor unless it is at the end. -/
def insertFreeBitSlot (bitSlot : Int) : Zone :=
  if bitSlotCacheSz ≤ z.freeBitSlotCacheIndex then z
  else { z with
    freeBitSlotCache := Function.update z.freeBitSlotCache z.freeBitSlotCacheIndex bitSlot,
    freeBitSlotCacheIndex := z.freeBitSlotCacheIndex + 1 }

/-- `get_next_free_bit_slot`: dequeue at the read cursor into `next_free_bit_slot`. -/
def getNextFreeBitSlot : Int × Zone :=
  if bitSlotCacheSz ≤ z.freeBitSlotCacheUsable ∨
      z.freeBitSlotCacheIndex < z.freeBitSlotCacheUsable then (badBitSlot, z)
  else
    let s := z.freeBitSlotCache z.freeBitSlotCacheUsable
    (s, { z with
      nextFreeBitSlot := s,
      freeBitSlotCache := Function.update z.freeBitSlotCache z.freeBitSlotCacheUsable badBitSlot,
      freeBitSlotCacheUsable := z.freeBitSlotCacheUsable + 1 })

/-- `iso_scan_zone_free_slot`: the first slot of the first all-zero word. -/
def isoScanZoneFreeSlot : Except Stop Int := do
  z.checkBitmap z.bitmapStart
  match (List.range z.getMaxBitmaskIndex).find? (fun i => z.bitmap i == 0) with
  | some i => pure ((i * 64 : Nat) : Int)
  | none => pure badBitSlot

/-- The slot the slow scan takes in word `w` (index `i`): the first with low
bit 0, in a word that compares below `ALLOCATED_BITSLOTS` as a signed value. -/
def slowScanWord (w : Word) (i : Nat) : Option Nat :=
  if w.slt allocatedBitslots then (slotOffsets.find? (fun j => !getBit w j)).map (i * 64 + ·)
  else none

/-- `iso_scan_zone_free_slot_slow`. -/
def isoScanZoneFreeSlotSlow : Except Stop Int := do
  z.checkBitmap z.bitmapStart
  match (List.range z.getMaxBitmaskIndex).findSome? (fun i => slowScanWord (z.bitmap i) i) with
  | some s => pure (s : Int)
  | none => pure badBitSlot

/-- The refill of `is_zone_usable`, taken when the cache is empty. -/
def refillIfEmpty (rand : Nat → Word) : Except Stop Zone :=
  if z.freeBitSlotCacheIndex ≤ z.freeBitSlotCacheUsable then z.fillFreeBitSlotCache C rand
  else pure z

/-- `is_zone_usable`: `true` when the zone is returned, with the zone after
the call (it may have refilled, set `next_free_bit_slot` or set `is_full`). -/
def isZoneUsable (rand : Nat → Word) (size : Nat) : Except Stop (Bool × Zone) := do
  if z.isFull then return (false, z)
  if z.internal ∧ zone1024 < size ∧ size <<< C.wastedSzMultiplierShift ≤ z.chunkSize then
    return (false, z)
  if z.nextFreeBitSlot ≠ badBitSlot then return (true, z)
  let z1 := z.maskZonePtrs
  let z2 ← z1.refillIfEmpty C rand
  let (s, z3) := z2.getNextFreeBitSlot
  if s ≠ badBitSlot then return (true, z3.maskZonePtrs)
  let fast ← z3.isoScanZoneFreeSlot
  if fast = badBitSlot then
    let slow ← z3.isoScanZoneFreeSlotSlow
    let z4 := z3.maskZonePtrs
    if slow = badBitSlot then return (false, { z4 with isFull := true })
    else return (true, { z4 with nextFreeBitSlot := slow })
  else return (true, { z3 with nextFreeBitSlot := fast }.maskZonePtrs)

/-- `iso_does_zone_fit`, with `CPU_PIN` off. -/
def isoDoesZoneFit (rand : Nat → Word) (size : Nat) : Except Stop (Bool × Zone) :=
  if zone1024 ≤ z.chunkSize ∧ size ≤ zone128 then pure (false, z)
  else if z.chunkSize < size ∨ z.internal = false ∨ z.isFull then pure (false, z)
  else z.isZoneUsable C rand size

end Zone

end IsoAlloc
