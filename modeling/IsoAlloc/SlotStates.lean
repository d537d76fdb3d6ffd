import IsoAlloc.Init

/-!
The bitmap state machine of one zone. Each slot is a pair of bits, low
("in use") first: `00` never used, `10` allocated, `01` freed with a canary,
`11` canary chunk. Handing out a slot needs its low bit clear and leaves it
`10`; a free needs the low bit set and leaves `01`, or `11` when permanent.
The free tests only the low bit, so a slot in state `11` passes it.
-/

namespace IsoAlloc

namespace Zone

variable {C : Config} {z : Zone}

/-- The bits `(low, high)` of the slot `s`. -/
def slotBits (z : Zone) (s : Nat) : Bool × Bool := (z.lowBit s, z.highBit s)

/-- The number of the zone's slots in state `10`: what `af_count` counts. -/
def allocatedSlots (z : Zone) : Nat :=
  ((List.range (32 * z.getMaxBitmaskIndex)).filter fun n => z.slotBits (2 * n) = (true, false)).length

theorem checkBitmap_eq_ok {bm : Word} {u : Unit} :
    z.checkBitmap bm = .ok u ↔ z.mapped = true ∧ bm = z.bitmapBase := by
  unfold checkBitmap; split <;> simp_all

/-- Spec of `_iso_alloc_bitslot_from_zone`: what a successful call checked,
and that the zone only changes by `markAllocated`. -/
theorem isoAllocBitslotFromZone_ok {h h' : Heap} {bitslot : Nat} {p : Word} {z' : Zone}
    (hok : z.isoAllocBitslotFromZone C h bitslot = .ok (p, z', h')) :
    z.mapped = true ∧ z.bitmapStart = z.bitmapBase ∧
      ¬(z.userPagesStart + BitVec.ofNat 64 C.zoneUserSize).ult (z.pointerFromBitslot bitslot) ∧
      z.lowBit bitslot = false ∧ p = z.pointerFromBitslot bitslot ∧ z' = z.markAllocated bitslot ∧
      z.allocChunkMemory C h (z.bitmap (wordOfSlot bitslot)) (whichBit bitslot) p = .ok h' := by
  simp only [isoAllocBitslotFromZone, pure_bind, throw_bind, ite_throw_eq_ok, bind_eq_ok,
    checkBitmap_eq_ok] at hok
  obtain ⟨-, ⟨hm, hb⟩, hult, hbit, h1, hh1, heq⟩ := hok
  simp only [pure_eq_ok, Prod.mk.injEq] at heq
  obtain ⟨rfl, rfl, rfl⟩ := heq
  exact ⟨hm, hb, hult, by simpa [lowBit] using hbit, rfl, rfl, hh1⟩

/-- Spec of `iso_free_chunk_from_zone`: the checks a successful call passed,
among them that the slot's low bit was set, and that the zone only changes by
`markFreed`. -/
theorem isoFreeChunkFromZone_ok {h h' : Heap} {p : Word} {perm : Bool} {z' : Zone}
    (hok : z.isoFreeChunkFromZone C h p perm = .ok (z', h')) :
    ∃ n, n = (p - z.unmaskUserPtr).toNat / z.chunkSize ∧
      p &&& BitVec.ofNat 64 (C.alignment - 1) = 0 ∧
      (p - z.unmaskUserPtr) &&& BitVec.ofNat 64 (z.chunkSize - 1) = 0 ∧
      wordOfSlot (n <<< 1) ≤ z.bitmapSize >>> 3 ∧
      z.mapped = true ∧ z.unmaskBitmapPtr = z.bitmapBase ∧ z.lowBit (n <<< 1) = true ∧
      z' = z.markFreed (n <<< 1) perm ∧ z'.freeChunkMemory C h p n perm = .ok h' := by
  simp only [isoFreeChunkFromZone, pure_bind, throw_bind, ite_throw_eq_ok, bind_eq_ok,
    checkBitmap_eq_ok] at hok
  obtain ⟨halign, hmul, hw, -, ⟨hm, hb⟩, hbit, h1, hh1, heq⟩ := hok
  simp only [pure_eq_ok, Prod.mk.injEq] at heq
  obtain ⟨rfl, rfl⟩ := heq
  exact ⟨_, rfl, by simpa using halign, by simpa using hmul, Nat.le_of_not_lt hw, hm, hb,
    by simpa [lowBit] using hbit, rfl, hh1⟩

theorem freeChunkMemory_ok {h h' : Heap} {p : Word} {n : Nat} {perm : Bool}
    (hok : z.freeChunkMemory C h p n perm = .ok h') :
    ∃ h1, ((perm || C.sanitizeChunks) = true → z.isoClearUserChunk h p = .ok h1) ∧
      ((perm || C.sanitizeChunks) = false → h1 = h) ∧ z.writeCanary C h1 p = .ok h' := by
  unfold freeChunkMemory at hok
  dsimp only at hok
  split at hok <;> rename_i hc <;> obtain ⟨h1, e1, hok⟩ := bind_eq_ok.1 hok <;>
    obtain ⟨h2, e2, hok⟩ := bind_eq_ok.1 hok <;>
    obtain rfl : h' = h2 := by
      split at hok <;> obtain ⟨_, -, hok⟩ := bind_eq_ok.1 hok <;> split at hok <;>
        obtain ⟨_, -, hok⟩ := bind_eq_ok.1 hok <;> exact (pure_eq_ok.1 hok).symm
  · exact ⟨h1, fun _ => e1, fun hf => by simp [hf] at hc, e2⟩
  · cases pure_eq_ok.1 e1
    exact ⟨h, fun ht => absurd ht hc, fun _ => rfl, e2⟩

theorem slot_eq_iff_whichBit_eq {s t : Nat} (hs : s % 2 = 0) (ht : t % 2 = 0)
    (hw : wordOfSlot s = wordOfSlot t) : whichBit s = whichBit t ↔ s = t := by
  simp only [wordOfSlot_eq, whichBit] at *
  omega

@[simp] theorem insertFreeBitSlot_bitmap (b : Int) : (z.insertFreeBitSlot b).bitmap = z.bitmap := by
  unfold insertFreeBitSlot; split <;> rfl

theorem getBit_slot_word {s t : Nat} (hs : s % 2 = 0) (ht : t % 2 = 0) (w : Word) :
    getBit (unsetBit (setBit w (whichBit t)) (whichBit t + 1)) (whichBit s) =
      (getBit w (whichBit s) || decide (whichBit s = whichBit t)) ∧
    getBit (unsetBit (setBit w (whichBit t)) (whichBit t + 1)) (whichBit s + 1) =
      (getBit w (whichBit s + 1) && !decide (whichBit s = whichBit t)) ∧
    getBit (setBit w (whichBit t + 1)) (whichBit s) = getBit w (whichBit s) ∧
    getBit (setBit w (whichBit t + 1)) (whichBit s + 1) =
      (getBit w (whichBit s + 1) || decide (whichBit s = whichBit t)) ∧
    getBit (unsetBit (setBit w (whichBit t + 1)) (whichBit t)) (whichBit s) =
      (getBit w (whichBit s) && !decide (whichBit s = whichBit t)) ∧
    getBit (unsetBit (setBit w (whichBit t + 1)) (whichBit t)) (whichBit s + 1) =
      (getBit w (whichBit s + 1) || decide (whichBit s = whichBit t)) := by
  have h1 : whichBit s ≠ whichBit t + 1 := by simp only [whichBit]; omega
  have h2 : whichBit s + 1 ≠ whichBit t := by simp only [whichBit]; omega
  have h3 : whichBit t + 1 < 64 := by simp only [whichBit]; omega
  have h4 : whichBit t < 64 := by omega
  by_cases he : whichBit s = whichBit t <;> simp [he, h1, h2, h3, h4]

/-- Handing out slot `t` makes it `10` and leaves the other even slots alone. -/
theorem slotBits_markAllocated {s t : Nat} (hs : s % 2 = 0) (ht : t % 2 = 0) :
    (z.markAllocated t).slotBits s =
      if s = t then (true, false) else z.slotBits s := by
  by_cases hw : wordOfSlot s = wordOfSlot t
  · have key := getBit_slot_word hs ht (z.bitmap (wordOfSlot t))
    have hiff := slot_eq_iff_whichBit_eq hs ht hw
    by_cases hst : s = t
    · subst hst; simp [slotBits, lowBit, highBit, markAllocated, key]
    · simp [slotBits, lowBit, highBit, markAllocated, hw, key, hst, hiff.not.mpr hst]
  · have hst : s ≠ t := fun h => hw (h ▸ rfl)
    simp [slotBits, lowBit, highBit, markAllocated, Function.update_noteq hw, hst]

/-- Freeing slot `t` makes it `11` (permanent) or `01`, whatever it held, and
leaves the other even slots alone. -/
theorem slotBits_markFreed {s t : Nat} (hs : s % 2 = 0) (ht : t % 2 = 0) (perm : Bool) :
    (z.markFreed t perm).slotBits s =
      if s = t then (perm && z.lowBit t, true) else z.slotBits s := by
  by_cases hw : wordOfSlot s = wordOfSlot t
  · have key := getBit_slot_word hs ht (z.bitmap (wordOfSlot t))
    have hiff := slot_eq_iff_whichBit_eq hs ht hw
    by_cases hst : s = t
    · subst hst; cases perm <;> simp [slotBits, lowBit, highBit, markFreed, key]
    · cases perm <;>
        simp [slotBits, lowBit, highBit, markFreed, hw, key, hst, hiff.not.mpr hst]
  · have hst : s ≠ t := fun h => hw (h ▸ rfl)
    cases perm <;> simp [slotBits, lowBit, highBit, markFreed, Function.update_noteq hw, hst]

/-- An internal zone of 8192-byte chunks at `0x7f0000001000` whose slot 0 is
a canary chunk (`11`), as `create_canary_chunks` leaves it when its draw
picks word 0; its cache is empty and no slot is pre-dequeued. -/
def canaryChunkZone : Zone :=
  { zeroed with
    index := 9
    internal := true
    chunkSize := 8192
    bitmapSize := 128
    userPagesStart := 0x7f0000001000#64
    bitmapStart := 0x7e0000001000#64
    canarySecret := 0x1234#64
    freeBitSlotCache := fun _ => badBitSlot
    nextFreeBitSlot := badBitSlot
    bitmap := fun i => if i = 0 then 3#64 else 0
    userBase := 0x7f0000001000#64
    bitmapBase := 0x7e0000001000#64
    mapped := true }

/-- The zone's user pages, with the canary of chunk 0 at both of its ends. -/
def canaryChunkHeap : Heap where
  mem a := if a = 0x7f0000001000#64 ∨ a = 0x7f0000002ff8#64 then
    canaryChunkZone.canaryAt exampleConfig 0x7f0000001000#64 else 0
  acc a := inRange 0x7f0000001000#64 4194304 a

/-- A free of the canary chunk completes, and the next allocation from the
zone (`is_zone_usable`, then `_iso_alloc_bitslot_from_zone` on the slot it
primed) hands the canary chunk out. -/
theorem canary_chunk_freed_and_reissued :
    (do
      let (z, h) ← canaryChunkZone.isoFreeChunkFromZone exampleConfig canaryChunkHeap
        0x7f0000001000#64 false
      let (_, z) ← z.isZoneUsable exampleConfig (fun _ => 0) 8192
      let (q, _, _) ← { z.maskZonePtrs with nextFreeBitSlot := badBitSlot }.isoAllocBitslotFromZone
        exampleConfig h z.nextFreeBitSlot.toNat
      pure q).toOption = some 0x7f0000001000#64 := by
  decide

end Zone

end IsoAlloc
