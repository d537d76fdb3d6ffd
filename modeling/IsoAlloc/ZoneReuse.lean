import IsoAlloc.ZoneFrames

/-!
Destroying a private zone in a build that reuses zones
(`_iso_alloc_destroy_zone_unlocked` without `NEVER_REUSE_ZONES`). The code
wipes the bitmap and the user pages through the unmasked bases, then re-seeds
the record as an internal zone: canary chunks, a refilled cache, a
pre-dequeued slot, the bases masked again. Only then does it `madvise` the
bitmap and the user pages, through the re-masked fields, and it never resets
`af_count`. A two-zone root below shows each of the three effects.
-/

namespace IsoAlloc

namespace Zone

variable {C : Config} {z z' : Zone}

/-- Every word of the bitmap is empty or holds exactly one canary chunk, in
its slot 0: what wiping and `create_canary_chunks` leave. -/
def CanaryWords (z : Zone) : Prop := ∀ w < z.getMaxBitmaskIndex, z.bitmap w = 0 ∨ z.bitmap w = 3

theorem slot_not_allocated_of_canary_word {w : Word} (hw : w = 0 ∨ w = 3) (j : Nat) (hj : j < 32) :
    (getBit w (2 * j), getBit w (2 * j + 1)) ≠ (true, false) := by
  rcases hw with rfl | rfl
  · simp [getBit]
  · revert j; decide

theorem allocatedSlots_eq_zero (h : z.CanaryWords) : z.allocatedSlots = 0 := by
  simp only [allocatedSlots, List.length_eq_zero, List.filter_eq_nil_iff, List.mem_range,
    decide_eq_true_eq]
  intro n hn
  have hw : wordOfSlot (2 * n) < z.getMaxBitmaskIndex := by rw [wordOfSlot_eq]; omega
  have hb : whichBit (2 * n) = 2 * (n % 32) := by simp only [whichBit]; omega
  simpa [slotBits, lowBit, highBit, hb] using
    slot_not_allocated_of_canary_word (h _ hw) (n % 32) (Nat.mod_lt _ (by decide))

theorem CanaryWords.addCanaryChunk {h h' : Heap} {i : Nat} (hz : z.CanaryWords)
    (hok : z.addCanaryChunk C h i = .ok (z', h')) : z'.CanaryWords := by
  unfold Zone.addCanaryChunk at hok
  split at hok
  · rw [← (Prod.mk.inj (pure_eq_ok.1 hok)).1]; exact hz
  · simp only [bind_eq_ok, pure_eq_ok, Prod.mk.injEq] at hok
    obtain ⟨-, -, rfl, -⟩ := hok
    intro w hw
    by_cases hwi : w = i
    · subst hwi
      rcases hz w hw with h0 | h3
      · right; simp [h0, setBit]
      · simp_all [getBit]
    · simpa [Function.update_noteq hwi] using hz w hw

theorem CanaryWords.canaryLoop {rand : Nat → Word} {k n : Nat} {h h' : Heap}
    (hz : z.CanaryWords) (hok : z.canaryLoop C rand k n h = .ok (z', h')) : z'.CanaryWords := by
  induction k generalizing n z h with
  | zero => simp only [Zone.canaryLoop, pure_eq_ok, Prod.mk.injEq] at hok; rw [← hok.1]; exact hz
  | succ k ih =>
    simp only [Zone.canaryLoop, bind_eq_ok] at hok
    obtain ⟨⟨z1, h1⟩, h1ok, hrest⟩ := hok
    exact ih (hz.addCanaryChunk h1ok) hrest

theorem CanaryWords.createCanaryChunks {rand : Nat → Word} {h h' : Heap} (hz : z.CanaryWords)
    (hok : z.createCanaryChunks C rand h = .ok (z', h')) : z'.CanaryWords := by
  unfold Zone.createCanaryChunks at hok
  split at hok
  · rw [← (Prod.mk.inj (pure_eq_ok.1 hok)).1]; exact hz
  · obtain ⟨-, -, hloop⟩ := bind_eq_ok.1 hok
    exact hz.canaryLoop hloop

theorem CanaryWords.slotBookkeeping (hz : z.CanaryWords) (h : SlotBookkeeping z z') :
    z'.CanaryWords := by
  rw [h]; exact hz

theorem CanaryWords.bitmapAfterMadvise {a : Word} {len : Nat} (hz : z.CanaryWords) :
    ({ z with bitmap := Root.Zone.bitmapAfterMadvise a len z } : Zone).CanaryWords := by
  intro w hw
  simp only [Root.Zone.bitmapAfterMadvise]
  split
  · exact .inl rfl
  · exact hz w hw

end Zone

namespace Root

variable {C : Config} {r r' : Root} {env : NewZoneEnv} {i : Nat} {replace : Bool}

/-- Destroying a private zone in a build that reuses zones: the wipe, the
re-seeding, and the two `madvise` calls through the record's stored fields. -/
theorem isoAllocDestroyZoneUnlocked_private_ok (hC : C.neverReuseZones = false)
    (hpriv : (r.zones i).internal = false)
    (hok : r.isoAllocDestroyZoneUnlocked C env i replace = .ok r') :
    ∃ h z1 h1 z2,
      r.heap.memset (r.zones i).unmaskUserPtr 0 C.zoneUserSize = .ok h ∧
      { (r.zones i).maskZonePtrs with
          bitmap := fun k => if k < (r.zones i).getMaxBitmaskIndex then 0 else (r.zones i).bitmap k,
          internal := true, isFull := false }.createCanaryChunks C env.canaryRand h = .ok (z1, h1) ∧
      z1.fillFreeBitSlotCache C env.fillRand = .ok z2 ∧
      r' = (({ r with heap := h1 }.setZone i z2.getNextFreeBitSlot.2.maskZonePtrs).madviseDontneed
              (r.zones i).bitmapStart (r.zones i).bitmapSize).madviseDontneed
              (r.zones i).userPagesStart C.zoneUserSize := by
  simp only [isoAllocDestroyZoneUnlocked, Zone.maskZonePtrs_internal, hpriv, if_true,
    bind_eq_ok] at hok
  obtain ⟨-, -, h, hmem, hdp⟩ := hok
  simp only [destroyPrivate, hC, Bool.false_eq_true, if_false, bind_eq_ok, pure_eq_ok] at hdp
  obtain ⟨⟨z1, h1⟩, hcan, z2, hfill, rfl⟩ := hdp
  refine ⟨h, z1, h1, z2, hmem, hcan, hfill, ?_⟩
  have e := (Zone.SlotBookkeeping.fill hfill).trans (.getNextFreeBitSlot z2)
  have key : z2.getNextFreeBitSlot.2.maskZonePtrs.bitmapStart = (r.zones i).bitmapStart ∧
      z2.getNextFreeBitSlot.2.maskZonePtrs.bitmapSize = (r.zones i).bitmapSize ∧
      z2.getNextFreeBitSlot.2.maskZonePtrs.userPagesStart = (r.zones i).userPagesStart := by
    rw [e, Zone.createCanaryChunks_ok hcan]
    simp [Zone.maskZonePtrs, BitVec.xor_assoc]
  rw [key.1, key.2.1, key.2.2]

/-- Destroying a private zone keeps its `af_count`, yet leaves no slot of the
re-seeded zone allocated: after destroying a zone that still had live chunks
the counter no longer counts the `10` slots. -/
theorem destroy_private_keeps_af_count (hC : C.neverReuseZones = false)
    (hpriv : (r.zones i).internal = false)
    (hok : r.isoAllocDestroyZoneUnlocked C env i replace = .ok r') :
    (r'.zones i).afCount = (r.zones i).afCount ∧ (r'.zones i).allocatedSlots = 0 := by
  obtain ⟨h, z1, h1, z2, -, hcan, hfill, rfl⟩ := isoAllocDestroyZoneUnlocked_private_ok hC hpriv hok
  have e := (Zone.SlotBookkeeping.fill hfill).trans (.getNextFreeBitSlot z2)
  have hwiped : Zone.CanaryWords { (r.zones i).maskZonePtrs with
      bitmap := fun k => if k < (r.zones i).getMaxBitmaskIndex then 0 else (r.zones i).bitmap k,
      internal := true, isFull := false } := fun w hw => .inl (if_pos hw)
  have h3 := (hwiped.createCanaryChunks hcan).slotBookkeeping e
  refine ⟨?_, Zone.allocatedSlots_eq_zero ?_⟩
  · simp only [madviseDontneed_zones, setZone_zones_same]
    rw [e, Zone.createCanaryChunks_ok hcan]; rfl
  · simp only [madviseDontneed_zones, setZone_zones_same]
    exact (h3.bitmapAfterMadvise (z := z2.getNextFreeBitSlot.2.maskZonePtrs)).bitmapAfterMadvise

/-- Destroying a private zone whose record is masked `madvise`s the ranges at
its real bases XOR its `pointer_mask`, not at the real bases. -/
theorem destroy_private_madvises_masked_bases (hC : C.neverReuseZones = false)
    (hpriv : (r.zones i).internal = false) (hm : (r.zones i).Masked)
    (hok : r.isoAllocDestroyZoneUnlocked C env i replace = .ok r') :
    r'.osCalls = r.osCalls ++
      [.madvise ((r.zones i).bitmapBase ^^^ (r.zones i).pointerMask) (r.zones i).bitmapSize,
       .madvise ((r.zones i).userBase ^^^ (r.zones i).pointerMask) C.zoneUserSize] := by
  obtain ⟨-, -, -, -, -, -, -, rfl⟩ := isoAllocDestroyZoneUnlocked_private_ok hC hpriv hok
  simp [setZone, ← hm.1, ← hm.2]

/-- Every slot with its high bit set, in every zone in use, holds the canary
of its chunk at both ends of the chunk: `check_canary` on it passes. -/
def CanariesIntact (C : Config) (r : Root) : Prop :=
  ∀ i < r.zonesUsed, ∀ n < 32 * (r.zones i).getMaxBitmaskIndex, (r.zones i).highBit (2 * n) = true →
    ((r.zones i).checkCanary C r.heap
      ((r.zones i).userBase + BitVec.ofNat 64 (n * (r.zones i).chunkSize))).toOption = some ()

instance (C : Config) (r : Root) : Decidable (CanariesIntact C r) :=
  inferInstanceAs (Decidable (∀ i < r.zonesUsed, ∀ n < 32 * (r.zones i).getMaxBitmaskIndex,
    (r.zones i).highBit (2 * n) = true → ((r.zones i).checkCanary C r.heap
      ((r.zones i).userBase + BitVec.ofNat 64 (n * (r.zones i).chunkSize))).toOption = some ()))

/-- A private zone of 8192-byte chunks with user pages at `0x7f0000001000`,
stored masked with `pointer_mask = 2^32`, whose chunk 1 is allocated. -/
def reusedZone : Zone :=
  { Zone.zeroed with
    index := 0
    internal := false
    chunkSize := 8192
    bitmapSize := 128
    userPagesStart := 0x7f0000001000#64 ^^^ 0x100000000#64
    bitmapStart := 0x7e0000001000#64 ^^^ 0x100000000#64
    pointerMask := 0x100000000#64
    canarySecret := 0x1111#64
    freeBitSlotCache := fun _ => badBitSlot
    nextFreeBitSlot := 4
    bitmap := fun i => if i = 0 then 4#64 else 0
    afCount := 1
    allocCount := 1
    userBase := 0x7f0000001000#64
    bitmapBase := 0x7e0000001000#64
    mapped := true }

/-- An internal zone of 8192-byte chunks, unmasked, whose user pages start
where the first zone's masked user base points; chunk 0 is a canary chunk. -/
def neighbourZone : Zone :=
  { Zone.zeroed with
    index := 1
    internal := true
    chunkSize := 8192
    bitmapSize := 128
    userPagesStart := 0x7f0100001000#64
    bitmapStart := 0x7e0000101000#64
    canarySecret := 0x2222#64
    freeBitSlotCache := fun _ => badBitSlot
    nextFreeBitSlot := 2
    bitmap := fun i => if i = 0 then 3#64 else 0
    userBase := 0x7f0100001000#64
    bitmapBase := 0x7e0000101000#64
    mapped := true }

/-- Both zones' user pages; the canary chunk holds its canary. -/
def twoZoneHeap : Heap where
  mem a := if a = 0x7f0100001000#64 ∨ a = 0x7f0100002ff8#64 then
    neighbourZone.canaryAt exampleConfig 0x7f0100001000#64 else 0
  acc a := inRange 0x7f0000001000#64 4194304 a || inRange 0x7f0100001000#64 4194304 a

/-- The root holding the two zones. -/
def twoZoneRoot : Root :=
  { Root.empty 4096 twoZoneHeap with
    zones := fun i => if i = 0 then reusedZone else if i = 1 then neighbourZone else Zone.zeroed
    zonesUsed := 2 }

/-- The draws of the re-seeding: the canary goes to word 0, the refill starts at word 0. -/
def reuseEnv : NewZoneEnv where
  bitmapMap := 0
  userMap := 0
  canarySecret := 0
  pointerMask := 0
  canaryRand _ := 0
  fillRand _ := 0

theorem twoZoneRoot_destroy_isOk :
    (twoZoneRoot.isoAllocDestroyZoneUnlocked exampleConfig reuseEnv 0 false).isOk = true := by
  decide

set_option maxRecDepth 4000 in
/-- Destroying the first zone, whose counter is right (one chunk, one `10`
slot), leaves a record that still counts one chunk and has none. -/
theorem two_zone_destroy_keeps_af_count :
    (twoZoneRoot.zones 0).allocatedSlots = 1 ∧
    ∃ r', twoZoneRoot.isoAllocDestroyZoneUnlocked exampleConfig reuseEnv 0 false = .ok r' ∧
      (r'.zones 0).afCount = 1 ∧ (r'.zones 0).allocatedSlots = 0 := by
  obtain ⟨r', h⟩ := exists_eq_ok_of_isOk twoZoneRoot_destroy_isOk
  exact ⟨by decide, r', h, destroy_private_keeps_af_count rfl rfl h⟩

/-- Destroying the first zone `madvise`s its bitmap and its user pages at
the masked addresses, which are not where they are mapped. -/
theorem two_zone_destroy_madvises_masked :
    ∃ r', twoZoneRoot.isoAllocDestroyZoneUnlocked exampleConfig reuseEnv 0 false = .ok r' ∧
      r'.osCalls = [.madvise 0x7e0100001000#64 128, .madvise 0x7f0100001000#64 4194304] := by
  obtain ⟨r', h⟩ := exists_eq_ok_of_isOk twoZoneRoot_destroy_isOk
  exact ⟨r', h, destroy_private_madvises_masked_bases rfl rfl ⟨rfl, rfl⟩ h⟩

set_option maxRecDepth 4000 in
/-- Before the first zone is destroyed every canary is in place; after it,
the canary of the second zone's chunk 0 is gone. -/
theorem two_zone_destroy_erases_neighbour_canary :
    CanariesIntact exampleConfig twoZoneRoot ∧
    ∃ r', twoZoneRoot.isoAllocDestroyZoneUnlocked exampleConfig reuseEnv 0 false = .ok r' ∧
      ¬CanariesIntact exampleConfig r' := by
  obtain ⟨r', h⟩ := exists_eq_ok_of_isOk twoZoneRoot_destroy_isOk
  have hafter : (twoZoneRoot.isoAllocDestroyZoneUnlocked exampleConfig reuseEnv 0 false).toOption.map
      (fun r => decide (CanariesIntact exampleConfig r)) = some false := by decide
  rw [h] at hafter
  exact ⟨by decide, r', h, by simpa [Except.toOption] using hafter⟩

end Root

end IsoAlloc
