import IsoAlloc.SlotStates

/-!
What each zone helper may change. Every lemma states the new record as the
old one with a few named fields replaced, so that a later proof reads any
other field through `rw` or `simp` without unfolding the helper.
-/

namespace IsoAlloc

namespace Zone

variable {C : Config} {z z' z'' : Zone}

theorem insertFreeBitSlot_eq (b : Int) : z.insertFreeBitSlot b =
    { z with freeBitSlotCache := (z.insertFreeBitSlot b).freeBitSlotCache,
             freeBitSlotCacheIndex := (z.insertFreeBitSlot b).freeBitSlotCacheIndex } := by
  unfold insertFreeBitSlot; split <;> rfl

theorem getNextFreeBitSlot_snd_eq : z.getNextFreeBitSlot.2 =
    { z with nextFreeBitSlot := z.getNextFreeBitSlot.2.nextFreeBitSlot,
             freeBitSlotCache := z.getNextFreeBitSlot.2.freeBitSlotCache,
             freeBitSlotCacheUsable := z.getNextFreeBitSlot.2.freeBitSlotCacheUsable } := by
  unfold getNextFreeBitSlot; split <;> rfl

theorem fillFreeBitSlotCache_ok {rand : Nat → Word}
    (h : z.fillFreeBitSlotCache C rand = .ok z') :
    z.mapped = true ∧ z.bitmapStart = z.bitmapBase ∧
      z' = { z with freeBitSlotCache := z'.freeBitSlotCache, freeBitSlotCacheUsable := 0,
                    freeBitSlotCacheIndex := z'.freeBitSlotCacheIndex } := by
  simp only [fillFreeBitSlotCache, bind_eq_ok, checkBitmap_eq_ok, pure_eq_ok] at h
  obtain ⟨-, ⟨hm, hb⟩, rfl⟩ := h
  exact ⟨hm, hb, rfl⟩

theorem addCanaryChunk_ok {h h' : Heap} {i : Nat}
    (hok : z.addCanaryChunk C h i = .ok (z', h')) : z' = { z with bitmap := z'.bitmap } := by
  unfold addCanaryChunk at hok
  split at hok
  · simp only [pure_eq_ok, Prod.mk.injEq] at hok; rw [← hok.1]
  · simp only [bind_eq_ok, pure_eq_ok, Prod.mk.injEq] at hok
    obtain ⟨-, -, rfl, -⟩ := hok; rfl

theorem canaryLoop_ok {rand : Nat → Word} {k n : Nat} {h h' : Heap}
    (hok : canaryLoop C rand k n z h = .ok (z', h')) : z' = { z with bitmap := z'.bitmap } := by
  induction k generalizing n z h with
  | zero =>
    simp only [canaryLoop, pure_eq_ok, Prod.mk.injEq] at hok; rw [← hok.1]
  | succ k ih =>
    simp only [canaryLoop, bind_eq_ok] at hok
    obtain ⟨⟨z1, h1⟩, h1ok, hrest⟩ := hok
    rw [ih hrest, addCanaryChunk_ok h1ok]

theorem createCanaryChunks_ok {rand : Nat → Word} {h h' : Heap}
    (hok : z.createCanaryChunks C rand h = .ok (z', h')) : z' = { z with bitmap := z'.bitmap } := by
  unfold createCanaryChunks at hok
  split at hok
  · simp only [pure_eq_ok, Prod.mk.injEq] at hok; rw [← hok.1]
  · simp only [bind_eq_ok] at hok
    obtain ⟨-, -, hloop⟩ := hok
    exact canaryLoop_ok hloop

/-- Everything `is_zone_usable` can do: return early without a change, or
refill, dequeue and fall back to the fast and then the slow scan. -/
theorem isZoneUsable_ok {rand : Nat → Word} {size : Nat} {b : Bool}
    (h : z.isZoneUsable C rand size = .ok (b, z')) :
    (b = false ∧ z' = z) ∨ (b = true ∧ z' = z ∧ z.nextFreeBitSlot ≠ badBitSlot) ∨
    (z.nextFreeBitSlot = badBitSlot ∧ ∃ z2, z.maskZonePtrs.refillIfEmpty C rand = .ok z2 ∧
      let (s, z3) := z2.getNextFreeBitSlot
      (s ≠ badBitSlot ∧ b = true ∧ z' = z3.maskZonePtrs) ∨
      (s = badBitSlot ∧ ∃ fast, z3.isoScanZoneFreeSlot = .ok fast ∧
        ((fast = badBitSlot ∧ ∃ slow, z3.isoScanZoneFreeSlotSlow = .ok slow ∧
            ((slow = badBitSlot ∧ b = false ∧ z' = { z3.maskZonePtrs with isFull := true }) ∨
             (slow ≠ badBitSlot ∧ b = true ∧ z' = { z3.maskZonePtrs with nextFreeBitSlot := slow }))) ∨
         (fast ≠ badBitSlot ∧ b = true ∧ z' = { z3 with nextFreeBitSlot := fast }.maskZonePtrs)))) := by
  simp only [isZoneUsable, pure_bind, bind_eq_ok, ite_eq_iff, pure_eq_ok, Prod.mk.injEq] at h
  rcases h with ⟨-, rfl, rfl⟩ | ⟨-, ⟨-, rfl, rfl⟩ | ⟨-, ⟨hn, rfl, rfl⟩ | ⟨hn, z2, hz2, h⟩⟩⟩
  · exact .inl ⟨rfl, rfl⟩
  · exact .inl ⟨rfl, rfl⟩
  · exact .inr (.inl ⟨rfl, rfl, hn⟩)
  · refine .inr (.inr ⟨not_not.1 hn, z2, hz2, ?_⟩)
    rcases h with ⟨hs, rfl, rfl⟩ | ⟨hs, fast, hfast, ⟨hf, slow, hslow, ⟨hsl, rfl, rfl⟩ | ⟨hsl, rfl, rfl⟩⟩ | ⟨hf, rfl, rfl⟩⟩
    · exact .inl ⟨hs, rfl, rfl⟩
    · exact .inr ⟨not_not.1 hs, fast, hfast, .inl ⟨hf, slow, hslow, .inl ⟨hsl, rfl, rfl⟩⟩⟩
    · exact .inr ⟨not_not.1 hs, fast, hfast, .inl ⟨hf, slow, hslow, .inr ⟨hsl, rfl, rfl⟩⟩⟩
    · exact .inr ⟨not_not.1 hs, fast, hfast, .inr ⟨hf, rfl, rfl⟩⟩
/-- `z'` is `z` with at most its free-slot bookkeeping changed: the cache, its
two cursors, the pre-dequeued slot and the full flag. -/
def SlotBookkeeping (z z' : Zone) : Prop :=
  z' = { z with freeBitSlotCache := z'.freeBitSlotCache,
                freeBitSlotCacheUsable := z'.freeBitSlotCacheUsable,
                freeBitSlotCacheIndex := z'.freeBitSlotCacheIndex,
                nextFreeBitSlot := z'.nextFreeBitSlot, isFull := z'.isFull }

namespace SlotBookkeeping

theorem refl (z : Zone) : SlotBookkeeping z z := rfl

theorem trans (h1 : SlotBookkeeping z z') (h2 : SlotBookkeeping z' z'') :
    SlotBookkeeping z z'' := by
  unfold SlotBookkeeping at *
  rw [h2, h1]

theorem maskZonePtrs (h : SlotBookkeeping z z') :
    SlotBookkeeping z.maskZonePtrs z'.maskZonePtrs := by
  unfold SlotBookkeeping at *
  rw [h]; rfl

theorem fill {rand : Nat → Word} (h : z.fillFreeBitSlotCache C rand = .ok z') :
    SlotBookkeeping z z' := by
  obtain ⟨-, -, hz⟩ := fillFreeBitSlotCache_ok h
  unfold SlotBookkeeping
  rw [hz]

theorem refillIfEmpty {rand : Nat → Word} (h : z.refillIfEmpty C rand = .ok z') :
    SlotBookkeeping z z' := by
  unfold Zone.refillIfEmpty at h
  split at h
  · exact fill h
  · rw [← pure_eq_ok.1 h]; exact refl z

theorem getNextFreeBitSlot (z : Zone) : SlotBookkeeping z z.getNextFreeBitSlot.2 := by
  unfold SlotBookkeeping Zone.getNextFreeBitSlot; split <;> rfl

end SlotBookkeeping

theorem isZoneUsable_slotBookkeeping {rand : Nat → Word} {size : Nat} {b : Bool}
    (h : z.isZoneUsable C rand size = .ok (b, z')) : SlotBookkeeping z z' := by
  rcases isZoneUsable_ok h with ⟨-, rfl⟩ | ⟨-, rfl, -⟩ | ⟨-, z2, hz2, h⟩
  · exact .refl _
  · exact .refl _
  have h3 : SlotBookkeeping z z2.getNextFreeBitSlot.2.maskZonePtrs := by
    simpa using ((SlotBookkeeping.refillIfEmpty hz2).trans
      (.getNextFreeBitSlot z2)).maskZonePtrs
  rcases h with ⟨-, -, rfl⟩ | ⟨-, fast, -, ⟨-, slow, -, ⟨-, -, rfl⟩ | ⟨-, -, rfl⟩⟩ | ⟨-, -, rfl⟩⟩
  · exact h3
  · exact h3.trans rfl
  · exact h3.trans rfl
  · exact h3.trans rfl

end Zone

end IsoAlloc
