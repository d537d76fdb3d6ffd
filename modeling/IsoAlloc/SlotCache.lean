import IsoAlloc.DoubleFree
import IsoAlloc.ZoneReuse

/-!
The free bit-slot cache. The queue `free_bit_slot_cache[usable .. index)`
and the pre-dequeued `next_free_bit_slot` hold distinct even bit slots of the
bitmap whose low bit is clear, the entries from `index` on are
`BAD_BIT_SLOT`, and the bitmap words past `GET_MAX_BITMASK_INDEX` stay clear.
A bit slot is `(word << 6) + offset`, so the slots of a bitmap of `m` words
run below `64 * m`; the refill, which stores `i * 64 + j`, fills the cache
with slots up to that bound. The refill, the dequeue, the scans, an
allocation, a free, a `madvise` and the re-seeding with canary chunks each
keep the invariant, and a refill of a zone whose words are clear or canary
words always queues a slot.
-/

namespace IsoAlloc

open Relation

namespace Zone

variable {C : Config} {z z' : Zone} {s : Int}

/-- A slot the zone may hand out: an even bit slot of its bitmap whose low
bit is clear. -/
def FreeSlot (z : Zone) (s : Int) : Prop :=
  ∃ n : Nat, s = n ∧ n % 2 = 0 ∧ n < 64 * z.getMaxBitmaskIndex ∧ z.lowBit n = false

theorem FreeSlot.ne_bad (h : z.FreeSlot s) : s ≠ badBitSlot := by
  obtain ⟨n, rfl, -⟩ := h
  simp only [badBitSlot]; omega

/-- The queue `[usable, index)` holds distinct free slots, the entries from
`index` on are `BAD_BIT_SLOT`, both cursors lie within the cache, and the
bitmap words from `GET_MAX_BITMASK_INDEX` on are clear. -/
structure CacheOk (z : Zone) : Prop where
  usable_le : z.freeBitSlotCacheUsable ≤ bitSlotCacheSz
  index_le : z.freeBitSlotCacheIndex ≤ bitSlotCacheSz
  entry : ∀ k, z.freeBitSlotCacheUsable ≤ k → k < z.freeBitSlotCacheIndex →
    z.FreeSlot (z.freeBitSlotCache k)
  distinct : ∀ k k', z.freeBitSlotCacheUsable ≤ k → k < z.freeBitSlotCacheIndex →
    z.freeBitSlotCacheUsable ≤ k' → k' < z.freeBitSlotCacheIndex →
    z.freeBitSlotCache k = z.freeBitSlotCache k' → k = k'
  past : ∀ k, z.freeBitSlotCacheIndex ≤ k → z.freeBitSlotCache k = badBitSlot
  beyond : ∀ w, z.getMaxBitmaskIndex ≤ w → z.bitmap w = 0

/-- The pre-dequeued slot, when set, is a free slot outside the queue. -/
def NextOk (z : Zone) : Prop :=
  z.nextFreeBitSlot ≠ badBitSlot → z.FreeSlot z.nextFreeBitSlot ∧
    ∀ k, z.freeBitSlotCacheUsable ≤ k → k < z.freeBitSlotCacheIndex →
      z.freeBitSlotCache k ≠ z.nextFreeBitSlot

/-- `bitmap_size` is the one `_iso_new_zone` computes for the chunk size. -/
def Geometry (C : Config) (z : Zone) : Prop :=
  z.bitmapSize = if 8 < (z.getChunkCount C <<< 1) >>> 3 then (z.getChunkCount C <<< 1) >>> 3 else 8

/-- The free-slot cache invariant of a zone in use. -/
structure CacheInv (C : Config) (z : Zone) : Prop where
  ok : z.CacheOk
  next : z.NextOk
  geometry : Geometry C z

theorem Geometry.one_le (h : Geometry C z) : 1 ≤ z.getMaxBitmaskIndex := by
  unfold Geometry at h
  simp only [getMaxBitmaskIndex, h, Nat.shiftRight_eq_div_pow]
  split <;> omega

theorem Geometry.two_le (h : Geometry C z) (hk : 0 < z.getChunkCount C / canaryCountDiv) :
    2 ≤ z.getMaxBitmaskIndex := by
  unfold Geometry at h
  simp only [canaryCountDiv] at hk
  simp only [getMaxBitmaskIndex, h, Nat.shiftRight_eq_div_pow, Nat.shiftLeft_eq]
  split <;> omega

end Zone

/-! The refill loops. -/

/-- The invariant of the refill loops of `fill_free_bit_slot_cache`: the
first `idx` entries increase, and are even slots below `pos`, in the first
`m` words, with a clear low bit in `bm`; the later entries are still
`BAD_BIT_SLOT`. -/
structure FillInv (bm : Nat → Word) (m pos : Nat) (c : Nat → Int) (idx : Nat) : Prop where
  idx_le : idx ≤ bitSlotCacheSz
  entry : ∀ k < idx, ∃ n : Nat, c k = n ∧ n < pos ∧ n % 2 = 0 ∧ n / 64 < m ∧
    getBit (bm (n / 64)) (n % 64) = false
  mono : ∀ k k', k < k' → k' < idx → c k < c k'
  past : ∀ k, idx ≤ k → c k = badBitSlot

namespace FillInv

variable {bm : Nat → Word} {m pos pos' : Nat} {c : Nat → Int} {idx : Nat}

theorem start (bm : Nat → Word) (m : Nat) : FillInv bm m 0 (fun _ => badBitSlot) 0 :=
  ⟨Nat.zero_le _, fun _ h => absurd h (Nat.not_lt_zero _), fun _ _ _ h => absurd h (Nat.not_lt_zero _),
    fun _ _ => rfl⟩

theorem mono_pos (h : FillInv bm m pos c idx) (hp : pos ≤ pos') : FillInv bm m pos' c idx := by
  refine ⟨h.idx_le, fun k hk => ?_, h.mono, h.past⟩
  obtain ⟨n, h1, h2, h3⟩ := h.entry k hk
  exact ⟨n, h1, by omega, h3⟩

theorem store (h : FillInv bm m pos c idx) (hidx : idx < bitSlotCacheSz) {n : Nat} (hn : pos ≤ n)
    (h2 : n % 2 = 0) (hm : n / 64 < m) (hb : getBit (bm (n / 64)) (n % 64) = false) :
    FillInv bm m (n + 1) (Function.update c idx (n : Int)) (idx + 1) := by
  refine ⟨hidx, fun k hk => ?_, fun k k' hkk hk' => ?_, fun k hk => ?_⟩
  · by_cases he : k = idx
    · subst he; exact ⟨n, Function.update_same _ _ _, by omega, h2, hm, hb⟩
    · rw [Function.update_noteq he]
      obtain ⟨n', h1, h3, h4⟩ := h.entry k (by omega)
      exact ⟨n', h1, by omega, h4⟩
  · have hk : k ≠ idx := by omega
    rw [Function.update_noteq hk]
    by_cases he : k' = idx
    · subst he
      obtain ⟨n', h1, h3, -⟩ := h.entry k (by omega)
      rw [Function.update_same, h1]; omega
    · rw [Function.update_noteq he]; exact h.mono k k' hkk (by omega)
  · rw [Function.update_noteq (by omega)]; exact h.past k (by omega)

end FillInv

namespace Zone

variable {C : Config} {z z' : Zone}

theorem slotOffsets_pairwise : slotOffsets.Pairwise (· < ·) :=
  List.pairwise_map.2 ((List.pairwise_lt_range 32).imp fun h => by omega)

theorem mem_slotOffsets {j : Nat} (h : j ∈ slotOffsets) : j % 2 = 0 ∧ j < 64 := by
  obtain ⟨a, ha, rfl⟩ := List.mem_map.1 h
  have := List.mem_range.1 ha
  omega

/-- The pair a run of the inner refill loop ends with, on either exit. -/
def fillWordResult (x : ((Nat → Int) × Nat) ⊕ ((Nat → Int) × Nat)) : (Nat → Int) × Nat :=
  Sum.elim id id x

theorem fillWord_inv {bm : Nat → Word} {m i : Nat} (hi : i < m) :
    ∀ (js : List Nat) (c : Nat → Int) (idx pos : Nat), js.Pairwise (· < ·) →
      (∀ j ∈ js, j % 2 = 0 ∧ j < 64 ∧ pos ≤ i * 64 + j) → pos ≤ i * 64 + 64 →
      FillInv bm m pos c idx →
      FillInv bm m (i * 64 + 64) (fillWordResult (fillWord (bm i) i js c idx)).1
        (fillWordResult (fillWord (bm i) i js c idx)).2
  | [], _, _, _, _, _, hp, h => h.mono_pos hp
  | j :: js, c, idx, pos, hs, hj, hp, h => by
    obtain ⟨hj2, hj64, hjp⟩ := hj j (List.mem_cons_self _ _)
    have hrest : ∀ j' ∈ js, j' % 2 = 0 ∧ j' < 64 ∧ i * 64 + j + 1 ≤ i * 64 + j' := fun j' hj' => by
      obtain ⟨a, b, -⟩ := hj j' (List.mem_cons_of_mem _ hj')
      exact ⟨a, b, by have := List.rel_of_pairwise_cons hs hj'; omega⟩
    have hdiv : (i * 64 + j) / 64 = i := by omega
    have hmod : (i * 64 + j) % 64 = j := by omega
    simp only [fillWord]
    split
    · exact h.mono_pos hp
    split
    · next hidx hb =>
      refine fillWord_inv hi js _ _ (i * 64 + j + 1) hs.of_cons hrest (by omega) ?_
      exact h.store (by omega) hjp (by omega) (by omega) (by rw [hdiv, hmod]; exact hb)
    · exact fillWord_inv hi js c idx (i * 64 + j + 1) hs.of_cons hrest (by omega) (h.mono_pos (by omega))

theorem fillWords_inv {bm : Nat → Word} {m : Nat} :
    ∀ (ws : List Nat) (c : Nat → Int) (idx pos : Nat), ws.Pairwise (· < ·) →
      (∀ i ∈ ws, i < m ∧ pos ≤ i * 64) → pos ≤ 64 * m → FillInv bm m pos c idx →
      FillInv bm m (64 * m) (fillWords bm ws c idx).1 (fillWords bm ws c idx).2.1
  | [], _, _, _, _, _, hp, h => h.mono_pos hp
  | i :: ws, c, idx, pos, hs, hw, hp, h => by
    obtain ⟨him, hip⟩ := hw i (List.mem_cons_self _ _)
    have hword := fillWord_inv him slotOffsets c idx pos slotOffsets_pairwise
      (fun j hj => ⟨(mem_slotOffsets hj).1, (mem_slotOffsets hj).2, by omega⟩) (by omega) h
    simp only [fillWords]
    split
    · cases hfw : fillWord (bm i) i slotOffsets c idx with
      | inl p =>
        rw [hfw] at hword
        exact hword.mono_pos (by omega)
      | inr p =>
        rw [hfw] at hword
        refine fillWords_inv ws p.1 p.2 (i * 64 + 64) hs.of_cons (fun i' hi' => ?_) (by omega) hword
        have := List.rel_of_pairwise_cons hs hi'
        exact ⟨(hw i' (List.mem_cons_of_mem _ hi')).1, by omega⟩
    · exact h.mono_pos hp

/-- `c` holds `n` distinct entries with the property `P`, then `BAD_BIT_SLOT`. -/
def Queue (P : Int → Prop) (c : Nat → Int) (n : Nat) : Prop :=
  (∀ k < n, P (c k)) ∧ (∀ k k', k < n → k' < n → c k = c k' → k = k') ∧ ∀ k, n ≤ k → c k = badBitSlot

theorem Queue.swap {P : Int → Prop} {c : Nat → Int} {n a b : Nat} (h : Queue P c n) (ha : a < n)
    (hb : b < n) : Queue P (swapEntries c a b) n := by
  obtain ⟨hp, hd, hpast⟩ := h
  refine ⟨fun k hk => ?_, fun k k' hk hk' he => ?_, fun k hk => ?_⟩
  · unfold swapEntries; split_ifs <;> exact hp _ (by omega)
  · unfold swapEntries at he
    split_ifs at he <;> first | omega | exact (fun e => by omega) (hd _ _ (by omega) (by omega) he)
  · unfold swapEntries; rw [if_neg (by omega), if_neg (by omega)]; exact hpast k hk

theorem Queue.shuffle {P : Int → Prop} {n : Nat} (rand : Nat → Word) :
    ∀ (j : Nat) (c : Nat → Int), j < n → Queue P c n → Queue P (shuffleCache rand j c) n
  | 0, _, _, h => h
  | j + 1, _, hj, h => by
    have hlt := Nat.mod_lt (rand (j + 1)).toNat (by omega : 0 < j + 2)
    exact Queue.shuffle rand j _ (by omega) (h.swap hj (by omega))

/-- The refill leaves a queue of free slots at the start of the cache. -/
theorem fillFreeBitSlotCache_queue {rand : Nat → Word} (h : z.fillFreeBitSlotCache C rand = .ok z') :
    Queue z.FreeSlot z'.freeBitSlotCache z'.freeBitSlotCacheIndex ∧ z'.freeBitSlotCacheIndex ≤ bitSlotCacheSz ∧
      z' = { z with freeBitSlotCache := z'.freeBitSlotCache, freeBitSlotCacheUsable := 0,
                    freeBitSlotCacheIndex := z'.freeBitSlotCacheIndex } := by
  simp only [fillFreeBitSlotCache, bind_eq_ok, pure_eq_ok] at h
  obtain ⟨-, -, rfl⟩ := h
  have hinv := fillWords_inv
    (List.range' (fillStart C rand z.getMaxBitmaskIndex) (z.getMaxBitmaskIndex - fillStart C rand z.getMaxBitmaskIndex))
    (fun _ => badBitSlot) 0 0 (List.pairwise_lt_range' _ _) (fun i hi => by
      have := List.mem_range'_1.1 hi; exact ⟨by omega, Nat.zero_le _⟩) (Nat.zero_le _) (FillInv.start z.bitmap z.getMaxBitmaskIndex)
  dsimp only
  generalize fillWords z.bitmap (List.range' (fillStart C rand z.getMaxBitmaskIndex)
    (z.getMaxBitmaskIndex - fillStart C rand z.getMaxBitmaskIndex)) (fun _ => badBitSlot) 0 = r at hinv ⊢
  have hq : Queue z.FreeSlot r.1 r.2.1 := by
    refine ⟨fun k hk => ?_, fun k k' hk hk' he => ?_, hinv.past⟩
    · obtain ⟨n, hn, hpos, h2, -, hb⟩ := hinv.entry k hk
      exact ⟨n, hn, h2, hpos, by simpa [lowBit, wordOfSlot_eq, whichBit] using hb⟩
    · rcases Nat.lt_trichotomy k k' with hl | rfl | hl
      · exact absurd he (Int.ne_of_lt (hinv.mono k k' hl hk'))
      · rfl
      · exact absurd he.symm (Int.ne_of_lt (hinv.mono k' k hl hk))
  refine ⟨?_, hinv.idx_le, rfl⟩
  split
  · next hs =>
    simp only [Bool.and_eq_true, decide_eq_true_eq] at hs
    exact hq.shuffle rand _ _ (by omega)
  · exact hq

namespace CacheOk

variable {rand : Nat → Word}

theorem fill (hb : ∀ w, z.getMaxBitmaskIndex ≤ w → z.bitmap w = 0)
    (h : z.fillFreeBitSlotCache C rand = .ok z') : z'.CacheOk := by
  obtain ⟨⟨hp, hd, hpast⟩, hidx, e⟩ := fillFreeBitSlotCache_queue h
  rw [e] at hp hd hpast hidx ⊢
  exact ⟨Nat.zero_le _, hidx, fun k _ hk => hp k hk, fun k k' _ hk _ hk' => hd k k' hk hk', hpast, hb⟩

theorem refillIfEmpty (hz : z.CacheOk) (h : z.refillIfEmpty C rand = .ok z') : z'.CacheOk := by
  unfold Zone.refillIfEmpty at h
  split at h
  · exact fill hz.beyond h
  · rw [← pure_eq_ok.1 h]; exact hz

theorem getNext (hz : z.CacheOk) : z.getNextFreeBitSlot.2.CacheOk := by
  unfold getNextFreeBitSlot
  split
  · exact hz
  next hn =>
    refine ⟨by dsimp only; omega, hz.index_le, fun k hk hk' => ?_, fun k k' hk hk1 hk' hk1' he => ?_,
      fun k hk => ?_, hz.beyond⟩
    · dsimp only at hk ⊢
      rw [Function.update_noteq (by omega)]; exact hz.entry k (by omega) hk'
    · dsimp only at *
      rw [Function.update_noteq (by omega), Function.update_noteq (by omega)] at he
      exact hz.distinct k k' (by omega) hk1 (by omega) hk1' he
    · dsimp only at hk ⊢
      by_cases he : k = z.freeBitSlotCacheUsable
      · subst he; exact Function.update_same _ _ _
      · rw [Function.update_noteq he]; exact hz.past k hk

end CacheOk

theorem getNextFreeBitSlot_fst :
    (z.getNextFreeBitSlot.1 = badBitSlot ∧ z.getNextFreeBitSlot.2 = z) ∨
      z.getNextFreeBitSlot.2.nextFreeBitSlot = z.getNextFreeBitSlot.1 := by
  unfold getNextFreeBitSlot
  split
  · exact .inl ⟨rfl, rfl⟩
  · exact .inr rfl

theorem CacheOk.getNext_nextOk (hz : z.CacheOk) (hs : z.getNextFreeBitSlot.1 ≠ badBitSlot) :
    z.getNextFreeBitSlot.2.NextOk := by
  unfold getNextFreeBitSlot at hs ⊢
  split at hs
  · exact absurd rfl hs
  next hn =>
  rw [if_neg hn]
  intro _
  dsimp only at hs ⊢
  have hu : z.freeBitSlotCacheUsable < z.freeBitSlotCacheIndex :=
    Nat.lt_of_not_le fun h => hs (hz.past _ h)
  refine ⟨hz.entry _ (Nat.le_refl _) hu, fun k hk hk' he => ?_⟩
  rw [Function.update_noteq (by omega)] at he
  have := hz.distinct k _ (by omega) hk' (Nat.le_refl _) hu he
  omega

theorem CacheOk.getNext_bad (hz : z.CacheOk) (hb : z.getNextFreeBitSlot.1 = badBitSlot) :
    z.getNextFreeBitSlot.2.freeBitSlotCacheIndex ≤ z.getNextFreeBitSlot.2.freeBitSlotCacheUsable := by
  unfold getNextFreeBitSlot at hb ⊢
  split
  · next h => have := hz.index_le; dsimp only; omega
  · next h =>
    rw [if_neg h] at hb
    dsimp only at hb ⊢
    by_contra hlt
    exact (hz.entry _ (Nat.le_refl _) (by omega)).ne_bad hb

theorem nextOk_of_empty (he : z.freeBitSlotCacheIndex ≤ z.freeBitSlotCacheUsable)
    (hf : z.nextFreeBitSlot ≠ badBitSlot → z.FreeSlot z.nextFreeBitSlot) : z.NextOk :=
  fun hb => ⟨hf hb, fun _ hk hk' => absurd (Nat.lt_of_le_of_lt hk hk') (by omega)⟩

theorem isoScanZoneFreeSlot_free {fast : Int} (h : z.isoScanZoneFreeSlot = .ok fast)
    (hb : fast ≠ badBitSlot) : z.FreeSlot fast := by
  simp only [isoScanZoneFreeSlot, bind_eq_ok] at h
  obtain ⟨-, -, h⟩ := h
  split at h
  · next i hi =>
    cases pure_eq_ok.1 h
    have hm := List.mem_range.1 (List.mem_of_find?_eq_some hi)
    have h0 : z.bitmap i = 0 := by simpa using List.find?_some hi
    refine ⟨i * 64, rfl, by omega, by omega, ?_⟩
    simp [lowBit, wordOfSlot_eq, whichBit, h0, getBit]
  · exact absurd (pure_eq_ok.1 h).symm hb

theorem isoScanZoneFreeSlotSlow_free {slow : Int} (h : z.isoScanZoneFreeSlotSlow = .ok slow)
    (hb : slow ≠ badBitSlot) : z.FreeSlot slow := by
  simp only [isoScanZoneFreeSlotSlow, bind_eq_ok] at h
  obtain ⟨-, -, h⟩ := h
  split at h
  · next n hn =>
    cases pure_eq_ok.1 h
    obtain ⟨i, hi, hs⟩ := List.exists_of_findSome?_eq_some hn
    have hm := List.mem_range.1 hi
    unfold slowScanWord at hs
    split at hs
    · obtain ⟨j, hj, rfl⟩ := Option.map_eq_some'.1 hs
      have hjm := mem_slotOffsets (List.mem_of_find?_eq_some hj)
      have hbit : getBit (z.bitmap i) j = false := by simpa using List.find?_some hj
      refine ⟨i * 64 + j, rfl, by omega, by omega, ?_⟩
      have hdiv : (i * 64 + j) / 64 = i := by omega
      have hmod : (i * 64 + j) % 64 = j := by omega
      simpa [lowBit, wordOfSlot_eq, whichBit, hdiv, hmod] using hbit
    · cases hs
  · exact absurd (pure_eq_ok.1 h).symm hb

theorem refillIfEmpty_next {rand : Nat → Word} (h : z.refillIfEmpty C rand = .ok z') :
    z'.nextFreeBitSlot = z.nextFreeBitSlot := by
  unfold Zone.refillIfEmpty at h
  split at h
  · rw [(fillFreeBitSlotCache_ok h).2.2]
  · rw [← pure_eq_ok.1 h]

theorem Geometry.of_slotBookkeeping (hg : Geometry C z) (h : SlotBookkeeping z z') : Geometry C z' := by
  rw [h]; exact hg

theorem CacheOk.maskZonePtrs (h : z.CacheOk) : z.maskZonePtrs.CacheOk :=
  ⟨h.usable_le, h.index_le, h.entry, h.distinct, h.past, h.beyond⟩

theorem CacheOk.setNext (h : z.CacheOk) (n : Int) : { z with nextFreeBitSlot := n }.CacheOk :=
  ⟨h.usable_le, h.index_le, h.entry, h.distinct, h.past, h.beyond⟩

theorem CacheOk.setFull (h : z.CacheOk) (b : Bool) : { z with isFull := b }.CacheOk :=
  ⟨h.usable_le, h.index_le, h.entry, h.distinct, h.past, h.beyond⟩

theorem CacheInv.maskZonePtrs (h : z.CacheInv C) : z.maskZonePtrs.CacheInv C :=
  ⟨h.ok.maskZonePtrs, h.next, h.geometry⟩

theorem CacheInv.isZoneUsable {rand : Nat → Word} {size : Nat} {b : Bool} (hz : z.CacheInv C)
    (h : z.isZoneUsable C rand size = .ok (b, z')) : z'.CacheInv C := by
  have hg := hz.geometry.of_slotBookkeeping (isZoneUsable_slotBookkeeping h)
  rcases isZoneUsable_ok h with ⟨-, rfl⟩ | ⟨-, rfl, -⟩ | ⟨hn, z2, hz2, h⟩
  · exact hz
  · exact hz
  have ok2 : z2.CacheOk := hz.ok.maskZonePtrs.refillIfEmpty hz2
  have hn2 : z2.nextFreeBitSlot = badBitSlot := (refillIfEmpty_next hz2).trans hn
  have ok3 := ok2.getNext
  have hfst := getNextFreeBitSlot_fst (z := z2)
  have hbad := ok2.getNext_bad
  have hnext := ok2.getNext_nextOk
  generalize z2.getNextFreeBitSlot = p at h ok3 hfst hbad hnext
  obtain ⟨s, z3⟩ := p
  dsimp only at h ok3 hfst hbad hnext
  rcases h with ⟨hs, -, rfl⟩ | ⟨hs, fast, hfast, h⟩
  · exact ⟨ok3.maskZonePtrs, hnext hs, hg⟩
  have hempty := hbad hs
  have hn3 : z3.nextFreeBitSlot = badBitSlot := by
    rcases hfst with ⟨-, rfl⟩ | he
    · exact hn2
    · rw [he, hs]
  rcases h with ⟨-, slow, hslow, ⟨-, -, rfl⟩ | ⟨hsl, -, rfl⟩⟩ | ⟨hf, -, rfl⟩
  · exact ⟨ok3.maskZonePtrs.setFull true, nextOk_of_empty hempty fun hb => absurd hn3 hb, hg⟩
  · exact ⟨ok3.maskZonePtrs.setNext slow,
      nextOk_of_empty hempty fun _ => (isoScanZoneFreeSlotSlow_free hslow hsl : z3.FreeSlot slow), hg⟩
  · exact ⟨(ok3.setNext fast).maskZonePtrs,
      nextOk_of_empty hempty fun _ => (isoScanZoneFreeSlot_free hfast hf : z3.FreeSlot fast), hg⟩

theorem CacheOk.of_bitmap (h : z.CacheOk) (hu : z'.freeBitSlotCacheUsable = z.freeBitSlotCacheUsable)
    (hi : z'.freeBitSlotCacheIndex = z.freeBitSlotCacheIndex) (hc : z'.freeBitSlotCache = z.freeBitSlotCache)
    (hm : z'.getMaxBitmaskIndex = z.getMaxBitmaskIndex)
    (hl : ∀ k, z.freeBitSlotCacheUsable ≤ k → k < z.freeBitSlotCacheIndex → ∀ n : Nat,
      z.freeBitSlotCache k = n → z.lowBit n = false → z'.lowBit n = false)
    (hb : ∀ w, z.getMaxBitmaskIndex ≤ w → z'.bitmap w = 0) : z'.CacheOk := by
  refine ⟨hu ▸ h.usable_le, hi ▸ h.index_le, fun k hk hk' => ?_, fun k k' h1 h2 h3 h4 he => ?_,
    fun k hk => ?_, fun w hw => hb w (hm ▸ hw)⟩
  · rw [hu] at hk; rw [hi] at hk'; rw [hc]
    obtain ⟨n, hn, h2, h3, h4⟩ := h.entry k hk hk'
    exact ⟨n, hn, h2, hm ▸ h3, hl k hk hk' n hn h4⟩
  · rw [hu, hi] at *; rw [hc] at he; exact h.distinct k k' h1 h2 h3 h4 he
  · rw [hi] at hk; rw [hc]; exact h.past k hk

theorem CacheOk.insert (h : z.CacheOk) {t : Nat} (hu : z'.freeBitSlotCacheUsable = z.freeBitSlotCacheUsable)
    (hidx : z.freeBitSlotCacheIndex < bitSlotCacheSz)
    (hi : z'.freeBitSlotCacheIndex = z.freeBitSlotCacheIndex + 1)
    (hc : z'.freeBitSlotCache = Function.update z.freeBitSlotCache z.freeBitSlotCacheIndex t)
    (hm : z'.getMaxBitmaskIndex = z.getMaxBitmaskIndex) (ht : z'.FreeSlot t)
    (hl : ∀ k, z.freeBitSlotCacheUsable ≤ k → k < z.freeBitSlotCacheIndex → ∀ n : Nat,
      z.freeBitSlotCache k = n → z.lowBit n = false → n ≠ t ∧ z'.lowBit n = false)
    (hb : ∀ w, z.getMaxBitmaskIndex ≤ w → z'.bitmap w = 0) : z'.CacheOk := by
  have hnt : ∀ k, z.freeBitSlotCacheUsable ≤ k → k < z.freeBitSlotCacheIndex →
      z.freeBitSlotCache k ≠ t := fun k hk hk' => by
    obtain ⟨n, hn, -, -, h4⟩ := h.entry k hk hk'
    rw [hn]; exact_mod_cast (hl k hk hk' n hn h4).1
  refine ⟨hu ▸ h.usable_le, by rw [hi]; omega, fun k hk hk' => ?_, fun k k' h1 h2 h3 h4 he => ?_,
    fun k hk => ?_, fun w hw => hb w (hm ▸ hw)⟩
  · rw [hu] at hk; rw [hi] at hk'; rw [hc]
    by_cases hke : k = z.freeBitSlotCacheIndex
    · rw [hke, Function.update_same]; exact ht
    · rw [Function.update_noteq hke]
      obtain ⟨n, hn, h2, h3, h4⟩ := h.entry k hk (by omega)
      exact ⟨n, hn, h2, hm ▸ h3, (hl k hk (by omega) n hn h4).2⟩
  · rw [hu] at h1 h3; rw [hi] at h2 h4; rw [hc] at he
    rcases eq_or_ne k z.freeBitSlotCacheIndex with rfl | hk <;>
      rcases eq_or_ne k' z.freeBitSlotCacheIndex with rfl | hk'
    · rfl
    · rw [Function.update_same, Function.update_noteq hk'] at he
      exact absurd he.symm (hnt k' h3 (by omega))
    · rw [Function.update_noteq hk, Function.update_same] at he
      exact absurd he (hnt k h1 (by omega))
    · rw [Function.update_noteq hk, Function.update_noteq hk'] at he
      exact h.distinct k k' h1 (by omega) h3 (by omega) he
  · rw [hi] at hk; rw [hc, Function.update_noteq (by omega)]; exact h.past k (by omega)

theorem FreeSlot.of_lowBit (h : z.FreeSlot s) (hm : z'.getMaxBitmaskIndex = z.getMaxBitmaskIndex)
    (hl : ∀ n : Nat, s = n → z.lowBit n = false → z'.lowBit n = false) : z'.FreeSlot s := by
  obtain ⟨n, hn, h2, h3, h4⟩ := h
  exact ⟨n, hn, h2, hm ▸ h3, hl n hn h4⟩

theorem lowBit_markAllocated {s t : Nat} (hs : s % 2 = 0) (ht : t % 2 = 0) :
    (z.markAllocated t).lowBit s = (z.lowBit s || decide (s = t)) := by
  have e := congrArg Prod.fst (slotBits_markAllocated (z := z) hs ht)
  simp only [slotBits] at e
  rw [e]; split <;> simp_all

theorem lowBit_markFreed {s t : Nat} (hs : s % 2 = 0) (ht : t % 2 = 0) (perm : Bool) :
    (z.markFreed t perm).lowBit s = if s = t then perm && z.lowBit t else z.lowBit s := by
  have e := congrArg Prod.fst (slotBits_markFreed (z := z) hs ht perm)
  simp only [slotBits] at e
  rw [e]; split <;> rfl

theorem CacheOk.word_lt (h : z.CacheOk) {t : Nat} (hl : z.lowBit t = true) :
    t < 64 * z.getMaxBitmaskIndex := by
  by_contra hlt
  have h0 := h.beyond (wordOfSlot t) (by rw [wordOfSlot_eq]; omega)
  simp [lowBit, h0, getBit] at hl

theorem CacheInv.allocSlot {h h' : Heap} {p : Word} (hz : z.CacheInv C)
    (hn : z.nextFreeBitSlot ≠ badBitSlot)
    (hok : { z.maskZonePtrs with nextFreeBitSlot := badBitSlot }.isoAllocBitslotFromZone C h
      z.nextFreeBitSlot.toNat = .ok (p, z', h')) : z'.maskZonePtrs.CacheInv C := by
  obtain ⟨-, -, -, -, -, rfl, -⟩ := isoAllocBitslotFromZone_ok hok
  obtain ⟨⟨t, ht, ht2, htm, -⟩, hne⟩ := hz.next hn
  rw [ht, Int.toNat_ofNat]
  refine ⟨CacheOk.maskZonePtrs (hz.ok.of_bitmap rfl rfl rfl rfl (fun k hk hk' n hkn hl => ?_)
    (fun w hw => ?_)), fun hb => absurd rfl hb, hz.geometry⟩
  · obtain ⟨n', hn', h2, -⟩ := hz.ok.entry k hk hk'
    rw [hkn] at hn'
    have hnt : n ≠ t := fun e => hne k hk hk' (by rw [hkn, ht, e])
    rw [Int.ofNat_inj.1 hn'] at hnt ⊢
    simp only [lowBit_markAllocated (z := { z.maskZonePtrs with nextFreeBitSlot := badBitSlot }) h2 ht2]
    simp only [Int.ofNat_inj.1 hn'] at hl
    simp [lowBit] at hl ⊢
    simpa [hnt] using hl
  · have hw' : w ≠ wordOfSlot t := by rw [wordOfSlot_eq]; omega
    simp only [markAllocated, Function.update_noteq hw']
    exact hz.ok.beyond w hw

theorem markFreed_bitmap_ne {t w : Nat} (perm : Bool) (hw : w ≠ wordOfSlot t) :
    (z.markFreed t perm).bitmap w = z.bitmap w := by
  cases perm <;> simp [Zone.markFreed, Function.update_noteq hw]

theorem markFreed_false_cache (t : Nat) :
    (z.markFreed t false).freeBitSlotCacheUsable = z.freeBitSlotCacheUsable ∧
    (z.markFreed t false).nextFreeBitSlot = z.nextFreeBitSlot ∧
    (z.markFreed t false).getMaxBitmaskIndex = z.getMaxBitmaskIndex ∧
    ((z.freeBitSlotCacheIndex < bitSlotCacheSz ∧
        (z.markFreed t false).freeBitSlotCacheIndex = z.freeBitSlotCacheIndex + 1 ∧
        (z.markFreed t false).freeBitSlotCache = Function.update z.freeBitSlotCache z.freeBitSlotCacheIndex t) ∨
      (bitSlotCacheSz ≤ z.freeBitSlotCacheIndex ∧
        (z.markFreed t false).freeBitSlotCacheIndex = z.freeBitSlotCacheIndex ∧
        (z.markFreed t false).freeBitSlotCache = z.freeBitSlotCache)) := by
  simp only [Zone.markFreed, Bool.false_eq_true, if_false, insertFreeBitSlot]
  split
  · exact ⟨rfl, rfl, rfl, .inr ⟨‹_›, rfl, rfl⟩⟩
  · exact ⟨rfl, rfl, rfl, .inl ⟨by omega, rfl, rfl⟩⟩

/-- Freeing a slot whose low bit is set keeps the invariant: a permanent free
changes only the slot's high bit; a non-permanent one clears its low bit and
queues it. -/
theorem CacheInv.freeChunk {h h' : Heap} {p : Word} {perm : Bool} (hz : z.CacheInv C)
    (hok : z.isoFreeChunkFromZone C h p perm = .ok (z', h')) : z'.CacheInv C := by
  obtain ⟨n, -, -, -, -, -, -, hlow, rfl, -⟩ := isoFreeChunkFromZone_ok hok
  have ht : (n <<< 1) % 2 = 0 := by simp [Nat.shiftLeft_eq]
  have hshape := (KeepsFreed.markFreed (s := 0) (z := z) (by decide) ht perm).shape
  generalize n <<< 1 = t at ht hlow hshape ⊢
  have htm := hz.ok.word_lt hlow
  have hg : Geometry C (z.markFreed t perm) := by
    simp only [freeShape, Prod.mk.injEq] at hshape
    unfold Geometry getChunkCount; rw [hshape.2.2.2.1, hshape.2.2.2.2.1]; exact hz.geometry
  have hm : (z.markFreed t perm).getMaxBitmaskIndex = z.getMaxBitmaskIndex := by
    simp only [freeShape, Prod.mk.injEq] at hshape; simp only [getMaxBitmaskIndex, hshape.2.2.2.2.1]
  have hb : ∀ w, z.getMaxBitmaskIndex ≤ w → (z.markFreed t perm).bitmap w = 0 := fun w hw => by
    rw [markFreed_bitmap_ne _ (by rw [wordOfSlot_eq]; omega)]; exact hz.ok.beyond w hw
  have hclear : ∀ m : Nat, m % 2 = 0 → z.lowBit m = false → m ≠ t ∧ (z.markFreed t perm).lowBit m = false :=
    fun m h2 hl => by
      have hne : m ≠ t := fun e => by rw [e, hlow] at hl; cases hl
      exact ⟨hne, by rw [lowBit_markFreed h2 ht, if_neg hne]; exact hl⟩
  have hkeep : ∀ k, z.freeBitSlotCacheUsable ≤ k → k < z.freeBitSlotCacheIndex → ∀ m : Nat,
      z.freeBitSlotCache k = m → z.lowBit m = false → m ≠ t ∧ (z.markFreed t perm).lowBit m = false :=
    fun k hk hk' m hkm hl => by
      obtain ⟨m', hm', h2, -⟩ := hz.ok.entry k hk hk'
      rw [hkm] at hm'; cases hm'
      exact hclear m h2 hl
  have hnext : (z.markFreed t perm).nextFreeBitSlot ≠ badBitSlot →
      (z.markFreed t perm).FreeSlot (z.markFreed t perm).nextFreeBitSlot ∧
        (z.markFreed t perm).nextFreeBitSlot ≠ t := fun hb' => by
    have e : (z.markFreed t perm).nextFreeBitSlot = z.nextFreeBitSlot := by
      cases perm
      · exact (markFreed_false_cache t).2.1
      · rfl
    rw [e] at hb' ⊢
    obtain ⟨⟨m, hmn, h2, h3, h4⟩, -⟩ := hz.next hb'
    exact ⟨⟨m, hmn, h2, hm ▸ h3, (hclear m h2 h4).2⟩, by rw [hmn]; exact_mod_cast (hclear m h2 h4).1⟩
  cases perm
  · obtain ⟨hu, hn, -, hcase⟩ := markFreed_false_cache (z := z) t
    rcases hcase with ⟨hidx, hi, hc⟩ | ⟨-, hi, hc⟩
    · refine ⟨hz.ok.insert hu hidx hi hc hm
          ⟨t, rfl, ht, hm ▸ htm, by rw [lowBit_markFreed ht ht, if_pos rfl]; rfl⟩ hkeep hb,
        fun hb' => ⟨(hnext hb').1, fun k hk hk' => ?_⟩, hg⟩
      rw [hu] at hk; rw [hi] at hk'; rw [hc]
      by_cases hke : k = z.freeBitSlotCacheIndex
      · rw [hke, Function.update_same]; exact fun e => (hnext hb').2 e.symm
      · rw [Function.update_noteq hke, hn]; exact (hz.next (hn ▸ hb')).2 k hk (by omega)
    · refine ⟨hz.ok.of_bitmap hu hi hc hm (fun k hk hk' m hkm hl => (hkeep k hk hk' m hkm hl).2) hb,
        fun hb' => ⟨(hnext hb').1, fun k hk hk' => ?_⟩, hg⟩
      rw [hu] at hk; rw [hi] at hk'; rw [hc, hn]
      exact (hz.next (hn ▸ hb')).2 k hk hk'
  · exact ⟨hz.ok.of_bitmap rfl rfl rfl hm (fun k hk hk' m hkm hl => (hkeep k hk hk' m hkm hl).2) hb,
      fun hb' => ⟨(hnext hb').1, (hz.next hb').2⟩, hg⟩

theorem CacheInv.madvise (h : z.CacheInv C) (a : Word) (len : Nat) :
    { z with bitmap := Root.Zone.bitmapAfterMadvise a len z }.CacheInv C := by
  have hl : ∀ n : Nat, z.lowBit n = false →
      { z with bitmap := Root.Zone.bitmapAfterMadvise a len z }.lowBit n = false :=
    fun n => (KeepsFreed.madvise (s := n) z a len).low
  refine ⟨h.ok.of_bitmap rfl rfl rfl rfl (fun _ _ _ n _ => hl n) (fun w hw => ?_), fun hb => ?_, h.geometry⟩
  · simp only [Root.Zone.bitmapAfterMadvise, h.ok.beyond w hw, ite_self]
  · obtain ⟨hf, hne⟩ := h.next hb
    exact ⟨hf.of_lowBit rfl fun n _ => hl n, hne⟩

theorem CacheInv.setFields (h : z.CacheInv C) (n : Nat) (internal mapped : Bool) :
    { z with nextSzIndex := n, internal := internal, mapped := mapped }.CacheInv C :=
  ⟨⟨h.ok.usable_le, h.ok.index_le, h.ok.entry, h.ok.distinct, h.ok.past, h.ok.beyond⟩, h.next, h.geometry⟩

theorem canaryWord_lt (hA : ∀ n, C.alignSzDown n ≤ n) (h2 : 2 ≤ z.getMaxBitmaskIndex)
    (rand : Nat → Word) (n : Nat) : z.canaryWord C rand n < z.getMaxBitmaskIndex := by
  have hmod := Nat.mod_lt (rand n).toNat (by omega : 0 < z.getMaxBitmaskIndex - 1)
  have := hA ((rand n).toNat % (z.getMaxBitmaskIndex - 1))
  unfold canaryWord
  dsimp only
  split <;> omega

theorem addCanaryChunk_beyond {h h' : Heap} {i : Nat} (hi : i < z.getMaxBitmaskIndex)
    (hb : ∀ w, z.getMaxBitmaskIndex ≤ w → z.bitmap w = 0) (hok : z.addCanaryChunk C h i = .ok (z', h')) :
    ∀ w, z'.getMaxBitmaskIndex ≤ w → z'.bitmap w = 0 := by
  unfold addCanaryChunk at hok
  split at hok
  · cases (Prod.mk.inj (pure_eq_ok.1 hok)).1; exact hb
  · obtain ⟨h1, -, hok⟩ := bind_eq_ok.1 hok
    cases (Prod.mk.inj (pure_eq_ok.1 hok)).1
    intro w hw
    simp only [Function.update_noteq (show w ≠ i by simp only [getMaxBitmaskIndex] at hw hi; omega)]
    exact hb w hw

theorem canaryLoop_beyond (hA : ∀ n, C.alignSzDown n ≤ n) (rand : Nat → Word) :
    ∀ (k n : Nat) (z z' : Zone) (h h' : Heap), 2 ≤ z.getMaxBitmaskIndex →
      (∀ w, z.getMaxBitmaskIndex ≤ w → z.bitmap w = 0) → canaryLoop C rand k n z h = .ok (z', h') →
      ∀ w, z'.getMaxBitmaskIndex ≤ w → z'.bitmap w = 0
  | 0, _, _, _, _, _, _, hb, hok => by cases (Prod.mk.inj (pure_eq_ok.1 hok)).1; exact hb
  | k + 1, n, z, z', h, h', h2, hb, hok => by
    obtain ⟨⟨z1, h1⟩, hadd, hok⟩ := bind_eq_ok.1 hok
    have e := addCanaryChunk_ok hadd
    refine canaryLoop_beyond hA rand k (n + 1) z1 z' h1 h' (by rw [e]; exact h2) ?_ hok
    exact addCanaryChunk_beyond (canaryWord_lt hA h2 rand n) hb hadd

theorem createCanaryChunks_beyond (hA : ∀ n, C.alignSzDown n ≤ n) {rand : Nat → Word} {h h' : Heap}
    (hg : Geometry C z) (hb : ∀ w, z.getMaxBitmaskIndex ≤ w → z.bitmap w = 0)
    (hok : z.createCanaryChunks C rand h = .ok (z', h')) :
    ∀ w, z'.getMaxBitmaskIndex ≤ w → z'.bitmap w = 0 := by
  unfold createCanaryChunks at hok
  split at hok
  · cases (Prod.mk.inj (pure_eq_ok.1 hok)).1; exact hb
  obtain ⟨-, -, hloop⟩ := bind_eq_ok.1 hok
  rcases Nat.eq_zero_or_pos (z.getChunkCount C / canaryCountDiv) with h0 | hpos
  · rw [h0] at hloop; cases (Prod.mk.inj (pure_eq_ok.1 hloop)).1; exact hb
  · exact canaryLoop_beyond hA rand _ 0 z z' h h' (hg.two_le hpos) hb hloop

theorem getNextFreeBitSlot_next_of_pass
    (h : ¬(bitSlotCacheSz ≤ z.freeBitSlotCacheUsable ∨ z.freeBitSlotCacheIndex < z.freeBitSlotCacheUsable)) :
    z.getNextFreeBitSlot.2.nextFreeBitSlot = z.getNextFreeBitSlot.1 := by
  unfold getNextFreeBitSlot; rw [if_neg h]

/-- Canary chunks, a refill and a dequeue, as `_iso_new_zone` and the re-seeding
of a private zone do them, establish the invariant. -/
theorem CacheInv.reseed (hA : ∀ n, C.alignSzDown n ≤ n) {crand frand : Nat → Word} {h h1 : Heap}
    {z1 z2 : Zone} (hg : Geometry C z) (hb : ∀ w, z.getMaxBitmaskIndex ≤ w → z.bitmap w = 0)
    (hcan : z.createCanaryChunks C crand h = .ok (z1, h1)) (hfill : z1.fillFreeBitSlotCache C frand = .ok z2) :
    z2.getNextFreeBitSlot.2.CacheInv C := by
  have ok2 := CacheOk.fill (createCanaryChunks_beyond hA hg hb hcan) hfill
  have hg1 : Geometry C z1 := by rw [createCanaryChunks_ok hcan]; exact hg
  have hu : z2.freeBitSlotCacheUsable = 0 := by rw [(fillFreeBitSlotCache_queue hfill).2.2]
  have hnext := getNextFreeBitSlot_next_of_pass (z := z2) (by simp only [hu, bitSlotCacheSz]; omega)
  refine ⟨ok2.getNext, fun hb' => ?_,
    (hg1.of_slotBookkeeping (.fill hfill)).of_slotBookkeeping (.getNextFreeBitSlot z2)⟩
  exact ok2.getNext_nextOk (hnext ▸ hb') hb'

/-! A refill of a zone whose starting word has a clear slot queues at least
one slot, so a new or re-seeded zone always has a slot to give. -/

theorem fillWord_idx_le {w : Word} {i : Nat} :
    ∀ (js : List Nat) (c : Nat → Int) (idx : Nat), idx ≤ (fillWordResult (fillWord w i js c idx)).2
  | [], _, _ => Nat.le_refl _
  | j :: js, c, idx => by
    simp only [fillWord]
    split
    · exact Nat.le_refl _
    split
    · exact Nat.le_of_succ_le (fillWord_idx_le js _ (idx + 1))
    · exact fillWord_idx_le js c idx

theorem fillWords_idx_le {bm : Nat → Word} :
    ∀ (ws : List Nat) (c : Nat → Int) (idx : Nat), idx ≤ (fillWords bm ws c idx).2.1
  | [], _, _ => Nat.le_refl _
  | i :: ws, c, idx => by
    have hw := fillWord_idx_le (w := bm i) (i := i) slotOffsets c idx
    simp only [fillWords]
    split
    · split
      · next h => rw [h] at hw; exact hw
      · next h => rw [h] at hw; exact Nat.le_trans hw (fillWords_idx_le ws _ _)
    · exact Nat.le_refl _

theorem fillWord_idx_lt {w : Word} {i : Nat} :
    ∀ (js : List Nat) (c : Nat → Int) (idx : Nat), idx < bitSlotCacheSz → (∃ j ∈ js, getBit w j = false) →
      idx < (fillWordResult (fillWord w i js c idx)).2
  | [], _, _, _, ⟨_, hj, _⟩ => absurd hj (List.not_mem_nil _)
  | j :: js, c, idx, hidx, ⟨j', hj', hb⟩ => by
    simp only [fillWord, if_neg (Nat.not_le.2 hidx)]
    split
    · exact fillWord_idx_le js _ (idx + 1)
    · next hj =>
      rcases List.mem_cons.1 hj' with rfl | hj'
      · exact absurd hb hj
      · exact fillWord_idx_lt js c idx hidx ⟨j', hj', hb⟩

theorem fillWords_pos {bm : Nat → Word} {i : Nat} (ws : List Nat) (c : Nat → Int)
    (h : ∃ j ∈ slotOffsets, getBit (bm i) j = false) : 0 < (fillWords bm (i :: ws) c 0).2.1 := by
  have hw := fillWord_idx_lt (w := bm i) (i := i) slotOffsets c 0 (by decide) h
  simp only [fillWords, if_pos (show 0 < bitSlotCacheSz by decide)]
  split
  · next he => rw [he] at hw; exact hw
  · next he => rw [he] at hw; exact Nat.lt_of_lt_of_le hw (fillWords_idx_le ws _ _)

theorem fillStart_lt (rand : Nat → Word) {m : Nat} (hm : 0 < m) : fillStart C rand m < m := by
  unfold fillStart
  split
  · rw [Nat.shiftRight_eq_div_pow]
    apply Nat.div_lt_of_lt_mul
    have := Nat.mod_lt (rand 0).toNat (by decide : 0 < 0x100000000)
    calc (rand 0).toNat % 0x100000000 * (m - 1) ≤ (rand 0).toNat % 0x100000000 * m :=
          Nat.mul_le_mul_left _ (Nat.sub_le _ _)
      _ < 0x100000000 * m := Nat.mul_lt_mul_of_pos_right this hm
  · exact hm

theorem fillFreeBitSlotCache_index_pos {rand : Nat → Word} (hg : Geometry C z) (hw : z.CanaryWords)
    (h : z.fillFreeBitSlotCache C rand = .ok z') : 0 < z'.freeBitSlotCacheIndex := by
  simp only [fillFreeBitSlotCache, bind_eq_ok, pure_eq_ok] at h
  obtain ⟨-, -, rfl⟩ := h
  have hm := hg.one_le
  have hb := fillStart_lt (C := C) rand hm
  obtain ⟨k, hk⟩ : ∃ k, z.getMaxBitmaskIndex - fillStart C rand z.getMaxBitmaskIndex = k + 1 :=
    ⟨_, (Nat.succ_pred_eq_of_pos (by omega)).symm⟩
  dsimp only
  rw [hk, List.range'_succ]
  have h2 : 2 ∈ slotOffsets := List.mem_map.2 ⟨1, List.mem_range.2 (by decide), rfl⟩
  refine fillWords_pos _ _ ⟨2, h2, ?_⟩
  rcases hw _ hb with h | h <;> simp only [h] <;> decide

theorem reseed_next_ne_bad {crand frand : Nat → Word} {h h1 : Heap} {z1 z2 : Zone} (hg : Geometry C z)
    (hw : z.CanaryWords) (hcan : z.createCanaryChunks C crand h = .ok (z1, h1))
    (hfill : z1.fillFreeBitSlotCache C frand = .ok z2) :
    z2.getNextFreeBitSlot.2.nextFreeBitSlot ≠ badBitSlot := by
  have hg1 : Geometry C z1 := by rw [createCanaryChunks_ok hcan]; exact hg
  have hpos := fillFreeBitSlotCache_index_pos hg1 (hw.createCanaryChunks hcan) hfill
  obtain ⟨⟨hq, -, -⟩, -, e⟩ := fillFreeBitSlotCache_queue hfill
  have hu : z2.freeBitSlotCacheUsable = 0 := by rw [e]
  rw [getNextFreeBitSlot_next_of_pass (by simp only [hu, bitSlotCacheSz]; omega)]
  unfold getNextFreeBitSlot
  rw [if_neg (by simp only [hu, bitSlotCacheSz]; omega), hu]
  exact (hq 0 hpos).ne_bad

/-- `is_zone_usable` returns a zone only with a slot pre-dequeued. -/
theorem isZoneUsable_true_next {rand : Nat → Word} {size : Nat}
    (h : z.isZoneUsable C rand size = .ok (true, z')) : z'.nextFreeBitSlot ≠ badBitSlot := by
  rcases isZoneUsable_ok h with ⟨hb, -⟩ | ⟨-, rfl, hn⟩ | ⟨-, z2, -, h⟩
  · exact Bool.noConfusion hb
  · exact hn
  have hfst := getNextFreeBitSlot_fst (z := z2)
  generalize z2.getNextFreeBitSlot = p at h hfst
  obtain ⟨s, z3⟩ := p
  dsimp only at h hfst
  rcases h with ⟨hs, -, rfl⟩ | ⟨-, fast, -, ⟨-, slow, -, ⟨-, hb, -⟩ | ⟨hsl, -, rfl⟩⟩ | ⟨hf, -, rfl⟩⟩
  · rcases hfst with ⟨he, -⟩ | he
    · exact absurd he hs
    · exact he ▸ hs
  · exact Bool.noConfusion hb
  · exact hsl
  · exact hf

/-- The abort of `_iso_alloc_bitslot_from_zone` on a slot whose low bit is set. -/
def cannotReturnAbort : Stop :=
  .abort "Zone[%d] for chunk size %d cannot return allocated chunk at 0x%p bitmap location @ 0x%p. bit slot was %lu, bit number was %lu"

theorem allocChunkMemory_ne_cannotReturn {h : Heap} {b p : Word} {k : Nat} :
    z.allocChunkMemory C h b k p ≠ .error cannotReturnAbort := by
  unfold allocChunkMemory checkCanary Heap.read Heap.write
  intro hok
  split_ifs at hok <;> simp_all [bind_eq_error, cannotReturnAbort, ite_eq_iff]

/-- `_iso_alloc_bitslot_from_zone` aborts on an allocated slot only when the
bitmap it reads, which must be mapped, has the slot's low bit set. -/
theorem isoAllocBitslotFromZone_ne_cannotReturn {h : Heap} {s : Nat}
    (hl : z.mapped = true → z.lowBit s = false) :
    z.isoAllocBitslotFromZone C h s ≠ .error cannotReturnAbort := by
  intro hok
  simp only [isoAllocBitslotFromZone, checkBitmap, bind_eq_error] at hok
  split_ifs at hok <;> simp_all [bind_eq_error, cannotReturnAbort, lowBit]
  exact allocChunkMemory_ne_cannotReturn hok

end Zone

end IsoAlloc
