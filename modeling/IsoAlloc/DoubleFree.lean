import IsoAlloc.ChainWalks

/-!
Double frees of chunks. `iso_free_chunk_from_zone` aborts when the low bit of
the chunk's slot is clear. A non-permanent free clears that bit, and no event
sets it again except handing out that very slot or destroying or re-creating
the zone; so once a non-permanent free has been applied to a slot, every later
free applied to the same pointer aborts until the slot is handed out again.
A permanent free sets only the high bit: the slot reads `11`, and a later free
of the same pointer, permanent or deferred in the quarantine, passes the test.
A big record freed without `permanent` is marked free, and `iso_free_big_zone`
aborts on a record marked free.
-/

namespace IsoAlloc

open Relation

namespace Zone

variable {C : Config} {z z' z'' : Zone} {s t : Nat}

/-- What `iso_free_chunk_from_zone` reads of the record before its double-free
test: the stored bases and mask, the chunk and bitmap sizes, and the real
bitmap base with its mapping. -/
def freeShape (z : Zone) : Word × Word × Word × Nat × Nat × Bool × Word :=
  (z.userPagesStart, z.bitmapStart, z.pointerMask, z.chunkSize, z.bitmapSize, z.mapped, z.bitmapBase)

/-- The bit slot `iso_free_chunk_from_zone` computes for `p`. -/
def freeSlot (z : Zone) (p : Word) : Nat := ((p - z.unmaskUserPtr).toNat / z.chunkSize) <<< 1

theorem freeSlot_even (z : Zone) (p : Word) : z.freeSlot p % 2 = 0 := by
  simp [freeSlot, Nat.shiftLeft_eq]

theorem freeSlot_of_freeShape (h : z'.freeShape = z.freeShape) (p : Word) :
    z'.freeSlot p = z.freeSlot p := by
  simp only [freeShape, Prod.mk.injEq] at h
  simp only [freeSlot, unmaskUserPtr, h]

/-- A free of `p` applied to a record whose slot for `p` is clear aborts as a
double free, provided a free of `p` once passed the earlier checks on a
record of the same shape. -/
theorem isoFreeChunkFromZone_double_free {z0 z0' : Zone} {h0 h0' h : Heap} {p : Word}
    {perm0 perm : Bool} (hok : z0.isoFreeChunkFromZone C h0 p perm0 = .ok (z0', h0'))
    (hshape : z.freeShape = z0.freeShape) (hlow : z.lowBit (z.freeSlot p) = false) :
    z.isoFreeChunkFromZone C h p perm =
      .error (.abort "Double free of chunk 0x%p detected from zone[%d] dwords_to_bit_slot=%lu bit_slot=%lu") := by
  obtain ⟨n, rfl, halign, hmul, hw, hm, hb, -⟩ := isoFreeChunkFromZone_ok hok
  have hu : z.unmaskUserPtr = z0.unmaskUserPtr := by
    simp only [freeShape, Prod.mk.injEq] at hshape; simp only [unmaskUserPtr, hshape]
  have hbm : z.unmaskBitmapPtr = z0.unmaskBitmapPtr := by
    simp only [freeShape, Prod.mk.injEq] at hshape; simp only [unmaskBitmapPtr, hshape]
  simp only [freeShape, Prod.mk.injEq] at hshape
  obtain ⟨-, -, -, hc, hbs, hmap, hbase⟩ := hshape
  simp only [freeSlot, lowBit, hu, hc] at hlow
  simp only [isoFreeChunkFromZone, halign, hu, hc, hmul, hbs, Nat.not_lt.2 hw, checkBitmap, hmap, hbm,
    hbase, hm, hb, hlow, if_false, if_true, and_self, ne_eq, not_true_eq_false, throw_bind, pure_bind]
  rfl

theorem freeShape_insertFreeBitSlot (b : Int) : (z.insertFreeBitSlot b).freeShape = z.freeShape := by
  unfold insertFreeBitSlot; split <;> rfl

/-- `z'` keeps what a free reads before its double-free test, and a clear low
bit of slot `s` stays clear. -/
structure KeepsFreed (s : Nat) (z z' : Zone) : Prop where
  shape : z'.freeShape = z.freeShape
  low : z.lowBit s = false → z'.lowBit s = false

namespace KeepsFreed

theorem refl (z : Zone) : KeepsFreed s z z := ⟨rfl, id⟩

theorem trans (h1 : KeepsFreed s z z') (h2 : KeepsFreed s z' z'') : KeepsFreed s z z'' :=
  ⟨h2.shape.trans h1.shape, fun h => h2.low (h1.low h)⟩

theorem of_slotBookkeeping (h : SlotBookkeeping z z') : KeepsFreed s z z' := by
  rw [h]; exact ⟨rfl, id⟩

theorem setNext (z : Zone) (n : Nat) : KeepsFreed s z { z with nextSzIndex := n } := ⟨rfl, id⟩

theorem madvise (z : Zone) (a : Word) (len : Nat) :
    KeepsFreed s z { z with bitmap := Root.Zone.bitmapAfterMadvise a len z } := by
  refine ⟨rfl, fun h => ?_⟩
  simp only [lowBit, Root.Zone.bitmapAfterMadvise] at h ⊢
  split
  · simp [getBit]
  · exact h

theorem markAllocated (hs : s % 2 = 0) (hts : t ≠ s) :
    KeepsFreed s z ({ z.maskZonePtrs with nextFreeBitSlot := badBitSlot }.markAllocated t).maskZonePtrs := by
  refine ⟨by simp [freeShape, maskZonePtrs, Zone.markAllocated, BitVec.xor_assoc], fun h => ?_⟩
  simp only [lowBit, Zone.markAllocated, maskZonePtrs_bitmap] at h ⊢
  by_cases hw : wordOfSlot s = wordOfSlot t
  · have hk : whichBit s ≠ whichBit t := by
      simp only [wordOfSlot_eq, whichBit] at hw ⊢; omega
    rw [hw, Function.update_same]
    rw [hw] at h
    simp [h, hk]
  · simp [Function.update_noteq hw, h]

theorem markFreed (hs : s % 2 = 0) (ht : t % 2 = 0) (perm : Bool) :
    KeepsFreed s z (z.markFreed t perm) := by
  have e := slotBits_markFreed (z := z) hs ht perm
  refine ⟨?_, fun h => ?_⟩
  · cases perm
    · exact freeShape_insertFreeBitSlot (z := z) _
    · rfl
  · by_cases hst : s = t
    · subst hst
      rw [if_pos rfl] at e
      simp only [slotBits, Prod.mk.injEq] at e
      rw [e.1, h, Bool.and_false]
    · rw [if_neg hst] at e
      simp only [slotBits, Prod.mk.injEq] at e
      rw [e.1, h]

end KeepsFreed

theorem lowBit_markFreed_self (ht : t % 2 = 0) : (z.markFreed t false).lowBit t = false := by
  have e := slotBits_markFreed (z := z) ht ht false
  rw [if_pos rfl] at e
  simp only [slotBits, Prod.mk.injEq, Bool.false_and] at e
  exact e.1

end Zone

namespace Root

variable {C : Config} {r r' : Root} {s k : Nat}

theorem keepsFreed_setZone_ne {i : Nat} {z : Zone} (hk : k ≠ i) :
    Zone.KeepsFreed s (r.zones k) ((r.setZone i z).zones k) := by
  rw [setZone_zones_ne _ _ _ _ hk]; exact .refl _

theorem keepsFreed_madviseDontneed (a : Word) (len : Nat) :
    Zone.KeepsFreed s (r.zones k) ((r.madviseDontneed a len).zones k) := by
  rw [madviseDontneed_zones]; exact .madvise _ _ _

theorem keepsFreed_unmapZone_ne {i : Nat} (hk : k ≠ i) :
    Zone.KeepsFreed s (r.zones k) ((r.unmapZone C i).zones k) := by
  simp only [unmapZone, Function.update_noteq hk]; exact .refl _

theorem spliceNewZone_keepsFreed {z : Zone} (h : spliceNewZone C r z = .ok r') :
    Zone.KeepsFreed s (r.zones k) (r'.zones k) := by
  rcases spliceNewZone_ok h with ⟨-, rfl⟩ | ⟨-, ⟨-, rfl⟩ | ⟨-, hw⟩⟩
  · exact .refl _
  · exact .refl _
  rcases spliceWalk_ok hw with rfl | ⟨j, -, -, -, rfl⟩
  · exact .refl _
  by_cases hk : k = j
  · subst hk; rw [setZone_zones_same]; exact .setNext _ _
  · exact keepsFreed_setZone_ne hk

theorem isoNewZone_keepsFreed {env : NewZoneEnv} {size : Nat} {internal : Bool} {res : Option Nat}
    (h : r.isoNewZone C env size internal = .ok (res, r')) (hk : k ≠ r.zonesUsed) :
    Zone.KeepsFreed s (r.zones k) (r'.zones k) := by
  obtain ⟨-, ⟨-, -, rfl⟩ | ⟨m, z, h1, r2, -, hb, hs, -, rfl⟩⟩ := isoNewZone_ok h
  · exact .refl _
  obtain ⟨hidx, -⟩ := buildZone_fields hb
  rw [← hidx] at hk
  exact (spliceNewZone_keepsFreed hs).trans (keepsFreed_setZone_ne hk)

theorem isoAllocDestroyZoneUnlocked_keepsFreed {env : NewZoneEnv} {j : Nat} {replace : Bool}
    (h : r.isoAllocDestroyZoneUnlocked C env j replace = .ok r') (hj : k ≠ j)
    (hidx : k ≠ (r.zones j).index) : Zone.KeepsFreed s (r.zones k) (r'.zones k) := by
  rcases isoAllocDestroyZoneUnlocked_ok h with ⟨-, -, -, h1, -, hd⟩ | ⟨-, -, res, r1, h1, rfl⟩ |
    ⟨-, -, rfl⟩
  · rcases destroyPrivate_ok hd with ⟨-, calls, rfl⟩ | ⟨-, z1, h2, z2, zr, -, -, -, rfl⟩
    · exact ((keepsFreed_setZone_ne hj).trans (keepsFreed_madviseDontneed _ _)).trans
        (keepsFreed_madviseDontneed _ _)
    · exact ((keepsFreed_setZone_ne hj).trans (keepsFreed_madviseDontneed _ _)).trans
        (keepsFreed_madviseDontneed _ _)
  · have e := isoNewZone_keepsFreed (s := s) (k := k) h1 (by simpa using hidx)
    exact (keepsFreed_setZone_ne hj).trans ((keepsFreed_unmapZone_ne (C := C)
      (r := { r.setZone j (r.zones j).maskZonePtrs with zonesUsed := (r.zones j).index }) hj).trans e)
  · exact (keepsFreed_setZone_ne hj).trans (keepsFreed_unmapZone_ne hj)

end Root

/-- The root events that leave slot `s` of zone `i` to itself: every event
but handing out that slot, destroying zone `i` or the zone re-created at
index `i`, and creating a zone at index `i`. -/
inductive SparesSlot (C : Config) (i s : Nat) : Root → Root → Prop
  | usable {r : Root} {j : Nat} {rand : Nat → Word} {size : Nat} {b : Bool} {z : Zone} :
      (r.zones j).isZoneUsable C rand size = .ok (b, z) → SparesSlot C i s r (r.setZone j z)
  | allocSlot {r : Root} {j : Nat} {p : Word} {z : Zone} {h : Heap} :
      (j ≠ i ∨ (r.zones j).nextFreeBitSlot.toNat ≠ s) → (r.zones j).nextFreeBitSlot ≠ badBitSlot →
      { (r.zones j).maskZonePtrs with nextFreeBitSlot := badBitSlot }.isoAllocBitslotFromZone
        C r.heap (r.zones j).nextFreeBitSlot.toNat = .ok (p, z, h) →
      SparesSlot C i s r ({ r with heap := h }.setZone j z.maskZonePtrs)
  | freeChunk {r : Root} {j : Nat} {p : Word} {perm : Bool} {z : Zone} {h : Heap} :
      (r.zones j).isoFreeChunkFromZone C r.heap p perm = .ok (z, h) →
      SparesSlot C i s r ({ r with heap := h }.setZone j z)
  | newZone {r r' : Root} {env : NewZoneEnv} {size : Nat} {internal : Bool} {res : Option Nat} :
      r.zonesUsed ≠ i → r.isoNewZone C env size internal = .ok (res, r') → SparesSlot C i s r r'
  | destroy {r r' : Root} {env : NewZoneEnv} {j : Nat} {replace : Bool} : j ≠ i →
      (r.zones j).index ≠ i → r.isoAllocDestroyZoneUnlocked C env j replace = .ok r' →
      SparesSlot C i s r r'
  | bigAlloc {r r' : Root} {env : BigAllocEnv} {size : Nat} {p : Word} :
      r.isoBigAlloc C env size = .ok (p, r') → SparesSlot C i s r r'
  | bigFree {r r' : Root} {a : Word} {perm : Bool} :
      r.isoFreeBigZone C a perm = .ok r' → SparesSlot C i s r r'
  | memset {r : Root} {p : Word} {n : Nat} {h : Heap} :
      r.heap.memset p 0 n = .ok h → SparesSlot C i s r { r with heap := h }

namespace SparesSlot

variable {C : Config} {i s : Nat} {r r' : Root}

theorem event (he : SparesSlot C i s r r') : Event C r r' := by
  cases he with
  | usable h => exact .usable h
  | allocSlot _ hb h => exact .allocSlot hb h
  | freeChunk h => exact .freeChunk h
  | newZone _ h => exact .newZone h
  | destroy _ _ h => exact .destroy h
  | bigAlloc h => exact .bigAlloc h
  | bigFree h => exact .bigFree h
  | memset h => exact .memset h

theorem keepsFreed (he : SparesSlot C i s r r') (hs : s % 2 = 0) :
    Zone.KeepsFreed s (r.zones i) (r'.zones i) := by
  cases he with
  | @usable j _ _ _ _ h =>
    by_cases hj : i = j
    · subst hj; rw [Root.setZone_zones_same]
      exact .of_slotBookkeeping (Zone.isZoneUsable_slotBookkeeping h)
    · exact Root.keepsFreed_setZone_ne hj
  | @allocSlot j _ _ _ hne _ h =>
    by_cases hj : i = j
    · subst hj
      obtain ⟨-, -, -, -, -, rfl, -⟩ := Zone.isoAllocBitslotFromZone_ok h
      rw [Root.setZone_zones_same]
      exact .markAllocated hs (hne.resolve_left (not_not.2 rfl))
    · exact Root.keepsFreed_setZone_ne hj
  | @freeChunk j _ _ _ _ h =>
    by_cases hj : i = j
    · subst hj
      obtain ⟨n, -, -, -, -, -, -, -, rfl, -⟩ := Zone.isoFreeChunkFromZone_ok h
      rw [Root.setZone_zones_same]
      exact .markFreed hs (by simp [Nat.shiftLeft_eq]) _
    · exact Root.keepsFreed_setZone_ne hj
  | newZone hne h => exact Root.isoNewZone_keepsFreed h (Ne.symm hne)
  | destroy hj hidx h => exact Root.isoAllocDestroyZoneUnlocked_keepsFreed h (Ne.symm hj) (Ne.symm hidx)
  | bigAlloc h => rw [Root.isoBigAlloc_frame h]; exact .refl _
  | bigFree h =>
    obtain ⟨x, len, he⟩ := Root.isoFreeBigZone_frame h
    rw [he]; exact Root.keepsFreed_madviseDontneed x len
  | memset => exact .refl _

theorem run_keepsFreed (hr : ReflTransGen (SparesSlot C i s) r r') (hs : s % 2 = 0) :
    Zone.KeepsFreed s (r.zones i) (r'.zones i) := by
  induction hr with
  | refl => exact .refl _
  | tail _ he ih => exact ih.trans (he.keepsFreed hs)

end SparesSlot

/-- Once a non-permanent free of `p` has been applied to zone `i`, a free of
`p` applied to zone `i` after any run of events that spares `p`'s slot,
permanent or not, aborts as a double free. -/
theorem freed_chunk_second_free_aborts {C : Config} {r r' : Root} {i : Nat} {p : Word} {z1 : Zone}
    {h1 : Heap} (hfree : (r.zones i).isoFreeChunkFromZone C r.heap p false = .ok (z1, h1))
    (hrun : ReflTransGen (SparesSlot C i ((r.zones i).freeSlot p)) ({ r with heap := h1 }.setZone i z1) r')
    (perm : Bool) :
    (r'.zones i).isoFreeChunkFromZone C r'.heap p perm =
      .error (.abort "Double free of chunk 0x%p detected from zone[%d] dwords_to_bit_slot=%lu bit_slot=%lu") := by
  have hs := Zone.freeSlot_even (r.zones i) p
  obtain ⟨n, hn, -, -, -, -, -, -, rfl, -⟩ := Zone.isoFreeChunkFromZone_ok hfree
  have hslot : (r.zones i).freeSlot p = n <<< 1 := by rw [hn]; rfl
  have hrun' := SparesSlot.run_keepsFreed hrun hs
  rw [Root.setZone_zones_same] at hrun'
  have hk := (Zone.KeepsFreed.markFreed hs (hslot ▸ hs) false).trans hrun'
  refine Zone.isoFreeChunkFromZone_double_free hfree hk.shape ?_
  rw [Zone.freeSlot_of_freeShape hk.shape]
  refine hrun'.low ?_
  rw [hslot]
  exact Zone.lowBit_markFreed_self (hslot ▸ hs)

/-- A big record freed without `permanent` stays on the list marked free, so
a second free of it, permanent or not, aborts as a double free. -/
theorem Root.isoFreeBigZone_second_free_aborts {C : Config} {r r' : Root} {a : Word}
    (h : r.isoFreeBigZone C a false = .ok r') (perm : Bool) :
    r'.isoFreeBigZone C a perm = .error (.abort "Double free of big zone 0x%p has been detected!") := by
  obtain ⟨b, r1, hb, -, hd, ⟨-, rfl⟩ | ⟨he, -⟩⟩ := Root.isoFreeBigZone_ok h
  · obtain ⟨h1, -, rfl⟩ := Root.discardBigPayload_ok hd
    have hr : (({ r with heap := h1 }.madviseDontneed b.userPagesStart b.size).writeBig a
        { b with free := true }).readBig a = .ok { b with free := true } := Root.readBig_writeBig hb
    unfold Root.isoFreeBigZone
    rw [hr]
    rfl
  · cases he

/-- The zone of `canaryChunkZone` with its chunk 0 allocated (`10`) instead. -/
def oneChunkRoot : Root :=
  { Root.empty 4096 Zone.canaryChunkHeap with
    zones := fun i => if i = 0 then { Zone.canaryChunkZone with bitmap := fun k => if k = 0 then 1#64 else 0 }
      else Zone.zeroed
    zonesUsed := 1 }

example :
    ∃ z1 h1, (oneChunkRoot.zones 0).isoFreeChunkFromZone exampleConfig oneChunkRoot.heap
        0x7f0000001000#64 false = .ok (z1, h1) ∧
      (({ oneChunkRoot with heap := h1 }.setZone 0 z1).zones 0).isoFreeChunkFromZone exampleConfig h1
        0x7f0000001000#64 true =
        .error (.abort "Double free of chunk 0x%p detected from zone[%d] dwords_to_bit_slot=%lu bit_slot=%lu") := by
  obtain ⟨⟨z1, h1⟩, hok⟩ := exists_eq_ok_of_isOk (by decide :
    ((oneChunkRoot.zones 0).isoFreeChunkFromZone exampleConfig oneChunkRoot.heap 0x7f0000001000#64 false).isOk)
  exact ⟨z1, h1, hok, freed_chunk_second_free_aborts hok .refl true⟩

set_option maxRecDepth 8000 in
/-- One thread allocates 16 bytes and gets `p`, slot 2 of zone 0. Two
permanent frees of `p` both complete, and the slot reads `11`. A free of `p`
deferred to the quarantine and then a permanent free of `p` also complete,
and the flush then frees the slot once more without an abort: it reads `01`,
free for a later allocation. -/
theorem permanent_double_free_undetected :
    (do
      let r ← Root.initializeGlobalRoot smallZoneConfig smallInitEnv 4096 unmappedHeap
      let s : Sys := ⟨r, fun _ => ThreadState.empty⟩
      let (.ptr p, s) ← s.step smallZoneConfig smallOpEnv 0 (.alloc none 16) | throw .loop
      let (_, s) ← s.step smallZoneConfig smallOpEnv 0 (.free p true)
      let (_, s) ← s.step smallZoneConfig smallOpEnv 0 (.free p true)
      pure (p, (s.root.zones 0).slotBits 2) : Except Stop _).toOption =
      some (0x700000001010#64, (true, true)) ∧
    (do
      let r ← Root.initializeGlobalRoot smallZoneConfig smallInitEnv 4096 unmappedHeap
      let s : Sys := ⟨r, fun _ => ThreadState.empty⟩
      let (.ptr p, s) ← s.step smallZoneConfig smallOpEnv 0 (.alloc none 16) | throw .loop
      let (_, s) ← s.step smallZoneConfig smallOpEnv 0 (.free p false)
      let (_, s) ← s.step smallZoneConfig smallOpEnv 0 (.free p true)
      let (_, s) ← s.step smallZoneConfig smallOpEnv 0 .flushCaches
      pure (p, (s.root.zones 0).slotBits 2) : Except Stop _).toOption =
      some (0x700000001010#64, (false, true)) := by
  decide

end IsoAlloc
