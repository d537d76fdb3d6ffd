import IsoAlloc.FreePath
import IsoAlloc.Isolation

/-!
The canaries of small chunks. `write_canary` puts a canary, the zone's secret
XOR the chunk's address under `CANARY_VALIDATE_MASK`, at the first and the last
word of a chunk when the chunk is freed and when `create_canary_chunks` makes
it a canary chunk; the bitmap marks both with the slot's high bit.
`_iso_alloc_bitslot_from_zone` and the neighbour checks of a free verify it with
`check_canary`. Nothing but the allocator writes memory in the model, so the
checks should never fire: every chunk inside its zone's user pages whose slot
carries the high bit holds both canaries. This holds along every run whose
mappings are fresh and that never calls `iso_alloc_destroy_zone`. That call is
left out for a reason: on a private zone it re-seeds the canaries and then
`madvise`s through the masked bases, which zeroes whatever memory the masked
addresses name.
-/

namespace IsoAlloc

namespace Heap

variable {h h' h'' : Heap}

/-- `h'` holds what `h` holds at every address outside the span `s`. -/
def SameOutside (s : Span) (h h' : Heap) : Prop :=
  ∀ x : Word, (x.toNat < s.lo ∨ s.hi ≤ x.toNat) → h'.mem x = h.mem x

namespace SameOutside

variable {s : Span}

theorem refl (s : Span) (h : Heap) : SameOutside s h h := fun _ _ => rfl

theorem trans (h1 : SameOutside s h h') (h2 : SameOutside s h' h'') : SameOutside s h h'' :=
  fun x hx => (h2 x hx).trans (h1 x hx)

theorem of_mem (he : h'.mem = h.mem) : SameOutside s h h' := fun x _ => congrFun he x

theorem mono {t : Span} (hs : SameOutside s h h') (hlo : t.lo ≤ s.lo) (hhi : s.hi ≤ t.hi) :
    SameOutside t h h' := fun x hx => hs x (by omega)

end SameOutside

theorem write_mem {a v : Word} (hw : h.write a v = .ok h') (x : Word) :
    h'.mem x = if x = a then v else h.mem x := by
  unfold write at hw
  split at hw
  · cases pure_eq_ok.1 hw; exact Function.update_apply _ _ _ _
  · exact absurd hw throw_ne_ok

theorem write_sameOutside {a v : Word} {s : Span} (hw : h.write a v = .ok h')
    (ha : s.lo ≤ a.toNat ∧ a.toNat < s.hi) : SameOutside s h h' := fun x hx => by
  rw [write_mem hw, if_neg]
  rintro rfl; omega

theorem not_inRange {a x : Word} {n : Nat} (hs : a.toNat + n ≤ 2 ^ 64)
    (hx : x.toNat < a.toNat ∨ a.toNat + n ≤ x.toNat) : inRange a n x = false := by
  cases hr : inRange a n x
  · rfl
  · have := (inRange_iff hs x).1 hr; omega

theorem memset_sameOutside {a v : Word} {n : Nat} {s : Span} (hm : h.memset a v n = .ok h')
    (hlo : s.lo ≤ a.toNat) (hhi : a.toNat + n ≤ s.hi) (hs : s.hi ≤ 2 ^ 64) : SameOutside s h h' := by
  unfold memset at hm
  split at hm
  · cases pure_eq_ok.1 hm
    intro x hx
    simp only [not_inRange (by omega : a.toNat + n ≤ 2 ^ 64) (by omega : x.toNat < a.toNat ∨ a.toNat + n ≤ x.toNat),
      Bool.false_eq_true, if_false]
  · exact absurd hm throw_ne_ok

theorem madviseDontneed_sameOutside {a : Word} {n : Nat} {s : Span} (hlo : s.lo ≤ a.toNat)
    (hhi : a.toNat + n ≤ s.hi) (hs : s.hi ≤ 2 ^ 64) : SameOutside s h (h.madviseDontneed a n) := by
  intro x hx
  simp only [madviseDontneed, not_inRange (by omega : a.toNat + n ≤ 2 ^ 64)
    (by omega : x.toNat < a.toNat ∨ a.toNat + n ≤ x.toNat), Bool.false_eq_true, if_false]

@[simp] theorem protect_mem (a : Word) (n : Nat) (b : Bool) : (h.protect a n b).mem = h.mem := rfl

theorem read_eq_ok {a v : Word} (hr : h.read a = .ok v) : v = h.mem a := by
  unfold read at hr
  split at hr
  · exact (pure_eq_ok.1 hr).symm
  · exact absurd hr throw_ne_ok

theorem read_onlyFaults (a : Word) : OnlyFaults (h.read a) := .ite (fun _ => .pure _) fun _ => .segv _

end Heap

namespace OnlyFaults

theorem forM {α : Type} {l : List α} {f : α → Except Stop PUnit} (hf : ∀ a ∈ l, OnlyFaults (f a)) :
    OnlyFaults (l.forM f) := by
  induction l with
  | nil => exact .pure _
  | cons a l ih =>
    exact .bind (hf a (List.mem_cons_self _ _)) fun _ _ => ih fun b hb => hf b (List.mem_cons_of_mem _ hb)

end OnlyFaults

namespace Zone

variable {C : Config} {z z' : Zone} {h h' : Heap} {s : Span}

/-- The base of chunk `n`, through the zone's real user base. -/
def chunkBase (z : Zone) (n : Nat) : Word := z.userBase + BitVec.ofNat 64 (n * z.chunkSize)

/-- The last word of chunk `n`, where `write_canary` puts its second canary. -/
def chunkLast (z : Zone) (n : Nat) : Word := z.chunkBase n + BitVec.ofNat 64 (z.chunkSize - 8)

/-- Chunk `n` holds in `h` the canary of its base at its first and its last
word. -/
def HoldsCanary (C : Config) (h : Heap) (z : Zone) (n : Nat) : Prop :=
  h.mem (z.chunkBase n) = z.canaryAt C (z.chunkBase n) ∧
    h.mem (z.chunkLast n) = z.canaryAt C (z.chunkBase n)

/-- A mapped zone's chunks inside its user pages whose slot carries the high
bit, freed chunks and canary chunks, hold their canaries in `h`. -/
def CanariesHeld (C : Config) (h : Heap) (z : Zone) : Prop :=
  z.mapped = true → ∀ n, n * z.chunkSize + z.chunkSize ≤ C.zoneUserSize →
    z.highBit (2 * n) = true → z.HoldsCanary C h n

/-- A change of a zone record that keeps where its chunks are and its secret,
and maps nothing new. -/
structure SamePlace (z z' : Zone) : Prop where
  chunkSize : z'.chunkSize = z.chunkSize
  userBase : z'.userBase = z.userBase
  canarySecret : z'.canarySecret = z.canarySecret
  mapped : z'.mapped = true → z.mapped = true

/-- A change of a zone record that keeps its canaries: in the same place, and
no new high bit. -/
structure KeepsCanaries (z z' : Zone) extends SamePlace z z' : Prop where
  high : ∀ n, z'.highBit (2 * n) = true → z.highBit (2 * n) = true

namespace KeepsCanaries

theorem refl (z : Zone) : KeepsCanaries z z := ⟨⟨rfl, rfl, rfl, id⟩, fun _ => id⟩

theorem trans {z'' : Zone} (h1 : KeepsCanaries z z') (h2 : KeepsCanaries z' z'') : KeepsCanaries z z'' :=
  ⟨⟨h2.chunkSize.trans h1.chunkSize, h2.userBase.trans h1.userBase, h2.canarySecret.trans h1.canarySecret,
    fun h => h1.mapped (h2.mapped h)⟩, fun n h => h1.high n (h2.high n h)⟩

theorem of_bitmap (hb : z'.bitmap = z.bitmap) (hc : z'.chunkSize = z.chunkSize) (hu : z'.userBase = z.userBase)
    (hs : z'.canarySecret = z.canarySecret) (hm : z'.mapped = z.mapped) : KeepsCanaries z z' :=
  ⟨⟨hc, hu, hs, fun h => hm ▸ h⟩, fun n h => by simpa only [highBit, hb] using h⟩

theorem maskZonePtrs (z : Zone) : KeepsCanaries z z.maskZonePtrs := of_bitmap rfl rfl rfl rfl rfl

theorem slotBookkeeping (h : SlotBookkeeping z z') : KeepsCanaries z z' := by
  rw [h]; exact of_bitmap rfl rfl rfl rfl rfl

theorem madvise (z : Zone) (a : Word) (len : Nat) :
    KeepsCanaries z { z with bitmap := Root.Zone.bitmapAfterMadvise a len z } := by
  refine ⟨⟨rfl, rfl, rfl, id⟩, fun n h => ?_⟩
  simp only [highBit, Root.Zone.bitmapAfterMadvise] at h ⊢
  split at h
  · simp [getBit] at h
  · exact h

end KeepsCanaries

theorem chunkBase_toNat {n : Nat} (hfit : z.userBase.toNat + n * z.chunkSize + z.chunkSize ≤ 2 ^ 64)
    (hpos : 0 < z.chunkSize) : (z.chunkBase n).toNat = z.userBase.toNat + n * z.chunkSize :=
  toNat_add_ofNat (by omega)

theorem chunkLast_toNat {n : Nat} (hfit : z.userBase.toNat + n * z.chunkSize + z.chunkSize ≤ 2 ^ 64)
    (hpos : 0 < z.chunkSize) :
    (z.chunkLast n).toNat = z.userBase.toNat + n * z.chunkSize + (z.chunkSize - 8) := by
  rw [chunkLast, toNat_add_ofNat (by rw [chunkBase_toNat hfit hpos]; omega), chunkBase_toNat hfit hpos]

theorem HoldsCanary.transfer {n : Nat} (hc : z.HoldsCanary C h n) (hk : SamePlace z z')
    (hs : Heap.SameOutside s h h') (hap : (z.chunkSpan n).Apart s)
    (hfit : z.userBase.toNat + n * z.chunkSize + z.chunkSize ≤ 2 ^ 64) (hpos : 0 < z.chunkSize) :
    z'.HoldsCanary C h' n := by
  have hb := chunkBase_toNat hfit hpos
  have hl := chunkLast_toNat hfit hpos
  have e1 : z'.chunkBase n = z.chunkBase n := by rw [chunkBase, chunkBase, hk.userBase, hk.chunkSize]
  have e2 : z'.chunkLast n = z.chunkLast n := by rw [chunkLast, chunkLast, e1, hk.chunkSize]
  have ec : z'.canaryAt C = z.canaryAt C := by funext p; rw [canaryAt, canaryAt, hk.canarySecret]
  unfold chunkSpan Span.Apart at hap
  dsimp only at hap
  rw [HoldsCanary, e1, e2, ec, hs _ (by omega), hs _ (by omega)]
  exact hc

theorem CanariesHeld.transfer {page : Nat} (hc : z.CanariesHeld C h) (hk : KeepsCanaries z z')
    (hs : Heap.SameOutside s h h') (hap : z.mapped = true → (zoneSpan C page z).Apart s)
    (hfit : z.mapped = true → z.userBase.toNat + C.zoneUserSize ≤ 2 ^ 64)
    (hpos : z.mapped = true → 0 < z.chunkSize) : z'.CanariesHeld C h' := by
  intro hm n hn hb
  have hm0 := hk.mapped hm
  rw [hk.chunkSize] at hn
  exact (hc hm0 n hn (hk.high n hb)).transfer hk.toSamePlace hs ((hap hm0).chunk hn) (by have := hfit hm0; omega)
    (hpos hm0)

theorem CanariesHeld.chunk {n : Nat} (hc : z.CanariesHeld C h) (hk : SamePlace z z')
    (hhigh : ∀ k, k ≠ n → z'.highBit (2 * k) = true → z.highBit (2 * k) = true)
    (hs : Heap.SameOutside (z.chunkSpan n) h h') (hnew : z'.highBit (2 * n) = true → z'.HoldsCanary C h' n)
    (hfit : z.mapped = true → z.userBase.toNat + C.zoneUserSize ≤ 2 ^ 64)
    (hpos : z.mapped = true → 0 < z.chunkSize) : z'.CanariesHeld C h' := by
  intro hm k hk' hb
  by_cases hkn : k = n
  · subst hkn; exact hnew hb
  have hm0 := hk.mapped hm
  rw [hk.chunkSize] at hk'
  exact (hc hm0 k hk' (hhigh k hkn hb)).transfer hk hs (chunkSpan_apart hkn) (by have := hfit hm0; omega)
    (hpos hm0)

theorem CanariesHeld.of_keeps (hc : z.CanariesHeld C h) (hk : KeepsCanaries z z') (hm : h'.mem = h.mem) :
    z'.CanariesHeld C h' := by
  intro hm' n hn hb
  rw [hk.chunkSize] at hn
  have e := hc (hk.mapped hm') n hn (hk.high n hb)
  unfold HoldsCanary chunkLast chunkBase canaryAt at e ⊢
  rw [hm, hk.userBase, hk.chunkSize, hk.canarySecret]
  exact e

/-! ### What the zone helpers do to the canaries -/

theorem highBit_markAllocated {s t : Nat} (hs : s % 2 = 0) (ht : t % 2 = 0) :
    (z.markAllocated t).highBit s = (z.highBit s && !decide (s = t)) := by
  have e := congrArg Prod.snd (slotBits_markAllocated (z := z) hs ht)
  simp only [slotBits] at e
  rw [e]; split <;> simp_all

theorem highBit_markFreed {s t : Nat} (hs : s % 2 = 0) (ht : t % 2 = 0) (perm : Bool) :
    (z.markFreed t perm).highBit s = (z.highBit s || decide (s = t)) := by
  have e := congrArg Prod.snd (slotBits_markFreed (z := z) hs ht perm)
  simp only [slotBits] at e
  rw [e]; split <;> simp_all

theorem SamePlace.markFreed (z : Zone) (t : Nat) (perm : Bool) : SamePlace z (z.markFreed t perm) := by
  unfold Zone.markFreed
  split
  · exact ⟨rfl, rfl, rfl, id⟩
  · rw [insertFreeBitSlot_eq]; exact ⟨rfl, rfl, rfl, id⟩

theorem writeCanary_holds {p : Word} {n : Nat} (hw : z.writeCanary C h p = .ok h') (hp : p = z.chunkBase n) :
    z.HoldsCanary C h' n := by
  obtain ⟨h1, e1, e2⟩ := bind_eq_ok.1 hw
  have hl : z.chunkLast n = p + BitVec.ofNat 64 (z.chunkSize - 8) := by rw [chunkLast, hp]
  rw [HoldsCanary, ← hp, hl, Heap.write_mem e2, Heap.write_mem e2, Heap.write_mem e1, if_pos rfl, if_pos rfl]
  exact ⟨by split <;> rfl, rfl⟩

theorem writeCanary_sameOutside {w : Zone} {p : Word} {n : Nat} (hw : w.writeCanary C h p = .ok h')
    (hcs : w.chunkSize = z.chunkSize) (hp : p = z.chunkBase n)
    (hfit : z.userBase.toNat + n * z.chunkSize + z.chunkSize ≤ 2 ^ 64) (hpos : 0 < z.chunkSize) :
    Heap.SameOutside (z.chunkSpan n) h h' := by
  obtain ⟨h1, e1, e2⟩ := bind_eq_ok.1 hw
  have hb := chunkBase_toNat hfit hpos
  have hl := chunkLast_toNat hfit hpos
  rw [chunkLast, ← hp] at hl
  rw [← hp] at hb
  rw [hcs] at e2
  refine (Heap.write_sameOutside e1 ?_).trans (Heap.write_sameOutside e2 ?_) <;>
    simp only [chunkSpan] <;> omega

theorem eq_chunkBase_of_aligned {p : Word} {k : Nat} (hk : z.chunkSize = 2 ^ k) (hcs : z.chunkSize ≤ 2 ^ 64)
    (hu : z.unmaskUserPtr = z.userBase) (ha : (p - z.unmaskUserPtr) &&& BitVec.ofNat 64 (z.chunkSize - 1) = 0) :
    p = z.chunkBase ((p - z.unmaskUserPtr).toNat / z.chunkSize) := by
  rw [hu] at ha ⊢
  have hmod : (p - z.userBase).toNat % z.chunkSize = 0 := by
    have e := congrArg BitVec.toNat ha
    rwa [BitVec.toNat_and, BitVec.toNat_ofNat, hk, Nat.mod_eq_of_lt (by omega), Nat.and_pow_two_sub_one_eq_mod,
      ← hk] at e
  rw [chunkBase, Nat.div_mul_cancel (Nat.dvd_of_mod_eq_zero hmod), BitVec.ofNat_toNat, BitVec.setWidth_eq,
    BitVec.add_comm, BitVec.sub_add_cancel]

theorem CanariesHeld.allocBitslot {n : Nat} {p : Word} (hc : z.CanariesHeld C h)
    (hok : z.isoAllocBitslotFromZone C h (2 * n) = .ok (p, z', h')) (hu : z.userPagesStart = z.userBase)
    (hfit : z.userBase.toNat + C.zoneUserSize ≤ 2 ^ 64) (hpos : 0 < z.chunkSize)
    (hn : n * z.chunkSize + z.chunkSize ≤ C.zoneUserSize) :
    p = z.chunkBase n ∧ Heap.SameOutside (z.chunkSpan n) h h' ∧
      ∀ h'', Heap.SameOutside (z.chunkSpan n) h h'' → z'.CanariesHeld C h'' := by
  obtain ⟨-, -, -, -, rfl, rfl, hmem⟩ := isoAllocBitslotFromZone_ok hok
  have hp : z.pointerFromBitslot (2 * n) = z.chunkBase n := by
    rw [pointerFromBitslot, hu, chunkBase, Nat.shiftRight_eq_div_pow, Nat.pow_one,
      Nat.mul_div_cancel_left _ (by decide)]
  refine ⟨hp, ?_, fun h'' hs => hc.chunk ⟨rfl, rfl, rfl, id⟩ (fun k hk hb => ?_) hs (fun hb => ?_) (fun _ => hfit)
    (fun _ => hpos)⟩
  · unfold allocChunkMemory at hmem
    split at hmem
    · obtain ⟨-, -, hw⟩ := bind_eq_ok.1 hmem
      have hb := chunkBase_toNat (n := n) (by omega) hpos
      rw [hp] at hw
      exact Heap.write_sameOutside hw (by simp only [chunkSpan]; omega)
    · cases pure_eq_ok.1 hmem; exact .refl _ _
  · rw [highBit_markAllocated (by omega) (by omega)] at hb
    simp only [Bool.and_eq_true] at hb
    exact hb.1
  · rw [highBit_markAllocated (by omega) (by omega)] at hb
    simp at hb

theorem CanariesHeld.freeChunk {p : Word} {perm : Bool} {k : Nat} (hc : z.CanariesHeld C h)
    (hok : z.isoFreeChunkFromZone C h p perm = .ok (z', h')) (hu : z.unmaskUserPtr = z.userBase)
    (hk : z.chunkSize = 2 ^ k) (hfit : z.userBase.toNat + C.zoneUserSize ≤ 2 ^ 64)
    (hused : ∀ n, z.lowBit (2 * n) = true → n * z.chunkSize + z.chunkSize ≤ C.zoneUserSize) :
    ∃ n, n * z.chunkSize + z.chunkSize ≤ C.zoneUserSize ∧ Heap.SameOutside (z.chunkSpan n) h h' ∧
      z'.CanariesHeld C h' := by
  obtain ⟨n, hn, -, halign, -, -, -, hlow, rfl, hmem⟩ := isoFreeChunkFromZone_ok hok
  have h2n : n <<< 1 = 2 * n := by rw [Nat.shiftLeft_eq, Nat.pow_one, Nat.mul_comm]
  rw [h2n] at hlow hmem ⊢
  have hin := hused n hlow
  have hpos : 0 < z.chunkSize := by rw [hk]; exact Nat.pos_pow_of_pos _ (by decide)
  have hp : p = z.chunkBase n := hn ▸ eq_chunkBase_of_aligned hk (by omega) hu halign
  have hpn : p.toNat = z.userBase.toNat + n * z.chunkSize := by rw [hp]; exact chunkBase_toNat (by omega) hpos
  have hsp := SamePlace.markFreed z (2 * n) perm
  obtain ⟨h1, hclear, hkeep, hw⟩ := freeChunkMemory_ok hmem
  have hs1 : Heap.SameOutside (z.chunkSpan n) h h1 := by
    cases hb : (perm || C.sanitizeChunks)
    · rw [hkeep hb]; exact .refl _ _
    · have hm : h.memset p poisonWord z.chunkSize = .ok h1 := by rw [← hsp.chunkSize]; exact hclear hb
      exact Heap.memset_sameOutside hm (by simp only [chunkSpan]; omega) (by simp only [chunkSpan]; omega)
        (by simp only [chunkSpan]; omega)
  have hs := hs1.trans (writeCanary_sameOutside hw hsp.chunkSize hp (by omega) hpos)
  have hp' : p = (z.markFreed (2 * n) perm).chunkBase n := by rw [hp, chunkBase, chunkBase, hsp.userBase, hsp.chunkSize]
  refine ⟨n, hin, hs, hc.chunk hsp (fun j hj hb => ?_) hs (fun _ => ?_) (fun _ => hfit) (fun _ => hpos)⟩
  · rw [highBit_markFreed (by omega) (by omega)] at hb
    simpa [show 2 * j ≠ 2 * n by omega] using hb
  · exact writeCanary_holds hw hp'

theorem highBit_setCanary (i n : Nat) :
    ({ z with bitmap := Function.update z.bitmap i (setBit (setBit (z.bitmap i) 0) 1) } : Zone).highBit (2 * n) =
      (z.highBit (2 * n) || decide (n = 32 * i)) := by
  simp only [highBit, Function.update_apply, wordOfSlot_eq, whichBit]
  split
  · rename_i hw
    rw [← hw, getBit_setBit, getBit_setBit, show decide (2 * n % 64 + 1 = 0 ∧ 0 < 64) = false by simp,
      Bool.or_false, decide_eq_decide.2 (show 2 * n % 64 + 1 = 1 ∧ 1 < 64 ↔ n = 32 * (2 * n / 64) by omega)]
  · rename_i hw
    rw [decide_eq_false (show ¬n = 32 * i by omega), Bool.or_false]

theorem CanariesHeld.addCanaryChunk {i : Nat} (hc : z.CanariesHeld C h) (hok : z.addCanaryChunk C h i = .ok (z', h'))
    (hu : z.userPagesStart = z.userBase) (hfit : z.userBase.toNat + C.zoneUserSize ≤ 2 ^ 64)
    (hpos : 0 < z.chunkSize) (hi : 32 * i * z.chunkSize + z.chunkSize ≤ C.zoneUserSize) :
    z'.CanariesHeld C h' ∧ Heap.SameOutside (z.chunkSpan (32 * i)) h h' := by
  unfold Zone.addCanaryChunk at hok
  split at hok
  · cases pure_eq_ok.1 hok; exact ⟨hc, .refl _ _⟩
  obtain ⟨h1, hw, hok⟩ := bind_eq_ok.1 hok
  cases pure_eq_ok.1 hok
  have hp : ({ z with bitmap := Function.update z.bitmap i (setBit (setBit (z.bitmap i) 0) 1) } : Zone).pointerFromBitslot
      (i <<< 6) = z.chunkBase (32 * i) := by
    rw [pointerFromBitslot, chunkBase, ← hu, show i <<< 6 >>> 1 = 32 * i by
      rw [Nat.shiftLeft_eq, Nat.shiftRight_eq_div_pow]; omega]
  have hs := writeCanary_sameOutside hw (by rfl) hp (by omega) hpos
  refine ⟨hc.chunk ⟨rfl, rfl, rfl, id⟩ (fun k hk hb => ?_) hs (fun _ => writeCanary_holds hw hp) (fun _ => hfit)
    (fun _ => hpos), hs⟩
  rw [highBit_setCanary] at hb
  simpa [hk] using hb

theorem HoldsCanary.checkCanary {w : Zone} {n : Nat} (hc : z.HoldsCanary C h n)
    (hcs : w.chunkSize = z.chunkSize) (hsec : w.canarySecret = z.canarySecret) :
    OnlyFaults (w.checkCanary C h (z.chunkBase n)) := by
  have ec : w.canaryAt C (z.chunkBase n) = z.canaryAt C (z.chunkBase n) := by rw [canaryAt, canaryAt, hsec]
  refine .bind (Heap.read_onlyFaults _) fun v hv => .ite (fun hne => absurd ?_ hne) fun _ =>
    .bind (.pure _) fun _ _ => .bind (Heap.read_onlyFaults _) fun v' hv' => .ite (fun hne => absurd ?_ hne)
      fun _ => .pure _
  · rw [Heap.read_eq_ok hv, ec]; exact hc.1
  · rw [Heap.read_eq_ok hv', ec, hcs]; exact hc.2

theorem readBitmap_eq_ok {bm w : Word} {k : Nat} (hr : z.readBitmap bm k = .ok w) :
    z.mapped = true ∧ w = z.bitmap k := by
  unfold readBitmap at hr
  split at hr
  · exact ⟨‹_ ∧ _›.1, (Except.ok.inj hr).symm⟩
  · cases hr

theorem readBitmap_onlyFaults (bm : Word) (k : Nat) : OnlyFaults (z.readBitmap bm k) := fun e he => by
  unfold readBitmap at he
  split at he
  · cases he
  · exact ⟨_, (Except.error.inj he).symm⟩

theorem highBit_two_mul (z : Zone) {k m : Nat} (hm : m < 32) :
    z.highBit (2 * (32 * k + m)) = getBit (z.bitmap k) (2 * m + 1) := by
  simp only [highBit, wordOfSlot_eq, whichBit]
  rw [show 2 * (32 * k + m) / 64 = k by omega, show 2 * (32 * k + m) % 64 + 1 = 2 * m + 1 by omega]

/-- The user pages of a zone. -/
def userSpan (C : Config) (z : Zone) : Span := ⟨z.userBase.toNat, z.userBase.toNat + C.zoneUserSize⟩

theorem canary_chunk_le {i : Nat} (hg : Geometry C z) (hpos : 0 < z.chunkSize)
    (h32 : 32 * z.chunkSize ≤ C.zoneUserSize) (hi : i < z.getMaxBitmaskIndex) :
    32 * i * z.chunkSize + z.chunkSize ≤ C.zoneUserSize := by
  have := hg.slot_chunk_le hpos h32 (n := i <<< 6) (by rw [Nat.shiftLeft_eq]; omega)
  rwa [show i <<< 6 >>> 1 = 32 * i by rw [Nat.shiftLeft_eq, Nat.shiftRight_eq_div_pow]; omega] at this

theorem CanariesHeld.canaryLoop (hA : ∀ m, C.alignSzDown m ≤ m) {rand : Nat → Word} {k n : Nat}
    (hc : z.CanariesHeld C h) (hok : canaryLoop C rand k n z h = .ok (z', h')) (hu : z.userPagesStart = z.userBase)
    (hfit : z.userBase.toNat + C.zoneUserSize ≤ 2 ^ 64) (hpos : 0 < z.chunkSize) (hg : Geometry C z)
    (h32 : 32 * z.chunkSize ≤ C.zoneUserSize) (h2 : 0 < k → 2 ≤ z.getMaxBitmaskIndex) :
    z'.CanariesHeld C h' ∧ Heap.SameOutside (z.userSpan C) h h' := by
  induction k generalizing n z h with
  | zero =>
    obtain ⟨rfl, rfl⟩ := Prod.mk.inj (pure_eq_ok.1 hok)
    exact ⟨hc, .refl _ _⟩
  | succ k ih =>
    obtain ⟨⟨z1, h1⟩, hadd, hok⟩ := bind_eq_ok.1 hok
    have e := addCanaryChunk_ok hadd
    have hin := canary_chunk_le hg hpos h32 (canaryWord_lt hA (h2 (Nat.succ_pos k)) rand n)
    obtain ⟨hc1, hs1⟩ := hc.addCanaryChunk hadd hu hfit hpos hin
    obtain ⟨hc', hs'⟩ := ih hc1 hok (by rw [e]; exact hu) (by rw [e]; exact hfit) (by rw [e]; exact hpos)
      (by rw [e]; exact hg) (by rw [e]; exact h32) (fun _ => by rw [e]; exact h2 (Nat.succ_pos k))
    refine ⟨hc', (hs1.mono ?_ ?_).trans ?_⟩
    · simp only [chunkSpan, userSpan]; omega
    · simp only [chunkSpan, userSpan]; omega
    · rw [e] at hs'; exact hs'

theorem CanariesHeld.createCanaryChunks (hA : ∀ m, C.alignSzDown m ≤ m) {rand : Nat → Word}
    (hc : z.CanariesHeld C h) (hok : z.createCanaryChunks C rand h = .ok (z', h')) (hu : z.userPagesStart = z.userBase)
    (hfit : z.userBase.toNat + C.zoneUserSize ≤ 2 ^ 64) (hpos : 0 < z.chunkSize) (hg : Geometry C z)
    (h32 : 32 * z.chunkSize ≤ C.zoneUserSize) : z'.CanariesHeld C h' ∧ Heap.SameOutside (z.userSpan C) h h' := by
  unfold Zone.createCanaryChunks at hok
  split at hok
  · obtain ⟨rfl, rfl⟩ := Prod.mk.inj (pure_eq_ok.1 hok)
    exact ⟨hc, .refl _ _⟩
  obtain ⟨-, -, hloop⟩ := bind_eq_ok.1 hok
  exact hc.canaryLoop hA hloop hu hfit hpos hg h32 hg.two_le

end Zone

namespace Root

open Relation

variable {C : Config} {r r' : Root}

/-- Every zone of the root holds the canaries its high bits promise. -/
def CanariesHeld (C : Config) (r : Root) : Prop := ∀ i, (r.zones i).CanariesHeld C r.heap

/-- Where the mapped zones of a root sit: they have a chunk size, and their
user pages do not wrap. -/
structure ZonesPlaced (C : Config) (r : Root) : Prop where
  pos : ∀ j, (r.zones j).mapped = true → 0 < (r.zones j).chunkSize
  fit : ∀ j, (r.zones j).mapped = true → (r.zones j).userBase.toNat + C.zoneUserSize ≤ 2 ^ 64

theorem SizeChains.sized (hsc : SizeChains C r) {j : Nat} (hm : (r.zones j).mapped = true) :
    newZoneSize C (r.zones j).chunkSize = some (r.zones j).chunkSize := by
  have hlive : (r.zones j).live = true := by simp only [Zone.live, hm, Bool.or_true]
  exact (hsc.live j (Nat.lt_of_not_le fun hle => by simp [hsc.dead j hle] at hlive) hlive).2

theorem ZonesPlaced.of_layout (hl : Layout C r) (hsc : SizeChains C r) : ZonesPlaced C r where
  pos _ hm := by have := (newZoneSize_pow2 (hsc.sized hm)).2.1; unfold smallestChunkSz at this; omega
  fit _ hm := by have := (hl.zone _ hm).high; omega

theorem ZonesPlaced.keep (hp : ZonesPlaced C r) (hz : ∀ j, (r.zones j).KeepsCanaries (r'.zones j)) :
    ZonesPlaced C r' where
  pos j hm := by rw [(hz j).chunkSize]; exact hp.pos j ((hz j).mapped hm)
  fit j hm := by rw [(hz j).userBase]; exact hp.fit j ((hz j).mapped hm)

theorem CanariesHeld.keep (hcan : r.CanariesHeld C) (hz : ∀ i, (r.zones i).KeepsCanaries (r'.zones i))
    (hm : r'.heap.mem = r.heap.mem) : r'.CanariesHeld C :=
  fun i => (hcan i).of_keeps (hz i) hm

theorem KeepsCanaries.setZone {i : Nat} {z : Zone} (hz : (r.zones i).KeepsCanaries z) (j : Nat) :
    (r.zones j).KeepsCanaries ((r.setZone i z).zones j) := by
  by_cases hji : j = i
  · subst hji; rw [setZone_zones_same]; exact hz
  · rw [setZone_zones_ne _ _ _ _ hji]; exact .refl _

theorem KeepsCanaries.unmapZone (i j : Nat) : (r.zones j).KeepsCanaries ((r.unmapZone C i).zones j) := by
  by_cases hji : j = i
  · subst hji
    show (r.zones j).KeepsCanaries (Function.update r.zones j _ j)
    rw [Function.update_same]
    exact ⟨⟨rfl, rfl, rfl, fun hm => by rw [Bool.and_eq_true] at hm; exact hm.1⟩, fun _ => id⟩
  · show (r.zones j).KeepsCanaries (Function.update r.zones i _ j)
    rw [Function.update_noteq hji]
    exact .refl _

theorem CanariesHeld.fresh (hcan : r.CanariesHeld C) (hp : ZonesPlaced C r) {k : Nat} {s : Span}
    (hap : ∀ j, j ≠ k → (r.zones j).mapped = true → (zoneSpan C r.systemPageSize (r.zones j)).Apart s)
    (hz : ∀ j, j ≠ k → (r.zones j).KeepsCanaries (r'.zones j)) (hs : Heap.SameOutside s r.heap r'.heap)
    (hk : (r'.zones k).CanariesHeld C r'.heap) : r'.CanariesHeld C := fun j => by
  by_cases hjk : j = k
  · subst hjk; exact hk
  · exact (hcan j).transfer (hz j hjk) hs (hap j hjk) (hp.fit j) (hp.pos j)

theorem CanariesHeld.chunkWrite (hcan : r.CanariesHeld C) (hp : ZonesPlaced C r) (hiso : Isolated C r)
    {i n : Nat} {z : Zone} {h : Heap} (hmi : (r.zones i).mapped = true)
    (hn : n * (r.zones i).chunkSize + (r.zones i).chunkSize ≤ C.zoneUserSize)
    (hs : Heap.SameOutside ((r.zones i).chunkSpan n) r.heap h) (hz : z.CanariesHeld C h) :
    ({ r with heap := h }.setZone i z).CanariesHeld C :=
  hcan.fresh (k := i) hp (fun j hji hmj => ((hiso.zones j i hji hmj hmi).symm.chunk hn).symm)
    (fun j hji => by rw [setZone_zones_ne _ _ _ _ hji]; exact .refl _) hs (by rw [setZone_zones_same]; exact hz)

/-! ### New zones -/

theorem buildZone_canaries (hA : ∀ m, C.alignSzDown m ≤ m) {env : NewZoneEnv} {size : Nat} {internal : Bool}
    {z : Zone} {h : Heap} (hb : r.buildZone C env size internal = .ok (z, h)) (hpos : 0 < size)
    (h32 : 32 * size ≤ C.zoneUserSize) (hfit : (env.span C r.systemPageSize).hi ≤ 2 ^ 64) :
    z.CanariesHeld C h ∧ Heap.SameOutside (env.span C r.systemPageSize) r.heap h := by
  obtain ⟨z1, hcan, z2, hfill, rfl⟩ := buildZone_ok hb
  have hs : (env.span C r.systemPageSize).hi = env.userMap.toNat + C.zoneUserSize + 2 * r.systemPageSize := rfl
  have hu : (freshZone C r env size internal).1.userBase.toNat = env.userMap.toNat + r.systemPageSize :=
    toNat_add_ofNat (by omega)
  have h0 : (freshZone C r env size internal).1.CanariesHeld C (freshZone C r env size internal).2 :=
    fun _ n _ hb => by simp [freshZone, Zone.zeroed, Zone.highBit, getBit] at hb
  have hs0 : Heap.SameOutside (env.span C r.systemPageSize) r.heap (freshZone C r env size internal).2 :=
    (Heap.madviseDontneed_sameOutside (a := env.userMap) (n := C.zoneUserSize + (r.systemPageSize <<< 1))
      (Nat.le_refl _) (by rw [hs, Nat.shiftLeft_eq, Nat.pow_one]; omega) hfit).trans (.of_mem rfl)
  obtain ⟨hc1, hs1⟩ := h0.createCanaryChunks hA hcan rfl (by omega) hpos rfl h32
  refine ⟨hc1.of_keeps (.slotBookkeeping ((Zone.SlotBookkeeping.fill hfill).trans (.getNextFreeBitSlot z2))) rfl,
    hs0.trans (hs1.mono ?_ ?_)⟩
  · show env.userMap.toNat ≤ (freshZone C r env size internal).1.userBase.toNat
    omega
  · show (freshZone C r env size internal).1.userBase.toNat + C.zoneUserSize ≤
      env.userMap.toNat + C.zoneUserSize + 2 * r.systemPageSize
    omega

theorem spliceWalk_keeps {size index fuel i : Nat} (h : spliceWalk size index fuel i r = .ok r') :
    r'.heap = r.heap ∧ ∀ j, (r.zones j).KeepsCanaries (r'.zones j) := by
  rcases spliceWalk_ok h with rfl | ⟨j, -, -, -, rfl⟩
  · exact ⟨rfl, fun _ => .refl _⟩
  · exact ⟨rfl, KeepsCanaries.setZone (.of_bitmap rfl rfl rfl rfl rfl)⟩

theorem spliceNewZone_keeps {z : Zone} (h : spliceNewZone C r z = .ok r') :
    r'.heap = r.heap ∧ ∀ j, (r.zones j).KeepsCanaries (r'.zones j) := by
  rcases spliceNewZone_ok h with ⟨-, rfl⟩ | ⟨-, ⟨-, rfl⟩ | ⟨-, hw⟩⟩
  · exact ⟨rfl, fun _ => .refl _⟩
  · exact ⟨rfl, fun _ => .refl _⟩
  · obtain ⟨hh, hk⟩ := spliceWalk_keeps hw
    exact ⟨hh, hk⟩

theorem CanariesHeld.isoNewZone (hC : LayoutConfig C) (hcan : r.CanariesHeld C) (hp : ZonesPlaced C r)
    {env : NewZoneEnv} {size : Nat} {internal : Bool} {res : Option Nat}
    (hap : ∀ j, j ≠ r.zonesUsed → (r.zones j).mapped = true →
      (zoneSpan C r.systemPageSize (r.zones j)).Apart (env.span C r.systemPageSize))
    (hfit : (env.span C r.systemPageSize).hi ≤ 2 ^ 64) (h : r.isoNewZone C env size internal = .ok (res, r')) :
    r'.CanariesHeld C := by
  obtain ⟨-, ⟨-, -, rfl⟩ | ⟨m, z, h1, r2, hm, hb, hs, -, rfl⟩⟩ := isoNewZone_ok h
  · exact hcan
  obtain ⟨-, h16, hmax⟩ := newZoneSize_pow2 hm
  have h32 : 32 * m ≤ C.zoneUserSize := by
    have := hC.chunks; have := hC.smallest_le; unfold smallestChunkSz at *; omega
  obtain ⟨hcz, hs0⟩ := buildZone_canaries hC.alignDown hb (by unfold smallestChunkSz at h16; omega) h32 hfit
  obtain ⟨hh, hk⟩ := spliceNewZone_keeps hs
  have hidx := (buildZone_fields hb).1
  refine hcan.fresh hp hap (fun j hj => ?_) (by show Heap.SameOutside _ _ r2.heap; rw [hh]; exact hs0) ?_
  · show (r.zones j).KeepsCanaries ((r2.setZone z.index z.maskZonePtrs).zones j)
    rw [setZone_zones_ne _ _ _ _ (hidx ▸ hj)]
    exact hk j
  · show ((r2.setZone z.index z.maskZonePtrs).zones r.zonesUsed).CanariesHeld C r2.heap
    rw [← hidx, setZone_zones_same, hh]
    exact hcz.of_keeps (.maskZonePtrs z) rfl

theorem CanariesHeld.retire (hC : LayoutConfig C) (hcan : r.CanariesHeld C) (hp : ZonesPlaced C r)
    (hsc : SizeChains C r) {E : Nat → NewZoneEnv} (hf : FreshZoneDraws C r E) {i : Nat}
    (hint : (r.zones i).internal = true) (h : r.isoAllocDestroyZoneUnlocked C (E i) i true = .ok r') :
    r'.CanariesHeld C := by
  rcases isoAllocDestroyZoneUnlocked_ok h with ⟨hpriv, -⟩ | ⟨-, -, res, r1, hn, rfl⟩ | ⟨-, hr, -⟩
  · rw [hint] at hpriv; cases hpriv
  · have hlive : (r.zones i).live = true := by simp [Zone.live, hint]
    have hidx : (r.zones i).index = i :=
      (hsc.live i (Nat.lt_of_not_le fun hle => by simpa [hlive] using hsc.dead i hle) hlive).1
    let q := { r.setZone i (r.zones i).maskZonePtrs with zonesUsed := (r.zones i).index }.unmapZone C i
    have hk : ∀ j, (r.zones j).KeepsCanaries (q.zones j) := fun j =>
      (KeepsCanaries.setZone (.maskZonePtrs _) j).trans
        (KeepsCanaries.unmapZone (r := { r.setZone i (r.zones i).maskZonePtrs with zonesUsed := (r.zones i).index })
          i j)
    have hmax : i < maxZones := by have := (isoNewZone_ok hn).1; rwa [unmapZone_zonesUsed, hidx] at this
    have hc1 : r1.CanariesHeld C :=
      (hcan.keep hk rfl).isoNewZone hC (hp.keep hk) (fun j hj hmj => ?_) (hf.draws.fits i hmax) hn
    · exact hc1
    have hji : j ≠ i := fun e => hj (e.trans hidx.symm)
    have e : q.zones j = r.zones j := by
      show Function.update _ i _ j = _
      rw [Function.update_noteq hji]
      exact setZone_zones_ne _ _ _ _ hji
    rw [e] at hmj ⊢
    exact (hf.zone i hmax j hmj hji).symm
  · cases hr

/-! ### Big records -/

/-- A big free poisons and discards only the payload, which keeps off every
mapped zone, and clears at most bitmap words. -/
theorem CanariesHeld.bigFree (hcan : r.CanariesHeld C) (hp : ZonesPlaced C r) (hiso : Isolated C r)
    (hl : Layout C r) {a : Word} {perm : Bool} (h : r.isoFreeBigZone C a perm = .ok r') : r'.CanariesHeld C := by
  obtain ⟨b, r1, hb, -, hd, he⟩ := isoFreeBigZone_ok h
  obtain ⟨h1, hm, rfl⟩ := discardBigPayload_ok hd
  have hmem := mem_of_readBig hb
  have hhi : b.userPagesStart.toNat + b.size + r.systemPageSize ≤ 2 ^ 64 := (hl.big _ hmem).high
  have hlo : (b.span r.systemPageSize).lo ≤ b.userPagesStart.toNat := Nat.sub_le _ _
  have hin : b.userPagesStart.toNat + b.size ≤ (b.span r.systemPageSize).hi := Nat.le_add_right _ _
  have hs1 : Heap.SameOutside (b.span r.systemPageSize) r.heap h1 := by
    split at hm
    · exact Heap.memset_sameOutside hm hlo hin hhi
    · cases pure_eq_ok.1 hm; exact .refl _ _
  have hc1 : ({ r with heap := h1 }.madviseDontneed b.userPagesStart b.size).CanariesHeld C := fun j =>
    (hcan j).transfer (.madvise _ _ _) (hs1.trans (Heap.madviseDontneed_sameOutside hlo hin hhi))
      (fun hj => hiso.big j hj _ hmem) (hp.fit j) (hp.pos j)
  rcases he with ⟨-, rfl⟩ | ⟨-, stop, r2, h2, rfl⟩
  · exact hc1
  · rw [(unlinkBig_bigOnly h2).eq]
    exact hc1

theorem isoBigAlloc_mem {env : BigAllocEnv} {size : Nat} {p : Word} (h : r.isoBigAlloc C env size = .ok (p, r')) :
    r'.heap.mem = r.heap.mem := by
  simp only [isoBigAlloc, pure_bind, throw_bind, ite_throw_eq_ok] at h
  obtain ⟨-, h⟩ := h
  obtain ⟨⟨found, last⟩, -, h⟩ := bind_eq_ok.1 h
  dsimp only at h
  split at h
  · obtain ⟨r1, -, h⟩ := bind_eq_ok.1 h
    cases pure_eq_ok.1 h; rfl
  · obtain ⟨b, -, h⟩ := bind_eq_ok.1 h
    obtain ⟨-, -, h⟩ := bind_eq_ok.1 h
    cases pure_eq_ok.1 h; rfl

theorem CanariesHeld.isoBigAlloc (hcan : r.CanariesHeld C) {env : BigAllocEnv} {size : Nat} {p : Word}
    (h : r.isoBigAlloc C env size = .ok (p, r')) : r'.CanariesHeld C := by
  have hz : r'.zones = r.zones := by rw [isoBigAlloc_frame h]
  exact hcan.keep (fun j => by rw [hz]; exact .refl _) (isoBigAlloc_mem h)

/-! ### The events of an entry point -/

/-- The events of the entry points other than `iso_alloc_destroy_zone`: those
of an allocation, `calloc`'s handing out of a chunk followed by zeroing at
most the chunk's size at its base, and those of a free. -/
inductive CanaryEvent (C : Config) (E : Nat → NewZoneEnv) : Root → Root → Prop
  | alloc {r r' : Root} : AllocEvent C E r r' → CanaryEvent C E r r'
  | clear {r : Root} {i sz : Nat} {p : Word} {z : Zone} {h h' : Heap} :
      (r.zones i).nextFreeBitSlot ≠ badBitSlot →
      { (r.zones i).maskZonePtrs with nextFreeBitSlot := badBitSlot }.isoAllocBitslotFromZone
        C r.heap (r.zones i).nextFreeBitSlot.toNat = .ok (p, z, h) →
      sz ≤ (r.zones i).chunkSize → h.memset p 0 sz = .ok h' →
      CanaryEvent C E r ({ r with heap := h' }.setZone i z.maskZonePtrs)
  | free {r r' : Root} {perm : Bool} : FreeEvent C E perm r r' → CanaryEvent C E r r'

theorem CanaryEvent.events {E : Nat → NewZoneEnv} (he : CanaryEvent C E r r') : ReflTransGen (EventOf C E) r r' := by
  cases he with
  | alloc he => exact .single he.eventOf
  | clear hb hok _ hm => exact (ReflTransGen.single (.allocSlot hb hok)).tail (.memset hm)
  | free he => exact .single he.eventOf

theorem canaryEvents_events {E : Nat → NewZoneEnv} (h : ReflTransGen (CanaryEvent C E) r r') :
    ReflTransGen (EventOf C E) r r' := by
  induction h with
  | refl => exact .refl
  | tail _ he ih => exact ih.trans he.events

section Events

variable (hC : LayoutConfig C) (hl : Layout C r) (hsc : SizeChains C r) (hlc : LiveCacheInv C r)
  (hiso : Isolated C r)

theorem CanariesHeld.usable {i : Nat} {rand : Nat → Word} {size : Nat} {b : Bool} {z : Zone}
    (hcan : r.CanariesHeld C) (h : (r.zones i).isZoneUsable C rand size = .ok (b, z)) :
    (r.setZone i z).CanariesHeld C :=
  hcan.keep (KeepsCanaries.setZone (.slotBookkeeping (Zone.isZoneUsable_slotBookkeeping h))) rfl

include hC hl hsc hlc hiso in
theorem CanariesHeld.allocSlot_chunk {i : Nat} {p : Word} {z : Zone} {h : Heap} (hcan : r.CanariesHeld C)
    (hbad : (r.zones i).nextFreeBitSlot ≠ badBitSlot)
    (hok : { (r.zones i).maskZonePtrs with nextFreeBitSlot := badBitSlot }.isoAllocBitslotFromZone
      C r.heap (r.zones i).nextFreeBitSlot.toNat = .ok (p, z, h)) :
    ∃ n, p.toNat = ((r.zones i).chunkSpan n).lo ∧ ((r.zones i).chunkSpan n).hi ≤ 2 ^ 64 ∧
      Heap.SameOutside ((r.zones i).chunkSpan n) r.heap h ∧
      ∀ h', Heap.SameOutside ((r.zones i).chunkSpan n) r.heap h' →
        ({ r with heap := h' }.setZone i z.maskZonePtrs).CanariesHeld C := by
  have hp := ZonesPlaced.of_layout hl hsc
  have hm : (r.zones i).mapped = true := (Zone.isoAllocBitslotFromZone_ok hok).1
  have hlive : (r.zones i).live = true := by simp only [Zone.live, hm, Bool.or_true]
  obtain ⟨m, hmeq, heven, hlt, -⟩ := ((hlc i hlive).next hbad).1
  obtain ⟨n, rfl⟩ : ∃ n, m = 2 * n := ⟨m / 2, by omega⟩
  rw [hmeq, Int.toNat_ofNat] at hok
  have hn := (hlc i hlive).geometry.chunk_le hC (hsc.sized hm) hlt
  have hu := ((Zone.maskZonePtrs_unmasked_iff _).2 (hl.zone i hm).masked).1
  have hc0 : ({ (r.zones i).maskZonePtrs with nextFreeBitSlot := badBitSlot } : Zone).CanariesHeld C r.heap :=
    (hcan i).of_keeps (.of_bitmap rfl rfl rfl rfl rfl) rfl
  have hfit := hp.fit i hm
  obtain ⟨hpb, hs, hk⟩ := hc0.allocBitslot hok hu hfit (hp.pos i hm) hn
  refine ⟨n, ?_, by simp only [Zone.chunkSpan]; omega, hs, fun h' hs' =>
    hcan.chunkWrite hp hiso hm hn hs' ((hk h' hs').of_keeps (.maskZonePtrs z) rfl)⟩
  rw [hpb]
  exact Zone.chunkBase_toNat (z := r.zones i) (by omega) (hp.pos i hm)

include hC hl hsc hlc hiso in
theorem CanariesHeld.allocSlot {i : Nat} {p : Word} {z : Zone} {h : Heap} (hcan : r.CanariesHeld C)
    (hbad : (r.zones i).nextFreeBitSlot ≠ badBitSlot)
    (hok : { (r.zones i).maskZonePtrs with nextFreeBitSlot := badBitSlot }.isoAllocBitslotFromZone
      C r.heap (r.zones i).nextFreeBitSlot.toNat = .ok (p, z, h)) :
    ({ r with heap := h }.setZone i z.maskZonePtrs).CanariesHeld C := by
  obtain ⟨n, -, -, hs, hk⟩ := hcan.allocSlot_chunk hC hl hsc hlc hiso hbad hok
  exact hk h hs

include hC hl hsc hlc hiso in
theorem CanariesHeld.clear {i sz : Nat} {p : Word} {z : Zone} {h h' : Heap} (hcan : r.CanariesHeld C)
    (hbad : (r.zones i).nextFreeBitSlot ≠ badBitSlot)
    (hok : { (r.zones i).maskZonePtrs with nextFreeBitSlot := badBitSlot }.isoAllocBitslotFromZone
      C r.heap (r.zones i).nextFreeBitSlot.toNat = .ok (p, z, h))
    (hle : sz ≤ (r.zones i).chunkSize) (hm : h.memset p 0 sz = .ok h') :
    ({ r with heap := h' }.setZone i z.maskZonePtrs).CanariesHeld C := by
  obtain ⟨n, hp, hfit, hs, hk⟩ := hcan.allocSlot_chunk hC hl hsc hlc hiso hbad hok
  refine hk h' (hs.trans (Heap.memset_sameOutside hm (Nat.le_of_eq hp.symm) ?_ hfit))
  simp only [Zone.chunkSpan] at hp ⊢
  omega

include hC hl hsc hlc hiso in
theorem CanariesHeld.freeChunk {i : Nat} {p : Word} {perm : Bool} {z : Zone} {h : Heap}
    (hcan : r.CanariesHeld C) (hok : (r.zones i).isoFreeChunkFromZone C r.heap p perm = .ok (z, h)) :
    ({ r with heap := h }.setZone i z).CanariesHeld C := by
  have hp := ZonesPlaced.of_layout hl hsc
  obtain ⟨-, -, -, -, -, hm, -⟩ := Zone.isoFreeChunkFromZone_ok hok
  obtain ⟨k, hk⟩ := newZoneSize_two_pow (hsc.sized hm)
  obtain ⟨n, hn, hs, hz⟩ := (hcan i).freeChunk hok (Zone.unmaskUserPtr_of_masked _ (hl.zone i hm).masked) hk
    (hp.fit i hm) (fun n hlow => chunk_le_of_used hC hsc hlc ⟨hm, hlow⟩)
  exact hcan.chunkWrite hp hiso hm hn hs hz

include hC hl hsc hlc hiso in
/-- Every canary event keeps the canaries, when the draws are fresh. -/
theorem CanariesHeld.event {E : Nat → NewZoneEnv} (hf : FreshZoneDraws C r E) (hcan : r.CanariesHeld C)
    (he : CanaryEvent C E r r') : r'.CanariesHeld C := by
  have hp := ZonesPlaced.of_layout hl hsc
  cases he with
  | alloc he =>
    cases he with
    | usable h => exact hcan.usable h
    | allocSlot hb h => exact hcan.allocSlot hC hl hsc hlc hiso hb h
    | newZone h =>
      have hk := (isoNewZone_ok h).1
      exact hcan.isoNewZone hC hp (fun j hj hmj => (hf.zone _ hk j hmj hj).symm) (hf.draws.fits _ hk) h
  | clear hb hok hle hm => exact hcan.clear hC hl hsc hlc hiso hb hok hle hm
  | free he =>
    cases he with
    | chunk h => exact hcan.freeChunk hC hl hsc hlc hiso h
    | retire hint h => exact hcan.retire hC hp hsc hf hint h
    | big h => exact hcan.bigFree hp hiso hl h

end Events

/-- Every run of canary events from a root met during an entry point keeps
the canaries. -/
theorem canaryEvents_canariesHeld (hC : LayoutConfig C) {r0 : Root} {E : Nat → NewZoneEnv}
    (hw : Within C r0 E r) (hf : FreshZoneDraws C r0 E) (hi0 : Isolated C r0) (hsc : SizeChains C r)
    (hlc : LiveCacheInv C r) (hcan : r.CanariesHeld C) (h : ReflTransGen (CanaryEvent C E) r r') :
    r'.CanariesHeld C := by
  induction h with
  | refl => exact hcan
  | tail hr he ih =>
    have e := canaryEvents_events hr
    obtain ⟨hw', hsc'⟩ := hw.run hC.smallest_le hf hsc e
    exact ih.event hC hw'.layout hsc' (events_liveCacheInv hC.alignDown e hlc) (hw'.isolated hf hi0)
      (hw'.freshZoneDraws hf) he

/-! ### Entry points as runs of canary events -/

theorem isoAlloc_none_slot (hF : FitConfig C) (hsc : SizeChains C r) {env : OpEnv} {t : ThreadState}
    {size : Nat} {p : Word} (hs : size ≤ C.smallSzMax) (h : isoAlloc C env t r none size = .ok (p, r')) :
    ∃ r1 i z h1, ReflTransGen (AllocEvent C env.zoneEnv) r r1 ∧ size ≤ (r1.zones i).chunkSize ∧
      (r1.zones i).nextFreeBitSlot ≠ badBitSlot ∧
      { (r1.zones i).maskZonePtrs with nextFreeBitSlot := badBitSlot }.isoAllocBitslotFromZone
        C r1.heap (r1.zones i).nextFreeBitSlot.toNat = .ok (p, z, h1) ∧
      r' = { r1 with heap := h1 }.setZone i z.maskZonePtrs := by
  simp only [isoAlloc, pure_bind, throw_bind, ite_throw_eq_ok, if_pos hs] at h
  obtain ⟨-, h⟩ := h
  obtain ⟨⟨zone', r1⟩, h1, h⟩ := bind_eq_ok.1 h
  obtain ⟨⟨chosen, r2⟩, h2, h⟩ := bind_eq_ok.1 h
  dsimp only at h
  split at h
  · obtain ⟨j, hj⟩ := chooseSlot_none_private h1 h2
    cases hj
  rename_i i slot
  obtain ⟨⟨p', z, hp⟩, h3, h⟩ := bind_eq_ok.1 h
  cases pure_eq_ok.1 h
  obtain ⟨hn, hbad⟩ := chooseSlot_some h2
  rw [← hn] at h3 hbad
  exact ⟨r2, i, z, hp, (chooseZone_allocEvents h1).trans (chooseSlot_allocEvents h2),
    ((dispatchFits hF hsc env t).fits size zone' r1 i slot r2 hs h1 h2).holds, hbad, h3, rfl⟩

theorem isoCalloc_canaryEvents (hF : FitConfig C) (hsc : SizeChains C r) {env : OpEnv} {t : ThreadState}
    {nmemb size : Nat} {p : Word} (h : isoCalloc C env t r nmemb size = .ok (p, r')) :
    ReflTransGen (CanaryEvent C env.zoneEnv) r r' ∨
      ∃ sz, C.smallSzMax < sz ∧ r.isoBigAlloc C env.bigEnv sz = .ok (p, r') := by
  simp only [isoCalloc, pure_bind, throw_bind, ite_throw_eq_ok] at h
  obtain ⟨-, h⟩ := h
  obtain ⟨⟨p1, r1⟩, h1, h⟩ := bind_eq_ok.1 h
  dsimp only at h
  split at h
  next hs =>
    obtain ⟨hp, h2, h⟩ := bind_eq_ok.1 h
    cases pure_eq_ok.1 h
    obtain ⟨r0, i, z, h0, e, hle, hbad, h3, rfl⟩ := isoAlloc_none_slot hF hsc hs h1
    exact .inl ((e.mono fun _ _ => CanaryEvent.alloc).tail (.clear hbad h3 hle h2))
  next hs =>
    cases pure_eq_ok.1 h
    simp only [isoAlloc, pure_bind, throw_bind, ite_throw_eq_ok, if_neg hs] at h1
    exact .inr ⟨_, Nat.lt_of_not_le hs, h1.2.2⟩

theorem createDefaultZones_canaryEvents {env : InitEnv} {sizes : List Nat}
    (h : createDefaultZones C env sizes r = .ok r') : ReflTransGen (CanaryEvent C env.zoneEnv) r r' := by
  induction sizes generalizing r with
  | nil => cases pure_eq_ok.1 h; exact .refl
  | cons size sizes ih =>
    obtain ⟨⟨res, r1⟩, h1, h⟩ := bind_eq_ok.1 h
    cases res with
    | none => exact absurd h throw_ne_ok
    | some _ => exact (ReflTransGen.single (.alloc (.newZone h1))).trans (ih h)

/-- `_verify_zone` on a zone in use of a laid-out root whose canaries hold
fails only by a fault: its link checks pass, and every chunk whose slot
carries the high bit holds both canaries. -/
theorem CanariesHeld.verifyZone (hC : LayoutConfig C) (hl : Layout C r) (hsc : SizeChains C r)
    (hlc : LiveCacheInv C r) (hcan : r.CanariesHeld C) {i : Nat} (hi : i < r.zonesUsed) :
    OnlyFaults (r.verifyZone C i) := by
  unfold Root.verifyZone
  refine .bind (.of_ok (verifyZoneLinks_ok hsc hi)) fun _ _ => OnlyFaults.forM fun k hk =>
    .bind (Zone.readBitmap_onlyFaults _ _) fun w hw => ?_
  obtain ⟨hm, rfl⟩ := Zone.readBitmap_eq_ok hw
  have hm : (r.zones i).mapped = true := hm
  have hlive : (r.zones i).live = true := by simp only [Zone.live, hm, Bool.or_true]
  have hk : k < (r.zones i).getMaxBitmaskIndex := List.mem_range.1 hk
  have hu := ((Zone.maskZonePtrs_unmasked_iff _).2 (hl.zone i hm).masked).1
  unfold verifyWord
  refine OnlyFaults.forM fun j hj => .ite (fun hb => ?_) fun _ => .pure _
  obtain ⟨m, hm32, rfl⟩ := List.mem_map.1 hj
  have hm32 : m < 32 := List.mem_range.1 hm32
  have hptr : (r.zones i).maskZonePtrs.pointerFromBitslot ((k <<< 6) + (2 * m + 1)) =
      (r.zones i).chunkBase (32 * k + m) := by
    rw [Zone.pointerFromBitslot, hu, show (k <<< 6 + (2 * m + 1)) >>> 1 = 32 * k + m by
      rw [Nat.shiftLeft_eq, Nat.shiftRight_eq_div_pow]; omega]
    rfl
  rw [hptr]
  exact ((hcan i) hm _ ((hlc i hlive).geometry.chunk_le hC (hsc.sized hm) (by omega))
    (((r.zones i).highBit_two_mul hm32).trans hb)).checkCanary rfl rfl

end Root

/-- Whether the entry point is `iso_alloc_destroy_zone`. -/
def Op.destroysZone : Op → Bool
  | .destroyZone _ => true
  | _ => false

namespace Sys

open Relation

variable {C : Config} {s s' : Sys} {env : OpEnv} {th : Nat} {op : Op} {ret : Ret}

/-- What an entry point other than `iso_alloc_destroy_zone` does to a root
whose size chains hold: a run of canary events, or one big allocation. -/
theorem step_canaryEvents (hF : FitConfig C) (hsc : Root.SizeChains C s.root) (hop : op.destroysZone = false)
    (h : s.step C env th op = .ok (ret, s')) :
    ReflTransGen (Root.CanaryEvent C env.zoneEnv) s.root s'.root ∨
      ∃ size p, s.root.isoBigAlloc C env.bigEnv size = .ok (p, s'.root) := by
  cases op with
  | alloc zone size =>
    obtain ⟨⟨p, r⟩, h1, h⟩ := bind_eq_ok.1 h
    cases pure_eq_ok.1 h
    rcases Root.isoAlloc_events h1 with e | ⟨-, hb⟩
    · exact .inl (e.mono fun _ _ => Root.CanaryEvent.alloc)
    · exact .inr ⟨_, _, hb⟩
  | calloc nmemb size =>
    obtain ⟨⟨p, r⟩, h1, h⟩ := bind_eq_ok.1 h
    cases pure_eq_ok.1 h
    rcases Root.isoCalloc_canaryEvents hF hsc h1 with e | ⟨_, -, hb⟩
    · exact .inl e
    · exact .inr ⟨_, _, hb⟩
  | free p perm =>
    obtain ⟨⟨t, r⟩, h1, h⟩ := bind_eq_ok.1 h
    cases pure_eq_ok.1 h
    exact .inl ((Root.isoFree_frees h1).mono fun _ _ => .free)
  | freeSize p size =>
    obtain ⟨⟨t, r⟩, h1, h⟩ := bind_eq_ok.1 h
    cases pure_eq_ok.1 h
    exact .inl ((Root.isoFreeSize_frees h1).mono fun _ _ => .free)
  | freeFromZone p zone perm =>
    obtain ⟨⟨t, r⟩, h1, h⟩ := bind_eq_ok.1 h
    cases pure_eq_ok.1 h
    exact .inl ((Root.isoFreeFromZone_frees h1).mono fun _ _ => .free)
  | newZone size internal =>
    obtain ⟨⟨z, r⟩, h1, h⟩ := bind_eq_ok.1 h
    cases pure_eq_ok.1 h
    unfold Root.isoNewZonePublic at h1
    split at h1
    · cases pure_eq_ok.1 h1; exact .inl .refl
    · exact .inl (.single (.alloc (.newZone h1)))
  | destroyZone i => cases hop
  | flushCaches =>
    obtain ⟨⟨t, r⟩, h1, h⟩ := bind_eq_ok.1 h
    cases pure_eq_ok.1 h
    exact .inl ((Root.flushChunkQuarantine_frees h1).mono fun _ _ => .free)

/-- The states reached with fresh mappings by entry points other than
`iso_alloc_destroy_zone`. -/
inductive NoDestroyReachable (C : Config) : Sys → Prop
  | init (env : InitEnv) (page : Nat) (heap : Heap) (r : Root) : PageOk C page →
      Root.ZoneDraws C page env.zoneEnv → Root.initializeGlobalRoot C env page heap = .ok r →
      NoDestroyReachable C { root := r, threads := fun _ => ThreadState.empty }
  | step (s s' : Sys) (env : OpEnv) (th : Nat) (op : Op) (ret : Ret) : NoDestroyReachable C s →
      Root.FreshDraws C s.root env → op.destroysZone = false → s.step C env th op = .ok (ret, s') →
      NoDestroyReachable C s'

theorem NoDestroyReachable.freshReachable (hs : NoDestroyReachable C s) : FreshReachable C s := by
  induction hs with
  | init env page heap r hp hd h => exact .init env page heap r hp hd h
  | step s s' env th op ret _ hf _ h ih => exact .step s s' env th op ret ih hf h

theorem NoDestroyReachable.canariesHeld (hC : LayoutConfig C) (hF : FitConfig C) (hs : NoDestroyReachable C s) :
    s.root.CanariesHeld C := by
  induction hs with
  | init env page heap r hp hd h =>
    obtain ⟨r1, h1, h⟩ := bind_eq_ok.1 h
    cases pure_eq_ok.1 h
    have hc1 : r1.CanariesHeld C := Root.canaryEvents_canariesHeld hC (.start (Root.layout_empty hp heap))
      (Root.freshZoneDraws_empty hd) ⟨fun _ _ _ hj => (Bool.false_ne_true hj).elim, fun _ hj => (Bool.false_ne_true hj).elim⟩
      (Root.sizeChains_empty _ _) (Root.liveCacheInv_empty _ _) (fun _ hm => (Bool.false_ne_true hm).elim)
      (Root.createDefaultZones_canaryEvents h1)
    exact hc1
  | step s s' env th op ret hs hf hop h ih =>
    have hfr := hs.freshReachable
    have hsc := hfr.reachable.sizeChains hC.smallest_le
    rcases step_canaryEvents hF hsc hop h with hr | ⟨size, p, hb⟩
    · exact Root.canaryEvents_canariesHeld hC (.start (hfr.layout hC)) hf.zones (hfr.isolated hC) hsc
        (hfr.reachable.liveCacheInv hC.alignDown) ih hr
    · exact ih.isoBigAlloc hb

/-- In every state reached with fresh mappings by entry points other than
`iso_alloc_destroy_zone`, every chunk inside a zone's user pages whose slot
carries the high bit, a freed chunk or a canary chunk, holds its canary at its
first and its last word; so `_verify_zone` on every zone in use fails only by
a fault: it never reports a corrupted canary or a broken size chain. -/
theorem noDestroyReachable_canaries_verified (hC : LayoutConfig C) (hF : FitConfig C)
    (hs : NoDestroyReachable C s) :
    s.root.CanariesHeld C ∧ ∀ i < s.root.zonesUsed, OnlyFaults (s.root.verifyZone C i) := by
  have hcan := hs.canariesHeld hC hF
  have hfr := hs.freshReachable
  exact ⟨hcan, fun _ hi => hcan.verifyZone hC (hfr.layout hC) (hfr.reachable.sizeChains hC.smallest_le)
    (hfr.reachable.liveCacheInv hC.alignDown) hi⟩

end Sys

theorem guardedConfig_fitConfig : FitConfig guardedConfig :=
  ⟨by decide, by decide, by decide, by decide, by decide⟩

/-- Initialisation under `guardedConfig`, then a 16-byte allocation by thread
0: the state holds its canaries, and `_verify_zone` passes on its zones in use
but for faults. -/
theorem guarded_alloc_canaries_verified : ∃ s : Sys, Sys.NoDestroyReachable guardedConfig s ∧
    s.root.CanariesHeld guardedConfig ∧ ∀ i < s.root.zonesUsed, OnlyFaults (s.root.verifyZone guardedConfig i) := by
  obtain ⟨r, ⟨p, r'⟩, hr, ha⟩ := guarded_init_alloc_ok
  have h0 : Sys.NoDestroyReachable guardedConfig ⟨r, fun _ => .empty⟩ :=
    .init _ _ _ _ ⟨by decide, by decide, by decide⟩ smallInitEnv_zoneDraws hr
  have hstep : Sys.step guardedConfig ⟨r, fun _ => .empty⟩ smallOpEnv 0 (.alloc none 16) =
      .ok (.ptr p, ⟨r', fun _ => .empty⟩) := by
    simp only [Sys.step, ha]
    rfl
  have hs := Sys.NoDestroyReachable.step _ _ smallOpEnv 0 (.alloc none 16) _ h0 (smallOpEnv_freshDraws hr) rfl hstep
  exact ⟨_, hs, Sys.noDestroyReachable_canaries_verified guardedConfig_layoutConfig guardedConfig_fitConfig hs⟩

end IsoAlloc
