import IsoAlloc.CacheRuns

/-!
How `_iso_alloc` and `_iso_calloc` dispatch a request: the overflow guard of
`_iso_calloc`, and the zone a small request is served from.

A small request without a private zone is served from a zone of the thread's
zone cache, of the size chain, of the linear scan of `iso_find_zone_fit`, or
from a zone `_iso_new_zone` makes for it. The first three pass
`iso_does_zone_fit`, the cache probe on the request and `iso_find_zone_fit`
on the request rounded up to `ALIGNMENT`; since the chunk sizes of zones in
use are powers of two, the rounding lets through no zone the waste check on
the request itself would refuse.
-/

namespace IsoAlloc

namespace Root

variable {C : Config} {env : OpEnv} {t : ThreadState} {r : Root}

/-- The guard of `_iso_calloc` multiplies the low 32 bits of `nmemb` and of
`size` as `unsigned int`s, and fires when that product needs more than 32
bits. -/
theorem isoCalloc_overflow {nmemb size : Nat} (h : 0x100000000 ≤ nmemb % 0x100000000 * (size % 0x100000000)) :
    r.isoCalloc C env t nmemb size = .error (.abort "Call to calloc() will overflow nmemb=%zu size=%zu") := by
  simp [isoCalloc, h]

/-- `_iso_calloc` reads its operands only through their low 32 bits, in the
guard, and their 64-bit product, in the request. -/
theorem isoCalloc_congr {nmemb size nmemb' size' : Nat} (hn : nmemb % 0x100000000 = nmemb' % 0x100000000)
    (hs : size % 0x100000000 = size' % 0x100000000)
    (hp : nmemb * size % 0x10000000000000000 = nmemb' * size' % 0x10000000000000000) :
    r.isoCalloc C env t nmemb size = r.isoCalloc C env t nmemb' size' := by
  unfold isoCalloc
  rw [hn, hs, hp]

/-- `calloc(2^60 + 1, 16)` asks for `2^64 + 16` bytes; the guard sees `1 * 16`
and the request wraps to 16 bytes. -/
example : r.isoCalloc C env t (2 ^ 60 + 1) 16 = r.isoCalloc C env t 1 16 :=
  isoCalloc_congr (by decide) (by decide) (by decide)

end Root

/-- `calloc(65536, 65536)` asks for 4 GiB, a product far below `2^64`, and
aborts with the overflow message in every state and every build. -/
theorem calloc_aborts_below_size_t_overflow (C : Config) (env : OpEnv) (t : ThreadState) (r : Root) :
    65536 * 65536 < 2 ^ 64 ∧
      r.isoCalloc C env t 65536 65536 = .error (.abort "Call to calloc() will overflow nmemb=%zu size=%zu") :=
  ⟨by decide, Root.isoCalloc_overflow (by decide)⟩

/-- The build constants the fit policy relies on, all true of the example
build: `ALIGNMENT` divides 128, `SMALLEST_CHUNK_SZ <= SMALL_SZ_MAX < 2^63`, and
`WASTED_SZ_MULTIPLIER_SHIFT` is positive. -/
structure FitConfig (C : Config) : Prop where
  alignment_pos : 0 < C.alignment
  alignment_dvd : C.alignment ∣ zone128
  smallest_le : smallestChunkSz ≤ C.smallSzMax
  small_lt : C.smallSzMax < 2 ^ 63
  waste_pos : 0 < C.wastedSzMultiplierShift

/-- The fit policy of `iso_does_zone_fit` and `is_zone_usable` for a request
of `size` bytes: an internal zone that is not full, whose chunks hold the
request and waste no more than the policy allows. -/
structure FitsRequest (C : Config) (size : Nat) (z : Zone) : Prop where
  internal : z.internal = true
  not_full : z.isFull = false
  holds : size ≤ z.chunkSize
  small : size ≤ zone128 → z.chunkSize < zone1024
  waste : zone1024 < size → z.chunkSize < size * 2 ^ C.wastedSzMultiplierShift

section Rounding

variable {C : Config}

theorem le_alignSzUp (hA : 0 < C.alignment) (n : Nat) : n ≤ Root.alignSzUp C n := by
  have := Nat.div_add_mod (n + C.alignment - 1) C.alignment
  have := Nat.mod_lt (n + C.alignment - 1) hA
  unfold Root.alignSzUp
  rw [Nat.mul_comm]
  omega

theorem alignSzUp_le {n m : Nat} (hA : 0 < C.alignment) (hd : C.alignment ∣ m) (hn : n ≤ m) :
    Root.alignSzUp C n ≤ m := by
  obtain ⟨q, rfl⟩ := hd
  have : (n + C.alignment - 1) / C.alignment < q + 1 := by
    rw [Nat.div_lt_iff_lt_mul hA, Nat.succ_mul, Nat.mul_comm]; omega
  calc Root.alignSzUp C n ≤ q * C.alignment := Nat.mul_le_mul_right _ (by omega)
    _ = C.alignment * q := Nat.mul_comm _ _

theorem lt_mul_of_lt_alignSzUp_mul {size k W : Nat} (hA : 0 < C.alignment) (hd : C.alignment ∣ zone128)
    (hs : zone1024 < size) (h : 2 ^ k < Root.alignSzUp C size * 2 ^ W) : 2 ^ k < size * 2 ^ W := by
  unfold zone128 zone1024 at *
  refine Nat.lt_of_not_le fun hle => ?_
  have hW : W ≤ k := by
    refine Nat.le_of_not_lt fun hk => ?_
    have := Nat.pow_lt_pow_of_lt (by decide : 1 < 2) hk
    have := Nat.le_mul_of_pos_left (2 ^ W) (show 0 < size by omega)
    omega
  rw [← Nat.sub_add_cancel hW, Nat.pow_add] at hle h
  have hsz : size ≤ 2 ^ (k - W) :=
    Nat.le_of_mul_le_mul_left (by rwa [Nat.mul_comm, Nat.mul_comm (2 ^ W)]) (Nat.two_pow_pos W)
  have h7 : 7 ≤ k - W := by
    refine Nat.le_of_not_lt fun h7 => ?_
    have := Nat.pow_le_pow_right (by decide : 0 < 2) (show k - W ≤ 7 by omega)
    omega
  have hdvd : C.alignment ∣ 2 ^ (k - W) := Nat.dvd_trans hd (Nat.pow_dvd_pow 2 h7)
  have := Nat.mul_le_mul_right (2 ^ W) (alignSzUp_le hA hdvd hsz)
  omega

namespace FitsRequest

variable {z : Zone} {size : Nat}

theorem of_aligned {s' : Nat} (hF : FitConfig C) (hc : ∃ k, z.chunkSize = 2 ^ k)
    (h : FitsRequest C s' z) (hs' : s' = size ∨ s' = Root.alignSzUp C size) : FitsRequest C size z := by
  rcases hs' with rfl | rfl
  · exact h
  have hle := le_alignSzUp hF.alignment_pos size
  obtain ⟨k, hk⟩ := hc
  refine ⟨h.internal, h.not_full, Nat.le_trans hle h.holds,
    fun hs => h.small (alignSzUp_le hF.alignment_pos hF.alignment_dvd hs), fun hs => ?_⟩
  have hw := h.waste (Nat.lt_of_lt_of_le hs hle)
  rw [hk] at hw ⊢
  exact lt_mul_of_lt_alignSzUp_mul hF.alignment_pos hF.alignment_dvd hs hw

theorem of_leastPow2Above (hW : 0 < C.wastedSzMultiplierShift)
    (hl : LeastPow2Above (max size smallestChunkSz) z.chunkSize) (hint : z.internal = true)
    (hfull : z.isFull = false) : FitsRequest C size z := by
  unfold smallestChunkSz at hl
  refine ⟨hint, hfull, Nat.le_trans (Nat.le_max_left _ _) hl.le, fun hs => ?_, fun hs => ?_⟩
  · have := hl.least 7 (show max size 16 ≤ 128 by unfold zone128 at hs; omega)
    unfold zone1024; omega
  · unfold zone1024 at hs
    have := (Nat.max_eq_left (show 16 ≤ size by omega) ▸ hl).lt_two_mul (by omega)
    have := Nat.mul_le_mul_left size (Nat.pow_le_pow_right (by decide : 0 < 2) hW)
    rw [Nat.pow_one] at this
    omega

end FitsRequest

end Rounding

namespace Zone

variable {C : Config} {z z' : Zone} {rand : Nat → Word} {size : Nat}

@[simp] theorem getNextFreeBitSlot_isFull : z.getNextFreeBitSlot.2.isFull = z.isFull := by
  unfold getNextFreeBitSlot; split <;> rfl

theorem refillIfEmpty_isFull (h : z.refillIfEmpty C rand = .ok z') : z'.isFull = z.isFull := by
  unfold refillIfEmpty at h
  split at h
  · rw [(fillFreeBitSlotCache_ok h).2.2]
  · cases pure_eq_ok.1 h; rfl

theorem isZoneUsable_true_guards (h : z.isZoneUsable C rand size = .ok (true, z')) :
    z.isFull = false ∧
      ¬(z.internal = true ∧ zone1024 < size ∧ size <<< C.wastedSzMultiplierShift ≤ z.chunkSize) := by
  by_cases hf : z.isFull = true
  · simp [isZoneUsable, hf] at h
  by_cases hw : z.internal = true ∧ zone1024 < size ∧ size <<< C.wastedSzMultiplierShift ≤ z.chunkSize
  · simp [isZoneUsable, hf, hw] at h
  exact ⟨by simpa using hf, hw⟩

theorem isZoneUsable_true_isFull (h : z.isZoneUsable C rand size = .ok (true, z')) :
    z'.isFull = z.isFull := by
  rcases isZoneUsable_ok h with ⟨h, -⟩ | ⟨-, rfl, -⟩ | ⟨-, z2, hz2, h⟩
  · cases h
  · rfl
  have e : z2.getNextFreeBitSlot.2.isFull = z.isFull := by
    rw [getNextFreeBitSlot_isFull, refillIfEmpty_isFull hz2, maskZonePtrs_isFull]
  rcases h with ⟨-, -, rfl⟩ | ⟨-, -, -, ⟨-, -, -, ⟨-, h, -⟩ | ⟨-, -, rfl⟩⟩ | ⟨-, -, rfl⟩⟩
  · exact e
  · cases h
  · exact e
  · exact e

theorem isoDoesZoneFit_fits (h : z.isoDoesZoneFit C rand size = .ok (true, z')) :
    FitsRequest C size z' := by
  unfold isoDoesZoneFit at h
  split at h
  · cases pure_eq_ok.1 h
  rename_i h128
  split at h
  · cases pure_eq_ok.1 h
  rename_i hfit
  simp only [not_or, Nat.not_lt, Bool.not_eq_false] at hfit
  obtain ⟨hsz, hint, -⟩ := hfit
  have hf := ChainFields.of_slotBookkeeping (isZoneUsable_slotBookkeeping h)
  obtain ⟨hfull, hw⟩ := isZoneUsable_true_guards h
  rw [Nat.shiftLeft_eq] at hw
  refine ⟨hf.internal hint, (isZoneUsable_true_isFull h).trans hfull, ?_, ?_, ?_⟩ <;> rw [hf.chunkSize]
  · exact hsz
  · intro hs; unfold zone128 zone1024 at *; omega
  · exact fun hs => Nat.lt_of_not_le fun hle => hw ⟨hint, hs, hle⟩

theorem isoDoesZoneFit_next (h : z.isoDoesZoneFit C rand size = .ok (true, z')) :
    z'.nextFreeBitSlot ≠ badBitSlot := by
  unfold isoDoesZoneFit at h
  split at h
  · cases pure_eq_ok.1 h
  split at h
  · cases pure_eq_ok.1 h
  exact isZoneUsable_true_next h

end Zone

namespace Root

open Relation

variable {C : Config} {r r' : Root} {rand : Nat → Nat → Word} {size i : Nat}

theorem doesZoneFit_fits (h : r.doesZoneFit C rand i size = .ok (true, r')) :
    FitsRequest C size (r'.zones i) := by
  obtain ⟨⟨b, z⟩, hfit, h⟩ := bind_eq_ok.1 h
  cases pure_eq_ok.1 h
  rw [setZone_zones_same]
  exact Zone.isoDoesZoneFit_fits hfit

theorem cacheProbe_fits {es : List (Nat × Nat)} (h : cacheProbe C rand size es r = .ok (some i, r')) :
    FitsRequest C size (r'.zones i) := by
  induction es generalizing r with
  | nil => cases pure_eq_ok.1 h
  | cons e es ih =>
    simp only [cacheProbe] at h
    split at h
    · obtain ⟨⟨fits, r1⟩, hfit, h⟩ := bind_eq_ok.1 h
      dsimp only at h
      split at h
      · cases pure_eq_ok.1 h; subst fits; exact doesZoneFit_fits hfit
      · exact ih h
    · exact ih h

theorem fitChain_fits {fuel j : Nat} (h : fitChain C rand size fuel j r = .ok (some i, r')) :
    i < r'.zonesUsed ∧ FitsRequest C size (r'.zones i) := by
  induction fuel generalizing j r with
  | zero => exact absurd h throw_ne_ok
  | succ fuel ih =>
    simp only [fitChain] at h
    split at h
    · split at h
      · exact absurd h throw_ne_ok
      split at h
      · exact absurd h throw_ne_ok
      obtain ⟨⟨fits, r1⟩, hfit, h⟩ := bind_eq_ok.1 h
      dsimp only at h
      split at h
      · cases pure_eq_ok.1 h
        subst fits
        exact ⟨by rw [(doesZoneFit_frame hfit).2]; assumption, doesZoneFit_fits hfit⟩
      split at h
      · exact ih h
      · cases pure_eq_ok.1 h
    · cases pure_eq_ok.1 h

theorem fitScan_fits {is : List Nat} (h : fitScan C rand size is r = .ok (some i, r')) :
    i ∈ is ∧ r'.zonesUsed = r.zonesUsed ∧ FitsRequest C size (r'.zones i) := by
  induction is generalizing r with
  | nil => cases pure_eq_ok.1 h
  | cons j is ih =>
    simp only [fitScan] at h
    obtain ⟨⟨fits, r1⟩, hfit, h⟩ := bind_eq_ok.1 h
    dsimp only at h
    have hu := (doesZoneFit_frame hfit).2
    split at h
    · cases pure_eq_ok.1 h
      subst fits
      exact ⟨List.mem_cons_self _ _, hu, doesZoneFit_fits hfit⟩
    · obtain ⟨hm, hu', hf⟩ := ih h
      exact ⟨List.mem_cons_of_mem _ hm, hu'.trans hu, hf⟩

/-- `iso_find_zone_fit` finds a zone in use that fits the request as it
rounds it. -/
theorem isoFindZoneFit_fits (h : r.isoFindZoneFit C rand size = .ok (some i, r')) :
    i < r'.zonesUsed ∧ ∃ s', (s' = size ∨ s' = alignSzUp C size) ∧ FitsRequest C s' (r'.zones i) := by
  unfold isoFindZoneFit at h
  dsimp only at h
  generalize hs : (if size &&& (C.alignment - 1) ≠ 0 then alignSzUp C size else size) = s' at h
  have hs' : s' = size ∨ s' = alignSzUp C size := by split at hs <;> simp [← hs]
  obtain ⟨⟨found, r1⟩, h1, h⟩ := bind_eq_ok.1 h
  dsimp only at h
  split at h
  · cases pure_eq_ok.1 h
    unfold fitLookup at h1
    split at h1
    · obtain ⟨hi, hf⟩ := fitChain_fits h1
      exact ⟨hi, s', hs', hf⟩
    · cases pure_eq_ok.1 h1
  · obtain ⟨hm, hu, hf⟩ := fitScan_fits h
    exact ⟨hu ▸ List.mem_range.1 hm, s', hs', hf⟩

theorem events_sizeChains {E : Nat → NewZoneEnv} (hC : smallestChunkSz ≤ C.smallSzMax)
    (h : ReflTransGen (EventOf C E) r r') (hinv : SizeChains C r) : SizeChains C r' := by
  induction h with
  | refl => exact hinv
  | tail _ he ih => exact event_sizeChains hC he.event ih

/-- With well-linked size chains, the zone `_iso_alloc` settles on without a
private zone fits the request. -/
theorem chooseZone_fits (hF : FitConfig C) (hinv : SizeChains C r) {env : OpEnv} {t : ThreadState}
    (h : chooseZone C env t none size r = .ok (some i, r')) : FitsRequest C size (r'.zones i) := by
  have hinv' := events_sizeChains hF.smallest_le (chooseZone_events h) hinv
  unfold chooseZone at h
  obtain ⟨⟨found, r1⟩, h1, h⟩ := bind_eq_ok.1 h
  dsimp only at h
  split at h
  · cases pure_eq_ok.1 h; exact cacheProbe_fits h1
  · obtain ⟨hi, s', hs', hfit⟩ := isoFindZoneFit_fits h
    obtain ⟨-, hsz⟩ := hinv'.live i hi (by simp [Zone.live, hfit.internal])
    exact hfit.of_aligned hF (newZoneSize_two_pow hsz) hs'

theorem chooseSlot_internal {env : OpEnv} {j : Nat} {slot : Int} (hi : (r.zones j).internal = true)
    (h : chooseSlot C env (some j) size r = .ok (some (i, slot), r')) : i = j ∧ r' = r := by
  simp only [chooseSlot, usableIfPrivate, hi, Bool.true_eq_false, if_false, pure_bind, Bool.not_true,
    ite_eq_iff, pure_eq_ok, Prod.mk.injEq, Option.some.injEq] at h
  rcases h with ⟨h, -⟩ | ⟨-, ⟨-, h, -⟩ | ⟨-, ⟨rfl, -⟩, rfl⟩⟩
  · cases h
  · cases h
  · exact ⟨rfl, rfl⟩

theorem doesZoneFit_next (h : r.doesZoneFit C rand i size = .ok (true, r')) :
    (r'.zones i).nextFreeBitSlot ≠ badBitSlot := by
  obtain ⟨⟨b, z⟩, hfit, h⟩ := bind_eq_ok.1 h
  cases pure_eq_ok.1 h
  rw [setZone_zones_same]
  exact Zone.isoDoesZoneFit_next hfit

theorem cacheProbe_found {es : List (Nat × Nat)} (h : cacheProbe C rand size es r = .ok (some i, r')) :
    ∃ r0 : Root, r0.doesZoneFit C rand i size = .ok (true, r') := by
  induction es generalizing r with
  | nil => cases pure_eq_ok.1 h
  | cons e es ih =>
    simp only [cacheProbe] at h
    split at h
    · obtain ⟨⟨fits, r1⟩, hfit, h⟩ := bind_eq_ok.1 h
      dsimp only at h
      split at h
      · cases pure_eq_ok.1 h; subst fits; exact ⟨r, hfit⟩
      · exact ih h
    · exact ih h

theorem fitChain_found {fuel j : Nat} (h : fitChain C rand size fuel j r = .ok (some i, r')) :
    ∃ r0 : Root, r0.doesZoneFit C rand i size = .ok (true, r') := by
  induction fuel generalizing j r with
  | zero => exact absurd h throw_ne_ok
  | succ fuel ih =>
    simp only [fitChain] at h
    split at h
    · split at h
      · exact absurd h throw_ne_ok
      split at h
      · exact absurd h throw_ne_ok
      obtain ⟨⟨fits, r1⟩, hfit, h⟩ := bind_eq_ok.1 h
      dsimp only at h
      split at h
      · cases pure_eq_ok.1 h; subst fits; exact ⟨r, hfit⟩
      split at h
      · exact ih h
      · cases pure_eq_ok.1 h
    · cases pure_eq_ok.1 h

theorem fitScan_found {is : List Nat} (h : fitScan C rand size is r = .ok (some i, r')) :
    ∃ r0 : Root, r0.doesZoneFit C rand i size = .ok (true, r') := by
  induction is generalizing r with
  | nil => cases pure_eq_ok.1 h
  | cons j is ih =>
    simp only [fitScan] at h
    obtain ⟨⟨fits, r1⟩, hfit, h⟩ := bind_eq_ok.1 h
    dsimp only at h
    split at h
    · cases pure_eq_ok.1 h; subst fits; exact ⟨r, hfit⟩
    · exact ih h

theorem isoFindZoneFit_found (h : r.isoFindZoneFit C rand size = .ok (some i, r')) :
    ∃ (r0 : Root) (s' : Nat), r0.doesZoneFit C rand i s' = .ok (true, r') := by
  unfold isoFindZoneFit at h
  dsimp only at h
  generalize (if size &&& (C.alignment - 1) ≠ 0 then alignSzUp C size else size) = s' at h
  obtain ⟨⟨found, r1⟩, h1, h⟩ := bind_eq_ok.1 h
  dsimp only at h
  split at h
  · cases pure_eq_ok.1 h
    unfold fitLookup at h1
    split at h1
    · exact ⟨_, _, (fitChain_found h1).choose_spec⟩
    · cases pure_eq_ok.1 h1
  · exact ⟨_, _, (fitScan_found h).choose_spec⟩

theorem chooseZone_found {env : OpEnv} {t : ThreadState} (h : chooseZone C env t none size r = .ok (some i, r')) :
    ∃ (r0 : Root) (s' : Nat), r0.doesZoneFit C env.usableRand i s' = .ok (true, r') := by
  unfold chooseZone at h
  obtain ⟨⟨found, r1⟩, h1, h⟩ := bind_eq_ok.1 h
  dsimp only at h
  split at h
  · cases pure_eq_ok.1 h; exact ⟨_, _, (cacheProbe_found h1).choose_spec⟩
  · exact isoFindZoneFit_found h

theorem chooseSlot_eq_none {env : OpEnv} {zone : Option Nat} (h : chooseSlot C env zone size r = .ok (none, r')) :
    ∃ j, zone = some j ∧ ((r.zones j).internal = false ∨ (r.zones j).nextFreeBitSlot = badBitSlot) := by
  unfold chooseSlot at h
  split at h
  · rename_i j
    refine ⟨j, rfl, ?_⟩
    obtain ⟨⟨usable, r1⟩, h1, h⟩ := bind_eq_ok.1 h
    unfold usableIfPrivate at h1
    split at h1
    · exact .inl ‹_›
    cases pure_eq_ok.1 h1
    dsimp only at h
    simp only [pure_bind, ite_eq_iff, pure_eq_ok, Prod.mk.injEq] at h
    rcases h with ⟨h, -⟩ | ⟨-, ⟨hs, -⟩ | ⟨-, h, -⟩⟩
    · cases h
    · exact .inr hs
    · cases h
  · obtain ⟨⟨made, r1⟩, -, h⟩ := bind_eq_ok.1 h
    dsimp only at h
    split at h
    · exact absurd h throw_ne_ok
    · simp only [pure_bind, throw_bind, ite_throw_eq_ok, pure_eq_ok, Prod.mk.injEq] at h
      cases h.2.1

/-- Without a private zone, the small path of `_iso_alloc` always takes a
slot, as the comment over its `is_zone_usable` call says: both of its NULL
returns need a zone the caller handed it. -/
theorem chooseSlot_none_private {env : OpEnv} {t : ThreadState} {zone zone' : Option Nat} {r1 r2 : Root}
    (h1 : chooseZone C env t zone size r = .ok (zone', r1)) (h2 : chooseSlot C env zone' size r1 = .ok (none, r2)) :
    ∃ j, zone = some j := by
  obtain ⟨j, rfl, hj⟩ := chooseSlot_eq_none h2
  cases zone with
  | some k => exact ⟨k, rfl⟩
  | none =>
    obtain ⟨_, _, h0⟩ := chooseZone_found h1
    rcases hj with hj | hj
    · rw [(doesZoneFit_fits h0).internal] at hj; cases hj
    · exact absurd hj (doesZoneFit_next h0)

theorem buildZone_isFull {env : NewZoneEnv} {internal : Bool} {z : Zone} {h : Heap}
    (hb : r.buildZone C env size internal = .ok (z, h)) : z.isFull = false := by
  obtain ⟨z1, hcan, z2, hfill, rfl⟩ := buildZone_ok hb
  rw [Zone.getNextFreeBitSlot_isFull, (Zone.fillFreeBitSlotCache_ok hfill).2.2,
    Zone.createCanaryChunks_ok hcan]
  rfl

theorem isoNewZone_fits (hF : FitConfig C) {env : NewZoneEnv} (hs : size ≤ C.smallSzMax)
    (h : r.isoNewZone C env size true = .ok (some i, r')) :
    FitsRequest C size (r'.zones i) ∧ LeastPow2Above (max size smallestChunkSz) (r'.zones i).chunkSize := by
  obtain ⟨-, ⟨-, hres, -⟩ | ⟨m, z, h1, r2, hm, hb, -, hres, rfl⟩⟩ := isoNewZone_ok h
  · exact Option.noConfusion hres
  obtain rfl := Option.some.inj hres
  obtain ⟨-, hint, hsz, -⟩ := buildZone_fields hb
  have hl : LeastPow2Above (max size smallestChunkSz) z.maskZonePtrs.chunkSize :=
    hsz ▸ newZoneSize_least (Nat.le_of_lt (Nat.lt_of_le_of_lt hs hF.small_lt)) hm
  show FitsRequest C size ((r2.setZone z.index z.maskZonePtrs).zones z.index) ∧
    LeastPow2Above _ ((r2.setZone z.index z.maskZonePtrs).zones z.index).chunkSize
  rw [setZone_zones_same]
  exact ⟨.of_leastPow2Above hF.waste_pos hl hint ((Zone.maskZonePtrs_isFull z).trans (buildZone_isFull hb)), hl⟩

end Root

/-- What the fit policy asks of `_iso_alloc` by a thread with caches `t` on the
root `r`: a request without a private zone is never left without a slot, a
small one is served from a zone that fits it, a zone made for it has the least
power-of-two size above it, and a private zone serves only requests its chunks
hold. -/
structure DispatchFits (C : Config) (env : OpEnv) (t : ThreadState) (r : Root) : Prop where
  slot : ∀ size zone r1 r2, Root.chooseZone C env t none size r = .ok (zone, r1) →
    Root.chooseSlot C env zone size r1 ≠ .ok (none, r2)
  fits : ∀ size zone r1 i slot r2, size ≤ C.smallSzMax →
    Root.chooseZone C env t none size r = .ok (zone, r1) →
    Root.chooseSlot C env zone size r1 = .ok (some (i, slot), r2) → FitsRequest C size (r2.zones i)
  newZone : ∀ size r1 i slot r2, size ≤ C.smallSzMax →
    Root.chooseZone C env t none size r = .ok (none, r1) →
    Root.chooseSlot C env none size r1 = .ok (some (i, slot), r2) →
    LeastPow2Above (max size smallestChunkSz) (r2.zones i).chunkSize
  privateZone : ∀ size i p r', r.isoAlloc C env t (some i) size = .ok (p, r') →
    size ≤ (r.zones i).chunkSize

namespace Root

variable {C : Config} {r : Root}

theorem chooseSlot_none_fits (hF : FitConfig C) {env : OpEnv} {size i : Nat} {slot : Int} {r' : Root}
    (hs : size ≤ C.smallSzMax) (h : chooseSlot C env none size r = .ok (some (i, slot), r')) :
    FitsRequest C size (r'.zones i) ∧ LeastPow2Above (max size smallestChunkSz) (r'.zones i).chunkSize := by
  rw [chooseSlot_none] at h
  obtain ⟨⟨made, r1⟩, h1, h⟩ := bind_eq_ok.1 h
  dsimp only at h
  split at h
  · exact absurd h throw_ne_ok
  · cases pure_eq_ok.1 h
    exact isoNewZone_fits hF hs h1

theorem dispatchFits (hF : FitConfig C) (hinv : SizeChains C r) (env : OpEnv) (t : ThreadState) :
    DispatchFits C env t r where
  slot _ _ _ _ h1 h2 := by obtain ⟨j, hj⟩ := chooseSlot_none_private h1 h2; cases hj
  fits size zone r1 i slot r2 hs h1 h2 := by
    cases zone with
    | some j =>
      have hf := chooseZone_fits hF hinv h1
      obtain ⟨rfl, rfl⟩ := chooseSlot_internal hf.internal h2
      exact hf
    | none => exact (chooseSlot_none_fits hF hs h2).1
  newZone _ _ _ _ _ hs _ h2 := (chooseSlot_none_fits hF hs h2).2
  privateZone size i p r' h := Nat.le_of_not_lt fun hlt => by simp [isoAlloc, hlt] at h

end Root

/-- In every reachable state, `_iso_alloc` without a private zone always takes
a slot. A small request is served from an internal zone that is not full and
whose chunk size passes the fit policy, whether the thread's zone cache, the
size chain, the linear scan or a new zone supplied it; a new zone has the least
power of two above the request and `SMALLEST_CHUNK_SZ`; and a private zone
serves only the requests its chunks hold. -/
theorem reachable_dispatch_fits {C : Config} (hF : FitConfig C) {s : Sys} (hs : Sys.Reachable C s)
    (env : OpEnv) (th : Nat) : DispatchFits C env (s.threads th) s.root :=
  Root.dispatchFits hF (Sys.Reachable.sizeChains hF.smallest_le hs) env (s.threads th)

theorem smallZoneConfig_fitConfig : FitConfig smallZoneConfig :=
  ⟨by decide, by decide, by decide, by decide, by decide⟩

theorem small_root_dispatch_fits : ∃ s, smallRun = .ok s ∧ FitConfig smallZoneConfig ∧
    Sys.Reachable smallZoneConfig s ∧ DispatchFits smallZoneConfig smallOpEnv (s.threads 0) s.root := by
  obtain ⟨s, hs, hr⟩ := smallRun_reachable
  exact ⟨s, hs, smallZoneConfig_fitConfig, hr, reachable_dispatch_fits smallZoneConfig_fitConfig hr smallOpEnv 0⟩

end IsoAlloc
