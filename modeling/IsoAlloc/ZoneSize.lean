import IsoAlloc.Root
import Mathlib.Algebra.Group.Nat.Basic
import Mathlib.Data.Nat.Defs

/-!
The chunk sizes `_iso_new_zone` settles on. `next_pow2`'s or-shift cascade
copies every set bit into all lower positions, so its result is a power of
two (or 0 when the `+ 1` wraps); a size `_iso_new_zone` settles on is
therefore one it keeps unchanged when asked for it again, as retirement does.
-/

namespace IsoAlloc

theorem testBit_or_shiftRight (x k j : Nat) :
    (x ||| x >>> k).testBit j = (x.testBit j || x.testBit (j + k)) := by
  simp [Nat.add_comm k j]

theorem smear_step {x y n : Nat} (h : ∀ j, y.testBit j = true ↔ ∃ d < n, x.testBit (j + d) = true)
    (j : Nat) : (y ||| y >>> n).testBit j = true ↔ ∃ d < 2 * n, x.testBit (j + d) = true := by
  rw [testBit_or_shiftRight, Bool.or_eq_true, h, h]
  constructor
  · rintro (⟨d, hd, hx⟩ | ⟨d, hd, hx⟩)
    · exact ⟨d, by omega, hx⟩
    · exact ⟨n + d, by omega, by rwa [← Nat.add_assoc]⟩
  · rintro ⟨d, hd, hx⟩
    by_cases hdn : d < n
    · exact .inl ⟨d, hdn, hx⟩
    · exact .inr ⟨d - n, by omega, by rwa [show j + n + (d - n) = j + d by omega]⟩

theorem smeared_eq {x y : Nat} (hx : x < 2 ^ 64)
    (h : ∀ j, y.testBit j = true ↔ ∃ d < 64, x.testBit (j + d) = true) :
    y = if x = 0 then 0 else 2 ^ (x.log2 + 1) - 1 := by
  apply Nat.eq_of_testBit_eq
  intro j
  split
  · subst_vars
    simpa using h j
  · rename_i hx0
    rw [Nat.testBit_two_pow_sub_one]
    apply Bool.eq_iff_iff.2
    rw [h j, decide_eq_true_iff]
    constructor
    · rintro ⟨d, -, hd⟩
      refine Nat.lt_of_not_le fun hj => ?_
      have : x < 2 ^ (j + d) :=
        Nat.lt_of_lt_of_le Nat.lt_log2_self (Nat.pow_le_pow_right (by decide) (by omega))
      rw [Nat.testBit_lt_two_pow this] at hd
      exact absurd hd (by decide)
    · intro hj
      refine Classical.byContradiction fun hno => ?_
      have hlt : x < 2 ^ j := Nat.lt_pow_two_of_testBit x fun i hi => by
        by_cases hi64 : i < j + 64
        · have := fun h => hno ⟨i - j, by omega, by rwa [show j + (i - j) = i by omega]⟩
          simpa using this
        · exact Nat.testBit_lt_two_pow
            (Nat.lt_of_lt_of_le hx (Nat.pow_le_pow_right (by decide) (by omega)))
      have := Nat.log2_self_le hx0
      have := Nat.pow_le_pow_right (n := 2) (by decide) (show j ≤ x.log2 by omega)
      omega

theorem isPow2_two_pow (k : Nat) : isPow2 (2 ^ k) = true := by
  simp [isPow2]

/-- `next_pow2` of a nonzero value is the power of two just above its top
bit, taken modulo `2^64`. -/
theorem nextPow2_toNat (w : Word) :
    (nextPow2 w).toNat = if w.toNat = 0 then 1 else 2 ^ (w.toNat.log2 + 1) % 2 ^ 64 := by
  have base : ∀ j, w.toNat.testBit j = true ↔ ∃ d < 1, w.toNat.testBit (j + d) = true :=
    fun j => ⟨fun h => ⟨0, by decide, h⟩, fun ⟨d, hd, h⟩ => by rwa [show d = 0 by omega] at h⟩
  have h6 := smear_step (smear_step (smear_step (smear_step (smear_step (smear_step base)))))
  simp only [Nat.reduceMul] at h6
  simp only [nextPow2, BitVec.toNat_add, BitVec.toNat_or, BitVec.toNat_ushiftRight]
  rw [smeared_eq w.isLt h6]
  split
  · rfl
  · rw [show BitVec.toNat (1 : Word) = 1 from rfl, Nat.sub_add_cancel Nat.one_le_two_pow]

theorem isPow2_nextPow2 (w : Word) : isPow2 (nextPow2 w).toNat = true := by
  rw [nextPow2_toNat]
  split
  · decide
  · have hL := (Nat.log2_lt ‹_›).2 w.isLt
    rcases Nat.lt_or_ge ((BitVec.toNat w).log2 + 1) 64 with h | h
    · rw [Nat.mod_eq_of_lt (Nat.pow_lt_pow_of_lt (by decide) h)]; exact isPow2_two_pow _
    · rw [show (BitVec.toNat w).log2 + 1 = 64 by omega, Nat.mod_self]; decide

theorem testBit_of_two_pow_le_of_lt {x L : Nat} (h1 : 2 ^ L ≤ x) (h2 : x < 2 ^ (L + 1)) :
    x.testBit L = true := by
  rw [Nat.testBit_to_div_mod,
    Nat.div_eq_of_lt_le (k := 1) (by simpa using h1) (by rw [Nat.pow_succ] at h2; omega)]
  rfl

theorem eq_two_pow_of_isPow2 {n : Nat} (h : isPow2 n = true) (hn : n ≠ 0) : n = 2 ^ n.log2 := by
  have hlo := Nat.log2_self_le hn
  refine ((Nat.lt_or_eq_of_le hlo).resolve_left fun hlt => ?_).symm
  have hb : (n &&& (n - 1)).testBit n.log2 = true := by
    rw [Nat.testBit_and, testBit_of_two_pow_le_of_lt hlo Nat.lt_log2_self,
      testBit_of_two_pow_le_of_lt (by omega) (by have := @Nat.lt_log2_self n; omega)]
    rfl
  simp only [isPow2, beq_iff_eq] at h
  rw [h, Nat.zero_testBit] at hb
  exact Bool.noConfusion hb

/-- `m` is the least power of two at or above `n`. -/
structure LeastPow2Above (n m : Nat) : Prop where
  pow2 : ∃ k, m = 2 ^ k
  le : n ≤ m
  least : ∀ k, n ≤ 2 ^ k → m ≤ 2 ^ k

namespace LeastPow2Above

variable {n m : Nat}

theorem two_pow (k : Nat) : LeastPow2Above (2 ^ k) (2 ^ k) := ⟨⟨k, rfl⟩, Nat.le_refl _, fun _ h => h⟩

theorem clamp (h : LeastPow2Above n m) :
    LeastPow2Above (max n smallestChunkSz) (if m < smallestChunkSz then smallestChunkSz else m) := by
  have := h.le
  unfold smallestChunkSz
  split
  · exact ⟨⟨4, rfl⟩, by omega, fun k hk => Nat.le_trans (Nat.le_max_right _ _) hk⟩
  · exact ⟨h.pow2, by omega, fun k hk => h.least k (by omega)⟩

theorem lt_two_mul (h : LeastPow2Above n m) (hn : n ≠ 0) : m < 2 * n := by
  have hlo := Nat.log2_self_le hn
  rcases Nat.lt_or_eq_of_le hlo with hlt | heq
  · have := h.least (n.log2 + 1) (Nat.le_of_lt Nat.lt_log2_self)
    rw [Nat.pow_succ] at this
    omega
  · have := h.least n.log2 (Nat.le_of_eq heq.symm)
    omega

end LeastPow2Above

theorem leastPow2Above_round {n : Nat} (hn0 : n ≠ 0) (hn : n ≤ 2 ^ 63) :
    LeastPow2Above n (if isPow2 n then n else (nextPow2 (BitVec.ofNat 64 n)).toNat) := by
  split
  · rename_i hp
    rw [eq_two_pow_of_isPow2 hp hn0]
    exact .two_pow _
  · rename_i hp
    have hL : n.log2 < 63 := (Nat.log2_lt hn0).2 (Nat.lt_of_le_of_ne hn fun h => hp (h ▸ isPow2_two_pow 63))
    rw [nextPow2_toNat, BitVec.toNat_ofNat, Nat.mod_eq_of_lt (by omega), if_neg hn0,
      Nat.mod_eq_of_lt (Nat.pow_lt_pow_of_lt (by decide) (by omega))]
    have hlo := Nat.log2_self_le hn0
    have hne : 2 ^ n.log2 ≠ n := fun h => hp (h ▸ isPow2_two_pow _)
    refine ⟨⟨_, rfl⟩, Nat.le_of_lt Nat.lt_log2_self, fun k hk => Nat.pow_le_pow_right (by decide) ?_⟩
    exact (Nat.pow_lt_pow_iff_right (by decide)).1 (show 2 ^ n.log2 < 2 ^ k by omega)

theorem nextPow2_leastPow2Above {s : Word} (h1 : 1 ≤ s.toNat) (h2 : s.toNat < 2 ^ 63)
    (hs : isPow2 s.toNat = false) : LeastPow2Above s.toNat (nextPow2 s).toNat := by
  simpa [hs] using leastPow2Above_round (n := s.toNat) (by omega) (Nat.le_of_lt h2)

namespace Root

variable {C : Config}

theorem newZoneSize_pow2 {n m : Nat} (h : newZoneSize C n = some m) :
    isPow2 m = true ∧ smallestChunkSz ≤ m ∧ (m ≤ C.smallSzMax ∨ m = smallestChunkSz) := by
  unfold newZoneSize at h
  have hp : isPow2 (if isPow2 n then n else (nextPow2 (BitVec.ofNat 64 n)).toNat) = true := by
    split
    · assumption
    · exact isPow2_nextPow2 _
  generalize (if isPow2 n then n else (nextPow2 (BitVec.ofNat 64 n)).toNat) = s at h hp
  by_cases hs : C.smallSzMax < s
  · simp [hs] at h
  · simp only [hs, if_false, Option.some.injEq] at h
    subst h
    split
    · exact ⟨by decide, Nat.le_refl _, .inr rfl⟩
    · exact ⟨hp, by omega, .inl (by omega)⟩

theorem newZoneSize_two_pow {n m : Nat} (h : newZoneSize C n = some m) : ∃ k, m = 2 ^ k := by
  obtain ⟨hp, hlo, -⟩ := newZoneSize_pow2 h
  exact ⟨_, eq_two_pow_of_isPow2 hp (by unfold smallestChunkSz at hlo; omega)⟩

/-- For a request up to `2^63`, the size `_iso_new_zone` settles on is the
least power of two at or above both the request and `SMALLEST_CHUNK_SZ`. -/
theorem newZoneSize_least {size m : Nat} (hs : size ≤ 2 ^ 63) (h : newZoneSize C size = some m) :
    LeastPow2Above (max size smallestChunkSz) m := by
  unfold newZoneSize at h
  by_cases h0 : size = 0
  · subst h0
    simp only [show isPow2 0 = true from rfl, if_true, Nat.not_lt_zero, if_false, Option.some.injEq] at h
    subst h
    exact ⟨⟨4, rfl⟩, by decide, fun k hk => hk⟩
  · have hr := leastPow2Above_round h0 hs
    generalize (if isPow2 size then size else (nextPow2 (BitVec.ofNat 64 size)).toNat) = s at h hr
    dsimp only at h
    split at h
    · cases h
    · cases h
      exact hr.clamp

theorem newZoneSize_idem (hC : smallestChunkSz ≤ C.smallSzMax) {n m : Nat}
    (h : newZoneSize C n = some m) : newZoneSize C m = some m := by
  obtain ⟨hp, hlo, hhi⟩ := newZoneSize_pow2 h
  simp only [newZoneSize, hp, if_true]
  rw [if_neg (by omega), if_neg (by omega)]

/-- A `SMALL_SZ_MAX` that is a power of two below `2^64` lets `_iso_new_zone`
accept every request up to it, with the least power of two at or above both
the request and `SMALLEST_CHUNK_SZ`. -/
theorem newZoneSize_of_le_smallSzMax (hp : isPow2 C.smallSzMax = true) (hlt : C.smallSzMax < 2 ^ 64)
    {s : Nat} (hs : s ≤ C.smallSzMax) :
    ∃ m, newZoneSize C s = some m ∧ LeastPow2Above (max s smallestChunkSz) m := by
  have h63 : s ≤ 2 ^ 63 := by
    rcases Nat.eq_zero_or_pos C.smallSzMax with h0 | h0
    · omega
    rw [eq_two_pow_of_isPow2 hp (by omega)] at hs hlt
    exact Nat.le_trans hs (Nat.pow_le_pow_right (by decide)
      (Nat.le_of_lt_succ ((Nat.pow_lt_pow_iff_right (by decide : 1 < 2)).1 hlt)))
  have hr : (if isPow2 s then s else (nextPow2 (BitVec.ofNat 64 s)).toNat) ≤ C.smallSzMax := by
    by_cases h0 : s = 0
    · subst h0; exact Nat.zero_le _
    · have hk := eq_two_pow_of_isPow2 hp (by omega)
      rw [hk] at hs ⊢
      exact (leastPow2Above_round h0 h63).least _ hs
  have hm : (newZoneSize C s).isSome := by
    simp only [newZoneSize, if_neg (Nat.not_lt.2 hr), Option.isSome_some]
  obtain ⟨m, hm⟩ := Option.isSome_iff_exists.1 hm
  exact ⟨m, hm, newZoneSize_least h63 hm⟩

/-- `next_pow2`, the or-shift cascade and `+ 1` with no decrement first, rounds
every 64-bit value in `[1, 2^63)` that is not a power of two up to the least
power of two above it. So, with `SMALL_SZ_MAX` a power of two, the rounding
of `_iso_new_zone` gives every request up to `SMALL_SZ_MAX` the least power of
two at or above both the request and `SMALLEST_CHUNK_SZ`. -/
theorem newZoneSize_rounds_to_least_pow2 (hp : isPow2 C.smallSzMax = true) (hlt : C.smallSzMax < 2 ^ 64) :
    (∀ s : Word, 1 ≤ s.toNat → s.toNat < 2 ^ 63 → isPow2 s.toNat = false →
      LeastPow2Above s.toNat (nextPow2 s).toNat) ∧
    ∀ s ≤ C.smallSzMax, ∃ m, newZoneSize C s = some m ∧ LeastPow2Above (max s smallestChunkSz) m :=
  ⟨fun _ h1 h2 hs => nextPow2_leastPow2Above h1 h2 hs, fun _ hs => newZoneSize_of_le_smallSzMax hp hlt hs⟩

theorem example_zone_sizes_round_up :
    isPow2 exampleConfig.smallSzMax = true ∧ exampleConfig.smallSzMax < 2 ^ 64 ∧
      LeastPow2Above (100#64).toNat (nextPow2 100#64).toNat ∧
      ∃ m, newZoneSize exampleConfig 100 = some m ∧ LeastPow2Above (max 100 smallestChunkSz) m :=
  have hp : isPow2 exampleConfig.smallSzMax = true := by decide
  have hlt : exampleConfig.smallSzMax < 2 ^ 64 := by decide
  ⟨hp, hlt, (newZoneSize_rounds_to_least_pow2 hp hlt).1 100#64 (by decide) (by decide) (by decide),
    (newZoneSize_rounds_to_least_pow2 hp hlt).2 100 (by decide)⟩

end Root

end IsoAlloc
