import IsoAlloc.Events

/-!
The free paths at the level of the root. `_iso_free`, `_iso_free_size`,
`_iso_free_from_zone` and the drain of a thread's chunk quarantine change the
root only through `_iso_free_internal_unlocked`: it frees a chunk into its
zone and retires the zone when the free leaves it retired, or it frees a big
record. What each entry point does to the root is a run of those events, with
the entry point's `permanent` flag.
-/

namespace IsoAlloc

namespace Root

open Relation

/-- What a free does to the root: free a chunk into its zone, retire an
internal zone by re-creating it from its own draw, or free a big record. -/
inductive FreeEvent (C : Config) (E : Nat → NewZoneEnv) (perm : Bool) : Root → Root → Prop
  | chunk {r : Root} {i : Nat} {p : Word} {z : Zone} {h : Heap} :
      (r.zones i).isoFreeChunkFromZone C r.heap p perm = .ok (z, h) →
      FreeEvent C E perm r ({ r with heap := h }.setZone i z)
  | retire {r r' : Root} {i : Nat} :
      (r.zones i).internal = true → r.isoAllocDestroyZoneUnlocked C (E i) i true = .ok r' →
      FreeEvent C E perm r r'
  | big {r r' : Root} {a : Word} : r.isoFreeBigZone C a perm = .ok r' → FreeEvent C E perm r r'

variable {C : Config} {E : Nat → NewZoneEnv} {r r' : Root}

theorem FreeEvent.eventOf {perm : Bool} (he : FreeEvent C E perm r r') : EventOf C E r r' := by
  cases he with
  | chunk h => exact .freeChunk h
  | retire _ h => exact .destroy h
  | big h => exact .bigFree h

variable {env : OpEnv} {t t' : ThreadState} {p : Word}

/-- `_iso_free_internal_unlocked` frees a chunk and perhaps retires its zone,
which the free left internal, or frees a big record. -/
theorem isoFreeInternalUnlocked_frees {perm : Bool} {zone : Option Nat}
    (h : isoFreeInternalUnlocked C env t r p perm zone = .ok (t', r')) :
    ReflTransGen (FreeEvent C env.zoneEnv perm) r r' := by
  unfold isoFreeInternalUnlocked at h
  obtain ⟨zone', -, h⟩ := bind_eq_ok.1 h
  split at h
  · obtain ⟨⟨z, hp⟩, h1, h⟩ := bind_eq_ok.1 h
    dsimp only at h
    have e1 : FreeEvent C env.zoneEnv perm r _ := .chunk h1
    split at h
    next hret =>
      obtain ⟨r2, h2, h⟩ := bind_eq_ok.1 h
      cases pure_eq_ok.1 h
      have hint : z.internal = true := by
        simp only [Zone.isZoneRetired, Bool.decide_and, Bool.and_eq_true, decide_eq_true_eq] at hret
        exact hret.2.2.1
      exact (ReflTransGen.single e1).tail (.retire (by rwa [setZone_zones_same]) h2)
    · cases pure_eq_ok.1 h; exact .single e1
  · obtain ⟨found, -, h⟩ := bind_eq_ok.1 h
    split at h
    · exact absurd h throw_ne_ok
    · obtain ⟨r2, h2, h⟩ := bind_eq_ok.1 h
      cases pure_eq_ok.1 h
      exact .single (.big h2)

theorem freeEach_frees {ps : List Word} (h : freeEach C env ps t r = .ok (t', r')) :
    ReflTransGen (FreeEvent C env.zoneEnv false) r r' := by
  induction ps generalizing t r with
  | nil => cases pure_eq_ok.1 h; exact .refl
  | cons p ps ih =>
    obtain ⟨⟨t1, r1⟩, h1, h⟩ := bind_eq_ok.1 h
    exact (isoFreeInternalUnlocked_frees h1).trans (ih h)

theorem flushChunkQuarantine_frees (h : flushChunkQuarantine C env t r = .ok (t', r')) :
    ReflTransGen (FreeEvent C env.zoneEnv false) r r' := by
  obtain ⟨⟨t1, r1⟩, h1, h⟩ := bind_eq_ok.1 h
  cases pure_eq_ok.1 h
  exact freeEach_frees h1

theorem isoFree_frees {perm : Bool} (h : isoFree C env t r p perm = .ok (t', r')) :
    ReflTransGen (FreeEvent C env.zoneEnv perm) r r' := by
  unfold isoFree at h
  dsimp only at h
  split at h
  · cases pure_eq_ok.1 h; exact .refl
  simp only [pure_bind] at h
  split at h
  next hperm =>
    obtain ⟨x, h1, h⟩ := bind_eq_ok.1 h
    cases pure_eq_ok.1 h
    rw [hperm]
    exact isoFreeInternalUnlocked_frees h1
  next hperm =>
    rw [Bool.not_eq_true] at hperm
    subst hperm
    split at h
    · cases pure_eq_ok.1 h; exact .refl
    · obtain ⟨⟨t1, r1⟩, h1, h⟩ := bind_eq_ok.1 h
      cases pure_eq_ok.1 h
      exact freeEach_frees h1

theorem isoFreeSize_frees {size : Nat} (h : isoFreeSize C env t r p size = .ok (t', r')) :
    ReflTransGen (FreeEvent C env.zoneEnv false) r r' := by
  unfold isoFreeSize at h
  dsimp only at h
  split at h
  · cases pure_eq_ok.1 h; exact .refl
  simp only [pure_bind] at h
  split at h
  · obtain ⟨found, -, h⟩ := bind_eq_ok.1 h
    split at h
    · exact absurd h throw_ne_ok
    · obtain ⟨r1, h1, h⟩ := bind_eq_ok.1 h
      cases pure_eq_ok.1 h
      exact .single (.big h1)
  · obtain ⟨found, -, h⟩ := bind_eq_ok.1 h
    split at h
    · exact absurd h throw_ne_ok
    · exact isoFreeInternalUnlocked_frees (ite_throw_eq_ok.1 h).2

theorem isoFreeFromZone_frees {zone : Option Nat} {perm : Bool}
    (h : isoFreeFromZone C env t r p zone perm = .ok (t', r')) : ReflTransGen (FreeEvent C env.zoneEnv perm) r r' := by
  unfold isoFreeFromZone at h
  split at h
  · cases pure_eq_ok.1 h; exact .refl
  · exact isoFreeInternalUnlocked_frees h

end Root

end IsoAlloc
