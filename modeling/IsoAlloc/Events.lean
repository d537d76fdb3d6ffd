import IsoAlloc.RootFrames
import Mathlib.Logic.Relation

/-!
Every entry point, run under the root lock, changes the root by a sequence of
events, each the effect of one helper: `is_zone_usable` on a zone, handing out
or freeing a slot, creating or destroying a zone, a big-zone free and the
`memset` of `calloc`; or it makes one big-zone allocation and nothing else.
The zones an entry point creates take their mappings from its own draws. The calling thread's caches change only by
`populate_zone_cache` right after a free, by clearing its zone cache, and by
edits of its quarantine. Each run-level invariant is then one lemma per event.
-/

namespace IsoAlloc

open Relation

namespace Root

theorem setZone_self (r : Root) (i : Nat) : r.setZone i (r.zones i) = r := by
  simp [setZone]

end Root

/-- One change of the root made by a helper that the entry points call. -/
inductive Event (C : Config) : Root → Root → Prop
  | usable {r : Root} {i : Nat} {rand : Nat → Word} {size : Nat} {b : Bool} {z : Zone} :
      (r.zones i).isZoneUsable C rand size = .ok (b, z) → Event C r (r.setZone i z)
  | allocSlot {r : Root} {i : Nat} {p : Word} {z : Zone} {h : Heap} :
      (r.zones i).nextFreeBitSlot ≠ badBitSlot →
      { (r.zones i).maskZonePtrs with nextFreeBitSlot := badBitSlot }.isoAllocBitslotFromZone
        C r.heap (r.zones i).nextFreeBitSlot.toNat = .ok (p, z, h) →
      Event C r ({ r with heap := h }.setZone i z.maskZonePtrs)
  | freeChunk {r : Root} {i : Nat} {p : Word} {perm : Bool} {z : Zone} {h : Heap} :
      (r.zones i).isoFreeChunkFromZone C r.heap p perm = .ok (z, h) →
      Event C r ({ r with heap := h }.setZone i z)
  | newZone {r r' : Root} {env : NewZoneEnv} {size : Nat} {internal : Bool} {res : Option Nat} :
      r.isoNewZone C env size internal = .ok (res, r') → Event C r r'
  | destroy {r r' : Root} {env : NewZoneEnv} {i : Nat} {replace : Bool} :
      r.isoAllocDestroyZoneUnlocked C env i replace = .ok r' → Event C r r'
  | bigAlloc {r r' : Root} {env : BigAllocEnv} {size : Nat} {p : Word} :
      r.isoBigAlloc C env size = .ok (p, r') → Event C r r'
  | bigFree {r r' : Root} {a : Word} {perm : Bool} :
      r.isoFreeBigZone C a perm = .ok r' → Event C r r'
  | memset {r : Root} {p : Word} {n : Nat} {h : Heap} :
      r.heap.memset p 0 n = .ok h → Event C r { r with heap := h }

/-- An event of an entry point that takes the mappings of its new zones from
the draws `E`: `_iso_new_zone` at `zones_used` maps `E zones_used`, and the
destruction of zone `i` re-creates it from `E i`. A big allocation is never
one of them: it is the whole effect of the entry point that makes it. -/
inductive EventOf (C : Config) (E : Nat → NewZoneEnv) : Root → Root → Prop
  | usable {r : Root} {i : Nat} {rand : Nat → Word} {size : Nat} {b : Bool} {z : Zone} :
      (r.zones i).isZoneUsable C rand size = .ok (b, z) → EventOf C E r (r.setZone i z)
  | allocSlot {r : Root} {i : Nat} {p : Word} {z : Zone} {h : Heap} :
      (r.zones i).nextFreeBitSlot ≠ badBitSlot →
      { (r.zones i).maskZonePtrs with nextFreeBitSlot := badBitSlot }.isoAllocBitslotFromZone
        C r.heap (r.zones i).nextFreeBitSlot.toNat = .ok (p, z, h) →
      EventOf C E r ({ r with heap := h }.setZone i z.maskZonePtrs)
  | freeChunk {r : Root} {i : Nat} {p : Word} {perm : Bool} {z : Zone} {h : Heap} :
      (r.zones i).isoFreeChunkFromZone C r.heap p perm = .ok (z, h) →
      EventOf C E r ({ r with heap := h }.setZone i z)
  | newZone {r r' : Root} {size : Nat} {internal : Bool} {res : Option Nat} :
      r.isoNewZone C (E r.zonesUsed) size internal = .ok (res, r') → EventOf C E r r'
  | destroy {r r' : Root} {i : Nat} {replace : Bool} :
      r.isoAllocDestroyZoneUnlocked C (E i) i replace = .ok r' → EventOf C E r r'
  | bigFree {r r' : Root} {a : Word} {perm : Bool} :
      r.isoFreeBigZone C a perm = .ok r' → EventOf C E r r'
  | memset {r : Root} {p : Word} {n : Nat} {h : Heap} :
      r.heap.memset p 0 n = .ok h → EventOf C E r { r with heap := h }

theorem EventOf.event {C : Config} {E : Nat → NewZoneEnv} {r r' : Root} (he : EventOf C E r r') :
    Event C r r' := by
  cases he with
  | usable h => exact .usable h
  | allocSlot hb h => exact .allocSlot hb h
  | freeChunk h => exact .freeChunk h
  | newZone h => exact .newZone h
  | destroy h => exact .destroy h
  | bigFree h => exact .bigFree h
  | memset h => exact .memset h

/-- The events of an allocation: `is_zone_usable`, handing out a slot and a
new zone. An allocation frees, destroys and clears nothing; the `memset` of
`calloc` follows it. -/
inductive AllocEvent (C : Config) (E : Nat → NewZoneEnv) : Root → Root → Prop
  | usable {r : Root} {i : Nat} {rand : Nat → Word} {size : Nat} {b : Bool} {z : Zone} :
      (r.zones i).isZoneUsable C rand size = .ok (b, z) → AllocEvent C E r (r.setZone i z)
  | allocSlot {r : Root} {i : Nat} {p : Word} {z : Zone} {h : Heap} :
      (r.zones i).nextFreeBitSlot ≠ badBitSlot →
      { (r.zones i).maskZonePtrs with nextFreeBitSlot := badBitSlot }.isoAllocBitslotFromZone
        C r.heap (r.zones i).nextFreeBitSlot.toNat = .ok (p, z, h) →
      AllocEvent C E r ({ r with heap := h }.setZone i z.maskZonePtrs)
  | newZone {r r' : Root} {size : Nat} {internal : Bool} {res : Option Nat} :
      r.isoNewZone C (E r.zonesUsed) size internal = .ok (res, r') → AllocEvent C E r r'

namespace AllocEvent

variable {C : Config} {E : Nat → NewZoneEnv} {r r' : Root}

theorem eventOf (he : AllocEvent C E r r') : EventOf C E r r' := by
  cases he with
  | usable h => exact .usable h
  | allocSlot hb h => exact .allocSlot hb h
  | newZone h => exact .newZone h

theorem chain (h : ReflTransGen (AllocEvent C E) r r') : ReflTransGen (EventOf C E) r r' :=
  h.mono fun _ _ => eventOf

end AllocEvent

namespace Root

variable {C : Config} {E : Nat → NewZoneEnv} {r r' : Root}

theorem doesZoneFit_events {rand : Nat → Nat → Word} {i size : Nat} {b : Bool}
    (h : r.doesZoneFit C rand i size = .ok (b, r')) : ReflTransGen (AllocEvent C E) r r' := by
  simp only [doesZoneFit, bind_eq_ok, pure_eq_ok] at h
  obtain ⟨⟨b', z⟩, hfit, hr⟩ := h
  cases hr
  unfold Zone.isoDoesZoneFit at hfit
  split at hfit
  · cases pure_eq_ok.1 hfit; rw [setZone_self]
  split at hfit
  · cases pure_eq_ok.1 hfit; rw [setZone_self]
  · exact .single (.usable hfit)

theorem cacheProbe_events {rand : Nat → Nat → Word} {size : Nat} {es : List (Nat × Nat)}
    {res : Option Nat} (h : cacheProbe C rand size es r = .ok (res, r')) :
    ReflTransGen (AllocEvent C E) r r' := by
  induction es generalizing r with
  | nil => cases pure_eq_ok.1 h; exact .refl
  | cons e es ih =>
    simp only [cacheProbe] at h
    split at h
    · obtain ⟨⟨fits, r1⟩, hfit, h⟩ := bind_eq_ok.1 h
      have h1 := doesZoneFit_events (E := E) hfit
      split at h
      · cases pure_eq_ok.1 h; exact h1
      · exact h1.trans (ih h)
    · exact ih h

theorem fitChain_events {rand : Nat → Nat → Word} {size fuel i : Nat} {res : Option Nat}
    (h : fitChain C rand size fuel i r = .ok (res, r')) : ReflTransGen (AllocEvent C E) r r' := by
  induction fuel generalizing i r with
  | zero => exact absurd h throw_ne_ok
  | succ fuel ih =>
    simp only [fitChain] at h
    split at h
    · split at h
      · exact absurd h throw_ne_ok
      split at h
      · exact absurd h throw_ne_ok
      obtain ⟨⟨fits, r1⟩, hfit, h⟩ := bind_eq_ok.1 h
      have h1 := doesZoneFit_events (E := E) hfit
      split at h
      · cases pure_eq_ok.1 h; exact h1
      split at h
      · exact h1.trans (ih h)
      · cases pure_eq_ok.1 h; exact h1
    · cases pure_eq_ok.1 h; exact .refl

theorem fitScan_events {rand : Nat → Nat → Word} {size : Nat} {is : List Nat} {res : Option Nat}
    (h : fitScan C rand size is r = .ok (res, r')) : ReflTransGen (AllocEvent C E) r r' := by
  induction is generalizing r with
  | nil => cases pure_eq_ok.1 h; exact .refl
  | cons i is ih =>
    simp only [fitScan] at h
    obtain ⟨⟨fits, r1⟩, hfit, h⟩ := bind_eq_ok.1 h
    have h1 := doesZoneFit_events (E := E) hfit
    split at h
    · cases pure_eq_ok.1 h; exact h1
    · exact h1.trans (ih h)

theorem fitLookup_events {rand : Nat → Nat → Word} {size : Nat} {res : Option Nat}
    (h : r.fitLookup C rand size = .ok (res, r')) : ReflTransGen (AllocEvent C E) r r' := by
  unfold fitLookup at h
  split at h
  · exact fitChain_events h
  · cases pure_eq_ok.1 h; exact .refl

theorem isoFindZoneFit_events {rand : Nat → Nat → Word} {size : Nat} {res : Option Nat}
    (h : r.isoFindZoneFit C rand size = .ok (res, r')) : ReflTransGen (AllocEvent C E) r r' := by
  simp only [isoFindZoneFit] at h
  obtain ⟨⟨found, r1⟩, h1, h⟩ := bind_eq_ok.1 h
  split at h
  · cases pure_eq_ok.1 h; exact fitLookup_events h1
  · exact (fitLookup_events h1).trans (fitScan_events h)

theorem chooseZone_allocEvents {env : OpEnv} {t : ThreadState} {zone res : Option Nat} {size : Nat}
    (h : chooseZone C env t zone size r = .ok (res, r')) : ReflTransGen (AllocEvent C env.zoneEnv) r r' := by
  unfold chooseZone at h
  split at h
  · cases pure_eq_ok.1 h; exact .refl
  · obtain ⟨⟨found, r1⟩, h1, h⟩ := bind_eq_ok.1 h
    dsimp only at h
    split at h
    · cases pure_eq_ok.1 h; exact cacheProbe_events h1
    · exact (cacheProbe_events h1).trans (isoFindZoneFit_events h)

theorem usableIfPrivate_events {rand : Nat → Word} {i size : Nat} {b : Bool}
    (h : usableIfPrivate C rand i size r = .ok (b, r')) : ReflTransGen (AllocEvent C E) r r' := by
  unfold usableIfPrivate at h
  split at h
  · obtain ⟨⟨ok, z⟩, h1, h⟩ := bind_eq_ok.1 h
    cases pure_eq_ok.1 h; exact .single (.usable h1)
  · cases pure_eq_ok.1 h; exact .refl

theorem chooseSlot_allocEvents {env : OpEnv} {zone : Option Nat} {size : Nat} {res : Option (Nat × Int)}
    (h : chooseSlot C env zone size r = .ok (res, r')) : ReflTransGen (AllocEvent C env.zoneEnv) r r' := by
  unfold chooseSlot at h
  split at h
  · obtain ⟨⟨usable, r1⟩, h1, h⟩ := bind_eq_ok.1 h
    dsimp only at h
    simp only [pure_bind, ite_eq_iff, pure_eq_ok, Prod.mk.injEq] at h
    rcases h with ⟨-, -, rfl⟩ | ⟨-, ⟨-, -, rfl⟩ | ⟨-, -, rfl⟩⟩ <;> exact usableIfPrivate_events h1
  · obtain ⟨⟨made, r1⟩, h1, h⟩ := bind_eq_ok.1 h
    dsimp only at h
    split at h
    · exact absurd h throw_ne_ok
    · simp only [pure_bind, throw_bind, ite_throw_eq_ok, pure_eq_ok, Prod.mk.injEq] at h
      rw [← h.2.2]
      exact .single (.newZone h1)

theorem chooseZone_events {env : OpEnv} {t : ThreadState} {zone res : Option Nat} {size : Nat}
    (h : chooseZone C env t zone size r = .ok (res, r')) : ReflTransGen (EventOf C env.zoneEnv) r r' :=
  AllocEvent.chain (chooseZone_allocEvents h)

theorem chooseSlot_events {env : OpEnv} {zone : Option Nat} {size : Nat} {res : Option (Nat × Int)}
    (h : chooseSlot C env zone size r = .ok (res, r')) : ReflTransGen (EventOf C env.zoneEnv) r r' :=
  AllocEvent.chain (chooseSlot_allocEvents h)

theorem chooseSlot_some {env : OpEnv} {zone : Option Nat} {size i : Nat} {slot : Int}
    (h : chooseSlot C env zone size r = .ok (some (i, slot), r')) :
    (r'.zones i).nextFreeBitSlot = slot ∧ slot ≠ badBitSlot := by
  unfold chooseSlot at h
  split at h
  · obtain ⟨⟨usable, r1⟩, -, h⟩ := bind_eq_ok.1 h
    dsimp only at h
    simp only [pure_bind, ite_eq_iff, pure_eq_ok, Prod.mk.injEq, Option.some.injEq] at h
    rcases h with ⟨-, h, -⟩ | ⟨-, ⟨-, h, -⟩ | ⟨hs, ⟨rfl, rfl⟩, rfl⟩⟩
    · cases h
    · cases h
    · exact ⟨rfl, hs⟩
  · obtain ⟨⟨made, r1⟩, -, h⟩ := bind_eq_ok.1 h
    dsimp only at h
    split at h
    · exact absurd h throw_ne_ok
    · simp only [pure_bind, throw_bind, ite_throw_eq_ok, pure_eq_ok, Prod.mk.injEq, Option.some.injEq] at h
      obtain ⟨hs, ⟨rfl, rfl⟩, rfl⟩ := h
      exact ⟨rfl, hs⟩

/-- `_iso_alloc` is a run of allocation events, or a big allocation and
nothing else. -/
theorem isoAlloc_events {env : OpEnv} {t : ThreadState} {zone : Option Nat} {size : Nat} {p : Word}
    (h : isoAlloc C env t r zone size = .ok (p, r')) :
    ReflTransGen (AllocEvent C env.zoneEnv) r r' ∨
      (C.smallSzMax < size ∧ r.isoBigAlloc C env.bigEnv size = .ok (p, r')) := by
  simp only [isoAlloc, pure_bind, throw_bind, ite_throw_eq_ok] at h
  obtain ⟨-, h⟩ := h
  split at h
  · obtain ⟨⟨zone', r1⟩, h1, h⟩ := bind_eq_ok.1 h
    obtain ⟨⟨chosen, r2⟩, h2, h⟩ := bind_eq_ok.1 h
    have e12 := (chooseZone_allocEvents h1).trans (chooseSlot_allocEvents h2)
    dsimp only at h
    split at h
    · cases pure_eq_ok.1 h; exact .inl e12
    · obtain ⟨⟨p', z, hp⟩, h3, h⟩ := bind_eq_ok.1 h
      cases pure_eq_ok.1 h
      obtain ⟨hn, hbad⟩ := chooseSlot_some h2
      rw [← hn] at h3 hbad
      exact .inl (e12.tail (.allocSlot hbad h3))
  · exact .inr ⟨by omega, (ite_throw_eq_ok.1 h).2⟩

theorem isoCalloc_events {env : OpEnv} {t : ThreadState} {nmemb size : Nat} {p : Word}
    (h : isoCalloc C env t r nmemb size = .ok (p, r')) :
    (∃ r1 n hp, ReflTransGen (AllocEvent C env.zoneEnv) r r1 ∧ r1.heap.memset p 0 n = .ok hp ∧
      r' = { r1 with heap := hp }) ∨
      ∃ sz, C.smallSzMax < sz ∧ r.isoBigAlloc C env.bigEnv sz = .ok (p, r') := by
  simp only [isoCalloc, pure_bind, throw_bind, ite_throw_eq_ok] at h
  obtain ⟨-, h⟩ := h
  obtain ⟨⟨p1, r1⟩, h1, h⟩ := bind_eq_ok.1 h
  dsimp only at h
  split at h
  · obtain ⟨hp, h2, h⟩ := bind_eq_ok.1 h
    cases pure_eq_ok.1 h
    rcases isoAlloc_events h1 with e | ⟨hs, -⟩
    · exact .inl ⟨r1, _, hp, e, h2, rfl⟩
    · omega
  · cases pure_eq_ok.1 h
    rename_i hs
    simp only [isoAlloc, pure_bind, throw_bind, ite_throw_eq_ok, if_neg hs] at h1
    exact .inr ⟨_, Nat.lt_of_not_le hs, h1.2.2⟩

end Root

/-- One step of thread `th`'s entry point, with the zone mappings drawn from
`E`: a root event, a free followed by `populate_zone_cache`, clearing the
zone cache, or a new quarantine. -/
inductive Sys.Micro (C : Config) (E : Nat → NewZoneEnv) (th : Nat) : Sys → Sys → Prop
  | event {s : Sys} {r : Root} : EventOf C E s.root r → Micro C E th s { s with root := r }
  | free {s : Sys} {i : Nat} {p : Word} {perm : Bool} {z : Zone} {h : Heap} :
      (s.root.zones i).isoFreeChunkFromZone C s.root.heap p perm = .ok (z, h) →
      Micro C E th s (s.put th ((s.threads th).populateZoneCache i z) ({ s.root with heap := h }.setZone i z))
  | clearZoneCache {s : Sys} : Micro C E th s (s.put th (s.threads th).clearZoneCache s.root)
  | quarantine {s : Sys} {q : List Word} :
      Micro C E th s (s.put th { s.threads th with chunkQuarantine := q } s.root)

namespace Sys

variable {C : Config} {E : Nat → NewZoneEnv} {th : Nat}

@[simp] theorem put_root (s : Sys) (th : Nat) (t : ThreadState) (r : Root) : (s.put th t r).root = r := rfl
@[simp] theorem put_threads_same (s : Sys) (th : Nat) (t : ThreadState) (r : Root) :
    (s.put th t r).threads th = t := by simp [put]
theorem put_put (s : Sys) (th : Nat) (t t' : ThreadState) (r r' : Root) :
    (s.put th t r).put th t' r' = s.put th t' r' := by simp [put]
theorem put_self_threads (s : Sys) (th : Nat) (r : Root) : s.put th (s.threads th) r = { s with root := r } := by
  simp [put]

theorem events_micro {s : Sys} {r : Root} (h : ReflTransGen (EventOf C E) s.root r) :
    ReflTransGen (Micro C E th) s { s with root := r } := by
  induction h with
  | refl => exact .refl
  | tail _ he ih => exact ih.tail (.event he)

theorem put_self (s : Sys) (th : Nat) : s.put th (s.threads th) s.root = s := by
  simp [put]

theorem isoFreeInternalUnlocked_micro {s : Sys} {env : OpEnv} {p : Word} {perm : Bool}
    {zone : Option Nat} {t' : ThreadState} {r' : Root}
    (h : Root.isoFreeInternalUnlocked C env (s.threads th) s.root p perm zone = .ok (t', r')) :
    ReflTransGen (Micro C env.zoneEnv th) s (s.put th t' r') := by
  unfold Root.isoFreeInternalUnlocked at h
  obtain ⟨zone', -, h⟩ := bind_eq_ok.1 h
  split at h
  · obtain ⟨⟨z, hp⟩, h1, h⟩ := bind_eq_ok.1 h
    dsimp only at h
    have m1 := @Micro.free C env.zoneEnv th s _ _ _ _ _ h1
    split at h
    · obtain ⟨r2, h2, h⟩ := bind_eq_ok.1 h
      cases pure_eq_ok.1 h
      exact (ReflTransGen.single m1).tail (.event (.destroy h2))
    · cases pure_eq_ok.1 h; exact .single m1
  · obtain ⟨found, -, h⟩ := bind_eq_ok.1 h
    split at h
    · exact absurd h throw_ne_ok
    · obtain ⟨r2, h2, h⟩ := bind_eq_ok.1 h
      cases pure_eq_ok.1 h
      rw [put_self_threads]; exact .single (.event (.bigFree h2))

theorem freeEach_micro {env : OpEnv} {ps : List Word} {s : Sys} {t' : ThreadState} {r' : Root}
    (h : Root.freeEach C env ps (s.threads th) s.root = .ok (t', r')) :
    ReflTransGen (Micro C env.zoneEnv th) s (s.put th t' r') := by
  induction ps generalizing s with
  | nil => cases pure_eq_ok.1 h; rw [put_self]
  | cons p ps ih =>
    obtain ⟨⟨t1, r1⟩, h1, h⟩ := bind_eq_ok.1 h
    have e1 := isoFreeInternalUnlocked_micro h1
    have e2 := ih (s := s.put th t1 r1) (by simpa using h)
    rw [put_put] at e2
    exact e1.trans e2

theorem flushChunkQuarantine_micro {env : OpEnv} {s : Sys} {t' : ThreadState} {r' : Root}
    (h : Root.flushChunkQuarantine C env (s.threads th) s.root = .ok (t', r')) :
    ReflTransGen (Micro C env.zoneEnv th) s (s.put th t' r') := by
  obtain ⟨⟨t1, r1⟩, h1, h⟩ := bind_eq_ok.1 h
  cases pure_eq_ok.1 h
  have e2 := @Micro.quarantine C env.zoneEnv th (s.put th t1 r') []
  simp only [put_root, put_threads_same, put_put] at e2
  exact (freeEach_micro h1).tail e2

theorem clearThenFlush_micro {env : OpEnv} {s : Sys} {t' : ThreadState} {r' : Root}
    (h : Root.flushChunkQuarantine C env (s.threads th).clearZoneCache s.root = .ok (t', r')) :
    ReflTransGen (Micro C env.zoneEnv th) s (s.put th t' r') := by
  have e2 := @flushChunkQuarantine_micro C th env (s.put th (s.threads th).clearZoneCache s.root) _ _
    (by simpa using h)
  rw [put_put] at e2
  exact (ReflTransGen.single .clearZoneCache).trans e2

theorem isoFree_micro {env : OpEnv} {s : Sys} {p : Word} {perm : Bool} {t' : ThreadState} {r' : Root}
    (h : Root.isoFree C env (s.threads th) s.root p perm = .ok (t', r')) :
    ReflTransGen (Micro C env.zoneEnv th) s (s.put th t' r') := by
  unfold Root.isoFree at h
  dsimp only at h
  split at h
  · cases pure_eq_ok.1 h; rw [put_self]
  simp only [pure_bind] at h
  split at h
  · obtain ⟨x, h1, h⟩ := bind_eq_ok.1 h
    cases pure_eq_ok.1 h
    exact isoFreeInternalUnlocked_micro h1
  split at h
  · cases pure_eq_ok.1 h; exact .single .quarantine
  · obtain ⟨⟨t1, r1⟩, h1, h⟩ := bind_eq_ok.1 h
    cases pure_eq_ok.1 h
    have e2 := @Micro.quarantine C env.zoneEnv th (s.put th t1 r1) [p]
    simp only [put_root, put_threads_same, put_put] at e2
    exact (freeEach_micro h1).tail e2

theorem isoFreeSize_micro {env : OpEnv} {s : Sys} {p : Word} {size : Nat} {t' : ThreadState}
    {r' : Root} (h : Root.isoFreeSize C env (s.threads th) s.root p size = .ok (t', r')) :
    ReflTransGen (Micro C env.zoneEnv th) s (s.put th t' r') := by
  unfold Root.isoFreeSize at h
  dsimp only at h
  split at h
  · cases pure_eq_ok.1 h; rw [put_self]
  simp only [pure_bind] at h
  split at h
  · obtain ⟨found, -, h⟩ := bind_eq_ok.1 h
    split at h
    · exact absurd h throw_ne_ok
    · obtain ⟨r1, h1, h⟩ := bind_eq_ok.1 h
      cases pure_eq_ok.1 h
      rw [put_self_threads]; exact .single (.event (.bigFree h1))
  · obtain ⟨found, -, h⟩ := bind_eq_ok.1 h
    split at h
    · exact absurd h throw_ne_ok
    · exact isoFreeInternalUnlocked_micro (ite_throw_eq_ok.1 h).2

theorem isoFreeFromZone_micro {env : OpEnv} {s : Sys} {p : Word} {zone : Option Nat} {perm : Bool}
    {t' : ThreadState} {r' : Root}
    (h : Root.isoFreeFromZone C env (s.threads th) s.root p zone perm = .ok (t', r')) :
    ReflTransGen (Micro C env.zoneEnv th) s (s.put th t' r') := by
  unfold Root.isoFreeFromZone at h
  split at h
  · cases pure_eq_ok.1 h; rw [put_self]
  · exact isoFreeInternalUnlocked_micro h

theorem isoAllocDestroyZone_micro {env : OpEnv} {s : Sys} {i : Nat} {t' : ThreadState} {r' : Root}
    (h : Root.isoAllocDestroyZone C env (s.threads th) s.root i = .ok (t', r')) :
    ReflTransGen (Micro C env.zoneEnv th) s (s.put th t' r') := by
  obtain ⟨⟨t1, r1⟩, h1, h⟩ := bind_eq_ok.1 h
  obtain ⟨r2, h2, h⟩ := bind_eq_ok.1 h
  cases pure_eq_ok.1 h
  have e2 := @Micro.event C env.zoneEnv th (s.put th t' r1) _ (.destroy h2)
  exact (clearThenFlush_micro h1).tail e2

/-- An entry point is a run of steps, or a big allocation and nothing else. -/
theorem step_micro {env : OpEnv} {op : Op} {s s' : Sys} {ret : Ret}
    (h : s.step C env th op = .ok (ret, s')) :
    ReflTransGen (Micro C env.zoneEnv th) s s' ∨
      (∃ size p, s.root.isoBigAlloc C env.bigEnv size = .ok (p, s'.root)) ∧ s'.threads = s.threads := by
  cases op with
  | alloc zone size =>
    obtain ⟨⟨p, r⟩, h1, h⟩ := bind_eq_ok.1 h
    cases pure_eq_ok.1 h
    rcases Root.isoAlloc_events h1 with e | ⟨-, hb⟩
    · exact .inl (events_micro (AllocEvent.chain e))
    · exact .inr ⟨⟨_, _, hb⟩, rfl⟩
  | calloc nmemb size =>
    obtain ⟨⟨p, r⟩, h1, h⟩ := bind_eq_ok.1 h
    cases pure_eq_ok.1 h
    rcases Root.isoCalloc_events h1 with ⟨r1, _, _, e, hm, rfl⟩ | ⟨_, -, hb⟩
    · exact .inl (events_micro ((AllocEvent.chain e).tail (.memset hm)))
    · exact .inr ⟨⟨_, _, hb⟩, rfl⟩
  | free p perm =>
    obtain ⟨⟨t, r⟩, h1, h⟩ := bind_eq_ok.1 h
    cases pure_eq_ok.1 h
    exact .inl (isoFree_micro h1)
  | freeSize p size =>
    obtain ⟨⟨t, r⟩, h1, h⟩ := bind_eq_ok.1 h
    cases pure_eq_ok.1 h
    exact .inl (isoFreeSize_micro h1)
  | freeFromZone p zone perm =>
    obtain ⟨⟨t, r⟩, h1, h⟩ := bind_eq_ok.1 h
    cases pure_eq_ok.1 h
    exact .inl (isoFreeFromZone_micro h1)
  | newZone size internal =>
    obtain ⟨⟨z, r⟩, h1, h⟩ := bind_eq_ok.1 h
    cases pure_eq_ok.1 h
    unfold Root.isoNewZonePublic at h1
    split at h1
    · cases pure_eq_ok.1 h1; exact .inl .refl
    · exact .inl (.single (.event (.newZone h1)))
  | destroyZone i =>
    obtain ⟨⟨t, r⟩, h1, h⟩ := bind_eq_ok.1 h
    cases pure_eq_ok.1 h
    exact .inl (isoAllocDestroyZone_micro h1)
  | flushCaches =>
    obtain ⟨⟨t, r⟩, h1, h⟩ := bind_eq_ok.1 h
    cases pure_eq_ok.1 h
    exact .inl (clearThenFlush_micro h1)

end Sys

end IsoAlloc

