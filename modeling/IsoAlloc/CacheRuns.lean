import IsoAlloc.SlotCache

/-!
The free-slot cache invariant over whole runs. Every event of the entry
points keeps the invariant of each zone in use, so every reachable root
satisfies it. In such a root `is_zone_usable`, `_iso_new_zone` and the
re-seeding of a destroyed private zone leave a free slot pre-dequeued, and
neither check of `_iso_alloc` on the slot it takes can fire.
-/

namespace IsoAlloc

open Relation

namespace Root

variable {C : Config} {r r' r'' : Root}

/-- Every zone in use keeps its free-slot cache invariant. -/
def LiveCacheInv (C : Config) (r : Root) : Prop :=
  ∀ i, (r.zones i).live = true → (r.zones i).CacheInv C

/-- Each zone of `r'` in use keeps the invariant whenever the zone of the same
index in `r` did. -/
def CacheKept (C : Config) (r r' : Root) : Prop :=
  ∀ k, ((r.zones k).live = true → (r.zones k).CacheInv C) →
    (r'.zones k).live = true → (r'.zones k).CacheInv C

namespace CacheKept

theorem of_zones (h : r'.zones = r.zones) : CacheKept C r r' := fun k hk => by rw [h]; exact hk

theorem trans (h1 : CacheKept C r r') (h2 : CacheKept C r' r'') : CacheKept C r r'' :=
  fun k hk => h2 k (h1 k hk)

theorem liveCacheInv (h : CacheKept C r r') (hinv : LiveCacheInv C r) : LiveCacheInv C r' :=
  fun k => h k (hinv k)

theorem setZone {i : Nat} {z : Zone}
    (h : ((r.zones i).live = true → (r.zones i).CacheInv C) → z.live = true → z.CacheInv C) :
    CacheKept C r (r.setZone i z) := fun k hk => by
  by_cases hki : k = i
  · subst hki; rw [setZone_zones_same]; exact h hk
  · rw [setZone_zones_ne _ _ _ _ hki]; exact hk

theorem setZone_of {i : Nat} {z : Zone} (hf : Zone.ChainFields (r.zones i) z)
    (h : (r.zones i).CacheInv C → z.CacheInv C) : CacheKept C r (r.setZone i z) :=
  setZone fun hk hl => h (hk (hf.live ▸ hl))

theorem madviseDontneed (a : Word) (len : Nat) : CacheKept C r (r.madviseDontneed a len) :=
  fun _ hk hl => (hk hl).madvise a len

theorem unmapZone (i : Nat) : CacheKept C r (r.unmapZone C i) := fun k hk hl => by
  by_cases hki : k = i
  · subst hki
    simp only [Root.unmapZone, Function.update_same] at hl ⊢
    refine (hk ?_).setFields _ _ _
    simp only [Zone.live, Bool.or_eq_true, Bool.and_eq_true] at hl ⊢
    exact hl.imp_right And.left
  · have e : (r.unmapZone C i).zones k = r.zones k := Function.update_noteq hki _ _
    rw [e] at hl ⊢
    exact hk hl

end CacheKept

theorem spliceNewZone_cacheKept {z : Zone} (h : spliceNewZone C r z = .ok r') : CacheKept C r r' := by
  rcases spliceNewZone_ok h with ⟨-, rfl⟩ | ⟨-, ⟨-, rfl⟩ | ⟨-, hw⟩⟩
  · exact .of_zones rfl
  · exact .of_zones rfl
  rcases spliceWalk_ok hw with rfl | ⟨j, -, -, -, rfl⟩
  · exact .of_zones rfl
  · exact (CacheKept.of_zones rfl).trans (.setZone fun hk hl => (hk hl).setFields _ _ _)

theorem liveCacheInv_empty (page : Nat) (heap : Heap) : LiveCacheInv C (Root.empty page heap) :=
  fun _ hl => (Bool.false_ne_true hl).elim

theorem buildZone_next_ne_bad {env : NewZoneEnv} {size : Nat} {internal : Bool} {z : Zone} {h : Heap}
    (hb : r.buildZone C env size internal = .ok (z, h)) : z.nextFreeBitSlot ≠ badBitSlot := by
  obtain ⟨z1, hcan, z2, hfill, rfl⟩ := buildZone_ok hb
  exact Zone.reseed_next_ne_bad (show Zone.Geometry C (freshZone C r env size internal).1 from rfl)
    (fun _ _ => .inl rfl) hcan hfill

section Alignment

variable (hA : ∀ n, C.alignSzDown n ≤ n)
include hA

theorem buildZone_cacheInv {env : NewZoneEnv} {size : Nat} {internal : Bool} {z : Zone} {h : Heap}
    (hb : r.buildZone C env size internal = .ok (z, h)) : z.CacheInv C := by
  obtain ⟨z1, hcan, z2, hfill, rfl⟩ := buildZone_ok hb
  exact Zone.CacheInv.reseed hA (show Zone.Geometry C (freshZone C r env size internal).1 from rfl)
    (fun _ _ => rfl) hcan hfill

theorem isoNewZone_cacheKept {env : NewZoneEnv} {size : Nat} {internal : Bool} {res : Option Nat}
    (h : r.isoNewZone C env size internal = .ok (res, r')) : CacheKept C r r' := by
  obtain ⟨-, ⟨-, -, rfl⟩ | ⟨m, z, h1, r2, -, hb, hs, -, rfl⟩⟩ := isoNewZone_ok h
  · exact .of_zones rfl
  have hz := buildZone_cacheInv hA hb
  exact ((CacheKept.of_zones rfl).trans (spliceNewZone_cacheKept hs)).trans
    ((CacheKept.setZone fun _ _ => hz.maskZonePtrs).trans (.of_zones rfl))

theorem isoAllocDestroyZoneUnlocked_cacheKept {env : NewZoneEnv} {i : Nat} {replace : Bool}
    (h : r.isoAllocDestroyZoneUnlocked C env i replace = .ok r') : CacheKept C r r' := by
  rcases isoAllocDestroyZoneUnlocked_ok h with ⟨-, hm, -, _, -, hd⟩ | ⟨-, -, res, r1, h1, rfl⟩ | ⟨-, -, rfl⟩
  · rcases destroyPrivate_ok hd with ⟨-, calls, rfl⟩ | ⟨-, z1, h1, z2, zr, hcan, hfill, rfl, rfl⟩
    · refine (((CacheKept.of_zones rfl).trans (.setZone fun _ hl => ?_)).trans
        (.madviseDontneed _ _)).trans (.madviseDontneed _ _)
      exact (Bool.false_ne_true hl).elim
    refine (((CacheKept.of_zones rfl).trans (.setZone fun hk _ => ?_)).trans (.madviseDontneed _ _)).trans
      (.madviseDontneed _ _)
    have hz := hk (by simp [Zone.live, hm])
    refine (Zone.CacheInv.reseed hA ?_ (fun w hw => ?_) hcan hfill).maskZonePtrs
    · exact hz.geometry
    have hw' : (r.zones i).getMaxBitmaskIndex ≤ w := hw
    dsimp only
    rw [if_neg (Nat.not_lt.2 hw')]
    exact hz.ok.beyond w hw'
  · have k1 : CacheKept C r { r.setZone i (r.zones i).maskZonePtrs with zonesUsed := (r.zones i).index } :=
      (CacheKept.setZone_of (.maskZonePtrs _) Zone.CacheInv.maskZonePtrs).trans (.of_zones rfl)
    exact ((k1.trans (.unmapZone _)).trans (isoNewZone_cacheKept hA h1)).trans (CacheKept.of_zones (r := r1) rfl)
  · exact (CacheKept.setZone_of (.maskZonePtrs _) Zone.CacheInv.maskZonePtrs).trans (.unmapZone _)

/-- Every event the entry points are made of keeps the invariant. -/
theorem event_cacheKept (he : Event C r r') : CacheKept C r r' := by
  cases he with
  | usable h =>
    exact .setZone_of (.of_slotBookkeeping (Zone.isZoneUsable_slotBookkeeping h)) fun hz => hz.isZoneUsable h
  | allocSlot hn h =>
    obtain ⟨-, -, -, -, -, rfl, -⟩ := Zone.isoAllocBitslotFromZone_ok h
    exact (CacheKept.of_zones rfl).trans (.setZone_of ⟨rfl, rfl, rfl, id, rfl⟩ fun hz => hz.allocSlot hn h)
  | freeChunk h =>
    obtain ⟨n, -, -, -, -, -, -, -, rfl, -⟩ := Zone.isoFreeChunkFromZone_ok h
    exact (CacheKept.of_zones rfl).trans (.setZone_of (.markFreed _ _ _) fun hz => hz.freeChunk h)
  | newZone h => exact isoNewZone_cacheKept hA h
  | destroy h => exact isoAllocDestroyZoneUnlocked_cacheKept hA h
  | bigAlloc h =>
    exact .of_zones (by rw [isoBigAlloc_frame h])
  | bigFree h =>
    obtain ⟨x, len, he⟩ := isoFreeBigZone_frame h
    exact (CacheKept.madviseDontneed x len).trans (.of_zones (by rw [he]))
  | memset _ => exact .of_zones rfl

theorem createDefaultZones_cacheKept {env : InitEnv} {sizes : List Nat}
    (h : createDefaultZones C env sizes r = .ok r') : CacheKept C r r' := by
  induction sizes generalizing r with
  | nil => cases pure_eq_ok.1 h; exact .of_zones rfl
  | cons size sizes ih =>
    obtain ⟨⟨res, r1⟩, h1, h⟩ := bind_eq_ok.1 h
    cases res with
    | none => exact absurd h throw_ne_ok
    | some _ => exact (isoNewZone_cacheKept hA h1).trans (ih h)

theorem initializeGlobalRoot_liveCacheInv {env : InitEnv} {page : Nat} {heap : Heap}
    (h : initializeGlobalRoot C env page heap = .ok r) : LiveCacheInv C r := by
  obtain ⟨r1, h1, h⟩ := bind_eq_ok.1 h
  cases pure_eq_ok.1 h
  exact (createDefaultZones_cacheKept hA h1).liveCacheInv (liveCacheInv_empty _ _)

end Alignment

end Root

namespace Sys

variable {C : Config} (hA : ∀ n, C.alignSzDown n ≤ n)
include hA

theorem Micro.cacheKept {E : Nat → NewZoneEnv} {th : Nat} {s s' : Sys} (hm : Micro C E th s s') :
    Root.CacheKept C s.root s'.root := by
  cases hm with
  | event he => exact Root.event_cacheKept hA he.event
  | free h => exact Root.event_cacheKept hA (.freeChunk h)
  | clearZoneCache => exact .of_zones rfl
  | quarantine => exact .of_zones rfl

/-- Every zone in use of every reachable root keeps the free-slot cache
invariant. -/
theorem Reachable.liveCacheInv {s : Sys} (hs : Reachable C s) : Root.LiveCacheInv C s.root := by
  induction hs with
  | init env page heap r h => exact Root.initializeGlobalRoot_liveCacheInv hA h
  | step s s' env th op ret _ hstep ih =>
    rcases step_micro hstep with hm | ⟨⟨_, _, hb⟩, -⟩
    · clear hstep
      induction hm with
      | refl => exact ih
      | tail _ hm ih' => exact (hm.cacheKept hA).liveCacheInv ih'
    · exact (Root.event_cacheKept hA (.bigAlloc hb)).liveCacheInv ih

end Sys

namespace Root

variable {C : Config} {r r' : Root}

theorem events_liveCacheInv {E : Nat → NewZoneEnv} (hA : ∀ n, C.alignSzDown n ≤ n)
    (h : ReflTransGen (EventOf C E) r r') (hinv : LiveCacheInv C r) : LiveCacheInv C r' := by
  induction h with
  | refl => exact hinv
  | tail _ he ih => exact (event_cacheKept hA he.event).liveCacheInv ih

theorem LiveCacheInv.freeSlot (hinv : LiveCacheInv C r) {i : Nat} (hl : (r.zones i).live = true)
    (hn : (r.zones i).nextFreeBitSlot ≠ badBitSlot) : (r.zones i).FreeSlot (r.zones i).nextFreeBitSlot :=
  ((hinv i hl).next hn).1

theorem isoNewZone_next_ne_bad {env : NewZoneEnv} {size : Nat} {internal : Bool} {i : Nat}
    (h : r.isoNewZone C env size internal = .ok (some i, r')) :
    (r'.zones i).live = true ∧ (r'.zones i).nextFreeBitSlot ≠ badBitSlot := by
  obtain ⟨-, ⟨-, hres, -⟩ | ⟨m, z, h1, r2, -, hb, -, hres, rfl⟩⟩ := isoNewZone_ok h
  · exact Option.noConfusion hres
  obtain rfl := Option.some.inj hres
  have hm := (buildZone_fields hb).2.2.2.2.2.2.2.2.2
  show ((r2.setZone z.index z.maskZonePtrs).zones z.index).live = true ∧
    ((r2.setZone z.index z.maskZonePtrs).zones z.index).nextFreeBitSlot ≠ badBitSlot
  rw [setZone_zones_same]
  exact ⟨by simp [Zone.live, hm], (buildZone_next_ne_bad hb : z.nextFreeBitSlot ≠ badBitSlot)⟩

/-- `_iso_alloc` without a zone: the check for a new zone without a free bit
slot never fires, so the call gives `_iso_new_zone`'s zone and its slot. -/
theorem chooseSlot_none (env : OpEnv) (size : Nat) (r : Root) :
    chooseSlot C env none size r =
      (do
        let (made, r) ← r.isoNewZone C (env.zoneEnv r.zonesUsed) size true
        match made with
        | none => throw (.abort "Failed to create a zone for allocation of %zu bytes")
        | some i => pure (some (i, (r.zones i).nextFreeBitSlot), r) : Except Stop _) := by
  unfold chooseSlot
  cases h : r.isoNewZone C (env.zoneEnv r.zonesUsed) size true with
  | error e => rfl
  | ok v =>
    obtain ⟨made, r'⟩ := v
    cases made with
    | none => rfl
    | some i =>
      show (if (r'.zones i).nextFreeBitSlot = badBitSlot then _ else _) = _
      rw [if_neg (isoNewZone_next_ne_bad h).2]
      rfl

/-- What the free-slot cache guarantees in a root: the invariant of every zone
in use; `is_zone_usable` returning a zone in use, `_iso_new_zone`, and the
re-seeding of a destroyed private zone in a build that reuses zones, each
leaving a free slot pre-dequeued; and neither check of `_iso_alloc` on the
slot it takes firing. -/
structure SlotCacheSound (C : Config) (r : Root) : Prop where
  inv : LiveCacheInv C r
  usable : ∀ i rand size z', (r.zones i).live = true →
    (r.zones i).isZoneUsable C rand size = .ok (true, z') → z'.FreeSlot z'.nextFreeBitSlot
  newZone : ∀ env size internal i r', r.isoNewZone C env size internal = .ok (some i, r') →
    (r'.zones i).FreeSlot (r'.zones i).nextFreeBitSlot
  reseed : ∀ env i replace r', C.neverReuseZones = false → (r.zones i).internal = false →
    r.isoAllocDestroyZoneUnlocked C env i replace = .ok r' → (r'.zones i).FreeSlot (r'.zones i).nextFreeBitSlot
  allocSlot : ∀ env t zone size zone' r1 i slot r2, chooseZone C env t zone size r = .ok (zone', r1) →
    chooseSlot C env zone' size r1 = .ok (some (i, slot), r2) →
    { (r2.zones i).maskZonePtrs with nextFreeBitSlot := badBitSlot }.isoAllocBitslotFromZone C r2.heap
      slot.toNat ≠ .error Zone.cannotReturnAbort
  newZoneSlot : ∀ env size, chooseSlot C env none size r =
    (do
      let (made, r) ← r.isoNewZone C (env.zoneEnv r.zonesUsed) size true
      match made with
      | none => throw (.abort "Failed to create a zone for allocation of %zu bytes")
      | some i => pure (some (i, (r.zones i).nextFreeBitSlot), r) : Except Stop _)

theorem destroy_private_next_ne_bad {env : NewZoneEnv} {i : Nat} {replace : Bool}
    (hC : C.neverReuseZones = false) (hpriv : (r.zones i).internal = false) (hinv : LiveCacheInv C r)
    (h : r.isoAllocDestroyZoneUnlocked C env i replace = .ok r') :
    (r'.zones i).live = true ∧ (r'.zones i).nextFreeBitSlot ≠ badBitSlot := by
  obtain ⟨_, z1, h1, z2, -, hcan, hfill, rfl⟩ := isoAllocDestroyZoneUnlocked_private_ok hC hpriv h
  have hm : (r.zones i).mapped = true := by
    rcases isoAllocDestroyZoneUnlocked_ok h with ⟨-, hm, -⟩ | ⟨hi, -⟩ | ⟨hi, -⟩
    · exact hm
    all_goals exact absurd (hpriv ▸ hi) Bool.noConfusion
  have hz := hinv i (by simp [Zone.live, hm])
  have hf := (Zone.ChainFields.createCanaryChunks hcan).trans
    ((Zone.ChainFields.of_slotBookkeeping (.fill hfill)).trans (.of_slotBookkeeping (.getNextFreeBitSlot z2)))
  simp only [madviseDontneed_zones, setZone_zones_same]
  refine ⟨hf.live, Zone.reseed_next_ne_bad ?_ (fun w hw => .inl (if_pos hw)) hcan hfill⟩
  exact hz.geometry

section Alignment

variable (hA : ∀ n, C.alignSzDown n ≤ n)
include hA

theorem liveCacheInv_slotCacheSound (hinv : LiveCacheInv C r) : SlotCacheSound C r where
  inv := hinv
  usable _ _ _ _ hl h := ((hinv _ hl).isZoneUsable h).next (Zone.isZoneUsable_true_next h) |>.1
  newZone _ _ _ _ _ h :=
    let hn := isoNewZone_next_ne_bad h
    ((event_cacheKept hA (.newZone h)).liveCacheInv hinv).freeSlot hn.1 hn.2
  reseed _ _ _ _ hC hpriv h :=
    let hn := destroy_private_next_ne_bad hC hpriv hinv h
    ((event_cacheKept hA (.destroy h)).liveCacheInv hinv).freeSlot hn.1 hn.2
  allocSlot _ _ _ _ _ _ i _ _ h1 h2 := by
    have hinv2 := events_liveCacheInv hA ((chooseZone_events h1).trans (chooseSlot_events h2)) hinv
    obtain ⟨rfl, hbad⟩ := chooseSlot_some h2
    refine Zone.isoAllocBitslotFromZone_ne_cannotReturn fun hm => ?_
    obtain ⟨n, hn, -, -, hl⟩ := hinv2.freeSlot (by simp only [Zone.live, Bool.or_eq_true]; exact .inr hm) hbad
    rw [hn, Int.toNat_ofNat]
    exact hl
  newZoneSlot env size := chooseSlot_none env size r

end Alignment

end Root

/-- In a build whose `ALIGN_SZ_DOWN` never rounds up, every reachable root
keeps the free-slot cache sound: every zone in use keeps its queue of
distinct free even slots below `64 * (bitmap_size / 8)`, and a slot that
`_iso_alloc` takes is never already allocated. -/
theorem reachable_slot_cache_sound {C : Config} (hA : ∀ n, C.alignSzDown n ≤ n) {s : Sys}
    (hs : Sys.Reachable C s) : Root.SlotCacheSound C s.root :=
  Root.liveCacheInv_slotCacheSound hA (hs.liveCacheInv hA)

theorem smallZoneConfig_alignSzDown_le (n : Nat) : smallZoneConfig.alignSzDown n ≤ n := by
  show ((n + 7) / 8 * 8 : Int) - 8 ≤ n
  omega

theorem small_root_slot_cache_sound : ∃ s, smallRun = .ok s ∧ Sys.Reachable smallZoneConfig s ∧
    Root.SlotCacheSound smallZoneConfig s.root := by
  obtain ⟨s, hs, hr⟩ := smallRun_reachable
  exact ⟨s, hs, hr, reachable_slot_cache_sound smallZoneConfig_alignSzDown_le hr⟩

/-- Right after initialisation, zone 0 of 16-byte chunks in a 4 KiB zone has
an 8-word bitmap and queues the bit slot 256, which is not below
`32 * (bitmap_size / 8)`: the queue's slots run up to `64 * (bitmap_size / 8)`. -/
theorem initial_zone_queues_slot_past_chunk_count :
    ∃ s : Sys, Sys.Reachable smallZoneConfig s ∧
      (s.root.zones 0).freeBitSlotCacheUsable ≤ 127 ∧ 127 < (s.root.zones 0).freeBitSlotCacheIndex ∧
      (s.root.zones 0).freeBitSlotCache 127 = 32 * ((s.root.zones 0).bitmapSize / 8) := by
  obtain ⟨r, hr⟩ := exists_eq_ok_of_isOk (by decide :
    (Root.initializeGlobalRoot smallZoneConfig smallInitEnv 4096 unmappedHeap).isOk = true)
  refine ⟨⟨r, fun _ => .empty⟩, .init _ _ _ _ hr, ?_⟩
  have hv : ((Root.initializeGlobalRoot smallZoneConfig smallInitEnv 4096 unmappedHeap).map fun r : Root =>
      ((r.zones 0).freeBitSlotCacheUsable, (r.zones 0).freeBitSlotCacheIndex,
        (r.zones 0).freeBitSlotCache 127, (r.zones 0).bitmapSize)).toOption = some (1, 255, 256, 64) := by
    decide
  rw [hr] at hv
  simp only [Except.map, Except.toOption, Option.some.injEq, Prod.mk.injEq] at hv
  obtain ⟨h1, h2, h3, h4⟩ := hv
  dsimp only
  refine ⟨by omega, by omega, ?_⟩
  rw [h3, h4]
  rfl

end IsoAlloc
