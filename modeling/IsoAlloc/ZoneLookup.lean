import IsoAlloc.ChainWalks

/-!
Owner lookups. `iso_find_zone_range` and `iso_find_zone_bitmap_range` probe
the chunk lookup table entry of the address, then the calling thread's zone
cache, then every zone in use. In every reachable state each table entry and
each cached zone is a zone in use, and the zones from `zones_used` on are not
live; where the zones in use have disjoint regions both probes therefore
answer as the linear scan does, and the lookup-table abort cannot happen.
-/

namespace IsoAlloc

namespace ThreadState

theorem mem_cachedZones_populateZoneCache (t : ThreadState) (i : Nat) (z : Zone) {j : Nat}
    (hj : j ∈ (t.populateZoneCache i z).cachedZones) : j ∈ t.cachedZones ∨ j = i := by
  unfold populateZoneCache at hj
  split at hj
  · exact .inl hj
  split at hj
  · exact .inl hj
  split at hj
  · simp only [cachedZones, List.mem_map, List.mem_range] at hj ⊢
    obtain ⟨k, hk, rfl⟩ := hj
    by_cases hkc : k = t.zoneCacheCount
    · subst hkc; exact .inr (by simp)
    · exact .inl ⟨k, by omega, by simp [Function.update_noteq hkc]⟩
  · simp [cachedZones] at hj

end ThreadState

namespace Root

variable {C : Config} {r r' : Root}

theorem update_eq_or (f : Nat → Nat) (b c v : Nat) :
    Function.update f c v b = f b ∨ Function.update f c v b = v := by
  by_cases hb : b = c
  · subst hb; simp
  · simp [Function.update_noteq hb]

theorem update_zero_lt {f : Nat → Nat} {n : Nat} (h0 : 0 < n) (hf : ∀ b, f b < n) (c b : Nat) :
    Function.update f c 0 b < n := by
  rcases update_eq_or f b c 0 with h | h <;> rw [h]
  · exact hf b
  · exact h0

theorem spliceNewZone_chunkLookupTable {z : Zone} (h : spliceNewZone C r z = .ok r') (b : Nat) :
    r'.chunkLookupTable b = r.chunkLookupTable b ∨ r'.chunkLookupTable b = z.index := by
  rcases spliceNewZone_ok h with ⟨-, rfl⟩ | ⟨-, ⟨-, rfl⟩ | ⟨-, hw⟩⟩
  · exact .inl rfl
  · exact update_eq_or _ _ _ _
  · rcases spliceWalk_ok hw with rfl | ⟨j, -, -, -, rfl⟩ <;> exact update_eq_or _ _ _ _

theorem isoNewZone_grows {env : NewZoneEnv} {size : Nat} {internal : Bool} {res : Option Nat}
    (h : r.isoNewZone C env size internal = .ok (res, r')) :
    (res = none ∧ r' = r) ∨ (res ≠ none ∧ r'.zonesUsed = r.zonesUsed + 1 ∧
      ∀ b, r'.chunkLookupTable b = r.chunkLookupTable b ∨ r'.chunkLookupTable b = r.zonesUsed) := by
  obtain ⟨-, ⟨-, hres, hr⟩ | ⟨m, z, h1, r2, -, hb, hs, hres, rfl⟩⟩ := isoNewZone_ok h
  · exact .inl ⟨hres, hr⟩
  obtain ⟨hidx, -⟩ := buildZone_fields hb
  refine .inr ⟨by simp [hres], by simp [spliceNewZone_zonesUsed hs], fun b => ?_⟩
  rw [← hidx]
  exact spliceNewZone_chunkLookupTable hs b

/-- Every event keeps the zones in use in use, and keeps every chunk lookup
entry below `zones_used`. -/
theorem event_lookupBounds (hsc : SizeChains C r) (h0 : 0 < r.zonesUsed)
    (ht : ∀ b, r.chunkLookupTable b < r.zonesUsed) (he : Event C r r') :
    r.zonesUsed ≤ r'.zonesUsed ∧ ∀ b, r'.chunkLookupTable b < r'.zonesUsed := by
  cases he with
  | usable => exact ⟨Nat.le_refl _, ht⟩
  | allocSlot => exact ⟨Nat.le_refl _, ht⟩
  | freeChunk => exact ⟨Nat.le_refl _, ht⟩
  | memset => exact ⟨Nat.le_refl _, ht⟩
  | newZone h =>
    rcases isoNewZone_grows h with ⟨-, rfl⟩ | ⟨-, hu, hb⟩
    · exact ⟨Nat.le_refl _, ht⟩
    · refine ⟨by omega, fun b => ?_⟩
      have := ht b
      rcases hb b with hb | hb <;> omega
  | @destroy _ _ i _ h =>
    rcases isoAllocDestroyZoneUnlocked_ok h with ⟨-, -, -, hp, -, hd⟩ | ⟨hint, -, res, r1, h1, rfl⟩ |
      ⟨-, -, rfl⟩
    · rcases destroyPrivate_ok hd with ⟨-, -, rfl⟩ | ⟨-, -, -, -, -, -, -, -, rfl⟩ <;>
        exact ⟨Nat.le_refl _, ht⟩
    · have hi : i < r.zonesUsed := Nat.lt_of_not_le fun h => by
        have := hsc.dead i h; simp [Zone.live, hint] at this
      obtain ⟨hidx, -⟩ := hsc.live i hi (by simp [Zone.live, hint])
      refine ⟨Nat.le_refl _, fun b => ?_⟩
      rcases isoNewZone_grows h1 with ⟨-, rfl⟩ | ⟨-, -, hb⟩
      · exact update_zero_lt h0 ht _ b
      · show r1.chunkLookupTable b < r.zonesUsed
        rcases hb b with hb | hb <;> rw [hb]
        · exact update_zero_lt h0 ht _ b
        · show (r.zones i).index < r.zonesUsed
          omega
    · exact ⟨Nat.le_refl _, update_zero_lt h0 ht _⟩
  | bigAlloc h =>
    rw [isoBigAlloc_frame h]; exact ⟨Nat.le_refl _, ht⟩
  | bigFree h =>
    obtain ⟨x, len, he⟩ := isoFreeBigZone_frame h
    rw [he]; exact ⟨Nat.le_refl _, ht⟩

theorem createDefaultZones_grows {env : InitEnv} {sizes : List Nat}
    (h : createDefaultZones C env sizes r = .ok r')
    (ht : ∀ b, r.chunkLookupTable b = 0 ∨ r.chunkLookupTable b < r.zonesUsed) :
    r'.zonesUsed = r.zonesUsed + sizes.length ∧
      ∀ b, r'.chunkLookupTable b = 0 ∨ r'.chunkLookupTable b < r'.zonesUsed := by
  induction sizes generalizing r with
  | nil => cases pure_eq_ok.1 h; exact ⟨rfl, ht⟩
  | cons size sizes ih =>
    obtain ⟨⟨res, r1⟩, h1, h⟩ := bind_eq_ok.1 h
    cases res with
    | none => exact absurd h throw_ne_ok
    | some _ =>
      rcases isoNewZone_grows h1 with ⟨h2, -⟩ | ⟨-, hu, hb⟩
      · cases h2
      obtain ⟨hu', ht'⟩ := ih h fun b => by have := ht b; rcases hb b with hb | hb <;> omega
      exact ⟨by simp only [hu', hu, List.length_cons]; omega, ht'⟩

/-- The plain linear scan over the zones in use for the region test `has`. -/
def zoneScan (r : Root) (has : Zone → Word → Bool) (p : Word) : Option Nat :=
  (List.range r.zonesUsed).find? fun i => has (r.zones i) p

/-- No address lies in the regions, by the test `has`, of two zones in use. -/
def RegionsDisjoint (r : Root) (has : Zone → Word → Bool) : Prop :=
  ∀ i j p, i < r.zonesUsed → j < r.zonesUsed → has (r.zones i) p = true → has (r.zones j) p = true →
    i = j

/-- A lookup answer `o` for `p` is the linear scan's: the zone in use whose
region holds `p`, and NULL exactly when no zone in use holds it. -/
def ScanAnswer (r : Root) (has : Zone → Word → Bool) (p : Word) (o : Option Nat) : Prop :=
  o = r.zoneScan has p ∧ (∀ i, o = some i → i < r.zonesUsed ∧ has (r.zones i) p = true) ∧
    (o = none ↔ ∀ j < r.zonesUsed, has (r.zones j) p = false)

theorem scanAnswer_zoneScan (has : Zone → Word → Bool) (p : Word) :
    r.ScanAnswer has p (r.zoneScan has p) := by
  refine ⟨rfl, fun i hi => ?_, ?_⟩
  · exact ⟨List.mem_range.1 (List.mem_of_find?_eq_some hi),
      List.find?_some (p := fun i => has (r.zones i) p) hi⟩
  · simp [zoneScan, List.find?_eq_none]

theorem zoneScan_of_unique {has : Zone → Word → Bool} {p : Word} {i : Nat} (hi : i < r.zonesUsed)
    (hp : has (r.zones i) p = true) (huniq : r.RegionsDisjoint has) : r.zoneScan has p = some i := by
  cases h : r.zoneScan has p with
  | none => exact absurd hp (List.find?_eq_none.1 h i (List.mem_range.2 hi))
  | some j =>
    have hj := List.mem_range.1 (List.mem_of_find?_eq_some h)
    rw [huniq j i p hj hi (List.find?_some (p := fun i => has (r.zones i) p) h) hp]

/-- With the table entry and the cached zones in use and disjoint regions,
the three probes answer as the linear scan does. -/
theorem findZoneBy_eq_zoneScan {has : Zone → Word → Bool} {cache : List Nat} {p : Word}
    (htab : r.chunkLookupTable (C.chunkTableBucket p) < r.zonesUsed)
    (hcache : ∀ i ∈ cache, i < r.zonesUsed) (huniq : r.RegionsDisjoint has) :
    r.findZoneBy C has cache p = .ok (r.zoneScan has p) := by
  unfold findZoneBy
  dsimp only
  rw [if_neg (by omega)]
  split
  next hp => rw [zoneScan_of_unique htab hp huniq]; rfl
  split
  next i hi =>
    rw [zoneScan_of_unique (hcache i (List.mem_of_find?_eq_some hi))
      (List.find?_some (p := fun i => has (r.zones i) p) hi) huniq]; rfl
  · rfl

end Root

namespace Sys

open Relation

variable {C : Config}

/-- What the owner lookups rely on: there are zones in use, and every chunk
lookup entry and every zone a thread caches is one of them. -/
structure LookupBounds (s : Sys) : Prop where
  used : 0 < s.root.zonesUsed
  table : ∀ b, s.root.chunkLookupTable b < s.root.zonesUsed
  cache : ∀ th, ∀ i ∈ (s.threads th).cachedZones, i < s.root.zonesUsed

theorem LookupBounds.event {s : Sys} {r : Root} (he : Event C s.root r) (hsc : Root.SizeChains C s.root)
    (hb : LookupBounds s) : LookupBounds { s with root := r } := by
  obtain ⟨hmono, ht⟩ := Root.event_lookupBounds hsc hb.used hb.table he
  exact ⟨Nat.lt_of_lt_of_le hb.used hmono, ht, fun th' i hi => Nat.lt_of_lt_of_le (hb.cache th' i hi) hmono⟩

theorem Micro.lookupBounds {E : Nat → NewZoneEnv} {th : Nat} {s s' : Sys} (hm : Micro C E th s s')
    (hsc : Root.SizeChains C s.root) (hb : LookupBounds s) : LookupBounds s' := by
  cases hm with
  | event he => exact hb.event he.event hsc
  | @free i _ _ z _ h =>
    have hi : i < s.root.zonesUsed := Nat.lt_of_not_le fun hle => by
      have := hsc.dead i hle
      obtain ⟨_, -, -, -, -, hmap, -⟩ := Zone.isoFreeChunkFromZone_ok h
      simp [Zone.live, hmap] at this
    refine ⟨hb.used, hb.table, fun th' j hj => ?_⟩
    by_cases hth : th' = th
    · subst hth
      simp only [put, Function.update_same] at hj
      rcases ThreadState.mem_cachedZones_populateZoneCache _ _ _ hj with hj | rfl
      · exact hb.cache _ _ hj
      · exact hi
    · simp only [put, Function.update_noteq hth] at hj
      exact hb.cache th' j hj
  | clearZoneCache =>
    refine ⟨hb.used, hb.table, fun th' j hj => ?_⟩
    by_cases hth : th' = th
    · subst hth; simp [put, ThreadState.clearZoneCache, ThreadState.cachedZones] at hj
    · simp only [put, Function.update_noteq hth] at hj; exact hb.cache th' j hj
  | quarantine =>
    refine ⟨hb.used, hb.table, fun th' j hj => ?_⟩
    by_cases hth : th' = th
    · subst hth; simp only [put, Function.update_same] at hj; exact hb.cache _ j hj
    · simp only [put, Function.update_noteq hth] at hj; exact hb.cache th' j hj

/-- Every reachable state meets the bounds the owner lookups rely on. -/
theorem Reachable.lookupBounds (hC : smallestChunkSz ≤ C.smallSzMax) {s : Sys}
    (hs : Reachable C s) : LookupBounds s := by
  suffices Root.SizeChains C s.root ∧ LookupBounds s from this.2
  induction hs with
  | init env page heap r h =>
    refine ⟨Root.initializeGlobalRoot_sizeChains hC h, ?_⟩
    obtain ⟨r1, h1, h⟩ := bind_eq_ok.1 h
    cases pure_eq_ok.1 h
    obtain ⟨hu, ht⟩ := Root.createDefaultZones_grows h1 fun _ => .inl rfl
    have h10 : r1.zonesUsed = 10 := by simpa [Root.empty, defaultZones] using hu
    refine ⟨by simp [h10], fun b => ?_, fun _ i hi => by simp [ThreadState.empty,
      ThreadState.cachedZones] at hi⟩
    rcases ht b with hb | hb
    · show r1.chunkLookupTable b < r1.zonesUsed
      omega
    · exact hb
  | step s s' env th op ret _ hstep ih =>
    rcases step_micro hstep with hm | ⟨⟨_, _, hb⟩, ht⟩
    · clear hstep
      induction hm with
      | refl => exact ih
      | tail _ hm ih' => exact ⟨hm.sizeChains hC ih'.1, hm.lookupBounds ih'.1 ih'.2⟩
    · have e : s' = { s with root := s'.root } := by cases s'; cases ht; rfl
      rw [e]
      exact ⟨Root.event_sizeChains hC (.bigAlloc hb) ih.1, ih.2.event (.bigAlloc hb) ih.1⟩

/-- Every chunk lookup entry names a zone in use; and where the zones in use
have disjoint user regions (bitmap regions), `iso_find_zone_range`
(`iso_find_zone_bitmap_range`) by any thread never aborts and answers as the
linear scan over the zones in use does. -/
def OwnerLookupsAgree (C : Config) (s : Sys) : Prop :=
  (∀ b, s.root.chunkLookupTable b < s.root.zonesUsed) ∧
  (∀ th p, s.root.RegionsDisjoint (Root.userRangeHas C) → ∃ o,
    s.root.isoFindZoneRange C (s.threads th).cachedZones p = .ok o ∧
      s.root.ScanAnswer (Root.userRangeHas C) p o) ∧
  (∀ th p, s.root.RegionsDisjoint Root.bitmapRangeHas → ∃ o,
    s.root.isoFindZoneBitmapRange C (s.threads th).cachedZones p = .ok o ∧
      s.root.ScanAnswer Root.bitmapRangeHas p o)

theorem ownerLookupsAgree_of_lookupBounds {s : Sys} (hb : LookupBounds s) : OwnerLookupsAgree C s :=
  ⟨hb.table, fun th _ hd => ⟨_, Root.findZoneBy_eq_zoneScan (hb.table _) (hb.cache th) hd,
    Root.scanAnswer_zoneScan _ _⟩, fun th _ hd => ⟨_,
    Root.findZoneBy_eq_zoneScan (hb.table _) (hb.cache th) hd, Root.scanAnswer_zoneScan _ _⟩⟩

/-- In every reachable state the owner lookups agree with the linear scan. -/
theorem reachable_owner_lookups_agree (hC : smallestChunkSz ≤ C.smallSzMax) {s : Sys}
    (hs : Reachable C s) : OwnerLookupsAgree C s :=
  ownerLookupsAgree_of_lookupBounds (hs.lookupBounds hC)

theorem small_root_owner_lookups_agree : ∃ s, smallRun = .ok s ∧ Reachable smallZoneConfig s ∧
    OwnerLookupsAgree smallZoneConfig s := by
  obtain ⟨s, hs, hr⟩ := smallRun_reachable
  exact ⟨s, hs, hr, reachable_owner_lookups_agree (by decide) hr⟩

end Sys

end IsoAlloc
