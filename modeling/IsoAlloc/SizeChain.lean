import IsoAlloc.Events
import IsoAlloc.ZoneSize

/-!
The size chains. `zone_lookup_table[s]` names the first internal zone of
chunk size `s`, 0 standing for none, and each zone's `next_sz_index` names
the next one, 0 ending the chain. `SizeChainsAt C r n` says that within the
first `n` zones every table entry and every link goes up to an internal zone
of the right size, that every live zone sits at its own index with a size
`_iso_new_zone` keeps, and that no zone from `n` on is live. It holds of every
reachable root with `n = zones_used`; the bound is a parameter because a
retirement lowers `zones_used` to the retired index while it re-creates the
zone there, with links above it left in place.
-/

namespace IsoAlloc

namespace Zone

/-- A zone in use: internal, or still mapped. -/
def live (z : Zone) : Bool := z.internal || z.mapped

/-- `z'` keeps what the size chains read of `z`: its index, size, link and
liveness; an internal zone stays internal. -/
structure ChainFields (z z' : Zone) : Prop where
  index : z'.index = z.index
  chunkSize : z'.chunkSize = z.chunkSize
  nextSzIndex : z'.nextSzIndex = z.nextSzIndex
  internal : z.internal = true → z'.internal = true
  live : z'.live = z.live

namespace ChainFields

variable {z z' z'' : Zone}

theorem refl (z : Zone) : ChainFields z z := ⟨rfl, rfl, rfl, id, rfl⟩

theorem trans (h1 : ChainFields z z') (h2 : ChainFields z' z'') : ChainFields z z'' :=
  ⟨h2.index.trans h1.index, h2.chunkSize.trans h1.chunkSize, h2.nextSzIndex.trans h1.nextSzIndex,
    fun h => h2.internal (h1.internal h), h2.live.trans h1.live⟩

theorem of_slotBookkeeping (h : SlotBookkeeping z z') : ChainFields z z' := by
  rw [h]; exact ⟨rfl, rfl, rfl, id, rfl⟩

theorem maskZonePtrs (z : Zone) : ChainFields z z.maskZonePtrs := ⟨rfl, rfl, rfl, id, rfl⟩

theorem markAllocated (z : Zone) (s : Nat) : ChainFields z (z.markAllocated s) :=
  ⟨rfl, rfl, rfl, id, rfl⟩

theorem insertFreeBitSlot (z : Zone) (b : Int) : ChainFields z (z.insertFreeBitSlot b) := by
  unfold Zone.insertFreeBitSlot; split <;> exact ⟨rfl, rfl, rfl, id, rfl⟩

theorem markFreed (z : Zone) (s : Nat) (perm : Bool) : ChainFields z (z.markFreed s perm) := by
  dsimp only [Zone.markFreed]
  split
  · exact ⟨rfl, rfl, rfl, id, rfl⟩
  · exact (insertFreeBitSlot z _).trans ⟨rfl, rfl, rfl, id, rfl⟩

theorem createCanaryChunks {C : Config} {rand : Nat → Word} {h h' : Heap}
    (hok : z.createCanaryChunks C rand h = .ok (z', h')) : ChainFields z z' := by
  rw [createCanaryChunks_ok hok]; exact ⟨rfl, rfl, rfl, id, rfl⟩

end ChainFields

end Zone

namespace Root

variable {C : Config} {r r' r'' : Root} {n n' : Nat}

/-- `r'` keeps the zone lookup table and what the chains read of every zone. -/
structure ChainFrame (r r' : Root) : Prop where
  table : r'.zoneLookupTable = r.zoneLookupTable
  zone : ∀ i, Zone.ChainFields (r.zones i) (r'.zones i)

namespace ChainFrame

theorem refl (r : Root) : ChainFrame r r := ⟨rfl, fun _ => .refl _⟩

theorem of_eq (hz : r'.zones = r.zones) (ht : r'.zoneLookupTable = r.zoneLookupTable) :
    ChainFrame r r' :=
  ⟨ht, fun _ => hz ▸ .refl _⟩

theorem trans (h1 : ChainFrame r r') (h2 : ChainFrame r' r'') : ChainFrame r r'' :=
  ⟨h2.table.trans h1.table, fun i => (h1.zone i).trans (h2.zone i)⟩

theorem setZone {i : Nat} {z : Zone} (h : Zone.ChainFields (r.zones i) z) :
    ChainFrame r (r.setZone i z) := by
  refine ⟨rfl, fun j => ?_⟩
  by_cases hj : j = i
  · subst hj; rw [setZone_zones_same]; exact h
  · rw [setZone_zones_ne _ _ _ _ hj]; exact .refl _

theorem setZone_of {r0 : Root} {i : Nat} {z : Zone} (hz : r0.zones = r.zones)
    (ht : r0.zoneLookupTable = r.zoneLookupTable) (h : Zone.ChainFields (r.zones i) z) :
    ChainFrame r (r0.setZone i z) :=
  (of_eq hz ht).trans (setZone (hz ▸ h))

theorem madviseDontneed (a : Word) (len : Nat) : ChainFrame r (r.madviseDontneed a len) :=
  ⟨rfl, fun _ => ⟨rfl, rfl, rfl, id, rfl⟩⟩

theorem unmapZone {i : Nat} (h : (r.zones i).internal = true) : ChainFrame r (r.unmapZone C i) := by
  refine ⟨rfl, fun j => ?_⟩
  by_cases hj : j = i
  · subst hj
    dsimp only [Root.unmapZone]
    rw [Function.update_same]
    exact ⟨rfl, rfl, rfl, id, by simp [Zone.live, h]⟩
  · dsimp only [Root.unmapZone]
    rw [Function.update_noteq hj]; exact .refl _

end ChainFrame

theorem setZone_comm {i j : Nat} (z z' : Zone) (h : i ≠ j) :
    (r.setZone i z).setZone j z' = (r.setZone j z').setZone i z := by
  simp only [setZone, Function.update_comm h]

/-- The size chains within the first `n` zones are well linked. -/
structure SizeChainsAt (C : Config) (r : Root) (n : Nat) : Prop where
  /-- A table entry names an internal zone below `n` of its size. -/
  table : ∀ s, r.zoneLookupTable s ≠ 0 →
    r.zoneLookupTable s < n ∧ (r.zones (r.zoneLookupTable s)).internal = true ∧
      (r.zones (r.zoneLookupTable s)).chunkSize = s
  /-- A link goes up to an internal zone below `n` of the same size. -/
  link : ∀ i < n, (r.zones i).nextSzIndex ≠ 0 →
    i < (r.zones i).nextSzIndex ∧ (r.zones i).nextSzIndex < n ∧
      (r.zones (r.zones i).nextSzIndex).internal = true ∧
      (r.zones (r.zones i).nextSzIndex).chunkSize = (r.zones i).chunkSize
  /-- A live zone sits at its own index, with a size `_iso_new_zone` keeps. -/
  live : ∀ i < n, (r.zones i).live = true →
    (r.zones i).index = i ∧ newZoneSize C (r.zones i).chunkSize = some (r.zones i).chunkSize
  /-- No zone from `n` on is live. -/
  dead : ∀ i, n ≤ i → (r.zones i).live = false

/-- The size chains of the zones in use. -/
def SizeChains (C : Config) (r : Root) : Prop := SizeChainsAt C r r.zonesUsed

namespace SizeChainsAt

theorem of_frame (hinv : SizeChainsAt C r n) (hf : ChainFrame r r') : SizeChainsAt C r' n where
  table s hs := by
    rw [hf.table] at hs ⊢
    obtain ⟨h1, h2, h3⟩ := hinv.table s hs
    exact ⟨h1, (hf.zone _).internal h2, (hf.zone _).chunkSize.trans h3⟩
  link i hi hn := by
    rw [(hf.zone i).nextSzIndex] at hn ⊢
    obtain ⟨h1, h2, h3, h4⟩ := hinv.link i hi hn
    exact ⟨h1, h2, (hf.zone _).internal h3, by rw [(hf.zone _).chunkSize, (hf.zone i).chunkSize, h4]⟩
  live i hi hl := by
    rw [(hf.zone i).live] at hl
    rw [(hf.zone i).index, (hf.zone i).chunkSize]
    exact hinv.live i hi hl
  dead i hi := by rw [(hf.zone i).live]; exact hinv.dead i hi

theorem congr {q : Root} (hinv : SizeChainsAt C r n) (hz : q.zones = r.zones)
    (ht : q.zoneLookupTable = r.zoneLookupTable) : SizeChainsAt C q n :=
  hinv.of_frame (.of_eq hz ht)

theorem setZone_new {k : Nat} {z : Zone} (hinv : SizeChainsAt C r n) (hn : n ≤ n')
    (hk : k < n') (hgap : ∀ i, n ≤ i → i < n' → i = k) (hidx : z.index = k)
    (hnext : z.nextSzIndex = 0) (hsize : newZoneSize C z.chunkSize = some z.chunkSize)
    (hold : k < n → z.internal = true ∧ z.chunkSize = (r.zones k).chunkSize) :
    SizeChainsAt C (r.setZone k z) n' where
  table s hs := by
    obtain ⟨h1, h2, h3⟩ := hinv.table s hs
    rw [setZone_zoneLookupTable]
    by_cases he : r.zoneLookupTable s = k
    · rw [he] at h1 h3 ⊢
      rw [setZone_zones_same]
      exact ⟨hk, (hold h1).1, (hold h1).2.trans h3⟩
    · rw [setZone_zones_ne _ _ _ _ he]; exact ⟨by omega, h2, h3⟩
  link i hi hnz := by
    by_cases hik : i = k
    · subst hik; simp [hnext] at hnz
    rw [setZone_zones_ne _ _ _ _ hik] at hnz ⊢
    obtain ⟨h1, h2, h3, h4⟩ := hinv.link i (Nat.lt_of_not_le fun h => hik (hgap i h hi)) hnz
    by_cases hj : (r.zones i).nextSzIndex = k
    · rw [hj] at h1 h2 h4 ⊢
      rw [setZone_zones_same]
      exact ⟨h1, hk, (hold h2).1, (hold h2).2.trans h4⟩
    · rw [setZone_zones_ne _ _ _ _ hj]; exact ⟨h1, by omega, h3, h4⟩
  live i hi hl := by
    by_cases hik : i = k
    · subst hik; rw [setZone_zones_same] at hl ⊢; exact ⟨hidx, hsize⟩
    rw [setZone_zones_ne _ _ _ _ hik] at hl ⊢
    exact hinv.live i (Nat.lt_of_not_le fun h => hik (hgap i h hi)) hl
  dead i hi := by
    rw [setZone_zones_ne _ _ _ _ (by omega)]
    exact hinv.dead i (by omega)

theorem setTable {k s : Nat} (hinv : SizeChainsAt C r n) (hk : k < n)
    (hint : (r.zones k).internal = true) (hsz : (r.zones k).chunkSize = s) :
    SizeChainsAt C { r with zoneLookupTable := Function.update r.zoneLookupTable s k } n where
  table s' hs := by
    by_cases h : s' = s
    · subst h; simp only [Function.update_same] at hs ⊢; exact ⟨hk, hint, hsz⟩
    · simp only [Function.update_noteq h] at hs ⊢; exact hinv.table s' hs
  link := hinv.link
  live := hinv.live
  dead := hinv.dead

theorem setLink {j k : Nat} (hinv : SizeChainsAt C r n) (hjk : j < k) (hk : k < n)
    (hint : (r.zones k).internal = true) (hsz : (r.zones k).chunkSize = (r.zones j).chunkSize) :
    SizeChainsAt C (r.setZone j { r.zones j with nextSzIndex := k }) n := by
  have hf : ∀ x, ((r.setZone j { r.zones j with nextSzIndex := k }).zones x).internal =
      (r.zones x).internal ∧
      ((r.setZone j { r.zones j with nextSzIndex := k }).zones x).chunkSize = (r.zones x).chunkSize := by
    intro x
    by_cases hx : x = j
    · subst hx; simp
    · simp [setZone_zones_ne _ _ _ _ hx]
  refine ⟨fun s hs => ?_, fun i hi hnz => ?_, fun i hi hl => ?_, fun i hi => ?_⟩
  · rw [(hf _).1, (hf _).2]; exact hinv.table s hs
  · by_cases hij : i = j
    · subst hij
      simp only [setZone_zones_same, setZone_zones_ne _ _ _ _ (Nat.ne_of_gt hjk)]
      exact ⟨hjk, hk, hint, hsz⟩
    · rw [setZone_zones_ne _ _ _ _ hij] at hnz ⊢
      rw [(hf _).1, (hf _).2]
      exact hinv.link i hi hnz
  · by_cases hij : i = j
    · subst hij; simp only [setZone_zones_same] at hl ⊢; exact hinv.live i hi hl
    · rw [setZone_zones_ne _ _ _ _ hij] at hl ⊢; exact hinv.live i hi hl
  · by_cases hij : i = j
    · subst hij; simp only [setZone_zones_same]; exact hinv.dead i hi
    · rw [setZone_zones_ne _ _ _ _ hij]; exact hinv.dead i hi

theorem setZone_dead {i : Nat} {z : Zone} (hinv : SizeChainsAt C r n)
    (hi : (r.zones i).internal = false) (hlive : z.live = false) (hnext : z.nextSzIndex = 0) :
    SizeChainsAt C (r.setZone i z) n := by
  have hne : ∀ x, (r.zones x).internal = true → x ≠ i := by
    rintro x hx rfl; rw [hi] at hx; exact absurd hx (by decide)
  refine ⟨fun s hs => ?_, fun x hx hnz => ?_, fun x hx hl => ?_, fun x hx => ?_⟩
  · obtain ⟨h1, h2, h3⟩ := hinv.table s hs
    rw [setZone_zoneLookupTable, setZone_zones_ne _ _ _ _ (hne _ h2)]
    exact ⟨h1, h2, h3⟩
  · by_cases hxi : x = i
    · subst hxi; simp [hnext] at hnz
    rw [setZone_zones_ne _ _ _ _ hxi] at hnz ⊢
    obtain ⟨h1, h2, h3, h4⟩ := hinv.link x hx hnz
    rw [setZone_zones_ne _ _ _ _ (hne _ h3)]
    exact ⟨h1, h2, h3, h4⟩
  · by_cases hxi : x = i
    · subst hxi; rw [setZone_zones_same, hlive] at hl; exact absurd hl (by decide)
    · rw [setZone_zones_ne _ _ _ _ hxi] at hl ⊢; exact hinv.live x hx hl
  · by_cases hxi : x = i
    · subst hxi; rw [setZone_zones_same]; exact hlive
    · rw [setZone_zones_ne _ _ _ _ hxi]; exact hinv.dead x hx

end SizeChainsAt

theorem sizeChains_empty (page : Nat) (heap : Heap) : SizeChains C (Root.empty page heap) :=
  ⟨fun _ hs => absurd rfl hs, fun _ hi => absurd hi (Nat.not_lt_zero _),
    fun _ hi => absurd hi (Nat.not_lt_zero _), fun _ _ => rfl⟩

section NewZone

variable (hC : smallestChunkSz ≤ C.smallSzMax)
include hC

/-- `_iso_new_zone` keeps the chains, at a `zones_used` of `n` (the bound
then counts the new zone) or, as in a retirement, below `n` when the zone it
makes is internal and of the size of the record it replaces. -/
theorem isoNewZone_sizeChainsAt {env : NewZoneEnv} {size : Nat} {internal : Bool}
    {res : Option Nat} (hinv : SizeChainsAt C r n) (hk : r.zonesUsed ≤ n)
    (hret : r.zonesUsed < n →
      internal = true ∧ newZoneSize C size = some (r.zones r.zonesUsed).chunkSize)
    (h : r.isoNewZone C env size internal = .ok (res, r')) :
    SizeChainsAt C r' (if r.zonesUsed < n then n else r'.zonesUsed) := by
  obtain ⟨-, ⟨-, -, hr⟩ | ⟨m, z, h1, r2, hm, hb, hs, -, rfl⟩⟩ := isoNewZone_ok h
  · rw [hr]
    split
    · exact hinv
    · rwa [show r.zonesUsed = n by omega]
  obtain ⟨hidx, hint, hsz, hnext, -, -, -, -, -, -⟩ := buildZone_fields hb
  have hused : r2.zonesUsed = z.index := (spliceNewZone_zonesUsed hs).trans hidx.symm
  show SizeChainsAt C _ (if r.zonesUsed < n then n else r2.zonesUsed + 1)
  rw [hused, ← hidx]
  generalize hn' : (if z.index < n then n else z.index + 1) = n'
  have hbound : n ≤ n' ∧ z.index < n' ∧ ∀ i, n ≤ i → i < n' → i = z.index := by
    subst hn'; split <;> refine ⟨by omega, by omega, fun i _ _ => by omega⟩
  have hnew : ∀ r1 : Root, r1.zones = r.zones → r1.zoneLookupTable = r.zoneLookupTable →
      SizeChainsAt C (r1.setZone z.index z.maskZonePtrs) n' := fun r1 hz ht =>
    (hinv.congr hz ht).setZone_new hbound.1 hbound.2.1 hbound.2.2 rfl hnext
      (by rw [Zone.maskZonePtrs_chunkSize, hsz]; exact newZoneSize_idem hC hm)
      fun hlt => by
        obtain ⟨rfl, hs'⟩ := hret (by omega)
        rw [hm, Option.some.injEq] at hs'
        exact ⟨hint, by rw [Zone.maskZonePtrs_chunkSize, hsz, hs', hz, hidx]⟩
  refine SizeChainsAt.congr (r := r2.setZone z.index z.maskZonePtrs) ?_ rfl rfl
  rcases spliceNewZone_ok hs with ⟨-, rfl⟩ | ⟨hi, ⟨-, rfl⟩ | ⟨-, hw⟩⟩
  · exact hnew _ rfl rfl
  · exact ((hnew r rfl rfl).setTable hbound.2.1 (by simp [hi]) (by rw [setZone_zones_same]; rfl)).congr
      rfl rfl
  rcases spliceWalk_ok hw with rfl | ⟨j, hj, hjs, hjn, rfl⟩
  · exact hnew _ rfl rfl
  have hjk : j ≠ z.index := by simp only at hj; omega
  rw [setZone_comm _ _ hjk, ← setZone_zones_ne _ z.index j z.maskZonePtrs hjk]
  exact ((hnew r rfl rfl).setLink (by simp only at hj; omega) hbound.2.1 (by simp [hi])
    (by rw [setZone_zones_same, setZone_zones_ne _ _ _ _ hjk]; exact hjs.symm)).congr rfl rfl

theorem isoNewZone_sizeChains {env : NewZoneEnv} {size : Nat} {internal : Bool}
    {res : Option Nat} (hinv : SizeChains C r) (h : r.isoNewZone C env size internal = .ok (res, r')) :
    SizeChains C r' := by
  simpa [SizeChains] using isoNewZone_sizeChainsAt hC hinv (Nat.le_refl _) (fun h => absurd h (Nat.lt_irrefl _)) h

/-- Destruction keeps the chains: a private zone is sealed or made internal
in place, nothing linking to it; an internal zone is unmapped, or retired and
re-created at its own index with its own size. -/
theorem isoAllocDestroyZoneUnlocked_sizeChains {env : NewZoneEnv} {i : Nat} {replace : Bool}
    (hinv : SizeChains C r) (h : r.isoAllocDestroyZoneUnlocked C env i replace = .ok r') :
    SizeChains C r' := by
  rcases isoAllocDestroyZoneUnlocked_ok h with ⟨hpriv, hm, -, hp, -, hd⟩ | ⟨hint, -, res, r1, h1, rfl⟩ |
    ⟨hint, -, rfl⟩
  · rcases destroyPrivate_ok hd with ⟨-, calls, rfl⟩ | ⟨-, z1, h1, z2, zr, hcan, hfill, rfl, rfl⟩
    · exact (((hinv.congr (q := { r with heap := _, osCalls := calls }) rfl rfl).setZone_dead
        (z := { Zone.zeroed with isFull := true }) hpriv rfl rfl).of_frame (.madviseDontneed _ _)).of_frame
        (.madviseDontneed _ _)
    · have hf : Zone.ChainFields (r.zones i) z2.getNextFreeBitSlot.2.maskZonePtrs := by
        refine ((Zone.ChainFields.trans ?_ (.createCanaryChunks hcan)).trans
          (.of_slotBookkeeping (.fill hfill))).trans
          ((Zone.ChainFields.of_slotBookkeeping (.getNextFreeBitSlot z2)).trans (.maskZonePtrs _))
        exact ⟨rfl, rfl, rfl, fun _ => rfl,
          show (true || (r.zones i).mapped) = ((r.zones i).internal || (r.zones i).mapped) by simp [hm]⟩
      apply SizeChainsAt.of_frame _ (.madviseDontneed _ _)
      apply SizeChainsAt.of_frame _ (.madviseDontneed _ _)
      exact hinv.of_frame (.setZone_of rfl rfl hf)
  · have hi : i < r.zonesUsed := Nat.lt_of_not_le fun h => by
      have := hinv.dead i h; simp [Zone.live, hint] at this
    obtain ⟨hidx, hsize⟩ := hinv.live i hi (by simp [Zone.live, hint])
    have h0 := ((hinv.of_frame (.setZone (.maskZonePtrs (r.zones i)))).congr
      (q := { r.setZone i (r.zones i).maskZonePtrs with zonesUsed := (r.zones i).index }) rfl rfl).of_frame
      (.unmapZone (C := C) (i := i) (by simp [hint]))
    have h2 := isoNewZone_sizeChainsAt hC h0 (by simp [hidx]; omega)
      (fun _ => ⟨rfl, by simp [Root.unmapZone, hidx, hsize]⟩) h1
    rw [if_pos (by simpa [hidx] using hi)] at h2
    exact h2.congr rfl rfl
  · exact hinv.of_frame ((ChainFrame.setZone (.maskZonePtrs _)).trans (.unmapZone (by simp [hint])))

/-- Every event the entry points are made of keeps the chains. -/
theorem event_sizeChains (he : Event C r r') (hinv : SizeChains C r) : SizeChains C r' := by
  cases he with
  | usable h =>
    exact hinv.of_frame (.setZone (.of_slotBookkeeping (Zone.isZoneUsable_slotBookkeeping h)))
  | allocSlot _ h =>
    obtain ⟨-, -, -, -, -, rfl, -⟩ := Zone.isoAllocBitslotFromZone_ok h
    exact hinv.of_frame (.setZone_of rfl rfl ⟨rfl, rfl, rfl, id, rfl⟩)
  | freeChunk h =>
    obtain ⟨n, -, -, -, -, -, -, -, rfl, -⟩ := Zone.isoFreeChunkFromZone_ok h
    exact hinv.of_frame (.setZone_of rfl rfl (.markFreed _ _ _))
  | newZone h => exact isoNewZone_sizeChains hC hinv h
  | destroy h => exact isoAllocDestroyZoneUnlocked_sizeChains hC hinv h
  | bigAlloc h =>
    rw [isoBigAlloc_frame h]; exact hinv.congr rfl rfl
  | bigFree h =>
    obtain ⟨x, len, he⟩ := isoFreeBigZone_frame h
    rw [he]; exact (hinv.of_frame (.madviseDontneed x len)).congr rfl rfl
  | memset _ => exact hinv.congr rfl rfl

theorem createDefaultZones_sizeChains {env : InitEnv} {sizes : List Nat} (hinv : SizeChains C r)
    (h : createDefaultZones C env sizes r = .ok r') : SizeChains C r' := by
  induction sizes generalizing r with
  | nil => cases pure_eq_ok.1 h; exact hinv
  | cons size sizes ih =>
    obtain ⟨⟨res, r1⟩, h1, h⟩ := bind_eq_ok.1 h
    cases res with
    | none => exact absurd h throw_ne_ok
    | some _ => exact ih (isoNewZone_sizeChains hC hinv h1) h

theorem initializeGlobalRoot_sizeChains {env : InitEnv} {page : Nat} {heap : Heap}
    (h : initializeGlobalRoot C env page heap = .ok r) : SizeChains C r := by
  obtain ⟨r1, h1, h⟩ := bind_eq_ok.1 h
  cases pure_eq_ok.1 h
  exact (createDefaultZones_sizeChains hC (sizeChains_empty _ _) h1).congr rfl rfl

end NewZone

end Root

namespace Sys

open Relation

variable {C : Config} (hC : smallestChunkSz ≤ C.smallSzMax)
include hC

theorem Micro.sizeChains {E : Nat → NewZoneEnv} {th : Nat} {s s' : Sys} (hm : Micro C E th s s')
    (hinv : Root.SizeChains C s.root) : Root.SizeChains C s'.root := by
  cases hm with
  | event he => exact Root.event_sizeChains hC he.event hinv
  | free h => exact Root.event_sizeChains hC (.freeChunk h) hinv
  | clearZoneCache => exact hinv
  | quarantine => exact hinv

/-- Every reachable root has well-linked size chains. -/
theorem Reachable.sizeChains {s : Sys} (hs : Reachable C s) : Root.SizeChains C s.root := by
  induction hs with
  | init env page heap r h => exact Root.initializeGlobalRoot_sizeChains hC h
  | step s s' env th op ret _ hstep ih =>
    rcases step_micro hstep with hm | ⟨⟨_, _, hb⟩, -⟩
    · clear hstep
      induction hm with
      | refl => exact ih
      | tail _ hm ih' => exact hm.sizeChains hC ih'
    · exact Root.event_sizeChains hC (.bigAlloc hb) ih

end Sys

end IsoAlloc
