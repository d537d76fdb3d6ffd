import IsoAlloc.GuardPages

/-!
Zones and big records never meet. In every state reached with fresh mappings,
each mapped zone, with its two guard pages, is apart from every other mapped
zone and from every big record with its guard pages: a zone comes from a draw
apart from what is mapped, a big record from a user mapping apart from every
zone, and the allocator never moves a zone's user pages afterwards.

Chunks in use therefore never meet: two chunks whose bitmap slots are in use
in mapped zones are the same chunk or apart, and none meets a big record, so
the chunk a small allocation hands out overlaps nothing else in use.
-/

namespace IsoAlloc

open Relation

namespace Span

variable {a b c : Span}

theorem Apart.symm (h : a.Apart b) : b.Apart a := Or.symm h

theorem Apart.mono (h : a.Apart c) (hlo : a.lo ≤ b.lo) (hhi : b.hi ≤ a.hi) : b.Apart c := by
  unfold Apart at *; omega

end Span

/-- Mapped zones are pairwise apart, and apart from every big record. -/
structure Isolated (C : Config) (r : Root) : Prop where
  zones : ∀ j k, j ≠ k → (r.zones j).mapped = true → (r.zones k).mapped = true →
    (zoneSpan C r.systemPageSize (r.zones j)).Apart (zoneSpan C r.systemPageSize (r.zones k))
  big : ∀ j, (r.zones j).mapped = true → ∀ e ∈ r.bigZones,
    (zoneSpan C r.systemPageSize (r.zones j)).Apart (e.2.span r.systemPageSize)

namespace Root

variable {C : Config} {r r' r0 : Root} {E : Nat → NewZoneEnv}

namespace Within

theorem zoneSpan_of_draw (hw : Within C r0 E r) (hf : FreshZoneDraws C r0 E) {j : Nat} (hj : j < maxZones)
    (hu : (r.zones j).userBase = (E j).userMap + BitVec.ofNat 64 r.systemPageSize) :
    zoneSpan C r.systemPageSize (r.zones j) = (E j).span C r.systemPageSize := by
  have hfit := hf.draws.fits j hj
  rw [← hw.page] at hfit
  have hP := hw.layout.page.pos
  unfold zoneSpan NewZoneEnv.span
  rw [hu, toNat_add_ofNat (by omega)]
  congr 1 <;> omega

theorem isolated (hw : Within C r0 E r) (hf : FreshZoneDraws C r0 E) (hi : Isolated C r0) :
    Isolated C r where
  zones j k hjk hj hk := by
    rcases hw.zone k hk with ⟨hk0, huk⟩ | ⟨hkm, huk⟩
    · rcases hw.zone j hj with ⟨hj0, huj⟩ | ⟨hjm, huj⟩
      · unfold zoneSpan; rw [huj, huk, hw.page]; exact hi.zones j k hjk hj0 hk0
      · rw [hw.zoneSpan_of_draw hf hjm huj]; exact hw.apart_zone hf hjm hk (Ne.symm hjk)
    · rw [hw.zoneSpan_of_draw hf hkm huk]; exact (hw.apart_zone hf hkm hj hjk).symm
  big j hj e he := by
    rcases hw.zone j hj with ⟨hj0, huj⟩ | ⟨hjm, huj⟩
    · obtain ⟨e0, he0, hu, hs⟩ := hw.big e he
      unfold zoneSpan BigZone.span; rw [huj, hu, hs, hw.page]; exact hi.big j hj0 e0 he0
    · rw [hw.zoneSpan_of_draw hf hjm huj]; exact hw.apart_big hf hjm he

theorem freshZoneDraws (hw : Within C r0 E r) (hf : FreshZoneDraws C r0 E) : FreshZoneDraws C r E where
  draws := by rw [hw.page]; exact hf.draws
  zone _ hk _ hj hjk := hw.apart_zone hf hk hj hjk
  big _ hk _ he := hw.apart_big hf hk he

end Within

theorem layout_empty {page : Nat} (hp : PageOk C page) (heap : Heap) : Layout C (Root.empty page heap) :=
  ⟨hp, fun _ hj => (Bool.false_ne_true hj).elim, fun _ he => absurd he (List.not_mem_nil _)⟩

theorem freshZoneDraws_empty {page : Nat} {heap : Heap} (hd : ZoneDraws C page E) :
    FreshZoneDraws C (Root.empty page heap) E :=
  ⟨hd, fun _ _ _ hj => (Bool.false_ne_true hj).elim, fun _ _ _ he => absurd he (List.not_mem_nil _)⟩

theorem initializeGlobalRoot_within (hC : smallestChunkSz ≤ C.smallSzMax) {env : InitEnv} {page : Nat}
    {heap : Heap} (hp : PageOk C page) (hd : ZoneDraws C page env.zoneEnv)
    (h : initializeGlobalRoot C env page heap = .ok r) : Within C (Root.empty page heap) env.zoneEnv r := by
  obtain ⟨r1, h1, h⟩ := bind_eq_ok.1 h
  cases pure_eq_ok.1 h
  exact ((Within.start (layout_empty hp heap)).run hC (freshZoneDraws_empty hd) (sizeChains_empty _ _)
    (createDefaultZones_events h1)).1.mapsNothing (.of_eq rfl rfl rfl rfl)

theorem initializeGlobalRoot_isolated (hC : smallestChunkSz ≤ C.smallSzMax) {env : InitEnv} {page : Nat}
    {heap : Heap} (hp : PageOk C page) (hd : ZoneDraws C page env.zoneEnv)
    (h : initializeGlobalRoot C env page heap = .ok r) : Isolated C r :=
  (initializeGlobalRoot_within hC hp hd h).isolated (freshZoneDraws_empty hd)
    ⟨fun _ _ _ hj => (Bool.false_ne_true hj).elim, fun _ hj => (Bool.false_ne_true hj).elim⟩

theorem two_page_le_shift (hshift : 1 ≤ C.bigZoneUserPageCountShift) (page : Nat) :
    2 * page ≤ page <<< C.bigZoneUserPageCountShift := by
  rw [Nat.shiftLeft_eq, Nat.mul_comm 2]
  exact Nat.mul_le_mul_left _ (Nat.pow_le_pow_right (show 0 < 2 by decide) hshift)

theorem isoBigAlloc_records {env : BigAllocEnv} {size : Nat} {p : Word}
    (hshift : 1 ≤ C.bigZoneUserPageCountShift) (hP : 0 < r.systemPageSize)
    (hfit : (env.span C r.systemPageSize).hi ≤ 2 ^ 64) (h : r.isoBigAlloc C env size = .ok (p, r')) :
    ∀ e ∈ r'.bigZones, (∃ e0 ∈ r.bigZones, e.2.userPagesStart = e0.2.userPagesStart ∧ e.2.size = e0.2.size) ∨
      ((env.span C r.systemPageSize).lo ≤ (e.2.span r.systemPageSize).lo ∧
        (e.2.span r.systemPageSize).hi ≤ (env.span C r.systemPageSize).hi) := by
  simp only [isoBigAlloc, pure_bind, throw_bind, ite_throw_eq_ok, Bool.or_eq_true, decide_eq_true_eq,
    not_or, not_lt] at h
  obtain ⟨⟨-, hmax⟩, h⟩ := h
  obtain ⟨⟨found, last⟩, -, h⟩ := bind_eq_ok.1 h
  dsimp only at h
  split at h
  · obtain ⟨r1, h1, h⟩ := bind_eq_ok.1 h
    cases pure_eq_ok.1 h
    intro e he
    rcases List.mem_append.1 he with he | he
    · exact .inl ((linkAfter_bigOnly h1).shapes e he)
    · rw [List.mem_singleton.1 he]
      have h2P := two_page_le_shift hshift r.systemPageSize
      dsimp only [BigAllocEnv.span] at hfit ⊢
      dsimp only [BigZone.span]
      rw [toNat_add_ofNat (by omega)]
      exact .inr ⟨by omega, by omega⟩
  · obtain ⟨b, hb, h⟩ := bind_eq_ok.1 h
    obtain ⟨-, -, h⟩ := bind_eq_ok.1 h
    cases pure_eq_ok.1 h
    have hm : BigOnly r (r.writeBig found { b with free := false }) := .writeBig hb rfl rfl
    exact fun e he => .inl (hm.shapes e he)

theorem isoBigAlloc_isolated {env : OpEnv} {size : Nat} {p : Word} (hshift : 1 ≤ C.bigZoneUserPageCountShift)
    (hP : 0 < r.systemPageSize) (hi : Isolated C r) (hf : FreshDraws C r env)
    (h : r.isoBigAlloc C env.bigEnv size = .ok (p, r')) : Isolated C r' := by
  have hrec := isoBigAlloc_records hshift hP hf.bigFits h
  rw [isoBigAlloc_frame h]
  refine ⟨hi.zones, fun j hj e he => ?_⟩
  rcases hrec e he with ⟨e0, he0, hu, hs⟩ | ⟨hlo, hhi⟩
  · unfold BigZone.span; rw [hu, hs]; exact hi.big j hj e0 he0
  · exact ((hf.bigZone j hj).mono hlo hhi).symm

theorem FreshDraws.isoBigAlloc {env : OpEnv} {e1 : BigAllocEnv} {size : Nat} {p : Word}
    (hshift : 1 ≤ C.bigZoneUserPageCountShift) (hP : 0 < r.systemPageSize) (hf : FreshDraws C r env)
    (hfit : (e1.span C r.systemPageSize).hi ≤ 2 ^ 64)
    (hz : ∀ k < maxZones, ((env.zoneEnv k).span C r.systemPageSize).Apart (e1.span C r.systemPageSize))
    (hb : (env.bigEnv.span C r.systemPageSize).Apart (e1.span C r.systemPageSize))
    (h : r.isoBigAlloc C e1 size = .ok (p, r')) : FreshDraws C r' env := by
  have hrec := isoBigAlloc_records hshift hP hfit h
  have hap : ∀ s : Span, (∀ e ∈ r.bigZones, s.Apart (e.2.span r.systemPageSize)) →
      s.Apart (e1.span C r.systemPageSize) → ∀ e ∈ r'.bigZones, s.Apart (e.2.span r.systemPageSize) := by
    intro s h0 h1 e he
    rcases hrec e he with ⟨e0, he0, hu, hs⟩ | ⟨hlo, hhi⟩
    · unfold BigZone.span; rw [hu, hs]; exact h0 e0 he0
    · exact (h1.symm.mono hlo hhi).symm
  rw [isoBigAlloc_frame h]
  exact ⟨⟨hf.zones.draws, hf.zones.zone, fun k hk => hap _ (hf.zones.big k hk) (hz k hk)⟩, hf.bigFits,
    hf.bigZone, hap _ hf.bigBig hb⟩

end Root

namespace Sys

variable {C : Config} {s s' : Sys}

theorem step_isolated (hC : LayoutConfig C) (hl : Layout C s.root) (hsc : Root.SizeChains C s.root)
    (hi : Isolated C s.root) {env : OpEnv} {th : Nat} {op : Op} {ret : Ret} (hf : Root.FreshDraws C s.root env)
    (h : s.step C env th op = .ok (ret, s')) : Isolated C s'.root := by
  rcases step_micro h with hm | ⟨⟨_, _, hb⟩, -⟩
  · exact ((Root.Within.start hl).run hC.smallest_le hf.zones hsc (micro_root_events hm)).1.isolated hf.zones hi
  · exact Root.isoBigAlloc_isolated hC.shift hl.page.pos hi hf hb

/-- In every state reached with fresh mappings, mapped zones are pairwise
apart and apart from every big record, guard pages included. -/
theorem FreshReachable.isolated (hC : LayoutConfig C) (hs : FreshReachable C s) : Isolated C s.root := by
  induction hs with
  | init env page heap r hp hd h => exact Root.initializeGlobalRoot_isolated hC.smallest_le hp hd h
  | step s s' env th op ret hs hf h ih =>
    exact step_isolated hC (hs.layout hC) (hs.reachable.sizeChains hC.smallest_le) ih hf h

end Sys

namespace Zone

variable {C : Config} {z : Zone}

/-- Chunk `n` of the zone `z`: the `chunk_size` bytes `POINTER_FROM_BITSLOT`
gives for the bit slot `2 * n`. -/
def chunkSpan (z : Zone) (n : Nat) : Span :=
  ⟨z.userBase.toNat + n * z.chunkSize, z.userBase.toNat + n * z.chunkSize + z.chunkSize⟩

theorem chunk_end_le {c n k : Nat} (h : n < k) : n * c + c ≤ k * c := by
  have := Nat.mul_le_mul_right c (Nat.succ_le_of_lt h)
  rwa [Nat.succ_mul] at this

theorem chunkSpan_apart {n k : Nat} (h : n ≠ k) : (z.chunkSpan n).Apart (z.chunkSpan k) := by
  unfold chunkSpan Span.Apart
  dsimp only
  rcases Nat.lt_or_gt_of_ne h with h | h <;> have := chunk_end_le (c := z.chunkSize) h <;> omega

theorem Geometry.chunk_le (hC : LayoutConfig C) (hg : Geometry C z)
    (hsize : Root.newZoneSize C z.chunkSize = some z.chunkSize) {n : Nat} (hn : 2 * n < 64 * z.getMaxBitmaskIndex) :
    n * z.chunkSize + z.chunkSize ≤ C.zoneUserSize := by
  obtain ⟨-, h16, hmax⟩ := Root.newZoneSize_pow2 hsize
  have hk := hg.slot_chunk_le (by unfold smallestChunkSz at h16; omega)
    (Nat.le_trans (Nat.mul_le_mul_left 32 (by have := hC.smallest_le; omega)) hC.chunks) hn
  rwa [Nat.shiftRight_eq_div_pow, Nat.pow_one, Nat.mul_div_cancel_left _ (by decide)] at hk

theorem CacheInv.chunk_le (hC : LayoutConfig C) (hz : z.CacheInv C)
    (hsize : Root.newZoneSize C z.chunkSize = some z.chunkSize) {n : Nat} (hn : z.lowBit (2 * n) = true) :
    n * z.chunkSize + z.chunkSize ≤ C.zoneUserSize :=
  hz.geometry.chunk_le hC hsize (hz.ok.word_lt hn)

theorem isoAllocBitslotFromZone_chunk {h h' : Heap} {n : Nat} {p : Word} {z' : Zone}
    (hok : z.isoAllocBitslotFromZone C h (2 * n) = .ok (p, z', h')) (hu : z.userPagesStart = z.userBase) :
    z'.mapped = true ∧ z'.lowBit (2 * n) = true ∧ p = z'.userBase + BitVec.ofNat 64 (n * z'.chunkSize) := by
  obtain ⟨hm, -, -, -, rfl, rfl, -⟩ := isoAllocBitslotFromZone_ok hok
  refine ⟨hm, by rw [lowBit_markAllocated (by omega) (by omega)]; simp, ?_⟩
  rw [pointerFromBitslot, hu, Nat.shiftRight_eq_div_pow, Nat.pow_one, Nat.mul_div_cancel_left _ (by decide)]
  rfl

end Zone

theorem Span.Apart.chunk {C : Config} {page n : Nat} {z : Zone} {s : Span} (h : (zoneSpan C page z).Apart s)
    (hle : n * z.chunkSize + z.chunkSize ≤ C.zoneUserSize) : (z.chunkSpan n).Apart s :=
  h.mono (by dsimp only [zoneSpan, Zone.chunkSpan]; omega) (by dsimp only [zoneSpan, Zone.chunkSpan]; omega)

namespace Root

/-- Chunk `n` of zone `i` is in use: the zone is mapped and the chunk's slot
set (a chunk handed out, or a canary). -/
def ChunkInUse (r : Root) (i n : Nat) : Prop := (r.zones i).mapped = true ∧ (r.zones i).lowBit (2 * n) = true

/-- Chunks in use never meet: two of them are the same chunk or apart, and
none meets a big record. -/
structure ChunksApart (r : Root) : Prop where
  chunks : ∀ i n j k, r.ChunkInUse i n → r.ChunkInUse j k → (i, n) ≠ (j, k) →
    ((r.zones i).chunkSpan n).Apart ((r.zones j).chunkSpan k)
  big : ∀ i n, r.ChunkInUse i n → ∀ e ∈ r.bigZones, ((r.zones i).chunkSpan n).Apart (e.2.span r.systemPageSize)

variable {C : Config} {r r' : Root}

theorem chunk_le_of_used (hC : LayoutConfig C) (hsc : SizeChains C r) (hinv : LiveCacheInv C r) {i n : Nat}
    (hu : r.ChunkInUse i n) : n * (r.zones i).chunkSize + (r.zones i).chunkSize ≤ C.zoneUserSize := by
  have hlive : (r.zones i).live = true := by simp only [Zone.live, Bool.or_eq_true]; exact .inr hu.1
  have hi : i < r.zonesUsed := Nat.lt_of_not_le fun hle => by simp [hsc.dead i hle] at hlive
  exact (hinv i hlive).chunk_le hC (hsc.live i hi hlive).2 hu.2

/-- Chunks in use of isolated zones never meet. -/
theorem chunksApart_of_isolated (hC : LayoutConfig C) (hsc : SizeChains C r) (hinv : LiveCacheInv C r)
    (hi : Isolated C r) : ChunksApart r where
  chunks i n j k hn hk hne := by
    by_cases hij : i = j
    · subst hij
      exact Zone.chunkSpan_apart fun h => hne (by rw [h])
    · exact (((hi.zones i j hij hn.1 hk.1).chunk (chunk_le_of_used hC hsc hinv hn)).symm.chunk
        (chunk_le_of_used hC hsc hinv hk)).symm
  big i n hn e he := (hi.big i hn.1 e he).chunk (chunk_le_of_used hC hsc hinv hn)

variable {env : OpEnv} {t : ThreadState} {zone : Option Nat} {size : Nat} {p : Word}

/-- The small path of `_iso_alloc` is a run of events drawing from the entry
point's zone mappings, and gives the base of a chunk it left in use, or NULL
from a zone the caller handed it. -/
theorem isoAlloc_small_chunk (hC : LayoutConfig C) (hl : Layout C r) (hsc : SizeChains C r)
    (hinv : LiveCacheInv C r) (hf : FreshDraws C r env) (hs : size ≤ C.smallSzMax)
    (h : isoAlloc C env t r zone size = .ok (p, r')) :
    ReflTransGen (EventOf C env.zoneEnv) r r' ∧
      ((p = 0 ∧ ∃ j, zone = some j) ∨ ∃ i n, r'.ChunkInUse i n ∧ p.toNat = ((r'.zones i).chunkSpan n).lo) := by
  simp only [isoAlloc, pure_bind, throw_bind, ite_throw_eq_ok, if_pos hs] at h
  obtain ⟨-, h⟩ := h
  obtain ⟨⟨zone', r1⟩, h1, h⟩ := bind_eq_ok.1 h
  obtain ⟨⟨chosen, r2⟩, h2, h⟩ := bind_eq_ok.1 h
  have e12 := (chooseZone_events h1).trans (chooseSlot_events h2)
  dsimp only at h
  split at h
  · cases pure_eq_ok.1 h; exact ⟨e12, .inl ⟨rfl, chooseSlot_none_private h1 h2⟩⟩
  rename_i i slot
  obtain ⟨⟨p', z', hp⟩, h3, h⟩ := bind_eq_ok.1 h
  cases pure_eq_ok.1 h
  obtain ⟨hn, hbad⟩ := chooseSlot_some h2
  rw [← hn] at h3 hbad
  have e3 := e12.tail (.allocSlot hbad h3)
  have hm : (r2.zones i).mapped = true := (Zone.isoAllocBitslotFromZone_ok h3).1
  have hz2 := ((Within.start hl).run hC.smallest_le hf.zones hsc e12).1.layout.zone i hm
  have hlive : (r2.zones i).live = true := by simp only [Zone.live, Bool.or_eq_true]; exact .inr hm
  obtain ⟨n2, hn2, heven, -, -⟩ := (events_liveCacheInv hC.alignDown e12 hinv).freeSlot hlive hbad
  obtain ⟨n, rfl⟩ : ∃ n, n2 = 2 * n := ⟨n2 / 2, by omega⟩
  rw [hn2, Int.toNat_ofNat] at h3
  obtain ⟨hzm, hzl, rfl⟩ :=
    Zone.isoAllocBitslotFromZone_chunk h3 ((Zone.maskZonePtrs_unmasked_iff _).2 hz2.masked).1
  generalize hr3 : { r2 with heap := hp }.setZone i z'.maskZonePtrs = r3 at e3 ⊢
  have hz3 : r3.zones i = z'.maskZonePtrs := by rw [← hr3, setZone_zones_same]
  have hu : r3.ChunkInUse i n := by rw [ChunkInUse, hz3]; exact ⟨hzm, hzl⟩
  obtain ⟨hw3, hsc3⟩ := (Within.start hl).run hC.smallest_le hf.zones hsc e3
  have hk := chunk_le_of_used hC hsc3 (events_liveCacheInv hC.alignDown e3 hinv) hu
  have hhigh := (hw3.layout.zone i hu.1).high
  have hP := hw3.layout.page.pos
  rw [hz3, Zone.maskZonePtrs_chunkSize] at hk
  rw [hz3, Zone.maskZonePtrs_userBase] at hhigh
  refine ⟨e3, .inr ⟨i, n, hu, ?_⟩⟩
  rw [hz3]
  exact toNat_add_ofNat (by omega)

end Root

namespace Sys

variable {C : Config} {s : Sys}

/-- In every state reached with fresh mappings, mapped zones are pairwise
apart and apart from every big record, guard pages included, and chunks in
use never meet each other or a big record. -/
theorem freshReachable_mappings_apart (hC : LayoutConfig C) (hs : FreshReachable C s) :
    Isolated C s.root ∧ Root.ChunksApart s.root :=
  have hi := hs.isolated hC
  ⟨hi, Root.chunksApart_of_isolated hC (hs.reachable.sizeChains hC.smallest_le)
    (hs.reachable.liveCacheInv hC.alignDown) hi⟩

/-- A small allocation from a state reached with fresh mappings, with fresh
draws and whatever the thread's caches hold, gives NULL or the base of a
chunk now in use, and leaves the chunks in use apart: the chunk handed out
overlaps no other chunk in use and no big record. -/
theorem freshReachable_small_alloc_apart (hC : LayoutConfig C) (hs : FreshReachable C s) {env : OpEnv}
    {t : ThreadState} {zone : Option Nat} {size : Nat} {p : Word} {r' : Root} (hf : Root.FreshDraws C s.root env)
    (hsz : size ≤ C.smallSzMax) (h : Root.isoAlloc C env t s.root zone size = .ok (p, r')) :
    Root.ChunksApart r' ∧ (p = 0 ∨ ∃ i n, r'.ChunkInUse i n ∧ p.toNat = ((r'.zones i).chunkSpan n).lo) := by
  have hl := hs.layout hC
  have hsc := hs.reachable.sizeChains hC.smallest_le
  have hinv := hs.reachable.liveCacheInv hC.alignDown
  obtain ⟨he, hp⟩ := Root.isoAlloc_small_chunk hC hl hsc hinv hf hsz h
  obtain ⟨hw, hsc'⟩ := (Root.Within.start hl).run hC.smallest_le hf.zones hsc he
  exact ⟨Root.chunksApart_of_isolated hC hsc' (Root.events_liveCacheInv hC.alignDown he hinv)
    (hw.isolated hf.zones (hs.isolated hC)), hp.imp_left And.left⟩

/-- Without a private zone, a small allocation from a state reached with fresh
mappings never returns NULL: the zone the thread's zone cache or the fit search
settles on has a slot ready, and a new zone has one or the call aborts. The
pointer is the base of a chunk now in use, and the chunk ends inside its
zone's user pages. -/
theorem freshReachable_small_alloc_not_null (hC : LayoutConfig C) (hs : FreshReachable C s) {env : OpEnv}
    {t : ThreadState} {size : Nat} {p : Word} {r' : Root} (hf : Root.FreshDraws C s.root env)
    (hsz : size ≤ C.smallSzMax) (h : Root.isoAlloc C env t s.root none size = .ok (p, r')) :
    p ≠ 0 ∧ ∃ i n, r'.ChunkInUse i n ∧ p.toNat = ((r'.zones i).chunkSpan n).lo ∧
      n * (r'.zones i).chunkSize + (r'.zones i).chunkSize ≤ C.zoneUserSize := by
  have hl := hs.layout hC
  have hsc := hs.reachable.sizeChains hC.smallest_le
  have hinv := hs.reachable.liveCacheInv hC.alignDown
  obtain ⟨he, ⟨-, j, hj⟩ | ⟨i, n, hu, hp⟩⟩ := Root.isoAlloc_small_chunk hC hl hsc hinv hf hsz h
  · cases hj
  obtain ⟨hw, hsc'⟩ := (Root.Within.start hl).run hC.smallest_le hf.zones hsc he
  have hlow := (hw.layout.zone i hu.1).low
  have hP := hw.layout.page.pos
  refine ⟨fun h0 => ?_, i, n, hu, hp,
    Root.chunk_le_of_used hC hsc' (Root.events_liveCacheInv hC.alignDown he hinv) hu⟩
  rw [h0, show (0 : Word).toNat = 0 from rfl] at hp
  simp only [Zone.chunkSpan] at hp
  omega

end Sys

theorem smallInit_freshDraws {r : Root} {env : OpEnv} (hz : env.zoneEnv = smallInitEnv.zoneEnv)
    (hb : env.bigEnv.userMap.toNat + 8192 + 4294967296 ≤ 0x700000000000)
    (h : Root.initializeGlobalRoot guardedConfig smallInitEnv 4096 unmappedHeap = .ok r) :
    Root.FreshDraws guardedConfig r env := by
  have hf0 : Root.FreshZoneDraws guardedConfig (Root.empty 4096 unmappedHeap) smallInitEnv.zoneEnv :=
    Root.freshZoneDraws_empty smallInitEnv_zoneDraws
  have hw := Root.initializeGlobalRoot_within guardedConfig_layoutConfig.smallest_le
    ⟨by decide, by decide, by decide⟩ smallInitEnv_zoneDraws h
  have hpage : r.systemPageSize = 4096 := hw.page
  have hu := env.bigEnv.userMap.isLt
  refine ⟨hz ▸ hw.freshZoneDraws hf0, ?_, fun j hj => ?_, fun e he => ?_⟩
  · rw [hpage]
    show env.bigEnv.userMap.toNat + (4096 <<< 1) + 4294967296 ≤ 2 ^ 64
    omega
  · rcases hw.zone j hj with ⟨h0, -⟩ | ⟨hjm, hu⟩
    · exact absurd h0 Bool.false_ne_true
    · rw [hw.zoneSpan_of_draw hf0 hjm hu, hpage]
      refine .inl ?_
      show env.bigEnv.userMap.toNat + (4096 <<< 1) + 4294967296 ≤ (smallInitEnv.zoneEnv j).userMap.toNat
      rw [smallInitEnv_userMap hjm]
      omega
  · obtain ⟨e0, he0, -⟩ := hw.big e he
    exact absurd he0 (List.not_mem_nil _)

theorem smallOpEnv_freshDraws {r : Root}
    (h : Root.initializeGlobalRoot guardedConfig smallInitEnv 4096 unmappedHeap = .ok r) :
    Root.FreshDraws guardedConfig r smallOpEnv :=
  smallInit_freshDraws rfl (by decide) h

set_option maxRecDepth 20000 in
theorem guarded_init_alloc_ok : ∃ r x,
    Root.initializeGlobalRoot guardedConfig smallInitEnv 4096 unmappedHeap = .ok r ∧
      Root.isoAlloc guardedConfig smallOpEnv ThreadState.empty r none 16 = .ok x := by
  obtain ⟨x, hx⟩ := exists_eq_ok_of_isOk (by decide :
    (Root.initializeGlobalRoot guardedConfig smallInitEnv 4096 unmappedHeap >>= fun r =>
      Root.isoAlloc guardedConfig smallOpEnv ThreadState.empty r none 16).isOk = true)
  obtain ⟨r, hr, ha⟩ := bind_eq_ok.1 hx
  exact ⟨r, x, hr, ha⟩

theorem guarded_config_mappings_apart : ∃ r,
    Root.initializeGlobalRoot guardedConfig smallInitEnv 4096 unmappedHeap = .ok r ∧
      Isolated guardedConfig r ∧ Root.ChunksApart r := by
  obtain ⟨r, -, hr, -⟩ := guarded_init_alloc_ok
  exact ⟨r, hr, Sys.freshReachable_mappings_apart (s := ⟨r, fun _ => .empty⟩) guardedConfig_layoutConfig
    (.init _ _ _ _ ⟨by decide, by decide, by decide⟩ smallInitEnv_zoneDraws hr)⟩

theorem guarded_small_alloc_not_null : ∃ r p r',
    Root.initializeGlobalRoot guardedConfig smallInitEnv 4096 unmappedHeap = .ok r ∧
      Root.isoAlloc guardedConfig smallOpEnv ThreadState.empty r none 16 = .ok (p, r') ∧
      p ≠ 0 ∧ ∃ i n, r'.ChunkInUse i n ∧ p.toNat = ((r'.zones i).chunkSpan n).lo ∧
        n * (r'.zones i).chunkSize + (r'.zones i).chunkSize ≤ guardedConfig.zoneUserSize := by
  obtain ⟨r, ⟨p, r'⟩, hr, ha⟩ := guarded_init_alloc_ok
  exact ⟨r, p, r', hr, ha, Sys.freshReachable_small_alloc_not_null (s := ⟨r, fun _ => .empty⟩)
    guardedConfig_layoutConfig (.init _ _ _ _ ⟨by decide, by decide, by decide⟩ smallInitEnv_zoneDraws hr)
    (smallOpEnv_freshDraws hr) (by decide) ha⟩

theorem guarded_small_alloc_apart : ∃ r p r',
    Root.initializeGlobalRoot guardedConfig smallInitEnv 4096 unmappedHeap = .ok r ∧
      Root.isoAlloc guardedConfig smallOpEnv ThreadState.empty r none 16 = .ok (p, r') ∧
      Root.ChunksApart r' ∧ (p = 0 ∨ ∃ i n, r'.ChunkInUse i n ∧ p.toNat = ((r'.zones i).chunkSpan n).lo) := by
  obtain ⟨r, ⟨p, r'⟩, hr, ha⟩ := guarded_init_alloc_ok
  exact ⟨r, p, r', hr, ha, Sys.freshReachable_small_alloc_apart (s := ⟨r, fun _ => .empty⟩)
    guardedConfig_layoutConfig (.init _ _ _ _ ⟨by decide, by decide, by decide⟩ smallInitEnv_zoneDraws hr)
    (smallOpEnv_freshDraws hr) (by decide) ha⟩

end IsoAlloc
