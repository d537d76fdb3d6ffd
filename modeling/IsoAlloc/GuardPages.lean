import IsoAlloc.Layout

/-!
Every allocation lies between guard pages. A small chunk comes from a zone
whose user pages sit between the two guard pages `_iso_new_zone` made, and it
lies inside those user pages, on an `ALIGNMENT` boundary, when the zone holds
at least 32 chunks; a big allocation is the payload of a record of at least
the request's size, between the guard pages `_iso_big_alloc` made.

The range check of `_iso_alloc_bitslot_from_zone` aborts only past
`user_pages_start + ZONE_USER_SIZE`. A zone of fewer than 32 chunks still
gets a one-word bitmap of 32 slots, so its slot at the chunk count passes the
check and hands out the guard page above the user pages.
-/

namespace IsoAlloc

open Relation

namespace Root

variable {C : Config} {r r' : Root}

theorem bigAllocWalk_found {size fuel : Nat} {a last found l : Word}
    (h : r.bigAllocWalk size fuel a last = .ok (found, l)) (hf : found ≠ 0) :
    ∃ b, r.readBig found = .ok b ∧ size ≤ b.size := by
  induction fuel generalizing a last with
  | zero => exact absurd h throw_ne_ok
  | succ fuel ih =>
    simp only [bigAllocWalk] at h
    split at h
    · cases pure_eq_ok.1 h; exact absurd rfl hf
    simp only [pure_bind] at h
    obtain ⟨b, hb, h⟩ := bind_eq_ok.1 h
    obtain ⟨-, -, h⟩ := bind_eq_ok.1 h
    split at h
    · next hfit =>
      cases pure_eq_ok.1 h
      simp only [Bool.and_eq_true, decide_eq_true_eq] at hfit
      exact ⟨b, hb, hfit.2⟩
    · exact ih h

/-- `_iso_big_alloc` keeps the layout, and returns the payload of a record of
at least the request's size: a free record it found, or a new one between the
guard pages it protected at both ends of the payload. -/
theorem isoBigAlloc_layout {env : OpEnv} {size : Nat} {p : Word} (hshift : 1 ≤ C.bigZoneUserPageCountShift)
    (hl : Layout C r) (hf : FreshDraws C r env) (h : r.isoBigAlloc C env.bigEnv size = .ok (p, r')) :
    Layout C r' ∧ ∃ e ∈ r'.bigZones, e.2.userPagesStart = p ∧ size ≤ e.2.size := by
  simp only [isoBigAlloc, pure_bind, throw_bind, ite_throw_eq_ok, Bool.or_eq_true, decide_eq_true_eq,
    not_or, not_lt] at h
  obtain ⟨⟨hsz, hmax⟩, h⟩ := h
  obtain ⟨⟨found, last⟩, hw, h⟩ := bind_eq_ok.1 h
  dsimp only at h
  split at h
  · obtain ⟨r1, h1, h⟩ := bind_eq_ok.1 h
    cases pure_eq_ok.1 h
    have hb1 := linkAfter_bigOnly h1
    have hP := hl.page.pos
    have hfit := hf.bigFits
    dsimp only [BigAllocEnv.span] at hfit
    have h2P : 2 * r.systemPageSize ≤ r.systemPageSize <<< C.bigZoneUserPageCountShift := by
      rw [Nat.shiftLeft_eq, Nat.mul_comm 2]
      exact Nat.mul_le_mul_left _ (Nat.pow_le_pow_right (show 0 < 2 by decide) hshift)
    generalize (roundUpPage r.systemPageSize (BitVec.ofNat 64 size)).toNat = ns at hsz hmax ⊢
    have hU := toNat_add_ofNat (a := env.bigEnv.userMap) (n := r.systemPageSize) (by omega)
    have hUS := toNat_add_ofNat (a := env.bigEnv.userMap + BitVec.ofNat 64 r.systemPageSize) (n := ns) (by omega)
    have hoff : AccMonoOff (env.bigEnv.span C r.systemPageSize) r.heap
        (((r.heap.protect env.bigEnv.userMap ((r.systemPageSize <<< C.bigZoneUserPageCountShift) + ns) true).protect
          env.bigEnv.userMap r.systemPageSize false).protect
          (env.bigEnv.userMap + BitVec.ofNat 64 r.systemPageSize + BitVec.ofNat 64 ns) r.systemPageSize false) :=
      (AccMonoOff.protect _ true (by omega) (Nat.le_refl _) (by dsimp only [BigAllocEnv.span]; omega)).trans
        (.of_accMono ((AccMono.protect_false _ _ _).trans (.protect_false _ _ _)))
    refine ⟨⟨hb1.eq ▸ hl.page, fun j hj => ?_, fun e he => ?_⟩, ⟨_, List.mem_append_right _ (List.mem_singleton_self _),
      rfl, hsz⟩⟩
    · rw [hb1.eq] at hj ⊢
      exact (hl.zone j hj).mono_off hoff (hf.bigZone j hj)
    · rcases List.mem_append.1 he with he | he
      · obtain ⟨e0, he0, hu, hs⟩ := hb1.shapes e he
        rw [hb1.eq]
        exact ((hl.big e0 he0).mono_off hoff (hf.bigBig e0 he0)).congr hu hs
      · rw [List.mem_singleton.1 he, hb1.eq]
        refine ⟨by dsimp only; omega, by dsimp only; omega, ?_, ?_⟩
        · dsimp only
          rw [hU, Nat.add_sub_cancel]
          exact (guard_protect _ (by omega)).mono (.protect_false _ _ _)
        · dsimp only
          rw [← hUS]
          exact guard_protect _ (by omega)
  · obtain ⟨b, hb, h⟩ := bind_eq_ok.1 h
    obtain ⟨-, -, h⟩ := bind_eq_ok.1 h
    cases pure_eq_ok.1 h
    obtain ⟨b', hb', hle⟩ := bigAllocWalk_found hw ‹_›
    rw [hb] at hb'
    cases hb'
    have hm : MapsNothing r (r.writeBig found { b with free := false }) := .of_bigOnly (.writeBig hb rfl rfl)
    refine ⟨hm.layout hl, (found, { b with free := false }), ?_, rfl, by dsimp only; omega⟩
    simp only [writeBig, List.mem_map]
    exact ⟨(found, b), mem_of_readBig hb, by simp⟩

theorem createDefaultZones_events {env : InitEnv} {sizes : List Nat}
    (h : createDefaultZones C env sizes r = .ok r') : ReflTransGen (EventOf C env.zoneEnv) r r' := by
  induction sizes generalizing r with
  | nil => cases pure_eq_ok.1 h; exact .refl
  | cons size sizes ih =>
    obtain ⟨⟨res, r1⟩, h1, h⟩ := bind_eq_ok.1 h
    cases res with
    | none => exact absurd h throw_ne_ok
    | some _ => exact (ReflTransGen.single (.newZone h1)).trans (ih h)

theorem initializeGlobalRoot_layout (hC : smallestChunkSz ≤ C.smallSzMax) {env : InitEnv} {page : Nat}
    {heap : Heap} (hp : PageOk C page) (hd : ZoneDraws C page env.zoneEnv)
    (h : initializeGlobalRoot C env page heap = .ok r) : Layout C r := by
  obtain ⟨r1, h1, h⟩ := bind_eq_ok.1 h
  cases pure_eq_ok.1 h
  have hl0 : Layout C (Root.empty page heap) :=
    ⟨hp, fun _ hj => (Bool.false_ne_true hj).elim, fun _ he => absurd he (List.not_mem_nil _)⟩
  have hf0 : FreshZoneDraws C (Root.empty page heap) env.zoneEnv :=
    ⟨hd, fun _ _ _ hj => (Bool.false_ne_true hj).elim, fun _ _ _ he => absurd he (List.not_mem_nil _)⟩
  have hl1 := ((Within.start hl0).run hC hf0 (sizeChains_empty _ _) (createDefaultZones_events h1)).1.layout
  refine MapsNothing.layout ?_ hl1
  exact .of_eq rfl rfl rfl rfl

end Root

namespace Sys

variable {C : Config} {E : Nat → NewZoneEnv} {th : Nat} {s s' : Sys}

theorem Micro.root_events (hm : Micro C E th s s') : ReflTransGen (EventOf C E) s.root s'.root := by
  cases hm with
  | event he => exact .single he
  | free h => exact .single (.freeChunk h)
  | clearZoneCache => exact .refl
  | quarantine => exact .refl

theorem micro_root_events (hm : ReflTransGen (Micro C E th) s s') :
    ReflTransGen (EventOf C E) s.root s'.root := by
  induction hm with
  | refl => exact .refl
  | tail _ hm ih => exact ih.trans hm.root_events

/-- The states the allocator reaches when the page size suits the layout and
every mapping it draws is fresh: the zone mappings of initialisation are
apart, and each entry point's draws meet no mapping in place. -/
inductive FreshReachable (C : Config) : Sys → Prop
  | init (env : InitEnv) (page : Nat) (heap : Heap) (r : Root) : PageOk C page →
      Root.ZoneDraws C page env.zoneEnv → Root.initializeGlobalRoot C env page heap = .ok r →
      FreshReachable C { root := r, threads := fun _ => ThreadState.empty }
  | step (s s' : Sys) (env : OpEnv) (th : Nat) (op : Op) (ret : Ret) : FreshReachable C s →
      Root.FreshDraws C s.root env → s.step C env th op = .ok (ret, s') → FreshReachable C s'

theorem FreshReachable.reachable (hs : FreshReachable C s) : Reachable C s := by
  induction hs with
  | init env page heap r _ _ h => exact .init env page heap r h
  | step s s' env th op ret _ _ h ih => exact .step s s' env th op ret ih h

end Sys

/-- The build constants the layout of a chunk relies on: every zone holds at
least 32 chunks of the largest small size, `ALIGNMENT` divides the smallest
chunk, and a new big-zone user mapping spans at least two pages. -/
structure LayoutConfig (C : Config) : Prop where
  smallest_le : smallestChunkSz ≤ C.smallSzMax
  chunks : 32 * C.smallSzMax ≤ C.zoneUserSize
  align : C.alignment ∣ smallestChunkSz
  alignDown : ∀ n, C.alignSzDown n ≤ n
  shift : 1 ≤ C.bigZoneUserPageCountShift

namespace Sys

variable {C : Config} {s s' : Sys}

theorem step_layout (hC : LayoutConfig C) (hl : Layout C s.root) (hsc : Root.SizeChains C s.root)
    {env : OpEnv} {th : Nat} {op : Op} {ret : Ret} (hf : Root.FreshDraws C s.root env)
    (h : s.step C env th op = .ok (ret, s')) : Layout C s'.root := by
  rcases step_micro h with hm | ⟨⟨_, _, hb⟩, -⟩
  · exact ((Root.Within.start hl).run hC.smallest_le hf.zones hsc (micro_root_events hm)).1.layout
  · exact (Root.isoBigAlloc_layout hC.shift hl hf hb).1

theorem FreshReachable.layout (hC : LayoutConfig C) (hs : FreshReachable C s) : Layout C s.root := by
  induction hs with
  | init env page heap r hp hd h => exact Root.initializeGlobalRoot_layout hC.smallest_le hp hd h
  | step s s' env th op ret hs hf h ih => exact step_layout hC ih (hs.reachable.sizeChains hC.smallest_le) hf h

end Sys

namespace Zone

variable {C : Config} {z : Zone}

theorem Geometry.slot_chunk_le (hg : Geometry C z) (hc : 0 < z.chunkSize)
    (h32 : 32 * z.chunkSize ≤ C.zoneUserSize) {n : Nat} (hn : n < 64 * z.getMaxBitmaskIndex) :
    n >>> 1 * z.chunkSize + z.chunkSize ≤ C.zoneUserSize := by
  have hcc : 32 ≤ z.getChunkCount C := (Nat.le_div_iff_mul_le hc).2 h32
  have hlt : n >>> 1 < z.getChunkCount C := by
    unfold Geometry at hg
    simp only [getMaxBitmaskIndex, hg, Nat.shiftRight_eq_div_pow, Nat.shiftLeft_eq] at hn ⊢
    split at hn <;> omega
  calc n >>> 1 * z.chunkSize + z.chunkSize = (n >>> 1 + 1) * z.chunkSize := (Nat.succ_mul _ _).symm
    _ ≤ z.getChunkCount C * z.chunkSize := Nat.mul_le_mul_right _ hlt
    _ ≤ C.zoneUserSize := Nat.div_mul_le_self _ _

end Zone

namespace Root

variable {C : Config}

theorem smallestChunkSz_dvd {n m : Nat} (h : newZoneSize C n = some m) : smallestChunkSz ∣ m := by
  obtain ⟨k, rfl⟩ := newZoneSize_two_pow h
  have h16 := (newZoneSize_pow2 h).2.1
  have hk : 4 ≤ k := by
    by_contra hk
    have := Nat.pow_le_pow_right (show 0 < 2 by decide) (show k ≤ 3 by omega)
    unfold smallestChunkSz at h16
    omega
  exact Nat.pow_dvd_pow 2 hk

end Root

/-- Chunk `p` of the zone `z` in the heap `h`: inside its user pages, on an
`ALIGNMENT` boundary, with the zone between its two guard pages. -/
structure ChunkInZone (C : Config) (page : Nat) (h : Heap) (z : Zone) (p : Word) : Prop where
  lower : z.userBase.toNat ≤ p.toNat
  upper : p.toNat + z.chunkSize ≤ z.userBase.toNat + C.zoneUserSize
  aligned : p.toNat % C.alignment = 0
  zone : ZoneLaidOut C page h z

namespace Root

variable {C : Config}

theorem pointerFromBitslot_bounds (hC : LayoutConfig C) {page : Nat} {h : Heap} {z : Zone} {s : Int}
    (hp : PageOk C page) (hz : ZoneLaidOut C page h z) (hsize : newZoneSize C z.chunkSize = some z.chunkSize)
    (hg : z.Geometry C) (hs : z.FreeSlot s) :
    z.userBase.toNat ≤ (z.maskZonePtrs.pointerFromBitslot s.toNat).toNat ∧
      (z.maskZonePtrs.pointerFromBitslot s.toNat).toNat + z.chunkSize ≤ z.userBase.toNat + C.zoneUserSize ∧
      (z.maskZonePtrs.pointerFromBitslot s.toNat).toNat % C.alignment = 0 := by
  obtain ⟨-, h16, hmax⟩ := newZoneSize_pow2 hsize
  have hle : z.chunkSize ≤ C.smallSzMax := by have := hC.smallest_le; omega
  obtain ⟨n, rfl, -, hlt, -⟩ := hs
  have hk := hg.slot_chunk_le (by unfold smallestChunkSz at h16; omega)
    (Nat.le_trans (Nat.mul_le_mul_left 32 hle) hC.chunks) hlt
  have hbase : z.maskZonePtrs.userPagesStart = z.userBase := ((Zone.maskZonePtrs_unmasked_iff z).2 hz.masked).1
  have hpt : (z.maskZonePtrs.pointerFromBitslot (n : Int).toNat).toNat =
      z.userBase.toNat + n >>> 1 * z.chunkSize := by
    have := hz.high
    have := hp.pos
    rw [Zone.pointerFromBitslot, hbase, Zone.maskZonePtrs_chunkSize, Int.toNat_ofNat, toNat_add_ofNat (by omega)]
  have hdvd : C.alignment ∣ z.userBase.toNat + n >>> 1 * z.chunkSize :=
    Nat.dvd_add (Nat.dvd_trans hp.align (Nat.dvd_of_mod_eq_zero hz.aligned))
      (Nat.dvd_trans (Nat.dvd_trans hC.align (smallestChunkSz_dvd hsize)) (Nat.dvd_mul_left _ _))
  rw [hpt]
  exact ⟨by omega, by omega, Nat.mod_eq_zero_of_dvd hdvd⟩

variable {r r' : Root} {env : OpEnv} {t : ThreadState} {zone : Option Nat} {size : Nat} {p : Word}

/-- The small path of `_iso_alloc` from a laid-out root with fresh draws gives
NULL or a chunk of the zone it chose, inside that zone's user pages. -/
theorem isoAlloc_small_guarded (hC : LayoutConfig C) (hl : Layout C r) (hsc : SizeChains C r)
    (hinv : LiveCacheInv C r) (hf : FreshDraws C r env) (hs : size ≤ C.smallSzMax)
    (h : isoAlloc C env t r zone size = .ok (p, r')) :
    p = 0 ∨ ∃ i, ChunkInZone C r'.systemPageSize r'.heap (r'.zones i) p := by
  simp only [isoAlloc, pure_bind, throw_bind, ite_throw_eq_ok, if_pos hs] at h
  obtain ⟨-, h⟩ := h
  obtain ⟨⟨zone', r1⟩, h1, h⟩ := bind_eq_ok.1 h
  obtain ⟨⟨chosen, r2⟩, h2, h⟩ := bind_eq_ok.1 h
  dsimp only at h
  split at h
  · cases pure_eq_ok.1 h; exact .inl rfl
  rename_i i slot
  obtain ⟨⟨p', z', hp⟩, h3, h⟩ := bind_eq_ok.1 h
  cases pure_eq_ok.1 h
  have e12 := (chooseZone_events h1).trans (chooseSlot_events h2)
  obtain ⟨hw2, hsc2⟩ := (Within.start hl).run hC.smallest_le hf.zones hsc e12
  have hinv2 := events_liveCacheInv hC.alignDown e12 hinv
  obtain ⟨hn, hbad⟩ := chooseSlot_some h2
  rw [← hn] at h3 hbad
  have hw3 := hw2.event hf.zones hsc2 (.allocSlot hbad h3)
  obtain ⟨hm, -, -, -, rfl, rfl, -⟩ := Zone.isoAllocBitslotFromZone_ok h3
  have hlive : (r2.zones i).live = true := by simp only [Zone.live, Bool.or_eq_true]; exact .inr hm
  have hi : i < r2.zonesUsed := Nat.lt_of_not_le fun hle => by simp [hsc2.dead i hle] at hlive
  obtain ⟨hlo, hhi, hal⟩ := pointerFromBitslot_bounds hC hw2.layout.page (hw2.layout.zone i hm)
    (hsc2.live i hi hlive).2 (hinv2 i hlive).geometry (hinv2.freeSlot hlive hbad)
  have hz3 := hw3.layout.zone i (by rw [setZone_zones_same]; exact hm)
  refine .inr ⟨i, ?_⟩
  rw [setZone_zones_same] at hz3 ⊢
  exact ⟨hlo, hhi, hal, hz3⟩

/-- The big path of `_iso_alloc` from a laid-out root with fresh draws gives
the payload of a record of at least the request's size, between its guard
pages. -/
theorem isoAlloc_big_guarded (hC : LayoutConfig C) (hl : Layout C r) (hf : FreshDraws C r env)
    (hs : C.smallSzMax < size) (h : isoAlloc C env t r zone size = .ok (p, r')) :
    ∃ e ∈ r'.bigZones, e.2.userPagesStart = p ∧ size ≤ e.2.size ∧ BigLaidOut r'.systemPageSize r'.heap e.2 := by
  simp only [isoAlloc, pure_bind, throw_bind, ite_throw_eq_ok, if_neg (Nat.not_le.2 hs)] at h
  obtain ⟨-, -, hb⟩ := h
  obtain ⟨hl', e, he, hu, hsz⟩ := isoBigAlloc_layout hC.shift hl hf hb
  exact ⟨e, he, hu, hsz, hl'.big e he⟩

end Root

/-- What holds of a state and of every allocation from it with fresh draws:
the layout; a small request gets NULL or a chunk of the zone it chose, inside
that zone's user pages and between its guard pages; a big request gets the
payload of a record of at least its size, between the record's guard pages. -/
structure AllocationsGuarded (C : Config) (s : Sys) : Prop where
  layout : Layout C s.root
  small : ∀ env th zone size p r', Root.FreshDraws C s.root env → size ≤ C.smallSzMax →
    Root.isoAlloc C env (s.threads th) s.root zone size = .ok (p, r') →
    p = 0 ∨ ∃ i, ChunkInZone C r'.systemPageSize r'.heap (r'.zones i) p
  big : ∀ env th zone size p r', Root.FreshDraws C s.root env → C.smallSzMax < size →
    Root.isoAlloc C env (s.threads th) s.root zone size = .ok (p, r') →
    ∃ e ∈ r'.bigZones, e.2.userPagesStart = p ∧ size ≤ e.2.size ∧ BigLaidOut r'.systemPageSize r'.heap e.2

namespace Sys

variable {C : Config} {s : Sys}

/-- In every state reached with fresh mappings, under a configuration whose
zones hold at least 32 chunks of every small size, every allocation lies
between guard pages. -/
theorem freshReachable_allocationsGuarded (hC : LayoutConfig C) (hs : FreshReachable C s) :
    AllocationsGuarded C s :=
  have hr := hs.reachable
  have hl := hs.layout hC
  ⟨hl, fun _ _ _ _ _ _ hf hsz h => Root.isoAlloc_small_guarded hC hl (hr.sizeChains hC.smallest_le)
      (hr.liveCacheInv hC.alignDown) hf hsz h,
    fun _ _ _ _ _ _ hf hsz h => Root.isoAlloc_big_guarded hC hl hf hsz h⟩

end Sys

/-- A configuration whose zones hold at least 32 chunks of every small size:
`ZONE_USER_SIZE` of 256 KiB and `SMALL_SZ_MAX` of 8 KiB. -/
def guardedConfig : Config := { exampleConfig with zoneUserSize := 262144, smallSzMax := 8192 }

theorem guardedConfig_layoutConfig : LayoutConfig guardedConfig where
  smallest_le := by decide
  chunks := by decide
  align := by decide
  alignDown n := by
    show ((n + 7) / 8 * 8 : Int) - 8 ≤ n
    omega
  shift := by decide

theorem smallInitEnv_userMap {k : Nat} (hk : k < maxZones) :
    (smallInitEnv.zoneEnv k).userMap.toNat = 0x700000000000 + k * 0x100000 := by
  have h0 : (0x700000000000#64).toNat = 0x700000000000 := rfl
  unfold maxZones at hk
  show (0x700000000000#64 + BitVec.ofNat 64 (k * 0x100000)).toNat = _
  rw [toNat_add_ofNat (by rw [h0]; omega), h0]

theorem smallInitEnv_zoneDraws : Root.ZoneDraws guardedConfig 4096 smallInitEnv.zoneEnv where
  aligned k hk := by rw [smallInitEnv_userMap hk]; omega
  fits k hk := by
    rw [smallInitEnv_userMap hk]
    unfold maxZones at hk
    show _ + 262144 + _ ≤ _
    omega
  apart k hk k' hk' hne := by
    dsimp only [NewZoneEnv.span, Span.Apart]
    rw [smallInitEnv_userMap hk, smallInitEnv_userMap hk']
    show _ + 262144 + _ ≤ _ ∨ _ + 262144 + _ ≤ _
    omega

set_option maxRecDepth 8000 in
/-- With `ZONE_USER_SIZE` of 4 KiB, the default zone of 4096-byte chunks has a
single chunk but a one-word bitmap of 32 slots. After initialisation, a second
4096-byte request gets that zone's slot 2: the chunk at
`user_pages_start + ZONE_USER_SIZE`, on the guard page above the user pages,
which is inaccessible. -/
theorem second_page_chunk_on_guard_page :
    (do
      let r ← Root.initializeGlobalRoot smallZoneConfig smallInitEnv 4096 unmappedHeap
      let s : Sys := ⟨r, fun _ => ThreadState.empty⟩
      let (.ptr _, s) ← s.step smallZoneConfig smallOpEnv 0 (.alloc none 4096) | throw .loop
      let (.ptr p, s) ← s.step smallZoneConfig smallOpEnv 0 (.alloc none 4096) | throw .loop
      let z := s.root.zones 8
      pure (p == z.userBase + BitVec.ofNat 64 smallZoneConfig.zoneUserSize, z.chunkSize, s.root.heap.acc p) :
      Except Stop (Bool × Nat × Bool)).toOption = some (true, 4096, false) := by
  decide

end IsoAlloc
