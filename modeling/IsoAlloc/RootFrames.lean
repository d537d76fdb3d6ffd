import IsoAlloc.ZoneFrames

/-!
What each root-level helper may change, stated once so that the invariants
over runs never unfold the helpers again: the big-zone operations touch only
the big-zone list and the protection of a new record's pages, and
`_iso_new_zone` builds one record at `zones_used`, splices it and counts it.
-/

namespace IsoAlloc

namespace Root

variable {C : Config} {r r' : Root}

theorem mem_of_lookup_eq_some {a : Word} {b : BigZone} :
    ∀ {l : List (Word × BigZone)}, l.lookup a = some b → (a, b) ∈ l
  | [], h => by simp at h
  | (k, v) :: l, h => by
    rw [List.lookup_cons] at h
    split at h
    · next hk => cases h; rw [beq_iff_eq.1 hk]; exact List.mem_cons_self _ _
    · exact List.mem_cons_of_mem _ (mem_of_lookup_eq_some h)

theorem mem_of_readBig {a : Word} {b : BigZone} (h : r.readBig a = .ok b) : (a, b) ∈ r.bigZones := by
  unfold readBig at h
  split at h
  · cases pure_eq_ok.1 h; exact mem_of_lookup_eq_some ‹_›
  · exact absurd h throw_ne_ok

theorem lookup_writeBig {a : Word} {b' : BigZone} : ∀ l : List (Word × BigZone),
    (l.map fun e => if e.1 = a then (a, b') else e).lookup a = (l.lookup a).map fun _ => b'
  | [] => rfl
  | (k, v) :: l => by
    by_cases hk : k = a
    · subst hk; simp [List.lookup_cons]
    · have hb : (a == k) = false := by simpa [beq_iff_eq] using Ne.symm hk
      simp only [List.map_cons, if_neg hk, List.lookup_cons, hb, lookup_writeBig l]

theorem readBig_writeBig {a : Word} {b b' : BigZone} (hb : r.readBig a = .ok b) :
    (r.writeBig a b').readBig a = .ok b' := by
  unfold readBig at hb
  split at hb
  · next hl => simp only [readBig, writeBig, lookup_writeBig, hl, Option.map_some']; rfl
  · exact absurd hb throw_ne_ok

/-- `r'` differs from `r` at most in the big-zone list, and each of its
records has the payload address and size of a record of `r`. -/
structure BigOnly (r r' : Root) : Prop where
  eq : r' = { r with bigZones := r'.bigZones, bigZoneHead := r'.bigZoneHead }
  shapes : ∀ e ∈ r'.bigZones, ∃ e0 ∈ r.bigZones,
    e.2.userPagesStart = e0.2.userPagesStart ∧ e.2.size = e0.2.size

theorem BigOnly.refl (r : Root) : BigOnly r r := ⟨rfl, fun e he => ⟨e, he, rfl, rfl⟩⟩

theorem BigOnly.trans {r'' : Root} (h1 : BigOnly r r') (h2 : BigOnly r' r'') : BigOnly r r'' where
  eq := by rw [h2.eq, h1.eq]
  shapes e he := by
    obtain ⟨e1, he1, hu, hs⟩ := h2.shapes e he
    obtain ⟨e0, he0, hu', hs'⟩ := h1.shapes e1 he1
    exact ⟨e0, he0, hu.trans hu', hs.trans hs'⟩

theorem BigOnly.writeBig {a : Word} {b b' : BigZone} (hb : r.readBig a = .ok b)
    (hu : b'.userPagesStart = b.userPagesStart) (hs : b'.size = b.size) :
    BigOnly r (r.writeBig a b') where
  eq := rfl
  shapes e he := by
    simp only [Root.writeBig, List.mem_map] at he
    obtain ⟨e0, he0, rfl⟩ := he
    split
    · exact ⟨(a, b), mem_of_readBig hb, hu, hs⟩
    · exact ⟨e0, he0, rfl, rfl⟩

theorem unlinkWalk_bigOnly {target : Word} {tb : BigZone} {fuel : Nat} {a stop : Word}
    (h : unlinkWalk target tb fuel a r = .ok (stop, r')) : BigOnly r r' := by
  induction fuel generalizing a r with
  | zero => exact absurd h throw_ne_ok
  | succ fuel ih =>
    simp only [unlinkWalk] at h
    split at h
    · cases pure_eq_ok.1 h; exact .refl _
    simp only [pure_bind] at h
    obtain ⟨b, hb, h⟩ := bind_eq_ok.1 h
    obtain ⟨-, -, h⟩ := bind_eq_ok.1 h
    split at h
    · cases pure_eq_ok.1 h; exact .writeBig hb rfl rfl
    · exact ih h

theorem unlinkBig_bigOnly {a stop : Word} {b : BigZone} (h : r.unlinkBig a b = .ok (stop, r')) :
    BigOnly r r' := by
  unfold unlinkBig at h
  split at h
  · cases pure_eq_ok.1 h; exact ⟨rfl, (BigOnly.refl r).shapes⟩
  · exact unlinkWalk_bigOnly h

theorem discardBigPayload_ok {b : BigZone} (h : r.discardBigPayload C b = .ok r') :
    ∃ h1, (if C.sanitizeChunks then r.heap.memset b.userPagesStart poisonWord b.size else pure r.heap) =
      .ok h1 ∧ r' = { r with heap := h1 }.madviseDontneed b.userPagesStart b.size := by
  unfold discardBigPayload at h
  obtain ⟨h1, hm, h⟩ := bind_eq_ok.1 h
  exact ⟨h1, hm, (pure_eq_ok.1 h).symm⟩

/-- `iso_free_big_zone` discards the payload of the record it frees, then
changes only the big-zone list, and on a permanent free drops the record. -/
theorem isoFreeBigZone_ok {a : Word} {perm : Bool} (h : r.isoFreeBigZone C a perm = .ok r') :
    ∃ b r1, r.readBig a = .ok b ∧ b.free = false ∧ r.discardBigPayload C b = .ok r1 ∧
      (perm = false ∧ r' = r1.writeBig a { b with free := true } ∨
        perm = true ∧ ∃ stop r2, r1.unlinkBig a b = .ok (stop, r2) ∧ r' = r2.dropBigRecord a b) := by
  simp only [isoFreeBigZone, bind_eq_ok, pure_bind] at h
  obtain ⟨b, hb, h⟩ := h
  split at h
  · simp at h
  next hfree =>
  obtain ⟨r1, hd, h⟩ := bind_eq_ok.1 h
  refine ⟨b, r1, hb, Bool.eq_false_iff.2 hfree, hd, ?_⟩
  split at h
  · next hp => exact .inl ⟨hp, (pure_eq_ok.1 h).symm⟩
  next hp =>
  obtain ⟨⟨stop, r2⟩, h2, h⟩ := bind_eq_ok.1 h
  split at h
  · simp only [throw_bind] at h; exact absurd h throw_ne_ok
  · exact .inr ⟨Bool.not_eq_false _ ▸ hp, stop, r2, h2, (pure_eq_ok.1 h).symm⟩

theorem isoFreeBigZone_frame {a : Word} {perm : Bool} (h : r.isoFreeBigZone C a perm = .ok r') :
    ∃ x len, r' = { (r.madviseDontneed x len) with
                      heap := r'.heap, osCalls := r'.osCalls,
                      bigZones := r'.bigZones, bigZoneHead := r'.bigZoneHead } := by
  obtain ⟨b, r1, -, -, hd, he⟩ := isoFreeBigZone_ok h
  obtain ⟨h1, -, rfl⟩ := discardBigPayload_ok hd
  refine ⟨b.userPagesStart, b.size, ?_⟩
  rcases he with ⟨-, rfl⟩ | ⟨-, stop, r2, hr2, rfl⟩
  · rfl
  · rw [(unlinkBig_bigOnly hr2).eq]; rfl

theorem linkAfter_bigOnly {last a : Word} (h : r.linkAfter last a = .ok r') : BigOnly r r' := by
  unfold linkAfter at h
  split at h
  · obtain ⟨lb, hlb, h⟩ := bind_eq_ok.1 h
    cases pure_eq_ok.1 h; exact .writeBig hlb rfl rfl
  · cases pure_eq_ok.1 h; exact .refl _

/-- `_iso_big_alloc` changes only the big-zone list and the protection of a
new record's pages. -/
theorem isoBigAlloc_frame {env : BigAllocEnv} {size : Nat} {p : Word}
    (h : r.isoBigAlloc C env size = .ok (p, r')) :
    r' = { r with bigZones := r'.bigZones, bigZoneHead := r'.bigZoneHead, heap := r'.heap } := by
  simp only [isoBigAlloc, pure_bind, throw_bind, ite_throw_eq_ok] at h
  obtain ⟨-, h⟩ := h
  obtain ⟨⟨found, last⟩, -, h⟩ := bind_eq_ok.1 h
  dsimp only at h
  split at h
  · obtain ⟨r1, h1, h⟩ := bind_eq_ok.1 h
    cases pure_eq_ok.1 h
    rw [(linkAfter_bigOnly h1).eq]
  · obtain ⟨b, -, h⟩ := bind_eq_ok.1 h
    obtain ⟨-, -, h⟩ := bind_eq_ok.1 h
    cases pure_eq_ok.1 h; rfl

theorem buildZone_ok {env : NewZoneEnv} {size : Nat} {internal : Bool} {z : Zone} {h : Heap}
    (hok : r.buildZone C env size internal = .ok (z, h)) :
    ∃ z1, (freshZone C r env size internal).1.createCanaryChunks C env.canaryRand
        (freshZone C r env size internal).2 = .ok (z1, h) ∧
      ∃ z2, z1.fillFreeBitSlotCache C env.fillRand = .ok z2 ∧ z = z2.getNextFreeBitSlot.2 := by
  obtain ⟨⟨z1, h1⟩, hcan, hok⟩ := bind_eq_ok.1 hok
  obtain ⟨z2, hfill, hok⟩ := bind_eq_ok.1 hok
  cases pure_eq_ok.1 hok
  exact ⟨z1, hcan, z2, hfill, rfl⟩

theorem buildZone_fields {env : NewZoneEnv} {size : Nat} {internal : Bool} {z : Zone} {h : Heap}
    (hok : r.buildZone C env size internal = .ok (z, h)) :
    z.index = r.zonesUsed ∧ z.internal = internal ∧ z.chunkSize = size ∧ z.nextSzIndex = 0 ∧
      z.userPagesStart = env.userMap + BitVec.ofNat 64 r.systemPageSize ∧
      z.userBase = env.userMap + BitVec.ofNat 64 r.systemPageSize ∧
      z.bitmapStart = env.bitmapMap + BitVec.ofNat 64 r.systemPageSize ∧
      z.bitmapBase = env.bitmapMap + BitVec.ofNat 64 r.systemPageSize ∧
      z.pointerMask = env.pointerMask ∧ z.mapped = true := by
  obtain ⟨z1, hcan, z2, hfill, rfl⟩ := buildZone_ok hok
  have e := (Zone.SlotBookkeeping.fill hfill).trans (.getNextFreeBitSlot z2)
  rw [e, Zone.createCanaryChunks_ok hcan]
  exact ⟨rfl, rfl, rfl, rfl, rfl, rfl, rfl, rfl, rfl, rfl⟩

theorem isoNewZone_ok {env : NewZoneEnv} {size : Nat} {internal : Bool} {res : Option Nat}
    (h : r.isoNewZone C env size internal = .ok (res, r')) :
    r.zonesUsed < maxZones ∧
    ((newZoneSize C size = none ∧ res = none ∧ r' = r) ∨
     ∃ m z h1 r2, newZoneSize C size = some m ∧ r.buildZone C env m internal = .ok (z, h1) ∧
       spliceNewZone C { r with heap := h1, osCalls := r.osCalls ++
         [.madvise z.bitmapStart z.bitmapSize, .madvise z.userPagesStart C.zoneUserSize] } z = .ok r2 ∧
       res = some z.index ∧
       r' = { r2.setZone z.index z.maskZonePtrs with zonesUsed := r2.zonesUsed + 1 }) := by
  simp only [isoNewZone, pure_bind, throw_bind, ite_throw_eq_ok] at h
  obtain ⟨hmax, h⟩ := h
  refine ⟨by unfold maxZones at *; omega, ?_⟩
  split at h
  · cases pure_eq_ok.1 h; exact .inl ⟨‹_›, rfl, rfl⟩
  rename_i m hm
  obtain ⟨⟨z, h1⟩, hb, h⟩ := bind_eq_ok.1 h
  obtain ⟨r2, hs, h⟩ := bind_eq_ok.1 h
  cases pure_eq_ok.1 h
  exact .inr ⟨m, z, h1, r2, hm, hb, hs, rfl, rfl⟩
theorem spliceWalk_ok {size index fuel i : Nat} (h : spliceWalk size index fuel i r = .ok r') :
    r' = r ∨ ∃ j, j < r.zonesUsed ∧ (r.zones j).chunkSize = size ∧ (r.zones j).nextSzIndex = 0 ∧
      r' = r.setZone j { r.zones j with nextSzIndex := index } := by
  induction fuel generalizing i with
  | zero => exact absurd h throw_ne_ok
  | succ fuel ih =>
    simp only [spliceWalk] at h
    split at h
    next hi =>
      split at h
      · exact absurd h throw_ne_ok
      next hsz =>
        split at h
        · exact ih h
        next hn => exact .inr ⟨i, hi, not_not.1 hsz, not_not.1 hn, (pure_eq_ok.1 h).symm⟩
    · exact .inl (pure_eq_ok.1 h).symm

theorem spliceNewZone_ok {z : Zone} (h : spliceNewZone C r z = .ok r') :
    (z.internal = false ∧ r' = r) ∨
    (z.internal = true ∧
      let r1 := { r with
        chunkLookupTable := Function.update r.chunkLookupTable (C.chunkTableBucket z.userPagesStart) z.index }
      (r.zoneLookupTable z.chunkSize = 0 ∧
        r' = { r1 with zoneLookupTable := Function.update r.zoneLookupTable z.chunkSize z.index }) ∨
      (r.zoneLookupTable z.chunkSize ≠ 0 ∧
        spliceWalk z.chunkSize z.index (r.zonesUsed + 1) (r.zoneLookupTable z.chunkSize) r1 = .ok r')) := by
  unfold spliceNewZone at h
  split at h
  next hp => exact .inl ⟨hp, (pure_eq_ok.1 h).symm⟩
  next hp =>
    refine .inr ⟨by simpa using hp, ?_⟩
    dsimp only at h ⊢
    split at h
    next ht => exact .inl ⟨ht, (pure_eq_ok.1 h).symm⟩
    next ht => exact .inr ⟨ht, h⟩

theorem spliceNewZone_zonesUsed {z : Zone} (h : spliceNewZone C r z = .ok r') :
    r'.zonesUsed = r.zonesUsed := by
  rcases spliceNewZone_ok h with ⟨-, rfl⟩ | ⟨-, ⟨-, rfl⟩ | ⟨-, hw⟩⟩
  · rfl
  · rfl
  · rcases spliceWalk_ok hw with rfl | ⟨j, -, -, -, rfl⟩ <;> rfl

theorem destroyPrivate_ok {env : NewZoneEnv} {i : Nat} {z : Zone} {h : Heap}
    (hok : destroyPrivate C r env i z h = .ok r') :
    (C.neverReuseZones = true ∧ ∃ calls,
      r' = (({ r with heap := h.protect z.userPagesStart C.zoneUserSize false, osCalls := calls }.setZone i
        { Zone.zeroed with isFull := true }).madviseDontneed 0 0).madviseDontneed 0 C.zoneUserSize) ∨
    (C.neverReuseZones = false ∧ ∃ z1 h1 z2 zr,
      { z with internal := true, isFull := false }.createCanaryChunks C env.canaryRand h = .ok (z1, h1) ∧
      z1.fillFreeBitSlotCache C env.fillRand = .ok z2 ∧ zr = z2.getNextFreeBitSlot.2.maskZonePtrs ∧
      r' = (({ r with heap := h1 }.setZone i zr).madviseDontneed zr.bitmapStart zr.bitmapSize).madviseDontneed
        zr.userPagesStart C.zoneUserSize) := by
  unfold destroyPrivate at hok
  split at hok
  next hC => exact .inl ⟨hC, _, (pure_eq_ok.1 hok).symm⟩
  next hC =>
    obtain ⟨⟨z1, h1⟩, hcan, hok⟩ := bind_eq_ok.1 hok
    obtain ⟨z2, hfill, hok⟩ := bind_eq_ok.1 hok
    exact .inr ⟨by simpa using hC, z1, h1, z2, _, hcan, hfill, rfl, (pure_eq_ok.1 hok).symm⟩

/-- Everything `_iso_alloc_destroy_zone_unlocked` can do: wipe a mapped
private zone and hand it to the private branch, retire an internal zone by
re-creating it at its own index under a lowered `zones_used`, or unmap it. -/
theorem isoAllocDestroyZoneUnlocked_ok {env : NewZoneEnv} {i : Nat} {replace : Bool}
    (hok : r.isoAllocDestroyZoneUnlocked C env i replace = .ok r') :
    ((r.zones i).internal = false ∧ (r.zones i).mapped = true ∧
      (r.zones i).unmaskBitmapPtr = (r.zones i).bitmapBase ∧
      ∃ h, r.heap.memset (r.zones i).unmaskUserPtr 0 C.zoneUserSize = .ok h ∧
        destroyPrivate C r env i { (r.zones i).maskZonePtrs with
          bitmap := fun k => if k < (r.zones i).getMaxBitmaskIndex then 0 else (r.zones i).bitmap k } h = .ok r') ∨
    ((r.zones i).internal = true ∧ replace = true ∧ ∃ res r1,
      ({ r.setZone i (r.zones i).maskZonePtrs with zonesUsed := (r.zones i).index }.unmapZone C i).isoNewZone
        C env (r.zones i).chunkSize true = .ok (res, r1) ∧ r' = { r1 with zonesUsed := r.zonesUsed }) ∨
    ((r.zones i).internal = true ∧ replace = false ∧ r' = (r.setZone i (r.zones i).maskZonePtrs).unmapZone C i) := by
  simp only [isoAllocDestroyZoneUnlocked, Zone.maskZonePtrs_internal] at hok
  split at hok
  next hp =>
    obtain ⟨u, hchk, hok⟩ := bind_eq_ok.1 hok
    obtain ⟨hm, hb⟩ := Zone.checkBitmap_eq_ok.1 hchk
    obtain ⟨h, hmem, hok⟩ := bind_eq_ok.1 hok
    exact .inl ⟨hp, hm, hb, h, hmem, hok⟩
  next hp =>
    have hint : (r.zones i).internal = true := by simpa using hp
    split at hok
    next hr =>
      obtain ⟨⟨res, r1⟩, h1, hok⟩ := bind_eq_ok.1 hok
      exact .inr (.inl ⟨hint, hr, res, r1, h1, (pure_eq_ok.1 hok).symm⟩)
    next hr => exact .inr (.inr ⟨hint, by simpa using hr, (pure_eq_ok.1 hok).symm⟩)

end Root

end IsoAlloc
