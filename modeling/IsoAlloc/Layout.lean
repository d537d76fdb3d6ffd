import IsoAlloc.Dispatch

/-!
The memory layout around the zones and the big-zone records: each mapped zone
and each big record sits between two inaccessible guard pages, inside a
mapping that does not wrap. The heap only ever gains accessible addresses
through a new mapping (`_iso_new_zone`, `_iso_big_alloc`); every other helper
writes memory or takes access away. So the layout holds along every run whose
mappings are fresh, which is what `mmap` guarantees: it never returns pages of
a mapping that is still in place.
-/

namespace IsoAlloc

theorem inRange_iff {a : Word} {n : Nat} (hs : a.toNat + n ≤ 2 ^ 64) (x : Word) :
    inRange a n x = true ↔ a.toNat ≤ x.toNat ∧ x.toNat < a.toNat + n := by
  have ha := a.isLt; have hx := x.isLt
  simp only [inRange, decide_eq_true_eq, BitVec.toNat_sub]
  omega

theorem toNat_add_ofNat {a : Word} {n : Nat} (h : a.toNat + n < 2 ^ 64) :
    (a + BitVec.ofNat 64 n).toNat = a.toNat + n := by
  rw [BitVec.toNat_add, BitVec.toNat_ofNat, Nat.mod_eq_of_lt (by omega : n < 2 ^ 64), Nat.mod_eq_of_lt h]

theorem roundUpPage_of_dvd {page : Nat} {a : Word} (hp : 0 < page) (hd : page ∣ a.toNat) :
    roundUpPage page a = a := by
  obtain ⟨q, hq⟩ := hd
  apply BitVec.eq_of_toNat_eq
  have : (a.toNat + page - 1) / page = q := by
    rw [hq, show page * q + page - 1 = page * q + (page - 1) by omega, Nat.mul_add_div hp,
      Nat.div_eq_of_lt (by omega), Nat.add_zero]
  simp only [roundUpPage, BitVec.toNat_ofNat, this, Nat.mul_comm q, ← hq]
  exact Nat.mod_eq_of_lt a.isLt

/-- No address of `h'` is accessible unless it was in `h`. -/
def AccMono (h h' : Heap) : Prop := ∀ x, h'.acc x = true → h.acc x = true

namespace AccMono

variable {h h' h'' : Heap}

theorem refl (h : Heap) : AccMono h h := fun _ => id

theorem trans (h1 : AccMono h h') (h2 : AccMono h' h'') : AccMono h h'' := fun x hx => h1 x (h2 x hx)

theorem of_eq (he : h'.acc = h.acc) : AccMono h h' := fun x hx => by rwa [he] at hx

theorem protect_false (h : Heap) (a : Word) (n : Nat) : AccMono h (h.protect a n false) := fun x hx => by
  simp only [Heap.protect] at hx
  split at hx
  · cases hx
  · exact hx

end AccMono

namespace Heap

variable {h h' : Heap}

theorem write_acc {a v : Word} (hw : h.write a v = .ok h') : h'.acc = h.acc := by
  unfold write at hw
  split at hw
  · cases pure_eq_ok.1 hw; rfl
  · exact absurd hw throw_ne_ok

theorem memset_acc {a v : Word} {n : Nat} (hm : h.memset a v n = .ok h') : h'.acc = h.acc := by
  unfold memset at hm
  split at hm
  · cases pure_eq_ok.1 hm; rfl
  · exact absurd hm throw_ne_ok

end Heap

namespace Zone

variable {C : Config} {z : Zone} {h h' : Heap}

theorem writeCanary_acc {p : Word} (hw : z.writeCanary C h p = .ok h') : h'.acc = h.acc := by
  obtain ⟨h1, e1, e2⟩ := bind_eq_ok.1 hw
  rw [Heap.write_acc e2, Heap.write_acc e1]

theorem allocChunkMemory_acc {b p : Word} {k : Nat} (hw : z.allocChunkMemory C h b k p = .ok h') :
    h'.acc = h.acc := by
  unfold allocChunkMemory at hw
  split at hw
  · obtain ⟨-, -, hw⟩ := bind_eq_ok.1 hw; exact Heap.write_acc hw
  · cases pure_eq_ok.1 hw; rfl

theorem freeChunkMemory_acc {p : Word} {n : Nat} {perm : Bool}
    (hw : z.freeChunkMemory C h p n perm = .ok h') : h'.acc = h.acc := by
  obtain ⟨h1, hclear, hkeep, hw⟩ := freeChunkMemory_ok hw
  rw [writeCanary_acc hw]
  cases hc : (perm || C.sanitizeChunks)
  · rw [hkeep hc]
  · exact Heap.memset_acc (hclear hc)

theorem canaryLoop_acc {rand : Nat → Word} {k n : Nat} {z' : Zone}
    (hw : canaryLoop C rand k n z h = .ok (z', h')) : h'.acc = h.acc := by
  induction k generalizing n z h with
  | zero => cases pure_eq_ok.1 hw; rfl
  | succ k ih =>
    obtain ⟨⟨z1, h1⟩, e1, hw⟩ := bind_eq_ok.1 hw
    rw [ih hw]
    unfold addCanaryChunk at e1
    split at e1
    · cases pure_eq_ok.1 e1; rfl
    · obtain ⟨h2, e2, e1⟩ := bind_eq_ok.1 e1
      cases pure_eq_ok.1 e1
      exact writeCanary_acc e2

theorem createCanaryChunks_acc {rand : Nat → Word} {z' : Zone}
    (hw : z.createCanaryChunks C rand h = .ok (z', h')) : h'.acc = h.acc := by
  unfold createCanaryChunks at hw
  split at hw
  · cases pure_eq_ok.1 hw; rfl
  · obtain ⟨-, -, hw⟩ := bind_eq_ok.1 hw
    exact canaryLoop_acc hw

theorem isoAllocBitslotFromZone_acc {slot : Nat} {p : Word} {z' : Zone}
    (hw : z.isoAllocBitslotFromZone C h slot = .ok (p, z', h')) : h'.acc = h.acc :=
  allocChunkMemory_acc (isoAllocBitslotFromZone_ok hw).2.2.2.2.2.2

theorem isoFreeChunkFromZone_acc {p : Word} {perm : Bool} {z' : Zone}
    (hw : z.isoFreeChunkFromZone C h p perm = .ok (z', h')) : h'.acc = h.acc := by
  obtain ⟨_, -, -, -, -, -, -, -, -, hm⟩ := isoFreeChunkFromZone_ok hw
  exact freeChunkMemory_acc hm

end Zone

/-- The addresses `[lo, hi)` of a mapping. -/
structure Span where
  lo : Nat
  hi : Nat

/-- Two mappings share no address. -/
def Span.Apart (a b : Span) : Prop := a.hi ≤ b.lo ∨ b.hi ≤ a.lo

/-- No address outside the mapping `s` becomes accessible from `h` to `h'`. -/
def AccMonoOff (s : Span) (h h' : Heap) : Prop :=
  ∀ x : Word, (x.toNat < s.lo ∨ s.hi ≤ x.toNat) → h'.acc x = true → h.acc x = true

namespace AccMonoOff

variable {s : Span} {h h' h'' : Heap}

theorem of_accMono (hm : AccMono h h') : AccMonoOff s h h' := fun x _ => hm x

theorem trans (h1 : AccMonoOff s h h') (h2 : AccMonoOff s h' h'') : AccMonoOff s h h'' :=
  fun x hx hx' => h1 x hx (h2 x hx hx')

theorem protect (h : Heap) {a : Word} {n : Nat} (b : Bool) (hs : a.toNat + n ≤ 2 ^ 64)
    (hlo : s.lo ≤ a.toNat) (hhi : a.toNat + n ≤ s.hi) : AccMonoOff s h (h.protect a n b) :=
  fun x hx hx' => by
    have : inRange a n x = false := by
      cases hr : inRange a n x
      · rfl
      · have := (inRange_iff hs x).1 hr; omega
    simpa only [Heap.protect, this] using hx'

end AccMonoOff

/-- The mapping of a zone whose user pages start at `userBase`: a guard page,
`ZONE_USER_SIZE` bytes of user pages and a guard page. -/
def zoneSpan (C : Config) (page : Nat) (z : Zone) : Span :=
  ⟨z.userBase.toNat - page, z.userBase.toNat + C.zoneUserSize + page⟩

/-- The mapping `_iso_new_zone` draws for the user pages and their two guards. -/
def NewZoneEnv.span (C : Config) (page : Nat) (e : NewZoneEnv) : Span :=
  ⟨e.userMap.toNat, e.userMap.toNat + C.zoneUserSize + 2 * page⟩

/-- The pages of a big record: its payload between its two guard pages. -/
def BigZone.span (page : Nat) (b : BigZone) : Span :=
  ⟨b.userPagesStart.toNat - page, b.userPagesStart.toNat + b.size + page⟩

/-- The user mapping `_iso_big_alloc` draws, at its largest request. -/
def BigAllocEnv.span (C : Config) (page : Nat) (e : BigAllocEnv) : Span :=
  ⟨e.userMap.toNat, e.userMap.toNat + (page <<< C.bigZoneUserPageCountShift) + C.bigSzMax⟩

/-- Every address of `[lo, lo + len)` is inaccessible in `h`. -/
def Guard (h : Heap) (lo len : Nat) : Prop :=
  ∀ x : Word, lo ≤ x.toNat → x.toNat < lo + len → h.acc x = false

namespace Guard

variable {h h' : Heap} {lo len : Nat}

theorem mono (hg : Guard h lo len) (hm : AccMono h h') : Guard h' lo len := fun x h1 h2 => by
  cases hx : h'.acc x
  · rfl
  · exact absurd (hm x hx) (by rw [hg x h1 h2]; decide)

theorem mono_off (hg : Guard h lo len) {s : Span} (hm : AccMonoOff s h h')
    (hap : s.Apart ⟨lo, lo + len⟩) : Guard h' lo len := fun x h1 h2 => by
  cases hx : h'.acc x
  · rfl
  · have := hg x h1 h2
    rw [hm x (by dsimp only [Span.Apart] at hap; omega) hx] at this
    cases this

end Guard

theorem guard_protect (h : Heap) {a : Word} {n : Nat} (hs : a.toNat + n ≤ 2 ^ 64) :
    Guard (h.protect a n false) a.toNat n := fun x h1 h2 => by
  simp [Heap.protect, (inRange_iff hs x).2 ⟨h1, h2⟩]

/-- What the layout needs of the system page size: positive, a multiple of
`ALIGNMENT`, and dividing `ZONE_USER_SIZE`. -/
structure PageOk (C : Config) (page : Nat) : Prop where
  pos : 0 < page
  align : C.alignment ∣ page
  dvd : page ∣ C.zoneUserSize

/-- A zone in the heap `h`: its stored bases masked, its user pages on a page
boundary inside a mapping that does not wrap, and a guard page on each side. -/
structure ZoneLaidOut (C : Config) (page : Nat) (h : Heap) (z : Zone) : Prop where
  masked : z.Masked
  aligned : z.userBase.toNat % page = 0
  low : page ≤ z.userBase.toNat
  high : z.userBase.toNat + C.zoneUserSize + page ≤ 2 ^ 64
  below : Guard h (z.userBase.toNat - page) page
  above : Guard h (z.userBase.toNat + C.zoneUserSize) page

/-- A big record in the heap `h`: its payload inside a mapping that does not
wrap, with a guard page on each side. -/
structure BigLaidOut (page : Nat) (h : Heap) (b : BigZone) : Prop where
  low : page ≤ b.userPagesStart.toNat
  high : b.userPagesStart.toNat + b.size + page ≤ 2 ^ 64
  below : Guard h (b.userPagesStart.toNat - page) page
  above : Guard h (b.userPagesStart.toNat + b.size) page

/-- The layout of a root: every mapped zone and every big record laid out. -/
structure Layout (C : Config) (r : Root) : Prop where
  page : PageOk C r.systemPageSize
  zone : ∀ j, (r.zones j).mapped = true → ZoneLaidOut C r.systemPageSize r.heap (r.zones j)
  big : ∀ e ∈ r.bigZones, BigLaidOut r.systemPageSize r.heap e.2

namespace ZoneLaidOut

variable {C : Config} {page : Nat} {h h' : Heap} {z z' : Zone}

theorem mono (hz : ZoneLaidOut C page h z) (hm : AccMono h h') (hu : z'.userBase = z.userBase)
    (hk : z'.Masked) : ZoneLaidOut C page h' z' where
  masked := hk
  aligned := hu ▸ hz.aligned
  low := hu ▸ hz.low
  high := hu ▸ hz.high
  below := hu ▸ hz.below.mono hm
  above := hu ▸ hz.above.mono hm

theorem mono_off (hz : ZoneLaidOut C page h z) {s : Span} (hm : AccMonoOff s h h')
    (hap : s.Apart (zoneSpan C page z)) : ZoneLaidOut C page h' z :=
  { hz with
    below := hz.below.mono_off hm (by have := hz.low; dsimp only [Span.Apart, zoneSpan] at hap ⊢; omega)
    above := hz.above.mono_off hm (by dsimp only [Span.Apart, zoneSpan] at hap ⊢; omega) }

end ZoneLaidOut

namespace BigLaidOut

variable {page : Nat} {h h' : Heap} {b : BigZone}

theorem mono (hb : BigLaidOut page h b) (hm : AccMono h h') : BigLaidOut page h' b :=
  { hb with below := hb.below.mono hm, above := hb.above.mono hm }

theorem congr (hb : BigLaidOut page h b) {b' : BigZone} (hu : b'.userPagesStart = b.userPagesStart)
    (hs : b'.size = b.size) : BigLaidOut page h b' := by
  obtain ⟨h1, h2, h3, h4⟩ := hb
  exact ⟨hu ▸ h1, hu ▸ hs ▸ h2, hu ▸ h3, hu ▸ hs ▸ h4⟩

theorem mono_off (hb : BigLaidOut page h b) {s : Span} (hm : AccMonoOff s h h')
    (hap : s.Apart (b.span page)) : BigLaidOut page h' b :=
  { hb with
    below := hb.below.mono_off hm (by have := hb.low; dsimp only [Span.Apart, BigZone.span] at hap ⊢; omega)
    above := hb.above.mono_off hm (by dsimp only [Span.Apart, BigZone.span] at hap ⊢; omega) }

end BigLaidOut

/-- `z'` is mapped only if `z` was, at the same base, and stays masked. -/
def Zone.KeepsBase (z z' : Zone) : Prop :=
  z'.mapped = true → z.mapped = true ∧ z'.userBase = z.userBase ∧ (z.Masked → z'.Masked)

theorem Zone.KeepsBase.refl (z : Zone) : z.KeepsBase z := fun h => ⟨h, rfl, id⟩

theorem Zone.KeepsBase.markFreed (z : Zone) (s : Nat) (perm : Bool) : z.KeepsBase (z.markFreed s perm) := by
  unfold Zone.markFreed
  split
  · exact fun h => ⟨h, rfl, id⟩
  · rw [Zone.insertFreeBitSlot_eq]; exact fun h => ⟨h, rfl, id⟩

namespace Root

variable {C : Config} {r r' r'' : Root}

/-- `r'` maps nothing new: the page size is kept, no address becomes
accessible, a zone mapped in `r'` was mapped in `r` at the same base and stays
masked, and every big record of `r'` has the shape of one of `r`. -/
structure MapsNothing (r r' : Root) : Prop where
  page : r'.systemPageSize = r.systemPageSize
  acc : AccMono r.heap r'.heap
  zone : ∀ j, (r.zones j).KeepsBase (r'.zones j)
  big : ∀ e ∈ r'.bigZones, ∃ e0 ∈ r.bigZones,
    e.2.userPagesStart = e0.2.userPagesStart ∧ e.2.size = e0.2.size

namespace MapsNothing

theorem of_heap (hm : AccMono r.heap r'.heap) (hz : r'.zones = r.zones)
    (hp : r'.systemPageSize = r.systemPageSize) (hb : r'.bigZones = r.bigZones) : MapsNothing r r' :=
  ⟨hp, hm, fun _ => hz ▸ .refl _, fun e he => ⟨e, hb ▸ he, rfl, rfl⟩⟩

theorem of_eq (hz : r'.zones = r.zones) (hh : r'.heap = r.heap)
    (hp : r'.systemPageSize = r.systemPageSize) (hb : r'.bigZones = r.bigZones) : MapsNothing r r' :=
  .of_heap (.of_eq (by rw [hh])) hz hp hb

theorem refl (r : Root) : MapsNothing r r := .of_eq rfl rfl rfl rfl

theorem trans (h1 : MapsNothing r r') (h2 : MapsNothing r' r'') : MapsNothing r r'' where
  page := h2.page.trans h1.page
  acc := h1.acc.trans h2.acc
  zone j hj := by
    obtain ⟨hj', hu', hk'⟩ := h2.zone j hj
    obtain ⟨hj0, hu, hk⟩ := h1.zone j hj'
    exact ⟨hj0, hu'.trans hu, hk' ∘ hk⟩
  big e he := by
    obtain ⟨e1, he1, hu, hs⟩ := h2.big e he
    obtain ⟨e0, he0, hu', hs'⟩ := h1.big e1 he1
    exact ⟨e0, he0, hu.trans hu', hs.trans hs'⟩

theorem heap {h : Heap} (hm : AccMono r.heap h) : MapsNothing r { r with heap := h } :=
  .of_heap hm rfl rfl rfl

theorem heapCalls {h : Heap} {calls : List OsCall} (hm : AccMono r.heap h) :
    MapsNothing r { r with heap := h, osCalls := calls } :=
  .of_heap hm rfl rfl rfl

theorem setZone {i : Nat} {z : Zone} (hz : (r.zones i).KeepsBase z) : MapsNothing r (r.setZone i z) where
  page := rfl
  acc := .refl _
  zone j := by
    by_cases hji : j = i
    · subst hji; rw [setZone_zones_same]; exact hz
    · rw [setZone_zones_ne _ _ _ _ hji]; exact .refl _
  big e he := ⟨e, he, rfl, rfl⟩

theorem madviseDontneed (a : Word) (n : Nat) : MapsNothing r (r.madviseDontneed a n) :=
  ⟨rfl, .of_eq rfl, fun _ => .refl _, fun e he => ⟨e, he, rfl, rfl⟩⟩

theorem unmapZone (i : Nat) : MapsNothing r (r.unmapZone C i) where
  page := rfl
  acc := .protect_false _ _ _
  zone j := by
    simp only [Root.unmapZone, Function.update_apply]
    split
    · next hji =>
      subst hji
      exact fun hj => ⟨by simp only [Bool.and_eq_true] at hj; exact hj.1, rfl, id⟩
    · exact .refl _
  big e he := ⟨e, he, rfl, rfl⟩

theorem of_bigOnly (hb : BigOnly r r') : MapsNothing r r' := by
  obtain ⟨he, hs⟩ := hb
  rw [he]
  exact ⟨rfl, .refl _, fun _ => .refl _, hs⟩

theorem dropBigRecord (a : Word) (b : BigZone) : MapsNothing r (r.dropBigRecord a b) where
  page := rfl
  acc := (AccMono.protect_false _ _ _).trans (.protect_false _ _ _)
  zone _ := .refl _
  big e he := ⟨e, (List.mem_filter.1 he).1, rfl, rfl⟩

theorem isoFreeBigZone {a : Word} {perm : Bool} (h : r.isoFreeBigZone C a perm = .ok r') :
    MapsNothing r r' := by
  obtain ⟨b, r1, hb, -, hd, he⟩ := isoFreeBigZone_ok h
  obtain ⟨h1, hm, rfl⟩ := discardBigPayload_ok hd
  have h0 : MapsNothing r ({ r with heap := h1 }.madviseDontneed b.userPagesStart b.size) := by
    refine (MapsNothing.heap (.of_eq ?_)).trans (.madviseDontneed _ _)
    split at hm
    · exact Heap.memset_acc hm
    · cases pure_eq_ok.1 hm; rfl
  rcases he with ⟨-, rfl⟩ | ⟨-, stop, r2, hr2, rfl⟩
  · exact h0.trans (.of_bigOnly (.writeBig hb rfl rfl))
  · exact (h0.trans (.of_bigOnly (unlinkBig_bigOnly hr2))).trans (.dropBigRecord a b)

theorem layout (hm : MapsNothing r r') (hl : Layout C r) : Layout C r' where
  page := hm.page ▸ hl.page
  zone j hj := by
    obtain ⟨hj0, hu, hk⟩ := hm.zone j hj
    have hz := hl.zone j hj0
    rw [hm.page]
    exact hz.mono hm.acc hu (hk hz.masked)
  big e he := by
    obtain ⟨e0, he0, hu, hs⟩ := hm.big e he
    rw [hm.page]
    exact ((hl.big e0 he0).mono hm.acc).congr hu hs

end MapsNothing

theorem spliceWalk_mapsNothing {size index fuel i : Nat} (h : spliceWalk size index fuel i r = .ok r') :
    MapsNothing r r' := by
  rcases spliceWalk_ok h with rfl | ⟨j, -, -, -, rfl⟩
  · exact .refl _
  · exact .setZone fun hj => ⟨hj, rfl, id⟩

theorem spliceNewZone_mapsNothing {z : Zone} (h : spliceNewZone C r z = .ok r') : MapsNothing r r' := by
  rcases spliceNewZone_ok h with ⟨-, rfl⟩ | ⟨-, ⟨-, rfl⟩ | ⟨-, hw⟩⟩
  · exact .refl _
  · exact .of_eq rfl rfl rfl rfl
  · refine MapsNothing.trans ?_ (spliceWalk_mapsNothing hw)
    exact .of_eq rfl rfl rfl rfl

theorem unmapView_mapsNothing (hl : Layout C r) (i n : Nat) :
    MapsNothing r ({ r.setZone i (r.zones i).maskZonePtrs with zonesUsed := n }.unmapZone C i) where
  page := rfl
  acc := .protect_false _ _ _
  zone j := by
    simp only [Root.unmapZone, Function.update_apply]
    split
    · next hji =>
      subst hji
      intro hj
      simp only [setZone_zones_same, Bool.and_eq_true, bne_iff_ne, ne_eq] at hj
      have hk := (hl.zone j hj.1).masked
      exact absurd (by simp [Zone.maskZonePtrs, hk.2, BitVec.xor_assoc]) hj.2
    · next hji => rw [setZone_zones_ne _ _ _ _ hji]; exact .refl _
  big e he := ⟨e, he, rfl, rfl⟩

theorem freshZone_heap {e : NewZoneEnv} (size : Nat) (internal : Bool)
    (hp : PageOk C r.systemPageSize) (ha : e.userMap.toNat % r.systemPageSize = 0)
    (hfit : e.userMap.toNat + C.zoneUserSize + 2 * r.systemPageSize ≤ 2 ^ 64) :
    AccMonoOff (e.span C r.systemPageSize) r.heap (freshZone C r e size internal).2 ∧
      Guard (freshZone C r e size internal).2 e.userMap.toNat r.systemPageSize ∧
      Guard (freshZone C r e size internal).2
        (e.userMap.toNat + r.systemPageSize + C.zoneUserSize) r.systemPageSize := by
  have hP := hp.pos
  have hshift : r.systemPageSize <<< 1 = 2 * r.systemPageSize := by
    rw [Nat.shiftLeft_eq]; omega
  have hG : roundUpPage r.systemPageSize (e.userMap + BitVec.ofNat 64 (C.zoneUserSize + r.systemPageSize)) =
      e.userMap + BitVec.ofNat 64 (C.zoneUserSize + r.systemPageSize) := by
    apply roundUpPage_of_dvd hP
    rw [toNat_add_ofNat (by omega)]
    exact Nat.dvd_add (Nat.dvd_of_mod_eq_zero ha) (Nat.dvd_add hp.dvd (Nat.dvd_refl _))
  have hGn : (e.userMap + BitVec.ofNat 64 (C.zoneUserSize + r.systemPageSize)).toNat =
      e.userMap.toNat + r.systemPageSize + C.zoneUserSize := by
    rw [toNat_add_ofNat (by omega)]; omega
  simp only [freshZone, hG, hshift]
  refine ⟨?_, ?_, ?_⟩
  · exact ((AccMonoOff.of_accMono (.of_eq rfl)).trans
      (.protect _ true (by omega) (by simp [NewZoneEnv.span]) (by simp [NewZoneEnv.span]; omega))).trans
      (.of_accMono ((AccMono.protect_false _ _ _).trans (.protect_false _ _ _)))
  · exact (guard_protect _ (by omega)).mono (.protect_false _ _ _)
  · rw [← hGn]; exact guard_protect _ (by omega)


/-- The zone mappings `E` draws for the indices below `MAX_ZONES`: on a page
boundary, not wrapping, and pairwise apart. -/
structure ZoneDraws (C : Config) (page : Nat) (E : Nat → NewZoneEnv) : Prop where
  aligned : ∀ k < maxZones, (E k).userMap.toNat % page = 0
  fits : ∀ k < maxZones, (E k).userMap.toNat + C.zoneUserSize + 2 * page ≤ 2 ^ 64
  apart : ∀ k < maxZones, ∀ k' < maxZones, k ≠ k' → ((E k).span C page).Apart ((E k').span C page)

/-- Zone draws fresh for the root `r`: none meets a mapped zone of another
index or a big record. -/
structure FreshZoneDraws (C : Config) (r : Root) (E : Nat → NewZoneEnv) : Prop where
  draws : ZoneDraws C r.systemPageSize E
  zone : ∀ k < maxZones, ∀ j, (r.zones j).mapped = true → j ≠ k →
    ((E k).span C r.systemPageSize).Apart (zoneSpan C r.systemPageSize (r.zones j))
  big : ∀ k < maxZones, ∀ e ∈ r.bigZones,
    ((E k).span C r.systemPageSize).Apart (e.2.span r.systemPageSize)

/-- The draws of an entry point fresh for the root `r`: its zone draws, and a
big-zone user mapping that does not wrap and meets no mapped zone and no big
record. -/
structure FreshDraws (C : Config) (r : Root) (env : OpEnv) : Prop where
  zones : FreshZoneDraws C r env.zoneEnv
  bigFits : (env.bigEnv.span C r.systemPageSize).hi ≤ 2 ^ 64
  bigZone : ∀ j, (r.zones j).mapped = true →
    (env.bigEnv.span C r.systemPageSize).Apart (zoneSpan C r.systemPageSize (r.zones j))
  bigBig : ∀ e ∈ r.bigZones, (env.bigEnv.span C r.systemPageSize).Apart (e.2.span r.systemPageSize)

/-- A root met during an entry point that started from `r0` and draws its zone
mappings from `E`: laid out, with the page size of `r0`; each mapped zone
mapped in `r0` at the same base, or made from its own draw; each big record
with the shape of one of `r0`. -/
structure Within (C : Config) (r0 : Root) (E : Nat → NewZoneEnv) (r : Root) : Prop where
  layout : Layout C r
  page : r.systemPageSize = r0.systemPageSize
  zone : ∀ j, (r.zones j).mapped = true →
    ((r0.zones j).mapped = true ∧ (r.zones j).userBase = (r0.zones j).userBase) ∨
    (j < maxZones ∧ (r.zones j).userBase = (E j).userMap + BitVec.ofNat 64 r.systemPageSize)
  big : ∀ e ∈ r.bigZones, ∃ e0 ∈ r0.bigZones,
    e.2.userPagesStart = e0.2.userPagesStart ∧ e.2.size = e0.2.size

namespace Within

variable {r0 : Root} {E : Nat → NewZoneEnv}

theorem start (hl : Layout C r0) : Within C r0 E r0 :=
  ⟨hl, rfl, fun _ hj => .inl ⟨hj, rfl⟩, fun e he => ⟨e, he, rfl, rfl⟩⟩

theorem mapsNothing (hw : Within C r0 E r) (hm : MapsNothing r r') : Within C r0 E r' where
  layout := hm.layout hw.layout
  page := hm.page.trans hw.page
  zone j hj := by
    obtain ⟨hj0, hu, -⟩ := hm.zone j hj
    rw [hu, hm.page]
    exact hw.zone j hj0
  big e he := by
    obtain ⟨e1, he1, hu, hs⟩ := hm.big e he
    obtain ⟨e0, he0, hu', hs'⟩ := hw.big e1 he1
    exact ⟨e0, he0, hu.trans hu', hs.trans hs'⟩

theorem apart_zone (hw : Within C r0 E r) (hf : FreshZoneDraws C r0 E) {k j : Nat} (hk : k < maxZones)
    (hj : (r.zones j).mapped = true) (hjk : j ≠ k) :
    ((E k).span C r.systemPageSize).Apart (zoneSpan C r.systemPageSize (r.zones j)) := by
  rw [hw.page]
  rcases hw.zone j hj with ⟨hj0, hu⟩ | ⟨hjm, hu⟩
  · unfold zoneSpan; rw [hu]; exact hf.zone k hk j hj0 hjk
  · have hfit := hf.draws.fits j hjm
    have hP := hw.layout.page.pos
    have := hf.draws.apart k hk j hjm (Ne.symm hjk)
    rw [hw.page] at hu hP
    unfold zoneSpan; rw [hu, toNat_add_ofNat (by omega)]
    dsimp only [NewZoneEnv.span, Span.Apart] at this ⊢; omega

theorem apart_big (hw : Within C r0 E r) (hf : FreshZoneDraws C r0 E) {k : Nat} (hk : k < maxZones)
    {e : Word × BigZone} (he : e ∈ r.bigZones) :
    ((E k).span C r.systemPageSize).Apart (e.2.span r.systemPageSize) := by
  obtain ⟨e0, he0, hu, hs⟩ := hw.big e he
  rw [hw.page]; unfold BigZone.span; rw [hu, hs]
  exact hf.big k hk e0 he0

/-- `_iso_new_zone` at `zones_used`, from its own draw, keeps the layout. -/
theorem isoNewZone (hw : Within C r0 E r) (hf : FreshZoneDraws C r0 E) {k size : Nat} {internal : Bool}
    {res : Option Nat} (hk : r.zonesUsed = k) (h : r.isoNewZone C (E k) size internal = .ok (res, r')) :
    Within C r0 E r' := by
  subst hk
  obtain ⟨hmax, ⟨-, -, rfl⟩ | ⟨m, z, h1, r2, -, hb, hs, -, rfl⟩⟩ := isoNewZone_ok h
  · exact hw
  obtain ⟨hi, -, -, -, hups, hub, hbs, hbb, -, -⟩ := buildZone_fields hb
  obtain ⟨z1, hcan, -⟩ := buildZone_ok hb
  have hP := hw.layout.page.pos
  have hal := hf.draws.aligned _ hmax
  have hfit := hf.draws.fits _ hmax
  rw [← hw.page] at hal hfit
  obtain ⟨hoff, hbelow, habove⟩ := freshZone_heap m internal hw.layout.page hal hfit
  have hacc := AccMono.of_eq (Zone.createCanaryChunks_acc hcan)
  have hoff1 : AccMonoOff ((E r.zonesUsed).span C r.systemPageSize) r.heap h1 :=
    hoff.trans (.of_accMono hacc)
  have hspl := spliceNewZone_mapsNothing hs
  have hu : z.userBase.toNat = (E r.zonesUsed).userMap.toNat + r.systemPageSize := by
    rw [hub, toNat_add_ofNat (by omega)]
  have hnew : ZoneLaidOut C r.systemPageSize r2.heap z.maskZonePtrs :=
    { masked := (Zone.maskZonePtrs_masked_iff z).2 ⟨hups.trans hub.symm, hbs.trans hbb.symm⟩
      aligned := by
        show z.userBase.toNat % _ = 0
        rw [hu, Nat.add_mod_right, hal]
      low := by show _ ≤ z.userBase.toNat; omega
      high := by show z.userBase.toNat + _ + _ ≤ _; omega
      below := by
        show Guard _ (z.userBase.toNat - _) _
        rw [hu, Nat.add_sub_cancel]
        exact (hbelow.mono hacc).mono hspl.acc
      above := by
        show Guard _ (z.userBase.toNat + _) _
        rw [hu]
        exact (habove.mono hacc).mono hspl.acc }
  have hpage : r2.systemPageSize = r.systemPageSize := hspl.page
  refine ⟨⟨hpage ▸ hw.layout.page, fun j hj => ?_, fun e he => ?_⟩, hpage.trans hw.page,
    fun j hj => ?_, fun e he => ?_⟩
  · rw [setZone_systemPageSize, hpage]
    by_cases hjk : j = z.index
    · subst hjk; rw [setZone_zones_same]; exact hnew
    · rw [setZone_zones_ne _ _ _ _ hjk] at hj ⊢
      obtain ⟨hj1, hu1, hk1⟩ := hspl.zone j hj
      have hz := hw.layout.zone j hj1
      exact (hz.mono_off hoff1 (hw.apart_zone hf hmax hj1 (hi ▸ hjk))).mono hspl.acc hu1 (hk1 hz.masked)
  · obtain ⟨e0, he0, hu1, hs1⟩ := hspl.big e he
    rw [setZone_systemPageSize, hpage]
    exact (((hw.layout.big e0 he0).mono_off hoff1 (hw.apart_big hf hmax he0)).mono hspl.acc).congr hu1 hs1
  · rw [setZone_systemPageSize, hpage]
    by_cases hjk : j = z.index
    · subst hjk
      rw [setZone_zones_same, Zone.maskZonePtrs_userBase, hub, hi]
      exact .inr ⟨hmax, rfl⟩
    · rw [setZone_zones_ne _ _ _ _ hjk] at hj ⊢
      obtain ⟨hj1, hu1, -⟩ := hspl.zone j hj
      rw [hu1]
      exact hw.zone j hj1
  · obtain ⟨e1, he1, hu1, hs1⟩ := hspl.big e he
    obtain ⟨e0, he0, hu0, hs0⟩ := hw.big e1 he1
    exact ⟨e0, he0, hu1.trans hu0, hs1.trans hs0⟩

/-- `_iso_alloc_destroy_zone_unlocked` of zone `i`, re-creating it from draw
`i` on retirement, keeps the layout. -/
theorem destroy (hw : Within C r0 E r) (hf : FreshZoneDraws C r0 E) (hsc : SizeChains C r) {i : Nat}
    {replace : Bool} (h : r.isoAllocDestroyZoneUnlocked C (E i) i replace = .ok r') : Within C r0 E r' := by
  rcases isoAllocDestroyZoneUnlocked_ok h with ⟨-, hm, -, h1, hmem, hd⟩ | ⟨hint, -, res, r1, hn, rfl⟩ |
    ⟨-, -, rfl⟩
  · have hacc := AccMono.of_eq (Heap.memset_acc hmem)
    rcases destroyPrivate_ok hd with ⟨-, calls, rfl⟩ | ⟨-, z1, h2, z2, zr, hcan, hfill, rfl, rfl⟩
    · refine hw.mapsNothing ((((MapsNothing.heapCalls (hacc.trans (.protect_false _ _ _))).trans
        (.setZone ?_)).trans (.madviseDontneed _ _)).trans (.madviseDontneed _ _))
      intro hz; cases hz
    · refine hw.mapsNothing ((((MapsNothing.heap (hacc.trans (.of_eq (Zone.createCanaryChunks_acc hcan)))).trans
        (.setZone ?_)).trans (.madviseDontneed _ _)).trans (.madviseDontneed _ _))
      rw [(Zone.SlotBookkeeping.fill hfill).trans (.getNextFreeBitSlot z2), Zone.createCanaryChunks_ok hcan]
      exact fun _ => ⟨hm, rfl, fun hk => (Zone.maskZonePtrs_masked_iff _).2 ((Zone.maskZonePtrs_unmasked_iff _).2 hk)⟩
  · have hidx : (r.zones i).index = i := (hsc.live i (Nat.lt_of_not_le fun hle => by
      simpa [Zone.live, hint] using hsc.dead i hle) (by simp [Zone.live, hint])).1
    have hw1 := hw.mapsNothing (unmapView_mapsNothing hw.layout i (r.zones i).index)
    exact (hw1.isoNewZone hf hidx hn).mapsNothing (.of_eq rfl rfl rfl rfl)
  · exact hw.mapsNothing (unmapView_mapsNothing hw.layout i r.zonesUsed)

/-- One event keeps the layout. -/
theorem event (hw : Within C r0 E r) (hf : FreshZoneDraws C r0 E) (hsc : SizeChains C r)
    (he : EventOf C E r r') : Within C r0 E r' := by
  cases he with
  | usable h =>
    refine hw.mapsNothing (.setZone ?_)
    rw [Zone.isZoneUsable_slotBookkeeping h]
    exact .refl _
  | allocSlot _ h =>
    have hacc := Zone.isoAllocBitslotFromZone_acc h
    obtain ⟨-, -, -, -, -, rfl, -⟩ := Zone.isoAllocBitslotFromZone_ok h
    exact hw.mapsNothing ((MapsNothing.heap (.of_eq hacc)).trans (.setZone fun hz =>
      ⟨hz, rfl, fun hk => (Zone.maskZonePtrs_masked_iff _).2 ((Zone.maskZonePtrs_unmasked_iff _).2 hk)⟩))
  | freeChunk h =>
    have hacc := Zone.isoFreeChunkFromZone_acc h
    obtain ⟨n, -, -, -, -, -, -, -, rfl, -⟩ := Zone.isoFreeChunkFromZone_ok h
    exact hw.mapsNothing ((MapsNothing.heap (.of_eq hacc)).trans (.setZone (.markFreed _ _ _)))
  | newZone h => exact hw.isoNewZone hf rfl h
  | destroy h => exact hw.destroy hf hsc h
  | bigFree h => exact hw.mapsNothing (.isoFreeBigZone h)
  | memset h => exact hw.mapsNothing (.heap (.of_eq (Heap.memset_acc h)))

/-- Every run of events keeps the layout and the size chains. -/
theorem run (hC : smallestChunkSz ≤ C.smallSzMax) (hw : Within C r0 E r) (hf : FreshZoneDraws C r0 E)
    (hsc : SizeChains C r) (hr : Relation.ReflTransGen (EventOf C E) r r') :
    Within C r0 E r' ∧ SizeChains C r' := by
  induction hr with
  | refl => exact ⟨hw, hsc⟩
  | tail _ he ih => exact ⟨ih.1.event hf ih.2 he, event_sizeChains hC he.event ih.2⟩

end Within

end Root

end IsoAlloc
