import IsoAlloc.Dispatch
import IsoAlloc.ZoneReuse

/-!
Zone retirement. When a free leaves an internal zone of small chunks with no
live chunk, after more than `ZONE_ALLOC_RETIRE` times its chunk count
allocations, `_iso_free_internal_unlocked` calls
`_iso_alloc_destroy_zone_unlocked` with replacement: the zone's pages are
unmapped and `_iso_new_zone` builds a zone of the same size at the same index
from new mappings. In every root whose size chains hold (every reachable root,
`Sys.Reachable.sizeChains`, and every root a quarantine drain passes through)
the zone that takes the old one's place is fresh: internal and mapped from its
own draw, holding its canary chunks only, with both counters at zero.
-/

namespace IsoAlloc

namespace Root

variable {C : Config} {r r' : Root} {env : NewZoneEnv}

/-- The zone `_iso_new_zone` builds holds its canary chunks only, and both of
its counters are zero. -/
theorem buildZone_fresh {size : Nat} {internal : Bool} {z : Zone} {h : Heap}
    (hok : r.buildZone C env size internal = .ok (z, h)) :
    z.CanaryWords ∧ z.afCount = 0 ∧ z.allocCount = 0 := by
  obtain ⟨z1, hcan, z2, hfill, rfl⟩ := buildZone_ok hok
  have e := (Zone.SlotBookkeeping.fill hfill).trans (.getNextFreeBitSlot z2)
  have hc : z1.CanaryWords :=
    Zone.CanaryWords.createCanaryChunks (z := (freshZone C r env size internal).1) (fun _ _ => .inl rfl) hcan
  refine ⟨hc.slotBookkeeping e, ?_, ?_⟩ <;> rw [e, Zone.createCanaryChunks_ok hcan] <;> rfl

/-- `_iso_alloc_destroy_zone_unlocked` with replacement of an internal zone
`i`, in a root whose size chains hold, leaves at index `i` the zone
`_iso_new_zone` builds from `env`: internal, mapped, of the same chunk size,
with its canary chunks only and both counters at zero; `zones_used` is kept. -/
theorem isoAllocDestroyZoneUnlocked_replaces (hsc : SizeChains C r) {i : Nat}
    (hint : (r.zones i).internal = true) (h : r.isoAllocDestroyZoneUnlocked C env i true = .ok r') :
    (r'.zones i).internal = true ∧ (r'.zones i).mapped = true ∧
      (r'.zones i).chunkSize = (r.zones i).chunkSize ∧
      (r'.zones i).userBase = env.userMap + BitVec.ofNat 64 r.systemPageSize ∧ (r'.zones i).CanaryWords ∧
      (r'.zones i).afCount = 0 ∧ (r'.zones i).allocCount = 0 ∧ (r'.zones i).allocatedSlots = 0 ∧
      r'.zonesUsed = r.zonesUsed := by
  have hlive : (r.zones i).live = true := by simp [Zone.live, hint]
  have hi : i < r.zonesUsed := Nat.lt_of_not_le fun hle => by simpa [hlive] using hsc.dead i hle
  obtain ⟨hidx, hsize⟩ := hsc.live i hi hlive
  rcases isoAllocDestroyZoneUnlocked_ok h with ⟨hp, -⟩ | ⟨-, -, res, r1, hn, rfl⟩ | ⟨-, hr, -⟩
  · rw [hint] at hp; cases hp
  · obtain ⟨-, ⟨hnone, -, -⟩ | ⟨m, z, h1, r2, hm, hb, -, -, rfl⟩⟩ := isoNewZone_ok hn
    · rw [hsize] at hnone; cases hnone
    · rw [hsize] at hm
      cases hm
      obtain ⟨hzi, hzint, hzc, -, -, hzu, -, -, -, hzm⟩ := buildZone_fields hb
      obtain ⟨hcw, haf, hal⟩ := buildZone_fresh hb
      simp only [unmapZone_zonesUsed, hidx] at hzi
      simp only [hzi, setZone_zones_same]
      exact ⟨hzint, hzm, hzc, hzu, hcw, haf, hal, Zone.allocatedSlots_eq_zero hcw, trivial⟩
  · cases hr

/-- The free path's retirement. When `_iso_free_internal_unlocked` frees `p`
into zone `i` and finds the zone retired, the root it returns holds at `i` the
zone `_iso_new_zone` builds from `i`'s draw: internal, mapped, of the chunk
size zone `i` had, with its canary chunks only and both counters at zero. -/
theorem isoFreeInternalUnlocked_retires_zone (hsc : SizeChains C r) {env : OpEnv}
    {t t' : ThreadState} {p : Word} {perm : Bool} {zone : Option Nat} {i : Nat} {z : Zone} {h : Heap}
    (hi : resolveZone C t r p zone = .ok (some i))
    (hz : (r.zones i).isoFreeChunkFromZone C r.heap p perm = .ok (z, h))
    (hret : z.isZoneRetired C = true)
    (hfree : isoFreeInternalUnlocked C env t r p perm zone = .ok (t', r')) :
    (r'.zones i).internal = true ∧ (r'.zones i).mapped = true ∧
      (r'.zones i).chunkSize = (r.zones i).chunkSize ∧
      (r'.zones i).userBase = (env.zoneEnv i).userMap + BitVec.ofNat 64 r.systemPageSize ∧
      (r'.zones i).CanaryWords ∧ (r'.zones i).afCount = 0 ∧ (r'.zones i).allocCount = 0 ∧
      (r'.zones i).allocatedSlots = 0 ∧ r'.zonesUsed = r.zonesUsed := by
  obtain ⟨n, -, -, -, -, -, -, -, rfl, -⟩ := Zone.isoFreeChunkFromZone_ok hz
  have hf := Zone.ChainFields.markFreed (r.zones i) (n <<< 1) perm
  unfold isoFreeInternalUnlocked at hfree
  obtain ⟨_, hi', hfree⟩ := bind_eq_ok.1 hfree
  rw [hi] at hi'
  cases hi'
  obtain ⟨_, hz', hfree⟩ := bind_eq_ok.1 hfree
  rw [hz] at hz'
  cases hz'
  dsimp only at hfree
  rw [if_pos hret] at hfree
  obtain ⟨r2, hd, hfree⟩ := bind_eq_ok.1 hfree
  cases pure_eq_ok.1 hfree
  have hint : ((r.zones i).markFreed (n <<< 1) perm).internal = true := by
    simp only [Zone.isZoneRetired, Bool.decide_and, Bool.and_eq_true, decide_eq_true_eq] at hret
    exact hret.2.2.1
  have hsc' : SizeChains C ({ r with heap := h }.setZone i ((r.zones i).markFreed (n <<< 1) perm)) :=
    hsc.of_frame (.setZone_of rfl rfl hf)
  obtain ⟨h1, h2, h3, h4⟩ := isoAllocDestroyZoneUnlocked_replaces hsc' (by rwa [setZone_zones_same]) hd
  rw [setZone_zones_same, hf.chunkSize] at h3
  exact ⟨h1, h2, h3, h4⟩

end Root

set_option maxRecDepth 20000 in
/-- Initialisation, a 16-byte allocation from zone 0, the zone's allocation
count raised past the retirement bound (a field no chain reads), and the free
of the chunk: the free retires zone 0. -/
theorem small_root_free_retires : ∃ (r r' : Root) (p : Word) (t' : ThreadState),
    Root.SizeChains smallZoneConfig r ∧
      Root.isoFreeInternalUnlocked smallZoneConfig smallOpEnv ThreadState.empty r p false (some 0) = .ok (t', r') ∧
      (r'.zones 0).internal = true ∧ (r'.zones 0).mapped = true ∧
      (r'.zones 0).chunkSize = (r.zones 0).chunkSize ∧
      (r'.zones 0).userBase = (smallOpEnv.zoneEnv 0).userMap + BitVec.ofNat 64 r.systemPageSize ∧
      (r'.zones 0).CanaryWords ∧ (r'.zones 0).afCount = 0 ∧ (r'.zones 0).allocCount = 0 ∧
      (r'.zones 0).allocatedSlots = 0 ∧ r'.zonesUsed = r.zonesUsed := by
  obtain ⟨x, hx⟩ := exists_eq_ok_of_isOk (by decide :
    (Root.initializeGlobalRoot smallZoneConfig smallInitEnv 4096 unmappedHeap >>= fun r =>
      Root.isoAlloc smallZoneConfig smallOpEnv ThreadState.empty r none 16 >>= fun a =>
      let r := a.2.setZone 0 { a.2.zones 0 with allocCount := 10000 }
      (r.zones 0).isoFreeChunkFromZone smallZoneConfig r.heap a.1 false >>= fun b =>
      if b.1.isZoneRetired smallZoneConfig then
        Root.isoFreeInternalUnlocked smallZoneConfig smallOpEnv ThreadState.empty r a.1 false (some 0)
      else throw .loop).isOk = true)
  obtain ⟨r0, hr0, hx⟩ := bind_eq_ok.1 hx
  obtain ⟨⟨p, r1⟩, ha, hx⟩ := bind_eq_ok.1 hx
  obtain ⟨⟨z, h⟩, hz, hx⟩ := bind_eq_ok.1 hx
  split at hx
  · rename_i hret
    rcases Root.isoAlloc_events ha with hch | ⟨hbig, -⟩
    · have hsc : Root.SizeChains smallZoneConfig r1 := Root.events_sizeChains (by decide) (AllocEvent.chain hch)
        (Root.initializeGlobalRoot_sizeChains (by decide) hr0)
      have hsc' : Root.SizeChains smallZoneConfig (r1.setZone 0 { r1.zones 0 with allocCount := 10000 }) :=
        hsc.of_frame (.setZone ⟨rfl, rfl, rfl, id, rfl⟩)
      exact ⟨_, x.2, p, x.1, hsc', hx, Root.isoFreeInternalUnlocked_retires_zone hsc' (by rfl) hz hret hx⟩
    · exact absurd hbig (by decide)
  · cases hx

end IsoAlloc
