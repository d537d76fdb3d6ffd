import IsoAlloc.SizeChain

/-!
What the size chains give the code. In every reachable root the chain of each
size, followed from `zone_lookup_table` while the index is below
`zones_used`, ends within the `zones_used + 1` steps the walks of the code
allow, goes up, and visits only internal zones of that size. So the splice
walk of `_iso_new_zone` never fails, the chain loop of `iso_find_zone_fit`
fails only where a zone's own fit test faults on its bitmap, and the link
checks of `_verify_zone` pass.
-/

namespace IsoAlloc

/-- Every failure of `x` is a fault: it neither aborts nor loops. -/
def OnlyFaults {α : Type} (x : Except Stop α) : Prop := ∀ e, x = .error e → ∃ a, e = .segv a

namespace OnlyFaults

variable {α β : Type} {x y : Except Stop α}

theorem of_ok {a : α} (h : x = .ok a) : OnlyFaults x := by
  intro e he; rw [h] at he; cases he

theorem pure (a : α) : OnlyFaults (pure a : Except Stop α) := of_ok rfl

theorem segv (a : Word) : OnlyFaults (throw (.segv a) : Except Stop α) :=
  fun _ he => ⟨a, (Except.error.inj he).symm⟩

theorem bind {f : α → Except Stop β} (hx : OnlyFaults x) (hf : ∀ a, x = .ok a → OnlyFaults (f a)) :
    OnlyFaults (x >>= f) := by
  intro e he
  cases hxe : x with
  | error e' => rw [hxe] at he; cases he; exact hx _ hxe
  | ok a => rw [hxe] at he; exact hf a hxe e he

theorem ite {c : Prop} [Decidable c] (hx : c → OnlyFaults x) (hy : ¬c → OnlyFaults y) :
    OnlyFaults (if c then x else y) := by
  split
  · exact hx ‹_›
  · exact hy ‹_›

end OnlyFaults

theorem Heap.write_onlyFaults (h : Heap) (a v : Word) : OnlyFaults (h.write a v) :=
  .ite (fun _ => .pure _) fun _ => .segv _

namespace Zone

variable {C : Config} (z : Zone)

theorem checkBitmap_onlyFaults (bm : Word) : OnlyFaults (z.checkBitmap bm) :=
  .ite (fun _ => .pure _) fun _ => .segv _

theorem writeCanary_onlyFaults (h : Heap) (p : Word) : OnlyFaults (z.writeCanary C h p) :=
  .bind (Heap.write_onlyFaults _ _ _) fun _ _ => Heap.write_onlyFaults _ _ _

theorem addCanaryChunk_onlyFaults (h : Heap) (i : Nat) : OnlyFaults (z.addCanaryChunk C h i) :=
  .ite (fun _ => .pure _) fun _ => .bind (writeCanary_onlyFaults _ _ _) fun _ _ => .pure _

theorem canaryLoop_onlyFaults (rand : Nat → Word) :
    ∀ k n z h, OnlyFaults (canaryLoop C rand k n z h)
  | 0, _, _, _ => .pure _
  | k + 1, n, _, _ =>
    .bind (addCanaryChunk_onlyFaults _ _ _) fun _ _ => canaryLoop_onlyFaults rand k (n + 1) _ _

theorem createCanaryChunks_onlyFaults (rand : Nat → Word) (h : Heap) :
    OnlyFaults (z.createCanaryChunks C rand h) :=
  .ite (fun _ => .pure _) fun _ =>
    .bind (checkBitmap_onlyFaults _ _) fun _ _ => canaryLoop_onlyFaults _ _ _ _ _

theorem fillFreeBitSlotCache_onlyFaults (rand : Nat → Word) :
    OnlyFaults (z.fillFreeBitSlotCache C rand) :=
  .bind (checkBitmap_onlyFaults _ _) fun _ _ => .pure _

theorem refillIfEmpty_onlyFaults (rand : Nat → Word) : OnlyFaults (z.refillIfEmpty C rand) :=
  .ite (fun _ => fillFreeBitSlotCache_onlyFaults _ _) fun _ => .pure _

theorem isoScanZoneFreeSlot_onlyFaults : OnlyFaults z.isoScanZoneFreeSlot :=
  .bind (checkBitmap_onlyFaults _ _) fun _ _ => by split <;> exact .pure _

theorem isoScanZoneFreeSlotSlow_onlyFaults : OnlyFaults z.isoScanZoneFreeSlotSlow :=
  .bind (checkBitmap_onlyFaults _ _) fun _ _ => by split <;> exact .pure _

theorem isZoneUsable_onlyFaults (rand : Nat → Word) (size : Nat) :
    OnlyFaults (z.isZoneUsable C rand size) := by
  dsimp only [isZoneUsable]
  exact .ite (fun _ => .pure _) fun _ => .bind (.pure _) fun _ _ =>
    .ite (fun _ => .pure _) fun _ => .bind (.pure _) fun _ _ =>
    .ite (fun _ => .pure _) fun _ => .bind (.pure _) fun _ _ =>
    .bind (refillIfEmpty_onlyFaults _ _) fun _ _ =>
    .ite (fun _ => .pure _) fun _ => .bind (.pure _) fun _ _ =>
    .bind (isoScanZoneFreeSlot_onlyFaults _) fun _ _ =>
    .ite (fun _ => .bind (isoScanZoneFreeSlotSlow_onlyFaults _) fun _ _ =>
      .ite (fun _ => .pure _) fun _ => .pure _) fun _ => .pure _

theorem isoDoesZoneFit_onlyFaults (rand : Nat → Word) (size : Nat) :
    OnlyFaults (z.isoDoesZoneFit C rand size) :=
  .ite (fun _ => .pure _) fun _ => .ite (fun _ => .pure _) fun _ => isZoneUsable_onlyFaults _ _ _

theorem isoDoesZoneFit_slotBookkeeping {rand : Nat → Word} {size : Nat} {b : Bool} {z' : Zone}
    (h : z.isoDoesZoneFit C rand size = .ok (b, z')) : SlotBookkeeping z z' := by
  unfold isoDoesZoneFit at h
  split at h
  · cases pure_eq_ok.1 h; exact .refl _
  split at h
  · cases pure_eq_ok.1 h; exact .refl _
  · exact isZoneUsable_slotBookkeeping h

end Zone

namespace Root

variable {C : Config} {r r' : Root} {n : Nat}

theorem doesZoneFit_onlyFaults (rand : Nat → Nat → Word) (i size : Nat) :
    OnlyFaults (r.doesZoneFit C rand i size) :=
  .bind (Zone.isoDoesZoneFit_onlyFaults _ _ _) fun _ _ => .pure _

theorem doesZoneFit_frame {rand : Nat → Nat → Word} {i size : Nat} {b : Bool}
    (h : r.doesZoneFit C rand i size = .ok (b, r')) : ChainFrame r r' ∧ r'.zonesUsed = r.zonesUsed := by
  obtain ⟨⟨b', z⟩, hfit, h⟩ := bind_eq_ok.1 h
  cases pure_eq_ok.1 h
  exact ⟨.setZone (.of_slotBookkeeping (Zone.isoDoesZoneFit_slotBookkeeping _ hfit)), rfl⟩

theorem buildZone_onlyFaults (env : NewZoneEnv) (size : Nat) (internal : Bool) :
    OnlyFaults (r.buildZone C env size internal) :=
  .bind (Zone.createCanaryChunks_onlyFaults _ _ _) fun _ _ =>
    .bind (Zone.fillFreeBitSlotCache_onlyFaults _ _) fun _ _ => .pure _

theorem fitScan_onlyFaults (rand : Nat → Nat → Word) (size : Nat) :
    ∀ (is : List Nat) (r : Root), OnlyFaults (fitScan C rand size is r)
  | [], _ => .pure _
  | _ :: is, _ => .bind (doesZoneFit_onlyFaults _ _ _) fun _ _ =>
    .ite (fun _ => .pure _) fun _ => fitScan_onlyFaults rand size is _

/-- The zones the walks visit from `i`: follow `next_sz_index` while the index
is below `zones_used`, stopping at a zero link; `none` when `fuel` steps do not
reach the end. -/
def chainFrom (r : Root) : Nat → Nat → Option (List Nat)
  | 0, _ => none
  | fuel + 1, i =>
    if i < r.zonesUsed then
      if (r.zones i).nextSzIndex ≠ 0 then (chainFrom r fuel (r.zones i).nextSzIndex).map (i :: ·)
      else some [i]
    else some []

/-- The size chain of `s`: from `zone_lookup_table[s]`, within the
`zones_used + 1` steps the walks of the code allow. -/
def sizeChain (r : Root) (s : Nat) : Option (List Nat) :=
  if r.zoneLookupTable s ≠ 0 then r.chainFrom (r.zonesUsed + 1) (r.zoneLookupTable s) else some []

section Walks

variable (hinv : SizeChainsAt C r n) (hn : r.zonesUsed ≤ n)
include hinv hn

theorem next_of_walk {i size : Nat} (hi : i < r.zonesUsed) (hsz : (r.zones i).chunkSize = size)
    (hnz : (r.zones i).nextSzIndex ≠ 0) :
    i < (r.zones i).nextSzIndex ∧ ((r.zones i).nextSzIndex < r.zonesUsed →
      (r.zones (r.zones i).nextSzIndex).internal = true ∧
        (r.zones (r.zones i).nextSzIndex).chunkSize = size) := by
  obtain ⟨h1, -, h3, h4⟩ := hinv.link i (by omega) hnz
  exact ⟨h1, fun _ => ⟨h3, h4.trans hsz⟩⟩

/-- From a zone of the chain, the chain ends within `fuel` steps, goes up, and
names only internal zones of its size. -/
theorem chainFrom_spec {size fuel i : Nat} (hfuel : r.zonesUsed - i < fuel)
    (hi : i < r.zonesUsed → (r.zones i).internal = true ∧ (r.zones i).chunkSize = size) :
    ∃ l, r.chainFrom fuel i = some l ∧ l.Pairwise (· < ·) ∧
      ∀ j ∈ l, i ≤ j ∧ (r.zones j).internal = true ∧ (r.zones j).chunkSize = size := by
  induction fuel generalizing i with
  | zero => omega
  | succ fuel ih =>
    simp only [chainFrom]
    split
    next hlt =>
      obtain ⟨hint, hsz⟩ := hi hlt
      split
      next hnz =>
        obtain ⟨hup, hnext⟩ := next_of_walk hinv hn hlt hsz hnz
        obtain ⟨l, hl, hsort, hmem⟩ := ih (by omega) hnext
        refine ⟨i :: l, by rw [hl]; rfl, List.pairwise_cons.2 ⟨fun j hj => ?_, hsort⟩, ?_⟩
        · exact Nat.lt_of_lt_of_le hup (hmem j hj).1
        · intro j hj
          rcases List.mem_cons.1 hj with rfl | hj
          · exact ⟨Nat.le_refl _, hint, hsz⟩
          · obtain ⟨h1, h2⟩ := hmem j hj; exact ⟨by omega, h2⟩
      · exact ⟨[i], rfl, List.pairwise_singleton _ _, by simp [hint, hsz]⟩
    · exact ⟨[], rfl, List.Pairwise.nil, by simp⟩

theorem spliceWalk_isOk {size index fuel i : Nat} (hfuel : r.zonesUsed - i < fuel)
    (hi : i < r.zonesUsed → (r.zones i).chunkSize = size) :
    ∃ r', spliceWalk size index fuel i r = .ok r' := by
  induction fuel generalizing i with
  | zero => omega
  | succ fuel ih =>
    simp only [spliceWalk]
    split
    next hlt =>
      have hsz := hi hlt
      rw [if_neg (by simp [hsz])]
      split
      next hnz =>
        obtain ⟨hup, hnext⟩ := next_of_walk hinv hn hlt hsz hnz
        exact ih (by omega) fun h => (hnext h).2
      · exact ⟨_, rfl⟩
    · exact ⟨_, rfl⟩

theorem fitChain_onlyFaults {rand : Nat → Nat → Word} {size fuel i : Nat}
    (hfuel : r.zonesUsed - i < fuel)
    (hi : i < r.zonesUsed → (r.zones i).internal = true ∧ (r.zones i).chunkSize = size) :
    OnlyFaults (fitChain C rand size fuel i r) := by
  induction fuel generalizing i r with
  | zero => omega
  | succ fuel ih =>
    simp only [fitChain]
    split
    next hlt =>
      obtain ⟨hint, hsz⟩ := hi hlt
      rw [if_neg (by simp [hsz]), if_neg (by simp [hint])]
      refine .bind (doesZoneFit_onlyFaults _ _ _) fun ⟨fits, r1⟩ h1 => ?_
      obtain ⟨hf, hu⟩ := doesZoneFit_frame h1
      have hsz1 : (r1.zones i).chunkSize = size := (hf.zone i).chunkSize.trans hsz
      dsimp only
      refine .ite (fun _ => .pure _) fun _ => .ite (fun hnz => ?_) fun _ => .pure _
      obtain ⟨hup, hnext⟩ := next_of_walk (hinv.of_frame hf) (hu ▸ hn) (hu ▸ hlt) hsz1 hnz
      exact ih (hinv.of_frame hf) (hu ▸ hn) (by omega) hnext
    · exact .pure _

theorem spliceNewZone_isOk (z : Zone) : ∃ r', spliceNewZone C r z = .ok r' := by
  unfold spliceNewZone
  split
  · exact ⟨_, rfl⟩
  · dsimp only
    split
    · exact ⟨_, rfl⟩
    next ht =>
      refine spliceWalk_isOk (C := C) (n := n) ?_ ?_ (Nat.sub_lt_succ _ _) fun _ => (hinv.table _ ht).2.2
      · exact hinv.congr rfl rfl
      · exact hn

/-- `_iso_new_zone` fails only on the zone limit or by a fault while it seeds
the new zone: the splice walk's abort and loop cannot happen. -/
theorem isoNewZone_error {env : NewZoneEnv} {size : Nat} {internal : Bool} {e : Stop}
    (h : r.isoNewZone C env size internal = .error e) :
    e = .abort "Cannot allocate additional zones. I have already allocated %d" ∨ ∃ a, e = .segv a := by
  unfold isoNewZone at h
  dsimp only at h
  by_cases hmax : maxZones ≤ r.zonesUsed
  · rw [if_pos hmax, throw_bind] at h
    exact .inl (Except.error.inj h).symm
  rw [if_neg hmax] at h
  refine .inr ((OnlyFaults.bind (.pure _) fun _ _ => ?_) e h)
  split
  · exact .pure _
  refine .bind (buildZone_onlyFaults _ _ _) fun ⟨z, h1⟩ _ => ?_
  obtain ⟨r2, hr2⟩ := spliceNewZone_isOk (r := { r with heap := h1, osCalls := r.osCalls ++
    [.madvise z.bitmapStart z.bitmapSize, .madvise z.userPagesStart C.zoneUserSize] })
    (hinv.congr rfl rfl) hn z
  exact .bind (.of_ok hr2) fun _ _ => .pure _

end Walks

theorem memset_onlyFaults (h : Heap) (a v : Word) (len : Nat) : OnlyFaults (h.memset a v len) :=
  .ite (fun _ => .pure _) fun _ => .segv _

theorem isoAllocDestroyZoneUnlocked_error (hinv : SizeChains C r) {env : NewZoneEnv} {i : Nat}
    {replace : Bool} {e : Stop} (h : r.isoAllocDestroyZoneUnlocked C env i replace = .error e) :
    e = .abort "Cannot allocate additional zones. I have already allocated %d" ∨ ∃ a, e = .segv a := by
  simp only [isoAllocDestroyZoneUnlocked, Zone.maskZonePtrs_internal] at h
  split at h
  · refine .inr ((OnlyFaults.bind (Zone.checkBitmap_onlyFaults _ _) fun _ _ =>
      .bind (memset_onlyFaults _ _ _ _) fun _ _ => ?_) e h)
    unfold destroyPrivate
    exact .ite (fun _ => .pure _) fun _ => .bind (Zone.createCanaryChunks_onlyFaults _ _ _) fun _ _ =>
      .bind (Zone.fillFreeBitSlotCache_onlyFaults _ _) fun _ _ => .pure _
  next hp =>
    have hint : (r.zones i).internal = true := by simpa using hp
    have hi : i < r.zonesUsed := Nat.lt_of_not_le fun h => by
      have := hinv.dead i h; simp [Zone.live, hint] at this
    obtain ⟨hidx, -⟩ := hinv.live i hi (by simp [Zone.live, hint])
    split at h
    · obtain h1 | ⟨_, -, h⟩ := bind_eq_error.1 h
      · have h0 := ((hinv.of_frame (.setZone (.maskZonePtrs (r.zones i)))).congr
          (q := { r.setZone i (r.zones i).maskZonePtrs with zonesUsed := (r.zones i).index }) rfl rfl).of_frame
          (.unmapZone (C := C) (i := i) (by simp [hint]))
        exact isoNewZone_error h0 (by simp [hidx]; omega) h1
      · cases h
    · cases h

theorem verifyZoneLinks_ok (hinv : SizeChains C r) {i : Nat} (hi : i < r.zonesUsed) :
    r.verifyZoneLinks i = .ok () := by
  unfold verifyZoneLinks
  by_cases hnz : (r.zones i).nextSzIndex = 0
  · simp [hnz]
  · obtain ⟨-, h2, -, h4⟩ := hinv.link i hi hnz
    rw [if_neg (by omega), if_neg (by simp [h4])]
    rfl

/-- Every size chain of a root with well-linked chains ends within the walks'
steps, goes up, and names only internal zones of its size. -/
theorem sizeChain_spec (hinv : SizeChains C r) (s : Nat) :
    ∃ l, r.sizeChain s = some l ∧ l.Pairwise (· < ·) ∧
      ∀ j ∈ l, (r.zones j).internal = true ∧ (r.zones j).chunkSize = s := by
  unfold sizeChain
  split
  next ht =>
    obtain ⟨l, hl, hsort, hmem⟩ := chainFrom_spec hinv (Nat.le_refl _) (Nat.sub_lt_succ _ _)
      fun _ => (hinv.table s ht).2
    exact ⟨l, hl, hsort, fun j hj => (hmem j hj).2⟩
  · exact ⟨[], rfl, .nil, by simp⟩

theorem fitLookup_onlyFaults (hinv : SizeChains C r) (rand : Nat → Nat → Word) (size : Nat) :
    OnlyFaults (r.fitLookup C rand size) :=
  .ite (fun ht => fitChain_onlyFaults hinv (Nat.le_refl _) (Nat.sub_lt_succ _ _)
    fun _ => (hinv.table size ht).2) fun _ => .pure _

theorem isoFindZoneFit_onlyFaults (hinv : SizeChains C r) (rand : Nat → Nat → Word) (size : Nat) :
    OnlyFaults (r.isoFindZoneFit C rand size) :=
  .bind (fitLookup_onlyFaults hinv _ _) fun ⟨found, _⟩ _ => by
    cases found
    · exact fitScan_onlyFaults _ _ _ _
    · exact .pure _

/-- What the size chains guarantee of a root: each size chain ends within the
`zones_used + 1` steps of the walks, goes up and names only internal zones of
its size; `_iso_new_zone` and `_iso_alloc_destroy_zone_unlocked` fail only on
the zone limit or by a fault; `iso_find_zone_fit` only by a fault; and the
link checks of `_verify_zone` pass on every zone in use. -/
def SizeChainWalksSafe (C : Config) (r : Root) : Prop :=
  (∀ size, ∃ l, r.sizeChain size = some l ∧ l.Pairwise (· < ·) ∧
    ∀ j ∈ l, (r.zones j).internal = true ∧ (r.zones j).chunkSize = size) ∧
  (∀ env size internal e, r.isoNewZone C env size internal = .error e →
    e = .abort "Cannot allocate additional zones. I have already allocated %d" ∨ ∃ a, e = .segv a) ∧
  (∀ env i replace e, r.isoAllocDestroyZoneUnlocked C env i replace = .error e →
    e = .abort "Cannot allocate additional zones. I have already allocated %d" ∨ ∃ a, e = .segv a) ∧
  (∀ rand size, OnlyFaults (r.isoFindZoneFit C rand size)) ∧
  ∀ i < r.zonesUsed, r.verifyZoneLinks i = .ok ()

theorem sizeChainWalksSafe_of_sizeChains (hinv : SizeChains C r) : SizeChainWalksSafe C r :=
  ⟨sizeChain_spec hinv, fun _ _ _ _ h => isoNewZone_error hinv (Nat.le_refl _) h,
    fun _ _ _ _ h => isoAllocDestroyZoneUnlocked_error hinv h, isoFindZoneFit_onlyFaults hinv,
    fun _ hi => verifyZoneLinks_ok hinv hi⟩

end Root

/-- In every reachable state the size chains are sound and the walks over them
never abort or loop. -/
theorem Sys.reachable_size_chain_walks_safe {C : Config} (hC : smallestChunkSz ≤ C.smallSzMax)
    {s : Sys} (hs : Sys.Reachable C s) : Root.SizeChainWalksSafe C s.root :=
  Root.sizeChainWalksSafe_of_sizeChains (hs.sizeChains hC)

/-- A build with 4 KiB zones, small enough to initialise by evaluation. -/
def smallZoneConfig : Config := { exampleConfig with zoneUserSize := 4096 }

/-- Initialisation draws: the mappings of zone `k` 1 MiB apart, every random
draw 0, and no pointer mask. -/
def smallInitEnv : InitEnv where
  zoneEnv k :=
    { bitmapMap := 0x600000000000#64 + BitVec.ofNat 64 (k * 0x100000)
      userMap := 0x700000000000#64 + BitVec.ofNat 64 (k * 0x100000)
      canarySecret := 0x1234#64
      pointerMask := 0
      canaryRand := fun _ => 0
      fillRand := fun _ => 0 }
  bigZoneNextMask := 0
  bigZoneCanarySecret := 0

/-- Memory with nothing mapped. -/
def unmappedHeap : Heap := ⟨fun _ => 0, fun _ => false⟩

/-- The draws of the operations in the small build. -/
def smallOpEnv : OpEnv where
  usableRand _ _ := 0
  zoneEnv := smallInitEnv.zoneEnv
  bigEnv := ⟨0, 0, 0⟩

/-- Initialisation, then thread 0 allocates 16 bytes from zone 0, makes a
private zone of 32-byte chunks (zone 10), allocates from it, frees both
chunks into its quarantine, flushes its caches, allocates 64 bytes and
destroys the private zone. -/
def smallRun : Except Stop Sys := do
  let r ← Root.initializeGlobalRoot smallZoneConfig smallInitEnv 4096 unmappedHeap
  Sys.runOps smallZoneConfig smallOpEnv 0 [.alloc none 16, .newZone 32 false, .alloc (some 10) 32,
    .free 0x700000001010#64 false, .free 0x700000a01020#64 false, .flushCaches, .alloc none 64,
    .destroyZone 10] ⟨r, fun _ => .empty⟩

set_option maxRecDepth 20000 in
theorem smallRun_reachable : ∃ s, smallRun = .ok s ∧ Sys.Reachable smallZoneConfig s := by
  obtain ⟨s, hs⟩ := exists_eq_ok_of_isOk (by decide : smallRun.isOk = true)
  obtain ⟨r, hr, hrun⟩ := bind_eq_ok.1 hs
  exact ⟨s, hs, (Sys.Reachable.init _ _ _ _ hr).runOps hrun⟩

theorem small_root_size_chain_walks_safe : ∃ s, smallRun = .ok s ∧ Sys.Reachable smallZoneConfig s ∧
    Root.SizeChainWalksSafe smallZoneConfig s.root := by
  obtain ⟨s, hs, hr⟩ := smallRun_reachable
  exact ⟨s, hs, hr, Sys.reachable_size_chain_walks_safe (by decide) hr⟩

end IsoAlloc
