import IsoAlloc.Dispatch

/-!
Where `_iso_big_alloc` places a new big-zone record: at
`((uint32_t) ALIGN_SZ_DOWN(r) * s) >> 32` bytes into its metadata page, with
`s = page - (sizeof(iso_alloc_big_zone_t) - 1)`. The record always fits in
the page, but the shift drops the alignment `ALIGN_SZ_DOWN` gave the offset.
-/

namespace IsoAlloc

/-- The scaled offset of a record of `sz` bytes stays within a page that can
hold it. -/
theorem bigRecordOffset_add_le {o page sz : Nat} (ho : o < 0x100000000) (hp : sz ≤ page) :
    (o * (page - (sz - 1))) >>> 32 + sz ≤ page := by
  rw [Nat.shiftRight_eq_div_pow]
  have hlt : o * (page - (sz - 1)) / 2 ^ 32 < page - (sz - 1) + 1 := by
    apply Nat.div_lt_of_lt_mul
    calc o * (page - (sz - 1)) ≤ o * (page - (sz - 1) + 1) := Nat.mul_le_mul_left _ (Nat.le_succ _)
      _ < 0x100000000 * (page - (sz - 1) + 1) := Nat.mul_lt_mul_of_pos_right ho (Nat.succ_pos _)
  rcases Nat.eq_zero_or_pos (o * (page - (sz - 1)) / 2 ^ 32) with h0 | hpos
  · omega
  · have : o * (page - (sz - 1)) / 2 ^ 32 < page - (sz - 1) := by
      refine Nat.div_lt_of_lt_mul ?_
      have hs : 0 < page - (sz - 1) := by
        rcases Nat.eq_zero_or_pos (page - (sz - 1)) with hs | hs
        · rw [hs, Nat.mul_zero, Nat.zero_div] at hpos; exact absurd hpos (Nat.lt_irrefl 0)
        · exact hs
      exact Nat.mul_lt_mul_of_pos_right ho hs
    omega

/-- For pages of at most 4 GiB the product fits in 64 bits. -/
theorem bigRecordOffset_no_overflow {o page sz : Nat} (ho : o < 0x100000000) (hp : page ≤ 0x100000000) :
    o * (page - (sz - 1)) < 2 ^ 64 :=
  calc o * (page - (sz - 1)) ≤ o * 0x100000000 := Nat.mul_le_mul_left _ (by omega)
    _ < 0x100000000 * 0x100000000 := Nat.mul_lt_mul_of_pos_right ho (by decide)
    _ = 2 ^ 64 := by decide

namespace Root

variable {C : Config} {r r' : Root}

theorem writeBig_addrs (a : Word) (b : BigZone) :
    (r.writeBig a b).bigZones.map Prod.fst = r.bigZones.map Prod.fst := by
  simp only [writeBig, List.map_map]
  congr 1
  funext e
  simp only [Function.comp_apply]
  split <;> simp_all

theorem linkAfter_addrs {last a : Word} (h : r.linkAfter last a = .ok r') :
    r'.bigZones.map Prod.fst = r.bigZones.map Prod.fst := by
  unfold linkAfter at h
  split at h
  · obtain ⟨lb, -, h⟩ := bind_eq_ok.1 h
    cases pure_eq_ok.1 h; exact writeBig_addrs _ _
  · cases pure_eq_ok.1 h; rfl

/-- `_iso_big_alloc` keeps the addresses of the records, or appends one that
lies, with all its `sizeof` bytes, inside the page after the first page of its
metadata mapping. -/
theorem isoBigAlloc_addrs {env : BigAllocEnv} {size : Nat} {p : Word}
    (hs : C.bigZoneSizeof ≤ r.systemPageSize) (h : r.isoBigAlloc C env size = .ok (p, r')) :
    r'.bigZones.map Prod.fst = r.bigZones.map Prod.fst ∨
      ∃ v, v + C.bigZoneSizeof ≤ r.systemPageSize ∧
        r'.bigZones.map Prod.fst = r.bigZones.map Prod.fst ++
          [env.metaMap + BitVec.ofNat 64 r.systemPageSize + BitVec.ofNat 64 v] := by
  simp only [isoBigAlloc, pure_bind, throw_bind, ite_throw_eq_ok] at h
  obtain ⟨-, h⟩ := h
  obtain ⟨⟨found, last⟩, -, h⟩ := bind_eq_ok.1 h
  dsimp only at h
  split at h
  · obtain ⟨r1, h1, h⟩ := bind_eq_ok.1 h
    cases pure_eq_ok.1 h
    refine .inr ⟨_, bigRecordOffset_add_le (o := (C.alignSzDown env.rand.toNat % 0x100000000).toNat)
      (by omega) hs, ?_⟩
    simp only [List.map_append, linkAfter_addrs h1]
    rfl
  · obtain ⟨b, -, h⟩ := bind_eq_ok.1 h
    obtain ⟨-, -, h⟩ := bind_eq_ok.1 h
    cases pure_eq_ok.1 h
    exact .inl (writeBig_addrs _ _)

end Root

/-- A big allocation whose draw `r` makes `ALIGN_SZ_DOWN(r)` the 8-aligned offset
1060752. -/
def oddBigEnv : OpEnv := { smallOpEnv with bigEnv := ⟨0x500000000000#64, 0x400000000000#64, 1060760#64⟩ }

/-- Right after initialisation, a 200000-byte request with that draw puts the
new record at `0x400000001001`, one byte into its metadata page
`0x400000001000`: `(1060752 * 4049) >> 32 = 1`, and the record is not
8-byte aligned. -/
theorem big_record_placed_off_alignment :
    (do
      let r ← Root.initializeGlobalRoot smallZoneConfig smallInitEnv 4096 unmappedHeap
      let s : Sys := ⟨r, fun _ => ThreadState.empty⟩
      let (_, s) ← s.step smallZoneConfig oddBigEnv 0 (.alloc none 200000)
      pure (s.root.bigZones.map Prod.fst) : Except Stop _).toOption = some [0x400000001001#64] ∧
      (0x400000001001#64).toNat % 8 = 1 :=
  ⟨by decide, by decide⟩

end IsoAlloc
