import IsoAlloc.RootFrames
import IsoAlloc.ZoneReuse

/-!
The big-zone list as the code leaves it: the records reached from
`big_zone_head`, each `next` unmasked with `big_zone_next_mask`. A permanent
free of the first record sets the head to NULL and so drops every record
after it; a permanent free further down stores the successor's address
unmasked, so the walk past it leaves the list.
-/

namespace IsoAlloc

namespace Root

variable (r : Root)

/-- The records on the list from `a`; `none` when a link names no record or
the list does not end within `fuel` records. -/
def decodeFrom : Nat → Word → Option (List Word)
  | 0, _ => none
  | fuel + 1, a =>
    if a = 0 then some []
    else match r.bigZones.lookup a with
      | none => none
      | some b => (decodeFrom fuel (r.bigNext b)).map (a :: ·)

/-- The list decoded from `big_zone_head`. -/
def decodeBigList : Option (List Word) := r.decodeFrom (r.bigZones.length + 1) r.bigHead

variable {r} {r' : Root} {a : Word}

theorem decodeBigList_of_head_zero (h : r.bigZoneHead = 0) : r.decodeBigList = some [] := by
  simp [decodeBigList, bigHead, h, decodeFrom]

/-- A permanent free of the first record leaves the decoded list empty,
whatever records followed it. -/
theorem isoFreeBigZone_head_empties_list {C : Config} (hh : r.bigHead = a)
    (hok : r.isoFreeBigZone C a true = .ok r') : r'.decodeBigList = some [] := by
  simp only [isoFreeBigZone, bind_eq_ok, pure_bind] at hok
  obtain ⟨b, -, hok⟩ := hok
  split at hok
  · simp at hok
  obtain ⟨r1, hd, hok⟩ := bind_eq_ok.1 hok
  have hh1 : r1.bigHead = a := by obtain ⟨h1, -, rfl⟩ := discardBigPayload_ok hd; exact hh
  simp only [Bool.true_eq_false, if_false] at hok
  obtain ⟨⟨stop, r2⟩, h2, hok⟩ := bind_eq_ok.1 hok
  simp only [unlinkBig, hh1, if_true, pure_eq_ok, Prod.mk.injEq] at h2
  obtain ⟨rfl, rfl⟩ := h2
  split at hok
  · simp only [throw_bind] at hok; exact absurd hok throw_ne_ok
  rw [← pure_eq_ok.1 hok]
  exact decodeBigList_of_head_zero rfl

end Root

/-- A root with no big zone yet and its two big-zone secrets drawn. -/
def bigRoot : Root :=
  { Root.empty 4096 ⟨fun _ => 0, fun _ => false⟩ with
    bigZoneNextMask := 0x5a5a5a5a5a5a5a50#64
    bigZoneCanarySecret := 0x1234#64 }

/-- The mappings of the `k`-th big allocation, 256 MiB apart. -/
def bigEnv (k : Nat) : BigAllocEnv where
  userMap := 0x700000000000#64 + BitVec.ofNat 64 (k * 0x10000000)
  metaMap := 0x600000000000#64 + BitVec.ofNat 64 (k * 0x10000000)
  rand := 0

/-- After two big allocations, a permanent free of the first empties the
list although the second record is still there, and `iso_find_big_zone` no
longer finds the second payload. After three, a permanent free of the middle
one leaves a list whose walk faults, and the third payload cannot be found. -/
theorem big_zone_permanent_free_loses_records :
    (do
      let (p1, r) ← bigRoot.isoBigAlloc exampleConfig (bigEnv 0) 1048576
      let (p2, r) ← r.isoBigAlloc exampleConfig (bigEnv 1) 1048576
      let some a ← r.isoFindBigZone p1 | throw .loop
      let r ← r.isoFreeBigZone exampleConfig a true
      pure (r.bigZones.map (·.2.userPagesStart), r.decodeBigList, (r.isoFindBigZone p2).toOption)
      : Except Stop _).toOption =
      some ([0x700010001000#64], some [], some none) ∧
    (do
      let (_, r) ← bigRoot.isoBigAlloc exampleConfig (bigEnv 0) 1048576
      let (p2, r) ← r.isoBigAlloc exampleConfig (bigEnv 1) 1048576
      let (p3, r) ← r.isoBigAlloc exampleConfig (bigEnv 2) 1048576
      let some a ← r.isoFindBigZone p2 | throw .loop
      let r ← r.isoFreeBigZone exampleConfig a true
      pure (r.bigZones.length, r.decodeBigList, (r.isoFindBigZone p3).toOption)
      : Except Stop _).toOption =
      some (2, none, none) := by
  decide

end IsoAlloc
