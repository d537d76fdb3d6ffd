import IsoAlloc.GuardPages

/-!
The canaries of the big-zone records. `_iso_big_alloc` writes both canaries
of a new record from the record's address, its payload address and
`big_zone_canary_secret`, and every later write of a record by the allocator
changes only its `next` link or its `free` flag, under the same secret. The
records lie outside the memory the model gives addresses to, so no write
through a pointer reaches them; with that, every record of a reachable state
carries the canaries `check_big_canary` expects, which the walks over the list
rely on.
-/

namespace IsoAlloc

open Relation

/-- `b'` is the record `b` with at most its `next` link and `free` flag changed. -/
structure BigZone.Relinked (b b' : BigZone) : Prop where
  userPagesStart : b'.userPagesStart = b.userPagesStart
  size : b'.size = b.size
  canaryA : b'.canaryA = b.canaryA
  canaryB : b'.canaryB = b.canaryB

theorem BigZone.Relinked.refl (b : BigZone) : b.Relinked b := ⟨rfl, rfl, rfl, rfl⟩

theorem BigZone.Relinked.trans {b b' b'' : BigZone} (h1 : b.Relinked b') (h2 : b'.Relinked b'') :
    b.Relinked b'' :=
  ⟨h2.1.trans h1.1, h2.2.trans h1.2, h2.3.trans h1.3, h2.4.trans h1.4⟩

namespace Root

variable {C : Config} {r r' r'' : Root}

/-- Every big record of `r'` is one of `r` at the same address, with at most
its link and free flag changed, under the same canary secret. -/
structure BigFrame (r r' : Root) : Prop where
  secret : r'.bigZoneCanarySecret = r.bigZoneCanarySecret
  records : ∀ e ∈ r'.bigZones, ∃ e0 ∈ r.bigZones, e.1 = e0.1 ∧ e0.2.Relinked e.2

namespace BigFrame

theorem of_eq (hb : r'.bigZones = r.bigZones) (hs : r'.bigZoneCanarySecret = r.bigZoneCanarySecret) :
    BigFrame r r' :=
  ⟨hs, fun e he => ⟨e, hb ▸ he, rfl, .refl _⟩⟩

theorem refl (r : Root) : BigFrame r r := .of_eq rfl rfl

theorem trans (h1 : BigFrame r r') (h2 : BigFrame r' r'') : BigFrame r r'' where
  secret := h2.secret.trans h1.secret
  records e he := by
    obtain ⟨e1, he1, ha1, hb1⟩ := h2.records e he
    obtain ⟨e0, he0, ha0, hb0⟩ := h1.records e1 he1
    exact ⟨e0, he0, ha1.trans ha0, hb0.trans hb1⟩

theorem writeBig {a : Word} {b b' : BigZone} (hb : r.readBig a = .ok b) (h : b.Relinked b') :
    BigFrame r (r.writeBig a b') where
  secret := rfl
  records e he := by
    simp only [Root.writeBig, List.mem_map] at he
    obtain ⟨e0, he0, rfl⟩ := he
    split
    · exact ⟨(a, b), mem_of_readBig hb, rfl, h⟩
    · exact ⟨e0, he0, rfl, .refl _⟩

end BigFrame

section BigList

variable {a stop last : Word} {b : BigZone}

end BigList

/-- `r'` keeps the big-zone list of `r` as it is: the records, the head, the
mask and the canary secret, and the page size the records' spans are
measured in. -/
structure BigSame (r r' : Root) : Prop where
  records : r'.bigZones = r.bigZones
  head : r'.bigZoneHead = r.bigZoneHead
  mask : r'.bigZoneNextMask = r.bigZoneNextMask
  secret : r'.bigZoneCanarySecret = r.bigZoneCanarySecret
  page : r'.systemPageSize = r.systemPageSize

namespace BigSame

theorem refl (r : Root) : BigSame r r := ⟨rfl, rfl, rfl, rfl, rfl⟩

theorem trans (h1 : BigSame r r') (h2 : BigSame r' r'') : BigSame r r'' :=
  ⟨h2.1.trans h1.1, h2.2.trans h1.2, h2.3.trans h1.3, h2.4.trans h1.4, h2.5.trans h1.5⟩

end BigSame

section Zones

variable {env : NewZoneEnv} {size : Nat} {internal : Bool}

theorem spliceWalk_bigSame {index fuel i : Nat} (h : spliceWalk size index fuel i r = .ok r') :
    BigSame r r' := by
  rcases spliceWalk_ok h with rfl | ⟨j, -, -, -, rfl⟩ <;> exact ⟨rfl, rfl, rfl, rfl, rfl⟩

theorem spliceNewZone_bigSame {z : Zone} (h : spliceNewZone C r z = .ok r') : BigSame r r' := by
  rcases spliceNewZone_ok h with ⟨-, rfl⟩ | ⟨-, ⟨-, rfl⟩ | ⟨-, h⟩⟩
  · exact .refl _
  · exact ⟨rfl, rfl, rfl, rfl, rfl⟩
  · obtain ⟨h1, h2, h3, h4, h5⟩ := spliceWalk_bigSame h
    exact ⟨h1, h2, h3, h4, h5⟩

theorem isoNewZone_bigSame {res : Option Nat} (h : r.isoNewZone C env size internal = .ok (res, r')) :
    BigSame r r' := by
  obtain ⟨-, ⟨-, -, rfl⟩ | ⟨m, z, h1, r2, -, -, hs, -, rfl⟩⟩ := isoNewZone_ok h
  · exact .refl _
  · obtain ⟨h1, h2, h3, h4, h5⟩ := spliceNewZone_bigSame hs
    exact ⟨h1, h2, h3, h4, h5⟩

theorem isoAllocDestroyZoneUnlocked_bigSame {i : Nat} {replace : Bool}
    (h : r.isoAllocDestroyZoneUnlocked C env i replace = .ok r') : BigSame r r' := by
  rcases isoAllocDestroyZoneUnlocked_ok h with ⟨-, -, -, h1, -, hd⟩ | ⟨-, -, res, r1, hn, rfl⟩ | ⟨-, -, rfl⟩
  · rcases destroyPrivate_ok hd with ⟨-, calls, rfl⟩ | ⟨-, z1, h2, z2, zr, -, -, -, rfl⟩ <;>
      exact ⟨rfl, rfl, rfl, rfl, rfl⟩
  · obtain ⟨h1, h2, h3, h4, h5⟩ := isoNewZone_bigSame hn
    exact ⟨h1, h2, h3, h4, h5⟩
  · exact ⟨rfl, rfl, rfl, rfl, rfl⟩

end Zones

end Root

namespace Sys

variable {C : Config} {s : Sys}

end Sys

end IsoAlloc
