import IsoAlloc.ChainWalks

/-!
A pending free outlives the zone it names. `_iso_free` only queues a pointer
in the calling thread's quarantine, and `_iso_alloc_destroy_zone` flushes the
caches of the destroying thread alone. When one thread frees a chunk of a
private zone into its quarantine and another thread then destroys that zone,
the zone is re-seeded as an internal zone, hands the same chunk to a new
owner, and the first thread's later flush releases it under that owner.
-/

namespace IsoAlloc

namespace Sys

variable {C : Config} {s s' : Sys} {th th' : Nat}

theorem put_threads_ne (t : ThreadState) (r : Root) (h : th' ≠ th) :
    (s.put th t r).threads th' = s.threads th' :=
  Function.update_noteq h _ _

theorem Micro.threads_ne {E : Nat → NewZoneEnv} (hm : Micro C E th s s') (h : th' ≠ th) :
    s'.threads th' = s.threads th' := by
  cases hm with
  | event => rfl
  | free => exact put_threads_ne _ _ h
  | clearZoneCache => exact put_threads_ne _ _ h
  | quarantine => exact put_threads_ne _ _ h

/-- An entry point run by thread `th` leaves the zone cache and the
quarantine of every other thread as they were. -/
theorem step_threads_ne {env : OpEnv} {op : Op} {ret : Ret} (hs : s.step C env th op = .ok (ret, s'))
    (h : th' ≠ th) : s'.threads th' = s.threads th' := by
  rcases step_micro hs with hm | ⟨-, ht⟩
  · clear hs
    induction hm with
    | refl => rfl
    | tail _ hm ih => exact (hm.threads_ne h).trans ih
  · rw [ht]

/-- Entry points run by threads other than `th'`. -/
def OthersStep (C : Config) (th' : Nat) (s s' : Sys) : Prop :=
  ∃ env th op ret, th ≠ th' ∧ s.step C env th op = .ok (ret, s')

/-- Whatever the other threads run, destructions of zones included, the
frees pending in thread `th'`'s quarantine stay pending. -/
theorem othersRun_threads (hr : Relation.ReflTransGen (OthersStep C th') s s') :
    s'.threads th' = s.threads th' := by
  induction hr with
  | refl => rfl
  | tail _ hst ih =>
    obtain ⟨_, _, _, _, hne, hs⟩ := hst
    exact (step_threads_ne hs (Ne.symm hne)).trans ih

end Sys

/-- A build with 64 KiB zones, so that a zone holds a few 16 KiB chunks and
initialisation stays small enough to evaluate. -/
def raceConfig : Config := { exampleConfig with zoneUserSize := 65536 }

/-- The draws of every operation: zone `k` mapped at its own 16 MiB offset,
every random draw 0, and no pointer mask. -/
def raceEnv : OpEnv where
  usableRand _ _ := 0
  zoneEnv k :=
    { bitmapMap := 0x600000000000#64 + BitVec.ofNat 64 (k * 0x1000000)
      userMap := 0x700000000000#64 + BitVec.ofNat 64 (k * 0x1000000)
      canarySecret := 0x1234#64
      pointerMask := 0
      canaryRand := fun _ => 0
      fillRand := fun _ => 0 }
  bigEnv := ⟨0, 0, 0⟩

/-- Initialisation with the same zone mappings. -/
def raceInitEnv : InitEnv :=
  { zoneEnv := raceEnv.zoneEnv, bigZoneNextMask := 0, bigZoneCanarySecret := 0 }

/-- Thread 0 creates the private zone 10 of 16 KiB chunks; thread 1
allocates `p` from it through the handle and frees `p`, which stays in its
quarantine; thread 0 destroys zone 10 and allocates 16 KiB, receiving `p`
again; thread 1 then calls `flush_caches`. Each pointer is freed once by its
owner and the handle is not used after the destruction, yet the flush leaves
slot 0 of zone 10, the chunk thread 0 still owns, in the freed state `01`. -/
theorem pending_free_releases_reissued_chunk :
    (do
      let r ← Root.initializeGlobalRoot raceConfig raceInitEnv 4096 unmappedHeap
      let s : Sys := ⟨r, fun _ => ThreadState.empty⟩
      let (_, s) ← s.step raceConfig raceEnv 0 (.newZone 16384 false)
      let (.ptr p, s) ← s.step raceConfig raceEnv 1 (.alloc (some 10) 16384) | throw .loop
      let (_, s) ← s.step raceConfig raceEnv 1 (.free p false)
      let (_, s) ← s.step raceConfig raceEnv 0 (.destroyZone 10)
      let (.ptr q, s) ← s.step raceConfig raceEnv 0 (.alloc none 16384) | throw .loop
      let (_, s) ← s.step raceConfig raceEnv 1 .flushCaches
      pure (p, q, (s.root.zones 10).slotBits 0) : Except Stop _).toOption =
      some (0x70000a001000#64, 0x70000a001000#64, (false, true)) := by
  decide

end IsoAlloc
