import IsoAlloc.Api

/-!
Root initialisation and the runs of the allocator.
`iso_alloc_initialize_global_root` creates the default zones in order and
draws the big-zone secrets. A reachable state is one that a sequence of
entry points, each run atomically by some thread and none aborting, reaches
from an initialised root with empty thread caches.
-/

namespace IsoAlloc

/-- `default_zones`, in a build without `SMALL_MEM_STARTUP`. -/
def defaultZones : List Nat := [16, 32, 64, 128, 256, 512, 1024, 2048, 4096, 8192]

/-- A root before initialisation, with page size `page` and the memory `heap`. -/
def Root.empty (page : Nat) (heap : Heap) : Root where
  zones := fun _ => Zone.zeroed
  zonesUsed := 0
  zoneLookupTable := fun _ => 0
  chunkLookupTable := fun _ => 0
  systemPageSize := page
  bigZoneHead := 0
  bigZoneNextMask := 0
  bigZoneCanarySecret := 0
  bigZones := []
  heap := heap
  osCalls := []

/-- What initialisation draws: one environment per default zone, then the
two big-zone secrets. -/
structure InitEnv where
  zoneEnv : Nat → NewZoneEnv
  bigZoneNextMask : Word
  bigZoneCanarySecret : Word

namespace Root

variable (C : Config)

/-- The loop of `iso_alloc_initialize_global_root` over the default sizes. -/
def createDefaultZones (env : InitEnv) : List Nat → Root → Except Stop Root
  | [], r => pure r
  | size :: sizes, r => do
    match ← r.isoNewZone C (env.zoneEnv r.zonesUsed) size true with
    | (none, _) => throw (.abort "Failed to create a new zone")
    | (some _, r) => createDefaultZones env sizes r

/-- `iso_alloc_initialize_global_root`. -/
def initializeGlobalRoot (env : InitEnv) (page : Nat) (heap : Heap) : Except Stop Root := do
  let r ← createDefaultZones C env defaultZones (Root.empty page heap)
  pure { r with bigZoneNextMask := env.bigZoneNextMask,
                bigZoneCanarySecret := env.bigZoneCanarySecret }

end Root

/-- Empty thread caches. -/
def ThreadState.empty : ThreadState where
  zoneCache := fun _ => (0, 0)
  zoneCacheCount := 0
  chunkQuarantine := []

namespace Sys

variable (C : Config)

/-- The states the allocator reaches from an initialised root. -/
inductive Reachable : Sys → Prop
  | init (env : InitEnv) (page : Nat) (heap : Heap) (r : Root) :
      Root.initializeGlobalRoot C env page heap = .ok r →
      Reachable { root := r, threads := fun _ => ThreadState.empty }
  | step (s s' : Sys) (env : OpEnv) (th : Nat) (op : Op) (ret : Ret) :
      Reachable s → s.step C env th op = .ok (ret, s') → Reachable s'

/-- Thread `th` runs the entry points `ops` in order, with the draws `env`. -/
def runOps (env : OpEnv) (th : Nat) : List Op → Sys → Except Stop Sys
  | [], s => pure s
  | op :: ops, s => do
    let (_, s) ← s.step C env th op
    runOps env th ops s

variable {C}

theorem Reachable.runOps {env : OpEnv} {th : Nat} {ops : List Op} {s s' : Sys} (hs : Reachable C s)
    (h : runOps C env th ops s = .ok s') : Reachable C s' := by
  induction ops generalizing s with
  | nil => cases pure_eq_ok.1 h; exact hs
  | cons op ops ih =>
    obtain ⟨⟨ret, s1⟩, h1, h⟩ := bind_eq_ok.1 h
    exact ih (.step _ _ _ _ _ _ hs h1) h

end Sys

end IsoAlloc
