import IsoAlloc.DoubleFree
import IsoAlloc.QuarantineRace

/-!
The chunk quarantine of a thread over whole runs. A non-permanent `_iso_free`
of a non-NULL pointer appends the pointer while the quarantine holds fewer
than `CHUNK_QUARANTINE_SZ` entries; the request that finds it full passes
every entry, in order, to `_iso_free_internal` and restarts the quarantine
with its own pointer; `flush_caches` and `_iso_alloc_destroy_zone` drain it.
Every other entry point leaves it alone, and so do other threads. An entry
queued behind `k` others is therefore released by the thread's
`(CHUNK_QUARANTINE_SZ - k)`-th further request: the very next one when `k` is
63, as the run at the end shows.
-/

namespace IsoAlloc

namespace Op

/-- The pointer a request queues: a non-permanent `_iso_free` of a non-NULL
pointer. -/
def freeRequest : Op → Option Word
  | .free p false => if p = 0 then none else some p
  | _ => none

/-- `flush_caches` and `_iso_alloc_destroy_zone`, which drain the quarantine. -/
def drainsQuarantine : Op → Bool
  | .flushCaches => true
  | .destroyZone _ => true
  | _ => false

theorem freeRequest_eq_none_of_drains {op : Op} (h : op.drainsQuarantine = true) :
    op.freeRequest = none := by
  cases op <;> first | rfl | cases h

end Op

/-- The pointers the requests among `ops` queue, in order. -/
def freeRequests (ops : List Op) : List Word := ops.filterMap Op.freeRequest

@[simp] theorem freeRequests_nil : freeRequests [] = [] := rfl

theorem freeRequests_cons_of_none {op : Op} (ops : List Op) (h : op.freeRequest = none) :
    freeRequests (op :: ops) = freeRequests ops := by
  simp [freeRequests, List.filterMap_cons, h]

theorem freeRequests_cons_of_some {op : Op} {p : Word} (ops : List Op) (h : op.freeRequest = some p) :
    freeRequests (op :: ops) = p :: freeRequests ops := by
  simp [freeRequests, List.filterMap_cons, h]

@[simp] theorem ThreadState.populateZoneCache_chunkQuarantine (t : ThreadState) (i : Nat) (z : Zone) :
    (t.populateZoneCache i z).chunkQuarantine = t.chunkQuarantine := by
  unfold ThreadState.populateZoneCache; split_ifs <;> rfl

namespace Root

variable {C : Config} {env : OpEnv} {t t' : ThreadState} {r r' : Root} {p : Word}

theorem isoFreeInternalUnlocked_chunkQuarantine {perm : Bool} {zone : Option Nat}
    (h : isoFreeInternalUnlocked C env t r p perm zone = .ok (t', r')) :
    t'.chunkQuarantine = t.chunkQuarantine := by
  unfold isoFreeInternalUnlocked at h
  obtain ⟨zone', -, h⟩ := bind_eq_ok.1 h
  split at h
  · obtain ⟨⟨z, hp⟩, -, h⟩ := bind_eq_ok.1 h
    dsimp only at h
    split at h
    · obtain ⟨r2, -, h⟩ := bind_eq_ok.1 h
      cases pure_eq_ok.1 h; simp
    · cases pure_eq_ok.1 h; simp
  · obtain ⟨found, -, h⟩ := bind_eq_ok.1 h
    split at h
    · exact absurd h throw_ne_ok
    · obtain ⟨r2, -, h⟩ := bind_eq_ok.1 h
      cases pure_eq_ok.1 h; rfl

/-- What `_iso_free` does to the caller's quarantine: nothing for NULL or a
permanent free; otherwise it appends `p`, or, when the quarantine is full,
frees every entry in order and restarts the quarantine with `p`. -/
theorem isoFree_chunkQuarantine {perm : Bool} (h : isoFree C env t r p perm = .ok (t', r')) :
    ((p = 0 ∨ perm = true) ∧ t'.chunkQuarantine = t.chunkQuarantine) ∨
    (p ≠ 0 ∧ perm = false ∧ t.chunkQuarantine.length < chunkQuarantineSz ∧
      t'.chunkQuarantine = t.chunkQuarantine ++ [p] ∧ r' = r) ∨
    (p ≠ 0 ∧ perm = false ∧ chunkQuarantineSz ≤ t.chunkQuarantine.length ∧ t'.chunkQuarantine = [p] ∧
      ∃ t1, freeEach C env t.chunkQuarantine t r = .ok (t1, r')) := by
  unfold isoFree at h
  dsimp only at h
  split at h
  · cases pure_eq_ok.1 h; exact .inl ⟨.inl ‹_›, rfl⟩
  rename_i hp
  simp only [pure_bind] at h
  split at h
  · obtain ⟨x, h1, h⟩ := bind_eq_ok.1 h
    cases pure_eq_ok.1 h
    exact .inl ⟨.inr ‹_›, isoFreeInternalUnlocked_chunkQuarantine h1⟩
  rename_i hperm
  split at h
  · cases pure_eq_ok.1 h
    exact .inr (.inl ⟨hp, by simpa using hperm, ‹_›, rfl, rfl⟩)
  · obtain ⟨⟨t1, r1⟩, h1, h⟩ := bind_eq_ok.1 h
    cases pure_eq_ok.1 h
    exact .inr (.inr ⟨hp, by simpa using hperm, by omega, rfl, t1, h1⟩)

end Root


namespace Root

variable {C : Config} {env : OpEnv} {t t' : ThreadState} {r r' : Root}

theorem isoFreeSize_chunkQuarantine {p : Word} {size : Nat} (h : isoFreeSize C env t r p size = .ok (t', r')) :
    t'.chunkQuarantine = t.chunkQuarantine := by
  unfold isoFreeSize at h
  dsimp only at h
  split at h
  · cases pure_eq_ok.1 h; rfl
  simp only [pure_bind] at h
  split at h
  · obtain ⟨found, -, h⟩ := bind_eq_ok.1 h
    split at h
    · exact absurd h throw_ne_ok
    · obtain ⟨r1, -, h⟩ := bind_eq_ok.1 h
      cases pure_eq_ok.1 h; rfl
  · obtain ⟨found, -, h⟩ := bind_eq_ok.1 h
    split at h
    · exact absurd h throw_ne_ok
    · exact isoFreeInternalUnlocked_chunkQuarantine (ite_throw_eq_ok.1 h).2

theorem isoFreeFromZone_chunkQuarantine {p : Word} {zone : Option Nat} {perm : Bool}
    (h : isoFreeFromZone C env t r p zone perm = .ok (t', r')) : t'.chunkQuarantine = t.chunkQuarantine := by
  unfold isoFreeFromZone at h
  split at h
  · cases pure_eq_ok.1 h; rfl
  · exact isoFreeInternalUnlocked_chunkQuarantine h

theorem clearThenFlush_chunkQuarantine (h : flushChunkQuarantine C env t.clearZoneCache r = .ok (t', r')) :
    t'.chunkQuarantine = [] ∧ ∃ t1, freeEach C env t.chunkQuarantine t.clearZoneCache r = .ok (t1, r') := by
  obtain ⟨⟨t1, r1⟩, h1, h⟩ := bind_eq_ok.1 h
  cases pure_eq_ok.1 h
  exact ⟨rfl, t1, h1⟩

end Root

namespace Sys

variable {C : Config} {s s' : Sys} {env : OpEnv} {th : Nat} {op : Op} {ret : Ret}

/-- What one entry point of thread `th` does to its quarantine `q`: a drain
empties it; an entry point that is no request leaves it; a request appends
its pointer to a quarantine that is not full, leaving the root; and a request
finding it full frees every entry, in order, and restarts it with its own
pointer. -/
theorem step_chunkQuarantine (h : s.step C env th op = .ok (ret, s')) :
    (op.drainsQuarantine = true ∧ (s'.threads th).chunkQuarantine = []) ∨
    (op.drainsQuarantine = false ∧ op.freeRequest = none ∧
      (s'.threads th).chunkQuarantine = (s.threads th).chunkQuarantine) ∨
    (∃ p, op.freeRequest = some p ∧ (s.threads th).chunkQuarantine.length < chunkQuarantineSz ∧
      (s'.threads th).chunkQuarantine = (s.threads th).chunkQuarantine ++ [p] ∧ s'.root = s.root) ∨
    (∃ p, op.freeRequest = some p ∧ chunkQuarantineSz ≤ (s.threads th).chunkQuarantine.length ∧
      (s'.threads th).chunkQuarantine = [p] ∧
      ∃ t, Root.freeEach C env (s.threads th).chunkQuarantine (s.threads th) s.root = .ok (t, s'.root)) := by
  cases op with
  | alloc zone size =>
    obtain ⟨⟨p, r⟩, -, h⟩ := bind_eq_ok.1 h
    cases pure_eq_ok.1 h
    exact .inr (.inl ⟨rfl, rfl, rfl⟩)
  | calloc nmemb size =>
    obtain ⟨⟨p, r⟩, -, h⟩ := bind_eq_ok.1 h
    cases pure_eq_ok.1 h
    exact .inr (.inl ⟨rfl, rfl, rfl⟩)
  | free p perm =>
    obtain ⟨⟨t, r⟩, h1, h⟩ := bind_eq_ok.1 h
    cases pure_eq_ok.1 h
    simp only [put_threads_same, put_root]
    rcases Root.isoFree_chunkQuarantine h1 with ⟨hp, hq⟩ | ⟨hp, rfl, hlt, hq, rfl⟩ | ⟨hp, rfl, hge, hq, he⟩
    · refine .inr (.inl ⟨rfl, ?_, hq⟩)
      rcases hp with rfl | rfl
      · cases perm <;> rfl
      · rfl
    · exact .inr (.inr (.inl ⟨p, by simp only [Op.freeRequest, if_neg hp], hlt, hq, rfl⟩))
    · exact .inr (.inr (.inr ⟨p, by simp only [Op.freeRequest, if_neg hp], hge, hq, he⟩))
  | freeSize p size =>
    obtain ⟨⟨t, r⟩, h1, h⟩ := bind_eq_ok.1 h
    cases pure_eq_ok.1 h
    exact .inr (.inl ⟨rfl, rfl, by simpa using Root.isoFreeSize_chunkQuarantine h1⟩)
  | freeFromZone p zone perm =>
    obtain ⟨⟨t, r⟩, h1, h⟩ := bind_eq_ok.1 h
    cases pure_eq_ok.1 h
    exact .inr (.inl ⟨rfl, rfl, by simpa using Root.isoFreeFromZone_chunkQuarantine h1⟩)
  | newZone size internal =>
    obtain ⟨⟨z, r⟩, -, h⟩ := bind_eq_ok.1 h
    cases pure_eq_ok.1 h
    exact .inr (.inl ⟨rfl, rfl, rfl⟩)
  | destroyZone i =>
    obtain ⟨⟨t, r⟩, h1, h⟩ := bind_eq_ok.1 h
    cases pure_eq_ok.1 h
    obtain ⟨⟨t1, r1⟩, h2, h1⟩ := bind_eq_ok.1 h1
    obtain ⟨r2, -, h1⟩ := bind_eq_ok.1 h1
    cases pure_eq_ok.1 h1
    exact .inl ⟨rfl, by simpa using (Root.clearThenFlush_chunkQuarantine h2).1⟩
  | flushCaches =>
    obtain ⟨⟨t, r⟩, h1, h⟩ := bind_eq_ok.1 h
    cases pure_eq_ok.1 h
    exact .inl ⟨rfl, by simpa using (Root.clearThenFlush_chunkQuarantine h1).1⟩

end Sys


namespace Sys

variable {C : Config} {s s' : Sys} {th : Nat}

/-- Thread `th` runs the entry points `ops` in turn, each with draws of its own. -/
inductive ThreadRun (C : Config) (th : Nat) : Sys → List Op → Sys → Prop
  | nil (s : Sys) : ThreadRun C th s [] s
  | cons {s s' s'' : Sys} {op : Op} {ops : List Op} (env : OpEnv) (ret : Ret) :
      s.step C env th op = .ok (ret, s') → ThreadRun C th s' ops s'' → ThreadRun C th s (op :: ops) s''

/-- Through operations of the thread that do not drain its quarantine and
make no more requests than the quarantine has room for, every entry stays
pending in place, and each request appends its pointer. -/
theorem ThreadRun.chunkQuarantine {ops : List Op} (hr : ThreadRun C th s ops s')
    (hno : ∀ op ∈ ops, op.drainsQuarantine = false)
    (hlen : (s.threads th).chunkQuarantine.length + (freeRequests ops).length ≤ chunkQuarantineSz) :
    (s'.threads th).chunkQuarantine = (s.threads th).chunkQuarantine ++ freeRequests ops := by
  induction hr with
  | nil => simp
  | @cons s1 s2 s3 op ops env ret hstep _ ih =>
    have hno' := fun op h => hno op (List.mem_cons_of_mem _ h)
    rcases step_chunkQuarantine hstep with ⟨hd, -⟩ | ⟨-, hf, hq⟩ | ⟨p, hf, -, hq, -⟩ | ⟨p, hf, hge, -⟩
    · rw [hno _ (List.mem_cons_self _ _)] at hd; cases hd
    · rw [freeRequests_cons_of_none _ hf] at hlen ⊢
      rw [ih hno' (hq ▸ hlen), hq]
    · rw [freeRequests_cons_of_some _ hf, List.length_cons] at hlen
      have hlen' : (s2.threads th).chunkQuarantine.length + (freeRequests ops).length ≤ chunkQuarantineSz := by
        rw [hq, List.length_append, List.length_singleton]; omega
      rw [freeRequests_cons_of_some _ hf, ih hno' hlen', hq, List.append_assoc]
      rfl
    · rw [freeRequests_cons_of_some _ hf, List.length_cons] at hlen
      omega

/-- No quarantine of a reachable state holds more than `CHUNK_QUARANTINE_SZ`
entries. -/
theorem Reachable.chunkQuarantine_le (hs : Reachable C s) (th : Nat) :
    (s.threads th).chunkQuarantine.length ≤ chunkQuarantineSz := by
  induction hs with
  | init => simp [ThreadState.empty]
  | step s s' env th' op ret _ hstep ih =>
    by_cases hth : th = th'
    · subst hth
      rcases step_chunkQuarantine hstep with ⟨-, hq⟩ | ⟨-, -, hq⟩ | ⟨p, -, hlt, hq, -⟩ | ⟨p, -, -, hq, -⟩
      · rw [hq]; exact Nat.zero_le _
      · rw [hq]; exact ih
      · rw [hq, List.length_append]; exact hlt
      · rw [hq, List.length_singleton]; decide
    · rw [step_threads_ne hstep hth]; exact ih

end Sys


/-- When thread `th`'s quarantine is released in the state `s`: it holds at
most `CHUNK_QUARANTINE_SZ` entries; the thread's operations other than the
drains keep every entry pending while the requests fill it; the next request
passes every entry, in order, to `_iso_free_internal` and restarts the
quarantine with its own pointer; a drain frees every entry and empties it;
and operations of other threads leave it alone. -/
structure QuarantineSchedule (C : Config) (th : Nat) (s : Sys) : Prop where
  /-- The quarantine holds at most `CHUNK_QUARANTINE_SZ` entries. -/
  bounded : (s.threads th).chunkQuarantine.length ≤ chunkQuarantineSz
  /-- While the requests fill it, every entry stays pending in place. -/
  pending : ∀ ops s', Sys.ThreadRun C th s ops s' → (∀ op ∈ ops, op.drainsQuarantine = false) →
    (s.threads th).chunkQuarantine.length + (freeRequests ops).length ≤ chunkQuarantineSz →
    (s'.threads th).chunkQuarantine = (s.threads th).chunkQuarantine ++ freeRequests ops
  /-- The request after the ones that fill it frees every entry, in order. -/
  released : ∀ ops s' env p ret s'', Sys.ThreadRun C th s ops s' → (∀ op ∈ ops, op.drainsQuarantine = false) →
    (s.threads th).chunkQuarantine.length + (freeRequests ops).length = chunkQuarantineSz → p ≠ 0 →
    s'.step C env th (.free p false) = .ok (ret, s'') →
    (s''.threads th).chunkQuarantine = [p] ∧
      ∃ t, Root.freeEach C env ((s.threads th).chunkQuarantine ++ freeRequests ops) (s'.threads th) s'.root =
        .ok (t, s''.root)
  /-- `flush_caches` and `_iso_alloc_destroy_zone` empty it. -/
  drained : ∀ env op ret s', op.drainsQuarantine = true → s.step C env th op = .ok (ret, s') →
    (s'.threads th).chunkQuarantine = []
  /-- Other threads leave it alone. -/
  others : ∀ s', Relation.ReflTransGen (Sys.OthersStep C th) s s' →
    (s'.threads th).chunkQuarantine = (s.threads th).chunkQuarantine

/-- In every reachable state, each thread's quarantine follows its release
schedule: an entry queued behind `k` others is passed to `_iso_free_internal`
by the thread's `(CHUNK_QUARANTINE_SZ - k)`-th further request, or by an
earlier `flush_caches` or `_iso_alloc_destroy_zone` of that thread, and by
nothing else. -/
theorem reachable_quarantine_schedule {C : Config} {s : Sys} (hs : Sys.Reachable C s) (th : Nat) :
    QuarantineSchedule C th s where
  bounded := hs.chunkQuarantine_le th
  pending _ _ hr hno hlen := hr.chunkQuarantine hno hlen
  released ops s' env p ret s'' hr hno hlen hp hstep := by
    have hq := hr.chunkQuarantine hno (Nat.le_of_eq hlen)
    rcases Sys.step_chunkQuarantine hstep with ⟨hd, -⟩ | ⟨-, hf, -⟩ | ⟨p', hf, hlt, -⟩ | ⟨p', hf, -, hq', he⟩
    · cases hd
    · simp only [Op.freeRequest, if_neg hp] at hf; cases hf
    · rw [hq, List.length_append, hlen] at hlt; exact absurd hlt (Nat.lt_irrefl _)
    · simp only [Op.freeRequest, if_neg hp, Option.some.injEq] at hf
      subst hf
      rw [hq] at he
      exact ⟨hq', he⟩
  drained env op ret s' hd hstep := by
    have hn := Op.freeRequest_eq_none_of_drains hd
    rcases Sys.step_chunkQuarantine hstep with ⟨-, hq⟩ | ⟨hd', -⟩ | ⟨p, hf, -⟩ | ⟨p, hf, -⟩
    · exact hq
    · rw [hd] at hd'; cases hd'
    · rw [hn] at hf; cases hf
    · rw [hn] at hf; cases hf
  others _ h := congrArg ThreadState.chunkQuarantine (Sys.othersRun_threads h)

theorem small_root_quarantine_schedule :
    ∃ s, smallRun = .ok s ∧ Sys.Reachable smallZoneConfig s ∧ QuarantineSchedule smallZoneConfig 0 s := by
  obtain ⟨s, hs, hr⟩ := smallRun_reachable
  exact ⟨s, hs, hr, reachable_quarantine_schedule hr 0⟩

/-- Thread `th` makes a private zone of `size`-byte chunks, allocates a chunk
from it through the handle and frees the chunk with `_iso_free`, `n` times;
the pointers, in order. -/
def privateRounds (C : Config) (env : OpEnv) (th size : Nat) : Nat → Sys → Except Stop (List Word × Sys)
  | 0, s => pure ([], s)
  | n + 1, s => do
    let (.zone (some i), s) ← s.step C env th (.newZone size false) | throw .loop
    let (.ptr p, s) ← s.step C env th (.alloc (some i) size) | throw .loop
    let (_, s) ← s.step C env th (.free p false)
    let (ps, s) ← privateRounds C env th size n s
    pure (p :: ps, s)

set_option maxRecDepth 20000 in
/-- From the initial state, thread 0 frees one chunk of each of 64 private
zones with `_iso_free(p, false)`. The last, slot 0 of zone 73, is queued
behind 63 others and is still allocated. The thread's next request, of any
non-NULL pointer, frees it at once: the slot reads `01`, and the quarantine
holds only the new pointer. -/
theorem quarantined_chunk_freed_by_next_request :
    (do
      let r ← Root.initializeGlobalRoot smallZoneConfig smallInitEnv 4096 unmappedHeap
      let s : Sys := ⟨r, fun _ => ThreadState.empty⟩
      let (_, s) ← privateRounds smallZoneConfig smallOpEnv 0 1024 64 s
      let q := (s.threads 0).chunkQuarantine
      let before := (q.length, q.getLastD 0, (s.root.zones 73).slotBits 0)
      let (_, s) ← s.step smallZoneConfig smallOpEnv 0 (.free 1 false)
      pure (before, (s.root.zones 73).slotBits 0, (s.threads 0).chunkQuarantine) :
        Except Stop ((Nat × Word × Bool × Bool) × (Bool × Bool) × List Word)).toOption =
      some ((64, 0x700004901000#64, true, false), (false, true), [1#64]) := by
  decide

end IsoAlloc
