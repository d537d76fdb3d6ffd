import IsoAlloc.Destroy

/-!
The big-zone list: `_iso_big_alloc`, `iso_find_big_zone` and
`iso_free_big_zone`, with `check_big_canary`. Records live at addresses; the
head and every `next` are stored XOR `big_zone_next_mask`. A walk reads at
most one record more than exist, past which the C loop could only be cycling.
An allocation maps and protects the payload pages; a free poisons the payload
under `SANITIZE_CHUNKS` and discards it with `madvise(MADV_DONTNEED)`.
-/

namespace IsoAlloc

/-- What `_iso_big_alloc` receives for a new record: the two mappings and the
`rand_uint64()` value that places the record in its page. -/
structure BigAllocEnv where
  userMap : Word
  metaMap : Word
  rand : Word

namespace Root

variable (C : Config) (r : Root)

/-- `UNMASK_BIG_ZONE_NEXT`, which is also `MASK_BIG_ZONE_NEXT`. -/
def unmaskBigZoneNext (p : Word) : Word := p ^^^ r.bigZoneNextMask

/-- Read the record at `a`; reading a wiped or absent record faults. -/
def readBig (a : Word) : Except Stop BigZone :=
  match r.bigZones.lookup a with
  | some b => pure b
  | none => throw (.segv a)

/-- Store the record at `a`. -/
def writeBig (a : Word) (b : BigZone) : Root :=
  { r with bigZones := r.bigZones.map fun e => if e.1 = a then (a, b) else e }

/-- `__builtin_bswap64`. -/
def bswap64 (x : Word) : Word :=
  (List.range 8).foldl (fun acc i => acc ||| (x >>> (8 * i) &&& 0xff#64) <<< (8 * (7 - i))) 0

/-- The canary of a record at `a`: `a ^ bswap(user_pages_start) ^ big_zone_canary_secret`. -/
def bigCanary (a : Word) (b : BigZone) : Word :=
  a ^^^ bswap64 b.userPagesStart ^^^ r.bigZoneCanarySecret

/-- `check_big_canary`. -/
def checkBigCanary (a : Word) (b : BigZone) : Except Stop Unit := do
  if b.canaryA ≠ r.bigCanary a b then
    throw (.abort "Big zone 0x%p bottom canary has been corrupted! Value: 0x%x Expected: 0x%x")
  if b.canaryB ≠ r.bigCanary a b then
    throw (.abort "Big zone 0x%p top canary has been corrupted! Value: 0x%x Expected: 0x%x")

/-- The first record of the list (0 for an empty list). -/
def bigHead : Word := if r.bigZoneHead = 0 then 0 else r.unmaskBigZoneNext r.bigZoneHead

/-- The record after `b` (0 at the end). -/
def bigNext (b : BigZone) : Word := if b.next = 0 then 0 else r.unmaskBigZoneNext b.next

/-- The search loop of `_iso_big_alloc` from record `a`: the first free record
of at least `size` bytes, and the last record visited before it. -/
def bigAllocWalk (size : Nat) : Nat → Word → Word → Except Stop (Word × Word)
  | 0, _, _ => throw .loop
  | fuel + 1, a, last => do
    if a = 0 then return (0, last)
    let b ← r.readBig a
    r.checkBigCanary a b
    if b.free && decide (size ≤ b.size) then return (a, last)
    bigAllocWalk size fuel (r.bigNext b) a

/-- `last_big->next = MASK_BIG_ZONE_NEXT(big)` when the walk visited a record. -/
def linkAfter (last a : Word) : Except Stop Root :=
  if last ≠ 0 then do
    let lb ← r.readBig last
    pure (r.writeBig last { lb with next := r.unmaskBigZoneNext a })
  else pure r

/-- `_iso_big_alloc`: the payload address. A new record's user mapping is
`(page << BIG_ZONE_USER_PAGE_COUNT_SHIFT) + size` bytes at `env.userMap`,
with a guard page at its start and one right after the payload. -/
def isoBigAlloc (env : BigAllocEnv) (size : Nat) : Except Stop (Word × Root) := do
  let newSize := (roundUpPage r.systemPageSize (BitVec.ofNat 64 size)).toNat
  if decide (newSize < size) || decide (C.bigSzMax < newSize) then
    throw (.abort "Cannot allocate a big zone of %ld bytes")
  let size := newSize
  let (found, last) ← bigAllocWalk r size (r.bigZones.length + 1) r.bigHead 0
  if found = 0 then
    let page := r.systemPageSize
    let offset := (C.alignSzDown env.rand.toNat % 0x100000000).toNat
    let s := page - (C.bigZoneSizeof - 1)
    let a := env.metaMap + BitVec.ofNat 64 page + BitVec.ofNat 64 ((offset * s) >>> 32)
    let user := env.userMap + BitVec.ofNat 64 page
    let heap := r.heap.protect env.userMap ((page <<< C.bigZoneUserPageCountShift) + size) true
    let heap := (heap.protect env.userMap page false).protect (user + BitVec.ofNat 64 size) page false
    let b : BigZone := { userPagesStart := user, size := size, free := false, next := 0,
                         canaryA := 0, canaryB := 0 }
    let b := { b with canaryA := r.bigCanary a b, canaryB := r.bigCanary a b }
    let r ← r.linkAfter last a
    let r := { r with bigZones := r.bigZones ++ [(a, b)], heap := heap }
    let newHead : Word := if r.bigZoneHead = (0 : Word) then r.unmaskBigZoneNext a else r.bigZoneHead
    let r := { r with bigZoneHead := newHead }
    pure (user, r)
  else
    let b ← r.readBig found
    r.checkBigCanary found b
    pure (b.userPagesStart, r.writeBig found { b with free := false })

/-- The loop of `iso_find_big_zone` from record `a`. -/
def findBigWalk (p : Word) : Nat → Word → Except Stop (Option Word)
  | 0, _ => throw .loop
  | fuel + 1, a => do
    if a = 0 then return none
    let b ← r.readBig a
    r.checkBigCanary a b
    if p = b.userPagesStart then return some a
    if b.userPagesStart.ult p && p.ult (b.userPagesStart + BitVec.ofNat 64 b.size) then
      throw (.abort "Invalid free of big zone allocation at 0x%p in mapping 0x%p")
    findBigWalk p fuel (r.bigNext b)

/-- `iso_find_big_zone`: the address of the record whose payload starts at `p`. -/
def isoFindBigZone (p : Word) : Except Stop (Option Word) :=
  findBigWalk r p (r.bigZones.length + 1) r.bigHead

/-- The unlinking loop of a permanent `iso_free_big_zone` of the record at
`target`, from record `a`: the predecessor's `next` becomes
`UNMASK_BIG_ZONE_NEXT(big_zone->next)`. Returns the record it stopped at. -/
def unlinkWalk (target : Word) (tb : BigZone) : Nat → Word → Root → Except Stop (Word × Root)
  | 0, _, _ => throw .loop
  | fuel + 1, a, r => do
    if a = 0 then return (0, r)
    let b ← r.readBig a
    r.checkBigCanary a b
    if r.unmaskBigZoneNext b.next = target then
      return (a, r.writeBig a { b with next := r.unmaskBigZoneNext tb.next })
    unlinkWalk target tb fuel (r.bigNext b) r

/-- The unlinking of a permanent free of the record `b` at `a`: a NULL head
when `a` is first, else the walk that patches its predecessor. -/
def unlinkBig (a : Word) (b : BigZone) : Except Stop (Word × Root) :=
  if r.bigHead = a then pure (a, { r with bigZoneHead := 0 })
  else unlinkWalk a b (r.bigZones.length + 1) r.bigHead r

/-- The payload of `b` poisoned when `SANITIZE_CHUNKS` is set, then
`madvise(MADV_DONTNEED)`. -/
def discardBigPayload (b : BigZone) : Except Stop Root := do
  let h ← (if C.sanitizeChunks then r.heap.memset b.userPagesStart poisonWord b.size else pure r.heap)
  pure ({ r with heap := h }.madviseDontneed b.userPagesStart b.size)

/-- The end of a permanent free of the record `b` at `a`: its payload and the
page of the record become `PROT_NONE`, and the record, poisoned on a page no
one can read, is gone. -/
def dropBigRecord (a : Word) (b : BigZone) : Root :=
  let page := r.systemPageSize
  let recordPage := roundDownPage page a
  { r with bigZones := r.bigZones.filter fun e => e.1 ≠ a,
           heap := (r.heap.protect b.userPagesStart b.size false).protect recordPage page false,
           osCalls := r.osCalls ++ [.mprotect b.userPagesStart b.size, .mprotect recordPage page] }

/-- `iso_free_big_zone` of the record at `a`. -/
def isoFreeBigZone (a : Word) (permanent : Bool) : Except Stop Root := do
  let b ← r.readBig a
  if b.free then throw (.abort "Double free of big zone 0x%p has been detected!")
  let r ← r.discardBigPayload C b
  if permanent = false then return r.writeBig a { b with free := true }
  let (stop, r) ← r.unlinkBig a b
  if stop = 0 then
    throw (.abort "The big zone list has been corrupted, unable to find big zone 0x%p")
  pure (r.dropBigRecord a b)

end Root

end IsoAlloc
