import Mathlib.Logic.Function.Basic

/-!
Build constants, bit operations and bit-slot arithmetic of the allocator.
The tunables of iso_alloc_internal.h that src/ keeps are plain definitions.
The zone geometry macros of the same header are not in src/: they are the
fields of `Config`, and the bitmap encoding follows the spec's description
of it (two bits a chunk, low bit first, 32 chunks a 64-bit word).
-/

namespace IsoAlloc

/-- A 64-bit machine word: bitmap words, pointers, canaries and secrets. -/
abbrev Word := BitVec 64

/-- The macros of iso_alloc_internal.h that src/ does not contain, and the
build switches that select the paths the model follows. `neverReuseZones`
is the test `NEVER_REUSE_ZONES || FUZZ_MODE` of the zone destruction. The
`_verify_all_zones` calls that `FUZZ_MODE` adds to `_iso_alloc` and
`_iso_free_internal_unlocked` are not modelled: with `FUZZ_MODE` on, the model
leaves out those checks. -/
structure Config where
  zoneUserSize : Nat
  smallSzMax : Nat
  bigSzMax : Nat
  alignment : Nat
  wastedSzMultiplierShift : Nat
  canaryValidateMask : Word
  alignSzDown : Nat → Int
  chunkTableBucket : Word → Nat
  bigZoneSizeof : Nat
  bigZoneUserPageCountShift : Nat
  neverReuseZones : Bool
  shuffleBitSlotCache : Bool
  sanitizeChunks : Bool

/-- A build with the spec's example sizes (4 MiB zones) and 8-byte alignment;
the remaining macros take the values of a common x86-64 build. -/
def exampleConfig : Config where
  zoneUserSize := 4194304
  smallSzMax := 131072
  bigSzMax := 4294967296
  alignment := 8
  wastedSzMultiplierShift := 3
  canaryValidateMask := 0xffffffffffffff00#64
  alignSzDown n := ((n + 7) / 8 * 8 : Int) - 8
  chunkTableBucket p := (p >>> 32).toNat % 65536
  bigZoneSizeof := 48
  bigZoneUserPageCountShift := 1
  neverReuseZones := false
  shuffleBitSlotCache := false
  sanitizeChunks := false

def bitSlotCacheSz : Nat := 255
def zoneCacheSz : Nat := 8
def chunkQuarantineSz : Nat := 64
def maxZones : Nat := 8192
def zoneAllocRetire : Nat := 32
def canaryCountDiv : Nat := 100
def maxDefaultZoneSz : Nat := 8192
def smallestChunkSz : Nat := 16
def zone128 : Nat := 128
def zone1024 : Nat := 1024

/-- `POISON_BYTE` repeated over a word, as `memset` writes it. -/
def poisonWord : Word := 0xdededededededede#64

/-- Modelled from the spec: the "no slot" value of `bit_slot_t`. The refill
stores it with a byte-wise `memset`, which needs equal bytes, as -1 has. -/
def badBitSlot : Int := -1

/-- Modelled from the spec: the word whose 32 slots are all `10` (in use). -/
def allocatedBitslots : Word := 0x5555555555555555#64

/-- Modelled from the spec: `GET_BIT`, `SET_BIT` and `UNSET_BIT` on a word. -/
def getBit (w : Word) (k : Nat) : Bool := w.getLsbD k

def setBit (w : Word) (k : Nat) : Word := w ||| (1#64 <<< k)

def unsetBit (w : Word) (k : Nat) : Word := w &&& ~~~(1#64 <<< k)

@[simp] theorem getBit_of_ge (w : Word) {j : Nat} (h : 64 ≤ j) : getBit w j = false :=
  BitVec.getLsbD_ge w j h

@[simp] theorem getBit_setBit (w : Word) (k j : Nat) :
    getBit (setBit w k) j = (getBit w j || decide (j = k ∧ k < 64)) := by
  by_cases h : j < 64
  · simp only [getBit, setBit, BitVec.getLsbD_or, BitVec.getLsbD_shiftLeft, BitVec.getLsbD_one]
    by_cases hjk : j = k
    · subst hjk; simp [h]
    · (by_cases hk : k ≤ j <;> simp [h, hjk, hk]); omega
  · simp [getBit_of_ge _ (Nat.le_of_not_lt h)]; omega

@[simp] theorem getBit_unsetBit (w : Word) (k j : Nat) :
    getBit (unsetBit w k) j = (getBit w j && !decide (j = k ∧ k < 64)) := by
  by_cases h : j < 64
  · simp only [getBit, unsetBit, BitVec.getLsbD_and, BitVec.getLsbD_not,
      BitVec.getLsbD_shiftLeft, BitVec.getLsbD_one]
    by_cases hjk : j = k
    · subst hjk; simp [h]
    · by_cases hk : k ≤ j <;> simp [h, hjk, hk] <;> omega
  · simp [getBit_of_ge _ (Nat.le_of_not_lt h)]

theorem xor_eq_iff_eq_xor {a b m : Word} : a ^^^ m = b ↔ a = b ^^^ m := by
  constructor <;> rintro rfl <;> simp [BitVec.xor_assoc]

/-- Modelled from the spec: a bit slot is `(word << 6) + offset`. -/
def wordOfSlot (bitSlot : Nat) : Nat := bitSlot >>> 6

/-- `WHICH_BIT`: the offset of a bit slot inside its word. -/
def whichBit (bitSlot : Nat) : Nat := bitSlot % 64

theorem wordOfSlot_eq (bitSlot : Nat) : wordOfSlot bitSlot = bitSlot / 64 := by
  simp [wordOfSlot, Nat.shiftRight_eq_div_pow]

/-- Why an operation stopped: a `LOG_AND_ABORT` with its message, an access
to a guard page or an unmapped address, or a loop that never exits. -/
inductive Stop where
  | abort (msg : String)
  | segv (addr : Word)
  | loop
  deriving DecidableEq, Repr

theorem bind_eq_ok {ε α β : Type} {x : Except ε α} {f : α → Except ε β} {b : β} :
    x >>= f = .ok b ↔ ∃ a, x = .ok a ∧ f a = .ok b := by
  cases x <;> simp [bind, Except.bind]

theorem bind_eq_error {ε α β : Type} {x : Except ε α} {f : α → Except ε β} {e : ε} :
    x >>= f = .error e ↔ x = .error e ∨ ∃ a, x = .ok a ∧ f a = .error e := by
  cases x <;> simp [bind, Except.bind]

@[simp] theorem map_eq_error {ε α β : Type} {x : Except ε α} {f : α → β} {e : ε} :
    f <$> x = .error e ↔ x = .error e := by
  cases x <;> simp [Functor.map, Except.map]

theorem exists_eq_ok_of_isOk {ε α : Type} {x : Except ε α} (h : x.isOk = true) :
    ∃ a, x = .ok a := by
  cases x with
  | error e => simp [Except.isOk, Except.toBool] at h
  | ok a => exact ⟨a, rfl⟩

@[simp] theorem throw_bind {ε α β : Type} {e : ε} {f : α → Except ε β} :
    (throw e >>= f : Except ε β) = throw e := rfl

@[simp] theorem pure_eq_ok {ε α : Type} {a b : α} : (pure a : Except ε α) = .ok b ↔ a = b := by
  simp [pure, Except.pure]

@[simp] theorem pure_ne_error {ε α : Type} {a : α} {e : ε} : (pure a : Except ε α) ≠ .error e := by
  simp [pure, Except.pure]

@[simp] theorem throw_eq_error {ε α : Type} {e e' : ε} : (throw e : Except ε α) = .error e' ↔ e = e' := by
  simp [throw, throwThe, MonadExceptOf.throw]

@[simp] theorem throw_ne_ok {ε α : Type} {e : ε} {b : α} : (throw e : Except ε α) ≠ .ok b := by
  simp [throw, throwThe, MonadExceptOf.throw]

theorem ite_throw_eq_ok {ε α : Type} {c : Prop} [Decidable c] {e : ε} {x : Except ε α} {b : α} :
    (if c then throw e else x) = .ok b ↔ ¬c ∧ x = .ok b := by
  by_cases hc : c <;> simp [hc]

end IsoAlloc
