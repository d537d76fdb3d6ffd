import IsoAlloc.BigCanary
import IsoAlloc.BigPlacement
import IsoAlloc.BigZoneList
import IsoAlloc.FreePath
import IsoAlloc.Isolation
import Mathlib.Data.List.Nodup
import Mathlib.Data.List.Pairwise

/-!
The big-zone list in memory against the list of records. `_iso_big_alloc`
appends each new record to the records and links it from the last record its
walk visited, or from `big_zone_head` when there was none; every link is the
next record's address XOR `big_zone_next_mask`, NULL after the last. As long
as no entry point frees permanently, the two stay in step: the list read from
the head is exactly the records in allocation order, and `iso_find_big_zone`
reaches the record of every payload. This needs each new record at an address
that is not NULL, not a record's, and not the mask itself, whose masked link
would read as NULL and cut the list there.
-/

namespace IsoAlloc

open Relation

@[simp] theorem except_ok_bind {ε α β : Type} {x : α} {f : α → Except ε β} :
    (Except.ok x >>= f : Except ε β) = f x := rfl

namespace Root

variable {C : Config} {r r' r1 : Root} {a last : Word} {b b' : BigZone}

section Links

variable {m : Word}

/-- The first address of the records `es`, 0 for none. -/
def firstAddr : List (Word × BigZone) → Word
  | [] => 0
  | e :: _ => e.1

/-- The last address of the records `es`, `d` for none. -/
def lastAddr : Word → List (Word × BigZone) → Word
  | d, [] => d
  | _, e :: es => lastAddr e.1 es

/-- The link stored for the records `es` under the mask `m`: the first
address masked, NULL for none. -/
def linkTo (m : Word) : List (Word × BigZone) → Word
  | [] => 0
  | e :: _ => e.1 ^^^ m

/-- Each record's `next` is the link to the records after it. -/
def Chained (m : Word) : List (Word × BigZone) → Prop
  | [] => True
  | e :: es => e.2.next = linkTo m es ∧ Chained m es

theorem lastAddr_concat {x : Word × BigZone} :
    ∀ {d : Word} {l : List (Word × BigZone)}, lastAddr d (l ++ [x]) = x.1
  | _, [] => rfl
  | _, _ :: l => lastAddr_concat (l := l)

theorem linkTo_snoc {l : List (Word × BigZone)} {x : Word × BigZone} {b' : BigZone}
    {rest : List (Word × BigZone)} : linkTo m (l ++ (x.1, b') :: rest) = linkTo m (l ++ [x]) := by
  cases l <;> rfl

theorem Chained.snoc {x y : Word × BigZone} {b' : BigZone} (hx : b'.next = y.1 ^^^ m) (hy : y.2.next = 0) :
    ∀ {l : List (Word × BigZone)}, Chained m (l ++ [x]) → Chained m (l ++ [(x.1, b'), y])
  | [], _ => ⟨hx, hy, trivial⟩
  | _ :: _, ⟨hn, hc⟩ => ⟨hn.trans linkTo_snoc.symm, Chained.snoc hx hy hc⟩

theorem linkTo_congr {l l' : List (Word × BigZone)} (h : l'.map Prod.fst = l.map Prod.fst) :
    linkTo m l' = linkTo m l := by
  cases l <;> cases l' <;> simp_all [linkTo]

theorem Chained.map {f : Word × BigZone → Word × BigZone} :
    ∀ {l : List (Word × BigZone)}, (∀ e ∈ l, (f e).1 = e.1 ∧ (f e).2.next = e.2.next) →
      Chained m l → Chained m (l.map f)
  | [], _, _ => trivial
  | e :: l, hf, ⟨hn, hc⟩ => by
    have hf' : ∀ e ∈ l, (f e).1 = e.1 ∧ (f e).2.next = e.2.next := fun e' h => hf e' (List.mem_cons_of_mem _ h)
    refine ⟨?_, Chained.map hf' hc⟩
    rw [(hf e (List.mem_cons_self _ _)).2, hn, linkTo_congr]
    simp only [List.map_map]
    exact List.map_congr_left fun e' h => (hf' e' h).1.symm

theorem xor_eq_zero_iff {x : Word} : x ^^^ m = 0 ↔ x = m := by
  simp [xor_eq_iff_eq_xor]

theorem follow_linkTo {es : List (Word × BigZone)} (h : ∀ e ∈ es, e.1 ≠ m) :
    (if linkTo m es = 0 then 0 else linkTo m es ^^^ m) = firstAddr es := by
  cases es with
  | nil => rfl
  | cons e es =>
    have hne : e.1 ^^^ m ≠ 0 := fun h0 => h e (List.mem_cons_self _ _) (xor_eq_zero_iff.1 h0)
    rw [linkTo, if_neg hne, firstAddr, BitVec.xor_assoc, BitVec.xor_self, BitVec.xor_zero]

theorem linkTo_ne_zero {l : List (Word × BigZone)} (hne : l ≠ []) (h : ∀ e ∈ l, e.1 ≠ m) : linkTo m l ≠ 0 := by
  cases l with
  | nil => exact absurd rfl hne
  | cons e l => exact fun h0 => h e (List.mem_cons_self _ _) (xor_eq_zero_iff.1 h0)

end Links

theorem bigHead_eq {es : List (Word × BigZone)} (hh : r.bigZoneHead = linkTo r.bigZoneNextMask es)
    (h : ∀ e ∈ es, e.1 ≠ r.bigZoneNextMask) : r.bigHead = firstAddr es := by
  rw [bigHead, hh]; exact follow_linkTo h

theorem bigNext_eq {es : List (Word × BigZone)} (hn : b.next = linkTo r.bigZoneNextMask es)
    (h : ∀ e ∈ es, e.1 ≠ r.bigZoneNextMask) : r.bigNext b = firstAddr es := by
  rw [bigNext, hn]; exact follow_linkTo h

section Lookup

variable {e e' : Word × BigZone}

theorem lookup_of_mem : ∀ {l : List (Word × BigZone)}, (l.map Prod.fst).Nodup → e ∈ l → l.lookup e.1 = some e.2
  | [], _, he => absurd he (List.not_mem_nil _)
  | (k, v) :: l, hnd, he => by
    rw [List.lookup_cons]
    rcases List.mem_cons.1 he with rfl | he
    · simp
    · have hnd' : k ∉ l.map Prod.fst := (List.nodup_cons.1 hnd).1
      have hk : (e.1 == k) = false := beq_false_of_ne fun hk => hnd' (hk ▸ List.mem_map_of_mem Prod.fst he)
      rw [hk]
      exact lookup_of_mem (List.nodup_cons.1 hnd).2 he

theorem eq_of_fst_eq {l : List (Word × BigZone)} (hnd : (l.map Prod.fst).Nodup) (he : e ∈ l) (he' : e' ∈ l)
    (h : e.1 = e'.1) : e = e' := by
  have h2 := lookup_of_mem hnd he
  rw [h, lookup_of_mem hnd he'] at h2
  exact Prod.ext h (Option.some.inj h2).symm

theorem readBig_of_mem (hnd : (r.bigZones.map Prod.fst).Nodup) (he : e ∈ r.bigZones) :
    r.readBig e.1 = .ok e.2 := by
  rw [readBig, lookup_of_mem hnd he]; rfl

theorem writeBig_map {γ : Type} {g : Word × BigZone → γ} (hnd : (r.bigZones.map Prod.fst).Nodup)
    (hb : r.readBig a = .ok b) (hg : g (a, b') = g (a, b)) :
    (r.writeBig a b').bigZones.map g = r.bigZones.map g := by
  simp only [writeBig, List.map_map]
  refine List.map_congr_left fun e he => ?_
  simp only [Function.comp_apply]
  split
  · next hea => rw [hg, eq_of_fst_eq hnd (mem_of_readBig hb) he hea.symm]
  · rfl

end Lookup

/-- The big-zone list as `_iso_big_alloc` builds it: the records at distinct
addresses, none NULL or the mask, linked in order from the head. -/
structure BigListOk (r : Root) : Prop where
  nodup : (r.bigZones.map Prod.fst).Nodup
  addr : ∀ x ∈ r.bigZones.map Prod.fst, x ≠ 0 ∧ x ≠ r.bigZoneNextMask
  head : r.bigZoneHead = linkTo r.bigZoneNextMask r.bigZones
  chained : Chained r.bigZoneNextMask r.bigZones

namespace BigListOk

variable (hl : r.BigListOk)
include hl

theorem ne_zero {e : Word × BigZone} (he : e ∈ r.bigZones) : e.1 ≠ 0 :=
  (hl.addr e.1 (List.mem_map_of_mem _ he)).1

theorem ne_mask {es : List (Word × BigZone)} (hsub : ∀ e ∈ es, e ∈ r.bigZones) :
    ∀ e ∈ es, e.1 ≠ r.bigZoneNextMask :=
  fun e he => (hl.addr e.1 (List.mem_map_of_mem _ (hsub e he))).2

theorem bigHead : r.bigHead = firstAddr r.bigZones := bigHead_eq hl.head (hl.ne_mask fun _ => id)

theorem decodeFrom : ∀ {es : List (Word × BigZone)} {fuel : Nat}, (∀ e ∈ es, e ∈ r.bigZones) →
    Chained r.bigZoneNextMask es → es.length < fuel → r.decodeFrom fuel (firstAddr es) = some (es.map Prod.fst)
  | [], fuel + 1, _, _, _ => by simp [Root.decodeFrom, firstAddr]
  | e :: es, fuel + 1, hsub, ⟨hn, hc⟩, hlen => by
    have he := hsub e (List.mem_cons_self _ _)
    have hsub' : ∀ e ∈ es, e ∈ r.bigZones := fun e' h => hsub e' (List.mem_cons_of_mem _ h)
    show r.decodeFrom (fuel + 1) e.1 = _
    rw [Root.decodeFrom, if_neg (hl.ne_zero he), lookup_of_mem hl.nodup he]
    simp only [bigNext_eq hn (hl.ne_mask hsub'), decodeFrom hsub' hc (by simpa using hlen), Option.map_some',
      List.map_cons]

theorem decode : r.decodeBigList = some (r.bigZones.map Prod.fst) := by
  rw [decodeBigList, hl.bigHead]
  exact hl.decodeFrom (fun _ => id) hl.chained (Nat.lt_succ_self _)

theorem bigAllocWalk_last {size : Nat} : ∀ {es : List (Word × BigZone)} {fuel : Nat} {d : Word},
    (∀ e ∈ es, e ∈ r.bigZones) → Chained r.bigZoneNextMask es →
    r.bigAllocWalk size fuel (firstAddr es) d = .ok (0, last) → last = lastAddr d es
  | _, 0, _, _, _, h => absurd h throw_ne_ok
  | [], fuel + 1, d, _, _, h => by
    simp only [bigAllocWalk, firstAddr, if_true] at h
    cases pure_eq_ok.1 h; rfl
  | e :: es, fuel + 1, d, hsub, ⟨hn, hc⟩, h => by
    have he := hsub e (List.mem_cons_self _ _)
    have hsub' : ∀ e ∈ es, e ∈ r.bigZones := fun e' h => hsub e' (List.mem_cons_of_mem _ h)
    simp only [bigAllocWalk, firstAddr, if_neg (hl.ne_zero he), readBig_of_mem hl.nodup he, except_ok_bind,
      pure_bind] at h
    obtain ⟨-, -, h⟩ := bind_eq_ok.1 h
    split at h
    · exact absurd (Prod.mk.inj (pure_eq_ok.1 h)).1 (hl.ne_zero he)
    · rw [bigNext_eq hn (hl.ne_mask hsub')] at h
      exact (bigAllocWalk_last hsub' hc h : last = lastAddr e.1 es)

end BigListOk

theorem bigRecordOffset_lt {o page sz : Nat} (ho : o < 0x100000000) (hP : 0 < page) :
    (o * (page - (sz - 1))) >>> 32 < page := by
  rw [Nat.shiftRight_eq_div_pow]
  rcases Nat.eq_zero_or_pos (page - (sz - 1)) with h0 | hs
  · rw [h0, Nat.mul_zero, Nat.zero_div]; exact hP
  · calc o * (page - (sz - 1)) / 2 ^ 32 < page - (sz - 1) :=
          Nat.div_lt_of_lt_mul (Nat.mul_lt_mul_of_pos_right ho hs)
      _ ≤ page := Nat.sub_le _ _

theorem linkAfter_cases (h : r.linkAfter last a = .ok r1) :
    (last = 0 ∧ r1 = r) ∨
      ∃ lb, last ≠ 0 ∧ r.readBig last = .ok lb ∧ r1 = r.writeBig last { lb with next := r.unmaskBigZoneNext a } := by
  unfold linkAfter at h
  split at h
  · next hl =>
    obtain ⟨lb, hlb, h⟩ := bind_eq_ok.1 h
    exact .inr ⟨lb, hl, hlb, (pure_eq_ok.1 h).symm⟩
  · next hl => exact .inl ⟨not_not.1 hl, (pure_eq_ok.1 h).symm⟩

/-- What `_iso_big_alloc` does to the big-zone list: it clears the free flag of
the record its walk found, or it appends a record `(a, b)` with a NULL `next`,
less than a page into the page after the first of its metadata mapping, with
its payload one page into its user mapping, links it from the last record the
walk visited, and makes it the head of an empty list. -/
theorem isoBigAlloc_cases {env : BigAllocEnv} {size : Nat} {p : Word} (hP : 0 < r.systemPageSize)
    (h : r.isoBigAlloc C env size = .ok (p, r')) :
    r'.bigZoneNextMask = r.bigZoneNextMask ∧ r'.systemPageSize = r.systemPageSize ∧
    ((∃ found b, r.readBig found = .ok b ∧ r'.bigZones = (r.writeBig found { b with free := false }).bigZones ∧
        r'.bigZoneHead = r.bigZoneHead) ∨
     ∃ sz last a b r1, r.bigAllocWalk sz (r.bigZones.length + 1) r.bigHead 0 = .ok (0, last) ∧
        (∃ v < r.systemPageSize, a = env.metaMap + BitVec.ofNat 64 r.systemPageSize + BitVec.ofNat 64 v) ∧
        b.next = 0 ∧ b.userPagesStart = env.userMap + BitVec.ofNat 64 r.systemPageSize ∧ b.size ≤ C.bigSzMax ∧
        r.linkAfter last a = .ok r1 ∧ r'.bigZones = r1.bigZones ++ [(a, b)] ∧
        r'.bigZoneHead = if r.bigZoneHead = 0 then a ^^^ r.bigZoneNextMask else r.bigZoneHead) := by
  have hfr := isoBigAlloc_frame h
  refine ⟨by rw [hfr], by rw [hfr], ?_⟩
  simp only [isoBigAlloc, pure_bind, throw_bind, ite_throw_eq_ok, Bool.or_eq_true, decide_eq_true_eq,
    not_or, not_lt] at h
  obtain ⟨⟨-, hmax⟩, h⟩ := h
  obtain ⟨⟨found, last⟩, hw, h⟩ := bind_eq_ok.1 h
  dsimp only at h
  split at h
  · next hf =>
    obtain ⟨r1, h1, h⟩ := bind_eq_ok.1 h
    cases pure_eq_ok.1 h
    refine .inr ⟨_, last, _, _, r1, hf ▸ hw, ⟨_, bigRecordOffset_lt (by omega) hP, rfl⟩, rfl, rfl, hmax, h1, rfl, ?_⟩
    rcases linkAfter_cases h1 with ⟨-, rfl⟩ | ⟨lb, -, -, rfl⟩ <;> rfl
  · obtain ⟨b, hb, h⟩ := bind_eq_ok.1 h
    obtain ⟨-, -, h⟩ := bind_eq_ok.1 h
    cases pure_eq_ok.1 h
    exact .inl ⟨found, b, hb, rfl, rfl⟩

theorem isoFreeBigZone_temp (h : r.isoFreeBigZone C a false = .ok r') :
    ∃ b h1, r.readBig a = .ok b ∧
      r' = ({ r with heap := h1 }.madviseDontneed b.userPagesStart b.size).writeBig a { b with free := true } := by
  obtain ⟨b, r1, hb, -, hd, ⟨-, rfl⟩ | ⟨h', -⟩⟩ := isoFreeBigZone_ok h
  · obtain ⟨h1, -, rfl⟩ := discardBigPayload_ok hd
    exact ⟨b, h1, hb, rfl⟩
  · cases h'

/-- What an entry point does to the big-zone list short of a big allocation:
nothing, or an `iso_free_big_zone` with the entry point's `permanent`. -/
inductive BigMove (C : Config) (perm : Bool) : Root → Root → Prop
  | same {r r' : Root} : BigSame r r' → BigMove C perm r r'
  | free {r r' : Root} {a : Word} : r.isoFreeBigZone C a perm = .ok r' → BigMove C perm r r'

theorem linkAfter_map {γ : Type} {g : Word × BigZone → γ} (hnd : (r.bigZones.map Prod.fst).Nodup)
    (hg : ∀ x (b : BigZone) w, g (x, { b with next := w }) = g (x, b)) (h : r.linkAfter last a = .ok r1) :
    r1.bigZones.map g = r.bigZones.map g := by
  rcases linkAfter_cases h with ⟨-, rfl⟩ | ⟨lb, -, hlb, rfl⟩
  · rfl
  · exact writeBig_map hnd hlb (hg _ _ _)

namespace BigListOk

variable (hl : r.BigListOk)
include hl

theorem congr (hz : r'.bigZones = r.bigZones) (hh : r'.bigZoneHead = r.bigZoneHead)
    (hm : r'.bigZoneNextMask = r.bigZoneNextMask) : r'.BigListOk := by
  obtain ⟨h1, h2, h3, h4⟩ := hl
  exact ⟨hz ▸ h1, hz ▸ hm ▸ h2, hz ▸ hm ▸ hh ▸ h3, hz ▸ hm ▸ h4⟩

theorem of_same (h : BigSame r r') : r'.BigListOk := hl.congr h.records h.head h.mask

theorem writeBig (hb : r.readBig a = .ok b) (hn : b'.next = b.next) : (r.writeBig a b').BigListOk where
  nodup := (writeBig_addrs a b').symm ▸ hl.nodup
  addr := (writeBig_addrs a b').symm ▸ hl.addr
  head := hl.head.trans (linkTo_congr (writeBig_addrs a b')).symm
  chained := by
    refine Chained.map (fun e he => ?_) hl.chained
    split
    · next hea =>
      obtain rfl := eq_of_fst_eq hl.nodup he (mem_of_readBig hb) hea
      exact ⟨rfl, hn⟩
    · exact ⟨rfl, rfl⟩

/-- A new record `(a, b)` with NULL `next`, at a fresh address, linked after
the last record the walk of `_iso_big_alloc` visited. -/
theorem append {sz : Nat} (hw : r.bigAllocWalk sz (r.bigZones.length + 1) r.bigHead 0 = .ok (0, last))
    (ha : a ∉ 0 :: r.bigZoneNextMask :: r.bigZones.map Prod.fst) (hb : b.next = 0)
    (h1 : r.linkAfter last a = .ok r1) (hm : r'.bigZoneNextMask = r.bigZoneNextMask)
    (hz : r'.bigZones = r1.bigZones ++ [(a, b)])
    (hh : r'.bigZoneHead = if r.bigZoneHead = 0 then a ^^^ r.bigZoneNextMask else r.bigZoneHead) :
    r'.BigListOk := by
  simp only [List.mem_cons, not_or] at ha
  obtain ⟨ha0, ham, haz⟩ := ha
  have hlast : last = lastAddr 0 r.bigZones := hl.bigAllocWalk_last (fun _ => id) hl.chained (hl.bigHead ▸ hw)
  have haddrs : r'.bigZones.map Prod.fst = r.bigZones.map Prod.fst ++ [a] := by
    rw [hz, List.map_append, linkAfter_addrs h1]; rfl
  have hnodup : (r'.bigZones.map Prod.fst).Nodup :=
    haddrs ▸ hl.nodup.append (List.nodup_singleton a) (List.disjoint_singleton.2 haz)
  have haddr : ∀ x ∈ r'.bigZones.map Prod.fst, x ≠ 0 ∧ x ≠ r'.bigZoneNextMask := by
    rw [haddrs, hm]
    intro x hx
    rcases List.mem_append.1 hx with hx | hx
    · exact hl.addr x hx
    · rw [List.mem_singleton.1 hx]; exact ⟨ha0, ham⟩
  rcases List.eq_nil_or_concat r.bigZones with h0 | ⟨l0, eL, hL⟩
  · have hr1 : r1 = r := by
      rcases linkAfter_cases h1 with ⟨-, rfl⟩ | ⟨lb, hne, -, -⟩
      · rfl
      · exact absurd (by rw [hlast, h0]; rfl) hne
    have hz1 : r'.bigZones = [(a, b)] := by rw [hz, hr1, h0]; rfl
    have hh0 : r.bigZoneHead = 0 := by rw [hl.head, h0]; rfl
    refine ⟨hnodup, haddr, ?_, ?_⟩
    · rw [hh, if_pos hh0, hz1, hm]; rfl
    · rw [hz1, hm]; exact ⟨hb, trivial⟩
  · rw [List.concat_eq_append] at hL
    have heL : eL ∈ r.bigZones := hL ▸ List.mem_append_right _ (List.mem_singleton_self _)
    have hne : ∀ e ∈ l0, e.1 ≠ eL.1 := by
      have := hL ▸ hl.nodup
      rw [List.map_append] at this
      exact fun e he h => List.disjoint_singleton.1 (List.nodup_append.1 this).2.2 (h ▸ List.mem_map_of_mem _ he)
    have hlastL : last = eL.1 := by rw [hlast, hL, lastAddr_concat]
    obtain ⟨lb, -, hlb, rfl⟩ := (linkAfter_cases h1).resolve_left fun h0 =>
      hl.ne_zero heL (hlastL ▸ h0.1)
    have hlb' : lb = eL.2 := by
      rw [hlastL, readBig_of_mem hl.nodup heL] at hlb; exact (Except.ok.inj hlb).symm
    subst hlastL hlb'
    have hz1 : r'.bigZones = l0 ++ [(eL.1, { eL.2 with next := a ^^^ r.bigZoneNextMask }), (a, b)] := by
      rw [hz, Root.writeBig, hL, List.map_append, List.map_congr_left fun e he => if_neg (hne e he)]
      simp [unmaskBigZoneNext]
    have hmasks := hl.ne_mask fun _ => id
    refine ⟨hnodup, haddr, ?_, ?_⟩
    · have hh1 : r.bigZoneHead ≠ 0 := hl.head ▸ linkTo_ne_zero (by rw [hL]; simp) hmasks
      rw [hh, if_neg hh1, hl.head, hz1, hm, hL]
      exact linkTo_snoc.symm
    · have hc := hl.chained
      rw [hL] at hc
      rw [hz1, hm]
      exact Chained.snoc rfl hb hc

theorem move : BigMove C false r r' → r'.BigListOk
  | .same h => hl.of_same h
  | .free h => by
    obtain ⟨b, h1, hb, rfl⟩ := isoFreeBigZone_temp h
    have hl1 : ({ r with heap := h1 }.madviseDontneed b.userPagesStart b.size).BigListOk := hl.congr rfl rfl rfl
    exact hl1.writeBig hb rfl

end BigListOk

/-- The payloads of the big records, guard pages included, are pairwise apart. -/
def BigApart (r : Root) : Prop := (r.bigZones.map fun e => e.2.span r.systemPageSize).Pairwise Span.Apart

namespace BigApart

variable (ha : r.BigApart)
include ha

theorem congr (hz : r'.bigZones = r.bigZones) (hp : r'.systemPageSize = r.systemPageSize) : r'.BigApart := by
  unfold BigApart; rw [hz, hp]; exact ha

theorem writeBig (hnd : (r.bigZones.map Prod.fst).Nodup) (hb : r.readBig a = .ok b)
    (hu : b'.userPagesStart = b.userPagesStart) (hs : b'.size = b.size) : (r.writeBig a b').BigApart := by
  unfold BigApart
  rw [writeBig_map hnd hb (by simp only [BigZone.span, hu, hs])]
  exact ha

/-- A new record apart from every record. -/
theorem append (hnd : (r.bigZones.map Prod.fst).Nodup) (h1 : r.linkAfter last a = .ok r1)
    (hz : r'.bigZones = r1.bigZones ++ [(a, b)]) (hp : r'.systemPageSize = r.systemPageSize)
    (hnew : ∀ e ∈ r.bigZones, (e.2.span r.systemPageSize).Apart (b.span r.systemPageSize)) : r'.BigApart := by
  unfold BigApart
  rw [hz, hp, List.map_append, linkAfter_map (g := fun e => e.2.span r.systemPageSize) hnd (fun _ _ _ => rfl) h1]
  refine List.pairwise_append.2 ⟨ha, List.pairwise_singleton _ _, fun x hx y hy => ?_⟩
  obtain ⟨e, he, rfl⟩ := List.mem_map.1 hx
  rw [List.mem_singleton.1 hy]
  exact hnew e he

theorem apart {e e' : Word × BigZone} (he : e ∈ r.bigZones) (he' : e' ∈ r.bigZones) (hne : e.1 ≠ e'.1) :
    (e.2.span r.systemPageSize).Apart (e'.2.span r.systemPageSize) :=
  (List.pairwise_map.1 ha).forall (fun _ _ h => Span.Apart.symm h) he he' fun h => hne (congrArg Prod.fst h)

theorem move (hnd : (r.bigZones.map Prod.fst).Nodup) : BigMove C false r r' → r'.BigApart
  | .same h => ha.congr h.records h.page
  | .free h => by
    obtain ⟨b, h1, hb, rfl⟩ := isoFreeBigZone_temp h
    have ha1 : ({ r with heap := h1 }.madviseDontneed b.userPagesStart b.size).BigApart := ha.congr rfl rfl
    exact ha1.writeBig hnd hb rfl rfl

end BigApart

theorem allocEvents_bigSame {E : Nat → NewZoneEnv} (h : ReflTransGen (AllocEvent C E) r r') : BigSame r r' := by
  induction h with
  | refl => exact .refl _
  | tail _ he ih =>
    refine ih.trans ?_
    cases he with
    | usable _ | allocSlot _ _ => exact ⟨rfl, rfl, rfl, rfl, rfl⟩
    | newZone h => exact isoNewZone_bigSame h

section Frees

variable {env : OpEnv} {t t' : ThreadState}

theorem FreeEvent.bigMove {E : Nat → NewZoneEnv} {perm : Bool} (he : FreeEvent C E perm r r') :
    BigMove C perm r r' := by
  cases he with
  | chunk _ => exact .same ⟨rfl, rfl, rfl, rfl, rfl⟩
  | retire _ h => exact .same (isoAllocDestroyZoneUnlocked_bigSame h)
  | big h => exact .free h

theorem frees_bigMoves {E : Nat → NewZoneEnv} {perm : Bool} (h : ReflTransGen (FreeEvent C E perm) r r') :
    ReflTransGen (BigMove C perm) r r' :=
  h.mono fun _ _ => FreeEvent.bigMove

theorem isoAllocDestroyZone_bigMoves {i : Nat} (h : isoAllocDestroyZone C env t r i = .ok (t', r')) :
    ReflTransGen (BigMove C false) r r' := by
  obtain ⟨⟨t1, r1⟩, h1, h⟩ := bind_eq_ok.1 h
  obtain ⟨r2, h2, h⟩ := bind_eq_ok.1 h
  cases pure_eq_ok.1 h
  exact (frees_bigMoves (flushChunkQuarantine_frees h1)).tail (.same (isoAllocDestroyZoneUnlocked_bigSame h2))

end Frees

theorem bigMoves_bigList (h : ReflTransGen (BigMove C false) r r') (hi : r.BigListOk ∧ r.BigApart) :
    r'.BigListOk ∧ r'.BigApart := by
  induction h with
  | refl => exact hi
  | tail _ hm ih => exact ⟨ih.1.move hm, ih.2.move ih.1.nodup hm⟩

/-- The metadata mapping of a new big record is fresh: no address of the page
after its first, where the record goes, is NULL, `big_zone_next_mask` or the
address of a record. -/
def FreshRecord (r : Root) (env : BigAllocEnv) : Prop :=
  ∀ v < r.systemPageSize, env.metaMap + BitVec.ofNat 64 r.systemPageSize + BitVec.ofNat 64 v ∉
    0 :: r.bigZoneNextMask :: r.bigZones.map Prod.fst

theorem isoBigAlloc_bigList {env : OpEnv} {size : Nat} {p : Word} (hshift : 1 ≤ C.bigZoneUserPageCountShift)
    (hP : 0 < r.systemPageSize) (hi : r.BigListOk ∧ r.BigApart) (hf : FreshDraws C r env)
    (hr : r.FreshRecord env.bigEnv) (h : r.isoBigAlloc C env.bigEnv size = .ok (p, r')) :
    r'.BigListOk ∧ r'.BigApart := by
  obtain ⟨hl, ha⟩ := hi
  obtain ⟨hm, hp, ⟨found, b, hb, hz, hh⟩ | ⟨sz, last, a, b, r1, hw, ⟨v, hv, rfl⟩, hn, hu, hs, h1, hz, hh⟩⟩ :=
    isoBigAlloc_cases hP h
  · have hl' : (r.writeBig found { b with free := false }).BigListOk := hl.writeBig hb rfl
    have ha' : (r.writeBig found { b with free := false }).BigApart := ha.writeBig hl.nodup hb rfl rfl
    exact ⟨hl'.congr hz hh hm, ha'.congr hz hp⟩
  · refine ⟨hl.append hw (hr v hv) hn h1 hm hz hh, ha.append hl.nodup h1 hz hp fun e he => ?_⟩
    have h2P := two_page_le_shift hshift r.systemPageSize
    have hfit := hf.bigFits
    dsimp only [BigAllocEnv.span] at hfit
    have hap := hf.bigBig e he
    refine (Span.Apart.mono hap ?_ ?_).symm <;> dsimp only [BigAllocEnv.span, BigZone.span] <;>
      rw [hu, toNat_add_ofNat (by omega)] <;> omega

theorem createDefaultZones_bigSame {env : InitEnv} {sizes : List Nat}
    (h : createDefaultZones C env sizes r = .ok r') : BigSame r r' := by
  induction sizes generalizing r with
  | nil => cases pure_eq_ok.1 h; exact .refl _
  | cons size sizes ih =>
    obtain ⟨⟨res, r1⟩, h1, h⟩ := bind_eq_ok.1 h
    cases res with
    | none => exact absurd h throw_ne_ok
    | some _ => exact (isoNewZone_bigSame h1).trans (ih h)

theorem initializeGlobalRoot_bigZones {env : InitEnv} {page : Nat} {heap : Heap}
    (h : initializeGlobalRoot C env page heap = .ok r) :
    r.bigZones = [] ∧ r.bigZoneHead = 0 ∧ r.bigZoneNextMask = env.bigZoneNextMask ∧ r.systemPageSize = page := by
  obtain ⟨r1, h1, h⟩ := bind_eq_ok.1 h
  cases pure_eq_ok.1 h
  have hs := createDefaultZones_bigSame h1
  exact ⟨hs.records, hs.head, rfl, hs.page⟩

theorem initializeGlobalRoot_bigList {env : InitEnv} {page : Nat} {heap : Heap}
    (h : initializeGlobalRoot C env page heap = .ok r) : r.BigListOk ∧ r.BigApart := by
  obtain ⟨hz, hh, -, -⟩ := initializeGlobalRoot_bigZones h
  refine ⟨⟨?_, ?_, ?_, ?_⟩, ?_⟩ <;> simp [hz, hh, linkTo, Chained, BigApart]

end Root

/-- The `permanent` argument of the entry point: only `_iso_free` and
`_iso_free_from_zone` take one. -/
def Op.permanent : Op → Bool
  | .free _ perm => perm
  | .freeFromZone _ _ perm => perm
  | _ => false

namespace Sys

variable {C : Config} {s s' : Sys} {env : OpEnv} {th : Nat} {op : Op} {ret : Ret}

/-- What an entry point does to the big-zone list: a run of moves with its own
`permanent`, or one big allocation. -/
theorem step_bigMoves (h : s.step C env th op = .ok (ret, s')) :
    ReflTransGen (Root.BigMove C op.permanent) s.root s'.root ∨
      ∃ size p, s.root.isoBigAlloc C env.bigEnv size = .ok (p, s'.root) := by
  cases op with
  | alloc zone size =>
    obtain ⟨⟨p, r⟩, h1, h⟩ := bind_eq_ok.1 h
    cases pure_eq_ok.1 h
    rcases Root.isoAlloc_events h1 with e | ⟨-, hb⟩
    · exact .inl (.single (.same (Root.allocEvents_bigSame e)))
    · exact .inr ⟨_, _, hb⟩
  | calloc nmemb size =>
    obtain ⟨⟨p, r⟩, h1, h⟩ := bind_eq_ok.1 h
    cases pure_eq_ok.1 h
    rcases Root.isoCalloc_events h1 with ⟨r1, _, _, e, -, rfl⟩ | ⟨_, -, hb⟩
    · exact .inl (.single (.same ((Root.allocEvents_bigSame e).trans ⟨rfl, rfl, rfl, rfl, rfl⟩)))
    · exact .inr ⟨_, _, hb⟩
  | free p perm =>
    obtain ⟨⟨t, r⟩, h1, h⟩ := bind_eq_ok.1 h
    cases pure_eq_ok.1 h
    exact .inl (Root.frees_bigMoves (Root.isoFree_frees h1))
  | freeSize p size =>
    obtain ⟨⟨t, r⟩, h1, h⟩ := bind_eq_ok.1 h
    cases pure_eq_ok.1 h
    exact .inl (Root.frees_bigMoves (Root.isoFreeSize_frees h1))
  | freeFromZone p zone perm =>
    obtain ⟨⟨t, r⟩, h1, h⟩ := bind_eq_ok.1 h
    cases pure_eq_ok.1 h
    exact .inl (Root.frees_bigMoves (Root.isoFreeFromZone_frees h1))
  | newZone size internal =>
    obtain ⟨⟨z, r⟩, h1, h⟩ := bind_eq_ok.1 h
    cases pure_eq_ok.1 h
    unfold Root.isoNewZonePublic at h1
    split at h1
    · cases pure_eq_ok.1 h1; exact .inl .refl
    · exact .inl (.single (.same (Root.isoNewZone_bigSame h1)))
  | destroyZone i =>
    obtain ⟨⟨t, r⟩, h1, h⟩ := bind_eq_ok.1 h
    cases pure_eq_ok.1 h
    exact .inl (Root.isoAllocDestroyZone_bigMoves h1)
  | flushCaches =>
    obtain ⟨⟨t, r⟩, h1, h⟩ := bind_eq_ok.1 h
    cases pure_eq_ok.1 h
    exact .inl (Root.frees_bigMoves (Root.flushChunkQuarantine_frees h1))

/-- The states reached with fresh mappings, a fresh metadata page for each
new big record, and no entry point that frees permanently. -/
inductive TempReachable (C : Config) : Sys → Prop
  | init (env : InitEnv) (page : Nat) (heap : Heap) (r : Root) : PageOk C page →
      Root.ZoneDraws C page env.zoneEnv → Root.initializeGlobalRoot C env page heap = .ok r →
      TempReachable C { root := r, threads := fun _ => ThreadState.empty }
  | step (s s' : Sys) (env : OpEnv) (th : Nat) (op : Op) (ret : Ret) : TempReachable C s →
      Root.FreshDraws C s.root env → s.root.FreshRecord env.bigEnv → op.permanent = false →
      s.step C env th op = .ok (ret, s') → TempReachable C s'

theorem TempReachable.freshReachable (hs : TempReachable C s) : FreshReachable C s := by
  induction hs with
  | init env page heap r hp hd h => exact .init env page heap r hp hd h
  | step s s' env th op ret _ hf _ _ h ih => exact .step s s' env th op ret ih hf h

theorem TempReachable.bigList (hC : LayoutConfig C) (hs : TempReachable C s) :
    s.root.BigListOk ∧ s.root.BigApart := by
  induction hs with
  | init env page heap r _ _ h => exact Root.initializeGlobalRoot_bigList h
  | step s s' env th op ret hs hf hr hop h ih =>
    rcases step_bigMoves h with hm | ⟨size, p, hb⟩
    · rw [hop] at hm
      exact Root.bigMoves_bigList hm ih
    · exact Root.isoBigAlloc_bigList hC.shift (hs.freshReachable.layout hC).page.pos ih hf hr hb

/-- In every state reached without a permanent free, with fresh mappings and
fresh record pages, the list that `_iso_big_alloc` and `iso_find_big_zone`
walk from `big_zone_head` is exactly the big records, in allocation order. -/
theorem tempReachable_big_list_decodes (hC : LayoutConfig C) (hs : TempReachable C s) :
    s.root.decodeBigList = some (s.root.bigZones.map Prod.fst) :=
  (hs.bigList hC).1.decode

end Sys

theorem smallOpEnv_freshRecord {r : Root}
    (h : Root.initializeGlobalRoot guardedConfig smallInitEnv 4096 unmappedHeap = .ok r) :
    r.FreshRecord smallOpEnv.bigEnv := by
  obtain ⟨hz, -, hm, hp⟩ := Root.initializeGlobalRoot_bigZones h
  intro v hv
  rw [hp] at hv ⊢
  rw [hz, hm, show smallInitEnv.bigZoneNextMask = 0 from rfl, show smallOpEnv.bigEnv.metaMap = 0 from rfl]
  have h0 : (0 : Word) + BitVec.ofNat 64 4096 + BitVec.ofNat 64 v ≠ 0 := fun h0 => by
    have := congrArg BitVec.toNat h0
    simp only [BitVec.toNat_add, BitVec.toNat_ofNat] at this
    omega
  simpa using h0

/-- Initialisation under `guardedConfig`, then a 200000-byte request: past
`SMALL_SZ_MAX`, so a big allocation. -/
def guardedBigRun : Except Stop Sys := do
  let r ← Root.initializeGlobalRoot guardedConfig smallInitEnv 4096 unmappedHeap
  let (_, s) ← (Sys.mk r fun _ => ThreadState.empty).step guardedConfig smallOpEnv 0 (.alloc none 200000)
  pure s

/-- The draws of a second big allocation: the zone draws of `smallOpEnv`, and
user and metadata mappings at 8 and 12 GiB, above the first's. -/
def secondBigEnv : OpEnv := { smallOpEnv with bigEnv := ⟨0x200000000#64, 0x300000000#64, 0⟩ }

theorem secondBigEnv_freshRecord {r : Root} (hp : r.systemPageSize = 4096)
    (hz : r.bigZones.map Prod.fst = [8144#64]) (hm : r.bigZoneNextMask = 0) :
    r.FreshRecord secondBigEnv.bigEnv := by
  intro v hv
  rw [hp] at hv ⊢
  rw [hz, hm]
  have hx : (0x300000000#64 + BitVec.ofNat 64 4096 + BitVec.ofNat 64 v).toNat = 12884905984 + v := by
    simp only [BitVec.toNat_add, BitVec.toNat_ofNat]; omega
  simp only [List.mem_cons, List.mem_singleton, List.not_mem_nil, or_false, not_or]
  refine ⟨fun h => ?_, fun h => ?_, fun h => ?_⟩ <;>
    · have := congrArg BitVec.toNat h
      simp only [show secondBigEnv.bigEnv.metaMap = 0x300000000#64 from rfl] at this
      rw [hx] at this
      simp at this <;> omega

set_option maxRecDepth 20000 in
theorem guardedBigRun_reachable : ∃ s, Sys.TempReachable guardedConfig s ∧ s.root.bigZones.length = 2 := by
  have h1 : (guardedBigRun.toOption.map fun s =>
      (s.root.bigZones.map Prod.fst, s.root.bigZoneNextMask, s.root.systemPageSize)) = some ([8144#64], 0, 4096) := by
    decide
  have h2 : ((guardedBigRun >>= fun s => (·.2) <$> s.step guardedConfig secondBigEnv 0 (.alloc none 300000)).toOption.map
      fun s => s.root.bigZones.length) = some 2 := by
    decide
  cases hc : guardedBigRun with
  | error e => rw [hc] at h1; cases h1
  | ok s1 =>
    obtain ⟨r, hr, h⟩ := bind_eq_ok.1 hc
    obtain ⟨⟨ret, s1'⟩, hs1, h⟩ := bind_eq_ok.1 h
    cases pure_eq_ok.1 h
    have ht1 : Sys.TempReachable guardedConfig s1 := .step _ _ _ _ _ _
      (.init _ _ _ _ ⟨by decide, by decide, by decide⟩ smallInitEnv_zoneDraws hr)
      (smallOpEnv_freshDraws hr) (smallOpEnv_freshRecord hr) (by rfl) hs1
    obtain ⟨⟨p, r1⟩, hb, hs1⟩ := bind_eq_ok.1 hs1
    have hroot : s1.root = r1 := by cases pure_eq_ok.1 hs1; rfl
    rw [hc] at h1
    obtain ⟨hz1, hmp⟩ := Prod.mk.inj_iff.1 (Option.some.inj h1)
    obtain ⟨hm1, hp1⟩ := Prod.mk.inj_iff.1 hmp
    have hbig : r.isoBigAlloc guardedConfig smallOpEnv.bigEnv 200000 = .ok (p, r1) := by
      simp only [Root.isoAlloc, pure_bind, throw_bind, ite_throw_eq_ok,
        if_neg (by decide : ¬200000 ≤ guardedConfig.smallSzMax)] at hb
      exact hb.2.2
    have hpr : r.systemPageSize = 4096 := (Root.initializeGlobalRoot_bigZones hr).2.2.2
    have hf2 : Root.FreshDraws guardedConfig r1 secondBigEnv := by
      refine Root.FreshDraws.isoBigAlloc (by decide) (by rw [hpr]; decide)
        (smallInit_freshDraws rfl (by decide) hr) (by rw [hpr]; decide) (fun k hk => ?_) ?_ hbig
      · rw [hpr]
        refine .inr ?_
        show 0 + (4096 <<< 1) + 4294967296 ≤ (smallInitEnv.zoneEnv k).userMap.toNat
        rw [smallInitEnv_userMap hk]
        omega
      · rw [hpr]; exact .inr (by decide)
    rw [← hroot] at hf2
    rw [hc, except_ok_bind] at h2
    cases hc2 : s1.step guardedConfig secondBigEnv 0 (.alloc none 300000) with
    | error e => rw [hc2] at h2; cases h2
    | ok x =>
      rw [hc2] at h2
      exact ⟨x.2, .step _ _ _ _ _ _ ht1 hf2 (secondBigEnv_freshRecord hp1 hz1 hm1) (by rfl) hc2,
        Option.some.inj h2⟩

theorem guarded_big_list_decodes : ∃ s, Sys.TempReachable guardedConfig s ∧ s.root.bigZones.length = 2 ∧
    s.root.decodeBigList = some (s.root.bigZones.map Prod.fst) := by
  obtain ⟨s, hs, h2⟩ := guardedBigRun_reachable
  exact ⟨s, hs, h2, Sys.tempReachable_big_list_decodes guardedConfig_layoutConfig hs⟩

end IsoAlloc
