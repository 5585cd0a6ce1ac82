import Mathlib

/-! # Intrusive doubly linked lists — the pointer layer and its list reading

    Objects of one kind carry ONE link each (`next`, `prev`), and any number of
    list headers are threaded through those links.  Every operation below is
    written on the links and on one header, in the order of the writes of the
    usual C code, so a misuse (appending a linked object, removing an object
    from a list it is not in) corrupts the structure exactly as the code would.

    The reading layer is `Represents lk H f`: the headers `H` read as the lists `f`.
    It says that every header is a well-formed list of distinct objects and that
    no object is in two lists; each operation has one lemma that says how `f`
    moves.  Nothing here names a particular program. -/

namespace IntrusiveList

open Function Option

variable {ι α : Type}

/-- The two pointers an object carries. -/
structure Link (α : Type) where
  next : Option α
  prev : Option α
deriving DecidableEq, Repr

/-- A list header. -/
structure ListHdr (α : Type) where
  inQ : Int
  maxinQ : Int
  first : Option α
  last : Option α
deriving DecidableEq, Repr

/-- The header of an empty list. -/
def ListHdr.rst : ListHdr α := { inQ := 0, maxinQ := 0, first := none, last := none }

/-- The link of an unlinked object. -/
def Link.rst : Link α := { next := none, prev := none }

section Pointers

variable [DecidableEq α]

/-- Write the `next` pointer of `x`. -/
def setNext (lk : α → Link α) (x : α) (v : Option α) : α → Link α :=
  fun y => if y = x then { lk x with next := v } else lk y

/-- Write the `prev` pointer of `x`. -/
def setPrev (lk : α → Link α) (x : α) (v : Option α) : α → Link α :=
  fun y => if y = x then { lk x with prev := v } else lk y

/-- Reset the link of `x`. -/
def linkRst (lk : α → Link α) (x : α) : α → Link α :=
  update lk x Link.rst

/-- One more object in the list. -/
def ListHdr.grow (L : ListHdr α) : ListHdr α :=
  { L with inQ := L.inQ + 1, maxinQ := max (L.inQ + 1) L.maxinQ }

/-- Append at the tail.  `none` is the write through a null `last` pointer of a
    header whose `first` is not null. -/
def listApp (lk : α → Link α) (L : ListHdr α) (x : α) : Option ((α → Link α) × ListHdr α) :=
  match L.first with
  | none =>
    let lk := setNext (setPrev lk x none) x none
    some (lk, ({ L with first := some x, last := some x } : ListHdr α).grow)
  | some _ =>
    match L.last with
    | none => none
    | some l =>
      let lk := setPrev lk x (some l)
      let lk := setNext lk l (some x)
      let lk := setNext lk x none
      some (lk, ({ L with last := some x } : ListHdr α).grow)

/-- Insert at the head. -/
def listIns (lk : α → Link α) (L : ListHdr α) (x : α) : (α → Link α) × ListHdr α :=
  let lk := setPrev (setNext lk x L.first) x none
  match L.first with
  | none => (lk, ({ L with first := some x, last := some x } : ListHdr α).grow)
  | some y => (setPrev lk y (some x), ({ L with first := some x } : ListHdr α).grow)

/-- Remove.  The two tests read the removed object's own pointers, never the
    list, so the caller vouches for membership. -/
def listRmv (lk : α → Link α) (L : ListHdr α) (x : α) : (α → Link α) × ListHdr α :=
  let (lk, L) := match (lk x).prev with
    | none => (lk, { L with first := (lk x).next })
    | some p => (setNext lk p (lk x).next, L)
  let (lk, L) := match (lk x).next with
    | none => (lk, { L with last := (lk x).prev })
    | some n => (setPrev lk n (lk x).prev, L)
  (setPrev (setNext lk x none) x none, { L with inQ := L.inQ - 1 })

/-- Splice `x` between `p` and `n`, where `p` is the predecessor of `n`. -/
def splice (lk : α → Link α) (L : ListHdr α) (p x n : α) : (α → Link α) × ListHdr α :=
  let lk := setNext lk x (some n)
  let lk := setPrev lk x (some p)
  let lk := setNext lk p (some x)
  let lk := setPrev lk n (some x)
  (lk, L.grow)

end Pointers

/-- The objects met by following `next` from `o`, at most `n` of them. -/
def walk (lk : α → Link α) : Nat → Option α → List α
  | 0, _ => []
  | _ + 1, none => []
  | n + 1, some x => x :: walk lk n (lk x).next

/-- The objects of a list, read through its pointers. -/
def elems [Fintype α] (lk : α → Link α) (L : ListHdr α) : List α :=
  walk lk (Fintype.card α) L.first

/-! ## Segments -/

/-- `Seg lk p xs n`: the objects `xs` are linked in this order, with `p` before
    the first and `n` after the last of them. -/
def Seg (lk : α → Link α) : Option α → List α → Option α → Prop
  | _, [], _ => True
  | p, x :: xs, n =>
    (lk x).prev = p ∧ (lk x).next = xs.head?.or n ∧ Seg lk (some x) xs n

variable {lk lk' : α → Link α} {xs ys : List α}

/-- A segment reads only the links of its own objects. -/
theorem seg_congr :
    ∀ {p n : Option α}, (∀ x ∈ xs, lk' x = lk x) → Seg lk p xs n → Seg lk' p xs n := by
  induction xs with
  | nil => intro p n _ _; trivial
  | cons x xs ih =>
    intro p n h hs
    obtain ⟨h1, h2, h3⟩ := hs
    have hx : lk' x = lk x := h x (by simp)
    refine ⟨by rw [hx]; exact h1, by rw [hx]; exact h2, ?_⟩
    exact ih (fun y hy => h y (by simp [hy])) h3

/-- Segments compose. -/
theorem seg_append :
    ∀ {p n : Option α}, Seg lk p (xs ++ ys) n ↔
      Seg lk p xs (ys.head?.or n) ∧ Seg lk (xs.getLast?.or p) ys n := by
  induction xs with
  | nil => intro p n; simp [Seg]
  | cons x xs ih =>
    intro p n
    rw [List.cons_append]
    simp only [Seg]
    rw [ih]
    have h1 : (xs ++ ys).head?.or n = xs.head?.or (ys.head?.or n) := by
      rw [List.head?_append]
      cases xs.head? <;> rfl
    have h2 : xs.getLast?.or (some x) = (x :: xs).getLast?.or p := by
      cases xs with
      | nil => rfl
      | cons y ys =>
        rw [List.getLast?_cons_cons]
        cases hl : (y :: ys).getLast? with
        | none => simp at hl
        | some z => rfl
    rw [h1, h2, and_assoc, and_assoc]

/-- A segment whose last object gets another successor. -/
private theorem seg_next_last [DecidableEq α] {p n n' : Option α}
    (hnd : xs.Nodup) (h : Seg lk p xs n) (hlk : ∀ z ∈ xs, lk' z =
      { lk z with next := if some z = xs.getLast? then n' else (lk z).next }) :
    Seg lk' p xs n' := by
  rcases List.eq_nil_or_concat xs with rfl | ⟨as, l, has⟩
  · trivial
  rw [List.concat_eq_append] at has
  subst has
  have hl := hlk l (by simp)
  rw [seg_append] at h ⊢
  obtain ⟨h1, h2, -, -⟩ := h
  refine ⟨seg_congr (fun z hz => ?_) h1, ?_, ?_, trivial⟩
  · have hzl : z ≠ l := fun e => (List.nodup_append.mp hnd).2.2 z hz l (by simp) e
    rw [hlk z (by simp [hz]), if_neg (by simpa using hzl)]
  · rw [hl]
    exact h2
  · rw [hl]
    simp

/-- A segment whose first object gets another predecessor. -/
private theorem seg_prev_head [DecidableEq α] {p p' n : Option α}
    (hnd : xs.Nodup) (h : Seg lk p xs n) (hlk : ∀ z ∈ xs, lk' z =
      { lk z with prev := if some z = xs.head? then p' else (lk z).prev }) :
    Seg lk' p' xs n := by
  cases xs with
  | nil => trivial
  | cons x xs =>
    have hx := hlk x (by simp)
    obtain ⟨-, h2, h3⟩ := h
    refine ⟨by rw [hx]; simp, by rw [hx]; exact h2, seg_congr (fun z hz => ?_) h3⟩
    have hzx : z ≠ x := fun e => (List.nodup_cons.mp hnd).1 (e ▸ hz)
    rw [hlk z (by simp [hz]), if_neg (by simpa using hzx)]

/-! ## Lists and families of lists -/

/-- The header `L` reads as the list `xs`. -/
structure IsList (lk : α → Link α) (L : ListHdr α) (xs : List α) : Prop where
  first : L.first = xs.head?
  last : L.last = xs.getLast?
  inQ : L.inQ = xs.length
  seg : Seg lk none xs none

/-- The headers `H` read as the lists `f`: every one is a well-formed list of
    distinct objects, and no object is in two of them. -/
structure Represents (lk : α → Link α) (H : ι → ListHdr α) (f : ι → List α) : Prop where
  isList : ∀ i, IsList lk (H i) (f i)
  nodup : ∀ i, (f i).Nodup
  disj : ∀ i j x, x ∈ f i → x ∈ f j → i = j

variable {L L' : ListHdr α} {H : ι → ListHdr α} {f : ι → List α} {i : ι} {p x y n : α}

/-- Following `next` along a segment lists its objects. -/
theorem walk_seg :
    ∀ {xs : List α} {p : Option α} {n : Nat}, Seg lk p xs none → xs.length ≤ n →
      walk lk n xs.head? = xs := by
  intro xs
  induction xs with
  | nil => intro p n _ _; cases n <;> rfl
  | cons x xs ih =>
    intro p n hs hn
    obtain ⟨-, h2, h3⟩ := hs
    cases n with
    | zero => exact absurd hn (by simp)
    | succ n =>
      show x :: walk lk n (lk x).next = x :: xs
      rw [h2, or_none, ih h3 (by simpa using hn)]

/-- A well-formed list is read back by `elems`. -/
theorem elems_eq [Fintype α] (h : IsList lk L xs) (hnd : xs.Nodup) : elems lk L = xs := by
  have hlen : xs.length ≤ Fintype.card α := hnd.length_le_card
  unfold elems
  rw [h.first]
  exact walk_seg h.seg hlen

/-- Every list of a represented family is read back by `elems`. -/
theorem Represents.elems_eq [Fintype α] (h : Represents lk H f) (i : ι) : elems lk (H i) = f i :=
  IntrusiveList.elems_eq (h.isList i) (h.nodup i)

/-- The other lists of a family survive a write to the links that leaves their
    objects alone. -/
private theorem isList_frame (h : IsList lk L xs) (hlk : ∀ x ∈ xs, lk' x = lk x) :
    IsList lk' L xs :=
  ⟨h.first, h.last, h.inQ, seg_congr hlk h.seg⟩

/-- One header changes, the rest of the family is framed. -/
theorem Represents.update [DecidableEq ι] (h : Represents lk H f) (i : ι) {xs' : List α}
    (hnew : IsList lk' L' xs') (hnd : xs'.Nodup)
    (hout : ∀ j, j ≠ i → ∀ x ∈ f j, lk' x = lk x)
    (hsub : ∀ j, j ≠ i → ∀ x ∈ f j, x ∉ xs') :
    Represents lk' (update H i L') (update f i xs') := by
  refine ⟨?_, ?_, ?_⟩
  · intro j
    by_cases hj : j = i
    · subst hj
      simpa using hnew
    · rw [update_of_ne hj, update_of_ne hj]
      exact isList_frame (h.isList j) (hout j hj)
  · intro j
    by_cases hj : j = i
    · subst hj
      simpa using hnd
    · rw [update_of_ne hj]
      exact h.nodup j
  · intro j k x hxj hxk
    by_cases hj : j = i
    · by_cases hk : k = i
      · rw [hj, hk]
      · subst hj
        rw [update_self] at hxj
        rw [update_of_ne hk] at hxk
        exact absurd hxj (hsub k hk x hxk)
    · rw [update_of_ne hj] at hxj
      by_cases hk : k = i
      · subst hk
        rw [update_self] at hxk
        exact absurd hxk (hsub j hj x hxj)
      · rw [update_of_ne hk] at hxk
        exact h.disj j k x hxj hxk

/-- Following `next` along a segment that does not end the list. -/
theorem walk_mem :
    ∀ {xs : List α} {p : Option α} {n : Nat}, Seg lk p xs (some y) → xs.length < n →
      y ∈ walk lk n (xs.head?.or (some y)) := by
  intro xs
  induction xs with
  | nil =>
    intro p n _ hn
    cases n with
    | zero => exact absurd hn (by simp)
    | succ n => exact List.mem_cons_self
  | cons x xs ih =>
    intro p n hs hn
    obtain ⟨-, h2, h3⟩ := hs
    cases n with
    | zero => exact absurd hn (by simp)
    | succ n =>
      refine List.mem_cons_of_mem _ ?_
      rw [h2]
      exact ih h3 (by simpa using hn)

/-- The pointers of a member name its neighbours. -/
theorem IsList.neighbours (h : IsList lk L (xs ++ x :: ys)) :
    (lk x).prev = xs.getLast? ∧ (lk x).next = ys.head? := by
  have hs := h.seg
  rw [seg_append] at hs
  obtain ⟨-, h1, h2, -⟩ := hs
  exact ⟨by rw [h1, or_none], by rw [h2, or_none]⟩

/-! ## Chains: the links of one kind of object with all their headers -/

/-- All the lists threaded through one link field. -/
structure Chains (ι α : Type) where
  lk : α → Link α
  hdr : ι → ListHdr α

variable {C C' : Chains ι α} {pl : α → Option ι}

namespace Chains

/-- The objects of the list `i`, read through the pointers. -/
def list [Fintype α] (C : Chains ι α) (i : ι) : List α := elems C.lk (C.hdr i)

/-- The object `x` is in none of the lists. -/
def Unlinked (f : ι → List α) (x : α) : Prop := ∀ j, x ∉ f j

/-- The chains read as the lists `f`. -/
def Reads (C : Chains ι α) (f : ι → List α) : Prop := Represents C.lk C.hdr f

/-- The lists `f` hold every object where `pl` says, and `none` is in no list. -/
def Places (f : ι → List α) (pl : α → Option ι) : Prop := ∀ x i, x ∈ f i ↔ pl x = some i

theorem Reads.list_eq [Fintype α] (h : C.Reads f) (i : ι) : C.list i = f i :=
  Represents.elems_eq h i

theorem Reads.first_eq (h : C.Reads f) (i : ι) : (C.hdr i).first = (f i).head? :=
  (h.isList i).first

theorem Reads.last_eq (h : C.Reads f) (i : ι) : (C.hdr i).last = (f i).getLast? :=
  (h.isList i).last

theorem Reads.inQ_eq (h : C.Reads f) (i : ι) : (C.hdr i).inQ = (f i).length :=
  (h.isList i).inQ

/-- An object of a list is its first one, or has another one before it. -/
theorem Reads.prev_cases (h : C.Reads f) (hx : x ∈ f i) :
    (C.hdr i).first = some x ∧ (C.lk x).prev = none ∨
      (C.hdr i).first ≠ some x ∧ ∃ y, (C.lk x).prev = some y := by
  obtain ⟨as, bs, hf⟩ := List.append_of_mem hx
  have hseg := (h.isList i).seg
  have hnd := h.nodup i
  rw [hf, seg_append] at hseg
  rw [hf, List.nodup_append] at hnd
  obtain ⟨hp, -⟩ := hseg.2
  rw [h.first_eq i, hf, hp, or_none]
  cases as with
  | nil => exact .inl ⟨rfl, rfl⟩
  | cons a as =>
    refine .inr ⟨fun he => ?_, _, List.getLast?_eq_some_getLast (by simp)⟩
    exact hnd.2.2 a (by simp) x (by simp) (some.inj he)

/-- A list whose header and other links are unchanged still has the object `x` in it,
    whatever has become of the link of `x` itself: the object before it points to it. -/
theorem Reads.mem_list_of_links [Fintype α] (h : C.Reads f)
    (hx : x ∈ f i) (hhdr : C'.hdr i = C.hdr i) (hlk : ∀ y ∈ f i, y ≠ x → C'.lk y = C.lk y) :
    x ∈ C'.list i := by
  obtain ⟨as, bs, hf⟩ := List.append_of_mem hx
  have hi := h.isList i
  have hnd := h.nodup i
  have hseg := hi.seg
  rw [hf, seg_append] at hseg
  have hxas : ∀ y ∈ as, C'.lk y = C.lk y := by
    intro y hy
    refine hlk y (by rw [hf]; exact List.mem_append_left _ hy) ?_
    rintro rfl
    rw [hf, List.nodup_append] at hnd
    exact hnd.2.2 y hy y (by simp) rfl
  have hlen : as.length < Fintype.card α := by
    have := hnd.length_le_card
    rw [hf, List.length_append, List.length_cons] at this
    omega
  show x ∈ walk C'.lk (Fintype.card α) (C'.hdr i).first
  rw [hhdr, hi.first, hf, List.head?_append]
  exact walk_mem (seg_congr hxas hseg.1) hlen

theorem Places.unlinked (h : Places f pl) (hx : pl x = none) : Unlinked f x := by
  intro j hm
  rw [h x j, hx] at hm
  cases hm

end Chains

/-! ## The operations on a represented family -/

variable [DecidableEq α] [DecidableEq ι]

/-- **ONE LIST IS RELINKED**: between `xs` and `ys` the objects `ms` make room for `ms'`, and
    no other link is written, whatever the order of the writes. -/
theorem relink_repr (h : Represents lk H f) (i : ι) (ms ms' : List α)
    (hf : f i = xs ++ (ms ++ ys)) (hnd : (xs ++ (ms' ++ ys)).Nodup)
    (hnew : ∀ j, ∀ x ∈ ms', x ∉ f j)
    (hmid : Seg lk' xs.getLast? ms' ys.head?)
    (hlk : ∀ z, z ∉ ms → z ∉ ms' → lk' z =
      { next := if some z = xs.getLast? then (ms' ++ ys).head? else (lk z).next,
        prev := if some z = ys.head? then (xs ++ ms').getLast? else (lk z).prev })
    (hfirst : L'.first = (xs ++ (ms' ++ ys)).head?)
    (hlast : L'.last = (xs ++ (ms' ++ ys)).getLast?)
    (hinQ : L'.inQ = (xs ++ (ms' ++ ys)).length) :
    Represents lk' (update H i L') (update f i (xs ++ (ms' ++ ys))) := by
  have hold := h.nodup i
  have hseg := (h.isList i).seg
  rw [hf, seg_append, seg_append] at hseg
  obtain ⟨hs1, -, hs2⟩ := hseg
  rw [hf] at hold
  obtain ⟨hndx, hndr, hdx⟩ := List.nodup_append.mp hold
  obtain ⟨-, hndy, hdm⟩ := List.nodup_append.mp hndr
  obtain ⟨-, hndr', hdx'⟩ := List.nodup_append.mp hnd
  have hdm' := (List.nodup_append.mp hndr').2.2
  refine h.update i ⟨hfirst, hlast, hinQ, ?_⟩ hnd (fun j hj z hz => ?_) (fun j hj z hz hm => ?_)
  · rw [seg_append, seg_append]
    refine ⟨seg_next_last hndx hs1 (fun z hz => ?_), by simpa using hmid,
      seg_prev_head hndy hs2 (fun z hz => ?_)⟩
    · have hzy : some z ≠ ys.head? := fun e =>
        hdx z hz z (List.mem_append_right _ (List.mem_of_head? e.symm)) rfl
      rw [hlk z (fun hm => hdx z hz z (List.mem_append_left _ hm) rfl)
        (fun hm => hdx' z hz z (List.mem_append_left _ hm) rfl), if_neg hzy, or_none]
    · have hzx : some z ≠ xs.getLast? := fun e =>
        hdx z (List.mem_of_getLast? e.symm) z (List.mem_append_right _ hz) rfl
      rw [hlk z (fun hm => hdm z hm z hz rfl) (fun hm => hdm' z hm z hz rfl), if_neg hzx,
        List.getLast?_append, or_none]
  · have hzi : z ∉ xs ++ (ms ++ ys) := fun hm => hj (h.disj j i z hz (hf ▸ hm))
    simp only [List.mem_append, not_or] at hzi
    rw [hlk z hzi.2.1 (fun hm => hnew j z hm hz), if_neg, if_neg]
    · exact fun e => hzi.2.2 (List.mem_of_head? e.symm)
    · exact fun e => hzi.1 (List.mem_of_getLast? e.symm)
  · simp only [List.mem_append] at hm
    rcases hm with hm | hm | hm
    · exact hj (h.disj j i z hz (by rw [hf]; simp [hm]))
    · exact hnew j z hm hz
    · exact hj (h.disj j i z hz (by rw [hf]; simp [hm]))

/-- An unlinked object is linked between `xs` and `ys`. -/
theorem insert_repr (h : Represents lk H f) (i : ι) (xs : List α)
    (hf : f i = xs ++ ys) (hx : ∀ j, x ∉ f j)
    (hself : lk' x = { next := ys.head?, prev := xs.getLast? })
    (hlk : ∀ z, z ≠ x → lk' z =
      { next := if some z = xs.getLast? then some x else (lk z).next,
        prev := if some z = ys.head? then some x else (lk z).prev })
    (hfirst : L'.first = (xs ++ x :: ys).head?) (hlast : L'.last = (xs ++ x :: ys).getLast?)
    (hinQ : L'.inQ = (H i).inQ + 1) :
    Represents lk' (update H i L') (update f i (xs ++ x :: ys)) := by
  have hxi : x ∉ xs ++ ys := hf ▸ hx i
  have hinQ' := (h.isList i).inQ
  refine relink_repr h i [] [x] hf
    (List.nodup_middle.mpr (List.nodup_cons.mpr ⟨hxi, hf ▸ h.nodup i⟩)) (by simpa using hx)
    ⟨by rw [hself], by rw [hself]; rfl, trivial⟩ (fun z _ hz => ?_) hfirst hlast ?_
  · rw [hlk z (by simpa using hz)]
    simp
  · rw [hinQ, hinQ', hf]
    simp only [List.length_append, List.length_cons, List.length_nil]
    omega

/-- Appending an unlinked object appends it to one list of the family. -/
theorem listApp_repr (h : Represents lk H f) (i : ι) (hx : ∀ j, x ∉ f j) :
    ∃ lk' L', listApp lk (H i) x = some (lk', L') ∧
      Represents lk' (update H i L') (update f i (f i ++ [x])) := by
  have hi := h.isList i
  rcases List.eq_nil_or_concat (f i) with hnil | ⟨ys, l, hys⟩
  · have hf : (H i).first = none := by rw [hi.first, hnil]; rfl
    refine ⟨_, _, by unfold listApp; rw [hf],
      insert_repr h i _ (List.append_nil _).symm hx ?_ (fun z hz => ?_) ?_ ?_ rfl⟩
    · simp [setNext, setPrev, hnil]
    · simp [setNext, setPrev, hnil, hz]
    · simp [ListHdr.grow, hnil]
    · simp [ListHdr.grow]
  · rw [List.concat_eq_append] at hys
    have hl : (H i).last = some l := by rw [hi.last, hys]; simp
    obtain ⟨a, ha⟩ : ∃ a, (H i).first = some a := by
      rw [hi.first, hys]
      exact ⟨_, List.head?_eq_some_head (by simp)⟩
    have hlx : l ≠ x := fun e => hx i (by rw [hys]; simp [e])
    refine ⟨_, _, by unfold listApp; rw [ha, hl],
      insert_repr h i _ (List.append_nil _).symm hx ?_ (fun z hz => ?_) ?_ ?_ rfl⟩
    · simp [setNext, setPrev, hys, Ne.symm hlx]
    · by_cases hzl : z = l
      · subst hzl
        simp [setNext, setPrev, hys, hz]
      · simp [setNext, setPrev, hys, hz, hzl]
    · show some a = _
      rw [← ha, hi.first, hys]
      simp
    · simp [ListHdr.grow]

/-- Inserting an unlinked object puts it at the head of one list. -/
theorem listIns_repr (h : Represents lk H f) (i : ι) (hx : ∀ j, x ∉ f j) :
    Represents (listIns lk (H i) x).1 (update H i (listIns lk (H i) x).2)
      (update f i (x :: f i)) := by
  have hi := h.isList i
  have hfirst := hi.first
  cases hfi : f i with
  | nil =>
    rw [hfi] at hfirst
    have hdef : listIns lk (H i) x = (setPrev (setNext lk x none) x none,
        ({ H i with first := some x, last := some x } : ListHdr α).grow) := by
      unfold listIns
      rw [hfirst]
      rfl
    rw [hdef]
    refine insert_repr h i [] hfi hx ?_ (fun z hz => ?_) rfl rfl rfl
    · simp [setNext, setPrev]
    · simp [setNext, setPrev, hz]
  | cons y ys =>
    rw [hfi] at hfirst
    have hxy : x ≠ y := fun e => hx i (by rw [hfi, e]; simp)
    have hdef : listIns lk (H i) x
        = (setPrev (setPrev (setNext lk x (some y)) x none) y (some x),
          ({ H i with first := some x } : ListHdr α).grow) := by
      unfold listIns
      rw [hfirst]
      rfl
    rw [hdef]
    refine insert_repr h i [] hfi hx ?_ (fun z hz => ?_) rfl ?_ rfl
    · simp [setNext, setPrev, hxy]
    · by_cases hzy : z = y
      · subst hzy
        simp [setNext, setPrev, hz]
      · simp [setNext, setPrev, hz, hzy]
    · show (H i).last = _
      rw [hi.last, hfi]
      rfl

/-- Removing a member, at a split of its list. -/
private theorem listRmv_split (h : Represents lk H f) (i : ι) (hf : f i = xs ++ x :: ys) :
    Represents (listRmv lk (H i) x).1 (update H i (listRmv lk (H i) x).2)
      (update f i (xs ++ ys)) := by
  have hi : IsList lk (H i) (xs ++ x :: ys) := hf ▸ h.isList i
  have hnd : (xs ++ x :: ys).Nodup := hf ▸ h.nodup i
  obtain ⟨hprev, hnext⟩ := hi.neighbours
  obtain ⟨hxm, hnd'⟩ := List.nodup_cons.mp (List.nodup_middle.mp hnd)
  have hinQ := hi.inQ
  have hfst := hi.first
  have hlst := hi.last
  -- the four cases of the code: with or without an object before it, and after it
  have hout : (∀ z, z ≠ x → (listRmv lk (H i) x).1 z =
      { next := if some z = xs.getLast? then ys.head? else (lk z).next,
        prev := if some z = ys.head? then xs.getLast? else (lk z).prev }) ∧
      (listRmv lk (H i) x).2 = { H i with first := (xs ++ ys).head?, last := (xs ++ ys).getLast?,
                                          inQ := (H i).inQ - 1 } := by
    unfold listRmv
    rcases List.eq_nil_or_concat xs with rfl | ⟨as, q, has⟩
    · cases ys with
      | nil =>
        simp only [hprev, hnext, List.getLast?_nil, List.head?_nil]
        refine ⟨fun z hz => by simp [setNext, setPrev, hz], rfl⟩
      | cons n ys =>
        simp only [hprev, hnext, List.getLast?_nil, List.head?_cons]
        refine ⟨fun z hz => ?_, ?_⟩
        · by_cases hzn : z = n
          · subst hzn
            simp [setNext, setPrev, hz]
          · simp [setNext, setPrev, hz, hzn]
        · simp [hlst, List.getLast?_cons_cons]
    · rw [List.concat_eq_append] at has
      subst has
      have hqx : x ≠ q := fun e => hxm (by simp [e])
      have hxq : setNext lk q (lk x).next x = lk x := by simp [setNext, hqx]
      have hl : (as ++ [q]).getLast? = some q := by simp
      rw [hl] at hprev
      simp only [hprev, hxq]
      cases ys with
      | nil =>
        simp only [hnext, List.head?_nil]
        refine ⟨fun z hz => ?_, ?_⟩
        · by_cases hzq : z = q
          · subst hzq
            simp [setNext, setPrev, hz]
          · simp [setNext, setPrev, hz, hzq]
        · simp [hfst]
      | cons n ys =>
        have hnq : n ≠ q := fun e => (List.nodup_append.mp hnd').2.2 q (by simp) n (by simp) e.symm
        simp only [hnext, List.head?_cons]
        refine ⟨fun z hz => ?_, ?_⟩
        · by_cases hzq : z = q
          · subst hzq
            simp [setNext, setPrev, hz, Ne.symm hnq]
          · by_cases hzn : z = n
            · subst hzn
              simp [setNext, setPrev, hz, hzq]
            · simp [setNext, setPrev, hz, hzq, hzn]
        · simp [hfst, hlst]
  obtain ⟨hlk, hhdr⟩ := hout
  rw [hhdr]
  refine relink_repr h i [x] [] hf hnd' (by simp) trivial (fun z hz _ => ?_) rfl rfl ?_
  · rw [hlk z (by simpa using hz), List.append_nil]
    rfl
  · simp only [List.length_append, List.length_cons] at hinQ
    simp only [List.nil_append, List.length_append, hinQ]
    omega
/-- Removing a member erases it from its list. -/
theorem listRmv_repr (h : Represents lk H f) (i : ι) (hx : x ∈ f i) :
    Represents (listRmv lk (H i) x).1 (update H i (listRmv lk (H i) x).2)
      (update f i ((f i).erase x)) := by
  obtain ⟨xs, ys, hf⟩ := List.append_of_mem hx
  have hnd := h.nodup i
  have hxs : x ∉ xs := by
    rw [hf] at hnd
    intro hm
    exact (List.nodup_append.mp hnd).2.2 x hm x (by simp) rfl
  have herase : (f i).erase x = xs ++ ys := by
    rw [hf, List.erase_append_right _ hxs, List.erase_cons_head]
  rw [herase]
  exact listRmv_split h i hf

omit [DecidableEq ι] in
/-- Resetting the link of an unlinked object changes no list. -/
theorem linkRst_repr (h : Represents lk H f) (hx : ∀ j, x ∉ f j) :
    Represents (linkRst lk x) H f := by
  refine ⟨fun i => ?_, h.nodup, h.disj⟩
  refine isList_frame (h.isList i) (fun y hy => ?_)
  have hyx : y ≠ x := fun e => hx i (e ▸ hy)
  simp [linkRst, hyx]

/-- Splicing an unlinked object between two neighbours inserts it there. -/
theorem splice_repr (h : Represents lk H f) (i : ι) {as ys : List α}
    (hf : f i = (as ++ [p]) ++ n :: ys) (hx : ∀ j, x ∉ f j) :
    Represents (splice lk (H i) p x n).1 (update H i (splice lk (H i) p x n).2)
      (update f i ((as ++ [p]) ++ x :: n :: ys)) := by
  have hi := h.isList i
  have hxi : x ∉ (as ++ [p]) ++ n :: ys := hf ▸ hx i
  have hxp : x ≠ p := fun e => hxi (by simp [e])
  have hxn : x ≠ n := fun e => hxi (by simp [e])
  have hpn : p ≠ n := (List.nodup_append.mp (hf ▸ h.nodup i)).2.2 p (by simp) n (by simp)
  refine insert_repr h i _ hf hx ?_ (fun z hz => ?_) ?_ ?_ rfl
  · simp [splice, setNext, setPrev, hxp, hxn]
  · by_cases hzp : z = p
    · subst hzp
      simp [splice, setNext, setPrev, hz, hpn]
    · by_cases hzn : z = n
      · subst hzn
        simp [splice, setNext, setPrev, hz, hzp]
      · simp [splice, setNext, setPrev, hz, hzp, hzn]
  · show (H i).first = _
    rw [hi.first, hf]
    simp
  · show (H i).last = _
    rw [hi.last, hf]
    simp

namespace Chains

/-- Append `x` to the list `i`. -/
def app (C : Chains ι α) (i : ι) (x : α) : Option (Chains ι α) :=
  match listApp C.lk (C.hdr i) x with
  | none => none
  | some (lk, L) => some { lk := lk, hdr := update C.hdr i L }

/-- Insert `x` at the head of the list `i`. -/
def ins (C : Chains ι α) (i : ι) (x : α) : Chains ι α :=
  { lk := (listIns C.lk (C.hdr i) x).1, hdr := update C.hdr i (listIns C.lk (C.hdr i) x).2 }

/-- Remove `x` from the list `i`. -/
def rmv (C : Chains ι α) (i : ι) (x : α) : Chains ι α :=
  { lk := (listRmv C.lk (C.hdr i) x).1, hdr := update C.hdr i (listRmv C.lk (C.hdr i) x).2 }

/-- Splice `x` between `p` and `n` in the list `i`. -/
def splice (C : Chains ι α) (i : ι) (p x n : α) : Chains ι α :=
  { lk := (IntrusiveList.splice C.lk (C.hdr i) p x n).1,
    hdr := update C.hdr i (IntrusiveList.splice C.lk (C.hdr i) p x n).2 }

/-- Reset the link of `x`. -/
def rstLink (C : Chains ι α) (x : α) : Chains ι α :=
  { C with lk := linkRst C.lk x }

theorem Reads.app (h : C.Reads f) (i : ι) (hx : Unlinked f x) :
    ∃ C', C.app i x = some C' ∧ C'.Reads (update f i (f i ++ [x])) := by
  obtain ⟨lk', L', heq, hr⟩ := listApp_repr h i hx
  refine ⟨⟨lk', update C.hdr i L'⟩, ?_, hr⟩
  unfold Chains.app
  rw [heq]

theorem Reads.ins (h : C.Reads f) (i : ι) (hx : Unlinked f x) :
    (C.ins i x).Reads (update f i (x :: f i)) :=
  listIns_repr h i hx

theorem Reads.rmv (h : C.Reads f) (i : ι) (hx : x ∈ f i) :
    (C.rmv i x).Reads (update f i ((f i).erase x)) :=
  listRmv_repr h i hx

theorem Reads.splice (h : C.Reads f) (i : ι) {as ys : List α}
    (hf : f i = (as ++ [p]) ++ n :: ys) (hx : Unlinked f x) :
    (C.splice i p x n).Reads (update f i ((as ++ [p]) ++ x :: n :: ys)) :=
  splice_repr h i hf hx

omit [DecidableEq ι] in
theorem Reads.rstLink (h : C.Reads f) (hx : Unlinked f x) : (C.rstLink x).Reads f :=
  linkRst_repr h hx

omit [DecidableEq ι] in
/-- **RESETTING THE LINK OF A LISTED OBJECT DOES NOT TAKE IT OUT OF ITS LIST**: the
    object before it still points to it. -/
theorem Reads.mem_list_rstLink [Fintype α] (h : C.Reads f) (hx : x ∈ f i) :
    x ∈ (C.rstLink x).list i :=
  h.mem_list_of_links hx rfl (fun _ _ hy => update_of_ne hy _ _)

/-! ### What an insertion writes -/

theorem ins_lk_ne (hy : y ≠ x) (hf : (C.hdr i).first ≠ some y) : (C.ins i x).lk y = C.lk y := by
  cases hfirst : (C.hdr i).first with
  | none => simp [Chains.ins, listIns, hfirst, setPrev, setNext, hy]
  | some z =>
    have hz : y ≠ z := fun he => hf (by rw [hfirst, he])
    simp [Chains.ins, listIns, hfirst, setPrev, setNext, hy, hz]

theorem app_lk_ne (h : C.app i x = some C') (hy : y ≠ x)
    (hl : (C.hdr i).last ≠ some y) : C'.lk y = C.lk y := by
  rw [Chains.app, listApp] at h
  cases hfirst : (C.hdr i).first with
  | none =>
    simp only [hfirst, some.injEq] at h
    subst h
    simp [setPrev, setNext, hy]
  | some z =>
    cases hlast : (C.hdr i).last with
    | none => simp [hfirst, hlast] at h
    | some w =>
      have hw : y ≠ w := fun he => hl (by rw [hlast, he])
      simp only [hfirst, hlast, some.injEq] at h
      subst h
      simp [setPrev, setNext, hy, hw]

theorem app_hdr_ne {j : ι} (h : C.app i x = some C') (hj : j ≠ i) : C'.hdr j = C.hdr j := by
  rw [Chains.app] at h
  cases hr : listApp C.lk (C.hdr i) x with
  | none => simp [hr] at h
  | some r =>
    simp only [hr, some.injEq] at h
    subst h
    exact update_of_ne hj _ _

theorem splice_lk_ne (hy : y ≠ x) (hp : y ≠ p) (hn : y ≠ n) :
    (C.splice i p x n).lk y = C.lk y := by
  simp [Chains.splice, IntrusiveList.splice, setPrev, setNext, hy, hp, hn]

/-- An object taken out of its list is in no list. -/
theorem Reads.unlinked_erase (h : C.Reads f) (hx : x ∈ f i) :
    Unlinked (update f i ((f i).erase x)) x := by
  intro j
  by_cases hj : j = i
  · subst hj
    rw [update_self]
    exact (h.nodup j).not_mem_erase
  · rw [update_of_ne hj]
    exact fun hm => hj (h.disj j i x hm hx)

/-! ### Who is where -/

/-- One list gets `x`, which was in none. -/
theorem Places.insert (h : Places f pl) (i : ι) (hx : pl x = none) {xs : List α}
    (hxs : ∀ y, y ∈ xs ↔ y = x ∨ y ∈ f i) :
    Places (update f i xs) (update pl x (some i)) := by
  intro y j
  by_cases hyx : y = x
  · subst hyx
    rw [update_self]
    by_cases hj : j = i
    · subst hj
      simp [hxs]
    · rw [update_of_ne hj, h, hx]
      simp [Ne.symm hj]
  · rw [update_of_ne hyx]
    by_cases hj : j = i
    · subst hj
      rw [update_self, hxs, ← h]
      simp [hyx]
    · rw [update_of_ne hj, h]

/-- One list loses `x`. -/
theorem Places.erase (h : Places f pl) (i : ι) (hx : pl x = some i) (hnd : (f i).Nodup) :
    Places (update f i ((f i).erase x)) (update pl x none) := by
  intro y j
  by_cases hyx : y = x
  · subst hyx
    rw [update_self]
    by_cases hj : j = i
    · subst hj
      simp [hnd.not_mem_erase]
    · rw [update_of_ne hj, h, hx]
      simp [Ne.symm hj]
  · rw [update_of_ne hyx]
    by_cases hj : j = i
    · subst hj
      rw [update_self, List.mem_erase_of_ne hyx, h]
    · rw [update_of_ne hj, h]

/-! ### Counting -/

/-- Among the lists `is`, those in which `x` is met, once for every time it is met. -/
def occurs [Fintype α] (C : Chains ι α) (is : List ι) (x : α) : List ι :=
  is.flatMap (fun i => List.replicate ((C.list i).count x) i)

/-- Over distinct keys, one key counted once makes a list of one. -/
theorem flatMap_replicate_single {c : ι → Nat} (hi : c i = 1) :
    ∀ {is : List ι}, is.Nodup → i ∈ is → (∀ j ∈ is, j ≠ i → c j = 0) →
      is.flatMap (fun j => List.replicate (c j) j) = [i] := by
  intro is
  induction is with
  | nil =>
    intro _ h
    cases h
  | cons j is ih =>
    intro hnd hm h0
    obtain ⟨hj, hnd⟩ := List.nodup_cons.mp hnd
    rw [List.flatMap_cons]
    by_cases hij : j = i
    · subst hij
      have hrest : is.flatMap (fun j => List.replicate (c j) j) = [] := by
        rw [List.flatMap_eq_nil_iff]
        intro k hk
        rw [h0 k (List.mem_cons_of_mem _ hk) (fun e => hj (e ▸ hk))]
        rfl
      rw [hrest, hi]
      rfl
    · rw [h0 j List.mem_cons_self hij]
      exact ih hnd ((List.mem_cons.mp hm).resolve_left (Ne.symm hij))
        (fun k hk => h0 k (List.mem_cons_of_mem _ hk))

/-- **IN WELL-FORMED LISTS AN OBJECT IS MET WHERE IT IS PLACED, ONCE.** -/
theorem Reads.occurs_eq [Fintype α] (h : C.Reads f) (hpl : Places f pl) {is : List ι}
    (hnd : is.Nodup) (hall : ∀ i, i ∈ is) (x : α) : C.occurs is x = (pl x).toList := by
  have hcount : ∀ i, (C.list i).count x = if pl x = some i then 1 else 0 := by
    intro i
    rw [h.list_eq i]
    split
    · rename_i hi
      exact List.count_eq_one_of_mem (h.nodup i) ((hpl x i).mpr hi)
    · rename_i hi
      exact List.count_eq_zero_of_not_mem (fun hm => hi ((hpl x i).mp hm))
  rw [occurs]
  simp only [hcount]
  cases hv : pl x with
  | none => simp
  | some i =>
    refine flatMap_replicate_single (c := fun j => if some i = some j then 1 else 0) (by simp)
      hnd (hall i) (fun j _ hj => ?_)
    rw [if_neg]
    exact fun e => hj (some.inj e).symm

omit [DecidableEq ι] in
/-- An object that is met in one of the lists is met at all. -/
theorem occurs_ne_nil [Fintype α] {is : List ι} (hi : i ∈ is) (hx : x ∈ C.list i) :
    C.occurs is x ≠ [] := by
  intro hnil
  rw [occurs, List.flatMap_eq_nil_iff] at hnil
  have hzero := congrArg List.length (hnil i hi)
  rw [List.length_replicate] at hzero
  exact List.count_eq_zero.mp hzero hx

/-- The length of a list is the number of objects placed there. -/
theorem Reads.length_eq [Fintype α] (h : C.Reads f) (hpl : Places f pl) (i : ι) :
    (f i).length = (Finset.univ.filter (fun x => pl x = some i)).card := by
  rw [← List.toFinset_card_of_nodup (h.nodup i)]
  congr 1
  ext x
  simp [hpl x i]

end Chains

end IntrusiveList
