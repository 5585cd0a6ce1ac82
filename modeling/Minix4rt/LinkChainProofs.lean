import Mathlib

/-! # Chains — singly linked lists read from a head pointer

    `next` gives the successor of every cell, `none` is the null pointer.  A chain is what
    a loop `for (x = head; x != NIL; x = x->next)` visits.  A chain that ends visits no
    cell twice, so appending, unlinking and framing need no side condition beyond
    membership. -/

namespace LinkChain

open Function

variable {α : Type} {next next' : α → Option α} {o e m : Option α} {x y c : α}
  {xs ys : List α}

/-- The cells `xs` are visited from the pointer `o` until the pointer `e`. -/
def Seg (next : α → Option α) : Option α → List α → Option α → Prop
  | o, [], e => o = e
  | o, x :: xs, e => o = some x ∧ Seg next (next x) xs e

/-- The cells visited from `o` until the null pointer. -/
def Chain (next : α → Option α) (o : Option α) (xs : List α) : Prop := Seg next o xs none

theorem chain_nil : Chain next o [] ↔ o = none := Iff.rfl

theorem seg_append : Seg next o (xs ++ ys) e ↔ ∃ m, Seg next o xs m ∧ Seg next m ys e := by
  induction xs generalizing o with
  | nil =>
    constructor
    · exact fun h => ⟨o, rfl, h⟩
    · rintro ⟨m, rfl, h⟩
      exact h
  | cons x xs ih =>
    constructor
    · rintro ⟨rfl, h⟩
      obtain ⟨m, h1, h2⟩ := ih.mp h
      exact ⟨m, ⟨rfl, h1⟩, h2⟩
    · rintro ⟨m, ⟨rfl, h1⟩, h2⟩
      exact ⟨rfl, ih.mpr ⟨m, h1, h2⟩⟩

/-- A segment depends on the links of its own cells only. -/
theorem Seg.congr (h : Seg next o xs e) (hn : ∀ x ∈ xs, next' x = next x) : Seg next' o xs e := by
  induction xs generalizing o with
  | nil => exact h
  | cons x xs ih =>
    refine ⟨h.1, ?_⟩
    rw [hn x (by simp)]
    exact ih h.2 (fun y hy => hn y (by simp [hy]))

theorem Chain.congr (h : Chain next o xs) (hn : ∀ x ∈ xs, next' x = next x) : Chain next' o xs :=
  Seg.congr h hn

/-- A pointer starts one chain at most. -/
theorem Chain.unique (h : Chain next o xs) (h' : Chain next o ys) : xs = ys := by
  induction xs generalizing o ys with
  | nil =>
    cases ys with
    | nil => rfl
    | cons y ys =>
      rw [chain_nil] at h
      rw [h] at h'
      exact nomatch h'.1
  | cons x xs ih =>
    cases ys with
    | nil =>
      rw [chain_nil] at h'
      rw [h'] at h
      exact nomatch h.1
    | cons y ys =>
      obtain ⟨rfl, h⟩ := h
      obtain ⟨he, h'⟩ := h'
      cases he
      rw [ih h h']

/-- **A CHAIN THAT ENDS HAS NO CELL TWICE.** -/
theorem Chain.nodup (h : Chain next o xs) : xs.Nodup := by
  induction xs generalizing o with
  | nil => exact List.nodup_nil
  | cons x xs ih =>
    refine List.nodup_cons.mpr ⟨fun hx => ?_, ih h.2⟩
    -- a second visit of `x` would start the same chain again, and be shorter
    obtain ⟨as, bs, rfl⟩ := List.append_of_mem hx
    obtain ⟨m, -, hm⟩ := seg_append.mp h.2
    have he := Chain.unique h.2 hm.2
    have hl := congrArg List.length he
    simp only [List.length_append, List.length_cons] at hl
    omega

/-- A cell that links to itself is in no chain. -/
theorem not_chain_of_loop {x : α} (hx : next x = some x) : ¬ Chain next (some x) xs := by
  intro h
  induction xs with
  | nil => cases h
  | cons y ys ih =>
    obtain ⟨he, h⟩ := h
    cases he
    rw [hx] at h
    exact ih h

theorem Chain.head_eq (h : Chain next o xs) : o = xs.head? := by
  cases xs with
  | nil => exact h
  | cons x xs => exact h.1

theorem Chain.length_le [Fintype α] (h : Chain next o xs) : xs.length ≤ Fintype.card α :=
  h.nodup.length_le_card

theorem erase_middle [DecidableEq α] {x : α} (h : (xs ++ x :: ys).Nodup) :
    (xs ++ x :: ys).erase x = xs ++ ys := by
  have hx : x ∉ xs := fun hx => List.disjoint_of_nodup_append h hx (by simp)
  rw [List.erase_append_right _ hx, List.erase_cons_head]

/-! ## Writing links -/

section Update

variable [DecidableEq α]

theorem Chain.update_of_notMem (h : Chain next o xs) (hx : x ∉ xs) (v : Option α) :
    Chain (update next x v) o xs :=
  h.congr (fun y hy => update_of_ne (by rintro rfl; exact hx hy) _ _)

/-- Append `c` behind the last cell `x`. -/
theorem Chain.append (h : Chain next o (xs ++ [x])) (hc : c ∉ xs ++ [x]) :
    Chain (update (update next x (some c)) c none) o (xs ++ [x, c]) := by
  have hnd := h.nodup
  obtain ⟨m, h1, h2⟩ := seg_append.mp h
  obtain ⟨rfl, -⟩ := h2
  have hxc : x ≠ c := fun e => hc (by simp [e])
  refine seg_append.mpr ⟨some x, h1.congr (fun y hy => ?_), rfl, ?_⟩
  · have hyx : y ≠ x := by
      rintro rfl
      exact (List.disjoint_of_nodup_append hnd) hy (by simp)
    have hyc : y ≠ c := fun e => hc (by simp [← e, hy])
    rw [update_of_ne hyc, update_of_ne hyx]
  · rw [update_of_ne hxc, update_self]
    refine ⟨rfl, ?_⟩
    rw [update_self]
    rfl

/-- Put `c` before the first cell. -/
theorem Chain.push (h : Chain next o xs) (hc : c ∉ xs) :
    Chain (update next c o) (some c) (c :: xs) := by
  refine ⟨rfl, ?_⟩
  rw [update_self]
  exact h.update_of_notMem hc o

/-- Unlink `c`, which is behind `x`. -/
theorem Chain.unlink (h : Chain next o (xs ++ x :: c :: ys)) :
    Chain (update next x (next c)) o (xs ++ x :: ys) := by
  have hnd := h.nodup
  obtain ⟨m, h1, rfl, hxc, h2⟩ := seg_append.mp h
  rw [List.nodup_append] at hnd
  obtain ⟨-, hnd2, hdis⟩ := hnd
  refine seg_append.mpr ⟨some x, h1.congr (fun y hy => ?_), rfl, ?_⟩
  · exact update_of_ne (hdis y hy x (by simp)) _ _
  · rw [update_self]
    refine Chain.update_of_notMem h2 ?_ _
    rw [List.nodup_cons] at hnd2
    exact fun hx => hnd2.1 (by simp [hx])

end Update

/-! ## The last cell, and the cell before another -/

/-- Follow the links to the last cell. -/
def last (next : α → Option α) : Nat → α → Option α
  | 0, _ => none
  | n + 1, x =>
    match next x with
    | none => some x
    | some y => last next n y

theorem Chain.last_eq {n : Nat} (h : Chain next (some x) xs) (hn : xs.length ≤ n) :
    ∃ ys l, xs = ys ++ [l] ∧ last next n x = some l := by
  induction xs generalizing x n with
  | nil => cases h
  | cons y xs ih =>
    obtain ⟨he, h⟩ := h
    cases he
    cases n with
    | zero => exact absurd hn (by simp)
    | succ n =>
      rw [last]
      cases xs with
      | nil =>
        rw [show next y = none from h]
        exact ⟨[], y, rfl, rfl⟩
      | cons z xs =>
        have hz := h.1
        rw [hz] at h ⊢
        obtain ⟨ys, l, hl, hlast⟩ := ih h (by simpa using hn)
        exact ⟨y :: ys, l, by rw [hl]; rfl, hlast⟩

section Before

variable [DecidableEq α]

/-- The search for the cell before `c`, from the cell `x` on. -/
def before (next : α → Option α) (c : α) : Nat → α → Option (Option α)
  | 0, _ => none
  | n + 1, x =>
    match next x with
    | none => some none
    | some y => if y = c then some (some x) else before next c n y

/-- The search finds a cell unless it is the first or not in the chain. -/
theorem Chain.before_eq {n : Nat} (h : Chain next (some x) xs) (hx : x ≠ c) (hn : xs.length ≤ n) :
    (c ∉ xs ∧ before next c n x = some none) ∨
      ∃ as y bs, xs = as ++ y :: c :: bs ∧ before next c n x = some (some y) := by
  induction xs generalizing x n with
  | nil => cases h
  | cons y xs ih =>
    obtain ⟨he, h⟩ := h
    cases he
    cases n with
    | zero => exact absurd hn (by simp)
    | succ n =>
      rw [before]
      cases xs with
      | nil =>
        rw [show next y = none from h]
        exact .inl ⟨by simp [Ne.symm hx], rfl⟩
      | cons z xs =>
        have hz := h.1
        rw [hz] at h ⊢
        by_cases hzc : z = c
        · subst hzc
          exact .inr ⟨[], y, xs, rfl, if_pos rfl⟩
        · simp only [if_neg hzc]
          rcases ih h hzc (by simpa using hn) with ⟨hc, hb⟩ | ⟨as, w, bs, hl, hb⟩
          · exact .inl ⟨by simp [hc, Ne.symm hx], hb⟩
          · exact .inr ⟨y :: as, w, bs, by rw [hl]; rfl, hb⟩

end Before

/-! ## The first cell with a property -/

/-- The search for the first cell with the property `P`, together with the cell before
    it; `prev` is the cell before the start. -/
def search (next : α → Option α) (P : α → Prop) [DecidablePred P] :
    Nat → Option α → Option α → Option (Option (Option α × α))
  | _, _, none => some none
  | 0, _, some _ => none
  | n + 1, prev, some x => if P x then some (some (prev, x)) else search next P n (some x) (next x)

theorem Chain.search_eq {P : α → Prop} [DecidablePred P] {n : Nat} {prev : Option α}
    (h : Chain next o xs) (hn : xs.length ≤ n) :
    ((∀ x ∈ xs, ¬ P x) ∧ search next P n prev o = some none) ∨
      ∃ as y bs, xs = as ++ y :: bs ∧ (∀ x ∈ as, ¬ P x) ∧ P y ∧
        search next P n prev o = some (some (as.getLast?.or prev, y)) := by
  induction xs generalizing o n prev with
  | nil =>
    rw [chain_nil] at h
    subst h
    exact .inl ⟨by simp, by cases n <;> rfl⟩
  | cons x xs ih =>
    obtain ⟨rfl, h⟩ := h
    cases n with
    | zero => exact absurd hn (by simp)
    | succ n =>
      rw [search]
      by_cases hP : P x
      · exact .inr ⟨[], x, xs, rfl, by simp, hP, by rw [if_pos hP]; rfl⟩
      · rw [if_neg hP]
        rcases ih h (by simpa using hn) with ⟨hno, hs⟩ | ⟨as, y, bs, hl, hno, hy, hs⟩
        · exact .inl ⟨by simpa [hP] using hno, hs⟩
        · refine .inr ⟨x :: as, y, bs, by rw [hl]; rfl, by simpa [hP] using hno, hy, ?_⟩
          rw [hs]
          cases as with
          | nil => rfl
          | cons a as =>
            rw [List.getLast?_cons_cons, List.getLast?_eq_some_getLast (by simp)]
            rfl

end LinkChain
