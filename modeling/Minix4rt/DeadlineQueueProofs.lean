import Mathlib

/-! # Deadline queues — remaining times, and their encoding by gaps

    A deadline queue is the list of the armed objects with the ticks that
    remain for each of them.  `enqueue` puts an object before the first one
    that is due LATER, so objects due at the same time keep their arrival order;
    `elapse` lets one tick pass; `due` and `pending` cut off what is due now.

    An implementation stores only the first remaining time and the gap between
    each object and the next: `decode gap e xs` is the queue such a store
    stands for.  The gap of the LAST object is never read. -/

namespace DeadlineQueue

variable {α : Type} {x : α} {a : α × Nat} {q : List (α × Nat)} {d : Nat}

/-! ## The queue -/

/-- Put `x` before the first object due later. -/
def enqueue (x : α) (d : Nat) : List (α × Nat) → List (α × Nat)
  | [] => [(x, d)]
  | a :: q => if d < a.2 then (x, d) :: a :: q else a :: enqueue x d q

/-- Take `x` out. -/
def remove [DecidableEq α] (x : α) (q : List (α × Nat)) : List (α × Nat) :=
  q.filter (fun a => a.1 ≠ x)

/-- One tick passes. -/
def elapse (q : List (α × Nat)) : List (α × Nat) := q.map (fun a => (a.1, a.2 - 1))

/-- The objects due now, in queue order. -/
def due (q : List (α × Nat)) : List α := (q.takeWhile (fun a => a.2 = 0)).map Prod.fst

/-- What is left once the objects due now are gone. -/
def pending (q : List (α × Nat)) : List (α × Nat) := q.dropWhile (fun a => a.2 = 0)

/-- The queue is in the order of the remaining times. -/
def Ordered (q : List (α × Nat)) : Prop := q.Pairwise (fun a b => a.2 ≤ b.2)

theorem mem_enqueue : a ∈ enqueue x d q ↔ a = (x, d) ∨ a ∈ q := by
  induction q with
  | nil => simp [enqueue]
  | cons b q ih =>
    unfold enqueue
    by_cases h : d < b.2
    · rw [if_pos h]
      simp
    · rw [if_neg h, List.mem_cons, ih, List.mem_cons]
      exact or_left_comm

/-- `enqueue` at a split of the queue around the deadline. -/
theorem enqueue_split {r : List (α × Nat)} (hq : ∀ a ∈ q, a.2 ≤ d) (hr : ∀ a ∈ r.head?, d < a.2) :
    enqueue x d (q ++ r) = q ++ (x, d) :: r := by
  induction q with
  | nil =>
    cases r with
    | nil => rfl
    | cons b r =>
      have hb : d < b.2 := hr b (by simp)
      show (if d < b.2 then _ else _) = _
      rw [if_pos hb, List.nil_append]
  | cons a q ih =>
    have ha : ¬ d < a.2 := Nat.not_lt.mpr (hq a (by simp))
    show (if d < a.2 then _ else _) = _
    rw [if_neg ha]
    exact congrArg (a :: ·) (ih (fun b hb => hq b (by simp [hb])))

theorem sublist_enqueue (x : α) (d : Nat) (q : List (α × Nat)) : q.Sublist (enqueue x d q) := by
  induction q with
  | nil => exact List.nil_sublist _
  | cons a q ih =>
    show (a :: q).Sublist (if d < a.2 then _ else _)
    by_cases h : d < a.2
    · rw [if_pos h]
      exact List.sublist_cons_self _ _
    · rw [if_neg h]
      exact ih.cons_cons a

/-- **ARRIVAL ORDER**: an object armed later for the same time goes behind. -/
theorem Ordered.pair_enqueue (h : Ordered q) {y : α}
    (hy : (y, d) ∈ q) : [(y, d), (x, d)].Sublist (DeadlineQueue.enqueue x d q) := by
  induction q with
  | nil => cases hy
  | cons a q ih =>
    obtain ⟨ha, hq⟩ := List.pairwise_cons.mp h
    show List.Sublist _ (if d < a.2 then _ else _)
    have hle : ¬ d < a.2 := by
      rcases List.mem_cons.mp hy with e | hm
      · rw [← e]
        exact Nat.lt_irrefl d
      · exact Nat.not_lt.mpr (ha _ hm)
    rw [if_neg hle]
    rcases List.mem_cons.mp hy with rfl | hm
    · refine List.Sublist.cons_cons _ ?_
      rw [List.singleton_sublist]
      exact mem_enqueue.mpr (.inl rfl)
    · exact (ih hq hm).cons a

theorem Ordered.elapse (h : Ordered q) : Ordered (elapse q) := by
  refine List.pairwise_map.mpr (h.imp ?_)
  intro a b hab
  exact Nat.sub_le_sub_right hab 1

/-- In an ordered queue the objects due now are all in front. -/
theorem Ordered.takeWhile_eq (h : Ordered q) :
    q.takeWhile (fun a => a.2 = 0) = q.filter (fun a => a.2 = 0) := by
  induction q with
  | nil => rfl
  | cons a q ih =>
    obtain ⟨ha, hq⟩ := List.pairwise_cons.mp h
    by_cases hz : a.2 = 0
    · simp [hz, ih hq]
    · have hnone : q.filter (fun a => a.2 = 0) = [] := by
        rw [List.filter_eq_nil_iff]
        intro b hb hbz
        have := ha b hb
        simp only [decide_eq_true_eq] at hbz
        omega
      simp [hz, hnone]

theorem Ordered.pending_eq (h : Ordered q) :
    DeadlineQueue.pending q = q.filter (fun a => a.2 ≠ 0) := by
  unfold DeadlineQueue.pending
  induction q with
  | nil => rfl
  | cons a q ih =>
    obtain ⟨ha, hq⟩ := List.pairwise_cons.mp h
    by_cases hz : a.2 = 0
    · simpa [hz] using ih hq
    · have hall : q.filter (fun a => a.2 ≠ 0) = q := by
        rw [List.filter_eq_self]
        intro b hb
        have := ha b hb
        simp only [decide_eq_true_eq]
        omega
      simp only [decide_not] at hall
      simp [hz, hall]

theorem Ordered.due_eq (h : Ordered q) : due q = (q.filter (fun a => a.2 = 0)).map Prod.fst := by
  unfold due
  rw [h.takeWhile_eq]

/-! ## Gaps -/

/-- The queue that a first remaining time and a gap per object stand for. -/
def decode (gap : α → Nat) : Nat → List α → List (α × Nat)
  | _, [] => []
  | e, x :: xs => (x, e) :: decode gap (e + gap x) xs

/-- The time from the first object to what follows the last. -/
def span (gap : α → Nat) (xs : List α) : Nat := (xs.map gap).sum

variable {gap gap' : α → Nat} {xs ys : List α} {e : Nat}

theorem decode_fst : (decode gap e xs).map Prod.fst = xs := by
  induction xs generalizing e with
  | nil => rfl
  | cons x xs ih => exact congrArg (x :: ·) ih

theorem mem_decode_fst (h : a ∈ decode gap e xs) : a.1 ∈ xs := by
  have := List.mem_map_of_mem (f := Prod.fst) h
  rwa [decode_fst] at this

theorem decode_append :
    decode gap e (xs ++ ys) = decode gap e xs ++ decode gap (e + span gap xs) ys := by
  induction xs generalizing e with
  | nil => simp [decode, span]
  | cons x xs ih =>
    rw [List.cons_append]
    show (x, e) :: _ = (x, e) :: _
    rw [ih]
    simp [span, Nat.add_assoc]

/-- The gap of the last object is never read. -/
theorem decode_congr (h : ∀ x ∈ xs.dropLast, gap' x = gap x) :
    decode gap' e xs = decode gap e xs := by
  induction xs generalizing e with
  | nil => rfl
  | cons x xs ih =>
    cases xs with
    | nil => rfl
    | cons y ys =>
      have hx : gap' x = gap x := h x (by simp)
      show (x, e) :: decode gap' (e + gap' x) (y :: ys) = (x, e) :: _
      rw [hx, ih (fun z hz => h z (by simp [hz]))]

theorem span_congr (h : ∀ x ∈ xs, gap' x = gap x) : span gap' xs = span gap xs := by
  unfold span
  rw [List.map_congr_left h]

theorem span_append : span gap (xs ++ ys) = span gap xs + span gap ys := by
  simp [span]

theorem le_of_mem_decode (h : a ∈ decode gap e xs) : e ≤ a.2 := by
  induction xs generalizing e with
  | nil => cases h
  | cons x xs ih =>
    rcases List.mem_cons.mp h with rfl | hm
    · exact Nat.le_refl _
    · exact Nat.le_trans (Nat.le_add_right _ _) (ih hm)

theorem mem_decode_le (h : a ∈ decode gap e xs) : a.2 ≤ e + span gap xs.dropLast := by
  induction xs generalizing e with
  | nil => cases h
  | cons x xs ih =>
    rcases List.mem_cons.mp h with rfl | hm
    · exact Nat.le_add_right _ _
    · cases xs with
      | nil => cases hm
      | cons y ys =>
        have := ih hm
        simp only [span, List.dropLast_cons_cons, List.map_cons, List.sum_cons] at this ⊢
        omega

theorem decode_ordered : Ordered (decode gap e xs) := by
  induction xs generalizing e with
  | nil => exact List.Pairwise.nil
  | cons x xs ih =>
    refine List.pairwise_cons.mpr ⟨fun b hb => ?_, ih⟩
    exact Nat.le_trans (Nat.le_add_right _ _) (le_of_mem_decode hb)

/-- The last object has the latest deadline. -/
theorem exists_mem_decode (gap : α → Nat) (e : Nat) (h : xs ≠ []) :
    ∃ a ∈ decode gap e xs, a.2 = e + span gap xs.dropLast := by
  obtain ⟨ys, z, rfl⟩ := (List.eq_nil_or_concat' xs).resolve_left h
  refine ⟨(z, e + span gap ys), ?_, by rw [List.dropLast_concat]⟩
  rw [decode_append]
  exact List.mem_append_right _ (by simp [decode])

/-- The gaps around an object that is put between `xs` and `ys`, where it is due. -/
theorem enqueue_decode (xs : List α) {e' : Nat} (hxs : decode gap' e' xs = decode gap e xs)
    (hd : e' + span gap' xs = d) (hall : ∀ a ∈ decode gap e xs, a.2 ≤ d)
    (hys : ∀ y ∈ ys.dropLast, gap' y = gap y)
    (hx : ys ≠ [] → d < e + span gap xs ∧ gap' x = e + span gap xs - d) :
    decode gap' e' (xs ++ x :: ys) = enqueue x d (decode gap e (xs ++ ys)) := by
  have htail : decode gap' (d + gap' x) ys = decode gap (e + span gap xs) ys := by
    rw [decode_congr hys]
    cases ys with
    | nil => rfl
    | cons y ys =>
      obtain ⟨hlt, hgap⟩ := hx (by simp)
      rw [hgap, Nat.add_sub_cancel' (Nat.le_of_lt hlt)]
  rw [decode_append, decode_append, hxs, enqueue_split hall, hd]
  · exact congrArg (fun r => _ ++ (x, d) :: r) htail
  · cases ys with
    | nil => exact fun a ha => nomatch ha
    | cons y ys =>
      intro a ha
      have hone : a = (y, e + span gap xs) := by simpa [decode, eq_comm] using ha
      rw [hone]
      exact (hx (by simp)).1

/-- The same behind an object `p`, whose gap is the only other one that changes. -/
theorem enqueue_decode_after {p : α} (hxs : ∀ y ∈ xs, gap' y = gap y)
    (hle : e + span gap xs ≤ d) (hp : gap' p = d - (e + span gap xs))
    (hys : ∀ y ∈ ys.dropLast, gap' y = gap y)
    (hx : ys ≠ [] → d < e + span gap (xs ++ [p]) ∧ gap' x = e + span gap (xs ++ [p]) - d) :
    decode gap' e ((xs ++ [p]) ++ x :: ys) = enqueue x d (decode gap e ((xs ++ [p]) ++ ys)) := by
  refine enqueue_decode (xs ++ [p]) (decode_congr ?_) ?_ (fun a ha => ?_) hys hx
  · rw [List.dropLast_concat]
    exact hxs
  · have hone : span gap' [p] = gap' p := by simp [span]
    rw [span_append, span_congr hxs, hone, hp]
    omega
  · have := mem_decode_le ha
    rw [List.dropLast_concat] at this
    omega

/-- An object that is put into a queue moves the latest deadline to its own, or not at all. -/
theorem span_enqueue {e' : Nat} {xs' : List α}
    (h : decode gap' e' xs' = enqueue x d (decode gap e xs)) (hne : xs ≠ []) :
    e' + span gap' xs'.dropLast = max d (e + span gap xs.dropLast) := by
  have hne' : xs' ≠ [] := by
    rintro rfl
    have hm : (x, d) ∈ enqueue x d (decode gap e xs) := mem_enqueue.mpr (.inl rfl)
    rw [← h] at hm
    cases hm
  obtain ⟨a, ha, hal⟩ := exists_mem_decode gap' e' hne'
  obtain ⟨b, hb, hbl⟩ := exists_mem_decode gap e hne
  rw [h, mem_enqueue] at ha
  have hx : (x, d) ∈ decode gap' e' xs' := h ▸ mem_enqueue.mpr (.inl rfl)
  have hxd := mem_decode_le hx
  have hbd := mem_decode_le (h ▸ mem_enqueue.mpr (.inr hb) : b ∈ decode gap' e' xs')
  rcases ha with rfl | ha
  · omega
  · have := mem_decode_le ha
    omega

/-- One tick off the first remaining time is one tick off every one. -/
theorem decode_elapse : elapse (decode gap (e + 1) xs) = decode gap e xs := by
  unfold elapse
  induction xs generalizing e with
  | nil => rfl
  | cons x xs ih =>
    show (x, e + 1 - 1) :: _ = (x, e) :: _
    rw [Nat.add_right_comm, ih]
    rfl

/-- Taking an object out gives its gap to the object before it. -/
theorem remove_decode [DecidableEq α] (hx : x ∉ xs ++ ys) :
    remove x (decode gap e (xs ++ x :: ys))
      = decode gap e xs ++ decode gap (e + span gap xs + gap x) ys := by
  have hkeep : ∀ {zs : List α} {e' : Nat}, x ∉ zs →
      (decode gap e' zs).filter (fun a => a.1 ≠ x) = decode gap e' zs := by
    intro zs e' hz
    rw [List.filter_eq_self]
    intro a ha
    have := mem_decode_fst ha
    simp only [ne_eq, decide_eq_true_eq]
    exact fun he => hz (he ▸ this)
  unfold remove
  rw [decode_append, List.filter_append, hkeep (fun h => hx (List.mem_append_left _ h))]
  show _ ++ List.filter _ ((x, _) :: decode gap _ ys) = _
  rw [List.filter_cons_of_neg (by simp), hkeep (fun h => hx (List.mem_append_right _ h))]

end DeadlineQueue
