import Mathlib
import Minix4rt.IntrusiveListProofs

/-! # Priority lists — an array of intrusive lists under a bitmap

    A priority list is one intrusive list per level, a bitmap with one bit per
    level and a total count.  The level lists are named by `nm : Fin n → ι`, so
    several priority lists can share the links of one kind of object.

    `PReads` ties the bitmap and the count to the lists: bit `p` is set exactly
    when list `p` is not empty, and the count is the total length.  Under it,
    the search over the bitmap finds the head of the LOWEST non-empty level. -/

namespace PriorityList

open IntrusiveList Function

variable {ι α : Type} {n : Nat}

/-- The fields of a priority list beside its lists. -/
structure PAux (n : Nat) where
  bitmap : BitVec n
  inQ : Int
  maxinQ : Int
deriving DecidableEq, Repr

/-- An empty priority list. -/
def PAux.rst : PAux n := { bitmap := 0, inQ := 0, maxinQ := 0 }

/-- One more object, at level `p`. -/
def PAux.add (A : PAux n) (p : Fin n) : PAux n :=
  { bitmap := A.bitmap ||| (1#n <<< p.val), inQ := A.inQ + 1, maxinQ := max (A.inQ + 1) A.maxinQ }

/-- One object less; `now` is what the level's own counter says after it. -/
def PAux.sub (A : PAux n) (p : Fin n) (now : Int) : PAux n :=
  { A with bitmap := if now = 0 then A.bitmap &&& ~~~(1#n <<< p.val) else A.bitmap,
           inQ := A.inQ - 1 }

variable [DecidableEq ι] [DecidableEq α]

/-- Append an object at level `p`. -/
def plistApp (nm : Fin n → ι) (C : Chains ι α) (A : PAux n) (x : α) (p : Fin n) :
    Option (Chains ι α × PAux n) :=
  match C.app (nm p) x with
  | none => none
  | some C => some (C, A.add p)

/-- Insert an object at the head of level `p`. -/
def plistIns (nm : Fin n → ι) (C : Chains ι α) (A : PAux n) (x : α) (p : Fin n) :
    Chains ι α × PAux n :=
  (C.ins (nm p) x, A.add p)

/-- Remove an object from level `p`. -/
def plistRmv (nm : Fin n → ι) (C : Chains ι α) (A : PAux n) (x : α) (p : Fin n) :
    Chains ι α × PAux n :=
  let C := C.rmv (nm p) x
  (C, A.sub p (C.hdr (nm p)).inQ)

/-- The first object of the lowest level whose bit is set. -/
def plistGet (nm : Fin n → ι) (C : Chains ι α) (A : PAux n) : Option α :=
  if A.inQ = 0 then none
  else match (List.finRange n).find? (fun p => A.bitmap.getLsbD p.val) with
    | some p => (C.hdr (nm p)).first
    | none => none

/-- The bitmap and the count read the lists correctly. -/
structure PReads (nm : Fin n → ι) (f : ι → List α) (A : PAux n) : Prop where
  bit : ∀ p : Fin n, A.bitmap.getLsbD p.val = true ↔ f (nm p) ≠ []
  inQ : A.inQ = ∑ p, ((f (nm p)).length : Int)

/-! ## Bits and totals -/

private theorem getLsbD_one_shift (p q : Fin n) :
    (1#n <<< p.val).getLsbD q.val = decide (q = p) := by
  have hq := q.isLt
  by_cases hqp : q = p
  · subst hqp
    simp [hq]
  · have hne : q.val ≠ p.val := fun e => hqp (Fin.ext e)
    simp only [BitVec.getLsbD_shiftLeft, BitVec.getLsbD_one, hqp, decide_false]
    by_cases hlt : q.val < p.val
    · simp [hlt]
    · have : q.val - p.val ≠ 0 := by omega
      simp [this]

omit [DecidableEq α] in
private theorem sum_update_length {nm : Fin n → ι} (hnm : Function.Injective nm)
    (f : ι → List α) (p : Fin n) (xs : List α) :
    ∑ q, ((update f (nm p) xs (nm q)).length : Int)
      = ∑ q, ((f (nm q)).length : Int) - (f (nm p)).length + xs.length := by
  have hupd : (fun q => ((update f (nm p) xs (nm q)).length : Int))
      = update (fun q => ((f (nm q)).length : Int)) p (xs.length : Int) := by
    funext q
    by_cases hq : q = p
    · subst hq
      simp
    · rw [update_of_ne hq, update_of_ne (fun e => hq (hnm e))]
  have hsum := Finset.add_sum_erase Finset.univ (fun q => ((f (nm q)).length : Int))
    (Finset.mem_univ p)
  rw [hupd, Finset.sum_update_of_mem (Finset.mem_univ p), Finset.sdiff_singleton_eq_erase, ← hsum]
  ring

/-! ## The operations -/

variable {nm : Fin n → ι} {f : ι → List α} {A : PAux n} {x : α} {C : Chains ι α}

omit [DecidableEq ι] [DecidableEq α] in
/-- Empty lists are read by an empty bitmap. -/
theorem PReads.rst (h : ∀ p, f (nm p) = []) : PReads nm f PAux.rst := by
  refine ⟨fun p => ?_, ?_⟩
  · simp [PAux.rst, h p]
  · simp [PAux.rst, h]

omit [DecidableEq ι] [DecidableEq α] in
/-- Only the lists of the levels matter. -/
theorem PReads.congr {g : ι → List α} (h : PReads nm f A) (hg : ∀ p, g (nm p) = f (nm p)) :
    PReads nm g A := by
  refine ⟨fun p => ?_, ?_⟩
  · rw [hg p]
    exact h.bit p
  · rw [h.inQ]
    exact Finset.sum_congr rfl (fun p _ => by rw [hg p])

omit [DecidableEq α] in
/-- A level gets one object more. -/
theorem PReads.add (h : PReads nm f A) (hnm : Function.Injective nm) {p : Fin n}
    {xs : List α} (hne : xs ≠ []) (hlen : xs.length = (f (nm p)).length + 1) :
    PReads nm (update f (nm p) xs) (A.add p) := by
  refine ⟨fun q => ?_, ?_⟩
  · simp only [PAux.add, BitVec.getLsbD_or, getLsbD_one_shift, Bool.or_eq_true,
      decide_eq_true_eq]
    by_cases hq : q = p
    · subst hq
      simp [hne]
    · rw [update_of_ne (fun e => hq (hnm e)), ← h.bit q]
      simp [hq]
  · rw [sum_update_length hnm]
    simp only [PAux.add, h.inQ]
    omega

omit [DecidableEq α] in
/-- A level loses one object; its own counter tells whether it is empty now. -/
theorem PReads.sub (h : PReads nm f A) (hnm : Function.Injective nm) {p : Fin n}
    {xs : List α} (hlen : xs.length + 1 = (f (nm p)).length) :
    PReads nm (update f (nm p) xs) (A.sub p xs.length) := by
  have hbit : ∀ q, (A.sub p xs.length).bitmap.getLsbD q.val
      = (A.bitmap.getLsbD q.val && !(decide (q = p) && xs.isEmpty)) := by
    intro q
    have hq := q.isLt
    cases xs with
    | nil =>
      simp only [PAux.sub, List.length_nil, Nat.cast_zero, if_true, BitVec.getLsbD_and,
        BitVec.getLsbD_not, getLsbD_one_shift, List.isEmpty_nil, Bool.and_true, hq,
        decide_true, Bool.true_and]
    | cons y ys =>
      have hpos : ¬ ((((y :: ys).length : Nat) : Int) = 0) := by simp; omega
      rw [PAux.sub, if_neg hpos, List.isEmpty_cons, Bool.and_false, Bool.not_false, Bool.and_true]
  refine ⟨fun q => ?_, ?_⟩
  · rw [hbit]
    by_cases hq : q = p
    · subst hq
      have hold : f (nm q) ≠ [] := by
        intro e
        rw [e] at hlen
        simp at hlen
      have := (h.bit q).mpr hold
      rw [update_self, this]
      cases xs <;> simp
    · rw [update_of_ne (fun e => hq (hnm e)), ← h.bit q]
      simp [hq]
  · rw [sum_update_length hnm]
    simp only [PAux.sub, h.inQ]
    omega

/-- Appending at a level. -/
theorem plistApp_reads (hC : C.Reads f) (hA : PReads nm f A)
    (hnm : Function.Injective nm) (p : Fin n) (hx : Chains.Unlinked f x) :
    ∃ C', plistApp nm C A x p = some (C', A.add p) ∧
      C'.Reads (update f (nm p) (f (nm p) ++ [x])) ∧
      PReads nm (update f (nm p) (f (nm p) ++ [x])) (A.add p) := by
  obtain ⟨C', heq, hr⟩ := hC.app (nm p) hx
  refine ⟨C', ?_, hr, hA.add hnm (by simp) (by simp)⟩
  unfold plistApp
  rw [heq]

/-- Inserting at the head of a level. -/
theorem plistIns_reads (hC : C.Reads f) (hA : PReads nm f A)
    (hnm : Function.Injective nm) (p : Fin n) (hx : Chains.Unlinked f x) :
    (plistIns nm C A x p).1.Reads (update f (nm p) (x :: f (nm p))) ∧
      PReads nm (update f (nm p) (x :: f (nm p))) (plistIns nm C A x p).2 :=
  ⟨hC.ins (nm p) hx, hA.add hnm (by simp) (by simp)⟩

/-- Removing a member of a level. -/
theorem plistRmv_reads (hC : C.Reads f) (hA : PReads nm f A)
    (hnm : Function.Injective nm) (p : Fin n) (hx : x ∈ f (nm p)) :
    (plistRmv nm C A x p).1.Reads (update f (nm p) ((f (nm p)).erase x)) ∧
      PReads nm (update f (nm p) ((f (nm p)).erase x)) (plistRmv nm C A x p).2 := by
  have hr := hC.rmv (nm p) hx
  refine ⟨hr, ?_⟩
  have hlen : ((C.rmv (nm p) x).hdr (nm p)).inQ = ((f (nm p)).erase x).length := by
    rw [hr.inQ_eq, update_self]
  show PReads nm _ (A.sub p ((C.rmv (nm p) x).hdr (nm p)).inQ)
  rw [hlen]
  refine hA.sub hnm ?_
  rw [List.length_erase_of_mem hx]
  have := List.length_pos_of_mem hx
  omega

omit [DecidableEq ι] [DecidableEq α] in
/-- The count is zero exactly when every level is empty. -/
theorem PReads.inQ_eq_zero (hA : PReads nm f A) : A.inQ = 0 ↔ ∀ p, f (nm p) = [] := by
  rw [hA.inQ]
  constructor
  · intro h p
    have := (Finset.sum_eq_zero_iff_of_nonneg (fun q _ => Int.natCast_nonneg _)).mp h p
      (Finset.mem_univ p)
    exact List.length_eq_zero_iff.mp (by exact_mod_cast this)
  · intro h
    simp [h]

omit [DecidableEq ι] [DecidableEq α] in
/-- Nothing is found exactly when every level is empty. -/
theorem plistGet_eq_none (hC : C.Reads f) (hA : PReads nm f A) :
    plistGet nm C A = none ↔ ∀ p, f (nm p) = [] := by
  unfold plistGet
  by_cases hz : A.inQ = 0
  · rw [if_pos hz]
    simpa using hA.inQ_eq_zero.mp hz
  · rw [if_neg hz]
    have hex : ¬ ∀ p, f (nm p) = [] := fun h => hz (hA.inQ_eq_zero.mpr h)
    cases hfind : (List.finRange n).find? (fun p => A.bitmap.getLsbD p.val) with
    | none =>
      rw [List.find?_eq_none] at hfind
      refine absurd (fun p => ?_) hex
      have hp := hfind p (List.mem_finRange p)
      rw [hA.bit p] at hp
      exact not_not.mp hp
    | some p =>
      have hp : f (nm p) ≠ [] := by
        have := List.find?_some hfind
        exact (hA.bit p).mp this
      simp only [hC.first_eq, List.head?_eq_none_iff]
      exact ⟨fun h => absurd h hp, fun h => absurd h hex⟩

omit [DecidableEq ι] [DecidableEq α] in
/-- What is found is the head of the lowest non-empty level. -/
theorem plistGet_eq_some (hC : C.Reads f) (hA : PReads nm f A) (hx : plistGet nm C A = some x) :
    ∃ p, (f (nm p)).head? = some x ∧ ∀ q < p, f (nm q) = [] := by
  unfold plistGet at hx
  by_cases hz : A.inQ = 0
  · rw [if_pos hz] at hx
    cases hx
  · rw [if_neg hz] at hx
    cases hfind : (List.finRange n).find? (fun p => A.bitmap.getLsbD p.val) with
    | none =>
      rw [hfind] at hx
      cases hx
    | some p =>
      rw [hfind] at hx
      simp only [hC.first_eq] at hx
      refine ⟨p, hx, fun q hq => ?_⟩
      rw [List.find?_eq_some_iff_getElem] at hfind
      obtain ⟨-, i, hi, hpi, hlow⟩ := hfind
      have hip : i = p.val := by
        have := congrArg Fin.val hpi
        simpa using this
      have hqlt : q.val < i := by rw [hip]; exact hq
      have hq' := hlow q.val hqlt
      simp only [List.getElem_finRange, Fin.cast_mk, Fin.eta, Bool.not_eq_true'] at hq'
      by_contra hne
      rw [(hA.bit q).mpr hne] at hq'
      cases hq'

/-! ## The oldest of the lowest level -/

section Oldest

variable {β : Type} [LinearOrder β] {lv : α → β} {q : α → Bool} {xs : List α} {y : α}

/-- Among the objects of `xs` that satisfy `q`, with `xs` in order of arrival, `x` is the
    FIRST of those of lowest level. -/
structure Oldest (lv : α → β) (q : α → Bool) (xs : List α) (x : α) : Prop where
  mem : x ∈ xs
  sat : q x = true
  least : ∀ y ∈ xs, q y = true → lv x < lv y ∨ lv x = lv y ∧ xs.idxOf x ≤ xs.idxOf y

/-- There is at most one such object. -/
theorem Oldest.unique (hx : Oldest lv q xs x) (hy : Oldest lv q xs y) : x = y := by
  rcases hx.least y hy.mem hy.sat with hlt | ⟨he, hle⟩
  · rcases hy.least x hx.mem hx.sat with hlt' | ⟨he', -⟩
    · exact absurd hlt' (not_lt_of_gt hlt)
    · exact absurd he' hlt.ne'
  · rcases hy.least x hx.mem hx.sat with hlt' | ⟨-, hle'⟩
    · exact absurd he hlt'.ne'
    · exact (List.idxOf_inj hx.mem).mp (le_antisymm hle hle')

/-- What a search finds stands before every other match. -/
theorem idxOf_le_of_find? (h : xs.find? q = some x) (hy : y ∈ xs) (hq : q y = true) :
    xs.idxOf x ≤ xs.idxOf y := by
  induction xs with
  | nil => cases hy
  | cons z zs ih =>
    rw [List.find?_cons] at h
    cases hz : q z with
    | true =>
      rw [hz] at h
      cases h
      simp
    | false =>
      rw [hz] at h
      have hzx : z ≠ x := by
        rintro rfl
        rw [List.find?_some h] at hz
        cases hz
      have hzy : z ≠ y := by
        rintro rfl
        rw [hq] at hz
        cases hz
      rw [List.idxOf_cons_ne _ hzx, List.idxOf_cons_ne _ hzy]
      have hy' : y ∈ zs := (List.mem_cons.mp hy).resolve_left (Ne.symm hzy)
      exact Nat.succ_le_succ (ih h hy')

/-- A search level by level, each level in order of arrival, finds the oldest match of
    the lowest level. -/
theorem oldest_of_find? : ∀ {ps : List β}, ps.Pairwise (· < ·) →
    (∀ y ∈ xs, q y = true → lv y ∈ ps) →
    (ps.flatMap (fun p => xs.filter (fun y => lv y = p))).find? q = some x →
    Oldest lv q xs x := by
  intro ps
  induction ps with
  | nil =>
    intro _ _ h
    cases h
  | cons p ps ih =>
    intro hps hall h
    obtain ⟨hp, hps⟩ := List.pairwise_cons.mp hps
    rw [List.flatMap_cons, List.find?_append] at h
    cases hfd : (xs.filter (fun y => lv y = p)).find? q with
    | some z =>
      rw [hfd] at h
      cases h
      have hz := List.mem_filter.mp (List.mem_of_find?_eq_some hfd)
      have hzp : lv x = p := of_decide_eq_true hz.2
      refine ⟨hz.1, List.find?_some hfd, fun y hy hq => ?_⟩
      rcases List.mem_cons.mp (hall y hy hq) with hyp | hyp
      · -- at the same level the order of arrival decides
        rw [List.find?_filter] at hfd
        exact .inr ⟨hzp.trans hyp.symm, idxOf_le_of_find? hfd hy (by simp [hyp, hq])⟩
      · exact .inl (hzp ▸ hp _ hyp)
    | none =>
      rw [hfd, Option.none_or] at h
      refine ih hps (fun y hy hq => ?_) h
      refine (List.mem_cons.mp (hall y hy hq)).resolve_left (fun hyp => ?_)
      exact List.find?_eq_none.mp hfd y (List.mem_filter.mpr ⟨hy, by simp [hyp]⟩) hq

omit [DecidableEq α] in
/-- The same search finds nothing exactly when there is no match. -/
theorem find?_levels_eq_none {ps : List β} (hall : ∀ y ∈ xs, q y = true → lv y ∈ ps) :
    (ps.flatMap (fun p => xs.filter (fun y => lv y = p))).find? q = none ↔
      ∀ y ∈ xs, q y = false := by
  rw [List.find?_eq_none]
  constructor
  · intro h y hy
    by_contra hq
    rw [Bool.not_eq_false] at hq
    refine h y ?_ hq
    exact List.mem_flatMap.mpr ⟨lv y, hall y hy hq, List.mem_filter.mpr ⟨hy, by simp⟩⟩
  · intro h y hy
    obtain ⟨p, -, hyp⟩ := List.mem_flatMap.mp hy
    simp [h y (List.mem_filter.mp hyp).1]

end Oldest

end PriorityList
