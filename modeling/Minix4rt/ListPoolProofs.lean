import Minix4rt.PriorityListProofs

/-! # Pools of linked objects — plain lists and priority lists over one link

    A pool is a finite set of objects with one link each.  Its lists are plain
    ones (`Slot.plain l`) and the levels of priority lists (`Slot.level k p`), all
    threaded through that link.

    `Placed P pl` is the reading used by the proofs: the pool is well formed and
    object `x` is in the list `pl x`, or in no list when `pl x` is `none`.  So "who
    is where" is a FUNCTION, and every operation moves one value of it. -/

namespace ListPool

open IntrusiveList PriorityList Function Option

/-- A list of a pool: a plain one, or one level of a priority list. -/
inductive Slot (L K : Type) (n : Nat) where
  | plain (l : L)
  | level (k : K) (p : Fin n)
deriving DecidableEq, Repr

/-- The levels of the priority list `k`. -/
def Slot.isLevel {L K : Type} {n : Nat} [DecidableEq K] (k : K) : Slot L K n → Bool
  | .plain _ => false
  | .level k' _ => decide (k' = k)

/-- The links and headers of a pool, with the bitmap and count of each priority list. -/
structure Pool (L K α : Type) (n : Nat) where
  C : Chains (Slot L K n) α
  aux : K → PAux n

variable {L K α : Type} {n : Nat}
variable {l : L} {k : K}

theorem level_injective (k : K) : Function.Injective (Slot.level (L := L) (n := n) k) := by
  intro p q h
  cases h
  rfl

/-- Follow `next` from `o` to the first object that satisfies `q`.  `none` is a
    walk that does not end. -/
def searchFrom (lk : α → Link α) (q : α → Bool) : Nat → Option α → Option (Option α)
  | _, none => some none
  | 0, some _ => none
  | m + 1, some x => if q x then some (some x) else searchFrom lk q m (lk x).next

/-- All the objects met by following `next` from `o`, or `none` when there is no end. -/
def chainFrom (lk : α → Link α) : Nat → Option α → Option (List α)
  | _, none => some []
  | 0, some _ => none
  | m + 1, some x => (chainFrom lk m (lk x).next).map (x :: ·)

/-- A loop over distinct objects: what is true of the objects done so far, and stays true
    with one more of them, is true of all of them at the end. -/
theorem foldlM_invariant {σ : Type} {f : σ → α → Option σ} {I : List α → σ → Prop}
    (hstep : ∀ {done x s s'}, x ∉ done → I done s → f s x = some s' → I (x :: done) s') :
    ∀ {xs done : List α} {s s' : σ}, (xs.reverse ++ done).Nodup → I done s →
      xs.foldlM f s = some s' → I (xs.reverse ++ done) s' := by
  intro xs
  induction xs with
  | nil =>
    intro done s s' _ hi h
    cases h
    exact hi
  | cons x xs ih =>
    intro done s s' hnd hi h
    rw [List.foldlM_cons] at h
    obtain ⟨s1, h1, h⟩ := bind_eq_some_iff.mp h
    rw [List.reverse_cons, List.append_assoc, List.singleton_append] at hnd ⊢
    have hx : x ∉ done := (List.nodup_cons.mp hnd.of_append_right).1
    exact ih hnd (hstep hx hi h1) h

namespace Pool

section Operations

variable [DecidableEq L] [DecidableEq K] [DecidableEq α]

/-- A pool whose lists are all empty. -/
def empty : Pool L K α n :=
  { C := { lk := fun _ => Link.rst, hdr := fun _ => ListHdr.rst }, aux := fun _ => PAux.rst }

/-- Append to a plain list. -/
def app (P : Pool L K α n) (l : L) (x : α) : Option (Pool L K α n) :=
  match P.C.app (.plain l) x with
  | none => none
  | some C => some { P with C := C }

/-- Remove from a plain list. -/
def rmv (P : Pool L K α n) (l : L) (x : α) : Pool L K α n :=
  { P with C := P.C.rmv (.plain l) x }

/-- The first object of a plain list. -/
def first (P : Pool L K α n) (l : L) : Option α := (P.C.hdr (.plain l)).first

/-- The counter of a plain list. -/
def count (P : Pool L K α n) (l : L) : Int := (P.C.hdr (.plain l)).inQ

/-- Empty a plain list by resetting its header. -/
def lrst (P : Pool L K α n) (l : L) : Pool L K α n :=
  { P with C := { P.C with hdr := fun i => if i = .plain l then ListHdr.rst else P.C.hdr i } }

/-- Append at level `p` of the priority list `k`. -/
def papp (P : Pool L K α n) (k : K) (x : α) (p : Fin n) : Option (Pool L K α n) :=
  match plistApp (Slot.level k) P.C (P.aux k) x p with
  | none => none
  | some (C, A) => some { C := C, aux := update P.aux k A }

/-- Insert at the head of level `p` of the priority list `k`. -/
def pins (P : Pool L K α n) (k : K) (x : α) (p : Fin n) : Pool L K α n :=
  { C := (plistIns (Slot.level k) P.C (P.aux k) x p).1,
    aux := update P.aux k (plistIns (Slot.level k) P.C (P.aux k) x p).2 }

/-- Remove from level `p` of the priority list `k`. -/
def prmv (P : Pool L K α n) (k : K) (x : α) (p : Fin n) : Pool L K α n :=
  { C := (plistRmv (Slot.level k) P.C (P.aux k) x p).1,
    aux := update P.aux k (plistRmv (Slot.level k) P.C (P.aux k) x p).2 }

/-- The first object of the lowest non-empty level. -/
def pget (P : Pool L K α n) (k : K) : Option α := plistGet (Slot.level k) P.C (P.aux k)

/-- Empty a priority list by resetting its headers. -/
def prst (P : Pool L K α n) (k : K) : Pool L K α n :=
  { C := { P.C with hdr := fun i => if i.isLevel k then ListHdr.rst else P.C.hdr i },
    aux := update P.aux k PAux.rst }

/-- Reset the link of an object. -/
def rstLink (P : Pool L K α n) (x : α) : Pool L K α n := { P with C := P.C.rstLink x }

end Operations

section Walks

variable [Fintype α]

/-- The objects of a list, read through its pointers. -/
def list (P : Pool L K α n) (i : Slot L K n) : List α := P.C.list i

/-- The objects of a plain list, as a loop over it visits them. -/
def chain (P : Pool L K α n) (l : L) : Option (List α) :=
  chainFrom P.C.lk (Fintype.card α) (P.C.hdr (.plain l)).first

/-- The first object that satisfies `q` on the levels `ps` whose bit is set. -/
def pfind (P : Pool L K α n) (k : K) (q : α → Bool) : List (Fin n) → Option (Option α)
  | [] => some none
  | p :: ps =>
    if (P.aux k).bitmap.getLsbD p.val then
      match searchFrom P.C.lk q (Fintype.card α) (P.C.hdr (.level k p)).first with
      | none => none
      | some (some x) => some (some x)
      | some none => pfind P k q ps
    else pfind P k q ps

/-- The first object of the priority list `k` that satisfies `q`, lower levels first. -/
def pick (P : Pool L K α n) (k : K) (q : α → Bool) : Option (Option α) :=
  if (P.aux k).inQ = 0 then some none else P.pfind k q (List.finRange n)

end Walks

/-- The pool is well formed and every object is in the list `pl` says. -/
def Placed (P : Pool L K α n) (pl : α → Option (Slot L K n)) : Prop :=
  ∃ f, P.C.Reads f ∧ (∀ k, PReads (Slot.level k) f (P.aux k)) ∧ Chains.Places f pl

variable {P P' : Pool L K α n} {pl : α → Option (Slot L K n)} {x : α}

/-! ## Reading a pool -/

/-- In an empty pool nothing is placed. -/
theorem placed_empty : (empty : Pool L K α n).Placed (fun _ => none) :=
  ⟨fun _ => [], ⟨fun _ => ⟨rfl, rfl, rfl, trivial⟩, fun _ => List.nodup_nil,
    fun _ _ _ hx => nomatch hx⟩, fun _ => PReads.rst (fun _ => rfl), fun _ _ => by simp⟩

theorem Placed.congr {pl' : α → Option (Slot L K n)} (h : P.Placed pl)
    (he : ∀ x, pl' x = pl x) : P.Placed pl' := by
  have : pl' = pl := funext he
  rw [this]
  exact h

/-- High-water marks do not matter. -/
theorem Placed.of_eq (h : P.Placed pl) (hC : P'.C = P.C)
    (hA : ∀ k, (P'.aux k).bitmap = (P.aux k).bitmap ∧ (P'.aux k).inQ = (P.aux k).inQ) :
    P'.Placed pl := by
  obtain ⟨f, hf, hp, hpl⟩ := h
  refine ⟨f, hC ▸ hf, fun k => ⟨fun p => ?_, ?_⟩, hpl⟩
  · rw [(hA k).1]
    exact (hp k).bit p
  · rw [(hA k).2]
    exact (hp k).inQ

/-- The lists read through the pointers agree with the placement. -/
theorem Placed.mem_list [Fintype α] (h : P.Placed pl) (i : Slot L K n) :
    x ∈ P.list i ↔ pl x = some i := by
  obtain ⟨f, hf, -, hpl⟩ := h
  rw [list, hf.list_eq i]
  exact hpl x i

theorem Placed.nodup_list [Fintype α] (h : P.Placed pl) (i : Slot L K n) : (P.list i).Nodup := by
  obtain ⟨f, hf, -, -⟩ := h
  rw [list, hf.list_eq i]
  exact hf.nodup i

/-- A plain list is read as empty exactly when nothing is placed there. -/
theorem Placed.first_eq_none (h : P.Placed pl) :
    P.first l = none ↔ ∀ x, pl x ≠ some (.plain l) := by
  obtain ⟨f, hf, -, hpl⟩ := h
  rw [first, hf.first_eq, List.head?_eq_none_iff, List.eq_nil_iff_forall_not_mem]
  exact forall_congr' (fun x => not_congr (hpl x _))

/-- The first object of a plain list is placed there. -/
theorem Placed.of_first (h : P.Placed pl) (hx : P.first l = some x) : pl x = some (.plain l) := by
  obtain ⟨f, hf, -, hpl⟩ := h
  rw [first, hf.first_eq] at hx
  exact (hpl x _).mp (List.mem_of_head? hx)

/-- The head of a level is placed there. -/
theorem Placed.of_level_first (h : P.Placed pl) {p : Fin n}
    (hx : (P.C.hdr (.level k p)).first = some x) : pl x = some (.level k p) := by
  obtain ⟨f, hf, -, hpl⟩ := h
  rw [hf.first_eq] at hx
  exact (hpl x _).mp (List.mem_of_head? hx)

/-- A level is read as empty exactly when nothing is placed there. -/
theorem Placed.level_first_eq_none (h : P.Placed pl) {p : Fin n} :
    (P.C.hdr (.level k p)).first = none ↔ ∀ x, pl x ≠ some (.level k p) := by
  obtain ⟨f, hf, -, hpl⟩ := h
  rw [hf.first_eq, List.head?_eq_none_iff, List.eq_nil_iff_forall_not_mem]
  exact forall_congr' (fun x => not_congr (hpl x _))

/-- The bit of a level is set exactly when something is placed there. -/
theorem Placed.bit (h : P.Placed pl) (k : K) (p : Fin n) :
    (P.aux k).bitmap.getLsbD p.val = true ↔ ∃ x, pl x = some (.level k p) := by
  obtain ⟨f, -, hA, hpl⟩ := h
  rw [(hA k).bit p, ne_eq, List.eq_nil_iff_forall_not_mem, not_forall_not]
  exact exists_congr (fun x => hpl x _)

/-- The search finds nothing exactly when nothing is placed in the priority list. -/
theorem Placed.pget_eq_none (h : P.Placed pl) :
    P.pget k = none ↔ ∀ x p, pl x ≠ some (.level k p) := by
  obtain ⟨f, hf, hA, hpl⟩ := h
  rw [pget, plistGet_eq_none hf (hA k)]
  simp only [List.eq_nil_iff_forall_not_mem]
  rw [forall_comm]
  exact forall_congr' (fun x => forall_congr' (fun p => not_congr (hpl x _)))

/-- What the search finds is placed at the lowest level in use. -/
theorem Placed.of_pget (h : P.Placed pl) (hx : P.pget k = some x) :
    ∃ p, pl x = some (.level k p) ∧ ∀ y q, pl y = some (.level k q) → p ≤ q := by
  obtain ⟨f, hf, hA, hpl⟩ := h
  obtain ⟨p, hp, hlow⟩ := plistGet_eq_some hf (hA k) hx
  refine ⟨p, (hpl x _).mp (List.mem_of_head? hp), fun y q hy => ?_⟩
  by_contra hlt
  have hq := hlow q (not_le.mp hlt)
  rw [← hpl, hq] at hy
  cases hy

/-- Resetting headers empties their lists and changes no other. -/
private theorem reads_rst {C : Chains (Slot L K n) α} {f : Slot L K n → List α}
    (h : C.Reads f) (b : Slot L K n → Bool) :
    Chains.Reads { C with hdr := fun i => if b i then ListHdr.rst else C.hdr i }
      (fun i => if b i then [] else f i) := by
  refine ⟨fun i => ?_, fun i => ?_, fun i j x hi hj => ?_⟩
  · by_cases hb : b i = true
    · simp only [hb, if_true]
      exact ⟨rfl, rfl, rfl, trivial⟩
    · simp only [hb, if_false, Bool.false_eq_true]
      exact h.isList i
  · by_cases hb : b i = true
    · simp [hb]
    · simpa [hb] using h.nodup i
  · by_cases hb : b i = true
    · simp [hb] at hi
    · by_cases hb' : b j = true
      · simp [hb'] at hj
      · simp only [hb, hb', Bool.false_eq_true, if_false] at hi hj
        exact h.disj i j x hi hj

/-! ## Loops over the lists -/

private theorem searchFrom_seg {lk : α → Link α} {q : α → Bool} :
    ∀ {xs : List α} {o : Option α} {m : Nat}, Seg lk o xs none → xs.length ≤ m →
      searchFrom lk q m xs.head? = some (xs.find? q) := by
  intro xs
  induction xs with
  | nil =>
    intro o m _ _
    cases m <;> rfl
  | cons x xs ih =>
    intro o m hs hm
    obtain ⟨-, hn, hs⟩ := hs
    cases m with
    | zero => simp at hm
    | succ m =>
      rw [List.head?_cons, searchFrom, List.find?_cons]
      cases hq : q x with
      | true => simp
      | false =>
        rw [hn, or_none]
        simpa using ih hs (by simpa using hm)

private theorem chainFrom_seg {lk : α → Link α} :
    ∀ {xs : List α} {o : Option α} {m : Nat}, Seg lk o xs none → xs.length ≤ m →
      chainFrom lk m xs.head? = some xs := by
  intro xs
  induction xs with
  | nil =>
    intro o m _ _
    cases m <;> rfl
  | cons x xs ih =>
    intro o m hs hm
    obtain ⟨-, hn, hs⟩ := hs
    cases m with
    | zero => simp at hm
    | succ m =>
      rw [List.head?_cons, chainFrom, hn, or_none, ih hs (by simpa using hm)]
      rfl

section Walks

variable [Fintype α]

/-- A loop over a plain list ends and visits what is placed there. -/
theorem Placed.chain (h : P.Placed pl) (l : L) :
    ∃ xs, P.chain l = some xs ∧ xs.Nodup ∧ ∀ x, x ∈ xs ↔ pl x = some (.plain l) := by
  obtain ⟨f, hf, -, hpl⟩ := h
  refine ⟨f (.plain l), ?_, hf.nodup _, fun x => hpl x _⟩
  rw [Pool.chain, hf.first_eq]
  exact chainFrom_seg (hf.isList _).seg (hf.nodup _).length_le_card

/-- The search over the levels `ps` ends at the first list with a match. -/
private theorem pfind_eq {f : Slot L K n → List α} (hf : P.C.Reads f)
    (hA : PReads (Slot.level k) f (P.aux k)) (q : α → Bool) :
    ∀ ps : List (Fin n),
      P.pfind k q ps = some ((ps.flatMap (fun p => f (.level k p))).find? q) := by
  intro ps
  induction ps with
  | nil => rfl
  | cons p ps ih =>
    rw [pfind, List.flatMap_cons, List.find?_append]
    by_cases hb : (P.aux k).bitmap.getLsbD p.val = true
    · rw [if_pos hb, hf.first_eq, searchFrom_seg (hf.isList _).seg (hf.nodup _).length_le_card]
      cases hfd : (f (.level k p)).find? q with
      | none => simpa using ih
      | some x => simp
    · have hnil : f (.level k p) = [] := by
        by_contra hne
        exact hb ((hA.bit p).mpr hne)
      rw [if_neg hb, hnil, ih]
      simp

/-- The search always ends, and it is the search through the levels one after the other. -/
theorem Placed.pick_eq (h : P.Placed pl) (k : K) (q : α → Bool) :
    P.pick k q = some (((List.finRange n).flatMap (fun p => P.list (.level k p))).find? q) := by
  obtain ⟨f, hf, hA, -⟩ := h
  simp only [list, hf.list_eq]
  rw [Pool.pick]
  by_cases hz : (P.aux k).inQ = 0
  · have hnil : ((List.finRange n).flatMap (fun p => f (.level k p))) = [] :=
      List.flatMap_eq_nil_iff.mpr (fun p _ => (hA k).inQ_eq_zero.mp hz p)
    rw [if_pos hz, hnil]
    rfl
  · rw [if_neg hz, pfind_eq hf (hA k)]

/-- It returns an object of the priority list that satisfies `q`, and nothing only if
    there is none. -/
theorem Placed.pick (h : P.Placed pl) (k : K) (q : α → Bool) :
    (P.pick k q = some none ∧ ∀ x p, pl x = some (.level k p) → q x = false) ∨
      ∃ x p, P.pick k q = some (some x) ∧ pl x = some (.level k p) ∧ q x = true := by
  have hall : ∀ x p, pl x = some (.level k p) →
      x ∈ (List.finRange n).flatMap (fun p => P.list (.level k p)) := by
    intro x p hx
    exact List.mem_flatMap.mpr ⟨p, List.mem_finRange p, (h.mem_list _).mpr hx⟩
  rw [h.pick_eq]
  cases hfd : ((List.finRange n).flatMap (fun p => P.list (.level k p))).find? q with
  | none =>
    refine .inl ⟨rfl, fun x p hx => ?_⟩
    simpa using List.find?_eq_none.mp hfd x (hall x p hx)
  | some x =>
    obtain ⟨p, -, hp⟩ := List.mem_flatMap.mp (List.mem_of_find?_eq_some hfd)
    exact .inr ⟨x, p, rfl, (h.mem_list _).mp hp, List.find?_some hfd⟩

end Walks

/-! ## Operations -/

variable [DecidableEq L] [DecidableEq K] [DecidableEq α]

/-- Unlinking from one list leaves the head of another alone. -/
theorem first_rmv_ne {l' : L} (hl : l' ≠ l) : (P.rmv l' x).first l = P.first l := by
  simp [first, rmv, Chains.rmv, Ne.symm hl]

theorem first_app_ne {l' : L} (hl : l' ≠ l) (h : P.app l' x = some P') :
    P'.first l = P.first l := by
  rw [app] at h
  split at h
  · cases h
  · rename_i C hC
    cases h
    rw [Chains.app] at hC
    split at hC
    · cases hC
    · cases hC
      simp [first, Ne.symm hl]

/-! ## What the lists become -/

theorem Placed.list_prmv [Fintype α] (h : P.Placed pl) {p : Fin n}
    (hx : pl x = some (.level k p)) (i : Slot L K n) :
    (P.prmv k x p).list i = (P.list i).erase x := by
  obtain ⟨f, hf, hA, hpl⟩ := h
  have hr := (plistRmv_reads hf (hA k) (level_injective k) p ((hpl x _).mpr hx)).1
  rw [list, list, hf.list_eq i, Pool.prmv, hr.list_eq i]
  by_cases hi : i = .level k p
  · subst hi
    rw [update_self]
  · rw [update_of_ne hi, List.erase_of_not_mem]
    intro hm
    rw [hpl x i, hx] at hm
    exact hi (some.inj hm).symm

theorem Placed.list_app [Fintype α] (h : P.Placed pl) (hx : pl x = none)
    (ho : P.app l x = some P') (i : Slot L K n) :
    P'.list i = if i = .plain l then P.list i ++ [x] else P.list i := by
  obtain ⟨f, hf, -, hpl⟩ := h
  obtain ⟨C', heq, hr⟩ := hf.app (.plain l) (hpl.unlinked hx)
  rw [Pool.app, heq] at ho
  cases ho
  rw [list, list, hf.list_eq i, hr.list_eq i, update_apply]
  split
  · rename_i hi
    rw [hi]
  · rfl

theorem Placed.list_papp [Fintype α] (h : P.Placed pl) {p : Fin n} (hx : pl x = none)
    (ho : P.papp k x p = some P') (i : Slot L K n) :
    P'.list i = if i = .level k p then P.list i ++ [x] else P.list i := by
  obtain ⟨f, hf, hA, hpl⟩ := h
  obtain ⟨C', heq, hr, -⟩ := plistApp_reads hf (hA k) (level_injective k) p (hpl.unlinked hx)
  rw [Pool.papp, heq] at ho
  cases ho
  rw [list, list, hf.list_eq i, hr.list_eq i, update_apply]
  split
  · rename_i hi
    rw [hi]
  · rfl

omit [DecidableEq K] [DecidableEq L] in
theorem Placed.list_rstLink [Fintype α] (h : P.Placed pl) (hx : pl x = none)
    (i : Slot L K n) : (P.rstLink x).list i = P.list i := by
  obtain ⟨f, hf, -, hpl⟩ := h
  rw [list, list, hf.list_eq i]
  exact (hf.rstLink (hpl.unlinked hx)).list_eq i

/-! ## The plain lists -/

/-- Appending an unplaced object succeeds and places it. -/
theorem Placed.app (h : P.Placed pl) (l : L) (hx : pl x = none) :
    ∃ P', P.app l x = some P' ∧ P'.Placed (update pl x (some (.plain l))) := by
  obtain ⟨f, hf, hA, hpl⟩ := h
  obtain ⟨C', heq, hr⟩ := hf.app (.plain l) (hpl.unlinked hx)
  refine ⟨{ P with C := C' }, by rw [Pool.app, heq], _, hr, fun k => ?_, ?_⟩
  · exact (hA k).congr (fun p => update_of_ne (by simp) _ _)
  · exact hpl.insert (.plain l) hx (fun y => by simp [or_comm])

theorem Placed.of_app (h : P.Placed pl) (hx : pl x = none) (ho : P.app l x = some P') :
    P'.Placed (update pl x (some (.plain l))) := by
  obtain ⟨Q, hQ, hp⟩ := h.app l hx
  rw [ho] at hQ
  cases hQ
  exact hp

/-- Removing an object from the plain list it is in. -/
theorem Placed.rmv (h : P.Placed pl) (hx : pl x = some (.plain l)) :
    (P.rmv l x).Placed (update pl x none) := by
  obtain ⟨f, hf, hA, hpl⟩ := h
  refine ⟨_, hf.rmv (.plain l) ((hpl x _).mpr hx), fun k => ?_, ?_⟩
  · exact (hA k).congr (fun p => update_of_ne (by simp) _ _)
  · exact hpl.erase (.plain l) hx (hf.nodup _)

omit [DecidableEq K] [DecidableEq L] in
/-- Resetting the link of an unplaced object. -/
theorem Placed.rstLink (h : P.Placed pl) (hx : pl x = none) : (P.rstLink x).Placed pl := by
  obtain ⟨f, hf, hA, hpl⟩ := h
  exact ⟨f, hf.rstLink (hpl.unlinked hx), hA, hpl⟩

/-! ## The priority lists -/

/-- Appending an unplaced object at a level succeeds and places it. -/
theorem Placed.papp (h : P.Placed pl) (k : K) (p : Fin n) (hx : pl x = none) :
    ∃ P', P.papp k x p = some P' ∧ P'.Placed (update pl x (some (.level k p))) := by
  obtain ⟨f, hf, hA, hpl⟩ := h
  obtain ⟨C', heq, hr, hA'⟩ := plistApp_reads hf (hA k) (level_injective k) p (hpl.unlinked hx)
  refine ⟨_, by rw [Pool.papp, heq], _, hr, fun k' => ?_, ?_⟩
  · by_cases hk : k' = k
    · subst hk
      simpa using hA'
    · simp only [update_of_ne hk]
      exact (hA k').congr (fun q => update_of_ne (by simp [hk]) _ _)
  · exact hpl.insert (.level k p) hx (fun y => by simp [or_comm])

theorem Placed.of_papp (h : P.Placed pl) {p : Fin n} (hx : pl x = none)
    (ho : P.papp k x p = some P') :
    P'.Placed (update pl x (some (.level k p))) := by
  obtain ⟨Q, hQ, hp⟩ := h.papp k p hx
  rw [ho] at hQ
  cases hQ
  exact hp

/-- Inserting an unplaced object at the head of a level. -/
theorem Placed.pins (h : P.Placed pl) (k : K) (p : Fin n) (hx : pl x = none) :
    (P.pins k x p).Placed (update pl x (some (.level k p))) := by
  obtain ⟨f, hf, hA, hpl⟩ := h
  obtain ⟨hr, hA'⟩ := plistIns_reads hf (hA k) (level_injective k) p (hpl.unlinked hx)
  refine ⟨_, hr, fun k' => ?_, ?_⟩
  · by_cases hk : k' = k
    · subst hk
      simpa [Pool.pins] using hA'
    · simp only [Pool.pins, update_of_ne hk]
      exact (hA k').congr (fun q => update_of_ne (by simp [hk]) _ _)
  · exact hpl.insert (.level k p) hx (fun y => by simp)

/-- Inserting makes the object the head of its level, whatever the pool looks like. -/
theorem pins_first (P : Pool L K α n) (k : K) (x : α) (p : Fin n) :
    ((P.pins k x p).C.hdr (.level k p)).first = some x := by
  simp only [Pool.pins, plistIns, Chains.ins, update_self, listIns]
  split <;> rfl

/-- Removing an object from the level it is in. -/
theorem Placed.prmv (h : P.Placed pl) {p : Fin n} (hx : pl x = some (.level k p)) :
    (P.prmv k x p).Placed (update pl x none) := by
  obtain ⟨f, hf, hA, hpl⟩ := h
  obtain ⟨hr, hA'⟩ := plistRmv_reads hf (hA k) (level_injective k) p ((hpl x _).mpr hx)
  refine ⟨_, hr, fun k' => ?_, ?_⟩
  · by_cases hk : k' = k
    · subst hk
      simpa [Pool.prmv] using hA'
    · simp only [Pool.prmv, update_of_ne hk]
      exact (hA k').congr (fun q => update_of_ne (by simp [hk]) _ _)
  · exact hpl.erase (.level k p) hx (hf.nodup _)

/-! ## Headers that are reset -/

omit [DecidableEq L] [DecidableEq α] in
/-- Resetting a priority list drops what was placed there. -/
theorem Placed.prst (h : P.Placed pl) (k : K) :
    (P.prst k).Placed (fun x => (pl x).filter (fun i => !i.isLevel k)) := by
  obtain ⟨f, hf, hA, hpl⟩ := h
  refine ⟨_, reads_rst hf (Slot.isLevel k), fun k' => ?_, fun x i => ?_⟩
  · by_cases hk : k' = k
    · subst hk
      simp only [Pool.prst, update_self]
      exact PReads.rst (fun p => by simp [Slot.isLevel])
    · simp only [Pool.prst, update_of_ne hk]
      exact (hA k').congr (fun p => by simp [Slot.isLevel, hk])
  · rw [filter_eq_some_iff, ← hpl]
    by_cases hb : i.isLevel k = true
    · simp [hb]
    · simp [hb]

omit [DecidableEq α] in
/-- Resetting a plain list drops what was placed there. -/
theorem Placed.lrst (h : P.Placed pl) (l : L) :
    (P.lrst l).Placed (fun x => (pl x).filter (fun i => i ≠ .plain l)) := by
  obtain ⟨f, hf, hA, hpl⟩ := h
  have hr := reads_rst hf (fun i => decide (i = .plain l))
  simp only [decide_eq_true_eq] at hr
  refine ⟨_, hr, fun k => ?_, fun x i => ?_⟩
  · exact (hA k).congr (fun p => by simp)
  · rw [filter_eq_some_iff, ← hpl]
    by_cases hb : i = .plain l
    · simp [hb]
    · simp [hb]

/-! ## Counters -/

variable [Fintype α]

/-- An object is in a list once or not at all. -/
theorem Placed.count_list (h : P.Placed pl) (i : Slot L K n) :
    (P.list i).count x = if pl x = some i then 1 else 0 := by
  simp only [(h.nodup_list i).count, h.mem_list i]

/-- The counter of a plain list is the number of objects placed there. -/
theorem Placed.count_eq (h : P.Placed pl) (l : L) :
    P.count l = (Finset.univ.filter (fun x => pl x = some (.plain l))).card := by
  obtain ⟨f, hf, -, hpl⟩ := h
  rw [Pool.count, hf.inQ_eq, hf.length_eq hpl]

/-- The counter of a priority list is the number of objects placed on its levels. -/
theorem Placed.inQ_eq (h : P.Placed pl) (k : K) :
    (P.aux k).inQ = (Finset.univ.filter (fun x => ∃ p, pl x = some (.level k p))).card := by
  obtain ⟨f, hf, hA, hpl⟩ := h
  rw [(hA k).inQ]
  simp only [hf.length_eq hpl]
  rw [← Nat.cast_sum]
  congr 1
  rw [← Finset.card_biUnion]
  · congr 1
    ext x
    simp
  · intro p _ q _ hpq
    rw [Function.onFun, Finset.disjoint_filter]
    intro x _ hx hx'
    rw [hx] at hx'
    exact hpq (by simpa using hx')

end Pool

end ListPool
