import Mathlib

/-! # Wait graphs — partial functions without cycles

    Every vertex waits for at most one other, so a wait graph is a partial function
    `next : V → Option V`.  Three facts about it are needed to verify a search for
    deadlocks: taking edges away keeps it ACYCLIC; so does a new edge whose target
    does not reach its source; and on a finite graph without cycles every walk ends
    within as many steps as there are vertices. -/

namespace WaitGraph

open Relation

variable {V : Type} {next next' : V → Option V} {v w : V}

/-- `v` waits for `w`. -/
def Edge (next : V → Option V) (v w : V) : Prop := next v = some w

/-- No vertex waits, directly or through others, for itself. -/
def Acyclic (next : V → Option V) : Prop := ∀ v, ¬ TransGen (Edge next) v v

/-- `w` is reached from `v` in any number of steps. -/
def Reaches (next : V → Option V) (v w : V) : Prop := ReflTransGen (Edge next) v w

/-- Nobody waits. -/
theorem acyclic_of_none (h : ∀ v, next v = none) : Acyclic next := by
  intro v hv
  rcases TransGen.head'_iff.mp hv with ⟨w, hw, -⟩
  rw [Edge, h v] at hw
  cases hw

/-- Taking edges away keeps the graph acyclic. -/
theorem Acyclic.mono (h : Acyclic next) (hsub : ∀ v w, next' v = some w → next v = some w) :
    Acyclic next' :=
  fun v hv => h v (TransGen.mono hsub v v hv)

/-- What a vertex without an edge reaches. -/
theorem reaches_of_none (hv : next v = none) (h : Reaches next v w) : w = v := by
  rcases ReflTransGen.cases_head h with rfl | ⟨u, hu, -⟩
  · rfl
  · rw [Edge, hv] at hu
    cases hu

/-- What a vertex reaches is itself or reached from its successor. -/
theorem reaches_of_some {u : V} (hv : next v = some u) (h : Reaches next v w) :
    w = v ∨ Reaches next u w := by
  rcases ReflTransGen.cases_head h with rfl | ⟨u', hu, hr⟩
  · exact .inl rfl
  · rw [Edge, hv] at hu
    cases hu
    exact .inr hr

/-- A path that may use the new edge `c → d` is an old path, or goes to `c` and on
    from `d`. -/
private theorem path_update [DecidableEq V] {c d : V} (hdc : ¬ Reaches next d c)
    (h : TransGen (Edge (Function.update next c (some d))) v w) :
    TransGen (Edge next) v w ∨ (Reaches next v c ∧ Reaches next d w) := by
  have hedge : ∀ a b, Edge (Function.update next c (some d)) a b →
      (a = c ∧ b = d) ∨ (a ≠ c ∧ Edge next a b) := by
    intro a b hab
    by_cases ha : a = c
    · subst ha
      rw [Edge, Function.update_self] at hab
      cases hab
      exact .inl ⟨rfl, rfl⟩
    · rw [Edge, Function.update_of_ne ha] at hab
      exact .inr ⟨ha, hab⟩
  induction h with
  | single hvw =>
    rcases hedge _ _ hvw with ⟨rfl, rfl⟩ | ⟨-, hvw⟩
    · exact .inr ⟨.refl, .refl⟩
    · exact .inl (TransGen.single hvw)
  | tail _ hbw ih =>
    rcases hedge _ _ hbw with ⟨rfl, rfl⟩ | ⟨-, hbw⟩
    · rcases ih with hvb | ⟨hvc, -⟩
      · exact .inr ⟨hvb.to_reflTransGen, .refl⟩
      · exact .inr ⟨hvc, .refl⟩
    · rcases ih with hvb | ⟨hvc, hdb⟩
      · exact .inl (hvb.tail hbw)
      · exact .inr ⟨hvc, hdb.tail hbw⟩

/-- A new edge whose target does not reach its source keeps the graph acyclic. -/
theorem Acyclic.update [DecidableEq V] (h : Acyclic next) {c d : V}
    (hdc : ¬ Reaches next d c) : Acyclic (Function.update next c (some d)) := by
  intro v hv
  rcases path_update hdc hv with hvv | ⟨hvc, hdv⟩
  · exact h v hvv
  · exact hdc (hdv.trans hvc)

/-! ## Walks -/

/-- The vertex after `n` steps. -/
def walk (next : V → Option V) : Nat → V → Option V
  | 0, v => some v
  | n + 1, v => (walk next n v).bind next

/-- A walk that takes its first step by hand. -/
theorem walk_of_some {u : V} (hv : next v = some u) :
    ∀ n, walk next (n + 1) v = walk next n u := by
  intro n
  induction n with
  | zero => exact hv
  | succ n ih => rw [walk, ih, walk]

private theorem walk_pos_transGen {n m : Nat} (hlt : n < m) {a b : V}
    (ha : walk next n v = some a) (hb : walk next m v = some b) : TransGen (Edge next) a b := by
  obtain ⟨k, rfl⟩ := Nat.exists_eq_add_of_lt hlt
  induction k generalizing b with
  | zero =>
    rw [Nat.add_zero, walk, ha] at hb
    exact TransGen.single hb
  | succ k ih =>
    rw [← Nat.add_assoc, Nat.add_right_comm, walk] at hb
    obtain ⟨u, hu, hub⟩ := Option.bind_eq_some_iff.mp hb
    exact (ih (by omega) hu).tail hub

private theorem walk_isSome_of_le {n m : Nat} (hle : n ≤ m)
    (hm : (walk next m v).isSome) : (walk next n v).isSome := by
  induction m with
  | zero =>
    obtain rfl : n = 0 := by omega
    exact hm
  | succ m ih =>
    rcases Nat.lt_or_eq_of_le hle with hlt | rfl
    · refine ih (by omega) ?_
      rw [walk] at hm
      cases hw : walk next m v with
      | none => rw [hw] at hm; cases hm
      | some u => rfl
    · exact hm

/-- **WALKS END.** Without cycles no walk takes as many steps as there are vertices. -/
theorem Acyclic.walk_eq_none [Fintype V] (h : Acyclic next) (v : V) :
    walk next (Fintype.card V) v = none := by
  rw [Option.eq_none_iff_forall_not_mem]
  intro w hw
  have hsome : ∀ i : Fin (Fintype.card V + 1), (walk next i.val v).isSome := by
    intro i
    refine walk_isSome_of_le (Nat.lt_succ_iff.mp i.isLt) ?_
    rw [Option.mem_def.mp hw]
    rfl
  -- one more position than vertices, so two positions agree
  obtain ⟨i, j, hij, he⟩ := Fintype.exists_ne_map_eq_of_card_lt
    (fun i : Fin (Fintype.card V + 1) => (walk next i.val v).get (hsome i)) (by simp)
  have hget : ∀ i, walk next i.val v = some ((walk next i.val v).get (hsome i)) :=
    fun i => (Option.some_get _).symm
  rcases lt_or_gt_of_ne (fun e => hij (Fin.ext e) : i.val ≠ j.val) with hlt | hlt
  · exact h _ (he ▸ walk_pos_transGen hlt (hget i) (hget j))
  · exact h _ (he ▸ walk_pos_transGen hlt (hget j) (hget i))

end WaitGraph
