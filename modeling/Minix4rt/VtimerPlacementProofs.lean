import Minix4rt.VtimerQueueProofs

/-! # Where the timers are — the queues of the timer system, without the deltas

    Here the deltas do not matter and nothing is assumed about them: what counts is
    in which of the lists `actQ`, `freeQ`, `expQ` a timer is linked, and what its flags
    say about it.  `place s v` reads that off the pointers.

    Every operation moves ONE timer (`Moved`), provided it is where the operation
    expects it; the clock handler moves timers from `actQ` to `expQ` only. -/

namespace Vtimer

open IntrusiveList PriorityList Function Option

/-- A timer without its delta. -/
def Timer.undelta (t : Timer) : Timer := { t with nextexp := 0 }

namespace TimerSt

/-- The queue that a timer is linked in. -/
def place (s : TimerSt) (v : VT) : Option TimerQ :=
  if v ∈ s.list .act then some .act
  else if v ∈ s.list .free then some .free
  else ((List.finRange 16).find? (fun k => decide (v ∈ s.list (.exp k)))).map .exp

/-- The queues are well formed and every timer is in the queue `pl` says. -/
def Placed (s : TimerSt) (pl : VT → Option TimerQ) : Prop :=
  ∃ f, s.q.Reads f ∧ PReads TimerQ.exp f s.exp ∧ Chains.Places f pl

/-- What the fields of the timer `v` have to be when it is in the queue `o`.  The flags
    tell `actQ` from the rest; `VT_EXPIREDQ` is never set. -/
structure Fits (t : Timer) (v : VT) (o : Option TimerQ) : Prop where
  act : t.flags = .activeQ ↔ o = some .act
  free : t.flags = .freeQ → o = some .free
  noexp : t.flags ≠ .expiredQ
  prio : ∀ k, o = some (.exp k) → t.priority = k
  this : ∀ w, t.this = some w → w = v

/-- The timer system is well formed. -/
structure TimersOk (s : TimerSt) : Prop where
  placed : s.Placed s.place
  fits : ∀ v, Fits (s.vt v) v (s.place v)

/-- Only `v` has moved: it is now in the queue `o`, with the fields of `t`. -/
structure Moved (s s' : TimerSt) (v : VT) (o : Option TimerQ) (t : Timer) : Prop where
  placed : s'.Placed (update s.place v o)
  self : (s'.vt v).undelta = t.undelta
  same : ∀ w, w ≠ v → (s'.vt w).undelta = (s.vt w).undelta

variable {s s' s'' : TimerSt} {pl : VT → Option TimerQ} {v w : VT} {o o' : Option TimerQ}
  {t t' : Timer} {k : Prty}

/-! ## Reading the places -/

theorem Placed.of_eq (h : s.Placed pl) (hq : s'.q = s.q) (he : s'.exp = s.exp) :
    s'.Placed pl := by
  obtain ⟨f, hf, hA, hpl⟩ := h
  exact ⟨f, hq ▸ hf, he ▸ hA, hpl⟩

theorem Placed.mem_list (h : s.Placed pl) (i : TimerQ) : v ∈ s.list i ↔ pl v = some i := by
  obtain ⟨f, hf, -, hpl⟩ := h
  rw [list, hf.list_eq i]
  exact hpl v i

/-- The first timer of a queue is in that queue. -/
theorem Placed.of_first {i : TimerQ} (h : s.Placed pl) (hv : (s.q.hdr i).first = some v) :
    pl v = some i := by
  obtain ⟨f, hf, -, hpl⟩ := h
  rw [hf.first_eq] at hv
  exact (hpl v i).mp (List.mem_of_head? hv)

/-- The place that is read off the pointers is the one the lists were read with. -/
theorem Placed.place_eq (h : s.Placed pl) : s.place = pl := by
  funext v
  rw [place]
  simp only [h.mem_list]
  by_cases ha : pl v = some .act
  · rw [if_pos ha, ha]
  by_cases hf : pl v = some .free
  · rw [if_neg ha, if_pos hf, hf]
  rw [if_neg ha, if_neg hf]
  cases hp : (List.finRange 16).find? (fun k => decide (pl v = some (.exp k))) with
  | none =>
    rw [List.find?_eq_none] at hp
    cases hv : pl v with
    | none => rfl
    | some i =>
      cases i with
      | act => exact absurd hv ha
      | free => exact absurd hv hf
      | exp k => exact absurd (by simpa using hv) (hp k (List.mem_finRange k))
  | some k =>
    have hk := List.find?_some hp
    simp only [decide_eq_true_eq] at hk
    rw [hk]
    rfl

theorem place_of_eq (hq : s'.q = s.q) : s'.place = s.place := by
  have hl : s'.list = s.list := by
    funext i
    rw [list, list, hq]
  funext v
  rw [TimerSt.place, hl]
  rfl

/-- A timer that is neither active nor free is flagged as allocated. -/
theorem Fits.flags_alloc (h : Fits t v o) (ha : o ≠ some .act) (hf : o ≠ some .free) :
    t.flags = .alloc := by
  cases hfl : t.flags with
  | alloc => rfl
  | activeQ => exact absurd (h.act.mp hfl) ha
  | freeQ => exact absurd (h.free hfl) hf
  | expiredQ => exact absurd hfl h.noexp

theorem Fits.undelta (h : Fits t v o) (he : t'.undelta = t.undelta) : Fits t' v o := by
  obtain ⟨hp, hfl, ht⟩ : t'.priority = t.priority ∧ t'.flags = t.flags ∧ t'.this = t.this := by
    simp only [Timer.undelta, Timer.mk.injEq] at he
    tauto
  constructor
  · rw [hfl]
    exact h.act
  · rw [hfl]
    exact h.free
  · rw [hfl]
    exact h.noexp
  · rw [hp]
    exact h.prio
  · rw [ht]
    exact h.this

theorem undelta_setNextexp (s : TimerSt) (v w : VT) (n : BitVec 32) :
    ((s.setNextexp v n).vt w).undelta = (s.vt w).undelta := by
  by_cases hw : w = v
  · subst hw
    rw [setNextexp, upd_vt_self]
    rfl
  · rw [setNextexp, upd_vt_ne _ _ _ _ hw]

/-- A timer with the flag `VT_ALLOC` fits no queue. -/
theorem Fits.alloc (hf : t.flags = .alloc) (ht : ∀ w, t.this = some w → w = v) : Fits t v none :=
  ⟨by simp [hf], by simp [hf], by simp [hf], by simp, ht⟩

/-- A timer with the flag `VT_ACTIVEQ` fits the active queue. -/
theorem Fits.active (hf : t.flags = .activeQ) (ht : ∀ w, t.this = some w → w = v) :
    Fits t v (some .act) :=
  ⟨by simp [hf], by simp [hf], by simp [hf], by simp, ht⟩

/-! ## One timer moves -/

theorem Moved.place (h : Moved s s' v o t) : s'.place = update s.place v o :=
  h.placed.place_eq

theorem Moved.place_self (h : Moved s s' v o t) : s'.place v = o := by
  rw [h.place, update_self]

theorem Moved.place_ne (h : Moved s s' v o t) (hw : w ≠ v) : s'.place w = s.place w := by
  rw [h.place, update_of_ne hw]

/-- A move keeps the timer system well formed when the new fields fit the new queue. -/
theorem Moved.ok (h : Moved s s' v o t) (hs : TimersOk s) (hf : Fits t v o) : TimersOk s' := by
  constructor
  · rw [h.place]
    exact h.placed
  · intro w
    by_cases hw : w = v
    · subst hw
      rw [h.place_self]
      exact hf.undelta h.self
    · rw [h.place_ne hw]
      exact (hs.fits w).undelta (h.same w hw)

theorem Moved.trans (h : Moved s s' v o t) (h' : Moved s' s'' v o' t') : Moved s s'' v o' t' := by
  refine ⟨?_, h'.self, fun w hw => (h'.same w hw).trans (h.same w hw)⟩
  have hp := h'.placed
  rw [h.place, update_idem] at hp
  exact hp

/-- The fields of the moved timer may be given up to its delta. -/
theorem Moved.congr (h : Moved s s' v o t) (he : t.undelta = t'.undelta) : Moved s s' v o t' :=
  ⟨h.placed, h.self.trans he, h.same⟩

theorem Moved.refl (hs : s.Placed s.place) (v : VT) : Moved s s v (s.place v) (s.vt v) := by
  refine ⟨?_, rfl, fun _ _ => rfl⟩
  rw [update_eq_self]
  exact hs

/-- The queues are well formed after a move. -/
theorem Moved.wf (h : Moved s s' v o t) : s'.Placed s'.place := by
  rw [h.place]
  exact h.placed

/-- A timer that has been handed out is flagged when it comes back to the free list. -/
theorem Moved.old {O : VT → Prop} (hm : Moved s s' w o t)
    (h : ∀ v, O v → s.place v = some .free → (s.vt v).flags = .freeQ)
    (ht : o = some .free → t.flags = .freeQ) (v : VT) (hv : O v)
    (hp : s'.place v = some .free) : (s'.vt v).flags = .freeQ := by
  by_cases hvw : v = w
  · subst hvw
    have hself := hm.self
    simp only [Timer.undelta, Timer.mk.injEq] at hself
    rw [hm.place_self] at hp
    exact hself.2.2.2.2.2.2.1.trans (ht hp)
  · have hsame := hm.same v hvw
    simp only [Timer.undelta, Timer.mk.injEq] at hsame
    rw [hm.place_ne hvw] at hp
    exact hsame.2.2.2.2.2.2.1.trans (h v hv hp)

/-- Writing fields of a timer moves nothing. -/
theorem Moved.upd (h : Moved s s' v o t) (g : Timer → Timer) :
    Moved s (s'.upd v g) v o (g (s'.vt v)) := by
  refine ⟨h.placed.of_eq rfl rfl, by rw [upd_vt_self], fun w hw => ?_⟩
  rw [upd_vt_ne _ _ _ _ hw]
  exact h.same w hw

/-- Resetting the link of an unlinked timer. -/
theorem moved_rstLink (hs : s.Placed s.place) (hv : s.place v = none) :
    Moved s { s with q := s.q.rstLink v } v none (s.vt v) := by
  obtain ⟨f, hf, hA, hpl⟩ := hs
  refine ⟨⟨f, hf.rstLink (hpl.unlinked hv), hA, ?_⟩, rfl, fun _ _ => rfl⟩
  rw [← hv, update_eq_self]
  exact hpl

theorem moved_linkRst (hs : s.Placed s.place) (hv : s.place v = none) :
    Moved s (s.linkRst v) v none { s.vt v with this := some v } :=
  (moved_rstLink hs hv).upd (fun t => { t with this := some v })

/-! ## The active queue -/

/-- Nothing but deltas differs. -/
structure Still (s s' : TimerSt) : Prop where
  q : s'.q = s.q
  exp : s'.exp = s.exp
  vt : ∀ w, (s'.vt w).undelta = (s.vt w).undelta

theorem Still.place (h : Still s s') : s'.place = s.place :=
  place_of_eq h.q

theorem Still.placed (h : Still s s') (hs : s.Placed s.place) : s'.Placed s'.place := by
  rw [h.place]
  exact hs.of_eq h.q h.exp

/-- A change of deltas may come before a move. -/
theorem Still.moved (h : Still s s') (hm : Moved s' s'' v o t) : Moved s s'' v o t := by
  refine ⟨?_, hm.self, fun w hw => (hm.same w hw).trans (h.vt w)⟩
  have hp := hm.placed
  rw [h.place] at hp
  exact hp

theorem Still.setNextexp (h : Still s s') (v : VT) (n : BitVec 32) :
    Still s (s'.setNextexp v n) :=
  ⟨h.q, h.exp, fun w => (undelta_setNextexp s' v w n).trans (h.vt w)⟩

/-- The repair of the deltas. -/
theorem rmvDelta_still (h : s.rmvDelta v = some s') : Still s s' := by
  have hrefl : Still s s := ⟨rfl, rfl, fun _ => rfl⟩
  rw [rmvDelta] at h
  split at h
  · cases h
    exact ⟨rfl, rfl, fun _ => rfl⟩
  split at h
  · cases h
    exact ⟨rfl, rfl, fun _ => rfl⟩
  cases hp : s.prevThis v with
  | none => simp [hp] at h
  | some p =>
    simp only [hp] at h
    split at h
    · cases h
      exact ⟨rfl, rfl, fun _ => rfl⟩
    · cases h
      exact hrefl.setNextexp p _

/-- Unlinking a timer of the active queue. -/
theorem moved_rmvLink (hs : s.Placed s.place) (hv : s.place v = some .act) :
    Moved s (s.rmvLink v) v none { s.vt v with flags := .alloc, this := some v } := by
  obtain ⟨f, hf, hA, hpl⟩ := hs
  have hmem : v ∈ f .act := (hpl v _).mpr hv
  have hr := (hf.rmv .act hmem).rstLink (hf.unlinked_erase hmem)
  refine ⟨⟨_, hr, preads_update_act hA, hpl.erase .act hv (hf.nodup _)⟩, ?_, fun w hw => ?_⟩
  · simp [rmvLink, linkRst, upd]
  · simp [rmvLink, linkRst, upd, hw]

/-- `MRT_vtimer_rmv` on a timer of the active queue. -/
theorem moved_vtimerRmv (hs : s.Placed s.place) (hv : s.place v = some .act)
    (h : s.vtimerRmv v = some s') :
    Moved s s' v none { s.vt v with flags := .alloc, this := some v } := by
  rw [vtimerRmv] at h
  cases hd : s.rmvDelta v with
  | none => simp [hd] at h
  | some s1 =>
    simp only [hd, some.injEq] at h
    subst h
    have hst := rmvDelta_still hd
    have hm := moved_rmvLink (hst.placed hs) (hst.place ▸ hv)
    refine hst.moved (hm.congr ?_)
    have hvt := hst.vt v
    simp only [Timer.undelta, Timer.mk.injEq] at hvt ⊢
    tauto

/-- The search of `MRT_vtimer_ins` stays in the active list. -/
theorem insSearch_mem {xs : List VT} (hl : IsList s.q.lk (s.q.hdr .act) xs) {period : BitVec 32} :
    ∀ {n : Nat} {k k' : BitVec 32} {x y : VT}, x ∈ xs →
      s.insSearch period n k x = some (k', y) → y ∈ xs := by
  intro n
  induction n with
  | zero =>
    intro k k' x y _ h
    cases h
  | succ n ih =>
    intro k k' x y hx h
    rw [insSearch] at h
    cases hn : (s.q.lk x).next with
    | none =>
      simp only [hn, some.injEq, Prod.mk.injEq] at h
      exact h.2 ▸ hx
    | some nn =>
      simp only [hn] at h
      split at h
      · cases ht : (s.vt x).this with
        | none => simp [ht] at h
        | some w =>
          simp only [ht] at h
          refine ih ?_ h
          obtain ⟨as, ys, rfl⟩ := List.append_of_mem hx
          have := hl.neighbours.2
          rw [hn] at this
          simp [List.mem_of_head? this.symm]
      · simp only [some.injEq, Prod.mk.injEq] at h
        exact h.2 ▸ hx

/-- How `MRT_vtimer_ins` links a timer into the active queue: at the head, at the tail, or
    before a timer `n` that the search has found. -/
inductive InsLink (s : TimerSt) (v : VT) : Chains TimerQ VT → Prop where
  | head : InsLink s v (s.q.ins .act v)
  | tail {q : Chains TimerQ VT} : s.q.app .act v = some q → InsLink s v q
  | before {first n p : VT} {per k k' : BitVec 32} : (s.q.hdr .act).first = some first →
      s.insSearch per 17 k first = some (k', n) → (s.q.lk n).prev = some p →
      InsLink s v (s.q.splice .act p v n)

/-- **WHAT `MRT_vtimer_ins` DOES**: it links the timer, and otherwise writes deltas. -/
theorem insQueue_inv (h : s.insQueue v = some s') :
    InsLink s v s'.q ∧ s'.exp = s.exp ∧ ∀ w, (s'.vt w).undelta = (s.vt w).undelta := by
  have hrefl : Still s s := ⟨rfl, rfl, fun _ => rfl⟩
  rw [insQueue] at h
  cases hfirst : (s.q.hdr .act).first with
  | none =>
    simp only [hfirst, some.injEq] at h
    subst h
    exact ⟨.head, rfl, (hrefl.setNextexp v 0).vt⟩
  | some first =>
    simp only [hfirst] at h
    split at h
    · simp only [some.injEq] at h
      subst h
      exact ⟨.head, rfl, (hrefl.setNextexp v _).vt⟩
    split at h
    · split at h
      · cases h
      split at h
      · cases h
      split at h
      · cases h
      rename_i q hq
      simp only [some.injEq] at h
      subst h
      exact ⟨.tail hq, rfl, ((hrefl.setNextexp _ _).setNextexp v 0).vt⟩
    · rw [insMiddle] at h
      split at h
      · cases h
      rename_i k n hse
      simp only [setNextexp, upd_q] at h
      split at h
      · cases h
      rename_i p hprev
      split at h
      · cases h
      simp only [some.injEq] at h
      subst h
      exact ⟨.before hfirst hse hprev, rfl, ((hrefl.setNextexp v _).setNextexp _ _).vt⟩

/-- The active queue gets the timer, which was in no list, somewhere. -/
theorem InsLink.reads {f : TimerQ → List VT} {q : Chains TimerQ VT} (hq : InsLink s v q)
    (hf : s.q.Reads f) (hu : Chains.Unlinked f v) :
    ∃ xs, q.Reads (update f .act xs) ∧ ∀ y, y ∈ xs ↔ y = v ∨ y ∈ f .act := by
  cases hq with
  | head => exact ⟨_, hf.ins .act hu, fun y => List.mem_cons⟩
  | tail hq =>
    obtain ⟨C, hC, hr⟩ := hf.app .act hu
    cases hC.symm.trans hq
    exact ⟨_, hr, fun y => by simp [or_comm]⟩
  | @before first n p _ _ _ hfirst hse hprev =>
    rw [hf.first_eq] at hfirst
    obtain ⟨as, ys, has⟩ := List.append_of_mem
      (insSearch_mem (hf.isList .act) (List.mem_of_head? hfirst) hse)
    have hl := hf.isList .act
    rw [has] at hl
    obtain ⟨bs, rfl⟩ : ∃ bs, as = bs ++ [p] :=
      List.getLast?_eq_some_iff.mp (hl.neighbours.1.symm.trans hprev)
    refine ⟨_, hf.splice .act has hu, fun y => ?_⟩
    rw [has]
    simp only [List.mem_append, List.mem_cons, List.not_mem_nil, or_false]
    tauto

/-- A change of the active list that adds `v` moves `v` there. -/
theorem moved_insert {f : TimerQ → List VT} {q' : Chains TimerQ VT} {xs : List VT}
    (hA : PReads TimerQ.exp f s.exp) (hpl : Chains.Places f s.place) (hv : s.place v = none)
    (hr : q'.Reads (update f .act xs)) (hxs : ∀ y, y ∈ xs ↔ y = v ∨ y ∈ f .act) :
    Moved s { s with q := q' } v (some .act) (s.vt v) :=
  ⟨⟨_, hr, preads_update_act hA, hpl.insert .act hv hxs⟩, rfl, fun _ _ => rfl⟩

/-- The four branches of `MRT_vtimer_ins` link the timer into the active queue. -/
theorem moved_insQueue (hs : s.Placed s.place) (hv : s.place v = none)
    (h : s.insQueue v = some s') : Moved s s' v (some .act) (s.vt v) := by
  obtain ⟨f, hf, hA, hpl⟩ := hs
  obtain ⟨hq, hexp, hvt⟩ := insQueue_inv h
  obtain ⟨xs, hr, hxs⟩ := hq.reads hf (hpl.unlinked hv)
  have hm := moved_insert hA hpl hv hr hxs
  exact ⟨hm.placed.of_eq rfl hexp, hvt v, fun w _ => hvt w⟩

/-- `MRT_vtimer_ins` on an unlinked timer. -/
theorem moved_vtimerIns (hs : s.Placed s.place) (hv : s.place v = none)
    (h : s.vtimerIns v = some s') :
    Moved s s' v (some .act) { s.vt v with flags := .activeQ } := by
  have hm := (Moved.refl hs v).upd (fun t => { t with flags := .activeQ })
  have hi := moved_insQueue hm.wf (hm.place_self.trans hv) h
  rw [upd_vt_self] at hi
  exact hm.trans hi

/-- `VTSET` on an unlinked timer. -/
theorem moved_vtset {per lim : BitVec 32} {act : Act} {par : Int} {pty : Prty}
    (hs : s.Placed s.place) (hv : s.place v = none)
    (h : s.vtset v per lim act par pty = some s') :
    Moved s s' v (some .act)
      { s.vt v with period := per, limit := lim, action := act, param := par, priority := pty,
                    flags := .activeQ } := by
  have hm := (Moved.refl hs v).upd (fun t =>
    { t with period := per, limit := lim, action := act, param := par, priority := pty })
  have hi := moved_vtimerIns hm.wf (hm.place_self.trans hv) h
  rw [upd_vt_self] at hi
  exact hm.trans hi

/-! ## The expired queue -/

theorem moved_expApp (hs : s.Placed s.place) (hv : s.place v = none)
    (h : s.expApp v k = some s') : Moved s s' v (some (.exp k)) (s.vt v) := by
  obtain ⟨f, hf, hA, hpl⟩ := hs
  obtain ⟨C, hC, hr, hA'⟩ := plistApp_reads hf hA TimerQ.exp_injective k (hpl.unlinked hv)
  rw [expApp, hC] at h
  simp only [some.injEq] at h
  subst h
  exact ⟨⟨_, hr, hA', hpl.insert (.exp k) hv (fun y => by simp [or_comm])⟩, rfl, fun _ _ => rfl⟩

theorem moved_expRmv (hs : s.Placed s.place) (hv : s.place v = some (.exp k)) :
    Moved s (s.expRmv v k) v none (s.vt v) := by
  obtain ⟨f, hf, hA, hpl⟩ := hs
  obtain ⟨hr, hA'⟩ := plistRmv_reads hf hA TimerQ.exp_injective k ((hpl v _).mpr hv)
  exact ⟨⟨_, hr, hA', hpl.erase (.exp k) hv (hf.nodup _)⟩, rfl, fun _ _ => rfl⟩

/-- The end of `MRT_vtimer_run`: the timer leaves the expired queue, and goes back to the
    active queue unless it has reached its limit. -/
def rearm (s : TimerSt) (v : VT) : Option TimerSt :=
  let s := (s.expRmv v (s.vt v).priority).upd v (fun t => { t with expired := t.expired + 1 })
  if (s.vt v).expired < (s.vt v).limit ∨ (s.vt v).limit = 0 then s.vtimerIns v else some s

theorem moved_rearm (hs : TimersOk s) (hv : s.place v = some (.exp k)) (h : s.rearm v = some s') :
    Moved s s' v none { s.vt v with expired := (s.vt v).expired + 1 } ∧
        ¬ ((s.vt v).expired + 1 < (s.vt v).limit ∨ (s.vt v).limit = 0) ∨
      Moved s s' v (some .act)
          { s.vt v with expired := (s.vt v).expired + 1, flags := .activeQ } ∧
        ((s.vt v).expired + 1 < (s.vt v).limit ∨ (s.vt v).limit = 0) := by
  have hk : (s.vt v).priority = k := (hs.fits v).prio k hv
  have hm1 := moved_expRmv hs.placed (hk ▸ hv)
  have hm2 := hm1.upd (fun t => { t with expired := t.expired + 1 })
  have hvt : (s.expRmv v (s.vt v).priority).vt v = s.vt v := rfl
  rw [hvt] at hm2
  simp only [rearm, upd_vt_self, hvt] at h
  split at h
  · rename_i hc
    have hm3 := moved_vtimerIns hm2.wf hm2.place_self h
    rw [upd_vt_self, hvt] at hm3
    exact .inr ⟨hm2.trans hm3, hc⟩
  · rename_i hc
    cases h
    exact .inl ⟨hm2, hc⟩

/-- The run of an expired timer takes it off its queue, and may start it again. -/
theorem moved_run (hs : TimersOk s) (hv : s.place v = some (.exp k))
    (h : (s.upd v (fun t => { t with timestamp := s.ticks })).rearm v = some s') :
    Moved s s' v none { s.vt v with timestamp := s.ticks, expired := (s.vt v).expired + 1 } ∧
        ¬ ((s.vt v).expired + 1 < (s.vt v).limit ∨ (s.vt v).limit = 0) ∨
      Moved s s' v (some .act) { s.vt v with
          timestamp := s.ticks, expired := (s.vt v).expired + 1, flags := .activeQ } ∧
        ((s.vt v).expired + 1 < (s.vt v).limit ∨ (s.vt v).limit = 0) := by
  have hm0 := (hv ▸ Moved.refl hs.placed v).upd (fun t => { t with timestamp := s.ticks })
  have hf := hv ▸ hs.fits v
  have hok0 := hm0.ok hs { hf with }
  have hrun := moved_rearm hok0 hm0.place_self h
  rw [upd_vt_self] at hrun
  rcases hrun with ⟨hm, hc⟩ | ⟨hm, hc⟩
  · exact .inl ⟨hm0.trans hm, hc⟩
  · exact .inr ⟨hm0.trans hm, hc⟩

/-- An expired timer that is in no queue any more. -/
theorem Fits.ran {t t' : Timer} (h : Fits t v (some (.exp k)))
    (hf : t'.flags = t.flags) (ht : t'.this = t.this) : Fits t' v none := by
  have hfl := hf.trans (h.flags_alloc (by simp) (by simp))
  exact ⟨by simp [hfl], by simp [hfl], by simp [hfl], by simp, ht ▸ h.this⟩

/-! ## The pool -/

/-- `MRT_vtimer_stop` on a timer that is active, or in no queue. -/
theorem moved_vtimerStop (hs : TimersOk s) (hv : s.place v = none ∨ s.place v = some .act)
    (h : s.vtimerStop v = some s') :
    Moved s s' v none { s.vt v with flags := .alloc, this := some v } := by
  have hfit := hs.fits v
  -- the last writes reset the link and the flags, whatever was done before
  have reset : ∀ {s1 : TimerSt} {t : Timer}, Moved s s1 v none t →
      t.undelta = { s.vt v with flags := t.flags, this := t.this }.undelta →
      Moved s ((s1.upd v (fun t => { t with nextexp := 0, flags := .alloc })).linkRst v) v none
        { s.vt v with flags := .alloc, this := some v } := by
    intro s1 t hm ht
    have hm2 := hm.upd (fun t => { t with nextexp := 0, flags := .alloc })
    refine (hm2.trans (moved_linkRst hm2.wf hm2.place_self)).congr ?_
    have hself := hm.self.trans ht
    rw [upd_vt_self]
    simp only [Timer.undelta, Timer.mk.injEq] at hself ⊢
    tauto
  rw [vtimerStop] at h
  rcases hv with hv | hv
  · have hfl := hfit.flags_alloc (by simp [hv]) (by simp [hv])
    simp only [hfl, some.injEq] at h
    subst h
    exact reset (hv ▸ Moved.refl hs.placed v) rfl
  · have hfl : (s.vt v).flags = .activeQ := hfit.act.mpr hv
    cases hr : s.vtimerRmv v with
    | none => simp [hfl, hr] at h
    | some s1 =>
      simp only [hfl, hr, some.injEq] at h
      subst h
      exact reset (moved_vtimerRmv hs.placed hv hr) rfl

/-- A timer as `MRT_vtimer_free` leaves it. -/
def freed (t : Timer) (v : VT) : Timer :=
  { t with period := 0, limit := 0, action := .none, param := 0, owner := hardware,
           priority := priLowest, timestamp := 0, flags := .freeQ, this := some v }

/-- `MRT_list_app` to the free list. -/
theorem moved_freeApp (hs : s.Placed s.place) (hv : s.place v = none)
    (h : s.freeApp v = some s') : Moved s s' v (some .free) (s.vt v) := by
  obtain ⟨f, hf, hA, hpl⟩ := hs
  obtain ⟨C, hC, hr⟩ := hf.app .free (hpl.unlinked hv)
  rw [freeApp, hC] at h
  simp only [some.injEq] at h
  subst h
  refine ⟨⟨_, hr, ?_, hpl.insert .free hv (fun y => by simp [or_comm])⟩, rfl, fun _ _ => rfl⟩
  exact hA.congr (fun k => update_of_ne (by simp) _ _)

/-- `MRT_vtimer_rst` on an unlinked timer. -/
theorem moved_vtimerRst (hs : s.Placed s.place) (hv : s.place v = none) :
    Moved s (s.vtimerRst v) v none { freed (s.vt v) v with flags := .alloc } := by
  have hm := (Moved.refl hs v).upd (fun t =>
    { t with period := 0, limit := 0, action := .none, param := 0, owner := hardware,
             priority := priLowest, timestamp := 0, nextexp := 0, flags := .alloc })
  refine (hm.trans (moved_linkRst hm.wf (hm.place_self.trans hv))).congr ?_
  rw [upd_vt_self]
  rfl

/-- `MRT_vtimer_free` on a timer that is active, or in no queue. -/
theorem moved_vtimerFree (hs : TimersOk s) (hv : s.place v = none ∨ s.place v = some .act)
    (h : s.vtimerFree v = some s') : Moved s s' v (some .free) (freed (s.vt v) v) := by
  rw [vtimerFree] at h
  cases hst : s.vtimerStop v with
  | none => simp [hst] at h
  | some s1 =>
    simp only [hst] at h
    have hm1 := moved_vtimerStop hs hv hst
    have hm2 := moved_vtimerRst hm1.wf hm1.place_self
    have hm3 := hm2.upd (fun t => { t with flags := .freeQ })
    have hm4 := moved_freeApp hm3.wf hm3.place_self h
    refine ((hm1.trans hm3).trans hm4).congr ?_
    have h1 := hm1.self
    have h2 := hm2.self
    rw [upd_vt_self]
    simp only [Timer.undelta, freed, Timer.mk.injEq] at h1 h2 ⊢
    simp [h2, h1]

/-- `MRT_vtimer_alloc` refuses and changes nothing, or hands out a free timer. -/
theorem moved_vtimerAlloc {per lim : BitVec 32} {act : Act} {par owner : Int} {pty : Prty}
    {r : Option VT} (hs : TimersOk s)
    (h : s.vtimerAlloc per lim act par owner pty = some (r, s')) :
    (r = none ∧ s' = s) ∨ ∃ v, r = some v ∧ s.place v = some .free ∧
      Moved s s' v none
        { s.vt v with owner := owner, priority := pty, period := per, limit := lim, action := act,
                      param := par, flags := .alloc } := by
  rw [vtimerAlloc] at h
  split at h
  · cases h
    exact .inl ⟨rfl, rfl⟩
  split at h
  · cases h
    exact .inl ⟨rfl, rfl⟩
  cases hfirst : (s.q.hdr .free).first with
  | none => simp [hfirst] at h
  | some pl =>
    simp only [hfirst] at h
    cases ht : (s.vt pl).this with
    | none => simp [ht] at h
    | some w =>
      have hw : w = pl := (hs.fits pl).this w ht
      subst hw
      simp only [ht, some.injEq, Prod.mk.injEq] at h
      obtain ⟨rfl, rfl⟩ := h
      obtain ⟨f, hf, hA, hpl⟩ := hs.placed
      have hmem : w ∈ f .free := by
        rw [hf.first_eq] at hfirst
        exact List.mem_of_head? hfirst
      have hv : s.place w = some .free := (hpl w _).mp hmem
      refine .inr ⟨w, rfl, hv, ?_⟩
      have hm1 : Moved s { s with q := s.q.rmv .free w } w none (s.vt w) := by
        refine ⟨⟨_, hf.rmv .free hmem, ?_, hpl.erase .free hv (hf.nodup _)⟩, rfl, fun _ _ => rfl⟩
        exact hA.congr (fun k => update_of_ne (by simp) _ _)
      exact hm1.upd (fun t =>
        { t with owner := owner, priority := pty, period := per, limit := lim, action := act,
                 param := par, flags := .alloc })

/-! ## The clock -/

/-- Some timers of the active queue have moved to the expired queue; a moved timer had
    a sound back pointer. -/
structure Expires (s s' : TimerSt) : Prop where
  ok : TimersOk s'
  each : ∀ v, (s'.place v = s.place v ∧ (s'.vt v).undelta = (s.vt v).undelta) ∨
    (s.place v = some .act ∧ (s.vt v).this = some v ∧
      s'.place v = some (.exp (s.vt v).priority) ∧
      (s'.vt v).undelta = { s.vt v with flags := .alloc, this := some v }.undelta)

theorem Expires.refl (hs : TimersOk s) : Expires s s := ⟨hs, fun _ => .inl ⟨rfl, rfl⟩⟩

/-- A timer that has just moved to the expired queue is not moved again. -/
theorem Moved.expires (hm : Moved s s' v (some (.exp (s.vt v).priority))
      { s.vt v with flags := .alloc, this := some v })
    (hv : s.place v = some .act) (ht : (s.vt v).this = some v) (h : Expires s' s'') :
    Expires s s'' := by
  refine ⟨h.ok, fun w => ?_⟩
  by_cases hw : w = v
  · subst hw
    rcases h.each w with ⟨hp, hf⟩ | ⟨hp, -⟩
    · exact .inr ⟨hv, ht, hp.trans hm.place_self, hf.trans hm.self⟩
    · rw [hm.place_self] at hp
      cases hp
  · have hsame := hm.same w hw
    rcases h.each w with ⟨hp, hf⟩ | ⟨hp, htw, hp', hf⟩
    · exact .inl ⟨hp.trans (hm.place_ne hw), hf.trans hsame⟩
    · simp only [Timer.undelta, Timer.mk.injEq] at hsame hf
      refine .inr ⟨(hm.place_ne hw) ▸ hp, by rw [← htw]; simp [hsame], ?_, ?_⟩
      · rw [hp']
        simp [hsame]
      · simp only [Timer.undelta, Timer.mk.injEq]
        simp [hf, hsame]

/-- The loop of `MRT_clock_handler`. -/
theorem clockLoop_expires : ∀ (n : Nat) {s : TimerSt} {m m' : BitVec 32}, TimersOk s →
    clockLoop n s m = some (s', m') → Expires s s' := by
  intro n
  induction n with
  | zero =>
    intro s m m' _ h
    cases h
  | succ n ih =>
    intro s m m' hs h
    rw [clockLoop] at h
    cases hfirst : (s.q.hdr .act).first with
    | none =>
      simp only [hfirst, some.injEq, Prod.mk.injEq] at h
      exact h.1 ▸ Expires.refl hs
    | some v =>
      simp only [hfirst] at h
      split at h
      · simp only [some.injEq, Prod.mk.injEq] at h
        exact h.1 ▸ Expires.refl hs
      · cases ht : (s.vt v).this with
        | none => simp [ht] at h
        | some w =>
          have hw : w = v := (hs.fits v).this w ht
          subst hw
          simp only [ht] at h
          cases hr : s.vtimerRmv w with
          | none => simp [hr] at h
          | some s1 =>
            simp only [hr] at h
            cases he : s1.expApp w (s1.vt w).priority with
            | none => simp [he] at h
            | some s2 =>
              simp only [he] at h
              have hv : s.place w = some .act := by
                obtain ⟨f, hf, -, hpl⟩ := hs.placed
                rw [hf.first_eq] at hfirst
                exact (hpl w _).mp (List.mem_of_head? hfirst)
              have hm1 := moved_vtimerRmv hs.placed hv hr
              have hm2 := moved_expApp hm1.wf hm1.place_self he
              have hpr : (s1.vt w).priority = (s.vt w).priority := by
                have := hm1.self
                simp only [Timer.undelta, Timer.mk.injEq] at this
                exact this.2.2.2.2.1
              have hm := (hm1.trans hm2).congr hm1.self
              rw [hpr] at hm
              refine hm.expires hv ht (ih (hm.ok hs ?_) h)
              refine ⟨by simp, by simp, by simp, fun k hk => ?_, fun x hx => ?_⟩
              · simpa using hk
              · simpa using hx.symm

theorem clockHandler_expires (hs : TimersOk s) (h : s.clockHandler = some s') : Expires s s' := by
  rw [clockHandler] at h
  cases hl : clockLoop 17 s maxPer with
  | none => simp [hl] at h
  | some r =>
    obtain ⟨s1, m⟩ := r
    have he := clockLoop_expires 17 hs hl
    -- the one-shot mode only programs the hardware timer
    have prog : ∀ n, Expires s { s1 with oneshotPer := n } := fun n =>
      ⟨⟨he.ok.placed.of_eq rfl rfl, he.ok.fits⟩, he.each⟩
    simp only [hl] at h
    split at h
    · split at h
      · cases h
        exact prog _
      · split at h
        · cases h
        · cases h
          exact prog _
    · cases h
      exact he

/-- **A CLOCK INTERRUPT** moves timers from the active to the expired queue only. -/
theorem clockIrq_expires (hs : TimersOk s) (h : s.clockIrq = some s') : Expires s s' := by
  rw [clockIrq] at h
  split at h
  · have hs0 : TimersOk { s with earliest := 0 } := ⟨hs.placed.of_eq rfl rfl, hs.fits⟩
    have := clockHandler_expires hs0 h
    exact ⟨this.ok, this.each⟩
  · simp only at h
    split at h
    · cases h
      exact ⟨⟨hs.placed.of_eq rfl rfl, hs.fits⟩, fun _ => .inl ⟨rfl, rfl⟩⟩
    · split at h
      · have hs0 : TimersOk { s with ticks := s.ticks + 1, earliest := s.earliest - 1 } :=
          ⟨hs.placed.of_eq rfl rfl, hs.fits⟩
        have := clockHandler_expires hs0 h
        exact ⟨this.ok, this.each⟩
      · cases h
        exact ⟨⟨hs.placed.of_eq rfl rfl, hs.fits⟩, fun _ => .inl ⟨rfl, rfl⟩⟩

/-! ## The initial state -/

theorem vtimerInitLoop_free : ∀ (vs : List VT) {s : TimerSt}, TimersOk s → vs.Nodup →
    (∀ v ∈ vs, s.place v = none) → vtimerInitLoop vs s = some s' →
    TimersOk s' ∧ ∀ v, s'.place v = if v ∈ vs then some .free else s.place v := by
  intro vs
  induction vs with
  | nil =>
    intro s hs _ _ h
    cases h
    exact ⟨hs, fun v => by simp⟩
  | cons x xs ih =>
    intro s hs hnd hnone h
    rw [vtimerInitLoop] at h
    cases hf : (s.vtimerRst x).freeApp x with
    | none => simp [hf] at h
    | some s1 =>
      simp only [hf] at h
      obtain ⟨hx, hnd⟩ := List.nodup_cons.mp hnd
      have hm1 := moved_vtimerRst hs.placed (hnone x (by simp))
      have hm := (hm1.trans (moved_freeApp hm1.wf hm1.place_self hf)).congr hm1.self
      have hs1 : TimersOk s1 := by
        refine hm.ok hs ⟨by simp, by simp, by simp, by simp, fun w hw => ?_⟩
        simpa [freed] using hw.symm
      have hne : ∀ v ∈ xs, v ≠ x := fun v hv e => hx (e ▸ hv)
      obtain ⟨hok, hpl⟩ := ih hs1 hnd
        (fun v hv => (hm.place_ne (hne v hv)).trans (hnone v (by simp [hv]))) h
      refine ⟨hok, fun v => ?_⟩
      rw [hpl v]
      by_cases hv : v ∈ xs
      · simp [hv]
      · by_cases hvx : v = x
        · subst hvx
          simp [hv, hm.place_self]
        · simp [hv, hvx, hm.place_ne hvx]

/-- After `MRT_vtimer_init` every timer is in the free list. -/
theorem vtimerInit_free (h : vtimerInit = some s) : TimersOk s ∧ ∀ v, s.place v = some .free := by
  have hp : zero.Placed (fun _ => none) :=
    ⟨fun _ => [], ⟨fun _ => ⟨rfl, rfl, rfl, trivial⟩, fun _ => List.nodup_nil,
      fun _ _ _ hx => nomatch hx⟩, PReads.rst (fun _ => rfl), fun _ _ => by simp⟩
  have h0 : TimersOk zero := by
    constructor
    · rw [hp.place_eq]
      exact hp
    · intro v
      rw [hp.place_eq]
      exact ⟨by simp [zero], by simp [zero], by simp [zero], by simp, by simp [zero]⟩
  obtain ⟨hok, hpl⟩ := vtimerInitLoop_free _ h0 (List.nodup_finRange 16)
    (fun v _ => by rw [hp.place_eq]) h
  exact ⟨hok, fun v => by rw [hpl v, if_pos (List.mem_finRange v)]⟩

end TimerSt

end Vtimer
