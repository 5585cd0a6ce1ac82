import Minix4rt.DeadlineQueueProofs
import Minix4rt.VtimerModelProofs

/-! # The active queue is a deadline queue

    `Reads s f` says that the pointers of the timer system read as the lists `f`;
    `Timed s xs` that `earliest`, `nextexp` and `maxper` are deltas of the active
    list `xs`, without wrap-around.  `remaining s xs` is the deadline queue they
    stand for.

    Each operation of the active queue is then ONE operation of the abstract
    queue: insertion is `enqueue`, removal is `remove`, and a clock interrupt is
    `elapse` followed by the transfer of what is due. -/

namespace Vtimer

open IntrusiveList PriorityList DeadlineQueue Function Option

namespace TimerSt

/-! ## Small lemmas of the state -/

section Upd

variable (s : TimerSt) (v w : VT) (g : Timer → Timer)

@[simp] theorem upd_q : (s.upd v g).q = s.q := rfl
@[simp] theorem upd_earliest : (s.upd v g).earliest = s.earliest := rfl
@[simp] theorem upd_ticks : (s.upd v g).ticks = s.ticks := rfl
@[simp] theorem upd_oneshot : (s.upd v g).oneshot = s.oneshot := rfl

@[simp] theorem upd_vt_self : (s.upd v g).vt v = g (s.vt v) := by
  simp [upd]

theorem upd_vt_ne (h : w ≠ v) : (s.upd v g).vt w = s.vt w := by
  simp [upd, h]

end Upd

/-- The pointers read as the lists `f`, and every link points back to its timer. -/
structure Reads (s : TimerSt) (f : TimerQ → List VT) : Prop where
  q : s.q.Reads f
  exp : PReads TimerQ.exp f s.exp
  this : ∀ v, (s.vt v).this = some v

/-- The ticks from the expiration of a timer to the next one. -/
def gap (s : TimerSt) (v : VT) : Nat := (s.vt v).nextexp.toNat

/-- The deadline queue of the active list. -/
def remaining (s : TimerSt) (xs : List VT) : List (VT × Nat) :=
  decode s.gap s.earliest.toNat xs

/-- The deltas of the active list `xs` do not wrap, and `maxper` is their sum. -/
structure Timed (s : TimerSt) (xs : List VT) : Prop where
  bound : s.earliest.toNat + span s.gap xs.dropLast < 2 ^ 31
  maxper : xs ≠ [] → s.maxper.toNat = span s.gap xs.dropLast

/-- Nothing but the deltas and the flags of the timers differs. -/
structure SameCore (s s' : TimerSt) : Prop where
  ticks : s'.ticks = s.ticks
  oneshot : s'.oneshot = s.oneshot
  vt : ∀ w, s'.vt w = { s.vt w with nextexp := (s'.vt w).nextexp, flags := (s'.vt w).flags }

theorem SameCore.refl (s : TimerSt) : SameCore s s := ⟨rfl, rfl, fun _ => rfl⟩

theorem SameCore.trans {s s' s'' : TimerSt} (h : SameCore s s') (h' : SameCore s' s'') :
    SameCore s s'' := by
  refine ⟨h'.ticks.trans h.ticks, h'.oneshot.trans h.oneshot, fun w => ?_⟩
  rw [h'.vt w, h.vt w]

theorem SameCore.priority {s s' : TimerSt} (h : SameCore s s') (w : VT) :
    (s'.vt w).priority = (s.vt w).priority := by
  rw [h.vt w]

theorem SameCore.this {s s' : TimerSt} (h : SameCore s s') (w : VT) :
    (s'.vt w).this = (s.vt w).this := by
  rw [h.vt w]

theorem SameCore.upd {s s' : TimerSt} (h : SameCore s s') {v : VT} {g : Timer → Timer}
    (hg : ∀ t, g t = { t with nextexp := (g t).nextexp, flags := (g t).flags }) :
    SameCore s (s'.upd v g) := by
  refine ⟨h.ticks, h.oneshot, fun w => ?_⟩
  by_cases hw : w = v
  · subst hw
    rw [upd_vt_self, hg, h.vt w]
  · rw [upd_vt_ne _ _ _ _ hw]
    exact h.vt w

theorem SameCore.setNextexp {s s' : TimerSt} (h : SameCore s s') (v : VT) (n : BitVec 32) :
    SameCore s (s'.setNextexp v n) :=
  h.upd (fun _ => rfl)

@[simp] theorem flags_setNextexp (s : TimerSt) (v w : VT) (n : BitVec 32) :
    ((s.setNextexp v n).vt w).flags = (s.vt w).flags := by
  by_cases hw : w = v
  · subst hw
    simp [TimerSt.setNextexp]
  · simp [TimerSt.setNextexp, upd_vt_ne _ _ _ _ hw]

@[simp] theorem gap_setNextexp_self (s : TimerSt) (v : VT) (n : BitVec 32) :
    (s.setNextexp v n).gap v = n.toNat := by
  simp [gap, TimerSt.setNextexp]

theorem gap_setNextexp_ne (s : TimerSt) {v w : VT} (n : BitVec 32) (h : w ≠ v) :
    (s.setNextexp v n).gap w = s.gap w := by
  simp [gap, TimerSt.setNextexp, upd_vt_ne _ _ _ _ h]

theorem TimerQ.exp_injective : Function.Injective TimerQ.exp := by
  intro p q h
  exact TimerQ.exp.inj h

/-- Changing only the active list leaves the expired lists as they are. -/
theorem preads_update_act {f : TimerQ → List VT} {A : PAux 16} {xs : List VT}
    (h : PReads TimerQ.exp f A) : PReads TimerQ.exp (update f .act xs) A :=
  h.congr (fun p => by rw [update_of_ne (by simp)])

/-! ## Removal -/

variable {s s' : TimerSt} {f : TimerQ → List VT} {v : VT}
variable {as xs ys : List VT} {p : VT} {per : BitVec 32} {q : List (VT × Nat)} {s₀ : TimerSt}

/-- The pointers of a timer in the active list name its neighbours. -/
theorem Reads.neighbours (h : Reads s f) (hf : f .act = as ++ v :: ys) :
    (s.q.lk v).prev = as.getLast? ∧ (s.q.lk v).next = ys.head? := by
  have hl := h.q.isList .act
  rw [hf] at hl
  exact hl.neighbours

theorem Reads.prevThis (h : Reads s f) (hf : f .act = (as ++ [p]) ++ v :: ys) :
    s.prevThis v = some p := by
  have hp := (h.neighbours hf).1
  rw [List.getLast?_append_cons, List.getLast?_singleton] at hp
  unfold TimerSt.prevThis
  rw [hp]
  exact h.this p

/-- What the repair of the deltas has to give when `v` leaves `as ++ v :: ys`. -/
structure DeltaRmv (s s1 : TimerSt) (v : VT) (as ys : List VT) : Prop where
  q : s1.q = s.q
  exp : s1.exp = s.exp
  core : SameCore s s1
  flags : ∀ w, (s1.vt w).flags = (s.vt w).flags
  timed : Timed s1 (as ++ ys)
  remaining : s1.remaining (as ++ ys) = remove v (s.remaining (as ++ v :: ys))

private theorem rmvDelta_only (hf : f .act = [v]) (h : Reads s f) :
    ∃ s1, s.rmvDelta v = some s1 ∧ DeltaRmv s s1 v [] [] := by
  have h1 : (s.q.hdr .act).first = some v := by rw [h.q.first_eq, hf]; rfl
  have h2 : (s.q.hdr .act).last = some v := by rw [h.q.last_eq, hf]; rfl
  refine ⟨{ s with earliest := 0, maxper := 0 }, ?_, rfl, rfl, ⟨rfl, rfl, fun _ => rfl⟩,
    fun _ => rfl, ⟨?_, ?_⟩, ?_⟩
  · unfold rmvDelta
    simp only [h1, h2, and_self, if_true]
  · simp [span]
  · intro hne
    exact absurd rfl hne
  · rw [List.nil_append]
    unfold TimerSt.remaining
    rw [remove_decode (List.not_mem_nil)]
    rfl

private theorem rmvDelta_first {y : VT} (hf : f .act = v :: y :: ys) (h : Reads s f)
    (ht : Timed s (f .act)) :
    ∃ s1, s.rmvDelta v = some s1 ∧ DeltaRmv s s1 v [] (y :: ys) := by
  have hnd : (v :: y :: ys).Nodup := hf ▸ h.q.nodup .act
  have h1 : (s.q.hdr .act).first = some v := by rw [h.q.first_eq, hf]; rfl
  have h2 : (s.q.hdr .act).last ≠ some v := by
    rw [h.q.last_eq, hf, List.getLast?_cons_cons]
    intro e
    exact (List.nodup_cons.mp hnd).1 (List.mem_of_getLast? e)
  have hb := ht.bound
  have hm := ht.maxper (by rw [hf]; simp)
  rw [hf] at hb hm
  have hspan : span s.gap (v :: y :: ys).dropLast = s.gap v + span s.gap (y :: ys).dropLast := by
    simp [span]
  rw [hspan] at hb hm
  have hgap : s.gap v = (s.vt v).nextexp.toNat := rfl
  have he : (s.earliest + (s.vt v).nextexp).toNat = s.earliest.toNat + s.gap v := by
    rw [BitVec.toNat_add, ← hgap]
    omega
  have hm' : (s.maxper - (s.vt v).nextexp).toNat = span s.gap (y :: ys).dropLast := by
    rw [BitVec.toNat_sub_of_le (by rw [BitVec.le_def, ← hgap]; omega), ← hgap]
    omega
  refine ⟨{ s with earliest := s.earliest + (s.vt v).nextexp,
                   maxper := s.maxper - (s.vt v).nextexp },
    ?_, rfl, rfl, ⟨rfl, rfl, fun _ => rfl⟩, fun _ => rfl, ⟨?_, ?_⟩, ?_⟩
  · unfold rmvDelta
    simp only [h1, h2, and_false, if_false, if_true]
  · show (s.earliest + (s.vt v).nextexp).toNat + span s.gap (y :: ys).dropLast < 2 ^ 31
    rw [he]
    omega
  · intro _
    exact hm'
  · show decode s.gap (s.earliest + (s.vt v).nextexp).toNat (y :: ys) = _
    rw [he]
    unfold TimerSt.remaining
    rw [remove_decode (List.nodup_cons.mp hnd).1]
    rfl

private theorem rmvDelta_last (hf : f .act = (as ++ [p]) ++ [v]) (h : Reads s f)
    (ht : Timed s (f .act)) :
    ∃ s1, s.rmvDelta v = some s1 ∧ DeltaRmv s s1 v (as ++ [p]) [] := by
  have hnd : ((as ++ [p]) ++ [v]).Nodup := hf ▸ h.q.nodup .act
  have hv : v ∉ as ++ [p] := fun hm => (List.nodup_append.mp hnd).2.2 v hm v (by simp) rfl
  have h1 : (s.q.hdr .act).first ≠ some v := by
    rw [h.q.first_eq, hf]
    cases as with
    | nil => intro e; exact hv (by simpa using (some.inj e).symm)
    | cons a as => intro e; exact hv (by simp [(some.inj e)])
  have h2 : (s.q.hdr .act).last = some v := by rw [h.q.last_eq, hf]; simp
  have hb := ht.bound
  have hm := ht.maxper (by rw [hf]; simp)
  rw [hf, List.dropLast_concat] at hb hm
  rw [span_append] at hb hm
  have hgap : span s.gap [p] = (s.vt p).nextexp.toNat := by simp [span, gap]
  have hm' : (s.maxper - (s.vt p).nextexp).toNat = span s.gap as := by
    rw [BitVec.toNat_sub_of_le (by rw [BitVec.le_def, ← hgap]; omega), ← hgap]
    omega
  refine ⟨{ s with maxper := s.maxper - (s.vt p).nextexp },
    ?_, rfl, rfl, ⟨rfl, rfl, fun _ => rfl⟩, fun _ => rfl, ⟨?_, ?_⟩, ?_⟩
  · unfold rmvDelta
    simp only [h1, h2, false_and, if_false, if_true, h.prevThis hf]
  · show s.earliest.toNat + span s.gap (as ++ [p] ++ []).dropLast < 2 ^ 31
    rw [List.append_nil, List.dropLast_concat]
    omega
  · intro _
    show (s.maxper - (s.vt p).nextexp).toNat = span s.gap (as ++ [p] ++ []).dropLast
    rw [List.append_nil, List.dropLast_concat]
    exact hm'
  · unfold TimerSt.remaining
    rw [remove_decode (by simpa using hv)]
    show decode s.gap s.earliest.toNat (as ++ [p] ++ []) = decode s.gap _ _ ++ []
    simp

private theorem rmvDelta_middle {y : VT} (hf : f .act = (as ++ [p]) ++ v :: y :: ys)
    (h : Reads s f) (ht : Timed s (f .act)) :
    ∃ s1, s.rmvDelta v = some s1 ∧ DeltaRmv s s1 v (as ++ [p]) (y :: ys) := by
  have hnd : ((as ++ [p]) ++ v :: y :: ys).Nodup := hf ▸ h.q.nodup .act
  obtain ⟨hnda, hndb, hdis⟩ := List.nodup_append.mp hnd
  have hva : v ∉ as ++ [p] := fun hm => hdis v hm v (by simp) rfl
  have hvb : v ∉ y :: ys := (List.nodup_cons.mp hndb).1
  have hpb : p ∉ y :: ys := fun hm => hdis p (by simp) p (List.mem_cons_of_mem _ hm) rfl
  have hpa : p ∉ as := fun hm => (List.nodup_append.mp hnda).2.2 p hm p (by simp) rfl
  have hpv : p ≠ v := fun e => hva (by simp [e])
  have h1 : (s.q.hdr .act).first ≠ some v := by
    rw [h.q.first_eq, hf]
    cases as with
    | nil => intro e; exact hva (by simpa using (some.inj e).symm)
    | cons a as => intro e; exact hva (by simp [(some.inj e)])
  have h2 : (s.q.hdr .act).last ≠ some v := by
    rw [h.q.last_eq, hf, List.getLast?_append_cons, List.getLast?_cons_cons]
    intro e
    exact hvb (List.mem_of_getLast? e)
  have hb := ht.bound
  have hm := ht.maxper (by rw [hf]; simp)
  have hdrop : ((as ++ [p]) ++ v :: y :: ys).dropLast
      = (as ++ [p]) ++ v :: (y :: ys).dropLast := by
    rw [List.dropLast_append_of_ne_nil (by simp), List.dropLast_cons_cons]
  have hspan : span s.gap ((as ++ [p]) ++ v :: (y :: ys).dropLast)
      = span s.gap as + s.gap p + s.gap v + span s.gap (y :: ys).dropLast := by
    simp only [span, List.map_append, List.map_cons, List.map_nil, List.sum_append,
      List.sum_cons, List.sum_nil]
    omega
  rw [hf, hdrop, hspan] at hb hm
  let n : BitVec 32 := (s.vt p).nextexp + (s.vt v).nextexp
  let s1 : TimerSt := s.setNextexp p n
  have hn : s1.gap p = s.gap p + s.gap v := by
    rw [gap_setNextexp_self, BitVec.toNat_add]
    unfold gap at hb ⊢
    omega
  have hne : ∀ w, w ≠ p → s1.gap w = s.gap w := fun w hw => gap_setNextexp_ne s n hw
  have hsa : span s1.gap as = span s.gap as :=
    span_congr (fun w hw => hne w (fun e => hpa (e ▸ hw)))
  have hsap : span s1.gap (as ++ [p]) = span s.gap as + s.gap p + s.gap v := by
    rw [span_append, hsa]
    simp only [span, List.map_cons, List.map_nil, List.sum_cons, List.sum_nil, hn]
    omega
  have hsy : span s1.gap (y :: ys).dropLast = span s.gap (y :: ys).dropLast :=
    span_congr (fun w hw => hne w (fun e => hpb (e ▸ List.mem_of_mem_dropLast hw)))
  have htot : span s1.gap ((as ++ [p]) ++ (y :: ys)).dropLast
      = span s.gap as + s.gap p + s.gap v + span s.gap (y :: ys).dropLast := by
    rw [List.dropLast_append_of_ne_nil (by simp), span_append, hsap, hsy]
  refine ⟨s1, ?_, rfl, rfl, (SameCore.refl s).setNextexp p n,
    fun w => flags_setNextexp s p w n, ⟨?_, ?_⟩, ?_⟩
  · unfold rmvDelta
    simp only [h1, h2, false_and, if_false, h.prevThis hf]
    rfl
  · rw [htot]
    exact hb
  · intro _
    rw [htot]
    exact hm
  · show decode s1.gap s.earliest.toNat _ = remove v (decode s.gap s.earliest.toNat _)
    rw [remove_decode (fun hm => (List.mem_append.mp hm).elim hva hvb), decode_append, hsap]
    have hca : decode s1.gap s.earliest.toNat (as ++ [p])
        = decode s.gap s.earliest.toNat (as ++ [p]) := by
      refine decode_congr (fun w hw => hne w (fun e => hpa ?_))
      rw [List.dropLast_concat] at hw
      exact e ▸ hw
    have hcy : ∀ e, decode s1.gap e (y :: ys) = decode s.gap e (y :: ys) := by
      intro e
      exact decode_congr (fun w hw => hne w (fun he => hpb (he ▸ List.mem_of_mem_dropLast hw)))
    have hsp : span s.gap (as ++ [p]) = span s.gap as + s.gap p := by
      simp [span]
    rw [hca, hcy, hsp]
    congr 2
    omega

/-- The repair of the deltas, wherever the leaver stands. -/
private theorem rmvDelta_spec (hf : f .act = as ++ v :: ys) (h : Reads s f)
    (ht : Timed s (f .act)) :
    ∃ s1, s.rmvDelta v = some s1 ∧ DeltaRmv s s1 v as ys := by
  rcases List.eq_nil_or_concat as with hnil | ⟨bs, p, hbs⟩
  · subst hnil
    cases ys with
    | nil => exact rmvDelta_only hf h
    | cons y ys => exact rmvDelta_first hf h ht
  · rw [List.concat_eq_append] at hbs
    subst hbs
    cases ys with
    | nil => exact rmvDelta_last hf h ht
    | cons y ys => exact rmvDelta_middle hf h ht

theorem gap_rmvLink (w : VT) : (s.rmvLink v).gap w = s.gap w := by
  unfold gap rmvLink linkRst
  by_cases hw : w = v
  · subst hw
    simp [upd]
  · simp [upd, hw]

/-- Unlinking a timer of the active list. -/
theorem rmvLink_spec (h : Reads s f) (hv : v ∈ f .act) :
    Reads (s.rmvLink v) (update f .act ((f .act).erase v)) ∧
      SameCore s (s.rmvLink v) ∧
      ∀ w, ((s.rmvLink v).vt w).flags = if w = v then .alloc else (s.vt w).flags := by
  have hq : (s.rmvLink v).q = (s.q.rmv .act v).rstLink v := rfl
  have hvt : ∀ w, (s.rmvLink v).vt w
      = if w = v then { s.vt v with flags := .alloc, this := some v } else s.vt w := by
    intro w
    unfold rmvLink linkRst
    by_cases hw : w = v
    · subst hw
      simp [upd]
    · simp [upd, hw]
  have hthis := h.this
  refine ⟨⟨?_, preads_update_act h.exp, fun w => ?_⟩, ⟨rfl, rfl, fun w => ?_⟩, fun w => ?_⟩
  · rw [hq]
    exact (h.q.rmv .act hv).rstLink (h.q.unlinked_erase hv)
  · rw [hvt w]
    by_cases hw : w = v
    · rw [if_pos hw, hw]
    · rw [if_neg hw]
      exact hthis w
  · rw [hvt w]
    by_cases hw : w = v
    · subst hw
      rw [if_pos rfl, ← hthis w]
    · rw [if_neg hw]
  · rw [hvt w]
    by_cases hw : w = v
    · rw [if_pos hw, if_pos hw]
    · rw [if_neg hw, if_neg hw]

/-- **REMOVAL** takes the timer out of the deadline queue, and nothing else. -/
theorem vtimerRmv_spec (h : Reads s f) (ht : Timed s (f .act)) (hv : v ∈ f .act) :
    ∃ s', s.vtimerRmv v = some s' ∧
      Reads s' (update f .act ((f .act).erase v)) ∧
      Timed s' ((f .act).erase v) ∧
      s'.remaining ((f .act).erase v) = remove v (s.remaining (f .act)) ∧
      SameCore s s' ∧ s'.exp = s.exp ∧
      ∀ w, (s'.vt w).flags = if w = v then .alloc else (s.vt w).flags := by
  obtain ⟨as, ys, hf⟩ := List.append_of_mem hv
  obtain ⟨s1, hs1, hd⟩ := rmvDelta_spec hf h ht
  have hva : v ∉ as := by
    have hnd := h.q.nodup .act
    rw [hf] at hnd
    exact fun hm => (List.nodup_append.mp hnd).2.2 v hm v (by simp) rfl
  have herase : (f .act).erase v = as ++ ys := by
    rw [hf, List.erase_append_right _ hva, List.erase_cons_head]
  have hr1 : Reads s1 f := ⟨hd.q ▸ h.q, hd.exp ▸ h.exp,
    fun w => by rw [hd.core.this]; exact h.this w⟩
  obtain ⟨hr, hcore, hflags⟩ := rmvLink_spec hr1 hv
  refine ⟨s1.rmvLink v, ?_, hr, ⟨?_, ?_⟩, ?_, hd.core.trans hcore, hd.exp, fun w => ?_⟩
  · unfold vtimerRmv
    rw [hs1]
  · rw [herase, funext gap_rmvLink]
    exact hd.timed.bound
  · rw [herase, funext gap_rmvLink]
    exact hd.timed.maxper
  · rw [herase, hf]
    unfold TimerSt.remaining at *
    rw [funext gap_rmvLink]
    exact hd.remaining
  · rw [hflags w, hd.flags w]

/-! ## Insertion -/

/-- What an insertion of `v` has to give: the new active list is read off the
    deadline queue. -/
structure Inserted (s s' : TimerSt) (f : TimerQ → List VT) (v : VT) (xs' : List VT) : Prop where
  reads : Reads s' (update f .act xs')
  timed : Timed s' xs'
  remaining : s'.remaining xs' = enqueue v (s.vt v).period.toNat (s.remaining (f .act))
  core : SameCore s s'
  exp : s'.exp = s.exp
  flags : ∀ w, (s'.vt w).flags = (s.vt w).flags

/-- The deltas around a timer put into the active list are right if the deadline queue is and
    `maxper` follows the latest deadline. -/
theorem Timed.enqueued {xs' : List VT} {d : Nat} (ht : Timed s xs)
    (hne : xs ≠ []) (hd : d < 2 ^ 31) (hrem : s'.remaining xs' = enqueue v d (s.remaining xs))
    (hmax : s'.earliest.toNat + s'.maxper.toNat =
      max d (s.earliest.toNat + span s.gap xs.dropLast)) : Timed s' xs' := by
  have hspan := span_enqueue hrem hne
  have hb := ht.bound
  exact ⟨by omega, fun _ => by omega⟩

private theorem ins_empty (h : Reads s f) (hu : Chains.Unlinked f v) (hf : f .act = [])
    (hp : (s.vt v).period.toNat < 2 ^ 31) :
    ∃ s', s.insQueue v = some s' ∧ Inserted s s' f v [v] := by
  have h1 : (s.q.hdr .act).first = none := by rw [h.q.first_eq, hf]; rfl
  let s0 : TimerSt := { s with earliest := (s.vt v).period, maxper := 0 }
  let s' : TimerSt :=
    { s0.setNextexp v 0 with q := s.q.ins .act v }
  have hcore : SameCore s s' := by
    have h0 : SameCore s s0 := ⟨rfl, rfl, fun _ => rfl⟩
    have hupd := h0.setNextexp v 0
    exact { hupd with }
  refine ⟨s', ?_, ⟨⟨?_, preads_update_act h.exp, fun w => ?_⟩, ⟨?_, ?_⟩, ?_, hcore, rfl,
    fun w => ?_⟩⟩
  · unfold insQueue
    simp only [h1]
    rfl
  · have := h.q.ins .act hu
    rw [hf] at this
    exact this
  · rw [hcore.this]
    exact h.this w
  · show (s.vt v).period.toNat + 0 < 2 ^ 31
    exact hp
  · intro _
    rfl
  · rw [hf]
    rfl
  · exact flags_setNextexp s0 v w 0

private theorem ins_first (h : Reads s f) (ht : Timed s (f .act)) (hu : Chains.Unlinked f v)
    (hne : f .act ≠ []) (hlt : (s.vt v).period.toNat < s.earliest.toNat) :
    ∃ s', s.insQueue v = some s' ∧ Inserted s s' f v (v :: f .act) := by
  obtain ⟨x, xs, hf⟩ := List.exists_cons_of_ne_nil hne
  have h1 : (s.q.hdr .act).first = some x := by rw [h.q.first_eq, hf]; rfl
  have hb := ht.bound
  have hm := ht.maxper hne
  have hdel : (s.earliest - (s.vt v).period).toNat = s.earliest.toNat - (s.vt v).period.toNat :=
    BitVec.toNat_sub_of_le (by rw [BitVec.le_def]; omega)
  have hv : v ∉ f .act := hu .act
  let s' : TimerSt :=
    { s.setNextexp v (s.earliest - (s.vt v).period) with
      q := s.q.ins .act v, maxper := s.maxper + (s.earliest - (s.vt v).period),
      earliest := (s.vt v).period }
  have hcore : SameCore s s' := by
    have hupd := (SameCore.refl s).setNextexp v (s.earliest - (s.vt v).period)
    exact { hupd with }
  have hrem : s'.remaining (v :: f .act) =
      enqueue v (s.vt v).period.toNat (s.remaining (f .act)) := by
    refine enqueue_decode [] rfl rfl (fun a ha => nomatch ha) (fun w hw => ?_)
      (fun _ => ⟨hlt, (gap_setNextexp_self s v _).trans hdel⟩)
    exact gap_setNextexp_ne s _ (fun e => hv (e ▸ List.mem_of_mem_dropLast hw))
  refine ⟨s', ?_, ⟨⟨h.q.ins .act hu, preads_update_act h.exp, fun w => ?_⟩,
    ht.enqueued hne (by omega) hrem ?_, hrem, hcore, rfl, fun w => flags_setNextexp s v w _⟩⟩
  · unfold insQueue
    simp only [h1]
    rw [if_pos (BitVec.lt_def.mpr hlt)]
    rfl
  · rw [hcore.this]
    exact h.this w
  · show (s.vt v).period.toNat + (s.maxper + (s.earliest - (s.vt v).period)).toNat = _
    rw [BitVec.toNat_add, hdel, hm]
    omega

private theorem ins_last (h : Reads s f) (ht : Timed s (f .act)) (hu : Chains.Unlinked f v)
    (hne : f .act ≠ []) (hp : (s.vt v).period.toNat < 2 ^ 31)
    (hge : ¬ (s.vt v).period < s.earliest)
    (hle : s.maxper + s.earliest ≤ (s.vt v).period) :
    ∃ s', s.insQueue v = some s' ∧ Inserted s s' f v (f .act ++ [v]) := by
  obtain ⟨as, l, hf⟩ : ∃ as l, f .act = as ++ [l] := by
    rcases List.eq_nil_or_concat (f .act) with hnil | ⟨as, l, hl⟩
    · exact absurd hnil hne
    · exact ⟨as, l, by rw [hl, List.concat_eq_append]⟩
  obtain ⟨x, xs, hx⟩ := List.exists_cons_of_ne_nil hne
  have h1 : (s.q.hdr .act).first = some x := by rw [h.q.first_eq, hx]; rfl
  have h2 : (s.q.hdr .act).last = some l := by rw [h.q.last_eq, hf]; simp
  have hb := ht.bound
  have hm := ht.maxper hne
  have hv : v ∉ f .act := hu .act
  rw [hf] at hv
  have hlv : l ≠ v := fun e => hv (by simp [e])
  have hla : l ∉ as := by
    have hnd := h.q.nodup .act
    rw [hf] at hnd
    exact fun hm => (List.nodup_append.mp hnd).2.2 l hm l (by simp) rfl
  rw [hf, List.dropLast_concat] at hb hm
  have hsum : (s.maxper + s.earliest).toNat = span s.gap as + s.earliest.toNat := by
    rw [BitVec.toNat_add, hm]
    omega
  rw [BitVec.le_def, hsum] at hle
  have hdel : ((s.vt v).period - (s.maxper + s.earliest)).toNat
      = (s.vt v).period.toNat - (span s.gap as + s.earliest.toNat) := by
    rw [BitVec.toNat_sub_of_le (by rw [BitVec.le_def, hsum]; exact hle), hsum]
  have hmax : ((s.vt v).period - s.earliest).toNat = (s.vt v).period.toNat - s.earliest.toNat :=
    BitVec.toNat_sub_of_le (by rw [BitVec.le_def]; omega)
  obtain ⟨q', hq', hread⟩ := h.q.app .act hu
  let s1 : TimerSt := s.setNextexp l ((s.vt v).period - (s.maxper + s.earliest))
  let s2 : TimerSt := { s1 with maxper := (s.vt v).period - s.earliest }
  let s' : TimerSt := { s2.setNextexp v 0 with q := q' }
  have hcore : SameCore s s' := by
    have h1 : SameCore s s1 := (SameCore.refl s).setNextexp l _
    have h2 : SameCore s s2 := { h1 with }
    have h3 := h2.setNextexp v 0
    exact { h3 with }
  have hgl : s'.gap l = (s.vt v).period.toNat - (span s.gap as + s.earliest.toNat) := by
    rw [← hdel]
    exact (gap_setNextexp_ne s2 _ hlv).trans (gap_setNextexp_self s l _)
  have hgw : ∀ w, w ≠ v → w ≠ l → s'.gap w = s.gap w := fun w hw hwl =>
    (gap_setNextexp_ne s2 _ hw).trans (gap_setNextexp_ne s _ hwl)
  have hrem : s'.remaining (f .act ++ [v]) =
      enqueue v (s.vt v).period.toNat (s.remaining (f .act ++ [])) := by
    rw [hf]
    refine enqueue_decode_after (e := s.earliest.toNat) (fun w hw => ?_) (by omega)
      (by rw [hgl, Nat.add_comm])
      (fun w hw => nomatch hw) (fun hn => absurd rfl hn)
    exact hgw w (fun e => hv (by simp [e ▸ hw])) (fun e => hla (e ▸ hw))
  rw [List.append_nil] at hrem
  refine ⟨s', ?_, ⟨⟨hread, preads_update_act h.exp, fun w => ?_⟩, ht.enqueued hne hp hrem ?_, hrem,
    hcore, rfl, fun w => ?_⟩⟩
  · unfold insQueue
    simp only [h1]
    rw [if_neg hge, if_pos (by rw [BitVec.le_def, hsum]; exact hle)]
    simp only [h2, h.this l]
    simp only [setNextexp, upd, hq']
    rfl
  · rw [hcore.this]
    exact h.this w
  · show s.earliest.toNat + ((s.vt v).period - s.earliest).toNat = _
    rw [hmax, hf, List.dropLast_concat]
    omega
  · exact (flags_setNextexp s2 v w 0).trans (flags_setNextexp s l w _)

/-- The search loop: it walks to the first timer due later than `per`.  The
    accumulated deadline is that of the link the loop stands at, and every timer
    left behind is due no later than `per`. -/
private theorem insSearch_spec (h : Reads s f) (ht : Timed s (f .act))
    (hper : per.toNat < s.earliest.toNat + span s.gap (f .act).dropLast) :
    ∀ (fuel : Nat) (as ys : List VT) (n : VT) (ts : BitVec 32),
      f .act = as ++ n :: ys → (n :: ys).length ≤ fuel →
      ts.toNat = s.earliest.toNat + span s.gap as →
      (∀ a ∈ decode s.gap s.earliest.toNat as, a.2 ≤ per.toNat) →
      ∃ ts' as' n' ys', s.insSearch per fuel ts n = some (ts', n') ∧
        f .act = as' ++ n' :: ys' ∧ ts'.toNat = s.earliest.toNat + span s.gap as' ∧
        per.toNat < ts'.toNat ∧ ∀ a ∈ decode s.gap s.earliest.toNat as', a.2 ≤ per.toNat := by
  intro fuel
  induction fuel with
  | zero => intro as ys n ts _ hlen; exact absurd hlen (by simp)
  | succ fuel ih =>
    intro as ys n ts hf hlen hts hall
    have hnext := (h.neighbours hf).2
    cases ys with
    | nil =>
      refine ⟨ts, as, n, [], ?_, hf, hts, ?_, hall⟩
      · simp only [insSearch, hnext, List.head?_nil]
      · rw [hf, List.dropLast_concat] at hper
        omega
    | cons y ys =>
      by_cases hle : ts ≤ per
      · -- one step further: `n` is due no later than `per` as well
        have hb := ht.bound
        have hdrop : (as ++ n :: y :: ys).dropLast = (as ++ [n]) ++ (y :: ys).dropLast := by
          rw [List.dropLast_append_of_ne_nil (by simp), List.dropLast_cons_cons]
          simp
        rw [hf, hdrop, span_append, span_append] at hb
        have hgn : span s.gap [n] = (s.vt n).nextexp.toNat := by simp [span, gap]
        have hts' : (ts + (s.vt n).nextexp).toNat
            = s.earliest.toNat + span s.gap (as ++ [n]) := by
          rw [BitVec.toNat_add, span_append, hgn]
          rw [hgn] at hb
          omega
        have hall' : ∀ a ∈ decode s.gap s.earliest.toNat (as ++ [n]), a.2 ≤ per.toNat := by
          intro a ha
          rw [decode_append] at ha
          rcases List.mem_append.mp ha with hm | hm
          · exact hall a hm
          · have hone : a = (n, s.earliest.toNat + span s.gap as) := by
              simpa [decode] using hm
            rw [hone, ← hts]
            exact BitVec.le_def.mp hle
        have hf' : f .act = (as ++ [n]) ++ y :: ys := by rw [hf]; simp
        obtain ⟨ts', as', n', ys', hres, hrest⟩ :=
          ih (as ++ [n]) ys y (ts + (s.vt n).nextexp) hf' (by simpa using hlen) hts' hall'
        refine ⟨ts', as', n', ys', ?_, hrest⟩
        rw [← hres]
        simp only [insSearch, hnext, List.head?_cons, hle, if_true, h.this n]
      · refine ⟨ts, as, n, y :: ys, ?_, hf, hts, ?_, hall⟩
        · simp only [insSearch, hnext, List.head?_cons, hle, if_false]
        · rw [BitVec.le_def] at hle
          omega

private theorem ins_middle (h : Reads s f) (ht : Timed s (f .act)) (hu : Chains.Unlinked f v)
    (hne : f .act ≠ []) (hp : (s.vt v).period.toNat < 2 ^ 31)
    (hge : ¬ (s.vt v).period < s.earliest)
    (hgt : ¬ s.maxper + s.earliest ≤ (s.vt v).period) :
    ∃ s' xs', s.insQueue v = some s' ∧ Inserted s s' f v xs' := by
  obtain ⟨x, xs, hx⟩ := List.exists_cons_of_ne_nil hne
  have h1 : (s.q.hdr .act).first = some x := by rw [h.q.first_eq, hx]; rfl
  have hb := ht.bound
  have hm := ht.maxper hne
  have hlen : (x :: xs).length ≤ 17 := by
    have hnd := h.q.nodup .act
    rw [hx] at hnd
    have hcard := hnd.length_le_card
    rw [Fintype.card_fin] at hcard
    omega
  have hper : (s.vt v).period.toNat < s.earliest.toNat + span s.gap (f .act).dropLast := by
    rw [BitVec.le_def, BitVec.toNat_add, hm] at hgt
    omega
  obtain ⟨ts, as, n, ys, hsearch, hf, hts, hlt, hall⟩ :=
    insSearch_spec h ht hper 17 [] xs x s.earliest hx hlen (by simp [span]) (by rintro a ⟨⟩)
  -- the first timer is due no later, so the search has left it behind
  obtain ⟨bs, p, hbs⟩ : ∃ bs p, as = bs ++ [p] := by
    rcases List.eq_nil_or_concat as with hnil | ⟨bs, p, hbs⟩
    · subst hnil
      rw [BitVec.lt_def] at hge
      simp only [span, List.map_nil, List.sum_nil] at hts
      omega
    · exact ⟨bs, p, by rw [hbs, List.concat_eq_append]⟩
  subst hbs
  have hv : v ∉ (bs ++ [p]) ++ n :: ys := hf ▸ hu .act
  have hpv : p ≠ v := fun e => hv (by simp [e])
  have hnd : ((bs ++ [p]) ++ n :: ys).Nodup := hf ▸ h.q.nodup .act
  have hpb : p ∉ bs := fun hm =>
    (List.nodup_append.mp (List.nodup_append.mp hnd).1).2.2 p hm p (by simp) rfl
  have hpy : p ∉ n :: ys := fun hm => (List.nodup_append.mp hnd).2.2 p (by simp) p hm rfl
  have hprev : (s.q.lk n).prev = some p := by
    rw [(h.neighbours hf).1]
    simp
  have hspanp : span s.gap (bs ++ [p]) = span s.gap bs + (s.vt p).nextexp.toNat := by
    simp [span, gap]
  have hpdue : s.earliest.toNat + span s.gap bs ≤ (s.vt v).period.toNat := by
    refine hall (p, _) ?_
    rw [decode_append]
    exact List.mem_append_right _ (by simp [decode])
  have hdel : (ts - (s.vt v).period).toNat = ts.toNat - (s.vt v).period.toNat :=
    BitVec.toNat_sub_of_le (by rw [BitVec.le_def]; omega)
  let s1 : TimerSt := s.setNextexp v (ts - (s.vt v).period)
  let s2 : TimerSt := s1.setNextexp p ((s.vt p).nextexp - (ts - (s.vt v).period))
  let s' : TimerSt := { s2 with q := s.q.splice .act p v n }
  have hcore : SameCore s s' := by
    have h2 : SameCore s s2 := ((SameCore.refl s).setNextexp v _).setNextexp p _
    exact { h2 with }
  have hgv : s'.gap v = ts.toNat - (s.vt v).period.toNat := by
    rw [← hdel]
    exact (gap_setNextexp_ne s1 _ (Ne.symm hpv)).trans (gap_setNextexp_self s v _)
  have hgp : s'.gap p = (s.vt v).period.toNat - (s.earliest.toNat + span s.gap bs) := by
    have hle : (ts - (s.vt v).period).toNat ≤ (s.vt p).nextexp.toNat := by
      rw [hdel]
      omega
    refine (gap_setNextexp_self s1 p _).trans ?_
    rw [BitVec.toNat_sub_of_le (BitVec.le_def.mpr hle), hdel]
    omega
  have hgw : ∀ w, w ≠ v → w ≠ p → s'.gap w = s.gap w := fun w hw hwp =>
    (gap_setNextexp_ne s1 _ hwp).trans (gap_setNextexp_ne s _ hw)
  have hny : ∀ w ∈ (n :: ys).dropLast, s'.gap w = s.gap w := by
    intro w hw
    have hmem := List.mem_of_mem_dropLast hw
    exact hgw w (fun e => hv (List.mem_append_right _ (e ▸ hmem))) (fun e => hpy (e ▸ hmem))
  have hrem : s'.remaining ((bs ++ [p]) ++ v :: n :: ys) =
      enqueue v (s.vt v).period.toNat (s.remaining (f .act)) := by
    rw [hf]
    refine enqueue_decode_after (fun w hw => ?_) hpdue hgp hny (fun _ => ⟨hts ▸ hlt, hts ▸ hgv⟩)
    exact hgw w (fun e => hv (by simp [e ▸ hw])) (fun e => hpb (e ▸ hw))
  refine ⟨s', (bs ++ [p]) ++ v :: n :: ys, ?_, ⟨⟨h.q.splice .act hf hu,
    preads_update_act h.exp, fun w => ?_⟩, ht.enqueued hne hp hrem ?_, hrem, hcore, rfl,
    fun w => ?_⟩⟩
  · unfold insQueue
    simp only [h1]
    rw [if_neg hge, if_neg hgt]
    unfold insMiddle
    simp only [hsearch]
    have hthis : (s1.vt p).this = some p := by
      have := ((SameCore.refl s).setNextexp v (ts - (s.vt v).period)).this p
      exact this.trans (h.this p)
    have hnv : (s1.vt v).nextexp = ts - (s.vt v).period := by
      show ((s.upd v _).vt v).nextexp = _
      rw [upd_vt_self]
    have hnp : (s1.vt p).nextexp = (s.vt p).nextexp := by
      show ((s.upd v _).vt p).nextexp = _
      rw [upd_vt_ne _ _ _ _ hpv]
    have hlk : (s1.q.lk n).prev = some p := hprev
    simp only [s1] at hlk hthis hnv hnp
    simp only [hlk, hthis, hnv, hnp]
    rfl
  · rw [hcore.this]
    exact h.this w
  · show s.earliest.toNat + s.maxper.toNat = _
    omega
  · exact (flags_setNextexp s1 p w _).trans (flags_setNextexp s v w _)

/-- **INSERTION** is `enqueue`: the timer goes before the first one due later. -/
theorem vtimerIns_spec (h : Reads s f) (ht : Timed s (f .act)) (hu : Chains.Unlinked f v)
    (hp : (s.vt v).period.toNat < 2 ^ 31) :
    ∃ s' xs', s.vtimerIns v = some s' ∧ Reads s' (update f .act xs') ∧
      Timed s' xs' ∧
      s'.remaining xs' = enqueue v (s.vt v).period.toNat (s.remaining (f .act)) ∧
      SameCore s s' ∧ s'.exp = s.exp ∧
      ∀ w, (s'.vt w).flags = if w = v then .activeQ else (s.vt w).flags := by
  let s0 : TimerSt := s.upd v (fun t => { t with flags := .activeQ })
  have hvt : ∀ w, s0.vt w =
      { s.vt w with flags := if w = v then .activeQ else (s.vt w).flags } := by
    intro w
    by_cases hw : w = v
    · subst hw
      simp [s0]
    · simp [s0, upd_vt_ne _ _ _ _ hw, hw]
  have hgap : s0.gap = s.gap := by
    funext w
    unfold gap
    rw [hvt w]
  have hrem : ∀ xs, s0.remaining xs = s.remaining xs := by
    intro xs
    unfold TimerSt.remaining
    rw [hgap]
    rfl
  have hr0 : Reads s0 f := ⟨h.q, h.exp, fun w => by rw [hvt w]; exact h.this w⟩
  have ht0 : Timed s0 (f .act) := ⟨by rw [hgap]; exact ht.bound, by rw [hgap]; exact ht.maxper⟩
  have hper0 : (s0.vt v).period = (s.vt v).period := by rw [hvt v]
  have hp0 : (s0.vt v).period.toNat < 2 ^ 31 := by rw [hper0]; exact hp
  have hins : ∃ s' xs', s0.insQueue v = some s' ∧ Inserted s0 s' f v xs' := by
    by_cases hne : f .act = []
    · obtain ⟨s', hs', hi⟩ := ins_empty hr0 hu hne hp0
      exact ⟨s', [v], hs', hi⟩
    · by_cases hlt : (s0.vt v).period < s0.earliest
      · obtain ⟨s', hs', hi⟩ := ins_first hr0 ht0 hu hne (BitVec.lt_def.mp hlt)
        exact ⟨s', _, hs', hi⟩
      · by_cases hle : s0.maxper + s0.earliest ≤ (s0.vt v).period
        · obtain ⟨s', hs', hi⟩ := ins_last hr0 ht0 hu hne hp0 hlt hle
          exact ⟨s', _, hs', hi⟩
        · exact ins_middle hr0 ht0 hu hne hp0 hlt hle
  obtain ⟨s', xs', hs', hi⟩ := hins
  have hcore0 : SameCore s s0 := (SameCore.refl s).upd (fun _ => rfl)
  refine ⟨s', xs', hs', hi.reads, hi.timed, ?_, hcore0.trans hi.core, hi.exp, fun w => ?_⟩
  · rw [hi.remaining, hper0, hrem]
  · rw [hi.flags w, hvt w]

/-! ## The clock -/

/-- What the transfer of the due timers has to give, for the deadline queue `q`. -/
structure Transferred (s s' : TimerSt) (f f' : TimerQ → List VT) (q : List (VT × Nat)) :
    Prop where
  reads : Reads s' f'
  timed : Timed s' (f' .act)
  remaining : s'.remaining (f' .act) = pending q
  expired : ∀ p, f' (.exp p) = f (.exp p) ++ (due q).filter (fun w => (s.vt w).priority = p)
  free : f' .free = f .free
  core : SameCore s s'
  flags : ∀ w, (s'.vt w).flags = if w ∈ due q then .alloc else (s.vt w).flags

theorem due_of_head (h : ∀ a ∈ q.head?, a.2 ≠ 0) : due q = [] := by
  cases q with
  | nil => rfl
  | cons a q =>
    have ha : a.2 ≠ 0 := h a (by simp)
    simp [due, ha]

theorem pending_of_head (h : ∀ a ∈ q.head?, a.2 ≠ 0) : pending q = q := by
  cases q with
  | nil => rfl
  | cons a q =>
    have ha : a.2 ≠ 0 := h a (by simp)
    simp [pending, ha]

/-- With nothing due, there is nothing to transfer. -/
theorem Transferred.none_due (hr : Reads s f) (ht : Timed s (f .act))
    (hq : s.remaining (f .act) = q) (h : ∀ a ∈ q.head?, a.2 ≠ 0) : Transferred s s f f q := by
  refine ⟨hr, ht, ?_, fun p => ?_, rfl, .refl s, fun w => ?_⟩
  · rw [pending_of_head h, hq]
  all_goals
    rw [due_of_head h]
    simp

/-- Appending an unlinked timer to an expired list. -/
theorem expApp_spec (h : Reads s f) (hu : Chains.Unlinked f v) (p : Prty) :
    ∃ s', s.expApp v p = some s' ∧
      Reads s' (update f (.exp p) (f (.exp p) ++ [v])) ∧ s'.vt = s.vt ∧
      s'.earliest = s.earliest ∧ s'.maxper = s.maxper ∧ s'.ticks = s.ticks ∧
      s'.oneshot = s.oneshot := by
  obtain ⟨q', hq', hr, hp⟩ := plistApp_reads h.q h.exp TimerQ.exp_injective p hu
  refine ⟨{ s with q := q', exp := s.exp.add p }, ?_, ⟨hr, hp, h.this⟩, rfl, rfl, rfl, rfl, rfl⟩
  unfold expApp
  rw [hq']

/-- One due timer is moved, and then the rest of the queue. -/
theorem Transferred.cons {s2 : TimerSt} {f' : TimerQ → List VT} {x : VT} (hcore : SameCore s s2)
    (hfl : ∀ w, (s2.vt w).flags = if w = x then .alloc else (s.vt w).flags)
    (h : Transferred s2 s' (update (update f .act xs)
      (.exp (s.vt x).priority) (f (.exp (s.vt x).priority) ++ [x])) f' q) :
    Transferred s s' f f' ((x, 0) :: q) := by
  have hdue : due ((x, 0) :: q) = x :: due q := by simp [due]
  refine ⟨h.reads, h.timed, ?_, fun p => ?_, ?_, hcore.trans h.core, fun w => ?_⟩
  · rw [h.remaining]
    simp [pending]
  · rw [h.expired p, hdue]
    simp only [hcore.priority]
    by_cases hp : p = (s.vt x).priority
    · rw [List.filter_cons_of_pos (by simp [hp]), hp]
      simp
    · rw [List.filter_cons_of_neg (by simpa [eq_comm] using hp)]
      simp [hp]
  · rw [h.free]
    simp
  · rw [h.flags w, hdue, hfl w]
    by_cases hw : w = x
    · simp [hw]
    · simp [hw]

/-- `MRT_vtimer_run` will insert the expired timer again. -/
def Rearms (s : TimerSt) (v : VT) : Prop :=
  (s.vt v).expired + 1 < (s.vt v).limit ∨ (s.vt v).limit = 0

instance (s : TimerSt) (v : VT) : Decidable (s.Rearms v) := inferInstanceAs (Decidable (_ ∨ _))

/-- The accumulator of the one-shot mode after the timers `vs` have been moved. -/
def minexp (s : TimerSt) (m : BitVec 32) (vs : List VT) : BitVec 32 :=
  vs.foldl (fun m v => if s.oneshot ∧ s.Rearms v then minCtr m (s.vt v).period else m) m

theorem SameCore.minexp (h : SameCore s s') (m : BitVec 32) (vs : List VT) :
    s'.minexp m vs = s.minexp m vs := by
  have hre : ∀ v, s'.Rearms v ↔ s.Rearms v := by
    intro v
    unfold Rearms
    rw [h.vt v]
  have hper : ∀ v, (s'.vt v).period = (s.vt v).period := by
    intro v
    rw [h.vt v]
  unfold TimerSt.minexp
  simp only [h.oneshot, hre, hper]

/-- The loop of the clock handler moves exactly the due timers, in queue order. -/
theorem clockLoop_spec : ∀ (fuel : Nat) {s : TimerSt} {f : TimerQ → List VT} (m : BitVec 32),
    Reads s f → Timed s (f .act) → (f .act).length < fuel →
    ∃ s' f', clockLoop fuel s m = some (s', s.minexp m (due (s.remaining (f .act)))) ∧
      Transferred s s' f f' (s.remaining (f .act)) := by
  intro fuel
  induction fuel with
  | zero => intro s f m _ _ hlen; exact absurd hlen (by simp)
  | succ fuel ih =>
    intro s f m hr ht hlen
    cases hf : f .act with
    | nil =>
      have h1 : (s.q.hdr .act).first = none := by rw [hr.q.first_eq, hf]; rfl
      refine ⟨s, f, ?_, ?_⟩
      · simp only [clockLoop, h1]
        rfl
      · exact .none_due hr ht (by rw [hf]) (by intro a ha; exact nomatch ha)
    | cons x xs =>
      have h1 : (s.q.hdr .act).first = some x := by rw [hr.q.first_eq, hf]; rfl
      by_cases hz : s.earliest = 0
      · -- the head is due: it leaves the active list for its expired list
        have hx : x ∈ f .act := by rw [hf]; simp
        have hnd : (x :: xs).Nodup := hf ▸ hr.q.nodup .act
        have hxs : x ∉ xs := (List.nodup_cons.mp hnd).1
        obtain ⟨s1, hs1, hr1, ht1, hrem1, hcore1, -, hfl1⟩ := vtimerRmv_spec hr ht hx
        have herase : (f .act).erase x = xs := by rw [hf, List.erase_cons_head]
        rw [herase] at hr1 ht1 hrem1
        have hu : Chains.Unlinked (update f .act xs) x := by
          have := hr.q.unlinked_erase hx
          rwa [herase] at this
        obtain ⟨s2, hs2, hr2, hvt2, he2, hm2, htk2, ho2⟩ :=
          expApp_spec hr1 hu (s1.vt x).priority
        rw [update_of_ne (by simp), hcore1.priority] at hr2
        have hgap2 : s2.gap = s1.gap := by
          funext w
          unfold gap
          rw [hvt2]
        have hrem2 : s2.remaining xs = s1.remaining xs := by
          unfold TimerSt.remaining
          rw [hgap2, he2]
        have hcore2 : SameCore s s2 :=
          ⟨htk2.trans hcore1.ticks, ho2.trans hcore1.oneshot,
            fun w => by rw [hvt2]; exact hcore1.vt w⟩
        have ht2 : Timed s2 xs :=
          ⟨by rw [hgap2, he2]; exact ht1.bound, by rw [hgap2, hm2]; exact ht1.maxper⟩
        have hact2 : update (update f .act xs) (.exp (s.vt x).priority)
            (f (.exp (s.vt x).priority) ++ [x]) .act = xs := by simp
        obtain ⟨s', f', hs', htr⟩ := ih
          (if s.oneshot ∧ s.Rearms x then minCtr m (s.vt x).period else m)
          hr2 (by rw [hact2]; exact ht2) (by rw [hact2]; rw [hf] at hlen; simpa using hlen)
        rw [hact2] at hs' htr
        -- the queue is the due head and the queue the loop goes on with
        have hq : s.remaining (x :: xs) = (x, 0) :: s2.remaining xs := by
          have hsplit : s.remaining (x :: xs) = (x, 0) :: decode s.gap (s.gap x) xs := by
            unfold TimerSt.remaining
            rw [hz]
            show (x, 0) :: decode s.gap (0 + s.gap x) xs = _
            rw [Nat.zero_add]
          rw [hrem2, hrem1, hf, hsplit]
          unfold remove
          rw [List.filter_cons_of_neg (by simp), List.filter_eq_self.mpr]
          intro a ha
          have := mem_decode_fst ha
          simp only [ne_eq, decide_eq_true_eq]
          exact fun e => hxs (e ▸ this)
        refine ⟨s', f', ?_, ?_⟩
        · simp only [clockLoop, h1, hz, ne_eq, not_true_eq_false, if_false, hr.this x, hs1, hs2]
          rw [hq, show due ((x, 0) :: s2.remaining xs) = x :: due (s2.remaining xs) from by
            simp [due]]
          rw [hcore2.minexp] at hs'
          exact hs'
        · rw [hq]
          exact .cons hcore2 (fun w => by rw [hvt2]; exact hfl1 w) htr
      · have hhead : ∀ a ∈ (s.remaining (x :: xs)).head?, a.2 ≠ 0 := by
          intro a ha
          have hone : a = (x, s.earliest.toNat) := by
            simpa [TimerSt.remaining, decode, eq_comm] using ha
          rw [hone]
          intro e
          exact hz (BitVec.eq_of_toNat_eq e)
        refine ⟨s, f, ?_, .none_due hr ht (by rw [hf]) hhead⟩
        simp only [clockLoop, h1, ne_eq, hz, not_false_eq_true, if_true]
        rw [due_of_head hhead]
        rfl

/-- The handler, outside the one-shot mode. -/
theorem clockHandler_spec (hr : Reads s f) (ht : Timed s (f .act)) (ho : s.oneshot = false) :
    ∃ s' f', s.clockHandler = some s' ∧ Transferred s s' f f' (s.remaining (f .act)) := by
  have hlen : (f .act).length < 17 := by
    have hcard := (hr.q.nodup .act).length_le_card
    rw [Fintype.card_fin] at hcard
    omega
  obtain ⟨s', f', hs', htr⟩ := clockLoop_spec 17 maxPer hr ht hlen
  refine ⟨s', f', ?_, htr⟩
  have ho' : s'.oneshot = false := htr.core.oneshot.trans ho
  unfold clockHandler
  simp only [hs', ho', Bool.false_eq_true, if_false]

/-- A tick has been counted, and `s` is otherwise as before. -/
structure TickFrom (s s0 : TimerSt) : Prop where
  vt : s0.vt = s.vt
  q : s0.q = s.q
  exp : s0.exp = s.exp
  ticks : s0.ticks = s.ticks + 1
  oneshot : s0.oneshot = s.oneshot

/-- **A CLOCK INTERRUPT** lets one tick pass and moves what is due to the expired
    lists. -/
theorem clockIrq_spec (hr : Reads s f) (ht : Timed s (f .act)) (ho : s.oneshot = false)
    (hpos : f .act ≠ [] → 0 < s.earliest.toNat) :
    ∃ s0 s' f', s.clockIrq = some s' ∧ TickFrom s s0 ∧
      Transferred s0 s' f f' (elapse (s.remaining (f .act))) := by
  cases hf : f .act with
  | nil =>
    have h1 : (s.q.hdr .act).first = none := by rw [hr.q.first_eq, hf]; rfl
    let s0 : TimerSt := { s with ticks := s.ticks + 1 }
    refine ⟨s0, s0, f, ?_, ⟨rfl, rfl, rfl, rfl, rfl⟩, ?_⟩
    · unfold clockIrq
      rw [if_neg (by simp [ho])]
      simp only [h1]
      rfl
    · refine Transferred.none_due { hr with } ⟨ht.bound, ht.maxper⟩ ?_ ?_
      · rw [hf]
        rfl
      · intro a ha
        cases ha
  | cons x xs =>
    have h1 : (s.q.hdr .act).first = some x := by rw [hr.q.first_eq, hf]; rfl
    let s0 : TimerSt := { s with ticks := s.ticks + 1, earliest := s.earliest - 1 }
    have hp := hpos (by rw [hf]; simp)
    have hdec : s0.earliest.toNat + 1 = s.earliest.toNat := by
      show (s.earliest - 1).toNat + 1 = _
      have hone : (1 : BitVec 32) ≤ s.earliest := BitVec.le_def.mpr (by exact hp)
      rw [BitVec.toNat_sub_of_le hone]
      exact Nat.sub_add_cancel hp
    have hb := ht.bound
    have hr0 : Reads s0 f := { hr with }
    have ht0 : Timed s0 (f .act) := by
      refine ⟨?_, ht.maxper⟩
      show s0.earliest.toNat + span s.gap _ < _
      omega
    have hrem : s0.remaining (f .act) = elapse (s.remaining (f .act)) := by
      unfold TimerSt.remaining
      rw [← hdec, decode_elapse]
      rfl
    have hcl : s.clockIrq = if s0.earliest = 0 then s0.clockHandler else some s0 := by
      unfold clockIrq
      rw [if_neg (by simp [ho])]
      simp only [h1]
      rfl
    rw [← hf]
    by_cases hz : s0.earliest = 0
    · obtain ⟨s', f', hs', htr⟩ := clockHandler_spec hr0 ht0 ho
      refine ⟨s0, s', f', ?_, ⟨rfl, rfl, rfl, rfl, rfl⟩, hrem ▸ htr⟩
      rw [hcl, if_pos hz, hs']
    · refine ⟨s0, s0, f, by rw [hcl, if_neg hz], ⟨rfl, rfl, rfl, rfl, rfl⟩, ?_⟩
      refine Transferred.none_due hr0 ht0 hrem ?_
      intro a ha
      rw [← hrem, hf] at ha
      have hone : a = (x, s0.earliest.toNat) := by
        simpa [TimerSt.remaining, decode, eq_comm] using ha
      rw [hone]
      intro e
      exact hz (BitVec.eq_of_toNat_eq e)

/-! ## Allocation and the filling of the pool -/

/-- A refusal of `MRT_vtimer_alloc`: no timer is free, or the period is out of range. -/
theorem vtimerAlloc_refused (h : Reads s f) {lim : BitVec 32} {act : Act} {par owner : Int}
    {pty : Prty} (hno : f .free = [] ∨ per = 0 ∨ maxPer < per) :
    s.vtimerAlloc per lim act par owner pty = some (none, s) := by
  unfold vtimerAlloc
  rcases hno with hf | hper
  · have hz : (s.q.hdr .free).inQ = 0 := by
      rw [h.q.inQ_eq, hf]
      rfl
    rw [if_pos hz]
  · rw [if_pos hper, ite_self]

/-- **ALLOCATION** takes the first timer out of the free list and programs it. -/
theorem vtimerAlloc_spec (h : Reads s f) (ht : Timed s (f .act)) {x : VT}
    (hf : f .free = x :: xs) (hper : ¬ (per = 0 ∨ maxPer < per)) (lim : BitVec 32) (act : Act)
    (par owner : Int) (pty : Prty) :
    ∃ s', s.vtimerAlloc per lim act par owner pty = some (some x, s') ∧
      Reads s' (update f .free xs) ∧ Timed s' (f .act) ∧ s'.gap = s.gap ∧
      s' = { s with q := s'.q }.upd x (fun t =>
        { t with owner := owner, priority := pty, period := per, limit := lim,
                 action := act, param := par, flags := .alloc }) := by
  have hx : x ∈ f .free := by rw [hf]; exact List.mem_cons_self
  have h1 : (s.q.hdr .free).first = some x := by rw [h.q.first_eq, hf]; rfl
  have hz : (s.q.hdr .free).inQ ≠ 0 := by
    rw [h.q.inQ_eq, hf]
    simp only [List.length_cons]
    omega
  let s' : TimerSt := { s with q := s.q.rmv .free x }.upd x (fun t =>
    { t with owner := owner, priority := pty, period := per, limit := lim,
             action := act, param := par, flags := .alloc })
  have hne : ∀ w, w ≠ x → s'.vt w = s.vt w := fun w hw => upd_vt_ne _ _ _ _ hw
  have hgap : s'.gap = s.gap := by
    funext w
    by_cases hw : w = x
    · subst hw
      simp [gap, s']
    · simp [gap, hne w hw]
  have hq : s'.q.Reads (update f .free xs) := by
    have := h.q.rmv .free hx
    rwa [hf, List.erase_cons_head] at this
  refine ⟨s', ?_, ⟨hq, h.exp.congr (fun p => by simp), fun w => ?_⟩,
    ⟨by rw [hgap]; exact ht.bound, by rw [hgap]; exact ht.maxper⟩, hgap, rfl⟩
  · unfold vtimerAlloc
    simp only [hz, hper, h1, if_false, h.this x]
    rfl
  · by_cases hw : w = x
    · subst hw
      simpa [s'] using h.this w
    · rw [hne w hw]
      exact h.this w

/-- The lists while the pool is being filled. -/
def initLists (done : List VT) : TimerQ → List VT
  | .free => done
  | _ => []

/-- The filling of the pool from `s₀` has come as far as `done`. -/
structure Filled (s₀ s : TimerSt) (done : List VT) : Prop where
  q : s.q.Reads (initLists done)
  exp : s.exp = s₀.exp
  earliest : s.earliest = s₀.earliest
  maxper : s.maxper = s₀.maxper
  oneshot : s.oneshot = s₀.oneshot
  vt : ∀ w ∈ done, (s.vt w).flags = .alloc ∧ (s.vt w).this = some w

/-- The empty lists are read off headers that have been reset, whatever the links are. -/
theorem reads_nil {q : Chains TimerQ VT} (h : q.hdr = fun _ => ListHdr.rst) :
    q.Reads (initLists []) := by
  have hnil : ∀ i, initLists [] i = [] := by
    intro i
    cases i <;> rfl
  refine ⟨fun i => ?_, fun i => ?_, fun i j x hx => ?_⟩
  · rw [hnil i, h]
    exact ⟨rfl, rfl, rfl, trivial⟩
  · rw [hnil i]
    exact List.nodup_nil
  · rw [hnil i] at hx
    cases hx

/-- `MRT_vtimer_init` succeeds and puts the timers into the free list, in their order. -/
theorem vtimerInitLoop_filled : ∀ (vs : List VT) {s : TimerSt} {done : List VT},
    Filled s₀ s done → (done ++ vs).Nodup →
    ∃ s', vtimerInitLoop vs s = some s' ∧ Filled s₀ s' (done ++ vs) := by
  intro vs
  induction vs with
  | nil =>
    intro s done h _
    refine ⟨s, rfl, ?_⟩
    rw [List.append_nil]
    exact h
  | cons v vs ih =>
    intro s done h hnd
    have hv : v ∉ done := fun hm => (List.nodup_append.mp hnd).2.2 v hm v (by simp) rfl
    have hu : Chains.Unlinked (initLists done) v := by
      intro j
      cases j with
      | free => exact hv
      | act | exp p => exact List.not_mem_nil
    let s1 := s.vtimerRst v
    obtain ⟨q', hq', hr⟩ := (h.q.rstLink hu).app .free hu
    have hlists : update (initLists done) .free (initLists done .free ++ [v])
        = initLists (done ++ [v]) := by
      funext j
      cases j <;> simp [initLists]
    rw [hlists] at hr
    have h' : Filled s₀ { s1 with q := q' } (done ++ [v]) := by
      refine ⟨hr, h.exp, h.earliest, h.maxper, h.oneshot, fun w hw => ?_⟩
      by_cases hwv : w = v
      · subst hwv
        simp [s1, vtimerRst, linkRst]
      · have hne : s1.vt w = s.vt w := by simp [s1, vtimerRst, linkRst, upd, hwv]
        show (s1.vt w).flags = _ ∧ (s1.vt w).this = _
        rw [hne]
        refine h.vt w ?_
        rcases List.mem_append.mp hw with hm | hm
        · exact hm
        · exact absurd (List.mem_singleton.mp hm) hwv
    obtain ⟨s', hs', hinv⟩ := ih h' (by simpa using hnd)
    refine ⟨s', ?_, by simpa using hinv⟩
    have happ : s1.freeApp v = some { s1 with q := q' } := by
      unfold freeApp
      rw [show s1.q.app .free v = some q' from hq']
    simp only [vtimerInitLoop]
    rw [happ]
    exact hs'

/-- **THE POOL AFTER `MRT_timerQ_init` AND `MRT_vtimer_init`**, whatever it was before. -/
theorem vtimerInitLoop_spec (s : TimerSt) (hq : s.q.hdr = fun _ => ListHdr.rst) :
    ∃ s', vtimerInitLoop (List.finRange 16) s = some s' ∧
      Filled s s' (List.finRange 16) := by
  have h0 : Filled s s [] := ⟨reads_nil hq, rfl, rfl, rfl, rfl, fun w hw => nomatch hw⟩
  obtain ⟨s', hs', h⟩ := vtimerInitLoop_filled (List.finRange 16) h0
    (by simpa using List.nodup_finRange 16)
  exact ⟨s', hs', h⟩

/-- A pool that has just been filled, with the queues reset. -/
theorem Filled.reads (h : Filled s₀ s (List.finRange 16)) (he : s₀.exp = PAux.rst) :
    Reads s (initLists (List.finRange 16)) := by
  refine ⟨h.q, ?_, fun v => (h.vt v (List.mem_finRange v)).2⟩
  rw [h.exp, he]
  exact PReads.rst (fun _ => rfl)

theorem Filled.timed (h : Filled s₀ s (List.finRange 16)) (he : s₀.earliest = 0) :
    Timed s (initLists (List.finRange 16) .act) := by
  have hact : initLists (List.finRange 16) .act = [] := rfl
  refine ⟨?_, fun hne => absurd hact hne⟩
  rw [hact, h.earliest, he]
  simp [span]

end TimerSt

end Vtimer
