import Minix4rt.VtimerQueueProofs

/-! # Runs of the timer system — every timer expires on time

    A run of the timer system interleaves the pool operations, insertions,
    removals and clock interrupts in any order.  `Board` is the abstract machine:
    a deadline queue and the expired lists.  `step_refines` connects the two: in
    the periodic mode, every allowed step of the pointer model succeeds and is the
    abstract step.

    The main result is read off the board: a timer inserted with period `p`
    reaches its expired list at the `p`-th clock interrupt after its insertion,
    and timers that expire together keep the order of their insertions. -/

namespace Vtimer

open IntrusiveList PriorityList DeadlineQueue TimerSt Function Option

/-! ## The machine -/

/-- What can happen to the timer system. -/
inductive TEvent where
  | alloc (per lim : BitVec 32) (act : Act) (par owner : Int) (pty : Prty)
  | free (v : VT)
  | prog (v : VT) (per lim : BitVec 32) (act : Act) (par : Int) (pty : Prty)
  | ins (v : VT)
  | rmv (v : VT)
  | stop (v : VT)
  | take (v : VT)
  | tick
deriving DecidableEq, Repr

namespace TimerSt

/-- The fields `VTSET` writes before it inserts the timer. -/
def program (s : TimerSt) (v : VT) (per lim : BitVec 32) (act : Act) (par : Int)
    (pty : Prty) : TimerSt :=
  s.upd v (fun t =>
    { t with period := per, limit := lim, action := act, param := par, priority := pty })

/-- One event.  `take` is the removal from the expired list that `MRT_vtimer_run`
    makes once the action has run. -/
def step (s : TimerSt) : TEvent → Option TimerSt
  | .alloc per lim act par owner pty => (s.vtimerAlloc per lim act par owner pty).map Prod.snd
  | .free v => s.vtimerFree v
  | .prog v per lim act par pty => some (s.program v per lim act par pty)
  | .ins v => s.vtimerIns v
  | .rmv v => s.vtimerRmv v
  | .stop v => s.vtimerStop v
  | .take v => some (s.expRmv v (s.vt v).priority)
  | .tick => s.clockIrq

/-- The timer is in no list. -/
def Idle (s : TimerSt) (v : VT) : Prop :=
  v ∉ s.list .act ∧ v ∉ s.list .free ∧ ∀ p, v ∉ s.list (.exp p)

instance (s : TimerSt) (v : VT) : Decidable (s.Idle v) :=
  inferInstanceAs (Decidable (_ ∧ _ ∧ _))

/-- When an event is allowed: a timer is programmed and inserted while it is in no
    list, with a period from 1 to 2^31 - 1; it is removed or stopped while it is
    active, freed while it is active or in no list, and taken out of the expired
    list it is in. -/
def Allowed (s : TimerSt) : TEvent → Prop
  | .alloc .. => True
  | .free v => v ∈ s.list .act ∨ s.Idle v
  | .prog v .. => s.Idle v
  | .ins v => s.Idle v ∧ 1 ≤ (s.vt v).period.toNat ∧ (s.vt v).period.toNat < 2 ^ 31
  | .rmv v => v ∈ s.list .act
  | .stop v => v ∈ s.list .act
  | .take v => v ∈ s.list (.exp (s.vt v).priority)
  | .tick => True

instance (s : TimerSt) (e : TEvent) : Decidable (s.Allowed e) := by
  cases e <;> unfold Allowed <;> infer_instance

/-- A sequence of events. -/
def run : TimerSt → List TEvent → Option TimerSt
  | s, [] => some s
  | s, e :: es =>
    match s.step e with
    | none => none
    | some s' => run s' es

/-- Every event is allowed in the state it happens in. -/
def AllowedRun : TimerSt → List TEvent → Prop
  | _, [] => True
  | s, e :: es =>
    s.Allowed e ∧ match s.step e with
      | none => True
      | some s' => AllowedRun s' es

instance decidableAllowedRun : (s : TimerSt) → (es : List TEvent) → Decidable (s.AllowedRun es)
  | _, [] => .isTrue trivial
  | s, e :: es =>
    match h : s.step e with
    | none => decidable_of_iff (s.Allowed e) (by simp [AllowedRun, h])
    | some s' =>
      let _ := decidableAllowedRun s' es
      decidable_of_iff (s.Allowed e ∧ s'.AllowedRun es) (by simp [AllowedRun, h])

/-- The states of the runs that start in the periodic mode after the
    initialisation. -/
def Reachable (s : TimerSt) : Prop :=
  ∃ s0 es, vtimerInit = some s0 ∧ AllowedRun s0 es ∧ s0.run es = some s

end TimerSt

/-- The events that take the timer `v` out of the list it is in. -/
def TEvent.Removes (v : VT) : TEvent → Prop
  | .free w => w = v
  | .rmv w => w = v
  | .stop w => w = v
  | .take w => w = v
  | _ => False

instance (v : VT) (e : TEvent) : Decidable (e.Removes v) := by
  cases e <;> unfold TEvent.Removes <;> infer_instance

/-! ## The abstract machine -/

/-- The armed timers with their remaining ticks, and the expired lists. -/
structure Board where
  armed : List (VT × Nat)
  expired : Prty → List VT

/-- The abstract step; `t` gives the period and the priority of each timer. -/
def Board.step (t : VT → Timer) (b : Board) : TEvent → Board
  | .alloc .. => b
  | .prog .. => b
  | .free v => { b with armed := remove v b.armed }
  | .ins v => { b with armed := enqueue v (t v).period.toNat b.armed }
  | .rmv v => { b with armed := remove v b.armed }
  | .stop v => { b with armed := remove v b.armed }
  | .take v =>
    let p := (t v).priority
    { b with expired := update b.expired p ((b.expired p).erase v) }
  | .tick =>
    { armed := pending (elapse b.armed),
      expired := fun p => b.expired p ++
        (due (elapse b.armed)).filter (fun w => (t w).priority = p) }

namespace TimerSt

/-- The board a state shows. -/
def board (s : TimerSt) (f : TimerQ → List VT) : Board :=
  { armed := s.remaining (f .act), expired := fun p => f (.exp p) }

/-- The invariant of the runs. -/
structure Good (s : TimerSt) (f : TimerQ → List VT) : Prop where
  reads : Reads s f
  timed : Timed s (f .act)
  periodic : s.oneshot = false
  live : f .act ≠ [] → 0 < s.earliest.toNat
  activeQ : ∀ v, (s.vt v).flags = .activeQ ↔ v ∈ f .act
  freeQ : ∀ v, (s.vt v).flags = .freeQ → v ∈ f .free
  expiredQ : ∀ v, (s.vt v).flags ≠ .expiredQ

variable {s s' : TimerSt} {f f' : TimerQ → List VT} {v w : VT} {xs : List VT}
  {q : List (VT × Nat)} {e : TEvent} {es : List TEvent}

theorem Good.list_eq (h : Good s f) (i : TimerQ) : s.list i = f i := h.reads.q.list_eq i

theorem Good.idle (h : Good s f) : s.Idle v ↔ Chains.Unlinked f v := by
  unfold Idle
  rw [h.list_eq, h.list_eq]
  constructor
  · rintro ⟨h1, h2, h3⟩ j
    cases j with
    | act => exact h1
    | free => exact h2
    | exp p => rw [← h.list_eq]; exact h3 p
  · intro hu
    exact ⟨hu .act, hu .free, fun p => by rw [h.list_eq]; exact hu (.exp p)⟩

/-- The timers of the deadline queue are those of the active list. -/
theorem mem_remaining_fst : w ∈ xs ↔ ∃ a ∈ s.remaining xs, a.1 = w := by
  have hfst : (s.remaining xs).map Prod.fst = xs := decode_fst
  constructor
  · intro hw
    rw [← hfst] at hw
    exact List.mem_map.mp hw
  · rintro ⟨a, ha, rfl⟩
    exact mem_decode_fst ha

/-- Every armed timer has ticks left. -/
theorem Good.pos (h : Good s f) {a : VT × Nat} (ha : a ∈ s.remaining (f .act)) : 0 < a.2 := by
  have hne : f .act ≠ [] := by
    intro e
    rw [e] at ha
    cases ha
  exact Nat.lt_of_lt_of_le (h.live hne) (le_of_mem_decode ha)

/-- If every remaining time is positive, so is the first one. -/
theorem live_of_pos (h : ∀ a ∈ s.remaining xs, 0 < a.2) (hne : xs ≠ []) :
    0 < s.earliest.toNat := by
  obtain ⟨x, xs', rfl⟩ := List.exists_cons_of_ne_nil hne
  exact h (x, s.earliest.toNat) (by simp [TimerSt.remaining, decode])

/-- A timer that is not due stays, and only such a timer does. -/
theorem mem_pending_iff (h : Ordered q) (hnd : (q.map Prod.fst).Nodup) :
    (∃ a ∈ pending q, a.1 = w) ↔ w ∈ q.map Prod.fst ∧ w ∉ due q := by
  rw [h.pending_eq, h.due_eq]
  constructor
  · rintro ⟨a, ha, rfl⟩
    obtain ⟨hm, hz⟩ := List.mem_filter.mp ha
    refine ⟨List.mem_map_of_mem hm, fun hd => ?_⟩
    obtain ⟨b, hb, hba⟩ := List.mem_map.mp hd
    obtain ⟨hbm, hbz⟩ := List.mem_filter.mp hb
    have hab : b = a := List.inj_on_of_nodup_map hnd hbm hm hba
    subst hab
    simp only [decide_eq_true_eq] at hz hbz
    exact hz hbz
  · rintro ⟨hm, hd⟩
    obtain ⟨a, ha, rfl⟩ := List.mem_map.mp hm
    refine ⟨a, List.mem_filter.mpr ⟨ha, ?_⟩, rfl⟩
    simp only [decide_eq_true_eq]
    intro hz
    exact hd (List.mem_map_of_mem (List.mem_filter.mpr ⟨ha, by simpa using hz⟩))

theorem mem_pending_pos (h : Ordered q) {a : VT × Nat} (ha : a ∈ pending q) : 0 < a.2 := by
  rw [h.pending_eq] at ha
  have := (List.mem_filter.mp ha).2
  simp only [ne_eq, decide_eq_true_eq] at this
  omega

/-! ## One step -/

/-- What a step of the pointer model has to give for the abstract step `e`. -/
structure Refines (s s' : TimerSt) (f f' : TimerQ → List VT) (e : TEvent) : Prop where
  good : Good s' f'
  board : s'.board f' = (s.board f).step s.vt e
  priority : ∀ w ∈ f' .act, (s'.vt w).priority = (s.vt w).priority
  ticks : s'.ticks = s.ticks + if e = .tick then 1 else 0

/-- A change of the active list leaves the other lists of the board. -/
private theorem board_update_act (h : s'.remaining xs = q) :
    s'.board (update f .act xs) = { s.board f with armed := q } := by
  unfold TimerSt.board
  rw [update_self, h]
  simp

theorem ins_refines (h : Good s f) (ha : s.Allowed (.ins v)) :
    ∃ s' f', s.step (.ins v) = some s' ∧ Refines s s' f f' (.ins v) := by
  obtain ⟨hidle, hone, hlt⟩ := ha
  have hu := h.idle.mp hidle
  obtain ⟨s', xs', hs', hr, ht, hrem, hcore, -, hfl⟩ := vtimerIns_spec h.reads h.timed hu hlt
  have hmem : ∀ w, w ∈ xs' ↔ w = v ∨ w ∈ f .act := by
    intro w
    rw [mem_remaining_fst (s := s'), hrem, mem_remaining_fst (s := s)]
    constructor
    · rintro ⟨a, ha, rfl⟩
      rcases mem_enqueue.mp ha with rfl | ha
      · exact .inl rfl
      · exact .inr ⟨a, ha, rfl⟩
    · rintro (rfl | ⟨a, ha, rfl⟩)
      · exact ⟨_, mem_enqueue.mpr (.inl rfl), rfl⟩
      · exact ⟨a, mem_enqueue.mpr (.inr ha), rfl⟩
  refine ⟨s', update f .act xs', hs', ⟨⟨hr, ?_, hcore.oneshot.trans h.periodic, ?_,
    fun w => ?_, fun w hw => ?_, fun w => ?_⟩, board_update_act hrem,
    fun w _ => hcore.priority w, by simp [hcore.ticks]⟩⟩
  · rwa [update_self]
  · rw [update_self]
    refine live_of_pos (fun a ha => ?_)
    rw [hrem] at ha
    rcases mem_enqueue.mp ha with rfl | ha
    · exact hone
    · exact h.pos ha
  · rw [update_self, hmem, hfl w]
    by_cases hw : w = v
    · simp [hw]
    · simp [hw, h.activeQ w]
  · rw [hfl w] at hw
    by_cases hwv : w = v
    · rw [if_pos hwv] at hw
      cases hw
    · rw [if_neg hwv] at hw
      simpa using h.freeQ w hw
  · rw [hfl w]
    by_cases hw : w = v
    · simp [hw]
    · rw [if_neg hw]
      exact h.expiredQ w

theorem rmv_refines (h : Good s f) (hv : v ∈ f .act) :
    ∃ s' f', s.vtimerRmv v = some s' ∧ Refines s s' f f' (.rmv v) ∧
      Chains.Unlinked f' v ∧ (s'.vt v).flags = .alloc := by
  obtain ⟨s', hs', hr, ht, hrem, hcore, -, hfl⟩ := vtimerRmv_spec h.reads h.timed hv
  refine ⟨s', _, hs', ⟨⟨hr, ?_, hcore.oneshot.trans h.periodic, ?_, fun w => ?_,
    fun w hw => ?_, fun w => ?_⟩, board_update_act hrem, fun w _ => hcore.priority w,
    by simp [hcore.ticks]⟩, h.reads.q.unlinked_erase hv, by simp [hfl v]⟩
  · rwa [update_self]
  · rw [update_self]
    refine live_of_pos (fun a ha => ?_)
    rw [hrem] at ha
    exact h.pos (List.mem_of_mem_filter ha)
  · rw [update_self, hfl w, (h.reads.q.nodup .act).mem_erase_iff]
    by_cases hw : w = v
    · simp [hw]
    · simp [hw, h.activeQ w]
  · rw [hfl w] at hw
    by_cases hwv : w = v
    · rw [if_pos hwv] at hw
      cases hw
    · rw [if_neg hwv] at hw
      simpa using h.freeQ w hw
  · rw [hfl w]
    by_cases hw : w = v
    · simp [hw]
    · rw [if_neg hw]
      exact h.expiredQ w

/-- Rewriting a descriptor that is in no list, its deltas and links apart. -/
theorem Good.rewrite (h : Good s f) (hu : Chains.Unlinked f v) (s' : TimerSt)
    (hq : s'.q = s.q ∨ s'.q = s.q.rstLink v) (hexp : s'.exp = s.exp)
    (he : s'.earliest = s.earliest) (hm : s'.maxper = s.maxper) (ho : s'.oneshot = s.oneshot)
    (hne : ∀ w, w ≠ v → s'.vt w = s.vt w) (hthis : (s'.vt v).this = some v)
    (hfl : (s'.vt v).flags = .alloc) :
    Good s' f ∧ s'.remaining (f .act) = s.remaining (f .act) := by
  have hv : v ∉ f .act := hu .act
  have hgap : ∀ w ∈ f .act, s'.gap w = s.gap w := by
    intro w hw
    unfold gap
    rw [hne w (fun e => hv (e ▸ hw))]
  have hspan : span s'.gap (f .act).dropLast = span s.gap (f .act).dropLast :=
    span_congr (fun w hw => hgap w (List.mem_of_mem_dropLast hw))
  have hrem : s'.remaining (f .act) = s.remaining (f .act) := by
    unfold TimerSt.remaining
    rw [he]
    exact decode_congr (fun w hw => hgap w (List.mem_of_mem_dropLast hw))
  refine ⟨⟨⟨?_, hexp ▸ h.reads.exp, fun w => ?_⟩, ⟨?_, ?_⟩, ho.trans h.periodic, ?_, fun w => ?_,
    fun w hw => ?_, fun w => ?_⟩, hrem⟩
  · rcases hq with hq | hq
    · rw [hq]
      exact h.reads.q
    · rw [hq]
      exact h.reads.q.rstLink hu
  · by_cases hw : w = v
    · rw [hw]
      exact hthis
    · rw [hne w hw]
      exact h.reads.this w
  · rw [hspan, he]
    exact h.timed.bound
  · rw [hspan, hm]
    exact h.timed.maxper
  · rw [he]
    exact h.live
  · by_cases hw : w = v
    · rw [hw, hfl]
      simp [hv]
    · rw [hne w hw]
      exact h.activeQ w
  · by_cases hwv : w = v
    · rw [hwv, hfl] at hw
      cases hw
    · rw [hne w hwv] at hw
      exact h.freeQ w hw
  · by_cases hw : w = v
    · rw [hw, hfl]
      exact nofun
    · rw [hne w hw]
      exact h.expiredQ w

/-- A timer in no list has the status of an allocated timer. -/
theorem Good.flags_of_unlinked (h : Good s f) (hu : Chains.Unlinked f v) :
    (s.vt v).flags = .alloc := by
  cases hfl : (s.vt v).flags with
  | alloc => rfl
  | freeQ => exact absurd (h.freeQ v hfl) (hu .free)
  | activeQ => exact absurd ((h.activeQ v).mp hfl) (hu .act)
  | expiredQ => exact absurd hfl (h.expiredQ v)

theorem stop_refines (h : Good s f) (hv : v ∈ f .act) :
    ∃ s' f', s.vtimerStop v = some s' ∧ Refines s s' f f' (.stop v) ∧ Chains.Unlinked f' v := by
  obtain ⟨s1, f1, hs1, hr1, hu1, hfl1⟩ := rmv_refines h hv
  let s' : TimerSt := (s1.upd v (fun t => { t with nextexp := 0, flags := .alloc })).linkRst v
  have hne : ∀ w, w ≠ v → s'.vt w = s1.vt w := by
    intro w hw
    simp [s', linkRst, upd, hw]
  have hprio : ∀ w, (s'.vt w).priority = (s1.vt w).priority := by
    intro w
    by_cases hw : w = v
    · subst hw
      simp [s', linkRst, upd]
    · rw [hne w hw]
  obtain ⟨hg, hrem⟩ := hr1.good.rewrite hu1 s' (.inr rfl) rfl rfl rfl rfl hne
    (by simp [s', linkRst]) (by simp [s', linkRst])
  refine ⟨s', f1, ?_, ⟨hg, ?_, fun w hw => (hprio w).trans (hr1.priority w hw), hr1.ticks⟩, hu1⟩
  · unfold vtimerStop
    simp only [(h.activeQ v).mpr hv, hs1]
    rfl
  · have hb := hr1.board
    unfold TimerSt.board at hb ⊢
    rw [hrem]
    exact hb

theorem stop_idle (h : Good s f) (hu : Chains.Unlinked f v) :
    ∃ s', s.vtimerStop v = some s' ∧ Good s' f ∧ s'.remaining (f .act) = s.remaining (f .act) ∧
      (∀ w, (s'.vt w).priority = (s.vt w).priority) ∧ s'.ticks = s.ticks := by
  let s' : TimerSt := (s.upd v (fun t => { t with nextexp := 0, flags := .alloc })).linkRst v
  have hne : ∀ w, w ≠ v → s'.vt w = s.vt w := by
    intro w hw
    simp [s', linkRst, upd, hw]
  obtain ⟨hg, hrem⟩ := h.rewrite hu s' (.inr rfl) rfl rfl rfl rfl hne
    (by simp [s', linkRst]) (by simp [s', linkRst])
  refine ⟨s', ?_, hg, hrem, fun w => ?_, rfl⟩
  · unfold vtimerStop
    simp only [h.flags_of_unlinked hu]
    rfl
  · by_cases hw : w = v
    · subst hw
      simp [s', linkRst, upd]
    · rw [hne w hw]

theorem remove_of_notMem (hv : v ∉ xs) : remove v (s.remaining xs) = s.remaining xs := by
  unfold remove
  rw [List.filter_eq_self]
  intro a ha
  have hm : a.1 ∈ xs := mem_decode_fst ha
  simp only [ne_eq, decide_eq_true_eq]
  exact fun e => hv (e ▸ hm)

/-- The last part of `MRT_vtimer_free`: the descriptor is reset and goes to the free
    list. -/
private theorem toFree_good (h : Good s f) (hu : Chains.Unlinked f v) :
    ∃ s', ((s.vtimerRst v).upd v (fun t => { t with flags := .freeQ })).freeApp v = some s' ∧
      Good s' (update f .free (f .free ++ [v])) ∧
      s'.remaining (f .act) = s.remaining (f .act) ∧
      (∀ w, w ≠ v → s'.vt w = s.vt w) ∧ s'.ticks = s.ticks := by
  let s1 := s.vtimerRst v
  let s2 := s1.upd v (fun t => { t with flags := .freeQ })
  have hne1 : ∀ w, w ≠ v → s1.vt w = s.vt w := by
    intro w hw
    simp [s1, vtimerRst, linkRst, upd, hw]
  obtain ⟨hg1, hrem1⟩ := h.rewrite hu s1 (.inr rfl) rfl rfl rfl rfl hne1
    (by simp [s1, vtimerRst, linkRst]) (by simp [s1, vtimerRst, linkRst])
  have hne2 : ∀ w, w ≠ v → s2.vt w = s1.vt w := fun w hw => upd_vt_ne _ _ _ _ hw
  have hgap : s2.gap = s1.gap := by
    funext w
    by_cases hw : w = v
    · subst hw
      simp [gap, s2]
    · simp [gap, hne2 w hw]
  obtain ⟨q', hq', hr⟩ := hg1.reads.q.app .free hu
  let s' : TimerSt := { s2 with q := q' }
  refine ⟨s', ?_, ⟨⟨hr, ?_, fun w => ?_⟩, ⟨?_, ?_⟩, hg1.periodic, ?_, fun w => ?_, fun w hw => ?_,
    fun w => ?_⟩, ?_, fun w hw => (hne2 w hw).trans (hne1 w hw), rfl⟩
  · unfold freeApp
    rw [show s2.q.app .free v = some q' from hq']
  · exact hg1.reads.exp.congr (fun p => by simp)
  · by_cases hw : w = v
    · subst hw
      simpa [s', s2] using hg1.reads.this w
    · show (s2.vt w).this = _
      rw [hne2 w hw]
      exact hg1.reads.this w
  · rw [update_of_ne (by simp), show s'.gap = s1.gap from hgap]
    exact hg1.timed.bound
  · rw [update_of_ne (by simp), show s'.gap = s1.gap from hgap]
    exact hg1.timed.maxper
  · rw [update_of_ne (by simp)]
    exact hg1.live
  · rw [update_of_ne (by simp)]
    by_cases hw : w = v
    · subst hw
      simpa [s', s2] using hu .act
    · show (s2.vt w).flags = _ ↔ _
      rw [hne2 w hw]
      exact hg1.activeQ w
  · rw [update_self]
    by_cases hwv : w = v
    · simp [hwv]
    · rw [show s'.vt w = s1.vt w from hne2 w hwv] at hw
      exact List.mem_append_left _ (hg1.freeQ w hw)
  · by_cases hw : w = v
    · subst hw
      simp [s', s2]
    · rw [show s'.vt w = s1.vt w from hne2 w hw]
      exact hg1.expiredQ w
  · rw [← hrem1]
    unfold TimerSt.remaining
    rw [show s'.gap = s1.gap from hgap]
    rfl

theorem free_refines (h : Good s f) (ha : s.Allowed (.free v)) :
    ∃ s' f', s.step (.free v) = some s' ∧ Refines s s' f f' (.free v) := by
  -- the stop takes the timer out of the active queue, if it is there
  have hstop : ∃ s1 f1, s.vtimerStop v = some s1 ∧ Good s1 f1 ∧ Chains.Unlinked f1 v ∧
      s1.remaining (f1 .act) = remove v (s.remaining (f .act)) ∧
      (∀ p, f1 (.exp p) = f (.exp p)) ∧
      (∀ w ∈ f1 .act, (s1.vt w).priority = (s.vt w).priority) ∧ s1.ticks = s.ticks := by
    rcases ha with hact | hidle
    · rw [h.list_eq] at hact
      obtain ⟨s1, f1, hs1, hr, hu⟩ := stop_refines h hact
      refine ⟨s1, f1, hs1, hr.good, hu, ?_, fun p => ?_, hr.priority, by simpa using hr.ticks⟩
      · exact congrArg Board.armed hr.board
      · exact congrFun (congrArg Board.expired hr.board) p
    · have hu := h.idle.mp hidle
      obtain ⟨s1, hs1, hg, hrem, hpr, htk⟩ := stop_idle h hu
      refine ⟨s1, f, hs1, hg, hu, ?_, fun _ => rfl, fun w _ => hpr w, htk⟩
      rw [hrem, remove_of_notMem (hu .act)]
  obtain ⟨s1, f1, hs1, hg1, hu1, hrem1, hexp1, hpr1, htk1⟩ := hstop
  obtain ⟨s', hs', hg', hrem', hne', htk'⟩ := toFree_good hg1 hu1
  refine ⟨s', _, ?_, ⟨hg', ?_, fun w hw => ?_, by simp [htk', htk1]⟩⟩
  · show s.vtimerFree v = _
    unfold vtimerFree
    simp only [hs1]
    exact hs'
  · unfold TimerSt.board
    rw [update_of_ne (by simp), hrem', hrem1]
    simp only [Board.step]
    congr 1
    funext p
    rw [update_of_ne (by simp), hexp1]
  · rw [update_of_ne (by simp)] at hw
    have hwv : w ≠ v := fun e => hu1 .act (e ▸ hw)
    rw [hne' w hwv]
    exact hpr1 w hw

theorem alloc_refines (h : Good s f) (per lim : BitVec 32) (act : Act) (par owner : Int)
    (pty : Prty) :
    ∃ s' f', s.step (.alloc per lim act par owner pty) = some s' ∧
      Refines s s' f f' (.alloc per lim act par owner pty) := by
  have hsame : Refines s s f f (.alloc per lim act par owner pty) :=
    ⟨h, rfl, fun _ _ => rfl, by simp⟩
  by_cases hno : f .free = [] ∨ per = 0 ∨ maxPer < per
  · refine ⟨s, f, ?_, hsame⟩
    simp only [TimerSt.step, vtimerAlloc_refused h.reads hno, map_some]
  · obtain ⟨hnil, hper⟩ := not_or.mp hno
    obtain ⟨x, xs, hf⟩ := List.exists_cons_of_ne_nil hnil
    obtain ⟨s', hs', hr, ht, hgap, heq⟩ :=
      vtimerAlloc_spec h.reads h.timed hf hper lim act par owner pty
    have hx : x ∈ f .free := by rw [hf]; exact List.mem_cons_self
    have hxact : x ∉ f .act := by simpa using h.reads.q.unlinked_erase hx .act
    have hne : ∀ w, w ≠ x → s'.vt w = s.vt w := by
      intro w hw
      rw [heq]
      exact upd_vt_ne _ _ _ _ hw
    have hself : (s'.vt x).flags = .alloc := by rw [heq, upd_vt_self]
    have hearly : s'.earliest = s.earliest := by rw [heq, upd_earliest]
    have hact : update f .free xs .act = f .act := update_of_ne (by simp) _ _
    refine ⟨s', update f .free xs, ?_, ⟨⟨hr, by rw [hact]; exact ht, ?_, ?_,
      fun w => ?_, fun w hw => ?_, fun w => ?_⟩, ?_, fun w hw => ?_, ?_⟩⟩
    · simp only [TimerSt.step, hs', map_some]
    · rw [heq, upd_oneshot]
      exact h.periodic
    · rw [hact, hearly]
      exact h.live
    · rw [hact]
      by_cases hw : w = x
      · subst hw
        rw [hself]
        exact iff_of_false (by simp) hxact
      · rw [hne w hw]
        exact h.activeQ w
    · by_cases hwx : w = x
      · subst hwx
        rw [hself] at hw
        cases hw
      · rw [hne w hwx] at hw
        have hmem := h.freeQ w hw
        rw [hf] at hmem
        rw [update_self]
        exact (List.mem_cons.mp hmem).resolve_left hwx
    · by_cases hw : w = x
      · subst hw
        rw [hself]
        exact nofun
      · rw [hne w hw]
        exact h.expiredQ w
    · unfold TimerSt.board TimerSt.remaining
      rw [hact, hgap, hearly]
      simp only [Board.step]
      congr 1
    · rw [hact] at hw
      rw [hne w (fun e => hxact (e ▸ hw))]
    · rw [heq, upd_ticks]
      simp

theorem prog_refines (h : Good s f) (per lim : BitVec 32) (act : Act) (par : Int) (pty : Prty)
    (ha : s.Allowed (.prog v per lim act par pty)) :
    ∃ s' f', s.step (.prog v per lim act par pty) = some s' ∧
      Refines s s' f f' (.prog v per lim act par pty) := by
  have hu := h.idle.mp ha
  let s' := s.program v per lim act par pty
  have hne : ∀ w, w ≠ v → s'.vt w = s.vt w := fun w hw => upd_vt_ne _ _ _ _ hw
  obtain ⟨hg, hrem⟩ := h.rewrite hu s' (.inl rfl) rfl rfl rfl rfl hne
    (by simpa [s', program] using h.reads.this v)
    (by simpa [s', program] using h.flags_of_unlinked hu)
  refine ⟨s', f, rfl, ⟨hg, ?_, fun w hw => ?_, by simp [s', program]⟩⟩
  · unfold TimerSt.board
    rw [hrem]
    rfl
  · rw [hne w (fun e => hu .act (e ▸ hw))]

theorem take_refines (h : Good s f) (ha : s.Allowed (.take v)) :
    ∃ s' f', s.step (.take v) = some s' ∧ Refines s s' f f' (.take v) := by
  let p := (s.vt v).priority
  have hv : v ∈ f (.exp p) := by
    rw [← h.list_eq]
    exact ha
  obtain ⟨hr, hp⟩ := plistRmv_reads h.reads.q h.reads.exp TimerQ.exp_injective p hv
  refine ⟨s.expRmv v p, update f (.exp p) ((f (.exp p)).erase v), rfl,
    ⟨⟨⟨hr, hp, h.reads.this⟩, ⟨?_, ?_⟩, h.periodic, ?_, fun w => ?_, fun w hw => ?_, h.expiredQ⟩,
    ?_, fun w _ => rfl, by simp [expRmv]⟩⟩
  · rw [update_of_ne (by simp)]
    exact h.timed.bound
  · rw [update_of_ne (by simp)]
    exact h.timed.maxper
  · rw [update_of_ne (by simp)]
    exact h.live
  · rw [update_of_ne (by simp)]
    exact h.activeQ w
  · rw [update_of_ne (by simp)]
    exact h.freeQ w hw
  · unfold TimerSt.board
    rw [update_of_ne (by simp)]
    simp only [Board.step]
    congr 1
    funext q
    by_cases hq : q = p
    · subst hq
      simp [p]
    · rw [update_of_ne (by simpa using hq), update_of_ne hq]

theorem tick_refines (h : Good s f) :
    ∃ s' f', s.step .tick = some s' ∧ Refines s s' f f' .tick := by
  obtain ⟨s0, s', f', hs', h0, htr⟩ := clockIrq_spec h.reads h.timed h.periodic h.live
  have hord : Ordered (elapse (s.remaining (f .act))) := decode_ordered.elapse
  have hfst : (elapse (s.remaining (f .act))).map Prod.fst = f .act := by
    unfold elapse
    rw [List.map_map]
    exact decode_fst
  have hact : ∀ w, w ∈ f' .act ↔ w ∈ f .act ∧ w ∉ due (elapse (s.remaining (f .act))) := by
    intro w
    have hnd : ((elapse (s.remaining (f .act))).map Prod.fst).Nodup := by
      rw [hfst]
      exact h.reads.q.nodup .act
    have hiff := mem_pending_iff hord hnd (w := w)
    rw [hfst] at hiff
    rw [mem_remaining_fst (s := s'), htr.remaining]
    exact hiff
  refine ⟨s', f', hs', ⟨⟨htr.reads, htr.timed, htr.core.oneshot.trans (h0.oneshot.trans h.periodic),
    ?_, fun w => ?_, fun w hw => ?_, fun w => ?_⟩, ?_, fun w _ => ?_, ?_⟩⟩
  · refine live_of_pos (fun a ha => ?_)
    rw [htr.remaining] at ha
    exact mem_pending_pos hord ha
  · rw [htr.flags w, hact w, h0.vt, ← h.activeQ w]
    by_cases hw : w ∈ due (elapse (s.remaining (f .act)))
    · simp [hw]
    · simp [hw]
  · rw [htr.flags w, h0.vt] at hw
    rw [htr.free]
    by_cases hd : w ∈ due (elapse (s.remaining (f .act)))
    · rw [if_pos hd] at hw
      cases hw
    · rw [if_neg hd] at hw
      exact h.freeQ w hw
  · rw [htr.flags w, h0.vt]
    by_cases hd : w ∈ due (elapse (s.remaining (f .act)))
    · simp [hd]
    · rw [if_neg hd]
      exact h.expiredQ w
  · unfold TimerSt.board
    rw [htr.remaining]
    simp only [Board.step]
    congr 1
    funext p
    rw [htr.expired p, h0.vt]
  · rw [htr.core.priority, h0.vt]
  · rw [htr.core.ticks, h0.ticks]
    simp

/-- **REFINEMENT**: every allowed step succeeds, keeps the invariant and is the step
    of the board. -/
theorem step_refines (h : Good s f) (ha : s.Allowed e) :
    ∃ s' f', s.step e = some s' ∧ Refines s s' f f' e := by
  cases e with
  | alloc per lim act par owner pty => exact alloc_refines h per lim act par owner pty
  | free v => exact free_refines h ha
  | prog v per lim act par pty => exact prog_refines h per lim act par pty ha
  | ins v => exact ins_refines h ha
  | rmv v =>
    have hv : v ∈ f .act := by rw [← h.list_eq]; exact ha
    obtain ⟨s', f', hs', hr, -⟩ := rmv_refines h hv
    exact ⟨s', f', hs', hr⟩
  | stop v =>
    have hv : v ∈ f .act := by rw [← h.list_eq]; exact ha
    obtain ⟨s', f', hs', hr, -⟩ := stop_refines h hv
    exact ⟨s', f', hs', hr⟩
  | take v => exact take_refines h ha
  | tick => exact tick_refines h

/-! ## The initial state -/

/-- The initialisation succeeds, with every timer in the free list. -/
theorem init_good : ∃ s0, vtimerInit = some s0 ∧ ∃ f, Good s0 f := by
  obtain ⟨s', hs', h⟩ := vtimerInitLoop_spec zero rfl
  have hact : initLists (List.finRange 16) .act = [] := rfl
  have hflags : ∀ v, (s'.vt v).flags = .alloc := fun v => (h.vt v (List.mem_finRange v)).1
  refine ⟨s', hs', initLists (List.finRange 16), h.reads rfl, h.timed rfl, h.oneshot,
    fun hne => absurd hact hne, fun v => ?_, fun v hv => ?_, fun v => ?_⟩
  · rw [hflags v, hact]
    simp
  · rw [hflags v] at hv
    cases hv
  · rw [hflags v]
    exact nofun

end TimerSt

/-! ## Timers on the board

    `vs` stands for timers that are armed for the same time, in queue order. -/

section Board

variable {t : VT → Timer} {b : Board} {e : TEvent} {vs : List VT} {d : Nat} {p : Prty}

private theorem map_sublist_remove {q : List (VT × Nat)} {w : VT} (hw : w ∉ vs)
    (h : (vs.map (·, d)).Sublist q) : (vs.map (·, d)).Sublist (remove w q) := by
  have hkeep : (vs.map (·, d)).filter (fun a => a.1 ≠ w) = vs.map (·, d) := by
    rw [List.filter_eq_self]
    intro a ha
    obtain ⟨x, hx, rfl⟩ := List.mem_map.mp ha
    simp only [ne_eq, decide_eq_true_eq]
    exact fun hxw => hw (hxw ▸ hx)
  rw [← hkeep]
  exact h.filter _

/-- Between two clock interrupts armed timers keep their time and their order. -/
theorem Board.armed_step (h : (vs.map (·, d)).Sublist b.armed) (he : e ≠ .tick)
    (hv : ∀ v ∈ vs, ¬ e.Removes v) : (vs.map (·, d)).Sublist (b.step t e).armed := by
  cases e with
  | alloc per lim act par owner pty | prog v per lim act par pty | take w => exact h
  | free w | rmv w | stop w => exact map_sublist_remove (fun hm => hv w hm rfl) h
  | ins w => exact h.trans (sublist_enqueue _ _ _)
  | tick => exact absurd rfl he

private theorem map_sublist_elapse {q : List (VT × Nat)} (h : (vs.map (·, d + 1)).Sublist q) :
    (vs.map (·, d)).Sublist (elapse q) := by
  have := h.map (fun a : VT × Nat => (a.1, a.2 - 1))
  rw [List.map_map] at this
  exact this

/-- A clock interrupt takes one tick off. -/
theorem Board.armed_tick (h : (vs.map (·, d + 2)).Sublist b.armed) (hord : Ordered b.armed) :
    (vs.map (·, d + 1)).Sublist (b.step t .tick).armed := by
  show List.Sublist _ (pending (elapse b.armed))
  rw [hord.elapse.pending_eq]
  have hkeep : (vs.map (·, d + 1)).filter (fun a => a.2 ≠ 0) = vs.map (·, d + 1) := by
    rw [List.filter_eq_self]
    intro a ha
    obtain ⟨x, -, rfl⟩ := List.mem_map.mp ha
    simp
  rw [← hkeep]
  exact (map_sublist_elapse h).filter _

/-- At the last tick the timers enter their expired list, in order. -/
theorem Board.expire_tick (h : (vs.map (·, 1)).Sublist b.armed) (hord : Ordered b.armed)
    (hp : ∀ v ∈ vs, (t v).priority = p) : vs.Sublist ((b.step t .tick).expired p) := by
  have hdue : vs.Sublist (due (elapse b.armed)) := by
    rw [hord.elapse.due_eq]
    have hkeep : (vs.map (·, 0)).filter (fun a => a.2 = 0) = vs.map (·, 0) := by
      rw [List.filter_eq_self]
      intro a ha
      obtain ⟨x, -, rfl⟩ := List.mem_map.mp ha
      simp
    have hmap : (vs.map (·, 0)).map Prod.fst = vs := by
      rw [List.map_map]
      exact List.map_id vs
    rw [← hmap, ← hkeep]
    exact ((map_sublist_elapse h).filter _).map _
  have hlevel : vs.filter (fun w => (t w).priority = p) = vs := by
    rw [List.filter_eq_self]
    intro v hv
    simpa using hp v hv
  have := hdue.filter (fun w => decide ((t w).priority = p))
  rw [hlevel] at this
  exact this.trans (List.sublist_append_right _ _)

/-- Expired timers stay in order until they are taken out. -/
theorem Board.expired_step (h : vs.Sublist (b.expired p)) (hv : ∀ v ∈ vs, ¬ e.Removes v) :
    vs.Sublist ((b.step t e).expired p) := by
  cases e with
  | take w =>
    have hw : w ∉ vs := fun hm => hv w hm rfl
    show vs.Sublist (update b.expired (t w).priority _ p)
    by_cases hp : p = (t w).priority
    · subst hp
      rw [update_self]
      have := h.erase w
      rwa [List.erase_of_not_mem hw] at this
    · rwa [update_of_ne hp]
  | tick => exact h.trans (List.sublist_append_left _ _)
  | alloc per lim act par owner pty | prog v per lim act par pty | free w | ins w | rmv w
  | stop w => exact h

end Board

/-! ## Runs -/

namespace TimerSt

variable {s s' : TimerSt} {f f' : TimerQ → List VT} {e : TEvent} {es es' : List TEvent} {v w : VT}

theorem run_cons (h : s.step e = some s') : s.run (e :: es) = s'.run es := by
  simp only [TimerSt.run, h]

theorem AllowedRun.tail
    (h : s.AllowedRun (e :: es)) (hs : s.step e = some s') : s'.AllowedRun es := by
  have := h.2
  simp only [hs] at this
  exact this

theorem run_append {s1 : TimerSt} :
    ∀ {s : TimerSt}, s.run es = some s1 → s.run (es ++ es') = s1.run es' := by
  induction es with
  | nil =>
    intro s h
    rw [some.inj h]
    rfl
  | cons e es ih =>
    intro s h
    simp only [List.cons_append, TimerSt.run] at h ⊢
    cases hs : s.step e with
    | none =>
      rw [hs] at h
      cases h
    | some s' =>
      rw [hs] at h
      exact ih h

theorem AllowedRun.append :
    ∀ {s s1 : TimerSt}, s.AllowedRun (es ++ es') → s.run es = some s1 → s1.AllowedRun es' := by
  induction es with
  | nil =>
    intro s s1 h hr
    rw [← some.inj hr]
    exact h
  | cons e es ih =>
    intro s s1 h hr
    simp only [TimerSt.run] at hr
    cases hs : s.step e with
    | none =>
      rw [hs] at hr
      cases hr
    | some s' =>
      rw [hs] at hr
      exact ih (h.tail hs) hr

theorem AllowedRun.left : ∀ {s : TimerSt}, s.AllowedRun (es ++ es') → s.AllowedRun es := by
  induction es with
  | nil => intro s _; trivial
  | cons e es ih =>
    intro s h
    refine ⟨h.1, ?_⟩
    cases hs : s.step e with
    | none => trivial
    | some s' => exact ih (h.tail hs)

/-- The invariant holds along every run, and no run gets stuck. -/
theorem Good.run : ∀ {s : TimerSt} {f : TimerQ → List VT}, Good s f →
    s.AllowedRun es → ∃ s' f', s.run es = some s' ∧ Good s' f' := by
  induction es with
  | nil => intro s f h _; exact ⟨s, f, rfl, h⟩
  | cons e es ih =>
    intro s f h ha
    obtain ⟨s1, f1, hs1, hr⟩ := step_refines h ha.1
    obtain ⟨s', f', hs', hg⟩ := ih hr.good (ha.tail hs1)
    exact ⟨s', f', by rw [run_cons hs1, hs'], hg⟩

theorem Reachable.good (h : Reachable s) : ∃ f, Good s f := by
  obtain ⟨s0, es, h0, ha, hr⟩ := h
  obtain ⟨s0', h0', f0, hg0⟩ := init_good
  have he : s0 = s0' := some.inj (h0.symm.trans h0')
  subst he
  obtain ⟨s', f', hs', hg⟩ := hg0.run ha
  have he : s = s' := some.inj (hr.symm.trans hs')
  subst he
  exact ⟨f', hg⟩

/-- What `k` clock interrupts have made of the timers `vs`, armed together with `d`
    ticks left. -/
structure Tracked (s : TimerSt) (f : TimerQ → List VT) (vs : List VT) (p : Prty) (d k : Nat) :
    Prop where
  armed : k < d → (vs.map (·, d - k)).Sublist (s.remaining (f .act)) ∧
    ∀ v ∈ vs, (s.vt v).priority = p
  expired : d ≤ k → vs.Sublist (f (.exp p))

/-- One step of the tracking: a clock interrupt moves it on by one. -/
theorem Tracked.step {vs : List VT} {p : Prty}
    {d k : Nat} (h : Tracked s f vs p d k) (hr : Refines s s' f f' e)
    (hv : ∀ v ∈ vs, ¬ e.Removes v) :
    Tracked s' f' vs p d (k + if e = .tick then 1 else 0) := by
  have hord : Ordered (s.board f).armed := decode_ordered
  have harm : s'.remaining (f' .act) = ((s.board f).step s.vt e).armed :=
    congrArg Board.armed hr.board
  have hexp : f' (.exp p) = ((s.board f).step s.vt e).expired p :=
    congrFun (congrArg Board.expired hr.board) p
  have hprio : ∀ j, (vs.map (·, j)).Sublist (s'.remaining (f' .act)) →
      (∀ v ∈ vs, (s.vt v).priority = p) → ∀ v ∈ vs, (s'.vt v).priority = p := by
    intro j hsub hp v hvm
    have hmem : (v, j) ∈ s'.remaining (f' .act) :=
      hsub.subset (List.mem_map_of_mem hvm)
    rw [hr.priority v (mem_decode_fst hmem)]
    exact hp v hvm
  by_cases he : e = .tick
  · subst he
    rw [if_pos rfl]
    refine ⟨fun hk => ?_, fun hk => ?_⟩
    · obtain ⟨hsub, hp⟩ := h.armed (by omega)
      obtain ⟨j, hj⟩ : ∃ j, d - k = j + 2 := ⟨d - k - 2, by omega⟩
      rw [hj] at hsub
      have hsub' : (vs.map (·, d - (k + 1))).Sublist (s'.remaining (f' .act)) := by
        rw [harm, show d - (k + 1) = j + 1 from by omega]
        exact Board.armed_tick hsub hord
      exact ⟨hsub', hprio _ hsub' hp⟩
    · rw [hexp]
      by_cases hkd : d ≤ k
      · exact Board.expired_step (h.expired hkd) hv
      · obtain ⟨hsub, hp⟩ := h.armed (by omega)
        rw [show d - k = 1 from by omega] at hsub
        exact Board.expire_tick hsub hord hp
  · rw [if_neg he, Nat.add_zero]
    refine ⟨fun hk => ?_, fun hk => ?_⟩
    · obtain ⟨hsub, hp⟩ := h.armed hk
      have hsub' : (vs.map (·, d - k)).Sublist (s'.remaining (f' .act)) := by
        rw [harm]
        exact Board.armed_step hsub he hv
      exact ⟨hsub', hprio _ hsub' hp⟩
    · rw [hexp]
      exact Board.expired_step (h.expired hk) hv

/-- The tracking over a whole run. -/
theorem Tracked.run {vs : List VT} {p : Prty} {d : Nat} :
    ∀ {s : TimerSt} {f : TimerQ → List VT} {k : Nat}, Good s f → Tracked s f vs p d k →
      s.AllowedRun es → (∀ e ∈ es, ∀ v ∈ vs, ¬ e.Removes v) →
      ∃ s' f', s.run es = some s' ∧ Good s' f' ∧ Tracked s' f' vs p d (k + es.count .tick) ∧
        s'.ticks = s.ticks + BitVec.ofNat 32 (es.count .tick) := by
  induction es with
  | nil =>
    intro s f k hg ht _ _
    exact ⟨s, f, rfl, hg, ht, by simp⟩
  | cons e es ih =>
    intro s f k hg ht ha hv
    obtain ⟨s1, f1, hs1, hr⟩ := step_refines hg ha.1
    have ht1 := ht.step hr (hv e (by simp))
    obtain ⟨s', f', hs', hg', ht', htk⟩ :=
      ih hr.good ht1 (ha.tail hs1) (fun e' he' => hv e' (by simp [he']))
    refine ⟨s', f', by rw [run_cons hs1, hs'], hg', ?_, ?_⟩
    · rw [List.count_cons]
      by_cases he : e = .tick
      · subst he
        rw [if_pos rfl, Nat.add_assoc, Nat.add_comm 1] at ht'
        simpa using ht'
      · simpa [he] using ht'
    · rw [htk, hr.ticks, List.count_cons]
      by_cases he : e = .tick
      · subst he
        simp only [if_true, beq_self_eq_true, BitVec.ofNat_add, BitVec.add_assoc]
        rw [BitVec.add_comm 1]
        rfl
      · simp [he]

/-- After its insertion a timer is armed for its whole period. -/
theorem Tracked.of_ins (hr : Refines s s' f f' (.ins v)) (hone : 1 ≤ (s.vt v).period.toNat) :
    Tracked s' f' [v] (s.vt v).priority (s.vt v).period.toNat 0 := by
  have harm : s'.remaining (f' .act) = enqueue v (s.vt v).period.toNat (s.remaining (f .act)) :=
    congrArg Board.armed hr.board
  have hmem : (v, (s.vt v).period.toNat) ∈ s'.remaining (f' .act) := by
    rw [harm]
    exact mem_enqueue.mpr (.inl rfl)
  refine ⟨fun _ => ⟨List.singleton_sublist.mpr hmem, fun w hw => ?_⟩, fun hz => ?_⟩
  · rw [List.mem_singleton.mp hw]
    exact hr.priority v (mem_decode_fst hmem)
  · omega

/-- A timer inserted for the time another one is armed for is armed behind it. -/
theorem Tracked.of_ins_second {p : Prty}
    {d k : Nat} (ht : Tracked s f [v] p d k) (hr : Refines s s' f f' (.ins w))
    (hone : 1 ≤ (s.vt w).period.toNat) (hd : d = k + (s.vt w).period.toNat)
    (hp : (s.vt w).priority = p) :
    Tracked s' f' [v, w] p (s.vt w).period.toNat 0 := by
  obtain ⟨hsub, hpv⟩ := ht.armed (by omega)
  have hmem : (v, (s.vt w).period.toNat) ∈ s.remaining (f .act) := by
    have := List.singleton_sublist.mp hsub
    rwa [show d - k = (s.vt w).period.toNat from by omega] at this
  have harm : s'.remaining (f' .act) = enqueue w (s.vt w).period.toNat (s.remaining (f .act)) :=
    congrArg Board.armed hr.board
  have hpair : ([v, w].map (·, (s.vt w).period.toNat)).Sublist (s'.remaining (f' .act)) := by
    rw [harm]
    exact Ordered.pair_enqueue decode_ordered hmem
  refine ⟨fun _ => ⟨hpair, fun x hx => ?_⟩, fun hz => ?_⟩
  · have hact : x ∈ f' .act := mem_decode_fst (hpair.subset (List.mem_map_of_mem hx))
    rw [hr.priority x hact]
    rcases List.mem_cons.mp hx with rfl | hx
    · exact hpv x (by simp)
    · rw [List.mem_singleton.mp hx]
      exact hp
  · omega

/-- **EVERY TIMER EXPIRES ON TIME.**  In the periodic mode, a timer inserted in any
    reachable state and not removed since is in the active queue until as many
    clock interrupts as its period have come, and in the expired list of its
    priority from then on, whatever happens to other timers meanwhile.  A timer
    inserted later for the same tick and the same priority stands behind it there. -/
theorem vtimer_expires_on_time (s : TimerSt) (hs : Reachable s) (v : VT) (es : List TEvent)
    (hrun : s.AllowedRun (.ins v :: es)) (hkeep : ∀ e ∈ es, ¬ e.Removes v) :
    ∃ s', s.run (.ins v :: es) = some s' ∧
      s'.ticks = s.ticks + BitVec.ofNat 32 (es.count .tick) ∧
      (es.count .tick < (s.vt v).period.toNat →
        v ∈ s'.list .act ∧ ∀ p, v ∉ s'.list (.exp p)) ∧
      ((s.vt v).period.toNat ≤ es.count .tick →
        v ∉ s'.list .act ∧ v ∈ s'.list (.exp (s.vt v).priority)) ∧
      ∀ es1 w es2 s1, es = es1 ++ .ins w :: es2 → s.run (.ins v :: es1) = some s1 →
        (∀ e ∈ es2, ¬ e.Removes w) →
        (s.vt v).period.toNat = es1.count .tick + (s1.vt w).period.toNat →
        (s1.vt w).priority = (s.vt v).priority →
        (s.vt v).period.toNat ≤ es.count .tick →
        [v, w].Sublist (s'.list (.exp (s.vt v).priority)) := by
  obtain ⟨f, hg⟩ := hs.good
  have hone : 1 ≤ (s.vt v).period.toNat := hrun.1.2.1
  obtain ⟨s1, f1, hs1, hr⟩ := step_refines hg hrun.1
  have ht1 := Tracked.of_ins hr hone
  have hkeep1 : ∀ e ∈ es, ∀ x ∈ [v], ¬ e.Removes x := by
    intro e he x hx
    rw [List.mem_singleton.mp hx]
    exact hkeep e he
  obtain ⟨s', f', hs', hg', ht', htk⟩ := ht1.run hr.good (hrun.tail hs1) hkeep1
  rw [Nat.zero_add] at ht'
  refine ⟨s', by rw [run_cons hs1, hs'], ?_, fun hk => ?_, fun hk => ?_, ?_⟩
  · have htk1 : s1.ticks = s.ticks := by simpa using hr.ticks
    rw [htk, htk1]
  · obtain ⟨hsub, -⟩ := ht'.armed hk
    have hact : v ∈ f' .act := mem_decode_fst (List.singleton_sublist.mp hsub)
    rw [hg'.list_eq]
    refine ⟨hact, fun p hp => ?_⟩
    rw [hg'.list_eq] at hp
    exact nomatch hg'.reads.q.disj _ _ v hact hp
  · have hexp := List.singleton_sublist.mp (ht'.expired hk)
    rw [hg'.list_eq, hg'.list_eq]
    refine ⟨fun hact => ?_, hexp⟩
    exact nomatch hg'.reads.q.disj _ _ v hact hexp
  · rintro es1 w es2 t hes ht hkeepw hper hprio hcount
    subst hes
    -- up to the second insertion the first timer is tracked alone, then both are
    have hrun1 := hrun.tail hs1
    obtain ⟨t', g, ht'', hgt, htrk, -⟩ := ht1.run hr.good hrun1.left
      (fun e he x hx => hkeep1 e (List.mem_append_left _ he) x hx)
    rw [run_cons hs1] at ht
    have he : t' = t := some.inj (ht''.symm.trans ht)
    subst he
    rw [Nat.zero_add] at htrk
    have hrun2 := hrun1.append ht
    obtain ⟨t2, g2, ht2, hr2⟩ := step_refines hgt hrun2.1
    have htrk2 := htrk.of_ins_second hr2 hrun2.1.2.1 hper hprio
    have hkeep2 : ∀ e ∈ es2, ∀ x ∈ [v, w], ¬ e.Removes x := by
      intro e he x hx
      rcases List.mem_cons.mp hx with rfl | hx
      · exact hkeep e (by simp [he])
      · rw [List.mem_singleton.mp hx]
        exact hkeepw e he
    obtain ⟨s2, f2, hs2, hg2, htrk', -⟩ := htrk2.run hr2.good (hrun2.tail ht2) hkeep2
    have hend : s' = s2 := by
      have h1 : s1.run (es1 ++ .ins w :: es2) = some s2 := by
        rw [run_append ht, run_cons ht2, hs2]
      exact some.inj (hs'.symm.trans h1)
    subst hend
    rw [hg2.list_eq]
    refine htrk'.expired ?_
    rw [List.count_append, List.count_cons] at hcount
    simp only [reduceCtorEq, beq_iff_eq, if_false, Nat.add_zero] at hcount
    omega

/-- Two timers of priority 2, allocated for three and for two ticks. -/
def twoTimers : TimerSt :=
  ((vtimerInit.getD zero).run [.alloc 3 1 .none 0 0 2, .alloc 2 1 .none 0 0 2]).getD zero

/-- The first is inserted, the second one tick later: both expire at the third tick,
    the first in front. -/
theorem vtimer_expires_on_time_two :
    Reachable twoTimers ∧
      ∃ s', twoTimers.run [.ins 0, .tick, .ins 1, .tick, .tick] = some s' ∧
        (0 : VT) ∉ s'.list .act ∧ [(0 : VT), 1].Sublist (s'.list (.exp 2)) := by
  have hreach : Reachable twoTimers :=
    ⟨vtimerInit.getD zero, [.alloc 3 1 .none 0 0 2, .alloc 2 1 .none 0 0 2],
      Run.eq_some_getD _ (by decide +kernel), by decide +kernel,
        Run.eq_some_getD _ (by decide +kernel)⟩
  have hper : (twoTimers.vt 0).period.toNat = 3 := by decide +kernel
  have hprio : (twoTimers.vt 0).priority = 2 := by decide +kernel
  obtain ⟨s', hs', -, -, hexp, hfifo⟩ := vtimer_expires_on_time twoTimers hreach 0
    [.tick, .ins 1, .tick, .tick] (by decide +kernel) (by decide)
  rw [hper, hprio] at *
  refine ⟨hreach, s', hs', (hexp (by decide)).1, ?_⟩
  exact hfifo [.tick] 1 [.tick, .tick] ((twoTimers.run [.ins 0, .tick]).getD zero) rfl
    (Run.eq_some_getD _ (by decide +kernel)) (by decide) (by decide +kernel) (by decide +kernel)
    (by decide)

end TimerSt

end Vtimer
