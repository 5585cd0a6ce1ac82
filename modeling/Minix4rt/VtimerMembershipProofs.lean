import Minix4rt.IpcInvariantProofs

/-! # Timer membership — in which queue a virtual timer is, and what its flags say

    `VT_FREEQ`, `VT_ACTIVEQ`, `VT_EXPIREDQ` and `VT_ALLOC` are to tell in which queue a
    timer is, and `MRT_vtimer_stop` trusts them.  The code sets `VT_EXPIREDQ` nowhere:
    `MRT_clock_handler` leaves `VT_ALLOC` in an expired timer, so a stop finds nothing to
    remove and resets the link of a timer that stays in `expQ`.

    Here the membership is read off the pointers and compared with the flags, in every
    state of every run. -/

namespace Kernel

open ListPool Vtimer KState TimerSt

variable {s s₀ s₁ : KState} {t t' : TimerSt} {v w : VT} {p : Proc}

/-! ## Reading the queues -/

/-- All the queues of timers. -/
def timerQs : List TimerQ := .free :: .act :: (List.finRange 16).map .exp

/-- The queues in which the timer `v` is met, once for every time it is met. -/
def occurrences (t : TimerSt) (v : VT) : List TimerQ := t.q.occurs timerQs v

/-- The timer is linked exactly once, in the queue its flags name, or nowhere. -/
def AsFlagged (t : TimerSt) (v : VT) : Prop :=
  match (t.vt v).flags with
  | .freeQ => occurrences t v = [.free]
  | .activeQ => occurrences t v = [.act]
  | .expiredQ => ∃ k, occurrences t v = [.exp k]
  | .alloc => occurrences t v = []

/-- The timer is in the expired queue. -/
def Expired (t : TimerSt) (v : VT) : Prop := ∃ k, occurrences t v = [.exp k]

/-- From `t` to `t'` the timer `v` has left its queue, and every other timer has stayed. -/
def OnlyLeft (t t' : TimerSt) (v : VT) : Prop :=
  occurrences t' v = [] ∧ ∀ w, w ≠ v → occurrences t' w = occurrences t w

theorem mem_timerQs (i : TimerQ) : i ∈ timerQs := by
  cases i with
  | free => exact List.mem_cons_self
  | act => exact List.mem_cons_of_mem _ List.mem_cons_self
  | exp k =>
    exact List.mem_cons_of_mem _ (List.mem_cons_of_mem _
      (List.mem_map_of_mem (List.mem_finRange k)))

theorem nodup_timerQs : timerQs.Nodup := by decide

/-- In well-formed queues a timer is met where it is placed. -/
theorem occurrences_eq {pl : VT → Option TimerQ} (h : t.Placed pl) (v : VT) :
    occurrences t v = (pl v).toList := by
  obtain ⟨f, hf, -, hpl⟩ := h
  exact hf.occurs_eq hpl nodup_timerQs mem_timerQs v

theorem TimersOk.occurrences (h : TimersOk t) (v : VT) :
    Kernel.occurrences t v = (t.place v).toList :=
  occurrences_eq h.placed v

theorem TimersOk.expired_iff (h : TimersOk t) : Expired t v ↔ ∃ k, t.place v = some (.exp k) := by
  rw [Expired, TimersOk.occurrences h]
  cases t.place v <;> simp

theorem TimersOk.free_iff (h : TimersOk t) :
    Kernel.occurrences t v = [.free] ↔ t.place v = some .free := by
  rw [TimersOk.occurrences h]
  cases t.place v <;> simp

/-! ## Flags -/

/-- A timer is where its flags say unless it has expired; a timer in the free list has
    to be flagged for that. -/
theorem TimersOk.asFlagged_iff (h : TimersOk t)
    (hold : t.place v = some .free → (t.vt v).flags = .freeQ) :
    AsFlagged t v ↔ ¬ Expired t v := by
  have hfit := h.fits v
  rw [TimersOk.expired_iff h, AsFlagged, TimersOk.occurrences h]
  cases hv : t.place v with
  | none =>
    rw [hv] at hfit
    simp [hfit.flags_alloc nofun nofun]
  | some i =>
    rw [hv] at hfit
    cases i with
    | free => simp [hold hv]
    | act => simp [hfit.act.mpr rfl]
    | exp k => simp [hfit.flags_alloc (by simp) (by simp)]

/-- `MRT_vtimer_init` leaves `VT_ALLOC` in the timers of the free list. -/
theorem vtimerInit_flags (h : vtimerInit = some t) (v : VT) : (t.vt v).flags = .alloc := by
  have hall : vtimerInit.all (fun t => decide (∀ v, (t.vt v).flags = .alloc)) = true := by
    decide +kernel
  rw [h, Option.all_some, decide_eq_true_eq] at hall
  exact hall v

/-- So right after the boot no timer is where its flags say. -/
theorem Initial.not_asFlagged (h : Initial s) (v : VT) : ¬ AsFlagged s.tm v := by
  obtain ⟨hok, hfree⟩ := vtimerInit_free h.tm
  rw [AsFlagged, vtimerInit_flags h.tm v, TimersOk.occurrences hok, hfree v]
  exact fun hf => nomatch hf

/-! ## Stopping -/

/-- `MRT_vtimer_stop` of a timer that has not expired takes it out of its queue and
    moves no other. -/
theorem TimersOk.stop_onlyLeft (h : TimersOk t)
    (hv : t.place v = none ∨ t.place v = some .act) (hs : t.vtimerStop v = some t') :
    OnlyLeft t t' v := by
  have hm := moved_vtimerStop h hv hs
  refine ⟨?_, fun w hw => ?_⟩
  · rw [occurrences_eq hm.wf, hm.place_self]
    rfl
  · rw [occurrences_eq hm.wf, hm.place_ne hw, TimersOk.occurrences h]

/-- An expired timer stays in its list: `VT_ALLOC` makes the stop reset its link only. -/
theorem TimersOk.stop_expired {k : Prty} (h : TimersOk t) (hv : t.place v = some (.exp k))
    (hs : t.vtimerStop v = some t') : Kernel.occurrences t' v ≠ [] := by
  have hfit := h.fits v
  rw [hv] at hfit
  simp only [vtimerStop, hfit.flags_alloc (by simp) (by simp), Option.some.injEq] at hs
  subst hs
  obtain ⟨f, hf, -, hpl⟩ := h.placed
  exact IntrusiveList.Chains.occurs_ne_nil (mem_timerQs (.exp k))
    (hf.mem_list_rstLink ((hpl v _).mpr hv))

theorem TimersOk.stop_iff (h : TimersOk t) (hv : t.place v ≠ some .free)
    (hs : t.vtimerStop v = some t') : OnlyLeft t t' v ↔ ¬ Expired t v := by
  rw [TimersOk.expired_iff h]
  constructor
  · rintro ⟨hnil, -⟩ ⟨k, hk⟩
    exact TimersOk.stop_expired h hk hs hnil
  · intro hne
    refine TimersOk.stop_onlyLeft h ?_ hs
    cases hp : t.place v with
    | none => exact .inl rfl
    | some i =>
      cases i with
      | free => exact absurd hp hv
      | act => exact .inr rfl
      | exp k => exact absurd ⟨k, hp⟩ hne

/-- The repair of the deltas faults where it goes through the back pointer of the timer
    before the leaver, and this is broken. -/
theorem rmvDelta_eq_none_iff :
    t.rmvDelta v = none ↔ (t.q.hdr .act).first ≠ some v ∧ t.prevThis v = none := by
  rw [rmvDelta]
  by_cases hf : (t.q.hdr .act).first = some v
  · by_cases hl : (t.q.hdr .act).last = some v <;> simp [hf, hl]
  · cases hp : t.prevThis v with
    | none => by_cases hl : (t.q.hdr .act).last = some v <;> simp [hf, hl]
    | some q => by_cases hl : (t.q.hdr .act).last = some v <;> simp [hf, hl]

/-- The stop of a timer that is not free faults only where `MRT_vtimer_rmv` goes through
    the back pointer that a timed sleep has broken. -/
theorem TimersOk.stop_faults_iff (h : TimersOk t) (hv : t.place v ≠ some .free) :
    t.vtimerStop v = none ↔ Kernel.occurrences t v = [.act] ∧
      ∃ w, (t.q.lk v).prev = some w ∧ (t.vt w).this = none := by
  have hfit := h.fits v
  obtain ⟨f, hf, -, hpl⟩ := h.placed
  have hocc : Kernel.occurrences t v = [.act] ↔ t.place v = some .act := by
    rw [TimersOk.occurrences h]
    cases t.place v <;> simp
  rw [hocc]
  cases hfl : (t.vt v).flags with
  | alloc =>
    have hna : t.place v ≠ some .act := by
      intro ha
      rw [hfit.act.mpr ha] at hfl
      cases hfl
    simp [vtimerStop, hfl, hna]
  | expiredQ => exact absurd hfl hfit.noexp
  | freeQ => exact absurd (hfit.free hfl) hv
  | activeQ =>
    have hact := hfit.act.mp hfl
    have hstop : t.vtimerStop v = none ↔ t.rmvDelta v = none := by
      cases hd : t.rmvDelta v <;> simp [vtimerStop, hfl, vtimerRmv, hd]
    rw [hstop, rmvDelta_eq_none_iff, prevThis]
    rcases hf.prev_cases ((hpl v _).mpr hact) with ⟨h1, h2⟩ | ⟨h1, w, h2⟩
    · simp [h1, h2]
    · simp [h1, h2, hact]

/-! ## Every run -/

/-- **TIMER MEMBERSHIP.**  A timer that has been handed out once since the boot is linked
    at most once; it is where its flags say exactly when it has not expired; and if it is
    allocated, a stop takes it out of its queue, and moves no other timer, exactly when it
    has not expired.  The stop faults only behind the timer of a timed sleep.  The timer
    of a running process, and one that has just been taken from the expired queue, are in
    no queue, so nothing is inserted twice.  A timer never handed out is not where its
    flags say. -/
theorem vtimer_membership (h0 : Initial s₀) (h1 : ReachBy Quiet s₀ s₁)
    (hv : occurrences s₁.tm v ≠ [.free]) (h2 : ReachBy Quiet s₁ s) :
    (∀ w, ¬ AsFlagged s₀.tm w) ∧ (occurrences s.tm v).length ≤ 1 ∧
    (AsFlagged s.tm v ↔ ¬ Expired s.tm v) ∧
    (occurrences s.tm v ≠ [.free] →
      (∀ t, s.tm.vtimerStop v = some t → (OnlyLeft s.tm t v ↔ ¬ Expired s.tm v)) ∧
      (s.tm.vtimerStop v = none ↔ occurrences s.tm v = [.act] ∧
        ∃ w, (s.tm.q.lk v).prev = some w ∧ (s.tm.vt w).this = none)) ∧
    (∀ p, (s.procs p).ipcvt = some v → s.rtReady p = true → occurrences s.tm v = []) ∧
    (Expired s.tm v → occurrences (s.tm.expRmv v (s.tm.vt v).priority) v = []) := by
  have hi1 := h1.ipcOk h0
  have hv1 : s₁.tm.place v ≠ some .free := fun e => hv ((TimersOk.free_iff hi1.timers.tm).mpr e)
  -- from `s₁` on, `v` counts as handed out
  have hi1' : IpcOk (fun w => w = v) false none s₁ := by
    refine ⟨⟨hi1.timers.calm, hi1.timers.tm, hi1.timers.own, hi1.timers.slot, hi1.timers.pvt,
      hi1.timers.armed, ?_⟩, hi1.msgs⟩
    rintro w rfl hw
    exact absurd hw hv1
  have hi := h2.ipcOk_from hi1'
  have hok := hi.timers.tm
  refine ⟨h0.not_asFlagged, ?_, TimersOk.asFlagged_iff hok (hi.timers.old v rfl), fun hnf => ?_,
    fun p hp hr => ?_, fun he => ?_⟩
  · rw [TimersOk.occurrences hok]
    cases s.tm.place v <;> simp
  · have hnf' : s.tm.place v ≠ some .free := fun e => hnf ((TimersOk.free_iff hok).mpr e)
    exact ⟨fun t ht => TimersOk.stop_iff hok hnf' ht, TimersOk.stop_faults_iff hok hnf'⟩
  · rw [TimersOk.occurrences hok, hi.timers.idle hp (by simpa [rtReady] using hr)]
    rfl
  · obtain ⟨k, hk⟩ := (TimersOk.expired_iff hok).mp he
    have hprio := (hok.fits v).prio k hk
    have hm := moved_expRmv hok.placed (hprio.symm ▸ hk)
    rw [occurrences_eq hm.wf, hm.place_self]
    rfl

/-! ## A concrete run -/

/-- Process 14 becomes an RT process and waits for a message for one tick. -/
def waitOneTick : List Event :=
  [.rtk 14 goodEnv .set2rt, .rtk 14 goodEnv (.receive (fromAny 1))]

/-- Then process 15 becomes an RT process, the timer of 14 expires, and 15 sends a message
    before the flush. -/
def sendBeforeFlush : List Event :=
  waitOneTick ++ [.rtk 15 goodEnv .set2rt, .tick, .rtk 15 goodEnv (.arqst (withProc 14 forever))]

/-- **THE STOP OF AN EXPIRED TIMER LEAVES IT IN `expQ`.**  Process 14 has received its
    message and waits no more, but its timer 0 is still linked in the list of its
    priority, and carries `VT_ALLOC`. -/
theorem stopped_timer_stays_expired :
    (boot.run sendBeforeFlush).map (fun s =>
        ((s.procs 14).ipcvt, (s.procs 14).st, (s.tm.vt 0).flags, occurrences s.tm 0)) =
      some (some 0, .clear, .alloc, [.exp 10]) := by
  decide +kernel

/-- The timer of process 14 while it waits. -/
theorem vtimer_membership_waiting :
    ∃ s₁ s, ReachBy Quiet boot s₁ ∧ occurrences s₁.tm 0 ≠ [.free] ∧ ReachBy Quiet s₁ s ∧
      occurrences s.tm 0 = [.act] ∧ (AsFlagged s.tm 0 ↔ ¬ Expired s.tm 0) := by
  obtain ⟨s₁, h1, hfree, hrest⟩ : ∃ s₁, ReachBy Quiet boot s₁ ∧ occurrences s₁.tm 0 ≠ [.free] ∧
      (s₁.runBy Quiet [.rtk 14 goodEnv (.receive (fromAny 1))]).any (fun s =>
        decide (occurrences s.tm 0 = [.act])) = true :=
    ReachBy.of_run [.rtk 14 goodEnv .set2rt] (by decide +kernel)
  obtain ⟨s, h2, hs⟩ := ReachBy.of_run _ hrest
  exact ⟨s₁, s, h1, hfree, h2, hs, (vtimer_membership boot_initial h1 hfree h2).2.2.1⟩

end Kernel
