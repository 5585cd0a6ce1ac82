import Minix4rt.EnterRtProofs
import Minix4rt.VtimerQueueProofs

/-! # Timed sleep — a sleeper with a timeout is not woken by its timer

    `MRT_sleep` resets the link of the IPC timer by hand before it starts the timer, and
    passes the address of the pointer `rp->ipcvt` where the address of the timer belongs.
    The clock handler goes from a link to its timer through this pointer, so the timer of a
    timed sleep never gets into the expired queue: at the tick at which it is due the handler
    works on memory that is no timer.

    The result is an equivalence: of all the calls of `MRT_sleep` by a running RT process,
    those with the timeout `MRT_FOREVER`, which start no timer, do what a sleep is to do. -/

namespace Vtimer.TimerSt

open IntrusiveList

variable {t t' t'' : TimerSt} {w : VT}

theorem Expires.trans (h : Expires t t') (h' : Expires t' t'') : Expires t t'' := by
  refine ⟨h'.ok, fun v => ?_⟩
  rcases h.each v with ⟨hp, hu⟩ | ⟨h1, h2, hp, hu⟩
  · have hthis : (t'.vt v).this = (t.vt v).this := undelta_this hu
    have hprio : (t'.vt v).priority = (t.vt v).priority := by
      simp only [Timer.undelta, Timer.mk.injEq] at hu
      tauto
    rcases h'.each v with ⟨hp', hu'⟩ | ⟨h1', h2', hp', hu'⟩
    · exact .inl ⟨hp'.trans hp, hu'.trans hu⟩
    · refine .inr ⟨hp ▸ h1', hthis ▸ h2', hprio ▸ hp', hu'.trans ?_⟩
      simp only [Timer.undelta, Timer.mk.injEq] at hu ⊢
      tauto
  · -- a timer in the expired queue is not moved again
    rcases h'.each v with ⟨hp', hu'⟩ | ⟨h1', -⟩
    · exact .inr ⟨h1, h2, hp'.trans hp, hu'.trans hu⟩
    · rw [hp] at h1'
      cases h1'

/-- The other timers of the active queue run out when they would have done so. -/
def OthersDue (w : VT) (t t' : TimerSt) : Prop :=
  (t'.remaining (t'.list .act)).filter (fun a => a.1 ≠ w) =
    (t.remaining (t.list .act)).filter (fun a => a.1 ≠ w)

/-- A stop of a timer in no queue only resets the timer. -/
theorem stop_idle_due (hok : TimersOk t) (hw : t.place w = none) :
    ∃ t', t.vtimerStop w = some t' ∧ OthersDue w t t' := by
  have hfl := (hok.fits w).flags_alloc (by simp [hw]) (by simp [hw])
  let t' : TimerSt := (t.upd w (fun r => { r with nextexp := 0, flags := .alloc })).linkRst w
  refine ⟨t', by simp only [vtimerStop, hfl]; rfl, ?_⟩
  obtain ⟨f, hf, -, hpl⟩ := hok.placed
  have hnot : w ∉ f .act := fun hm => by
    rw [(hpl w _).mp hm] at hw
    cases hw
  have hl : t.list .act = f .act := hf.list_eq .act
  have hl' : t'.list .act = f .act := (hf.rstLink (hpl.unlinked hw)).list_eq .act
  have hgap : ∀ v ∈ (f .act).dropLast, t'.gap v = t.gap v := by
    intro v hv
    have hvw : v ≠ w := fun he => hnot (he ▸ List.dropLast_subset _ hv)
    have hvt : t'.vt v = t.vt v := by simp [t', linkRst, upd, hvw]
    rw [gap, gap, hvt]
  have hrem : t'.remaining (f .act) = t.remaining (f .act) := DeadlineQueue.decode_congr hgap
  rw [OthersDue, hl, hl', hrem]

end Vtimer.TimerSt

namespace Kernel

open ListPool Vtimer KState TimerSt Option

variable {s s' s₀ : KState} {p : Proc} {w : VT} {n : BitVec 32} {v : Env} {i : Nat}

/-! ## Ticks -/

/-- A tick changes the timers only. -/
theorem run_ticks : ∀ {i : Nat} {s : KState}, s.tm.TimersOk →
    s.run (List.replicate i .tick) = some s' →
      s' = { s with tm := s'.tm } ∧ Expires s.tm s'.tm := by
  intro i
  induction i with
  | zero =>
    intro s hok h
    cases h
    exact ⟨rfl, .refl hok⟩
  | succ i ih =>
    intro s hok h
    obtain ⟨s1, h1, h2⟩ := bind_eq_some_iff.mp h
    obtain ⟨t, ht, rfl⟩ := map_eq_some_iff.mp h1
    have he := clockIrq_expires hok ht
    obtain ⟨hs, he'⟩ := ih he.ok h2
    exact ⟨hs, he.trans he'⟩

/-- What the ticks make of the timers depends on the timers only. -/
theorem run_ticks_congr : ∀ {i : Nat} {s r s2 r2 : KState}, s.tm = r.tm →
    s.run (List.replicate i .tick) = some s2 → r.run (List.replicate i .tick) = some r2 →
      s2.tm = r2.tm := by
  intro i
  induction i with
  | zero =>
    intro s r s2 r2 htm h h'
    cases h
    cases h'
    exact htm
  | succ i ih =>
    intro s r s2 r2 htm h h'
    obtain ⟨s1, h1, h2⟩ := bind_eq_some_iff.mp h
    obtain ⟨r1, h1', h2'⟩ := bind_eq_some_iff.mp h'
    obtain ⟨t, ht, rfl⟩ := map_eq_some_iff.mp h1
    obtain ⟨u, hu, rfl⟩ := map_eq_some_iff.mp h1'
    rw [htm, hu] at ht
    cases ht
    exact ih (s := { s with tm := t }) (r := { r with tm := t }) rfl h2 h2'

/-! ## The sleep that is asked for -/

/-- The process `p` sleeps and is in no ready queue. -/
def Asleep (s : KState) (p : Proc) : Prop :=
  (s.procs p).st.sleep = true ∧ ∀ l, p ∉ s.rq.pool.list (.level none l)

/-- The process `p` is in the ready queue exactly once, and its timer `w` is in no queue. -/
def Awake (s : KState) (p : Proc) (w : VT) : Prop :=
  (s.procs p).st.sleep = false ∧ s.tm.place w = none ∧
    ∀ l, (s.rq.pool.list (.level none l)).count p = if s.rq.prio p = l then 1 else 0

/-- What a call of `MRT_sleep` by `p` with the timeout `n` is to do, when nothing but clock
    interrupts and one wake-up happens after it. -/
structure SleepsFor (s : KState) (p : Proc) (n : BitVec 32) (s1 : KState) (w : VT) : Prop where
  returns : ({ s with cur := p } : KState).sleep p n = some (s1, .ok)
  timer : (s.procs p).ipcvt = some w
  asleep : Asleep s1 p
  -- the other timers expire as if the call had not been made
  others : ∀ i s2 r2, s1.run (List.replicate i .tick) = some s2 →
    s.run (List.replicate i .tick) = some r2 → OthersDue w r2.tm s2.tm
  -- nothing happens before the timeout is over
  pending : n ≠ forever → ∀ i < n.toNat, ∃ s2, s1.run (List.replicate i .tick) = some s2 ∧
    s2.tm.place w = some .act
  -- then the timer has expired, and its action wakes the process
  wakes : n ≠ forever → ∃ s2, s1.run (List.replicate n.toNat .tick) = some s2 ∧
    s2.tm.place w = some (.exp (s1.rq.prio p)) ∧
    ∀ v, ∃ s3, s2.vtimerRun v w = some s3 ∧ Awake s3 p w ∧ OthersDue w s2.tm s3.tm
  -- an earlier wake-up makes it ready and cancels the timer
  woken : ∀ i s2 v, (n ≠ forever → i < n.toNat) → s1.run (List.replicate i .tick) = some s2 →
    ∃ s3, s2.wakeup v p = some (s3, .ok) ∧ Awake s3 p w ∧ OthersDue w s2.tm s3.tm

/-- The call of `MRT_sleep` by `p` with the timeout `n` does what it is to do. -/
def TimedSleep (s : KState) (p : Proc) (n : BitVec 32) : Prop :=
  ∃ s1 w, SleepsFor s p n s1 w

/-! ## Which sleeps are right -/

/-- The timer of a timed sleep is active with a broken back pointer. -/
theorem IpcOk.sleep_timer {O : VT → Prop} {b : Bool} {x : Option Proc} (h : IpcOk O b x s)
    (hrun : Running s) (hw : (s.procs s.cur).ipcvt = some w) (hf : n ≠ forever) (h0 : n ≠ noWait)
    (hs : s.sleep s.cur n = some (s', .ok)) :
    s'.tm.place w = some .act ∧ (s'.tm.vt w).this = none := by
  unfold KState.sleep at hs
  rw [if_neg (by simp [hrun.rt]), if_neg h0] at hs
  simp only [if_neg hf, hw, bind_eq_bind, bind_some, bind_eq_some_iff,
    some.injEq, Prod.mk.injEq, and_true] at hs
  obtain ⟨s1, ⟨t, ht, rfl⟩, rfl⟩ := hs
  have hm1 := (h.timers.idle hw hrun.clear ▸ Moved.refl h.timers.tm.placed w).upd
    (fun t => { t with nextexp := 0, flags := .alloc, this := none })
  have hm2 := hm1.trans (moved_rstLink hm1.wf hm1.place_self)
  have hm3 := hm2.trans (moved_vtset hm2.wf hm2.place_self ht)
  refine ⟨hm3.place_self, (undelta_this hm3.self).trans ?_⟩
  simp

/-- No tick moves such a timer. -/
theorem broken_stays (hok : s.tm.TimersOk) (hw : s.tm.place w = some .act)
    (ht : (s.tm.vt w).this = none) (hs : s.run (List.replicate i .tick) = some s') :
    s'.tm.place w = some .act := by
  rcases (run_ticks hok hs).2.each w with ⟨hp, -⟩ | ⟨-, hthis, -⟩
  · exact hp.trans hw
  · rw [ht] at hthis
    cases hthis

/-- A sleeper whose timer is in no queue is woken by `MRT_wakeup`. -/
theorem wakeup_sleeper (hok : s.tm.TimersOk) (hr : RtOk none s)
    (hrt : (s.procs p).realtime = true) (hw : (s.procs p).ipcvt = some w)
    (hpl : s.tm.place w = none) (hst : (s.procs p).st = { Status.clear with sleep := true })
    (v : Env) : ∃ s', s.wakeup v p = some (s', .ok) ∧ Awake s' p w ∧ OthersDue w s.tm s'.tm := by
  obtain ⟨t, ht, hdue⟩ := stop_idle_due hok hpl
  have hsl : (s.procs p).st.sleep = true := by rw [hst]
  let s1 : KState := ({ s with tm := t } : KState).setSt p (fun t => { t with sleep := false })
  have hself : s1.procs p = { s.procs p with st := .clear } := by
    refine (updProc_self _ _ _).trans ?_
    show { s.procs p with st := { (s.procs p).st with sleep := false } } = _
    rw [hst]
    rfl
  have hready : s1.rtReady p = true := by
    rw [rtReady, hself]
    rfl
  have happ : ∃ s', s1.rdyQApp p = some s' := by
    obtain ⟨P, hP, -⟩ := hr.pool.papp none (s.rq.prio p)
      (rdyPlace_blocked (x := none) (s := s) (p := p) (by rw [hst]; decide) (by rw [hst]; rfl))
    rw [rdyQApp]
    split
    · exact ⟨_, rfl⟩
    · exact ⟨_, map_eq_some_iff.mpr ⟨P, hP, rfl⟩⟩
  obtain ⟨s', hs'⟩ := happ
  have hr' : RtOk none s' := by
    refine hr.wake (t := t) (by simp) hrt hsl ?_
    rw [readyIfClear, if_pos hready]
    exact hs'
  have ho := rdyQApp_only hs'
  have hself' : s'.procs p = { s.procs p with st := .clear } := by rw [ho.procs, hself]
  refine ⟨s', ?_, ⟨?_, ?_, fun l => ?_⟩, ?_⟩
  · simp only [wakeup, stopTimer, hw, ht, bind_eq_bind, bind_some]
    rw [if_neg (by simp [hsl]), if_pos hready]
    show (s1.rdyQApp p).map _ = _
    rw [hs']
    rfl
  · rw [hself']
    rfl
  · rw [ho.tm]
    exact (moved_vtimerStop hok (.inl hpl) ht).place_self
  · rw [hr'.ready_count, hself']
    simp [hrt]
  · rw [ho.tm]
    exact hdue

/-- **TIMED SLEEP.**  A running RT process calls `MRT_sleep` in a steady run: it sleeps as
    it is to do exactly if the timeout is `MRT_FOREVER`. -/
theorem timed_sleep_iff (h0 : Initial s₀) (h : ReachBy Steady s₀ s) (hp : s.canRun p = true)
    (hrt : (s.procs p).realtime = true) (hok : Steady s (.rtk p v (.sleep n))) :
    TimedSleep s p n ↔ n = forever := by
  have hrun : Running ({ s with cur := p } : KState) := by
    simp only [canRun, hrt, rtReady, Bool.not_true, Bool.false_or, Bool.and_eq_true,
      decide_eq_true_eq] at hp
    exact ⟨hrt, hp.2⟩
  have hsc : SchedOnly s { s with cur := p } := ⟨rfl, rfl, rfl, rfl, rfl⟩
  have hi : IpcOk (fun _ => False) false none { s with cur := p } :=
    (h.quiet.ipcOk h0).sched hsc
  have hr : RtOk none { s with cur := p } :=
    ⟨(h.rdyOk h0).rdyOnly ⟨hsc, rfl, rfl, rfl⟩, hok.bpip, hok.limit⟩
  constructor
  · rintro ⟨s1, w, hs⟩
    by_contra hf
    by_cases hn : n = noWait
    · -- the call returns at once
      have hret := hs.returns
      rw [KState.sleep, if_neg (by simp [hrt]), if_pos hn] at hret
      cases hret
      have hsl := hs.asleep.1
      rw [hrun.clear] at hsl
      cases hsl
    · obtain ⟨hact, hthis⟩ := hi.sleep_timer hrun hs.timer hf hn hs.returns
      obtain ⟨s2, h2, hexp, -⟩ := hs.wakes hf
      rw [broken_stays (hi.sleep hrun hs.returns).timers.tm hact hthis h2] at hexp
      cases hexp
  · rintro rfl
    obtain ⟨-, w, hw⟩ := h.quiet.equipped h0 p (by simp) hrt
    let s1 : KState := (({ s with cur := p } : KState).setSt p
      (fun t => { t with sleep := true })).rdyQRmv p
    have hs1 : ({ s with cur := p } : KState).sleep p forever = some (s1, .ok) := by
      rw [KState.sleep, if_neg (by simp [hrt]), if_neg (by decide)]
      rfl
    have hi1 := hi.sleep hrun hs1
    have hr1 := hr.sleep hrun hs1
    have hp1 : s1.procs p = { s.procs p with st := { Status.clear with sleep := true } } := by
      have hself := updProc_self ({ s with cur := p } : KState) p
        (fun r => { r with st := { r.st with sleep := true } })
      rw [hrun.clear] at hself
      exact hself
    have hst1 : (s1.procs p).st = { Status.clear with sleep := true } := by rw [hp1]
    refine ⟨s1, w, hs1, hw, ⟨by rw [hst1], fun l hl => ?_⟩, fun i s2 r2 h2 hr2 => ?_,
      fun hc => absurd rfl hc, fun hc => absurd rfl hc, fun i s2 v _ h2 => ?_⟩
    · rw [hr1.pool.mem_list, rdyPlace_ready_iff, hst1] at hl
      exact nomatch congrArg Status.sleep hl.2.1
    · rw [OthersDue, run_ticks_congr (s := s1) (r := s) rfl h2 hr2]
    · obtain ⟨hs2, he⟩ := run_ticks hi1.timers.tm h2
      have hproc : s2.procs = s1.procs := by rw [hs2]
      have hr2 : RtOk none s2 :=
        hr1.same (.of_eq (by rw [hs2]) hproc (by rw [hs2]) (by rw [hs2]))
      have hidle : s1.tm.place w = none := hi.timers.idle hw hrun.clear
      have hpl : s2.tm.place w = none := by
        rcases he.each w with ⟨hpl, -⟩ | ⟨hact, -⟩
        · exact hpl.trans hidle
        · rw [hidle] at hact
          cases hact
      refine wakeup_sleeper he.ok hr2 ?_ ?_ hpl (by rw [hproc]; exact hst1) v
      · rw [hproc, hp1]
        exact hrt
      · rw [hproc, hp1]
        exact hw

/-- Process 14 sleeps without a timeout, as it is to do. -/
theorem timed_sleep_forever : ∃ s, ReachBy Steady boot s ∧ (s.procs 14).realtime = true ∧
    TimedSleep s 14 forever := by
  obtain ⟨s, h, hrun, hrt, hok⟩ : ∃ s, ReachBy Steady boot s ∧
      s.canRun 14 = true ∧ (s.procs 14).realtime = true ∧
        Steady s (.rtk 14 goodEnv (.sleep forever)) :=
    ReachBy.of_run [.rtk 14 goodEnv .set2rt] (by decide +kernel)
  exact ⟨s, h, hrt, (timed_sleep_iff boot_initial h hrun hrt hok).mpr rfl⟩

/-- **THE TIMER DOES NOT EXPIRE.**  Process 14 sleeps for two ticks.  The first tick is
    served; at the second one the clock handler leaves the timers. -/
theorem timed_sleep_faults : ∃ s s1 s2, ReachBy Steady boot s ∧ s.canRun 14 = true ∧
    (s.procs 14).realtime = true ∧
    ({ s with cur := 14 } : KState).sleep 14 2 = some (s1, .ok) ∧
    s1.step .tick = some s2 ∧ s2.step .tick = none ∧ ¬ TimedSleep s 14 2 := by
  obtain ⟨s, h, hcan, hrt, hs⟩ : ∃ s, ReachBy Steady boot s ∧ s.canRun 14 = true ∧
      (s.procs 14).realtime = true ∧ (({ s with cur := 14 } : KState).sleep 14 2).any (fun r =>
        decide (r.2 = .ok) && (r.1.step .tick).any (fun s2 => (s2.step .tick).isNone)) = true :=
    ReachBy.of_run [.rtk 14 goodEnv .set2rt] (by decide +kernel)
  obtain ⟨⟨s1, c⟩, hs1, hs⟩ := (any_eq_true _ _).mp hs
  rw [Bool.and_eq_true, decide_eq_true_eq] at hs
  obtain ⟨rfl, hs⟩ := hs
  obtain ⟨s2, hs2, hnone⟩ := (any_eq_true _ _).mp hs
  rw [isNone_iff_eq_none] at hnone
  refine ⟨s, s1, s2, h, hcan, hrt, hs1, hs2, hnone, ?_⟩
  rintro ⟨s1', w, hsl⟩
  cases hs1.symm.trans hsl.returns
  obtain ⟨s3, h3, -⟩ := hsl.wakes (by decide)
  -- two ticks do not return
  rw [show (2 : BitVec 32).toNat = 2 from rfl] at h3
  simp [KState.run, List.replicate, hs2, hnone] at h3

end Kernel
