import Minix4rt.RescalingProofs
import Minix4rt.VtimerRunProofs

/-! # The one-shot timer — the interval to the next timer interrupt

    In the one-shot mode `MRT_clock_handler` programs the PIT for the next expiration: the
    smallest period of the expired timers that will be inserted again, and the PERIOD of
    the first timer that is still active.  The ticks to its expiration are the field
    `earliest` of the active queue, and not its period.

    The interval is right EXACTLY when no expiration is farther than `MRT_MAXPER` and that
    period does no harm: it is the remaining time, or a timer that is inserted again comes
    before both.  The latch of `MRT_timer_oneshot` fits its 16 bits exactly when the
    interval is shorter than 2^17 cycles of the PIT. -/

namespace Kernel

open IntrusiveList PriorityList DeadlineQueue Vtimer

/-! ## The latch -/

/-- The value that `MRT_timer_oneshot` writes to the PIT.  `t2curr` is what it reads from
    timer 2; the comparison with `error` is one of unsigned numbers. -/
def oneshotLatch (tick2Hz oneshots period : BitVec 32) (t2curr : BitVec 16) : BitVec 32 :=
  let latch := tick2Hz * period
  let error :=
    if oneshots = 0 then 0
    else
      let realhz := 0xFFFF - t2curr.setWidth 32
      let error := realhz - latch
      if latch < error then 0 else error
  (latch - error) >>> 1

/-- The correction only shortens a latch that fits. -/
theorem oneshotLatch_fits_iff {z n p : BitVec 32} {t : BitVec 16} (h : (z * p).toNat < 2 ^ 31) :
    (oneshotLatch z n p t).toNat < 2 ^ 16 ↔ (z * p).toNat < 2 ^ 17 := by
  have hplain : ((z * p - 0) >>> 1).toNat < 2 ^ 16 ↔ (z * p).toNat < 2 ^ 17 := by
    rw [show z * p - 0 = z * p by simp, BitVec.toNat_ushiftRight, Nat.shiftRight_eq_div_pow]
    omega
  have hreal : (0xFFFF - t.setWidth 32 : BitVec 32).toNat = 65535 - t.toNat := by
    have ht := t.isLt
    rw [BitVec.toNat_sub, BitVec.toNat_setWidth]
    show (2 ^ 32 - t.toNat % 2 ^ 32 + 65535) % 2 ^ 32 = _
    omega
  unfold oneshotLatch
  dsimp only
  by_cases hn : n = 0
  · rw [if_pos hn]
    exact hplain
  · rw [if_neg hn]
    by_cases hlt : z * p < 0xFFFF - t.setWidth 32 - z * p
    · rw [if_pos hlt]
      exact hplain
    · -- the interrupt was late by `error`, which is at most the latch
      rw [if_neg hlt]
      rw [BitVec.lt_def, BitVec.toNat_sub, hreal] at hlt
      have hsmall : (z * p).toNat ≤ 65535 := by omega
      have herr : (0xFFFF - t.setWidth 32 - z * p).toNat = 65535 - t.toNat - (z * p).toNat := by
        rw [BitVec.toNat_sub, hreal]
        omega
      refine iff_of_true ?_ (by omega)
      rw [BitVec.toNat_ushiftRight, Nat.shiftRight_eq_div_pow, BitVec.toNat_sub, herr]
      omega

/-! ## The interval -/

section Interval

variable {s : TimerSt} {f : TimerQ → List VT} {q : List (VT × Nat)}

/-- The periods of the expired timers that will be inserted again. -/
def rearmed (s : TimerSt) (q : List (VT × Nat)) : List Nat :=
  ((due q).filter (fun v => decide (s.Rearms v))).map (fun v => (s.vt v).period.toNat)

/-- The ticks to the next expiration, from the queue `q` at a timer interrupt; `MRT_MAXPER`
    when there is none. -/
def ticksToNext (s : TimerSt) (q : List (VT × Nat)) : Nat :=
  (rearmed s q ++ ((pending q).head?.map Prod.snd).toList).min?.getD maxPer.toNat

/-- The interval that the handler computes. -/
def handlerTicks (s : TimerSt) (q : List (VT × Nat)) : Nat :=
  (rearmed s q ++ ((pending q).head?.map (fun a => (s.vt a.1).period.toNat)).toList).foldl min
    maxPer.toNat

/-- The condition: the next expiration is in the range of the periods, and the period of
    the first active timer is its remaining time, unless another timer comes before both. -/
structure PeriodServes (s : TimerSt) (q : List (VT × Nat)) : Prop where
  near : ticksToNext s q ≤ maxPer.toNat
  first : ∀ a ∈ (pending q).head?, (s.vt a.1).period.toNat = a.2 ∨
    ((rearmed s q).foldl min maxPer.toNat ≤ (s.vt a.1).period.toNat ∧
      (rearmed s q).foldl min maxPer.toNat ≤ a.2)

theorem foldl_min_le (xs : List Nat) (m : Nat) : xs.foldl min m ≤ m := by
  induction xs generalizing m with
  | nil => exact le_refl m
  | cons x xs ih => exact (ih (min m x)).trans (min_le_left m x)

/-- The accumulator caps the minimum. -/
theorem foldl_min_eq {m : Nat} : ∀ {xs : List Nat}, xs.foldl min m = min m (xs.min?.getD m) := by
  intro xs
  cases xs with
  | nil => exact (min_self m).symm
  | cons x xs =>
    show xs.foldl min (min m x) = min m (xs.foldl min x)
    exact List.foldl_assoc

/-- **WHEN THE INTERVAL IS RIGHT.** -/
theorem handlerTicks_eq_iff : handlerTicks s q = ticksToNext s q ↔ PeriodServes s q := by
  have hcap : ∀ o : List Nat, (rearmed s q ++ o).foldl min maxPer.toNat
      = min maxPer.toNat ((rearmed s q ++ o).min?.getD maxPer.toNat) := fun _ => foldl_min_eq
  cases hp : (pending q).head? with
  | none =>
    have hnext : handlerTicks s q = min maxPer.toNat (ticksToNext s q) := by
      unfold handlerTicks ticksToNext
      rw [hp]
      exact hcap []
    rw [hnext, min_eq_right_iff]
    exact ⟨fun h => ⟨h, fun a ha => by rw [hp] at ha; exact nomatch ha⟩, fun h => h.near⟩
  | some a =>
    have hhand : handlerTicks s q
        = min ((rearmed s q).foldl min maxPer.toNat) (s.vt a.1).period.toNat := by
      unfold handlerTicks
      rw [hp]
      exact List.foldl_append
    have hnext : min maxPer.toNat (ticksToNext s q)
        = min ((rearmed s q).foldl min maxPer.toNat) a.2 := by
      unfold ticksToNext
      rw [hp, ← hcap]
      exact List.foldl_append
    have hle := foldl_min_le (rearmed s q) maxPer.toNat
    rw [hhand]
    refine ⟨fun h => ⟨by omega, fun b hb => ?_⟩, fun h => ?_⟩
    · rw [hp] at hb
      cases hb
      omega
    · have hnear := h.near
      have hfirst := h.first a hp
      omega

/-! ## A timer interrupt -/

theorem minCtr_toNat (a b : BitVec 32) : (minCtr a b).toNat = min a.toNat b.toNat := by
  unfold minCtr
  split
  all_goals
    rename_i h
    rw [BitVec.lt_def] at h
    omega

/-- The accumulator of the loop is the smallest period of the timers inserted again. -/
theorem minexp_toNat (ho : s.oneshot = true) (m : BitVec 32) (vs : List VT) :
    (s.minexp m vs).toNat = ((vs.filter (fun v => decide (s.Rearms v))).map
      (fun v => (s.vt v).period.toNat)).foldl min m.toNat := by
  unfold TimerSt.minexp
  induction vs generalizing m with
  | nil => rfl
  | cons v vs ih =>
    rw [List.foldl_cons, ih]
    by_cases hv : s.Rearms v
    · rw [List.filter_cons_of_pos (by simpa using hv), if_pos ⟨ho, hv⟩, minCtr_toNat]
      rfl
    · rw [List.filter_cons_of_neg (by simpa using hv), if_neg (fun h => hv h.2)]

/-- The queue at a timer interrupt of the one-shot mode: the first timer is due. -/
def atInterrupt (s : TimerSt) : List (VT × Nat) := decode s.gap 0 (s.list .act)

/-- **A TIMER INTERRUPT** of the one-shot mode moves the due timers to the expired lists and
    hands `handlerTicks` to `MRT_timer_oneshot`. -/
theorem clockIrq_oneshot (hr : s.Reads f) (ht : s.Timed (f .act)) (ho : s.oneshot = true) :
    ∃ s', s.clockIrq = some s' ∧ s'.oneshotPer.toNat = handlerTicks s (atInterrupt s) := by
  let s0 : TimerSt := { s with earliest := 0 }
  have hr0 : s0.Reads f := { hr with }
  have ht0 : s0.Timed (f .act) := by
    have hb := ht.bound
    refine ⟨?_, ht.maxper⟩
    show 0 + span s.gap _ < _
    omega
  have hlen : (f .act).length < 17 := by
    have hcard := (hr.q.nodup .act).length_le_card
    rw [Fintype.card_fin] at hcard
    omega
  obtain ⟨s1, f1, hs1, htr⟩ := TimerSt.clockLoop_spec 17 maxPer hr0 ht0 hlen
  have hq : s0.remaining (f .act) = atInterrupt s := by
    unfold atInterrupt
    rw [show s.list .act = f .act from hr.q.list_eq .act]
    rfl
  rw [hq] at hs1 htr
  have hmin : (s0.minexp maxPer (due (atInterrupt s))).toNat
      = (rearmed s (atInterrupt s)).foldl min maxPer.toNat := minexp_toNat (s := s0) ho _ _
  have ho1 : s1.oneshot = true := htr.core.oneshot.trans ho
  have hper : ∀ v, (s1.vt v).period = (s.vt v).period := by
    intro v
    rw [htr.core.vt v]
  -- the first timer that is still active heads the pending part of the queue
  have hfirst : (pending (atInterrupt s)).head?.map Prod.fst = (f1 .act).head? := by
    rw [← htr.remaining, ← List.head?_map, TimerSt.remaining, decode_fst]
  have hirq : s.clockIrq = s0.clockHandler := if_pos ho
  rw [hirq]
  unfold TimerSt.clockHandler
  rw [hs1]
  dsimp only
  rw [if_pos ho1, htr.reads.q.first_eq]
  unfold handlerTicks
  rw [List.foldl_append, ← hmin]
  cases hp : (pending (atInterrupt s)).head? with
  | none =>
    rw [hp] at hfirst
    rw [← hfirst]
    exact ⟨_, rfl, rfl⟩
  | some a =>
    rw [hp] at hfirst
    rw [← hfirst]
    refine ⟨{ s1 with
      oneshotPer := minCtr (s0.minexp maxPer (due (atInterrupt s))) (s1.vt a.1).period }, ?_, ?_⟩
    · simp only [Option.map_some, htr.reads.this a.1]
    show (minCtr _ (s1.vt a.1).period).toNat = _
    rw [minCtr_toNat, hper]
    rfl

end Interval

namespace Conf

variable {c c' : Conf} {f : TimerQ → List VT}

/-- `MRT_timer_oneshot`, with the latch that it writes. -/
def timerOneshot (c : Conf) (period : BitVec 32) (t2curr : BitVec 16) : Conf × BitVec 32 :=
  ({ c with oneshots := c.oneshots + 1, sys := c.sys.setIrq clockLine },
    oneshotLatch c.tick2Hz c.oneshots period t2curr)

/-- The `CLOCK_IRQ` branch of `MRT_IRQ_dispatch` in the one-shot mode. -/
def clockOneshot (c : Conf) (t2curr : BitVec 16) : Option (Conf × BitVec 32) :=
  c.sys.k.tm.clockIrq.map (fun tm =>
    { c with sys := { c.sys with k := { c.sys.k with tm := tm } } }.timerOneshot tm.oneshotPer
      t2curr)

/-- **ONE-SHOT PROGRAMMING.**  At every timer interrupt of the one-shot mode, whatever the
    active queue holds, the handler programs the PIT; the interval is the number of ticks to
    the next expiration and the latch fits EXACTLY under the condition. -/
theorem oneshot_interval_iff (hr : c.sys.k.tm.Reads f) (ht : c.sys.k.tm.Timed (f .act))
    (ho : c.sys.k.tm.oneshot = true) (hz : c.tick2Hz = timerHz / c.harmonic)
    (t2curr : BitVec 16) :
    ∃ c' latch, c.clockOneshot t2curr = some (c', latch) ∧
      ((c'.sys.k.tm.oneshotPer.toNat = ticksToNext c.sys.k.tm (atInterrupt c.sys.k.tm) ∧
        latch.toNat < 2 ^ 16) ↔
      PeriodServes c.sys.k.tm (atInterrupt c.sys.k.tm) ∧
        (timerHz / c.harmonic).toNat * ticksToNext c.sys.k.tm (atInterrupt c.sys.k.tm)
          < 2 ^ 17) := by
  obtain ⟨tm, htm, hper⟩ := clockIrq_oneshot hr ht ho
  have hrate : c.tick2Hz.toNat ≤ 23863 := by
    rw [hz, BitVec.toNat_udiv]
    exact Nat.div_le_self _ _
  have hmax : tm.oneshotPer.toNat ≤ 10000 := by
    rw [hper]
    exact foldl_min_le _ _
  have hmul : (c.tick2Hz * tm.oneshotPer).toNat = c.tick2Hz.toNat * tm.oneshotPer.toNat := by
    rw [BitVec.toNat_mul]
    exact Nat.mod_eq_of_lt (lt_of_le_of_lt (Nat.mul_le_mul hrate hmax) (by decide))
  have hfit := oneshotLatch_fits_iff (z := c.tick2Hz) (n := c.oneshots) (p := tm.oneshotPer)
    (t := t2curr) (by rw [hmul]; exact lt_of_le_of_lt (Nat.mul_le_mul hrate hmax) (by decide))
  have hc : c.clockOneshot t2curr = some ({ c with
      sys := { c.sys with k := { c.sys.k with tm } } }.timerOneshot tm.oneshotPer t2curr) := by
    unfold clockOneshot
    rw [htm]
    rfl
  refine ⟨_, _, hc, ?_⟩
  rw [← hz, ← handlerTicks_eq_iff, ← hper]
  refine and_congr_right (fun heq => ?_)
  have heq : tm.oneshotPer.toNat = ticksToNext c.sys.k.tm (atInterrupt c.sys.k.tm) := heq
  rw [← heq, ← hmul]
  exact hfit

/-- Two timers, for `p` and for 10 ticks, that have just been inserted. -/
def twoArmed (p : BitVec 32) : List TEvent :=
  [.alloc p 0 .irqtrig 16 hardware 15, .alloc 10 0 .irqtrig 17 hardware 15, .ins 0, .ins 1]

/-- The one-shot mode at harmonic 1 with these timers. -/
def twoShots (p : BitVec 32) : Conf :=
  let tm := ((TimerSt.vtimerInit.getD .zero).run (twoArmed p)).getD .zero
  { softClocks with
    sys := { softClocks.sys with
      k := { softClocks.sys.k with tm := { tm with oneshot := true } } }
    tick2Hz := timerHz / 1 }

/-- The first timer is for four ticks: it comes again before the other one. -/
theorem oneshot_interval_four : ∃ c' latch, (twoShots 4).clockOneshot 0 = some (c', latch) ∧
    c'.sys.k.tm.oneshotPer.toNat = 4 ∧ latch.toNat < 2 ^ 16 := by
  have hreach : TimerSt.Reachable (((TimerSt.vtimerInit.getD .zero).run (twoArmed 4)).getD .zero) :=
    ⟨TimerSt.vtimerInit.getD .zero, twoArmed 4, Run.eq_some_getD _ (by decide +kernel),
      by decide +kernel, Run.eq_some_getD _ (by decide +kernel)⟩
  obtain ⟨f, hg⟩ := hreach.good
  obtain ⟨c', latch, hc, hiff⟩ := oneshot_interval_iff (c := twoShots 4) (f := f)
    ⟨hg.reads.q, hg.reads.exp, hg.reads.this⟩ ⟨hg.timed.bound, hg.timed.maxper⟩ rfl rfl 0
  have hnext : ticksToNext (twoShots 4).sys.k.tm (atInterrupt (twoShots 4).sys.k.tm) = 4 := by
    decide +kernel
  have hfirst : ∀ a ∈ (pending (atInterrupt (twoShots 4).sys.k.tm)).head?,
      4 ≤ ((twoShots 4).sys.k.tm.vt a.1).period.toNat ∧ 4 ≤ a.2 := by decide +kernel
  have hcap : (rearmed (twoShots 4).sys.k.tm (atInterrupt (twoShots 4).sys.k.tm)).foldl min
      maxPer.toNat = 4 := by decide +kernel
  rw [hnext] at hiff
  refine ⟨c', latch, hc, hiff.mpr ⟨⟨by rw [hnext]; decide, fun a ha => .inr ?_⟩, by decide⟩⟩
  rw [hcap]
  exact hfirst a ha

/-- **THE DEFECT.**  The first timer is for seven ticks.  The other one expires three ticks
    later, but the PIT is programmed for seven; and their 167041 cycles give a latch of
    83520, beyond 16 bits. -/
theorem oneshot_period_for_remaining :
    ∃ c' latch, (twoShots 7).clockOneshot 0 = some (c', latch) ∧
      ticksToNext (twoShots 7).sys.k.tm (atInterrupt (twoShots 7).sys.k.tm) = 3 ∧
      c'.sys.k.tm.oneshotPer.toNat = 7 ∧ latch.toNat = 83520 := by
  have h : ((twoShots 7).clockOneshot 0).any (fun r => decide (
      r.1.sys.k.tm.oneshotPer.toNat = 7 ∧ r.2.toNat = 83520)) = true := by decide +kernel
  obtain ⟨⟨c', latch⟩, hc, hp⟩ := (Option.any_eq_true _ _).mp h
  exact ⟨c', latch, hc, by decide +kernel, of_decide_eq_true hp⟩

end Conf

end Kernel
