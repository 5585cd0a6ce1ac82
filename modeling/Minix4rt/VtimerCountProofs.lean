import Minix4rt.VtimerRunProofs
import Minix4rt.KernelMovesProofs

/-! # How often a timer runs — the limit of a virtual timer

    `MRT_vtimer_run` runs the action of an expired timer, takes it out of the expired queue
    and counts the expiration if the action returns `CONTINUE`, and starts the timer again
    while the counter is below the limit.  The counter is not reset when the timer is
    programmed or allocated again, and an action that does not return `CONTINUE` is not
    counted and does not take the timer out of its queue.

    The machine of `VtimerRunProofs` gets one more event, the run of an expired timer.
    The result is an equivalence: a timer with the limit `L` runs `L` times, a period after
    it was last started each time, and is in no queue then, exactly if its action continues
    and the counter is 0 when it is started, or `L` is 0 or 1 and the counter does not wrap
    around. -/

namespace Vtimer

open IntrusiveList PriorityList DeadlineQueue TimerSt Function Option

/-! ## The machine with runs -/

/-- Whether the action of the timer returns `CONTINUE`. -/
def Timer.continues (t : Timer) : Bool :=
  match t.action with
  | .wakeup | .periodic => false
  | .sched => decide (t.param = hardware)
  | .none | .msgown | .msgwdog | .irqtrig | .sndto | .rcvfr | .sndrcv | .debug | .stop | .down =>
    true

/-- Whether a timer is to be started again. -/
def Timer.More (t : Timer) : Prop := t.expired < t.limit ∨ t.limit = 0

instance (t : Timer) : Decidable t.More := inferInstanceAs (Decidable (_ ∨ _))

/-- What a timer has been programmed with. -/
def Timer.order (t : Timer) : BitVec 32 × BitVec 32 × Act × Int × Prty :=
  (t.period, t.limit, t.action, t.param, t.priority)

theorem undelta_order {t r : Timer} (h : t.undelta = r.undelta) :
    t.order = r.order ∧ t.expired = r.expired := by
  simp only [Timer.undelta, Timer.mk.injEq] at h
  simp only [Timer.order, Prod.mk.injEq]
  tauto

/-- What happens to the timer system: an event without a run, or a run of the timer `v`
    whose action stops the timers `stops`. -/
inductive VEvent where
  | op (e : TEvent)
  | run (v : VT) (stops : List VT)
deriving DecidableEq, Repr

/-- The events that work on the timer `v`. -/
def TEvent.Acts (v : VT) : TEvent → Prop
  | .free w | .rmv w | .stop w | .take w | .ins w | .prog w _ _ _ _ _ => w = v
  | .alloc _ _ _ _ _ _ | .tick => False

theorem TEvent.Removes.acts {v : VT} {e : TEvent} (h : e.Removes v) : e.Acts v := by
  cases e with
  | free w | rmv w | stop w | take w => exact h
  | alloc _ _ _ _ _ _ | prog _ _ _ _ _ _ | ins w | tick => exact h.elim

/-- The events that leave the timer `v` to itself: only its own runs work on it. -/
def VEvent.Spares (v : VT) : VEvent → Prop
  | .op e => ¬ e.Acts v
  | .run w stops => w = v ∨ v ∉ stops

namespace TimerSt

/-- The timers that an action stops. -/
def stopAll : TimerSt → List VT → Option TimerSt
  | s, [] => some s
  | s, w :: ws => (s.vtimerStop w).bind (fun s => s.stopAll ws)

/-- The first line of `MRT_vtimer_run`. -/
def stamp (s : TimerSt) (v : VT) : TimerSt := s.upd v (fun t => { t with timestamp := s.ticks })

/-- `MRT_vtimer_run`, with what the action does to the timers as an argument. -/
def runTimer (s : TimerSt) (v : VT) (stops : List VT) : Option TimerSt :=
  ((s.stamp v).stopAll stops).bind (fun s' =>
    if (s.vt v).continues then s'.rearm v
    else if (s'.vt v).More then s'.vtimerIns v else some s')

def vstep (s : TimerSt) : VEvent → Option TimerSt
  | .op e => s.step e
  | .run v stops => s.runTimer v stops

def vrun : TimerSt → List VEvent → Option TimerSt
  | s, [] => some s
  | s, e :: es => (s.vstep e).bind (fun s => s.vrun es)

/-- An action stops timers that are active or in no queue, and its own timer `v` only if it
    does not continue. -/
def StopsOk (v : VT) (c : Bool) : TimerSt → List VT → Prop
  | _, [] => True
  | s, w :: ws => (w ≠ v ∧ (w ∈ s.list .act ∨ s.Idle w) ∨ w = v ∧ c = false) ∧
      ∀ s' ∈ s.vtimerStop w, StopsOk v c s' ws

/-- When an event is allowed.  A timer runs while it is in the expired queue; the timer `o`
    may have any action, the actions of the others continue. -/
def VAllowed (o : Option VT) (s : TimerSt) : VEvent → Prop
  | .op e => s.Allowed e
  | .run v stops => v ∈ s.list (.exp (s.vt v).priority) ∧ 1 ≤ (s.vt v).period.toNat ∧
      (s.vt v).period.toNat < 2 ^ 31 ∧ (o = some v ∨ (s.vt v).continues = true) ∧
      StopsOk v (s.vt v).continues (s.stamp v) stops

def VAllowedRun (o : Option VT) : TimerSt → List VEvent → Prop
  | _, [] => True
  | s, e :: es => s.VAllowed o e ∧ ∀ s' ∈ s.vstep e, VAllowedRun o s' es

/-- The states of the runs in which every action continues. -/
def VReachable (s : TimerSt) : Prop :=
  ∃ s0 es, vtimerInit = some s0 ∧ VAllowedRun none s0 es ∧ s0.vrun es = some s

end TimerSt

/-- How often the timer `v` has run, and the ticks since it was last started. -/
def lap (v : VT) : Nat × Nat → VEvent → Nat × Nat
  | (n, k), .run w _ => if w = v then (n + 1, 0) else (n, k)
  | (n, k), .op e => (n, if e = .tick then k + 1 else k)

def laps (v : VT) (es : List VEvent) : Nat × Nat := es.foldl (lap v) (0, 0)

namespace TimerSt

/-- After `n` runs a timer started with the fields `t` has run for the last time. -/
def Last (t : Timer) (n : Nat) : Prop := t.limit ≠ 0 ∧ n = t.limit.toNat

instance (t : Timer) (n : Nat) : Decidable (Last t n) := inferInstanceAs (Decidable (_ ∧ _))

/-- Where the timer `v`, started with the fields `t`, has to be after `n` runs and `k` ticks
    since it was last started. -/
def OnCount (t : Timer) (v : VT) (s : TimerSt) (n k : Nat) : Prop :=
  if Last t n then s.Idle v
  else (t.limit ≠ 0 → n < t.limit.toNat) ∧
    if k < t.period.toNat then v ∈ s.list .act ∧ ∀ p, v ∉ s.list (.exp p)
    else v ∉ s.list .act ∧ v ∈ s.list (.exp t.priority)

/-- The timer `v`, started now, runs as often as its limit says: in every run that leaves
    it to itself it is active for a period, then in the expired queue until it runs, and in
    no queue when it has run for the last time. -/
def CountsRight (s : TimerSt) (v : VT) : Prop :=
  ∀ es, s.VAllowedRun (some v) (.op (.ins v) :: es) → (∀ e ∈ es, e.Spares v) →
    ∃ s', s.vrun (.op (.ins v) :: es) = some s' ∧
      OnCount (s.vt v) v s' (laps v es).1 (laps v es).2

/-! ## Sound states -/

variable {s s' s1 : TimerSt} {v w u : VT} {e : TEvent} {stops : List VT} {t : Timer}
variable {es : List VEvent} {k n : Nat}

/-- The invariant of the runs: the lists are what the deltas say, and every timer is where
    its fields say. -/
structure Sound (s : TimerSt) : Prop where
  good : Good s s.list
  ok : TimersOk s

theorem Good.of_list {f : TimerQ → List VT} (h : Good s f) : Good s s.list := by
  have hf : s.list = f := funext h.list_eq
  rw [hf]
  exact h

theorem Sound.mem (h : Sound s) (i : TimerQ) : v ∈ s.list i ↔ s.place v = some i :=
  h.ok.placed.mem_list i

theorem Sound.idle (h : Sound s) : s.Idle v ↔ s.place v = none := by
  simp only [Idle, h.mem]
  cases s.place v with
  | none => simp
  | some i => cases i <;> simp

/-- What the timer `v` keeps while others are worked on. -/
structure Spared (v : VT) (s s' : TimerSt) : Prop where
  place : s'.place v = s.place v
  fields : (s'.vt v).undelta = (s.vt v).undelta
  tracked : ∀ p d k, Tracked s s.list [v] p d k → Tracked s' s'.list [v] p d k

theorem Spared.refl (v : VT) (s : TimerSt) : Spared v s s := ⟨rfl, rfl, fun _ _ _ h => h⟩

theorem Spared.trans (h : Spared v s s1) (h' : Spared v s1 s') : Spared v s s' :=
  ⟨h'.place.trans h.place, h'.fields.trans h.fields,
    fun p d k ht => h'.tracked p d k (h.tracked p d k ht)⟩

/-- What an event without a run moves: at most one timer, one it works on or a free one,
    unless it is a tick. -/
theorem Sound.op_moved (h : Sound s) (ha : s.Allowed e) (hs : s.step e = some s') :
    s' = s ∨ (∃ w o t, Moved s s' w o t ∧ Fits t w o ∧ (e.Acts w ∨ s.place w = some .free)) ∨
      e = .tick ∧ Expires s s' := by
  have hfit := h.ok.fits
  cases e with
  | alloc per lim act par owner pty =>
    obtain ⟨⟨r, t⟩, ht, rfl⟩ := map_eq_some_iff.mp hs
    rcases moved_vtimerAlloc h.ok ht with ⟨-, he⟩ | ⟨w, -, hw, hm⟩
    · exact .inl he
    · exact .inr (.inl ⟨w, _, _, hm, Fits.alloc rfl (hfit w).this, .inr hw⟩)
  | free w =>
    have hw : s.place w = none ∨ s.place w = some .act := by
      rcases ha with ha | ha
      · exact .inr ((h.mem .act).mp ha)
      · exact .inl (h.idle.mp ha)
    refine .inr (.inl ⟨w, _, _, moved_vtimerFree h.ok hw hs, ?_, .inl rfl⟩)
    exact ⟨by simp [freed], by simp, by simp [freed], by simp, fun i hi => (some.inj hi).symm⟩
  | prog w per lim act par pty =>
    cases hs
    have hw : s.place w = none := h.idle.mp ha
    have hm := (hw ▸ Moved.refl h.ok.placed w).upd (fun t =>
      { t with period := per, limit := lim, action := act, param := par, priority := pty })
    have hf := hfit w
    rw [hw] at hf
    exact .inr (.inl ⟨w, _, _, hm, ⟨hf.act, hf.free, hf.noexp, by simp, hf.this⟩, .inl rfl⟩)
  | ins w =>
    have hm := moved_vtimerIns h.ok.placed (h.idle.mp ha.1) hs
    exact .inr (.inl ⟨w, _, _, hm, Fits.active rfl (hfit w).this, .inl rfl⟩)
  | rmv w =>
    have hm := moved_vtimerRmv h.ok.placed ((h.mem .act).mp ha) hs
    exact .inr (.inl ⟨w, _, _, hm, Fits.alloc rfl (fun i hi => (some.inj hi).symm), .inl rfl⟩)
  | stop w =>
    have hm := moved_vtimerStop h.ok (.inr ((h.mem .act).mp ha)) hs
    exact .inr (.inl ⟨w, _, _, hm, Fits.alloc rfl (fun i hi => (some.inj hi).symm), .inl rfl⟩)
  | take w =>
    cases hs
    have hpl := (h.mem _).mp ha
    have hm := moved_expRmv h.ok.placed hpl
    have hf := hfit w
    rw [hpl] at hf
    have hna : (s.vt w).flags ≠ .activeQ := fun e => by cases hf.act.mp e
    have hnf : (s.vt w).flags ≠ .freeQ := fun e => by cases hf.free e
    exact .inr (.inl ⟨w, _, _, hm, ⟨by simp [hna], by simp [hnf], hf.noexp, by simp, hf.this⟩,
      .inl rfl⟩)
  | tick => exact .inr (.inr ⟨rfl, clockIrq_expires h.ok hs⟩)

/-- **ONE EVENT WITHOUT A RUN** succeeds and keeps the invariant, and spares the timers it
    does not work on, unless it is a tick. -/
theorem Sound.op (h : Sound s) (ha : s.Allowed e) :
    ∃ s', s.step e = some s' ∧ Sound s' ∧
      (e ≠ .tick → ∀ v, ¬ e.Acts v → s.place v ≠ some .free → Spared v s s') := by
  obtain ⟨s', f', hs', hr⟩ := step_refines h.good ha
  have hf' : f' = s'.list := funext (fun i => (hr.good.list_eq i).symm)
  subst hf'
  have hmv := h.op_moved ha hs'
  have hok : TimersOk s' := by
    rcases hmv with rfl | ⟨w, o, t, hm, hf, -⟩ | ⟨-, he⟩
    · exact h.ok
    · exact hm.ok h.ok hf
    · exact he.ok
  refine ⟨s', hs', ⟨hr.good, hok⟩, fun hne v hv hfree => ?_⟩
  have htr : ∀ p d k, Tracked s s.list [v] p d k → Tracked s' s'.list [v] p d k := by
    intro p d k ht
    have := ht.step hr (fun x hx hrem => hv ((List.mem_singleton.mp hx) ▸ TEvent.Removes.acts hrem))
    rw [if_neg hne] at this
    exact this
  rcases hmv with rfl | ⟨w, o, t, hm, -, hw⟩ | ⟨he, -⟩
  · exact .refl v _
  · have hvw : v ≠ w := by
      rintro rfl
      exact hw.elim hv hfree
    exact ⟨hm.place_ne hvw, hm.same v hvw, htr⟩
  · exact absurd he hne

/-! ## The parts of a run -/

/-- A write to the time stamp or the counter of a timer is seen by nobody. -/
theorem Sound.write (h : Sound s) (w : VT) {g : Timer → Timer}
    (hg : ∀ t : Timer, (g t).flags = t.flags ∧ (g t).this = t.this ∧ (g t).nextexp = t.nextexp ∧
      (g t).priority = t.priority) :
    Sound (s.upd w g) ∧ (∀ v, v ≠ w → Spared v s (s.upd w g)) ∧
      (s.upd w g).place w = s.place w := by
  have hvt : ∀ v, ((s.upd w g).vt v).flags = (s.vt v).flags ∧
      ((s.upd w g).vt v).this = (s.vt v).this ∧ ((s.upd w g).vt v).nextexp = (s.vt v).nextexp ∧
      ((s.upd w g).vt v).priority = (s.vt v).priority := by
    intro v
    by_cases hv : v = w
    · subst hv
      rw [upd_vt_self]
      exact hg _
    · rw [upd_vt_ne _ _ _ _ hv]
      exact ⟨rfl, rfl, rfl, rfl⟩
  have hgap : (s.upd w g).gap = s.gap := by
    funext v
    rw [gap, gap, (hvt v).2.2.1]
  have hplace : (s.upd w g).place = s.place := place_of_eq rfl
  have hg' := h.good
  refine ⟨⟨⟨⟨hg'.reads.q, hg'.reads.exp, fun v => ?_⟩, ⟨?_, ?_⟩, hg'.periodic, hg'.live,
    fun v => ?_,
    fun v hv => ?_, fun v => ?_⟩, ⟨?_, fun v => ?_⟩⟩, fun v hv => ⟨congrFun hplace v, ?_, ?_⟩,
    congrFun hplace w⟩
  · rw [(hvt v).2.1]
    exact hg'.reads.this v
  · rw [hgap]
    exact hg'.timed.bound
  · rw [hgap]
    exact hg'.timed.maxper
  · rw [(hvt v).1]
    exact hg'.activeQ v
  · rw [(hvt v).1] at hv
    exact hg'.freeQ v hv
  · rw [(hvt v).1]
    exact hg'.expiredQ v
  · rw [hplace]
    exact h.ok.placed.of_eq rfl rfl
  · have hf := h.ok.fits v
    rw [hplace]
    obtain ⟨h1, h2, -, h4⟩ := hvt v
    exact ⟨h1 ▸ hf.act, h1 ▸ hf.free, h1 ▸ hf.noexp, h4 ▸ hf.prio, h2 ▸ hf.this⟩
  · rw [upd_vt_ne _ _ _ _ hv]
  · rintro p d k ⟨ha, hx⟩
    refine ⟨fun hk => ⟨?_, fun x hx' => ?_⟩, hx⟩
    · have hsub := (ha hk).1
      rw [TimerSt.remaining] at hsub ⊢
      rw [hgap]
      exact hsub
    · rw [(hvt x).2.2.2]
      exact (ha hk).2 x hx'

/-- A stop of a timer that is active or in no queue. -/
theorem Sound.stop (h : Sound s) (hw : w ∈ s.list .act ∨ s.Idle w) :
    ∃ s', s.vtimerStop w = some s' ∧ Sound s' ∧
      ∀ v, v ≠ w → s.place v ≠ some .free → Spared v s s' := by
  rcases hw with hw | hw
  · obtain ⟨s', hs', hs, hsp⟩ := h.op (e := .stop w) hw
    exact ⟨s', hs', hs, fun v hv hf => hsp (by simp) v (fun he => hv (Eq.symm he)) hf⟩
  · obtain ⟨s', hs', hg, hrem, hprio, -⟩ := stop_idle h.good (h.good.idle.mp hw)
    have hm := moved_vtimerStop h.ok (.inl (h.idle.mp hw)) hs'
    have hlist : s'.list = s.list := funext hg.list_eq
    refine ⟨s', hs', ⟨hg.of_list, hm.ok h.ok (Fits.alloc rfl (fun i hi => (some.inj hi).symm))⟩,
      fun v hv _ => ⟨hm.place_ne hv, hm.same v hv, ?_⟩⟩
    rintro p d k ⟨ha, hx⟩
    rw [hlist]
    refine ⟨fun hk => ⟨?_, fun x hx' => ?_⟩, hx⟩
    · rw [hrem]
      exact (ha hk).1
    · rw [hprio]
      exact (ha hk).2 x hx'

/-- The stops of an action that continues. -/
theorem Sound.stopAll : ∀ {stops : List VT} {s : TimerSt}, Sound s → StopsOk u true s stops →
    u ∉ stops ∧ ∃ s', s.stopAll stops = some s' ∧ Sound s' ∧
      ∀ v, v ∉ stops → s.place v ≠ some .free → Spared v s s' := by
  intro stops
  induction stops with
  | nil => exact fun {s} h _ => ⟨by simp, s, rfl, h, fun v _ _ => .refl v s⟩
  | cons w ws ih =>
    intro s h hok
    obtain ⟨hw, hws⟩ := hok
    obtain ⟨hwu, hw⟩ := hw.resolve_right (fun hf => nomatch hf.2)
    obtain ⟨s1, hs1, h1, hsp1⟩ := h.stop hw
    obtain ⟨hu, s', hs', h', hsp'⟩ := ih h1 (hws s1 hs1)
    refine ⟨by simp [Ne.symm hwu, hu], s', ?_, h', fun v hv hf => ?_⟩
    · simp only [TimerSt.stopAll, hs1, bind_some, hs']
    · have hv' : v ≠ w ∧ v ∉ ws := by simpa using hv
      have h1v := hsp1 v hv'.1 hf
      exact h1v.trans (hsp' v hv'.2 (by rw [h1v.place]; exact hf))

/-! ## One run -/

/-- What a run makes of its own timer. -/
structure Ran (u : VT) (s s' : TimerSt) : Prop where
  order : (s'.vt u).order = (s.vt u).order
  expired : (s'.vt u).expired = (s.vt u).expired + 1
  more : (s'.vt u).More → Tracked s' s'.list [u] (s.vt u).priority (s.vt u).period.toNat 0
  last : ¬ (s'.vt u).More → s'.place u = none

/-- A timer in no queue is started. -/
theorem Sound.start (h : Sound s) (ha : s.Allowed (.ins u)) :
    ∃ s', s.vtimerIns u = some s' ∧ Sound s' ∧
      (∀ v, v ≠ u → s.place v ≠ some .free → Spared v s s') ∧
      (s'.vt u).order = (s.vt u).order ∧ (s'.vt u).expired = (s.vt u).expired ∧
      Tracked s' s'.list [u] (s.vt u).priority (s.vt u).period.toNat 0 := by
  obtain ⟨s', hs', hsound, hsp⟩ := h.op ha
  obtain ⟨s1, f', hs1, hr⟩ := step_refines h.good ha
  cases hs'.symm.trans hs1
  have hf' : f' = s'.list := funext (fun i => (hr.good.list_eq i).symm)
  subst hf'
  have hm := moved_vtimerIns h.ok.placed (h.idle.mp ha.1) hs'
  obtain ⟨ho, hx⟩ := undelta_order hm.self
  exact ⟨s', hs', hsound, fun v hv hf => hsp (by simp) v (fun he => hv (Eq.symm he)) hf, ho, hx,
    Tracked.of_ins hr ha.2.1⟩

/-- The end of a run whose action continues. -/
theorem Sound.rearm (h : Sound s) (hu : s.place u = some (.exp (s.vt u).priority))
    (h1 : 1 ≤ (s.vt u).period.toNat) (h2 : (s.vt u).period.toNat < 2 ^ 31) :
    ∃ s', s.rearm u = some s' ∧ Sound s' ∧
      (∀ v, v ≠ u → s.place v ≠ some .free → Spared v s s') ∧ Ran u s s' := by
  obtain ⟨s1, hs1, hsd1, hsp1⟩ := h.op (e := .take u) ((h.mem _).mpr hu)
  cases hs1
  have hpl1 : (s.expRmv u (s.vt u).priority).place u = none :=
    (moved_expRmv h.ok.placed hu).place_self
  obtain ⟨hsd2, hsp2, hpl2⟩ := hsd1.write u (g := fun t => { t with expired := t.expired + 1 })
    (fun t => ⟨rfl, rfl, rfl, rfl⟩)
  have hvt : ((s.expRmv u (s.vt u).priority).upd u
      (fun t => { t with expired := t.expired + 1 })).vt u =
      { s.vt u with expired := (s.vt u).expired + 1 } := upd_vt_self _ _ _
  have hsp : ∀ v, v ≠ u → s.place v ≠ some .free →
      Spared v s ((s.expRmv u (s.vt u).priority).upd u
        (fun t => { t with expired := t.expired + 1 })) := by
    intro v hv hf
    exact (hsp1 (by simp) v (fun he => hv (Eq.symm he)) hf).trans (hsp2 v hv)
  generalize hs2 : (s.expRmv u (s.vt u).priority).upd u
    (fun t => { t with expired := t.expired + 1 }) = s2 at hsd2 hsp2 hpl2 hvt hsp
  have hidle : s2.place u = none := hpl2.trans hpl1
  have hrearm : s.rearm u = if (s2.vt u).More then s2.vtimerIns u else some s2 := by
    rw [TimerSt.rearm, hs2]
    rfl
  rw [hrearm]
  by_cases hmore : (s2.vt u).More
  · have ha : s2.Allowed (.ins u) := by
      refine ⟨hsd2.idle.mpr hidle, ?_, ?_⟩
      · rw [hvt]
        exact h1
      · rw [hvt]
        exact h2
    obtain ⟨s', hs', hsd', hsp', ho, hx, htr⟩ := hsd2.start ha
    rw [if_pos hmore]
    rw [hvt] at ho hx htr
    refine ⟨s', hs', hsd', fun v hv hf => ?_, ⟨ho, hx, fun _ => htr, fun hn => ?_⟩⟩
    · have hv2 := hsp v hv hf
      exact hv2.trans (hsp' v hv (by rw [hv2.place]; exact hf))
    · refine absurd ?_ hn
      simp only [Timer.order, Prod.mk.injEq] at ho
      rw [hvt] at hmore
      rw [Timer.More, hx, ho.2.1]
      exact hmore
  · rw [if_neg hmore]
    refine ⟨s2, rfl, hsd2, hsp, ⟨?_, ?_, fun hm => absurd hm hmore, fun _ => hidle⟩⟩
    · rw [hvt]
      rfl
    · rw [hvt]

/-- **A RUN WHOSE ACTION CONTINUES.** -/
theorem Sound.runTimer (h : Sound s) (ha : s.VAllowed none (.run u stops)) :
    ∃ s', s.runTimer u stops = some s' ∧ Sound s' ∧
      (∀ v, v ≠ u → v ∉ stops → s.place v ≠ some .free → Spared v s s') ∧ Ran u s s' := by
  obtain ⟨hu, h1, h2, hc, hst⟩ := ha
  have hc : (s.vt u).continues = true := hc.resolve_left (by simp)
  rw [hc] at hst
  have hpl := (h.mem _).mp hu
  obtain ⟨hsd0, hsp0, hpl0⟩ := h.write u (g := fun t => { t with timestamp := s.ticks })
    (fun t => ⟨rfl, rfl, rfl, rfl⟩)
  have hvt0 : (s.stamp u).vt u = { s.vt u with timestamp := s.ticks } := upd_vt_self _ _ _
  have hfree0 : (s.stamp u).place u ≠ some .free := by
    rw [stamp, hpl0, hpl]
    simp
  obtain ⟨hnot, s1, hs1, hsd1, hsp1⟩ := Sound.stopAll hsd0 hst
  have hu1 := hsp1 u hnot hfree0
  obtain ⟨ho1, hx1⟩ := undelta_order hu1.fields
  rw [show (s.upd u _).vt u = _ from hvt0] at ho1 hx1
  simp only [Timer.order, Prod.mk.injEq] at ho1
  obtain ⟨hper, hlim, hact, hpar, hprio⟩ := ho1
  obtain ⟨s', hs', hsd', hsp', hran⟩ := hsd1.rearm (u := u)
    (by rw [hprio, hu1.place, hpl0, hpl]) (by rw [hper]; exact h1) (by rw [hper]; exact h2)
  refine ⟨s', ?_, hsd', fun v hv hvs hf => ?_, ⟨?_, ?_, ?_, hran.last⟩⟩
  · rw [TimerSt.runTimer, show (s.stamp u).stopAll stops = some s1 from hs1, bind_some,
      if_pos hc]
    exact hs'
  · have hv0 := hsp0 v hv
    have hv1 := hsp1 v hvs (by rw [hv0.place]; exact hf)
    exact (hv0.trans hv1).trans (hsp' v hv (by rw [hv1.place, hv0.place]; exact hf))
  · rw [hran.order]
    simp only [Timer.order, hper, hlim, hact, hpar, hprio]
  · rw [hran.expired, hx1]
  · intro hm
    have := hran.more hm
    rw [hprio, hper] at this
    exact this

/-! ## The other events -/

/-- **ONE TICK** succeeds and keeps the invariant, what each timer is programmed with, and
    the timers that are in no queue. -/
theorem Sound.tick (h : Sound s) :
    ∃ s', s.step .tick = some s' ∧ Sound s' ∧ ∀ v,
      (s'.vt v).order = (s.vt v).order ∧ (s'.vt v).expired = (s.vt v).expired ∧
      (s.place v = none → s'.place v = none) ∧
      ∀ p d k, Tracked s s.list [v] p d k → Tracked s' s'.list [v] p d (k + 1) := by
  obtain ⟨s', f', hs', hr⟩ := step_refines h.good (e := .tick) trivial
  have hf' : f' = s'.list := funext (fun i => (hr.good.list_eq i).symm)
  subst hf'
  have hx := clockIrq_expires h.ok hs'
  refine ⟨s', hs', ⟨hr.good, hx.ok⟩, fun v => ⟨?_, ?_, fun hv => ?_, fun p d k ht => ?_⟩⟩
  · rcases hx.each v with ⟨-, hu⟩ | ⟨-, -, -, hu⟩
    all_goals exact (undelta_order hu).1
  · rcases hx.each v with ⟨-, hu⟩ | ⟨-, -, -, hu⟩
    all_goals exact (undelta_order hu).2
  · rcases hx.each v with ⟨hp, -⟩ | ⟨hp, -⟩
    · exact hp.trans hv
    · exact absurd (hv.symm.trans hp) (by simp)
  · have := ht.step hr (fun x _ hrem => hrem)
    rw [if_pos rfl] at this
    exact this

theorem vrun_cons {e : VEvent} (h : s.vstep e = some s') : s.vrun (e :: es) = s'.vrun es := by
  rw [vrun, h, bind_some]

theorem vrun_append {es' : List VEvent} :
    ∀ {s : TimerSt}, s.vrun (es ++ es') = (s.vrun es).bind (fun s => s.vrun es') := by
  induction es with
  | nil => exact fun {s} => rfl
  | cons e es ih =>
    intro s
    cases h : s.vstep e with
    | none => simp only [List.cons_append, vrun, h, Option.bind_none]
    | some s1 => rw [List.cons_append, vrun_cons h, vrun_cons h, ih]

theorem VAllowedRun.append {o : Option VT} {es' : List VEvent} :
    ∀ {s : TimerSt}, VAllowedRun o s es → (∀ s', s.vrun es = some s' → VAllowedRun o s' es') →
      VAllowedRun o s (es ++ es') := by
  induction es with
  | nil => exact fun {s} _ h => h s rfl
  | cons e es ih =>
    intro s ha h
    refine ⟨ha.1, fun s' hs' => ih (ha.2 s' hs') (fun s2 hs2 => h s2 ?_)⟩
    rw [vrun_cons hs']
    exact hs2

/-- One event of a run in which every action continues. -/
theorem Sound.vstep (h : Sound s) {e : VEvent} (ha : s.VAllowed none e) :
    ∃ s', s.vstep e = some s' ∧ Sound s' := by
  cases e with
  | op e =>
    obtain ⟨s', hs', h', -⟩ := h.op ha
    exact ⟨s', hs', h'⟩
  | run u stops =>
    obtain ⟨s', hs', h', -⟩ := h.runTimer ha
    exact ⟨s', hs', h'⟩

theorem Sound.vrun : ∀ {s : TimerSt}, Sound s → VAllowedRun none s es →
    ∃ s', s.vrun es = some s' ∧ Sound s' := by
  induction es with
  | nil => exact fun {s} h _ => ⟨s, rfl, h⟩
  | cons e es ih =>
    intro s h ha
    obtain ⟨s1, hs1, h1⟩ := h.vstep ha.1
    obtain ⟨s', hs', h'⟩ := ih h1 (ha.2 s1 hs1)
    exact ⟨s', by rw [vrun_cons hs1, hs'], h'⟩

theorem VReachable.sound (h : VReachable s) : Sound s := by
  obtain ⟨s0, es, h0, ha, hs⟩ := h
  obtain ⟨s1, h1, f, hg⟩ := init_good
  cases h0.symm.trans h1
  obtain ⟨s', hs', h'⟩ := Sound.vrun ⟨hg.of_list, (vtimerInit_free h0).1⟩ ha
  cases hs.symm.trans hs'
  exact h'

/-! ## Laps -/

/-- The timer `v`, started with the fields `t`, has run `n` times and was started `k` ticks
    ago. -/
structure Lap (t : Timer) (v : VT) (s : TimerSt) (n k : Nat) : Prop where
  sound : Sound s
  order : (s.vt v).order = t.order
  expired : (s.vt v).expired = t.expired + BitVec.ofNat 32 n
  last : Last t n → s.place v = none
  more : ¬ Last t n → (t.limit ≠ 0 → n < t.limit.toNat) ∧
    Tracked s s.list [v] t.priority t.period.toNat k

/-- Where a tracked timer is. -/
theorem Sound.tracked_place (h : Sound s) {p : Prty} {d : Nat} (ht : Tracked s s.list [v] p d k) :
    s.place v = if k < d then some .act else some (.exp p) := by
  split
  · rename_i hk
    have hm := List.singleton_sublist.mp (ht.armed hk).1
    exact (h.mem .act).mp (mem_decode_fst hm)
  · rename_i hk
    exact (h.mem _).mp (List.singleton_sublist.mp (ht.expired (Nat.le_of_not_lt hk)))

theorem Lap.onCount (h : Lap t v s n k) : OnCount t v s n k := by
  rw [OnCount]
  by_cases hl : Last t n
  · rw [if_pos hl]
    exact h.sound.idle.mpr (h.last hl)
  · rw [if_neg hl]
    obtain ⟨hn, ht⟩ := h.more hl
    have hp := h.sound.tracked_place ht
    refine ⟨hn, ?_⟩
    simp only [h.sound.mem]
    split
    · rename_i hk
      rw [hp, if_pos hk]
      simp
    · rename_i hk
      rw [hp, if_neg hk]
      simp

theorem Lap.place_ne_free (h : Lap t v s n k) : s.place v ≠ some .free := by
  by_cases hl : Last t n
  · rw [h.last hl]
    simp
  · rw [h.sound.tracked_place (h.more hl).2]
    split <;> simp

theorem Lap.spared (h : Lap t v s n k) (hs : Sound s') (hv : Spared v s s') : Lap t v s' n k := by
  obtain ⟨ho, hx⟩ := undelta_order hv.fields
  exact ⟨hs, ho.trans h.order, hx.trans h.expired, fun hl => hv.place.trans (h.last hl),
    fun hl => ⟨(h.more hl).1, hv.tracked _ _ _ (h.more hl).2⟩⟩

/-- An event that is not a run of the timer. -/
theorem Lap.step_other {e : VEvent} (h : Lap t v s n k) (ha : s.VAllowed (some v) e)
    (hsp : e.Spares v) (hne : ∀ stops, e ≠ .run v stops) :
    ∃ s', s.vstep e = some s' ∧ Lap t v s' (lap v (n, k) e).1 (lap v (n, k) e).2 := by
  cases e with
  | op e =>
    by_cases he : e = .tick
    · subst he
      obtain ⟨s', hs', hsd, hv⟩ := h.sound.tick
      obtain ⟨ho, hx, hnone, htr⟩ := hv v
      exact ⟨s', hs', ⟨hsd, ho.trans h.order, hx.trans h.expired, fun hl => hnone (h.last hl),
        fun hl => ⟨(h.more hl).1, htr _ _ _ (h.more hl).2⟩⟩⟩
    · obtain ⟨s', hs', hsd, hv⟩ := h.sound.op ha
      refine ⟨s', hs', ?_⟩
      simp only [lap, if_neg he]
      exact h.spared hsd (hv he v hsp h.place_ne_free)
  | run w stops =>
    have hwv : w ≠ v := fun he => hne stops (by rw [he])
    obtain ⟨h1, h2, h3, h4, h5⟩ := ha
    have hc := h4.resolve_left (fun he => hwv (some.inj he).symm)
    obtain ⟨s', hs', hsd, hv, -⟩ := h.sound.runTimer ⟨h1, h2, h3, .inr hc, h5⟩
    refine ⟨s', hs', ?_⟩
    simp only [lap, if_neg hwv]
    exact h.spared hsd (hv v (Ne.symm hwv) (hsp.resolve_left hwv) h.place_ne_free)

/-- What the counter says after the next run. -/
def MoreAfter (t : Timer) (n : Nat) : Prop :=
  t.expired + BitVec.ofNat 32 (n + 1) < t.limit ∨ t.limit = 0

/-- A run of the timer: it is not the last one yet, and it is started again as the counter
    says. -/
theorem Lap.run_self (h : Lap t v s n k) (hc : t.continues = true)
    (ha : s.VAllowed (some v) (.run v stops)) :
    ¬ Last t n ∧ ∃ s', s.vstep (.run v stops) = some s' ∧ Sound s' ∧
      (s'.vt v).order = t.order ∧ (s'.vt v).expired = t.expired + BitVec.ofNat 32 (n + 1) ∧
      (MoreAfter t n → Tracked s' s'.list [v] t.priority t.period.toNat 0) ∧
      (¬ MoreAfter t n → s'.place v = none) := by
  have ho := h.order
  simp only [Timer.order, Prod.mk.injEq] at ho
  obtain ⟨hper, hlim, hact, hpar, hprio⟩ := ho
  have hcs : (s.vt v).continues = true := by
    rw [Timer.continues, hact, hpar]
    exact hc
  have hlast : ¬ Last t n := by
    intro hl
    have := (h.sound.mem _).mp ha.1
    rw [h.last hl] at this
    cases this
  obtain ⟨s', hs', hsd, -, hran⟩ :=
    h.sound.runTimer ⟨ha.1, ha.2.1, ha.2.2.1, .inr hcs, ha.2.2.2.2⟩
  have hx : (s'.vt v).expired = t.expired + BitVec.ofNat 32 (n + 1) := by
    rw [hran.expired, h.expired, BitVec.add_assoc, BitVec.ofNat_add]
    rfl
  have ho' := hran.order.trans h.order
  have hlim' : (s'.vt v).limit = t.limit := congrArg (fun x => x.2.1) ho'
  have hmore : (s'.vt v).More ↔ MoreAfter t n := by
    rw [Timer.More, hx, hlim', MoreAfter]
  refine ⟨hlast, s', hs', hsd, ho', hx, fun hm => ?_,
    fun hm => hran.last (fun hm' => hm (hmore.mp hm'))⟩
  have := hran.more (hmore.mpr hm)
  rw [hprio, hper] at this
  exact this

/-- The run keeps the count if the counter agrees with it. -/
theorem Lap.step_self (h : Lap t v s n k) (hc : t.continues = true)
    (ha : s.VAllowed (some v) (.run v stops))
    (hcount : (t.limit ≠ 0 → n < t.limit.toNat) → (MoreAfter t n ↔ ¬ Last t (n + 1))) :
    ∃ s', s.vstep (.run v stops) = some s' ∧ Lap t v s' (n + 1) 0 := by
  obtain ⟨hl, s', hs', hsd, ho, hx, hmore, hlast⟩ := h.run_self hc ha
  have hn := (h.more hl).1
  have hiff := hcount hn
  refine ⟨s', hs', hsd, ho, hx, fun hl' => hlast (fun hm => (hiff.mp hm) hl'),
    fun hl' => ⟨fun h0 => ?_, ?_⟩⟩
  · have := hn h0
    have hne : n + 1 ≠ t.limit.toNat := fun he => hl' ⟨h0, he⟩
    omega
  · exact hmore (hiff.mpr hl')

theorem Lap.run (hc : t.continues = true)
    (hcount : ∀ n, (t.limit ≠ 0 → n < t.limit.toNat) → (MoreAfter t n ↔ ¬ Last t (n + 1))) :
    ∀ {s : TimerSt} {n k : Nat}, Lap t v s n k →
      VAllowedRun (some v) s es → (∀ e ∈ es, e.Spares v) →
      ∃ s', s.vrun es = some s' ∧
        Lap t v s' (es.foldl (lap v) (n, k)).1 (es.foldl (lap v) (n, k)).2 := by
  induction es with
  | nil => exact fun {s} _ _ h _ _ => ⟨s, rfl, h⟩
  | cons e es ih =>
    intro s n k h ha hsp
    have hstep : ∃ s1, s.vstep e = some s1 ∧
        Lap t v s1 (lap v (n, k) e).1 (lap v (n, k) e).2 := by
      by_cases he : ∃ stops, e = .run v stops
      · obtain ⟨stops, rfl⟩ := he
        simp only [lap, if_true]
        exact h.step_self hc ha.1 (hcount n)
      · exact h.step_other ha.1 (hsp e (by simp)) (fun stops hr => he ⟨stops, hr⟩)
    obtain ⟨s1, hs1, h1⟩ := hstep
    obtain ⟨s', hs', h'⟩ := ih h1 (ha.2 s1 hs1) (fun e he => hsp e (by simp [he]))
    exact ⟨s', by rw [vrun_cons hs1, hs'], h'⟩

/-! ## The counter -/

/-- **WHEN THE COUNTER COUNTS THE RUNS**: for no other value does it reach the limit with
    the last run, and not before. -/
theorem counter_iff (t : Timer) :
    (∀ n, (t.limit ≠ 0 → n < t.limit.toNat) → (MoreAfter t n ↔ ¬ Last t (n + 1))) ↔
      t.limit = 0 ∨ t.expired = 0 ∨ t.limit = 1 ∧ t.expired ≠ BitVec.allOnes 32 := by
  have hL := t.limit.isLt
  have hE := t.expired.isLt
  have hL0 : t.limit = 0 ↔ t.limit.toNat = 0 := by rw [← BitVec.toNat_inj]; rfl
  have hL1 : t.limit = 1 ↔ t.limit.toNat = 1 := by rw [← BitVec.toNat_inj]; rfl
  have hE0 : t.expired = 0 ↔ t.expired.toNat = 0 := by rw [← BitVec.toNat_inj]; rfl
  have hE1 : t.expired = BitVec.allOnes 32 ↔ t.expired.toNat = 2 ^ 32 - 1 := by
    rw [← BitVec.toNat_inj]; rfl
  simp only [MoreAfter, Last, BitVec.lt_def, BitVec.toNat_add, BitVec.toNat_ofNat, ne_eq, hL0, hL1,
    hE0, hE1]
  generalize t.limit.toNat = L at *
  generalize t.expired.toNat = x at *
  constructor
  · intro h
    by_cases h0 : L = 0
    · exact .inl h0
    have hlast := h (L - 1) (by omega)
    by_cases h1 : L = 1
    · subst h1
      omega
    · have hprev := h (L - 2) (by omega)
      omega
  · rintro h n hn
    omega

/-! ## An action that does not continue -/

/-- What `MRT_vtimer_ins` writes: the header of the active queue, and the links of the timer
    and of active timers. -/
theorem insQueue_links {xs : List VT} (hl : IsList s.q.lk (s.q.hdr .act) xs)
    (h : s.insQueue v = some s') :
    (∀ i, i ≠ .act → s'.q.hdr i = s.q.hdr i) ∧
      ∀ y, y ≠ v → y ∉ xs → s'.q.lk y = s.q.lk y := by
  have hq := (insQueue_inv h).1
  generalize s'.q = q at hq ⊢
  cases hq with
  | head =>
    refine ⟨fun i hi => update_of_ne hi _ _, fun y hy hya => Chains.ins_lk_ne hy ?_⟩
    intro he
    rw [hl.first] at he
    exact hya (List.mem_of_head? he)
  | tail hq =>
    refine ⟨fun i hi => Chains.app_hdr_ne hq hi, fun y hy hya => Chains.app_lk_ne hq hy ?_⟩
    intro he
    rw [hl.last] at he
    exact hya (List.mem_of_getLast? he)
  | @before first n p _ _ _ hfirst hse hprev =>
    rw [hl.first] at hfirst
    have hn : n ∈ xs := insSearch_mem hl (List.mem_of_head? hfirst) hse
    have hp : p ∈ xs := by
      obtain ⟨as, ys, rfl⟩ := List.append_of_mem hn
      exact List.mem_append_left _ (List.mem_of_getLast? (hl.neighbours.1.symm.trans hprev))
    refine ⟨fun i hi => update_of_ne hi _ _, fun y hy hya => ?_⟩
    exact Chains.splice_lk_ne hy (fun he => hya (he ▸ hp)) (fun he => hya (he ▸ hn))

/-- **A TIMER STARTED FROM THE EXPIRED QUEUE** is still found there. -/
theorem Sound.ins_expired (h : Sound s) {p : Prty} (hv : v ∈ s.list (.exp p))
    (hs : s.vtimerIns v = some s') : v ∈ s'.list (.exp p) := by
  have hr := h.good.reads.q
  obtain ⟨hhdr, hlk⟩ := insQueue_links (s := s.upd v _) (hr.isList .act) hs
  refine Chains.Reads.mem_list_of_links hr hv (hhdr _ (by simp)) (fun y hy hyv => ?_)
  exact hlk y hyv (fun ha => nomatch hr.disj _ _ y ha hy)

/-! ## The other direction: a timer that is left alone -/

/-- A period of ticks and the run that is due then. -/
def turn (t : Timer) (v : VT) : List VEvent :=
  List.replicate t.period.toNat (.op .tick) ++ [.run v []]

theorem spares_turn (t : Timer) (v : VT) : ∀ e ∈ turn t v, e.Spares v := by
  intro e he
  rcases List.mem_append.mp he with he | he
  · rw [List.eq_of_mem_replicate he]
    exact fun h => h
  · rw [List.mem_singleton.mp he]
    exact .inl rfl

theorem foldl_lap_ticks (v : VT) (n m : Nat) :
    ∀ k, (List.replicate m (VEvent.op .tick)).foldl (lap v) (n, k) = (n, k + m) := by
  induction m with
  | zero => exact fun k => rfl
  | succ m ih =>
    intro k
    rw [List.replicate_succ, List.foldl_cons]
    simp only [lap, if_true]
    rw [ih, Nat.add_assoc, Nat.add_comm 1]

theorem foldl_lap_turn (t : Timer) (v : VT) (n : Nat) :
    (turn t v).foldl (lap v) (n, 0) = (n + 1, 0) := by
  rw [turn, List.foldl_append, foldl_lap_ticks]
  simp [lap]

theorem Lap.ticks {m : Nat} : ∀ {s : TimerSt} {k : Nat}, Lap t v s n k →
    VAllowedRun (some v) s (List.replicate m (.op .tick)) ∧
      ∃ s', s.vrun (List.replicate m (.op .tick)) = some s' ∧ Lap t v s' n (k + m) := by
  induction m with
  | zero => exact fun {s k} h => ⟨trivial, s, rfl, h⟩
  | succ m ih =>
    intro s k h
    obtain ⟨s1, hs1, h1⟩ := h.step_other (e := .op .tick) trivial (fun h => h) (fun _ => by simp)
    obtain ⟨ha, s', hs', h'⟩ := ih h1
    rw [List.replicate_succ]
    refine ⟨⟨trivial, fun s2 hs2 => ?_⟩, s', by rw [vrun_cons hs1, hs'], ?_⟩
    · cases hs1.symm.trans hs2
      exact ha
    · rw [Nat.add_comm m 1, ← Nat.add_assoc]
      exact h'

/-- A timer that has not run for the last time is due after a period. -/
theorem Lap.due (h : Lap t v s n 0) (hl : ¬ Last t n) (h1 : 0 < t.period.toNat)
    (h2 : t.period.toNat < 2 ^ 31) :
    ∃ s1, s.vrun (List.replicate t.period.toNat (.op .tick)) = some s1 ∧
      Lap t v s1 n t.period.toNat ∧ s1.VAllowed (some v) (.run v []) ∧
      VAllowedRun (some v) s (turn t v) := by
  obtain ⟨ha, s1, hs1, hlap⟩ := h.ticks (m := t.period.toNat)
  rw [Nat.zero_add] at hlap
  have ho := hlap.order
  simp only [Timer.order, Prod.mk.injEq] at ho
  obtain ⟨hper, -, -, -, hprio⟩ := ho
  have hrun : s1.VAllowed (some v) (.run v []) := by
    refine ⟨?_, by rw [hper]; exact h1, by rw [hper]; exact h2, .inl rfl, trivial⟩
    rw [hprio, hlap.sound.mem, hlap.sound.tracked_place (hlap.more hl).2, if_neg (Nat.lt_irrefl _)]
  refine ⟨s1, hs1, hlap, hrun, ha.append (fun s2 hs2 => ?_)⟩
  cases hs1.symm.trans hs2
  exact ⟨hrun, fun _ _ => trivial⟩

/-- The runs that the count is read from, without the event that starts the timer. -/
def Counts (t : Timer) (v : VT) (s : TimerSt) : Prop :=
  ∀ es, s.VAllowedRun (some v) es → (∀ e ∈ es, e.Spares v) →
    ∃ s', s.vrun es = some s' ∧ OnCount t v s' (laps v es).1 (laps v es).2

theorem OnCount.started (h : OnCount t v s n 0) (h1 : 0 < t.period.toNat) :
    if Last t n then s.Idle v else v ∈ s.list .act ∧ ∀ p, v ∉ s.list (.exp p) := by
  rw [OnCount, if_pos h1] at h
  split
  · rename_i hl
    rw [if_pos hl] at h
    exact h
  · rename_i hl
    rw [if_neg hl] at h
    exact h.2

/-- In a timer that counts right the counter agrees with the count at every run. -/
theorem Counts.laps (hcr : Counts t v s) (hc : t.continues = true) (h0 : Lap t v s 0 0)
    (h1 : 0 < t.period.toNat) (h2 : t.period.toNat < 2 ^ 31) :
    ∀ n, (t.limit ≠ 0 → n ≤ t.limit.toNat) →
      (∀ m < n, (MoreAfter t m ↔ ¬ Last t (m + 1))) ∧
      ∃ es s', s.VAllowedRun (some v) es ∧ (∀ e ∈ es, e.Spares v) ∧ s.vrun es = some s' ∧
        Vtimer.laps v es = (n, 0) ∧ Lap t v s' n 0 := by
  intro n
  induction n with
  | zero => exact fun _ => ⟨fun m hm => absurd hm (Nat.not_lt_zero m), [], s, trivial, by simp,
      rfl, rfl, h0⟩
  | succ n ih =>
    intro hn
    obtain ⟨hbelow, es, s1, ha, hsp, hs1, hlaps, hlap⟩ := ih (fun h => Nat.le_of_succ_le (hn h))
    have hl : ¬ Last t n := by
      rintro ⟨h, he⟩
      have := hn h
      omega
    obtain ⟨s2, hs2, hlap2, hrun, haturn⟩ := hlap.due hl h1 h2
    obtain ⟨-, s3, hs3, hsd, ho, hx, hmore, hlast⟩ := hlap2.run_self hc hrun
    have hturn : s1.vrun (turn t v) = some s3 := by
      rw [turn, vrun_append, hs2, bind_some, vrun_cons hs3]
      rfl
    have hall : s.VAllowedRun (some v) (es ++ turn t v) := by
      refine ha.append (fun s' hs' => ?_)
      cases hs1.symm.trans hs'
      exact haturn
    have hspares : ∀ e ∈ es ++ turn t v, e.Spares v := by
      intro e he
      exact (List.mem_append.mp he).elim (hsp e) (spares_turn t v e)
    have hvrun : s.vrun (es ++ turn t v) = some s3 := by
      rw [vrun_append, hs1, bind_some, hturn]
    have hlaps' : Vtimer.laps v (es ++ turn t v) = (n + 1, 0) := by
      rw [Vtimer.laps, List.foldl_append, ← Vtimer.laps, hlaps, foldl_lap_turn]
    obtain ⟨s', hs', hon⟩ := hcr _ hall hspares
    cases hvrun.symm.trans hs'
    rw [hlaps'] at hon
    replace hon := hon.started h1
    have hiff : MoreAfter t n ↔ ¬ Last t (n + 1) := by
      by_cases hl' : Last t (n + 1)
      · rw [if_pos hl', hsd.idle] at hon
        refine ⟨fun hm => ?_, fun hn => absurd hl' hn⟩
        rw [hsd.tracked_place (hmore hm), if_pos h1] at hon
        cases hon
      · rw [if_neg hl'] at hon
        refine ⟨fun _ => hl', fun _ => ?_⟩
        by_contra hm
        have := (hsd.mem .act).mp hon.1
        rw [hlast hm] at this
        cases this
    refine ⟨fun m hm => ?_, es ++ turn t v, s3, hall, hspares, hvrun, hlaps', ?_⟩
    · rcases Nat.lt_succ_iff_lt_or_eq.mp hm with hm | rfl
      · exact hbelow m hm
      · exact hiff
    · obtain ⟨s4, hs4, hlap4⟩ := hlap2.step_self hc hrun (fun _ => hiff)
      cases hs3.symm.trans hs4
      exact hlap4

/-- A timer that counts right has an action that continues: another action leaves it in
    the expired queue. -/
theorem Counts.continues (hcr : Counts t v s) (h0 : Lap t v s 0 0) (hl : ¬ Last t 0)
    (h1 : 0 < t.period.toNat) (h2 : t.period.toNat < 2 ^ 31) : t.continues = true := by
  by_contra hc
  obtain ⟨s1, hs1, hlap, hrun, hall⟩ := h0.due hl h1 h2
  obtain ⟨s', hs', hon⟩ := hcr _ hall (spares_turn t v)
  have ho := hlap.order
  simp only [Timer.order, Prod.mk.injEq] at ho
  obtain ⟨-, -, hact, hpar, hprio⟩ := ho
  have hcs : ¬ (s1.vt v).continues = true := by
    rw [Timer.continues, hact, hpar]
    exact hc
  have hexp : v ∈ s'.list (.exp t.priority) := by
    obtain ⟨hsd, -, hpl⟩ := hlap.sound.write v (g := fun t => { t with timestamp := s1.ticks })
      (fun t => ⟨rfl, rfl, rfl, rfl⟩)
    have hmem : v ∈ (s1.stamp v).list (.exp t.priority) := by
      have hin := hrun.1
      rw [hprio, hlap.sound.mem] at hin
      exact (hsd.mem _).mpr (hpl.trans hin)
    rw [turn, vrun_append, hs1, bind_some, vrun, vstep, runTimer, TimerSt.stopAll,
      bind_some, if_neg hcs] at hs'
    split at hs'
    · obtain ⟨s2, hs2, hs'⟩ := bind_eq_some_iff.mp hs'
      cases hs'
      exact Sound.ins_expired hsd hmem hs2
    · cases hs'
      exact hmem
  rw [Vtimer.laps, foldl_lap_turn] at hon
  replace hon := hon.started h1
  split at hon
  · exact hon.2.2 _ hexp
  · exact hon.2 _ hexp

/-! ## The result -/

/-- **HOW OFTEN A TIMER RUNS**: in every state of the runs in which actions continue, a timer
    that is started now runs as often as its limit says exactly if its action continues and
    its counter starts at 0, or cannot matter. -/
theorem vtimer_counts_iff (hs : VReachable s) (hv : s.Allowed (.ins v)) :
    CountsRight s v ↔ (s.vt v).continues = true ∧
      ((s.vt v).limit = 0 ∨ (s.vt v).expired = 0 ∨
        (s.vt v).limit = 1 ∧ (s.vt v).expired ≠ BitVec.allOnes 32) := by
  obtain ⟨s1, hs1, hsd, -, ho, hx, htr⟩ := hs.sound.start hv
  have hl : ¬ Last (s.vt v) 0 := by
    rintro ⟨h0, he⟩
    exact h0 (BitVec.eq_of_toNat_eq he.symm)
  have h0 : Lap (s.vt v) v s1 0 0 := by
    refine ⟨hsd, ho, by rw [hx]; simp, fun h => absurd h hl, fun _ => ⟨fun hne => ?_, htr⟩⟩
    exact Nat.pos_of_ne_zero (fun he => hne (BitVec.eq_of_toNat_eq he))
  have hrun : ∀ es, s.vrun (.op (.ins v) :: es) = s1.vrun es := fun es => vrun_cons hs1
  have hcr : CountsRight s v ↔ Counts (s.vt v) v s1 := by
    constructor
    · intro h es ha hsp
      rw [← hrun es]
      refine h es ⟨hv, fun s' hs' => ?_⟩ hsp
      cases hs1.symm.trans hs'
      exact ha
    · intro h es ha hsp
      rw [hrun es]
      exact h es (ha.2 s1 hs1) hsp
  rw [hcr]
  constructor
  · intro h
    have hc := h.continues h0 hl hv.2.1 hv.2.2
    refine ⟨hc, (counter_iff _).mp (fun n hn => ?_)⟩
    exact (h.laps hc h0 hv.2.1 hv.2.2 (n + 1) hn).1 n (Nat.lt_succ_self n)
  · rintro ⟨hc, hcnt⟩ es ha hsp
    obtain ⟨s', hs', hlap⟩ := Lap.run hc ((counter_iff _).mpr hcnt) h0 ha hsp
    exact ⟨s', hs', hlap.onCount⟩

/-! ## Reused timers -/

instance decidableStopsOk (v : VT) (c : Bool) :
    (s : TimerSt) → (ws : List VT) → Decidable (StopsOk v c s ws)
  | _, [] => .isTrue trivial
  | s, w :: ws =>
    match h : s.vtimerStop w with
    | none => decidable_of_iff
        (w ≠ v ∧ (w ∈ s.list .act ∨ s.Idle w) ∨ w = v ∧ c = false) (by simp [StopsOk, h])
    | some s' =>
      let _ := decidableStopsOk v c s' ws
      decidable_of_iff ((w ≠ v ∧ (w ∈ s.list .act ∨ s.Idle w) ∨ w = v ∧ c = false) ∧
        StopsOk v c s' ws) (by simp [StopsOk, h])

instance (o : Option VT) (s : TimerSt) (e : VEvent) : Decidable (s.VAllowed o e) := by
  cases e <;> unfold VAllowed <;> infer_instance

instance decidableVAllowedRun (o : Option VT) :
    (s : TimerSt) → (es : List VEvent) → Decidable (VAllowedRun o s es)
  | _, [] => .isTrue trivial
  | s, e :: es =>
    match h : s.vstep e with
    | none => decidable_of_iff (s.VAllowed o e) (by simp [VAllowedRun, h])
    | some s' =>
      let _ := decidableVAllowedRun o s' es
      decidable_of_iff (s.VAllowed o e ∧ VAllowedRun o s' es) (by simp [VAllowedRun, h])

/-- A timer is allocated with the limit 2 and a period of one tick. -/
def freshTimer : List VEvent := [.op (.alloc 1 2 .none 0 0 2)]

/-- The timer is started and runs twice; then it is programmed again, as before. -/
def usedTimer : List VEvent :=
  freshTimer ++ [.op (.ins 0), .op .tick, .run 0 [], .op .tick, .run 0 [],
    .op (.prog 0 1 2 .none 0 2)]

/-- The state that a list of events leads to after the initialisation. -/
def after (es : List VEvent) : TimerSt := ((vtimerInit.getD zero).vrun es).getD zero

theorem after_reachable (h0 : vtimerInit.isSome = true)
    (ha : VAllowedRun none (vtimerInit.getD zero) es)
    (hs : ((vtimerInit.getD zero).vrun es).isSome = true) : VReachable (after es) :=
  ⟨_, es, Run.eq_some_getD _ h0, ha, Run.eq_some_getD _ hs⟩

/-- The timer runs twice after its first start. -/
theorem fresh_timer_counts : VReachable (after freshTimer) ∧ CountsRight (after freshTimer) 0 := by
  have hr : VReachable (after freshTimer) :=
    after_reachable (by decide +kernel) (by decide +kernel) (by decide +kernel)
  refine ⟨hr, (vtimer_counts_iff hr (by decide +kernel)).mpr ⟨by decide +kernel, ?_⟩⟩
  exact .inr (.inl (by decide +kernel))

/-- A timer that is in no queue before it has run for the last time. -/
theorem not_counts_of_idle (ha : s.VAllowedRun (some v) (.op (.ins v) :: es))
    (hsp : ∀ e ∈ es, e.Spares v) (hs : s.vrun (.op (.ins v) :: es) = some s')
    (hidle : s'.Idle v) (hl : ¬ Last (s.vt v) (laps v es).1) : ¬ CountsRight s v := by
  intro hc
  obtain ⟨s1, hs1, hon⟩ := hc es ha hsp
  cases hs.symm.trans hs1
  rw [OnCount, if_neg hl] at hon
  split at hon
  · exact hidle.1 hon.2.1
  · exact hidle.2.2 _ hon.2.2

/-- **THE COUNTER SURVIVES**: programmed again with the limit 2 and started, the timer is in
    no queue after one run. -/
theorem used_timer_stops_early : VReachable (after usedTimer) ∧
    (after usedTimer).Allowed (.ins 0) ∧ ((after usedTimer).vt 0).limit = 2 ∧
    (after (usedTimer ++ [.op (.ins 0), .op .tick, .run 0 []])).Idle 0 ∧
    ¬ CountsRight (after usedTimer) 0 := by
  refine ⟨after_reachable (by decide +kernel) (by decide +kernel) (by decide +kernel),
    by decide +kernel, by decide +kernel, by decide +kernel, ?_⟩
  exact not_counts_of_idle (s := after usedTimer) (v := 0)
    (show VAllowedRun (some 0) _ [.op (.ins 0), .op .tick, .run 0 []] by decide +kernel)
    (by simp [VEvent.Spares, TEvent.Acts]) (Run.eq_some_getD zero (by decide +kernel))
    (by decide +kernel) (by decide +kernel)

end TimerSt

end Vtimer

/-! ## The runs of the kernel -/

namespace Kernel.KState

open Vtimer Vtimer.TimerSt Option

variable {s s' : KState} {v : Env}

/-- From one timer state to the other some timers have been stopped. -/
def Stops (t t' : TimerSt) : Prop := ∃ ws, t.stopAll ws = some t'

theorem Stops.of_eq {t t' : TimerSt} (h : t' = t) : Stops t t' := ⟨[], by rw [h]; rfl⟩

theorem Stops.one {t t' : TimerSt} {w : VT} (h : t.vtimerStop w = some t') : Stops t t' :=
  ⟨[w], by rw [stopAll, h]; rfl⟩

theorem Stops.trans {t t' t'' : TimerSt} (h : Stops t t') (h' : Stops t' t'') : Stops t t'' := by
  obtain ⟨ws, hws⟩ := h
  obtain ⟨ws', hws'⟩ := h'
  refine ⟨ws ++ ws', ?_⟩
  induction ws generalizing t with
  | nil =>
    cases hws
    exact hws'
  | cons w ws ih =>
    obtain ⟨t1, h1, h2⟩ := bind_eq_some_iff.mp hws
    rw [List.cons_append, stopAll, h1]
    exact ih h2

theorem inheritTo_tm {q : MsgQ} {k : Nat} {d : Proc} (h : s.inheritTo q k d = some s') :
    s'.tm = s.tm := by
  rw [inheritTo] at h
  split at h
  · exact (inherit_only h).tm
  · cases h
    rfl

theorem ksend_stops {src dest : Int} {prty : Nat} {t : MType} {r : Code}
    (h : s.ksend v src dest prty t = some (s', r)) : Stops s.tm s'.tm := by
  cases ksend_inv h with
  | refused | badHeader | noEntry => exact .of_eq rfl
  | direct hsp hc hw hv h1 h2 =>
    obtain ⟨s2, w, t, -, -, ht, rfl⟩ := unblockReceiver_inv h1
    rw [inheritTo_tm h2]
    exact .one ht
  | lost hsp hc hw hn hv => exact .of_eq (newEntry_only hn).tm
  | queued hsp hc hw hn hv hq h2 =>
    exact .of_eq ((inheritTo_tm h2).trans (enqueued hn hq).tm)

theorem wakeFrom_stops {rp : Proc} (h : s.wakeFrom v rp = some s') : Stops s.tm s'.tm := by
  obtain ⟨s1, s2, h1, hcase, hs'⟩ := wakeFrom_cases h
  obtain ⟨w, t, -, ht, rfl⟩ := stopTimer_inv h1
  have h2 : Stops t s2.tm := by
    cases hcase with
    | idle he => exact .of_eq (by rw [he])
    | tell h2 => exact ksend_stops h2
    | ready h2 => exact .of_eq (readyIfClear_only h2).tm
  rcases hs' with rfl | rfl
  all_goals exact (Stops.one ht).trans h2

/-- What `MRT_vtaction` does to the timers, and what it returns. -/
theorem action_stops {t : Timer} {c : Bool} (h : ActCase v s t s' c) :
    c = t.continues ∧ Stops s.tm s'.tm := by
  rw [Timer.continues]
  cases h with
  | idle ha =>
    refine ⟨?_, .of_eq rfl⟩
    rcases ha with ha | ha | ha | ⟨ha, hp⟩ <;> simp [*]
  | wake ha h1 =>
    refine ⟨?_, wakeFrom_stops h1⟩
    rcases ha with ha | ha | ⟨ha, hp⟩ <;> simp [*]
  | tell ha h1 =>
    refine ⟨?_, ksend_stops h1⟩
    rcases ha with ha | ha <;> simp [ha]
  | sndto ha h1 =>
    obtain ⟨_, _, -, -, ⟨htm, -⟩, -⟩ := actSndto_core h1
    exact ⟨by simp [ha], .of_eq htm⟩
  | rcvfr ha h1 =>
    obtain ⟨_, -, ⟨htm, -⟩, -⟩ := actRcvfr_core h1
    exact ⟨by simp [ha], .of_eq htm⟩
  | sndrcv ha h1 =>
    obtain ⟨_, -, ⟨htm, -⟩, -⟩ := actSndrcv_core h1
    exact ⟨by simp [ha], .of_eq htm⟩
  | stop ha h1 =>
    simp only [actStop, bind_eq_bind, bind_eq_some_iff, some.injEq] at h1
    obtain ⟨rp, -, rfl⟩ := h1
    refine ⟨by simp [ha], .of_eq ?_⟩
    split <;> rfl
  | down ha h1 =>
    obtain ⟨_, -, ⟨htm, -⟩, -⟩ := actDown_core h1
    exact ⟨by simp [ha], .of_eq htm⟩

/-- **A RUN OF THE KERNEL IS A RUN OF THE MACHINE**: what its action does to the timers is
    to stop some. -/
theorem vtimerRun_runTimer {w : VT} (h : s.vtimerRun v w = some s') :
    ∃ stops, s.tm.runTimer w stops = some s'.tm := by
  obtain ⟨s1, c, hact, -, hend⟩ := vtimerRun_inv h
  obtain ⟨hc, ws, hws⟩ := action_stops hact
  have hc : c = (s.tm.vt w).continues := hc
  refine ⟨ws, ?_⟩
  rw [runTimer, show (s.tm.stamp w).stopAll ws = some s1.tm from hws, bind_some, ← hc]
  exact hend

/-- Process 14 waits for a message for five ticks, with the timer 0; the timer 1, which sends
    a message to 14 twice, has expired after two ticks. -/
def reminded : Option KState := do
  let s ← boot.run [.rtk 14 goodEnv .set2rt, .rtk 14 goodEnv (.receive (fromAny 5))]
  let (w, s) ← s.vtalloc 2 2 .msgown 0 (procNr 14) 3
  let s ← s.insTimer w
  s.run [.tick, .tick]

/-- The message ends the wait: the action stops the timer 0, and the timer 1 is started
    again. -/
theorem vtimerRun_msgown : ∃ s s' stops, reminded = some s ∧ s.tm.list (.exp 3) = [1] ∧
    s.tm.list .act = [0] ∧ s.vtimerRun goodEnv 1 = some s' ∧
    s.tm.runTimer 1 stops = some s'.tm ∧ s'.tm.list .act = [1] ∧
    (s'.procs 14).st.mbxRcv = false := by
  have hrun : reminded.any (fun s => decide (s.tm.list (.exp 3) = [1] ∧ s.tm.list .act = [0]) &&
      (s.vtimerRun goodEnv 1).any (fun s' =>
        decide (s'.tm.list .act = [1] ∧ (s'.procs 14).st.mbxRcv = false))) = true := by
    decide +kernel
  obtain ⟨s, hs, hrun⟩ := (any_eq_true _ _).mp hrun
  obtain ⟨hq, hrun⟩ := (Bool.and_eq_true _ _).mp hrun
  obtain ⟨s', h, hq'⟩ := (any_eq_true _ _).mp hrun
  obtain ⟨hexp, hact⟩ := of_decide_eq_true hq
  obtain ⟨hact', hrcv⟩ := of_decide_eq_true hq'
  obtain ⟨stops, hstops⟩ := vtimerRun_runTimer h
  exact ⟨s, s', stops, hs, hexp, hact, h, hstops, hact', hrcv⟩

end Kernel.KState
