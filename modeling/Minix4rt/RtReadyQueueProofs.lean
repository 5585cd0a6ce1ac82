import Minix4rt.MessageConservationProofs
import Minix4rt.LeaveRtProofs

/-! # The RT ready queue — every process is where its status says

    A process has one link.  It is in `MRT_sp.rdyQ`, on the level of its priority, when no
    status bit of it is set; it is in the wait list of `psem` when `MRT_SEM_DOWN` is set;
    otherwise it is in no list.  So "who is linked where" is a function of the status, and
    every move of the kernel has to change the links and the status together.

    Five things break it, and a run must avoid them: priority inheritance (`MRT_inherit`
    moves a waiting process to another level without relinking it), the schedule limit
    (`MRT_rdyQ_app` leaves the process unlinked), leaving RT mode while waiting for a
    semaphore, freeing a semaphore with waiters, and a receive that takes the request of a
    sender which does not wait for its reply any more. -/

namespace Kernel

open ListPool Vtimer KState Function Option

variable {e : Event} {x x' : Option Proc} {s s' s1 s2 s₀ : KState} {p q d : Proc} {m : Sem}
  {v : Env} {r : RtProc}
variable {t : MType} {n dl : BitVec 32} {k : Mqe} {j : Option Proc} {prty : Nat} {par : Int}
  {ipc : Ipc} {c : Code} {w : VT}

/-! ## Places -/

/-- The status of a process that waits for a semaphore and for nothing else. -/
def Status.down : Status := { Status.clear with semDown := true }

/-- The list that the link of a process is in; the leaving process `x` is in none. -/
def rdyPlace (x : Option Proc) (s : KState) (p : Proc) : Option (Slot Empty (Option Sem) 16) :=
  if x = some p ∨ (s.procs p).realtime = false then none
  else if (s.procs p).st = .clear then some (.level none (s.rq.prio p))
  else if (s.procs p).st.semDown = true then
    (s.procs p).psem.map (fun m => .level (some m) (s.semLevel m p))
  else none

/-- Every semaphore is in the free list, or in the list of the process that has allocated
    it, and the record names that process. -/
def AllocOk (s : KState) : Prop :=
  ∃ f : Sem → Option Proc, s.ss.alloc.Placed (fun m => some (.plain (f m))) ∧
    ∀ m, (s.ss.sem m).owner = (f m).elim hardware procNr

/-- The ready-queue invariant, with the process `x` leaving RT mode. -/
structure RdyOk (x : Option Proc) (s : KState) : Prop where
  pool : s.rq.pool.Placed (rdyPlace x s)
  this : ∀ p, (s.procs p).realtime = true → (s.procs p).this = some p
  alone : ∀ p, (s.procs p).st.semDown = true → (s.procs p).st = .down
  sem : ∀ p, (s.procs p).st.semDown = true →
    ∃ m, (s.procs p).psem = some m ∧ (s.ss.sem m).owner ≠ hardware
  alloc : AllocOk s
  leaver : ∀ p, x = some p → (s.procs p).st.semDown = false

/-- Priorities are not inherited, and no RT process has used up its schedules. -/
structure Unlimited (s : KState) : Prop where
  bpip : s.bpip = false
  limit : ∀ p, (s.procs p).realtime = true → ¬ s.limitHit p

/-- Both together, as the moves of an event keep them. -/
structure RtOk (x : Option Proc) (s : KState) : Prop extends RdyOk x s, Unlimited s

/-! ## What the invariant looks at -/

/-- The semaphores look the same to their waiters. -/
structure SameSems (s s' : KState) : Prop where
  sem : ∀ m, (s'.ss.sem m).order = (s.ss.sem m).order ∧
    (s'.ss.sem m).owner = (s.ss.sem m).owner
  alloc : s'.ss.alloc = s.ss.alloc

theorem SameSems.of_eq (h : s'.ss = s.ss) : SameSems s s' :=
  ⟨fun m => by rw [h]; exact ⟨rfl, rfl⟩, by rw [h]⟩

theorem SameSems.trans (h : SameSems s s1) (h' : SameSems s1 s') : SameSems s s' :=
  ⟨fun m => ⟨(h'.sem m).1.trans (h.sem m).1, (h'.sem m).2.trans (h.sem m).2⟩,
    h'.alloc.trans h.alloc⟩

/-- Nothing that the invariant looks at has changed. -/
structure SameRdy (s s' : KState) : Prop where
  rq : s'.rq = s.rq
  proc : ∀ p, (s'.procs p).realtime = (s.procs p).realtime ∧ (s'.procs p).st = (s.procs p).st ∧
    (s'.procs p).psem = (s.procs p).psem ∧ (s'.procs p).this = (s.procs p).this ∧
    (s'.procs p).limit = (s.procs p).limit
  sems : SameSems s s'
  bpip : s'.bpip = s.bpip

theorem SameRdy.of_eq (hrq : s'.rq = s.rq) (hp : s'.procs = s.procs) (hss : s'.ss = s.ss)
    (hb : s'.bpip = s.bpip) : SameRdy s s' :=
  ⟨hrq, fun p => by rw [hp]; exact ⟨rfl, rfl, rfl, rfl, rfl⟩, .of_eq hss, hb⟩

theorem MsgsOnly.rdy (h : MsgsOnly s s') : SameRdy s s' := .of_eq h.rq h.procs h.ss h.bpip

theorem SameRdy.of_update (hrq : s'.rq = s.rq) (hp : s'.procs = update s.procs p r)
    (hr : r.realtime = (s.procs p).realtime ∧ r.st = (s.procs p).st ∧
      r.psem = (s.procs p).psem ∧ r.this = (s.procs p).this ∧ r.limit = (s.procs p).limit)
    (hss : s'.ss = s.ss) (hb : s'.bpip = s.bpip) : SameRdy s s' := by
  refine ⟨hrq, fun i => ?_, .of_eq hss, hb⟩
  by_cases hi : i = p
  · subst hi
    rw [hp, update_self]
    exact hr
  · rw [hp, update_of_ne hi]
    exact ⟨rfl, rfl, rfl, rfl, rfl⟩

theorem SameSems.level (h : SameSems s s') (hprio : s'.rq.prio p = s.rq.prio p) (m : Sem) :
    s'.semLevel m p = s.semLevel m p := by
  rw [semLevel, semLevel, (h.sem m).1, hprio]

/-- The place of a process depends on its own fields only. -/
theorem rdyPlace_congr (hrt : (s'.procs p).realtime = (s.procs p).realtime)
    (hst : (s'.procs p).st = (s.procs p).st) (hsem : (s'.procs p).psem = (s.procs p).psem)
    (hprio : s'.rq.prio p = s.rq.prio p) (hss : SameSems s s') :
    rdyPlace x s' p = rdyPlace x s p := by
  simp only [rdyPlace, hrt, hst, hsem, hprio, hss.level hprio]

theorem AllocOk.same (h : AllocOk s) (hss : SameSems s s') : AllocOk s' := by
  obtain ⟨f, h1, h2⟩ := h
  exact ⟨f, hss.alloc ▸ h1, fun m => (hss.sem m).2.trans (h2 m)⟩

theorem RdyOk.same (h : RdyOk x s) (hs : SameRdy s s') : RdyOk x s' := by
  refine ⟨?_, fun p hp => ?_, fun p hp => ?_, fun p hp => ?_, h.alloc.same hs.sems,
    fun p hp => ?_⟩
  · rw [hs.rq]
    refine h.pool.congr (fun p => ?_)
    obtain ⟨h1, h2, h3, -, -⟩ := hs.proc p
    exact rdyPlace_congr h1 h2 h3 (by rw [hs.rq]) hs.sems
  · obtain ⟨h1, -, -, h4, -⟩ := hs.proc p
    rw [h4]
    exact h.this p (h1 ▸ hp)
  · rw [(hs.proc p).2.1] at hp ⊢
    exact h.alone p hp
  · obtain ⟨-, h2, h3, -, -⟩ := hs.proc p
    rw [h2] at hp
    obtain ⟨m, hm, hown⟩ := h.sem p hp
    refine ⟨m, h3.trans hm, ?_⟩
    rw [(hs.sems.sem m).2]
    exact hown
  · rw [(hs.proc p).2.1]
    exact h.leaver p hp

theorem Unlimited.same (h : Unlimited s) (hs : SameRdy s s') : Unlimited s' := by
  refine ⟨hs.bpip.trans h.bpip, fun p hp => ?_⟩
  obtain ⟨h1, -, -, -, h5⟩ := hs.proc p
  rw [limitHit, h5, hs.rq]
  exact h.limit p (h1 ▸ hp)

theorem RtOk.same (h : RtOk x s) (hs : SameRdy s s') : RtOk x s' :=
  ⟨h.toRdyOk.same hs, h.toUnlimited.same hs⟩

/-- Who is placed where, read back. -/
theorem rdyPlace_ready (hx : x ≠ some p) (hrt : (s.procs p).realtime = true)
    (hst : (s.procs p).st = .clear) : rdyPlace x s p = some (.level none (s.rq.prio p)) := by
  rw [rdyPlace, if_neg (by simp [hx, hrt]), if_pos hst]

theorem rdyPlace_down (hx : x ≠ some p) (hrt : (s.procs p).realtime = true)
    (hst : (s.procs p).st = .down) (hm : (s.procs p).psem = some m) :
    rdyPlace x s p = some (.level (some m) (s.semLevel m p)) := by
  rw [rdyPlace, if_neg (by simp [hx, hrt]), hst, if_neg (by decide),
    if_pos (show Status.down.semDown = true from rfl), hm]
  rfl

theorem rdyPlace_blocked (hst : (s.procs p).st ≠ .clear) (hdn : (s.procs p).st.semDown = false) :
    rdyPlace x s p = none := by
  have hd : ¬ (s.procs p).st.semDown = true := by simp [hdn]
  rw [rdyPlace, if_neg hst, if_neg hd]
  split <;> rfl

theorem rdyPlace_nrt (hrt : (s.procs p).realtime = false) : rdyPlace x s p = none := by
  rw [rdyPlace, if_pos (.inr hrt)]

/-- A process in a wait list waits for that semaphore, and for nothing else. -/
theorem RdyOk.of_wait (h : RdyOk x s) {l : Prty}
    (hp : rdyPlace x s p = some (.level (some m) l)) :
    x ≠ some p ∧ (s.procs p).realtime = true ∧ (s.procs p).st = .down ∧
      (s.procs p).psem = some m ∧ s.semLevel m p = l := by
  rw [rdyPlace] at hp
  split at hp
  · cases hp
  rename_i hno
  rw [not_or] at hno
  split at hp
  · cases hp
  split at hp
  · rename_i hdn
    obtain ⟨m', hm', he⟩ := map_eq_some_iff.mp hp
    simp only [Slot.level.injEq, some.injEq] at he
    obtain ⟨rfl, hl⟩ := he
    exact ⟨hno.1, by simpa using hno.2, h.alone p hdn, hm', hl⟩
  · cases hp

/-- `MRT_sproc_pick` finds a process that waits for the semaphore. -/
theorem RdyOk.picked (h : RdyOk x s) (hp : s.sprocPick m = some p) :
    x ≠ some p ∧ (s.procs p).realtime = true ∧ (s.procs p).st = .down ∧
      (s.procs p).psem = some m ∧ rdyPlace x s p = some (.level (some m) (s.semLevel m p)) := by
  obtain ⟨y, hy, hthis⟩ := bind_eq_some_iff.mp hp
  obtain ⟨l, hl, -⟩ := h.pool.of_pget hy
  obtain ⟨h1, h2, h3, h4, h5⟩ := h.of_wait hl
  rw [h.this y h2] at hthis
  cases hthis
  exact ⟨h1, h2, h3, h4, by rw [h5]; exact hl⟩

/-- It finds nobody only if nobody waits. -/
theorem RdyOk.nobody (h : RdyOk x s) (hp : s.sprocPick m = none) (hrt : (s.procs p).realtime = true)
    (hdn : (s.procs p).st.semDown = true) : (s.procs p).psem ≠ some m := by
  intro hm
  have hx : x ≠ some p := by
    intro hx
    rw [h.leaver p hx] at hdn
    cases hdn
  have hpl := rdyPlace_down (x := x) hx hrt (h.alone p hdn) hm
  cases hg : s.rq.pool.pget (some m) with
  | none => exact h.pool.pget_eq_none.mp hg p _ hpl
  | some y =>
    obtain ⟨l, hl, -⟩ := h.pool.of_pget hg
    obtain ⟨-, hy, -, -, -⟩ := h.of_wait hl
    rw [sprocPick, hg, bind_some, h.this y hy] at hp
    cases hp

/-! ## Linking and unlinking a process -/

/-- `s'` is `s` after `p` has been made ready if its status is clear. -/
structure Readied (s : KState) (p : Proc) (s' : KState) : Prop where
  procs : s'.procs = s.procs
  prio : s'.rq.prio = s.rq.prio
  scheds : s'.rq.scheds = s.rq.scheds
  ss : s'.ss = s.ss
  bpip : s'.bpip = s.bpip
  clear : (s.procs p).st = .clear → s.rq.pool.papp none p (s.rq.prio p) = some s'.rq.pool
  blocked : (s.procs p).st ≠ .clear → s'.rq.pool = s.rq.pool

theorem rdyQApp_readied (hn : ¬ s.limitHit p) (hst : (s.procs p).st = .clear)
    (h : s.rdyQApp p = some s') : Readied s p s' := by
  rw [limitHit] at hn
  rw [rdyQApp, if_neg hn] at h
  obtain ⟨P, hP, rfl⟩ := map_eq_some_iff.mp h
  exact ⟨rfl, rfl, rfl, rfl, rfl, fun _ => hP, fun hne => absurd hst hne⟩

theorem readyIfClear_readied (hn : ¬ s.limitHit p) (h : s.readyIfClear p = some s') :
    Readied s p s' := by
  rw [readyIfClear, rtReady] at h
  split at h
  · rename_i hc
    exact rdyQApp_readied hn (by simpa using hc) h
  · rename_i hc
    cases h
    exact ⟨rfl, rfl, rfl, rfl, rfl, fun hst => absurd hst (by simpa using hc), fun _ => rfl⟩

theorem readyOnTimeout_readied (hn : ¬ s.limitHit p) (h : s.readyOnTimeout p = some s') :
    Readied s p s' := by
  rw [readyOnTimeout, rtReady] at h
  split at h
  · rename_i hc
    obtain ⟨s1, h1, rfl⟩ := map_eq_some_iff.mp h
    have hr := rdyQApp_readied hn (by simpa using hc) h1
    exact { hr with }
  · rename_i hc
    cases h
    exact ⟨rfl, rfl, rfl, rfl, rfl, fun hst => absurd hst (by simpa using hc), fun _ => rfl⟩

/-- A record changes, and the process is in no list afterwards. -/
structure Unlinks (x : Option Proc) (s s1 : KState) (p : Proc) (r : RtProc) : Prop where
  procs : s1.procs = update s.procs p r
  pool : s1.rq.pool.Placed (update (rdyPlace x s) p none)
  prio : s1.rq.prio = s.rq.prio
  scheds : s1.rq.scheds = s.rq.scheds
  sems : SameSems s s1
  bpip : s1.bpip = s.bpip
  rt : r.realtime = (s.procs p).realtime
  this : r.this = (s.procs p).this
  limit : r.limit = (s.procs p).limit
  down : r.st.semDown = false

theorem Unlinks.limitHit_iff (h : Unlinks x s s1 p r) : s1.limitHit p ↔ s.limitHit p := by
  rw [limitHit, limitHit, h.procs, update_self, h.limit, h.scheds]

/-- **ONE RECORD CHANGES**, together with the links of that process. -/
theorem RdyOk.relink (h : RdyOk x s) (hp : s'.procs = update s.procs p r)
    (hprio : ∀ i, i ≠ p → s'.rq.prio i = s.rq.prio i) (hss : SameSems s s')
    (hpool : s'.rq.pool.Placed (update (rdyPlace x s) p (rdyPlace x' s' p)))
    (hx : ∀ i, i ≠ p → (x' = some i ↔ x = some i))
    (hdn : r.st.semDown = true → r.st = .down ∧ x' ≠ some p ∧
      ∃ m, r.psem = some m ∧ (s.ss.sem m).owner ≠ hardware)
    (hthis : r.realtime = true → r.this = some p) : RdyOk x' s' := by
  have hne : ∀ {i}, i ≠ p → s'.procs i = s.procs i := by
    intro i hi
    rw [hp, update_of_ne hi]
  have hself : s'.procs p = r := by rw [hp, update_self]
  refine ⟨hpool.congr (fun i => ?_), fun i hi => ?_, fun i hi => ?_, fun i hi => ?_,
    h.alloc.same hss, fun i hi => ?_⟩
  all_goals
    by_cases hip : i = p
  · subst hip
    rw [update_self]
  · rw [update_of_ne hip]
    simp only [rdyPlace, hx i hip, hne hip, hprio i hip, hss.level (hprio i hip)]
  · subst hip
    rw [hself] at hi ⊢
    exact hthis hi
  · rw [hne hip] at hi ⊢
    exact h.this i hi
  · subst hip
    rw [hself] at hi ⊢
    exact (hdn hi).1
  · rw [hne hip] at hi ⊢
    exact h.alone i hi
  · subst hip
    rw [hself] at hi ⊢
    obtain ⟨m, hm, hown⟩ := (hdn hi).2.2
    exact ⟨m, hm, by rw [(hss.sem m).2]; exact hown⟩
  · rw [hne hip] at hi ⊢
    obtain ⟨m, hm, hown⟩ := h.sem i hi
    exact ⟨m, hm, by rw [(hss.sem m).2]; exact hown⟩
  · subst hip
    rw [hself]
    by_contra hd
    exact (hdn (by simpa using hd)).2.1 hi
  · rw [hne hip]
    exact h.leaver i ((hx i hip).mp hi)

/-- The limits stay, but for processes that have left RT mode. -/
theorem Unlimited.change (h : Unlimited s) (hp : s'.procs = update s.procs p r)
    (hr : r.realtime = true → (s.procs p).realtime = true ∧ r.limit = (s.procs p).limit)
    (hsch : ∀ i, (s'.procs i).realtime = true → s'.rq.scheds i = s.rq.scheds i)
    (hb : s'.bpip = s.bpip) : Unlimited s' := by
  refine ⟨hb.trans h.bpip, fun i hi => ?_⟩
  rw [limitHit, hsch i hi]
  rw [hp] at hi ⊢
  by_cases hip : i = p
  · subst hip
    rw [update_self] at hi ⊢
    rw [(hr hi).2]
    exact h.limit i (hr hi).1
  · rw [update_of_ne hip] at hi ⊢
    exact h.limit i hi

/-- **A PROCESS ENDS A WAIT**: it is linked into the ready queue if nothing else blocks it. -/
theorem RdyOk.ends (h : RdyOk x s) (hu : Unlinks x s s1 p r) (hx : x ≠ some p)
    (hrt : (s.procs p).realtime = true) (hr : Readied s1 p s') : RdyOk x s' := by
  have hself1 : s1.procs p = r := by rw [hu.procs, update_self]
  have hself : s'.procs p = r := by rw [hr.procs, hself1]
  refine h.relink (hr.procs.trans hu.procs) (fun i _ => by rw [hr.prio, hu.prio])
    (hu.sems.trans (.of_eq hr.ss)) ?_ (fun _ _ => Iff.rfl)
    (fun hd => nomatch hu.down.symm.trans hd) (fun _ => hu.this.trans (h.this p hrt))
  by_cases hst : r.st = .clear
  · have hP := hr.clear (by rw [hself1]; exact hst)
    rw [rdyPlace_ready hx (by rw [hself, hu.rt]; exact hrt) (by rw [hself]; exact hst), hr.prio]
    simpa only [update_idem] using hu.pool.of_papp (update_self _ _ _) hP
  · rw [hr.blocked (by rw [hself1]; exact hst),
      rdyPlace_blocked (by rw [hself]; exact hst) (by rw [hself]; exact hu.down)]
    exact hu.pool

theorem RtOk.unblock (h : RtOk x s) (hu : Unlinks x s s1 p r) (hx : x ≠ some p)
    (hrt : (s.procs p).realtime = true) (hr : ¬ s1.limitHit p → Readied s1 p s') :
    RtOk x s' := by
  have hr := hr (fun hl => h.limit p hrt (hu.limitHit_iff.mp hl))
  exact ⟨h.toRdyOk.ends hu hx hrt hr, h.toUnlimited.change (hr.procs.trans hu.procs)
    (fun _ => ⟨hrt, hu.limit⟩) (fun _ _ => by rw [hr.scheds, hu.scheds])
    (hr.bpip.trans hu.bpip)⟩

/-- A process that is in no list, as long as its record is written. -/
theorem Unlinks.of_blocked {t : KState} (hst : (s.procs p).st ≠ .clear)
    (hdn : (s.procs p).st.semDown = false) (h : RtOk x s)
    (hp : t.procs = update s.procs p r) (hrq : t.rq = s.rq) (hss : t.ss = s.ss)
    (hb : t.bpip = s.bpip) (hr : r.realtime = (s.procs p).realtime ∧ r.this = (s.procs p).this ∧
      r.limit = (s.procs p).limit) (hdown : r.st.semDown = false) : Unlinks x s t p r := by
  refine ⟨hp, ?_, by rw [hrq], by rw [hrq], .of_eq hss, hb, hr.1, hr.2.1, hr.2.2, hdown⟩
  rw [hrq, update_eq_self_iff.mpr (rdyPlace_blocked hst hdn).symm]
  exact h.pool

/-- A process that waits for something else does not wait for a semaphore. -/
theorem RdyOk.busy (h : RdyOk x s) {g : Status → Bool} (hg : g (s.procs p).st = true)
    (hclear : g .clear = false) (hdown : g .down = false) :
    (s.procs p).st ≠ .clear ∧ (s.procs p).st.semDown = false := by
  refine ⟨fun hc => ?_, ?_⟩
  · rw [hc, hclear] at hg
    cases hg
  · by_contra hdn
    rw [h.alone p (by simpa using hdn), hdown] at hg
    cases hg

/-- The running process leaves the ready queue. -/
theorem RdyOk.unlink (h : RdyOk none s) (hrun : Running s) :
    (s.rq.pool.prmv none s.cur (s.rq.prio s.cur)).Placed (update (rdyPlace none s) s.cur none) :=
  h.pool.prmv (rdyPlace_ready (by simp) hrun.rt hrun.clear)

/-- **THE RUNNING PROCESS BLOCKS.** -/
theorem RtOk.block (h : RtOk none s) (hrun : Running s) (hp : s'.procs = update s.procs s.cur r)
    (hpool : s'.rq.pool = s.rq.pool.prmv none s.cur (s.rq.prio s.cur))
    (hprio : s'.rq.prio = s.rq.prio) (hsch : s'.rq.scheds = s.rq.scheds) (hss : s'.ss = s.ss)
    (hb : s'.bpip = s.bpip) (hr : r.realtime = true ∧ r.this = (s.procs s.cur).this ∧
      r.limit = (s.procs s.cur).limit) (hst : r.st ≠ .clear)
    (hdn : r.st.semDown = (s.procs s.cur).st.semDown) : RtOk none s' := by
  have hu : Unlinks none s s' s.cur r :=
    ⟨hp, hpool ▸ h.unlink hrun, hprio, hsch, .of_eq hss, hb, hr.1.trans hrun.rt.symm, hr.2.1,
      hr.2.2, by rw [hdn, hrun.clear]; rfl⟩
  have hself : (s'.procs s.cur).st ≠ .clear := by
    rw [hp, update_self]
    exact hst
  exact h.unblock hu (by simp) hrun.rt (fun _ => ⟨rfl, rfl, rfl, rfl, rfl,
    fun hc => absurd hc hself, fun _ => rfl⟩)

/-! ## Messages -/

theorem inherit_off {n : Nat} {k : Int} {o : Option Proc} (hb : s.bpip = false)
    (h : KState.inherit n s k o = some s') : s' = s := by
  cases n with
  | zero => cases h
  | succ n =>
    unfold KState.inherit at h
    rw [if_pos (by simp [hb])] at h
    exact (some.inj h).symm

theorem disinherit_off {o : Option Proc} (hb : s.bpip = false) (h : s.disinherit o j = some s') :
    s' = s := by
  rw [KState.disinherit, if_pos (by simp [hb])] at h
  exact (some.inj h).symm

/-- A message is handed over. -/
theorem RtOk.deliver (h : RtOk x s) (hx : x ≠ some d) (hrt : (s.procs d).realtime = true)
    (hrcv : (s.procs d).st.mbxRcv = true) (hu : s.unblockReceiver d = some s') : RtOk x s' := by
  obtain ⟨s1, w, t, h1, -, -, rfl⟩ := unblockReceiver_inv hu
  obtain ⟨hst, hdn⟩ := h.busy (g := (·.mbxRcv)) hrcv rfl rfl
  have hul := Unlinks.of_blocked (t := s.updProc d (fun r =>
      { r with pfrom := none, st := { r.st with mbxRcv := false } })) hst hdn h rfl rfl rfl rfl
    ⟨rfl, rfl, rfl⟩ hdn
  exact (h.unblock hul hx hrt (readyIfClear_readied · h1)).same (.of_eq rfl rfl rfl rfl)

/-- The sender of a request blocks. -/
theorem RtOk.send {act : Act} {q : MsgQ} {s3 : KState} (h : RtOk none s) (hrun : Running s)
    (hn : s.newEntry s.cur d t prty dl = some (k, s1)) (he : s1.enqueue q k = some s2)
    (ha : s2.armIpc s2.cur n act par = some s3) : RtOk none (s3.blockSender d) := by
  obtain ⟨-, hrq, -, hss, -, hcur, hb⟩ := enqueued hn he
  have hp := send_procs hn he ha
  obtain ⟨t, rfl⟩ := armIpc_inv ha
  refine h.block hrun hp ?_ ?_ ?_ hss hb ⟨hrun.rt, rfl, rfl⟩
    (fun hc => nomatch congrArg Status.mbxSnd hc) rfl
  · simp only [blockSender, rdyQRmv, setPool, updProc, hrq, hcur]
  all_goals simp only [blockSender, rdyQRmv, setPool, updProc, hrq]

/-- The state after the receive section of `rtk_rqrcv`. -/
theorem blockReply_rest (hb : s.blockReply ipc d = some s') :
    s'.rq = { s.rq with pool := s.rq.pool.prmv none s.cur (s.rq.prio s.cur) } ∧
      s'.ss = s.ss ∧ s'.bpip = s.bpip := by
  obtain ⟨t, rfl⟩ := blockReply_only hb
  exact ⟨rfl, rfl, rfl⟩

theorem RtOk.sendRecv {q : MsgQ} {s3 : KState} (h : RtOk none s) (hrun : Running s)
    (hn : s.newEntry s.cur d t prty dl = some (k, s1)) (he : s1.enqueue q k = some s2)
    (hset : (s2.updProc s2.cur (fun r =>
      { r with pto := some d, st := { r.st with mbxSnd := true } })).setIpcParam s2.cur
        par = some s3) (hb : s3.blockReply ipc d = some s') : RtOk none s' := by
  obtain ⟨-, hrq, -, hss, -, hcur, hbp⟩ := enqueued hn he
  have hp := sendRecv_procs hn he hset hb
  obtain ⟨hrq', hss', hbp'⟩ := blockReply_rest hb
  obtain ⟨w, -, rfl⟩ := setIpcParam_inv hset
  refine h.block hrun hp ?_ ?_ ?_ (hss'.trans hss) (hbp'.trans hbp) ⟨hrun.rt, rfl, rfl⟩
    (fun hc => nomatch congrArg Status.mbxSnd hc) rfl
  · rw [hrq']
    simp only [updProc, hrq, hcur]
  all_goals
    rw [hrq']
    simp only [updProc, hrq]

theorem RtOk.recvReply (h : RtOk none s) (hrun : Running s)
    (hset : s.setIpcParam s.cur par = some s1) (hb : s1.blockReply ipc d = some s') :
    RtOk none s' := by
  obtain ⟨hrq', hss', hbp'⟩ := blockReply_rest hb
  have hp := (blockReply_procs hb).2
  obtain ⟨w, -, rfl⟩ := setIpcParam_inv hset
  exact h.block hrun hp (by rw [hrq']) (by rw [hrq']) (by rw [hrq']) hss' hbp'
    ⟨hrun.rt, rfl, rfl⟩ (fun hc => nomatch congrArg Status.mbxRcv hc) rfl

theorem RtOk.recv {q : MsgQ} (h : RtOk none s) (hrun : Running s)
    (hb : s.blockReceive ipc q = some s') : RtOk none s' := by
  obtain ⟨t, o, -, rfl⟩ := blockReceive_only hb
  exact h.block hrun rfl rfl rfl rfl rfl rfl ⟨hrun.rt, rfl, rfl⟩
    (fun hc => nomatch congrArg Status.mbxRcv hc) rfl

/-- A received request: its sender becomes ready, or goes on waiting for the reply. -/
theorem RtOk.take {q : MsgQ} {src : Proc} (h : RtOk none s) (hm : MsgOk none s)
    (hsrc : procAddr (s.ms.hdr k).src = some src)
    (hok : (s.ms.hdr k).mtype = .rqrcv → (s.procs src).st.mbxRcv = true)
    (hr : s.releaseSender k src = some s1) (hd : s1.dropEntry q k = some s') : RtOk none s' := by
  refine RtOk.same ?_ (dropEntry_only hd).rdy
  -- the sender of a synchronous message waits in its send
  have hsnd : (s.ms.hdr k).mtype.Sync → (s.procs src).st.mbxSnd = true ∧
      (s.procs src).realtime = true := by
    intro hsync
    obtain ⟨p, d, hp, -, hw⟩ := hm.sync k hsync
    rw [hp, procAddr_procNr] at hsrc
    have hps : src = p := (some.inj hsrc).symm
    subst hps
    have hs := (hw.resolve_left (by simp)).1
    refine ⟨hs, ?_⟩
    by_contra hrt
    rw [hm.nrt src (by simpa using hrt)] at hs
    cases hs
  rw [releaseSender] at hr
  split at hr
  · rename_i hc
    obtain ⟨s2, h2, hr⟩ := bind_eq_some_iff.mp hr
    obtain ⟨w, t, -, -, rfl⟩ := stopTimer_inv h2
    obtain ⟨hs, hrt⟩ := hsnd (.inl hc.1)
    obtain ⟨hst, hdn⟩ := h.busy (g := (·.mbxSnd)) hs rfl rfl
    have hul := Unlinks.of_blocked (t := ({ s with tm := t } : KState).updProc src (fun r =>
        { r with pto := none, st := { r.st with mbxSnd := false } })) hst hdn h rfl rfl rfl rfl
      ⟨rfl, rfl, rfl⟩ hdn
    exact h.unblock hul (by simp) hrt (readyIfClear_readied · hr)
  split at hr
  · rename_i hc
    cases hr
    obtain ⟨hs, hrt⟩ := hsnd (.inr hc.1)
    obtain ⟨hst, hdn⟩ := h.busy (g := (·.mbxSnd)) hs rfl rfl
    have hul := Unlinks.of_blocked (t := s.updProc src (fun r =>
        { r with pto := none, st := { r.st with mbxSnd := false } })) hst hdn h rfl rfl rfl rfl
      ⟨rfl, rfl, rfl⟩ hdn
    refine h.unblock hul (by simp) hrt
      (fun _ => ⟨rfl, rfl, rfl, rfl, rfl, fun hcl => ?_, fun _ => rfl⟩)
    -- it still waits for the reply
    rw [updProc_self] at hcl
    have hrcv := hok hc.1
    rw [show (s.procs src).st.mbxRcv = false from congrArg Status.mbxRcv hcl] at hrcv
    cases hrcv
  · cases hr
    exact h

/-! ## Sleeping -/

theorem RtOk.sleep (h : RtOk none s) (hrun : Running s) (hs : s.sleep s.cur n = some (s', c)) :
    RtOk none s' := by
  rcases sleep_inv hs with rfl | ⟨t, rfl, -⟩
  · exact h
  exact h.block hrun rfl rfl rfl rfl rfl rfl ⟨hrun.rt, rfl, rfl⟩
    (fun hc => nomatch congrArg Status.sleep hc) rfl

theorem RtOk.wake {t : TimerSt} (h : RtOk x s) (hx : x ≠ some p)
    (hrt : (s.procs p).realtime = true) (hsl : (s.procs p).st.sleep = true)
    (hr : (({ s with tm := t } : KState).setSt p (fun t => { t with sleep := false })).readyIfClear
      p = some s') : RtOk x s' := by
  obtain ⟨hst, hdn⟩ := h.busy (g := (·.sleep)) hsl rfl rfl
  have hul := Unlinks.of_blocked (t := ({ s with tm := t } : KState).setSt p
    (fun t => { t with sleep := false })) hst hdn h rfl rfl rfl rfl ⟨rfl, rfl, rfl⟩ hdn
  exact h.unblock hul hx hrt (readyIfClear_readied · hr)

/-! ## Semaphores -/

/-- A waiter leaves the wait list of `m`. -/
theorem RdyOk.unwait (h : RdyOk x s) (hp : s.sprocPick m = some p) :
    (s.rq.pool.prmv (some m) p (s.semLevel m p)).Placed (update (rdyPlace x s) p none) :=
  h.pool.prmv (h.picked hp).2.2.2.2

/-- Statistics, the value and the carrier of a semaphore do not matter. -/
theorem SameRdy.updSem {g : SemRec → SemRec} (hg : ∀ r, (g r).order = r.order ∧
    (g r).owner = r.owner) : SameRdy s (s.updSem m g) := by
  refine ⟨rfl, fun _ => ⟨rfl, rfl, rfl, rfl, rfl⟩, ⟨fun i => ?_, rfl⟩, rfl⟩
  by_cases hi : i = m
  · subst hi
    simp [KState.updSem, hg]
  · simp [KState.updSem, hi]

theorem unlockCur_sems (s : KState) (m : Sem) (o : Option Proc) : SameSems s (s.unlockCur m o) :=
  ⟨(SameRdy.updSem (g := fun r => { r with carrier := o }) (fun _ => ⟨rfl, rfl⟩)).sems.sem, rfl⟩

/-- A mutex is handed over: it changes its carrier and its list. -/
theorem handMutex_off {rp : Proc} (hb : s.bpip = false) (h : s.handMutex m rp j = some s') :
    ∃ P, (s.ss.lock.rmv s.cur m).app rp m = some P ∧ s' = { s.unlockCur m (some rp) with
      ss := { (s.unlockCur m (some rp)).ss with lock := P } } := by
  obtain ⟨P, s1, hP, hs1, h⟩ := handMutex_inv h
  refine ⟨P, hP, Eq.trans ?_ hs1⟩
  split at h
  · exact disinherit_off (by rw [hs1]; exact hb) h
  · exact (some.inj h).symm

/-- The waiter that `MRT_semup` wakes, before it is linked into the ready queue. -/
theorem RdyOk.woken {t : KState} (h : RdyOk x s) (hp : s.sprocPick m = some p)
    (hpr : t.procs = update s.procs p { s.procs p with psem := none })
    (hrq : t.rq = { s.rq with pool := s.rq.pool.prmv (some m) p (s.semLevel m p) })
    (hss : SameSems s t) (hb : t.bpip = s.bpip) :
    Unlinks x s (t.setSt p (fun f => { f with semDown := false })) p
      { s.procs p with psem := none, st := { (s.procs p).st with semDown := false } } := by
  refine ⟨?_, ?_, ?_, ?_, hss.trans (.of_eq rfl), hb, rfl, rfl, rfl, rfl⟩
  · simp only [setSt, updProc, hpr, update_self, update_idem]
  · show t.rq.pool.Placed _
    rw [hrq]
    exact h.unwait hp
  · show t.rq.prio = _
    rw [hrq]
  · show t.rq.scheds = _
    rw [hrq]

/-- `MRT_semup`, the part that looks at the links. -/
theorem RtOk.semup (h : RtOk x s) (hs : s.semup m j = some (s', c)) : RtOk x s' := by
  rw [KState.semup] at hs
  split at hs
  · cases hs
    exact h
  simp only [bind_eq_bind, bind_eq_some_iff, some.injEq, Prod.mk.injEq] at hs
  obtain ⟨s1, h1, rfl, -⟩ := hs
  refine RtOk.same ?_ (.updSem (fun _ => ⟨rfl, rfl⟩))
  split at h1
  · obtain ⟨rp, w, t, s2, s3, hrp, hr, -, -, hm, hc⟩ := semupWake_inv h1
    obtain rfl := sprocRmv_inv hr
    obtain ⟨hx, hrt, hst, hps, hpl⟩ := h.picked hrp
    -- a mutex changes its carrier and its list, nothing else
    have h3 : s3.procs = update s.procs rp { s.procs rp with psem := none } ∧
        s3.rq = { s.rq with pool := s.rq.pool.prmv (some m) rp (s.semLevel m rp) } ∧
        SameSems s s3 ∧ s3.bpip = s.bpip := by
      simp only at hm
      split at hm
      · obtain ⟨P, -, rfl⟩ := handMutex_off (by exact h.bpip) hm
        refine ⟨rfl, rfl, ⟨fun i => ?_, rfl⟩, rfl⟩
        exact (unlockCur_sems _ m (some rp)).sem i
      · cases hm
        exact ⟨rfl, rfl, .of_eq rfl, rfl⟩
    obtain ⟨hp3, hrq3, hss3, hb3⟩ := h3
    have hul := h.woken hrp hp3 hrq3 hss3 hb3
    exact h.unblock hul hx hrt (readyIfClear_readied · hc)
  split at h1
  · cases h1
    exact h.same ⟨rfl, fun _ => ⟨rfl, rfl, rfl, rfl, rfl⟩, unlockCur_sems s m none, rfl⟩
  · cases h1
    exact h

/-- The running process goes from the ready queue to the wait list of `m`. -/
theorem RdyOk.wait {t : TimerSt} {P : Pool Empty (Option Sem) Proc 16} (h : RdyOk none s)
    (hrun : Running s) (hown : (s.ss.sem m).owner ≠ hardware)
    (hP : (s.rq.pool.prmv none s.cur (s.rq.prio s.cur)).papp (some m) s.cur
      (s.semLevel m s.cur) = some P) :
    RdyOk none (({ s with tm := t } : KState).updProc s.cur (fun r =>
      { r with psem := some m, st := { r.st with semDown := true } }) |>.setPool P) := by
  have hpl := (h.unlink hrun).of_papp (update_self _ _ _) hP
  rw [update_idem] at hpl
  have hdown : { (s.procs s.cur).st with semDown := true } = Status.down := by
    rw [hrun.clear]
    rfl
  refine h.relink (p := s.cur) rfl (fun _ _ => rfl) (.of_eq rfl) ?_ (fun _ _ => Iff.rfl)
    (fun _ => ⟨hdown, by simp, m, rfl, hown⟩) (fun _ => h.this _ hrun.rt)
  rw [rdyPlace_down (m := m) (by simp)]
  · exact hpl
  all_goals simp only [setPool, updProc, update_self]
  · exact hrun.rt
  · exact hdown

/-- The branch of `MRT_semdown` that blocks the running process. -/
theorem semdownWait_inv (h : s.semdownWait m n = some s') :
    ∃ t P s1, (s.rq.pool.prmv none s.cur (s.rq.prio s.cur)).papp (some m) s.cur
        (s.semLevel m s.cur) = some P ∧
      s1 = (({ s with tm := t } : KState).updProc s.cur (fun r =>
        { r with psem := some m, st := { r.st with semDown := true } }) |>.setPool P) ∧
      (if (s.ss.sem m).inherit then
        KState.inherit 44 s1 (s.rq.prio s.cur).val (s.ss.sem m).carrier
        else some s1) = some s' := by
  simp only [semdownWait, sprocApp, bind_eq_bind, bind_eq_some_iff, map_eq_some_iff] at h
  obtain ⟨s1, h1, s3, ⟨P, hP, rfl⟩, h3⟩ := h
  obtain ⟨t, rfl⟩ := armIpc_inv h1
  exact ⟨t, P, _, hP, rfl, h3⟩

theorem RtOk.wait (h : RtOk none s) (hrun : Running s) (hown : (s.ss.sem m).owner ≠ hardware)
    (hs : s.semdownWait m n = some s') :
    RtOk none s' := by
  obtain ⟨t, P, s1, hP, hs1, h1⟩ := semdownWait_inv hs
  have hb : s1.bpip = false := by
    rw [hs1]
    exact h.bpip
  have hoff : s' = s1 := by
    split at h1
    · exact inherit_off hb h1
    · exact (some.inj h1).symm
  rw [hoff, hs1]
  exact ⟨h.toRdyOk.wait hrun hown hP, h.toUnlimited.change rfl (fun _ => ⟨hrun.rt, rfl⟩)
    (fun _ _ => rfl) rfl⟩

theorem RtOk.semdown (h : RtOk none s) (hrun : Running s) (hs : s.semdown m n = some (s', c)) :
    RtOk none s' := by
  rw [KState.semdown] at hs
  split at hs
  · cases hs
    exact h
  rename_i hown
  have hcount : ∀ t : KState, SameRdy t (t.countDown m) := fun t => .updSem (fun _ => ⟨rfl, rfl⟩)
  split at hs
  · split at hs
    · cases hs
      exact h
    · obtain ⟨s2, h2, he⟩ := map_eq_some_iff.mp hs
      cases he
      exact (h.wait hrun hown h2).same (hcount s2)
  split at hs
  · obtain ⟨s2, h2, he⟩ := map_eq_some_iff.mp hs
    cases he
    obtain ⟨P, -, rfl⟩ := map_eq_some_iff.mp h2
    refine (h.same ?_).same (hcount _)
    have hc : SameRdy s (s.updSem m (fun r => { r with carrier := some s.cur })) :=
      .updSem (fun _ => ⟨rfl, rfl⟩)
    exact ⟨hc.rq, hc.proc, ⟨hc.sems.sem, hc.sems.alloc⟩, hc.bpip⟩
  · cases hs
    exact h.same (hcount s)

/-- The waiter that `MRT_sem_empty` releases, before it is linked into the ready queue. -/
theorem RtOk.released (h : RtOk x s) (hp : s.sprocPick m = some p) (t : TimerSt) :
    Unlinks x s (({ s.setPool (s.rq.pool.prmv (some m) p (s.semLevel m p)) with
      tm := t } : KState).clrDown p) p
      { s.procs p with psem := none, st := { (s.procs p).st with semDown := false } } :=
  ⟨rfl, h.unwait hp, rfl, rfl, .of_eq rfl, rfl, rfl, rfl, rfl, rfl⟩

/-- A waiter of a semaphore of the leaving process is released. -/
theorem RtOk.release (h : RtOk x s) (hp : s.sprocPick m = some p)
    (hr : s.sprocRmv m p = some s1) (hst : s1.stopTimerIf (s1.procs p).ipcvt = some s2)
    (hs : (s2.clrDown p).readyIfClear p = some s') : RtOk x s' := by
  obtain rfl := sprocRmv_inv hr
  obtain ⟨t, rfl⟩ := stopTimerIf_only hst
  obtain ⟨hx, hrt, -, -, -⟩ := h.picked hp
  have hul := h.released hp t
  exact h.unblock hul hx hrt (readyIfClear_readied · hs)

/-- Nobody waits for the semaphore. -/
def NoWaiter (s : KState) (m : Sem) : Prop :=
  ∀ p, (s.procs p).st.semDown = true → (s.procs p).psem ≠ some m

instance (s : KState) (m : Sem) : Decidable (NoWaiter s m) :=
  inferInstanceAs (Decidable (∀ p, (s.procs p).st.semDown = true → (s.procs p).psem ≠ some m))

/-- The record of a semaphore without waiters may be written. -/
theorem RdyOk.rewrite (h : RdyOk x s) (hno : NoWaiter s m)
    (hp : s'.procs = s.procs) (hprio : s'.rq.prio = s.rq.prio)
    (hpool : s'.rq.pool.Placed (rdyPlace x s))
    (hsem : ∀ i, i ≠ m → s'.ss.sem i = s.ss.sem i) (halloc : AllocOk s') : RdyOk x s' := by
  have hother : ∀ {p : Proc}, (s.procs p).st.semDown = true → ∀ i, (s.procs p).psem = some i →
      s'.ss.sem i = s.ss.sem i := by
    intro p hdn i hi
    refine hsem i ?_
    rintro rfl
    exact hno p hdn hi
  refine ⟨hpool.congr (fun p => ?_), fun p hq => ?_, fun p hq => ?_, fun p hq => ?_, halloc,
    fun p hq => ?_⟩
  · simp only [rdyPlace, hp, hprio]
    by_cases hdn : (s.procs p).st.semDown = true
    · cases hps : (s.procs p).psem with
      | none => rfl
      | some i =>
        simp only [map_some, semLevel, hprio, hother hdn i hps]
    · simp [hdn]
  · rw [hp] at hq ⊢
    exact h.this p hq
  · rw [hp] at hq ⊢
    exact h.alone p hq
  · rw [hp] at hq ⊢
    obtain ⟨i, hi, hown⟩ := h.sem p hq
    exact ⟨i, hi, by rw [hother hq i hi]; exact hown⟩
  · rw [hp]
    exact h.leaver p hq

theorem Unlimited.of_eq (h : Unlimited s) (hp : s'.procs = s.procs)
    (hsch : s'.rq.scheds = s.rq.scheds) (hb : s'.bpip = s.bpip) : Unlimited s' := by
  refine ⟨hb.trans h.bpip, fun p hq => ?_⟩
  rw [limitHit, hp, hsch]
  rw [hp] at hq
  exact h.limit p hq

/-- A semaphore goes from the free list to the list of the process `c`. -/
theorem RtOk.semalloc {c : Proc} {a : SAttr} {k : Code} (h : RtOk none s)
    (hs : s.semalloc v c a = some (s', k)) : RtOk none s' := by
  rcases semalloc_cases hs with rfl | ⟨m, pr, P, hfirst, -, -, -, hP, rfl⟩
  · exact h
  obtain ⟨f, hpl, hown⟩ := h.alloc
  have hm : f m = none := by simpa using hpl.of_first hfirst
  have hno : NoWaiter s m := by
    intro p hdn hps
    obtain ⟨i, hi, hne⟩ := h.sem p hdn
    rw [hps] at hi
    cases hi
    rw [hown m, hm] at hne
    exact hne rfl
  refine ⟨h.toRdyOk.rewrite (m := m) hno rfl rfl h.pool
    (fun i hi => update_of_ne hi _ _) ?_, h.toUnlimited.of_eq rfl rfl rfl⟩
  have hpl' := (hpl.rmv (by rw [hm])).of_app (update_self _ _ _) hP
  refine ⟨update f m (some c), hpl'.congr (fun i => ?_), fun i => ?_⟩
  all_goals
    by_cases him : i = m
  · subst him
    simp
  · simp [him]
  · subst him
    simp
  · simp only [update_of_ne him]
    exact hown i

/-- `MRT_sem_free` on a semaphore of the process `c`. -/
theorem AllocOk.semFree {c : Proc} (h : AllocOk s) (hin : m ∈ s.ss.alloc.list (.plain (some c))) :
    ∃ s', s.semFree c m = some s' ∧ AllocOk s' ∧
      s'.ss.sem = update s.ss.sem m .rst := by
  obtain ⟨f, hpl, hown⟩ := h
  have hm := (hpl.mem_list _).mp hin
  have hnone : update (fun m => some (Slot.plain (f m))) m none m =
      (none : Option (Slot (Option Proc) Empty 16)) := update_self _ _ _
  obtain ⟨P, hP, hpl2⟩ := ((hpl.rmv hm).rstLink hnone).app none hnone
  refine ⟨_, map_eq_some_iff.mpr ⟨P, hP, rfl⟩,
    ⟨update f m none, hpl2.congr (fun i => ?_), fun i => ?_⟩, rfl⟩
  all_goals
    by_cases him : i = m
  · subst him
    simp
  · simp [him]
  · subst him
    simp [semRst]
    rfl
  · simp only [semRst, update_of_ne him]
    exact hown i

theorem AllocOk.of_semFree {c : Proc} (h : AllocOk s)
    (hin : m ∈ s.ss.alloc.list (.plain (some c))) (hs : s.semFree c m = some s') : AllocOk s' := by
  obtain ⟨s1, h1, hok, -⟩ := h.semFree hin
  cases hs.symm.trans h1
  exact hok

/-- A semaphore without waiters goes back to the free list. -/
theorem RtOk.semFree {c : Proc} (h : RtOk none s) (hno : NoWaiter s m)
    (hin : m ∈ s.ss.alloc.list (.plain (some c))) (hs : s.semFree c m = some s') :
    RtOk none s' := by
  have halloc := h.alloc.of_semFree hin hs
  obtain ⟨P, hP, rfl⟩ := map_eq_some_iff.mp hs
  refine ⟨h.toRdyOk.rewrite (m := m) hno rfl rfl ?_
    (fun i hi => update_of_ne hi _ _) halloc, h.toUnlimited.of_eq rfl rfl rfl⟩
  · refine (h.pool.prst (some m)).congr (fun p => ?_)
    cases hpp : rdyPlace none s p with
    | none => rfl
    | some i =>
      cases i with
      | plain l => exact l.elim
      | level k l =>
        rw [filter_some, if_pos]
        simp only [Slot.isLevel, Bool.not_eq_true', decide_eq_false_iff_not]
        rintro rfl
        obtain ⟨-, -, hst, hps, -⟩ := h.of_wait hpp
        exact hno p (by rw [hst]; rfl) hps

/-! ## Entering and leaving RT mode -/

/-- Who runs and the MINIX queues do not matter. -/
theorem RdyOk.rdyOnly (h : RdyOk x s) (hs : RdyOnly s s') : RdyOk x s' := by
  have hss := SameSems.of_eq hs.ss
  refine ⟨?_, ?_, ?_, ?_, h.alloc.same hss, ?_⟩
  · rw [hs.pool]
    refine h.pool.congr (fun p => ?_)
    exact rdyPlace_congr (by rw [hs.procs]) (by rw [hs.procs]) (by rw [hs.procs])
      (by rw [hs.prio]) hss
  · rw [hs.procs]
    exact h.this
  · rw [hs.procs]
    exact h.alone
  · rw [hs.procs, hs.ss]
    exact h.sem
  · rw [hs.procs]
    exact h.leaver

/-- What is linked is an RT process. -/
theorem RdyOk.linked_rt (h : RdyOk x s) {i : Slot Empty (Option Sem) 16}
    (hp : rdyPlace x s p = some i) : (s.procs p).realtime = true ∧ (s.procs p).this = some p := by
  have hrt : (s.procs p).realtime = true := by
    by_contra hf
    rw [rdyPlace_nrt (by simpa using hf)] at hp
    cases hp
  exact ⟨hrt, h.this p hrt⟩

/-- No schedule of a MINIX process is counted. -/
theorem RdyOk.scheds_minix (h : RdyOk x s) (hc : PickCounts s s')
    (hrt : (s.procs p).realtime = false) : s'.rq.scheds p = s.rq.scheds p := by
  rcases hc with hc | ⟨y, q, hy, hq, hc⟩
  · rw [hc]
  obtain ⟨l, hl, -⟩ := h.pool.of_pget hy
  obtain ⟨hyrt, hthis⟩ := h.linked_rt hl
  cases hthis.symm.trans hq
  rw [hc, update_of_ne]
  rintro rfl
  rw [hrt] at hyrt
  cases hyrt

/-- **A PROCESS ENTERS RT MODE** and is linked into the ready queue. -/
theorem RdyOk.set2rt (h : RdyOk none s) (hm : MsgOk none s)
    (hthis : (s.procs s.cur).this = some s.cur) (hn : ¬ s.limitHit s.cur)
    (hs : s.rtkSet2rt = some (s', c)) : RdyOk none s' := by
  rcases rtkSet2rt_inv hs with rfl | ⟨q, w, t, s1, hrt, -, -, h1, h2⟩
  · exact h
  have hst := hm.nrt s.cur hrt
  have hu := unready_only h1
  -- the queue and the timer do not matter
  have h0 : RdyOk none (equip s s.cur q t w) :=
    h.same (.of_update rfl rfl ⟨rfl, rfl, rfl, rfl, rfl⟩ rfl rfl)
  have hrt0 : ((equip s s.cur q t w).procs s.cur).realtime = false := by
    simp only [equip, updProc_self]
    exact hrt
  have hsch := h0.scheds_minix (unready_inv h1).2 hrt0
  have hself : s1.procs s.cur = { s.procs s.cur with pmq := some q, ipcvt := some w } := by
    rw [hu.procs]
    exact updProc_self _ _ _
  have hn' : ¬ (s1.updProc s.cur (fun r => { r with realtime := true })).limitHit s.cur := by
    rw [limitHit, updProc_self, hself]
    show ¬ ((s.procs s.cur).limit < s1.rq.scheds s.cur ∧ 0 < (s.procs s.cur).limit)
    rw [hsch]
    exact hn
  have hr := rdyQApp_readied hn' (by rw [updProc_self, hself]; exact hst) h2
  have h1' := h0.rdyOnly hu
  have hP := hr.clear (by rw [updProc_self, hself]; exact hst)
  have hnone : rdyPlace none s1 s.cur = none := rdyPlace_nrt (by rw [hself]; exact hrt)
  refine h1'.relink (p := s.cur) (r := { s1.procs s.cur with realtime := true }) hr.procs
    (fun i _ => by rw [hr.prio]; rfl) (.of_eq hr.ss) ?_ (fun i _ => Iff.rfl) ?_ ?_
  · rw [rdyPlace_ready (by simp) (by rw [hr.procs, updProc_self])
      (by rw [hr.procs, updProc_self, hself]; exact hst), hr.prio]
    exact h1'.pool.of_papp hnone hP
  · intro hd
    rw [hself, show ({ s.procs s.cur with pmq := some q, ipcvt := some w } : RtProc).st = .clear
      from hst] at hd
    cases hd
  · intro _
    rw [hself]
    exact hthis

/-- **A PROCESS STARTS TO LEAVE RT MODE**: it is unlinked and loses its timers. -/
theorem RtOk.leave (h : RtOk none s) (hrt : (s.procs p).realtime = true)
    (hdn : (s.procs p).st.semDown = false)
    (hs : (if s.rtReady p then s.rdyQRmv p else s).dropTimers p = some s') :
    RtOk (some p) s' := by
  obtain ⟨t, rfl⟩ := leave_inv hs
  have hpool : (if s.rtReady p then s.rdyQRmv p else s).rq.pool.Placed
      (update (rdyPlace none s) p none) := by
    by_cases hst : (s.procs p).st = .clear
    · rw [if_pos (by simpa [rtReady] using hst)]
      exact h.pool.prmv (rdyPlace_ready (by simp) hrt hst)
    · rw [if_neg (by simpa [rtReady] using hst),
        update_eq_self_iff.mpr (rdyPlace_blocked hst hdn).symm]
      exact h.pool
  have hsame : (if s.rtReady p then s.rdyQRmv p else s).procs = s.procs ∧
      (if s.rtReady p then s.rdyQRmv p else s).rq.prio = s.rq.prio ∧
      (if s.rtReady p then s.rdyQRmv p else s).rq.scheds = s.rq.scheds ∧
      (if s.rtReady p then s.rdyQRmv p else s).ss = s.ss ∧
      (if s.rtReady p then s.rdyQRmv p else s).bpip = s.bpip := by
    split <;> exact ⟨rfl, rfl, rfl, rfl, rfl⟩
  obtain ⟨hp, hprio, hsch, hss, hb⟩ := hsame
  have hupd : (({ (if s.rtReady p then s.rdyQRmv p else s) with tm := t } : KState).updProc p
      (fun r => { r with pvt := none, ipcvt := none })).procs =
      update s.procs p { s.procs p with pvt := none, ipcvt := none } := by
    simp only [updProc, hp]
  refine ⟨h.toRdyOk.relink hupd (fun i _ => congrFun hprio i) (.of_eq hss) ?_ (fun i hi => ?_)
    (fun hd => by cases hdn.symm.trans hd) (fun _ => h.this p hrt),
    h.toUnlimited.change hupd (fun _ => ⟨hrt, rfl⟩) (fun i _ => congrFun hsch i) hb⟩
  · rw [show rdyPlace (some p) _ p = none from by rw [rdyPlace, if_pos (.inl rfl)]]
    exact hpool
  · simp [Ne.symm hi]

/-- A process that is no RT process any more waits for nothing. -/
theorem backToMinix_only (s : KState) (p : Proc) : RdyOnly (s.updProc p (fun r =>
    { r with st := .clear, periodic := false, realtime := false })) (s.backToMinix p) := by
  rw [backToMinix]
  split
  · exact ready_only _ _
  · exact .refl _

/-- **IT IS A MINIX PROCESS AGAIN.** -/
theorem RtOk.back (h : RtOk (some p) s) : RtOk none (s.backToMinix p) := by
  have hro := backToMinix_only s p
  have hrq : (s.backToMinix p).rq = s.rq := by
    rw [backToMinix]
    split
    · rw [ready]
      split <;> rfl
    · rfl
  have h1 : RdyOk none (s.updProc p (fun r =>
      { r with st := .clear, periodic := false, realtime := false })) := by
    refine h.toRdyOk.relink (p := p) rfl (fun _ _ => rfl) (.of_eq rfl) ?_ (fun i hi => ?_)
      (by rintro ⟨⟩) (by rintro ⟨⟩)
    · rw [rdyPlace_nrt (by rw [updProc_self])]
      refine h.pool.congr (fun i => ?_)
      by_cases hi : i = p
      · subst hi
        rw [update_self, rdyPlace, if_pos (.inl rfl)]
      · rw [update_of_ne hi]
    · simp [Ne.symm hi]
  exact ⟨h1.rdyOnly hro, h.toUnlimited.change hro.procs (by rintro ⟨⟩)
    (fun _ _ => by rw [hrq]) hro.bpip⟩

/-- The record and the link of a MINIX process are written. -/
theorem RtOk.minix (h : RtOk none s) (hrt : (s.procs p).realtime = false)
    (hp : s'.procs = update s.procs p r) (hr : r.realtime = false ∧ r.st = .clear)
    (hprio : ∀ i, i ≠ p → s'.rq.prio i = s.rq.prio i)
    (hsch : ∀ i, i ≠ p → s'.rq.scheds i = s.rq.scheds i) (hb : s'.bpip = s.bpip)
    (hpool : s'.rq.pool = s.rq.pool.rstLink p) (hss : SameSems s s') : RtOk none s' := by
  have hself : s'.procs p = r := by rw [hp, update_self]
  have hnone : rdyPlace none s p = none := rdyPlace_nrt hrt
  have hnrt : ¬ r.realtime = true := by simp [hr.1]
  refine ⟨h.toRdyOk.relink hp hprio hss ?_ (fun _ _ => Iff.rfl) (fun hd => ?_)
    (fun hf => absurd hf hnrt),
    h.toUnlimited.change hp (fun hf => absurd hf hnrt) (fun i hi => hsch i ?_) hb⟩
  · rw [hpool, rdyPlace_nrt (by rw [hself]; exact hr.1), update_eq_self_iff.mpr hnone.symm]
    exact h.pool.rstLink hnone
  · rw [hr.2] at hd
    cases hd
  · rintro rfl
    rw [hself] at hi
    exact hnrt hi

theorem RtOk.writeAttr {a : PAttr} {k : Prty} (h : RtOk none s)
    (hrt : (s.procs p).realtime = false) : RtOk none (s.writeAttr p a k) :=
  h.minix hrt rfl ⟨hrt, rfl⟩ (fun _ hi => update_of_ne hi _ _) (fun _ _ => rfl) rfl rfl
    (.of_eq rfl)

/-- The list of semaphores of the process is empty when its record is reset. -/
theorem RtOk.procRst (h : RtOk none s) (hrt : (s.procs p).realtime = false)
    (hf : s.ss.alloc.first (some p) = none) : RtOk none (s.procRst p) := by
  have h1 : RtOk none { s.procRst p with ss := s.ss } :=
    h.minix hrt rfl ⟨hrt, rfl⟩ (fun i hi => update_of_ne hi _ _)
      (fun i hi => update_of_ne hi _ _) rfl rfl (.of_eq rfl)
  obtain ⟨f, hpl, hown⟩ := h.alloc
  have hno : ∀ m, f m ≠ some p := by
    intro m hm
    exact hpl.first_eq_none.mp hf m (by rw [hm])
  refine ⟨⟨h1.pool, h1.this, h1.alone, h1.sem, ⟨f, ?_, hown⟩, h1.leaver⟩, ⟨h1.bpip, h1.limit⟩⟩
  refine (hpl.lrst (some p)).congr (fun m => ?_)
  rw [filter_some, if_pos]
  simpa using hno m

/-! ## Timeouts -/

/-- A waiter whose time is up leaves the wait list. -/
theorem RdyOk.gaveUp (h : RdyOk none s) (hrt : (s.procs p).realtime = true)
    (hdn : (s.procs p).st.semDown = true) (hps : (s.procs p).psem = some m) :
    Unlinks none s ((s.setPool (s.rq.pool.prmv (some m) p (s.semLevel m p))).setSt p
      (fun t => { t with semDown := false })) p
      { s.procs p with st := { (s.procs p).st with semDown := false } } :=
  ⟨rfl, h.pool.prmv (rdyPlace_down (by simp) hrt (h.alone p hdn) hps), rfl, rfl, .of_eq rfl, rfl,
    rfl, rfl, rfl, rfl⟩

theorem RtOk.timeout {t : Timer} (h : RtOk none s) (hrt : (s.procs p).realtime = true)
    (hown : t.owner = procNr p) (ht : Timeout v s p t s') : RtOk none s' := by
  have hp : ∀ {p'}, procAddr t.owner = some p' → p' = p := by
    intro p' hp'
    rw [hown, procAddr_procNr] at hp'
    exact (some.inj hp').symm
  -- a wait for a message
  have hmail : (s.procs p).st.mbxSnd = true ∨ (s.procs p).st.mbxRcv = true →
      (s.procs p).st ≠ .clear ∧ (s.procs p).st.semDown = false := by
    rintro (hw | hw)
    · exact h.busy (g := (·.mbxSnd)) hw rfl rfl
    · exact h.busy (g := (·.mbxRcv)) hw rfl rfl
  have hret : ∀ {s3 : KState}, RtOk none s3 → RtOk none (s3.setRet p .timeout) :=
    fun h3 => h3.same (.of_eq rfl rfl rfl rfl)
  cases ht with
  | sndto _ hs ha =>
    obtain ⟨p', s1, s2, s3, hp', h1, h2, h3, rfl⟩ := actSndto_inv ha
    obtain rfl := hp hp'
    obtain ⟨-, -, -, -, -, -, -, -, -, hs1⟩ := cancelSend_inv h1
    obtain rfl := disinherit_off (by rw [hs1]; exact h.bpip) h2
    obtain ⟨hst, hdn⟩ := hmail (.inl hs)
    have hul := Unlinks.of_blocked (t := s2.updProc p' (fun r =>
        { r with pto := none, st := { r.st with mbxSnd := false } }))
      (r := { s.procs p' with pto := none, st := { (s.procs p').st with mbxSnd := false } })
      hst hdn h (by rw [hs1]; rfl) (by rw [hs1]; rfl) (by rw [hs1]; rfl) (by rw [hs1]; rfl)
      ⟨rfl, rfl, rfl⟩ hdn
    exact hret (h.unblock hul (by simp) hrt (readyOnTimeout_readied · h3))
  | rcvfr _ hs ha =>
    obtain ⟨p', s1, hp', h1, rfl⟩ := actRcvfr_inv ha
    obtain rfl := hp hp'
    obtain ⟨hst, hdn⟩ := hmail (.inr hs)
    have hul := Unlinks.of_blocked (t := s.updProc p' (fun r =>
        { r with pfrom := none, st := { r.st with mbxRcv := false } })) hst hdn h rfl rfl rfl rfl
      ⟨rfl, rfl, rfl⟩ hdn
    exact hret (h.unblock hul (by simp) hrt (readyOnTimeout_readied · h1))
  | sndrcv _ hs ha =>
    obtain ⟨p', s1, s2, s3, hp', h1, h2, h3, rfl⟩ := actSndrcv_inv ha
    obtain rfl := hp hp'
    obtain ⟨hst, hdn⟩ := hmail (.inr hs)
    -- the send part, if there is one, leaves the process blocked
    have hul : ∃ r, Unlinks none s (s2.updProc p' (fun r =>
        { r with pfrom := none, st := { r.st with mbxRcv := false } })) p' r := by
      rcases h1 with ⟨-, s0, h0, rfl⟩ | ⟨-, rfl⟩
      · obtain ⟨-, -, -, -, -, -, -, -, -, hs0⟩ := cancelSend_inv h0
        obtain rfl := disinherit_off (by rw [hs0]; exact h.bpip) h2
        refine ⟨_, .of_blocked hst hdn h (r := { s.procs p' with
          pto := none, pfrom := none,
          st := { (s.procs p').st with mbxSnd := false, mbxRcv := false } }) ?_ (by rw [hs0]; rfl)
          (by rw [hs0]; rfl) (by rw [hs0]; rfl) ⟨rfl, rfl, rfl⟩ hdn⟩
        rw [hs0]
        simp only [updProc, update_self, update_idem]
      · obtain rfl := disinherit_off h.bpip h2
        exact ⟨{ s2.procs p' with
          pfrom := none, st := { (s2.procs p').st with mbxRcv := false } },
          Unlinks.of_blocked hst hdn h rfl rfl rfl rfl ⟨rfl, rfl, rfl⟩ hdn⟩
    obtain ⟨r, hul⟩ := hul
    exact hret (h.unblock hul (by simp) hrt (readyOnTimeout_readied · h3))
  | @down m _ hdn hps hpar ha =>
    obtain ⟨p', m', s1, s2, hp', hm', h1, h2, rfl⟩ := actDown_inv ha
    obtain rfl := hp hp'
    rw [hpar, tabAddr_eq_some] at hm'
    have hmm : m' = m := by omega
    subst hmm
    obtain rfl := sprocRmv_inv h1
    have hul := h.gaveUp hrt hdn hps
    exact hret (h.unblock hul (by simp) hrt (readyOnTimeout_readied · h2))

theorem RtOk.expire {O : VT → Prop} {b : Bool} {k : Prty} (h : RtOk none s)
    (hi : IpcOk O b none s) (hpl : s.tm.place w = some (.exp k))
    (hthis : (s.tm.vt w).this = some w) (hr : s.vtimerRun v w = some s') : RtOk none s' := by
  obtain ⟨s1, tm, t, -, -, rfl, hcase⟩ := hi.timers.expire_inv hpl hthis hr
  have h0 : RtOk none { s with tm := tm } := h.same (.of_eq rfl rfl rfl rfl)
  refine RtOk.same ?_ (s := s1) (.of_eq rfl rfl rfl rfl)
  rcases hcase with ⟨rfl, -⟩ | ⟨p, hw, ht⟩
  · exact h0
  · obtain ⟨hrt, hown, -⟩ := hi.timers.own p w hw
    refine h0.timeout hrt ?_ ht
    exact hown

/-! ## Moves -/

/-- The events in which no process enters or leaves RT mode and no semaphore is freed. -/
def Event.plain : Event → Bool
  | .rtk _ _ .set2rt | .rtk _ _ .set2nrt => false
  | .task _ (.semfree _ _) | .task _ (.exit _) | .task _ (.stdsignal _ _) => false
  | .rtk _ _ _ | .task _ _ | .ksend _ _ _ _ _ _ | .inherit _ _ | .disinherit _ _
  | .irqTimer _ _ _ | .tick | .flush _ _ _ => true

/-- A receive that takes the request of an `rtk_rqrcv` finds its sender waiting for the
    reply. -/
def TakesWaiting (s : KState) : Event → Prop
  | .rtk p _ (.receive ipc) => ∀ q ∈ (s.procs p).pmq, ∀ o ∈ s.ms.mqePick q ipc.pNr, ∀ k ∈ o,
      (s.ms.hdr k).mtype = .rqrcv → ∀ src ∈ procAddr (s.ms.hdr k).src,
        (s.procs src).st.mbxRcv = true
  | _ => True

variable {O : VT → Prop} {b : Bool}

/-- A leaving process has no timer any more, so nothing makes it ready. -/
theorem MsgOk.not_leaving (h : MsgOk x s) (hw : (s.procs p).ipcvt = some w) : x ≠ some p := by
  intro hx
  rw [(h.leaving p hx).2] at hw
  cases hw

/-- **EVERY MOVE OF A PLAIN EVENT KEEPS THE READY QUEUE RIGHT.** -/
theorem Move.rtOk (hm : Move e (x, s) (x', s')) (he : e.plain = true)
    (hcur : ∀ p v c, e = .rtk p v (.receive c) → s.cur = p) (ht : TakesWaiting s e)
    (hi : IpcOk O b x s) (hq : Quiet s e) (h : RtOk x s) : RtOk x' s' := by
  cases hm with
  | book hb => exact h.same (.of_eq hb.rq hb.procs hb.ss hb.bpip)
  | watch p w => exact h.same (.of_update rfl rfl ⟨rfl, rfl, rfl, rfl, rfl⟩ rfl rfl)
  | inherit _ hs =>
    obtain rfl := inherit_off h.bpip hs
    exact h
  | disinherit _ hs =>
    obtain rfl := disinherit_off h.bpip hs
    exact h
  | deliver _ hrt hrcv _ hu =>
    obtain ⟨_, w, _, -, hw, -, -⟩ := unblockReceiver_inv hu
    exact h.deliver (hi.msgs.not_leaving hw) hrt hrcv hu
  | queue _ _ _ _ _ _ _ hn hs =>
    exact h.same (enqueued hn hs).rdy
  | lose hl _ => exact absurd hq.copies hl
  | send hrun _ _ _ _ hn hs ha => exact h.send hrun hn hs ha
  | sendRecv hrun _ _ _ _ _ hn hs hset hb => exact h.sendRecv hrun hn hs hset hb
  | recvReply hrun _ _ _ hset hb => exact h.recvReply hrun hset hb
  | recv hrun _ _ _ hb => exact h.recv hrun hb
  | take _ hev hpq hk hsrc hr hd =>
    subst hev
    rw [hcur _ _ _ rfl] at hpq
    exact h.take hi.msgs hsrc (fun hty => ht _ hpq _ hk _ rfl hty _ hsrc) hr hd
  | sleep hrun hs => exact h.sleep hrun hs
  | stop _ _ hs =>
    obtain ⟨w, t, -, -, rfl⟩ := stopTimer_inv hs
    exact h.same (.of_eq rfl rfl rfl rfl)
  | wake _ hrt hs hsl hr =>
    obtain ⟨w, t, hw, -, rfl⟩ := stopTimer_inv hs
    exact h.wake (hi.msgs.not_leaving hw) hrt hsl hr
  | semup _ _ _ hs | unlock _ _ hs => exact h.semup hs
  | semdown hrun _ _ hs => exact h.semdown hrun hs
  | release _ _ _ hp hr hst hs => exact h.release hp hr hst hs
  | semalloc _ _ _ hs => exact h.semalloc hs
  | semFree _ hev _ =>
    rcases hev with ⟨_, _, rfl, -⟩ | ⟨_, _, _, rfl, -⟩
    · cases he
    · cases he
  | set2rt hev => exact nomatch hev ▸ he
  | leave hl _ _ =>
    unfold Leaves at hl
    split at hl
    · cases he
    · cases he
    · cases he
    · exact hl.elim
  | dropQueue hs =>
    rcases dropQueue_inv hs with ⟨-, rfl⟩ | ⟨q, m, -, -, -, rfl⟩
    · exact h
    · exact h.same (.of_update rfl rfl ⟨rfl, rfl, rfl, rfl, rfl⟩ rfl rfl)
  | sweep _ _ _ hs =>
    exact h.same (dropEntry_only hs).rdy
  | back _ _ => exact h.back
  | procRst _ hrt hf => exact h.procRst hrt hf
  | writeAttr _ hrt => exact h.writeAttr hrt
  | irqTimer ha hs =>
    obtain ⟨t, rfl⟩ := irqTimer_only ha hs
    exact h.same (.of_eq rfl rfl rfl rfl)
  | tick _ _ => exact h.same (.of_eq rfl rfl rfl rfl)
  | @expire _ _ p v k plk w _ hf hthis hs =>
    have hpl := hi.timers.tm.placed.of_first hf
    obtain rfl := (hi.timers.tm.fits plk).this w hthis
    exact h.expire hi hpl hthis hs

/-- The moves of a plain event that is no receive, one after the other. -/
theorem Moves.rtOk {a c : Option Proc × KState} (hm : Moves e a c) (he : e.plain = true)
    (hf : e.isFlush = false) (hr : ∀ p v c, e ≠ .rtk p v (.receive c))
    (hi : IpcOk O false a.1 a.2) (hq : Quiet a.2 e) (h : RtOk a.1 a.2) :
    IpcOk O false c.1 c.2 ∧ Quiet c.2 e ∧ RtOk c.1 c.2 := by
  have ht : ∀ s, TakesWaiting s e := by
    intro s
    unfold TakesWaiting
    split
    · exact absurd rfl (hr _ _ _)
    · trivial
  induction hm with
  | refl => exact ⟨hi, hq, h⟩
  | tail _ hmv ih =>
    obtain ⟨hi1, hq1, h1⟩ := ih
    exact ⟨(hmv.ipcOk (hi1.calm hq1.calm) hq1).calm nofun, hmv.quiet hi1 hq1 hf,
      hmv.rtOk he (fun _ _ _ hev => absurd hev (hr _ _ _)) (ht _) hi1 hq1 h1⟩

/-! ## Leaving RT mode -/

/-- Only RT processes wait for semaphores. -/
def DownRt (s : KState) : Prop := ∀ p, (s.procs p).st.semDown = true → (s.procs p).realtime = true

theorem MsgOk.downRt (h : MsgOk x s) : DownRt s := by
  intro p hdn
  by_contra hrt
  rw [h.nrt p (by simpa using hrt)] at hdn
  cases hdn

/-- A process that waits for a semaphore of the leaving process is released. -/
theorem RtOk.releaseStep (h : RtOk x s) (hs : ReleaseStep m s s') :
    RtOk x s' ∧ ∃ q r, s'.procs = update s.procs q r ∧ r.st.semDown = false ∧ s'.ss = s.ss := by
  cases hs with
  | wake hp h1 h2 h3 =>
    obtain ⟨hpr, -, hss, -⟩ := release_only h1 h2 h3
    exact ⟨(h.release hp h1 h2 h3).same (.of_eq rfl rfl rfl rfl), _, _, hpr, rfl, hss⟩

/-- The inner loop of `MRT_sem_empty` leaves nobody waiting for `m`. -/
theorem RtOk.releaseWaiters {n : Nat} (h : RtOk x s) (hrt : DownRt s)
    (hs : releaseWaiters m n s = some s') :
    RtOk x s' ∧ DownRt s' ∧ NoWaiter s' m ∧ (∀ i, NoWaiter s i → NoWaiter s' i) ∧
      s'.ss = s.ss := by
  obtain ⟨hsteps, hnone⟩ := releaseWaiters_steps hs
  suffices hk : RtOk x s' ∧ DownRt s' ∧ (∀ i, NoWaiter s i → NoWaiter s' i) ∧ s'.ss = s.ss from
    ⟨hk.1, hk.2.1, fun p hdn => hk.1.nobody hnone (hk.2.1 p hdn) hdn, hk.2.2⟩
  clear hs hnone
  induction hsteps with
  | refl => exact ⟨h, hrt, fun _ hi => hi, rfl⟩
  | @tail s1 s2 _ hs ih =>
    obtain ⟨h1, hrt1, hno1, hss1⟩ := ih
    obtain ⟨h2, q, r, hpr, hr, hss2⟩ := h1.releaseStep hs
    -- the released process waits no longer, the others wait as before
    have hdown : ∀ p, (s2.procs p).st.semDown = true → s2.procs p = s1.procs p := by
      intro p hdn
      rw [hpr] at hdn ⊢
      by_cases hpq : p = q
      · subst hpq
        rw [update_self, hr] at hdn
        cases hdn
      · exact update_of_ne hpq _ _
    refine ⟨h2, fun p hdn => ?_, fun i hi p hdn => ?_, hss2.trans hss1⟩
    · have he := hdown p hdn
      rw [he]
      exact hrt1 p (he ▸ hdn)
    · have he := hdown p hdn
      rw [he]
      exact hno1 i hi p (he ▸ hdn)

theorem RtOk.semEmptyLoop {ms : List Sem} (h : RtOk x s) (hrt : DownRt s)
    (hs : semEmptyLoop ms s = some s') :
    RtOk x s' ∧ (∀ m ∈ ms, NoWaiter s' m) ∧ (∀ i, NoWaiter s i → NoWaiter s' i) ∧
      s'.ss = s.ss := by
  induction ms generalizing s with
  | nil =>
    cases hs
    exact ⟨h, by simp, fun _ hi => hi, rfl⟩
  | cons m ms ih =>
    obtain ⟨s1, h1, h2⟩ := bind_eq_some_iff.mp hs
    obtain ⟨hr1, hrt1, hno1, hmono1, hss1⟩ := h.releaseWaiters hrt h1
    obtain ⟨hr2, hno2, hmono2, hss2⟩ := ih hr1 hrt1 h2
    refine ⟨hr2, fun i hi => ?_, fun i hi => hmono2 i (hmono1 i hi), hss2.trans hss1⟩
    rcases List.mem_cons.mp hi with rfl | hi
    · exact hmono2 i hno1
    · exact hno2 i hi

/-- **THE SEMAPHORES OF THE LEAVING PROCESS HAVE NO WAITERS ANY MORE.** -/
theorem RtOk.semEmpty (h : RtOk x s) (hrt : DownRt s) (hhw : p ≠ hardwareProc)
    (hs : (if s.ss.alloc.count (some p) ≠ 0 then s.semEmpty p else some s) = some s') :
    RtOk x s' ∧ s'.ss = s.ss ∧ ∀ m, (s.ss.sem m).owner = procNr p → NoWaiter s' m := by
  obtain ⟨f, hpl, hown⟩ := h.alloc
  have hf : ∀ m, (s.ss.sem m).owner = procNr p → f m = some p := by
    intro m hm
    rw [hown m] at hm
    cases hfm : f m with
    | none =>
      rw [hfm] at hm
      exact absurd (procNr_inj.mp (hm.symm.trans (by decide : hardware = procNr hardwareProc))) hhw
    | some c =>
      rw [hfm] at hm
      rw [procNr_inj.mp hm]
  split at hs
  · obtain ⟨ms, hms, hs⟩ := bind_eq_some_iff.mp hs
    obtain ⟨xs, hxs, -, hmem⟩ := hpl.chain (some p)
    cases hms.symm.trans hxs
    obtain ⟨h1, hno, -, hss⟩ := h.semEmptyLoop hrt hs
    exact ⟨h1, hss, fun m hm => hno m ((hmem m).mpr (by rw [hf m hm]))⟩
  · rename_i hz
    cases hs
    refine ⟨h, rfl, fun m hm => ?_⟩
    rw [not_not, hpl.count_eq, Nat.cast_eq_zero, Finset.card_eq_zero,
      Finset.filter_eq_empty_iff] at hz
    exact absurd (by rw [hf m hm]) (hz (Finset.mem_univ m))

/-- The notices and the clean-up keep the ready queue right. -/
theorem RtOk.detach (h : RtOk none s) (hi : IpcOk O true none s) (hv : v.Copies)
    (hrt : (s.procs p).realtime = true) (hdn : (s.procs p).st.semDown = false)
    (hs : s.detach v p = some s') : RtOk (some p) s' ∧ IpcOk O true (some p) s' := by
  obtain ⟨s1, h1, hsteps⟩ := detach_steps hs
  have hi1 := hi.leave hrt h1
  -- they are moves of a plain call, in which `p` is leaving
  let e : Event := .ksend p v 0 0 0 .irq
  have hcalls : Calls e v := ⟨rfl, id⟩
  have hmv : Moves e (some p, s1) (some p, s') := Moves.of_steps (DetachStep.moves hcalls) hsteps
  obtain ⟨hi', hq', hr'⟩ := hmv.rtOk rfl rfl (fun _ _ _ hf => nomatch hf)
    (hi1.calm nofun) ⟨hv, fun _ => hi1.timers.calm rfl, trivial⟩
    (h.leave hrt hdn h1)
  exact ⟨hr', hi'.calm (fun _ => hq'.calm rfl)⟩

theorem RtOk.unlocking (h : RtOk x s) (hi : IpcOk O true x s)
    (hs : (if s.ss.lock.count p ≠ 0 then KState.semUnlock v p 64 s else some s) = some s') :
    RtOk x s' ∧ IpcOk O true x s' := by
  have hsteps := unlocking_steps hs
  clear hs
  induction hsteps with
  | refl => exact ⟨h, hi⟩
  | tail _ hs ih =>
    obtain ⟨m, j, c, -, hs⟩ := hs
    exact ⟨ih.1.semup hs, ih.2.semup hs⟩

/-- **`MRT_set2nrt` KEEPS THE READY QUEUE RIGHT** if the process does not wait for a
    semaphore.  Afterwards nobody waits for a semaphore of the process. -/
theorem RtOk.set2nrt (h : RtOk none s) (hi : IpcOk O true none s) (hv : v.Copies)
    (hdn : (s.procs p).st.semDown = false) (hs : s.set2nrt v p = some (s', c)) :
    RtOk none s' ∧ (s'.procs p).realtime = false ∧ ((s.procs p).realtime = true →
      ∀ m, (s'.ss.sem m).owner = procNr p → NoWaiter s' m) := by
  rcases set2nrt_inv hs with ⟨hrt, rfl⟩ | ⟨hrt, s1, s2, s3, h1, h2, h3, rfl⟩
  · exact ⟨h, hrt, fun hf => absurd hf (by simp [hrt])⟩
  obtain ⟨hr1, hi1⟩ := h.detach hi hv hrt hdn h1
  obtain ⟨hr2, hi2⟩ := hr1.unlocking hi1 h2
  obtain ⟨hr3, hss, hno⟩ := hr2.semEmpty hi2.msgs.downRt (hi.timers.slot p hrt) h3
  have hro := backToMinix_only s3 p
  refine ⟨hr3.back, backToMinix_rt s3 p, fun _ m hm i hdn => ?_⟩
  have hm2 : (s2.ss.sem m).owner = procNr p := by
    rw [hro.ss] at hm
    rw [← hss]
    exact hm
  rw [hro.procs] at hdn ⊢
  by_cases hip : i = p
  · subst hip
    rw [updProc_self] at hdn
    cases hdn
  · rw [updProc_ne _ _ hip] at hdn ⊢
    exact hno m hm2 i hdn

/-! ## Freeing semaphores -/

/-- A semaphore in the list of `p` names `p` as its owner. -/
theorem AllocOk.owner_of_first (h : AllocOk s) (hf : s.ss.alloc.first (some p) = some m) :
    m ∈ s.ss.alloc.list (.plain (some p)) ∧ (s.ss.sem m).owner = procNr p := by
  obtain ⟨f, hpl, hown⟩ := h
  have hm := hpl.of_first hf
  refine ⟨(hpl.mem_list _).mpr hm, ?_⟩
  simp only [some.injEq, Slot.plain.injEq] at hm
  rw [hown m, hm]
  rfl

theorem AllocOk.mem_of_owner (h : AllocOk s) (hne : (s.ss.sem m).owner ≠ hardware)
    (ho : (s.ss.sem m).owner = procNr p) : m ∈ s.ss.alloc.list (.plain (some p)) := by
  obtain ⟨f, hpl, hown⟩ := h
  rw [hpl.mem_list]
  rw [hown m] at ho hne
  cases hfm : f m with
  | none =>
    rw [hfm] at hne
    exact absurd rfl hne
  | some c =>
    rw [hfm] at ho
    rw [procNr_inj.mp ho]

/-- The loop of `MRT_exit` frees semaphores that nobody waits for. -/
theorem RtOk.freeSems : ∀ {n : Nat} {s : KState}, RtOk none s →
    (∀ m, (s.ss.sem m).owner = procNr p → NoWaiter s m) → freeSems p n s = some s' →
    RtOk none s' ∧ s'.procs = s.procs ∧ s'.ss.alloc.first (some p) = none := by
  intro n
  induction n with
  | zero =>
    intro s _ _ hs
    cases hs
  | succ n ih =>
    intro s h hno hs
    rw [KState.freeSems] at hs
    cases hf : s.ss.alloc.first (some p) with
    | none =>
      simp only [hf, some.injEq] at hs
      subst hs
      exact ⟨h, rfl, hf⟩
    | some m =>
      simp only [hf] at hs
      obtain ⟨s1, h1, h2⟩ := bind_eq_some_iff.mp hs
      obtain ⟨hin, ho⟩ := h.alloc.owner_of_first hf
      have hr1 := h.semFree (hno m ho) hin h1
      have hp1 := (semFree_only h1).procs
      have hno1 : ∀ i, (s1.ss.sem i).owner = procNr p → NoWaiter s1 i := by
        intro i hi q hdn
        rw [hp1] at hdn ⊢
        by_cases him : i = m
        · subst him
          exact hno i ho q hdn
        · obtain ⟨P, -, rfl⟩ := map_eq_some_iff.mp h1
          simp only [semRst, update_of_ne him] at hi
          exact hno i hi q hdn
      obtain ⟨h3, hp3, hf3⟩ := ih hr1 hno1 h2
      exact ⟨h3, hp3.trans hp1, hf3⟩

/-! ## Every run -/

/-- The condition on an event that is not plain: a new RT process is linked by `this` and
    has schedules left, a freed semaphore has no waiters, and a process that is taken out
    of RT mode waits for no semaphore. -/
def Settled (s : KState) : Event → Prop
  | .rtk p _ .set2rt => (s.procs p).this = some p ∧ ¬ s.limitHit p
  | .task _ (.semfree _ id) => ∀ m ∈ tabAddr 16 id, NoWaiter s m
  | .task _ (.exit nr) => ∀ rp ∈ procAddr nr, (s.procs rp).st.semDown = false ∧
      ((s.procs rp).realtime = false → ∀ m, (s.ss.sem m).owner = procNr rp → NoWaiter s m)
  | .task _ (.stdsignal _ pid) => ∀ rp ∈ s.pid2pptr pid, (s.procs rp).st.semDown = false
  | _ => True

/-- The condition on an event under which the ready queue stays right. -/
structure Steady (s : KState) (e : Event) : Prop extends Quiet s e, Unlimited s where
  takes : TakesWaiting s e
  settled : Settled s e

instance (s : KState) : Decidable (Unlimited s) :=
  decidable_of_iff (s.bpip = false ∧ ∀ p, (s.procs p).realtime = true → ¬ s.limitHit p)
    ⟨fun h => ⟨h.1, h.2⟩, fun h => ⟨h.bpip, h.limit⟩⟩

instance (s : KState) (e : Event) : Decidable (TakesWaiting s e) := by
  unfold TakesWaiting
  split <;> infer_instance

instance (s : KState) (e : Event) : Decidable (Settled s e) := by
  unfold Settled
  split <;> infer_instance

instance (s : KState) (e : Event) : Decidable (Steady s e) :=
  decidable_of_iff (Quiet s e ∧ Unlimited s ∧ TakesWaiting s e ∧ Settled s e)
    ⟨fun h => ⟨h.1, h.2.1, h.2.2.1, h.2.2.2⟩,
      fun h => ⟨h.toQuiet, h.toUnlimited, h.takes, h.settled⟩⟩

theorem Enters.same {s0 : KState} (h : Enters e s s0) : SameRdy s s0 := by
  unfold Enters at h
  split at h
  · subst h
    exact .of_eq rfl rfl rfl rfl
  · obtain ⟨-, rfl⟩ := h
    exact .of_eq rfl rfl rfl rfl

/-- **EVERY PLAIN EVENT KEEPS THE READY QUEUE RIGHT.** -/
theorem RtOk.plain_step (h : RtOk none s) (hi : IpcOk O false none s) (hq : Quiet s e)
    (ht : TakesWaiting s e) (he : e.plain = true) (hs : s.step e = some s') :
    RdyOk none s' := by
  obtain ⟨s0, s1, hent, hm, hfl, hp⟩ := step_moves hs
  have hsch := hent.sched
  have h0 : RtOk none s0 := h.same hent.same
  have hi0 : IpcOk O false none s0 := hi.sched hsch
  have hq0 : Quiet s0 e := hq.of_eq hsch.procs hsch.tm hsch.ms
  have hend : ∀ {s1}, RtOk none s1 → s' = s1 ∨ s1.pickProc = some s' → RdyOk none s' := by
    rintro s1 h1 (rfl | hp)
    · exact h1.toRdyOk
    · exact h1.toRdyOk.rdyOnly (pickProc_only hp).1
  by_cases hf : e.isFlush = true
  · rcases hfl hf with rfl | hmv
    · exact hend h0 hp
    · refine hend (hmv.rtOk he (fun p v c hev => ?_) ?_ hi0 hq0 h0) hp
      · rw [hev] at hf
        cases hf
      · cases e with
        | flush _ _ _ => trivial
        | rtk _ _ _ | task _ _ | ksend _ _ _ _ _ _ | inherit _ _ | disinherit _ _
        | irqTimer _ _ _ | tick => cases hf
  have hf : e.isFlush = false := by simpa using hf
  by_cases hr : ∃ p v c, e = .rtk p v (.receive c)
  · -- a receive is one move
    obtain ⟨p, v, c, rfl⟩ := hr
    obtain ⟨s2, s3, -, hm, hb, hp⟩ := step_receive hs
    have h0 : RtOk none { s with cur := p } := h.same (.of_eq rfl rfl rfl rfl)
    have h2 : RtOk none s2 := by
      rcases hm with rfl | hm
      · exact h0
      · refine hm.rtOk he (fun p' v' c' hev => ?_) ht (hi.sched ⟨rfl, rfl, rfl, rfl, rfl⟩)
          (hq.of_eq rfl rfl rfl) h0
        cases hev
        rfl
    exact hend (h2.same (.of_eq hb.rq hb.procs hb.ss hb.bpip)) hp
  · exact hend (hm.rtOk he hf (fun p v c hev => hr ⟨p, v, c, hev⟩) hi0 hq0 h0).2.2 hp

/-- `MRT_exit`: the process leaves RT mode, frees its semaphores, for which nobody waits
    any more, and its record is reset. -/
theorem RtOk.mrtExit {nr : Int} (h : RtOk none s) (hi : IpcOk O true none s) (hv : v.Copies)
    (hok : Settled s (.task v (.exit nr))) (hs : s.mrtExit v nr = some (s', c)) :
    ∃ rp s1 s2 c1, procAddr nr = some rp ∧ s.set2nrt v rp = some (s1, c1) ∧
      KState.freeSems rp 17 s1 = some s2 ∧ s' = s2.procRst rp ∧ RtOk none s1 ∧
      (∀ m, (s1.ss.sem m).owner = procNr rp → NoWaiter s1 m) ∧ RtOk none s2 ∧
      (s2.procs rp).realtime = false ∧ (s2.procs rp).st = .clear ∧
      s2.ss.alloc.first (some rp) = none := by
  simp only [KState.mrtExit, bind_eq_bind, bind_eq_some_iff, some.injEq, Prod.mk.injEq] at hs
  obtain ⟨rp, hrp, ⟨s1, r1⟩, h1, s2, h2, rfl, -⟩ := hs
  obtain ⟨hdn, hfree⟩ := hok rp hrp
  obtain ⟨hr1, hrt1, hno1⟩ := h.set2nrt hi hv hdn h1
  have hno : (∀ m, (s1.ss.sem m).owner = procNr rp → NoWaiter s1 m) ∧
      (s1.procs rp).st = .clear := by
    rcases set2nrt_inv h1 with ⟨hrt, rfl⟩ | ⟨hrt, _, _, s3, -, -, -, rfl⟩
    · exact ⟨hfree hrt, hi.msgs.nrt rp hrt⟩
    · refine ⟨hno1 hrt, ?_⟩
      rw [(backToMinix_only s3 rp).procs, updProc_self]
  obtain ⟨hr2, hp2, hf2⟩ := hr1.freeSems hno.1 h2
  exact ⟨rp, s1, s2, r1, hrp, h1, h2, rfl, hr1, hno.1, hr2, by rw [hp2]; exact hrt1,
    by rw [hp2]; exact hno.2, hf2⟩

/-- A request to `MRTTASK` that is not plain. -/
theorem RtOk.serve {q : Request} (h : RtOk none s) (hi : IpcOk O false none s)
    (hq : Quiet s (.task v q)) (hok : Settled s (.task v q))
    (hp : Event.plain (.task v q) = false) (hs : s.serve v q = some (s', c)) : RdyOk none s' := by
  have hi' : IpcOk O true none s := hi.calm hq.calm
  cases q with
  | setpattr caller a | semalloc caller a => cases hp
  | semfree caller id =>
    rcases request_cases hs with ⟨-, rfl⟩ | ⟨-, c, -, -, hf⟩
    · exact h.toRdyOk
    rcases semfree_cases hf with rfl | ⟨m, hm, hhw, hown, h1⟩
    · exact h.toRdyOk
    · exact (h.semFree (hok m hm) (h.alloc.mem_of_owner hhw hown) h1).toRdyOk
  | exit nr =>
    rcases request_cases hs with ⟨-, rfl⟩ | ⟨-, c, -, -, hf⟩
    · exact h.toRdyOk
    obtain ⟨rp, s1, s2, c1, -, -, -, rfl, -, -, hr2, hrt2, -, hf2⟩ :=
      h.mrtExit hi' hq.copies hok hf
    exact (hr2.procRst hrt2 hf2).toRdyOk
  | stdsignal caller pid =>
    rcases request_cases hs with ⟨-, rfl⟩ | ⟨-, c, -, -, hf⟩
    · exact h.toRdyOk
    rw [stdsignal] at hf
    split at hf
    · cases hf
      exact h.toRdyOk
    · rename_i rp hrp
      exact (h.set2nrt hi' hq.copies (hok rp hrp) hf).1.toRdyOk

/-- **EVERY EVENT THAT MEETS THE CONDITION KEEPS THE READY QUEUE RIGHT.** -/
theorem RdyOk.step (h : RdyOk none s) (hi : IpcOk O false none s) (hok : Steady s e)
    (hs : s.step e = some s') : RdyOk none s' := by
  have hr : RtOk none s := ⟨h, hok.toUnlimited⟩
  by_cases he : e.plain = true
  · exact hr.plain_step hi hok.toQuiet hok.takes he hs
  have he : e.plain = false := by simpa using he
  have hcur : ∀ p, RtOk none { s with cur := p } ∧ IpcOk O false none { s with cur := p } :=
    fun p => ⟨hr.same (.of_eq rfl rfl rfl rfl), hi.sched ⟨rfl, rfl, rfl, rfl, rfl⟩⟩
  cases e with
  | ksend _ _ _ _ _ _ | inherit _ _ | disinherit _ _ | irqTimer _ _ _ | tick | flush _ _ _ =>
    cases he
  | rtk p v c =>
    obtain ⟨h0, hi0⟩ := hcur p
    obtain ⟨-, ⟨-, rfl⟩ | ⟨s1, r, -, hrun, h1, h2⟩⟩ := step_rtk hs
    · exact h0.toRdyOk
    refine RdyOk.rdyOnly ?_ (pickProc_only h2).1
    cases c with
    | set2rt => exact h0.toRdyOk.set2rt hi0.msgs hok.settled.1 hok.settled.2 h1
    | set2nrt =>
      have hclear := (hrun (by simp)).clear
      exact (h0.set2nrt (hi0.calm (fun _ => hok.calm rfl)) hok.copies
        (by rw [hclear]; rfl) h1).1.toRdyOk
    | sleep _ | wakeup _ _ | rqst _ | reply _ | arqst _ | uprqst _ | sign _ | receive _
    | rqrcv _ | semup _ | semdown _ _ => cases he
  | task v q =>
    obtain ⟨h0, hi0⟩ := hcur mrtTask
    obtain ⟨-, s1, c, h1, h2⟩ := step_task hs
    refine RdyOk.rdyOnly ?_ (pickProc_only h2).1
    refine h0.serve hi0 (hok.toQuiet.of_eq rfl rfl rfl) ?_ he h1
    exact hok.settled

/-- `MRT_spool_init` puts every semaphore into the free list and into no lock list. -/
theorem semInit {t : SemSt} (h : SemSt.init = some t) :
    t.alloc.Placed (fun _ => some (.plain none)) ∧ t.lock.Placed (fun _ => none) ∧
      ∀ m, t.sem m = .rst := by
  have hall := foldlM_invariant (I := fun done (t : SemSt) =>
      t.alloc.Placed (fun m => if m ∈ done then some (.plain none) else none) ∧
      t.lock.Placed (fun _ => none) ∧ ∀ m ∈ done, t.sem m = .rst) ?_ (nodup_done 16)
    ⟨Pool.placed_empty, Pool.placed_empty, by simp⟩ h
  · obtain ⟨hp, hl, hs⟩ := hall
    exact ⟨by simpa [mem_done] using hp, hl, fun m => hs m (mem_done m)⟩
  · rintro done m t t' hm ⟨hp, hl, hs⟩ ht
    obtain ⟨P, hP, rfl⟩ := map_eq_some_iff.mp ht
    have hnone : (if m ∈ done then some (Slot.plain none) else none :
        Option (Slot (Option Proc) Empty 16)) = none := if_neg hm
    refine ⟨(hp.rstLink (x := m) hnone |>.of_app hnone hP).congr (fun i => ?_),
      hl.rstLink rfl, fun i hi => ?_⟩
    · by_cases hi : i = m
      · simp [hi]
      · simp [hi]
    · by_cases him : i = m
      · simp [him]
      · simp only [update_of_ne him]
        exact hs i ((List.mem_cons.mp hi).resolve_left him)

theorem Initial.rdyOk (h : Initial s) : RdyOk none s := by
  obtain ⟨hpl, -, hrst⟩ := semInit h.ss
  have hrt : ∀ p, (s.procs p).realtime = false := fun p => (h.procs p).1
  have hst : ∀ p, (s.procs p).st = .clear := fun p => (h.procs p).2.1
  refine ⟨?_, fun p hp => ?_, fun p hp => ?_, fun p hp => ?_, ⟨fun _ => none, hpl, fun m => ?_⟩,
    (fun p hp => nomatch hp)⟩
  · rw [h.rq]
    exact Pool.placed_empty.congr (fun p => rdyPlace_nrt (hrt p))
  · rw [hrt] at hp
    cases hp
  · rw [hst] at hp
    cases hp
  · rw [hst] at hp
    cases hp
  · rw [hrst]
    rfl

theorem ReachBy.quiet (h : ReachBy Steady s₀ s) : ReachBy Quiet s₀ s :=
  h.mono (fun _ _ hok => hok.toQuiet)

/-- The invariant holds in every state that a steady run reaches. -/
theorem ReachBy.rdyOk (h0 : Initial s₀) (h : ReachBy Steady s₀ s) : RdyOk none s := by
  induction h with
  | init => exact h0.rdyOk
  | step hreach hok hs ih => exact ih.step ((ReachBy.quiet hreach).ipcOk h0) hok hs

/-- The places in the ready queue are those of the RT processes with a clear status. -/
theorem rdyPlace_ready_iff {l : Prty} : rdyPlace none s p = some (.level none l) ↔
    (s.procs p).realtime = true ∧ (s.procs p).st = .clear ∧ s.rq.prio p = l := by
  constructor
  · intro hpl
    rw [rdyPlace] at hpl
    split at hpl
    · cases hpl
    rename_i hno
    split at hpl
    · rename_i hst
      simp only [some.injEq, Slot.level.injEq, true_and] at hpl
      exact ⟨by simpa using hno, hst, hpl⟩
    split at hpl
    · obtain ⟨m, -, hm⟩ := map_eq_some_iff.mp hpl
      cases hm
    · cases hpl
  · rintro ⟨hrt, hst, rfl⟩
    exact rdyPlace_ready (by simp) hrt hst

theorem RdyOk.ready_count (h : RdyOk none s) (p : Proc) (l : Prty) :
    (s.rq.pool.list (.level none l)).count p =
      if (s.procs p).realtime = true ∧ (s.procs p).st = .clear ∧ s.rq.prio p = l then 1 else 0 := by
  have hmem : p ∈ s.rq.pool.list (.level none l) ↔
      (s.procs p).realtime = true ∧ (s.procs p).st = .clear ∧ s.rq.prio p = l := by
    rw [h.pool.mem_list, rdyPlace_ready_iff]
  split
  · rename_i hc
    exact List.count_eq_one_of_mem (h.pool.nodup_list _) (hmem.mpr hc)
  · rename_i hc
    exact List.count_eq_zero.mpr (fun hin => hc (hmem.mp hin))

/-- **THE RT READY QUEUE.**  In every state of every steady run, every RT process whose
    status bits are clear is in the ready queue exactly once, on the level of its priority,
    and no other process is in it. -/
theorem rt_ready_queue (h0 : Initial s₀) (h : ReachBy Steady s₀ s) (p : Proc) (l : Prty) :
    (s.rq.pool.list (.level none l)).count p =
      if (s.procs p).realtime = true ∧ (s.procs p).st = .clear ∧ s.rq.prio p = l then 1 else 0 :=
  (h.rdyOk h0).ready_count p l

/-- Process 14 allocates a semaphore before it enters RT mode; 15 waits for it there. -/
def oneWaits : List Event :=
  .task goodEnv (.semalloc 114
    { name := [115], value := 0, priority := 5, order := false, inherit := false, mutex := false })
    :: threeRt ++ [.rtk 15 goodEnv (.semdown 0 forever)]

/-- Process 14 is ready, 15 waits for the semaphore and 16 sleeps. -/
theorem rt_ready_queue_three : ∃ s, ReachBy Steady boot s ∧
    (s.procs 15).st = .down ∧ (s.procs 16).st.sleep = true ∧
    ∀ p, (s.rq.pool.list (.level none 10)).count p = if p = 14 then 1 else 0 := by
  obtain ⟨s, h, h15, h16, hiff⟩ : ∃ s, ReachBy Steady boot s ∧
      (s.procs 15).st = .down ∧
      (s.procs 16).st.sleep = true ∧ ∀ p, ((s.procs p).realtime = true ∧
        (s.procs p).st = .clear ∧ s.rq.prio p = 10) ↔ p = 14 :=
    ReachBy.of_run oneWaits (by decide +kernel)
  refine ⟨s, h, h15, h16, fun p => ?_⟩
  rw [rt_ready_queue boot_initial h p 10]
  exact if_congr (hiff p) rfl rfl

/-- **THE MOST URGENT PROCESS RUNS.**  In every state of every steady run in RT mode, while an
    RT process is ready, `pick_proc` returns with one that no ready RT process precedes. -/
theorem rt_pick_most_urgent (h0 : Initial s₀) (h : ReachBy Steady s₀ s) (hm : s.rtMode = true)
    (hp : (s.procs p).realtime = true) (hst : (s.procs p).st = .clear) :
    ∃ s', s.pickProc = some s' ∧ (s.procs s'.cur).realtime = true ∧
      (s.procs s'.cur).st = .clear ∧ s.rq.prio s'.cur ≤ s.rq.prio p := by
  have hr := h.rdyOk h0
  have hpl := rdyPlace_ready_iff.mpr ⟨hp, hst, rfl⟩
  cases hg : s.rq.pool.pget none with
  | none => exact absurd hpl (hr.pool.pget_eq_none.mp hg p _)
  | some y =>
    obtain ⟨l, hl, hlow⟩ := hr.pool.of_pget hg
    obtain ⟨hy, hyst, rfl⟩ := rdyPlace_ready_iff.mp hl
    simp only [pickProc, hm, if_true, mrtPickProc, hg, hr.this y hy]
    exact ⟨_, rfl, hy, hyst, hlow p _ hpl⟩

/-- Process 15 gets the priority 3; then 14, 15 and 16 enter RT mode and are ready. -/
def threeReady : List Event :=
  .task goodEnv (.setpattr 115
    { realtime := true, periodic := false, base := 3, period := 0, limit := 0, deadline := 0,
      watchdog := hardware, mqSize := 4, mqOrder := false, mqInherit := false })
    :: threeRt.dropLast

/-- Of three ready processes the one with the smallest priority number is picked. -/
theorem rt_pick_three_ready : ∃ s s', ReachBy Steady boot s ∧
    (∀ p, (s.procs p).realtime = true ∧ (s.procs p).st = .clear ↔ p = 14 ∨ p = 15 ∨ p = 16) ∧
    s.rq.prio 14 = 10 ∧ s.rq.prio 15 = 3 ∧ s.rq.prio 16 = 10 ∧
    s.pickProc = some s' ∧ s'.cur = 15 := by
  obtain ⟨s, h, hm, hrdy, h14, h15, h16⟩ : ∃ s, ReachBy Steady boot s ∧ s.rtMode = true ∧
      (∀ p, (s.procs p).realtime = true ∧ (s.procs p).st = .clear ↔ p = 14 ∨ p = 15 ∨ p = 16) ∧
      s.rq.prio 14 = 10 ∧ s.rq.prio 15 = 3 ∧ s.rq.prio 16 = 10 :=
    ReachBy.of_run threeReady (by decide +kernel)
  obtain ⟨hrt, hst⟩ := (hrdy 15).mpr (.inr (.inl rfl))
  obtain ⟨s', hs', hcrt, hcst, hle⟩ := rt_pick_most_urgent boot_initial h hm hrt hst
  refine ⟨s, s', h, hrdy, h14, h15, h16, hs', ?_⟩
  rw [h15] at hle
  rcases (hrdy s'.cur).mp ⟨hcrt, hcst⟩ with hc | hc | hc
  · exact absurd hle (by rw [hc, h14]; decide)
  · exact hc
  · exact absurd hle (by rw [hc, h16]; decide)

/-- **A PROCESS IS LOST.**  Process 15 sends a request to 14 with `rtk_rqrcv` and waits
    for the reply; 14 replies before it receives the request.  Then 15 is an RT process, no
    status bit of it is set, and it is in no ready queue. -/
theorem ready_process_lost :
    (boot.run [.rtk 14 goodEnv .set2rt, .rtk 14 goodEnv (.sleep forever),
        .rtk 15 goodEnv .set2rt, .rtk 15 goodEnv (.wakeup (procNr 14) 114),
        .rtk 15 goodEnv (.rqrcv (withProc 14 forever)),
        .rtk 14 goodEnv (.reply (withProc 15 forever)),
        .rtk 14 goodEnv (.receive (fromAny forever))]).any (fun s =>
      decide ((s.procs 15).realtime = true ∧ (s.procs 15).st = .clear ∧
        ∀ l, 15 ∉ s.rq.pool.list (.level none l))) = true := by
  decide +kernel

end Kernel
