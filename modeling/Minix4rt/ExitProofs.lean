import Minix4rt.LeaveTerminationProofs

/-! # Exit — the clean-up of a process that ends

    MM calls `rtt_exit` with the slot number of the process that ends.  `MRT_sys_task` takes
    the number for a pid when it looks up the process whose mode it checks, and `MRT_exit`
    takes it for a slot again.

    `ExitsRight` says what the request should do for a slot.  For a slot that is not in RT
    mode the result needs no invariant.  For an RT process the clean-up is `MRT_set2nrt`,
    the loop that frees the semaphores and the reset of the record; all of it is done exactly
    if the process has its slot number as its pid and `MRT_set2nrt` returns. -/

namespace Kernel

open ListPool Vtimer KState TimerSt Function Option

variable {e : Event} {s s' s1 s₀ : KState} {n rp : Proc} {m : Sem} {v : Env} {O : VT → Prop}

/-! ## What the request should do -/

/-- The slot `n` is in MINIX mode and owns no queue, no timer and no semaphore. -/
structure Cleaned (n : Proc) (s : KState) : Prop where
  minix : (s.procs n).realtime = false
  queue : (s.procs n).pmq = none
  timer : (s.procs n).pvt = none ∧ (s.procs n).ipcvt = none
  timers : ∀ w, .act ∈ occurrences s.tm w ∨ (∃ k, .exp k ∈ occurrences s.tm w) →
    (s.tm.vt w).owner ≠ procNr n
  sems : ∀ m, (s.ss.sem m).owner ≠ procNr n
  alloc : s.ss.alloc.first (some n) = none

/-- The request of MM for the slot `n`, as `MRTTASK` serves it. -/
def exitOf (v : Env) (s : KState) (n : Proc) : Option (KState × Code) :=
  KState.serve v { s with cur := mrtTask } (.exit (procNr n))

/-- **THE CLEAN-UP REACHES THE SLOT**: the mode is checked for the slot `n`, which is clean
    afterwards; a slot in MINIX mode is left as it is, and no null pointer is followed. -/
def ExitsRight (v : Env) (s : KState) (n : Proc) : Prop :=
  if (s.procs n).realtime then
    s.pid2pptr (procNr n) = some n ∧ ∃ s', exitOf v s n = some (s', .ok) ∧ Cleaned n s'
  else ∃ c, exitOf v s n = some ({ s with cur := mrtTask }, c)

/-- The slot number is the pid of the process in the slot, whose queue and locks are empty;
    for a slot in MINIX mode it is the pid of such a process, or there is nothing to undo. -/
def ExitFit (s : KState) (n : Proc) : Prop :=
  if (s.procs n).realtime then
    s.rtMode = true ∧ s.pid2pptr (procNr n) = some n ∧
    (∀ q l, (s.procs n).pmq = some q → s.ms.pool.list (.level q l) = []) ∧
    (n = mrtTask ∨ s.ss.lock.list (.plain n) = [])
  else s.rtMode = false ∨ ∃ c, s.pid2pptr (procNr n) = some c ∧
    ((s.procs c).realtime = false ∨ s.procRst n = s)

/-! ## A slot in MINIX mode -/

theorem freeSems_none (h : s.ss.alloc.first (some n) = none) (k : Nat) :
    freeSems n (k + 1) s = some s := by
  rw [freeSems, h]

theorem procRst_alloc (s : KState) (n : Proc) : (s.procRst n).ss.alloc.first (some n) = none := by
  simp [procRst, Pool.lrst, Pool.first, IntrusiveList.ListHdr.rst]

/-- `MRT_exit` for a slot in MINIX mode frees its semaphores and resets its record. -/
theorem mrtExit_minix (h : (s.procs n).realtime = false) :
    s.mrtExit v (procNr n) = (freeSems n 17 s).map (fun s => (s.procRst n, .ok)) := by
  rw [mrtExit, procAddr_procNr]
  simp only [bind_eq_bind, bind_some]
  rw [set2nrt, set2nrtWithin, if_pos (by simp [h])]
  simp only [bind_some]
  cases freeSems n 17 s <;> rfl

/-- It changes nothing only if there is nothing to undo. -/
theorem mrtExit_minix_same {c : Code} (h : (s.procs n).realtime = false) :
    s.mrtExit v (procNr n) = some (s, c) ↔ s.procRst n = s ∧ c = .ok := by
  rw [mrtExit_minix h]
  constructor
  · intro hs
    obtain ⟨s1, h1, he⟩ := map_eq_some_iff.mp hs
    obtain ⟨he1, rfl⟩ := Prod.mk.injEq _ _ _ _ ▸ he
    have hfirst : s.ss.alloc.first (some n) = none := by
      rw [← he1]
      exact procRst_alloc s1 n
    rw [freeSems_none hfirst 16] at h1
    cases h1
    exact ⟨he1, rfl⟩
  · rintro ⟨hrst, rfl⟩
    have hfirst : s.ss.alloc.first (some n) = none := by
      rw [← hrst]
      exact procRst_alloc s n
    rw [freeSems_none hfirst 16, map_some, hrst]

theorem procRst_cur (s : KState) (n p : Proc) :
    KState.procRst { s with cur := p } n = { s with cur := p } ↔ s.procRst n = s := by
  have hc : KState.procRst { s with cur := p } n = { s.procRst n with cur := p } := rfl
  rw [hc]
  constructor
  · intro h
    have h' := congrArg (fun t : KState => { t with cur := s.cur }) h
    exact h'
  · intro h
    rw [h]

/-- **A SLOT IN MINIX MODE** is left alone exactly if the number names no RT process. -/
theorem exit_minix_iff (h : (s.procs n).realtime = false) :
    (∃ c, exitOf v s n = some ({ s with cur := mrtTask }, c)) ↔
      s.rtMode = false ∨ ∃ c, s.pid2pptr (procNr n) = some c ∧
        ((s.procs c).realtime = false ∨ s.procRst n = s) := by
  have hpid : KState.pid2pptr { s with cur := mrtTask } (procNr n) = s.pid2pptr (procNr n) := rfl
  rw [exitOf, serve, request, hpid]
  by_cases hm : s.rtMode = true
  · rw [if_neg (by simpa using hm)]
    cases hp : s.pid2pptr (procNr n) with
    | none => simp [hm]
    | some c =>
      simp only [bind_eq_bind, bind_some]
      by_cases hc : (s.procs c).realtime = true
      · rw [if_pos hc]
        constructor
        · rintro ⟨c', hc'⟩
          have hr := ((mrtExit_minix_same (s := { s with cur := mrtTask }) h).mp hc').1
          exact .inr ⟨c, rfl, .inr ((procRst_cur s n mrtTask).mp hr)⟩
        · rintro (hn | ⟨c', hc', hr⟩)
          · exact absurd (hm.symm.trans hn) (by simp)
          · cases hc'
            have hr := hr.resolve_left (by simp [hc])
            exact ⟨.ok, (mrtExit_minix_same (s := { s with cur := mrtTask }) h).mpr
              ⟨(procRst_cur s n mrtTask).mpr hr, rfl⟩⟩
      · rw [if_neg hc]
        exact ⟨fun _ => .inr ⟨c, rfl, .inl (by simpa using hc)⟩, fun _ => ⟨_, rfl⟩⟩
  · rw [if_pos (by simpa using hm)]
    simp [hm]

/-! ## The semaphores of an RT process -/

/-- The semaphores that `n` owns. -/
def owning (s : KState) (n : Proc) : Finset Sem :=
  Finset.univ.filter (fun m => (s.ss.sem m).owner = procNr n)

theorem mem_owning : m ∈ owning s n ↔ (s.ss.sem m).owner = procNr n := by
  simp [owning]

/-- **THE LOOP OF `MRT_exit` ENDS**: each turn gives one semaphore of `n` back. -/
theorem freeSems_returns (hn : n ≠ hardwareProc) : ∀ {k : Nat} {s : KState}, AllocOk s →
    (owning s n).card < k → ∃ s', freeSems n k s = some s' := by
  intro k
  induction k with
  | zero =>
    intro s _ hk
    exact absurd hk (Nat.not_lt_zero _)
  | succ k ih =>
    intro s h hk
    rw [freeSems]
    cases hf : s.ss.alloc.first (some n) with
    | none => exact ⟨s, rfl⟩
    | some m =>
      obtain ⟨hin, ho⟩ := h.owner_of_first hf
      obtain ⟨s1, h1, hok, hsem⟩ := h.semFree hin
      have herase : owning s1 n = (owning s n).erase m := by
        ext i
        rw [Finset.mem_erase, mem_owning, mem_owning, hsem]
        by_cases him : i = m
        · subst him
          simp only [update_self, ne_eq, not_true_eq_false, false_and, iff_false]
          exact fun he => hn (procNr_inj.mp (he.symm.trans (by decide)))
        · simp [him]
      have hcard : (owning s1 n).card < k := by
        have hmem := mem_owning.mpr ho
        have hpos := Finset.card_pos.mpr ⟨m, hmem⟩
        rw [herase, Finset.card_erase_of_mem hmem]
        omega
      simp only [h1, bind_some]
      exact ih hok hcard

theorem freeSems_tm : ∀ {k : Nat} {s : KState}, freeSems n k s = some s' → s'.tm = s.tm := by
  intro k
  induction k with
  | zero => exact fun h => nomatch h
  | succ k ih =>
    intro s h
    rw [freeSems] at h
    split at h
    · cases h
      rfl
    · obtain ⟨s1, h1, h2⟩ := bind_eq_some_iff.mp h
      exact (ih h2).trans (semFree_only h1).tm

/-! ## An RT process -/

/-- What a completed `MRT_exit` leaves of an RT process. -/
theorem LeaveFit.cleaned {c : Code} (h : LeaveFit O s e v n)
    (hok : Settled s (.task v (.exit (procNr n)))) (hs : s.mrtExit v (procNr n) = some (s', c)) :
    Cleaned n s' := by
  obtain ⟨rp, s1, s2, c1, hrp, h1, h2, rfl, -, -, hr2, hrt2, -, hf2⟩ :=
    h.rt.mrtExit h.ipc h.copies hok hs
  rw [procAddr_procNr] at hrp
  cases hrp
  have hhw : n ≠ hardwareProc := h.ipc.timers.slot n h.realtime
  obtain ⟨-, -, -, htimers⟩ := h.done h.locks h.realtime h1
  refine ⟨by simp [procRst, updProc, hrt2], by simp [procRst, updProc],
    ⟨by simp [procRst, updProc], by simp [procRst, updProc]⟩, ?_, fun m ho => ?_,
    procRst_alloc s2 n⟩
  · show ∀ w, .act ∈ occurrences s2.tm w ∨ (∃ k, .exp k ∈ occurrences s2.tm w) →
      (s2.tm.vt w).owner ≠ procNr n
    rw [freeSems_tm h2]
    exact htimers
  · -- a semaphore of `n` would be in its list
    have ho : (s2.ss.sem m).owner = procNr n := ho
    have hne : (s2.ss.sem m).owner ≠ hardware := by
      rw [ho]
      exact fun he => hhw (procNr_inj.mp (he.trans (by decide)))
    have hin := hr2.alloc.mem_of_owner hne ho
    obtain ⟨f, hpl, -⟩ := hr2.alloc
    exact hpl.first_eq_none.mp hf2 m ((hpl.mem_list _).mp hin)

/-- The request when the number is the pid of the RT process in the slot. -/
theorem exitOf_own (hpid : s.pid2pptr (procNr n) = some n) (hrt : (s.procs n).realtime = true) :
    exitOf v s n = if s.rtMode then KState.mrtExit v { s with cur := mrtTask } (procNr n)
      else some ({ s with cur := mrtTask }, .noRtMode) := by
  have hp : KState.pid2pptr { s with cur := mrtTask } (procNr n) = some n := hpid
  rw [exitOf, serve, request]
  by_cases hm : s.rtMode = true
  · rw [if_pos hm, if_neg (by simpa using hm)]
    simp only [hp, bind_eq_bind, bind_some, if_pos hrt]
  · rw [if_neg hm, if_pos (by simpa using hm)]

/-- `MRT_exit` returns exactly if `MRT_set2nrt` does. -/
theorem LeaveFit.exit_returns (h : LeaveFit O s e v n) :
    (∃ s', s.mrtExit v (procNr n) = some (s', .ok)) ↔
      (∀ k, ¬ Mail s n k) ∧ (s.cur = n ∨ s.ss.lock.first n = none) := by
  constructor
  · rintro ⟨s', hs⟩
    simp only [mrtExit, procAddr_procNr, bind_eq_bind, bind_some, bind_eq_some_iff] at hs
    obtain ⟨r, hr, -⟩ := hs
    exact h.needs hr
  · rintro ⟨hno, hlock⟩
    obtain ⟨⟨s1, c⟩, h1⟩ := isSome_iff_exists.mp (h.returns hno hlock)
    obtain ⟨hr1, -, -⟩ := h.rt.set2nrt h.ipc h.copies h.awake h1
    obtain ⟨s2, h2⟩ := freeSems_returns (h.ipc.timers.slot n h.realtime) hr1.alloc
      (lt_of_le_of_lt (Finset.card_le_univ _) (by decide) : (owning s1 n).card < 17)
    refine ⟨s2.procRst n, ?_⟩
    simp only [mrtExit, set2nrt, procAddr_procNr, bind_eq_bind, bind_some, h1, h2]

/-! ## Every run -/

/-- **WHICH SLOTS ARE CLEANED UP.**  In every run with its semaphores in order the request
    does what it should exactly if the number of the slot is fit for it.  For an RT process
    no timed sleep is going on, and its watchdog is a process other than itself, if it has
    one. -/
theorem exit_reaches_iff (h0 : Initial s₀) (h : ReachBy SteadySems s₀ s)
    (hok : Steady s (.task v (.exit (procNr n))))
    (hgo : (s.procs n).realtime = true → BackSet s.tm ∧ ((s.procs n).watchdog = hardware ∨
      ∃ w, (s.procs n).watchdog = procNr w ∧ w ≠ n)) :
    ExitsRight v s n ↔ ExitFit s n := by
  by_cases hrt : (s.procs n).realtime = true
  swap
  · have hrt : (s.procs n).realtime = false := by simpa using hrt
    rw [ExitsRight, ExitFit, if_neg (by simp [hrt]), if_neg (by simp [hrt])]
    exact exit_minix_iff hrt
  rw [ExitsRight, ExitFit, if_pos hrt, if_pos hrt]
  obtain ⟨hback, hwd⟩ := hgo hrt
  have hcall : LeaveCall s (.task v (.exit (procNr n))) v { s with cur := mrtTask } n :=
    .exit (procAddr_procNr n)
  have hfit := hcall.fit h0 h hok hrt hback hwd
  have hset : Settled { s with cur := mrtTask } (.task v (.exit (procNr n))) := hok.settled
  have hret := hfit.exit_returns.trans hfit.free_iff.symm
  rw [eq_comm (a := n)]
  constructor
  · rintro ⟨hpid, s', hs, -⟩
    rw [exitOf_own hpid hrt] at hs
    by_cases hm : s.rtMode = true
    · rw [if_pos hm] at hs
      exact ⟨hm, hpid, hret.mp ⟨s', hs⟩⟩
    · rw [if_neg hm] at hs
      cases hs
  · rintro ⟨hm, hpid, hfree⟩
    obtain ⟨s', hs'⟩ := hret.mpr hfree
    refine ⟨hpid, s', ?_, hfit.cleaned hset hs'⟩
    rw [exitOf_own hpid hrt, if_pos hm]
    exact hs'

/-- A process allocates a semaphore and enters RT mode. -/
def semOwner (pid : Int) : List Event :=
  [.task goodEnv (.semalloc pid
      { name := [109], value := 1, priority := 5, order := false, inherit := false,
        mutex := true }),
    .rtk 14 goodEnv .set2rt]

/-- The start state in which every process has its slot number as its pid. -/
def slotPids : KState :=
  { boot with procs := fun p => { boot.procs p with pid := procNr p } }

theorem slotPids_initial : Initial slotPids :=
  { boot_initial with }

/-- Process 14, in the slot 3 and with the pid 3, gives its semaphore back when it ends. -/
theorem exit_reaches_slot_pid : ∃ s, ReachBy SteadySems slotPids s ∧
    (s.procs 14).realtime = true ∧ (s.ss.sem 0).owner = procNr 14 ∧ ExitsRight goodEnv s 14 := by
  obtain ⟨s, h, hok, hrt, hown, hback, hwd, hm, hpid, hq, hlock⟩ : ∃ s,
      ReachBy SteadySems slotPids s ∧
      Steady s (.task goodEnv (.exit (procNr 14))) ∧ (s.procs 14).realtime = true ∧
      (s.ss.sem 0).owner = procNr 14 ∧ BackSet s.tm ∧ (s.procs 14).watchdog = hardware ∧
      s.rtMode = true ∧ s.pid2pptr (procNr 14) = some 14 ∧
      (∀ q, (s.procs 14).pmq = some q → ∀ l, s.ms.pool.list (.level q l) = []) ∧
      s.ss.lock.list (.plain 14) = [] :=
    ReachBy.of_run (semOwner 3) (by decide +kernel)
  refine ⟨s, h, hrt, hown, (exit_reaches_iff slotPids_initial h hok
    (fun _ => ⟨hback, .inl hwd⟩)).mpr ?_⟩
  rw [ExitFit, if_pos hrt]
  exact ⟨hm, hpid, fun q l hpq => hq q hpq l, .inr hlock⟩

/-- **A NULL POINTER**: the pid of process 14, in the slot 3, is 114, and there is no process
    with the pid 3 when `MRTTASK` looks for it. -/
theorem exit_misses_slot : ∃ s, ReachBy SteadySems boot s ∧
    Steady s (.task goodEnv (.exit (procNr 14))) ∧ (s.procs 14).realtime = true ∧
    (s.ss.sem 0).owner = procNr 14 ∧ exitOf goodEnv s 14 = none ∧ ¬ ExitsRight goodEnv s 14 := by
  obtain ⟨s, h, hok, hrt, hown, hnone⟩ : ∃ s, ReachBy SteadySems boot s ∧
      Steady s (.task goodEnv (.exit (procNr 14))) ∧ (s.procs 14).realtime = true ∧
      (s.ss.sem 0).owner = procNr 14 ∧ (exitOf goodEnv s 14).isNone = true :=
    ReachBy.of_run (semOwner 114) (by decide +kernel)
  have hnone : exitOf goodEnv s 14 = none := isNone_iff_eq_none.mp hnone
  refine ⟨s, h, hok, hrt, hown, hnone, fun hr => ?_⟩
  rw [ExitsRight, if_pos hrt] at hr
  obtain ⟨-, s', hs', -⟩ := hr
  exact nomatch hnone.symm.trans hs'

end Kernel
