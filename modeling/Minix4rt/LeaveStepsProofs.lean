import Minix4rt.RtProcModelProofs

/-! # The way out of RT mode — `MRT_set2nrt` in steps

    `MRT_set2nrt` runs through its loops one after the other: it tells the watchdog and the
    processes that the leaving process watches, takes its messages back, raises the mutexes
    that it holds and releases who waits for its semaphores.  Here every turn of a loop is
    a step, so that what each step keeps is kept by the whole call. -/

namespace Kernel

open Vtimer KState Option Relation

variable {v : Env} {rp : Proc} {m : Sem} {s s' : KState} {c : Code}

/-! ## Steps -/

/-- The leaving process `rp` tells others that it goes, and takes its messages back. -/
inductive DetachStep (v : Env) (rp : Proc) : KState → KState → Prop where
  | watch (s : KState) (p : Proc) :
      DetachStep v rp s (s.updProc p (fun r => { r with watchdog := hardware }))
  | notice {s s' : KState} {dest : Int} {k : Prty} {t : MType} {c : Code} :
      t = .krnproc ∨ t = .krnwdog → s.ksend v (procNr rp) dest k.val t = some (s', c) →
      DetachStep v rp s s'
  | queue {s s' : KState} : s.dropQueue rp = some s' → DetachStep v rp s s'
  | sweep {s s' : KState} {d : Proc} {q : MsgQ} {k : Mqe} : (s.ms.hdr k).src = procNr rp →
      procAddr (s.ms.hdr k).dst = some d → (s.procs d).pmq = some q →
      s.dropEntry q k = some s' → DetachStep v rp s s'

/-- The first mutex in the lock list of `rp` is raised. -/
def UnlockStep (rp : Proc) (s s' : KState) : Prop :=
  ∃ m j c, s.ss.lock.first rp = some m ∧ s.semup m j = some (s', c)

/-- A process that waits for `m` is released. -/
inductive ReleaseStep (m : Sem) : KState → KState → Prop where
  | wake {s s1 s2 s3 : KState} {p : Proc} : s.sprocPick m = some p →
      s.sprocRmv m p = some s1 → s1.stopTimerIf (s1.procs p).ipcvt = some s2 →
      (s2.clrDown p).readyIfClear p = some s3 → ReleaseStep m s (s3.setRet p .exiting)

/-! ## Loops -/

theorem tellWatchdog_steps (h : s.tellWatchdog v rp = some s') :
    ReflTransGen (DetachStep v rp) s s' := by
  rw [tellWatchdog] at h
  split at h
  · cases h
    exact .refl
  · simp only [bind_eq_bind, bind_eq_some_iff] at h
    obtain ⟨rtp, -, h⟩ := h
    split at h
    · obtain ⟨⟨s1, r⟩, h1, rfl⟩ := map_eq_some_iff.mp h
      exact .single (.notice (.inl rfl) h1)
    · cases h
      exact .refl

theorem tellWatched_steps {ps : List Proc} (h : tellWatched v rp ps s = some s') :
    ReflTransGen (DetachStep v rp) s s' := by
  induction ps generalizing s with
  | nil =>
    cases h
    exact .refl
  | cons p ps ih =>
    rw [tellWatched] at h
    split at h
    · simp only [bind_eq_bind, bind_eq_some_iff] at h
      obtain ⟨⟨s1, r⟩, h1, h2⟩ := h
      exact .head (.watch s p) (.head (.notice (.inr rfl) h1) (ih h2))
    · exact ih h

theorem sweepEntries_steps {ks : List Mqe} (h : sweepEntries rp ks s = some s') :
    ReflTransGen (DetachStep v rp) s s' := by
  induction ks generalizing s with
  | nil =>
    cases h
    exact .refl
  | cons k ks ih =>
    rw [sweepEntries] at h
    split at h
    · rename_i hsrc
      simp only [bind_eq_bind, bind_eq_some_iff] at h
      obtain ⟨d, hd, q, hq, s1, h1, h2⟩ := h
      exact .head (.sweep hsrc hd hq h1) (ih h2)
    · exact ih h

/-- The loop of `MRT_sem_unlock` ends with an empty lock list. -/
theorem semUnlock_steps {n : Nat} (h : semUnlock v rp n s = some s') :
    ReflTransGen (UnlockStep rp) s s' ∧ s'.ss.lock.first rp = none := by
  induction n generalizing s with
  | zero => cases h
  | succ n ih =>
    rw [semUnlock] at h
    cases hf : s.ss.lock.first rp with
    | none =>
      simp only [hf, some.injEq] at h
      exact h ▸ ⟨.refl, hf⟩
    | some m =>
      simp only [hf] at h
      obtain ⟨⟨s1, c⟩, h1, h2⟩ := bind_eq_some_iff.mp h
      obtain ⟨hsteps, hnone⟩ := ih h2
      exact ⟨.head ⟨m, _, c, hf, h1⟩ hsteps, hnone⟩

/-- The inner loop of `MRT_sem_empty` ends with an empty wait list. -/
theorem releaseWaiters_steps {n : Nat} (h : releaseWaiters m n s = some s') :
    ReflTransGen (ReleaseStep m) s s' ∧ s'.sprocPick m = none := by
  induction n generalizing s with
  | zero => cases h
  | succ n ih =>
    rw [releaseWaiters] at h
    cases hp : s.sprocPick m with
    | none =>
      simp only [hp, some.injEq] at h
      exact h ▸ ⟨.refl, hp⟩
    | some p =>
      simp only [hp, bind_eq_bind, bind_eq_some_iff] at h
      obtain ⟨s1, h1, s2, h2, s3, h3, h4⟩ := h
      obtain ⟨hsteps, hnone⟩ := ih h4
      exact ⟨.head (.wake hp h1 h2 h3) hsteps, hnone⟩

theorem semEmptyLoop_steps {ms : List Sem} (h : semEmptyLoop ms s = some s') :
    ReflTransGen (fun a b => ∃ m ∈ ms, ReleaseStep m a b) s s' := by
  induction ms generalizing s with
  | nil =>
    cases h
    exact .refl
  | cons m ms ih =>
    obtain ⟨s1, h1, h2⟩ := bind_eq_some_iff.mp h
    have hm : ReflTransGen (fun a b => ∃ i ∈ m :: ms, ReleaseStep i a b) s s1 :=
      (releaseWaiters_steps h1).1.lift id (fun _ _ hr => ⟨m, by simp, hr⟩)
    exact hm.trans ((ih h2).lift id (fun _ _ ⟨i, hi, hr⟩ => ⟨i, by simp [hi], hr⟩))

/-! ## The call -/

/-- `MRT_set2nrt` up to the semaphores: the process is unlinked, its watchdog and the
    processes it watches are told, and its messages are taken back. -/
def KState.detach (v : Env) (s : KState) (rp : Proc) : Option KState := do
  let s ← (if s.rtReady rp then s.rdyQRmv rp else s).dropTimers rp
  let s ← s.tellWatchdog v rp
  let s ← tellWatched v rp ((List.finRange 43).take 32) s
  let s ← s.dropQueue rp
  sweepEntries rp (List.finRange 32) s

theorem set2nrt_inv (h : s.set2nrt v rp = some (s', c)) :
    (s.procs rp).realtime = false ∧ s' = s ∨ (s.procs rp).realtime = true ∧ ∃ s1 s2 s3,
      s.detach v rp = some s1 ∧
      (if s1.ss.lock.count rp ≠ 0 then semUnlock v rp 64 s1 else some s1) = some s2 ∧
      (if s2.ss.alloc.count (some rp) ≠ 0 then s2.semEmpty rp else some s2) = some s3 ∧
      s' = s3.backToMinix rp := by
  rw [KState.set2nrt, KState.set2nrtWithin] at h
  split at h
  · rename_i hrt
    cases h
    exact .inl ⟨by simpa using hrt, rfl⟩
  rename_i hrt
  simp only [bind_eq_bind, bind_eq_some_iff, some.injEq, Prod.mk.injEq] at h
  obtain ⟨s1, h1, s2, h2, s3, h3, s4, h4, s5, h5, s6, h6, s7, h7, rfl, -⟩ := h
  refine .inr ⟨by simpa using hrt, s5, s6, s7, ?_, h6, h7, rfl⟩
  simp only [detach, KState.dropQueue, h1, h2, h3, h4, h5, bind_eq_bind, bind_some]

theorem detach_inv (h : s.detach v rp = some s') :
    ∃ s1 s2 s3, (if s.rtReady rp then s.rdyQRmv rp else s).dropTimers rp = some s1 ∧
      ReflTransGen (DetachStep v rp) s1 s2 ∧ s2.dropQueue rp = some s3 ∧
      sweepEntries rp (List.finRange 32) s3 = some s' := by
  simp only [KState.detach, bind_eq_bind, bind_eq_some_iff] at h
  obtain ⟨s1, h1, s2, h2, s3, h3, s4, h4, h5⟩ := h
  exact ⟨s1, s3, s4, h1, (tellWatchdog_steps h2).trans (tellWatched_steps h3), h4, h5⟩

theorem detach_steps (h : s.detach v rp = some s') :
    ∃ s1, (if s.rtReady rp then s.rdyQRmv rp else s).dropTimers rp = some s1 ∧
      ReflTransGen (DetachStep v rp) s1 s' := by
  obtain ⟨s1, s2, s3, h1, h2, h3, h4⟩ := detach_inv h
  exact ⟨s1, h1, (h2.tail (.queue h3)).trans (sweepEntries_steps h4)⟩

theorem unlocking_steps
    (h : (if s.ss.lock.count rp ≠ 0 then semUnlock v rp 64 s else some s) = some s') :
    ReflTransGen (UnlockStep rp) s s' := by
  split at h
  · exact (semUnlock_steps h).1
  · cases h
    exact .refl

/-- The loop over the semaphores of `rp` runs over the list read at its start. -/
theorem emptying_steps
    (h : (if s.ss.alloc.count (some rp) ≠ 0 then s.semEmpty rp else some s) = some s') :
    s' = s ∨ ∃ ms, s.ss.alloc.chain (some rp) = some ms ∧
      ReflTransGen (fun a b => ∃ m ∈ ms, ReleaseStep m a b) s s' := by
  split at h
  · obtain ⟨ms, hms, h⟩ := bind_eq_some_iff.mp h
    exact .inr ⟨ms, hms, semEmptyLoop_steps h⟩
  · exact .inl (some.inj h).symm

end Kernel
