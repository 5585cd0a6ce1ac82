import Minix4rt.KernelMovesProofs

/-! # What entering and leaving RT mode does to the MINIX part

    `MRT_set2nrt` stops timers, sends notices, wakes the senders to the leaving process and
    gives its semaphores back.  None of this touches the MINIX part of a process, with one
    exception: a process that has used up its schedule limit is not linked into the RT
    ready queue, and `P_STOP` is set for `proc_ptr`, whoever that is. -/

namespace Kernel

open Vtimer KState Option Relation Function

variable {s s' s1 : KState} {p : Proc}
variable {v : Env} {n prty : Nat} {j : Option Proc} {r : Code} {m : Sem}

/-- The schedule limit of `p` is used up. -/
def KState.limitHit (s : KState) (p : Proc) : Prop :=
  (s.procs p).limit < s.rq.scheds p ∧ 0 < (s.procs p).limit

instance (s : KState) (p : Proc) : Decidable (s.limitHit p) :=
  inferInstanceAs (Decidable (_ ∧ _))

/-- The MINIX part, the RT bits and the schedule limits are the same. -/
structure MinixKept (s s' : KState) : Prop where
  mx : s'.mx = s.mx
  realtime : ∀ p, (s'.procs p).realtime = (s.procs p).realtime
  limit : ∀ p, (s'.procs p).limit = (s.procs p).limit
  scheds : s'.rq.scheds = s.rq.scheds

namespace MinixKept

theorem refl (s : KState) : MinixKept s s := ⟨rfl, fun _ => rfl, fun _ => rfl, rfl⟩

theorem trans (h : MinixKept s s1) (h' : MinixKept s1 s') : MinixKept s s' :=
  ⟨h'.mx.trans h.mx, fun p => (h'.realtime p).trans (h.realtime p),
    fun p => (h'.limit p).trans (h.limit p), h'.scheds.trans h.scheds⟩

/-- The same limits are used up. -/
theorem limitHit_iff (h : MinixKept s s') (p : Proc) : s'.limitHit p ↔ s.limitHit p := by
  rw [limitHit, limitHit, h.limit, h.scheds]

/-- The flags are zero where they were. -/
theorem flagsZero (h : MinixKept s s') (p : Proc) : s'.flagsZero p = s.flagsZero p := by
  rw [KState.flagsZero, KState.flagsZero, h.mx, h.realtime]

/-- One process changes, neither its mode nor its limit. -/
theorem of_update {r : RtProc} (hmx : s'.mx = s.mx) (hp : s'.procs = update s.procs p r)
    (hr : r.realtime = (s.procs p).realtime ∧ r.limit = (s.procs p).limit)
    (hs : s'.rq.scheds = s.rq.scheds) : MinixKept s s' := by
  refine ⟨hmx, fun q => ?_, fun q => ?_, hs⟩
  all_goals
    rw [hp]
    by_cases hq : q = p
    · subst hq
      rw [update_self]
      first | exact hr.1 | exact hr.2
    · rw [update_of_ne hq]

theorem setPool (s : KState) (P : ListPool.Pool Empty (Option Sem) Proc 16) :
    MinixKept s (s.setPool P) := ⟨rfl, fun _ => rfl, fun _ => rfl, rfl⟩

theorem setPrio (s : KState) (p : Proc) (k : Prty) : MinixKept s (s.setPrio p k) :=
  ⟨rfl, fun _ => rfl, fun _ => rfl, rfl⟩

end MinixKept

/-- Messages are not part of it. -/
theorem MsgsOnly.kept (h : MsgsOnly s s') : MinixKept s s' :=
  ⟨h.mx, fun p => by rw [h.procs], fun p => by rw [h.procs], by rw [h.rq]⟩

/-! ## Ready queue -/

/-- A process with schedules left is linked. -/
theorem rdyQApp_kept (hn : ¬ s.limitHit p) (h : s.rdyQApp p = some s') : MinixKept s s' := by
  rw [limitHit] at hn
  rw [rdyQApp, if_neg hn] at h
  obtain ⟨P, -, rfl⟩ := map_eq_some_iff.mp h
  exact .setPool s P

/-- It is linked if it waits for nothing else. -/
theorem readyIfClear_kept (hn : ¬ s.limitHit p) (h : s.readyIfClear p = some s') :
    MinixKept s s' := by
  rw [readyIfClear] at h
  split at h
  · exact rdyQApp_kept hn h
  · cases h
    exact .refl _

/-! ## Priorities -/

/-- It takes another priority. -/
theorem moveTo_kept (s : KState) (p : Proc) (k : Prty) : MinixKept s (s.moveTo p k) := by
  rw [moveTo]
  split
  · exact ⟨rfl, fun _ => rfl, fun _ => rfl, rfl⟩
  · exact .setPrio s p k

/-- So do all along the chain of `MRT_inherit`. -/
theorem inherit_kept {o : Option Proc} (h : inherit n s prty o = some s') : MinixKept s s' := by
  have hsteps := inherit_steps h
  clear h
  induction hsteps with
  | refl => exact .refl s
  | tail _ hs ih =>
    obtain ⟨p, k, rfl⟩ := hs
    exact ih.trans (moveTo_kept _ p k)

theorem inheritTo_kept {q : MsgQ} {d : Proc} (h : s.inheritTo q prty d = some s') :
    MinixKept s s' := by
  rw [inheritTo] at h
  split at h
  · exact inherit_kept h
  · cases h
    exact .refl _

/-- `MRT_disinherit` gives a priority back. -/
theorem disinherit_kept {o : Option Proc} (h : s.disinherit o j = some s') : MinixKept s s' := by
  rw [disinherit] at h
  split at h
  · cases h
    exact .refl _
  · simp only [bind_eq_bind, bind_eq_some_iff, some.injEq] at h
    obtain ⟨_, -, _, -, x, -, _, -, _, -, rfl⟩ := h
    split
    · exact moveTo_kept s x _
    · exact .refl _

/-! ## Notices -/

/-- A receiver is woken. -/
theorem unblockReceiver_kept {d : Proc} (hn : ¬ s.limitHit d)
    (h : s.unblockReceiver d = some s') : MinixKept s s' := by
  obtain ⟨s1, w, t, h1, -, -, rfl⟩ := unblockReceiver_inv h
  have h0 : MinixKept s (s.updProc d (fun r =>
      { r with pfrom := none, st := { r.st with mbxRcv := false } })) :=
    .of_update rfl rfl ⟨rfl, rfl⟩ rfl
  have k := h0.trans (readyIfClear_kept (fun hl => hn ((h0.limitHit_iff d).mp hl)) h1)
  exact { k with }

/-- A notice is handed over, queued or lost. -/
theorem ksend_kept {src dest : Int} {t : MType} (hn : ∀ q, ¬ s.limitHit q)
    (h : s.ksend v src dest prty t = some (s', r)) : MinixKept s s' := by
  cases ksend_inv h with
  | refused _ | noEntry _ _ _ _ => exact .refl _
  | badHeader _ _ _ _ => exact ⟨rfl, fun _ => rfl, fun _ => rfl, rfl⟩
  | @direct sp d q s1 _ _ _ _ _ h1 h2 =>
    have h0 : MinixKept s ((s.stamp sp).countDirect d q false) :=
      ⟨rfl, fun _ => rfl, fun _ => rfl, rfl⟩
    exact (h0.trans (unblockReceiver_kept (fun hl => hn d ((h0.limitHit_iff d).mp hl))
      h1)).trans (inheritTo_kept h2)
  | lost _ _ _ hk _ => exact (newEntry_only hk).kept
  | queued _ _ _ hk _ hq h2 => exact (enqueued hk hq).kept.trans (inheritTo_kept h2)

/-! ## The steps of the call -/

/-- **EVERY STEP OF A LEAVING PROCESS KEEPS THE MINIX PART.** -/
theorem DetachStep.kept (hn : ∀ q, ¬ s.limitHit q) (h : DetachStep v p s s') : MinixKept s s' := by
  cases h with
  | watch q => exact .of_update rfl rfl ⟨rfl, rfl⟩ rfl
  | notice _ hk => exact ksend_kept hn hk
  | queue hq =>
    rcases dropQueue_inv hq with ⟨-, rfl⟩ | ⟨q, m, -, -, -, rfl⟩
    · exact .refl _
    · exact .of_update rfl rfl ⟨rfl, rfl⟩ rfl
  | sweep _ _ _ hk => exact (dropEntry_only hk).kept

/-- A mutex is handed on. -/
theorem handMutex_kept (h : s.handMutex m p j = some s') : MinixKept s s' := by
  obtain ⟨P, s1, -, rfl, h⟩ := handMutex_inv h
  have h0 : MinixKept s { s.unlockCur m (some p) with
      ss := { (s.unlockCur m (some p)).ss with lock := P } } :=
    ⟨rfl, fun _ => rfl, fun _ => rfl, rfl⟩
  split at h
  · exact h0.trans (disinherit_kept h)
  · cases h
    exact h0

/-- A waiter is woken, with the mutex if it is one. -/
theorem semupWake_kept (hn : ∀ q, ¬ s.limitHit q) (h : s.semupWake m j = some s') :
    MinixKept s s' := by
  obtain ⟨rp, w, t, s1, s2, -, hr, -, -, hm, hc⟩ := semupWake_inv h
  obtain rfl := sprocRmv_inv hr
  have k1 : MinixKept s (({ s.setPool (s.rq.pool.prmv (some m) rp (s.semLevel m rp)) with
      tm := t } : KState).updProc rp (fun r => { r with psem := none })) :=
    .of_update rfl rfl ⟨rfl, rfl⟩ rfl
  have k2 : MinixKept s s2 := by
    simp only at hm
    split at hm
    · exact k1.trans (handMutex_kept hm)
    · cases hm
      exact k1
  have k3 : MinixKept s (s2.setSt rp (fun t => { t with semDown := false })) :=
    k2.trans (.of_update rfl rfl ⟨rfl, rfl⟩ rfl)
  exact k3.trans (readyIfClear_kept (fun hl => hn rp ((k3.limitHit_iff rp).mp hl)) hc)

/-- `MRT_semup` wakes a waiter, or counts. -/
theorem semup_kept (hn : ∀ q, ¬ s.limitHit q) (h : s.semup m j = some (s', r)) :
    MinixKept s s' := by
  rw [semup] at h
  split at h
  · cases h
    exact .refl _
  · simp only [bind_eq_bind, bind_eq_some_iff, some.injEq, Prod.mk.injEq] at h
    obtain ⟨s1, h1, rfl, -⟩ := h
    have k1 : MinixKept s s1 := by
      split at h1
      · exact semupWake_kept hn h1
      split at h1
      · cases h1
        exact ⟨rfl, fun _ => rfl, fun _ => rfl, rfl⟩
      · cases h1
        exact .refl _
    exact k1.trans ⟨rfl, fun _ => rfl, fun _ => rfl, rfl⟩

/-- A waiter of a freed semaphore is woken. -/
theorem ReleaseStep.kept (hn : ∀ q, ¬ s.limitHit q) (h : ReleaseStep m s s') : MinixKept s s' := by
  cases h with
  | @wake _ _ s3 rp _ h1 h2 h3 =>
    obtain rfl := sprocRmv_inv h1
    obtain ⟨t, rfl⟩ := stopTimerIf_only h2
    have k1 : MinixKept s (({ s.setPool (s.rq.pool.prmv (some m) rp (s.semLevel m rp)) with
        tm := t } : KState).clrDown rp) := .of_update rfl rfl ⟨rfl, rfl⟩ rfl
    have k := k1.trans (readyIfClear_kept (fun hl => hn rp ((k1.limitHit_iff rp).mp hl)) h3)
    exact { k with }

/-- The limits stay as they are along the whole way. -/
theorem MinixKept.of_steps {R : KState → KState → Prop}
    (hR : ∀ {a b}, (∀ q, ¬ a.limitHit q) → R a b → MinixKept a b) (hn : ∀ q, ¬ s.limitHit q)
    (h : ReflTransGen R s s') : MinixKept s s' := by
  induction h with
  | refl => exact .refl s
  | tail _ hs ih => exact ih.trans (hR (fun q hl => hn q ((ih.limitHit_iff q).mp hl)) hs)

/-! ## Leaving and entering -/

/-- **`MRT_set2nrt`** is refused, or ends with a process that is a MINIX process again and
    is made ready if it has no flags. -/
theorem set2nrt_cases (hn : ∀ q, ¬ s.limitHit q) (h : s.set2nrt v p = some (s', r)) :
    s' = s ∨ (s.procs p).realtime = true ∧ ∃ s1, MinixKept s s1 ∧ s' = s1.backToMinix p := by
  rcases set2nrt_inv h with ⟨-, rfl⟩ | ⟨hrt, s1, s2, s3, h1, h2, h3, rfl⟩
  · exact .inl rfl
  refine .inr ⟨hrt, s3, ?_, rfl⟩
  have lim : ∀ {t : KState}, MinixKept s t → ∀ q, ¬ t.limitHit q :=
    fun k q hl => hn q ((k.limitHit_iff q).mp hl)
  obtain ⟨s0, hd, hsteps⟩ := detach_steps h1
  have k0 : MinixKept s s0 := by
    obtain ⟨t, rfl⟩ := leave_inv hd
    split <;> exact .of_update rfl rfl ⟨rfl, rfl⟩ rfl
  have k1 := k0.trans (.of_steps DetachStep.kept (lim k0) hsteps)
  have k2 := k1.trans (.of_steps (fun hl ⟨_, _, _, _, hs⟩ => semup_kept hl hs) (lim k1)
    (unlocking_steps h2))
  rcases emptying_steps h3 with rfl | ⟨ms, -, hempty⟩
  · exact k2
  · exact k2.trans (.of_steps (fun hl ⟨_, _, hs⟩ => hs.kept hl) (lim k2) hempty)

/-- **`rtk_set2rt`** is refused, or takes the current process out of its MINIX queue, sets
    its RT bit and links it into the RT ready queue. -/
theorem rtkSet2rt_cases (h : s.rtkSet2rt = some (s', r)) :
    s' = s ∨ (s.procs s.cur).realtime = false ∧ ∃ s1 s2, MinixKept s s1 ∧
      s1.unready s.cur = some s2 ∧
      (s2.updProc s.cur (fun r => { r with realtime := true })).rdyQApp s.cur = some s' := by
  rcases rtkSet2rt_inv h with rfl | ⟨q, w, t, s2, hrt, -, -, h2, h3⟩
  · exact .inl rfl
  · exact .inr ⟨hrt, equip s s.cur q t w, s2, .of_update rfl rfl ⟨rfl, rfl⟩ rfl, h2, h3⟩

end Kernel
