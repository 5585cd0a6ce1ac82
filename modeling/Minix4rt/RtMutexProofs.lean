import Minix4rt.RtSemaphoreProofs

/-! # RT mutexes — who holds them

    A mutex semaphore has at most one holder: the process whose last completed
    `MRT_semdown` no `MRT_semup` of its own has matched yet.  The kernel keeps no such
    record, so a run is watched from outside: `lockActs` lists the completed downs and the
    ups of an event, also those that `MRT_sem_unlock` makes for a leaving process, and
    `Held` is what they add up to.

    The result compares this record with the three of the kernel, the value, the carrier
    and the lock lists. -/

namespace Kernel

open ListPool Vtimer KState Function Option

variable {e : Event} {x : Option Proc} {s s' s1 s2 s₀ : KState} {p q : Proc} {m : Sem}
  {v : Env} {O : VT → Prop}

/-! ## The record of the downs and ups -/

/-- A semaphore starts anew, a process gets it, a process raises it. -/
inductive LockAct where
  | new (m : Sem)
  | got (m : Sem) (p : Proc)
  | up (m : Sem) (p : Proc)

/-- The processes whose last completed down is not matched, for every semaphore. -/
abbrev Held := Sem → Proc → Bool

def LockAct.apply (H : Held) : LockAct → Held
  | .new m => update H m (fun _ => false)
  | .got m p => update H m (update (H m) p true)
  | .up m p => update H m (update (H m) p false)

/-- The record after a list of acts. -/
def Held.after (H : Held) (acts : List LockAct) : Held := acts.foldl LockAct.apply H

namespace KState

/-- `MRT_semup` of the current process; a waiting process gets the semaphore. -/
def upActs (s : KState) (m : Sem) : List LockAct :=
  if (s.ss.sem m).owner = hardware then []
  else .up m s.cur ::
    if (s.ss.sem m).value.toInt < 0 then (s.sprocPick m).toList.map (.got m) else []

/-- `MRT_semdown` of the current process, if it does not wait. -/
def downActs (s : KState) (m : Sem) : List LockAct :=
  if (s.ss.sem m).owner ≠ hardware ∧ 0 < (s.ss.sem m).value.toInt then [.got m s.cur] else []

/-- `MRT_sem_unlock`. -/
def unlockActs (v : Env) (rp : Proc) : Nat → KState → List LockAct
  | 0, _ => []
  | n + 1, s =>
    match s.ss.lock.first rp with
    | none => []
    | some m => s.upActs m ++ (match s.semup m (v.junk n) with
        | none => []
        | some r => unlockActs v rp n r.1)

/-- `MRT_set2nrt`. -/
def leaveActs (v : Env) (s : KState) (rp : Proc) : List LockAct :=
  if ¬ (s.procs rp).realtime then []
  else match s.detach v rp with
    | none => []
    | some s => if s.ss.lock.count rp ≠ 0 then unlockActs v rp 64 s else []

/-- A call of the current process. -/
def callActs (v : Env) (s : KState) : Call → List LockAct
  | .semup id => (tabAddr 16 id).elim [] s.upActs
  | .semdown id _ => (tabAddr 16 id).elim [] s.downActs
  | .set2nrt => s.leaveActs v s.cur
  | .set2rt | .sleep _ | .wakeup _ _ | .rqst _ | .reply _ | .arqst _ | .uprqst _ | .sign _
  | .receive _ | .rqrcv _ => []

/-- A request to `MRTTASK`.  The first free semaphore is the one that an allocation
    takes. -/
def requestActs (v : Env) (s : KState) : Request → List LockAct
  | .semalloc _ _ => (s.ss.alloc.first none).toList.map .new
  | .exit nr => if s.asks nr true then (procAddr nr).elim [] (s.leaveActs v) else []
  | .stdsignal caller pid =>
    if s.asks caller false then (s.pid2pptr pid).elim [] (s.leaveActs v) else []
  | .setpattr _ _ | .semfree _ _ => []

/-- The acts of an event. -/
def lockActs (s : KState) : Event → List LockAct
  | .rtk p v c => if s.takes p c then ({ s with cur := p } : KState).callActs v c else []
  | .task v r => ({ s with cur := mrtTask } : KState).requestActs v r
  | .ksend _ _ _ _ _ _ | .inherit _ _ | .disinherit _ _ | .irqTimer _ _ _ | .tick
  | .flush _ _ _ => []

end KState

/-- A watched run: the states reached, with the record of the downs and ups. -/
inductive LockRun (ok : KState → Event → Prop) (s₀ : KState) : KState → Held → Prop where
  | init : LockRun ok s₀ s₀ (fun _ _ => false)
  | step {s s' : KState} {e : Event} {H : Held} : LockRun ok s₀ s H → ok s e →
      s.step e = some s' → LockRun ok s₀ s' (H.after (s.lockActs e))

theorem LockRun.reachBy {ok : KState → Event → Prop} {H : Held} (h : LockRun ok s₀ s H) :
    ReachBy ok s₀ s := by
  induction h with
  | init => exact .init
  | step _ hok hs ih => exact ih.step hok hs

/-- Every run can be watched. -/
theorem ReachBy.lockRun {ok : KState → Event → Prop} (h : ReachBy ok s₀ s) :
    ∃ H, LockRun ok s₀ s H := by
  induction h with
  | init => exact ⟨_, .init⟩
  | step _ hok hs ih =>
    obtain ⟨H, hH⟩ := ih
    exact ⟨_, hH.step hok hs⟩

/-! ## The carrier is the holder -/

variable {H H' : Held}

theorem Held.after_append (acts acts' : List LockAct) :
    H.after (acts ++ acts') = (H.after acts).after acts' :=
  List.foldl_append

theorem Held.after_up_got : H.after [.up m p, .got m q] =
    update H m (update (update (H m) p false) q true) := by
  simp [Held.after, LockAct.apply]

/-- The carrier of an allocated mutex is its only holder. -/
def Holds (s : KState) (H : Held) : Prop :=
  ∀ m, (s.ss.sem m).owner ≠ hardware → (s.ss.sem m).mutex = true →
    ∀ p, H m p = true ↔ (s.ss.sem m).carrier = some p

theorem Holds.same (h : Holds s H) (hss : s'.ss.sem = s.ss.sem) : Holds s' H := by
  intro i hown hmx
  rw [hss] at hown hmx ⊢
  exact h i hown hmx

theorem Holds.sched (h : Holds s H) (hs : SchedOnly s s') : Holds s' H := h.same (by rw [hs.ss])

theorem Holds.kept (h : Holds s H) (hk : SemsKept s s') : Holds s' H := h.same (by rw [hk.ss])

/-- The record of one semaphore changes, in the kernel and outside. -/
theorem Holds.update {f : SemRec} {g : Proc → Bool} (h : Holds s H)
    (hss : s'.ss.sem = update s.ss.sem m f)
    (hf : f.owner ≠ hardware → f.mutex = true → ∀ p, g p = true ↔ f.carrier = some p) :
    Holds s' (update H m g) := by
  intro i hown hmx
  rw [hss] at hown hmx ⊢
  by_cases him : i = m
  · subst him
    simp only [update_self] at hown hmx ⊢
    exact hf hown hmx
  · simp only [update_of_ne him] at hown hmx ⊢
    exact h i hown hmx

/-- **THE CARRIER RAISES A MUTEX**: it holds it no more, and a process that waits does. -/
theorem Holds.semup (h : Holds s H) (hl : LockOk s)
    (hc : (s.ss.sem m).owner ≠ hardware → (s.ss.sem m).mutex = true →
      (s.ss.sem m).carrier = some s.cur)
    (hs : UpCase s m s') : Holds s' (H.after (s.upActs m)) := by
  -- nobody but the current process held the mutex, so nobody does without it
  have hnone : (s.ss.sem m).owner ≠ hardware → (s.ss.sem m).mutex = true →
      ∀ p, Function.update (H m) s.cur false p = false := by
    intro hown hmx p
    by_cases hp : p = s.cur
    · rw [hp, update_self]
    · rw [update_of_ne hp, Bool.eq_false_iff, Ne, h m hown hmx, hc hown hmx]
      simpa using Ne.symm hp
  cases hs with
  | refused hown he =>
    rw [upActs, if_pos hown, he]
    exact h
  | @wake rp P hown hneg hpick hp hP hss =>
    rw [upActs, if_neg hown, if_pos hneg, hpick]
    show Holds s' (H.after [.up m s.cur, .got m rp])
    rw [Held.after_up_got]
    refine h.update (congrArg SemSt.sem hss) (fun _ hmx i => ?_)
    have hi := hnone hown hmx i
    simp only at hmx
    simp only [hmx, if_true, some.injEq]
    by_cases hirp : i = rp
    · simp [hirp]
    · simp [hirp, Ne.symm hirp, hi]
  | count hown hpos hp hss =>
    rw [upActs, if_neg hown, if_neg (by omega)]
    refine h.update (congrArg SemSt.sem hss) (fun _ hmx i => ?_)
    have hca := hc hown hmx
    have hz : (s.ss.sem m).value.toInt = 0 := by
      have := (hl.held m _ hca).2.2.1
      omega
    have hi := hnone hown hmx i
    simp only at hmx
    simp [hz, hmx, hi]

/-- **A MUTEX IS TAKEN** by a process that finds it free. -/
theorem Holds.semdown (h : Holds s H) (hl : LockOk s) (hs : DownCase s m s') :
    Holds s' (H.after (s.downActs m)) := by
  cases hs with
  | refused hno he =>
    rw [downActs, if_neg, he]
    · exact h
    · rintro ⟨hown, hpos⟩
      rcases hno with hno | hno
      · exact hown hno
      · omega
  | wait hown hneg hp hss =>
    rw [downActs, if_neg (by rintro ⟨-, hpos⟩; omega)]
    have hH : H = Function.update H m (H m) := (update_eq_self m H).symm
    rw [hH]
    exact h.update (congrArg SemSt.sem hss) (h m)
  | lock hown hone hmx hP hp hss =>
    rw [downActs, if_pos ⟨hown, by omega⟩]
    refine h.update (congrArg SemSt.sem hss) (fun _ _ i => ?_)
    have hfree : (s.ss.sem m).carrier ≠ some i := by
      intro hca
      have := (hl.held m i hca).2.2.1
      omega
    have hi := h m hown hmx i
    by_cases hic : i = s.cur
    · simp [hic]
    · simp [hic, Ne.symm hic, hi, hfree]
  | count hown hpos hnot hp hss =>
    rw [downActs, if_pos ⟨hown, hpos⟩]
    refine h.update (congrArg SemSt.sem hss) (fun _ hmx i => ?_)
    -- a mutex is never above 1
    cases hca : (s.ss.sem m).carrier with
    | none => exact absurd ⟨hl.free m hown hmx hca, hmx⟩ hnot
    | some q =>
      have := (hl.held m q hca).2.2.1
      omega

/-- The record of a free semaphore may start anew. -/
theorem Holds.new (h : Holds s H) (hr : RdyOk x s) :
    Holds s (H.after ((s.ss.alloc.first none).toList.map .new)) := by
  cases hf : s.ss.alloc.first none with
  | none => exact h
  | some m =>
    refine h.update (f := s.ss.sem m) (update_eq_self m _).symm (fun hown => ?_)
    exact absurd (hr.free_owner hf) hown

theorem Holds.semalloc {c : Proc} {a : SAttr} {k : Code} (h : Holds s H) (hl : LockOk s)
    (hr : RdyOk x s) (hs : s.semalloc v c a = some (s', k)) :
    Holds s' (H.after ((s.ss.alloc.first none).toList.map .new)) := by
  rcases semalloc_cases hs with rfl | ⟨m, pr, P, hf, -, -, -, -, hs'⟩
  · exact h.new hr
  · rw [hf]
    refine h.update (congrArg (fun s => s.ss.sem) hs') (fun _ _ p => ?_)
    have hfree : (s.ss.sem m).carrier ≠ some p := by
      intro hca
      exact (hl.held m p hca).2.1 (hr.free_owner hf)
    simp [hfree]

/-- A semaphore that is free has no holder to look at. -/
theorem Holds.semFree {c : Proc} (h : Holds s H) (hs : s.semFree c m = some s') : Holds s' H := by
  obtain ⟨-, P, hss⟩ := semFree_cases hs
  have hH : H = Function.update H m (H m) := (update_eq_self m H).symm
  rw [hH]
  exact h.update (f := .rst) (by rw [hss]) (fun hown => absurd rfl hown)

theorem Holds.freeSems : ∀ {n : Nat} {s : KState}, Holds s H → freeSems p n s = some s' →
    Holds s' H := by
  intro n
  induction n with
  | zero =>
    intro s _ hs
    cases hs
  | succ n ih =>
    intro s h hs
    rw [KState.freeSems] at hs
    split at hs
    · cases hs
      exact h
    · obtain ⟨s1, h1, h2⟩ := bind_eq_some_iff.mp hs
      exact ih (h.semFree h1) h2

/-- The loop of `MRT_sem_unlock`. -/
theorem Holds.semUnlock : ∀ {n : Nat} {s : KState} {H : Held}, Holds s H → LockOk s → RtOk x s →
    s.cur = p → semUnlock v p n s = some s' → Holds s' (H.after (unlockActs v p n s)) := by
  intro n
  induction n with
  | zero =>
    intro s H _ _ _ _ hs
    cases hs
  | succ n ih =>
    intro s H h hl hr hcur hs
    rw [KState.semUnlock] at hs
    rw [unlockActs]
    cases hf : s.ss.lock.first p with
    | none =>
      simp only [hf, some.injEq] at hs
      exact hs ▸ h
    | some m =>
      simp only [hf] at hs
      obtain ⟨⟨s1, c⟩, h1, h2⟩ := bind_eq_some_iff.mp hs
      obtain ⟨hcur1, hup⟩ := semup_cases h1
      have hca : (s.ss.sem m).carrier = some s.cur := by
        rw [hl.carrier_of_first hf, hcur]
      have hl1 := hl.semup hr.toRdyOk (fun _ _ => hca) hup
      simp only [h1, Held.after_append]
      exact ih (h.semup hl (fun _ _ => hca) hup) hl1 (hr.semup h1) (hcur1.trans hcur) h2

theorem Holds.set2nrt {c : Code} (h : Holds s H) (hl : LockOk s) (hr : RtOk none s)
    (hi : IpcOk O true none s) (hv : v.Copies) (hdn : (s.procs p).st.semDown = false)
    (hs : s.set2nrt v p = some (s', c)) : Holds s' (H.after (s.leaveActs v p)) := by
  rcases set2nrt_inv hs with ⟨hrt, rfl⟩ | ⟨hrt, s1, s2, s3, h1, h2, h3, rfl⟩
  · rw [leaveActs, if_pos (by simp [hrt])]
    exact h
  obtain ⟨hr1, hi1⟩ := hr.detach hi hv hrt hdn h1
  have hk1 := detach_semsKept h1
  have hl1 := hl.kept hk1
  obtain ⟨hr2, hi2⟩ := hr1.unlocking hi1 h2
  obtain ⟨-, hss, -⟩ := hr2.semEmpty hi2.msgs.downRt (hi.timers.slot p hrt) h3
  have hss' : (s3.backToMinix p).ss.sem = s2.ss.sem := by
    rw [← hss, (backToMinix_only s3 p).ss]
    rfl
  rw [leaveActs, if_neg (by simp [hrt])]
  simp only [h1]
  refine Holds.same ?_ hss'
  by_cases hcount : s1.ss.lock.count p ≠ 0
  · rw [if_pos hcount] at h2 ⊢
    by_cases hcur : s1.cur = p
    · exact (h.kept hk1).semUnlock hl1 hr1 hcur h2
    · -- another process can only find the list empty
      cases hf : s1.ss.lock.first p with
      | none =>
        rw [KState.semUnlock] at h2
        rw [unlockActs]
        simp only [hf, some.injEq] at h2 ⊢
        exact h2 ▸ h.kept hk1
      | some m =>
        rw [semUnlock_stuck hr1 hcur hf] at h2
        cases h2
  · rw [if_neg hcount] at h2 ⊢
    cases h2
    exact h.kept hk1

theorem Holds.mrtExit {nr : Int} {c : Code} (h : Holds s H) (hl : LockOk s) (hr : RtOk none s)
    (hi : IpcOk O true none s) (hv : v.Copies) (hok : Settled s (.task v (.exit nr)))
    (hs : s.mrtExit v nr = some (s', c)) :
    Holds s' (H.after ((procAddr nr).elim [] (s.leaveActs v))) := by
  obtain ⟨rp, s1, s2, c1, hrp, h1, h2, rfl, -⟩ := hr.mrtExit hi hv hok hs
  rw [hrp]
  have h1' := h.set2nrt hl hr hi hv (hok rp hrp).1 h1
  exact (h1'.freeSems h2).same rfl

/-! ## Every run -/

/-- The condition for the locks: a mutex is allocated with the value 1, raised by its
    carrier only, not lowered beyond the smallest `int`, and freed by nobody while it is held. -/
def LockFit (s : KState) : Event → Prop
  | .rtk p _ (.semup id) => ∀ m ∈ tabAddr 16 id, (s.ss.sem m).owner ≠ hardware →
      (s.ss.sem m).mutex = true → (s.ss.sem m).carrier = some p
  | .rtk _ _ (.semdown id _) => ∀ m ∈ tabAddr 16 id, (s.ss.sem m).mutex = true →
      -2 ^ 31 < (s.ss.sem m).value.toInt
  | .task _ (.semalloc _ a) => a.mutex = true → a.value.toInt = 1
  | .task _ (.semfree _ id) => ∀ m ∈ tabAddr 16 id, (s.ss.sem m).carrier = none
  | .task _ (.exit nr) => ∀ rp ∈ procAddr nr, ∀ m, (s.ss.sem m).owner = procNr rp →
      (s.ss.sem m).carrier = none
  | _ => True

instance (s : KState) (e : Event) : Decidable (LockFit s e) := by
  induction e using Event.casesOn with
  | rtk _ _ c => induction c using Call.casesOn <;> unfold LockFit <;> infer_instance
  | task _ r => induction r using Request.casesOn <;> unfold LockFit <;> infer_instance
  | _ => unfold LockFit; infer_instance

/-- Events that touch no semaphore have no acts. -/
theorem lockActs_mail (he : e.mail = true) : s.lockActs e = [] := by
  cases e with
  | rtk p v c =>
    cases c with
    | set2rt | set2nrt | semup _ | semdown _ _ => cases he
    | sleep _ | wakeup _ _ | rqst _ | reply _ | arqst _ | uprqst _ | sign _ | receive _
    | rqrcv _ => exact ite_self _
  | task _ _ | flush _ _ _ => cases he
  | ksend _ _ _ _ _ _ | inherit _ _ | disinherit _ _ | irqTimer _ _ _ | tick => rfl

/-- **EVERY EVENT THAT MEETS THE CONDITIONS KEEPS THE LOCKS RIGHT**, and the carriers
    are the holders. -/
theorem LockOk.step (h : LockOk s) (hh : Holds s H) (hr : RdyOk none s)
    (hi : IpcOk O false none s) (hok : Steady s e) (hfit : LockFit s e)
    (hs : s.step e = some s') : LockOk s' ∧ Holds s' (H.after (s.lockActs e)) := by
  by_cases he : e.mail = true
  · obtain ⟨s0, s1, h0, h1, h2⟩ := step_semsKept hs he
    rw [lockActs_mail he]
    exact ⟨((h.sched h0).kept h1).sched h2, ((hh.sched h0).kept h1).sched h2⟩
  have he : e.mail = false := by simpa using he
  have hcur : ∀ p, LockOk { s with cur := p } ∧ Holds { s with cur := p } H :=
    fun p => ⟨h.same rfl (fun _ _ _ hrt => hrt), hh⟩
  have hpick : ∀ {s1 s2 : KState} {H : Held}, LockOk s1 ∧ Holds s1 H → s1.pickProc = some s2 →
      LockOk s2 ∧ Holds s2 H := by
    intro s1 s2 H h1 hp
    have hsch := (pickProc_only hp).1.toSchedOnly
    exact ⟨h1.1.sched hsch, h1.2.sched hsch⟩
  cases e with
  | ksend _ _ _ _ _ _ | inherit _ _ | disinherit _ _ | irqTimer _ _ _ | tick => cases he
  | rtk p v c =>
    obtain ⟨h0, hh0⟩ := hcur p
    obtain ⟨hr0, hi0⟩ := hok.enter hr hi rfl p
    rw [lockActs]
    obtain ⟨-, ⟨htk, rfl⟩ | ⟨s1, r, htk, hrun, h1, h2⟩⟩ := step_rtk hs
    · rw [if_neg (by simp [htk])]
      exact ⟨h0, hh0⟩
    rw [if_pos htk]
    refine hpick ?_ h2
    cases c with
    | sleep _ | wakeup _ _ | rqst _ | reply _ | arqst _ | uprqst _ | sign _ | receive _
    | rqrcv _ => cases he
    | set2rt =>
      obtain ⟨hss, hp⟩ := rtkSet2rt_sems h1
      exact ⟨h0.same hss (fun _ i _ => (hp i).1), hh0.same (by rw [hss])⟩
    | set2nrt =>
      have hdn : (s.procs p).st.semDown = false := by
        have hclear : (s.procs p).st = .clear := (hrun (by simp)).clear
        rw [hclear]
        rfl
      exact ⟨(h0.set2nrt hr0 hi0 hok.copies hdn h1).1, hh0.set2nrt h0 hr0 hi0 hok.copies hdn h1⟩
    | semup id =>
      obtain ⟨m, hm, h1⟩ := bind_eq_some_iff.mp h1
      have hca := hfit m hm
      have hup := (semup_cases h1).2
      rw [callActs, hm]
      exact ⟨h0.semup hr0.toRdyOk hca hup, hh0.semup h0 hca hup⟩
    | semdown id t =>
      obtain ⟨m, hm, h1⟩ := bind_eq_some_iff.mp h1
      have hdown := semdown_cases h1
      rw [callActs, hm]
      exact ⟨h0.semdown (hrun (by simp)) (hfit m hm) hdown, hh0.semdown h0 hdown⟩
  | flush p v k =>
    obtain ⟨-, rfl | ⟨plk, w, s1, hf, hw, h1, h2⟩⟩ := step_flush hs
    · exact hcur p
    have hi0 : IpcOk O false none { s with cur := p } := hi.sched ⟨rfl, rfl, rfl, rfl, rfl⟩
    have h0 := (hcur p).1
    obtain ⟨hss1, hrt1, -⟩ := expire_sems (E := fun _ => False) hi0 hf hw h1
    have h1' : LockOk s1 ∧ Holds s1 H :=
      ⟨h0.same hss1 (fun _ i _ hi => (hrt1 i).trans hi), hh.same (by rw [hss1])⟩
    rcases h2 with rfl | h2
    · exact h1'
    · exact hpick h1' h2
  | task v q =>
    obtain ⟨h0, hh0⟩ := hcur mrtTask
    obtain ⟨hr0, hi0⟩ := hok.enter hr hi rfl mrtTask
    obtain ⟨-, s1, c, h1, h2⟩ := step_task hs
    refine hpick ?_ h2
    rw [lockActs]
    cases q with
    | setpattr caller a =>
      rcases request_cases h1 with ⟨-, rfl⟩ | ⟨-, c, -, hrt, hf⟩
      · exact ⟨h0, hh0⟩
      rcases setpattr_cases hf with rfl | ⟨k, rfl⟩
      · exact ⟨h0, hh0⟩
      · refine ⟨h0.same rfl (fun _ i _ hi => ?_), hh0⟩
        have hic : i ≠ c := by
          rintro rfl
          rw [hrt] at hi
          cases hi
        show (update s.procs c _ i).realtime = true
        rw [update_of_ne hic]
        exact hi
    | semalloc caller a =>
      rcases request_cases h1 with ⟨-, rfl⟩ | ⟨-, c, -, -, hf⟩
      · exact ⟨h0, hh0.new hr0.toRdyOk⟩
      · exact ⟨h0.semalloc hr0.toRdyOk hfit hf, hh0.semalloc h0 hr0.toRdyOk hf⟩
    | semfree caller id =>
      rcases request_cases h1 with ⟨-, rfl⟩ | ⟨-, c, -, -, hf⟩
      · exact ⟨h0, hh0⟩
      rcases semfree_cases hf with rfl | ⟨m, hm, -, -, hf⟩
      · exact ⟨h0, hh0⟩
      · exact ⟨h0.semFree (hfit m hm) hf, hh0.semFree hf⟩
    | exit nr =>
      rw [requestActs]
      rcases request_cases h1 with ⟨hask, rfl⟩ | ⟨hask, c, -, -, hf⟩
      · rw [if_neg (by simp [hask])]
        exact ⟨h0, hh0⟩
      rw [if_pos hask]
      exact ⟨h0.mrtExit hr0 hi0 hok.copies hok.settled hfit hf,
        hh0.mrtExit h0 hr0 hi0 hok.copies hok.settled hf⟩
    | stdsignal caller pid =>
      rw [requestActs]
      rcases request_cases h1 with ⟨hask, rfl⟩ | ⟨hask, c, -, -, hf⟩
      · rw [if_neg (by simp [hask])]
        exact ⟨h0, hh0⟩
      rw [if_pos hask]
      rw [stdsignal] at hf
      cases hrp : KState.pid2pptr { s with cur := mrtTask } pid with
      | none =>
        simp only [hrp, some.injEq, Prod.mk.injEq] at hf
        exact hf.1 ▸ ⟨h0, hh0⟩
      | some rp =>
        simp only [hrp] at hf
        have hdn := hok.settled rp hrp
        exact ⟨(h0.set2nrt hr0 hi0 hok.copies hdn hf).1, hh0.set2nrt h0 hr0 hi0 hok.copies hdn hf⟩

theorem Initial.lockOk (h : Initial s) : LockOk s := by
  obtain ⟨-, hl, hrst⟩ := semInit h.ss
  have hrst' : ∀ m, s.ss.sem m = .rst := hrst
  refine ⟨hl.congr (fun m => by rw [hrst']; rfl), fun m p hca => ?_, fun m hown => ?_⟩
  · rw [hrst'] at hca
    cases hca
  · rw [hrst'] at hown
    exact absurd rfl hown

theorem Initial.holds (h : Initial s) : Holds s (fun _ _ => false) := by
  intro m hown
  rw [(semInit h.ss).2.2] at hown
  exact absurd rfl hown

/-- The condition of the runs in which the locks are right. -/
def SteadyLock (s : KState) (e : Event) : Prop := Steady s e ∧ LockFit s e

instance (s : KState) (e : Event) : Decidable (SteadyLock s e) :=
  inferInstanceAs (Decidable (Steady s e ∧ LockFit s e))

theorem LockRun.lockOk (h0 : Initial s₀) (h : LockRun SteadyLock s₀ s H) :
    LockOk s ∧ Holds s H := by
  induction h with
  | init => exact ⟨h0.lockOk, h0.holds⟩
  | step hrun hok hs ih =>
    have hst := hrun.reachBy.mono (fun _ _ h => h.1)
    exact ih.1.step ih.2 (hst.rdyOk h0) (hst.quiet.ipcOk h0) hok.1 hok.2 hs

/-- **MUTUAL EXCLUSION.**  In every state of a watched run that meets the conditions, an
    allocated mutex has a value of at most 1, and no carrier exactly when the value is 1.  It
    is once in the lock list of its carrier and in no other, and the carrier is the only
    process whose last completed down no up has matched. -/
theorem mutex_exclusion (h0 : Initial s₀) (h : LockRun SteadyLock s₀ s H) (m : Sem)
    (hm : (s.ss.sem m).owner ≠ hardware) (hmx : (s.ss.sem m).mutex = true) :
    (s.ss.sem m).value.toInt ≤ 1 ∧ ((s.ss.sem m).carrier = none ↔ (s.ss.sem m).value.toInt = 1) ∧
    ∀ p, (s.ss.sem m).carrier = some p →
      (s.ss.lock.list (.plain p)).count m = 1 ∧
      (∀ q, q ≠ p → m ∉ s.ss.lock.list (.plain q)) ∧ ∀ q, H m q = true ↔ q = p := by
  obtain ⟨hl, hh⟩ := h.lockOk h0
  have hval : ∀ p, (s.ss.sem m).carrier = some p → (s.ss.sem m).value.toInt ≤ 0 :=
    fun p hp => (hl.held m p hp).2.2.1
  refine ⟨?_, ⟨hl.free m hm hmx, fun hone => ?_⟩, fun p hp => ⟨?_, fun q hqp hq => ?_, fun q => ?_⟩⟩
  · cases hca : (s.ss.sem m).carrier with
    | none => exact (hl.free m hm hmx hca).le
    | some p => exact (hval p hca).trans (by decide)
  · cases hca : (s.ss.sem m).carrier with
    | none => rfl
    | some p =>
      have := hval p hca
      omega
  · exact List.count_eq_one_of_mem (hl.pool.nodup_list _)
      ((hl.pool.mem_list _).mpr (LockOk.place hp))
  · rw [hl.pool.mem_list, hp, map_some, some.injEq, Slot.plain.injEq] at hq
    exact hqp hq.symm
  · rw [hh m hm hmx, hp, some.injEq]
    exact eq_comm

/-- Process 14 allocates a mutex; in RT mode it takes it, 15 waits for it, and 14 hands
    it over. -/
def handedOver : List Event :=
  .task goodEnv (.semalloc 114
    { name := [109], value := 1, priority := 5, order := false, inherit := false, mutex := true })
    :: threeRt ++ [.rtk 14 goodEnv (.semdown 0 forever), .rtk 15 goodEnv (.semdown 0 forever),
      .rtk 14 goodEnv (.semup 0)]

theorem mutex_exclusion_handed_over : ∃ s H, LockRun SteadyLock boot s H ∧
    (s.ss.sem 0).carrier = some 15 ∧ ∀ q, H 0 q = true ↔ q = 15 := by
  obtain ⟨s, h, hown, hmx, hca⟩ : ∃ s, ReachBy SteadyLock boot s ∧
      (s.ss.sem 0).owner ≠ hardware ∧ (s.ss.sem 0).mutex = true ∧
      (s.ss.sem 0).carrier = some 15 :=
    ReachBy.of_run handedOver (by decide +kernel)
  obtain ⟨H, hH⟩ := h.lockRun
  exact ⟨s, H, hH, hca, ((mutex_exclusion boot_initial hH 0 hown hmx).2.2 15 hca).2.2⟩

/-- A run of events, watched. -/
def KState.runLocks : KState → Held → List Event → Option (KState × Held)
  | s, H, [] => some (s, H)
  | s, H, e :: es => (s.step e).bind (fun s' => s'.runLocks (H.after (s.lockActs e)) es)

theorem LockRun.of_runLocks {es : List Event} (h : LockRun (fun _ _ => True) s₀ s H)
    (hs : s.runLocks H es = some (s', H')) : LockRun (fun _ _ => True) s₀ s' H' := by
  induction es generalizing s H with
  | nil =>
    cases hs
    exact h
  | cons e es ih =>
    obtain ⟨s1, h1, h2⟩ := bind_eq_some_iff.mp hs
    exact ih (h.step trivial h1) h2

theorem LockRun.of_run {P : KState → Held → Prop} [∀ s H, Decidable (P s H)] (es : List Event)
    (h : (s₀.runLocks (fun _ _ => false) es).any (fun r => decide (P r.1 r.2)) = true) :
    ∃ s H, LockRun (fun _ _ => True) s₀ s H ∧ P s H := by
  obtain ⟨r, hr, hp⟩ := (any_eq_true _ _).mp h
  exact ⟨r.1, r.2, LockRun.init.of_runLocks hr, of_decide_eq_true hp⟩

/-- **TWO HOLDERS.**  Process 14 takes the mutex, 15 raises it, and 15 takes it: neither of
    the two downs is matched, and the mutex is still in the lock list of 14. -/
theorem mutex_two_holders : ∃ s H, LockRun (fun _ _ => True) boot s H ∧
    (s.ss.sem 0).owner ≠ hardware ∧ (s.ss.sem 0).mutex = true ∧
    (s.ss.sem 0).carrier = some 15 ∧ H 0 14 = true ∧ H 0 15 = true ∧
    (0 : Sem) ∈ s.ss.lock.list (.plain 14) :=
  LockRun.of_run (.task goodEnv (.semalloc 114
      { name := [109], value := 1, priority := 5, order := false, inherit := false,
        mutex := true }) ::
    threeRt ++ [.rtk 14 goodEnv (.semdown 0 forever), .rtk 15 goodEnv (.semup 0),
      .rtk 15 goodEnv (.semdown 0 forever)]) (by decide +kernel)

end Kernel
