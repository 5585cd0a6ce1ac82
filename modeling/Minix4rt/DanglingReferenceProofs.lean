import Minix4rt.RtMutexProofs
import Minix4rt.VtimerMembershipProofs

/-! # What a process leaves behind — references after `MRT_set2nrt`

    A process that leaves RT mode may be named in message entries, wait lists, lock lists,
    timers and in the pointers `pto` and `pfrom` of processes that wait for it.
    `MRT_set2nrt` clears all of them but the last: it never looks for processes that wait
    for a message of the leaving process.

    `NoDangling` collects what the call should have undone.  In a run whose locks are in
    order it holds after the call exactly if no process waited for the leaving one. -/

namespace Kernel

open ListPool Vtimer KState TimerSt Function Option

variable {e : Event} {x : Option Proc} {s s' s1 s2 s₀ : KState} {p q d rp : Proc} {m : Sem}
  {v : Env} {O : VT → Prop} {c : Code}

/-! ## The calls of `MRT_set2nrt` -/

/-- The event `e` calls `MRT_set2nrt` for `rp`, with the copies of `v` and in the state
    `s0`: for the running process itself, or from `MRTTASK`. -/
inductive LeaveCall (s : KState) : Event → Env → KState → Proc → Prop where
  | own {p : Proc} {v : Env} : s.canRun p = true →
      LeaveCall s (.rtk p v .set2nrt) v { s with cur := p } p
  | exit {v : Env} {nr : Int} {rp : Proc} : procAddr nr = some rp →
      LeaveCall s (.task v (.exit nr)) v { s with cur := mrtTask } rp
  | signal {v : Env} {caller pid : Int} {rp : Proc} : s.pid2pptr pid = some rp →
      LeaveCall s (.task v (.stdsignal caller pid)) v { s with cur := mrtTask } rp

/-- What the invariants say where the call starts. -/
structure LeaveStart (O : VT → Prop) (s0 : KState) (e : Event) (v : Env) (rp : Proc) : Prop where
  rt : RtOk none s0
  ipc : IpcOk O true none s0
  quiet : Quiet s0 e
  copies : v.Copies
  awake : (s0.procs rp).st.semDown = false
  leaves : Leaves e s0 rp
  calls : Calls e v
  noFlush : e.isFlush = false

theorem LeaveCall.same {s0 : KState} (h : LeaveCall s e v s0 rp) :
    ∃ c, s0 = { s with cur := c } := by
  cases h with
  | own _ | exit _ | signal _ => exact ⟨_, rfl⟩

theorem LeaveCall.start {s0 : KState} (h : LeaveCall s e v s0 rp) (hr : RdyOk none s)
    (hi : IpcOk O false none s) (hok : Steady s e) (hrt : (s.procs rp).realtime = true) :
    LeaveStart O s0 e v rp := by
  have hcall : e.isCall = true := by
    cases h with
    | own _ | exit _ | signal _ => rfl
  obtain ⟨c, hs0⟩ := h.same
  obtain ⟨hr0, hi0⟩ : RtOk none s0 ∧ IpcOk O true none s0 := by
    rw [hs0]
    exact hok.enter hr hi hcall c
  have hq0 : Quiet s0 e := by
    rw [hs0]
    exact hok.toQuiet.of_eq rfl rfl rfl
  cases h with
  | own hc =>
    have hrun : (s.procs rp).st = .clear := (running_of_canRun hc hrt).clear
    exact ⟨hr0, hi0, hq0, hok.copies, by rw [hrun]; rfl, rfl, calls_rtk, rfl⟩
  | exit hnr =>
    exact ⟨hr0, hi0, hq0, hok.copies, (hok.settled rp hnr).1, hnr, calls_task, rfl⟩
  | signal hpid =>
    exact ⟨hr0, hi0, hq0, hok.copies, hok.settled rp hpid, hpid, calls_task, rfl⟩

/-- The IPC invariant along the moves of an event. -/
theorem Moves.ipcOk {a b : Option Proc × KState} (hm : Moves e a b) (hf : e.isFlush = false)
    (h : IpcOk O false a.1 a.2) (hq : Quiet a.2 e) : IpcOk O false b.1 b.2 ∧ Quiet b.2 e := by
  induction hm with
  | refl => exact ⟨h, hq⟩
  | tail _ hmv ih =>
    obtain ⟨hi, hqi⟩ := ih
    exact ⟨(hmv.ipcOk (hi.calm hqi.calm) hqi).calm nofun, hmv.quiet hi hqi hf⟩

/-! ## What the call does to the other processes -/

/-- The other processes keep whom they send to; they keep whom they receive from or are
    handed a message; and the return code of one that waits for no semaphore stays. -/
structure Aside (rp : Proc) (s s' : KState) : Prop where
  cur : s'.cur = s.cur
  pto : ∀ p, p ≠ rp → (s'.procs p).pto = (s.procs p).pto
  pfrom : ∀ p, p ≠ rp → (s'.procs p).pfrom = (s.procs p).pfrom ∨
    (s'.procs p).pfrom = none ∧ (s.procs p).st.mbxRcv = true ∧
      ((s.procs p).pfrom = some s.cur ∨ (s.procs p).pfrom = some p)
  rcv : ∀ p, (s'.procs p).st.mbxRcv = true → (s.procs p).st.mbxRcv = true
  down : ∀ p, (s.procs p).st.semDown = false → (s'.procs p).st.semDown = false
  ret : ∀ p, (s.procs p).st.semDown = false → s'.retreg p = s.retreg p

theorem Aside.refl (s : KState) : Aside rp s s :=
  ⟨rfl, fun _ _ => rfl, fun _ _ => .inl rfl, fun _ => id, fun _ => id, fun _ _ => rfl⟩

theorem Aside.trans (h : Aside rp s s1) (h' : Aside rp s1 s') : Aside rp s s' := by
  refine ⟨h'.cur.trans h.cur, fun p hp => (h'.pto p hp).trans (h.pto p hp), fun p hp => ?_,
    fun p hr => h.rcv p (h'.rcv p hr), fun p hd => h'.down p (h.down p hd),
    fun p hd => (h'.ret p (h.down p hd)).trans (h.ret p hd)⟩
  rcases h'.pfrom p hp with h2 | ⟨h2, hr, hf⟩
  · rcases h.pfrom p hp with h1 | ⟨h1, hr, hf⟩
    · exact .inl (h2.trans h1)
    · exact .inr ⟨h2.trans h1, hr, hf⟩
  · rcases h.pfrom p hp with h1 | ⟨h1, hr', hf'⟩
    · rw [h1, h.cur] at hf
      exact .inr ⟨h2, h.rcv p hr, hf⟩
    · exact .inr ⟨h2, hr', hf'⟩

theorem Aside.of_procs (hc : s'.cur = s.cur) (hp : s'.procs = s.procs)
    (hret : s'.retreg = s.retreg) : Aside rp s s' := by
  refine ⟨hc, fun p _ => ?_, fun p _ => .inl ?_, fun p => ?_, fun p => ?_, fun p _ => ?_⟩
  · rw [hp]
  · rw [hp]
  · rw [hp]
    exact id
  · rw [hp]
    exact id
  · rw [hret]

theorem MsgsOnly.aside (h : MsgsOnly s s') : Aside rp s s' := .of_procs h.cur h.procs h.retreg

/-- One record changes, and not in whom the process sends to or receives from. -/
theorem Aside.of_update {r : RtProc} (hc : s'.cur = s.cur) (hp : s'.procs = update s.procs q r)
    (hto : q = rp ∨ r.pto = (s.procs q).pto ∧ r.pfrom = (s.procs q).pfrom)
    (hrcv : r.st.mbxRcv = true → (s.procs q).st.mbxRcv = true)
    (hdn : (s.procs q).st.semDown = false → r.st.semDown = false)
    (hret : ∀ p, (s.procs p).st.semDown = false → s'.retreg p = s.retreg p) : Aside rp s s' := by
  have hself : s'.procs q = r := by rw [hp, update_self]
  have hother : ∀ p, p ≠ q → s'.procs p = s.procs p := by
    intro p hpq
    rw [hp, update_of_ne hpq]
  refine ⟨hc, fun p hprp => ?_, fun p hprp => .inl ?_, fun p => ?_, fun p => ?_, hret⟩
  all_goals
    by_cases hpq : p = q
  · subst hpq
    rw [hself]
    exact (hto.resolve_left hprp).1
  · rw [hother p hpq]
  · subst hpq
    rw [hself]
    exact (hto.resolve_left hprp).2
  · rw [hother p hpq]
  · subst hpq
    rw [hself]
    exact hrcv
  · rw [hother p hpq]
    exact id
  · subst hpq
    rw [hself]
    exact hdn
  · rw [hother p hpq]
    exact id

theorem readyIfClear_ret (h : s.readyIfClear p = some s') : s'.retreg = s.retreg := by
  rw [readyIfClear, rdyQApp] at h
  split at h
  · split at h
    · cases h
      rfl
    · obtain ⟨P, -, rfl⟩ := map_eq_some_iff.mp h
      rfl
  · cases h
    rfl

/-- A message is handed over to a process that waits. -/
theorem Aside.deliver (hrcv : (s.procs d).st.mbxRcv = true)
    (hfrom : (s.procs d).pfrom = some s.cur ∨ (s.procs d).pfrom = some d)
    (hu : s.unblockReceiver d = some s') : Aside rp s s' := by
  obtain ⟨s1, w, t, h1, -, -, rfl⟩ := unblockReceiver_inv hu
  have hq := readyIfClear_only h1
  have hret := readyIfClear_ret h1
  have hself : s1.procs d = { s.procs d with
      pfrom := none, st := { (s.procs d).st with mbxRcv := false } } := by
    rw [hq.procs, updProc_self]
  have hother : ∀ p, p ≠ d → s1.procs p = s.procs p := by
    intro p hp
    rw [hq.procs, updProc_ne _ _ hp]
  refine ⟨hq.cur, fun p _ => ?_, fun p _ => ?_, fun p => ?_, fun p => ?_, fun p _ => ?_⟩
  · show (s1.procs p).pto = _
    by_cases hpd : p = d
    · subst hpd
      rw [hself]
    · rw [hother p hpd]
  · show (s1.procs p).pfrom = _ ∨ (s1.procs p).pfrom = none ∧ _
    by_cases hpd : p = d
    · subst hpd
      rw [hself]
      exact .inr ⟨rfl, hrcv, hfrom⟩
    · rw [hother p hpd]
      exact .inl rfl
  · show (s1.procs p).st.mbxRcv = true → _
    by_cases hpd : p = d
    · subst hpd
      exact fun _ => hrcv
    · rw [hother p hpd]
      exact id
  · show _ → (s1.procs p).st.semDown = false
    by_cases hpd : p = d
    · subst hpd
      rw [hself]
      exact id
    · rw [hother p hpd]
      exact id
  · show s1.retreg p = s.retreg p
    rw [hret]
    rfl

theorem inheritTo_off {q : MsgQ} {k : Nat} (h : s.inheritTo q k d = some s')
    (hb : s.bpip = false) : s' = s := by
  rw [inheritTo] at h
  split at h
  · exact inherit_off hb h
  · exact (some.inj h).symm

/-- A notice changes the process that it wakes, at most. -/
theorem ksend_aside {src dest : Int} {prty : Nat} {t : MType}
    (h : s.ksend v src dest prty t = some (s', c)) (hb : s.bpip = false) :
    Aside rp s s' ∧ s'.bpip = false := by
  cases ksend_inv h with
  | refused hc | noEntry hsp hc hw hn => exact ⟨.refl s, hb⟩
  | @direct sp d q s1 s' hsp hc hw hv h1 h2 =>
    simp only [waiting, Bool.true_and, Bool.and_eq_true, Bool.or_eq_true, decide_eq_true_eq] at hw
    have h0 : Aside rp s ((s.stamp sp).countDirect d q false) := .of_procs rfl rfl rfl
    have hb1 : s1.bpip = false := by
      obtain ⟨s3, _, _, h4, -, -, rfl⟩ := unblockReceiver_inv h1
      exact (readyIfClear_only h4).bpip.trans hb
    obtain rfl := inheritTo_off h2 hb1
    exact ⟨h0.trans (.deliver hw.1 hw.2 h1), hb1⟩
  | badHeader hsp hc hw hv => exact ⟨.of_procs rfl rfl rfl, hb⟩
  | lost hsp hc hw hn hv =>
    have ho := newEntry_only hn
    exact ⟨ho.aside, ho.bpip.trans hb⟩
  | queued hsp hc hw hn hv hq h2 =>
    have ho := enqueued hn hq
    obtain rfl := inheritTo_off h2 (ho.bpip.trans hb)
    exact ⟨ho.aside, ho.bpip.trans hb⟩

theorem DetachStep.aside (hb : s.bpip = false) (h : DetachStep v rp s s') :
    Aside rp s s' ∧ s'.bpip = false := by
  cases h with
  | watch q => exact ⟨.of_update rfl rfl (.inr ⟨rfl, rfl⟩) id id (fun _ _ => rfl), hb⟩
  | notice _ hk => exact ksend_aside hk hb
  | queue hq =>
    rcases dropQueue_inv hq with ⟨-, rfl⟩ | ⟨q, m, -, -, -, rfl⟩
    · exact ⟨.refl _, hb⟩
    · exact ⟨.of_update rfl rfl (.inl rfl) id id (fun _ _ => rfl), hb⟩
  | sweep _ _ _ hk => exact ⟨(dropEntry_only hk).aside, (dropEntry_only hk).bpip.trans hb⟩

theorem detach_aside (hb : s.bpip = false) (h : s.detach v rp = some s') : Aside rp s s' := by
  obtain ⟨s1, h1, hsteps⟩ := detach_steps h
  suffices hk : Aside rp s s' ∧ s'.bpip = false from hk.1
  clear h
  induction hsteps with
  | refl =>
    obtain ⟨t, rfl⟩ := leave_inv h1
    split <;> exact ⟨.of_update rfl rfl (.inl rfl) id id (fun _ _ => rfl), hb⟩
  | tail _ hs ih =>
    obtain ⟨h2, hb2⟩ := hs.aside ih.2
    exact ⟨ih.1.trans h2, hb2⟩

/-- `MRT_semup` writes no return code. -/
theorem semup_ret {j : Option Proc} (hb : s.bpip = false)
    (h : s.semup m j = some (s', c)) : s'.retreg = s.retreg := by
  rw [KState.semup] at h
  split at h
  · cases h
    rfl
  simp only [bind_eq_bind, bind_eq_some_iff, some.injEq, Prod.mk.injEq] at h
  obtain ⟨s1, h1, rfl, -⟩ := h
  show s1.retreg = s.retreg
  split at h1
  · obtain ⟨rp, w, t, s2, s3, -, hr, -, -, hm, hc⟩ := semupWake_inv h1
    obtain rfl := sprocRmv_inv hr
    rw [readyIfClear_ret hc]
    show s3.retreg = s.retreg
    simp only at hm
    split at hm
    · obtain ⟨P, s4, -, rfl, hm⟩ := handMutex_inv hm
      split at hm
      · rw [disinherit_off (by exact hb) hm]
        rfl
      · cases hm
        rfl
    · cases hm
      rfl
  split at h1
  · cases h1
    rfl
  · cases h1
    rfl

theorem semup_aside {j : Option Proc} (hb : s.bpip = false)
    (h : s.semup m j = some (s', c)) : Aside rp s s' := by
  have hret := semup_ret hb h
  obtain ⟨hcur, hup⟩ := semup_cases h
  cases hup with
  | refused _ he =>
    subst he
    exact .refl _
  | wake _ _ _ hp _ _ =>
    exact .of_update hcur hp (.inr ⟨rfl, rfl⟩) id (fun _ => rfl) (fun _ _ => by rw [hret])
  | count _ _ hp _ => exact .of_procs hcur hp hret

/-- The waiters that `MRT_sem_empty` releases get a return code, nobody else. -/
theorem RtOk.release_aside (hr : RtOk x s) (h : ReleaseStep m s s') : Aside rp s s' := by
  cases h with
  | @wake _ _ s3 q hp h1 h2 h3 =>
    obtain ⟨-, -, hst, -, -⟩ := hr.picked hp
    obtain ⟨hpr, -, -, hcur⟩ := release_only h1 h2 h3
    refine .of_update hcur hpr (.inr ⟨rfl, rfl⟩) id (fun _ => rfl) (fun p hd => ?_)
    have hpq : p ≠ q := by
      rintro rfl
      rw [hst] at hd
      cases hd
    show update s3.retreg q _ p = _
    rw [update_of_ne hpq, readyIfClear_ret h3]
    obtain rfl := sprocRmv_inv h1
    obtain ⟨t, rfl⟩ := stopTimerIf_only h2
    rfl

theorem RtOk.unlock_aside (hr : RtOk x s) (h : Relation.ReflTransGen (UnlockStep p) s s') :
    Aside rp s s' ∧ RtOk x s' := by
  induction h with
  | refl => exact ⟨.refl _, hr⟩
  | tail _ hs ih =>
    obtain ⟨m, j, c, -, hs⟩ := hs
    exact ⟨ih.1.trans (semup_aside ih.2.bpip hs), ih.2.semup hs⟩

theorem RtOk.empty_aside {ms : List Sem} (hr : RtOk x s)
    (h : Relation.ReflTransGen (fun a b => ∃ m ∈ ms, ReleaseStep m a b) s s') :
    Aside rp s s' ∧ RtOk x s' := by
  induction h with
  | refl => exact ⟨.refl _, hr⟩
  | tail _ hs ih =>
    obtain ⟨m, -, hs⟩ := hs
    exact ⟨ih.1.trans (ih.2.release_aside hs), (ih.2.releaseStep hs).1⟩

/-! ## After the call -/

/-- The process `p` is blocked in a send to `rp` or in a receive from it. -/
def BlockedOn (s : KState) (rp p : Proc) : Prop :=
  p ≠ rp ∧ ((s.procs p).st.mbxSnd = true ∧ (s.procs p).pto = some rp ∨
    (s.procs p).st.mbxRcv = true ∧ (s.procs p).pfrom = some rp)

/-- Nothing names `rp` any more, and who was blocked on it has been released. -/
structure NoDangling (rp : Proc) (s s' : KState) : Prop where
  waits : ∀ m, rp ∉ s'.linked m
  carries : ∀ m, (s'.ss.sem m).carrier ≠ some rp
  entries : ∀ k q l, k ∈ s'.ms.pool.list (.level q l) →
    (s'.ms.hdr k).src ≠ procNr rp ∧ (s'.ms.hdr k).dst ≠ procNr rp
  peers : ∀ p, p ≠ rp → (s'.procs p).pto ≠ some rp ∧ (s'.procs p).pfrom ≠ some rp
  timers : ∀ w, .act ∈ occurrences s'.tm w ∨ (∃ k, .exp k ∈ occurrences s'.tm w) →
    (s'.tm.vt w).owner ≠ procNr rp
  released : ∀ p, BlockedOn s rp p →
    p ∈ s'.rq.pool.list (.level none (s'.rq.prio p)) ∧ s'.retreg p = some .exiting

/-- The sweep takes back every message of `rp`, its own notices among them. -/
theorem set2nrt_src (hrt : (s.procs rp).realtime = true) (hhw : rp ≠ hardwareProc)
    (hs : s.set2nrt v rp = some (s', c)) (k : Mqe) : (s'.ms.hdr k).src ≠ procNr rp := by
  rcases set2nrt_inv hs with ⟨hn, -⟩ | ⟨-, s1, s2, s3, h1, h2, h3, rfl⟩
  · rw [hrt] at hn
    cases hn
  have h2' := (unlock_moves (e := .ksend rp v 0 0 0 .irq) rfl (unlocking_steps h2)).2.ms
  have h3' := (release_moves (e := .ksend rp v 0 0 0 .irq) rfl h3).2.1.ms
  rw [(backToMinix_only s3 rp).ms]
  show (s3.ms.hdr k).src ≠ procNr rp
  rw [h3', h2']
  exact (detach_done h1).2 hhw k

/-- What holds after every completed call, whoever waits. -/
theorem LeaveStart.done (h : LeaveStart O s e v rp) (hl : LockOk s)
    (hrt : (s.procs rp).realtime = true) (hs : s.set2nrt v rp = some (s', c)) :
    (∀ m, rp ∉ s'.linked m) ∧ (∀ m, (s'.ss.sem m).carrier ≠ some rp) ∧
    (∀ k q l, k ∈ s'.ms.pool.list (.level q l) →
      (s'.ms.hdr k).src ≠ procNr rp ∧ (s'.ms.hdr k).dst ≠ procNr rp) ∧
    (∀ w, .act ∈ occurrences s'.tm w ∨ (∃ k, .exp k ∈ occurrences s'.tm w) →
      (s'.tm.vt w).owner ≠ procNr rp) := by
  obtain ⟨hr', hnrt, -⟩ := h.rt.set2nrt h.ipc h.copies h.awake hs
  obtain ⟨hl', -⟩ := hl.set2nrt h.rt h.ipc h.copies h.awake hs
  obtain ⟨hmv, -⟩ := set2nrt_moves h.calls h.leaves hs
  obtain ⟨hi', -⟩ := hmv.ipcOk h.noFlush (h.ipc.calm nofun) h.quiet
  have hi' : IpcOk O false none s' := hi'
  have hhw : rp ≠ hardwareProc := h.ipc.timers.slot rp hrt
  refine ⟨fun m hm => ?_, fun m hc => ?_, fun k q l hk => ⟨?_, fun hdst => ?_⟩, fun w hw hown => ?_⟩
  · obtain ⟨l, -, hl⟩ := List.mem_flatMap.mp hm
    rw [hr'.pool.mem_list] at hl
    rw [(hr'.of_wait hl).2.1] at hnrt
    cases hnrt
  · rw [(hl'.held m rp hc).2.2.2] at hnrt
    cases hnrt
  · exact set2nrt_src hrt hhw hs k
  · rw [hi'.msgs.pool.mem_list] at hk
    obtain ⟨-, -, d, hd, hq⟩ := hi'.msgs.of_place hk
    have hdrp : d = rp := procNr_inj.mp (hd.symm.trans hdst)
    rw [hdrp] at hq
    rw [hi'.msgs.owner rp q hq] at hnrt
    cases hnrt
  · have harm : Armed (s'.tm.place w) := by
      rw [TimersOk.occurrences hi'.timers.tm] at hw
      cases hpl : s'.tm.place w with
      | none => simp [hpl] at hw
      | some i =>
        rw [hpl] at hw
        refine ⟨by simp, ?_⟩
        rintro hf
        cases hf
        simp at hw
    rcases hi'.timers.armed w harm with ⟨p, hp, -⟩ | ⟨hhard, -⟩
    · obtain ⟨hprt, hpown, -⟩ := hi'.timers.own p w hp
      rw [procNr_inj.mp (hpown.symm.trans hown)] at hprt
      rw [hprt] at hnrt
      cases hnrt
    · exact hhw (procNr_inj.mp (hown.symm.trans (hhard.trans
        (by decide : hardware = procNr hardwareProc))))

theorem backToMinix_ret (s : KState) (p : Proc) : (s.backToMinix p).retreg = s.retreg := by
  rw [backToMinix]
  split
  · rw [ready]
    split <;> rfl
  · rfl

/-- The other processes, up to the point where `rp` is made a MINIX process. -/
theorem LeaveStart.aside (h : LeaveStart O s e v rp)
    (hrt : (s.procs rp).realtime = true) (hs : s.set2nrt v rp = some (s', c)) :
    ∃ s3, Aside rp s s3 ∧ s' = s3.backToMinix rp := by
  rcases set2nrt_inv hs with ⟨hn, -⟩ | ⟨-, s1, s2, s3, h1, h2, h3, rfl⟩
  · rw [hrt] at hn
    cases hn
  obtain ⟨hr1, hi1⟩ := h.rt.detach h.ipc h.copies hrt h.awake h1
  have k1 : Aside rp s s1 := detach_aside h.rt.bpip h1
  obtain ⟨k2, hr2⟩ := hr1.unlock_aside (unlocking_steps h2)
  have k3 : Aside rp s2 s3 := by
    rcases emptying_steps h3 with rfl | ⟨ms, -, hsteps⟩
    · exact .refl _
    · exact (hr2.empty_aside hsteps).1
  exact ⟨s3, (k1.trans k2).trans k3, rfl⟩

/-- A process that waits for a message waits for no semaphore. -/
theorem RdyOk.receiver_awake (h : RdyOk x s) (hrcv : (s.procs p).st.mbxRcv = true) :
    (s.procs p).st.semDown = false := by
  cases hd : (s.procs p).st.semDown with
  | false => rfl
  | true =>
    rw [h.alone p hd] at hrcv
    cases hrcv

/-- **NO DANGLING REFERENCES.**  When a call of `MRT_set2nrt` for `rp` in a run with its locks
    in order completes, nothing names `rp` any more and who was blocked on `rp` has been
    released with `E_MRT_EXITING`, exactly if no process sent to `rp` or waited for a message
    of it. -/
theorem leave_no_dangling_iff {s0 : KState} {c : Code} (h0 : Initial s₀)
    (h : ReachBy SteadyLock s₀ s) (hcall : LeaveCall s e v s0 rp) (hok : Steady s e)
    (hrt : (s.procs rp).realtime = true)
    (hret : ∀ p, BlockedOn s rp p → s.retreg p ≠ some .exiting)
    (hs : s0.set2nrt v rp = some (s', c)) :
    NoDangling rp s s' ↔
      ∀ p, p ≠ rp → (s.procs p).pto ≠ some rp ∧ (s.procs p).pfrom ≠ some rp := by
  obtain ⟨H, hrun⟩ := h.lockRun
  have hst := h.mono (fun _ _ h => h.1)
  have hstart := hcall.start (hst.rdyOk h0) (hst.quiet.ipcOk h0) hok hrt
  obtain ⟨cu, rfl⟩ := hcall.same
  have hl : LockOk { s with cur := cu } := (hrun.lockOk h0).1.same rfl (fun _ _ _ hrt => hrt)
  obtain ⟨hw, hca, hent, htm⟩ := hstart.done hl hrt hs
  obtain ⟨s3, ha, rfl⟩ := hstart.aside hrt hs
  have hproc : ∀ p, p ≠ rp → (s3.backToMinix rp).procs p = s3.procs p := by
    intro p hp
    rw [(backToMinix_only s3 rp).procs, updProc_ne _ _ hp]
  constructor
  · intro hnd p hp
    obtain ⟨hto, hfrom⟩ := hnd.peers p hp
    rw [hproc p hp] at hto hfrom
    rw [ha.pto p hp] at hto
    refine ⟨hto, fun hf => ?_⟩
    rcases ha.pfrom p hp with hsame | ⟨-, hrcv, -⟩
    · exact hfrom (hsame.trans hf)
    · -- it was handed a notice, and a notice writes no return code
      have hbl : BlockedOn s rp p := ⟨hp, .inr ⟨hrcv, hf⟩⟩
      have hex := (hnd.released p hbl).2
      rw [backToMinix_ret, ha.ret p (hstart.rt.receiver_awake hrcv)] at hex
      exact hret p hbl hex
  · intro hno
    refine ⟨hw, hca, hent, fun p hp => ?_, htm, fun p hbl => ?_⟩
    · obtain ⟨hto, hfrom⟩ := hno p hp
      rw [hproc p hp, ha.pto p hp]
      refine ⟨hto, fun hf => ?_⟩
      rcases ha.pfrom p hp with hsame | ⟨hnone, -⟩
      · exact hfrom (hsame.symm.trans hf)
      · rw [hnone] at hf
        cases hf
    · obtain ⟨hp, ⟨-, hto⟩ | ⟨-, hfrom⟩⟩ := hbl
      · exact absurd hto (hno p hp).1
      · exact absurd hfrom (hno p hp).2

instance (s : KState) (rp p : Proc) : Decidable (BlockedOn s rp p) :=
  inferInstanceAs (Decidable (p ≠ rp ∧ ((s.procs p).st.mbxSnd = true ∧ (s.procs p).pto = some rp ∨
    (s.procs p).st.mbxRcv = true ∧ (s.procs p).pfrom = some rp)))

/-- Process 15 waits for the semaphore of 14, which leaves RT mode: nothing names it. -/
theorem leave_no_dangling_owner : ∃ s s' c, ReachBy SteadyLock boot s ∧
    KState.set2nrt goodEnv { s with cur := 14 } 14 = some (s', c) ∧
    (s.procs 15).psem = some 0 ∧ NoDangling 14 s s' := by
  obtain ⟨s, h, hcan, hok, hrt, hsem, hbl, hno, hsome⟩ : ∃ s, ReachBy SteadyLock boot s ∧
      s.canRun 14 = true ∧ Steady s (.rtk 14 goodEnv .set2nrt) ∧
      (s.procs 14).realtime = true ∧ (s.procs 15).psem = some 0 ∧
      (∀ p, ¬ BlockedOn s 14 p) ∧
      (∀ p, p ≠ 14 → (s.procs p).pto ≠ some 14 ∧ (s.procs p).pfrom ≠ some 14) ∧
      (KState.set2nrt goodEnv { s with cur := 14 } 14).isSome = true :=
    ReachBy.of_run oneWaits (by decide +kernel)
  obtain ⟨⟨s', c⟩, hset⟩ := isSome_iff_exists.mp hsome
  exact ⟨s, s', c, h, hset, hsem, (leave_no_dangling_iff boot_initial h (.own hcan) hok hrt
    (fun p hp => absurd hp (hbl p)) hset).mpr hno⟩

/-- **A RECEIVER IS FORGOTTEN.**  Process 15 waits for a message of 14, and 14 leaves RT
    mode: 15 goes on waiting for it. -/
theorem receiver_forgotten : ∃ s s' c, ReachBy SteadyLock boot s ∧
    KState.set2nrt goodEnv { s with cur := 14 } 14 = some (s', c) ∧
    (s'.procs 15).st.mbxRcv = true ∧ (s'.procs 15).pfrom = some 14 ∧ ¬ NoDangling 14 s s' := by
  obtain ⟨s, h, hs⟩ : ∃ s, ReachBy SteadyLock boot s ∧
      (KState.set2nrt goodEnv { s with cur := 14 } 14).any (fun r => decide (
        (r.1.procs 15).st.mbxRcv = true ∧ (r.1.procs 15).pfrom = some 14)) = true :=
    ReachBy.of_run [.rtk 14 goodEnv .set2rt, .rtk 15 goodEnv .set2rt,
      .rtk 15 goodEnv (.receive (withProc 14 forever))] (by decide +kernel)
  obtain ⟨r, hset, hr⟩ := (any_eq_true _ _).mp hs
  obtain ⟨hrcv, hfrom⟩ := of_decide_eq_true hr
  exact ⟨s, r.1, r.2, h, hset, hrcv, hfrom, fun hnd => (hnd.peers 15 (by decide)).2 hfrom⟩

end Kernel
