import Minix4rt.LeaveTerminationProofs

/-! # Entering RT mode — which calls of `rtk_set2rt` are safe

    `rtk_set2rt` checks the free timers and the free entries of the message pool, and then
    takes a message queue and a timer, each with a panic if there is none.  The number of
    free queues is not checked.  There is one all the same: every queue that is not free
    belongs to an RT process, which owns a timer as well, and there are as many timers as
    queues.

    That the free timer can be taken needs that its link points back to it.  A timed sleep
    takes this pointer away from a timer, so the pointers of the free timers are an
    invariant of the runs: a timer comes to the free list only through
    `MRT_vtimer_free`, which resets the link.

    For a periodic process the call then stores a null pointer in `rp->pvt` and starts that
    timer.  The result is an equivalence: the call is safe if it refuses, or if the
    process is not periodic and the walk of `unready` ends. -/

/-! ## The free timers -/

namespace Vtimer.TimerSt

variable {t t' : TimerSt} {w : VT} {r : Timer}

/-- The link of every free timer points back to it. -/
def BackFree (t : TimerSt) : Prop := ∀ v, t.place v = some .free → (t.vt v).this = some v

/-- A timer in the free list was there before with the same pointer, or its link has just
    been reset. -/
def FreeKept (t t' : TimerSt) : Prop :=
  ∀ v, t'.place v = some .free →
    t.place v = some .free ∧ (t'.vt v).this = (t.vt v).this ∨ (t'.vt v).this = some v

theorem BackFree.kept (h : BackFree t) (hk : FreeKept t t') : BackFree t' := by
  intro v hv
  rcases hk v hv with ⟨hf, ht⟩ | ht
  · exact ht.trans (h v hf)
  · exact ht

theorem FreeKept.of_eq (h : t' = t) : FreeKept t t' := by
  subst h
  exact fun v hv => .inl ⟨hv, rfl⟩

theorem undelta_this {a c : Timer} (h : a.undelta = c.undelta) : a.this = c.this := by
  simp only [Timer.undelta, Timer.mk.injEq] at h
  tauto

theorem Moved.freeKept {o : Option TimerQ} (h : Moved t t' w o r)
    (ho : o = some .free → r.this = some w) : FreeKept t t' := by
  intro v hv
  by_cases hvw : v = w
  · subst hvw
    rw [h.place_self] at hv
    exact .inr ((undelta_this h.self).trans (ho hv))
  · rw [h.place_ne hvw] at hv
    exact .inl ⟨hv, undelta_this (h.same v hvw)⟩

theorem Expires.freeKept (h : Expires t t') : FreeKept t t' := by
  intro v hv
  rcases h.each v with ⟨hp, hu⟩ | ⟨-, -, hp, -⟩
  · rw [hp] at hv
    exact .inl ⟨hv, undelta_this hu⟩
  · rw [hp] at hv
    cases hv

/-- A timer can be taken if the free list is not empty. -/
theorem BackFree.alloc {per lim : BitVec 32} {act : Act} {par owner : Int} {pty : Prty}
    (h : BackFree t) (hok : t.TimersOk) (hn : (t.q.hdr .free).inQ ≠ 0)
    (hper : ¬ (per = 0 ∨ maxPer < per)) :
    ∃ v, t.place v = some .free ∧
      ∃ t', t.vtimerAlloc per lim act par owner pty = some (some v, t') := by
  obtain ⟨f, hf, -, -⟩ := hok.placed
  have hlen := hf.inQ_eq .free
  cases hfirst : (t.q.hdr .free).first with
  | none =>
    rw [hf.first_eq, List.head?_eq_none_iff] at hfirst
    rw [hfirst] at hlen
    exact absurd hlen hn
  | some v =>
    have hv := hok.placed.of_first hfirst
    refine ⟨v, hv, ?_⟩
    rw [vtimerAlloc, if_neg hn, if_neg hper]
    simp only [hfirst, h v hv]
    exact ⟨_, rfl⟩

end Vtimer.TimerSt

namespace Kernel

open ListPool Vtimer KState TimerSt Function Option

variable {e : Event} {x x' : Option Proc} {s s' s1 s2 s₀ : KState} {p d : Proc} {q : MsgQ}
  {k : Mqe} {w : VT} {O : VT → Prop} {b : Bool} {t : TimerSt}

/-! ## What a move does to them -/

/-- An IPC timer that has not expired is stopped. -/
theorem TimersOwned.freeKept_stop (h : TimersOwned O true s) (hw : (s.procs p).ipcvt = some w)
    (ht : s.tm.vtimerStop w = some t) : FreeKept s.tm t :=
  (moved_vtimerStop h.tm (h.stoppable hw) ht).freeKept (by simp)

/-- A process whose timer is in no queue starts it, unless it waits for ever. -/
theorem armIpc_freeKept {n : BitVec 32} {act : Act} {par : Int} (hok : s.tm.Placed s.tm.place)
    (hidle : ∀ w, (s.procs p).ipcvt = some w → s.tm.place w = none)
    (h : s.armIpc p n act par = some s') : FreeKept s.tm s'.tm := by
  rw [armIpc] at h
  split at h
  · cases h
    exact .of_eq rfl
  · simp only [bind_eq_bind, bind_eq_some_iff, some.injEq] at h
    obtain ⟨w, hw, t, ht, rfl⟩ := h
    exact (moved_vtset hok (hidle w hw) ht).freeKept (by simp)

/-- The receive section of `rtk_rqrcv` writes the parameter of the timer and starts it. -/
theorem blockReply_freeKept {ipc : Ipc} {par : Int} (hok : s.tm.Placed s.tm.place)
    (hidle : ∀ w, (s.procs s.cur).ipcvt = some w → s.tm.place w = none)
    (hset : s.setIpcParam s.cur par = some s1) (hb : s1.blockReply ipc d = some s') :
    FreeKept s.tm s'.tm := by
  obtain ⟨w, hw, rfl⟩ := setIpcParam_inv hset
  have hm : Moved s.tm (s.tm.upd w (fun t => { t with param := par })) w none
      { s.tm.vt w with param := par } :=
    (hidle w hw ▸ Moved.refl hok w).upd (fun t => { t with param := par })
  simp only [blockReply, bind_eq_bind, bind_eq_some_iff, some.injEq] at hb
  obtain ⟨s2, ha, rfl⟩ := hb
  rw [armIpc] at ha
  split at ha
  · cases ha
    exact hm.freeKept (by simp)
  · simp only [bind_eq_bind, bind_eq_some_iff, some.injEq] at ha
    obtain ⟨w', hw', t, ht, rfl⟩ := ha
    cases hw.symm.trans hw'
    exact (hm.trans (moved_vtset hm.wf hm.place_self ht)).freeKept (by simp)

/-- The timer that a flush runs leaves the expired queue. -/
theorem IpcOk.expire_freeKept {v : Env} {k : Prty} (h : IpcOk O b none s)
    (hpl : s.tm.place w = some (.exp k)) (hthis : (s.tm.vt w).this = some w)
    (hr : s.vtimerRun v w = some s') : FreeKept s.tm s'.tm := by
  obtain ⟨s1, tm, t, rfl, hre, rfl, -⟩ := h.timers.expire_inv hpl hthis hr
  rcases moved_run h.timers.tm hpl hre with ⟨hm, -⟩ | ⟨hm, -⟩
  all_goals exact hm.freeKept (by simp)

/-- **WHAT A MOVE DOES TO THE FREE TIMERS.** -/
theorem Move.freeKept (hm : Move e (x, s) (x', s')) (h : IpcOk O e.isCall x s) (hq : Quiet s e) :
    FreeKept s.tm s'.tm := by
  have hidle : Running s → ∀ w, (s.procs s.cur).ipcvt = some w → s.tm.place w = none :=
    fun hrun w hw => h.timers.idle hw hrun.clear
  cases hm with
  | book hb => exact .of_eq hb.tm
  | watch p w | procRst _ _ _ | writeAttr _ _ => exact .of_eq rfl
  | inherit _ hi => exact .of_eq (inherit_only hi).tm
  | disinherit _ hd => exact .of_eq (disinherit_only hd).tm
  | deliver he _ _ _ hu =>
    rw [he] at h
    obtain ⟨s1, w, t, -, hw, ht, rfl⟩ := unblockReceiver_inv hu
    exact h.timers.freeKept_stop hw ht
  | queue _ _ _ _ _ _ _ hn he => exact .of_eq (enqueued hn he).tm
  | lose hl _ => exact absurd hq.copies hl
  | send hrun _ _ _ _ hn he ha =>
    obtain ⟨hp, -, htm, -, -, hcur, -⟩ := enqueued hn he
    have hk := armIpc_freeKept (by rw [htm]; exact h.timers.tm.placed)
      (by rw [hp, hcur, htm]; exact hidle hrun) ha
    rw [htm] at hk
    exact hk
  | @sendRecv _ s1 s2 s3 _ _ _ _ _ _ _ _ _ hrun _ _ _ _ _ hn he hs hb =>
    obtain ⟨hp, -, htm, -, -, hcur, -⟩ := enqueued hn he
    have hok : s2.tm.Placed s2.tm.place := by
      rw [htm]
      exact h.timers.tm.placed
    have hidle2 : ∀ w, (s2.procs s2.cur).ipcvt = some w → s2.tm.place w = none := by
      rw [hp, hcur, htm]
      exact hidle hrun
    have hk : FreeKept s2.tm s'.tm := by
      refine blockReply_freeKept (s := s2.updProc s2.cur _) hok (fun w hw => hidle2 w ?_) hs hb
      rw [show (s2.updProc s2.cur _).cur = s2.cur from rfl, updProc_self] at hw
      exact hw
    rw [htm] at hk
    exact hk
  | recvReply hrun _ _ _ hs hb =>
    exact blockReply_freeKept h.timers.tm.placed (hidle hrun) hs hb
  | recv hrun _ _ _ hb =>
    simp only [blockReceive, bind_eq_bind, bind_eq_some_iff, some.injEq] at hb
    obtain ⟨s1, ha, rfl⟩ := hb
    have hk : FreeKept s.tm s1.tm := armIpc_freeKept h.timers.tm.placed (hidle hrun) ha
    exact hk
  | take _ he _ _ _ hr hd =>
    subst he
    have htm := (dropEntry_only hd).tm
    rcases releaseSender_cases hr with ⟨-, -, w, hw, hst, -⟩ | ⟨-, -, rfl⟩ | ⟨-, rfl⟩
    · rw [htm]
      exact TimersOwned.freeKept_stop h.timers hw hst
    all_goals exact .of_eq htm
  | sleep hrun hs =>
    rcases sleep_inv hs with rfl | ⟨t, rfl, htm | ⟨w, hw, ht⟩⟩
    · exact .of_eq rfl
    · exact .of_eq htm
    · have hm1 := (hidle hrun w hw ▸ Moved.refl h.timers.tm.placed w).upd
        (fun t => { t with nextexp := 0, flags := .alloc, this := none })
      have hm2 := hm1.trans (moved_rstLink hm1.wf hm1.place_self)
      exact (hm2.trans (moved_vtset hm2.wf hm2.place_self ht)).freeKept (by simp)
  | stop he _ hs =>
    rw [he] at h
    obtain ⟨w, t, hw, ht, rfl⟩ := stopTimer_inv hs
    exact h.timers.freeKept_stop hw ht
  | wake he _ hs _ hr =>
    rw [he] at h
    obtain ⟨w, t, hw, ht, rfl⟩ := stopTimer_inv hs
    rw [(readyIfClear_only hr).tm]
    exact h.timers.freeKept_stop hw ht
  | semup _ he _ hs =>
    subst he
    rcases semup_core hs with ⟨-, htm, -⟩ | ⟨rp, w, -, hw, ht, -⟩
    · exact .of_eq htm
    · exact TimersOwned.freeKept_stop h.timers hw ht
  | semdown hrun _ _ hs =>
    rcases semdown_core hs with ⟨-, htm, -⟩ | ⟨s1, ha, htm, -⟩
    · exact .of_eq htm
    · rw [htm]
      exact armIpc_freeKept h.timers.tm.placed (hidle hrun) ha
  | unlock he _ hs =>
    rw [he] at h
    rcases semup_core hs with ⟨-, htm, -⟩ | ⟨rp, w, -, hw, ht, -⟩
    · exact .of_eq htm
    · exact h.timers.freeKept_stop hw ht
  | release he _ _ _ hr hst hs =>
    rw [he] at h
    obtain rfl := sprocRmv_inv hr
    rw [(readyIfClear_only hs).tm]
    rcases stopTimerIf_inv hst with ⟨-, rfl⟩ | ⟨w, t, hw, ht, rfl⟩
    · exact .of_eq rfl
    · exact h.timers.freeKept_stop hw ht
  | semalloc _ _ _ hs => exact .of_eq (semalloc_only hs).tm
  | semFree _ _ hs => exact .of_eq (semFree_only hs).tm
  | set2rt _ _ hs =>
    rcases rtkSet2rt_inv hs with rfl | ⟨q, w, t, s1, -, -, ht, h1, h2⟩
    · exact .of_eq rfl
    · have htm : s'.tm = t := (rdyQApp_only h2).tm.trans (unready_only h1).1.tm
      rcases moved_vtimerAlloc h.timers.tm ht with ⟨-, he⟩ | ⟨i, -, -, hm⟩
      · exact .of_eq (htm.trans he)
      · rw [htm]
        exact hm.freeKept (by simp)
  | @leave _ _ rp hl _ hs =>
    rw [hl.call] at h
    have hu := unqueue_only s rp
    obtain ⟨tm, rfl, ⟨-, ht⟩ | ⟨w, r, -, hm⟩⟩ := (h.sched hu).timers.dropTimers_inv hs
    · exact .of_eq (ht.trans hu.tm)
    · exact (hu.tm ▸ hm).freeKept (fun _ => rfl)
  | dropQueue hs =>
    rcases dropQueue_inv hs with ⟨-, rfl⟩ | ⟨q, m, -, -, -, rfl⟩
    all_goals exact .of_eq rfl
  | sweep _ _ _ hs =>
    exact .of_eq (dropEntry_only hs).tm
  | back _ _ => exact .of_eq (backToMinix_only s _).1.tm
  | irqTimer ha hi =>
    obtain ⟨⟨o, t⟩, hal, he⟩ := map_eq_some_iff.mp ha
    cases he
    simp only [insTimer, bind_eq_bind, bind_eq_some_iff, some.injEq] at hi
    obtain ⟨w, rfl, t', hins, rfl⟩ := hi
    rcases moved_vtimerAlloc h.timers.tm hal with ⟨hn, -⟩ | ⟨i, hiw, -, hm⟩
    · cases hn
    · cases hiw
      exact (hm.trans (moved_vtimerIns hm.wf hm.place_self hins)).freeKept (by simp)
  | tick _ ht => exact (clockIrq_expires h.timers.tm ht).freeKept
  | @expire _ _ _ v k plk w he hf hthis hs =>
    have hpl := h.timers.tm.placed.of_first hf
    obtain rfl := (h.timers.tm.fits plk).this w hthis
    exact h.expire_freeKept hpl hthis hs

/-- `MRT_vtimer_init` resets every link. -/
theorem Initial.backFree (h : Initial s) : BackFree s.tm := by
  have hinit : (vtimerInit.map (fun t => decide (∀ v, (t.vt v).this = some v))) = some true := by
    decide +kernel
  rw [h.tm] at hinit
  have hall : ∀ v, (s.tm.vt v).this = some v := by simpa using hinit
  exact fun v _ => hall v

/-- **THE FREE TIMERS POINT BACK** in every state of every quiet run. -/
theorem ReachBy.backFree (h0 : Initial s₀) (h : ReachBy Quiet s₀ s) : BackFree s.tm := by
  exact (h.ipcOk_and (J := fun _ s => BackFree s.tm) ⟨h0.ipcOk, h0.backFree⟩
    (fun hs hb => hs.tm ▸ hb) (fun hm hi hc hb => hb.kept (hm.freeKept hi hc))).2

/-! ## The resources are there -/

/-- A queue is free if a timer is: every queue in use has an owner with a timer, and
    there are as many timers as queues. -/
theorem IpcOk.free_queue (h : IpcOk O b none s) (hg : Equipped none s) {v : VT}
    (hv : s.tm.place v = some .free) : ∃ q, s.ms.free.first () = some q := by
  cases hf : s.ms.free.first () with
  | some q => exact ⟨q, rfl⟩
  | none =>
    exfalso
    have hown : ∀ q, ∃ p w, (s.procs p).pmq = some q ∧ (s.procs p).ipcvt = some w := by
      intro q
      have hq := h.msgs.queues.first_eq_none.mp hf q
      by_cases hp : ∃ p, (s.procs p).pmq = some q
      · obtain ⟨p, hp⟩ := hp
        obtain ⟨-, w, hw⟩ := hg p (by simp) (h.msgs.owner p q hp)
        exact ⟨p, w, hp, hw⟩
      · simp [hp] at hq
    choose f g hfq hfg using hown
    have hinj : Function.Injective g := by
      intro q q' hqq
      have hp : f q = f q' := h.timers.ipcvt_inj (hfg q') (hqq ▸ hfg q)
      exact some.inj ((hfq q).symm.trans (hp ▸ hfq q'))
    -- as many timers as queues, so the free one has an owner too
    obtain ⟨q, hq⟩ := Finite.injective_iff_surjective.mp hinj v
    exact h.timers.not_own hv (f q) (hq ▸ hfg q)

/-- The queue and the timer are taken. -/
theorem getResources_some (hi : IpcOk O b none s) (hb : BackFree s.tm) (hg : Equipped none s)
    (hn : (s.tm.q.hdr .free).inQ ≠ 0) :
    ∃ q v t, s.getResources p = some (equip s p q t v) := by
  have halloc : ∃ v, s.tm.place v = some .free ∧
      ∃ t, s.tm.vtimerAlloc 1 0 .none 0 (procNr p) (s.rq.prio p) = some (some v, t) :=
    hb.alloc hi.timers.tm hn (by decide)
  obtain ⟨v, hv, t, ha⟩ := halloc
  obtain ⟨q, hq⟩ := hi.free_queue hg hv
  refine ⟨q, v, t, ?_⟩
  simp only [getResources, MsgSt.msgQAlloc, hq, vtalloc, updProc, ha, equip, map_some,
    bind_eq_bind, bind_some, update_self, update_idem]

/-- What `MRT_rdyQ_pick` finds is an RT process, whose link points back. -/
theorem RdyOk.pickProc_some (h : RdyOk x s) : ∃ s', s.pickProc = some s' := by
  have hpick : ∃ r, s.mrtPickProc = some r := by
    simp only [mrtPickProc]
    cases hg : s.rq.pool.pget none with
    | none => exact ⟨_, rfl⟩
    | some y =>
      obtain ⟨l, hl, -⟩ := h.pool.of_pget hg
      simp only [(h.linked_rt hl).2]
      exact ⟨_, rfl⟩
  obtain ⟨⟨s1, c⟩, hr⟩ := hpick
  rw [pickProc]
  split
  · rw [hr]
    cases c with
    | true | false => exact ⟨_, rfl⟩
  · exact ⟨_, rfl⟩

/-- The walk of `unready` for `p` along its MINIX queue ends. -/
def WalkEnds (s : KState) (p : Proc) : Prop :=
  ∀ y, s.mx.rdyHead (rdyQ p) = some y → y ≠ p → s.beforeReady p 44 y ≠ none

theorem beforeReady_congr (hmx : s'.mx = s.mx) (n : Nat) :
    ∀ y, s'.beforeReady p n y = s.beforeReady p n y := by
  induction n with
  | zero => exact fun _ => rfl
  | succ n ih =>
    intro y
    rw [beforeReady, beforeReady, hmx]
    cases s.mx.nextready y with
    | none => rfl
    | some z =>
      show (if z = p then _ else _) = (if z = p then _ else _)
      rw [ih z]

/-- `unready` returns exactly if its walk ends. -/
theorem RdyOk.unready_isSome_iff (h : RdyOk x s) : (s.unready p).isSome ↔ WalkEnds s p := by
  rw [unready, WalkEnds]
  cases hd : s.mx.rdyHead (rdyQ p) with
  | none => simp
  | some y =>
    by_cases hy : y = p
    · have h1 : RdyOk x { s with mx := { s.mx with
          rdyHead := update s.mx.rdyHead (rdyQ p) (s.mx.nextready p) } } :=
        h.rdyOnly ⟨⟨rfl, rfl, rfl, rfl, rfl⟩, rfl, rfl, rfl⟩
      obtain ⟨s1, hs1⟩ := h1.pickProc_some
      have hsome : (s.unreadyHead (rdyQ p) p).isSome = true := by
        simp only [unreadyHead]
        split
        · rw [hs1]
          rfl
        · rfl
      simp [hy, hsome]
    · simp [hy, Option.isSome_iff_ne_none]

/-- A process that is in none of the lists is appended to the ready queue. -/
theorem RdyOk.rdyQApp_some (h : RdyOk x s) (hrt : (s.procs p).realtime = false) :
    ∃ s', (s.updProc p (fun r => { r with realtime := true })).rdyQApp p = some s' := by
  rw [rdyQApp]
  split
  · exact ⟨_, rfl⟩
  · obtain ⟨P, hP, -⟩ := h.pool.papp none (s.rq.prio p) (rdyPlace_nrt (x := x) hrt)
    exact ⟨_, map_eq_some_iff.mpr ⟨P, hP, rfl⟩⟩

/-! ## The calls -/

/-- The first checks of `rtk_set2rt` turn `p` down: it is an RT process already, or there
    are too few free timers or no free entries. -/
def Refused (s : KState) (p : Proc) : Prop :=
  (s.procs p).realtime = true ∨ (s.tm.q.hdr .free).inQ = 0 ∨
    ((s.tm.q.hdr .free).inQ = 1 ∧ (s.procs p).periodic = true) ∨ s.ms.pool.count () = 0

/-- The process `p` owns a queue and an IPC timer that are nobody else's. -/
def OwnGear (s : KState) (p : Proc) : Prop :=
  ∃ q v, (s.procs p).pmq = some q ∧ (s.procs p).ipcvt = some v ∧
    ∀ p', p' ≠ p → (s.procs p').pmq ≠ some q ∧ (s.procs p').ipcvt ≠ some v ∧
      (s.procs p').pvt ≠ some v

/-- The period timer of `p` runs, and stays active until the first period; `p` sleeps and is
    not in the ready queue. -/
def PeriodStarted (s : KState) (p : Proc) : Prop :=
  ∃ w, (s.procs p).pvt = some w ∧ (s.procs p).ipcvt ≠ some w ∧
    (∀ p', p' ≠ p → (s.procs p').pvt ≠ some w ∧ (s.procs p').ipcvt ≠ some w) ∧
    (s.tm.vt w).action = .periodic ∧ (s.tm.vt w).owner = procNr p ∧
    (∀ n < (s.procs p).period.toNat, ∀ s1, s.run (List.replicate n .tick) = some s1 →
      s1.tm.place w = some .act) ∧
    (s.procs p).st.sleep = true ∧ ∀ l, p ∉ s.rq.pool.list (.level none l)

/-- `rtk_set2rt`, called by `p`, returns an error and changes nothing, or returns `OK` with
    everything that `p` needs. -/
def EntersSafely (s : KState) (p : Proc) : Prop :=
  ∃ s' c, ({ s with cur := p } : KState).rtkSet2rt = some (s', c) ∧
    (c ≠ .ok ∧ s' = { s with cur := p } ∨
      c = .ok ∧ OwnGear s' p ∧ ((s.procs p).periodic = true → PeriodStarted s' p))

theorem rtkSet2rt_refused (h : Refused s s.cur) :
    ∃ c, s.rtkSet2rt = some (s, c) ∧ c ≠ .ok := by
  simp only [rtkSet2rt]
  by_cases h1 : (s.procs s.cur).realtime = true
  · rw [if_pos h1]
    exact ⟨_, rfl, by decide⟩
  by_cases h2 : (s.tm.q.hdr .free).inQ = 0
  · rw [if_neg h1, if_pos h2]
    exact ⟨_, rfl, by decide⟩
  by_cases h3 : (s.tm.q.hdr .free).inQ = 1 ∧ (s.procs s.cur).periodic = true
  · rw [if_neg h1, if_neg h2, if_pos h3]
    exact ⟨_, rfl, by decide⟩
  have h4 : s.ms.pool.count () = 0 := by
    rcases h with h | h | h | h
    · exact absurd h h1
    · exact absurd h h2
    · exact absurd h h3
    · exact h
  rw [if_neg h1, if_neg h2, if_neg h3, if_pos h4]
  exact ⟨_, rfl, by decide⟩

/-- Past the checks, with the resources at hand, a process that is not periodic has only
    `unready` before it. -/
theorem rtkSet2rt_admitted (h : ¬ Refused s s.cur) {t : TimerSt}
    (hg : s.getResources s.cur = some (equip s s.cur q t w)) :
    s.rtkSet2rt = if (s.procs s.cur).periodic = true then none else
      ((equip s s.cur q t w).unready s.cur).bind (fun s1 =>
        ((s1.updProc s.cur (fun r => { r with realtime := true })).rdyQApp s.cur).map
          (·, .ok)) := by
  simp only [Refused, not_or] at h
  obtain ⟨h1, h2, h3, h4⟩ := h
  simp only [rtkSet2rt]
  rw [if_neg h1, if_neg h2, if_neg h3, if_neg h4, hg]
  simp only [bind_eq_bind, bind_some]
  split
  · rw [startPeriodic_none]
    rfl
  · rfl

/-- **BECOMING AN RT PROCESS.**  In every state of every steady run, a call of `rtk_set2rt`
    returns an error and changes nothing, or gives its caller what it needs, exactly if it
    is refused by the first checks, or the caller is not periodic and the walk along its
    MINIX queue ends. -/
theorem enters_safely_iff (h0 : Initial s₀) (h : ReachBy Steady s₀ s) (hp : s.canRun p = true) :
    EntersSafely s p ↔
      Refused s p ∨ ((s.procs p).periodic = false ∧ WalkEnds s p) := by
  have hhw : p ≠ hardwareProc := by
    rintro rfl
    simp [canRun] at hp
  have hsc : SchedOnly s { s with cur := p } := ⟨rfl, rfl, rfl, rfl, rfl⟩
  have hi : IpcOk (fun _ => False) false none { s with cur := p } :=
    (h.quiet.ipcOk h0).sched hsc
  have hr : RdyOk none { s with cur := p } :=
    (h.rdyOk h0).rdyOnly ⟨hsc, rfl, rfl, rfl⟩
  by_cases href : Refused s p
  · obtain ⟨c, hc, hne⟩ := rtkSet2rt_refused (s := { s with cur := p }) href
    exact ⟨fun _ => .inl href, fun _ => ⟨_, c, hc, .inl ⟨hne, rfl⟩⟩⟩
  have hn : (s.tm.q.hdr .free).inQ ≠ 0 := fun hn => href (.inr (.inl hn))
  have hback := h.quiet.backFree h0
  have hgear := h.quiet.equipped h0
  obtain ⟨q, v, t, hg⟩ := getResources_some (p := p) hi hback hgear hn
  have hcall := rtkSet2rt_admitted (s := { s with cur := p }) href hg
  have hr1 : RdyOk none (equip { s with cur := p } p q t v) :=
    hr.same (.of_update rfl rfl ⟨rfl, rfl, rfl, rfl, rfl⟩ rfl rfl)
  have hwalk : WalkEnds (equip { s with cur := p } p q t v) p ↔ WalkEnds s p := by
    have hmx : (equip { s with cur := p } p q t v).mx = s.mx := rfl
    simp only [WalkEnds, beforeReady_congr hmx]
    rfl
  constructor
  · rintro ⟨s', c, hs, -⟩
    rw [hcall] at hs
    split at hs
    · cases hs
    rename_i hper
    obtain ⟨s1, h1, -⟩ := bind_eq_some_iff.mp hs
    refine .inr ⟨by simpa using hper, hwalk.mp (hr1.unready_isSome_iff.mp ?_)⟩
    rw [h1]
    rfl
  · intro hc
    obtain ⟨hper, hw⟩ := hc.resolve_left href
    obtain ⟨s1, h1⟩ := isSome_iff_exists.mp (hr1.unready_isSome_iff.mpr (hwalk.mpr hw))
    have hpr : s1.procs p = { s.procs p with pmq := some q, ipcvt := some v } := by
      rw [(unready_only h1).1.procs]
      exact updProc_self _ _ _
    have hrt : (s1.procs p).realtime = false := by
      rw [hpr]
      simpa using fun hrt => href (.inl hrt)
    obtain ⟨s', h2⟩ := (hr1.rdyOnly (unready_only h1)).rdyQApp_some hrt
    have hs : ({ s with cur := p } : KState).rtkSet2rt = some (s', .ok) := by
      rw [hcall, if_neg (by simp [hper])]
      show ((equip { s with cur := p } p q t v).unready p).bind _ = _
      rw [h1]
      show ((s1.updProc p _).rdyQApp p).map _ = _
      rw [h2]
      rfl
    -- the invariant holds after the call, and says that nobody else owns them
    have hi' := hi.set2rt hhw hs
    have hself : s'.procs p = { s1.procs p with realtime := true } := by
      rw [(rdyQApp_only h2).procs]
      exact updProc_self _ _ _
    have hq : (s'.procs p).pmq = some q := by rw [hself, hpr]
    have hv : (s'.procs p).ipcvt = some v := by rw [hself, hpr]
    refine ⟨s', .ok, hs, .inr ⟨rfl, ⟨q, v, hq, hv, fun p' hne => ⟨fun hp' => ?_, fun hp' => ?_,
      fun hp' => ?_⟩⟩, fun hc => ?_⟩⟩
    · exact hne (hi'.msgs.inj p' p q hp' hq)
    · exact hne (hi'.timers.ipcvt_inj hv hp')
    · rw [hi'.timers.pvt p'] at hp'
      cases hp'
    · rw [hper] at hc
      cases hc

instance (s : KState) (p : Proc) : Decidable (Refused s p) :=
  inferInstanceAs (Decidable (_ ∨ _ ∨ _ ∧ _ ∨ _))

instance (s : KState) (p : Proc) : Decidable (WalkEnds s p) :=
  inferInstanceAs (Decidable (∀ y, s.mx.rdyHead (rdyQ p) = some y → y ≠ p →
    s.beforeReady p 44 y ≠ none))

/-- Process 15 enters RT mode after 14, and is not turned down. -/
theorem enters_safely_second : ∃ s, ReachBy Steady boot s ∧ (s.procs 14).realtime = true ∧
    ¬ Refused s 15 ∧ EntersSafely s 15 := by
  obtain ⟨s, h, hrt, href, hrun, hc⟩ : ∃ s, ReachBy Steady boot s ∧
      (s.procs 14).realtime = true ∧ ¬ Refused s 15 ∧ s.canRun 15 = true ∧
        (s.procs 15).periodic = false ∧ WalkEnds s 15 :=
    ReachBy.of_run [.rtk 14 goodEnv .set2rt] (by decide +kernel)
  exact ⟨s, h, hrt, href, (enters_safely_iff boot_initial h hrun).mpr (.inr hc)⟩

/-- The attributes of a process with a period of five ticks. -/
def fiveTicks : PAttr where
  realtime := true
  periodic := true
  base := 10
  period := 5
  limit := 0
  deadline := 0
  watchdog := hardware
  mqSize := 4
  mqOrder := false
  mqInherit := false

/-- **A PERIODIC PROCESS.**  Process 14 gets a period of five ticks from `MRT_setpattr` and
    calls `rtk_set2rt` with all timers free: a null timer is started. -/
theorem periodic_enter_faults : ∃ s, ReachBy Steady boot s ∧ s.canRun 14 = true ∧
    (s.procs 14).periodic = true ∧ (s.procs 14).period = 5 ∧ ¬ Refused s 14 ∧
    ¬ EntersSafely s 14 := by
  obtain ⟨s, h, h1, h2, h3, h4, hnone⟩ : ∃ s, ReachBy Steady boot s ∧
      s.canRun 14 = true ∧ (s.procs 14).periodic = true ∧ (s.procs 14).period = 5 ∧
        ¬ Refused s 14 ∧ ({ s with cur := 14 } : KState).rtkSet2rt.isNone = true :=
    ReachBy.of_run [.task goodEnv (.setpattr 114 fiveTicks)] (by decide +kernel)
  refine ⟨s, h, h1, h2, h3, h4, ?_⟩
  rintro ⟨s', c, hc, -⟩
  rw [hc] at hnone
  cases hnone

end Kernel
