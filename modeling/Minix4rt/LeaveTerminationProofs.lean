import Minix4rt.DanglingReferenceProofs

/-! # Leaving RT mode — which calls of `MRT_set2nrt` return

    `MRT_set2nrt` has two loops that re-read the head of a list until it is empty.  The
    loop over the message queue takes nothing out of the queue.  The loop over the lock list
    calls `MRT_semup`, which takes the semaphore out of the list of the process that runs,
    so it ends only if the leaving process itself runs.

    The result is an equivalence: in a run with its semaphores in order the call returns
    exactly if the queue is empty and, unless the process leaves by itself, the lock list
    is empty too.  One direction needs that all the rest of the call goes through, so most
    of this file shows for each part that it returns. -/

namespace Kernel

open ListPool Vtimer KState TimerSt Function Option

variable {e : Event} {x x' : Option Proc} {s s' s1 s2 s₀ : KState} {p q d rp : Proc} {m : Sem}
  {v : Env} {O : VT → Prop} {r : RtProc}
variable {k : Mqe} {t : TimerSt} {j : Option Proc} {w : VT} {prty : Nat}

/-! ## RT processes have their queue and their timer -/

/-- Every RT process has a message queue and an IPC timer, but the leaving one. -/
def Equipped (x : Option Proc) (s : KState) : Prop :=
  ∀ p, x ≠ some p → (s.procs p).realtime = true →
    (∃ q, (s.procs p).pmq = some q) ∧ ∃ w, (s.procs p).ipcvt = some w

/-- Nobody gets or loses a queue, a timer or RT mode. -/
def GearKept (s s' : KState) : Prop :=
  ∀ p, (s'.procs p).realtime = (s.procs p).realtime ∧ (s'.procs p).pmq = (s.procs p).pmq ∧
    (s'.procs p).ipcvt = (s.procs p).ipcvt

theorem GearKept.of_procs (h : s'.procs = s.procs) : GearKept s s' := by
  intro p
  rw [h]
  exact ⟨rfl, rfl, rfl⟩

theorem GearKept.of_update (hp : s'.procs = update s.procs p r)
    (hr : r.realtime = (s.procs p).realtime ∧ r.pmq = (s.procs p).pmq ∧
      r.ipcvt = (s.procs p).ipcvt) : GearKept s s' := by
  intro i
  by_cases hi : i = p
  · subst hi
    rw [hp, update_self]
    exact hr
  · rw [hp, update_of_ne hi]
    exact ⟨rfl, rfl, rfl⟩

theorem GearKept.trans (h : GearKept s s1) (h' : GearKept s1 s') : GearKept s s' := by
  intro p
  obtain ⟨a1, a2, a3⟩ := h p
  obtain ⟨b1, b2, b3⟩ := h' p
  exact ⟨b1.trans a1, b2.trans a2, b3.trans a3⟩

theorem Equipped.kept (h : Equipped x s) (hk : GearKept s s') : Equipped x s' := by
  intro p hx hrt
  obtain ⟨h1, h2, h3⟩ := hk p
  rw [h1] at hrt
  rw [h2, h3]
  exact h p hx hrt

theorem releaseSender_gear (h : s.releaseSender k p = some s') : GearKept s s' := by
  rcases releaseSender_cases h with ⟨-, -, w, -, -, -, hp⟩ | ⟨-, -, rfl⟩ | ⟨-, rfl⟩
  · exact .of_update hp ⟨rfl, rfl, rfl⟩
  · exact .of_update rfl ⟨rfl, rfl, rfl⟩
  · exact .of_procs rfl

/-- A timeout changes the status of a process, and what it waits for. -/
theorem Timeout.gear {t : Timer} (h : Timeout v s p t s') : GearKept s s' := by
  obtain ⟨-, q, r, -, hp, hfr, -⟩ := h.effect
  obtain ⟨hrt, hpmq, hipc, -⟩ := gear_of_frame hfr
  exact .of_update hp ⟨hrt, hpmq, hipc⟩

theorem semup_gear {c : Code} (h : s.semup m j = some (s', c)) : GearKept s s' := by
  rcases semup_core h with ⟨hp, -, -⟩ | ⟨_, _, -, -, -, -, hp⟩
  · exact .of_procs hp
  · exact .of_update hp ⟨rfl, rfl, rfl⟩

/-- **THE MOVES OF AN EVENT EQUIP A NEW RT PROCESS**, and take the gear of a leaving one. -/
theorem Move.equipped (hm : Move e (x, s) (x', s')) (hi : IpcOk O false x s)
    (h : Equipped x s) : Equipped x' s' := by
  cases hm with
  | book hb => exact h.kept (.of_procs hb.procs)
  | watch p w | writeAttr _ _ => exact h.kept (.of_update rfl ⟨rfl, rfl, rfl⟩)
  | inherit _ hs => exact h.kept (.of_procs (inherit_only hs).procs)
  | disinherit _ hs => exact h.kept (.of_procs (disinherit_only hs).procs)
  | deliver _ _ _ _ hu =>
    obtain ⟨s1, w, t, h1, -, -, rfl⟩ := unblockReceiver_inv hu
    exact h.kept (.of_update (readyIfClear_only h1).procs ⟨rfl, rfl, rfl⟩)
  | queue _ _ _ _ _ _ _ hn hs => exact h.kept (.of_procs (enqueued hn hs).procs)
  | lose _ hn => exact h.kept (.of_procs (newEntry_only hn).procs)
  | send _ _ _ _ _ hn hs ha => exact h.kept (.of_update (send_procs hn hs ha) ⟨rfl, rfl, rfl⟩)
  | sendRecv _ _ _ _ _ _ hn hs hset hb =>
    exact h.kept (.of_update (sendRecv_procs hn hs hset hb) ⟨rfl, rfl, rfl⟩)
  | recvReply _ _ _ _ hset hb =>
    have hp := (blockReply_procs hb).2
    obtain ⟨w, -, rfl⟩ := setIpcParam_inv hset
    exact h.kept (.of_update hp ⟨rfl, rfl, rfl⟩)
  | recv _ _ _ _ hb =>
    obtain ⟨t, o, -, rfl⟩ := blockReceive_only hb
    exact h.kept (.of_update rfl ⟨rfl, rfl, rfl⟩)
  | take _ _ _ _ _ hr hd =>
    exact h.kept ((releaseSender_gear hr).trans (.of_procs (dropEntry_only hd).procs))
  | sleep _ hs =>
    rcases sleep_inv hs with rfl | ⟨t, rfl, -⟩
    · exact h
    · exact h.kept (.of_update rfl ⟨rfl, rfl, rfl⟩)
  | stop _ _ hs =>
    obtain ⟨w, t, -, -, rfl⟩ := stopTimer_inv hs
    exact h.kept (.of_procs rfl)
  | wake _ _ hs _ hr =>
    obtain ⟨w, t, -, -, rfl⟩ := stopTimer_inv hs
    exact h.kept (.of_update (readyIfClear_only hr).procs ⟨rfl, rfl, rfl⟩)
  | semup _ _ _ hs | unlock _ _ hs => exact h.kept (semup_gear hs)
  | semdown _ _ _ hs =>
    rcases semdown_core hs with ⟨hp, -, -⟩ | ⟨_, -, -, -, hp⟩
    · exact h.kept (.of_procs hp)
    · exact h.kept (.of_update hp ⟨rfl, rfl, rfl⟩)
  | release _ _ _ _ h1 h2 h3 => exact h.kept (.of_update (release_only h1 h2 h3).1 ⟨rfl, rfl, rfl⟩)
  | semalloc _ _ _ hs =>
    rcases semalloc_cases hs with rfl | ⟨_, _, _, -, -, -, -, -, rfl⟩
    · exact h
    · exact h.kept (.of_procs rfl)
  | semFree _ _ hs => exact h.kept (.of_procs (semFree_cases hs).1)
  | set2rt _ _ hs =>
    rcases rtkSet2rt_inv hs with rfl | ⟨q, w, t, s1, -, -, -, h1, h2⟩
    · exact h
    have hp := (rdyQApp_only h2).procs
    intro p hx hrt
    by_cases hpc : p = s.cur
    · subst hpc
      rw [hp, updProc_self, (unready_only h1).procs, equip, updProc_self]
      exact ⟨⟨q, rfl⟩, w, rfl⟩
    · rw [hp, updProc_ne _ _ hpc, (unready_only h1).procs, equip, updProc_ne _ _ hpc] at hrt ⊢
      exact h p hx hrt
  | @leave _ _ rp _ hrt hs =>
    have hp := (leave_only hs).1
    intro p hx hprt
    have hpr : p ≠ rp := fun he => hx (by rw [he])
    rw [hp, update_of_ne hpr] at hprt ⊢
    exact h p (by simp) hprt
  | @dropQueue _ _ rp hs =>
    rcases dropQueue_inv hs with ⟨-, rfl⟩ | ⟨q, ms, -, -, -, rfl⟩
    · exact h
    intro p hx hprt
    have hpr : p ≠ rp := fun he => hx (by rw [he])
    rw [updProc_ne _ _ hpr] at hprt ⊢
    exact h p hx hprt
  | sweep _ _ _ hs => exact h.kept (.of_procs (dropEntry_only hs).procs)
  | @back _ rp _ _ =>
    have hp := (backToMinix_only s rp).procs
    intro p _ hprt
    have hpr : p ≠ rp := by
      rintro rfl
      rw [hp, updProc_self] at hprt
      cases hprt
    rw [hp, updProc_ne _ _ hpr] at hprt ⊢
    exact h p (fun he => hpr (some.inj he).symm) hprt
  | @procRst _ rp _ _ _ hrt _ =>
    intro p hx hprt
    have hpr : p ≠ rp := by
      rintro rfl
      rw [KState.procRst, updProc_self] at hprt
      rw [hrt] at hprt
      cases hprt
    rw [KState.procRst, updProc_ne _ _ hpr] at hprt ⊢
    exact h p hx hprt
  | irqTimer ha hs =>
    obtain ⟨t, rfl⟩ := irqTimer_only ha hs
    exact h.kept (.of_procs rfl)
  | tick _ _ => exact h.kept (.of_procs rfl)
  | expire _ hf hthis hs =>
    have hpl := hi.timers.tm.placed.of_first hf
    obtain rfl := (hi.timers.tm.fits _).this _ hthis
    obtain ⟨s1, tm, t, -, -, rfl, hcase⟩ := hi.timers.expire_inv hpl hthis hs
    rcases hcase with ⟨rfl, -⟩ | ⟨p, -, hto⟩
    · exact h.kept (.of_procs rfl)
    · have h0 : GearKept s { s with tm := tm } := .of_procs rfl
      exact h.kept ((h0.trans hto.gear).trans (.of_procs rfl))

theorem Initial.equipped (h : Initial s) : Equipped none s := by
  intro p _ hrt
  rw [(h.procs p).1] at hrt
  cases hrt

theorem ReachBy.equipped (h0 : Initial s₀) (h : ReachBy Quiet s₀ s) : Equipped none s := by
  refine (h.ipcOk_and (J := Equipped) ⟨h0.ipcOk, h0.equipped⟩
    (fun hs hg => hg.kept (.of_procs hs.procs)) (fun hm hi _ hg => ?_)).2
  exact hm.equipped (hi.calm nofun) hg

/-! ## Timers -/

/-- Every timer is reached through its own link: no timed sleep is going on. -/
def BackSet (t : TimerSt) : Prop := ∀ w, (t.vt w).this ≠ none

theorem BackSet.moved {t' : TimerSt} {o : Option TimerQ} {r : Timer} (h : BackSet t)
    (hm : Moved t t' w o r) (hr : r.this ≠ none) : BackSet t' := by
  have hthis : ∀ {a b : Timer}, a.undelta = b.undelta → a.this = b.this := by
    intro a b hab
    simp only [Timer.undelta, Timer.mk.injEq] at hab
    tauto
  intro i
  by_cases hi : i = w
  · rw [hi, hthis hm.self]
    exact hr
  · rw [hthis (hm.same i hi)]
    exact h i

/-- A timer that has not expired can be stopped. -/
theorem BackSet.stop (h : BackSet t) (hok : t.TimersOk)
    (hw : t.place w = none ∨ t.place w = some .act) :
    ∃ t', t.vtimerStop w = some t' ∧ BackSet t' := by
  have hfree : t.place w ≠ some .free := by
    rcases hw with hw | hw
    · rw [hw]
      simp
    · rw [hw]
      simp
  cases hs : t.vtimerStop w with
  | none =>
    obtain ⟨-, i, -, hi⟩ := (TimersOk.stop_faults_iff hok hfree).mp hs
    exact absurd hi (h i)
  | some t' => exact ⟨t', rfl, h.moved (moved_vtimerStop hok hw hs) (by simp)⟩

theorem stopTimer_ipcvt (hw : (s.procs p).ipcvt = some w) (ht : s.tm.vtimerStop w = some t) :
    s.stopTimer (s.procs p).ipcvt = some { s with tm := t } ∧
      s.stopTimerIf (s.procs p).ipcvt = some { s with tm := t } := by
  have hstop : s.stopTimer (some w) = some { s with tm := t } :=
    congrArg (fun r => Option.bind r _) ht
  rw [hw]
  exact ⟨hstop, hstop⟩

/-- So can it be freed. -/
theorem BackSet.free (h : BackSet t) (hok : t.TimersOk)
    (hw : t.place w = none ∨ t.place w = some .act) :
    ∃ t', t.vtimerFree w = some t' ∧ BackSet t' := by
  obtain ⟨t1, h1, -⟩ := h.stop hok hw
  have hm1 := moved_vtimerStop hok hw h1
  have hm2 := (moved_vtimerRst hm1.wf hm1.place_self).upd (fun t => { t with flags := .freeQ })
  obtain ⟨f, hf, -, hpl⟩ := hm2.wf
  obtain ⟨C, hC, -⟩ := hf.app .free (hpl.unlinked hm2.place_self)
  have hfree : t.vtimerFree w = some
      { (t1.vtimerRst w).upd w (fun t => { t with flags := .freeQ }) with q := C } := by
    simp only [vtimerFree, h1, freeApp, hC]
  exact ⟨_, hfree, h.moved (moved_vtimerFree hok hw hfree) (by simp [freed])⟩

/-- What the parts of `MRT_set2nrt` find, with `rp` leaving. -/
structure Leaving (O : VT → Prop) (rp : Proc) (s : KState) : Prop where
  rt : RtOk (some rp) s
  ipc : IpcOk O true (some rp) s
  gear : Equipped (some rp) s
  back : BackSet s.tm

/-- The timers of the leaving process are given back. -/
theorem dropTimers_returns (hi : IpcOk O true none s) (hb : BackSet s.tm) :
    ∃ s', s.dropTimers p = some s' ∧ BackSet s'.tm := by
  have hpvt := hi.timers.pvt p
  cases hw : (s.procs p).ipcvt with
  | none =>
    refine ⟨s.updProc p (fun r => { r with pvt := none, ipcvt := none }), ?_, hb⟩
    simp only [dropTimers, dropTimer, hpvt, hw, bind_eq_bind, bind_some]
  | some w =>
    obtain ⟨t1, h1, hb1⟩ := hb.stop hi.timers.tm (hi.timers.stoppable hw)
    have hm1 := moved_vtimerStop hi.timers.tm (hi.timers.stoppable hw) h1
    have hok1 : t1.TimersOk := hm1.ok hi.timers.tm (Fits.alloc rfl (by simp))
    obtain ⟨t2, h2, hb2⟩ := hb1.free hok1 (.inl hm1.place_self)
    refine ⟨({ s with tm := t2 } : KState).updProc p
      (fun r => { r with pvt := none, ipcvt := none }), ?_, hb2⟩
    simp only [dropTimers, dropTimer, hpvt, hw, h1, h2, bind_eq_bind, bind_some]

/-! ## Notices -/

theorem Unlinks.readyIfClear_returns (h : Unlinks x s s1 p r) (hn : ¬ s1.limitHit p) :
    ∃ s', s1.readyIfClear p = some s' := by
  rw [readyIfClear]
  split
  · rw [limitHit] at hn
    obtain ⟨P, hP, -⟩ := h.pool.papp none (s1.rq.prio p) (by rw [update_self])
    exact ⟨s1.setPool P, by rw [rdyQApp, if_neg hn, hP]; rfl⟩
  · exact ⟨s1, rfl⟩

theorem unblockReceiver_returns (h : RtOk x s) (hi : IpcOk O true x s) (hb : BackSet s.tm)
    (hw : (s.procs d).ipcvt = some w) (hrcv : (s.procs d).st.mbxRcv = true) :
    ∃ s', s.unblockReceiver d = some s' ∧ BackSet s'.tm ∧ s'.ms = s.ms ∧ s'.bpip = s.bpip ∧
      ∀ p, p ≠ d → s'.procs p = s.procs p := by
  have hst : (s.procs d).st ≠ .clear := by
    intro hc
    rw [hc] at hrcv
    cases hrcv
  have hdn := h.receiver_awake hrcv
  have hul := Unlinks.of_blocked (t := s.updProc d (fun r =>
      { r with pfrom := none, st := { r.st with mbxRcv := false } })) hst hdn h rfl rfl rfl rfl
    ⟨rfl, rfl, rfl⟩ hdn
  have hrt := (hi.timers.own d w hw).1
  obtain ⟨s1, h1⟩ := hul.readyIfClear_returns (fun hl => h.limit d hrt (hul.limitHit_iff.mp hl))
  have hq := readyIfClear_only h1
  obtain ⟨t, ht, hbt⟩ := hb.stop hi.timers.tm (hi.timers.stoppable hw)
  refine ⟨{ s1 with tm := t }, ?_, hbt, hq.ms, hq.bpip, fun p hp => ?_⟩
  swap
  · show s1.procs p = s.procs p
    rw [hq.procs, updProc_ne _ _ hp]
  have hw1 : (s1.procs d).ipcvt = some w := by
    rw [hq.procs, updProc_self]
    exact hw
  have ht1 : s1.tm.vtimerStop w = some t := by
    rw [hq.tm]
    exact ht
  simp only [unblockReceiver, h1, stopTimer, hw1, ht1, bind_eq_bind, bind_some]

theorem inheritTo_returns {q : MsgQ} {k : Int} (hb : s.bpip = false) :
    s.inheritTo q k d = some s := by
  rw [inheritTo]
  split
  · unfold KState.inherit
    rw [if_pos (by simp [hb])]
  · rfl

/-- The entry `k` holds a message for `rp`. -/
def Mail (s : KState) (rp : Proc) (k : Mqe) : Prop :=
  (s.ms.hdr k).mtype ≠ .mbfree ∧ (s.ms.hdr k).dst = procNr rp

/-- An entry for a message is found in the queue that is not full. -/
theorem mqeApp_returns {t : MType} {q : MsgQ} {src : Proc} (h : MsgOk x s) (hk : prty < 16)
    (hn : s.newEntry src d t prty 0 = some (k, s1)) :
    ∃ r, s1.ms.mqeApp q k = some r := by
  obtain ⟨hf, -, hpool, -, hmq, hhdr⟩ := newEntry_inv hn
  rw [MsgSt.mqeApp]
  split
  · exact ⟨_, rfl⟩
  have hlv : ∃ l, s1.ms.level q k = some l := by
    rw [MsgSt.level]
    split
    · refine ⟨⟨prty, hk⟩, ?_⟩
      rw [hhdr, update_self]
      exact dif_pos hk
    · exact ⟨_, rfl⟩
  obtain ⟨l, hl⟩ := hlv
  have hP := h.pool.rmv (h.pool.of_first hf)
  rw [← hpool] at hP
  obtain ⟨P, hP, -⟩ := hP.papp q l (by rw [update_self])
  simp only [hl, hP, bind_eq_bind, bind_some]
  exact ⟨_, rfl⟩

/-- **A NOTICE TO ANOTHER PROCESS IS SENT**, or refused; the leaving process gets none. -/
theorem ksend_returns {src dest : Int} {t : MType} {sp : Proc} (h : Leaving O rp s)
    (hv : v.Copies) (hsp : procAddr src = some sp) (hd : procAddr dest = some d) (hdrp : d ≠ rp)
    (hk : prty < 16) :
    ∃ s' c, s.ksend v src dest prty t = some (s', c) ∧ BackSet s'.tm ∧
      s'.procs rp = s.procs rp ∧ ∀ k, Mail s' rp k ↔ Mail s rp k := by
  have hsame : s.procs rp = s.procs rp ∧ ∀ k, Mail s rp k ↔ Mail s rp k :=
    ⟨rfl, fun _ => Iff.rfl⟩
  simp only [KState.ksend, hsp, bind_eq_bind, bind_some]
  by_cases hproc : s.isProcess d = true
  swap
  · have hc : s.destCheck dest none = some (.error .badProc) := by
      simp [destCheck, hd, hproc]
    exact ⟨s, .badProc, by rw [hc]; rfl, h.back, hsame⟩
  by_cases hrt : (s.procs d).realtime = true
  swap
  · have hc : s.destCheck dest none = some (.error .badPtype) := by
      simp [destCheck, hd, hproc, hrt]
    exact ⟨s, .badPtype, by rw [hc]; rfl, h.back, hsame⟩
  obtain ⟨⟨q, hq⟩, w, hw⟩ := h.gear d (fun he => hdrp (some.inj he).symm) hrt
  by_cases hfull : s.ms.full q = true
  · have hc : s.destCheck dest none = some (.error .mqFull) := by
      simp [destCheck, hd, hproc, hrt, hq, hfull]
    exact ⟨s, .mqFull, by rw [hc]; rfl, h.back, hsame⟩
  have hc : s.destCheck dest none = some (.ok (d, q)) := by
    simp [destCheck, hd, hproc, hrt, hq, hfull]
  simp only [hc, bind_some, (hv d).2, if_true]
  by_cases hwait : s.waiting d true = true
  · -- it waits for a message and is woken
    rw [if_pos hwait]
    have hbook : Book s ((s.stamp sp).countDirect d q false) :=
      ((Book.refl s).stamp sp).countDirect d q false
    have hr0 : RtOk (some rp) ((s.stamp sp).countDirect d q false) :=
      h.rt.same (.of_eq rfl rfl rfl rfl)
    have hi0 := h.ipc.same hbook.procs hbook.tm hbook.msgs
    have hrcv : (s.procs d).st.mbxRcv = true := by
      simp only [waiting, Bool.and_eq_true] at hwait
      exact hwait.1
    obtain ⟨s1, h1, hb1, hms, hbp, hoth⟩ := unblockReceiver_returns hr0 hi0 h.back hw hrcv
    refine ⟨s1, .ok, ?_, hb1, hoth rp (Ne.symm hdrp), fun k => ?_⟩
    · simp only [h1, bind_some, inheritTo_returns (hbp.trans hr0.bpip), map_some]
    · rw [Mail, Mail, hms]
      exact Iff.rfl
  · rw [if_neg hwait]
    cases hn : s.newEntry sp d t prty 0 with
    | none => exact ⟨s, .noMqEnt, rfl, h.back, hsame⟩
    | some r =>
      obtain ⟨k, s1⟩ := r
      obtain ⟨hf, hs1, -, -, -, hhdr⟩ := newEntry_inv hn
      obtain ⟨⟨ms, b⟩, hap⟩ := mqeApp_returns (q := q) h.ipc.msgs hk hn
      have hb1 : s1.bpip = false := hs1.bpip.trans h.rt.bpip
      have hback : BackSet s1.tm := by
        rw [hs1.tm]
        exact h.back
      have hprocs := hs1.procs
      -- the entry was free, and is a message for `d` now
      have hmail : ∀ {s2 : KState}, s2.ms.hdr = s1.ms.hdr → ∀ i, Mail s2 rp i ↔ Mail s rp i := by
        intro s2 h2 i
        rw [Mail, Mail, h2, hhdr]
        by_cases hik : i = k
        · subst hik
          rw [update_self, h.ipc.msgs.first_free hf]
          constructor
          · rintro ⟨-, hdst⟩
            exact absurd (procNr_inj.mp hdst) hdrp
          · rintro ⟨hne, -⟩
            exact absurd rfl hne
        · rw [update_of_ne hik]
      simp only [hap]
      cases b with
      | false => exact ⟨s1, .mqFull, rfl, hback, by rw [hprocs], hmail rfl⟩
      | true =>
        obtain ⟨-, -, -, hh, -, -⟩ := mqeApp_true hap
        refine ⟨{ s1 with ms := ms }, .ok, ?_, hback, by simp only [hprocs], hmail hh⟩
        simp only [inheritTo_returns (s := { s1 with ms := ms }) hb1, map_some]

/-- The gear along the moves of an event. -/
theorem Moves.equipped {a b : Option Proc × KState} (hm : Moves e a b) (hf : e.isFlush = false)
    (hi : IpcOk O false a.1 a.2) (hq : Quiet a.2 e) (h : Equipped a.1 a.2) :
    Equipped b.1 b.2 := by
  induction hm with
  | refl => exact h
  | tail hms hmv ih => exact hmv.equipped (Moves.ipcOk hms hf hi hq).1 ih

/-- Moves that belong to a plain call keep what the leaving process finds. -/
theorem Leaving.moves (h : Leaving O rp s) (hv : v.Copies)
    (hm : Moves (.ksend rp v 0 0 0 .irq) (some rp, s) (some rp, s')) (hb : BackSet s'.tm) :
    Leaving O rp s' := by
  have hq : Quiet s (.ksend rp v 0 0 0 .irq) := ⟨hv, fun _ => h.ipc.timers.calm rfl, trivial⟩
  have hi := h.ipc.calm (fun hf => nomatch hf : false = true → NoExpired s)
  obtain ⟨hi', hq', hr'⟩ := hm.rtOk rfl rfl (fun _ _ _ hf => nomatch hf) hi hq h.rt
  exact ⟨hr', hi'.calm (fun _ => hq'.calm rfl), hm.equipped rfl hi hq h.gear, hb⟩

/-- A notice from the leaving process. -/
theorem notice_returns {t : MType} (h : Leaving O rp s) (hv : v.Copies) (hdrp : d ≠ rp)
    (hk : prty < 16) (ht : ¬ t.Sync) (hf : t ≠ .mbfree) :
    ∃ s' c, s.ksend v (procNr rp) (procNr d) prty t = some (s', c) ∧ Leaving O rp s' ∧
      s'.procs rp = s.procs rp ∧ ∀ k, Mail s' rp k ↔ Mail s rp k := by
  obtain ⟨s', c, hs, hb, hp, hmail⟩ := ksend_returns (t := t) h hv (procAddr_procNr rp)
    (procAddr_procNr d) hdrp hk
  refine ⟨s', c, hs, h.moves hv (ksend_moves ⟨rfl, id⟩ ht hf hk (fun sp hsp => ?_) hs) hb, hp,
    hmail⟩
  rw [procAddr_procNr] at hsp
  exact .inr (.inl hsp)

/-- The watchdog of `rp` is told; it must be a process, and not `rp`. -/
theorem tellWatchdog_returns (h : Leaving O rp s) (hv : v.Copies)
    (hwd : (s.procs rp).watchdog = hardware ∨
      ∃ w, (s.procs rp).watchdog = procNr w ∧ w ≠ rp) :
    ∃ s', s.tellWatchdog v rp = some s' ∧ Leaving O rp s' ∧ s'.procs rp = s.procs rp ∧
      ∀ k, Mail s' rp k ↔ Mail s rp k := by
  have hsame : ∃ s', some s = some s' ∧ Leaving O rp s' ∧ s'.procs rp = s.procs rp ∧
      ∀ k, Mail s' rp k ↔ Mail s rp k := ⟨s, rfl, h, rfl, fun _ => Iff.rfl⟩
  rw [tellWatchdog]
  by_cases hhw : (s.procs rp).watchdog = hardware
  · rw [if_pos hhw]
    exact hsame
  obtain ⟨w, hw, hne⟩ := hwd.resolve_left hhw
  rw [if_neg hhw]
  simp only [hw, procAddr_procNr, bind_eq_bind, bind_some]
  split
  · obtain ⟨s', c, hs, hl, hp, hmail⟩ := notice_returns (t := .krnproc) h hv hne
      (s.rq.prio rp).isLt (by decide) (by decide)
    exact ⟨s', by rw [hs]; rfl, hl, hp, hmail⟩
  · exact hsame

/-- The processes that `rp` has watched are told. -/
theorem tellWatched_returns (hv : v.Copies) : ∀ (ps : List Proc) {s : KState}, Leaving O rp s →
    (s.procs rp).watchdog ≠ procNr rp →
    ∃ s', tellWatched v rp ps s = some s' ∧ Leaving O rp s' ∧ s'.procs rp = s.procs rp ∧
      ∀ k, Mail s' rp k ↔ Mail s rp k := by
  intro ps
  induction ps with
  | nil =>
    intro s h _
    exact ⟨s, rfl, h, rfl, fun _ => Iff.rfl⟩
  | cons q ps ih =>
    intro s h hwd
    rw [tellWatched]
    split
    · rename_i hq
      have hqrp : q ≠ rp := by
        rintro rfl
        exact hwd hq.1.symm
      have h0 : Leaving O rp (s.updProc q (fun r => { r with watchdog := hardware })) :=
        h.moves hv (Move.watch q hardware rfl).moves h.back
      have hp0 : (s.updProc q (fun r => { r with watchdog := hardware })).procs rp =
          s.procs rp := updProc_ne _ _ (Ne.symm hqrp)
      obtain ⟨s1, c, hs1, h1, hp1, hm1⟩ := notice_returns (t := .krnwdog) h0 hv hqrp
        (s.rq.prio q).isLt (by decide) (by decide)
      obtain ⟨s2, hs2, h2, hp2, hm2⟩ := ih h1 (by rw [hp1, hp0]; exact hwd)
      refine ⟨s2, ?_, h2, by rw [hp2, hp1, hp0], fun k => (hm2 k).trans (hm1 k)⟩
      simp only [bind_eq_bind]
      have hprio : (s.updProc q (fun r => { r with watchdog := hardware })).rq.prio q =
          s.rq.prio q := rfl
      rw [hprio, hs1]
      exact hs2
    · exact ih h hwd

/-! ## The message queue -/

/-- The search for any message finds one exactly if there is one. -/
theorem MsgOk.pick_any {q : MsgQ} (h : MsgOk x s) (hq : (s.procs p).pmq = some q) :
    s.ms.mqePick q anyProc = some none ∧ (∀ k, ¬ Mail s p k) ∨
      ∃ k, s.ms.mqePick q anyProc = some (some k) ∧ Mail s p k := by
  rcases h.pool.pick q (s.ms.accepts anyProc) with ⟨hn, hall⟩ | ⟨k, l, hk, hpl, -⟩
  · refine .inl ⟨hn, fun k hk => ?_⟩
    obtain ⟨l, -, hl⟩ := h.place hk.1 hk.2 hq
    have hacc := hall k l hl
    simp [MsgSt.accepts] at hacc
  · obtain ⟨hne, -, d, hd, hdq⟩ := h.of_place hpl
    rw [h.inj d p q hdq hq] at hd
    exact .inr ⟨k, hk, hne, hd⟩

/-- The loop over an empty queue. -/
theorem drainQueue_empty {q : MsgQ} (hk : s.ms.mqePick q anyProc = some none) (n : Nat) :
    drainQueue q (n + 1) s = some s := by
  simp only [drainQueue, hk, bind_eq_bind, bind_some]

/-- An empty queue is given back. -/
theorem dropQueue_returns {q : MsgQ} (h : Leaving O rp s) (hv : v.Copies)
    (hq : (s.procs rp).pmq = some q) (hk : s.ms.mqePick q anyProc = some none) :
    ∃ s', s.dropQueue rp = some s' ∧ Leaving O rp s' := by
  have hqn : (if ∃ i, (s.procs i).pmq = some q then none
      else some (Slot.plain () : Slot Unit Empty 16)) = none := if_pos ⟨rp, hq⟩
  obtain ⟨P, hP, -⟩ := (h.ipc.msgs.queues.rstLink (x := q) hqn).app () hqn
  have hfree : s.ms.msgQFree q = some { s.ms.msgQRst q with free := P } := by
    rw [MsgSt.msgQFree]
    exact congrArg (Option.map _) hP
  have hdrop : s.dropQueue rp = some (({ s with
      ms := { s.ms.msgQRst q with free := P } } : KState).updProc rp
        (fun r => { r with pmq := none })) := by
    simp only [dropQueue, dropQueueWithin, hq, drainQueue_empty hk, hfree, bind_eq_bind, bind_some]
  exact ⟨_, hdrop, h.moves hv (Move.dropQueue hdrop).moves h.back⟩

/-- The messages of the leaving process are in queues and can be taken out. -/
theorem dropEntry_returns {q : MsgQ} (h : MsgOk x s) (hne : (s.ms.hdr k).mtype ≠ .mbfree)
    (hd : (s.ms.hdr k).dst = procNr d) (hq : (s.procs d).pmq = some q) :
    ∃ s', s.dropEntry q k = some s' := by
  obtain ⟨l, hl, hpl⟩ := h.place hne hd hq
  have hnone : update (entryPlace s) k none k = none := update_self _ _ _
  let m := { s.ms with pool := s.ms.pool.prmv q k l }.updQ q
    (fun r => { r with delivered := r.delivered + 1 })
  have hm : s.ms.mqeRmv q k = some m := by
    rw [MsgSt.mqeRmv, hl]
    rfl
  obtain ⟨P, hP, -⟩ := (((h.pool.prmv hpl).rstLink hnone).rstLink hnone).app () hnone
  have hf : (m.mqeRst k).mqeFree k = some { (m.mqeRst k).mqeRst k with pool := P } := by
    rw [MsgSt.mqeFree]
    exact congrArg (Option.map _) hP
  refine ⟨{ s with ms := { (m.mqeRst k).mqeRst k with pool := P } }, ?_⟩
  simp only [dropEntry, hm, hf, bind_eq_bind, bind_some]

theorem sweepEntries_returns (hv : v.Copies) (hhw : rp ≠ hardwareProc) :
    ∀ (ks : List Mqe) {s : KState}, Leaving O rp s →
      ∃ s', sweepEntries rp ks s = some s' ∧ Leaving O rp s' := by
  intro ks
  induction ks with
  | nil =>
    intro s h
    exact ⟨s, rfl, h⟩
  | cons k ks ih =>
    intro s h
    rw [sweepEntries]
    split
    · rename_i hsrc
      -- a free entry names no process
      have hne : (s.ms.hdr k).mtype ≠ .mbfree := by
        intro hf
        rw [h.ipc.msgs.idle k hf] at hsrc
        exact hhw (procNr_inj.mp (hsrc.symm.trans (by decide)))
      obtain ⟨d, q, -, hd, hq, -⟩ := h.ipc.msgs.dst k hne
      obtain ⟨s1, h1⟩ := dropEntry_returns h.ipc.msgs hne hd hq
      have hda : procAddr (s.ms.hdr k).dst = some d := by rw [hd, procAddr_procNr]
      have hb1 : BackSet s1.tm := by
        rw [(dropEntry_only h1).tm]
        exact h.back
      obtain ⟨s2, h2, hl2⟩ := ih (h.moves hv (Move.sweep hsrc hda hq h1).moves hb1)
      refine ⟨s2, ?_, hl2⟩
      simp only [hda, hq, h1, h2, bind_eq_bind, bind_some]
    · exact ih h

/-! ## The semaphores -/

/-- The process that was picked is in the wait list. -/
theorem sprocRmv_returns (h : RdyOk x s) (hp : s.sprocPick m = some p) :
    s.sprocRmv m p = some (s.setPool (s.rq.pool.prmv (some m) p (s.semLevel m p))) := by
  have hpl := (h.picked hp).2.2.2.2
  rw [sprocRmv, if_neg]
  rw [h.pool.inQ_eq, Nat.cast_eq_zero, Finset.card_eq_zero, Finset.filter_eq_empty_iff]
  intro hn
  exact hn (Finset.mem_univ p) ⟨_, hpl⟩

/-- A mutex of the running process is handed to a waiter. -/
theorem handMutex_returns (hb : s.bpip = false) (hl : LockOk s)
    (hca : (s.ss.sem m).carrier = some s.cur) : ∃ s', s.handMutex m p j = some s' := by
  obtain ⟨P, hP, -⟩ := (hl.pool.rmv (LockOk.place hca)).app p (update_self _ _ _)
  have hlock : (s.unlockCur m (some p)).lockBy p m = some { s.unlockCur m (some p) with
      ss := { (s.unlockCur m (some p)).ss with lock := P } } := by
    rw [lockBy]
    exact congrArg (Option.map _) hP
  simp only [handMutex, hlock, bind_eq_bind, bind_some]
  split
  · exact ⟨_, by rw [KState.disinherit, if_pos (by simpa [unlockCur, updSem] using hb)]⟩
  · exact ⟨_, rfl⟩

/-- A negative value has a waiter to wake. -/
theorem SemCountOk.waiter (h : SemCountOk (fun _ => False) s) (hr : RdyOk x s) (hd : DownRt s)
    (hown : (s.ss.sem m).owner ≠ hardware) (hneg : (s.ss.sem m).value.toInt < 0) :
    ∃ p, s.sprocPick m = some p := by
  cases hp : s.sprocPick m with
  | some p => exact ⟨p, rfl⟩
  | none =>
    have hcard := h m hown (fun hf => hf)
    have hpos : 0 < (waiters s m).card := by omega
    obtain ⟨p, hw⟩ := Finset.card_pos.mp hpos
    obtain ⟨hdn, hps⟩ := mem_waiters.mp hw
    exact absurd hps (hr.nobody hp (hd p hdn) hdn)

/-- **A MUTEX OF THE RUNNING PROCESS IS RAISED.** -/
theorem semup_returns (h : Leaving O rp s) (hc : SemCountOk (fun _ => False) s) (hl : LockOk s)
    (hca : (s.ss.sem m).carrier = some s.cur) :
    ∃ s' c, s.semup m j = some (s', c) ∧ BackSet s'.tm := by
  obtain ⟨hmx, hown, hle, -⟩ := hl.held m _ hca
  rw [KState.semup, if_neg hown]
  by_cases hneg : (s.ss.sem m).value.toInt < 0
  swap
  · have hz : (s.ss.sem m).value.toInt = 0 := by omega
    refine ⟨_, _, by rw [if_neg hneg, if_pos ⟨hz, hmx⟩]; rfl, ?_⟩
    exact h.back
  obtain ⟨p, hp⟩ := hc.waiter h.rt.toRdyOk h.ipc.msgs.downRt hown hneg
  obtain ⟨hx, hrt, -, -, -⟩ := h.rt.picked hp
  obtain ⟨-, w, hw⟩ := h.gear p hx hrt
  obtain ⟨t, ht, hbt⟩ := h.back.stop h.ipc.timers.tm (h.ipc.timers.stoppable hw)
  -- the waiter has left the wait list, and its timer is stopped
  let s1 : KState := ({ s.setPool (s.rq.pool.prmv (some m) p (s.semLevel m p)) with
    tm := t } : KState).updProc p (fun r => { r with psem := none })
  have hl1 : LockOk s1 := hl.same rfl (fun _ i _ => rt_update (q := p)
    (r := { s.procs p with psem := none }) rfl rfl i)
  obtain ⟨s2, h2⟩ := handMutex_returns (p := p) (j := j) (s := s1) h.rt.bpip hl1 hca
  have hwake : ∃ s', s.semupWake m j = some s' ∧ s'.tm = t := by
    obtain ⟨P, -, hs2⟩ := handMutex_off (s := s1) h.rt.bpip h2
    have hul := h.rt.woken (t := s2) hp (by rw [hs2]; rfl) (by rw [hs2]; rfl)
      (by rw [hs2]; exact ⟨fun i => (unlockCur_sems s1 m (some p)).sem i, rfl⟩) (by rw [hs2]; rfl)
    obtain ⟨s', hs'⟩ := hul.readyIfClear_returns
      (fun hn => h.rt.limit p hrt (hul.limitHit_iff.mp hn))
    refine ⟨s', ?_, ?_⟩
    · simp only [semupWake, hp, sprocRmv_returns h.rt.toRdyOk hp, bind_eq_bind, bind_some]
      rw [(stopTimer_ipcvt (p := p) (s := s.setPool
        (s.rq.pool.prmv (some m) p (s.semLevel m p))) hw ht).1, bind_some]
      show Option.bind (if (s.ss.sem m).mutex = true then s1.handMutex m p j else some s1) _ = _
      rw [if_pos hmx, h2]
      exact hs'
    · rw [(readyIfClear_only hs').tm]
      show s2.tm = t
      rw [hs2]
      rfl
  obtain ⟨s', hs', htm⟩ := hwake
  refine ⟨_, _, by rw [if_pos hneg, hs']; rfl, ?_⟩
  show BackSet s'.tm
  rw [htm]
  exact hbt

theorem Leaving.semup {c : Code} (h : Leaving O rp s) (hb : BackSet s'.tm)
    (hs : s.semup m j = some (s', c)) : Leaving O rp s' :=
  ⟨h.rt.semup hs, h.ipc.semup hs, h.gear.kept (semup_gear hs), hb⟩

/-- The mutexes that `p` holds. -/
def holding (s : KState) (p : Proc) : Finset Sem :=
  Finset.univ.filter (fun m => (s.ss.sem m).carrier = some p)

theorem mem_holding : m ∈ holding s p ↔ (s.ss.sem m).carrier = some p := by
  simp [holding]

/-- The measure of the loop of `MRT_sem_unlock`: the mutex that is raised goes to a waiter,
    and a leaving process does not wait, or to nobody. -/
theorem UpCase.holding (h : UpCase s m s') (hr : RdyOk (some rp) s) (hl : LockOk s)
    (hca : (s.ss.sem m).carrier = some rp) : holding s' rp = (holding s rp).erase m := by
  obtain ⟨hmx, hown, hle, -⟩ := hl.held m _ hca
  ext i
  rw [Finset.mem_erase, mem_holding, mem_holding]
  cases h with
  | refused hf _ => exact absurd hf hown
  | wake _ _ hpick _ _ hss =>
    obtain ⟨hx, -, -, -, -⟩ := hr.picked hpick
    rw [hss]
    by_cases him : i = m
    · subst him
      simp only [update_self, hmx, if_true, some.injEq, ne_eq, not_true_eq_false,
        false_and, iff_false]
      exact fun he => hx (by rw [he])
    · simp [him]
  | count _ hge _ hss =>
    have hz : (s.ss.sem m).value.toInt = 0 := by omega
    rw [hss]
    by_cases him : i = m
    · subst him
      simp [hz, hmx]
    · simp [him]

/-- **THE LOOP OF `MRT_sem_unlock` ENDS IF THE LEAVING PROCESS RUNS IT.** -/
theorem semUnlock_returns : ∀ {n : Nat} {s : KState}, Leaving O rp s →
    SemCountOk (fun _ => False) s → LockOk s → s.cur = rp → (holding s rp).card < n →
    ∃ s', semUnlock v rp n s = some s' ∧ Leaving O rp s' := by
  intro n
  induction n with
  | zero =>
    intro s _ _ _ _ hn
    exact absurd hn (Nat.not_lt_zero _)
  | succ n ih =>
    intro s h hc hl hcur hn
    rw [KState.semUnlock]
    cases hf : s.ss.lock.first rp with
    | none => exact ⟨s, rfl, h⟩
    | some m =>
      have hca := hl.carrier_of_first hf
      obtain ⟨s1, c, h1, hb1⟩ := semup_returns (j := v.junk n) h hc hl (by rw [hca, hcur])
      obtain ⟨hcur1, hup⟩ := semup_cases h1
      have hcard : (holding s1 rp).card < n := by
        have hmem := mem_holding.mpr hca
        have hpos := Finset.card_pos.mpr ⟨m, hmem⟩
        rw [hup.holding h.rt.toRdyOk hl hca, Finset.card_erase_of_mem hmem]
        omega
      have hle := (hl.held m rp hca).2.2.1
      obtain ⟨s2, h2, hl2⟩ := ih (h.semup hb1 h1) (hc.semup h.rt.toRdyOk (by omega) hup)
        (hl.semup h.rt.toRdyOk (fun _ _ => by rw [hca, hcur]) hup) (hcur1.trans hcur) hcard
      refine ⟨s2, ?_, hl2⟩
      show (s.semup m (v.junk n)).bind _ = some s2
      rw [h1]
      exact h2

/-- **THE INNER LOOP OF `MRT_sem_empty` ENDS**: each turn releases a waiter. -/
theorem releaseWaiters_returns {ms : List Sem} (hv : v.Copies) (hm : m ∈ ms) :
    ∀ {n : Nat} {s : KState}, Leaving O rp s → s.ss.alloc.chain (some rp) = some ms →
      (waiters s m).card < n →
      ∃ s', releaseWaiters m n s = some s' ∧ Leaving O rp s' ∧ s'.ss = s.ss := by
  intro n
  induction n with
  | zero =>
    intro s _ _ hn
    exact absurd hn (Nat.not_lt_zero _)
  | succ n ih =>
    intro s h hms hn
    rw [KState.releaseWaiters]
    cases hp : s.sprocPick m with
    | none => exact ⟨s, rfl, h, rfl⟩
    | some p =>
      obtain ⟨hx, hrt, hst, hps, -⟩ := h.rt.picked hp
      obtain ⟨-, w, hw⟩ := h.gear p hx hrt
      obtain ⟨t, ht, hbt⟩ := h.back.stop h.ipc.timers.tm (h.ipc.timers.stoppable hw)
      have h1 := sprocRmv_returns h.rt.toRdyOk hp
      have h2 := (stopTimer_ipcvt (p := p) (s := s.setPool
        (s.rq.pool.prmv (some m) p (s.semLevel m p))) hw ht).2
      have hul := h.rt.released hp t
      obtain ⟨s3, h3⟩ := hul.readyIfClear_returns
        (fun hl => h.rt.limit p hrt (hul.limitHit_iff.mp hl))
      have hq := readyIfClear_only h3
      have hb3 : BackSet s3.tm := by
        rw [hq.tm]
        exact hbt
      have hmv := (Move.release (e := .ksend rp v 0 0 0 .irq) rfl hms hm hp h1 h2 h3).moves.trans
        (Move.book ((Book.refl s3).setRet p .exiting)).moves
      have hl3 : Leaving O rp (s3.setRet p .exiting) := h.moves hv hmv hb3
      have hss : s3.ss = s.ss := hq.ss
      have hcard : (waiters (s3.setRet p .exiting) m).card < n := by
        have hmem : p ∈ waiters s m := mem_waiters.mpr ⟨by rw [hst]; rfl, hps⟩
        have hpos := Finset.card_pos.mpr ⟨p, hmem⟩
        rw [show waiters (s3.setRet p .exiting) m = waiters s3 m from rfl,
          waiters_erase hq.procs rfl, Finset.card_erase_of_mem (by exact hmem)]
        show (waiters s m).card - 1 < n
        omega
      obtain ⟨s4, h4, hl4, hss4⟩ := ih hl3 (by rw [← hms, ← hss]; rfl) hcard
      refine ⟨s4, ?_, hl4, hss4.trans hss⟩
      simp only [h1, h2, h3, h4, bind_eq_bind, bind_some]

theorem semEmpty_returns (h : Leaving O rp s) (hv : v.Copies) :
    ∃ s', s.semEmpty rp = some s' := by
  obtain ⟨f, hpl, -⟩ := h.rt.alloc
  obtain ⟨ms, hms, -, -⟩ := hpl.chain (some rp)
  rw [semEmpty, hms, bind_some]
  have hloop : ∀ {l : List Sem} {s : KState}, (∀ m ∈ l, m ∈ ms) → Leaving O rp s →
      s.ss.alloc.chain (some rp) = some ms → ∃ s', semEmptyLoop l s = some s' := by
    intro l
    induction l with
    | nil =>
      intro s _ _ _
      exact ⟨s, rfl⟩
    | cons m l ih =>
      intro s hl h hms
      have hcard : (waiters s m).card < 44 :=
        lt_of_le_of_lt (Finset.card_le_univ _) (by decide)
      obtain ⟨s1, h1, hl1, hss⟩ := releaseWaiters_returns hv (hl m (by simp)) h hms hcard
      obtain ⟨s2, h2⟩ := ih (fun i hi => hl i (by simp [hi])) hl1 (by rw [hss]; exact hms)
      exact ⟨s2, by rw [semEmptyLoop, h1]; exact h2⟩
  exact hloop (fun _ hm => hm) h hms

/-! ## The call -/

/-- The loop over the queue ends only if it has nothing to do. -/
theorem dropQueueWithin_inv {q : MsgQ} {n : Nat} (hq : (s.procs rp).pmq = some q)
    (h : s.dropQueueWithin n rp = some s') :
    s.ms.mqePick q anyProc = some none ∧ s.dropQueue rp = some s' := by
  simp only [dropQueueWithin, hq, bind_eq_bind, bind_eq_some_iff] at h
  obtain ⟨s1, h1, m, hm, hs⟩ := h
  obtain ⟨rfl, hk⟩ := drainQueue_inv h1
  refine ⟨hk, ?_⟩
  simp only [dropQueue, dropQueueWithin, hq, drainQueue_empty hk, hm, bind_eq_bind, bind_some]
  exact hs

/-- The queue of `rp` holds no message exactly if no entry is a message for `rp`. -/
theorem MsgOk.queue_empty {q : MsgQ} (h : MsgOk x s) (hq : (s.procs p).pmq = some q) :
    (∀ l, s.ms.pool.list (.level q l) = []) ↔ ∀ k, ¬ Mail s p k := by
  constructor
  · intro hnil k hk
    obtain ⟨l, -, hl⟩ := h.place hk.1 hk.2 hq
    have hmem := (h.pool.mem_list _).mpr hl
    rw [hnil l] at hmem
    cases hmem
  · intro hno l
    refine List.eq_nil_iff_forall_not_mem.mpr (fun k hk => ?_)
    obtain ⟨hne, -, d, hd, hdq⟩ := h.of_place ((h.pool.mem_list _).mp hk)
    rw [h.inj d p q hdq hq] at hd
    exact hno k ⟨hne, hd⟩

theorem LockOk.list_empty (h : LockOk s) :
    s.ss.lock.list (.plain p) = [] ↔ s.ss.lock.first p = none := by
  rw [h.pool.first_eq_none, List.eq_nil_iff_forall_not_mem]
  exact forall_congr' (fun m => not_congr (h.pool.mem_list _))

/-- `MRT_sem_unlock` is called exactly if the list is not empty. -/
theorem LockOk.count_zero (h : LockOk s) : s.ss.lock.count p = 0 ↔ s.ss.lock.first p = none := by
  rw [h.pool.count_eq, Nat.cast_eq_zero, Finset.card_eq_zero, Finset.filter_eq_empty_iff,
    h.pool.first_eq_none]
  simp

/-- The part of `MRT_set2nrt` before its loops. -/
def KState.notify (v : Env) (s : KState) (rp : Proc) : Option KState := do
  let s ← (if s.rtReady rp then s.rdyQRmv rp else s).dropTimers rp
  let s ← s.tellWatchdog v rp
  tellWatched v rp ((List.finRange 43).take 32) s

theorem set2nrtWithin_eq (n u : Nat) (hrt : (s.procs rp).realtime = true)
    (hs : s.notify v rp = some s1) : s.set2nrtWithin n u v rp =
      (s1.dropQueueWithin n rp).bind (fun s => (sweepEntries rp (List.finRange 32) s).bind
        (fun s => (if s.ss.lock.count rp ≠ 0 then semUnlock v rp u s else some s).bind
          (fun s => (if s.ss.alloc.count (some rp) ≠ 0 then s.semEmpty rp else some s).bind
            (fun s => some (s.backToMinix rp, .ok))))) := by
  simp only [KState.notify, bind_eq_bind, bind_eq_some_iff] at hs
  obtain ⟨t1, h1, t2, h2, h3⟩ := hs
  rw [KState.set2nrtWithin, if_neg (by simpa using hrt)]
  simp only [h1, h2, h3, bind_eq_bind, bind_some]

theorem detach_eq (hs : s.notify v rp = some s1) : s.detach v rp =
    (s1.dropQueue rp).bind (fun s => sweepEntries rp (List.finRange 32) s) := by
  simp only [KState.notify, bind_eq_bind, bind_eq_some_iff] at hs
  obtain ⟨t1, h1, t2, h2, h3⟩ := hs
  simp only [KState.detach, h1, h2, h3, bind_eq_bind, bind_some]

/-- What is assumed of the state in which `MRT_set2nrt` is called for the RT process `rp`:
    semaphores and locks are in order, no timed sleep is going on, and the watchdog of
    `rp`, if there is one, is another process. -/
structure LeaveFit (O : VT → Prop) (s : KState) (e : Event) (v : Env) (rp : Proc) : Prop
    extends LeaveStart O s e v rp where
  realtime : (s.procs rp).realtime = true
  gear : Equipped none s
  back : BackSet s.tm
  wd : (s.procs rp).watchdog = hardware ∨ ∃ w, (s.procs rp).watchdog = procNr w ∧ w ≠ rp
  locks : LockOk s
  counts : SemCountOk (fun _ => False) s

/-- What the loops of the call ask for, in terms of the lists. -/
theorem LeaveFit.free_iff (h : LeaveFit O s e v rp) :
    (∀ q l, (s.procs rp).pmq = some q → s.ms.pool.list (.level q l) = []) ∧
      (s.cur = rp ∨ s.ss.lock.list (.plain rp) = []) ↔
    (∀ k, ¬ Mail s rp k) ∧ (s.cur = rp ∨ s.ss.lock.first rp = none) := by
  obtain ⟨⟨q, hq⟩, -⟩ := h.gear rp (by simp) h.realtime
  rw [h.locks.list_empty, ← h.ipc.msgs.queue_empty hq]
  refine and_congr_left' ⟨fun hall l => hall q l hq, fun hall q' l hq' => ?_⟩
  cases hq.symm.trans hq'
  exact hall l

/-- Up to its first loop the call returns. -/
theorem LeaveFit.notices (h : LeaveFit O s e v rp) : ∃ s1, s.notify v rp = some s1 ∧
    Leaving O rp s1 ∧ (s1.procs rp).pmq = (s.procs rp).pmq ∧ ∀ k, Mail s1 rp k ↔ Mail s rp k := by
  have hq := unqueue_only s rp
  have hb0 : BackSet (if s.rtReady rp then s.rdyQRmv rp else s).tm := by
    rw [hq.tm]
    exact h.back
  obtain ⟨s1, h1, hbt⟩ := dropTimers_returns (p := rp) (h.ipc.sched hq) hb0
  have hl1 := Leaving.mk (h.rt.leave h.realtime h.awake h1) (h.ipc.leave h.realtime h1)
    ((Move.leave h.leaves h.realtime h1).equipped (h.ipc.calm nofun) h.gear) hbt
  -- only the timers of `rp` are gone
  have hself : (s1.procs rp).watchdog = (s.procs rp).watchdog ∧
      (s1.procs rp).pmq = (s.procs rp).pmq ∧ s1.ms = s.ms := by
    obtain ⟨t, rfl⟩ := leave_inv h1
    rw [updProc_self]
    exact ⟨by rw [← hq.procs], by rw [← hq.procs], hq.ms⟩
  obtain ⟨hw1, hp1, hm1⟩ := hself
  have hwd := h.wd
  rw [← hw1] at hwd
  obtain ⟨s2, h2, hl2, hp2, hm2⟩ := tellWatchdog_returns hl1 h.copies hwd
  have hne : (s2.procs rp).watchdog ≠ procNr rp := by
    rw [hp2]
    rcases hwd with hwd | ⟨w, hwd, hwrp⟩
    · rw [hwd]
      intro he
      exact h.ipc.timers.slot rp h.realtime (procNr_inj.mp (he.symm.trans (by decide)))
    · rw [hwd]
      exact fun he => hwrp (procNr_inj.mp he)
  obtain ⟨s3, h3, hl3, hp3, hm3⟩ := tellWatched_returns h.copies
    ((List.finRange 43).take 32) hl2 hne
  refine ⟨s3, ?_, hl3, by rw [hp3, hp2, hp1], fun k => ?_⟩
  · simp only [KState.notify, h1, h2, h3, bind_eq_bind, bind_some]
  · rw [hm3 k, hm2 k, Mail, Mail, hm1]

/-- With an empty queue the call comes to the lock list. -/
theorem LeaveFit.emptied {q : MsgQ} (h : LeaveFit O s e v rp) (hs : s.notify v rp = some s1)
    (hl : Leaving O rp s1) (hq : (s1.procs rp).pmq = some q)
    (hk : s1.ms.mqePick q anyProc = some none) :
    ∃ s2 s3, s1.dropQueue rp = some s2 ∧ sweepEntries rp (List.finRange 32) s2 = some s3 ∧
      Leaving O rp s3 ∧ SemsKept s s3 := by
  have hhw : rp ≠ hardwareProc := h.ipc.timers.slot rp h.realtime
  obtain ⟨s2, h2, hl2⟩ := dropQueue_returns hl h.copies hq hk
  obtain ⟨s3, h3, hl3⟩ := sweepEntries_returns h.copies hhw (List.finRange 32) hl2
  refine ⟨s2, s3, h2, h3, hl3, detach_semsKept (v := v) (p := rp) ?_⟩
  rw [detach_eq hs, h2, bind_some, h3]

/-- **A CALL THAT RETURNS FINDS AN EMPTY QUEUE**, and a lock list that it can empty. -/
theorem LeaveFit.needs {n u : Nat} {r : KState × Code} (h : LeaveFit O s e v rp)
    (hr : s.set2nrtWithin n u v rp = some r) :
    (∀ k, ¬ Mail s rp k) ∧ (s.cur = rp ∨ s.ss.lock.first rp = none) := by
  obtain ⟨s1, h1, hl1, hp1, hm1⟩ := h.notices
  obtain ⟨⟨q, hq⟩, -⟩ := h.gear rp (by simp) h.realtime
  have hq1 : (s1.procs rp).pmq = some q := hp1.trans hq
  rw [set2nrtWithin_eq n u h.realtime h1] at hr
  obtain ⟨s2, h2, hr⟩ := bind_eq_some_iff.mp hr
  obtain ⟨s3, h3, hr⟩ := bind_eq_some_iff.mp hr
  obtain ⟨s4, h4, -⟩ := bind_eq_some_iff.mp hr
  obtain ⟨hk, hd2⟩ := dropQueueWithin_inv hq1 h2
  refine ⟨fun k hmail => ?_, ?_⟩
  · rcases hl1.ipc.msgs.pick_any hq1 with ⟨-, hno⟩ | ⟨i, hi, -⟩
    · exact hno k ((hm1 k).mpr hmail)
    · rw [hk] at hi
      cases hi
  · by_contra hcon
    rw [not_or] at hcon
    obtain ⟨hcur, hlock⟩ := hcon
    obtain ⟨_, _, hd2', h3', hl3, hsk⟩ := h.emptied h1 hl1 hq1 hk
    cases hd2.symm.trans hd2'
    cases h3.symm.trans h3'
    have hf3 : s3.ss.lock.first rp = s.ss.lock.first rp := by rw [hsk.ss]
    obtain ⟨m, hm⟩ := ne_none_iff_exists'.mp hlock
    rw [if_pos (by rw [ne_eq, (h.locks.kept hsk).count_zero, hf3]; exact hlock),
      semUnlock_stuck hl3.rt (by rw [hsk.cur]; exact hcur) (hf3.trans hm)] at h4
    cases h4

/-- **OTHERWISE EVERY PART OF THE CALL RETURNS.** -/
theorem LeaveFit.returns (h : LeaveFit O s e v rp) (hno : ∀ k, ¬ Mail s rp k)
    (hlock : s.cur = rp ∨ s.ss.lock.first rp = none) :
    (s.set2nrtWithin 33 64 v rp).isSome = true := by
  obtain ⟨s1, h1, hl1, hp1, hm1⟩ := h.notices
  obtain ⟨⟨q, hq⟩, -⟩ := h.gear rp (by simp) h.realtime
  have hq1 : (s1.procs rp).pmq = some q := hp1.trans hq
  have hk : s1.ms.mqePick q anyProc = some none := by
    rcases hl1.ipc.msgs.pick_any hq1 with ⟨hk, -⟩ | ⟨i, -, hi⟩
    · exact hk
    · exact absurd ((hm1 i).mp hi) (hno i)
  obtain ⟨s2, s3, h2, h3, hl3, hsk⟩ := h.emptied h1 hl1 hq1 hk
  have hlk3 := h.locks.kept hsk
  have h4 : ∃ s4, (if s3.ss.lock.count rp ≠ 0 then semUnlock v rp 64 s3 else some s3) = some s4 ∧
      Leaving O rp s4 := by
    split
    · rename_i hne
      have hcur : s3.cur = rp := by
        refine hsk.cur.trans (hlock.resolve_right (fun hf => ?_))
        rw [ne_eq, hlk3.count_zero, hsk.ss] at hne
        exact hne hf
      exact semUnlock_returns hl3 (h.counts.kept hsk) hlk3 hcur
        (lt_of_le_of_lt (Finset.card_le_univ _) (by decide))
    · exact ⟨s3, rfl, hl3⟩
  obtain ⟨s4, h4, hl4⟩ := h4
  have h5 : ∃ s5, (if s4.ss.alloc.count (some rp) ≠ 0 then s4.semEmpty rp else some s4) =
      some s5 := by
    split
    · exact semEmpty_returns hl4 h.copies
    · exact ⟨s4, rfl⟩
  obtain ⟨s5, h5⟩ := h5
  rw [set2nrtWithin_eq 33 64 h.realtime h1, show s1.dropQueueWithin 33 rp = some s2 from h2,
    bind_some, h3, bind_some, h4, bind_some, h5]
  rfl

/-! ## Every run -/

/-- The run conditions for the counters and for the locks together. -/
def SteadySems (s : KState) (e : Event) : Prop := Steady s e ∧ CountFit s e ∧ LockFit s e

instance (s : KState) (e : Event) : Decidable (SteadySems s e) :=
  inferInstanceAs (Decidable (Steady s e ∧ CountFit s e ∧ LockFit s e))

theorem LeaveCall.fit {s0 : KState} (hcall : LeaveCall s e v s0 rp) (h0 : Initial s₀)
    (h : ReachBy SteadySems s₀ s) (hok : Steady s e) (hrt : (s.procs rp).realtime = true)
    (hback : BackSet s.tm) (hwd : (s.procs rp).watchdog = hardware ∨
      ∃ w, (s.procs rp).watchdog = procNr w ∧ w ≠ rp) :
    LeaveFit (fun _ => False) s0 e v rp := by
  have hst := h.mono (fun _ _ h => h.1)
  have hlock : ReachBy SteadyLock s₀ s := h.mono (fun _ _ h => ⟨h.1, h.2.2⟩)
  have hcount : ReachBy SteadyCount s₀ s := h.mono (fun _ _ h => ⟨h.1, h.2.1⟩)
  obtain ⟨H, hrun⟩ := hlock.lockRun
  have hg := hst.quiet.equipped h0
  have hc := hcount.semCountOk h0
  have hstart := hcall.start (hst.rdyOk h0) (hst.quiet.ipcOk h0) hok hrt
  obtain ⟨cu, rfl⟩ := hcall.same
  exact ⟨hstart, hrt, hg, hback, hwd, (hrun.lockOk h0).1.same rfl (fun _ _ _ hi => hi), hc⟩

/-- **WHICH CALLS RETURN.**  `MRT_set2nrt` is called for an RT process `rp` in a run with its
    semaphores in order; no timed sleep is going on, and the watchdog of `rp` is a process
    other than `rp`, if there is one.  The call returns exactly if the message queue of `rp` is
    empty, and `rp` itself runs or holds no mutex. -/
theorem leave_returns_iff {s0 : KState} (h0 : Initial s₀) (h : ReachBy SteadySems s₀ s)
    (hcall : LeaveCall s e v s0 rp) (hok : Steady s e) (hrt : (s.procs rp).realtime = true)
    (hback : BackSet s.tm) (hwd : (s.procs rp).watchdog = hardware ∨
      ∃ w, (s.procs rp).watchdog = procNr w ∧ w ≠ rp) :
    (∃ n u, (s0.set2nrtWithin n u v rp).isSome = true) ↔
      (∀ q l, (s.procs rp).pmq = some q → s.ms.pool.list (.level q l) = []) ∧
      (s0.cur = rp ∨ s.ss.lock.list (.plain rp) = []) := by
  have hfit := hcall.fit h0 h hok hrt hback hwd
  obtain ⟨cu, rfl⟩ := hcall.same
  refine Iff.trans ?_ hfit.free_iff.symm
  constructor
  · rintro ⟨n, u, hsome⟩
    obtain ⟨r, hr⟩ := isSome_iff_exists.mp hsome
    exact hfit.needs hr
  · rintro ⟨hno, hlock⟩
    exact ⟨33, 64, hfit.returns hno hlock⟩

instance (t : TimerSt) : Decidable (BackSet t) :=
  inferInstanceAs (Decidable (∀ w, (t.vt w).this ≠ none))

/-- Process 14 holds a mutex that 15 waits for, and leaves RT mode by itself. -/
theorem leave_returns_holder : ∃ s, ReachBy SteadySems boot s ∧
    (s.ss.sem 0).carrier = some 14 ∧ (s.procs 15).psem = some 0 ∧
    ∃ n u, (KState.set2nrtWithin n u goodEnv { s with cur := 14 } 14).isSome = true := by
  obtain ⟨s, h, hcan, hok, hrt, hback, hwd, hq, hca, hps⟩ : ∃ s, ReachBy SteadySems boot s ∧
      s.canRun 14 = true ∧ Steady s (.rtk 14 goodEnv .set2nrt) ∧
      (s.procs 14).realtime = true ∧ BackSet s.tm ∧ (s.procs 14).watchdog = hardware ∧
      (∀ q, (s.procs 14).pmq = some q → ∀ l, s.ms.pool.list (.level q l) = []) ∧
      (s.ss.sem 0).carrier = some 14 ∧ (s.procs 15).psem = some 0 :=
    ReachBy.of_run (.task goodEnv (.semalloc 114
      { name := [109], value := 1, priority := 5, order := false, inherit := false, mutex := true })
      :: threeRt ++ [.rtk 14 goodEnv (.semdown 0 forever),
        .rtk 15 goodEnv (.semdown 0 forever)]) (by decide +kernel)
  exact ⟨s, h, hca, hps, (leave_returns_iff boot_initial h (.own hcan) hok hrt hback
    (.inl hwd)).mpr ⟨fun q l hpq => hq q hpq l, .inl rfl⟩⟩

/-! ## A loop without end -/

/-- One turn of the loop over the queue `q`, as in `drainQueue`. -/
def KState.drainTurn (q : MsgQ) (s : KState) : Option KState := do
  match ← s.ms.mqePick q anyProc with
  | none => none
  | some e => do
      let src ← procAddr (s.ms.hdr e).src
      let s ← s.stopTimerIf (s.procs src).ipcvt
      let s := s.updProc src (fun r =>
        { r with pto := none, st := { r.st with mbxSnd := false } })
      let s ← s.readyIfClear src
      some (s.setRet src .exiting)

/-- `n` turns of the loop. -/
def KState.drainTurns (q : MsgQ) : Nat → KState → Option KState
  | 0, s => some s
  | n + 1, s => (s.drainTurn q).bind (drainTurns q n)

/-- The queue `q` has a message of the sleeping process `p` at its head. -/
structure Dozing (q : MsgQ) (p : Proc) (s : KState) : Prop where
  head : ∃ k, s.ms.mqePick q anyProc = some (some k) ∧ (s.ms.hdr k).src = procNr p
  sleep : (s.procs p).st.sleep = true
  timer : ∃ w, (s.procs p).ipcvt = some w ∧ (s.tm.place w = none ∨ s.tm.place w = some .act)
  timers : s.tm.TimersOk
  back : BackSet s.tm

/-- A turn finds the message, goes through, and leaves everything as it was. -/
theorem Dozing.turn {q : MsgQ} (h : Dozing q p s) : ∃ s', s.drainTurn q = some s' ∧
    Dozing q p s' := by
  obtain ⟨k, hk, hsrc⟩ := h.head
  obtain ⟨w, hw, hpl⟩ := h.timer
  obtain ⟨t, ht, hbt⟩ := h.back.stop h.timers hpl
  have hm := moved_vtimerStop h.timers hpl ht
  have hstop := (stopTimer_ipcvt hw ht).2
  let s1 : KState := ({ s with tm := t } : KState).updProc p (fun r =>
    { r with pto := none, st := { r.st with mbxSnd := false } })
  have hp1 : s1.procs p = { s.procs p with
      pto := none, st := { (s.procs p).st with mbxSnd := false } } := updProc_self _ _ _
  have hready : s1.readyIfClear p = some s1 := by
    rw [readyIfClear, if_neg]
    simp only [rtReady, hp1, decide_eq_true_eq]
    intro hc
    have hs : (s.procs p).st.sleep = false := congrArg Status.sleep hc
    rw [h.sleep] at hs
    cases hs
  refine ⟨s1.setRet p .exiting, ?_, ⟨⟨k, hk, hsrc⟩, ?_, ⟨w, ?_, .inl hm.place_self⟩,
    hm.ok h.timers (Fits.alloc rfl (by simp)), hbt⟩⟩
  · simp only [KState.drainTurn, hk, hsrc, procAddr_procNr, hstop, bind_eq_bind, bind_some]
    exact congrArg (fun o => Option.bind o _) hready
  · show (s1.procs p).st.sleep = true
    rw [hp1]
    exact h.sleep
  · show (s1.procs p).ipcvt = some w
    rw [hp1]
    exact hw

theorem Dozing.forever {q : MsgQ} : ∀ (n : Nat) {s : KState}, Dozing q p s →
    ∃ s', drainTurns q n s = some s' ∧ Dozing q p s' := by
  intro n
  induction n with
  | zero =>
    intro s h
    exact ⟨s, rfl, h⟩
  | succ n ih =>
    intro s h
    obtain ⟨s1, h1, hd1⟩ := h.turn
    obtain ⟨s2, h2, hd2⟩ := ih hd1
    exact ⟨s2, by rw [drainTurns, h1]; exact h2, hd2⟩

/-- **CALLS THAT NEVER RETURN.**  Process 15 has sent an asynchronous message to 14 and
    sleeps.  Process 14 leaves RT mode: after any number of turns its loop finds the message
    again.  And 14 holds a mutex while `MRTTASK` ends it: the loop over the lock list does
    not end either. -/
theorem leave_never_returns :
    (∃ s, ReachBy SteadySems boot s ∧ s.canRun 14 = true ∧
      (∀ n u, KState.set2nrtWithin n u goodEnv { s with cur := 14 } 14 = none) ∧
      ∃ s1 q, KState.notify goodEnv { s with cur := 14 } 14 = some s1 ∧
        (s1.procs 14).pmq = some q ∧
        ∀ n, ∃ s', drainTurns q n s1 = some s' ∧ ∃ k, s'.ms.mqePick q anyProc = some (some k)) ∧
    ∃ s, ReachBy SteadySems boot s ∧ s.pid2pptr 114 = some 14 ∧ (s.procs 14).realtime = true ∧
      ∀ n u, KState.set2nrtWithin n u goodEnv { s with cur := mrtTask } 14 = none := by
  constructor
  · obtain ⟨s, h, hcan, hok, hrt, hback, hwd, ⟨k, hk⟩, hnot⟩ : ∃ s, ReachBy SteadySems boot s ∧
        s.canRun 14 = true ∧ Steady s (.rtk 14 goodEnv .set2nrt) ∧ (s.procs 14).realtime = true ∧
        BackSet s.tm ∧ (s.procs 14).watchdog = hardware ∧
        (∃ k, (s.ms.hdr k).mtype ≠ .mbfree ∧ (s.ms.hdr k).dst = procNr 14) ∧
        (KState.notify goodEnv { s with cur := 14 } 14).any (fun s1 => decide (
          ∃ q, (s1.procs 14).pmq = some q ∧
            (∃ k, s1.ms.mqePick q anyProc = some (some k) ∧ (s1.ms.hdr k).src = procNr 15) ∧
            (s1.procs 15).st.sleep = true ∧ ∃ w, (s1.procs 15).ipcvt = some w)) = true :=
      ReachBy.of_run (threeRt ++ [.rtk 15 goodEnv (.arqst (withProc 14 forever)),
        .rtk 15 goodEnv (.sleep forever)]) (by decide +kernel)
    have hfit := (LeaveCall.own hcan).fit boot_initial h hok hrt hback (.inl hwd)
    obtain ⟨s1, h1, hl1, -, -⟩ := hfit.notices
    rw [h1] at hnot
    obtain ⟨q, hq, hhead, hsl, w, hw⟩ := of_decide_eq_true hnot
    have hdoz : Dozing q 15 s1 :=
      ⟨hhead, hsl, ⟨w, hw, hl1.ipc.timers.stoppable hw⟩, hl1.ipc.timers.tm, hl1.back⟩
    refine ⟨s, h, hcan, fun n u => ?_, s1, q, h1, hq, fun n => ?_⟩
    · by_contra hne
      obtain ⟨r, hr⟩ := ne_none_iff_exists'.mp hne
      exact (hfit.needs hr).1 k hk
    · obtain ⟨s', hs', hd'⟩ := hdoz.forever n
      obtain ⟨i, hi, -⟩ := hd'.head
      exact ⟨s', hs', i, hi⟩
  · obtain ⟨s, h, hpid, hok, hrt, hback, hwd, hlock⟩ : ∃ s, ReachBy SteadySems boot s ∧
        s.pid2pptr 114 = some 14 ∧ Steady s (.task goodEnv (.stdsignal 114 114)) ∧
        (s.procs 14).realtime = true ∧ BackSet s.tm ∧ (s.procs 14).watchdog = hardware ∧
        s.ss.lock.first 14 = some 0 :=
      ReachBy.of_run (.task goodEnv (.semalloc 114
        { name := [109], value := 1, priority := 5, order := false, inherit := false,
          mutex := true })
        :: threeRt ++ [.rtk 14 goodEnv (.semdown 0 forever)]) (by decide +kernel)
    have hfit := (LeaveCall.signal hpid).fit boot_initial h hok hrt hback (.inl hwd)
    refine ⟨s, h, hpid, hrt, fun n u => ?_⟩
    by_contra hne
    obtain ⟨r, hr⟩ := ne_none_iff_exists'.mp hne
    rcases (hfit.needs hr).2 with hcur | hf
    · exact absurd (show mrtTask = 14 from hcur) (by decide)
    · exact nomatch hlock.symm.trans hf

end Kernel
