import Minix4rt.KernelMovesProofs
import Minix4rt.VtimerPlacementProofs

/-! # Who owns a timer, and why it runs

    Every RT process owns ONE timer, `ipcvt`, for the timeouts of its blocking calls;
    the other timers that run belong to the interrupts.  The invariant `TimersOwned`
    ties them together: a timer is in the active or expired queue only while its owner
    is blocked in the call that the action of the timer names.

    So the timer of a running process is in no queue, and arming it links it once. -/

namespace Kernel

open ListPool Vtimer KState TimerSt Option

/-- The queue is the active or an expired one. -/
def Armed (o : Option TimerQ) : Prop := o ≠ none ∧ o ≠ some .free

/-- The process `p`, with the record `r`, waits for what the action of `t` ends.  A send
    timeout carries the index of the queued entry. -/
def Blocks (hdr : Mqe → Hdr) (p : Proc) (r : RtProc) (t : Timer) : Prop :=
  t.limit = 1 ∧
  match t.action with
  | .sndto => r.st.mbxSnd = true ∧
      ∃ k : Mqe, t.param = (k.val : Int) ∧ (hdr k).mtype = .request ∧ (hdr k).src = procNr p
  | .rcvfr => r.st.mbxRcv = true
  | .sndrcv => r.st.mbxRcv = true ∧ t.param = 0
  | .down => r.st.semDown = true ∧ ∃ m : Sem, r.psem = some m ∧ t.param = (m.val : Int)
  | .wakeup => r.st.sleep = true ∧ t.this = none
  | _ => False

/-- No IPC timer waits in the expired queue for its action. -/
def NoExpired (s : KState) : Prop :=
  ∀ p v, (s.procs p).ipcvt = some v → ∀ k, s.tm.place v ≠ some (.exp k)

/-- The ownership invariant; `b` tells that no IPC timer has expired unnoticed, and `O`
    names timers that have been handed out before. -/
structure TimersOwned (O : VT → Prop) (b : Bool) (s : KState) : Prop where
  calm : b = true → NoExpired s
  tm : s.tm.TimersOk
  own : ∀ p v, (s.procs p).ipcvt = some v → (s.procs p).realtime = true ∧
    (s.tm.vt v).owner = procNr p ∧ s.tm.place v ≠ some .free
  slot : ∀ p, (s.procs p).realtime = true → p ≠ hardwareProc
  pvt : ∀ p, (s.procs p).pvt = none
  armed : ∀ v, Armed (s.tm.place v) →
    (∃ p, (s.procs p).ipcvt = some v ∧ Blocks s.ms.hdr p (s.procs p) (s.tm.vt v)) ∨
      ((s.tm.vt v).owner = hardware ∧ (s.tm.vt v).action = .irqtrig)
  old : ∀ v, O v → s.tm.place v = some .free → (s.tm.vt v).flags = .freeQ

variable {O : VT → Prop} {b : Bool} {x : Option Proc} {s s' : KState} {p q : Proc} {v w : VT}
  {hdr hdr' : Mqe → Hdr} {r : RtProc} {t t' : Timer} {o : Option TimerQ} {n lim : BitVec 32}
  {act : Act} {par : Int} {k : Prty}

/-! ## Reasons to be blocked -/

theorem Blocks.undelta (h : Blocks hdr p r t) (he : t'.undelta = t.undelta) :
    Blocks hdr p r t' := by
  obtain ⟨h1, h2, h3, h4⟩ : t'.limit = t.limit ∧ t'.action = t.action ∧ t'.param = t.param ∧
      t'.this = t.this := by
    simp only [Timer.undelta, Timer.mk.injEq] at he
    tauto
  unfold Blocks at h ⊢
  rw [h1, h2, h3, h4]
  exact h

/-- A change of headers that keeps the queued requests of `p`. -/
theorem Blocks.of_hdr (h : Blocks hdr p r t)
    (hk : ∀ k, (hdr k).mtype = .request → (hdr k).src = procNr p → hdr' k = hdr k) :
    Blocks hdr' p r t := by
  obtain ⟨hl, h⟩ := h
  refine ⟨hl, ?_⟩
  cases ha : t.action with
  | sndto =>
    simp only [ha] at h ⊢
    obtain ⟨hs, k, hp, hm, hsrc⟩ := h
    exact ⟨hs, k, hp, by rw [hk k hm hsrc]; exact hm, by rw [hk k hm hsrc]; exact hsrc⟩
  | none | sched | msgown | msgwdog | irqtrig | debug | periodic | stop => simp [ha] at h
  | rcvfr | sndrcv | down | wakeup =>
    simp only [ha] at h ⊢
    exact h

theorem Blocks.not_clear (h : Blocks hdr p r t) : r.st ≠ .clear := by
  intro hc
  obtain ⟨-, h⟩ := h
  cases ha : t.action <;> simp [ha, hc, Status.clear] at h

/-! ## The timer of a process -/

/-- An armed timer of a process is armed for that process. -/
theorem TimersOwned.blocks (h : TimersOwned O b s) (hp : (s.procs p).ipcvt = some v)
    (ha : Armed (s.tm.place v)) : Blocks s.ms.hdr p (s.procs p) (s.tm.vt v) := by
  obtain ⟨hrt, hown, -⟩ := h.own p v hp
  rcases h.armed v ha with ⟨q, hq, hb⟩ | ⟨hhw, -⟩
  · have := (h.own q v hq).2.1
    rw [hown, procNr_inj] at this
    exact this ▸ hb
  · rw [hown] at hhw
    exact absurd (procNr_inj.mp (hhw.trans (by decide : hardware = procNr hardwareProc)))
      (h.slot p hrt)

theorem TimersOwned.ipcvt_inj (h : TimersOwned O b s) (hp : (s.procs p).ipcvt = some v)
    (hq : (s.procs q).ipcvt = some v) : q = p := by
  have h1 := (h.own p v hp).2.1
  rw [(h.own q v hq).2.1, procNr_inj] at h1
  exact h1

/-- **THE TIMER OF A RUNNING PROCESS IS IN NO QUEUE.** -/
theorem TimersOwned.idle (h : TimersOwned O b s) (hp : (s.procs p).ipcvt = some v)
    (hc : (s.procs p).st = .clear) : s.tm.place v = none := by
  by_contra hne
  exact (h.blocks hp ⟨hne, (h.own p v hp).2.2⟩).not_clear hc

theorem TimersOwned.stoppable (h : TimersOwned O true s) (hp : (s.procs p).ipcvt = some v) :
    s.tm.place v = none ∨ s.tm.place v = some .act := by
  cases hv : s.tm.place v with
  | none => exact .inl rfl
  | some i =>
    cases i with
    | act => exact .inr rfl
    | free => exact absurd hv (h.own p v hp).2.2
    | exp k => exact absurd hv (h.calm rfl p v hp k)

/-! ## A process changes its status -/

/-- The record of a process without its status and what it waits for. -/
def frame (r : RtProc) : RtProc :=
  { r with st := .clear, pfrom := none, pto := none, psem := none }

theorem gear_of_frame {r' : RtProc} (h : frame r = frame r') : r.realtime = r'.realtime ∧
    r.pmq = r'.pmq ∧ r.ipcvt = r'.ipcvt ∧ r.pvt = r'.pvt := by
  simp only [frame, RtProc.mk.injEq] at h
  tauto

/-- Only the process `p` changes, and of it only the status and what it waits for. -/
structure Restat (p : Proc) (s s' : KState) : Prop where
  other : ∀ q, q ≠ p → s'.procs q = s.procs q
  self : frame (s'.procs p) = frame (s.procs p)

theorem Restat.frame_eq (h : Restat p s s') (q : Proc) :
    frame (s'.procs q) = frame (s.procs q) := by
  by_cases hq : q = p
  · rw [hq, h.self]
  · rw [h.other q hq]

theorem Restat.of_procs (p : Proc) (h : s'.procs = s.procs) : Restat p s s' :=
  ⟨fun q _ => by rw [h], by rw [h]⟩

theorem Restat.updProc (s : KState) (p : Proc) {g : RtProc → RtProc}
    (hg : ∀ r, frame (g r) = frame r) : Restat p s (s.updProc p g) := by
  refine ⟨fun q hq => updProc_ne s g hq, ?_⟩
  rw [updProc_self, hg]

section

variable (h : Restat p s s') (q : Proc)
include h

theorem Restat.ipcvt : (s'.procs q).ipcvt = (s.procs q).ipcvt :=
  (gear_of_frame (h.frame_eq q)).2.2.1

theorem Restat.pvt : (s'.procs q).pvt = (s.procs q).pvt :=
  (gear_of_frame (h.frame_eq q)).2.2.2

theorem Restat.realtime : (s'.procs q).realtime = (s.procs q).realtime :=
  (gear_of_frame (h.frame_eq q)).1

theorem Restat.pmq : (s'.procs q).pmq = (s.procs q).pmq :=
  (gear_of_frame (h.frame_eq q)).2.1

end

/-- The queued requests of the other processes are what they were. -/
def KeepsRequests (p : Proc) (s s' : KState) : Prop :=
  ∀ q k, q ≠ p → (s.ms.hdr k).mtype = .request → (s.ms.hdr k).src = procNr q →
    s'.ms.hdr k = s.ms.hdr k

theorem KeepsRequests.of_hdr (p : Proc) (h : s'.ms.hdr = s.ms.hdr) : KeepsRequests p s s' :=
  fun _ _ _ _ _ => by rw [h]

/-! ## Changes that keep the ownership -/

/-- No timer is touched. -/
theorem TimersOwned.same (h : TimersOwned O b s) (htm : s'.tm = s.tm)
    (hipc : ∀ p, (s'.procs p).ipcvt = (s.procs p).ipcvt)
    (hpvt : ∀ p, (s'.procs p).pvt = none)
    (hrt : ∀ p, (s'.procs p).realtime = true → p ≠ hardwareProc)
    (hown : ∀ p v, (s.procs p).ipcvt = some v → (s'.procs p).realtime = true)
    (hb : ∀ p v, (s.procs p).ipcvt = some v → Armed (s.tm.place v) →
      Blocks s.ms.hdr p (s.procs p) (s.tm.vt v) → Blocks s'.ms.hdr p (s'.procs p) (s.tm.vt v)) :
    TimersOwned O b s' := by
  refine ⟨fun hc p v hp => ?_, htm ▸ h.tm, fun p v hp => ?_, hrt, hpvt, fun v hv => ?_,
    htm ▸ h.old⟩
  · rw [htm]
    exact h.calm hc p v (hipc p ▸ hp)
  · rw [hipc] at hp
    rw [htm]
    exact ⟨hown p v hp, (h.own p v hp).2⟩
  · rw [htm] at hv ⊢
    rcases h.armed v hv with ⟨p, hp, hbl⟩ | hhw
    · exact .inl ⟨p, (hipc p).trans hp, hb p v hp hv hbl⟩
    · exact .inr hhw

/-- The same timers, with another status of one process. -/
theorem TimersOwned.restatus (h : TimersOwned O b s) (htm : s'.tm = s.tm) (hr : Restat p s s')
    (hb : ∀ q v, (s.procs q).ipcvt = some v → Armed (s.tm.place v) →
      Blocks s.ms.hdr q (s.procs q) (s.tm.vt v) → Blocks s'.ms.hdr q (s'.procs q) (s.tm.vt v)) :
    TimersOwned O b s' :=
  h.same htm hr.ipcvt (fun q => (hr.pvt q).trans (h.pvt q))
    (fun q hq => h.slot q (hr.realtime q ▸ hq))
    (fun q v hq => (hr.realtime q).trans (h.own q v hq).1) hb

/-- A change of a process without IPC timer. -/
theorem TimersOwned.untimed (h : TimersOwned O b s) (htm : s'.tm = s.tm)
    (hh : s'.ms.hdr = s.ms.hdr) (hipc : (s.procs p).ipcvt = none)
    (hoth : ∀ i, i ≠ p → s'.procs i = s.procs i) (hipc' : (s'.procs p).ipcvt = none)
    (hpvt : (s'.procs p).pvt = none) (hrt : (s'.procs p).realtime = true → p ≠ hardwareProc) :
    TimersOwned O b s' := by
  have hne : ∀ {i v}, (s.procs i).ipcvt = some v → i ≠ p := by
    rintro i v hi rfl
    rw [hipc] at hi
    cases hi
  refine h.same htm (fun i => ?_) (fun i => ?_) (fun i hi => ?_) (fun i v hi => ?_)
    (fun i v hi _ hb => ?_)
  · by_cases hip : i = p
    · rw [hip, hipc, hipc']
    · rw [hoth i hip]
  · by_cases hip : i = p
    · rw [hip, hpvt]
    · rw [hoth i hip]
      exact h.pvt i
  · by_cases hip : i = p
    · rw [hip] at hi ⊢
      exact hrt hi
    · rw [hoth i hip] at hi
      exact h.slot i hi
  · rw [hoth i (hne hi)]
    exact (h.own i v hi).1
  · rw [hoth i (hne hi), hh]
    exact hb

/-- **ONE TIMER MOVES**, and the processes change around it: the other timers keep their
    owners and their reasons. -/
theorem TimersOwned.change (h : TimersOwned O b s) (hm : Moved s.tm s'.tm w o t)
    (hfit : Fits t w o) (hold : o = some .free → t.flags = .freeQ)
    (hslot : ∀ q, (s'.procs q).realtime = true → q ≠ hardwareProc)
    (hpvt : ∀ q, (s'.procs q).pvt = none)
    (hkept : ∀ q v, v ≠ w → (s'.procs q).ipcvt = some v → (s.procs q).ipcvt = some v)
    (hstay : ∀ q v, v ≠ w → (s.procs q).ipcvt = some v → (s'.procs q).ipcvt = some v ∧
      (s'.procs q).realtime = true ∧
      ∀ t, Blocks s.ms.hdr q (s.procs q) t → Blocks s'.ms.hdr q (s'.procs q) t)
    (hw : ∀ q, (s'.procs q).ipcvt = some w → (s'.procs q).realtime = true ∧
      t.owner = procNr q ∧ o ≠ some .free ∧ ∀ k, o ≠ some (.exp k))
    (harm : Armed o → (∃ q, (s'.procs q).ipcvt = some w ∧ Blocks s'.ms.hdr q (s'.procs q) t) ∨
      t.owner = hardware ∧ t.action = .irqtrig) : TimersOwned O b s' := by
  refine ⟨fun hc q v hq k => ?_, hm.ok h.tm hfit, fun q v hq => ?_, hslot, hpvt, fun v hv => ?_,
    hm.old h.old hold⟩
  · by_cases hvw : v = w
    · subst hvw
      rw [hm.place_self]
      exact (hw q hq).2.2.2 k
    · rw [hm.place_ne hvw]
      exact h.calm hc q v (hkept q v hvw hq) k
  · by_cases hvw : v = w
    · subst hvw
      obtain ⟨hrt, hown, hfree, -⟩ := hw q hq
      exact ⟨hrt, (congrArg Timer.owner hm.self).trans hown, by rw [hm.place_self]; exact hfree⟩
    · have hq' := hkept q v hvw hq
      obtain ⟨-, h2, h3⟩ := h.own q v hq'
      rw [hm.place_ne hvw]
      exact ⟨(hstay q v hvw hq').2.1, (congrArg Timer.owner (hm.same v hvw)).trans h2, h3⟩
  · by_cases hvw : v = w
    · subst hvw
      rw [hm.place_self] at hv
      rcases harm hv with ⟨q, hq, hb⟩ | ⟨h1, h2⟩
      · exact .inl ⟨q, hq, hb.undelta hm.self⟩
      · exact .inr ⟨(congrArg Timer.owner hm.self).trans h1,
          (congrArg Timer.action hm.self).trans h2⟩
    · rw [hm.place_ne hvw] at hv
      have hsame := hm.same v hvw
      rcases h.armed v hv with ⟨q, hq, hb⟩ | ⟨h1, h2⟩
      · obtain ⟨hq', -, hbl⟩ := hstay q v hvw hq
        exact .inl ⟨q, hq', (hbl _ hb).undelta hsame⟩
      · exact .inr ⟨(congrArg Timer.owner hsame).trans h1, (congrArg Timer.action hsame).trans h2⟩

/-- The timer `w` of the process `p` moves to the queue `o`, and `p` may change its
    status with it. -/
theorem TimersOwned.move (h : TimersOwned O b s) (hw : (s.procs p).ipcvt = some w)
    (hm : Moved s.tm s'.tm w o t) (hfit : Fits t w o) (hto : t.owner = (s.tm.vt w).owner)
    (hfree : o ≠ some .free) (hexp : ∀ k, o ≠ some (.exp k)) (hr : Restat p s s')
    (hk : KeepsRequests p s s') (hb : Armed o → Blocks s'.ms.hdr p (s'.procs p) t) :
    TimersOwned O b s' := by
  refine h.change hm hfit (fun ho => absurd ho hfree) (fun q hq => h.slot q (hr.realtime q ▸ hq))
    (fun q => (hr.pvt q).trans (h.pvt q)) (fun q v _ hq => hr.ipcvt q ▸ hq) (fun q v hvw hq => ?_)
    (fun q hq => ?_) (fun ha => .inl ⟨p, (hr.ipcvt p).trans hw, hb ha⟩)
  · have hqp : q ≠ p := by
      rintro rfl
      exact hvw (some.inj (hq.symm.trans hw))
    refine ⟨(hr.ipcvt q).trans hq, (hr.realtime q).trans (h.own q v hq).1, fun t ht => ?_⟩
    rw [hr.other q hqp]
    exact ht.of_hdr (hk q · hqp)
  · rw [hr.ipcvt] at hq
    obtain ⟨h1, h2, -⟩ := h.own q w hq
    exact ⟨(hr.realtime q).trans h1, hto.trans h2, hfree, hexp⟩

/-- A process changes its status while its timer is in no queue. -/
theorem TimersOwned.restat (h : TimersOwned O b s) (htm : s'.tm = s.tm) (hr : Restat p s s')
    (hk : KeepsRequests p s s')
    (hp : ∀ w, (s.procs p).ipcvt = some w → s.tm.place w = none) : TimersOwned O b s' := by
  refine h.restatus htm hr (fun q v hq ha hbl => ?_)
  by_cases hqp : q = p
  · subst hqp
    exact absurd (hp v hq) ha.1
  · rw [hr.other q hqp]
    exact hbl.of_hdr (hk q · hqp)

/-- The timer of `p` is stopped. -/
theorem TimersOwned.stop (h : TimersOwned O true s) (hw : (s.procs p).ipcvt = some w)
    (ht : s.tm.vtimerStop w = some s'.tm) (hr : Restat p s s') (hk : KeepsRequests p s s') :
    TimersOwned O true s' := by
  exact h.move hw (moved_vtimerStop h.tm (h.stoppable hw) ht)
    (Fits.alloc rfl (fun i hi => (some.inj hi).symm)) rfl (by simp) (by simp) hr hk
    (fun ha => absurd rfl ha.1)

/-- The timer of `p` is in no queue, and is programmed and started. -/
theorem TimersOwned.arm
    (h : TimersOwned O b s) (hw : (s.procs p).ipcvt = some w) (hp : s.tm.place w = none)
    (ht : s.tm.vtset w n 1 act par k = some s'.tm) (hr : Restat p s s')
    (hk : KeepsRequests p s s')
    (hb : ∀ t : Timer, t.limit = 1 → t.action = act → t.param = par →
      t.this = (s.tm.vt w).this → Blocks s'.ms.hdr p (s'.procs p) t) :
    TimersOwned O b s' := by
  exact h.move hw (moved_vtset h.tm.placed hp ht) (Fits.active rfl (h.tm.fits w).this) rfl
    (by simp) (by simp) hr hk (fun _ => hb _ rfl rfl rfl rfl)

/-- `VTSET` on the timer of `p`, unless the timeout is `MRT_FOREVER`. -/
theorem TimersOwned.armIpc {s1 : KState}
    (h : TimersOwned O b s) (ha : s.armIpc p n act par = some s1) (htm : s'.tm = s1.tm)
    (hp : ∀ w, (s.procs p).ipcvt = some w → s.tm.place w = none) (hr : Restat p s s')
    (hk : KeepsRequests p s s')
    (hb : ∀ t : Timer, t.limit = 1 → t.action = act → t.param = par →
      Blocks s'.ms.hdr p (s'.procs p) t) :
    TimersOwned O b s' := by
  rw [KState.armIpc] at ha
  split at ha
  · cases ha
    exact h.restat htm hr hk hp
  · simp only [bind_eq_bind, bind_eq_some_iff, some.injEq] at ha
    obtain ⟨w, hw, t, ht, rfl⟩ := ha
    exact h.arm hw (hp w hw) (by rw [htm]; exact ht) hr hk (fun t h1 h2 h3 _ => hb t h1 h2 h3)

/-! ## Timers are handed out and given back -/

/-- A timer in the free list belongs to no process. -/
theorem TimersOwned.not_own (h : TimersOwned O b s) (hv : s.tm.place v = some .free) (p : Proc) :
    (s.procs p).ipcvt ≠ some v :=
  fun hp => (h.own p v hp).2.2 hv

/-- A timer that belongs to no process is started, or run, for an interrupt. -/
theorem TimersOwned.irq (h : TimersOwned O b s) (hv : ∀ p, (s.procs p).ipcvt ≠ some v)
    (hm : Moved s.tm s'.tm v o t) (hfit : Fits t v o) (hfree : o ≠ some .free)
    (hown : t.owner = hardware) (hact : t.action = .irqtrig) (hp : s'.procs = s.procs)
    (hh : s'.ms.hdr = s.ms.hdr) : TimersOwned O b s' := by
  refine h.change hm hfit (fun ho => absurd ho hfree) (hp ▸ h.slot) (hp ▸ h.pvt)
    (fun q w _ hq => hp ▸ hq) (fun q w _ hq => ?_) (fun q hq => absurd (hp ▸ hq) (hv q))
    (fun _ => .inr ⟨hown, hact⟩)
  rw [hp, hh]
  exact ⟨hq, (h.own q w hq).1, fun _ => id⟩

/-- The timer of a process that leaves RT mode goes back to the free list. -/
theorem TimersOwned.drop (h : TimersOwned O b s) (hw : (s.procs p).ipcvt = some w)
    (hm : Moved s.tm s'.tm w (some .free) t) (hfit : Fits t w (some .free))
    (hflag : t.flags = .freeQ) (hp : ∀ q, q ≠ p → s'.procs q = s.procs q)
    (hself : s'.procs p = { s.procs p with pvt := none, ipcvt := none })
    (hh : s'.ms.hdr = s.ms.hdr) : TimersOwned O b s' := by
  have hne : ∀ {q v}, (s'.procs q).ipcvt = some v → (s.procs q).ipcvt = some v ∧ v ≠ w := by
    intro q v hq
    have hqp : q ≠ p := by
      rintro rfl
      rw [hself] at hq
      cases hq
    rw [hp q hqp] at hq
    refine ⟨hq, ?_⟩
    rintro rfl
    exact hqp (h.ipcvt_inj hw hq)
  refine h.change hm hfit (fun _ => hflag) (fun q hq => ?_) (fun q => ?_)
    (fun q v _ hq => (hne hq).1) (fun q v hvw hq => ?_) (fun q hq => absurd rfl (hne hq).2)
    (fun ha => absurd rfl ha.2)
  · by_cases hqp : q = p
    · rw [hqp, hself] at hq
      exact hqp ▸ h.slot p hq
    · rw [hp q hqp] at hq
      exact h.slot q hq
  · by_cases hqp : q = p
    · rw [hqp, hself]
    · rw [hp q hqp]
      exact h.pvt q
  · have hqp : q ≠ p := by
      rintro rfl
      exact hvw (some.inj (hq.symm.trans hw))
    rw [hp q hqp, hh]
    exact ⟨hq, (h.own q v hq).1, fun _ => id⟩

/-- `MRT_set2nrt` stops and frees the timer of the process, if it has one. -/
theorem TimersOwned.dropTimers_inv (h : TimersOwned O true s) (hd : s.dropTimers p = some s') :
    ∃ tm, s' = ({ s with tm } : KState).updProc p
        (fun r => { r with pvt := none, ipcvt := none }) ∧
      ((s.procs p).ipcvt = none ∧ tm = s.tm ∨
        ∃ w r, (s.procs p).ipcvt = some w ∧ Moved s.tm tm w (some .free) (freed r w)) := by
  simp only [dropTimers, bind_eq_bind, bind_eq_some_iff, some.injEq] at hd
  obtain ⟨s1, h1, s2, h2, rfl⟩ := hd
  rw [h.pvt p] at h1
  cases h1
  cases hw : (s.procs p).ipcvt with
  | none =>
    rw [hw] at h2
    cases h2
    exact ⟨s.tm, rfl, .inl ⟨rfl, rfl⟩⟩
  | some w =>
    rw [hw] at h2
    simp only [dropTimer, bind_eq_bind, bind_eq_some_iff, some.injEq] at h2
    obtain ⟨t1, ht1, t2, ht2, rfl⟩ := h2
    have hm1 := moved_vtimerStop h.tm (h.stoppable hw) ht1
    have hok1 : TimersOk t1 :=
      hm1.ok h.tm (Fits.alloc rfl (fun i hi => (some.inj hi).symm))
    exact ⟨t2, rfl, .inr ⟨w, _, rfl,
      hm1.trans (moved_vtimerFree hok1 (.inl hm1.place_self) ht2)⟩⟩

/-- A process that leaves RT mode owns no timer any more. -/
theorem TimersOwned.leave (h : TimersOwned O true s) (hrt : (s.procs p).realtime = true)
    (hd : s.dropTimers p = some s') :
    TimersOwned O true s' ∧ s'.ms = s.ms ∧ (∀ q, q ≠ p → s'.procs q = s.procs q) ∧
      s'.procs p = { s.procs p with pvt := none, ipcvt := none } := by
  obtain ⟨tm, rfl, hcase⟩ := h.dropTimers_inv hd
  refine ⟨?_, rfl, fun q hq => updProc_ne _ _ hq, updProc_self _ p _⟩
  rcases hcase with ⟨hw, rfl⟩ | ⟨w, r, hw, hm⟩
  · exact h.untimed rfl rfl hw (fun q hq => updProc_ne s _ hq) (by rw [updProc_self])
      (by rw [updProc_self]) (fun _ => h.slot p hrt)
  · refine h.drop hw hm ?_ rfl (fun q hq => updProc_ne _ _ hq) (updProc_self _ p _) rfl
    exact ⟨by simp [freed], by simp, by simp [freed], by simp, fun i hi => (some.inj hi).symm⟩

/-- A process that enters RT mode gets a free timer. -/
theorem TimersOwned.equip (h : TimersOwned O b s)
    (ht : s.tm.vtimerAlloc n lim act par (procNr p) k = some (some w, s'.tm))
    (hhw : p ≠ hardwareProc) (hrt : (s.procs p).realtime = false)
    (hp : ∀ q, q ≠ p → s'.procs q = s.procs q) (hr : (s'.procs p).realtime = true)
    (hi : (s'.procs p).ipcvt = some w) (hv : (s'.procs p).pvt = none)
    (hh : s'.ms.hdr = s.ms.hdr) : TimersOwned O b s' := by
  rcases moved_vtimerAlloc h.tm ht with ⟨hn, -⟩ | ⟨i, hiw, hfree, hm⟩
  · cases hn
  cases hiw
  have hpi : (s.procs p).ipcvt = none := by
    cases hw : (s.procs p).ipcvt with
    | none => rfl
    | some v =>
      rw [(h.own p v hw).1] at hrt
      cases hrt
  have hne : ∀ {q v}, (s.procs q).ipcvt = some v → q ≠ p := by
    rintro q v hq rfl
    rw [hpi] at hq
    cases hq
  refine h.change hm (Fits.alloc rfl (h.tm.fits w).this) nofun (fun q hq => ?_)
    (fun q => ?_) (fun q v hvw hq => ?_) (fun q v _ hq => ?_) (fun q hq => ?_)
    (fun ha => absurd rfl ha.1)
  · by_cases hqp : q = p
    · exact hqp ▸ hhw
    · rw [hp q hqp] at hq
      exact h.slot q hq
  · by_cases hqp : q = p
    · rw [hqp, hv]
    · rw [hp q hqp]
      exact h.pvt q
  · by_cases hqp : q = p
    · rw [hqp, hi] at hq
      exact absurd (some.inj hq).symm hvw
    · rw [hp q hqp] at hq
      exact hq
  · rw [hp q (hne hq), hh]
    exact ⟨hq, (h.own q v hq).1, fun _ => id⟩
  · by_cases hqp : q = p
    · rw [hqp]
      exact ⟨hr, rfl, by simp, by simp⟩
    · rw [hp q hqp] at hq
      exact absurd hq (h.not_own hfree q)

/-! ## The clock -/

/-- A clock interrupt moves timers to the expired queue, still owned for the same
    reason. -/
theorem TimersOwned.tick (h : TimersOwned O b s) {t : TimerSt} (ht : s.tm.clockIrq = some t) :
    TimersOwned O false { s with tm := t } := by
  have he := clockIrq_expires h.tm ht
  refine ⟨nofun, he.ok, fun p v hp => ?_, h.slot, h.pvt, fun v hv => ?_,
    fun v ho hv => ?_⟩
  · obtain ⟨h1, h2, h3⟩ := h.own p v hp
    rcases he.each v with ⟨hpl, hf⟩ | ⟨hpl, -, hpl', hf⟩
    · exact ⟨h1, (congrArg Timer.owner hf).trans h2, by rw [hpl]; exact h3⟩
    · exact ⟨h1, (congrArg Timer.owner hf).trans h2, by rw [hpl']; simp⟩
  · rcases he.each v with ⟨hpl, hf⟩ | ⟨hpl, hth, -, hf⟩
    · rw [hpl] at hv
      rcases h.armed v hv with ⟨q, h1, h2⟩ | ⟨h1, h2⟩
      · exact .inl ⟨q, h1, h2.undelta hf⟩
      · exact .inr ⟨(congrArg Timer.owner hf).trans h1, (congrArg Timer.action hf).trans h2⟩
    · rcases h.armed v (by rw [hpl]; exact ⟨by simp, by simp⟩) with ⟨q, h1, h2⟩ | ⟨h1, h2⟩
      · refine .inl ⟨q, h1, Blocks.undelta ?_ hf⟩
        -- a timed sleep has no back pointer, and is never moved here
        obtain ⟨hl, h2⟩ := h2
        refine ⟨hl, ?_⟩
        cases ha : (s.tm.vt v).action with
        | wakeup =>
          simp only [ha] at h2
          rw [h2.2] at hth
          cases hth
        | none | sched | msgown | msgwdog | irqtrig | debug | periodic | stop => simp [ha] at h2
        | sndto | rcvfr | sndrcv | down =>
          simp only [ha] at h2 ⊢
          exact h2
      · exact .inr ⟨(congrArg Timer.owner hf).trans h1, (congrArg Timer.action hf).trans h2⟩
  · rcases he.each v with ⟨hpl, hf⟩ | ⟨-, -, hpl', -⟩
    · exact (congrArg Timer.flags hf).trans (h.old v ho (hpl ▸ hv))
    · rw [hpl'] at hv
      cases hv

/-! ## Timeouts -/

/-- The wait of `p` that the timer `t` ends. -/
inductive Timeout (e : Env) (s : KState) (p : Proc) (t : Timer) (s1 : KState) : Prop where
  | sndto : t.action = .sndto → (s.procs p).st.mbxSnd = true → s.actSndto e t = some s1 →
      Timeout e s p t s1
  | rcvfr : t.action = .rcvfr → (s.procs p).st.mbxRcv = true → s.actRcvfr t = some s1 →
      Timeout e s p t s1
  | sndrcv : t.action = .sndrcv → (s.procs p).st.mbxRcv = true → s.actSndrcv e t = some s1 →
      Timeout e s p t s1
  | down {m : Sem} : t.action = .down → (s.procs p).st.semDown = true →
      (s.procs p).psem = some m → t.param = (m.val : Int) → s.actDown t = some s1 →
      Timeout e s p t s1

/-- A timeout changes the status of the owner of the timer, and what it waits for. -/
theorem Timeout.effect {e : Env} (h : Timeout e s p t s') :
    (s'.tm = s.tm ∧ s'.ss = s.ss ∧ s'.cur = s.cur) ∧
      ∃ q r, procAddr t.owner = some q ∧ s'.procs = Function.update s.procs q r ∧
        frame r = frame (s.procs q) ∧ r.psem = (s.procs q).psem ∧
        (t.action ≠ .down → r.st.semDown = (s.procs q).st.semDown) := by
  cases h with
  | sndto _ _ h1 =>
    obtain ⟨q, _, hq, -, hf, -, hp⟩ := actSndto_core h1
    exact ⟨hf, q, _, hq, hp, rfl, rfl, fun _ => rfl⟩
  | rcvfr _ _ h1 =>
    obtain ⟨q, hq, hf, -, hp⟩ := actRcvfr_core h1
    exact ⟨hf, q, _, hq, hp, rfl, rfl, fun _ => rfl⟩
  | sndrcv _ _ h1 =>
    obtain ⟨q, hq, hf, ⟨-, _, -, -, hp⟩ | ⟨-, -, hp⟩⟩ := actSndrcv_core h1
    all_goals exact ⟨hf, q, _, hq, hp, rfl, rfl, fun _ => rfl⟩
  | down ha _ _ _ h1 =>
    obtain ⟨q, hq, hf, -, hp⟩ := actDown_core h1
    exact ⟨hf, q, _, hq, hp, rfl, rfl, fun hn => absurd ha hn⟩

/-- **A TIMER THAT A FLUSH RUNS ENDS A WAIT OF ITS OWNER**, or triggers an interrupt. -/
theorem TimersOwned.expire_inv {e : Env} (h : TimersOwned O b s)
    (hpl : s.tm.place w = some (.exp k)) (hthis : (s.tm.vt w).this = some w)
    (hr : s.vtimerRun e w = some s') :
    ∃ s1 tm t, tm = s.tm.upd w (fun t => { t with timestamp := s.tm.ticks }) ∧
      tm.rearm w = some t ∧ s' = { s1 with tm := t } ∧
      (s1 = { s with tm := tm } ∧ (s.tm.vt w).owner = hardware ∧
          (s.tm.vt w).action = .irqtrig ∨
        ∃ p, (s.procs p).ipcvt = some w ∧ Timeout e { s with tm := tm } p
          { s.tm.vt w with timestamp := s.tm.ticks } s1) := by
  obtain ⟨s1, c, hact, hs', hend⟩ := vtimerRun_inv hr
  have harm : Armed (s.tm.place w) := by
    rw [hpl]
    exact ⟨by simp, by simp⟩
  rcases h.armed w harm with ⟨p, hw, -, hb⟩ | ⟨hown, ha⟩
  · have hto : c = true ∧ Timeout e
        { s with tm := s.tm.upd w (fun t => { t with timestamp := s.tm.ticks }) } p
        { s.tm.vt w with timestamp := s.tm.ticks } s1 := by
      generalize hg : (s.tm.vt w).action = a at hb
      cases hact with
      | idle ha =>
        rcases ha with ha | ha | ha | ⟨ha, -⟩ <;>
        · cases hg.symm.trans ha
          exact False.elim hb
      | wake ha _ =>
        rcases ha with ha | ha | ⟨ha, -⟩ <;> cases hg.symm.trans ha
        · -- the timer of a timed sleep has no back pointer
          exact nomatch hthis.symm.trans hb.2
        all_goals exact False.elim hb
      | tell ha _ =>
        rcases ha with ha | ha <;>
        · cases hg.symm.trans ha
          exact False.elim hb
      | stop ha _ =>
        cases hg.symm.trans ha
        exact False.elim hb
      | sndto ha h1 =>
        cases hg.symm.trans ha
        exact ⟨rfl, .sndto ha hb.1 h1⟩
      | rcvfr ha h1 =>
        cases hg.symm.trans ha
        exact ⟨rfl, .rcvfr ha hb h1⟩
      | sndrcv ha h1 =>
        cases hg.symm.trans ha
        exact ⟨rfl, .sndrcv ha hb.1 h1⟩
      | down ha h1 =>
        cases hg.symm.trans ha
        obtain ⟨hdn, m, hps, hpar⟩ := hb
        exact ⟨rfl, .down ha hdn hps hpar h1⟩
    obtain ⟨rfl, hto⟩ := hto
    rw [if_pos rfl, hto.effect.1.1] at hend
    exact ⟨s1, _, s'.tm, rfl, hend, hs', .inr ⟨p, hw, hto⟩⟩
  · cases hact with
    | idle _ => exact ⟨_, _, s'.tm, rfl, hend, hs', .inl ⟨rfl, hown, ha⟩⟩
    | wake ha' _ | tell ha' _ => exact absurd ha' (by simp [ha])
    | sndto ha' _ | rcvfr ha' _ | sndrcv ha' _ | stop ha' _ | down ha' _ =>
      exact absurd (ha.symm.trans ha') (by simp)

end Kernel
