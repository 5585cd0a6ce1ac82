import Minix4rt.MessagePoolProofs

/-! # The IPC invariant — timers and messages along every run

    `IpcOk` puts the two halves together: the timers are owned (`TimersOwned`) and the
    message entries are where they belong (`MsgOk`).  Neither half is kept alone.  The
    timer of a sender carries the index of its entry, and the entry tells whether the
    sender still waits.

    Two things in the source break it, and the condition `Quiet` names them.  A call
    may find an IPC timer that has expired and not run yet, which `MRT_vtimer_stop` does
    not take out of the expired queue; and `MRT_act_sndrcv` takes back the entry 0
    whatever entry its owner has sent. -/

namespace Kernel

open ListPool Vtimer KState TimerSt Function Option

/-- Both halves of the invariant. -/
structure IpcOk (O : VT → Prop) (b : Bool) (x : Option Proc) (s : KState) : Prop where
  timers : TimersOwned O b s
  msgs : MsgOk x s

variable {O : VT → Prop} {b : Bool} {e : Event} {x : Option Proc} {s s' s1 s2 : KState} {p d : Proc}
  {w : VT}
  {q : MsgQ} {k : Mqe} {m : Sem} {v : Env} {r : RtProc}
variable {n dl : BitVec 32} {par : Int} {src : Proc} {t : MType} {l : Prty} {prty : Nat}
  {ipc : Ipc} {c : Code}

/-! ## Changes that both halves share -/

theorem Restat.of_update (hp : s'.procs = update s.procs p r)
    (hf : frame r = frame (s.procs p)) : Restat p s s' := by
  refine ⟨fun i hi => ?_, ?_⟩
  · rw [hp, update_of_ne hi]
  · rw [hp, update_self, hf]

/-- Messages and processes stay as they are. -/
theorem MsgOk.same_procs (h : MsgOk x s) (hm : SameMsgs s s') (hp : s'.procs = s.procs) :
    MsgOk x s' := by
  refine h.restat hm (Restat.of_procs hardwareProc hp) ?_ (fun _ => ?_) (fun hf => ?_)
  · rw [hp]
  · rw [hp]
  · rw [hp]
    exact h.nrt _ hf

/-- Timers, messages and processes stay as they are. -/
theorem IpcOk.same (h : IpcOk O b x s) (hp : s'.procs = s.procs) (htm : s'.tm = s.tm)
    (hm : SameMsgs s s') : IpcOk O b x s' := by
  refine ⟨h.timers.restatus htm (Restat.of_procs hardwareProc hp) (fun p v _ _ hb => ?_),
    h.msgs.same_procs hm hp⟩
  rw [hm.hdr, hp]
  exact hb

theorem IpcOk.sched (h : IpcOk O b x s) (hs : SchedOnly s s') : IpcOk O b x s' :=
  h.same hs.procs hs.tm (.of_eq hs.ms)

/-- The record `r` of `p` differs from its old one in the status only, and not in what
    concerns a send. -/
structure SendKept (s : KState) (p : Proc) (r : RtProc) : Prop where
  framed : frame r = frame (s.procs p)
  snd : r.st.mbxSnd = (s.procs p).st.mbxSnd
  dest : r.pto = (s.procs p).pto

theorem MsgOk.sendKept (hm : MsgOk x s) (hp : s'.procs = update s.procs p r)
    (h : SendKept s p r) (hms : s'.ms = s.ms)
    (hnrt : (s.procs p).realtime = false → r.st = .clear) : MsgOk x s' := by
  have hself : s'.procs p = r := by rw [hp, update_self]
  refine hm.restat (.of_eq hms) (.of_update hp h.framed) ?_ (fun _ => ?_) (fun hf => ?_)
  · rw [hself, h.snd]
  · rw [hself, h.dest]
  · rw [hself, hnrt hf]

/-- A process changes its status with its timer in no queue, and not for a send. -/
theorem IpcOk.restat (h : IpcOk O b x s) (htm : s'.tm = s.tm) (hms : s'.ms = s.ms)
    (hp : s'.procs = update s.procs p r) (hr : SendKept s p r)
    (hnrt : (s.procs p).realtime = false → r.st = .clear)
    (hw : ∀ w, (s.procs p).ipcvt = some w → s.tm.place w = none) : IpcOk O b x s' :=
  ⟨h.timers.restat htm (.of_update hp hr.framed) (.of_hdr p (by rw [hms])) hw,
    h.msgs.sendKept hp hr hms hnrt⟩

/-- The owner of a timer is an RT process. -/
theorem IpcOk.rt (h : IpcOk O b x s) (hw : (s.procs p).ipcvt = some w) {P : Prop}
    (hf : (s.procs p).realtime = false) : P := by
  rw [(h.timers.own p w hw).1] at hf
  cases hf

/-- The timer of `p` is stopped; `p` may stop waiting, but not in a send. -/
theorem IpcOk.stop (h : IpcOk O true x s) (hw : (s.procs p).ipcvt = some w)
    (ht : s.tm.vtimerStop w = some s'.tm) (hms : s'.ms = s.ms)
    (hp : s'.procs = update s.procs p r) (hr : SendKept s p r) : IpcOk O true x s' :=
  ⟨h.timers.stop hw ht (.of_update hp hr.framed) (.of_hdr p (by rw [hms])),
    h.msgs.sendKept hp hr hms (h.rt hw)⟩

theorem IpcOk.stopIf (h : IpcOk O true x s) (hst : s.stopTimerIf (s.procs p).ipcvt = some s1)
    (htm : s'.tm = s1.tm) (hms : s'.ms = s.ms) (hp : s'.procs = update s.procs p r)
    (hr : SendKept s p r) (hnrt : (s.procs p).realtime = false → r.st = .clear) :
    IpcOk O true x s' := by
  rcases stopTimerIf_inv hst with ⟨hn, rfl⟩ | ⟨w, t, hw, ht, rfl⟩
  · refine h.restat htm hms hp hr hnrt (fun w hw => ?_)
    rw [hn] at hw
    cases hw
  · exact h.stop hw (by rw [htm]; exact ht) hms hp hr

/-- The running process arms its timer and waits for something other than a send. -/
theorem IpcOk.wait {act : Act} (h : IpcOk O b x s) (hrun : Running s)
    (ha : s.armIpc s.cur n act par = some s1) (htm : s'.tm = s1.tm) (hms : s'.ms = s.ms)
    (hp : s'.procs = update s.procs s.cur r) (hr : SendKept s s.cur r)
    (hb : ∀ t : Timer, t.limit = 1 → t.action = act → t.param = par →
      Blocks s.ms.hdr s.cur r t) : IpcOk O b x s' := by
  refine ⟨h.timers.armIpc ha htm (fun w hw => h.timers.idle hw hrun.clear)
    (.of_update hp hr.framed) (.of_hdr _ (by rw [hms])) (fun t h1 h2 h3 => ?_),
    h.msgs.sendKept hp hr hms (fun hf => ?_)⟩
  · rw [hms, hp, update_self]
    exact hb t h1 h2 h3
  · rw [hrun.rt] at hf
    cases hf

/-! ## Messages -/

theorem IpcOk.deliver (h : IpcOk O true x s) (hu : s.unblockReceiver d = some s') :
    IpcOk O true x s' := by
  obtain ⟨s1, w, t, hq, hw, ht, rfl⟩ := unblockReceiver_inv hu
  have hs := readyIfClear_only hq
  exact h.stop hw ht hs.ms hs.procs ⟨rfl, rfl, rfl⟩

/-- A new entry takes no request of another process away. -/
theorem Added.keeps (h : Added s s' src d q t k l) {i : Mqe}
    (hi : (s.ms.hdr i).mtype = .request) : s'.ms.hdr i = s.ms.hdr i := by
  refine h.other i ?_
  rintro rfl
  rw [h.was] at hi
  cases hi

theorem Added.of_ms (h : Added s s1 src d q t k l) (hm : s'.ms = s1.ms) :
    Added s s' src d q t k l := by
  constructor
  · exact h.was
  · rw [hm]
    exact h.other
  · rw [hm]
    exact h.mtype
  · rw [hm]
    exact h.src
  · rw [hm]
    exact h.dst
  · rw [hm]
    exact h.level
  · rw [hm]
    exact h.pool
  · rw [hm]
    exact h.free
  · rw [hm]
    exact h.order

/-- The timers do not see a new entry. -/
theorem TimersOwned.added (h : TimersOwned O b s) (ha : Added s s' src d q t k l)
    (htm : s'.tm = s.tm) (hp : s'.procs = s.procs) :
    TimersOwned O b s' := by
  refine h.restatus htm (Restat.of_procs src hp) (fun p v _ _ hb => ?_)
  rw [hp]
  exact hb.of_hdr (fun i hi _ => ha.keeps hi)

/-- The table of processes after a request has been queued and its sender blocked. -/
theorem send_procs {act : Act} (hn : s.newEntry src d t prty dl = some (k, s1))
    (he : s1.enqueue q k = some s2) (ha : s2.armIpc s2.cur n act par = some s') :
    (s'.blockSender d).procs = update s.procs s.cur { s.procs s.cur with
      pto := some d, st := { (s.procs s.cur).st with mbxSnd := true } } := by
  obtain ⟨hp, -, -, -, -, hcur, -⟩ := enqueued hn he
  obtain ⟨t, rfl⟩ := armIpc_inv ha
  simp only [blockSender, rdyQRmv, updProc, setPool, hp, hcur]

/-- The same for a process that also waits for the reply. -/
theorem sendRecv_procs {s3 : KState} (hn : s.newEntry src d t prty dl = some (k, s1))
    (he : s1.enqueue q k = some s2) (hset : (s2.updProc s2.cur (fun r =>
      { r with pto := some d, st := { r.st with mbxSnd := true } })).setIpcParam s2.cur
        par = some s3) (hb : s3.blockReply ipc d = some s') :
    s'.procs = update s.procs s.cur { s.procs s.cur with
      pto := some d, pfrom := some d,
      st := { (s.procs s.cur).st with mbxSnd := true, mbxRcv := true } } := by
  obtain ⟨hp, -, -, -, -, hcur, -⟩ := enqueued hn he
  obtain ⟨w, -, rfl⟩ := setIpcParam_inv hset
  rw [(blockReply_procs hb).2]
  simp only [updProc, hp, hcur, update_self, update_idem]

theorem IpcOk.queue (h : IpcOk O b x s) (hq : (s.procs d).pmq = some q) (ht : ¬ t.Sync)
    (hf : t ≠ .mbfree) (hn : s.newEntry src d t prty dl = some (k, s1))
    (he : s1.enqueue q k = some s') :
    IpcOk O b x s' := by
  obtain ⟨l, ha⟩ := h.msgs.added hn he
  obtain ⟨hp, -, htm, -⟩ := enqueued hn he
  refine ⟨h.timers.added ha htm hp, h.msgs.add ha hf hq (Restat.of_procs _ hp) ?_ ?_ ?_⟩
  · exact fun hs => absurd hs ht
  · intro _
    rw [hp]
    exact ⟨rfl, rfl⟩
  · intro hrt
    rw [hp]
    exact h.msgs.nrt src hrt

/-- The common part of the two sends that block: the entry is queued and its sender
    waits for it. -/
theorem MsgOk.send (h : MsgOk none s) (hrun : Running s) (hq : (s.procs d).pmq = some q)
    (ht : t.Sync) (hn : s.newEntry s.cur d t prty dl = some (k, s1))
    (he : s1.enqueue q k = some s2) (hms : s'.ms = s2.ms) (hr : Restat s.cur s s')
    (hsnd : (s'.procs s.cur).st.mbxSnd = true) (hto : (s'.procs s.cur).pto = some d) :
    MsgOk none s' := by
  obtain ⟨l, ha⟩ := h.added hn he
  refine h.add (ha.of_ms hms) ?_ hq hr ?_ ?_ ?_
  · rintro rfl
    revert ht
    decide
  · intro _
    refine ⟨rfl, ?_, hsnd, hto⟩
    rw [hrun.clear]
    rfl
  · exact fun hs => absurd ht hs
  · intro hf
    rw [hrun.rt] at hf
    cases hf

theorem IpcOk.send (h : IpcOk O b none s) (hrun : Running s) (hq : (s.procs d).pmq = some q)
    (hn : s.newEntry s.cur d .request prty dl = some (k, s1)) (he : s1.enqueue q k = some s2)
    (ha : s2.armIpc s2.cur n .sndto (k.val : Int) = some s') :
    IpcOk O b none (s'.blockSender d) := by
  obtain ⟨l, hadd⟩ := h.msgs.added hn he
  obtain ⟨hp, -, htm, -, -, hcur, -⟩ := enqueued hn he
  have hupd := send_procs hn he ha
  obtain ⟨t, rfl⟩ := armIpc_inv ha
  have h2 : TimersOwned O b s2 := h.timers.added hadd htm hp
  rw [hcur] at ha
  have hr2 : Restat s.cur s2 (KState.blockSender { s2 with tm := t } d) :=
    Restat.of_update (by rw [hupd, hp]) (by rw [hp]; rfl)
  have hself := congrFun hupd s.cur
  rw [update_self] at hself
  refine ⟨h2.armIpc ha rfl (fun w hw => ?_) hr2 (.of_hdr _ rfl) (fun t' h1 h3 h4 => ⟨h1, ?_⟩), ?_⟩
  · rw [hp] at hw
    rw [htm]
    exact h.timers.idle hw hrun.clear
  · rw [h3, hself]
    exact ⟨rfl, k, h4, hadd.mtype, hadd.src⟩
  · exact h.msgs.send hrun hq (.inl rfl) hn he rfl
      (Restat.of_update hupd rfl) (by rw [hself]) (by rw [hself])

/-- A new parameter for a timer in no queue. -/
theorem TimersOwned.setIpcParam (h : TimersOwned O b s)
    (hp : ∀ w, (s.procs p).ipcvt = some w → s.tm.place w = none)
    (hset : s.setIpcParam p par = some s') :
    TimersOwned O b s' ∧ s'.procs = s.procs ∧ s'.ms = s.ms ∧ s'.cur = s.cur ∧
      ∀ w, (s.procs p).ipcvt = some w → s'.tm.place w = none := by
  obtain ⟨w, hw, rfl⟩ := setIpcParam_inv hset
  have hm : Moved s.tm (s.tm.upd w (fun t => { t with param := par })) w none
      { s.tm.vt w with param := par } :=
    ((hp w hw) ▸ Moved.refl h.tm.placed w).upd (fun t => { t with param := par })
  have hfit := h.tm.fits w
  rw [hp w hw] at hfit
  refine ⟨h.move hw hm { hfit with } rfl (by simp)
    (by simp) (Restat.of_procs _ rfl) (.of_hdr _ rfl) (fun ha => absurd rfl ha.1),
    rfl, rfl, rfl, fun w' hw' => ?_⟩
  rw [hw] at hw'
  cases hw'
  exact hm.place_self

/-- The receive section of `rtk_rqrcv`, by a process whose timer is in no queue. -/
theorem TimersOwned.blockReply (h : TimersOwned O b s)
    (hp : ∀ w, (s.procs s.cur).ipcvt = some w → s.tm.place w = none)
    (hb : s.blockReply ipc d = some s') : TimersOwned O b s' ∧ s'.ms = s.ms := by
  have hupd := (blockReply_procs hb).2
  simp only [KState.blockReply, bind_eq_bind, bind_eq_some_iff, some.injEq] at hb
  obtain ⟨s1, ha, rfl⟩ := hb
  obtain ⟨t, rfl⟩ := armIpc_inv ha
  refine ⟨h.armIpc ha rfl hp (Restat.of_update hupd rfl) (.of_hdr _ rfl)
    (fun t' h1 h2 h3 => ⟨h1, ?_⟩), rfl⟩
  rw [h2, hupd, update_self]
  exact ⟨rfl, h3⟩

theorem IpcOk.sendRecv {s3 : KState} (h : IpcOk O b none s) (hrun : Running s)
    (hq : (s.procs d).pmq = some q) (hn : s.newEntry s.cur d .rqrcv prty dl = some (k, s1))
    (he : s1.enqueue q k = some s2) (hset : (s2.updProc s2.cur (fun r =>
      { r with pto := some d, st := { r.st with mbxSnd := true } })).setIpcParam s2.cur
        (k.val : Int) = some s3) (hb : s3.blockReply ipc d = some s') : IpcOk O b none s' := by
  obtain ⟨l, hadd⟩ := h.msgs.added hn he
  obtain ⟨hp, -, htm, -, -, hcur, -⟩ := enqueued hn he
  have hidle : ∀ w, (s2.procs s2.cur).ipcvt = some w → s2.tm.place w = none := by
    intro w hw
    rw [hp, hcur] at hw
    rw [htm]
    exact h.timers.idle hw hrun.clear
  have h2 : TimersOwned O b s2 := h.timers.added hadd htm hp
  have h3 : TimersOwned O b (s2.updProc s2.cur (fun r =>
      { r with pto := some d, st := { r.st with mbxSnd := true } })) :=
    h2.restat rfl (Restat.updProc s2 s2.cur (fun _ => rfl)) (.of_hdr _ rfl) hidle
  obtain ⟨h4, hp3, hms3, hcur3, hidle3⟩ := h3.setIpcParam (by rw [updProc_self]; exact hidle) hset
  have hcur3' : s3.cur = s2.cur := hcur3
  obtain ⟨h5, hms⟩ := h4.blockReply (by rw [hp3, hcur3']; exact hidle3) hb
  have hupd := sendRecv_procs hn he hset hb
  refine ⟨h5, h.msgs.send hrun hq (.inr rfl) hn he (hms.trans hms3)
    (Restat.of_update hupd rfl) ?_ ?_⟩
  all_goals rw [hupd, update_self]

theorem IpcOk.recvReply (h : IpcOk O b x s) (hrun : Running s)
    (hset : s.setIpcParam s.cur (-1) = some s1) (hb : s1.blockReply ipc d = some s') :
    IpcOk O b x s' := by
  obtain ⟨h1, hp, hms1, hcur, hidle⟩ :=
    h.timers.setIpcParam (fun w hw => h.timers.idle hw hrun.clear) hset
  obtain ⟨h2, hms⟩ := h1.blockReply (by rw [hp, hcur]; exact hidle) hb
  have hupd := (blockReply_procs hb).2
  rw [hp, hcur] at hupd
  refine ⟨h2, h.msgs.sendKept hupd ⟨rfl, rfl, rfl⟩ (hms.trans hms1) (fun hf => ?_)⟩
  rw [hrun.rt] at hf
  cases hf

theorem IpcOk.recv (h : IpcOk O b x s) (hrun : Running s) (hb : s.blockReceive ipc q = some s') :
    IpcOk O b x s' := by
  simp only [blockReceive, bind_eq_bind, bind_eq_some_iff, some.injEq] at hb
  obtain ⟨s1, ha, rfl⟩ := hb
  obtain ⟨t, rfl⟩ := armIpc_inv ha
  refine h.wait hrun ha rfl rfl rfl ⟨rfl, rfl, rfl⟩ (fun t' h1 h2 _ => ⟨h1, ?_⟩)
  rw [h2]

/-! ## Receiving an entry -/

theorem Dropped.of_ms (h : Dropped s s1 k) (hm : s'.ms = s1.ms) : Dropped s s' k := by
  constructor
  · rw [hm]
    exact h.other
  · rw [hm]
    exact h.self
  · rw [hm]
    exact h.pool
  · rw [hm]
    exact h.free
  · rw [hm]
    exact h.order

/-- `dropEntry` reads and writes the message system only. -/
theorem MsgOk.dropped_after (h : MsgOk x s) (hk : entryPlace s k = some (.level q l))
    (hd : s1.dropEntry q k = some s') (hms : s1.ms = s.ms) :
    Dropped s s' k ∧ s'.procs = s1.procs ∧ s'.tm = s1.tm := by
  have hd0 : s.dropEntry q k = some { s with ms := s'.ms } := by
    simp only [dropEntry, bind_eq_bind, bind_eq_some_iff, some.injEq] at hd ⊢
    obtain ⟨m, hm, m', hm', rfl⟩ := hd
    exact ⟨m, hms ▸ hm, m', hm', rfl⟩
  obtain ⟨-, -, -, hs', -⟩ := dropEntry_inv hd
  refine ⟨(h.dropped hk hd0).of_ms rfl, ?_, ?_⟩
  · rw [hs']
  · rw [hs']

/-- A process whose entry is not a `MT_REQUEST` has no send timeout to stop. -/
theorem Blocks.release {hdr hdr' : Mqe → Hdr} {t : Timer} (h : Blocks hdr p r t)
    (hno : ∀ k, (hdr k).mtype = .request → (hdr k).src ≠ procNr p) :
    Blocks hdr' p { r with pto := none, st := { r.st with mbxSnd := false } } t := by
  obtain ⟨hl, h⟩ := h
  refine ⟨hl, ?_⟩
  cases ha : t.action with
  | sndto =>
    simp only [ha] at h
    obtain ⟨-, k, -, hm, hs⟩ := h
    exact absurd hs (hno k hm)
  | none | sched | msgown | msgwdog | irqtrig | debug | periodic | stop => simp [ha] at h
  | rcvfr | sndrcv | down | wakeup =>
    simp only [ha] at h ⊢
    exact h

/-- What `rtk_receive` picks is in the queue of the current process, and its sender
    waits for the current process if it waits for this entry. -/
theorem MsgOk.picked {source : Int} (h : MsgOk none s) (hq : (s.procs s.cur).pmq = some q)
    (hk : s.ms.mqePick q source = some (some k)) (hsrc : procAddr (s.ms.hdr k).src = some src) :
    (∃ l, entryPlace s k = some (.level q l)) ∧ (s.ms.hdr k).mtype ≠ .mbfree ∧
      (s.ms.hdr k).src = procNr src ∧ (s.ms.hdr k).dst = procNr s.cur ∧
      (source = anyProc ∨ source = (s.ms.hdr k).src) ∧
      ((s.ms.hdr k).mtype.Sync → (s.procs src).st.mbxSnd = true ∧
        (s.procs src).pto = some s.cur) := by
  rcases h.pool.pick q (s.ms.accepts source) with ⟨hn, -⟩ | ⟨i, l, hi, hpl, hacc⟩
  · rw [MsgSt.mqePick, hn] at hk
    cases hk
  rw [MsgSt.mqePick, hi] at hk
  cases hk
  obtain ⟨hne, -, d, hd, hdq⟩ := h.of_place hpl
  cases h.inj d s.cur q hdq hq
  have hs := procAddr_eq_some.mp hsrc
  refine ⟨⟨l, hpl⟩, hne, hs, hd, ?_, fun hsync => ?_⟩
  · simpa [MsgSt.accepts] using hacc
  · obtain ⟨p, d', h1, h2, h3⟩ := h.sync k hsync
    rw [hs, procNr_inj] at h1
    rw [hd, procNr_inj] at h2
    subst h1 h2
    exact h3.resolve_left (by simp)

/-- The three ways in which the sender of a received entry is released: with its timer
    stopped, without, or not at all. -/
theorem releaseSender_cases (h : s.releaseSender k src = some s1) :
    ((s.ms.hdr k).mtype = .request ∧ (s.procs src).pto = some s.cur ∧ ∃ w,
        (s.procs src).ipcvt = some w ∧ s.tm.vtimerStop w = some s1.tm ∧ s1.ms = s.ms ∧
        s1.procs = update s.procs src { s.procs src with
          pto := none, st := { (s.procs src).st with mbxSnd := false } }) ∨
      ((s.ms.hdr k).mtype = .rqrcv ∧ (s.procs src).pto = some s.cur ∧
        s1 = s.updProc src (fun r =>
          { r with pto := none, st := { r.st with mbxSnd := false } })) ∨
      (((s.ms.hdr k).mtype.Sync → (s.procs src).pto ≠ some s.cur) ∧ s1 = s) := by
  rw [releaseSender] at h
  split at h
  · rename_i hc
    simp only [bind_eq_bind, bind_eq_some_iff] at h
    obtain ⟨s2, h2, h⟩ := h
    obtain ⟨w, t, hw, ht, rfl⟩ := stopTimer_inv h2
    have hq := readyIfClear_only h
    refine .inl ⟨hc.1, hc.2, w, hw, ?_, hq.ms, hq.procs⟩
    rw [hq.tm]
    exact ht
  split at h
  · rename_i hc
    cases h
    exact .inr (.inl ⟨hc.1, hc.2, rfl⟩)
  · rename_i h1 h2
    cases h
    refine .inr (.inr ⟨?_, rfl⟩)
    rintro (hs | hs) hto
    · exact h1 ⟨hs, hto⟩
    · exact h2 ⟨hs, hto⟩

/-- `rtk_receive` takes an entry, and releases its sender. -/
theorem IpcOk.take {source : Int} (h : IpcOk O true none s) (hq : (s.procs s.cur).pmq = some q)
    (hk : s.ms.mqePick q source = some (some k)) (hsrc : procAddr (s.ms.hdr k).src = some src)
    (hrel : s.releaseSender k src = some s1) (hd : s1.dropEntry q k = some s') :
    IpcOk O true none s' := by
  obtain ⟨⟨l, hpl⟩, -, hs, -, -, hsync⟩ := h.msgs.picked hq hk hsrc
  have hother : ∀ {p i}, p ≠ src → (s.ms.hdr i).src = procNr p → i ≠ k := by
    rintro p i hp hi rfl
    rw [hs, procNr_inj] at hi
    exact hp hi.symm
  -- the sender of a synchronous entry is an RT process
  have hrt : (s.ms.hdr k).mtype.Sync → (s.procs src).realtime = true := by
    intro hks
    by_contra hf
    have := h.msgs.nrt src (by simpa using hf)
    rw [this] at hsync
    exact nomatch (hsync hks).1
  rcases releaseSender_cases hrel with ⟨ht, -, w, hw, hstop, hms, hp⟩ | ⟨ht, -, rfl⟩ | ⟨hn, rfl⟩
  · obtain ⟨hdr, hp', htm'⟩ := h.msgs.dropped_after hpl hd hms
    rw [hp] at hp'
    have hr : Restat src s s' := .of_update hp' rfl
    refine ⟨h.timers.stop hw (by rw [htm']; exact hstop) hr ?_, h.msgs.drop hdr hr ?_ ?_ ?_⟩
    · exact fun p i hpi _ hi => hdr.other i (hother hpi hi)
    · exact fun _ => ⟨hs, .inr (by rw [hp', update_self])⟩
    · exact fun hks => absurd (.inl ht) hks
    · intro hf
      rw [hrt (.inl ht)] at hf
      cases hf
  · obtain ⟨hdr, hp', htm'⟩ := h.msgs.dropped_after hpl hd rfl
    have hr : Restat src s s' := .of_update hp' rfl
    refine ⟨h.timers.restatus htm' hr (fun p v hv _ hbl => ?_), h.msgs.drop hdr hr ?_ ?_ ?_⟩
    · by_cases hps : p = src
      · -- the one synchronous entry of the sender is no `MT_REQUEST`
        have hno : ∀ i, (s.ms.hdr i).mtype = .request → (s.ms.hdr i).src ≠ procNr p := by
          intro i hi his
          have hik := h.msgs.uniq i k (.inl hi) (.inr ht) (by rw [his, hs, hps])
          rw [hik, ht] at hi
          cases hi
        have hself : s'.procs p = { s.procs p with
            pto := none, st := { (s.procs p).st with mbxSnd := false } } := by
          rw [hp', hps]
          exact updProc_self _ _ _
        rw [hself]
        exact hbl.release hno
      · rw [hr.other p hps]
        exact hbl.of_hdr (fun i _ hi => hdr.other i (hother hps hi))
    · refine fun _ => ⟨hs, .inr ?_⟩
      rw [hp', updProc_self]
    · exact fun hks => absurd (.inr ht) hks
    · intro hf
      rw [hrt (.inr ht)] at hf
      cases hf
  · obtain ⟨hdr, hp', htm'⟩ := h.msgs.dropped_after hpl hd rfl
    have hks : ¬ (s1.ms.hdr k).mtype.Sync := fun hks => hn hks (hsync hks).2
    have hr : Restat src s1 s' := .of_procs _ hp'
    refine ⟨h.timers.restatus htm' hr (fun p v hv _ hbl => ?_), h.msgs.drop hdr hr ?_ ?_ ?_⟩
    · rw [hp']
      refine hbl.of_hdr (fun i hi _ => hdr.other i ?_)
      rintro rfl
      exact hks (.inl hi)
    · exact fun hks' => absurd hks' hks
    · intro _
      rw [hp']
    · intro hf
      rw [hp']
      exact h.msgs.nrt src hf

/-! ## Sleeping and waiting on semaphores -/

theorem IpcOk.sleep (h : IpcOk O b x s) (hrun : Running s) (hs : s.sleep s.cur n = some (s', c)) :
    IpcOk O b x s' := by
  rcases sleep_inv hs with rfl | ⟨t, rfl, htm | ⟨w, hw, ht⟩⟩
  · exact h
  · refine h.restat htm rfl rfl ⟨rfl, rfl, rfl⟩ (fun hf => ?_)
      (fun w hw => h.timers.idle hw hrun.clear)
    rw [hrun.rt] at hf
    cases hf
  · -- the back pointer is gone when the timer is started
    have hidle := h.timers.idle hw hrun.clear
    have hm1 := (hidle ▸ Moved.refl h.timers.tm.placed w).upd
      (fun t => { t with nextexp := 0, flags := .alloc, this := none })
    have hm2 := hm1.trans (moved_rstLink hm1.wf hm1.place_self)
    have hm3 := hm2.trans (moved_vtset hm2.wf hm2.place_self ht)
    refine ⟨h.timers.move hw hm3 (Fits.active rfl (by simp)) (by simp) (by simp) (by simp)
      (.of_update rfl rfl) (.of_hdr _ rfl) (fun _ => ⟨rfl, ?_⟩),
      h.msgs.sendKept rfl ⟨rfl, rfl, rfl⟩ rfl (h.rt hw)⟩
    simp [setSt, updProc, rdyQRmv, setPool]

theorem IpcOk.wake (h : IpcOk O true x s) (hst : s.stopTimer (s.procs p).ipcvt = some s1)
    (hs : (s1.setSt p (fun t => { t with sleep := false })).readyIfClear p = some s') :
    IpcOk O true x s' := by
  obtain ⟨w, t, hw, ht, rfl⟩ := stopTimer_inv hst
  have hq := readyIfClear_only hs
  exact h.stop hw (by rw [hq.tm]; exact ht) hq.ms hq.procs ⟨rfl, rfl, rfl⟩

theorem IpcOk.semup {j : Option Proc} (h : IpcOk O true x s) (hs : s.semup m j = some (s', c)) :
    IpcOk O true x s' := by
  rcases semup_core hs with ⟨hp, htm, hms⟩ | ⟨rp, w, -, hw, ht, hms, hp⟩
  · exact h.same hp htm (.of_eq hms)
  · exact h.stop hw ht hms hp ⟨rfl, rfl, rfl⟩

theorem IpcOk.semdown (h : IpcOk O b x s) (hrun : Running s) (hs : s.semdown m n = some (s', c)) :
    IpcOk O b x s' := by
  rcases semdown_core hs with ⟨hp, htm, hms⟩ | ⟨s1, ha, htm, hms, hp⟩
  · exact h.same hp htm (.of_eq hms)
  · refine h.wait hrun ha htm hms hp ⟨rfl, rfl, rfl⟩ (fun t h1 h2 h3 => ⟨h1, ?_⟩)
    rw [h2]
    exact ⟨rfl, m, rfl, h3⟩

/-- The owner of `m` leaves and releases a process that waits on it. -/
theorem IpcOk.release (h : IpcOk O true x s) (hr : s.sprocRmv m p = some s1)
    (hst : s1.stopTimerIf (s1.procs p).ipcvt = some s2)
    (hs : (s2.clrDown p).readyIfClear p = some s') : IpcOk O true x s' := by
  obtain rfl := sprocRmv_inv hr
  have hq := readyIfClear_only hs
  obtain ⟨t, rfl⟩ := stopTimerIf_only hst
  have h1 : IpcOk O true x (s.setPool (s.rq.pool.prmv (some m) p (s.semLevel m p))) :=
    h.sched ⟨rfl, rfl, rfl, rfl, rfl⟩
  refine h1.stopIf hst hq.tm hq.ms hq.procs ⟨rfl, rfl, rfl⟩ (fun hf => ?_)
  have hc := h.msgs.nrt p hf
  simp [setPool, hc, Status.clear]

/-! ## Entering and leaving RT mode -/

theorem IpcOk.set2rt (h : IpcOk O b none s) (hhw : s.cur ≠ hardwareProc)
    (hs : s.rtkSet2rt = some (s', c)) : IpcOk O b none s' := by
  rcases rtkSet2rt_inv hs with rfl | ⟨q, w, t, s1, hrt, hf, ht, h1, h2⟩
  · exact h
  have hu := (unready_only h1).1
  have ha := rdyQApp_only h2
  have hp : s'.procs = update s.procs s.cur { s.procs s.cur with
      pmq := some q, ipcvt := some w, realtime := true } := by
    rw [ha.procs]
    simp only [updProc, hu.procs, equip, update_self, update_idem]
  have hms : s'.ms = (s.ms.msgQAlloc (s.procs s.cur).mqSize (s.procs s.cur).mqOrder
      (s.procs s.cur).mqInherit (procNr s.cur)).2 := ha.ms.trans hu.ms
  have htm : s'.tm = t := ha.tm.trans hu.tm
  have hoth : ∀ i, i ≠ s.cur → s'.procs i = s.procs i := by
    intro i hi
    rw [hp, update_of_ne hi]
  have hself := congrFun hp s.cur
  rw [update_self] at hself
  refine ⟨h.timers.equip (w := w) (by rw [htm]; exact ht) hhw hrt hoth ?_ ?_ ?_ ?_,
    h.msgs.equip hf hrt hms hoth hself⟩
  · rw [hself]
  · rw [hself]
  · rw [hself]
    exact h.timers.pvt _
  · rw [hms, MsgSt.msgQAlloc, hf]
    rfl

theorem unqueue_only (s : KState) (p : Proc) :
    SchedOnly s (if s.rtReady p then s.rdyQRmv p else s) := by
  split
  · exact (rdyQRmv_only s p).toSchedOnly
  · exact .refl s

theorem IpcOk.leave (h : IpcOk O true none s) (hrt : (s.procs p).realtime = true)
    (hs : (if s.rtReady p then s.rdyQRmv p else s).dropTimers p = some s') :
    IpcOk O true (some p) s' := by
  have hq := unqueue_only s p
  have h1 := h.sched hq
  have hrt1 : ((if s.rtReady p then s.rdyQRmv p else s).procs p).realtime = true := by
    rw [hq.procs]
    exact hrt
  obtain ⟨ht, hms, hoth, hself⟩ := h1.timers.leave hrt1 hs
  exact ⟨ht, h1.msgs.leave hms hoth hself hrt1⟩

theorem IpcOk.dropQueue (h : IpcOk O b (some p) s) (hs : s.dropQueue p = some s') :
    IpcOk O b (some p) s' := by
  refine ⟨?_, h.msgs.dropQueue hs⟩
  rcases dropQueue_inv hs with ⟨-, rfl⟩ | ⟨q, m, -, -, hm, rfl⟩
  · exact h.timers
  obtain ⟨P, -, rfl⟩ := map_eq_some_iff.mp hm
  obtain ⟨hrt, hipc⟩ := h.msgs.leaving p rfl
  exact h.timers.untimed rfl rfl hipc (fun i hi => updProc_ne _ _ hi)
    (by rw [updProc_self]; exact hipc) (by rw [updProc_self]; exact h.timers.pvt p)
    (fun _ => h.timers.slot p hrt)

/-- The sweep over the pool takes back an entry that the leaving process has sent. -/
theorem IpcOk.sweep (h : IpcOk O b (some p) s) (hsrc : (s.ms.hdr k).src = procNr p)
    (hdst : procAddr (s.ms.hdr k).dst = some d) (hq : (s.procs d).pmq = some q)
    (hs : s.dropEntry q k = some s') : IpcOk O b (some p) s' := by
  obtain ⟨hrt, hipc⟩ := h.msgs.leaving p rfl
  have hne : (s.ms.hdr k).mtype ≠ .mbfree := by
    intro hf
    have := h.msgs.idle k hf
    rw [hsrc] at this
    exact h.timers.slot p hrt (procNr_inj.mp (this.trans (by decide)))
  obtain ⟨l, -, hpl⟩ := h.msgs.place hne (procAddr_eq_some.mp hdst) hq
  obtain ⟨hdr, hp, htm⟩ := h.msgs.dropped_after hpl hs rfl
  have hr : Restat p s s' := .of_procs _ hp
  refine ⟨h.timers.restatus htm hr (fun i v hv _ hb => ?_), h.msgs.drop hdr hr
    (fun _ => ⟨hsrc, .inl rfl⟩) (fun _ => by rw [hp]) (fun hf => ?_)⟩
  · rw [hp]
    refine hb.of_hdr (fun j _ hj => hdr.other j ?_)
    rintro rfl
    rw [hsrc, procNr_inj] at hj
    rw [← hj, hipc] at hv
    cases hv
  · rw [hrt] at hf
    cases hf

theorem IpcOk.back (h : IpcOk O b (some p) s) (hq : (s.procs p).pmq = none)
    (hsrc : p ≠ hardwareProc → ∀ k, (s.ms.hdr k).src ≠ procNr p) :
    IpcOk O b none (s.backToMinix p) := by
  obtain ⟨hrt, hipc⟩ := h.msgs.leaving p rfl
  have hs : SchedOnly (s.updProc p (fun r =>
      { r with st := .clear, periodic := false, realtime := false })) (s.backToMinix p) := by
    rw [backToMinix]
    split
    · exact (ready_only _ _).1
    · exact .refl _
  have hoth : ∀ i, i ≠ p → (s.backToMinix p).procs i = s.procs i := by
    intro i hi
    rw [hs.procs]
    exact updProc_ne _ _ hi
  have hself : (s.backToMinix p).procs p =
      { s.procs p with st := .clear, periodic := false, realtime := false } := by
    rw [hs.procs]
    exact updProc_self _ _ _
  refine ⟨h.timers.untimed hs.tm (by rw [hs.ms]; rfl) hipc hoth ?_ ?_
    (fun _ => h.timers.slot p hrt),
    h.msgs.back hs.ms hoth ?_ hq ?_ (hsrc (h.timers.slot p hrt))⟩
  · rw [hself]
    exact hipc
  · rw [hself]
    exact h.timers.pvt p
  · rw [hself]
  · rw [hself]
    exact hq

/-- The record of a MINIX process is rewritten, and it has no queue and no timer. -/
theorem IpcOk.minix (h : IpcOk O b x s) (htm : s'.tm = s.tm) (hms : s'.ms = s.ms)
    (hrt : (s.procs p).realtime = false) (hoth : ∀ i, i ≠ p → s'.procs i = s.procs i)
    (hst : (s'.procs p).st = .clear) (hrt' : (s'.procs p).realtime = false)
    (hpmq : (s.procs p).pmq = none → (s'.procs p).pmq = none)
    (hipc : (s.procs p).ipcvt = none → (s'.procs p).ipcvt = none)
    (hpvt : (s.procs p).pvt = none → (s'.procs p).pvt = none) : IpcOk O b x s' := by
  have hno : (s.procs p).ipcvt = none := by
    cases hw : (s.procs p).ipcvt with
    | none => rfl
    | some v =>
      rw [(h.timers.own p v hw).1] at hrt
      cases hrt
  have hnq : (s.procs p).pmq = none := by
    cases hw : (s.procs p).pmq with
    | none => rfl
    | some v =>
      rw [h.msgs.owner p v hw] at hrt
      cases hrt
  have hst0 := h.msgs.nrt p hrt
  refine ⟨h.timers.untimed htm (by rw [hms]) hno hoth (hipc hno) (hpvt (h.timers.pvt p))
    (fun hf => nomatch hrt'.symm.trans hf), h.msgs.same (.of_eq hms) (fun i => ?_) (fun i => ?_)
    (fun i => ?_) (fun i => ?_)
      (fun i hi => ?_)⟩
  all_goals by_cases hip : i = p
  · rw [hip, hnq, hpmq hnq]
  · rw [hoth i hip]
  · rw [hip, hrt, hrt']
  · rw [hoth i hip]
  · rw [hip, hno, hipc hno]
  · rw [hoth i hip]
  · rw [hip, hst, hst0]
    exact ⟨rfl, nofun⟩
  · rw [hoth i hip]
    exact ⟨rfl, fun _ => rfl⟩
  · rw [hip, hst]
  · rw [hoth i hip]
    exact h.msgs.nrt i hi

theorem IpcOk.procRst (h : IpcOk O b x s) (hrt : (s.procs p).realtime = false) :
    IpcOk O b x (s.procRst p) := by
  refine h.minix (p := p) rfl rfl hrt (fun i hi => ?_) ?_ ?_ ?_ ?_ ?_
  · simp [KState.procRst, updProc_ne _ _ hi]
  all_goals simp [KState.procRst]
  exact hrt

theorem IpcOk.writeAttr {a : PAttr} {k : Prty} (h : IpcOk O b x s)
    (hrt : (s.procs p).realtime = false) : IpcOk O b x (s.writeAttr p a k) := by
  refine h.minix (p := p) rfl rfl hrt (fun i hi => ?_) ?_ ?_ ?_ ?_ ?_
  · simp [KState.writeAttr, setPool, setPrio, updProc_ne _ _ hi]
  all_goals simp [KState.writeAttr, setPool, setPrio]
  exact hrt

/-! ## Timers that run -/

/-- A timer for an interrupt is allocated and started. -/
theorem IpcOk.irqTimer {per : BitVec 32} {irq : Int} {k : Prty} {o : Option VT}
    (h : IpcOk O b x s) (ha : s.vtalloc per 0 .irqtrig irq hardware k = some (o, s1))
    (hi : s1.insTimer o = some s') : IpcOk O b x s' := by
  obtain ⟨⟨o', t⟩, hal, he⟩ := map_eq_some_iff.mp ha
  cases he
  simp only [insTimer, bind_eq_bind, bind_eq_some_iff, some.injEq] at hi
  obtain ⟨w, rfl, t', hins, rfl⟩ := hi
  rcases moved_vtimerAlloc h.timers.tm hal with ⟨hn, -⟩ | ⟨i, hiw, hfree, hm⟩
  · cases hn
  cases hiw
  have hm' := hm.trans (moved_vtimerIns hm.wf hm.place_self hins)
  have hself := hm.self
  simp only [Timer.undelta, Timer.mk.injEq] at hself
  refine ⟨h.timers.irq (h.timers.not_own hfree) hm' (Fits.active rfl (fun i hi => ?_))
    (by simp) hself.2.2.2.2.2.1 hself.2.2.1 rfl rfl, h.msgs.same_procs (.of_eq rfl) rfl⟩
  refine (h.timers.tm.fits w).this i ?_
  rw [← hi]
  tauto

/-- The condition on the expired timer that a flush runs: its counter of expirations,
    which is never reset, is not about to wrap around, and an owner that still waits in
    a send has sent the entry 0 if the action is the one of `rtk_rqrcv`. -/
def RunsClean (s : KState) (w : VT) : Prop :=
  (s.tm.vt w).expired ≠ BitVec.allOnes 32 ∧
  ((s.tm.vt w).action = .sndrcv → ∀ p, (s.procs p).ipcvt = some w →
    (s.procs p).st.mbxSnd = true → (s.ms.hdr 0).mtype.Sync ∧ (s.ms.hdr 0).src = procNr p)

/-- The timer of `p` has run out, and `p` waits no more. -/
theorem IpcOk.timeout {t : Timer} (h : IpcOk O b x s) (hw : (s.procs p).ipcvt = some w)
    (hm : Moved s.tm s'.tm w none t) (hfit : Fits t w none) (hown : t.owner = (s.tm.vt w).owner)
    (hms : s'.ms = s.ms) (hp : s'.procs = update s.procs p r) (hr : SendKept s p r) :
    IpcOk O b x s' :=
  ⟨h.timers.move hw hm hfit hown (by simp) (by simp) (.of_update hp hr.framed)
    (.of_hdr _ (by rw [hms])) (fun ha => absurd rfl ha.1),
    h.msgs.sendKept hp hr hms (h.rt hw)⟩

/-- The same, with the entry that `p` has sent taken back. -/
theorem IpcOk.timeoutSend {t : Timer} {i : Int} (h : IpcOk O b none s)
    (hw : (s.procs p).ipcvt = some w)
    (hm : Moved s.tm s'.tm w none t) (hfit : Fits t w none) (hown : t.owner = (s.tm.vt w).owner)
    (hi : i = (k.val : Int)) (hk : (s.ms.hdr k).mtype.Sync) (hsrc : (s.ms.hdr k).src = procNr p)
    (hc : s1.cancelSend p i = some s2) (hp1 : s1.procs = s.procs) (hms1 : s1.ms = s.ms)
    (hms : s'.ms = s2.ms) (hp : s'.procs = update s.procs p r)
    (hf : frame r = frame (s.procs p)) (hsnd : r.st.mbxSnd = false) : IpcOk O b none s' := by
  have hr : Restat p s s' := .of_update hp hf
  obtain ⟨k', d, q, m, hk', hd, hq, hrm, hfr, -⟩ := cancelSend_inv hc
  cases Fin.ext (Int.natCast_inj.mp (hi.symm.trans (tabAddr_eq_some.mp hk')))
  rw [hp1] at hd hq
  rw [hms1] at hrm
  -- the entry is in the queue of the process that `p` waits for
  obtain ⟨p', d', h1, h2, h3⟩ := h.msgs.sync k hk
  rw [hsrc, procNr_inj] at h1
  subst h1
  obtain ⟨-, hto⟩ := h3.resolve_left (by simp)
  rw [hd] at hto
  cases hto
  have hne : (s.ms.hdr k).mtype ≠ .mbfree := by
    intro hf
    rw [hf] at hk
    revert hk
    decide
  obtain ⟨l, -, hpl⟩ := h.msgs.place hne h2 hq
  have hdr : Dropped s s' k := h.msgs.dropped_free hpl hrm hfr hms
  refine ⟨h.timers.move hw hm hfit hown (by simp) (by simp) hr (fun j i hj _ hij => ?_)
    (fun ha => absurd rfl ha.1), h.msgs.drop hdr hr (fun _ => ⟨hsrc, .inr ?_⟩)
    (fun hn => absurd hk hn) (h.rt hw)⟩
  · refine hdr.other i ?_
    rintro rfl
    rw [hsrc, procNr_inj] at hij
    exact hj hij.symm
  · rw [hp, update_self, hsnd]

/-- A timer of nobody's IPC runs for an interrupt. -/
theorem TimersOwned.irq_own (h : TimersOwned O b s) (ho : (s.tm.vt w).owner = hardware) (p : Proc) :
    (s.procs p).ipcvt ≠ some w := by
  intro hw
  obtain ⟨hrt, hown, -⟩ := h.own p w hw
  rw [ho] at hown
  exact h.slot p hrt (procNr_inj.mp (hown.symm.trans (by decide)))

/-- A wait lasts for one expiration, unless the counter wraps around. -/
theorem lastExpiration {lim : BitVec 32} (hl : lim = 1) (hn : n ≠ BitVec.allOnes 32) :
    ¬ (n + 1 < lim ∨ lim = 0) := by
  subst hl
  rintro (h | h)
  · refine hn ?_
    rw [show BitVec.allOnes 32 = 0xffffffff#32 from rfl]
    bv_omega
  · exact absurd h (by decide)

/-- **ONE TURN OF THE FLUSH LOOP** keeps the invariant. -/
theorem IpcOk.expire {k : Prty} (h : IpcOk O false none s) (hpl : s.tm.place w = some (.exp k))
    (hthis : (s.tm.vt w).this = some w) (hok : RunsClean s w)
    (hr : s.vtimerRun v w = some s') : IpcOk O false none s' := by
  obtain ⟨s1, tm, t, rfl, hre, rfl, hcase⟩ := h.timers.expire_inv hpl hthis hr
  have hrun := moved_run h.timers.tm hpl hre
  have hfit := hpl ▸ h.timers.tm.fits w
  rcases hcase with ⟨rfl, hown, hact⟩ | ⟨p, hw, hto⟩
  · have hmsgs : MsgOk none { s with tm := t } := h.msgs.same_procs (.of_eq rfl) rfl
    rcases hrun with ⟨hm, -⟩ | ⟨hm, -⟩
    · exact ⟨h.timers.irq (h.timers.irq_own hown) hm (hfit.ran rfl rfl) (by simp) hown hact
        rfl rfl, hmsgs⟩
    · exact ⟨h.timers.irq (h.timers.irq_own hown) hm (Fits.active rfl hfit.this) (by simp) hown
        hact rfl rfl, hmsgs⟩
  · have hb := h.timers.blocks hw (by rw [hpl]; exact ⟨by simp, by simp⟩)
    have hp : procAddr (s.tm.vt w).owner = some p := by
      rw [(h.timers.own p w hw).2.1, procAddr_procNr]
    have hm := (hrun.resolve_right (fun hc => lastExpiration hb.1 hok.1 hc.2)).1
    cases hto with
    | sndto ha _ hv =>
      have ha : (s.tm.vt w).action = .sndto := ha
      obtain ⟨p', s2, hp', hc, -, hms, hpr⟩ := actSndto_core hv
      cases hp.symm.trans hp'
      simp only [Blocks, ha] at hb
      obtain ⟨-, -, k, hpar, hreq, hsrc⟩ := hb
      exact h.timeoutSend hw hm (hfit.ran rfl rfl) rfl hpar (.inl hreq) hsrc hc rfl rfl hms
        hpr rfl rfl
    | rcvfr _ _ hv =>
      obtain ⟨p', hp', -, hms, hpr⟩ := actRcvfr_core hv
      cases hp.symm.trans hp'
      exact h.timeout hw hm (hfit.ran rfl rfl) rfl hms hpr ⟨rfl, rfl, rfl⟩
    | sndrcv ha _ hv =>
      have ha : (s.tm.vt w).action = .sndrcv := ha
      obtain ⟨p', hp', -, hcase⟩ := actSndrcv_core hv
      cases hp.symm.trans hp'
      simp only [Blocks, ha] at hb
      rcases hcase with ⟨hs, s2, hc, hms, hpr⟩ | ⟨hs, hms, hpr⟩
      · obtain ⟨hsync, hsrc⟩ := hok.2 ha p hw hs
        exact h.timeoutSend hw hm (hfit.ran rfl rfl) rfl hb.2.2 hsync hsrc hc rfl rfl hms hpr
          rfl rfl
      · exact h.timeout hw hm (hfit.ran rfl rfl) rfl hms hpr ⟨rfl, rfl, rfl⟩
    | down _ _ _ _ hv =>
      obtain ⟨p', hp', -, hms, hpr⟩ := actDown_core hv
      cases hp.symm.trans hp'
      exact h.timeout hw hm (hfit.ran rfl rfl) rfl hms hpr ⟨rfl, rfl, rfl⟩

/-! ## Every move -/

/-- The watchdog of a process is of no interest here. -/
theorem IpcOk.watch (h : IpcOk O b x s) (p : Proc) (n : Int) :
    IpcOk O b x (s.updProc p (fun r => { r with watchdog := n })) := by
  have hr : ∀ i, ∃ n', (s.updProc p (fun r => { r with watchdog := n })).procs i =
      { s.procs i with watchdog := n' } := by
    intro i
    by_cases hi : i = p
    · exact ⟨n, by rw [hi]; exact updProc_self _ _ _⟩
    · exact ⟨_, updProc_ne _ _ hi⟩
  refine ⟨h.timers.same rfl (fun i => ?_) (fun i => ?_) (fun i hi => ?_) (fun i v hi => ?_)
    (fun i v hi _ hb => ?_), h.msgs.same (.of_eq rfl) (fun i => ?_) (fun i => ?_)
    (fun i => ?_) (fun i => ?_) (fun i hi => ?_)⟩
  all_goals obtain ⟨n', hn⟩ := hr i
  · rw [hn]
  · rw [hn]
    exact h.timers.pvt i
  · rw [hn] at hi
    exact h.timers.slot i hi
  · rw [hn]
    exact (h.timers.own i v hi).1
  · rw [hn]
    exact hb
  · rw [hn]
  · rw [hn]
  · rw [hn]
  · rw [hn]
    exact ⟨rfl, fun _ => rfl⟩
  · rw [hn]
    exact h.msgs.nrt i hi

theorem Leaves.call (h : Leaves e s p) : e.isCall = true := by
  cases e with
  | rtk _ _ _ | task _ _ => rfl
  | ksend _ _ _ _ _ _ | inherit _ _ | disinherit _ _ | irqTimer _ _ _ | tick | flush _ _ _ =>
    exact h.elim

/-- The timer that a flush of the list `k` runs, its first one, is clean. -/
def FlushClean (s : KState) : Event → Prop
  | .flush _ _ k => ∀ w ∈ (s.tm.q.hdr (.exp k)).first, RunsClean s w
  | .rtk _ _ _ | .task _ _ | .ksend _ _ _ _ _ _ | .inherit _ _ | .disinherit _ _
  | .irqTimer _ _ _ | .tick => True

/-- The condition on an event: the copies succeed, a call finds no expired IPC timer,
    and the timer that a flush runs is clean. -/
structure Quiet (s : KState) (e : Event) : Prop where
  copies : e.Copies
  calm : e.isCall = true → NoExpired s
  clean : FlushClean s e

instance (s : KState) : Decidable (NoExpired s) :=
  inferInstanceAs (Decidable (∀ p v, (s.procs p).ipcvt = some v →
    ∀ k, s.tm.place v ≠ some (.exp k)))

instance (s : KState) (w : VT) : Decidable (RunsClean s w) :=
  inferInstanceAs (Decidable ((s.tm.vt w).expired ≠ BitVec.allOnes 32 ∧
    ((s.tm.vt w).action = .sndrcv → ∀ p, (s.procs p).ipcvt = some w →
      (s.procs p).st.mbxSnd = true → (s.ms.hdr 0).mtype.Sync ∧ (s.ms.hdr 0).src = procNr p)))

instance (s : KState) (e : Event) : Decidable (FlushClean s e) := by
  induction e using Event.casesOn <;> unfold FlushClean <;> infer_instance

instance (s : KState) (e : Event) : Decidable (Quiet s e) :=
  decidable_of_iff (e.Copies ∧ (e.isCall = true → NoExpired s) ∧ FlushClean s e)
    ⟨fun h => ⟨h.1, h.2.1, h.2.2⟩, fun h => ⟨h.copies, h.calm, h.clean⟩⟩

/-- **EVERY MOVE KEEPS THE IPC INVARIANT.** -/
theorem Move.ipcOk {x' : Option Proc} (hm : Move e (x, s) (x', s')) (h : IpcOk O e.isCall x s)
    (hq : Quiet s e) : IpcOk O e.isCall x' s' := by
  cases hm with
  | book hb => exact h.same hb.procs hb.tm hb.msgs
  | watch p w => exact h.watch p w
  | inherit _ hi => exact h.sched (inherit_only hi).toSchedOnly
  | disinherit _ hd => exact h.sched (disinherit_only hd).toSchedOnly
  | deliver he _ _ _ hu =>
    rw [he] at h ⊢
    exact h.deliver hu
  | queue _ hpq ht hf _ _ _ hn he => exact h.queue hpq ht hf hn he
  | lose hl _ => exact absurd hq.copies hl
  | send hrun _ _ hpq _ hn he ha => exact h.send hrun hpq hn he ha
  | sendRecv hrun _ _ _ hpq _ hn he hs hb => exact h.sendRecv hrun hpq hn he hs hb
  | recvReply hrun _ _ _ hs hb => exact h.recvReply hrun hs hb
  | recv hrun _ _ _ hb => exact h.recv hrun hb
  | take _ he hpq hk hsrc hr hd =>
    subst he
    exact IpcOk.take h hpq hk hsrc hr hd
  | sleep hrun hs => exact h.sleep hrun hs
  | stop he _ hs =>
    rw [he] at h ⊢
    obtain ⟨w, t, hw, ht, rfl⟩ := stopTimer_inv hs
    exact h.stop hw ht rfl (update_eq_self _ _).symm ⟨rfl, rfl, rfl⟩
  | wake he _ hs _ hr =>
    rw [he] at h ⊢
    exact h.wake hs hr
  | semup _ he _ hs =>
    subst he
    exact IpcOk.semup h hs
  | semdown hrun _ _ hs => exact h.semdown hrun hs
  | unlock he _ hs =>
    rw [he] at h ⊢
    exact h.semup hs
  | release he _ _ _ hr hst hs =>
    rw [he] at h ⊢
    exact h.release hr hst hs
  | semalloc _ _ _ hs =>
    have ho := semalloc_only hs
    exact h.same ho.procs ho.tm (.of_eq ho.ms)
  | semFree _ _ hs =>
    have ho := semFree_only hs
    exact h.same ho.procs ho.tm (.of_eq ho.ms)
  | set2rt _ hhw hs => exact h.set2rt hhw hs
  | leave hl hrt hs =>
    rw [hl.call] at h ⊢
    exact h.leave hrt hs
  | dropQueue hs => exact h.dropQueue hs
  | sweep hsrc hdst hpq hs => exact h.sweep hsrc hdst hpq hs
  | back hpq hsrc => exact h.back hpq hsrc
  | procRst _ hrt _ => exact h.procRst hrt
  | writeAttr _ hrt => exact h.writeAttr hrt
  | irqTimer ha hi => exact h.irqTimer ha hi
  | tick he ht =>
    subst he
    exact ⟨h.timers.tick ht, h.msgs.same_procs (.of_eq rfl) rfl⟩
  | @expire _ _ p v k plk w he hf hthis hs =>
    subst he
    have hpl := h.timers.tm.placed.of_first hf
    obtain rfl := (h.timers.tm.fits plk).this w hthis
    exact IpcOk.expire h hpl hthis (hq.clean _ hf) hs

/-! ## The initial states -/

theorem mem_done {n : Nat} (x : Fin n) : x ∈ (List.finRange n).reverse ++ [] := by simp

theorem nodup_done (n : Nat) : ((List.finRange n).reverse ++ []).Nodup := by
  rw [List.append_nil, List.nodup_reverse]
  exact List.nodup_finRange n

/-- `MRT_msgQ_init` puts every queue descriptor into the free list. -/
theorem msgQInit {m : MsgSt}
    (h : (List.finRange 16).foldlM (fun m q => m.msgQFree q) MsgSt.bss = some m) :
    m.pool.Placed (fun _ => none) ∧ m.free.Placed (fun _ => some (.plain ())) ∧
      m.hdr = fun _ => Hdr.rst := by
  have hall := foldlM_invariant (I := fun done m => m.pool.Placed (fun _ => none) ∧
      m.free.Placed (fun q => if q ∈ done then some (.plain ()) else none) ∧
      m.hdr = fun _ => Hdr.rst) ?_ (nodup_done 16)
      ⟨Pool.placed_empty, Pool.placed_empty, rfl⟩ h
  · simpa [mem_done] using hall
  · rintro done q m m' hq ⟨hp, hf, hh⟩ hm
    obtain ⟨P, hP, rfl⟩ := map_eq_some_iff.mp hm
    have hnone : (if q ∈ done then some (Slot.plain ()) else none :
        Option (Slot Unit Empty 16)) = none := if_neg hq
    refine ⟨hp.prst q, (hf.rstLink (x := q) hnone |>.of_app hnone hP).congr (fun i => ?_), hh⟩
    by_cases hi : i = q
    · simp [hi]
    · simp [hi]

/-- `MRT_mpool_init` puts every entry into the free list. -/
theorem msgInit {m : MsgSt} (h : MsgSt.init = some m) :
    m.pool.Placed (fun _ => some (.plain ())) ∧ m.free.Placed (fun _ => some (.plain ())) ∧
      m.hdr = fun _ => Hdr.rst := by
  simp only [MsgSt.init, bind_eq_bind, bind_eq_some_iff] at h
  obtain ⟨m1, h1, h2⟩ := h
  obtain ⟨hp, hf, hh⟩ := msgQInit h1
  have hall := foldlM_invariant (I := fun done (m : MsgSt) =>
      m.pool.Placed (fun k => if k ∈ done then some (.plain ()) else none) ∧
      m.free = m1.free ∧ m.hdr = fun _ => Hdr.rst) ?_ (nodup_done 32)
      ⟨hp, rfl, hh⟩ h2
  · obtain ⟨hp', hf', hh'⟩ := hall
    refine ⟨by simpa [mem_done] using hp', hf' ▸ hf, hh'⟩
  · rintro done k m m' hk ⟨hp, hf, hh⟩ hm
    obtain ⟨P, hP, rfl⟩ := map_eq_some_iff.mp hm
    have hnone : (if k ∈ done then some (Slot.plain ()) else none :
        Option (Slot Unit MsgQ 16)) = none := if_neg hk
    refine ⟨(hp.rstLink (x := k) hnone |>.of_app hnone hP).congr (fun i => ?_), hf, ?_⟩
    · by_cases hi : i = k
      · simp [hi]
      · simp [hi]
    · show update m.hdr k Hdr.rst = _
      rw [hh, update_eq_self_iff]

/-- **THE INVARIANT HOLDS WHEN RT MODE IS STARTED.** -/
theorem Initial.ipcOk (h : Initial s) : IpcOk (fun _ => False) false none s := by
  obtain ⟨htm, hfree⟩ := vtimerInit_free h.tm
  obtain ⟨hpool, hqs, hhdr⟩ := msgInit h.ms
  have hrst : ∀ k, s.ms.hdr k = Hdr.rst := fun k => by rw [hhdr]
  have hpmq : ∀ p, (s.procs p).pmq = none := fun p => (h.procs p).2.2.2.2.2.1
  have hst : ∀ p, (s.procs p).st = .clear := fun p => (h.procs p).2.1
  have hasync : ∀ k, ¬ (s.ms.hdr k).mtype.Sync := by
    intro k
    rw [hrst]
    decide
  refine ⟨⟨nofun, htm, fun p v hp => ?_, fun p hp => ?_, fun p => ?_,
    fun v hv => ?_, fun _ ho => ho.elim⟩, ⟨?_, fun k hk => ?_, fun k _ => ?_, ?_,
    fun p q hp => ?_, fun p p' q hp _ => ?_, fun k hk => ?_, fun k k' hk => ?_, fun p _ hp => ?_,
    fun p _ => hst p, (fun r hr => nomatch hr)⟩⟩
  · rw [(h.procs p).2.2.2.2.2.2.2.1] at hp
    cases hp
  · rw [(h.procs p).1] at hp
    cases hp
  · exact (h.procs p).2.2.2.2.2.2.1
  · exact absurd (hfree v) hv.2
  · refine hpool.congr (fun k => ?_)
    rw [entryPlace, hrst]
    rfl
  · rw [hrst] at hk
    exact absurd rfl hk
  · rw [hrst]
    rfl
  · refine hqs.congr (fun q => if_neg ?_)
    rintro ⟨p, hp⟩
    rw [hpmq] at hp
    cases hp
  · rw [hpmq] at hp
    cases hp
  · rw [hpmq] at hp
    cases hp
  · exact absurd hk (hasync k)
  · exact absurd hk (hasync k)
  · rw [hst] at hp
    cases hp

/-! ## Every run -/

/-- The flag of the invariant says no more than `NoExpired`. -/
theorem IpcOk.calm {b' : Bool} (h : IpcOk O b' x s) (hc : b = true → NoExpired s) : IpcOk O b x s :=
  ⟨⟨hc, h.timers.tm, h.timers.own, h.timers.slot, h.timers.pvt, h.timers.armed,
    h.timers.old⟩, h.msgs⟩

/-- The condition does not look at who runs. -/
theorem Quiet.of_eq (h : Quiet s e) (hp : s'.procs = s.procs) (htm : s'.tm = s.tm)
    (hms : s'.ms = s.ms) : Quiet s' e := by
  obtain ⟨h1, h2, h3⟩ := h
  refine ⟨h1, fun hc => ?_, ?_⟩
  · rw [NoExpired, hp, htm]
    exact h2 hc
  · cases e <;> simp only [FlushClean, RunsClean, hp, htm, hms] at h3 ⊢
    exact h3

theorem Enters.sched {s0 : KState} (h : Enters e s s0) : SchedOnly s s0 := by
  unfold Enters at h
  split at h
  · subst h
    exact .refl _
  · obtain ⟨-, rfl⟩ := h
    exact ⟨rfl, rfl, rfl, rfl, rfl⟩

/-- The condition goes on holding along the moves of an event. -/
theorem Move.quiet {x' : Option Proc} (hm : Move e (x, s) (x', s')) (h : IpcOk O false x s)
    (hq : Quiet s e) (hf : e.isFlush = false) : Quiet s' e := by
  refine ⟨hq.copies, (hm.ipcOk (h.calm hq.calm) hq).timers.calm, ?_⟩
  cases e with
  | flush _ _ _ => cases hf
  | rtk _ _ _ | task _ _ | ksend _ _ _ _ _ _ | inherit _ _ | disinherit _ _ | irqTimer _ _ _
  | tick => trivial

/-- **THE RULE FOR QUIET RUNS.**  The IPC invariant is kept, and so is whatever scheduling
    leaves alone and the moves keep where the invariant holds. -/
theorem ReachBy.ipcOk_and {s₀ : KState} {J : Option Proc → KState → Prop}
    (h0 : IpcOk O false none s₀ ∧ J none s₀)
    (hsched : ∀ {s s'}, SchedOnly s s' → J none s → J none s')
    (hmove : ∀ {e x s x' s'}, Move e (x, s) (x', s') → IpcOk O e.isCall x s → Quiet s e →
      J x s → J x' s')
    (h : ReachBy Quiet s₀ s) : IpcOk O false none s ∧ J none s := by
  refine ReachBy.invariant (I := fun x s => IpcOk O false x s ∧ J x s)
    (C := fun e s => Quiet s e) h0 (fun hi hok he => ?_) (fun hm hi hc => ?_)
    (fun hm hi hc hf => hm.quiet hi.1 hc hf) (fun hi hp => ?_) h
  · have hs := he.sched
    exact ⟨⟨hi.1.sched hs, hsched hs hi.2⟩, hok.of_eq hs.procs hs.tm hs.ms⟩
  · have hcalm := hi.1.calm hc.calm
    exact ⟨(hm.ipcOk hcalm hc).calm nofun, hmove hm hcalm hc hi.2⟩
  · have hs := (pickProc_only hp).1.toSchedOnly
    exact ⟨hi.1.sched hs, hsched hs hi.2⟩

/-- **THE IPC INVARIANT IS KEPT ALONG EVERY RUN** whose events meet the condition. -/
theorem ReachBy.ipcOk_from {s₀ : KState} (h0 : IpcOk O false none s₀) (h : ReachBy Quiet s₀ s) :
    IpcOk O false none s :=
  (h.ipcOk_and (J := fun _ _ => True) ⟨h0, trivial⟩ (fun _ => id) (fun _ _ _ => id)).1

/-- So it holds in every state reached from an initial one. -/
theorem ReachBy.ipcOk {s₀ : KState} (h0 : Initial s₀) (h : ReachBy Quiet s₀ s) :
    IpcOk (fun _ => False) false none s :=
  h.ipcOk_from h0.ipcOk

end Kernel
