import Minix4rt.MessageConservationProofs
import Minix4rt.SendErrorProofs

/-! # Selective receive — who may complete the receive of a process

    A process that names a source in `rtk_receive` or `rtk_rqrcv` is to get a message of
    that source and of nobody else, and its buffers are to be written only by the send
    that completes its receive.

    The kernel keeps ONE pointer, `pfrom`, for this: the process named, or the receiver
    itself for a receive from any process.  So a receive from the own number cannot be
    told from a receive from anybody.  `MRT_ksend` compares `pfrom` with the CURRENT
    process, not with the source that it puts in the header, and it writes the header
    buffer of a process that does not wait at all. -/

namespace Kernel

open ListPool Vtimer KState Function Option

variable {e : Event} {x x' : Option Proc} {s s' s1 s₀ t t' : KState} {p d : Proc} {v : Env}

/-! ## The source that a receive names -/

/-- The number that each process has named in its last receive. -/
abbrev Named := Proc → Int

/-- `rtk_receive` and `rtk_rqrcv` name a source. -/
def Named.note (n : Named) : Event → Named
  | .rtk p _ (.receive ipc) => update n p ipc.pNr
  | .rtk p _ (.rqrcv ipc) => update n p ipc.pNr
  | _ => n

/-- The pointer `pfrom` for the number that `p` has named. -/
def Named.addr (n : Named) (p : Proc) : Option Proc :=
  if n p = anyProc then some p else procAddr (n p)

/-- The states of all runs from `s₀`, with the sources named on the way. -/
inductive ReachNamed (s₀ : KState) : KState → Named → Prop where
  | init : ReachNamed s₀ s₀ (fun _ => anyProc)
  | step {s s' : KState} {n : Named} {e : Event} :
      ReachNamed s₀ s n → s.step e = some s' → ReachNamed s₀ s' (n.note e)

/-- A run that keeps the named sources. -/
def KState.runNamed : KState → Named → List Event → Option (KState × Named)
  | s, n, [] => some (s, n)
  | s, n, e :: es => (s.step e).bind (fun s => s.runNamed (n.note e) es)

theorem ReachNamed.of_runNamed : ∀ {es : List Event} {s : KState} {m : Named},
    ReachNamed s₀ s m → s.runNamed m es = some (s', n) → ReachNamed s₀ s' n := by
  intro es
  induction es with
  | nil =>
    intro s m h hr
    cases hr
    exact h
  | cons e es ih =>
    intro s m h hr
    obtain ⟨s1, h1, h2⟩ := bind_eq_some_iff.mp hr
    exact ih (h.step h1) h2

/-! ## What a send writes -/

/-- A buffer of a receiver: `pmsg`, or `pmhdr` with the header that is written there. -/
inductive Buffer where
  | msg
  | hdr (h : Hdr)
deriving DecidableEq, Repr

/-- A copy into a receive buffer of the process `proc`. -/
structure Copy where
  proc : Proc
  buf : Buffer
deriving DecidableEq, Repr

/-- A call of one of the six sends, made by the current process, or of `MRT_ksend`. -/
inductive SendReq where
  | user (c : SendCall) (ipc : Ipc)
  | kernel (src dest : Int) (prty : Nat) (t : MType)
deriving DecidableEq, Repr

/-- The header of a message of the current process for `d`. -/
def SendCall.hdr (s : KState) (ipc : Ipc) (d : Proc) : SendCall → Hdr
  | .rqst => s.mkHdr s.cur d .request (s.rq.prio s.cur).val (s.procs s.cur).deadline
  | .arqst => s.mkHdr s.cur d .arequest (s.rq.prio s.cur).val (s.procs s.cur).deadline
  | .uprqst => s.mkHdr s.cur d .uprqst (lowByte ipc.priority) 0
  | .sign => s.mkHdr s.cur d .signal (s.rq.prio d).val (s.procs d).deadline
  | .reply => s.mkHdr s.cur d .reply (s.rq.prio s.cur).val (s.procs s.cur).deadline
  | .rqrcv => s.mkHdr s.cur d .rqrcv (s.rq.prio s.cur).val (s.procs s.cur).deadline

namespace SendReq

def exec (v : Env) (s : KState) : SendReq → Option (KState × Code)
  | .user c ipc => c.exec v s ipc
  | .kernel src dest prty t => s.ksend v src dest prty t

/-- The destination, if it passes the checks. -/
def dest (s : KState) : SendReq → Option Proc
  | .user c ipc =>
    if c = .rqrcv ∧ ipc.timeout = noWait then none
    else match s.destCheck ipc.pNr (some ipc.pid) with
      | some (.ok (d, _)) => some d
      | _ => none
  | .kernel _ dest _ _ =>
    match s.destCheck dest none with
    | some (.ok (d, _)) => some d
    | _ => none

/-- The copies into the buffers of the destination.  `USR2USR` comes first and copies the
    message when the address of the sender is good; then `KRN2USR` copies the header.
    `MRT_ksend` copies the header only, also for a destination that does not wait. -/
def copies (v : Env) (s : KState) (r : SendReq) : List Copy :=
  match r.dest s with
  | none => []
  | some d =>
    match r with
    | .user c ipc =>
      if s.waiting d c.any ∧ v.msg s.cur then
        ⟨d, .msg⟩ :: (if v.hdr d then [⟨d, .hdr (c.hdr s ipc d)⟩] else [])
      else []
    | .kernel src _ prty t =>
      match procAddr src with
      | none => []
      | some sp =>
        if v.hdr d ∧ (s.waiting d true ∨ s.ms.pool.first () ≠ none) then
          [⟨d, .hdr (s.mkHdr sp d t prty 0)⟩]
        else []

end SendReq

/-- A copy is right if it belongs to the completion of the receive of its process, and the
    header is of the source that this receive has named. -/
structure Copy.Right (n : Named) (t t' : KState) (c : Copy) : Prop where
  pending : (t.procs c.proc).st.mbxRcv = true
  completed : (t'.procs c.proc).st.mbxRcv = false
  source : ∀ h, c.buf = .hdr h → n c.proc ≠ anyProc → h.src = n c.proc

/-- The condition: the destination of a hand-over has not named itself, and its header
    buffer is writable if the message can be copied.  `MRT_ksend` names the current process
    as the source if the destination waits for it, and it has nothing to write for a
    destination that does not wait. -/
def SendReq.Fit (v : Env) (t : KState) (n : Named) (r : SendReq) : Prop :=
  match r with
  | .user c _ => ∀ d, r.dest t = some d → t.waiting d c.any = true → v.msg t.cur = true →
      v.hdr d = true ∧ n d ≠ procNr d
  | .kernel src _ _ _ => ∀ d, r.dest t = some d → v.hdr d = true →
      if t.waiting d true = true then
        (n d = procNr t.cur → src = procNr t.cur) ∧ (n d = procNr d → src = procNr d)
      else t.ms.pool.first () = none

instance (v : Env) (t : KState) (n : Named) : (r : SendReq) → Decidable (r.Fit v t n)
  | .user _ _ => inferInstanceAs (Decidable (∀ _, _))
  | .kernel _ _ _ _ => inferInstanceAs (Decidable (∀ _, _))

/-- The sources in the headers that a send writes for `d`. -/
def SendReq.sources (v : Env) (s : KState) (d : Proc) (r : SendReq) : List Int :=
  (r.copies v s).filterMap (fun c =>
    match c.buf with
    | .msg => none
    | .hdr h => if c.proc = d then some h.src else none)

/-! ## The sends of an event -/

/-- A send with the state in which it is called. -/
abbrev CallAt := KState × Env × SendReq

namespace KState

/-- The sends of `MRT_wakeup`. -/
def wakeupCalls (v : Env) (s : KState) (rp : Proc) : List CallAt :=
  match s.stopTimer (s.procs rp).ipcvt with
  | none => []
  | some s =>
    if ¬ (s.procs rp).st.sleep ∧ (s.procs rp).watchdog ≠ hardware then
      [(s, v, .kernel (procNr s.cur) (s.procs rp).watchdog (s.rq.prio rp).val .krndline)]
    else []

/-- The notice to the watchdog of `rp`. -/
def tellWatchdogCalls (v : Env) (s : KState) (rp : Proc) : List CallAt :=
  let wd := (s.procs rp).watchdog
  if wd ≠ hardware ∧ (procAddr wd).any (fun rtp => (s.procs rtp).realtime) then
    [(s, v, .kernel (procNr rp) wd (s.rq.prio rp).val .krnproc)]
  else []

/-- The notices to the processes whose watchdog was `rp`. -/
def tellWatchedCalls (v : Env) (rp : Proc) : List Proc → KState → List CallAt
  | [], _ => []
  | rtp :: rtps, s =>
    if procNr rp = (s.procs rtp).watchdog ∧ (s.procs rtp).realtime then
      let s := s.updProc rtp (fun r => { r with watchdog := hardware })
      (s, v, .kernel (procNr rp) (procNr rtp) (s.rq.prio rtp).val .krnwdog) ::
        (match s.ksend v (procNr rp) (procNr rtp) (s.rq.prio rtp).val .krnwdog with
          | none => []
          | some r => tellWatchedCalls v rp rtps r.1)
    else tellWatchedCalls v rp rtps s

/-- The sends of `MRT_set2nrt`. -/
def set2nrtCalls (v : Env) (s : KState) (rp : Proc) : List CallAt :=
  if ¬ (s.procs rp).realtime then []
  else match (if s.rtReady rp then s.rdyQRmv rp else s).dropTimers rp with
    | none => []
    | some s =>
      s.tellWatchdogCalls v rp ++ (match s.tellWatchdog v rp with
        | none => []
        | some s => tellWatchedCalls v rp ((List.finRange 43).take 32) s)

/-- The sends of a call of the current process. -/
def rtkCalls (v : Env) (s : KState) : Call → List CallAt
  | .rqst ipc => [(s, v, .user .rqst ipc)]
  | .arqst ipc => [(s, v, .user .arqst ipc)]
  | .uprqst ipc => [(s, v, .user .uprqst ipc)]
  | .sign ipc => [(s, v, .user .sign ipc)]
  | .reply ipc => [(s, v, .user .reply ipc)]
  | .rqrcv ipc => [(s, v, .user .rqrcv ipc)]
  | .wakeup nr pid =>
    match procAddr nr with
    | none => []
    | some rp =>
      if s.isProcess rp ∧ (s.procs rp).pid = pid ∧ (s.procs rp).realtime then
        s.wakeupCalls v rp
      else []
  | .set2nrt => s.set2nrtCalls v s.cur
  | .set2rt | .sleep _ | .receive _ | .semup _ | .semdown _ _ => []

/-- The sends of a request to `MRTTASK`. -/
def taskCalls (v : Env) (s : KState) : Request → List CallAt
  | .exit caller =>
    if s.rtMode ∧ (s.pid2pptr caller).any (fun c => (s.procs c).realtime) then
      match procAddr caller with
      | none => []
      | some rp => s.set2nrtCalls v rp
    else []
  | .stdsignal caller pid =>
    if s.rtMode ∧ (s.pid2pptr caller).any (fun c => !(s.procs c).realtime) then
      match s.pid2pptr pid with
      | none => []
      | some rp => s.set2nrtCalls v rp
    else []
  | .setpattr _ _ | .semalloc _ _ | .semfree _ _ => []

/-- The sends of a timer action. -/
def timerCalls (v : Env) (s : KState) (t : Timer) : List CallAt :=
  match t.action with
  | .sched =>
    if t.param = hardware then []
    else match procAddr t.param with
      | none => []
      | some rp => s.wakeupCalls v rp
  | .wakeup | .periodic =>
    match procAddr t.owner with
    | none => []
    | some rp => s.wakeupCalls v rp
  | .msgown =>
    match procAddr t.owner with
    | none => []
    | some rp => [(s, v, .kernel hardware t.owner (s.rq.prio rp).val .krntout)]
  | .msgwdog =>
    match procAddr t.owner with
    | none => []
    | some rp =>
      [(s, v, .kernel t.owner (s.procs rp).watchdog (s.rq.prio rp).val .krntout)]
  | _ => []

/-- The sends of an event, in their order. -/
def sendCalls (s : KState) : Event → List CallAt
  | .rtk p v c =>
    match s.enter p with
    | none => []
    | some s => if s.rtMode ∧ (s.procs s.cur).realtime then s.rtkCalls v c else []
  | .task v r =>
    match s.enter mrtTask with
    | none => []
    | some s => s.taskCalls v r
  | .ksend p v src dest prty t =>
    match s.enter p with
    | none => []
    | some s => [(s, v, .kernel src dest prty.val t.mtype)]
  | .flush p v prty =>
    match s.enter p with
    | none => []
    | some s =>
      match (s.tm.q.hdr (.exp prty)).first.bind (fun plk => (s.tm.vt plk).this) with
      | none => []
      | some vt =>
        let s := { s with tm := s.tm.upd vt (fun t => { t with timestamp := s.tm.ticks }) }
        s.timerCalls v (s.tm.vt vt)
  | .inherit _ _ | .disinherit _ _ | .irqTimer _ _ _ | .tick => []

end KState

/-! ## Waits in a receive -/

variable {n : Named} {r : Code} {q : MsgQ} {src dest : Int} {prty : Nat} {rp : Proc}
  {ipc : Ipc} {ty : MType} {any : Bool}

/-- No process begins to wait in a receive, and those that go on keep what they wait for. -/
def NoNewWait (s s' : KState) : Prop :=
  ∀ p, (s'.procs p).st.mbxRcv = true → (s.procs p).st.mbxRcv = true ∧
    (s'.procs p).pfrom = (s.procs p).pfrom ∧
    ((s.procs p).realtime = true → (s'.procs p).realtime = true)

theorem NoNewWait.trans {s'' : KState} (h : NoNewWait s s') (h' : NoNewWait s' s'') :
    NoNewWait s s'' := by
  intro p hp
  obtain ⟨h1, h2, h3⟩ := h' p hp
  obtain ⟨g1, g2, g3⟩ := h p h1
  exact ⟨g1, h2.trans g2, fun hr => h3 (g3 hr)⟩

theorem NoNewWait.of_procs (h : s'.procs = s.procs) : NoNewWait s s' := by
  intro p hp
  rw [h] at hp ⊢
  exact ⟨hp, rfl, id⟩

/-- One record changes, in a way that begins no wait. -/
theorem NoNewWait.of_update {r : RtProc} {a : Proc} (h : s'.procs = update s.procs a r)
    (hr : r.st.mbxRcv = true → (s.procs a).st.mbxRcv = true ∧ r.pfrom = (s.procs a).pfrom ∧
      ((s.procs a).realtime = true → r.realtime = true)) : NoNewWait s s' := by
  intro p hp
  by_cases hpa : p = a
  · subst hpa
    rw [h, update_self] at hp ⊢
    exact hr hp
  · rw [h, update_of_ne hpa] at hp ⊢
    exact ⟨hp, rfl, id⟩

/-- What the kernel knows of a process that waits in a receive. -/
def RcvOk (n : Named) (s : KState) : Prop :=
  ∀ p, (s.procs p).st.mbxRcv = true → (s.procs p).realtime = true ∧ (s.procs p).pfrom = n.addr p

theorem RcvOk.mono (h : RcvOk n s) (hn : NoNewWait s s') : RcvOk n s' := by
  intro p hp
  obtain ⟨h1, h2, h3⟩ := hn p hp
  exact ⟨h3 (h p h1).1, h2.trans (h p h1).2⟩

/-- The current process blocks in a receive from the number that it has named. -/
theorem RcvOk.block {r : RtProc} (h : RcvOk n s) (hp : s'.procs = update s.procs p r)
    (hrt : r.realtime = true) (hf : r.pfrom = n.addr p) : RcvOk n s' := by
  intro i hi
  by_cases hip : i = p
  · subst hip
    rw [hp, update_self]
    exact ⟨hrt, hf⟩
  · rw [hp, update_of_ne hip] at hi ⊢
    exact h i hi

/-! ## The functions that a timer action calls -/

theorem unblockReceiver_wait (h : s.unblockReceiver d = some s') : NoNewWait s s' :=
  .of_update (unblockReceiver_procs h).2 nofun

theorem inheritTo_procs {k : Int} (h : s.inheritTo q k d = some s') : s'.procs = s.procs := by
  rw [inheritTo] at h
  split at h
  · exact (inherit_only h).procs
  · cases h
    rfl

/-- What `MRT_ksend` does to the processes: it releases the one that waits, if any. -/
theorem ksend_procs {t : MType} (h : s.ksend v src dest prty t = some (s', r)) :
    s'.procs = s.procs ∨ ∃ d q, s.destCheck dest none = some (.ok (d, q)) ∧
      s.waiting d true = true ∧ v.hdr d = true ∧
      s'.procs = update s.procs d { s.procs d with
        pfrom := none, st := { (s.procs d).st with mbxRcv := false } } := by
  cases ksend_inv h with
  | refused hc | badHeader hsp hc hw hv | noEntry hsp hc hw hn => exact .inl rfl
  | direct hsp hc hw hv h1 h2 =>
    exact .inr ⟨_, _, hc, hw, hv, (inheritTo_procs h2).trans (unblockReceiver_procs h1).2⟩
  | lost hsp hc hw hn hv => exact .inl (newEntry_only hn).procs
  | queued hsp hc hw hn hv hq h2 =>
    exact .inl ((inheritTo_procs h2).trans (enqueued hn hq).procs)

/-- A destination that waits is released if its header buffer can be written. -/
theorem ksend_waiting {t : MType} (h : s.ksend v src dest prty t = some (s', r))
    (hc : s.destCheck dest none = some (.ok (d, q))) (hw : s.waiting d true = true)
    (hv : v.hdr d = true) : (s'.procs d).st.mbxRcv = false := by
  simp only [KState.ksend, hc, hw, hv, if_true, bind_eq_bind, bind_some, bind_eq_some_iff] at h
  obtain ⟨sp, -, s1, h1, h⟩ := h
  obtain ⟨s2, h2, he⟩ := map_eq_some_iff.mp h
  cases he
  rw [inheritTo_procs h2, (unblockReceiver_procs h1).2, update_self]

theorem ksend_wait {t : MType} (h : s.ksend v src dest prty t = some (s', r)) : NoNewWait s s' := by
  rcases ksend_procs h with hp | ⟨d, q, -, -, -, hp⟩
  · exact .of_procs hp
  · exact .of_update hp nofun

theorem stopTimer_wait {o : Option VT} (h : s.stopTimer o = some s') : NoNewWait s s' := by
  obtain ⟨w, t, -, -, rfl⟩ := stopTimer_inv h
  exact .of_procs rfl

theorem wakeFrom_wait (h : s.wakeFrom v rp = some s') : NoNewWait s s' := by
  obtain ⟨s1, s2, h1, hcase, hs'⟩ := wakeFrom_cases h
  refine (stopTimer_wait h1).trans ?_
  have h2 : NoNewWait s1 s2 := by
    cases hcase with
    | idle he =>
      subst he
      exact .of_procs rfl
    | tell h2 => exact ksend_wait h2
    | ready h2 => exact .of_update (readyIfClear_only h2).procs (fun hp => ⟨hp, rfl, id⟩)
  rcases hs' with rfl | rfl
  · exact h2
  · exact h2.trans (.of_procs rfl)

/-- No timer action makes a process wait in a receive. -/
theorem action_wait {t : Timer} {c : Bool} (h : ActCase v s t s' c) : NoNewWait s s' := by
  cases h with
  | idle _ => exact .of_procs rfl
  | wake _ h1 => exact wakeFrom_wait h1
  | tell _ h1 => exact ksend_wait h1
  | sndto _ h1 =>
    obtain ⟨p, s2, -, -, -, -, hp⟩ := actSndto_core h1
    exact .of_update hp (fun hr => ⟨hr, rfl, id⟩)
  | rcvfr _ h1 =>
    obtain ⟨p, -, -, -, hp⟩ := actRcvfr_core h1
    exact .of_update hp nofun
  | sndrcv _ h1 =>
    obtain ⟨p, -, -, ⟨-, s2, -, -, hp⟩ | ⟨-, -, hp⟩⟩ := actSndrcv_core h1
    all_goals exact .of_update hp nofun
  | stop _ h1 =>
    simp only [actStop, bind_eq_bind, bind_eq_some_iff, some.injEq] at h1
    obtain ⟨rp, -, rfl⟩ := h1
    split <;> exact .of_procs rfl
  | down _ h1 =>
    obtain ⟨p, -, -, -, hp⟩ := actDown_core h1
    exact .of_update hp (fun hr => ⟨hr, rfl, id⟩)

theorem vtimerRun_wait {w : VT} (h : s.vtimerRun v w = some s') : NoNewWait s s' := by
  obtain ⟨s1, c, ha, hs', -⟩ := vtimerRun_inv h
  have h1 := action_wait ha
  rw [hs']
  exact (NoNewWait.of_procs rfl).trans (h1.trans (.of_procs rfl))

/-! ## Runs -/

/-- The event is a receive, or a request that waits for its reply. -/
def Event.receives : Event → Bool
  | .rtk _ _ (.receive _) | .rtk _ _ (.rqrcv _) => true
  | _ => false

theorem Named.note_of_not_receives (h : e.receives = false) : n.note e = n := by
  unfold Named.note
  split
  · cases h
  · cases h
  · rfl

theorem leave_wait (h : (if s.rtReady rp then s.rdyQRmv rp else s).dropTimers rp = some s') :
    NoNewWait s s' :=
  .of_update (leave_only h).1 (fun hr => ⟨hr, rfl, id⟩)

theorem readyIfClear_wait (h : s.readyIfClear p = some s') : NoNewWait s s' :=
  .of_procs (readyIfClear_only h).procs

/-- **ONLY A RECEIVE MAKES A PROCESS WAIT IN A RECEIVE.** -/
theorem Move.noNewWait (hm : Move e (x, s) (x', s')) (he : e.receives = false) :
    NoNewWait s s' := by
  cases hm with
  | book hb => exact .of_procs hb.procs
  | watch a w => exact .of_update rfl (fun hr => ⟨hr, rfl, id⟩)
  | inherit _ hi => exact .of_procs (inherit_only hi).procs
  | disinherit _ hd => exact .of_procs (disinherit_only hd).procs
  | deliver _ _ _ _ hu => exact unblockReceiver_wait hu
  | queue _ _ _ _ _ _ _ hn he => exact .of_procs (enqueued hn he).procs
  | lose _ hn => exact .of_procs (newEntry_only hn).procs
  | send _ _ _ _ _ hn he ha =>
    exact .of_update (send_procs hn he ha) (fun hr => ⟨hr, rfl, id⟩)
  | sendRecv _ he' _ _ _ _ _ _ _ _ | recvReply _ he' _ _ _ _ | recv _ he' _ _ _
  | take _ he' _ _ _ _ _ =>
    subst he'
    cases he
  | sleep _ hs =>
    rcases sleep_inv hs with rfl | ⟨t, rfl, -⟩
    · exact .of_procs rfl
    · exact .of_update rfl (fun hr => ⟨hr, rfl, id⟩)
  | stop _ _ hs => exact stopTimer_wait hs
  | wake _ _ hs _ hr =>
    refine ((stopTimer_wait hs).trans ?_).trans (readyIfClear_wait hr)
    exact .of_update rfl (fun hr => ⟨hr, rfl, id⟩)
  | semup _ _ _ hs | unlock _ _ hs =>
    rcases semup_core hs with ⟨hp, -, -⟩ | ⟨rp, w, -, -, -, -, hp⟩
    · exact .of_procs hp
    · exact .of_update hp (fun hr => ⟨hr, rfl, id⟩)
  | semdown _ _ _ hs =>
    rcases semdown_core hs with ⟨hp, -, -⟩ | ⟨s1, -, -, -, hp⟩
    · exact .of_procs hp
    · exact .of_update hp (fun hr => ⟨hr, rfl, id⟩)
  | release _ _ _ _ h1 h2 h3 =>
    exact .of_update (release_only h1 h2 h3).1 (fun hr => ⟨hr, rfl, id⟩)
  | semalloc _ _ _ hs => exact .of_procs (semalloc_only hs).procs
  | semFree _ _ hs => exact .of_procs (semFree_only hs).procs
  | set2rt _ _ hs =>
    rcases rtkSet2rt_procs hs with rfl | ⟨q, w, hp⟩
    · exact .of_procs rfl
    · exact .of_update hp (fun hr => ⟨hr, rfl, fun _ => rfl⟩)
  | leave _ _ hs => exact leave_wait hs
  | dropQueue hs =>
    rcases dropQueue_inv hs with ⟨-, rfl⟩ | ⟨q, m, -, -, -, rfl⟩
    · exact .of_procs rfl
    · exact .of_update rfl (fun hr => ⟨hr, rfl, id⟩)
  | sweep _ _ _ hs => exact .of_procs (dropEntry_only hs).procs
  | @back _ rp _ _ =>
    have hst : NoNewWait s (s.updProc rp (fun r =>
        { r with st := .clear, periodic := false, realtime := false })) :=
      .of_update rfl (by rintro ⟨⟩)
    simp only [backToMinix]
    split
    · exact hst.trans (.of_procs (ready_only _ _).1.procs)
    · exact hst
  | @procRst _ rp _ _ _ _ _ => exact .of_update (a := rp) rfl (by rintro ⟨⟩)
  | @writeAttr _ c _ _ _ _ _ _ => exact .of_update (a := c) rfl (by rintro ⟨⟩)
  | irqTimer ha hi =>
    obtain ⟨t, rfl⟩ := irqTimer_only ha hi
    exact .of_procs rfl
  | tick _ _ => exact .of_procs rfl
  | expire _ _ _ hs => exact vtimerRun_wait hs

theorem Moves.noNewWait {a b : Option Proc × KState} (hm : Moves e a b)
    (he : e.receives = false) : NoNewWait a.2 b.2 := by
  induction hm with
  | refl => exact .of_procs rfl
  | tail _ hmv ih => exact ih.trans (hmv.noNewWait he)

/-- `rtk_receive` blocks its caller on the source that it names, or releases a sender. -/
theorem rtkReceive_rcvOk (h : RcvOk n s) (hrt : (s.procs s.cur).realtime = true)
    (hn : n s.cur = ipc.pNr) (hs : s.rtkReceive v ipc = some (s', r)) : RcvOk n s' := by
  simp only [rtkReceive, bind_eq_bind, bind_eq_some_iff] at hs
  obtain ⟨c, -, hs⟩ := hs
  split at hs
  · obtain ⟨q, hq, hs⟩ := bind_eq_some_iff.mp hs
    obtain ⟨o, ho, hs⟩ := bind_eq_some_iff.mp hs
    cases o with
    | none =>
      dsimp only at hs
      split at hs
      · cases hs
        exact h
      · obtain ⟨s1, h1, he⟩ := map_eq_some_iff.mp hs
        cases he
        obtain ⟨t, o, ho, rfl⟩ := blockReceive_only h1
        refine h.block (p := s.cur) rfl hrt ?_
        rw [ho, Named.addr, hn]
    | some k =>
      dsimp only at hs
      split at hs
      · simp only [bind_eq_some_iff, some.injEq, Prod.mk.injEq] at hs
        obtain ⟨src, -, s1, h1, s2, h2, rfl, -⟩ := hs
        have hrel : NoNewWait s s1 := by
          rcases releaseSender_cases h1 with ⟨-, -, w, -, -, -, hp⟩ | ⟨-, -, rfl⟩ | ⟨-, rfl⟩
          · exact .of_update hp (fun hr => ⟨hr, rfl, id⟩)
          · exact .of_update rfl (fun hr => ⟨hr, rfl, id⟩)
          · exact .of_procs rfl
        exact h.mono (hrel.trans (.of_procs (dropEntry_only h2).procs))
      · cases hs
        exact h
  · cases hs
    exact h

/-- `rtk_rqrcv` blocks its caller on the destination of the request. -/
theorem rtkRqrcv_rcvOk (h : RcvOk n s) (hr : Running s) (hn : n s.cur = ipc.pNr)
    (hs : s.rtkRqrcv v ipc = some (s', r)) : RcvOk n s' := by
  cases SendCall.exec_inv (c := .rqrcv) hs with
  | noWait _ _ | refused _ _ => exact h
  | refusedReply _ hc _ => cases hc
  | failed _ _ h1 =>
    rcases sendMsg_cases h1 with ⟨_, -, hb | ⟨-, k, hk⟩⟩ | ⟨hf, -⟩ | ⟨_, _, hf, -⟩
    · exact h.mono (.of_procs hb.procs)
    · exact h.mono (.of_procs (newEntry_only hk).procs)
    · cases hf
    · cases hf
  | @sent d q m s1 _ _ hc h1 hm hf =>
    obtain ⟨hd, -, -, -⟩ := destCheck_ok hc
    have haddr : n.addr s.cur = some d := by
      rw [Named.addr, hn, hd, if_neg]
      intro hany
      rw [hany] at hd
      cases hd
    rcases sendMsg_cases h1 with ⟨_, rfl, -⟩ | ⟨rfl, hw, s0, hb, hu⟩ | ⟨k, s0, rfl, -, hk, hq'⟩
    · exact absurd rfl (hm _)
    · obtain ⟨s2, h2, hf⟩ := bind_eq_some_iff.mp hf
      obtain ⟨s3, h3, h4⟩ := bind_eq_some_iff.mp hf
      obtain ⟨w, -, rfl⟩ := setIpcParam_inv h2
      have hcur : s1.cur = s.cur := (unblockReceiver_procs hu).1.trans hb.cur
      have h1' : RcvOk n s1 := (h.mono (.of_procs hb.procs)).mono (unblockReceiver_wait hu)
      have hrt : (s1.procs s1.cur).realtime = true := by
        rw [hcur, unblockReceiver_rt hu, hb.procs]
        exact hr.rt
      have h3' : RcvOk n s3 := h1'.block (blockReply_procs h3).2 hrt
        (by rw [hcur]; exact haddr.symm)
      exact h3'.mono (.of_procs (inheritTo_procs h4))
    · obtain ⟨s2, h2, hf⟩ := bind_eq_some_iff.mp hf
      obtain ⟨s3, h3, h4⟩ := bind_eq_some_iff.mp hf
      have h3' : RcvOk n s3 :=
        h.block (p := s.cur) (sendRecv_procs hk hq' h2 h3) hr.rt haddr.symm
      exact h3'.mono (.of_procs (inheritTo_procs h4))

theorem RcvOk.note (h : RcvOk n s) (hp : (s.procs p).st.mbxRcv = false) (i : Int) :
    RcvOk (update n p i) s := by
  intro a ha
  have hap : a ≠ p := by
    rintro rfl
    rw [hp] at ha
    cases ha
  rw [Named.addr, update_of_ne hap]
  exact h a ha

/-- A process that can run does not wait in a receive. -/
theorem RcvOk.not_waiting (h : RcvOk n s) (hc : s.canRun p = true) :
    (s.procs p).st.mbxRcv = false := by
  by_contra hw
  have hw : (s.procs p).st.mbxRcv = true := by simpa using hw
  have hclr := (running_of_canRun hc (h p hw).1).clear
  rw [show (s.procs p).st = .clear from hclr] at hw
  cases hw

/-- A call of `rtk_receive` or `rtk_rqrcv`, with the checks of `rtk_call` around it. -/
theorem RcvOk.rtk {c : Call} {i : Int} (h : RcvOk n s) (hset : c ≠ .set2rt)
    (hd : ∀ {s1 r}, RcvOk (update n p i) { s with cur := p } →
      Running { s with cur := p } → ({ s with cur := p } : KState).dispatch v c = some (s1, r) →
      RcvOk (update n p i) s1) (hs : s.step (.rtk p v c) = some s') : RcvOk (update n p i) s' := by
  obtain ⟨s0, h0, hs⟩ := bind_eq_some_iff.mp hs
  obtain ⟨⟨s2, r⟩, h2, rfl⟩ := map_eq_some_iff.mp hs
  obtain ⟨hc, rfl⟩ := enter_inv h0
  have hn : RcvOk (update n p i) { s with cur := p } := h.note (h.not_waiting hc) i
  rw [rtkCall] at h2
  split at h2
  · cases h2
    exact hn
  split at h2
  · cases h2
    exact hn
  · rename_i hrt
    simp only [bind_eq_bind, bind_eq_some_iff, some.injEq, Prod.mk.injEq] at h2
    obtain ⟨⟨s1, r1⟩, h1, s3, h3, rfl, -⟩ := h2
    have hrun : Running { s with cur := p } := by
      refine running_of_canRun hc ?_
      by_contra hn'
      exact hrt ⟨hset, hn'⟩
    exact (hd hn hrun h1).mono (.of_procs (pickProc_only h3).1.procs)

theorem RcvOk.step (h : RcvOk n s) (hs : s.step e = some s') : RcvOk (n.note e) s' := by
  by_cases he : e.receives = true
  · unfold Event.receives at he
    split at he
    · rename_i p v ipc
      refine h.rtk (by simp) (fun hn hr h1 => ?_) hs
      exact rtkReceive_rcvOk hn hr.rt (update_self _ _ _) h1
    · rename_i p v ipc
      refine h.rtk (by simp) (fun hn hr h1 => ?_) hs
      exact rtkRqrcv_rcvOk hn hr (update_self _ _ _) h1
    · cases he
  · have he : e.receives = false := by simpa using he
    rw [Named.note_of_not_receives he]
    obtain ⟨s0, s1, hent, hm, -, hp⟩ := step_moves hs
    have h1 : RcvOk n s1 := (h.mono (.of_procs hent.sched.procs)).mono (hm.noNewWait he)
    rcases hp with rfl | hp
    · exact h1
    · exact h1.mono (.of_procs (pickProc_only hp).1.procs)

theorem ReachNamed.rcvOk (h0 : Initial s₀) (h : ReachNamed s₀ s n) : RcvOk n s := by
  induction h with
  | init =>
    intro p hp
    rw [(h0.procs p).2.1] at hp
    cases hp
  | step _ hs ih => exact ih.step hs

/-! ## The states in which sends are called -/

/-- The sends of the kernel itself, in states where nobody has begun to wait. -/
def KernelFrom (s : KState) (cs : List CallAt) : Prop :=
  ∀ c ∈ cs, NoNewWait s c.1 ∧ ∃ src dest, ∃ k : Prty, ∃ ty, c.2.2 = .kernel src dest k.val ty

theorem KernelFrom.nil : KernelFrom s [] := fun _ h => nomatch h

theorem KernelFrom.single {k : Prty} (h : NoNewWait s t) :
    KernelFrom s [(t, v, .kernel src dest k.val ty)] := by
  intro c hc
  rw [List.mem_singleton] at hc
  subst hc
  exact ⟨h, _, _, k, _, rfl⟩

theorem KernelFrom.after {cs : List CallAt} (h : KernelFrom s' cs) (hs : NoNewWait s s') :
    KernelFrom s cs :=
  fun c hc => ⟨hs.trans (h c hc).1, (h c hc).2⟩

theorem KernelFrom.append {cs ds : List CallAt} (h : KernelFrom s cs) (h' : KernelFrom s ds) :
    KernelFrom s (cs ++ ds) :=
  fun c hc => (List.mem_append.mp hc).elim (h c) (h' c)

theorem wakeupCalls_kernel (rp : Proc) : KernelFrom s (s.wakeupCalls v rp) := by
  unfold wakeupCalls
  split
  · exact .nil
  · rename_i s1 h1
    split
    · exact .single (stopTimer_wait h1)
    · exact .nil

theorem tellWatchdogCalls_kernel (rp : Proc) : KernelFrom s (s.tellWatchdogCalls v rp) := by
  unfold tellWatchdogCalls
  dsimp only
  split
  · exact .single (.of_procs rfl)
  · exact .nil

theorem tellWatchdog_wait (h : s.tellWatchdog v rp = some s') : NoNewWait s s' := by
  rw [tellWatchdog] at h
  split at h
  · cases h
    exact .of_procs rfl
  · obtain ⟨rtp, -, h⟩ := bind_eq_some_iff.mp h
    split at h
    · obtain ⟨⟨s1, r⟩, h1, rfl⟩ := map_eq_some_iff.mp h
      exact ksend_wait h1
    · cases h
      exact .of_procs rfl

theorem tellWatchedCalls_kernel (rp : Proc) : ∀ (rtps : List Proc) (s : KState),
    KernelFrom s (tellWatchedCalls v rp rtps s) := by
  intro rtps
  induction rtps with
  | nil => exact fun s => .nil
  | cons rtp rtps ih =>
    intro s
    rw [tellWatchedCalls]
    split
    · have hw : NoNewWait s (s.updProc rtp (fun r => { r with watchdog := hardware })) :=
        .of_update rfl (fun hr => ⟨hr, rfl, id⟩)
      refine KernelFrom.append (.single hw) ?_
      split
      · exact .nil
      · rename_i r hr
        exact (ih r.1).after (hw.trans (ksend_wait hr))
    · exact ih s

theorem set2nrtCalls_kernel (rp : Proc) : KernelFrom s (s.set2nrtCalls v rp) := by
  unfold set2nrtCalls
  split
  · exact .nil
  split
  · exact .nil
  · rename_i s1 h1
    refine KernelFrom.append ((tellWatchdogCalls_kernel rp).after (leave_wait h1)) ?_
    split
    · exact .nil
    · rename_i s2 h2
      exact (tellWatchedCalls_kernel rp _ s2).after ((leave_wait h1).trans (tellWatchdog_wait h2))

theorem taskCalls_kernel (r : Request) : KernelFrom s (s.taskCalls v r) := by
  cases r with
  | setpattr _ _ | semalloc _ _ | semfree _ _ => exact .nil
  | exit caller | stdsignal caller pid =>
    rw [taskCalls]
    split
    · split
      · exact .nil
      · exact set2nrtCalls_kernel _
    · exact .nil

theorem timerCalls_kernel (tm : Timer) : KernelFrom s (s.timerCalls v tm) := by
  unfold timerCalls
  split
  · split
    · exact .nil
    · split
      · exact .nil
      · exact wakeupCalls_kernel _
  case h_6 => exact .nil
  all_goals
    split
    · exact .nil
    · first | exact wakeupCalls_kernel _ | exact .single (.of_procs rfl)

/-- How a send comes about: nobody has begun to wait, the running RT process makes the sends
    that are not the kernel's, and only `rtk_uprqst` may name a priority. -/
structure Made (s : KState) (names : Ipc → Prop) (k : CallAt) : Prop where
  wait : NoNewWait s k.1
  running : ∀ u ipc, k.2.2 = .user u ipc → Running k.1
  named : ∀ ipc, k.2.2 = .user .uprqst ipc → names ipc
  prty : ∀ src dest prty ty, k.2.2 = .kernel src dest prty ty → prty < 16

theorem KernelFrom.made {k : CallAt} {cs : List CallAt} {names : Ipc → Prop}
    (h : KernelFrom s cs) (hk : k ∈ cs) : Made s names k := by
  obtain ⟨hw, src, dest, p, ty, hc⟩ := h k hk
  refine ⟨hw, ?_, ?_, ?_⟩ <;> rw [hc]
  · rintro _ _ ⟨⟩
  · rintro _ ⟨⟩
  · rintro _ _ _ _ ⟨⟩
    exact p.isLt

/-- A call of a process: one of the sends, made by the running RT process, or sends of the
    kernel. -/
theorem rtkCalls_made {k : CallAt} {c : Call} (hr : Running s) (hk : k ∈ s.rtkCalls v c) :
    Made s (fun ipc => c = .uprqst ipc) k := by
  cases c with
  | rqst ipc | reply ipc | arqst ipc | uprqst ipc | sign ipc | rqrcv ipc =>
    rw [rtkCalls, List.mem_singleton] at hk
    subst hk
    refine ⟨.of_procs rfl, fun _ _ _ => hr, ?_, ?_⟩
    · rintro _ ⟨⟩ <;> rfl
    · rintro _ _ _ _ ⟨⟩
  | set2rt | sleep _ | receive _ | semup _ | semdown _ _ => cases hk
  | set2nrt => exact (set2nrtCalls_kernel _).made hk
  | wakeup nr pid =>
    rw [rtkCalls] at hk
    split at hk
    · cases hk
    · split at hk
      · exact (wakeupCalls_kernel _).made hk
      · cases hk

/-- In the state in which a send is called, nobody waits that did not wait when the event
    began. -/
theorem sendCalls_made {k : CallAt} (hk : k ∈ s.sendCalls e) :
    Made s (fun ipc => ∃ p v, e = .rtk p v (.uprqst ipc)) k := by
  have hent : ∀ p, NoNewWait s { s with cur := p } := fun p => .of_procs rfl
  cases e with
  | inherit _ _ | disinherit _ _ | irqTimer _ _ _ | tick => cases hk
  | rtk p v c =>
    rw [sendCalls] at hk
    split at hk
    · cases hk
    · rename_i s1 h1
      obtain ⟨hc, rfl⟩ := enter_inv h1
      split at hk
      · rename_i hrt
        have hm := rtkCalls_made (running_of_canRun hc hrt.2) hk
        exact ⟨(hent p).trans hm.wait, hm.running,
          fun ipc hu => ⟨p, v, congrArg _ (hm.named ipc hu)⟩, hm.prty⟩
      · cases hk
  | task v r =>
    rw [sendCalls] at hk
    split at hk
    · cases hk
    · rename_i s1 h1
      obtain ⟨-, rfl⟩ := enter_inv h1
      exact ((taskCalls_kernel r).after (hent _)).made hk
  | ksend p v src dest prty ty =>
    rw [sendCalls] at hk
    split at hk
    · cases hk
    · rename_i s1 h1
      obtain ⟨-, rfl⟩ := enter_inv h1
      exact (KernelFrom.single (hent p)).made hk
  | flush p v prty =>
    rw [sendCalls] at hk
    split at hk
    · cases hk
    · rename_i s1 h1
      obtain ⟨-, rfl⟩ := enter_inv h1
      split at hk
      · cases hk
      · dsimp only at hk
        refine (KernelFrom.after (timerCalls_kernel _) ?_).made hk
        exact .of_procs rfl

/-! ## One send -/

theorem anyProc_ne_procNr (p : Proc) : procNr p ≠ anyProc := by
  intro h
  have hs := procAddr_procNr p
  rw [h] at hs
  cases hs

/-- Whom a process may wait for when a message is handed to it. -/
theorem RcvOk.waiting (h : RcvOk n t) (hw : t.waiting d any = true) :
    n d = anyProc ∨ n d = procNr t.cur ∨ n d = procNr d := by
  obtain ⟨hr, hf⟩ := waiting_eq_true hw
  by_cases hany : n d = anyProc
  · exact .inl hany
  · have haddr := (h d hr).2
    rw [Named.addr, if_neg hany] at haddr
    rw [haddr, procAddr_eq_some, procAddr_eq_some] at hf
    exact .inr hf

/-- What the common part of a send does to a destination that waits. -/
theorem sendMsg_waiting {dl : BitVec 32} {nowait : Bool} {r : Sent}
    (h : t.sendMsg v ty prty dl any nowait d q = some (t', r)) (hw : t.waiting d any = true)
    (hm : v.msg t.cur = true) :
    (t'.procs d).st.mbxRcv = !(v.hdr d) := by
  rw [sendMsg, if_pos hw] at h
  split at h
  · rename_i hv
    obtain ⟨s1, h1, he⟩ := map_eq_some_iff.mp h
    cases he
    rw [(unblockReceiver_procs h1).2, update_self, hv.2]
    rfl
  · rename_i hv
    cases h
    rw [show ((t.stamp t.cur).procs d) = t.procs d from rfl, (waiting_eq_true hw).1]
    cases hh : v.hdr d with
    | true => exact absurd ⟨hm, hh⟩ hv
    | false => rfl

theorem sendMsg_cur {dl : BitVec 32} {nowait : Bool} {r : Sent}
    (h : t.sendMsg v ty prty dl any nowait d q = some (t', r)) : t'.cur = t.cur := by
  rcases sendMsg_cases h with ⟨c, -, hb | ⟨-, k, hk⟩⟩ | ⟨-, -, s0, hb, hu⟩ | ⟨k, s0, -, -, hn, hq⟩
  · exact hb.cur
  · exact (newEntry_only hk).cur
  · exact (unblockReceiver_procs hu).1.trans hb.cur
  · exact (enqueued hn hq).cur

/-- Beyond the common part, a send changes its caller only. -/
theorem SendCall.finish_procs {c : SendCall} {k : Nat} {m : Sent}
    (h : c.finish v ipc k d q t m = some t') (hi : i ≠ t.cur) : t'.procs i = t.procs i := by
  cases c with
  | sign =>
    cases h
    rfl
  | reply =>
    obtain ⟨q', -, h⟩ := bind_eq_some_iff.mp h
    split at h
    · rw [(disinherit_only h).procs]
    · cases h
      rfl
  | arqst | uprqst => rw [inheritTo_procs h]
  | rqst =>
    cases m with
    | err _ | direct => rw [inheritTo_procs h]
    | queued k =>
      obtain ⟨s2, h2, h⟩ := bind_eq_some_iff.mp h
      obtain ⟨tm, rfl⟩ := armIpc_inv h2
      rw [inheritTo_procs h]
      exact update_of_ne hi _ _
  | rqrcv =>
    cases m with
    | err _ | direct =>
      obtain ⟨s2, h2, h⟩ := bind_eq_some_iff.mp h
      obtain ⟨s3, h3, h4⟩ := bind_eq_some_iff.mp h
      obtain ⟨w, -, rfl⟩ := setIpcParam_inv h2
      rw [inheritTo_procs h4, (blockReply_procs h3).2]
      exact update_of_ne hi _ _
    | queued k =>
      obtain ⟨s2, h2, h⟩ := bind_eq_some_iff.mp h
      obtain ⟨s3, h3, h4⟩ := bind_eq_some_iff.mp h
      obtain ⟨w, -, rfl⟩ := setIpcParam_inv h2
      rw [inheritTo_procs h4, (blockReply_procs h3).2]
      refine (update_of_ne hi _ _).trans ?_
      exact update_of_ne hi _ _

theorem SendCall.exec_sends {c : SendCall} (hd : (SendReq.user c ipc).dest t = some d)
    (hx : c.exec v t ipc = some (t', r)) :
    ∃ ty prty dl q s1 sent, t.sendMsg v ty prty dl c.any (c.nowait ipc) d q = some (s1, sent) ∧
      ∀ i, i ≠ t.cur → t'.procs i = s1.procs i := by
  rw [SendReq.dest] at hd
  cases SendCall.exec_inv hx with
  | noWait hc ht =>
    rw [if_pos ⟨hc, ht⟩] at hd
    cases hd
  | refused hc _ | refusedReply hc _ _ =>
    rw [hc] at hd
    split at hd <;> cases hd
  | failed hn hc h1 =>
    rw [if_neg hn, hc] at hd
    cases hd
    exact ⟨_, _, _, _, _, _, h1, fun _ _ => rfl⟩
  | sent hn hc h1 _ hf =>
    rw [if_neg hn, hc] at hd
    cases hd
    exact ⟨_, _, _, _, _, _, h1, fun i hi => finish_procs hf (by rw [sendMsg_cur h1]; exact hi)⟩

theorem SendCall.hdr_src (c : SendCall) (s : KState) (ipc : Ipc) (d : Proc) :
    (c.hdr s ipc d).src = procNr s.cur := by
  cases c <;> rfl

/-- **A SEND OF A PROCESS** writes what it may write exactly if the destination has not
    named itself and both buffers can be written. -/
theorem user_copies_right {c : SendCall} (hr : Running t) (h : RcvOk n t)
    (hx : c.exec v t ipc = some (t', r)) :
    (∀ w ∈ (SendReq.user c ipc).copies v t, w.Right n t t') ↔ (SendReq.user c ipc).Fit v t n := by
  cases hd : (SendReq.user c ipc).dest t with
  | none =>
    refine iff_of_true (fun w hw => ?_) (fun d' hd' => ?_)
    · rw [SendReq.copies, hd] at hw
      cases hw
    · rw [hd] at hd'
      cases hd'
  | some d =>
    obtain ⟨ty, prty, dl, q, s1, sent, h1, hoth⟩ := SendCall.exec_sends hd hx
    by_cases hw : t.waiting d c.any = true ∧ v.msg t.cur = true
    · -- the destination waits and the message is copied
      obtain ⟨hw, hm⟩ := hw
      have hrcv := (waiting_eq_true hw).1
      have hne : d ≠ t.cur := by
        rintro rfl
        rw [hr.clear] at hrcv
        cases hrcv
      have hend : (t'.procs d).st.mbxRcv = !(v.hdr d) := by
        rw [hoth d hne]
        exact sendMsg_waiting h1 hw hm
      have hcop : (SendReq.user c ipc).copies v t =
          ⟨d, .msg⟩ :: (if v.hdr d then [⟨d, .hdr (c.hdr t ipc d)⟩] else []) := by
        rw [SendReq.copies, hd]
        exact if_pos ⟨hw, hm⟩
      rw [hcop]
      constructor
      · intro hall d' hd' hw' hm'
        cases hd.symm.trans hd'
        have hv : v.hdr d = true := by
          have hc := (hall _ List.mem_cons_self).completed
          rw [hend] at hc
          simpa using hc
        refine ⟨hv, fun hself => ?_⟩
        rw [if_pos hv] at hall
        have hs := (hall ⟨d, .hdr (c.hdr t ipc d)⟩ (by simp)).source _ rfl
          (by rw [hself]; exact anyProc_ne_procNr d)
        rw [SendCall.hdr_src, hself, procNr_inj] at hs
        exact hne hs.symm
      · intro hfit w hwm
        obtain ⟨hv, hself⟩ := hfit d hd hw hm
        rw [if_pos hv, List.mem_cons, List.mem_singleton] at hwm
        rw [hv] at hend
        rcases hwm with rfl | rfl
        · exact ⟨hrcv, hend, fun _ hf => nomatch hf⟩
        · refine ⟨hrcv, hend, fun hd' he hany => ?_⟩
          cases he
          rw [SendCall.hdr_src]
          rcases h.waiting hw with hn | hn | hn
          · exact absurd hn hany
          · exact hn.symm
          · exact absurd hn hself
    · refine iff_of_true (fun w hwm => ?_) (fun d' hd' hw' hm' => ?_)
      · rw [SendReq.copies, hd] at hwm
        simp only [if_neg hw] at hwm
        cases hwm
      · cases hd.symm.trans hd'
        exact absurd ⟨hw', hm'⟩ hw

/-- **`MRT_ksend`** writes what it may write exactly if the destination waits and has named
    the source, or nobody, and nothing is written otherwise. -/
theorem kernel_copies_right (h : RcvOk n t) (hx : t.ksend v src dest prty ty = some (t', r)) :
    (∀ w ∈ (SendReq.kernel src dest prty ty).copies v t, w.Right n t t') ↔
      (SendReq.kernel src dest prty ty).Fit v t n := by
  obtain ⟨sp, hsp⟩ : ∃ sp, procAddr src = some sp := by
    simp only [KState.ksend, bind_eq_bind, bind_eq_some_iff] at hx
    obtain ⟨sp, hsp, -⟩ := hx
    exact ⟨sp, hsp⟩
  have hsrc : src = procNr sp := procAddr_eq_some.mp hsp
  cases hd : (SendReq.kernel src dest prty ty).dest t with
  | none =>
    refine iff_of_true (fun w hw => ?_) (fun d' hd' => ?_)
    · rw [SendReq.copies, hd] at hw
      cases hw
    · rw [hd] at hd'
      cases hd'
  | some d =>
    have hcop : (SendReq.kernel src dest prty ty).copies v t =
        if v.hdr d ∧ (t.waiting d true ∨ t.ms.pool.first () ≠ none) then
          [⟨d, .hdr (t.mkHdr sp d ty prty 0)⟩] else [] := by
      rw [SendReq.copies, hd]
      simp only [hsp]
    have hdest : ∀ {d' q}, t.destCheck dest none = some (.ok (d', q)) → d' = d := by
      intro d' q hc
      rw [SendReq.dest, hc] at hd
      exact some.inj hd
    by_cases hv : v.hdr d = true
    · by_cases hw : t.waiting d true = true
      · -- handed over: the header carries the source
        have hrcv := (waiting_eq_true hw).1
        have hend : (t'.procs d).st.mbxRcv = false := by
          rw [SendReq.dest] at hd
          split at hd
          · rename_i d' q hc
            cases hd
            exact ksend_waiting hx hc hw hv
          · cases hd
        rw [hcop, if_pos ⟨hv, .inl hw⟩]
        constructor
        · intro hall d' hd' hv'
          cases hd.symm.trans hd'
          rw [if_pos hw]
          have hs := (hall _ (List.mem_singleton_self _)).source _ rfl
          have hsp' : (t.mkHdr sp d ty prty 0).src = src := hsrc.symm
          rw [hsp'] at hs
          constructor
          all_goals
            intro hn
            rw [← hn]
            exact hs (by rw [hn]; exact anyProc_ne_procNr _)
        · intro hfit w hwm
          rw [List.mem_singleton] at hwm
          subst hwm
          have hf := hfit d hd hv
          rw [if_pos hw] at hf
          refine ⟨hrcv, hend, fun hd' he hany => ?_⟩
          cases he
          show procNr sp = n d
          rw [← hsrc]
          rcases h.waiting hw with hn | hn | hn
          · exact absurd hn hany
          · exact (hf.1 hn).trans hn.symm
          · exact (hf.2 hn).trans hn.symm
      · -- the destination does not wait: any copy is wrong
        have hsame : (t'.procs d).st.mbxRcv = (t.procs d).st.mbxRcv := by
          rcases ksend_procs hx with hp | ⟨d', q, hc, hw', -, -⟩
          · rw [hp]
          · rw [hdest hc] at hw'
            exact absurd hw' hw
        rw [hcop]
        constructor
        · intro hall d' hd' _
          cases hd.symm.trans hd'
          rw [if_neg hw]
          by_contra hfree
          rw [if_pos ⟨hv, .inr hfree⟩] at hall
          have hw := hall _ (List.mem_singleton_self _)
          have hc := hw.completed
          rw [hsame, hw.pending] at hc
          cases hc
        · intro hfit w hwm
          have hf := hfit d hd hv
          rw [if_neg hw] at hf
          rw [if_neg (by simp [hf, hw])] at hwm
          cases hwm
    · refine iff_of_true (fun w hwm => ?_) (fun d' hd' hv' => ?_)
      · rw [hcop, if_neg (fun hc => hv hc.1)] at hwm
        cases hwm
      · cases hd.symm.trans hd'
        exact absurd hv' hv

/-! ## Every run -/

/-- **SELECTIVE RECEIVE.**  In every state of every run, a send that an event makes writes
    into receive buffers only to complete the receive of their owner, with a header of the
    source that was named, exactly if the send meets the condition. -/
theorem selective_receive {n : Named} {r : SendReq} {c : Code} (h0 : Initial s₀)
    (h : ReachNamed s₀ s n) (hk : (t, v, r) ∈ s.sendCalls e)
    (hx : r.exec v t = some (t', c)) :
    (∀ w ∈ r.copies v t, w.Right n t t') ↔ r.Fit v t n := by
  obtain ⟨hnew, hrun, -, -⟩ := sendCalls_made hk
  have ht : RcvOk n t := (h.rcvOk h0).mono hnew
  cases r with
  | user u ipc => exact user_copies_right (hrun u ipc rfl) ht hx
  | kernel src dest prty ty => exact kernel_copies_right ht hx

/-- Process 15 waits for a message of 14, which sends one. -/
theorem selective_receive_handed : ∃ s n t t' c, ReachNamed boot s n ∧
    (t, goodEnv, SendReq.user .arqst (withProc 15 forever)) ∈
      s.sendCalls (.rtk 14 goodEnv (.arqst (withProc 15 forever))) ∧
    SendReq.exec goodEnv t (.user .arqst (withProc 15 forever)) = some (t', c) ∧
    SendReq.sources goodEnv t 15 (.user .arqst (withProc 15 forever)) = [n 15] ∧
    ∀ w ∈ SendReq.copies goodEnv t (.user .arqst (withProc 15 forever)), w.Right n t t' := by
  have hrun : (boot.runNamed (fun _ => anyProc)
      (threeRt ++ [.rtk 15 goodEnv (.receive (withProc 14 forever))])).any (fun z =>
        (z.1.enter 14).any (fun t => decide (t.rtMode = true ∧ (t.procs t.cur).realtime = true) &&
          decide (SendReq.sources goodEnv t 15 (.user .arqst (withProc 15 forever)) = [z.2 15]) &&
          decide ((SendReq.user .arqst (withProc 15 forever)).Fit goodEnv t z.2) &&
          (SendReq.exec goodEnv t (.user .arqst (withProc 15 forever))).isSome)) = true := by
    decide +kernel
  obtain ⟨⟨s, n⟩, hs, hrun⟩ := (any_eq_true _ _).mp hrun
  obtain ⟨t, ht, hrun⟩ := (any_eq_true _ _).mp hrun
  simp only [Bool.and_eq_true, decide_eq_true_eq] at hrun
  obtain ⟨⟨⟨hrt, hsrc⟩, hfit⟩, hx⟩ := hrun
  obtain ⟨⟨t', c⟩, hx⟩ := isSome_iff_exists.mp hx
  have hk : (t, goodEnv, SendReq.user .arqst (withProc 15 forever)) ∈
      s.sendCalls (.rtk 14 goodEnv (.arqst (withProc 15 forever))) := by
    simp [sendCalls, ht, hrt, rtkCalls]
  have hreach : ReachNamed boot s n := .of_runNamed .init hs
  exact ⟨s, n, t, t', c, hreach, hk, hx, hsrc,
    (selective_receive boot_initial hreach hk hx).mpr hfit⟩

/-- **A MESSAGE OF THE WRONG SOURCE.**  Process 15 waits for 14.  While 14 runs, the kernel
    sends 15 a message of the hardware: 15 gets it.  Before that, when 15 did not wait at
    all, the same send has written its header buffer. -/
theorem kernel_message_misdirected :
    (boot.runNamed (fun _ => anyProc) threeRt).any (fun z =>
      (z.1.enter 14).any (fun t => decide ((t.procs 15).st.mbxRcv = false) &&
        decide (SendReq.sources goodEnv t 15 (.kernel hardware (procNr 15) 5 .krnirq) =
          [hardware]))) = true ∧
    (boot.runNamed (fun _ => anyProc)
      (threeRt ++ [.rtk 15 goodEnv (.receive (withProc 14 forever))])).any (fun z =>
        (z.1.enter 14).any (fun t => decide ((t.procs 15).st.mbxRcv = true) &&
          decide (z.2 15 = procNr 14) &&
          decide (SendReq.sources goodEnv t 15 (.kernel hardware (procNr 15) 5 .krnirq) =
            [hardware]) &&
          (t.ksend goodEnv hardware (procNr 15) 5 .krnirq).any (fun r =>
            !(r.1.procs 15).st.mbxRcv))) = true ∧ procNr 14 ≠ hardware := by
  decide +kernel

end Kernel
