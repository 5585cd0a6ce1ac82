import Minix4rt.RtSemModelProofs

/-! # RT processes — entering and leaving RT mode, sleeping, timer actions, MRTTASK

    `rtk_set2rt` turns the current process into an RT process: it gets a message queue
    and a timer for its IPC timeouts.  `MRT_set2nrt` takes all of that away again.  The
    actions of expired timers run from the flush loop, and the calls of `MRTTASK` change
    attributes and semaphores. -/

namespace Kernel

open ListPool Vtimer

namespace KState

/-! ## Entering RT mode -/

/-- `MRT_vtimer_ins` on a pointer. -/
def insTimer (s : KState) (v : Option VT) : Option KState := do
  let v ← v
  let t ← s.tm.vtimerIns v
  some { s with tm := t }

/-- `VTALLOC`, with the pointer it returns. -/
def vtalloc (s : KState) (per lim : BitVec 32) (act : Act) (par owner : Int) (pty : Prty) :
    Option (Option VT × KState) :=
  (s.tm.vtimerAlloc per lim act par owner pty).map (fun r => (r.1, { s with tm := r.2 }))

/-- The timer of a periodic process.  `if (rp->pvt = NULL)` assigns, so the pointer
    that `MRT_vtimer_ins` gets is null. -/
def startPeriodic (s : KState) (rp : Proc) : Option KState := do
  let r := s.procs rp
  let (_, s) ← s.vtalloc r.period r.limit .periodic 0 (procNr rp) (s.rq.prio rp)
  let s := s.updProc rp (fun r => { r with pvt := none, st := { r.st with sleep := true } })
  s.insTimer (s.procs rp).pvt

/-- The message queue and the IPC timer of a new RT process. -/
def getResources (s : KState) (rp : Proc) : Option KState :=
  let r := s.procs rp
  match s.ms.msgQAlloc r.mqSize r.mqOrder r.mqInherit (procNr rp) with
  | (none, _) => none
  | (some q, m) => do
      let s := ({ s with ms := m } : KState).updProc rp (fun r => { r with pmq := some q })
      let (v, s) ← s.vtalloc 1 0 .none 0 (procNr rp) (s.rq.prio rp)
      let v ← v
      some (s.updProc rp (fun r => { r with ipcvt := some v }))

/-- `rtk_set2rt`. -/
def rtkSet2rt (s : KState) : Option (KState × Code) :=
  let rp := s.cur
  let r := s.procs rp
  if r.realtime then some (s, .badPtype)
  else if (s.tm.q.hdr .free).inQ = 0 then some (s, .noVtimer)
  else if (s.tm.q.hdr .free).inQ = 1 ∧ r.periodic then some (s, .noVtimer)
  else if s.ms.pool.count () = 0 then some (s, .noMsgQ)
  else do
    let s ← s.getResources rp
    let s ← (if r.periodic then s.startPeriodic rp else some s)
    let s ← s.unready rp
    let s := s.updProc rp (fun r => { r with realtime := true })
    (s.rdyQApp rp).map (·, .ok)

/-! ## Leaving RT mode -/

/-- Stop a timer, free it and forget it. -/
def dropTimer (s : KState) (v : Option VT) : Option KState :=
  match v with
  | none => some s
  | some v => do
      let t ← s.tm.vtimerStop v
      let t ← t.vtimerFree v
      some { s with tm := t }

/-- Drop both timers of `rp`. -/
def dropTimers (s : KState) (rp : Proc) : Option KState := do
  let s ← s.dropTimer (s.procs rp).pvt
  let s ← s.dropTimer (s.procs rp).ipcvt
  some (s.updProc rp (fun r => { r with pvt := none, ipcvt := none }))

/-- The notice to the watchdog of `rp`. -/
def tellWatchdog (v : Env) (s : KState) (rp : Proc) : Option KState :=
  let wd := (s.procs rp).watchdog
  if wd = hardware then some s
  else do
    let rtp ← procAddr wd
    if (s.procs rtp).realtime then
      (s.ksend v (procNr rp) wd (s.rq.prio rp).val .krnproc).map Prod.fst
    else some s

/-- The loop of notices to the processes whose watchdog was `rp`. -/
def tellWatched (v : Env) (rp : Proc) : List Proc → KState → Option KState
  | [], s => some s
  | rtp :: rtps, s =>
    if procNr rp = (s.procs rtp).watchdog ∧ (s.procs rtp).realtime then do
      let s := s.updProc rtp (fun r => { r with watchdog := hardware })
      let r ← s.ksend v (procNr rp) (procNr rtp) (s.rq.prio rtp).val .krnwdog
      tellWatched v rp rtps r.1
    else tellWatched v rp rtps s

/-- The loop that is to empty the queue `q` of a leaving process.  No entry is taken
    out, so with an entry in the queue it picks that entry again and again. -/
def drainQueue (q : MsgQ) : Nat → KState → Option KState
  | 0, _ => none
  | n + 1, s => do
      match ← s.ms.mqePick q anyProc with
      | none => some s
      | some e => do
          let src ← procAddr (s.ms.hdr e).src
          let s ← s.stopTimerIf (s.procs src).ipcvt
          let s := s.updProc src (fun r =>
            { r with pto := none, st := { r.st with mbxSnd := false } })
          let s ← s.readyIfClear src
          drainQueue q n (s.setRet src .exiting)

/-- Empty and free the message queue of `rp`, in at most `n` turns. -/
def dropQueueWithin (n : Nat) (s : KState) (rp : Proc) : Option KState :=
  match (s.procs rp).pmq with
  | none => some s
  | some q => do
      let s ← drainQueue q n s
      let m ← s.ms.msgQFree q
      some (({ s with ms := m } : KState).updProc rp (fun r => { r with pmq := none }))

/-- Empty and free the message queue of `rp`: it has at most 32 entries. -/
def dropQueue (s : KState) (rp : Proc) : Option KState := s.dropQueueWithin 33 rp

/-- The loop over the pool that takes back the messages `rp` has sent. -/
def sweepEntries (rp : Proc) : List Mqe → KState → Option KState
  | [], s => some s
  | e :: es, s =>
    if (s.ms.hdr e).src = procNr rp then do
      let rtp ← procAddr (s.ms.hdr e).dst
      let q ← (s.procs rtp).pmq
      let s ← s.dropEntry q e
      sweepEntries rp es s
    else sweepEntries rp es s

/-- The end of `MRT_set2nrt`: `rp` is a MINIX process again. -/
def backToMinix (s : KState) (rp : Proc) : KState :=
  let s := s.updProc rp (fun r =>
    { r with st := .clear, periodic := false, realtime := false })
  if s.flagsZero rp then s.ready rp else s

/-- `MRT_set2nrt` with at most `n` turns of the loop over the message queue and fewer than
    `u` of the loop over the lock list: a call that returns does so for some `n` and `u`.
    The interrupt descriptors, whose watchdogs it also resets, are not part of the state. -/
def set2nrtWithin (n u : Nat) (v : Env) (s : KState) (rp : Proc) : Option (KState × Code) :=
  if ¬ (s.procs rp).realtime then some (s, .badPtype)
  else do
    let s := if s.rtReady rp then s.rdyQRmv rp else s
    let s ← s.dropTimers rp
    let s ← s.tellWatchdog v rp
    let s ← tellWatched v rp ((List.finRange 43).take 32) s
    let s ← s.dropQueueWithin n rp
    let s ← sweepEntries rp (List.finRange 32) s
    let s ← (if s.ss.lock.count rp ≠ 0 then semUnlock v rp u s else some s)
    let s ← (if s.ss.alloc.count (some rp) ≠ 0 then s.semEmpty rp else some s)
    some (s.backToMinix rp, .ok)

/-- `MRT_set2nrt`. -/
def set2nrt (v : Env) (s : KState) (rp : Proc) : Option (KState × Code) :=
  s.set2nrtWithin 33 64 v rp

/-! ## Sleeping -/

/-- `MRT_sleep`.  For a timed sleep it resets the link of the IPC timer by hand, with
    the address of the pointer `ipcvt` itself as the back pointer. -/
def sleep (s : KState) (rp : Proc) (timeout : BitVec 32) : Option (KState × Code) :=
  if ¬ (s.procs rp).realtime then some (s, .badPtype)
  else if timeout = noWait then some (s, .ok)
  else do
    let s ← (if timeout = forever then some s
      else do
        let v ← (s.procs rp).ipcvt
        let t := s.tm.upd v (fun t => { t with nextexp := 0, flags := .alloc, this := none })
        let t ← ({ t with q := t.q.rstLink v } : TimerSt).vtset v timeout 1 .wakeup 0 (s.rq.prio rp)
        some { s with tm := t })
    some ((s.setSt rp (fun t => { t with sleep := true })).rdyQRmv rp, .ok)

/-- `MRT_wakeup`. -/
def wakeup (v : Env) (s : KState) (rp : Proc) : Option (KState × Code) := do
  let s ← s.stopTimer (s.procs rp).ipcvt
  if ¬ (s.procs rp).st.sleep then do
    let wd := (s.procs rp).watchdog
    if wd = hardware then some (s, .unsleep)
    else (s.ksend v (procNr s.cur) wd (s.rq.prio rp).val .krndline).map (fun r => (r.1, .unsleep))
  else do
    let s := s.setSt rp (fun t => { t with sleep := false })
    if s.rtReady rp then (s.rdyQApp rp).map (·, .ok) else some (s, .unready)

/-- `rtk_wakeup`. -/
def rtkWakeup (v : Env) (s : KState) (nr pid : Int) : Option (KState × Code) := do
  let rp ← procAddr nr
  if ¬ s.isProcess rp then some (s, .badProc)
  else if (s.procs rp).pid ≠ pid then some (s, .badProc)
  else if ¬ (s.procs rp).realtime then some (s, .badPtype)
  else s.wakeup v rp

/-! ## Timer actions -/

/-- Take back the entry with the index `i` from the queue that `rp` waits to send to. -/
def cancelSend (s : KState) (rp : Proc) (i : Int) : Option KState := do
  let e ← tabAddr 32 i
  let dp ← (s.procs rp).pto
  let q ← (s.procs dp).pmq
  let m ← s.ms.mqeRmv q e
  let m ← m.mqeFree e
  some { s with ms := m }

/-- `MRT_act_sndto`. -/
def actSndto (v : Env) (s : KState) (t : Timer) : Option KState := do
  let rp ← procAddr t.owner
  let dp := (s.procs rp).pto
  let s ← s.cancelSend rp t.param
  let s ← s.disinherit dp (v.junk 0)
  let s := s.updProc rp (fun r => { r with pto := none, st := { r.st with mbxSnd := false } })
  let s ← s.readyOnTimeout rp
  some (s.setRet rp .timeout)

/-- `MRT_act_rcvfr`. -/
def actRcvfr (s : KState) (t : Timer) : Option KState := do
  let rp ← procAddr t.owner
  let s := s.updProc rp (fun r => { r with pfrom := none, st := { r.st with mbxRcv := false } })
  let s ← s.readyOnTimeout rp
  some (s.setRet rp .timeout)

/-- `MRT_act_sndrcv`. -/
def actSndrcv (v : Env) (s : KState) (t : Timer) : Option KState := do
  let rp ← procAddr t.owner
  let s ← (if (s.procs rp).st.mbxSnd then
      (s.cancelSend rp t.param).map (fun s => s.updProc rp (fun r =>
        { r with pto := none, st := { r.st with mbxSnd := false } }))
    else some s)
  let s ← s.disinherit (s.procs rp).pfrom (v.junk 0)
  let s := s.updProc rp (fun r => { r with pfrom := none, st := { r.st with mbxRcv := false } })
  let s ← s.readyOnTimeout rp
  some (s.setRet rp .timeout)

/-- `MRT_act_down`: the value of the semaphore is not changed, and `psem` stays. -/
def actDown (s : KState) (t : Timer) : Option KState := do
  let rp ← procAddr t.owner
  let m ← tabAddr 16 t.param
  let s ← s.sprocRmv m rp
  let s := s.setSt rp (fun t => { t with semDown := false })
  let s ← s.readyOnTimeout rp
  some (s.setRet rp .timeout)

/-- `MRT_act_stop`. -/
def actStop (s : KState) (t : Timer) : Option KState := do
  let rp ← procAddr t.param
  some (if (s.procs rp).realtime
    then { s.setPFlags rp (fun f => { f with pStop := true }) with needSched := true } else s)

/-- Wake a process from a timer and ask for a new scheduling decision if it runs. -/
def wakeFrom (v : Env) (s : KState) (rp : Proc) : Option KState :=
  (s.wakeup v rp).map (fun r => if r.2 = .ok then { r.1 with needSched := true } else r.1)

/-- `MRT_vtaction`: the action of the timer `t`; the flag tells `CONTINUE`.  The queue
    of interrupt descriptors that `MRT_act_irqtrig` fills is not part of the state. -/
def vtaction (v : Env) (s : KState) (t : Timer) : Option (KState × Bool) :=
  match t.action with
  | .none | .debug | .irqtrig => some (s, true)
  | .sched =>
    if t.param = hardware then some (s, true)
    else (procAddr t.param).bind (fun rp => (s.wakeFrom v rp).map (·, false))
  | .msgown =>
    (procAddr t.owner).bind (fun rp =>
      (s.ksend v hardware t.owner (s.rq.prio rp).val .krntout).map (fun r => (r.1, true)))
  | .msgwdog =>
    (procAddr t.owner).bind (fun rp =>
      (s.ksend v t.owner (s.procs rp).watchdog (s.rq.prio rp).val .krntout).map
        (fun r => (r.1, true)))
  | .sndto => (s.actSndto v t).map (·, true)
  | .rcvfr => (s.actRcvfr t).map (·, true)
  | .wakeup | .periodic => (procAddr t.owner).bind (fun rp => (s.wakeFrom v rp).map (·, false))
  | .sndrcv => (s.actSndrcv v t).map (·, true)
  | .stop => (s.actStop t).map (·, true)
  | .down => (s.actDown t).map (·, true)

/-- `MRT_vtimer_run`. -/
def vtimerRun (v : Env) (s : KState) (vt : VT) : Option KState := do
  let s := { s with tm := s.tm.upd vt (fun t => { t with timestamp := s.tm.ticks }) }
  let (s, continue?) ← s.vtaction v (s.tm.vt vt)
  let tm := if continue? then (s.tm.expRmv vt (s.tm.vt vt).priority).upd vt
      (fun t => { t with expired := t.expired + 1 }) else s.tm
  if (tm.vt vt).expired < (tm.vt vt).limit ∨ (tm.vt vt).limit = 0 then
    (tm.vtimerIns vt).map (fun t => { s with tm := t })
  else some { s with tm := tm }

/-- One turn of the loop of `MRT_vtimer_flush(pty)`, and the scheduling decision that
    `MRT_flush_int` takes when it was asked for. -/
def flushOne (v : Env) (s : KState) (pty : Prty) : Option KState :=
  match (s.tm.q.hdr (.exp pty)).first with
  | none => some s
  | some plk => do
      let vt ← (s.tm.vt plk).this
      let s ← s.vtimerRun v vt
      if s.needSched then s.pickProc else some s

end KState

end Kernel
