import Minix4rt.RtMsgModelProofs

/-! # RT semaphores — `MRT_semup`, `MRT_semdown` and the exit paths

    A negative value counts the processes in the wait list.  A mutex also records its
    `carrier`, and its link `locklk` is in the carrier's list `slockL`. -/

namespace Kernel

open ListPool Vtimer

/-- The record of a free semaphore; the name is the string `FREE`. -/
def SemRec.rst : SemRec :=
  { value := 0, priority := priLowest, order := false, inherit := false, mutex := false,
    owner := hardware, ups := 0, downs := 0, carrier := none, name := [70, 82, 69, 69] }

namespace KState

/-- Write a semaphore record. -/
def updSem (s : KState) (m : Sem) (g : SemRec → SemRec) : KState :=
  { s with ss := { s.ss with sem := Function.update s.ss.sem m (g (s.ss.sem m)) } }

/-- `MRT_sem_rst`. -/
def semRst (s : KState) (m : Sem) : KState :=
  { s with ss := { sem := Function.update s.ss.sem m .rst, alloc := s.ss.alloc.rstLink m,
                   lock := s.ss.lock.rstLink m },
           rq := { s.rq with pool := s.rq.pool.prst (some m) } }

/-- `MRT_sem_alloc`. -/
def semAlloc (s : KState) (rp : Proc) : Option (Option Sem × KState) :=
  match s.ss.alloc.first none with
  | none => some (none, s)
  | some m =>
    ((s.ss.alloc.rmv none m).app (some rp) m).map (fun P =>
      (some m, ({ s with ss := { s.ss with alloc := P } } : KState).updSem m
        (fun r => { r with owner := procNr rp })))

/-- `MRT_sem_free`. -/
def semFree (s : KState) (rp : Proc) (m : Sem) : Option KState :=
  let s := { s with ss := { s.ss with alloc := s.ss.alloc.rmv (some rp) m } }
  let s := s.semRst m
  (s.ss.alloc.app none m).map (fun P => { s with ss := { s.ss with alloc := P } })

/-- The level of the wait list of `m` for the process `p`. -/
def semLevel (s : KState) (m : Sem) (p : Proc) : Prty :=
  if (s.ss.sem m).order then s.rq.prio p else priHighest

/-- `MRT_sproc_app`. -/
def sprocApp (s : KState) (m : Sem) (p : Proc) : Option KState :=
  (s.rq.pool.papp (some m) p (s.semLevel m p)).map s.setPool

/-- `MRT_sproc_rmv`.  It tests `MQ_PRTYORDER`, which is the same bit as
    `SEM_PRTYORDER`. -/
def sprocRmv (s : KState) (m : Sem) (p : Proc) : Option KState :=
  if (s.rq.pool.aux (some m)).inQ = 0 then none
  else some (s.setPool (s.rq.pool.prmv (some m) p (s.semLevel m p)))

/-- Clear `MRT_SEM_DOWN` and `psem` of a process that waits no more. -/
def clrDown (s : KState) (p : Proc) : KState :=
  s.updProc p (fun r => { r with psem := none, st := { r.st with semDown := false } })

/-- Take `m` out of `slockL` of the current process, whoever its carrier is. -/
def unlockCur (s : KState) (m : Sem) (carrier : Option Proc) : KState :=
  ({ s with ss := { s.ss with lock := s.ss.lock.rmv s.cur m } } : KState).updSem m
    (fun r => { r with carrier := carrier })

/-- Put `m` into `slockL` of `p`. -/
def lockBy (s : KState) (p : Proc) (m : Sem) : Option KState :=
  (s.ss.lock.app p m).map (fun P => { s with ss := { s.ss with lock := P } })

/-- Hand a mutex over to the waiting process `rp`. -/
def handMutex (s : KState) (m : Sem) (rp : Proc) (junk : Option Proc) : Option KState := do
  let s ← (s.unlockCur m (some rp)).lockBy rp m
  if (s.ss.sem m).inherit then s.disinherit (some s.cur) junk else some s

/-- `MRT_semup`, the branch for a negative value. -/
def semupWake (s : KState) (m : Sem) (junk : Option Proc) : Option KState := do
  let rp ← s.sprocPick m
  let s ← s.sprocRmv m rp
  let s ← s.stopTimer (s.procs rp).ipcvt
  let s := s.updProc rp (fun r => { r with psem := none })
  let s ← (if (s.ss.sem m).mutex then s.handMutex m rp junk else some s)
  (s.setSt rp (fun t => { t with semDown := false })).readyIfClear rp

/-- `MRT_semup`. -/
def semup (s : KState) (m : Sem) (junk : Option Proc) : Option (KState × Code) :=
  if (s.ss.sem m).owner = hardware then some (s, .badSem)
  else do
    let s ← (if (s.ss.sem m).value.toInt < 0 then s.semupWake m junk
      else if (s.ss.sem m).value.toInt = 0 ∧ (s.ss.sem m).mutex then some (s.unlockCur m none)
      else some s)
    some (s.updSem m (fun r => { r with ups := r.ups + 1, value := r.value + 1 }), .ok)

/-- `MRT_semdown`, the branch that blocks the current process. -/
def semdownWait (s : KState) (m : Sem) (timeout : BitVec 32) : Option KState := do
  let s ← s.armIpc s.cur timeout .down (m.val : Int)
  let s := s.updProc s.cur (fun r =>
    { r with psem := some m, st := { r.st with semDown := true } })
  let s ← (s.rdyQRmv s.cur).sprocApp m s.cur
  if (s.ss.sem m).inherit then inherit 44 s (s.rq.prio s.cur).val (s.ss.sem m).carrier else some s

/-- `MRT_semdown`, the branch that takes a free mutex. -/
def semdownLock (s : KState) (m : Sem) : Option KState :=
  (s.updSem m (fun r => { r with carrier := some s.cur })).lockBy s.cur m

/-- The statistics and the value at the end of `MRT_semdown`. -/
def countDown (s : KState) (m : Sem) : KState :=
  s.updSem m (fun r => { r with downs := r.downs + 1, value := r.value - 1 })

/-- `MRT_semdown`. -/
def semdown (s : KState) (m : Sem) (timeout : BitVec 32) : Option (KState × Code) :=
  if (s.ss.sem m).owner = hardware then some (s, .badSem)
  else if (s.ss.sem m).value.toInt ≤ 0 then
    if timeout = noWait then some (s, .tryAgain)
    else (s.semdownWait m timeout).map (fun s => (s.countDown m, .ok))
  else if (s.ss.sem m).value.toInt = 1 ∧ (s.ss.sem m).mutex then
    (s.semdownLock m).map (fun s => (s.countDown m, .ok))
  else some (s.countDown m, .ok)

/-- `MRT_sem_unlock`: up every semaphore in the `slockL` of `rp`.  The first list
    element is read again after each `MRT_semup`; a run of more than 64 never ends. -/
def semUnlock (v : Env) (rp : Proc) : Nat → KState → Option KState
  | 0, _ => none
  | n + 1, s =>
    match s.ss.lock.first rp with
    | none => some s
    | some m => (s.semup m (v.junk n)).bind (fun r => semUnlock v rp n r.1)

/-- The inner loop of `MRT_sem_empty`: release the processes that wait on `m`. -/
def releaseWaiters (m : Sem) : Nat → KState → Option KState
  | 0, _ => none
  | n + 1, s =>
    match s.sprocPick m with
    | none => some s
    | some rpp => do
        let s ← s.sprocRmv m rpp
        let s ← s.stopTimerIf (s.procs rpp).ipcvt
        let s ← (s.clrDown rpp).readyIfClear rpp
        releaseWaiters m n (s.setRet rpp .exiting)

/-- The outer loop of `MRT_sem_empty`. -/
def semEmptyLoop : List Sem → KState → Option KState
  | [], s => some s
  | m :: ms, s => (releaseWaiters m 44 s).bind (semEmptyLoop ms)

/-- `MRT_sem_empty`. -/
def semEmpty (s : KState) (rp : Proc) : Option KState :=
  (s.ss.alloc.chain (some rp)).bind (fun ms => semEmptyLoop ms s)

end KState

end Kernel
