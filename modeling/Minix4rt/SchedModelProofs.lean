import Minix4rt.KernelStateProofs

/-! # Scheduling — the RT ready queue and the MINIX ready queues

    `MRT_ready` and `MRT_unready` link a process into `MRT_sp.rdyQ` and unlink it;
    `pick_proc` takes the head of the lowest level in use, and only when that queue
    is empty one of the MINIX queues.  A MINIX queue is a chain through `p_nextready`
    with a head and a tail pointer; a process that is linked twice closes a cycle, so
    the chains are kept as pointers. -/

namespace Kernel

open ListPool Vtimer Function

/-- `MM_PROC_NR`, `FS_PROC_NR`, `MRTTASK`, `IDLE` and `HARDWARE`, as slots. -/
def mmProc : Proc := 11
def fsProc : Proc := 12
def mrtTask : Proc := 2
def idle : Proc := 4
def hardwareProc : Proc := 10

/-- `istaskp`. -/
def isTask (p : Proc) : Bool := decide (p.val < 11) && decide (p ≠ idle)

/-- `isuserp`. -/
def isUser (p : Proc) : Bool := decide (13 ≤ p.val)

namespace KState

/-! ## The RT ready queue -/

/-- The process links after a change. -/
def setPool (s : KState) (P : Pool Empty (Option Sem) Proc 16) : KState :=
  { s with rq := { s.rq with pool := P } }

/-- `MRT_rdyQ_app`, also called `MRT_ready`.  The schedule limit stops `proc_ptr`,
    whoever that is, and leaves `p` unlinked. -/
def rdyQApp (s : KState) (p : Proc) : Option KState :=
  if (s.procs p).limit < s.rq.scheds p ∧ 0 < (s.procs p).limit then
    some (s.setPFlags s.cur (fun f => { f with pStop := true }))
  else (s.rq.pool.papp none p (s.rq.prio p)).map s.setPool

/-- `MRT_rdyQ_ins`. -/
def rdyQIns (s : KState) (p : Proc) : KState :=
  s.setPool (s.rq.pool.pins none p (s.rq.prio p))

/-- `MRT_rdyQ_rmv`, also called `MRT_unready`. -/
def rdyQRmv (s : KState) (p : Proc) : KState :=
  s.setPool (s.rq.pool.prmv none p (s.rq.prio p))

/-- `if (MRT_is_rtready(rp)) MRT_ready(rp)`. -/
def readyIfClear (s : KState) (p : Proc) : Option KState :=
  if s.rtReady p then s.rdyQApp p else some s

/-- The timer actions' form of it, which also asks for a new scheduling decision. -/
def readyOnTimeout (s : KState) (p : Proc) : Option KState :=
  if s.rtReady p then (s.rdyQApp p).map (fun s => { s with needSched := true }) else some s

/-- `MRT_pick_proc`; the flag tells whether a process was found. -/
def mrtPickProc (s : KState) : Option (KState × Bool) :=
  let s := { s with needSched := false }
  match s.rq.pool.pget none with
  | none => some ({ s with prtylvl := priLowest }, false)
  | some x =>
    match (s.procs x).this with
    | none => none
    | some p =>
      let scheds := update s.rq.scheds p (s.rq.scheds p + 1)
      some ({ s with cur := p, prtylvl := s.rq.prio p,
                     rq := { s.rq with scheds := scheds } }, true)

/-! ## The MINIX queues -/

/-- The tail of `pick_proc`, over the MINIX queues. -/
def minixPick (s : KState) : KState :=
  let s := { s with rtSched := false }
  match s.mx.rdyHead .task, s.mx.rdyHead .server, s.mx.rdyHead .user with
  | some p, _, _ => { s with cur := p }
  | none, some p, _ => { s with cur := p }
  | none, none, some p => { s with cur := p }
  | none, none, none => { s with cur := idle }

/-- `pick_proc`. -/
def pickProc (s : KState) : Option KState :=
  if s.rtMode then
    match s.mrtPickProc with
    | none => none
    | some (s, true) => some { s with rtSched := true }
    | some (s, false) => some s.minixPick
  else some s.minixPick

/-- The queue that a process belongs to. -/
def rdyQ (p : Proc) : RdyQ := if isTask p then .task else if isUser p then .user else .server

/-- Append `p` to the queue `k`.  The tail pointer of a queue that is not empty is never
    null. -/
def appendReady (s : KState) (k : RdyQ) (p : Proc) : KState :=
  let next := match s.mx.rdyHead k, s.mx.rdyTail k with
    | some _, some t => update s.mx.nextready t (some p)
    | _, _ => s.mx.nextready
  { s with mx := { s.mx with
      rdyHead := if s.mx.rdyHead k = none then update s.mx.rdyHead k (some p)
        else s.mx.rdyHead,
      rdyTail := update s.mx.rdyTail k (some p),
      nextready := update next p none } }

/-- Append a task; one that finds its queue empty becomes the current process. -/
def readyTask (s : KState) (p : Proc) : KState :=
  { s.appendReady .task p with cur := if s.mx.rdyHead .task = none then p else s.cur }

/-- `ready`.  A user process goes to the front of its queue. -/
def ready (s : KState) (p : Proc) : KState :=
  match rdyQ p with
  | .task => s.readyTask p
  | .server => s.appendReady .server p
  | .user =>
    { s with mx := { s.mx with
        rdyTail := if s.mx.rdyHead .user = none then update s.mx.rdyTail .user (some p)
          else s.mx.rdyTail,
        nextready := update s.mx.nextready p (s.mx.rdyHead .user),
        rdyHead := update s.mx.rdyHead .user (some p) } }

/-- The search of `unready` for the process before `p`, from `x` on; a chain of more than
    44 processes has no end. -/
def beforeReady (s : KState) (p : Proc) : Nat → Proc → Option (Option Proc)
  | 0, _ => none
  | n + 1, x =>
    match s.mx.nextready x with
    | none => some none
    | some y => if y = p then some (some x) else beforeReady s p n y

/-- `unready` of the head of a queue.  A new process is picked, for a task only when it is
    the current process. -/
def unreadyHead (s : KState) (k : RdyQ) (p : Proc) : Option KState :=
  let s := { s with mx := { s.mx with
    rdyHead := update s.mx.rdyHead k (s.mx.nextready p) } }
  if k ≠ .task ∨ p = s.cur then s.pickProc else some s

/-- Unlink `p`, which is behind `x` in the queue `k`. -/
def unreadyBehind (s : KState) (k : RdyQ) (x p : Proc) : KState :=
  { s with mx := { s.mx with
      nextready := update s.mx.nextready x (s.mx.nextready p),
      rdyTail := if s.mx.rdyTail k = some p then update s.mx.rdyTail k (some x)
        else s.mx.rdyTail } }

/-- `unready`. -/
def unready (s : KState) (p : Proc) : Option KState :=
  match s.mx.rdyHead (rdyQ p) with
  | none => some s
  | some x =>
    if x = p then s.unreadyHead (rdyQ p) p
    else (s.beforeReady p 44 x).map (fun o =>
      match o with
      | none => s
      | some x => s.unreadyBehind (rdyQ p) x p)

/-- `sched`: the head of the user queue goes to its end. -/
def sched (s : KState) : Option KState :=
  match s.mx.rdyHead .user, s.mx.rdyTail .user with
  | some h, some t =>
    let next := update s.mx.nextready t (some h)
    KState.pickProc { s with mx := { s.mx with
      rdyTail := update s.mx.rdyTail .user (some h),
      rdyHead := update s.mx.rdyHead .user (next h),
      nextready := update next h none } }
  | some _, none => none
  | none, _ => some s

end KState

end Kernel
