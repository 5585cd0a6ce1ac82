import Minix4rt.RendezvousModelProofs

/-! # Interrupts and the system task — who is made ready and who is not

    `interrupt` hands a message to a task that waits for one.  The system task serves MM
    and FS: a fork, a new map, an exec, the end of a signal, tracing; and `cause_sig` sets a signal
    for a process and inhibits it until MM has dealt with the signal.  Each of them tests
    `p_flags` before or after it changes them, and calls `ready` or `unready`.

    Registers, maps, names, times and alarms are left out.  An interrupt that comes while
    the kernel switches processes is held back and repeated later; here it is the repeated
    one. -/

namespace Kernel

open Vtimer Function

/-- `isokusern`: a user process, not MM, FS or a task. -/
def isOkUser (n : Int) : Bool := decide (2 ≤ n) && decide (n < 32)

/-- `isoksusern`: a server or a user process. -/
def isOkServUser (n : Int) : Bool := decide (0 ≤ n) && decide (n < 32)

namespace KState

/-! ## Interrupts -/

/-- The process `t` waits for an interrupt message. -/
def awaitsInt (s : KState) (t : Proc) : Bool :=
  (s.mx.flags t).receiving && !(s.mx.flags t).sending && isRxHardware (s.mx.getfrom t)

/-- `interrupt`.  It appends to the queue of the tasks without a look at the other flags. -/
def interrupt (s : KState) (t : Proc) : KState :=
  if s.awaitsInt t then
    let s := s.setPFlags t (fun f => { f with receiving := false })
    ({ s with mx := { s.mx with
      intBlocked := update s.mx.intBlocked t false } } : KState).readyTask t
  else { s with mx := { s.mx with intBlocked := update s.mx.intBlocked t true } }

/-! ## Signals -/

/-- The part of `cause_sig` for a process without other pending signals. -/
def markPending (s : KState) (rp : Proc) : Option KState := do
  let s ← s.unreadyIfZero rp
  let s := s.setPFlags rp (fun f => { f with pending := true, sigPending := true })
  let s := { s with mx := { s.mx with sigProcs := s.mx.sigProcs + 1 } }
  if (s.mx.flags mmProc).receiving ∧ s.mx.getfrom mmProc = any then s.inform else some s

/-- Count the new signal `sig` of `rp`. -/
def addSig (s : KState) (rp : Proc) (sig : Sig) : KState :=
  { s with mx := { s.mx with
      pending := update s.mx.pending rp (insert sig (s.mx.pending rp)),
      pendcount := update s.mx.pendcount rp (s.mx.pendcount rp + 1) } }

/-- `cause_sig`. -/
def causeSig (s : KState) (nr : Int) (sig : Sig) : Option KState := do
  let rp ← procAddr nr
  if sig ∈ s.mx.pending rp then some s
  else if (s.mx.flags rp).pending then some (s.addSig rp sig)
  else (s.addSig rp sig).markPending rp

/-- `do_endsig`: MM has finished one signal of a process. -/
def doEndsig (s : KState) (nr : Int) : Option (KState × Code) :=
  if ¬ isOkUser nr then some (s, .badProc)
  else do
    let rp ← procAddr nr
    if s.mx.pendcount rp = 0 then some (s, .ok)
    else
      let n := s.mx.pendcount rp - 1
      let s := { s with mx := { s.mx with
        pendcount := update s.mx.pendcount rp n } }
      if n = 0 then
        some ((s.setPFlags rp (fun f => { f with sigPending := false })).readyIfZero rp, .ok)
      else some (s, .ok)

/-! ## Fork -/

/-- `*rpc = *rpp` and the new pid: the slot of `c` becomes a copy of that of `p`, with all
    links and list headers in it. -/
def copyProc (s : KState) (p c : Proc) (pid : Int) : KState :=
  { s with
    procs := update s.procs c { s.procs p with pid := pid }
    rq := { s.rq with
      pool := { s.rq.pool with C := { s.rq.pool.C with
        lk := update s.rq.pool.C.lk c (s.rq.pool.C.lk p) } },
      prio := update s.rq.prio c (s.rq.prio p),
      scheds := update s.rq.scheds c (s.rq.scheds p) }
    ss := { s.ss with
      alloc := { s.ss.alloc with C := { s.ss.alloc.C with
        hdr := update s.ss.alloc.C.hdr (.plain (some c)) (s.ss.alloc.C.hdr (.plain (some p))) } },
      lock := { s.ss.lock with C := { s.ss.lock.C with
        hdr := update s.ss.lock.C.hdr (.plain c) (s.ss.lock.C.hdr (.plain p)) } } }
    mx := { s.mx with
      flags := update s.mx.flags c (s.mx.flags p),
      getfrom := update s.mx.getfrom c (s.mx.getfrom p),
      sendto := update s.mx.sendto c (s.mx.sendto p),
      callerq := update s.mx.callerq c (s.mx.callerq p),
      sendlink := update s.mx.sendlink c (s.mx.sendlink p),
      intBlocked := update s.mx.intBlocked c (s.mx.intBlocked p),
      nextready := update s.mx.nextready c (s.mx.nextready p),
      pending := update s.mx.pending c (s.mx.pending p),
      pendcount := update s.mx.pendcount c (s.mx.pendcount p) }
    msgsent := update s.msgsent c (s.msgsent p)
    msgrcvd := update s.msgrcvd c (s.msgrcvd p)
    retreg := update s.retreg c (s.retreg p) }

/-- `do_fork`: the child has no signals, and cannot run before it has a map. -/
def doFork (s : KState) (proc1 proc2 pid : Int) : Option (KState × Code) :=
  if ¬ isOkServUser proc1 ∨ ¬ isOkServUser proc2 then some (s, .badProc)
  else do
    let rpp ← procAddr proc1
    let rpc ← procAddr proc2
    let s := (s.copyProc rpp rpc pid).setPFlags rpc (fun f =>
      { f with noMap := true, pending := false, sigPending := false, pStop := false })
    some ({ s with
      mx := { s.mx with
        pending := update s.mx.pending rpc ∅,
        pendcount := update s.mx.pendcount rpc 0 },
      retreg := update s.retreg rpc (some .ok) }, .ok)

/-! ## Maps, exec and tracing -/

/-- `do_newmap`; a map outside the memory of the caller is a panic. -/
def doNewmap (s : KState) (k : Int) (addrOk : Bool) : Option (KState × Code) :=
  match procAddr k with
  | none => some (s, .badProc)
  | some rp =>
    if ¬ addrOk then none
    else
      let old := s.flagsZero rp
      let s := s.setPFlags rp (fun f => { f with noMap := false })
      some (if old = false then s.readyIfZero rp else s, .ok)

/-- `SIGTRAP`. -/
def sigtrap : Sig := 5

/-- `do_exec`; a traced process gets a `SIGTRAP` first. -/
def doExec (s : KState) (nr : Int) (traced : Bool) : Option (KState × Code) :=
  if ¬ isOkServUser nr then some (s, .badProc)
  else do
    let s ← (if traced then s.causeSig nr sigtrap else some s)
    let rp ← procAddr nr
    some ((s.setPFlags rp (fun f => { f with receiving := false })).readyIfZero rp, .ok)

/-- The requests of `do_trace`; those that read or write memory or registers do not
    change who runs. -/
inductive TraceReq where
  | stop | resume | step | data
deriving DecidableEq, Repr

/-- `do_trace`; the process number is not checked. -/
def doTrace (s : KState) (nr : Int) (req : TraceReq) : Option (KState × Code) := do
  let rp ← procAddr nr
  if (s.mx.flags rp).slotFree then some (s, .io)
  else match req with
    | .stop => do
        let s ← s.unreadyIfZero rp
        some (s.setPFlags rp (fun f => { f with pStop := true }), .ok)
    | .resume | .step =>
      some ((s.setPFlags rp (fun f => { f with pStop := false })).readyIfZero rp, .ok)
    | .data => some (s, .ok)

end KState

end Kernel
