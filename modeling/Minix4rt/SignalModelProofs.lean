import Minix4rt.SystemModelProofs

/-! # Kernel signals and MM — `cause_sig`, `inform`, `do_ksig` and `sys_endsig`

    A kernel signal goes through four hands.  `cause_sig` notes it in `p_pending` and
    raises `p_pendcount`; `inform` gives all signals of a process to MM in one `KSIG`
    message when MM blocks; `do_ksig` of MM loops over the message; and for each signal it
    has dealt with, MM asks the system task to lower `p_pendcount` again.

    The system here is the kernel with the part of MM that matters: the flags `IN_USE`,
    `HANGING` and `ALARM_ON` of its table, and where `do_ksig` is in its loop.  MM has one
    thread: while a `KSIG` message waits or the loop runs, it serves no other request, but
    a signal may kill any process from within the loop.  Which processes `check_sig`
    selects, and what a signal does to one that survives it, is left out; a signal that
    kills is an exit.  The calls of the RT kernel touch no signal and are left out. -/

namespace Kernel

open Vtimer

/-- `SIGALRM`. -/
def sigalrm : Sig := 14

/-- `for (i = 1; i <= _NSIG; i++) if (sigismember(&sig_map, i))`. -/
def sigLoop (map : Finset Sig) : List Sig :=
  (List.finRange 32).filter (fun i => decide (1 ≤ i.val) && decide (i.val ≤ 16) && decide (i ∈ map))

/-- The flags of `mproc`, and the loop of `do_ksig`: the process, the signals still to be
    looked at, and whether the first of them is being delivered. -/
structure MmSig where
  inUse : Proc → Bool
  hanging : Proc → Bool
  alarmOn : Proc → Bool
  work : Option (Proc × List Sig)
  asked : Bool

/-- The kernel and MM. -/
structure SigSys where
  k : KState
  mm : MmSig

/-- What happens.  `call` is a system call of any process, MM included; `cause` is a
    `cause_sig` of a task; `ksig`, `next` and `ack` are the steps of `do_ksig`; `alarm`,
    `exit`, `reap` and `fork` are other work of MM; the rest is done by the kernel. -/
inductive SigEvent where
  | call (c : Proc) (fn : Fn) (srcDest : Int) (addrOk : Bool)
  | cause (nr : Int) (sig : Sig)
  | ksig
  | next
  | ack
  | alarm (p : Proc) (on : Bool)
  | exit (parent p : Proc) (waited : Bool)
  | reap (p : Proc)
  | fork (parent child : Proc) (pid : Int)
  | newmap (k : Int) (addrOk : Bool)
  | exec (nr : Int) (traced : Bool)
  | trace (nr : Int) (req : KState.TraceReq)
  | interrupt (task : Proc)
  | sched

namespace SigSys

/-- MM is at no kernel signal. -/
def free (x : SigSys) : Bool := x.k.mx.ksig.isNone && x.mm.work.isNone

/-- A call that MM can make: MM runs, and it asks for new work only when it has none. -/
def mmMay (x : SigSys) (fn : Fn) (n : Int) : Bool :=
  !(x.k.mx.flags mmProc).sending && !(x.k.mx.flags mmProc).receiving &&
    (decide (fn ≠ .receive) || decide (n ≠ any) || x.free)

/-- The start of `do_ksig`; a message for a dead process is dropped. -/
def doKsig (x : SigSys) : Option SigSys :=
  match x.k.mx.ksig with
  | none => none
  | some (rp, map) =>
    let k := { x.k with mx := { x.k.mx with ksig := none } }
    if x.mm.inUse rp = false ∨ x.mm.hanging rp = true then some { x with k := k }
    else some ⟨k, { x.mm with work := some (rp, sigLoop map), asked := false }⟩

/-- One turn of the loop of `do_ksig` up to `check_sig`, or the end of the loop.  A
    `SIGALRM` for a process without an alarm is skipped. -/
def ksigNext (x : SigSys) : Option SigSys :=
  match x.mm.work, x.mm.asked with
  | some (_, []), false => some { x with mm := { x.mm with work := none } }
  | some (rp, sig :: sigs), false =>
    if sig = sigalrm ∧ x.mm.alarmOn rp = false then
      some { x with mm := { x.mm with work := some (rp, sigs) } }
    else some { x with mm := { x.mm with
      asked := true,
      alarmOn := if sig = sigalrm then Function.update x.mm.alarmOn rp false
        else x.mm.alarmOn } }
  | _, _ => none

/-- `sys_endsig`, after `check_sig`. -/
def ksigAck (x : SigSys) : Option SigSys :=
  match x.mm.work, x.mm.asked with
  | some (rp, _ :: sigs), true =>
    (x.k.doEndsig (procNr rp)).map (fun r =>
      ⟨r.1, { x.mm with work := some (rp, sigs), asked := false }⟩)
  | _, _ => none

/-- `mm_exit`: the alarm is put off, the kernel frees its slot, and that of MM is free at
    once if the parent waits. -/
def mmExit (x : SigSys) (parent p : Proc) (waited : Bool) : Option SigSys :=
  (x.k.doXit (procNr parent) (procNr p)).map (fun r =>
    ⟨r.1, { x.mm with
      alarmOn := Function.update x.mm.alarmOn p false,
      inUse := Function.update x.mm.inUse p (!waited),
      hanging := Function.update x.mm.hanging p (!waited) }⟩)

/-- `do_fork` of MM: the child's slot is a copy of the parent's. -/
def mmFork (x : SigSys) (parent child : Proc) (pid : Int) : Option SigSys :=
  (x.k.doFork (procNr parent) (procNr child) pid).map (fun r =>
    ⟨r.1, { x.mm with
      inUse := Function.update x.mm.inUse child (x.mm.inUse parent),
      hanging := Function.update x.mm.hanging child (x.mm.hanging parent),
      alarmOn := Function.update x.mm.alarmOn child (x.mm.alarmOn parent) }⟩)

/-- A process of the table that has not exited. -/
def inTable (x : SigSys) (p : Proc) : Bool := x.mm.inUse p && !x.mm.hanging p

/-- Do it in the kernel. -/
def inKernel (x : SigSys) (o : Option KState) : Option SigSys := o.map (fun k => { x with k := k })

/-- One event; `none` when it cannot happen, or is a panic. -/
def sigStep (x : SigSys) : SigEvent → Option SigSys
  | .call c fn n ok =>
    if c = mmProc ∧ ¬ x.mmMay fn n then none
    else x.inKernel ((x.k.sysCall c fn n ok).map Prod.fst)
  | .cause nr sig => x.inKernel (x.k.causeSig nr sig)
  | .ksig => x.doKsig
  | .next => x.ksigNext
  | .ack => x.ksigAck
  | .alarm p on =>
    if x.free then some { x with mm := { x.mm with
      alarmOn := Function.update x.mm.alarmOn p on } }
    else none
  | .exit parent p waited =>
    -- a request, or a signal of the loop
    if 11 ≤ parent.val ∧ isUser p ∧ x.mm.inUse p ∧ (x.free ∨ x.k.mx.ksig = none ∧ x.mm.asked)
    then x.mmExit parent p waited
    else none
  | .reap p =>
    if x.mm.hanging p then some { x with mm := { x.mm with
      inUse := Function.update x.mm.inUse p false,
      hanging := Function.update x.mm.hanging p false,
      alarmOn := Function.update x.mm.alarmOn p false } }
    else none
  | .fork parent child pid =>
    if x.free ∧ 11 ≤ parent.val ∧ x.inTable parent ∧ isUser child ∧ ¬ x.mm.inUse child
    then x.mmFork parent child pid
    else none
  | .newmap n ok => x.inKernel ((x.k.doNewmap n ok).map Prod.fst)
  | .exec n traced => x.inKernel ((x.k.doExec n traced).map Prod.fst)
  | .trace n req => x.inKernel ((x.k.doTrace n req).map Prod.fst)
  | .interrupt t => some { x with k := x.k.interrupt t }
  | .sched => x.inKernel x.k.sched

/-- A sequence of events. -/
def sigRun : SigSys → List SigEvent → Option SigSys
  | x, [] => some x
  | x, e :: es => (x.sigStep e).bind (fun x => x.sigRun es)

/-- The signals of `KSIG` messages for `p` that MM has received and not finished. -/
def unfinished (x : SigSys) (p : Proc) : Nat :=
  (match x.k.mx.ksig with
    | some (rp, map) => if rp = p then map.card else 0
    | none => 0) +
  match x.mm.work with
    | some (rp, sigs) => if rp = p then sigs.length else 0
    | none => 0

end SigSys

end Kernel
