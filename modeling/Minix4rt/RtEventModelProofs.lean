import Minix4rt.RunProofs
import Minix4rt.RtProcModelProofs

/-! # The RT kernel as a machine — kernel calls, MRTTASK calls, ticks and flushes

    An event is one entry into the kernel: a call of `rtk_call` by a running process, a
    request served by `MRTTASK`, a clock interrupt, one timer action of the flush loop,
    or one of the kernel functions that interrupt handlers call.  Which process runs is
    an input, so every interleaving is a run; a process that is blocked runs nothing. -/

namespace Kernel

open ListPool Vtimer Function Option

/-- Attributes of a process (`mrt_pattr_t`). -/
structure PAttr where
  realtime : Bool
  periodic : Bool
  base : Nat
  period : BitVec 32
  limit : BitVec 32
  deadline : BitVec 32
  watchdog : Int
  mqSize : Int
  mqOrder : Bool
  mqInherit : Bool
deriving DecidableEq, Repr

/-- The string that starts the memory `bytes`. -/
def cstr (bytes : List UInt8) : List UInt8 := bytes.takeWhile (· ≠ 0)

/-- Attributes of a semaphore (`mrt_semattr_t`).  `name` is the memory from the field of
    that name on, which has 16 bytes and need not contain a zero. -/
structure SAttr where
  name : List UInt8
  value : BitVec 32
  priority : Nat
  order : Bool
  inherit : Bool
  mutex : Bool
deriving DecidableEq, Repr

/-- The calls of `rtk_call`; the parameters are already in kernel memory. -/
inductive Call where
  | set2rt
  | set2nrt
  | sleep (timeout : BitVec 32)
  | wakeup (nr pid : Int)
  | rqst (ipc : KState.Ipc)
  | reply (ipc : KState.Ipc)
  | arqst (ipc : KState.Ipc)
  | uprqst (ipc : KState.Ipc)
  | sign (ipc : KState.Ipc)
  | receive (ipc : KState.Ipc)
  | rqrcv (ipc : KState.Ipc)
  | semup (id : Int)
  | semdown (id : Int) (timeout : BitVec 32)
deriving DecidableEq, Repr

/-- The requests to `MRTTASK`; `caller` is the pid in the message. -/
inductive Request where
  | setpattr (caller : Int) (a : PAttr)
  | semalloc (caller : Int) (a : SAttr)
  | semfree (caller : Int) (id : Int)
  | exit (caller : Int)
  | stdsignal (caller pid : Int)
deriving DecidableEq, Repr

/-- The types of kernel messages. -/
inductive KrnType where
  | irq | tout | dline | wdog | proc
deriving DecidableEq, Repr

def KrnType.mtype : KrnType → MType
  | .irq => .krnirq
  | .tout => .krntout
  | .dline => .krndline
  | .wdog => .krnwdog
  | .proc => .krnproc

/-- The entries into the kernel; `p` is the running process. -/
inductive Event where
  | rtk (p : Proc) (v : Env) (c : Call)
  | task (v : Env) (r : Request)
  | ksend (p : Proc) (v : Env) (src dest : Int) (prty : Prty) (t : KrnType)
  | inherit (prty : Prty) (o : Proc)
  | disinherit (o : Proc) (junk : Option Proc)
  | irqTimer (per : BitVec 32) (irq : Int) (prty : Prty)
  | tick
  | flush (p : Proc) (v : Env) (prty : Prty)

namespace KState

/-! ## Requests -/

/-- `MRT_pid2pptr`. -/
def pid2pptr (s : KState) (pid : Int) : Option Proc :=
  ((List.finRange 43).find? (fun p => decide ((s.procs p).pid = pid))).bind (fun p =>
    if ¬ (s.procs p).realtime ∧ s.mx.flags p = { PFlags.clear with slotFree := true }
    then none else some p)

/-- The watchdog named by an attribute set is another live RT process. -/
def watchdogOk (s : KState) (caller : Proc) (pid : Int) : Bool :=
  match s.pid2pptr pid with
  | none => false
  | some wd => (s.procs wd).realtime && decide (wd ≠ caller)

/-- Copy an attribute set with the base priority `k` to the process descriptor. -/
def writeAttr (s : KState) (p : Proc) (a : PAttr) (k : Prty) : KState :=
  let s := s.setPrio p k
  let s := s.updProc p (fun r =>
    { r with st := .clear, periodic := a.periodic, base := k, period := a.period,
             limit := if a.periodic then 0 else a.limit, deadline := a.deadline,
             watchdog := a.watchdog, mqSize := a.mqSize, mqOrder := a.mqOrder,
             mqInherit := a.mqInherit, this := some p })
  s.setPool (s.rq.pool.rstLink p)

/-- `MRT_setpattr`. -/
def setpattr (v : Env) (s : KState) (caller : Proc) (a : PAttr) : Option (KState × Code) :=
  if ¬ v.msg caller then some (s, .inval)
  else if ¬ a.realtime then some (s, .ok)
  else if a.base = 0 then some (s, .badPrty)
  else match prtyOf a.base with
    | none => some (s, .badPrty)
    | some k =>
      if a.watchdog ≠ hardware ∧ ¬ s.watchdogOk caller a.watchdog then some (s, .badWdog)
      else some (s.writeAttr caller a k, .ok)

/-- The name of a semaphore as `strcmp` reads it.  A name that fills its field runs on into
    the bitmap of the wait list, of which two bytes may differ from zero. -/
def semName (s : KState) (m : Sem) : List UInt8 :=
  let name := (s.ss.sem m).name
  let bitmap := (s.rq.pool.aux (some m)).bitmap.toNat
  if name.length < 16 then name
  else name ++ cstr [UInt8.ofNat bitmap, UInt8.ofNat (bitmap / 256)]

/-- `MRT_semalloc`. -/
def semalloc (v : Env) (s : KState) (caller : Proc) (a : SAttr) : Option (KState × Code) :=
  if ¬ v.msg caller then some (s, .inval)
  else if (List.finRange 16).any (fun m => decide (s.semName m = cstr a.name)) then
    some (s, .badName)
  else if a.mutex ∧ 1 < a.value.toInt then some (s, .badValue)
  else if a.inherit ∧ ¬ a.mutex ∧ ¬ a.order then some (s, .badFlags)
  else match prtyOf a.priority with
    | none => some (s, .badPrty)
    | some k => do
        match ← s.semAlloc caller with
        | (none, s) => some (s, .noSem)
        | (some m, s) =>
          some (s.updSem m (fun r =>
            { r with order := a.order, inherit := a.inherit, mutex := a.mutex, value := a.value,
                     priority := k, name := (cstr a.name).take 16 }), .val m.val)

/-- `MRT_semfree`. -/
def semfree (s : KState) (caller : Proc) (id : Int) : Option (KState × Code) :=
  match tabAddr 16 id with
  | none => some (s, .badSem)
  | some m =>
    if (s.ss.sem m).owner = hardware then some (s, .freeSem)
    else if (s.ss.sem m).owner ≠ procNr caller then some (s, .perm)
    else (s.semFree caller m).map (·, .ok)

/-- The loop of `MRT_exit` that frees the semaphores of `rp`. -/
def freeSems (rp : Proc) : Nat → KState → Option KState
  | 0, _ => none
  | n + 1, s =>
    match s.ss.alloc.first (some rp) with
    | none => some s
    | some m => (s.semFree rp m).bind (freeSems rp n)

/-- `MRT_proc_rst`. -/
def procRst (s : KState) (rp : Proc) : KState :=
  let s := s.updProc rp (fun r =>
    { r with st := .clear, periodic := false, base := priLowest, period := 0, limit := 0,
             deadline := 0, watchdog := hardware, mqSize := 0, mqOrder := false,
             mqInherit := false, pmq := none, pvt := none, ipcvt := none, pto := none,
             pfrom := none, psem := none, this := some rp })
  { s with
    rq := { pool := s.rq.pool.rstLink rp, prio := update s.rq.prio rp priLowest,
            scheds := update s.rq.scheds rp 0 },
    ss := { s.ss with alloc := s.ss.alloc.lrst (some rp), lock := s.ss.lock.lrst rp },
    msgsent := update s.msgsent rp 0, msgrcvd := update s.msgrcvd rp 0 }

/-- `MRT_exit`: the number in the message is taken as a slot. -/
def mrtExit (v : Env) (s : KState) (nr : Int) : Option (KState × Code) := do
  let rp ← procAddr nr
  let (s, _) ← s.set2nrt v rp
  let s ← freeSems rp 17 s
  some (s.procRst rp, .ok)

/-- `MRT_stdsignal`. -/
def stdsignal (v : Env) (s : KState) (pid : Int) : Option (KState × Code) :=
  match s.pid2pptr pid with
  | none => some (s, .badProc)
  | some rp => s.set2nrt v rp

/-- The checks of `MRT_sys_task` before a request: the caller, found by its pid, must be
    an RT process exactly when `rt` says so. -/
def request (s : KState) (caller : Int) (rt : Bool) (f : Proc → Option (KState × Code)) :
    Option (KState × Code) :=
  if ¬ s.rtMode then some (s, .noRtMode)
  else do
    let c ← s.pid2pptr caller
    if (s.procs c).realtime = rt then f c else some (s, .badPtype)

/-- The requests of `MRT_sys_task`. -/
def serve (v : Env) (s : KState) : Request → Option (KState × Code)
  | .setpattr caller a => s.request caller false (fun c => s.setpattr v c a)
  | .semalloc caller a => s.request caller false (fun c => s.semalloc v c a)
  | .semfree caller id => s.request caller false (fun c => s.semfree c id)
  | .exit caller => s.request caller true (fun _ => s.mrtExit v caller)
  | .stdsignal caller pid => s.request caller false (fun _ => s.stdsignal v pid)

/-! ## Kernel calls -/

/-- `rtk_semup` and `rtk_semdown`: the index is not checked. -/
def rtkSemup (v : Env) (s : KState) (id : Int) : Option (KState × Code) :=
  (tabAddr 16 id).bind (fun m => s.semup m (v.junk 0))

def rtkSemdown (s : KState) (id : Int) (timeout : BitVec 32) : Option (KState × Code) :=
  (tabAddr 16 id).bind (fun m => s.semdown m timeout)

/-- `MRT_kernel[rtk_nr]`. -/
def dispatch (v : Env) (s : KState) : Call → Option (KState × Code)
  | .set2rt => s.rtkSet2rt
  | .set2nrt => s.set2nrt v s.cur
  | .sleep t => s.sleep s.cur t
  | .wakeup nr pid => s.rtkWakeup v nr pid
  | .rqst ipc => s.rtkRqst v ipc
  | .reply ipc => s.rtkReply v ipc
  | .arqst ipc => s.rtkArqst v ipc
  | .uprqst ipc => s.rtkUprqst v ipc
  | .sign ipc => s.rtkSign v ipc
  | .receive ipc => s.rtkReceive v ipc
  | .rqrcv ipc => s.rtkRqrcv v ipc
  | .semup id => s.rtkSemup v id
  | .semdown id t => s.rtkSemdown id t

/-- `rtk_call`, made by the current process. -/
def rtkCall (v : Env) (s : KState) (c : Call) : Option (KState × Code) :=
  if ¬ s.rtMode then some (s, .noRtMode)
  else if c ≠ .set2rt ∧ ¬ (s.procs s.cur).realtime then some (s, .badPtype)
  else do
    let (s, r) ← s.dispatch v c
    let s ← s.pickProc
    some (s, r)

/-! ## The machine -/

/-- The process `p` can be the running one: it is a process, and an RT process is not
    blocked. -/
def canRun (s : KState) (p : Proc) : Bool :=
  decide (p ≠ hardwareProc) && (!(s.procs p).realtime || s.rtReady p)

/-- `p` runs when the kernel is entered. -/
def enter (s : KState) (p : Proc) : Option KState :=
  if s.canRun p then some { s with cur := p } else none

/-- One event.  `MRTTASK` goes back to its receive after a request, which picks a new
    process. -/
def step (s : KState) : Event → Option KState
  | .rtk p v c => (s.enter p).bind (fun s => (s.rtkCall v c).map Prod.fst)
  | .task v r => (s.enter mrtTask).bind (fun s => (s.serve v r).bind (fun r => r.1.pickProc))
  | .ksend p v src dest prty t =>
    (s.enter p).bind (fun s => (s.ksend v src dest prty.val t.mtype).map Prod.fst)
  | .inherit prty o => inherit 44 s prty.val (some o)
  | .disinherit o junk => s.disinherit (some o) junk
  | .irqTimer per irq prty =>
    (s.vtalloc per 0 .irqtrig irq hardware prty).bind (fun r => r.2.insTimer r.1)
  | .tick => s.tm.clockIrq.map (fun t => { s with tm := t })
  | .flush p v prty => (s.enter p).bind (fun s => s.flushOne v prty)

/-- A sequence of events. -/
def run : KState → List Event → Option KState
  | s, [] => some s
  | s, e :: es => (s.step e).bind (fun s => s.run es)

end KState

/-! ## The initial states -/

/-- `MRT_msgQ_init` and `MRT_mpool_init`. -/
def MsgSt.init : Option MsgSt := do
  let m ← (List.finRange 16).foldlM (fun m q => m.msgQFree q) MsgSt.bss
  (List.finRange 32).foldlM (fun m e =>
    ((m.mqeRst e).pool.app () e).map (fun P => { m.mqeRst e with pool := P })) m

/-- `MRT_spool_init`, the links and records of the semaphores. -/
def SemSt.init : Option SemSt :=
  (List.finRange 16).foldlM (fun t m =>
    ((t.alloc.rstLink m).app none m).map (fun P =>
      { sem := update t.sem m .rst, alloc := P, lock := t.lock.rstLink m })) SemSt.bss

/-- The states in which RT mode has just been started: the pools are full and no
    process is an RT process.  The attributes of the processes, the MINIX part and the
    mode flags are arbitrary. -/
structure Initial (s : KState) : Prop where
  procs : ∀ p, (s.procs p).realtime = false ∧ (s.procs p).st = .clear ∧
    (s.procs p).pfrom = none ∧ (s.procs p).pto = none ∧ (s.procs p).psem = none ∧
    (s.procs p).pmq = none ∧ (s.procs p).pvt = none ∧ (s.procs p).ipcvt = none ∧
    ((s.procs p).this = none ∨ (s.procs p).this = some p)
  rq : s.rq.pool = .empty
  tm : TimerSt.vtimerInit = some s.tm
  ms : MsgSt.init = some s.ms
  ss : SemSt.init = some s.ss

/-- The states reached from `s₀` by steps that all meet the condition `ok`. -/
abbrev ReachBy (ok : KState → Event → Prop) (s₀ : KState) : KState → Prop :=
  Run.ReachBy KState.step ok s₀

/-- A run that checks the condition before every step. -/
abbrev KState.runBy (s₀ : KState) (ok : KState → Event → Prop) [∀ s e, Decidable (ok s e)]
    (es : List Event) : Option KState := Run.runBy KState.step ok s₀ es

theorem ReachBy.mono {ok ok' : KState → Event → Prop} {s₀ s : KState} (h : ReachBy ok s₀ s)
    (hok : ∀ s e, ok s e → ok' s e) : ReachBy ok' s₀ s := Run.ReachBy.mono h hok

/-- A checked run that ends in a state with the property `P`. -/
theorem ReachBy.of_run {ok : KState → Event → Prop} [∀ s e, Decidable (ok s e)] {s₀ : KState}
    {P : KState → Prop} [DecidablePred P] (es : List Event)
    (h : (s₀.runBy ok es).any (fun s => decide (P s)) = true) : ∃ s, ReachBy ok s₀ s ∧ P s :=
  Run.ReachBy.of_run es h

/-! ## A concrete initial state -/

/-- RT mode just started, with three user processes ready; every process has the base
    priority 10 and a queue of four messages. -/
def boot : KState :=
  { KState.bss with
    tm := TimerSt.vtimerInit.getD .zero
    ms := MsgSt.init.getD .bss
    ss := SemSt.init.getD .bss
    procs := fun p => { RtProc.bss with
      this := some p, pid := 100 + p.val, mqSize := 4, base := 10, watchdog := hardware }
    rq := { pool := .empty, prio := fun _ => 10, scheds := fun _ => 0 }
    rtMode := true
    mx := { Minix.bss with
      rdyHead := update (fun _ => none) .user (some 14)
      rdyTail := update (fun _ => none) .user (some 16)
      nextready := update (update (fun _ => none) 14 (some 15)) 15 (some 16) }
    cur := 14 }

theorem boot_initial : Initial boot := by
  refine ⟨fun p => ⟨rfl, rfl, rfl, rfl, rfl, rfl, rfl, rfl, .inr rfl⟩, rfl, ?_, ?_, ?_⟩
  · have h : TimerSt.vtimerInit.isSome = true := by decide +kernel
    obtain ⟨t, ht⟩ := isSome_iff_exists.mp h
    simp [boot, ht]
  · have h : MsgSt.init.isSome = true := by decide +kernel
    obtain ⟨t, ht⟩ := isSome_iff_exists.mp h
    simp [boot, ht]
  · have h : SemSt.init.isSome = true := by decide +kernel
    obtain ⟨t, ht⟩ := isSome_iff_exists.mp h
    simp [boot, ht]

/-- All copies succeed. -/
def goodEnv : Env := { msg := fun _ => true, hdr := fun _ => true, junk := fun _ => some 0 }

/-- The parameters of an IPC call to, or from, the process `p` of `boot`. -/
def withProc (p : Proc) (timeout : BitVec 32) : KState.Ipc :=
  { pNr := procNr p, pid := 100 + p.val, timeout := timeout, priority := 3 }

/-- The parameters of a receive from any process. -/
def fromAny (timeout : BitVec 32) : KState.Ipc :=
  { pNr := anyProc, pid := 0, timeout := timeout, priority := 3 }

end Kernel
