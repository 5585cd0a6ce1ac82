import Minix4rt.MmModelProofs

/-! # The memory manager — signals, tracing and the main loop

    `check_sig` selects the processes that get a signal, and `sig_proc` does what the
    process wants: stop it for its tracer, ignore the signal, keep it, call a handler, or
    kill the process with `mm_exit`.  When the leader of the caller's process group is
    killed, `mm_exit` calls `check_sig` again for the group.  The depth of this recursion
    is a parameter; each level has killed one more process.

    `do_reboot` is left out: it does not return. -/

namespace Mm

open Regions

/-- What the kernel and FS answer during one request: the stack pointers, the stack
    pointers with room for a signal frame, whether a core file could be created, and
    whether `sys_trace` accepts a request.  `rttSendsig` and `rttExit` tell whether the
    real-time task answers the requests of these names for the process: it takes an RT
    process out of RT mode, and that need not end. -/
structure Env where
  sp : Slot → BitVec 32
  sigSp : Slot → BitVec 32
  core : Slot → Bool
  traceOk : Bool
  rttSendsig : Slot → Bool
  rttExit : Slot → Bool

/-- `core_sset`; `SIGEMT` is 7. -/
def coreSigs : Finset Sig := {3, 4, 5, 6, 7, 8, 10, 11, 12}

/-- What is done with a process that a signal kills: `mm_exit`. -/
abbrev Kill := State → Slot → Except Panic State

namespace State

/-- `unpause`: a call to MM that blocks the process ends with `EINTR`. -/
def unpause (s : State) (p : Slot) : State :=
  let f := (s.mproc p).flags
  if f.paused && !f.hanging then s.updFlags p (fun f => { f with paused := false })
  else if f.waiting && !f.hanging then
    (s.updFlags p (fun f => { f with waiting := false })).note (.interrupted p)
  else if f.sigsuspended && !f.hanging then
    s.updFlags p (fun f => { f with sigsuspended := false })
  else s

/-- `stop_proc`. -/
def stopProc (s : State) (p : Slot) (signo : Sig) : State :=
  let s := s.updFlags p (fun f => { f with stopped := true })
  let m := s.mproc p
  let par := s.mproc m.parent
  if par.flags.waiting then
    (s.updFlags m.parent (fun f => { f with waiting := false })).note
      (.toldStop m.parent p m.pid m.procgrp par.wpid)
  else s.upd p (fun m => { m with sigstatus := BitVec.ofNat 8 signo.val })

/-- The mask and the actions of a process whose handler is called. -/
def caught (m : Mproc) (signo : Sig) : Mproc :=
  let act := m.sigact signo
  let mask := m.sigmask ∪ act.mask
  { m with
    sigmask := if act.nodefer then mask.erase signo else insert signo mask
    catched := if act.resethand then m.catched.erase signo else m.catched
    sigact := if act.resethand then
        Function.update m.sigact signo { act with handler := .dfl } else m.sigact
    sigpending := m.sigpending.erase signo }

/-- `dump_core`: the bit `DUMPED`, and the stack segment is brought up to date. -/
def dumpCore (s : State) (e : Env) (p : Slot) : State :=
  let m := s.mproc p
  if m.realuid ≠ m.effuid then s
  else if ¬ e.core p then s
  else
    let s := s.upd p (fun m => { m with sigstatus := m.sigstatus ||| 128#8 })
    (s.adjust p (s.mproc p).segD.len (e.sp p)).1

/-- The end of `sig_proc`: the signal kills the process. -/
def terminate (kill : Kill) (s : State) (e : Env) (p : Slot) (signo : Sig) : Except Panic State :=
  if ¬ e.rttExit p then .error .rtTask
  else
    let s := s.upd p (fun m => { m with sigstatus := BitVec.ofNat 8 signo.val })
    kill (if signo ∈ coreSigs then s.dumpCore e p else s) p

/-- `sig_proc`. -/
def sigProc (kill : Kill) (s : State) (e : Env) (p : Slot) (signo : Sig) : Except Panic State :=
  let m := s.mproc p
  if ¬ m.flags.inUse then .error .signalDead
  else if m.flags.hanging then .error .signalHanging
  else if m.flags.traced ∧ signo ≠ sigkill then .ok ((s.unpause p).stopProc p signo)
  else if signo ∈ m.ignore then .ok s
  else if ¬ e.rttSendsig p then .error .rtTask
  else if signo ∈ m.sigmask then
    .ok (s.upd p (fun m => { m with sigpending := insert signo m.sigpending }))
  else if signo ∈ m.catched then
    match s.adjust p m.segD.len (e.sigSp p) with
    | (s, true) => .ok ((s.upd p (fun m => caught m signo)).unpause p)
    | (s, false) => s.terminate kill e p signo
  else s.terminate kill e p signo

/-- The selection of `check_sig`. -/
def selected (s : State) (mp : Slot) (procId : Int) (p : Slot) : Bool :=
  let m := s.mproc p
  !(decide (0 < procId) && decide (procId ≠ m.pid)) &&
    !(decide (procId = 0) && decide ((s.mproc mp).procgrp ≠ m.procgrp)) &&
    !(decide (procId = -1) && decide (m.pid = initPid)) &&
    !(decide (procId < -1) && decide (m.procgrp ≠ -procId))

/-- The permission test of `check_sig`. -/
def permitted (s : State) (mp p : Slot) : Bool :=
  let a := s.mproc mp
  let m := s.mproc p
  decide (a.effuid = 0) || decide (a.realuid = m.realuid) || decide (a.effuid = m.realuid) ||
    decide (a.realuid = m.effuid) || decide (a.effuid = m.effuid)

/-- The loop of `check_sig` over the slots; the results are the state, how many processes
    were selected, and whether one was refused. -/
def sigLoop (kill : Kill) (e : Env) (mp : Slot) (procId : Int) (signo : Sig) :
    List Slot → State → Nat → Bool → Except Panic (State × Nat × Bool)
  | [], s, n, refused => .ok (s, n, refused)
  | p :: ps, s, n, refused =>
    if ¬ (s.mproc p).flags.inUse then sigLoop kill e mp procId signo ps s n refused
    else if (s.mproc p).flags.hanging ∧ signo ≠ 0 then
      sigLoop kill e mp procId signo ps s n refused
    else if ¬ s.selected mp procId p then sigLoop kill e mp procId signo ps s n refused
    else if ¬ s.permitted mp p then sigLoop kill e mp procId signo ps s n true
    else if signo = 0 then sigLoop kill e mp procId signo ps s (n + 1) refused
    else
      match s.sigProc kill e p signo with
      | .error x => .error x
      | .ok s =>
        if 0 < procId then .ok (s, n + 1, refused)
        else sigLoop kill e mp procId signo ps s (n + 1) refused

/-- The slots from INIT on. -/
def userSlots : List Slot := (List.finRange 32).filter (fun p => decide (initNr ≤ p))

/-- `check_sig`; the signal number comes from a message. -/
def checkSig (kill : Kill) (s : State) (e : Env) (mp : Slot) (procId signo : Int) :
    Except Panic (State × Code) :=
  if h : 0 ≤ signo ∧ signo.toNat < 17 then
    let sg : Sig := ⟨signo.toNat, h.2⟩
    if procId = initPid ∧ sg = sigkill then .ok (s, .einval)
    else
      match sigLoop kill e mp procId sg userSlots s 0 false with
      | .error x => .error x
      | .ok (s, n, refused) =>
        .ok (s, if 0 < n then .ok else if refused then .eperm else .esrch)
  else .ok (s, .einval)

/-- The process group that gets a hangup when `p` exits: that of the caller, if `p` leads
    it. -/
def hupGroup (s : State) (c : Ctx) (p : Slot) : Int :=
  if (s.mproc p).pid = (s.mproc c.mp).procgrp then (s.mproc c.mp).procgrp else 0

/-- `mm_exit`, with calls of itself through `check_sig` to the given depth. -/
def mmExit (e : Env) (c : Ctx) : Nat → Int → Kill
  | 0, _ => fun _ _ => .error .depth
  | n + 1, status => fun s p =>
    if ¬ e.rttExit p then .error .rtTask
    else
      let procgrp := s.hupGroup c p
      match s.exitBody c p status with
      | .error x => .error x
      | .ok s =>
        if procgrp = 0 then .ok s
        else (s.checkSig (mmExit e c n 0) e c.mp (-procgrp) sighup.val).map Prod.fst

/-- The depth that is enough: one level for each process and one more. -/
def exitDepth : Nat := 33

/-- `mm_exit`, for a signal. -/
def killSig (e : Env) (c : Ctx) : Kill := mmExit e c exitDepth 0

/-- The signals that `check_pending` looks for: they wait and are not blocked. -/
def deliverable (m : Mproc) (i : Sig) : Bool :=
  decide (1 ≤ i.val) && decide (i.val < 16) && decide (i ∈ m.sigpending) &&
    !decide (i ∈ m.sigmask)

/-- `check_pending`: the first such signal. -/
def checkPending (s : State) (e : Env) (c : Ctx) : Except Panic State :=
  match (List.finRange 17).find? (deliverable (s.mproc c.mp)) with
  | none => .ok s
  | some i =>
    (s.upd c.mp (fun m => { m with sigpending := m.sigpending.erase i })).sigProc
      (killSig e c) e c.mp i

/-! ## The calls of `signal.c` -/

/-- The slot of a process with a new action for a signal. -/
def setAction (m : Mproc) (sg : Sig) (a : SigAction) : Mproc :=
  let act := Function.update m.sigact sg { a with mask := a.mask.erase sigkill }
  match a.handler with
  | .ign =>
    { m with
      ignore := insert sg m.ignore, sigpending := m.sigpending.erase sg,
      catched := m.catched.erase sg, sigact := act }
  | .dfl => { m with ignore := m.ignore.erase sg, catched := m.catched.erase sg, sigact := act }
  | .user => { m with ignore := m.ignore.erase sg, catched := insert sg m.catched, sigact := act }

/-- `do_sigaction`, with a new action or none; the copies went well. -/
def doSigaction (s : State) (p : Slot) (nr : Int) (act : Option SigAction) : State × Code :=
  if nr = sigkill.val then (s, .ok)
  else if h : 1 ≤ nr ∧ nr.toNat < 17 then
    let sg : Sig := ⟨nr.toNat, h.2⟩
    match act with
    | none => (s, .ok)
    | some a => (s.upd p (fun m => setAction m sg a), .ok)
  else (s, .einval)

/-- `sig_how`. -/
inductive How where
  | block | unblock | setmask | inquire | other
deriving DecidableEq, Repr

/-- The signals of a set that a loop from 1 to `_NSIG - 1` meets. -/
def inLoop (set : Finset Sig) : Finset Sig := set.filter (fun i => 1 ≤ i.val ∧ i.val < 16)

/-- `do_sigprocmask`. -/
def doSigprocmask (s : State) (e : Env) (c : Ctx) (how : How) (set : Finset Sig) :
    Except Panic (State × Code) :=
  match how with
  | .block => .ok (s.upd c.mp (fun m =>
    { m with sigmask := m.sigmask ∪ (inLoop set).erase sigkill }), .ok)
  | .unblock =>
    ((s.upd c.mp (fun m => { m with sigmask := m.sigmask \ inLoop set })).checkPending e c).map
      (·, .ok)
  | .setmask =>
    ((s.upd c.mp (fun m => { m with sigmask := set.erase sigkill })).checkPending e c).map
      (·, .ok)
  | .inquire => .ok (s, .ok)
  | .other => .ok (s, .einval)

/-- `do_sigsuspend`. -/
def doSigsuspend (s : State) (e : Env) (c : Ctx) (set : Finset Sig) : Except Panic State :=
  (s.upd c.mp (fun m =>
    { m with
      sigmask2 := m.sigmask
      sigmask := set.erase sigkill
      flags := { m.flags with sigsuspended := true } })).checkPending e c

/-- `do_sigreturn`. -/
def doSigreturn (s : State) (e : Env) (c : Ctx) (set : Finset Sig) : Except Panic State :=
  (s.upd c.mp (fun m => { m with sigmask := set.erase sigkill })).checkPending e c

/-- The loop of `do_ksig`, for the process `p`; `mp` is the slot of MM. -/
def ksigLoop (e : Env) (p : Slot) (procId : Int) : List Sig → State → Except Panic State
  | [], s => .ok s
  | i :: is, s =>
    if i = sigalrm ∧ ¬ (s.mproc p).flags.alarmOn then ksigLoop e p procId is s
    else
      let id := if i = sigint ∨ i = sigquit then 0 else if i = sigkill then -1 else procId
      let s := if i = sigalrm then s.setAlarm p false else s
      match s.checkSig (killSig e ⟨-1, mmNr⟩) e mmNr id i.val with
      | .error x => .error x
      | .ok (s, _) => ksigLoop e p procId is s

/-- `do_ksig`: signals from the kernel. -/
def doKsig (s : State) (e : Env) (p : Slot) (map : Finset Sig) : Except Panic State :=
  if ¬ s.live p then .ok s
  else
    let grp := (s.mproc p).procgrp
    (s.upd mmNr (fun m => { m with procgrp := grp })).ksigLoop e p (s.mproc p).pid
      ((List.finRange 17).filter (fun i => decide (1 ≤ i.val) && decide (i ∈ map)))

/-! ## Tracing -/

/-- `findproc`. -/
def findproc (s : State) (pid : Int) : Option Slot :=
  (List.finRange 32).find? (fun p =>
    decide (initNr < p) && (s.mproc p).flags.inUse && decide ((s.mproc p).pid = pid))

/-- The requests of `ptrace`: those that MM passes on are one. -/
inductive TraceReq where
  | ok | exit | resume | step | other
deriving DecidableEq, Repr

/-- `do_trace`. -/
def doTrace (s : State) (e : Env) (c : Ctx) (req : TraceReq) (pid data : Int) :
    Except Panic (State × Code) :=
  if req = .ok then .ok (s.updFlags c.mp (fun f => { f with traced := true }), .ok)
  else match s.findproc pid with
    | none => .ok (s, .esrch)
    | some p =>
      if ¬ (s.mproc p).flags.stopped then .ok (s, .esrch)
      else match req with
        | .exit => (mmExit e c exitDepth data s p).map (·, .ok)
        | .resume | .step =>
          if data < 0 ∨ 16 < data then .ok (s, .eio)
          else
            let go (s : State) : State × Code :=
              (s.updFlags p (fun f => { f with stopped := false }),
                if e.traceOk then .ok else .eio)
            if h : 0 < data ∧ data.toNat < 17 then
              -- the child is not traced while it gets the signal
              let s := s.updFlags p (fun f => { f with traced := false })
              (s.sigProc (killSig e c) e p ⟨data.toNat, h.2⟩).map (fun s =>
                go (s.updFlags p (fun f => { f with traced := true })))
            else .ok (go s)
        | _ => .ok (s, if e.traceOk then .ok else .eio)

/-! ## The main loop -/

end State

open State

/-- The requests of processes. -/
inductive Req where
  | fork
  | exit (status : Int)
  | wait
  | waitpid (pid : Int) (nohang : Bool)
  | brk (addr : BitVec 32)
  | exec (x : ExecCall)
  | kill (pid sig : Int)
  | alarm (on : Bool)
  | pause
  | sigaction (nr : Int) (act : Option SigAction)
  | sigprocmask (how : How) (set : Finset Sig)
  | sigsuspend (set : Finset Sig)
  | sigreturn (set : Finset Sig)
  | trace (req : TraceReq) (pid data : Int)
  | setuid (uid : Int)
  | setgid (gid : Int)
  | setsid
  /-- requests that only read: the other calls of `do_getset`, `do_sigpending` -/
  | get

/-- A message to MM. -/
inductive Msg where
  | call (who : Slot) (r : Req) (e : Env)
  | ksig (p : Slot) (map : Finset Sig) (e : Env)

namespace State

/-- One request; the code is the answer, `none` is no answer now. -/
def serve (s : State) (who : Slot) (e : Env) : Req → Except Panic (State × Option Code)
  | .fork => (s.doFork who).map (fun r => (r.1, some r.2))
  | .exit status => (mmExit e ⟨who.val, who⟩ exitDepth status s who).map (·, none)
  | .wait => .ok (s.doWaitpid ⟨who.val, who⟩ (-1) false)
  | .waitpid pid nohang => .ok (s.doWaitpid ⟨who.val, who⟩ pid nohang)
  | .brk addr => .ok ((s.doBrk who addr (e.sp who)).1, some (s.doBrk who addr (e.sp who)).2)
  | .exec x => (s.doExec who x).map (fun r => (r.1, if r.2 = .ok then none else some r.2))
  | .kill pid sig => (s.checkSig (killSig e ⟨who.val, who⟩) e who pid sig).map
      (fun r => (r.1, if r.1.live who then some r.2 else none))
  | .alarm on => .ok (s.setAlarm who on, some .ok)
  | .pause => .ok (s.updFlags who (fun f => { f with paused := true }), none)
  | .sigaction nr act => .ok ((s.doSigaction who nr act).1, some (s.doSigaction who nr act).2)
  | .sigprocmask how set => (s.doSigprocmask e ⟨who.val, who⟩ how set).map
      (fun r => (r.1, some r.2))
  | .sigsuspend set => (s.doSigsuspend e ⟨who.val, who⟩ set).map (·, none)
  | .sigreturn set => (s.doSigreturn e ⟨who.val, who⟩ set).map (·, some .ok)
  | .trace req pid data => (s.doTrace e ⟨who.val, who⟩ req pid data).map
      (fun r => (r.1, some r.2))
  | .setuid uid =>
    if (s.mproc who).realuid ≠ uid ∧ (s.mproc who).effuid ≠ 0 then .ok (s, some .eperm)
    else .ok (s.upd who (fun m => { m with realuid := uid, effuid := uid }), some .ok)
  | .setgid gid =>
    if (s.mproc who).realgid ≠ gid ∧ (s.mproc who).effuid ≠ 0 then .ok (s, some .eperm)
    else .ok (s.upd who (fun m => { m with realgid := gid, effgid := gid }), some .ok)
  | .setsid =>
    if (s.mproc who).procgrp = (s.mproc who).pid then .ok (s, some .eperm)
    else .ok (s.upd who (fun m => { m with procgrp := m.pid }), some (.val (s.mproc who).pid))
  | .get => .ok (s, some .ok)

/-- A process can send a request when it is alive and MM has answered its last one. -/
def canCall (s : State) (who : Slot) : Bool :=
  let f := (s.mproc who).flags
  decide (initNr ≤ who) && s.live who && !f.waiting && !f.paused && !f.sigsuspended

/-- One turn of the main loop; `none` is a message that cannot come. -/
def step (s : State) : Msg → Option (Except Panic State)
  | .call who r e => if s.canCall who then some ((s.serve who e r).map Prod.fst) else none
  | .ksig p map e => some (s.doKsig e p map)

/-- A sequence of messages. -/
def run : State → List Msg → Option (Except Panic State)
  | s, [] => some (.ok s)
  | s, m :: ms =>
    match s.step m with
    | some (.ok s) => s.run ms
    | r => r

end State

/-- A slot as `mm_init` finds it: all zero. -/
def Mproc.bss : Mproc :=
  { segT := ⟨0, 0, 0⟩, segD := ⟨0, 0, 0⟩, segS := ⟨0, 0, 0⟩, exitstatus := 0, sigstatus := 0,
    pid := 0, procgrp := 0, wpid := 0, parent := mmNr, realuid := 0, effuid := 0, realgid := 0,
    effgid := 0, ino := 0, dev := 0, ctime := 0, ignore := ∅, catched := ∅, sigmask := ∅,
    sigmask2 := ∅, sigpending := ∅,
    sigact := fun _ => { handler := .dfl, mask := ∅, nodefer := false, resethand := false },
    flags := .zero }

/-- A slot as `mm_init` leaves it: MM, FS and INIT are in use, with the maps that the kernel
    reports. -/
def initSlot (map : Slot → MemMap × MemMap × MemMap) (p : Slot) : Mproc :=
  if p ≤ initNr then
    { Mproc.bss with
      segT := (map p).1, segD := (map p).2.1, segS := (map p).2.2,
      pid := if p = initNr then initPid else 0,
      flags := { MpFlags.zero with inUse := true, separate := decide ((map p).1.len ≠ 0) } }
  else Mproc.bss

/-- `mm_init`, with the memory that the kernel gives. -/
def mmInit (map : Slot → MemMap × MemMap × MemMap) (chunks : List Region) : Except Panic State :=
  (memInit chunks).map (fun holes =>
    { mproc := initSlot map, procsInUse := 3, nextPid := initPid + 1, holes := holes, log := [] })

end Mm
