import Mathlib

/-! # The memory manager — its tables, memory, exec, fork, exit and wait

    MM keeps one slot for each process and a list of the holes in memory.  It has one
    thread: it takes a request, serves it to its end and takes the next one.  So each
    request is a function on the state of MM.

    What MM asks of the kernel and of FS has no effect on its own tables and is left out;
    what they answer (stack pointers, whether a copy went well, the header of a file) is
    an input.  The hole table is a list; a list of 128 holes has used up the free slots.
    `procargs` and `sigreturn` are left out, since MM only hands them on. -/

/-- A stretch of memory: the addresses from `base` on, `len` of them. -/
structure Regions.Region where
  base : Nat
  len : Nat
deriving DecidableEq, Repr

namespace Mm

open Regions

/-! ## Data -/

/-- A slot of `mproc`; `NR_PROCS` is 32. -/
abbrev Slot := Fin 32

scoped instance neZero32 : NeZero 32 := ⟨by decide⟩

def mmNr : Slot := 0
def fsNr : Slot := 1
/-- `INIT_PROC_NR`. -/
def initNr : Slot := 2

/-- `INIT_PID`. -/
def initPid : Int := 1

/-- Signal numbers, up to `_NSIG`. -/
abbrev Sig := Fin 17

scoped instance neZero17 : NeZero 17 := ⟨by decide⟩

def sighup : Sig := 1
def sigint : Sig := 2
def sigquit : Sig := 3
def sigkill : Sig := 9
def sigalrm : Sig := 14

/-- Where a segment is, in clicks (`mem_map`). -/
structure MemMap where
  vir : Nat
  phys : Nat
  len : Nat
deriving DecidableEq, Repr

inductive Handler where
  | dfl | ign | user
deriving DecidableEq, Repr

/-- `struct sigaction`, with the two flags that MM looks at. -/
structure SigAction where
  handler : Handler
  mask : Finset Sig
  nodefer : Bool
  resethand : Bool
deriving DecidableEq

/-- `mp_flags`. -/
structure MpFlags where
  inUse : Bool
  waiting : Bool
  hanging : Bool
  paused : Bool
  alarmOn : Bool
  separate : Bool
  traced : Bool
  stopped : Bool
  sigsuspended : Bool
deriving DecidableEq, Repr

/-- `mp_flags = 0`. -/
def MpFlags.zero : MpFlags :=
  { inUse := false, waiting := false, hanging := false, paused := false, alarmOn := false,
    separate := false, traced := false, stopped := false, sigsuspended := false }

/-- `struct mproc`. -/
structure Mproc where
  segT : MemMap
  segD : MemMap
  segS : MemMap
  exitstatus : BitVec 8
  sigstatus : BitVec 8
  pid : Int
  procgrp : Int
  wpid : Int
  parent : Slot
  realuid : Int
  effuid : Int
  realgid : Int
  effgid : Int
  ino : Nat
  dev : Int
  ctime : Int
  ignore : Finset Sig
  catched : Finset Sig
  sigmask : Finset Sig
  sigmask2 : Finset Sig
  sigpending : Finset Sig
  sigact : Sig → SigAction
  flags : MpFlags

/-- What has happened, newest first.  It is read by no function of MM. -/
inductive Entry where
  /-- `fork`: the slots of the parent and of the child -/
  | forked (parent child : Slot)
  /-- `mm_exit` of a process -/
  | exited (p : Slot)
  /-- `cleanup`: whom the status of `child` was sent to, what that process was blocked for
      (nothing when it was not blocked), and whether the answer was really sent -/
  | reaped (parent child : Slot) (pid grp : Int) (wpid : Option Int) (sent : Bool)
  /-- a parent that was blocked is told that its child has stopped -/
  | toldStop (parent child : Slot) (pid grp : Int) (wpid : Int)
  /-- a signal ends the wait of a process that was blocked -/
  | interrupted (p : Slot)
deriving DecidableEq, Repr

/-- The state of MM. -/
structure State where
  mproc : Slot → Mproc
  procsInUse : Int
  nextPid : Int
  holes : List Region
  log : List Entry

/-- What a request is answered. -/
inductive Code where
  | ok | eagain | enomem | einval | eperm | echild | esrch | eintr | eio | enoexec | eacces
  | fault | val (n : Int)
deriving DecidableEq, Repr

/-- How MM stops: `panic`, a table that is left, a loop or recursion without end, or a
    request to the real-time task that is not answered. -/
inductive Panic where
  | holeTableFull | holeList | signalDead | signalHanging | noSlot | pidLoop | depth | rtTask
deriving DecidableEq, Repr

/-- On whose behalf MM works: `who`, negative for the kernel, and `mp`. -/
structure Ctx where
  who : Int
  mp : Slot

namespace State

/-- Write a slot. -/
def upd (s : State) (p : Slot) (g : Mproc → Mproc) : State :=
  { s with mproc := Function.update s.mproc p (g (s.mproc p)) }

/-- Write `mp_flags` of a slot. -/
def updFlags (s : State) (p : Slot) (g : MpFlags → MpFlags) : State :=
  s.upd p (fun m => { m with flags := g m.flags })

def note (s : State) (e : Entry) : State := { s with log := e :: s.log }

/-- In use and not hanging. -/
def live (s : State) (p : Slot) : Bool :=
  (s.mproc p).flags.inUse && !(s.mproc p).flags.hanging

/-- `reply` sends to the process; it looks whether the process is alive unless it works for
    the kernel. -/
def answers (s : State) (c : Ctx) (p : Slot) : Bool := decide (c.who < 0) || s.live p

end State

/-! ## The hole list -/

/-- Absorb the second hole of a list into the first one, if they touch. -/
def mergeNext : List Region → List Region
  | h :: n :: rest =>
    if h.base + h.len = n.base then { h with len := h.len + n.len } :: rest else h :: n :: rest
  | l => l

/-- `merge`, of up to three holes from the first one of the list on. -/
def merge : List Region → List Region
  | h :: n :: rest =>
    if h.base + h.len = n.base then mergeNext ({ h with len := h.len + n.len } :: rest)
    else h :: mergeNext (n :: rest)
  | l => l

/-- The end of `free_mem`, from a hole on that lies below the new one. -/
def insertAfter (new : Region) : List Region → List Region
  | [] => [new]
  | prev :: rest =>
    match rest with
    | [] => merge [prev, new]
    | hp :: _ => if hp.base < new.base then prev :: insertAfter new rest
        else merge (prev :: new :: rest)

/-- `free_mem`. -/
def freeMem (holes : List Region) (base clicks : Nat) : Except Panic (List Region) :=
  if clicks = 0 then .ok holes
  else if 128 ≤ holes.length then .error .holeTableFull
  else match holes with
    | [] => .ok [⟨base, clicks⟩]
    | hp :: rest =>
      if base ≤ hp.base then .ok (merge (⟨base, clicks⟩ :: hp :: rest))
      else .ok (insertAfter ⟨base, clicks⟩ (hp :: rest))

/-- `NO_MEM`. -/
def noMem : Nat := 0

/-- `alloc_mem`, first fit. -/
def allocMem (clicks : Nat) : List Region → Nat × List Region
  | [] => (noMem, [])
  | hp :: rest =>
    if clicks ≤ hp.len then
      if hp.len - clicks = 0 then (hp.base, rest)
      else (hp.base, ⟨hp.base + clicks, hp.len - clicks⟩ :: rest)
    else
      let r := allocMem clicks rest
      (r.1, hp :: r.2)

/-- `max_hole`. -/
def maxHole (holes : List Region) : Nat := holes.foldl (fun m h => if m < h.len then h.len else m) 0

/-- `mem_init`: the chunks of memory that the kernel gives. -/
def memInit (chunks : List Region) : Except Panic (List Region) :=
  chunks.foldlM (fun holes c => freeMem holes c.base c.len) []

/-! ## Segments -/

/-- `CLICK_SHIFT` is 8: bytes to clicks, rounded up, in a 32 bit word. -/
def clicksUp (bytes : BitVec 32) : Nat := ((bytes + 255#32) >>> 8).toNat

/-- `size_ok`. -/
def sizeOk (dc dvir svir : Nat) : Bool := decide ((dvir + dc) % 2 ^ 32 ≤ svir)

/-- `SAFETY_CLICKS`. -/
def safetyClicks : Nat := 6

/-- `adjust` on the map of a process. -/
def adjustMap (m : Mproc) (dataClicks : Nat) (sp : BitVec 32) : Option Mproc :=
  if m.segS.len = 0 then some m
  else
    let spClick := (sp >>> 8).toNat
    if m.segS.vir + m.segS.len ≤ spClick then none
    else
      let lower := if spClick < m.segS.vir then spClick else m.segS.vir
      let gapBase := (m.segD.vir + dataClicks + safetyClicks) % 2 ^ 32
      if lower < gapBase then none
      else
        let delta := m.segS.vir - spClick
        let d := { m.segD with len := dataClicks }
        let st := if spClick < m.segS.vir then
            { vir := m.segS.vir - delta, phys := m.segS.phys - delta, len := m.segS.len + delta }
          else m.segS
        if sizeOk d.len d.vir st.vir then some { m with segD := d, segS := st } else none

/-- The block of memory with the data, the gap and the stack of a process. -/
def Mproc.block (m : Mproc) : Region := ⟨m.segD.phys, m.segS.vir + m.segS.len - m.segD.vir⟩

/-- The text segment. -/
def Mproc.text (m : Mproc) : Region := ⟨m.segT.phys, m.segT.len⟩

namespace State

/-- `adjust`; `false` is `ENOMEM`. -/
def adjust (s : State) (p : Slot) (dataClicks : Nat) (sp : BitVec 32) : State × Bool :=
  match adjustMap (s.mproc p) dataClicks sp with
  | some m => (s.upd p (fun _ => m), true)
  | none => (s, false)

/-- `do_brk`. -/
def doBrk (s : State) (p : Slot) (addr sp : BitVec 32) : State × Code :=
  let newClicks := ((addr + 255#32).sshiftRight 8).toNat
  let dvir := (s.mproc p).segD.vir
  if newClicks < dvir then (s, .enomem)
  else
    let r := s.adjust p (newClicks - dvir) sp
    (r.1, if r.2 then .ok else .enomem)

/-- The process `q` executes the file, with separate I & D space. -/
def shares (s : State) (ino : Nat) (dev ctime : Int) (q : Slot) : Bool :=
  s.live q && (s.mproc q).flags.separate && decide ((s.mproc q).ino = ino) &&
    decide ((s.mproc q).dev = dev) && decide ((s.mproc q).ctime = ctime)

/-- `find_share`, from INIT on. -/
def findShare (s : State) (ign : Slot) (ino : Nat) (dev ctime : Int) : Option Slot :=
  (List.finRange 32).find? (fun q =>
    decide (initNr ≤ q) && decide (q ≠ ign) && s.shares ino dev ctime q)

/-- The holes after the memory of a process has been released: the text, unless it is
    shared, then data and stack. -/
def freeImage (s : State) (p : Slot) : Except Panic (List Region) :=
  let m := s.mproc p
  let freed : Except Panic (List Region) := match s.findShare p m.ino m.dev m.ctime with
    | some _ => .ok s.holes
    | none => freeMem s.holes m.text.base m.text.len
  freed.bind (fun holes => freeMem holes m.block.base m.block.len)

end State

/-! ## Exec -/

/-- The header and the inode of a file to execute.  `sep` is `A_SEP`. -/
structure ExecFile where
  ino : Nat
  dev : Int
  ctime : Int
  sep : Bool
  text : BitVec 32
  data : BitVec 32
  bss : BitVec 32
  total : BitVec 32
  setUid : Option Int
  setGid : Option Int

/-- What `read_header` returns: the sizes of text, data with text if they are not
    separated, bss, and the total. -/
structure Sizes where
  text : BitVec 32
  data : BitVec 32
  bss : BitVec 32
  total : BitVec 32

/-- `read_header`, for a file with a good magic number, processor and flags. -/
def readHeader (f : ExecFile) (stk : BitVec 32) : Option Sizes :=
  if f.total = 0 then none
  else
    let z : Sizes := if f.sep then ⟨f.text, f.data, f.bss, f.total⟩
      else ⟨0, f.data + f.text, f.bss, f.total⟩
    let tc := clicksUp z.text
    let dc := clicksUp (z.data + z.bss)
    let totc := clicksUp z.total
    if totc ≤ dc then none
    else
      let dvir := if f.sep then 0 else tc
      let svir := (dvir + totc + 2 ^ 32 - clicksUp stk) % 2 ^ 32
      if sizeOk dc dvir svir then some z else none

/-- The new map that `new_mem` gives a process. -/
def newMap (m : Mproc) (share : Option Mproc) (base textc datac gapc stackc : Nat) : Mproc :=
  { m with
    segT := match share with
      | some sh => sh.segT
      | none => ⟨0, base, textc⟩
    segD := ⟨0, base + textc, datac⟩
    segS := ⟨datac + gapc, base + textc + datac + gapc, stackc⟩ }

namespace State

/-- `new_mem`. -/
def newMem (s : State) (p : Slot) (share : Option Slot) (z : Sizes) (stk : BitVec 32) :
    Except Panic (State × Code) :=
  let textc := if share.isSome then 0 else clicksUp z.text
  let datac := clicksUp (z.data + z.bss)
  let stackc := clicksUp stk
  let totc := clicksUp z.total
  if totc < datac + stackc then .ok (s, .enomem)
  else if maxHole s.holes < textc + totc then .ok (s, .eagain)
  else match s.freeImage p with
    | .error e => .error e
    | .ok holes =>
      -- the old image is lost from here on
      let r := allocMem (textc + totc) holes
      if r.1 = noMem then .error .holeList
      else .ok ({ s with holes := r.2 }.upd p (fun m =>
        newMap m (share.map s.mproc) r.1 textc datac (totc - datac - stackc) stackc), .ok)

end State

/-- Caught signals are not caught after an exec. -/
def resetCatched (m : Mproc) : Mproc :=
  { m with
    sigact := fun sn => if sn ∈ m.catched ∧ sn ≠ 0 then
        { m.sigact sn with handler := .dfl, mask := ∅ } else m.sigact sn
    catched := m.catched.filter (fun sn => sn = 0) }

/-- The end of `do_exec`: the identity of the file, its owner, and its kind. -/
def execed (m : Mproc) (f : ExecFile) : Mproc :=
  let m := { m with ino := f.ino, dev := f.dev, ctime := f.ctime }
  let m := if m.flags.traced then m else
    { m with effuid := f.setUid.getD m.effuid, effgid := f.setGid.getD m.effgid }
  let m := resetCatched m
  { m with flags := { m.flags with separate := f.sep } }

/-- The arguments of `do_exec`, and what the kernel and FS answer.  `name` and `stack` say
    whether the copies went well. -/
structure ExecCall where
  stk : BitVec 32
  nameLen : Int
  name : Bool
  file : Except Code ExecFile
  stack : Bool

/-- `ARG_MAX` and `PATH_MAX`. -/
def argMax : BitVec 32 := 16384#32
def pathMax : Int := 255

/-- `do_exec`. -/
def State.doExec (s : State) (p : Slot) (x : ExecCall) : Except Panic (State × Code) :=
  if argMax < x.stk then .ok (s, .enomem)
  else if x.nameLen ≤ 0 ∨ pathMax < x.nameLen then .ok (s, .einval)
  else if ¬ x.name then .ok (s, .fault)
  else match x.file with
    | .error e => .ok (s, e)
    | .ok f =>
      match readHeader f x.stk with
      | none => .ok (s, .enoexec)
      | some z =>
        if ¬ x.stack then .ok (s, .eacces)
        else
          let share := s.findShare p f.ino f.dev f.ctime
          match s.newMem p share z x.stk with
          | .error e => .error e
          | .ok (s, .ok) => .ok (s.upd p (fun m => execed m f), .ok)
          | .ok (s, e) => .ok (s, e)

/-! ## Fork -/

/-- The next candidate for a pid. -/
def succPid (n : Int) : Int := if n < 30000 then n + 1 else initPid + 1

namespace State

/-- A slot of the table, used or not, has the number as pid or process group. -/
def pidTaken (s : State) (n : Int) : Bool :=
  (List.finRange 32).any (fun p =>
    decide ((s.mproc p).pid = n) || decide ((s.mproc p).procgrp = n))

/-- The loop of `do_fork` that looks for a pid for the slot `rmc`. -/
def pidLoop (rmc : Slot) : Nat → State → Option State
  | 0, _ => none
  | k + 1, s =>
    let n := succPid s.nextPid
    let t := s.pidTaken n
    let s := ({ s with nextPid := n } : State).upd rmc (fun m => { m with pid := n })
    if t then pidLoop rmc k s else some s

/-- The first slot that is not in use. -/
def freeSlot (s : State) : Option Slot :=
  (List.finRange 32).find? (fun q => !(s.mproc q).flags.inUse)

/-- The slot of the child before it has a pid. -/
def childOf (m : Mproc) (who : Slot) (base : Nat) : Mproc :=
  { m with
    parent := who
    flags := { m.flags with traced := false }
    segT := if m.flags.separate then m.segT else { m.segT with phys := base }
    segD := { m.segD with phys := base }
    segS := { m.segS with phys := base + (m.segS.vir - m.segD.vir) }
    exitstatus := 0
    sigstatus := 0 }

/-- How often the search for a pid may go round: more often than pids can be taken. -/
def pidTries : Nat := 30000

/-- `do_fork`, for the process `who`.  `LAST_FEW` is 2. -/
def doFork (s : State) (who : Slot) : Except Panic (State × Code) :=
  let m := s.mproc who
  if s.procsInUse = 32 then .ok (s, .eagain)
  else if 30 ≤ s.procsInUse ∧ m.effuid ≠ 0 then .ok (s, .eagain)
  else
    let r := allocMem (m.segS.len + (m.segS.vir - m.segD.vir)) s.holes
    if r.1 = noMem then .ok ({ s with holes := r.2 }, .enomem)
    else match s.freeSlot with
      | none => .error .noSlot
      | some rmc =>
        let s := { s with holes := r.2, procsInUse := s.procsInUse + 1 }
        let s := s.upd rmc (fun _ => childOf m who r.1)
        match s.pidLoop rmc pidTries with
        | none => .error .pidLoop
        | some s => .ok (s.note (.forked who rmc), .val s.nextPid)

/-! ## Exit and wait -/

/-- `cleanup`. -/
def cleanup (s : State) (c : Ctx) (child : Slot) : State :=
  let m := s.mproc child
  let par := s.mproc m.parent
  let s := s.note (.reaped m.parent child m.pid m.procgrp
    (if par.flags.waiting then some par.wpid else none) (s.answers c m.parent))
  let s := s.updFlags m.parent (fun f => { f with waiting := false })
  { s.updFlags child (fun _ => .zero) with procsInUse := s.procsInUse - 1 }

/-- The three tests of `mm_exit`. -/
def rightChild (pidarg : Int) (m : Mproc) : Bool :=
  decide (pidarg = -1) || decide (pidarg = m.pid) || decide (-pidarg = m.procgrp)

/-- A child is handed to INIT. -/
def reparent (s : State) (q : Slot) : State := s.upd q (fun m => { m with parent := initNr })

/-- One turn of the loop that looks for children of `p`. -/
def disinheritOne (s : State) (c : Ctx) (p q : Slot) : State :=
  if (s.mproc q).flags.inUse = true ∧ (s.mproc q).parent = p then
    let s := s.reparent q
    if (s.mproc initNr).flags.waiting = true ∧ (s.mproc q).flags.hanging = true then s.cleanup c q
    else s
  else s

/-- The loop at the end of `mm_exit`: the children of `p` get INIT as their parent. -/
@[irreducible] def disinherit (c : Ctx) (p : Slot) : List Slot → State → State
  | [], s => s
  | q :: qs, s => disinherit c p qs (s.disinheritOne c p q)

/-- `set_alarm`, as far as MM notes it. -/
def setAlarm (s : State) (p : Slot) (on : Bool) : State :=
  s.updFlags p (fun f => { f with alarmOn := on })

/-- The process hangs. -/
def hang (s : State) (p : Slot) : State := s.updFlags p (fun f => { f with hanging := true })

/-- The parent is told that the process has exited, or the process hangs. -/
def toParent (s : State) (c : Ctx) (p : Slot) : State :=
  let m := s.mproc p
  let par := s.mproc m.parent
  if par.flags.waiting && rightChild par.wpid m then s.cleanup c p
  else s.hang p

/-- `mm_exit` from the alarm to the hangup of the process group. -/
def exitBody (s : State) (c : Ctx) (p : Slot) (status : Int) : Except Panic State :=
  let s := if (s.mproc p).flags.alarmOn then s.setAlarm p false else s
  (s.freeImage p).map (fun holes =>
    let s := ({ s with holes := holes } : State).upd p (fun m =>
      { m with exitstatus := BitVec.ofInt 8 status })
    ((s.note (.exited p)).toParent c p).disinherit c p (List.finRange 32))

/-- A child of `who` that a wait for `pidarg` is about. -/
def qualifies (s : State) (who : Slot) (pidarg : Int) (q : Slot) : Bool :=
  (s.mproc q).flags.inUse && decide ((s.mproc q).parent = who) &&
    !(decide (0 < pidarg) && decide (pidarg ≠ (s.mproc q).pid)) &&
    !(decide (pidarg < -1) && decide (-pidarg ≠ (s.mproc q).procgrp))

/-- The child has something to tell: it has exited, or it has stopped and that has not
    been told. -/
def tells (s : State) (q : Slot) : Bool :=
  (s.mproc q).flags.hanging || ((s.mproc q).flags.stopped && decide ((s.mproc q).sigstatus ≠ 0))

/-- `do_waitpid`, for the process `c.mp`; `none` is no answer now. -/
def doWaitpid (s : State) (c : Ctx) (pid : Int) (nohang : Bool) : State × Option Code :=
  let who := c.mp
  let pidarg := if pid = 0 then -(s.mproc who).procgrp else pid
  match (List.finRange 32).find? (fun q => s.qualifies who pidarg q && s.tells q) with
  | some q =>
    if (s.mproc q).flags.hanging then (s.cleanup c q, none)
    else (s.upd q (fun m => { m with sigstatus := 0 }), some (.val (s.mproc q).pid))
  | none =>
    if (List.finRange 32).any (fun q => s.qualifies who pidarg q) then
      if nohang then (s, some (.val 0))
      else (s.upd who (fun m =>
        { m with wpid := pidarg, flags := { m.flags with waiting := true } }), none)
    else (s, some .echild)

end State

end Mm
