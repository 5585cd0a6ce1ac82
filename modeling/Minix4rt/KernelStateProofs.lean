import Minix4rt.ListPoolProofs
import Minix4rt.VtimerModelProofs

/-! # The kernel state — process table, queues and pools of the RT kernel

    The fields of `struct proc` are grouped by the part of the kernel that writes
    them: `procs` holds what the RT kernel knows about a process, `rq` the ready
    queue with the priorities, `mx` what the MINIX kernel knows.  The word `p_flags`
    is split the same way: its bit `MRT_P_REALTIME` is `realtime` in `procs`, the
    other bits are in `mx`.

    The links of one kind of object form one pool: the process links carry `rdyQ`
    and the wait lists of the semaphores, the entry links `mqeL` and the message
    queues, the two links of a semaphore `sfreeL`/`sallocL` and `slockL`.

    `none` as the result of an operation is a panic, a null or wild pointer, or a
    loop that does not end. -/

namespace Kernel

open IntrusiveList PriorityList ListPool Vtimer

/-- A slot of the process table (`NR_TASKS + NR_PROCS` is 43). -/
abbrev Proc := Fin 43

/-- A semaphore descriptor (`NR_SEM`). -/
abbrev Sem := Fin 16

/-- A message queue descriptor (`NR_MSGQ`). -/
abbrev MsgQ := Fin 16

/-- A message queue entry (`NR_MESSAGES`). -/
abbrev Mqe := Fin 32

scoped instance neZero43 : NeZero 43 := ⟨by decide⟩

scoped instance neZero32 : NeZero 32 := ⟨by decide⟩

/-- `proc_number`. -/
def procNr (p : Proc) : Int := (p.val : Int) - 11

/-- `proc_addr`; `none` is an address outside the table. -/
def procAddr (n : Int) : Option Proc :=
  if h : 0 ≤ n + 11 ∧ (n + 11).toNat < 43 then some ⟨(n + 11).toNat, h.2⟩ else none

/-- `sem_addr` and `mqe_addr`: an index into a table of `n` descriptors. -/
def tabAddr (n : Nat) (i : Int) : Option (Fin n) :=
  if h : 0 ≤ i ∧ i.toNat < n then some ⟨i.toNat, h.2⟩ else none

/-- `MRT_ANYPROC`. -/
def anyProc : Int := -111

/-- `MRT_PRIHIGHEST`. -/
def priHighest : Prty := 0

/-- `MRT_FOREVER`, as the unsigned timeout it is compared with. -/
def forever : BitVec 32 := -1

/-- `MRT_NOWAIT`. -/
def noWait : BitVec 32 := 0

/-- The return codes. -/
inductive Code where
  | ok | badProc | badDest | badSrc | noPerm | tryAgain | badPtype | mqFull | noMqEnt
  | noVtimer | noMsgQ | unsleep | unready | badSem | timeout | exiting | noRtMode | inval
  | fault | locked | badPrty | badWdog | badName | badValue | badFlags | noSem | freeSem
  | perm | io | val (i : Nat)
deriving DecidableEq, Repr

/-- The status bits of `rt.flags` (`MRT_P_STATUS`). -/
structure Status where
  mbxSnd : Bool
  mbxRcv : Bool
  sleep : Bool
  semDown : Bool
  lockWait : Bool
deriving DecidableEq, Repr

/-- No status bit is set. -/
def Status.clear : Status :=
  { mbxSnd := false, mbxRcv := false, sleep := false, semDown := false, lockWait := false }

/-- What the RT kernel keeps about a process.  `this` is the back pointer of its
    link; `none` stands for a pointer that was never set. -/
structure RtProc where
  realtime : Bool
  st : Status
  periodic : Bool
  pfrom : Option Proc
  pto : Option Proc
  psem : Option Sem
  pmq : Option MsgQ
  pvt : Option VT
  ipcvt : Option VT
  watchdog : Int
  base : Prty
  limit : BitVec 32
  period : BitVec 32
  deadline : BitVec 32
  mqSize : Int
  mqOrder : Bool
  mqInherit : Bool
  pid : Int
  this : Option Proc
deriving DecidableEq, Repr

/-- The ready queue (list `none` of the pool; `some m` is the wait list of the
    semaphore `m`), with `rt.priority` and `st.scheds` of every process. -/
structure RunQ where
  pool : Pool Empty (Option Sem) Proc 16
  prio : Proc → Prty
  scheds : Proc → BitVec 32

/-- The bits of `p_flags` that MINIX uses. -/
structure PFlags where
  slotFree : Bool
  noMap : Bool
  sending : Bool
  receiving : Bool
  pending : Bool
  sigPending : Bool
  pStop : Bool
deriving DecidableEq, Repr

/-- No bit is set. -/
def PFlags.clear : PFlags :=
  { slotFree := false, noMap := false, sending := false, receiving := false, pending := false,
    sigPending := false, pStop := false }

/-- The three ready queues (`TASK_Q`, `SERVER_Q`, `USER_Q`). -/
inductive RdyQ where
  | task | server | user
deriving DecidableEq, Repr

/-- A signal number; the bits of a `sigset_t`. -/
abbrev Sig := Fin 32

/-- What the MINIX kernel keeps: the flags and rendezvous fields of each process, the
    ready queues with their links, and the pending signals. -/
structure Minix where
  flags : Proc → PFlags
  getfrom : Proc → Int
  sendto : Proc → Int
  callerq : Proc → Option Proc
  sendlink : Proc → Option Proc
  intBlocked : Proc → Bool
  rdyHead : RdyQ → Option Proc
  rdyTail : RdyQ → Option Proc
  nextready : Proc → Option Proc
  pending : Proc → Finset Sig
  pendcount : Proc → Nat
  sigProcs : Int
  /-- the `KSIG` message that MM has got and not looked at: `SIG_PROC` and `SIG_MAP` -/
  ksig : Option (Proc × Finset Sig)

/-- The message types. -/
inductive MType where
  | mbfree | uprqst | request | arequest | reply | signal | rqrcv
  | krnirq | krntout | krndline | krnwdog | krnproc
deriving DecidableEq, Repr

/-- A message header (`mrt_mhdr_t`). -/
structure Hdr where
  src : Int
  srcPid : Int
  dst : Int
  dstPid : Int
  mtype : MType
  mid : Nat
  seqno : Nat
  tstamp : BitVec 32
  priority : Nat
  deadline : BitVec 32
deriving DecidableEq, Repr

/-- The header of a free entry. -/
def Hdr.rst : Hdr :=
  { src := hardware, srcPid := hardware, dst := hardware, dstPid := hardware, mtype := .mbfree,
    mid := 0, seqno := 0, tstamp := 0, priority := 0, deadline := 0 }

/-- The fields of a message queue beside its lists. -/
structure MsgQRec where
  size : Int
  order : Bool
  inherit : Bool
  owner : Int
  delivered : Int
  enqueued : Int
deriving DecidableEq, Repr

/-- The message system (`MRT_sm`): the entries with the free list and the queues, and
    the queue descriptors with their free list. -/
structure MsgSt where
  pool : Pool Unit MsgQ Mqe 16
  hdr : Mqe → Hdr
  free : Pool Unit Empty MsgQ 16
  msgQ : MsgQ → MsgQRec
  messages : Nat

/-- A semaphore (`MRT_sem_t`) without its wait list and links.  `name` has the bytes of
    that field before the first zero. -/
structure SemRec where
  value : BitVec 32
  priority : Prty
  order : Bool
  inherit : Bool
  mutex : Bool
  owner : Int
  ups : Nat
  downs : Nat
  carrier : Option Proc
  name : List UInt8
deriving DecidableEq, Repr

/-- The semaphore system (`MRT_ss`): in `alloc`, list `none` is `sfreeL` and `some p`
    the `sallocL` of `p`; in `lock`, list `p` is the `slockL` of `p`. -/
structure SemSt where
  sem : Sem → SemRec
  alloc : Pool (Option Proc) Empty Sem 16
  lock : Pool Proc Empty Sem 16

/-- The kernel. -/
structure KState where
  procs : Proc → RtProc
  rq : RunQ
  tm : TimerSt
  ms : MsgSt
  ss : SemSt
  mx : Minix
  /-- `proc_ptr` -/
  cur : Proc
  prtylvl : Prty
  rtMode : Bool
  bpip : Bool
  needSched : Bool
  rtSched : Bool
  msgsent : Proc → Nat
  msgrcvd : Proc → Nat
  /-- `p_reg.retreg`, where the kernel has overwritten it -/
  retreg : Proc → Option Code

/-- What one entry into the kernel finds around it: whether the message and header
    buffers of a process are accepted by `numap`, and the values that the
    uninitialised `rp` of the successive calls of `MRT_disinherit` holds. -/
structure Env where
  msg : Proc → Bool
  hdr : Proc → Bool
  junk : Nat → Option Proc

/-- The kernel data before any initialisation: all zero. -/
def RtProc.bss : RtProc :=
  { realtime := false, st := .clear, periodic := false, pfrom := none, pto := none, psem := none,
    pmq := none, pvt := none, ipcvt := none, watchdog := 0, base := 0, limit := 0, period := 0,
    deadline := 0, mqSize := 0, mqOrder := false, mqInherit := false, pid := 0, this := none }

def Minix.bss : Minix :=
  { flags := fun _ => .clear, getfrom := fun _ => 0, sendto := fun _ => 0,
    callerq := fun _ => none, sendlink := fun _ => none, intBlocked := fun _ => false,
    rdyHead := fun _ => none, rdyTail := fun _ => none, nextready := fun _ => none,
    pending := fun _ => ∅, pendcount := fun _ => 0, sigProcs := 0, ksig := none }

def MsgSt.bss : MsgSt :=
  { pool := .empty, hdr := fun _ => Hdr.rst, free := .empty, messages := 0,
    msgQ := fun _ => { size := 0, order := false, inherit := false, owner := 0, delivered := 0,
                       enqueued := 0 } }

def SemSt.bss : SemSt :=
  { alloc := .empty, lock := .empty,
    sem := fun _ => { value := 0, priority := 0, order := false, inherit := false,
                      mutex := false, owner := 0, ups := 0, downs := 0, carrier := none,
                      name := [] } }

def KState.bss : KState :=
  { procs := fun _ => RtProc.bss,
    rq := { pool := .empty, prio := fun _ => 0, scheds := fun _ => 0 },
    tm := .zero, ms := .bss, ss := .bss, mx := .bss, cur := 0, prtylvl := 0, rtMode := false,
    bpip := false, needSched := false, rtSched := false, msgsent := fun _ => 0,
    msgrcvd := fun _ => 0, retreg := fun _ => none }

/-! ## Slot numbers -/

@[simp] theorem procAddr_procNr (p : Proc) : procAddr (procNr p) = some p := by
  have h := p.isLt
  have e : ((p.val : Int) - 11 + 11).toNat = p.val := by omega
  unfold procAddr procNr
  rw [dif_pos ⟨by omega, by omega⟩]
  exact congrArg some (Fin.ext e)

theorem procAddr_eq_some {n : Int} {p : Proc} : procAddr n = some p ↔ n = procNr p := by
  constructor
  · intro h
    unfold procAddr at h
    split at h
    · rename_i hn
      have := congrArg Fin.val (Option.some.inj h)
      simp only at this
      unfold procNr
      omega
    · cases h
  · rintro rfl
    exact procAddr_procNr p

@[simp] theorem procNr_inj {p q : Proc} : procNr p = procNr q ↔ p = q := by
  constructor
  · intro h
    have := congrArg procAddr h
    simpa using this
  · rintro rfl
    rfl

theorem tabAddr_eq_some {n : Nat} {i : Int} {x : Fin n} :
    tabAddr n i = some x ↔ i = (x.val : Int) := by
  have hx := x.isLt
  unfold tabAddr
  constructor
  · intro h
    split at h
    · rename_i hn
      have := congrArg Fin.val (Option.some.inj h)
      simp only at this
      omega
    · cases h
  · rintro rfl
    rw [dif_pos ⟨by omega, by omega⟩]
    simp

/-! ## Writes -/

namespace KState

/-- Write what the RT kernel keeps about `p`. -/
def updProc (s : KState) (p : Proc) (g : RtProc → RtProc) : KState :=
  { s with procs := Function.update s.procs p (g (s.procs p)) }

/-- Write the status bits of `p`. -/
def setSt (s : KState) (p : Proc) (g : Status → Status) : KState :=
  s.updProc p (fun r => { r with st := g r.st })

/-- Write the MINIX bits of `p_flags`. -/
def setPFlags (s : KState) (p : Proc) (g : PFlags → PFlags) : KState :=
  { s with mx := { s.mx with flags := Function.update s.mx.flags p (g (s.mx.flags p)) } }

/-- Write `rt.priority`. -/
def setPrio (s : KState) (p : Proc) (k : Prty) : KState :=
  { s with rq := { s.rq with prio := Function.update s.rq.prio p k } }

/-- Write `p_reg.retreg`. -/
def setRet (s : KState) (p : Proc) (c : Code) : KState :=
  { s with retreg := Function.update s.retreg p (some c) }

@[simp] theorem updProc_self (s : KState) (p : Proc) (g : RtProc → RtProc) :
    (s.updProc p g).procs p = g (s.procs p) := by
  simp [updProc]

theorem updProc_ne (s : KState) {p q : Proc} (g : RtProc → RtProc) (h : q ≠ p) :
    (s.updProc p g).procs q = s.procs q := by
  simp [updProc, h]

/-- `MRT_is_rtready`. -/
def rtReady (s : KState) (p : Proc) : Bool := decide ((s.procs p).st = .clear)

/-- `MRT_is_process`. -/
def isProcess (s : KState) (p : Proc) : Bool := !(s.mx.flags p).slotFree

/-- `p_flags == 0`. -/
def flagsZero (s : KState) (p : Proc) : Bool :=
  !(s.procs p).realtime && decide (s.mx.flags p = .clear)

end KState

end Kernel
