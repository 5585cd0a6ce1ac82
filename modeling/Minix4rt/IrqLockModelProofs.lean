import Minix4rt.IrqQueueProofs

/-! # Locks on interrupt descriptors — `MRT_irqd_lock`, `MRT_irqd_unlock` and the four bits

    A task that shares data with the handler of a software interrupt is to bracket its
    critical section with `MRT_irqd_lock` and `MRT_irqd_unlock`.  Four bits of the
    descriptor carry the protocol: `MRT_TASKLOCKED` and `MRT_HANDLOCKED` say who is in,
    `MRT_TASKWAIT` and `MRT_HANDWAIT` who waits.

    The machine of `IrqModelProofs` leaves these bits out.  Here it gets them: the
    functions that look at a bit are written again, the others are taken over.  A run in
    which nobody calls `MRT_irqd_lock` is a run of that machine (`step_refines`).

    A task calls while it runs; that may be while a handler that was started in a process
    (by `unlock`, or by `MRT_irqd_unlock`) is suspended, so a call is possible whenever
    interrupts are enabled. -/

namespace Kernel

open ListPool Vtimer Function Option

/-- The bits of `flags` that belong to the lock of a descriptor. -/
structure IrqLock where
  taskLocked : Bool
  handLocked : Bool
  taskWait : Bool
  handWait : Bool
deriving DecidableEq, Repr

/-- No bit is set. -/
def IrqLock.clear : IrqLock :=
  { taskLocked := false, handLocked := false, taskWait := false, handWait := false }

/-- The kernel with its interrupts and their locks. -/
structure LockSys where
  sys : Sys
  lk : Irq → IrqLock

/-- The entries of `IrqEvent` and the calls of the process `p`. -/
inductive LockEvent where
  | sys (e : IrqEvent)
  | irqdLock (p : Proc) (irq : Nat)
  | irqdUnlock (p : Proc) (irq : Nat)

/-- The descriptor of a software interrupt; `none` is the panic of a wrong number. -/
def softIrq (irq : Nat) : Option Irq :=
  if h : 16 ≤ irq ∧ irq < 32 then some ⟨irq, h.2⟩ else none

namespace LockSys

/-- The rest of the kernel after a change. -/
def onSys (L : LockSys) (s : Sys) : LockSys := { L with sys := s }

/-- Write the lock bits of `d`. -/
def setLock (L : LockSys) (d : Irq) (g : IrqLock → IrqLock) : LockSys :=
  { L with lk := update L.lk d (g (L.lk d)) }

/-- Ask for a scheduling decision. -/
def needSched (s : Sys) : Sys := { s with k := { s.k with needSched := true } }

/-- `MRT_do_handler` up to the handler. -/
def doHandler (L : LockSys) (d : Irq) : LockSys :=
  (L.onSys (L.sys.doHandler d)).setLock d (fun b => { b with handLocked := true })

/-- `MRT_do_handler`, the check for a task that waits for the lock. -/
def handOver (L : LockSys) (d : Irq) : Option LockSys :=
  if (L.lk d).taskWait then
    (procAddr (L.sys.desc d).task).bind (fun rp =>
      ((L.sys.k.setSt rp (fun t => { t with lockWait := false })).rdyQApp rp).map (fun k =>
        (L.onSys (needSched { L.sys with k := k })).setLock d
          (fun b => { b with taskWait := false, taskLocked := true })))
  else some L

/-- `MRT_do_handler` after the handler.  The counters are written last, but neither the
    lock nor the task reads them. -/
def endHandler (v : Env) (L : LockSys) (d : Irq) (prtylvl : Prty) (mask : BitVec 32)
    (enabled : Bool) : Option LockSys :=
  (L.sys.endHandler v d prtylvl mask enabled).bind (fun s =>
    ((L.onSys s).setLock d (fun b => { b with handLocked := false })).handOver d)

/-- `MRT_IRQ_dispatch`.  The handler of a locked descriptor has to wait, and the line
    stays disabled. -/
def irqDispatch (v : Env) (L : LockSys) (i : Line) : Option LockSys :=
  let d := i.irq
  let s := L.sys.irqEnter i
  if (s.desc d).disabled ∨ i = clockLine ∨ (s.desc d).td ∨ s.defers d then
    (L.sys.irqDispatch v i).map L.onSys
  else
    (if (s.desc d).enqueued then (s.note [.overrun d]).missDeadline v d else some s).bind
      (fun s =>
        if (L.lk d).taskLocked then
          (needSched s).lockPickProc.map (fun s =>
            (L.onSys s).setLock d (fun b => { b with handWait := true }))
        else some ((L.onSys (s.setFrames (.dispatch i :: s.frames))).doHandler d))

/-- One turn of the loop of `MRT_irqd_flush(p)`, up to the handler.  A locked descriptor
    is marked, and it stays at the head of the list. -/
def irqdFlush (L : LockSys) (p : Prty) (fs : List Frame) : LockSys :=
  match (L.sys.q.C.hdr (.level () p)).first with
  | none => L.onSys (L.sys.setFrames (.next p :: fs))
  | some d =>
    if (L.lk d).taskLocked then
      (L.onSys (needSched L.sys)).setLock d (fun b => { b with handWait := true })
    else (L.onSys ((L.sys.setFrames (.deQ d p :: fs)).note [.ran d])).doHandler d

/-- One turn of the loop of `unlock`, up to the handler.  The lock is not looked at. -/
def unlockTurn (L : LockSys) (fs : List Frame) : LockSys :=
  match L.sys.q.first () with
  | none => L.onSys (L.sys.setFrames fs)
  | some d => (L.onSys ({ L.sys with q := L.sys.q.rmv () d }.note [.ran d])).doHandler d

/-- The kernel runs on with interrupts off. -/
def runOn (v : Env) (L : LockSys) : Option LockSys :=
  match L.sys.frames with
  | .unlock :: fs => some (L.unlockTurn fs)
  | .irqs p :: fs => some (L.irqdFlush p fs)
  | _ => (L.sys.runOn v).map L.onSys

/-- `MRT_irqd_lock`, called by `p`.  `MRT_TASKLOCKED` is not set: when the handler does
    not run, the function just returns. -/
def irqdLock (L : LockSys) (p : Proc) (irq : Nat) : Option LockSys :=
  (softIrq irq).map (fun d =>
    if (L.lk d).handLocked then
      (L.onSys { L.sys with
        k := (L.sys.k.setSt p (fun t => { t with lockWait := true })).rdyQRmv p }).setLock d
        (fun b => { b with taskWait := true })
    else L)

/-- `MRT_irqd_unlock`. -/
def irqdUnlock (L : LockSys) (irq : Nat) : Option LockSys :=
  (softIrq irq).map (fun d =>
    let L := L.setLock d (fun b => { b with taskLocked := false })
    if (L.lk d).handWait then
      (L.setLock d (fun b => { b with handWait := false, handLocked := true })).doHandler d
    else L)

/-- The process `p` runs. -/
def enter (L : LockSys) (p : Proc) : Option LockSys :=
  if L.sys.enabled then (L.sys.k.enter p).map (fun k => L.onSys { L.sys with k := k }) else none

/-- One event. -/
def step (L : LockSys) : LockEvent → Option LockSys
  | .sys (.arrive v i) =>
    if L.sys.enabled ∧ L.sys.pic.getLsbD i.val = false then L.irqDispatch v i else none
  | .sys (.finish v enabled) =>
    match L.sys.frames with
    | .handler d p m :: fs => (L.onSys (L.sys.setFrames fs)).endHandler v d p m enabled
    | _ => none
  | .sys (.run v) => L.runOn v
  | .sys e => (L.sys.step e).map L.onSys
  | .irqdLock p irq => (L.enter p).bind (fun L => L.irqdLock p irq)
  | .irqdUnlock p irq => (L.enter p).bind (fun L => L.irqdUnlock irq)

/-! ## Without locks -/

variable {L : LockSys} {v : Env} {d : Irq} {e : IrqEvent}

/-- Nobody has locked a descriptor or waits for one. -/
def Free (lk : Irq → IrqLock) : Prop := ∀ d, (lk d).taskLocked = false ∧ (lk d).taskWait = false

theorem Free.update (hf : Free L.lk) (d : Irq) (b : Bool) :
    Free (update L.lk d { L.lk d with handLocked := b }) := by
  intro d'
  by_cases hd : d' = d
  · subst hd
    rw [update_self]
    exact hf d'
  · rw [update_of_ne hd]
    exact hf d'

/-- The outcome of the machine without locks, with the lock bits `lk`. -/
def withLocks (lk : Irq → IrqLock) (o : Option Sys) : Option LockSys :=
  o.map (fun s => { sys := s, lk := lk })

theorem irqDispatch_free {i : Line} (hf : Free L.lk) :
    ∃ lk, Free lk ∧ L.irqDispatch v i = withLocks lk (L.sys.irqDispatch v i) := by
  unfold LockSys.irqDispatch
  dsimp only
  split
  · exact ⟨L.lk, hf, rfl⟩
  · rename_i hno
    simp only [not_or] at hno
    refine ⟨_, hf.update i.irq true, ?_⟩
    unfold Sys.irqDispatch
    rw [if_neg hno.1, if_neg hno.2.1, if_neg hno.2.2.1, if_neg hno.2.2.2, withLocks,
      Option.map_map, Option.map_eq_bind]
    congr 1
    funext s
    rw [if_neg (Bool.eq_false_iff.mp (hf i.irq).1)]
    rfl

theorem endHandler_free {p : Prty} {m : BitVec 32} {b : Bool} (hf : Free L.lk) :
    ∃ lk, Free lk ∧ L.endHandler v d p m b = withLocks lk (L.sys.endHandler v d p m b) := by
  refine ⟨_, hf.update d false, ?_⟩
  unfold LockSys.endHandler
  cases L.sys.endHandler v d p m b with
  | none => rfl
  | some s =>
    -- nobody waits for the lock that the handler gives back
    have hw : (((L.onSys s).setLock d (fun b => { b with handLocked := false })).lk d).taskWait =
        false := by
      show (update L.lk d _ d).taskWait = false
      rw [update_self]
      exact (hf d).2
    rw [bind_some, handOver, if_neg (Bool.eq_false_iff.mp hw)]
    rfl

theorem runOn_free (hf : Free L.lk) :
    ∃ lk, Free lk ∧ L.runOn v = withLocks lk (L.sys.runOn v) := by
  unfold LockSys.runOn Sys.runOn
  split
  · rename_i fs hs
    rw [hs]
    dsimp only
    rw [LockSys.unlockTurn, Sys.unlockTurn]
    cases L.sys.q.first () with
    | none => exact ⟨L.lk, hf, rfl⟩
    | some d => exact ⟨_, hf.update d true, rfl⟩
  · rename_i p fs hs
    rw [hs]
    dsimp only
    rw [LockSys.irqdFlush, Sys.irqdFlush]
    cases (L.sys.q.C.hdr (.level () p)).first with
    | none => exact ⟨L.lk, hf, rfl⟩
    | some d =>
      refine ⟨_, hf.update d true, ?_⟩
      dsimp only
      rw [if_neg (Bool.eq_false_iff.mp (hf d).1)]
      rfl
  · exact ⟨L.lk, hf, rfl⟩

/-- **WITHOUT LOCK CALLS THE LOCKS DO NOT MATTER**: the machine makes the steps of the one
    without them, and no descriptor is ever locked. -/
theorem step_refines (hf : Free L.lk) :
    ∃ lk, Free lk ∧ L.step (.sys e) = withLocks lk (L.sys.step e) := by
  cases e with
  | arrive v i =>
    simp only [LockSys.step, Sys.step]
    split
    · exact irqDispatch_free hf
    · exact ⟨L.lk, hf, rfl⟩
  | finish v b =>
    cases hs : L.sys.frames with
    | nil =>
      refine ⟨L.lk, hf, ?_⟩
      simp only [LockSys.step, Sys.step, hs]
      rfl
    | cons f fs =>
      cases f with
      | handler d p m =>
        simp only [LockSys.step, Sys.step, hs]
        exact endHandler_free (L := L.onSys (L.sys.setFrames fs)) hf
      | _ =>
        refine ⟨L.lk, hf, ?_⟩
        simp only [LockSys.step, Sys.step, hs]
        rfl
  | run v => exact runOn_free hf
  | _ => exact ⟨L.lk, hf, rfl⟩

/-- **RUNS WITHOUT LOCK CALLS** are runs of the machine without locks. -/
theorem unlocked_run_refines (hf : Free L.lk) (es : List IrqEvent) :
    ((es.map .sys).foldlM LockSys.step L).map LockSys.sys = es.foldlM Sys.step L.sys := by
  induction es generalizing L with
  | nil => rfl
  | cons e es ih =>
    obtain ⟨lk, hlk, hstep⟩ := step_refines (e := e) hf
    rw [List.map_cons, List.foldlM_cons, List.foldlM_cons, hstep]
    cases L.sys.step e with
    | none => rfl
    | some s => exact ih (L := { sys := s, lk := lk }) hlk

/-- RT mode with one software interrupt of MINIX, 16, of priority 3; its task is 14. -/
def softTask : LockSys :=
  { sys := { Sys.twoRtLines with
      k := { boot with prtylvl := 15 }
      desc := fun d =>
        if d = 16 then { Sys.plainIrqd false 3 with soft := true, task := procNr 14 }
        else Sys.plainIrqd false 15 },
    lk := fun _ => .clear }

/-- The task becomes an RT process, and a timer triggers its interrupt.  The clock
    interrupts, and the flush runs the handler.  Line 5 is deferred meanwhile, the handler
    returns, and the flush goes on to its end. -/
def softHandler : List IrqEvent :=
  [.kernel (.rtk 14 goodEnv .set2rt) true, .run goodEnv, .kernel (.irqTimer 1 16 3) false,
    .run goodEnv, .arrive goodEnv 0] ++ List.replicate 9 (.run goodEnv) ++
  [.arrive goodEnv 5, .run goodEnv, .finish goodEnv true] ++ List.replicate 23 (.run goodEnv)

theorem softTask_refines : Free softTask.lk ∧ ∃ s, s.frames = [] ∧ s.times (.ran 16) = 1 ∧
    s.times (.linked 5) = 1 ∧
    ((softHandler.map .sys).foldlM LockSys.step softTask).map LockSys.sys = some s := by
  have hf : Free softTask.lk := fun _ => ⟨rfl, rfl⟩
  have h : (softHandler.foldlM Sys.step softTask.sys).any (fun s =>
      decide (s.frames = [] ∧ s.times (.ran 16) = 1 ∧ s.times (.linked 5) = 1)) = true := by
    decide +kernel
  obtain ⟨s, hs, h⟩ := (any_eq_true _ _).mp h
  obtain ⟨h1, h2, h3⟩ := of_decide_eq_true h
  exact ⟨hf, s, h1, h2, h3, (unlocked_run_refines hf softHandler).trans hs⟩

end LockSys

end Kernel
