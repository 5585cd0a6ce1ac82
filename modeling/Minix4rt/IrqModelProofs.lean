import Minix4rt.RtEventModelProofs

/-! # Interrupt descriptors — dispatch, deferral, flush and the MINIX queue

    The interrupt part of the RT kernel over the kernel of `RtEventModelProofs`.  Every
    hardware line and every software interrupt has a descriptor with ONE link.  An
    interrupt that may not run now is deferred: its descriptor is appended to a level
    of `MRT_si.irqQ`, which `MRT_flush_int` empties, or to the single list
    `MRT_si.mnxQ`, which `unlock` empties.

    A handler runs with interrupts enabled, in the middle of `MRT_IRQ_dispatch`, of
    `MRT_irqd_flush` or of `unlock`, and may itself be interrupted.  So the state holds
    the STACK of activations that are not finished: an interrupt is taken when the
    stack is empty or a handler is on top of it, and otherwise the kernel runs on with
    interrupts off.

    The lock bits of a descriptor (`MRT_TASKLOCKED`, `MRT_HANDWAIT`, `MRT_TASKWAIT`,
    `MRT_HANDLOCKED`) are left out, since only `MRT_irqd_lock` starts their protocol and
    nothing calls it; so are time stamps, latencies and reentrancy counts. -/

namespace Kernel

open ListPool Vtimer

/-- An index of `MRT_si.irqtab`: 16 hardware lines, then 16 software interrupts. -/
abbrev Irq := Fin 32

/-- A line of the PIC. -/
abbrev Line := Fin 16

/-- The descriptor of a line. -/
def Line.irq (i : Line) : Irq := i.castLE (by decide)

/-- `CLOCK_IRQ`. -/
def clockLine : Line := 0

/-- `MRT_irqd_t`, with the bits of `irqtype` and of `flags`. -/
structure Irqd where
  rt : Bool
  td : Bool
  soft : Bool
  istmsg : Bool
  priority : Prty
  task : Int
  watchdog : Int
  enqueued : Bool
  disabled : Bool
  tdTrigger : Bool
  count : BitVec 32
  mdl : BitVec 32
  shower : BitVec 32
  maxshower : BitVec 32
deriving DecidableEq, Repr

/-- An activation that is not finished: what the kernel does when the handlers above it
    on the stack have returned. -/
inductive Frame where
  /-- `MRT_do_handler`, in the handler; the saved level and the saved mask -/
  | handler (d : Irq) (prtylvl : Prty) (mask : BitVec 32)
  /-- `MRT_IRQ_dispatch`, after `MRT_do_handler` -/
  | dispatch (i : Line)
  /-- the return from an interrupt or from a call, before the flush test -/
  | restart
  /-- the loop of `unlock` -/
  | unlock
  /-- `MRT_flush_int`, in `MRT_vtimer_flush(p)` -/
  | timers (p : Prty)
  /-- `MRT_flush_int`, before the test for interrupts of priority `p` -/
  | irqTest (p : Prty)
  /-- `MRT_flush_int`, at the loop head of `MRT_irqd_flush(p)` -/
  | irqs (p : Prty)
  /-- `MRT_flush_int`, in `MRT_irqd_flush(p)` before `MRT_irqd_deQ(d)` -/
  | deQ (d : Irq) (p : Prty)
  /-- `MRT_flush_int`, at the end of the turn of priority `p` -/
  | next (p : Prty)
deriving DecidableEq, Repr

/-- What happened to the interrupts, in the order in which it happened. -/
inductive Obs where
  /-- `MRT_irqd_enQ` is called -/
  | deferred (d : Irq)
  /-- `MRT_irqd_enQ` links the descriptor into a queue -/
  | linked (d : Irq)
  /-- `MRT_irqd_enQ` counts a missed deadline instead -/
  | missed (d : Irq)
  /-- the handler runs although the descriptor is enqueued: a missed deadline too -/
  | overrun (d : Irq)
  /-- the handler is started from one of the two queues -/
  | ran (d : Irq)
deriving DecidableEq, Repr

/-- The kernel with its interrupts.  In `q` the plain list is `MRT_si.mnxQ` and the
    priority list `MRT_si.irqQ`; `pic` is the mask of the hardware, a set bit is a
    masked line.  `log` is a history that no code reads. -/
structure Sys where
  k : KState
  desc : Irq → Irqd
  q : Pool Unit Unit Irq 16
  mask : Prty → BitVec 32
  pic : BitVec 16
  realPIC : BitVec 32
  virtualPIC : BitVec 32
  minixcli : Bool
  newint : Bool
  flushlck : Bool
  prtymask : Bool
  frames : List Frame
  log : List Obs

/-- Attributes of an interrupt (`mrt_irqattr_t`). -/
structure IAttr where
  rt : Bool
  td : Bool
  soft : Bool
  istmsg : Bool
  task : Int
  watchdog : Int
  priority : Nat
deriving DecidableEq, Repr

/-- What `MRT_setiattr` answers. -/
inductive IrqCode where
  | ok | inval | badIrq | badTask | badPrty | badWdog
deriving DecidableEq, Repr

/-- The entries into the kernel, the calls of handlers and tasks, and the steps in
    which the kernel runs on with interrupts off.  `picked` tells that the entry called
    the scheduler, which writes the priority level even when it stays the same. -/
inductive IrqEvent where
  | arrive (v : Env) (i : Line)
  | finish (v : Env) (enabled : Bool)
  | run (v : Env)
  | lock
  | unlock
  | enableIrq (i : Line)
  | disableIrq (i : Line)
  | setiattr (v : Env) (caller : Proc) (irq : Int) (a : IAttr)
  | kernel (e : Event) (picked : Bool)

/-- The entries of `Event` that a process makes, and those that a handler makes: all but
    the clock and the flush, which are interrupt code, and only messages. -/
def Event.fits : Event → List Frame → Bool
  | .tick, _ | .flush _ _ _, _ => false
  | .ksend _ _ _ _ _ _, _ => true
  | _, fs => fs.isEmpty

namespace Sys

/-! ## The PIC -/

/-- `1 << irq`. -/
def bit (d : Irq) : BitVec 32 := BitVec.twoPow 32 d.val

/-- `MRT_set_PIC`. -/
def setPIC (s : Sys) (m : BitVec 32) : Sys := { s with pic := m.setWidth 16 }

/-- `MRT_set_irq`: enable a line. -/
def setIrq (s : Sys) (i : Line) : Sys :=
  { s with realPIC := s.realPIC &&& ~~~ bit i.irq, pic := s.pic &&& ~~~ BitVec.twoPow 16 i.val }

/-- `MRT_reset_irq`: disable a line. -/
def resetIrq (s : Sys) (i : Line) : Sys :=
  { s with realPIC := s.realPIC ||| bit i.irq, pic := s.pic ||| BitVec.twoPow 16 i.val }

/-- `MRT_prtylvl_set`. -/
def prtylvlSet (s : Sys) (p : Prty) : Sys :=
  let s := { s with k := { s.k with prtylvl := p } }
  if s.prtymask then s.setPIC (~~~ s.mask p ||| s.realPIC) else s

/-- The kernel after code that sets the priority level through `MRT_prtylvl_set`, which
    it called if `picked`. -/
def setKernel (s : Sys) (k : KState) (picked : Bool) : Sys :=
  if picked = true ∨ k.prtylvl ≠ s.k.prtylvl then ({ s with k := k }).prtylvlSet k.prtylvl
  else { s with k := k }

/-- `lock_pick_proc`. -/
def lockPickProc (s : Sys) : Option Sys :=
  s.k.pickProc.map (fun k => s.setKernel k s.k.rtMode)

/-- The scheduler is called when it was asked for. -/
def reschedule (s : Sys) : Option Sys := if s.k.needSched then s.lockPickProc else some s

/-! ## Descriptors and queues -/

/-- Write a descriptor. -/
def upd (s : Sys) (d : Irq) (g : Irqd → Irqd) : Sys :=
  { s with desc := Function.update s.desc d (g (s.desc d)) }

/-- Add to the history. -/
def note (s : Sys) (os : List Obs) : Sys := { s with log := s.log ++ os }

/-- Leave the top activation for `fs`. -/
def setFrames (s : Sys) (fs : List Frame) : Sys := { s with frames := fs }

/-- `MRT_ksend` from `HARDWARE`. -/
def ksend (v : Env) (s : Sys) (dest : Int) (prty : Prty) (t : MType) : Option Sys :=
  (s.k.ksend v hardware dest prty.val t).map (fun r => s.setKernel r.1 false)

/-- Count a missed deadline and tell the watchdog. -/
def missDeadline (v : Env) (s : Sys) (d : Irq) : Option Sys :=
  let s := s.upd d (fun r => { r with mdl := r.mdl + 1 })
  if (s.desc d).watchdog ≠ hardware then s.ksend v (s.desc d).watchdog (s.desc d).priority .krndline
  else some s

/-- `MRT_irqd_enQ`.  The bit `MRT_ENQUEUED` is set for `irqQ` only. -/
def irqdEnQ (v : Env) (s : Sys) (d : Irq) : Option Sys :=
  if (s.desc d).enqueued then (s.note [.deferred d, .missed d]).missDeadline v d
  else if (s.desc d).disabled then some (s.note [.deferred d])
  else
    let s := { s with newint := true }
    if ¬ (s.desc d).rt ∧ (s.virtualPIC.getLsbD d.val ∨ s.minixcli) then
      (s.q.app () d).map (fun q => { s with q := q }.note [.deferred d, .linked d])
    else
      (s.q.papp () d (s.desc d).priority).map (fun q =>
        ({ s with q := q }.upd d (fun r => { r with enqueued := true })).note
          [.deferred d, .linked d])

/-- `MRT_irqd_deQ`; `none` is its panic. -/
def irqdDeQ (s : Sys) (d : Irq) : Option Sys :=
  if (s.desc d).enqueued then
    some ({ s with q := s.q.prmv () d (s.desc d).priority }.upd d
      (fun r => { r with enqueued := false }))
  else none

/-- `MRT_do_handler` up to the handler. -/
def doHandler (s : Sys) (d : Irq) : Sys :=
  { s.prtylvlSet (s.desc d).priority with
    frames := .handler d s.k.prtylvl s.realPIC :: s.frames }

/-- The mask that `MRT_do_handler` leaves: the saved one, with its own line enabled when
    the handler asked for it. -/
def restorePIC (s : Sys) (d : Irq) (mask : BitVec 32) (enabled : Bool) : Sys :=
  if enabled then
    let s := { s with realPIC := mask &&& ~~~ bit d }
    if s.prtymask then s else s.setPIC s.realPIC
  else { s with realPIC := mask }

/-- The counters that `MRT_do_handler` writes last. -/
def handled (r : Irqd) : Irqd :=
  if r.soft then { r with count := r.count + 1 }
  else if r.td then
    { r with tdTrigger := false,
             maxshower := if r.maxshower < r.shower then r.shower else r.maxshower, shower := 0 }
  else r

/-- `MRT_do_handler` after the handler, which has returned `MRT_IRQ_ENABLED` or not. -/
def endHandler (v : Env) (s : Sys) (d : Irq) (prtylvl : Prty) (mask : BitVec 32)
    (enabled : Bool) : Option Sys :=
  (if (s.desc d).rt ∧ (s.desc d).istmsg then
      s.ksend v (s.desc d).task (s.desc d).priority .krnirq else some s).map (fun s =>
    ((s.restorePIC d mask enabled).prtylvlSet prtylvl).upd d handled)

/-! ## Interrupts -/

/-- `MRT_IRQ_dispatch` defers the event-driven interrupt `d`. -/
def defers (s : Sys) (d : Irq) : Bool :=
  decide (s.k.prtylvl < (s.desc d).priority) || (! (s.desc d).rt && s.minixcli)

/-- The beginning of `MRT_IRQ_dispatch`: the line is disabled and the interrupt counted. -/
def irqEnter (s : Sys) (i : Line) : Sys :=
  let s := (s.resetIrq i).upd i.irq (fun r => { r with count := r.count + 1 })
  s.setFrames (.restart :: s.frames)

/-- `MRT_IRQ_dispatch`, up to the handler.  A deferred interrupt stays disabled. -/
def irqDispatch (v : Env) (s : Sys) (i : Line) : Option Sys :=
  let d := i.irq
  let s := s.irqEnter i
  if (s.desc d).disabled then some s
  else if i = clockLine then
    s.k.tm.clockIrq.map (fun t => { s with k := { s.k with tm := t } }.setIrq i)
  else if (s.desc d).td then
    some ((s.upd d (fun r => { r with tdTrigger := true, shower := r.shower + 1 })).setIrq i)
  else if s.defers d then s.irqdEnQ v d
  else
    (if (s.desc d).enqueued then (s.note [.overrun d]).missDeadline v d else some s).map
      (fun s => (s.setFrames (.dispatch i :: s.frames)).doHandler d)

/-- `MRT_act_irqtrig` enqueues the descriptor. -/
def triggers (r : Irqd) : Bool := ! r.td || r.tdTrigger || r.soft

/-- `MRT_act_irqtrig`; `none` is a descriptor outside the table. -/
def actIrqtrig (v : Env) (s : Sys) (param : Int) : Option Sys :=
  (tabAddr 32 param).bind (fun d => if triggers (s.desc d) then s.irqdEnQ v d else some s)

/-- The action of a timer on the interrupt queues. -/
def irqAction (v : Env) (s : Sys) (t : Timer) : Option Sys :=
  if t.action = .irqtrig then s.actIrqtrig v t.param else some s

/-- `MRT_vtimer_run`.  The action of a trigger comes first: the rest of the function
    only moves the timer. -/
def vtimerRun (v : Env) (s : Sys) (vt : VT) : Option Sys :=
  (s.irqAction v (s.k.tm.vt vt)).bind (fun s =>
    (s.k.vtimerRun v vt).map (fun k => s.setKernel k false))

/-! ## The flush -/

/-- The loop of `MRT_flush_int` at priority `p`: the next turn, or the end. -/
def flushLoop (s : Sys) (p : Nat) : Sys :=
  if h : p ≤ s.k.prtylvl.val then
    if s.k.tm.exp.bitmap ≠ 0 ∨ (s.q.aux ()).bitmap ≠ 0 then
      let p : Prty := ⟨p, by omega⟩
      s.setFrames ((if s.k.tm.exp.bitmap.getLsbD p.val then .timers p else .irqTest p) :: s.frames)
    else { s with flushlck := false }
  else { s with flushlck := false }

/-- `MRT_flush_int`, up to its first turn. -/
def flushInt (s : Sys) : Sys := { s with flushlck := true, newint := false }.flushLoop 1

/-- The test for deferred work in `restart`. -/
def pending (s : Sys) : Bool :=
  s.k.rtMode && ! s.flushlck &&
    (decide ((s.q.aux ()).bitmap ≠ 0) || decide (s.k.tm.exp.bitmap ≠ 0))

/-- The end of a turn of `MRT_flush_int`. -/
def flushNext (s : Sys) (p : Prty) : Option Sys :=
  s.reschedule.map (fun s =>
    if s.newint then { s with newint := false }.flushLoop 1 else s.flushLoop (p.val + 1))

/-- One turn of the loop of `MRT_vtimer_flush(p)`. -/
def vtimerFlush (v : Env) (s : Sys) (p : Prty) (fs : List Frame) : Option Sys :=
  match (s.k.tm.q.hdr (.exp p)).first with
  | none => some (s.setFrames (.irqTest p :: fs))
  | some plk => ((s.k.tm.vt plk).this).bind (fun vt => s.vtimerRun v vt)

/-- One turn of the loop of `MRT_irqd_flush(p)`, up to the handler. -/
def irqdFlush (s : Sys) (p : Prty) (fs : List Frame) : Sys :=
  match (s.q.C.hdr (.level () p)).first with
  | none => s.setFrames (.next p :: fs)
  | some d => ((s.setFrames (.deQ d p :: fs)).note [.ran d]).doHandler d

/-- One turn of the loop of `unlock`, up to the handler. -/
def unlockTurn (s : Sys) (fs : List Frame) : Sys :=
  match s.q.first () with
  | none => s.setFrames fs
  | some d => ({ s with q := s.q.rmv () d }.note [.ran d]).doHandler d

/-- The kernel runs on with interrupts off. -/
def runOn (v : Env) (s : Sys) : Option Sys :=
  match s.frames with
  | .dispatch i :: fs => (s.setFrames fs).reschedule.map (fun s => s.setIrq i)
  | .restart :: fs => some (if s.pending then (s.setFrames fs).flushInt else s.setFrames fs)
  | .unlock :: fs => some (s.unlockTurn fs)
  | .timers p :: fs => s.vtimerFlush v p fs
  | .irqTest p :: fs =>
    some (s.setFrames ((if (s.q.aux ()).bitmap.getLsbD p.val then .irqs p else .next p) :: fs))
  | .irqs p :: fs => some (s.irqdFlush p fs)
  | .deQ d p :: fs => (s.setFrames (.irqs p :: fs)).irqdDeQ d
  | .next p :: fs => (s.setFrames fs).flushNext p
  | .handler _ _ _ :: _ | [] => none

/-! ## Calls -/

/-- Interrupts are enabled: a process or a handler runs. -/
def enabled (s : Sys) : Bool :=
  match s.frames with
  | [] | .handler _ _ _ :: _ => true
  | _ => false

/-- `lock`, in RT mode. -/
def lock (s : Sys) : Sys := { s with minixcli := true }

/-- `unlock`, up to its loop. -/
def unlock (s : Sys) : Sys :=
  let s := { s with minixcli := false }
  if s.k.rtMode then s.setFrames (.unlock :: s.frames) else s

/-- `enable_irq`. -/
def enableIrq (s : Sys) (i : Line) : Sys :=
  let s := { s with virtualPIC := s.virtualPIC &&& ~~~ bit i.irq }
  if ¬ s.k.rtMode ∨ ¬ (s.desc i.irq).rt then s.setIrq i else s

/-- `disable_irq`.  It calls `MRT_set_irq`, as `enable_irq` does: the line is ENABLED in
    the PIC. -/
def disableIrq (s : Sys) (i : Line) : Sys :=
  let s := { s with virtualPIC := s.virtualPIC ||| bit i.irq }
  if ¬ s.k.rtMode ∨ ¬ (s.desc i.irq).rt then s.setIrq i else s

/-- The process slot `n` is in use, as `MRT_setiattr` tests it; `none` is a slot outside
    the table. -/
def slotUsed (s : Sys) (n : Int) : Option Bool :=
  (procAddr n).map (fun p => decide (s.k.mx.flags p ≠ { PFlags.clear with slotFree := true }))

/-- The attributes that `MRT_setiattr` writes, with the priority `p`. -/
def attrSet (a : IAttr) (p : Prty) (r : Irqd) : Irqd :=
  { r with rt := a.rt, td := a.td, soft := a.soft, istmsg := a.istmsg, task := a.task,
           watchdog := a.watchdog, priority := p }

/-- `MRT_setiattr`. -/
def setiattr (v : Env) (s : Sys) (caller : Proc) (irq : Int) (a : IAttr) :
    Option (Sys × IrqCode) :=
  match tabAddr 16 irq with
  | none => some (s, .badIrq)
  | some i =>
    if ¬ v.msg caller then some (s, .inval)
    else if a.task < -11 then some (s, .badTask)
    else (s.slotUsed a.task).bind (fun used =>
      if ¬ used then some (s, .badTask)
      else if a.priority = 0 then some (s, .badPrty)
      else match prtyOf a.priority with
        | none => some (s, .badPrty)
        | some p =>
          (if a.watchdog ≠ hardware then s.slotUsed a.watchdog else some true).map
            (fun used : Bool =>
              if ¬ used then (s, .badWdog)
              else (s.upd (Line.irq i) (attrSet a p), .ok)))

/-- A system call returns through `restart`; a function that a handler calls does not. -/
def call (s : Sys) : Sys := if s.frames = [] then s.setFrames [.restart] else s

/-- One event.  An interrupt needs its line enabled in the PIC. -/
def step (s : Sys) (e : IrqEvent) : Option Sys :=
  match e with
  | .arrive v i => if s.enabled ∧ s.pic.getLsbD i.val = false then s.irqDispatch v i else none
  | .finish v enabled =>
    match s.frames with
    | .handler d p m :: fs => (s.setFrames fs).endHandler v d p m enabled
    | _ => none
  | .run v => s.runOn v
  | .lock => if s.enabled then some s.lock else none
  | .unlock => if s.enabled then some s.unlock else none
  | .enableIrq i => if s.enabled then some (s.enableIrq i) else none
  | .disableIrq i => if s.enabled then some (s.disableIrq i) else none
  | .setiattr v caller irq a =>
    if s.frames = [] then (s.setiattr v caller irq a).map (fun r => r.1.call) else none
  | .kernel e picked =>
    if s.enabled ∧ e.fits s.frames then (s.k.step e).map (fun k => (s.setKernel k picked).call)
    else none

/-- What an event can do, with the conditions under which it happens. -/
inductive Does (s : Sys) : IrqEvent → Sys → Prop where
  | arrive {v i s'} : s.enabled → s.pic.getLsbD i.val = false → s.irqDispatch v i = some s' →
      Does s (.arrive v i) s'
  | finish {v b d p m fs s'} : s.frames = .handler d p m :: fs →
      (s.setFrames fs).endHandler v d p m b = some s' → Does s (.finish v b) s'
  | run {v s'} : s.runOn v = some s' → Does s (.run v) s'
  | lock : s.enabled → Does s .lock s.lock
  | unlock : s.enabled → Does s .unlock s.unlock
  | enableIrq {i} : s.enabled → Does s (.enableIrq i) (s.enableIrq i)
  | disableIrq {i} : s.enabled → Does s (.disableIrq i) (s.disableIrq i)
  | setiattr {v caller irq a r} : s.frames = [] → s.setiattr v caller irq a = some r →
      Does s (.setiattr v caller irq a) r.1.call
  | kernel {e picked k} : s.enabled → e.fits s.frames → s.k.step e = some k →
      Does s (.kernel e picked) (s.setKernel k picked).call

/-- **EVERY STEP DOES ONE OF THESE.** -/
theorem step_does {s s' : Sys} {e : IrqEvent} (h : s.step e = some s') : s.Does e s' := by
  unfold step at h
  split at h
  · obtain ⟨⟨hen, hpic⟩, h⟩ := Option.ite_none_right_eq_some.mp h
    exact .arrive hen hpic h
  · split at h
    · exact .finish ‹_› h
    · cases h
  · exact .run h
  · obtain ⟨hen, rfl⟩ := Option.ite_some_none_eq_some.mp h
    exact .lock hen
  · obtain ⟨hen, rfl⟩ := Option.ite_some_none_eq_some.mp h
    exact .unlock hen
  · obtain ⟨hen, rfl⟩ := Option.ite_some_none_eq_some.mp h
    exact .enableIrq hen
  · obtain ⟨hen, rfl⟩ := Option.ite_some_none_eq_some.mp h
    exact .disableIrq hen
  · obtain ⟨hf, h⟩ := Option.ite_none_right_eq_some.mp h
    obtain ⟨r, hr, rfl⟩ := Option.map_eq_some_iff.mp h
    exact .setiattr hf hr
  · obtain ⟨⟨hen, hfit⟩, h⟩ := Option.ite_none_right_eq_some.mp h
    obtain ⟨k, hk, rfl⟩ := Option.map_eq_some_iff.mp h
    exact .kernel hen hfit hk

end Sys

/-- RT mode has just been started: `MRT_irqQ_init` has emptied the queues and
    `MRT_irqd_clr` the flags and counters of the descriptors.  The types and priorities
    of the descriptors, the masks and the kernel are arbitrary. -/
structure Sys.Initial (s : Sys) : Prop where
  q : s.q = .empty
  desc : ∀ d, (s.desc d).enqueued = false ∧ (s.desc d).mdl = 0
  flushlck : s.flushlck = false
  frames : s.frames = []
  log : s.log = []

/-- The states reached from `s₀` by steps that all meet the condition `ok`. -/
abbrev Sys.ReachBy (ok : Sys → IrqEvent → Prop) (s₀ : Sys) : Sys → Prop :=
  Run.ReachBy Sys.step ok s₀

/-- A run that checks the condition before every step. -/
abbrev Sys.runBy (s₀ : Sys) (ok : Sys → IrqEvent → Prop) [∀ s e, Decidable (ok s e)]
    (es : List IrqEvent) : Option Sys := Run.runBy Sys.step ok s₀ es

end Kernel
