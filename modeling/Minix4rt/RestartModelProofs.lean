import Minix4rt.IrqModelProofs

/-! # Configuration of the interrupts — `MRT_irqd_set`, `MRT_setiattr` and `MRT_restart`

    What the interrupt system keeps beside `Sys`: the period of a timer-driven descriptor
    with the harmonic it was set at, the bitmaps of the descriptors in use, and the rates
    of the system.

    `MRT_irqd_set` and `MRT_restart` write the table `MRT_si.mask`, which has for every
    priority the lines that may interrupt at that level.  `MRT_restart` empties all the
    queues, converts the periods to the new rate and gives every timer-driven descriptor
    a virtual timer again.

    `none` is a panic or a fault.  Handlers, names, time stamps and latencies are left
    out. -/

namespace Kernel

open IntrusiveList PriorityList ListPool Vtimer

/-- `CASCADE_IRQ`. -/
def cascadeLine : Line := 2

/-- The fields of `MRT_irqd_t` for the rate of a timer-driven interrupt, with the bit
    `MRT_RELATPER` of its type. -/
structure IrqdRate where
  period : BitVec 32
  harmonic : BitVec 32
  relatper : Bool
  pvt : Option VT
deriving DecidableEq, Repr

/-- The interrupt system with its configuration.  `hardUse` and `softUse` are the
    bitmaps of the descriptors in use; the rest are fields of `MRT_sv`. -/
structure Conf where
  sys : Sys
  rate : Irq → IrqdRate
  hardUse : BitVec 32
  softUse : BitVec 32
  idleSoft : Irq
  harmonic : BitVec 32
  refresh : BitVec 32
  tickrate : BitVec 32
  pitLatch : BitVec 32
  tick2Hz : BitVec 32
  oneshots : BitVec 32

/-- The descriptor that a driver hands to `MRT_irqd_set`. -/
structure IrqdArg where
  rt : Bool
  td : Bool
  soft : Bool
  istmsg : Bool
  relatper : Bool
  priority : Nat
  task : Int
  period : BitVec 32
deriving DecidableEq, Repr

/-- What `MRT_restart` answers. -/
inductive RestartCode where
  | ok | badHarm | badRfsh | rtActive
deriving DecidableEq, Repr

/-- The descriptor that `MRT_irqd_set` writes.  The task stays when none is given. -/
def IrqdArg.irqd (a : IrqdArg) (k : Prty) (r : Irqd) : Irqd :=
  { r with rt := a.rt, td := a.td, soft := a.soft,
           istmsg := decide (a.task ≠ hardware) && a.istmsg,
           task := if a.task = hardware then r.task else a.task, priority := k,
           enqueued := false, disabled := false, tdTrigger := false }

/-! ## The mask table -/

/-- The first loop over `MRT_si.mask`: level `k` gets the lines of the levels before it. -/
def orLower (mask : Prty → BitVec 32) (k : Prty) : Prty → BitVec 32 :=
  ((List.finRange 16).filter (· < k)).foldl (fun m p => Function.update m k (m k ||| m p)) mask

/-- Both loops: the lines `b` may interrupt at the levels from `k` on. -/
def addLine (mask : Prty → BitVec 32) (k : Prty) (b : BitVec 32) : Prty → BitVec 32 :=
  fun p => if k ≤ p then orLower mask k p ||| b else orLower mask k p

namespace Conf

/-- Write the rate of a descriptor. -/
def updRate (c : Conf) (d : Irq) (g : IrqdRate → IrqdRate) : Conf :=
  { c with rate := Function.update c.rate d (g (c.rate d)) }

/-- The task of a descriptor is an RT process, or none is given; `none` is a panic or a
    slot outside the table. -/
def taskOk (c : Conf) (n : Int) : Option Unit :=
  if n = hardware then some ()
  else (procAddr n).bind (fun p =>
    if c.sys.k.isProcess p ∧ (c.sys.k.procs p).realtime then some () else none)

/-- `MRT_irqd_set`.  A bad priority is only printed. -/
def irqdSet (c : Conf) (irq : Int) (a : IrqdArg) : Option Conf :=
  (tabAddr 32 irq).bind (fun d =>
    if a.soft ≠ decide (16 ≤ d.val) then none
    else if irq ≠ 0 ∧ a.priority = 0 then some c
    else match prtyOf a.priority with
      | none => some c
      | some k => (c.taskOk a.task).map (fun _ =>
        { c.updRate d (fun r => { r with period := a.period, relatper := a.relatper }) with
          sys := { c.sys.upd d (IrqdArg.irqd a k) with
            mask := if d.val < 16 then addLine c.sys.mask k (Sys.bit d) else c.sys.mask },
          hardUse := if d.val < 16 then c.hardUse ||| Sys.bit d else c.hardUse }))

/-- `MRT_setiattr`, with the period of the attributes.  The bit `MRT_RELATPER` is not
    among those it takes over. -/
def setiattr (v : Env) (c : Conf) (caller : Proc) (irq : Int) (a : IAttr) (per : BitVec 32) :
    Option (Conf × IrqCode) :=
  (c.sys.setiattr v caller irq a).map (fun r =>
    match r.2, tabAddr 16 irq with
    | .ok, some i =>
      ({ c with sys := r.1 }.updRate (Line.irq i)
        (fun t => { t with period := per, relatper := false }), r.2)
    | _, _ => ({ c with sys := r.1 }, r.2))

/-! ## Restart -/

/-- `MRT_sstat_init`. -/
def sstatInit (c : Conf) : Conf :=
  { c with
    oneshots := 0
    sys := { c.sys with
      k := { c.sys.k with
        tm := { c.sys.k.tm with ticks := 0 }
        ms := { c.sys.k.ms with messages := 0 } } } }

/-- `MRT_proc_init`: the loop runs over `NR_PROCS` slots from the first task on. -/
def procInit (c : Conf) : Conf :=
  let slots := (List.finRange 43).filter (fun p => p.val < 32)
  let k := slots.foldl (fun k p => k.procRst p) { c.sys.k with needSched := true }
  { c with sys := { c.sys with k := k } }

/-- The period of the idle descriptor and the refresh rate; `H` and `R` are the new
    harmonic and refresh. -/
def idleInit (c : Conf) (H R : BitVec 32) : Conf :=
  let c := if c.refresh ≠ R
    then c.updRate c.idleSoft (fun r => { r with period := R * c.harmonic / H }) else c
  { c with refresh := R }

/-- `MRT_rdyQ_init`, `MRT_timerQ_init` and `MRT_vtimer_init`. -/
def queueInit (c : Conf) : Option Conf :=
  let tm := c.sys.k.tm
  (TimerSt.vtimerInitLoop (List.finRange 16)
    { tm with q := { tm.q with hdr := fun _ => ListHdr.rst }, exp := PAux.rst, earliest := 0,
              maxper := 0 }).map (fun tm =>
    { c with sys := { c.sys with k := { c.sys.k with
        rq := { c.sys.k.rq with pool := c.sys.k.rq.pool.prst none }, tm := tm } } })

/-- `MRT_irqQ_init`, and the masks read from the PIC.  `MRT_get_PIC` leaves `junk` in the
    upper half of its result. -/
def irqQInit (c : Conf) (junk : BitVec 16) : Conf :=
  { c with sys := { c.sys with q := (c.sys.q.prst ()).lrst (), mask := fun _ => 0,
                               realPIC := junk ++ c.sys.pic,
                               virtualPIC := junk ++ c.sys.pic } }

/-- `MRT_irqd_clr`. -/
def irqdClr (c : Conf) (d : Irq) : Conf :=
  { c with sys := { c.sys.upd d (fun r =>
      { r with count := 0, maxshower := 0, mdl := 0, shower := 0, enqueued := false,
               disabled := false, tdTrigger := false }) with q := c.sys.q.rstLink d } }

/-- The period of a descriptor at the new harmonic; `none` is a division by zero. -/
def newPeriod (r : IrqdRate) (H : BitVec 32) : Option (BitVec 32) :=
  if r.relatper then some r.period
  else if r.harmonic = 0 then none
  else some (r.period * H / r.harmonic)

/-- The new rate of a timer-driven descriptor, and its virtual timer.  The panic is a
    refusal of `MRT_vtimer_alloc`. -/
def rescale (c : Conf) (H : BitVec 32) (d : Irq) : Option Conf := do
  let period ← newPeriod (c.rate d) H
  let (pvt, tm) ← c.sys.k.tm.vtimerAlloc period 0 .irqtrig d.val hardware (c.sys.desc d).priority
  let pvt ← pvt
  let tm ← tm.vtimerIns pvt
  some ({ c with sys := { c.sys with k := { c.sys.k with tm := tm } } }.updRate d
    (fun r => { r with period := period, harmonic := H, pvt := some pvt }))

/-- The part of `MRT_restart` for a descriptor in use. -/
def reviveIrq (H : BitVec 32) (c : Conf) (d : Irq) : Option Conf :=
  let c := c.irqdClr d
  if (c.sys.desc d).td then c.rescale H d else some c

/-- The loop over the descriptors.  Lines that are masked in the PIC are skipped, and so
    are software interrupts that are not in use. -/
def restartIrq (H : BitVec 32) (c : Conf) (d : Irq) : Option Conf :=
  if d.val < 16 then
    if c.sys.realPIC.getLsbD d.val then some c
    else
      reviveIrq H { c with
        sys := { c.sys with
          mask := addLine c.sys.mask (c.sys.desc d).priority
            (Sys.bit d ||| Sys.bit cascadeLine.irq) } } d
  else if c.softUse.getLsbD (d.val - 16) then c.reviveIrq H d
  else some c

/-- `TIMER_FREQ/HZ`. -/
def timerHz : BitVec 32 := 1193182 / 50

/-- RT mode begins, and the timer gets its rate.  `MRT_timer_set` is the periodic mode. -/
def startTimer (c : Conf) (H : BitVec 32) : Conf :=
  let s := ({ c.sys with k := { c.sys.k with rtMode := true } }.prtylvlSet priLowest).resetIrq
    clockLine
  if s.k.tm.oneshot then
    { c with sys := s.setIrq clockLine, harmonic := H, tick2Hz := timerHz / H }
  else
    { c with sys := s.setIrq clockLine, harmonic := H, tickrate := H * 50,
             pitLatch := 1193182 / (H * 50) }

/-- `MRT_msgQ_init`, `MRT_mpool_init` and `MRT_spool_init`. -/
def poolInit (c : Conf) : Option Conf := do
  let ms ← MsgSt.init
  let ss ← SemSt.init
  some { c with sys := { c.sys with k := { c.sys.k with ms := ms, ss := ss } } }

/-- `MRT_restart` after its checks, with the new harmonic `H` and refresh `R`. -/
def doRestart (c : Conf) (H R : BitVec 32) (junk : BitVec 16) : Option Conf := do
  let c ← (((c.sstatInit).procInit).idleInit H R).queueInit
  let c ← (List.finRange 32).foldlM (restartIrq H) (c.irqQInit junk)
  (c.startTimer H).poolInit

/-- `MRT_restart`. -/
def restart (c : Conf) (harmonic refresh : Int) (junk : BitVec 16) :
    Option (Conf × RestartCode) :=
  if harmonic ≤ 0 ∨ 10000 < harmonic then some (c, .badHarm)
  else if refresh ≤ 0 ∨ 10000 < refresh then some (c, .badRfsh)
  else if ∃ p, (c.sys.k.procs p).realtime = true then some (c, .rtActive)
  else (c.doRestart (BitVec.ofInt 32 harmonic) (BitVec.ofInt 32 refresh) junk).map (·, .ok)

end Conf

/-- A call that configures the interrupts. -/
inductive ConfOp where
  | irqdSet (irq : Int) (a : IrqdArg)
  | setiattr (v : Env) (caller : Proc) (irq : Int) (a : IAttr) (per : BitVec 32)
  | restart (harmonic refresh : Int) (junk : BitVec 16)

/-- One call. -/
def Conf.op (c : Conf) : ConfOp → Option Conf
  | .irqdSet irq a => c.irqdSet irq a
  | .setiattr v caller irq a per => (c.setiattr v caller irq a per).map Prod.fst
  | .restart h r junk => (c.restart h r junk).map Prod.fst

/-- The configurations reached from `c₀` by calls that all meet the condition `ok`. -/
abbrev Conf.ReachBy (ok : Conf → ConfOp → Prop) (c₀ : Conf) : Conf → Prop :=
  Run.ReachBy Conf.op ok c₀

/-- A sequence of calls that checks the condition before every call. -/
abbrev Conf.runBy (c₀ : Conf) (ok : Conf → ConfOp → Prop) [∀ c o, Decidable (ok c o)]
    (os : List ConfOp) : Option Conf := Run.runBy Conf.op ok c₀ os

end Kernel
