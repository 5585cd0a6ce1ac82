import Minix4rt.PriorityListProofs
import Minix4rt.RunProofs

/-! # Virtual timers — the timer queues of the RT kernel

    The `NR_VTIMERS` descriptors live in three places: the free list `freeQ`, the
    active queue `actQ` and the expired priority list `expQ`.  All of them are
    threaded through the one `link` of a descriptor.

    The active queue is a DELTA queue: `earliest` counts the ticks to the first
    expiration, `nextexp` of a descriptor the ticks from its expiration to the
    next one, and `maxper` the ticks from the first expiration to the last.

    A result `none` is a panic, a dereference of a null or wild pointer, or a walk
    that is longer than the pool. -/

namespace Vtimer

open IntrusiveList PriorityList

/-- A priority: an index of the lists of a priority list (`MRT_NR_PRTY` is 16). -/
abbrev Prty := Fin 16

/-- A timer descriptor, by its index in the pool (`NR_VTIMERS` is 16). -/
abbrev VT := Fin 16

scoped instance neZero16 : NeZero 16 := ⟨by decide⟩

scoped instance lawfulBEqVT : LawfulBEq VT := inferInstance

/-- `MRT_PRILOWEST`. -/
def priLowest : Prty := 15

/-- `HARDWARE`, the number of no process. -/
def hardware : Int := -1

/-- `MRT_MAXPER`. -/
def maxPer : BitVec 32 := 10000

/-- The `MIN` of two counters. -/
def minCtr (a b : BitVec 32) : BitVec 32 := if a < b then a else b

/-- The actions of a timer (`MRT_ACT_…`). -/
inductive Act where
  | none | sched | msgown | msgwdog | irqtrig | sndto | rcvfr | wakeup | debug
  | periodic | sndrcv | stop | down
deriving DecidableEq, Repr

/-- The status of a timer (`VT_…`). -/
inductive VtFlag where
  | alloc | freeQ | activeQ | expiredQ
deriving DecidableEq, Repr

/-- The lists threaded through the link of a timer. -/
inductive TimerQ where
  | act | free | exp (p : Prty)
deriving DecidableEq, Repr

/-- A timer descriptor.  `this` is the back pointer of its link; `none` stands for
    an address that is no descriptor. -/
structure Timer where
  period : BitVec 32
  limit : BitVec 32
  action : Act
  param : Int
  priority : Prty
  owner : Int
  flags : VtFlag
  nextexp : BitVec 32
  timestamp : BitVec 32
  expired : BitVec 32
  this : Option VT
deriving DecidableEq, Repr

/-- The timer system (`MRT_st`), with the tick counter and the timer mode of
    `MRT_sv`.  `oneshotPer` is the period last handed to `MRT_timer_oneshot`. -/
structure TimerSt where
  vt : VT → Timer
  q : Chains TimerQ VT
  exp : PAux 16
  earliest : BitVec 32
  maxper : BitVec 32
  ticks : BitVec 32
  oneshot : Bool
  oneshotPer : BitVec 32

namespace TimerSt

/-- Write the descriptor of `v`. -/
def upd (s : TimerSt) (v : VT) (g : Timer → Timer) : TimerSt :=
  { s with vt := Function.update s.vt v (g (s.vt v)) }

/-- Write the delta of `v`. -/
def setNextexp (s : TimerSt) (v : VT) (n : BitVec 32) : TimerSt :=
  s.upd v (fun t => { t with nextexp := n })

/-- `MRT_link_rst(&pvt->link, pvt, MRT_OBJVT)`. -/
def linkRst (s : TimerSt) (v : VT) : TimerSt :=
  { s.upd v (fun t => { t with this := some v }) with q := s.q.rstLink v }

/-- The descriptor that `pvt->link.prev->this` points to. -/
def prevThis (s : TimerSt) (v : VT) : Option VT :=
  match (s.q.lk v).prev with
  | none => none
  | some pl => (s.vt pl).this

/-- The timers in the list `i`. -/
def list (s : TimerSt) (i : TimerQ) : List VT := s.q.list i

/-! ## The active queue -/

/-- The part of `MRT_vtimer_rmv` that repairs the deltas around the leaver. -/
def rmvDelta (s : TimerSt) (v : VT) : Option TimerSt :=
  let L := s.q.hdr .act
  if L.first = some v ∧ L.last = some v then           -- the only
    some { s with earliest := 0, maxper := 0 }
  else if L.first = some v then                         -- the first
    some { s with earliest := s.earliest + (s.vt v).nextexp,
                  maxper := s.maxper - (s.vt v).nextexp }
  else if L.last = some v then                          -- the last
    match s.prevThis v with
    | none => none
    | some p => some { s with maxper := s.maxper - (s.vt p).nextexp }
  else                                                  -- in the middle
    match s.prevThis v with
    | none => none
    | some p => some (s.setNextexp p ((s.vt p).nextexp + (s.vt v).nextexp))

/-- The part of `MRT_vtimer_rmv` that unlinks the leaver. -/
def rmvLink (s : TimerSt) (v : VT) : TimerSt :=
  ({ s.upd v (fun t => { t with flags := .alloc }) with q := s.q.rmv .act v }).linkRst v

/-- `MRT_vtimer_rmv`. -/
def vtimerRmv (s : TimerSt) (v : VT) : Option TimerSt :=
  match s.rmvDelta v with
  | none => none
  | some s => some (s.rmvLink v)

/-- The search loop of `MRT_vtimer_ins`: the accumulated deadline and the link it
    stops at. -/
def insSearch (s : TimerSt) (period : BitVec 32) : Nat → BitVec 32 → VT → Option (BitVec 32 × VT)
  | 0, _, _ => none
  | fuel + 1, ticksum, plnext =>
    match (s.q.lk plnext).next with
    | none => some (ticksum, plnext)
    | some nn =>
      if ticksum ≤ period then
        match (s.vt plnext).this with
        | none => none
        | some pvtnext => insSearch s period fuel (ticksum + (s.vt pvtnext).nextexp) nn
      else some (ticksum, plnext)

/-- `MRT_vtimer_ins`, the branch for the middle of the queue. -/
def insMiddle (s : TimerSt) (v first : VT) : Option TimerSt :=
  let period := (s.vt v).period
  match s.insSearch period 17 s.earliest first with
  | none => none
  | some (ticksum, plnext) =>
    let s := s.setNextexp v (ticksum - period)
    match (s.q.lk plnext).prev with
    | none => none
    | some plprev =>
      match (s.vt plprev).this with
      | none => none
      | some pvtprev =>
        let s := s.setNextexp pvtprev ((s.vt pvtprev).nextexp - (s.vt v).nextexp)
        some { s with q := s.q.splice .act plprev v plnext }

/-- The four branches of `MRT_vtimer_ins`.  The comparisons are unsigned: `earliest`
    is a `long`, but the other operand of each is an `unsigned long`. -/
def insQueue (s : TimerSt) (v : VT) : Option TimerSt :=
  let period := (s.vt v).period
  match (s.q.hdr .act).first with
  | none =>                                             -- the active queue is empty
      let s := { s with earliest := period, maxper := 0 }
      let s := s.setNextexp v 0
      some { s with q := s.q.ins .act v }
  | some first =>
    if period < s.earliest then                       -- the new timer is the first
      let delta := s.earliest - period
      let s := s.setNextexp v delta
      some { s with q := s.q.ins .act v, maxper := s.maxper + delta, earliest := period }
    else if s.maxper + s.earliest ≤ period then       -- the new timer is the last
      match (s.q.hdr .act).last with
      | none => none
      | some plprev =>
        match (s.vt plprev).this with
        | none => none
        | some pvtprev =>
          let s := s.setNextexp pvtprev (period - (s.maxper + s.earliest))
          let s := { s with maxper := period - s.earliest }
          let s := s.setNextexp v 0
          match s.q.app .act v with
          | none => none
          | some q => some { s with q := q }
    else s.insMiddle v first

/-- `MRT_vtimer_ins`. -/
def vtimerIns (s : TimerSt) (v : VT) : Option TimerSt :=
  (s.upd v (fun t => { t with flags := .activeQ })).insQueue v

/-- `VTSET`: program a timer and insert it. -/
def vtset (s : TimerSt) (v : VT) (per lim : BitVec 32) (act : Act) (par : Int) (pty : Prty) :
    Option TimerSt :=
  (s.upd v (fun t => { t with
    period := per, limit := lim, action := act, param := par, priority := pty })).vtimerIns v

/-! ## The expired queue and the clock -/

/-- `MRT_plist_app(&MRT_st.expQ, plink, pty)`. -/
def expApp (s : TimerSt) (v : VT) (pty : Prty) : Option TimerSt :=
  match plistApp TimerQ.exp s.q s.exp v pty with
  | none => none
  | some (q, A) => some { s with q := q, exp := A }

/-- `MRT_plist_rmv(&MRT_st.expQ, plink, pty)`. -/
def expRmv (s : TimerSt) (v : VT) (pty : Prty) : TimerSt :=
  let (q, A) := plistRmv TimerQ.exp s.q s.exp v pty
  { s with q := q, exp := A }

/-- The loop of `MRT_clock_handler`; `minexp` is the accumulator of the one-shot
    mode. -/
def clockLoop : Nat → TimerSt → BitVec 32 → Option (TimerSt × BitVec 32)
  | 0, _, _ => none
  | fuel + 1, s, minexp =>
    match (s.q.hdr .act).first with
    | none => some (s, minexp)
    | some plink =>
      if s.earliest ≠ 0 then some (s, minexp)
      else match (s.vt plink).this with
        | none => none
        | some vt =>
          let t := s.vt vt
          let minexp :=
            if s.oneshot ∧ (t.expired + 1 < t.limit ∨ t.limit = 0)
            then minCtr minexp t.period else minexp
          match s.vtimerRmv vt with
          | none => none
          | some s =>
            match s.expApp plink (s.vt vt).priority with
            | none => none
            | some s => clockLoop fuel s minexp

/-- `MRT_clock_handler`. -/
def clockHandler (s : TimerSt) : Option TimerSt :=
  match clockLoop 17 s maxPer with
  | none => none
  | some (s, minexp) =>
    if s.oneshot then
      match (s.q.hdr .act).first with
      | none => some { s with oneshotPer := minexp }
      | some plink =>
        match (s.vt plink).this with
        | none => none
        | some vt => some { s with oneshotPer := minCtr minexp (s.vt vt).period }
    else some s

/-- The `CLOCK_IRQ` branch of `MRT_IRQ_dispatch`. -/
def clockIrq (s : TimerSt) : Option TimerSt :=
  if s.oneshot then { s with earliest := 0 }.clockHandler
  else
    let s := { s with ticks := s.ticks + 1 }
    match (s.q.hdr .act).first with
    | none => some s
    | some _ =>
      let s := { s with earliest := s.earliest - 1 }
      if s.earliest = 0 then s.clockHandler else some s

/-! ## The pool -/

/-- `MRT_vtimer_rst`. -/
def vtimerRst (s : TimerSt) (v : VT) : TimerSt :=
  (s.upd v (fun t =>
    { t with period := 0, limit := 0, action := .none, param := 0, owner := hardware,
             priority := priLowest, timestamp := 0, nextexp := 0, flags := .alloc })).linkRst v

/-- `MRT_vtimer_stop`. -/
def vtimerStop (s : TimerSt) (v : VT) : Option TimerSt :=
  let s' := match (s.vt v).flags with
    | .freeQ => none                                    -- panic: the timer is free
    | .activeQ => s.vtimerRmv v
    | .expiredQ => some (s.expRmv v (s.vt v).priority)
    | .alloc => some s
  match s' with
  | none => none
  | some s => some ((s.upd v (fun t => { t with nextexp := 0, flags := .alloc })).linkRst v)

/-- `MRT_list_app(&MRT_st.freeQ, &pvt->link)`. -/
def freeApp (s : TimerSt) (v : VT) : Option TimerSt :=
  match s.q.app .free v with
  | none => none
  | some q => some { s with q := q }

/-- `MRT_vtimer_free`. -/
def vtimerFree (s : TimerSt) (v : VT) : Option TimerSt :=
  match s.vtimerStop v with
  | none => none
  | some s => ((s.vtimerRst v).upd v (fun t => { t with flags := .freeQ })).freeApp v

/-- `MRT_vtimer_alloc`: the timer handed out (`none`: the `NULL` of a refusal) and
    the new state.  The action is an `Act`, so its range check never fails. -/
def vtimerAlloc (s : TimerSt) (per lim : BitVec 32) (act : Act) (par owner : Int)
    (pty : Prty) : Option (Option VT × TimerSt) :=
  if (s.q.hdr .free).inQ = 0 then some (none, s)
  else if per = 0 ∨ maxPer < per then some (none, s)
  else match (s.q.hdr .free).first with
    | none => none
    | some plink =>
      let s := { s with q := s.q.rmv .free plink }
      match (s.vt plink).this with
      | none => none
      | some vv =>
        some (some vv, s.upd vv (fun t =>
          { t with owner := owner, priority := pty, period := per, limit := lim,
                   action := act, param := par, flags := .alloc }))

/-- The timer system before any initialisation. -/
def zero : TimerSt where
  vt _ := { period := 0, limit := 0, action := .none, param := 0, priority := 0, owner := 0,
            flags := .alloc, nextexp := 0, timestamp := 0, expired := 0, this := none }
  q := { lk := fun _ => Link.rst, hdr := fun _ => ListHdr.rst }
  exp := PAux.rst
  earliest := 0
  maxper := 0
  ticks := 0
  oneshot := false
  oneshotPer := 0

/-- The loop of `MRT_vtimer_init`. -/
def vtimerInitLoop : List VT → TimerSt → Option TimerSt
  | [], s => some s
  | v :: vs, s =>
    match (s.vtimerRst v).freeApp v with
    | none => none
    | some s => vtimerInitLoop vs s

/-- `MRT_timerQ_init` and `MRT_vtimer_init`. -/
def vtimerInit : Option TimerSt := vtimerInitLoop (List.finRange 16) zero

end TimerSt

end Vtimer
