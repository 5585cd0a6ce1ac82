import Minix4rt.SchedModelProofs

/-! # RT messages — the entry pool, the six sends, `rtk_receive` and `MRT_ksend`

    A send looks whether its destination is blocked in a receive it satisfies.  If so
    the message goes straight to the destination, which becomes ready; otherwise an
    entry is taken from `mqeL`, filled and appended to the destination's queue, and the
    synchronous senders block.

    The message body is left out; the header is complete.  The copies to and from user
    memory succeed or fail as the environment says. -/

namespace Kernel

open ListPool Vtimer Function

/-- A priority that comes from a header or from a user; `none` is out of the array. -/
def prtyOf (n : Nat) : Option Prty := if h : n < 16 then some ⟨n, h⟩ else none

/-- An `int` that is stored in a `priority_t`, an `unsigned char`. -/
def lowByte (n : Int) : Nat := (n % 256).toNat

/-- A priority is its own low byte. -/
theorem prtyOf_lowByte (k : Prty) : prtyOf (lowByte k.val) = some k := by
  have hk : lowByte k.val = k.val := by
    rw [lowByte]
    omega
  rw [hk, prtyOf, dif_pos k.isLt]

/-! ## Entries and queues -/

namespace MsgSt

/-- `MRT_mqe_rst`. -/
def mqeRst (m : MsgSt) (e : Mqe) : MsgSt :=
  { m with hdr := update m.hdr e Hdr.rst, pool := m.pool.rstLink e }

/-- `MRT_mqe_alloc`; no entry is the `NULL` of an empty pool. -/
def mqeAlloc (m : MsgSt) : Option Mqe × MsgSt :=
  match m.pool.first () with
  | none => (none, m)
  | some e => (some e, { m with pool := m.pool.rmv () e })

/-- `MRT_mqe_free`. -/
def mqeFree (m : MsgSt) (e : Mqe) : Option MsgSt :=
  ((m.mqeRst e).pool.app () e).map (fun P => { m.mqeRst e with pool := P })

/-- The level of the queue `q` for the entry `e`. -/
def level (m : MsgSt) (q : MsgQ) (e : Mqe) : Option Prty :=
  if (m.msgQ q).order then prtyOf (m.hdr e).priority else some priHighest

/-- The queue holds as many entries as it may. -/
def full (m : MsgSt) (q : MsgQ) : Bool := decide ((m.pool.aux q).inQ = (m.msgQ q).size)

/-- Write a queue descriptor. -/
def updQ (m : MsgSt) (q : MsgQ) (g : MsgQRec → MsgQRec) : MsgSt :=
  { m with msgQ := update m.msgQ q (g (m.msgQ q)) }

/-- `MRT_mqe_app`; the flag is `false` for `E_MRT_MQFULL`. -/
def mqeApp (m : MsgSt) (q : MsgQ) (e : Mqe) : Option (MsgSt × Bool) :=
  if m.full q then some (m, false)
  else do
    let k ← m.level q e
    let P ← m.pool.papp q e k
    some ({ m with pool := P }.updQ q (fun r => { r with enqueued := r.enqueued + 1 }), true)

/-- `MRT_mqe_rmv`. -/
def mqeRmv (m : MsgSt) (q : MsgQ) (e : Mqe) : Option MsgSt :=
  (m.level q e).map (fun k =>
    { m with pool := m.pool.prmv q e k }.updQ q (fun r => { r with delivered := r.delivered + 1 }))

/-- The entry is one that `source` accepts. -/
def accepts (m : MsgSt) (source : Int) (e : Mqe) : Bool :=
  decide (source = anyProc) || decide (source = (m.hdr e).src)

/-- `MRT_mqe_pick`. -/
def mqePick (m : MsgSt) (q : MsgQ) (source : Int) : Option (Option Mqe) :=
  m.pool.pick q (m.accepts source)

/-- `MRT_msgQ_rst`. -/
def msgQRst (m : MsgSt) (q : MsgQ) : MsgSt :=
  { m.updQ q (fun _ => { size := 0, order := false, inherit := false, owner := -1,
                         delivered := 0, enqueued := 0 }) with
    free := m.free.rstLink q, pool := m.pool.prst q }

/-- `MRT_msgQ_free`. -/
def msgQFree (m : MsgSt) (q : MsgQ) : Option MsgSt :=
  ((m.msgQRst q).free.app () q).map (fun P => { m.msgQRst q with free := P })

/-- `MRT_msgQ_alloc`. -/
def msgQAlloc (m : MsgSt) (size : Int) (order inherit : Bool) (owner : Int) :
    Option MsgQ × MsgSt :=
  match m.free.first () with
  | none => (none, m)
  | some q =>
    (some q, { m with free := m.free.rmv () q }.updQ q (fun r =>
      { r with size := size, order := order, inherit := inherit, owner := owner }))

end MsgSt

namespace KState

/-! ## Timers of a process -/

/-- `MRT_vtimer_stop` on a pointer. -/
def stopTimer (s : KState) (v : Option VT) : Option KState := do
  let v ← v
  let t ← s.tm.vtimerStop v
  some { s with tm := t }

/-- `if (p->ipcvt != NULL) MRT_vtimer_stop(p->ipcvt)`. -/
def stopTimerIf (s : KState) (v : Option VT) : Option KState :=
  match v with
  | none => some s
  | some v => s.stopTimer (some v)

/-- `VTSET` on the IPC timer of `p`, unless the timeout is `MRT_FOREVER`. -/
def armIpc (s : KState) (p : Proc) (timeout : BitVec 32) (act : Act) (par : Int) :
    Option KState :=
  if timeout = forever then some s
  else do
    let v ← (s.procs p).ipcvt
    let t ← s.tm.vtset v timeout 1 act par (s.rq.prio p)
    some { s with tm := t }

/-! ## Priority inheritance -/

/-- `MRT_sproc_pick`. -/
def sprocPick (s : KState) (m : Sem) : Option Proc :=
  (s.rq.pool.pget (some m)).bind (fun x => (s.procs x).this)

/-- Change the priority of a process and, if it is ready, its place in `rdyQ`. -/
def moveTo (s : KState) (p : Proc) (k : Prty) : KState :=
  if s.rtReady p then ((s.rdyQRmv p).setPrio p k).rdyQIns p else s.setPrio p k

/-- `MRT_inherit`.  `prty` is an `int`, of which the record of the process keeps the low byte;
    a byte that is no priority is out of `rdyQ`.  The recursion lowers a priority at every
    level, so 44 levels are enough for the 43 processes; with a negative `prty` a cycle never
    ends. -/
def inherit : Nat → KState → Int → Option Proc → Option KState
  | 0, _, _, _ => none
  | n + 1, s, prty, o =>
    if ¬ s.bpip then some s
    else match o with
      | none => none
      | some p =>
        if prty < (s.rq.prio p).val then do
          let k ← prtyOf (lowByte prty)
          let r := s.procs p
          let s' := s.moveTo p k
          if s.rtReady p then some s'
          else if r.st.mbxSnd then inherit n s' prty r.pto
          else if r.st.mbxRcv ∧ r.pfrom ≠ some p then inherit n s' prty r.pfrom
          else if r.st.semDown then
            match r.psem with
            | none => none
            | some m =>
              match (s'.ss.sem m).carrier with
              | none => some s'
              | some c => inherit n s' prty (some c)
          else some s'
        else some s

/-- The best priority among the processes that wait on the semaphores locked by `j`. -/
def semPrty (s : KState) (j : Proc) : Option Nat :=
  (s.ss.lock.chain j).map (fun ms => ms.foldl (fun acc m =>
    match s.sprocPick m with
    | none => acc
    | some r => min acc (s.rq.prio r).val) priLowest.val)

/-- The best priority among the entries of the queue `q`. -/
def mqPrty (s : KState) (q : MsgQ) : Option Nat :=
  (s.ms.mqePick q anyProc).map (fun o =>
    match o with
    | none => priLowest.val
    | some e => (s.ms.hdr e).priority)

/-- `MRT_disinherit`.  The loop over the locked semaphores starts from the
    uninitialised `rp`, whose value is `junk`; `pptr` is never looked at there. -/
def disinherit (s : KState) (pptr junk : Option Proc) : Option KState :=
  if ¬ s.bpip then some s
  else do
    let j ← junk
    let semPrty ← s.semPrty j
    let p ← pptr
    let q ← (s.procs p).pmq
    let mqPrty ← s.mqPrty q
    let base := (s.procs p).base
    some (if h : min semPrty mqPrty < base.val
      then s.moveTo p ⟨min semPrty mqPrty, lt_trans h base.isLt⟩ else s)

/-! ## Sending -/

/-- The parameters of an IPC call (`mrt_ipc_t`). -/
structure Ipc where
  pNr : Int
  pid : Int
  timeout : BitVec 32
  priority : Int
deriving DecidableEq, Repr

/-- How a send ends. -/
inductive Sent where
  | err (c : Code)
  | direct
  | queued (e : Mqe)
deriving DecidableEq, Repr

/-- The checks of a destination; `MRT_ksend` makes them without a pid. -/
def destCheck (s : KState) (nr : Int) (pid : Option Int) :
    Option (Except Code (Proc × MsgQ)) := do
  let d ← procAddr nr
  if ¬ s.isProcess d then some (.error .badProc)
  else if pid.any (fun n => decide ((s.procs d).pid ≠ n)) then some (.error .badDest)
  else if ¬ (s.procs d).realtime then some (.error .badPtype)
  else do
    let q ← (s.procs d).pmq
    some (if s.ms.full q then .error .mqFull else .ok (d, q))

/-- The destination `d` waits for a message of the current process or, where `any`
    says that this is looked at, for any message. -/
def waiting (s : KState) (d : Proc) (any : Bool) : Bool :=
  (s.procs d).st.mbxRcv &&
    (decide ((s.procs d).pfrom = some s.cur) || (any && decide ((s.procs d).pfrom = some d)))

/-- The header that a send fills in. -/
def mkHdr (s : KState) (src d : Proc) (t : MType) (prty : Nat) (dl : BitVec 32) : Hdr :=
  { src := procNr src, srcPid := (s.procs src).pid, dst := procNr d, dstPid := (s.procs d).pid,
    mtype := t, mid := s.ms.messages + 1, seqno := s.msgsent src + 1, tstamp := s.tm.ticks,
    priority := prty, deadline := dl }

/-- The message counters that a header uses up. -/
def stamp (s : KState) (src : Proc) : KState :=
  { s with ms := { s.ms with messages := s.ms.messages + 1 },
           msgsent := update s.msgsent src (s.msgsent src + 1) }

/-- Statistics of a message that goes straight to its destination; only the user calls
    raise the high-water mark of the queue. -/
def countDirect (s : KState) (d : Proc) (q : MsgQ) (bump : Bool) : KState :=
  let ms := s.ms.updQ q (fun r =>
    { r with delivered := r.delivered + 1, enqueued := r.enqueued + 1 })
  let A := ms.pool.aux q
  let A := if bump then { A with maxinQ := max A.maxinQ (A.inQ + 1) } else A
  { s with ms := { ms with pool := { ms.pool with aux := update ms.pool.aux q A } },
           msgrcvd := update s.msgrcvd d (s.msgrcvd d + 1) }

/-- Unblock the destination of a message that it waits for, and stop its timeout. -/
def unblockReceiver (s : KState) (d : Proc) : Option KState := do
  let s := s.updProc d (fun r => { r with pfrom := none, st := { r.st with mbxRcv := false } })
  let s ← s.readyIfClear d
  s.stopTimer (s.procs d).ipcvt

/-- Append a filled entry; the queue was found not full, so `E_MRT_MQFULL` is a panic. -/
def enqueue (s : KState) (q : MsgQ) (e : Mqe) : Option KState :=
  match s.ms.mqeApp q e with
  | some (m, true) => some { s with ms := m }
  | _ => none

/-- Take an entry from the pool for a message of `src` and fill its header. -/
def newEntry (s : KState) (src d : Proc) (t : MType) (prty : Nat) (dl : BitVec 32) :
    Option (Mqe × KState) :=
  match s.ms.mqeAlloc with
  | (none, _) => none
  | (some e, m) =>
    some (e, ({ s with ms := { m with
      hdr := update m.hdr e (s.mkHdr src d t prty dl) } } : KState).stamp src)

/-- The common part of the sends of the current process: hand the message over, or
    queue it. -/
def sendMsg (v : Env) (s : KState) (t : MType) (prty : Nat) (dl : BitVec 32)
    (any nowait : Bool) (d : Proc) (q : MsgQ) : Option (KState × Sent) :=
  if s.waiting d any then
    if v.msg s.cur ∧ v.hdr d then
      (((s.stamp s.cur).countDirect d q true).unblockReceiver d).map (·, .direct)
    else some (s.stamp s.cur, .err .inval)
  else if nowait then some (s, .err .tryAgain)
  else match s.newEntry s.cur d t prty dl with
    | none => some (s, .err .noMqEnt)
    | some (e, s) =>
      if v.msg s.cur then (s.enqueue q e).map (·, .queued e)
      else some (s, .err .inval)      -- the entry is neither queued nor given back

/-- `if (TEST_BIT(dest_ptr->pmq->flags, MQ_PRTYINHERIT)) MRT_inherit(prty, dest_ptr)`. -/
def inheritTo (s : KState) (q : MsgQ) (prty : Int) (d : Proc) : Option KState :=
  if (s.ms.msgQ q).inherit then inherit 44 s prty (some d) else some s

/-- Block the current process until its message is received. -/
def blockSender (s : KState) (d : Proc) : KState :=
  (s.updProc s.cur (fun r => { r with pto := some d, st := { r.st with mbxSnd := true } })).rdyQRmv
    s.cur

/-- `rtk_rqst`. -/
def rtkRqst (v : Env) (s : KState) (ipc : Ipc) : Option (KState × Code) := do
  match ← s.destCheck ipc.pNr (some ipc.pid) with
  | .error c => some (s, c)
  | .ok (d, q) =>
    let prty := (s.rq.prio s.cur).val
    match ← s.sendMsg v .request prty (s.procs s.cur).deadline true
        (decide (ipc.timeout = noWait)) d q with
    | (s, .err c) => some (s, c)
    | (s, .direct) => (s.inheritTo q prty d).map (·, .ok)
    | (s, .queued e) => do
        let s ← s.armIpc s.cur ipc.timeout .sndto (e.val : Int)
        ((s.blockSender d).inheritTo q prty d).map (·, .ok)

/-- The sends that never block: message type, priority and deadline of the header, and
    the priority that the destination inherits, if any. -/
def asyncSend (v : Env) (s : KState) (ipc : Ipc) (t : MType) (prty : Proc → Nat)
    (dl : Proc → BitVec 32) (inh : Option Int) : Option (KState × Code) := do
  match ← s.destCheck ipc.pNr (some ipc.pid) with
  | .error c => some (s, c)
  | .ok (d, q) =>
    match ← s.sendMsg v t (prty d) (dl d) true false d q with
    | (s, .err c) => some (s, c)
    | (s, _) =>
      match inh with
      | none => some (s, .ok)
      | some k => (s.inheritTo q k d).map (·, .ok)

/-- `rtk_arqst`. -/
def rtkArqst (v : Env) (s : KState) (ipc : Ipc) : Option (KState × Code) :=
  s.asyncSend v ipc .arequest (fun _ => (s.rq.prio s.cur).val)
    (fun _ => (s.procs s.cur).deadline) (some ((s.rq.prio s.cur).val : Int))

/-- `rtk_uprqst`.  The header gets the low byte of `ipc->priority`, `MRT_inherit` the whole. -/
def rtkUprqst (v : Env) (s : KState) (ipc : Ipc) : Option (KState × Code) :=
  s.asyncSend v ipc .uprqst (fun _ => lowByte ipc.priority) (fun _ => 0) (some ipc.priority)

/-- `rtk_sign`. -/
def rtkSign (v : Env) (s : KState) (ipc : Ipc) : Option (KState × Code) :=
  s.asyncSend v ipc .signal (fun d => (s.rq.prio d).val) (fun d => (s.procs d).deadline) none

/-- `if (TEST_BIT(proc_ptr->pmq->flags, MQ_PRTYINHERIT)) MRT_disinherit(proc_ptr)`. -/
def disinheritCur (v : Env) (s : KState) : Option KState := do
  let q ← (s.procs s.cur).pmq
  if (s.ms.msgQ q).inherit then s.disinherit (some s.cur) (v.junk 0) else some s

/-- `rtk_reply`.  The test for a waiting destination does not look for a receive from
    any process. -/
def rtkReply (v : Env) (s : KState) (ipc : Ipc) : Option (KState × Code) := do
  match ← s.destCheck ipc.pNr (some ipc.pid) with
  | .error c => (s.disinheritCur v).map (·, c)
  | .ok (d, q) =>
    match ← s.sendMsg v .reply (s.rq.prio s.cur).val (s.procs s.cur).deadline false false d q with
    | (s, .err c) => some (s, c)
    | (s, _) => (s.disinheritCur v).map (·, .ok)

/-- Write the parameter of the IPC timer of `p`. -/
def setIpcParam (s : KState) (p : Proc) (par : Int) : Option KState :=
  (s.procs p).ipcvt.map (fun v => { s with tm := s.tm.upd v (fun t => { t with param := par }) })

/-- The receive section of `rtk_rqrcv`: the timeout always has the parameter 0. -/
def blockReply (s : KState) (ipc : Ipc) (d : Proc) : Option KState := do
  let s ← s.armIpc s.cur ipc.timeout .sndrcv 0
  let s := s.updProc s.cur (fun r =>
    { r with pfrom := some d, st := { r.st with mbxRcv := true } })
  some (s.rdyQRmv s.cur)

/-- `rtk_rqrcv`. -/
def rtkRqrcv (v : Env) (s : KState) (ipc : Ipc) : Option (KState × Code) :=
  if ipc.timeout = noWait then some (s, .inval)
  else do
    match ← s.destCheck ipc.pNr (some ipc.pid) with
    | .error c => some (s, c)
    | .ok (d, q) =>
      let prty := (s.rq.prio s.cur).val
      match ← s.sendMsg v .rqrcv prty (s.procs s.cur).deadline true false d q with
      | (s, .err c) => some (s, c)
      | (s, .direct) => do
          let s ← s.setIpcParam s.cur (-1)
          let s ← s.blockReply ipc d
          (s.inheritTo q prty d).map (·, .ok)
      | (s, .queued e) => do
          let s := s.updProc s.cur (fun r =>
            { r with pto := some d, st := { r.st with mbxSnd := true } })
          let s ← s.setIpcParam s.cur (e.val : Int)
          let s ← s.blockReply ipc d
          (s.inheritTo q prty d).map (·, .ok)

/-- `MRT_ksend`.  The test for a waiting destination looks for the CURRENT process,
    whatever source the message carries. -/
def ksend (v : Env) (s : KState) (src dest : Int) (prty : Nat) (t : MType) :
    Option (KState × Code) := do
  let sp ← procAddr src
  match ← s.destCheck dest none with
  | .error c => some (s, c)
  | .ok (d, q) =>
    if s.waiting d true then
      if v.hdr d then do
        let s ← ((s.stamp sp).countDirect d q false).unblockReceiver d
        (s.inheritTo q prty d).map (·, .ok)
      else some (s.stamp sp, .inval)
    else match s.newEntry sp d t prty 0 with
      | none => some (s, .noMqEnt)
      | some (e, s) =>
        if v.hdr d then
          match s.ms.mqeApp q e with
          | none => none
          | some (_, false) => some (s, .mqFull)
          | some (m, true) =>
            (({ s with ms := m } : KState).inheritTo q prty d).map (·, .ok)
        else some (s, .inval)

/-! ## Receiving -/

/-- The checks of `rtk_receive` on the process it names. -/
def sourceCheck (s : KState) (ipc : Ipc) : Option Code :=
  if ipc.pNr = anyProc then some .ok
  else (procAddr ipc.pNr).map (fun src =>
    if ¬ s.isProcess src then .badProc
    else if (s.procs src).pid ≠ ipc.pid then .badPtype else .ok)

/-- Release the sender of the entry `e`, if it waits for this receiver. -/
def releaseSender (s : KState) (e : Mqe) (src : Proc) : Option KState :=
  let clr := fun (s : KState) =>
    s.updProc src (fun r => { r with pto := none, st := { r.st with mbxSnd := false } })
  if (s.ms.hdr e).mtype = .request ∧ (s.procs src).pto = some s.cur then do
    let s ← s.stopTimer (s.procs src).ipcvt
    (clr s).readyIfClear src
  else if (s.ms.hdr e).mtype = .rqrcv ∧ (s.procs src).pto = some s.cur then some (clr s)
  else some s

/-- Take a received entry out of the queue and give it back to the pool. -/
def dropEntry (s : KState) (q : MsgQ) (e : Mqe) : Option KState := do
  let m ← s.ms.mqeRmv q e
  let m ← (m.mqeRst e).mqeFree e
  some { s with ms := m }

/-- Block the current process in a receive. -/
def blockReceive (s : KState) (ipc : Ipc) (q : MsgQ) : Option KState := do
  let s ← s.armIpc s.cur ipc.timeout .rcvfr (q.val : Int)
  let from? := if ipc.pNr = anyProc then some s.cur else procAddr ipc.pNr
  let s := s.updProc s.cur (fun r =>
    { r with pfrom := from?, st := { r.st with mbxRcv := true } })
  some (s.rdyQRmv s.cur)

/-- `rtk_receive`. -/
def rtkReceive (v : Env) (s : KState) (ipc : Ipc) : Option (KState × Code) := do
  match ← s.sourceCheck ipc with
  | .ok =>
    let q ← (s.procs s.cur).pmq
    match ← s.ms.mqePick q ipc.pNr with
    | none =>
      if ipc.timeout = noWait then some (s, .tryAgain)
      else (s.blockReceive ipc q).map (·, .ok)
    | some e =>
      if v.msg s.cur ∧ v.hdr s.cur then do
        let src ← procAddr (s.ms.hdr e).src
        let s ← s.releaseSender e src
        let s ← s.dropEntry q e
        some ({ s with msgrcvd := update s.msgrcvd s.cur (s.msgrcvd s.cur + 1) }, .ok)
      else some (s, .inval)
  | c => some (s, c)

end KState

end Kernel
