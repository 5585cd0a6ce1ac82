import Minix4rt.RtEventModelProofs
import Minix4rt.SchedFrameProofs
import Minix4rt.LeaveStepsProofs
import Minix4rt.VtimerPlacementProofs

/-! # The moves of the kernel — what one entry into the kernel is made of

    An entry into the RT kernel is cut into MOVES: a message handed to a waiting
    receiver, an entry queued, a sender blocked, a semaphore raised, a timer run, and so
    on.  A move is the smallest piece of code after which the queues and the status bits
    agree again, so an invariant of the kernel is proved one move at a time, and never
    looks inside `rtk_call` or `MRT_set2nrt`.

    `MRT_set2nrt` is a long sequence of moves during which one process is neither an RT
    process nor a MINIX process; it is carried along as the LEAVING process. -/

namespace Kernel

open ListPool Vtimer KState TimerSt Function Option

/-- Bookkeeping: only statistics, return codes and requests to reschedule change. -/
structure Book (s s' : KState) : Prop where
  procs : s'.procs = s.procs
  rq : s'.rq = s.rq
  tm : s'.tm = s.tm
  ss : s'.ss = s.ss
  mx : s'.mx = s.mx
  cur : s'.cur = s.cur
  bpip : s'.bpip = s.bpip
  hdr : s'.ms.hdr = s.ms.hdr
  free : s'.ms.free = s.ms.free
  chains : s'.ms.pool.C = s.ms.pool.C
  aux : ∀ q, (s'.ms.pool.aux q).bitmap = (s.ms.pool.aux q).bitmap ∧
    (s'.ms.pool.aux q).inQ = (s.ms.pool.aux q).inQ
  queue : ∀ q, (s'.ms.msgQ q).size = (s.ms.msgQ q).size ∧
    (s'.ms.msgQ q).order = (s.ms.msgQ q).order ∧
    (s'.ms.msgQ q).inherit = (s.ms.msgQ q).inherit

/-- All copies to and from user memory succeed. -/
def Env.Copies (v : Env) : Prop := ∀ p, v.msg p = true ∧ v.hdr p = true

instance (v : Env) : Decidable v.Copies :=
  inferInstanceAs (Decidable (∀ p, v.msg p = true ∧ v.hdr p = true))

/-- The copies that an event makes succeed. -/
def Event.Copies : Event → Prop
  | .rtk _ v _ | .task v _ | .ksend _ v _ _ _ _ | .flush _ v _ => v.Copies
  | .inherit _ _ | .disinherit _ _ | .irqTimer _ _ _ | .tick => True

instance (e : Event) : Decidable e.Copies := by
  unfold Event.Copies
  split <;> infer_instance

/-- The event is a call of a process or task, or a kernel message: these are the entries
    that stop timers. -/
def Event.isCall : Event → Bool
  | .rtk _ _ _ | .task _ _ | .ksend _ _ _ _ _ _ => true
  | .inherit _ _ | .disinherit _ _ | .irqTimer _ _ _ | .tick | .flush _ _ _ => false

/-- The event is a call that uses the environment `v`. -/
structure Calls (e : Event) (v : Env) : Prop where
  call : e.isCall = true
  copies : e.Copies → v.Copies

/-- The types of the messages whose sender waits until they are received. -/
def MType.Sync (t : MType) : Prop := t = .request ∨ t = .rqrcv

instance (t : MType) : Decidable t.Sync := inferInstanceAs (Decidable (_ ∨ _))

/-- The current process is an RT process that is not blocked. -/
structure Running (s : KState) : Prop where
  rt : (s.procs s.cur).realtime = true
  clear : (s.procs s.cur).st = .clear

/-- Who a message that is not handed over may come from: the current process, the
    leaving process, or the source that a call of `MRT_ksend` names. -/
def Source (e : Event) (x : Option Proc) (s : KState) (src : Proc) : Prop :=
  src = s.cur ∨ x = some src ∨
    ∃ p v dest prty t, e = .ksend p v (procNr src) dest prty t

/-- The event takes the process `rp` out of RT mode. -/
def Leaves (e : Event) (s : KState) (rp : Proc) : Prop :=
  match e with
  | .rtk p _ .set2nrt => rp = p
  | .task _ (.exit nr) => procAddr nr = some rp
  | .task _ (.stdsignal _ pid) => s.pid2pptr pid = some rp
  | _ => False

/-- The priority in the header of a message: one of the 16, or whatever a call of
    `rtk_uprqst` names. -/
def Ranked (e : Event) (prty : Nat) : Prop :=
  prty < 16 ∨ ∃ p v ipc, e = .rtk p v (.uprqst ipc) ∧ prty = lowByte ipc.priority

theorem Ranked.of_prty (e : Event) (k : Prty) : Ranked e k.val := .inl k.isLt

/-- One move of the event `e`, with the leaving process before and after it. -/
inductive Move (e : Event) : Option Proc × KState → Option Proc × KState → Prop where
  | book {x s s'} : Book s s' → Move e (x, s) (x, s')
  | watch {x s} (p : Proc) (w : Int) : w = hardware →
      Move e (x, s) (x, s.updProc p (fun r => { r with watchdog := w }))
  | inherit {x s s' k d} : (s.procs d).realtime = true ∨ (∃ k', e = .inherit k' d) →
      KState.inherit 44 s k (some d) = some s' → Move e (x, s) (x, s')
  | disinherit {x s s' o j} :
      o = s.cur ∧ (s.procs o).realtime = true ∨ e = .disinherit o j →
      s.disinherit (some o) j = some s' → Move e (x, s) (x, s')
  -- messages
  | deliver {x s s' d} : e.isCall = true → (s.procs d).realtime = true →
      (s.procs d).st.mbxRcv = true →
      (s.procs d).pfrom = some s.cur ∨ (s.procs d).pfrom = some d →
      s.unblockReceiver d = some s' → Move e (x, s) (x, s')
  | queue {x s s1 s' src d q t prty dl k any} : (s.procs d).realtime = true →
      (s.procs d).pmq = some q → ¬ t.Sync → t ≠ .mbfree → s.waiting d any = false →
      any = true ∨ (∃ p v ipc, e = .rtk p v (.reply ipc) ∧ procAddr ipc.pNr = some d) →
      Source e x s src → s.newEntry src d t prty dl = some (k, s1) →
      s1.enqueue q k = some s' → Ranked e prty → Move e (x, s) (x, s')
  | lose {x s s' src d t prty dl k} : ¬ e.Copies →
      s.newEntry src d t prty dl = some (k, s') → Ranked e prty → Move e (x, s) (x, s')
  | send {s s1 s2 s3 d q prty dl k p v ipc} : Running s → e = .rtk p v (.rqst ipc) →
      (s.procs d).realtime = true → (s.procs d).pmq = some q → s.waiting d true = false →
      s.newEntry s.cur d .request prty dl = some (k, s1) → s1.enqueue q k = some s2 →
      s2.armIpc s2.cur ipc.timeout .sndto (k.val : Int) = some s3 → Ranked e prty →
      Move e (none, s) (none, s3.blockSender d)
  | sendRecv {s s1 s2 s3 s' d q prty dl k p v ipc} : Running s → e = .rtk p v (.rqrcv ipc) →
      procAddr ipc.pNr = some d → (s.procs d).realtime = true → (s.procs d).pmq = some q →
      s.waiting d true = false →
      s.newEntry s.cur d .rqrcv prty dl = some (k, s1) → s1.enqueue q k = some s2 →
      (s2.updProc s2.cur (fun r =>
        { r with pto := some d, st := { r.st with mbxSnd := true } })).setIpcParam s2.cur
          (k.val : Int) = some s3 →
      s3.blockReply ipc d = some s' → Ranked e prty → Move e (none, s) (none, s')
  | recvReply {s s1 s' d p v ipc} : Running s → e = .rtk p v (.rqrcv ipc) →
      procAddr ipc.pNr = some d → s.cur ≠ d → s.setIpcParam s.cur (-1) = some s1 →
      s1.blockReply ipc d = some s' → Move e (none, s) (none, s')
  | recv {s s' q p v ipc} : Running s → e = .rtk p v (.receive ipc) →
      (s.procs s.cur).pmq = some q → s.ms.mqePick q ipc.pNr = some none →
      s.blockReceive ipc q = some s' → Move e (none, s) (none, s')
  | take {s s1 s' q k src p v ipc} : Running s → e = .rtk p v (.receive ipc) →
      (s.procs s.cur).pmq = some q → s.ms.mqePick q ipc.pNr = some (some k) →
      procAddr (s.ms.hdr k).src = some src → s.releaseSender k src = some s1 →
      s1.dropEntry q k = some s' → Move e (none, s) (none, s')
  -- sleeping
  | sleep {s s' t r} : Running s → s.sleep s.cur t = some (s', r) → Move e (none, s) (none, s')
  | stop {x s s' rp} : e.isCall = true → (s.procs rp).realtime = true →
      s.stopTimer (s.procs rp).ipcvt = some s' → Move e (x, s) (x, s')
  | wake {x s s1 s' rp} : e.isCall = true → (s.procs rp).realtime = true →
      s.stopTimer (s.procs rp).ipcvt = some s1 → (s1.procs rp).st.sleep = true →
      (s1.setSt rp (fun t => { t with sleep := false })).readyIfClear rp = some s' →
      Move e (x, s) (x, s')
  -- semaphores
  | semup {s s' m j r p v id} : Running s → e = .rtk p v (.semup id) → tabAddr 16 id = some m →
      s.semup m j = some (s', r) → Move e (none, s) (none, s')
  | semdown {s s' m t r p v id} : Running s → e = .rtk p v (.semdown id t) →
      tabAddr 16 id = some m → s.semdown m t = some (s', r) → Move e (none, s) (none, s')
  | unlock {s s' rp m j r} : e.isCall = true → s.ss.lock.first rp = some m →
      s.semup m j = some (s', r) →
      Move e (some rp, s) (some rp, s')
  | release {s s1 s2 s' rp ms m rpp} : e.isCall = true →
      s.ss.alloc.chain (some rp) = some ms → m ∈ ms →
      s.sprocPick m = some rpp → s.sprocRmv m rpp = some s1 →
      s1.stopTimerIf (s1.procs rpp).ipcvt = some s2 →
      (s2.clrDown rpp).readyIfClear rpp = some s' → Move e (some rp, s) (some rp, s')
  | semalloc {s s' v caller c a r} : e = .task v (.semalloc caller a) →
      s.pid2pptr caller = some c → (s.procs c).realtime = false →
      s.semalloc v c a = some (s', r) → Move e (none, s) (none, s')
  | semFree {s s' rp m} : (s.procs rp).realtime = false →
      (∃ v nr, e = .task v (.exit nr) ∧ s.ss.alloc.first (some rp) = some m) ∨
        (∃ v caller id, e = .task v (.semfree caller id) ∧ tabAddr 16 id = some m ∧
          (s.ss.sem m).owner ≠ hardware ∧ (s.ss.sem m).owner = procNr rp) →
      s.semFree rp m = some s' → Move e (none, s) (none, s')
  -- entering and leaving RT mode
  | set2rt {s s' r p v} : e = .rtk p v .set2rt → s.cur ≠ hardwareProc →
      s.rtkSet2rt = some (s', r) → Move e (none, s) (none, s')
  | leave {s s' rp} : Leaves e s rp → (s.procs rp).realtime = true →
      (if s.rtReady rp then s.rdyQRmv rp else s).dropTimers rp = some s' →
      Move e (none, s) (some rp, s')
  | dropQueue {s s' rp} : s.dropQueue rp = some s' → Move e (some rp, s) (some rp, s')
  | sweep {s s' rp d q k} : (s.ms.hdr k).src = procNr rp →
      procAddr (s.ms.hdr k).dst = some d → (s.procs d).pmq = some q →
      s.dropEntry q k = some s' → Move e (some rp, s) (some rp, s')
  | back {s rp} : (s.procs rp).pmq = none →
      (rp ≠ hardwareProc → ∀ k, (s.ms.hdr k).src ≠ procNr rp) →
      Move e (some rp, s) (none, s.backToMinix rp)
  | procRst {s rp v nr} : e = .task v (.exit nr) → (s.procs rp).realtime = false →
      s.ss.alloc.first (some rp) = none → Move e (none, s) (none, s.procRst rp)
  | writeAttr {s c a k v caller} : e = .task v (.setpattr caller a) →
      (s.procs c).realtime = false → Move e (none, s) (none, s.writeAttr c a k)
  -- timers
  | irqTimer {s s1 s' v per irq prty} : s.vtalloc per 0 .irqtrig irq hardware prty = some (v, s1) →
      s1.insTimer v = some s' → Move e (none, s) (none, s')
  | tick {s t} : e = .tick → s.tm.clockIrq = some t → Move e (none, s) (none, { s with tm := t })
  | expire {s s' p v prty plk vt} : e = .flush p v prty →
      (s.tm.q.hdr (.exp prty)).first = some plk → (s.tm.vt plk).this = some vt →
      s.vtimerRun v vt = some s' → Move e (none, s) (none, s')

/-- The moves of an event, one after the other. -/
def Moves (e : Event) : Option Proc × KState → Option Proc × KState → Prop :=
  Relation.ReflTransGen (Move e)

/-! ## The six sends -/

/-- The sends of the current process. -/
inductive SendCall where
  | rqst | arqst | uprqst | sign | reply | rqrcv
deriving DecidableEq, Repr

namespace SendCall

/-- The call itself. -/
def exec (v : Env) (s : KState) (ipc : Ipc) : SendCall → Option (KState × Code)
  | .rqst => s.rtkRqst v ipc
  | .arqst => s.rtkArqst v ipc
  | .uprqst => s.rtkUprqst v ipc
  | .sign => s.rtkSign v ipc
  | .reply => s.rtkReply v ipc
  | .rqrcv => s.rtkRqrcv v ipc

/-- The send looks for a receive from any process. -/
def any : SendCall → Bool
  | .reply => false
  | _ => true

/-- The send gives up rather than wait. -/
def nowait (ipc : Ipc) : SendCall → Bool
  | .rqst => decide (ipc.timeout = noWait)
  | _ => false

/-- The type of its message. -/
def mtype : SendCall → MType
  | .rqst => .request
  | .arqst => .arequest
  | .uprqst => .uprqst
  | .sign => .signal
  | .reply => .reply
  | .rqrcv => .rqrcv

/-- The priority of its message. -/
def prty (s : KState) (ipc : Ipc) (d : Proc) : SendCall → Nat
  | .uprqst => lowByte ipc.priority
  | .sign => (s.rq.prio d).val
  | _ => (s.rq.prio s.cur).val

/-- The deadline of its message. -/
def deadline (s : KState) (d : Proc) : SendCall → BitVec 32
  | .uprqst => 0
  | .sign => (s.procs d).deadline
  | _ => (s.procs s.cur).deadline

/-- What a send does when its message has been handed over or queued. -/
def finish (v : Env) (ipc : Ipc) (prty : Nat) (d : Proc) (q : MsgQ) (s : KState) :
    SendCall → Sent → Option KState
  | .sign, _ => some s
  | .reply, _ => s.disinheritCur v
  | .uprqst, _ => s.inheritTo q ipc.priority d
  | .rqst, .queued e =>
    (s.armIpc s.cur ipc.timeout .sndto (e.val : Int)).bind (fun s =>
      (s.blockSender d).inheritTo q prty d)
  | .rqrcv, .queued e =>
    let s := s.updProc s.cur (fun r => { r with pto := some d, st := { r.st with mbxSnd := true } })
    (s.setIpcParam s.cur (e.val : Int)).bind (fun s =>
      (s.blockReply ipc d).bind (fun s => s.inheritTo q prty d))
  | .rqrcv, _ =>
    (s.setIpcParam s.cur (-1)).bind (fun s =>
      (s.blockReply ipc d).bind (fun s => s.inheritTo q prty d))
  | _, _ => s.inheritTo q prty d

/-- The system call that makes the send. -/
def call (ipc : Ipc) : SendCall → Call
  | .rqst => .rqst ipc
  | .arqst => .arqst ipc
  | .uprqst => .uprqst ipc
  | .sign => .sign ipc
  | .reply => .reply ipc
  | .rqrcv => .rqrcv ipc

end SendCall

/-- What a send can do. -/
inductive SendCase (v : Env) (s : KState) (ipc : Ipc) (c : SendCall) : KState → Code → Prop
  | noWait (hc : c = .rqrcv) (ht : ipc.timeout = noWait) : SendCase v s ipc c s .inval
  | refused {r : Code} (hd : s.destCheck ipc.pNr (some ipc.pid) = some (.error r))
      (hc : c ≠ .reply) : SendCase v s ipc c s r
  | refusedReply {r : Code} {s' : KState}
      (hd : s.destCheck ipc.pNr (some ipc.pid) = some (.error r)) (hc : c = .reply)
      (h : s.disinheritCur v = some s') : SendCase v s ipc c s' r
  | failed {d : Proc} {q : MsgQ} {r : Code} {s' : KState}
      (hn : ¬ (c = .rqrcv ∧ ipc.timeout = noWait))
      (hd : s.destCheck ipc.pNr (some ipc.pid) = some (.ok (d, q)))
      (h : s.sendMsg v c.mtype (c.prty s ipc d) (c.deadline s d) c.any (c.nowait ipc) d q
        = some (s', .err r)) : SendCase v s ipc c s' r
  | sent {d : Proc} {q : MsgQ} {m : Sent} {s1 s' : KState}
      (hn : ¬ (c = .rqrcv ∧ ipc.timeout = noWait))
      (hd : s.destCheck ipc.pNr (some ipc.pid) = some (.ok (d, q)))
      (h : s.sendMsg v c.mtype (c.prty s ipc d) (c.deadline s d) c.any (c.nowait ipc) d q
        = some (s1, m)) (hm : ∀ r, m ≠ .err r)
      (hf : c.finish v ipc (c.prty s ipc d) d q s1 m = some s') : SendCase v s ipc c s' .ok

variable {e : Event} {x o : Option Proc} {s s' s'' s1 : KState}
variable {c p d rp src : Proc} {v : Env} {r : Code} {n dl : BitVec 32} {k : Mqe} {j : Option Proc}
  {nr caller : Int} {q : MsgQ} {any : Bool} {t : Timer} {prty : Nat} {ipc : Ipc} {m : Sem}

theorem Move.moves {a b : Option Proc × KState} (h : Move e a b) : Moves e a b :=
  Relation.ReflTransGen.single h

theorem Moves.refl (a : Option Proc × KState) : Moves e a a := Relation.ReflTransGen.refl

theorem Moves.trans {a b c : Option Proc × KState} (h : Moves e a b) (h' : Moves e b c) :
    Moves e a c := Relation.ReflTransGen.trans h h'

/-- Steps between states that are moves each. -/
theorem Moves.of_steps {R : KState → KState → Prop}
    (hR : ∀ {a b}, R a b → Moves e (x, a) (x, b)) (h : Relation.ReflTransGen R s s') :
    Moves e (x, s) (x, s') := by
  induction h with
  | refl => exact .refl _
  | tail _ hs ih => exact ih.trans (hR hs)

theorem calls_rtk {c : Call} : Calls (.rtk p v c) v := ⟨rfl, id⟩

theorem calls_task {r : Request} : Calls (.task v r) v := ⟨rfl, id⟩

/-! ## Bookkeeping -/

theorem Book.refl (s : KState) : Book s s :=
  ⟨rfl, rfl, rfl, rfl, rfl, rfl, rfl, rfl, rfl, rfl, fun _ => ⟨rfl, rfl⟩, fun _ => ⟨rfl, rfl, rfl⟩⟩

/-- A sender is stamped. -/
theorem Book.stamp (h : Book s s') (src : Proc) : Book s (s'.stamp src) :=
  { h with }

theorem Book.setRet (h : Book s s') (p : Proc) (c : Code) : Book s (s'.setRet p c) :=
  { h with }

/-- A received message is counted. -/
theorem Book.received (h : Book s s') (p : Proc) (n : Nat) :
    Book s { s' with msgrcvd := update s'.msgrcvd p n } :=
  { h with }

theorem Book.countDirect (h : Book s s') (d : Proc) (q : MsgQ) (b : Bool) :
    Book s (s'.countDirect d q b) := by
  refine { h with aux := fun i => ?_, queue := fun i => ?_ }
  · obtain ⟨hb, hn⟩ := h.aux i
    rw [← hb, ← hn]
    simp only [KState.countDirect, MsgSt.updQ]
    by_cases hi : i = q
    · subst hi
      rw [update_self]
      split <;> exact ⟨rfl, rfl⟩
    · rw [update_of_ne hi]
      exact ⟨rfl, rfl⟩
  · obtain ⟨h1, h2, h3⟩ := h.queue i
    rw [← h1, ← h2, ← h3]
    simp only [KState.countDirect, MsgSt.updQ]
    by_cases hi : i = q
    · subst hi
      rw [update_self]
      exact ⟨rfl, rfl, rfl⟩
    · rw [update_of_ne hi]
      exact ⟨rfl, rfl, rfl⟩

/-! ## Scheduling -/

/-- Only queues, priorities and scheduling data change, and the current process stays. -/
structure QueueOnly (s s' : KState) : Prop extends SchedOnly s s' where
  cur : s'.cur = s.cur

theorem QueueOnly.refl (s : KState) : QueueOnly s s := ⟨.refl s, rfl⟩

theorem QueueOnly.trans (h : QueueOnly s s') (h' : QueueOnly s' s'') : QueueOnly s s'' :=
  ⟨h.toSchedOnly.trans h'.toSchedOnly, h'.cur.trans h.cur⟩

/-- `MRT_rdyQ_app` links the process, or sets `P_STOP`. -/
theorem rdyQApp_only (h : s.rdyQApp p = some s') : QueueOnly s s' := by
  rw [rdyQApp] at h
  split at h
  · cases h
    exact ⟨⟨rfl, rfl, rfl, rfl, rfl⟩, rfl⟩
  · obtain ⟨P, -, rfl⟩ := map_eq_some_iff.mp h
    exact ⟨⟨rfl, rfl, rfl, rfl, rfl⟩, rfl⟩

theorem rdyQRmv_only (s : KState) (p : Proc) : QueueOnly s (s.rdyQRmv p) :=
  ⟨⟨rfl, rfl, rfl, rfl, rfl⟩, rfl⟩

/-- A process whose wait ends may be linked. -/
theorem readyIfClear_only (h : s.readyIfClear p = some s') : QueueOnly s s' := by
  rw [readyIfClear] at h
  split at h
  · exact rdyQApp_only h
  · cases h
    exact .refl s

theorem readyOnTimeout_only (h : s.readyOnTimeout p = some s') : QueueOnly s s' := by
  rw [readyOnTimeout] at h
  split at h
  · obtain ⟨s1, h1, rfl⟩ := map_eq_some_iff.mp h
    have hq := rdyQApp_only h1
    exact ⟨{ hq with }, hq.cur⟩
  · cases h
    exact .refl s

/-- A process takes another priority. -/
theorem moveTo_only (s : KState) (p : Proc) (k : Prty) : QueueOnly s (s.moveTo p k) := by
  rw [moveTo]
  split <;> exact ⟨⟨rfl, rfl, rfl, rfl, rfl⟩, rfl⟩

/-- Inheritance moves processes to other priorities, one after the other. -/
theorem inherit_steps {n : Nat} {k : Int} (h : KState.inherit n s k o = some s') :
    Relation.ReflTransGen (fun a b => ∃ p i, b = KState.moveTo a p i) s s' := by
  induction n generalizing s o with
  | zero => cases h
  | succ n ih =>
    unfold KState.inherit at h
    split at h
    · cases h
      exact .refl
    cases o with
    | none => cases h
    | some p =>
      simp only at h
      split at h
      · obtain ⟨i, -, h⟩ := bind_eq_some_iff.mp h
        have hm : ∃ q l, s.moveTo p i = s.moveTo q l := ⟨p, i, rfl⟩
        -- the process is ready, or the chain of owners goes on
        split at h
        · cases h
          exact .single hm
        split at h
        · exact .head hm (ih h)
        split at h
        · exact .head hm (ih h)
        split at h
        · split at h
          · cases h
          · split at h
            · cases h
              exact .single hm
            · exact .head hm (ih h)
        · cases h
          exact .single hm
      · cases h
        exact .refl

/-- `MRT_inherit` changes priorities and places. -/
theorem inherit_only {n : Nat} {k : Int} (h : KState.inherit n s k o = some s') :
    QueueOnly s s' := by
  have hsteps := inherit_steps h
  clear h
  induction hsteps with
  | refl => exact .refl s
  | tail _ hs ih =>
    obtain ⟨p, i, rfl⟩ := hs
    exact ih.trans (moveTo_only _ p i)

theorem inheritIf_only {c : Prop} [Decidable c] {n : Nat} {k : Int}
    (h : (if c then KState.inherit n s k o else some s) = some s') : QueueOnly s s' := by
  split at h
  · exact inherit_only h
  · cases h
    exact .refl _

/-- So does `MRT_disinherit`. -/
theorem disinherit_only (h : s.disinherit o j = some s') : QueueOnly s s' := by
  rw [KState.disinherit] at h
  split at h
  · cases h
    exact .refl s
  · simp only [bind_eq_bind, bind_eq_some_iff, some.injEq] at h
    obtain ⟨_, -, _, -, _, -, _, -, _, -, rfl⟩ := h
    split
    · exact moveTo_only s _ _
    · exact .refl s

/-! ## Timers of a process -/

/-- Programming a timer touches nothing but the timers. -/
theorem armIpc_inv {act : Act} {par : Int} (h : s.armIpc p n act par = some s') :
    ∃ t, s' = { s with tm := t } := by
  rw [armIpc] at h
  split at h
  · cases h
    exact ⟨_, rfl⟩
  · simp only [bind_eq_bind, bind_eq_some_iff, some.injEq] at h
    obtain ⟨_, -, t, -, rfl⟩ := h
    exact ⟨t, rfl⟩

/-! ## Sending -/

/-- What the checks of a destination have found out when they succeed. -/
theorem destCheck_ok {pid : Option Int} (h : s.destCheck nr pid = some (.ok (d, q))) :
    procAddr nr = some d ∧ (s.procs d).realtime = true ∧ (s.procs d).pmq = some q ∧
      s.ms.full q = false := by
  simp only [destCheck, bind_eq_bind, bind_eq_some_iff] at h
  obtain ⟨d', hd, h⟩ := h
  split at h
  · cases h
  split at h
  · cases h
  split at h
  · cases h
  · rename_i hrt
    obtain ⟨q', hq, h⟩ := bind_eq_some_iff.mp h
    split at h
    · cases h
    · rename_i hfull
      simp only [some.injEq, Except.ok.injEq, Prod.mk.injEq] at h
      obtain ⟨rfl, rfl⟩ := h
      exact ⟨hd, by simpa using hrt, hq, by simpa using hfull⟩

/-- The guards under which a message may be handed over. -/
theorem waiting_eq_true (h : s.waiting d any = true) :
    (s.procs d).st.mbxRcv = true ∧
      ((s.procs d).pfrom = some s.cur ∨ (s.procs d).pfrom = some d) := by
  simp only [waiting, Bool.and_eq_true, Bool.or_eq_true, decide_eq_true_eq] at h
  exact ⟨h.1, h.2.imp id (·.2)⟩

/-- `if (TEST_BIT(..., MQ_PRTYINHERIT)) MRT_inherit(...)`. -/
theorem inheritTo_moves {k : Int} (hd : (s.procs d).realtime = true)
    (h : s.inheritTo q k d = some s') : Moves e (x, s) (x, s') := by
  rw [inheritTo] at h
  split at h
  · exact (Move.inherit (.inl hd) h).moves
  · cases h
    exact .refl _

/-- Only the message system and the counts of messages change. -/
structure MsgsOnly (s s' : KState) : Prop where
  procs : s'.procs = s.procs
  rq : s'.rq = s.rq
  tm : s'.tm = s.tm
  ss : s'.ss = s.ss
  mx : s'.mx = s.mx
  cur : s'.cur = s.cur
  bpip : s'.bpip = s.bpip
  retreg : s'.retreg = s.retreg

/-- Taking an entry from the pool for a message. -/
theorem newEntry_inv {t : MType} (h : s.newEntry src d t prty dl = some (k, s')) :
    s.ms.pool.first () = some k ∧ MsgsOnly s s' ∧
      s'.ms.pool = s.ms.pool.rmv () k ∧ s'.ms.free = s.ms.free ∧ s'.ms.msgQ = s.ms.msgQ ∧
      s'.ms.hdr = update s.ms.hdr k (s.mkHdr src d t prty dl) := by
  rw [newEntry] at h
  cases hf : s.ms.pool.first () with
  | none => simp [MsgSt.mqeAlloc, hf] at h
  | some k' =>
    simp only [MsgSt.mqeAlloc, hf, some.injEq, Prod.mk.injEq] at h
    obtain ⟨rfl, rfl⟩ := h
    exact ⟨rfl, ⟨rfl, rfl, rfl, rfl, rfl, rfl, rfl, rfl⟩, rfl, rfl, rfl, rfl⟩

/-- `MRT_mqe_alloc` and the new header. -/
theorem newEntry_only {t : MType} (h : s.newEntry src d t prty dl = some (k, s')) :
    MsgsOnly s s' :=
  (newEntry_inv h).2.1

/-- `MRT_mqe_app`, where it does not refuse. -/
theorem enqueue_inv (h : s.enqueue q k = some s') :
    s.ms.mqeApp q k = some (s'.ms, true) ∧ MsgsOnly s s' := by
  rw [enqueue] at h
  split at h
  · rename_i m hm
    cases h
    exact ⟨hm, rfl, rfl, rfl, rfl, rfl, rfl, rfl, rfl⟩
  · cases h

/-- An allocated, filled and queued entry changes nothing else but the counters. -/
theorem enqueued {t : MType}
    (hn : s.newEntry src d t prty dl = some (k, s1)) (he : s1.enqueue q k = some s') :
    MsgsOnly s s' := by
  have h1 := newEntry_only hn
  have h2 := (enqueue_inv he).2
  exact ⟨h2.procs.trans h1.procs, h2.rq.trans h1.rq, h2.tm.trans h1.tm, h2.ss.trans h1.ss,
    h2.mx.trans h1.mx, h2.cur.trans h1.cur, h2.bpip.trans h1.bpip, h2.retreg.trans h1.retreg⟩

/-- The outcomes of the common part of the sends. -/
theorem sendMsg_cases {t : MType} {nowait : Bool} {r : Sent}
    (h : s.sendMsg v t prty dl any nowait d q = some (s', r)) :
    (∃ c, r = .err c ∧ (Book s s' ∨
        ¬ v.Copies ∧ ∃ k, s.newEntry s.cur d t prty dl = some (k, s'))) ∨
      (r = .direct ∧ s.waiting d any = true ∧ ∃ s1, Book s s1 ∧ s1.unblockReceiver d = some s') ∨
      (∃ k s1, r = .queued k ∧ s.waiting d any = false ∧
        s.newEntry s.cur d t prty dl = some (k, s1) ∧ s1.enqueue q k = some s') := by
  rw [sendMsg] at h
  split at h
  · rename_i hw
    split at h
    · obtain ⟨s1, h1, he⟩ := map_eq_some_iff.mp h
      cases he
      exact .inr (.inl ⟨rfl, hw, _, ((Book.refl s).stamp _).countDirect d q true, h1⟩)
    · cases h
      exact .inl ⟨_, rfl, .inl ((Book.refl s).stamp _)⟩
  split at h
  · cases h
    exact .inl ⟨_, rfl, .inl (.refl s)⟩
  rename_i hw _
  split at h
  · cases h
    exact .inl ⟨_, rfl, .inl (.refl s)⟩
  · rename_i k s1 h1
    split at h
    · obtain ⟨s2, h2, he⟩ := map_eq_some_iff.mp h
      cases he
      exact .inr (.inr ⟨k, s1, rfl, by simpa using hw, h1, h2⟩)
    · rename_i hv
      cases h
      exact .inl ⟨_, rfl, .inr ⟨fun hc => hv (hc _).1, k, h1⟩⟩

/-- A hand-over: the receiver is unblocked and made ready, and its timer stopped. -/
theorem unblockReceiver_inv (h : s.unblockReceiver d = some s') :
    ∃ s1 w t, (s.updProc d (fun r =>
        { r with pfrom := none, st := { r.st with mbxRcv := false } })).readyIfClear d = some s1 ∧
      (s.procs d).ipcvt = some w ∧ s.tm.vtimerStop w = some t ∧ s' = { s1 with tm := t } := by
  simp only [unblockReceiver, stopTimer, bind_eq_bind, bind_eq_some_iff, some.injEq] at h
  obtain ⟨s1, h1, w, hw, t, ht, rfl⟩ := h
  have hq := readyIfClear_only h1
  rw [hq.procs] at hw
  rw [hq.tm] at ht
  simp only [updProc, update_self] at hw ht
  exact ⟨s1, w, t, h1, hw, ht, rfl⟩

/-- The receiver waits no more. -/
theorem unblockReceiver_procs (h : s.unblockReceiver d = some s') :
    s'.cur = s.cur ∧ s'.procs = update s.procs d { s.procs d with
      pfrom := none, st := { (s.procs d).st with mbxRcv := false } } := by
  obtain ⟨s1, w, t, h1, -, -, rfl⟩ := unblockReceiver_inv h
  have hq := readyIfClear_only h1
  exact ⟨hq.cur, hq.procs⟩

/-- No process enters or leaves RT mode by a hand-over. -/
theorem unblockReceiver_rt (h : s.unblockReceiver d = some s') (p : Proc) :
    (s'.procs p).realtime = (s.procs p).realtime := by
  rw [(unblockReceiver_procs h).2]
  by_cases hp : p = d
  · subst hp
    rw [update_self]
  · rw [update_of_ne hp]

/-- A send that fails has changed statistics only, or has lost an entry. -/
private theorem failed_moves {t : MType} (hv : Calls e v) (hk : Ranked e prty)
    (h : Book s s' ∨ ¬ v.Copies ∧ ∃ k, s.newEntry s.cur d t prty dl = some (k, s')) :
    Moves e (x, s) (x, s') := by
  rcases h with hb | ⟨hc, k, hn⟩
  · exact (Move.book hb).moves
  · exact (Move.lose (fun he => hc (hv.copies he)) hn hk).moves

/-- A message that is handed over: statistics, then the hand-over itself. -/
private theorem direct_moves (he : e.isCall = true)
    (hd : (s.procs d).realtime = true) (hw : s.waiting d any = true) (hb : Book s s1)
    (h : s1.unblockReceiver d = some s') : Moves e (x, s) (x, s') := by
  obtain ⟨hr, hf⟩ := waiting_eq_true hw
  rw [← hb.procs, ← hb.cur] at hf
  rw [← hb.procs] at hd hr
  exact (Move.book hb).moves.trans (Move.deliver he hd hr hf h).moves

/-- `MRT_disinherit` of the current process, at the end of a reply. -/
theorem disinheritCur_moves (hr : (s.procs s.cur).realtime = true)
    (h : s.disinheritCur v = some s') : Moves e (x, s) (x, s') := by
  simp only [disinheritCur, bind_eq_bind, bind_eq_some_iff] at h
  obtain ⟨q, -, h⟩ := h
  split at h
  · exact (Move.disinherit (.inl ⟨rfl, hr⟩) h).moves
  · cases h
    exact .refl _

/-- The receive section of `rtk_rqrcv`, up to the timer that it arms. -/
theorem blockReply_only (h : s.blockReply ipc d = some s') :
    ∃ t, s' = (({ s with tm := t } : KState).updProc s.cur (fun r =>
      { r with pfrom := some d, st := { r.st with mbxRcv := true } })).rdyQRmv s.cur := by
  simp only [blockReply, bind_eq_bind, bind_eq_some_iff, some.injEq] at h
  obtain ⟨s1, h1, rfl⟩ := h
  obtain ⟨t, rfl⟩ := armIpc_inv h1
  exact ⟨t, rfl⟩

/-- The caller waits for the reply of `d`. -/
theorem blockReply_procs (h : s.blockReply ipc d = some s') :
    s'.cur = s.cur ∧ s'.procs = update s.procs s.cur { s.procs s.cur with
      pfrom := some d, st := { (s.procs s.cur).st with mbxRcv := true } } := by
  obtain ⟨t, rfl⟩ := blockReply_only h
  exact ⟨rfl, rfl⟩

/-- The same for `rtk_receive`. -/
theorem blockReceive_only (h : s.blockReceive ipc q = some s') :
    ∃ t o, (o = if ipc.pNr = anyProc then some s.cur else procAddr ipc.pNr) ∧
      s' = (({ s with tm := t } : KState).updProc s.cur (fun r =>
        { r with pfrom := o, st := { r.st with mbxRcv := true } })).rdyQRmv s.cur := by
  simp only [blockReceive, bind_eq_bind, bind_eq_some_iff, some.injEq] at h
  obtain ⟨s1, h1, rfl⟩ := h
  obtain ⟨t, rfl⟩ := armIpc_inv h1
  exact ⟨t, _, rfl, rfl⟩

/-- The timer of a send/receive remembers the entry. -/
theorem setIpcParam_inv {par : Int} (h : s.setIpcParam p par = some s') :
    ∃ w, (s.procs p).ipcvt = some w ∧
      s' = { s with tm := s.tm.upd w (fun t => { t with param := par }) } := by
  obtain ⟨w, hw, rfl⟩ := map_eq_some_iff.mp h
  exact ⟨w, hw, rfl⟩

/-- A process that gets another status stays an RT process. -/
theorem blockReply_rt (h : s.blockReply ipc d = some s') (p : Proc) :
    (s'.procs p).realtime = (s.procs p).realtime := by
  rw [(blockReply_procs h).2]
  by_cases hp : p = s.cur
  · subst hp
    rw [update_self]
  · rw [update_of_ne hp]

/-! ## What a send does -/

/-- The six sends have one shape. -/
theorem SendCall.exec_eq (c : SendCall) (v : Env) (s : KState) (ipc : Ipc)
    (hn : ¬ (c = .rqrcv ∧ ipc.timeout = noWait)) :
    c.exec v s ipc = (s.destCheck ipc.pNr (some ipc.pid)).bind (fun o => match o with
      | .error r => if c = .reply then (s.disinheritCur v).map (·, r) else some (s, r)
      | .ok (d, q) => (s.sendMsg v c.mtype (c.prty s ipc d) (c.deadline s d) c.any (c.nowait ipc)
          d q).bind (fun m => match m with
        | (s1, .err r) => some (s1, r)
        | (s1, m) => (c.finish v ipc (c.prty s ipc d) d q s1 m).map (·, .ok))) := by
  cases c
  on_goal 6 => rw [exec, rtkRqrcv, if_neg (fun ht => hn ⟨rfl, ht⟩)]
  all_goals
    refine congrArg (Option.bind _) (funext fun o => ?_)
    rcases o with r | ⟨d, q⟩
    · rfl
    · refine congrArg (Option.bind _) (funext fun m => ?_)
      obtain ⟨s1, m⟩ := m
      cases m <;> simp [finish, Option.map_bind, prty]

/-- **EVERY SEND CALL IS ONE OF THE CASES.** -/
theorem SendCall.exec_inv {c : SendCall} (h : c.exec v s ipc = some (s', r)) :
    SendCase v s ipc c s' r := by
  by_cases hn : c = .rqrcv ∧ ipc.timeout = noWait
  · obtain ⟨rfl, ht⟩ := hn
    rw [exec, rtkRqrcv, if_pos ht] at h
    cases h
    exact .noWait rfl ht
  rw [exec_eq c v s ipc hn] at h
  obtain ⟨o, hd, h⟩ := bind_eq_some_iff.mp h
  cases o with
  | error e =>
    dsimp only at h
    split at h
    · rename_i hc
      obtain ⟨s1, h1, he⟩ := map_eq_some_iff.mp h
      cases he
      exact .refusedReply hd hc h1
    · rename_i hc
      cases h
      exact .refused hd hc
  | ok dq =>
    obtain ⟨⟨s1, m⟩, hm, h⟩ := bind_eq_some_iff.mp h
    cases m with
    | err e =>
      cases h
      exact .failed hn hd hm
    | direct | queued k =>
      obtain ⟨s2, h2, he⟩ := map_eq_some_iff.mp h
      cases he
      exact .sent hn hd hm nofun h2

/-- The tail of a send whose message has been handed over. -/
private theorem direct_finish {c : SendCall} {k : Nat} (hr : Running s)
    (he : e = .rtk p v (c.call ipc))
    (hd : procAddr ipc.pNr = some d) (hrt : (s.procs d).realtime = true) (hne : s.cur ≠ d)
    (h : c.finish v ipc k d q s .direct = some s') : Moves e (none, s) (none, s') := by
  cases c with
  | sign =>
    cases h
    exact .refl _
  | reply => exact disinheritCur_moves hr.rt h
  | rqst | arqst | uprqst => exact inheritTo_moves hrt h
  | rqrcv =>
    obtain ⟨s1, h1, h⟩ := bind_eq_some_iff.mp h
    obtain ⟨s2, h2, h⟩ := bind_eq_some_iff.mp h
    have hd2 : (s2.procs d).realtime = true := by
      obtain ⟨w, -, rfl⟩ := setIpcParam_inv h1
      rw [blockReply_rt h2]
      exact hrt
    exact (Move.recvReply hr he hd hne h1 h2).moves.trans (inheritTo_moves hd2 h)

/-- **THE SIX SENDS.** -/
theorem send_moves {c : SendCall} (hr : Running s) (he : e = .rtk p v (c.call ipc))
    (h : c.exec v s ipc = some (s', r)) : Moves e (none, s) (none, s') := by
  have hk : ∀ d, Ranked e (c.prty s ipc d) := by
    intro d
    cases c with
    | uprqst => exact .inr ⟨p, v, ipc, he, rfl⟩
    | _ => exact .of_prty e _
  cases SendCall.exec_inv h with
  | noWait _ _ | refused _ _ => exact .refl _
  | refusedReply _ _ h1 => exact disinheritCur_moves hr.rt h1
  | failed _ _ h1 =>
    rcases sendMsg_cases h1 with ⟨_, -, hb⟩ | ⟨hf, -⟩ | ⟨_, _, hf, -⟩
    · exact failed_moves (he ▸ calls_rtk) (hk _) hb
    · cases hf
    · cases hf
  | @sent d q m s1 _ _ hc h1 hm hf =>
    obtain ⟨hd, hrt, hq, -⟩ := destCheck_ok hc
    rcases sendMsg_cases h1 with ⟨_, rfl, -⟩ | ⟨rfl, hw, s0, hb, hu⟩ | ⟨k, s0, rfl, hw, hn, hq'⟩
    · exact absurd rfl (hm _)
    · -- the receiver is blocked, so it is not the process that sends
      have hne : s.cur ≠ d := by
        intro hcd
        have hrc := (waiting_eq_true hw).1
        rw [← hcd, hr.clear] at hrc
        cases hrc
      obtain ⟨hcur, hprocs⟩ := unblockReceiver_procs hu
      rw [hb.cur] at hcur
      rw [hb.procs] at hprocs
      have hr1 : Running s1 := by
        constructor
        · rw [hcur, hprocs, update_of_ne hne]
          exact hr.rt
        · rw [hcur, hprocs, update_of_ne hne]
          exact hr.clear
      have hrt1 : (s1.procs d).realtime = true := by
        rw [unblockReceiver_rt hu, hb.procs]
        exact hrt
      exact (direct_moves (he ▸ rfl) hrt hw hb hu).trans
        (direct_finish hr1 he hd hrt1 (by rw [hcur]; exact hne) hf)
    · have hp := (enqueued hn hq').procs
      have hrt1 : (s1.procs d).realtime = true := by
        rw [hp]
        exact hrt
      have hsnd : ∀ {r : RtProc}, r.realtime = (s1.procs s1.cur).realtime →
          (update s1.procs s1.cur r d).realtime = true := by
        intro r hr
        by_cases hdc : d = s1.cur
        · rw [hdc, update_self, hr, ← hdc]
          exact hrt1
        · rw [update_of_ne hdc]
          exact hrt1
      cases c with
      | rqst =>
        obtain ⟨s2, h2, hf⟩ := bind_eq_some_iff.mp hf
        have hm := Move.send hr he hrt hq hw hn hq' h2 (hk d)
        obtain ⟨t, rfl⟩ := armIpc_inv h2
        refine hm.moves.trans (inheritTo_moves ?_ hf)
        exact hsnd rfl
      | rqrcv =>
        obtain ⟨s2, h2, hf⟩ := bind_eq_some_iff.mp hf
        obtain ⟨s3, h3, h4⟩ := bind_eq_some_iff.mp hf
        have hm := Move.sendRecv hr he hd hrt hq hw hn hq' h2 h3 (hk d)
        obtain ⟨w, -, rfl⟩ := setIpcParam_inv h2
        refine hm.moves.trans (inheritTo_moves ?_ h4)
        rw [blockReply_rt h3]
        exact hsnd rfl
      | reply =>
        have hm : Move e (none, s) (none, s1) := .queue hrt hq (by decide) (by decide) hw
          (.inr ⟨p, v, ipc, he, hd⟩) (.inl rfl) hn hq' (hk d)
        refine hm.moves.trans (disinheritCur_moves ?_ hf)
        rw [(enqueued hn hq').cur, hp]
        exact hr.rt
      | sign | arqst | uprqst =>
        have hm : Move e (none, s) (none, s1) := .queue hrt hq (by decide) (by decide) hw
          (.inl rfl) (.inl rfl) hn hq' (hk d)
        first
        | exact hm.moves.trans (inheritTo_moves hrt1 hf)
        | cases hf
          exact hm.moves

/-- `E_MRT_MQFULL` is returned for a full queue only. -/
theorem mqeApp_false {m m' : MsgSt} (h : m.mqeApp q k = some (m', false)) : m.full q = true := by
  rw [MsgSt.mqeApp] at h
  split at h
  · assumption
  · simp only [bind_eq_bind, bind_eq_some_iff, some.injEq, Prod.mk.injEq] at h
    obtain ⟨_, -, _, -, -, hb⟩ := h
    cases hb

/-- What `MRT_ksend` can do.  The queue was found not full before the entry is taken, so
    `E_MRT_MQFULL` comes from the check only. -/
inductive KSend (v : Env) (s : KState) (src dest : Int) (prty : Nat) (t : MType) :
    KState → Code → Prop
  | refused {c : Code} (hc : s.destCheck dest none = some (.error c)) :
      KSend v s src dest prty t s c
  | direct {sp d : Proc} {q : MsgQ} {s1 s' : KState} (hsp : procAddr src = some sp)
      (hc : s.destCheck dest none = some (.ok (d, q))) (hw : s.waiting d true = true)
      (hv : v.hdr d = true) (h1 : ((s.stamp sp).countDirect d q false).unblockReceiver d = some s1)
      (h2 : s1.inheritTo q prty d = some s') : KSend v s src dest prty t s' .ok
  | badHeader {sp d : Proc} {q : MsgQ} (hsp : procAddr src = some sp)
      (hc : s.destCheck dest none = some (.ok (d, q))) (hw : s.waiting d true = true)
      (hv : v.hdr d = false) : KSend v s src dest prty t (s.stamp sp) .inval
  | noEntry {sp d : Proc} {q : MsgQ} (hsp : procAddr src = some sp)
      (hc : s.destCheck dest none = some (.ok (d, q))) (hw : s.waiting d true = false)
      (hn : s.newEntry sp d t prty 0 = none) : KSend v s src dest prty t s .noMqEnt
  | lost {sp d : Proc} {q : MsgQ} {k : Mqe} {s1 : KState} (hsp : procAddr src = some sp)
      (hc : s.destCheck dest none = some (.ok (d, q))) (hw : s.waiting d true = false)
      (hn : s.newEntry sp d t prty 0 = some (k, s1)) (hv : v.hdr d = false) :
      KSend v s src dest prty t s1 .inval
  | queued {sp d : Proc} {q : MsgQ} {k : Mqe} {s1 s2 s' : KState} (hsp : procAddr src = some sp)
      (hc : s.destCheck dest none = some (.ok (d, q))) (hw : s.waiting d true = false)
      (hn : s.newEntry sp d t prty 0 = some (k, s1)) (hv : v.hdr d = true)
      (hq : s1.enqueue q k = some s2) (h2 : s2.inheritTo q prty d = some s') :
      KSend v s src dest prty t s' .ok

/-- **`MRT_ksend` IS ONE OF THE CASES.** -/
theorem ksend_inv {src dest : Int} {t : MType} (h : s.ksend v src dest prty t = some (s', r)) :
    KSend v s src dest prty t s' r := by
  simp only [KState.ksend, bind_eq_bind, bind_eq_some_iff] at h
  obtain ⟨sp, hsp, c, hc, h⟩ := h
  cases c with
  | error c =>
    cases h
    exact .refused hc
  | ok dq =>
    obtain ⟨d, q⟩ := dq
    obtain ⟨-, -, -, hfull⟩ := destCheck_ok hc
    simp only at h
    split at h
    · rename_i hw
      split at h
      · rename_i hv
        obtain ⟨s1, h1, h⟩ := bind_eq_some_iff.mp h
        obtain ⟨s2, h2, he⟩ := map_eq_some_iff.mp h
        cases he
        exact .direct hsp hc hw hv h1 h2
      · rename_i hv
        cases h
        exact .badHeader hsp hc hw (by simpa using hv)
    · rename_i hw
      have hw : s.waiting d true = false := by simpa using hw
      split at h
      · rename_i hn
        cases h
        exact .noEntry hsp hc hw hn
      · rename_i k s1 hn
        split at h
        · rename_i hv
          split at h
          · cases h
          · rename_i m hm
            have hfull1 : s1.ms.full q = false := by
              obtain ⟨-, -, hpool, -, hmq, -⟩ := newEntry_inv hn
              rw [MsgSt.full, hpool, hmq]
              exact hfull
            exact absurd (mqeApp_false hm) (by simp [hfull1])
          · rename_i m hm
            obtain ⟨s2, h2, he⟩ := map_eq_some_iff.mp h
            cases he
            exact .queued hsp hc hw hn hv (by rw [enqueue, hm]) h2
        · rename_i hv
          cases h
          exact .lost hsp hc hw hn (by simpa using hv)

/-- `MRT_ksend`, wherever it is called from. -/
theorem ksend_moves {src dest : Int} {t : MType} (hv : Calls e v) (ht : ¬ t.Sync)
    (hf : t ≠ .mbfree) (hk : prty < 16) (hsrc : ∀ sp, procAddr src = some sp → Source e x s sp)
    (h : s.ksend v src dest prty t = some (s', r)) : Moves e (x, s) (x, s') := by
  cases ksend_inv h with
  | refused hc | noEntry hsp hc hw hn => exact .refl _
  | @direct sp d q s1 s' hsp hc hw hh h1 h2 =>
    obtain ⟨-, hrt, -, -⟩ := destCheck_ok hc
    have hb := ((Book.refl s).stamp sp).countDirect d q false
    have hd1 : (s1.procs d).realtime = true := by
      rw [unblockReceiver_rt h1, hb.procs]
      exact hrt
    exact (direct_moves hv.call hrt hw hb h1).trans (inheritTo_moves hd1 h2)
  | @badHeader sp d q hsp hc hw hh => exact (Move.book ((Book.refl s).stamp sp)).moves
  | @lost sp d q k s1 hsp hc hw hn hh =>
    have hne : ¬ v.hdr d = true := by simp [hh]
    exact (Move.lose (fun he => hne (hv.copies he d).2) hn (.inl hk)).moves
  | @queued sp d q k s1 s2 s' hsp hc hw hn hh henq h2 =>
    obtain ⟨-, hrt, hq, -⟩ := destCheck_ok hc
    have hq1 : Move e (x, s) (x, s2) :=
      Move.queue hrt hq ht hf hw (.inl rfl) (hsrc sp hsp) hn henq (.inl hk)
    have hd1 : (s2.procs d).realtime = true := by
      rw [(enqueued hn henq).procs]
      exact hrt
    exact hq1.moves.trans (inheritTo_moves hd1 h2)

/-- `rtk_receive` is one move, or none, up to the statistics. -/
theorem rtkReceive_one (hr : Running s) (he : e = .rtk p v (.receive ipc))
    (h : s.rtkReceive v ipc = some (s', r)) :
    ∃ s1, (s1 = s ∨ Move e (none, s) (none, s1)) ∧ Book s1 s' := by
  simp only [rtkReceive, bind_eq_bind, bind_eq_some_iff] at h
  obtain ⟨c, -, h⟩ := h
  split at h
  · obtain ⟨q, hq, h⟩ := bind_eq_some_iff.mp h
    obtain ⟨o, ho, h⟩ := bind_eq_some_iff.mp h
    cases o with
    | none =>
      simp only at h
      split at h
      · cases h
        exact ⟨s, .inl rfl, .refl s⟩
      · obtain ⟨s1, h1, he'⟩ := map_eq_some_iff.mp h
        cases he'
        exact ⟨_, .inr (Move.recv hr he hq ho h1), .refl _⟩
    | some k =>
      simp only at h
      split at h
      · obtain ⟨src, hsrc, h⟩ := bind_eq_some_iff.mp h
        obtain ⟨s1, h1, h⟩ := bind_eq_some_iff.mp h
        obtain ⟨s2, h2, h⟩ := bind_eq_some_iff.mp h
        cases h
        exact ⟨s2, .inr (Move.take hr he hq ho hsrc h1 h2), (Book.refl s2).received _ _⟩
      · cases h
        exact ⟨s, .inl rfl, .refl s⟩
  · cases h
    exact ⟨s, .inl rfl, .refl s⟩

/-- `rtk_receive` takes a message or waits. -/
theorem rtkReceive_moves (hr : Running s) (he : e = .rtk p v (.receive ipc))
    (h : s.rtkReceive v ipc = some (s', r)) :
    Moves e (none, s) (none, s') := by
  obtain ⟨s1, rfl | hm, hb⟩ := rtkReceive_one hr he h
  · exact (Move.book hb).moves
  · exact hm.moves.trans (Move.book hb).moves

/-! ## Leaving RT mode -/

/-- The message system, the message queue of each process and the mode of each process
    are what they were. -/
structure KeepsMsgs (s s' : KState) : Prop where
  ms : s'.ms = s.ms
  pmq : ∀ p, (s'.procs p).pmq = (s.procs p).pmq
  rt : ∀ p, (s'.procs p).realtime = (s.procs p).realtime

theorem KeepsMsgs.refl (s : KState) : KeepsMsgs s s := ⟨rfl, fun _ => rfl, fun _ => rfl⟩

theorem KeepsMsgs.trans (h : KeepsMsgs s s') (h' : KeepsMsgs s' s'') : KeepsMsgs s s'' :=
  ⟨h'.ms.trans h.ms, fun p => (h'.pmq p).trans (h.pmq p), fun p => (h'.rt p).trans (h.rt p)⟩

theorem KeepsMsgs.of_procs (hm : s'.ms = s.ms) (hp : s'.procs = s.procs) : KeepsMsgs s s' :=
  ⟨hm, fun p => by rw [hp], fun p => by rw [hp]⟩

/-- One process changes, neither its queue nor its mode. -/
theorem KeepsMsgs.of_update {r : RtProc} (hm : s'.ms = s.ms)
    (hp : s'.procs = update s.procs p r) (hq : r.pmq = (s.procs p).pmq)
    (hr : r.realtime = (s.procs p).realtime) : KeepsMsgs s s' := by
  refine ⟨hm, fun i => ?_, fun i => ?_⟩
  all_goals
    rw [hp]
    by_cases hi : i = p
    · subst hi
      rw [update_self]
      assumption
    · rw [update_of_ne hi]

theorem dropTimer_only {v : Option VT} (h : s.dropTimer v = some s') :
    ∃ t, s' = { s with tm := t } := by
  cases v with
  | none =>
    cases h
    exact ⟨_, rfl⟩
  | some v =>
    simp only [dropTimer, bind_eq_bind, bind_eq_some_iff, some.injEq] at h
    obtain ⟨_, -, t, -, rfl⟩ := h
    exact ⟨t, rfl⟩

/-- The first part of `MRT_set2nrt`, written out. -/
theorem leave_inv (h : (if s.rtReady p then s.rdyQRmv p else s).dropTimers p = some s') :
    ∃ t, s' = ({ (if s.rtReady p then s.rdyQRmv p else s) with tm := t } :
      KState).updProc p (fun r => { r with pvt := none, ipcvt := none }) := by
  simp only [dropTimers, bind_eq_bind, bind_eq_some_iff, some.injEq] at h
  obtain ⟨s1, h1, s2, h2, rfl⟩ := h
  obtain ⟨t1, rfl⟩ := dropTimer_only h1
  obtain ⟨t2, rfl⟩ := dropTimer_only h2
  exact ⟨t2, rfl⟩

/-- The first part of `MRT_set2nrt` changes the ready queue, the timers and one process. -/
theorem leave_only (h : (if s.rtReady p then s.rdyQRmv p else s).dropTimers p = some s') :
    s'.procs = update s.procs p { s.procs p with pvt := none, ipcvt := none } ∧
      s'.ms = s.ms ∧ s'.ss = s.ss ∧ s'.cur = s.cur ∧ s'.bpip = s.bpip := by
  obtain ⟨t, rfl⟩ := leave_inv h
  split <;> exact ⟨rfl, rfl, rfl, rfl, rfl⟩

/-- `MRT_sproc_rmv` unlinks a waiter at its level. -/
theorem sprocRmv_inv (h : s.sprocRmv m p = some s') :
    s' = s.setPool (s.rq.pool.prmv (some m) p (s.semLevel m p)) := by
  rw [sprocRmv] at h
  split at h
  · cases h
  · cases h
    rfl

/-- `MRT_vtimer_stop` of a timer that must exist. -/
theorem stopTimer_inv {v : Option VT} (h : s.stopTimer v = some s') :
    ∃ w t, v = some w ∧ s.tm.vtimerStop w = some t ∧ s' = { s with tm := t } := by
  simp only [stopTimer, bind_eq_bind, bind_eq_some_iff, some.injEq] at h
  obtain ⟨w, hw, t, ht, rfl⟩ := h
  exact ⟨w, t, hw, ht, rfl⟩

/-- `MRT_semup` with a process waiting: it leaves the wait list, its timer is stopped, a
    mutex is handed over to it, and it becomes ready. -/
theorem semupWake_inv (h : s.semupWake m j = some s') :
    ∃ rp w t s1 s2, s.sprocPick m = some rp ∧ s.sprocRmv m rp = some s1 ∧
      (s.procs rp).ipcvt = some w ∧ s.tm.vtimerStop w = some t ∧
      (let s0 := ({ s1 with tm := t } : KState).updProc rp (fun r => { r with psem := none })
       (if (s.ss.sem m).mutex then s0.handMutex m rp j else some s0) = some s2) ∧
      (s2.setSt rp (fun t => { t with semDown := false })).readyIfClear rp = some s' := by
  simp only [semupWake, bind_eq_bind, bind_eq_some_iff] at h
  obtain ⟨rp, hrp, s1, h1, s2, h2, s3, h3, h4⟩ := h
  obtain ⟨w, t, hw, ht, rfl⟩ := stopTimer_inv h2
  have hs1 := sprocRmv_inv h1
  subst hs1
  exact ⟨rp, w, t, _, s3, hrp, h1, hw, ht, h3, h4⟩

/-- The mutex goes from the lock list of the caller to that of `rp`. -/
theorem handMutex_inv (h : s.handMutex m rp j = some s') :
    ∃ P s1, (s.ss.lock.rmv s.cur m).app rp m = some P ∧
      s1 = { s.unlockCur m (some rp) with
        ss := { (s.unlockCur m (some rp)).ss with lock := P } } ∧
      (if (s.ss.sem m).inherit then s1.disinherit (some s1.cur) j else some s1) = some s' := by
  simp only [handMutex, lockBy, bind_eq_bind, bind_eq_some_iff, map_eq_some_iff] at h
  obtain ⟨s1, ⟨P, hP, rfl⟩, h⟩ := h
  refine ⟨P, _, hP, rfl, ?_⟩
  simpa [unlockCur, updSem] using h

/-- What `MRT_semup` does to processes, timers and messages: nothing, or it ends the wait
    of the process it picks and stops its timer. -/
theorem semup_core (h : s.semup m j = some (s', r)) :
    s'.procs = s.procs ∧ s'.tm = s.tm ∧ s'.ms = s.ms ∨
      ∃ rp w, s.sprocPick m = some rp ∧ (s.procs rp).ipcvt = some w ∧
        s.tm.vtimerStop w = some s'.tm ∧ s'.ms = s.ms ∧
        s'.procs = update s.procs rp { s.procs rp with
          psem := none, st := { (s.procs rp).st with semDown := false } } := by
  rw [KState.semup] at h
  split at h
  · cases h
    exact .inl ⟨rfl, rfl, rfl⟩
  simp only [bind_eq_bind, bind_eq_some_iff, some.injEq, Prod.mk.injEq] at h
  obtain ⟨s1, h1, rfl, -⟩ := h
  split at h1
  · obtain ⟨rp, w, t, s2, s3, hrp, hr, hw, ht, hm, hc⟩ := semupWake_inv h1
    obtain rfl := sprocRmv_inv hr
    have h3 : SchedOnly (({ s.setPool (s.rq.pool.prmv (some m) rp (s.semLevel m rp)) with
        tm := t, ss := s3.ss } : KState).updProc rp (fun r => { r with psem := none })) s3 := by
      simp only at hm
      split at hm
      · obtain ⟨P, s4, -, rfl, hm⟩ := handMutex_inv hm
        split at hm
        · have hd := disinherit_only hm
          exact ⟨hd.procs, hd.tm, hd.ms, rfl, hd.bpip⟩
        · cases hm
          exact ⟨rfl, rfl, rfl, rfl, rfl⟩
      · cases hm
        exact ⟨rfl, rfl, rfl, rfl, rfl⟩
    have hq := readyIfClear_only hc
    refine .inr ⟨rp, w, hrp, hw, ?_, ?_, ?_⟩
    · rw [ht]
      exact congrArg some (h3.tm.symm.trans hq.tm.symm)
    · exact hq.ms.trans h3.ms
    · show s1.procs = _
      rw [hq.procs]
      simp only [setSt, updProc, h3.procs]
      simp [setPool]
  split at h1
  all_goals
    cases h1
    exact .inl ⟨rfl, rfl, rfl⟩

/-- `MRT_semup` has nothing to do with messages. -/
theorem semup_keeps (h : s.semup m j = some (s', r)) : KeepsMsgs s s' := by
  rcases semup_core h with ⟨hp, -, hms⟩ | ⟨rp, w, -, -, -, hms, hp⟩
  · exact .of_procs hms hp
  · exact .of_update hms hp rfl rfl

/-- The same for `MRT_semdown`: nothing, or the current process arms its timer and waits. -/
theorem semdown_core (h : s.semdown m n = some (s', r)) :
    s'.procs = s.procs ∧ s'.tm = s.tm ∧ s'.ms = s.ms ∨
      ∃ s1, s.armIpc s.cur n .down (m.val : Int) = some s1 ∧ s'.tm = s1.tm ∧ s'.ms = s.ms ∧
        s'.procs = update s.procs s.cur { s.procs s.cur with
          psem := some m, st := { (s.procs s.cur).st with semDown := true } } := by
  rw [KState.semdown] at h
  split at h
  · cases h
    exact .inl ⟨rfl, rfl, rfl⟩
  split at h
  · split at h
    · cases h
      exact .inl ⟨rfl, rfl, rfl⟩
    · obtain ⟨s2, h2, he⟩ := map_eq_some_iff.mp h
      cases he
      simp only [semdownWait, sprocApp, bind_eq_bind, bind_eq_some_iff, map_eq_some_iff] at h2
      obtain ⟨s1, h1, s3, ⟨P, -, rfl⟩, h3⟩ := h2
      obtain ⟨t, rfl⟩ := armIpc_inv h1
      have hq := inheritIf_only h3
      exact .inr ⟨_, h1, hq.tm, hq.ms, hq.procs⟩
  split at h
  · obtain ⟨s2, h2, he⟩ := map_eq_some_iff.mp h
    cases he
    obtain ⟨P, -, rfl⟩ := map_eq_some_iff.mp h2
    exact .inl ⟨rfl, rfl, rfl⟩
  · cases h
    exact .inl ⟨rfl, rfl, rfl⟩

/-- A timed sleep programs the timer after it has broken its back pointer. -/
def napTimer (t : TimerSt) (w : VT) (n : BitVec 32) (k : Prty) : Option TimerSt :=
  let t := t.upd w (fun r => { r with nextexp := 0, flags := .alloc, this := none })
  ({ t with q := t.q.rstLink w } : TimerSt).vtset w n 1 .wakeup 0 k

/-- `MRT_sleep` takes the process out of the ready queue, and arms its timer if the sleep is
    timed. -/
theorem sleep_inv (h : s.sleep p n = some (s', r)) :
    s' = s ∨ ∃ t, s' = (({ s with tm := t } : KState).setSt p
        (fun t => { t with sleep := true })).rdyQRmv p ∧
      (t = s.tm ∨ ∃ w, (s.procs p).ipcvt = some w ∧
        napTimer s.tm w n (s.rq.prio p) = some t) := by
  unfold KState.sleep at h
  split at h
  · cases h
    exact .inl rfl
  split at h
  · cases h
    exact .inl rfl
  simp only [bind_eq_bind, bind_eq_some_iff, some.injEq, Prod.mk.injEq] at h
  obtain ⟨s1, h1, rfl, -⟩ := h
  by_cases hn : n = forever
  · rw [if_pos hn] at h1
    cases h1
    exact .inr ⟨s.tm, rfl, .inl rfl⟩
  · rw [if_neg hn] at h1
    simp only [bind_eq_some_iff, some.injEq] at h1
    obtain ⟨w, hw, t, ht, rfl⟩ := h1
    exact .inr ⟨t, rfl, .inr ⟨w, hw, ht⟩⟩

/-- The loop over the lock list, as moves. -/
theorem unlock_moves (he : e.isCall = true) (h : Relation.ReflTransGen (UnlockStep rp) s s') :
    Moves e (some rp, s) (some rp, s') ∧ KeepsMsgs s s' := by
  induction h with
  | refl => exact ⟨.refl _, KeepsMsgs.refl s⟩
  | tail _ hs ih =>
    obtain ⟨m, j, r, hf, hs⟩ := hs
    exact ⟨ih.1.trans (Move.unlock he hf hs).moves, ih.2.trans (semup_keeps hs)⟩

/-- `MRT_vtimer_stop` of a timer that may be missing. -/
theorem stopTimerIf_inv {v : Option VT} (h : s.stopTimerIf v = some s') :
    (v = none ∧ s' = s) ∨
      ∃ w t, v = some w ∧ s.tm.vtimerStop w = some t ∧ s' = { s with tm := t } := by
  cases v with
  | none =>
    cases h
    exact .inl ⟨rfl, rfl⟩
  | some w => exact .inr (stopTimer_inv h)

theorem stopTimerIf_only {v : Option VT} (h : s.stopTimerIf v = some s') :
    ∃ t, s' = { s with tm := t } := by
  rcases stopTimerIf_inv h with ⟨-, rfl⟩ | ⟨w, t, -, -, rfl⟩
  · exact ⟨_, rfl⟩
  · exact ⟨t, rfl⟩

/-- A process that is released waits no longer; nothing else changes but links and timers. -/
theorem release_only {s2 : KState} (h1 : s.sprocRmv m p = some s1)
    (h2 : s1.stopTimerIf (s1.procs p).ipcvt = some s2)
    (h3 : (s2.clrDown p).readyIfClear p = some s') :
    s'.procs = update s.procs p { s.procs p with
        psem := none, st := { (s.procs p).st with semDown := false } } ∧
      s'.ms = s.ms ∧ s'.ss = s.ss ∧ s'.cur = s.cur := by
  obtain rfl := sprocRmv_inv h1
  obtain ⟨t, rfl⟩ := stopTimerIf_only h2
  have hq := readyIfClear_only h3
  exact ⟨hq.procs, hq.ms, hq.ss, hq.cur⟩

/-- The loops that release the processes waiting for the semaphores of `rp`. -/
theorem release_moves (he : e.isCall = true)
    (h : (if s.ss.alloc.count (some rp) ≠ 0 then s.semEmpty rp else some s) = some s') :
    Moves e (some rp, s) (some rp, s') ∧ KeepsMsgs s s' ∧ s'.ss = s.ss := by
  rcases emptying_steps h with rfl | ⟨ms, hms, hsteps⟩
  · exact ⟨.refl _, KeepsMsgs.refl _, rfl⟩
  clear h
  induction hsteps with
  | refl => exact ⟨.refl _, KeepsMsgs.refl _, rfl⟩
  | tail _ hs ih =>
    obtain ⟨hmv, hk, hss⟩ := ih
    obtain ⟨m, hm, hs⟩ := hs
    cases hs with
    | @wake _ _ s3 p hp h1 h2 h3 =>
      obtain ⟨hpr, hms1, hss1, -⟩ := release_only h1 h2 h3
      refine ⟨hmv.trans ?_, hk.trans (.of_update hms1 hpr rfl rfl), hss1.trans hss⟩
      have hb : Book s3 (s3.setRet p .exiting) := (Book.refl s3).setRet p .exiting
      exact (Move.release he (hss ▸ hms) hm hp h1 h2 h3).moves.trans (Move.book hb).moves

/-- The entry `k` goes back to the pool: its header is reset, no other changes. -/
theorem dropEntry_inv (h : s.dropEntry q k = some s') :
    ∃ m, s.ms.mqeRmv q k = some m ∧ (m.mqeRst k).mqeFree k = some s'.ms ∧
      s' = { s with ms := s'.ms } ∧ s'.ms.hdr = update s.ms.hdr k Hdr.rst := by
  simp only [dropEntry, bind_eq_bind, bind_eq_some_iff, some.injEq] at h
  obtain ⟨m, hm, m', hm', rfl⟩ := h
  refine ⟨m, hm, hm', rfl, ?_⟩
  obtain ⟨l, -, rfl⟩ := map_eq_some_iff.mp hm
  obtain ⟨P, -, rfl⟩ := map_eq_some_iff.mp hm'
  simp [MsgSt.mqeRst, MsgSt.updQ]

/-- An entry goes back to the pool. -/
theorem dropEntry_only (h : s.dropEntry q k = some s') : MsgsOnly s s' := by
  obtain ⟨-, -, -, hs', -⟩ := dropEntry_inv h
  rw [hs']
  exact ⟨rfl, rfl, rfl, rfl, rfl, rfl, rfl, rfl⟩

/-- The loop over the pool at the end of which no entry comes from `rp`. -/
theorem sweepEntries_src {ks : List Mqe} (h : sweepEntries rp ks s = some s') :
    s'.procs = s.procs ∧ (rp ≠ hardwareProc → ∀ k, k ∈ ks ∨ (s.ms.hdr k).src ≠ procNr rp →
      (s'.ms.hdr k).src ≠ procNr rp) := by
  induction ks generalizing s with
  | nil =>
    cases h
    exact ⟨rfl, fun _ k hk => hk.resolve_left (by simp)⟩
  | cons k ks ih =>
    rw [sweepEntries] at h
    split at h
    · simp only [bind_eq_bind, bind_eq_some_iff] at h
      obtain ⟨d, -, q, -, s1, h1, h2⟩ := h
      obtain ⟨m, -, -, -, hhdr⟩ := dropEntry_inv h1
      obtain ⟨hp, hsw⟩ := ih h2
      refine ⟨hp.trans (dropEntry_only h1).procs, fun hne k' hk' => hsw hne k' ?_⟩
      by_cases hkk : k' = k
      · -- the header just reset carries the number of no process
        subst hkk
        refine .inr ?_
        rw [hhdr, update_self]
        intro hc
        exact hne (procNr_inj.mp (hc.symm.trans (by decide)))
      · rcases hk' with hk' | hk'
        · exact .inl (by simpa [hkk] using hk')
        · exact .inr (by rw [hhdr, update_of_ne hkk]; exact hk')
    · rename_i hsrc
      obtain ⟨hp, hsw⟩ := ih h
      refine ⟨hp, fun hne k' hk' => hsw hne k' ?_⟩
      by_cases hkk : k' = k
      · exact .inr (hkk ▸ hsrc)
      · rcases hk' with hk' | hk'
        · exact .inl (by simpa [hkk] using hk')
        · exact .inr hk'

/-- The loop over a queue that is not empty never ends: no entry is taken out. -/
theorem drainQueue_stuck : ∀ {n : Nat} {s : KState} {k : Mqe},
    s.ms.mqePick q anyProc = some (some k) → drainQueue q n s = none := by
  intro n
  induction n with
  | zero =>
    intro s k _
    rfl
  | succ n ih =>
    intro s k hk
    by_contra hne
    obtain ⟨s', h⟩ := ne_none_iff_exists'.mp hne
    simp only [drainQueue, hk, bind_eq_bind, bind_some, bind_eq_some_iff] at h
    obtain ⟨src, -, s1, h1, s2, h2, h3⟩ := h
    obtain ⟨t, rfl⟩ := stopTimerIf_only h1
    have hms : s2.ms = s.ms := (readyIfClear_only h2).ms
    rw [ih (s := s2.setRet src .exiting) (k := k) (by rw [← hk, ← hms]; rfl)] at h3
    cases h3

/-- So the loop ends only at an empty queue, and does nothing. -/
theorem drainQueue_inv {n : Nat} (h : drainQueue q n s = some s') :
    s' = s ∧ s.ms.mqePick q anyProc = some none := by
  cases n with
  | zero => cases h
  | succ n =>
    cases hk : s.ms.mqePick q anyProc with
    | none => simp [drainQueue, hk] at h
    | some o =>
      cases o with
      | some k =>
        rw [drainQueue_stuck hk] at h
        cases h
      | none =>
        simp only [drainQueue, hk, bind_eq_bind, bind_some, some.injEq] at h
        exact ⟨h.symm, rfl⟩

/-- The queue is emptied and given back, if there is one. -/
theorem dropQueue_inv (h : s.dropQueue rp = some s') :
    (s.procs rp).pmq = none ∧ s' = s ∨
      ∃ q m, (s.procs rp).pmq = some q ∧ s.ms.mqePick q anyProc = some none ∧
        s.ms.msgQFree q = some m ∧
        s' = ({ s with ms := m } : KState).updProc rp (fun r => { r with pmq := none }) := by
  rw [dropQueue, dropQueueWithin] at h
  split at h
  · rename_i hq
    cases h
    exact .inl ⟨hq, rfl⟩
  · rename_i q hq
    simp only [bind_eq_bind, bind_eq_some_iff, some.injEq] at h
    obtain ⟨s1, h1, m, hm, rfl⟩ := h
    obtain ⟨rfl, hk⟩ := drainQueue_inv h1
    exact .inr ⟨q, m, hq, hk, hm, rfl⟩

theorem dropQueue_pmq (h : s.dropQueue rp = some s') : (s'.procs rp).pmq = none := by
  rcases dropQueue_inv h with ⟨hq, rfl⟩ | ⟨q, m, -, -, -, rfl⟩
  · exact hq
  · simp

/-- Before its semaphores are looked at, the leaving process has lost its queue and its
    messages. -/
theorem detach_done (h : s.detach v rp = some s') : (s'.procs rp).pmq = none ∧
    (rp ≠ hardwareProc → ∀ k, (s'.ms.hdr k).src ≠ procNr rp) := by
  obtain ⟨s1, s2, s3, -, -, hq, hsw⟩ := detach_inv h
  obtain ⟨hp, hsrc⟩ := sweepEntries_src hsw
  rw [hp]
  exact ⟨dropQueue_pmq hq, fun hne k => hsrc hne k (.inl (List.mem_finRange k))⟩

/-- Every step of a leaving process is made of moves. -/
theorem DetachStep.moves (hv : Calls e v) (h : DetachStep v rp s s') :
    Moves e (some rp, s) (some rp, s') := by
  cases h with
  | watch p => exact (Move.watch p hardware rfl).moves
  | @notice _ _ _ t _ ht hk =>
    have hkind : ¬ t.Sync ∧ t ≠ .mbfree := by
      rcases ht with rfl | rfl <;> decide
    refine ksend_moves hv hkind.1 hkind.2 (Fin.isLt _) (fun sp hsp => ?_) hk
    rw [procAddr_procNr] at hsp
    exact .inr (.inl hsp)
  | queue hq => exact (Move.dropQueue hq).moves
  | sweep hsrc hd hq hk => exact (Move.sweep hsrc hd hq hk).moves

/-- It is no RT process any more. -/
theorem backToMinix_rt (s : KState) (rp : Proc) :
    ((s.backToMinix rp).procs rp).realtime = false := by
  simp only [backToMinix]
  split
  · rw [(ready_only _ _).1.procs]
    simp [updProc]
  · simp [updProc]

/-- `MRT_set2nrt` as moves; afterwards the process is no RT process. -/
theorem set2nrt_moves (hv : Calls e v) (hl : Leaves e s rp) (h : s.set2nrt v rp = some (s', r)) :
    Moves e (none, s) (none, s') ∧ (s'.procs rp).realtime = false := by
  rcases set2nrt_inv h with ⟨hrt, rfl⟩ | ⟨hrt, s1, s2, s3, h1, h2, h3, rfl⟩
  · exact ⟨.refl _, hrt⟩
  refine ⟨?_, backToMinix_rt s3 rp⟩
  obtain ⟨s0, hd, hsteps⟩ := detach_steps h1
  obtain ⟨hq1, hsrc1⟩ := detach_done h1
  obtain ⟨hm2, hk2⟩ := unlock_moves hv.call (unlocking_steps h2)
  obtain ⟨hm3, hk3, -⟩ := release_moves hv.call h3
  have hk := hk2.trans hk3
  have hq3 : (s3.procs rp).pmq = none := (hk.pmq rp).trans hq1
  have hsrc3 : rp ≠ hardwareProc → ∀ k, (s3.ms.hdr k).src ≠ procNr rp := by
    rw [hk.ms]
    exact hsrc1
  have hback : Moves e (some rp, s3) (none, s3.backToMinix rp) := (Move.back hq3 hsrc3).moves
  exact (Move.leave hl hrt hd).moves.trans ((Moves.of_steps (DetachStep.moves hv) hsteps).trans
    (hm2.trans (hm3.trans hback)))

/-! ## Entering RT mode -/

/-- A periodic process never gets through: the pointer to its timer is null. -/
theorem startPeriodic_none (s : KState) (p : Proc) : s.startPeriodic p = none := by
  simp only [startPeriodic, bind_eq_bind, Option.bind_eq_none_iff]
  intro x _
  simp [insTimer]

/-- The state in which the process `rp` has got its queue `q` and its timer `v`. -/
def equip (s : KState) (rp : Proc) (q : MsgQ) (t : TimerSt) (v : VT) : KState :=
  ({ s with ms := (s.ms.msgQAlloc (s.procs rp).mqSize (s.procs rp).mqOrder
        (s.procs rp).mqInherit (procNr rp)).2, tm := t } : KState).updProc rp
    (fun r => { r with pmq := some q, ipcvt := some v })

/-- A process that enters RT mode gets a free queue and a free timer, leaves the MINIX
    queues and becomes ready. -/
theorem rtkSet2rt_inv (h : s.rtkSet2rt = some (s', r)) :
    s' = s ∨ ∃ q v t s1, (s.procs s.cur).realtime = false ∧ s.ms.free.first () = some q ∧
      s.tm.vtimerAlloc 1 0 .none 0 (procNr s.cur) (s.rq.prio s.cur) = some (some v, t) ∧
      (equip s s.cur q t v).unready s.cur = some s1 ∧
      (s1.updProc s.cur (fun r => { r with realtime := true })).rdyQApp s.cur = some s' := by
  simp only [rtkSet2rt] at h
  split at h
  · cases h
    exact .inl rfl
  split at h
  · cases h
    exact .inl rfl
  split at h
  · cases h
    exact .inl rfl
  split at h
  · cases h
    exact .inl rfl
  rename_i hrt _ _ _
  simp only [bind_eq_bind, bind_eq_some_iff] at h
  obtain ⟨s1, h1, s2, h2, s3, h3, h4⟩ := h
  obtain ⟨s4, h5, he⟩ := map_eq_some_iff.mp h4
  cases he
  -- a periodic process does not get past the insertion of its timer
  have h2' : s2 = s1 := by
    split at h2
    · rw [startPeriodic_none] at h2
      cases h2
    · exact (some.inj h2).symm
  subst h2'
  rw [getResources] at h1
  cases hq : s.ms.free.first () with
  | none => simp [MsgSt.msgQAlloc, hq] at h1
  | some q =>
    simp only [MsgSt.msgQAlloc, hq, vtalloc, bind_eq_bind, bind_eq_some_iff,
      map_eq_some_iff, some.injEq] at h1
    obtain ⟨⟨_, _⟩, ⟨⟨o, t⟩, ht, he⟩, v, hv, rfl⟩ := h1
    simp only [Prod.mk.injEq] at he
    obtain ⟨rfl, rfl⟩ := he
    subst hv
    refine .inr ⟨q, v, t, s3, by simpa using hrt, rfl, ht, ?_, h5⟩
    rw [← h3]
    congr 1
    simp [equip, MsgSt.msgQAlloc, hq, updProc]

/-! ## Timer actions -/

/-- A timer for an interrupt is allocated and started. -/
theorem irqTimer_only {per : BitVec 32} {irq : Int} {k : Prty} {o : Option VT}
    (ha : s.vtalloc per 0 .irqtrig irq hardware k = some (o, s1)) (hi : s1.insTimer o = some s') :
    ∃ t, s' = { s with tm := t } := by
  obtain ⟨_, -, he⟩ := map_eq_some_iff.mp ha
  cases he
  simp only [insTimer, bind_eq_bind, bind_eq_some_iff, some.injEq] at hi
  obtain ⟨_, -, t, -, rfl⟩ := hi
  exact ⟨t, rfl⟩

/-- Taking back the entry of a send that has timed out. -/
theorem cancelSend_inv {i : Int} (h : s.cancelSend p i = some s') :
    ∃ k d q m, tabAddr 32 i = some k ∧ (s.procs p).pto = some d ∧ (s.procs d).pmq = some q ∧
      s.ms.mqeRmv q k = some m ∧ m.mqeFree k = some s'.ms ∧ s' = { s with ms := s'.ms } := by
  simp only [cancelSend, bind_eq_bind, bind_eq_some_iff, some.injEq] at h
  obtain ⟨k, hk, d, hd, q, hq, m, hm, m', hm', rfl⟩ := h
  exact ⟨k, d, q, m, hk, hd, hq, hm, hm', rfl⟩

/-- `MRT_act_sndto`: a send has timed out. -/
theorem actSndto_inv (h : s.actSndto v t = some s') :
    ∃ p s1 s2 s3, procAddr t.owner = some p ∧ s.cancelSend p t.param = some s1 ∧
      s1.disinherit (s.procs p).pto (v.junk 0) = some s2 ∧
      (s2.updProc p (fun r =>
        { r with pto := none, st := { r.st with mbxSnd := false } })).readyOnTimeout p = some s3 ∧
      s' = s3.setRet p .timeout := by
  simp only [actSndto, bind_eq_bind, bind_eq_some_iff, some.injEq] at h
  obtain ⟨p, hp, s1, h1, s2, h2, s3, h3, rfl⟩ := h
  exact ⟨p, s1, s2, s3, hp, h1, h2, h3, rfl⟩

/-- `MRT_act_rcvfr`: a receive has timed out. -/
theorem actRcvfr_inv (h : s.actRcvfr t = some s') :
    ∃ p s1, procAddr t.owner = some p ∧ (s.updProc p (fun r =>
        { r with pfrom := none, st := { r.st with mbxRcv := false } })).readyOnTimeout p = some s1 ∧
      s' = s1.setRet p .timeout := by
  simp only [actRcvfr, bind_eq_bind, bind_eq_some_iff, some.injEq] at h
  obtain ⟨p, hp, s1, h1, rfl⟩ := h
  exact ⟨p, s1, hp, h1, rfl⟩

/-- `MRT_act_sndrcv`: either half of a send/receive has timed out. -/
theorem actSndrcv_inv (h : s.actSndrcv v t = some s') :
    ∃ p s1 s2 s3, procAddr t.owner = some p ∧
      ((s.procs p).st.mbxSnd = true ∧ (∃ s0, s.cancelSend p t.param = some s0 ∧
          s1 = s0.updProc p (fun r =>
            { r with pto := none, st := { r.st with mbxSnd := false } })) ∨
        (s.procs p).st.mbxSnd = false ∧ s1 = s) ∧
      s1.disinherit (s1.procs p).pfrom (v.junk 0) = some s2 ∧
      (s2.updProc p (fun r =>
        { r with pfrom := none, st := { r.st with mbxRcv := false } })).readyOnTimeout p = some s3 ∧
      s' = s3.setRet p .timeout := by
  simp only [actSndrcv, bind_eq_bind, bind_eq_some_iff, some.injEq] at h
  obtain ⟨p, hp, s1, h1, s2, h2, s3, h3, rfl⟩ := h
  refine ⟨p, s1, s2, s3, hp, ?_, h2, h3, rfl⟩
  split at h1
  · rename_i hs
    obtain ⟨s0, h0, rfl⟩ := map_eq_some_iff.mp h1
    exact .inl ⟨hs, s0, h0, rfl⟩
  · rename_i hs
    cases h1
    exact .inr ⟨by simpa using hs, rfl⟩

/-- `MRT_act_down`: the wait for a semaphore has timed out. -/
theorem actDown_inv (h : s.actDown t = some s') :
    ∃ p m s1 s2, procAddr t.owner = some p ∧ tabAddr 16 t.param = some m ∧
      s.sprocRmv m p = some s1 ∧
      (s1.setSt p (fun t => { t with semDown := false })).readyOnTimeout p = some s2 ∧
      s' = s2.setRet p .timeout := by
  simp only [actDown, bind_eq_bind, bind_eq_some_iff, some.injEq] at h
  obtain ⟨p, hp, m, hm, s1, h1, s2, h2, rfl⟩ := h
  exact ⟨p, m, s1, s2, hp, hm, h1, h2, rfl⟩

/-- The four timeouts, without what they do to the ready queues. -/
theorem actSndto_core (h : s.actSndto v t = some s') :
    ∃ p s1, procAddr t.owner = some p ∧ s.cancelSend p t.param = some s1 ∧
      (s'.tm = s.tm ∧ s'.ss = s.ss ∧ s'.cur = s.cur) ∧
      s'.ms = s1.ms ∧ s'.procs = update s.procs p { s.procs p with
        pto := none, st := { (s.procs p).st with mbxSnd := false } } := by
  obtain ⟨p, s1, s2, s3, hp, h1, h2, h3, rfl⟩ := actSndto_inv h
  obtain ⟨_, _, _, _, -, -, -, -, -, hs1⟩ := cancelSend_inv h1
  have hd := disinherit_only h2
  have hr := readyOnTimeout_only h3
  have ht1 : s1.tm = s.tm ∧ s1.ss = s.ss ∧ s1.cur = s.cur := by
    rw [hs1]
    exact ⟨rfl, rfl, rfl⟩
  refine ⟨p, s1, hp, h1, ⟨(hr.tm.trans hd.tm).trans ht1.1, (hr.ss.trans hd.ss).trans ht1.2.1,
    (hr.cur.trans hd.cur).trans ht1.2.2⟩, hr.ms.trans hd.ms, ?_⟩
  refine hr.procs.trans ?_
  rw [hs1] at hd
  simp only [updProc, hd.procs]

theorem actRcvfr_core (h : s.actRcvfr t = some s') :
    ∃ p, procAddr t.owner = some p ∧ (s'.tm = s.tm ∧ s'.ss = s.ss ∧ s'.cur = s.cur) ∧ s'.ms = s.ms ∧
      s'.procs = update s.procs p { s.procs p with
        pfrom := none, st := { (s.procs p).st with mbxRcv := false } } := by
  obtain ⟨p, s1, hp, h1, rfl⟩ := actRcvfr_inv h
  have hr := readyOnTimeout_only h1
  exact ⟨p, hp, ⟨hr.tm, hr.ss, hr.cur⟩, hr.ms, hr.procs⟩

theorem actSndrcv_core (h : s.actSndrcv v t = some s') :
    ∃ p, procAddr t.owner = some p ∧ (s'.tm = s.tm ∧ s'.ss = s.ss ∧ s'.cur = s.cur) ∧
      ((s.procs p).st.mbxSnd = true ∧ (∃ s1, s.cancelSend p t.param = some s1 ∧
          s'.ms = s1.ms ∧ s'.procs = update s.procs p { s.procs p with
            pto := none, pfrom := none,
            st := { (s.procs p).st with mbxSnd := false, mbxRcv := false } }) ∨
        (s.procs p).st.mbxSnd = false ∧ s'.ms = s.ms ∧
          s'.procs = update s.procs p { s.procs p with
            pfrom := none, st := { (s.procs p).st with mbxRcv := false } }) := by
  obtain ⟨p, s1, s2, s3, hp, h1, h2, h3, rfl⟩ := actSndrcv_inv h
  have hd := disinherit_only h2
  have hr := readyOnTimeout_only h3
  refine ⟨p, hp, ?_⟩
  rcases h1 with ⟨hs, s0, h0, rfl⟩ | ⟨hs, rfl⟩
  · obtain ⟨_, _, _, _, -, -, -, -, -, hs0⟩ := cancelSend_inv h0
    have hp0 : s0.procs = s.procs := by rw [hs0]
    have ht0 : s0.tm = s.tm ∧ s0.ss = s.ss ∧ s0.cur = s.cur := by
      rw [hs0]
      exact ⟨rfl, rfl, rfl⟩
    refine ⟨⟨(hr.tm.trans hd.tm).trans ht0.1, (hr.ss.trans hd.ss).trans ht0.2.1,
      (hr.cur.trans hd.cur).trans ht0.2.2⟩, .inl ⟨hs, s0, h0, hr.ms.trans hd.ms, ?_⟩⟩
    refine hr.procs.trans ?_
    simp only [updProc, hd.procs, hp0, update_self, update_idem]
  · refine ⟨⟨hr.tm.trans hd.tm, hr.ss.trans hd.ss, hr.cur.trans hd.cur⟩,
      .inr ⟨hs, hr.ms.trans hd.ms, hr.procs.trans ?_⟩⟩
    simp only [updProc, hd.procs]

theorem actDown_core (h : s.actDown t = some s') :
    ∃ p, procAddr t.owner = some p ∧ (s'.tm = s.tm ∧ s'.ss = s.ss ∧ s'.cur = s.cur) ∧ s'.ms = s.ms ∧
      s'.procs = update s.procs p { s.procs p with
        st := { (s.procs p).st with semDown := false } } := by
  obtain ⟨p, m, s1, s2, hp, -, h1, h2, rfl⟩ := actDown_inv h
  obtain rfl := sprocRmv_inv h1
  have hr := readyOnTimeout_only h2
  exact ⟨p, hp, ⟨hr.tm, hr.ss, hr.cur⟩, hr.ms, hr.procs⟩

/-- What the action of a timer does to the kernel, and whether it tells `CONTINUE`. -/
inductive ActCase (v : Env) (s : KState) (t : Timer) : KState → Bool → Prop where
  | idle : t.action = .none ∨ t.action = .debug ∨ t.action = .irqtrig ∨
      t.action = .sched ∧ t.param = hardware → ActCase v s t s true
  | wake {rp : Proc} {s' : KState} : t.action = .wakeup ∨ t.action = .periodic ∨
      t.action = .sched ∧ t.param ≠ hardware → s.wakeFrom v rp = some s' → ActCase v s t s' false
  | tell {src dest : Int} {s' : KState} {k : Prty} {r : Code} :
      t.action = .msgown ∨ t.action = .msgwdog →
      s.ksend v src dest k.val .krntout = some (s', r) → ActCase v s t s' true
  | sndto {s' : KState} : t.action = .sndto → s.actSndto v t = some s' → ActCase v s t s' true
  | rcvfr {s' : KState} : t.action = .rcvfr → s.actRcvfr t = some s' → ActCase v s t s' true
  | sndrcv {s' : KState} : t.action = .sndrcv → s.actSndrcv v t = some s' → ActCase v s t s' true
  | stop {s' : KState} : t.action = .stop → s.actStop t = some s' → ActCase v s t s' true
  | down {s' : KState} : t.action = .down → s.actDown t = some s' → ActCase v s t s' true

/-- **`MRT_vtaction` IS ONE OF THE CASES.** -/
theorem vtaction_cases {c : Bool} (h : s.vtaction v t = some (s', c)) : ActCase v s t s' c := by
  rw [vtaction] at h
  cases ha : t.action with
  | none | debug | irqtrig =>
    simp only [ha] at h
    cases h
    exact .idle (by simp [ha])
  | sched =>
    simp only [ha] at h
    split at h
    · rename_i hp
      cases h
      exact .idle (by simp [ha, hp])
    · rename_i hp
      obtain ⟨rp, -, h⟩ := bind_eq_some_iff.mp h
      obtain ⟨s1, h1, he⟩ := map_eq_some_iff.mp h
      cases he
      exact .wake (by simp [ha, hp]) h1
  | wakeup | periodic =>
    simp only [ha] at h
    obtain ⟨rp, -, h⟩ := bind_eq_some_iff.mp h
    obtain ⟨s1, h1, he⟩ := map_eq_some_iff.mp h
    cases he
    exact .wake (by simp [ha]) h1
  | msgown | msgwdog =>
    simp only [ha] at h
    obtain ⟨rp, -, h⟩ := bind_eq_some_iff.mp h
    obtain ⟨⟨s1, r⟩, h1, he⟩ := map_eq_some_iff.mp h
    cases he
    exact .tell (by simp [ha]) h1
  | sndto =>
    simp only [ha, map_eq_some_iff, Prod.mk.injEq] at h
    obtain ⟨s1, h1, rfl, rfl⟩ := h
    exact .sndto ha h1
  | rcvfr =>
    simp only [ha, map_eq_some_iff, Prod.mk.injEq] at h
    obtain ⟨s1, h1, rfl, rfl⟩ := h
    exact .rcvfr ha h1
  | sndrcv =>
    simp only [ha, map_eq_some_iff, Prod.mk.injEq] at h
    obtain ⟨s1, h1, rfl, rfl⟩ := h
    exact .sndrcv ha h1
  | stop =>
    simp only [ha, map_eq_some_iff, Prod.mk.injEq] at h
    obtain ⟨s1, h1, rfl, rfl⟩ := h
    exact .stop ha h1
  | down =>
    simp only [ha, map_eq_some_iff, Prod.mk.injEq] at h
    obtain ⟨s1, h1, rfl, rfl⟩ := h
    exact .down ha h1

/-- `MRT_vtimer_run`: the time stamp, the action, and the end. -/
theorem vtimerRun_inv {w : VT} (h : s.vtimerRun v w = some s') :
    ∃ s1 c, ActCase v { s with tm := s.tm.upd w (fun t => { t with timestamp := s.tm.ticks }) }
        { s.tm.vt w with timestamp := s.tm.ticks } s1 c ∧ s' = { s1 with tm := s'.tm } ∧
      (if c then s1.tm.rearm w else
        if (s1.tm.vt w).expired < (s1.tm.vt w).limit ∨ (s1.tm.vt w).limit = 0 then
          s1.tm.vtimerIns w else some s1.tm) = some s'.tm := by
  simp only [vtimerRun, bind_eq_bind, bind_eq_some_iff, upd_vt_self] at h
  obtain ⟨⟨s1, c⟩, h1, h⟩ := h
  have hend : ∀ tm : TimerSt, (if (tm.vt w).expired < (tm.vt w).limit ∨ (tm.vt w).limit = 0 then
      (tm.vtimerIns w).map (fun t => { s1 with tm := t }) else some { s1 with tm := tm }) =
        some s' → s' = { s1 with tm := s'.tm } ∧
      (if (tm.vt w).expired < (tm.vt w).limit ∨ (tm.vt w).limit = 0 then tm.vtimerIns w
        else some tm) = some s'.tm := by
    intro tm htm
    split at htm
    · rename_i hlim
      obtain ⟨t, ht, rfl⟩ := map_eq_some_iff.mp htm
      exact ⟨rfl, by rw [if_pos hlim]; exact ht⟩
    · rename_i hlim
      cases htm
      exact ⟨rfl, if_neg hlim⟩
  refine ⟨s1, c, vtaction_cases h1, ?_⟩
  cases c with
  | true | false => exact hend _ h

/-- What `MRT_wakeup` does after it has stopped the timer. -/
inductive WakeCase (v : Env) (s : KState) (rp : Proc) (s' : KState) : Prop where
  | idle : s' = s → WakeCase v s rp s'
  | tell {src dest : Int} {k : Prty} {r : Code} :
      s.ksend v src dest k.val .krndline = some (s', r) → WakeCase v s rp s'
  | ready : (s.setSt rp (fun t => { t with sleep := false })).readyIfClear rp = some s' →
      WakeCase v s rp s'

/-- A wakeup stops the timer and ends the wait, whatever it is for. -/
theorem wakeFrom_cases (h : s.wakeFrom v rp = some s') :
    ∃ s1 s2, s.stopTimer (s.procs rp).ipcvt = some s1 ∧ WakeCase v s1 rp s2 ∧
      (s' = s2 ∨ s' = { s2 with needSched := true }) := by
  obtain ⟨⟨s2, r⟩, h1, he⟩ := map_eq_some_iff.mp h
  simp only [wakeup, bind_eq_bind, bind_eq_some_iff] at h1
  obtain ⟨s1, hstop, h1⟩ := h1
  refine ⟨s1, s2, hstop, ?_, ?_⟩
  · split at h1
    · split at h1
      · cases h1
        exact .idle rfl
      · obtain ⟨⟨s3, r3⟩, h2, he'⟩ := map_eq_some_iff.mp h1
        cases he'
        exact .tell h2
    · split at h1
      · rename_i hrd
        obtain ⟨s3, h2, he'⟩ := map_eq_some_iff.mp h1
        cases he'
        exact .ready (by rw [readyIfClear, if_pos hrd]; exact h2)
      · rename_i hrd
        cases h1
        exact .ready (by rw [readyIfClear, if_neg hrd])
  · rw [← he]
    split
    · exact .inr rfl
    · exact .inl rfl

/-! ## Calls, requests and events -/

/-- `MRT_wakeup`, as moves. -/
theorem wakeup_moves (hv : Calls e v) (hrt : (s.procs rp).realtime = true)
    (h : s.wakeup v rp = some (s', r)) :
    Moves e (none, s) (none, s') := by
  simp only [wakeup, bind_eq_bind, bind_eq_some_iff] at h
  obtain ⟨s1, h1, h⟩ := h
  split at h
  · have hstop : Moves e (none, s) (none, s1) := (Move.stop hv.call hrt h1).moves
    split at h
    · cases h
      exact hstop
    · obtain ⟨⟨s2, r2⟩, h2, he⟩ := map_eq_some_iff.mp h
      cases he
      refine hstop.trans (ksend_moves hv (by decide) (by decide) (Fin.isLt _) (fun sp hsp => ?_) h2)
      rw [procAddr_procNr] at hsp
      exact .inl (some.inj hsp).symm
  · rename_i hsl
    have hsl : (s1.procs rp).st.sleep = true := by simpa using hsl
    split at h
    · rename_i hrd
      obtain ⟨s2, h2, he⟩ := map_eq_some_iff.mp h
      cases he
      exact (Move.wake hv.call hrt h1 hsl (by rw [readyIfClear, if_pos hrd]; exact h2)).moves
    · rename_i hrd
      cases h
      exact (Move.wake hv.call hrt h1 hsl (by rw [readyIfClear, if_neg hrd])).moves

theorem rtkWakeup_moves {pid : Int} (hv : Calls e v) (h : s.rtkWakeup v nr pid = some (s', r)) :
    Moves e (none, s) (none, s') := by
  simp only [rtkWakeup, bind_eq_bind, bind_eq_some_iff] at h
  obtain ⟨rp, -, h⟩ := h
  split at h
  · cases h
    exact .refl _
  split at h
  · cases h
    exact .refl _
  split at h
  · cases h
    exact .refl _
  · rename_i hrt
    exact wakeup_moves hv (by simpa using hrt) h

/-- `MRT_setpattr` is refused, or writes the attributes. -/
theorem setpattr_cases {a : PAttr} (h : s.setpattr v c a = some (s', r)) :
    s' = s ∨ ∃ k, s' = s.writeAttr c a k := by
  rw [setpattr] at h
  split at h
  · cases h
    exact .inl rfl
  split at h
  · cases h
    exact .inl rfl
  split at h
  · cases h
    exact .inl rfl
  split at h
  · cases h
    exact .inl rfl
  split at h
  · cases h
    exact .inl rfl
  · rename_i k _ _
    cases h
    exact .inr ⟨k, rfl⟩

theorem setpattr_moves {a : PAttr} (he : e = .task v (.setpattr caller a))
    (hc : (s.procs c).realtime = false) (h : s.setpattr v c a = some (s', r)) :
    Moves e (none, s) (none, s') := by
  rcases setpattr_cases h with rfl | ⟨k, rfl⟩
  · exact .refl _
  · exact (Move.writeAttr he hc).moves

/-- `MRT_semfree` is refused, or frees a semaphore of the caller. -/
theorem semfree_cases {id : Int} (h : s.semfree c id = some (s', r)) :
    s' = s ∨ ∃ m, tabAddr 16 id = some m ∧ (s.ss.sem m).owner ≠ hardware ∧
      (s.ss.sem m).owner = procNr c ∧ s.semFree c m = some s' := by
  rw [semfree] at h
  split at h
  · cases h
    exact .inl rfl
  rename_i m hm
  split at h
  · cases h
    exact .inl rfl
  split at h
  · cases h
    exact .inl rfl
  · rename_i hhw hown
    obtain ⟨s1, h1, he'⟩ := map_eq_some_iff.mp h
    cases he'
    exact .inr ⟨m, hm, hhw, not_not.mp hown, h1⟩

theorem semfree_moves {id : Int} (he : e = .task v (.semfree caller id))
    (hc : (s.procs c).realtime = false) (h : s.semfree c id = some (s', r)) :
    Moves e (none, s) (none, s') := by
  rcases semfree_cases h with rfl | ⟨m, hm, hhw, hown, h1⟩
  · exact .refl _
  · exact (Move.semFree hc (.inr ⟨v, caller, id, he, hm, hhw, hown⟩) h1).moves

/-- Only semaphores and their wait lists change. -/
structure SemsOnly (s s' : KState) : Prop where
  procs : s'.procs = s.procs
  tm : s'.tm = s.tm
  ms : s'.ms = s.ms
  mx : s'.mx = s.mx
  cur : s'.cur = s.cur
  bpip : s'.bpip = s.bpip

/-- A semaphore that is allocated comes from the free list and gets its attributes. -/
theorem semalloc_cases {a : SAttr} (h : s.semalloc v c a = some (s', r)) :
    s' = s ∨ ∃ m pr P, s.ss.alloc.first none = some m ∧ (a.mutex = true → a.value.toInt ≤ 1) ∧
      (∀ i, s.semName i ≠ cstr a.name) ∧ prtyOf a.priority = some pr ∧
      (s.ss.alloc.rmv none m).app (some c) m = some P ∧
      s' = { s with ss := { s.ss with
        sem := update s.ss.sem m { s.ss.sem m with
          order := a.order, inherit := a.inherit, mutex := a.mutex, value := a.value,
          priority := pr, name := (cstr a.name).take 16, owner := procNr c },
        alloc := P } } := by
  rw [semalloc] at h
  split at h
  · cases h
    exact .inl rfl
  split at h
  · cases h
    exact .inl rfl
  rename_i hname
  split at h
  · cases h
    exact .inl rfl
  rename_i hval
  split at h
  · cases h
    exact .inl rfl
  split at h
  · cases h
    exact .inl rfl
  rename_i pr hpr
  simp only [semAlloc, bind_eq_bind, bind_eq_some_iff] at h
  obtain ⟨⟨o, s1⟩, h1, h⟩ := h
  split at h1
  · cases h1
    cases h
    exact .inl rfl
  · rename_i m hfirst
    obtain ⟨P, hP, he⟩ := map_eq_some_iff.mp h1
    cases he
    cases h
    refine .inr ⟨m, pr, P, hfirst, fun hm => ?_, fun i hi => ?_, hpr, hP, ?_⟩
    · by_contra hlt
      exact hval ⟨hm, by omega⟩
    · exact hname (List.any_eq_true.mpr ⟨i, List.mem_finRange i, decide_eq_true hi⟩)
    · simp only [updSem, update_self, update_idem]

theorem semalloc_only {a : SAttr} (h : s.semalloc v c a = some (s', r)) : SemsOnly s s' := by
  rcases semalloc_cases h with rfl | ⟨m, pr, P, -, -, -, -, -, rfl⟩
  all_goals exact ⟨rfl, rfl, rfl, rfl, rfl, rfl⟩

theorem semFree_only (h : s.semFree rp m = some s') : SemsOnly s s' := by
  obtain ⟨P, -, rfl⟩ := map_eq_some_iff.mp h
  exact ⟨rfl, rfl, rfl, rfl, rfl, rfl⟩

/-- The semaphores of an exiting process are freed, all of them. -/
theorem freeSems_moves (he : e = .task v (.exit nr)) :
    ∀ {n : Nat} {s : KState}, (s.procs rp).realtime = false →
    freeSems rp n s = some s' → Moves e (none, s) (none, s') ∧ s'.procs = s.procs ∧
      s'.ss.alloc.first (some rp) = none := by
  intro n
  induction n with
  | zero =>
    intro s _ h
    cases h
  | succ n ih =>
    intro s hrt h
    rw [freeSems] at h
    cases hf : s.ss.alloc.first (some rp) with
    | none =>
      simp only [hf, some.injEq] at h
      subst h
      exact ⟨.refl _, rfl, hf⟩
    | some m =>
      simp only [hf] at h
      obtain ⟨s1, h1, h2⟩ := bind_eq_some_iff.mp h
      have hp := (semFree_only h1).procs
      obtain ⟨hm, hp2, hf2⟩ := ih (hp ▸ hrt) h2
      exact ⟨(Move.semFree hrt (.inl ⟨v, nr, he, hf⟩) h1).moves.trans hm, hp2.trans hp, hf2⟩

/-- `MRT_exit`, as moves. -/
theorem mrtExit_moves (he : e = .task v (.exit nr)) (h : s.mrtExit v nr = some (s', r)) :
    Moves e (none, s) (none, s') := by
  simp only [mrtExit, bind_eq_bind, bind_eq_some_iff, some.injEq, Prod.mk.injEq] at h
  obtain ⟨rp, hrp, ⟨s1, r1⟩, h1, s2, h2, rfl, -⟩ := h
  obtain ⟨hm1, hrt1⟩ := set2nrt_moves (e := e) (he ▸ calls_task) (by rw [he]; exact hrp) h1
  obtain ⟨hm2, hp2, hf2⟩ := freeSems_moves he hrt1 h2
  exact (hm1.trans hm2).trans (Move.procRst he (hp2 ▸ hrt1) hf2).moves

/-- `MRT_sys_task` passes a request of the process with the pid `caller` on. -/
def KState.asks (s : KState) (caller : Int) (rt : Bool) : Bool :=
  s.rtMode && (s.pid2pptr caller).any (fun c => (s.procs c).realtime == rt)

/-- A request is refused, or it comes from a process of the right kind. -/
theorem request_cases {rt : Bool} {f : Proc → Option (KState × Code)}
    (h : s.request caller rt f = some (s', r)) :
    s.asks caller rt = false ∧ s' = s ∨ s.asks caller rt = true ∧ ∃ c,
      s.pid2pptr caller = some c ∧ (s.procs c).realtime = rt ∧ f c = some (s', r) := by
  rw [request] at h
  rw [KState.asks]
  split at h
  · rename_i hm
    cases h
    exact .inl ⟨by simp [hm], rfl⟩
  · rename_i hm
    simp only [bind_eq_bind, bind_eq_some_iff] at h
    obtain ⟨c, hc, h⟩ := h
    split at h
    · rename_i hrt
      exact .inr ⟨by simpa [hc, hrt] using hm, c, hc, hrt, h⟩
    · rename_i hrt
      cases h
      exact .inl ⟨by simp [hc, hrt], rfl⟩

/-- **EVERY REQUEST TO `MRTTASK` IS MADE OF MOVES.** -/
theorem serve_moves {q : Request} (he : e = .task v q) (h : s.serve v q = some (s', r)) :
    Moves e (none, s) (none, s') := by
  have hv : Calls e v := he ▸ calls_task
  cases q with
  | setpattr caller a =>
    rcases request_cases h with ⟨-, rfl⟩ | ⟨-, c, -, hrt, hf⟩
    · exact .refl _
    · exact setpattr_moves he hrt hf
  | semalloc caller a =>
    rcases request_cases h with ⟨-, rfl⟩ | ⟨-, c, hc, hrt, hf⟩
    · exact .refl _
    · exact (Move.semalloc he hc hrt hf).moves
  | semfree caller id =>
    rcases request_cases h with ⟨-, rfl⟩ | ⟨-, c, -, hrt, hf⟩
    · exact .refl _
    · exact semfree_moves he hrt hf
  | exit caller =>
    rcases request_cases h with ⟨-, rfl⟩ | ⟨-, c, -, -, hf⟩
    · exact .refl _
    · exact mrtExit_moves he hf
  | stdsignal caller pid =>
    rcases request_cases h with ⟨-, rfl⟩ | ⟨-, c, -, -, hf⟩
    · exact .refl _
    · rw [stdsignal] at hf
      split at hf
      · cases hf
        exact .refl _
      · rename_i rp hrp
        exact (set2nrt_moves hv (by rw [he]; exact hrp) hf).1

/-- **EVERY CALL OF AN RT PROCESS IS MADE OF MOVES.** -/
theorem dispatch_moves {c : Call} (he : e = .rtk p v c) (hcur : s.cur = p)
    (hhw : s.cur ≠ hardwareProc) (hr : c ≠ .set2rt → Running s)
    (h : s.dispatch v c = some (s', r)) : Moves e (none, s) (none, s') := by
  have hv : Calls e v := he ▸ calls_rtk
  cases c with
  | set2rt => exact (Move.set2rt he hhw h).moves
  | set2nrt => exact (set2nrt_moves hv (by rw [he]; exact hcur) h).1
  | sleep t => exact (Move.sleep (hr (by simp)) h).moves
  | wakeup nr pid => exact rtkWakeup_moves hv h
  | rqst ipc => exact send_moves (c := .rqst) (hr (by simp)) he h
  | reply ipc => exact send_moves (c := .reply) (hr (by simp)) he h
  | arqst ipc => exact send_moves (c := .arqst) (hr (by simp)) he h
  | uprqst ipc => exact send_moves (c := .uprqst) (hr (by simp)) he h
  | sign ipc => exact send_moves (c := .sign) (hr (by simp)) he h
  | receive ipc => exact rtkReceive_moves (hr (by simp)) he h
  | rqrcv ipc => exact send_moves (c := .rqrcv) (hr (by simp)) he h
  | semup id =>
    obtain ⟨m, hm, h⟩ := bind_eq_some_iff.mp h
    exact (Move.semup (hr (by simp)) he hm h).moves
  | semdown id t =>
    obtain ⟨m, hm, h⟩ := bind_eq_some_iff.mp h
    exact (Move.semdown (hr (by simp)) he hm h).moves

/-- The process that runs when the kernel is entered, if the event names one. -/
def Event.runner : Event → Option Proc
  | .rtk p _ _ | .ksend p _ _ _ _ _ | .flush p _ _ => some p
  | .task _ _ => some mrtTask
  | .inherit _ _ | .disinherit _ _ | .irqTimer _ _ _ | .tick => none

/-- The state in which the moves of `e` start: the runner is the current process. -/
def Enters (e : Event) (s s0 : KState) : Prop :=
  match e.runner with
  | none => s0 = s
  | some p => s.canRun p = true ∧ s0 = { s with cur := p }

/-- An event finds its process ready to run. -/
theorem enter_inv (h : s.enter p = some s') : s.canRun p = true ∧ s' = { s with cur := p } := by
  rw [enter] at h
  split at h
  · rename_i hc
    cases h
    exact ⟨hc, rfl⟩
  · cases h

attribute [local simp] canRun rtReady in
/-- An RT process that can run is not blocked. -/
theorem running_of_canRun (hc : s.canRun p = true) (hrt : (s.procs p).realtime = true) :
    Running { s with cur := p } := by
  simp [hrt] at hc
  exact ⟨hrt, hc.2⟩

/-- The event runs timers of the expired queue. -/
def Event.isFlush : Event → Bool
  | .flush _ _ _ => true
  | _ => false

/-- `rtk_call` passes a call of the process `p` on. -/
def KState.takes (s : KState) (p : Proc) (c : Call) : Bool :=
  s.rtMode && (decide (c = .set2rt) || (s.procs p).realtime)

/-- `rtk_call` made by `p`: it is refused, or a call is carried out and a process picked. -/
theorem step_rtk {c : Call} (h : s.step (.rtk p v c) = some s') :
    s.canRun p = true ∧ (s.takes p c = false ∧ s' = { s with cur := p } ∨ ∃ s1 r,
      s.takes p c = true ∧ (c ≠ .set2rt → Running { s with cur := p }) ∧
      KState.dispatch v { s with cur := p } c = some (s1, r) ∧ s1.pickProc = some s') := by
  obtain ⟨s0, h0, h⟩ := bind_eq_some_iff.mp h
  obtain ⟨⟨s2, r⟩, h2, rfl⟩ := map_eq_some_iff.mp h
  obtain ⟨hc, rfl⟩ := enter_inv h0
  refine ⟨hc, ?_⟩
  rw [rtkCall] at h2
  rw [KState.takes]
  split at h2
  · rename_i hm
    cases h2
    have hm : s.rtMode = false := by simpa using hm
    exact .inl ⟨by rw [hm]; rfl, rfl⟩
  rename_i hm
  split at h2
  · rename_i hset
    cases h2
    have hrt : (s.procs p).realtime = false := by simpa using hset.2
    exact .inl ⟨by simp [hset.1, hrt], rfl⟩
  · rename_i hset
    simp only [bind_eq_bind, bind_eq_some_iff, some.injEq, Prod.mk.injEq] at h2
    obtain ⟨⟨s1, r1⟩, h1, s3, h3, rfl, -⟩ := h2
    refine .inr ⟨s1, r1, ?_, fun hne => running_of_canRun hc ?_, h1, h3⟩
    · simp only [not_not] at hm
      simp only [hm, Bool.true_and, Bool.or_eq_true, decide_eq_true_eq]
      by_contra hn
      exact hset (not_or.mp hn)
    · by_contra hn
      exact hset ⟨hne, hn⟩

/-- A request to `MRTTASK`: it is served, and a process is picked. -/
theorem step_task {r : Request} (h : s.step (.task v r) = some s') :
    s.canRun mrtTask = true ∧ ∃ s1 c,
      KState.serve v { s with cur := mrtTask } r = some (s1, c) ∧ s1.pickProc = some s' := by
  obtain ⟨s0, h0, h⟩ := bind_eq_some_iff.mp h
  obtain ⟨⟨s1, c⟩, h1, h2⟩ := bind_eq_some_iff.mp h
  obtain ⟨hc, rfl⟩ := enter_inv h0
  exact ⟨hc, s1, c, h1, h2⟩

/-- A turn of the flush loop: nothing has expired, or the first expired timer runs. -/
theorem step_flush {k : Prty} (h : s.step (.flush p v k) = some s') :
    s.canRun p = true ∧ (s' = { s with cur := p } ∨ ∃ plk w s1,
      (s.tm.q.hdr (.exp k)).first = some plk ∧ (s.tm.vt plk).this = some w ∧
      KState.vtimerRun v { s with cur := p } w = some s1 ∧
      (s' = s1 ∨ s1.pickProc = some s')) := by
  obtain ⟨s0, h0, h⟩ := bind_eq_some_iff.mp h
  obtain ⟨hc, rfl⟩ := enter_inv h0
  refine ⟨hc, ?_⟩
  rw [flushOne] at h
  cases hf : (s.tm.q.hdr (.exp k)).first with
  | none =>
    simp only [hf, some.injEq] at h
    exact .inl h.symm
  | some plk =>
    simp only [hf, bind_eq_bind, bind_eq_some_iff] at h
    obtain ⟨w, hw, s1, h1, h2⟩ := h
    refine .inr ⟨plk, w, s1, rfl, hw, h1, ?_⟩
    split at h2
    · exact .inr h2
    · exact .inl (some.inj h2).symm

/-- **AN ENTRY INTO THE KERNEL IS A SEQUENCE OF MOVES**, and at most one scheduling
    decision at its end.  The flush loop is entered again for every timer. -/
theorem step_moves (h : s.step e = some s') :
    ∃ s0 s1, Enters e s s0 ∧ Moves e (none, s0) (none, s1) ∧
      (e.isFlush = true → s1 = s0 ∨ Move e (none, s0) (none, s1)) ∧
      (s' = s1 ∨ s1.pickProc = some s') := by
  cases e with
  | rtk p v c =>
    obtain ⟨hc, ⟨-, rfl⟩ | ⟨s1, r, -, hr, h1, h2⟩⟩ := step_rtk h
    · exact ⟨_, _, ⟨hc, rfl⟩, .refl _, fun _ => .inl rfl, .inl rfl⟩
    · have hhw : p ≠ hardwareProc := by
        simp only [canRun, Bool.and_eq_true, decide_eq_true_eq] at hc
        exact hc.1
      exact ⟨_, s1, ⟨hc, rfl⟩, dispatch_moves rfl rfl hhw hr h1, nofun, .inr h2⟩
  | task v r =>
    obtain ⟨hc, s1, c, h1, h2⟩ := step_task h
    exact ⟨_, s1, ⟨hc, rfl⟩, serve_moves rfl h1, nofun, .inr h2⟩
  | ksend p v src dest prty t =>
    obtain ⟨s0, h0, h⟩ := bind_eq_some_iff.mp h
    obtain ⟨⟨s1, r⟩, h1, rfl⟩ := map_eq_some_iff.mp h
    obtain ⟨hc, rfl⟩ := enter_inv h0
    refine ⟨_, s1, ⟨hc, rfl⟩, ksend_moves ⟨rfl, id⟩ ?_ ?_ (Fin.isLt _) (fun sp hsp => ?_) h1,
      nofun, .inl rfl⟩
    · cases t <;> decide
    · cases t <;> decide
    · rw [procAddr_eq_some] at hsp
      exact .inr (.inr ⟨p, v, dest, prty, t, by rw [hsp]⟩)
  | inherit prty o =>
    exact ⟨s, s', rfl, (Move.inherit (.inr ⟨prty, rfl⟩) h).moves, nofun,
      .inl rfl⟩
  | disinherit o j =>
    exact ⟨s, s', rfl, (Move.disinherit (.inr rfl) h).moves, nofun, .inl rfl⟩
  | irqTimer per irq prty =>
    obtain ⟨⟨w, s1⟩, h1, h2⟩ := bind_eq_some_iff.mp h
    exact ⟨s, s', rfl, (Move.irqTimer h1 h2).moves, nofun, .inl rfl⟩
  | tick =>
    obtain ⟨t, h1, rfl⟩ := map_eq_some_iff.mp h
    exact ⟨s, _, rfl, (Move.tick rfl h1).moves, nofun, .inl rfl⟩
  | flush p v prty =>
    obtain ⟨hc, rfl | ⟨plk, w, s1, hf, hw, h1, h2⟩⟩ := step_flush h
    · exact ⟨_, _, ⟨hc, rfl⟩, .refl _, fun _ => .inl rfl, .inl rfl⟩
    · have hm : Move (.flush p v prty) (none, { s with cur := p }) (none, s1) :=
        Move.expire rfl hf hw h1
      exact ⟨_, s1, ⟨hc, rfl⟩, hm.moves, fun _ => .inr hm, h2⟩

/-- A receive is one move, or none, up to the statistics. -/
theorem step_receive (h : s.step (.rtk p v (.receive ipc)) = some s') :
    ∃ s1 s2, s.canRun p = true ∧ (s1 = { s with cur := p } ∨
      Move (.rtk p v (.receive ipc)) (none, { s with cur := p }) (none, s1)) ∧
      Book s1 s2 ∧ (s' = s2 ∨ s2.pickProc = some s') := by
  obtain ⟨hc, ⟨-, rfl⟩ | ⟨s1, r, -, hr, h1, h2⟩⟩ := step_rtk h
  · exact ⟨_, _, hc, .inl rfl, .refl _, .inl rfl⟩
  · obtain ⟨s4, hm, hb⟩ := rtkReceive_one (hr (by simp)) rfl h1
    exact ⟨s4, s1, hc, hm, hb, .inr h2⟩

/-! ## Invariants, one move at a time -/

/-- **THE RULE FOR INVARIANTS.**  `I x s` holds between the moves, with `x` leaving;
    `C e s` is what the moves of `e` may assume, and it is kept along them. -/
theorem ReachBy.invariant {ok : KState → Event → Prop} {I : Option Proc → KState → Prop}
    {C : Event → KState → Prop} {s₀ : KState} (hinit : I none s₀)
    (henter : ∀ {e s s0}, I none s → ok s e → Enters e s s0 → I none s0 ∧ C e s0)
    (hmove : ∀ {e x s x' s'}, Move e (x, s) (x', s') → I x s → C e s → I x' s')
    (hcond : ∀ {e x s x' s'}, Move e (x, s) (x', s') → I x s → C e s →
      e.isFlush = false → C e s')
    (hpick : ∀ {s s'}, I none s → s.pickProc = some s' → I none s')
    (h : ReachBy ok s₀ s) : I none s := by
  induction h with
  | init => exact hinit
  | @step s s' e _ hok hs ih =>
    obtain ⟨s0, s1, he, hm, hfl, hp⟩ := step_moves hs
    obtain ⟨hi0, hc0⟩ := henter ih hok he
    have hi1 : I none s1 := by
      by_cases hf : e.isFlush = true
      · rcases hfl hf with rfl | hmv
        · exact hi0
        · exact hmove hmv hi0 hc0
      · -- the condition is carried along the moves together with the invariant
        have hf : e.isFlush = false := by simpa using hf
        have hall : ∀ {b : Option Proc × KState}, Moves e (none, s0) b →
            I b.1 b.2 ∧ C e b.2 := by
          intro b hb
          induction hb with
          | refl => exact ⟨hi0, hc0⟩
          | tail _ hmv ih => exact ⟨hmove hmv ih.1 ih.2, hcond hmv ih.1 ih.2 hf⟩
        exact (hall hm).1
    rcases hp with rfl | hp
    · exact hi1
    · exact hpick hi1 hp

end Kernel
