import Minix4rt.SchedModelProofs

/-! # The MINIX rendezvous — `sys_call`, `mini_send`, `mini_rec` and `do_xit`

    A process that sends to one that is not waiting is marked `SENDING`, notes the
    receiver in `p_sendto` and joins the receiver's chain `p_callerq`, which is
    threaded through `p_sendlink`.

    The copied bytes are left out.  Whether a message buffer lies in the caller's
    segments is an input of the call. -/

namespace Kernel

open Vtimer Function

/-- `ANY`. -/
def any : Int := 132

/-- `isoksrc_dest`. -/
def isOkSrcDest (n : Int) : Bool := (procAddr n).isSome || decide (n = any)

/-- `issysmrt`: whom a user process may call. -/
def isSysMrt (n : Int) : Bool :=
  decide (n = procNr fsProc) || decide (n = procNr mmProc) || decide (n = procNr mrtTask)

/-- `isrxhardware`. -/
def isRxHardware (n : Int) : Bool := decide (n = any) || decide (n = hardware)

/-- The `function` argument of `sys_call`. -/
inductive Fn where
  | send | receive | both
deriving DecidableEq, Repr

namespace KState

/-- Write `p_callerq`. -/
def setCallerq (s : KState) (p : Proc) (o : Option Proc) : KState :=
  { s with mx := { s.mx with callerq := update s.mx.callerq p o } }

/-- Write `p_sendlink`. -/
def setSendlink (s : KState) (p : Proc) (o : Option Proc) : KState :=
  { s with mx := { s.mx with sendlink := update s.mx.sendlink p o } }

/-- `if (rp->p_flags == 0) ready(rp)`. -/
def readyIfZero (s : KState) (p : Proc) : KState := if s.flagsZero p then s.ready p else s

/-- `if (rp->p_flags == 0) unready(rp)`. -/
def unreadyIfZero (s : KState) (p : Proc) : Option KState :=
  if s.flagsZero p then s.unready p else some s

/-! ## Sending -/

/-- The search loop of `mini_send`: does the chain of senders that starts at the
    given process reach `c`?  A walk of more than 43 processes never ends. -/
def deadlockSearch (s : KState) (c : Proc) : Nat → Option Proc → Option Bool
  | 0, _ => none
  | _ + 1, none => none
  | n + 1, some next =>
    if next = c then some true
    else if (s.mx.flags next).sending then deadlockSearch s c n (procAddr (s.mx.sendto next))
    else some false

/-- The deadlock check of `mini_send`. -/
def deadlock (s : KState) (c d : Proc) : Option Bool :=
  if (s.mx.flags d).sending then s.deadlockSearch c 43 (procAddr (s.mx.sendto d))
  else some false

/-- The destination `d` is blocked waiting for a message of `c`. -/
def awaits (s : KState) (d c : Proc) : Bool :=
  (s.mx.flags d).receiving && !(s.mx.flags d).sending &&
    (decide (s.mx.getfrom d = any) || decide (s.mx.getfrom d = procNr c))

/-- The last process of a chain of senders. -/
def lastSender (s : KState) : Nat → Proc → Option Proc
  | 0, _ => none
  | n + 1, p =>
    match s.mx.sendlink p with
    | none => some p
    | some q => lastSender s n q

/-- Hook `c` into the chain of `d`. -/
def joinCallers (s : KState) (c d : Proc) : Option KState :=
  match s.mx.callerq d with
  | none => some ((s.setCallerq d (some c)).setSendlink c none)
  | some head =>
    (s.lastSender 44 head).map (fun l => (s.setSendlink l (some c)).setSendlink c none)

/-- Mark `c` as sending to `dest`. -/
def markSending (s : KState) (c : Proc) (dest : Int) : KState :=
  let s := s.setPFlags c (fun f => { f with sending := true })
  { s with mx := { s.mx with sendto := update s.mx.sendto c dest } }

/-- `mini_send`. -/
def miniSend (s : KState) (c : Proc) (dest : Int) (addrOk : Bool) : Option (KState × Code) :=
  if isUser c ∧ ¬ isSysMrt dest then some (s, .badDest)
  else match procAddr dest with
    | none => none
    | some d =>
      if (s.mx.flags d).slotFree then some (s, .badDest)
      else if ¬ addrOk then some (s, .fault)
      else match s.deadlock c d with
        | none => none
        | some true => some (s, .locked)
        | some false =>
          if s.awaits d c then
            some ((s.setPFlags d (fun f => { f with receiving := false })).readyIfZero d, .ok)
          else do
            let s ← s.unreadyIfZero c
            let s ← (s.markSending c dest).joinCallers c d
            some (s, .ok)

/-! ## Receiving -/

/-- The process that `inform` tells MM about. -/
def firstPending (s : KState) : Option Proc :=
  (List.finRange 43).find? (fun p => decide (11 ≤ p.val) && (s.mx.flags p).pending)

/-- The signals of `rp` are now in the hands of MM. -/
def informed (s : KState) (rp : Proc) : KState :=
  { s with mx := { s.mx with
      pending := update s.mx.pending rp ∅,
      flags := update s.mx.flags rp { s.mx.flags rp with pending := false },
      ksig := some (rp, s.mx.pending rp) } }

/-- `inform`: tell MM, which waits for any message, about the signals of one process. -/
def inform (s : KState) : Option KState :=
  match s.firstPending with
  | none => some s
  | some rp =>
    let s := { s with mx := { s.mx with sigProcs := s.mx.sigProcs - 1 } }
    match s.miniSend hardwareProc (procNr mmProc) true with
    | some (s, .ok) => (s.informed rp).pickProc
    | _ => none

/-- Walk the chain of `c` to a sender that `src` accepts; the result is that sender
    with the one before it. -/
def findSender (s : KState) (src : Int) :
    Nat → Option Proc → Option Proc → Option (Option (Option Proc × Proc))
  | _, _, none => some none
  | 0, _, some _ => none
  | n + 1, prev, some p =>
    if src = any ∨ src = procNr p then some (some (prev, p))
    else findSender s src n (some p) (s.mx.sendlink p)

/-- Unhook the sender `p` from the chain of `c` and release it. -/
def acceptFrom (s : KState) (c : Proc) (prev : Option Proc) (p : Proc) : Option KState :=
  let s' := if s.mx.callerq c = some p then some (s.setCallerq c (s.mx.sendlink p))
    else prev.map (fun q => s.setSendlink q (s.mx.sendlink p))
  s'.map (fun s => (s.setPFlags p (fun f => { f with sending := false })).readyIfZero p)

/-- The blocking end of `mini_rec`. -/
def blockReceiver (s : KState) (c : Proc) (src : Int) : Option KState := do
  let s := { s with mx := { s.mx with getfrom := update s.mx.getfrom c src } }
  let s ← s.unreadyIfZero c
  let s := s.setPFlags c (fun f => { f with receiving := true })
  if 0 < s.mx.sigProcs ∧ c = mmProc ∧ src = any then s.inform else some s

/-- `mini_rec`. -/
def miniRec (s : KState) (c : Proc) (src : Int) : Option (KState × Code) :=
  if (s.mx.flags c).sending then (s.blockReceiver c src).map (·, .ok)
  else match s.findSender src 44 none (s.mx.callerq c) with
    | none => none
    | some (some (prev, p)) => (s.acceptFrom c prev p).map (·, .ok)
    | some none =>
      if s.mx.intBlocked c ∧ isRxHardware src then
        some ({ s with mx := { s.mx with
                  intBlocked := update s.mx.intBlocked c false } }, .ok)
      else (s.blockReceiver c src).map (·, .ok)

/-- `sys_call`, made by the process `c`. -/
def sysCall (s : KState) (c : Proc) (fn : Fn) (srcDest : Int) (addrOk : Bool) :
    Option (KState × Code) :=
  if ¬ isOkSrcDest srcDest then some (s, .badSrc)
  else if isUser c ∧ fn ≠ .both then some (s, .noPerm)
  else match fn with
    | .receive => s.miniRec c srcDest
    | .send => s.miniSend c srcDest addrOk
    | .both =>
      match s.miniSend c srcDest addrOk with
      | none => none
      | some (s, .ok) => s.miniRec c srcDest
      | some (s, code) => some (s, code)

/-! ## Exit -/

/-- The process before `rc` in a chain, or nothing when `rc` is not in it. -/
def beforeSender (s : KState) (rc : Proc) : Nat → Proc → Option (Option Proc)
  | 0, _ => none
  | n + 1, np =>
    match s.mx.sendlink np with
    | none => some none
    | some xp => if xp = rc then some (some np) else beforeSender s rc n xp

/-- The loop of `do_xit` over the process table that takes `rc` out of the chains;
    it stops at the first chain that `rc` heads. -/
def leaveCallers (rc : Proc) : List Proc → KState → Option KState
  | [], s => some s
  | rp :: rps, s =>
    match s.mx.callerq rp with
    | none => leaveCallers rc rps s
    | some head =>
      if head = rc then some (s.setCallerq rp (s.mx.sendlink rc))
      else match s.beforeSender rc 44 head with
        | none => none
        | some none => leaveCallers rc rps s
        | some (some np) => leaveCallers rc rps (s.setSendlink np (s.mx.sendlink rc))

/-- The end of `do_xit`: the signals of `rc` are forgotten, and its slot is free. -/
def freeSlot (s : KState) (rc : Proc) : KState :=
  { s.updProc rc (fun r => { r with realtime := false }) with mx := { s.mx with
      sigProcs := if (s.mx.flags rc).pending then s.mx.sigProcs - 1 else s.mx.sigProcs,
      pending := update s.mx.pending rc ∅,
      pendcount := update s.mx.pendcount rc 0,
      flags := update s.mx.flags rc { PFlags.clear with slotFree := true } } }

/-- `do_xit`. -/
def doXit (s : KState) (parent nr : Int) : Option (KState × Code) :=
  if ¬ (0 ≤ parent ∧ parent < 32) ∨ ¬ (0 ≤ nr ∧ nr < 32) then some (s, .badProc)
  else match procAddr nr with
    | none => none
    | some rc => do
        let s ← s.unreadyIfZero rc
        let s ← (if (s.mx.flags rc).sending then leaveCallers rc (List.finRange 43) s else some s)
        some (s.freeSlot rc, .ok)

end KState

end Kernel
