import Minix4rt.KernelMovesProofs

/-! # What a failed send leaves behind

    The six sends check their destination first and change nothing until then.  The
    copies to and from user memory come later, and the macros that make them return
    `EINVAL` out of the middle of the function: the message counters have already been
    advanced, and a send that was going to queue its message has taken an entry from the
    pool, which nobody gives back.  All other errors leave the kernel as it was; a failed
    `rtk_reply` may also have lowered the priority of its caller. -/

namespace Kernel

open ListPool Vtimer KState Function Option

variable {s s' : KState} {v : Env} {ipc : Ipc}

/-- The address of a user buffer is rejected after the send to `d` has begun: that of the
    message, or that of the header of the process it is handed to. -/
def KState.CopyFails (v : Env) (s : KState) (any nowait : Bool) (d : Proc) : Prop :=
  if s.waiting d any then ¬ (v.msg s.cur = true ∧ v.hdr d = true)
  else nowait = false ∧ s.ms.pool.first () ≠ none ∧ v.msg s.cur = false

/-- **THE BAD ADDRESS**: the checks of the destination succeed, and then a copy fails. -/
def SendCall.Rejected (v : Env) (s : KState) (ipc : Ipc) (c : SendCall) : Prop :=
  ¬ (c = .rqrcv ∧ ipc.timeout = noWait) ∧
    ∃ d q, s.destCheck ipc.pNr (some ipc.pid) = some (.ok (d, q)) ∧
      s.CopyFails v c.any (c.nowait ipc) d

/-- The entries with the free list and the queues, the processes with their blocking
    states, the timers and the counters are as before, and so are the priorities; only
    `rtk_reply` may change that of its caller. -/
structure Untouched (c : SendCall) (s s' : KState) : Prop where
  ms : s'.ms = s.ms
  procs : s'.procs = s.procs
  tm : s'.tm = s.tm
  msgsent : s'.msgsent = s.msgsent
  msgrcvd : s'.msgrcvd = s.msgrcvd
  prio : ∀ p, (c = .reply → p ≠ s.cur) → s'.rq.prio p = s.rq.prio p

theorem Untouched.refl (c : SendCall) (s : KState) : Untouched c s s :=
  ⟨rfl, rfl, rfl, rfl, rfl, fun _ _ => rfl⟩

/-! ## Errors -/

/-- An error of the common part: nothing has happened, or a message has been counted. -/
theorem sendMsg_err {t : MType} {prty : Nat} {dl : BitVec 32} {any nowait : Bool} {d : Proc}
    {q : MsgQ} {c : Code} (h : s.sendMsg v t prty dl any nowait d q = some (s', .err c)) :
    (¬ s.CopyFails v any nowait d ∧ s' = s) ∨
      (s.CopyFails v any nowait d ∧ s'.ms.messages = s.ms.messages + 1) := by
  rw [sendMsg] at h
  split at h
  · rename_i hw
    simp only [CopyFails, hw, if_true]
    split at h
    · obtain ⟨s1, -, he⟩ := map_eq_some_iff.mp h
      cases he
    · rename_i hv
      cases h
      exact .inr ⟨hv, rfl⟩
  rename_i hw
  simp only [CopyFails, hw, Bool.false_eq_true, if_false]
  split at h
  · rename_i hn
    cases h
    exact .inl ⟨fun hf => Bool.noConfusion (hf.1.symm.trans hn), rfl⟩
  rename_i hn
  rw [newEntry, MsgSt.mqeAlloc] at h
  cases hf : s.ms.pool.first () with
  | none =>
    simp only [hf] at h
    cases h
    exact .inl ⟨fun hc => hc.2.1 rfl, rfl⟩
  | some k =>
    simp only [hf] at h
    split at h
    · obtain ⟨s1, -, he⟩ := map_eq_some_iff.mp h
      cases he
    · rename_i hv
      cases h
      have hv : v.msg s.cur = false := Bool.eq_false_of_not_eq_true hv
      exact .inr ⟨⟨by simpa using hn, by rintro ⟨⟩, hv⟩, rfl⟩

/-- The errors of a send that has found its destination. -/
theorem untouched_sendMsg {c : SendCall} {t : MType} {prty : Nat} {dl : BitVec 32} {d : Proc}
    {q : MsgQ} {r : Code} (hrq : ¬ (c = .rqrcv ∧ ipc.timeout = noWait))
    (hd : s.destCheck ipc.pNr (some ipc.pid) = some (.ok (d, q)))
    (h : s.sendMsg v t prty dl c.any (c.nowait ipc) d q = some (s', .err r)) :
    Untouched c s s' ↔ ¬ c.Rejected v s ipc := by
  have hrej : c.Rejected v s ipc ↔ s.CopyFails v c.any (c.nowait ipc) d := by
    constructor
    · rintro ⟨-, d', q', hd', hf⟩
      rw [hd] at hd'
      cases hd'
      exact hf
    · exact fun hf => ⟨hrq, d, q, hd, hf⟩
  rw [hrej]
  rcases sendMsg_err h with ⟨hno, rfl⟩ | ⟨hf, hm⟩
  · exact iff_of_true (.refl c s') hno
  · refine iff_of_false (fun hu => ?_) (not_not.mpr hf)
    have hms := congrArg MsgSt.messages hu.ms
    omega

/-- The errors of the checks. -/
theorem not_rejected_of_error {c : SendCall} {r : Code}
    (hd : s.destCheck ipc.pNr (some ipc.pid) = some (.error r)) : ¬ c.Rejected v s ipc := by
  rintro ⟨-, d, q, hd', -⟩
  rw [hd] at hd'
  cases hd'

theorem moveTo_frame (s : KState) (p : Proc) (k : Prty) :
    (s.moveTo p k).msgsent = s.msgsent ∧ (s.moveTo p k).msgrcvd = s.msgrcvd ∧
      ∀ q, q ≠ p → (s.moveTo p k).rq.prio q = s.rq.prio q := by
  have hp : ∀ q, q ≠ p → update s.rq.prio p k q = s.rq.prio q :=
    fun q hq => update_of_ne hq _ _
  rw [moveTo]
  split <;> exact ⟨rfl, rfl, hp⟩

/-- `MRT_disinherit` of the current process changes its priority at most. -/
theorem disinheritCur_untouched (h : s.disinheritCur v = some s') : Untouched .reply s s' := by
  simp only [disinheritCur, bind_eq_bind, bind_eq_some_iff] at h
  obtain ⟨q, -, h⟩ := h
  split at h
  · rw [KState.disinherit] at h
    split at h
    · cases h
      exact .refl .reply s
    · simp only [bind_eq_bind, bind_eq_some_iff, some.injEq] at h
      obtain ⟨_, -, _, -, p, hp, _, -, _, -, rfl⟩ := h
      cases hp
      split
      · have ho := moveTo_only s s.cur ⟨_, lt_trans ‹_› (s.procs s.cur).base.isLt⟩
        obtain ⟨h1, h2, h3⟩ := moveTo_frame s s.cur _
        exact ⟨ho.ms, ho.procs, ho.tm, h1, h2, fun q hq => h3 q (hq rfl)⟩
      · exact .refl .reply s
  · cases h
    exact .refl .reply s

/-- **A SEND THAT FAILS** leaves the kernel as it was exactly when no address of a user
    buffer was rejected: for every state, every argument and each of the six sends. -/
theorem failed_send_untouched {c : SendCall} {r : Code} (h : c.exec v s ipc = some (s', r))
    (hr : r ≠ .ok) : Untouched c s s' ↔ ¬ c.Rejected v s ipc := by
  cases SendCall.exec_inv h with
  | noWait hc ht => exact iff_of_true (.refl c s) (fun hrej => hrej.1 ⟨hc, ht⟩)
  | refused hd _ => exact iff_of_true (.refl c s) (not_rejected_of_error hd)
  | refusedReply hd hc h1 =>
    -- the priority of the caller is given back also when the reply fails
    subst hc
    exact iff_of_true (disinheritCur_untouched h1) (not_rejected_of_error hd)
  | failed hn hd h1 => exact untouched_sendMsg hn hd h1
  | sent _ _ _ _ _ => exact absurd rfl hr

/-- A send to a process that is no RT process. -/
theorem failed_send_untouched_ptype :
    SendCall.exec goodEnv boot (withProc 15 forever) .arqst = some (boot, .badPtype) ∧
      (Untouched .arqst boot boot ↔
        ¬ SendCall.Rejected goodEnv boot (withProc 15 forever) .arqst) :=
  ⟨rfl, failed_send_untouched (c := .arqst) (r := .badPtype) rfl (by decide)⟩

/-- No copy succeeds. -/
def badEnv : Env := { msg := fun _ => false, hdr := fun _ => false, junk := fun _ => some 0 }

/-- **AN ENTRY IS LOST**: 14 sends to 15, which does not wait, from an address that is not
    its own.  The call returns `EINVAL`; the free list is one entry shorter, the message is
    counted, and it is in no queue. -/
theorem rejected_send_loses_entry :
    (boot.run [.rtk 14 goodEnv .set2rt, .rtk 14 goodEnv (.sleep forever),
        .rtk 15 goodEnv .set2rt, .rtk 15 goodEnv (.wakeup (procNr 14) 114)]).any (fun s =>
      (SendCall.exec badEnv { s with cur := 14 } (withProc 15 forever) .arqst).any (fun r =>
        decide (r.2 = .inval) &&
        decide (r.1.ms.pool.count () + 1 = s.ms.pool.count ()) &&
        decide (∀ q, (r.1.ms.pool.aux q).inQ = (s.ms.pool.aux q).inQ) &&
        decide (r.1.ms.messages = s.ms.messages + 1) &&
        decide (r.1.msgsent 14 = s.msgsent 14 + 1))) = true := by
  decide +kernel

end Kernel
