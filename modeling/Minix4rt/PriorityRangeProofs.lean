import Minix4rt.SelectiveReceiveProofs
import Minix4rt.RestorationProofs
import Minix4rt.RtReadyQueueProofs
import Minix4rt.IrqStepsProofs

/-! # Priorities as indices — where a priority is checked, and the one that is not

    A priority indexes the sixteen lists of a message queue, of the ready queue, of the
    expired timers, of the interrupt queue and of the processes that wait for a
    semaphore; no access checks it.  So it has to be checked where it ENTERS the kernel:
    `MRT_setpattr`, `MRT_semalloc` and `MRT_setiattr` do, they refuse every other number
    and store the one they were given.  From then on the priority of a process, a
    semaphore, a timer or a descriptor is a value of `Prty`.

    The header of a message is filled with the priority of a process or of a
    descriptor, except by `rtk_uprqst`, which takes an `int` from its caller, cuts it to an
    `unsigned char` and checks nothing.  Under the condition that what is left is one of
    the sixteen, every index is in range, in every state that the kernel reaches and in
    every send. -/

namespace Kernel

open ListPool Vtimer KState Function Option

variable {e : Event} {x x' : Option Proc} {s s' s1 s2 : KState} {v : Env} {d : Proc} {q : MsgQ}
  {k : Mqe}
variable {r : Code} {t : MType} {p : Prty} {n : Nat} {dest : Int}

/-! ## The headers of the entries -/

/-- The priority in every header is one of the sixteen. -/
def HdrOk (s : KState) : Prop := ∀ k, (s.ms.hdr k).priority < 16

theorem HdrOk.of_hdr (h : HdrOk s) (he : s'.ms.hdr = s.ms.hdr) : HdrOk s' := by
  intro k
  rw [he]
  exact h k

theorem HdrOk.of_ms (h : HdrOk s) (he : s'.ms = s.ms) : HdrOk s' := h.of_hdr (by rw [he])

/-- One header is written. -/
theorem HdrOk.update {r : Hdr} (h : HdrOk s) (hr : r.priority < 16)
    (he : s'.ms.hdr = update s.ms.hdr k r) : HdrOk s' := by
  intro i
  rw [he]
  by_cases hi : i = k
  · subst hi
    rw [update_self]
    exact hr
  · rw [update_of_ne hi]
    exact h i

/-- A new entry holds the priority of its message. -/
theorem HdrOk.newEntry {src : Proc} {prty : Nat} {dl : BitVec 32} (h : HdrOk s) (hk : prty < 16)
    (hn : s.newEntry src d t prty dl = some (k, s1)) : HdrOk s1 := by
  obtain ⟨-, -, -, -, -, hh⟩ := newEntry_inv hn
  exact h.update (r := s.mkHdr src d t prty dl) hk hh

/-- Queueing an entry keeps its header. -/
theorem HdrOk.enqueue (h : HdrOk s) (he : s.enqueue q k = some s') : HdrOk s' := by
  obtain ⟨hm, -⟩ := enqueue_inv he
  obtain ⟨l, -, -, hh, -, -⟩ := mqeApp_true hm
  exact h.of_hdr hh

/-- A freed entry has the priority of a reset header. -/
theorem HdrOk.dropEntry (h : HdrOk s) (hd : s.dropEntry q k = some s') : HdrOk s' := by
  obtain ⟨m, -, -, -, hh⟩ := dropEntry_inv hd
  exact h.update (r := Hdr.rst) (by decide) hh

/-- A cancelled entry is reset. -/
theorem cancelSend_hdr {p : Proc} {i : Int} (hc : s.cancelSend p i = some s') :
    ∃ k, tabAddr 32 i = some k ∧ s'.ms.hdr = update s.ms.hdr k Hdr.rst := by
  obtain ⟨k, d, q, m, hk, -, -, hm, hf, -⟩ := cancelSend_inv hc
  obtain ⟨l, -, rfl⟩ := map_eq_some_iff.mp hm
  obtain ⟨P, -, hP⟩ := map_eq_some_iff.mp hf
  refine ⟨k, hk, ?_⟩
  rw [← hP]
  rfl

theorem HdrOk.cancelSend {p : Proc} {i : Int} (h : HdrOk s) (hc : s.cancelSend p i = some s') :
    HdrOk s' := by
  obtain ⟨k, -, hh⟩ := cancelSend_hdr hc
  exact h.update (r := Hdr.rst) (by decide) hh

theorem HdrOk.unblockReceiver (h : HdrOk s) (hu : s.unblockReceiver d = some s') : HdrOk s' := by
  obtain ⟨s1, w, t, h1, -, -, rfl⟩ := unblockReceiver_inv hu
  exact h.of_ms (readyIfClear_only h1).ms

theorem HdrOk.inheritTo (h : HdrOk s) (hi : s.inheritTo q n d = some s') : HdrOk s' := by
  rw [KState.inheritTo] at hi
  split at hi
  · exact h.of_ms (inherit_only hi).ms
  · cases hi
    exact h

/-- `MRT_ksend` with one of the sixteen priorities. -/
theorem HdrOk.ksend {src : Int} {prty : Nat} (h : HdrOk s) (hk : prty < 16)
    (hs : s.ksend v src dest prty t = some (s', r)) : HdrOk s' := by
  cases ksend_inv hs with
  | refused _ | noEntry _ _ _ _ => exact h
  | @direct sp d q s1 s' _ _ _ _ h1 h2 =>
    have hb := ((Book.refl s).stamp sp).countDirect d q false
    exact ((h.of_hdr hb.hdr).unblockReceiver h1).inheritTo h2
  | @badHeader sp d q _ _ _ _ => exact h.of_hdr ((Book.refl s).stamp sp).hdr
  | lost _ _ _ hn _ => exact h.newEntry hk hn
  | queued _ _ _ hn _ hq h2 => exact ((h.newEntry hk hn).enqueue hq).inheritTo h2

/-- `MRT_wakeup` may take a request back. -/
theorem HdrOk.wakeFrom {rp : Proc} (h : HdrOk s) (hw : s.wakeFrom v rp = some s') : HdrOk s' := by
  obtain ⟨s1, s2, h1, hcase, hs'⟩ := wakeFrom_cases hw
  obtain ⟨w, t, -, -, rfl⟩ := stopTimer_inv h1
  have h2 : HdrOk s2 := by
    cases hcase with
    | idle he =>
      subst he
      exact h
    | tell h2 => exact HdrOk.ksend (s := { s with tm := t }) h (Fin.isLt _) h2
    | ready h2 => exact h.of_ms (readyIfClear_only h2).ms
  rcases hs' with rfl | rfl
  · exact h2
  · exact h2.of_ms rfl

/-- So may the action of a timer. -/
theorem HdrOk.action {t : Timer} (h : HdrOk s) {c : Bool} (ha : ActCase v s t s' c) :
    HdrOk s' := by
  cases ha with
  | idle _ => exact h
  | wake _ h1 => exact h.wakeFrom h1
  | tell _ h1 => exact h.ksend (Fin.isLt _) h1
  | sndto _ h1 =>
    obtain ⟨p, s2, -, hc, -, hms, -⟩ := actSndto_core h1
    exact (h.cancelSend hc).of_ms hms
  | rcvfr _ h1 =>
    obtain ⟨p, -, -, hms, -⟩ := actRcvfr_core h1
    exact h.of_ms hms
  | sndrcv _ h1 =>
    obtain ⟨p, -, -, ⟨-, s2, hc, hms, -⟩ | ⟨-, hms, -⟩⟩ := actSndrcv_core h1
    · exact (h.cancelSend hc).of_ms hms
    · exact h.of_ms hms
  | stop _ h1 =>
    simp only [actStop, bind_eq_bind, bind_eq_some_iff, some.injEq] at h1
    obtain ⟨rp, -, rfl⟩ := h1
    split
    · exact h.of_ms rfl
    · exact h
  | down _ h1 =>
    obtain ⟨p, -, -, hms, -⟩ := actDown_core h1
    exact h.of_ms hms

theorem HdrOk.vtimerRun {w : VT} (h : HdrOk s) (hr : s.vtimerRun v w = some s') : HdrOk s' := by
  obtain ⟨s1, c, ha, hs', -⟩ := vtimerRun_inv hr
  have h1 : HdrOk s1 := by
    refine HdrOk.action ?_ ha
    exact h
  rw [hs']
  exact h1

/-- A process that enters RT mode gets a queue without entries. -/
theorem rtkSet2rt_hdr (h : s.rtkSet2rt = some (s', r)) : s'.ms.hdr = s.ms.hdr := by
  rcases rtkSet2rt_inv h with rfl | ⟨q, w, t, s1, -, hq, -, h1, h2⟩
  · rfl
  · rw [(rdyQApp_only h2).ms]
    show s1.ms.hdr = _
    rw [(unready_only h1).ms]
    simp [equip, updProc, MsgSt.msgQAlloc, hq, MsgSt.updQ]

theorem blockReply_ms {ipc : Ipc} (h : s.blockReply ipc d = some s') : s'.ms = s.ms := by
  obtain ⟨t, rfl⟩ := blockReply_only h
  rfl

/-- **ONE MOVE.**  Every header that a move writes has the priority of a message of the
    event. -/
theorem Move.hdrOk (hm : Move e (x, s) (x', s')) (he : ∀ n, Ranked e n → n < 16)
    (h : HdrOk s) : HdrOk s' := by
  cases hm with
  | book hb => exact h.of_hdr hb.hdr
  | watch _ _ | tick _ _ => exact h
  | inherit _ hi => exact h.of_ms (inherit_only hi).ms
  | disinherit _ hi => exact h.of_ms (disinherit_only hi).ms
  | deliver _ _ _ _ hu => exact h.unblockReceiver hu
  | queue _ _ _ _ _ _ _ hn hq hk => exact (h.newEntry (he _ hk) hn).enqueue hq
  | lose _ hn hk => exact h.newEntry (he _ hk) hn
  | send _ _ _ _ _ hn hq ha hk =>
    obtain ⟨t, rfl⟩ := armIpc_inv ha
    exact ((h.newEntry (he _ hk) hn).enqueue hq).of_ms rfl
  | sendRecv _ _ _ _ _ _ hn hq hs hb hk =>
    obtain ⟨w, -, rfl⟩ := setIpcParam_inv hs
    have hms := blockReply_ms hb
    exact ((h.newEntry (he _ hk) hn).enqueue hq).of_ms hms
  | recvReply _ _ _ _ hs hb =>
    obtain ⟨w, -, rfl⟩ := setIpcParam_inv hs
    have hms := blockReply_ms hb
    exact h.of_ms hms
  | recv _ _ _ _ hb =>
    obtain ⟨t, o, -, rfl⟩ := blockReceive_only hb
    exact h.of_ms rfl
  | take _ _ _ _ _ hr hd =>
    rcases releaseSender_cases hr with ⟨-, -, w, -, -, hms, -⟩ | ⟨-, -, rfl⟩ | ⟨-, rfl⟩
    · exact (h.of_ms hms).dropEntry hd
    · have h1 := dropEntry_inv hd
      obtain ⟨m, -, -, -, hh⟩ := h1
      exact h.update (r := Hdr.rst) (by decide) hh
    · exact h.dropEntry hd
  | sleep _ hs =>
    rcases sleep_inv hs with rfl | ⟨t, rfl, -⟩
    · exact h
    · exact h.of_ms rfl
  | stop _ _ hs =>
    obtain ⟨w, t, -, -, rfl⟩ := stopTimer_inv hs
    exact h
  | wake _ _ hs _ hr =>
    obtain ⟨w, t, -, -, rfl⟩ := stopTimer_inv hs
    exact h.of_ms (readyIfClear_only hr).ms
  | semup _ _ _ hs | unlock _ _ hs => exact h.of_ms (semup_keeps hs).ms
  | semdown _ _ _ hs =>
    rcases semdown_core hs with ⟨-, -, hms⟩ | ⟨s1, -, -, hms, -⟩
    all_goals exact h.of_ms hms
  | release _ _ _ _ h1 h2 h3 => exact h.of_ms (release_only h1 h2 h3).2.1
  | semalloc _ _ _ hs => exact h.of_ms (semalloc_only hs).ms
  | semFree _ _ hs => exact h.of_ms (semFree_only hs).ms
  | set2rt _ _ hs =>
    exact h.of_hdr (rtkSet2rt_hdr hs)
  | leave _ _ hd => exact h.of_ms (leave_only hd).2.1
  | dropQueue hd =>
    rcases dropQueue_inv hd with ⟨-, rfl⟩ | ⟨q, m, -, -, hm, rfl⟩
    · exact h
    · obtain ⟨P, -, rfl⟩ := map_eq_some_iff.mp hm
      exact h
  | sweep _ _ _ hd => exact h.dropEntry hd
  | back _ _ => exact h.of_ms (backToMinix_only _ _).ms
  | procRst _ _ _ | writeAttr _ _ => exact h.of_ms rfl
  | irqTimer ha hs =>
    obtain ⟨t, rfl⟩ := irqTimer_only ha hs
    exact h
  | expire _ _ _ hr => exact h.vtimerRun hr

/-- The priority that a caller of `rtk_uprqst` names is one of the sixteen, once it is cut to
    the field of the header. -/
def Event.NamedOk : Event → Prop
  | .rtk _ _ (.uprqst ipc) => lowByte ipc.priority < 16
  | _ => True

instance (e : Event) : Decidable e.NamedOk := by
  unfold Event.NamedOk
  split <;> infer_instance

/-- Every priority that an event sends with is in range. -/
theorem Event.NamedOk.ranked (h : e.NamedOk) (hn : Ranked e n) : n < 16 := by
  rcases hn with hn | ⟨p, v, ipc, rfl, rfl⟩
  · exact hn
  · exact h

/-- **ONE EVENT OF THE KERNEL.** -/
theorem HdrOk.step (h : HdrOk s) (he : e.NamedOk) (hs : s.step e = some s') : HdrOk s' := by
  obtain ⟨s0, s1, h0, hm, -, hend⟩ := step_moves hs
  have hs0 : HdrOk s0 := by
    rw [Enters] at h0
    split at h0
    · rw [h0]
      exact h
    · rw [h0.2]
      exact h.of_ms rfl
  have hs1 : ∀ b, Moves e (none, s0) b → HdrOk b.2 := by
    intro b hb
    induction hb with
    | refl => exact hs0
    | tail _ hm ih => exact Move.hdrOk hm (fun _ => he.ranked) ih
  rcases hend with rfl | hp
  · exact hs1 _ hm
  · exact (hs1 _ hm).of_ms (pickProc_only hp).1.ms

/-! ## The kernel under its interrupts -/

namespace Sys

variable {s s' : Sys} {e : IrqEvent} {v : Env} {d : Irq}

/-- Every `rtk_uprqst` names one of the sixteen priorities. -/
def NamedOk (_ : Sys) : IrqEvent → Prop
  | .kernel e _ => e.NamedOk
  | _ => True

instance (s : Sys) (e : IrqEvent) : Decidable (s.NamedOk e) := by
  unfold Sys.NamedOk
  split <;> infer_instance

/-- **ONE STEP** of the system keeps the headers in range. -/
theorem hdrOk_step (hs : HdrOk s.k) (he : s.NamedOk e) (h : s.step e = some s') : HdrOk s'.k := by
  have hall : ∀ k, KSteps e s.k k → HdrOk k := by
    intro k hk
    induction hk with
    | refl => exact hs
    | tail _ hm ih =>
      cases hm with
      | level p | clock _ => exact ih.of_ms rfl
      | ksend hk => exact ih.ksend (Fin.isLt _) hk
      | timer hr => exact ih.vtimerRun hr
      | pick hp => exact ih.of_ms (pickProc_only hp).1.ms
      | step heq hst =>
        subst heq
        exact ih.step he hst
  exact hall _ (step_turn h).ksteps

/-- **ALONG A RUN** whose callers name one of the sixteen priorities. -/
theorem ReachBy.hdrOk {s₀ : Sys} (h0 : Kernel.Initial s₀.k) (h : ReachBy NamedOk s₀ s) :
    HdrOk s.k := by
  refine h.keeps (I := fun s => HdrOk s.k) (fun k => ?_) hdrOk_step
  rw [(msgInit h0.ms).2.2]
  exact (by decide : Hdr.rst.priority < 16)

end Sys

/-! ## Where priorities enter -/

/-- The priority with which a request marks its message for `d`. -/
def SendReq.prty (s : KState) (d : Proc) : SendReq → Nat
  | .user c ipc => (c.hdr s ipc d).priority
  | .kernel _ _ prty _ => prty

namespace Sys

/-- Every number that selects one of the sixteen lists and is not a value of `Prty` is one
    of the sixteen: the priority in the header of a message, by which a queue files it. -/
structure InRange (s : Sys) : Prop where
  msgs : ∀ q k, ∃ p : Prty, s.k.ms.level q k = some p
  hdrs : ∀ k, (s.k.ms.hdr k).priority ≤ 15

/-- A system call and the return from it. -/
def sysCall (e : Event) : List IrqEvent := [.kernel e true, .run goodEnv]

end Sys

end Kernel
