import Minix4rt.MessageConservationProofs

/-! # The timeout of a request that waits for its reply

    `rtk_rqrcv` queues its request and waits, with ONE timer, until the request is taken
    and then until the reply comes.  When the timer expires with the request still in the
    queue, `MRT_act_sndrcv` has to take that request back.

    The entry is named by the parameter of the timer.  `VTSET` writes 0 there after
    `rtk_rqrcv` has written the index, so the timeout is right for the entry 0 only. -/

namespace Kernel

open ListPool Vtimer KState TimerSt Function Option

variable {x : Option Proc} {s s' s₀ : KState} {p d : Proc} {q : MsgQ} {k : Mqe} {v : Env} {w : VT}
variable {O : VT → Prop} {b : Bool}

/-! ## What the timeout is for -/

/-- `p` waits with a finite timeout for the reply to the request in the entry `k`, which is
    still in a queue, and its timer has expired. -/
structure Overdue (s : KState) (p : Proc) (k : Mqe) (w : VT) : Prop where
  timer : (s.procs p).ipcvt = some w
  action : (s.tm.vt w).action = .sndrcv
  expired : ∃ l, s.tm.place w = some (.exp l)
  waits : (s.procs p).st.mbxSnd = true
  request : (s.ms.hdr k).mtype = .rqrcv
  source : (s.ms.hdr k).src = procNr p

theorem overdue_iff : Overdue s p k w ↔ (s.procs p).ipcvt = some w ∧
    (s.tm.vt w).action = .sndrcv ∧ (∃ l, s.tm.place w = some (.exp l)) ∧
    (s.procs p).st.mbxSnd = true ∧ (s.ms.hdr k).mtype = .rqrcv ∧ (s.ms.hdr k).src = procNr p :=
  ⟨fun h => ⟨h.timer, h.action, h.expired, h.waits, h.request, h.source⟩,
    fun ⟨h1, h2, h3, h4, h5, h6⟩ => ⟨h1, h2, h3, h4, h5, h6⟩⟩

instance : Decidable (Overdue s p k w) := decidable_of_iff _ overdue_iff.symm

/-- The entry `k` goes from its queue to the end of the free list, no other entry is
    touched, and `p` is released from both waits with `E_MRT_TIMEOUT`. -/
structure TakenBack (s s' : KState) (p : Proc) (k : Mqe) : Prop where
  lists : ∀ i, s'.ms.pool.list i =
    if i = .plain () then (s.ms.pool.list i).erase k ++ [k] else (s.ms.pool.list i).erase k
  reset : s'.ms.hdr k = Hdr.rst
  others : ∀ i, i ≠ k → s'.ms.hdr i = s.ms.hdr i
  waits : (s'.procs p).st = { (s.procs p).st with mbxSnd := false, mbxRcv := false }
  free : (s'.procs p).pto = none ∧ (s'.procs p).pfrom = none
  code : s'.retreg p = some .timeout

/-- The ready list of the priority of `p` has a last process if it has a first one, so
    that `MRT_ready` can append `p`. -/
def Linkable (s : KState) (p : Proc) : Prop :=
  (s.rq.pool.papp none p (s.rq.prio p)).isSome = true

instance : Decidable (Linkable s p) := inferInstanceAs (Decidable (_ = _))

/-! ## Taking an entry back -/

/-- The request is in the queue of the process that its sender waits for. -/
theorem Overdue.place (ho : Overdue s p k w) (h : MsgOk none s) :
    ∃ d q l, (s.procs p).pto = some d ∧ (s.procs d).pmq = some q ∧
      s.ms.level q k = some l ∧ entryPlace s k = some (.level q l) := by
  have hsync : (s.ms.hdr k).mtype.Sync := .inr ho.request
  obtain ⟨p', d, hsrc, hdst, hw⟩ := h.sync k hsync
  rw [ho.source, procNr_inj] at hsrc
  subst hsrc
  obtain ⟨d', q, _, hd', hq, -⟩ := h.dst k hsync.queued
  rw [hdst, procNr_inj] at hd'
  subst hd'
  obtain ⟨l, hl, hpl⟩ := h.place hsync.queued hdst hq
  exact ⟨d, q, l, (hw.resolve_left (by simp)).2, hq, hl, hpl⟩

/-- `MRT_mqe_rmv` and `MRT_mqe_free` of an entry in its queue: both succeed, and the entry
    moves to the end of the free list. -/
theorem MsgOk.rmv_free {l : Prty} (h : MsgOk x s) (hl : s.ms.level q k = some l)
    (hk : entryPlace s k = some (.level q l)) :
    ∃ m m', s.ms.mqeRmv q k = some m ∧ m.mqeFree k = some m' ∧
      m'.hdr = update s.ms.hdr k Hdr.rst ∧ ∀ i, m'.pool.list i =
        if i = .plain () then (s.ms.pool.list i).erase k ++ [k] else
          (s.ms.pool.list i).erase k := by
  have hm : s.ms.mqeRmv q k = some ({ s.ms with pool := s.ms.pool.prmv q k l }.updQ q
      (fun r => { r with delivered := r.delivered + 1 })) := by
    rw [MsgSt.mqeRmv, hl]
    rfl
  have hnone : update (entryPlace s) k none k = none := update_self _ _ _
  have hrmv := h.pool.prmv hk
  obtain ⟨P, hP, -⟩ := (hrmv.rstLink hnone).app () hnone
  refine ⟨_, _, hm, by rw [MsgSt.mqeFree, MsgSt.mqeRst]; exact congrArg (Option.map _) hP, rfl,
    fun i => ?_⟩
  show P.list i = _
  rw [(hrmv.rstLink hnone).list_app hnone hP i, hrmv.list_rstLink hnone i, h.pool.list_prmv hk i]

/-- The parameter of the timer of `rtk_rqrcv` is 0, whatever entry was allocated. -/
theorem Overdue.param (ho : Overdue s p k w) (h : IpcOk O b x s) :
    procAddr (s.tm.vt w).owner = some p ∧ (s.tm.vt w).param = 0 := by
  obtain ⟨l, hpl⟩ := ho.expired
  obtain ⟨-, hown, -⟩ := h.timers.own p w ho.timer
  have harm : Armed (s.tm.place w) := by
    rw [hpl]
    exact ⟨by simp, by simp⟩
  refine ⟨by rw [hown, procAddr_procNr], ?_⟩
  rcases h.timers.armed w harm with ⟨p', -, -, hb⟩ | ⟨-, hact⟩
  · rw [ho.action] at hb
    exact hb.2
  · rw [ho.action] at hact
    cases hact

/-- What the timeout does when it returns: the entry 0 is unlinked and freed. -/
theorem Overdue.acts (ho : Overdue s p k w) (h : IpcOk O b none s)
    (ha : s.actSndrcv v (s.tm.vt w) = some s') :
    (∃ d q m, (s.procs p).pto = some d ∧ (s.procs d).pmq = some q ∧
      s.ms.mqeRmv q 0 = some m ∧ m.mqeFree 0 = some s'.ms) ∧
    s'.procs p = { s.procs p with
      pto := none, pfrom := none,
      st := { (s.procs p).st with mbxSnd := false, mbxRcv := false } } ∧
    s'.retreg p = some .timeout := by
  obtain ⟨hown, hparam⟩ := ho.param h
  have hret : s'.retreg p = some .timeout := by
    obtain ⟨p', s1, s2, s3, hp', -, -, -, rfl⟩ := actSndrcv_inv ha
    cases hown.symm.trans hp'
    exact update_self _ _ _
  obtain ⟨p', hp', -, hcase⟩ := actSndrcv_core ha
  cases hown.symm.trans hp'
  rcases hcase with ⟨-, s1, hc, hms, hpr⟩ | ⟨hs, -, -⟩
  · rw [hparam] at hc
    obtain ⟨k', d, q, m, hk', hd, hq, hm, hf, -⟩ := cancelSend_inv hc
    cases hk'
    refine ⟨⟨d, q, m, hd, hq, hm, by rw [hms]; exact hf⟩, ?_, hret⟩
    rw [hpr, update_self]
  · rw [ho.waits] at hs
    cases hs

theorem Overdue.takenBack (ho : Overdue s p k w) (h : IpcOk O b none s)
    (ha : s.actSndrcv v (s.tm.vt w) = some s') (hk : k = 0) :
    TakenBack s s' p k := by
  subst hk
  obtain ⟨⟨d, q, m, hd, hq, hm, hf⟩, hp, hret⟩ := ho.acts h ha
  obtain ⟨d', q', l, hd', hq', hl, hpl⟩ := ho.place h.msgs
  cases hd.symm.trans hd'
  cases hq.symm.trans hq'
  obtain ⟨m1, m2, hm1, hm2, hhdr, hlists⟩ := h.msgs.rmv_free hl hpl
  cases hm.symm.trans hm1
  have hms : s'.ms = m2 := some.inj (hf.symm.trans hm2)
  refine ⟨?_, ?_, ?_, ?_, ?_, hret⟩
  · rw [hms]
    exact hlists
  · rw [hms, hhdr, update_self]
  · intro i hi
    rw [hms, hhdr, update_of_ne hi]
  · rw [hp]
  · rw [hp]
    exact ⟨rfl, rfl⟩

/-- A request in another entry keeps its header. -/
theorem Overdue.zero_of_takenBack (ho : Overdue s p k w) (h : IpcOk O b none s)
    (ha : s.actSndrcv v (s.tm.vt w) = some s') (ht : TakenBack s s' p k) : k = 0 := by
  obtain ⟨⟨d, q, m, -, -, hm, hf⟩, -, -⟩ := ho.acts h ha
  obtain ⟨l, -, rfl⟩ := map_eq_some_iff.mp hm
  obtain ⟨P, -, hs'⟩ := map_eq_some_iff.mp hf
  by_contra hne
  have hk : s'.ms.hdr k = s.ms.hdr k := by
    rw [← hs']
    exact update_of_ne hne _ _
  have hreset := ht.reset
  rw [hk] at hreset
  have hreq := ho.request
  rw [hreset] at hreq
  cases hreq

/-- The timeout returns, if the priority of the destination is not to be rolled back and
    the caller can be appended to its ready list. -/
theorem Overdue.returns (ho : Overdue s p k w) (h : IpcOk O b none s) (hk : k = 0)
    (hb : s.bpip = false) (hl : Linkable s p) :
    ∃ s', s.actSndrcv v (s.tm.vt w) = some s' := by
  subst hk
  obtain ⟨hown, hparam⟩ := ho.param h
  obtain ⟨d, q, l, hd, hq, hlev, hpl⟩ := ho.place h.msgs
  obtain ⟨m, m', hm, hm', -, -⟩ := h.msgs.rmv_free hlev hpl
  have hc : s.cancelSend p 0 = some { s with ms := m' } := by
    have h0 : tabAddr 32 0 = some (0 : Mqe) := rfl
    simp only [cancelSend, h0, hd, hq, hm, hm', bind_eq_bind, bind_some]
  obtain ⟨P, hP⟩ := isSome_iff_exists.mp hl
  have hdis : ∀ t : KState, t.bpip = s.bpip → ∀ o j, t.disinherit o j = some t := by
    intro t ht o j
    rw [KState.disinherit, ht, hb]
    rfl
  have hend : ∀ t : KState, t.rq = s.rq →
      ∃ s', ((t.readyOnTimeout p).bind fun t => some (t.setRet p .timeout)) = some s' := by
    intro t ht
    rw [readyOnTimeout, rdyQApp, ht, hP]
    split
    · split <;> exact ⟨_, rfl⟩
    · exact ⟨_, rfl⟩
  simp only [actSndrcv, hown, hparam, ho.waits, hc, bind_eq_bind, bind_some,
    if_true, map_some]
  rw [hdis]
  · exact hend _ rfl
  · rfl

/-! ## The timeout is right for the entry 0 -/

/-- **A REQUEST IS TAKEN BACK IF ITS ENTRY IS THE ENTRY 0**, and only then: in every state of
    every run whose events meet the condition, when the timer of a process expires whose
    request is still in a queue. -/
theorem overdue_request_taken_back (h0 : Initial s₀) (h : ReachBy Quiet s₀ s)
    (ho : Overdue s p k w) :
    (∀ s', s.actSndrcv v (s.tm.vt w) = some s' → (TakenBack s s' p k ↔ k = 0)) ∧
      (k = 0 → s.bpip = false → Linkable s p → ∃ s', s.actSndrcv v (s.tm.vt w) = some s') := by
  have hi := h.ipcOk h0
  exact ⟨fun s' ha => ⟨ho.zero_of_takenBack hi ha, ho.takenBack hi ha⟩, ho.returns hi⟩

/-- Process 15 sends a request to 16, which does not wait, and the timer expires. -/
theorem overdue_request_taken_back_first :
    ∃ s s' w, ReachBy Quiet boot s ∧ Overdue s 15 0 w ∧
      s.actSndrcv goodEnv (s.tm.vt w) = some s' ∧ TakenBack s s' 15 0 := by
  obtain ⟨s, h, ho, hb, hl⟩ : ∃ s, ReachBy Quiet boot s ∧
      Overdue s 15 0 1 ∧ s.bpip = false ∧ Linkable s 15 :=
    ReachBy.of_run (threeRt ++ [.rtk 15 goodEnv (.rqrcv (withProc 16 1)), .tick])
      (by decide +kernel)
  have ht := overdue_request_taken_back (v := goodEnv) boot_initial h ho
  obtain ⟨s', hs'⟩ := ht.2 rfl hb hl
  exact ⟨s, s', 1, h, ho, hs', (ht.1 s' hs').mpr rfl⟩

/-- **THE REQUEST OF ANOTHER PROCESS IS TAKEN BACK.**  The entry 0 holds the request of 14,
    the entry 1 that of 15, whose timer expires.  The entry 0 is freed; the entry 1 stays in
    the queue of 16. -/
theorem overdue_request_stays :
    (boot.runBy Quiet (threeRt ++ [.rtk 14 goodEnv (.rqst (withProc 16 forever)),
        .rtk 15 goodEnv (.rqrcv (withProc 16 1)), .tick])).any (fun s =>
      decide (Overdue s 15 1 1 ∧ (s.ms.hdr 0).src = procNr 14 ∧
        s.ms.pool.list (.level 2 0) = [0, 1]) &&
      (s.actSndrcv goodEnv (s.tm.vt 1)).any (fun s' =>
        decide (s'.ms.hdr 0 = Hdr.rst ∧ s'.ms.hdr 1 = s.ms.hdr 1 ∧
          s'.ms.pool.list (.level 2 0) = [1]))) = true := by
  decide +kernel

end Kernel
