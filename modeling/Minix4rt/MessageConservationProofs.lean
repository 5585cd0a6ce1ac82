import Minix4rt.IpcInvariantProofs

/-! # Message entries are conserved, and a sender waits for its own message

    Each of the 32 entries is in `mqeL` or in the queue of the process that its header
    names, and in no other list.  A process has `MRT_MBX_SND` set exactly as long as ONE
    request of it is in the queue of the process it waits for.

    Both are read off the IPC invariant, so they hold along every run that meets its
    condition.  The condition is needed: `rtk_rqrcv` overwrites the index of the entry in
    its timer by 0, so its timeout takes back the entry 0, whose sender may be anyone. -/

namespace Kernel

open ListPool Vtimer KState TimerSt Function Option

variable {e : Event} {x : Option Proc} {s s' s₀ : KState} {p d : Proc} {q : MsgQ} {k : Mqe}
variable {O : VT → Prop} {x' : Option Proc}

/-! ## The lists of entries -/

/-- The list `mqeL` and all the lists of the message queues. -/
def entryLists : List (Slot Unit MsgQ 16) :=
  .plain () :: (List.finRange 16).flatMap (fun q => (List.finRange 16).map (Slot.level q))

/-- The lists in which the entry `k` is met, once for every time it is met. -/
def entryOccurs (s : KState) (k : Mqe) : List (Slot Unit MsgQ 16) :=
  s.ms.pool.C.occurs entryLists k

theorem mem_entryLists (i : Slot Unit MsgQ 16) : i ∈ entryLists := by
  cases i with
  | plain u => exact List.mem_cons_self
  | level q l =>
    exact List.mem_cons_of_mem _ (List.mem_flatMap.mpr
      ⟨q, List.mem_finRange q, List.mem_map_of_mem (List.mem_finRange l)⟩)

theorem nodup_entryLists : entryLists.Nodup := by decide +kernel

theorem MsgOk.occurs (h : MsgOk x s) (k : Mqe) : entryOccurs s k = (entryPlace s k).toList := by
  obtain ⟨f, hf, -, hpl⟩ := h.pool
  exact hf.occurs_eq hpl nodup_entryLists mem_entryLists k

/-! ## Conservation -/

/-- The entry is free and in `mqeL` once, or it is once in the queue of the RT process
    that its header names. -/
def Conserved (s : KState) (k : Mqe) : Prop :=
  (s.ms.hdr k).mtype = .mbfree ∧ entryOccurs s k = [.plain ()] ∨
  (s.ms.hdr k).mtype ≠ .mbfree ∧ ∃ d q l, (s.ms.hdr k).dst = procNr d ∧
    (s.procs d).realtime = true ∧ (s.procs d).pmq = some q ∧ entryOccurs s k = [.level q l]

/-- The counters of the lists agree with the entries: an entry freed twice, or unlinked
    from a queue it is not in, would show here. -/
def Counted (s : KState) : Prop :=
  s.ms.pool.count () =
      (Finset.univ.filter (fun k => entryOccurs s k = [.plain ()])).card ∧
    ∀ q, (s.ms.pool.aux q).inQ =
      (Finset.univ.filter (fun k => ∃ l, entryOccurs s k = [.level q l])).card

theorem MsgOk.conserved (h : MsgOk x s) (k : Mqe) : Conserved s k := by
  rw [Conserved, h.occurs]
  by_cases hf : (s.ms.hdr k).mtype = .mbfree
  · refine .inl ⟨hf, ?_⟩
    rw [entryPlace, if_pos hf]
    rfl
  · obtain ⟨d, q, l, hd, hq, -⟩ := h.dst k hf
    obtain ⟨l, -, hpl⟩ := h.place hf hd hq
    refine .inr ⟨hf, d, q, l, hd, h.owner d q hq, hq, ?_⟩
    rw [hpl]
    rfl

theorem MsgOk.counted (h : MsgOk x s) : Counted s := by
  have hone : ∀ k i, entryOccurs s k = [i] ↔ entryPlace s k = some i := by
    intro k i
    rw [h.occurs]
    cases entryPlace s k <;> simp
  constructor
  · rw [h.pool.count_eq ()]
    simp only [hone]
  · intro q
    rw [h.pool.inQ_eq q]
    simp only [hone]

/-- **CONSERVATION OF ENTRIES**: in every state of every run whose events meet the
    condition, every entry is in exactly one place, the one its header names. -/
theorem message_entries_conserved (h0 : Initial s₀) (h : ReachBy Quiet s₀ s) :
    (∀ k, Conserved s k) ∧ Counted s :=
  ⟨(h.ipcOk h0).msgs.conserved, (h.ipcOk h0).msgs.counted⟩

/-! ## Who waits in a send -/

/-- The entry `k` is a request of `p` in the queue of `d`. -/
def Requests (s : KState) (p d : Proc) (k : Mqe) : Prop :=
  (s.ms.hdr k).mtype.Sync ∧ (s.ms.hdr k).src = procNr p ∧
    ∃ q l, (s.procs d).pmq = some q ∧ entryOccurs s k = [.level q l]

/-- `p` waits for an RT process that has exactly one request of `p` in its queue. -/
def HasOneRequest (s : KState) (p : Proc) : Prop :=
  ∃ d, (s.procs p).pto = some d ∧ (s.procs d).realtime = true ∧ ∃! k, Requests s p d k

theorem MType.Sync.queued {t : MType} (h : t.Sync) : t ≠ .mbfree := by
  rintro rfl
  revert h
  decide

theorem MsgOk.requests (h : MsgOk x s) (hk : (s.ms.hdr k).mtype.Sync)
    (hs : (s.ms.hdr k).src = procNr p) (hd : (s.ms.hdr k).dst = procNr d) :
    (s.procs d).realtime = true ∧ Requests s p d k := by
  obtain ⟨d', q, l, hd', hq, -⟩ := h.dst k hk.queued
  rw [hd, procNr_inj] at hd'
  subst hd'
  obtain ⟨l, -, hpl⟩ := h.place hk.queued hd hq
  refine ⟨h.owner d q hq, hk, hs, q, l, hq, ?_⟩
  rw [h.occurs, hpl]
  rfl

theorem MsgOk.mbxSnd_iff (h : MsgOk none s) (p : Proc) :
    (s.procs p).st.mbxSnd = true ↔ HasOneRequest s p := by
  constructor
  · intro hp
    obtain ⟨k, hk, hs⟩ := h.sent p (by simp) hp
    obtain ⟨p', d, hs', hd, hw⟩ := h.sync k hk
    rw [hs, procNr_inj] at hs'
    subst hs'
    obtain ⟨hrt, hreq⟩ := h.requests hk hs hd
    refine ⟨d, (hw.resolve_left (by simp)).2, hrt, k, hreq, ?_⟩
    rintro k' ⟨hk', hs', -⟩
    exact h.uniq k' k hk' hk (hs'.trans hs.symm)
  · rintro ⟨d, -, -, k, ⟨hk, hs, -⟩, -⟩
    obtain ⟨p', d, hs', hd, hw⟩ := h.sync k hk
    rw [hs, procNr_inj] at hs'
    subst hs'
    exact (hw.resolve_left (by simp)).1

/-! ## How such a wait ends -/

/-- A move that neither ends the wait of `p` in a send nor makes `p` an RT process. -/
def Waits (p : Proc) (s s' : KState) : Prop :=
  ((s.procs p).st.mbxSnd = true → (s'.procs p).st.mbxSnd = true) ∧
    ((s.procs p).realtime = false → (s'.procs p).realtime = false)

theorem Waits.of_eq (h : s'.procs p = s.procs p) : Waits p s s' := by
  rw [Waits, h]
  exact ⟨id, id⟩

theorem Waits.of_update {r : RtProc} {a : Proc} (h : s'.procs = update s.procs a r)
    (hsnd : (s.procs a).st.mbxSnd = true → r.st.mbxSnd = true)
    (hrt : r.realtime = (s.procs a).realtime) : Waits p s s' := by
  by_cases hp : p = a
  · subst hp
    rw [Waits, h, update_self, hrt]
    exact ⟨hsnd, id⟩
  · exact .of_eq (by rw [h, update_of_ne hp])

/-- A record other than that of `p` changes. -/
theorem Waits.of_ne {r : RtProc} {a : Proc} (h : s'.procs = update s.procs a r)
    (hp : p ≠ a) : Waits p s s' :=
  Waits.of_eq (by rw [h, update_of_ne hp])

/-- The event is a receive of the process that `p` waits for, and it takes the request of
    `p`. -/
def Receives (e : Event) (s : KState) (p : Proc) : Prop :=
  ∃ d v ipc q k, e = .rtk d v (.receive ipc) ∧ (s.procs p).pto = some d ∧
    (s.procs d).pmq = some q ∧ s.ms.mqePick q ipc.pNr = some (some k) ∧ Requests s p d k

/-- The event is the flush that runs the timer of `p`. -/
def TimesOut (e : Event) (s : KState) (p : Proc) : Prop :=
  ∃ a v l w, e = .flush a v l ∧ (s.tm.q.hdr (.exp l)).first = some w ∧
    (s.procs p).ipcvt = some w

/-- `rtk_receive` releases nobody but the sender of a request that it takes. -/
theorem MsgOk.take_waits {source : Int} {src : Proc} {s1 : KState} (h : MsgOk none s)
    (hq : (s.procs s.cur).pmq = some q) (hk : s.ms.mqePick q source = some (some k))
    (hsrc : procAddr (s.ms.hdr k).src = some src) (hrel : s.releaseSender k src = some s1)
    (hd : s1.dropEntry q k = some s') :
    Waits p s s' ∨ (s.procs p).pto = some s.cur ∧ Requests s p s.cur k := by
  obtain ⟨-, -, hs, hdst, -, -⟩ := h.picked hq hk hsrc
  have hp1 := (dropEntry_only hd).procs
  by_cases hps : p = src
  · subst hps
    rcases releaseSender_cases hrel with ⟨ht, hto, -⟩ | ⟨ht, hto, -⟩ | ⟨-, rfl⟩
    · exact .inr ⟨hto, (h.requests (.inl ht) hs hdst).2⟩
    · exact .inr ⟨hto, (h.requests (.inr ht) hs hdst).2⟩
    · exact .inl (.of_eq (by rw [hp1]))
  · refine .inl ?_
    rcases releaseSender_cases hrel with ⟨-, -, w, -, -, -, hp⟩ | ⟨-, -, rfl⟩ | ⟨-, rfl⟩
    · exact .of_ne (hp1.trans hp) hps
    · exact .of_ne hp1 hps
    · exact .of_eq (by rw [hp1])

/-- A timer action changes the record of the owner of the timer, and of no other process. -/
theorem IpcOk.expire_procs {b : Bool} {v : Env} {w : VT} {l : Prty} (h : IpcOk O b none s)
    (hpl : s.tm.place w = some (.exp l)) (hthis : (s.tm.vt w).this = some w)
    (hr : s.vtimerRun v w = some s') :
    s'.procs = s.procs ∨ ∃ p r, (s.procs p).ipcvt = some w ∧
      s'.procs = update s.procs p r ∧ r.realtime = (s.procs p).realtime := by
  obtain ⟨s1, tm, t, -, -, rfl, hcase⟩ := h.timers.expire_inv hpl hthis hr
  rcases hcase with ⟨rfl, -⟩ | ⟨p, hw, hto⟩
  · exact .inl rfl
  · obtain ⟨-, q, r, hq, hp, hfr, -⟩ := hto.effect
    have hown := (h.timers.own p w hw).2.1
    obtain rfl : q = p := by
      rw [show (s.tm.vt w).owner = _ from hown, procAddr_procNr] at hq
      exact (some.inj hq).symm
    exact .inr ⟨q, r, hw, hp, (gear_of_frame hfr).1⟩

/-- How a move may end a wait in a send. -/
inductive Ends (e : Event) (x x' : Option Proc) (s s' : KState) (p : Proc) : Prop where
  | received {v ipc q k a} : e = .rtk a v (.receive ipc) → (s.procs p).pto = some s.cur →
      (s.procs s.cur).pmq = some q → s.ms.mqePick q ipc.pNr = some (some k) →
      Requests s p s.cur k → Ends e x x' s s' p
  | timedOut : TimesOut e s p → Ends e x x' s s' p
  | left : x = some p → x' = some p ∨ (s'.procs p).realtime = false → Ends e x x' s s' p
  | entered {a v} : e = .rtk a v .set2rt →
      ((s.procs p).st.mbxSnd = true → (s'.procs p).st.mbxSnd = true) → Ends e x x' s s' p

/-- The record of `p` after the kernel has been told to make it an RT process. -/
theorem rtkSet2rt_procs {c : Code} (h : s.rtkSet2rt = some (s', c)) :
    s' = s ∨ ∃ q w, s'.procs = update s.procs s.cur { s.procs s.cur with
      pmq := some q, ipcvt := some w, realtime := true } := by
  rcases rtkSet2rt_inv h with rfl | ⟨q, w, t, s1, -, -, -, h1, h2⟩
  · exact .inl rfl
  refine .inr ⟨q, w, ?_⟩
  rw [(rdyQApp_only h2).procs]
  simp only [updProc, (unready_only h1).1.procs, equip, update_self, update_idem]

/-- **NO MOVE ENDS A WAIT IN A SEND** but the ones named. -/
theorem Move.waits (hm : Move e (x, s) (x', s')) (h : IpcOk O e.isCall x s) (p : Proc) :
    Waits p s s' ∨ Ends e x x' s s' p := by
  cases hm with
  | book hb => exact .inl (.of_eq (by rw [hb.procs]))
  | watch a w => exact .inl (.of_update rfl id rfl)
  | inherit _ hi => exact .inl (.of_eq (by rw [(inherit_only hi).procs]))
  | disinherit _ hd => exact .inl (.of_eq (by rw [(disinherit_only hd).procs]))
  | deliver _ _ _ _ hu => exact .inl (.of_update (unblockReceiver_procs hu).2 id rfl)
  | queue _ _ _ _ _ _ _ hn he => exact .inl (.of_eq (by rw [(enqueued hn he).procs]))
  | lose _ hn => exact .inl (.of_eq (by rw [(newEntry_only hn).procs]))
  | send _ _ _ _ _ hn he ha =>
    exact .inl (.of_update (send_procs hn he ha) (fun _ => rfl) rfl)
  | sendRecv _ _ _ _ _ _ hn he hs hb =>
    exact .inl (.of_update (sendRecv_procs hn he hs hb) (fun _ => rfl) rfl)
  | recvReply _ _ _ _ hs hb =>
    obtain ⟨w, -, rfl⟩ := setIpcParam_inv hs
    exact .inl (.of_update (blockReply_procs hb).2 id rfl)
  | recv _ _ _ _ hb =>
    obtain ⟨t, o, -, rfl⟩ := blockReceive_only hb
    exact .inl (.of_update rfl id rfl)
  | take _ he hq hk hsrc hr hd =>
    rcases h.msgs.take_waits (p := p) hq hk hsrc hr hd with hw | ⟨hto, hreq⟩
    · exact .inl hw
    · exact .inr (.received he hto hq hk hreq)
  | sleep _ hs =>
    rcases sleep_inv hs with rfl | ⟨t, rfl, -⟩
    · exact .inl (.of_eq rfl)
    · exact .inl (.of_update rfl id rfl)
  | stop _ _ hs =>
    obtain ⟨w, t, -, -, rfl⟩ := stopTimer_inv hs
    exact .inl (.of_eq rfl)
  | wake _ _ hs _ hr =>
    obtain ⟨w, t, -, -, rfl⟩ := stopTimer_inv hs
    exact .inl (.of_update (readyIfClear_only hr).procs id rfl)
  | semup _ _ _ hs | unlock _ _ hs =>
    rcases semup_core hs with ⟨hp, -, -⟩ | ⟨rp, w, -, -, -, -, hp⟩
    · exact .inl (.of_eq (by rw [hp]))
    · exact .inl (.of_update hp id rfl)
  | semdown _ _ _ hs =>
    rcases semdown_core hs with ⟨hp, -, -⟩ | ⟨s1, -, -, -, hp⟩
    · exact .inl (.of_eq (by rw [hp]))
    · exact .inl (.of_update hp id rfl)
  | release _ _ _ _ h1 h2 h3 =>
    exact .inl (.of_update (release_only h1 h2 h3).1 id rfl)
  | semalloc _ _ _ hs => exact .inl (.of_eq (by rw [(semalloc_only hs).procs]))
  | semFree _ _ hs => exact .inl (.of_eq (by rw [(semFree_only hs).procs]))
  | set2rt he _ hs =>
    refine .inr (.entered he ?_)
    rcases rtkSet2rt_procs hs with rfl | ⟨q, w, hp⟩
    · exact id
    · by_cases hc : p = s.cur
      · subst hc
        rw [hp, update_self]
        exact id
      · rw [hp, update_of_ne hc]
        exact id
  | leave _ _ hs => exact .inl (.of_update (leave_only hs).1 id rfl)
  | dropQueue hs =>
    rcases dropQueue_inv hs with ⟨-, rfl⟩ | ⟨q, m, -, -, -, rfl⟩
    · exact .inl (.of_eq rfl)
    · exact .inl (.of_update rfl id rfl)
  | sweep _ _ _ hs =>
    exact .inl (.of_eq (by rw [(dropEntry_only hs).procs]))
  | @back _ rp _ _ =>
    by_cases hp : p = rp
    · subst hp
      exact .inr (.left rfl (.inr (backToMinix_rt s p)))
    · refine .inl (.of_eq ?_)
      simp only [backToMinix]
      split
      · rw [(ready_only _ _).1.procs]
        exact updProc_ne _ _ hp
      · exact updProc_ne _ _ hp
  | @procRst _ rp _ _ _ hrt _ =>
    refine .inl (.of_update (a := rp) rfl (fun hs => ?_) rfl)
    rw [h.msgs.nrt rp hrt] at hs
    cases hs
  | @writeAttr _ c a k _ _ _ hrt =>
    refine .inl (.of_update (a := c) rfl (fun hs => ?_) rfl)
    rw [h.msgs.nrt c hrt] at hs
    cases hs
  | irqTimer ha hi =>
    obtain ⟨t, rfl⟩ := irqTimer_only ha hi
    exact .inl (.of_eq rfl)
  | tick _ _ => exact .inl (.of_eq rfl)
  | @expire _ _ a v l plk w he hf hthis hs =>
    have hpl := h.timers.tm.placed.of_first hf
    obtain rfl := (h.timers.tm.fits plk).this w hthis
    rcases h.expire_procs hpl hthis hs with hp | ⟨i, r, hi, hp, hrt⟩
    · exact .inl (.of_eq (by rw [hp]))
    · by_cases hpi : p = i
      · subst hpi
        exact .inr (.timedOut ⟨a, v, l, w, he, hf, hi⟩)
      · exact .inl (.of_ne hp hpi)

/-- A process is leaving because the event takes it out of RT mode. -/
theorem Move.leaving (hm : Move e (x, s) (x', s')) (hx : x' = some p) :
    x = some p ∨ Leaves e s p := by
  cases hm with
  | leave hl _ _ =>
    cases hx
    exact .inr hl
  | back _ _ => cases hx
  | _ => exact .inl hx

/-- The event makes a process an RT process. -/
def Event.IsSet2rt (e : Event) : Prop := ∃ a v, e = .rtk a v .set2rt

/-- During the moves of an event that is no receive and no flush, `p` goes on waiting
    in its send unless it leaves RT mode. -/
structure StillWaits (e : Event) (p : Proc) (x : Option Proc) (s : KState) : Prop where
  leaver : x = some p → ¬ e.IsSet2rt
  waits : (s.procs p).st.mbxSnd = true ∨
    ¬ e.IsSet2rt ∧ (x = some p ∨ (s.procs p).realtime = false)

theorem Move.stillWaits (hm : Move e (x, s) (x', s')) (hi : IpcOk O e.isCall x s)
    (hrec : ∀ a v ipc, e ≠ .rtk a v (.receive ipc)) (hfl : e.isFlush = false)
    (h : StillWaits e p x s) : StillWaits e p x' s' := by
  have hl : x' = some p → ¬ e.IsSet2rt := by
    intro hx
    rcases hm.leaving hx with hx | hl
    · exact h.leaver hx
    · rintro ⟨a, v, rfl⟩
      exact hl
  refine ⟨hl, ?_⟩
  rcases hm.waits hi p with ⟨hs, hr⟩ | he
  · rcases h.waits with hw | ⟨hns, hx | hrt⟩
    · exact .inl (hs hw)
    · by_cases hx' : x' = some p
      · exact .inr ⟨hns, .inl hx'⟩
      · -- the only move after which the process is not leaving any more is `back`
        cases hm with
        | back _ _ =>
          cases hx
          exact .inr ⟨hns, .inr (backToMinix_rt s p)⟩
        | leave _ _ _ => cases hx
        | _ => exact absurd hx hx'
    · exact .inr ⟨hns, .inr (hr hrt)⟩
  · cases he with
    | received he _ _ _ _ => exact absurd he (hrec _ _ _)
    | timedOut ht =>
      obtain ⟨a, v, l, w, rfl, -⟩ := ht
      cases hfl
    | left hx hx' => exact .inr ⟨h.leaver hx, hx'⟩
    | entered he hs =>
      rcases h.waits with hw | ⟨hns, -⟩
      · exact .inl (hs hw)
      · exact absurd ⟨_, _, he⟩ hns

theorem Moves.stillWaits {b : Option Proc × KState}
    (hrec : ∀ a v ipc, e ≠ .rtk a v (.receive ipc)) (hfl : e.isFlush = false)
    (hm : Moves e (none, s) b) (hi : IpcOk O false none s) (hq : Quiet s e)
    (hp : (s.procs p).st.mbxSnd = true) : StillWaits e p b.1 b.2 := by
  have hall : IpcOk O false b.1 b.2 ∧ Quiet b.2 e ∧ StillWaits e p b.1 b.2 := by
    induction hm with
    | refl => exact ⟨hi, hq, nofun, .inl hp⟩
    | tail _ hmv ih =>
      obtain ⟨hi, hq, hs⟩ := ih
      have hi' := hi.calm hq.calm
      exact ⟨(hmv.ipcOk hi' hq).calm nofun, hmv.quiet hi hq hfl,
        hmv.stillWaits hi' hrec hfl hs⟩
  exact hall.2.2

/-- What ends the wait of a sender in one event. -/
theorem IpcOk.send_ends (hi : IpcOk O false none s) (hq : Quiet s e) (hs : s.step e = some s')
    (hp : (s.procs p).st.mbxSnd = true) (hn : (s'.procs p).st.mbxSnd = false) :
    Receives e s p ∨ TimesOut e s p ∨ (s'.procs p).realtime = false := by
  by_cases hrec : ∃ a v ipc, e = .rtk a v (.receive ipc)
  · obtain ⟨a, v, ipc, rfl⟩ := hrec
    obtain ⟨s1, s2, -, hm, hb, hpick⟩ := step_receive hs
    have hp1 : s'.procs = s1.procs := by
      rcases hpick with rfl | hpick
      · exact hb.procs
      · exact (pickProc_only hpick).1.procs.trans hb.procs
    rw [hp1] at hn
    rcases hm with rfl | hm
    · rw [hp] at hn
      cases hn
    have hi1 : IpcOk O true none s := hi.calm (fun _ => hq.calm rfl)
    have hi0 : IpcOk O true none { s with cur := a } := hi1.sched ⟨rfl, rfl, rfl, rfl, rfl⟩
    rcases hm.waits hi0 p with ⟨hw, -⟩ | he
    · rw [hw hp] at hn
      cases hn
    · cases he with
      | received he hto hpq hk hreq =>
        cases he
        exact .inl ⟨a, v, ipc, _, _, rfl, hto, hpq, hk, hreq⟩
      | timedOut ht =>
        obtain ⟨_, _, _, _, he, -⟩ := ht
        cases he
      | left hx _ => cases hx
      | entered he _ => cases he
  by_cases hfl : e.isFlush = true
  · obtain ⟨s0, s1, he, -, hone, hpick⟩ := step_moves hs
    have hs0 := he.sched
    have hp1 : s'.procs = s1.procs := by
      rcases hpick with rfl | hpick
      · rfl
      · exact (pickProc_only hpick).1.procs
    rw [hp1] at hn
    rcases hone hfl with rfl | hm
    · rw [hs0.procs, hp] at hn
      cases hn
    have hcall : e.isCall = false := by
      cases e <;> first | rfl | cases hfl
    have hi0 : IpcOk O e.isCall none s0 := (hi.sched hs0).calm (by simp [hcall])
    rcases hm.waits hi0 p with ⟨hw, -⟩ | hend
    · rw [hw (by rw [hs0.procs]; exact hp)] at hn
      cases hn
    · cases hend with
      | received he _ _ _ _ => exact absurd ⟨_, _, _, he⟩ hrec
      | timedOut ht =>
        rw [TimesOut, hs0.procs, hs0.tm] at ht
        exact .inr (.inl ht)
      | left hx _ => cases hx
      | entered he _ =>
        subst he
        cases hfl
  · have hfl : e.isFlush = false := by simpa using hfl
    obtain ⟨s0, s1, he, hm, -, hpick⟩ := step_moves hs
    have hs0 := he.sched
    have hw := hm.stillWaits (p := p) (fun a v ipc hr => hrec ⟨a, v, ipc, hr⟩) hfl
      (hi.sched hs0) (hq.of_eq hs0.procs hs0.tm hs0.ms) (by rw [hs0.procs]; exact hp)
    have hp1 : s'.procs = s1.procs := by
      rcases hpick with rfl | hpick
      · rfl
      · exact (pickProc_only hpick).1.procs
    rw [hp1] at hn ⊢
    rcases hw.waits with hw | ⟨-, hx | hrt⟩
    · rw [hw] at hn
      cases hn
    · cases hx
    · exact .inr (.inr hrt)

/-- **A SENDER WAITS FOR ITS OWN MESSAGE**: in every state of every run whose events meet
    the condition, a process waits in a send exactly when the RT process it waits for has
    exactly one request of it in its queue.  An event ends the wait only if it takes that
    request, runs the timeout of the sender, or takes the sender out of RT mode. -/
theorem sender_waits_for_its_request (h0 : Initial s₀) (h : ReachBy Quiet s₀ s) :
    (∀ p, (s.procs p).st.mbxSnd = true ↔ HasOneRequest s p) ∧
    ∀ e s' p, Quiet s e → s.step e = some s' → (s.procs p).st.mbxSnd = true →
      (s'.procs p).st.mbxSnd = false →
      Receives e s p ∨ TimesOut e s p ∨ (s'.procs p).realtime = false :=
  ⟨(h.ipcOk h0).msgs.mbxSnd_iff, fun _ _ _ hq hs hp hn => (h.ipcOk h0).send_ends hq hs hp hn⟩

/-! ## Concrete runs -/

/-- The processes 14, 15 and 16 become RT processes; 16 sleeps, 14 and 15 are ready. -/
def threeRt : List Event :=
  [.rtk 14 goodEnv .set2rt, .rtk 14 goodEnv (.sleep forever),
   .rtk 15 goodEnv .set2rt, .rtk 15 goodEnv (.sleep forever),
   .rtk 16 goodEnv .set2rt, .rtk 16 goodEnv (.wakeup (procNr 14) 114),
   .rtk 16 goodEnv (.wakeup (procNr 15) 115), .rtk 16 goodEnv (.sleep forever)]

/-- Process 14 leaves a message in the queue of 15 and sleeps; 15 sends a request to 16
    and waits one tick for the answer. -/
def strayTimeout : List Event :=
  threeRt ++ [.rtk 14 goodEnv (.arqst (withProc 15 forever)), .rtk 14 goodEnv (.sleep forever),
    .rtk 15 goodEnv (.rqrcv (withProc 16 1)), .tick, .flush 0 goodEnv 10]

/-- **THE TIMEOUT OF A SEND/RECEIVE TAKES BACK THE ENTRY 0.**  It is unlinked with the
    queue header of process 16, in which it is not: afterwards the entry 0 is met in the
    free list and in the queue of 15, and the entry 1, which was sent, in no list. -/
theorem timeout_frees_stray_entry :
    (boot.run strayTimeout).map (fun s => (entryOccurs s 0, entryOccurs s 1)) =
      some ([.plain (), .level 1 0], []) := by
  decide +kernel

/-- Process 14 waits until 16 takes its request; 15 sends a request to 16 too and waits
    one tick for the answer. -/
def strayRequest : List Event :=
  threeRt ++ [.rtk 14 goodEnv (.rqst (withProc 16 forever)),
    .rtk 15 goodEnv (.rqrcv (withProc 16 1)), .tick, .flush 0 goodEnv 10]

/-- **THE REQUEST OF ANOTHER PROCESS IS TAKEN BACK.**  The timeout of 15 frees the entry 0,
    the request of 14.  So 14 waits for ever, with no request in any queue; and the request
    of 15 is still in the queue of 16, though 15 does not wait any more. -/
theorem sender_waits_for_nothing :
    (boot.run strayRequest).any (fun s =>
      decide ((s.procs 14).st.mbxSnd = true ∧ ∀ k, (s.ms.hdr k).src ≠ procNr 14) &&
      decide ((s.procs 15).st.mbxSnd = false ∧ entryOccurs s 1 = [.level 2 0])) = true := by
  decide +kernel

/-- A message waits in the queue of process 15. -/
theorem message_entries_conserved_queued :
    ∃ s, ReachBy Quiet boot s ∧ entryOccurs s 0 = [.level 1 0] ∧
      (∀ k, Conserved s k) ∧ Counted s := by
  obtain ⟨s, h, hs⟩ : ∃ s, ReachBy Quiet boot s ∧
      entryOccurs s 0 = [.level 1 0] :=
    ReachBy.of_run (threeRt ++ [.rtk 14 goodEnv (.arqst (withProc 15 forever))]) (by decide +kernel)
  exact ⟨s, h, hs, message_entries_conserved boot_initial h⟩

/-- Process 14 waits until 16 takes its request. -/
theorem sender_waits_for_its_request_queued :
    ∃ s, ReachBy Quiet boot s ∧ (s.procs 14).st.mbxSnd = true ∧ HasOneRequest s 14 := by
  obtain ⟨s, h, hs⟩ : ∃ s, ReachBy Quiet boot s ∧ (s.procs 14).st.mbxSnd = true :=
    ReachBy.of_run (threeRt ++ [.rtk 14 goodEnv (.rqst (withProc 16 forever))])
      (by decide +kernel)
  exact ⟨s, h, hs, ((sender_waits_for_its_request boot_initial h).1 14).mp hs⟩

end Kernel
