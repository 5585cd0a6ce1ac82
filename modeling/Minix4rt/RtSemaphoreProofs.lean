import Minix4rt.RtReadyQueueProofs

/-! # RT semaphores — values, wait lists and locks

    A semaphore counts: its value is positive, or minus the number of processes in its wait
    list.  A mutex is recorded three times: in the value, in `carrier`, and by its link in
    the lock list of the carrier.  Two invariants say that the records agree, `SemCountOk` for
    the counters and `LockOk` for the locks; they need different conditions on a run.

    The counter breaks when a wait ends and nobody raises the value: by a timeout, or
    because the process that has allocated the semaphore leaves RT mode.  It also breaks
    at once for a negative initial value.  The lock breaks when a process raises a mutex
    that it does not hold, when a mutex is allocated with another value than 1, and when
    it is freed while it is held. -/

namespace Kernel

open ListPool Vtimer KState Function Option

variable {e : Event} {x x' : Option Proc} {s s' s1 s2 s₀ : KState} {p q d : Proc} {m : Sem}
  {v : Env} {r : RtProc} {O : VT → Prop} {E : Sem → Prop}

/-! ## What most events leave alone -/

/-- The semaphores, who waits for them and who runs are the same. -/
structure SemsKept (s s' : KState) : Prop where
  ss : s'.ss = s.ss
  cur : s'.cur = s.cur
  proc : ∀ p, (s'.procs p).realtime = (s.procs p).realtime ∧
    (s'.procs p).st.semDown = (s.procs p).st.semDown ∧ (s'.procs p).psem = (s.procs p).psem

theorem SemsKept.of_procs (hp : s'.procs = s.procs) (hss : s'.ss = s.ss)
    (hc : s'.cur = s.cur) : SemsKept s s' :=
  ⟨hss, hc, fun p => by rw [hp]; exact ⟨rfl, rfl, rfl⟩⟩

theorem SemsKept.refl (s : KState) : SemsKept s s := .of_procs rfl rfl rfl

theorem SemsKept.trans (h : SemsKept s s1) (h' : SemsKept s1 s') : SemsKept s s' := by
  refine ⟨h'.ss.trans h.ss, h'.cur.trans h.cur, fun p => ?_⟩
  obtain ⟨a1, a2, a3⟩ := h.proc p
  obtain ⟨b1, b2, b3⟩ := h'.proc p
  exact ⟨b1.trans a1, b2.trans a2, b3.trans a3⟩

theorem SemsKept.of_update (hp : s'.procs = update s.procs p r)
    (hr : r.realtime = (s.procs p).realtime ∧ r.st.semDown = (s.procs p).st.semDown ∧
      r.psem = (s.procs p).psem) (hss : s'.ss = s.ss) (hc : s'.cur = s.cur) :
    SemsKept s s' := by
  refine ⟨hss, hc, fun i => ?_⟩
  by_cases hi : i = p
  · subst hi
    rw [hp, update_self]
    exact hr
  · rw [hp, update_of_ne hi]
    exact ⟨rfl, rfl, rfl⟩

theorem MsgsOnly.semsKept (h : MsgsOnly s s') : SemsKept s s' := .of_procs h.procs h.ss h.cur

theorem QueueOnly.semsKept (h : QueueOnly s s') : SemsKept s s' :=
  .of_procs h.procs h.ss h.cur

theorem unblockReceiver_semsKept (h : s.unblockReceiver d = some s') : SemsKept s s' := by
  obtain ⟨s1, w, t, h1, -, -, rfl⟩ := unblockReceiver_inv h
  have hq := readyIfClear_only h1
  exact .of_update hq.procs ⟨rfl, rfl, rfl⟩ hq.ss hq.cur

theorem releaseSender_semsKept {k : Mqe} (h : s.releaseSender k p = some s') : SemsKept s s' := by
  rw [releaseSender] at h
  split at h
  · obtain ⟨s1, h1, h2⟩ := bind_eq_some_iff.mp h
    obtain ⟨w, t, -, -, rfl⟩ := stopTimer_inv h1
    have hq := readyIfClear_only h2
    exact .of_update hq.procs ⟨rfl, rfl, rfl⟩ hq.ss hq.cur
  split at h
  · cases h
    exact .of_update rfl ⟨rfl, rfl, rfl⟩ rfl rfl
  · cases h
    exact .refl s

/-- The events that touch neither semaphores nor processes that wait for them. -/
def Event.mail : Event → Bool
  | .rtk _ _ .set2rt | .rtk _ _ .set2nrt | .rtk _ _ (.semup _) | .rtk _ _ (.semdown _ _) => false
  | .task _ _ | .flush _ _ _ => false
  | .rtk _ _ _ | .ksend _ _ _ _ _ _ | .inherit _ _ | .disinherit _ _ | .irqTimer _ _ _
  | .tick => true

theorem Move.semsKept (hm : Move e (none, s) (x', s')) (he : e.mail = true) :
    x' = none ∧ SemsKept s s' := by
  cases hm with
  | book hb => exact ⟨rfl, .of_procs hb.procs hb.ss hb.cur⟩
  | watch _ _ => exact ⟨rfl, .of_update rfl ⟨rfl, rfl, rfl⟩ rfl rfl⟩
  | inherit _ hs => exact ⟨rfl, (inherit_only hs).semsKept⟩
  | disinherit _ hs => exact ⟨rfl, (disinherit_only hs).semsKept⟩
  | deliver _ _ _ _ hu => exact ⟨rfl, unblockReceiver_semsKept hu⟩
  | queue _ _ _ _ _ _ _ hn hs =>
    exact ⟨rfl, (enqueued hn hs).semsKept⟩
  | lose _ hn => exact ⟨rfl, (newEntry_only hn).semsKept⟩
  | send _ _ _ _ _ hn hs ha =>
    obtain ⟨-, -, -, hss, -, hc, -⟩ := enqueued hn hs
    have hp := send_procs hn hs ha
    obtain ⟨t, rfl⟩ := armIpc_inv ha
    exact ⟨rfl, .of_update hp ⟨rfl, rfl, rfl⟩ hss hc⟩
  | sendRecv _ _ _ _ _ _ hn hs hset hb =>
    obtain ⟨-, -, -, hss, -, hc, -⟩ := enqueued hn hs
    obtain ⟨-, hss', -⟩ := blockReply_rest hb
    have hp := sendRecv_procs hn hs hset hb
    have hc' := (blockReply_procs hb).1
    obtain ⟨w, -, rfl⟩ := setIpcParam_inv hset
    exact ⟨rfl, .of_update hp ⟨rfl, rfl, rfl⟩ (hss'.trans hss) (hc'.trans hc)⟩
  | recvReply _ _ _ _ hset hb =>
    obtain ⟨-, hss', -⟩ := blockReply_rest hb
    obtain ⟨hc', hp⟩ := blockReply_procs hb
    obtain ⟨w, -, rfl⟩ := setIpcParam_inv hset
    exact ⟨rfl, .of_update hp ⟨rfl, rfl, rfl⟩ hss' hc'⟩
  | recv _ _ _ _ hb =>
    obtain ⟨t, o, -, rfl⟩ := blockReceive_only hb
    exact ⟨rfl, .of_update rfl ⟨rfl, rfl, rfl⟩ rfl rfl⟩
  | take _ _ _ _ _ hr hd =>
    exact ⟨rfl, (releaseSender_semsKept hr).trans (dropEntry_only hd).semsKept⟩
  | sleep _ hs =>
    rcases sleep_inv hs with rfl | ⟨t, rfl, -⟩
    · exact ⟨rfl, .refl _⟩
    · exact ⟨rfl, .of_update rfl ⟨rfl, rfl, rfl⟩ rfl rfl⟩
  | stop _ _ hs =>
    obtain ⟨w, t, -, -, rfl⟩ := stopTimer_inv hs
    exact ⟨rfl, .of_procs rfl rfl rfl⟩
  | wake _ _ hs _ hr =>
    obtain ⟨w, t, -, -, rfl⟩ := stopTimer_inv hs
    have hq := readyIfClear_only hr
    exact ⟨rfl, .of_update hq.procs ⟨rfl, rfl, rfl⟩ hq.ss hq.cur⟩
  | irqTimer ha hs =>
    obtain ⟨t, rfl⟩ := irqTimer_only ha hs
    exact ⟨rfl, .of_procs rfl rfl rfl⟩
  | tick _ _ => exact ⟨rfl, .of_procs rfl rfl rfl⟩
  | semup _ hev _ _ | semdown _ hev _ _ | semalloc hev _ _ _ | set2rt hev _ _
  | procRst hev _ _ | writeAttr hev _ | expire hev _ _ _ =>
    subst hev
    cases he
  | semFree _ hev _ =>
    rcases hev with ⟨_, _, rfl, -⟩ | ⟨_, _, _, rfl, -⟩
    · cases he
    · cases he
  | leave hl _ _ =>
    unfold Leaves at hl
    split at hl
    · cases he
    · cases he
    · cases he
    · exact hl.elim

theorem Moves.semsKept {c : Option Proc × KState} (hm : Moves e (none, s) c)
    (he : e.mail = true) : c.1 = none ∧ SemsKept s c.2 := by
  induction hm with
  | refl => exact ⟨rfl, .refl s⟩
  | @tail b c _ hmv ih =>
    obtain ⟨y, t⟩ := b
    obtain ⟨y', t'⟩ := c
    obtain ⟨rfl, hk⟩ := ih
    obtain ⟨rfl, hk'⟩ := hmv.semsKept he
    exact ⟨rfl, hk.trans hk'⟩

/-! ## Raising and lowering -/

theorem disinheritIf_only {c : Prop} [Decidable c] {o j : Option Proc}
    (h : (if c then s.disinherit o j else some s) = some s') : QueueOnly s s' := by
  split at h
  · exact disinherit_only h
  · cases h
    exact .refl _

/-- Values below the largest `int` are raised without wrapping. -/
theorem toInt_succ {w : BitVec 32} (h : w.toInt + 1 < 2 ^ 31) : (w + 1).toInt = w.toInt + 1 := by
  have hlo := w.le_toInt
  rw [BitVec.toInt_add, show (1 : BitVec 32).toInt = 1 from rfl]
  exact Int.bmod_eq_of_le (by omega) (by omega)

/-- Values above the smallest `int` are lowered without wrapping. -/
theorem toInt_pred {w : BitVec 32} (h : -2 ^ 31 < w.toInt) : (w - 1).toInt = w.toInt - 1 := by
  have hhi := w.toInt_lt
  rw [BitVec.toInt_sub, show (1 : BitVec 32).toInt = 1 from rfl]
  exact Int.bmod_eq_of_le (by omega) (by omega)

/-- What `MRT_semup` does to processes and semaphores. -/
inductive UpCase (s : KState) (m : Sem) (s' : KState) : Prop where
  | refused : (s.ss.sem m).owner = hardware → s' = s → UpCase s m s'
  | wake {rp : Proc} {P : Pool Proc Empty Sem 16} : (s.ss.sem m).owner ≠ hardware →
      (s.ss.sem m).value.toInt < 0 → s.sprocPick m = some rp →
      s'.procs = update s.procs rp { s.procs rp with
        psem := none, st := { (s.procs rp).st with semDown := false } } →
      (if (s.ss.sem m).mutex = true then (s.ss.lock.rmv s.cur m).app rp m = some P
        else P = s.ss.lock) →
      s'.ss = { s.ss with
        sem := update s.ss.sem m { s.ss.sem m with
          ups := (s.ss.sem m).ups + 1, value := (s.ss.sem m).value + 1,
          carrier := if (s.ss.sem m).mutex = true then some rp else (s.ss.sem m).carrier },
        lock := P } → UpCase s m s'
  | count : (s.ss.sem m).owner ≠ hardware → 0 ≤ (s.ss.sem m).value.toInt → s'.procs = s.procs →
      s'.ss = { s.ss with
        sem := update s.ss.sem m { s.ss.sem m with
          ups := (s.ss.sem m).ups + 1, value := (s.ss.sem m).value + 1,
          carrier := if (s.ss.sem m).value.toInt = 0 ∧ (s.ss.sem m).mutex = true then none
            else (s.ss.sem m).carrier },
        lock := if (s.ss.sem m).value.toInt = 0 ∧ (s.ss.sem m).mutex = true then
          s.ss.lock.rmv s.cur m else s.ss.lock } → UpCase s m s'

theorem semup_cases {j : Option Proc} {c : Code} (h : s.semup m j = some (s', c)) :
    s'.cur = s.cur ∧ UpCase s m s' := by
  rw [KState.semup] at h
  split at h
  · cases h
    exact ⟨rfl, .refused ‹_› rfl⟩
  rename_i hown
  simp only [bind_eq_bind, bind_eq_some_iff, some.injEq,
    Prod.mk.injEq] at h
  obtain ⟨s1, h1, rfl, -⟩ := h
  split at h1
  · rename_i hneg
    obtain ⟨rp, w, t, s2, s3, hrp, hr, -, -, hm, hc⟩ := semupWake_inv h1
    obtain rfl := sprocRmv_inv hr
    have hq := readyIfClear_only hc
    have h3 : s3.procs = update s.procs rp { s.procs rp with psem := none } ∧
        s3.cur = s.cur ∧ ∃ P, (if (s.ss.sem m).mutex = true then
            (s.ss.lock.rmv s.cur m).app rp m = some P else P = s.ss.lock) ∧
          s3.ss = { s.ss with
            sem := update s.ss.sem m { s.ss.sem m with
              carrier := if (s.ss.sem m).mutex = true then some rp else (s.ss.sem m).carrier },
            lock := P } := by
      simp only at hm
      split at hm
      · rename_i hmx
        obtain ⟨P, s4, hP, rfl, hm⟩ := handMutex_inv hm
        have hqo := disinheritIf_only hm
        refine ⟨hqo.procs, hqo.cur, P, ?_, ?_⟩
        · rw [if_pos hmx]
          exact hP
        · rw [hqo.ss, if_pos hmx]
          rfl
      · rename_i hmx
        cases hm
        refine ⟨rfl, rfl, s.ss.lock, ?_, ?_⟩
        · rw [if_neg hmx]
        · rw [if_neg hmx, update_eq_self]
          rfl
    obtain ⟨hp3, hcur3, P, hP, hss3⟩ := h3
    refine ⟨hq.cur.trans hcur3, .wake (P := P) hown hneg hrp ?_ hP ?_⟩
    · show s1.procs = _
      rw [hq.procs]
      simp only [setSt, updProc, hp3, update_self, update_idem]
    · have hss : s1.ss = s3.ss := hq.ss
      simp only [updSem, hss, hss3, update_self, update_idem]
  rename_i hneg
  split at h1
  · rename_i hz
    cases h1
    refine ⟨rfl, .count hown (by omega) rfl ?_⟩
    rw [if_pos hz, if_pos hz]
    simp only [updSem, unlockCur, update_self, update_idem]
  · rename_i hz
    cases h1
    refine ⟨rfl, .count hown (by omega) rfl ?_⟩
    rw [if_neg hz, if_neg hz]
    rfl

/-- What `MRT_semdown` does to processes and semaphores. -/
inductive DownCase (s : KState) (m : Sem) (s' : KState) : Prop where
  | refused : (s.ss.sem m).owner = hardware ∨ (s.ss.sem m).value.toInt ≤ 0 → s' = s →
      DownCase s m s'
  | wait : (s.ss.sem m).owner ≠ hardware → (s.ss.sem m).value.toInt ≤ 0 →
      s'.procs = update s.procs s.cur { s.procs s.cur with
        psem := some m, st := { (s.procs s.cur).st with semDown := true } } →
      s'.ss = { s.ss with
        sem := update s.ss.sem m { s.ss.sem m with
          downs := (s.ss.sem m).downs + 1, value := (s.ss.sem m).value - 1 } } →
      DownCase s m s'
  | lock {P : Pool Proc Empty Sem 16} : (s.ss.sem m).owner ≠ hardware →
      (s.ss.sem m).value.toInt = 1 → (s.ss.sem m).mutex = true → s.ss.lock.app s.cur m = some P →
      s'.procs = s.procs →
      s'.ss = { s.ss with
        sem := update s.ss.sem m { s.ss.sem m with
          downs := (s.ss.sem m).downs + 1, value := (s.ss.sem m).value - 1,
          carrier := some s.cur },
        lock := P } → DownCase s m s'
  | count : (s.ss.sem m).owner ≠ hardware → 0 < (s.ss.sem m).value.toInt →
      ¬ ((s.ss.sem m).value.toInt = 1 ∧ (s.ss.sem m).mutex = true) → s'.procs = s.procs →
      s'.ss = { s.ss with
        sem := update s.ss.sem m { s.ss.sem m with
          downs := (s.ss.sem m).downs + 1, value := (s.ss.sem m).value - 1 } } →
      DownCase s m s'

theorem semdown_cases {n : BitVec 32} {c : Code} (h : s.semdown m n = some (s', c)) :
    DownCase s m s' := by
  rw [KState.semdown] at h
  split at h
  · cases h
    exact .refused (.inl ‹_›) rfl
  rename_i hown
  split at h
  · rename_i hneg
    split at h
    · cases h
      exact .refused (.inr hneg) rfl
    · obtain ⟨s2, h2, he⟩ := map_eq_some_iff.mp h
      cases he
      obtain ⟨t, P, s1, -, rfl, h3⟩ := semdownWait_inv h2
      have hq := inheritIf_only h3
      refine .wait hown hneg hq.procs ?_
      simp only [countDown, updSem, hq.ss]
      rfl
  rename_i hneg
  split at h
  · rename_i hone
    obtain ⟨s2, h2, he⟩ := map_eq_some_iff.mp h
    cases he
    obtain ⟨P, hP, rfl⟩ := map_eq_some_iff.mp h2
    refine .lock hown hone.1 hone.2 hP rfl ?_
    simp only [countDown, updSem, update_self, update_idem]
  · rename_i hone
    cases h
    exact .count hown (by omega) hone rfl rfl

/-! ## The counters -/

/-- The processes that wait for `m`. -/
def waiters (s : KState) (m : Sem) : Finset Proc :=
  Finset.univ.filter (fun p => (s.procs p).st.semDown = true ∧ (s.procs p).psem = some m)

theorem mem_waiters : p ∈ waiters s m ↔
    (s.procs p).st.semDown = true ∧ (s.procs p).psem = some m := by
  simp [waiters]

/-- The value of a semaphore counts its waiters.  `E` names semaphores that are left out,
    because they are going to be freed. -/
def SemCountOk (E : Sem → Prop) (s : KState) : Prop :=
  ∀ m, (s.ss.sem m).owner ≠ hardware → ¬ E m →
    ((waiters s m).card : Int) = max 0 (-(s.ss.sem m).value.toInt)

theorem waiters_congr (hp : ∀ p, (s'.procs p).st.semDown = (s.procs p).st.semDown ∧
    ((s.procs p).st.semDown = true → (s'.procs p).psem = (s.procs p).psem)) :
    waiters s' m = waiters s m := by
  ext p
  obtain ⟨h1, h2⟩ := hp p
  rw [mem_waiters, mem_waiters, h1]
  constructor
  · rintro ⟨hd, hm⟩
    exact ⟨hd, (h2 hd).symm.trans hm⟩
  · rintro ⟨hd, hm⟩
    exact ⟨hd, (h2 hd).trans hm⟩

theorem SemCountOk.same (h : SemCountOk E s) (hw : ∀ m, waiters s' m = waiters s m)
    (hss : ∀ m, (s'.ss.sem m).owner = (s.ss.sem m).owner ∧
      (s'.ss.sem m).value = (s.ss.sem m).value) : SemCountOk E s' := by
  intro m hown hE
  rw [(hss m).1] at hown
  rw [hw, (hss m).2]
  exact h m hown hE

/-- The value and the waiters of one semaphore change. -/
theorem SemCountOk.recount {f : SemRec} (h : SemCountOk E s)
    (hsem : s'.ss.sem = update s.ss.sem m f) (hw : ∀ i, i ≠ m → waiters s' i = waiters s i)
    (hm : f.owner ≠ hardware → ¬ E m → ((waiters s' m).card : Int) = max 0 (-f.value.toInt)) :
    SemCountOk E s' := by
  intro i hi hE
  rw [hsem] at hi ⊢
  by_cases him : i = m
  · subst him
    rw [update_self] at hi ⊢
    exact hm hi hE
  · rw [update_of_ne him] at hi ⊢
    rw [hw i him]
    exact h i hi hE

theorem waiters_eq (hp : s'.procs = s.procs) (m : Sem) : waiters s' m = waiters s m :=
  waiters_congr (fun p => by rw [hp]; exact ⟨rfl, fun _ => rfl⟩)

theorem SemsKept.waiters (h : SemsKept s s') (m : Sem) : waiters s' m = waiters s m :=
  waiters_congr (fun p => ⟨(h.proc p).2.1, fun _ => (h.proc p).2.2⟩)

theorem SemCountOk.sched (h : SemCountOk E s) (hs : SchedOnly s s') : SemCountOk E s' :=
  h.same (waiters_eq hs.procs) (fun m => by rw [hs.ss]; exact ⟨rfl, rfl⟩)

theorem SemCountOk.kept (h : SemCountOk E s) (hk : SemsKept s s') : SemCountOk E s' :=
  h.same hk.waiters (fun m => by rw [hk.ss]; exact ⟨rfl, rfl⟩)

/-- A process stops waiting. -/
theorem waiters_erase (hp : s'.procs = update s.procs q r) (hr : r.st.semDown = false) :
    waiters s' m = (waiters s m).erase q := by
  ext p
  rw [Finset.mem_erase, mem_waiters, mem_waiters, hp]
  by_cases hpq : p = q
  · subst hpq
    rw [update_self, hr]
    simp
  · rw [update_of_ne hpq]
    simp [hpq]

/-- A process starts to wait. -/
theorem waiters_insert (hp : s'.procs = update s.procs q r) (hr : r.st.semDown = true)
    (hm : r.psem = some m) : waiters s' m = insert q (waiters s m) := by
  ext p
  rw [Finset.mem_insert, mem_waiters, mem_waiters, hp]
  by_cases hpq : p = q
  · subst hpq
    rw [update_self]
    simp [hr, hm]
  · rw [update_of_ne hpq]
    simp [hpq]

theorem waiters_insert_ne {i : Sem} (hp : s'.procs = update s.procs q r)
    (hq : (s.procs q).st.semDown = false) (hm : r.psem = some m) (hi : i ≠ m) :
    waiters s' i = waiters s i := by
  ext p
  rw [mem_waiters, mem_waiters, hp]
  by_cases hpq : p = q
  · subst hpq
    rw [update_self, hq, hm]
    simp [Ne.symm hi]
  · rw [update_of_ne hpq]

/-- **RAISING A SEMAPHORE** wakes a waiter when the value is negative. -/
theorem SemCountOk.semup (h : SemCountOk E s) (hr : RdyOk x s)
    (hroom : (s.ss.sem m).value.toInt + 1 < 2 ^ 31) (hs : UpCase s m s') : SemCountOk E s' := by
  cases hs with
  | refused _ he => exact he ▸ h
  | @wake rp P hown hneg hpick hp hP hss =>
    obtain ⟨-, -, hst, hps, -⟩ := hr.picked hpick
    refine h.recount (congrArg SemSt.sem hss) (fun i him => ?_) (fun hi hE => ?_)
    · rw [waiters_erase hp rfl, Finset.erase_eq_of_notMem]
      rw [mem_waiters, hps]
      simp [Ne.symm him]
    · have hmem : rp ∈ waiters s m := mem_waiters.mpr ⟨by rw [hst]; rfl, hps⟩
      have hcard := h m hi hE
      have hpos := Finset.card_pos.mpr ⟨rp, hmem⟩
      rw [waiters_erase hp rfl, Finset.card_erase_of_mem hmem]
      dsimp only
      rw [toInt_succ hroom]
      omega
  | count hown hpos hp hss =>
    refine h.recount (congrArg SemSt.sem hss) (fun i _ => waiters_eq hp i) (fun hi hE => ?_)
    have hcard := h m hi hE
    rw [waiters_eq hp]
    dsimp only
    rw [toInt_succ hroom]
    omega

/-- **LOWERING A SEMAPHORE** makes the caller wait when the value is not positive. -/
theorem SemCountOk.semdown (h : SemCountOk E s) (hrun : (s.procs s.cur).st = .clear)
    (hs : DownCase s m s') : SemCountOk E s' := by
  have hsame : ∀ {f : SemRec}, s'.ss.sem = update s.ss.sem m f → s'.procs = s.procs →
      0 < (s.ss.sem m).value.toInt → f.owner = (s.ss.sem m).owner →
      f.value = (s.ss.sem m).value - 1 → SemCountOk E s' := by
    intro f hsem hp hpos hfo hfv
    refine h.recount hsem (fun i _ => waiters_eq hp i) (fun hi hE => ?_)
    have hcard := h m (hfo ▸ hi) hE
    rw [waiters_eq hp, hfv, toInt_pred (by omega)]
    omega
  have hdn : (s.procs s.cur).st.semDown = false := by
    rw [hrun]
    rfl
  cases hs with
  | refused _ he => exact he ▸ h
  | wait hown hneg hp hss =>
    refine h.recount (congrArg SemSt.sem hss) (fun i him => waiters_insert_ne hp hdn rfl him)
      (fun hi hE => ?_)
    have hnot : s.cur ∉ waiters s m := by
      rw [mem_waiters, hdn]
      simp
    have hcard := h m hi hE
    -- there are not enough processes to bring the value down to the smallest `int`
    have hfew := Finset.card_le_univ (waiters s m)
    rw [Fintype.card_fin] at hfew
    rw [waiters_insert hp rfl rfl, Finset.card_insert_of_notMem hnot]
    dsimp only
    rw [toInt_pred (by omega)]
    omega
  | lock hown hone _ _ hp hss => exact hsame (congrArg SemSt.sem hss) hp (by omega) rfl rfl
  | count hown hpos _ hp hss => exact hsame (congrArg SemSt.sem hss) hp hpos rfl rfl

/-! ## Allocation -/

/-- A free semaphore has no owner. -/
theorem RdyOk.free_owner (h : RdyOk x s) (hf : s.ss.alloc.first none = some m) :
    (s.ss.sem m).owner = hardware := by
  obtain ⟨f, hpl, hown⟩ := h.alloc
  have hm := hpl.of_first hf
  simp only [some.injEq, Slot.plain.injEq] at hm
  rw [hown m, hm]
  rfl

theorem SemCountOk.semalloc {c : Proc} {a : SAttr} {k : Code} (h : SemCountOk E s) (hr : RdyOk x s)
    (ha : 0 ≤ a.value.toInt) (hs : s.semalloc v c a = some (s', k)) : SemCountOk E s' := by
  rcases semalloc_cases hs with rfl | ⟨m, pr, P, hf, -, -, -, -, hs'⟩
  · exact h
  have hp : s'.procs = s.procs := by rw [hs']
  refine h.recount (congrArg (fun s => s.ss.sem) hs') (fun i _ => waiters_eq hp i) (fun _ _ => ?_)
  -- nobody can wait for a free semaphore
  have hempty : waiters s m = ∅ := by
    rw [Finset.eq_empty_iff_forall_notMem]
    intro p hmem
    obtain ⟨hdn, hps⟩ := mem_waiters.mp hmem
    obtain ⟨m', hm', hne⟩ := hr.sem p hdn
    rw [hps] at hm'
    cases hm'
    exact hne (hr.free_owner hf)
  rw [waiters_eq hp, hempty, Finset.card_empty]
  dsimp only
  omega

/-- What `MRT_sem_free` does. -/
theorem semFree_cases {c : Proc} (hs : s.semFree c m = some s') :
    s'.procs = s.procs ∧ ∃ P, s'.ss = {
      sem := update s.ss.sem m .rst
      alloc := P
      lock := s.ss.lock.rstLink m } := by
  obtain ⟨P, -, rfl⟩ := map_eq_some_iff.mp hs
  exact ⟨rfl, P, rfl⟩

theorem SemCountOk.semFree {c : Proc} (h : SemCountOk E s) (hs : s.semFree c m = some s') :
    SemCountOk E s' := by
  obtain ⟨hp, P, hss⟩ := semFree_cases hs
  exact h.recount (congrArg SemSt.sem hss) (fun i _ => waiters_eq hp i)
    (fun hi => absurd rfl hi)

/-! ## Locks -/

/-- A record is written, and the process stays in RT mode if it is there. -/
theorem rt_update (hp : s'.procs = update s.procs q r) (hr : r.realtime = (s.procs q).realtime)
    (i : Proc) (hi : (s.procs i).realtime = true) : (s'.procs i).realtime = true := by
  rw [hp]
  by_cases hiq : i = q
  · subst hiq
    rw [update_self, hr]
    exact hi
  · rw [update_of_ne hiq]
    exact hi

/-- The lock lists hold the mutexes of their carriers, and a mutex without a carrier is
    free. -/
structure LockOk (s : KState) : Prop where
  pool : s.ss.lock.Placed (fun m => (s.ss.sem m).carrier.map Slot.plain)
  held : ∀ m p, (s.ss.sem m).carrier = some p → (s.ss.sem m).mutex = true ∧
    (s.ss.sem m).owner ≠ hardware ∧ (s.ss.sem m).value.toInt ≤ 0 ∧ (s.procs p).realtime = true
  free : ∀ m, (s.ss.sem m).owner ≠ hardware → (s.ss.sem m).mutex = true →
    (s.ss.sem m).carrier = none → (s.ss.sem m).value.toInt = 1

theorem LockOk.same (h : LockOk s) (hss : s'.ss = s.ss)
    (hrt : ∀ m p, (s.ss.sem m).carrier = some p → (s.procs p).realtime = true →
      (s'.procs p).realtime = true) : LockOk s' := by
  refine ⟨by rw [hss]; exact h.pool, fun m p hc => ?_, by rw [hss]; exact h.free⟩
  rw [hss] at hc ⊢
  obtain ⟨h1, h2, h3, h4⟩ := h.held m p hc
  exact ⟨h1, h2, h3, hrt m p hc h4⟩

theorem LockOk.sched (h : LockOk s) (hs : SchedOnly s s') : LockOk s' :=
  h.same hs.ss (fun _ p _ hrt => by rw [hs.procs]; exact hrt)

theorem LockOk.kept (h : LockOk s) (hk : SemsKept s s') : LockOk s' :=
  h.same hk.ss (fun _ p _ hrt => (hk.proc p).1.trans hrt)

/-- One record and its link change. -/
theorem LockOk.relock {f : SemRec} (h : LockOk s) (hrt : ∀ p, (s.procs p).realtime = true →
      (s'.procs p).realtime = true) (hsem : s'.ss.sem = update s.ss.sem m f)
    (hpool : s'.ss.lock.Placed (update
      (fun m => (s.ss.sem m).carrier.map Slot.plain) m (f.carrier.map Slot.plain)))
    (hheld : ∀ p, f.carrier = some p → f.mutex = true ∧ f.owner ≠ hardware ∧ f.value.toInt ≤ 0 ∧
      (s'.procs p).realtime = true)
    (hfree : f.owner ≠ hardware → f.mutex = true → f.carrier = none → f.value.toInt = 1) :
    LockOk s' := by
  refine ⟨hpool.congr (fun i => ?_), fun i p hi => ?_, fun i h1 h2 h3 => ?_⟩
  all_goals
    rw [hsem] at *
    by_cases him : i = m
  · subst him
    simp
  · simp [him]
  · subst him
    rw [update_self] at hi ⊢
    exact hheld p hi
  · rw [update_of_ne him] at hi ⊢
    obtain ⟨a1, a2, a3, a4⟩ := h.held i p hi
    exact ⟨a1, a2, a3, hrt p a4⟩
  · subst him
    rw [update_self] at h1 h2 h3 ⊢
    exact hfree h1 h2 h3
  · rw [update_of_ne him] at h1 h2 h3 ⊢
    exact h.free i h1 h2 h3

/-- The place of a mutex that `p` holds. -/
theorem LockOk.place (hc : (s.ss.sem m).carrier = some p) :
    (fun m => ((s.ss.sem m).carrier.map Slot.plain : Option (Slot Proc Empty 16))) m =
      some (.plain p) := by
  simp [hc]

/-- **A MUTEX IS RAISED BY ITS CARRIER.** -/
theorem LockOk.semup (h : LockOk s) (hr : RdyOk x s)
    (hc : (s.ss.sem m).owner ≠ hardware → (s.ss.sem m).mutex = true →
      (s.ss.sem m).carrier = some s.cur)
    (hs : UpCase s m s') : LockOk s' := by
  -- a semaphore that is no mutex has no carrier
  have hnone : (s.ss.sem m).mutex ≠ true → (s.ss.sem m).carrier = none := by
    intro hmx
    cases hca : (s.ss.sem m).carrier with
    | none => rfl
    | some p => exact absurd (h.held m p hca).1 hmx
  cases hs with
  | refused _ he => exact he ▸ h
  | @wake rp P hown hneg hpick hp hP hss =>
    obtain ⟨-, hrt, -, -, -⟩ := hr.picked hpick
    have hrt' := rt_update hp rfl
    refine h.relock (m := m) hrt' (by rw [hss]) ?_ (fun p hp => ?_) (fun _ hmx hca => ?_)
    · rw [hss]
      split at hP
      · rename_i hmx
        have hpl := (h.pool.rmv (LockOk.place (hc hown hmx))).of_app
          (update_self _ _ _) hP
        rw [update_idem] at hpl
        simpa [hmx] using hpl
      · rename_i hmx
        subst hP
        rw [if_neg hmx, hnone hmx]
        refine h.pool.congr (fun i => ?_)
        by_cases him : i = m
        · subst him
          simp [hnone hmx]
        · simp [him]
    · by_cases hmx : (s.ss.sem m).mutex = true
      · simp only [hmx, if_true, some.injEq] at hp
        subst hp
        exact ⟨hmx, hown, by simp only; rw [toInt_succ (by omega)]; omega, hrt' _ hrt⟩
      · simp only [if_neg hmx, hnone hmx] at hp
        cases hp
    · simp only at hmx
      simp only [hmx, if_true] at hca
      cases hca
  | count hown hpos hp hss =>
    have hrt' : ∀ i, (s.procs i).realtime = true → (s'.procs i).realtime = true := by
      intro i hi
      rw [hp]
      exact hi
    by_cases hmx : (s.ss.sem m).mutex = true
    · have hca := hc hown hmx
      have hz : (s.ss.sem m).value.toInt = 0 := by
        have := (h.held m _ hca).2.2.1
        omega
      refine h.relock (m := m) hrt' (by rw [hss]) ?_ (fun p hp => ?_) (fun _ _ _ => ?_)
      · rw [hss, if_pos ⟨hz, hmx⟩]
        simpa [hz, hmx] using h.pool.rmv (LockOk.place hca)
      · simp only [hz, hmx, true_and, if_true] at hp
        cases hp
      · simp only
        rw [toInt_succ (by omega), hz]
        rfl
    · have hnz : ¬ ((s.ss.sem m).value.toInt = 0 ∧ (s.ss.sem m).mutex = true) := fun hf => hmx hf.2
      refine h.relock (m := m) hrt' (by rw [hss]) ?_ (fun p hp => ?_) (fun _ hm' _ => ?_)
      · rw [hss, if_neg hnz, if_neg hnz]
        refine h.pool.congr (fun i => ?_)
        by_cases him : i = m
        · subst him
          simp
        · simp [him]
      · simp only [if_neg hnz, hnone hmx] at hp
        cases hp
      · exact absurd hm' hmx

/-- **A MUTEX IS TAKEN BY THE RUNNING PROCESS.** -/
theorem LockOk.semdown (h : LockOk s) (hrun : Running s)
    (hroom : (s.ss.sem m).mutex = true → -2 ^ 31 < (s.ss.sem m).value.toInt)
    (hs : DownCase s m s') : LockOk s' := by
  -- the record keeps its carrier, and a held mutex stays not positive
  have hkeep : ∀ {f : SemRec}, s'.ss = { s.ss with sem := update s.ss.sem m f } →
      (∀ i, (s.procs i).realtime = true → (s'.procs i).realtime = true) →
      f.carrier = (s.ss.sem m).carrier → f.mutex = (s.ss.sem m).mutex →
      f.owner = (s.ss.sem m).owner → f.value = (s.ss.sem m).value - 1 →
      ((s.ss.sem m).owner ≠ hardware → (s.ss.sem m).mutex = true →
        (s.ss.sem m).carrier ≠ none) → LockOk s' := by
    intro f hss hrt hfc hfm hfo hfv hne
    refine h.relock (m := m) (f := f) hrt (by rw [hss]) ?_ (fun p hp => ?_)
      (fun h1 h2 h3 => ?_)
    · rw [hss, hfc, update_eq_self]
      exact h.pool
    · rw [hfc] at hp
      obtain ⟨a1, a2, a3, a4⟩ := h.held m p hp
      exact ⟨hfm.trans a1, by rw [hfo]; exact a2, by rw [hfv, toInt_pred (hroom a1)]; omega,
        hrt p a4⟩
    · rw [hfo] at h1
      rw [hfm] at h2
      rw [hfc] at h3
      exact absurd h3 (hne h1 h2)
  cases hs with
  | refused _ he => exact he ▸ h
  | wait hown hneg hp hss =>
    refine hkeep hss (rt_update hp rfl) rfl rfl rfl rfl (fun ho hm hn => ?_)
    have := h.free m ho hm hn
    omega
  | @lock P hown hone hmx hP hp hss =>
    have hca : (s.ss.sem m).carrier = none := by
      cases hca : (s.ss.sem m).carrier with
      | none => rfl
      | some p =>
        have := (h.held m p hca).2.2.1
        omega
    refine h.relock (m := m) (fun i hi => by rw [hp]; exact hi) (by rw [hss]) ?_
      (fun p hpc => ?_) (fun _ _ hf => absurd hf (by simp))
    · rw [hss]
      exact h.pool.of_app (by simp [hca]) hP
    · cases hpc
      exact ⟨hmx, hown, by simp only; rw [toInt_pred (by omega)]; omega, by rw [hp]; exact hrun.rt⟩
  | count hown hpos hnot hp hss =>
    refine hkeep hss (fun i hi => by rw [hp]; exact hi) rfl rfl rfl rfl (fun ho hm hn => ?_)
    exact hnot ⟨h.free m ho hm hn, hm⟩

theorem LockOk.semalloc {c : Proc} {a : SAttr} {k : Code} (h : LockOk s) (hr : RdyOk x s)
    (ha : a.mutex = true → a.value.toInt = 1) (hs : s.semalloc v c a = some (s', k)) :
    LockOk s' := by
  rcases semalloc_cases hs with rfl | ⟨m, pr, P, hf, -, -, -, -, hs'⟩
  · exact h
  have hp : s'.procs = s.procs := by rw [hs']
  have hss := congrArg KState.ss hs'
  have hca : (s.ss.sem m).carrier = none := by
    cases hca : (s.ss.sem m).carrier with
    | none => rfl
    | some p => exact absurd (hr.free_owner hf) (h.held m p hca).2.1
  refine h.relock (m := m) (fun i hi => by rw [hp]; exact hi) (by rw [hss]) ?_
    (fun p hpc => ?_) (fun _ hm _ => ha hm)
  · rw [hss, update_eq_self]
    exact h.pool
  · rw [show (s.ss.sem m).carrier = some p from hpc] at hca
    cases hca

/-- A mutex that nobody holds is freed. -/
theorem LockOk.semFree {c : Proc} (h : LockOk s) (hca : (s.ss.sem m).carrier = none)
    (hs : s.semFree c m = some s') : LockOk s' := by
  obtain ⟨hp, P, hss⟩ := semFree_cases hs
  refine h.relock (m := m) (f := .rst) (fun i hi => by rw [hp]; exact hi) (by rw [hss]) ?_
    (fun p hpc => nomatch hpc) (fun ho => absurd rfl ho)
  rw [hss]
  have hnone : (fun m => ((s.ss.sem m).carrier.map Slot.plain : Option (Slot Proc Empty 16))) m =
      none := by simp [hca]
  refine (h.pool.rstLink hnone).congr (fun i => ?_)
  by_cases him : i = m
  · subst him
    simp [hca, SemRec.rst]
  · simp [him]

/-! ## Leaving RT mode -/

/-- A notice is a kernel message. -/
theorem ksend_semsKept {src dest : Int} {prty : Nat} {t : MType} {c : Code} (ht : ¬ t.Sync)
    (hf : t ≠ .mbfree) (hk : prty < 16) (h : s.ksend v src dest prty t = some (s', c)) :
    SemsKept s s' := by
  have hm : Moves (.ksend 0 v src dest 0 .irq) (none, s) (none, s') := by
    refine ksend_moves ⟨rfl, id⟩ ht hf hk (fun sp hsp => ?_) h
    rw [procAddr_eq_some] at hsp
    exact .inr (.inr ⟨0, v, dest, 0, .irq, by rw [hsp]⟩)
  exact (hm.semsKept rfl).2

theorem DetachStep.semsKept (h : DetachStep v p s s') : SemsKept s s' := by
  cases h with
  | watch q => exact .of_update rfl ⟨rfl, rfl, rfl⟩ rfl rfl
  | @notice _ _ _ t _ ht hk =>
    have hkind : ¬ t.Sync ∧ t ≠ .mbfree := by
      rcases ht with rfl | rfl <;> decide
    exact ksend_semsKept hkind.1 hkind.2 (Fin.isLt _) hk
  | queue hq =>
    rcases dropQueue_inv hq with ⟨-, rfl⟩ | ⟨q, m, -, -, -, rfl⟩
    · exact .refl _
    · exact .of_update rfl ⟨rfl, rfl, rfl⟩ rfl rfl
  | sweep _ _ _ hk => exact (dropEntry_only hk).semsKept

/-- Up to its semaphores, a leaving process changes none, and nobody who waits for one. -/
theorem detach_semsKept (h : s.detach v p = some s') : SemsKept s s' := by
  obtain ⟨s1, h1, hsteps⟩ := detach_steps h
  clear h
  induction hsteps with
  | refl =>
    obtain ⟨hp, -, hss, hc, -⟩ := leave_only h1
    exact .of_update hp ⟨rfl, rfl, rfl⟩ hss hc
  | tail _ hs ih => exact ih.trans hs.semsKept

/-! ## The locks of a leaving process -/

theorem LockOk.carrier_of_first (h : LockOk s) (hf : s.ss.lock.first p = some m) :
    (s.ss.sem m).carrier = some p := by
  have hpl := h.pool.of_first hf
  obtain ⟨q, hq, he⟩ := map_eq_some_iff.mp hpl
  cases he
  exact hq

theorem LockOk.no_lock (h : LockOk s) (hf : s.ss.lock.first p = none) (m : Sem) :
    (s.ss.sem m).carrier ≠ some p := by
  intro hc
  exact h.pool.first_eq_none.mp hf m (by rw [hc]; rfl)

theorem UpCase.owner (h : UpCase s m s') (i : Sem) :
    (s'.ss.sem i).owner = (s.ss.sem i).owner := by
  cases h with
  | refused _ he => rw [he]
  | wake _ _ _ _ _ hss | count _ _ _ hss =>
    rw [hss]
    by_cases him : i = m
    · subst him
      simp
    · simp [him]

/-- Raising a semaphore keeps its owner, and gives a carrier only to one that has one. -/
theorem UpCase.keeps (h : UpCase s m s')
    (hc : (s.ss.sem m).mutex = true → (s.ss.sem m).carrier ≠ none) (i : Sem) :
    (s'.ss.sem i).owner = (s.ss.sem i).owner ∧
      ((s.ss.sem i).carrier = none → (s'.ss.sem i).carrier = none) := by
  refine ⟨h.owner i, fun hn => ?_⟩
  cases h with
  | refused _ he => exact he ▸ hn
  | wake _ _ _ _ _ hss =>
    rw [hss]
    by_cases him : i = m
    · subst him
      simp only [update_self]
      rw [if_neg (fun hmx => hc hmx hn)]
      exact hn
    · simpa only [update_of_ne him] using hn
  | count _ _ _ hss =>
    rw [hss]
    by_cases him : i = m
    · subst him
      simp only [update_self]
      split
      · rfl
      · exact hn
    · simpa only [update_of_ne him] using hn

/-- **THE LOOP OF `MRT_sem_unlock`, RUN BY THE PROCESS ITSELF**, empties its lock list. -/
theorem LockOk.semUnlock {n : Nat} (h : LockOk s) (hr : RtOk x s) (hcur : s.cur = p)
    (hs : semUnlock v p n s = some s') : LockOk s' ∧ s'.ss.lock.first p = none ∧
      ∀ i, (s'.ss.sem i).owner = (s.ss.sem i).owner ∧
        ((s.ss.sem i).carrier = none → (s'.ss.sem i).carrier = none) := by
  obtain ⟨hsteps, hnone⟩ := semUnlock_steps hs
  suffices hk : (LockOk s' ∧ ∀ i, (s'.ss.sem i).owner = (s.ss.sem i).owner ∧
      ((s.ss.sem i).carrier = none → (s'.ss.sem i).carrier = none)) ∧ RtOk x s' ∧ s'.cur = p from
    ⟨hk.1.1, hnone, hk.1.2⟩
  clear hs hnone
  induction hsteps with
  | refl => exact ⟨⟨h, fun _ => ⟨rfl, id⟩⟩, hr, hcur⟩
  | tail _ hs ih =>
    obtain ⟨⟨hl1, hk1⟩, hr1, hc1⟩ := ih
    obtain ⟨m, j, c, hf, hs⟩ := hs
    obtain ⟨hcur2, hup⟩ := semup_cases hs
    have hca := hl1.carrier_of_first hf
    refine ⟨⟨hl1.semup hr1.toRdyOk (fun _ _ => by rw [hca, hc1]) hup, fun i => ?_⟩,
      hr1.semup hs, hcur2.trans hc1⟩
    obtain ⟨ho2, hn2⟩ := hup.keeps (fun _ => by rw [hca]; simp) i
    exact ⟨ho2.trans (hk1 i).1, fun hn => hn2 ((hk1 i).2 hn)⟩

/-- **RUN BY ANOTHER PROCESS, THE LOOP NEVER ENDS**: each turn takes the mutex out of the
    list of the process that runs, and finds it again in the list of `p`. -/
theorem semUnlock_stuck : ∀ {n : Nat} {s : KState}, RtOk (some p) s → s.cur ≠ p →
    s.ss.lock.first p = some m → semUnlock v p n s = none := by
  intro n
  induction n with
  | zero =>
    intro s _ _ _
    rfl
  | succ n ih =>
    intro s hr hcur hf
    by_contra hne
    obtain ⟨s', hs⟩ := ne_none_iff_exists'.mp hne
    rw [KState.semUnlock, hf] at hs
    obtain ⟨⟨s1, c⟩, h1, h2⟩ := bind_eq_some_iff.mp hs
    obtain ⟨hcur1, hup⟩ := semup_cases h1
    have hf1 : s1.ss.lock.first p = some m := by
      cases hup with
      | refused _ he =>
        rw [he]
        exact hf
      | wake _ _ hpick _ hP hss =>
        rw [hss]
        show Pool.first _ p = some m
        split at hP
        · obtain ⟨hx, -, -, -, -⟩ := hr.picked hpick
          rw [Pool.first_app_ne (fun he => hx (by rw [he])) hP, Pool.first_rmv_ne hcur]
          exact hf
        · rw [hP]
          exact hf
      | count _ _ _ hss =>
        rw [hss]
        show Pool.first _ p = some m
        split
        · rw [Pool.first_rmv_ne hcur]
          exact hf
        · exact hf
    rw [ih (hr.semup h1) (by rw [hcur1]; exact hcur) hf1] at h2
    cases h2

/-- The unlocking in `MRT_set2nrt`. -/
theorem LockOk.unlocking (h : LockOk s) (hr : RtOk (some p) s)
    (hs : (if s.ss.lock.count p ≠ 0 then KState.semUnlock v p 64 s else some s) = some s') :
    LockOk s' ∧ s'.ss.lock.first p = none ∧ ∀ i, (s'.ss.sem i).owner = (s.ss.sem i).owner ∧
      ((s.ss.sem i).carrier = none → (s'.ss.sem i).carrier = none) := by
  by_cases hf : s.ss.lock.first p = none
  · split at hs
    · rw [KState.semUnlock, hf] at hs
      cases hs
      exact ⟨h, hf, fun _ => ⟨rfl, id⟩⟩
    · cases hs
      exact ⟨h, hf, fun _ => ⟨rfl, id⟩⟩
  · obtain ⟨m, hm⟩ := ne_none_iff_exists'.mp hf
    have hcount : s.ss.lock.count p ≠ 0 := by
      rw [h.pool.count_eq, Ne, Nat.cast_eq_zero, Finset.card_eq_zero,
        Finset.filter_eq_empty_iff]
      intro hall
      exact hall (Finset.mem_univ m) (h.pool.of_first hm)
    rw [if_pos hcount] at hs
    by_cases hcur : s.cur = p
    · exact h.semUnlock hr hcur hs
    · rw [semUnlock_stuck hr hcur hm] at hs
      cases hs

/-- A process without locks becomes a MINIX process. -/
theorem LockOk.back (h : LockOk s) (hno : ∀ m, (s.ss.sem m).carrier ≠ some p) :
    LockOk (s.backToMinix p) := by
  have hro := backToMinix_only s p
  refine h.same hro.ss (fun m i hi hrt => ?_)
  rw [hro.procs, updProc_ne]
  · exact hrt
  · rintro rfl
    exact hno m hi

theorem LockOk.set2nrt {c : Code} (h : LockOk s) (hr : RtOk none s) (hi : IpcOk O true none s)
    (hv : v.Copies) (hdn : (s.procs p).st.semDown = false)
    (hs : s.set2nrt v p = some (s', c)) :
    LockOk s' ∧ ∀ i, (s'.ss.sem i).owner = (s.ss.sem i).owner ∧
      ((s.ss.sem i).carrier = none → (s'.ss.sem i).carrier = none) := by
  rcases set2nrt_inv hs with ⟨-, rfl⟩ | ⟨hrt, s1, s2, s3, h1, h2, h3, rfl⟩
  · exact ⟨h, fun _ => ⟨rfl, id⟩⟩
  obtain ⟨hr1, hi1⟩ := hr.detach hi hv hrt hdn h1
  have hk1 := detach_semsKept h1
  obtain ⟨hl2, hf2, hk2⟩ := (h.kept hk1).unlocking hr1 h2
  obtain ⟨hr2, hi2⟩ := hr1.unlocking hi1 h2
  obtain ⟨-, hss, -⟩ := hr2.semEmpty hi2.msgs.downRt (hi.timers.slot p hrt) h3
  have hrt3 : ∀ i, (s3.procs i).realtime = (s2.procs i).realtime :=
    (release_moves (e := .ksend p v 0 0 0 .irq) rfl h3).2.1.rt
  have hl3 : LockOk s3 := hl2.same hss (fun _ i _ hi => (hrt3 i).trans hi)
  have hno : ∀ m, (s3.ss.sem m).carrier ≠ some p := by
    rw [hss]
    exact hl2.no_lock hf2
  refine ⟨hl3.back hno, fun i => ?_⟩
  rw [(backToMinix_only s3 p).ss]
  show (s3.ss.sem i).owner = _ ∧ (_ → (s3.ss.sem i).carrier = none)
  rw [hss, ← hk1.ss]
  exact hk2 i

/-! ## The counters of a leaving process -/

theorem SemCountOk.mono {E' : Sem → Prop} (h : SemCountOk E s) (hE : ∀ m, E m → E' m) :
    SemCountOk E' s :=
  fun m hown hn => h m hown (fun hm => hn (hE m hm))

/-- Raising a semaphore adds no waiter. -/
theorem UpCase.noWaiter {i : Sem} (h : UpCase s m s') (hno : NoWaiter s i) : NoWaiter s' i := by
  cases h with
  | refused _ he => exact he ▸ hno
  | @wake rp _ _ _ _ hp _ _ =>
    intro p hdn
    rw [hp] at hdn ⊢
    by_cases hpr : p = rp
    · subst hpr
      rw [update_self] at hdn
      cases hdn
    · rw [update_of_ne hpr] at hdn ⊢
      exact hno p hdn
  | count _ _ hp _ =>
    intro p hdn
    rw [hp] at hdn ⊢
    exact hno p hdn

/-- Raising a semaphore raises no value by more than one. -/
theorem UpCase.value_le (h : UpCase s m s') (hroom : (s.ss.sem m).value.toInt + 1 < 2 ^ 31)
    (i : Sem) : (s'.ss.sem i).value.toInt ≤ (s.ss.sem i).value.toInt + 1 := by
  have hupd : ∀ {f : SemRec}, s'.ss.sem = update s.ss.sem m f → f.value = (s.ss.sem m).value + 1 →
      (s'.ss.sem i).value.toInt ≤ (s.ss.sem i).value.toInt + 1 := by
    intro f hf hv
    rw [hf]
    by_cases him : i = m
    · subst him
      rw [update_self, hv, toInt_succ hroom]
    · rw [update_of_ne him]
      omega
  cases h with
  | refused _ he => exact he ▸ by omega
  | wake _ _ _ _ _ hss | count _ _ _ hss => exact hupd (congrArg SemSt.sem hss) rfl

/-- The values are far enough below the largest `int` to be raised `n` times. -/
def Roomy (s : KState) (n : Nat) : Prop := ∀ m, (s.ss.sem m).value.toInt + n < 2 ^ 31

instance (s : KState) (n : Nat) : Decidable (Roomy s n) := inferInstanceAs (Decidable (∀ _, _))

theorem SemCountOk.semUnlock {n : Nat} (h : SemCountOk E s) (hr : RtOk x s) (hroom : Roomy s n)
    (hs : KState.semUnlock v p n s = some s') :
    SemCountOk E s' ∧ (∀ i, NoWaiter s i → NoWaiter s' i) ∧
      ∀ i, (s'.ss.sem i).owner = (s.ss.sem i).owner := by
  induction n generalizing s with
  | zero => cases hs
  | succ n ih =>
    rw [KState.semUnlock] at hs
    split at hs
    · cases hs
      exact ⟨h, fun _ => id, fun _ => rfl⟩
    · rename_i m _
      obtain ⟨r, h1, h2⟩ := bind_eq_some_iff.mp hs
      have hup := (semup_cases h1).2
      have hm : (s.ss.sem m).value.toInt + 1 < 2 ^ 31 := by
        have := hroom m
        omega
      have hroom' : Roomy r.1 n := by
        intro i
        have hi := hroom i
        have hle := hup.value_le hm i
        omega
      obtain ⟨hc, hno, ho⟩ := ih (h.semup hr.toRdyOk hm hup) (hr.semup h1) hroom' h2
      exact ⟨hc, fun i hi => hno i (hup.noWaiter hi), fun i => (ho i).trans (hup.owner i)⟩

theorem SemCountOk.unlocking (h : SemCountOk E s) (hr : RtOk x s) (hroom : Roomy s 64)
    (hs : (if s.ss.lock.count p ≠ 0 then KState.semUnlock v p 64 s else some s) = some s') :
    SemCountOk E s' ∧ (∀ i, NoWaiter s i → NoWaiter s' i) ∧
      ∀ i, (s'.ss.sem i).owner = (s.ss.sem i).owner := by
  split at hs
  · exact h.semUnlock hr hroom hs
  · cases hs
    exact ⟨h, fun _ => id, fun _ => rfl⟩

/-- A waiter of `m` is released; its value is not raised. -/
theorem SemCountOk.releaseStep (h : SemCountOk E s) (hE : E m) (hr : RtOk x s)
    (hs : ReleaseStep m s s') : SemCountOk E s' := by
  cases hs with
  | @wake _ _ s3 q hp h1 h2 h3 =>
    obtain ⟨-, -, -, hps, -⟩ := hr.picked hp
    obtain ⟨hpr, -, hss, -⟩ := release_only h1 h2 h3
    intro i hi hn
    have hi' : (s.ss.sem i).owner ≠ hardware := by
      rw [show (s3.setRet q .exiting).ss = s.ss from hss] at hi
      exact hi
    have him : m ≠ i := by
      rintro rfl
      exact hn hE
    have hnot : q ∉ waiters s i := by
      rw [mem_waiters, hps]
      simp [him]
    rw [show (s3.setRet q .exiting).ss = s.ss from hss,
      show waiters (s3.setRet q .exiting) i = waiters s3 i from rfl,
      waiters_erase hpr rfl, Finset.erase_eq_of_notMem hnot]
    exact h i hi' hn

/-- Without waiters nothing is released. -/
theorem releaseWaiters_nobody {n : Nat} (hr : RdyOk x s) (hno : NoWaiter s m)
    (hs : releaseWaiters m n s = some s') : s' = s := by
  cases n with
  | zero => cases hs
  | succ n =>
    rw [KState.releaseWaiters] at hs
    cases hp : s.sprocPick m with
    | none =>
      simp only [hp, some.injEq] at hs
      exact hs.symm
    | some q =>
      obtain ⟨-, -, hst, hps, -⟩ := hr.picked hp
      exact absurd hps (hno q (by rw [hst]; rfl))

theorem semEmptyLoop_nobody : ∀ {ms : List Sem} {s : KState}, RdyOk x s →
    (∀ m ∈ ms, NoWaiter s m) → semEmptyLoop ms s = some s' → s' = s := by
  intro ms
  induction ms with
  | nil =>
    intro s _ _ hs
    exact (some.inj hs).symm
  | cons m ms ih =>
    intro s hr hno hs
    obtain ⟨s1, h1, h2⟩ := bind_eq_some_iff.mp hs
    obtain rfl := releaseWaiters_nobody hr (hno m (by simp)) h1
    exact ih hr (fun i hi => hno i (by simp [hi])) h2

theorem SemCountOk.semEmptyLoop {ms : List Sem} (h : SemCountOk E s) (hr : RtOk x s)
    (hE : ∀ m ∈ ms, E m) (hs : semEmptyLoop ms s = some s') : SemCountOk E s' := by
  have hsteps := semEmptyLoop_steps hs
  suffices hk : SemCountOk E s' ∧ RtOk x s' from hk.1
  clear hs
  induction hsteps with
  | refl => exact ⟨h, hr⟩
  | tail _ hs ih =>
    obtain ⟨m, hm, hs⟩ := hs
    exact ⟨ih.1.releaseStep (hE m hm) ih.2 hs, (ih.2.releaseStep hs).1⟩

/-- The semaphores in the list of `p` are those it has allocated. -/
theorem RdyOk.chain_owner {ms : List Sem} (h : RdyOk x s)
    (hms : s.ss.alloc.chain (some p) = some ms) (hm : m ∈ ms) :
    (s.ss.sem m).owner = procNr p := by
  obtain ⟨f, hpl, hown⟩ := h.alloc
  obtain ⟨xs, hxs, -, hmem⟩ := hpl.chain (some p)
  cases hms.symm.trans hxs
  have hf := (hmem m).mp hm
  simp only [some.injEq, Slot.plain.injEq] at hf
  rw [hown m, hf]
  rfl

/-- **THE COUNTERS AFTER `MRT_set2nrt`**: right for all semaphores but those of the
    process, and for those too if nobody waited for them. -/
theorem SemCountOk.set2nrt {c : Code} (h : SemCountOk E s) (hr : RtOk none s)
    (hi : IpcOk O true none s) (hv : v.Copies) (hdn : (s.procs p).st.semDown = false)
    (hroom : Roomy s 64) (hs : s.set2nrt v p = some (s', c)) :
    SemCountOk (fun m => E m ∨ (s'.ss.sem m).owner = procNr p) s' ∧
      ((∀ m, (s.ss.sem m).owner = procNr p → NoWaiter s m) → SemCountOk E s') := by
  rcases set2nrt_inv hs with ⟨-, rfl⟩ | ⟨hrt, s1, s2, s3, h1, h2, h3, rfl⟩
  · exact ⟨h.mono (fun _ => .inl), fun _ => h⟩
  obtain ⟨hr1, hi1⟩ := hr.detach hi hv hrt hdn h1
  have hk1 := detach_semsKept h1
  obtain ⟨hc2, hno2, ho2⟩ := (h.kept hk1).unlocking hr1 (by rw [Roomy, hk1.ss]; exact hroom) h2
  obtain ⟨hr2, hi2⟩ := hr1.unlocking hi1 h2
  have hro := backToMinix_only s3 p
  -- the last part changes the leaving process only, which waits for nothing
  have hback : ∀ {E' : Sem → Prop}, SemCountOk E' s3 → RdyOk (some p) s3 →
      SemCountOk E' (s3.backToMinix p) := by
    intro E' hc hr3
    refine hc.same (fun m => waiters_congr (fun i => ?_)) (fun m => ?_)
    · rw [hro.procs]
      by_cases hip : i = p
      · subst hip
        rw [updProc_self]
        exact ⟨(hr3.leaver i rfl).symm, fun hf => absurd hf (by simp [hr3.leaver i rfl])⟩
      · rw [updProc_ne _ _ hip]
        exact ⟨rfl, fun _ => rfl⟩
    · rw [hro.ss]
      exact ⟨rfl, rfl⟩
  obtain ⟨hr3, hss, -⟩ := hr2.semEmpty hi2.msgs.downRt (hi.timers.slot p hrt) h3
  have hown : ∀ m, ((s3.backToMinix p).ss.sem m).owner = (s2.ss.sem m).owner := by
    intro m
    rw [hro.ss]
    show (s3.ss.sem m).owner = _
    rw [hss]
  refine ⟨hback ?_ hr3.toRdyOk, fun hno => hback ?_ hr3.toRdyOk⟩
  · have hc2' : SemCountOk (fun m => E m ∨ ((s3.backToMinix p).ss.sem m).owner = procNr p) s2 :=
      hc2.mono (fun _ => .inl)
    split at h3
    · obtain ⟨ms, hms, hloop⟩ := bind_eq_some_iff.mp h3
      refine hc2'.semEmptyLoop hr2 (fun m hm => .inr ?_) hloop
      rw [hown]
      exact hr2.chain_owner hms hm
    · cases h3
      exact hc2'
  · split at h3
    · obtain ⟨ms, hms, hloop⟩ := bind_eq_some_iff.mp h3
      have hnobody : ∀ m ∈ ms, NoWaiter s2 m := by
        intro m hm
        have ho := hr2.chain_owner hms hm
        rw [ho2, hk1.ss] at ho
        refine hno2 m (fun i hdn => ?_)
        obtain ⟨-, hd, hps⟩ := hk1.proc i
        rw [hd] at hdn
        rw [hps]
        exact hno m ho i hdn
      rw [semEmptyLoop_nobody hr2.toRdyOk hnobody hloop]
      exact hc2
    · cases h3
      exact hc2

/-! ## Exiting -/

theorem SemCountOk.freeSems : ∀ {n : Nat} {s : KState}, SemCountOk E s → freeSems p n s = some s' →
    SemCountOk E s' ∧ ∀ m, (s'.ss.sem m).owner = (s.ss.sem m).owner ∨
      (s'.ss.sem m).owner = hardware := by
  intro n
  induction n with
  | zero =>
    intro s _ hs
    cases hs
  | succ n ih =>
    intro s h hs
    rw [KState.freeSems] at hs
    split at hs
    · cases hs
      exact ⟨h, fun _ => .inl rfl⟩
    · rename_i m hf
      obtain ⟨s1, h1, h2⟩ := bind_eq_some_iff.mp hs
      obtain ⟨hc2, ho2⟩ := ih (h.semFree h1) h2
      obtain ⟨-, P, hss⟩ := semFree_cases h1
      refine ⟨hc2, fun i => ?_⟩
      rcases ho2 i with ho | ho
      · by_cases him : i = m
        · subst him
          right
          rw [ho, hss]
          simp only [update_self]
          rfl
        · left
          rw [ho, hss]
          simp only [update_of_ne him]
      · exact .inr ho

theorem LockOk.freeSems : ∀ {n : Nat} {s : KState}, LockOk s → RtOk none s →
    (∀ m, (s.ss.sem m).owner = procNr p → NoWaiter s m) →
    (∀ m, (s.ss.sem m).owner = procNr p → (s.ss.sem m).carrier = none) →
    freeSems p n s = some s' → LockOk s' := by
  intro n
  induction n with
  | zero =>
    intro s _ _ _ _ hs
    cases hs
  | succ n ih =>
    intro s h hr hno hca hs
    rw [KState.freeSems] at hs
    split at hs
    · cases hs
      exact h
    · rename_i m hf
      obtain ⟨s1, h1, h2⟩ := bind_eq_some_iff.mp hs
      obtain ⟨hin, ho⟩ := hr.alloc.owner_of_first hf
      obtain ⟨hp, P, hss⟩ := semFree_cases h1
      refine ih (h.semFree (hca m ho) h1) (hr.semFree (hno m ho) hin h1)
        (fun i hi q hdn => ?_) (fun i hi => ?_) h2
      all_goals
        rw [hss] at hi
        by_cases him : i = m
      · subst him
        rw [hp] at hdn ⊢
        exact hno i ho q hdn
      · simp only [update_of_ne him] at hi
        rw [hp] at hdn ⊢
        exact hno i hi q hdn
      · subst him
        rw [hss]
        simp only [update_self]
        rfl
      · simp only [update_of_ne him] at hi
        rw [hss]
        simp only [update_of_ne him]
        exact hca i hi

/-- The record of a MINIX process is written. -/
theorem SemCountOk.minix (h : SemCountOk E s) (hst : (s.procs p).st = .clear)
    (hp : s'.procs = update s.procs p r) (hr : r.st = .clear)
    (hsem : s'.ss.sem = s.ss.sem) : SemCountOk E s' := by
  refine h.same (fun m => waiters_congr (fun i => ?_)) (fun m => by rw [hsem]; exact ⟨rfl, rfl⟩)
  rw [hp]
  by_cases hip : i = p
  · subst hip
    rw [update_self, hr, hst]
    exact ⟨rfl, fun hf => nomatch hf⟩
  · rw [update_of_ne hip]
    exact ⟨rfl, fun _ => rfl⟩

/-- A MINIX process has no locks, so its list may be reset. -/
theorem LockOk.procRst (h : LockOk s) (hrt : (s.procs p).realtime = false) :
    LockOk (s.procRst p) := by
  have hne : ∀ m, (s.ss.sem m).carrier ≠ some p := by
    intro m hc
    have := (h.held m p hc).2.2.2
    rw [hrt] at this
    cases this
  refine ⟨?_, fun m i hi => ?_, h.free⟩
  · refine (h.pool.lrst p).congr (fun m => ?_)
    show (s.ss.sem m).carrier.map Slot.plain = _
    cases hc : (s.ss.sem m).carrier with
    | none => rfl
    | some q =>
      have hqp : q ≠ p := by
        rintro rfl
        exact hne m hc
      rw [map_some, filter_some, if_pos (by simpa using hqp)]
  · obtain ⟨h1, h2, h3, h4⟩ := h.held m i hi
    refine ⟨h1, h2, h3, ?_⟩
    have hip : i ≠ p := by
      rintro rfl
      exact hne m hi
    simpa [KState.procRst, updProc_ne _ _ hip] using h4

theorem SemCountOk.mrtExit {nr : Int} {c : Code} (h : SemCountOk (fun _ => False) s)
    (hr : RtOk none s) (hi : IpcOk O true none s) (hv : v.Copies)
    (hok : Settled s (.task v (.exit nr))) (hroom : Roomy s 64)
    (hs : s.mrtExit v nr = some (s', c)) : SemCountOk (fun _ => False) s' := by
  obtain ⟨rp, s1, s2, c1, hrp, h1, h2, rfl, -, -, hr2, -, hst2, hf2⟩ := hr.mrtExit hi hv hok hs
  obtain ⟨hc1, -⟩ := h.set2nrt hr hi hv (hok rp hrp).1 hroom h1
  obtain ⟨hc2, ho2⟩ := hc1.freeSems h2
  refine SemCountOk.minix (s := s2) (fun m hown _ => hc2 m hown ?_) hst2 rfl rfl rfl
  -- a semaphore that the process had is free now
  rintro (hf | ho)
  · exact hf
  · have ho' : (s2.ss.sem m).owner = procNr rp := by
      rcases ho2 m with hm | hm
      · rw [hm]
        exact ho
      · exact absurd hm hown
    have hin := hr2.alloc.mem_of_owner hown ho'
    obtain ⟨f, hpl, -⟩ := hr2.alloc
    exact hpl.first_eq_none.mp hf2 m ((hpl.mem_list _).mp hin)

theorem LockOk.mrtExit {nr : Int} {c : Code} (h : LockOk s) (hr : RtOk none s)
    (hi : IpcOk O true none s) (hv : v.Copies) (hok : Settled s (.task v (.exit nr)))
    (hfit : ∀ rp ∈ procAddr nr, ∀ m, (s.ss.sem m).owner = procNr rp →
      (s.ss.sem m).carrier = none) (hs : s.mrtExit v nr = some (s', c)) : LockOk s' := by
  obtain ⟨rp, s1, s2, c1, hrp, h1, h2, rfl, hr1, hno1, -, hrt2, -, -⟩ := hr.mrtExit hi hv hok hs
  obtain ⟨hl1, hk1⟩ := h.set2nrt hr hi hv (hok rp hrp).1 h1
  refine (hl1.freeSems hr1 hno1 (fun m hm => ?_) h2).procRst hrt2
  obtain ⟨ho, hca⟩ := hk1 m
  rw [ho] at hm
  exact hca (hfit rp hrp m hm)

/-! ## Timeouts and new RT processes -/

/-- A timeout that ends a wait for a message leaves the semaphores alone. -/
theorem Timeout.semsKept {t : Timer} (h : Timeout v s p t s') (ht : t.action ≠ .down) :
    SemsKept s s' := by
  obtain ⟨⟨-, hss, hcur⟩, q, r, -, hp, hfr, hps, hdn⟩ := h.effect
  exact .of_update hp ⟨(gear_of_frame hfr).1, hdn ht, hps⟩ hss hcur

/-- Every timeout leaves values, carriers and lock lists alone. -/
theorem Timeout.ss_eq {t : Timer} (h : Timeout v s p t s') :
    s'.ss = s.ss ∧ ∀ i, (s'.procs i).realtime = (s.procs i).realtime := by
  obtain ⟨⟨-, hss, -⟩, q, r, -, hp, hfr, -⟩ := h.effect
  refine ⟨hss, fun i => ?_⟩
  rw [hp]
  by_cases hiq : i = q
  · rw [hiq, update_self]
    exact (gear_of_frame hfr).1
  · rw [update_of_ne hiq]

/-- A process that enters RT mode waits for no semaphore and holds none. -/
theorem rtkSet2rt_sems {c : Code} (h : s.rtkSet2rt = some (s', c)) :
    s'.ss = s.ss ∧ ∀ i, ((s.procs i).realtime = true → (s'.procs i).realtime = true) ∧
      (s'.procs i).st.semDown = (s.procs i).st.semDown ∧
      (s'.procs i).psem = (s.procs i).psem := by
  rcases rtkSet2rt_inv h with rfl | ⟨q, w, t, s1, -, -, -, h1, h2⟩
  · exact ⟨rfl, fun _ => ⟨id, rfl, rfl⟩⟩
  have hu := unready_only h1
  have ha := rdyQApp_only h2
  refine ⟨ha.ss.trans hu.ss, fun i => ?_⟩
  rw [ha.procs]
  by_cases hi : i = s.cur
  · subst hi
    rw [updProc_self, hu.procs, equip, updProc_self]
    exact ⟨fun _ => rfl, rfl, rfl⟩
  · rw [updProc_ne _ _ hi, hu.procs, equip, updProc_ne _ _ hi]
    exact ⟨id, rfl, rfl⟩

/-! ## Every run -/

/-- The condition for the counters: the initial value is not negative, no value is raised
    beyond the largest `int`, no wait for a semaphore times out, and a process that leaves RT
    mode without exiting has allocated no semaphore with waiters.  A process that leaves raises
    at most 64 times. -/
def CountFit (s : KState) : Event → Prop
  | .rtk p _ .set2nrt => Roomy s 64 ∧ ∀ m, (s.ss.sem m).owner = procNr p → NoWaiter s m
  | .rtk _ _ (.semup id) => ∀ m ∈ tabAddr 16 id, (s.ss.sem m).value.toInt + 1 < 2 ^ 31
  | .task _ (.semalloc _ a) => 0 ≤ a.value.toInt
  | .task _ (.exit _) => Roomy s 64
  | .task _ (.stdsignal _ pid) => Roomy s 64 ∧ ∀ rp ∈ s.pid2pptr pid, ∀ m,
      (s.ss.sem m).owner = procNr rp → NoWaiter s m
  | .flush _ _ k => ∀ w ∈ (s.tm.q.hdr (.exp k)).first, (s.tm.vt w).action ≠ .down
  | _ => True

instance (s : KState) (e : Event) : Decidable (CountFit s e) := by
  induction e using Event.casesOn with
  | rtk _ _ c => induction c using Call.casesOn <;> unfold CountFit <;> infer_instance
  | task _ r => induction r using Request.casesOn <;> unfold CountFit <;> infer_instance
  | _ => unfold CountFit; infer_instance

/-- The events that touch no semaphore. -/
theorem step_semsKept (hs : s.step e = some s') (he : e.mail = true) :
    ∃ s0 s1, SchedOnly s s0 ∧ SemsKept s0 s1 ∧ SchedOnly s1 s' := by
  obtain ⟨s0, s1, hent, hm, -, hp⟩ := step_moves hs
  refine ⟨s0, s1, hent.sched, (hm.semsKept he).2, ?_⟩
  rcases hp with rfl | hp
  · exact .refl _
  · exact (pickProc_only hp).1.toSchedOnly

/-- A timer that a flush runs. -/
theorem expire_sems {w : VT} {k : Prty} (hi : IpcOk O false none s)
    (hf : (s.tm.q.hdr (.exp k)).first = some w) {w' : VT} (hthis : (s.tm.vt w).this = some w')
    (hr : s.vtimerRun v w' = some s') :
    s'.ss = s.ss ∧ (∀ i, (s'.procs i).realtime = (s.procs i).realtime) ∧
      ((s.tm.vt w).action ≠ .down → SemCountOk E s → SemCountOk E s') := by
  have hpl := hi.timers.tm.placed.of_first hf
  obtain rfl := (hi.timers.tm.fits w).this w' hthis
  obtain ⟨s1, tm, t, -, -, rfl, hcase⟩ := hi.timers.expire_inv hpl hthis hr
  have hk0 : SemsKept s { s with tm := tm } := .of_procs rfl rfl rfl
  have hk1 : SemsKept s1 { s1 with tm := t } := .of_procs rfl rfl rfl
  rcases hcase with ⟨rfl, -⟩ | ⟨p, -, hto⟩
  · exact ⟨rfl, fun _ => rfl, fun _ hc => hc.kept (hk0.trans hk1)⟩
  · exact ⟨hto.ss_eq.1, hto.ss_eq.2, fun hne hc =>
      hc.kept ((hk0.trans (hto.semsKept hne)).trans hk1)⟩

/-- What a call finds when it is entered for the process `p`. -/
theorem Steady.enter (hok : Steady s e) (hr : RdyOk none s) (hi : IpcOk O false none s)
    (hc : e.isCall = true) (p : Proc) :
    RtOk none { s with cur := p } ∧ IpcOk O true none { s with cur := p } :=
  ⟨RtOk.same ⟨hr, hok.toUnlimited⟩ (.of_eq rfl rfl rfl rfl),
    (hi.calm (fun _ => hok.calm hc)).sched ⟨rfl, rfl, rfl, rfl, rfl⟩⟩

/-- **EVERY EVENT THAT MEETS THE CONDITIONS KEEPS THE COUNTERS RIGHT.** -/
theorem SemCountOk.step (h : SemCountOk (fun _ => False) s) (hr : RdyOk none s)
    (hi : IpcOk O false none s) (hok : Steady s e) (hfit : CountFit s e)
    (hs : s.step e = some s') : SemCountOk (fun _ => False) s' := by
  by_cases he : e.mail = true
  · obtain ⟨s0, s1, h0, h1, h2⟩ := step_semsKept hs he
    exact ((h.sched h0).kept h1).sched h2
  have he : e.mail = false := by simpa using he
  cases e with
  | ksend _ _ _ _ _ _ | inherit _ _ | disinherit _ _ | irqTimer _ _ _ | tick => cases he
  | rtk p v c =>
    have h0 : SemCountOk (fun _ => False) { s with cur := p } := h
    obtain ⟨hr0, hi0⟩ := hok.enter hr hi rfl p
    obtain ⟨-, ⟨-, rfl⟩ | ⟨s1, r, -, hrun, h1, h2⟩⟩ := step_rtk hs
    · exact h0
    refine SemCountOk.sched ?_ (pickProc_only h2).1.toSchedOnly
    cases c with
    | sleep _ | wakeup _ _ | rqst _ | reply _ | arqst _ | uprqst _ | sign _ | receive _
    | rqrcv _ => cases he
    | set2rt =>
      obtain ⟨hss, hp⟩ := rtkSet2rt_sems h1
      exact h0.same (fun m => waiters_congr (fun i => ⟨(hp i).2.1, fun _ => (hp i).2.2⟩))
        (fun m => by rw [hss]; exact ⟨rfl, rfl⟩)
    | set2nrt =>
      have hclear := (hrun (by simp)).clear
      exact (h0.set2nrt hr0 hi0 hok.copies (by rw [hclear]; rfl) hfit.1 h1).2 hfit.2
    | semup id =>
      obtain ⟨m, hm, h1⟩ := bind_eq_some_iff.mp h1
      exact h0.semup hr0.toRdyOk (hfit m hm) (semup_cases h1).2
    | semdown id t =>
      obtain ⟨m, hm, h1⟩ := bind_eq_some_iff.mp h1
      exact h0.semdown (hrun (by simp)).clear (semdown_cases h1)
  | flush p v k =>
    obtain ⟨-, rfl | ⟨plk, w, s1, hf, hw, h1, h2⟩⟩ := step_flush hs
    · exact h
    have hi0 : IpcOk O false none { s with cur := p } := hi.sched ⟨rfl, rfl, rfl, rfl, rfl⟩
    have h1' := (expire_sems hi0 hf hw h1).2.2 (hfit _ hf) h
    rcases h2 with rfl | h2
    · exact h1'
    · exact h1'.sched (pickProc_only h2).1.toSchedOnly
  | task v q =>
    have h0 : SemCountOk (fun _ => False) { s with cur := mrtTask } := h
    obtain ⟨hr0, hi0⟩ := hok.enter hr hi rfl mrtTask
    obtain ⟨-, s1, c, h1, h2⟩ := step_task hs
    refine SemCountOk.sched ?_ (pickProc_only h2).1.toSchedOnly
    cases q with
    | setpattr caller a =>
      rcases request_cases h1 with ⟨-, rfl⟩ | ⟨-, c, -, hrt, hf⟩
      · exact h0
      rcases setpattr_cases hf with rfl | ⟨k, rfl⟩
      · exact h0
      · exact h0.minix (hi0.msgs.nrt c hrt) rfl rfl rfl
    | semalloc caller a =>
      rcases request_cases h1 with ⟨-, rfl⟩ | ⟨-, c, -, -, hf⟩
      · exact h0
      · exact h0.semalloc hr0.toRdyOk hfit hf
    | semfree caller id =>
      rcases request_cases h1 with ⟨-, rfl⟩ | ⟨-, c, -, -, hf⟩
      · exact h0
      rcases semfree_cases hf with rfl | ⟨m, -, -, -, hf⟩
      · exact h0
      · exact h0.semFree hf
    | exit nr =>
      rcases request_cases h1 with ⟨-, rfl⟩ | ⟨-, c, -, -, hf⟩
      · exact h0
      exact h0.mrtExit hr0 hi0 hok.copies hok.settled hfit hf
    | stdsignal caller pid =>
      rcases request_cases h1 with ⟨-, rfl⟩ | ⟨-, c, -, -, hf⟩
      · exact h0
      rw [stdsignal] at hf
      split at hf
      · cases hf
        exact h0
      · rename_i rp hrp
        exact (h0.set2nrt hr0 hi0 hok.copies (hok.settled rp hrp) hfit.1 hf).2 (hfit.2 rp hrp)

/-! ## The counters in every run -/

theorem Initial.semCountOk (h : Initial s) : SemCountOk (fun _ => False) s := by
  intro m hown _
  rw [(semInit h.ss).2.2] at hown
  exact absurd rfl hown

/-- The condition of the runs in which the counters are right. -/
def SteadyCount (s : KState) (e : Event) : Prop := Steady s e ∧ CountFit s e

instance (s : KState) (e : Event) : Decidable (SteadyCount s e) :=
  inferInstanceAs (Decidable (Steady s e ∧ CountFit s e))

theorem ReachBy.semCountOk (h0 : Initial s₀) (h : ReachBy SteadyCount s₀ s) :
    SemCountOk (fun _ => False) s := by
  induction h with
  | init => exact h0.semCountOk
  | step hreach hok hs ih =>
    have hst := ReachBy.mono hreach (fun _ _ h => h.1)
    exact ih.step (hst.rdyOk h0) (hst.quiet.ipcOk h0) hok.1 hok.2 hs

/-- The processes in the wait list of a semaphore, level by level. -/
def KState.linked (s : KState) (m : Sem) : List Proc :=
  (List.finRange 16).flatMap (fun l => s.rq.pool.list (.level (some m) l))

theorem RdyOk.nodup_linked (h : RdyOk none s) (m : Sem) : (s.linked m).Nodup := by
  refine List.nodup_flatMap.mpr ⟨fun l _ => h.pool.nodup_list _, ?_⟩
  refine (List.nodup_finRange 16).imp (fun {l l'} hne p hp hp' => hne ?_)
  rw [h.pool.mem_list] at hp hp'
  rw [hp] at hp'
  simpa using hp'

/-- A process is in the wait list exactly while it waits. -/
theorem RdyOk.mem_linked (h : RdyOk none s) (hd : DownRt s) :
    p ∈ s.linked m ↔ (s.procs p).st.semDown = true ∧ (s.procs p).psem = some m := by
  rw [KState.linked, List.mem_flatMap]
  constructor
  · rintro ⟨l, -, hl⟩
    rw [h.pool.mem_list] at hl
    obtain ⟨-, -, hst, hm, -⟩ := h.of_wait hl
    exact ⟨by rw [hst]; rfl, hm⟩
  · rintro ⟨hdn, hm⟩
    refine ⟨s.semLevel m p, List.mem_finRange _, ?_⟩
    rw [h.pool.mem_list]
    exact rdyPlace_down (by simp) (hd p hdn) (h.alone p hdn) hm

/-- **THE COUNTER AND THE WAIT LIST.**  In every state of a run that meets the conditions,
    the wait list of an allocated semaphore holds each process that waits for it once and
    nobody else, they are as many as the value is negative, and `MRT_semup` always finds
    the process that it has to wake. -/
theorem semaphore_waiters (h0 : Initial s₀) (h : ReachBy SteadyCount s₀ s) (m : Sem)
    (hm : (s.ss.sem m).owner ≠ hardware) :
    (s.linked m).Nodup ∧
    (∀ p, p ∈ s.linked m ↔ (s.procs p).st.semDown = true ∧ (s.procs p).psem = some m) ∧
    ((s.linked m).length : Int) = max 0 (-(s.ss.sem m).value.toInt) ∧
    ((s.ss.sem m).value.toInt < 0 → s.sprocPick m ≠ none) := by
  have hst := h.mono (fun _ _ h => h.1)
  have hr := hst.rdyOk h0
  have hd := (hst.quiet.ipcOk h0).msgs.downRt
  have hmem : ∀ p, p ∈ s.linked m ↔
      (s.procs p).st.semDown = true ∧ (s.procs p).psem = some m := fun p => hr.mem_linked hd
  have hcard : (s.linked m).length = (waiters s m).card := by
    rw [← List.toFinset_card_of_nodup (hr.nodup_linked m)]
    congr 1
    ext p
    rw [List.mem_toFinset, hmem, mem_waiters]
  have hlen : ((s.linked m).length : Int) = max 0 (-(s.ss.sem m).value.toInt) := by
    rw [hcard]
    exact h.semCountOk h0 m hm (fun hf => hf)
  refine ⟨hr.nodup_linked m, hmem, hlen, fun hneg hpick => ?_⟩
  -- a negative value needs a waiter, and the search finds one
  have hpos : 0 < (s.linked m).length := by omega
  obtain ⟨p, hp⟩ := List.exists_mem_of_length_pos hpos
  obtain ⟨hdn, hps⟩ := (hmem p).mp hp
  exact hr.nobody hpick (hd p hdn) hdn hps

/-- In the run `oneWaits` process 15 is the only one in the wait list, and the value
    is -1. -/
theorem semaphore_waiters_one : ∃ s, ReachBy SteadyCount boot s ∧ (s.ss.sem 0).value.toInt = -1 ∧
    (s.linked 0).length = 1 ∧ 15 ∈ s.linked 0 := by
  obtain ⟨s, h, hown, hval, hdn, hps⟩ : ∃ s, ReachBy SteadyCount boot s ∧
      (s.ss.sem 0).owner ≠ hardware ∧ (s.ss.sem 0).value.toInt = -1 ∧
      (s.procs 15).st.semDown = true ∧ (s.procs 15).psem = some 0 :=
    ReachBy.of_run oneWaits (by decide +kernel)
  obtain ⟨-, hmem, hlen, -⟩ := semaphore_waiters boot_initial h 0 hown
  refine ⟨s, h, hval, ?_, (hmem 15).mpr ⟨hdn, hps⟩⟩
  rw [hval] at hlen
  omega

/-- Process 15 waits for the semaphore of 14 for one tick, and the wait times out. -/
def waitTimesOut : List Event :=
  .task goodEnv (.semalloc 114
    { name := [115], value := 0, priority := 5, order := false, inherit := false, mutex := false })
    :: [.rtk 14 goodEnv .set2rt, .rtk 14 goodEnv (.sleep forever), .rtk 15 goodEnv .set2rt,
      .rtk 15 goodEnv (.semdown 0 1), .tick, .tick, .flush 16 goodEnv 10]

/-- **THE COUNT OF A WAIT THAT TIMED OUT STAYS.**  Nobody waits, the value is -1, and the
    next `MRT_semup` panics. -/
theorem timeout_keeps_count :
    (boot.run waitTimesOut).any (fun s => decide ((s.ss.sem 0).owner ≠ hardware ∧
      (s.ss.sem 0).value.toInt = -1 ∧ s.linked 0 = [] ∧ (s.procs 15).st = .clear ∧
      (s.step (.rtk 15 goodEnv (.semup 0))).isNone)) = true := by
  decide +kernel

end Kernel
