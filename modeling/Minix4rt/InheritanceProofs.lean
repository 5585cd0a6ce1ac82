import Minix4rt.RtReadyQueueProofs

/-! # Priority inheritance — the walk of `MRT_inherit` along a wait chain

    A blocked process waits for another one: for the receiver of its message, for the
    sender it wants to hear from, or for the carrier of a semaphore.  `MRT_inherit` follows
    these waits and raises every process it meets, until it comes to one that is as urgent
    already or that waits for nobody.

    A wait chain may be cyclic.  The walk ends all the same: a process that it comes back to
    has the new priority already.  So the processes it raises are those that can be reached
    through less urgent ones (`Met`), and this does not depend on the order of the walk. -/

namespace Kernel

open ListPool Vtimer KState Function Option

variable {s s' t : KState} {p q c : Proc} {k : Prty} {n : Nat} {V : Finset Proc}

/-! ## Wait chains -/

/-- The process that `p` waits for. -/
def KState.waitsOn (s : KState) (p : Proc) : Option Proc :=
  let r := s.procs p
  if s.rtReady p then none
  else if r.st.mbxSnd then r.pto
  else if r.st.mbxRcv ∧ r.pfrom ≠ some p then r.pfrom
  else if r.st.semDown then r.psem.bind (fun m => (s.ss.sem m).carrier)
  else none

/-- A process that is blocked in a send, a receive or a down names what it waits for. -/
structure Pointed (s : KState) : Prop where
  snd : ∀ p, (s.procs p).st.mbxSnd = true → (s.procs p).pto ≠ none
  rcv : ∀ p, (s.procs p).st.mbxRcv = true → (s.procs p).pfrom ≠ none
  down : ∀ p, (s.procs p).st.semDown = true → (s.procs p).psem ≠ none

/-- The processes met by following the wait chain from `p` through processes that are less
    urgent than `k`. -/
inductive Met (s : KState) (k : Prty) (p : Proc) : Proc → Prop where
  | start : k < s.rq.prio p → Met s k p p
  | next {q r : Proc} : Met s k p q → s.waitsOn q = some r → k < s.rq.prio r → Met s k p r

/-- The ready queue is consistent: it holds the RT processes whose status is clear, each on
    the level of its priority. -/
def RdyQueue (s : KState) : Prop :=
  ∃ f, s.rq.pool.Placed f ∧ ∀ p l, f p = some (.level none l) ↔
    (s.procs p).realtime = true ∧ (s.procs p).st = .clear ∧ s.rq.prio p = l

theorem RdyOk.rdyQueue (h : RdyOk none s) : RdyQueue s :=
  ⟨rdyPlace none s, h.pool, fun _ _ => rdyPlace_ready_iff⟩

/-! ## One step of the walk -/

/-- A process that is urgent enough ends the walk. -/
theorem inherit_stop (hb : s.bpip = true) (h : ¬ k < s.rq.prio p) :
    inherit (n + 1) s k.val (some p) = some s := by
  simp only [KState.inherit, hb, not_true_eq_false, if_false]
  rw [if_neg (fun hlt => h (Fin.lt_def.mpr (Int.ofNat_lt.mp hlt)))]

/-- Any other process is raised, and the walk goes on to what it waits for. -/
theorem inherit_raise (hb : s.bpip = true) (hP : Pointed s) (h : k < s.rq.prio p) :
    inherit (n + 1) s k.val (some p) = match s.waitsOn p with
      | none => some (s.moveTo p k)
      | some r => inherit n (s.moveTo p k) k.val (some r) := by
  have hss : (s.moveTo p k).ss = s.ss := by
    unfold moveTo
    split <;> rfl
  simp only [KState.inherit, hb, not_true_eq_false, if_false]
  rw [if_pos (Int.ofNat_lt.mpr (Fin.lt_def.mp h)), prtyOf_lowByte, waitsOn]
  simp only [bind_eq_bind, bind_some]
  by_cases hr : s.rtReady p = true
  · simp [hr]
  simp only [hr]
  by_cases h1 : (s.procs p).st.mbxSnd = true
  · simp only [h1, if_true]
    cases hto : (s.procs p).pto with
    | none => exact absurd hto (hP.snd p h1)
    | some r => rfl
  simp only [h1]
  by_cases h2 : (s.procs p).st.mbxRcv = true ∧ (s.procs p).pfrom ≠ some p
  · simp only [if_pos h2]
    cases hfr : (s.procs p).pfrom with
    | none => exact absurd hfr (hP.rcv p h2.1)
    | some r => rfl
  simp only [if_neg h2]
  by_cases h3 : (s.procs p).st.semDown = true
  · simp only [h3, if_true]
    cases hm : (s.procs p).psem with
    | none => exact absurd hm (hP.down p h3)
    | some m =>
      simp only [hss, bind_some]
      cases (s.ss.sem m).carrier <;> rfl
  · simp [h3]

/-! ## The walk -/

/-- In the middle of a walk that started in `s`: the blocked processes in `V` have been
    raised. -/
structure Raised (s : KState) (k : Prty) (V : Finset Proc) (t : KState) : Prop where
  procs : t.procs = s.procs
  ss : t.ss = s.ss
  bpip : t.bpip = s.bpip
  pool : t.rq.pool = s.rq.pool
  prio : ∀ q, t.rq.prio q = if q ∈ V then k else s.rq.prio q
  blocked : ∀ q ∈ V, s.rtReady q = false

theorem Raised.waitsOn (h : Raised s k V t) (q : Proc) : t.waitsOn q = s.waitsOn q := by
  unfold KState.waitsOn rtReady
  rw [h.procs, h.ss]

theorem Raised.pointed (h : Raised s k V t) (hP : Pointed s) : Pointed t := by
  refine ⟨fun p => ?_, fun p => ?_, fun p => ?_⟩
  · rw [h.procs]
    exact hP.snd p
  · rw [h.procs]
    exact hP.rcv p
  · rw [h.procs]
    exact hP.down p

/-- A process that is still less urgent has not been met. -/
theorem Raised.fresh (h : Raised s k V t) (hlt : k < t.rq.prio c) :
    c ∉ V ∧ t.rq.prio c = s.rq.prio c := by
  rw [h.prio c] at hlt ⊢
  split at hlt
  · exact absurd hlt (lt_irrefl k)
  · rename_i hc
    exact ⟨hc, by rw [if_neg hc]⟩

/-- One more blocked process is raised. -/
theorem Raised.add (h : Raised s k V t) (hb : s.rtReady c = false) :
    Raised s k (insert c V) (t.moveTo c k) := by
  have hbt : t.rtReady c = false := by rw [rtReady, h.procs]; exact hb
  have hmove : t.moveTo c k = t.setPrio c k := by rw [moveTo, hbt]; rfl
  rw [hmove]
  refine ⟨h.procs, h.ss, h.bpip, h.pool, fun q => ?_, fun q hq => ?_⟩
  · show update t.rq.prio c k q = _
    by_cases hq : q = c
    · simp [hq]
    · rw [update_of_ne hq, h.prio q]
      simp [hq]
  · rcases Finset.mem_insert.mp hq with rfl | hq
    · exact hb
    · exact h.blocked q hq

/-- What a walk from `p` leaves behind: the processes met are raised, and of them only the
    last one, `o`, can have been ready. -/
structure Walked (s : KState) (k : Prty) (p : Proc) (o : Option Proc) (s' : KState) : Prop where
  procs : s'.procs = s.procs
  ss : s'.ss = s.ss
  bpip : s'.bpip = s.bpip
  met : ∀ q, Met s k p q → s'.rq.prio q = k
  other : ∀ q, ¬ Met s k p q → s'.rq.prio q = s.rq.prio q
  ready : ∀ q, Met s k p q → s.rtReady q = true → o = some q
  last : ∀ q, o = some q → Met s k p q ∧ s.rtReady q = true
  pool : s'.rq.pool = match o with
    | none => s.rq.pool
    | some c => (s.rq.pool.prmv none c (s.rq.prio c)).pins none c k

/-- The frontier of a walk: whatever the raised processes wait for is raised or comes next,
    so at the end nothing that could be met is left over. -/
theorem Met.mem (h : Met s k p q) (hp : p ∈ V ∨ p = c)
    (hV : ∀ v ∈ V, ∀ r, s.waitsOn v = some r → r ∈ V ∨ r = c)
    (hc : k < s.rq.prio c → c ∈ V) : q ∈ V := by
  induction h with
  | start hlt =>
    rcases hp with hp | rfl
    · exact hp
    · exact hc hlt
  | next _ hw hlt ih =>
    rcases hV _ ih _ hw with hr | rfl
    · exact hr
    · exact hc hlt

/-- The walk ended with every process in `V` raised and none of them ready. -/
theorem Raised.walked (h : Raised s k V t) (hmet : ∀ q ∈ V, Met s k p q)
    (hall : ∀ q, Met s k p q → q ∈ V) : Walked s k p none t := by
  refine ⟨h.procs, h.ss, h.bpip, fun q hq => ?_, fun q hq => ?_, fun q hq hr => ?_,
    (fun q hq => nomatch hq), h.pool⟩
  · rw [h.prio q, if_pos (hall q hq)]
  · rw [h.prio q, if_neg (fun hv => hq (hmet q hv))]
  · rw [h.blocked q (hall q hq)] at hr
    cases hr

/-- The walk ended at the ready process `c`. -/
theorem Raised.walked_ready (h : Raised s k V t) (hlt : k < t.rq.prio c)
    (hr : s.rtReady c = true) (hmet : ∀ q ∈ V, Met s k p q) (hc : Met s k p c)
    (hall : ∀ q, Met s k p q → q ∈ insert c V) : Walked s k p (some c) (t.moveTo c k) := by
  have hrt : t.rtReady c = true := by rw [rtReady, h.procs]; exact hr
  have hmove : t.moveTo c k = ((t.rdyQRmv c).setPrio c k).rdyQIns c := by
    rw [moveTo, hrt]
    rfl
  have hprio : ∀ q, (t.moveTo c k).rq.prio q = if q = c then k else t.rq.prio q := by
    intro q
    rw [hmove]
    show update t.rq.prio c k q = _
    by_cases hq : q = c
    · simp [hq]
    · simp [hq]
  refine ⟨by rw [hmove]; exact h.procs, by rw [hmove]; exact h.ss, by rw [hmove]; exact h.bpip,
    fun q hq => ?_, fun q hq => ?_, fun q hq hrq => ?_, fun q hq => ?_, ?_⟩
  · rw [hprio q]
    split
    · rfl
    · rename_i hne
      rw [h.prio q, if_pos ((Finset.mem_insert.mp (hall q hq)).resolve_left hne)]
  · have hne : q ≠ c := by
      rintro rfl
      exact hq hc
    rw [hprio q, if_neg hne, h.prio q, if_neg (fun hv => hq (hmet q hv))]
  · rcases Finset.mem_insert.mp (hall q hq) with rfl | hv
    · rfl
    · rw [h.blocked q hv] at hrq
      cases hrq
  · cases hq
    exact ⟨hc, hr⟩
  · rw [hmove]
    show (t.rq.pool.prmv none c (t.rq.prio c)).pins none c (update t.rq.prio c k c) = _
    rw [update_self, h.pool, (h.fresh hlt).2]

/-- **THE WALK ENDS**: every process that is raised is raised once, so with `V` raised it
    takes at most `43 - V.card` more steps, on a cyclic chain too. -/
theorem inherit_walk (hb : s.bpip = true) (hP : Pointed s) :
    ∀ {n : Nat} {V : Finset Proc} {c : Proc} {t : KState}, Raised s k V t →
      (∀ q ∈ V, Met s k p q) → (k < s.rq.prio c → Met s k p c) → (p ∈ V ∨ p = c) →
      (∀ v ∈ V, ∀ r, s.waitsOn v = some r → r ∈ V ∨ r = c) → 43 < n + V.card →
      ∃ o s', inherit n t k.val (some c) = some s' ∧ Walked s k p o s' := by
  intro n
  induction n with
  | zero =>
    intro V c t _ _ _ _ _ hn
    have := V.card_le_univ
    simp only [Fintype.card_fin] at this
    omega
  | succ n ih =>
    intro V c t hR hmet hc hp hV hn
    have hbt : t.bpip = true := hR.bpip.trans hb
    by_cases hlt : k < t.rq.prio c
    · obtain ⟨hcV, hpr⟩ := hR.fresh hlt
      have hcm : Met s k p c := hc (hpr ▸ hlt)
      rw [inherit_raise hbt (hR.pointed hP) hlt, hR.waitsOn]
      have hall (hnone : s.waitsOn c = none) (q : Proc) (hq : Met s k p q) : q ∈ insert c V := by
        refine hq.mem (c := c) ?_ (fun v hv r hw => ?_) (fun _ => Finset.mem_insert_self c V)
        · exact hp.imp (Finset.mem_insert_of_mem) id
        · rcases Finset.mem_insert.mp hv with rfl | hv
          · rw [hnone] at hw
            cases hw
          · exact (hV v hv r hw).imp (Finset.mem_insert_of_mem) id
      by_cases hr : s.rtReady c = true
      · have hnone : s.waitsOn c = none := by simp [KState.waitsOn, hr]
        rw [hnone]
        exact ⟨some c, _, rfl, hR.walked_ready hlt hr hmet hcm (hall hnone)⟩
      · have hR' := hR.add (c := c) (by simpa using hr)
        have hmet' : ∀ q ∈ insert c V, Met s k p q := by
          intro q hq
          rcases Finset.mem_insert.mp hq with rfl | hq
          · exact hcm
          · exact hmet q hq
        cases hw : s.waitsOn c with
        | none => exact ⟨none, _, rfl, hR'.walked hmet' (hall hw)⟩
        | some r =>
          refine ih hR' hmet' (fun hlr => hcm.next hw hlr) (.inl ?_) (fun v hv u hvu => ?_) ?_
          · rcases hp with hp | rfl
            · exact Finset.mem_insert_of_mem hp
            · exact Finset.mem_insert_self _ V
          · rcases Finset.mem_insert.mp hv with rfl | hv
            · rw [hw] at hvu
              cases hvu
              exact .inr rfl
            · rcases hV v hv u hvu with hu | rfl
              · exact .inl (Finset.mem_insert_of_mem hu)
              · exact .inl (Finset.mem_insert_self _ V)
          · rw [Finset.card_insert_of_notMem hcV]
            omega
    · rw [inherit_stop hbt hlt]
      refine ⟨none, t, rfl, hR.walked hmet (fun q hq => hq.mem hp hV (fun hlc => ?_))⟩
      by_contra hcV
      rw [hR.prio c, if_neg hcV] at hlt
      exact hlt hlc

/-- **`MRT_inherit` RETURNS**, and raises the processes that are met. -/
theorem inherit_walked (hb : s.bpip = true) (hP : Pointed s) (k : Prty) (p : Proc) :
    ∃ o s', inherit 44 s k.val (some p) = some s' ∧ Walked s k p o s' := by
  refine inherit_walk (V := ∅) hb hP ⟨rfl, rfl, rfl, rfl, fun q => by simp, ?_⟩ ?_ .start
    (.inr rfl) ?_ (by simp)
  · exact fun q hq => absurd hq (Finset.notMem_empty q)
  · exact fun q hq => absurd hq (Finset.notMem_empty q)
  · exact fun v hv => absurd hv (Finset.notMem_empty v)

/-! ## The ready queue after the walk -/

/-- A ready RT process at the end of the chain is linked again on its new level. -/
theorem Walked.rdyQueue {o : Option Proc} (h : Walked s k p o s') (hq : RdyQueue s)
    (ho : ∀ q, o = some q → (s.procs q).realtime = true) : RdyQueue s' := by
  obtain ⟨f, hf, hiff⟩ := hq
  -- the priority of a ready process changes only if it is the last one
  have hkeep : ∀ q, o ≠ some q → (s.procs q).st = .clear → s'.rq.prio q = s.rq.prio q := by
    intro q hne hst
    refine h.other q (fun hm => hne (h.ready q hm ?_))
    simp [rtReady, hst]
  cases o with
  | none =>
    refine ⟨f, by rw [h.pool]; exact hf, fun q l => ?_⟩
    rw [hiff q l, h.procs]
    constructor
    · rintro ⟨h1, h2, h3⟩
      exact ⟨h1, h2, (hkeep q (by simp) h2).trans h3⟩
    · rintro ⟨h1, h2, h3⟩
      exact ⟨h1, h2, (hkeep q (by simp) h2).symm.trans h3⟩
  | some c =>
    obtain ⟨hm, hr⟩ := h.last c rfl
    have hst : (s.procs c).st = .clear := by simpa [rtReady] using hr
    have hfc : f c = some (.level none (s.rq.prio c)) := (hiff c _).mpr ⟨ho c rfl, hst, rfl⟩
    have hpl := (hf.prmv hfc).pins none k (update_self c none f)
    rw [update_idem] at hpl
    refine ⟨_, by rw [h.pool]; exact hpl, fun q l => ?_⟩
    by_cases hqc : q = c
    · subst hqc
      rw [update_self, h.procs, h.met q hm]
      simp [ho q rfl, hst]
    · have hne : (some c : Option Proc) ≠ some q := by simpa using Ne.symm hqc
      rw [update_of_ne hqc, hiff q l, h.procs]
      constructor
      · rintro ⟨h1, h2, h3⟩
        exact ⟨h1, h2, (hkeep q hne h2).trans h3⟩
      · rintro ⟨h1, h2, h3⟩
        exact ⟨h1, h2, (hkeep q hne h2).symm.trans h3⟩

/-- A MINIX process at the end of the chain gets into the ready queue. -/
theorem Walked.not_rdyQueue (h : Walked s k p (some c) s') (hrt : (s.procs c).realtime = false) :
    ¬ RdyQueue s' := by
  rintro ⟨f, hf, hiff⟩
  have hpool : s'.rq.pool = (s.rq.pool.prmv none c (s.rq.prio c)).pins none c k := h.pool
  have hfc := hf.of_level_first (k := none) (p := k) (x := c)
    (by rw [hpool]; exact Pool.pins_first ..)
  have := ((hiff c k).mp hfc).1
  rw [h.procs, hrt] at this
  cases this

/-- **PRIORITY INHERITANCE.**  In every process table in which the blocked processes name
    what they wait for, and whose ready queue is consistent, `MRT_inherit` returns, raises
    exactly the processes met along the wait chain, and leaves the ready queue consistent —
    if and only if a ready process that is met is an RT process. -/
theorem inherit_propagates_iff (hb : s.bpip = true) (hP : Pointed s) (hq : RdyQueue s)
    (k : Prty) (p : Proc) :
    (∃ s', inherit 44 s k.val (some p) = some s' ∧
        (∀ q, Met s k p q → s'.rq.prio q = k) ∧
        (∀ q, ¬ Met s k p q → s'.rq.prio q = s.rq.prio q) ∧ RdyQueue s') ↔
      ∀ q, Met s k p q → s.rtReady q = true → (s.procs q).realtime = true := by
  obtain ⟨o, s', hs, hw⟩ := inherit_walked hb hP k p
  constructor
  · rintro ⟨s1, hs1, -, -, hrq⟩ q hm hr
    rw [hs] at hs1
    cases hs1
    obtain rfl := hw.ready q hm hr
    by_contra hrt
    exact hw.not_rdyQueue (by simpa using hrt) hrq
  · intro hrt
    refine ⟨s', hs, hw.met, hw.other, hw.rdyQueue hq (fun q hoq => ?_)⟩
    obtain ⟨hm, hr⟩ := hw.last q hoq
    exact hrt q hm hr

instance (s : KState) : Decidable (Pointed s) :=
  decidable_of_iff ((∀ p, (s.procs p).st.mbxSnd = true → (s.procs p).pto ≠ none) ∧
      (∀ p, (s.procs p).st.mbxRcv = true → (s.procs p).pfrom ≠ none) ∧
      ∀ p, (s.procs p).st.semDown = true → (s.procs p).psem ≠ none)
    ⟨fun h => ⟨h.1, h.2.1, h.2.2⟩, fun h => ⟨h.snd, h.rcv, h.down⟩⟩

/-- What a steady run reaches, with inheritance switched on. -/
theorem ReachBy.rdyQueue_bpip {s₀ : KState} (h0 : Initial s₀) (h : ReachBy Steady s₀ s) :
    RdyQueue { s with bpip := true } := (h.rdyOk h0).rdyQueue

/-- Process 15 waits for its request to be received by 14, which is ready; so both of them
    inherit the priority 3. -/
theorem inherit_propagates_sender : ∃ s s', s.bpip = true ∧ Pointed s ∧ RdyQueue s ∧
    s.waitsOn 15 = some 14 ∧ inherit 44 s 3 (some 15) = some s' ∧
    s'.rq.prio 15 = 3 ∧ s'.rq.prio 14 = 3 ∧ RdyQueue s' := by
  obtain ⟨s, h, hP, h15, h14, hrt14, hrt15, hlt15, hlt14⟩ : ∃ s, ReachBy Steady boot s ∧
      Pointed { s with bpip := true } ∧ s.waitsOn 15 = some 14 ∧
          s.waitsOn 14 = none ∧ (s.procs 14).realtime = true ∧ (s.procs 15).realtime = true ∧
          (3 : Prty) < s.rq.prio 15 ∧ (3 : Prty) < s.rq.prio 14 :=
    ReachBy.of_run [.rtk 14 goodEnv .set2rt, .rtk 14 goodEnv (.sleep forever),
      .rtk 15 goodEnv .set2rt, .rtk 15 goodEnv (.wakeup (procNr 14) 114),
      .rtk 15 goodEnv (.rqst (withProc 14 forever))] (by decide +kernel)
  have hmet : ∀ q, Met { s with bpip := true } 3 15 q → q = 15 ∨ q = 14 := by
    intro q hq
    induction hq with
    | start _ => exact .inl rfl
    | next _ hw _ ih =>
      rcases ih with rfl | rfl
      · exact .inr (some.inj (hw.symm.trans h15))
      · exact nomatch hw.symm.trans h14
  obtain ⟨s', hs', hm, -, hq'⟩ := (inherit_propagates_iff rfl hP (h.rdyQueue_bpip boot_initial)
    3 15).mpr (fun q hq _ => by
      rcases hmet q hq with rfl | rfl
      · exact hrt15
      · exact hrt14)
  have hm15 : Met { s with bpip := true } 3 15 15 := .start hlt15
  exact ⟨_, s', rfl, hP, h.rdyQueue_bpip boot_initial, h15, hs', hm 15 hm15,
    hm 14 (hm15.next h15 hlt14), hq'⟩

/-- **A MINIX PROCESS IN THE READY QUEUE.**  Process 15 waits for a message of 16, which is
    no RT process.  When 15 inherits the priority 3, so does 16: it is taken out of a level
    of the ready queue that it was not in, which loses the RT process 14 there, and is put
    on level 3. -/
theorem inherit_links_minix_process : ∃ s s', s.bpip = true ∧ Pointed s ∧ RdyQueue s ∧
    s.waitsOn 15 = some 16 ∧ inherit 44 s 3 (some 15) = some s' ∧
    ((s'.procs 16).realtime = false ∧ 16 ∈ s'.rq.pool.list (.level none 3)) ∧
    ((s'.procs 14).realtime = true ∧ (s'.procs 14).st = .clear ∧
      ∀ l, 14 ∉ s'.rq.pool.list (.level none l)) ∧ ¬ RdyQueue s' := by
  obtain ⟨s, h, hP, h15, hs⟩ : ∃ s, ReachBy Steady boot s ∧
      Pointed { s with bpip := true } ∧ s.waitsOn 15 = some 16 ∧
          (inherit 44 { s with bpip := true } 3 (some 15)).any (fun s' =>
            decide (((s'.procs 16).realtime = false ∧ 16 ∈ s'.rq.pool.list (.level none 3)) ∧
              ((s'.procs 14).realtime = true ∧ (s'.procs 14).st = .clear ∧
                ∀ l, 14 ∉ s'.rq.pool.list (.level none l)))) = true :=
    ReachBy.of_run [.rtk 14 goodEnv .set2rt, .rtk 14 goodEnv (.sleep forever),
      .rtk 15 goodEnv .set2rt, .rtk 15 goodEnv (.wakeup (procNr 14) 114),
      .rtk 15 goodEnv (.receive (withProc 16 forever))] (by decide +kernel)
  cases hi : inherit 44 { s with bpip := true } 3 (some 15) with
  | none =>
    rw [hi] at hs
    cases hs
  | some s' =>
    rw [hi, Option.any_some, decide_eq_true_eq] at hs
    obtain ⟨h16, h14⟩ := hs
    refine ⟨_, s', rfl, hP, h.rdyQueue_bpip boot_initial, h15, hi, h16, h14, ?_⟩
    rintro ⟨f, hf, hiff⟩
    have := ((hiff 16 3).mp ((hf.mem_list _).mp h16.2)).1
    rw [h16.1] at this
    cases this

end Kernel
