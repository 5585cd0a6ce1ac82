import Minix4rt.MmSignalStepsProofs

/-! # Hangups

    When a process exits, `mm_exit` sends a hangup "to the process' process group if it was a
    session leader".  Whether it was one is asked of the group of the *caller*: of the process
    itself, of the process whose signal killed it, or of MM, to which `do_ksig` gives the group
    of the process that the kernel signals.  The signal goes through `check_sig`, so that the
    caller's permissions count.

    `mm_exit` is the exit proper followed by one `sig_proc` for each process of a list, and the
    list can be told from the table as it was BEFORE the exit.  It is compared with the group of
    the leader, for every caller. -/

namespace Mm

open Regions State Option

variable {s s' s1 t t' : State} {p q r mp : Slot} {c : Ctx} {e : Env} {kill : Kill} {sg : Sig}
  {procId : Int}

/-! ## What an exit and a signal leave alone -/

/-- No process changes its pid, its group or its owner, and only `p` may die. -/
structure Apart (p : Slot) (s s' : State) : Prop where
  ids : ∀ q, (s'.mproc q).ids = (s.mproc q).ids
  live : ∀ q, q ≠ p → s'.live q = s.live q

theorem Apart.refl (p : Slot) (s : State) : Apart p s s := ⟨fun _ => rfl, fun _ _ => rfl⟩

theorem Apart.trans (h : Apart p s s1) (h' : Apart p s1 s') : Apart p s s' :=
  ⟨fun q => (h'.ids q).trans (h.ids q), fun q hq => (h'.live q hq).trans (h.live q hq)⟩

theorem Apart.of_still (h : Still s s') : Apart p s s' := ⟨h.ids, fun q _ => h.live q⟩

theorem Apart.of_dies (h : Dies p s s') : Apart p s s' := ⟨h.ids, h.live⟩

/-- The slot of `p` is written, and its pid, its group and its owner stay. -/
theorem Apart.self (s : State) (p : Slot) {g : Mproc → Mproc}
    (hi : (g (s.mproc p)).ids = (s.mproc p).ids) : Apart p s (s.upd p g) := by
  refine ⟨fun q => ?_, fun q hq => ?_⟩
  · by_cases hq : q = p
    · subst hq
      rw [upd_self, hi]
    · rw [upd_other s g hq]
  · simp only [State.live, upd_other s g hq]

/-- **A SIGNAL** to `p` kills nobody but `p`, if the exit that it may lead to does not. -/
theorem sigProc_apart (hk : ∀ t, Apart p s t → ∀ t', kill t p = .ok t' → Apart p t t')
    (h : s.sigProc kill e p sg = .ok s') : Apart p s s' := by
  have hcase : SigCase kill e s p sg (s.sigProc kill e p sg) := sigProc_cases (sigProc_live h)
  generalize s.sigProc kill e p sg = r at h hcase
  cases hcase with
  | stop _ _ =>
    cases h
    exact .of_still ((Still.unpause s p).trans (.stopProc _ p sg))
  | ignored _ =>
    cases h
    exact .refl p s
  | pend _ _ =>
    cases h
    exact Apart.self s p rfl
  | handle _ _ _ _ =>
    cases h
    have hadj := Still.adjust s p (s.mproc p).segD.len (e.sigSp p)
    exact ((Apart.of_still hadj.1).trans (Apart.self _ p rfl)).trans (.of_still (.unpause _ p))
  | kill =>
    obtain ⟨t, ht, hkill⟩ := terminate_inv h
    exact (Apart.of_still ht).trans (hk t (.of_still ht) s' hkill)
  | stuck => cases h

/-- An exit that sends no hangup kills nobody but its process. -/
theorem mmExit_apart {n : Nat} {status : Int} (hp : (s.mproc p).pid ≠ (s.mproc c.mp).procgrp)
    (h : mmExit e c n status s p = .ok s') : Apart p s s' := by
  cases n with
  | zero => cases h
  | succ n =>
    simp only [mmExit] at h
    split at h
    · cases h
    split at h
    · cases h
    rename_i s1 h1
    rw [State.hupGroup, if_neg hp] at h
    cases h
    exact .of_dies (exitBody_dies h1)

/-! ## The loop of `check_sig` -/

/-- What the loop of `check_sig` asks of a slot before it calls `sig_proc`. -/
def State.takes (s : State) (mp : Slot) (procId : Int) (q : Slot) : Bool :=
  s.live q && s.selected mp procId q && s.permitted mp q

theorem Apart.takes (h : Apart p s s') (hq : q ≠ p) :
    s'.takes mp procId q = s.takes mp procId q := by
  have hids : ∀ r, (s'.mproc r).pid = (s.mproc r).pid ∧
      (s'.mproc r).procgrp = (s.mproc r).procgrp ∧
      (s'.mproc r).realuid = (s.mproc r).realuid ∧ (s'.mproc r).effuid = (s.mproc r).effuid :=
    fun r => by simpa [Mproc.ids] using h.ids r
  simp only [State.takes, h.live q hq, State.selected, State.permitted, (hids q).1, (hids q).2.1,
    (hids q).2.2.1, (hids q).2.2.2, (hids mp).2.1, (hids mp).2.2.1, (hids mp).2.2.2]

/-- One turn of the loop of `check_sig`, with a signal. -/
theorem sigLoop_turn (hsg : sg ≠ 0) (ps : List Slot) (n : Nat) (b : Bool) :
    sigLoop kill e mp procId sg (q :: ps) s n b =
      if s.takes mp procId q then
        (s.sigProc kill e q sg).bind (fun s1 =>
          if 0 < procId then .ok (s1, n + 1, b) else sigLoop kill e mp procId sg ps s1 (n + 1) b)
      else sigLoop kill e mp procId sg ps s n (b || (s.live q && s.selected mp procId q)) := by
  rw [State.sigLoop]
  cases hin : (s.mproc q).flags.inUse <;> cases hh : (s.mproc q).flags.hanging <;>
    cases hs : s.selected mp procId q <;> cases hp : s.permitted mp q <;>
    simp [State.takes, State.live, hin, hh, hs, hp, hsg]
  cases s.sigProc kill e q sg <;> rfl

/-- **THE LOOP** signals those that it takes at its beginning, if a signal to one of them does
    not reach the others. -/
theorem sigLoop_targets (hsg : sg ≠ 0) (hid : procId ≤ 0) {ps : List Slot} (hps : ps.Nodup)
    {K : State → Prop} (hK : ∀ t q t', K t → t.takes mp procId q = true →
      t.sigProc kill e q sg = .ok t' → Apart q t t' ∧ K t') (hs : K s) (n : Nat) (b : Bool) :
    (sigLoop kill e mp procId sg ps s n b).map Prod.fst =
      (ps.filter (s.takes mp procId)).foldlM (fun t q => t.sigProc kill e q sg) s := by
  induction ps generalizing s n b with
  | nil => rfl
  | cons q ps ih =>
    obtain ⟨hq, hps⟩ := List.nodup_cons.mp hps
    rw [sigLoop_turn hsg]
    cases ht : s.takes mp procId q with
    | false =>
      rw [List.filter_cons_of_neg (by simp [ht])]
      exact ih hps hs n _
    | true =>
      rw [List.filter_cons_of_pos ht, List.foldlM_cons, if_pos rfl]
      cases h1 : s.sigProc kill e q sg with
      | error x => rfl
      | ok s1 =>
        obtain ⟨ha, hs1⟩ := hK s q s1 hs ht h1
        have hsame : ps.filter (s.takes mp procId) = ps.filter (s1.takes mp procId) :=
          List.filter_congr (fun r hr => (ha.takes (fun he => hq (he ▸ hr))).symm)
        rw [hsame]
        show Except.map Prod.fst (if 0 < procId then _ else _) = _
        rw [if_neg (not_lt.mpr hid)]
        exact ih hps hs1 (n + 1) b

/-! ## The hangup of an exit -/

/-- Another process that is alive, in the group with the number of `p`. -/
def State.follows (s : State) (p q : Slot) : Bool :=
  decide (q ≠ p) && s.live q && decide ((s.mproc q).procgrp = (s.mproc p).pid)

/-- The processes that get a hangup when `p` exits, from the table before the exit: those in
    the group with the number of `p`, if that is the caller's group, that the caller may
    signal. -/
def State.hupList (s : State) (c : Ctx) (p : Slot) : List Slot :=
  if (s.mproc p).pid = (s.mproc c.mp).procgrp then
    userSlots.filter (fun q => s.follows p q && s.permitted c.mp q)
  else []

/-- What is assumed of the table: the process has a pid of `do_fork`, and nobody else alive has
    it. -/
structure Forked (s : State) (p : Slot) : Prop where
  pid : 1 < (s.mproc p).pid
  own : ∀ q, q ≠ p → s.live q = true → (s.mproc q).pid ≠ (s.mproc p).pid

/-- A hangup goes through the loop. -/
theorem checkSig_sighup (s : State) : (s.checkSig kill e mp procId sighup.val).map Prod.fst =
    (sigLoop kill e mp procId sighup userSlots s 0 false).map Prod.fst := by
  have hnk : ¬ (procId = initPid ∧ sighup = sigkill) := fun hk => absurd hk.2 (by decide)
  rw [State.checkSig, dif_pos (by decide)]
  dsimp only
  rw [show (⟨((sighup.val : Int)).toNat, by decide⟩ : Sig) = sighup by decide, if_neg hnk]
  cases sigLoop kill e mp procId sighup userSlots s 0 false <;> rfl

/-- While the hangups go out, the table differs from the one before the exit only in who is
    alive. -/
structure HangingUp (s : State) (p : Slot) (t : State) : Prop where
  ids : ∀ q, (t.mproc q).ids = (s.mproc q).ids
  live : ∀ q, t.live q = true → q ≠ p ∧ s.live q = true

theorem HangingUp.of_exit {status : Int} (h : s.exitBody c p status = .ok s1) :
    HangingUp s p s1 := by
  have hd := exitBody_dies h
  refine ⟨hd.ids, fun q hq => ?_⟩
  have hqp : q ≠ p := by
    rintro rfl
    cases hd.dead.symm.trans hq
  exact ⟨hqp, (hd.live q hqp).symm.trans hq⟩

/-- **ONE HANGUP** reaches nobody else: the process that may die of it does not lead the
    caller's group, since `p` did. -/
theorem HangingUp.sigProc {n : Nat} (h : HangingUp s p t) (hp : Forked s p)
    (hg : (s.mproc p).pid = (s.mproc c.mp).procgrp)
    (hs : t.sigProc (mmExit e c n 0) e q sg = .ok t') : Apart q t t' ∧ HangingUp s p t' := by
  have hl := h.live q (sigProc_live hs)
  have hap : Apart q t t' := by
    refine sigProc_apart (fun t1 h1 t2 h2 => mmExit_apart ?_ h2) hs
    have hpid : (t1.mproc q).pid = (s.mproc q).pid :=
      congrArg Prod.fst ((h1.ids q).trans (h.ids q))
    have hgrp : (t1.mproc c.mp).procgrp = (s.mproc c.mp).procgrp :=
      congrArg (fun x => x.2.1) ((h1.ids c.mp).trans (h.ids c.mp))
    rw [hpid, hgrp, ← hg]
    exact hp.own q hl.1 hl.2
  refine ⟨hap, fun r => (hap.ids r).trans (h.ids r), fun r hr => ?_⟩
  by_cases hrq : r = q
  · exact hrq ▸ hl
  · exact h.live r ((hap.live r hrq).symm.trans hr)

/-- Whom the loop takes after the exit, from the table before it. -/
theorem takes_exit {status : Int} (h : s.exitBody c p status = .ok s1) (hp : Forked s p)
    (q : Slot) :
    s1.takes mp (-(s.mproc p).pid) q = (s.follows p q && s.permitted mp q) := by
  have hpid := hp.pid
  by_cases hqp : q = p
  · subst hqp
    simp [State.takes, State.follows, (exitBody_dies h).dead]
  · rw [(Apart.of_dies (exitBody_dies h)).takes hqp]
    have h1 : ¬ (s.mproc p).pid < 0 := by omega
    have h2 : ¬ -(s.mproc p).pid = 0 := by omega
    have h3 : ¬ -(s.mproc p).pid = -1 := by omega
    have h4 : -(s.mproc p).pid < -1 := by omega
    simp [State.takes, State.selected, State.follows, h1, h2, h3, h4, hqp]

/-- **`mm_exit`** is the exit and then a hangup for each process of the list. -/
theorem mmExit_hangup {n : Nat} {status : Int} (hp : Forked s p) (he : e.rttExit p = true) :
    mmExit e c (n + 1) status s p = (s.exitBody c p status).bind (fun s1 =>
      (s.hupList c p).foldlM (fun t q => t.sigProc (mmExit e c n 0) e q sighup) s1) := by
  have hpid := hp.pid
  simp only [mmExit, he, not_true_eq_false, if_false]
  cases h1 : s.exitBody c p status with
  | error x => rfl
  | ok s1 =>
    dsimp only [Except.bind]
    by_cases hg : (s.mproc p).pid = (s.mproc c.mp).procgrp
    · have hgrp : s.hupGroup c p = (s.mproc p).pid := by rw [State.hupGroup, if_pos hg, hg]
      have hloop : (sigLoop (mmExit e c n 0) e c.mp (-(s.mproc p).pid) sighup userSlots s1 0
          false).map Prod.fst = _ := sigLoop_targets (by decide) (by omega) (by decide)
        (fun t q t' ht _ hs => HangingUp.sigProc ht hp hg hs) (HangingUp.of_exit h1) 0 false
      rw [hgrp, if_neg (by omega), checkSig_sighup, hloop, State.hupList, if_pos hg]
      exact congrArg (List.foldlM _ s1) (List.filter_congr (fun q _ => takes_exit h1 hp q))
    · have hgrp : s.hupGroup c p = 0 := by rw [State.hupGroup, if_neg hg]
      rw [if_pos hgrp, State.hupList, if_neg hg]
      rfl

/-- **THE PURPOSE**: an exit sends a hangup to the other processes of a group exactly if the
    process was its leader. -/
def HangupLaw (s : State) (c : Ctx) (p : Slot) : Prop :=
  ∀ q ∈ userSlots, q ≠ p → s.live q = true → (q ∈ s.hupList c p ↔
    (s.mproc p).pid = (s.mproc p).procgrp ∧ (s.mproc q).procgrp = (s.mproc p).procgrp)

/-- Who causes the exit makes no difference.  A leader with others in its group is ended by
    somebody of the group, who may signal them all; and a process that leads nothing is not
    ended by somebody whose group happens to have its number and who may signal one of it. -/
def HupFits (s : State) (c : Ctx) (p : Slot) : Prop :=
  ∀ q ∈ userSlots, s.follows p q = true →
    if (s.mproc p).pid = (s.mproc p).procgrp then
      (s.mproc c.mp).procgrp = (s.mproc p).pid ∧ s.permitted c.mp q = true
    else (s.mproc c.mp).procgrp = (s.mproc p).pid → s.permitted c.mp q = false

theorem mem_hupList : q ∈ s.hupList c p ↔ (s.mproc p).pid = (s.mproc c.mp).procgrp ∧
    q ∈ userSlots ∧ s.follows p q = true ∧ s.permitted c.mp q = true := by
  rw [State.hupList]
  split
  · rename_i hg
    rw [List.mem_filter, Bool.and_eq_true]
    exact ⟨fun h => ⟨hg, h⟩, fun h => h.2⟩
  · rename_i hg
    exact iff_of_false List.not_mem_nil (fun h => hg h.1)

/-- **WHEN THE HANGUP IS RIGHT.**  `mm_exit` is the exit and a hangup for each process of the
    list, and the list is the group of the leader exactly under the condition. -/
theorem hangup_law_iff (hp : Forked s p) (c : Ctx) :
    (∀ e n status, e.rttExit p = true → mmExit e c (n + 1) status s p =
      (s.exitBody c p status).bind (fun s1 =>
        (s.hupList c p).foldlM (fun t q => t.sigProc (mmExit e c n 0) e q sighup) s1)) ∧
      (HangupLaw s c p ↔ HupFits s c p) := by
  refine ⟨fun e n status he => mmExit_hangup hp he, forall₂_congr (fun q hq => ?_)⟩
  rw [mem_hupList]
  have hfol : s.follows p q = true ↔
      q ≠ p ∧ s.live q = true ∧ (s.mproc q).procgrp = (s.mproc p).pid := by
    simp only [State.follows, Bool.and_eq_true, decide_eq_true_eq, and_assoc]
  by_cases hlead : (s.mproc p).pid = (s.mproc p).procgrp
  · rw [if_pos hlead, hfol, ← hlead]
    tauto
  · rw [if_neg hlead, hfol, ← Bool.not_eq_true]
    tauto

/-- INIT has a child that leads a session of its own, with a process in it. -/
def session : List Msg :=
  [.call initNr .fork plainEnv, .call 3 .setsid plainEnv, .call 3 .fork plainEnv]

/-- The leader exits by itself: the process in its group gets the hangup and dies of it. -/
theorem hangup_law_exit : ∃ s s', boot smallMap [⟨300, 200⟩] session = some s ∧
    s.hupList ⟨3, 3⟩ 3 = [4] ∧ HangupLaw s ⟨3, 3⟩ 3 ∧
    s.step (.call 3 (.exit 0) plainEnv) = some (.ok s') ∧ s.live 4 = true ∧ s'.live 4 = false := by
  have hb : (boot smallMap [⟨300, 200⟩] session).any (fun s =>
      decide (1 < (s.mproc 3).pid) && decide (s.hupList ⟨3, 3⟩ 3 = [4]) &&
      decide (∀ q, q ≠ 3 → s.live q = true → (s.mproc q).pid ≠ (s.mproc 3).pid) &&
      decide (∀ q ∈ userSlots, s.follows 3 q = true →
        if (s.mproc 3).pid = (s.mproc 3).procgrp then
          (s.mproc 3).procgrp = (s.mproc 3).pid ∧ s.permitted 3 q = true
        else (s.mproc 3).procgrp = (s.mproc 3).pid → s.permitted 3 q = false) && s.live 4 &&
      (s.step (.call 3 (.exit 0) plainEnv)).any (fun r => r.toOption.any (fun s' => !s'.live 4)))
      = true := by decide +kernel
  obtain ⟨s, hs, hb⟩ := (any_eq_true _ _).mp hb
  simp only [Bool.and_eq_true, decide_eq_true_eq] at hb
  obtain ⟨⟨⟨⟨⟨hpid, hlist⟩, hown⟩, hfits⟩, hlive⟩, hstep⟩ := hb
  obtain ⟨r, hr, hstep⟩ := (any_eq_true _ _).mp hstep
  cases r with
  | error x => cases hstep
  | ok s' =>
    exact ⟨s, s', hs, hlist, (hangup_law_iff ⟨hpid, hown⟩ ⟨3, 3⟩).2.mpr hfits, hr, hlive,
      (Bool.not_eq_true' _).mp hstep⟩

/-- **A LEADER THAT IS KILLED FROM OUTSIDE ITS GROUP.**  INIT kills the child: the process of
    its group gets no hangup and lives on. -/
theorem group_outlives_leader : ∃ s s', boot smallMap [⟨300, 200⟩] session = some s ∧
    s.step (.call initNr (.kill (s.mproc 3).pid sigkill.val) plainEnv) = some (.ok s') ∧
    ((s.mproc 3).pid = (s.mproc 3).procgrp ∧ s.follows 3 4 = true ∧
      s.hupList ⟨initNr.val, initNr⟩ 3 = [] ∧ s'.live 3 = false ∧ s'.live 4 = true ∧
      (s'.mproc 4).sigpending = ∅) ∧ ¬ HangupLaw s ⟨initNr.val, initNr⟩ 3 := by
  have hb : (boot smallMap [⟨300, 200⟩] session).any (fun s =>
      (s.step (.call initNr (.kill (s.mproc 3).pid sigkill.val) plainEnv)).any (fun r =>
        r.toOption.any (fun s' => decide ((s.mproc 3).pid = (s.mproc 3).procgrp ∧
          s.follows 3 4 = true ∧ s.hupList ⟨initNr.val, initNr⟩ 3 = [] ∧ s'.live 3 = false ∧
          s'.live 4 = true ∧ (s'.mproc 4).sigpending = ∅)))) = true := by decide +kernel
  obtain ⟨s, hs, hb⟩ := (any_eq_true _ _).mp hb
  obtain ⟨r, hr, hb⟩ := (any_eq_true _ _).mp hb
  cases r with
  | error x => cases hb
  | ok s' =>
    have hall := of_decide_eq_true hb
    refine ⟨s, s', hs, hr, hall, fun hlaw => ?_⟩
    have hfol : 4 ≠ (3 : Slot) ∧ s.live 4 = true ∧ (s.mproc 4).procgrp = (s.mproc 3).pid := by
      simpa only [State.follows, Bool.and_eq_true, decide_eq_true_eq, and_assoc] using hall.2.1
    have hmem := (hlaw 4 (by decide) hfol.1 hfol.2.1).mpr
      ⟨hall.1, hfol.2.2.trans hall.1⟩
    rw [hall.2.2.1] at hmem
    cases hmem

end Mm
