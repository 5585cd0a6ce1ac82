import Minix4rt.MmMovesProofs

/-! # The last changes — fork, exec and wait

    What a fork, an exec and a wait do to the table, one lemma each.  The search of a fork
    for a pid looks at all slots, also at free ones and at the slot of the child itself,
    which holds the pid of the parent first and then the last number that was tried.  Still
    at most 63 numbers stop it, and it tries all from 2 to 30000 in turn. -/

namespace Mm

open Regions State

variable {s s' t : State} {p q x who rmc : Slot} {c : Ctx} {n : Int} {r : Code}

/-! ## The search for a pid -/

/-- The numbers that stop the search: the pids of the other slots and all groups. -/
def State.blocked (s : State) (rmc : Slot) : Finset Int :=
  (Finset.univ.erase rmc).image (fun x => (s.mproc x).pid) ∪
    Finset.univ.image (fun x => (s.mproc x).procgrp)

/-- The next number is tried. -/
def State.tryPid (s : State) (rmc : Slot) (n : Int) : State :=
  ({ s with nextPid := n } : State).upd rmc (fun m => { m with pid := n })

theorem card_blocked (s : State) (rmc : Slot) : (s.blocked rmc).card ≤ 63 := by
  have h1 : ((Finset.univ.erase rmc).image (fun x => (s.mproc x).pid)).card ≤ 31 := by
    refine Finset.card_image_le.trans ?_
    rw [Finset.card_erase_of_mem (Finset.mem_univ _), Finset.card_univ, Fintype.card_fin]
  have h2 : (Finset.univ.image (fun x => (s.mproc x).procgrp)).card ≤ 32 := by
    refine Finset.card_image_le.trans ?_
    rw [Finset.card_univ, Fintype.card_fin]
  exact (Finset.card_union_le _ _).trans (Nat.add_le_add h1 h2)

theorem mem_blocked : n ∈ s.blocked rmc ↔
      (∃ x, x ≠ rmc ∧ (s.mproc x).pid = n) ∨ ∃ x, (s.mproc x).procgrp = n := by
  simp [State.blocked]

theorem pidTaken_iff (rmc : Slot) :
    s.pidTaken n = true ↔ n ∈ s.blocked rmc ∨ (s.mproc rmc).pid = n := by
  rw [mem_blocked]
  simp only [State.pidTaken, List.any_eq_true, List.mem_finRange, true_and, Bool.or_eq_true,
    decide_eq_true_eq]
  constructor
  · rintro ⟨x, h | h⟩
    · by_cases hx : x = rmc
      · exact .inr (hx ▸ h)
      · exact .inl (.inl ⟨x, hx, h⟩)
    · exact .inl (.inr ⟨x, h⟩)
  · rintro ((⟨x, -, h⟩ | ⟨x, h⟩) | h)
    · exact ⟨x, .inl h⟩
    · exact ⟨x, .inr h⟩
    · exact ⟨rmc, .inl h⟩

theorem blocked_tryPid (s : State) (rmc : Slot) (n : Int) :
    (s.tryPid rmc n).blocked rmc = s.blocked rmc := by
  have hpid : ∀ x, x ≠ rmc → ((s.tryPid rmc n).mproc x) = s.mproc x :=
    fun x hx => upd_other _ _ hx
  have hgrp : ∀ x, ((s.tryPid rmc n).mproc x).procgrp = (s.mproc x).procgrp := by
    intro x
    by_cases hx : x = rmc
    · subst hx
      rw [State.tryPid, upd_self]
    · rw [hpid x hx]
  ext k
  rw [mem_blocked, mem_blocked]
  simp only [hgrp]
  refine or_congr (exists_congr fun x => and_congr_right fun hx => ?_) Iff.rfl
  rw [hpid x hx]

theorem tryPid_tryPid (s : State) (rmc : Slot) (m n : Int) :
    (s.tryPid rmc m).tryPid rmc n = s.tryPid rmc n := by
  simp [State.tryPid, State.upd]

theorem pidLoop_succ (rmc : Slot) (k : Nat) (s : State) :
    s.pidLoop rmc (k + 1) = if s.pidTaken (succPid s.nextPid)
      then (s.tryPid rmc (succPid s.nextPid)).pidLoop rmc k
      else some (s.tryPid rmc (succPid s.nextPid)) := rfl

theorem succPid_range (h : 1 ≤ n) : 2 ≤ succPid n ∧ succPid n ≤ 30000 := by
  simp only [succPid, initPid]
  split <;> omega

/-- **THE SEARCH FINDS** a number that no other slot has as its pid or group. -/
theorem pidLoop_some {k : Nat} (h : s.pidLoop rmc k = some s') :
    ∃ n, s' = s.tryPid rmc n ∧ n ∉ s.blocked rmc ∧ (1 ≤ s.nextPid → 2 ≤ n ∧ n ≤ 30000) := by
  induction k generalizing s with
  | zero => cases h
  | succ k ih =>
    rw [pidLoop_succ] at h
    split at h
    · obtain ⟨n, rfl, hn, hrange⟩ := ih h
      rw [blocked_tryPid] at hn
      refine ⟨n, tryPid_tryPid .., hn, fun hs => hrange ?_⟩
      exact le_trans (by decide) (succPid_range hs).1
    · rename_i hfree
      refine ⟨_, (Option.some.inj h).symm, fun hmem => hfree ?_, succPid_range⟩
      exact (pidTaken_iff rmc).mpr (.inl hmem)

theorem iterate_succPid (h : 2 ≤ n ∧ n ≤ 30000) (i : Nat) :
    succPid^[i] n = 2 + (n - 2 + i) % 29999 := by
  induction i with
  | zero =>
    simp only [Function.iterate_zero, id_eq]
    omega
  | succ i ih =>
    rw [Function.iterate_succ_apply', ih, succPid, initPid]
    push_cast
    split <;> omega

/-- A search that goes on has met only numbers that stop it: the pid of the slot itself is
    the parent's, or the number before. -/
theorem pidLoop_none {k : Nat} (hs : 2 ≤ s.nextPid ∧ s.nextPid ≤ 30000)
    (hown : (s.mproc rmc).pid ∈ s.blocked rmc ∨ (s.mproc rmc).pid = s.nextPid)
    (h : s.pidLoop rmc k = none) : ∀ i < k, succPid^[i + 1] s.nextPid ∈ s.blocked rmc := by
  induction k generalizing s with
  | zero => exact fun i hi => absurd hi (Nat.not_lt_zero i)
  | succ k ih =>
    rw [pidLoop_succ] at h
    split at h
    · rename_i htaken
      have hr := succPid_range (show 1 ≤ s.nextPid by omega)
      have hne : succPid s.nextPid ≠ s.nextPid := by
        simp only [succPid, initPid]
        split <;> omega
      have hrec := ih (s := s.tryPid rmc (succPid s.nextPid)) hr
        (.inr (congrArg Mproc.pid (upd_self _ rmc _))) h
      rw [blocked_tryPid] at hrec
      intro i hi
      cases i with
      | zero =>
        rcases (pidTaken_iff rmc).mp htaken with hb | hp
        · exact hb
        · rcases hown with ho | ho
          · rw [hp] at ho
            exact ho
          · exact absurd (hp.symm.trans ho) hne
      | succ i =>
        rw [Function.iterate_succ_apply]
        exact hrec i (by omega)
    · cases h

/-- **THE SEARCH ENDS**: it tries more numbers than can be taken. -/
theorem pidLoop_ends (hs : 2 ≤ s.nextPid ∧ s.nextPid ≤ 30000)
    (hown : (s.mproc rmc).pid ∈ s.blocked rmc) : ∃ s', s.pidLoop rmc pidTries = some s' := by
  cases h : s.pidLoop rmc pidTries with
  | some s' => exact ⟨s', rfl⟩
  | none =>
    exfalso
    have hall := pidLoop_none hs (.inl hown) h
    have hcard : (Finset.range 64).card ≤ (s.blocked rmc).card := by
      refine Finset.card_le_card_of_injOn (fun i => succPid^[i + 1] s.nextPid) ?_ ?_
      · intro i hi
        have hi : i < 64 := Finset.mem_range.mp hi
        exact hall i (lt_trans hi (by decide))
      · intro i hi j hj hij
        have hi : i < 64 := Finset.mem_range.mp hi
        have hj : j < 64 := Finset.mem_range.mp hj
        simp only [iterate_succPid hs] at hij
        push_cast at hij
        omega
    rw [Finset.card_range] at hcard
    exact absurd (hcard.trans (card_blocked s rmc)) (by decide)

/-! ## Fork -/

/-- What `alloc_mem` gives a fork. -/
def State.forkMem (s : State) (who : Slot) : Nat × List Region :=
  allocMem ((s.mproc who).segS.len + ((s.mproc who).segS.vir - (s.mproc who).segD.vir)) s.holes

/-- The table with a new child. -/
def State.withChild (s : State) (who rmc : Slot) (n : Int) : State :=
  { mproc := Function.update s.mproc rmc
      { childOf (s.mproc who) who (s.forkMem who).1 with pid := n }
    procsInUse := s.procsInUse + 1
    nextPid := n
    holes := (s.forkMem who).2
    log := .forked who rmc :: s.log }

theorem freeSlot_free (h : s.freeSlot = some rmc) : (s.mproc rmc).flags.inUse = false := by
  simpa using List.find?_some h

/-- **A FORK** fails without a trace, fails for want of memory, or makes a child. -/
theorem doFork_cases (h : s.doFork who = .ok (s', r)) : (s' = s ∧ r = .eagain) ∨
      ((s.forkMem who).1 = noMem ∧ s' = { s with holes := (s.forkMem who).2 } ∧ r = .enomem) ∨
      ∃ rmc n, (s.forkMem who).1 ≠ noMem ∧ s.freeSlot = some rmc ∧
        (1 ≤ s.nextPid → 2 ≤ n ∧ n ≤ 30000) ∧
        (∀ x, x ≠ rmc → (s.mproc x).pid ≠ n ∧ (s.mproc x).procgrp ≠ n) ∧ r = .val n ∧
        s' = s.withChild who rmc n := by
  simp only [State.doFork] at h
  split at h
  · cases h
    exact .inl ⟨rfl, rfl⟩
  split at h
  · cases h
    exact .inl ⟨rfl, rfl⟩
  split at h
  · rename_i hno
    cases h
    exact .inr (.inl ⟨hno, rfl, rfl⟩)
  rename_i hmem
  split at h
  · cases h
  rename_i rmc hslot
  split at h
  · cases h
  rename_i s1 hloop
  obtain ⟨n, rfl, hn, hrange⟩ := pidLoop_some hloop
  cases h
  refine .inr (.inr ⟨rmc, n, hmem, hslot, hrange, fun x hx => ?_, rfl, ?_⟩)
  · rw [mem_blocked] at hn
    have hx' := upd_other
      ({ s with holes := (s.forkMem who).2, procsInUse := s.procsInUse + 1 } : State)
      (fun _ => childOf (s.mproc who) who (s.forkMem who).1) hx
    refine ⟨fun he => hn (.inl ⟨x, hx, ?_⟩), fun he => hn (.inr ⟨x, ?_⟩)⟩
    · exact (congrArg Mproc.pid hx').trans he
    · exact (congrArg Mproc.procgrp hx').trans he
  · simp [State.tryPid, State.upd, State.note, State.withChild, State.forkMem]

/-- **A FORK ANSWERS**, if a slot is free whenever fewer than 32 processes are counted. -/
theorem doFork_answers (hs : 2 ≤ s.nextPid ∧ s.nextPid ≤ 30000)
    (hfree : s.procsInUse ≠ 32 → ∃ rmc, s.freeSlot = some rmc)
    (hwho : (s.mproc who).flags.inUse = true) : ∃ s' r, s.doFork who = .ok (s', r) := by
  simp only [State.doFork]
  split
  · exact ⟨_, _, rfl⟩
  rename_i hfull
  split
  · exact ⟨_, _, rfl⟩
  split
  · exact ⟨_, _, rfl⟩
  obtain ⟨rmc, hslot⟩ := hfree hfull
  simp only [hslot]
  have hne : who ≠ rmc := by
    rintro rfl
    exact nomatch (freeSlot_free hslot).symm.trans hwho
  -- the slot of the child holds the pid of its parent
  have hown : ∀ t : State, (t.mproc rmc).pid = (t.mproc who).pid →
      (t.mproc rmc).pid ∈ t.blocked rmc :=
    fun t ht => mem_blocked.mpr (.inl ⟨who, hne, ht.symm⟩)
  have hend := pidLoop_ends
    (s := ({ s with holes := (s.forkMem who).2, procsInUse := s.procsInUse + 1 } : State).upd rmc
      (fun _ => childOf (s.mproc who) who (s.forkMem who).1)) hs
    (hown _ (by rw [upd_self, upd_other _ _ hne]; rfl))
  obtain ⟨t, ht⟩ := hend
  simp only [State.forkMem] at ht
  rw [ht]
  exact ⟨_, _, rfl⟩

/-! ## Exec -/

/-- The size of the text that `new_mem` has to find memory for. -/
def textClicks (share : Option Slot) (z : Sizes) : Nat :=
  if share.isSome then 0 else clicksUp z.text

/-- `new_mem` fails without a trace, or gives up the old image for a new one. -/
theorem newMem_cases {share : Option Slot} {z : Sizes} {stk : BitVec 32}
    (h : s.newMem p share z stk = .ok (t, r)) :
    (t = s ∧ r ≠ .ok) ∨
      ∃ holes, clicksUp (z.data + z.bss) + clicksUp stk ≤ clicksUp z.total ∧
        textClicks share z + clicksUp z.total ≤ maxHole s.holes ∧ s.freeImage p = .ok holes ∧
        (allocMem (textClicks share z + clicksUp z.total) holes).1 ≠ noMem ∧ r = .ok ∧
        t = { s with
          holes := (allocMem (textClicks share z + clicksUp z.total) holes).2 }.upd p (fun m =>
            newMap m (share.map s.mproc) (allocMem (textClicks share z + clicksUp z.total) holes).1
              (textClicks share z) (clicksUp (z.data + z.bss))
              (clicksUp z.total - clicksUp (z.data + z.bss) - clicksUp stk) (clicksUp stk)) := by
  simp only [State.newMem, ← textClicks.eq_1] at h
  split at h
  · cases h
    exact .inl ⟨rfl, nofun⟩
  rename_i h1
  split at h
  · cases h
    exact .inl ⟨rfl, nofun⟩
  rename_i h2
  split at h
  · cases h
  rename_i holes hfree
  split at h
  · cases h
  rename_i h3
  cases h
  exact .inr ⟨holes, Nat.not_lt.mp h1, Nat.not_lt.mp h2, hfree, h3, rfl, rfl⟩

/-- **AN EXEC** fails without a trace, or gives the process a new image. -/
theorem doExec_cases {e : ExecCall} (h : s.doExec who e = .ok (s', r)) :
    s' = s ∨ ∃ f z t, e.file = .ok f ∧ readHeader f e.stk = some z ∧
      s.newMem who (s.findShare who f.ino f.dev f.ctime) z e.stk = .ok (t, .ok) ∧
      s' = t.upd who (fun m => execed m f) := by
  simp only [State.doExec] at h
  split at h
  · cases h
    exact .inl rfl
  split at h
  · cases h
    exact .inl rfl
  split at h
  · cases h
    exact .inl rfl
  split at h
  · cases h
    exact .inl rfl
  rename_i f hf
  split at h
  · cases h
    exact .inl rfl
  rename_i z hz
  split at h
  · cases h
    exact .inl rfl
  split at h
  · cases h
  · rename_i t hnew
    cases h
    exact .inr ⟨f, z, t, hf, hz, hnew, rfl⟩
  · rename_i t r' hne hnew
    cases h
    rcases newMem_cases hnew with ⟨rfl, -⟩ | ⟨_, _, _, _, _, hok, _⟩
    · exact .inl rfl
    · exact absurd hok hne

/-- The same process: in the same phase, with the same numbers and parent. -/
structure SameProc (m m' : Mproc) : Prop where
  inUse : m'.flags.inUse = m.flags.inUse
  hanging : m'.flags.hanging = m.flags.hanging
  waiting : m'.flags.waiting = m.flags.waiting
  pid : m'.pid = m.pid
  procgrp : m'.procgrp = m.procgrp
  wpid : m'.wpid = m.wpid
  parent : m'.parent = m.parent

theorem execed_same (m : Mproc) (f : ExecFile) : SameProc m (execed m f) := by
  simp only [execed, resetCatched]
  refine ⟨?_, ?_, ?_, ?_, ?_, ?_, ?_⟩
  all_goals
    dsimp only
    split <;> rfl

/-- An exec changes no process but for its memory and its file. -/
theorem doExec_frame {e : ExecCall} (h : s.doExec who e = .ok (s', r)) :
    (∀ x, SameProc (s.mproc x) (s'.mproc x)) ∧ s'.procsInUse = s.procsInUse ∧
      s'.nextPid = s.nextPid ∧ s'.log = s.log := by
  rcases doExec_cases h with rfl | ⟨f, z, t, -, -, hnew, rfl⟩
  · exact ⟨fun x => ⟨rfl, rfl, rfl, rfl, rfl, rfl, rfl⟩, rfl, rfl, rfl⟩
  rcases newMem_cases hnew with ⟨-, hno⟩ | ⟨holes, -, -, -, -, -, rfl⟩
  · exact absurd rfl hno
  refine ⟨fun x => ?_, rfl, rfl, rfl⟩
  by_cases hx : x = who
  · subst hx
    rw [upd_self, upd_self]
    have hf := execed_same
      (newMap (s.mproc x) (Option.map s.mproc (s.findShare x f.ino f.dev f.ctime))
      (allocMem (textClicks (s.findShare x f.ino f.dev f.ctime) z + clicksUp z.total) holes).1
      (textClicks (s.findShare x f.ino f.dev f.ctime) z) (clicksUp (z.data + z.bss))
      (clicksUp z.total - clicksUp (z.data + z.bss) - clicksUp e.stk) (clicksUp e.stk)) f
    exact { hf with }
  · rw [upd_other _ _ hx, upd_other _ _ hx]
    exact ⟨rfl, rfl, rfl, rfl, rfl, rfl, rfl⟩

/-! ## Wait -/

/-- What a wait is for. -/
def State.waitArg (s : State) (who : Slot) (pid : Int) : Int :=
  if pid = 0 then -(s.mproc who).procgrp else pid

/-- The caller is blocked until such a child exits. -/
def State.block (s : State) (who : Slot) (n : Int) : State :=
  s.upd who (fun m => { m with wpid := n, flags := { m.flags with waiting := true } })

/-- **A WAIT** reports a child that hangs, changes nothing that anybody looks at, or blocks
    the caller while no child that it is about hangs. -/
theorem doWaitpid_cases (s : State) (c : Ctx) (pid : Int) (nohang : Bool) :
    (∃ q, s.qualifies c.mp (s.waitArg c.mp pid) q = true ∧ (s.mproc q).flags.hanging = true ∧
        (s.doWaitpid c pid nohang).1 = s.cleanup c q) ∨
      Quiet s (s.doWaitpid c pid nohang).1 ∨
      ((∀ q, s.qualifies c.mp (s.waitArg c.mp pid) q = true →
          (s.mproc q).flags.hanging = false) ∧
        (s.doWaitpid c pid nohang).1 = s.block c.mp (s.waitArg c.mp pid)) := by
  simp only [State.doWaitpid, ← State.waitArg.eq_1]
  split
  · rename_i q hq
    have hq := List.find?_some hq
    rw [Bool.and_eq_true] at hq
    split
    · rename_i hh
      exact .inl ⟨q, hq.1, hh, rfl⟩
    · have hquiet : Quiet s (s.upd q (fun m => { m with sigstatus := 0 })) :=
        Quiet.upd s q rfl id
      exact .inr (.inl hquiet)
  · rename_i hnone
    split
    · split
      · exact .inr (.inl (.refl s))
      · refine .inr (.inr ⟨fun q hq => ?_, rfl⟩)
        have hn := List.find?_eq_none.mp hnone q (List.mem_finRange q)
        simp only [hq, Bool.true_and, State.tells, Bool.or_eq_true, not_or] at hn
        simpa using hn.1
    · exact .inr (.inl (.refl s))

theorem qualifies_iff :
    s.qualifies who n q = true ↔ (s.mproc q).flags.inUse = true ∧ (s.mproc q).parent = who ∧
      (0 < n → n = (s.mproc q).pid) ∧ (n < -1 → -n = (s.mproc q).procgrp) := by
  simp only [State.qualifies, Bool.and_eq_true, Bool.not_eq_true', Bool.and_eq_false_iff,
    decide_eq_true_eq, decide_eq_false_iff_not, and_assoc, ← imp_iff_not_or, not_not]

/-! ## Runs -/

theorem Last.log {r : Req} (h : Last who r s s') : s.log <:+ s'.log := by
  cases h with
  | same | group _ => exact List.suffix_rfl
  | fork _ hf =>
    rcases doFork_cases hf with ⟨rfl, -⟩ | ⟨-, rfl, -⟩ | ⟨rmc, n, -, -, -, -, -, rfl⟩
    · exact List.suffix_rfl
    · exact List.suffix_rfl
    · exact List.suffix_cons _ _
  | exec _ he =>
    rw [(doExec_frame he).2.2.2]
  | wait pid nohang _ _ =>
    rcases doWaitpid_cases s ⟨who.val, who⟩ pid nohang with ⟨q, -, -, he⟩ | hq | ⟨-, he⟩
    · rw [he]
      exact List.suffix_cons _ _
    · rw [hq.log]
    · rw [he]
      exact List.suffix_rfl
  | retrace hrest _ => rw [hrest.log]

/-- The message makes a dead process exit again. -/
def Msg.exitsDead (s : State) : Msg → Prop
  | .call _ r _ => ExitsDead s r
  | .ksig _ _ _ => False

/-- **EVERY TURN** of the main loop is some moves and one last change. -/
theorem step_moves {m : Msg} {D : Prop} (hD : m.exitsDead s → D) (h : s.step m = some (.ok s')) :
    ∃ c who r s1, Moves D c s s1 ∧ Last who r s1 s' ∧
      (r.waits = true → ∃ e, m = .call who r e) := by
  cases m with
  | call who r e =>
    simp only [State.step] at h
    split at h
    · rename_i hcall
      obtain ⟨s1, h1, h2⟩ := serve_moves hcall hD (Option.some.inj h)
      exact ⟨_, who, r, s1, h1, h2, fun _ => ⟨e, rfl⟩⟩
    · cases h
  | ksig p map e =>
    exact ⟨_, mmNr, .get, s', doKsig_moves (Option.some.inj h), .same, nofun⟩

/-- Turns of the main loop, each with a message that meets the condition. -/
inductive Runs (P : State → Msg → Prop) (s : State) : State → Prop where
  | refl : Runs P s s
  | step {s1 s' : State} {m : Msg} : Runs P s s1 → P s1 m → s1.step m = some (.ok s') →
      Runs P s s'

theorem Runs.head {P : State → Msg → Prop} {s1 : State} {m : Msg} (hP : P s m)
    (hstep : s.step m = some (.ok s1)) (h : Runs P s1 s') : Runs P s s' := by
  induction h with
  | refl => exact .step .refl hP hstep
  | step _ hP' hstep' ih => exact ih.step hP' hstep'

theorem run_runs {ms : List Msg} (h : s.run ms = some (.ok s')) :
    Runs (fun _ _ => True) s s' := by
  induction ms generalizing s with
  | nil =>
    cases h
    exact .refl
  | cons m ms ih =>
    rw [State.run] at h
    split at h
    · rename_i s1 hstep
      exact Runs.head trivial hstep (ih h)
    · rename_i hne
      exact absurd h (hne s')

/-- MM, FS and INIT, each with 10 clicks of text and 40 clicks of data, gap and stack. -/
def smallMap (p : Slot) : MemMap × MemMap × MemMap :=
  (⟨0, 100 + 50 * p.val, 10⟩, ⟨0, 110 + 50 * p.val, 20⟩, ⟨30, 140 + 50 * p.val, 10⟩)

/-- Stack pointers that are in the stack, and no other trouble. -/
def plainEnv : Env :=
  { sp := fun _ => 10000#32, sigSp := fun _ => 9900#32, core := fun _ => false, traceOk := true,
    rttSendsig := fun _ => true, rttExit := fun _ => true }

/-- MM starts and takes some messages; `none` is a panic or a message that cannot come. -/
def boot (map : Slot → MemMap × MemMap × MemMap) (chunks : List Region) (ms : List Msg) :
    Option State :=
  match mmInit map chunks with
  | .error _ => none
  | .ok s =>
    match s.run ms with
    | some (.ok s') => some s'
    | _ => none

theorem boot_runs {map : Slot → MemMap × MemMap × MemMap} {chunks : List Region} {ms : List Msg}
    (h : boot map chunks ms = some s) :
    ∃ s0, mmInit map chunks = .ok s0 ∧ Runs (fun _ _ => True) s0 s := by
  rw [boot] at h
  split at h
  · cases h
  · rename_i s0 h0
    split at h
    · rename_i s' hrun
      cases h
      exact ⟨s0, h0, run_runs hrun⟩
    · cases h

end Mm
