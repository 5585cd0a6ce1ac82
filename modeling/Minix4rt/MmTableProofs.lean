import Minix4rt.MmRequestProofs

/-! # The process table of MM

    The number of used slots, the pids and the parents.  A fork fills a free slot and finds
    a pid that no slot has; an exit leaves no child behind, for INIT is the parent of all
    orphans.  In the middle of an exit the children of the process still name it as their
    parent, so the loop that disinherits them keeps a weaker invariant, `TableMid`. -/

namespace Mm

open Regions State

variable {s s' t : State} {p q x who : Slot} {c : Ctx} {D : Prop}

/-! ## The invariant -/

/-- The slots in use. -/
def State.used (s : State) : Finset Slot :=
  Finset.univ.filter (fun p => (s.mproc p).flags.inUse = true)

/-- The table, but for the children of `p`.  MM, FS and INIT are alive. -/
structure TableMid (p : Option Slot) (s : State) : Prop where
  count : s.procsInUse = s.used.card
  pids : ∀ x y, initNr ≤ x → (s.mproc x).flags.inUse = true → (s.mproc y).flags.inUse = true →
    (s.mproc x).pid = (s.mproc y).pid → x = y
  parents : ∀ x, (s.mproc x).flags.inUse = true →
    some (s.mproc x).parent = p ∨ s.live (s.mproc x).parent = true
  servers : ∀ x, x ≤ initNr → s.live x = true
  next : 2 ≤ s.nextPid ∧ s.nextPid ≤ 30000

/-- The table between two requests. -/
abbrev TableOk (s : State) : Prop := TableMid none s

/-- The fields of the table are the same. -/
structure SameTable (s s' : State) : Prop where
  inUse : ∀ x, (s'.mproc x).flags.inUse = (s.mproc x).flags.inUse
  hanging : ∀ x, (s'.mproc x).flags.hanging = (s.mproc x).flags.hanging
  pid : ∀ x, (s'.mproc x).pid = (s.mproc x).pid
  parent : ∀ x, (s'.mproc x).parent = (s.mproc x).parent
  procsInUse : s'.procsInUse = s.procsInUse
  nextPid : s'.nextPid = s.nextPid

theorem SameTable.of_core (hc : ∀ x, (s'.mproc x).core = (s.mproc x).core)
    (h1 : s'.procsInUse = s.procsInUse) (h2 : s'.nextPid = s.nextPid) : SameTable s s' :=
  ⟨fun x => congrArg Core.inUse (hc x), fun x => congrArg Core.hanging (hc x),
    fun x => congrArg Core.pid (hc x), fun x => congrArg Core.parent (hc x), h1, h2⟩

/-- A slot is written, and its fields of the table stay. -/
theorem SameTable.upd (s : State) (p : Slot) {g : Mproc → Mproc}
    (h1 : (g (s.mproc p)).flags.inUse = (s.mproc p).flags.inUse)
    (h2 : (g (s.mproc p)).flags.hanging = (s.mproc p).flags.hanging)
    (h3 : (g (s.mproc p)).pid = (s.mproc p).pid)
    (h4 : (g (s.mproc p)).parent = (s.mproc p).parent) : SameTable s (s.upd p g) := by
  refine ⟨fun x => ?_, fun x => ?_, fun x => ?_, fun x => ?_, rfl, rfl⟩
  all_goals
    by_cases hx : x = p
    · subst hx
      simp only [upd_self, h1, h2, h3, h4]
    · rw [upd_other s g hx]

theorem SameTable.live (h : SameTable s s') (x : Slot) : s'.live x = s.live x := by
  simp only [State.live, h.inUse, h.hanging]

theorem TableMid.same {o : Option Slot} (hs : TableMid o s) (h : SameTable s s') :
    TableMid o s' := by
  refine ⟨?_, ?_, ?_, ?_, ?_⟩
  · rw [h.procsInUse, hs.count, State.used, State.used]
    simp only [h.inUse]
  · intro x y hx
    rw [h.inUse, h.inUse, h.pid, h.pid]
    exact hs.pids x y hx
  · intro x
    rw [h.inUse, h.parent, h.live]
    exact hs.parents x
  · intro x
    rw [h.live]
    exact hs.servers x
  · rw [h.nextPid]
    exact hs.next

/-! ## Exit -/

theorem mem_used : x ∈ s.used ↔ (s.mproc x).flags.inUse = true := by
  simp [State.used]

/-- One slot is given up. -/
theorem used_erase (hq : ∀ x, x ≠ q → (s'.mproc x).flags.inUse = (s.mproc x).flags.inUse)
    (hfree : (s'.mproc q).flags.inUse = false) : s'.used = s.used.erase q := by
  ext x
  rw [Finset.mem_erase, mem_used, mem_used]
  by_cases hx : x = q
  · subst hx
    simp [hfree]
  · simp [hx, hq x hx]

/-- `cleanup` of a process that hangs, or of the one that is exiting. -/
theorem TableMid.cleanup {o : Option Slot} (h : TableMid o s)
    (hin : (s.mproc q).flags.inUse = true)
    (hq : (s.mproc q).flags.hanging = true ∨ (o = some q ∧ ¬ q ≤ initNr)) :
    TableMid o (s.cleanup c q) := by
  have hm := cleanup_mproc s c q
  have hfl : ∀ x, x ≠ q → ((s.cleanup c q).mproc x).flags.inUse = (s.mproc x).flags.inUse ∧
      ((s.cleanup c q).mproc x).flags.hanging = (s.mproc x).flags.hanging := by
    intro x hx
    rw [hm, if_neg hx]
    split <;> exact ⟨rfl, rfl⟩
  have hzero : ((s.cleanup c q).mproc q).flags = .zero := by
    rw [hm, if_pos rfl]
  have hlive : ∀ x, x ≠ q → (s.cleanup c q).live x = s.live x := by
    intro x hx
    simp only [State.live, (hfl x hx).1, (hfl x hx).2]
  have hused : ∀ x, ((s.cleanup c q).mproc x).flags.inUse = true →
      x ≠ q ∧ (s.mproc x).flags.inUse = true := by
    intro x hx
    by_cases hxq : x = q
    · subst hxq
      rw [hzero] at hx
      cases hx
    · exact ⟨hxq, (hfl x hxq).1 ▸ hx⟩
  -- the process is no server, for those are alive and do not exit
  have hserver : ∀ x, x ≤ initNr → x ≠ q := by
    rintro x hx rfl
    have hl := h.servers x hx
    simp only [State.live, Bool.and_eq_true, Bool.not_eq_true'] at hl
    rcases hq with hh | ⟨-, hp⟩
    · cases hl.2.symm.trans hh
    · exact hp hx
  refine ⟨?_, ?_, ?_, ?_, h.next⟩
  · rw [used_erase (s := s) (fun x hx => (hfl x hx).1) (by rw [hzero]; rfl),
      Finset.card_erase_of_mem (mem_used.mpr hin), (cleanup_rest s c q).1, h.count]
    have hpos : 0 < s.used.card := Finset.card_pos.mpr ⟨q, mem_used.mpr hin⟩
    omega
  · intro x y hx hxin hyin
    obtain ⟨-, hxin⟩ := hused x hxin
    obtain ⟨-, hyin⟩ := hused y hyin
    rw [hm, hm]
    exact h.pids x y hx hxin hyin
  · intro x hxin
    obtain ⟨-, hxin⟩ := hused x hxin
    have hpar : ((s.cleanup c q).mproc x).parent = (s.mproc x).parent := by rw [hm]
    rw [hpar]
    rcases h.parents x hxin with hp' | hl
    · exact .inl hp'
    · by_cases hxq : (s.mproc x).parent = q
      · -- a process that hangs is no parent, and the children of the other may name it
        rcases hq with hh | ⟨rfl, -⟩
        · rw [hxq] at hl
          simp only [State.live, Bool.and_eq_true, Bool.not_eq_true'] at hl
          cases hl.2.symm.trans hh
        · exact .inl (congrArg some hxq)
      · exact .inr ((hlive _ hxq).trans hl)
  · intro x hx
    rw [hlive x (hserver x hx)]
    exact h.servers x hx

theorem TableMid.hang (h : TableMid (some p) s) (hp : ¬ p ≤ initNr) :
    TableMid (some p) (s.hang p) := by
  have hm : ∀ x, (s.hang p).mproc x = _ := fun x => updFlags_mproc s p x _
  have hin : ∀ x, ((s.hang p).mproc x).flags.inUse = (s.mproc x).flags.inUse := by
    intro x
    rw [hm]
    simp only
    split <;> rfl
  have hlive : ∀ x, x ≠ p → (s.hang p).live x = s.live x := by
    intro x hx
    simp only [State.live, hm, if_neg hx]
  refine ⟨?_, ?_, ?_, ?_, h.next⟩
  · have hu : (s.hang p).used = s.used := by
      simp only [State.used, hin]
    rw [hu]
    exact h.count
  · intro x y hx
    rw [hin, hin, hm, hm]
    exact h.pids x y hx
  · intro x hx
    rw [hin] at hx
    have hpar : ((s.hang p).mproc x).parent = (s.mproc x).parent := by rw [hm]
    rw [hpar]
    rcases h.parents x hx with hp' | hl
    · exact .inl hp'
    · by_cases hxp : (s.mproc x).parent = p
      · exact .inl (congrArg some hxp)
      · exact .inr ((hlive _ hxp).trans hl)
  · intro x hx
    have hxp : x ≠ p := by
      rintro rfl
      exact hp hx
    rw [hlive x hxp]
    exact h.servers x hx

/-- A child of `p` gets INIT as its parent. -/
theorem TableMid.reparent (h : TableMid (some p) s) (q : Slot) :
    TableMid (some p) (s.reparent q) := by
  have hm := reparent_mproc s q
  have hlive : ∀ x, (s.reparent q).live x = s.live x := by
    intro x
    simp only [State.live, hm]
  refine ⟨?_, ?_, ?_, ?_, h.next⟩
  · have hu : (s.reparent q).used = s.used := by
      simp only [State.used, hm]
    rw [hu]
    exact h.count
  · intro x y hx
    rw [hm, hm]
    exact h.pids x y hx
  · intro x hx
    rw [hlive]
    rw [hm] at hx ⊢
    by_cases hxq : x = q
    · simp only [if_pos hxq]
      exact .inr (h.servers initNr (le_refl _))
    · simp only [if_neg hxq]
      exact h.parents x hx
  · intro x hx
    rw [hlive]
    exact h.servers x hx

/-- The loop has passed the slots that are not in `qs`: none of them is a child of `p`. -/
def Passed (p : Slot) (qs : List Slot) (s : State) : Prop :=
  ∀ x, x ∉ qs → (s.mproc x).flags.inUse = true → (s.mproc x).parent ≠ p

theorem disinheritOne_table {qs : List Slot} (hp : ¬ p ≤ initNr)
    (h : TableMid (some p) s ∧ Passed p (q :: qs) s) :
    TableMid (some p) (s.disinheritOne c p q) ∧ Passed p qs (s.disinheritOne c p q) := by
  obtain ⟨hT, hP⟩ := h
  have hne : initNr ≠ p := by
    rintro rfl
    exact hp (le_refl _)
  simp only [State.disinheritOne]
  split
  · rename_i hq
    have hT' := hT.reparent q
    have hP' : Passed p qs (s.reparent q) := by
      intro x hx hin
      rw [reparent_mproc] at hin ⊢
      by_cases hxq : x = q
      · simp only [if_pos hxq]
        exact hne
      · simp only [if_neg hxq]
        exact hP x (by simp [hxq, hx]) hin
    split
    · rename_i hw
      have hin : ((s.reparent q).mproc q).flags.inUse = true := by
        rw [reparent_mproc]
        exact hq.1
      refine ⟨hT'.cleanup hin (.inl hw.2), fun x hx hxin => ?_⟩
      rw [cleanup_mproc] at hxin ⊢
      refine hP' x hx ?_
      simp only at hxin
      split at hxin
      · cases hxin
      split at hxin <;> exact hxin
    · exact ⟨hT', hP'⟩
  · rename_i hq
    refine ⟨hT, fun x hx hin => ?_⟩
    by_cases hxq : x = q
    · subst hxq
      exact fun he => hq ⟨hin, he⟩
    · exact hP x (by simp [hxq, hx]) hin

/-- The parent of an exiting process is told, or the process hangs. -/
theorem toParent_table (h : TableOk s) (hp : ¬ p ≤ initNr)
    (hin : (s.mproc p).flags.inUse = true) (hcore : ∀ x, (t.mproc x).core = (s.mproc x).core)
    (h1 : t.procsInUse = s.procsInUse) (h2 : t.nextPid = s.nextPid) :
    TableMid (some p) (t.toParent c p) := by
  have hsame : SameTable s t := .of_core hcore h1 h2
  have ht : TableMid (some p) t := by
    have h0 := TableMid.same h hsame
    refine ⟨h0.count, h0.pids, fun x hx => .inr ?_, h0.servers, h0.next⟩
    rcases h0.parents x hx with hn | hl
    · cases hn
    · exact hl
  rcases toParent_cases t c p with ⟨-, -, he⟩ | ⟨-, he⟩
  · rw [he]
    refine ht.cleanup ?_ (.inr ⟨rfl, hp⟩)
    rw [hsame.inUse]
    exact hin
  · rw [he]
    exact ht.hang hp

/-- **AN EXIT** of a process other than INIT. -/
theorem TableMid.exit {status : Int} (h : TableOk s) (hp : ¬ p ≤ initNr)
    (hin : (s.mproc p).flags.inUse = true) (hs : s.exitBody c p status = .ok s') : TableOk s' := by
  obtain ⟨t, hcore, -, h1, h2, -, -, rfl⟩ := exitBody_cases hs
  have hend := disinherit_rule (c := c) (p := p)
    (P := fun qs t => TableMid (some p) t ∧ Passed p qs t)
    (fun q qs t ht => disinheritOne_table hp ht) (List.finRange 32) (t.toParent c p)
    ⟨toParent_table h hp hin hcore h1 h2, fun x hx => absurd (List.mem_finRange x) hx⟩
  refine ⟨hend.1.count, hend.1.pids, fun x hx => .inr ?_, hend.1.servers, hend.1.next⟩
  rcases hend.1.parents x hx with he | hl
  · exact absurd (Option.some.inj he) (hend.2 x (List.not_mem_nil) hx)
  · exact hl

/-- INIT has not exited. -/
def State.initStays (s : State) : Prop := Entry.exited initNr ∉ s.log

instance (s : State) : Decidable s.initStays :=
  inferInstanceAs (Decidable (Entry.exited initNr ∉ s.log))

theorem Move.table (hm : Move D c s s') (hstay : s'.initStays) (h : TableOk s) : TableOk s' := by
  cases hm with
  | quiet hq => exact .same h (.of_core hq.core hq.procsInUse hq.nextPid)
  | wake p =>
    have hsame := SameTable.upd s p
      (g := fun m => { m with flags := { m.flags with waiting := false } }) rfl rfl rfl rfl
    exact .same h ⟨hsame.inUse, hsame.hanging, hsame.pid, hsame.parent, rfl, rfl⟩
  | toldStop p _ _ _ _ =>
    have hsame := SameTable.upd s (s.mproc p).parent
      (g := fun m => { m with flags := { m.flags with waiting := false } }) rfl rfl rfl rfl
    exact .same h ⟨hsame.inUse, hsame.hanging, hsame.pid, hsame.parent, rfl, rfl⟩
  | exit p status hge hin _ hs =>
    have hne : p ≠ initNr := by
      rintro rfl
      exact hstay ((exitBody_log hs).subset (List.mem_cons_self ..))
    refine TableMid.exit h (fun hle => hne ?_) hin hs
    exact Fin.ext (Nat.le_antisymm hle hge)
  | mmGroup n =>
    exact .same h (.upd s mmNr rfl rfl rfl rfl)

theorem Moves.table (hm : Moves D c s s') (hstay : s'.initStays) (h : TableOk s) :
    TableOk s' := by
  induction hm with
  | refl => exact h
  | step _ hmove ih =>
    exact hmove.table hstay (ih (fun hx => hstay (hmove.log.subset hx)))

/-! ## Fork, exec and wait -/

/-- A child is added.  Its pid is new and its parent is alive. -/
theorem TableMid.child {n : Int} (h : TableOk s) (hwho : s.live who = true)
    (hfree : (s.mproc x).flags.inUse = false) (hn : 2 ≤ n ∧ n ≤ 30000)
    (hnew : ∀ y, y ≠ x → (s.mproc y).pid ≠ n ∧ (s.mproc y).procgrp ≠ n) :
    TableOk (s.withChild who x n) := by
  have hother : ∀ y, y ≠ x → (s.withChild who x n).mproc y = s.mproc y := by
    intro y hy
    simp [State.withChild, hy]
  have hchild : (s.withChild who x n).mproc x =
      { childOf (s.mproc who) who (s.forkMem who).1 with pid := n } := by
    simp [State.withChild]
  have hlive : ∀ y, s.live y = true → y ≠ x ∧ (s.withChild who x n).live y = true := by
    intro y hy
    have hyx : y ≠ x := by
      rintro rfl
      simp [State.live, hfree] at hy
    refine ⟨hyx, ?_⟩
    simp only [State.live, hother y hyx]
    exact hy
  have hin : ((s.withChild who x n).mproc x).flags.inUse = true := by
    rw [hchild]
    simp only [State.live, Bool.and_eq_true] at hwho
    exact hwho.1
  refine ⟨?_, ?_, ?_, ?_, hn⟩
  · have herase : s.used = (s.withChild who x n).used.erase x :=
      used_erase (fun y hy => by rw [hother y hy]) hfree
    have hcard := Finset.card_erase_add_one (mem_used.mpr hin)
    rw [← herase] at hcard
    show s.procsInUse + 1 = _
    rw [h.count, ← hcard]
    push_cast
    rfl
  · intro y z hy hyin hzin hpid
    by_cases hyx : y = x
    · by_cases hzx : z = x
      · rw [hyx, hzx]
      · subst hyx
        rw [hchild, hother z hzx] at hpid
        exact absurd hpid.symm (hnew z hzx).1
    · by_cases hzx : z = x
      · subst hzx
        rw [hchild, hother y hyx] at hpid
        exact absurd hpid (hnew y hyx).1
      · rw [hother y hyx] at hyin hpid
        rw [hother z hzx] at hzin hpid
        exact h.pids y z hy hyin hzin hpid
  · intro y hyin
    by_cases hyx : y = x
    · subst hyx
      rw [hchild]
      exact .inr (hlive who hwho).2
    · rw [hother y hyx] at hyin ⊢
      rcases h.parents y hyin with hn' | hl
      · cases hn'
      · exact .inr (hlive _ hl).2
  · intro y hy
    exact (hlive y (h.servers y hy)).2

theorem Last.table {r : Req} (hl : Last who r s s') (h : TableOk s) : TableOk s' := by
  cases hl with
  | same => exact h
  | fork hcall hf =>
    rcases doFork_cases hf with
      ⟨rfl, -⟩ | ⟨-, rfl, -⟩ | ⟨rmc, n, -, hslot, hrange, hnew, -, rfl⟩
    · exact h
    · exact { h with }
    · exact h.child (canCall_iff.mp hcall).2.1 (freeSlot_free hslot)
        (hrange (le_trans (by decide) h.next.1)) hnew
  | exec _ he =>
    obtain ⟨hx, h1, h2, -⟩ := doExec_frame he
    exact .same h ⟨fun x => (hx x).inUse, fun x => (hx x).hanging,
      fun x => (hx x).pid, fun x => (hx x).parent, h1, h2⟩
  | wait pid nohang _ _ =>
    rcases doWaitpid_cases s ⟨who.val, who⟩ pid nohang with ⟨q, hq, hh, he⟩ | hq | ⟨-, he⟩
    · rw [he]
      exact .cleanup h (qualifies_iff.mp hq).1 (.inl hh)
    · exact .same h (.of_core hq.core hq.procsInUse hq.nextPid)
    · rw [he]
      exact .same h (.upd s who rfl rfl rfl rfl)
  | group _ =>
    exact .same h (.upd s who rfl rfl rfl rfl)
  | retrace hrest hcore => exact .same h (.of_core hcore hrest.procsInUse hrest.nextPid)

/-! ## Runs -/

theorem initSlot_inUse (map : Slot → MemMap × MemMap × MemMap) (p : Slot) :
    (initSlot map p).flags.inUse = true ↔ p ≤ initNr := by
  rw [initSlot]
  split
  · rename_i hp
    exact iff_of_true rfl hp
  · rename_i hp
    exact iff_of_false (by decide) hp

theorem TableOk.init {map : Slot → MemMap × MemMap × MemMap} {chunks : List Region}
    (h : mmInit map chunks = .ok s) : TableOk s := by
  obtain ⟨holes, -, rfl⟩ := Except.map_ok h
  refine ⟨?_, ?_, ?_, ?_, ⟨le_refl 2, by show (2 : Int) ≤ 30000; decide⟩⟩
  · have hused : ∀ s : State, s.mproc = initSlot map →
        s.used = Finset.univ.filter (fun p => p ≤ initNr) := by
      intro s hs
      ext p
      simp [State.used, hs, initSlot_inUse]
    rw [hused _ rfl]
    show (3 : Int) = _
    decide
  · intro x y hx hxin hyin hpid
    have hxi : x = initNr := le_antisymm ((initSlot_inUse map x).mp hxin) hx
    subst hxi
    by_contra hne
    have hy := (initSlot_inUse map y).mp hyin
    simp only [initSlot, if_pos hy, if_pos (le_refl initNr), if_neg (Ne.symm hne), if_true] at hpid
    exact absurd hpid (by decide)
  · intro x hxin
    have hx := (initSlot_inUse map x).mp hxin
    simp only [initSlot, if_pos hx]
    exact .inr rfl
  · intro x hx
    simp only [State.live, initSlot, if_pos hx]
    rfl

theorem Runs.table {P : State → Msg → Prop} {s0 : State} (h0 : TableOk s0)
    (h : Runs P s0 s) (hstay : s.initStays) : TableOk s := by
  induction h with
  | refl => exact h0
  | step _ _ hstep ih =>
    obtain ⟨c, who, r, s1, hm, hl, -⟩ := step_moves (D := True) (fun _ => trivial) hstep
    have hstay1 : s1.initStays := fun hx => hstay (hl.log.subset hx)
    exact hl.table (hm.table hstay1 (ih (fun hx => hstay1 (hm.log.subset hx))))

/-- While fewer than 32 processes are counted there is a free slot. -/
theorem TableMid.freeSlot (h : TableOk s) (hn : s.procsInUse ≠ 32) :
    ∃ rmc, s.freeSlot = some rmc := by
  cases hslot : s.freeSlot with
  | some rmc => exact ⟨rmc, rfl⟩
  | none =>
    exfalso
    have hall : s.used = Finset.univ := by
      ext x
      have hx := List.find?_eq_none.mp hslot x (List.mem_finRange x)
      simpa [mem_used] using hx
    apply hn
    rw [h.count, hall, Finset.card_univ, Fintype.card_fin]
    rfl

/-- **THE PROCESS TABLE.**  In every state that MM reaches from its start, while INIT has not
    exited: the count is that of the slots in use, only MM and FS have the same pid, and all
    parents are alive.  A fork answers, and the pid that it gives is not the pid or the
    process group of another process. -/
theorem process_table {map : Slot → MemMap × MemMap × MemMap} {chunks : List Region}
    {s0 : State} (hinit : mmInit map chunks = .ok s0) (hrun : Runs (fun _ _ => True) s0 s)
    (hstay : s.initStays) :
    s.procsInUse = (Finset.univ.filter (fun p => (s.mproc p).flags.inUse = true)).card ∧
      (∀ p q, (s.mproc p).flags.inUse = true → (s.mproc q).flags.inUse = true →
        (s.mproc p).pid = (s.mproc q).pid → p = q ∨ (p ≤ fsNr ∧ q ≤ fsNr)) ∧
      (∀ p, (s.mproc p).flags.inUse = true →
        (s.mproc (s.mproc p).parent).flags.inUse = true ∧
          (s.mproc (s.mproc p).parent).flags.hanging = false) ∧
      ∀ who, s.canCall who = true → ∃ s' r, s.doFork who = .ok (s', r) ∧
        ∀ n, r = .val n → ∃ child, s'.log = .forked who child :: s.log ∧
          (s.mproc child).flags.inUse = false ∧ (s'.mproc child).pid = n ∧
          ∀ q, q ≠ child → (s'.mproc q).flags.inUse = true →
            (s'.mproc q).pid ≠ n ∧ (s'.mproc q).procgrp ≠ n := by
  have h : TableOk s := hrun.table (.init hinit) hstay
  refine ⟨h.count, ?_, ?_, ?_⟩
  · intro p q hp hq hpid
    by_cases hpi : initNr ≤ p
    · exact .inl (h.pids p q hpi hp hq hpid)
    by_cases hqi : initNr ≤ q
    · exact .inl (h.pids q p hqi hq hp hpid.symm).symm
    · exact .inr ⟨Nat.lt_succ_iff.mp (Nat.lt_of_not_le hpi),
        Nat.lt_succ_iff.mp (Nat.lt_of_not_le hqi)⟩
  · intro p hp
    rcases h.parents p hp with hn | hl
    · cases hn
    · simpa [State.live] using hl
  · intro who hcall
    have hin : (s.mproc who).flags.inUse = true := by
      have hl := (canCall_iff.mp hcall).2.1
      simp only [State.live, Bool.and_eq_true] at hl
      exact hl.1
    obtain ⟨s', r, hf⟩ := doFork_answers h.next h.freeSlot hin
    refine ⟨s', r, hf, fun n hr => ?_⟩
    rcases doFork_cases hf with
      ⟨-, rfl⟩ | ⟨-, -, rfl⟩ | ⟨rmc, k, -, hslot, -, hnew, rfl, rfl⟩
    · cases hr
    · cases hr
    · cases hr
      refine ⟨rmc, rfl, freeSlot_free hslot, ?_, fun q hq _ => ?_⟩
      · simp [State.withChild]
      · simpa [State.withChild, hq] using hnew q hq

/-- INIT makes a child. -/
theorem process_table_child : ∃ s, boot smallMap [⟨300, 200⟩] [.call initNr .fork plainEnv] =
    some s ∧ s.initStays ∧
    s.procsInUse = (Finset.univ.filter (fun p => (s.mproc p).flags.inUse = true)).card := by
  have hb : (boot smallMap [⟨300, 200⟩] [.call initNr .fork plainEnv]).any (fun s =>
      decide s.initStays) = true := by decide +kernel
  obtain ⟨s, hs, hstay⟩ := (Option.any_eq_true _ _).mp hb
  have hstay : s.initStays := of_decide_eq_true hstay
  obtain ⟨s0, h0, hrun⟩ := boot_runs hs
  exact ⟨s, hs, hstay, (process_table h0 hrun hstay).1⟩

/-- **MM AND FS SHARE A PID**: both slots are in use with pid 0 from the start on. -/
theorem servers_share_pid : (boot smallMap [⟨300, 200⟩] []).any (fun s =>
    (s.mproc mmNr).flags.inUse && (s.mproc fsNr).flags.inUse &&
      decide ((s.mproc mmNr).pid = (s.mproc fsNr).pid)) = true ∧ mmNr ≠ fsNr := by
  decide +kernel

end Mm
