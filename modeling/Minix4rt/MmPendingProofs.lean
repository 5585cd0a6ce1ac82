import Minix4rt.MmSignalStepsProofs
import Minix4rt.MmTableProofs

/-! # Masks and pending signals

    Two laws of the signal sets over all runs of MM.  SIGKILL never gets into a mask, into the
    ignored or the caught signals, nor into the mask of a stored action.  And a signal that is
    pending has been blocked; it leaves the set by being handled, by the end of the process or
    by being ignored.

    When the mask changes, `check_pending` looks for a signal that waits no more.  Its loop ends
    BEFORE the last signal, number 16, which every other routine accepts. -/

namespace Mm

open Regions State Function Option

variable {s s' s1 s2 t : State} {p q who : Slot} {e : Env} {r : Req} {sg : Sig}
variable {m m1 : Mproc} {M : State → Msg → Prop} {s0 : State}
  {map : Slot → MemMap × MemMap × MemMap} {chunks : List Region}

/-! ## SIGKILL -/

/-- SIGKILL is in no set and in no stored mask. -/
structure NoKill (g : Sigs) : Prop where
  mask : sigkill ∉ g.sigmask
  ignore : sigkill ∉ g.ignore
  catched : sigkill ∉ g.catched
  acts : ∀ i, sigkill ∉ (g.sigact i).mask

/-- A handler is called: its mask is added, and the signal itself, which is not SIGKILL. -/
theorem NoKill.caught (h : NoKill m.sigs) (hc : sg ∈ m.catched) :
    NoKill (State.caught m sg).sigs := by
  have hne : sigkill ≠ sg := by
    rintro rfl
    exact h.catched hc
  have hmask : sigkill ∉ m.sigmask ∪ (m.sigact sg).mask := fun hm =>
    (Finset.mem_union.mp hm).elim h.mask (h.acts sg)
  refine ⟨?_, h.ignore, ?_, fun i => ?_⟩
  · show sigkill ∉ (if (m.sigact sg).nodefer then _ else _ : Finset Sig)
    split
    · exact fun hm => hmask (Finset.mem_of_mem_erase hm)
    · exact fun hm => (Finset.mem_insert.mp hm).elim hne hmask
  · show sigkill ∉ (if (m.sigact sg).resethand then _ else _ : Finset Sig)
    split
    · exact fun hm => h.catched (Finset.mem_of_mem_erase hm)
    · exact h.catched
  · show sigkill ∉ ((if (m.sigact sg).resethand then _ else _ : Sig → SigAction) i).mask
    split
    · by_cases hi : i = sg
      · subst hi
        rw [update_self]
        exact h.acts i
      · rw [update_of_ne hi]
        exact h.acts i
    · exact h.acts i

theorem NoKill.setAction (h : NoKill m.sigs) (hk : sg ≠ sigkill) (a : SigAction) :
    NoKill (State.setAction m sg a).sigs := by
  have hacts : ∀ i, sigkill ∉
      (update m.sigact sg { a with mask := a.mask.erase sigkill } i).mask := by
    intro i
    by_cases hi : i = sg
    · subst hi
      rw [update_self]
      exact Finset.notMem_erase _ _
    · rw [update_of_ne hi]
      exact h.acts i
  unfold State.setAction
  dsimp only
  split
  · exact ⟨h.mask, fun hm => (Finset.mem_insert.mp hm).elim hk.symm h.ignore,
      fun hm => h.catched (Finset.mem_of_mem_erase hm), hacts⟩
  · exact ⟨h.mask, fun hm => h.ignore (Finset.mem_of_mem_erase hm),
      fun hm => h.catched (Finset.mem_of_mem_erase hm), hacts⟩
  · exact ⟨h.mask, fun hm => h.ignore (Finset.mem_of_mem_erase hm),
      fun hm => (Finset.mem_insert.mp hm).elim hk.symm h.catched, hacts⟩

theorem NoKill.resetCatched (h : NoKill m.sigs) : NoKill (Mm.resetCatched m).sigs := by
  refine ⟨h.mask, h.ignore, fun hm => h.catched (Finset.mem_filter.mp hm).1, fun i => ?_⟩
  show sigkill ∉ (if i ∈ m.catched ∧ i ≠ 0 then _ else _ : SigAction).mask
  split
  · exact Finset.notMem_empty _
  · exact h.acts i

/-! ## The sets after a delivery -/

/-- The sets of the process whose handler is called: those that `caught` makes. -/
theorem Handles.sigs_self (h : Handles p sg s s') :
    (s'.mproc p).sigs = (caught (s.mproc p) sg).sigs := by
  obtain ⟨t, ht, rfl⟩ := h.done
  rw [(Still.unpause _ p).sigs p, upd_self]
  -- whether the signal was taken from the pending ones before makes no difference
  have hfield : ∀ X : Finset Sig, (t.mproc p).sigs = { (s.mproc p).sigs with sigpending := X } →
      X.erase sg = (s.mproc p).sigpending.erase sg →
      (caught (t.mproc p) sg).sigs = (caught (s.mproc p) sg).sigs := by
    intro X hX he
    have h1 : (t.mproc p).ignore = (s.mproc p).ignore := congrArg Sigs.ignore hX
    have h2 : (t.mproc p).catched = (s.mproc p).catched := congrArg Sigs.catched hX
    have h3 : (t.mproc p).sigmask = (s.mproc p).sigmask := congrArg Sigs.sigmask hX
    have h4 : (t.mproc p).sigpending = X := congrArg Sigs.sigpending hX
    have h5 : (t.mproc p).sigact = (s.mproc p).sigact := congrArg Sigs.sigact hX
    simp only [Mproc.sigs, State.caught, h1, h2, h3, h4, h5, he]
  rcases ht.own with ho | ho
  · exact hfield _ ho rfl
  · exact hfield _ ho (Finset.erase_idem)

theorem Handles.sigs_other (h : Handles p sg s s') (hq : q ≠ p) :
    (s'.mproc q).sigs = (s.mproc q).sigs := by
  obtain ⟨t, ht, rfl⟩ := h.done
  rw [(Still.unpause _ p).sigs q, upd_other _ _ hq]
  exact ht.sigs q hq

theorem Handles.life (h : Handles p sg s s') (hl : s'.live q = true) :
    s.live q = true ∧ (s'.mproc q).flags.traced = (s.mproc q).flags.traced := by
  obtain ⟨t, ht, rfl⟩ := h.done
  have hflags : ((t.upd p (fun m => caught m sg)).mproc q).flags = (s.mproc q).flags := by
    by_cases hq : q = p
    · subst hq
      rw [upd_self]
      exact ht.flags q
    · rw [upd_other _ _ hq]
      exact ht.flags q
  have hst := Still.unpause (t.upd p (fun m => caught m sg)) p
  have hl' := (hst.live q).symm.trans hl
  have htr := hst.traced q hl'
  rw [hflags] at htr
  simp only [State.live, hflags] at hl'
  exact ⟨hl', htr⟩

/-- The slot whose pending signals are written, and the others. -/
theorem upd_pending_sigs (s : State) (p q : Slot) (f : Finset Sig → Finset Sig) :
    ((s.upd p (fun m => { m with sigpending := f m.sigpending })).mproc q).sigs =
      { (s.mproc q).sigs with
        sigpending := if q = p then f (s.mproc q).sigpending else (s.mproc q).sigpending } := by
  by_cases hq : q = p
  · subst hq
    rw [upd_self, if_pos rfl]
    rfl
  · rw [upd_other _ _ hq, if_neg hq]
    rfl

/-- What holds of the sets of a process whatever is done to them. -/
structure SetsRule (P : Sigs → Prop) : Prop where
  start : P Mproc.bss.sigs
  pend : ∀ {m : Mproc} {sg : Sig}, P m.sigs → sg ≠ 0 → sg ∉ m.ignore →
    P { m.sigs with sigpending := insert sg m.sigpending }
  caught : ∀ {m : Mproc} {sg : Sig}, P m.sigs → sg ∈ m.catched → P (State.caught m sg).sigs
  fewer : ∀ {g : Sigs} {X : Finset Sig}, P g → X ⊆ g.sigpending → P { g with sigpending := X }
  exec : ∀ {m : Mproc}, P m.sigs → P (resetCatched m).sigs
  action : ∀ {m : Mproc} {sg : Sig} (a : SigAction), P m.sigs → sg ≠ sigkill →
    P (State.setAction m sg a).sigs
  mask : ∀ {g : Sigs} {X : Finset Sig}, P g → (sigkill ∈ X → sigkill ∈ g.sigmask) →
    P { g with sigmask := X }

variable {P : Sigs → Prop}

theorem Deliver.sets (h : Deliver s s') (hP : SetsRule P) (hs : ∀ q, P (s.mproc q).sigs)
    (q : Slot) : P (s'.mproc q).sigs := by
  cases h with
  | hush hh =>
    rw [hh.sigs q]
    exact hs q
  | pend p sg _ h0 hig _ =>
    rw [upd_pending_sigs s p q (insert sg)]
    by_cases hq : q = p
    · subst hq
      rw [if_pos rfl]
      exact hP.pend (hs q) h0 hig
    · rw [if_neg hq]
      exact hs q
  | handle p sg hh =>
    by_cases hq : q = p
    · subst hq
      rw [hh.sigs_self]
      exact hP.caught (hs q) hh.wanted
    · rw [hh.sigs_other hq]
      exact hs q
  | dies p hd =>
    by_cases hq : q = p
    · subst hq
      rw [hd.own.2]
      exact hP.fewer (hs q) hd.own.1
    · rw [hd.sigs q hq]
      exact hs q
  | drop p sg _ _ _ =>
    rw [upd_pending_sigs s p q (fun X => X.erase sg)]
    refine hP.fewer (hs q) ?_
    split
    · exact Finset.erase_subset _ _
    · exact Finset.Subset.refl _

theorem Edit.sets (h : Edit who r s s') (hP : SetsRule P) (hs : ∀ q, P (s.mproc q).sigs)
    (q : Slot) : P (s'.mproc q).sigs := by
  cases h with
  | hush hh =>
    rw [hh.sigs q]
    exact hs q
  | fork child _ _ hc ho =>
    by_cases hq : q = child
    · subst hq
      rw [hc]
      exact hs who
    · rw [ho q hq]
      exact hs q
  | exec ho hx =>
    by_cases hq : q = who
    · subst hq
      rw [hx]
      exact hP.exec (hs q)
    · rw [ho.other q hq]
      exact hs q
  | action sg a _ _ hk =>
    by_cases hq : q = who
    · subst hq
      rw [upd_self]
      exact hP.action a (hs q) hk
    · rw [upd_other _ _ hq]
      exact hs q
  | mask X ho hX hx =>
    by_cases hq : q = who
    · subst hq
      rw [hx]
      exact hP.mask (hs q) hX
    · rw [ho.other q hq]
      exact hs q
  | untrace p =>
    rw [updFlags_mproc]
    exact hs q

/-- What edits, deliveries and tracing keep, a turn keeps. -/
theorem Turn.rule {P : State → Prop} (hT : Turn who r s s') (hs : P s)
    (hedit : ∀ s s', Edit who r s s' → P s → P s') (hdel : ∀ s s', Deliver s s' → P s → P s')
    (hre : ∀ s s', Retrace s s' → P s → P s') : P s' := by
  obtain ⟨s1, s2, he, hd, ht⟩ := hT
  refine hre s2 s' ht ?_
  have h1 := hedit s s1 he hs
  clear ht
  induction hd with
  | refl => exact h1
  | step _ hm ih => exact hdel _ _ hm ih

/-- What every turn keeps, every run keeps. -/
theorem Runs.rule {P : State → Prop} (h : Runs M s0 s) (h0 : P s0)
    (hturn : ∀ who r s s', Turn who r s s' → P s → P s') : P s := by
  induction h with
  | refl => exact h0
  | step _ _ hstep ih => exact hturn _ _ _ _ (step_turn hstep) ih

/-- MM starts with empty sets. -/
theorem mmInit_sigs (h : mmInit map chunks = .ok s0) (q : Slot) :
    (s0.mproc q).sigs = Mproc.bss.sigs := by
  obtain ⟨holes, -, rfl⟩ := Except.map_ok h
  show (initSlot map q).sigs = Mproc.bss.sigs
  rw [initSlot]
  split <;> rfl

theorem Runs.sets (h0 : mmInit map chunks = .ok s0) (h : Runs M s0 s) (hP : SetsRule P) :
    ∀ q, P (s.mproc q).sigs := by
  refine h.rule (P := fun s => ∀ q, P (s.mproc q).sigs) (fun q => ?_) (fun who r s s' hT hs => ?_)
  · rw [mmInit_sigs h0 q]
    exact hP.start
  · exact hT.rule (P := fun s => ∀ q, P (s.mproc q).sigs) hs (fun _ _ he => he.sets hP)
      (fun _ _ hd => hd.sets hP) (fun _ _ hre hs q => (hre.sigs q).symm ▸ hs q)

/-- No pending signal is ignored, and all are signals. -/
def Kept (g : Sigs) : Prop := ∀ sg ∈ g.sigpending, sg ∉ g.ignore ∧ sg ≠ 0

theorem Kept.fewer {g g' : Sigs} (h : Kept g) (hp : g'.sigpending ⊆ g.sigpending)
    (hi : g'.ignore ⊆ g.ignore) : Kept g' := fun sg hsg =>
  ⟨fun hm => (h sg (hp hsg)).1 (hi hm), (h sg (hp hsg)).2⟩

theorem Kept.setAction (h : Kept m.sigs) (sg : Sig) (a : SigAction) :
    Kept (State.setAction m sg a).sigs := by
  unfold State.setAction
  dsimp only
  split
  · intro i hi
    obtain ⟨hne, hi⟩ := Finset.mem_erase.mp hi
    exact ⟨fun hm => (Finset.mem_insert.mp hm).elim hne (h i hi).1, (h i hi).2⟩
  all_goals exact h.fewer (Finset.Subset.refl _) (Finset.erase_subset _ _)

theorem kept_rule : SetsRule Kept where
  start sg hsg := absurd hsg (Finset.notMem_empty _)
  pend h h0 hig i hi := by
    rcases Finset.mem_insert.mp hi with rfl | hi
    · exact ⟨hig, h0⟩
    · exact h i hi
  caught h _ := h.fewer (Finset.erase_subset _ _) (Finset.Subset.refl _)
  fewer h hX := h.fewer hX (Finset.Subset.refl _)
  exec h := h
  action a h _ := h.setAction _ a
  mask h _ := h

theorem Delivers.kept (h : Delivers s s') (hs : ∀ q, Kept (s.mproc q).sigs) :
    ∀ q, Kept (s'.mproc q).sigs := by
  induction h with
  | refl => exact hs
  | step _ hm ih => exact hm.sets kept_rule ih

/-- Whoever is alive after a delivery was alive before it, and as much traced. -/
theorem Deliver.alive (h : Deliver s s') (hl : s'.live p = true) :
    s.live p = true ∧ (s'.mproc p).flags.traced = (s.mproc p).flags.traced := by
  have hupd : ∀ (q : Slot) (f : Finset Sig → Finset Sig),
      ((s.upd q (fun m => { m with sigpending := f m.sigpending })).mproc p).flags
        = (s.mproc p).flags := by
    intro q f
    by_cases hq : p = q
    · subst hq
      rw [upd_self]
    · rw [upd_other _ _ hq]
  cases h with
  | hush hh =>
    have hl' := (hh.live p).symm.trans hl
    exact ⟨hl', hh.traced p hl'⟩
  | pend q sg _ _ _ _ =>
    have hf := hupd q (insert sg)
    simp only [State.live, hf] at hl ⊢
    exact ⟨hl, trivial⟩
  | handle q sg hh => exact hh.life hl
  | dies q hd =>
    have hq : p ≠ q := by
      rintro rfl
      cases hd.dead.symm.trans hl
    exact ⟨(hd.live p hq).symm.trans hl, hd.traced p hl⟩
  | drop q sg _ _ _ =>
    have hf := hupd q (fun X => X.erase sg)
    simp only [State.live, hf] at hl ⊢
    exact ⟨hl, trivial⟩

theorem Delivers.alive (h : Delivers s s') (hl : s'.live p = true) :
    s.live p = true ∧ (s'.mproc p).flags.traced = (s.mproc p).flags.traced := by
  induction h with
  | refl => exact ⟨hl, rfl⟩
  | step _ hm ih =>
    obtain ⟨hl1, ht1⟩ := hm.alive hl
    obtain ⟨hl0, ht0⟩ := ih hl1
    exact ⟨hl0, ht1.trans ht0⟩

/-- The state after a signal of the process has become pending. -/
def State.pended (s : State) (p : Slot) (sg : Sig) : State :=
  s.upd p (fun m => { m with sigpending := insert sg m.sigpending })

theorem upd_sigpending (s : State) (p q : Slot) (f : Finset Sig → Finset Sig) :
    ((s.upd p (fun m => { m with sigpending := f m.sigpending })).mproc q).sigpending =
      if q = p then f (s.mproc q).sigpending else (s.mproc q).sigpending :=
  congrArg Sigs.sigpending (upd_pending_sigs s p q f)

/-- A signal that a delivery makes pending is blocked and not ignored. -/
theorem Deliver.entered (h : Deliver s s') (hi : sg ∈ (s'.mproc p).sigpending)
    (hno : sg ∉ (s.mproc p).sigpending) :
    sg ∈ (s.mproc p).sigmask ∧ sg ∉ (s.mproc p).ignore ∧ s' = s.pended p sg := by
  have hkeep : (s'.mproc p).sigpending ⊆ (s.mproc p).sigpending →
      sg ∈ (s.mproc p).sigmask ∧ sg ∉ (s.mproc p).ignore ∧ s' = s.pended p sg :=
    fun hsub => absurd (hsub hi) hno
  have hsame : (s'.mproc p).sigs = (s.mproc p).sigs →
      sg ∈ (s.mproc p).sigmask ∧ sg ∉ (s.mproc p).ignore ∧ s' = s.pended p sg :=
    fun hs => hkeep (congrArg Sigs.sigpending hs).subset
  cases h with
  | hush hh => exact hsame (hh.sigs p)
  | pend q i _ _ hig hm =>
    rw [upd_sigpending s q p (insert i)] at hi
    split at hi
    · rename_i hq
      subst hq
      rcases Finset.mem_insert.mp hi with rfl | hi
      · exact ⟨hm, hig, rfl⟩
      · exact absurd hi hno
    · exact absurd hi hno
  | handle q i hh =>
    by_cases hq : p = q
    · subst hq
      have he : (s'.mproc p).sigpending = (s.mproc p).sigpending.erase i :=
        congrArg Sigs.sigpending hh.sigs_self
      exact hkeep (he ▸ Finset.erase_subset _ _)
    · exact hsame (hh.sigs_other hq)
  | dies q hd =>
    by_cases hq : p = q
    · subst hq
      exact hkeep hd.own.1
    · exact hsame (hd.sigs p hq)
  | drop q i _ _ _ =>
    refine hkeep ?_
    rw [upd_sigpending s q p (fun X => X.erase i)]
    split
    · exact Finset.erase_subset _ _
    · exact Finset.Subset.refl _

/-- A signal that a delivery takes from the pending ones of a live process that is not traced is
    handled. -/
theorem Deliver.left (h : Deliver s s') (hk : Kept (s.mproc p).sigs)
    (ht : s.live p = true → (s.mproc p).flags.traced = false)
    (hi : sg ∈ (s.mproc p).sigpending) (hno : sg ∉ (s'.mproc p).sigpending) :
    s'.live p = false ∨ Handles p sg s s' := by
  have hsame : (s'.mproc p).sigs = (s.mproc p).sigs → s'.live p = false ∨ Handles p sg s s' := by
    intro hs
    have he : (s'.mproc p).sigpending = (s.mproc p).sigpending := congrArg Sigs.sigpending hs
    exact absurd (he ▸ hi) hno
  cases h with
  | hush hh => exact hsame (hh.sigs p)
  | pend q i _ _ _ _ =>
    rw [upd_sigpending s q p (insert i)] at hno
    split at hno
    · exact absurd (Finset.mem_insert_of_mem hi) hno
    · exact absurd hi hno
  | handle q i hh =>
    by_cases hq : p = q
    · subst hq
      have he : (s'.mproc p).sigpending = (s.mproc p).sigpending.erase i :=
        congrArg Sigs.sigpending hh.sigs_self
      have hsg : sg = i := by
        by_contra hne
        exact hno (he ▸ Finset.mem_erase.mpr ⟨hne, hi⟩)
      subst hsg
      exact .inr hh
    · exact hsame (hh.sigs_other hq)
  | dies q hd =>
    by_cases hq : p = q
    · subst hq
      exact .inl hd.dead
    · exact hsame (hd.sigs p hq)
  | drop q i hdrop hl _ =>
    rw [upd_sigpending s q p (fun X => X.erase i)] at hno
    split at hno
    · rename_i hq
      subst hq
      have hsg : sg = i := by
        by_contra hne
        exact hno (Finset.mem_erase.mpr ⟨hne, hi⟩)
      subst hsg
      -- it is not traced, and what is pending is not ignored
      rcases hdrop with htr | hig
      · exact nomatch (ht hl).symm.trans htr
      · exact absurd hig (hk sg hi).1
    · exact absurd hi hno

/-- What deliveries do to the pending signals of a process that is not traced. -/
structure Tracked (p : Slot) (s s' : State) : Prop where
  entered : ∀ sg ∈ (s'.mproc p).sigpending, sg ∉ (s.mproc p).sigpending →
    ∃ a, Delivers s a ∧ sg ∈ (a.mproc p).sigmask ∧ sg ∉ (a.mproc p).ignore ∧
      Delivers (a.pended p sg) s'
  left : ∀ sg ∈ (s.mproc p).sigpending, sg ∉ (s'.mproc p).sigpending →
    s'.live p = false ∨ ∃ a b, Delivers s a ∧ Handles p sg a b ∧ Delivers b s'

theorem Delivers.tracked (h : Delivers s s') (hk : ∀ q, Kept (s.mproc q).sigs)
    (ht : s.live p = true → (s.mproc p).flags.traced = false) : Tracked p s s' := by
  induction h with
  | refl => exact ⟨fun sg hi hno => absurd hi hno, fun sg hi hno => absurd hi hno⟩
  | step hpre hm ih =>
    rename_i s1 s'
    refine ⟨fun sg hi hno => ?_, fun sg hi hno => ?_⟩
    · by_cases h1 : sg ∈ (s1.mproc p).sigpending
      · obtain ⟨a, ha, hb, hn, hd⟩ := ih.entered sg h1 hno
        exact ⟨a, ha, hb, hn, hd.step hm⟩
      · obtain ⟨hb, hn, rfl⟩ := hm.entered hi h1
        exact ⟨s1, hpre, hb, hn, .refl⟩
    · by_cases h1 : sg ∈ (s1.mproc p).sigpending
      · have ht1 : s1.live p = true → (s1.mproc p).flags.traced = false := fun hl =>
          (hpre.alive hl).2.trans (ht (hpre.alive hl).1)
        rcases hm.left (hpre.kept hk p) ht1 h1 hno with hd | hh
        · exact .inl hd
        · exact .inr ⟨s1, s', hpre, hh, .refl⟩
      · rcases ih.left sg hi h1 with hd | ⟨a, b, ha, hh, hb⟩
        · refine .inl ?_
          by_contra hl
          exact nomatch hd.symm.trans (hm.alive (by simpa using hl)).1
        · exact .inr ⟨a, b, ha, hh, hb.step hm⟩

/-- What an edit does to a process that is in use: it stays as alive and gets no new pending
    signal; a pending signal is taken away only by an action that ignores it. -/
theorem Edit.tracked (h : Edit who r s s') (hp : (s.mproc p).flags.inUse = true)
    (ht : (s.mproc p).flags.traced = false) :
    (s'.live p = true → (s'.mproc p).flags.traced = false) ∧
      (s'.mproc p).sigpending ⊆ (s.mproc p).sigpending ∧
      ∀ sg ∈ (s.mproc p).sigpending, sg ∉ (s'.mproc p).sigpending →
        who = p ∧ ∃ a : SigAction, a.handler = .ign ∧ r = .sigaction sg.val (some a) := by
  have hsame : (s'.live p = true → (s'.mproc p).flags.traced = false) →
      (s'.mproc p).sigpending = (s.mproc p).sigpending →
      (s'.live p = true → (s'.mproc p).flags.traced = false) ∧
      (s'.mproc p).sigpending ⊆ (s.mproc p).sigpending ∧
      ∀ sg ∈ (s.mproc p).sigpending, sg ∉ (s'.mproc p).sigpending →
        who = p ∧ ∃ a : SigAction, a.handler = .ign ∧ r = .sigaction sg.val (some a) :=
    fun htr he => ⟨htr, he.subset, fun sg hi hno => absurd (he.symm.subset hi) hno⟩
  have honly : Only who s s' → s'.live p = true → (s'.mproc p).flags.traced = false := by
    intro ho _
    by_cases hq : p = who
    · subst hq
      exact ho.traced.trans ht
    · rw [ho.other p hq]
      exact ht
  cases h with
  | hush hh =>
    exact hsame (fun hl => (hh.traced p ((hh.live p).symm.trans hl)).trans ht)
      (congrArg Sigs.sigpending (hh.sigs p))
  | fork child _ hfree hc ho =>
    have hne : p ≠ child := by
      rintro rfl
      exact nomatch hp.symm.trans hfree
    rw [ho p hne] at hsame ⊢
    exact hsame (fun _ => ht) rfl
  | exec ho hx | mask X ho _ hx =>
    refine hsame (honly ho) ?_
    by_cases hq : p = who
    · subst hq
      exact congrArg Sigs.sigpending hx
    · rw [ho.other p hq]
  | action sg a hr _ _ =>
    by_cases hq : p = who
    · subst hq
      rw [upd_self] at hsame ⊢
      have hflags : (setAction (s.mproc p) sg a).flags = (s.mproc p).flags := by
        unfold State.setAction
        dsimp only
        split <;> rfl
      refine ⟨fun _ => hflags ▸ ht, ?_⟩
      unfold State.setAction
      dsimp only
      split
      · rename_i hign
        refine ⟨Finset.erase_subset _ _, fun i hi hno => ⟨rfl, a, hign, ?_⟩⟩
        have hi' : i = sg := by
          by_contra hne
          exact hno (Finset.mem_erase.mpr ⟨hne, hi⟩)
        rw [hi']
        exact hr
      all_goals exact ⟨Finset.Subset.refl _, fun i hi hno => absurd hi hno⟩
    · rw [upd_other _ _ hq] at hsame ⊢
      exact hsame (fun _ => ht) rfl
  | untrace q =>
    refine hsame (fun _ => ?_) ?_
    · rw [updFlags_mproc]
      dsimp only
      split
      · rfl
      · exact ht
    · rw [updFlags_mproc]

/-! ## The law of one turn -/

/-- A process that is neither paused nor waiting is not suspended either once its handler has
    been called. -/
theorem Handles.released (h : Handles p sg s s') (hp : (s.mproc p).flags.paused = false)
    (hw : (s.mproc p).flags.waiting = false) : (s'.mproc p).flags.sigsuspended = false := by
  obtain ⟨t, ht, rfl⟩ := h.done
  have hh : (s.mproc p).flags.hanging = false := (live_iff.mp h.live).2
  have hflags : ((t.upd p (fun m => caught m sg)).mproc p).flags = (s.mproc p).flags := by
    rw [upd_self]
    exact ht.flags p
  simp only [State.unpause, hflags, hp, hw, hh, Bool.false_eq_true, if_false,
    Bool.not_false, Bool.and_true]
  split
  · rw [updFlags_mproc, if_pos rfl]
  · rename_i hsus
    rw [hflags]
    simpa using hsus

/-- How the pending signals of processes that are not traced change in one turn of MM. -/
structure PendingLaw (m : Msg) (s s' : State) : Prop where
  /-- a signal becomes pending at a moment when it is blocked and not ignored -/
  enters : ∀ p sg, (s.mproc p).flags.inUse = true → (s.mproc p).flags.traced = false →
    sg ∈ (s'.mproc p).sigpending → sg ∉ (s.mproc p).sigpending →
    ∃ s1 a s2, Edit m.asks.1 m.asks.2 s s1 ∧ Delivers s1 a ∧ sg ∈ (a.mproc p).sigmask ∧
      sg ∉ (a.mproc p).ignore ∧ Delivers (a.pended p sg) s2 ∧ Retrace s2 s'
  /-- it is pending no more when it is ignored from now on, when the process has ended or when
      its handler has been called -/
  leaves : ∀ p sg, (s.mproc p).flags.inUse = true → (s.mproc p).flags.traced = false →
    sg ∈ (s.mproc p).sigpending → sg ∉ (s'.mproc p).sigpending →
    (∃ a : SigAction, a.handler = .ign ∧ m.asks = (p, .sigaction sg.val (some a))) ∨
      s'.live p = false ∨
      ∃ s1 a b s2, Edit m.asks.1 m.asks.2 s s1 ∧ Delivers s1 a ∧ Handles p sg a b ∧
        Delivers b s2 ∧ Retrace s2 s'
  /-- a call after whose change of the mask some pending signal is not blocked delivers one -/
  delivers : ∀ who r e m1, m = .call who r e → unmasked r (s.mproc who) = some m1 →
    (s.mproc who).flags.traced = false → (∃ sg ∈ m1.sigpending, sg ∉ m1.sigmask) →
    ∃ sg ∈ m1.sigpending, sg ∉ m1.sigmask ∧
      (s'.live who = false ∨
        Handles who sg (s.upd who (fun _ => m1)) s' ∧
          (s'.mproc who).flags.sigsuspended = false)

/-- Signal `_NSIG`. -/
def lastSig : Sig := 16

/-- The call takes from the mask nothing that is pending but signal `_NSIG`. -/
def OnlyLast (m : Msg) (s : State) : Prop :=
  ∃ who r e m1, m = .call who r e ∧ unmasked r (s.mproc who) = some m1 ∧
    (s.mproc who).flags.traced = false ∧ (lastSig ∈ m1.sigpending ∧ lastSig ∉ m1.sigmask) ∧
    ∀ sg ∈ m1.sigpending, sg ∉ m1.sigmask → sg = lastSig

/-- The state in which `check_pending` looks for a signal. -/
theorem step_unmasked (h : s.step (.call who r e) = some (.ok s'))
    (hm : unmasked r (s.mproc who) = some m1) :
    s.canCall who = true ∧
      (s.upd who (fun _ => m1)).checkPending e ⟨who.val, who⟩ = .ok s' := by
  simp only [State.step] at h
  split at h
  · rename_i hcan
    exact ⟨hcan, (serve_unmasked hm).symm.trans (some.inj h)⟩
  · cases h

/-- The mask calls leave alone what tells whether the caller lives, waits or is traced, and
    which signals are pending. -/
theorem unmasked_same (hm : unmasked r m = some m1) :
    m1.flags.inUse = m.flags.inUse ∧ m1.flags.hanging = m.flags.hanging ∧
      m1.flags.traced = m.flags.traced ∧ m1.flags.paused = m.flags.paused ∧
      m1.flags.waiting = m.flags.waiting ∧ m1.sigpending = m.sigpending ∧
      m1.ignore = m.ignore := by
  unfold unmasked at hm
  split at hm <;> cases hm <;> exact ⟨rfl, rfl, rfl, rfl, rfl, rfl, rfl⟩

/-- If a signal other than the last one waits no more, one is delivered. -/
theorem unmasked_delivers (h : s.step (.call who r e) = some (.ok s'))
    (hk : Kept (s.mproc who).sigs) (hm : unmasked r (s.mproc who) = some m1)
    (ht : (s.mproc who).flags.traced = false)
    (hsome : ∃ sg ∈ m1.sigpending, sg ∉ m1.sigmask ∧ sg ≠ lastSig) :
    ∃ sg ∈ m1.sigpending, sg ∉ m1.sigmask ∧
      (s'.live who = false ∨
        Handles who sg (s.upd who (fun _ => m1)) s' ∧
          (s'.mproc who).flags.sigsuspended = false) := by
  obtain ⟨hcan, hcheck⟩ := step_unmasked h hm
  obtain ⟨-, -, htr, hpa, hwa, hpend, hig⟩ := unmasked_same hm
  have hself : (s.upd who (fun _ => m1)).mproc who = m1 := upd_self s who _
  rcases checkPending_outcome hcheck with ⟨-, hnone⟩ | ⟨i, hi, hout⟩
  · obtain ⟨sg, hp, hf, hne⟩ := hsome
    have h0 : sg ≠ 0 := (hk sg (hpend.subset hp)).2
    have hlt : 1 ≤ sg.val ∧ sg.val < 16 := by
      have h0' : sg.val ≠ 0 := fun hv => h0 (Fin.ext hv)
      have h16 : sg.val ≠ 16 := fun hv => hne (Fin.ext hv)
      omega
    have hd : deliverable m1 sg = true := deliverable_iff.mpr ⟨hlt.1, hlt.2, hp, hf⟩
    exact nomatch (hself ▸ hnone sg).symm.trans hd
  · dsimp only at hout
    rw [hself] at hi hout
    obtain ⟨-, -, hp, hf⟩ := deliverable_iff.mp hi
    refine ⟨i, hp, hf, ?_⟩
    rcases hout with hh | ⟨s1, hd, hr⟩ | ⟨hdrop, -, -⟩
    · simp only [State.canCall, Bool.and_eq_true, Bool.not_eq_true'] at hcan
      exact .inr ⟨hh, hh.released (by rw [hself, hpa]; exact hcan.1.2)
        (by rw [hself, hwa]; exact hcan.1.1.2)⟩
    · refine .inl ?_
      by_contra hl
      exact nomatch hd.dead.symm.trans (hr.alive (by simpa using hl)).1
    · rcases hdrop with htr' | hig'
      · exact nomatch (htr.trans ht).symm.trans htr'
      · exact absurd (hig.subset hig') (hk i (hpend.subset hp)).1

/-- If only the last signal waits no more, the call does nothing about it. -/
theorem onlyLast_stays (h : s.step (.call who r e) = some (.ok s'))
    (hm : unmasked r (s.mproc who) = some m1)
    (honly : ∀ sg ∈ m1.sigpending, sg ∉ m1.sigmask → sg = lastSig) :
    s' = s.upd who (fun _ => m1) := by
  obtain ⟨-, hcheck⟩ := step_unmasked h hm
  rcases checkPending_cases (s.upd who (fun _ => m1)) e ⟨who.val, who⟩ with
    ⟨he, -⟩ | ⟨i, hi, -⟩
  · exact Except.ok.inj (hcheck.symm.trans he)
  · rw [show (s.upd who (fun _ => m1)).mproc who = m1 from upd_self s who _] at hi
    obtain ⟨-, hlt, hp, hf⟩ := deliverable_iff.mp hi
    have hv : i.val = 16 := congrArg Fin.val (honly i hp hf)
    omega

/-- So the law fails. -/
theorem OnlyLast.not_law {m : Msg} (h : OnlyLast m s) (hstep : s.step m = some (.ok s')) :
    ¬ PendingLaw m s s' := by
  obtain ⟨who, r, e, m1, rfl, hm, ht, ⟨hp, hf⟩, honly⟩ := h
  intro hlaw
  obtain ⟨sg, hsg, hfree, hd⟩ := hlaw.delivers who r e m1 rfl hm ht ⟨lastSig, hp, hf⟩
  obtain rfl := honly sg hsg hfree
  obtain rfl := onlyLast_stays hstep hm honly
  obtain ⟨hin, hha, -⟩ := unmasked_same hm
  rcases hd with hdead | ⟨hh, -⟩
  · obtain ⟨hcan, -⟩ := step_unmasked hstep hm
    simp only [State.canCall, Bool.and_eq_true, Bool.not_eq_true'] at hcan
    have hl : (s.upd who (fun _ => m1)).live who = s.live who := by
      simp only [State.live, upd_self, hin, hha]
    cases hdead.symm.trans (hl.trans hcan.1.1.1.2)
  · have he : m1.sigpending = m1.sigpending.erase lastSig := by
      have hs := congrArg Sigs.sigpending hh.sigs_self
      rw [upd_self] at hs
      exact hs
    exact Finset.notMem_erase _ _ (he ▸ hp)

/-- **BLOCKED SIGNALS ARE DELIVERED WHEN UNBLOCKED, BUT FOR THE LAST ONE.**  In every state that
    MM can get into, a turn obeys the law unless it takes from the mask of its caller nothing
    that is pending but signal `_NSIG`, which the loop of `check_pending` does not reach. -/
theorem pending_law_iff {M : State → Msg → Prop} {map : Slot → MemMap × MemMap × MemMap}
    {chunks : List Region} {s0 : State} {m : Msg} (h0 : mmInit map chunks = .ok s0)
    (h : Runs M s0 s) (hstep : s.step m = some (.ok s')) :
    PendingLaw m s s' ↔ ¬ OnlyLast m s := by
  have hk := h.sets h0 kept_rule
  constructor
  · exact fun hlaw hlast => hlast.not_law hstep hlaw
  · intro hnot
    obtain ⟨s1, s2, hedit, hdel, hre⟩ := step_turn hstep
    have hpend : ∀ q, (s'.mproc q).sigpending = (s2.mproc q).sigpending := fun q =>
      congrArg Sigs.sigpending (hre.sigs q)
    refine ⟨fun p sg hin ht hi hno => ?_, fun p sg hin ht hi hno => ?_, ?_⟩
    · obtain ⟨htr, hsub, -⟩ := hedit.tracked hin ht
      rw [hpend p] at hi
      obtain ⟨a, ha, hb, hn, hd⟩ := (hdel.tracked (hedit.sets kept_rule hk) htr).entered sg hi
        (fun h1 => hno (hsub h1))
      exact ⟨s1, a, s2, hedit, ha, hb, hn, hd, hre⟩
    · obtain ⟨htr, -, hign⟩ := hedit.tracked hin ht
      rw [hpend p] at hno
      by_cases h1 : sg ∈ (s1.mproc p).sigpending
      · rcases (hdel.tracked (hedit.sets kept_rule hk) htr).left sg h1 hno with
          hd | ⟨a, b, ha, hh, hb⟩
        · exact .inr (.inl ((hre.live p).trans hd))
        · exact .inr (.inr ⟨s1, a, b, s2, hedit, ha, hh, hb, hre⟩)
      · obtain ⟨hw, a, ha, hr⟩ := hign sg hi h1
        exact .inl ⟨a, ha, Prod.ext hw hr⟩
    · rintro who r e m1 rfl hm ht ⟨sg, hp, hf⟩
      refine unmasked_delivers hstep (hk who) hm ht ?_
      by_contra hnone
      have honly : ∀ i ∈ m1.sigpending, i ∉ m1.sigmask → i = lastSig := by
        intro i hi hfi
        by_contra hne
        exact hnone ⟨i, hi, hfi, hne⟩
      obtain rfl := honly sg hp hf
      exact hnot ⟨who, r, e, m1, rfl, hm, ht, ⟨hp, hf⟩, honly⟩

/-- INIT blocks a signal, sends it to itself and is about to unblock it. -/
def blockAndSend (sg : Sig) : List Msg :=
  [.call initNr (.sigaction sg.val (some ⟨.user, ∅, false, false⟩)) plainEnv,
    .call initNr (.sigprocmask .setmask {sg}) plainEnv,
    .call initNr (.kill 1 sg.val) plainEnv]

def unblockAll : Msg := .call initNr (.sigprocmask .setmask ∅) plainEnv

/-- The signal is pending, and MM has an answer to the next request. -/
def waitsFor (sg : Sig) (s : State) : Bool :=
  decide ((s.mproc initNr).sigpending = {sg}) && !(s.mproc initNr).flags.traced &&
    ((s.step unblockAll).any fun r => r.isOk)

theorem waitsFor_step (h : waitsFor sg s = true) :
    (s.mproc initNr).sigpending = {sg} ∧ (s.mproc initNr).flags.traced = false ∧
      ∃ s', s.step unblockAll = some (.ok s') := by
  simp only [waitsFor, Bool.and_eq_true, decide_eq_true_eq, Bool.not_eq_true'] at h
  obtain ⟨⟨hp, ht⟩, hok⟩ := h
  obtain ⟨r, hr, hok⟩ := (any_eq_true _ _).mp hok
  refine ⟨hp, ht, ?_⟩
  cases r with
  | ok s' => exact ⟨s', hr⟩
  | error _ => cases hok

/-- With SIGTERM, the law holds. -/
theorem pending_law_sigterm : ∃ s s', boot smallMap [⟨300, 200⟩] (blockAndSend 15) = some s ∧
    s.step unblockAll = some (.ok s') ∧ PendingLaw unblockAll s s' := by
  have hb : (boot smallMap [⟨300, 200⟩] (blockAndSend 15)).any (waitsFor 15) = true := by
    decide +kernel
  obtain ⟨s, hs, hw⟩ := (any_eq_true _ _).mp hb
  obtain ⟨s0, h0, hrun⟩ := boot_runs hs
  obtain ⟨hp, -, s', hstep⟩ := waitsFor_step hw
  refine ⟨s, s', hs, hstep, (pending_law_iff h0 hrun hstep).mpr ?_⟩
  rintro ⟨who, r, e, m1, hcall, hm, -, ⟨hlast, -⟩, -⟩
  cases hcall
  rw [(unmasked_same hm).2.2.2.2.2.1, hp] at hlast
  exact absurd hlast (by decide)

/-- **A SIGNAL THAT IS NEVER DELIVERED.**  With signal 16 it does not: INIT unblocks it, and it
    is pending still. -/
theorem last_signal_stays : ∃ s s', boot smallMap [⟨300, 200⟩] (blockAndSend lastSig) = some s ∧
    s.step unblockAll = some (.ok s') ∧ lastSig ∈ (s'.mproc initNr).sigpending ∧
    lastSig ∉ (s'.mproc initNr).sigmask ∧ ¬ PendingLaw unblockAll s s' := by
  have hb : (boot smallMap [⟨300, 200⟩] (blockAndSend lastSig)).any (waitsFor lastSig) = true := by
    decide +kernel
  obtain ⟨s, hs, hw⟩ := (any_eq_true _ _).mp hb
  obtain ⟨hp, ht, s', hstep⟩ := waitsFor_step hw
  have hm : unmasked (.sigprocmask .setmask ∅) (s.mproc initNr)
      = some { s.mproc initNr with sigmask := (∅ : Finset Sig).erase sigkill } := rfl
  have honly : ∀ sg ∈ (s.mproc initNr).sigpending, sg ∉ (∅ : Finset Sig).erase sigkill →
      sg = lastSig := fun sg hsg _ => Finset.mem_singleton.mp (hp ▸ hsg)
  have hmem : lastSig ∈ (s.mproc initNr).sigpending := hp ▸ Finset.mem_singleton_self _
  have hfree : lastSig ∉ (∅ : Finset Sig).erase sigkill := by decide
  have he := onlyLast_stays hstep hm honly
  refine ⟨s, s', hs, hstep, ?_, ?_, OnlyLast.not_law ?_ hstep⟩
  · rw [he, upd_self]
    exact hmem
  · rw [he, upd_self]
    exact hfree
  · exact ⟨initNr, _, plainEnv, _, rfl, hm, ht, ⟨hmem, hfree⟩, honly⟩

end Mm
