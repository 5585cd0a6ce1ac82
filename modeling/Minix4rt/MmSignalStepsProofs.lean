import Minix4rt.MmRequestProofs

/-! # What a signal can do to a process

    A request edits the signal sets of its caller, and then signals are delivered: kept,
    handed to a handler, or taken as an exit.  `Edit` lists the first kind of change and
    `Deliver` the second, and `serve_delivers` cuts every request into one edit, some
    deliveries and a last change of tracing bits.  Exits, hangups and broadcasts that nest
    are all sequences of deliveries. -/

namespace Mm

open Regions State Option

variable {s s' s1 s2 t : State} {p q who : Slot} {c : Ctx} {e : Env} {kill : Kill} {signo : Sig}
variable {sg : Sig} {r : Req} {m : Mproc}

/-! ## Changes that no signal notices -/

theorem Still.setAlarm (s : State) (p : Slot) (on : Bool) : Still s (s.setAlarm p on) :=
  Still.upd s p (g := fun m => { m with flags := { m.flags with alarmOn := on } }) rfl rfl rfl rfl
    rfl

/-- `adjust` changes the maps of a slot. -/
theorem Still.adjust (s : State) (p : Slot) (dc : Nat) (sp : BitVec 32) :
    Still s (s.adjust p dc sp).1 ∧
      ∀ q, ((s.adjust p dc sp).1.mproc q).flags = (s.mproc q).flags := by
  rw [State.adjust]
  split
  · rename_i m hm
    have hkept : m.sigs = (s.mproc p).sigs ∧ m.ids = (s.mproc p).ids := by
      simp only [adjustMap] at hm
      split_ifs at hm <;> cases hm <;> exact ⟨rfl, rfl⟩
    obtain ⟨-, hf⟩ := adjustMap_core hm
    refine ⟨.upd s p (g := fun _ => m) hkept.1 (by rw [hf]) (by rw [hf]) (by rw [hf]) hkept.2,
      fun q => ?_⟩
    by_cases hq : q = p
    · subst hq
      rw [upd_self, hf]
    · rw [upd_other s _ hq]
  · exact ⟨.refl s, fun _ => rfl⟩

/-- `stop_proc` writes flags. -/
theorem Still.stopProc (s : State) (p : Slot) (sg : Sig) : Still s (s.stopProc p sg) := by
  simp only [State.stopProc]
  have h1 : Still s (s.updFlags p (fun f => { f with stopped := true })) :=
    Still.upd s p rfl rfl rfl rfl rfl
  split
  · exact .note (h1.trans (.upd _ _ rfl rfl rfl rfl rfl)) _
  · exact h1.trans (.upd _ _ rfl rfl rfl rfl rfl)

/-- `dump_core` writes the status and the map. -/
theorem Still.dumpCore (s : State) (e : Env) (p : Slot) : Still s (s.dumpCore e p) := by
  simp only [State.dumpCore]
  split
  · exact .refl s
  split
  · exact .refl s
  · exact (Still.upd s p (g := fun m => { m with sigstatus := m.sigstatus ||| 128#8 })
      rfl rfl rfl rfl rfl).trans (Still.adjust _ p _ _).1

/-- A slot that hangs is cleaned up. -/
theorem Still.cleanup (hh : (s.mproc q).flags.hanging = true) : Still s (s.cleanup c q) := by
  have hdead : s.live q = false := by simp [State.live, hh]
  refine ⟨⟨fun x => ?_, fun x => ?_, fun x hl => ?_⟩, fun x => ?_⟩
  · rw [cleanup_mproc]
    rfl
  · by_cases hx : x = q
    · subst hx
      rw [hdead]
      simp [State.live, cleanup_mproc, MpFlags.zero]
    · simp only [State.live, cleanup_mproc, if_neg hx]
      split <;> rfl
  · have hx : x ≠ q := by
      rintro rfl
      cases hdead.symm.trans hl
    simp only [cleanup_mproc, if_neg hx]
    split <;> rfl
  · rw [cleanup_mproc]
    rfl

/-- The children of an exiting process go to INIT. -/
theorem Still.disinherit (s : State) (c : Ctx) (p : Slot) (qs : List Slot) :
    Still s (s.disinherit c p qs) := by
  refine disinherit_rule (P := fun _ t => Still s t) (fun q _ t ht => ?_) qs s (.refl s)
  rw [State.disinheritOne]
  split
  · have hre : Still t (t.reparent q) := Still.upd t q rfl rfl rfl rfl rfl
    dsimp only
    split
    · rename_i hh
      exact (ht.trans hre).trans (.cleanup hh.2)
    · exact ht.trans hre
  · exact ht

/-! ## Deliveries -/

/-- The process has died: its sets are as they were, but for signals that are pending no
    more. -/
structure Dies (p : Slot) (s s' : State) : Prop where
  sigs : ∀ q, q ≠ p → (s'.mproc q).sigs = (s.mproc q).sigs
  own : (s'.mproc p).sigpending ⊆ (s.mproc p).sigpending ∧
    (s'.mproc p).sigs = { (s.mproc p).sigs with sigpending := (s'.mproc p).sigpending }
  live : ∀ q, q ≠ p → s'.live q = s.live q
  dead : s'.live p = false
  traced : ∀ q, s'.live q = true → (s'.mproc q).flags.traced = (s.mproc q).flags.traced
  ids : ∀ q, (s'.mproc q).ids = (s.mproc q).ids

/-- The signal may have been taken from the set of pending ones; memory may have been
    adjusted. -/
structure Taken (p : Slot) (sg : Sig) (s s' : State) : Prop where
  flags : ∀ q, (s'.mproc q).flags = (s.mproc q).flags
  ids : ∀ q, (s'.mproc q).ids = (s.mproc q).ids
  sigs : ∀ q, q ≠ p → (s'.mproc q).sigs = (s.mproc q).sigs
  own : (s'.mproc p).sigs = (s.mproc p).sigs ∨
    (s'.mproc p).sigs =
      { (s.mproc p).sigs with sigpending := (s.mproc p).sigpending.erase sg }

/-- The handler of the process is called for the signal. -/
structure Handles (p : Slot) (sg : Sig) (s s' : State) : Prop where
  live : s.live p = true
  traced : (s.mproc p).flags.traced = true → sg = sigkill
  heeded : sg ∉ (s.mproc p).ignore
  free : sg ∉ (s.mproc p).sigmask
  wanted : sg ∈ (s.mproc p).catched
  done : ∃ t, Taken p sg s t ∧ s' = (t.upd p (fun m => State.caught m sg)).unpause p

/-- One delivery, or a change beside it. -/
inductive Deliver : State → State → Prop where
  | hush {s s' : State} : Hush s s' → Deliver s s'
  | pend {s : State} (p : Slot) (sg : Sig) : s.live p = true → sg ≠ 0 →
      sg ∉ (s.mproc p).ignore → sg ∈ (s.mproc p).sigmask →
      Deliver s (s.upd p (fun m => { m with sigpending := insert sg m.sigpending }))
  | handle {s s' : State} (p : Slot) (sg : Sig) : Handles p sg s s' → Deliver s s'
  | dies {s s' : State} (p : Slot) : Dies p s s' → Deliver s s'
  /-- a pending signal is lost on a process that is traced or ignores it -/
  | drop {s : State} (p : Slot) (sg : Sig) :
      (s.mproc p).flags.traced = true ∨ sg ∈ (s.mproc p).ignore → s.live p = true →
      sg ∈ (s.mproc p).sigpending →
      Deliver s (s.upd p (fun m => { m with sigpending := m.sigpending.erase sg }))

/-- Deliveries, one after the other. -/
inductive Delivers : State → State → Prop where
  | refl {s : State} : Delivers s s
  | step {s s1 s' : State} : Delivers s s1 → Deliver s1 s' → Delivers s s'

namespace Delivers

theorem trans (h : Delivers s s1) (h' : Delivers s1 s') : Delivers s s' := by
  induction h' with
  | refl => exact h
  | step _ hm ih => exact ih.step hm

theorem one (h : Deliver s s') : Delivers s s' := Delivers.refl.step h

theorem hush (h : Hush s s') : Delivers s s' := .one (.hush h)

end Delivers

/-- `p` dies, and then nothing happens. -/
theorem Dies.still_right (h : Dies p s s1) (h' : Still s1 s') : Dies p s s' := by
  have hp : (s'.mproc p).sigpending = (s1.mproc p).sigpending :=
    congrArg Sigs.sigpending (h'.sigs p)
  refine ⟨fun q hq => (h'.sigs q).trans (h.sigs q hq), ⟨?_, ?_⟩,
    fun q hq => (h'.live q).trans (h.live q hq), (h'.live p).trans h.dead, fun q hl => ?_,
    fun q => (h'.ids q).trans (h.ids q)⟩
  · rw [hp]
    exact h.own.1
  · rw [hp, h'.sigs p]
    exact h.own.2
  · have hl1 := (h'.live q).symm.trans hl
    exact (h'.traced q hl1).trans (h.traced q hl1)

/-- What happens before the end, as far as signals can tell. -/
theorem Dies.of_taken (ht : Taken p sg s t) (h : Dies p t s') : Dies p s s' := by
  have hl : ∀ q, t.live q = s.live q := fun q => by simp only [State.live, ht.flags q]
  refine ⟨fun q hq => (h.sigs q hq).trans (ht.sigs q hq), ⟨?_, ?_⟩,
    fun q hq => (h.live q hq).trans (hl q), h.dead, fun q hlq => ?_,
    fun q => (h.ids q).trans (ht.ids q)⟩
  · refine h.own.1.trans ?_
    rcases ht.own with ho | ho
    · exact (congrArg Sigs.sigpending ho).subset
    · have hpe : (t.mproc p).sigpending = (s.mproc p).sigpending.erase sg :=
        congrArg Sigs.sigpending ho
      rw [hpe]
      exact Finset.erase_subset _ _
  · rw [h.own.2]
    rcases ht.own with ho | ho
    · rw [ho]
    · rw [ho]
  · rw [h.traced q hlq, ht.flags q]

/-- Nothing happens before `p` dies. -/
theorem Dies.still_left (h : Still s s1) (h' : Dies p s1 s') : Dies p s s' := by
  have hp : (s1.mproc p).sigpending = (s.mproc p).sigpending :=
    congrArg Sigs.sigpending (h.sigs p)
  refine ⟨fun q hq => (h'.sigs q hq).trans (h.sigs q), ⟨?_, ?_⟩,
    fun q hq => (h'.live q hq).trans (h.live q), h'.dead, fun q hl => ?_,
    fun q => (h'.ids q).trans (h.ids q)⟩
  · rw [← hp]
    exact h'.own.1
  · rw [h'.own.2, h.sigs p]
  · have hq : q ≠ p := by
      rintro rfl
      exact nomatch h'.dead.symm.trans hl
    exact (h'.traced q hl).trans
      (h.traced q ((h.live q).symm.trans ((h'.live q hq).symm.trans hl)))

/-! ## Exits -/

/-- The parent is answered or the process hangs. -/
theorem toParent_dies (s : State) (c : Ctx) (p : Slot) : Dies p s (s.toParent c p) := by
  rcases toParent_cases s c p with ⟨-, -, h⟩ | ⟨-, h⟩
  · rw [h]
    have hsigs : ∀ q, ((s.cleanup c p).mproc q).sigs = (s.mproc q).sigs := fun q => by
      rw [cleanup_mproc]
      rfl
    refine ⟨fun q _ => hsigs q, ⟨(congrArg Sigs.sigpending (hsigs p)).subset, ?_⟩,
      fun q hq => ?_, ?_, fun q hl => ?_, fun q => ?_⟩
    · rw [cleanup_mproc]
      rfl
    · simp only [State.live, cleanup_mproc, if_neg hq]
      split <;> rfl
    · simp [State.live, cleanup_mproc, MpFlags.zero]
    · have hq : q ≠ p := by
        rintro rfl
        simp [State.live, cleanup_mproc, MpFlags.zero] at hl
      simp only [cleanup_mproc, if_neg hq]
      split <;> rfl
    · rw [cleanup_mproc]
      rfl
  · rw [h, State.hang]
    refine ⟨fun q hq => ?_, ⟨?_, ?_⟩, fun q hq => ?_, ?_, fun q hl => ?_, fun q => ?_⟩
    · rw [updFlags_mproc]
      rfl
    · rw [updFlags_mproc]
    · rw [updFlags_mproc]
      rfl
    · simp only [State.live, updFlags_mproc, if_neg hq]
    · simp [State.live, updFlags_mproc]
    · rw [updFlags_mproc]
      dsimp only
      split <;> rfl
    · rw [updFlags_mproc]
      rfl

/-- **`mm_exit` KILLS**, whatever state the process was in. -/
theorem exitBody_dies {status : Int} (h : s.exitBody c p status = .ok s') : Dies p s s' := by
  simp only [State.exitBody] at h
  obtain ⟨holes, -, rfl⟩ := Except.map_ok h
  have h0 : Still s (if (s.mproc p).flags.alarmOn then s.setAlarm p false else s) := by
    split
    · exact .setAlarm s p false
    · exact .refl s
  have h1 : Still _ (({ (if (s.mproc p).flags.alarmOn then s.setAlarm p false else s) with
      holes := holes } : State).upd p (fun m => { m with exitstatus := BitVec.ofInt 8 status })) :=
    Still.upd _ p rfl rfl rfl rfl rfl
  have h2 : Still (if (s.mproc p).flags.alarmOn then s.setAlarm p false else s)
      ({ (if (s.mproc p).flags.alarmOn then s.setAlarm p false else s) with
        holes := holes } : State) := ⟨⟨fun _ => rfl, fun _ => rfl, fun _ _ => rfl⟩, fun _ => rfl⟩
  exact .still_left (((h0.trans h2).trans h1).note (.exited p))
    ((toParent_dies _ c p).still_right (.disinherit _ c p _))

/-- Before the end there is only bookkeeping. -/
theorem terminate_inv (h : s.terminate kill e p signo = .ok s') :
    ∃ t, Still s t ∧ kill t p = .ok s' := by
  simp only [State.terminate] at h
  split at h
  · cases h
  have h1 : Still s (s.upd p (fun m => { m with sigstatus := BitVec.ofNat 8 signo.val })) :=
    Still.upd s p rfl rfl rfl rfl rfl
  refine ⟨_, ?_, h⟩
  split
  · exact h1.trans (.dumpCore _ e p)
  · exact h1

/-! ## Signals -/

/-- Nothing is taken. -/
theorem Taken.of_still (h : Still s t) (hf : ∀ q, (t.mproc q).flags = (s.mproc q).flags) :
    Taken p sg s t := ⟨hf, h.ids, fun q _ => h.sigs q, .inl (h.sigs p)⟩

/-- The signal leaves the pending set. -/
theorem Taken.erase (s : State) (p : Slot) (sg : Sig) :
    Taken p sg s (s.upd p (fun m => { m with sigpending := m.sigpending.erase sg })) := by
  refine ⟨fun q => ?_, fun q => ?_, fun q hq => ?_, .inr ?_⟩
  · by_cases hq : q = p
    · subst hq
      rw [upd_self]
    · rw [upd_other s _ hq]
  · by_cases hq : q = p
    · subst hq
      rw [upd_self]
      rfl
    · rw [upd_other s _ hq]
  · rw [upd_other s _ hq]
  · rw [upd_self]
    rfl

/-- Nothing happens after it is taken. -/
theorem Taken.still (h : Taken p sg s s1) (h' : Still s1 t)
    (hf : ∀ q, (t.mproc q).flags = (s1.mproc q).flags) : Taken p sg s t :=
  ⟨fun q => (hf q).trans (h.flags q), fun q => (h'.ids q).trans (h.ids q),
    fun q hq => (h'.sigs q).trans (h.sigs q hq), h.own.imp (h'.sigs p).trans (h'.sigs p).trans⟩

/-- **A SIGNAL** is some deliveries. -/
theorem sigProc_delivers
    (hk : ∀ s p, initNr ≤ p → s.live p = true → Ends Delivers s (kill s p)) (hp : initNr ≤ p)
    (hsg : signo ≠ 0) (h : s.sigProc kill e p signo = .ok s') : Delivers s s' := by
  have hl := sigProc_live h
  have hcase : SigCase kill e s p signo (s.sigProc kill e p signo) := sigProc_cases hl
  generalize s.sigProc kill e p signo = r at h hcase
  cases hcase with
  | stop _ _ =>
    cases h
    exact .hush ((Still.unpause s p).trans (.stopProc _ p signo)).toHush
  | ignored _ =>
    cases h
    exact .refl
  | pend hig hm =>
    cases h
    exact .one (.pend p signo hl hsg hig hm)
  | handle htr hig hm hca =>
    cases h
    have hadj := Still.adjust s p (s.mproc p).segD.len (e.sigSp p)
    exact .one (.handle p signo ⟨hl, htr, hig, hm, hca, _, .of_still hadj.1 hadj.2, rfl⟩)
  | kill =>
    obtain ⟨t, ht, hkill⟩ := terminate_inv h
    exact (Delivers.hush ht.toHush).trans (hk t p hp ((ht.live p).trans hl) _ hkill)
  | stuck => cases h

/-- **EXITS AND SIGNALS ARE DELIVERIES.** -/
theorem delivers_rule (c : Ctx) : SigRule c (Ends Delivers) :=
  .of_rel (fun _ => .refl) (fun h h' => h.trans h')
    (fun s p => .hush (Still.setAlarm s p false).toHush)
    (fun _ p _ _ _ _ h => .one (.dies p (exitBody_dies h)))
    (fun hk _ _ _ _ _ hp _ hsg h => sigProc_delivers hk hp hsg h)

/-- **`mm_exit`**: the process dies, and then what the hangup delivers. -/
theorem mmExit_dies {n : Nat} {status : Int} (h : mmExit e c n status s p = .ok s') :
    ∃ s1, Dies p s s1 ∧ Delivers s1 s' := by
  cases n with
  | zero => cases h
  | succ n =>
    simp only [mmExit] at h
    split at h
    · cases h
    split at h
    · cases h
    rename_i s1 h1
    refine ⟨s1, exitBody_dies h1, ?_⟩
    split at h
    · cases h
      exact .refl
    · have hrule := delivers_rule c
      exact hrule.checkSig (fun t q hq hl => hrule.mmExit_of n (hrule.exit t q 0 hq hl))
        s1 e c.mp _ _ s' h

/-- What becomes of the signal that `check_pending` takes: the handler, the end of the process,
    or nothing at all if the process is traced or ignores it. -/
theorem checkPending_outcome (h : s.checkPending e c = .ok s') :
    (s' = s ∧ ∀ i, deliverable (s.mproc c.mp) i = false) ∨
      ∃ i, deliverable (s.mproc c.mp) i = true ∧
        (Handles c.mp i s s' ∨ (∃ s1, Dies c.mp s s1 ∧ Delivers s1 s') ∨
          (((s.mproc c.mp).flags.traced = true ∨ i ∈ (s.mproc c.mp).ignore) ∧
            s.live c.mp = true ∧
            Hush (s.upd c.mp (fun m => { m with sigpending := m.sigpending.erase i })) s')) := by
  rcases checkPending_cases s e c with ⟨he, hno⟩ | ⟨i, hi, he⟩
  · exact .inl ⟨Except.ok.inj (h.symm.trans he), hno⟩
  refine .inr ⟨i, hi, ?_⟩
  have hsig := he.symm.trans h
  have htaken := Taken.erase s c.mp i
  have hlive : ∀ q, (s.upd c.mp (fun m => { m with sigpending := m.sigpending.erase i })).live q
      = s.live q := fun q => by simp only [State.live, htaken.flags q]
  have hl := (hlive c.mp).symm.trans (sigProc_live hsig)
  have hcase : SigCase (killSig e c) e _ c.mp i _ := sigProc_cases (sigProc_live hsig)
  generalize (s.upd c.mp (fun m => { m with sigpending := m.sigpending.erase i })).sigProc
    (killSig e c) e c.mp i = r at hsig hcase
  cases hcase with
  | stuck => cases hsig
  | stop ht _ =>
    cases hsig
    rw [upd_self] at ht
    exact .inr (.inr ⟨.inl ht, hl, ((Still.unpause _ c.mp).trans (.stopProc _ c.mp i)).toHush⟩)
  | ignored hig =>
    cases hsig
    rw [upd_self] at hig
    exact .inr (.inr ⟨.inr hig, hl, .refl _⟩)
  | pend _ hm =>
    rw [upd_self] at hm
    exact absurd hm (deliverable_iff.mp hi).2.2.2
  | handle htr hig hm hca =>
    cases hsig
    rw [upd_self] at htr hig hm hca ⊢
    have hadj := Still.adjust (s.upd c.mp (fun m => { m with sigpending := m.sigpending.erase i }))
      c.mp (s.mproc c.mp).segD.len (e.sigSp c.mp)
    exact .inl ⟨hl, htr, hig, hm, hca, _, htaken.still hadj.1 hadj.2, rfl⟩
  | kill =>
    obtain ⟨t, ht, hkill⟩ := terminate_inv hsig
    obtain ⟨s1, hd, hr⟩ := mmExit_dies hkill
    exact .inr (.inl ⟨s1, .of_taken htaken (hd.still_left ht), hr⟩)

/-- `check_pending` is a number of deliveries. -/
theorem checkPending_delivers (h : s.checkPending e c = .ok s') : Delivers s s' := by
  rcases checkPending_outcome h with
    ⟨rfl, -⟩ | ⟨i, hi, hh | ⟨s1, hd, hr⟩ | ⟨hdrop, hl, hh⟩⟩
  · exact .refl
  · exact .one (.handle c.mp i hh)
  · exact (Delivers.one (.dies c.mp hd)).trans hr
  · exact (Delivers.one (.drop c.mp i hdrop hl (deliverable_iff.mp hi).2.2.1)).step (.hush hh)

/-- **SIGNALS FROM THE KERNEL** are some deliveries. -/
theorem doKsig_delivers {map : Finset Sig} (h : s.doKsig e p map = .ok s') : Delivers s s' :=
  (delivers_rule _).doKsig (fun s _ _ h => Except.ok.inj h ▸ .hush (.upd s mmNr rfl rfl rfl rfl))
    s e p map s' h

/-! ## Requests -/

/-- Only the slot `p` has changed, and nothing in its life. -/
structure Only (p : Slot) (s s' : State) : Prop where
  other : ∀ q, q ≠ p → s'.mproc q = s.mproc q
  inUse : (s'.mproc p).flags.inUse = (s.mproc p).flags.inUse
  hanging : (s'.mproc p).flags.hanging = (s.mproc p).flags.hanging
  traced : (s'.mproc p).flags.traced = (s.mproc p).flags.traced

/-- How a request of `who` changes signal sets before anything is delivered. -/
inductive Edit (who : Slot) (r : Req) : State → State → Prop where
  | hush {s s' : State} : Hush s s' → Edit who r s s'
  /-- the child has the sets of its parent -/
  | fork {s s' : State} (child : Slot) : r = .fork → (s.mproc child).flags.inUse = false →
      (s'.mproc child).sigs = (s.mproc who).sigs → (∀ q, q ≠ child → s'.mproc q = s.mproc q) →
      Edit who r s s'
  | exec {s s' : State} : Only who s s' → (s'.mproc who).sigs = (resetCatched (s.mproc who)).sigs →
      Edit who r s s'
  | action {s : State} (sg : Sig) (a : SigAction) : r = .sigaction sg.val (some a) → sg ≠ 0 →
      sg ≠ sigkill → Edit who r s (s.upd who (fun m => setAction m sg a))
  | mask {s s' : State} (X : Finset Sig) : Only who s s' →
      (sigkill ∈ X → sigkill ∈ (s.mproc who).sigmask) →
      (s'.mproc who).sigs = { (s.mproc who).sigs with sigmask := X } → Edit who r s s'
  | untrace {s : State} (p : Slot) :
      Edit who r s (s.updFlags p (fun f => { f with traced := false }))

/-- Tracing bits may have changed. -/
structure Retrace (s s' : State) : Prop where
  sigs : ∀ q, (s'.mproc q).sigs = (s.mproc q).sigs
  live : ∀ q, s'.live q = s.live q

theorem Retrace.refl (s : State) : Retrace s s := ⟨fun _ => rfl, fun _ => rfl⟩

/-- A tracer writes flags other than those of life. -/
theorem Retrace.flags (s : State) (p : Slot) {g : MpFlags → MpFlags}
    (hi : (g (s.mproc p).flags).inUse = (s.mproc p).flags.inUse)
    (hh : (g (s.mproc p).flags).hanging = (s.mproc p).flags.hanging) :
    Retrace s (s.updFlags p g) := by
  refine ⟨fun q => ?_, fun q => ?_⟩
  · rw [updFlags_mproc]
    rfl
  · simp only [State.live, updFlags_mproc]
    split
    · rename_i hq
      rw [hq, hi, hh]
    · rfl

theorem Retrace.trans (h : Retrace s s1) (h' : Retrace s1 s') : Retrace s s' :=
  ⟨fun q => (h'.sigs q).trans (h.sigs q), fun q => (h'.live q).trans (h.live q)⟩

/-- A turn: an edit, some deliveries, and tracing bits at the end. -/
def Turn (who : Slot) (r : Req) (s s' : State) : Prop :=
  ∃ s1 s2, Edit who r s s1 ∧ Delivers s1 s2 ∧ Retrace s2 s'

/-- A request that leaves the sets alone. -/
theorem Turn.hush (h : Hush s s') : Turn who r s s' := ⟨s', s', .hush h, .refl, .refl s'⟩

/-- A request that delivers signals. -/
theorem Turn.delivers (h : Delivers s s') : Turn who r s s' :=
  ⟨s, s', .hush (.refl s), h, .refl s'⟩

/-- A request that changes the sets of its caller. -/
theorem Turn.edit (h : Edit who r s s') : Turn who r s s' := ⟨s', s', h, .refl, .refl s'⟩

/-- `do_waitpid` leaves the sets alone. -/
theorem Hush.doWaitpid (s : State) (c : Ctx) (pid : Int) (nohang : Bool) :
    Hush s (s.doWaitpid c pid nohang).1 := by
  simp only [State.doWaitpid, ← State.waitArg.eq_1]
  split
  · rename_i q _
    split
    · rename_i hh
      exact (Still.cleanup hh).toHush
    · exact .upd s q (g := fun m => { m with sigstatus := 0 }) rfl rfl rfl rfl
  · split
    · split
      · exact .refl s
      · exact .upd s c.mp (g := fun m => { m with
          wpid := s.waitArg c.mp pid, flags := { m.flags with waiting := true } }) rfl rfl rfl rfl
    · exact .refl s

/-- `do_fork` copies the sets of the parent. -/
theorem doFork_turn {r : Code} (h : s.doFork who = .ok (s', r)) : Edit who .fork s s' := by
  rcases doFork_cases h with ⟨rfl, -⟩ | ⟨-, rfl, -⟩ | ⟨rmc, n, -, hslot, -, -, -, rfl⟩
  · exact .hush (.refl s')
  · exact .hush ⟨fun _ => rfl, fun _ => rfl, fun _ _ => rfl⟩
  · refine .fork rmc rfl (freeSlot_free hslot) ?_ (fun q hq => ?_)
    · simp [State.withChild, childOf, Mproc.sigs]
    · simp [State.withChild, hq]

/-- An exec resets the caught signals. -/
theorem execed_sigs (m : Mproc) (f : ExecFile) : (execed m f).sigs = (resetCatched m).sigs := by
  simp only [execed]
  split <;> rfl

theorem execed_traced (m : Mproc) (f : ExecFile) :
    (execed m f).flags.traced = m.flags.traced := by
  simp only [execed]
  split <;> rfl

/-- `do_exec` changes the sets of its caller. -/
theorem doExec_turn {x : ExecCall} {r : Code} {r' : Req} (h : s.doExec who x = .ok (s', r)) :
    Edit who r' s s' := by
  rcases doExec_cases h with rfl | ⟨f, z, t, -, -, hnew, rfl⟩
  · exact .hush (.refl s')
  rcases newMem_cases hnew with ⟨-, hno⟩ | ⟨holes, -, -, -, -, -, rfl⟩
  · exact absurd rfl hno
  refine .exec ⟨fun q hq => ?_, ?_, ?_, ?_⟩ ?_
  · rw [upd_other _ _ hq, upd_other _ _ hq]
  · rw [upd_self, (execed_same _ f).inUse, upd_self]
    rfl
  · rw [upd_self, (execed_same _ f).hanging, upd_self]
    rfl
  · rw [upd_self, execed_traced, upd_self]
    rfl
  · rw [upd_self, execed_sigs, upd_self]
    rfl

theorem Only.upd (s : State) (p : Slot) {g : Mproc → Mproc}
    (hi : (g (s.mproc p)).flags.inUse = (s.mproc p).flags.inUse)
    (hh : (g (s.mproc p)).flags.hanging = (s.mproc p).flags.hanging)
    (ht : (g (s.mproc p)).flags.traced = (s.mproc p).flags.traced) : Only p s (s.upd p g) := by
  refine ⟨fun q hq => upd_other s g hq, ?_, ?_, ?_⟩
  · rw [upd_self, hi]
  · rw [upd_self, hh]
  · rw [upd_self, ht]

/-! ## The calls that change the mask -/

/-- The change of the mask itself. -/
theorem unmasked_edit (hm : unmasked r (s.mproc who) = some m) :
    Edit who r s (s.upd who (fun _ => m)) := by
  have hsigs : ∃ X : Finset Sig, (sigkill ∈ X → sigkill ∈ (s.mproc who).sigmask) ∧
      m.sigs = { (s.mproc who).sigs with sigmask := X } ∧
      m.flags.inUse = (s.mproc who).flags.inUse ∧
      m.flags.hanging = (s.mproc who).flags.hanging ∧
      m.flags.traced = (s.mproc who).flags.traced := by
    unfold unmasked at hm
    split at hm <;> cases hm
    · exact ⟨_, fun h => (Finset.mem_sdiff.mp h).1, rfl, rfl, rfl, rfl⟩
    all_goals exact ⟨_, fun h => absurd h (Finset.notMem_erase _ _), rfl, rfl, rfl, rfl⟩
  obtain ⟨X, hX, hs, hi, hh, ht⟩ := hsigs
  refine .mask X (Only.upd s who hi hh ht) hX ?_
  rw [upd_self]
  exact hs

/-! ## Every request -/

/-- `do_trace` delivers, and writes flags. -/
theorem doTrace_turn {req : TraceReq} {pid data : Int}
    (h : (s.doTrace e c req pid data).map Prod.fst = .ok s') : Turn who r s s' := by
  have hcase := doTrace_cases s e c req pid data
  generalize (s.doTrace e c req pid data).map Prod.fst = x at h hcase
  cases hcase with
  | same =>
    cases h
    exact .hush (.refl s)
  | traceMe =>
    cases h
    exact ⟨s, s, .hush (.refl s), .refl, .flags s c.mp rfl rfl⟩
  | @exit p _ _ _ =>
    obtain ⟨s1, hd, hr⟩ := mmExit_dies h
    exact .delivers ((Delivers.one (.dies p hd)).trans hr)
  | go =>
    cases h
    exact .hush (.upd s _ rfl rfl rfl rfl)
  | @signal p sg _ hp _ hsg _ =>
    obtain ⟨t, ht, rfl⟩ := Except.map_ok h
    refine ⟨_, t, .untrace p,
      sigProc_delivers (delivers_rule c).killSig (findproc_some hp).1 hsg ht, ?_⟩
    exact (Retrace.flags t p (g := fun f => { f with traced := true }) rfl rfl).trans
      (Retrace.flags _ p rfl rfl)

/-- **EVERY REQUEST** is an edit, some deliveries and a change of tracing bits. -/
theorem serve_turn (h : (s.serve who e r).map Prod.fst = .ok s') : Turn who r s s' := by
  have hcase := serve_cases s who e r
  generalize (s.serve who e r).map Prod.fst = x at h hcase
  cases hcase with
  | fork =>
    obtain ⟨⟨t, r⟩, ht, rfl⟩ := Except.map_ok h
    exact .edit (doFork_turn ht)
  | exit status =>
    obtain ⟨s1, hd, hr⟩ := mmExit_dies h
    exact .delivers ((Delivers.one (.dies who hd)).trans hr)
  | wait pid nohang _ =>
    cases h
    exact .hush (.doWaitpid s _ pid nohang)
  | exec x =>
    obtain ⟨⟨t, r⟩, ht, rfl⟩ := Except.map_ok h
    exact .edit (doExec_turn ht)
  | kill pid sig =>
    have hrule := delivers_rule ⟨who.val, who⟩
    exact .delivers (hrule.checkSig hrule.killSig s e who pid sig s' h)
  | action sg a h0 hk =>
    cases h
    exact .edit (.action sg a rfl h0 hk)
  | block set =>
    cases h
    refine .edit (.mask ((s.mproc who).sigmask ∪ (inLoop set).erase sigkill)
      (Only.upd s who rfl rfl rfl) (fun hk => ?_) (congrArg Mproc.sigs (upd_self s who _)))
    rcases Finset.mem_union.mp hk with hk | hk
    · exact hk
    · exact absurd hk (Finset.notMem_erase _ _)
  | pending hm => exact ⟨_, s', unmasked_edit hm, checkPending_delivers h, .refl s'⟩
  | trace req pid data => exact doTrace_turn h
  | group | ids _ _ _ _ =>
    cases h
    exact .hush (.upd s who rfl rfl rfl rfl)
  | adjust dc sp =>
    cases h
    exact .hush (Still.adjust s who dc sp).1.toHush
  | flags g hg =>
    cases h
    rcases hg with ⟨on, rfl⟩ | rfl
    · exact .hush (Still.setAlarm s who on).toHush
    · exact .hush (.upd s who rfl rfl rfl rfl)
  | same =>
    cases h
    exact .hush (.refl s)

/-- The caller of a message and its request; the kernel asks for nothing but deliveries. -/
def Msg.asks : Msg → Slot × Req
  | .call who r _ => (who, r)
  | .ksig _ _ _ => (mmNr, .get)

/-- **EVERY TURN** of the main loop. -/
theorem step_turn {m : Msg} (h : s.step m = some (.ok s')) : Turn m.asks.1 m.asks.2 s s' := by
  cases m with
  | call who r e =>
    simp only [State.step] at h
    split at h
    · exact serve_turn (some.inj h)
    · cases h
  | ksig p map e => exact .delivers (doKsig_delivers (some.inj h))

end Mm
