import Minix4rt.IrqStepsProofs

/-! # The PIC mask under nesting — what `MRT_do_handler` restores

    `MRT_do_handler` saves the priority level and `MRT_sv.real_PIC`, runs the handler with
    interrupts enabled and writes both back.  Meanwhile nested interrupts change the mask:
    a deferred one leaves its line masked until its own handler has run.

    The level is restored correctly, since the activations form a stack.  The mask is not:
    a line that is DEFERRED or opened while the handler runs gets back the bit it had at
    the entry.  Interrupts that are served at once put the mask back themselves, so it is
    right where there are no others; and a line that is deferred while no handler runs
    stays masked until an event of its own. -/

namespace Kernel

open ListPool Vtimer Option

namespace Sys

variable {s s' s₀ s1 : Sys} {d : Irq} {i j : Line} {v : Env} {e : IrqEvent}
  {ok : Sys → IrqEvent → Prop}

/-! ## One activation of `MRT_do_handler` -/

/-- `MRT_do_handler(d)` was called in the state `s₀`, events that meet `ok` have happened
    since, and it has not returned. -/
inductive Activation (ok : Sys → IrqEvent → Prop) (d : Irq) (s₀ : Sys) : Sys → Prop where
  | enter : Activation ok d s₀ (s₀.doHandler d)
  | step {s s' : Sys} {e : IrqEvent} : Activation ok d s₀ s → ok s e → s.step e = some s' →
      s₀.frames.length < s'.frames.length → Activation ok d s₀ s'

/-- The restore leaves the stack as it is. -/
theorem restore_frames (s : Sys) (d : Irq) (m : BitVec 32) (b : Bool) (p : Prty) :
    (((s.restorePIC d m b).prtylvlSet p).upd d handled).frames = s.frames :=
  (SameIrq.prtylvlSet _ p).frames.trans (SameIrq.restorePIC s d m b).frames

/-- **ONE STEP** puts activations on the stack, in place of the kernel's own on top of it or
    not, or ends the handler on top of it. -/
theorem Turn.frames (h : Turn s e s') :
    (∃ top, s'.frames = top ++ s.frames) ∨
      (∃ f fs, s.frames = f :: fs ∧ (∀ d p m, f ≠ .handler d p m) ∧
        ∃ top, s'.frames = top ++ fs) ∨
      ∃ d p m, s.frames = .handler d p m :: s'.frames := by
  have hne : ∀ {f : Frame}, f.plain = true → ∀ d p m, f ≠ .handler d p m := by
    rintro f hf d p m rfl
    cases hf
  have henter : ∀ i, (s.irqEnter i).frames = .restart :: s.frames := fun _ => rfl
  cases h with
  | on _ hfs h =>
    rcases hfs with ⟨rfl, -⟩ | ⟨f, hp, hf⟩
    · exact .inl ⟨_, h.frames⟩
    · exact .inr (.inl ⟨f, _, hf, hne hp, _, h.frames⟩)
  | mask _ _ _ h | pass _ _ _ h => exact .inl ⟨[_], h.frames.trans (henter _)⟩
  | @enter v i s1 _ _ _ h =>
    refine .inl ⟨[.handler i.irq s1.k.prtylvl s1.realPIC, .dispatch i, .restart], ?_⟩
    exact congrArg (fun fs => _ :: Frame.dispatch i :: fs) (h.frames.trans (henter i))
  | @start v f g fs d s1 hf hp hg _ h =>
    exact .inr (.inl ⟨f, fs, hf, hne hp, [.handler d s1.k.prtylvl s1.realPIC, g],
      congrArg (fun fs => _ :: fs) h.frames⟩)
  | @ret v b d p m fs s1 hf h =>
    have hfs := (restore_frames s1 d m b p).trans h.frames
    exact .inr (.inr ⟨d, p, m, hf.trans (congrArg (_ :: ·) hfs.symm)⟩)
  | @leave v i fs s1 hf h => exact .inr (.inl ⟨_, fs, hf, nofun, [], h.frames⟩)
  | driver _ _ h => exact .inl ⟨[], h.frames⟩

/-- What was saved at the entry stays on the stack. -/
theorem Activation.frames (h : Activation ok d s₀ s) :
    .handler d s₀.k.prtylvl s₀.realPIC :: s₀.frames <:+ s.frames := by
  induction h with
  | enter => exact List.suffix_rfl
  | @step s s' e hact _ hs hlen ih =>
    rcases (step_turn hs).frames with ⟨top, h'⟩ | ⟨f, fs, hf, hne, top, h'⟩ | ⟨d', p, m, hf⟩
    · rw [h']
      exact ih.trans (List.suffix_append top _)
    · rw [hf, List.suffix_cons_iff] at ih
      rcases ih with ih | ih
      · cases ih
        exact absurd rfl (hne _ _ _)
      · rw [h']
        exact ih.trans (List.suffix_append top _)
    · -- the handler that returns is not the one of this activation
      rw [hf, List.suffix_cons_iff] at ih
      rcases ih with ih | ih
      · rw [(List.cons.inj ih).2] at hlen
        exact absurd hlen (lt_irrefl _)
      · exact ih

@[simp] theorem prtylvlSet_level (s : Sys) (p : Prty) : (s.prtylvlSet p).k.prtylvl = p := by
  rw [prtylvlSet_k]

/-- The mask that the restore writes. -/
theorem restorePIC_realPIC (s : Sys) (d : Irq) (m : BitVec 32) (b : Bool) :
    (s.restorePIC d m b).realPIC = if b then m &&& ~~~ bit d else m := by
  unfold Sys.restorePIC
  dsimp only
  split
  · split <;> rfl
  · rfl

/-- `MRT_do_handler` returns with the saved level and the saved mask, its own line apart. -/
theorem endHandler_restores {p : Prty} {m : BitVec 32} {b : Bool}
    (h : s.endHandler v d p m b = some s') :
    s'.k.prtylvl = p ∧ ∀ j, j ≠ d → s'.realPIC.getLsbD j.val = m.getLsbD j.val := by
  obtain ⟨s1, -, rfl⟩ := map_eq_some_iff.mp h
  refine ⟨prtylvlSet_level _ p, fun j hj => ?_⟩
  show (((s1.restorePIC d m b).prtylvlSet p).realPIC).getLsbD j.val = _
  rw [prtylvlSet_realPIC, restorePIC_realPIC]
  split
  · have hne : j.val ≠ d.val := fun he => hj (Fin.ext he)
    simp [bit, hne]
  · rfl

/-- The step in which an activation returns. -/
theorem Activation.returns {b : Bool} (hact : Activation ok d s₀ s)
    (hlast : s.frames.length = s₀.frames.length + 1) (h : s.step (.finish v b) = some s') :
    s.frames = .handler d s₀.k.prtylvl s₀.realPIC :: s₀.frames ∧
      (s.setFrames s₀.frames).endHandler v d s₀.k.prtylvl s₀.realPIC b = some s' := by
  have hf := (hact.frames.eq_of_length hlast.symm).symm
  refine ⟨hf, ?_⟩
  unfold Sys.step at h
  rw [hf] at h
  exact h

/-! ## Masked lines -/

/-- `MRT_reset_irq` masks its line and opens none. -/
theorem Shut.resetIrq_self (s : Sys) (i : Line) : Shut (s.resetIrq i) i := by
  have hi : i.val < 32 := by omega
  exact ⟨by simp [Sys.resetIrq, bit, Line.irq, hi], by simp [Sys.resetIrq]⟩

/-- An interrupt leaves the other masked lines masked. -/
theorem Shut.irqEnter (h : Shut s i) (j : Line) : Shut (s.irqEnter j) i :=
  ⟨by simp [Sys.irqEnter, Sys.setFrames, Sys.upd, Sys.resetIrq, h.real],
    by simp [Sys.irqEnter, Sys.setFrames, Sys.upd, Sys.resetIrq, h.pic]⟩

/-- `MRT_set_irq` opens only its own line. -/
theorem Shut.setIrq (h : Shut s i) (hj : j ≠ i) : Shut (s.setIrq j) i := by
  have hne : i.val ≠ j.val := fun he => hj (Fin.ext he.symm)
  have hi : i.val < 32 := by omega
  exact ⟨by simp [Sys.setIrq, bit, Line.irq, h.real, hne, hi], by simp [Sys.setIrq, h.pic, hne]⟩

theorem Shut.doHandler (h : Shut s i) (d : Irq) : Shut (s.doHandler d) i :=
  have h' := (Ran.level (e := .lock) s (s.desc d).priority).shut h
  ⟨h'.real, h'.pic⟩

/-- A handler returns that has saved the line as masked, and does not open it. -/
theorem Shut.restore {m : BitVec 32} {b : Bool} (h : Shut s i) (p : Prty)
    (hm : (if b then m &&& ~~~ bit d else m).getLsbD i.val = true) :
    Shut (((s.restorePIC d m b).prtylvlSet p).upd d handled) i := by
  have hr : Shut (s.restorePIC d m b) i := by
    refine ⟨by rw [restorePIC_realPIC]; exact hm, ?_⟩
    unfold Sys.restorePIC
    dsimp only
    split
    · rename_i hb
      rw [if_pos hb] at hm
      split
      · exact h.pic
      · simpa only [Sys.setPIC, BitVec.getLsbD_setWidth, i.isLt, decide_true,
          Bool.true_and] using hm
    · exact h.pic
  have h' := (Ran.level (e := .lock) _ p).shut hr
  exact ⟨h'.real, h'.pic⟩

/-! ## A line that was deferred outside of the handlers -/

/-- The line is masked, and every handler on the stack has saved it as masked. -/
structure Closed (s : Sys) (i : Line) : Prop extends Shut s i where
  saved : ∀ d p m, .handler d p m ∈ s.frames → m.getLsbD i.val = true

/-- The line an event belongs to: its handler returns, its dispatch ends, or a driver
    calls `enable_irq` or `disable_irq` for it. -/
def released (s : Sys) : IrqEvent → Option Irq
  | .run _ =>
    match s.frames with
    | .dispatch j :: _ => some j.irq
    | _ => none
  | .finish _ _ =>
    match s.frames with
    | .handler d _ _ :: _ => some d
    | _ => none
  | .enableIrq j | .disableIrq j => some j.irq
  | _ => none

/-- Frames that are no handlers have saved nothing. -/
theorem saved_append {top fs : List Frame} (htop : ∀ f ∈ top, f.plain = true)
    (h : ∀ d p m, .handler d p m ∈ fs → m.getLsbD i.val = true) (d : Irq) (p : Prty)
    (m : BitVec 32) (hm : .handler d p m ∈ top ++ fs) : m.getLsbD i.val = true := by
  rcases List.mem_append.mp hm with hm | hm
  · cases htop _ hm
  · exact h d p m hm

/-- **ONE STEP** keeps a line masked, unless the event belongs to the line. -/
theorem Closed.turn (h : Closed s i) (hno : s.released e ≠ some i.irq) (ht : Turn s e s') :
    Closed s' i := by
  have hfr : ∀ fs, Shut (s.setFrames fs) i := fun _ => ⟨h.real, h.pic⟩
  have hother : ∀ {j : Line}, s.pic.getLsbD j.val = false → j ≠ i := by
    rintro j hj rfl
    cases hj.symm.trans h.pic
  have hplain : ∀ {f : Frame}, f.plain = true → ∀ g ∈ [f], g.plain = true :=
    fun hf => List.forall_mem_singleton.mpr hf
  have henter : ∀ j d p m, .handler d p m ∈ (s.irqEnter j).frames → m.getLsbD i.val = true :=
    fun j => saved_append (hplain rfl) h.saved
  cases ht with
  | on htop hfs hr =>
    refine ⟨hr.shut (hfr _), hr.frames ▸ saved_append htop ?_⟩
    rcases hfs with ⟨rfl, -⟩ | ⟨f, -, hf⟩
    · exact h.saved
    · exact fun d p m hm => h.saved d p m (hf ▸ List.mem_cons_of_mem f hm)
  | mask _ _ _ hr => exact ⟨hr.shut (h.toShut.irqEnter _), hr.frames ▸ henter _⟩
  | pass _ hj _ hr =>
    exact ⟨(hr.shut (h.toShut.irqEnter _)).setIrq (hother hj), hr.frames ▸ henter _⟩
  | @enter v j s1 _ _ _ hr =>
    have hs1 := hr.shut (h.toShut.irqEnter j)
    have hs2 : Shut (s1.setFrames (.dispatch j :: s1.frames)) i := ⟨hs1.real, hs1.pic⟩
    refine ⟨hs2.doHandler _, fun d p m hm => ?_⟩
    rcases List.mem_cons.mp hm with hm | hm
    · cases hm
      exact hs1.real
    · rcases List.mem_cons.mp hm with hm | hm
      · cases hm
      · exact henter j d p m (hr.frames ▸ hm)
  | @start v f g fs d s1 hf _ hg _ hr =>
    have hs1 := hr.shut (hfr _)
    refine ⟨hs1.doHandler d, fun d' p m hm => ?_⟩
    rcases List.mem_cons.mp hm with hm | hm
    · cases hm
      exact hs1.real
    · rw [hr.frames] at hm
      exact saved_append (hplain hg)
        (fun d p m hm => h.saved d p m (hf ▸ List.mem_cons_of_mem f hm)) d' p m hm
  | @ret v b d p m fs s1 hf hr =>
    have hd : d ≠ i.irq := by
      rintro rfl
      exact hno (by rw [released, hf])
    have hne : i.val ≠ d.val := fun he => hd (Fin.ext he.symm)
    have hm : m.getLsbD i.val = true := h.saved d p m (hf ▸ List.mem_cons_self)
    have hi : i.val < 32 := by omega
    have hfs : (((s1.restorePIC d m b).prtylvlSet p).upd d handled).frames = fs :=
      (restore_frames s1 d m b p).trans hr.frames
    exact ⟨(hr.shut (hfr fs)).restore p (by split <;> simp [bit, hm, hne, hi]), fun d' p' m' hm' =>
      h.saved d' p' m' (hf ▸ List.mem_cons_of_mem _ (hfs ▸ hm'))⟩
  | @leave v j fs s1 hf hr =>
    have hj : j ≠ i := by
      rintro rfl
      exact hno (by rw [released, hf])
    have hfs : s1.frames = fs := hr.frames
    exact ⟨(hr.shut (hfr fs)).setIrq hj, fun d p m hm =>
      h.saved d p m (hf ▸ List.mem_cons_of_mem _ (hfs ▸ hm))⟩
  | @driver e j s1 he _ hr =>
    have hj : j ≠ i := by
      rintro rfl
      rcases he with rfl | rfl <;> exact hno rfl
    exact ⟨(hr.shut h.toShut).setIrq hj, fun d p m hm => h.saved d p m (hr.frames ▸ hm)⟩

/-- An interrupt that is deferred while no handler runs. -/
theorem Closed.of_stays (hno : ∀ d p m, .handler d p m ∉ s.frames) (hst : s.stays i = true)
    (h : s.step (.arrive v i) = some s') : Closed s' i := by
  have henter : Shut (s.irqEnter i) i :=
    ⟨(Shut.resetIrq_self s i).real, (Shut.resetIrq_self s i).pic⟩
  have hsaved : ∀ d p m, .handler d p m ∈ (s.irqEnter i).frames → m.getLsbD i.val = true :=
    saved_append (List.forall_mem_singleton.mpr rfl) (fun d p m hm => absurd hm (hno d p m))
  cases step_does h with
  | arrive _ _ h =>
    have hr : Ran (.arrive v i) (s.irqEnter i) s' := irqDispatch_stays hst h
    exact ⟨hr.shut henter, hr.frames ▸ hsaved⟩

/-- **ALONG A RUN** a line that was deferred while no handler ran stays masked. -/
theorem ReachBy.closed (h : Closed s₀ i)
    (hr : ReachBy (fun t e => t.released e ≠ some i.irq) s₀ s) : Closed s i :=
  hr.keeps (I := (Closed · i)) h (fun ih hok hs => ih.turn hok (step_turn hs))

/-! ## An undisturbed activation -/

/-- No interrupt is deferred, no deferred handler of a masked line is started, and no
    driver opens a masked line. -/
def undisturbed (s : Sys) : IrqEvent → Bool
  | .arrive _ i => ! s.stays i
  | .run _ => s.takes.all (fun d => ! s.realPIC.getLsbD d.val)
  | .enableIrq i | .disableIrq i =>
    s.k.rtMode && (s.desc i.irq).rt || ! s.realPIC.getLsbD i.val
  | _ => true

/-- Every line that is masked in `real_PIC` is masked in the hardware. -/
def Synced (s : Sys) : Prop := ∀ i : Line, s.realPIC.getLsbD i.val = true → s.Shut i

theorem Synced.ran (h : Synced s) (hr : Ran e s s') : Synced s' :=
  fun i hi => hr.shut (h i (hr.real ▸ hi))

theorem Synced.setFrames (h : Synced s) (fs : List Frame) : Synced (s.setFrames fs) :=
  fun i hi => ⟨(h i hi).real, (h i hi).pic⟩

theorem Synced.doHandler (h : Synced s) (d : Irq) : Synced (s.doHandler d) :=
  fun i hi => (h i ((prtylvlSet_realPIC s _) ▸ hi)).doHandler d

theorem Synced.irqEnter (h : Synced s) (j : Line) : Synced (s.irqEnter j) := by
  intro i hi
  by_cases hj : i = j
  · subst hj
    exact ⟨(Shut.resetIrq_self s i).real, (Shut.resetIrq_self s i).pic⟩
  · have hne : i.val ≠ j.val := fun he => hj (Fin.ext he)
    refine (h i ?_).irqEnter j
    simpa [Sys.irqEnter, Sys.setFrames, Sys.upd, Sys.resetIrq, bit, Line.irq, hne.symm] using hi

/-- The bits that `MRT_set_irq` leaves. -/
theorem of_and_not_bit {n : Nat} {w : BitVec 32} (h : (w &&& ~~~ bit d).getLsbD n = true) :
    w.getLsbD n = true ∧ n ≠ d.val := by
  refine ⟨(Bool.and_eq_true_iff.mp ((BitVec.getLsbD_and).symm.trans h)).1, ?_⟩
  rintro rfl
  simp [bit] at h

theorem Synced.setIrq (h : Synced s) (j : Line) : Synced (s.setIrq j) := by
  intro i hi
  obtain ⟨hi, hne⟩ := of_and_not_bit hi
  exact (h i hi).setIrq (fun he => hne (congrArg Fin.val he.symm))

/-- The stack above an activation of `MRT_do_handler(d)`, which has saved `m`, with the mask
    of the moment: each part of it puts back the mask that the part below it expects, a
    handler what it has saved and a dispatch the mask with its line open. -/
inductive Nest (d : Irq) (p : Prty) (m : BitVec 32) (gs : List Frame) :
    List Frame → BitVec 32 → Prop where
  | base : Nest d p m gs (.handler d p m :: gs) m
  | handler {d' : Irq} {p' : Prty} {w : BitVec 32} {fs : List Frame} : Nest d p m gs fs w →
      (w.getLsbD d'.val = false ∨ ∃ i hs, fs = .dispatch i :: hs ∧ d' = i.irq) →
      Nest d p m gs (.handler d' p' w :: fs) w
  | dispatch {i : Line} {w : BitVec 32} {fs : List Frame} :
      Nest d p m gs fs (w &&& ~~~ bit i.irq) → Nest d p m gs (.dispatch i :: fs) w
  | plain {f : Frame} {w : BitVec 32} {fs : List Frame} : f.plain = true →
      Nest d p m gs fs w → Nest d p m gs (f :: fs) w

variable {p : Prty} {m w : BitVec 32} {gs top fs : List Frame} {f : Frame}

theorem Nest.append (h : Nest d p m gs fs w) (htop : ∀ f ∈ top, f.plain = true) :
    Nest d p m gs (top ++ fs) w := by
  induction top with
  | nil => exact h
  | cons f top ih =>
    obtain ⟨hf, htop⟩ := List.forall_mem_cons.mp htop
    exact .plain hf (ih htop)

theorem Nest.tail (h : Nest d p m gs (f :: fs) w) (hf : f.plain = true) : Nest d p m gs fs w := by
  cases h with
  | base | handler _ _ | dispatch _ => cases hf
  | plain _ h => exact h

theorem Nest.undispatch (h : Nest d p m gs (.dispatch i :: fs) w) :
    Nest d p m gs fs (w &&& ~~~ bit i.irq) := by
  cases h with
  | dispatch h => exact h
  | plain hf _ => cases hf

/-- Where a line is open in the mask, opening it changes nothing. -/
theorem and_not_bit (h : w.getLsbD d.val = false) : w &&& ~~~ bit d = w := by
  apply BitVec.eq_of_getLsbD_eq
  intro n hn
  by_cases he : n = d.val
  · rw [he, h, BitVec.getLsbD_and, h, Bool.false_and]
  · simp [bit, he, hn]

/-- A line that was open is opened again. -/
theorem or_bit_and_not_bit (h : w.getLsbD d.val = false) : (w ||| bit d) &&& ~~~ bit d = w := by
  rw [BitVec.and_or_distrib_right, BitVec.and_not_self]
  exact (BitVec.or_zero).trans (and_not_bit h)

/-- A handler above the activation returns: the mask is again the one before it. -/
theorem Nest.ret {d' : Irq} (h : Nest d p m gs fs w)
    (ho : w.getLsbD d'.val = false ∨ ∃ i hs, fs = .dispatch i :: hs ∧ d' = i.irq) (b : Bool) :
    Nest d p m gs fs (if b then w &&& ~~~ bit d' else w) := by
  split
  · rcases ho with ho | ⟨i, hs, rfl, rfl⟩
    · rwa [and_not_bit ho]
    · refine .dispatch ?_
      rw [BitVec.and_assoc, BitVec.and_self]
      exact h.undispatch
  · exact h

/-- The activation is on the stack, and nothing above it disturbs the mask. -/
structure Calm (d : Irq) (p : Prty) (m : BitVec 32) (gs : List Frame) (s : Sys) : Prop where
  synced : s.Synced
  nest : Nest d p m gs s.frames s.realPIC

/-- **ONE STEP** of an undisturbed activation that does not return in it. -/
theorem Calm.turn (h : Calm d p m gs s) (hu : s.undisturbed e = true) (ht : Turn s e s')
    (hlen : gs.length < s'.frames.length) : Calm d p m gs s' := by
  obtain ⟨hsync, hnest⟩ := h
  have hopen : ∀ {i : Line}, s.pic.getLsbD i.val = false → s.realPIC.getLsbD i.val = false := by
    intro i hi
    refine Bool.eq_false_iff.mpr (fun hr => ?_)
    cases hi.symm.trans (hsync i hr).pic
  have hreal : ∀ i : Line, (s.irqEnter i).realPIC = s.realPIC ||| bit i.irq := fun _ => rfl
  cases ht with
  | on htop hfs hr =>
    refine ⟨(hsync.setFrames _).ran hr, ?_⟩
    rw [hr.real, hr.frames]
    rcases hfs with ⟨rfl, -⟩ | ⟨f, hp, hf⟩
    · exact hnest.append htop
    · exact (Nest.tail (hf ▸ hnest) hp).append htop
  | mask _ _ hst _ => simp [undisturbed, hst] at hu
  | @pass v i s1 _ hi _ hr =>
    refine ⟨((hsync.irqEnter i).ran hr).setIrq i, ?_⟩
    show Nest d p m gs s1.frames (s1.realPIC &&& ~~~ bit i.irq)
    rw [hr.real, hr.frames, hreal, or_bit_and_not_bit (hopen hi)]
    exact .plain rfl hnest
  | @enter v i s1 _ hi _ hr =>
    refine ⟨(((hsync.irqEnter i).ran hr).setFrames _).doHandler _, ?_⟩
    show Nest d p m gs (.handler i.irq s1.k.prtylvl s1.realPIC :: .dispatch i :: s1.frames)
      (Sys.prtylvlSet _ _).realPIC
    rw [prtylvlSet_realPIC]
    refine .handler (.dispatch ?_) (.inr ⟨i, _, rfl, rfl⟩)
    show Nest d p m gs s1.frames (s1.realPIC &&& ~~~ bit i.irq)
    rw [hr.real, hr.frames, hreal, or_bit_and_not_bit (hopen hi)]
    exact .plain rfl hnest
  | @start v f g fs d' s1 hf hp hg htk hr =>
    refine ⟨((hsync.setFrames _).ran hr).doHandler d', ?_⟩
    have hu' : (! s.realPIC.getLsbD d'.val) = true := by
      rw [undisturbed, htk] at hu
      exact hu
    have hd : s1.realPIC.getLsbD d'.val = false := by
      rw [hr.real]
      exact (Bool.not_eq_true' _).mp hu'
    show Nest d p m gs (.handler d' s1.k.prtylvl s1.realPIC :: s1.frames)
      (Sys.prtylvlSet _ _).realPIC
    rw [prtylvlSet_realPIC]
    refine .handler ?_ (.inl hd)
    rw [hr.real, hr.frames]
    exact .plain hg (Nest.tail (hf ▸ hnest) hp)
  | @ret v b d' p' w fs s1 hf hr =>
    have hfs : (((s1.restorePIC d' w b).prtylvlSet p').upd d' handled).frames = fs :=
      (restore_frames s1 d' w b p').trans hr.frames
    have hw : (((s1.restorePIC d' w b).prtylvlSet p').upd d' handled).realPIC =
        if b then w &&& ~~~ bit d' else w :=
      (prtylvlSet_realPIC _ p').trans (restorePIC_realPIC s1 d' w b)
    rw [hfs] at hlen
    rw [hf] at hnest
    generalize hR : s.realPIC = R at hnest
    have hback : R = w ∧ Nest d p m gs fs (if b then w &&& ~~~ bit d' else w) := by
      cases hnest with
      | base => exact absurd hlen (lt_irrefl _)
      | handler h ho => exact ⟨rfl, h.ret ho b⟩
      | plain hp _ => cases hp
    refine ⟨fun i hi => ?_, by rw [hfs, hw]; exact hback.2⟩
    rw [hw] at hi
    have hwi : w.getLsbD i.val = true := by
      split at hi
      · exact (of_and_not_bit hi).1
      · exact hi
    have hs := hsync i (by rw [hR, hback.1]; exact hwi)
    exact (hr.shut ⟨hs.real, hs.pic⟩).restore p' hi
  | @leave v i fs s1 hf hr =>
    refine ⟨((hsync.setFrames _).ran hr).setIrq i, ?_⟩
    show Nest d p m gs s1.frames (s1.realPIC &&& ~~~ bit i.irq)
    rw [hr.real, hr.frames]
    exact Nest.undispatch (hf ▸ hnest)
  | @driver e i s1 he hno hr =>
    refine ⟨(hsync.ran hr).setIrq i, ?_⟩
    have hi : s.realPIC.getLsbD i.val = false := by
      rcases he with rfl | rfl <;>
        exact (by simpa [undisturbed] using hu : _ ∨ _).resolve_left hno
    show Nest d p m gs s1.frames (s1.realPIC &&& ~~~ bit i.irq)
    rw [hr.real, hr.frames, and_not_bit (d := i.irq) hi]
    exact hnest

/-- **ALONG AN UNDISTURBED ACTIVATION** the mask is put back by whatever changes it. -/
theorem Activation.calm (hact : Activation ok d s₀ s)
    (hok : ∀ t e, ok t e → t.undisturbed e = true) (h0 : s₀.Synced) :
    Calm d s₀.k.prtylvl s₀.realPIC s₀.frames s := by
  induction hact with
  | enter =>
    refine ⟨h0.doHandler d, ?_⟩
    show Nest _ _ _ _ _ (s₀.prtylvlSet _).realPIC
    rw [prtylvlSet_realPIC]
    exact .base
  | step _ hu hs hlen ih => exact ih.turn (hok _ _ hu) (step_turn hs) hlen

/-! ## The restore -/

/-- **WHAT A RETURN RESTORES.**  The priority level is always the one at the entry.  The
    other lines keep their bits when nothing disturbs the activation: the interrupts that
    arrive meanwhile are served at once, deferred handlers of masked lines are not started
    and drivers open no masked line.  And a line whose interrupt is deferred while no
    handler runs stays masked until an event of its own. -/
theorem pic_mask_restored {b : Bool} (hact : Activation ok d s₀ s)
    (hlast : s.frames.length = s₀.frames.length + 1) (h : s.step (.finish v b) = some s') :
    s'.k.prtylvl = s₀.k.prtylvl ∧
      ((∀ t e, ok t e → t.undisturbed e = true) → s₀.Synced →
        ∀ j : Irq, j ≠ d → s'.realPIC.getLsbD j.val = s.realPIC.getLsbD j.val) ∧
      ∀ {t t₁ t₂ : Sys} {u : Env} {i : Line}, (∀ d p m, .handler d p m ∉ t.frames) →
        t.stays i = true → t.step (.arrive u i) = some t₁ →
        ReachBy (fun t e => t.released e ≠ some i.irq) t₁ t₂ →
        t₂.realPIC.getLsbD i.val = true ∧ t₂.pic.getLsbD i.val = true := by
  obtain ⟨hf, hend⟩ := hact.returns hlast h
  obtain ⟨hlvl, hbits⟩ := endHandler_restores hend
  refine ⟨hlvl, fun hok h0 j hj => ?_, fun hno hst ht hrun => ?_⟩
  · have hnest := (hact.calm hok h0).nest
    rw [hf] at hnest
    have hR : s.realPIC = s₀.realPIC := by
      generalize s.realPIC = R at hnest
      cases hnest with
      | base => rfl
      | handler _ _ => rfl
      | plain hp _ => cases hp
    rw [hbits j hj, hR]
  · have hc := ReachBy.closed (.of_stays hno hst ht) hrun
    exact ⟨hc.real, hc.pic⟩

/-- A run in which the stack stays higher than at the entry. -/
theorem Activation.of_runBy [∀ t e, Decidable (ok t e)] {es : List IrqEvent}
    (h : (s₀.doHandler d).runBy (fun t e => ok t e ∧ (t.step e).any (fun t' =>
      decide (s₀.frames.length < t'.frames.length)) = true) es = some s) :
    Activation ok d s₀ s := by
  have hr := Run.ReachBy.of_runBy h
  clear h
  induction hr with
  | init => exact .enter
  | step _ hok hs ih =>
    have hlen := hok.2
    rw [hs] at hlen
    exact .step ih hok.1 hs (of_decide_eq_true hlen)

/-- `MRT_do_handler` is called for the line out of `MRT_IRQ_dispatch`. -/
def entering (s : Sys) (i : Line) : Sys :=
  (s.irqEnter i).setFrames (.dispatch i :: (s.irqEnter i).frames)

/-- The process level is 2, so that an interrupt of line 6 is deferred. -/
def busyTwo : Sys := { twoRtLines with k := { twoRtLines.k with prtylvl := 2 } }

/-- Line 5 interrupts the handler of line 6, and its handler runs and returns. -/
def nestedHandler : List IrqEvent :=
  [.arrive goodEnv 5, .finish goodEnv true, .run goodEnv, .run goodEnv]

/-- Line 6 is deferred, then the handler of line 5 runs and returns. -/
def deferredFirst : List IrqEvent :=
  List.replicate 5 (.run goodEnv) ++ [.arrive goodEnv 5, .finish goodEnv true, .run goodEnv]

theorem pic_mask_restored_nested :
    (∃ s s', Activation (fun t e => t.undisturbed e = true) 6 (twoRtLines.entering 6) s ∧
      s.step (.finish goodEnv true) = some s' ∧ (s.desc 5).count = 1 ∧
      s'.k.prtylvl = twoRtLines.k.prtylvl ∧
      ∀ j : Irq, j ≠ 6 → s'.realPIC.getLsbD j.val = s.realPIC.getLsbD j.val) ∧
    ∃ t₁ t₂, busyTwo.step (.arrive goodEnv 6) = some t₁ ∧
      t₁.runBy (fun t e => t.released e ≠ some 6) deferredFirst = some t₂ ∧
      t₂.times (.linked 6) = 1 ∧ t₂.times (.ran 6) = 0 ∧ t₂.realPIC.getLsbD 6 = true ∧
      t₂.pic.getLsbD 6 = true := by
  have hact : (((twoRtLines.entering 6).doHandler 6).runBy (fun t e => t.undisturbed e = true ∧
      (t.step e).any (fun t' => decide ((twoRtLines.entering 6).frames.length < t'.frames.length))
        = true) nestedHandler).any (fun s => (s.step (.finish goodEnv true)).any (fun _ =>
        decide (s.frames.length = 3 ∧ (s.desc 5).count = 1))) = true := by decide +kernel
  obtain ⟨s, hs, hact⟩ := (any_eq_true _ _).mp hact
  obtain ⟨s', hs', hact⟩ := (any_eq_true _ _).mp hact
  obtain ⟨hlen, hcount⟩ := of_decide_eq_true hact
  have hs : Activation (fun t e => t.undisturbed e = true) 6 (twoRtLines.entering 6) s :=
    .of_runBy hs
  obtain ⟨hlvl, hbits, hmask⟩ := pic_mask_restored hs hlen hs'
  have hsync : (twoRtLines.entering 6).Synced := by
    have hall : ∀ i : Line, (twoRtLines.entering 6).realPIC.getLsbD i.val = true →
      (twoRtLines.entering 6).pic.getLsbD i.val = true := by decide +kernel
    exact fun i hi => ⟨hi, hall i hi⟩
  have hrun : (busyTwo.step (.arrive goodEnv 6)).any (fun t₁ =>
      (t₁.runBy (fun t e => t.released e ≠ some 6) deferredFirst).any (fun t₂ =>
        decide (t₂.times (.linked 6) = 1 ∧ t₂.times (.ran 6) = 0))) = true := by decide +kernel
  obtain ⟨t₁, ht₁, hrun⟩ := (any_eq_true _ _).mp hrun
  obtain ⟨t₂, ht₂, hlog⟩ := (any_eq_true _ _).mp hrun
  have hlog := of_decide_eq_true hlog
  have hshut := hmask (t := busyTwo) (i := 6) (fun _ _ _ => List.not_mem_nil) (by decide +kernel)
    ht₁ (Run.ReachBy.of_runBy ht₂)
  exact ⟨⟨s, s', hs, hs', hcount, hlvl, hbits (fun _ _ h => h) hsync⟩, t₁, t₂, ht₁, ht₂, hlog.1,
    hlog.2, hshut⟩

/-- Line 6 interrupts the handler of line 5 and is deferred; a flush at the level of line 5
    leaves it alone. -/
def nestedDeferral : List IrqEvent := .arrive goodEnv 6 :: List.replicate 5 (.run goodEnv)

/-- **THE DEFECT.**  When the handler of line 5 returns, the mask saved at its entry opens
    line 6 again, whose interrupt is still deferred: its handler has not run. -/
theorem nested_mask_lost : twoRtLines.Initial ∧
    twoRtLines.step (.arrive goodEnv 5) = some ((twoRtLines.entering 5).doHandler 5) ∧
    ∃ s s', Activation (fun _ _ => True) 5 (twoRtLines.entering 5) s ∧
      s.step (.finish goodEnv true) = some s' ∧ s'.times (.linked 6) = 1 ∧
      s'.times (.ran 6) = 0 ∧ s.realPIC.getLsbD 6 = true ∧ s'.realPIC.getLsbD 6 = false ∧
      s'.pic.getLsbD 6 = false := by
  have h : (((twoRtLines.entering 5).doHandler 5).runBy (fun t e => True ∧ (t.step e).any (fun t' =>
      decide ((twoRtLines.entering 5).frames.length < t'.frames.length)) = true)
      nestedDeferral).any (fun s => (s.step (.finish goodEnv true)).any (fun s' =>
        decide (s'.times (.linked 6) = 1 ∧ s'.times (.ran 6) = 0 ∧
          s.realPIC.getLsbD 6 = true ∧ s'.realPIC.getLsbD 6 = false ∧
          s'.pic.getLsbD 6 = false))) = true := by decide +kernel
  obtain ⟨s, hs, h⟩ := (any_eq_true _ _).mp h
  obtain ⟨s', hs', h⟩ := (any_eq_true _ _).mp h
  exact ⟨twoRtLines_initial, rfl, s, s', .of_runBy hs, hs', of_decide_eq_true h⟩

end Sys

end Kernel
