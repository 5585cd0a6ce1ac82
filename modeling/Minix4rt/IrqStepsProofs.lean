import Minix4rt.IrqQueueProofs

/-! # Steps of the interrupt machine — the kernel, the masks and the stack

    Between two handlers the kernel runs code that takes small steps in the kernel state and
    writes the PIC only to follow the priority level.  Beyond that an event does one of a few
    things to the stack and to the masks: an interrupt masks its line, a handler begins or
    returns, a line is opened again.  `Turn` lists them, and what a step keeps is read off it. -/

namespace Kernel

open ListPool Vtimer Option

/-! ## Kernel code -/

/-- What one event does to the kernel of a system, in small steps. -/
inductive KStep (e : IrqEvent) : KState → KState → Prop where
  | level {s : KState} (p : Prty) : KStep e s { s with prtylvl := p }
  | clock {s : KState} {t : TimerSt} : s.tm.clockIrq = some t → KStep e s { s with tm := t }
  | ksend {s s' : KState} {v : Env} {dest : Int} {prty : Prty} {t : MType} {c : Code} :
      s.ksend v hardware dest prty.val t = some (s', c) → KStep e s s'
  | timer {s s' : KState} {v : Env} {w : VT} : s.vtimerRun v w = some s' → KStep e s s'
  | pick {s s' : KState} : s.pickProc = some s' → KStep e s s'
  | step {s s' : KState} {ev : Event} {b : Bool} :
      e = .kernel ev b → s.step ev = some s' → KStep e s s'

/-- Small steps of one event, one after the other. -/
abbrev KSteps (e : IrqEvent) : KState → KState → Prop := Relation.ReflTransGen (KStep e)

/-- The activation is neither a handler nor the dispatch that has started one. -/
def Frame.plain : Frame → Bool
  | .handler _ _ _ | .dispatch _ => false
  | _ => true

namespace Sys

variable {s s' s1 s2 : Sys} {d : Irq} {i j : Line} {v : Env} {e : IrqEvent}

/-- The line is masked, in `real_PIC` and in the hardware. -/
structure Shut (s : Sys) (i : Line) : Prop where
  real : s.realPIC.getLsbD i.val = true
  pic : s.pic.getLsbD i.val = true

/-- Kernel code has run: the masks are as they were, but for what `MRT_prtylvl_set` has
    written to the PIC, which contains `real_PIC`. -/
structure Ran (e : IrqEvent) (s s' : Sys) : Prop where
  k : KSteps e s.k s'.k
  real : s'.realPIC = s.realPIC
  shut : ∀ {i}, s.Shut i → s'.Shut i
  frames : s'.frames = s.frames

/-- The queues, the descriptors or the history are written. -/
theorem Ran.aside (hk : s'.k = s.k) (hr : s'.realPIC = s.realPIC) (hp : s'.pic = s.pic)
    (hf : s'.frames = s.frames) : Ran e s s' :=
  ⟨hk ▸ .refl, hr, fun h => ⟨hr ▸ h.real, hp ▸ h.pic⟩, hf⟩

theorem Ran.refl (s : Sys) : Ran e s s := .aside rfl rfl rfl rfl

theorem Ran.trans (h : Ran e s s1) (h' : Ran e s1 s') : Ran e s s' :=
  ⟨h.k.trans h'.k, h'.real.trans h.real, fun hs => h'.shut (h.shut hs), h'.frames.trans h.frames⟩

@[simp] theorem prtylvlSet_k (s : Sys) (p : Prty) :
    (s.prtylvlSet p).k = { s.k with prtylvl := p } := by
  unfold Sys.prtylvlSet
  dsimp only
  split <;> rfl

@[simp] theorem prtylvlSet_realPIC (s : Sys) (p : Prty) :
    (s.prtylvlSet p).realPIC = s.realPIC := by
  unfold Sys.prtylvlSet
  dsimp only
  split <;> rfl

/-- `MRT_prtylvl_set` writes a mask that contains `real_PIC`. -/
theorem Ran.level (s : Sys) (p : Prty) : Ran e s (s.prtylvlSet p) := by
  refine ⟨?_, prtylvlSet_realPIC s p, fun h => ⟨by rw [prtylvlSet_realPIC]; exact h.real, ?_⟩,
    (SameIrq.prtylvlSet s p).frames⟩
  · rw [prtylvlSet_k]
    exact .single (.level p)
  · unfold Sys.prtylvlSet
    dsimp only
    split
    · simp [Sys.setPIC, h.real]
    · exact h.pic

/-- The kernel has taken small steps. -/
theorem Ran.setKernel {k : KState} (hk : KSteps e s.k k) (b : Bool) :
    Ran e s (s.setKernel k b) := by
  have h0 : Ran e s { s with k := k } := ⟨hk, rfl, fun h => ⟨h.real, h.pic⟩, rfl⟩
  unfold Sys.setKernel
  split
  · exact h0.trans (.level _ _)
  · exact h0

theorem Ran.ksend {dest : Int} {p : Prty} {t : MType} (h : s.ksend v dest p t = some s') :
    Ran e s s' := by
  obtain ⟨r, hr, rfl⟩ := map_eq_some_iff.mp h
  exact .setKernel (.single (.ksend hr)) false

theorem Ran.missDeadline (h : s.missDeadline v d = some s') : Ran e s s' := by
  unfold Sys.missDeadline at h
  dsimp only at h
  split at h
  · refine Ran.trans ?_ (.ksend h)
    exact .aside rfl rfl rfl rfl
  · cases h
    exact .aside rfl rfl rfl rfl

theorem Ran.irqdEnQ (h : s.irqdEnQ v d = some s') : Ran e s s' := by
  unfold Sys.irqdEnQ at h
  split at h
  · refine Ran.trans ?_ (.missDeadline h)
    exact .aside rfl rfl rfl rfl
  split at h
  · cases h
    exact .aside rfl rfl rfl rfl
  dsimp only at h
  split at h
  all_goals
    obtain ⟨q, -, rfl⟩ := map_eq_some_iff.mp h
    exact .aside rfl rfl rfl rfl

theorem Ran.reschedule (h : s.reschedule = some s') : Ran e s s' := by
  unfold Sys.reschedule at h
  split at h
  · obtain ⟨k, hk, rfl⟩ := map_eq_some_iff.mp h
    exact .setKernel (.single (.pick hk)) _
  · cases h
    exact .refl s

theorem Ran.vtimerRun {w : VT} (h : s.vtimerRun v w = some s') : Ran e s s' := by
  obtain ⟨s1, h1, h2⟩ := bind_eq_some_iff.mp h
  obtain ⟨k, hk, rfl⟩ := map_eq_some_iff.mp h2
  refine Ran.trans ?_ (.setKernel (.single (.timer hk)) false)
  unfold Sys.irqAction Sys.actIrqtrig at h1
  split at h1
  · obtain ⟨d, -, h1⟩ := bind_eq_some_iff.mp h1
    split at h1
    · exact .irqdEnQ h1
    · cases h1
      exact .refl s
  · cases h1
    exact .refl s

/-- The same code on another stack. -/
theorem Ran.reframe (h : Ran e s s') (fs : List Frame) : Ran e (s.setFrames fs) (s'.setFrames fs) :=
  ⟨h.k, h.real, fun hs => ⟨(h.shut ⟨hs.real, hs.pic⟩).real, (h.shut ⟨hs.real, hs.pic⟩).pic⟩, rfl⟩

/-- The head of the flush puts the next turn on the stack, or nothing. -/
theorem flushLoop_ran (s : Sys) (p : Nat) :
    ∃ top, (∀ f ∈ top, f.plain = true) ∧ Ran e (s.setFrames (top ++ s.frames)) (s.flushLoop p) := by
  unfold Sys.flushLoop
  split
  · split
    · refine ⟨[_], List.forall_mem_singleton.mpr ?_, .refl _⟩
      split <;> rfl
    · exact ⟨[], List.forall_mem_nil _, .aside rfl rfl rfl rfl⟩
  · exact ⟨[], List.forall_mem_nil _, .aside rfl rfl rfl rfl⟩

/-! ## What an event does -/

/-- `MRT_IRQ_dispatch` leaves the line masked. -/
def stays (s : Sys) (i : Line) : Bool :=
  (s.desc i.irq).disabled ||
    decide (i ≠ clockLine) && ! (s.desc i.irq).td && s.defers i.irq

/-- The descriptor that the kernel, running on, takes from one of the two queues. -/
def takes (s : Sys) : Option Irq :=
  match s.frames with
  | .unlock :: _ => s.q.first ()
  | .irqs p :: _ => (s.q.C.hdr (.level () p)).first
  | _ => none

/-- What an event does to the stack and to the masks, beyond running kernel code. -/
inductive Turn (s : Sys) : IrqEvent → Sys → Prop where
  /-- a call is made, or the kernel runs on in an activation of its own -/
  | on {e : IrqEvent} {top fs : List Frame} {s' : Sys} : (∀ f ∈ top, f.plain = true) →
      (fs = s.frames ∧ s.enabled ∨ ∃ f, f.plain = true ∧ s.frames = f :: fs) →
      Ran e (s.setFrames (top ++ fs)) s' → Turn s e s'
  /-- an interrupt masks its line, which stays masked -/
  | mask {v : Env} {i : Line} {s' : Sys} :
      s.enabled → s.pic.getLsbD i.val = false → s.stays i = true →
      Ran (.arrive v i) (s.irqEnter i) s' → Turn s (.arrive v i) s'
  /-- an interrupt is served without a handler -/
  | pass {v : Env} {i : Line} {s1 : Sys} :
      s.enabled → s.pic.getLsbD i.val = false → s.stays i = false →
      Ran (.arrive v i) (s.irqEnter i) s1 → Turn s (.arrive v i) (s1.setIrq i)
  /-- an interrupt begins its handler -/
  | enter {v : Env} {i : Line} {s1 : Sys} :
      s.enabled → s.pic.getLsbD i.val = false → s.stays i = false →
      Ran (.arrive v i) (s.irqEnter i) s1 →
      Turn s (.arrive v i) ((s1.setFrames (.dispatch i :: s1.frames)).doHandler i.irq)
  /-- a deferred interrupt begins its handler -/
  | start {v : Env} {f g : Frame} {fs : List Frame} {d : Irq} {s1 : Sys} :
      s.frames = f :: fs → f.plain = true → g.plain = true →
      s.takes = some d → Ran (.run v) (s.setFrames (g :: fs)) s1 → Turn s (.run v) (s1.doHandler d)
  /-- a handler returns -/
  | ret {v : Env} {b : Bool} {d : Irq} {p : Prty} {m : BitVec 32} {fs : List Frame} {s1 : Sys} :
      s.frames = .handler d p m :: fs →
      Ran (.finish v b) (s.setFrames fs) s1 →
      Turn s (.finish v b) (((s1.restorePIC d m b).prtylvlSet p).upd d handled)
  /-- a dispatch ends and opens its line -/
  | leave {v : Env} {i : Line} {fs : List Frame} {s1 : Sys} :
      s.frames = .dispatch i :: fs → Ran (.run v) (s.setFrames fs) s1 →
      Turn s (.run v) (s1.setIrq i)
  /-- a driver opens a line of MINIX -/
  | driver {e : IrqEvent} {i : Line} {s1 : Sys} : e = .enableIrq i ∨ e = .disableIrq i →
      ¬ (s.k.rtMode = true ∧ (s.desc i.irq).rt = true) → Ran e s s1 → Turn s e (s1.setIrq i)

/-- A call that leaves the stack alone. -/
theorem Turn.call (hen : s.enabled = true) (h : Ran e s s') : Turn s e s' :=
  .on (List.forall_mem_nil _) (.inl ⟨rfl, hen⟩) h

/-- A system call returns through `restart`. -/
theorem Turn.sysCall (hen : s.enabled = true) (h : Ran e s s') : Turn s e s'.call := by
  unfold Sys.call
  split
  · rename_i hf
    have hnil : s.frames = [] := h.frames.symm.trans hf
    refine .on (List.forall_mem_singleton.mpr rfl : ∀ f ∈ [Frame.restart], f.plain = true)
      (.inl ⟨rfl, hen⟩) ?_
    rw [hnil]
    exact h.reframe [.restart]
  · exact .call hen h

/-- An interrupt whose line stays masked. -/
theorem irqDispatch_stays (hst : s.stays i = true) (h : s.irqDispatch v i = some s') :
    Ran e (s.irqEnter i) s' := by
  obtain ⟨hdis, htd, hdef⟩ := irqEnter_desc s i
  unfold Sys.irqDispatch at h
  dsimp only at h
  rw [hdis, htd, hdef] at h
  split at h
  · cases h
    exact .refl _
  rename_i h1
  rw [stays, Bool.eq_false_iff.mpr h1, Bool.false_or, Bool.and_eq_true, Bool.and_eq_true] at hst
  rw [if_neg (of_decide_eq_true hst.1.1), if_neg (by simpa using hst.1.2), if_pos hst.2] at h
  exact .irqdEnQ h

/-- **AN INTERRUPT.** -/
theorem irqDispatch_turn (hen : s.enabled = true) (hp : s.pic.getLsbD i.val = false)
    (h : s.irqDispatch v i = some s') : Turn s (.arrive v i) s' := by
  cases hst : s.stays i with
  | true => exact .mask hen hp hst (irqDispatch_stays hst h)
  | false =>
    obtain ⟨hdis, htd, hdef⟩ := irqEnter_desc s i
    unfold Sys.irqDispatch at h
    dsimp only at h
    rw [hdis, htd, hdef] at h
    split at h
    · rename_i h1
      simp [stays, h1] at hst
    split at h
    · obtain ⟨t, ht, rfl⟩ := map_eq_some_iff.mp h
      exact .pass hen hp hst ⟨.single (.clock ht), rfl, fun hs => ⟨hs.real, hs.pic⟩, rfl⟩
    rename_i h2
    split at h
    · cases h
      exact .pass hen hp hst (.aside rfl rfl rfl rfl)
    rename_i h3
    split at h
    · rename_i h4
      simp [stays, h2, h3, h4] at hst
    · obtain ⟨s1, h5, rfl⟩ := map_eq_some_iff.mp h
      refine .enter hen hp hst ?_
      split at h5
      · refine Ran.trans ?_ (.missDeadline h5)
        exact .aside rfl rfl rfl rfl
      · cases h5
        exact .refl _

/-- The kernel goes on in an activation of its own. -/
theorem Turn.next {f : Frame} {fs : List Frame} (hf : s.frames = f :: fs) (hp : f.plain = true)
    (hs1 : Ran e (s.setFrames fs) s1)
    (h : ∃ top, (∀ f ∈ top, f.plain = true) ∧ Ran e (s1.setFrames (top ++ s1.frames)) s') :
    Turn s e s' := by
  obtain ⟨top, htop, hr⟩ := h
  refine .on htop (.inr ⟨f, hp, hf⟩) (Ran.trans ?_ hr)
  rw [hs1.frames]
  exact hs1.reframe (top ++ fs)

/-- **THE KERNEL RUNS ON.** -/
theorem runOn_turn (h : s.runOn v = some s') : Turn s (.run v) s' := by
  -- the activation on top is followed by one other
  have hone : ∀ {f g : Frame} {fs : List Frame} {t : Sys}, s.frames = f :: fs → f.plain = true →
      g.plain = true → Ran (.run v) (s.setFrames (g :: fs)) t → Turn s (.run v) t :=
    fun hf hp hg hr => .on (List.forall_mem_singleton.mpr hg) (.inr ⟨_, hp, hf⟩) hr
  have hnone : ∀ {f : Frame} {fs : List Frame}, s.frames = f :: fs → f.plain = true →
      Turn s (.run v) (s.setFrames fs) :=
    fun hf hp => .on (List.forall_mem_nil _) (.inr ⟨_, hp, hf⟩) (.refl _)
  unfold Sys.runOn at h
  split at h
  · rename_i i fs hf
    obtain ⟨s1, h1, rfl⟩ := map_eq_some_iff.mp h
    exact .leave hf (.reschedule h1)
  · rename_i fs hf
    cases h
    split
    · have h1 : Ran (.run v) (s.setFrames fs)
          { s.setFrames fs with flushlck := true, newint := false } := .aside rfl rfl rfl rfl
      exact .next hf rfl h1 (flushLoop_ran _ 1)
    · exact hnone hf rfl
  · rename_i fs hf
    cases h
    unfold Sys.unlockTurn
    cases hq : s.q.first () with
    | none => exact hnone hf rfl
    | some d =>
      exact .start hf rfl (g := .unlock) rfl (by rw [takes, hf]; exact hq) (.aside rfl rfl rfl hf)
  · rename_i p fs hf
    unfold Sys.vtimerFlush at h
    split at h
    · cases h
      exact hone hf rfl rfl (.refl _)
    · obtain ⟨w, -, h⟩ := bind_eq_some_iff.mp h
      have hr : Ran (.run v) s s' := .vtimerRun h
      exact hone hf rfl (g := .timers p) rfl (hf ▸ hr)
  · rename_i p fs hf
    cases h
    exact hone hf rfl (by split <;> rfl) (.refl _)
  · rename_i p fs hf
    cases h
    unfold Sys.irqdFlush
    cases hq : (s.q.C.hdr (.level () p)).first with
    | none => exact hone hf rfl (g := .next p) rfl (.refl _)
    | some d =>
      exact .start hf rfl (g := .deQ d p) rfl (by rw [takes, hf]; exact hq)
        (.aside rfl rfl rfl rfl)
  · rename_i d p fs hf
    unfold Sys.irqdDeQ at h
    split at h
    · cases h
      exact hone hf rfl (g := .irqs p) rfl (.aside rfl rfl rfl rfl)
    · cases h
  · rename_i p fs hf
    obtain ⟨s1, h1, rfl⟩ := map_eq_some_iff.mp h
    split
    · have h2 : Ran (.run v) s1 { s1 with newint := false } := .aside rfl rfl rfl rfl
      exact .next hf rfl (Ran.trans (.reschedule h1) h2) (flushLoop_ran _ 1)
    · exact .next hf rfl (.reschedule h1) (flushLoop_ran _ _)
  · cases h
  · cases h

/-- **EVERY STEP IS ONE OF THESE TURNS.** -/
theorem step_turn (h : s.step e = some s') : Turn s e s' := by
  cases step_does h with
  | arrive hen hp h => exact irqDispatch_turn hen hp h
  | finish hf h =>
    obtain ⟨s1, h1, rfl⟩ := map_eq_some_iff.mp h
    refine .ret hf ?_
    split at h1
    · exact .ksend h1
    · cases h1
      exact .refl _
  | run h => exact runOn_turn h
  | lock hen => exact .call hen (.aside rfl rfl rfl rfl)
  | unlock hen =>
    unfold Sys.unlock
    dsimp only
    split
    · exact .on (List.forall_mem_singleton.mpr rfl : ∀ f ∈ [Frame.unlock], f.plain = true)
        (.inl ⟨rfl, hen⟩) (.aside rfl rfl rfl rfl)
    · exact .call hen (.aside rfl rfl rfl rfl)
  | enableIrq hen =>
    unfold Sys.enableIrq
    dsimp only
    split
    · rename_i hd
      exact .driver (.inl rfl) (by tauto) (.aside rfl rfl rfl rfl)
    · exact .call hen (.aside rfl rfl rfl rfl)
  | disableIrq hen =>
    unfold Sys.disableIrq
    dsimp only
    split
    · rename_i hd
      exact .driver (.inr rfl) (by tauto) (.aside rfl rfl rfl rfl)
    · exact .call hen (.aside rfl rfl rfl rfl)
  | setiattr hf hr =>
    have hen : s.enabled = true := by rw [Sys.enabled, hf]
    rcases setiattr_inv hr with ⟨-, hs⟩ | ⟨i, p, -, -, -, hs⟩
    · rw [hs]
      exact .sysCall hen (.refl s)
    · rw [hs]
      exact .sysCall hen (.aside rfl rfl rfl rfl)
  | kernel hen _ hk => exact .sysCall hen (.setKernel (.single (.step rfl hk)) _)

/-- **WHAT AN EVENT OF THE SYSTEM DOES TO THE KERNEL.** -/
theorem Turn.ksteps (h : Turn s e s') : KSteps e s.k s'.k := by
  have hlev : ∀ (t : Sys) (p : Prty), KSteps e t.k (t.prtylvlSet p).k :=
    fun t p => (Ran.level t p).k
  have hdo : ∀ (t : Sys) (d : Irq), KSteps e t.k (t.doHandler d).k := fun t _ => hlev t _
  cases h with
  | on _ _ h | mask _ _ _ h | pass _ _ _ h | leave _ h | driver _ _ h => exact h.k
  | @enter v i s1 _ _ _ h =>
    exact h.k.trans (hdo (s1.setFrames (.dispatch i :: s1.frames)) i.irq)
  | start _ _ _ _ h => exact h.k.trans (hdo _ _)
  | @ret v b d p m fs s1 _ h =>
    have hk : (s1.restorePIC d m b).k = s1.k := by
      unfold Sys.restorePIC
      dsimp only
      split
      · split <;> rfl
      · rfl
    exact h.k.trans (hk ▸ hlev (s1.restorePIC d m b) p)

end Sys

end Kernel
