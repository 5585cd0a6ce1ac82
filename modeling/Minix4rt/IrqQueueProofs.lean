import Minix4rt.IrqModelProofs

/-! # The interrupt queues — one link for two queues, one bit for one of them

    `irqQ` and `mnxQ` are threaded through the same link of a descriptor, and
    `MRT_ENQUEUED` says only that the descriptor is in `irqQ`.  A descriptor that
    `MRT_irqd_enQ` is handed while it is in `mnxQ` is therefore linked again: the
    queue is corrupted and another interrupt can be lost.

    The line of a deferred interrupt is disabled, but not for long: `MRT_do_handler`
    puts back the mask it saved before the deferral, and `disable_irq` itself enables
    the line.  `Fresh` is the condition that no step hands a descriptor of `mnxQ` to
    `MRT_irqd_enQ`; under it the queues stay TIDY along every run: a descriptor is
    linked at most once, the bit is exact, and every interrupt that was linked is run
    once or still linked. -/

namespace Kernel

open ListPool Vtimer Function Option

/-! ## What the stack and the history say -/

/-- The activations of `MRT_flush_int`. -/
def Frame.flushing : Frame → Bool
  | .timers _ | .irqTest _ | .irqs _ | .deQ _ _ | .next _ => true
  | .handler _ _ _ | .dispatch _ | .restart | .unlock => false

/-- The activation runs the handler of `d` for `MRT_irqd_flush`. -/
def Frame.serves (d : Irq) : Frame → Bool
  | .deQ d' _ => decide (d' = d)
  | _ => false

/-- The priorities below this one have had their turn. -/
def Frame.swept : Frame → Nat
  | .timers p | .irqTest p | .irqs p | .deQ _ p => p.val
  | .next p => p.val + 1
  | .handler _ _ _ | .dispatch _ | .restart | .unlock => 0

theorem Frame.serves_of_not_flushing {f : Frame} (hf : f.flushing = false) (d : Irq) :
    f.serves d = false := by
  cases f <;> simp_all [Frame.flushing, Frame.serves]

namespace Sys

/-- How often something happened. -/
def times (s : Sys) (o : Obs) : Nat := s.log.count o

/-- The activations that run the handler of `d` for `MRT_irqd_flush`. -/
def serving (s : Sys) (d : Irq) : Nat := s.frames.countP (Frame.serves d)

/-- How often `d` is linked, in both queues together. -/
def links (s : Sys) (d : Irq) : Nat :=
  (s.q.list (.plain ())).count d + ∑ p : Prty, (s.q.list (.level () p)).count d

/-- The queues are TIDY: every descriptor is linked at most once, and the pointers,
    counters and bitmap of the queues agree; the bit tells who is in `irqQ`, so
    `MRT_irqd_deQ` does not panic; what is deferred is linked or counted as a missed
    deadline; and what was linked has been run once, or is linked still. -/
structure Tidy (s : Sys) : Prop where
  once : ∀ d, s.links d ≤ 1
  sound : ∃ pl, s.q.Placed pl
  flag : ∀ d, (s.desc d).enqueued = true ↔ ∃ p, d ∈ s.q.list (.level () p)
  deQ : ∀ d p fs, s.frames = .deQ d p :: fs → (s.desc d).enqueued = true
  settled : ∀ d, (s.desc d).disabled = false →
    s.times (.deferred d) = s.times (.linked d) + s.times (.missed d)
  counted : ∀ d, (s.desc d).mdl = BitVec.ofNat 32 (s.times (.missed d) + s.times (.overrun d))
  ran : ∀ d, s.times (.linked d) + s.serving d = s.times (.ran d) + s.links d
  busy : ∀ d, s.serving d ≤ s.links d

/-! ## The condition -/

/-- The descriptor that an event hands to `MRT_irqd_enQ`. -/
def handed (s : Sys) : IrqEvent → Option Irq
  | .arrive _ i =>
    if (s.desc i.irq).disabled = false ∧ i ≠ clockLine ∧ (s.desc i.irq).td = false ∧
        s.defers i.irq = true then some i.irq else none
  | .run _ =>
    match s.frames with
    | .timers p :: _ =>
      (s.k.tm.q.hdr (.exp p)).first.bind (fun plk => (s.k.tm.vt plk).this.bind (fun vt =>
        if (s.k.tm.vt vt).action = .irqtrig then
          (tabAddr 32 (s.k.tm.vt vt).param).bind (fun d =>
            if triggers (s.desc d) then some d else none)
        else none))
    | _ => none
  | _ => none

/-- The descriptor whose priority an event sets. -/
def retyped : IrqEvent → Option Irq
  | .setiattr _ _ irq _ => (tabAddr 16 irq).map Line.irq
  | _ => none

/-- **THE CONDITION**: no descriptor of `mnxQ` is handed to `MRT_irqd_enQ`, and the
    attributes of a descriptor are not changed while it is in `irqQ`. -/
def Fresh (s : Sys) (e : IrqEvent) : Prop :=
  (∀ d, s.handed e = some d → d ∉ s.q.list (.plain ())) ∧
    ∀ d, retyped e = some d → (s.desc d).enqueued = false

instance (s : Sys) (e : IrqEvent) : Decidable (Fresh s e) :=
  inferInstanceAs (Decidable ((∀ d, s.handed e = some d → d ∉ s.q.list (.plain ())) ∧
    ∀ d, retyped e = some d → (s.desc d).enqueued = false))

/-! ## The invariant -/

variable {s s' : Sys} {pl : Irq → Option (Slot Unit Unit 16)} {v : Env} {d : Irq}
variable {p : Prty} {fs : List Frame} {f : Frame}

/-- The state of the queues: who is in which, the bits, and how far the flush is. -/
structure Held (s : Sys) (pl : Irq → Option (Slot Unit Unit 16)) : Prop where
  placed : s.q.Placed pl
  flag : ∀ d, (s.desc d).enqueued = true ↔ pl d = some (.level () (s.desc d).priority)
  level : ∀ d p, pl d = some (.level () p) → (s.desc d).priority = p
  busy : ∀ d p, .deQ d p ∈ s.frames → pl d = some (.level () p)
  lck : s.frames.countP Frame.flushing = if s.flushlck then 1 else 0
  swept : s.newint = false → ∀ f ∈ s.frames, ∀ d (p : Prty),
    pl d = some (.level () p) → p = 0 ∨ f.swept ≤ p.val

/-- The history of the interrupts, against the queues. -/
structure Told (s : Sys) (pl : Irq → Option (Slot Unit Unit 16)) : Prop where
  settled : ∀ d, (s.desc d).disabled = false →
    s.times (.deferred d) = s.times (.linked d) + s.times (.missed d)
  counted : ∀ d, (s.desc d).mdl = BitVec.ofNat 32 (s.times (.missed d) + s.times (.overrun d))
  ran : ∀ d, s.times (.linked d) + s.serving d =
    s.times (.ran d) + if pl d = none then 0 else 1

/-- The invariant behind `Tidy`, with the queue that each descriptor is in. -/
structure IrqOk (s : Sys) (pl : Irq → Option (Slot Unit Unit 16)) : Prop where
  held : Held s pl
  told : Told s pl

/-- The queues, the bits and the stack have not changed. -/
structure SameHeld (s s' : Sys) : Prop where
  q : s'.q = s.q
  newint : s'.newint = s.newint
  flushlck : s'.flushlck = s.flushlck
  frames : s'.frames = s.frames
  desc : ∀ d, (s'.desc d).priority = (s.desc d).priority ∧
    (s'.desc d).enqueued = (s.desc d).enqueued

/-- Neither have the history and what it is compared with. -/
structure SameIrq (s s' : Sys) : Prop extends SameHeld s s' where
  log : s'.log = s.log
  told : ∀ d, (s'.desc d).disabled = (s.desc d).disabled ∧ (s'.desc d).mdl = (s.desc d).mdl

theorem SameIrq.refl (s : Sys) : SameIrq s s :=
  ⟨⟨rfl, rfl, rfl, rfl, fun _ => ⟨rfl, rfl⟩⟩, rfl, fun _ => ⟨rfl, rfl⟩⟩

theorem SameIrq.trans {s₁ s₂ s₃ : Sys} (h : SameIrq s₁ s₂) (h' : SameIrq s₂ s₃) :
    SameIrq s₁ s₃ := by
  refine ⟨⟨h'.q.trans h.q, h'.newint.trans h.newint, h'.flushlck.trans h.flushlck,
    h'.frames.trans h.frames, fun d => ?_⟩, h'.log.trans h.log, fun d => ?_⟩
  · exact ⟨(h'.desc d).1.trans (h.desc d).1, (h'.desc d).2.trans (h.desc d).2⟩
  · exact ⟨(h'.told d).1.trans (h.told d).1, (h'.told d).2.trans (h.told d).2⟩

theorem Held.same (h : Held s pl) (e : SameHeld s s') : Held s' pl := by
  refine ⟨e.q ▸ h.placed, fun d => ?_, fun d p hd => ?_, ?_, ?_, ?_⟩
  · rw [(e.desc d).2, (e.desc d).1]
    exact h.flag d
  · rw [(e.desc d).1]
    exact h.level d p hd
  · rw [e.frames]
    exact h.busy
  · rw [e.frames, e.flushlck]
    exact h.lck
  · rw [e.newint, e.frames]
    exact h.swept

theorem Told.same (h : Told s pl) (e : SameIrq s s') : Told s' pl := by
  have ht : ∀ o, s'.times o = s.times o := fun o => by rw [times, e.log, times]
  have hv : ∀ d, s'.serving d = s.serving d := fun d => by rw [serving, e.frames, serving]
  refine ⟨fun d hd => ?_, fun d => ?_, fun d => ?_⟩
  · rw [ht, ht, ht]
    exact h.settled d ((e.told d).1 ▸ hd)
  · rw [ht, ht, (e.told d).2]
    exact h.counted d
  · rw [ht, ht, hv]
    exact h.ran d

theorem IrqOk.same (h : IrqOk s pl) (e : SameIrq s s') : IrqOk s' pl :=
  ⟨h.held.same e.toSameHeld, h.told.same e⟩

/-! ## Code that leaves the queues alone -/

theorem SameIrq.of_eq (hq : s'.q = s.q) (hn : s'.newint = s.newint)
    (hl : s'.flushlck = s.flushlck) (hf : s'.frames = s.frames) (hg : s'.log = s.log)
    (hd : s'.desc = s.desc) : SameIrq s s' := by
  refine ⟨⟨hq, hn, hl, hf, fun d => ?_⟩, hg, fun d => ?_⟩ <;> rw [hd] <;> exact ⟨rfl, rfl⟩

theorem SameIrq.setIrq (s : Sys) (i : Line) : SameIrq s (s.setIrq i) :=
  .of_eq rfl rfl rfl rfl rfl rfl

theorem SameIrq.resetIrq (s : Sys) (i : Line) : SameIrq s (s.resetIrq i) :=
  .of_eq rfl rfl rfl rfl rfl rfl

theorem SameIrq.kernel (s : Sys) (k : KState) : SameIrq s { s with k := k } :=
  .of_eq rfl rfl rfl rfl rfl rfl

theorem SameIrq.prtylvlSet (s : Sys) (p : Prty) : SameIrq s (s.prtylvlSet p) := by
  unfold Sys.prtylvlSet
  dsimp only
  split <;> exact .of_eq rfl rfl rfl rfl rfl rfl

theorem SameIrq.setKernel (s : Sys) (k : KState) (b : Bool) : SameIrq s (s.setKernel k b) := by
  unfold Sys.setKernel
  split
  · exact (SameIrq.kernel s k).trans (.prtylvlSet _ _)
  · exact .kernel s k

theorem SameHeld.upd (s : Sys) (d : Irq) {g : Irqd → Irqd}
    (hg : ∀ r, (g r).priority = r.priority ∧ (g r).enqueued = r.enqueued) :
    SameHeld s (s.upd d g) := by
  refine ⟨rfl, rfl, rfl, rfl, fun d' => ?_⟩
  by_cases hd : d' = d
  · subst hd
    simpa only [Sys.upd, update_self] using hg (s.desc d')
  · simp only [Sys.upd, update_of_ne hd, and_self]

theorem SameIrq.upd (s : Sys) (d : Irq) {g : Irqd → Irqd}
    (hg : ∀ r, (g r).priority = r.priority ∧ (g r).enqueued = r.enqueued)
    (ht : ∀ r, (g r).disabled = r.disabled ∧ (g r).mdl = r.mdl) : SameIrq s (s.upd d g) := by
  refine ⟨.upd s d hg, rfl, fun d' => ?_⟩
  by_cases hd : d' = d
  · subst hd
    simpa only [Sys.upd, update_self] using ht (s.desc d')
  · simp only [Sys.upd, update_of_ne hd, and_self]

theorem SameIrq.reschedule (h : s.reschedule = some s') : SameIrq s s' := by
  unfold Sys.reschedule Sys.lockPickProc at h
  split at h
  · obtain ⟨k, -, rfl⟩ := map_eq_some_iff.mp h
    exact .setKernel _ _ _
  · cases h
    exact .refl s

theorem SameIrq.ksend {dest : Int} {prty : Prty} {t : MType} (h : s.ksend v dest prty t = some s') :
    SameIrq s s' := by
  obtain ⟨r, -, rfl⟩ := map_eq_some_iff.mp h
  exact .setKernel _ _ _

theorem SameIrq.restorePIC (s : Sys) (d : Irq) (m : BitVec 32) (b : Bool) :
    SameIrq s (s.restorePIC d m b) := by
  unfold Sys.restorePIC
  dsimp only
  split
  · split <;> exact .of_eq rfl rfl rfl rfl rfl rfl
  · exact .of_eq rfl rfl rfl rfl rfl rfl

theorem SameIrq.endHandler {m : BitVec 32} {b : Bool} (h : s.endHandler v d p m b = some s') :
    SameIrq s s' := by
  obtain ⟨s1, h1, rfl⟩ := map_eq_some_iff.mp h
  have hs : SameIrq s s1 := by
    split at h1
    · exact .ksend h1
    · cases h1
      exact .refl s
  refine (hs.trans (.restorePIC s1 d m b)).trans ((SameIrq.prtylvlSet _ p).trans (.upd _ d ?_ ?_))
  all_goals
    intro r
    unfold handled
    split
    · exact ⟨rfl, rfl⟩
    · split <;> exact ⟨rfl, rfl⟩

theorem SameIrq.enableIrq (s : Sys) (i : Line) : SameIrq s (s.enableIrq i) := by
  unfold Sys.enableIrq
  dsimp only
  split <;> exact .of_eq rfl rfl rfl rfl rfl rfl

theorem SameIrq.disableIrq (s : Sys) (i : Line) : SameIrq s (s.disableIrq i) := by
  unfold Sys.disableIrq
  dsimp only
  split <;> exact .of_eq rfl rfl rfl rfl rfl rfl

theorem SameIrq.missDeadline (h : s.missDeadline v d = some s') :
    SameIrq (s.upd d (fun r => { r with mdl := r.mdl + 1 })) s' := by
  unfold Sys.missDeadline at h
  dsimp only at h
  split at h
  · exact .ksend h
  · cases h
    exact .refl _

/-! ## The stack -/

/-- A new stack with the same activations of the flush. -/
theorem IrqOk.setFrames (h : IrqOk s pl) (hm : ∀ f ∈ fs, f.flushing = true → f ∈ s.frames)
    (hc : fs.countP Frame.flushing = s.frames.countP Frame.flushing)
    (hd : ∀ d, fs.countP (Frame.serves d) = s.frames.countP (Frame.serves d)) :
    IrqOk (s.setFrames fs) pl := by
  obtain ⟨h, ht⟩ := h
  refine ⟨⟨h.placed, h.flag, h.level, fun d p hf => ?_, hc.trans h.lck, fun hn f hf d p hp => ?_⟩,
    ht.settled, ht.counted, fun d => ?_⟩
  · exact h.busy d p (hm _ hf rfl)
  · by_cases hfl : f.flushing = true
    · exact h.swept hn f (hm f hf hfl) d p hp
    · refine .inr ?_
      cases f <;> simp_all [Frame.flushing, Frame.swept]
  · have hv : (s.setFrames fs).serving d = s.serving d := hd d
    rw [hv]
    exact ht.ran d

/-- An activation outside the flush begins. -/
theorem IrqOk.push (h : IrqOk s pl) (hf : f.flushing = false) :
    IrqOk (s.setFrames (f :: s.frames)) pl := by
  refine h.setFrames ?_ ?_ ?_
  · intro g hg hfl
    rcases List.mem_cons.mp hg with rfl | hg
    · rw [hf] at hfl
      cases hfl
    · exact hg
  · rw [List.countP_cons_of_neg (by simp [hf])]
  · intro d
    rw [List.countP_cons_of_neg (by simp [Frame.serves_of_not_flushing hf d])]

/-- An activation outside the flush ends. -/
theorem IrqOk.pop (h : IrqOk s pl) (hs : s.frames = f :: fs) (hf : f.flushing = false) :
    IrqOk (s.setFrames fs) pl := by
  refine h.setFrames ?_ ?_ ?_
  · intro g hg _
    rw [hs]
    exact List.mem_cons_of_mem f hg
  · rw [hs, List.countP_cons_of_neg (by simp [hf])]
  · intro d
    rw [hs, List.countP_cons_of_neg (by simp [Frame.serves_of_not_flushing hf d])]

theorem IrqOk.doHandler (h : IrqOk s pl) (d : Irq) : IrqOk (s.doHandler d) pl := by
  have e := SameIrq.prtylvlSet s (s.desc d).priority
  have hp := (h.same e).push (f := .handler d s.k.prtylvl s.realPIC) rfl
  rw [e.frames] at hp
  exact hp

/-! ## The queues -/

@[simp] theorem times_note (s : Sys) (os : List Obs) (o : Obs) :
    (s.note os).times o = s.times o + os.count o := by
  simp [times, Sys.note, List.count_append]

@[simp] theorem desc_note (s : Sys) (os : List Obs) : (s.note os).desc = s.desc := rfl

@[simp] theorem upd_desc_self (s : Sys) (d : Irq) (g : Irqd → Irqd) :
    (s.upd d g).desc d = g (s.desc d) := update_self _ _ _

theorem upd_desc_ne (s : Sys) {d' : Irq} (g : Irqd → Irqd) (hd : d' ≠ d) :
    (s.upd d g).desc d' = s.desc d' := update_of_ne hd _ _

@[simp] theorem times_upd (s : Sys) (d : Irq) (g : Irqd → Irqd) (o : Obs) :
    (s.upd d g).times o = s.times o := rfl

@[simp] theorem serving_upd (s : Sys) (d d' : Irq) (g : Irqd → Irqd) :
    (s.upd d g).serving d' = s.serving d' := rfl

@[simp] theorem serving_note (s : Sys) (os : List Obs) (d : Irq) :
    (s.note os).serving d = s.serving d := rfl

/-- A missed deadline is counted, in the descriptor and in the history. -/
theorem IrqOk.miss (h : IrqOk s pl) {os : List Obs}
    (hos : os = [.deferred d, .missed d] ∨ os = [.overrun d])
    (hm : (s.note os).missDeadline v d = some s') : IrqOk s' pl := by
  have hh := SameHeld.upd s d (g := fun r => { r with mdl := r.mdl + 1 }) (fun r => ⟨rfl, rfl⟩)
  refine IrqOk.same ?_ (.missDeadline hm)
  refine ⟨h.held.same { hh with },
    fun d' hd' => ?_, fun d' => ?_, fun d' => ?_⟩
  · have hdis : (s.desc d').disabled = false := by
      by_cases hd : d' = d
      · subst hd
        simpa using hd'
      · simpa [upd_desc_ne _ _ hd] using hd'
    have hs := h.told.settled d' hdis
    rcases hos with rfl | rfl
    · simp [List.count_cons, hs]
      omega
    · simpa using hs
  · have hc := h.told.counted d'
    by_cases hd : d' = d
    · subst hd
      rcases hos with rfl | rfl
      all_goals
        simp [hc, BitVec.ofNat_add]
        ac_rfl
    · rw [upd_desc_ne _ _ hd]
      rcases hos with rfl | rfl <;> simpa [List.count_cons, Ne.symm hd] using hc
  · have hr := h.told.ran d'
    rcases hos with rfl | rfl <;> simpa [List.count_cons] using hr

/-- A deferral that is only noted: the descriptor is disabled. -/
theorem IrqOk.drop (h : IrqOk s pl) (hd : (s.desc d).disabled = true) :
    IrqOk (s.note [.deferred d]) pl := by
  refine ⟨h.held.same ⟨rfl, rfl, rfl, rfl, fun _ => ⟨rfl, rfl⟩⟩, fun d' hd' => ?_, fun d' => ?_,
    fun d' => ?_⟩
  · have hne : d ≠ d' := by
      rintro rfl
      rw [desc_note, hd] at hd'
      cases hd'
    simpa [hne] using h.told.settled d' hd'
  · simpa using h.told.counted d'
  · simpa using h.told.ran d'

/-- The descriptor `d`, in no queue before, is linked into the list `i`. -/
theorem IrqOk.link (h : IrqOk s pl) (hnone : pl d = none) {i : Slot Unit Unit 16}
    (hq : s'.q.Placed (update pl d (some i)))
    (hn : s'.newint = true) (hl : s'.flushlck = s.flushlck) (hf : s'.frames = s.frames)
    (hlog : s'.log = s.log ++ [.deferred d, .linked d])
    (hne : ∀ d', d' ≠ d → s'.desc d' = s.desc d')
    (hpr : (s'.desc d).priority = (s.desc d).priority)
    (htold : (s'.desc d).disabled = (s.desc d).disabled ∧ (s'.desc d).mdl = (s.desc d).mdl)
    (hbit : (s'.desc d).enqueued = true ↔ i = .level () (s.desc d).priority)
    (hlev : ∀ p, i = .level () p → (s.desc d).priority = p) :
    IrqOk s' (update pl d (some i)) := by
  have ht : ∀ o, s'.times o = s.times o + [Obs.deferred d, .linked d].count o := by
    intro o
    rw [times, hlog, List.count_append, times]
  have hv : ∀ d', s'.serving d' = s.serving d' := fun d' => by rw [serving, hf, serving]
  refine ⟨⟨hq, fun d' => ?_, fun d' p hp => ?_, fun d' p hp => ?_, ?_, ?_⟩, fun d' hd' => ?_,
    fun d' => ?_, fun d' => ?_⟩
  · by_cases hd : d' = d
    · subst hd
      rw [update_self, hpr, hbit, some_inj]
    · rw [update_of_ne hd, hne d' hd]
      exact h.held.flag d'
  · by_cases hd : d' = d
    · subst hd
      rw [update_self, some_inj] at hp
      rw [hpr]
      exact hlev p hp
    · rw [update_of_ne hd] at hp
      rw [hne d' hd]
      exact h.held.level d' p hp
  · rw [hf] at hp
    have hb := h.held.busy d' p hp
    have hd : d' ≠ d := by
      rintro rfl
      rw [hnone] at hb
      cases hb
    rw [update_of_ne hd]
    exact hb
  · rw [hf, hl]
    exact h.held.lck
  · rw [hn]
    exact fun hc => nomatch hc
  · rw [ht, ht, ht]
    by_cases hd : d' = d
    · subst hd
      rw [htold.1] at hd'
      have := h.told.settled d' hd'
      simp
      omega
    · rw [hne d' hd] at hd'
      simpa [Ne.symm hd] using h.told.settled d' hd'
  · rw [ht, ht]
    have hm : (s'.desc d').mdl = (s.desc d').mdl := by
      by_cases hd : d' = d
      · subst hd
        exact htold.2
      · rw [hne d' hd]
    rw [hm]
    simpa using h.told.counted d'
  · rw [ht, ht, hv]
    have hr := h.told.ran d'
    by_cases hd : d' = d
    · subst hd
      rw [if_pos hnone] at hr
      rw [update_self]
      simp
      omega
    · rw [update_of_ne hd]
      simpa [Ne.symm hd] using hr

/-- A descriptor that is neither enqueued nor in `mnxQ` is in no queue. -/
theorem Held.unlinked (h : Held s pl) (hd : pl d ≠ some (.plain ()))
    (henq : ¬ (s.desc d).enqueued = true) : pl d = none := by
  cases hp : pl d with
  | none => rfl
  | some i =>
    cases i with
    | plain l => exact absurd hp hd
    | level k p =>
      rw [h.flag d, h.level d p hp] at henq
      exact absurd hp henq

/-- **DEFERRAL.**  A descriptor that is not in `mnxQ` is linked into one of the queues, or
    its missed deadline is counted. -/
theorem IrqOk.enQ (h : IrqOk s pl) (hd : pl d ≠ some (.plain ()))
    (he : s.irqdEnQ v d = some s') :
    ∃ pl', IrqOk s' pl' := by
  unfold Sys.irqdEnQ at he
  by_cases henq : (s.desc d).enqueued = true
  · rw [if_pos henq] at he
    exact ⟨pl, h.miss (.inl rfl) he⟩
  · rw [if_neg henq] at he
    by_cases hdis : (s.desc d).disabled = true
    · rw [if_pos hdis] at he
      cases he
      exact ⟨pl, h.drop hdis⟩
    · rw [if_neg hdis] at he
      have hnone := h.held.unlinked hd henq
      dsimp only at he
      split at he
      · obtain ⟨q, hq, rfl⟩ := map_eq_some_iff.mp he
        refine ⟨_, h.link hnone (h.held.placed.of_app hnone hq) rfl rfl rfl rfl
          (fun _ _ => rfl) rfl ⟨rfl, rfl⟩ ?_ (fun p hp => nomatch hp)⟩
        exact ⟨fun hc => absurd hc henq, fun hc => nomatch hc⟩
      · obtain ⟨q, hq, rfl⟩ := map_eq_some_iff.mp he
        refine ⟨_, h.link hnone (h.held.placed.of_papp hnone hq) rfl rfl rfl rfl
          (fun d' hne => update_of_ne hne _ _) ?_ ?_ ?_ ?_⟩ <;>
          simp [Sys.upd, Sys.note]

/-! ## The flush and the loop of `unlock` -/

/-- At most one activation of the flush is on the stack. -/
theorem Held.alone (h : Held s pl) (hs : s.frames = f :: fs) (hf : f.flushing = true) :
    s.flushlck = true ∧ ∀ g ∈ fs, g.flushing = false := by
  have hl := h.lck
  rw [hs, List.countP_cons_of_pos hf] at hl
  split at hl
  · rename_i hlck
    refine ⟨hlck, fun g hg => ?_⟩
    have h0 : fs.countP Frame.flushing = 0 := by omega
    simpa using List.countP_eq_zero.mp h0 g hg
  · exact absurd hl (by omega)

/-- One activation of the flush takes the place of another; neither serves a descriptor. -/
theorem IrqOk.turn (h : IrqOk s pl) {f' : Frame} (hs : s.frames = f :: fs)
    (hf : f.flushing = true) (hf' : f'.flushing = true) (hv : ∀ d, f.serves d = false)
    (hv' : ∀ d, f'.serves d = false)
    (hsw : ∀ d (p : Prty), pl d = some (.level () p) → (p = 0 ∨ f.swept ≤ p.val) →
      p = 0 ∨ f'.swept ≤ p.val) : IrqOk (s.setFrames (f' :: fs)) pl := by
  obtain ⟨hh, ht⟩ := h
  refine ⟨⟨hh.placed, hh.flag, hh.level, fun d p hp => ?_, ?_, fun hn g hg d p hp => ?_⟩,
    ht.settled, ht.counted, fun d => ?_⟩
  · rcases List.mem_cons.mp hp with rfl | hp
    · have := hv' d
      simp [Frame.serves] at this
    · exact hh.busy d p (by simp [hs, hp])
  · have hl := hh.lck
    rw [hs, List.countP_cons_of_pos hf] at hl
    show (f' :: fs).countP Frame.flushing = if s.flushlck then 1 else 0
    rw [List.countP_cons_of_pos hf', hl]
  · rcases List.mem_cons.mp hg with rfl | hg
    · exact hsw d p hp (hh.swept hn f (by simp [hs]) d p hp)
    · exact hh.swept hn g (by simp [hs, hg]) d p hp
  · have hr := ht.ran d
    rw [serving, hs, List.countP_cons_of_neg (by simp [hv d])] at hr
    show s.times _ + (f' :: fs).countP (Frame.serves d) = _
    rw [List.countP_cons_of_neg (by simp [hv' d])]
    exact hr

/-- The history when a handler is started from a queue, or a descriptor leaves its queue. -/
theorem Told.moved {pl' : Irq → Option (Slot Unit Unit 16)} {l : List Obs} (h : Told s pl)
    (hos : ∀ o ∈ l, ∃ d, o = .ran d) (hlog : s'.log = s.log ++ l)
    (hdesc : ∀ d, (s'.desc d).disabled = (s.desc d).disabled ∧ (s'.desc d).mdl = (s.desc d).mdl)
    (hbal : ∀ d, s'.serving d + (if pl d = none then 0 else 1) =
      s.serving d + (if pl' d = none then 0 else 1) + l.count (.ran d)) : Told s' pl' := by
  have ht : ∀ o, s'.times o = s.times o + l.count o := by
    intro o
    rw [times, hlog, List.count_append, times]
  have h0 : ∀ {o}, (∀ d, o ≠ .ran d) → s'.times o = s.times o := by
    intro o ho
    rw [ht, List.count_eq_zero.mpr, Nat.add_zero]
    intro hm
    obtain ⟨d, rfl⟩ := hos o hm
    exact ho d rfl
  refine ⟨fun d hd => ?_, fun d => ?_, fun d => ?_⟩
  · rw [h0 (by simp), h0 (by simp), h0 (by simp)]
    exact h.settled d ((hdesc d).1 ▸ hd)
  · rw [h0 (by simp), h0 (by simp), (hdesc d).2]
    exact h.counted d
  · have hr := h.ran d
    have hb := hbal d
    rw [h0 (by simp), ht]
    omega

/-- `MRT_irqd_flush` starts the handler of the first descriptor of its level. -/
theorem IrqOk.serve (h : IrqOk s pl) (hs : s.frames = .irqs p :: fs)
    (hd : (s.q.C.hdr (.level () p)).first = some d) :
    IrqOk ((s.setFrames (.deQ d p :: fs)).note [.ran d]) pl := by
  obtain ⟨hh, ht⟩ := h
  refine ⟨⟨hh.placed, hh.flag, hh.level, fun d' p' hp => ?_, ?_, fun hn g hg d' p' hp => ?_⟩,
    ht.moved (by simp) rfl (fun _ => ⟨rfl, rfl⟩) (fun d' => ?_)⟩
  · rcases List.mem_cons.mp hp with he | hp
    · cases he
      exact hh.placed.of_level_first hd
    · exact hh.busy d' p' (by simp [hs, hp])
  · have hl := hh.lck
    rw [hs] at hl
    exact hl
  · rcases List.mem_cons.mp hg with rfl | hg
    · exact hh.swept hn (.irqs p) (by simp [hs]) d' p' hp
    · exact hh.swept hn g (by simp [hs, hg]) d' p' hp
  · show (Frame.deQ d p :: fs).countP (Frame.serves d') + _ = s.serving d' + _ + _
    rw [serving, hs]
    by_cases hne : d = d'
    · subst hne
      simp [Frame.serves]
      omega
    · simp [Frame.serves, hne]

/-- `MRT_irqd_deQ` after the handler: the descriptor is in no queue any more. -/
theorem IrqOk.deQ (h : IrqOk s pl) (hs : s.frames = .deQ d p :: fs)
    (he : (s.setFrames (.irqs p :: fs)).irqdDeQ d = some s') :
    IrqOk s' (update pl d none) := by
  obtain ⟨hh, ht⟩ := h
  have hpl := hh.busy d p (by simp [hs])
  obtain ⟨-, hno⟩ := hh.alone hs rfl
  have hback : ∀ {d' i}, update pl d none d' = some i → d' ≠ d ∧ pl d' = some i := by
    intro d' i hp
    rw [update_apply] at hp
    split at hp
    · cases hp
    · exact ⟨by assumption, hp⟩
  unfold Sys.irqdDeQ at he
  split at he
  swap
  · cases he
  cases he
  refine ⟨⟨?_, fun d' => ?_, fun d' p' hp => ?_, fun d' p' hp => ?_, ?_,
    fun hn g hg d' p' hp => ?_⟩,
    ht.moved (l := []) (by simp) (List.append_nil _).symm (fun d' => ?_) (fun d' => ?_)⟩
  · show (s.q.prmv () d (s.desc d).priority).Placed _
    rw [hh.level d p hpl]
    exact hh.placed.prmv hpl
  · by_cases hd : d' = d
    · subst hd
      simp
    · rw [upd_desc_ne _ _ hd, update_of_ne hd]
      exact hh.flag d'
  · rw [upd_desc_ne _ _ (hback hp).1]
    exact hh.level d' p' (hback hp).2
  · rcases List.mem_cons.mp hp with he | hp
    · cases he
    · exact absurd (hno _ hp) (by simp [Frame.flushing])
  · have hl := hh.lck
    rw [hs] at hl
    exact hl
  · rcases List.mem_cons.mp hg with rfl | hg
    · exact hh.swept hn (.deQ d p) (by simp [hs]) d' p' (hback hp).2
    · exact hh.swept hn g (by simp [hs, hg]) d' p' (hback hp).2
  · by_cases hd : d' = d
    · subst hd
      rw [upd_desc_self]
      exact ⟨rfl, rfl⟩
    · rw [upd_desc_ne _ _ hd]
      exact ⟨rfl, rfl⟩
  · show (Frame.irqs p :: fs).countP (Frame.serves d') + _ = s.serving d' + _ + _
    rw [serving, hs]
    by_cases hd : d' = d
    · subst hd
      rw [update_self, hpl]
      simp [Frame.serves]
    · rw [update_of_ne hd]
      simp [Frame.serves, Ne.symm hd]

/-- `unlock` takes the first descriptor out of `mnxQ` and starts its handler. -/
theorem IrqOk.take (h : IrqOk s pl) (hd : s.q.first () = some d) :
    IrqOk ({ s with q := s.q.rmv () d }.note [.ran d]) (update pl d none) := by
  obtain ⟨hh, ht⟩ := h
  have hpl := hh.placed.of_first hd
  have hne : ∀ {d' p}, pl d' = some (.level () p) → update pl d none d' = pl d' := by
    intro d' p hp
    refine update_of_ne ?_ _ _
    rintro rfl
    rw [hpl] at hp
    cases hp
  have hback : ∀ {d' i}, update pl d none d' = some i → pl d' = some i := by
    intro d' i hp
    rw [update_apply] at hp
    split at hp
    · cases hp
    · exact hp
  refine ⟨⟨hh.placed.rmv hpl, fun d' => ⟨fun he => ?_, fun hp => (hh.flag d').mpr (hback hp)⟩,
    fun d' p' hp => hh.level d' p' (hback hp), fun d' p' hp => ?_, hh.lck,
    fun hn g hg d' p' hp => hh.swept hn g hg d' p' (hback hp)⟩,
    ht.moved (by simp) rfl (fun _ => ⟨rfl, rfl⟩) (fun d' => ?_)⟩
  · have hp := (hh.flag d').mp he
    exact (hne hp).trans hp
  · have hb := hh.busy d' p' hp
    exact (hne hb).trans hb
  · show s.serving d' + _ = s.serving d' + _ + _
    by_cases he : d' = d
    · subst he
      rw [update_self, hpl]
      simp
    · rw [update_of_ne he]
      simp [Ne.symm he]

/-- No descriptor waits at a priority that may be flushed now. -/
def Flushed (s : Sys) (pl : Irq → Option (Slot Unit Unit 16)) : Prop :=
  ∀ d (p : Prty), pl d = some (.level () p) → p = 0 ∨ s.k.prtylvl < p

/-- A turn of the flush begins; no activation of the flush is on the stack. -/
theorem IrqOk.begin (h : IrqOk { s with flushlck := false } pl) (hl : s.flushlck = true)
    (hf : f.flushing = true) (hv : ∀ d, f.serves d = false)
    (hsw : ∀ d (p : Prty), pl d = some (.level () p) → p = 0 ∨ f.swept ≤ p.val) :
    IrqOk (s.setFrames (f :: s.frames)) pl := by
  obtain ⟨hh, ht⟩ := h
  refine ⟨⟨hh.placed, hh.flag, hh.level, fun d p hp => ?_, ?_, fun hn g hg d p hp => ?_⟩,
    ht.settled, ht.counted, fun d => ?_⟩
  · rcases List.mem_cons.mp hp with rfl | hp
    · have := hv d
      simp [Frame.serves] at this
    · exact hh.busy d p hp
  · have h0 : s.frames.countP Frame.flushing = 0 := hh.lck
    show (f :: s.frames).countP Frame.flushing = if s.flushlck then 1 else 0
    rw [List.countP_cons_of_pos hf, h0, hl]
    rfl
  · rcases List.mem_cons.mp hg with rfl | hg
    · exact hsw d p hp
    · exact hh.swept hn g hg d p hp
  · show s.times _ + (f :: s.frames).countP (Frame.serves d) = _
    rw [List.countP_cons_of_neg (by simp [hv d])]
    exact ht.ran d

/-- The loop of `MRT_flush_int` at priority `n`, when the lower ones have had their turn:
    it goes on with a turn, or it ends and nothing is left to flush. -/
theorem IrqOk.flushLoop (h : IrqOk { s with flushlck := false } pl) (hl : s.flushlck = true)
    {n : Nat} (hsw : ∀ d (p : Prty), pl d = some (.level () p) → p = 0 ∨ n ≤ p.val) :
    IrqOk (s.flushLoop n) pl ∧ ((s.flushLoop n).flushlck = false → Flushed (s.flushLoop n) pl) := by
  unfold Sys.flushLoop
  split
  · rename_i hle
    split
    · refine ⟨?_, fun hc => absurd (hl.symm.trans hc) (by simp)⟩
      dsimp only
      split <;> exact h.begin hl rfl (fun _ => rfl) hsw
    · rename_i hbits
      refine ⟨h, fun _ d p hp => ?_⟩
      -- a descriptor in `irqQ` would show in the bitmap
      have hbit := (h.held.placed.bit () p).mpr ⟨d, hp⟩
      rw [not_or, not_not, not_not] at hbits
      have h0 : (s.q.aux ()).bitmap.getLsbD p.val = true := hbit
      rw [hbits.2] at h0
      simp at h0
  · rename_i hle
    refine ⟨h, fun _ d p hp => ?_⟩
    rcases hsw d p hp with h0 | hle'
    · exact .inl h0
    · exact .inr (Fin.lt_def.mpr (by show s.k.prtylvl.val < p.val; omega))

/-! ## One step -/

/-- What a step keeps: the invariant, and a flush that ends leaves nothing to flush. -/
def Kept (s s' : Sys) : Prop :=
  ∃ pl, IrqOk s' pl ∧ (s.flushlck = true → s'.flushlck = false → Flushed s' pl)

theorem IrqOk.kept (h : IrqOk s' pl) (hl : s'.flushlck = s.flushlck) : Kept s s' := by
  refine ⟨pl, h, fun ht hf => ?_⟩
  rw [hl, ht] at hf
  cases hf

/-- `MRT_irqd_enQ` leaves the flush lock alone. -/
theorem irqdEnQ_flushlck (h : s.irqdEnQ v d = some s') : s'.flushlck = s.flushlck := by
  unfold Sys.irqdEnQ at h
  split at h
  · exact (SameIrq.missDeadline h).flushlck
  · split at h
    · cases h
      rfl
    · dsimp only at h
      split at h
      all_goals
        obtain ⟨q, -, rfl⟩ := map_eq_some_iff.mp h
        rfl

/-- The beginning of a dispatch changes nothing that decides about the interrupt. -/
theorem irqEnter_desc (s : Sys) (i : Line) :
    ((s.irqEnter i).desc i.irq).disabled = (s.desc i.irq).disabled ∧
      ((s.irqEnter i).desc i.irq).td = (s.desc i.irq).td ∧
      (s.irqEnter i).defers i.irq = s.defers i.irq := by
  have hd : (s.irqEnter i).desc i.irq =
      { s.desc i.irq with count := (s.desc i.irq).count + 1 } := update_self _ _ _
  have hk : (s.irqEnter i).k = s.k := rfl
  have hm : (s.irqEnter i).minixcli = s.minixcli := rfl
  simp only [Sys.defers, hd, hk, hm, and_self]

theorem IrqOk.irqEnter (h : IrqOk s pl) (i : Line) : IrqOk (s.irqEnter i) pl := by
  refine IrqOk.push (f := .restart) (h.same ((SameIrq.resetIrq s i).trans (.upd _ i.irq ?_ ?_))) rfl
  all_goals exact fun _ => ⟨rfl, rfl⟩

/-- An interrupt is dispatched. -/
theorem IrqOk.dispatch (h : IrqOk s pl) {i : Line}
    (hfresh : ∀ d, s.handed (.arrive v i) = some d → d ∉ s.q.list (.plain ()))
    (he : s.irqDispatch v i = some s') : Kept s s' := by
  have h1 := h.irqEnter i
  obtain ⟨hdis, htd, hdef⟩ := irqEnter_desc s i
  unfold Sys.irqDispatch at he
  dsimp only at he
  by_cases h2 : ((s.irqEnter i).desc i.irq).disabled = true
  · rw [if_pos h2] at he
    cases he
    exact h1.kept rfl
  rw [if_neg h2] at he
  by_cases h3 : i = clockLine
  · rw [if_pos h3] at he
    obtain ⟨t, -, rfl⟩ := map_eq_some_iff.mp he
    exact (h1.same ((SameIrq.kernel _ _).trans (.setIrq _ i))).kept rfl
  rw [if_neg h3] at he
  by_cases h4 : ((s.irqEnter i).desc i.irq).td = true
  · rw [if_pos h4] at he
    cases he
    refine IrqOk.kept (h1.same (.trans (.upd _ i.irq ?_ ?_) (.setIrq _ i))) rfl
    all_goals exact fun _ => ⟨rfl, rfl⟩
  rw [if_neg h4] at he
  by_cases h5 : (s.irqEnter i).defers i.irq = true
  · rw [if_pos h5] at he
    have hin : s.handed (.arrive v i) = some i.irq := by
      refine if_pos ⟨?_, h3, ?_, hdef ▸ h5⟩
      · rw [← hdis]
        exact Bool.eq_false_iff.mpr h2
      · rw [← htd]
        exact Bool.eq_false_iff.mpr h4
    have hpl : pl i.irq ≠ some (.plain ()) := fun hp =>
      hfresh _ hin ((h.held.placed.mem_list _).mpr hp)
    obtain ⟨pl', h'⟩ := h1.enQ hpl he
    have hl := irqdEnQ_flushlck he
    exact h'.kept hl
  · rw [if_neg h5] at he
    obtain ⟨s2, h6, rfl⟩ := map_eq_some_iff.mp he
    have h7 : IrqOk s2 pl ∧ s2.flushlck = s.flushlck := by
      split at h6
      · exact ⟨h1.miss (.inr rfl) h6, (SameIrq.missDeadline h6).flushlck⟩
      · cases h6
        exact ⟨h1, rfl⟩
    have h8 := (h7.1.push (f := .dispatch i) rfl).doHandler i.irq
    exact h8.kept ((SameIrq.prtylvlSet _ _).flushlck.trans h7.2)

/-- A timer of the flush runs. -/
theorem IrqOk.timers (h : IrqOk s pl) (hs : s.frames = .timers p :: fs)
    (hfresh : ∀ d, s.handed (.run v) = some d → d ∉ s.q.list (.plain ()))
    (he : s.vtimerFlush v p fs = some s') : Kept s s' := by
  unfold Sys.vtimerFlush at he
  split at he
  · cases he
    refine IrqOk.kept (h.turn hs rfl rfl (fun _ => rfl) (fun _ => rfl) ?_) rfl
    exact fun _ _ _ hp => hp
  · rename_i plk hplk
    obtain ⟨vt, hvt, he⟩ := bind_eq_some_iff.mp he
    obtain ⟨s1, h1, he⟩ := bind_eq_some_iff.mp he
    obtain ⟨k, -, rfl⟩ := map_eq_some_iff.mp he
    have hk := SameIrq.setKernel s1 k false
    unfold Sys.irqAction at h1
    by_cases hact : (s.k.tm.vt vt).action = .irqtrig
    · rw [if_pos hact] at h1
      obtain ⟨d, hd, h1⟩ := bind_eq_some_iff.mp h1
      by_cases htr : triggers (s.desc d) = true
      · rw [if_pos htr] at h1
        have hin : s.handed (.run v) = some d := by
          simp only [handed, hs, hplk, bind_some, hvt, hact, if_true, hd, htr]
        have hpl : pl d ≠ some (.plain ()) := fun hp =>
          hfresh _ hin ((h.held.placed.mem_list _).mpr hp)
        obtain ⟨pl', h'⟩ := h.enQ hpl h1
        exact (h'.same hk).kept (hk.flushlck.trans (irqdEnQ_flushlck h1))
      · rw [if_neg htr] at h1
        cases h1
        exact (h.same hk).kept hk.flushlck
    · rw [if_neg hact] at h1
      cases h1
      exact (h.same hk).kept hk.flushlck

/-- A level without descriptors counts as swept. -/
theorem sweep_level (hp : ∀ d, pl d ≠ some (.level () p)) (d : Irq) (p' : Prty)
    (hd : pl d = some (.level () p')) (h : p' = 0 ∨ p.val ≤ p'.val) :
    p' = 0 ∨ p.val + 1 ≤ p'.val := by
  have hne : p.val ≠ p'.val := fun e => hp d (Fin.ext e ▸ hd)
  rcases h with h | h
  · exact .inl h
  · exact .inr (by omega)

/-- The flush begins at priority 1. -/
theorem zero_or_one_le (p : Prty) : p = 0 ∨ 1 ≤ p.val := by
  by_cases h0 : p.val = 0
  · exact .inl (Fin.ext h0)
  · exact .inr (by omega)

/-- Between two turns, and before the first one, no activation of the flush is on the
    stack. -/
theorem IrqOk.calm (h : IrqOk s pl) (hfs : ∀ f ∈ fs, f ∈ s.frames ∧ f.flushing = false)
    (hv : ∀ d, fs.countP (Frame.serves d) = s.frames.countP (Frame.serves d)) (b : Bool) :
    IrqOk { s.setFrames fs with flushlck := false, newint := b } pl := by
  obtain ⟨hh, ht⟩ := h
  refine ⟨⟨hh.placed, hh.flag, hh.level, fun d p hp => hh.busy d p (hfs _ hp).1, ?_,
    fun _ g hg d p _ => ?_⟩, ht.settled, ht.counted, fun d => ?_⟩
  · exact List.countP_eq_zero.mpr (fun f hf => by simp [(hfs f hf).2])
  · have hg' := (hfs g hg).2
    refine .inr ?_
    cases g <;> simp_all [Frame.flushing, Frame.swept]
  · have hr := ht.ran d
    rw [serving, ← hv d] at hr
    exact hr

/-- The end of a turn of the flush. -/
theorem IrqOk.next (h : IrqOk s pl) (hs : s.frames = .next p :: fs)
    (he : (s.setFrames fs).flushNext p = some s') : Kept s s' := by
  obtain ⟨hl, hno⟩ := h.held.alone hs rfl
  obtain ⟨s1, h1, rfl⟩ := map_eq_some_iff.mp he
  have e := SameIrq.reschedule h1
  have hcalm : ∀ b, IrqOk { s1 with flushlck := false, newint := b } pl := by
    intro b
    refine IrqOk.same (h.calm (fun f hf => ⟨by simp [hs, hf], hno f hf⟩) (fun d => ?_) b)
      ⟨⟨e.q, rfl, rfl, e.frames, e.desc⟩, e.log, e.told⟩
    rw [hs, List.countP_cons_of_neg (by simp [Frame.serves])]
  have hl1 : s1.flushlck = true := e.flushlck.trans hl
  split
  · obtain ⟨h3, h4⟩ := IrqOk.flushLoop (s := { s1 with newint := false }) (hcalm false) hl1
      (fun _ p _ => zero_or_one_le p)
    exact ⟨pl, h3, fun _ => h4⟩
  · rename_i hn
    have hn' : s.newint = false := e.newint.symm.trans (Bool.eq_false_iff.mpr hn)
    obtain ⟨h3, h4⟩ := IrqOk.flushLoop (s := s1) (hcalm s1.newint) hl1
      (h.held.swept hn' (.next p) (by simp [hs]))
    exact ⟨pl, h3, fun _ => h4⟩

/-- A flush begins in `restart`. -/
theorem IrqOk.flushInt (h : IrqOk s pl) (hs : s.frames = .restart :: fs) (hp : s.pending = true) :
    Kept s (s.setFrames fs).flushInt := by
  have hl : s.flushlck = false := by
    simp only [Sys.pending, Bool.and_eq_true, Bool.not_eq_true'] at hp
    exact hp.1.2
  have hno : ∀ f ∈ fs, f.flushing = false := by
    have h0 := h.held.lck
    rw [hl] at h0
    intro f hf
    have := List.countP_eq_zero.mp h0 f (by simp [hs, hf])
    simpa using this
  have hc := h.calm (fun f hf => ⟨by simp [hs, hf], hno f hf⟩) (fun d => by
    rw [hs, List.countP_cons_of_neg (by simp [Frame.serves])]) false
  obtain ⟨h3, h4⟩ := IrqOk.flushLoop
    (s := { s.setFrames fs with flushlck := true, newint := false }) hc rfl
    (fun _ p _ => zero_or_one_le p)
  exact ⟨pl, h3, fun _ => h4⟩

/-- The kernel runs on. -/
theorem IrqOk.runOn (h : IrqOk s pl)
    (hfresh : ∀ d, s.handed (.run v) = some d → d ∉ s.q.list (.plain ()))
    (he : s.runOn v = some s') : Kept s s' := by
  unfold Sys.runOn at he
  split at he
  · rename_i i fs hs
    obtain ⟨s1, h1, rfl⟩ := map_eq_some_iff.mp he
    have e := (SameIrq.reschedule h1).trans (.setIrq s1 i)
    exact ((h.pop hs rfl).same e).kept e.flushlck
  · rename_i fs hs
    cases he
    split
    · rename_i hpend
      exact h.flushInt hs hpend
    · exact (h.pop hs rfl).kept rfl
  · rename_i fs hs
    cases he
    unfold Sys.unlockTurn
    split
    · exact (h.pop hs rfl).kept rfl
    · rename_i d hd
      exact ((h.take hd).doHandler d).kept (SameIrq.prtylvlSet _ _).flushlck
  · rename_i p fs hs
    exact h.timers hs hfresh he
  · rename_i p fs hs
    cases he
    split
    · refine IrqOk.kept (h.turn hs rfl rfl (fun _ => rfl) (fun _ => rfl) ?_) rfl
      exact fun _ _ _ hp => hp
    · rename_i hbit
      refine IrqOk.kept (h.turn hs rfl rfl (fun _ => rfl) (fun _ => rfl) ?_) rfl
      exact sweep_level (fun d hd => hbit ((h.held.placed.bit () p).mpr ⟨d, hd⟩))
  · rename_i p fs hs
    cases he
    unfold Sys.irqdFlush
    split
    · rename_i hd
      refine IrqOk.kept (h.turn hs rfl rfl (fun _ => rfl) (fun _ => rfl) ?_) rfl
      exact sweep_level (h.held.placed.level_first_eq_none.mp hd)
    · rename_i d hd
      exact ((h.serve hs hd).doHandler d).kept (SameIrq.prtylvlSet _ _).flushlck
  · rename_i d p fs hs
    have hl : s'.flushlck = s.flushlck := by
      unfold Sys.irqdDeQ at he
      split at he
      · cases he
        rfl
      · cases he
    exact (h.deQ hs he).kept hl
  · rename_i p fs hs
    exact h.next hs he
  · cases he
  · cases he

/-- `MRT_setiattr` refuses and changes nothing, or writes the attributes of one line. -/
theorem setiattr_inv {caller : Proc} {irq : Int} {a : IAttr} {r : Sys × IrqCode}
    (h : s.setiattr v caller irq a = some r) :
    (r.2 ≠ .ok ∧ r.1 = s) ∨ ∃ i p, r.2 = .ok ∧ tabAddr 16 irq = some i ∧
      prtyOf a.priority = some p ∧ r.1 = s.upd (Line.irq i) (attrSet a p) := by
  unfold Sys.setiattr at h
  split at h
  · cases h
    exact .inl ⟨nofun, rfl⟩
  · rename_i i hi
    split at h
    · cases h
      exact .inl ⟨nofun, rfl⟩
    split at h
    · cases h
      exact .inl ⟨nofun, rfl⟩
    obtain ⟨used, -, h⟩ := bind_eq_some_iff.mp h
    split at h
    · cases h
      exact .inl ⟨nofun, rfl⟩
    split at h
    · cases h
      exact .inl ⟨nofun, rfl⟩
    split at h
    · cases h
      exact .inl ⟨nofun, rfl⟩
    · rename_i p hp
      obtain ⟨used, -, rfl⟩ := map_eq_some_iff.mp h
      split
      · exact .inl ⟨nofun, rfl⟩
      · exact .inr ⟨i, p, rfl, hi, hp, rfl⟩

/-- A descriptor that is not in `irqQ` may get another priority. -/
theorem IrqOk.retype (h : IrqOk s pl) (hd : (s.desc d).enqueued = false) (a : IAttr) (p : Prty) :
    IrqOk (s.upd d (attrSet a p)) pl := by
  obtain ⟨hh, ht⟩ := h
  have hlev : ∀ p', pl d ≠ some (.level () p') := by
    intro p' hp
    have hf := (hh.flag d).mpr (hh.level d p' hp ▸ hp)
    rw [hd] at hf
    cases hf
  refine ⟨⟨hh.placed, fun d' => ?_, fun d' p' hp => ?_, hh.busy, hh.lck, hh.swept⟩,
    fun d' hd' => ?_, fun d' => ?_, ht.ran⟩
  · by_cases he : d' = d
    · subst he
      rw [upd_desc_self]
      exact ⟨fun hc => absurd (hd.symm.trans hc) (by simp), fun hc => absurd hc (hlev _)⟩
    · rw [upd_desc_ne _ _ he]
      exact hh.flag d'
  · have he : d' ≠ d := by
      rintro rfl
      exact hlev p' hp
    rw [upd_desc_ne _ _ he]
    exact hh.level d' p' hp
  · refine ht.settled d' ?_
    by_cases he : d' = d
    · subst he
      rw [upd_desc_self] at hd'
      exact hd'
    · rw [upd_desc_ne _ _ he] at hd'
      exact hd'
  · have hc := ht.counted d'
    by_cases he : d' = d
    · subst he
      rw [upd_desc_self]
      exact hc
    · rw [upd_desc_ne _ _ he]
      exact hc

theorem IrqOk.call (h : IrqOk s pl) : IrqOk s.call pl ∧ s.call.flushlck = s.flushlck := by
  unfold Sys.call
  split
  · rename_i hs
    have hp := h.push (f := .restart) rfl
    rw [hs] at hp
    exact ⟨hp, rfl⟩
  · exact ⟨h, rfl⟩

/-- **ONE STEP** keeps the invariant, when it meets the condition. -/
theorem IrqOk.step (h : IrqOk s pl) {e : IrqEvent} (hok : Fresh s e) (he : s.step e = some s') :
    Kept s s' := by
  cases step_does he with
  | arrive _ _ he => exact h.dispatch hok.1 he
  | finish hs he =>
    have e := SameIrq.endHandler he
    exact ((h.pop hs rfl).same e).kept e.flushlck
  | run he => exact h.runOn hok.1 he
  | lock _ =>
    have e : SameIrq s s.lock := .of_eq rfl rfl rfl rfl rfl rfl
    exact (h.same e).kept rfl
  | unlock _ =>
    have e : SameIrq s { s with minixcli := false } := .of_eq rfl rfl rfl rfl rfl rfl
    unfold Sys.unlock
    dsimp only
    split
    · exact ((h.same e).push (f := .unlock) rfl).kept rfl
    · exact (h.same e).kept rfl
  | @enableIrq i _ => exact (h.same (.enableIrq s i)).kept (SameIrq.enableIrq s i).flushlck
  | @disableIrq i _ => exact (h.same (.disableIrq s i)).kept (SameIrq.disableIrq s i).flushlck
  | @setiattr _ _ _ a _ _ hr =>
    rcases setiattr_inv hr with ⟨-, hs⟩ | ⟨i, p, -, hi, -, hs⟩
    · rw [hs]
      exact h.call.1.kept h.call.2
    · have hd : (s.desc (Line.irq i)).enqueued = false :=
        hok.2 _ (by rw [retyped, hi]; rfl)
      have hc := (h.retype hd a p).call
      rw [hs]
      exact hc.1.kept hc.2
  | @kernel _ picked k _ _ _ =>
    have e := SameIrq.setKernel s k picked
    have hc := (h.same e).call
    exact hc.1.kept (hc.2.trans e.flushlck)

/-! ## Whole runs -/

theorem Initial.irqOk (h : s.Initial) : IrqOk s (fun _ => none) := by
  refine ⟨⟨h.q ▸ Pool.placed_empty, fun d => ?_, fun d p hp => ?_, fun d p hp => ?_, ?_,
    fun _ f hf => ?_⟩, fun d _ => ?_, fun d => ?_, fun d => ?_⟩
  · simp [(h.desc d).1]
  · cases hp
  · rw [h.frames] at hp
    cases hp
  · rw [h.frames, h.flushlck]
    rfl
  · rw [h.frames] at hf
    cases hf
  · simp [times, h.log]
  · simp [times, h.log, (h.desc d).2]
  · simp [times, serving, h.log, h.frames]

/-- **ALONG A RUN** whose steps all meet the condition the invariant holds. -/
theorem ReachBy.irqOk {s₀ : Sys} (h₀ : s₀.Initial) (h : ReachBy Fresh s₀ s) :
    ∃ pl, IrqOk s pl := by
  refine h.keeps (I := fun s => ∃ pl, IrqOk s pl) ⟨_, h₀.irqOk⟩ ?_
  rintro s e s' ⟨pl, hi⟩ hok he
  obtain ⟨pl', hi', -⟩ := hi.step hok he
  exact ⟨pl', hi'⟩

/-- A descriptor is linked as often as its place says. -/
theorem links_eq (h : s.q.Placed pl) (d : Irq) : s.links d = if pl d = none then 0 else 1 := by
  simp only [links, h.count_list]
  cases hp : pl d with
  | none => simp
  | some i =>
    cases i with
    | plain l => simp
    | level k p => simp

/-- A descriptor is served by one activation at most, and is linked meanwhile. -/
theorem Held.serving_le (h : Held s pl) (d : Irq) :
    s.serving d ≤ if pl d = none then 0 else 1 := by
  split
  · rename_i hp
    refine (List.countP_eq_zero.mpr (fun f hf hd => ?_)).le
    cases f with
    | deQ d' p =>
      have he : d' = d := by simpa [Frame.serves] using hd
      subst he
      have hb := h.busy d' p hf
      rw [hp] at hb
      cases hb
    | _ => simp [Frame.serves] at hd
  · calc s.serving d ≤ s.frames.countP Frame.flushing := by
          refine List.countP_mono_left (fun f _ hf => ?_)
          by_contra hne
          rw [Frame.serves_of_not_flushing (Bool.eq_false_iff.mpr hne) d] at hf
          cases hf
      _ = if s.flushlck then 1 else 0 := h.lck
      _ ≤ 1 := by split <;> omega

theorem IrqOk.tidy (h : IrqOk s pl) : s.Tidy := by
  obtain ⟨hh, ht⟩ := h
  have hl := links_eq hh.placed
  refine ⟨fun d => ?_, ⟨pl, hh.placed⟩, fun d => ?_, fun d p fs hs => ?_, ht.settled, ht.counted,
    fun d => ?_, fun d => ?_⟩
  · rw [hl]
    split <;> omega
  · simp only [hh.placed.mem_list]
    constructor
    · exact fun he => ⟨_, (hh.flag d).mp he⟩
    · rintro ⟨p, hp⟩
      exact (hh.flag d).mpr (hh.level d p hp ▸ hp)
  · have hp := hh.busy d p (by simp [hs])
    exact (hh.flag d).mpr (hh.level d p hp ▸ hp)
  · rw [hl]
    exact ht.ran d
  · rw [hl]
    exact hh.serving_le d

/-- A flush that ends has emptied the priorities it may flush. -/
theorem Flushed.list_eq_nil (h : Flushed s pl) (hq : s.q.Placed pl) (h0 : 0 < p)
    (hp : p ≤ s.k.prtylvl) : s.q.list (.level () p) = [] := by
  rw [List.eq_nil_iff_forall_not_mem]
  intro d hd
  rcases h d p ((hq.mem_list _).mp hd) with h1 | h1
  · exact absurd h1 h0.ne'
  · exact absurd h1 (not_lt.mpr hp)

/-- The loop of `unlock` ends when `mnxQ` is empty. -/
theorem IrqOk.unlocked (h : IrqOk s pl) {e : IrqEvent} (he : s.step e = some s')
    (hs : s.frames = .unlock :: fs) (hs' : s'.frames = fs) :
    s'.q.list (.plain ()) = [] := by
  have hoff : s.enabled = false := by
    simp only [Sys.enabled, hs]
  cases e with
  | run v =>
    simp only [Sys.step, Sys.runOn, hs, Sys.unlockTurn] at he
    split at he
    · rename_i hd
      cases he
      rw [List.eq_nil_iff_forall_not_mem]
      exact fun d hm =>
        h.held.placed.first_eq_none.mp hd d ((h.held.placed.mem_list _).mp hm)
    · cases he
      have hlen : fs.length + 1 + 1 = fs.length := congrArg List.length hs'
      omega
  | finish v b | setiattr v caller irq a => simp [Sys.step, hs] at he
  | _ => simp [Sys.step, hoff] at he

/-- **THE INTERRUPT QUEUES.**  In every run whose steps all meet the condition, every
    state reached is tidy; a flush that ends leaves no interrupt of a priority that may
    run now, and the loop of `unlock` ends with `mnxQ` empty. -/
theorem irq_queues_tidy {s₀ : Sys} (h₀ : s₀.Initial) (h : ReachBy Fresh s₀ s) :
    s.Tidy ∧ ∀ e s', Fresh s e → s.step e = some s' →
      (s.flushlck = true → s'.flushlck = false →
        ∀ p : Prty, 0 < p → p ≤ s'.k.prtylvl → s'.q.list (.level () p) = []) ∧
      (∀ fs, s.frames = .unlock :: fs → s'.frames = fs → s'.q.list (.plain ()) = []) := by
  obtain ⟨pl, hi⟩ := h.irqOk h₀
  refine ⟨hi.tidy, fun e s' hok he => ⟨fun hl hl' p h0 hp => ?_, fun fs hs hs' => ?_⟩⟩
  · obtain ⟨pl', hi', hfl⟩ := hi.step hok he
    exact (hfl hl hl').list_eq_nil hi'.held.placed h0 hp
  · exact hi.unlocked he hs hs'

/-! ## Two runs -/

/-- An event-driven descriptor without task and watchdog. -/
def plainIrqd (rt : Bool) (p : Prty) : Irqd :=
  { rt := rt, td := false, soft := false, istmsg := false, priority := p, task := hardware,
    watchdog := hardware, enqueued := false, disabled := false, tdTrigger := false, count := 0,
    mdl := 0, shower := 0, maxshower := 0 }

/-- RT mode with two RT lines, 5 and 6, of priorities 2 and 3; the other lines are MINIX's. -/
def twoRtLines : Sys :=
  { k := { KState.bss with rtMode := true, prtylvl := 15 },
    desc := fun d => if d = 5 then plainIrqd true 2 else if d = 6 then plainIrqd true 3
      else plainIrqd false 15,
    q := .empty, mask := fun _ => 0, pic := 0, realPIC := 0, virtualPIC := 0, minixcli := false,
    newint := false, flushlck := false, prtymask := false, frames := [], log := [] }

theorem twoRtLines_initial : twoRtLines.Initial :=
  ⟨rfl, by decide, rfl, rfl, rfl⟩

/-- Line 3 is deferred to `mnxQ`; line 6 interrupts the handler of line 5, is deferred to
    `irqQ`, waits through a flush at the level of line 5 and is flushed afterwards. -/
def deferring : List IrqEvent :=
  [.lock, .arrive goodEnv 3, .run goodEnv, .arrive goodEnv 5, .arrive goodEnv 6] ++
    List.replicate 5 (.run goodEnv) ++ [.finish goodEnv true] ++ List.replicate 8 (.run goodEnv)

/-- Both queues are in use, the handler of line 6 runs, and all is tidy. -/
theorem irq_queues_tidy_deferring :
    twoRtLines.Initial ∧ ∃ s, ReachBy Fresh twoRtLines s ∧ s.links 3 = 1 ∧ s.serving 6 = 1 ∧
      s.Tidy := by
  have h : (twoRtLines.runBy Fresh deferring).any (fun s =>
      decide (s.links 3 = 1 ∧ s.serving 6 = 1)) = true := by decide +kernel
  obtain ⟨s, hs, hl⟩ := (any_eq_true _ _).mp h
  have hr : ReachBy Fresh twoRtLines s := Run.ReachBy.of_runBy hs
  obtain ⟨h1, h2⟩ := of_decide_eq_true hl
  exact ⟨twoRtLines_initial, s, hr, h1, h2, (irq_queues_tidy twoRtLines_initial hr).1⟩

/-- Lines 3 and 4 interrupt the handler of line 5 while MINIX has locked interrupts.  When
    that handler returns, the saved mask enables them again; line 3 comes once more and
    is linked again, behind line 4. -/
def relinking : List IrqEvent :=
  [.lock, .arrive goodEnv 5, .arrive goodEnv 3, .run goodEnv, .arrive goodEnv 4, .run goodEnv,
    .finish goodEnv true, .run goodEnv, .run goodEnv, .arrive goodEnv 3, .run goodEnv, .unlock,
    .run goodEnv, .finish goodEnv true, .run goodEnv, .finish goodEnv true, .run goodEnv]

/-- **THE DEFECT.**  The handler of line 3 runs twice and `mnxQ` is empty again, but the
    interrupt of line 4, which was deferred, has been lost: it never ran. -/
theorem deferred_irq_lost :
    twoRtLines.Initial ∧ ∃ s, ReachBy (fun _ _ => True) twoRtLines s ∧ s.frames = [] ∧
      s.times (.linked 4) = 1 ∧ s.times (.ran 4) = 0 ∧ s.links 4 = 0 ∧ ¬ s.Tidy := by
  have h : (twoRtLines.runBy (fun _ _ => True) relinking).any (fun s =>
      decide (s.frames = [] ∧ s.times (.linked 4) = 1 ∧ s.times (.ran 4) = 0 ∧
        s.links 4 = 0)) = true := by decide +kernel
  obtain ⟨s, hs, hl⟩ := (any_eq_true _ _).mp h
  obtain ⟨h1, h2, h3, h4⟩ := of_decide_eq_true hl
  refine ⟨twoRtLines_initial, s, Run.ReachBy.of_runBy hs, h1, h2, h3, h4, fun ht => ?_⟩
  have hr := ht.ran 4
  rw [h2, h3, h4] at hr
  omega

end Sys

end Kernel
