import Minix4rt.IrqQueueProofs
import Minix4rt.RestartModelProofs
import Minix4rt.VtimerQueueProofs

/-! # Rescaling — the periods of the timer-driven interrupts over `MRT_restart`

    `MRT_restart` converts the period of every timer-driven descriptor to the new harmonic
    and allocates a virtual timer for it; a refusal of the allocation is a panic.

    A turn of its loop succeeds EXACTLY when the new period is in the range of
    `MRT_vtimer_alloc` and a timer is free.  So the restart succeeds exactly when all the
    new periods are in that range and the timers suffice, and every period is then the
    one of the conversion.

    The conversion multiplies and then divides: a short period at a lower harmonic
    becomes 0, a long one at a higher harmonic leaves the range.  The period of the idle
    descriptor is converted twice, and only where the refresh changes.  A line that is
    masked in the PIC keeps its old period. -/

namespace Kernel

open IntrusiveList PriorityList Vtimer Function Option

namespace Conf

variable {c c' c₁ : Conf} {H R per : BitVec 32} {d : Irq} {ds : List Irq} {n : Nat}

/-! ## The timers of the loop -/

/-- `n` timers have been taken out of the free list, and the active list is in order. -/
def Armed (tm : TimerSt) (n : Nat) : Prop :=
  ∃ f, tm.Reads f ∧ tm.Timed (f .act) ∧ (f .free).length + n = 16

/-- The range that `MRT_vtimer_alloc` accepts. -/
def Fair (per : BitVec 32) : Prop := ¬ (per = 0 ∨ maxPer < per)

theorem fair_iff : Fair per ↔ 1 ≤ per.toNat ∧ per.toNat ≤ 10000 := by
  have hmax : maxPer.toNat = 10000 := rfl
  unfold Fair
  rw [not_or, BitVec.lt_def, hmax, not_lt, Nat.one_le_iff_ne_zero]
  exact and_congr_left' (not_congr ⟨fun h => by rw [h]; rfl, fun h => BitVec.eq_of_toNat_eq h⟩)

/-- A timer is allocated and inserted. -/
theorem Armed.take {tm : TimerSt} (h : Armed tm n) (hn : n < 16)
    (hper : Fair per) (lim : BitVec 32) (act : Act) (par owner : Int) (pty : Prty) :
    ∃ x tm₁ tm₂, tm.vtimerAlloc per lim act par owner pty = some (some x, tm₁) ∧
      tm₁.vtimerIns x = some tm₂ ∧ Armed tm₂ (n + 1) := by
  obtain ⟨f, hr, ht, hlen⟩ := h
  obtain ⟨x, xs, hf⟩ : ∃ x xs, f .free = x :: xs := by
    refine List.exists_cons_of_ne_nil (fun e => ?_)
    rw [e, List.length_nil] at hlen
    omega
  obtain ⟨tm₁, h1, hr1, ht1, -, heq⟩ := TimerSt.vtimerAlloc_spec hr ht hf hper lim act par owner pty
  have hx : x ∈ f .free := by rw [hf]; exact List.mem_cons_self
  have hu : Chains.Unlinked (update f .free xs) x := by
    have := hr.q.unlinked_erase hx
    rwa [hf, List.erase_cons_head] at this
  have hact : update f .free xs .act = f .act := update_of_ne (by simp) _ _
  have hp : (tm₁.vt x).period.toNat < 2 ^ 31 := by
    rw [heq, TimerSt.upd_vt_self]
    exact lt_of_le_of_lt (fair_iff.mp hper).2 (by decide)
  obtain ⟨tm₂, ys, h2, hr2, ht2, -⟩ :=
    TimerSt.vtimerIns_spec hr1 (by rw [hact]; exact ht1) hu hp
  refine ⟨x, tm₁, tm₂, h1, h2, _, hr2, by rw [update_self]; exact ht2, ?_⟩
  rw [update_of_ne (by simp), update_self]
  rw [hf, List.length_cons] at hlen
  omega

/-- The allocation is refused when all timers are taken or the period is not fair. -/
theorem Armed.refused {tm : TimerSt} (h : Armed tm n) {lim : BitVec 32} {act : Act}
    {par owner : Int} {pty : Prty} (hno : ¬ n < 16 ∨ ¬ Fair per) :
    tm.vtimerAlloc per lim act par owner pty = some (none, tm) := by
  obtain ⟨f, hr, ht, hlen⟩ := h
  refine TimerSt.vtimerAlloc_refused hr (hno.imp (fun hn => ?_) (fun hp => not_not.mp hp))
  exact List.length_eq_zero_iff.mp (by omega)

/-- `MRT_timerQ_init` and `MRT_vtimer_init` leave all the timers free. -/
theorem queueInit_armed (c : Conf) : ∃ tm, Armed tm 0 ∧ c.queueInit = some
    { c with sys := { c.sys with k := { c.sys.k with
        rq := { c.sys.k.rq with pool := c.sys.k.rq.pool.prst none }, tm := tm } } } := by
  obtain ⟨tm, hs, h⟩ := TimerSt.vtimerInitLoop_spec
    { c.sys.k.tm with
      q := { c.sys.k.tm.q with hdr := fun _ => ListHdr.rst }
      exp := PAux.rst
      earliest := 0
      maxper := 0 } rfl
  refine ⟨tm, ⟨_, h.reads rfl, h.timed rfl, List.length_finRange⟩, ?_⟩
  unfold queueInit
  dsimp only
  rw [hs]
  rfl

/-! ## A turn of the loop -/

/-- The loop gives the descriptor a timer: it is timer-driven, and a line that is enabled
    or a software interrupt in use. -/
def takes (c : Conf) (d : Irq) : Bool :=
  (if d.val < 16 then !c.sys.realPIC.getLsbD d.val else c.softUse.getLsbD (d.val - 16)) &&
    (c.sys.desc d).td

/-- A turn changes neither the types of the descriptors nor what the loop reads. -/
structure Kept (c c' : Conf) : Prop where
  td : ∀ d, (c'.sys.desc d).td = (c.sys.desc d).td
  realPIC : c'.sys.realPIC = c.sys.realPIC
  softUse : c'.softUse = c.softUse

theorem Kept.refl (c : Conf) : Kept c c := ⟨fun _ => rfl, rfl, rfl⟩

theorem Kept.trans {c₂ c₃ : Conf} (h : Kept c₁ c₂) (h' : Kept c₂ c₃) : Kept c₁ c₃ :=
  ⟨fun d => (h'.td d).trans (h.td d), h'.realPIC.trans h.realPIC, h'.softUse.trans h.softUse⟩

theorem Kept.takes (h : Kept c c') (d : Irq) : c'.takes d = c.takes d := by
  unfold Conf.takes
  rw [h.td, h.realPIC, h.softUse]

theorem irqdClr_kept (c : Conf) (d : Irq) : Kept c (c.irqdClr d) := by
  refine ⟨fun e => ?_, rfl, rfl⟩
  unfold irqdClr Sys.upd
  by_cases he : e = d
  · subst he
    simp
  · simp [he]

theorem mask_kept (c : Conf) (m : Prty → BitVec 32) :
    Kept c { c with sys := { c.sys with mask := m } } := ⟨fun _ => rfl, rfl, rfl⟩

/-- What `rescale` has done to the descriptor. -/
structure Turned (c c' : Conf) (H : BitVec 32) (d : Irq) : Prop where
  kept : Kept c c'
  other : ∀ e, e ≠ d → c'.rate e = c.rate e
  period : newPeriod (c.rate d) H = some (c'.rate d).period

theorem rescale_turned (h : Armed c.sys.k.tm n) (hn : n < 16)
    (hnew : newPeriod (c.rate d) H = some per) (hper : Fair per) :
    ∃ c', c.rescale H d = some c' ∧ Turned c c' H d ∧ Armed c'.sys.k.tm (n + 1) := by
  obtain ⟨x, tm₁, tm₂, h1, h2, ha⟩ :=
    h.take hn hper 0 .irqtrig d.val hardware (c.sys.desc d).priority
  have heq : c.rescale H d = some ({ c with sys := { c.sys with k := { c.sys.k with tm := tm₂ } } }
      |>.updRate d (fun r => { r with period := per, harmonic := H, pvt := some x })) := by
    unfold rescale
    rw [hnew]
    simp only [bind_eq_bind, bind_some, h1, h2]
  refine ⟨_, heq, ⟨⟨fun _ => rfl, rfl, rfl⟩, fun e he => ?_, ?_⟩, ha⟩
  · exact update_of_ne he _ _
  · rw [hnew]
    show some per = some (update c.rate d _ d).period
    rw [update_self]

theorem rescale_panics (h : Armed c.sys.k.tm n)
    (hno : ¬ ∃ per, newPeriod (c.rate d) H = some per ∧ Fair per ∧ n < 16) :
    c.rescale H d = none := by
  unfold rescale
  cases hnew : newPeriod (c.rate d) H with
  | none => rfl
  | some per =>
    have hrange : ¬ n < 16 ∨ ¬ Fair per := by
      by_contra hc
      rw [not_or, not_not, not_not] at hc
      exact hno ⟨per, hnew, hc.2, hc.1⟩
    simp only [bind_eq_bind, bind_some, h.refused hrange]
    rfl

/-- A turn for a descriptor that takes no timer. -/
theorem restartIrq_skips (hd : c.takes d = false) : ∃ c', restartIrq H c d = some c' ∧
    Kept c c' ∧ c'.rate = c.rate ∧ c'.sys.k.tm = c.sys.k.tm := by
  unfold takes at hd
  unfold restartIrq reviveIrq
  by_cases hlt : d.val < 16
  · rw [if_pos hlt] at hd ⊢
    cases hm : c.sys.realPIC.getLsbD d.val with
    | true =>
      rw [if_pos rfl]
      exact ⟨c, rfl, .refl c, rfl, rfl⟩
    | false =>
      rw [hm] at hd
      have htd : (c.sys.desc d).td = false := hd
      rw [if_neg (by simp)]
      dsimp only
      rw [(irqdClr_kept _ d).td, if_neg (by rw [htd]; simp)]
      exact ⟨_, rfl, (mask_kept c _).trans (irqdClr_kept _ d), rfl, rfl⟩
  · rw [if_neg hlt] at hd ⊢
    cases hu : c.softUse.getLsbD (d.val - 16) with
    | false =>
      rw [if_neg (by simp)]
      exact ⟨c, rfl, .refl c, rfl, rfl⟩
    | true =>
      rw [hu] at hd
      have htd : (c.sys.desc d).td = false := hd
      rw [if_pos rfl]
      dsimp only
      rw [(irqdClr_kept _ d).td, if_neg (by rw [htd]; simp)]
      exact ⟨_, rfl, irqdClr_kept _ d, rfl, rfl⟩

/-- A turn for a descriptor that takes a timer is `rescale` of a cleared descriptor. -/
theorem restartIrq_takes (hd : c.takes d = true) : ∃ c₁, restartIrq H c d = c₁.rescale H d ∧
    Kept c c₁ ∧ c₁.rate = c.rate ∧ c₁.sys.k.tm = c.sys.k.tm := by
  unfold takes at hd
  rw [Bool.and_eq_true] at hd
  obtain ⟨huse, htd⟩ := hd
  unfold restartIrq reviveIrq
  by_cases hlt : d.val < 16
  · rw [if_pos hlt, Bool.not_eq_true'] at huse
    rw [if_pos hlt, huse, if_neg (by simp)]
    dsimp only
    rw [(irqdClr_kept _ d).td, if_pos htd]
    exact ⟨_, rfl, (mask_kept c _).trans (irqdClr_kept _ d), rfl, rfl⟩
  · rw [if_neg hlt] at huse
    rw [if_neg hlt, huse, if_pos rfl]
    dsimp only
    rw [(irqdClr_kept _ d).td, if_pos htd]
    exact ⟨_, rfl, irqdClr_kept _ d, rfl, rfl⟩

/-! ## The loop -/

/-- The descriptor gets a period that `MRT_vtimer_alloc` accepts. -/
def Accepted (c : Conf) (H : BitVec 32) (d : Irq) : Prop :=
  c.takes d = true → ∃ per, newPeriod (c.rate d) H = some per ∧ Fair per

/-- What the loop over `ds` does to the periods. -/
structure Converted (c c' : Conf) (H : BitVec 32) (ds : List Irq) : Prop where
  taken : ∀ d ∈ ds, c.takes d = true → newPeriod (c.rate d) H = some (c'.rate d).period
  other : ∀ d, (d ∈ ds → c.takes d = false) → c'.rate d = c.rate d

/-- A turn that skips its descriptor, and then the rest of the loop. -/
theorem Converted.skip {x : Irq} (hd : c.takes x = false)
    (hk : Kept c c₁) (hrate : c₁.rate = c.rate) (h : Converted c₁ c' H ds) :
    Converted c c' H (x :: ds) := by
  refine ⟨fun e he ht => ?_, fun e he => ?_⟩
  · rcases List.mem_cons.mp he with rfl | he
    · rw [hd] at ht
      cases ht
    · rw [← hrate]
      exact h.taken e he ((hk.takes e).trans ht)
  · rw [← hrate]
    exact h.other e (fun hm => (hk.takes e).trans (he (List.mem_cons_of_mem x hm)))

/-- A turn that converts its descriptor, and then the rest of the loop. -/
theorem Converted.cons {x : Irq} (hx : x ∉ ds)
    (hd : c.takes x = true) (ht : Turned c c₁ H x) (h : Converted c₁ c' H ds) :
    Converted c c' H (x :: ds) := by
  refine ⟨fun e he hte => ?_, fun e he => ?_⟩
  · by_cases hex : e = x
    · rw [hex, h.other x (fun hm => absurd hm hx)]
      exact ht.period
    · rw [← ht.other e hex]
      exact h.taken e ((List.mem_cons.mp he).resolve_left hex) ((ht.kept.takes e).trans hte)
  · have hex : e ≠ x := by
      rintro rfl
      rw [he List.mem_cons_self] at hd
      cases hd
    rw [← ht.other e hex]
    exact h.other e (fun hm => (ht.kept.takes e).trans (he (List.mem_cons_of_mem x hm)))

/-- The turns after the first one see the other descriptors as they were. -/
theorem Kept.accepted (hk : Kept c c') (hd : d ∉ ds) (hr : ∀ e, e ≠ d → c'.rate e = c.rate e) :
    (∀ e ∈ ds, c'.Accepted H e) ↔ ∀ e ∈ ds, c.Accepted H e := by
  refine forall₂_congr (fun e he => ?_)
  unfold Accepted
  rw [hk.takes, hr e (fun h => hd (h ▸ he))]

/-- **THE LOOP OF `MRT_restart`** returns exactly when all the new periods are accepted and
    there are timers for all. -/
theorem restartLoop_iff : ∀ (ds : List Irq) {c : Conf} {n : Nat}, ds.Nodup → n ≤ 16 →
    Armed c.sys.k.tm n →
    ((∃ c', ds.foldlM (restartIrq H) c = some c') ↔
      (∀ d ∈ ds, c.Accepted H d) ∧ n + ds.countP c.takes ≤ 16) ∧
    ∀ c', ds.foldlM (restartIrq H) c = some c' → Converted c c' H ds := by
  intro ds
  induction ds with
  | nil =>
    intro c n _ hn _
    refine ⟨iff_of_true ⟨c, rfl⟩ ⟨fun d hd => absurd hd List.not_mem_nil, hn⟩, fun c' h => ?_⟩
    cases h
    exact ⟨fun d hd => absurd hd List.not_mem_nil, fun d _ => rfl⟩
  | cons x ds ih =>
    intro c n hnd hn ha
    obtain ⟨hx, hnd⟩ := List.nodup_cons.mp hnd
    rw [List.foldlM_cons, List.forall_mem_cons]
    cases hd : c.takes x with
    | false =>
      obtain ⟨c₁, h1, hk, hrate, htm⟩ := restartIrq_skips (H := H) hd
      obtain ⟨hiff, hconv⟩ := ih hnd hn (htm ▸ ha)
      rw [h1, List.countP_cons_of_neg (by rw [hd]; simp)]
      refine ⟨?_, fun c' h => (hconv c' h).skip hd hk hrate⟩
      refine hiff.trans (and_congr ?_ (by rw [funext hk.takes]))
      rw [hk.accepted hx (fun e _ => congrFun hrate e)]
      exact ⟨fun h => ⟨fun ht => absurd ht (by rw [hd]; simp), h⟩, And.right⟩
    | true =>
      obtain ⟨c₁, h1, hk₁, hrate, htm⟩ := restartIrq_takes (H := H) hd
      rw [h1, List.countP_cons_of_pos hd]
      have ha₁ : Armed c₁.sys.k.tm n := htm ▸ ha
      by_cases hok : ∃ per, newPeriod (c₁.rate x) H = some per ∧ Fair per ∧ n < 16
      · obtain ⟨per, hnew, hper, hlt⟩ := hok
        obtain ⟨c₂, h2, ht₁, ha₂⟩ := rescale_turned ha₁ hlt hnew hper
        obtain ⟨hiff, hconv⟩ := ih hnd hlt ha₂
        have ht : Turned c c₂ H x :=
          ⟨hk₁.trans ht₁.kept, fun e he => by rw [ht₁.other e he, hrate], hrate ▸ ht₁.period⟩
        have hcnt : n + 1 + ds.countP c₂.takes ≤ 16 ↔ n + (ds.countP c.takes + 1) ≤ 16 := by
          rw [funext ht.kept.takes]
          omega
        rw [h2]
        refine ⟨?_, fun c' h => (hconv c' h).cons hx hd ht⟩
        refine hiff.trans (and_congr ?_ hcnt)
        rw [ht.kept.accepted hx ht.other]
        exact ⟨fun h => ⟨fun _ => ⟨per, hrate ▸ hnew, hper⟩, h⟩, And.right⟩
      · -- the allocation is refused: the panic
        rw [rescale_panics ha₁ hok]
        refine ⟨iff_of_false (fun h => ?_) (fun h => hok ?_), fun c' h => nomatch h⟩
        · obtain ⟨c', h⟩ := h
          cases h
        · obtain ⟨⟨hf, -⟩, hcnt⟩ := h
          obtain ⟨per, hnew, hper⟩ := hf hd
          exact ⟨per, hrate.symm ▸ hnew, hper, by omega⟩

/-! ## Before and after the loop -/

theorem idleInit_sys (c : Conf) (H R : BitVec 32) :
    (c.idleInit H R).sys = c.sys ∧ (c.idleInit H R).softUse = c.softUse := by
  unfold idleInit
  dsimp only
  split <;> exact ⟨rfl, rfl⟩

/-- What the loop finds: all timers free, the rates of `idleInit`, the lines of the PIC. -/
theorem beforeLoop (c : Conf) (H R : BitVec 32) (junk : BitVec 16) :
    ∃ c₁, (((c.sstatInit).procInit).idleInit H R).queueInit = some c₁ ∧
      Armed (c₁.irqQInit junk).sys.k.tm 0 ∧ (c₁.irqQInit junk).rate = (c.idleInit H R).rate ∧
      ∀ d, (c₁.irqQInit junk).takes d = ((if d.val < 16 then !c.sys.pic.getLsbD d.val
        else c.softUse.getLsbD (d.val - 16)) && (c.sys.desc d).td) := by
  obtain ⟨hsys, hsoft⟩ := idleInit_sys ((c.sstatInit).procInit) H R
  obtain ⟨tm, ha, hq⟩ := queueInit_armed (((c.sstatInit).procInit).idleInit H R)
  refine ⟨_, hq, ha, ?_, fun d => ?_⟩
  · show (idleInit ((c.sstatInit).procInit) H R).rate = _
    unfold idleInit
    dsimp only
    show (if c.refresh ≠ R then _ else _ : Conf).rate = (if c.refresh ≠ R then _ else _ : Conf).rate
    split <;> rfl
  · unfold takes irqQInit
    dsimp only
    rw [hsys, hsoft]
    by_cases hd : d.val < 16
    · rw [if_pos hd, if_pos hd, BitVec.getLsbD_append, if_pos hd]
      rfl
    · rw [if_neg hd, if_neg hd]
      rfl

/-- The timer and the pools leave the rates alone, and they succeed. -/
theorem afterLoop (c : Conf) (H : BitVec 32) :
    ∃ c', (c.startTimer H).poolInit = some c' ∧ c'.rate = c.rate := by
  have hms : MsgSt.init = some boot.ms := boot_initial.ms
  have hss : SemSt.init = some boot.ss := boot_initial.ss
  have hpool : (c.startTimer H).poolInit = some { c.startTimer H with
      sys := { (c.startTimer H).sys with
        k := { (c.startTimer H).sys.k with ms := boot.ms, ss := boot.ss } } } := by
    unfold poolInit
    rw [hms, hss]
    rfl
  refine ⟨_, hpool, ?_⟩
  show (c.startTimer H).rate = c.rate
  unfold startTimer
  dsimp only
  split <;> rfl

/-! ## The new periods -/

/-- A timer-driven descriptor: of a line, or of a software interrupt in use. -/
def Driven (c : Conf) (d : Irq) : Prop :=
  (c.sys.desc d).td = true ∧ (d.val < 16 ∨ c.softUse.getLsbD (d.val - 16) = true)

instance (c : Conf) (d : Irq) : Decidable (c.Driven d) := inferInstanceAs (Decidable (_ ∧ _))

/-- The line is masked in the PIC. -/
def Masked (c : Conf) (d : Irq) : Prop := d.val < 16 ∧ c.sys.pic.getLsbD d.val = true

instance (c : Conf) (d : Irq) : Decidable (c.Masked d) := inferInstanceAs (Decidable (_ ∧ _))

/-- The configuration before the restart: the idle descriptor is the timer-driven software
    interrupt of `MRT_vtimer_IDLE`, and the rates are those that the kernel accepts. -/
structure Rated (c : Conf) : Prop where
  harmonic : 1 ≤ c.harmonic.toNat ∧ c.harmonic.toNat ≤ 10000
  soft : 16 ≤ c.idleSoft.val
  idle : c.Driven c.idleSoft
  absolute : (c.rate c.idleSoft).relatper = false
  period : ∀ d, c.Driven d → 1 ≤ (c.rate d).period.toNat ∧ (c.rate d).period.toNat ≤ 10000
  base : ∀ d, c.Driven d → 1 ≤ (c.rate d).harmonic.toNat ∧ (c.rate d).harmonic.toNat ≤ 10000

/-- The period that the loop finds in a descriptor; the idle one has been set already. -/
def loopPeriod (c : Conf) (h r : Nat) (d : Irq) : Nat :=
  if d = c.idleSoft ∧ c.refresh.toNat ≠ r then r * c.harmonic.toNat / h
  else (c.rate d).period.toNat

/-- The period that the loop leaves in a descriptor that gets a timer. -/
def newTicks (c : Conf) (h r : Nat) (d : Irq) : Nat :=
  if (c.rate d).relatper then c.loopPeriod h r d
  else c.loopPeriod h r d * h / (c.rate d).harmonic.toNat

/-- Products of two rates do not wrap. -/
theorem mul_rates {x y : BitVec 32} (hx : x.toNat ≤ 10000) (hy : y.toNat ≤ 10000) :
    (x * y).toNat = x.toNat * y.toNat := by
  rw [BitVec.toNat_mul]
  refine Nat.mod_eq_of_lt (lt_of_le_of_lt (Nat.mul_le_mul hx hy) (by decide))

variable {h r : Nat}

theorem idleInit_rate (hc : c.Rated) (hR : R.toNat ≤ 10000) (d : Irq) :
    ((c.idleInit H R).rate d).period.toNat = c.loopPeriod H.toNat R.toNat d ∧
      ((c.idleInit H R).rate d).harmonic = (c.rate d).harmonic ∧
      ((c.idleInit H R).rate d).relatper = (c.rate d).relatper := by
  have hne : c.refresh.toNat ≠ R.toNat ↔ c.refresh ≠ R := not_congr BitVec.toNat_inj
  unfold idleInit loopPeriod
  dsimp only
  by_cases hr : c.refresh = R
  · rw [if_neg (not_not.mpr hr), if_neg (fun hm => hne.mp hm.2 hr)]
    exact ⟨rfl, rfl, rfl⟩
  · rw [if_pos hr]
    unfold updRate
    dsimp only
    by_cases hd : d = c.idleSoft
    · rw [if_pos ⟨hd, hne.mpr hr⟩, hd, update_self]
      refine ⟨?_, rfl, rfl⟩
      show (R * c.harmonic / H).toNat = _
      rw [BitVec.toNat_udiv, mul_rates hR hc.harmonic.2]
    · rw [if_neg (fun hm => hd hm.1), update_of_ne hd]
      exact ⟨rfl, rfl, rfl⟩

/-- The period of the loop times the harmonic stays in 32 bits. -/
theorem loopPeriod_mul (hc : c.Rated) (hd : c.Driven d) (hh : h ≤ 10000) (hr : r ≤ 10000) :
    c.loopPeriod h r d * h < 2 ^ 32 := by
  unfold loopPeriod
  split
  · calc r * c.harmonic.toNat / h * h ≤ r * c.harmonic.toNat := Nat.div_mul_le_self _ _
      _ ≤ 10000 * 10000 := Nat.mul_le_mul hr hc.harmonic.2
      _ < 2 ^ 32 := by decide
  · exact lt_of_le_of_lt (Nat.mul_le_mul (hc.period d hd).2 hh) (by decide)

/-- **THE CONVERSION** of the machine is the one over the natural numbers. -/
theorem newPeriod_idle (hc : c.Rated) (hd : c.Driven d) (hH : H.toNat ≤ 10000)
    (hR : R.toNat ≤ 10000) : ∃ per, newPeriod ((c.idleInit H R).rate d) H = some per ∧
      per.toNat = c.newTicks H.toNat R.toNat d := by
  obtain ⟨hper, hharm, hrel⟩ := idleInit_rate (H := H) hc hR d
  have hz : (c.rate d).harmonic ≠ 0 := by
    intro hz
    have hb := (hc.base d hd).1
    rw [hz] at hb
    exact absurd hb (by decide)
  unfold newPeriod newTicks
  rw [hrel, hharm, ← hper]
  cases (c.rate d).relatper with
  | true => exact ⟨_, rfl, rfl⟩
  | false =>
    refine ⟨_, if_neg hz, ?_⟩
    rw [BitVec.toNat_udiv, BitVec.toNat_mul, if_neg (by simp)]
    rw [Nat.mod_eq_of_lt]
    rw [hper]
    exact loopPeriod_mul hc hd hH hR

/-! ## The restart -/

/-- The restart gives the descriptor a timer. -/
def Revived (c : Conf) (d : Irq) : Prop := c.Driven d ∧ ¬ c.Masked d

instance (c : Conf) (d : Irq) : Decidable (c.Revived d) := inferInstanceAs (Decidable (_ ∧ _))

theorem revived_iff : ((if d.val < 16 then !c.sys.pic.getLsbD d.val
    else c.softUse.getLsbD (d.val - 16)) && (c.sys.desc d).td) = true ↔ c.Revived d := by
  unfold Revived Driven Masked
  by_cases hd : d.val < 16
  all_goals simp [hd, and_comm]

theorem Rated.idle_revived (hc : c.Rated) : c.Revived c.idleSoft :=
  ⟨hc.idle, fun hm => absurd hm.1 (not_lt.mpr hc.soft)⟩

/-- **WHEN `MRT_restart` RETURNS**, and the periods it leaves. -/
theorem doRestart_iff (hc : c.Rated) (hH : H.toNat ≤ 10000) (hR : R.toNat ≤ 10000)
    (junk : BitVec 16) :
    ((∃ c', c.doRestart H R junk = some c') ↔
      (∀ d, c.Revived d → 1 ≤ c.newTicks H.toNat R.toNat d ∧
        c.newTicks H.toNat R.toNat d ≤ 10000) ∧
      (List.finRange 32).countP (fun d => decide (c.Revived d)) ≤ 16) ∧
    ∀ c', c.doRestart H R junk = some c' → ∀ d, (c'.rate d).period.toNat =
      if c.Revived d then c.newTicks H.toNat R.toNat d else c.loopPeriod H.toNat R.toNat d := by
  obtain ⟨c₁, h1, ha, hrate, htakes⟩ := beforeLoop c H R junk
  have htk : ∀ d, (c₁.irqQInit junk).takes d = true ↔ c.Revived d := by
    intro d
    rw [htakes d]
    exact revived_iff
  have hfun : (c₁.irqQInit junk).takes = fun d => decide (c.Revived d) := by
    funext d
    rw [Bool.eq_iff_iff, htk d, decide_eq_true_iff]
  obtain ⟨hloop, hconv⟩ := restartLoop_iff (H := H) (List.finRange 32) (List.nodup_finRange 32)
    (Nat.zero_le 16) ha
  have hacc : (∀ d ∈ List.finRange 32, (c₁.irqQInit junk).Accepted H d) ↔
      ∀ d, c.Revived d → 1 ≤ c.newTicks H.toNat R.toNat d ∧
        c.newTicks H.toNat R.toNat d ≤ 10000 := by
    refine ⟨fun h d hd => ?_, fun h d _ hd => ?_⟩
    · obtain ⟨per, hnew, hfair⟩ := h d (List.mem_finRange d) ((htk d).mpr hd)
      obtain ⟨per', hnew', hval⟩ := newPeriod_idle hc hd.1 hH hR
      rw [hrate, hnew'] at hnew
      rw [← hval, some.inj hnew]
      exact fair_iff.mp hfair
    · obtain ⟨per, hnew, hval⟩ := newPeriod_idle hc ((htk d).mp hd).1 hH hR
      refine ⟨per, hrate.symm ▸ hnew, fair_iff.mpr ?_⟩
      rw [hval]
      exact h d ((htk d).mp hd)
  rw [hacc, hfun, Nat.zero_add] at hloop
  -- the whole of the restart, given its loop
  have hall : ∀ c', c.doRestart H R junk = some c' → ∃ c₂,
      (List.finRange 32).foldlM (restartIrq H) (c₁.irqQInit junk) = some c₂ ∧
        c'.rate = c₂.rate := by
    intro c' h
    unfold doRestart at h
    rw [h1] at h
    simp only [bind_eq_bind, bind_some, bind_eq_some_iff] at h
    obtain ⟨c₂, h2, h3⟩ := h
    obtain ⟨c'', h4, hr⟩ := afterLoop c₂ H
    cases h4.symm.trans h3
    exact ⟨c₂, h2, hr⟩
  refine ⟨⟨fun ⟨c', h⟩ => ?_, fun h => ?_⟩, fun c' h d => ?_⟩
  · obtain ⟨c₂, h2, -⟩ := hall c' h
    exact hloop.mp ⟨c₂, h2⟩
  · obtain ⟨c₂, h2⟩ := hloop.mpr h
    obtain ⟨c', h3, -⟩ := afterLoop c₂ H
    refine ⟨c', ?_⟩
    unfold doRestart
    rw [h1]
    simp only [bind_eq_bind, bind_some, h2, h3]
  · obtain ⟨c₂, h2, hr⟩ := hall c' h
    have hc₂ := hconv c₂ h2
    rw [hr]
    by_cases hd : c.Revived d
    · obtain ⟨per, hnew, hval⟩ := newPeriod_idle hc hd.1 hH hR
      have hper := hc₂.taken d (List.mem_finRange d) ((htk d).mpr hd)
      rw [hrate, hnew] at hper
      rw [if_pos hd, ← hval, some.inj hper]
    · have hskip : (c₁.irqQInit junk).takes d = false :=
        Bool.eq_false_iff.mpr (fun ht => hd ((htk d).mp ht))
      rw [if_neg hd, hc₂.other d (fun _ => hskip), hrate]
      exact (idleInit_rate hc hR d).1

/-- The periods as a restart with harmonic `h` and refresh `r` should leave them: exactly
    `r` for the idle descriptor, the scaled one for the others. -/
structure Rescaled (c : Conf) (h r : Nat) (c' : Conf) : Prop where
  idle : (c'.rate c.idleSoft).period.toNat = r
  scaled : ∀ d, c.Driven d → d ≠ c.idleSoft → (c.rate d).relatper = false →
    (c'.rate d).period.toNat = (c.rate d).period.toNat * h / (c.rate d).harmonic.toNat ∧
    1 ≤ (c'.rate d).period.toNat ∧ (c'.rate d).period.toNat ≤ 10000

/-- The condition.  Sixteen timers suffice; the two conversions of the idle period lose
    nothing; every other period stays in the range, and that of a masked line does not
    change. -/
structure Rescalable (c : Conf) (h r : Nat) : Prop where
  timers : (List.finRange 32).countP (fun d => decide (c.Revived d)) ≤ 16
  idle : c.loopPeriod h r c.idleSoft * h / (c.rate c.idleSoft).harmonic.toNat = r
  range : ∀ d, c.Driven d → d ≠ c.idleSoft → (c.rate d).relatper = false →
    1 ≤ (c.rate d).period.toNat * h / (c.rate d).harmonic.toNat ∧
    (c.rate d).period.toNat * h / (c.rate d).harmonic.toNat ≤ 10000
  masked : ∀ d, c.Driven d → c.Masked d → (c.rate d).relatper = false →
    (c.rate d).period.toNat * h / (c.rate d).harmonic.toNat = (c.rate d).period.toNat

theorem newTicks_idle (hc : c.Rated) : c.newTicks h r c.idleSoft
    = c.loopPeriod h r c.idleSoft * h / (c.rate c.idleSoft).harmonic.toNat := by
  unfold newTicks
  rw [hc.absolute, if_neg (by simp)]

theorem loopPeriod_other (hd : d ≠ c.idleSoft) : c.loopPeriod h r d = (c.rate d).period.toNat :=
  if_neg (fun hm => hd hm.1)

theorem newTicks_other (hd : d ≠ c.idleSoft) (hrel : (c.rate d).relatper = false) :
    c.newTicks h r d = (c.rate d).period.toNat * h / (c.rate d).harmonic.toNat := by
  unfold newTicks
  rw [hrel, if_neg (by simp), loopPeriod_other hd]

/-- A masked line is not the idle descriptor. -/
theorem Rated.masked_ne (hc : c.Rated) (hm : c.Masked d) : d ≠ c.idleSoft := by
  rintro rfl
  exact absurd hm.1 (not_lt.mpr hc.soft)

theorem doRestart_rescales_iff (hc : c.Rated) (hH : H.toNat ≤ 10000) (hR : R.toNat ≤ 10000)
    (hpos : 1 ≤ R.toNat) (junk : BitVec 16) :
    (∃ c', c.doRestart H R junk = some c' ∧ c.Rescaled H.toNat R.toNat c') ↔
      c.Rescalable H.toNat R.toNat := by
  obtain ⟨hiff, hval⟩ := doRestart_iff hc hH hR junk
  constructor
  · rintro ⟨c', hs, hres⟩
    obtain ⟨-, hcount⟩ := hiff.mp ⟨c', hs⟩
    refine ⟨hcount, ?_, fun d hd hne hrel => ?_, fun d hd hm hrel => ?_⟩
    · have hidle := hval c' hs c.idleSoft
      rw [if_pos hc.idle_revived, hres.idle, newTicks_idle hc] at hidle
      exact hidle.symm
    · obtain ⟨heq, hrange⟩ := hres.scaled d hd hne hrel
      rw [← heq]
      exact hrange
    · have hne := hc.masked_ne hm
      rw [← (hres.scaled d hd hne hrel).1, hval c' hs, if_neg (fun hr => hr.2 hm),
        loopPeriod_other hne]
  · intro hok
    have hrange : ∀ d, c.Revived d → 1 ≤ c.newTicks H.toNat R.toNat d ∧
        c.newTicks H.toNat R.toNat d ≤ 10000 := by
      intro d hd
      by_cases hne : d = c.idleSoft
      · rw [hne, newTicks_idle hc, hok.idle]
        exact ⟨hpos, hR⟩
      · cases hrel : (c.rate d).relatper with
        | false =>
          rw [newTicks_other hne hrel]
          exact hok.range d hd.1 hne hrel
        | true =>
          unfold newTicks
          rw [hrel, if_pos rfl, loopPeriod_other hne]
          exact hc.period d hd.1
    obtain ⟨c', hs⟩ := hiff.mpr ⟨hrange, hok.timers⟩
    refine ⟨c', hs, ?_, fun d hd hne hrel => ?_⟩
    · rw [hval c' hs, if_pos hc.idle_revived, newTicks_idle hc, hok.idle]
    · have hper : (c'.rate d).period.toNat
          = (c.rate d).period.toNat * H.toNat / (c.rate d).harmonic.toNat := by
        rw [hval c' hs]
        by_cases hm : c.Masked d
        · rw [if_neg (fun hr => hr.2 hm), loopPeriod_other hne, hok.masked d hd hm hrel]
        · rw [if_pos ⟨hd, hm⟩, newTicks_other hne hrel]
      exact ⟨hper, hper ▸ hok.range d hd hne hrel⟩

/-- **RESCALING.**  For every harmonic and refresh that `MRT_restart` accepts, it returns
    with the idle period exactly the refresh and every other period scaled and in range
    EXACTLY under the condition. -/
theorem restart_rescales_iff (hc : c.Rated) (hrt : ∀ p, (c.sys.k.procs p).realtime = false)
    {harmonic refresh : Int} (hH : 0 < harmonic ∧ harmonic ≤ 10000)
    (hR : 0 < refresh ∧ refresh ≤ 10000) (junk : BitVec 16) :
    (∃ c', c.restart harmonic refresh junk = some (c', .ok) ∧
      c.Rescaled harmonic.toNat refresh.toNat c') ↔
        c.Rescalable harmonic.toNat refresh.toNat := by
  have hof : ∀ {x : Int}, 0 < x ∧ x ≤ 10000 → (BitVec.ofInt 32 x).toNat = x.toNat := by
    intro x hx
    rw [BitVec.toNat_ofInt, Int.emod_eq_of_lt (by omega) (by norm_num; omega)]
  have hres : c.restart harmonic refresh junk
      = (c.doRestart (BitVec.ofInt 32 harmonic) (BitVec.ofInt 32 refresh) junk).map (·, .ok) := by
    unfold restart
    rw [if_neg (by omega), if_neg (by omega), if_neg]
    rintro ⟨p, hp⟩
    rw [hrt p] at hp
    cases hp
  have hmain := doRestart_rescales_iff (H := BitVec.ofInt 32 harmonic)
    (R := BitVec.ofInt 32 refresh) hc (by rw [hof hH]; omega) (by rw [hof hR]; omega)
    (by rw [hof hR]; omega) junk
  rw [hof hH, hof hR] at hmain
  rw [← hmain, hres]
  refine exists_congr (fun c' => and_congr_left (fun _ => ?_))
  rw [map_eq_some_iff]
  constructor
  · rintro ⟨c'', h, heq⟩
    cases heq
    exact h
  · intro h
    exact ⟨c', h, rfl⟩

/-- Harmonic 1, with the rates that `clock_task` asks for: the MINIX clock with period 1 is
    software interrupt 16, and the idle refresh with period `HZ` is 17.  (`MRT_irqd_set` itself
    panics for the task `IDLE` of the refresh, which is no RT process.) -/
def softClocks : Conf :=
  { sys := { Sys.twoRtLines with
      k := { KState.bss with rtMode := false }
      desc := fun d => { Sys.plainIrqd true 15 with td := 16 ≤ d.val, soft := 16 ≤ d.val } },
    rate := fun d => { period := if d = 17 then 50 else 1, harmonic := 1, relatper := false,
                       pvt := none },
    hardUse := 0, softUse := 3, idleSoft := 17, harmonic := 1, refresh := 50, tickrate := 50,
    pitLatch := 0, tick2Hz := 0, oneshots := 0 }

theorem softClocks_rated : softClocks.Rated := by
  have hrate : ∀ d, (1 ≤ (softClocks.rate d).period.toNat ∧
      (softClocks.rate d).period.toNat ≤ 10000) ∧ 1 ≤ (softClocks.rate d).harmonic.toNat ∧
      (softClocks.rate d).harmonic.toNat ≤ 10000 := by decide +kernel
  exact ⟨by decide, by decide, by decide, rfl, fun d _ => (hrate d).1, fun d _ => (hrate d).2⟩

/-- Harmonic 4 and refresh 100: the clock of MINIX gets period 4, the idle refresh 100. -/
theorem restart_rescales_four : softClocks.Rated ∧
    ∃ c', softClocks.restart 4 100 0 = some (c', .ok) ∧ softClocks.Rescaled 4 100 c' := by
  have hrange : ∀ d : Irq, d ≠ 17 → 1 ≤ (softClocks.rate d).period.toNat * 4 /
      (softClocks.rate d).harmonic.toNat ∧ (softClocks.rate d).period.toNat * 4 /
      (softClocks.rate d).harmonic.toNat ≤ 10000 := by decide +kernel
  have hopen : ∀ d, ¬ softClocks.Masked d := by decide +kernel
  have hok : softClocks.Rescalable 4 100 :=
    ⟨by decide +kernel, by decide +kernel, fun d _ hne _ => hrange d hne,
      fun d _ hm => absurd hm (hopen d)⟩
  have hH : (0 : Int) < 4 ∧ (4 : Int) ≤ 10000 := by decide
  have hR : (0 : Int) < 100 ∧ (100 : Int) ≤ 10000 := by decide
  exact ⟨softClocks_rated, (restart_rescales_iff softClocks_rated (fun _ => rfl) hH hR 0).mpr hok⟩

/-- **THE DEFECT.**  From the same configuration, harmonic 100 and refresh 75 end in the
    panic, since the idle period is first divided to 0; harmonic 2 and refresh 75 give the
    idle period 74; and harmonic 4 with the refresh as it was gives 200 in place of 50. -/
theorem idle_refresh_lost : softClocks.Rated ∧ softClocks.restart 100 75 0 = none ∧
    (∃ c', softClocks.restart 2 75 0 = some (c', .ok) ∧ (c'.rate 17).period = 74) ∧
    ∃ c', softClocks.restart 4 50 0 = some (c', .ok) ∧ (c'.rate 17).period = 200 := by
  have hnone : (softClocks.restart 100 75 0).isNone = true := by decide +kernel
  have hshort : (softClocks.restart 2 75 0).any (fun r => decide (r.2 = .ok ∧
      (r.1.rate 17).period = 74)) = true := by decide +kernel
  have hlong : (softClocks.restart 4 50 0).any (fun r => decide (r.2 = .ok ∧
      (r.1.rate 17).period = 200)) = true := by decide +kernel
  obtain ⟨⟨c₁, o₁⟩, h1, hp1⟩ := (any_eq_true _ _).mp hshort
  obtain ⟨⟨c₂, o₂⟩, h2, hp2⟩ := (any_eq_true _ _).mp hlong
  obtain ⟨rfl, hp1⟩ := of_decide_eq_true hp1
  obtain ⟨rfl, hp2⟩ := of_decide_eq_true hp2
  exact ⟨softClocks_rated, isNone_iff_eq_none.mp hnone, ⟨c₁, h1, hp1⟩, c₂, h2, hp2⟩

end Conf

end Kernel
