import Minix4rt.IrqQueueProofs
import Minix4rt.RestartModelProofs

/-! # The table of interrupt masks — which lines may interrupt at which level

    `MRT_si.mask[p]` is meant to hold the configured lines of priority `p` or better.
    `MRT_irqd_set` and `MRT_restart` only add bits to it, and `MRT_setiattr` changes a
    priority without looking at it.

    The levels are NESTED along every sequence of calls.  The table is exact as long as
    no configured line gets a worse priority or one by `MRT_setiattr`, and `MRT_restart`
    finds just the configured lines enabled in the PIC. -/

namespace Kernel

open ListPool Vtimer Function Option

/-! ## Adding a line -/

/-- Every line of a level is one of the later levels too. -/
def Nested (mask : Prty → BitVec 32) : Prop :=
  ∀ p q, p ≤ q → ∀ b, (mask p).getLsbD b = true → (mask q).getLsbD b = true

variable {mask : Prty → BitVec 32} {k p : Prty}
variable {d : Irq} {irq : Int} {H : BitVec 32} {junk : BitVec 16}

/-- In a nested table the first loop changes nothing. -/
theorem Nested.orLower (h : Nested mask) (k : Prty) : orLower mask k = mask := by
  have hfold : ∀ ps : List Prty, (∀ p ∈ ps, p < k) →
      ps.foldl (fun (m : Prty → BitVec 32) p => update m k (m k ||| m p)) mask = mask := by
    intro ps
    induction ps with
    | nil =>
      intro _
      rfl
    | cons p ps ih =>
      intro hps
      have hor : mask k ||| mask p = mask k := by
        refine BitVec.eq_of_getLsbD_eq (fun b _ => ?_)
        have hpk := h p k (le_of_lt (hps p List.mem_cons_self)) b
        rw [BitVec.getLsbD_or]
        cases hb : (mask p).getLsbD b with
        | false => rw [Bool.or_false]
        | true => rw [hpk hb, Bool.or_true]
      rw [List.foldl_cons, hor, update_eq_self]
      exact ih (fun q hq => hps q (List.mem_cons_of_mem p hq))
  exact hfold _ (fun p hp => of_decide_eq_true (List.mem_filter.mp hp).2)

theorem Nested.getLsbD_addLine (h : Nested mask) (k : Prty) (l : BitVec 32) (p : Prty) (b : Nat) :
    (addLine mask k l p).getLsbD b = ((mask p).getLsbD b || (decide (k ≤ p) && l.getLsbD b)) := by
  rw [addLine, h.orLower k]
  by_cases hk : k ≤ p
  · simp [hk]
  · simp [hk]

theorem Nested.addLine (h : Nested mask) (k : Prty) (l : BitVec 32) :
    Nested (addLine mask k l) := by
  intro p q hpq b hb
  rw [h.getLsbD_addLine] at hb ⊢
  rw [Bool.or_eq_true, Bool.and_eq_true, decide_eq_true_eq] at hb ⊢
  rcases hb with hb | ⟨hk, hb⟩
  · exact .inl (h p q hpq b hb)
  · exact .inr ⟨le_trans hk hpq, hb⟩

theorem nested_zero : Nested (fun _ => 0) := by
  intro p q _ b hb
  simp at hb

theorem Line.irq_inj {i j : Line} : i.irq = j.irq ↔ i = j := by
  constructor
  · intro h
    exact Fin.ext (congrArg (fun d : Irq => d.val) h)
  · rintro rfl
    rfl

/-- A descriptor is one of a line exactly when its index is below 16. -/
theorem Line.of_lt (h : d.val < 16) : ∃ i : Line, d = i.irq :=
  ⟨⟨d.val, h⟩, rfl⟩

theorem Sys.getLsbD_bit (d : Irq) (b : Nat) : (Sys.bit d).getLsbD b = decide (b = d.val) := by
  have hd := d.isLt
  rw [Sys.bit, BitVec.getLsbD_twoPow]
  by_cases hb : b = d.val
  · simp [hb, hd]
  · simp [hb, Ne.symm hb]

namespace Conf

variable {c c' c₀ : Conf} {o : ConfOp} {i : Line}

/-- The line has been configured by `MRT_irqd_set`. -/
def configured (c : Conf) (i : Line) : Bool := c.hardUse.getLsbD i.val

/-- The priority of a line. -/
def prty (c : Conf) (i : Line) : Prty := (c.sys.desc i.irq).priority

/-- The table holds at level `p` just the configured lines of priority `p` or better; the
    cascade line is left aside. -/
def MaskOk (c : Conf) : Prop :=
  ∀ p i, i ≠ cascadeLine →
    (c.sys.mask p).getLsbD i.val = (c.configured i && decide (c.prty i ≤ p))

/-! ## What the calls do -/

/-- `MRT_irqd_set` refuses the priority and changes nothing, or writes the descriptor. -/
theorem irqdSet_inv {a : IrqdArg} (h : c.irqdSet irq a = some c') :
    (c' = c ∧ ((irq ≠ 0 ∧ a.priority = 0) ∨ prtyOf a.priority = none)) ∨
      ∃ d k, tabAddr 32 irq = some d ∧ ¬ (irq ≠ 0 ∧ a.priority = 0) ∧
        prtyOf a.priority = some k ∧
        c'.sys.desc = update c.sys.desc d (a.irqd k (c.sys.desc d)) ∧
        c'.sys.mask = (if d.val < 16 then addLine c.sys.mask k (Sys.bit d) else c.sys.mask) ∧
        c'.hardUse = (if d.val < 16 then c.hardUse ||| Sys.bit d else c.hardUse) := by
  obtain ⟨d, hd, h⟩ := bind_eq_some_iff.mp h
  split at h
  · cases h
  split at h
  · rename_i hlow
    cases h
    exact .inl ⟨rfl, .inl hlow⟩
  rename_i hlow
  split at h
  · rename_i hk
    cases h
    exact .inl ⟨rfl, .inr hk⟩
  · rename_i k hk
    obtain ⟨-, -, rfl⟩ := map_eq_some_iff.mp h
    exact .inr ⟨d, k, hd, hlow, hk, rfl, rfl, rfl⟩

/-- `MRT_setiattr`: it is refused and changes nothing, or the line gets the priority. -/
theorem setiattr_cases {v : Env} {caller : Proc} {a : IAttr} {per : BitVec 32}
    {r : Conf × IrqCode} (h : c.setiattr v caller irq a per = some r) :
    (r.2 ≠ .ok ∧ r.1.sys = c.sys ∧ r.1.hardUse = c.hardUse) ∨
      ∃ i k, r.2 = .ok ∧ tabAddr 16 irq = some i ∧ prtyOf a.priority = some k ∧
        r.1.sys = c.sys.upd (Line.irq i) (Sys.attrSet a k) ∧ r.1.hardUse = c.hardUse := by
  obtain ⟨⟨s, code⟩, hs, rfl⟩ := map_eq_some_iff.mp h
  rcases Sys.setiattr_inv hs with ⟨hne, rfl⟩ | ⟨i, k, rfl, hi, hk, rfl⟩
  · refine .inl ?_
    split
    · rename_i heq _
      exact absurd heq hne
    · exact ⟨hne, rfl, rfl⟩
  · refine .inr ⟨i, k, ?_⟩
    rw [hi]
    exact ⟨rfl, rfl, hk, rfl, rfl⟩

/-- What `MRT_restart` does not touch: the priorities, and which lines are in use. -/
structure SameLines (c c' : Conf) : Prop where
  hard : c'.hardUse = c.hardUse
  prty : ∀ i, c'.prty i = c.prty i

theorem SameLines.trans {c₁ c₂ c₃ : Conf} (h : SameLines c₁ c₂) (h' : SameLines c₂ c₃) :
    SameLines c₁ c₃ :=
  ⟨h'.hard.trans h.hard, fun i => (h'.prty i).trans (h.prty i)⟩

/-- A descriptor in use is cleared and rescaled: the lines, the masks and the PIC stay. -/
theorem reviveIrq_same (h : c.reviveIrq H d = some c') :
    SameLines c c' ∧ c'.sys.mask = c.sys.mask ∧ c'.sys.realPIC = c.sys.realPIC := by
  have hclr : SameLines c (c.irqdClr d) := by
    refine ⟨rfl, fun i => ?_⟩
    unfold Conf.prty irqdClr Sys.upd
    by_cases hi : i.irq = d
    · simp [hi]
    · simp [hi]
  unfold reviveIrq at h
  dsimp only at h
  split at h
  · unfold rescale at h
    simp only [bind_eq_bind, bind_eq_some_iff, some.injEq] at h
    obtain ⟨per, -, ⟨o, tm⟩, -, pvt, -, tm', -, rfl⟩ := h
    exact ⟨⟨hclr.hard, hclr.prty⟩, rfl, rfl⟩
  · cases h
    exact ⟨hclr, rfl, rfl⟩

/-- The table after the loop of `MRT_restart` over the descriptors `done`. -/
structure Rebuilt (c₀ : Conf) (done : List Irq) (c : Conf) : Prop where
  same : SameLines c₀ c
  pic : c.sys.realPIC = c₀.sys.realPIC
  nested : Nested c.sys.mask
  mask : ∀ p i, i ≠ cascadeLine → (c.sys.mask p).getLsbD i.val
    = (decide (i.irq ∈ done) && !c₀.sys.realPIC.getLsbD i.val && decide (c₀.prty i ≤ p))

theorem Rebuilt.step {done : List Irq} (hd : d ∉ done) (h : Rebuilt c₀ done c)
    (hs : c.restartIrq H d = some c') : Rebuilt c₀ (d :: done) c' := by
  -- a descriptor that is skipped is not one of an enabled line
  have hskip : (∀ i : Line, i.irq = d → c₀.sys.realPIC.getLsbD i.val = true) →
      SameLines c c' → c'.sys.mask = c.sys.mask → c'.sys.realPIC = c.sys.realPIC →
      Rebuilt c₀ (d :: done) c' := by
    intro hoff hsame hm hp
    refine ⟨h.same.trans hsame, hp.trans h.pic, hm ▸ h.nested, fun p i hi => ?_⟩
    rw [hm, h.mask p i hi]
    by_cases hid : i.irq = d
    · rw [hoff i hid]
      simp
    · simp [hid]
  have hrefl : SameLines c c := ⟨rfl, fun _ => rfl⟩
  unfold restartIrq at hs
  split at hs
  · rename_i hlt
    split at hs
    · rename_i hoff
      cases hs
      refine hskip (fun i hi => ?_) hrefl rfl rfl
      rw [h.pic, ← hi] at hoff
      exact hoff
    · rename_i hon
      obtain ⟨l, rfl⟩ := Line.of_lt hlt
      obtain ⟨hsame, hm, hp⟩ := reviveIrq_same hs
      have hs0 : SameLines c c' := ⟨hsame.hard, hsame.prty⟩
      refine ⟨h.same.trans hs0, hp.trans h.pic, hm ▸ h.nested.addLine _ _, fun p i hi => ?_⟩
      have hcas : (Sys.bit cascadeLine.irq).getLsbD i.val = false := by
        rw [Sys.getLsbD_bit, decide_eq_false_iff_not]
        exact fun he => hi (Fin.ext he)
      rw [hm]
      show (addLine c.sys.mask (c.prty l) _ p).getLsbD i.val = _
      rw [h.nested.getLsbD_addLine, h.mask p i hi, BitVec.getLsbD_or, hcas, Bool.or_false,
        Sys.getLsbD_bit, h.same.prty l]
      by_cases hil : i = l
      · subst hil
        rw [h.pic] at hon
        have hon : c₀.sys.realPIC.getLsbD i.val = false := Bool.eq_false_iff.mpr hon
        have hmem : decide (i.irq ∈ done) = false := by simpa using hd
        have hval : i.irq.val = i.val := rfl
        simp [hon, hmem, hval]
      · have hne : ¬ i.irq = l.irq := fun he => hil (Line.irq_inj.mp he)
        have hval : ¬ i.val = l.irq.val := fun he => hil (Fin.ext he)
        simp [hne, hval]
  · rename_i hge
    have hoff : ∀ i : Line, i.irq = d → c₀.sys.realPIC.getLsbD i.val = true := by
      rintro i rfl
      exact absurd i.isLt hge
    split at hs
    · obtain ⟨hsame, hm, hp⟩ := reviveIrq_same hs
      exact hskip hoff hsame hm hp
    · cases hs
      exact hskip hoff hrefl rfl rfl

/-- The part of `MRT_restart` before the loop over the descriptors. -/
theorem irqQInit_rebuilt {R : BitVec 32} {c₁ : Conf} (junk : BitVec 16)
    (h : ((c.sstatInit.procInit).idleInit H R).queueInit = some c₁) :
    SameLines c (c₁.irqQInit junk) ∧ Rebuilt (c₁.irqQInit junk) [] (c₁.irqQInit junk) ∧
      ∀ i : Line, (c₁.irqQInit junk).sys.realPIC.getLsbD i.val = c.sys.pic.getLsbD i.val := by
  unfold queueInit at h
  dsimp only at h
  obtain ⟨tm, -, rfl⟩ := map_eq_some_iff.mp h
  have hidle : ((c.sstatInit.procInit).idleInit H R).sys.desc = c.sys.desc ∧
      ((c.sstatInit.procInit).idleInit H R).sys.pic = c.sys.pic ∧
      ((c.sstatInit.procInit).idleInit H R).hardUse = c.hardUse := by
    unfold idleInit
    dsimp only
    split <;> exact ⟨rfl, rfl, rfl⟩
  obtain ⟨hdesc, hpic, huse⟩ := hidle
  refine ⟨⟨huse, fun i => ?_⟩, ⟨⟨rfl, fun _ => rfl⟩, rfl, nested_zero, fun p i _ => ?_⟩,
    fun i => ?_⟩
  · show (((c.sstatInit.procInit).idleInit H R).sys.desc i.irq).priority = _
    rw [hdesc]
    rfl
  · simp [irqQInit]
  · show (junk ++ ((c.sstatInit.procInit).idleInit H R).sys.pic).getLsbD i.val = _
    rw [hpic, BitVec.getLsbD_append, if_pos i.isLt]

theorem startTimer_same (c : Conf) (H : BitVec 32) :
    SameLines c (c.startTimer H) ∧ (c.startTimer H).sys.mask = c.sys.mask := by
  have hlvl : ∀ (s : Sys) (p : Prty), (s.prtylvlSet p).desc = s.desc ∧
      (s.prtylvlSet p).mask = s.mask := by
    intro s p
    unfold Sys.prtylvlSet
    dsimp only
    split <;> exact ⟨rfl, rfl⟩
  obtain ⟨hd, hm⟩ := hlvl { c.sys with k := { c.sys.k with rtMode := true } } priLowest
  unfold startTimer
  dsimp only
  split <;> exact ⟨⟨rfl, fun i => congrArg (fun f => (f i.irq).priority) hd⟩, hm⟩

/-- **THE TABLE AFTER `MRT_restart`** has the lines that are enabled in the PIC. -/
theorem doRestart_mask {R : BitVec 32} (h : c.doRestart H R junk = some c') :
    SameLines c c' ∧ Nested c'.sys.mask ∧ ∀ p i, i ≠ cascadeLine →
      (c'.sys.mask p).getLsbD i.val = (!c.sys.pic.getLsbD i.val && decide (c.prty i ≤ p)) := by
  unfold doRestart at h
  simp only [bind_eq_bind, bind_eq_some_iff] at h
  obtain ⟨c₁, h1, c₂, h2, h3⟩ := h
  obtain ⟨hsame, hbuilt, hpic⟩ := irqQInit_rebuilt junk h1
  have hloop := foldlM_invariant (f := restartIrq H) (I := Rebuilt (c₁.irqQInit junk))
    (fun hd hi hs => hi.step hd hs) (by simpa using List.nodup_finRange 32) hbuilt h2
  -- the timer and the pools leave the table alone
  have hlast : SameLines c₂ c' ∧ c'.sys.mask = c₂.sys.mask := by
    unfold poolInit at h3
    simp only [bind_eq_bind, bind_eq_some_iff, some.injEq] at h3
    obtain ⟨ms, -, ss, -, rfl⟩ := h3
    obtain ⟨hst, hmt⟩ := startTimer_same c₂ H
    exact ⟨⟨hst.hard, hst.prty⟩, hmt⟩
  obtain ⟨hs2, hm⟩ := hlast
  refine ⟨(hsame.trans hloop.same).trans hs2, hm ▸ hloop.nested, fun p i hi => ?_⟩
  rw [hm, hloop.mask p i hi, hpic i, hsame.prty i]
  simp

/-! ## When the table stays exact -/

/-- The condition on a call: `MRT_irqd_set` gives a configured line no worse priority,
    `MRT_setiattr` gives it the same one, and `MRT_restart` finds just the configured
    lines enabled.  Calls that are refused meet it. -/
def Fits (c : Conf) : ConfOp → Prop
  | .irqdSet irq a => ∀ i k, tabAddr 16 irq = some i → prtyOf a.priority = some k →
      ¬ (irq ≠ 0 ∧ a.priority = 0) → i ≠ cascadeLine → c.configured i = true → k ≤ c.prty i
  | .setiattr v caller irq a per => ((c.setiattr v caller irq a per).map Prod.snd = some .ok) →
      ∀ i k, tabAddr 16 irq = some i → prtyOf a.priority = some k → i ≠ cascadeLine →
        c.configured i = true → k = c.prty i
  | .restart h r junk => ((c.restart h r junk).map Prod.snd = some .ok) →
      ∀ i, i ≠ cascadeLine → c.sys.pic.getLsbD i.val = !c.configured i

theorem tabAddr_line (hd : tabAddr 32 irq = some d) (i : Line) :
    tabAddr 16 irq = some i ↔ d = i.irq := by
  rw [tabAddr_eq_some] at hd ⊢
  subst hd
  constructor
  · intro h
    exact Fin.ext (by exact_mod_cast h)
  · rintro rfl
    rfl

/-- A line of another index keeps its bit. -/
theorem prty_update {r : Irqd} (hdesc : c'.sys.desc = update c.sys.desc d r) :
    c'.prty i = if i.irq = d then r.priority else c.prty i := by
  unfold Conf.prty
  rw [hdesc, update_apply]
  split <;> rfl

theorem irqdSet_maskOk_iff {a : IrqdArg} (hm : c.MaskOk) (hn : Nested c.sys.mask)
    (h : c.irqdSet irq a = some c') : c'.MaskOk ↔ c.Fits (.irqdSet irq a) := by
  rcases irqdSet_inv h with ⟨rfl, hbad⟩ | ⟨d, k, hd, hlow, hk, hdesc, hmask, huse⟩
  · refine ⟨fun _ i k hi hk hlow => ?_, fun _ => hm⟩
    rcases hbad with hbad | hbad
    · exact absurd hbad hlow
    · rw [hbad] at hk
      cases hk
  by_cases hlt : d.val < 16
  · obtain ⟨l, rfl⟩ := Line.of_lt hlt
    rw [if_pos hlt] at hmask huse
    have hl := (tabAddr_line hd l).mpr rfl
    have hbit : ∀ p (i : Line), (c'.sys.mask p).getLsbD i.val
        = ((c.sys.mask p).getLsbD i.val || (decide (k ≤ p) && decide (i = l))) := by
      intro p i
      have hil : (i.val = l.irq.val) ↔ i = l := ⟨fun e => Fin.ext e, fun e => e ▸ rfl⟩
      rw [hmask, hn.getLsbD_addLine, Sys.getLsbD_bit]
      simp only [hil]
    have hconf : ∀ i, c'.configured i = (c.configured i || decide (i = l)) := by
      intro i
      have hil : (i.val = l.irq.val) ↔ i = l := ⟨fun e => Fin.ext e, fun e => e ▸ rfl⟩
      unfold configured
      rw [huse, BitVec.getLsbD_or, Sys.getLsbD_bit]
      simp only [hil]
    have hprty : ∀ i, c'.prty i = if i = l then k else c.prty i := by
      intro i
      rw [prty_update hdesc]
      simp only [Line.irq_inj]
      rfl
    refine ⟨fun hm' i k' hi hk' _ hc huse => ?_, fun hfit p i hi => ?_⟩
    · rw [hl] at hi
      cases hi
      rw [hk] at hk'
      cases hk'
      have hp := hm' (c.prty l) l hc
      rw [hbit, hm _ l hc, hconf, hprty, huse] at hp
      simpa using hp
    · rw [hbit, hm p i hi, hconf, hprty]
      by_cases hil : i = l
      · subst hil
        have hle := hfit i k hl hk hlow hi
        cases hc : c.configured i with
        | false => simp
        | true =>
          have hle := hle hc
          by_cases hp : c.prty i ≤ p
          · simp [hp, le_trans hle hp]
          · simp [hp]
      · simp [hil]
  · rw [if_neg hlt] at hmask huse
    have hno : ∀ i : Line, d ≠ i.irq := by
      rintro i rfl
      exact hlt i.isLt
    have hprty : ∀ i, c'.prty i = c.prty i := by
      intro i
      rw [prty_update hdesc, if_neg (Ne.symm (hno i))]
    refine ⟨fun _ i k' hi => absurd ((tabAddr_line hd i).mp hi) (hno i), fun _ p i hi => ?_⟩
    rw [hmask, hm p i hi, hprty, configured, configured, huse]

theorem setiattr_maskOk_iff {v : Env} {caller : Proc} {a : IAttr} {per : BitVec 32}
    (hm : c.MaskOk) (h : c.op (.setiattr v caller irq a per) = some c') :
    c'.MaskOk ↔ c.Fits (.setiattr v caller irq a per) := by
  obtain ⟨r, hr, rfl⟩ := map_eq_some_iff.mp h
  rcases setiattr_cases hr with ⟨hne, hsys, huse⟩ | ⟨l, k, hok, hl, hk, hsys, huse⟩
  · refine ⟨fun _ hok => ?_, fun _ p i hi => ?_⟩
    · rw [hr, map_some, some.injEq] at hok
      exact absurd hok hne
    · rw [configured, Conf.prty, hsys, huse]
      exact hm p i hi
  · have hmask : r.1.sys.mask = c.sys.mask := by rw [hsys]; rfl
    have hprty : ∀ i, r.1.prty i = if i = l then k else c.prty i := by
      intro i
      rw [prty_update (congrArg Sys.desc hsys)]
      simp only [Line.irq_inj]
      rfl
    have hconf : ∀ i, r.1.configured i = c.configured i := by
      intro i
      rw [configured, configured, huse]
    refine ⟨fun hm' _ i k' hi hk' hc huse => ?_, fun hfit p i hi => ?_⟩
    · rw [hl] at hi
      cases hi
      rw [hk] at hk'
      cases hk'
      have hle : ∀ p, c.prty l ≤ p ↔ k ≤ p := by
        intro p
        have hp := hm' p l hc
        rw [hmask, hm p l hc, hconf, hprty, huse] at hp
        simpa using hp
      exact le_antisymm ((hle _).mp le_rfl) ((hle _).mpr le_rfl)
    · rw [hmask, hm p i hi, hconf, hprty]
      by_cases hil : i = l
      · subst hil
        cases hc : c.configured i with
        | false => rfl
        | true =>
          have hsame := hfit (by rw [hr, map_some, hok]) i k hl hk hi hc
          rw [if_pos rfl, hsame]
      · rw [if_neg hil]

/-- A restart is refused and changes nothing, or runs to its end. -/
theorem restart_inv {h r : Int} {x : Conf × RestartCode} (hx : c.restart h r junk = some x) :
    (x.1 = c ∧ x.2 ≠ .ok) ∨ (x.2 = .ok ∧
      c.doRestart (BitVec.ofInt 32 h) (BitVec.ofInt 32 r) junk = some x.1) := by
  unfold restart at hx
  split at hx
  · cases hx
    exact .inl ⟨rfl, nofun⟩
  split at hx
  · cases hx
    exact .inl ⟨rfl, nofun⟩
  split at hx
  · cases hx
    exact .inl ⟨rfl, nofun⟩
  obtain ⟨c₁, h1, rfl⟩ := map_eq_some_iff.mp hx
  exact .inr ⟨rfl, h1⟩

theorem restart_maskOk_iff {h r : Int} (hm : c.MaskOk) (hs : c.op (.restart h r junk) = some c') :
    c'.MaskOk ↔ c.Fits (.restart h r junk) := by
  obtain ⟨x, hx, rfl⟩ := map_eq_some_iff.mp hs
  have hcode : (c.restart h r junk).map Prod.snd = some x.2 := by rw [hx]; rfl
  rcases restart_inv hx with ⟨hc, hne⟩ | ⟨hok, h1⟩
  · refine ⟨fun _ hok => ?_, fun _ => hc ▸ hm⟩
    rw [hcode, some.injEq] at hok
    exact absurd hok hne
  obtain ⟨hsame, -, hmask⟩ := doRestart_mask h1
  refine ⟨fun hm' _ i hi => ?_, fun hfit p i hi => ?_⟩
  · have hp := hm' priLowest i hi
    have htop : ∀ q : Prty, q ≤ priLowest := fun q => Nat.le_of_lt_succ q.isLt
    rw [hmask priLowest i hi, configured, hsame.hard] at hp
    simp only [htop, decide_true, Bool.and_true] at hp
    rw [configured, ← hp, Bool.not_not]
  · have hfit := hfit (hok ▸ hcode) i hi
    rw [hmask p i hi, hfit, Bool.not_not, configured, configured, hsame.hard, hsame.prty]

/-- **ONE CALL** keeps the levels nested. -/
theorem op_nested (hn : Nested c.sys.mask) (h : c.op o = some c') : Nested c'.sys.mask := by
  cases o with
  | irqdSet irq a =>
    rcases irqdSet_inv h with ⟨rfl, -⟩ | ⟨d, k, -, -, -, -, hmask, -⟩
    · exact hn
    · rw [hmask]
      split
      · exact hn.addLine _ _
      · exact hn
  | setiattr v caller irq a per =>
    obtain ⟨r, hr, rfl⟩ := map_eq_some_iff.mp h
    rcases setiattr_cases hr with ⟨-, hsys, -⟩ | ⟨l, k, -, -, -, hsys, -⟩
    all_goals
      rw [hsys]
      exact hn
  | restart h r junk =>
    obtain ⟨x, hx, rfl⟩ := map_eq_some_iff.mp h
    rcases restart_inv hx with ⟨hc, -⟩ | ⟨-, h1⟩
    · rw [hc]
      exact hn
    · exact (doRestart_mask h1).2.1

/-- **ONE CALL** keeps the table exact exactly when it meets the condition. -/
theorem op_maskOk_iff (hm : c.MaskOk) (hn : Nested c.sys.mask) (h : c.op o = some c') :
    c'.MaskOk ↔ c.Fits o := by
  cases o with
  | irqdSet irq a => exact irqdSet_maskOk_iff hm hn h
  | setiattr v caller irq a per => exact setiattr_maskOk_iff hm h
  | restart h r junk => exact restart_maskOk_iff hm h

/-- Nothing is configured yet. -/
def Blank (c : Conf) : Prop := (∀ p, c.sys.mask p = 0) ∧ c.hardUse = 0

theorem Blank.nested (h : c.Blank) : Nested c.sys.mask := by
  intro p q _ b hb
  rw [h.1 p] at hb
  simp at hb

theorem Blank.maskOk (h : c.Blank) : c.MaskOk := by
  intro p i _
  rw [configured, h.1 p, h.2]
  simp

/-- Along every sequence of calls the levels are nested. -/
theorem ReachBy.nested {ok : Conf → ConfOp → Prop} (h₀ : c₀.Blank) (h : ReachBy ok c₀ c) :
    Nested c.sys.mask :=
  h.keeps (I := fun c => Nested c.sys.mask) h₀.nested (fun ih _ hs => op_nested ih hs)

/-- A sequence of calls that meet the condition keeps the table exact. -/
theorem ReachBy.maskOk (h₀ : c₀.Blank) (h : ReachBy Fits c₀ c) : c.MaskOk := by
  induction h with
  | init => exact h₀.maskOk
  | step hr hok hs ih => exact (op_maskOk_iff ih (ReachBy.nested h₀ hr) hs).mpr hok

/-- `MRT_prtylvl_set(p)` leaves enabled only lines of the table at level `p`. -/
theorem MaskOk.prtylvlSet (hm : c.MaskOk) (hpm : c.sys.prtymask = true) (p : Prty)
    (hi : i ≠ cascadeLine) (hon : (c.sys.prtylvlSet p).pic.getLsbD i.val = false) :
    c.prty i ≤ p := by
  unfold Sys.prtylvlSet at hon
  dsimp only at hon
  rw [if_pos hpm] at hon
  have hlt : i.val < 32 := by omega
  simp only [Sys.setPIC, BitVec.getLsbD_setWidth, i.isLt, decide_true, Bool.true_and,
    BitVec.getLsbD_or, BitVec.getLsbD_not, hlt, hm p i hi, Bool.or_eq_false_iff,
    Bool.not_eq_false', Bool.and_eq_true, decide_eq_true_eq] at hon
  exact hon.1.2

/-- **THE MASK TABLE.**  The levels are nested whatever is configured.  In every sequence of
    calls that meet the condition the table is exact in every configuration reached, so
    that `MRT_prtylvl_set` leaves no line enabled of lower priority than the level; and
    there a call keeps the table exact exactly when it meets the condition. -/
theorem mask_table_iff (h₀ : c₀.Blank) :
    (∀ {c : Conf}, ReachBy (fun _ _ => True) c₀ c → Nested c.sys.mask) ∧
      ∀ {c : Conf}, ReachBy Fits c₀ c → c.MaskOk ∧
        (c.sys.prtymask = true → ∀ p i, i ≠ cascadeLine →
          (c.sys.prtylvlSet p).pic.getLsbD i.val = false → c.prty i ≤ p) ∧
        ∀ {o : ConfOp} {c' : Conf}, c.op o = some c' → (c'.MaskOk ↔ c.Fits o) := by
  refine ⟨fun h => h.nested h₀, fun h => ?_⟩
  have hm := h.maskOk h₀
  exact ⟨hm, fun hpm p i hi hon => hm.prtylvlSet hpm p hi hon,
    fun ho => op_maskOk_iff hm (h.nested h₀) ho⟩

instance (c : Conf) : ∀ o, Decidable (c.Fits o)
  | .irqdSet _ _ => inferInstanceAs (Decidable (∀ (_ : Line) (_ : Prty), _))
  | .setiattr _ _ _ _ _ => inferInstanceAs (Decidable (_ → ∀ (_ : Line) (_ : Prty), _))
  | .restart _ _ _ => inferInstanceAs (Decidable (_ → ∀ _ : Line, _))

/-- The lines 5 and 6 are enabled in the PIC, and the level masks are in use. -/
def twoOpen : Conf :=
  { sys := { Sys.twoRtLines with k := boot, pic := ~~~ 0x60#16, prtymask := true },
    rate := fun _ => { period := 0, harmonic := 1, relatper := false, pvt := none },
    hardUse := 0, softUse := 0, idleSoft := 16, harmonic := 1, refresh := 50, tickrate := 50,
    pitLatch := 0, tick2Hz := 0, oneshots := 0 }

theorem twoOpen_blank : twoOpen.Blank := ⟨fun _ => rfl, rfl⟩

/-- An RT line of a priority, without a task. -/
def rtLine (p : Nat) : IrqdArg :=
  { rt := true, td := false, soft := false, istmsg := false, relatper := false, priority := p,
    task := hardware, period := 0 }

/-- Both lines are configured, line 5 gets a better priority, and the system is restarted. -/
theorem mask_table_restart : ∃ c, ReachBy Fits twoOpen c ∧ c.MaskOk ∧
    (c.sys.mask 2).getLsbD 5 = true ∧ (c.sys.mask 2).getLsbD 6 = false ∧
    (c.sys.mask 7).getLsbD 6 = true := by
  have h : (twoOpen.runBy Fits [.irqdSet 5 (rtLine 3), .irqdSet 6 (rtLine 7),
      .irqdSet 5 (rtLine 2), .restart 4 50 0]).any (fun c => decide (
        (c.sys.mask 2).getLsbD 5 = true ∧ (c.sys.mask 2).getLsbD 6 = false ∧
        (c.sys.mask 7).getLsbD 6 = true)) = true := by decide +kernel
  obtain ⟨c, hc, hm⟩ := (any_eq_true _ _).mp h
  have hr : ReachBy Fits twoOpen c := .of_runBy hc
  exact ⟨c, hr, ((mask_table_iff twoOpen_blank).2 hr).1, of_decide_eq_true hm⟩

/-- The attributes of an RT line of a priority. -/
def rtAttr (p : Nat) : IAttr :=
  { rt := true, td := false, soft := false, istmsg := false, task := 0, watchdog := hardware,
    priority := p }

/-- **THE DEFECT.**  Line 5 is configured with priority 3 and gets priority 7, by
    `MRT_setiattr` or by `MRT_irqd_set`.  Its bits stay in the table, and
    `MRT_prtylvl_set(4)` leaves the line enabled. -/
theorem lowered_line_stays_enabled : twoOpen.Blank ∧
    ∀ o ∈ [ConfOp.setiattr goodEnv 14 5 (rtAttr 7) 0, .irqdSet 5 (rtLine 7)],
      ∃ c, ReachBy (fun _ _ => True) twoOpen c ∧ (c.sys.mask 4).getLsbD 5 = true ∧
        c.prty 5 = 7 ∧ (c.sys.prtylvlSet 4).pic.getLsbD 5 = false ∧ ¬ c.MaskOk := by
  have h : ∀ o ∈ [ConfOp.setiattr goodEnv 14 5 (rtAttr 7) 0, .irqdSet 5 (rtLine 7)],
      (twoOpen.runBy (fun _ _ => True) [.irqdSet 5 (rtLine 3), o]).any (fun c => decide (
        (c.sys.mask 4).getLsbD 5 = true ∧ c.prty 5 = 7 ∧
        (c.sys.prtylvlSet 4).pic.getLsbD 5 = false)) = true := by
    rintro o ho
    rcases List.mem_pair.mp ho with rfl | rfl
    all_goals decide +kernel
  refine ⟨twoOpen_blank, fun o ho => ?_⟩
  obtain ⟨c, hc, hp⟩ := (any_eq_true _ _).mp (h o ho)
  obtain ⟨h1, h2, h3⟩ := of_decide_eq_true hp
  refine ⟨c, .of_runBy hc, h1, h2, h3, fun hm => ?_⟩
  have hbit := hm 4 5 (by decide)
  rw [h2] at hbit
  have hbit : (c.sys.mask 4).getLsbD 5 = false := by simpa using hbit
  rw [h1] at hbit
  cases hbit

end Conf

end Kernel
