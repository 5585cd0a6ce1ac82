import Minix4rt.InheritanceProofs

/-! # Priority restoration — what `MRT_disinherit` leaves a process with

    A process that has inherited a priority is to fall back to the best priority that
    still holds it up: its own base priority, that of a message in its queue, or that of a
    process that waits for a semaphore it has locked.

    `MRT_disinherit` looks at less than that, and at something else.  Of a queue it sees the
    first entry, of a wait list the first process, and the list of locked semaphores is that
    of the process which the uninitialised `rp` happens to point to.  The base priority is
    never written back: a process that should return to it keeps what it has. -/

namespace Kernel

open ListPool Vtimer KState Function Option

variable {s s' : KState} {p j : Proc} {n c : Nat} {junk : Option Proc}

/-- The priorities that hold `p` up. -/
inductive HoldsUp (s : KState) (p : Proc) : Nat → Prop where
  | base : HoldsUp s p (s.procs p).base.val
  | msg {q : MsgQ} {l : Prty} {e : Mqe} : (s.procs p).pmq = some q →
      e ∈ s.ms.pool.list (.level q l) → HoldsUp s p (s.ms.hdr e).priority
  | waiter {m : Sem} {l : Prty} {r : Proc} : m ∈ s.ss.lock.list (.plain p) →
      r ∈ s.rq.pool.list (.level (some m) l) → HoldsUp s p (s.rq.prio r).val

/-- The priorities that `MRT_disinherit(p)` looks at, when its `rp` points to `j`. -/
inductive LooksAt (s : KState) (p j : Proc) : Nat → Prop where
  | base : LooksAt s p j (s.procs p).base.val
  | first {q : MsgQ} {e : Mqe} : (s.procs p).pmq = some q →
      s.ms.mqePick q anyProc = some (some e) → LooksAt s p j (s.ms.hdr e).priority
  | waiter {ms : List Sem} {m : Sem} {r : Proc} : s.ss.lock.chain j = some ms → m ∈ ms →
      s.sprocPick m = some r → LooksAt s p j (s.rq.prio r).val

/-- The pointers that `MRT_disinherit(p)` follows lead somewhere, and its walks end; `rp`
    points to `j`. -/
structure Follows (s : KState) (p : Proc) (junk : Option Proc) (j : Proc) : Prop where
  rp : junk = some j
  locks : s.ss.lock.chain j ≠ none
  queue : ∃ q, (s.procs p).pmq = some q ∧ s.ms.mqePick q anyProc ≠ none

/-! ## The two searches -/

/-- The loop over the locked semaphores takes the minimum of what it finds. -/
theorem foldl_min_spec {f : Sem → Option Proc} {g : Proc → Nat} :
    ∀ {ms : List Sem} {a b : Nat}, ms.foldl (fun acc m =>
        match f m with
        | none => acc
        | some r => min acc (g r)) a = b →
      b ≤ a ∧ (b = a ∨ ∃ m ∈ ms, ∃ r, f m = some r ∧ g r = b) ∧
        ∀ m ∈ ms, ∀ r, f m = some r → b ≤ g r := by
  intro ms
  induction ms with
  | nil =>
    intro a b h
    cases h
    exact ⟨le_rfl, .inl rfl, fun m hm => nomatch hm⟩
  | cons m ms ih =>
    intro a b h
    rw [List.foldl_cons] at h
    obtain ⟨hle, hcase, hall⟩ := ih h
    cases hf : f m with
    | none =>
      simp only [hf] at hle hcase
      refine ⟨hle, hcase.imp id ?_, fun m' hm' r hr => ?_⟩
      · rintro ⟨m', hm', hr⟩
        exact ⟨m', List.mem_cons_of_mem _ hm', hr⟩
      · rcases List.mem_cons.mp hm' with rfl | hm'
        · exact nomatch hf.symm.trans hr
        · exact hall m' hm' r hr
    | some r0 =>
      simp only [hf] at hle hcase
      refine ⟨le_trans hle (min_le_left _ _), ?_, fun m' hm' r hr => ?_⟩
      · rcases hcase with hb | ⟨m', hm', hr⟩
        · rcases min_choice a (g r0) with hmin | hmin
          · exact .inl (hb.trans hmin)
          · exact .inr ⟨m, List.mem_cons_self, r0, hf, (hb.trans hmin).symm⟩
        · exact .inr ⟨m', List.mem_cons_of_mem _ hm', hr⟩
      · rcases List.mem_cons.mp hm' with rfl | hm'
        · cases hf.symm.trans hr
          exact le_trans hle (min_le_right _ _)
        · exact hall m' hm' r hr

/-- `MRT_PRILOWEST` is no better than any base priority. -/
theorem base_le_lowest (s : KState) (p : Proc) : (s.procs p).base.val ≤ priLowest.val :=
  Nat.le_of_lt_succ (s.procs p).base.isLt

/-- **WHAT `MRT_disinherit` COMPUTES**: the least of what it looks at.  The process gets that
    priority if it is better than the base priority, and keeps its own otherwise. -/
theorem Follows.disinherit (h : Follows s p junk j) (hb : s.bpip = true) :
    ∃ c s', IsLeast {n | LooksAt s p j n} c ∧ s.disinherit (some p) junk = some s' ∧
      (s'.rq.prio p).val =
        if c < (s.procs p).base.val then c else (s.rq.prio p).val := by
  obtain ⟨rfl, hl, q, hq, hm⟩ := h
  obtain ⟨ms, hms⟩ := ne_none_iff_exists'.mp hl
  obtain ⟨o, ho⟩ := ne_none_iff_exists'.mp hm
  obtain ⟨a, ha⟩ : ∃ a, s.semPrty j = some a := ⟨_, by rw [semPrty, hms]; rfl⟩
  obtain ⟨b, hbq⟩ : ∃ b, s.mqPrty q = some b := ⟨_, by rw [mqPrty, ho]; rfl⟩
  have hbase := base_le_lowest s p
  have hsem : (a = priLowest.val ∨ LooksAt s p j a) ∧
      ∀ m ∈ ms, ∀ r, s.sprocPick m = some r → a ≤ (s.rq.prio r).val := by
    rw [semPrty, hms] at ha
    obtain ⟨-, hcase, hall⟩ := foldl_min_spec (g := fun r => (s.rq.prio r).val) (some.inj ha)
    refine ⟨hcase.imp id ?_, hall⟩
    rintro ⟨m, hmem, r, hr, rfl⟩
    exact .waiter hms hmem hr
  have hmsg : (b = priLowest.val ∨ LooksAt s p j b) ∧
      ∀ e, o = some e → b = (s.ms.hdr e).priority := by
    rw [mqPrty, ho] at hbq
    cases o with
    | none => exact ⟨.inl (some.inj hbq).symm, fun e he => nomatch he⟩
    | some e =>
      obtain rfl := some.inj hbq
      refine ⟨.inr (.first hq ho), fun e' he' => ?_⟩
      cases he'
      rfl
  have hleast : IsLeast {n | LooksAt s p j n} (min (min a b) (s.procs p).base.val) := by
    constructor
    · show LooksAt s p j _
      rcases le_total (s.procs p).base.val (min a b) with hle | hle
      · rw [min_eq_right hle]
        exact .base
      rw [min_eq_left hle]
      -- a minimum that is `MRT_PRILOWEST` is the base priority
      rcases min_choice a b with hab | hab
      · rw [hab] at hle ⊢
        rcases hsem.1 with ha' | ha'
        · rw [show a = (s.procs p).base.val by omega]
          exact .base
        · exact ha'
      · rw [hab] at hle ⊢
        rcases hmsg.1 with hb' | hb'
        · rw [show b = (s.procs p).base.val by omega]
          exact .base
        · exact hb'
    · intro n hn
      cases hn with
      | base => exact min_le_right _ _
      | @first q' e hq' he =>
        rw [hq] at hq'
        cases hq'
        rw [ho] at he
        rw [← hmsg.2 e (some.inj he)]
        exact le_trans (min_le_left _ _) (min_le_right _ _)
      | @waiter ms' m r hms' hmem hr =>
        rw [hms] at hms'
        cases hms'
        exact le_trans (min_le_left _ _) (le_trans (min_le_left _ _) (hsem.2 m hmem r hr))
  have hs : s.disinherit (some p) (some j) = some (if h : min a b < (s.procs p).base.val
      then s.moveTo p ⟨min a b, lt_trans h (s.procs p).base.isLt⟩ else s) := by
    rw [KState.disinherit, if_neg (by simp [hb])]
    simp only [bind_eq_bind, bind_some, ha, hq, hbq]
  refine ⟨_, _, hleast, hs, ?_⟩
  split
  · rename_i hlt
    have hval : ∀ k, (s.moveTo p k).rq.prio p = k := by
      intro k
      rw [moveTo]
      split
      all_goals
        show update s.rq.prio p k p = k
        simp
    rw [hval, if_pos (by omega)]
    exact (min_eq_left (le_of_lt hlt)).symm
  · rename_i hlt
    rw [if_neg (by omega)]

/-- A call that returns has followed its pointers. -/
theorem Follows.of_disinherit (hb : s.bpip = true)
    (h : s.disinherit (some p) junk = some s') : ∃ j, Follows s p junk j := by
  rw [KState.disinherit, if_neg (by simp [hb])] at h
  simp only [bind_eq_bind, bind_eq_some_iff, some.injEq] at h
  obtain ⟨j, rfl, a, ha, _, rfl, q, hq, b, hb', -⟩ := h
  refine ⟨j, rfl, fun hn => ?_, q, hq, fun hn => ?_⟩
  · rw [semPrty, hn] at ha
    cases ha
  · rw [mqPrty, hn] at hb'
    cases hb'

/-! ## Restoration -/

/-- **PRIORITY RESTORATION.**  `MRT_disinherit` leaves a process with the best of the
    priorities that hold it up if and only if its walks end and either the best of what it
    looks at is better than the base priority and is that one, or the best of what it looks
    at is the base priority and the process has the right priority already. -/
theorem disinherit_restores_iff (hb : s.bpip = true) (p : Proc) (junk : Option Proc) :
    (∃ s', s.disinherit (some p) junk = some s' ∧
        IsLeast {n | HoldsUp s p n} (s'.rq.prio p).val) ↔
      ∃ j c, Follows s p junk j ∧ IsLeast {n | LooksAt s p j n} c ∧
        (c < (s.procs p).base.val ∧ IsLeast {n | HoldsUp s p n} c ∨
          c = (s.procs p).base.val ∧ IsLeast {n | HoldsUp s p n} (s.rq.prio p).val) := by
  constructor
  · rintro ⟨s', hs, hleast⟩
    obtain ⟨j, hj⟩ := Follows.of_disinherit hb hs
    obtain ⟨c, s1, hc, hs1, hprio⟩ := hj.disinherit hb
    rw [hs] at hs1
    cases hs1
    refine ⟨j, c, hj, hc, ?_⟩
    rw [hprio] at hleast
    have hle : c ≤ (s.procs p).base.val := hc.2 .base
    split at hleast
    · rename_i hlt
      exact .inl ⟨hlt, hleast⟩
    · exact .inr ⟨by omega, hleast⟩
  · rintro ⟨j, c, hj, hc, hcase⟩
    obtain ⟨c', s', hc', hs', hprio⟩ := hj.disinherit hb
    obtain rfl := hc.unique hc'
    refine ⟨s', hs', ?_⟩
    rw [hprio]
    rcases hcase with ⟨hlt, hleast⟩ | ⟨heq, hleast⟩
    · rw [if_pos hlt]
      exact hleast
    · rw [if_neg (by omega)]
      exact hleast

/-- **NO WAY BACK**: a process whose priority is not its base priority does not get it from
    `MRT_disinherit`, whatever it looks at. -/
theorem disinherit_ne_base (hb : s.bpip = true) (hp : s.rq.prio p ≠ (s.procs p).base)
    (h : s.disinherit (some p) junk = some s') : s'.rq.prio p ≠ (s.procs p).base := by
  obtain ⟨j, hj⟩ := Follows.of_disinherit hb h
  obtain ⟨c, s1, hc, hs1, hprio⟩ := hj.disinherit hb
  rw [h] at hs1
  cases hs1
  intro heq
  rw [heq] at hprio
  split at hprio
  · omega
  · exact hp (Fin.ext hprio.symm)

/-- The process 14 of `boot` with a queue that lets its sender's priority be inherited. -/
def heir (order : Bool) : Event :=
  .task goodEnv (.setpattr 114
    { realtime := true, periodic := false, base := 10, period := 0, limit := 0, deadline := 0,
      watchdog := hardware, mqSize := 4, mqOrder := order, mqInherit := true })

/-- A message of priority 3 waits for the process 14, which keeps the priority 3. -/
theorem disinherit_restores_message : ∃ s s', ReachBy Quiet { boot with bpip := true } s ∧
    s.disinherit (some 14) (some 14) = some s' ∧ IsLeast {n | HoldsUp s 14 n} 3 ∧
    s'.rq.prio 14 = 3 := by
  obtain ⟨s, h, hb, hch, hbase, hlock, q, e, hq, hpick, hprio, hmem, hall⟩ : ∃ s,
      ReachBy Quiet { boot with bpip := true } s ∧
      s.bpip = true ∧ s.ss.lock.chain 14 = some [] ∧ (s.procs 14).base = 10 ∧
          s.ss.lock.list (.plain 14) = [] ∧
          ∃ q e, (s.procs 14).pmq = some q ∧ s.ms.mqePick q anyProc = some (some e) ∧
            (s.ms.hdr e).priority = 3 ∧ e ∈ s.ms.pool.list (.level q 3) ∧
            ∀ l, ∀ e' ∈ s.ms.pool.list (.level q l), (s.ms.hdr e').priority = 3 :=
    ReachBy.of_run [heir true, .rtk 14 goodEnv .set2rt, .rtk 15 goodEnv .set2rt,
      .rtk 15 goodEnv (.uprqst (withProc 14 forever))] (by decide +kernel)
  have hup : IsLeast {n | HoldsUp s 14 n} 3 := by
    refine ⟨hprio ▸ .msg hq hmem, fun n hn => ?_⟩
    cases hn with
    | base => rw [hbase]; decide
    | @msg q' l e' hq' he' =>
      rw [hq] at hq'
      cases hq'
      rw [hall l e' he']
    | waiter hm _ =>
      rw [hlock] at hm
      cases hm
  have hlook : IsLeast {n | LooksAt s 14 14 n} 3 := by
    refine ⟨hprio ▸ .first hq hpick, fun n hn => ?_⟩
    cases hn with
    | base => rw [hbase]; decide
    | @first q' e' hq' he' =>
      rw [hq] at hq'
      cases hq'
      rw [hpick] at he'
      cases he'
      rw [hprio]
    | waiter hms hm _ =>
      rw [hch] at hms
      cases hms
      cases hm
  obtain ⟨s', hs', hleast⟩ := (disinherit_restores_iff hb 14 (some 14)).mpr
    ⟨14, 3, ⟨rfl, by rw [hch]; simp, q, hq, by rw [hpick]; simp⟩, hlook,
      .inl ⟨by rw [hbase]; decide, hup⟩⟩
  exact ⟨s, s', h, hs', hup, Fin.ext (hleast.unique hup)⟩

/-- **A PRIORITY FOR EVER.**  Process 14 has inherited the priority 3 from a message and has
    received it.  Its queue is empty, it has locked nothing, its base priority is 10; no call
    of `MRT_disinherit` gives it back. -/
theorem inherited_priority_stays : ∃ s, ReachBy Quiet { boot with bpip := true } s ∧
    s.bpip = true ∧ (s.procs 14).realtime = true ∧ s.rq.prio 14 = 3 ∧
    IsLeast {n | HoldsUp s 14 n} 10 ∧
    ∀ junk s', s.disinherit (some 14) junk = some s' → (s'.rq.prio 14).val ≠ 10 := by
  obtain ⟨s, h, hb, hrt, hprio, hbase, hlock, hempty⟩ : ∃ s,
      ReachBy Quiet { boot with bpip := true } s ∧
      s.bpip = true ∧ (s.procs 14).realtime = true ∧ s.rq.prio 14 = 3 ∧
          (s.procs 14).base = 10 ∧ s.ss.lock.list (.plain 14) = [] ∧
          ∀ q, (s.procs 14).pmq = some q → ∀ l, s.ms.pool.list (.level q l) = [] :=
    ReachBy.of_run [heir false, .rtk 14 goodEnv .set2rt, .rtk 15 goodEnv .set2rt,
      .rtk 15 goodEnv (.uprqst (withProc 14 forever)),
      .rtk 14 goodEnv (.receive (fromAny forever))] (by decide +kernel)
  refine ⟨s, h, hb, hrt, hprio, ⟨?_, fun n hn => ?_⟩, fun junk s' hs' heq => ?_⟩
  · have hbs : HoldsUp s 14 (s.procs 14).base.val := .base
    rw [hbase] at hbs
    exact hbs
  · cases hn with
    | base => rw [hbase]; decide
    | msg hq he =>
      rw [hempty _ hq] at he
      cases he
    | waiter hm _ =>
      rw [hlock] at hm
      cases hm
  · refine disinherit_ne_base hb (by rw [hprio, hbase]; decide) hs' (Fin.ext ?_)
    rw [heq, hbase]
    rfl

end Kernel
