import Minix4rt.MmControlProofs

/-! # What a request to MM can do

    Requests differ in what they want, and all end in the same few changes of the table: a
    blocked process is woken, a process exits, and things happen that no table invariant
    looks at.  `Move` lists these changes, and `serve_moves` cuts every request into moves
    and one last change, which only some requests make: a fork, an exec, a wait that
    blocks, a new process group, a new tracing bit.  The invariants are proved for the
    moves and for the last changes, and never look at signals again. -/

namespace Mm

open Regions State

variable {s s' s1 : State} {p q who : Slot} {c : Ctx} {e : Env} {D : Prop}

/-! ## Changes that nobody looks at -/

/-- What the table invariants look at in a slot. -/
structure Core where
  inUse : Bool
  hanging : Bool
  waiting : Bool
  separate : Bool
  pid : Int
  procgrp : Int
  wpid : Int
  parent : Slot
  block : Region
  text : Region
  ino : Nat
  dev : Int
  ctime : Int
deriving DecidableEq

/-- The core of a slot. -/
def Mproc.core (m : Mproc) : Core :=
  { inUse := m.flags.inUse, hanging := m.flags.hanging, waiting := m.flags.waiting,
    separate := m.flags.separate, pid := m.pid, procgrp := m.procgrp, wpid := m.wpid,
    parent := m.parent, block := m.block, text := m.text, ino := m.ino, dev := m.dev,
    ctime := m.ctime }

/-- Everything beside the slots is the same. -/
structure SameRest (s s' : State) : Prop where
  procsInUse : s'.procsInUse = s.procsInUse
  nextPid : s'.nextPid = s.nextPid
  holes : s'.holes = s.holes
  log : s'.log = s.log

/-- Nothing of the core has changed, and no process is newly traced. -/
structure Quiet (s s' : State) : Prop extends SameRest s s' where
  core : ∀ p, (s'.mproc p).core = (s.mproc p).core
  traced : ∀ p, (s'.mproc p).flags.traced = true → (s.mproc p).flags.traced = true

theorem SameRest.refl (s : State) : SameRest s s := ⟨rfl, rfl, rfl, rfl⟩

theorem Quiet.refl (s : State) : Quiet s s := ⟨.refl s, fun _ => rfl, fun _ => id⟩

/-- Nobody is born, and nobody dies. -/
theorem Quiet.live (h : Quiet s s') (p : Slot) : s'.live p = s.live p := by
  have hc := h.core p
  have h1 : (s'.mproc p).flags.inUse = (s.mproc p).flags.inUse := congrArg Core.inUse hc
  have h2 : (s'.mproc p).flags.hanging = (s.mproc p).flags.hanging := congrArg Core.hanging hc
  simp only [State.live, h1, h2]

@[simp] theorem upd_self (s : State) (p : Slot) (g : Mproc → Mproc) :
    (s.upd p g).mproc p = g (s.mproc p) := by
  simp [State.upd]

/-- The other slots stay. -/
theorem upd_other (s : State) (g : Mproc → Mproc) (h : q ≠ p) :
    (s.upd p g).mproc q = s.mproc q := by
  simp [State.upd, h]

/-- A slot is written, and its core stays. -/
theorem Quiet.upd (s : State) (p : Slot) {g : Mproc → Mproc}
    (hc : (g (s.mproc p)).core = (s.mproc p).core)
    (ht : (g (s.mproc p)).flags.traced = true → (s.mproc p).flags.traced = true) :
    Quiet s (s.upd p g) := by
  refine ⟨⟨rfl, rfl, rfl, rfl⟩, fun q => ?_, fun q => ?_⟩
  · by_cases hq : q = p
    · subst hq
      rw [upd_self]
      exact hc
    · rw [upd_other s g hq]
  · by_cases hq : q = p
    · subst hq
      rw [upd_self]
      exact ht
    · rw [upd_other s g hq]
      exact id

/-- What signals look at in a slot. -/
structure Sigs where
  ignore : Finset Sig
  catched : Finset Sig
  sigmask : Finset Sig
  sigpending : Finset Sig
  sigact : Sig → SigAction

/-- The signal sets of a slot. -/
def Mproc.sigs (m : Mproc) : Sigs :=
  { ignore := m.ignore, catched := m.catched, sigmask := m.sigmask, sigpending := m.sigpending,
    sigact := m.sigact }

/-- No signal set has changed, and the same processes are alive and traced. -/
structure Hush (s s' : State) : Prop where
  sigs : ∀ q, (s'.mproc q).sigs = (s.mproc q).sigs
  live : ∀ q, s'.live q = s.live q
  traced : ∀ q, s.live q = true → (s'.mproc q).flags.traced = (s.mproc q).flags.traced

theorem Hush.refl (s : State) : Hush s s := ⟨fun _ => rfl, fun _ => rfl, fun _ _ => rfl⟩

theorem Hush.trans (h : Hush s s1) (h' : Hush s1 s') : Hush s s' :=
  ⟨fun q => (h'.sigs q).trans (h.sigs q), fun q => (h'.live q).trans (h.live q),
    fun q hl => (h'.traced q ((h.live q).trans hl)).trans (h.traced q hl)⟩

/-- A slot is written without touching its signal sets and its life. -/
theorem Hush.upd (s : State) (p : Slot) {g : Mproc → Mproc}
    (hs : (g (s.mproc p)).sigs = (s.mproc p).sigs)
    (hi : (g (s.mproc p)).flags.inUse = (s.mproc p).flags.inUse)
    (hh : (g (s.mproc p)).flags.hanging = (s.mproc p).flags.hanging)
    (ht : (g (s.mproc p)).flags.traced = (s.mproc p).flags.traced) : Hush s (s.upd p g) := by
  refine ⟨fun q => ?_, fun q => ?_, fun q _ => ?_⟩
  all_goals
    by_cases hq : q = p
    · subst hq
      simp only [State.live, upd_self, hs, hi, hh, ht]
    · simp only [State.live, upd_other s g hq]

/-- The pid, the group and the owner of a slot. -/
def Mproc.ids (m : Mproc) : Int × Int × Int × Int := (m.pid, m.procgrp, m.realuid, m.effuid)

/-- Neither has a pid, a group or an owner. -/
structure Still (s s' : State) : Prop extends Hush s s' where
  ids : ∀ q, (s'.mproc q).ids = (s.mproc q).ids

theorem Still.refl (s : State) : Still s s := ⟨.refl s, fun _ => rfl⟩

theorem Still.trans (h : Still s s1) (h' : Still s1 s') : Still s s' :=
  ⟨h.toHush.trans h'.toHush, fun q => (h'.ids q).trans (h.ids q)⟩

/-- A slot is written without touching any of it. -/
theorem Still.upd (s : State) (p : Slot) {g : Mproc → Mproc}
    (hs : (g (s.mproc p)).sigs = (s.mproc p).sigs)
    (hi : (g (s.mproc p)).flags.inUse = (s.mproc p).flags.inUse)
    (hh : (g (s.mproc p)).flags.hanging = (s.mproc p).flags.hanging)
    (ht : (g (s.mproc p)).flags.traced = (s.mproc p).flags.traced)
    (hd : (g (s.mproc p)).ids = (s.mproc p).ids) : Still s (s.upd p g) := by
  refine ⟨.upd s p hs hi hh ht, fun q => ?_⟩
  by_cases hq : q = p
  · subst hq
    rw [upd_self, hd]
  · rw [upd_other s g hq]

/-- The history does not matter. -/
theorem Still.note (h : Still s s') (x : Entry) : Still s (s'.note x) :=
  ⟨{ h with }, h.ids⟩

/-- `set_alarm` writes a flag. -/
theorem setAlarm_quiet (s : State) (p : Slot) (on : Bool) : Quiet s (s.setAlarm p on) :=
  Quiet.upd s p (g := fun m => { m with flags := { m.flags with alarmOn := on } }) rfl id

/-- `adjust` moves the border of data and gap, and of gap and stack. -/
theorem adjustMap_core {m m' : Mproc} {dc : Nat} {sp : BitVec 32}
    (h : adjustMap m dc sp = some m') : m'.core = m.core ∧ m'.flags = m.flags := by
  -- the stack grows downwards by as much as it gets longer
  have hblock : ∀ d st : MemMap, d.phys = m.segD.phys → d.vir = m.segD.vir →
      st.vir + st.len = m.segS.vir + m.segS.len →
      ({ m with segD := d, segS := st } : Mproc).core = m.core := by
    intro d st h1 h2 h3
    simp only [Mproc.core, Mproc.block, Mproc.text, h1, h2, h3]
  simp only [adjustMap] at h
  split_ifs at h <;> cases h
  · exact ⟨rfl, rfl⟩
  · exact ⟨hblock _ _ rfl rfl (by simp only; omega), rfl⟩
  · exact ⟨hblock _ _ rfl rfl rfl, rfl⟩

/-- `adjust` writes the map. -/
theorem adjust_quiet (s : State) (p : Slot) (dc : Nat) (sp : BitVec 32) :
    Quiet s (s.adjust p dc sp).1 := by
  rw [State.adjust]
  split
  · rename_i m hm
    obtain ⟨h1, h2⟩ := adjustMap_core hm
    refine Quiet.upd s p (g := fun _ => m) h1 ?_
    rw [h2]
    exact id
  · exact .refl s

/-! ## The moves -/

/-- One change of the table.  `D` says that dead processes may be made to exit. -/
inductive Move (D : Prop) (c : Ctx) : State → State → Prop where
  | quiet {s s' : State} : Quiet s s' → Move D c s s'
  | wake {s : State} (p : Slot) :
      Move D c s ((s.updFlags p (fun f => { f with waiting := false })).note (.interrupted p))
  | toldStop {s : State} (p : Slot) : initNr ≤ p → s.live p = true →
      (s.mproc p).flags.traced = true → (s.mproc (s.mproc p).parent).flags.waiting = true →
      Move D c s ((s.updFlags (s.mproc p).parent (fun f => { f with waiting := false })).note
        (.toldStop (s.mproc p).parent p (s.mproc p).pid (s.mproc p).procgrp
          (s.mproc (s.mproc p).parent).wpid))
  | exit {s s' : State} (p : Slot) (status : Int) : initNr ≤ p → (s.mproc p).flags.inUse = true →
      ((s.mproc p).flags.hanging = true → D) → s.exitBody c p status = .ok s' → Move D c s s'
  | mmGroup {s : State} (n : Int) : Move D c s (s.upd mmNr (fun m => { m with procgrp := n }))

/-- Moves, one after the other. -/
inductive Moves (D : Prop) (c : Ctx) : State → State → Prop where
  | refl {s : State} : Moves D c s s
  | step {s s1 s' : State} : Moves D c s s1 → Move D c s1 s' → Moves D c s s'

namespace Moves

theorem trans (h : Moves D c s s1) (h' : Moves D c s1 s') : Moves D c s s' := by
  induction h' with
  | refl => exact h
  | step _ hm ih => exact ih.step hm

theorem one (h : Move D c s s') : Moves D c s s' := Moves.refl.step h

theorem quiet (h : Quiet s s') : Moves D c s s' := .one (.quiet h)

end Moves

/-! ## Signals -/

/-- `unpause` answers a process that waits. -/
theorem unpause_moves (s : State) (p : Slot) : Moves D c s (s.unpause p) := by
  simp only [State.unpause]
  split
  · exact .quiet (.upd s p rfl id)
  split
  · exact .one (.wake p)
  split
  · exact .quiet (.upd s p rfl id)
  · exact .refl

/-- Nobody dies of an interrupted call, and no signal set changes. -/
theorem Still.unpause (s : State) (p : Slot) : Still s (s.unpause p) := by
  simp only [State.unpause]
  split
  · exact .upd s p rfl rfl rfl rfl rfl
  split
  · exact .note (.upd s p rfl rfl rfl rfl rfl) _
  split
  · exact .upd s p rfl rfl rfl rfl rfl
  · exact .refl s

/-- `stop_proc` stops a traced process, and tells its tracer. -/
theorem stopProc_moves {signo : Sig} (hp : initNr ≤ p) (hl : s.live p = true)
    (ht : (s.mproc p).flags.traced = true) : Moves D c s (s.stopProc p signo) := by
  simp only [State.stopProc]
  have hq : Quiet s (s.updFlags p (fun f => { f with stopped := true })) := Quiet.upd s p rfl id
  have ht' : ((s.updFlags p (fun f => { f with stopped := true })).mproc p).flags.traced =
      true := by
    simp [State.updFlags, ht]
  split
  · rename_i hw
    refine (Moves.quiet hq).step (.toldStop p hp ?_ ht' hw)
    rw [hq.live]
    exact hl
  · exact (Moves.quiet hq).step (.quiet (Quiet.upd _ p rfl id))

/-- `dump_core` writes the status and the map. -/
theorem dumpCore_quiet (s : State) (e : Env) (p : Slot) : Quiet s (s.dumpCore e p) := by
  simp only [State.dumpCore]
  split
  · exact .refl s
  split
  · exact .refl s
  · have h1 : Quiet s (s.upd p (fun m => { m with sigstatus := m.sigstatus ||| 128#8 })) :=
      Quiet.upd s p rfl id
    have h2 := adjust_quiet (s.upd p (fun m => { m with sigstatus := m.sigstatus ||| 128#8 })) p
      ((s.upd p (fun m => { m with sigstatus := m.sigstatus ||| 128#8 })).mproc p).segD.len (e.sp p)
    exact ⟨⟨h2.procsInUse.trans h1.procsInUse, h2.nextPid.trans h1.nextPid,
      h2.holes.trans h1.holes, h2.log.trans h1.log⟩, fun q => (h2.core q).trans (h1.core q),
      fun q => h1.traced q ∘ h2.traced q⟩

variable {kill : Kill} {signo : Sig}

/-- A signal that ends a process, given how it is ended. -/
theorem terminate_moves
    (hk : ∀ s p, initNr ≤ p → s.live p = true → Ends (Moves D c) s (kill s p)) (hp : initNr ≤ p)
    (hl : s.live p = true) (h : s.terminate kill e p signo = .ok s') : Moves D c s s' := by
  simp only [State.terminate] at h
  split at h
  · cases h
  have h1 : Quiet s (s.upd p (fun m => { m with sigstatus := BitVec.ofNat 8 signo.val })) :=
    Quiet.upd s p rfl id
  split at h
  · have h2 := dumpCore_quiet
      (s.upd p (fun m => { m with sigstatus := BitVec.ofNat 8 signo.val })) e p
    refine ((Moves.quiet h1).step (.quiet h2)).trans (hk _ p hp ?_ _ h)
    rw [h2.live, h1.live]
    exact hl
  · refine (Moves.quiet h1).trans (hk _ p hp ?_ _ h)
    rw [h1.live]
    exact hl

/-- `sig_proc`, given how a process is ended. -/
theorem sigProc_moves
    (hk : ∀ s p, initNr ≤ p → s.live p = true → Ends (Moves D c) s (kill s p)) (hp : initNr ≤ p)
    (hl : s.live p = true) (h : s.sigProc kill e p signo = .ok s') : Moves D c s s' := by
  have hcase : SigCase kill e s p signo (s.sigProc kill e p signo) := sigProc_cases hl
  generalize s.sigProc kill e p signo = r at h hcase
  cases hcase with
  | stop ht _ =>
    cases h
    have hst := Still.unpause s p
    exact (unpause_moves s p).trans
      (stopProc_moves hp ((hst.live p).trans hl) ((hst.traced p hl).trans ht))
  | ignored _ =>
    cases h
    exact .refl
  | pend _ _ =>
    cases h
    exact .quiet (.upd s p rfl id)
  | handle _ _ _ _ =>
    cases h
    exact ((Moves.quiet (adjust_quiet s p _ _)).step (.quiet (.upd _ p rfl id))).trans
      (unpause_moves _ p)
  | kill => exact terminate_moves hk hp hl h
  | stuck => cases h

/-- **EXITS AND SIGNALS ARE MOVES.** -/
theorem moves_rule : SigRule c (Ends (Moves D c)) := by
  refine .of_rel (fun _ => .refl) (fun h h' => h.trans h')
    (fun s p => .quiet (setAlarm_quiet s p false)) (fun s p status s' hp hl h => ?_)
    (fun hk s e p sg s' hp hl _ h => sigProc_moves hk hp hl h)
  obtain ⟨hin, hhang⟩ := live_iff.mp hl
  exact .one (.exit p status hp hin (fun hh => nomatch hhang.symm.trans hh) h)

/-- **`mm_exit`**: an exit, and then what the hangup does. -/
theorem mmExit_moves {n : Nat} {status : Int} (hp : initNr ≤ p)
    (hin : (s.mproc p).flags.inUse = true) (hD : (s.mproc p).flags.hanging = true → D)
    (h : mmExit e c n status s p = .ok s') : Moves D c s s' :=
  moves_rule.mmExit_of n (fun _ hs => .one (.exit p status hp hin hD hs)) _ h

/-- `check_pending` delivers what is not blocked any more. -/
theorem checkPending_moves (hp : initNr ≤ c.mp) (h : s.checkPending e c = .ok s') :
    Moves D c s s' := by
  rcases checkPending_cases s e c with ⟨he, -⟩ | ⟨i, -, he⟩
  · rw [he] at h
    cases h
    exact .refl
  · rw [he] at h
    exact (Moves.quiet (Quiet.upd s c.mp rfl id)).trans
      (sigProc_moves moves_rule.killSig hp (sigProc_live h) h)

/-- Signals from the kernel. -/
theorem doKsig_moves {map : Finset Sig} (h : s.doKsig e p map = .ok s') :
    Moves D ⟨-1, mmNr⟩ s s' :=
  moves_rule.doKsig (fun _ n _ h => Except.ok.inj h ▸ .one (.mmGroup n)) s e p map s' h

/-! ## Requests -/

/-- The change that a request `r` of `who` may end with. -/
inductive Last (who : Slot) (r : Req) : State → State → Prop where
  | same {s : State} : Last who r s s
  | fork {s s' : State} {code : Code} : s.canCall who = true →
      s.doFork who = .ok (s', code) → Last who r s s'
  | exec {s s' : State} {x : ExecCall} {code : Code} : s.canCall who = true →
      s.doExec who x = .ok (s', code) → Last who r s s'
  | wait {s : State} (pid : Int) (nohang : Bool) : r.waits = true → s.canCall who = true →
      Last who r s (s.doWaitpid ⟨who.val, who⟩ pid nohang).1
  | group {s : State} : s.canCall who = true →
      Last who r s (s.upd who (fun m => { m with procgrp := m.pid }))
  | retrace {s s' : State} : SameRest s s' → (∀ p, (s'.mproc p).core = (s.mproc p).core) →
      Last who r s s'

/-- The requests that make a dead process exit again. -/
def ExitsDead (s : State) : Req → Prop
  | .trace .exit pid _ => ∃ p, s.findproc pid = some p ∧ (s.mproc p).flags.stopped = true ∧
      (s.mproc p).flags.hanging = true
  | _ => False

/-- Flags of a slot are written that are not in the core. -/
theorem retrace_flags {r : Req} (s : State) (p : Slot) {g : MpFlags → MpFlags}
    (hg : ∀ m : Mproc, ({ m with flags := g m.flags } : Mproc).core = m.core) :
    Last who r s (s.updFlags p g) := by
  refine .retrace ⟨rfl, rfl, rfl, rfl⟩ (fun q => ?_)
  by_cases hq : q = p
  · subst hq
    rw [State.updFlags, upd_self]
    exact hg _
  · rw [State.updFlags, upd_other s _ hq]

/-- `do_trace`: moves, and the flags of the child at the end. -/
theorem doTrace_moves {req : TraceReq} {pid data : Int} {r : Req}
    (hD : ExitsDead s (.trace req pid data) → D)
    (h : (s.doTrace e ⟨who.val, who⟩ req pid data).map Prod.fst = .ok s') :
    ∃ s1, Moves D ⟨who.val, who⟩ s s1 ∧ Last who r s1 s' := by
  have hcase := doTrace_cases s e ⟨who.val, who⟩ req pid data
  generalize (s.doTrace e ⟨who.val, who⟩ req pid data).map Prod.fst = x at h hcase
  cases hcase with
  | same =>
    cases h
    exact ⟨s, .refl, .same⟩
  | traceMe =>
    cases h
    exact ⟨s, .refl, retrace_flags s who (fun _ => rfl)⟩
  | exit hreq hp hst =>
    subst hreq
    obtain ⟨hge, hin⟩ := findproc_some hp
    exact ⟨s', mmExit_moves hge hin (fun hh => hD ⟨_, hp, hst, hh⟩) h, .same⟩
  | go =>
    cases h
    exact ⟨s, .refl, retrace_flags s _ (fun _ => rfl)⟩
  | @signal p sg _ hp _ _ _ =>
    obtain ⟨t, ht, rfl⟩ := Except.map_ok h
    have hq : Quiet s (s.updFlags p (fun f => { f with traced := false })) :=
      Quiet.upd s p rfl (fun hh => by simp at hh)
    refine ⟨t, (Moves.quiet hq).trans (sigProc_moves moves_rule.killSig (findproc_some hp).1
      (sigProc_live ht) ht), .retrace ⟨rfl, rfl, rfl, rfl⟩ (fun q => ?_)⟩
    by_cases hqp : q = p
    · subst hqp
      simp [State.updFlags, Mproc.core, Mproc.block, Mproc.text]
    · rw [State.updFlags, upd_other _ _ hqp, State.updFlags, upd_other _ _ hqp]

/-- **EVERY REQUEST** is some moves and one last change. -/
theorem serve_moves {r : Req} (hcall : s.canCall who = true) (hD : ExitsDead s r → D)
    (h : (s.serve who e r).map Prod.fst = .ok s') :
    ∃ s1, Moves D ⟨who.val, who⟩ s s1 ∧ Last who r s1 s' := by
  have ⟨hge, hl, _⟩ := canCall_iff.mp hcall
  obtain ⟨hin, hhang⟩ := live_iff.mp hl
  have hcase := serve_cases s who e r
  generalize (s.serve who e r).map Prod.fst = x at h hcase
  have hsame : ∀ {r : Req} {t : State}, Moves D ⟨who.val, who⟩ s t →
      ∃ s1, Moves D ⟨who.val, who⟩ s s1 ∧ Last who r s1 t := fun ht => ⟨_, ht, .same⟩
  cases hcase with
  | fork =>
    obtain ⟨⟨t, r⟩, ht, rfl⟩ := Except.map_ok h
    exact ⟨s, .refl, .fork hcall ht⟩
  | exit status =>
    exact hsame (mmExit_moves hge hin (fun hh => nomatch hhang.symm.trans hh) h)
  | wait pid nohang hw =>
    cases h
    exact ⟨s, .refl, .wait pid nohang hw hcall⟩
  | exec x =>
    obtain ⟨⟨t, r⟩, ht, rfl⟩ := Except.map_ok h
    exact ⟨s, .refl, .exec hcall ht⟩
  | kill pid sig => exact hsame (moves_rule.checkSig moves_rule.killSig s e who pid sig s' h)
  | action sg a _ _ =>
    cases h
    refine hsame (.quiet (.upd s who ?_ ?_))
    · rw [setAction]
      split <;> rfl
    · rw [setAction]
      split <;> exact id
  | block set | ids _ _ _ _ =>
    cases h
    exact hsame (.quiet (.upd s who rfl id))
  | pending hm =>
    refine hsame ((Moves.quiet ?_).trans (checkPending_moves hge h))
    unfold unmasked at hm
    split at hm <;> cases hm <;> exact .upd s who rfl id
  | trace req pid data => exact doTrace_moves hD h
  | group =>
    cases h
    exact ⟨s, .refl, .group hcall⟩
  | adjust dc sp =>
    cases h
    exact hsame (.quiet (adjust_quiet s who dc sp))
  | flags g hg =>
    cases h
    rcases hg with ⟨on, rfl⟩ | rfl
    · exact hsame (.quiet (setAlarm_quiet s who on))
    · exact hsame (.quiet (.upd s who rfl id))
  | same =>
    cases h
    exact hsame .refl

/-! ## Exits in detail -/

/-- The flags of one slot change. -/
theorem updFlags_mproc (s : State) (p x : Slot) (g : MpFlags → MpFlags) :
    (s.updFlags p g).mproc x =
      { s.mproc x with flags := (if x = p then g (s.mproc x).flags else (s.mproc x).flags) } := by
  by_cases hx : x = p
  · subst hx
    simp [State.updFlags]
  · rw [State.updFlags, upd_other s _ hx, if_neg hx]

/-- `cleanup` wakes the parent and frees the slot of the child. -/
theorem cleanup_mproc (s : State) (c : Ctx) (q x : Slot) :
    (s.cleanup c q).mproc x = { s.mproc x with flags :=
      if x = q then .zero
      else if x = (s.mproc q).parent then { (s.mproc x).flags with waiting := false }
      else (s.mproc x).flags } := by
  have h : (s.cleanup c q).mproc x = ((s.updFlags (s.mproc q).parent
      (fun f => { f with waiting := false })).updFlags q (fun _ => .zero)).mproc x := rfl
  rw [h, updFlags_mproc, updFlags_mproc]

/-- What is noted of a `cleanup`. -/
def reapEntry (s : State) (c : Ctx) (q : Slot) : Entry :=
  let m := s.mproc q
  .reaped m.parent q m.pid m.procgrp
    (if (s.mproc m.parent).flags.waiting then some (s.mproc m.parent).wpid else none)
    (s.answers c m.parent)

/-- `cleanup` counts the slot as free, and notes it. -/
theorem cleanup_rest (s : State) (c : Ctx) (q : Slot) :
    (s.cleanup c q).procsInUse = s.procsInUse - 1 ∧ (s.cleanup c q).nextPid = s.nextPid ∧
      (s.cleanup c q).holes = s.holes ∧ (s.cleanup c q).log = reapEntry s c q :: s.log :=
  ⟨rfl, rfl, rfl, rfl⟩

/-- The parent is told of the exit if it waits for this child, and else the process
    hangs. -/
theorem toParent_cases (s : State) (c : Ctx) (p : Slot) :
    ((s.mproc (s.mproc p).parent).flags.waiting = true ∧
        rightChild (s.mproc (s.mproc p).parent).wpid (s.mproc p) = true ∧
        s.toParent c p = s.cleanup c p) ∨
      (¬ ((s.mproc (s.mproc p).parent).flags.waiting = true ∧
          rightChild (s.mproc (s.mproc p).parent).wpid (s.mproc p) = true) ∧
        s.toParent c p = s.hang p) := by
  simp only [State.toParent]
  split
  · rename_i h
    rw [Bool.and_eq_true] at h
    exact .inl ⟨h.1, h.2, rfl⟩
  · rename_i h
    rw [Bool.and_eq_true] at h
    exact .inr ⟨h, rfl⟩

/-- An orphan goes to INIT. -/
theorem reparent_mproc (s : State) (q x : Slot) :
    (s.reparent q).mproc x =
      { s.mproc x with parent := if x = q then initNr else (s.mproc x).parent } := by
  by_cases hx : x = q
  · subst hx
    simp [State.reparent]
  · rw [State.reparent, upd_other s _ hx, if_neg hx]

/-- **THE LOOP RULE** of `disinherit`: what a turn keeps, the loop keeps. -/
theorem disinherit_rule {P : List Slot → State → Prop}
    (hturn : ∀ q qs s, P (q :: qs) s → P qs (s.disinheritOne c p q)) :
    ∀ qs s, P qs s → P [] (s.disinherit c p qs) := by
  intro qs
  induction qs with
  | nil =>
    intro s h
    rwa [State.disinherit]
  | cons q qs ih =>
    intro s h
    rw [State.disinherit]
    exact ih _ (hturn q qs s h)

/-- Find a share, by what the core shows. -/
theorem findShare_core (hc : ∀ q, (s'.mproc q).core = (s.mproc q).core) (p : Slot) (ino : Nat)
    (dev ctime : Int) : s'.findShare p ino dev ctime = s.findShare p ino dev ctime := by
  have hsh : ∀ q, s'.shares ino dev ctime q = s.shares ino dev ctime q := by
    intro q
    have h1 : (s'.mproc q).flags.inUse = (s.mproc q).flags.inUse := congrArg Core.inUse (hc q)
    have h2 : (s'.mproc q).flags.hanging = (s.mproc q).flags.hanging :=
      congrArg Core.hanging (hc q)
    have h3 : (s'.mproc q).flags.separate = (s.mproc q).flags.separate :=
      congrArg Core.separate (hc q)
    have h4 : (s'.mproc q).ino = (s.mproc q).ino := congrArg Core.ino (hc q)
    have h5 : (s'.mproc q).dev = (s.mproc q).dev := congrArg Core.dev (hc q)
    have h6 : (s'.mproc q).ctime = (s.mproc q).ctime := congrArg Core.ctime (hc q)
    simp only [State.shares, State.live, h1, h2, h3, h4, h5, h6]
  simp only [State.findShare, hsh]

/-- What is given back depends on the core only. -/
theorem freeImage_core (hc : ∀ q, (s'.mproc q).core = (s.mproc q).core)
    (hh : s'.holes = s.holes) (p : Slot) : s'.freeImage p = s.freeImage p := by
  have h1 : (s'.mproc p).ino = (s.mproc p).ino := congrArg Core.ino (hc p)
  have h2 : (s'.mproc p).dev = (s.mproc p).dev := congrArg Core.dev (hc p)
  have h3 : (s'.mproc p).ctime = (s.mproc p).ctime := congrArg Core.ctime (hc p)
  have h4 : (s'.mproc p).text = (s.mproc p).text := congrArg Core.text (hc p)
  have h5 : (s'.mproc p).block = (s.mproc p).block := congrArg Core.block (hc p)
  simp only [State.freeImage, findShare_core hc, hh, h1, h2, h3, h4, h5]

/-- **`mm_exit`**: the memory is released, then the parent is told and the children are
    disinherited; `t` is the state between. -/
theorem exitBody_cases {status : Int} (h : s.exitBody c p status = .ok s') :
    ∃ t : State, (∀ q, (t.mproc q).core = (s.mproc q).core) ∧
      (∀ q, (t.mproc q).flags.traced = (s.mproc q).flags.traced) ∧
      t.procsInUse = s.procsInUse ∧ t.nextPid = s.nextPid ∧ s.freeImage p = .ok t.holes ∧
      t.log = .exited p :: s.log ∧ s' = (t.toParent c p).disinherit c p (List.finRange 32) := by
  simp only [State.exitBody] at h
  obtain ⟨holes, hf, rfl⟩ := Except.map_ok h
  -- the alarm does not show in the core
  have h0 : ∀ q, ((if (s.mproc p).flags.alarmOn then s.setAlarm p false else s).mproc q).core =
      (s.mproc q).core ∧
      ((if (s.mproc p).flags.alarmOn then s.setAlarm p false else s).mproc q).flags.traced =
        (s.mproc q).flags.traced := by
    intro q
    split
    · refine ⟨(setAlarm_quiet s p false).core q, ?_⟩
      by_cases hq : q = p
      · subst hq
        simp [State.setAlarm, State.updFlags]
      · rw [State.setAlarm, State.updFlags, upd_other s _ hq]
    · exact ⟨rfl, rfl⟩
  have hrest : SameRest s (if (s.mproc p).flags.alarmOn then s.setAlarm p false else s) := by
    split
    · exact ⟨rfl, rfl, rfl, rfl⟩
    · exact .refl s
  have hfree := hf
  rw [freeImage_core (fun q => (h0 q).1) hrest.holes] at hfree
  refine ⟨_, ?_, ?_, ?_, ?_, ?_, ?_, rfl⟩
  · intro q
    refine Eq.trans ?_ (h0 q).1
    by_cases hq : q = p
    · subst hq
      simp [State.note, Mproc.core, Mproc.block, Mproc.text]
    · simp [State.note, State.upd, hq]
  · intro q
    refine Eq.trans ?_ (h0 q).2
    by_cases hq : q = p
    · subst hq
      simp [State.note]
    · simp [State.note, State.upd, hq]
  · exact hrest.procsInUse
  · exact hrest.nextPid
  · exact hfree
  · exact congrArg (Entry.exited p :: ·) hrest.log

/-! ## The log grows -/

theorem disinheritOne_log (s : State) (c : Ctx) (p q : Slot) :
    s.log <:+ (s.disinheritOne c p q).log := by
  simp only [State.disinheritOne]
  split
  · split
    · exact List.suffix_cons _ _
    · exact List.suffix_rfl
  · exact List.suffix_rfl

theorem disinherit_log (s : State) (c : Ctx) (p : Slot) (qs : List Slot) :
    s.log <:+ (s.disinherit c p qs).log :=
  disinherit_rule (P := fun _ t => s.log <:+ t.log)
    (fun q _ t ht => ht.trans (disinheritOne_log t c p q)) qs s List.suffix_rfl

theorem toParent_log (s : State) (c : Ctx) (p : Slot) : s.log <:+ (s.toParent c p).log := by
  rcases toParent_cases s c p with ⟨-, -, h⟩ | ⟨-, h⟩
  · rw [h]
    exact List.suffix_cons _ _
  · rw [h]
    exact List.suffix_rfl

/-- An exit is noted first. -/
theorem exitBody_log {status : Int} (h : s.exitBody c p status = .ok s') :
    (.exited p :: s.log) <:+ s'.log := by
  obtain ⟨t, -, -, -, -, -, hlog, rfl⟩ := exitBody_cases h
  rw [← hlog]
  exact (toParent_log t c p).trans (disinherit_log _ c p _)

/-- **THE HISTORY ONLY GROWS.** -/
theorem Move.log (h : Move D c s s') : s.log <:+ s'.log := by
  cases h with
  | quiet hq => rw [hq.log]
  | wake p | toldStop p _ _ _ _ => exact List.suffix_cons _ _
  | exit p status _ _ _ hs => exact (List.suffix_cons _ _).trans (exitBody_log hs)
  | mmGroup n => exact List.suffix_rfl

theorem Moves.log (h : Moves D c s s') : s.log <:+ s'.log := by
  induction h with
  | refl => exact List.suffix_rfl
  | step _ hm ih => exact ih.trans hm.log

end Mm
