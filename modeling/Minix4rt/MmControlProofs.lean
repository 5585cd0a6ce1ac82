import Minix4rt.MmSignalModelProofs

/-! # The control flow of MM

    A signal goes through `check_sig`, `sig_proc` and `mm_exit`, which calls `check_sig`
    again.  What holds of the ends, `sig_proc` on one process and the body of an exit, holds
    of all of it: `SigRule` says what has to be shown, about the result of a step, good or
    bad, and the rest of this file carries it through the loops and the recursion.

    Requests and `ptrace` are cut into their cases once, by `ServeCase` and `TraceCase`. -/

namespace Mm

open Regions State Option

variable {s s' s1 : State} {p q who : Slot} {c : Ctx} {e : Env} {kill : Kill} {sg : Sig}

theorem Except.map_ok {α β ε : Type} {x : Except ε α} {f : α → β} {b : β}
    (h : x.map f = .ok b) : ∃ a, x = .ok a ∧ b = f a := by
  cases x with
  | error e => cases h
  | ok a => exact ⟨a, rfl, (Except.ok.inj h).symm⟩

theorem map_fst {α β γ ε : Type} (x : Except ε α) (f : α → β × γ) :
    (x.map f).map Prod.fst = x.map (fun a => (f a).1) := by
  cases x <;> rfl

theorem map_answer {α γ ε : Type} (x : Except ε α) (r : γ) :
    (x.map (fun a => (a, r))).map Prod.fst = x := by
  cases x <;> rfl

theorem live_iff : s.live p = true ↔
    (s.mproc p).flags.inUse = true ∧ (s.mproc p).flags.hanging = false := by
  simp only [State.live, Bool.and_eq_true, Bool.not_eq_true']

theorem canCall_iff : s.canCall who = true ↔ initNr ≤ who ∧ s.live who = true ∧
    (s.mproc who).flags.waiting = false ∧ (s.mproc who).flags.paused = false ∧
    (s.mproc who).flags.sigsuspended = false := by
  simp only [State.canCall, Bool.and_eq_true, decide_eq_true_eq, Bool.not_eq_true', and_assoc]

theorem mem_userSlots : ∀ p ∈ userSlots, initNr ≤ p := by
  intro p hp
  have h := (List.mem_filter.mp hp).2
  simpa using h

theorem findproc_some {pid : Int} (h : s.findproc pid = some p) :
    initNr ≤ p ∧ (s.mproc p).flags.inUse = true := by
  have hp := List.find?_some h
  simp only [Bool.and_eq_true, decide_eq_true_eq] at hp
  exact ⟨Nat.le_of_lt hp.1.1, hp.1.2⟩

/-! ## One signal -/

/-- What `sig_proc` does with a process that is alive. -/
inductive SigCase (kill : Kill) (e : Env) (s : State) (p : Slot) (sg : Sig) :
    Except Panic State → Prop where
  | stop : (s.mproc p).flags.traced = true → sg ≠ sigkill →
      SigCase kill e s p sg (.ok ((s.unpause p).stopProc p sg))
  | ignored : sg ∈ (s.mproc p).ignore → SigCase kill e s p sg (.ok s)
  | pend : sg ∉ (s.mproc p).ignore → sg ∈ (s.mproc p).sigmask →
      SigCase kill e s p sg
        (.ok (s.upd p (fun m => { m with sigpending := insert sg m.sigpending })))
  | handle : ((s.mproc p).flags.traced = true → sg = sigkill) → sg ∉ (s.mproc p).ignore →
      sg ∉ (s.mproc p).sigmask → sg ∈ (s.mproc p).catched →
      SigCase kill e s p sg (.ok (((s.adjust p (s.mproc p).segD.len (e.sigSp p)).1.upd p
        (fun m => caught m sg)).unpause p))
  | kill : SigCase kill e s p sg (s.terminate kill e p sg)
  | stuck : SigCase kill e s p sg (.error .rtTask)

theorem sigProc_cases (hl : s.live p = true) : SigCase kill e s p sg (s.sigProc kill e p sg) := by
  obtain ⟨hin, hhang⟩ := live_iff.mp hl
  simp only [State.sigProc, hin, hhang, not_true_eq_false, Bool.false_eq_true, if_false]
  split
  · rename_i ht
    exact .stop ht.1 ht.2
  rename_i ht
  split
  · rename_i hig
    exact .ignored hig
  rename_i hig
  split
  · exact .stuck
  split
  · rename_i hm
    exact .pend hig hm
  rename_i hm
  split
  · rename_i hc
    have htr : (s.mproc p).flags.traced = true → sg = sigkill :=
      fun h => Classical.byContradiction (fun hne => ht ⟨h, hne⟩)
    have hcase : SigCase kill e s p sg _ := .handle htr hig hm hc
    simp only [State.adjust] at hcase ⊢
    -- without room for the frame the state is as it was
    cases hadj : adjustMap (s.mproc p) (s.mproc p).segD.len (e.sigSp p) with
    | none => exact .kill
    | some m =>
      rw [hadj] at hcase
      exact hcase
  · exact .kill

/-- A signal gets somewhere only with a process that is alive. -/
theorem sigProc_live (h : s.sigProc kill e p sg = .ok s') : s.live p = true := by
  simp only [State.sigProc] at h
  split at h
  · cases h
  rename_i hin
  split at h
  · cases h
  rename_i hhang
  exact live_iff.mpr ⟨by simpa using hin, by simpa using hhang⟩

/-! ## Loops and recursion -/

/-- What is shown of exits and of single signals, about where they come from and how they
    end. -/
structure SigRule (c : Ctx) (P : State → Except Panic State → Prop) : Prop where
  stay : ∀ s, P s (.ok s)
  seq : ∀ {s s1 r}, P s (.ok s1) → P s1 r → P s r
  stuck : ∀ s x, x = .depth ∨ x = .rtTask → P s (.error x)
  alarm : ∀ s p, P s (.ok (s.setAlarm p false))
  exit : ∀ s p status, initNr ≤ p → s.live p = true → P s (s.exitBody c p status)
  sig : ∀ {kill : Kill}, (∀ s p, initNr ≤ p → s.live p = true → P s (kill s p)) →
    ∀ s e p sg, initNr ≤ p → s.live p = true → sg ≠ 0 → P s (s.sigProc kill e p sg)

/-- The state is related to the state at the end, if that is reached. -/
def Ends (R : State → State → Prop) (s : State) (r : Except Panic State) : Prop :=
  ∀ s', r = .ok s' → R s s'

theorem SigRule.of_rel {R : State → State → Prop} (hrefl : ∀ s, R s s)
    (htrans : ∀ {s s1 s'}, R s s1 → R s1 s' → R s s') (halarm : ∀ s p, R s (s.setAlarm p false))
    (hexit : ∀ s p status s', initNr ≤ p → s.live p = true → s.exitBody c p status = .ok s' →
      R s s')
    (hsig : ∀ {kill : Kill}, (∀ s p, initNr ≤ p → s.live p = true → Ends R s (kill s p)) →
      ∀ s e p sg s', initNr ≤ p → s.live p = true → sg ≠ 0 → s.sigProc kill e p sg = .ok s' →
        R s s') : SigRule c (Ends R) where
  stay s _ h := Except.ok.inj h ▸ hrefl s
  seq h1 h2 s' h := htrans (h1 _ rfl) (h2 s' h)
  stuck _ _ _ _ h := nomatch h
  alarm s p _ h := Except.ok.inj h ▸ halarm s p
  exit s p status hp hl s' h := hexit s p status s' hp hl h
  sig hk s e p sg hp hl hsg s' h := hsig hk s e p sg s' hp hl hsg h

section

variable {P : State → Except Panic State → Prop} (hP : SigRule c P)
include hP

theorem SigRule.sigLoop (hk : ∀ s p, initNr ≤ p → s.live p = true → P s (kill s p)) (e : Env)
    (mp : Slot) (procId : Int) (sg : Sig) (ps : List Slot) (hps : ∀ p ∈ ps, initNr ≤ p)
    (s : State) (n : Nat) (b : Bool) :
    P s ((sigLoop kill e mp procId sg ps s n b).map Prod.fst) := by
  induction ps generalizing s n b with
  | nil => exact hP.stay s
  | cons p ps ih =>
    have hps' : ∀ q ∈ ps, initNr ≤ q := fun q hq => hps q (List.mem_cons_of_mem _ hq)
    rw [State.sigLoop]
    split
    · exact ih hps' s n b
    rename_i hin
    split
    · exact ih hps' s n b
    rename_i hhang
    split
    · exact ih hps' s n b
    split
    · exact ih hps' s n true
    split
    · exact ih hps' s (n + 1) b
    rename_i hsg
    have hl : s.live p = true := live_iff.mpr ⟨by simpa using hin, by simpa [hsg] using hhang⟩
    have h1 := hP.sig hk s e p sg (hps p List.mem_cons_self) hl hsg
    split
    · rename_i x hx
      rw [hx] at h1
      exact h1
    · rename_i s1 hx
      rw [hx] at h1
      split
      · exact h1
      · exact hP.seq h1 (ih hps' s1 (n + 1) b)

theorem SigRule.checkSig (hk : ∀ s p, initNr ≤ p → s.live p = true → P s (kill s p)) (s : State)
    (e : Env) (mp : Slot) (procId signo : Int) :
    P s ((s.checkSig kill e mp procId signo).map Prod.fst) := by
  rw [State.checkSig]
  split
  · rename_i h
    have hloop := hP.sigLoop hk e mp procId ⟨signo.toNat, h.2⟩ userSlots mem_userSlots s 0 false
    dsimp only
    split
    · exact hP.stay s
    split
    · rename_i x hx
      rw [hx] at hloop
      exact hloop
    · rename_i s1 n b hx
      rw [hx] at hloop
      exact hloop
  · exact hP.stay s

/-- An exit and its hangup, if the exit itself is shown. -/
theorem SigRule.mmExit_of (n : Nat) {status : Int} (h : P s (s.exitBody c p status)) :
    P s (mmExit e c n status s p) := by
  induction n generalizing s p status with
  | zero => exact hP.stuck s _ (.inl rfl)
  | succ n ih =>
    simp only [mmExit]
    split
    · exact hP.stuck s _ (.inr rfl)
    split
    · rename_i x hx
      rw [hx] at h
      exact h
    · rename_i s1 hx
      rw [hx] at h
      split
      · exact h
      · exact hP.seq h (hP.checkSig (fun t q hq hl => ih (hP.exit t q 0 hq hl)) s1 e c.mp _ _)

theorem SigRule.killSig (s : State) (p : Slot) (hp : initNr ≤ p) (hl : s.live p = true) :
    P s (killSig e c s p) :=
  hP.mmExit_of _ (hP.exit s p 0 hp hl)

end

/-- The signals of the kernel, if the new group of MM is shown. -/
theorem SigRule.doKsig {P : State → Except Panic State → Prop} (hP : SigRule ⟨-1, mmNr⟩ P)
    (hgrp : ∀ (s : State) n, P s (.ok (s.upd mmNr (fun m => { m with procgrp := n }))))
    (s : State) (e : Env) (p : Slot) (map : Finset Sig) : P s (s.doKsig e p map) := by
  have hloop : ∀ procId is s, P s (ksigLoop e p procId is s) := by
    intro procId is
    induction is with
    | nil => exact hP.stay
    | cons i is ih =>
      intro s
      rw [ksigLoop]
      split
      · exact ih s
      dsimp only
      have hset : P s (.ok (if i = sigalrm then s.setAlarm p false else s)) := by
        split
        · exact hP.alarm s p
        · exact hP.stay s
      refine hP.seq hset ?_
      generalize (if i = sigalrm then s.setAlarm p false else s) = t
      generalize (if i = sigint ∨ i = sigquit then 0 else if i = sigkill then -1 else procId) = n
      have hc := hP.checkSig (hP.killSig (e := e)) t e mmNr n i.val
      split
      · rename_i x hx
        rw [hx] at hc
        exact hc
      · rename_i s1 r hx
        rw [hx] at hc
        exact hP.seq hc (ih s1)
  rw [State.doKsig]
  split
  · exact hP.stay s
  · exact hP.seq (hgrp s _) (hloop _ _ _)

/-! ## Signals that wait -/

theorem deliverable_iff {m : Mproc} {i : Sig} : deliverable m i = true ↔
    1 ≤ i.val ∧ i.val < 16 ∧ i ∈ m.sigpending ∧ i ∉ m.sigmask := by
  simp only [deliverable, Bool.and_eq_true, decide_eq_true_eq, Bool.not_eq_true',
    decide_eq_false_iff_not, and_assoc]

/-- **`check_pending`** delivers the first signal that it finds, if any. -/
theorem checkPending_cases (s : State) (e : Env) (c : Ctx) :
    (s.checkPending e c = .ok s ∧ ∀ i, deliverable (s.mproc c.mp) i = false) ∨
      ∃ i, deliverable (s.mproc c.mp) i = true ∧ s.checkPending e c =
        (s.upd c.mp (fun m => { m with sigpending := m.sigpending.erase i })).sigProc
          (killSig e c) e c.mp i := by
  simp only [State.checkPending]
  split
  · rename_i hnone
    refine .inl ⟨rfl, fun i => ?_⟩
    have hi := List.find?_eq_none.mp hnone i (List.mem_finRange i)
    simpa using hi
  · rename_i i hi
    exact .inr ⟨i, List.find?_some hi, rfl⟩

/-! ## Tracing -/

/-- What `do_trace` does. -/
inductive TraceCase (s : State) (e : Env) (c : Ctx) (req : TraceReq) (pid data : Int) :
    Except Panic State → Prop where
  | same : TraceCase s e c req pid data (.ok s)
  | traceMe : TraceCase s e c req pid data
      (.ok (s.updFlags c.mp (fun f => { f with traced := true })))
  | exit {p : Slot} : req = .exit → s.findproc pid = some p → (s.mproc p).flags.stopped = true →
      TraceCase s e c req pid data (mmExit e c exitDepth data s p)
  | go {p : Slot} : TraceCase s e c req pid data
      (.ok (s.updFlags p (fun f => { f with stopped := false })))
  /-- the child is not traced while it gets the signal -/
  | signal {p : Slot} {sg : Sig} : req = .resume ∨ req = .step → s.findproc pid = some p →
      (s.mproc p).flags.stopped = true → sg ≠ 0 → data = sg.val →
      TraceCase s e c req pid data (((s.updFlags p (fun f => { f with traced := false })).sigProc
        (killSig e c) e p sg).map (fun s =>
          (s.updFlags p (fun f => { f with traced := true })).updFlags p
            (fun f => { f with stopped := false })))

theorem doTrace_cases (s : State) (e : Env) (c : Ctx) (req : TraceReq) (pid data : Int) :
    TraceCase s e c req pid data ((s.doTrace e c req pid data).map Prod.fst) := by
  rw [State.doTrace]
  split
  · exact .traceMe
  split
  · exact .same
  rename_i p hp
  split
  · exact .same
  rename_i hst
  have hst : (s.mproc p).flags.stopped = true := by simpa using hst
  -- the two requests that let the child go on
  have hresume : req = .resume ∨ req = .step → TraceCase s e c req pid data
      ((if data < 0 ∨ 16 < data then (.ok (s, .eio) : Except Panic (State × Code))
      else if h : 0 < data ∧ data.toNat < 17 then
        ((s.updFlags p (fun f => { f with traced := false })).sigProc
          (killSig e c) e p ⟨data.toNat, h.2⟩).map (fun s =>
          ((s.updFlags p (fun f => { f with traced := true })).updFlags p
            (fun f => { f with stopped := false }), if e.traceOk then .ok else .eio))
        else .ok (s.updFlags p (fun f => { f with stopped := false }),
          if e.traceOk then .ok else .eio)).map Prod.fst) := by
    intro hreq
    split
    · exact .same
    split
    · rename_i h
      rw [map_fst]
      refine .signal hreq hp hst (fun h0 => ?_) (by show data = (data.toNat : Int); omega)
      have hv := congrArg Fin.val h0
      simp only [Fin.val_zero] at hv
      omega
    · exact .go
  cases req with
  | ok | other => exact .same
  | exit =>
    dsimp only
    rw [map_answer]
    exact .exit rfl hp hst
  | resume => exact hresume (.inl rfl)
  | step => exact hresume (.inr rfl)

/-! ## Requests -/

/-- The requests that may block until a child exits. -/
def Req.waits : Req → Bool
  | .wait | .waitpid _ _ => true
  | _ => false

/-- The slot of the caller after a call has changed its mask, for the calls that look for
    pending signals then. -/
def unmasked : Req → Mproc → Option Mproc
  | .sigprocmask .unblock set, m => some { m with sigmask := m.sigmask \ inLoop set }
  | .sigprocmask .setmask set, m => some { m with sigmask := set.erase sigkill }
  | .sigsuspend set, m => some
      { m with
        sigmask2 := m.sigmask
        sigmask := set.erase sigkill
        flags := { m.flags with sigsuspended := true } }
  | .sigreturn set, m => some { m with sigmask := set.erase sigkill }
  | _, _ => none

/-- Such a call ends with `check_pending`. -/
theorem serve_unmasked {r : Req} {m : Mproc} (hm : unmasked r (s.mproc who) = some m) :
    (s.serve who e r).map Prod.fst =
      (s.upd who (fun _ => m)).checkPending e ⟨who.val, who⟩ := by
  unfold unmasked at hm
  split at hm <;> cases hm <;> rw [State.serve]
  case h_3 | h_4 => exact map_answer _ _
  all_goals
    rw [map_fst, State.doSigprocmask]
    exact map_answer _ _

/-- What a request of `who` does to the state of MM. -/
inductive ServeCase (s : State) (who : Slot) (e : Env) : Req → Except Panic State → Prop where
  | fork : ServeCase s who e .fork ((s.doFork who).map Prod.fst)
  | exit (status : Int) :
      ServeCase s who e (.exit status) (mmExit e ⟨who.val, who⟩ exitDepth status s who)
  | wait {r : Req} (pid : Int) (nohang : Bool) : r.waits = true →
      ServeCase s who e r (.ok (s.doWaitpid ⟨who.val, who⟩ pid nohang).1)
  | exec (x : ExecCall) : ServeCase s who e (.exec x) ((s.doExec who x).map Prod.fst)
  | kill (pid sig : Int) : ServeCase s who e (.kill pid sig)
      ((s.checkSig (killSig e ⟨who.val, who⟩) e who pid sig).map Prod.fst)
  | action (sg : Sig) (a : SigAction) : sg ≠ 0 → sg ≠ sigkill →
      ServeCase s who e (.sigaction sg.val (some a)) (.ok (s.upd who (fun m => setAction m sg a)))
  | block (set : Finset Sig) : ServeCase s who e (.sigprocmask .block set)
      (.ok (s.upd who (fun m => { m with sigmask := m.sigmask ∪ (inLoop set).erase sigkill })))
  | pending {r : Req} {m : Mproc} : unmasked r (s.mproc who) = some m →
      ServeCase s who e r ((s.upd who (fun _ => m)).checkPending e ⟨who.val, who⟩)
  | trace (req : TraceReq) (pid data : Int) : ServeCase s who e (.trace req pid data)
      ((s.doTrace e ⟨who.val, who⟩ req pid data).map Prod.fst)
  | group : ServeCase s who e .setsid (.ok (s.upd who (fun m => { m with procgrp := m.pid })))
  | adjust {r : Req} (dc : Nat) (sp : BitVec 32) :
      ServeCase s who e r (.ok (s.adjust who dc sp).1)
  | flags {r : Req} (g : MpFlags → MpFlags) :
      (∃ on, g = fun f => { f with alarmOn := on }) ∨ g = (fun f => { f with paused := true }) →
      ServeCase s who e r (.ok (s.updFlags who g))
  | ids {r : Req} (ruid euid rgid egid : Int) : ServeCase s who e r (.ok (s.upd who (fun m =>
      { m with realuid := ruid, effuid := euid, realgid := rgid, effgid := egid })))
  | same {r : Req} : ServeCase s who e r (.ok s)

/-- **EVERY REQUEST**, by its kind. -/
theorem serve_cases (s : State) (who : Slot) (e : Env) (r : Req) :
    ServeCase s who e r ((s.serve who e r).map Prod.fst) := by
  have hpending : ∀ {r : Req} {m : Mproc}, unmasked r (s.mproc who) = some m →
      ServeCase s who e r ((s.serve who e r).map Prod.fst) := fun hm => by
    rw [serve_unmasked hm]
    exact .pending hm
  cases r with
  | fork =>
    rw [State.serve, map_fst]
    exact .fork
  | exit status =>
    rw [State.serve, map_answer]
    exact .exit status
  | wait => exact .wait (-1) false rfl
  | waitpid pid nohang => exact .wait pid nohang rfl
  | brk addr =>
    show ServeCase s who e _ (.ok (s.doBrk who addr (e.sp who)).1)
    simp only [State.doBrk]
    split
    · exact .same
    · exact .adjust _ _
  | exec x =>
    rw [State.serve, map_fst]
    exact .exec x
  | kill pid sig =>
    rw [State.serve, map_fst]
    exact .kill pid sig
  | alarm on => exact .flags (fun f => { f with alarmOn := on }) (.inl ⟨on, rfl⟩)
  | pause => exact .flags (fun f => { f with paused := true }) (.inr rfl)
  | sigaction nr act =>
    show ServeCase s who e _ (.ok (s.doSigaction who nr act).1)
    simp only [State.doSigaction]
    split
    · exact .same
    rename_i hk
    split
    · rename_i hnr
      split
      · exact .same
      · rename_i a
        have hval : nr = ((⟨nr.toNat, hnr.2⟩ : Sig).val : Int) := by
          show nr = ((nr.toNat : Nat) : Int)
          omega
        have hcase : ServeCase s who e _ _ := .action ⟨nr.toNat, hnr.2⟩ a
          (fun h0 => by
            have hv := congrArg Fin.val h0
            simp only [Fin.val_zero] at hv
            omega)
          (fun h0 => hk (hval.trans (by rw [h0])))
        rw [← hval] at hcase
        exact hcase
    · exact .same
  | sigprocmask how set =>
    cases how with
    | block => exact .block set
    | unblock | setmask => exact hpending rfl
    | inquire | other => exact .same
  | sigsuspend set | sigreturn set => exact hpending rfl
  | trace req pid data =>
    rw [State.serve, map_fst]
    exact .trace req pid data
  | setuid uid =>
    rw [State.serve]
    split
    · exact .same
    · exact .ids uid uid (s.mproc who).realgid (s.mproc who).effgid
  | setgid gid =>
    rw [State.serve]
    split
    · exact .same
    · exact .ids (s.mproc who).realuid (s.mproc who).effuid gid gid
  | setsid =>
    rw [State.serve]
    split
    · exact .same
    · exact .group
  | get => exact .same

end Mm
