import Minix4rt.RendezvousStepsProofs
import Minix4rt.WaitGraphProofs

/-! # Deadlock freedom of the MINIX rendezvous

    The wait graph maps every `SENDING` process to its `p_sendto`.  `mini_send` adds
    an edge only after a walk along the graph, and that walk has no bound of its own.

    The walk never looks at the destination itself, so a task or server that sends to
    ITSELF is queued on its own chain: the graph has a loop, and the next sender to it
    walks forever.  Without such sends the graph stays acyclic and every walk ends. -/

namespace Kernel

open Vtimer WaitGraph KState Function Option

/-- Whom a process waits to send to. -/
def KState.waitsFor (s : KState) (p : Proc) : Option Proc :=
  if (s.mx.flags p).sending then procAddr (s.mx.sendto p) else none

/-- Two states with the same wait graph. -/
structure SameSend (s s' : KState) : Prop where
  sendto : s'.mx.sendto = s.mx.sendto
  sending : ∀ p, (s'.mx.flags p).sending = (s.mx.flags p).sending

variable {s s' : KState} {c : Proc} {r : Code}

theorem SameSend.of_mx (h : s'.mx = s.mx) : SameSend s s' := ⟨by rw [h], fun p => by rw [h]⟩

theorem SameSend.trans {s'' : KState} (h : SameSend s s') (h' : SameSend s' s'') :
    SameSend s s'' :=
  ⟨h'.sendto.trans h.sendto, fun p => (h'.sending p).trans (h.sending p)⟩

theorem SameSend.setPFlags (p : Proc) {g : PFlags → PFlags}
    (hg : ∀ f, (g f).sending = f.sending) : SameSend s (s.setPFlags p g) := by
  refine ⟨rfl, fun q => ?_⟩
  by_cases hq : q = p
  · subst hq
    simp [KState.setPFlags, hg]
  · simp [KState.setPFlags, hq]

theorem SameSend.informed (p : Proc) : SameSend s (s.informed p) :=
  ⟨rfl, (SameSend.setPFlags (s := s) p (g := fun f => { f with pending := false })
    (fun _ => rfl)).sending⟩

/-! ## What scheduling leaves alone -/

theorem SameSend.of_rdy (h : RdyOnly s s') : SameSend s s' :=
  ⟨by rw [h.mx], fun p => by rw [h.flags]⟩

theorem SameSend.of_links (h : LinksOnly s s') : SameSend s s' :=
  ⟨h.sendto, fun p => by rw [h.flags]⟩

/-! ## The invariant -/

/-- Every sender names a slot, and the wait graph is acyclic. -/
structure NoDeadlock (s : KState) : Prop where
  valid : ∀ p, (s.mx.flags p).sending → (procAddr (s.mx.sendto p)).isSome
  acyclic : Acyclic s.waitsFor

theorem SameSend.noDeadlock (h : SameSend s s') (hs : NoDeadlock s) : NoDeadlock s' := by
  have hw : s'.waitsFor = s.waitsFor := by
    funext p
    unfold KState.waitsFor
    rw [h.sending, h.sendto]
  refine ⟨fun p hp => ?_, hw ▸ hs.acyclic⟩
  rw [h.sendto]
  exact hs.valid p (by rw [← h.sending]; exact hp)

/-- A process that stops sending takes one edge away. -/
theorem NoDeadlock.clear (hs : NoDeadlock s) (p : Proc) {g : PFlags → PFlags}
    (hg : ∀ f, (g f).sending = false) : NoDeadlock (s.setPFlags p g) := by
  have hsend : ∀ q, ((s.setPFlags p g).mx.flags q).sending → (s.mx.flags q).sending := by
    intro q hq
    by_cases hqp : q = p
    · subst hqp
      simp [KState.setPFlags, hg] at hq
    · simpa [KState.setPFlags, hqp] using hq
  refine ⟨fun q hq => hs.valid q (hsend q hq), hs.acyclic.mono (fun q w hq => ?_)⟩
  unfold KState.waitsFor at hq ⊢
  split at hq
  · rename_i hf
    rw [if_pos (hsend q hf)]
    exact hq
  · cases hq

/-- The check depends only on the wait graph. -/
theorem SameSend.deadlock_eq (h : SameSend s s') (c d : Proc) :
    s'.deadlock c d = s.deadlock c d := by
  have hsearch : ∀ n o, s'.deadlockSearch c n o = s.deadlockSearch c n o := by
    intro n
    induction n with
    | zero => exact fun _ => rfl
    | succ n ih =>
      intro o
      cases o with
      | none => rfl
      | some v => simp only [KState.deadlockSearch, h.sending, h.sendto, ih]
  simp only [KState.deadlock, h.sending, h.sendto, hsearch]

/-- A search that finds nothing has seen everything its start reaches. -/
theorem deadlockSearch_false : ∀ {n : Nat} {v : Proc},
    s.deadlockSearch c n (some v) = some false → ¬ Reaches s.waitsFor v c := by
  intro n
  induction n with
  | zero => exact fun h => nomatch h
  | succ n ih =>
    intro v h hr
    unfold KState.deadlockSearch at h
    split at h
    · cases h
    · rename_i hvc
      split at h
      · rename_i hsend
        cases hto : procAddr (s.mx.sendto v) with
        | none =>
          rw [hto] at h
          cases n <;> cases h
        | some u =>
          rw [hto] at h
          have hv : s.waitsFor v = some u := by
            unfold KState.waitsFor
            rw [if_pos hsend, hto]
          rcases reaches_of_some hv hr with rfl | hu
          · exact hvc rfl
          · exact ih h hu
      · rename_i hsend
        have hv : s.waitsFor v = none := by
          unfold KState.waitsFor
          rw [if_neg hsend]
        exact hvc (reaches_of_none hv hr).symm

/-- A search that does not end has a walk as long as its fuel. -/
private theorem walk_of_deadlockSearch_none
    (hval : ∀ p, (s.mx.flags p).sending → (procAddr (s.mx.sendto p)).isSome) :
    ∀ {n : Nat} {v : Proc}, s.deadlockSearch c n (some v) = none →
      (walk s.waitsFor n v).isSome := by
  intro n
  induction n with
  | zero => exact fun _ => rfl
  | succ n ih =>
    intro v h
    unfold KState.deadlockSearch at h
    split at h
    · cases h
    · split at h
      · rename_i hsend
        obtain ⟨u, hu⟩ := isSome_iff_exists.mp (hval v hsend)
        rw [hu] at h
        have hv : s.waitsFor v = some u := by
          unfold KState.waitsFor
          rw [if_pos hsend, hu]
        rw [walk_of_some hv]
        exact ih h
      · cases h

/-- **THE SEARCH LOOP OF `mini_send` ENDS**, for every caller and destination. -/
theorem NoDeadlock.deadlock_isSome (hs : NoDeadlock s) (c d : Proc) :
    (s.deadlock c d).isSome := by
  unfold KState.deadlock
  split
  · rename_i hsend
    obtain ⟨v, hv⟩ := isSome_iff_exists.mp (hs.valid d hsend)
    rw [hv]
    cases hf : s.deadlockSearch c 43 (some v) with
    | some b => rfl
    | none =>
      have hw := walk_of_deadlockSearch_none hs.valid hf
      have hend := hs.acyclic.walk_eq_none v
      rw [Fintype.card_fin] at hend
      rw [hend] at hw
      cases hw
  · rfl

/-- A send that passes the check to another process adds a harmless edge. -/
theorem NoDeadlock.markSending (hs : NoDeadlock s) {d : Proc} {dest : Int}
    (hd : procAddr dest = some d) (hcd : c ≠ d) (hdl : s.deadlock c d = some false) :
    NoDeadlock (s.markSending c dest) := by
  have hdc : ¬ Reaches s.waitsFor d c := by
    intro hr
    unfold KState.deadlock at hdl
    split at hdl
    · rename_i hsend
      obtain ⟨v, hv⟩ := isSome_iff_exists.mp (hs.valid d hsend)
      have hdv : s.waitsFor d = some v := by
        unfold KState.waitsFor
        rw [if_pos hsend, hv]
      rw [hv] at hdl
      rcases reaches_of_some hdv hr with rfl | hvr
      · exact hcd rfl
      · exact deadlockSearch_false hdl hvr
    · rename_i hsend
      have hdn : s.waitsFor d = none := by
        unfold KState.waitsFor
        rw [if_neg hsend]
      exact hcd (reaches_of_none hdn hr)
  have hw : (s.markSending c dest).waitsFor = update s.waitsFor c (some d) := by
    funext p
    unfold KState.waitsFor
    by_cases hp : p = c
    · subst hp
      simp [KState.markSending, KState.setPFlags, hd]
    · simp [KState.markSending, KState.setPFlags, hp]
  refine ⟨fun p hp => ?_, hw ▸ hs.acyclic.update hdc⟩
  by_cases hpc : p = c
  · subst hpc
    simp [KState.markSending, hd]
  · simp only [KState.markSending, KState.setPFlags, update_of_ne hpc] at hp ⊢
    exact hs.valid p hp

/-! ## The operations -/

theorem miniSend_noDeadlock (hs : NoDeadlock s) {dest : Int} {ok : Bool}
    (hcd : procAddr dest ≠ some c) (h : s.miniSend c dest ok = some (s', r)) :
    NoDeadlock s' := by
  rcases miniSend_cases h with ⟨-, rfl⟩ | ⟨-, d, hd, -, hsend⟩
  · exact hs
  cases hsend with
  | direct _ he =>
    -- only the `RECEIVING` bit of the destination and a ready queue change
    subst he
    have same := SameSend.setPFlags (s := s) d
      (g := fun f => { f with receiving := false }) (fun _ => rfl)
    exact (same.trans (.of_rdy (readyIfZero_only _ d))).noDeadlock hs
  | queued _ hdl h1 h2 =>
    have same := SameSend.of_rdy (unreadyIfZero_only h1)
    have hne : c ≠ d := fun e => hcd (e ▸ hd)
    exact (SameSend.of_links (joinCallers_links h2)).noDeadlock
      ((same.noDeadlock hs).markSending hd hne ((same.deadlock_eq c d).trans hdl))

theorem inform_noDeadlock (hs : NoDeadlock s) (h : s.inform = some s') : NoDeadlock s' := by
  rcases inform_cases h with ⟨-, rfl⟩ | ⟨rp, s1, -, h1, h2⟩
  · exact hs
  have hs1 : NoDeadlock s1 := by
    refine miniSend_noDeadlock (s := { s with mx := { s.mx with
      sigProcs := s.mx.sigProcs - 1 } }) ⟨hs.valid, hs.acyclic⟩ ?_ h1
    decide
  exact (SameSend.of_mx (pickProc_only h2).2).noDeadlock ((SameSend.informed rp).noDeadlock hs1)

theorem blockReceiver_noDeadlock (hs : NoDeadlock s) {src : Int}
    (h : s.blockReceiver c src = some s') : NoDeadlock s' := by
  obtain ⟨s1, h1, h⟩ := blockReceiver_cases h
  have hs0 : NoDeadlock { s with mx := { s.mx with
      getfrom := update s.mx.getfrom c src } } := ⟨hs.valid, hs.acyclic⟩
  have hs2 := (SameSend.setPFlags (s := s1) c (g := fun f => { f with receiving := true })
    (fun _ => rfl)).noDeadlock ((SameSend.of_rdy (unreadyIfZero_only h1)).noDeadlock hs0)
  rcases h with ⟨-, rfl⟩ | ⟨-, -, -, h⟩
  · exact hs2
  · exact inform_noDeadlock hs2 h

theorem acceptFrom_noDeadlock (hs : NoDeadlock s) {p : Proc} {prev : Option Proc}
    (h : s.acceptFrom c prev p = some s') : NoDeadlock s' := by
  obtain ⟨s1, -, hlinks, rfl⟩ := acceptFrom_cases h
  have hs1 := (SameSend.of_links hlinks).noDeadlock hs
  exact (SameSend.of_rdy (readyIfZero_only _ p)).noDeadlock (hs1.clear p (fun _ => rfl))

theorem miniRec_noDeadlock (hs : NoDeadlock s) {src : Int}
    (h : s.miniRec c src = some (s', r)) : NoDeadlock s' := by
  obtain ⟨-, ⟨-, prev, p, -, h⟩ | ⟨-, -, -, -, rfl⟩ | ⟨-, h⟩⟩ := miniRec_cases h
  · exact acceptFrom_noDeadlock hs h
  · exact ⟨hs.valid, hs.acyclic⟩
  · exact blockReceiver_noDeadlock hs h

theorem sysCall_noDeadlock (hs : NoDeadlock s) {fn : Fn} {n : Int} {ok : Bool}
    (hself : fn = .receive ∨ procAddr n ≠ some c)
    (h : s.sysCall c fn n ok = some (s', r)) : NoDeadlock s' := by
  rcases sysCall_cases h with
    ⟨-, rfl⟩ | ⟨-, -, ⟨-, hm⟩ | ⟨rfl, hm⟩ | ⟨rfl, s1, h1, hm⟩ | ⟨rfl, -, hm⟩⟩
  · exact hs
  · exact miniRec_noDeadlock hs hm
  · exact miniSend_noDeadlock hs (hself.resolve_left (by simp)) hm
  · exact miniRec_noDeadlock (miniSend_noDeadlock hs (hself.resolve_left (by simp)) h1) hm
  · exact miniSend_noDeadlock hs (hself.resolve_left (by simp)) hm

theorem doXit_noDeadlock (hs : NoDeadlock s) {parent nr : Int}
    (h : s.doXit parent nr = some (s', r)) : NoDeadlock s' := by
  rcases doXit_cases h with ⟨-, rfl⟩ | ⟨-, rc, s1, s2, -, -, h1, -, hlinks, rfl⟩
  · exact hs
  have hs1 := (SameSend.of_rdy (unreadyIfZero_only h1)).noDeadlock hs
  have hs2 := (SameSend.of_links hlinks).noDeadlock hs1
  have hs3 := hs2.clear rc (g := fun _ => { PFlags.clear with slotFree := true }) (fun _ => rfl)
  exact ⟨hs3.valid, hs3.acyclic⟩

/-! ## Runs -/

/-- The operations on the MINIX rendezvous. -/
inductive MxEvent where
  | call (c : Proc) (fn : Fn) (srcDest : Int) (addrOk : Bool)
  | xit (parent nr : Int)
deriving DecidableEq, Repr

/-- One operation. -/
def KState.mxStep (s : KState) : MxEvent → Option KState
  | .call c fn n ok => (s.sysCall c fn n ok).map Prod.fst
  | .xit parent nr => (s.doXit parent nr).map Prod.fst

/-- A sequence of operations. -/
def KState.mxRun : KState → List MxEvent → Option KState
  | s, [] => some s
  | s, e :: es => (s.mxStep e).bind (fun s => s.mxRun es)

/-- The operation is no send of a process to itself. -/
def MxEvent.NotSelf : MxEvent → Prop
  | .call c fn n _ => fn = .receive ∨ procAddr n ≠ some c
  | .xit _ _ => True

instance (e : MxEvent) : Decidable e.NotSelf :=
  match e with
  | .call c fn n _ => inferInstanceAs (Decidable (fn = .receive ∨ procAddr n ≠ some c))
  | .xit _ _ => inferInstanceAs (Decidable True)

theorem mxStep_noDeadlock (hs : NoDeadlock s) {e : MxEvent} (he : e.NotSelf)
    (h : s.mxStep e = some s') : NoDeadlock s' := by
  cases e with
  | call c fn n ok =>
    obtain ⟨⟨s1, r⟩, h1, rfl⟩ := map_eq_some_iff.mp h
    exact sysCall_noDeadlock hs he h1
  | xit parent nr =>
    obtain ⟨⟨s1, r⟩, h1, rfl⟩ := map_eq_some_iff.mp h
    exact doXit_noDeadlock hs h1

theorem mxRun_noDeadlock {es : List MxEvent} : ∀ {s : KState}, NoDeadlock s →
    (∀ e ∈ es, e.NotSelf) → s.mxRun es = some s' → NoDeadlock s' := by
  induction es with
  | nil =>
    intro s hs _ h
    cases h
    exact hs
  | cons e es ih =>
    intro s hs hes h
    obtain ⟨s1, h1, h2⟩ := bind_eq_some_iff.mp h
    exact ih (mxStep_noDeadlock hs (hes e (by simp)) h1) (fun e' he' => hes e' (by simp [he'])) h2

/-- **DEADLOCK FREEDOM.** From a state in which nobody is sending, after any run in
    which no process sends to itself, the wait graph has no cycle and the search loop
    of `mini_send` ends for every caller and destination. -/
theorem rendezvous_acyclic {es : List MxEvent} (h0 : ∀ p, (s.mx.flags p).sending = false)
    (hes : ∀ e ∈ es, e.NotSelf) (hrun : s.mxRun es = some s') :
    Acyclic s'.waitsFor ∧ ∀ c d, (s'.deadlock c d).isSome := by
  have hinit : NoDeadlock s := by
    refine ⟨fun p hp => ?_, acyclic_of_none (fun p => ?_)⟩
    · rw [h0 p] at hp
      cases hp
    · unfold KState.waitsFor
      rw [h0 p]
      rfl
  have hs := mxRun_noDeadlock hinit hes hrun
  exact ⟨hs.acyclic, hs.deadlock_isSome⟩

/-- FS and MM are ready, nobody is sending. -/
def twoServers : KState :=
  { KState.bss with cur := fsProc, mx := { Minix.bss with
      rdyHead := update (fun _ => none) .server (some fsProc)
      rdyTail := update (fun _ => none) .server (some mmProc)
      nextready := update (fun _ => none) fsProc (some mmProc) } }

/-- FS sends to MM, INIT calls FS, and MM receives and then sends to INIT.  At the end MM waits
    for INIT and INIT for FS, which runs: the graph is acyclic. -/
theorem rendezvous_acyclic_servers :
    ∃ s', twoServers.mxRun [.call fsProc .send (procNr mmProc) true,
        .call 13 .both (procNr fsProc) true, .call mmProc .receive any true,
        .call mmProc .send (procNr 13) true] = some s' ∧
      Acyclic s'.waitsFor ∧ ∀ c d, (s'.deadlock c d).isSome := by
  refine ⟨_, Run.eq_some_getD bss (by decide +kernel), ?_⟩
  exact rendezvous_acyclic (fun _ => rfl) (by decide) (Run.eq_some_getD bss (by decide +kernel))

/-- FS as it is after a `SEND` to its own number. -/
def selfSender : KState :=
  (twoServers.mxRun [.call fsProc .send (procNr fsProc) true]).getD bss

/-- **THE LOOP.** FS sends to itself: it now waits for itself, and the search that
    MM starts when it sends to FS never ends, with any amount of fuel. -/
theorem self_send_never_ends :
    (∀ p, (twoServers.mx.flags p).sending = false) ∧
      twoServers.mxRun [.call fsProc .send (procNr fsProc) true] = some selfSender ∧
      ¬ Acyclic selfSender.waitsFor ∧
      ∀ n, selfSender.deadlockSearch mmProc n (procAddr (selfSender.mx.sendto fsProc)) = none := by
  have hto : procAddr (selfSender.mx.sendto fsProc) = some fsProc := by decide +kernel
  have hsend : (selfSender.mx.flags fsProc).sending = true := by decide +kernel
  refine ⟨fun _ => rfl, Run.eq_some_getD bss (by decide +kernel), fun h => ?_, fun n => ?_⟩
  · refine h fsProc (Relation.TransGen.single ?_)
    rw [Edge, KState.waitsFor, if_pos hsend, hto]
  · rw [hto]
    induction n with
    | zero => rfl
    | succ n ih => rw [KState.deadlockSearch, if_neg (by decide), if_pos hsend, hto, ih]

end Kernel
