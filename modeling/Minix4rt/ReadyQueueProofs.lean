import Minix4rt.CallerQueueProofs
import Minix4rt.SignalFrameProofs
import Minix4rt.LeaveRtProofs
import Minix4rt.ReadyChainProofs

/-! # Who is in the MINIX ready queues

    A process is linked once, in the chain of its class, exactly when its `p_flags` are
    zero; `IDLE` and `HARDWARE` have zero flags and are not linked.  A dozen callers test
    the flags before or after they change them.

    A process that is made ready twice closes a cycle.  The way there is the RT process
    that runs on though it is queued at a server: once it is a MINIX process again, each of
    the chains it is in makes it ready. -/

namespace Kernel

open Vtimer KState LinkChain Function Option

variable {s s' s1 s2 : KState} {R : RdyQ → List Proc} {p q : Proc} {k : RdyQ}
variable {ok : Bool} {r : Code} {n : Int}

/-! ## Flags -/

theorem flagsZero_eq_false (h : s.mx.flags p ≠ .clear) : s.flagsZero p = false := by
  simp [KState.flagsZero, h]

/-- A flag that is set is not clear. -/
theorem flagsZero_of (f : PFlags → Bool) (hf : f .clear = false)
    (h : f (s.mx.flags p) = true) : s.flagsZero p = false :=
  flagsZero_eq_false (fun e => by rw [e, hf] at h; cases h)

/-- The flags are zero where they and the RT bit are as before. -/
theorem flagsZero_congr (hf : s'.mx.flags p = s.mx.flags p)
    (hr : (s'.procs p).realtime = (s.procs p).realtime) : s'.flagsZero p = s.flagsZero p := by
  rw [KState.flagsZero, KState.flagsZero, hf, hr]

/-- The flags of the others stay. -/
theorem setPFlags_flagsZero (g : PFlags → PFlags) (h : q ≠ p) :
    (s.setPFlags p g).flagsZero q = s.flagsZero q :=
  flagsZero_congr (by simp [KState.setPFlags, h]) rfl

/-- The caller chains are not the ready queues. -/
theorem LinksOnly.queues (h : LinksOnly s s') : SameQueues s s' := by
  obtain ⟨q, l, rfl⟩ := h
  exact ⟨rfl, rfl, rfl⟩

theorem LinksOnly.flagsZero (h : LinksOnly s s') (p : Proc) : s'.flagsZero p = s.flagsZero p := by
  obtain ⟨q, l, rfl⟩ := h
  rfl

/-! ## The rendezvous -/

variable {c d : Proc} {dest src : Int}

/-- A send wakes the receiver, or blocks the sender. -/
theorem ReadyOk.send (h : ReadyOk s) (hs : Sends s c d dest s') : ReadyOk s' := by
  cases hs with
  | direct haw he =>
    subst he
    simp only [awaits, Bool.and_eq_true] at haw
    exact h.wake ⟨rfl, rfl, rfl⟩ (flagsZero_of (·.receiving) rfl haw.1.1)
      (fun q hq => setPFlags_flagsZero _ hq)
  | @queued s1 _ _ h1 h2 =>
    have hlinks := joinCallers_links h2
    have hmark : SameQueues s1 (s1.markSending c dest) := ⟨rfl, rfl, rfl⟩
    refine h.block h1 (hmark.trans hlinks.queues) ?_ (fun q hq => ?_)
    · rw [hlinks.flagsZero]
      refine flagsZero_of (·.sending) rfl ?_
      simp [markSending, KState.setPFlags]
    · rw [hlinks.flagsZero]
      exact flagsZero_congr (by simp [markSending, KState.setPFlags, hq]) rfl

theorem ReadyOk.miniSend (h : ReadyOk s) (hs : s.miniSend c dest ok = some (s', r)) :
    ReadyOk s' := by
  rcases miniSend_cases hs with ⟨-, rfl⟩ | ⟨-, d, -, -, hsend⟩
  · exact h
  · exact h.send hsend

/-! ## Signals -/

/-- Signals that wait for MM, or that MM has not finished, inhibit their process. -/
structure SigOk (s : KState) : Prop where
  inhibited : ∀ p, (s.mx.flags p).pending = true ∨ s.mx.pendcount p ≠ 0 →
    (s.mx.flags p).sigPending = true
  marked : ∀ p, s.mx.pending p ≠ ∅ → (s.mx.flags p).pending = true

/-- The marks hold while the signals stay. -/
theorem SameSigs.sigOk (h : SameSigs s s') (hs : SigOk s) : SigOk s' := by
  refine ⟨fun p hp => ?_, fun p hp => ?_⟩
  · rw [h.pendingBit, h.pendcount] at hp
    rw [h.sigPending]
    exact hs.inhibited p hp
  · rw [h.pending] at hp
    rw [h.pendingBit]
    exact hs.marked p hp

/-- What `SigOk` says of one process. -/
def SigMark (s : KState) (p : Proc) : Prop :=
  ((s.mx.flags p).pending = true ∨ s.mx.pendcount p ≠ 0 → (s.mx.flags p).sigPending = true) ∧
    (s.mx.pending p ≠ ∅ → (s.mx.flags p).pending = true)

theorem SigOk.at (h : SigOk s) (p : Proc) : SigMark s p := ⟨h.inhibited p, h.marked p⟩

/-- The signals of `p` change, and those of nobody else. -/
theorem SigOk.change (hrest : ∀ q, q ≠ p → SigMark s q)
    (hsame : ∀ q, q ≠ p → s'.mx.flags q = s.mx.flags q ∧
      s'.mx.pendcount q = s.mx.pendcount q ∧ s'.mx.pending q = s.mx.pending q)
    (hp : SigMark s' p) : SigOk s' := by
  have hall : ∀ q, SigMark s' q := by
    intro q
    by_cases hq : q = p
    · exact hq.symm ▸ hp
    · obtain ⟨h1, h2, h3⟩ := hsame q hq
      rw [SigMark, h1, h2, h3]
      exact hrest q hq
  exact ⟨fun q => (hall q).1, fun q => (hall q).2⟩

/-- `inform` clears `PENDING` of a process that stays inhibited. -/
theorem inform_readyOk (h : ReadyOk s) (hsig : SigOk s) (hi : s.inform = some s') :
    ReadyOk s' ∧ SigOk s' := by
  rcases inform_cases hi with ⟨-, rfl⟩ | ⟨rp, s1, hrp, h1, h2⟩
  · exact ⟨h, hsig⟩
  have hr1 := ReadyOk.miniSend (s := { s with mx := { s.mx with
    sigProcs := s.mx.sigProcs - 1 } }) (h.keep ⟨rfl, rfl, rfl⟩ (fun _ => rfl)) h1
  have hsame := SameSigs.miniSend h1
  have hs1 : SigOk s1 := hsame.sigOk ⟨hsig.inhibited, hsig.marked⟩
  have hsp : (s1.mx.flags rp).sigPending = true := by
    rw [hsame.sigPending]
    exact hsig.inhibited rp (.inl (firstPending_pending hrp))
  obtain ⟨hrdy, hmx⟩ := pickProc_only h2
  have hfl := informed_flags s1 rp
  have hz : ∀ p, (s1.informed rp).flagsZero p = s1.flagsZero p := by
    intro p
    by_cases hp : p = rp
    · subst hp
      rw [flagsZero_of (·.sigPending) rfl hsp]
      refine flagsZero_of (·.sigPending) rfl ?_
      rw [hfl, if_pos rfl]
      exact hsp
    · exact flagsZero_congr (by rw [hfl, if_neg hp]) rfl
  have hq : SameQueues s1 (s1.informed rp) := ⟨rfl, rfl, rfl⟩
  refine ⟨hr1.keep (hq.trans (.of_mx hmx))
    (fun p => (hrdy.flagsZero p).trans (hz p)), (SameSigs.of_mx hmx).sigOk
    (.change (p := rp) (fun q _ => hs1.at q) (fun q hq => ?_) ⟨fun _ => ?_, ?_⟩)⟩
  · simp [informed, hq]
  · rw [hfl, if_pos rfl]
    exact hsp
  · simp [informed]

/-! ## Receiving -/

/-- A sender that is taken from a chain is woken. -/
theorem acceptFrom_readyOk {prev : Option Proc} (h : ReadyOk s)
    (hp : (s.mx.flags p).sending = true) (ha : s.acceptFrom c prev p = some s') :
    ReadyOk s' := by
  obtain ⟨s1, -, hlinks, rfl⟩ := acceptFrom_cases ha
  refine h.wake (SameQueues.trans hlinks.queues ⟨rfl, rfl, rfl⟩) (flagsZero_of (·.sending) rfl hp)
    (fun q hq => ?_)
  rw [setPFlags_flagsZero _ hq, hlinks.flagsZero]

/-- A receiver blocks; if it is MM, it may be told of signals. -/
theorem blockReceiver_readyOk (h : ReadyOk s) (hsig : SigOk s)
    (hb : s.blockReceiver c src = some s') : ReadyOk s' ∧ SigOk s' := by
  obtain ⟨s1, h1, hend⟩ := blockReceiver_cases hb
  have h0 : ReadyOk { s with mx := { s.mx with
      getfrom := update s.mx.getfrom c src } } := h.keep ⟨rfl, rfl, rfl⟩ (fun _ => rfl)
  have hr : ReadyOk (s1.setPFlags c (fun f => { f with receiving := true })) := by
    refine h0.block h1 ⟨rfl, rfl, rfl⟩ (flagsZero_of (·.receiving) rfl ?_)
      (fun q hq => setPFlags_flagsZero _ hq)
    rw [setPFlags_flags]
  have hs : SigOk (s1.setPFlags c (fun f => { f with receiving := true })) := by
    have hrdy := SameSigs.of_rdy (unreadyIfZero_only h1)
    exact (hrdy.trans (.setPFlags s1 c (g := fun f => { f with receiving := true })
      (fun _ => rfl))).sigOk ⟨hsig.inhibited, hsig.marked⟩
  rcases hend with ⟨-, rfl⟩ | ⟨-, -, -, hi⟩
  · exact ⟨hr, hs⟩
  · exact inform_readyOk hr hs hi

/-! ## The kernel invariant -/

/-- The caller queues, the ready queues and the signals. -/
structure KernOk (s : KState) : Prop where
  calls : ∃ Q, CallsOk Q s
  ready : ReadyOk s
  sigs : SigOk s

/-- **EVERY SYSTEM CALL KEEPS THE INVARIANT.** -/
theorem KernOk.call {fn : Fn} (h : KernOk s) (hc : s.FreeCaller (.call c fn n ok))
    (hs : s.sysCall c fn n ok = some (s', r)) :
    KernOk s' := by
  obtain ⟨Q, hQ⟩ := h.calls
  have hcalls : ∃ Q, CallsOk Q s' := by
    obtain ⟨Q', -, hQ'⟩ := hQ.call hc hs
    exact ⟨Q', hQ'⟩
  -- a receive takes a sender, an interrupt, or blocks
  have hrec : ∀ {t t' : KState} {Q : Proc → List Proc}, CallsOk Q t → ReadyOk t → SigOk t →
      t.miniRec c n = some (t', r) → ReadyOk t' ∧ SigOk t' := by
    intro t t' Q hQ hr hsg hm
    obtain ⟨-, ⟨-, prev, p, hf, ha⟩ | ⟨-, -, -, -, rfl⟩ | ⟨-, hb⟩⟩ := miniRec_cases hm
    · obtain ⟨as, bs, hl, -⟩ := hQ.found hf
      have hp := ((hQ.mem p c).mp (by simp [hl])).1
      exact ⟨acceptFrom_readyOk hr hp ha, (SameSigs.acceptFrom ha).sigOk hsg⟩
    · exact ⟨hr.keep ⟨rfl, rfl, rfl⟩ (fun _ => rfl), hsg.inhibited, hsg.marked⟩
    · exact blockReceiver_readyOk hr hsg hb
  obtain ⟨hw, hsc, hrc⟩ := hc
  have hres : ReadyOk s' ∧ SigOk s' := by
    rcases sysCall_cases hs with
      ⟨-, rfl⟩ | ⟨-, -, ⟨-, hm⟩ | ⟨-, hm⟩ | ⟨rfl, s1, h1, hm⟩ | ⟨-, -, hm⟩⟩
    · exact ⟨h.ready, h.sigs⟩
    · exact hrec hQ h.ready h.sigs hm
    · exact ⟨h.ready.miniSend hm, (SameSigs.miniSend hm).sigOk h.sigs⟩
    · obtain ⟨Q1, -, hQ1⟩ := hQ.send hw hsc (hrc (by simp)) h1
      exact hrec hQ1 (h.ready.miniSend h1) ((SameSigs.miniSend h1).sigOk h.sigs) hm
    · exact ⟨h.ready.miniSend hm, (SameSigs.miniSend hm).sigOk h.sigs⟩
  exact ⟨hcalls, hres.1, hres.2⟩

/-- An exit takes the process out of every queue. -/
theorem KernOk.xit {parent nr : Int} (h : KernOk s) (hs : s.doXit parent nr = some (s', r)) :
    KernOk s' := by
  obtain ⟨Q, hQ⟩ := h.calls
  obtain ⟨Q', -, hQ'⟩ := hQ.exit hs
  rcases doXit_cases hs with ⟨-, rfl⟩ | ⟨-, rc, s1, s2, -, -, h1, -, hlinks, rfl⟩
  · exact h
  have hq : SameQueues s1 (s2.freeSlot rc) := hlinks.queues.trans ⟨rfl, rfl, rfl⟩
  have hsig := ((SameSigs.of_rdy (unreadyIfZero_only h1)).trans (.of_links hlinks)).sigOk h.sigs
  refine ⟨⟨Q', hQ'⟩, h.ready.block h1 hq
    (flagsZero_of (·.slotFree) rfl (by rw [freeSlot_flags, if_pos rfl])) (fun q hq => ?_),
    .change (p := rc) (fun q _ => hsig.at q) (fun q hq => ?_) ?_⟩
  · refine (flagsZero_congr (s := s2) ?_ ?_).trans (hlinks.flagsZero q)
    · rw [freeSlot_flags, if_neg hq]
    · simp [freeSlot, KState.updProc, hq]
  · simp [freeSlot, hq]
  · simp [SigMark, freeSlot, PFlags.clear]

/-- Flags other than `SENDING` of a process change, none of them to `RECEIVING`; then it
    may be made ready. -/
theorem callsOk_setPFlags {Q : Proc → List Proc} (h : CallsOk Q s) (p : Proc)
    {g : PFlags → PFlags} (hg : ∀ f, (g f).sending = f.sending)
    (hr : ∀ f, (g f).receiving = true → f.receiving = true) : CallsOk Q (s.setPFlags p g) := by
  refine h.frame (.setPFlags p hg) (fun x hx => ⟨?_, rfl⟩)
  by_cases hxp : x = p
  · subst hxp
    rw [setPFlags_flags] at hx
    exact hr _ hx
  · simpa [KState.setPFlags, hxp] using hx

/-- A process that has flags loses one of them, no signal among them. -/
theorem KernOk.clearFlag (h : KernOk s) {g : PFlags → PFlags} (hp : s.flagsZero p = false)
    (hg : ∀ f, (g f).sending = f.sending) (hr : ∀ f, (g f).receiving = true → f.receiving = true)
    (hs : ∀ f, (g f).sigBits = f.sigBits) :
    KernOk ((s.setPFlags p g).readyIfZero p) := by
  obtain ⟨Q, hQ⟩ := h.calls
  refine ⟨⟨Q, (callsOk_setPFlags hQ p hg hr).rdy (readyIfZero_only _ p)⟩,
    h.ready.wake ⟨rfl, rfl, rfl⟩ hp (fun q hq => setPFlags_flagsZero _ hq), ?_⟩
  exact ((SameSigs.setPFlags s p hs).trans (.of_rdy (readyIfZero_only _ p))).sigOk h.sigs

/-- `do_newmap` lets a new process run. -/
theorem KernOk.newmap (h : KernOk s) (hs : s.doNewmap n ok = some (s', r)) : KernOk s' := by
  rw [doNewmap] at hs
  split at hs
  · cases hs
    exact h
  rename_i rp _
  split at hs
  · cases hs
  simp only [some.injEq, Prod.mk.injEq] at hs
  obtain ⟨rfl, -⟩ := hs
  split
  · rename_i hz
    exact h.clearFlag hz (fun _ => rfl) (fun _ hr => hr) (fun _ => rfl)
  · -- the flags were zero, so there was no `NO_MAP` to clear
    rename_i hz
    have hclear : s.mx.flags rp = .clear := by
      simp only [KState.flagsZero, Bool.not_eq_false, Bool.and_eq_true,
        decide_eq_true_eq] at hz
      exact hz.2
    have he : s.setPFlags rp (fun f => { f with noMap := false }) = s := by
      rw [KState.setPFlags, hclear]
      have hup : update s.mx.flags rp { PFlags.clear with noMap := false } =
          s.mx.flags := by
        rw [update_eq_self_iff, hclear]
        rfl
      rw [hup]
    rw [he]
    exact h

/-- `do_trace` stops a process or lets it go on. -/
theorem KernOk.trace {req : TraceReq} (h : KernOk s)
    (hreq : ∀ p, procAddr n = some p → req = .resume ∨ req = .step → s.flagsZero p = false)
    (hs : s.doTrace n req = some (s', r)) : KernOk s' := by
  simp only [doTrace, bind_eq_bind, bind_eq_some_iff] at hs
  obtain ⟨rp, hrp, hs⟩ := hs
  split at hs
  · cases hs
    exact h
  have hgo : req = .resume ∨ req = .step → KernOk
      ((s.setPFlags rp (fun f => { f with pStop := false })).readyIfZero rp) := by
    intro hq
    exact h.clearFlag (hreq rp hrp hq) (fun _ => rfl) (fun _ hr => hr) (fun _ => rfl)
  cases req with
  | stop =>
    simp only [bind_eq_some_iff, some.injEq, Prod.mk.injEq] at hs
    obtain ⟨s1, h1, rfl, -⟩ := hs
    obtain ⟨Q, hQ⟩ := h.calls
    have hrdy := unreadyIfZero_only h1
    refine ⟨⟨Q, callsOk_setPFlags (hQ.rdy hrdy) rp (fun _ => rfl) (fun _ hr => hr)⟩,
      h.ready.block h1 ⟨rfl, rfl, rfl⟩ (flagsZero_of (·.pStop) rfl (by rw [setPFlags_flags]))
        (fun q hq => setPFlags_flagsZero _ hq), ?_⟩
    exact ((SameSigs.of_rdy hrdy).trans (.setPFlags s1 rp
      (g := fun f => { f with pStop := true }) (fun _ => rfl))).sigOk h.sigs
  | resume =>
    cases hs
    exact hgo (.inl rfl)
  | step =>
    cases hs
    exact hgo (.inr rfl)
  | data =>
    cases hs
    exact h

/-- MM, which waits, is told of signals. -/
theorem KernOk.inform (h : KernOk s) (hr : (s.mx.flags mmProc).receiving = true)
    (hg : s.mx.getfrom mmProc = any) (hi : s.inform = some s') : KernOk s' := by
  obtain ⟨Q, hQ⟩ := h.calls
  have hsend : (s.mx.flags mmProc).sending = false := by
    by_contra hne
    exact hQ.both mmProc (by simpa using hne) hr hg
  obtain ⟨hr', hs'⟩ := inform_readyOk h.ready h.sigs hi
  exact ⟨⟨Q, (hQ.inform hr hsend hg hi).2⟩, hr', hs'⟩

/-- `cause_sig` for a process without pending signals; of that process nothing is assumed
    about its count. -/
theorem markPending_kernOk {Q : Proc → List Proc} (hQ : CallsOk Q s) (hr : ReadyOk s)
    (hsig : ∀ q, q ≠ p → SigMark s q) (h : s.markPending p = some s') : KernOk s' := by
  simp only [markPending, bind_eq_bind, bind_eq_some_iff] at h
  obtain ⟨s1, h1, h⟩ := h
  have hrdy := unreadyIfZero_only h1
  have hok : KernOk { s1.setPFlags p (fun f => { f with pending := true, sigPending := true })
      with mx := { (s1.setPFlags p (fun f =>
        { f with pending := true, sigPending := true })).mx with
        sigProcs := s1.mx.sigProcs + 1 } } := by
    refine ⟨⟨Q, ?_⟩, ?_, .change (p := p) hsig (fun q hq => ⟨?_, ?_, ?_⟩) ?_⟩
    · have hc := callsOk_setPFlags (hQ.rdy hrdy) p
        (g := fun f => { f with pending := true, sigPending := true }) (fun _ => rfl)
        (fun _ hr => hr)
      exact hc.frame ⟨⟨rfl, fun _ => rfl⟩, rfl, rfl⟩ (fun _ hp => ⟨hp, rfl⟩)
    · refine hr.block h1 ⟨rfl, rfl, rfl⟩ (flagsZero_of (·.sigPending) rfl ?_) (fun q hq => ?_)
      · simp [KState.setPFlags]
      · exact flagsZero_congr (by simp [KState.setPFlags, hq]) rfl
    · simp [KState.setPFlags, hq, hrdy.flags]
    · show s1.mx.pendcount q = _
      rw [hrdy.mx]
    · show s1.mx.pending q = _
      rw [hrdy.mx]
    · simp [SigMark, KState.setPFlags]
  split at h
  · rename_i hmm
    exact hok.inform hmm.1 hmm.2 h
  · cases h
    exact hok

/-- A process that gets its first signal is inhibited. -/
theorem KernOk.causeSig {sig : Sig} (h : KernOk s) (hs : s.causeSig n sig = some s') :
    KernOk s' := by
  obtain ⟨Q, hQ⟩ := h.calls
  simp only [KState.causeSig, bind_eq_bind, bind_eq_some_iff] at hs
  obtain ⟨rp, -, hs⟩ := hs
  have hQ0 : CallsOk Q (s.addSig rp sig) :=
    hQ.frame ⟨⟨rfl, fun _ => rfl⟩, rfl, rfl⟩ (fun _ hp => ⟨hp, rfl⟩)
  have hr0 : ReadyOk (s.addSig rp sig) := h.ready.keep ⟨rfl, rfl, rfl⟩ (fun _ => rfl)
  have hsame : ∀ q, q ≠ rp → (s.addSig rp sig).mx.flags q = s.mx.flags q ∧
      (s.addSig rp sig).mx.pendcount q = s.mx.pendcount q ∧
      (s.addSig rp sig).mx.pending q = s.mx.pending q :=
    fun q hq => by simp [addSig, hq]
  split at hs
  · cases hs
    exact h
  split at hs
  · -- the process is inhibited already
    rename_i hpend
    cases hs
    exact ⟨⟨Q, hQ0⟩, hr0, .change (fun q _ => h.sigs.at q) hsame
      ⟨fun _ => h.sigs.inhibited rp (.inl hpend), fun _ => hpend⟩⟩
  · refine markPending_kernOk hQ0 hr0 (fun q hq => ?_) hs
    obtain ⟨h1, h2, h3⟩ := hsame q hq
    rw [SigMark, h1, h2, h3]
    exact h.sigs.at q

/-- A process that has just got a signal is inhibited. -/
theorem causeSig_inhibits {sig : Sig} (h : SigOk s) (hp : procAddr n = some p)
    (hs : s.causeSig n sig = some s') : (s'.mx.flags p).sigPending = true := by
  simp only [KState.causeSig, hp, bind_eq_bind, bind_some] at hs
  split at hs
  · rename_i hm
    cases hs
    have hne : s.mx.pending p ≠ ∅ := Finset.ne_empty_of_mem hm
    exact h.inhibited p (.inl (h.marked p hne))
  split at hs
  · rename_i hpend
    cases hs
    exact h.inhibited p (.inl hpend)
  · simp only [markPending, bind_eq_bind, bind_eq_some_iff] at hs
    obtain ⟨s1, -, hs⟩ := hs
    split at hs
    · rw [inform_sigPending hs]
      simp [KState.setPFlags]
    · cases hs
      simp [KState.setPFlags]

/-- A process goes on with its new image. -/
theorem KernOk.exec {traced : Bool} (h : KernOk s)
    (hf : ∀ p, procAddr n = some p → traced = false → s.flagsZero p = false)
    (hs : s.doExec n traced = some (s', r)) : KernOk s' := by
  rw [doExec] at hs
  split at hs
  · cases hs
    exact h
  simp only [bind_eq_bind, bind_eq_some_iff, some.injEq, Prod.mk.injEq] at hs
  obtain ⟨s1, h1, rp, hrp, rfl, -⟩ := hs
  have hk : KernOk s1 ∧ s1.flagsZero rp = false := by
    split at h1
    · exact ⟨h.causeSig h1, flagsZero_of (·.sigPending) rfl (causeSig_inhibits h.sigs hrp h1)⟩
    · rename_i ht
      cases h1
      exact ⟨h, hf rp hrp (by simpa using ht)⟩
  exact hk.1.clearFlag hk.2 (fun _ => rfl) (fun _ hr => by simp at hr) (fun _ => rfl)

/-- The last signal that is finished lets the process run. -/
theorem KernOk.endsig (h : KernOk s)
    (hf : ∀ p, procAddr n = some p → s.mx.pendcount p = 1 → (s.mx.flags p).pending = false)
    (hs : s.doEndsig n = some (s', r)) : KernOk s' := by
  rw [doEndsig] at hs
  split at hs
  · cases hs
    exact h
  simp only [bind_eq_bind, bind_eq_some_iff] at hs
  obtain ⟨rp, hrp, hs⟩ := hs
  split at hs
  · cases hs
    exact h
  rename_i hne
  obtain ⟨Q, hQ⟩ := h.calls
  have hQ0 : CallsOk Q { s with mx := { s.mx with
      pendcount := update s.mx.pendcount rp (s.mx.pendcount rp - 1) } } :=
    hQ.frame ⟨⟨rfl, fun _ => rfl⟩, rfl, rfl⟩ (fun _ hp => ⟨hp, rfl⟩)
  have hsp : (s.mx.flags rp).sigPending = true := h.sigs.inhibited rp (.inr hne)
  split at hs
  · -- the last signal: the process is inhibited no more
    rename_i hzero
    cases hs
    have hone : s.mx.pendcount rp = 1 := by omega
    have hc := callsOk_setPFlags hQ0 rp (g := fun f => { f with sigPending := false })
      (fun _ => rfl) (fun _ hr => hr)
    refine ⟨⟨Q, hc.rdy (readyIfZero_only _ rp)⟩, h.ready.wake ⟨rfl, rfl, rfl⟩
      (flagsZero_of (·.sigPending) rfl hsp) (fun q hq => ?_), ?_⟩
    · exact flagsZero_congr (by simp [KState.setPFlags, hq]) rfl
    refine (SameSigs.of_rdy (readyIfZero_only _ rp)).sigOk (.change (p := rp)
      (fun q _ => h.sigs.at q) (fun q hq => by simp [KState.setPFlags, hq]) ⟨fun hp => ?_, ?_⟩)
    · simp [KState.setPFlags, hf rp hrp hone, hzero] at hp
    · simpa [KState.setPFlags] using h.sigs.marked rp
  · cases hs
    exact ⟨⟨Q, hQ0⟩, h.ready.keep ⟨rfl, rfl, rfl⟩ (fun _ => rfl), .change (p := rp)
      (fun q _ => h.sigs.at q) (fun q hq => by simp [hq]) ⟨fun _ => hsp, h.sigs.marked rp⟩⟩

/-- `sched` rotates the queue of the users. -/
theorem KernOk.sched (h : KernOk s) (hs : s.sched = some s') : KernOk s' := by
  obtain ⟨Q, hQ⟩ := h.calls
  have hrdy := sched_only hs
  refine ⟨⟨Q, hQ.rdy hrdy⟩, ?_, (SameSigs.of_rdy hrdy).sigOk h.sigs⟩
  obtain ⟨R, hR⟩ := h.ready
  obtain ⟨R', hR', hmem⟩ := hR.toQueuesOk.sched hs
  refine ⟨R', hR', fun p k hp => ?_, fun p hi hw hp => ?_⟩
  · rw [hrdy.flagsZero]
    exact hR.zero p k ((hmem p k).mp hp)
  · rw [hrdy.flagsZero] at hp
    exact (hmem p _).mpr (hR.linked p hi hw hp)

/-- An interrupt for a task that waits for nothing else. -/
theorem KernOk.interrupt (h : KernOk s)
    (hf : s.awaitsInt p = true → isTask p = true ∧ (s.procs p).realtime = false ∧
      s.mx.flags p = { PFlags.clear with receiving := true }) : KernOk (s.interrupt p) := by
  obtain ⟨Q, hQ⟩ := h.calls
  rw [KState.interrupt]
  split
  · rename_i haw
    obtain ⟨htask, hrt, hfl⟩ := hf haw
    have hz : s.flagsZero p = false := flagsZero_of (·.receiving) rfl (by rw [hfl])
    -- `ready` in line is `ready`, since the flags are zero now
    have hk : KernOk { s with mx := { s.mx with
        intBlocked := update s.mx.intBlocked p false } } :=
      ⟨⟨Q, hQ.frame ⟨⟨rfl, fun _ => rfl⟩, rfl, rfl⟩ (fun _ hp => ⟨hp, rfl⟩)⟩,
        h.ready.keep ⟨rfl, rfl, rfl⟩ (fun _ => rfl), h.sigs.inhibited, h.sigs.marked⟩
    have hres := hk.clearFlag (p := p) (g := fun f => { f with receiving := false }) hz
      (fun _ => rfl) (fun _ hr => by simp at hr) (fun _ => rfl)
    rw [readyIfZero, if_pos] at hres
    · rw [KState.ready, rdyQ, if_pos htask] at hres
      exact hres
    · simp [KState.flagsZero, KState.setPFlags, hrt, hfl, PFlags.clear]
  · exact ⟨⟨Q, hQ.frame ⟨⟨rfl, fun _ => rfl⟩, rfl, rfl⟩ (fun _ hp => ⟨hp, rfl⟩)⟩,
      h.ready.keep ⟨rfl, rfl, rfl⟩ (fun _ => rfl), h.sigs.inhibited, h.sigs.marked⟩

/-! ## Entering and leaving RT mode -/

theorem MinixKept.kernOk (hk : MinixKept s s') (h : KernOk s) : KernOk s' := by
  obtain ⟨Q, hQ⟩ := h.calls
  refine ⟨⟨Q, hQ.frame ⟨.of_mx hk.mx, by rw [hk.mx], by rw [hk.mx]⟩ (fun p hp => ?_)⟩,
    h.ready.keep (.of_mx hk.mx) hk.flagsZero, (SameSigs.of_mx hk.mx).sigOk h.sigs⟩
  rw [hk.mx] at hp ⊢
  exact ⟨hp, rfl⟩

/-- A process that leaves RT mode may be ready again. -/
theorem KernOk.set2nrt {v : Env} (h : KernOk s) (hn : ∀ q, ¬ s.limitHit q)
    (hs : s.set2nrt v p = some (s', r)) : KernOk s' := by
  rcases set2nrt_cases hn hs with rfl | ⟨hrt, s1, hk, rfl⟩
  · exact h
  have h1 := hk.kernOk h
  have hz : s1.flagsZero p = false := by
    rw [hk.flagsZero]
    simp [KState.flagsZero, hrt]
  obtain ⟨Q, hQ⟩ := h1.calls
  have hbase : ReadyOk ((s1.updProc p (fun r =>
      { r with st := .clear, periodic := false, realtime := false })).readyIfZero p) := by
    refine h1.ready.wake ⟨rfl, rfl, rfl⟩ hz (fun q hq => ?_)
    exact flagsZero_congr rfl (by simp [KState.updProc, hq])
  have hrdy := readyIfZero_only (s1.updProc p (fun r =>
    { r with st := .clear, periodic := false, realtime := false })) p
  refine ⟨⟨Q, CallsOk.rdy ?_ hrdy⟩, hbase, (SameSigs.of_rdy hrdy).sigOk ?_⟩
  · exact hQ.frame ⟨⟨rfl, fun _ => rfl⟩, rfl, rfl⟩ (fun _ hp => ⟨hp, rfl⟩)
  · exact ⟨h1.sigs.inhibited, h1.sigs.marked⟩

/-- At most one schedule is counted. -/
theorem PickCounts.le_one (h : PickCounts s s') (q : Proc) :
    s'.rq.scheds q = s.rq.scheds q ∨ s'.rq.scheds q = s.rq.scheds q + 1 := by
  rcases h with h | ⟨x, p, -, -, h⟩
  · exact .inl (by rw [h])
  rw [h]
  by_cases hq : q = p
  · subst hq
    exact .inr (by simp)
  · exact .inl (by simp [hq])

/-- The process may be scheduled once more. -/
def KState.limitFree (s : KState) (p : Proc) : Prop :=
  (s.procs p).limit = 0 ∨ s.rq.scheds p < (s.procs p).limit

/-- A process that enters RT mode leaves the MINIX queues. -/
theorem KernOk.set2rt (h : KernOk s) (hn : s.limitFree s.cur) (hs : s.rtkSet2rt = some (s', r)) :
    KernOk s' := by
  rcases rtkSet2rt_cases hs with rfl | ⟨hrt, s1, s2, hk, hu, happ⟩
  · exact h
  have h1 := hk.kernOk h
  have hrdy := unready_only hu
  -- the limit is not hit, also when the pick has counted this process
  have hlim : ¬ (s2.updProc s.cur (fun r => { r with realtime := true })).limitHit s.cur := by
    rw [KState.limitHit]
    simp only [updProc_self]
    have hl : (s2.procs s.cur).limit = (s.procs s.cur).limit := by
      rw [hrdy.procs, hk.limit]
    have hsch : (s2.updProc s.cur (fun r => { r with realtime := true })).rq.scheds s.cur =
        s2.rq.scheds s.cur := rfl
    rw [hl, hsch]
    rcases hn with h0 | hlt
    · rw [h0]
      simp
    · have hsc := (unready_inv hu).2.le_one s.cur
      rw [hk.scheds] at hsc
      intro hc
      have hc1 := hc.1
      rw [BitVec.lt_def] at hc1 hlt
      rcases hsc with he | he
      · rw [he] at hc1
        omega
      · rw [he, BitVec.toNat_add] at hc1
        have hb := (s.rq.scheds s.cur).isLt
        have h1 : (1 : BitVec 32).toNat = 1 := rfl
        omega
  have hk2 := rdyQApp_kept hlim happ
  obtain ⟨Q, hQ⟩ := h1.calls
  obtain ⟨R, hR⟩ := h1.ready
  obtain ⟨R', hR', hmem⟩ := hR.toQueuesOk.unready hu
  refine hk2.kernOk ⟨⟨Q, ?_⟩, ?_, ?_⟩
  · exact (hQ.rdy hrdy).frame ⟨⟨rfl, fun _ => rfl⟩, rfl, rfl⟩ (fun _ hp => ⟨hp, rfl⟩)
  · refine hR.remove (hR'.same ⟨rfl, rfl, rfl⟩) hmem (by simp [KState.flagsZero]) (fun q hq => ?_)
    rw [← hrdy.flagsZero q]
    exact flagsZero_congr rfl (by simp [KState.updProc, hq])
  · have hs2 := (SameSigs.of_rdy hrdy).sigOk h1.sigs
    exact ⟨hs2.inhibited, hs2.marked⟩

/-! ## Runs -/

/-- What changes the ready queues. -/
inductive KernEvent where
  | call (c : Proc) (fn : Fn) (srcDest : Int) (addrOk : Bool)
  | xit (parent nr : Int)
  | newmap (k : Int) (addrOk : Bool)
  | exec (nr : Int) (traced : Bool)
  | endsig (nr : Int)
  | trace (nr : Int) (req : TraceReq)
  | causeSig (nr : Int) (sig : Sig)
  | interrupt (task : Proc)
  | sched
  | set2rt (p : Proc)
  | set2nrt (p : Proc) (v : Env) (rp : Proc)

/-- One event.  The RT calls are made by the running process `p`, and end with a pick. -/
def KState.kernStep (s : KState) : KernEvent → Option KState
  | .call c fn n ok => (s.sysCall c fn n ok).map Prod.fst
  | .xit parent nr => (s.doXit parent nr).map Prod.fst
  | .newmap n ok => (s.doNewmap n ok).map Prod.fst
  | .exec n traced => (s.doExec n traced).map Prod.fst
  | .endsig n => (s.doEndsig n).map Prod.fst
  | .trace n req => (s.doTrace n req).map Prod.fst
  | .causeSig n sig => s.causeSig n sig
  | .interrupt t => some (s.interrupt t)
  | .sched => s.sched
  | .set2rt p => (s.enter p).bind (fun s => s.rtkSet2rt.bind (fun r => r.1.pickProc))
  | .set2nrt p v rp =>
    (s.enter p).bind (fun s => (s.set2nrt v rp).bind (fun r => r.1.pickProc))

/-- A sequence of events. -/
def KState.kernRun : KState → List KernEvent → Option KState
  | s, [] => some s
  | s, e :: es => (s.kernStep e).bind (fun s => s.kernRun es)

/-- The condition on an event: callers are free; only a process with flags is resumed or
    goes on after an exec; MM acknowledges no signal that it was not told of; the task of
    an interrupt waits for nothing but a message; no schedule limit is used up. -/
def KState.Fits (s : KState) : KernEvent → Prop
  | .call c fn n ok => s.FreeCaller (.call c fn n ok)
  | .exec n traced => ∀ p, procAddr n = some p → traced = false → s.flagsZero p = false
  | .endsig n => ∀ p, procAddr n = some p → s.mx.pendcount p = 1 →
      (s.mx.flags p).pending = false
  | .trace n req => ∀ p, procAddr n = some p → req = .resume ∨ req = .step →
      s.flagsZero p = false
  | .interrupt t => s.awaitsInt t = true → isTask t = true ∧ (s.procs t).realtime = false ∧
      s.mx.flags t = { PFlags.clear with receiving := true }
  | .set2rt p => s.limitFree p
  | .set2nrt _ _ _ => ∀ q, ¬ s.limitHit q
  | .xit _ _ | .newmap _ _ | .causeSig _ _ | .sched => True

/-- The states that runs reach whose events all meet the condition. -/
inductive KernReach (s₀ : KState) : KState → Prop where
  | start : KernReach s₀ s₀
  | step {s s' : KState} {e : KernEvent} :
      KernReach s₀ s → s.Fits e → s.kernStep e = some s' → KernReach s₀ s'

theorem enter_eq (h : s.enter p = some s') : s' = { s with cur := p } := by
  rw [enter] at h
  split at h
  · exact (some.inj h).symm
  · cases h

/-- Who runs does not matter. -/
theorem KernOk.setCur (h : KernOk s) (p : Proc) : KernOk { s with cur := p } :=
  MinixKept.kernOk (s := s) ⟨rfl, fun _ => rfl, fun _ => rfl, rfl⟩ h

theorem KernOk.pick (h : KernOk s) (hp : s.pickProc = some s') : KernOk s' := by
  obtain ⟨Q, hQ⟩ := h.calls
  obtain ⟨hrdy, hmx⟩ := pickProc_only hp
  exact ⟨⟨Q, hQ.rdy hrdy⟩, h.ready.keep (.of_mx hmx) hrdy.flagsZero,
    (SameSigs.of_rdy hrdy).sigOk h.sigs⟩

/-- **THE STEP LEMMA.** -/
theorem KernOk.step {e : KernEvent} (h : KernOk s) (he : s.Fits e)
    (hs : s.kernStep e = some s') : KernOk s' := by
  cases e with
  | call c fn n ok =>
    obtain ⟨⟨s1, r⟩, h1, rfl⟩ := map_eq_some_iff.mp hs
    exact h.call he h1
  | xit parent nr =>
    obtain ⟨⟨s1, r⟩, h1, rfl⟩ := map_eq_some_iff.mp hs
    exact h.xit h1
  | newmap n ok =>
    obtain ⟨⟨s1, r⟩, h1, rfl⟩ := map_eq_some_iff.mp hs
    exact h.newmap h1
  | exec n traced =>
    obtain ⟨⟨s1, r⟩, h1, rfl⟩ := map_eq_some_iff.mp hs
    exact h.exec he h1
  | endsig n =>
    obtain ⟨⟨s1, r⟩, h1, rfl⟩ := map_eq_some_iff.mp hs
    exact h.endsig he h1
  | trace n req =>
    obtain ⟨⟨s1, r⟩, h1, rfl⟩ := map_eq_some_iff.mp hs
    exact h.trace he h1
  | causeSig n sig => exact h.causeSig hs
  | interrupt t =>
    cases hs
    exact h.interrupt he
  | sched => exact h.sched hs
  | set2rt p =>
    obtain ⟨s1, h1, hs⟩ := bind_eq_some_iff.mp hs
    obtain ⟨⟨s2, r⟩, h2, hpick⟩ := bind_eq_some_iff.mp hs
    obtain rfl := enter_eq h1
    exact ((h.setCur p).set2rt he h2).pick hpick
  | set2nrt p v rp =>
    obtain ⟨s1, h1, hs⟩ := bind_eq_some_iff.mp hs
    obtain ⟨⟨s2, r⟩, h2, hpick⟩ := bind_eq_some_iff.mp hs
    obtain rfl := enter_eq h1
    exact ((h.setCur p).set2nrt he h2).pick hpick

/-- The chains of the queues, for a list of each. -/
structure KState.QueuesHold (s : KState) (R : RdyQ → List Proc) : Prop where
  chain : ∀ k, Chain s.mx.nextready (s.mx.rdyHead k) (R k)
  tail : ∀ k, R k ≠ [] → s.mx.rdyTail k = (R k).getLast?
  once : ∀ k, (R k).Nodup
  runnable : ∀ p, p ≠ idle → p ≠ hardwareProc →
    ∀ k, p ∈ R k ↔ k = rdyQ p ∧ s.flagsZero p = true

/-- As after the boot: the processes with zero flags are linked, `IDLE` and `HARDWARE` are
    not, nobody is queued and no signal is pending. -/
structure KernInit (s : KState) (R : RdyQ → List Proc) : Prop where
  queues : s.QueuesHold R
  special : ∀ k, idle ∉ R k ∧ hardwareProc ∉ R k
  callers : s.NoCallers
  signals : ∀ p, (s.mx.flags p).pending = false ∧ s.mx.pendcount p = 0 ∧ s.mx.pending p = ∅

/-- The invariant holds at the start. -/
theorem KernInit.kernOk (h : KernInit s R) : KernOk s := by
  have hne : ∀ p k, p ∈ R k → p ≠ idle ∧ p ≠ hardwareProc := by
    intro p k hp
    refine ⟨?_, ?_⟩
    · rintro rfl
      exact (h.special k).1 hp
    · rintro rfl
      exact (h.special k).2 hp
  refine ⟨⟨_, callsOk_init h.callers⟩, ⟨R, ⟨h.queues.chain, h.queues.tail, ?_⟩, ?_, ?_⟩, ?_, ?_⟩
  · intro p k hp
    obtain ⟨hi, hw⟩ := hne p k hp
    exact ((h.queues.runnable p hi hw k).mp hp).1.symm
  · intro p k hp
    obtain ⟨hi, hw⟩ := hne p k hp
    exact ((h.queues.runnable p hi hw k).mp hp).2
  · intro p hi hw hp
    exact (h.queues.runnable p hi hw _).mpr ⟨rfl, hp⟩
  · intro p hp
    simp [h.signals p] at hp
  · intro p hp
    exact absurd (h.signals p).2.2 hp

/-- **THE READY QUEUES.** In every state that a run with the condition reaches, each queue
    is a chain that ends in NIL, its tail pointer names the last element, and a process
    other than `IDLE` and `HARDWARE` is linked, once and in the queue of its class, exactly
    when its `p_flags` are zero. -/
theorem ready_queues {s₀ : KState} {R₀ : RdyQ → List Proc} (h0 : KernInit s₀ R₀)
    (h : KernReach s₀ s) : ∃ R, s.QueuesHold R := by
  have hk : KernOk s := by
    induction h with
    | start => exact h0.kernOk
    | step _ he hs ih => exact ih.step he hs
  obtain ⟨R, hR⟩ := hk.ready
  refine ⟨R, hR.chain, hR.tail, fun k => (hR.chain k).nodup, fun p hi hw k => ⟨?_, ?_⟩⟩
  · intro hp
    exact ⟨(hR.cls p k hp).symm, hR.zero p k hp⟩
  · rintro ⟨rfl, hz⟩
    exact hR.linked p hi hw hz

/-- RT mode has been started: MM, FS and the user process 14 are ready, the tasks wait for
    messages, and the other slots are free. -/
def kernBoot : KState :=
  { boot with cur := 14, mx := { Minix.bss with
      flags := fun p =>
        if p = idle ∨ p = hardwareProc ∨ p = mmProc ∨ p = fsProc ∨ p = 14 then .clear
        else if p.val < 11 then { PFlags.clear with receiving := true }
        else { PFlags.clear with slotFree := true }
      getfrom := fun _ => any
      rdyHead := fun k =>
        match k with
        | .task => none
        | .server => some mmProc
        | .user => some 14
      rdyTail := fun k =>
        match k with
        | .task => none
        | .server => some fsProc
        | .user => some 14
      nextready := update (fun _ => none) mmProc (some fsProc) } }

/-- Who is linked in `kernBoot`. -/
def kernBootReady : RdyQ → List Proc
  | .task => []
  | .server => [mmProc, fsProc]
  | .user => [14]

theorem kernBoot_init : KernInit kernBoot kernBootReady := by
  refine ⟨⟨fun k => ?_, fun k => ?_, fun k => ?_, fun p hi hw k => ?_⟩, fun k => ?_, ?_,
    fun p => ?_⟩
  · cases k
    · rfl
    · exact ⟨rfl, rfl, rfl⟩
    · exact ⟨rfl, rfl⟩
  · cases k <;> decide
  · cases k <;> decide
  · revert p
    cases k <;> decide +kernel
  · cases k <;> decide
  · decide +kernel
  · revert p
    decide +kernel

theorem KernReach.next {s₀ : KState} {e : KernEvent} (h : KernReach s₀ s) (he : s.Fits e)
    (hs : (s.kernStep e).isSome = true) : KernReach s₀ ((s.kernStep e).getD bss) :=
  h.step he (Run.eq_some_getD bss hs)

/-- MM waits for a message and a signal for 14 comes: MM is ready again, and 14 is not. -/
theorem ready_queues_signal :
    ∃ s, KernReach kernBoot s ∧ s.flagsZero mmProc = true ∧ s.flagsZero 14 = false ∧
      ∃ R, s.QueuesHold R := by
  have hfree : kernBoot.FreeCaller (.call mmProc .receive any true) := by decide
  have h1 := KernReach.start.next (e := .call mmProc .receive any true) hfree (by decide +kernel)
  have h2 := h1.next (e := .causeSig (procNr 14) 14) trivial (by decide +kernel)
  exact ⟨_, h2, by decide +kernel, by decide +kernel, ready_queues kernBoot_init h2⟩

/-- The RT process 14 calls FS and MM, though it is queued at FS; it leaves RT mode, MM
    answers it, and FS takes the message that is still queued. -/
def doubleReady : List KernEvent :=
  [.set2rt 14, .call 14 .both (procNr fsProc) true, .call 14 .both (procNr mmProc) true,
   .set2nrt 14 goodEnv 14, .call mmProc .receive any true, .call mmProc .send (procNr 14) true,
   .call fsProc .receive any true]

/-- **THE CYCLE.**  FS makes 14 ready, which MM has made ready before: 14 is the head of the
    queue of the users and its own successor.  The chain does not end, so there is no list
    of the processes in it. -/
theorem ready_twice_closes_cycle :
    KernInit kernBoot kernBootReady ∧
      (kernBoot.kernRun (doubleReady.take 2)).any (fun s => decide (s.cur = 14)) = true ∧
      ∃ s, kernBoot.kernRun doubleReady = some s ∧ s.mx.rdyHead .user = some 14 ∧
        s.mx.nextready 14 = some 14 ∧ ¬ ∃ R, s.QueuesHold R := by
  refine ⟨kernBoot_init, by decide +kernel, _, Run.eq_some_getD bss (by decide +kernel),
    by decide +kernel, by decide +kernel, ?_⟩
  rintro ⟨R, hR⟩
  have hch := hR.chain .user
  have hhead : ((kernBoot.kernRun doubleReady).getD bss).mx.rdyHead .user = some 14 := by
    decide +kernel
  rw [hhead] at hch
  exact not_chain_of_loop (by decide +kernel) hch

end Kernel
