import Minix4rt.ReadyQueueProofs
import Minix4rt.SignalModelProofs

/-! # Every kernel signal is acknowledged once

    `p_pendcount` of a live process counts the signals in `p_pending` and those that MM has
    been told of and has not finished.  `sig_procs` counts the processes with `PENDING`.

    The loop of `do_ksig` breaks the first of these: it skips a `SIGALRM` for a process
    whose alarm has been put off meanwhile, and with the signal also the acknowledgement.
    So the theorem is about runs in which MM never meets such a signal, and in which
    signals go to live user processes. -/

namespace Kernel

open Vtimer KState Option
open Function (update update_self update_of_ne)

variable {s s' s1 : KState} {p c d rp : Proc} {dest src n : Int} {ok : Bool} {r : Code}

/-! ## Who waits

    MM can be told of signals only while it waits for any message.  No other process can
    make it wait. -/

/-- `p` waits for no more than it did. -/
structure Calmer (p : Proc) (s s' : KState) : Prop where
  getfrom : s'.mx.getfrom p = s.mx.getfrom p
  receiving : (s'.mx.flags p).receiving = true → (s.mx.flags p).receiving = true
  sending : (s'.mx.flags p).sending = true → (s.mx.flags p).sending = true

namespace Calmer

theorem refl (p : Proc) (s : KState) : Calmer p s s := ⟨rfl, id, id⟩

theorem trans (h : Calmer p s s1) (h' : Calmer p s1 s') : Calmer p s s' :=
  ⟨h'.getfrom.trans h.getfrom, h.receiving ∘ h'.receiving, h.sending ∘ h'.sending⟩

theorem of_rdy (h : RdyOnly s s') : Calmer p s s' := by
  refine ⟨?_, ?_, ?_⟩
  · rw [h.mx]
  all_goals
    rw [h.flags]
    exact id

theorem of_links (h : LinksOnly s s') : Calmer p s s' := by
  obtain ⟨q, l, rfl⟩ := h
  exact ⟨rfl, id, id⟩

theorem setPFlags (s : KState) (q : Proc) {g : PFlags → PFlags}
    (hr : ∀ f, (g f).receiving = true → f.receiving = true)
    (hs : ∀ f, (g f).sending = true → f.sending = true) : Calmer p s (s.setPFlags q g) := by
  by_cases hq : p = q
  · subst hq
    refine ⟨rfl, ?_, ?_⟩
    · rw [setPFlags_flags]
      exact hr _
    · rw [setPFlags_flags]
      exact hs _
  · refine ⟨rfl, ?_, ?_⟩ <;> simp [KState.setPFlags, hq]

theorem acceptFrom {prev : Option Proc} {q : Proc} (h : s.acceptFrom c prev q = some s') :
    Calmer p s s' := by
  obtain ⟨s1, -, hlinks, rfl⟩ := acceptFrom_cases h
  exact ((of_links hlinks).trans (Calmer.setPFlags s1 q
    (g := fun f => { f with sending := false }) (fun _ h => h) (fun _ h => by simp at h))).trans
    (of_rdy (readyIfZero_only _ q))

end Calmer

/-- Signals are left alone, and MM waits for no more than it did. -/
structure SigFrame (s s' : KState) : Prop extends SameSigs s s', Calmer mmProc s s'

namespace SigFrame

theorem trans (h : SigFrame s s1) (h' : SigFrame s1 s') : SigFrame s s' :=
  ⟨h.toSameSigs.trans h'.toSameSigs, h.toCalmer.trans h'.toCalmer⟩

theorem of_rdy (h : RdyOnly s s') : SigFrame s s' := ⟨.of_rdy h, .of_rdy h⟩

theorem setPFlags (s : KState) (q : Proc) {g : PFlags → PFlags}
    (hb : ∀ f, (g f).sigBits = f.sigBits)
    (hr : ∀ f, (g f).receiving = true → f.receiving = true)
    (hs : ∀ f, (g f).sending = true → f.sending = true) : SigFrame s (s.setPFlags q g) :=
  ⟨.setPFlags s q hb, .setPFlags s q hr hs⟩

end SigFrame

/-- A send starts no wait for a message. -/
theorem Sends.listens (h : Sends s c d dest s') (p : Proc) :
    s'.mx.getfrom p = s.mx.getfrom p ∧
      ((s'.mx.flags p).receiving = true → (s.mx.flags p).receiving = true) ∧
      (p ≠ c → (s'.mx.flags p).sending = true → (s.mx.flags p).sending = true) := by
  cases h with
  | direct _ he =>
    subst he
    have hc : Calmer p s _ := (Calmer.setPFlags s d (g := fun f => { f with receiving := false })
      (fun _ h => by simp at h) (fun _ h => h)).trans (Calmer.of_rdy (readyIfZero_only _ d))
    exact ⟨hc.getfrom, hc.receiving, fun _ => hc.sending⟩
  | @queued s1 _ _ h1 h2 =>
    have hrdy := unreadyIfZero_only h1
    have hlinks := joinCallers_links h2
    have hget : s1.mx.getfrom = s.mx.getfrom := by rw [hrdy.mx]
    rw [hlinks.getfrom, hlinks.flags]
    refine ⟨congrFun hget p, ?_, ?_⟩
    · rw [← hrdy.flags]
      by_cases hp : p = c
      · subst hp
        simp [KState.markSending, KState.setPFlags]
      · simp [KState.markSending, KState.setPFlags, hp]
    · intro hp
      rw [← hrdy.flags]
      simp [KState.markSending, KState.setPFlags, hp]

theorem Calmer.miniSend (hp : p ≠ c) (h : s.miniSend c dest ok = some (s', r)) :
    Calmer p s s' := by
  rcases miniSend_cases h with ⟨-, rfl⟩ | ⟨-, d, -, -, hsend⟩
  · exact .refl p _
  · obtain ⟨hget, hrec, hsnd⟩ := hsend.listens p
    exact ⟨hget, hrec, hsnd hp⟩

theorem miniSend_receiving (h : s.miniSend c dest ok = some (s', r)) (p : Proc) :
    (s'.mx.flags p).receiving = true → (s.mx.flags p).receiving = true := by
  rcases miniSend_cases h with ⟨-, rfl⟩ | ⟨-, d, -, -, hsend⟩
  · exact id
  · exact (hsend.listens p).2.1

/-- The state in which `c` has blocked, before MM is told of anything. -/
theorem blockReceiver_blocked (h : s.blockReceiver c src = some s') :
    ∃ s2, SameSigs s s2 ∧ (∀ p, p ≠ c → Calmer p s s2) ∧ s2.mx.getfrom c = src ∧
      ((s2.mx.flags c).sending = (s.mx.flags c).sending) ∧
      (¬ (c = mmProc ∧ src = any) ∧ s' = s2 ∨
        c = mmProc ∧ src = any ∧ (s' = s2 ∨
          (s2.mx.flags c).receiving = true ∧ s2.inform = some s')) := by
  obtain ⟨s1, h1, hend⟩ := blockReceiver_cases h
  have hrdy := unreadyIfZero_only h1
  have hget : s1.mx.getfrom = update s.mx.getfrom c src := by rw [hrdy.mx]
  refine ⟨s1.setPFlags c (fun f => { f with receiving := true }), ?_, fun p hp => ?_, ?_, ?_, ?_⟩
  · have hsame : SameSigs s { s with mx := { s.mx with
        getfrom := update s.mx.getfrom c src } } := ⟨fun _ => rfl, rfl, rfl, rfl, rfl⟩
    exact (hsame.trans (.of_rdy hrdy)).trans (.setPFlags s1 c
      (g := fun f => { f with receiving := true }) (fun _ => rfl))
  · refine ⟨?_, ?_, ?_⟩
    · simp [KState.setPFlags, hget, hp]
    all_goals simp [KState.setPFlags, hrdy.flags, hp]
  · simp [KState.setPFlags, hget]
  · simp [KState.setPFlags, hrdy.flags]
  · rcases hend with ⟨-, rfl⟩ | ⟨-, hc, hsrc, hi⟩
    · by_cases hca : c = mmProc ∧ src = any
      · exact .inr ⟨hca.1, hca.2, .inl rfl⟩
      · exact .inl ⟨hca, rfl⟩
    · refine .inr ⟨hc, hsrc, .inr ⟨?_, hi⟩⟩
      rw [setPFlags_flags]

/-! ## Telling MM -/

/-- MM waits for any message. -/
def KState.mmAwaits (s : KState) : Prop :=
  (s.mx.flags mmProc).receiving = true ∧ s.mx.getfrom mmProc = any

/-- The signals of `rp` have gone from the kernel to MM. -/
structure Told (s : KState) (rp : Proc) (s' : KState) : Prop where
  bits : ∀ p, p ≠ rp → (s'.mx.flags p).sigBits = (s.mx.flags p).sigBits
  bitsTold : (s'.mx.flags rp).sigBits =
    ((s.mx.flags rp).slotFree, false, (s.mx.flags rp).sigPending)
  pending : s'.mx.pending = update s.mx.pending rp ∅
  pendcount : s'.mx.pendcount = s.mx.pendcount
  sigProcs : s'.mx.sigProcs = s.mx.sigProcs - 1
  ksig : s'.mx.ksig = some (rp, s.mx.pending rp)
  deaf : (s'.mx.flags mmProc).receiving = false

/-- MM, which waits, gets the message at once. -/
theorem inform_told (haw : s.mmAwaits) (hsend : (s.mx.flags mmProc).sending = false)
    (h : s.inform = some s') :
    s' = s ∨ ∃ rp, (s.mx.flags rp).pending = true ∧ Told s rp s' := by
  rcases inform_cases h with ⟨-, rfl⟩ | ⟨rp, s1, hrp, h1, h2⟩
  · exact .inl rfl
  have hsame := SameSigs.miniSend h1
  have hdeaf : (s1.mx.flags mmProc).receiving = false := by
    rcases miniSend_cases h1 with ⟨hne, -⟩ | ⟨-, d, hd, -, hs⟩
    · exact absurd rfl hne
    have hdm : d = mmProc := by
      rw [procAddr_procNr] at hd
      exact (some.inj hd).symm
    subst hdm
    have haws : ({ s with mx := { s.mx with sigProcs := s.mx.sigProcs - 1 } } :
        KState).awaits mmProc hardwareProc = true := by
      simp [awaits, haw.1, haw.2, hsend]
    cases hs with
    | direct _ he =>
      subst he
      rw [(readyIfZero_only _ mmProc).flags, setPFlags_flags]
    | queued hno => cases hno.symm.trans haws
  refine .inr ⟨rp, firstPending_pending hrp, ?_⟩
  have hfl := informed_flags s1 rp
  have hmx := (pickProc_only h2).2
  refine ⟨fun p hp => ?_, ?_, ?_, ?_, ?_, ?_, ?_⟩
  · rw [hmx, hfl, if_neg hp]
    exact hsame.bits p
  · rw [hmx, hfl, if_pos rfl]
    have h1 := hsame.slotFree rp
    have h2 := hsame.sigPending rp
    simp only [PFlags.sigBits]
    rw [h1, h2]
  · rw [hmx]
    simp only [informed]
    rw [hsame.pending]
  · rw [hmx]
    exact hsame.pendcount
  · rw [hmx]
    exact hsame.sigProcs
  · rw [hmx]
    simp only [informed]
    rw [hsame.pending]
  · rw [hmx, hfl]
    by_cases hp : mmProc = rp
    · rw [if_pos hp, ← hp]
      exact hdeaf
    · rw [if_neg hp]
      exact hdeaf

/-! ## Counting -/

/-- The processes with `PENDING`. -/
def KState.pendingProcs (s : KState) : Finset Proc :=
  Finset.univ.filter (fun p => (s.mx.flags p).pending = true)

/-- The number of processes with `PENDING`, when the flag of one process has changed. -/
theorem pendingProcs_card (rp : Proc)
    (h : ∀ p, p ≠ rp → (s'.mx.flags p).pending = (s.mx.flags p).pending) :
    s'.pendingProcs.card + (s.mx.flags rp).pending.toNat =
      s.pendingProcs.card + (s'.mx.flags rp).pending.toNat := by
  have hcard : ∀ t : KState, t.pendingProcs.card =
      (t.mx.flags rp).pending.toNat +
        ∑ p ∈ Finset.univ.erase rp, (t.mx.flags p).pending.toNat := by
    intro t
    rw [KState.pendingProcs, Finset.card_filter,
      Finset.add_sum_erase _ (fun p => (t.mx.flags p).pending.toNat) (Finset.mem_univ rp)]
    refine Finset.sum_congr rfl (fun p _ => ?_)
    cases (t.mx.flags p).pending <;> rfl
  have hrest : ∑ p ∈ Finset.univ.erase rp, (s'.mx.flags p).pending.toNat =
      ∑ p ∈ Finset.univ.erase rp, (s.mx.flags p).pending.toNat := by
    refine Finset.sum_congr rfl (fun p hp => ?_)
    rw [h p (Finset.ne_of_mem_erase hp)]
  rw [hcard s, hcard s', hrest]
  omega

theorem sigLoop_length {map : Finset Sig} (h : ∀ i ∈ map, 1 ≤ i.val ∧ i.val ≤ 16) :
    (sigLoop map).length = map.card := by
  have hnd : (sigLoop map).Nodup := (List.nodup_finRange 32).filter _
  have hset : (sigLoop map).toFinset = map := by
    ext i
    simp only [sigLoop, List.mem_toFinset, List.mem_filter, List.mem_finRange, true_and,
      Bool.and_eq_true, decide_eq_true_eq]
    exact ⟨fun hi => hi.2, fun hi => ⟨h i hi, hi⟩⟩
  rw [← List.toFinset_card_of_nodup hnd, hset]

/-! ## The invariant -/

/-- What holds of one process.  A dead process has no pending signals; its count does not
    matter. -/
structure SigAt (x : SigSys) (p : Proc) : Prop where
  marked : (x.k.mx.flags p).pending = true ↔ x.k.mx.pending p ≠ ∅
  live : (x.k.mx.flags p).pending = true →
    isUser p = true ∧ (x.k.mx.flags p).slotFree = false
  count : (x.k.mx.flags p).slotFree = false →
    x.k.mx.pendcount p = (x.k.mx.pending p).card + x.unfinished p
  inhibited : (x.k.mx.flags p).slotFree = false →
    ((x.k.mx.flags p).sigPending = true ↔ x.k.mx.pendcount p ≠ 0)
  range : ∀ i ∈ x.k.mx.pending p, 1 ≤ i.val ∧ i.val ≤ 16
  table : 11 ≤ p.val → ((x.k.mx.flags p).slotFree = false ↔ x.inTable p = true)

/-- Nothing of this has changed for `p`. -/
structure SameAt (x x' : SigSys) (p : Proc) : Prop where
  bits : (x'.k.mx.flags p).sigBits = (x.k.mx.flags p).sigBits
  pending : x'.k.mx.pending p = x.k.mx.pending p
  pendcount : x'.k.mx.pendcount p = x.k.mx.pendcount p
  unfinished : x'.unfinished p = x.unfinished p
  inTable : x'.inTable p = x.inTable p

variable {x x' : SigSys}

theorem SigAt.same (h : SigAt x p) (e : SameAt x x' p) : SigAt x' p := by
  have hb := e.bits
  simp only [PFlags.sigBits, Prod.mk.injEq] at hb
  obtain ⟨hf, hp, hsp⟩ := hb
  refine ⟨?_, ?_, ?_, ?_, ?_, ?_⟩
  · rw [hp, e.pending]
    exact h.marked
  · rw [hp, hf]
    exact h.live
  · rw [hf, e.pendcount, e.pending, e.unfinished]
    exact h.count
  · rw [hf, hsp, e.pendcount]
    exact h.inhibited
  · rw [e.pending]
    exact h.range
  · rw [hf, e.inTable]
    exact h.table

/-- The invariant of the signals. -/
structure CountOk (x : SigSys) : Prop where
  at_ : ∀ p, SigAt x p
  idle : x.k.mmAwaits → x.k.mx.ksig = none ∧ x.mm.work = none ∧
    (x.k.mx.flags mmProc).sending = false
  procs : x.k.mx.sigProcs = x.k.pendingProcs.card
  box : ∀ rp map, x.k.mx.ksig = some (rp, map) → isUser rp = true ∧
    (x.k.mx.flags rp).slotFree = false ∧ x.mm.work = none ∧ ∀ i ∈ map, 1 ≤ i.val ∧ i.val ≤ 16
  loop : ∀ rp sigs, x.mm.work = some (rp, sigs) → isUser rp = true

/-- MM waits for any message only if it did, and sends no more than it did. -/
def MmFrame (s s' : KState) : Prop :=
  s'.mmAwaits → s.mmAwaits ∧
    ((s'.mx.flags mmProc).sending = true → (s.mx.flags mmProc).sending = true)

theorem Calmer.mmFrame (h : Calmer mmProc s s') : MmFrame s s' := by
  rintro ⟨hr, hg⟩
  rw [h.getfrom] at hg
  exact ⟨⟨h.receiving hr, hg⟩, h.sending⟩

/-- What MM finds when it waits, after a step. -/
theorem CountOk.idle_frame (h : CountOk x) (hm : MmFrame x.k s') (haw : s'.mmAwaits) :
    x.k.mx.ksig = none ∧ x.mm.work = none ∧ (s'.mx.flags mmProc).sending = false := by
  obtain ⟨hold, hsnd⟩ := hm haw
  obtain ⟨h1, h2, h3⟩ := h.idle hold
  refine ⟨h1, h2, ?_⟩
  by_contra hc
  rw [hsnd (by simpa using hc)] at h3
  cases h3

/-- A step that changes the data of one process. -/
theorem CountOk.change (h : CountOk x) (rp : Proc) (hsame : ∀ p, p ≠ rp → SameAt x x' p)
    (hat : SigAt x' rp)
    (hp : x'.k.mx.sigProcs + (x.k.mx.flags rp).pending.toNat =
      x.k.mx.sigProcs + (x'.k.mx.flags rp).pending.toNat)
    (hidle : x'.k.mmAwaits → x'.k.mx.ksig = none ∧ x'.mm.work = none ∧
      (x'.k.mx.flags mmProc).sending = false)
    (hbox : ∀ rp map, x'.k.mx.ksig = some (rp, map) → isUser rp = true ∧
      (x'.k.mx.flags rp).slotFree = false ∧ x'.mm.work = none ∧ ∀ i ∈ map, 1 ≤ i.val ∧ i.val ≤ 16)
    (hloop : ∀ rp sigs, x'.mm.work = some (rp, sigs) → isUser rp = true) : CountOk x' := by
  refine ⟨fun p => ?_, hidle, ?_, hbox, hloop⟩
  · by_cases hpr : p = rp
    · subst hpr
      exact hat
    · exact (h.at_ p).same (hsame p hpr)
  · have hcard := pendingProcs_card rp (fun p hne => congrArg (fun b => b.2.1) (hsame p hne).bits)
    have hold := h.procs
    omega

/-- A step of the kernel that leaves signals alone. -/
theorem CountOk.frame (h : CountOk x) (hs : SameSigs x.k s') (hm : MmFrame x.k s') :
    CountOk { x with k := s' } := by
  have hunf : ∀ p, SigSys.unfinished { x with k := s' } p = x.unfinished p := by
    intro p
    simp only [SigSys.unfinished, hs.ksig]
  refine ⟨fun p => (h.at_ p).same ⟨hs.bits p, ?_, ?_, hunf p, rfl⟩, fun haw => ?_, ?_, ?_, h.loop⟩
  · rw [hs.pending]
  · rw [hs.pendcount]
  · obtain ⟨h1, h2, h3⟩ := h.idle_frame hm haw
    exact ⟨hs.ksig.trans h1, h2, h3⟩
  · have hset : s'.pendingProcs = x.k.pendingProcs := by
      simp only [KState.pendingProcs, hs.pendingBit]
    rw [hset, hs.sigProcs]
    exact h.procs
  · intro rp map hk
    rw [hs.ksig] at hk
    rw [hs.slotFree]
    exact h.box rp map hk

theorem CountOk.aside (h : CountOk x) (hf : SigFrame x.k s') : CountOk { x with k := s' } :=
  h.frame hf.toSameSigs hf.toCalmer.mmFrame

/-- **MM IS TOLD**: the signals of one process move from `p_pending` into the message. -/
theorem CountOk.inform (h : CountOk x) (haw : x.k.mmAwaits) (hi : x.k.inform = some s') :
    CountOk { x with k := s' } := by
  obtain ⟨hksig, hwork, hsend⟩ := h.idle haw
  rcases inform_told haw hsend hi with rfl | ⟨rp, hrp, ht⟩
  · exact h
  have hrpOk := h.at_ rp
  obtain ⟨huser, hlive⟩ := hrpOk.live hrp
  have hb := ht.bitsTold
  simp only [PFlags.sigBits, Prod.mk.injEq] at hb
  obtain ⟨hf, hpd, hsp⟩ := hb
  have hunf0 : ∀ p, x.unfinished p = 0 := by
    intro p
    simp [SigSys.unfinished, hksig, hwork]
  have hunf : ∀ p, SigSys.unfinished { x with k := s' } p =
      if rp = p then (x.k.mx.pending rp).card else 0 := by
    intro p
    simp [SigSys.unfinished, ht.ksig, hwork]
  have hsame : ∀ p, p ≠ rp → SameAt x { x with k := s' } p := by
    intro p hp
    refine ⟨ht.bits p hp, ?_, ?_, ?_, rfl⟩
    · rw [ht.pending, update_of_ne hp]
    · rw [ht.pendcount]
    · rw [hunf, if_neg (Ne.symm hp), hunf0]
  have hat : SigAt { x with k := s' } rp := by
    have hpend : s'.mx.pending rp = ∅ := by rw [ht.pending, update_self]
    refine ⟨?_, ?_, ?_, ?_, ?_, ?_⟩
    · simp [hpd, hpend]
    · simp [hpd]
    · intro _
      have hcount := hrpOk.count hlive
      rw [hunf0] at hcount
      rw [hunf, if_pos rfl, ht.pendcount, hpend, Finset.card_empty]
      omega
    · intro _
      rw [hsp, ht.pendcount]
      exact hrpOk.inhibited hlive
    · intro i hi
      rw [hpend] at hi
      exact absurd hi (Finset.notMem_empty i)
    · rw [hf]
      exact hrpOk.table
  refine h.change rp hsame hat ?_ (fun haw' => ?_) ?_ h.loop
  · rw [ht.sigProcs, hpd, hrp]
    simp
  · exact nomatch haw'.1.symm.trans ht.deaf
  · intro rp' map hk
    have he := some.inj (hk.symm.trans ht.ksig)
    cases he
    exact ⟨huser, hf.trans hlive, hwork, hrpOk.range⟩

/-! ## A new signal -/

/-- A signal may be caused for a live user process. -/
def KState.liveUser (s : KState) (nr : Int) : Prop :=
  ∀ p, procAddr nr = some p → isUser p = true ∧ (s.mx.flags p).slotFree = false

/-- One more signal is counted, and `PENDING` and `SIG_PENDING` are set. -/
theorem CountOk.added {sig : Sig} (h : CountOk x) (huser : isUser rp = true)
    (hlive : (x.k.mx.flags rp).slotFree = false) (hsig : 1 ≤ sig.val ∧ sig.val ≤ 16)
    (hnew : sig ∉ x.k.mx.pending rp) (hm : MmFrame x.k s')
    (hbits : ∀ p, p ≠ rp → (s'.mx.flags p).sigBits = (x.k.mx.flags p).sigBits)
    (hbit : (s'.mx.flags rp).sigBits = (false, true, true))
    (hpend : s'.mx.pending = update x.k.mx.pending rp (insert sig (x.k.mx.pending rp)))
    (hcnt : s'.mx.pendcount = update x.k.mx.pendcount rp (x.k.mx.pendcount rp + 1))
    (hprocs : s'.mx.sigProcs + (x.k.mx.flags rp).pending.toNat = x.k.mx.sigProcs + 1)
    (hksig : s'.mx.ksig = x.k.mx.ksig) : CountOk { x with k := s' } := by
  have hrpOk := h.at_ rp
  simp only [PFlags.sigBits, Prod.mk.injEq] at hbit
  obtain ⟨hf, hpd, hsp⟩ := hbit
  have hunf : ∀ p, SigSys.unfinished { x with k := s' } p = x.unfinished p := by
    intro p
    simp only [SigSys.unfinished, hksig]
  have hsame : ∀ p, p ≠ rp → SameAt x { x with k := s' } p := by
    intro p hp
    refine ⟨hbits p hp, ?_, ?_, hunf p, rfl⟩
    · rw [hpend, update_of_ne hp]
    · rw [hcnt, update_of_ne hp]
  have hset : s'.mx.pending rp = insert sig (x.k.mx.pending rp) := by
    rw [hpend, update_self]
  have hone : s'.mx.pendcount rp = x.k.mx.pendcount rp + 1 := by
    rw [hcnt, update_self]
  have hat : SigAt { x with k := s' } rp := by
    refine ⟨?_, ?_, ?_, ?_, ?_, ?_⟩
    · rw [hset]
      simp [hpd]
    · intro _
      exact ⟨huser, hf⟩
    · intro _
      have hcount := hrpOk.count hlive
      rw [hunf, hset, hone, Finset.card_insert_of_notMem hnew]
      omega
    · intro _
      rw [hone]
      simp [hsp]
    · intro i hi
      rw [hset, Finset.mem_insert] at hi
      rcases hi with rfl | hi
      · exact hsig
      · exact hrpOk.range i hi
    · intro hp
      exact iff_of_true hf ((hrpOk.table hp).mp hlive)
  refine h.change rp hsame hat ?_ (fun haw => ?_) ?_ h.loop
  · rw [hpd]
    exact hprocs
  · obtain ⟨h1, h2, h3⟩ := h.idle_frame hm haw
    exact ⟨hksig.trans h1, h2, h3⟩
  · intro rp' map hk
    rw [hksig] at hk
    obtain ⟨hu, hl, hw, hr⟩ := h.box rp' map hk
    refine ⟨hu, ?_, hw, hr⟩
    by_cases hp : rp' = rp
    · subst hp
      exact hf
    · exact (congrArg (fun b => b.1) (hbits rp' hp)).trans hl

theorem CountOk.causeSig {nr : Int} {sig : Sig} (h : CountOk x) (hl : x.k.liveUser nr)
    (hsig : 1 ≤ sig.val ∧ sig.val ≤ 16) (hs : x.k.causeSig nr sig = some s') :
    CountOk { x with k := s' } := by
  simp only [KState.causeSig, bind_eq_bind, bind_eq_some_iff] at hs
  obtain ⟨rp, hrp, hs⟩ := hs
  obtain ⟨huser, hlive⟩ := hl rp hrp
  split at hs
  · cases hs
    exact h
  rename_i hnew
  split at hs
  · -- other signals of the process are pending
    rename_i hpd
    cases hs
    have hsp : (x.k.mx.flags rp).sigPending = true := by
      have hne := ((h.at_ rp).marked).mp hpd
      have hpos := Finset.card_pos.mpr (Finset.nonempty_iff_ne_empty.mpr hne)
      have hcount := (h.at_ rp).count hlive
      exact ((h.at_ rp).inhibited hlive).mpr (by omega)
    refine h.added huser hlive hsig hnew (fun haw => ⟨haw, id⟩) (fun _ _ => rfl) ?_ rfl rfl ?_ rfl
    · show (x.k.mx.flags rp).sigBits = _
      simp [PFlags.sigBits, hlive, hpd, hsp]
    · rw [hpd]
      rfl
  · rename_i hpd
    have hpd : (x.k.mx.flags rp).pending = false := by simpa using hpd
    simp only [markPending, bind_eq_bind, bind_eq_some_iff] at hs
    obtain ⟨s1, h1, hs⟩ := hs
    have hrdy := unreadyIfZero_only h1
    have hsame := SameSigs.of_rdy hrdy
    have hfl : ∀ p, (s1.mx.flags p) = x.k.mx.flags p := fun p => congrFun hrdy.flags p
    -- the state before MM is told
    have hok : CountOk { x with k := { s1.setPFlags rp (fun f =>
        { f with pending := true, sigPending := true }) with
        mx := { (s1.setPFlags rp (fun f => { f with pending := true, sigPending := true })).mx with
          sigProcs := s1.mx.sigProcs + 1 } } } := by
      refine h.added huser hlive hsig hnew ?_ ?_ ?_ hsame.pending hsame.pendcount ?_ hsame.ksig
      · exact ((Calmer.of_rdy hrdy).trans (Calmer.setPFlags s1 rp
          (g := fun f => { f with pending := true, sigPending := true })
          (fun _ h => h) (fun _ h => h))).mmFrame
      · intro p hp
        simp [KState.setPFlags, hp, hfl]
      · simp [KState.setPFlags, PFlags.sigBits, hfl, hlive]
      · have hsp : s1.mx.sigProcs = x.k.mx.sigProcs := hsame.sigProcs
        rw [hpd]
        simp [hsp]
    split at hs
    · rename_i hmm
      exact hok.inform hmm hs
    · cases hs
      exact hok

/-! ## System calls -/

/-- A receive of a process other than MM, or of MM from one process. -/
theorem miniRec_same (hne : ¬ (c = mmProc ∧ src = any)) (h : s.miniRec c src = some (s', r)) :
    SameSigs s s' ∧ (∀ p, p ≠ c → Calmer p s s') ∧
      ((s'.mx.flags c).receiving = true → (s.mx.flags c).receiving = true ∨
        s'.mx.getfrom c = src) := by
  obtain ⟨-, ⟨-, prev, q, -, ha⟩ | ⟨-, -, -, -, rfl⟩ | ⟨-, hb⟩⟩ := miniRec_cases h
  · exact ⟨.acceptFrom ha, fun _ _ => .acceptFrom ha,
      fun hr => .inl ((Calmer.acceptFrom ha).receiving hr)⟩
  · exact ⟨⟨fun _ => rfl, rfl, rfl, rfl, rfl⟩, fun _ _ => ⟨rfl, id, id⟩, .inl⟩
  · obtain ⟨s2, hs2, hcalm, hget, -, ⟨-, rfl⟩ | ⟨hc, hsrc, -⟩⟩ := blockReceiver_blocked hb
    · exact ⟨hs2, hcalm, fun _ => .inr hget⟩
    · exact absurd ⟨hc, hsrc⟩ hne

/-- MM asks for new work: it takes a message, or blocks and may be told of signals. -/
theorem CountOk.getWork (h : CountOk x) (hfree : x.free = true)
    (hrecv : (x.k.mx.flags mmProc).receiving = false)
    (hsend : (x.k.mx.flags mmProc).sending = false)
    (hs : x.k.miniRec mmProc any = some (s', r)) : CountOk { x with k := s' } := by
  simp only [SigSys.free, Bool.and_eq_true, isNone_iff_eq_none] at hfree
  -- MM, which runs, does not wait unless it blocks here
  have hdeaf : ∀ {t : KState}, Calmer mmProc x.k t → MmFrame x.k t := by
    rintro t hc ⟨hr, -⟩
    exact nomatch hrecv.symm.trans (hc.receiving hr)
  obtain ⟨-, ⟨-, prev, q, -, ha⟩ | ⟨-, -, -, -, rfl⟩ | ⟨-, hb⟩⟩ := miniRec_cases hs
  · exact h.frame (.acceptFrom ha) (hdeaf (.acceptFrom ha))
  · exact h.frame ⟨fun _ => rfl, rfl, rfl, rfl, rfl⟩ (hdeaf ⟨rfl, id, id⟩)
  · obtain ⟨s2, hs2, -, hget, hsnd, hend⟩ := blockReceiver_blocked hb
    have hblocked : CountOk { x with k := s2 } := by
      have hx : CountOk { x with k := { x.k with mx := { x.k.mx with
          flags := s2.mx.flags, getfrom := s2.mx.getfrom } } } := by
        refine ⟨fun p => (h.at_ p).same ⟨hs2.bits p, rfl, rfl, rfl, rfl⟩, fun _ => ?_, ?_, ?_,
          h.loop⟩
        · exact ⟨hfree.1, hfree.2, hsnd.trans hsend⟩
        · refine h.procs.trans ?_
          simp only [KState.pendingProcs, hs2.pendingBit]
        · intro rp map hk
          exact nomatch hfree.1.symm.trans hk
      exact hx.frame ⟨fun _ => rfl, hs2.pending, hs2.pendcount, hs2.sigProcs, hs2.ksig⟩
        (fun haw => ⟨haw, id⟩)
    rcases hend with ⟨hne, -⟩ | ⟨-, -, rfl | ⟨hr, hi⟩⟩
    · exact absurd ⟨rfl, rfl⟩ hne
    · exact hblocked
    · exact hblocked.inform ⟨hr, hget⟩ hi

theorem CountOk.call {fn : Fn} (h : CountOk x) (hmay : c = mmProc → x.mmMay fn n = true)
    (hs : x.k.sysCall c fn n ok = some (s', r)) : CountOk { x with k := s' } := by
  by_cases hc : c = mmProc
  · subst hc
    have hm := hmay rfl
    simp only [SigSys.mmMay, Bool.and_eq_true, Bool.not_eq_true', Bool.or_eq_true,
      decide_eq_true_eq] at hm
    obtain ⟨⟨hsend, hrecv⟩, hwork⟩ := hm
    have hsends : ∀ {t : KState} {r : Code}, x.k.miniSend mmProc n ok = some (t, r) →
        SameSigs x.k t ∧ (t.mx.flags mmProc).receiving = false := by
      intro t r ht
      refine ⟨.miniSend ht, ?_⟩
      by_contra hne
      have := miniSend_receiving ht mmProc (by simpa using hne)
      exact nomatch hrecv.symm.trans this
    have hdeaf : ∀ {t : KState}, (t.mx.flags mmProc).receiving = false → MmFrame x.k t := by
      rintro t ht ⟨hr, -⟩
      exact nomatch ht.symm.trans hr
    rcases sysCall_cases hs with
      ⟨-, rfl⟩ | ⟨-, -, ⟨rfl, hm⟩ | ⟨-, hm⟩ | ⟨-, s1, h1, hm⟩ | ⟨-, -, hm⟩⟩
    · exact h
    · by_cases hany : n = any
      · subst hany
        exact h.getWork (by simpa using hwork) hrecv hsend hm
      · obtain ⟨hsame, -, hr⟩ := miniRec_same (fun hc => hany hc.2) hm
        refine h.frame hsame ?_
        rintro ⟨hr', hg⟩
        rcases hr hr' with hr0 | hg'
        · exact nomatch hrecv.symm.trans hr0
        · exact absurd (hg'.symm.trans hg) hany
    · obtain ⟨hsame, hd⟩ := hsends hm
      exact h.frame hsame (hdeaf hd)
    · -- a send to `ANY` is no send
      have hany : n ≠ any := by
        rintro rfl
        rcases miniSend_cases h1 with ⟨hne, -⟩ | ⟨-, d, hd, -, -⟩
        · exact hne rfl
        · cases hd
      obtain ⟨hsame1, hd1⟩ := hsends h1
      obtain ⟨hsame, -, hr⟩ := miniRec_same (fun hc => hany hc.2) hm
      refine h.frame (hsame1.trans hsame) ?_
      rintro ⟨hr', hg⟩
      rcases hr hr' with hr0 | hg'
      · exact nomatch hd1.symm.trans hr0
      · exact absurd (hg'.symm.trans hg) hany
    · obtain ⟨hsame, hd⟩ := hsends hm
      exact h.frame hsame (hdeaf hd)
  · have hne : ∀ {src : Int}, ¬ (c = mmProc ∧ src = any) := fun hh => hc hh.1
    have hmm : mmProc ≠ c := Ne.symm hc
    rcases sysCall_cases hs with
      ⟨-, rfl⟩ | ⟨-, -, ⟨-, hm⟩ | ⟨-, hm⟩ | ⟨-, s1, h1, hm⟩ | ⟨-, -, hm⟩⟩
    · exact h
    · obtain ⟨hsame, hcalm, -⟩ := miniRec_same hne hm
      exact h.frame hsame (hcalm mmProc hmm).mmFrame
    · exact h.frame (.miniSend hm) (Calmer.miniSend hmm hm).mmFrame
    · obtain ⟨hsame, hcalm, -⟩ := miniRec_same hne hm
      exact h.frame ((SameSigs.miniSend h1).trans hsame)
        ((Calmer.miniSend hmm h1).trans (hcalm mmProc hmm)).mmFrame
    · exact h.frame (.miniSend hm) (Calmer.miniSend hmm hm).mmFrame

/-! ## The other calls of the kernel -/

theorem CountOk.newmap (h : CountOk x) (hs : x.k.doNewmap n ok = some (s', r)) :
    CountOk { x with k := s' } := by
  rw [doNewmap] at hs
  split at hs
  · cases hs
    exact h
  rename_i rp _
  split at hs
  · cases hs
  simp only [some.injEq, Prod.mk.injEq] at hs
  obtain ⟨rfl, -⟩ := hs
  have hmap : SigFrame x.k _ := .setPFlags x.k rp (g := fun f => { f with noMap := false })
    (fun _ => rfl) (fun _ h => h) (fun _ h => h)
  split
  · exact h.aside (hmap.trans (.of_rdy (readyIfZero_only _ rp)))
  · exact h.aside hmap

theorem CountOk.trace {req : TraceReq} (h : CountOk x)
    (hs : x.k.doTrace n req = some (s', r)) : CountOk { x with k := s' } := by
  simp only [doTrace, bind_eq_bind, bind_eq_some_iff] at hs
  obtain ⟨rp, -, hs⟩ := hs
  split at hs
  · cases hs
    exact h
  have hgo : CountOk { x with
      k := (x.k.setPFlags rp (fun f => { f with pStop := false })).readyIfZero rp } := by
    exact h.aside ((SigFrame.setPFlags x.k rp (g := fun f => { f with pStop := false })
      (fun _ => rfl) (fun _ h => h) (fun _ h => h)).trans (.of_rdy (readyIfZero_only _ rp)))
  cases req with
  | stop =>
    simp only [bind_eq_some_iff, some.injEq, Prod.mk.injEq] at hs
    obtain ⟨s1, h1, rfl, -⟩ := hs
    exact h.aside ((SigFrame.of_rdy (unreadyIfZero_only h1)).trans (.setPFlags s1 rp
      (g := fun f => { f with pStop := true }) (fun _ => rfl) (fun _ h => h) (fun _ h => h)))
  | resume | step =>
    cases hs
    exact hgo
  | data =>
    cases hs
    exact h

theorem CountOk.exec {traced : Bool} (h : CountOk x) (hl : traced = true → x.k.liveUser n)
    (hs : x.k.doExec n traced = some (s', r)) : CountOk { x with k := s' } := by
  rw [doExec] at hs
  split at hs
  · cases hs
    exact h
  simp only [bind_eq_bind, bind_eq_some_iff, some.injEq, Prod.mk.injEq] at hs
  obtain ⟨s1, h1, rp, -, rfl, -⟩ := hs
  have hk : CountOk { x with k := s1 } := by
    split at h1
    · rename_i ht
      exact h.causeSig (hl ht) (by decide) h1
    · cases h1
      exact h
  exact hk.aside ((SigFrame.setPFlags s1 rp (g := fun f => { f with receiving := false })
    (fun _ => rfl) (fun _ h => by simp at h) (fun _ h => h)).trans
    (.of_rdy (readyIfZero_only _ rp)))

theorem CountOk.interrupt (h : CountOk x) (t : Proc) :
    CountOk { x with k := x.k.interrupt t } := by
  rw [KState.interrupt]
  split
  · have hset : SigFrame x.k _ := .setPFlags x.k t (g := fun f => { f with receiving := false })
      (fun _ => rfl) (fun _ h => by simp at h) (fun _ h => h)
    have hblk : SigFrame (x.k.setPFlags t (fun f => { f with receiving := false }))
        { x.k.setPFlags t (fun f => { f with receiving := false }) with
          mx := { (x.k.setPFlags t (fun f => { f with receiving := false })).mx with
            intBlocked := update x.k.mx.intBlocked t false } } :=
      ⟨⟨fun _ => rfl, rfl, rfl, rfl, rfl⟩, ⟨rfl, id, id⟩⟩
    exact h.aside ((hset.trans hblk).trans (.of_rdy (readyTask_only _ t)))
  · exact h.aside ⟨⟨fun _ => rfl, rfl, rfl, rfl, rfl⟩, ⟨rfl, id, id⟩⟩

/-! ## MM at work -/

/-- The same, when MM has no message and waits for no more than it did. -/
theorem CountOk.change_mm (h : CountOk x) (rp : Proc) (hsame : ∀ p, p ≠ rp → SameAt x x' p)
    (hat : SigAt x' rp) (hm : MmFrame x.k x'.k)
    (hp : x'.k.mx.sigProcs + (x.k.mx.flags rp).pending.toNat =
      x.k.mx.sigProcs + (x'.k.mx.flags rp).pending.toNat)
    (hksig : x'.k.mx.ksig = none) (hwork : x.mm.work = none → x'.mm.work = none)
    (hloop : ∀ rp sigs, x'.mm.work = some (rp, sigs) → isUser rp = true) : CountOk x' := by
  refine h.change rp hsame hat hp (fun haw => ?_) (fun rp' map hk => ?_) hloop
  · obtain ⟨-, h2, h3⟩ := h.idle_frame hm haw
    exact ⟨hksig, hwork h2, h3⟩
  · exact nomatch hksig.symm.trans hk

/-- MM takes up the message: the signals of the message are the signals of the loop. -/
theorem CountOk.doKsig (h : CountOk x) (hs : x.doKsig = some x') : CountOk x' := by
  rw [SigSys.doKsig] at hs
  split at hs
  · cases hs
  rename_i rp map hk
  obtain ⟨huser, hlive, hwork, hrange⟩ := h.box rp map hk
  have huser' : 13 ≤ rp.val := by simpa [isUser] using huser
  have hin := ((h.at_ rp).table (by omega)).mp hlive
  simp only [SigSys.inTable, Bool.and_eq_true, Bool.not_eq_true'] at hin
  rw [if_neg (by simp [hin])] at hs
  cases hs
  have hunf : ∀ p, SigSys.unfinished ⟨{ x.k with mx := { x.k.mx with ksig := none } },
      { x.mm with work := some (rp, sigLoop map), asked := false }⟩ p = x.unfinished p := by
    intro p
    simp only [SigSys.unfinished, hk, hwork]
    rw [sigLoop_length hrange]
    simp
  refine ⟨fun p => (h.at_ p).same ⟨rfl, rfl, rfl, hunf p, rfl⟩, fun haw => ?_, h.procs, ?_, ?_⟩
  · have hidle := (h.idle haw).1
    exact nomatch hidle.symm.trans hk
  · intro rp' map' hk'
    cases hk'
  · intro rp' sigs' hw
    cases hw
    exact huser

/-- MM works on a signal, so it has taken the message. -/
theorem CountOk.ksig_none (h : CountOk x) (hw : x.mm.work ≠ none) : x.k.mx.ksig = none := by
  cases hk : x.k.mx.ksig with
  | none => rfl
  | some m => exact absurd (h.box m.1 m.2 hk).2.2.1 hw

/-- What is left to do is left for the process of the loop only. -/
theorem unfinished_other {sigs : List Sig} (hw : x.mm.work = some (rp, sigs))
    (hp : p ≠ rp) : x.unfinished p = (match x.k.mx.ksig with
      | some (rp, map) => if rp = p then map.card else 0
      | none => 0) := by
  simp only [SigSys.unfinished, hw, if_neg (Ne.symm hp)]
  rfl

/-- The loop is at its end, skips a signal of a dead process, or delivers a signal. -/
theorem CountOk.ksigNext (h : CountOk x)
    (hal : ∀ rp sigs, x.mm.work = some (rp, sigalrm :: sigs) →
      (x.k.mx.flags rp).slotFree = false → x.mm.alarmOn rp = true)
    (hs : x.ksigNext = some x') : CountOk x' := by
  rw [SigSys.ksigNext] at hs
  split at hs
  · rename_i rp hw ha
    cases hs
    have hk := h.ksig_none (by rw [hw]; simp)
    have hunf : ∀ p, SigSys.unfinished { x with mm := { x.mm with work := none } } p =
        x.unfinished p := by
      intro p
      simp [SigSys.unfinished, hw]
    refine ⟨fun p => (h.at_ p).same ⟨rfl, rfl, rfl, hunf p, rfl⟩, fun haw => ?_, h.procs, ?_, ?_⟩
    · exact ⟨hk, rfl, (h.idle haw).2.2⟩
    · intro rp' map hk'
      exact nomatch hk.symm.trans hk'
    · intro rp' sigs hw'
      cases hw'
  · rename_i rp sig sigs hw ha
    split at hs
    · rename_i hskip
      obtain ⟨rfl, hoff⟩ := hskip
      cases hs
      have hk := h.ksig_none (by rw [hw]; simp)
      have hdead : (x.k.mx.flags rp).slotFree = true := by
        by_contra hne
        have hon := hal rp sigs hw (by simpa using hne)
        exact nomatch hoff.symm.trans hon
      have hold := h.at_ rp
      refine h.change_mm rp (fun p hp => ⟨rfl, rfl, rfl, ?_, rfl⟩) ?_
        (fun haw => ⟨haw, id⟩) rfl hk ?_ ?_
      · rw [unfinished_other hw hp]
        exact unfinished_other rfl hp
      · refine ⟨hold.marked, hold.live, fun hl => ?_, fun hl => ?_, hold.range, hold.table⟩
        all_goals exact nomatch hdead.symm.trans hl
      · intro hw'
        exact nomatch hw.symm.trans hw'
      · intro rp' sigs' hw'
        cases hw'
        exact h.loop rp _ hw
    · cases hs
      exact ⟨fun p => (h.at_ p).same ⟨rfl, rfl, rfl, rfl, rfl⟩, h.idle, h.procs, h.box, h.loop⟩
  · cases hs

/-- `do_endsig` lowers one count; at zero the process is inhibited no more. -/
theorem doEndsig_cases (hu : isUser rp = true) (h : s.doEndsig (procNr rp) = some (s', r)) :
    ∃ s1, RdyOnly s1 s' ∧ Calmer mmProc s s1 ∧ s1.mx.pending = s.mx.pending ∧
      s1.mx.sigProcs = s.mx.sigProcs ∧ s1.mx.ksig = s.mx.ksig ∧
      s1.mx.pendcount = update s.mx.pendcount rp (s.mx.pendcount rp - 1) ∧
      (∀ p, p ≠ rp → s1.mx.flags p = s.mx.flags p) ∧
      s1.mx.flags rp = (if s.mx.pendcount rp = 1 then { s.mx.flags rp with sigPending := false }
        else s.mx.flags rp) := by
  have hok : isOkUser (procNr rp) = true := by
    have h13 : 13 ≤ rp.val := by simpa [isUser] using hu
    have hlt := rp.isLt
    rw [isOkUser, Bool.and_eq_true, decide_eq_true_eq, decide_eq_true_eq, procNr]
    omega
  rw [doEndsig, if_neg (by simp [hok])] at h
  simp only [procAddr_procNr, bind_eq_bind, bind_some] at h
  split at h
  · rename_i hz
    cases h
    refine ⟨s, .refl s, .refl _ _, rfl, rfl, rfl, ?_, fun _ _ => rfl, ?_⟩
    · rw [hz, ← hz]
      simp [hz]
    · rw [hz]
      rfl
  rename_i hz
  split at h
  · rename_i hone
    cases h
    have h1 : s.mx.pendcount rp = 1 := by omega
    refine ⟨_, readyIfZero_only _ rp, ?_, rfl, rfl, rfl, rfl, fun p hp => ?_, ?_⟩
    · have hc := Calmer.setPFlags (p := mmProc) ({ s with mx := { s.mx with
        pendcount := update s.mx.pendcount rp (s.mx.pendcount rp - 1) } } : KState) rp
        (g := fun f => { f with sigPending := false }) (fun _ h => h) (fun _ h => h)
      exact { hc with }
    · simp [KState.setPFlags, hp]
    · rw [if_pos h1, setPFlags_flags]
  · rename_i hone
    cases h
    refine ⟨_, .refl _, ⟨rfl, id, id⟩, rfl, rfl, rfl, rfl, fun _ _ => rfl, ?_⟩
    rw [if_neg (by omega)]

/-- MM acknowledges a signal. -/
theorem CountOk.ksigAck (h : CountOk x) (hs : x.ksigAck = some x') : CountOk x' := by
  rw [SigSys.ksigAck] at hs
  split at hs
  · rename_i rp sig sigs hw ha
    obtain ⟨⟨s2, r⟩, h2, rfl⟩ := map_eq_some_iff.mp hs
    have hk := h.ksig_none (by rw [hw]; simp)
    obtain ⟨s1, hrdy, hcalm, hpend, hprocs, hks, hcnt, hother, hself⟩ :=
      doEndsig_cases (h.loop rp _ hw) h2
    have hsame := SameSigs.of_rdy hrdy
    have hfl : ∀ p, s2.mx.flags p = s1.mx.flags p := fun p => congrFun hrdy.flags p
    have hold := h.at_ rp
    -- of the flags of the process only `SIG_PENDING` can differ
    have hbits : (s1.mx.flags rp).slotFree = (x.k.mx.flags rp).slotFree ∧
        (s1.mx.flags rp).pending = (x.k.mx.flags rp).pending := by
      rw [hself]
      split <;> exact ⟨rfl, rfl⟩
    have hc : s2.mx.pendcount rp = x.k.mx.pendcount rp - 1 := by
      rw [hsame.pendcount, hcnt, update_self]
    have hp : s2.mx.pending rp = x.k.mx.pending rp := by rw [hsame.pending, hpend]
    have hunf : x.unfinished rp = sigs.length + 1 := by
      simp [SigSys.unfinished, hk, hw]
    have hk2 : s2.mx.ksig = none := by rw [hsame.ksig, hks, hk]
    refine h.change_mm rp (fun p hne => ⟨?_, ?_, ?_, ?_, rfl⟩) ?_
      (hcalm.trans (.of_rdy hrdy)).mmFrame ?_ hk2 ?_ ?_
    · rw [hfl, hother p hne]
    · rw [hsame.pending, hpend]
    · rw [hsame.pendcount, hcnt, update_of_ne hne]
    · rw [unfinished_other hw hne, unfinished_other rfl hne, hk2, hk]
    · refine ⟨?_, ?_, fun hl => ?_, fun hl => ?_, ?_, ?_⟩
      · rw [hfl, hbits.2, hp]
        exact hold.marked
      · rw [hfl, hbits.1, hbits.2]
        exact hold.live
      · rw [hfl, hbits.1] at hl
        have hcount := hold.count hl
        have hunf' : SigSys.unfinished ⟨s2,
            { x.mm with work := some (rp, sigs), asked := false }⟩ rp = sigs.length := by
          simp [SigSys.unfinished, hk2]
        rw [hunf', hc, hp]
        omega
      · rw [hfl, hbits.1] at hl
        have hcount := hold.count hl
        have hinh := hold.inhibited hl
        rw [hfl, hself, hc]
        split
        · rename_i hone
          simp [hone]
        · rw [hinh]
          omega
      · rw [hp]
        exact hold.range
      · rw [hfl, hbits.1]
        exact hold.table
    · rw [hsame.sigProcs, hprocs, hfl, hbits.2]
    · intro hw'
      exact nomatch hw.symm.trans hw'
    · intro rp' sigs' hw'
      cases hw'
      exact h.loop rp _ hw
  · cases hs

/-! ## Exit and fork -/

theorem CountOk.mmExit {parent : Proc} {waited : Bool} (h : CountOk x)
    (hpar : 11 ≤ parent.val) (hu : isUser p = true) (hk : x.k.mx.ksig = none)
    (hs : x.mmExit parent p waited = some x') : CountOk x' := by
  rw [SigSys.mmExit] at hs
  obtain ⟨⟨s3, r⟩, h3, rfl⟩ := map_eq_some_iff.mp hs
  have h13 : 13 ≤ p.val := by simpa [isUser] using hu
  have hmm : mmProc ≠ p := by
    rintro rfl
    exact absurd h13 (by decide)
  rcases doXit_cases h3 with ⟨hbad, -⟩ | ⟨-, rc, s1, s2, hrc, -, h1, -, hlinks, rfl⟩
  · -- both numbers are in the table
    refine absurd ?_ hbad
    have hp1 : 0 ≤ procNr parent ∧ procNr parent < 32 := by
      have := parent.isLt
      rw [procNr]
      omega
    have hp2 : 0 ≤ procNr p ∧ procNr p < 32 := by
      have := p.isLt
      rw [procNr]
      omega
    rw [doXit, if_neg (by simp [hp1, hp2])] at h3
    simp only [procAddr_procNr, bind_eq_bind, bind_eq_some_iff, some.injEq, Prod.mk.injEq] at h3
    obtain ⟨-, -, -, -, -, hr⟩ := h3
    exact hr.symm
  have hrcp : rc = p := by
    rw [procAddr_procNr] at hrc
    exact (some.inj hrc).symm
  subst hrcp
  have hsame := (SameSigs.of_rdy (unreadyIfZero_only h1)).trans (.of_links hlinks)
  have hcalm := (Calmer.of_rdy (p := mmProc) (unreadyIfZero_only h1)).trans (.of_links hlinks)
  have hfl : ∀ q, q ≠ rc → (s2.freeSlot rc).mx.flags q = s2.mx.flags q :=
    fun q hq => (freeSlot_flags s2 rc q).trans (if_neg hq)
  have hself := (freeSlot_flags s2 rc rc).trans (if_pos rfl)
  have hunf : ∀ q, SigSys.unfinished ⟨s2.freeSlot rc, { x.mm with
      alarmOn := update x.mm.alarmOn rc false,
      inUse := update x.mm.inUse rc (!waited),
      hanging := update x.mm.hanging rc (!waited) }⟩ q = x.unfinished q := by
    intro q
    have hks : (s2.freeSlot rc).mx.ksig = x.k.mx.ksig := hsame.ksig
    simp only [SigSys.unfinished, hks]
  refine h.change_mm rc (fun q hq => ⟨?_, ?_, ?_, hunf q, ?_⟩) ?_ ?_ ?_
    (hsame.ksig.trans hk) id h.loop
  · rw [hfl q hq]
    exact hsame.bits q
  · simp [freeSlot, hq, hsame.pending]
  · simp [freeSlot, hq, hsame.pendcount]
  · simp [SigSys.inTable, hq]
  · -- the process is dead and has no signals
    refine ⟨?_, ?_, ?_, ?_, ?_, ?_⟩
    · simp [freeSlot, PFlags.clear]
    · simp [freeSlot, PFlags.clear]
    · simp [freeSlot]
    · simp [freeSlot]
    · simp [freeSlot]
    · intro _
      rw [hself]
      cases waited <;> simp [SigSys.inTable]
  · have hend : Calmer mmProc s2 (s2.freeSlot rc) := by
      refine ⟨rfl, ?_, ?_⟩ <;> rw [hfl mmProc hmm] <;> exact id
    exact (hcalm.trans hend).mmFrame
  · rw [hself]
    simp only [freeSlot, hsame.sigProcs, hsame.pendingBit, PFlags.clear]
    cases (x.k.mx.flags rc).pending <;> simp

/-- What `do_fork` does to the signals: nothing, but for the child. -/
theorem doFork_copies {pid : Int} (hp : 11 ≤ p.val) (hc : 11 ≤ c.val)
    (h : s.doFork (procNr p) (procNr c) pid = some (s', r)) :
    (∀ q, q ≠ c → s'.mx.flags q = s.mx.flags q ∧ s'.mx.getfrom q = s.mx.getfrom q ∧
      s'.mx.pending q = s.mx.pending q ∧ s'.mx.pendcount q = s.mx.pendcount q) ∧
    (s'.mx.flags c).sigBits = ((s.mx.flags p).slotFree, false, false) ∧
    s'.mx.pending c = ∅ ∧ s'.mx.pendcount c = 0 ∧
    s'.mx.sigProcs = s.mx.sigProcs ∧ s'.mx.ksig = s.mx.ksig := by
  have hok : ∀ q : Proc, 11 ≤ q.val → isOkServUser (procNr q) = true := by
    intro q hq
    have hlt := q.isLt
    rw [isOkServUser, Bool.and_eq_true, decide_eq_true_eq, decide_eq_true_eq, procNr]
    omega
  rw [doFork, if_neg (by simp [hok p hp, hok c hc])] at h
  simp only [procAddr_procNr, bind_eq_bind, bind_some, some.injEq, Prod.mk.injEq] at h
  obtain ⟨rfl, -⟩ := h
  refine ⟨fun q hq => ?_, ?_, ?_, ?_, rfl, rfl⟩
  · simp [copyProc, KState.setPFlags, hq]
  · simp [copyProc, KState.setPFlags, PFlags.sigBits]
  · simp
  · simp

/-- The slot of the child was free, so it had no signals to lose. -/
theorem CountOk.mmFork {parent child : Proc} {pid : Int} (h : CountOk x) (hfree : x.free = true)
    (hpar : 11 ≤ parent.val) (hpin : x.inTable parent = true) (hu : isUser child = true)
    (hnew : x.mm.inUse child = false) (hs : x.mmFork parent child pid = some x') :
    CountOk x' := by
  rw [SigSys.mmFork] at hs
  obtain ⟨⟨s1, r⟩, h1, rfl⟩ := map_eq_some_iff.mp hs
  simp only [SigSys.free, Bool.and_eq_true, isNone_iff_eq_none] at hfree
  have h13 : 13 ≤ child.val := by simpa [isUser] using hu
  have hmm : mmProc ≠ child := by
    rintro rfl
    exact absurd h13 (by decide)
  obtain ⟨hother, hbits, hpend, hcnt, hprocs, hks⟩ := doFork_copies hpar (by omega) h1
  simp only [PFlags.sigBits, Prod.mk.injEq] at hbits
  obtain ⟨hf, hpd, hsp⟩ := hbits
  have hk1 : s1.mx.ksig = none := hks.trans hfree.1
  have hplive := ((h.at_ parent).table hpar).mpr hpin
  have hcdead : (x.k.mx.flags child).pending = false := by
    by_contra hne
    have hl := ((h.at_ child).live (by simpa using hne)).2
    have hin := ((h.at_ child).table (by omega)).mp hl
    simp [SigSys.inTable, hnew] at hin
  refine h.change_mm child (fun q hq => ?_) ?_ ?_ ?_ hk1 id h.loop
  · obtain ⟨hfl, -, hpq, hcq⟩ := hother q hq
    refine ⟨by rw [hfl], hpq, hcq, ?_, ?_⟩
    · simp only [SigSys.unfinished, hks]
    · simp [SigSys.inTable, hq]
  · refine ⟨?_, ?_, fun _ => ?_, fun _ => ?_, ?_, fun _ => ?_⟩
    · simp [hpd, hpend]
    · simp [hpd]
    · simp [SigSys.unfinished, hcnt, hpend, hk1, hfree.2]
    · simp [hsp, hcnt]
    · simp [hpend]
    · have hin : x.mm.inUse parent = true ∧ x.mm.hanging parent = false := by
        simpa [SigSys.inTable] using hpin
      simp [SigSys.inTable, hf, hplive, hin]
  · obtain ⟨hfl, hget, -, -⟩ := hother mmProc hmm
    refine Calmer.mmFrame ⟨hget, ?_, ?_⟩ <;> rw [hfl] <;> exact id
  · rw [hprocs, hpd, hcdead]

/-! ## Runs -/

/-- The condition on an event: a signal 1.._NSIG is caused for a live user process, and
    when MM comes to a `SIGALRM` of a live process, its alarm has not been put off. -/
def SigSys.Fits (x : SigSys) : SigEvent → Prop
  | .cause nr sig => x.k.liveUser nr ∧ 1 ≤ sig.val ∧ sig.val ≤ 16
  | .exec nr traced => traced = true → x.k.liveUser nr
  | .next => ∀ rp sigs, x.mm.work = some (rp, sigalrm :: sigs) →
      (x.k.mx.flags rp).slotFree = false → x.mm.alarmOn rp = true
  | _ => True

/-- The states that runs reach whose events all meet the condition. -/
inductive SigReach (x₀ : SigSys) : SigSys → Prop where
  | start : SigReach x₀ x₀
  | step {x x' : SigSys} {e : SigEvent} :
      SigReach x₀ x → x.Fits e → x.sigStep e = some x' → SigReach x₀ x'

/-- **THE STEP LEMMA.** -/
theorem CountOk.step {e : SigEvent} (h : CountOk x) (he : x.Fits e)
    (hs : x.sigStep e = some x') : CountOk x' := by
  cases e with
  | call c fn n ok =>
    simp only [SigSys.sigStep] at hs
    split at hs
    · cases hs
    rename_i hmay
    obtain ⟨k, hk, rfl⟩ := map_eq_some_iff.mp hs
    obtain ⟨⟨k', r⟩, hk', rfl⟩ := map_eq_some_iff.mp hk
    refine h.call (fun hc => ?_) hk'
    by_contra hne
    exact hmay ⟨hc, hne⟩
  | cause nr sig =>
    obtain ⟨k, hk, rfl⟩ := map_eq_some_iff.mp hs
    exact h.causeSig he.1 he.2 hk
  | ksig => exact h.doKsig hs
  | next => exact h.ksigNext he hs
  | ack => exact h.ksigAck hs
  | alarm p on =>
    simp only [SigSys.sigStep] at hs
    split at hs
    · cases hs
      exact ⟨fun p => (h.at_ p).same ⟨rfl, rfl, rfl, rfl, rfl⟩, h.idle, h.procs, h.box, h.loop⟩
    · cases hs
  | exit parent p waited =>
    simp only [SigSys.sigStep] at hs
    split at hs
    · rename_i hg
      obtain ⟨hpar, hu, -, hmm⟩ := hg
      refine h.mmExit hpar hu ?_ hs
      rcases hmm with hfree | hasked
      · simp only [SigSys.free, Bool.and_eq_true, isNone_iff_eq_none] at hfree
        exact hfree.1
      · exact hasked.1
    · cases hs
  | reap p =>
    simp only [SigSys.sigStep] at hs
    split at hs
    · rename_i hhang
      cases hs
      -- the process was not in the table before, and is not now
      have hin : ∀ q, SigSys.inTable { x with mm := { x.mm with
          inUse := update x.mm.inUse p false,
          hanging := update x.mm.hanging p false,
          alarmOn := update x.mm.alarmOn p false } } q = x.inTable q := by
        intro q
        by_cases hq : q = p
        · subst hq
          simp [SigSys.inTable, hhang]
        · simp [SigSys.inTable, hq]
      exact ⟨fun q => (h.at_ q).same ⟨rfl, rfl, rfl, rfl, hin q⟩, h.idle, h.procs, h.box, h.loop⟩
    · cases hs
  | fork parent child pid =>
    simp only [SigSys.sigStep] at hs
    split at hs
    · rename_i hg
      obtain ⟨hfree, hpar, hpin, hu, hnew⟩ := hg
      exact h.mmFork hfree hpar hpin hu (by simpa using hnew) hs
    · cases hs
  | newmap n ok =>
    obtain ⟨k, hk, rfl⟩ := map_eq_some_iff.mp hs
    obtain ⟨⟨k', r⟩, hk', rfl⟩ := map_eq_some_iff.mp hk
    exact h.newmap hk'
  | exec n traced =>
    obtain ⟨k, hk, rfl⟩ := map_eq_some_iff.mp hs
    obtain ⟨⟨k', r⟩, hk', rfl⟩ := map_eq_some_iff.mp hk
    exact h.exec he hk'
  | trace n req =>
    obtain ⟨k, hk, rfl⟩ := map_eq_some_iff.mp hs
    obtain ⟨⟨k', r⟩, hk', rfl⟩ := map_eq_some_iff.mp hk
    exact h.trace hk'
  | interrupt t =>
    cases hs
    exact h.interrupt t
  | sched =>
    obtain ⟨k, hk, rfl⟩ := map_eq_some_iff.mp hs
    exact h.aside (.of_rdy (sched_only hk))

/-- As after the boot: no signals, MM at no work, and the two tables agree. -/
structure SigInit (x : SigSys) : Prop where
  quiet : ∀ p, (x.k.mx.flags p).pending = false ∧ (x.k.mx.flags p).sigPending = false ∧
    x.k.mx.pending p = ∅ ∧ x.k.mx.pendcount p = 0
  none : x.k.mx.sigProcs = 0 ∧ x.k.mx.ksig = none ∧ x.mm.work = none
  mm : (x.k.mx.flags mmProc).sending = false
  table : ∀ p : Proc, 11 ≤ p.val → ((x.k.mx.flags p).slotFree = false ↔ x.inTable p = true)

theorem SigInit.countOk (h : SigInit x) : CountOk x := by
  obtain ⟨hprocs, hksig, hwork⟩ := h.none
  refine ⟨fun p => ?_, fun _ => ⟨hksig, hwork, h.mm⟩, ?_, ?_, ?_⟩
  · obtain ⟨h1, h2, h3, h4⟩ := h.quiet p
    refine ⟨?_, ?_, fun _ => ?_, fun _ => ?_, ?_, h.table p⟩
    · simp [h1, h3]
    · simp [h1]
    · simp [h3, h4, SigSys.unfinished, hksig, hwork]
    · simp [h2, h4]
    · simp [h3]
  · have hnone : x.k.pendingProcs = ∅ := by
      refine Finset.filter_eq_empty_iff.mpr (fun p _ => ?_)
      simp [(h.quiet p).1]
    rw [hprocs, hnone]
    rfl
  · intro rp map hk
    exact nomatch hksig.symm.trans hk
  · intro rp sigs hw
    exact nomatch hwork.symm.trans hw

/-- The signals are all accounted for. -/
structure SigSys.Accounted (x : SigSys) : Prop where
  count : ∀ p, (x.k.mx.flags p).slotFree = false →
    x.k.mx.pendcount p = (x.k.mx.pending p).card + x.unfinished p
  released : ∀ p, (x.k.mx.flags p).slotFree = false → x.k.mx.pending p = ∅ →
    x.unfinished p = 0 → x.k.mx.pendcount p = 0 ∧ (x.k.mx.flags p).sigPending = false
  procs : x.k.mx.sigProcs = x.k.pendingProcs.card

/-- **KERNEL SIGNALS.** In every state that a run with the condition reaches, `p_pendcount`
    of a live process is the number of its signals in `p_pending` and in messages that MM
    has not finished; with none of either, the process is inhibited no more; and
    `sig_procs` is the number of processes with `PENDING`. -/
theorem signals_accounted {x₀ : SigSys} (h0 : SigInit x₀) (h : SigReach x₀ x) : x.Accounted := by
  have hk : CountOk x := by
    induction h with
    | start => exact h0.countOk
    | step _ he hs ih => exact ih.step he hs
  refine ⟨fun p hl => (hk.at_ p).count hl, fun p hl hp hu => ?_, hk.procs⟩
  have hcount := (hk.at_ p).count hl
  rw [hp, hu, Finset.card_empty] at hcount
  refine ⟨hcount, ?_⟩
  by_contra hne
  exact ((hk.at_ p).inhibited hl).mp (by simpa using hne) hcount

/-- The kernel of `kernBoot`, and MM with the same three processes in its table. -/
def sigBoot : SigSys :=
  ⟨kernBoot,
    { inUse := fun p => decide (p = mmProc ∨ p = fsProc ∨ p = 14), hanging := fun _ => false,
      alarmOn := fun _ => false, work := none, asked := false }⟩

theorem sigBoot_init : SigInit sigBoot := by
  refine ⟨fun p => ?_, ⟨rfl, rfl, rfl⟩, by decide +kernel, fun p => ?_⟩
  all_goals
    revert p
    decide +kernel

theorem SigReach.next {x₀ : SigSys} {e : SigEvent} (h : SigReach x₀ x) (he : x.Fits e)
    (hs : (x.sigStep e).isSome = true) : SigReach x₀ ((x.sigStep e).getD sigBoot) :=
  h.step he (Run.eq_some_getD sigBoot hs)

/-- `set_alarm` of MM for the process 14, with the messages to the clock task. -/
def setAlarm (on : Bool) : List SigEvent :=
  [.alarm 14 on, .call mmProc .both (-3) true, .call 8 .send 0 true, .call 8 .receive any true]

/-- MM has nothing to do. -/
def mmWaits : SigEvent := .call mmProc .receive any true

/-- The process 14 sets an alarm; when it goes off, MM is told, takes up the signal and
    acknowledges it: 14 is not inhibited any more. -/
theorem signals_accounted_alarm :
    ∃ x, SigReach sigBoot x ∧ x.Accounted ∧ x.k.mx.pendcount 14 = 0 ∧
      (x.k.mx.flags 14).sigPending = false := by
  have hlive : ∀ y : SigSys, (y.k.mx.flags 14).slotFree = false → y.k.liveUser 3 := by
    intro y hy p hp
    have he : p = 14 := by
      rw [procAddr_eq_some] at hp
      have h14 : procNr 14 = procNr p := hp
      exact (procNr_inj.mp h14).symm
    subst he
    exact ⟨rfl, hy⟩
  have h0 : SigReach sigBoot sigBoot := .start
  have h1 := h0.next (e := .alarm 14 true) trivial (by decide +kernel)
  have h2 := h1.next (e := mmWaits) trivial (by decide +kernel)
  have h3 := h2.next (e := .cause 3 sigalrm) ⟨hlive _ (by decide +kernel), by decide⟩
    (by decide +kernel)
  have h4 := h3.next (e := .ksig) trivial (by decide +kernel)
  have h5 := h4.next (e := .next) (fun rp sigs hw _ => by
    cases hw
    decide +kernel) (by decide +kernel)
  have h6 := h5.next (e := .ack) trivial (by decide +kernel)
  exact ⟨_, h6, signals_accounted sigBoot_init h6, by decide +kernel, by decide +kernel⟩

/-- The process 14 sets an alarm and puts it off again; the alarm goes off after MM has got
    the second request and before it has served it. -/
def lateAlarm : List SigEvent :=
  [mmWaits, .call 14 .both 0 true] ++ setAlarm true ++
  [.call mmProc .send 3 true, mmWaits, .call 14 .both 0 true, .cause 3 sigalrm] ++
  setAlarm false ++ [.call mmProc .send 3 true, mmWaits, .ksig, .next, .next, mmWaits]

/-- **THE LOST ACKNOWLEDGEMENT.** After `lateAlarm` MM waits for new work and has finished
    the message, no signal of 14 is pending, and yet 14, which is alive, is inhibited with a
    count of 1: nothing will ever lower it. -/
theorem skipped_alarm_inhibits :
    (sigBoot.sigRun lateAlarm).any (fun x =>
      !(x.k.mx.flags 14).slotFree && x.inTable 14 && decide (x.k.mx.pending 14 = ∅) &&
      decide (x.unfinished 14 = 0) && decide (x.k.mx.pendcount 14 = 1) &&
      (x.k.mx.flags 14).sigPending && (x.k.mx.flags mmProc).receiving &&
      decide (x.k.mx.getfrom mmProc = any)) = true := by
  decide +kernel

end Kernel
