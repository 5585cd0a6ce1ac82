import Minix4rt.RendezvousStepsProofs
import Minix4rt.SystemModelProofs

/-! # What the rendezvous does to signals

    Sends and receives leave the signals of all processes alone, but for one place: when
    MM blocks and signals are pending, `inform` hands those of one process to MM. -/

namespace Kernel

open Vtimer KState

variable {s s' s1 : KState} {p c d : Proc} {dest src n : Int}

/-- The flags of a process that signals are about. -/
def PFlags.sigBits (f : PFlags) : Bool × Bool × Bool := (f.slotFree, f.pending, f.sigPending)

/-- The flags that are written. -/
theorem setPFlags_flags (s : KState) (p : Proc) (g : PFlags → PFlags) :
    (s.setPFlags p g).mx.flags p = g (s.mx.flags p) := by
  simp [KState.setPFlags]

/-- The signals of all processes are the same. -/
structure SameSigs (s s' : KState) : Prop where
  bits : ∀ p, (s'.mx.flags p).sigBits = (s.mx.flags p).sigBits
  pending : s'.mx.pending = s.mx.pending
  pendcount : s'.mx.pendcount = s.mx.pendcount
  sigProcs : s'.mx.sigProcs = s.mx.sigProcs
  ksig : s'.mx.ksig = s.mx.ksig

namespace SameSigs

theorem slotFree (h : SameSigs s s') (p : Proc) :
    (s'.mx.flags p).slotFree = (s.mx.flags p).slotFree := congrArg (fun b => b.1) (h.bits p)

/-- In particular, `PENDING` is. -/
theorem pendingBit (h : SameSigs s s') (p : Proc) :
    (s'.mx.flags p).pending = (s.mx.flags p).pending := congrArg (fun b => b.2.1) (h.bits p)

theorem sigPending (h : SameSigs s s') (p : Proc) :
    (s'.mx.flags p).sigPending = (s.mx.flags p).sigPending :=
  congrArg (fun b => b.2.2) (h.bits p)

theorem refl (s : KState) : SameSigs s s := ⟨fun _ => rfl, rfl, rfl, rfl, rfl⟩

theorem trans (h : SameSigs s s1) (h' : SameSigs s1 s') : SameSigs s s' :=
  ⟨fun p => (h'.bits p).trans (h.bits p), h'.pending.trans h.pending,
    h'.pendcount.trans h.pendcount, h'.sigProcs.trans h.sigProcs, h'.ksig.trans h.ksig⟩

/-- The MINIX part is the same. -/
theorem of_mx (h : s'.mx = s.mx) : SameSigs s s' := by
  refine ⟨fun p => ?_, ?_, ?_, ?_, ?_⟩ <;> rw [h]

/-- Only ready queues have changed. -/
theorem of_rdy (h : RdyOnly s s') : SameSigs s s' := by
  refine ⟨fun p => ?_, ?_, ?_, ?_, ?_⟩ <;> rw [h.mx]

/-- Only caller chains have changed. -/
theorem of_links (h : LinksOnly s s') : SameSigs s s' := by
  obtain ⟨q, l, rfl⟩ := h
  exact ⟨fun _ => rfl, rfl, rfl, rfl, rfl⟩

/-- Other flags are written. -/
theorem setPFlags (s : KState) (p : Proc) {g : PFlags → PFlags}
    (hg : ∀ f, (g f).sigBits = f.sigBits) : SameSigs s (s.setPFlags p g) := by
  refine ⟨fun q => ?_, rfl, rfl, rfl, rfl⟩
  by_cases hq : q = p
  · subst hq
    rw [setPFlags_flags]
    exact hg _
  · simp [KState.setPFlags, hq]

/-- A sender is marked. -/
theorem markSending (s : KState) (c : Proc) (dest : Int) : SameSigs s (s.markSending c dest) := by
  have h := SameSigs.setPFlags s c (g := fun f => { f with sending := true }) (fun _ => rfl)
  exact ⟨h.bits, rfl, rfl, rfl, rfl⟩

/-- Sends have nothing to do with signals. -/
theorem send (h : Sends s c d dest s') : SameSigs s s' := by
  cases h with
  | direct _ he =>
    subst he
    exact (SameSigs.setPFlags s d (g := fun f => { f with receiving := false })
      (fun _ => rfl)).trans (of_rdy (readyIfZero_only _ d))
  | queued _ _ h1 h2 =>
    exact ((of_rdy (unreadyIfZero_only h1)).trans (markSending _ c dest)).trans
      (of_links (joinCallers_links h2))

theorem miniSend {ok : Bool} {r : Code} (h : s.miniSend c dest ok = some (s', r)) :
    SameSigs s s' := by
  rcases miniSend_cases h with ⟨-, rfl⟩ | ⟨-, d, -, -, hsend⟩
  · exact refl _
  · exact send hsend

/-- A sender is taken from the chain. -/
theorem acceptFrom {prev : Option Proc} (h : s.acceptFrom c prev p = some s') :
    SameSigs s s' := by
  obtain ⟨s1, -, hlinks, rfl⟩ := acceptFrom_cases h
  exact ((of_links hlinks).trans (.setPFlags s1 p
    (g := fun f => { f with sending := false }) (fun _ => rfl))).trans
    (of_rdy (readyIfZero_only _ p))

end SameSigs

/-! ## Telling MM -/

/-- The process that is found has `PENDING`. -/
theorem firstPending_pending (h : s.firstPending = some p) : (s.mx.flags p).pending = true := by
  have hp := List.find?_some h
  simp only [Bool.and_eq_true] at hp
  exact hp.2

/-- `PENDING` is cleared for the process that MM is told of. -/
theorem informed_flags (s : KState) (rp p : Proc) : (s.informed rp).mx.flags p =
    if p = rp then { s.mx.flags rp with pending := false } else s.mx.flags p := by
  by_cases hp : p = rp
  · subst hp
    simp [informed]
  · simp [informed, hp]

/-- `inform` leaves `SIG_PENDING` alone. -/
theorem inform_sigPending (h : s.inform = some s') (p : Proc) :
    (s'.mx.flags p).sigPending = (s.mx.flags p).sigPending := by
  rcases inform_cases h with ⟨-, rfl⟩ | ⟨rp, s1, -, h1, h2⟩
  · rfl
  rw [(pickProc_only h2).2, informed_flags]
  have hb := (SameSigs.miniSend h1).sigPending p
  split
  · rename_i hp
    rw [← hp]
    exact hb
  · exact hb

end Kernel
