import Minix4rt.SchedModelProofs

/-! # What scheduling leaves alone

    `pick_proc` only changes who runs; `ready`, `unready` and `sched` only the MINIX ready
    queues besides.  Every invariant about other parts of the kernel uses these facts. -/

namespace Kernel

open KState Function Option

variable {s s' s'' : KState} {p : Proc} {k : RdyQ}

/-- Only the ready queues, priorities and scheduling data change, and who runs. -/
structure SchedOnly (s s' : KState) : Prop where
  procs : s'.procs = s.procs
  tm : s'.tm = s.tm
  ms : s'.ms = s.ms
  ss : s'.ss = s.ss
  bpip : s'.bpip = s.bpip

theorem SchedOnly.refl (s : KState) : SchedOnly s s := ⟨rfl, rfl, rfl, rfl, rfl⟩

theorem SchedOnly.trans (h : SchedOnly s s') (h' : SchedOnly s' s'') : SchedOnly s s'' :=
  ⟨h'.procs.trans h.procs, h'.tm.trans h.tm, h'.ms.trans h.ms, h'.ss.trans h.ss,
    h'.bpip.trans h.bpip⟩

/-- Only the MINIX ready queues, the counts of schedules and who runs change. -/
structure RdyOnly (s s' : KState) : Prop extends SchedOnly s s' where
  pool : s'.rq.pool = s.rq.pool
  prio : s'.rq.prio = s.rq.prio
  mx : s'.mx = { s.mx with
    rdyHead := s'.mx.rdyHead, rdyTail := s'.mx.rdyTail, nextready := s'.mx.nextready }

theorem RdyOnly.refl (s : KState) : RdyOnly s s := ⟨.refl s, rfl, rfl, rfl⟩

theorem RdyOnly.trans (h : RdyOnly s s') (h' : RdyOnly s' s'') : RdyOnly s s'' := by
  refine ⟨h.toSchedOnly.trans h'.toSchedOnly, h'.pool.trans h.pool, h'.prio.trans h.prio, ?_⟩
  rw [h'.mx, h.mx]

theorem RdyOnly.flags (h : RdyOnly s s') : s'.mx.flags = s.mx.flags := by rw [h.mx]

/-- The flags, all bits together, are zero where they were. -/
theorem RdyOnly.flagsZero (h : RdyOnly s s') (p : Proc) : s'.flagsZero p = s.flagsZero p := by
  rw [KState.flagsZero, KState.flagsZero, h.flags, h.procs]

/-! ## Picking -/

/-- At most one schedule has been counted, for the head of the RT ready queue. -/
def PickCounts (s s' : KState) : Prop :=
  s'.rq.scheds = s.rq.scheds ∨ ∃ x p, s.rq.pool.pget none = some x ∧
    (s.procs x).this = some p ∧ s'.rq.scheds = update s.rq.scheds p (s.rq.scheds p + 1)

/-- `MRT_pick_proc` counts the schedule of the head it takes. -/
theorem mrtPickProc_only {b : Bool} (h : s.mrtPickProc = some (s', b)) :
    RdyOnly s s' ∧ s'.mx = s.mx ∧ PickCounts s s' := by
  simp only [mrtPickProc] at h
  split at h
  · cases h
    exact ⟨⟨⟨rfl, rfl, rfl, rfl, rfl⟩, rfl, rfl, rfl⟩, rfl, .inl rfl⟩
  · rename_i x hx
    split at h
    · cases h
    · rename_i p hp
      cases h
      exact ⟨⟨⟨rfl, rfl, rfl, rfl, rfl⟩, rfl, rfl, rfl⟩, rfl, .inr ⟨x, p, hx, hp, rfl⟩⟩

/-- The MINIX part of `pick_proc` counts nothing. -/
theorem minixPick_only (s : KState) :
    RdyOnly s s.minixPick ∧ s.minixPick.mx = s.mx ∧ s.minixPick.rq = s.rq := by
  simp only [minixPick]
  split <;> exact ⟨⟨⟨rfl, rfl, rfl, rfl, rfl⟩, rfl, rfl, rfl⟩, rfl, rfl⟩

/-- **`pick_proc`** changes who runs, and counts at most one schedule. -/
theorem pickProc_inv (h : s.pickProc = some s') :
    RdyOnly s s' ∧ s'.mx = s.mx ∧ PickCounts s s' := by
  rw [pickProc] at h
  split at h
  · split at h
    · cases h
    · rename_i s1 h1
      cases h
      obtain ⟨h1, h2, h3⟩ := mrtPickProc_only h1
      exact ⟨⟨{ h1 with }, h1.pool, h1.prio, h1.mx⟩, h2, h3⟩
    · rename_i s1 h1
      cases h
      obtain ⟨h1, h2, hc⟩ := mrtPickProc_only h1
      obtain ⟨h3, h4, hrq⟩ := minixPick_only s1
      refine ⟨h1.trans h3, h4.trans h2, ?_⟩
      rw [PickCounts, hrq]
      exact hc
  · cases h
    obtain ⟨h1, h2, hrq⟩ := minixPick_only s
    exact ⟨h1, h2, .inl (by rw [hrq])⟩

/-- `pick_proc` changes who runs, and no queue. -/
theorem pickProc_only (h : s.pickProc = some s') : RdyOnly s s' ∧ s'.mx = s.mx :=
  ⟨(pickProc_inv h).1, (pickProc_inv h).2.1⟩

/-! ## The MINIX queues -/

theorem appendReady_only (s : KState) (k : RdyQ) (p : Proc) : RdyOnly s (s.appendReady k p) :=
  ⟨⟨rfl, rfl, rfl, rfl, rfl⟩, rfl, rfl, rfl⟩

theorem readyTask_only (s : KState) (p : Proc) : RdyOnly s (s.readyTask p) :=
  ⟨⟨rfl, rfl, rfl, rfl, rfl⟩, rfl, rfl, rfl⟩

/-- `ready` appends a task or a server, and puts a user in front. -/
theorem ready_only (s : KState) (p : Proc) : RdyOnly s (s.ready p) := by
  rw [ready]
  split
  · exact readyTask_only s p
  · exact appendReady_only s _ p
  · exact ⟨⟨rfl, rfl, rfl, rfl, rfl⟩, rfl, rfl, rfl⟩

/-- `unready`, with the schedule that it may count. -/
theorem unready_inv (h : s.unready p = some s') : RdyOnly s s' ∧ PickCounts s s' := by
  rw [unready] at h
  split at h
  · cases h
    exact ⟨.refl s, .inl rfl⟩
  split at h
  · simp only [unreadyHead] at h
    have h0 : RdyOnly s { s with mx := { s.mx with
        rdyHead := update s.mx.rdyHead (rdyQ p) (s.mx.nextready p) } } :=
      ⟨⟨rfl, rfl, rfl, rfl, rfl⟩, rfl, rfl, rfl⟩
    split at h
    · exact ⟨h0.trans (pickProc_only h).1, (pickProc_inv h).2.2⟩
    · cases h
      exact ⟨h0, .inl rfl⟩
  · obtain ⟨o, -, rfl⟩ := map_eq_some_iff.mp h
    cases o with
    | none => exact ⟨.refl s, .inl rfl⟩
    | some x => exact ⟨⟨⟨rfl, rfl, rfl, rfl, rfl⟩, rfl, rfl, rfl⟩, .inl rfl⟩

/-- `unready` takes a process out of a MINIX queue and may pick another process. -/
theorem unready_only (h : s.unready p = some s') : RdyOnly s s' := (unready_inv h).1

/-- `sched` moves the head of the users to the end. -/
theorem sched_only (h : s.sched = some s') : RdyOnly s s' := by
  rw [sched] at h
  split at h
  · rename_i a t _ _
    have h0 : RdyOnly s { s with mx := { s.mx with
        rdyTail := update s.mx.rdyTail .user (some a),
        rdyHead := update s.mx.rdyHead .user (update s.mx.nextready t (some a) a),
        nextready := update (update s.mx.nextready t (some a)) a none } } :=
      ⟨⟨rfl, rfl, rfl, rfl, rfl⟩, rfl, rfl, rfl⟩
    exact h0.trans (pickProc_only h).1
  · cases h
  · cases h
    exact .refl s

end Kernel
