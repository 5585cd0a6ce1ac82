import Minix4rt.RendezvousModelProofs
import Minix4rt.SchedFrameProofs

/-! # The ways through the MINIX rendezvous

    One inversion lemma for each of `mini_send`, `inform`, `mini_rec`, `sys_call` and
    `do_xit`: what the call has done, given that it returned.  The invariants of the
    rendezvous are proved from these lemmas and never unfold the calls. -/

namespace Kernel

open Vtimer KState Function Option

variable {s s' : KState} {c d p : Proc} {dest src n : Int} {ok : Bool} {r : Code}

theorem readyIfZero_only (s : KState) (p : Proc) : RdyOnly s (s.readyIfZero p) := by
  rw [readyIfZero]
  split
  · exact ready_only s p
  · exact .refl s

theorem unreadyIfZero_only (h : s.unreadyIfZero p = some s') : RdyOnly s s' := by
  rw [unreadyIfZero] at h
  split at h
  · exact unready_only h
  · cases h
    exact .refl s

/-! ## The chains of senders -/

/-- Only the chains differ. -/
def LinksOnly (s s' : KState) : Prop :=
  ∃ q l, s' = { s with mx := { s.mx with callerq := q, sendlink := l } }

namespace LinksOnly

theorem flags (h : LinksOnly s s') : s'.mx.flags = s.mx.flags := by
  obtain ⟨q, l, rfl⟩ := h
  rfl

theorem sendto (h : LinksOnly s s') : s'.mx.sendto = s.mx.sendto := by
  obtain ⟨q, l, rfl⟩ := h
  rfl

theorem getfrom (h : LinksOnly s s') : s'.mx.getfrom = s.mx.getfrom := by
  obtain ⟨q, l, rfl⟩ := h
  rfl

theorem trans {s'' : KState} (h : LinksOnly s s') (h' : LinksOnly s' s'') : LinksOnly s s'' := by
  obtain ⟨q, l, rfl⟩ := h
  obtain ⟨q', l', rfl⟩ := h'
  exact ⟨q', l', rfl⟩

end LinksOnly

theorem joinCallers_links (h : s.joinCallers c d = some s') : LinksOnly s s' := by
  rw [joinCallers] at h
  split at h
  · cases h
    exact ⟨_, _, rfl⟩
  · obtain ⟨l, -, rfl⟩ := map_eq_some_iff.mp h
    exact ⟨_, _, rfl⟩

theorem leaveCallers_links {rc : Proc} {rps : List Proc}
    (h : leaveCallers rc rps s = some s') : LinksOnly s s' := by
  induction rps generalizing s with
  | nil =>
    cases h
    exact ⟨_, _, rfl⟩
  | cons rp rps ih =>
    rw [leaveCallers] at h
    split at h
    · exact ih h
    split at h
    · cases h
      exact ⟨_, _, rfl⟩
    split at h
    · cases h
    · exact ih h
    · exact LinksOnly.trans ⟨_, _, rfl⟩ (ih h)

/-! ## Sending -/

/-- How a send to `d` that succeeds has gone: handed over, or queued. -/
inductive Sends (s : KState) (c d : Proc) (dest : Int) (s' : KState) : Prop where
  | direct : s.awaits d c = true →
      s' = (s.setPFlags d (fun f => { f with receiving := false })).readyIfZero d →
      Sends s c d dest s'
  | queued {s1} : s.awaits d c = false → s.deadlock c d = some false →
      s.unreadyIfZero c = some s1 → (s1.markSending c dest).joinCallers c d = some s' →
      Sends s c d dest s'

/-- `mini_send` fails and does nothing, or it sends. -/
theorem miniSend_cases (h : s.miniSend c dest ok = some (s', r)) :
    r ≠ .ok ∧ s' = s ∨
      r = .ok ∧ ∃ d, procAddr dest = some d ∧ (s.mx.flags d).slotFree = false ∧
        Sends s c d dest s' := by
  rw [miniSend] at h
  split at h
  · cases h
    exact .inl ⟨by simp, rfl⟩
  split at h
  · cases h
  rename_i d hd
  split at h
  · cases h
    exact .inl ⟨by simp, rfl⟩
  rename_i hfree
  split at h
  · cases h
    exact .inl ⟨by simp, rfl⟩
  split at h
  · cases h
  · cases h
    exact .inl ⟨by simp, rfl⟩
  rename_i hdl
  split at h
  · rename_i haw
    cases h
    exact .inr ⟨rfl, d, hd, by simpa using hfree, .direct haw rfl⟩
  · rename_i haw
    simp only [bind_eq_bind, bind_eq_some_iff, some.injEq, Prod.mk.injEq] at h
    obtain ⟨s1, h1, s2, h2, rfl, rfl⟩ := h
    exact .inr ⟨rfl, d, hd, by simpa using hfree, .queued (by simpa using haw) hdl h1 h2⟩

/-- The kernel tells MM about the signals of `rp`. -/
theorem inform_cases (h : s.inform = some s') :
    s.firstPending = none ∧ s' = s ∨
      ∃ rp s1, s.firstPending = some rp ∧
        (KState.miniSend { s with mx := { s.mx with sigProcs := s.mx.sigProcs - 1 } }
          hardwareProc (procNr mmProc) true = some (s1, .ok)) ∧
        (s1.informed rp).pickProc = some s' := by
  rw [inform] at h
  split at h
  · rename_i hn
    cases h
    exact .inl ⟨hn, rfl⟩
  · rename_i rp hrp
    simp only at h
    split at h
    · rename_i s1 h1
      exact .inr ⟨rp, s1, hrp, h1, h⟩
    · cases h

/-! ## Receiving -/

/-- A sender is unhooked, and woken if nothing else holds it. -/
theorem acceptFrom_cases {prev : Option Proc} (h : s.acceptFrom c prev p = some s') :
    ∃ s1, (if s.mx.callerq c = some p then some (s.setCallerq c (s.mx.sendlink p))
        else prev.map (fun q => s.setSendlink q (s.mx.sendlink p))) = some s1 ∧
      LinksOnly s s1 ∧
      s' = (s1.setPFlags p (fun f => { f with sending := false })).readyIfZero p := by
  rw [acceptFrom] at h
  obtain ⟨s1, h1, rfl⟩ := map_eq_some_iff.mp h
  refine ⟨s1, h1, ?_, rfl⟩
  split at h1
  · cases h1
    exact ⟨_, _, rfl⟩
  · obtain ⟨x, -, rfl⟩ := map_eq_some_iff.mp h1
    exact ⟨_, _, rfl⟩

/-- `c` blocks; if it is MM and signals are pending, the kernel informs it. -/
theorem blockReceiver_cases (h : s.blockReceiver c src = some s') :
    ∃ s1, KState.unreadyIfZero { s with mx := { s.mx with
        getfrom := update s.mx.getfrom c src } } c = some s1 ∧
      ((¬ (0 < s.mx.sigProcs ∧ c = mmProc ∧ src = any) ∧
          s' = s1.setPFlags c (fun f => { f with receiving := true })) ∨
        (0 < s.mx.sigProcs ∧ c = mmProc ∧ src = any ∧
          (s1.setPFlags c (fun f => { f with receiving := true })).inform = some s')) := by
  unfold blockReceiver at h
  simp only [bind_eq_bind, bind_eq_some_iff] at h
  obtain ⟨s1, h1, h⟩ := h
  have hsig : s1.mx.sigProcs = s.mx.sigProcs := by rw [(unreadyIfZero_only h1).mx]
  refine ⟨s1, h1, ?_⟩
  have hset : (s1.setPFlags c (fun f => { f with receiving := true })).mx.sigProcs =
      s.mx.sigProcs := hsig
  rw [hset] at h
  split at h
  · rename_i hc
    exact .inr ⟨hc.1, hc.2.1, hc.2.2, h⟩
  · rename_i hc
    cases h
    exact .inl ⟨hc, rfl⟩

/-- `mini_rec` takes a queued message, an interrupt, or blocks. -/
theorem miniRec_cases (h : s.miniRec c src = some (s', r)) :
    r = .ok ∧
      (((s.mx.flags c).sending = false ∧ ∃ prev p,
          s.findSender src 44 none (s.mx.callerq c) = some (some (prev, p)) ∧
          s.acceptFrom c prev p = some s') ∨
        ((s.mx.flags c).sending = false ∧
          s.findSender src 44 none (s.mx.callerq c) = some none ∧
          s.mx.intBlocked c = true ∧ isRxHardware src = true ∧
          s' = { s with mx := { s.mx with
            intBlocked := update s.mx.intBlocked c false } }) ∨
        (((s.mx.flags c).sending = true ∨
            s.findSender src 44 none (s.mx.callerq c) = some none ∧
            ¬ (s.mx.intBlocked c = true ∧ isRxHardware src = true)) ∧
          s.blockReceiver c src = some s')) := by
  rw [miniRec] at h
  split at h
  · rename_i hs
    obtain ⟨s1, h1, he⟩ := map_eq_some_iff.mp h
    cases he
    exact ⟨rfl, .inr (.inr ⟨.inl hs, h1⟩)⟩
  rename_i hs
  have hs : (s.mx.flags c).sending = false := by simpa using hs
  split at h
  · cases h
  · rename_i prev p hf
    obtain ⟨s1, h1, he⟩ := map_eq_some_iff.mp h
    cases he
    exact ⟨rfl, .inl ⟨hs, prev, p, hf, h1⟩⟩
  · rename_i hf
    split at h
    · rename_i hi
      cases h
      exact ⟨rfl, .inr (.inl ⟨hs, hf, hi.1, hi.2, rfl⟩)⟩
    · rename_i hi
      obtain ⟨s1, h1, he⟩ := map_eq_some_iff.mp h
      cases he
      exact ⟨rfl, .inr (.inr ⟨.inr ⟨hf, hi⟩, h1⟩)⟩

/-- `sys_call` is refused, or it is a send, a receive, or one after the other. -/
theorem sysCall_cases {fn : Fn} (h : s.sysCall c fn n ok = some (s', r)) :
    ((isOkSrcDest n = false ∨ isUser c = true ∧ fn ≠ .both) ∧ s' = s) ∨
      (isOkSrcDest n = true ∧ ¬ (isUser c = true ∧ fn ≠ .both) ∧
        ((fn = .receive ∧ s.miniRec c n = some (s', r)) ∨
          (fn = .send ∧ s.miniSend c n ok = some (s', r)) ∨
          (fn = .both ∧ ∃ s1, s.miniSend c n ok = some (s1, .ok) ∧
            s1.miniRec c n = some (s', r)) ∨
          (fn = .both ∧ r ≠ .ok ∧ s.miniSend c n ok = some (s', r)))) := by
  unfold sysCall at h
  split at h
  · rename_i hn
    cases h
    exact .inl ⟨.inl (by simpa using hn), rfl⟩
  rename_i hn
  split at h
  · rename_i hu
    cases h
    exact .inl ⟨.inr hu, rfl⟩
  rename_i hu
  refine .inr ⟨by simpa using hn, hu, ?_⟩
  cases fn with
  | receive => exact .inl ⟨rfl, h⟩
  | send => exact .inr (.inl ⟨rfl, h⟩)
  | both =>
    simp only at h
    split at h
    · cases h
    · rename_i s1 h1
      exact .inr (.inr (.inl ⟨rfl, s1, h1, h⟩))
    · rename_i s1 r1 hr1 h1
      cases h
      refine .inr (.inr (.inr ⟨rfl, ?_, h1⟩))
      rintro rfl
      exact hr1 rfl

/-! ## Exit -/

/-- `do_xit` is refused, or `rc` leaves its ready queue, the chains and the table. -/
theorem doXit_cases {parent nr : Int} (h : s.doXit parent nr = some (s', r)) :
    r ≠ .ok ∧ s' = s ∨
      r = .ok ∧ ∃ rc s1 s2, procAddr nr = some rc ∧ 0 ≤ nr ∧ s.unreadyIfZero rc = some s1 ∧
        (if (s.mx.flags rc).sending then leaveCallers rc (List.finRange 43) s1 else some s1) =
          some s2 ∧
        LinksOnly s1 s2 ∧ s' = s2.freeSlot rc := by
  rw [doXit] at h
  split at h
  · cases h
    exact .inl ⟨by simp, rfl⟩
  rename_i hnr
  split at h
  · cases h
  · rename_i rc hrc
    simp only [bind_eq_bind, bind_eq_some_iff, some.injEq, Prod.mk.injEq] at h
    obtain ⟨s1, h1, s2, h2, rfl, rfl⟩ := h
    rw [(unreadyIfZero_only h1).flags] at h2
    have hpos : 0 ≤ nr := by
      by_contra hneg
      exact hnr (.inr (fun hc => hneg hc.1))
    refine .inr ⟨rfl, rc, s1, s2, hrc, hpos, h1, h2, ?_, rfl⟩
    split at h2
    · exact leaveCallers_links h2
    · cases h2
      exact ⟨_, _, rfl⟩

/-- The slot that is given up has no flag but `P_SLOT_FREE`. -/
theorem freeSlot_flags (s : KState) (rc p : Proc) : (s.freeSlot rc).mx.flags p =
    if p = rc then { PFlags.clear with slotFree := true } else s.mx.flags p := by
  by_cases hp : p = rc
  · subst hp
    simp [freeSlot]
  · simp [freeSlot, hp]

end Kernel
