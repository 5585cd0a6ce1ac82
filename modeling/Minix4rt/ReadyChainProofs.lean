import Minix4rt.RendezvousStepsProofs
import Minix4rt.LinkChainProofs

/-! # The MINIX ready queues — chains with a tail pointer

    `rdy_head`, `rdy_tail` and `p_nextready` hold three chains.  `ready` appends to two of
    them and pushes to the third, `unready` unlinks wherever the process is, `sched` turns
    the queue of the users round.

    `ready` does not look whether the process is linked already: that its flags were not
    zero before is what every caller has to know. -/

namespace Kernel

open Vtimer KState LinkChain Function Option

variable {s s' s1 s2 : KState} {R : RdyQ → List Proc} {p q : Proc} {k : RdyQ}

/-! ## The chains -/

/-- The queue `k` is the chain of the list `R k`, all of one class. -/
structure QueuesOk (R : RdyQ → List Proc) (s : KState) : Prop where
  chain : ∀ k, Chain s.mx.nextready (s.mx.rdyHead k) (R k)
  tail : ∀ k, R k ≠ [] → s.mx.rdyTail k = (R k).getLast?
  cls : ∀ p k, p ∈ R k → rdyQ p = k

/-- The queues are the same. -/
structure SameQueues (s s' : KState) : Prop where
  head : s'.mx.rdyHead = s.mx.rdyHead
  tail : s'.mx.rdyTail = s.mx.rdyTail
  next : s'.mx.nextready = s.mx.nextready

theorem SameQueues.of_mx (h : s'.mx = s.mx) : SameQueues s s' := by
  refine ⟨?_, ?_, ?_⟩ <;> rw [h]

theorem SameQueues.trans (h : SameQueues s s1) (h' : SameQueues s1 s') : SameQueues s s' :=
  ⟨h'.head.trans h.head, h'.tail.trans h.tail, h'.next.trans h.next⟩

theorem QueuesOk.same (h : QueuesOk R s) (hs : SameQueues s s') : QueuesOk R s' := by
  refine ⟨fun k => ?_, fun k hk => ?_, h.cls⟩
  · rw [hs.next, hs.head]
    exact h.chain k
  · rw [hs.tail]
    exact h.tail k hk

/-- A process of the class `k` is in no other queue. -/
theorem QueuesOk.notMem (h : QueuesOk R s) (hk : rdyQ p ≠ k) : p ∉ R k :=
  fun hm => hk (h.cls p k hm)

/-- Append a process behind the tail. -/
theorem QueuesOk.append (h : QueuesOk R s) (hk : rdyQ p = k) (hp : p ∉ R k) :
    QueuesOk (update R k (R k ++ [p])) (s.appendReady k p) := by
  have hnot : ∀ k', k' ≠ k → p ∉ R k' := fun k' hne => h.notMem (fun e => hne (e.symm.trans hk))
  refine ⟨fun k' => ?_, fun k' hne => ?_, fun x k' hx => ?_⟩
  · by_cases hk' : k' = k
    · subst hk'
      have hch := h.chain k'
      rw [update_self]
      rcases List.eq_nil_or_concat (R k') with hnil | ⟨ys, l, hl⟩
      · -- an empty queue: the process is its head
        have hhead : s.mx.rdyHead k' = none := by
          rw [hnil] at hch
          exact hch
        simp only [appendReady, hhead, hnil, if_true, update_self, List.nil_append]
        refine ⟨rfl, ?_⟩
        rw [update_self]
        rfl
      · rw [List.concat_eq_append] at hl
        have htail : s.mx.rdyTail k' = some l := by
          rw [h.tail k' (by simp [hl]), hl, List.getLast?_concat]
        obtain ⟨a, ha⟩ : ∃ a, s.mx.rdyHead k' = some a := by
          rw [hch.head_eq, hl]
          cases ys <;> exact ⟨_, rfl⟩
        rw [hl] at hch hp ⊢
        simp only [appendReady, ha, htail, reduceCtorEq, if_false]
        rw [List.append_assoc, ← ha]
        exact hch.append hp
    · rw [update_of_ne hk']
      have hch := (h.chain k').update_of_notMem (hnot k' hk') none
      have hhead : (s.appendReady k p).mx.rdyHead k' = s.mx.rdyHead k' := by
        simp only [appendReady]
        split
        · rw [update_of_ne hk']
        · rfl
      rw [hhead]
      simp only [appendReady]
      split
      · -- the tail of the queue `k` is not in this one
        rename_i a t ha ht
        have htk : t ∈ R k := by
          have hne : R k ≠ [] := by
            intro hnil
            have hck := h.chain k
            rw [hnil, ha] at hck
            cases hck
          have hlast := h.tail k hne
          rw [ht] at hlast
          exact List.mem_of_getLast? hlast.symm
        have htk' : t ∉ R k' := fun hm => hk' ((h.cls t k' hm).symm.trans (h.cls t k htk))
        exact ((h.chain k').update_of_notMem htk' _).update_of_notMem (hnot k' hk') none
      · exact hch
  · by_cases hk' : k' = k
    · subst hk'
      simp [appendReady]
    · rw [update_of_ne hk'] at hne ⊢
      simp only [appendReady, update_of_ne hk']
      exact h.tail k' hne
  · by_cases hk' : k' = k
    · subst hk'
      rw [update_self, List.mem_append, List.mem_singleton] at hx
      rcases hx with hx | rfl
      · exact h.cls x k' hx
      · exact hk
    · rw [update_of_ne hk'] at hx
      exact h.cls x k' hx

/-- Push a user process in front of the head. -/
theorem QueuesOk.push (h : QueuesOk R s) (hk : rdyQ p = .user) (hp : p ∉ R .user) :
    QueuesOk (update R .user (p :: R .user)) (s.ready p) := by
  simp only [ready, hk]
  refine ⟨fun k' => ?_, fun k' hne => ?_, fun x k' hx => ?_⟩
  · by_cases hk' : k' = .user
    · subst hk'
      simp only [update_self]
      exact (h.chain .user).push hp
    · simp only [update_of_ne hk']
      exact (h.chain k').update_of_notMem (h.notMem (fun e => hk' (e.symm.trans hk))) _
  · by_cases hk' : k' = .user
    · subst hk'
      have hch := h.chain .user
      rw [update_self]
      cases hR : R .user with
      | nil =>
        rw [hR] at hch
        have hhead : s.mx.rdyHead .user = none := hch
        simp [hhead]
      | cons x xs =>
        rw [hR] at hch
        have hhead : s.mx.rdyHead .user = some x := hch.1
        have htail := h.tail .user (by simp [hR])
        rw [hR] at htail
        simp [hhead, htail]
    · simp only [update_of_ne hk'] at hne ⊢
      have htail := h.tail k' hne
      split
      · rw [update_of_ne hk']
        exact htail
      · exact htail
  · by_cases hk' : k' = .user
    · subst hk'
      rw [update_self, List.mem_cons] at hx
      rcases hx with rfl | hx
      · exact hk
      · exact h.cls x _ hx
    · rw [update_of_ne hk'] at hx
      exact h.cls x k' hx

/-- **`ready`** links a process that is not linked. -/
theorem QueuesOk.ready (h : QueuesOk R s) (hp : p ∉ R (rdyQ p)) :
    ∃ R', QueuesOk R' (s.ready p) ∧ ∀ x k, x ∈ R' k ↔ x ∈ R k ∨ x = p ∧ k = rdyQ p := by
  have hmem : ∀ {l : List Proc}, (∀ x, x ∈ l ↔ x ∈ R (rdyQ p) ∨ x = p) → ∀ x k,
      x ∈ update R (rdyQ p) l k ↔ x ∈ R k ∨ x = p ∧ k = rdyQ p := by
    intro l hl x k
    by_cases hk : k = rdyQ p
    · subst hk
      simp [hl]
    · simp [hk]
  cases hc : rdyQ p with
  | task =>
    rw [hc] at hp hmem
    refine ⟨_, ?_, hmem (l := R .task ++ [p]) (by simp)⟩
    simp only [KState.ready, hc]
    exact (h.append hc hp).same ⟨rfl, rfl, rfl⟩
  | server =>
    rw [hc] at hp hmem
    refine ⟨_, ?_, hmem (l := R .server ++ [p]) (by simp)⟩
    simp only [KState.ready, hc]
    exact h.append hc hp
  | user =>
    rw [hc] at hp hmem
    refine ⟨_, h.push hc hp, hmem (l := p :: R .user) (fun x => ?_)⟩
    rw [List.mem_cons, or_comm]

theorem beforeReady_eq (s : KState) (p : Proc) (n : Nat) (x : Proc) :
    s.beforeReady p n x = before s.mx.nextready p n x := by
  induction n generalizing x with
  | zero => rfl
  | succ n ih =>
    rw [beforeReady, before]
    cases s.mx.nextready x with
    | none => rfl
    | some y =>
      simp only
      split
      · rfl
      · exact ih y

/-- Take `p` out of the list of its class. -/
theorem QueuesOk.erase_cls {l : List Proc} (h : QueuesOk R s) (hl : ∀ x ∈ l, x ∈ R k) (x : Proc)
    (k' : RdyQ) (hx : x ∈ update R k l k') : rdyQ x = k' := by
  by_cases hk : k' = k
  · subst hk
    rw [update_self] at hx
    exact h.cls x _ (hl x hx)
  · rw [update_of_ne hk] at hx
    exact h.cls x k' hx

/-- Unlink the head. -/
theorem QueuesOk.unreadyHead {xs : List Proc} (h : QueuesOk R s) (hR : R k = p :: xs)
    (hu : s.unreadyHead k p = some s') : QueuesOk (update R k xs) s' := by
  have hch := h.chain k
  rw [hR] at hch
  have h0 : QueuesOk (update R k xs) { s with mx := { s.mx with
      rdyHead := update s.mx.rdyHead k (s.mx.nextready p) } } := by
    refine ⟨fun k' => ?_, fun k' hne => ?_, h.erase_cls (fun x hx => by simp [hR, hx])⟩
    · by_cases hk : k' = k
      · subst hk
        simp only [update_self]
        exact hch.2
      · simp only [update_of_ne hk]
        exact h.chain k'
    · by_cases hk : k' = k
      · subst hk
        rw [update_self] at hne ⊢
        have htail := h.tail k' (by simp [hR])
        obtain ⟨y, ys, rfl⟩ := List.exists_cons_of_ne_nil hne
        rwa [hR, List.getLast?_cons_cons] at htail
      · rw [update_of_ne hk] at hne ⊢
        exact h.tail k' hne
  simp only [KState.unreadyHead] at hu
  split at hu
  · exact h0.same (.of_mx (pickProc_only hu).2)
  · cases hu
    exact h0

theorem getLast?_cons_concat (x : Proc) (ys : List Proc) (l : Proc) :
    (x :: (ys ++ [l])).getLast? = some l := by
  rw [← List.cons_append, List.getLast?_concat]

/-- Unlink a process inside a queue. -/
theorem QueuesOk.unreadyBehind {as bs : List Proc} {y : Proc} (h : QueuesOk R s)
    (hR : R k = as ++ y :: p :: bs) :
    QueuesOk (update R k (as ++ y :: bs)) (s.unreadyBehind k y p) := by
  have hch := h.chain k
  rw [hR] at hch
  have hyk : y ∈ R k := by simp [hR]
  refine ⟨fun k' => ?_, fun k' hne => ?_, h.erase_cls (fun x hx => ?_)⟩
  · by_cases hk : k' = k
    · subst hk
      rw [update_self]
      exact Chain.unlink hch
    · rw [update_of_ne hk]
      exact (h.chain k').update_of_notMem
        (fun hm => hk ((h.cls y k' hm).symm.trans (h.cls y k hyk))) _
  · by_cases hk : k' = k
    · subst hk
      have htail := h.tail k' (by simp [hR])
      rw [hR] at htail
      rw [update_self]
      simp only [KState.unreadyBehind]
      rcases List.eq_nil_or_concat bs with rfl | ⟨cs, l, rfl⟩
      · -- the process was the last one
        have hp : s.mx.rdyTail k' = some p := by rw [htail]; simp
        rw [if_pos hp, update_self]
        simp
      · rw [List.concat_eq_append] at htail hch ⊢
        have hl : s.mx.rdyTail k' = some l := by
          rw [htail]
          simp [getLast?_cons_concat]
        have hlp : l ≠ p := by
          rintro rfl
          have hnd := hch.nodup
          simp [List.nodup_append] at hnd
        rw [if_neg (by rw [hl]; simp [hlp]), hl]
        simp [getLast?_cons_concat]
    · rw [update_of_ne hk] at hne ⊢
      have htail := h.tail k' hne
      simp only [KState.unreadyBehind]
      split
      · rw [update_of_ne hk]
        exact htail
      · exact htail
  · rw [hR]
    simp only [List.mem_append, List.mem_cons] at hx ⊢
    tauto

/-- **`unready`** takes a process out of its queue if it is there. -/
theorem QueuesOk.unready (h : QueuesOk R s) (hu : s.unready p = some s') :
    ∃ R', QueuesOk R' s' ∧ ∀ x k, x ∈ R' k ↔ x ∈ R k ∧ x ≠ p := by
  have hch := h.chain (rdyQ p)
  have hnot : ∀ k, k ≠ rdyQ p → p ∉ R k := fun k hk => h.notMem (fun e => hk e.symm)
  -- what the new list of the class holds decides all queues
  have hmem : ∀ {l : List Proc}, (∀ x, x ∈ l ↔ x ∈ R (rdyQ p) ∧ x ≠ p) → ∀ x k,
      x ∈ update R (rdyQ p) l k ↔ x ∈ R k ∧ x ≠ p := by
    intro l hl x k
    by_cases hk : k = rdyQ p
    · subst hk
      rw [update_self, hl]
    · rw [update_of_ne hk]
      refine ⟨fun hx => ⟨hx, ?_⟩, fun hx => hx.1⟩
      rintro rfl
      exact hnot k hk hx
  have hgone : p ∉ R (rdyQ p) → s' = s → ∃ R', QueuesOk R' s' ∧
      ∀ x k, x ∈ R' k ↔ x ∈ R k ∧ x ≠ p := by
    rintro hp rfl
    refine ⟨R, h, fun x k => ⟨fun hx => ⟨hx, ?_⟩, fun hx => hx.1⟩⟩
    rintro rfl
    by_cases hk : k = rdyQ x
    · exact hp (hk ▸ hx)
    · exact hnot k hk hx
  rw [KState.unready] at hu
  split at hu
  · rename_i hhead
    cases hu
    rw [hhead] at hch
    refine hgone ?_ rfl
    simp [hch.unique (chain_nil.mpr rfl)]
  · rename_i x hhead
    rw [hhead] at hch
    split at hu
    · rename_i hx
      subst hx
      obtain ⟨xs, hxs⟩ := List.head?_eq_some_iff.mp hch.head_eq.symm
      refine ⟨_, h.unreadyHead hxs hu, hmem (fun y => ?_)⟩
      rw [hxs] at hch ⊢
      have hnd := List.nodup_cons.mp hch.nodup
      constructor
      · intro hy
        exact ⟨List.mem_cons_of_mem _ hy, fun e => hnd.1 (e ▸ hy)⟩
      · rintro ⟨hy, hne⟩
        exact (List.mem_cons.mp hy).resolve_left hne
    · rename_i hne
      obtain ⟨o, ho, hs'⟩ := map_eq_some_iff.mp hu
      rw [beforeReady_eq] at ho
      rcases hch.before_eq (n := 44) hne (hch.length_le.trans (by decide)) with
        ⟨hn, hb⟩ | ⟨as, y, bs, hl, hb⟩
      · rw [hb] at ho
        cases ho
        exact hgone hn hs'.symm
      · rw [hb] at ho
        cases ho
        subst hs'
        refine ⟨_, h.unreadyBehind hl, hmem (fun z => ?_)⟩
        have hnd := hch.nodup
        rw [hl] at hnd ⊢
        have hl' : as ++ y :: p :: bs = (as ++ [y]) ++ p :: bs := by simp
        have he : as ++ y :: bs = (as ++ y :: p :: bs).erase p := by
          rw [hl'] at hnd ⊢
          rw [erase_middle hnd, List.append_assoc, List.singleton_append]
        rw [he, hnd.mem_erase_iff, and_comm]

/-- **`sched`** turns the queue of the users round. -/
theorem QueuesOk.sched (h : QueuesOk R s) (hs : s.sched = some s') :
    ∃ R', QueuesOk R' s' ∧ ∀ x k, x ∈ R' k ↔ x ∈ R k := by
  rw [KState.sched] at hs
  split at hs
  · rename_i a t ha ht
    obtain ⟨-, hmx⟩ := pickProc_only hs
    have hch := h.chain .user
    have hhead := hch.head_eq
    rw [ha] at hhead
    obtain ⟨xs, hxs⟩ := List.head?_eq_some_iff.mp hhead.symm
    have htail := h.tail .user (by simp [hxs])
    rw [hxs] at hch htail
    rw [ht] at htail
    have hmem : ∀ x k, x ∈ update R .user (xs ++ [a]) k ↔ x ∈ R k := by
      intro x k
      by_cases hk : k = .user
      · subst hk
        rw [update_self, hxs, List.mem_append, List.mem_singleton, List.mem_cons, or_comm]
      · rw [update_of_ne hk]
    refine ⟨_, QueuesOk.same ⟨fun k => ?_, fun k hne => ?_, fun x k hx => ?_⟩ (.of_mx hmx), hmem⟩
    · by_cases hk : k = .user
      · subst hk
        simp only [update_self]
        rcases List.eq_nil_or_concat xs with rfl | ⟨ys, l, rfl⟩
        · -- one process: it is linked to itself and unlinked again
          obtain rfl : a = t := by simpa using htail.symm
          simp only [update_self, List.nil_append]
          refine ⟨rfl, ?_⟩
          rw [update_self]
          rfl
        · rw [List.concat_eq_append] at htail hch ⊢
          obtain rfl : t = l := by simpa [getLast?_cons_concat] using htail
          have hnd := List.nodup_cons.mp hch.nodup
          have hne : a ≠ t := fun e => hnd.1 (by simp [e])
          rw [update_of_ne hne, List.append_assoc]
          exact Chain.append hch.2 hnd.1
      · simp only [update_of_ne hk]
        have hout : ∀ x ∈ R .user, x ∉ R k := by
          intro x hx hm
          exact hk ((h.cls x k hm).symm.trans (h.cls x _ hx))
        refine ((h.chain k).update_of_notMem (hout t ?_) _).update_of_notMem (hout a ?_) _
        · rw [hxs]
          exact List.mem_of_getLast? htail.symm
        · simp [hxs]
    · by_cases hk : k = .user
      · subst hk
        simp
      · simp only [update_of_ne hk] at hne ⊢
        exact h.tail k hne
    · exact h.cls x k ((hmem x k).mp hx)
  · cases hs
  · cases hs
    exact ⟨R, h, fun _ _ => Iff.rfl⟩

/-! ## Linked and runnable -/

/-- The queues hold the processes with zero flags. -/
structure Readies (R : RdyQ → List Proc) (s : KState) : Prop extends QueuesOk R s where
  zero : ∀ p k, p ∈ R k → s.flagsZero p = true
  linked : ∀ p, p ≠ idle → p ≠ hardwareProc → s.flagsZero p = true → p ∈ R (rdyQ p)

/-- The ready-queue invariant. -/
def ReadyOk (s : KState) : Prop := ∃ R, Readies R s

theorem ReadyOk.keep (h : ReadyOk s) (hq : SameQueues s s')
    (hz : ∀ p, s'.flagsZero p = s.flagsZero p) : ReadyOk s' := by
  obtain ⟨R, h⟩ := h
  refine ⟨R, h.toQueuesOk.same hq, fun p k hp => ?_, fun p hi hw hp => ?_⟩
  · rw [hz]
    exact h.zero p k hp
  · rw [hz] at hp
    exact h.linked p hi hw hp

/-- A process with flags is not linked. -/
theorem Readies.notMem (h : Readies R s) (hp : s.flagsZero p = false) (k : RdyQ) : p ∉ R k := by
  intro hm
  rw [h.zero p k hm] at hp
  cases hp

/-- **TO WAKE A PROCESS**: it had flags, some of them are cleared, and if none is left it
    is made ready. -/
theorem ReadyOk.wake (h : ReadyOk s) (hq : SameQueues s s1) (hp : s.flagsZero p = false)
    (hz : ∀ q, q ≠ p → s1.flagsZero q = s.flagsZero q) : ReadyOk (s1.readyIfZero p) := by
  obtain ⟨R, h⟩ := h
  have hnot := h.notMem hp
  rw [readyIfZero]
  split
  · rename_i hz1
    obtain ⟨R', hR', hmem⟩ := (h.toQueuesOk.same hq).ready (hnot (rdyQ p))
    have hzero := (ready_only s1 p).flagsZero
    refine ⟨R', hR', fun x k hx => ?_, fun x hi hw hx => ?_⟩
    · rw [hzero]
      rcases (hmem x k).mp hx with hx | ⟨rfl, -⟩
      · have hxp : x ≠ p := fun e => hnot k (e ▸ hx)
        rw [hz x hxp]
        exact h.zero x k hx
      · exact hz1
    · rw [hzero] at hx
      by_cases hxp : x = p
      · exact (hmem x _).mpr (.inr ⟨hxp, by rw [hxp]⟩)
      · rw [hz x hxp] at hx
        exact (hmem x _).mpr (.inl (h.linked x hi hw hx))
  · rename_i hz1
    refine ReadyOk.keep ⟨R, h⟩ hq (fun x => ?_)
    by_cases hxp : x = p
    · subst hxp
      rw [hp]
      simpa using hz1
    · exact hz x hxp

/-- A process is taken out of its queue, and then it has a flag. -/
theorem Readies.remove {R' : RdyQ → List Proc} (h : Readies R s) (hR' : QueuesOk R' s')
    (hmem : ∀ x k, x ∈ R' k ↔ x ∈ R k ∧ x ≠ p) (hp : s'.flagsZero p = false)
    (hz : ∀ q, q ≠ p → s'.flagsZero q = s.flagsZero q) : ReadyOk s' := by
  refine ⟨R', hR', fun x k hx => ?_, fun x hi hw hx => ?_⟩
  · obtain ⟨hx, hxp⟩ := (hmem x k).mp hx
    rw [hz x hxp]
    exact h.zero x k hx
  · have hxp : x ≠ p := by
      rintro rfl
      rw [hp] at hx
      cases hx
    rw [hz x hxp] at hx
    exact (hmem x _).mpr ⟨h.linked x hi hw hx, hxp⟩

/-- **TO BLOCK A PROCESS**: it is taken out of its queue if it had no flags, and then it
    gets one. -/
theorem ReadyOk.block (h : ReadyOk s) (hu : s.unreadyIfZero p = some s1)
    (hq : SameQueues s1 s2) (hp : s2.flagsZero p = false)
    (hz : ∀ q, q ≠ p → s2.flagsZero q = s1.flagsZero q) : ReadyOk s2 := by
  obtain ⟨R, h⟩ := h
  have hzero := (unreadyIfZero_only hu).flagsZero
  obtain ⟨R', hR', hmem⟩ : ∃ R', QueuesOk R' s1 ∧ ∀ x k, x ∈ R' k ↔ x ∈ R k ∧ x ≠ p := by
    rw [unreadyIfZero] at hu
    split at hu
    · exact h.toQueuesOk.unready hu
    · rename_i hz1
      cases hu
      refine ⟨R, h.toQueuesOk, fun x k => ⟨fun hx => ⟨hx, ?_⟩, fun hx => hx.1⟩⟩
      rintro rfl
      exact hz1 (h.zero x k hx)
  exact h.remove (hR'.same hq) hmem hp (fun q hqp => (hz q hqp).trans (hzero q))

end Kernel
