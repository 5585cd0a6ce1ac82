import Mathlib

/-! # Mailboxes — exactly-once delivery and order, read off a log

    Every process has a mailbox: the list of those that wait to hand it a message.  A
    sender enters one mailbox at the end; it leaves when its message is received, or when
    it is killed.  The steps are labelled, and the log of a run is the list of its labels.

    What is proved is about the LOG alone: every receive answers one send, every send is
    answered at most once and by its addressee, and receives from the front of a mailbox
    keep the order of the sends. -/

namespace Mailbox

open Function Option

variable {α : Type*}
variable {i i' j : Nat} {front : Bool}

/-- What happens to a message of the sender `c`. -/
inductive Event (α : Type*) where
  | sent (c d : α)
  | received (c d : α) (front : Bool)
  | killed (c : α)
deriving DecidableEq

/-- The process whose message it is. -/
def Event.sender : Event α → α
  | .sent c _ => c
  | .received c _ _ => c
  | .killed c => c

variable {Q Q' Q'' : α → List α} {L L' : List (Event α)} {e : Event α} {c d q : α}

/-! ## Pending sends -/

/-- The event at `i` is a send of `c` to `q`, and the last event of `c`. -/
def PendingAt (L : List (Event α)) (i : Nat) (c q : α) : Prop :=
  L[i]? = some (.sent c q) ∧ ∀ k e, i < k → L[k]? = some e → e.sender ≠ c

theorem PendingAt.lt (h : PendingAt L i c q) : i < L.length :=
  (List.getElem?_eq_some_iff.mp h.1).1

/-- A sender has one pending send. -/
theorem PendingAt.unique {q' : α} (h : PendingAt L i c q) (h' : PendingAt L i' c q') :
    i = i' ∧ q = q' := by
  rcases Nat.lt_trichotomy i i' with hlt | rfl | hlt
  · exact absurd rfl (h.2 i' _ hlt h'.1)
  · have he := h.1.symm.trans h'.1
    simp only [some.injEq, Event.sent.injEq, true_and] at he
    exact ⟨rfl, he⟩
  · exact absurd rfl (h'.2 i _ hlt h.1)

/-- The last event is no send: it ends the pending send of its sender, and no other. -/
theorem pendingAt_append_iff :
    PendingAt (L ++ [e]) i c q ↔
      (PendingAt L i c q ∧ e.sender ≠ c) ∨ (i = L.length ∧ e = .sent c q) := by
  constructor
  · rintro ⟨hi, hlast⟩
    rcases Nat.lt_trichotomy i L.length with hlt | rfl | hlt
    · rw [List.getElem?_append_left hlt] at hi
      refine .inl ⟨⟨hi, fun k x hk hx => hlast k x hk ?_⟩, hlast L.length e hlt (by simp)⟩
      rw [List.getElem?_append_left (List.getElem?_eq_some_iff.mp hx).1]
      exact hx
    · exact .inr ⟨rfl, by simpa using hi⟩
    · rw [List.getElem?_eq_none (by simp; omega)] at hi
      cases hi
  · rintro (⟨⟨hi, hlast⟩, he⟩ | ⟨rfl, rfl⟩)
    · have hlt := (List.getElem?_eq_some_iff.mp hi).1
      refine ⟨by rwa [List.getElem?_append_left hlt], fun k x hk hx => ?_⟩
      rcases Nat.lt_or_ge k L.length with hk' | hk'
      · exact hlast k x hk (by rwa [List.getElem?_append_left hk'] at hx)
      · rw [List.getElem?_append_right hk'] at hx
        obtain rfl : e = x := by
          cases hkk : k - L.length with
          | zero => simpa [hkk] using hx
          | succ n => simp [hkk] at hx
        exact he
    · refine ⟨by simp, fun k x hk hx => ?_⟩
      rw [List.getElem?_eq_none (by simp; omega)] at hx
      cases hx

/-! ## Delivery -/

/-- The receive at `j` answers the send at `i`: the same sender and addressee, and no
    event of that sender in between. -/
def Answers (L : List (Event α)) (i j : Nat) (c q : α) (front : Bool) : Prop :=
  i < j ∧ L[i]? = some (.sent c q) ∧ L[j]? = some (.received c q front) ∧
    ∀ k e, i < k → k < j → L[k]? = some e → e.sender ≠ c

/-- The sender of the send at `i` is killed before its message is received. -/
def KilledAfter (L : List (Event α)) (i : Nat) (c : α) : Prop :=
  ∃ j, i < j ∧ L[j]? = some (.killed c) ∧
    ∀ k e, i < k → k < j → L[k]? = some e → e.sender ≠ c

theorem split_at (h : L[j]? = some e) : L = L.take j ++ e :: L.drop (j + 1) := by
  obtain ⟨hj, he⟩ := List.getElem?_eq_some_iff.mp h
  rw [← he, List.getElem_cons_drop, List.take_append_drop]

/-- A send with no event of its sender before `j` is pending at `j`. -/
theorem pendingAt_take (hij : i < j) (hi : L[i]? = some (.sent c q))
    (hno : ∀ k e, i < k → k < j → L[k]? = some e → e.sender ≠ c) :
    PendingAt (L.take j) i c q := by
  refine ⟨by rwa [List.getElem?_take_of_lt hij], fun k e hk he => ?_⟩
  have hkj : k < j := by
    have := (List.getElem?_eq_some_iff.mp he).1
    rw [List.length_take] at this
    omega
  rw [List.getElem?_take_of_lt hkj] at he
  exact hno k e hk hkj he

theorem Answers.unique_send {front' : Bool} (h : Answers L i j c q front)
    (h' : Answers L i' j c q front') : i = i' := by
  rcases Nat.lt_trichotomy i i' with hlt | rfl | hlt
  · exact absurd rfl (h.2.2.2 i' _ hlt h'.1 h'.2.1)
  · rfl
  · exact absurd rfl (h'.2.2.2 i _ hlt h.1 h.2.1)

theorem Answers.unique_receive {j' : Nat} {front' : Bool} (h : Answers L i j c q front)
    (h' : Answers L i j' c q front') : j = j' := by
  rcases Nat.lt_trichotomy j j' with hlt | rfl | hlt
  · exact absurd rfl (h'.2.2.2 j _ h.1 hlt h.2.2.1)
  · rfl
  · exact absurd rfl (h.2.2.2 j' _ h'.1 hlt h'.2.2.1)

/-! ## Mailboxes -/

/-- The mailboxes hold the pending sends, in the order of the log. -/
structure Holds (L : List (Event α)) (Q : α → List α) : Prop where
  mem : ∀ c q, c ∈ Q q ↔ ∃ i, PendingAt L i c q
  sorted : ∀ q, (Q q).Pairwise (fun a b => ∀ i j, PendingAt L i a q → PendingAt L j b q → i < j)

theorem Holds.unique (h : Holds L Q) {q' : α} (hq : c ∈ Q q) (hq' : c ∈ Q q') : q = q' := by
  obtain ⟨i, hi⟩ := (h.mem c q).mp hq
  obtain ⟨j, hj⟩ := (h.mem c q').mp hq'
  exact (hi.unique hj).2

theorem Holds.nodup (h : Holds L Q) (q : α) : (Q q).Nodup := by
  refine List.nodup_iff_pairwise_ne.mpr ((h.sorted q).imp_of_mem ?_)
  rintro a b ha - hab rfl
  obtain ⟨i, hi⟩ := (h.mem a q).mp ha
  exact absurd (hab i i hi hi) (Nat.lt_irrefl i)

theorem holds_nil (h : ∀ q, Q q = []) : Holds ([] : List (Event α)) Q := by
  refine ⟨fun c q => ?_, fun q => ?_⟩
  · simp [h q, PendingAt]
  · rw [h q]
    exact List.Pairwise.nil

section Steps

variable [DecidableEq α]

/-- One step of the mailboxes `Q`. -/
inductive Step (Q : α → List α) : Event α → (α → List α) → Prop where
  | sent {c d : α} : (∀ q, c ∉ Q q) → Step Q (.sent c d) (update Q d (Q d ++ [c]))
  | received {c d : α} {front : Bool} : c ∈ Q d → (front = true → (Q d).head? = some c) →
      Step Q (.received c d front) (update Q d ((Q d).erase c))
  | killed {c d : α} : c ∈ Q d → Step Q (.killed c) (update Q d ((Q d).erase c))

/-- A run with its log. -/
inductive Steps (Q : α → List α) : List (Event α) → (α → List α) → Prop where
  | refl : Steps Q [] Q
  | step {L : List (Event α)} {Q' : α → List α} {e : Event α} {Q'' : α → List α} :
      Steps Q L Q' → Step Q' e Q'' → Steps Q (L ++ [e]) Q''

theorem Step.steps (h : Step Q e Q') : Steps Q [e] Q' := .step .refl h

theorem Steps.trans (h : Steps Q L Q') (h' : Steps Q' L' Q'') : Steps Q (L ++ L') Q'' := by
  induction h' with
  | refl => rwa [List.append_nil]
  | step _ hs ih =>
    rw [← List.append_assoc]
    exact ih.step hs

/-- The run up to an event of its log, and the step of that event. -/
theorem Steps.split (h : Steps Q (L ++ e :: L') Q'') :
    ∃ Q₁ Q₂, Steps Q L Q₁ ∧ Step Q₁ e Q₂ := by
  generalize hM : L ++ e :: L' = M at h
  induction h generalizing L' with
  | refl => simp at hM
  | step hst hs ih =>
    rcases List.eq_nil_or_concat L' with rfl | ⟨L'', x, rfl⟩
    · obtain ⟨rfl, he⟩ := List.append_inj' hM rfl
      cases he
      exact ⟨_, _, hst, hs⟩
    · rw [List.concat_eq_append, ← List.cons_append, ← List.append_assoc] at hM
      exact ih (List.append_inj' hM rfl).1

/-- An event that is no send takes its sender out of the one mailbox it is in. -/
theorem Holds.leave (h : Holds L Q) (hc : c ∈ Q d) (he : e.sender = c)
    (hs : ∀ c q, e ≠ .sent c q) :
    Holds (L ++ [e]) (update Q d ((Q d).erase c)) := by
  have hpend : ∀ {i x q}, PendingAt (L ++ [e]) i x q ↔ PendingAt L i x q ∧ x ≠ c := by
    intro i x q
    rw [pendingAt_append_iff, he]
    simp only [hs, and_false, or_false]
    exact and_congr_right fun _ => ne_comm
  refine ⟨fun x q => ?_, fun q => ?_⟩
  · simp only [hpend, exists_and_right]
    by_cases hq : q = d
    · subst hq
      rw [update_self, (h.nodup q).mem_erase_iff, h.mem, and_comm]
    · rw [update_of_ne hq, h.mem]
      refine ⟨fun hx => ⟨hx, ?_⟩, fun hx => hx.1⟩
      rintro rfl
      exact hq (h.unique ((h.mem _ _).mpr hx) hc)
  · have hsub : List.Sublist (update Q d ((Q d).erase c) q) (Q q) := by
      by_cases hq : q = d
      · subst hq
        rw [update_self]
        exact List.erase_sublist
      · rw [update_of_ne hq]
    refine ((h.sorted q).sublist hsub).imp fun hab i j hi hj => ?_
    exact hab i j (hpend.mp hi).1 (hpend.mp hj).1

/-- A send enters at the end of a mailbox. -/
theorem Holds.enter (h : Holds L Q) (hc : ∀ q, c ∉ Q q) :
    Holds (L ++ [.sent c d]) (update Q d (Q d ++ [c])) := by
  have hne : ∀ {i x q}, PendingAt L i x q → c ≠ x := by
    rintro i x q hi rfl
    exact hc q ((h.mem _ q).mpr ⟨i, hi⟩)
  refine ⟨fun x q => ?_, fun q => ?_⟩
  · have hmem : x ∈ update Q d (Q d ++ [c]) q ↔ x ∈ Q q ∨ c = x ∧ d = q := by
      by_cases hq : q = d
      · subst hq
        simp [eq_comm]
      · simp [update_of_ne hq, Ne.symm hq]
    rw [hmem, h.mem]
    constructor
    · rintro (⟨i, hi⟩ | ⟨rfl, rfl⟩)
      · exact ⟨i, pendingAt_append_iff.mpr (.inl ⟨hi, hne hi⟩)⟩
      · exact ⟨L.length, pendingAt_append_iff.mpr (.inr ⟨rfl, rfl⟩)⟩
    · rintro ⟨i, hi⟩
      rcases pendingAt_append_iff.mp hi with ⟨hi, -⟩ | ⟨-, he⟩
      · exact .inl ⟨i, hi⟩
      · cases he
        exact .inr ⟨rfl, rfl⟩
  · -- an old pending send is before the new one
    have hold : (Q q).Pairwise (fun a b => ∀ i j, PendingAt (L ++ [.sent c d]) i a q →
        PendingAt (L ++ [.sent c d]) j b q → i < j) := by
      refine (h.sorted q).imp_of_mem fun {a b} ha hb hab i j hi hj => ?_
      obtain ⟨i', hi'⟩ := (h.mem a q).mp ha
      obtain ⟨j', hj'⟩ := (h.mem b q).mp hb
      obtain ⟨rfl, -⟩ := hi.unique (pendingAt_append_iff.mpr (.inl ⟨hi', hne hi'⟩))
      obtain ⟨rfl, -⟩ := hj.unique (pendingAt_append_iff.mpr (.inl ⟨hj', hne hj'⟩))
      exact hab _ _ hi' hj'
    by_cases hq : q = d
    · subst hq
      rw [update_self]
      refine List.pairwise_append.mpr ⟨hold, List.pairwise_singleton _ _, ?_⟩
      intro a ha b hb i j hi hj
      obtain rfl : b = c := by simpa using hb
      obtain ⟨i', hi'⟩ := (h.mem a q).mp ha
      obtain ⟨rfl, -⟩ := hi.unique (pendingAt_append_iff.mpr (.inl ⟨hi', hne hi'⟩))
      obtain ⟨rfl, -⟩ := hj.unique (pendingAt_append_iff.mpr (.inr ⟨rfl, rfl⟩))
      exact hi'.lt
    · rw [update_of_ne hq]
      exact hold

theorem Step.holds (h : Step Q e Q') (hQ : Holds L Q) : Holds (L ++ [e]) Q' := by
  cases h with
  | sent hc => exact hQ.enter hc
  | received hc _ | killed hc => exact hQ.leave hc rfl (fun _ _ => by simp)

/-- **THE RUN LEMMA**: from empty mailboxes, they hold the pending sends of the log. -/
theorem Steps.holds (h : Steps Q L Q') (h0 : ∀ q, Q q = []) : Holds L Q' := by
  induction h with
  | refl => exact holds_nil h0
  | step _ hs ih => exact hs.holds ih

/-- The step of the event at `j`, and what the mailboxes hold before it. -/
theorem Steps.at (h : Steps Q L Q') (h0 : ∀ q, Q q = []) (hj : L[j]? = some e) :
    ∃ Q₁ Q₂, Holds (L.take j) Q₁ ∧ Step Q₁ e Q₂ := by
  rw [split_at hj] at h
  obtain ⟨Q₁, Q₂, hst, hs⟩ := h.split
  exact ⟨Q₁, Q₂, hst.holds h0, hs⟩

/-! ## Exactly once, and in order -/

/-- Every receive answers one send to the process that receives. -/
theorem Steps.receive_answers (h : Steps Q L Q') (h0 : ∀ q, Q q = [])
    (hj : L[j]? = some (.received c q front)) :
    ∃! i, Answers L i j c q front := by
  obtain ⟨Q₁, Q₂, hQ, hs⟩ := h.at h0 hj
  cases hs with
  | received hc _ =>
    obtain ⟨i, hi⟩ := (hQ.mem c q).mp hc
    have hij : i < j := by
      have := hi.lt
      rw [List.length_take] at this
      omega
    refine ⟨i, ⟨hij, by rw [← hi.1, List.getElem?_take_of_lt hij], hj, ?_⟩, fun i' h' => ?_⟩
    · intro k e hk hkj he
      exact hi.2 k e hk (by rwa [List.getElem?_take_of_lt hkj])
    · have hp := pendingAt_take h'.1 h'.2.1 h'.2.2.2
      exact (hp.unique hi).1

/-- Every send is answered by one receive of its addressee, unless its sender is killed
    first or still waits. -/
theorem Steps.send_answered (h : Steps Q L Q') (h0 : ∀ q, Q q = [])
    (hi : L[i]? = some (.sent c q)) :
    (∃! j, ∃ front, Answers L i j c q front) ∨ KilledAfter L i c ∨ PendingAt L i c q := by
  classical
  by_cases hk : ∃ k, i < k ∧ ∃ e, L[k]? = some e ∧ e.sender = c
  · -- the next event of the sender decides
    obtain ⟨hij, e, hj, he⟩ := Nat.find_spec hk
    have hmin := fun k (hk' : k < Nat.find hk) => Nat.find_min hk hk'
    generalize Nat.find hk = j at hij hj hmin
    have hno : ∀ k e, i < k → k < j → L[k]? = some e → e.sender ≠ c := by
      intro k e hk hkj hke hec
      exact hmin k hkj ⟨hk, e, hke, hec⟩
    have hp := pendingAt_take hij hi hno
    obtain ⟨Q₁, Q₂, hQ, hs⟩ := h.at h0 hj
    cases hs with
    | sent hc =>
      cases he
      exact absurd ((hQ.mem _ q).mpr ⟨i, hp⟩) (hc q)
    | received hc _ =>
      cases he
      obtain rfl := hQ.unique ((hQ.mem _ q).mpr ⟨i, hp⟩) hc
      refine .inl ⟨j, ⟨_, hij, hi, hj, hno⟩, ?_⟩
      rintro j' ⟨_, h'⟩
      exact h'.unique_receive ⟨hij, hi, hj, hno⟩
    | killed hc =>
      cases he
      exact .inr (.inl ⟨j, hij, hj, hno⟩)
  · refine .inr (.inr ⟨hi, fun k e hik hke he => hk ⟨k, hik, e, hke, he⟩⟩)

/-- **FIFO.** Receives from the front keep the order of the sends they answer. -/
theorem Steps.fifo {j' : Nat} {a b : α} (h : Steps Q L Q') (h0 : ∀ q, Q q = [])
    (ha : Answers L i j a q true) (hb : Answers L i' j' b q true) (hlt : i < i') : j < j' := by
  by_contra hge
  have hne : j' ≠ j := by
    rintro rfl
    have he := ha.2.2.1.symm.trans hb.2.2.1
    simp only [some.injEq, Event.received.injEq, and_true] at he
    subst he
    exact absurd (ha.unique_send hb) (by omega)
  have hj : j' < j := by omega
  -- before the receive at `j'` both are pending, `a` in front of `b`
  have hpb := pendingAt_take hb.1 hb.2.1 hb.2.2.2
  have hpa : PendingAt (L.take j') i a q :=
    pendingAt_take (Nat.lt_trans hlt hb.1) ha.2.1
      (fun k e hk hkj he => ha.2.2.2 k e hk (Nat.lt_trans hkj hj) he)
  obtain ⟨Q₁, Q₂, hQ, hs⟩ := h.at h0 hb.2.2.1
  cases hs with
  | received _ hfront =>
    have hmem := (hQ.mem a q).mpr ⟨i, hpa⟩
    have hsorted := hQ.sorted q
    cases hq : Q₁ q with
    | nil =>
      rw [hq] at hmem
      cases hmem
    | cons x xs =>
      rw [hq] at hmem hsorted
      have hx := hfront rfl
      rw [hq, List.head?_cons, some.injEq] at hx
      subst hx
      rcases List.mem_cons.mp hmem with rfl | hm
      · exact absurd (hpa.unique hpb).1 (by omega)
      · have := (List.pairwise_cons.mp hsorted).1 a hm i' i hpb hpa
        omega

end Steps

end Mailbox
