import Minix4rt.IpcInvariantProofs

/-! # RT message queues — a bounded stable priority queue with selective removal

    A message queue is sixteen linked lists, a bitmap and two levels of counters.  What
    it is FOR is one list in order of arrival: `MRT_mqe_app` adds at the end unless the
    list is full, `MRT_mqe_rmv` takes an entry out of the middle, and `MRT_mqe_pick`
    chooses the oldest entry of best priority among those that match the source.

    `Arrivals` is that list.  `Arrivals.Shown` ties it to the code's queue, `Shown.op`
    says that one call keeps the tie and answers as the list does, and the run follows by
    induction over the calls. -/

namespace Kernel

open ListPool Vtimer PriorityList Function Option

/-- A call on a queue.  The caller fills in the header of an entry before it appends it. -/
inductive QueueOp where
  | app (k : Mqe) (h : Hdr)
  | rmv (k : Mqe)
  | pick (source : Int)
deriving DecidableEq, Repr

/-- What a call returns: whether the entry was accepted, nothing, or the entry picked. -/
inductive QueueAns where
  | app (ok : Bool)
  | rmv
  | pick (o : Option Mqe)
deriving DecidableEq, Repr

/-- One call of the code; no result is an index out of the array, a null pointer or a
    loop that does not end. -/
def MsgSt.queueOp (m : MsgSt) (q : MsgQ) : QueueOp → Option (MsgSt × QueueAns)
  | .app k h =>
    (({ m with hdr := update m.hdr k h } : MsgSt).mqeApp q k).map (fun r => (r.1, .app r.2))
  | .rmv k => (m.mqeRmv q k).map (fun m => (m, .rmv))
  | .pick source => (m.mqePick q source).map (fun o => (m, .pick o))

/-- A sequence of calls, with all the answers. -/
def MsgSt.queueRun (m : MsgSt) (q : MsgQ) : List QueueOp → Option (MsgSt × List QueueAns)
  | [] => some (m, [])
  | op :: ops => do
      let (m, a) ← m.queueOp q op
      let (m, as) ← m.queueRun q ops
      some (m, a :: as)

/-! ## What the queue is for -/

/-- The entries of a queue in order of arrival, and the headers. -/
structure Arrivals where
  queued : List Mqe
  hdr : Mqe → Hdr

/-- What a queue is ordered by: the priority of the message, or nothing. -/
def MsgQRec.key (r : MsgQRec) (h : Hdr) : Nat := if r.order then h.priority else 0

namespace Arrivals

variable (r : MsgQRec) (own : Mqe → Prop) (a : Arrivals)

/-- The queue holds `size` entries. -/
def Full : Prop := (a.queued.length : Int) = r.size

instance : Decidable (a.Full r) := inferInstanceAs (Decidable (_ = _))

/-- The entry matches the source. -/
def accepts (source : Int) (k : Mqe) : Bool :=
  decide (source = anyProc) || decide (source = (a.hdr k).src)

/-- One call on the list. -/
def op : QueueOp → Arrivals
  | .app k h =>
    { queued := if a.Full r then a.queued else a.queued ++ [k], hdr := update a.hdr k h }
  | .rmv k => { a with queued := a.queued.erase k }
  | .pick _ => a

/-- The answer is the one the list gives. -/
def Answers : QueueOp → QueueAns → Prop
  | .app _ _, .app ok => ok = false ↔ a.Full r
  | .rmv _, .rmv => True
  | .pick source, .pick o =>
    (∀ k, o = some k ↔
      Oldest (fun k => r.key (a.hdr k)) (a.accepts source) a.queued k) ∧
    (o = none ↔ ∀ k ∈ a.queued, a.accepts source k = false)
  | _, _ => False

/-- All the answers of a sequence of calls are those of the list. -/
def AllAnswers : Arrivals → List QueueOp → List QueueAns → Prop
  | _, [], [] => True
  | a, op :: ops, an :: as => a.Answers r op an ∧ AllAnswers (a.op r op) ops as
  | _, _, _ => False

/-- The calls a user of the queue makes: an entry that is appended is one of `own` that
    is not queued, with a priority of the array, and only queued entries are removed. -/
def Allowed : QueueOp → Prop
  | .app k h => own k ∧ k ∉ a.queued ∧ h.priority < 16
  | .rmv k => k ∈ a.queued
  | .pick _ => True

instance [DecidablePred own] : ∀ o, Decidable (a.Allowed own o)
  | .app k h => inferInstanceAs (Decidable (own k ∧ k ∉ a.queued ∧ h.priority < 16))
  | .rmv k => inferInstanceAs (Decidable (k ∈ a.queued))
  | .pick _ => inferInstanceAs (Decidable True)

def AllAllowed : Arrivals → List QueueOp → Prop
  | _, [] => True
  | a, op :: ops => a.Allowed own op ∧ AllAllowed (a.op r op) ops

/-- The code's queue `q` shows the list: each level holds the entries of that level in
    order of arrival, and the other entries of `own` are in no list. -/
structure Shown (m : MsgSt) (q : MsgQ) : Prop where
  size : (m.msgQ q).size = r.size
  order : (m.msgQ q).order = r.order
  hdr : m.hdr = a.hdr
  nodup : a.queued.Nodup
  range : ∀ k ∈ a.queued, r.key (a.hdr k) < 16
  placed : ∃ pl, m.pool.Placed pl ∧ ∀ k, own k → k ∉ a.queued → pl k = none
  lists : ∀ p : Prty, m.pool.list (.level q p)
    = a.queued.filter (fun k => r.key (a.hdr k) = p.val)

variable {r own a} {m m' : MsgSt} {q : MsgQ} {k : Mqe}

theorem Shown.level (h : a.Shown r own m q) {p : Prty} (hk : r.key (m.hdr k) = p.val) :
    m.level q k = some p := by
  rw [MsgQRec.key] at hk
  rw [MsgSt.level, h.order]
  split at hk
  · rename_i ho
    rw [if_pos ho, prtyOf, dif_pos (hk ▸ p.isLt)]
    exact congrArg some (Fin.ext hk)
  · rename_i ho
    rw [if_neg ho]
    exact congrArg some (Fin.ext hk)

/-- An entry is on a level exactly when it is queued with that priority. -/
theorem Shown.place (h : a.Shown r own m q) {pl : Mqe → Option (Slot Unit MsgQ 16)}
    (hP : m.pool.Placed pl) (p : Prty) :
    pl k = some (.level q p) ↔ k ∈ a.queued ∧ r.key (a.hdr k) = p.val := by
  rw [← hP.mem_list, h.lists p, List.mem_filter, decide_eq_true_eq]

/-- The counter of the queue counts the list. -/
theorem Shown.inQ (h : a.Shown r own m q) : (m.pool.aux q).inQ = a.queued.length := by
  obtain ⟨pl, hP, -⟩ := h.placed
  rw [hP.inQ_eq q, ← List.toFinset_card_of_nodup h.nodup]
  congr 2
  ext k
  simp only [Finset.mem_filter, Finset.mem_univ, true_and, List.mem_toFinset, h.place hP]
  constructor
  · rintro ⟨p, hk, -⟩
    exact hk
  · intro hk
    exact ⟨⟨_, h.range k hk⟩, hk, rfl⟩

theorem Shown.full (h : a.Shown r own m q) : m.full q = true ↔ a.Full r := by
  rw [MsgSt.full, decide_eq_true_eq, h.inQ, h.size, Full]

/-! ## One call -/

/-- Filling in the header of an entry that is not queued. -/
theorem Shown.fill (h : a.Shown r own m q) (hnq : k ∉ a.queued) (hd : Hdr) :
    Shown r own ⟨a.queued, update a.hdr k hd⟩ { m with hdr := update m.hdr k hd } q := by
  have hkey : ∀ j ∈ a.queued, update a.hdr k hd j = a.hdr j := by
    intro j hj
    refine update_of_ne ?_ _ _
    rintro rfl
    exact hnq hj
  refine ⟨h.size, h.order, by rw [h.hdr], h.nodup, fun j hj => ?_, h.placed, fun p => ?_⟩
  · show r.key (update a.hdr k hd j) < 16
    rw [hkey j hj]
    exact h.range j hj
  · rw [h.lists p]
    refine List.filter_congr (fun j hj => ?_)
    show _ = decide (r.key (update a.hdr k hd j) = p.val)
    rw [hkey j hj]

/-- An entry that is in no list goes to the end of its own level. -/
theorem Shown.append (h : a.Shown r own m q) (hown : own k) (hnq : k ∉ a.queued) {p : Prty}
    (hp : r.key (a.hdr k) = p.val) :
    ∃ P, m.pool.papp q k p = some P ∧
      Shown r own ⟨a.queued ++ [k], a.hdr⟩
        (({ m with pool := P } : MsgSt).updQ q (fun r => { r with enqueued := r.enqueued + 1 }))
        q := by
  obtain ⟨pl, hP, hpl⟩ := h.placed
  obtain ⟨P, hP1, hP2⟩ := hP.papp q p (hpl k hown hnq)
  refine ⟨P, hP1, ?_, ?_, h.hdr, ?_, ?_, ⟨_, hP2, ?_⟩, fun l => ?_⟩
  · simp [MsgSt.updQ, h.size]
  · simp [MsgSt.updQ, h.order]
  · refine List.nodup_append.mpr ⟨h.nodup, List.nodup_singleton k, fun x hx y hy => ?_⟩
    rintro rfl
    exact hnq (List.mem_singleton.mp hy ▸ hx)
  · intro j hj
    rcases List.mem_append.mp hj with hj | hj
    · exact h.range j hj
    · rw [List.mem_singleton.mp hj]
      exact hp ▸ p.isLt
  · intro j hj hjq
    rw [List.mem_append, List.mem_singleton, not_or] at hjq
    rw [update_of_ne hjq.2]
    exact hpl j hj hjq.1
  · show P.list (.level q l) = (a.queued ++ [k]).filter _
    rw [hP.list_papp (hpl k hown hnq) hP1, List.filter_append, ← h.lists l]
    by_cases hl : l = p
    · subst hl
      simp [hp]
    · have hne : ¬ p.val = l.val := fun e => hl (Fin.ext e.symm)
      simp [hl, hp, hne]

/-- `MRT_mqe_app` of a filled entry. -/
theorem Shown.app (h : a.Shown r own m q) {hd : Hdr} (ha : a.Allowed own (.app k hd)) :
    ∃ m' an, m.queueOp q (.app k hd) = some (m', an) ∧ a.Answers r (.app k hd) an ∧
      (a.op r (.app k hd)).Shown r own m' q := by
  obtain ⟨hown, hnq, hlt⟩ := ha
  have h1 := h.fill hnq hd
  have hfull := h1.full
  by_cases hF : a.Full r
  · refine ⟨{ m with hdr := update m.hdr k hd }, .app false, ?_, by simp [Answers, hF], ?_⟩
    · rw [MsgSt.queueOp, MsgSt.mqeApp, if_pos (hfull.mpr hF)]
      rfl
    · rw [Arrivals.op, if_pos hF]
      exact h1
  · have hk16 : r.key hd < 16 := by
      rw [MsgQRec.key]
      split
      · exact hlt
      · decide
    have hlv := h1.level (k := k) (p := ⟨r.key hd, hk16⟩) (by simp)
    obtain ⟨P, hP, hs⟩ := h1.append hown hnq (p := ⟨r.key hd, hk16⟩) (by simp)
    have hop : a.op r (.app k hd) = ⟨a.queued ++ [k], update a.hdr k hd⟩ := by
      rw [Arrivals.op, if_neg hF]
    rw [hop]
    refine ⟨_, .app true, ?_, by simp [Answers, hF], hs⟩
    have hP' : m.pool.papp q k ⟨r.key hd, hk16⟩ = some P := hP
    rw [MsgSt.queueOp, MsgSt.mqeApp, if_neg (fun hf => hF (hfull.mp hf)), hlv]
    simp only [bind_eq_bind, bind_some, hP']
    rfl

/-- `MRT_mqe_rmv` of a queued entry. -/
theorem Shown.rmv (h : a.Shown r own m q) (hk : k ∈ a.queued) :
    ∃ m' an, m.queueOp q (.rmv k) = some (m', an) ∧ a.Answers r (.rmv k) an ∧
      (a.op r (.rmv k)).Shown r own m' q := by
  obtain ⟨pl, hP, hpl⟩ := h.placed
  have hlv := h.level (k := k) (p := ⟨_, h.range k hk⟩) (by rw [h.hdr])
  have hplace := (h.place hP ⟨_, h.range k hk⟩).mpr ⟨hk, rfl⟩
  refine ⟨({ m with pool := m.pool.prmv q k ⟨_, h.range k hk⟩ } : MsgSt).updQ q
    (fun r => { r with delivered := r.delivered + 1 }), .rmv, ?_, trivial, ?_⟩
  · rw [MsgSt.queueOp, MsgSt.mqeRmv, hlv]
    rfl
  refine ⟨?_, ?_, h.hdr, h.nodup.erase k, ?_, ⟨_, hP.prmv hplace, ?_⟩, fun p => ?_⟩
  · simp [MsgSt.updQ, h.size]
  · simp [MsgSt.updQ, h.order]
  · intro j hj
    exact h.range j (List.mem_of_mem_erase hj)
  · intro j hj hjq
    by_cases hjk : j = k
    · rw [hjk, update_self]
    · rw [update_of_ne hjk]
      exact hpl j hj (fun hm => hjq ((List.mem_erase_of_ne hjk).mpr hm))
  · show (m.pool.prmv q k _).list (.level q p) = (a.queued.erase k).filter _
    rw [hP.list_prmv hplace, h.lists p, List.erase_filter]
    rfl

/-- `MRT_mqe_pick`. -/
theorem Shown.pick (h : a.Shown r own m q) (source : Int) :
    ∃ m' an, m.queueOp q (.pick source) = some (m', an) ∧
      a.Answers r (.pick source) an ∧ (a.op r (.pick source)).Shown r own m' q := by
  obtain ⟨pl, hP, -⟩ := h.placed
  have hacc : m.accepts source = a.accepts source := by
    funext j
    rw [MsgSt.accepts, accepts, h.hdr]
  -- the levels, one after the other, are the list sorted by key and then by arrival
  have hflat : (List.finRange 16).flatMap (fun p => m.pool.list (.level q p))
      = (List.range 16).flatMap (fun p => a.queued.filter (fun j => r.key (a.hdr j) = p)) := by
    rw [← List.map_coe_finRange_eq_range, List.flatMap_map]
    exact List.flatMap_congr (fun p _ => h.lists p)
  have hall : ∀ j ∈ a.queued, a.accepts source j = true →
      r.key (a.hdr j) ∈ List.range 16 :=
    fun j hj _ => List.mem_range.mpr (h.range j hj)
  refine ⟨m, .pick (((List.range 16).flatMap (fun p => a.queued.filter
    (fun j => r.key (a.hdr j) = p))).find? (a.accepts source)), ?_, ⟨fun k => ?_, ?_⟩, h⟩
  · rw [MsgSt.queueOp, MsgSt.mqePick, hP.pick_eq, hacc, hflat]
    rfl
  · constructor
    · exact oldest_of_find? List.pairwise_lt_range hall
    · intro hk
      cases hfd : ((List.range 16).flatMap (fun p => a.queued.filter
          (fun j => r.key (a.hdr j) = p))).find? (a.accepts source) with
      | none =>
        have := (find?_levels_eq_none hall).mp hfd k hk.mem
        rw [hk.sat] at this
        cases this
      | some j => exact congrArg some ((oldest_of_find? List.pairwise_lt_range hall hfd).unique hk)
  · exact find?_levels_eq_none hall

/-- **ONE CALL** answers as the list does and keeps the queue in step with it. -/
theorem Shown.op (h : a.Shown r own m q) {o : QueueOp} (ho : a.Allowed own o) :
    ∃ m' an, m.queueOp q o = some (m', an) ∧ a.Answers r o an ∧
      (a.op r o).Shown r own m' q := by
  cases o with
  | app k hd => exact h.app ho
  | rmv k => exact h.rmv ho
  | pick source => exact h.pick source

end Arrivals

/-! ## Any history of calls -/

/-- The queue `q` is empty in a sound pool, and the entries of `own` are in no list, as
    `MRT_mqe_alloc` hands them out. -/
def MsgSt.Ready (m : MsgSt) (q : MsgQ) (own : Mqe → Prop) : Prop :=
  ∃ pl, m.pool.Placed pl ∧ (∀ k p, pl k ≠ some (.level q p)) ∧ ∀ k, own k → pl k = none

theorem MsgSt.Ready.shown {m : MsgSt} {q : MsgQ} {own : Mqe → Prop} (h : m.Ready q own) :
    Arrivals.Shown (m.msgQ q) own ⟨[], m.hdr⟩ m q := by
  obtain ⟨pl, hP, hq, hown⟩ := h
  refine ⟨rfl, rfl, rfl, List.nodup_nil, fun k hk => absurd hk List.not_mem_nil,
    ⟨pl, hP, fun k hk _ => hown k hk⟩, fun p => ?_⟩
  rw [List.filter_nil, List.eq_nil_iff_forall_not_mem]
  intro k hk
  exact hq k p ((hP.mem_list _).mp hk)

/-- In every sound state of the kernel a queue without an owner is ready for use. -/
theorem MsgOk.ready {x : Option Proc} {s : KState} {q : MsgQ} (h : MsgOk x s)
    (hq : ∀ p, (s.procs p).pmq ≠ some q) : s.ms.Ready q (fun _ => False) := by
  refine ⟨entryPlace s, h.pool, fun k p hk => ?_, fun _ hk => hk.elim⟩
  obtain ⟨-, -, d, -, hd⟩ := h.of_place hk
  exact hq d hd

/-- `MRT_mqe_alloc` hands out an entry that is in no list. -/
theorem MsgSt.Ready.alloc {m m' : MsgSt} {q : MsgQ} {own : Mqe → Prop} {k : Mqe}
    (h : m.Ready q own) (hk : m.mqeAlloc = (some k, m')) :
    m'.Ready q (fun j => own j ∨ j = k) := by
  obtain ⟨pl, hP, hq, hown⟩ := h
  rw [MsgSt.mqeAlloc] at hk
  cases hf : m.pool.first () with
  | none => simp [hf] at hk
  | some j =>
    simp only [hf, Prod.mk.injEq, some.injEq] at hk
    obtain ⟨rfl, rfl⟩ := hk
    refine ⟨_, hP.rmv (hP.of_first hf), fun i p => ?_, fun i hi => ?_⟩
    · by_cases hij : i = j
      · simp [hij]
      · rw [update_of_ne hij]
        exact hq i p
    · by_cases hij : i = j
      · rw [hij, update_self]
      · rw [update_of_ne hij]
        exact hown i (hi.resolve_right hij)

/-- **A MESSAGE QUEUE IS A BOUNDED STABLE PRIORITY QUEUE.**  Along every history of calls
    no call fails, and each answer is the one that the list of arrivals gives: the oldest
    match of best priority, nothing only without a match, and a refusal exactly of a full
    queue. -/
theorem message_queue_order {m : MsgSt} {q : MsgQ} {own : Mqe → Prop} {ops : List QueueOp}
    (hm : m.Ready q own)
    (hops : Arrivals.AllAllowed (m.msgQ q) own ⟨[], m.hdr⟩ ops) :
    ∃ m' as, m.queueRun q ops = some (m', as) ∧
      Arrivals.AllAnswers (m.msgQ q) ⟨[], m.hdr⟩ ops as := by
  have hrun : ∀ (ops : List QueueOp) (a : Arrivals) (t : MsgSt),
      a.Shown (m.msgQ q) own t q → a.AllAllowed (m.msgQ q) own ops →
      ∃ m' as, t.queueRun q ops = some (m', as) ∧ a.AllAnswers (m.msgQ q) ops as := by
    intro ops
    induction ops with
    | nil =>
      intro a t _ _
      exact ⟨t, [], rfl, trivial⟩
    | cons o ops ih =>
      intro a t hs ho
      obtain ⟨t1, an, h1, han, hs1⟩ := hs.op ho.1
      obtain ⟨t2, as, h2, has⟩ := ih _ t1 hs1 ho.2
      refine ⟨t2, an :: as, ?_, han, has⟩
      rw [MsgSt.queueRun, h1]
      simp [h2]
  exact hrun ops _ m hm.shown hops

/-- A new queue of two entries in order of priority, with three entries taken for it. -/
def twoDeep : MsgSt :=
  (boot.ms.msgQAlloc 2 true false 14).2.mqeAlloc.2.mqeAlloc.2.mqeAlloc.2

/-- Two messages, a third one that is refused, then the better one is picked and removed. -/
def threeSends : List QueueOp :=
  [.app 0 { Hdr.rst with src := 3, priority := 5 }, .app 1 { Hdr.rst with src := 4, priority := 2 },
   .app 2 { Hdr.rst with src := 3, priority := 0 }, .pick anyProc, .rmv 1, .pick 3]

theorem message_queue_order_three : ∃ own, twoDeep.Ready 0 own ∧
    Arrivals.AllAllowed (twoDeep.msgQ 0) own ⟨[], twoDeep.hdr⟩ threeSends ∧
    ∃ m' as, twoDeep.queueRun 0 threeSends = some (m', as) ∧
      Arrivals.AllAnswers (twoDeep.msgQ 0) ⟨[], twoDeep.hdr⟩ threeSends as := by
  have h0 : (boot.ms.msgQAlloc 2 true false 14).2.Ready 0 (fun _ => False) :=
    boot_initial.ipcOk.msgs.ready (fun p => by
      rw [(boot_initial.procs p).2.2.2.2.2.1]
      exact nofun)
  have h3 := ((h0.alloc (k := 0) (Prod.ext (by decide +kernel) rfl)).alloc (k := 1)
    (Prod.ext (by decide +kernel) rfl)).alloc (k := 2) (Prod.ext (by decide +kernel) rfl)
  have hops : Arrivals.AllAllowed (twoDeep.msgQ 0) (fun j => ((False ∨ j = 0) ∨ j = 1) ∨ j = 2)
      ⟨[], twoDeep.hdr⟩ threeSends :=
    ⟨by decide, by decide +kernel, by decide +kernel, trivial, by decide +kernel, trivial,
      trivial⟩
  exact ⟨_, h3, hops, message_queue_order h3 hops⟩

end Kernel
