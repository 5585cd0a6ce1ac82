import Minix4rt.TimerOwnershipProofs

/-! # Where the message entries are, and who waits for them

    `entryPlace` is where an entry has to be: in `mqeL` if its type is `MT_FREE`, else in
    the queue of the process that its header names as the destination.  The invariant
    `MsgOk` says that every entry IS there, and that a process waits in a send exactly
    as long as ONE request of it is queued. -/

namespace Kernel

open ListPool Vtimer KState TimerSt Function Option

/-- The list that an entry belongs to. -/
def entryPlace (s : KState) (k : Mqe) : Option (Slot Unit MsgQ 16) :=
  if (s.ms.hdr k).mtype = .mbfree then some (.plain ())
  else ((procAddr (s.ms.hdr k).dst).bind (fun d => (s.procs d).pmq)).bind
    (fun q => (s.ms.level q k).map (Slot.level q))

/-- The message invariant, with the process `x` leaving RT mode. -/
structure MsgOk (x : Option Proc) (s : KState) : Prop where
  pool : s.ms.pool.Placed (entryPlace s)
  dst : ∀ k, (s.ms.hdr k).mtype ≠ .mbfree → ∃ d q l, (s.ms.hdr k).dst = procNr d ∧
    (s.procs d).pmq = some q ∧ s.ms.level q k = some l
  idle : ∀ k, (s.ms.hdr k).mtype = .mbfree → (s.ms.hdr k).src = hardware
  queues : s.ms.free.Placed
    (fun q => if ∃ p, (s.procs p).pmq = some q then none else some (.plain ()))
  owner : ∀ p q, (s.procs p).pmq = some q → (s.procs p).realtime = true
  inj : ∀ p p' q, (s.procs p).pmq = some q → (s.procs p').pmq = some q → p = p'
  sync : ∀ k, (s.ms.hdr k).mtype.Sync → ∃ p d, (s.ms.hdr k).src = procNr p ∧
    (s.ms.hdr k).dst = procNr d ∧
    (x = some p ∨ (s.procs p).st.mbxSnd = true ∧ (s.procs p).pto = some d)
  uniq : ∀ k k', (s.ms.hdr k).mtype.Sync → (s.ms.hdr k').mtype.Sync →
    (s.ms.hdr k).src = (s.ms.hdr k').src → k = k'
  sent : ∀ p, x ≠ some p → (s.procs p).st.mbxSnd = true →
    ∃ k, (s.ms.hdr k).mtype.Sync ∧ (s.ms.hdr k).src = procNr p
  nrt : ∀ p, (s.procs p).realtime = false → (s.procs p).st = .clear
  leaving : ∀ r, x = some r → (s.procs r).realtime = true ∧ (s.procs r).ipcvt = none

variable {b : Bool} {x : Option Proc} {s s' s1 : KState} {p d src : Proc} {q : MsgQ} {k : Mqe}
  {t : MType}
variable {l : Prty} {m m' : MsgSt}

/-! ## Reading the places -/

theorem entryPlace_congr (hh : s'.ms.hdr k = s.ms.hdr k)
    (hq : ∀ p, (s'.procs p).pmq = (s.procs p).pmq)
    (ho : ∀ q, (s'.ms.msgQ q).order = (s.ms.msgQ q).order) :
    entryPlace s' k = entryPlace s k := by
  have hl : ∀ q, s'.ms.level q k = s.ms.level q k := by
    intro q
    rw [MsgSt.level, MsgSt.level, ho, hh]
  have hd : (fun d => (s'.procs d).pmq) = (fun d => (s.procs d).pmq) := funext hq
  rw [entryPlace, entryPlace, hh, hd]
  simp only [hl]

/-- An entry in a queue has that level there, and names the owner of the queue. -/
theorem MsgOk.of_place (h : MsgOk x s) (hk : entryPlace s k = some (.level q l)) :
    (s.ms.hdr k).mtype ≠ .mbfree ∧ s.ms.level q k = some l ∧
      ∃ d, (s.ms.hdr k).dst = procNr d ∧ (s.procs d).pmq = some q := by
  rw [entryPlace] at hk
  split at hk
  · cases hk
  · rename_i hne
    obtain ⟨d, q', l', hd, hq', hl'⟩ := h.dst k hne
    rw [hd, procAddr_procNr] at hk
    simp only [bind_some, hq', hl', map_some, some.injEq, Slot.level.injEq] at hk
    obtain ⟨rfl, rfl⟩ := hk
    exact ⟨hne, hl', d, hd, hq'⟩

/-- Where a queued entry is. -/
theorem MsgOk.place (h : MsgOk x s) (hne : (s.ms.hdr k).mtype ≠ .mbfree)
    (hd : (s.ms.hdr k).dst = procNr d) (hq : (s.procs d).pmq = some q) :
    ∃ l, s.ms.level q k = some l ∧ entryPlace s k = some (.level q l) := by
  obtain ⟨d', q', l, hd', hq', hl⟩ := h.dst k hne
  rw [hd, procNr_inj] at hd'
  subst hd'
  rw [hq] at hq'
  cases hq'
  refine ⟨l, hl, ?_⟩
  rw [entryPlace, if_neg hne, hd, procAddr_procNr]
  simp [hq, hl]

/-! ## Changes outside the message system -/

/-- The message system is the same up to its statistics. -/
structure SameMsgs (s s' : KState) : Prop where
  hdr : s'.ms.hdr = s.ms.hdr
  chains : s'.ms.pool.C = s.ms.pool.C
  aux : ∀ q, (s'.ms.pool.aux q).bitmap = (s.ms.pool.aux q).bitmap ∧
    (s'.ms.pool.aux q).inQ = (s.ms.pool.aux q).inQ
  free : s'.ms.free = s.ms.free
  order : ∀ q, (s'.ms.msgQ q).order = (s.ms.msgQ q).order

theorem SameMsgs.of_eq (h : s'.ms = s.ms) : SameMsgs s s' := by
  constructor
  · rw [h]
  · rw [h]
  · intro q
    rw [h]
    exact ⟨rfl, rfl⟩
  · rw [h]
  · intro q
    rw [h]

theorem Book.msgs (h : Book s s') : SameMsgs s s' :=
  ⟨h.hdr, h.chains, h.aux, h.free, fun q => (h.queue q).2.1⟩

/-- The headers stay, and so do the queues of their destinations: what is left to show is
    about free queues and about processes. -/
theorem MsgOk.reform {x' : Option Proc} (h : MsgOk x s) (hdr : s'.ms.hdr = s.ms.hdr)
    (hpool : s'.ms.pool.Placed (entryPlace s))
    (hdst : ∀ k d q, (s.ms.hdr k).mtype ≠ .mbfree → (s.ms.hdr k).dst = procNr d →
      (s.procs d).pmq = some q →
      (s'.procs d).pmq = some q ∧ (s'.ms.msgQ q).order = (s.ms.msgQ q).order)
    (hqueues : s'.ms.free.Placed
      (fun q => if ∃ p, (s'.procs p).pmq = some q then none else some (.plain ())))
    (howner : ∀ p q, (s'.procs p).pmq = some q → (s'.procs p).realtime = true)
    (hinj : ∀ p p' q, (s'.procs p).pmq = some q → (s'.procs p').pmq = some q → p = p')
    (hsync : ∀ k p, (s.ms.hdr k).src = procNr p → (x = some p → x' = some p) ∧
      ((s.procs p).st.mbxSnd = true →
        (s'.procs p).st.mbxSnd = true ∧ (s'.procs p).pto = (s.procs p).pto))
    (hsent : ∀ p, x' ≠ some p → (s'.procs p).st.mbxSnd = true →
      x ≠ some p ∧ (s.procs p).st.mbxSnd = true)
    (hnrt : ∀ p, (s'.procs p).realtime = false → (s'.procs p).st = .clear)
    (hleaving : ∀ r, x' = some r → (s'.procs r).realtime = true ∧ (s'.procs r).ipcvt = none) :
    MsgOk x' s' := by
  have hlevel : ∀ k d q, (s.ms.hdr k).mtype ≠ .mbfree → (s.ms.hdr k).dst = procNr d →
      (s.procs d).pmq = some q → s'.ms.level q k = s.ms.level q k := by
    intro k d q hk hd hq
    rw [MsgSt.level, MsgSt.level, (hdst k d q hk hd hq).2, hdr]
  have hpl : entryPlace s' = entryPlace s := by
    funext k
    by_cases hk : (s.ms.hdr k).mtype = .mbfree
    · rw [entryPlace, entryPlace, hdr, if_pos hk, if_pos hk]
    · obtain ⟨d, q, l, hd, hq, -⟩ := h.dst k hk
      rw [entryPlace, entryPlace, hdr, if_neg hk, if_neg hk, hd, procAddr_procNr, bind_some,
        bind_some, (hdst k d q hk hd hq).1, hq, bind_some, bind_some, hlevel k d q hk hd hq]
  refine ⟨hpl ▸ hpool, fun k hk => ?_, ?_, hqueues, howner, hinj, fun k hk => ?_, ?_,
    fun p hx hp => ?_, hnrt, hleaving⟩
  · rw [hdr] at hk ⊢
    obtain ⟨d, q, l, hd, hq, hl⟩ := h.dst k hk
    exact ⟨d, q, l, hd, (hdst k d q hk hd hq).1, (hlevel k d q hk hd hq).trans hl⟩
  · rw [hdr]
    exact h.idle
  · rw [hdr] at hk ⊢
    obtain ⟨p, d, h1, h2, h3⟩ := h.sync k hk
    obtain ⟨h4, h5⟩ := hsync k p h1
    refine ⟨p, d, h1, h2, h3.imp h4 (fun ⟨h6, h7⟩ => ?_)⟩
    exact ⟨(h5 h6).1, (h5 h6).2.trans h7⟩
  · rw [hdr]
    exact h.uniq
  · rw [hdr]
    exact h.sent p (hsent p hx hp).1 (hsent p hx hp).2

/-- Nothing that the invariant reads has changed. -/
theorem MsgOk.same (h : MsgOk x s) (hm : SameMsgs s s')
    (hq : ∀ p, (s'.procs p).pmq = (s.procs p).pmq)
    (hrt : ∀ p, (s'.procs p).realtime = (s.procs p).realtime)
    (hipc : ∀ p, (s'.procs p).ipcvt = (s.procs p).ipcvt)
    (hsnd : ∀ p, (s'.procs p).st.mbxSnd = (s.procs p).st.mbxSnd ∧
      ((s.procs p).st.mbxSnd = true → (s'.procs p).pto = (s.procs p).pto))
    (hnrt : ∀ p, (s.procs p).realtime = false → (s'.procs p).st = .clear) : MsgOk x s' := by
  refine h.reform hm.hdr (h.pool.of_eq hm.chains hm.aux)
    (fun _ d q _ _ hd => ⟨(hq d).trans hd, hm.order q⟩) ?_ (fun p q hp => ?_)
    (fun p p' q hp hp' => h.inj p p' q (hq p ▸ hp) (hq p' ▸ hp'))
    (fun _ p _ => ⟨id, fun hs => ⟨(hsnd p).1.trans hs, (hsnd p).2 hs⟩⟩)
    (fun p hx hp => ⟨hx, (hsnd p).1 ▸ hp⟩) (fun p hp => hnrt p (hrt p ▸ hp)) (fun r hr => ?_)
  · rw [hm.free]
    exact h.queues.congr (fun q => by simp only [hq])
  · rw [hrt]
    exact h.owner p q (hq p ▸ hp)
  · exact ⟨(hrt r).trans (h.leaving r hr).1, (hipc r).trans (h.leaving r hr).2⟩

/-- A process changes its status, but neither starts nor ends a send. -/
theorem MsgOk.restat (h : MsgOk x s) (hm : SameMsgs s s') (hr : Restat p s s')
    (hsnd : (s'.procs p).st.mbxSnd = (s.procs p).st.mbxSnd)
    (hto : (s.procs p).st.mbxSnd = true → (s'.procs p).pto = (s.procs p).pto)
    (hnrt : (s.procs p).realtime = false → (s'.procs p).st = .clear) : MsgOk x s' := by
  refine h.same hm hr.pmq hr.realtime hr.ipcvt (fun i => ?_) (fun i hi => ?_)
  · by_cases hip : i = p
    · subst hip
      exact ⟨hsnd, hto⟩
    · rw [hr.other i hip]
      exact ⟨rfl, fun _ => rfl⟩
  · by_cases hip : i = p
    · subst hip
      exact hnrt hi
    · rw [hr.other i hip]
      exact h.nrt i hi

/-! ## A new entry -/

/-- The free entry `k` has become a message of `src` in the queue `q` of `d`. -/
structure Added (s s' : KState) (src d : Proc) (q : MsgQ) (t : MType) (k : Mqe) (l : Prty) :
    Prop where
  was : (s.ms.hdr k).mtype = .mbfree
  other : ∀ i, i ≠ k → s'.ms.hdr i = s.ms.hdr i
  mtype : (s'.ms.hdr k).mtype = t
  src : (s'.ms.hdr k).src = procNr src
  dst : (s'.ms.hdr k).dst = procNr d
  level : s'.ms.level q k = some l
  pool : s'.ms.pool.Placed (update (entryPlace s) k (some (.level q l)))
  free : s'.ms.free = s.ms.free
  order : ∀ i, (s'.ms.msgQ i).order = (s.ms.msgQ i).order

theorem updQ_order {g : MsgQRec → MsgQRec} (hg : ∀ r, (g r).order = r.order) (i : MsgQ) :
    ((m.updQ q g).msgQ i).order = (m.msgQ i).order := by
  rw [MsgSt.updQ]
  by_cases hi : i = q
  · subst hi
    simp [hg]
  · simp [hi]

/-- Appending to a queue that is not full. -/
theorem mqeApp_true (h : m.mqeApp q k = some (m', true)) :
    ∃ l, m.level q k = some l ∧ m.pool.papp q k l = some m'.pool ∧ m'.hdr = m.hdr ∧
      m'.free = m.free ∧ ∀ i, (m'.msgQ i).order = (m.msgQ i).order := by
  rw [MsgSt.mqeApp] at h
  split at h
  · cases h
  · simp only [bind_eq_bind, bind_eq_some_iff, some.injEq, Prod.mk.injEq, and_true] at h
    obtain ⟨l, hl, P, hP, rfl⟩ := h
    exact ⟨l, hl, hP, rfl, rfl, updQ_order (m := { m with pool := P }) (fun _ => rfl)⟩

/-- The first entry of the pool is free. -/
theorem MsgOk.first_free (h : MsgOk x s) (hf : s.ms.pool.first () = some k) :
    (s.ms.hdr k).mtype = .mbfree := by
  by_contra hne
  obtain ⟨d', q', l', h1, h2, -⟩ := h.dst k hne
  obtain ⟨l, -, hl⟩ := h.place hne h1 h2
  rw [h.pool.of_first hf] at hl
  cases hl

/-- `MRT_mqe_alloc`, the header, and `MRT_mqe_app`. -/
theorem MsgOk.added (h : MsgOk x s) {prty : Nat} {dl : BitVec 32}
    (hn : s.newEntry src d t prty dl = some (k, s1)) (he : s1.enqueue q k = some s') :
    ∃ l, Added s s' src d q t k l := by
  obtain ⟨hf, -, hpool, hfr, hmq, hhdr⟩ := newEntry_inv hn
  obtain ⟨happ, -⟩ := enqueue_inv he
  obtain ⟨l, hl, hP, hh, hfr', hord⟩ := mqeApp_true happ
  have hfree := h.pool.of_first hf
  have hwas := h.first_free hf
  have hnew : s'.ms.hdr k = s.mkHdr src d t prty dl := by
    rw [hh, hhdr, update_self]
  refine ⟨l, hwas, fun i hi => ?_, by rw [hnew]; rfl, by rw [hnew]; rfl, by rw [hnew]; rfl, ?_, ?_,
    hfr'.trans hfr, fun i => by rw [hord, hmq]⟩
  · rw [hh, hhdr, update_of_ne hi]
  · rw [← hl, MsgSt.level, MsgSt.level, hord, hh]
  · rw [hpool] at hP
    have hpl := (h.pool.rmv hfree).of_papp (by rw [update_self]) hP
    rw [update_idem] at hpl
    exact hpl

theorem Added.place (h : Added s s' src d q t k l) (ht : t ≠ .mbfree)
    (hq : (s.procs d).pmq = some q) (hp : ∀ i, (s'.procs i).pmq = (s.procs i).pmq) :
    entryPlace s' = update (entryPlace s) k (some (.level q l)) := by
  funext i
  by_cases hi : i = k
  · subst hi
    rw [update_self, entryPlace, h.mtype, if_neg ht, h.dst, procAddr_procNr,
      bind_some, hp, hq, bind_some, h.level]
    rfl
  · rw [update_of_ne hi]
    exact entryPlace_congr (h.other i hi) hp h.order

/-- An entry is added; it may be synchronous if its sender now waits in a send. -/
theorem MsgOk.add (h : MsgOk x s) (ha : Added s s' src d q t k l) (ht : t ≠ .mbfree)
    (hq : (s.procs d).pmq = some q) (hr : Restat src s s')
    (hsync : t.Sync → x = none ∧ (s.procs src).st.mbxSnd = false ∧
      (s'.procs src).st.mbxSnd = true ∧ (s'.procs src).pto = some d)
    (hasync : ¬ t.Sync → (s'.procs src).st.mbxSnd = (s.procs src).st.mbxSnd ∧
      (s'.procs src).pto = (s.procs src).pto)
    (hnrt : (s.procs src).realtime = false → (s'.procs src).st = .clear) : MsgOk x s' := by
  have hlv : ∀ q i, i ≠ k → s'.ms.level q i = s.ms.level q i := by
    intro q i hi
    rw [MsgSt.level, MsgSt.level, ha.order, ha.other i hi]
  -- a synchronous entry of `src` cannot have been there before
  have hnone : t.Sync → ∀ i, (s.ms.hdr i).mtype.Sync → (s.ms.hdr i).src ≠ procNr src := by
    intro hs i hi he
    obtain ⟨p, d', h1, -, h3⟩ := h.sync i hi
    rw [he, procNr_inj] at h1
    obtain ⟨hx, hf, -⟩ := hsync hs
    rw [hx, ← h1, hf] at h3
    simp at h3
  have hold : ∀ i, i ≠ k → (s'.ms.hdr i).mtype.Sync → (s.ms.hdr i).mtype.Sync := by
    intro i hi hs
    rw [ha.other i hi] at hs
    exact hs
  have hwas : ¬ (s.ms.hdr k).mtype.Sync := by
    rw [ha.was]
    decide
  refine ⟨?_, fun i hi => ?_, fun i hi => ?_, ?_, fun p i hp => ?_, fun p p' i hp hp' => ?_,
    fun i hi => ?_, fun i j hi hj hij => ?_, fun p hx hp => ?_, fun p hp => ?_, fun r hr' => ?_⟩
  · rw [ha.place ht hq hr.pmq]
    exact ha.pool
  · by_cases hik : i = k
    · subst hik
      exact ⟨d, q, l, ha.dst, (hr.pmq d).trans hq, ha.level⟩
    · rw [ha.other i hik] at hi ⊢
      obtain ⟨d', q', l', h1, h2, h3⟩ := h.dst i hi
      exact ⟨d', q', l', h1, (hr.pmq d').trans h2, (hlv q' i hik).trans h3⟩
  · by_cases hik : i = k
    · subst hik
      rw [ha.mtype] at hi
      exact absurd hi ht
    · rw [ha.other i hik] at hi ⊢
      exact h.idle i hi
  · rw [ha.free]
    exact h.queues.congr (fun i => by simp only [hr.pmq])
  · rw [hr.realtime]
    exact h.owner p i (hr.pmq p ▸ hp)
  · exact h.inj p p' i (hr.pmq p ▸ hp) (hr.pmq p' ▸ hp')
  · by_cases hik : i = k
    · subst hik
      rw [ha.mtype] at hi
      obtain ⟨-, -, h1, h2⟩ := hsync hi
      exact ⟨src, d, ha.src, ha.dst, .inr ⟨h1, h2⟩⟩
    · have hi' := hold i hik hi
      rw [ha.other i hik]
      obtain ⟨p, d', h1, h2, h3⟩ := h.sync i hi'
      refine ⟨p, d', h1, h2, h3.imp id (fun h4 => ?_)⟩
      by_cases hps : p = src
      · subst hps
        by_cases hts : t.Sync
        · exact absurd h1 (hnone hts i hi')
        · rw [(hasync hts).1, (hasync hts).2]
          exact h4
      · rw [hr.other p hps]
        exact h4
  · by_cases hik : i = k
    · by_cases hjk : j = k
      · rw [hik, hjk]
      · rw [hik, ha.mtype] at hi
        rw [hik, ha.src, ha.other j hjk] at hij
        exact absurd hij.symm (hnone hi j (hold j hjk hj))
    · by_cases hjk : j = k
      · rw [hjk, ha.mtype] at hj
        rw [hjk, ha.src, ha.other i hik] at hij
        exact absurd hij (hnone hj i (hold i hik hi))
      · rw [ha.other i hik, ha.other j hjk] at hij
        exact h.uniq i j (hold i hik hi) (hold j hjk hj) hij
  · by_cases hps : p = src ∧ t.Sync
    · exact ⟨k, by rw [ha.mtype]; exact hps.2, by rw [ha.src, hps.1]⟩
    · have hp' : (s.procs p).st.mbxSnd = true := by
        by_cases hpe : p = src
        · subst hpe
          rw [← (hasync (fun hts => hps ⟨rfl, hts⟩)).1]
          exact hp
        · rw [← hr.other p hpe]
          exact hp
      obtain ⟨i, hi, hsi⟩ := h.sent p hx hp'
      have hik : i ≠ k := by
        rintro rfl
        exact hwas hi
      exact ⟨i, by rw [ha.other i hik]; exact hi, by rw [ha.other i hik]; exact hsi⟩
  · rw [hr.realtime] at hp
    by_cases hps : p = src
    · subst hps
      exact hnrt hp
    · rw [hr.other p hps]
      exact h.nrt p hp
  · exact ⟨(hr.realtime r).trans (h.leaving r hr').1, (hr.ipcvt r).trans (h.leaving r hr').2⟩

/-! ## An entry goes back to the pool -/

/-- The entry `k` is free again. -/
structure Dropped (s s' : KState) (k : Mqe) : Prop where
  other : ∀ i, i ≠ k → s'.ms.hdr i = s.ms.hdr i
  self : s'.ms.hdr k = Hdr.rst
  pool : s'.ms.pool.Placed (update (entryPlace s) k (some (.plain ())))
  free : s'.ms.free = s.ms.free
  order : ∀ i, (s'.ms.msgQ i).order = (s.ms.msgQ i).order

/-- `MRT_mqe_free` of an unlinked entry. -/
theorem mqeFree_placed {pl : Mqe → Option (Slot Unit MsgQ 16)} (hP : m.pool.Placed pl)
    (hk : pl k = none) (h : m.mqeFree k = some m') :
    m'.pool.Placed (update pl k (some (.plain ()))) ∧
      m'.hdr = update m.hdr k Hdr.rst ∧ m'.free = m.free ∧ m'.msgQ = m.msgQ := by
  obtain ⟨P, hP', rfl⟩ := map_eq_some_iff.mp h
  exact ⟨(hP.rstLink hk).of_app hk hP', rfl, rfl, rfl⟩

/-- `MRT_mqe_rmv` of an entry from the queue it is in. -/
theorem MsgOk.mqeRmv (h : MsgOk x s) (hk : entryPlace s k = some (.level q l))
    (hm : s.ms.mqeRmv q k = some m) :
    m.pool.Placed (update (entryPlace s) k none) ∧ m.hdr = s.ms.hdr ∧
      m.free = s.ms.free ∧ ∀ i, (m.msgQ i).order = (s.ms.msgQ i).order := by
  obtain ⟨l', hl', rfl⟩ := map_eq_some_iff.mp hm
  have hl := (h.of_place hk).2.1
  rw [hl'] at hl
  cases hl
  exact ⟨h.pool.prmv hk, rfl, rfl, updQ_order (fun _ => rfl)⟩

theorem MsgOk.dropped_free (h : MsgOk x s) (hk : entryPlace s k = some (.level q l))
    (hm : s.ms.mqeRmv q k = some m) (hf : m.mqeFree k = some m') (hs : s'.ms = m') :
    Dropped s s' k := by
  subst hs
  obtain ⟨hP, hh, hfr, ho⟩ := h.mqeRmv hk hm
  obtain ⟨hP', hh', hfr', hq'⟩ := mqeFree_placed hP (by rw [update_self]) hf
  rw [update_idem] at hP'
  refine ⟨fun i hi => ?_, ?_, hP', hfr'.trans hfr, fun i => by rw [hq', ho]⟩
  · rw [hh', update_of_ne hi, hh]
  · rw [hh', update_self]

/-- The end of a receive and of the sweep over the pool. -/
theorem MsgOk.dropped (h : MsgOk x s) (hk : entryPlace s k = some (.level q l))
    (hd : s.dropEntry q k = some s') : Dropped s s' k := by
  obtain ⟨m, hm, hf, -, -⟩ := dropEntry_inv hd
  obtain ⟨hP, hh, hfr, ho⟩ := h.mqeRmv hk hm
  have hnone : update (entryPlace s) k none k = none := by rw [update_self]
  -- the entry is reset once more before `MRT_mqe_free` does it
  obtain ⟨hP', hh', hfr', hq'⟩ := mqeFree_placed (m := m.mqeRst k) (hP.rstLink hnone) hnone hf
  rw [update_idem] at hP'
  refine ⟨fun i hi => ?_, ?_, hP', hfr'.trans hfr, fun i => by rw [hq']; exact ho i⟩
  · rw [hh', update_of_ne hi, ← hh]
    exact update_of_ne hi _ _
  · rw [hh', update_self]

theorem Dropped.place (h : Dropped s s' k) (hp : ∀ i, (s'.procs i).pmq = (s.procs i).pmq) :
    entryPlace s' = update (entryPlace s) k (some (.plain ())) := by
  funext i
  by_cases hi : i = k
  · subst hi
    rw [update_self, entryPlace, h.self]
    rfl
  · rw [update_of_ne hi]
    exact entryPlace_congr (h.other i hi) hp h.order

/-- An entry is dropped; if its sender `p` waited for it, it does so no more. -/
theorem MsgOk.drop (h : MsgOk x s) (hd : Dropped s s' k) (hr : Restat p s s')
    (hsync : (s.ms.hdr k).mtype.Sync → (s.ms.hdr k).src = procNr p ∧
      (x = some p ∨ (s'.procs p).st.mbxSnd = false))
    (hasync : ¬ (s.ms.hdr k).mtype.Sync → s'.procs p = s.procs p)
    (hnrt : (s.procs p).realtime = false → (s'.procs p).st = .clear) : MsgOk x s' := by
  have hlv : ∀ q i, i ≠ k → s'.ms.level q i = s.ms.level q i := by
    intro q i hi
    rw [MsgSt.level, MsgSt.level, hd.order, hd.other i hi]
  have hfree : (s'.ms.hdr k).mtype = .mbfree := by rw [hd.self]; rfl
  have hnew : ¬ (s'.ms.hdr k).mtype.Sync := by
    rw [hfree]
    decide
  have hne : ∀ i, (s'.ms.hdr i).mtype.Sync → i ≠ k := by
    rintro i hi rfl
    exact hnew hi
  refine ⟨?_, fun i hi => ?_, fun i hi => ?_, ?_, fun i j hi => ?_, fun i i' j hi hi' => ?_,
    fun i hi => ?_, fun i j hi hj hij => ?_, fun i hx hi => ?_, fun i hi => ?_, fun r hr' => ?_⟩
  · rw [hd.place hr.pmq]
    exact hd.pool
  · have hik : i ≠ k := by
      rintro rfl
      exact hi hfree
    rw [hd.other i hik] at hi ⊢
    obtain ⟨d', q', l', h1, h2, h3⟩ := h.dst i hi
    exact ⟨d', q', l', h1, (hr.pmq d').trans h2, (hlv q' i hik).trans h3⟩
  · by_cases hik : i = k
    · subst hik
      rw [hd.self]
      rfl
    · rw [hd.other i hik] at hi ⊢
      exact h.idle i hi
  · rw [hd.free]
    exact h.queues.congr (fun i => by simp only [hr.pmq])
  · rw [hr.realtime]
    exact h.owner i j (hr.pmq i ▸ hi)
  · exact h.inj i i' j (hr.pmq i ▸ hi) (hr.pmq i' ▸ hi')
  · have hik := hne i hi
    rw [hd.other i hik] at hi ⊢
    obtain ⟨p', d', h1, h2, h3⟩ := h.sync i hi
    refine ⟨p', d', h1, h2, h3.imp id (fun h4 => ?_)⟩
    by_cases hpp : p' = p
    · subst hpp
      by_cases hks : (s.ms.hdr k).mtype.Sync
      · exact absurd (h.uniq i k hi hks (h1.trans (hsync hks).1.symm)) hik
      · rw [hasync hks]
        exact h4
    · rw [hr.other p' hpp]
      exact h4
  · have hik := hne i hi
    have hjk := hne j hj
    rw [hd.other i hik] at hi hij
    rw [hd.other j hjk] at hj hij
    exact h.uniq i j hi hj hij
  · have hold : (s.procs i).st.mbxSnd = true ∧
        ((s.ms.hdr k).mtype.Sync → (s.ms.hdr k).src ≠ procNr i) := by
      by_cases hip : i = p
      · subst hip
        by_cases hks : (s.ms.hdr k).mtype.Sync
        · rcases (hsync hks).2 with h1 | h1
          · exact absurd h1 hx
          · rw [hi] at h1
            cases h1
        · exact ⟨by rw [← hasync hks]; exact hi, fun hks' => absurd hks' hks⟩
      · refine ⟨by rw [← hr.other i hip]; exact hi, fun hks he => ?_⟩
        rw [(hsync hks).1, procNr_inj] at he
        exact hip he.symm
    obtain ⟨j, hj, hsj⟩ := h.sent i hx hold.1
    have hjk : j ≠ k := by
      rintro rfl
      exact hold.2 hj hsj
    exact ⟨j, by rw [hd.other j hjk]; exact hj, by rw [hd.other j hjk]; exact hsj⟩
  · rw [hr.realtime] at hi
    by_cases hip : i = p
    · subst hip
      exact hnrt hi
    · rw [hr.other i hip]
      exact h.nrt i hi
  · exact ⟨(hr.realtime r).trans (h.leaving r hr').1, (hr.ipcvt r).trans (h.leaving r hr').2⟩

/-! ## Message queues are allocated and freed -/

/-- A process leaves RT mode: it keeps its queue for the moment. -/
theorem MsgOk.leave (h : MsgOk none s) (hms : s'.ms = s.ms)
    (hp : ∀ i, i ≠ p → s'.procs i = s.procs i)
    (hself : s'.procs p = { s.procs p with pvt := none, ipcvt := none })
    (hrt : (s.procs p).realtime = true) : MsgOk (some p) s' := by
  have hst : ∀ i, (s'.procs i).st = (s.procs i).st ∧ (s'.procs i).pto = (s.procs i).pto ∧
      (s'.procs i).pmq = (s.procs i).pmq ∧ (s'.procs i).realtime = (s.procs i).realtime := by
    intro i
    by_cases hi : i = p
    · subst hi
      rw [hself]
      exact ⟨rfl, rfl, rfl, rfl⟩
    · rw [hp i hi]
      exact ⟨rfl, rfl, rfl, rfl⟩
  have hq : ∀ i, (s'.procs i).pmq = (s.procs i).pmq := fun i => (hst i).2.2.1
  refine h.reform (by rw [hms]) (by rw [hms]; exact h.pool)
    (fun _ d q _ _ hd => ⟨(hq d).trans hd, by rw [hms]⟩) ?_ (fun i j hi => ?_)
    (fun i i' j hi hi' => h.inj i i' j (hq i ▸ hi) (hq i' ▸ hi')) (fun _ i _ => ?_)
    (fun i _ hi => ⟨by simp, (hst i).1 ▸ hi⟩) (fun i hi => ?_) (fun r hr => ?_)
  · rw [hms]
    exact h.queues.congr (fun q => by simp only [hq])
  · rw [(hst i).2.2.2]
    exact h.owner i j (hq i ▸ hi)
  · rw [(hst i).1, (hst i).2.1]
    exact ⟨nofun, fun hs => ⟨hs, rfl⟩⟩
  · rw [(hst i).1]
    exact h.nrt i ((hst i).2.2.2 ▸ hi)
  · cases hr
    refine ⟨(hst p).2.2.2.trans hrt, ?_⟩
    rw [hself]

/-- The process that has left is a MINIX process again: no entry comes from it. -/
theorem MsgOk.back (h : MsgOk (some p) s) (hms : s'.ms = s.ms)
    (hp : ∀ i, i ≠ p → s'.procs i = s.procs i) (hst : (s'.procs p).st = .clear)
    (hq : (s.procs p).pmq = none) (hq' : (s'.procs p).pmq = none)
    (hsrc : ∀ k, (s.ms.hdr k).src ≠ procNr p) : MsgOk none s' := by
  have hpmq : ∀ i, (s'.procs i).pmq = (s.procs i).pmq := by
    intro i
    by_cases hi : i = p
    · rw [hi, hq, hq']
    · rw [hp i hi]
  have hne : ∀ {i j}, (s'.procs i).pmq = some j → i ≠ p := by
    rintro i j hi rfl
    rw [hq'] at hi
    cases hi
  refine h.reform (by rw [hms]) (by rw [hms]; exact h.pool)
    (fun _ d q _ _ hd => ⟨(hpmq d).trans hd, by rw [hms]⟩) ?_ (fun i j hi => ?_)
    (fun i i' j hi hi' => h.inj i i' j (hpmq i ▸ hi) (hpmq i' ▸ hi')) (fun k i hi => ?_)
    (fun i _ hi => ?_) (fun i hi => ?_) (fun r hr => nomatch hr)
  · rw [hms]
    exact h.queues.congr (fun q => by simp only [hpmq])
  · rw [hp i (hne hi)]
    exact h.owner i j (hpmq i ▸ hi)
  · have hip : i ≠ p := by
      rintro rfl
      exact hsrc k hi
    rw [hp i hip]
    exact ⟨fun e => absurd (some.inj e).symm hip, fun hs => ⟨hs, rfl⟩⟩
  · have hip : i ≠ p := by
      rintro rfl
      rw [hst] at hi
      cases hi
    exact ⟨fun e => hip (some.inj e).symm, hp i hip ▸ hi⟩
  · by_cases hip : i = p
    · rw [hip, hst]
    · rw [hp i hip] at hi ⊢
      exact h.nrt i hi

/-- Nothing is in a queue in which no entry is found. -/
theorem MsgOk.unnamed (h : MsgOk x s) (hk : s.ms.mqePick q anyProc = some none) (k : Mqe)
    (l : Prty) : entryPlace s k ≠ some (.level q l) := by
  intro hkl
  rcases h.pool.pick q (s.ms.accepts anyProc) with ⟨-, hall⟩ | ⟨i, l', hi, -, -⟩
  · have := hall k l hkl
    simp [MsgSt.accepts] at this
  · rw [MsgSt.mqePick] at hk
    rw [hk] at hi
    cases hi

/-- The leaving process gives its queue back, which is empty. -/
theorem MsgOk.dropQueue (h : MsgOk (some p) s) (hd : s.dropQueue p = some s') :
    MsgOk (some p) s' := by
  rcases dropQueue_inv hd with ⟨-, rfl⟩ | ⟨q, m, hq, hk, hm, hs'⟩
  · exact h
  obtain ⟨P, hP, rfl⟩ := map_eq_some_iff.mp hm
  have hms : s'.ms = { s.ms.msgQRst q with free := P } := by rw [hs']; rfl
  have hnone := h.unnamed hk
  have hrest : ∀ i, s'.procs i = { s.procs i with
      pmq := if i = p then none else (s.procs i).pmq } := by
    intro i
    rw [hs']
    by_cases hi : i = p
    · subst hi
      simp
    · rw [updProc_ne _ _ hi, if_neg hi]
  refine h.reform (by rw [hms]; rfl) ?_ (fun k d q' hne hkd hdq => ?_) ?_ (fun i j hi => ?_)
    (fun i i' j hi hi' => ?_) (fun k i _ => ?_) (fun i hx hi => ?_) (fun i hi => ?_)
    (fun r hr => ?_)
  · rw [hms]
    refine (h.pool.prst q).congr (fun k => ?_)
    cases hkp : entryPlace s k with
    | none => rfl
    | some i =>
      cases i with
      | plain u => rfl
      | level q' l =>
        have hq' : q' ≠ q := by
          rintro rfl
          exact hnone k l hkp
        simp [Option.filter, Slot.isLevel, hq']
  · obtain ⟨l, -, hl⟩ := h.place hne hkd hdq
    have hq' : q' ≠ q := fun e => hnone k l (e ▸ hl)
    have hdp : d ≠ p := by
      rintro rfl
      rw [hq] at hdq
      exact hq' (some.inj hdq).symm
    rw [hrest, if_neg hdp, hms]
    refine ⟨hdq, ?_⟩
    simp [MsgSt.msgQRst, MsgSt.updQ, hq']
  · have hqn : (if ∃ i, (s.procs i).pmq = some q then none
        else some (Slot.plain () : Slot Unit Empty 16)) = none := if_pos ⟨p, hq⟩
    have hfree := (h.queues.rstLink (x := q) hqn).of_app (l := ()) hqn hP
    rw [hms]
    refine hfree.congr (fun j => ?_)
    simp only [hrest]
    by_cases hj : j = q
    · subst hj
      rw [update_self, if_neg]
      rintro ⟨i, hi⟩
      split at hi
      · cases hi
      · rename_i hip
        exact hip (h.inj i p j hi hq)
    · rw [update_of_ne hj]
      congr 1
      refine propext ⟨?_, ?_⟩
      · rintro ⟨i, hi⟩
        split at hi
        · cases hi
        · exact ⟨i, hi⟩
      · rintro ⟨i, hi⟩
        refine ⟨i, ?_⟩
        rw [if_neg]
        · exact hi
        · rintro rfl
          rw [hq] at hi
          exact hj (some.inj hi).symm
  · rw [hrest] at hi ⊢
    split at hi
    · cases hi
    · exact h.owner i j hi
  · rw [hrest] at hi hi'
    split at hi
    · cases hi
    · split at hi'
      · cases hi'
      · exact h.inj i i' j hi hi'
  · rw [hrest]
    exact ⟨id, fun hs => ⟨hs, rfl⟩⟩
  · rw [hrest] at hi
    exact ⟨hx, hi⟩
  · rw [hrest] at hi ⊢
    exact h.nrt i hi
  · rw [hrest]
    exact h.leaving r hr

/-- A MINIX process gets a free queue and becomes an RT process. -/
theorem MsgOk.equip (h : MsgOk none s) {v : VT} {size owner : Int} {order inh : Bool}
    (hf : s.ms.free.first () = some q) (hrt : (s.procs p).realtime = false)
    (hms : s'.ms = (s.ms.msgQAlloc size order inh owner).2)
    (hp : ∀ i, i ≠ p → s'.procs i = s.procs i)
    (hself : s'.procs p = { s.procs p with pmq := some q, ipcvt := some v, realtime := true }) :
    MsgOk none s' := by
  have hmq : s'.ms.hdr = s.ms.hdr ∧ s'.ms.pool = s.ms.pool ∧
      s'.ms.free = s.ms.free.rmv () q ∧ ∀ i, i ≠ q → s'.ms.msgQ i = s.ms.msgQ i := by
    rw [hms, MsgSt.msgQAlloc, hf]
    refine ⟨rfl, rfl, rfl, fun i hi => ?_⟩
    simp [MsgSt.updQ, hi]
  obtain ⟨hhdr, hpool, hfree, hmq⟩ := hmq
  have hqf := h.queues.of_first hf
  have hno : ∀ i, (s.procs i).pmq ≠ some q := by
    intro i hi
    rw [if_pos ⟨i, hi⟩] at hqf
    cases hqf
  have hpn : (s.procs p).pmq = none := by
    cases hpq : (s.procs p).pmq with
    | none => rfl
    | some j =>
      rw [h.owner p j hpq] at hrt
      cases hrt
  have hst : ∀ i, (s'.procs i).st = (s.procs i).st ∧ (s'.procs i).pto = (s.procs i).pto := by
    intro i
    by_cases hi : i = p
    · subst hi
      rw [hself]
      exact ⟨rfl, rfl⟩
    · rw [hp i hi]
      exact ⟨rfl, rfl⟩
  refine h.reform hhdr (by rw [hpool]; exact h.pool) (fun k d j _ _ hd => ?_) ?_ (fun i j hi => ?_)
    (fun i i' j hi hi' => ?_) (fun k i _ => ?_) (fun i hx hi => ⟨hx, (hst i).1 ▸ hi⟩)
    (fun i hi => ?_) (by rintro _ ⟨⟩)
  · -- the queue of a live entry is neither `q` nor a queue of `p`
    have hdp : d ≠ p := by
      rintro rfl
      rw [hpn] at hd
      cases hd
    rw [hp d hdp, hmq j (fun e => hno d (e ▸ hd))]
    exact ⟨hd, rfl⟩
  · rw [hfree]
    refine (h.queues.rmv hqf).congr (fun j => ?_)
    by_cases hj : j = q
    · subst hj
      rw [update_self, if_pos]
      exact ⟨p, by rw [hself]⟩
    · rw [update_of_ne hj]
      congr 1
      refine propext ⟨?_, ?_⟩
      · rintro ⟨i, hi⟩
        by_cases hip : i = p
        · rw [hip, hself] at hi
          exact absurd (some.inj hi).symm hj
        · exact ⟨i, hp i hip ▸ hi⟩
      · rintro ⟨i, hi⟩
        have hip : i ≠ p := by
          rintro rfl
          rw [hpn] at hi
          cases hi
        exact ⟨i, by rw [hp i hip]; exact hi⟩
  · by_cases hip : i = p
    · rw [hip, hself]
    · rw [hp i hip] at hi ⊢
      exact h.owner i j hi
  · by_cases hip : i = p
    · by_cases hip' : i' = p
      · rw [hip, hip']
      · rw [hip, hself] at hi
        rw [hp i' hip', ← some.inj hi] at hi'
        exact absurd hi' (hno i')
    · by_cases hip' : i' = p
      · rw [hip', hself] at hi'
        rw [hp i hip, ← some.inj hi'] at hi
        exact absurd hi (hno i)
      · rw [hp i hip] at hi
        rw [hp i' hip'] at hi'
        exact h.inj i i' j hi hi'
  · rw [(hst i).1, (hst i).2]
    exact ⟨id, fun hs => ⟨hs, rfl⟩⟩
  · rw [(hst i).1]
    by_cases hip : i = p
    · rw [hip]
      exact h.nrt p hrt
    · rw [hp i hip] at hi
      exact h.nrt i hi

end Kernel
