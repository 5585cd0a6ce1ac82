import Minix4rt.RtSemaphoreProofs

/-! # Names of semaphores — `MRT_semalloc`, `MRT_semfree`, `MRT_exit` and `MRT_getsemid`

    A name is a field of 16 bytes.  `strncpy` fills it and `strcmp` compares it with the
    fields of ALL semaphores, the free ones included, whose name is the string `FREE`.

    As long as every name that is given to `MRT_semalloc` ends within its field, the names
    of allocated semaphores are distinct, and none is `FREE`, since a free semaphore is
    there to collide with.  A search then finds exactly the allocated semaphore, with ONE
    exception: the name `FREE` itself finds a free one. -/

namespace Kernel

open ListPool Vtimer KState Function Option

variable {e : Event} {x x' : Option Proc} {s s' s₀ : KState} {p c : Proc} {m : Sem} {v : Env}
  {f : Sem → Option Proc}

/-! ## What a move does to the semaphores -/

/-- The ways a move may treat the semaphores. -/
inductive SemCase (e : Event) (s s' : KState) : Prop where
  | kept : s'.ss = s.ss → SemCase e s s'
  | up {m j r} : s.semup m j = some (s', r) → SemCase e s s'
  | down {m t r} : s.semdown m t = some (s', r) → SemCase e s s'
  | alloc {v caller c a r} : e = .task v (.semalloc caller a) →
      s.semalloc v c a = some (s', r) → SemCase e s s'
  | free {rp m} : s.ss.alloc.first (some rp) = some m ∨
      (s.ss.sem m).owner ≠ hardware ∧ (s.ss.sem m).owner = procNr rp →
      s.semFree rp m = some s' → SemCase e s s'
  | reset {rp} : s.ss.alloc.first (some rp) = none → s' = s.procRst rp → SemCase e s s'

theorem stopTimer_ss {o : Option VT} (h : s.stopTimer o = some s') : s'.ss = s.ss := by
  obtain ⟨w, t, -, -, rfl⟩ := stopTimer_inv h
  rfl

theorem wakeFrom_ss {rp : Proc} (h : s.wakeFrom v rp = some s') : s'.ss = s.ss := by
  obtain ⟨s1, s2, h1, hcase, hs'⟩ := wakeFrom_cases h
  have h2 : s2.ss = s1.ss := by
    cases hcase with
    | idle he => rw [he]
    | tell h2 => exact (ksend_semsKept (by decide) (by decide) (Fin.isLt _) h2).ss
    | ready h2 => exact (readyIfClear_only h2).ss
  rcases hs' with rfl | rfl
  all_goals exact h2.trans (stopTimer_ss h1)

/-- No timer action touches a semaphore. -/
theorem action_ss {t : Timer} {c : Bool} (h : ActCase v s t s' c) : s'.ss = s.ss := by
  cases h with
  | idle _ => rfl
  | wake _ h1 => exact wakeFrom_ss h1
  | tell _ h1 => exact (ksend_semsKept (by decide) (by decide) (Fin.isLt _) h1).ss
  | sndto _ h1 =>
    obtain ⟨p, s1, -, -, ⟨-, hss, -⟩, -⟩ := actSndto_core h1
    exact hss
  | rcvfr _ h1 =>
    obtain ⟨p, -, ⟨-, hss, -⟩, -⟩ := actRcvfr_core h1
    exact hss
  | sndrcv _ h1 =>
    obtain ⟨p, -, ⟨-, hss, -⟩, -⟩ := actSndrcv_core h1
    exact hss
  | stop _ h1 =>
    simp only [actStop, bind_eq_bind, bind_eq_some_iff, some.injEq] at h1
    obtain ⟨rp, -, rfl⟩ := h1
    split <;> rfl
  | down _ h1 =>
    obtain ⟨p, -, ⟨-, hss, -⟩, -⟩ := actDown_core h1
    exact hss

theorem Move.semCase (hm : Move e (x, s) (x', s')) : SemCase e s s' := by
  cases hm with
  | book hb => exact .kept hb.ss
  | watch _ _ | writeAttr _ _ | tick _ _ => exact .kept rfl
  | inherit _ hs => exact .kept (inherit_only hs).ss
  | disinherit _ hs => exact .kept (disinherit_only hs).ss
  | deliver _ _ _ _ hu => exact .kept (unblockReceiver_semsKept hu).ss
  | queue _ _ _ _ _ _ _ hn hs => exact .kept (enqueued hn hs).ss
  | lose _ hn => exact .kept (newEntry_only hn).ss
  | send _ _ _ _ _ hn hs ha =>
    obtain ⟨t, rfl⟩ := armIpc_inv ha
    exact .kept (enqueued hn hs).ss
  | sendRecv _ _ _ _ _ _ hn hs hset hb =>
    obtain ⟨w, -, rfl⟩ := setIpcParam_inv hset
    exact .kept ((blockReply_rest hb).2.1.trans (enqueued hn hs).ss)
  | recvReply _ _ _ _ hset hb =>
    obtain ⟨w, -, rfl⟩ := setIpcParam_inv hset
    exact .kept (blockReply_rest hb).2.1
  | recv _ _ _ _ hb =>
    obtain ⟨t, o, -, rfl⟩ := blockReceive_only hb
    exact .kept rfl
  | take _ _ _ _ _ hr hd =>
    exact .kept ((dropEntry_only hd).ss.trans (releaseSender_semsKept hr).ss)
  | sleep _ hs =>
    rcases sleep_inv hs with rfl | ⟨t, rfl, -⟩
    all_goals exact .kept rfl
  | stop _ _ hs => exact .kept (stopTimer_ss hs)
  | wake _ _ hs _ hr =>
    have h1 := stopTimer_ss hs
    exact .kept ((readyIfClear_only hr).ss.trans h1)
  | semup _ _ _ hs | unlock _ _ hs => exact .up hs
  | semdown _ _ _ hs => exact .down hs
  | release _ _ _ _ h1 h2 h3 =>
    obtain rfl := sprocRmv_inv h1
    obtain ⟨t, rfl⟩ := stopTimerIf_only h2
    exact .kept (readyIfClear_only h3).ss
  | semalloc he _ _ hs => exact .alloc he hs
  | semFree _ hown hs =>
    rcases hown with ⟨_, _, -, hf⟩ | ⟨_, _, _, -, -, hne, ho⟩
    · exact .free (.inl hf) hs
    · exact .free (.inr ⟨hne, ho⟩) hs
  | set2rt _ _ hs =>
    rcases rtkSet2rt_inv hs with rfl | ⟨q, w, t, s1, -, -, -, h1, h2⟩
    · exact .kept rfl
    · exact .kept ((rdyQApp_only h2).ss.trans (unready_only h1).ss)
  | leave _ _ hd => exact .kept (leave_only hd).2.2.1
  | dropQueue hd =>
    rcases dropQueue_inv hd with ⟨-, rfl⟩ | ⟨q, m, -, -, -, rfl⟩
    all_goals exact .kept rfl
  | sweep _ _ _ hd => exact .kept (dropEntry_only hd).ss
  | back _ _ => exact .kept (backToMinix_only _ _).ss
  | procRst _ _ hf => exact .reset hf rfl
  | irqTimer ha hs =>
    obtain ⟨t, rfl⟩ := irqTimer_only ha hs
    exact .kept rfl
  | expire _ _ _ hr =>
    obtain ⟨s1, c, ha, hs', -⟩ := vtimerRun_inv hr
    have h1 := action_ss ha
    exact .kept (by rw [hs']; exact h1)

/-! ## The invariant -/

/-- The string that `MRT_sem_rst` writes into the name of a free semaphore. -/
def freeName : List UInt8 := SemRec.rst.name

/-- `f` tells who has allocated a semaphore: the free ones are named `FREE`, the others
    have distinct names that end within their field. -/
structure NamesOk (s : KState) (f : Sem → Option Proc) : Prop where
  placed : s.ss.alloc.Placed (fun m => some (.plain (f m)))
  owner : ∀ m, (s.ss.sem m).owner = (f m).elim hardware procNr
  short : ∀ m, (s.ss.sem m).name.length < 16
  free : ∀ m, f m = none → (s.ss.sem m).name = freeName
  taken : ∀ m, f m ≠ none → (s.ss.sem m).name ≠ freeName
  distinct : ∀ m m', f m ≠ none → (s.ss.sem m).name = (s.ss.sem m').name → m = m'

/-- Every name that is handed to `MRT_semalloc` ends within its field. -/
def Event.NameEnds : Event → Prop
  | .task _ (.semalloc _ a) => (cstr a.name).length < 16
  | _ => True

instance (e : Event) : Decidable e.NameEnds := by
  induction e using Event.casesOn with
  | task _ r => induction r using Request.casesOn <;> unfold Event.NameEnds <;> infer_instance
  | _ => unfold Event.NameEnds; infer_instance

/-- Allocation, owners and names are the same. -/
theorem NamesOk.kept (h : NamesOk s f) (ha : s'.ss.alloc = s.ss.alloc)
    (hs : ∀ m, (s'.ss.sem m).owner = (s.ss.sem m).owner ∧
      (s'.ss.sem m).name = (s.ss.sem m).name) : NamesOk s' f := by
  refine ⟨by rw [ha]; exact h.placed, fun m => (hs m).1.trans (h.owner m), fun m => ?_,
    fun m hm => (hs m).2.trans (h.free m hm), fun m hm => ?_, fun m m' hm he => ?_⟩
  · rw [(hs m).2]
    exact h.short m
  · rw [(hs m).2]
    exact h.taken m hm
  · rw [(hs m).2, (hs m').2] at he
    exact h.distinct m m' hm he

/-- One semaphore is written, and keeps its owner and its name. -/
theorem NamesOk.write (h : NamesOk s f) {r : SemRec} {L : Pool Proc Empty Sem 16}
    (hss : s'.ss = { s.ss with sem := update s.ss.sem m r, lock := L })
    (ho : r.owner = (s.ss.sem m).owner) (hn : r.name = (s.ss.sem m).name) : NamesOk s' f := by
  refine h.kept (by rw [hss]) (fun i => ?_)
  rw [hss]
  by_cases hi : i = m
  · subst hi
    simp only [update_self]
    exact ⟨ho, hn⟩
  · simp [hi]

theorem NamesOk.up (h : NamesOk s f) {j : Option Proc} {r : Code}
    (hs : s.semup m j = some (s', r)) :
    NamesOk s' f := by
  cases (semup_cases hs).2 with
  | refused _ he =>
    subst he
    exact h
  | wake _ _ _ _ _ hss | count _ _ _ hss => exact h.write hss rfl rfl

theorem NamesOk.down (h : NamesOk s f) {n : BitVec 32} {r : Code}
    (hs : s.semdown m n = some (s', r)) : NamesOk s' f := by
  cases semdown_cases hs with
  | refused _ he =>
    subst he
    exact h
  | wait _ _ _ hss | lock _ _ _ _ _ hss | count _ _ _ _ hss => exact h.write hss rfl rfl

/-- A name that ends within its field is what `strcmp` reads. -/
theorem NamesOk.semName_eq (h : NamesOk s f) (m : Sem) : s.semName m = (s.ss.sem m).name :=
  if_pos (h.short m)

/-- **`MRT_semalloc`**: the new name differs from all the names in the table, and so from
    that of the free semaphore which is taken. -/
theorem NamesOk.alloc (h : NamesOk s f) {a : SAttr} {r : Code} (ha : (cstr a.name).length < 16)
    (hs : s.semalloc v c a = some (s', r)) : ∃ f', NamesOk s' f' := by
  rcases semalloc_cases hs with rfl | ⟨m, pr, P, hfirst, -, hfresh, -, hP, rfl⟩
  · exact ⟨f, h⟩
  have hm : f m = none := by simpa using h.placed.of_first hfirst
  have htake : (cstr a.name).take 16 = cstr a.name := List.take_of_length_le (by omega)
  have hnew : ∀ i, (s.ss.sem i).name ≠ cstr a.name := by
    intro i
    rw [← h.semName_eq]
    exact hfresh i
  have hpl := (h.placed.rmv (by rw [hm])).of_app (update_self _ _ _) hP
  refine ⟨update f m (some c), hpl.congr (fun i => ?_), fun i => ?_, fun i => ?_,
    fun i hi => ?_, fun i hi => ?_, fun i i' hi he => ?_⟩
  · by_cases him : i = m
    · subst him
      simp
    · simp [him]
  · by_cases him : i = m
    · subst him
      simp
    · simp only [update_of_ne him]
      exact h.owner i
  · by_cases him : i = m
    · subst him
      simp only [update_self, htake]
      exact ha
    · simp only [update_of_ne him]
      exact h.short i
  · by_cases him : i = m
    · subst him
      rw [update_self] at hi
      cases hi
    · rw [update_of_ne him] at hi
      simp only [update_of_ne him]
      exact h.free i hi
  · by_cases him : i = m
    · subst him
      simp only [update_self, htake]
      -- the semaphore itself was free, so that the name `FREE` was in the table
      rw [← h.free i hm]
      exact (hnew i).symm
    · rw [update_of_ne him] at hi
      simp only [update_of_ne him]
      exact h.taken i hi
  · by_cases him : i = m
    · subst him
      by_contra hne
      have hne : i' ≠ i := fun e => hne e.symm
      simp only [update_self, update_of_ne hne, htake] at he
      exact hnew i' he.symm
    · rw [update_of_ne him] at hi
      by_cases him' : i' = m
      · subst him'
        simp only [update_self, update_of_ne him, htake] at he
        exact absurd he (hnew i)
      · simp only [update_of_ne him, update_of_ne him'] at he
        exact h.distinct i i' hi he

/-- **`MRT_sem_free`**: the semaphore is named `FREE` again. -/
theorem NamesOk.release (h : NamesOk s f) (hin : f m = some c) (hs : s.semFree c m = some s') :
    ∃ f', NamesOk s' f' := by
  have hnone : update (fun m => some (Slot.plain (f m))) m none m =
      (none : Option (Slot (Option Proc) Empty 16)) := update_self _ _ _
  obtain ⟨P, hP, rfl⟩ := map_eq_some_iff.mp hs
  have hpl := ((h.placed.rmv (by rw [hin])).rstLink hnone).of_app hnone hP
  refine ⟨update f m none, hpl.congr (fun i => ?_), fun i => ?_, fun i => ?_,
    fun i hi => ?_, fun i hi => ?_, fun i i' hi he => ?_⟩
  · by_cases him : i = m
    · subst him
      simp
    · simp [him]
  · by_cases him : i = m
    · subst him
      simp [semRst]
      rfl
    · simp only [semRst, update_of_ne him]
      exact h.owner i
  · by_cases him : i = m
    · subst him
      simp [semRst, SemRec.rst]
    · simp only [semRst, update_of_ne him]
      exact h.short i
  · by_cases him : i = m
    · subst him
      simp [semRst, freeName]
    · rw [update_of_ne him] at hi
      simp only [semRst, update_of_ne him]
      exact h.free i hi
  · by_cases him : i = m
    · subst him
      rw [update_self] at hi
      exact absurd rfl hi
    · rw [update_of_ne him] at hi
      simp only [semRst, update_of_ne him]
      exact h.taken i hi
  · have him : i ≠ m := by
      rintro rfl
      rw [update_self] at hi
      exact hi rfl
    rw [update_of_ne him] at hi
    by_cases him' : i' = m
    · subst him'
      simp only [semRst, update_self, update_of_ne him] at he
      exact absurd he (h.taken i hi)
    · simp only [semRst, update_of_ne him, update_of_ne him'] at he
      exact h.distinct i i' hi he

theorem NamesOk.reset (h : NamesOk s f) (hf : s.ss.alloc.first (some p) = none) :
    NamesOk (s.procRst p) f := by
  have hno : ∀ m, f m ≠ some p := by
    intro m hm
    exact h.placed.first_eq_none.mp hf m (by rw [hm])
  refine ⟨(h.placed.lrst (some p)).congr (fun m => ?_), h.owner, h.short, h.free, h.taken,
    h.distinct⟩
  rw [filter_some, if_pos]
  simpa using hno m

/-- A move keeps the invariant. -/
theorem NamesOk.move (h : NamesOk s f) (he : e.NameEnds) (hm : Move e (x, s) (x', s')) :
    ∃ f', NamesOk s' f' := by
  cases hm.semCase with
  | kept hss => exact ⟨f, h.kept (by rw [hss]) (fun m => by rw [hss]; exact ⟨rfl, rfl⟩)⟩
  | up hs => exact ⟨f, h.up hs⟩
  | down hs => exact ⟨f, h.down hs⟩
  | alloc hev hs =>
    subst hev
    exact h.alloc he hs
  | free hown hs =>
    refine h.release ?_ hs
    rcases hown with hf | ⟨hne, ho⟩
    · simpa using h.placed.of_first hf
    · rw [h.owner] at hne ho
      rename_i rp m
      cases hfm : f m with
      | none =>
        rw [hfm] at hne
        exact absurd rfl hne
      | some q =>
        rw [hfm] at ho
        rw [procNr_inj.mp ho]
  | reset hf hs =>
    subst hs
    exact ⟨f, h.reset hf⟩

theorem Initial.namesOk (h : Initial s) : NamesOk s (fun _ => none) := by
  obtain ⟨hpl, -, hrst⟩ := semInit h.ss
  refine ⟨hpl, fun m => ?_, fun m => ?_, fun m _ => ?_, fun m hm => absurd rfl hm,
    fun m m' hm => absurd rfl hm⟩
  · rw [hrst m]
    rfl
  · rw [hrst m]
    decide
  · rw [hrst m]
    rfl

/-- **RUNS** whose names end within their field. -/
theorem ReachBy.namesOk (h0 : Initial s₀) (h : ReachBy (fun _ e => e.NameEnds) s₀ s) :
    ∃ f, NamesOk s f := by
  refine ReachBy.invariant (I := fun _ s => ∃ f, NamesOk s f) (C := fun e _ => e.NameEnds)
    ⟨_, h0.namesOk⟩ (fun hi hok he => ?_) (fun hm hi hc => ?_) (fun _ _ hc _ => hc)
    (fun hi hp => ?_) h
  · obtain ⟨f, hf⟩ := hi
    have hss := he.sched.ss
    exact ⟨⟨f, hf.kept (by rw [hss]) (fun m => by rw [hss]; exact ⟨rfl, rfl⟩)⟩, hok⟩
  · obtain ⟨f, hf⟩ := hi
    exact hf.move hc hm
  · obtain ⟨f, hf⟩ := hi
    have hss := (pickProc_only hp).1.ss
    exact ⟨f, hf.kept (by rw [hss]) (fun m => by rw [hss]; exact ⟨rfl, rfl⟩)⟩

/-! ## The search -/

/-- `MRT_getsemid`; `sname` is the memory from the copy of the name on. -/
def KState.getsemid (v : Env) (s : KState) (caller : Proc) (sname : List UInt8) : Code :=
  if ¬ v.msg caller then .inval
  else match (List.finRange 16).find? (fun m => decide (s.semName m = cstr sname)) with
    | some m => .val m.val
    | none => .badSem

/-- The semaphore is in the list of a process that has allocated it. -/
def Allocated (s : KState) (m : Sem) : Prop := ∃ p, m ∈ s.ss.alloc.list (.plain (some p))

/-- The semaphore is allocated under the name of 16 bytes that starts `sname`. -/
def Under (s : KState) (sname : List UInt8) (m : Sem) : Prop :=
  Allocated s m ∧ (s.ss.sem m).name = (cstr sname).take 16

/-- The search answers the semaphore that is allocated under the name, and `E_MRT_BADSEM`
    when there is none. -/
structure Finds (s : KState) (v : Env) (caller : Proc) (sname : List UInt8) : Prop where
  found : ∀ m : Sem, s.getsemid v caller sname = .val m.val ↔ Under s sname m
  other : (∀ m, ¬ Under s sname m) → s.getsemid v caller sname = .badSem

theorem NamesOk.allocated (h : NamesOk s f) : Allocated s m ↔ f m ≠ none := by
  unfold Allocated
  simp only [h.placed.mem_list, some.injEq, Slot.plain.injEq]
  rw [ne_none_iff_exists']

/-- A name that ends within its field is the whole string. -/
theorem take_of_take {xs ys : List UInt8} (h : xs = ys.take 16) (hx : xs.length < 16) :
    ys = xs := by
  rw [h, List.length_take] at hx
  rw [h, List.take_of_length_le (by omega)]

/-- **THE SEARCH**, when the invariant holds. -/
theorem NamesOk.finds_iff (h : NamesOk s f) {sname : List UInt8} (hv : v.msg c = true) :
    Finds s v c sname ↔ cstr sname ≠ freeName ∨ ∀ m, Allocated s m := by
  have hget : s.getsemid v c sname = match (List.finRange 16).find?
      (fun m => decide ((s.ss.sem m).name = cstr sname)) with
    | some m => .val m.val
    | none => .badSem := by
    unfold KState.getsemid
    rw [if_neg (by rw [hv]; simp)]
    simp only [h.semName_eq]
  have hhit : ∀ {i}, (List.finRange 16).find? (fun m => decide ((s.ss.sem m).name = cstr sname))
      = some i → (s.ss.sem i).name = cstr sname := by
    intro i hi
    have hdec := List.find?_some hi
    exact of_decide_eq_true hdec
  constructor
  · intro hf
    by_contra hno
    rw [not_or, not_not, not_forall] at hno
    obtain ⟨hname, m, hm⟩ := hno
    -- a free semaphore has the name, so that the search finds one
    have hfree : (s.ss.sem m).name = cstr sname := by
      rw [hname]
      exact h.free m (by rw [h.allocated] at hm; exact not_not.mp hm)
    obtain ⟨i, hi⟩ := isSome_iff_exists.mp
      ((List.find?_isSome (p := fun m => decide ((s.ss.sem m).name = cstr sname))).mpr
        ⟨m, List.mem_finRange m, decide_eq_true hfree⟩)
    have hu := (hf.found i).mp (by rw [hget, hi])
    exact h.taken i (h.allocated.mp hu.1) ((hhit hi).trans hname)
  · intro hok
    have hunder : ∀ m, Under s sname m ↔ (s.ss.sem m).name = cstr sname := by
      intro m
      constructor
      · intro hu
        exact (take_of_take hu.2 (h.short m)).symm
      · intro hn
        have hlen := h.short m
        refine ⟨?_, ?_⟩
        · rw [h.allocated]
          intro hfm
          rcases hok with hne | hall
          · exact hne (hn.symm.trans (h.free m hfm))
          · exact h.allocated.mp (hall m) hfm
        · rw [hn] at hlen
          rw [hn, List.take_of_length_le (by omega)]
    refine ⟨fun m => ?_, fun hno => ?_⟩
    · rw [hget, hunder]
      cases hfd : (List.finRange 16).find? (fun m => decide ((s.ss.sem m).name = cstr sname)) with
      | none =>
        refine iff_of_false nofun (fun hn => ?_)
        exact absurd (decide_eq_true hn) (List.find?_eq_none.mp hfd m (List.mem_finRange m))
      | some i =>
        have hi := hhit hfd
        constructor
        · intro he
          have hval : (i.val : Int) = m.val := by simpa using he
          have him : i = m := Fin.ext (by exact_mod_cast hval)
          rw [← him]
          exact hi
        · intro hn
          have hu : Under s sname i := (hunder i).mpr hi
          rw [h.distinct i m (h.allocated.mp hu.1) (hi.trans hn.symm)]
    · rw [hget]
      cases hfd : (List.finRange 16).find? (fun m => decide ((s.ss.sem m).name = cstr sname)) with
      | none => rfl
      | some i =>
        exact absurd ((hunder i).mpr (hhit hfd)) (hno i)

/-- **NAMES OF SEMAPHORES.**  In every run whose names end within their field, allocated
    semaphores have distinct names, and a search for a name is right EXACTLY when the name
    is not `FREE` or no semaphore is free. -/
theorem sem_names_iff (h0 : Initial s₀) (h : ReachBy (fun _ e => e.NameEnds) s₀ s) :
    (∀ m m', Allocated s m → Allocated s m' → (s.ss.sem m).name = (s.ss.sem m').name → m = m') ∧
    ∀ v c sname, v.msg c = true →
      (Finds s v c sname ↔ cstr sname ≠ freeName ∨ ∀ m, Allocated s m) := by
  obtain ⟨f, hf⟩ := h.namesOk h0
  exact ⟨fun m m' hm _ he => hf.distinct m m' (hf.allocated.mp hm) he,
    fun v c sname hv => hf.finds_iff hv⟩

/-- The attributes of a semaphore with a name. -/
def plainSem (name : List UInt8) : SAttr :=
  { name := name, value := 1, priority := 5, order := false, inherit := false, mutex := false }

/-- Process 14 allocates two semaphores and frees the first one. -/
theorem sem_names_two : ∃ s, ReachBy (fun _ e => e.NameEnds) boot s ∧
    s.getsemid goodEnv 14 [98] = .val 1 ∧ Under s [98] 1 ∧
    s.getsemid goodEnv 14 [97] = .badSem := by
  obtain ⟨s, h, hs⟩ : ∃ s, ReachBy (fun _ e => e.NameEnds) boot s ∧
      s.getsemid goodEnv 14 [98] = .val 1 ∧
        s.getsemid goodEnv 14 [97] = .badSem :=
    ReachBy.of_run [.task goodEnv (.semalloc 114 (plainSem [97])),
      .task goodEnv (.semalloc 114 (plainSem [98])), .task goodEnv (.semfree 114 0)]
      (by decide +kernel)
  have hfinds := (sem_names_iff boot_initial h).2 goodEnv 14 [98] rfl
  exact ⟨s, h, hs.1, ((hfinds.mpr (.inl (by decide))).found 1).mp hs.1, hs.2⟩

/-- **THE DEFECTS.**  A search for `FREE` finds semaphore 0, which is free.  And a name of
    16 letters with one more behind it in memory can be allocated twice. -/
theorem free_semaphore_found :
    boot.getsemid goodEnv 14 [70, 82, 69, 69, 0] = .val 0 ∧ (boot.ss.sem 0).owner = hardware ∧
    ∃ s, ReachBy (fun _ _ => True) boot s ∧ Allocated s 0 ∧ Allocated s 1 ∧
      (s.ss.sem 0).name = (s.ss.sem 1).name := by
  obtain ⟨s, h, hs⟩ : ∃ s, ReachBy (fun _ _ => True) boot s ∧
      0 ∈ s.ss.alloc.list (.plain (some 14)) ∧
        1 ∈ s.ss.alloc.list (.plain (some 14)) ∧
        (s.ss.sem 0).name = (s.ss.sem 1).name :=
    ReachBy.of_run (List.replicate 2 (.task goodEnv
      (.semalloc 114 (plainSem (List.replicate 17 97))))) (by decide +kernel)
  exact ⟨by decide +kernel, by decide +kernel, s, h, ⟨14, hs.1⟩, ⟨14, hs.2.1⟩, hs.2.2⟩

end Kernel
