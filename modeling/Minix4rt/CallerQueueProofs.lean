import Minix4rt.RendezvousProofs
import Minix4rt.RtEventModelProofs
import Minix4rt.LinkChainProofs
import Minix4rt.MailboxProofs

/-! # Caller queues — who is queued where, and in which order messages are received

    A process that waits to send is linked through `p_sendlink` into the chain
    `p_callerq` of the process it sends to, and into no other.  The chain IS the list of
    the pending sends in the order in which they were queued, so a receive from `ANY`
    takes the oldest; and every message is copied once.

    The invariant needs a caller that is not in a chain already.  A MINIX process that is
    in one does not run.  An RT process does: `mini_send` takes nobody out of the RT ready
    queue. -/

namespace Kernel

open Vtimer KState LinkChain Function Option

variable {s s' s₀ : KState} {Q : Proc → List Proc} {c d p q : Proc} {dest src : Int}
  {prev : Option Proc}

/-! ## The invariant -/

/-- The chain of every `q` is the list `Q q`, and holds exactly the processes that are
    sending to `q`. -/
structure CallersOk (Q : Proc → List Proc) (s : KState) : Prop where
  chain : ∀ q, Chain s.mx.sendlink (s.mx.callerq q) (Q q)
  mem : ∀ p q, p ∈ Q q ↔ (s.mx.flags p).sending = true ∧ s.mx.sendto p = procNr q
  valid : ∀ p, (s.mx.flags p).sending = true → ∃ q, p ∈ Q q

/-- The chains and the wait graph stay as they are. -/
structure SameCalls (s s' : KState) : Prop extends SameSend s s' where
  callerq : s'.mx.callerq = s.mx.callerq
  sendlink : s'.mx.sendlink = s.mx.sendlink

theorem SameCalls.trans {s'' : KState} (h : SameCalls s s') (h' : SameCalls s' s'') :
    SameCalls s s'' :=
  ⟨h.toSameSend.trans h'.toSameSend, h'.callerq.trans h.callerq, h'.sendlink.trans h.sendlink⟩

theorem SameCalls.of_rdy (h : RdyOnly s s') : SameCalls s s' :=
  ⟨.of_rdy h, by rw [h.mx], by rw [h.mx]⟩

theorem SameCalls.setPFlags (p : Proc) {g : PFlags → PFlags}
    (hg : ∀ f, (g f).sending = f.sending) : SameCalls s (s.setPFlags p g) :=
  ⟨.setPFlags p hg, rfl, rfl⟩

theorem SameCalls.callersOk (h : SameCalls s s') (hs : CallersOk Q s) : CallersOk Q s' := by
  refine ⟨fun q => ?_, fun p q => ?_, fun p hp => ?_⟩
  · rw [h.sendlink, h.callerq]
    exact hs.chain q
  · rw [h.sending, h.sendto]
    exact hs.mem p q
  · rw [h.sending] at hp
    exact hs.valid p hp

/-- A process is in one chain at most. -/
theorem CallersOk.disjoint (h : CallersOk Q s) {q' : Proc} (hp : p ∈ Q q) (hp' : p ∈ Q q') :
    q = q' := by
  have h1 := ((h.mem p q).mp hp).2
  rw [((h.mem p q').mp hp').2, procNr_inj] at h1
  exact h1.symm

theorem CallersOk.notMem (h : CallersOk Q s) (hc : (s.mx.flags c).sending = false) (q : Proc) :
    c ∉ Q q := by
  intro hm
  rw [((h.mem c q).mp hm).1] at hc
  cases hc

/-- The loops over a chain end within their fuel. -/
theorem CallersOk.length_le (h : CallersOk Q s) (q : Proc) : (Q q).length ≤ 44 :=
  (h.chain q).length_le.trans (by decide)

/-! ## Sending -/

theorem lastSender_eq (s : KState) (n : Nat) (p : Proc) :
    s.lastSender n p = last s.mx.sendlink n p := by
  induction n generalizing p with
  | zero => rfl
  | succ n ih =>
    rw [lastSender, last]
    cases s.mx.sendlink p with
    | none => rfl
    | some q => exact ih q

theorem markSending_sending (s : KState) (c p : Proc) (dest : Int) :
    ((s.markSending c dest).mx.flags p).sending =
      if p = c then true else (s.mx.flags p).sending := by
  by_cases hp : p = c
  · subst hp
    simp [markSending, KState.setPFlags]
  · simp [markSending, KState.setPFlags, hp]

theorem markSending_sendto (s : KState) (c p : Proc) (dest : Int) :
    (s.markSending c dest).mx.sendto p = if p = c then dest else s.mx.sendto p := by
  by_cases hp : p = c
  · subst hp
    simp [markSending]
  · simp [markSending, KState.setPFlags, hp]

/-- Hooking `c` into the chain of `d`, as the links see it. -/
theorem joinCallers_chain (hch : ∀ q, Chain s.mx.sendlink (s.mx.callerq q) (Q q))
    (hc : ∀ q, c ∉ Q q) (hdis : ∀ p q q', p ∈ Q q → p ∈ Q q' → q = q')
    (h : s.joinCallers c d = some s') (q : Proc) :
    Chain s'.mx.sendlink (s'.mx.callerq q) (update Q d (Q d ++ [c]) q) := by
  rw [joinCallers] at h
  cases hd : s.mx.callerq d with
  | none =>
    simp only [hd, some.injEq] at h
    subst h
    have hnil : Q d = [] := by
      have := hch d
      rw [hd] at this
      exact this.unique (chain_nil.mpr rfl)
    by_cases hq : q = d
    · subst hq
      simp only [KState.setCallerq, KState.setSendlink, update_self, hnil]
      refine ⟨rfl, ?_⟩
      rw [update_self]
      rfl
    · simp only [KState.setCallerq, KState.setSendlink, update_of_ne hq]
      exact (hch q).update_of_notMem (hc q) none
  | some head =>
    simp only [hd] at h
    obtain ⟨l, hl, rfl⟩ := map_eq_some_iff.mp h
    have hchd := hch d
    rw [hd] at hchd
    obtain ⟨ys, l', hys, hlast⟩ := hchd.last_eq (n := 44) (hchd.length_le.trans (by decide))
    rw [lastSender_eq, hlast] at hl
    cases hl
    by_cases hq : q = d
    · subst hq
      simp only [KState.setSendlink, update_self]
      rw [hys] at hchd ⊢
      rw [hd, List.append_assoc]
      exact hchd.append (by rw [← hys]; exact hc q)
    · simp only [KState.setSendlink, update_of_ne hq]
      refine ((hch q).update_of_notMem ?_ (some c)).update_of_notMem (hc q) none
      exact fun hm => hq (hdis _ q d hm (by rw [hys]; simp))

/-- **A SEND THAT BLOCKS** puts its caller at the end of the chain of the destination. -/
theorem CallersOk.join (hs : CallersOk Q s) (hc : (s.mx.flags c).sending = false)
    (hd : procAddr dest = some d) (h : (s.markSending c dest).joinCallers c d = some s') :
    CallersOk (update Q d (Q d ++ [c])) s' := by
  have hlinks := joinCallers_links h
  refine ⟨joinCallers_chain (s := s.markSending c dest) hs.chain (hs.notMem hc)
    (fun _ _ _ => hs.disjoint) h, fun p q => ?_, fun p hp => ?_⟩
  · rw [hlinks.flags, hlinks.sendto, markSending_sending, markSending_sendto,
      procAddr_eq_some.mp hd]
    by_cases hp : p = c
    · subst hp
      by_cases hq : q = d
      · subst hq
        simp
      · have hn := hs.notMem hc q
        simp [hq, hn, Ne.symm hq]
    · by_cases hq : q = d
      · subst hq
        simp [hp, hs.mem]
      · simp [hq, hp, hs.mem]
  · rw [hlinks.flags, markSending_sending] at hp
    by_cases hpc : p = c
    · exact ⟨d, by simp [hpc]⟩
    · rw [if_neg hpc] at hp
      obtain ⟨q, hq⟩ := hs.valid p hp
      by_cases hqd : q = d
      · subst hqd
        exact ⟨q, by simp [hq]⟩
      · exact ⟨q, by rwa [update_of_ne hqd]⟩

/-! ## Receiving -/

theorem findSender_eq (s : KState) (src : Int) (n : Nat) (prev o : Option Proc) :
    s.findSender src n prev o =
      search s.mx.sendlink (fun p => src = any ∨ src = procNr p) n prev o := by
  induction n generalizing prev o with
  | zero => cases o <;> rfl
  | succ n ih =>
    cases o with
    | none => rfl
    | some p =>
      rw [findSender, search]
      split
      · rfl
      · exact ih _ _

/-- What `mini_rec` finds is the first sender of the chain that it accepts. -/
theorem CallersOk.found (hs : CallersOk Q s)
    (h : s.findSender src 44 none (s.mx.callerq c) = some (some (prev, p))) :
    ∃ as bs, Q c = as ++ p :: bs ∧ prev = as.getLast? ∧ (src = any → as = []) := by
  rw [findSender_eq] at h
  rcases (hs.chain c).search_eq (P := fun p => src = any ∨ src = procNr p)
    (hs.length_le c) with ⟨-, hn⟩ | ⟨as, y, bs, hl, hno, -, hy⟩
  · rw [hn] at h
    cases h
  · rw [hy] at h
    cases h
    refine ⟨as, bs, hl, by simp, fun hany => ?_⟩
    cases as with
    | nil => rfl
    | cons a as => exact absurd (.inl hany) (hno a (by simp))

/-- Unhooking `p` from the chain of `c`, as the links see it. -/
theorem unhook_chain {as bs : List Proc} (hch : ∀ q, Chain s.mx.sendlink (s.mx.callerq q) (Q q))
    (hdis : ∀ p q q', p ∈ Q q → p ∈ Q q' → q = q') (hl : Q c = as ++ p :: bs)
    (hprev : prev = as.getLast?)
    (h : (if s.mx.callerq c = some p then some (s.setCallerq c (s.mx.sendlink p))
      else prev.map (fun x => s.setSendlink x (s.mx.sendlink p))) = some s') (q : Proc) :
    Chain s'.mx.sendlink (s'.mx.callerq q) (update Q c ((Q c).erase p) q) := by
  have hchc := hch c
  rw [hl] at hchc
  have hp : p ∉ as := fun hp => List.disjoint_of_nodup_append hchc.nodup hp (by simp)
  rw [hl, erase_middle hchc.nodup]
  rcases List.eq_nil_or_concat as with rfl | ⟨as, x, rfl⟩
  · -- the sender is the first of the chain
    rw [if_pos hchc.1, some.injEq] at h
    subst h
    by_cases hq : q = c
    · subst hq
      simp only [KState.setCallerq, update_self, List.nil_append]
      exact hchc.2
    · simp only [KState.setCallerq, update_of_ne hq]
      exact hch q
  · rw [List.concat_eq_append] at hl hprev hp ⊢
    have hhead : s.mx.callerq c ≠ some p := by
      rw [hchc.head_eq]
      intro he
      exact hp (List.mem_of_mem_head? (by cases as <;> simp_all))
    rw [if_neg hhead, hprev, List.getLast?_concat, map_some, some.injEq] at h
    subst h
    by_cases hq : q = c
    · subst hq
      simp only [KState.setSendlink, update_self]
      have hchq := hch q
      rw [hl, List.append_assoc] at hchq
      rw [List.append_assoc]
      exact Chain.unlink hchq
    · simp only [KState.setSendlink, update_of_ne hq]
      refine (hch q).update_of_notMem (fun hm => hq (hdis x q c hm ?_)) _
      rw [hl]
      simp

/-- Of the flags, `mini_rec` changes the `SENDING` bit of the sender it takes. -/
theorem acceptFrom_frame (h : s.acceptFrom c prev p = some s') :
    (∀ q, s'.mx.flags q =
        if q = p then { s.mx.flags p with sending := false } else s.mx.flags q) ∧
      s'.mx.sendto = s.mx.sendto ∧ s'.mx.getfrom = s.mx.getfrom := by
  obtain ⟨s1, -, hlinks, rfl⟩ := acceptFrom_cases h
  have hrdy := readyIfZero_only (s1.setPFlags p (fun f => { f with sending := false })) p
  refine ⟨fun q => ?_, by rw [hrdy.mx]; exact hlinks.sendto, by rw [hrdy.mx]; exact hlinks.getfrom⟩
  rw [hrdy.flags]
  by_cases hq : q = p
  · subst hq
    simp [KState.setPFlags, hlinks.flags]
  · simp [KState.setPFlags, hq, hlinks.flags]

/-- **A RECEIVE** takes one sender out of its chain and releases it. -/
theorem CallersOk.accept (hs : CallersOk Q s)
    (hf : s.findSender src 44 none (s.mx.callerq c) = some (some (prev, p)))
    (h : s.acceptFrom c prev p = some s') :
    CallersOk (update Q c ((Q c).erase p)) s' := by
  obtain ⟨as, bs, hl, hprev, -⟩ := hs.found hf
  obtain ⟨hfl, hto, -⟩ := acceptFrom_frame h
  have hpc : p ∈ Q c := by simp [hl]
  have hmem : ∀ {x q}, x ≠ p → (x ∈ update Q c ((Q c).erase p) q ↔ x ∈ Q q) := by
    intro x q hx
    by_cases hq : q = c
    · subst hq
      rw [update_self, List.mem_erase_of_ne hx]
    · rw [update_of_ne hq]
  refine ⟨?_, fun x q => ?_, fun x hx => ?_⟩
  · obtain ⟨s1, h1, -, rfl⟩ := acceptFrom_cases h
    have hrdy := readyIfZero_only (s1.setPFlags p (fun f => { f with sending := false })) p
    have hch := unhook_chain hs.chain (fun _ _ _ => hs.disjoint) hl hprev h1
    rw [hrdy.mx]
    exact hch
  · rw [hfl, hto]
    by_cases hx : x = p
    · subst hx
      have hn : x ∉ update Q c ((Q c).erase x) q := by
        by_cases hq : q = c
        · subst hq
          simp [(hs.chain q).nodup.not_mem_erase]
        · rw [update_of_ne hq]
          exact fun hm => hq (hs.disjoint hm hpc)
      simp [hn]
    · rw [if_neg hx, hmem hx, hs.mem]
  · have hxp : x ≠ p := by
      rintro rfl
      simp [hfl] at hx
    rw [hfl, if_neg hxp] at hx
    obtain ⟨q, hq⟩ := hs.valid x hx
    exact ⟨q, (hmem hxp).mpr hq⟩

/-! ## Exit -/

theorem beforeSender_eq (s : KState) (c : Proc) (n : Nat) (p : Proc) :
    s.beforeSender c n p = before s.mx.sendlink c n p := by
  induction n generalizing p with
  | zero => rfl
  | succ n ih =>
    rw [beforeSender, before]
    cases s.mx.sendlink p with
    | none => rfl
    | some x =>
      simp only
      split
      · rfl
      · exact ih x

/-- A chain with `rc` taken out is the chain of which nothing is left to take. -/
theorem update_erase_apply {rc rp : Proc} (hdis : ∀ p q q', p ∈ Q q → p ∈ Q q' → q = q')
    (hnd : ∀ q, (Q q).Nodup) (hrp : rc ∈ Q rp) (q : Proc) :
    update Q rp ((Q rp).erase rc) q = (Q q).erase rc ∧
      rc ∉ update Q rp ((Q rp).erase rc) q := by
  by_cases hq : q = rp
  · subst hq
    simp [(hnd q).not_mem_erase]
  · have hn : rc ∉ Q q := fun hm => hq (hdis rc q rp hm hrp)
    simp [update_of_ne hq, List.erase_of_not_mem hn, hn]

/-- The loop of `do_xit` takes `rc` out of the one chain that may hold it. -/
theorem leaveCallers_chain {rc : Proc} {rps : List Proc}
    (hch : ∀ q, Chain s.mx.sendlink (s.mx.callerq q) (Q q))
    (hdis : ∀ p q q', p ∈ Q q → p ∈ Q q' → q = q') (hin : ∀ q, rc ∈ Q q → q ∈ rps)
    (h : leaveCallers rc rps s = some s') (q : Proc) :
    Chain s'.mx.sendlink (s'.mx.callerq q) ((Q q).erase rc) := by
  induction rps generalizing s Q with
  | nil =>
    cases h
    rw [List.erase_of_not_mem (fun hm => by simpa using hin q hm)]
    exact hch q
  | cons rp rps ih =>
    have hskip : rc ∉ Q rp → ∀ q, rc ∈ Q q → q ∈ rps := by
      intro hrp q hm
      rcases List.mem_cons.mp (hin q hm) with rfl | hq
      · exact absurd hm hrp
      · exact hq
    have hnd : ∀ q, (Q q).Nodup := fun q => (hch q).nodup
    rw [leaveCallers] at h
    have hchr := hch rp
    cases hh : s.mx.callerq rp with
    | none =>
      simp only [hh] at h
      rw [hh] at hchr
      refine ih hch hdis (hskip ?_) h
      simp [hchr.unique (chain_nil.mpr rfl)]
    | some head =>
      simp only [hh] at h
      rw [hh] at hchr
      split at h
      · -- `rc` heads the chain: the loop ends here
        rename_i he
        subst he
        cases h
        obtain ⟨xs, hxs⟩ := List.head?_eq_some_iff.mp hchr.head_eq.symm
        obtain ⟨hu, -⟩ := update_erase_apply hdis hnd (by simp [hxs] : head ∈ Q rp) q
        rw [← hu]
        by_cases hq : q = rp
        · subst hq
          rw [hxs] at hchr
          simp only [KState.setCallerq, update_self, hxs, List.erase_cons_head]
          exact hchr.2
        · simp only [KState.setCallerq, update_of_ne hq]
          exact hch q
      · rename_i hne
        rw [beforeSender_eq] at h
        rcases hchr.before_eq (n := 44) hne (hchr.length_le.trans (by decide)) with
          ⟨hn, hb⟩ | ⟨as, y, bs, hl, hb⟩
        · simp only [hb] at h
          exact ih hch hdis (hskip hn) h
        · -- `rc` is inside the chain; the rest of the loop finds it nowhere
          simp only [hb] at h
          have hrc : rc ∈ Q rp := by simp [hl]
          have herase : (Q rp).erase rc = as ++ y :: bs := by
            have hl' : Q rp = (as ++ [y]) ++ rc :: bs := by simp [hl]
            rw [hl', erase_middle (hl' ▸ hnd rp), List.append_assoc, List.singleton_append]
          have hu := update_erase_apply hdis hnd hrc
          have hgoal := ih (s := s.setSendlink y (s.mx.sendlink rc))
            (Q := update Q rp ((Q rp).erase rc)) (fun q => ?_)
            (fun p q q' hp hp' => ?_) (fun q hm => absurd hm (hu q).2) h
          · rwa [List.erase_of_not_mem (hu q).2, (hu q).1] at hgoal
          · by_cases hq : q = rp
            · subst hq
              rw [update_self, herase]
              have hchq := hch q
              rw [hl] at hchq
              exact Chain.unlink hchq
            · rw [update_of_ne hq]
              refine (hch q).update_of_notMem (fun hm => hq (hdis y q rp hm ?_)) _
              simp [hl]
          · rw [(hu q).1] at hp
            rw [(hu q').1] at hp'
            exact hdis p q q' (List.mem_of_mem_erase hp) (List.mem_of_mem_erase hp')

/-- **AN EXIT** takes the process out of the chains. -/
theorem CallersOk.xit {rc : Proc} {s1 : KState} (hs : CallersOk Q s)
    (h1 : s.unreadyIfZero rc = some s1)
    (h2 : (if (s.mx.flags rc).sending then leaveCallers rc (List.finRange 43) s1
      else some s1) = some s') :
    CallersOk (fun q => (Q q).erase rc) (s'.freeSlot rc) := by
  have hs1 := (SameCalls.of_rdy (unreadyIfZero_only h1)).callersOk hs
  have hs2 : (∀ q, Chain s'.mx.sendlink (s'.mx.callerq q) ((Q q).erase rc)) ∧
      LinksOnly s1 s' := by
    split at h2
    · exact ⟨leaveCallers_chain hs1.chain (fun _ _ _ => hs1.disjoint)
        (fun q _ => List.mem_finRange q) h2, leaveCallers_links h2⟩
    · rename_i hno
      cases h2
      refine ⟨fun q => ?_, _, _, rfl⟩
      rw [List.erase_of_not_mem (hs.notMem (by simpa using hno) q)]
      exact hs1.chain q
  have hfl : ∀ p, p ≠ rc → (s'.freeSlot rc).mx.flags p = s1.mx.flags p := by
    intro p hp
    simp [freeSlot, hp, hs2.2.flags]
  have hto : (s'.freeSlot rc).mx.sendto = s1.mx.sendto := hs2.2.sendto
  refine ⟨hs2.1, fun p q => ?_, fun p hp => ?_⟩
  · by_cases hp : p = rc
    · subst hp
      simp [freeSlot, PFlags.clear, (hs.chain q).nodup.not_mem_erase]
    · rw [List.mem_erase_of_ne hp, hs1.mem, hfl p hp, hto]
  · have hpr : p ≠ rc := by
      rintro rfl
      simp [freeSlot, PFlags.clear] at hp
    rw [hfl p hpr] at hp
    obtain ⟨q, hq⟩ := hs1.valid p hp
    exact ⟨q, (List.mem_erase_of_ne hpr).mpr hq⟩

/-! ## What the calls do to the messages -/

/-- `mini_send`: the message is copied at once, or waits in the chain of `dest`. -/
def KState.sendLog (s : KState) (c : Proc) (dest : Int) (addrOk : Bool) :
    List (Mailbox.Event Proc) :=
  match s.miniSend c dest addrOk, procAddr dest with
  | some (_, .ok), some d =>
    if s.awaits d c then [.sent c d, .received c d (s.mx.getfrom d = any)]
    else [.sent c d]
  | _, _ => []

/-- A receiver that blocks: MM may get the message of `inform`. -/
def KState.blockLog (s : KState) (c : Proc) (src : Int) : List (Mailbox.Event Proc) :=
  if (0 < s.mx.sigProcs ∧ c = mmProc ∧ src = any) ∧ s.firstPending.isSome then
    [.sent hardwareProc mmProc, .received hardwareProc mmProc true]
  else []

/-- `mini_rec`: the message of a sender of the chain is copied, or the receiver blocks.
    The message of a blocked interrupt was never sent. -/
def KState.recLog (s : KState) (c : Proc) (src : Int) : List (Mailbox.Event Proc) :=
  if (s.mx.flags c).sending then s.blockLog c src
  else match s.findSender src 44 none (s.mx.callerq c) with
    | none => []
    | some (some (_, p)) => [.received p c (src = any)]
    | some none =>
      if s.mx.intBlocked c ∧ isRxHardware src then [] else s.blockLog c src

/-- `sys_call`. -/
def KState.callLog (s : KState) (c : Proc) (fn : Fn) (n : Int) (addrOk : Bool) :
    List (Mailbox.Event Proc) :=
  if ¬ isOkSrcDest n ∨ isUser c ∧ fn ≠ .both then []
  else match fn with
    | .receive => s.recLog c n
    | .send => s.sendLog c n addrOk
    | .both =>
      match s.miniSend c n addrOk with
      | some (s1, .ok) => s.sendLog c n addrOk ++ s1.recLog c n
      | _ => []

/-- `do_xit`: the message of a sender that dies is never received. -/
def KState.xitLog (s : KState) (parent nr : Int) : List (Mailbox.Event Proc) :=
  match s.doXit parent nr, procAddr nr with
  | some (_, .ok), some rc => if (s.mx.flags rc).sending then [.killed rc] else []
  | _, _ => []

def KState.mxLog (s : KState) : MxEvent → List (Mailbox.Event Proc)
  | .call c fn n ok => s.callLog c fn n ok
  | .xit parent nr => s.xitLog parent nr

/-! ## The chains are mailboxes -/

/-- The chains, and what a process that receives from `ANY` owes to them: it would not
    wait if somebody were queued. -/
structure CallsOk (Q : Proc → List Proc) (s : KState) : Prop extends CallersOk Q s where
  front : ∀ q, (s.mx.flags q).receiving = true → (s.mx.flags q).sending = false →
    s.mx.getfrom q = any → Q q = []
  both : ∀ p, (s.mx.flags p).sending = true → (s.mx.flags p).receiving = true →
    s.mx.getfrom p ≠ any
  hardware : (s.mx.flags hardwareProc).sending = false

/-- No chain changes, and nobody new receives. -/
theorem CallsOk.frame (hs : CallsOk Q s) (hc : SameCalls s s')
    (hr : ∀ p, (s'.mx.flags p).receiving = true →
      (s.mx.flags p).receiving = true ∧ s'.mx.getfrom p = s.mx.getfrom p) :
    CallsOk Q s' := by
  refine ⟨hc.callersOk hs.toCallersOk, fun q hq hsq hg => ?_, fun p hp hrp => ?_, ?_⟩
  · obtain ⟨hq', hg'⟩ := hr q hq
    exact hs.front q hq' (by rw [← hc.sending]; exact hsq) (by rw [← hg']; exact hg)
  · obtain ⟨hq', hg'⟩ := hr p hrp
    rw [hg']
    exact hs.both p (by rw [← hc.sending]; exact hp) hq'
  · rw [hc.sending]
    exact hs.hardware

theorem CallsOk.rdy (hs : CallsOk Q s) (h : RdyOnly s s') : CallsOk Q s' := by
  refine hs.frame (.of_rdy h) fun p hp => ⟨?_, by rw [h.mx]⟩
  rwa [h.flags] at hp

/-- The state after `mini_send` has handed its message over. -/
theorem CallsOk.handed (hs : CallsOk Q s) (d : Proc) :
    CallsOk Q ((s.setPFlags d (fun f => { f with receiving := false })).readyIfZero d) := by
  have h1 : CallsOk Q (s.setPFlags d (fun f => { f with receiving := false })) := by
    refine hs.frame (.setPFlags d (fun _ => rfl)) fun p hp => ⟨?_, rfl⟩
    by_cases hpd : p = d
    · subst hpd
      simp [KState.setPFlags] at hp
    · simpa [KState.setPFlags, hpd] using hp
  exact h1.rdy (readyIfZero_only _ d)

/-- A message that is handed over enters the mailbox and leaves it at once; it leaves at
    the front, since nobody is queued at a process that waits for `ANY`. -/
theorem CallsOk.handed_steps (hs : CallsOk Q s) (hc : (s.mx.flags c).sending = false)
    (h : s.awaits d c = true) :
    Mailbox.Steps Q [.sent c d, .received c d (s.mx.getfrom d = any)] Q := by
  have hn := hs.notMem hc
  have h1 : Mailbox.Steps Q [.sent c d] (update Q d (Q d ++ [c])) :=
    (Mailbox.Step.sent hn).steps
  have h2 : Mailbox.Step (update Q d (Q d ++ [c]))
      (.received c d (decide (s.mx.getfrom d = any))) Q := by
    have hmem : c ∈ update Q d (Q d ++ [c]) d := by simp
    have hfront : decide (s.mx.getfrom d = any) = true →
        (update Q d (Q d ++ [c]) d).head? = some c := by
      intro hany
      simp only [awaits, Bool.and_eq_true, Bool.not_eq_true'] at h
      rw [update_self, hs.front d h.1.1 h.1.2 (of_decide_eq_true hany)]
      rfl
    have := Mailbox.Step.received hmem hfront
    rwa [update_self, update_idem, List.erase_append_right _ (hn d),
      List.erase_cons_head, List.append_nil, update_eq_self] at this
  exact h1.trans h2.steps

/-- A send that waits enters the mailbox of its addressee. -/
theorem CallsOk.queue {s1 : KState} (hs : CallsOk Q s) (hw : c ≠ hardwareProc)
    (hc : (s.mx.flags c).sending = false) (hr : (s.mx.flags c).receiving = false)
    (hd : procAddr dest = some d) (haw : s.awaits d c = false)
    (h1 : s.unreadyIfZero c = some s1)
    (h2 : (s1.markSending c dest).joinCallers c d = some s') :
    CallsOk (update Q d (Q d ++ [c])) s' := by
  have hrdy := unreadyIfZero_only h1
  have hs1 := hs.rdy hrdy
  have hfl := (joinCallers_links h2).flags
  have hget : s'.mx.getfrom = s.mx.getfrom := by
    rw [(joinCallers_links h2).getfrom]
    exact (congrArg Minix.getfrom hrdy.mx :)
  have hfl' : ∀ p, p ≠ c → s'.mx.flags p = s.mx.flags p := by
    intro p hp
    rw [hfl]
    simp [markSending, KState.setPFlags, hp, hrdy.flags]
  have hflc : (s'.mx.flags c).sending = true ∧ (s'.mx.flags c).receiving = false := by
    rw [hfl]
    simp [markSending, KState.setPFlags, hrdy.flags, hr]
  refine ⟨hs1.toCallersOk.join (by rw [hrdy.flags]; exact hc) hd h2, ?_, ?_, ?_⟩
  · intro q hq hsq hg
    have hqc : q ≠ c := by
      rintro rfl
      rw [hflc.1] at hsq
      cases hsq
    rw [hfl' q hqc] at hq hsq
    rw [hget] at hg
    have hqd : q ≠ d := by
      rintro rfl
      simp [awaits, hq, hsq, hg] at haw
    rw [update_of_ne hqd]
    exact hs.front q hq hsq hg
  · intro p hp hrp
    have hpc : p ≠ c := by
      rintro rfl
      rw [hflc.2] at hrp
      cases hrp
    rw [hfl' p hpc] at hp hrp
    rw [hget]
    exact hs.both p hp hrp
  · rw [hfl' _ hw.symm]
    exact hs.hardware

/-- **`mini_send` ON THE MAILBOXES.** -/
theorem CallsOk.send {ok : Bool} {r : Code} (hs : CallsOk Q s) (hw : c ≠ hardwareProc)
    (hc : (s.mx.flags c).sending = false) (hr : (s.mx.flags c).receiving = false)
    (h : s.miniSend c dest ok = some (s', r)) :
    ∃ Q', Mailbox.Steps Q (s.sendLog c dest ok) Q' ∧ CallsOk Q' s' := by
  rw [sendLog, h]
  rcases miniSend_cases h with ⟨hne, rfl⟩ | ⟨rfl, d, hd, -, hsend⟩
  · refine ⟨Q, ?_, hs⟩
    cases r <;> first | exact absurd rfl hne | exact .refl
  · simp only [hd]
    cases hsend with
    | direct haw he =>
      rw [if_pos haw, he]
      exact ⟨Q, hs.handed_steps hc haw, hs.handed d⟩
    | queued haw _ h1 h2 =>
      rw [if_neg (by simp [haw])]
      exact ⟨_, (Mailbox.Step.sent (hs.notMem hc)).steps, hs.queue hw hc hr hd haw h1 h2⟩

/-- `inform` hands its message to MM, which waits for `ANY`. -/
theorem CallsOk.inform (hs : CallsOk Q s) (hr : (s.mx.flags mmProc).receiving = true)
    (hsm : (s.mx.flags mmProc).sending = false) (hg : s.mx.getfrom mmProc = any)
    (h : s.inform = some s') :
    Mailbox.Steps Q (if s.firstPending.isSome then
      [.sent hardwareProc mmProc, .received hardwareProc mmProc true] else []) Q ∧
      CallsOk Q s' := by
  rcases inform_cases h with ⟨hn, rfl⟩ | ⟨rp, s1, hrp, h1, h2⟩
  · rw [hn]
    exact ⟨.refl, hs⟩
  have haw : s.awaits mmProc hardwareProc = true := by simp [awaits, hr, hsm, hg]
  have hst := hs.handed_steps hs.hardware haw
  rw [hg] at hst
  refine ⟨by simpa [hrp] using hst, ?_⟩
  rcases miniSend_cases h1 with ⟨hne, -⟩ | ⟨-, d, hd, -, hsend⟩
  · exact absurd rfl hne
  obtain rfl : mmProc = d := by
    rw [procAddr_procNr] at hd
    exact some.inj hd
  have hs1 : CallsOk Q s1 := by
    cases hsend with
    | direct _ he =>
      have hs0 : CallsOk Q { s with mx := { s.mx with sigProcs := s.mx.sigProcs - 1 } } :=
        hs.frame ⟨⟨rfl, fun _ => rfl⟩, rfl, rfl⟩ (fun _ hp => ⟨hp, rfl⟩)
      rw [he]
      exact hs0.handed _
    | queued hno _ _ _ =>
      rw [awaits] at haw hno
      rw [haw] at hno
      cases hno
  have hs2 : CallsOk Q (s1.informed rp) := by
    refine hs1.frame ⟨.informed rp, rfl, rfl⟩ fun p hp => ⟨?_, rfl⟩
    by_cases hpr : p = rp
    · subst hpr
      simpa [informed] using hp
    · simpa [informed, hpr] using hp
  obtain ⟨-, hmx⟩ := pickProc_only h2
  refine hs2.frame ⟨.of_mx hmx, by rw [hmx], by rw [hmx]⟩ fun p hp => ?_
  rw [hmx] at hp ⊢
  exact ⟨hp, rfl⟩

section Block

variable {s1 : KState} (hrdy : RdyOnly { s with mx := { s.mx with
  getfrom := update s.mx.getfrom c src } } s1)
include hrdy

theorem blocked_flags (p : Proc) :
    (s1.setPFlags c (fun f => { f with receiving := true })).mx.flags p =
      if p = c then { s.mx.flags c with receiving := true } else s.mx.flags p := by
  by_cases hp : p = c
  · subst hp
    simp [KState.setPFlags, hrdy.flags]
  · simp [KState.setPFlags, hp, hrdy.flags]

theorem blocked_getfrom (p : Proc) :
    (s1.setPFlags c (fun f => { f with receiving := true })).mx.getfrom p =
      if p = c then src else s.mx.getfrom p := by
  have hg : s1.mx.getfrom = update s.mx.getfrom c src := by rw [hrdy.mx]
  by_cases hp : p = c
  · subst hp
    simp [KState.setPFlags, hg]
  · simp [KState.setPFlags, hp, hg]

theorem blocked_same : SameCalls s (s1.setPFlags c (fun f => { f with receiving := true })) := by
  have h0 : SameCalls s { s with mx := { s.mx with
      getfrom := update s.mx.getfrom c src } } := ⟨⟨rfl, fun _ => rfl⟩, rfl, rfl⟩
  have h1 := SameCalls.setPFlags (s := s1) c (g := fun f => { f with receiving := true })
    (fun _ => rfl)
  exact (h0.trans (.of_rdy hrdy)).trans h1

theorem blocked_firstPending :
    (s1.setPFlags c (fun f => { f with receiving := true })).firstPending = s.firstPending := by
  unfold firstPending
  congr 1
  funext p
  rw [blocked_flags hrdy]
  split
  · rename_i hp
    rw [hp]
  · rfl

/-- A receiver is marked. -/
theorem CallsOk.marked (hs : CallsOk Q s) (hsrc : (s.mx.flags c).sending = true → src ≠ any)
    (hempty : (s.mx.flags c).sending = false → src = any → Q c = []) :
    CallsOk Q (s1.setPFlags c (fun f => { f with receiving := true })) := by
  have hfl := blocked_flags hrdy
  have hgf := blocked_getfrom hrdy
  have hsame := blocked_same hrdy
  refine ⟨hsame.callersOk hs.toCallersOk, fun q hq hsq hg => ?_, fun p hp hrp => ?_, ?_⟩
  · rw [hfl] at hq hsq
    rw [hgf] at hg
    by_cases hqc : q = c
    · subst hqc
      rw [if_pos rfl] at hsq hg
      exact hempty hsq hg
    · rw [if_neg hqc] at hq hsq hg
      exact hs.front q hq hsq hg
  · rw [hfl] at hp hrp
    rw [hgf]
    by_cases hpc : p = c
    · subst hpc
      rw [if_pos rfl] at hp ⊢
      exact hsrc hp
    · rw [if_neg hpc] at hp hrp ⊢
      exact hs.both p hp hrp
  · rw [hsame.sending]
    exact hs.hardware

end Block

/-- A receiver blocks. -/
theorem CallsOk.block (hs : CallsOk Q s) (hsrc : (s.mx.flags c).sending = true → src ≠ any)
    (hempty : (s.mx.flags c).sending = false → src = any → Q c = [])
    (h : s.blockReceiver c src = some s') :
    Mailbox.Steps Q (s.blockLog c src) Q ∧ CallsOk Q s' := by
  obtain ⟨s1, h1, hend⟩ := blockReceiver_cases h
  have hrdy := unreadyIfZero_only h1
  have hs2 := hs.marked hrdy hsrc hempty
  rw [blockLog]
  rcases hend with ⟨hno, rfl⟩ | ⟨hsig, rfl, rfl, hinf⟩
  · rw [if_neg (fun hc => hno hc.1)]
    exact ⟨.refl, hs2⟩
  · have hsm : (s.mx.flags mmProc).sending = false := by
      by_contra hne
      exact hsrc (by simpa using hne) rfl
    have hres := hs2.inform (by rw [blocked_flags hrdy]; simp)
      (by rw [(blocked_same hrdy).sending]; exact hsm)
      (by rw [blocked_getfrom hrdy]; simp) hinf
    rw [blocked_firstPending hrdy] at hres
    simpa [hsig] using hres

/-- A sender is taken: nobody else starts to receive. -/
theorem CallsOk.take (hs : CallsOk Q s)
    (hf : s.findSender src 44 none (s.mx.callerq c) = some (some (prev, p)))
    (h : s.acceptFrom c prev p = some s') :
    Mailbox.Steps Q [.received p c (src = any)] (update Q c ((Q c).erase p)) ∧
      CallsOk (update Q c ((Q c).erase p)) s' := by
  obtain ⟨as, bs, hl, -, hfirst⟩ := hs.found hf
  have hpc : p ∈ Q c := by simp [hl]
  have hfront : decide (src = any) = true → (Q c).head? = some p := by
    intro hany
    rw [hl, hfirst (of_decide_eq_true hany)]
    rfl
  obtain ⟨hfl, -, hget⟩ := acceptFrom_frame h
  refine ⟨(Mailbox.Step.received hpc hfront).steps, hs.toCallersOk.accept hf h,
    fun q hq hsq hg => ?_, fun x hx hrx => ?_, ?_⟩
  · rw [hfl] at hq hsq
    rw [hget] at hg
    by_cases hqp : q = p
    · -- the sender that is released may receive, but not from `ANY`
      subst hqp
      rw [if_pos rfl] at hq
      exact absurd hg (hs.both q ((hs.mem q c).mp hpc).1 hq)
    · rw [if_neg hqp] at hq hsq
      have hnil := hs.front q hq hsq hg
      by_cases hqc : q = c
      · subst hqc
        rw [hnil] at hpc
        cases hpc
      · rwa [update_of_ne hqc]
  · rw [hfl] at hx hrx
    rw [hget]
    by_cases hxp : x = p
    · subst hxp
      rw [if_pos rfl] at hx
      cases hx
    · rw [if_neg hxp] at hx hrx
      exact hs.both x hx hrx
  · rw [hfl]
    split
    · rfl
    · exact hs.hardware

/-- **`mini_rec` ON THE MAILBOXES.** -/
theorem CallsOk.receive {r : Code} (hs : CallsOk Q s)
    (hsrc : (s.mx.flags c).sending = true → src ≠ any)
    (h : s.miniRec c src = some (s', r)) :
    ∃ Q', Mailbox.Steps Q (s.recLog c src) Q' ∧ CallsOk Q' s' := by
  rw [recLog]
  obtain ⟨-, ⟨hc, prev, p, hf, h⟩ | ⟨hc, hf, hi, hx, rfl⟩ | ⟨hb, h⟩⟩ := miniRec_cases h
  · rw [if_neg (by simp [hc]), hf]
    exact ⟨_, hs.take hf h⟩
  · simp only [hc, hf, hi, hx, if_true, and_self]
    exact ⟨Q, .refl, hs.frame ⟨⟨rfl, fun _ => rfl⟩, rfl, rfl⟩ (fun _ hp => ⟨hp, rfl⟩)⟩
  · refine ⟨Q, ?_⟩
    by_cases hc : (s.mx.flags c).sending = true
    · rw [if_pos hc]
      exact hs.block hsrc (fun hc' => absurd hc (by simp [hc'])) h
    · obtain ⟨hf, hno⟩ := hb.resolve_left hc
      simp only [if_neg hc, hf, if_neg hno]
      refine hs.block hsrc (fun _ hany => ?_) h
      -- the search takes whatever is first, so the chain is empty
      rw [findSender_eq] at hf
      rcases (hs.chain c).search_eq (P := fun p => src = any ∨ src = procNr p)
        (hs.length_le c) with ⟨hno, -⟩ | ⟨as, y, bs, -, -, -, hy⟩
      · exact List.eq_nil_iff_forall_not_mem.mpr (fun x hx => hno x hx (.inl hany))
      · rw [hy] at hf
        cases hf

/-! ## Runs -/

/-- The caller is free: it is in no chain, and it sends only when it does not receive.
    The kernel itself makes no calls. -/
def KState.FreeCaller (s : KState) : MxEvent → Prop
  | .call c fn _ _ => c ≠ hardwareProc ∧ (s.mx.flags c).sending = false ∧
      (fn ≠ .receive → (s.mx.flags c).receiving = false)
  | .xit _ _ => True

/-- The states that runs with free callers reach, with what happened to the messages. -/
inductive FreeRun (s₀ : KState) : KState → List (Mailbox.Event Proc) → Prop where
  | start : FreeRun s₀ s₀ []
  | step {s s' : KState} {L : List (Mailbox.Event Proc)} {e : MxEvent} :
      FreeRun s₀ s L → s.FreeCaller e → s.mxStep e = some s' →
      FreeRun s₀ s' (L ++ s.mxLog e)

theorem any_procAddr : procAddr any = none := by decide

theorem CallsOk.call {fn : Fn} {n : Int} {ok : Bool} {r : Code} (hs : CallsOk Q s)
    (hc : s.FreeCaller (.call c fn n ok)) (h : s.sysCall c fn n ok = some (s', r)) :
    ∃ Q', Mailbox.Steps Q (s.callLog c fn n ok) Q' ∧ CallsOk Q' s' := by
  obtain ⟨hw, hsc, hrc⟩ := hc
  unfold callLog
  rcases sysCall_cases h with ⟨hno, rfl⟩ | ⟨hn, hu, hcase⟩
  · rw [if_pos (by simpa using hno)]
    exact ⟨Q, .refl, hs⟩
  rw [if_neg (by simpa [hn] using hu)]
  rcases hcase with ⟨rfl, hm⟩ | ⟨rfl, hm⟩ | ⟨rfl, s1, h1, hm⟩ | ⟨rfl, hr, hm⟩
  · exact hs.receive (fun he => absurd he (by simp [hsc])) hm
  · exact hs.send hw hsc (hrc (by simp)) hm
  · obtain ⟨Q1, hst1, hs1⟩ := hs.send hw hsc (hrc (by simp)) h1
    have hany : n ≠ any := by
      rcases miniSend_cases h1 with ⟨hne, -⟩ | ⟨-, d, hd, -⟩
      · exact absurd rfl hne
      · rintro rfl
        rw [any_procAddr] at hd
        cases hd
    obtain ⟨Q2, hst2, hs2⟩ := hs1.receive (fun _ => hany) hm
    simp only [h1]
    exact ⟨Q2, hst1.trans hst2, hs2⟩
  · obtain ⟨Q1, -, hs1⟩ := hs.send hw hsc (hrc (by simp)) hm
    rcases miniSend_cases hm with ⟨-, rfl⟩ | ⟨rfl, -⟩
    · simp only [hm]
      refine ⟨Q, ?_, hs⟩
      cases r <;> first | exact absurd rfl hr | exact .refl
    · exact absurd rfl hr

theorem CallsOk.exit {parent nr : Int} {r : Code} (hs : CallsOk Q s)
    (h : s.doXit parent nr = some (s', r)) :
    ∃ Q', Mailbox.Steps Q (s.xitLog parent nr) Q' ∧ CallsOk Q' s' := by
  rw [xitLog, h]
  rcases doXit_cases h with ⟨hne, rfl⟩ | ⟨rfl, rc, s1, s2, hrc, hpos, h1, h2, hlinks, rfl⟩
  · refine ⟨Q, ?_, hs⟩
    cases r <;> first | exact absurd rfl hne | exact .refl
  simp only [hrc]
  have hrdy := unreadyIfZero_only h1
  have hfl : ∀ p, p ≠ rc → (s2.freeSlot rc).mx.flags p = s.mx.flags p := by
    intro p hp
    rw [freeSlot_flags, if_neg hp, hlinks.flags, hrdy.flags]
  have hrc' := (freeSlot_flags s2 rc rc).trans (if_pos rfl)
  have hget : (s2.freeSlot rc).mx.getfrom = s.mx.getfrom :=
    hlinks.getfrom.trans (congrArg Minix.getfrom hrdy.mx :)
  refine ⟨fun q => (Q q).erase rc, ?_, hs.toCallersOk.xit h1 h2, fun q hq hsq hg => ?_,
    fun p hp hrp => ?_, ?_⟩
  · split
    · rename_i hsend
      obtain ⟨d, hd⟩ := hs.valid rc hsend
      have hfun : (fun q => (Q q).erase rc) = update Q d ((Q d).erase rc) := by
        funext q
        exact (update_erase_apply (fun _ _ _ => hs.disjoint) (fun q => (hs.chain q).nodup)
          hd q).1.symm
      rw [hfun]
      exact (Mailbox.Step.killed hd).steps
    · rename_i hno
      have hfun : (fun q => (Q q).erase rc) = Q := by
        funext q
        exact List.erase_of_not_mem (hs.notMem (by simpa using hno) q)
      rw [hfun]
      exact .refl
  · have hqr : q ≠ rc := by
      rintro rfl
      rw [hrc'] at hq
      cases hq
    rw [hfl q hqr] at hq hsq
    rw [hget] at hg
    rw [hs.front q hq hsq hg]
    rfl
  · have hpr : p ≠ rc := by
      rintro rfl
      rw [hrc'] at hp
      cases hp
    rw [hfl p hpr] at hp hrp
    rw [hget]
    exact hs.both p hp hrp
  · by_cases hh : hardwareProc = rc
    · rw [hh, hrc']
      rfl
    · rw [hfl _ hh]
      exact hs.hardware

/-- **ONE STEP ON THE MAILBOXES.** -/
theorem CallsOk.mxStep {e : MxEvent} (hs : CallsOk Q s) (he : s.FreeCaller e)
    (h : s.mxStep e = some s') : ∃ Q', Mailbox.Steps Q (s.mxLog e) Q' ∧ CallsOk Q' s' := by
  cases e with
  | call c fn n ok =>
    obtain ⟨⟨s1, r⟩, h1, rfl⟩ := map_eq_some_iff.mp h
    exact hs.call he h1
  | xit parent nr =>
    obtain ⟨⟨s1, r⟩, h1, rfl⟩ := map_eq_some_iff.mp h
    exact hs.exit h1

/-- Nobody is queued. -/
def KState.NoCallers (s : KState) : Prop :=
  ∀ p, s.mx.callerq p = none ∧ (s.mx.flags p).sending = false

instance (s : KState) : Decidable s.NoCallers :=
  inferInstanceAs (Decidable (∀ _, _))

theorem callsOk_init (h : s.NoCallers) : CallsOk (fun _ => []) s := by
  have hno : ∀ p, (s.mx.flags p).sending ≠ true := by simp [(h _).2]
  refine ⟨⟨fun q => ?_, fun p q => ?_, fun p hp => absurd hp (hno p)⟩,
    fun _ _ _ _ => rfl, fun p hp => absurd hp (hno p), (h _).2⟩
  · rw [(h q).1]
    exact chain_nil.mpr rfl
  · simp [hno p]

/-- **A RUN ON THE MAILBOXES.** -/
theorem FreeRun.callsOk {L : List (Mailbox.Event Proc)} (h : FreeRun s₀ s L)
    (h0 : s₀.NoCallers) : ∃ Q, Mailbox.Steps (fun _ => []) L Q ∧ CallsOk Q s := by
  induction h with
  | start => exact ⟨_, .refl, callsOk_init h0⟩
  | step _ he hstep ih =>
    obtain ⟨Q, hst, hs⟩ := ih
    obtain ⟨Q', hst', hs'⟩ := hs.mxStep he hstep
    exact ⟨Q', hst.trans hst', hs'⟩

/-- **CALLER QUEUES AND EXACTLY-ONCE DELIVERY.** In every state that a run with free
    callers reaches, the chain of `q` holds each process that is sending to `q` once, and
    no other; every receive answers one send to the receiver; every send is answered by one
    receive of its addressee unless its sender died first or is still queued there; and
    receives from `ANY` answer the sends to one process in the order of the sends. -/
theorem caller_queues {L : List (Mailbox.Event Proc)} (h0 : s₀.NoCallers) (h : FreeRun s₀ s L) :
    (∀ q, ∃ l, Chain s.mx.sendlink (s.mx.callerq q) l ∧ l.Nodup ∧
      ∀ p, p ∈ l ↔ (s.mx.flags p).sending = true ∧ s.mx.sendto p = procNr q) ∧
    (∀ j p q front, L[j]? = some (.received p q front) →
      ∃! i, Mailbox.Answers L i j p q front) ∧
    (∀ i p q, L[i]? = some (.sent p q) →
      (∃! j, ∃ front, Mailbox.Answers L i j p q front) ∨ Mailbox.KilledAfter L i p ∨
        (Mailbox.PendingAt L i p q ∧ (s.mx.flags p).sending = true ∧
          s.mx.sendto p = procNr q)) ∧
    ∀ i j i' j' a b q, Mailbox.Answers L i j a q true → Mailbox.Answers L i' j' b q true →
      i < i' → j < j' := by
  obtain ⟨Q, hst, hs⟩ := h.callsOk h0
  have hnil : ∀ q : Proc, (fun _ => [] : Proc → List Proc) q = [] := fun _ => rfl
  refine ⟨fun q => ⟨Q q, hs.chain q, (hs.chain q).nodup, fun p => hs.mem p q⟩,
    fun j p q front hj => hst.receive_answers hnil hj, fun i p q hi => ?_,
    fun i j i' j' a b q ha hb hlt => hst.fifo hnil ha hb hlt⟩
  rcases hst.send_answered hnil hi with hr | hk | hp
  · exact .inl hr
  · exact .inr (.inl hk)
  · refine .inr (.inr ⟨hp, (hs.mem p q).mp ?_⟩)
    exact ((hst.holds hnil).mem p q).mpr ⟨i, hp⟩

instance (s : KState) (e : MxEvent) : Decidable (s.FreeCaller e) :=
  match e with
  | .call c fn _ _ => inferInstanceAs (Decidable (c ≠ hardwareProc ∧
      (s.mx.flags c).sending = false ∧ (fn ≠ .receive → (s.mx.flags c).receiving = false)))
  | .xit _ _ => inferInstanceAs (Decidable True)

/-- The state after an operation that returns. -/
def KState.mxNext (s : KState) (e : MxEvent) : KState := (s.mxStep e).getD bss

theorem FreeRun.next {L : List (Mailbox.Event Proc)} {e : MxEvent} (h : FreeRun s₀ s L)
    (he : s.FreeCaller e) (hs : (s.mxStep e).isSome = true) :
    FreeRun s₀ (s.mxNext e) (L ++ s.mxLog e) :=
  h.step he (Run.eq_some_getD bss hs)

/-- INIT and MM queue at FS, which takes one message from `ANY`: it is that of INIT. -/
theorem caller_queues_servers :
    ∃ s, FreeRun twoServers s [.sent 13 fsProc, .sent mmProc fsProc, .received 13 fsProc true] ∧
      ∃! i, Mailbox.Answers [.sent 13 fsProc, .sent mmProc fsProc,
        .received 13 fsProc true] i 2 13 fsProc true := by
  have h0 : FreeRun twoServers twoServers [] := .start
  have h1 := h0.next (e := .call 13 .both (procNr fsProc) true) (by decide) (by decide +kernel)
  have h2 := h1.next (e := .call mmProc .send (procNr fsProc) true)
    (by decide +kernel) (by decide +kernel)
  have h3 := h2.next (e := .call fsProc .receive any true) (by decide +kernel) (by decide +kernel)
  have hlog : ([] ++ twoServers.mxLog (.call 13 .both (procNr fsProc) true)) ++
      (twoServers.mxNext (.call 13 .both (procNr fsProc) true)).mxLog
        (.call mmProc .send (procNr fsProc) true) ++
      ((twoServers.mxNext (.call 13 .both (procNr fsProc) true)).mxNext
        (.call mmProc .send (procNr fsProc) true)).mxLog (.call fsProc .receive any true) =
      [.sent 13 fsProc, .sent mmProc fsProc, .received 13 fsProc true] := by
    decide +kernel
  rw [hlog] at h3
  exact ⟨_, h3, (caller_queues (by decide) h3).2.1 2 13 fsProc true rfl⟩

/-! ## A caller that is not free -/

/-- Process 14 has turned into an RT process. -/
def rtCaller : KState := (boot.run [.rtk 14 goodEnv .set2rt]).getD bss

/-- **THE PROCESS IN TWO CHAINS.**  The RT process 14 calls FS, which does not wait for it.
    It is queued at FS, and still it runs on: it is not taken from the RT ready queue.  It
    calls MM, and is now in the chains of both, though it is sending to MM only. -/
theorem rt_caller_in_two_chains :
    rtCaller.NoCallers ∧ rtCaller.cur = 14 ∧
      (rtCaller.mxRun [.call 14 .both (procNr fsProc) true]).any (fun s =>
        decide (s.cur = 14)) = true ∧
      (rtCaller.mxRun [.call 14 .both (procNr fsProc) true,
        .call 14 .both (procNr mmProc) true]).any (fun s =>
          decide (s.mx.callerq fsProc = some 14 ∧ s.mx.callerq mmProc = some 14) &&
          decide (s.mx.sendto 14 = procNr mmProc)) = true := by
  refine ⟨by decide +kernel, by decide +kernel, by decide +kernel, by decide +kernel⟩

end Kernel
