import Mathlib

/-! # Reads and writes of pipes — who is suspended, and what is counted

    A read or a write of a pipe is one call of `read_write`.  `pipe_check` decides whether
    it can go on: the caller is answered at once, suspended, or its bytes are moved, all of
    them or as many as there is room for.  A caller that has set `O_NONBLOCK` should never
    be suspended.  It is, in one case: the comparisons of `pipe_check` leave out a write of
    exactly `PIPE_SIZE` bytes.

    The inodes here are those of pipes and FIFOs.  How the copy of a chunk ends is an input.
    What `release` does to other processes is left out, and so are the bytes in the pipe. -/

namespace Fs.Pipe

open Function

/-- `READING` and `WRITING`. -/
inductive Rw where
  | reading | writing
deriving DecidableEq

inductive Errno where
  | einval | ebadf | eio | efbig | eagain | epipe | efault | enospc | eintr
deriving DecidableEq

/-- What `read_write` returns: a number of bytes, or an error. -/
abbrev Reply := Except Errno Nat

/-- `struct filp`; `rBit` and `wBit` are the bits of `filp_mode`, and `off_t` is unsigned. -/
structure Filp where
  rBit : Bool
  wBit : Bool
  nonblock : Bool
  append : Bool
  count : Nat
  ino : Nat
  pos : BitVec 32

def Filp.has (f : Filp) : Rw → Bool
  | .reading => f.rBit
  | .writing => f.wBit

/-- `struct inode`; `maxSize` is a field of its super block. -/
structure Inode where
  size : BitVec 32
  maxSize : BitVec 32

/-- The parameters of a call, as the message has them and as `suspend` keeps them. -/
structure Call where
  rw : Rw
  fd : Int
  nbytes : Int

/-- `struct fproc`; `OPEN_MAX` is 20 and `NR_FILPS` is 128.  The last two fields are not in
    the source: what the last call asked for, and how much was copied for it. -/
structure Fproc where
  filp : Fin 20 → Option (Fin 128)
  suspended : Bool
  call : Call
  cumIoPartial : Nat
  asked : Nat
  moved : Nat

structure State where
  fproc : Fin 32 → Fproc
  filp : Fin 128 → Filp
  inode : Nat → Inode
  suspCount : Int

/-- How `rw_chunk` ends: an error, or a disk error that stands for the end of the file. -/
inductive Chunk where
  | ok | eof
  | fail (e : Errno)

/-- `PIPE_SIZE`. -/
def pipeSize : Nat := 7 * 1024

/-- The chunk loop of `read_write`: where it ends, the bytes left and moved, and its error. -/
def chunkLoop (copy : Nat → Chunk) (rw : Rw) (fSize : BitVec 32) (partialPipe : Bool) :
    (fuel k : Nat) → BitVec 32 → (nbytes partialCnt moved : Nat) →
      BitVec 32 × Nat × Nat × Option Errno
  | 0, _, position, nbytes, _, moved => (position, nbytes, moved, none)
  | fuel + 1, k, position, nbytes, partialCnt, moved =>
      if nbytes = 0 ∨ rw = .reading ∧ fSize ≤ position then (position, nbytes, moved, none)
      else
        let room := min (if partialPipe then partialCnt else nbytes) (1024 - position.toNat % 1024)
        let chunk := if rw = .reading then min room (fSize - position).toNat else room
        match copy k with
        | .fail e => (position, nbytes, moved, some e)
        | .eof => (position, nbytes, moved, none)
        | .ok =>
            let position := position + BitVec.ofNat 32 chunk
            let moved := moved + chunk
            if partialPipe ∧ partialCnt ≤ chunk then (position, nbytes - chunk, moved, none)
            else chunkLoop copy rw fSize partialPipe fuel (k + 1) position (nbytes - chunk)
              (partialCnt - chunk) moved

namespace State

/-- `get_filp`. -/
def getFilp (s : State) (p : Fin 32) (fild : Int) : Option (Fin 128) :=
  if h : 0 ≤ fild ∧ fild < 20 then (s.fproc p).filp ⟨fild.toNat, by omega⟩ else none

/-- `find_filp`. -/
def findFilp (s : State) (i : Nat) (bit : Rw) : Option (Fin 128) :=
  (List.finRange 128).find? fun x =>
    (s.filp x).count ≠ 0 ∧ (s.filp x).ino = i ∧ (s.filp x).has bit

def setProc (s : State) (p : Fin 32) (r : Fproc) : State :=
  { s with fproc := update s.fproc p r }

def setPos (s : State) (x : Fin 128) (position : BitVec 32) : State :=
  { s with filp := update s.filp x { s.filp x with pos := position } }

def setSize (s : State) (i : Nat) (size : BitVec 32) : State :=
  { s with inode := update s.inode i { s.inode i with size := size } }

/-- `suspend(XPIPE)`. -/
def suspend (s : State) (p : Fin 32) (c : Call) : State :=
  { s.setProc p { s.fproc p with suspended := true, call := c } with
    suspCount := s.suspCount + 1 }

/-- The result of `pipe_check`: an answer, no answer yet, or `*canwrite` for the transfer. -/
inductive Check where
  | reply (r : Reply)
  | suspended
  | go (canwrite : Int)

/-- `pipe_check`. -/
def pipeCheck (s : State) (p : Fin 32) (c : Call) (f : Filp) (position : BitVec 32) :
    State × Check :=
  match c.rw with
  | .reading =>
      if (s.inode f.ino).size ≤ position then
        if (s.findFilp f.ino .writing).isSome then
          if f.nonblock then (s, .reply (.error .eagain)) else (s.suspend p c, .suspended)
        else (s, .reply (.ok 0))
      else (s, .go 0)
  | .writing =>
      if (s.findFilp f.ino .reading).isNone then (s, .reply (.error .epipe))
      else if BitVec.ofNat 32 pipeSize < position + BitVec.ofInt 32 c.nbytes then
        let canwrite := (BitVec.ofNat 32 pipeSize - position).toInt
        if f.nonblock ∧ c.nbytes < pipeSize then (s, .reply (.error .eagain))
        else if f.nonblock ∧ pipeSize < c.nbytes then
          if 0 < canwrite then (s, .go canwrite) else (s, .reply (.error .eagain))
        else if pipeSize < c.nbytes ∧ 0 < canwrite then (s, .go canwrite)
        else (s.suspend p c, .suspended)
      else (s, .go 0)

/-- The end of `read_write` for the file: a pipe that is drained starts anew. -/
def settle (s : State) (rw : Rw) (x : Fin 128) (position : BitVec 32) : State :=
  let i := (s.filp x).ino
  match rw with
  | .writing =>
      (if (s.inode i).size < position then s.setSize i position else s).setPos x position
  | .reading =>
      if (s.inode i).size ≤ position then
        let s1 := s.setSize i 0
        (match s1.findFilp i .writing with
          | none => s1
          | some w => s1.setPos w 0).setPos x 0
      else s.setPos x position

/-- `read_write` behind `pipe_check`; only a write that does not fit has a `partialCnt`. -/
def transfer (copy : Nat → Chunk) (s : State) (p : Fin 32) (c : Call) (x : Fin 128)
    (position : BitVec 32) (partialCnt : Int) : State × Option Reply :=
  let n := c.nbytes.toNat
  let (pos, left, moved, err) := chunkLoop copy c.rw (s.inode (s.filp x).ino).size
    (0 < partialCnt) n 0 position n partialCnt.toNat 0
  let cumIo := (s.fproc p).cumIoPartial + moved
  let s1 := s.settle c.rw x pos
  let r := { s.fproc p with moved := (s.fproc p).moved + moved }
  match err with
  | some e => (s1.setProc p r, some (.error e))
  | none =>
      if 0 < partialCnt ∧ (s.filp x).nonblock = false then
        ((s1.setProc p { r with cumIoPartial := cumIo }).suspend p { c with nbytes := left }, none)
      else (s1.setProc p { r with cumIoPartial := 0 }, some (.ok cumIo))

/-- Where a transfer starts: a file that is open with `O_APPEND` is written at its end. -/
def startPos (s : State) (c : Call) (f : Filp) : BitVec 32 :=
  if c.rw = .writing ∧ f.append then (s.inode f.ino).size else f.pos

/-- `read_write`; no answer means that the caller is suspended. -/
def readWrite (copy : Nat → Chunk) (s : State) (p : Fin 32) (c : Call) : State × Option Reply :=
  if c.nbytes < 0 then (s, some (.error .einval))
  else
    match s.getFilp p c.fd with
    | none => (s, some (.error .ebadf))
    | some x =>
        let f := s.filp x
        let ip := s.inode f.ino
        let n := BitVec.ofInt 32 c.nbytes
        if f.has c.rw = false then
          (s, some (.error (if f.rBit ∨ f.wBit then .ebadf else .eio)))
        else if c.nbytes = 0 then (s, some (.ok 0))
        else if f.pos + n < f.pos then (s, some (.error .einval))
        else if c.rw = .writing ∧ ip.maxSize - n < f.pos then (s, some (.error .efbig))
        else
          match s.pipeCheck p c f (s.startPos c f) with
          | (s1, .reply r) => (s1, some r)
          | (s1, .suspended) => (s1, none)
          | (s1, .go canwrite) => s1.transfer copy p c x (s.startPos c f) canwrite

/-- The caller has its answer and may go on. -/
def Answered (p : Fin 32) (r : State × Option Reply) : Prop :=
  r.2.isSome = true ∧ (r.1.fproc p).suspended = false

/-- The call gets as far as `pipe_check`. -/
def Passes (s : State) (c : Call) (f : Filp) : Prop :=
  let n := BitVec.ofInt 32 c.nbytes
  f.has c.rw = true ∧ 0 < c.nbytes ∧ ¬ f.pos + n < f.pos ∧
    ¬ (c.rw = .writing ∧ (s.inode f.ino).maxSize - n < f.pos)

/-- A write of exactly `PIPE_SIZE` bytes that does not fit, with a reader at the other end. -/
def FillsExactly (s : State) (c : Call) (f : Filp) (position : BitVec 32) : Prop :=
  c.rw = .writing ∧ c.nbytes = pipeSize ∧ (s.findFilp f.ino .reading).isSome = true ∧
    BitVec.ofNat 32 pipeSize < position + BitVec.ofInt 32 c.nbytes

variable {copy : Nat → Chunk} {s : State} {p : Fin 32} {c : Call} {x : Fin 128} {f : Filp}
  {position : BitVec 32}

theorem settle_fproc (s : State) (rw : Rw) (x : Fin 128) (position : BitVec 32) :
    (s.settle rw x position).fproc = s.fproc := by
  cases rw with
  | reading =>
    simp only [settle]
    split
    · split <;> rfl
    · rfl
  | writing =>
    simp only [settle]
    split <;> rfl

/-- Behind `pipe_check` a caller that does not block is answered. -/
theorem transfer_answered (position : BitVec 32) (cnt : Int) (hn : (s.filp x).nonblock = true)
    (hs : (s.fproc p).suspended = false) : Answered p (s.transfer copy p c x position cnt) := by
  simp only [transfer, hn, Bool.true_eq_false, and_false, if_false]
  split <;> exact ⟨rfl, by simpa only [setProc, update_self] using hs⟩

theorem pipeCheck_exact (h : FillsExactly s c f position) :
    s.pipeCheck p c f position = (s.suspend p c, .suspended) := by
  obtain ⟨hrw, hb, hr, hlt⟩ := h
  rw [Option.isSome_iff_ne_none] at hr
  rw [hb] at hlt
  simpa [pipeCheck, hrw, hr, hb] using hlt

/-- `pipe_check` suspends no other caller that does not block. -/
theorem pipeCheck_other (hn : f.nonblock = true) (h : ¬ FillsExactly s c f position) :
    (∃ r, s.pipeCheck p c f position = (s, .reply r)) ∨
      ∃ k, s.pipeCheck p c f position = (s, .go k) := by
  simp only [pipeCheck, hn, true_and]
  cases hrw : c.rw with
  | reading =>
    simp only [if_true]
    split_ifs
    · exact .inl ⟨_, rfl⟩
    · exact .inl ⟨_, rfl⟩
    · exact .inr ⟨_, rfl⟩
  | writing =>
    simp only
    split_ifs with hr hlt h1 h2 h3 h4
    · exact .inl ⟨_, rfl⟩
    · exact .inl ⟨_, rfl⟩
    · exact .inr ⟨_, rfl⟩
    · exact .inl ⟨_, rfl⟩
    · exact absurd h4.1 h2
    · -- neither shorter nor longer than the pipe
      refine absurd ⟨hrw, by omega, ?_, hlt⟩ h
      simpa [Option.isSome_iff_ne_none] using hr
    · exact .inr ⟨_, rfl⟩

theorem readWrite_stopped (copy : Nat → Chunk) (hx : s.getFilp p c.fd = some x)
    (h : ¬ Passes s c (s.filp x)) :
    ∃ r, s.readWrite copy p c = (s, some r) ∧ ∀ n, r = .ok n → n = 0 ∧ c.nbytes = 0 := by
  simp only [readWrite, hx]
  by_cases h1 : c.nbytes < 0
  · exact ⟨.error .einval, if_pos h1, nofun⟩
  by_cases h2 : (s.filp x).has c.rw = false
  · exact ⟨.error _, by rw [if_neg h1, if_pos h2], nofun⟩
  rw [if_neg h1, if_neg h2]
  split_ifs with h3 h4 h5
  · exact ⟨_, rfl, fun n h => ⟨(Except.ok.inj h).symm, h3⟩⟩
  · exact ⟨_, rfl, nofun⟩
  · exact ⟨_, rfl, nofun⟩
  · exact absurd ⟨by simpa using h2, by omega, h4, h5⟩ h

theorem readWrite_passes (hx : s.getFilp p c.fd = some x) (h : Passes s c (s.filp x)) :
    s.readWrite copy p c =
      match s.pipeCheck p c (s.filp x) (s.startPos c (s.filp x)) with
      | (s1, .reply r) => (s1, some r)
      | (s1, .suspended) => (s1, none)
      | (s1, .go k) => s1.transfer copy p c x (s.startPos c (s.filp x)) k := by
  obtain ⟨h1, h2, h3, h4⟩ := h
  simp only [readWrite, hx, h1, Bool.true_eq_false, if_neg h3, if_neg h4, if_false,
    if_neg h2.not_gt, if_neg h2.ne']

/-- **WHEN A CALL THAT DOES NOT BLOCK IS ANSWERED AT ONCE**: always, but for a write of
    exactly `PIPE_SIZE` bytes that does not fit. -/
theorem nonblocking_answered_iff (hx : s.getFilp p c.fd = some x)
    (hn : (s.filp x).nonblock = true) (hs : (s.fproc p).suspended = false) :
    Answered p (s.readWrite copy p c) ↔
      ¬ (Passes s c (s.filp x) ∧ FillsExactly s c (s.filp x) (s.startPos c (s.filp x))) := by
  by_cases hp : Passes s c (s.filp x)
  · rw [readWrite_passes hx hp]
    by_cases hf : FillsExactly s c (s.filp x) (s.startPos c (s.filp x))
    · simp [pipeCheck_exact hf, hp, hf, Answered]
    · simp only [hf, and_false, not_false_iff, iff_true]
      rcases pipeCheck_other (p := p) hn hf with ⟨r, hr⟩ | ⟨k, hk⟩
      · rw [hr]
        exact ⟨rfl, hs⟩
      · rw [hk]
        exact transfer_answered _ k hn hs
  · obtain ⟨r, hr, -⟩ := readWrite_stopped copy hx hp
    simp [hr, hp, hs, Answered]

/-- A pipe with ten bytes in it: a reader, and process 0 writes to it without blocking. -/
def tenBytes : State where
  fproc := fun _ =>
    { filp := fun _ => some 1, suspended := false, call := ⟨.reading, 0, 0⟩, cumIoPartial := 0,
      asked := 0, moved := 0 }
  filp := fun x =>
    { rBit := x = 0, wBit := x = 1, nonblock := true, append := false, count := 1, ino := 0,
      pos := if x = 1 then 10 else 0 }
  inode := fun _ => { size := 10, maxSize := 0x40000000 }
  suspCount := 0

theorem one_byte_less_answered :
    Answered 0 (tenBytes.readWrite (fun _ => .ok) 0 ⟨.writing, 0, 7167⟩) :=
  (nonblocking_answered_iff (x := 1) rfl rfl rfl).mpr fun h => absurd h.2.2.1 (by decide)

theorem exact_fill_suspends :
    ¬ Answered 0 (tenBytes.readWrite (fun _ => .ok) 0 ⟨.writing, 0, 7168⟩) := by
  intro h
  exact absurd h.1 (by decide)

/-! ## The count of a write in pieces

    A large write proceeds in pieces.  `fp_cum_io_partial` keeps what the earlier ones have
    moved, and the next transfer of the process adds it to its own count.  Only a transfer
    that succeeds resets it: not `do_unpause`, not `EPIPE`, not a copy that fails. -/

/-- No position and no size is beyond `PIPE_SIZE`. -/
structure Sized (s : State) : Prop where
  pos : ∀ x, (s.filp x).pos.toNat ≤ pipeSize
  size : ∀ i, (s.inode i).size.toNat ≤ pipeSize

/-- There is room for what a transfer may write. -/
structure Fits (rw : Rw) (part : Bool) (position : BitVec 32) (nbytes cnt : Nat) : Prop where
  pos : position.toNat ≤ pipeSize
  piece : part = true → cnt ≤ nbytes
  room : rw = .writing → position.toNat + (if part then cnt else nbytes) ≤ pipeSize

/-- The loop moves what it takes from `nbytes`, and no more than `cnt` in a piece. -/
theorem chunkLoop_counts {rw : Rw} {fSize : BitVec 32} {part : Bool}
    (hsz : fSize.toNat ≤ pipeSize) :
    ∀ {fuel k position nbytes cnt moved}, Fits rw part position nbytes cnt →
      let o := chunkLoop copy rw fSize part fuel k position nbytes cnt moved
      o.1.toNat ≤ pipeSize ∧ o.2.2.1 + o.2.1 = moved + nbytes ∧
        (part = true → nbytes ≤ o.2.1 + cnt) := by
  intro fuel
  induction fuel with
  | zero =>
    intro k position nbytes cnt moved h
    exact ⟨h.pos, rfl, fun _ => Nat.le_add_right _ _⟩
  | succ fuel ih =>
    intro k position nbytes cnt moved h
    simp only [chunkLoop]
    by_cases hb : nbytes = 0 ∨ rw = .reading ∧ fSize ≤ position
    · simpa only [if_pos hb] using ⟨h.pos, trivial, fun _ => Nat.le_add_right _ _⟩
    rw [if_neg hb]
    cases copy k with
    | fail e | eof => exact ⟨h.pos, rfl, fun _ => Nat.le_add_right _ _⟩
    | ok =>
      obtain ⟨h1, hcnt, hroom⟩ := h
      generalize hw : (if rw = .reading then _ else _ : Nat) = w
      -- one chunk stays within the pipe, so the position does not wrap
      obtain ⟨hle, hpos, hcap⟩ : w ≤ (if part then cnt else nbytes) ∧
          (position + BitVec.ofNat 32 w).toNat = position.toNat + w ∧
          position.toNat + w ≤ pipeSize := by
        simp only [pipeSize] at h1 hroom hsz ⊢
        cases rw with
        | reading =>
          simp only [true_and, not_or, if_true, BitVec.le_def] at hb hw
          rw [BitVec.toNat_sub_of_le (by rw [BitVec.le_def]; omega)] at hw
          rw [BitVec.toNat_add_of_lt] <;> simp only [BitVec.toNat_ofNat] <;> omega
        | writing =>
          simp only [reduceCtorEq, if_false] at hw
          have := hroom rfl
          rw [BitVec.toNat_add_of_lt] <;> simp only [BitVec.toNat_ofNat] <;> omega
      dsimp only
      cases part with
      | true =>
        have hn := hcnt rfl
        simp only [if_true] at hle hroom
        split_ifs
        · exact ⟨hpos ▸ hcap, by dsimp only; omega, fun _ => by dsimp only; omega⟩
        · obtain ⟨h1, h2, h3⟩ := @ih (k + 1) _ (nbytes - w) (cnt - w) (moved + w)
            ⟨hpos ▸ hcap, fun _ => by omega, fun h => by have := hroom h; simp; omega⟩
          exact ⟨h1, by omega, fun h => by have := h3 h; omega⟩
      | false =>
        simp only [Bool.false_eq_true, false_and, if_false] at hle hroom ⊢
        obtain ⟨h1, h2, -⟩ := @ih (k + 1) _ (nbytes - w) (cnt - w) (moved + w)
          ⟨hpos ▸ hcap, nofun, fun h => by have := hroom h; simp; omega⟩
        exact ⟨h1, by omega, nofun⟩

theorem Sized.setPos (h : Sized s) (hp : position.toNat ≤ pipeSize) :
    Sized (s.setPos x position) :=
  ⟨(forall_update_iff _ fun _ (f : Filp) => f.pos.toNat ≤ pipeSize).mpr ⟨hp, fun y _ => h.pos y⟩,
    h.size⟩

theorem Sized.setSize {i : Nat} (h : Sized s) (hp : position.toNat ≤ pipeSize) :
    Sized (s.setSize i position) :=
  ⟨h.pos, (forall_update_iff _ fun _ (r : Inode) => r.size.toNat ≤ pipeSize).mpr
    ⟨hp, fun j _ => h.size j⟩⟩

theorem Sized.settle {rw : Rw} (h : Sized s) (hp : position.toNat ≤ pipeSize) :
    Sized (s.settle rw x position) := by
  cases rw with
  | reading =>
    simp only [State.settle]
    split_ifs
    · have h0 : Sized (s.setSize (s.filp x).ino 0) := h.setSize (Nat.zero_le _)
      split
      · exact h0.setPos (Nat.zero_le _)
      · exact (h0.setPos (Nat.zero_le _)).setPos (Nat.zero_le _)
    · exact h.setPos hp
  | writing =>
    simp only [State.settle]
    split_ifs
    · exact (h.setSize hp).setPos hp
    · exact h.setPos hp

/-- The process is at work on `c`, some of which may have been moved by earlier pieces. -/
structure Owes (r : Fproc) (c : Call) : Prop where
  cum : r.cumIoPartial = r.moved
  asked : r.moved + c.nbytes.toNat = r.asked
  small : c.nbytes < 2 ^ 31
  begun : r.moved = 0 ∨ c.rw = .writing ∧ 0 < c.nbytes

/-- The process is suspended in a call with bytes left. -/
structure Waits (r : Fproc) : Prop extends Owes r r.call where
  suspended : r.suspended = true
  left : 0 < r.call.nbytes

/-- How a call leaves the entry of its process; a failure leaves the count as it was. -/
def Ends (cum : Nat) (r : Fproc) : Option Reply → Prop
  | none => Waits r
  | some (.error _) => r.suspended = false ∧ r.cumIoPartial = cum
  | some (.ok n) => r.suspended = false ∧ r.cumIoPartial = 0 ∧ n = r.moved ∧ n ≤ r.asked

/-- What a call of `p` leaves behind. -/
structure Counts (s : State) (p : Fin 32) (o : State × Option Reply) : Prop where
  sized : Sized o.1
  others : ∀ q, q ≠ p → o.1.fproc q = s.fproc q
  ends : Ends (s.fproc p).cumIoPartial (o.1.fproc p) o.2

theorem Counts.answer {t : State} {r : Fproc} {a : Option Reply} (ht : Sized t)
    (hp : t.fproc = s.fproc) (h : Ends (s.fproc p).cumIoPartial r a) :
    Counts s p (t.setProc p r, a) where
  sized := ⟨ht.pos, ht.size⟩
  others q hq := by simp [setProc, hq, hp]
  ends := by simpa [setProc] using h

theorem Counts.suspend {t : State} (ht : Sized t) (hp : ∀ q, q ≠ p → t.fproc q = s.fproc q)
    (h : Owes (t.fproc p) c) (h0 : 0 < c.nbytes) : Counts s p (t.suspend p c, none) where
  sized := ⟨ht.pos, ht.size⟩
  others q hq := by simpa [State.suspend, setProc, hq] using hp q hq
  ends := by
    simp only [State.suspend, setProc, update_self]
    exact ⟨{ h with }, rfl, h0⟩

theorem transfer_counts {k : Int} (hs : Sized s) (hn : (s.fproc p).suspended = false)
    (h : Owes (s.fproc p) c) (hk : 0 < k → k < c.nbytes ∧ c.rw = .writing)
    (hf : Fits c.rw (0 < k) position c.nbytes.toNat k.toNat) :
    Counts s p (s.transfer copy p c x position k) := by
  have hloop := @chunkLoop_counts copy c.rw _ _ (hs.size (s.filp x).ino) c.nbytes.toNat 0
    position _ _ 0 hf
  simp only [transfer]
  generalize chunkLoop _ _ _ _ _ _ _ _ _ _ = o at hloop
  obtain ⟨pos, left, moved, err⟩ := o
  obtain ⟨hp, hm, hl⟩ := hloop
  dsimp only at hp hm hl
  have hs' : Sized (s.settle c.rw x pos) := hs.settle hp
  have hfp := settle_fproc s c.rw x pos
  obtain ⟨hc, ha, hsm, -⟩ := h
  cases err with
  | some e => exact .answer hs' hfp ⟨hn, rfl⟩
  | none =>
    dsimp only
    split_ifs with hw
    · obtain ⟨hlt, hrw⟩ := hk hw.1
      have hle := hl (by simpa using hw.1)
      have h0 : (0 : Int) < left := by omega
      refine .suspend ⟨hs'.pos, hs'.size⟩ (fun q hq => by simp [setProc, hq, hfp]) ?_ h0
      simp only [setProc, update_self]
      exact ⟨by dsimp only; omega, by dsimp only; omega, by dsimp only; omega, .inr ⟨hrw, h0⟩⟩
    · exact .answer hs' hfp ⟨hn, rfl, by dsimp only; omega, by dsimp only; omega⟩

/-- One call of `read_write` counts what it moves. -/
theorem readWrite_counts (copy : Nat → Chunk) (hs : Sized s)
    (hn : (s.fproc p).suspended = false) (h : Owes (s.fproc p) c) :
    Counts s p (s.readWrite copy p c) := by
  have herr (e) : Counts s p (s, some (.error e)) := ⟨hs, fun _ _ => rfl, hn, rfl⟩
  have hzero (hm : (s.fproc p).moved = 0) : Counts s p (s, some (.ok 0)) :=
    ⟨hs, fun _ _ => rfl, hn, h.cum.trans hm, hm.symm, Nat.zero_le _⟩
  cases hx : s.getFilp p c.fd with
  | none =>
    simp only [readWrite, hx]
    split_ifs
    · exact herr _
    · exact herr _
  | some x =>
    by_cases hp : Passes s c (s.filp x)
    · rw [readWrite_passes hx hp]
      have hle : (s.startPos c (s.filp x)).toNat ≤ pipeSize := by
        unfold startPos
        split_ifs
        · exact hs.size _
        · exact hs.pos x
      have hsm := h.small
      have hwait := Counts.suspend hs (fun _ _ => rfl) h hp.2.1
      generalize s.startPos c (s.filp x) = pos at hle
      simp only [pipeCheck]
      cases hrw : c.rw with
      | reading =>
        simp only
        split_ifs
        · exact herr _
        · exact hwait
        · exact hzero (h.begun.resolve_right fun hb => nomatch hrw.symm.trans hb.1)
        · exact transfer_counts hs hn h nofun ⟨hle, nofun, fun hb => nomatch hrw.symm.trans hb⟩
      | writing =>
        -- neither the sum nor the difference of `pipe_check` wraps
        have hadd : (pos + BitVec.ofInt 32 c.nbytes).toNat = pos.toNat + c.nbytes.toNat := by
          simp only [pipeSize] at hle
          rw [BitVec.toNat_add, BitVec.toNat_ofInt]
          have := hp.2.1
          omega
        have hcan : (BitVec.ofNat 32 pipeSize - pos).toInt = (pipeSize : Int) - pos.toNat := by
          simp only [pipeSize] at hle ⊢
          rw [BitVec.toInt_eq_toNat_of_lt, BitVec.toNat_sub_of_le] <;>
            simp [BitVec.le_def, BitVec.toNat_sub] <;> omega
        have hgo (hk : 0 < (pipeSize : Int) - pos.toNat) (hb : (pipeSize : Int) < c.nbytes) :
            Counts s p (s.transfer copy p c x pos ((pipeSize : Int) - pos.toNat)) := by
          refine transfer_counts hs hn h (fun _ => ⟨by omega, hrw⟩) ⟨hle, fun _ => by omega, ?_⟩
          simp only [hk, decide_true, if_true]
          omega
        simp only [hcan, BitVec.lt_def, hadd]
        split_ifs with hr hlt h1 h2 h3 h4
        · exact herr _
        · exact herr _
        · exact hgo h3 h2.2
        · exact herr _
        · exact hgo h4.2 h4.1
        · exact hwait
        · refine transfer_counts hs hn h nofun ⟨hle, nofun, fun _ => ?_⟩
          simpa [pipeSize] using hlt
    · obtain ⟨r, hr, h0⟩ := readWrite_stopped copy hx hp
      rw [hr]
      cases r with
      | error e => exact herr e
      | ok n =>
        obtain ⟨rfl, hz⟩ := h0 n rfl
        exact hzero (h.begun.resolve_right fun hb => by omega)

/-- A new call of a process. -/
def request (s : State) (p : Fin 32) (c : Call) : State :=
  s.setProc p { s.fproc p with asked := c.nbytes.toNat, moved := 0 }

/-- A process is no longer suspended: `get_work` retries its call, or `do_unpause` ends it. -/
def wake (s : State) (p : Fin 32) : State :=
  s.setProc p { s.fproc p with suspended := false }

/-- The answer of a step, if it gives one, and to whom. -/
abbrev Answer := Option (Fin 32 × Reply)

/-- One step of a run and its answer.  Other calls give new tables: they open and close files,
    and a process that is forked has the entry of another. -/
inductive Step (s : State) : State → Answer → Prop where
  | call (copy : Nat → Chunk) (p : Fin 32) (c : Call) {r : Answer} :
      (s.fproc p).suspended = false → c.nbytes < 2 ^ 31 →
      ((s.request p c).readWrite copy p c).2.map (p, ·) = r →
      Step s ((s.request p c).readWrite copy p c).1 r
  | resume (copy : Nat → Chunk) (p : Fin 32) {r : Answer} :
      (s.fproc p).suspended = true →
      ((s.wake p).readWrite copy p (s.fproc p).call).2.map (p, ·) = r →
      Step s ((s.wake p).readWrite copy p (s.fproc p).call).1 r
  | unpause (p : Fin 32) : (s.fproc p).suspended = true →
      Step s (s.wake p) (some (p, .error .eintr))
  | other (t : State) : Sized t →
      (∀ q, ∃ q' fd, t.fproc q = { s.fproc q' with filp := fd }) → Step s t none

/-- A call that fails or is interrupted has moved nothing in earlier pieces. -/
def NoLoss (s : State) (r : Answer) : Prop :=
  ∀ p e, r = some (p, .error e) → (s.fproc p).cumIoPartial = 0

/-- Runs from a state in which no process is suspended, with the last answer. -/
inductive Run (ok : State → Answer → Prop) : State → Answer → Prop where
  | start {s : State} : Sized s →
      (∀ p, (s.fproc p).suspended = false ∧ (s.fproc p).cumIoPartial = 0) → Run ok s none
  | step {s s' : State} {r r' : Answer} :
      Run ok s r → Step s s' r' → ok s r' → Run ok s' r'

/-- A call that is completed is answered with the number of bytes moved for it. -/
def Exact (s : State) (r : Answer) : Prop :=
  ∀ p n, r = some (p, .ok n) → n = (s.fproc p).moved ∧ n ≤ (s.fproc p).asked

/-- Only a process that is suspended has a count. -/
structure CountsOk (s : State) : Prop where
  sized : Sized s
  entry : ∀ p, Waits (s.fproc p) ∨ (s.fproc p).suspended = false ∧ (s.fproc p).cumIoPartial = 0

/-- A call is served for a process that is at work on it. -/
theorem CountsOk.serve {r : Fproc} {o : State × Option Reply} (h : CountsOk s)
    (ho : (s.setProc p r).readWrite copy p c = o) (hn : r.suspended = false) (hr : Owes r c)
    (hc : r.cumIoPartial = (s.fproc p).cumIoPartial) (hl : NoLoss s (o.2.map (p, ·))) :
    CountsOk o.1 ∧ Exact o.1 (o.2.map (p, ·)) := by
  have hp : (s.setProc p r).fproc p = r := update_self ..
  obtain ⟨h1, h2, h3⟩ := ho ▸ readWrite_counts copy (s := s.setProc p r)
    ⟨h.sized.pos, h.sized.size⟩ (hp ▸ hn) (hp.symm ▸ hr)
  obtain ⟨t, a⟩ := o
  have hin (hi) : CountsOk t := ⟨h1, fun q => by
    by_cases hq : q = p
    · exact hq ▸ hi
    · rw [h2 q hq]
      simpa only [setProc, update_of_ne hq] using h.entry q⟩
  rw [hp] at h3
  match a, h3 with
  | none, h3 => exact ⟨hin (.inl h3), nofun⟩
  | some (.error e), h3 => exact ⟨hin (.inr ⟨h3.1, h3.2.trans (hc.trans (hl p e rfl))⟩), nofun⟩
  | some (.ok n), h3 =>
    refine ⟨hin (.inr ⟨h3.1, h3.2.1⟩), fun q m hq => ?_⟩
    cases hq
    exact h3.2.2

theorem CountsOk.step {s' : State} {r : Answer} (h : CountsOk s)
    (hs : Step s s' r) (hl : NoLoss s r) : CountsOk s' ∧ Exact s' r := by
  cases hs with
  | call copy p c hn hsm hr =>
    subst hr
    have h0 := (h.entry p).resolve_left fun hw => nomatch hn.symm.trans hw.suspended
    exact h.serve rfl hn ⟨h0.2, Nat.zero_add _, hsm, .inl rfl⟩ rfl hl
  | resume copy p hs hr =>
    subst hr
    have hw := (h.entry p).resolve_right fun h0 => nomatch hs.symm.trans h0.1
    exact h.serve rfl rfl { hw with } rfl hl
  | unpause p hs =>
    refine ⟨⟨⟨h.sized.pos, h.sized.size⟩, fun q => ?_⟩, nofun⟩
    by_cases hq : q = p
    · subst hq
      exact .inr (by simpa [wake, setProc] using hl q .eintr rfl)
    · simpa [wake, setProc, hq] using h.entry q
  | other t ht ho =>
    refine ⟨⟨ht, fun q => ?_⟩, nofun⟩
    obtain ⟨q', fd, hq⟩ := ho q
    rw [hq]
    exact (h.entry q').imp_left fun hw =>
      ⟨{ hw with }, hw.suspended, hw.left⟩

/-- **PIPE TRANSFERS ARE COUNTED EXACTLY** in every run in which no call fails or is
    interrupted after earlier pieces of it were moved. -/
theorem pipe_counts_exact {r : Answer} (h : Run NoLoss s r) : Exact s r := by
  suffices CountsOk s ∧ Exact s r from this.2
  induction h with
  | start hs h0 => exact ⟨⟨hs, fun p => .inr (h0 p)⟩, nofun⟩
  | step _ hstep hl ih => exact ih.1.step hstep hl

/-- An empty pipe: descriptor 0 of each process reads from it, the others write to it. -/
def emptyPipe : State where
  fproc := fun _ =>
    { filp := fun d => some (if d = 0 then 0 else 1), suspended := false,
      call := ⟨.reading, 0, 0⟩, cumIoPartial := 0, asked := 0, moved := 0 }
  filp := fun x =>
    { rBit := x = 0, wBit := x = 1, nonblock := false, append := false, count := 1, ino := 0,
      pos := 0 }
  inode := fun _ => { size := 0, maxSize := 0x40000000 }
  suspCount := 0

/-- Process 0 writes 8000 bytes: it has moved 7168 of them and waits. -/
theorem large_write_waits {ok : State → Answer → Prop} (h : ∀ s, ok s none) :
    Run ok ((emptyPipe.request 0 ⟨.writing, 1, 8000⟩).readWrite (fun _ => .ok) 0
      ⟨.writing, 1, 8000⟩).1 none :=
  .step (s := emptyPipe)
    (.start ⟨fun _ => Nat.zero_le _, fun _ => Nat.zero_le _⟩ fun _ => ⟨rfl, rfl⟩)
    (.call (fun _ => .ok) 0 ⟨.writing, 1, 8000⟩ rfl (by decide) (by decide +kernel)) (h _)

/-- Process 1 reads them and process 0 writes the rest. -/
theorem large_write_counted :
    ∃ s, Run NoLoss s (some (0, .ok 8000)) ∧ Exact s (some (0, .ok 8000)) := by
  have h0 : Run NoLoss _ none := large_write_waits fun _ _ _ h => nomatch h
  have h1 := h0.step (.call (r := some (1, .ok 7168)) (fun _ => .ok) 1 ⟨.reading, 0, 7168⟩
    (by decide +kernel) (by decide) (by decide +kernel)) fun _ _ h => nomatch h
  have h2 := h1.step (.resume (r := some (0, .ok 8000)) (fun _ => .ok) 0 (by decide +kernel)
    (by decide +kernel)) fun _ _ h => nomatch h
  exact ⟨_, h2, pipe_counts_exact h2⟩

/-- A signal ends the write; process 0 then asks for 10 bytes, and 7178 are reported. -/
theorem interrupted_write_counted :
    ∃ s, Run (fun _ _ => True) s (some (0, .ok 7178)) ∧ (s.fproc 0).moved = 10 ∧
      (s.fproc 0).asked = 10 := by
  have h0 : Run (fun _ _ => True) _ none := large_write_waits fun _ => trivial
  have h1 := h0.step (.unpause 0 (by decide +kernel)) trivial
  exact ⟨_, h1.step (.call (fun _ => .ok) 0 ⟨.reading, 0, 10⟩ (by decide +kernel) (by decide)
    (by decide +kernel)) trivial, by decide +kernel, by decide +kernel⟩

end State

end Fs.Pipe
