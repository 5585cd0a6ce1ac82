import Minix4rt.ByteOrderProofs

/-! # Bit maps — `alloc_bit`, `free_bit` and their callers

    A device has a map of its inodes and a map of its zones, each of some blocks of 512 words.
    `alloc_bit` starts at the word of its origin, goes once around all blocks and leaves a block
    when it meets a free bit behind the end of the map.  The scan is specified by what it has
    seen: every bit of the map before the one that it returns, and all of them when it gives up.

    `s_isearch` and `s_zsearch` say where to start; no bit below them is ever free. -/

namespace Fs

open Function

inductive Map where
  | imap
  | zmap
  deriving DecidableEq

inductive Panic where
  | allocReadOnly
  | freeReadOnly
  /-- tried to free unused inode, or block -/
  | freeUnused (m : Map)
  deriving DecidableEq

/-- A mounted device as far as its bit maps go.  The numbers of map blocks are shorts that
    `read_super` has found to be positive; a word is named by its block and its place there,
    and is as the cache presents it. -/
structure Volume where
  ninodes : BitVec 16
  zones : BitVec 32
  firstdatazone : BitVec 16
  imapBlocks : Nat
  zmapBlocks : Nat
  native : Bool
  rdOnly : Bool
  isearch : Nat
  zsearch : Nat
  disk : Nat × Nat → BitVec 16

/-- A word of a map in the byte order of the machine, or back. -/
def chunk (norm : Bool) (x : BitVec 16) : BitVec 16 := (conv2 norm (ofUshort x)).setWidth 16

/-- `for (i = 0; (k & (1 << i)) != 0; ++i)`; there is no bit 16 -/
def firstClear (k : BitVec 16) : Nat :=
  ((List.range 16).find? (fun i => !k.getLsbD i)).getD 16

/-- The words of a block, `n` of them from `w` on: the word and the bit that are free.  A free bit
    behind the end of the map ends the loop. -/
def scanBlock (norm : Bool) (blk : Nat → BitVec 16) (base mapBits : Nat) :
    (n w : Nat) → Option (Nat × Nat)
  | 0, _ => none
  | n + 1, w =>
    if blk w = 0xFFFF#16 then scanBlock norm blk base mapBits n (w + 1)
    else
      let i := firstClear (chunk norm (blk w))
      if mapBits ≤ base + w * 16 + i then none else some (w, i)

namespace Volume

def startBlock (s : Volume) : Map → Nat
  | .imap => 2
  | .zmap => 2 + s.imapBlocks

def mapBits (s : Volume) : Map → Nat
  | .imap => s.ninodes.toNat + 1
  | .zmap => (s.zones - (ofUshort s.firstdatazone - 1)).toNat

def bitBlocks (s : Volume) : Map → Nat
  | .imap => s.imapBlocks
  | .zmap => s.zmapBlocks

/-- The blocks, `bcount` of them, from `word` in `block` on and around: the number of the bit. -/
def scanMap (s : Volume) (m : Map) : (bcount block word : Nat) → Option Nat
  | 0, _, _ => none
  | bcount + 1, block, word =>
    match scanBlock s.native (fun w => s.disk (s.startBlock m + block, w)) (block * 8192)
        (s.mapBits m) (512 - word) word with
    | some (w, i) => some (block * 8192 + w * 16 + i)
    | none => s.scanMap m bcount (if s.bitBlocks m ≤ block + 1 then 0 else block + 1) 0

/-- The block and the word of a bit. -/
def place (s : Volume) (m : Map) (b : Nat) : Nat × Nat :=
  (s.startBlock m + b / 8192, b % 8192 / 16)

/-- The word of a bit, in the byte order of the machine. -/
def word (s : Volume) (m : Map) (b : Nat) : BitVec 16 := chunk s.native (s.disk (s.place m b))

def bit (s : Volume) (m : Map) (b : Nat) : Bool := (s.word m b).getLsbD (b % 16)

/-- The word of a bit is written. -/
def setWord (s : Volume) (m : Map) (b : Nat) (k : BitVec 16) : Volume :=
  { s with disk := update s.disk (s.place m b) (chunk s.native k) }

/-- `alloc_bit(sp, map, origin)`; the bit 0 is NO_BIT -/
def allocBit (s : Volume) (m : Map) (origin : Nat) : Except Panic (Nat × Volume) :=
  if s.rdOnly then .error .allocReadOnly
  else
    let origin := if s.mapBits m ≤ origin then 0 else origin
    match s.scanMap m (s.bitBlocks m + 1) (origin / 8192) (origin % 8192 / 16) with
    | some b => .ok (b, s.setWord m b (s.word m b ||| BitVec.twoPow 16 (b % 16)))
    | none => .ok (0, s)

/-- `free_bit(sp, map, bit_returned)` -/
def freeBit (s : Volume) (m : Map) (b : Nat) : Except Panic Volume :=
  if s.rdOnly then .error .freeReadOnly
  else if s.bit m b = false then .error (.freeUnused m)
  else .ok (s.setWord m b (s.word m b &&& ~~~ BitVec.twoPow 16 (b % 16)))

/-! ## Callers -/

/-- `s_firstdatazone - 1`, the zone of the bit 0 -/
def zoneBase (s : Volume) : BitVec 32 := ofUshort s.firstdatazone - 1

/-- `alloc_zone(dev, z)`; the zone 0 is NO_ZONE -/
def allocZone (s : Volume) (z : BitVec 32) : Except Panic (BitVec 32 × Volume) :=
  let first := decide (z = ofUshort s.firstdatazone)
  (s.allocBit .zmap (if first then s.zsearch else (z - s.zoneBase).toNat)).map (fun (b, s) =>
    if b = 0 then (0, s)
    else (s.zoneBase + BitVec.ofNat 32 b, if first then { s with zsearch := b } else s))

/-- `free_zone(dev, numb)` -/
def freeZone (s : Volume) (numb : BitVec 32) : Except Panic Volume :=
  if numb < ofUshort s.firstdatazone ∨ s.zones ≤ numb then .ok s
  else
    let b := (numb - s.zoneBase).toNat
    (s.freeBit .zmap b).map (fun s => if b < s.zsearch then { s with zsearch := b } else s)

/-- `alloc_inode(dev, bits)`, with or without a free slot in the inode table -/
def allocInode (s : Volume) (slot : Bool) : Except Panic (Option Nat × Volume) :=
  if s.rdOnly then .ok (none, s)
  else
    match s.allocBit .imap s.isearch with
    | .error x => .error x
    | .ok (b, s) =>
      if b = 0 then .ok (none, s)
      else
        let s := { s with isearch := b }
        if slot then .ok (some b, s) else (s.freeBit .imap b).map (fun s => (none, s))

/-- `free_inode(dev, inumb)` -/
def freeInode (s : Volume) (inumb : BitVec 16) : Except Panic Volume :=
  if inumb = 0 ∨ s.ninodes < inumb then .ok s
  else
    (s.freeBit .imap inumb.toNat).map (fun s =>
      if inumb.toNat < s.isearch then { s with isearch := inumb.toNat } else s)

end Volume

/-- The calls that allocate and free. -/
inductive MapCall where
  | allocZone (z : BitVec 32)
  | freeZone (numb : BitVec 32)
  | allocInode (slot : Bool)
  | freeInode (inumb : BitVec 16)

namespace Volume

def call (s : Volume) : MapCall → Except Panic Volume
  | .allocZone z => (s.allocZone z).map Prod.snd
  | .freeZone numb => s.freeZone numb
  | .allocInode slot => (s.allocInode slot).map Prod.snd
  | .freeInode inumb => s.freeInode inumb

def calls (s : Volume) : List MapCall → Except Panic Volume
  | [] => .ok s
  | c :: cs =>
    match s.call c with
    | .error x => .error x
    | .ok s => s.calls cs

end Volume

/-! ## Words -/

variable {s s' : Volume} {m : Map} {norm : Bool} {blk : Nat → BitVec 16} {b c w i n : Nat}

theorem chunk_chunk (norm : Bool) (x : BitVec 16) : chunk norm (chunk norm x) = x :=
  conv2_ushort norm x

/-- A full word is full in either byte order. -/
theorem chunk_full (x : BitVec 16) : chunk norm x = 0xFFFF#16 ↔ x = 0xFFFF#16 := by
  have hfull : chunk norm 0xFFFF#16 = 0xFFFF#16 := by cases norm <;> decide
  refine ⟨fun h => ?_, fun h => h ▸ hfull⟩
  rw [← chunk_chunk norm x, h, hfull]

theorem getLsbD_full (hi : i < 16) : (0xFFFF#16).getLsbD i = true := by
  interval_cases i <;> rfl

theorem firstClear_spec {k : BitVec 16} (hk : k ≠ 0xFFFF#16) :
    firstClear k < 16 ∧ k.getLsbD (firstClear k) = false ∧
      ∀ i, i < firstClear k → k.getLsbD i = true := by
  rw [firstClear]
  cases hf : (List.range 16).find? (fun i => !k.getLsbD i) with
  | none =>
    refine absurd (BitVec.eq_of_getLsbD_eq (fun i hi => ?_)) hk
    have hset := List.find?_eq_none.mp hf i (List.mem_range.mpr hi)
    rw [getLsbD_full hi]
    simpa using hset
  | some i =>
    obtain ⟨hclear, hi, hset⟩ := List.find?_range_eq_some.mp hf
    exact ⟨List.mem_range.mp hi, by simpa using hclear, fun j hj => by simpa using hset j hj⟩

/-! ## The scan of a block -/

/-- A bit of a block. -/
def blockBit (norm : Bool) (blk : Nat → BitVec 16) (c : Nat) : Bool :=
  (chunk norm (blk (c / 16))).getLsbD (c % 16)

theorem blockBit_word (hi : i < 16) :
    blockBit norm blk (w * 16 + i) = (chunk norm (blk w)).getLsbD i := by
  rw [blockBit, show (w * 16 + i) / 16 = w by omega, show (w * 16 + i) % 16 = i by omega]

theorem blockBit_of_full (h : blk (c / 16) = 0xFFFF#16) : blockBit norm blk c = true := by
  rw [blockBit, (chunk_full _).mpr h]
  exact getLsbD_full (by omega)

theorem firstClear_of_free (norm : Bool) (h : blk w ≠ 0xFFFF#16) :
    firstClear (chunk norm (blk w)) < 16 ∧
      (chunk norm (blk w)).getLsbD (firstClear (chunk norm (blk w))) = false ∧
      ∀ i, i < firstClear (chunk norm (blk w)) → (chunk norm (blk w)).getLsbD i = true :=
  firstClear_spec (fun hk => h ((chunk_full _).mp hk))

/-- The bits of a word before its first free one. -/
theorem blockBit_of_lt (h : blk w ≠ 0xFFFF#16) (hc : w * 16 ≤ c)
    (hlt : c < w * 16 + firstClear (chunk norm (blk w))) : blockBit norm blk c = true := by
  obtain ⟨hlast, -, hset⟩ := firstClear_of_free norm h
  rw [show c = w * 16 + (c - w * 16) by omega, blockBit_word (by omega)]
  exact hset _ (by omega)

theorem scanBlock_some {base mapBits : Nat}
    (h : scanBlock norm blk base mapBits n w = some (b, i)) :
    i < 16 ∧ b < w + n ∧ base + b * 16 + i < mapBits ∧ blockBit norm blk (b * 16 + i) = false ∧
      ∀ c, w * 16 ≤ c → c < b * 16 + i → blockBit norm blk c = true := by
  induction n generalizing w with
  | zero => cases h
  | succ n ih =>
    rw [scanBlock] at h
    split at h
    · rename_i hfull
      obtain ⟨h1, h2, h3, h4, h5⟩ := ih h
      refine ⟨h1, by omega, h3, h4, fun c hc hlt => ?_⟩
      by_cases hw : c / 16 = w
      · exact blockBit_of_full (hw ▸ hfull)
      · exact h5 c (by omega) hlt
    · rename_i hfree
      dsimp only at h
      split at h
      · cases h
      · rename_i hend
        obtain ⟨hlt, hclear, -⟩ := firstClear_of_free norm hfree
        cases h
        refine ⟨hlt, by omega, by omega, ?_, fun c hc hc' => blockBit_of_lt hfree hc hc'⟩
        rw [blockBit_word hlt]
        exact hclear

/-- A block without a free bit of the map: the scan may have left it at a bit behind the end. -/
theorem scanBlock_none {base mapBits : Nat}
    (h : scanBlock norm blk base mapBits n w = none) (hc : w * 16 ≤ c) (hn : c < (w + n) * 16)
    (hend : base + c < mapBits) : blockBit norm blk c = true := by
  induction n generalizing w with
  | zero => omega
  | succ n ih =>
    rw [scanBlock] at h
    split at h
    · rename_i hfull
      by_cases hw : c / 16 = w
      · exact blockBit_of_full (hw ▸ hfull)
      · exact ih h (by omega) (by omega)
    · rename_i hfree
      dsimp only at h
      split at h
      · exact blockBit_of_lt hfree hc (by omega)
      · cases h

/-! ## The scan of the map -/

theorem bit_eq_blockBit (hb : b / 8192 = n) : s.bit m b =
    blockBit s.native (fun w => s.disk (s.startBlock m + n, w)) (b - n * 8192) := by
  subst hb
  have h1 : (b - b / 8192 * 8192) / 16 = b % 8192 / 16 := by omega
  have h2 : (b - b / 8192 * 8192) % 16 = b % 16 := by omega
  rw [blockBit, h1, h2]
  rfl

/-- **WHAT THE SCAN RETURNS** is free and in the map, and all that it passed is set: from its
    start on, or from 0 if it has gone around. -/
theorem scanMap_some {bcount block word : Nat} (hword : word ≤ 512)
    (h : s.scanMap m bcount block word = some b) :
    b < s.mapBits m ∧ s.bit m b = false ∧
      ((∀ c, block * 8192 + word * 16 ≤ c → c < b → s.bit m c = true) ∨
        ∀ c, c < b → s.bit m c = true) := by
  induction bcount generalizing block word with
  | zero => cases h
  | succ bcount ih =>
    rw [Volume.scanMap] at h
    split at h
    · rename_i w i hscan
      obtain ⟨hi, hw, hend, hfree, hset⟩ := scanBlock_some hscan
      cases h
      refine ⟨hend, ?_, .inl (fun c hc hlt => ?_)⟩
      · rw [bit_eq_blockBit (n := block) (by omega),
          show block * 8192 + w * 16 + i - block * 8192 = w * 16 + i by omega]
        exact hfree
      · rw [bit_eq_blockBit (n := block) (by omega)]
        exact hset _ (by omega) (by omega)
    · rename_i hscan
      obtain ⟨hend, hfree, hset⟩ := ih (Nat.zero_le 512) h
      refine ⟨hend, hfree, ?_⟩
      rcases hset with hset | hset
      · rw [Nat.zero_mul, Nat.add_zero] at hset
        split at hset
        · -- the scan has gone on at the block 0
          rw [Nat.zero_mul] at hset
          exact .inr (fun c hlt => hset c (Nat.zero_le c) hlt)
        · refine .inl (fun c hc hlt => ?_)
          by_cases hblock : c / 8192 = block
          · rw [bit_eq_blockBit hblock]
            exact scanBlock_none hscan (by omega) (by omega) (by omega)
          · exact hset c (by omega) hlt
      · exact .inr hset

/-- A scan that gives up has seen every block that it came to. -/
theorem scanMap_none {bcount block t : Nat} (hblock : block < s.bitBlocks m)
    (h : s.scanMap m bcount block 0 = none) (ht : t < bcount)
    (hc : c / 8192 = (block + t) % s.bitBlocks m) (hend : c < s.mapBits m) :
    s.bit m c = true := by
  induction bcount generalizing block t with
  | zero => omega
  | succ bcount ih =>
    rw [Volume.scanMap] at h
    split at h
    · cases h
    rename_i hscan
    have hnext : (if s.bitBlocks m ≤ block + 1 then 0 else block + 1) =
        (block + 1) % s.bitBlocks m := by
      split
      · rw [show block + 1 = s.bitBlocks m by omega, Nat.mod_self]
      · rw [Nat.mod_eq_of_lt (by omega)]
    rw [hnext] at h
    cases t with
    | zero =>
      have hb : c / 8192 = block := by
        rw [hc, Nat.add_zero, Nat.mod_eq_of_lt hblock]
      rw [bit_eq_blockBit hb]
      exact scanBlock_none hscan (by omega) (by omega) (by omega)
    | succ t =>
      refine ih (t := t) (Nat.mod_lt _ (by omega)) h (by omega) ?_
      rw [hc, Nat.mod_add_mod, Nat.add_right_comm, Nat.add_assoc]

/-- **ALL BLOCKS PLUS ONE** are enough: the scan gives up only if every bit of the map is set. -/
theorem scanMap_full {block word : Nat} (hbits : s.mapBits m ≤ s.bitBlocks m * 8192)
    (h : s.scanMap m (s.bitBlocks m + 1) block word = none) (hc : c < s.mapBits m) :
    s.bit m c = true := by
  rw [Volume.scanMap] at h
  split at h
  · cases h
  have hpos : 0 < s.bitBlocks m := by omega
  have hB : c / 8192 < s.bitBlocks m := by omega
  generalize hnext : (if s.bitBlocks m ≤ block + 1 then 0 else block + 1) = next at h
  have hlt : next < s.bitBlocks m := by
    rw [← hnext]
    split <;> omega
  refine scanMap_none (t := (c / 8192 + (s.bitBlocks m - next)) % s.bitBlocks m) hlt h
    (Nat.mod_lt _ hpos) ?_ hc
  rw [Nat.add_mod_mod, show next + (c / 8192 + (s.bitBlocks m - next)) =
    c / 8192 + s.bitBlocks m by omega, Nat.add_mod_right, Nat.mod_eq_of_lt hB]

/-! ## One bit -/

variable {k : BitVec 16} {m' : Map} {origin : Nat}

theorem place_setWord (s : Volume) (m m' : Map) (b c : Nat) (k : BitVec 16) :
    (s.setWord m b k).place m' c = s.place m' c := by
  cases m' <;> rfl

theorem place_congr (h : c / 16 = b / 16) : s.place m c = s.place m b :=
  congrArg₂ Prod.mk (by omega) (by omega)

theorem word_setWord (s : Volume) (m : Map) (b : Nat) (k : BitVec 16) :
    (s.setWord m b k).word m b = k := by
  rw [Volume.word, place_setWord]
  show chunk s.native (update s.disk (s.place m b) (chunk s.native k) (s.place m b)) = k
  rw [update_self, chunk_chunk]

/-- A word is written: the bits in it are those of the new word. -/
theorem bit_setWord (h : c / 16 = b / 16) : (s.setWord m b k).bit m c = k.getLsbD (c % 16) := by
  rw [Volume.bit, Volume.word, place_congr h, ← Volume.word, word_setWord]

/-- The bits of other words, of this or of the other map, are as they were. -/
theorem bit_setWord_of_ne (h : s.place m' c ≠ s.place m b) :
    (s.setWord m b k).bit m' c = s.bit m' c := by
  rw [Volume.bit, Volume.word, place_setWord]
  show (chunk s.native (update s.disk (s.place m b) _ (s.place m' c))).getLsbD (c % 16) = _
  rw [update_of_ne h]
  rfl

theorem bit_setWord_far (h : c / 16 ≠ b / 16) : (s.setWord m b k).bit m c = s.bit m c := by
  refine bit_setWord_of_ne (fun hp => h ?_)
  have h1 : s.startBlock m + c / 8192 = s.startBlock m + b / 8192 := congrArg Prod.fst hp
  have h2 : c % 8192 / 16 = b % 8192 / 16 := congrArg Prod.snd hp
  omega

/-- The maps do not overlap. -/
theorem place_ne (hb : b < s.imapBlocks * 8192) (c : Nat) : s.place .imap b ≠ s.place .zmap c := by
  intro hp
  have h1 : 2 + b / 8192 = 2 + s.imapBlocks + c / 8192 := congrArg Prod.fst hp
  omega

theorem bit_set (s : Volume) (m : Map) (b c : Nat) :
    (s.setWord m b (s.word m b ||| BitVec.twoPow 16 (b % 16))).bit m c =
      (decide (c = b) || s.bit m c) := by
  by_cases h : c / 16 = b / 16
  · have hmod : b % 16 = c % 16 ↔ c = b := by omega
    have hlt : b % 16 < 16 := by omega
    rw [bit_setWord h, BitVec.getLsbD_or, BitVec.getLsbD_twoPow, Volume.bit, Volume.word,
      Volume.word, place_congr h]
    simp only [hlt, hmod, decide_true, Bool.true_and, Bool.or_comm]
  · have hne : c ≠ b := fun hcb => h (hcb ▸ rfl)
    rw [bit_setWord_far h, decide_eq_false hne, Bool.false_or]

theorem bit_cleared (s : Volume) (m : Map) (b c : Nat) :
    (s.setWord m b (s.word m b &&& ~~~ BitVec.twoPow 16 (b % 16))).bit m c =
      (!decide (c = b) && s.bit m c) := by
  by_cases h : c / 16 = b / 16
  · have hmod : b % 16 = c % 16 ↔ c = b := by omega
    have hlt : b % 16 < 16 := by omega
    have hlt' : c % 16 < 16 := by omega
    rw [bit_setWord h, BitVec.getLsbD_and, BitVec.getLsbD_not, BitVec.getLsbD_twoPow, Volume.bit,
      Volume.word, Volume.word, place_congr h]
    simp only [hlt, hlt', hmod, decide_true, Bool.true_and, Bool.and_comm]
  · have hne : c ≠ b := fun hcb => h (hcb ▸ rfl)
    rw [bit_setWord_far h, decide_eq_false hne, Bool.not_false, Bool.true_and]

/-- The word that was there is written back. -/
theorem setWord_back (s : Volume) (m : Map) (b : Nat) (k : BitVec 16) :
    (s.setWord m b k).setWord m b (s.word m b) = s := by
  have hdisk : update (update s.disk (s.place m b) (chunk s.native k)) (s.place m b)
      (chunk s.native (s.word m b)) = s.disk := by
    rw [Volume.word, chunk_chunk, update_idem, update_eq_self]
  rw [Volume.setWord, place_setWord]
  show ({ s with disk := update (update s.disk _ _) _ (chunk s.native _) } : Volume) = s
  rw [hdisk]

/-- **`free_bit` RESTORES THE MAP.** -/
theorem freeBit_set (hrd : s.rdOnly = false) (hfree : s.bit m b = false) :
    (s.setWord m b (s.word m b ||| BitVec.twoPow 16 (b % 16))).freeBit m b = .ok s := by
  have hset := bit_set s m b b
  have hback : (s.word m b ||| BitVec.twoPow 16 (b % 16)) &&& ~~~ BitVec.twoPow 16 (b % 16) =
      s.word m b := by
    refine BitVec.eq_of_getLsbD_eq (fun i hi => ?_)
    simp only [BitVec.getLsbD_and, BitVec.getLsbD_or, BitVec.getLsbD_not, BitVec.getLsbD_twoPow]
    by_cases hib : b % 16 = i
    · subst hib
      rw [show (s.word m b).getLsbD (b % 16) = false from hfree]
      simp [hi]
    · simp [hi, hib]
  have hrd' : (s.setWord m b (s.word m b ||| BitVec.twoPow 16 (b % 16))).rdOnly = false := hrd
  rw [Volume.freeBit, hrd', if_neg Bool.false_ne_true, hset, decide_eq_true rfl, Bool.true_or,
    if_neg (by simp), word_setWord, hback, setWord_back]

/-! ## `alloc_bit` -/

/-- The bit `b` of the map is found and taken. -/
structure Taken (s : Volume) (m : Map) (b : Nat) (s' : Volume) : Prop where
  lt : b < s.mapBits m
  free : s.bit m b = false
  state : s' = s.setWord m b (s.word m b ||| BitVec.twoPow 16 (b % 16))

/-- **`alloc_bit`**: a full map, or a bit; no bit below it is free if none is below the origin. -/
theorem allocBit_cases (h : s.allocBit m origin = .ok (b, s')) :
    (b = 0 ∧ s' = s ∧ (s.mapBits m ≤ s.bitBlocks m * 8192 →
        ∀ c, c < s.mapBits m → s.bit m c = true)) ∨
      (Taken s m b s' ∧
        ((∀ c, c < origin → s.bit m c = true) → ∀ c, c < b → s.bit m c = true)) := by
  rw [Volume.allocBit] at h
  split at h
  · cases h
  dsimp only at h
  generalize horg : (if s.mapBits m ≤ origin then 0 else origin) = o at h
  have ho : o ≤ origin := by
    rw [← horg]
    split <;> omega
  split at h
  · rename_i b' hscan
    cases h
    obtain ⟨hlt, hfree, hset⟩ := scanMap_some (by omega) hscan
    refine .inr ⟨⟨hlt, hfree, rfl⟩, fun hlow c hc => ?_⟩
    rcases hset with hset | hset
    · by_cases hco : c < o
      · exact hlow c (by omega)
      · exact hset c (by omega) hc
    · exact hset c hc
  · rename_i hscan
    cases h
    exact .inl ⟨rfl, rfl, fun hbits c hc => scanMap_full hbits hscan hc⟩

theorem allocBit_ok (hrd : s.rdOnly = false) (m : Map) (origin : Nat) :
    ∃ b s', s.allocBit m origin = .ok (b, s') := by
  rw [Volume.allocBit, hrd, if_neg Bool.false_ne_true]
  dsimp only
  split <;> exact ⟨_, _, rfl⟩

theorem freeBit_state (h : s.freeBit m b = .ok s') :
    s' = s.setWord m b (s.word m b &&& ~~~ BitVec.twoPow 16 (b % 16)) := by
  rw [Volume.freeBit] at h
  split at h
  · cases h
  split at h
  · cases h
  · exact (Except.ok.inj h).symm

/-! ## Where searches start -/

/-- No bit is free below the place where the next search starts. -/
structure SearchOk (s : Volume) : Prop where
  fits : s.mapBits .imap ≤ s.imapBlocks * 8192
  iend : s.isearch ≤ s.imapBlocks * 8192
  ilow : ∀ c, c < s.isearch → s.bit .imap c = true
  zlow : ∀ c, c < s.zsearch → s.bit .zmap c = true

/-- A word of the zone map is written and the search of zones starts at `z`. -/
theorem SearchOk.zwrite (h : SearchOk s) {z : Nat}
    (hz : ∀ c, c < z → (s.setWord .zmap b k).bit .zmap c = true) :
    SearchOk { s.setWord .zmap b k with zsearch := z } where
  fits := h.fits
  iend := h.iend
  ilow c hc := by
    have hlt : c < s.imapBlocks * 8192 := Nat.lt_of_lt_of_le hc h.iend
    exact (bit_setWord_of_ne (place_ne hlt b)).trans (h.ilow c hc)
  zlow := hz

theorem SearchOk.iwrite (h : SearchOk s) {i : Nat} (hb : b < s.mapBits .imap)
    (hend : i ≤ s.imapBlocks * 8192)
    (hi : ∀ c, c < i → (s.setWord .imap b k).bit .imap c = true) :
    SearchOk { s.setWord .imap b k with isearch := i } where
  fits := h.fits
  iend := hend
  ilow := hi
  zlow c hc := by
    have hlt : b < s.imapBlocks * 8192 := Nat.lt_of_lt_of_le hb h.fits
    exact (bit_setWord_of_ne (place_ne hlt c).symm).trans (h.zlow c hc)

theorem Taken.bit (h : Taken s m b s') (c : Nat) : s'.bit m c = (decide (c = b) || s.bit m c) := by
  rw [h.state]
  exact bit_set s m b c

theorem SearchOk.allocZone {z : BitVec 32} (h : SearchOk s)
    (hz : (s.allocZone z).map Prod.snd = .ok s') : SearchOk s' := by
  rw [Volume.allocZone] at hz
  dsimp only at hz
  cases halloc : s.allocBit .zmap
    (if decide (z = ofUshort s.firstdatazone) then s.zsearch else (z - s.zoneBase).toNat) with
  | error x =>
    rw [halloc] at hz
    cases hz
  | ok r =>
    obtain ⟨b, t⟩ := r
    rw [halloc] at hz
    rcases allocBit_cases halloc with ⟨rfl, rfl, -⟩ | ⟨htaken, hlow⟩
    · cases hz
      exact h
    have hraise : ∀ c, c < s.zsearch → t.bit .zmap c = true := by
      intro c hc
      rw [htaken.bit, h.zlow c hc, Bool.or_true]
    have hkeep : SearchOk t := by
      have hw := htaken.state
      subst hw
      exact h.zwrite hraise
    simp only [Except.map] at hz
    split at hz
    · cases hz
      exact hkeep
    by_cases hfirst : z = ofUshort s.firstdatazone
    · rw [decide_eq_true hfirst] at hz hlow
      cases hz
      have hw := htaken.state
      subst hw
      refine h.zwrite (fun c hc => ?_)
      rw [bit_set, hlow h.zlow c hc, Bool.or_true]
    · rw [decide_eq_false hfirst] at hz
      cases hz
      exact hkeep

/-- A bit is cleared: below it, what was set is set. -/
theorem low_cleared (h : ∀ c, c < n → s.bit m c = true) (hc : c < n) (hne : c ≠ b) :
    (s.setWord m b (s.word m b &&& ~~~ BitVec.twoPow 16 (b % 16))).bit m c = true := by
  rw [bit_cleared, h c hc, decide_eq_false hne]
  rfl

theorem SearchOk.freeZone {numb : BitVec 32} (h : SearchOk s) (hf : s.freeZone numb = .ok s') :
    SearchOk s' := by
  rw [Volume.freeZone] at hf
  split at hf
  · cases hf
    exact h
  dsimp only at hf
  generalize (numb - s.zoneBase).toNat = b at hf
  cases hfree : s.freeBit .zmap b with
  | error x =>
    rw [hfree] at hf
    cases hf
  | ok t =>
    rw [hfree] at hf
    simp only [Except.map] at hf
    have ht := freeBit_state hfree
    subst ht
    split at hf
    · rename_i hlt
      cases hf
      exact h.zwrite (fun c hc => low_cleared h.zlow (Nat.lt_trans hc hlt) (by omega))
    · rename_i hge
      cases hf
      exact h.zwrite (fun c hc => low_cleared h.zlow hc (fun hcb => hge (hcb ▸ hc)))

theorem SearchOk.freeInode {inumb : BitVec 16} (h : SearchOk s)
    (hf : s.freeInode inumb = .ok s') : SearchOk s' := by
  rw [Volume.freeInode] at hf
  split at hf
  · cases hf
    exact h
  rename_i hin
  have hb : inumb.toNat < s.mapBits .imap := by
    have hle : ¬ s.ninodes < inumb := fun hlt => hin (.inr hlt)
    exact Nat.lt_succ_of_le (Nat.le_of_not_lt hle)
  generalize inumb.toNat = b at hf hb
  cases hfree : s.freeBit .imap b with
  | error x =>
    rw [hfree] at hf
    cases hf
  | ok t =>
    rw [hfree] at hf
    simp only [Except.map] at hf
    have ht := freeBit_state hfree
    subst ht
    split at hf
    · rename_i hlt
      cases hf
      exact h.iwrite hb (Nat.le_of_lt (Nat.lt_of_lt_of_le hlt h.iend))
        (fun c hc => low_cleared h.ilow (Nat.lt_trans hc hlt) (by omega))
    · rename_i hge
      cases hf
      exact h.iwrite hb h.iend (fun c hc => low_cleared h.ilow hc (fun hcb => hge (hcb ▸ hc)))

theorem SearchOk.allocInode {slot : Bool} (h : SearchOk s)
    (ha : (s.allocInode slot).map Prod.snd = .ok s') : SearchOk s' := by
  rw [Volume.allocInode] at ha
  split at ha
  · cases ha
    exact h
  cases halloc : s.allocBit .imap s.isearch with
  | error x =>
    rw [halloc] at ha
    cases ha
  | ok r =>
    obtain ⟨b, t⟩ := r
    rw [halloc] at ha
    dsimp only at ha
    rcases allocBit_cases halloc with ⟨rfl, rfl, -⟩ | ⟨htaken, hlow⟩
    · cases ha
      exact h
    have hend : b ≤ s.imapBlocks * 8192 := Nat.le_of_lt (Nat.lt_of_lt_of_le htaken.lt h.fits)
    have hset : ∀ c, c < b → t.bit .imap c = true := by
      intro c hc
      rw [htaken.bit, hlow h.ilow c hc, Bool.or_true]
    have hraise : ∀ c, c < s.isearch → t.bit .imap c = true := by
      intro c hc
      rw [htaken.bit, h.ilow c hc, Bool.or_true]
    have hbt := htaken.lt
    have hw := htaken.state
    subst hw
    have hnew := h.iwrite hbt hend hset
    split at ha
    · cases ha
      exact h.iwrite hbt h.iend hraise
    split at ha
    · cases ha
      exact hnew
    · -- no slot in the inode table: the bit is given back, and the search starts at it
      cases hfree : ({ s.setWord .imap b (s.word .imap b ||| BitVec.twoPow 16 (b % 16)) with
          isearch := b } : Volume).freeBit .imap b with
      | error x =>
        rw [hfree] at ha
        cases ha
      | ok u =>
        rw [hfree] at ha
        cases ha
        rw [freeBit_state hfree]
        exact hnew.iwrite hbt hend (fun c hc => low_cleared hnew.ilow hc (Nat.ne_of_lt hc))

/-- **EVERY CALL** keeps the law of the searches. -/
theorem SearchOk.call {x : MapCall} (h : SearchOk s) (hx : s.call x = .ok s') : SearchOk s' := by
  cases x with
  | allocZone z => exact h.allocZone hx
  | freeZone numb => exact h.freeZone hx
  | allocInode slot => exact h.allocInode hx
  | freeInode inumb => exact h.freeInode hx

theorem SearchOk.calls {xs : List MapCall} (h : SearchOk s) (hx : s.calls xs = .ok s') :
    SearchOk s' := by
  induction xs generalizing s with
  | nil =>
    cases hx
    exact h
  | cons x xs ih =>
    rw [Volume.calls] at hx
    split at hx
    · cases hx
    · rename_i t ht
      exact ih (h.call ht) hx

/-! ## The law -/

/-- **BIT MAP ALLOCATION.**  On a map that fits its blocks and has the bit 0 set, `alloc_bit`
    returns NO_BIT exactly if all bits of the map are set, and then changes nothing; otherwise
    it returns a bit of the map that was clear and is the only bit that has changed, in either
    map, and `free_bit` of it restores the device.  (A read-only file system makes it panic.)
    Whatever is allocated and freed, no bit below the start of a search is clear. -/
theorem bitmap_allocation (s : Volume) :
    (∀ m origin, s.mapBits m ≤ s.bitBlocks m * 8192 → s.bit m 0 = true →
      (s.rdOnly = true → s.allocBit m origin = .error .allocReadOnly) ∧
      (s.rdOnly = false → ∃ b s', s.allocBit m origin = .ok (b, s') ∧
        (b = 0 ↔ ∀ c, c < s.mapBits m → s.bit m c = true) ∧ (b = 0 → s' = s) ∧
        (b ≠ 0 → b < s.mapBits m ∧ s.bit m b = false ∧ s'.bit m b = true ∧
          (∀ m' c, c < s.bitBlocks m' * 8192 → (m', c) ≠ (m, b) → s'.bit m' c = s.bit m' c) ∧
          s'.freeBit m b = .ok s))) ∧
    (∀ xs s', s.mapBits .imap ≤ s.imapBlocks * 8192 → s.isearch = 0 → s.zsearch = 0 →
      s.calls xs = .ok s' → (∀ c, c < s'.isearch → s'.bit .imap c = true) ∧
        ∀ c, c < s'.zsearch → s'.bit .zmap c = true) := by
  refine ⟨fun m origin hbits h0 => ⟨fun hrd => ?_, fun hrd => ?_⟩, fun xs s' hfits hi hz hx => ?_⟩
  · rw [Volume.allocBit, if_pos hrd]
  · obtain ⟨b, s', halloc⟩ := allocBit_ok hrd m origin
    refine ⟨b, s', halloc, ?_⟩
    rcases allocBit_cases halloc with ⟨rfl, rfl, hfull⟩ | ⟨htaken, -⟩
    · exact ⟨⟨fun _ => hfull hbits, fun _ => rfl⟩, fun _ => rfl, fun hne => absurd rfl hne⟩
    have hne : b ≠ 0 := by
      rintro rfl
      exact nomatch h0.symm.trans htaken.free
    refine ⟨⟨fun h => absurd h hne, fun hall => ?_⟩, fun h => absurd h hne, fun _ => ?_⟩
    · exact nomatch (hall b htaken.lt).symm.trans htaken.free
    have hblock : b < s.bitBlocks m * 8192 := Nat.lt_of_lt_of_le htaken.lt hbits
    refine ⟨htaken.lt, htaken.free, ?_, fun m' c hc hmc => ?_, ?_⟩
    · rw [htaken.bit, decide_eq_true rfl, Bool.true_or]
    · by_cases hm : m' = m
      · subst hm
        have hcb : c ≠ b := fun h => hmc (h ▸ rfl)
        rw [htaken.bit, decide_eq_false hcb, Bool.false_or]
      · have hplace : s.place m' c ≠ s.place m b := by
          cases m with
          | imap =>
            cases m' with
            | imap => exact absurd rfl hm
            | zmap => exact (place_ne hblock c).symm
          | zmap =>
            cases m' with
            | imap => exact place_ne hc b
            | zmap => exact absurd rfl hm
        rw [htaken.state]
        exact bit_setWord_of_ne hplace
    · rw [htaken.state]
      exact freeBit_set hrd htaken.free
  · have hstart : SearchOk s :=
      ⟨hfits, by omega, fun c hc => by omega, fun c hc => by omega⟩
    have hend := hstart.calls hx
    exact ⟨hend.ilow, hend.zlow⟩

/-- A byte-swapped device with one block for each map, on which only the bits 0 are set. -/
def swappedVolume : Volume where
  ninodes := 20
  zones := 100
  firstdatazone := 5
  imapBlocks := 1
  zmapBlocks := 1
  native := false
  rdOnly := false
  isearch := 0
  zsearch := 0
  disk p := if p.2 = 0 then 0x100#16 else 0

/-- A bit near the end of the zone map, and some calls. -/
theorem bitmap_allocation_swapped :
    (∃ b s', swappedVolume.allocBit .zmap 95 = .ok (b, s') ∧ b ≠ 0 ∧
      s'.freeBit .zmap b = .ok swappedVolume) ∧
    ∃ s', swappedVolume.calls [.allocZone 5, .allocZone 90, .allocInode false, .freeZone 5] =
      .ok s' ∧ ∀ c, c < s'.zsearch → s'.bit .zmap c = true := by
  obtain ⟨halloc, hcalls⟩ := bitmap_allocation swappedVolume
  constructor
  · obtain ⟨b, s', hb, hfull, -, hnew⟩ := (halloc .zmap 95 (by decide) (by decide)).2 rfl
    have hne : b ≠ 0 := by
      intro h0
      exact absurd (hfull.mp h0 1 (by decide)) (by decide)
    exact ⟨b, s', hb, hne, (hnew hne).2.2.2.2⟩
  · cases hx : swappedVolume.calls
        [.allocZone 5, .allocZone 90, .allocInode false, .freeZone 5] with
    | error x =>
      have hok : (swappedVolume.calls
        [.allocZone 5, .allocZone 90, .allocInode false, .freeZone 5]).isOk = true := by
        decide +kernel
      rw [hx] at hok
      cases hok
    | ok s' => exact ⟨s', rfl, (hcalls _ s' (by decide) rfl rfl hx).2⟩

end Fs
