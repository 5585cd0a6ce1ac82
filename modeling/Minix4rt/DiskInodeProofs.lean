import Minix4rt.ByteOrderProofs

/-! # Inodes on the disk

    `rw_inode` moves an inode between its slot in core and its place in an inode block, through
    `old_icopy` for V1 and `new_icopy` for V2 file systems.  What is written is read back, on
    file systems of either byte order, and no two inode numbers have the same place.

    Blocks come through the buffer cache: a block that is written stays in its buffer, marked
    dirty unless the file system is read-only, and gets to the disk when the buffer is written
    back or evicted. -/

namespace Fs

open Function

/-! ## Inodes -/

inductive Version where
  | v1
  | v2
  deriving DecidableEq

/-- The inode in core: what is on the disk, the number, and what `rw_inode` sets. -/
structure Inode where
  mode : BitVec 16
  nlinks : BitVec 8
  uid : BitVec 16
  gid : BitVec 8
  size : BitVec 32
  atime : BitVec 32
  mtime : BitVec 32
  ctime : BitVec 32
  zone : Fin 10 → BitVec 32
  num : BitVec 16
  ndzones : Nat
  nindirs : Nat
  dirt : Bool
  update : BitVec 8

/-- `d1_inode` -/
structure D1Inode where
  mode : BitVec 16
  uid : BitVec 16
  size : BitVec 32
  mtime : BitVec 32
  gid : BitVec 8
  nlinks : BitVec 8
  zone : Fin 9 → BitVec 16

/-- `d2_inode` -/
structure D2Inode where
  mode : BitVec 16
  nlinks : BitVec 16
  uid : BitVec 16
  gid : BitVec 16
  size : BitVec 32
  atime : BitVec 32
  mtime : BitVec 32
  ctime : BitVec 32
  zone : Fin 10 → BitVec 32

namespace Version

def DiskInode : Version → Type
  | v1 => D1Inode
  | v2 => D2Inode

/-- `V1_INODES_PER_BLOCK`, `V2_INODES_PER_BLOCK`: inodes have 32 and 64 bytes. -/
def inodesPerBlock : Version → Nat
  | v1 => 32
  | v2 => 16

/-- `V1_NR_TZONES`, `V2_NR_TZONES` -/
def nrTzones : Version → Nat
  | v1 => 9
  | v2 => 10

end Version

/-! ## Copies in the two formats -/

/-- `old_icopy`, READING -/
def oldIcopyRead (norm : Bool) (dip : D1Inode) (rip : Inode) : Inode :=
  { rip with
    mode := (conv2 norm (ofUshort dip.mode)).setWidth 16
    uid := (conv2 norm (ofShort dip.uid)).setWidth 16
    size := conv4 norm dip.size
    mtime := conv4 norm dip.mtime
    atime := conv4 norm dip.mtime
    ctime := conv4 norm dip.mtime
    nlinks := dip.nlinks
    gid := dip.gid
    ndzones := 7
    nindirs := 512
    zone := fun i => if h : i.val < 9 then conv2 norm (ofUshort (dip.zone ⟨i.val, h⟩))
      else rip.zone i }

/-- `old_icopy`, WRITING -/
def oldIcopyWrite (norm : Bool) (rip : Inode) : D1Inode where
  mode := (conv2 norm (ofUshort rip.mode)).setWidth 16
  uid := (conv2 norm (ofShort rip.uid)).setWidth 16
  size := conv4 norm rip.size
  mtime := conv4 norm rip.mtime
  nlinks := rip.nlinks
  gid := rip.gid
  zone i := (conv2 norm (rip.zone ⟨i.val, by omega⟩)).setWidth 16

/-- `new_icopy`, READING -/
def newIcopyRead (norm : Bool) (dip : D2Inode) (rip : Inode) : Inode :=
  { rip with
    mode := (conv2 norm (ofUshort dip.mode)).setWidth 16
    uid := (conv2 norm (ofShort dip.uid)).setWidth 16
    nlinks := (conv2 norm (ofUshort dip.nlinks)).setWidth 8
    gid := (conv2 norm (ofUshort dip.gid)).setWidth 8
    size := conv4 norm dip.size
    atime := conv4 norm dip.atime
    ctime := conv4 norm dip.ctime
    mtime := conv4 norm dip.mtime
    ndzones := 7
    nindirs := 256
    zone := fun i => conv4 norm (dip.zone i) }

/-- `new_icopy`, WRITING -/
def newIcopyWrite (norm : Bool) (rip : Inode) : D2Inode where
  mode := (conv2 norm (ofUshort rip.mode)).setWidth 16
  uid := (conv2 norm (ofShort rip.uid)).setWidth 16
  nlinks := (conv2 norm (ofChar rip.nlinks)).setWidth 16
  gid := (conv2 norm (ofChar rip.gid)).setWidth 16
  size := conv4 norm rip.size
  atime := conv4 norm rip.atime
  ctime := conv4 norm rip.ctime
  mtime := conv4 norm rip.mtime
  zone i := conv4 norm (rip.zone i)

def icopyRead : (v : Version) → Bool → v.DiskInode → Inode → Inode
  | .v1 => oldIcopyRead
  | .v2 => newIcopyRead

def icopyWrite : (v : Version) → Bool → Inode → v.DiskInode
  | .v1 => oldIcopyWrite
  | .v2 => newIcopyWrite

/-- The inode fits the format of the disk: V1 has zone numbers of 16 bits. -/
def Fits (v : Version) (rip : Inode) : Prop :=
  v = .v1 → ∀ i : Fin 10, i.val < 9 → (rip.zone i).toNat < 65536

/-- The fields that the format holds are the same. -/
structure SameInode (v : Version) (x y : Inode) : Prop where
  mode : x.mode = y.mode
  uid : x.uid = y.uid
  gid : x.gid = y.gid
  nlinks : x.nlinks = y.nlinks
  size : x.size = y.size
  mtime : x.mtime = y.mtime
  zone : ∀ i : Fin 10, i.val < v.nrTzones → x.zone i = y.zone i
  times : v = .v2 → x.atime = y.atime ∧ x.ctime = y.ctime

/-! ## Copies there and back -/

/-- A char is stored with its sign and read without. -/
theorem conv2_char (norm : Bool) (x : BitVec 8) :
    (conv2 norm (ofUshort ((conv2 norm (ofChar x)).setWidth 16))).setWidth 8 = x := by
  have hlow : (ofChar x).toNat % 256 = x.toNat := signExtend_low x (by omega)
  refine BitVec.eq_of_toNat_eq ?_
  rw [BitVec.toNat_setWidth, conv2_stored norm _ _ ofUshort_low, ← hlow]
  exact Nat.mod_mod_of_dvd _ (by decide)

/-- **WHAT IS COPIED OUT IS COPIED IN AGAIN**, into any slot. -/
theorem icopy_same (v : Version) (norm : Bool) (rip slot : Inode) (hfit : Fits v rip) :
    SameInode v (icopyRead v norm (icopyWrite v norm rip) slot) rip := by
  cases v with
  | v1 =>
    refine ⟨conv2_ushort norm _, conv2_short norm _, rfl, rfl, conv4_conv4 norm _,
      conv4_conv4 norm _, fun i hi => ?_, nofun⟩
    have hi : i.val < 9 := hi
    show (if h : i.val < 9 then conv2 norm (ofUshort ((oldIcopyWrite norm rip).zone ⟨i.val, h⟩))
      else slot.zone i) = rip.zone i
    rw [dif_pos hi]
    refine BitVec.eq_of_toNat_eq ?_
    show (conv2 norm (ofUshort ((conv2 norm (rip.zone i)).setWidth 16))).toNat = _
    rw [conv2_stored norm _ _ ofUshort_low]
    exact Nat.mod_eq_of_lt (hfit rfl i hi)
  | v2 =>
    exact ⟨conv2_ushort norm _, conv2_short norm _, conv2_char norm _, conv2_char norm _,
      conv4_conv4 norm _, conv4_conv4 norm _, fun i _ => conv4_conv4 norm _,
      fun _ => ⟨conv4_conv4 norm _, conv4_conv4 norm _⟩⟩

/-! ## Inode blocks -/

variable {v : Version}

/-- What `rw_inode` reads of the super block of a file system.  `read_super` sets the number of
    inodes in a block together with the version. -/
structure SuperBlock (v : Version) where
  imapBlocks : BitVec 16
  zmapBlocks : BitVec 16
  native : Bool
  rdOnly : Bool
  inodesPerBlock : BitVec 32
  perBlock : inodesPerBlock = BitVec.ofNat 32 v.inodesPerBlock

/-- `rip->i_num - 1` -/
def inodeIndex (n : BitVec 16) : BitVec 32 := ofUshort n - 1

/-- The block where an inode resides. -/
def SuperBlock.inodeBlock (sp : SuperBlock v) (n : BitVec 16) : BitVec 32 :=
  inodeIndex n / sp.inodesPerBlock + (ofShort sp.imapBlocks + ofShort sp.zmapBlocks + 2)

/-- Its place in the block. -/
def Version.slot (v : Version) (n : BitVec 16) : Fin v.inodesPerBlock :=
  ⟨(inodeIndex n).toNat % v.inodesPerBlock, Nat.mod_lt _ (by cases v <;> decide)⟩

abbrev InodeBlock (v : Version) : Type := Fin v.inodesPerBlock → v.DiskInode

structure Buf (v : Version) where
  data : InodeBlock v
  dirt : Bool

/-- A mounted device: its disk, and the blocks that are in the cache. -/
structure Device (v : Version) where
  disk : BitVec 32 → InodeBlock v
  buf : BitVec 32 → Option (Buf v)

/-- `get_block(dev, b, NORMAL)`: the block in the cache, or as it is read from the disk. -/
def Device.getBlock (d : Device v) (b : BitVec 32) : Buf v :=
  match d.buf b with
  | some bp => bp
  | none => ⟨d.disk b, false⟩

def Device.setBuf (d : Device v) (b : BitVec 32) (bp : Buf v) : Device v :=
  { d with buf := update d.buf b (some bp) }

namespace SuperBlock

/-- `update_times`, for the bits ATIME, CTIME and MTIME of `i_update` -/
def updateTimes (sp : SuperBlock v) (now : BitVec 32) (rip : Inode) : Inode :=
  if sp.rdOnly then rip
  else
    { rip with
      atime := if rip.update.getLsbD 1 then now else rip.atime
      ctime := if rip.update.getLsbD 2 then now else rip.ctime
      mtime := if rip.update.getLsbD 3 then now else rip.mtime
      update := 0 }

/-- The inode as it is when it is copied to its block. -/
def stamped (sp : SuperBlock v) (now : BitVec 32) (rip : Inode) : Inode :=
  if rip.update = 0 then rip else sp.updateTimes now rip

/-- `rw_inode(rip, READING)` -/
def readInode (sp : SuperBlock v) (d : Device v) (rip : Inode) : Device v × Inode :=
  let b := sp.inodeBlock rip.num
  let bp := d.getBlock b
  (d.setBuf b bp, { icopyRead v sp.native (bp.data (v.slot rip.num)) rip with dirt := false })

/-- `rw_inode(rip, WRITING)` at the time `now` -/
def writeInode (sp : SuperBlock v) (d : Device v) (rip : Inode) (now : BitVec 32) :
    Device v × Inode :=
  let b := sp.inodeBlock rip.num
  let bp := d.getBlock b
  let rip := sp.stamped now rip
  (d.setBuf b
    { data := update bp.data (v.slot rip.num) (icopyWrite v sp.native rip)
      dirt := if sp.rdOnly then bp.dirt else true },
    { rip with dirt := false })

/-- The disk copy of an inode, as the cache presents it. -/
def copy (sp : SuperBlock v) (d : Device v) (n : BitVec 16) : v.DiskInode :=
  (d.getBlock (sp.inodeBlock n)).data (v.slot n)

end SuperBlock

/-! ## Places -/

variable {sp : SuperBlock v} {d : Device v} {b : BitVec 32} {m n : BitVec 16}

theorem inodeIndex_inj (h : inodeIndex m = inodeIndex n) : m = n := by
  have hext : ofUshort m = ofUshort n := sub_left_injective h
  refine BitVec.eq_of_toNat_eq ?_
  rw [← ofUshort_low m, ← ofUshort_low n, hext]

/-- **NO TWO NUMBERS HAVE ONE PLACE**: the block has the quotient, the slot the remainder, by
    the same divisor. -/
theorem place_inj (hb : sp.inodeBlock m = sp.inodeBlock n) (hs : v.slot m = v.slot n) :
    m = n := by
  refine inodeIndex_inj (BitVec.eq_of_toNat_eq ?_)
  have hk : v.inodesPerBlock < 2 ^ 32 := by cases v <;> decide
  have hq := congrArg BitVec.toNat (add_right_cancel hb)
  rw [sp.perBlock, BitVec.toNat_udiv, BitVec.toNat_udiv, BitVec.toNat_ofNat,
    Nat.mod_eq_of_lt hk] at hq
  have hr : (inodeIndex m).toNat % v.inodesPerBlock = (inodeIndex n).toNat % v.inodesPerBlock :=
    congrArg Fin.val hs
  rw [← Nat.div_add_mod (inodeIndex m).toNat v.inodesPerBlock, hq, hr, Nat.div_add_mod]

/-! ## Writes and reads -/

theorem getBlock_setBuf (bp : Buf v) (c : BitVec 32) :
    (d.setBuf b bp).getBlock c = if c = b then bp else d.getBlock c := by
  unfold Device.getBlock Device.setBuf
  by_cases hc : c = b
  · subst hc
    rw [if_pos rfl]
    simp only [update_self]
  · rw [if_neg hc]
    simp only [update_of_ne hc]

theorem stamped_num (now : BitVec 32) (rip : Inode) : (sp.stamped now rip).num = rip.num := by
  unfold SuperBlock.stamped SuperBlock.updateTimes
  split_ifs <;> rfl

theorem stamped_zone (now : BitVec 32) (rip : Inode) : (sp.stamped now rip).zone = rip.zone := by
  unfold SuperBlock.stamped SuperBlock.updateTimes
  split_ifs <;> rfl

/-- **THE DISK COPIES AFTER A WRITE**: that of the inode written is new, the others are as they
    were. -/
theorem copy_writeInode (sp : SuperBlock v) (d : Device v) (rip : Inode) (now : BitVec 32)
    (n : BitVec 16) : sp.copy (sp.writeInode d rip now).1 n =
      if n = rip.num then icopyWrite v sp.native (sp.stamped now rip) else sp.copy d n := by
  show ((d.setBuf (sp.inodeBlock rip.num) _).getBlock (sp.inodeBlock n)).data (v.slot n) = _
  rw [getBlock_setBuf, stamped_num]
  by_cases hn : n = rip.num
  · subst hn
    rw [if_pos rfl, if_pos rfl]
    exact update_self _ _ _
  rw [if_neg hn]
  by_cases hb : sp.inodeBlock n = sp.inodeBlock rip.num
  · have hs : v.slot n ≠ v.slot rip.num := fun hs => hn (place_inj hb hs)
    rw [if_pos hb, SuperBlock.copy, hb]
    exact update_of_ne hs _ _
  · rw [if_neg hb]
    rfl

/-- Reading gives the disk copy of the number. -/
theorem readInode_same {rip slot : Inode} (hnum : slot.num = rip.num) (hfit : Fits v rip)
    (hcopy : sp.copy d rip.num = icopyWrite v sp.native rip) :
    SameInode v (sp.readInode d slot).2 rip := by
  have hread : (sp.readInode d slot).2 =
      { icopyRead v sp.native (sp.copy d rip.num) slot with dirt := false } := by
    rw [← hnum]
    rfl
  obtain ⟨h1, h2, h3, h4, h5, h6, h7, h8⟩ := icopy_same v sp.native rip slot hfit
  rw [hread, hcopy]
  exact ⟨h1, h2, h3, h4, h5, h6, h7, h8⟩

/-! ## The cache -/

/-- A buffer is written back if it is dirty, and then kept or given to another block. -/
def Device.release (d : Device v) (b : BitVec 32) (keep : Bool) : Device v :=
  match d.buf b with
  | none => d
  | some bp =>
    { disk := if bp.dirt then update d.disk b bp.data else d.disk
      buf := update d.buf b (if keep then some { bp with dirt := false } else none) }

def Device.releaseAll (d : Device v) : List (BitVec 32 × Bool) → Device v
  | [] => d
  | (b, keep) :: l => (d.release b keep).releaseAll l

/-- Buffers that are not dirty hold what the disk holds. -/
def Device.Coherent (d : Device v) : Prop :=
  ∀ b bp, d.buf b = some bp → bp.dirt = false → bp.data = d.disk b

/-- Releasing a buffer does not change what the cache presents. -/
theorem Device.Coherent.release (h : d.Coherent) (b : BitVec 32) (keep : Bool) :
    (d.release b keep).Coherent ∧
      ∀ c, ((d.release b keep).getBlock c).data = (d.getBlock c).data := by
  unfold Device.release
  cases hb : d.buf b with
  | none => exact ⟨h, fun _ => rfl⟩
  | some bp =>
    -- after the release the disk has the block that the buffer had
    have hdisk : (if bp.dirt then update d.disk b bp.data else d.disk) b = bp.data := by
      split
      · exact update_self _ _ _
      · rename_i hclean
        exact (h b bp hb (by simpa using hclean)).symm
    have hother : ∀ c, c ≠ b →
        (if bp.dirt then update d.disk b bp.data else d.disk) c = d.disk c := by
      intro c hc
      split
      · exact update_of_ne hc _ _
      · rfl
    refine ⟨fun c bp' hc hclean => ?_, fun c => ?_⟩
    · by_cases hcb : c = b
      · subst hcb
        dsimp only at hc ⊢
        rw [update_self] at hc
        split at hc
        · cases hc
          exact hdisk.symm
        · cases hc
      · dsimp only at hc ⊢
        rw [update_of_ne hcb] at hc
        rw [hother c hcb]
        exact h c bp' hc hclean
    · by_cases hcb : c = b
      · subst hcb
        unfold Device.getBlock
        rw [hb]
        dsimp only
        rw [update_self]
        cases keep with
        | true => rfl
        | false => exact hdisk
      · unfold Device.getBlock
        dsimp only
        rw [update_of_ne hcb, hother c hcb]

theorem Device.Coherent.releaseAll (h : d.Coherent) (l : List (BitVec 32 × Bool)) (c : BitVec 32) :
    ((d.releaseAll l).getBlock c).data = (d.getBlock c).data := by
  induction l generalizing d with
  | nil => rfl
  | cons x l ih =>
    obtain ⟨h1, h2⟩ := h.release x.1 x.2
    exact (ih h1).trans (h2 c)

/-- A write marks the buffer, if the file system is not read-only. -/
theorem Device.Coherent.writeInode (h : d.Coherent) (hrd : sp.rdOnly = false) (rip : Inode)
    (now : BitVec 32) : (sp.writeInode d rip now).1.Coherent := by
  intro c bp hc hclean
  change update d.buf (sp.inodeBlock rip.num) _ c = some bp at hc
  by_cases hcb : c = sp.inodeBlock rip.num
  · subst hcb
    rw [update_self, hrd] at hc
    cases hc
    cases hclean
  · rw [update_of_ne hcb] at hc
    exact h c bp hc hclean

/-! ## The law -/

theorem Fits.stamped {rip : Inode} (h : Fits v rip) (sp : SuperBlock v) (now : BitVec 32) :
    Fits v (sp.stamped now rip) := by
  unfold Fits at h ⊢
  rw [stamped_zone]
  exact h

/-- The copy in the slot comes from what was written, wherever the cache keeps it. -/
theorem readInode_written {rip slot : Inode} {now : BitVec 32} {d' : Device v}
    (hnum : slot.num = rip.num) (hfit : Fits v rip)
    (hcopy : sp.copy d' rip.num = sp.copy (sp.writeInode d rip now).1 rip.num) :
    SameInode v (sp.readInode d' slot).2 (sp.writeInode d rip now).2 := by
  have hsame : (sp.stamped now rip).num = rip.num := stamped_num now rip
  rw [copy_writeInode, if_pos rfl, ← hsame] at hcopy
  obtain ⟨h1, h2, h3, h4, h5, h6, h7, h8⟩ :=
    readInode_same (hnum.trans hsame.symm) (hfit.stamped sp now) hcopy
  exact ⟨h1, h2, h3, h4, h5, h6, h7, h8⟩

/-- **DISK INODE ROUND TRIP.**  An inode that fits the format is read back as `rw_inode` leaves
    it in core, into any slot for its number: with the fields that it had, the times apart that
    `i_update` marks.  The disk copies of all other numbers are as they were.  On a file system
    that can be written, this still holds when buffers have been written back or evicted in
    between. -/
theorem disk_inode_round_trip (sp : SuperBlock v) (d : Device v) (rip : Inode)
    (now : BitVec 32) (hfit : Fits v rip) :
    ((sp.writeInode d rip now).2 =
      { rip with
        atime := if sp.rdOnly = false ∧ rip.update.getLsbD 1 then now else rip.atime
        ctime := if sp.rdOnly = false ∧ rip.update.getLsbD 2 then now else rip.ctime
        mtime := if sp.rdOnly = false ∧ rip.update.getLsbD 3 then now else rip.mtime
        update := if sp.rdOnly then rip.update else 0
        dirt := false }) ∧
    (∀ slot : Inode, slot.num = rip.num →
      SameInode v (sp.readInode (sp.writeInode d rip now).1 slot).2 (sp.writeInode d rip now).2) ∧
    (∀ n, n ≠ rip.num → sp.copy (sp.writeInode d rip now).1 n = sp.copy d n) ∧
    (sp.rdOnly = false → d.Coherent → ∀ l,
      (∀ slot : Inode, slot.num = rip.num →
        SameInode v (sp.readInode ((sp.writeInode d rip now).1.releaseAll l) slot).2
          (sp.writeInode d rip now).2) ∧
      ∀ n, n ≠ rip.num → sp.copy ((sp.writeInode d rip now).1.releaseAll l) n = sp.copy d n) := by
  have hother : ∀ n, n ≠ rip.num → sp.copy (sp.writeInode d rip now).1 n = sp.copy d n := by
    intro n hn
    rw [copy_writeInode, if_neg hn]
  refine ⟨?_, fun slot hnum => readInode_written hnum hfit rfl, hother, fun hrd hcoh l => ?_⟩
  · show ({ sp.stamped now rip with dirt := false } : Inode) = _
    unfold SuperBlock.stamped SuperBlock.updateTimes
    by_cases hu : rip.update = 0
    · simp [hu]
    · rw [if_neg hu]
      cases hrd : sp.rdOnly <;> simp
  have hcopy : ∀ n, sp.copy ((sp.writeInode d rip now).1.releaseAll l) n =
      sp.copy (sp.writeInode d rip now).1 n := by
    intro n
    rw [SuperBlock.copy, (hcoh.writeInode hrd rip now).releaseAll l]
    rfl
  exact ⟨fun slot hnum => readInode_written hnum hfit (hcopy _),
    fun n hn => (hcopy n).trans (hother n hn)⟩

/-- A byte-swapped V1 file system; the tenth zone number has no place on it and does not have
    to fit. -/
theorem disk_inode_round_trip_swapped :
    ∃ (sp : SuperBlock .v1) (d : Device .v1) (rip slot : Inode), sp.native = false ∧
      Fits .v1 rip ∧ rip.zone 9 = 70000 ∧
      SameInode .v1 (sp.readInode (sp.writeInode d rip 0).1 slot).2 (sp.writeInode d rip 0).2 := by
  let sp : SuperBlock .v1 := ⟨1, 1, false, false, 32, rfl⟩
  let dip : D1Inode := ⟨0, 0, 0, 0, 0, 0, fun _ => 0⟩
  let rip : Inode := ⟨0x81A4, 1, 2, 3, 1000, 0, 5, 0, fun i => if i = 9 then 70000 else 258, 33,
    7, 512, true, 0⟩
  have hfit : Fits .v1 rip := by
    intro _ i hi
    have hi9 : i ≠ 9 := by
      rintro rfl
      exact absurd hi (by decide)
    show (if i = 9 then 70000#32 else 258#32).toNat < 65536
    rw [if_neg hi9]
    decide
  exact ⟨sp, ⟨fun _ _ => dip, fun _ => none⟩, rip, rip, rfl, hfit, rfl,
    (disk_inode_round_trip sp _ rip 0 hfit).2.1 rip rfl⟩

end Fs
