import Minix4rt.UmapProofs
import Minix4rt.MmRequestProofs

/-! # The new image — what exec writes, and where

    `new_mem` gives a process a block for text, data, gap and stack and zeroes what the file
    does not fill; `load_seg` then has FS read text and data straight into the new segments.
    All sizes come from the header of the file.  They are added and rounded up to clicks in
    words, once in `read_header` and again in `new_mem`, and every check is made on the rounded
    sums, which may have WRAPPED. -/

namespace Mm

open Click Regions

/-! ## What is written -/

/-- `data_clicks`, `stack_clicks`, `tot_clicks` and `gap_clicks` of `new_mem`. -/
def dataClicks (z : Sizes) : Word := ofByte (z.data + z.bss + 255)
def stackClicks (stk : Word) : Word := ofByte (stk + 255)
def totClicks (z : Sizes) : Word := ofByte (z.total + 255)
def gapClicks (z : Sizes) (stk : Word) : Word := totClicks z - dataClicks z - stackClicks stk

/-- `bss_offset`. -/
def bssOffset (z : Sizes) : Word := toByte (ofByte z.data)

/-- How many bytes `new_mem` is to zero. -/
def zeroBytes (z : Sizes) (stk : Word) : Word :=
  toByte (dataClicks z + gapClicks z stk + stackClicks stk) - bssOffset z

/-- The copies of zeroes that `new_mem` makes, for data at the click `phys`: 1024 bytes at a
    time. -/
def zeroed (z : Sizes) (stk : Word) (phys : Nat) : List (Word × Word) :=
  slices 1024 (zeroBytes z stk).toNat (toByte (BitVec.ofNat 32 phys) + bssOffset z)
    (zeroBytes z stk)

/-- `(INT_MAX / BLOCK_SIZE) * BLOCK_SIZE`. -/
def readMax : Word := 0x7FFFFC00

/-- The reads that `load_seg` makes while none of them comes back short. -/
def loadSeg (vir : Nat) (segBytes : Word) : List (Word × Word) :=
  slices readMax 3 (toByte (BitVec.ofNat 32 vir)) segBytes

/-- The map as the kernel has it after `sys_newmap`. -/
def kernelSeg (g : MemMap) : Seg :=
  ⟨BitVec.ofNat 32 g.vir, BitVec.ofNat 32 g.phys, BitVec.ofNat 32 g.len⟩

def kernelMap (m : Mproc) : Umap.Map := ⟨kernelSeg m.segT, kernelSeg m.segD, kernelSeg m.segS⟩

/-- FS puts a byte of a file at `a` while it serves a read: it copies pieces of the range that
    was asked for, each to where `umap` says, unless `umap` refuses. -/
def Loads (k : Umap.Map) (seg : Int) (reads : List (Word × Word)) (a : Word) : Prop :=
  ∃ r ∈ reads, ∃ off, ∃ n : Word, off + n.toNat ≤ r.2.toNat ∧
    k.umap seg (r.1 + BitVec.ofNat 32 off) n ≠ 0 ∧
    InRange (k.umap seg (r.1 + BitVec.ofNat 32 off) n) n a

/-- The block that `new_mem` allocates. -/
def State.newBlock (s : State) (p : Slot) (share : Option Slot) (z : Sizes) : Region :=
  match s.freeImage p with
  | .ok holes => ⟨(allocMem (textClicks share z + clicksUp z.total) holes).1,
      textClicks share z + clicksUp z.total⟩
  | .error _ => ⟨0, 0⟩

/-- `a` is a byte of the block. -/
def InBlock (b : Region) (a : Word) : Prop :=
  ∃ off < b.len * 256, a = toByte (BitVec.ofNat 32 b.base) + BitVec.ofNat 32 off

/-- The image of a process is all right: what is zeroed and what is loaded lies in its block,
    the data has room for what the file says, and data, gap and stack fill the total. -/
structure GoodImage (b : Region) (share : Option Slot) (z : Sizes) (stk : Word) (m : Mproc) :
    Prop where
  zeroes : ∀ r ∈ zeroed z stk m.segD.phys, ∀ a, InRange r.1 r.2 a → InBlock b a
  text : share = none →
    ∀ a, Loads (kernelMap m) Umap.segT (loadSeg m.segT.vir z.text) a → InBlock b a
  data : ∀ a, Loads (kernelMap m) Umap.segD (loadSeg m.segD.vir z.data) a → InBlock b a
  room : z.data.toNat + z.bss.toNat ≤ m.segD.len * 256
  apart : m.segD.phys + m.segD.len ≤ m.segS.phys
  filled : m.segD.phys + clicksUp z.total = m.segS.phys + m.segS.len
  within : m.segD.phys + clicksUp z.total = b.base + b.len

/-! ## The sizes -/

theorem clicksUp_lt (x : Word) : clicksUp x < 2 ^ 24 := by
  have hlt := (x + 255#32).isLt
  show (ofByte (x + 255#32)).toNat < 2 ^ 24
  rw [ofByte_toNat]
  omega

/-- Rounding up is exact while it does not wrap. -/
theorem clicksUp_covers {x : Word} (h : x.toNat + 255 < 2 ^ 32) : x.toNat ≤ clicksUp x * 256 := by
  show x.toNat ≤ (ofByte (x + 255#32)).toNat * 256
  rw [ofByte_toNat, BitVec.toNat_add, show (255#32).toNat = 255 from rfl, Nat.mod_eq_of_lt h]
  omega

/-- Rounding up wraps to nothing at all. -/
theorem clicksUp_wrapped {x : Word} (h : 2 ^ 32 ≤ x.toNat + 255) : clicksUp x = 0 := by
  have hlt := x.isLt
  show (ofByte (x + 255#32)).toNat = 0
  rw [ofByte_toNat, BitVec.toNat_add, show (255#32).toNat = 255 from rfl]
  omega

/-- Room for data and bss, exactly when their sum does not wrap. -/
theorem room_iff (z : Sizes) :
    z.data.toNat + z.bss.toNat ≤ clicksUp (z.data + z.bss) * 256 ↔
      z.data.toNat + z.bss.toNat + 255 < 2 ^ 32 := by
  have hd := z.data.isLt
  have hb := z.bss.isLt
  show _ ≤ (ofByte (z.data + z.bss + 255#32)).toNat * 256 ↔ _
  rw [ofByte_toNat, BitVec.toNat_add, BitVec.toNat_add, show (255#32).toNat = 255 from rfl]
  omega

/-- Data, gap and stack are the total, also in words. -/
theorem clicks_total (z : Sizes) (stk : Word) :
    dataClicks z + gapClicks z stk + stackClicks stk = totClicks z := by
  rw [gapClicks]
  grind

theorem bssOffset_toNat (z : Sizes) : (bssOffset z).toNat = z.data.toNat / 256 * 256 := by
  have hlt := z.data.isLt
  rw [bssOffset, toByte_toNat, ofByte_toNat]
  omega

/-- What is to be zeroed ends with the total, if the data does not end beyond it. -/
theorem zeroBytes_toNat {z : Sizes} (stk : Word) (h : z.data.toNat ≤ clicksUp z.total * 256) :
    (bssOffset z).toNat + (zeroBytes z stk).toNat = clicksUp z.total * 256 := by
  have hlt := clicksUp_lt z.total
  have hoff := bssOffset_toNat z
  have htot : (toByte (totClicks z)).toNat = clicksUp z.total * 256 := by
    rw [toByte_toNat]
    exact Nat.mod_eq_of_lt (by show clicksUp z.total * 256 < _; omega)
  rw [zeroBytes, clicks_total, BitVec.toNat_sub_of_le (BitVec.le_def.mpr (by omega)), htot]
  omega

/-! ## Where the writes go -/

/-- A byte so far from the start of a part of the block is in the block. -/
theorem inBlock_of_offset {b : Region} {c k : Nat} {a : Word}
    (ha : a = toByte (BitVec.ofNat 32 (b.base + c)) + BitVec.ofNat 32 k)
    (h : c * 256 + k < b.len * 256) : InBlock b a := by
  refine ⟨c * 256 + k, h, ?_⟩
  have hc : toByte (BitVec.ofNat 32 c) = BitVec.ofNat 32 (c * 256) := by
    apply BitVec.eq_of_toNat_eq
    simp only [toByte_toNat, BitVec.toNat_ofNat]
    omega
  rw [ha, BitVec.ofNat_add, toByte_add, hc, BitVec.ofNat_add, BitVec.add_assoc]

/-- What FS loads of a segment that starts at address 0 and has room for it: a byte at its
    offset from the start of the segment. -/
theorem loads_offset {k : Umap.Map} {seg : Int} {g : Seg} {n : Word} {a : Word}
    (hvir : g.vir = 0) (hroom : n.toNat ≤ g.len.toNat * 256)
    (hmap : ∀ va c, c ≠ 0 → g.Covers va c → k.umap seg va c = g.physAt va)
    (h : Loads k seg (loadSeg 0 n) a) :
    ∃ j < n.toNat, a = toByte g.phys + BitVec.ofNat 32 j := by
  obtain ⟨r, hr, off, c, hoff, -, j, hj, ha⟩ := h
  obtain ⟨off0, hr1, hr2⟩ := slices_part _ _ _ hr
  have hn := n.isLt
  have hva : r.1 + BitVec.ofNat 32 off = BitVec.ofNat 32 (off0 + off) := by
    rw [hr1, BitVec.ofNat_add, show toByte (BitVec.ofNat 32 0) = 0#32 from rfl, BitVec.zero_add]
  have hvan : (BitVec.ofNat 32 (off0 + off)).toNat = off0 + off := by
    rw [BitVec.toNat_ofNat]
    exact Nat.mod_eq_of_lt (by omega)
  have hc : c ≠ 0 := by
    rintro rfl
    exact Nat.not_lt_zero _ hj
  have hcov : g.Covers (BitVec.ofNat 32 (off0 + off)) c := by
    rw [Seg.Covers, hvan, hvir, show (0 : Word).toNat = 0 from rfl]
    omega
  rw [hva, hmap _ _ hc hcov] at ha
  refine ⟨off0 + off + j, by omega, ?_⟩
  rw [ha, Seg.physAt, hvir, show toByte 0 = 0#32 from rfl, BitVec.sub_zero,
    BitVec.ofNat_add (off0 + off) j, BitVec.add_assoc]

/-- The text is the first part of the block.  If its size wraps it has no click, and `umap`
    refuses every byte. -/
theorem loads_text {k : Umap.Map} {text : Word} {b : Region} {a : Word}
    (hk : k.text = kernelSeg ⟨0, b.base, clicksUp text⟩) (hb : clicksUp text ≤ b.len)
    (h : Loads k Umap.segT (loadSeg 0 text) a) : InBlock b a := by
  by_cases hw : 2 ^ 32 ≤ text.toNat + 255
  · obtain ⟨r, -, off, n, -, h0, -⟩ := h
    rw [clicksUp_wrapped hw] at hk
    rcases k.umap_cases Umap.segT (r.1 + BitVec.ofNat 32 off) n with ⟨-, hu⟩ | ⟨-, hlt, -⟩
    · exact absurd hu h0
    · rw [show k.pick Umap.segT (r.1 + BitVec.ofNat 32 off) n = k.text from rfl, hk] at hlt
      exact absurd (BitVec.lt_def.mp hlt) (Nat.not_lt_zero _)
  · have hlt := clicksUp_lt text
    have hlen : (BitVec.ofNat 32 (clicksUp text)).toNat = clicksUp text := by
      rw [BitVec.toNat_ofNat]
      exact Nat.mod_eq_of_lt (by omega)
    have hroom : text.toNat ≤ k.text.len.toNat * 256 := by
      rw [hk]
      show text.toNat ≤ (BitVec.ofNat 32 (clicksUp text)).toNat * 256
      rw [hlen]
      exact clicksUp_covers (by omega)
    obtain ⟨j, hj, rfl⟩ := loads_offset (g := k.text) (by rw [hk]; rfl) hroom
      (fun va c hc hcov => Umap.Map.umap_text hc hcov (by
        rw [hk]
        show 0 + (BitVec.ofNat 32 (clicksUp text)).toNat < 2 ^ 32
        omega)) h
    have hcov := clicksUp_covers (x := text) (by omega)
    refine inBlock_of_offset (c := 0) (k := j) (by rw [hk]; rfl) ?_
    omega

/-- The new map of a process, from the block and the sizes in clicks. -/
theorem newMap_ordered (m : Mproc) (share : Option Mproc) (base textc datac gapc stackc : Nat)
    (h : datac + gapc + stackc < 2 ^ 24) :
    (kernelMap (newMap m share base textc datac gapc stackc)).Ordered := by
  refine ⟨?_, ?_⟩
  · show (BitVec.ofNat 32 (datac + gapc)).toNat + (BitVec.ofNat 32 stackc).toNat ≤ 2 ^ 24
    rw [BitVec.toNat_ofNat, BitVec.toNat_ofNat]
    omega
  · show (BitVec.ofNat 32 0).toNat + (BitVec.ofNat 32 datac).toNat
      ≤ (BitVec.ofNat 32 (datac + gapc)).toNat
    rw [BitVec.toNat_ofNat, BitVec.toNat_ofNat, BitVec.toNat_ofNat]
    omega

/-- An image with room for data and bss is all right, wherever its block is. -/
theorem newMap_good {m : Mproc} {s : State} {share : Option Slot} {z : Sizes} {stk : Word}
    {base : Nat} (hgap : clicksUp (z.data + z.bss) + clicksUp stk ≤ clicksUp z.total)
    (hroom : z.data.toNat + z.bss.toNat ≤ clicksUp (z.data + z.bss) * 256) :
    GoodImage ⟨base, textClicks share z + clicksUp z.total⟩ share z stk
      (newMap m (share.map s.mproc) base (textClicks share z) (clicksUp (z.data + z.bss))
        (clicksUp z.total - clicksUp (z.data + z.bss) - clicksUp stk) (clicksUp stk)) := by
  have htot := clicksUp_lt z.total
  have hlen : (BitVec.ofNat 32 (clicksUp (z.data + z.bss))).toNat = clicksUp (z.data + z.bss) := by
    have hlt := clicksUp_lt (z.data + z.bss)
    rw [BitVec.toNat_ofNat]
    exact Nat.mod_eq_of_lt (by omega)
  refine ⟨?_, ?_, ?_, hroom, ?_, ?_, ?_⟩
  · -- the zeroes start within the data and end with the total
    rintro r hr a ⟨j, hj, rfl⟩
    obtain ⟨off, hr1, hr2⟩ := slices_part _ _ _ hr
    have hend := zeroBytes_toNat stk (show z.data.toNat ≤ clicksUp z.total * 256 by omega)
    refine inBlock_of_offset (c := textClicks share z) (k := (bssOffset z).toNat + off + j) ?_ ?_
    · rw [hr1, BitVec.ofNat_add ((bssOffset z).toNat + off) j,
        BitVec.ofNat_add (bssOffset z).toNat off, BitVec.ofNat_toNat, BitVec.setWidth_eq,
        ← BitVec.add_assoc, ← BitVec.add_assoc]
      rfl
    · dsimp only
      omega
  · rintro rfl a hload
    exact loads_text rfl (Nat.le_add_right _ _) hload
  · intro a hload
    obtain ⟨j, hj, rfl⟩ := loads_offset (g := kernelSeg ⟨0, base + textClicks share z,
      clicksUp (z.data + z.bss)⟩) rfl
      (by
        show z.data.toNat ≤ (BitVec.ofNat 32 (clicksUp (z.data + z.bss))).toNat * 256
        omega)
      (fun va c hc hcov => (newMap_ordered m _ base _ _ _ _ (by omega)).umap_eq (by decide)
        (List.mem_cons_self ..) hc hcov) hload
    refine inBlock_of_offset rfl ?_
    dsimp only
    omega
  · show base + textClicks share z + clicksUp (z.data + z.bss) ≤ base + textClicks share z
      + clicksUp (z.data + z.bss) + (clicksUp z.total - clicksUp (z.data + z.bss) - clicksUp stk)
    omega
  · show base + textClicks share z + clicksUp z.total = base + textClicks share z
      + clicksUp (z.data + z.bss) + (clicksUp z.total - clicksUp (z.data + z.bss) - clicksUp stk)
      + clicksUp stk
    omega
  · show base + textClicks share z + clicksUp z.total
      = base + (textClicks share z + clicksUp z.total)
    omega

/-- **WHEN EXEC STAYS INSIDE.**  For every header and stack that `new_mem` accepts, the new
    image is all right exactly when data and bss, rounded up, do not wrap a word. -/
theorem exec_inside_iff {s t : State} {p : Slot} {share : Option Slot} {z : Sizes} {stk : Word}
    (h : s.newMem p share z stk = .ok (t, .ok)) :
    GoodImage (s.newBlock p share z) share z stk (t.mproc p) ↔
      z.data.toNat + z.bss.toNat + 255 < 2 ^ 32 := by
  rcases newMem_cases h with ⟨-, hno⟩ | ⟨holes, hgap, -, hfree, -, -, rfl⟩
  · exact absurd rfl hno
  · have hb : s.newBlock p share z = ⟨(allocMem (textClicks share z + clicksUp z.total) holes).1,
        textClicks share z + clicksUp z.total⟩ := by rw [State.newBlock, hfree]
    rw [hb, upd_self]
    constructor
    · intro hg
      exact (room_iff z).mp hg.room
    · intro hfit
      exact newMap_good hgap ((room_iff z).mpr hfit)

/-! ## Two images of INIT -/

/-- MM as it starts, with INIT at clicks 200 to 249 and a hole of 200 clicks. -/
def started : State :=
  { mproc := initSlot smallMap, procsInUse := 3, nextPid := 2, holes := [⟨300, 200⟩], log := [] }

/-- INIT gets an image of these sizes, with its data at the click `phys`. -/
def imageAt (z : Sizes) (stk : Word) (phys : Nat) : Bool :=
  match started.newMem initNr none z stk with
  | .ok (t, .ok) => decide ((t.mproc initNr).segD.phys = phys)
  | _ => false

theorem imageAt_newMem (z : Sizes) (stk : Word) (phys : Nat) (h : imageAt z stk phys = true) :
    ∃ t, started.newMem initNr none z stk = .ok (t, .ok) ∧ (t.mproc initNr).segD.phys = phys := by
  unfold imageAt at h
  split at h
  · rename_i t ht
    exact ⟨t, ht, of_decide_eq_true h⟩
  · cases h

/-- 2 KB of data and a little bss in a total of 4 KB. -/
def plainSizes : Sizes := ⟨0#32, 0x800#32, 0x100#32, 0x1000#32⟩

/-- An image of plain sizes is all right. -/
theorem exec_inside_iff_plain :
    ∃ t, started.newMem initNr none plainSizes 0x100#32 = .ok (t, .ok) ∧
      GoodImage (started.newBlock initNr none plainSizes) none plainSizes 0x100#32
        (t.mproc initNr) := by
  obtain ⟨t, ht, -⟩ := imageAt_newMem plainSizes 0x100#32 200 (by decide +kernel)
  exact ⟨t, ht, (exec_inside_iff ht).mpr (by decide)⟩

/-- A header with almost four gigabytes of data and a little more bss than is missing. -/
def hugeFile : ExecFile :=
  { ino := 7, dev := 1, ctime := 0, sep := false, text := 0#32, data := 0xFFFFFF00#32,
    bss := 0x200#32, total := 0x1000#32, setUid := none, setGid := none }

def hugeSizes : Sizes := ⟨0#32, 0xFFFFFF00#32, 0x200#32, 0x1000#32⟩

/-- **A HEADER THAT ZEROES FOREIGN MEMORY.**  The header is accepted and the image gets one
    click of data; the zeroes start a click below the block. -/
theorem exec_zeroes_below : ∃ t, readHeader hugeFile 0x100#32 = some hugeSizes ∧
    started.newMem initNr none hugeSizes 0x100#32 = .ok (t, .ok) ∧
    (∃ r ∈ zeroed hugeSizes 0x100#32 (t.mproc initNr).segD.phys, InRange r.1 r.2 0xC700#32) ∧
    ¬ InBlock (started.newBlock initNr none hugeSizes) 0xC700#32 ∧
    ¬ GoodImage (started.newBlock initNr none hugeSizes) none hugeSizes 0x100#32
      (t.mproc initNr) := by
  obtain ⟨t, ht, hphys⟩ := imageAt_newMem hugeSizes 0x100#32 200 (by decide +kernel)
  have hblock : started.newBlock initNr none hugeSizes = ⟨200, 16⟩ := by decide +kernel
  have hzero : ∃ r ∈ zeroed hugeSizes 0x100#32 (t.mproc initNr).segD.phys,
      InRange r.1 r.2 0xC700#32 := by
    rw [hphys]
    exact ⟨(0xC700#32, 0x400#32), by decide +kernel, 0, by decide, rfl⟩
  have hout : ¬ InBlock (started.newBlock initNr none hugeSizes) 0xC700#32 := by
    rw [hblock]
    rintro ⟨off, hoff, he⟩
    have hn := congrArg BitVec.toNat he
    rw [BitVec.toNat_add, toByte_toNat, BitVec.toNat_ofNat, BitVec.toNat_ofNat,
      BitVec.toNat_ofNat] at hn
    dsimp only at hoff hn
    omega
  refine ⟨t, rfl, ht, hzero, hout, fun hg => ?_⟩
  obtain ⟨r, hr, ha⟩ := hzero
  exact hout (hg.zeroes r hr _ ha)

end Mm
