import Minix4rt.ClickProofs

/-! # Address translation — umap, and the copies that rely on it

    `umap` turns an address of a process into an address of memory, for a number of bytes.
    It guesses from the LAST byte whether data or stack is meant, and then looks only at the
    FIRST byte: is it below the end of the segment?  Nothing looks at the start of the segment,
    nothing looks at the end of the range, and the address of the last byte is computed in a
    word and may wrap.

    `do_vcopy` of the system task copies between processes on the word of `umap`.
    Memory is a function on words; the table of processes is a function on process numbers,
    since `proc_addr` checks nothing. -/

namespace Umap

open Click

/-- `p_map` of a process: text, data and stack. -/
structure Map where
  text : Seg
  data : Seg
  stack : Seg
deriving DecidableEq, Repr

/-- The selector of the text segment.  Every other selector means data or stack. -/
def segT : Int := 0

/-- The selector of the data segment. -/
def segD : Int := 1

namespace Map

/-- The segment that `umap` takes for a range. -/
def pick (m : Map) (seg : Int) (va n : Word) : Seg :=
  if seg = segT then m.text
  else if ofByte (va + n - 1) < m.data.top then m.data else m.stack

/-- `umap`; 0 is the refusal. -/
def umap (m : Map) (seg : Int) (va n : Word) : Word :=
  if n = 0 then 0
  else
    let g := m.pick seg va n
    if g.top ≤ ofByte va then 0 else toByte g.phys + (va - toByte g.vir)

/-- The segments that a selector allows. -/
def allowed (m : Map) (seg : Int) : List Seg :=
  if seg = segT then [m.text] else [m.data, m.stack]

/-- What callers rely on: an address that is not 0 is the address of the first byte in a
    segment that has all the bytes asked for. -/
def Inside (m : Map) (seg : Int) (va n : Word) : Prop :=
  m.umap seg va n ≠ 0 →
    ∃ g ∈ m.allowed seg, g.Covers va n ∧ m.umap seg va n = g.physAt va

instance (m : Map) (seg : Int) (va n : Word) : Decidable (m.Inside seg va n) :=
  inferInstanceAs (Decidable (_ → _))

/-- What `umap` answers, by the two tests that it makes. -/
theorem umap_cases (m : Map) (seg : Int) (va n : Word) :
    ((n = 0 ∨ (m.pick seg va n).top ≤ ofByte va) ∧ m.umap seg va n = 0) ∨
      (n ≠ 0 ∧ ofByte va < (m.pick seg va n).top ∧
        m.umap seg va n = (m.pick seg va n).physAt va) := by
  unfold umap
  by_cases hn : n = 0
  · rw [if_pos hn]
    exact .inl ⟨.inl hn, rfl⟩
  · rw [if_neg hn]
    dsimp only
    by_cases ht : (m.pick seg va n).top ≤ ofByte va
    · rw [if_pos ht]
      exact .inl ⟨.inr ht, rfl⟩
    · rw [if_neg ht]
      exact .inr ⟨hn, BitVec.not_le.mp ht, rfl⟩

/-- A process with 12 KB of data at address 0 and a stack of 4 KB above a gap. -/
def sample : Map :=
  { text := ⟨0x0#32, 0x100#32, 0x10#32⟩
    data := ⟨0x0#32, 0x200#32, 0x30#32⟩
    stack := ⟨0x40#32, 0x240#32, 0x10#32⟩ }

/-! ## What is accepted rightly -/

/-- The map of a process as MM makes it: the data lies below the stack, which ends within the
    address space. -/
structure Ordered (m : Map) : Prop where
  stack : m.stack.vir.toNat + m.stack.len.toNat ≤ 2 ^ 24
  below : m.data.vir.toNat + m.data.len.toNat ≤ m.stack.vir.toNat

variable {m : Map} {seg : Int} {g : Seg} {va n : Word}

/-- The last click of a range that does not wrap. -/
private theorem last_toNat (hn : n ≠ 0) (hw : va.toNat + n.toNat ≤ 2 ^ 32) :
    (ofByte (va + n - 1)).toNat = (va.toNat + n.toNat - 1) / 256 := by
  have hn' : n.toNat ≠ 0 := fun h => hn (BitVec.eq_of_toNat_eq h)
  have hva := va.isLt
  rw [ofByte_toNat, BitVec.toNat_sub, BitVec.toNat_add, show (1 : Word).toNat = 1 from rfl]
  congr 1
  omega

/-- A range within the data or the stack makes `umap` pick that segment. -/
theorem Ordered.pick_eq (ho : m.Ordered)
    (ht : seg ≠ segT) (hg : g ∈ m.allowed seg) (hn : n ≠ 0) (hc : g.Covers va n) :
    m.pick seg va n = g := by
  obtain ⟨hlo, hhi, hw⟩ := hc
  have hn' : n.toNat ≠ 0 := fun h => hn (BitVec.eq_of_toNat_eq h)
  have hlast := last_toNat hn hw
  have hs := ho.stack
  have hb := ho.below
  have htop := m.data.top_toNat (by omega)
  rw [allowed, if_neg ht] at hg
  rw [pick, if_neg ht]
  rcases List.mem_cons.mp hg with rfl | hg
  · rw [if_pos]
    rw [BitVec.lt_def, hlast, htop]
    omega
  · obtain rfl := List.mem_singleton.mp hg
    rw [if_neg]
    rw [BitVec.lt_def, hlast, htop]
    omega

/-- If `umap` picks a segment that has all the bytes, it gives the address there. -/
theorem umap_of_pick (hp : m.pick seg va n = g)
    (hn : n ≠ 0) (hc : g.Covers va n) (hfit : g.vir.toNat + g.len.toNat < 2 ^ 32) :
    m.umap seg va n = g.physAt va := by
  obtain ⟨hlo, hhi, -⟩ := hc
  have hn' : n.toNat ≠ 0 := fun h => hn (BitVec.eq_of_toNat_eq h)
  have hlt : ofByte va < g.top := by
    rw [BitVec.lt_def, ofByte_toNat, g.top_toNat hfit]
    omega
  rcases m.umap_cases seg va n with ⟨hno, -⟩ | ⟨-, -, hpa⟩
  · rcases hno with h | h
    · exact absurd h hn
    · rw [hp] at h
      exact absurd hlt (BitVec.not_lt.mpr h)
  · rw [hpa, hp]

/-- **WHAT LIES INSIDE IS TRANSLATED.**  A range within the data or the stack is accepted and
    gets its address in that segment. -/
theorem Ordered.umap_eq (ho : m.Ordered)
    (ht : seg ≠ segT) (hg : g ∈ m.allowed seg) (hn : n ≠ 0) (hc : g.Covers va n) :
    m.umap seg va n = g.physAt va := by
  refine umap_of_pick (ho.pick_eq ht hg hn hc) hn hc ?_
  have hs := ho.stack
  have hb := ho.below
  rw [allowed, if_neg ht] at hg
  rcases List.mem_cons.mp hg with rfl | hg
  · omega
  · rw [List.mem_singleton.mp hg]
    omega

/-- So does a range within the text. -/
theorem umap_text (hn : n ≠ 0) (hc : m.text.Covers va n)
    (hfit : m.text.vir.toNat + m.text.len.toNat < 2 ^ 32) :
    m.umap segT va n = m.text.physAt va := umap_of_pick rfl hn hc hfit

/-! ## What is accepted wrongly -/

/-- The map of a process in memory: the data lies below the stack, and every segment is in
    memory above its own addresses. -/
structure Placed (m : Map) : Prop where
  text : m.text.Placed
  data : m.data.Placed
  stack : m.stack.Placed
  below : m.data.vir.toNat + m.data.len.toNat ≤ m.stack.vir.toNat

theorem Placed.ordered (hm : m.Placed) : m.Ordered := by
  obtain ⟨hv, hl⟩ := hm.stack
  exact ⟨by omega, hm.below⟩

/-- The picked segment is one that may be meant, and it is in memory. -/
theorem Placed.pick_mem (hm : m.Placed) (seg : Int) (va n : Word) :
    m.pick seg va n ∈ m.allowed seg ∧ (m.pick seg va n).Placed := by
  unfold pick allowed
  by_cases ht : seg = segT
  · rw [if_pos ht, if_pos ht]
    exact ⟨List.mem_singleton_self _, hm.text⟩
  · rw [if_neg ht, if_neg ht]
    split
    · exact ⟨List.mem_cons_self, hm.data⟩
    · exact ⟨List.mem_cons_of_mem _ (List.mem_singleton_self _), hm.stack⟩

/-- No other segment has the bytes than the one that is picked. -/
theorem Placed.pick_eq (hm : m.Placed) (hg : g ∈ m.allowed seg) (hn : n ≠ 0)
    (hc : g.Covers va n) : m.pick seg va n = g := by
  by_cases ht : seg = segT
  · rw [allowed, if_pos ht] at hg
    rw [pick, if_pos ht, List.mem_singleton.mp hg]
  · exact hm.ordered.pick_eq ht hg hn hc

/-- The answer is right when the first byte is not below the end of the picked segment, and
    otherwise only if that segment has all the bytes. -/
theorem Placed.inside_pick (hm : m.Placed) (hn : n ≠ 0) :
    m.Inside seg va n ↔
      (m.pick seg va n).stop ≤ va.toNat ∨ (m.pick seg va n).Covers va n := by
  obtain ⟨hmem, hin⟩ := hm.pick_mem seg va n
  rcases m.umap_cases seg va n with ⟨hno, h0⟩ | ⟨-, hb, hpa⟩
  · refine iff_of_true (fun h => absurd h0 h) (.inl ?_)
    exact hin.top_le_iff.mp (hno.resolve_left hn)
  · have hlt : va.toNat < (m.pick seg va n).stop :=
      not_le.mp (fun h => BitVec.not_le.mpr hb (hin.top_le_iff.mpr h))
    constructor
    · intro hi
      obtain ⟨g, hg, hc, -⟩ := hi (hpa ▸ hin.physAt_ne_zero hlt)
      exact .inr (hm.pick_eq hg hn hc ▸ hc)
    · rintro (h | h) -
      · exact absurd h (not_le.mpr hlt)
      · exact ⟨_, hmem, h, hpa⟩

/-- Which of data and stack is picked, from the byte that is computed to be the last one. -/
theorem Placed.pick_data_iff (hm : m.Placed) (va : Word) (hn : n ≠ 0) :
    ofByte (va + n - 1) < m.data.top ↔
      (va.toNat + n.toNat - 1) % 2 ^ 32 < m.data.stop := by
  have hn' : n.toNat ≠ 0 := fun h => hn (BitVec.eq_of_toNat_eq h)
  have hlast : (va + n - 1).toNat = (va.toNat + n.toNat - 1) % 2 ^ 32 := by
    rw [BitVec.toNat_sub, BitVec.toNat_add, show (1 : Word).toNat = 1 from rfl]
    omega
  rw [← hlast, ← not_le, ← hm.data.top_le_iff, BitVec.not_le]

/-- **WHEN UMAP STAYS INSIDE.**  A range of the text has to start beyond the end of the text,
    so that it is refused, or lie within it.  Otherwise let `last` be the last byte as computed
    in a word.  If `last` is below the end of the data, the range has to start beyond the data,
    or not below them and without wrapping.  If it is not, the range has to start beyond the
    stack, or lie between its start and its end. -/
theorem umap_inside_iff (hm : m.Placed) (seg : Int) (va n : Word) (hn : n ≠ 0) :
    m.Inside seg va n ↔
      (seg = segT → m.text.stop ≤ va.toNat ∨
        m.text.start ≤ va.toNat ∧ va.toNat + n.toNat ≤ m.text.stop) ∧
      (seg ≠ segT → (va.toNat + n.toNat - 1) % 2 ^ 32 < m.data.stop →
        m.data.stop ≤ va.toNat ∨ m.data.start ≤ va.toNat ∧ va.toNat + n.toNat ≤ 2 ^ 32) ∧
      (seg ≠ segT → m.data.stop ≤ (va.toNat + n.toNat - 1) % 2 ^ 32 →
        m.stack.stop ≤ va.toNat ∨
          m.stack.start ≤ va.toNat ∧ va.toNat + n.toNat ≤ m.stack.stop) := by
  have hn' : n.toNat ≠ 0 := fun h => hn (BitVec.eq_of_toNat_eq h)
  have htext := hm.text.stop_le
  have hdata := hm.data.stop_le
  have hstack := hm.stack.stop_le
  rw [hm.inside_pick hn]
  by_cases ht : seg = segT
  · rw [pick, if_pos ht, Seg.covers_iff]
    simp only [ht, ne_eq, not_true_eq_false, true_imp_iff, false_imp_iff, and_true]
    omega
  · have hd := hm.pick_data_iff va hn
    rw [pick, if_neg ht]
    simp only [ht, ne_eq, not_false_eq_true, true_imp_iff, false_imp_iff, true_and]
    by_cases hlast : (va.toNat + n.toNat - 1) % 2 ^ 32 < m.data.stop
    · rw [if_pos (hd.mpr hlast), Seg.covers_iff]
      simp only [hlast, not_le.mpr hlast, true_imp_iff, false_imp_iff, and_true]
      omega
    · rw [if_neg (fun h => hlast (hd.mp h)), Seg.covers_iff]
      simp only [hlast, not_lt.mp hlast, true_imp_iff, false_imp_iff, true_and]
      omega

/-- Sixteen bytes of the stack of the sample are translated rightly, and sixteen bytes from
    half a click lower on are not. -/
theorem umap_inside_iff_sample :
    sample.Inside segD 0x4000#32 0x10#32 ∧ ¬ sample.Inside segD 0x3F80#32 0x10#32 := by
  have hm : sample.Placed := ⟨by decide, by decide, by decide, by decide⟩
  refine ⟨(umap_inside_iff hm segD _ _ (by decide)).mpr (by decide), fun h => ?_⟩
  exact absurd ((umap_inside_iff hm segD _ _ (by decide)).mp h) (by decide)

/-- Almost four gigabytes from address 0x2000 on wrap around to a byte of the data, and are
    accepted. -/
theorem umap_accepts_wrapped :
    sample.umap segD 0x2000#32 0xFFFFF000#32 = 0x22000#32 ∧
      ¬ sample.Inside segD 0x2000#32 0xFFFFF000#32 := by
  decide

-- the other two ways out: below the start of the stack, and beyond the end of the text
example : ¬ sample.Inside segD 0x3800#32 0x10#32 ∧ ¬ sample.Inside segT 0xFF0#32 0x20#32 := by
  decide

end Map

/-! ## The copies of the system task -/

/-- Physical memory. -/
abbrev Mem := Word → BitVec 8

/-- `n` bytes are read and then written, as one string instruction does it. -/
def moved (src dst : Word) (n : Nat) (mem : Mem) : Mem := fun a =>
  if (a - dst).toNat < n then mem (src + (a - dst)) else mem a

/-- `rep` before a string instruction that moves `w` bytes: one for `movsb`, four for `movs`. -/
def rep (w : Nat) (src dst : Word) : Nat → Mem → Mem
  | 0, mem => mem
  | k + 1, mem =>
    rep w (src + BitVec.ofNat 32 w) (dst + BitVec.ofNat 32 w) k (moved src dst w mem)

/-- `phys_copy`: from ten bytes on the source is aligned first, and moved in double words. -/
def physCopy (src dst n : Word) (mem : Mem) : Mem :=
  if n < 10 then rep 1 src dst n.toNat mem
  else
    let c := -src &&& 3
    let dwords := (n - c) >>> 2
    let mem := rep 1 src dst c.toNat mem
    let mem := rep 4 (src + c) (dst + c) dwords.toNat mem
    rep 1 (src + c + 4 * dwords) (dst + c + 4 * dwords) ((n - c) &&& 3).toNat mem

/-- What the copies return. -/
inductive Code where
  | ok | efault | edom
deriving DecidableEq, Repr

/-- `numap`. -/
def numap (procs : Int → Map) (procNr : Int) (va n : Word) : Word := (procs procNr).umap segD va n

/-- A word of memory, the low byte first. -/
def loadWord (mem : Mem) (a : Word) : Word :=
  (mem (a + 3) ++ mem (a + 2) ++ mem (a + 1) ++ mem a : BitVec 32)

/-- The size of a `cpvec_t`: three words. -/
def cpvecSize : Word := 12

/-- `CPVEC_NR`. -/
def cpvecNr : Int := 16

/-- A `cpvec_t`: source, destination and size of a copy. -/
structure Cpvec where
  src : Word
  dst : Word
  size : Word
deriving DecidableEq

/-- The entry `i` of the table at `tbl`, in memory like everything else. -/
def cpvec (mem : Mem) (tbl i : Word) : Cpvec :=
  let e := tbl + cpvecSize * i
  ⟨loadWord mem e, loadWord mem (e + 4), loadWord mem (e + 8)⟩

/-- A turn of the loop of `do_vcopy`; nothing is the `EFAULT`. -/
def vcopyOne (procs : Int → Map) (src dst : Int) (e : Cpvec) (mem : Mem) : Option Mem :=
  let srcPhys := numap procs src e.src e.size
  let dstPhys := numap procs dst e.dst e.size
  if srcPhys = 0 ∨ dstPhys = 0 then none else some (physCopy srcPhys dstPhys e.size mem)

/-- The loop of `do_vcopy` from the entry `i` on. -/
def vcopyLoop (procs : Int → Map) (src dst : Int) (tbl : Word) :
    Nat → Word → Mem → Mem × Code
  | 0, _, mem => (mem, .ok)
  | k + 1, i, mem =>
    match vcopyOne procs src dst (cpvec mem tbl i) mem with
    | none => (mem, .efault)
    | some mem' => vcopyLoop procs src dst tbl k (i + 1) mem'

/-- `do_vcopy`.  `vectS` is an `int`; a negative one passes the check and makes no turn of the
    loop, after a huge copy into the table. -/
def doVcopy (procs : Int → Map) (source src dst : Int) (vectS vectAddr tbl : Word) (mem : Mem) :
    Mem × Code :=
  if cpvecNr < vectS.toInt then (mem, .edom)
  else
    let n := vectS * cpvecSize
    let srcPhys := numap procs source vectAddr n
    if srcPhys = 0 then (mem, .efault)
    else vcopyLoop procs src dst tbl vectS.toInt.toNat 0 (physCopy srcPhys tbl n mem)

/-! ## What a copy writes -/

/-- `rep` writes only bytes of its destination. -/
theorem rep_frame (w : Nat) (src dst : Word) (k : Nat) (mem : Mem) {a : Word}
    (h : rep w src dst k mem a ≠ mem a) : ∃ j < w * k, a = dst + BitVec.ofNat 32 j := by
  induction k generalizing src dst mem with
  | zero => exact absurd rfl h
  | succ k ih =>
    rw [rep] at h
    by_cases ha : (a - dst).toNat < w
    · refine ⟨(a - dst).toNat, by rw [Nat.mul_succ]; omega, ?_⟩
      rw [BitVec.ofNat_toNat, BitVec.setWidth_eq, BitVec.add_comm, BitVec.sub_add_cancel]
    · have hm : moved src dst w mem a = mem a := if_neg ha
      obtain ⟨j, hj, he⟩ := ih _ _ _ (hm ▸ h)
      refine ⟨w + j, by rw [Nat.mul_succ]; omega, ?_⟩
      rw [he, BitVec.ofNat_add, BitVec.add_assoc]

/-- The three parts of a copy of ten bytes or more. -/
theorem parts_toNat (src : Word) {n : Word} (hn : ¬ n < 10) :
    (-src &&& 3).toNat + 4 * ((n - (-src &&& 3)) >>> 2).toNat
      + ((n - (-src &&& 3)) &&& 3).toNat = n.toNat := by
  have hc : (-src &&& 3).toNat ≤ 3 := by
    rw [BitVec.toNat_and]
    exact Nat.and_le_right
  generalize -src &&& 3 = c at hc
  have hn' : 10 ≤ n.toNat := BitVec.le_def.mp (BitVec.not_lt.mp hn)
  have hsub : (n - c).toNat = n.toNat - c.toNat :=
    BitVec.toNat_sub_of_le (BitVec.le_def.mpr (by omega))
  have hand : ((n - c) &&& 3).toNat = (n - c).toNat % 4 := by
    rw [BitVec.toNat_and]
    exact Nat.and_two_pow_sub_one_eq_mod _ 2
  rw [hand, BitVec.toNat_ushiftRight, Nat.shiftRight_eq_div_pow, hsub]
  omega

/-- A copy writes only bytes of its destination. -/
theorem physCopy_frame (src dst n : Word) (mem : Mem) {a : Word}
    (h : physCopy src dst n mem a ≠ mem a) : ∃ j < n.toNat, a = dst + BitVec.ofNat 32 j := by
  unfold physCopy at h
  split at h
  · simpa using rep_frame _ _ _ _ _ h
  · rename_i hn
    have hparts := parts_toNat src hn
    dsimp only at h
    generalize hc : -src &&& 3 = c at h hparts
    generalize hd : (n - c) >>> 2 = d at h hparts
    generalize (n - c) &&& 3 = r at h hparts
    have hoff : ∀ j : Nat, dst + c + 4 * d + BitVec.ofNat 32 j
        = dst + BitVec.ofNat 32 (c.toNat + 4 * d.toNat + j) := by
      intro j
      simp only [BitVec.ofNat_add, BitVec.ofNat_mul, BitVec.ofNat_toNat, BitVec.setWidth_eq,
        BitVec.add_assoc]
      rfl
    -- the byte is written by the last part that changes it
    by_cases h2 : rep 4 (src + c) (dst + c) d.toNat (rep 1 src dst c.toNat mem) a = mem a
    · obtain ⟨j, hj, he⟩ := rep_frame _ _ _ _ _ (h2 ▸ h)
      exact ⟨_, by omega, he.trans (hoff j)⟩
    · by_cases h1 : rep 1 src dst c.toNat mem a = mem a
      · obtain ⟨j, hj, he⟩ := rep_frame _ _ _ _ _ (h1 ▸ h2)
        refine ⟨c.toNat + j, by omega, he.trans ?_⟩
        rw [BitVec.ofNat_add, BitVec.ofNat_toNat, BitVec.setWidth_eq, BitVec.add_assoc]
      · obtain ⟨j, hj, he⟩ := rep_frame _ _ _ _ _ h1
        exact ⟨j, by omega, he⟩

/-- The sample process and a second one, 64 KB further on in memory. -/
def twoProcs (p : Int) : Map :=
  if p = 0 then .sample
  else { text := ⟨0x0#32, 0x200#32, 0x10#32⟩
         data := ⟨0x0#32, 0x300#32, 0x30#32⟩
         stack := ⟨0x40#32, 0x340#32, 0x10#32⟩ }

/-- `a` is where a byte of the range from `va` on is in memory, and the range lies within one
    segment of the map. -/
def Map.Hits (m : Map) (seg : Int) (va n a : Word) : Prop :=
  ∃ g ∈ m.allowed seg, g.Covers va n ∧ ∃ j < n.toNat, a = g.physAt (va + BitVec.ofNat 32 j)

/-- Copying to where `umap` says hits only bytes of a segment of the destination, if the answer
    of `umap` is inside. -/
theorem Map.Inside.hits {m : Map} {seg : Int} {va n : Word} (hin : m.Inside seg va n)
    (h0 : m.umap seg va n ≠ 0) {src a : Word} {mem : Mem}
    (h : physCopy src (m.umap seg va n) n mem a ≠ mem a) : m.Hits seg va n a := by
  obtain ⟨g, hg, hc, he⟩ := hin h0
  obtain ⟨j, hj, ha⟩ := physCopy_frame _ _ _ _ h
  refine ⟨g, hg, hc, j, hj, ?_⟩
  rw [Seg.physAt_add, ← he]
  exact ha

/-- The destinations that the loop of `do_vcopy` copies to, as it reads them. -/
def vcopyTargets (procs : Int → Map) (src dst : Int) (tbl : Word) :
    Nat → Word → Mem → List (Word × Word)
  | 0, _, _ => []
  | k + 1, i, mem =>
    let e := cpvec mem tbl i
    match vcopyOne procs src dst e mem with
    | none => []
    | some mem' => (e.dst, e.size) :: vcopyTargets procs src dst tbl k (i + 1) mem'

/-- A turn of the loop writes only bytes of a segment of the destination, if that is inside. -/
theorem vcopyOne_writes {procs : Int → Map} {src dst : Int} {e : Cpvec} {mem mem' : Mem}
    (hin : (procs dst).Inside segD e.dst e.size) (h : vcopyOne procs src dst e mem = some mem')
    {a : Word} (ha : mem' a ≠ mem a) : (procs dst).Hits segD e.dst e.size a := by
  unfold vcopyOne at h
  dsimp only at h
  split at h
  · cases h
  · rename_i hne
    obtain rfl := Option.some.inj h
    exact hin.hits (fun h0 => hne (.inr h0)) ha

/-- If all its destinations are inside, the loop writes only bytes of segments of the
    destination. -/
theorem vcopyLoop_writes (procs : Int → Map) (src dst : Int) (tbl : Word) (k : Nat) (i : Word)
    (mem : Mem)
    (hin : ∀ t ∈ vcopyTargets procs src dst tbl k i mem, (procs dst).Inside segD t.1 t.2)
    {a : Word} (h : (vcopyLoop procs src dst tbl k i mem).1 a ≠ mem a) :
    ∃ t ∈ vcopyTargets procs src dst tbl k i mem, (procs dst).Hits segD t.1 t.2 a := by
  induction k generalizing i mem with
  | zero => exact absurd rfl h
  | succ k ih =>
    rw [vcopyTargets] at hin ⊢
    rw [vcopyLoop] at h
    cases hone : vcopyOne procs src dst (cpvec mem tbl i) mem with
    | none =>
      rw [hone] at h
      exact absurd rfl h
    | some mem' =>
      simp only [hone] at hin h ⊢
      -- either this turn has written the byte, or a later one
      by_cases hnow : mem' a = mem a
      · obtain ⟨t, ht, hh⟩ := ih (i + 1) _ (fun t ht => hin t (List.mem_cons_of_mem _ ht))
          (hnow ▸ h)
        exact ⟨t, List.mem_cons_of_mem _ ht, hh⟩
      · exact ⟨_, List.mem_cons_self,
          vcopyOne_writes (hin _ List.mem_cons_self) hone hnow⟩

/-- **DO_VCOPY WRITES INSIDE.**  With a count that is not negative, `do_vcopy` stays within its
    table of `CPVEC_NR` entries and, if all its destinations are inside, the segments of the
    destination. -/
theorem doVcopy_writes (procs : Int → Map) (source src dst : Int) (vectS vectAddr tbl : Word)
    (mem mem' : Mem) (h0 : 0 ≤ vectS.toInt)
    (hmem : mem' = physCopy (numap procs source vectAddr (vectS * cpvecSize)) tbl
      (vectS * cpvecSize) mem)
    (hin : ∀ t ∈ vcopyTargets procs src dst tbl vectS.toInt.toNat 0 mem',
      (procs dst).Inside segD t.1 t.2)
    {a : Word} (h : (doVcopy procs source src dst vectS vectAddr tbl mem).1 a ≠ mem a) :
    (∃ j < 192, a = tbl + BitVec.ofNat 32 j) ∨
      ∃ t ∈ vcopyTargets procs src dst tbl vectS.toInt.toNat 0 mem',
        (procs dst).Hits segD t.1 t.2 a := by
  unfold doVcopy at h
  split at h
  · exact absurd rfl h
  rename_i hv
  dsimp only at h
  split at h
  · exact absurd rfl h
  rw [← hmem] at h
  by_cases hm : mem' a = mem a
  · exact .inr (vcopyLoop_writes procs src dst tbl _ 0 mem' hin (hm ▸ h))
  · -- the byte is one of the table
    rw [hmem] at hm
    obtain ⟨j, hj, ha⟩ := physCopy_frame _ _ _ _ hm
    have hle : vectS.toNat ≤ 16 := by
      rw [BitVec.toInt_eq_toNat_cond] at h0 hv
      rw [cpvecNr] at hv
      omega
    have hsize : (vectS * cpvecSize).toNat ≤ 192 :=
      (Nat.mod_le _ _).trans (Nat.mul_le_mul_right 12 hle)
    exact .inl ⟨j, hj.trans_le hsize, ha⟩

/-- A table of two entries at the start of the data of the sample: twelve bytes each, to the
    data and to the stack. -/
def vectors : Mem := fun a =>
  [0x00, 0x01, 0, 0, 0x00, 0x02, 0, 0, 12, 0, 0, 0,
   0x0E, 0x01, 0, 0, 0x10, 0x40, 0, 0, 12, 0, 0, 0].getD (a - 0x20000#32).toNat (a.setWidth 8)

/-- Both entries are copied, the second one to the stack of the other process. -/
theorem doVcopy_writes_sample :
    (doVcopy twoProcs 0 0 1 2#32 0#32 0x1000#32 vectors).1 0x34015#32 = 0x13#8 ∧
    ∃ t ∈ [(0x200#32, 12#32), (0x4010#32, 12#32)],
      (twoProcs 1).Hits segD t.1 t.2 0x34015#32 := by
  have ht : vcopyTargets twoProcs 0 1 0x1000#32 (2#32).toInt.toNat 0
      (physCopy 0x20000#32 0x1000#32 24#32 vectors) =
      [(0x200#32, 12#32), (0x4010#32, 12#32)] := by decide +kernel
  have hb : (doVcopy twoProcs 0 0 1 2#32 0#32 0x1000#32 vectors).1 0x34015#32 = 0x13#8 := by
    decide +kernel
  have hw := doVcopy_writes twoProcs 0 0 1 2#32 0#32 0x1000#32 vectors _ (by decide) rfl
    (ht ▸ List.forall_mem_cons.mpr ⟨by decide, List.forall_mem_singleton.mpr (by decide)⟩)
    (hb.trans_ne (by decide))
  exact ⟨hb, ht ▸ hw.resolve_left (by decide +kernel)⟩

end Umap
