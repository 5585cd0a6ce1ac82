import Minix4rt.ClickProofs
import Minix4rt.MmSignalModelProofs

/-! # The break — moving the ends of data and stack in machine words

    `do_brk` asks for a new end of the data; `adjust` moves that end, lets the stack grow down
    to the stack pointer, and takes both back when `size_ok` finds that they collide.  The
    sizes are unsigned words, the break itself and the distance to the stack pointer are
    SIGNED longs, and nothing is checked for wrapping.

    The model of MM counts clicks in natural numbers.  This one is the same code in words, for
    all maps; at the end the two are shown to agree on the maps that MM makes. -/

namespace Brk

open Click

/-- Data and stack of a process; nothing else is read or written. -/
structure Map where
  data : Seg
  stack : Seg
deriving DecidableEq, Repr

inductive Code where
  | ok | enomem
deriving DecidableEq, Repr

/-- `SAFETY_CLICKS`. -/
def safetyClicks : Word := 6

/-- `size_ok`. -/
def sizeOk (dc dvir svir : Word) : Bool := decide (¬ svir < dvir + dc)

/-- `delta` of `adjust`, a signed long. -/
def delta (m : Map) (spClick : Word) : Word := m.stack.vir - spClick

/-- Both segments after they have been changed. -/
def moved (m : Map) (dataClicks spClick : Word) : Map :=
  { data := { m.data with len := dataClicks }
    stack := if 0 < (delta m spClick).toInt then
        { vir := m.stack.vir - delta m spClick
          phys := m.stack.phys - delta m spClick
          len := m.stack.len + delta m spClick }
      else m.stack }

@[simp] theorem moved_data_len (m : Map) (dc c : Word) : (moved m dc c).data.len = dc := rfl

@[simp] theorem moved_data_vir (m : Map) (dc c : Word) :
    (moved m dc c).data.vir = m.data.vir := rfl

/-- The changes taken back, by the reverse arithmetic. -/
def restored (m : Map) (n : Map) (spClick : Word) : Map :=
  { data := { n.data with len := m.data.len }
    stack := if 0 < (delta m spClick).toInt then
        { vir := n.stack.vir + delta m spClick
          phys := n.stack.phys + delta m spClick
          len := n.stack.len - delta m spClick }
      else n.stack }

/-- `adjust`. -/
def adjust (m : Map) (dataClicks sp : Word) : Map × Code :=
  if m.stack.len = 0 then (m, .ok)
  else
    let spClick := ofByte sp
    -- compared as unsigned longs
    if m.stack.vir + m.stack.len ≤ spClick then (m, .enomem)
    else
      let lower := if 0 < (delta m spClick).toInt then spClick else m.stack.vir
      if lower < m.data.vir + dataClicks + safetyClicks then (m, .enomem)
      else
        let n := moved m dataClicks spClick
        if sizeOk n.data.len n.data.vir n.stack.vir then (n, .ok)
        else (restored m n spClick, .enomem)

/-- The break in clicks: the shift is one of a signed long. -/
def newClicks (addr : Word) : Word := (addr + 255).sshiftRight 8

/-- `do_brk`, with the value of `res_ptr`. -/
def doBrk (m : Map) (addr sp : Word) : Map × Code × Word :=
  if newClicks addr < m.data.vir then (m, .enomem, -1)
  else
    let r := adjust m (newClicks addr - m.data.vir) sp
    (r.1, r.2, if r.2 = .ok then addr else -1)

/-! ## What a good break is -/

/-- The map `n` is a good answer to a break at `addr` with the stack pointer at `sp`. -/
structure Good (m n : Map) (addr sp : Word) : Prop where
  covered : ∀ a : Word, n.data.vir.toNat * 256 ≤ a.toNat → a < addr →
    a.toNat < (n.data.vir.toNat + n.data.len.toNat) * 256
  holdsSp : n.stack.vir.toNat ≤ (ofByte sp).toNat ∧
    (ofByte sp).toNat < n.stack.vir.toNat + n.stack.len.toNat
  apart : n.data.vir.toNat + n.data.len.toNat ≤ n.stack.vir.toNat
  top : n.stack.vir.toNat + n.stack.len.toNat = m.stack.vir.toNat + m.stack.len.toNat
  offset : n.stack.phys - n.stack.vir = m.stack.phys - m.stack.vir

/-- The answer of `do_brk` is a good one, or the map is as before. -/
def Sound (m : Map) (addr sp : Word) : Prop :=
  ((doBrk m addr sp).2.1 = .ok → Good m (doBrk m addr sp).1 addr sp) ∧
    ((doBrk m addr sp).2.1 ≠ .ok → (doBrk m addr sp).1 = m)

/-- **TAKING BACK IS EXACT**, in words. -/
theorem restored_moved (m : Map) (dc spClick : Word) :
    restored m (moved m dc spClick) spClick = m := by
  unfold restored moved
  by_cases hd : 0 < (delta m spClick).toInt
  · simp only [if_pos hd, BitVec.sub_add_cancel, BitVec.add_sub_cancel]
  · simp only [if_neg hd]

/-- What `adjust` does, by its tests. -/
theorem adjust_cases (m : Map) (dc sp : Word) :
    (m.stack.len = 0 ∧ adjust m dc sp = (m, .ok)) ∨
      (m.stack.len ≠ 0 ∧ ofByte sp < m.stack.vir + m.stack.len ∧
        m.data.vir + dc ≤ (moved m dc (ofByte sp)).stack.vir ∧
        adjust m dc sp = (moved m dc (ofByte sp), .ok)) ∨
      adjust m dc sp = (m, .enomem) := by
  unfold adjust
  by_cases hl : m.stack.len = 0
  · rw [if_pos hl]
    exact .inl ⟨hl, rfl⟩
  · rw [if_neg hl]
    dsimp only
    by_cases hb : m.stack.vir + m.stack.len ≤ ofByte sp
    · rw [if_pos hb]
      exact .inr (.inr rfl)
    · rw [if_neg hb]
      by_cases hg : (if 0 < (delta m (ofByte sp)).toInt then ofByte sp else m.stack.vir)
          < m.data.vir + dc + safetyClicks
      · rw [if_pos hg]
        exact .inr (.inr rfl)
      · rw [if_neg hg]
        by_cases hs : sizeOk (moved m dc (ofByte sp)).data.len (moved m dc (ofByte sp)).data.vir
            (moved m dc (ofByte sp)).stack.vir = true
        · rw [if_pos hs]
          refine .inr (.inl ⟨hl, BitVec.not_le.mp hb, ?_, rfl⟩)
          exact BitVec.not_lt.mp (of_decide_eq_true hs)
        · rw [if_neg hs, restored_moved]
          exact .inr (.inr rfl)

variable {m : Map} {dc sp addr : Word}

/-- A refusal leaves the map as it was. -/
theorem adjust_enomem (h : (adjust m dc sp).2 = .enomem) : (adjust m dc sp).1 = m := by
  rcases adjust_cases m dc sp with ⟨-, he⟩ | ⟨-, -, -, he⟩ | he
  · rw [he]
  · rw [he] at h
    cases h
  · rw [he]

/-- What `do_brk` does, by its tests. -/
theorem doBrk_cases (m : Map) (addr sp : Word) :
    ((doBrk m addr sp).2.1 = .enomem ∧ (doBrk m addr sp).1 = m) ∨
      ((doBrk m addr sp).2.1 = .ok ∧ m.data.vir ≤ newClicks addr ∧
        ((m.stack.len = 0 ∧ (doBrk m addr sp).1 = m) ∨
          (m.stack.len ≠ 0 ∧ ofByte sp < m.stack.vir + m.stack.len ∧
            newClicks addr ≤
              (moved m (newClicks addr - m.data.vir) (ofByte sp)).stack.vir ∧
            (doBrk m addr sp).1 = moved m (newClicks addr - m.data.vir) (ofByte sp)))) := by
  unfold doBrk
  by_cases hv : newClicks addr < m.data.vir
  · rw [if_pos hv]
    exact .inl ⟨rfl, rfl⟩
  · rw [if_neg hv]
    have hle := BitVec.not_lt.mp hv
    rcases adjust_cases m (newClicks addr - m.data.vir) sp with
      ⟨hl, h⟩ | ⟨hl, hb, hs, h⟩ | h
    · rw [h]
      exact .inr ⟨rfl, hle, .inl ⟨hl, rfl⟩⟩
    · rw [h]
      rw [BitVec.add_comm, BitVec.sub_add_cancel] at hs
      exact .inr ⟨rfl, hle, .inr ⟨hl, hb, hs, rfl⟩⟩
    · rw [h]
      exact .inl ⟨rfl, rfl⟩

/-! ## The arithmetic of the break -/

/-- A break in the last 255 bytes of the address space wraps to click 0. -/
theorem newClicks_wrapped (h : 0xFFFFFF00 < addr.toNat) : newClicks addr = 0 := by
  have hlt := addr.isLt
  apply BitVec.eq_of_toNat_eq
  have hsum : (addr + 255#32).toNat = addr.toNat + 255 - 2 ^ 32 := by
    rw [BitVec.toNat_add]
    show (addr.toNat + 255) % 2 ^ 32 = _
    omega
  have hmsb : (addr + 255#32).msb = false := by
    rw [BitVec.msb_eq_false_iff_two_mul_lt, hsum]
    omega
  show ((addr + 255#32).sshiftRight 8).toNat = 0
  rw [BitVec.toNat_sshiftRight_of_msb_false hmsb, hsum, Nat.shiftRight_eq_div_pow]
  omega

/-- Any other break is covered by its clicks. -/
theorem newClicks_covers (h : addr.toNat ≤ 0xFFFFFF00) :
    addr.toNat ≤ (newClicks addr).toNat * 256 := by
  have hsum : (addr + 255#32).toNat = addr.toNat + 255 := by
    rw [BitVec.toNat_add]
    show (addr.toNat + 255) % 2 ^ 32 = _
    omega
  show _ ≤ ((addr + 255#32).sshiftRight 8).toNat * 256
  cases hmsb : (addr + 255#32).msb with
  | false =>
    rw [BitVec.toNat_sshiftRight_of_msb_false hmsb, hsum, Nat.shiftRight_eq_div_pow]
    omega
  | true =>
    rw [BitVec.toNat_sshiftRight_of_msb_true hmsb, hsum, Nat.shiftRight_eq_div_pow]
    omega

theorem ofByte_lt (sp : Word) : (ofByte sp).toNat < 2 ^ 24 := by
  have hlt := sp.isLt
  rw [ofByte_toNat]
  omega

/-- The stack grows exactly when the stack pointer is below it, and less than half the address
    space away. -/
theorem delta_pos_iff (m : Map) (sp : Word) :
    0 < (delta m (ofByte sp)).toInt ↔
      (ofByte sp).toNat < m.stack.vir.toNat ∧
        m.stack.vir.toNat - (ofByte sp).toNat < 2 ^ 31 := by
  have hc := ofByte_lt sp
  have hv := m.stack.vir.isLt
  rw [BitVec.toInt_eq_toNat_cond, delta, BitVec.toNat_sub]
  omega

/-- How far the stack grows. -/
theorem delta_toNat (h : (ofByte sp).toNat ≤ m.stack.vir.toNat) :
    (delta m (ofByte sp)).toNat = m.stack.vir.toNat - (ofByte sp).toNat := by
  have hv := m.stack.vir.isLt
  rw [delta, BitVec.toNat_sub]
  omega

/-- The map and the stack pointer are such that no word wraps while the stack moves. -/
def Fits (m : Map) (sp : Word) : Prop :=
  m.stack.vir.toNat - (ofByte sp).toNat < 2 ^ 31 ∧
    m.stack.len.toNat + (m.stack.vir.toNat - (ofByte sp).toNat) < 2 ^ 32

/-- The stack after a move that fits. -/
theorem moved_stack (dc : Word) (hf : Fits m sp) (hb : ofByte sp < m.stack.vir + m.stack.len) :
    (((moved m dc (ofByte sp)).stack.vir.toNat ≤ (ofByte sp).toNat ∧
        (ofByte sp).toNat < (moved m dc (ofByte sp)).stack.vir.toNat
          + (moved m dc (ofByte sp)).stack.len.toNat) ∧
      (moved m dc (ofByte sp)).stack.vir.toNat + (moved m dc (ofByte sp)).stack.len.toNat
        = m.stack.vir.toNat + m.stack.len.toNat) ∧
      (moved m dc (ofByte sp)).stack.phys - (moved m dc (ofByte sp)).stack.vir
        = m.stack.phys - m.stack.vir := by
  have hl := m.stack.len.isLt
  rw [BitVec.lt_def, BitVec.toNat_add] at hb
  unfold moved
  dsimp only
  by_cases hd : 0 < (delta m (ofByte sp)).toInt
  · obtain ⟨hlt, -⟩ := (delta_pos_iff m sp).mp hd
    have hvir : m.stack.vir - delta m (ofByte sp) = ofByte sp := by
      rw [delta]
      grind
    have hlen : (m.stack.len + delta m (ofByte sp)).toNat
        = m.stack.len.toNat + (m.stack.vir.toNat - (ofByte sp).toNat) := by
      rw [BitVec.toNat_add, delta_toNat (Nat.le_of_lt hlt)]
      exact Nat.mod_eq_of_lt hf.2
    rw [if_pos hd]
    dsimp only
    rw [hvir, hlen]
    refine ⟨⟨⟨Nat.le_refl _, by omega⟩, by omega⟩, ?_⟩
    rw [delta]
    grind
  · rw [if_neg hd]
    have hge : m.stack.vir.toNat ≤ (ofByte sp).toNat := by
      have hno := mt (delta_pos_iff m sp).mpr hd
      have h1 := hf.1
      omega
    have hmod := Nat.mod_le (m.stack.vir.toNat + m.stack.len.toNat) (2 ^ 32)
    exact ⟨⟨⟨hge, by omega⟩, rfl⟩, rfl⟩

/-- The data ends at the click of the break. -/
theorem moved_data_end {nc : Word} (spClick : Word) (h : m.data.vir ≤ nc) :
    (moved m (nc - m.data.vir) spClick).data.vir.toNat
      + (moved m (nc - m.data.vir) spClick).data.len.toNat = nc.toNat := by
  have hle := BitVec.le_def.mp h
  show m.data.vir.toNat + (nc - m.data.vir).toNat = nc.toNat
  rw [BitVec.toNat_sub_of_le h]
  omega

/-- A move of the stack that is a good one wraps no word. -/
theorem fits_of_good (hg : Good m (moved m dc (ofByte sp)) addr sp) : Fits m sp := by
  have hl := m.stack.len.isLt
  have hsp := hg.holdsSp
  have htop := hg.top
  unfold moved at hsp htop
  dsimp only at hsp htop
  by_cases hd : 0 < (delta m (ofByte sp)).toInt
  · obtain ⟨hlt, hhalf⟩ := (delta_pos_iff m sp).mp hd
    rw [if_pos hd] at htop
    dsimp only at htop
    rw [BitVec.toNat_add, delta_toNat (Nat.le_of_lt hlt),
      show m.stack.vir - delta m (ofByte sp) = ofByte sp by rw [delta]; grind] at htop
    refine ⟨hhalf, ?_⟩
    -- a length that wraps would lose 2 ^ 32 clicks of the stack
    by_contra hwrap
    have hmod : (m.stack.len.toNat + (m.stack.vir.toNat - (ofByte sp).toNat)) % 2 ^ 32
        < 2 ^ 32 := Nat.mod_lt _ (by decide)
    omega
  · rw [if_neg hd] at hsp
    exact ⟨by omega, by omega⟩

/-- **WHEN A BREAK IS SOUND.**  For every map, break and stack pointer, the answer is a good
    one exactly when it is a refusal, or the process has a stack, the break is not in the last
    255 bytes of the address space, and moving the stack wraps no word. -/
theorem brk_sound_iff (m : Map) (addr sp : Word) :
    Sound m addr sp ↔
      (doBrk m addr sp).2.1 ≠ .ok ∨
        (m.stack.len ≠ 0 ∧ addr.toNat ≤ 0xFFFFFF00 ∧ Fits m sp) := by
  rcases doBrk_cases m addr sp with ⟨hcode, hmap⟩ | ⟨hcode, hle, hres⟩
  · have hne : (doBrk m addr sp).2.1 ≠ .ok := by
      rw [hcode]
      nofun
    exact ⟨fun _ => .inl hne, fun _ => ⟨fun h => absurd h hne, fun _ => hmap⟩⟩
  · have hsound : Sound m addr sp ↔ Good m (doBrk m addr sp).1 addr sp :=
      ⟨fun h => h.1 hcode, fun h => ⟨fun _ => h, fun hne => absurd hcode hne⟩⟩
    rw [hsound, hcode]
    constructor
    · intro hg
      rcases hres with ⟨hl, hmap⟩ | ⟨hl, -, -, hmap⟩
      · -- without a stack nothing is adjusted, and no click is in the stack
        have hsp := hg.holdsSp
        rw [hmap, hl] at hsp
        exact absurd hsp.2 (Nat.not_lt.mpr hsp.1)
      · rw [hmap] at hg
        refine .inr ⟨hl, ?_, fits_of_good hg⟩
        by_contra ha
        have hnc := newClicks_wrapped (Nat.lt_of_not_le ha)
        have hend := moved_data_end (ofByte sp) hle
        have hzero : (newClicks addr).toNat = 0 := by rw [hnc]; rfl
        have hcov := hg.covered 0 (by omega)
          (BitVec.lt_def.mpr (Nat.lt_of_le_of_lt (Nat.zero_le _) (Nat.lt_of_not_le ha)))
        omega
    · rintro (hne | ⟨hl, ha, hf⟩)
      · exact absurd rfl hne
      · rcases hres with ⟨hl', -⟩ | ⟨-, hb, hs, hmap⟩
        · exact absurd hl' hl
        · rw [hmap]
          obtain ⟨⟨hsp, htop⟩, hoff⟩ := moved_stack (newClicks addr - m.data.vir) hf hb
          have hend := moved_data_end (ofByte sp) hle
          refine ⟨?_, hsp, ?_, htop, hoff⟩
          · intro a _ hlt
            have hcov := newClicks_covers ha
            have hlt' := BitVec.lt_def.mp hlt
            rw [hend]
            omega
          · rw [hend]
            exact BitVec.le_def.mp hs

/-- Data of 16 clicks, a gap, and a stack of 16 clicks up to click 256. -/
def sample : Map :=
  { data := ⟨0#32, 0x200#32, 0x10#32⟩
    stack := ⟨0xF0#32, 0x2F0#32, 0x10#32⟩ }

/-- A break at the last byte of the address space is granted, and leaves no data at all. -/
theorem brk_grants_everything :
    sample.data.vir.toNat + sample.data.len.toNat ≤ sample.stack.vir.toNat ∧
      doBrk sample 0xFFFFFFFF#32 0xF800#32
        = ({ sample with data := { sample.data with len := 0#32 } }, .ok, 0xFFFFFFFF#32) ∧
      ¬ Sound sample 0xFFFFFFFF#32 0xF800#32 := by
  refine ⟨by decide, by decide, fun h => ?_⟩
  have hg := h.1 (by decide)
  exact absurd (hg.covered 0#32 (by decide) (by decide)) (by decide)

/-! ## The model of MM -/

/-- A segment as the model of MM has it. -/
abbrev nat (g : Seg) : Mm.MemMap := ⟨g.vir.toNat, g.phys.toNat, g.len.toNat⟩

/-- The slot of MM has this map. -/
def Reads (p : Mm.Mproc) (m : Map) : Prop := p.segD = nat m.data ∧ p.segS = nat m.stack

/-- A map as MM makes it: the stack ends within the address space, and lies in memory above
    the data as far as it does in the address space. -/
structure Placed (m : Map) : Prop where
  stack : m.stack.vir.toNat + m.stack.len.toNat ≤ 2 ^ 24
  above : m.stack.vir.toNat - m.data.vir.toNat ≤ m.stack.phys.toNat

/-- The lower end of the stack after a move: the stack pointer, or where it was. -/
theorem lower_nat (hm : Placed m) (sp : Word) :
    (if 0 < (delta m (ofByte sp)).toInt then ofByte sp else m.stack.vir).toNat =
      if (ofByte sp).toNat < m.stack.vir.toNat then (ofByte sp).toNat else m.stack.vir.toNat := by
  have hs := hm.stack
  by_cases hlt : (ofByte sp).toNat < m.stack.vir.toNat
  · rw [if_pos hlt, if_pos ((delta_pos_iff m sp).mpr ⟨hlt, by omega⟩)]
  · rw [if_neg hlt, if_neg (fun h => hlt ((delta_pos_iff m sp).mp h).1)]

/-- A move puts the stack at that lower end. -/
theorem moved_vir (m : Map) (dc sp : Word) :
    (moved m dc (ofByte sp)).stack.vir =
      if 0 < (delta m (ofByte sp)).toInt then ofByte sp else m.stack.vir := by
  unfold moved
  split
  · rw [delta]
    grind
  · rfl

/-- The stack after a move, in natural numbers. -/
theorem moved_nat (hm : Placed m) (dc sp : Word)
    (hv : m.data.vir.toNat ≤ (moved m dc (ofByte sp)).stack.vir.toNat) :
    nat (moved m dc (ofByte sp)).stack =
      if (ofByte sp).toNat < m.stack.vir.toNat then
        { vir := m.stack.vir.toNat - (m.stack.vir.toNat - (ofByte sp).toNat)
          phys := m.stack.phys.toNat - (m.stack.vir.toNat - (ofByte sp).toNat)
          len := m.stack.len.toNat + (m.stack.vir.toNat - (ofByte sp).toNat) }
      else nat m.stack := by
  have hs := hm.stack
  have ha := hm.above
  rw [moved_vir, lower_nat hm] at hv
  by_cases hlt : (ofByte sp).toNat < m.stack.vir.toNat
  · have hd : 0 < (delta m (ofByte sp)).toInt := (delta_pos_iff m sp).mpr ⟨hlt, by omega⟩
    have hdelta := delta_toNat (Nat.le_of_lt hlt)
    rw [if_pos hlt] at hv
    rw [moved, if_pos hd, if_pos hlt, ← hdelta]
    dsimp only [nat]
    congr 1
    · exact BitVec.toNat_sub_of_le (BitVec.le_def.mpr (by omega))
    · exact BitVec.toNat_sub_of_le (BitVec.le_def.mpr (by omega))
    · exact Nat.mod_eq_of_lt (by omega)
  · rw [moved, if_neg hlt, if_neg fun h => hlt ((delta_pos_iff m sp).mp h).1]

/-- An answer of `adjust` in words and one of the model of MM: the same map, or both refuse. -/
def Agree (r : Map × Code) (o : Option Mm.Mproc) : Prop :=
  (r.2 = .ok ∧ ∃ q, o = some q ∧ Reads q r.1) ∨ (r.2 = .enomem ∧ o = none)

/-- Tests that agree, with ends that fit. -/
theorem Agree.ite {c c' : Prop} [Decidable c] [Decidable c'] {r r' : Map × Code}
    {o o' : Option Mm.Mproc} (hc : c ↔ c') (ht : c → Agree r o) (hf : Agree r' o') :
    Agree (if c then r else r') (if c' then o else o') := by
  by_cases h : c
  · rw [if_pos h, if_pos (hc.mp h)]
    exact ht h
  · rw [if_neg h, if_neg (mt hc.mpr h)]
    exact hf

/-- `adjust` of the model of MM is `adjust` in words, for a map that MM makes. -/
theorem adjustMap_words {p : Mm.Mproc} (hr : Reads p m) (hm : Placed m)
    (dc sp : Word) (hd : m.data.vir.toNat + dc.toNat < 2 ^ 32) :
    Agree (adjust m dc sp) (Mm.adjustMap p dc.toNat sp) := by
  obtain ⟨hrd, hrs⟩ := hr
  have hs := hm.stack
  have hsum : (m.stack.vir + m.stack.len).toNat = m.stack.vir.toNat + m.stack.len.toNat :=
    Nat.mod_eq_of_lt (by omega)
  have hdend : (m.data.vir + dc).toNat = m.data.vir.toNat + dc.toNat := Nat.mod_eq_of_lt hd
  have hclick : (sp >>> 8).toNat = (ofByte sp).toNat := rfl
  have hlow := lower_nat hm sp
  have hvir : (moved m dc (ofByte sp)).stack.vir.toNat = _ :=
    (congrArg BitVec.toNat (moved_vir m dc sp)).trans hlow
  unfold Mm.adjustMap adjust
  rw [hrd, hrs]
  refine .ite ⟨congrArg BitVec.toNat, fun h => BitVec.eq_of_toNat_eq h⟩
    (fun _ => .inl ⟨rfl, p, rfl, hrd, hrs⟩) ?_
  refine .ite (BitVec.le_def.trans (by rw [hsum]; rfl)) (fun _ => .inr ⟨rfl, rfl⟩) ?_
  refine .ite (BitVec.lt_def.trans ?_) (fun _ => .inr ⟨rfl, rfl⟩) ?_
  · rw [hlow, BitVec.toNat_add, hdend]
    rfl
  refine .ite ?_ (fun hok => ?_) (.inr ⟨rfl, rfl⟩)
  · rw [sizeOk, Mm.sizeOk, decide_eq_true_iff, decide_eq_true_iff, BitVec.not_lt, BitVec.le_def,
      moved_data_len, moved_data_vir, hdend, hvir]
    -- both put the stack at the stack pointer, or leave it
    rw [apply_ite Mm.MemMap.vir]
    dsimp only
    rw [Nat.mod_eq_of_lt hd, hclick]
    split <;> omega
  · have hle := BitVec.le_def.mp (BitVec.not_lt.mp (of_decide_eq_true hok))
    refine .inl ⟨rfl, _, rfl, rfl, (moved_nat hm dc sp ?_).symm⟩
    rw [moved_data_len, moved_data_vir, hdend] at hle
    exact (Nat.le_add_right _ _).trans hle

/-- **DO_BRK OF MM IS DO_BRK IN WORDS**, for a map that MM makes: the same answer, and the map
    of the process is the new one. -/
theorem doBrk_words {s : Mm.State} {p : Mm.Slot} (hr : Reads (s.mproc p) m)
    (hm : Placed m) (addr sp : Word) :
    ((s.doBrk p addr sp).2 = .ok ↔ (doBrk m addr sp).2.1 = .ok) ∧
      Reads ((s.doBrk p addr sp).1.mproc p) (doBrk m addr sp).1 := by
  have hvir : (s.mproc p).segD.vir = m.data.vir.toNat := by rw [hr.1]
  have hnc : ((addr + 255#32).sshiftRight 8).toNat = (newClicks addr).toNat := rfl
  unfold Mm.State.doBrk doBrk
  dsimp only
  rw [hvir, hnc]
  by_cases hv : newClicks addr < m.data.vir
  · rw [if_pos hv, if_pos (BitVec.lt_def.mp hv)]
    exact ⟨⟨nofun, nofun⟩, hr⟩
  · have hsub := BitVec.toNat_sub_of_le (BitVec.not_lt.mp hv)
    rw [if_neg hv, if_neg (mt BitVec.lt_def.mpr hv), ← hsub, Mm.State.adjust]
    rcases adjustMap_words hr hm (newClicks addr - m.data.vir) sp (by omega) with
      ⟨hcode, q, hq, hread⟩ | ⟨hcode, hq⟩
    · rw [hq, hcode]
      refine ⟨by simp, ?_⟩
      show Reads (Function.update s.mproc p q p) _
      rw [Function.update_self]
      exact hread
    · rw [hq, hcode, adjust_enomem hcode]
      exact ⟨by simp, hr⟩

theorem doBrk_words_sample : ∃ s : Mm.State, (s.doBrk 2 0x1800#32 0xF000#32).2 = .ok :=
  ⟨⟨Mm.initSlot fun _ => (nat sample.data, nat sample.data, nat sample.stack), 3, 2, [], []⟩,
    (doBrk_words (m := sample) ⟨rfl, rfl⟩ ⟨by decide, by decide⟩ 0x1800#32 0xF000#32).1.mpr
      (by decide)⟩

end Brk
