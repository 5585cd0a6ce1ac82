import Mathlib

/-! # Clicks — segments in 32-bit words

    Memory is handed out in clicks of 256 bytes.  A segment says at which click it starts in
    the address space of its process, at which click it starts in memory, and how many clicks
    it has.  All three are machine words, and so is every byte address: sums and shifts WRAP.
    What a segment covers is said in natural numbers, where nothing wraps. -/

namespace Click

/-- An `unsigned` of the machine: `vir_bytes`, `vir_clicks`, `phys_bytes`, `phys_clicks`. -/
abbrev Word := BitVec 32

/-- The click of a byte: `a >> CLICK_SHIFT`. -/
def ofByte (a : Word) : Word := a >>> 8

/-- The first byte of a click: `c << CLICK_SHIFT`. -/
def toByte (c : Word) : Word := c <<< 8

@[simp] theorem ofByte_toNat (a : Word) : (ofByte a).toNat = a.toNat / 256 := by
  rw [ofByte, BitVec.toNat_ushiftRight, Nat.shiftRight_eq_div_pow]

@[simp] theorem toByte_toNat (c : Word) : (toByte c).toNat = c.toNat * 256 % 2 ^ 32 := by
  rw [toByte, BitVec.toNat_shiftLeft, Nat.shiftLeft_eq]

theorem toByte_add (a b : Word) : toByte (a + b) = toByte a + toByte b := by
  apply BitVec.eq_of_toNat_eq
  simp only [toByte_toNat, BitVec.toNat_add]
  omega

/-- `struct mem_map`. -/
structure Seg where
  vir : Word
  phys : Word
  len : Word
deriving DecidableEq, Repr

namespace Seg

/-- `mem_vir + mem_len`. -/
def top (g : Seg) : Word := g.vir + g.len

theorem top_toNat (g : Seg) (h : g.vir.toNat + g.len.toNat < 2 ^ 32) :
    g.top.toNat = g.vir.toNat + g.len.toNat := by
  rw [top, BitVec.toNat_add]
  exact Nat.mod_eq_of_lt h

/-- The `n` bytes from `va` on all are bytes of the segment, and none of them lies beyond the
    end of the address space. -/
def Covers (g : Seg) (va n : Word) : Prop :=
  g.vir.toNat * 256 ≤ va.toNat ∧ va.toNat + n.toNat ≤ (g.vir.toNat + g.len.toNat) * 256 ∧
    va.toNat + n.toNat ≤ 2 ^ 32

instance (g : Seg) (va n : Word) : Decidable (g.Covers va n) :=
  inferInstanceAs (Decidable (_ ∧ _ ∧ _))

/-- Where the byte `va` of a segment is in memory. -/
def physAt (g : Seg) (va : Word) : Word := toByte g.phys + (va - toByte g.vir)

/-- The first byte of a segment, where nothing wraps. -/
def start (g : Seg) : Nat := g.vir.toNat * 256

/-- The first byte beyond a segment. -/
def stop (g : Seg) : Nat := (g.vir.toNat + g.len.toNat) * 256

theorem covers_iff (g : Seg) (va n : Word) : g.Covers va n ↔
    g.start ≤ va.toNat ∧ va.toNat + n.toNat ≤ g.stop ∧ va.toNat + n.toNat ≤ 2 ^ 32 := Iff.rfl

/-- The segment is in memory, and there at a higher address than in its address space. -/
def Placed (g : Seg) : Prop :=
  g.vir.toNat < g.phys.toNat ∧ g.phys.toNat + g.len.toNat ≤ 2 ^ 24

instance (g : Seg) : Decidable g.Placed := inferInstanceAs (Decidable (_ ∧ _))

theorem Placed.stop_le {g : Seg} (h : g.Placed) : g.stop ≤ 2 ^ 32 := by
  obtain ⟨hv, hl⟩ := h
  rw [stop]
  omega

/-- The test of the first byte, in bytes. -/
theorem Placed.top_le_iff {g : Seg} (h : g.Placed) {a : Word} :
    g.top ≤ ofByte a ↔ g.stop ≤ a.toNat := by
  obtain ⟨hv, hl⟩ := h
  rw [BitVec.le_def, ofByte_toNat, g.top_toNat (by omega), stop]
  omega

/-- No byte below the end of the segment is translated to address 0. -/
theorem Placed.physAt_ne_zero {g : Seg} (h : g.Placed) {va : Word} (hlt : va.toNat < g.stop) :
    g.physAt va ≠ 0 := by
  obtain ⟨hv, hl⟩ := h
  rw [stop] at hlt
  intro h0
  have h0' := congrArg BitVec.toNat h0
  rw [physAt, BitVec.toNat_add, BitVec.toNat_sub, toByte_toNat, toByte_toNat,
    show (0 : Word).toNat = 0 from rfl] at h0'
  omega

theorem physAt_add (g : Seg) (va k : Word) : g.physAt (va + k) = g.physAt va + k := by
  simp only [physAt, BitVec.sub_eq_add_neg]
  ac_rfl

end Seg

/-! ## Ranges -/

/-- `a` is one of the `n` bytes from `base` on, in words. -/
def InRange (base n a : Word) : Prop := ∃ j < n.toNat, a = base + BitVec.ofNat 32 j

/-- A range cut into slices of at most `cap` bytes, as a loop cuts it that counts down. -/
def slices (cap : Word) : Nat → Word → Word → List (Word × Word)
  | 0, _, _ => []
  | k + 1, a, n =>
    if n = 0 then []
    else
      let c := if n < cap then n else cap
      (a, c) :: slices cap k (a + c) (n - c)

/-- A slice is a part of the range. -/
theorem slices_part {cap : Word} (k : Nat) (a n : Word) {r : Word × Word}
    (h : r ∈ slices cap k a n) :
    ∃ off, r.1 = a + BitVec.ofNat 32 off ∧ off + r.2.toNat ≤ n.toNat := by
  induction k generalizing a n with
  | zero => cases h
  | succ k ih =>
    rw [slices] at h
    by_cases hn : n = 0
    · rw [if_pos hn] at h
      cases h
    · rw [if_neg hn] at h
      have hc : (if n < cap then n else cap) ≤ n := by
        split
        · exact BitVec.le_refl n
        · exact BitVec.not_lt.mp ‹_›
      generalize (if n < cap then n else cap) = c at h hc
      have hc' := BitVec.le_def.mp hc
      rcases List.mem_cons.mp h with rfl | h
      · exact ⟨0, (BitVec.add_zero a).symm, by simpa using hc'⟩
      · obtain ⟨off, hr, hle⟩ := ih _ _ h
        rw [BitVec.toNat_sub_of_le hc] at hle
        refine ⟨c.toNat + off, ?_, by omega⟩
        rw [hr, BitVec.ofNat_add, BitVec.ofNat_toNat, BitVec.setWidth_eq, BitVec.add_assoc]

end Click
