import Mathlib

/-! # Byte order — `conv2` and `conv4`

    File systems of the other byte order are read and written through two routines of
    `utility.c`.  An `int` and a `long` have 32 bits; `conv2` looks only at the low half of what
    it is given.  Both are given here by the number they return, and undo themselves. -/

namespace Fs

/-- `conv2(norm, w)`: swap the two low bytes, or only cut off the rest. -/
def conv2 (norm : Bool) (w : BitVec 32) : BitVec 32 :=
  if norm then w &&& 0xFFFF#32 else ((w &&& 0xFF#32) <<< 8) ||| (w.sshiftRight 8 &&& 0xFF#32)

/-- `conv4(norm, x)`: swap four bytes, by swapping the halves. -/
def conv4 (norm : Bool) (x : BitVec 32) : BitVec 32 :=
  if norm then x
  else (conv2 false (x &&& 0xFFFF#32) <<< 16) ||| conv2 false (x.sshiftRight 16 &&& 0xFFFF#32)

theorem toNat_and_byte (w : BitVec 32) : (w &&& 0xFF#32).toNat = w.toNat % 256 := by
  rw [BitVec.toNat_and]
  exact Nat.and_two_pow_sub_one_eq_mod w.toNat 8

theorem toNat_and_half (w : BitVec 32) : (w &&& 0xFFFF#32).toNat = w.toNat % 65536 := by
  rw [BitVec.toNat_and]
  exact Nat.and_two_pow_sub_one_eq_mod w.toNat 16

/-- The sign bits that a shift brings in do not get into the low part. -/
theorem sshiftRight_mod (w : BitVec 32) {k n : Nat} (h : k + n ≤ 32) :
    (w.sshiftRight k).toNat % 2 ^ n = w.toNat / 2 ^ k % 2 ^ n := by
  refine Nat.eq_of_testBit_eq (fun i => ?_)
  rw [Nat.testBit_mod_two_pow, Nat.testBit_mod_two_pow, Nat.testBit_div_two_pow]
  by_cases hi : i < n
  · have hk : k + i < 32 := by omega
    have hi' : ¬ 32 ≤ i := by omega
    rw [← BitVec.getLsbD, BitVec.getLsbD_sshiftRight, ← BitVec.getLsbD, Nat.add_comm i k,
      if_pos hk, decide_eq_false hi']
    rfl
  · rw [decide_eq_false hi, Bool.false_and, Bool.false_and]

theorem or_eq_add {a b k : Nat} (hb : b < 2 ^ k) : 2 ^ k * a ||| b = 2 ^ k * a + b :=
  (Nat.two_pow_add_eq_or_of_lt hb a).symm

/-- The bytes of a 32-bit word. -/
theorem exists_bytes (w : BitVec 32) : ∃ a b c d : Nat, a < 256 ∧ b < 256 ∧ c < 256 ∧ d < 256 ∧
    w.toNat = a + 256 * b + 65536 * c + 16777216 * d := by
  have hw := w.isLt
  refine ⟨w.toNat % 256, w.toNat / 256 % 256, w.toNat / 65536 % 256, w.toNat / 16777216, ?_⟩
  omega

variable {w v : BitVec 32} {a b c d : Nat}

theorem conv2_norm (w : BitVec 32) : (conv2 true w).toNat = w.toNat % 65536 := toNat_and_half w

/-- The two low bytes change places. -/
theorem conv2_swap (ha : a < 256) (hb : b < 256) (h : w.toNat = a + 256 * b + 65536 * c) :
    (conv2 false w).toNat = 256 * a + b := by
  have hlo : ((w &&& 0xFF#32) <<< 8).toNat = 2 ^ 8 * a := by
    rw [BitVec.toNat_shiftLeft, toNat_and_byte, Nat.shiftLeft_eq]
    omega
  have hhi : (w.sshiftRight 8 &&& 0xFF#32).toNat = b := by
    have hs : (w.sshiftRight 8).toNat % 256 = w.toNat / 256 % 256 :=
      sshiftRight_mod w (k := 8) (n := 8) (by omega)
    rw [toNat_and_byte, hs]
    omega
  show (((w &&& 0xFF#32) <<< 8) ||| (w.sshiftRight 8 &&& 0xFF#32)).toNat = _
  rw [BitVec.toNat_or, hlo, hhi]
  exact or_eq_add hb

/-- The four bytes come in the other order. -/
theorem conv4_swap (ha : a < 256) (hb : b < 256) (hc : c < 256) (hd : d < 256)
    (h : w.toNat = a + 256 * b + 65536 * c + 16777216 * d) :
    (conv4 false w).toNat = 16777216 * a + 65536 * b + 256 * c + d := by
  have hlo : (conv2 false (w &&& 0xFFFF#32) <<< 16).toNat = 2 ^ 16 * (256 * a + b) := by
    have hw : (w &&& 0xFFFF#32).toNat = a + 256 * b + 65536 * 0 := by
      rw [toNat_and_half]
      omega
    rw [BitVec.toNat_shiftLeft, conv2_swap ha hb hw, Nat.shiftLeft_eq]
    omega
  have hhi : (conv2 false (w.sshiftRight 16 &&& 0xFFFF#32)).toNat = 256 * c + d := by
    have hs : (w.sshiftRight 16).toNat % 65536 = w.toNat / 65536 % 65536 :=
      sshiftRight_mod w (k := 16) (n := 16) (by omega)
    have hdiv : w.toNat / 65536 = c + 256 * d := by omega
    have hw : (w.sshiftRight 16 &&& 0xFFFF#32).toNat = c + 256 * d + 65536 * 0 := by
      rw [toNat_and_half, hs, hdiv]
      omega
    exact conv2_swap hc hd hw
  show ((conv2 false (w &&& 0xFFFF#32) <<< 16) |||
    conv2 false (w.sshiftRight 16 &&& 0xFFFF#32)).toNat = _
  rw [BitVec.toNat_or, hlo, hhi, or_eq_add (by omega)]
  omega

theorem conv2_lt (n : Bool) (w : BitVec 32) : (conv2 n w).toNat < 65536 := by
  cases n with
  | true =>
    rw [conv2_norm]
    omega
  | false =>
    obtain ⟨a, b, c, d, ha, hb, -, -, h⟩ := exists_bytes w
    rw [conv2_swap ha hb (c := c + 256 * d) (by omega)]
    omega

/-- **`conv2` UNDOES ITSELF** on the low half, whatever its result was stored in and promoted
    from. -/
theorem conv2_conv2 (n : Bool) (h : v.toNat % 65536 = (conv2 n w).toNat) :
    (conv2 n v).toNat = w.toNat % 65536 := by
  cases n with
  | true =>
    rw [conv2_norm] at h ⊢
    exact h
  | false =>
    obtain ⟨a, b, c, d, ha, hb, -, -, hw⟩ := exists_bytes w
    rw [conv2_swap ha hb (c := c + 256 * d) (by omega)] at h
    rw [conv2_swap hb ha (c := v.toNat / 65536) (by omega)]
    omega

/-- **`conv4` UNDOES ITSELF.** -/
theorem conv4_conv4 (n : Bool) (x : BitVec 32) : conv4 n (conv4 n x) = x := by
  cases n with
  | true => rfl
  | false =>
    obtain ⟨a, b, c, d, ha, hb, hc, hd, hx⟩ := exists_bytes x
    refine BitVec.eq_of_toNat_eq ?_
    have h1 := conv4_swap ha hb hc hd hx
    rw [conv4_swap hd hc hb ha (by omega)]
    omega

/-! ## Words in 16 bits -/

/-- An unsigned short as an `int`. -/
def ofUshort (x : BitVec 16) : BitVec 32 := x.setWidth 32

/-- A short as an `int`. -/
def ofShort (x : BitVec 16) : BitVec 32 := x.signExtend 32

/-- A char as an `int`: chars have a sign. -/
def ofChar (x : BitVec 8) : BitVec 32 := x.signExtend 32

theorem ofUshort_low (x : BitVec 16) : (ofUshort x).toNat % 65536 = x.toNat := by
  have hx := x.isLt
  rw [ofUshort, BitVec.toNat_setWidth]
  omega

theorem signExtend_low {k : Nat} (x : BitVec k) (hk : k ≤ 32) :
    (x.signExtend 32).toNat % 2 ^ k = x.toNat := by
  rw [← BitVec.toNat_setWidth]
  refine congrArg BitVec.toNat (BitVec.eq_of_getLsbD_eq (fun i hi => ?_))
  have hi' : i < 32 := by omega
  rw [BitVec.getLsbD_setWidth, BitVec.getLsbD_signExtend, if_pos hi, decide_eq_true hi,
    decide_eq_true hi', Bool.true_and, Bool.true_and]

/-- A half word comes back, whatever the type that it was stored in. -/
theorem conv2_stored (norm : Bool) (w : BitVec 32) (x : BitVec 16 → BitVec 32)
    (hx : ∀ y, (x y).toNat % 65536 = y.toNat) :
    (conv2 norm (x ((conv2 norm w).setWidth 16))).toNat = w.toNat % 65536 := by
  refine conv2_conv2 norm ?_
  rw [hx, BitVec.toNat_setWidth]
  exact Nat.mod_eq_of_lt (conv2_lt norm w)

theorem conv2_ushort (norm : Bool) (x : BitVec 16) :
    (conv2 norm (ofUshort ((conv2 norm (ofUshort x)).setWidth 16))).setWidth 16 = x := by
  refine BitVec.eq_of_toNat_eq ?_
  rw [BitVec.toNat_setWidth, conv2_stored norm _ _ ofUshort_low, ofUshort_low]
  exact Nat.mod_eq_of_lt x.isLt

theorem conv2_short (norm : Bool) (x : BitVec 16) :
    (conv2 norm (ofShort ((conv2 norm (ofShort x)).setWidth 16))).setWidth 16 = x := by
  have hlow : ∀ y, (ofShort y).toNat % 65536 = y.toNat :=
    fun y => signExtend_low y (by omega)
  refine BitVec.eq_of_toNat_eq ?_
  rw [BitVec.toNat_setWidth, conv2_stored norm _ _ hlow, hlow]
  exact Nat.mod_eq_of_lt x.isLt

end Fs
