import Mathlib
import Edwards25519.Bytes

/-!
# The range of fixed-length numbers

The numbers that `n` bytes can write are exactly those below `256 ^ n`, and a
larger number is cut down to its remainder. Two strings joined write the sum of their
numbers, one of them moved up by the length of the other, and the exclusive or of two
strings writes the exclusive or of the numbers. A remainder of a joined number cuts down
its upper part only. The most significant bit of a string is that of its number, and an
exclusive or with a power of two turns over one bit.
-/

namespace Edwards25519

theorem natOfDigits_lt (l : List UInt8) :
    natOfDigits l < 256 ^ l.length := by
  induction l with
  | nil => decide
  | cons b rest ih =>
      have hb : b.toNat < 256 := b.toNat_lt
      simp only [natOfDigits, List.length_cons, Nat.pow_succ]
      omega

theorem natOfDigits_digitsOfNat (n v : Nat) :
    natOfDigits (digitsOfNat n v) = v % 256 ^ n := by
  induction n generalizing v with
  | zero => simp [digitsOfNat, natOfDigits, Nat.mod_one]
  | succ n ih =>
      simp only [digitsOfNat, natOfDigits, ih, UInt8.toNat_ofNat']
      rw [Nat.pow_succ 256 n, Nat.mul_comm (256 ^ n) 256, Nat.mod_mul]

/-! ## Joined strings -/

theorem natOfDigits_append (l m : List UInt8) :
    natOfDigits (l ++ m) = natOfDigits l + 256 ^ l.length * natOfDigits m := by
  induction l with
  | nil => simp [natOfDigits]
  | cons b rest ih =>
      rw [List.cons_append, natOfDigits, natOfDigits, ih, List.length_cons, Nat.pow_succ]
      ring

/-! ## Exclusive or -/

theorem digit_xor (a b : UInt8) (s t : Nat) :
    (a ^^^ b).toNat + 256 * (s ^^^ t) = (a.toNat + 256 * s) ^^^ (b.toNat + 256 * t) := by
  have ha : a.toNat < 256 := a.toNat_lt
  have hb : b.toNat < 256 := b.toNat_lt
  have hlt : (a ^^^ b).toNat < 256 := (a ^^^ b).toNat_lt
  have hlow : ((a.toNat + 256 * s) ^^^ (b.toNat + 256 * t)) % 2 ^ 8 = (a ^^^ b).toNat := by
    rw [Nat.xor_mod_two_pow, UInt8.toNat_xor]
    congr 1 <;> omega
  have hhigh : ((a.toNat + 256 * s) ^^^ (b.toNat + 256 * t)) / 2 ^ 8 = s ^^^ t := by
    rw [Nat.xor_div_two_pow]
    congr 1 <;> omega
  omega

theorem natOfDigits_zipWith_xor (l m : List UInt8) (h : l.length = m.length) :
    natOfDigits (List.zipWith (· ^^^ ·) l m) = natOfDigits l ^^^ natOfDigits m := by
  induction l generalizing m with
  | nil =>
      cases m with
      | nil => rfl
      | cons b rest => cases h
  | cons a l ih =>
      cases m with
      | nil => cases h
      | cons b m =>
          rw [List.zipWith_cons_cons, natOfDigits, natOfDigits, natOfDigits,
            ih m (Nat.succ.inj h), digit_xor]

/-! ## Numbers cut at a place -/

theorem add_mul_mod_mul {a b : Nat} (h : a < b) (c d : Nat) :
    (a + b * c) % (b * d) = a + b * (c % d) := by
  have hlow : (a + b * c) % b = a := by
    rw [Nat.add_mul_mod_self_left, Nat.mod_eq_of_lt h]
  have hhigh : (a + b * c) / b = c := by
    rw [Nat.add_mul_div_left _ _ (Nat.zero_lt_of_lt h), Nat.div_eq_of_lt h, Nat.zero_add]
  rw [Nat.mod_mul, hlow, hhigh]

/-! ## Turning one bit over -/

theorem xor_two_pow_mod (v k : Nat) :
    (v ^^^ 2 ^ k) % 2 ^ k = v % 2 ^ k := by
  rw [Nat.xor_mod_two_pow, Nat.mod_self, Nat.xor_zero]

theorem testBit_xor_two_pow (v k : Nat) :
    (v ^^^ 2 ^ k).testBit k = !v.testBit k := by
  rw [Nat.testBit_xor, Nat.testBit_two_pow_self, Bool.xor_true]

namespace Bytes

theorem toNat_lt {n : Nat} (b : Bytes n) :
    b.toNat < 256 ^ n := by
  have h := natOfDigits_lt b.toList
  rw [b.length_toList] at h
  rw [toNat]
  exact h

theorem toNat_lt_two_pow {n : Nat} (b : Bytes n) :
    b.toNat < 2 ^ (8 * n) := by
  rw [pow_mul]
  exact b.toNat_lt

theorem topBit_eq_testBit {n : Nat} (hn : 0 < n) (b : Bytes n) :
    b.topBit = b.toNat.testBit (8 * n - 1) := by
  have hlt := b.toNat_lt_two_pow
  have hwidth : 8 * n = 8 * n - 1 + 1 := by omega
  change decide (2 ^ (8 * n - 1) <= b.toNat) = b.toNat.testBit (8 * n - 1)
  by_cases h : 2 ^ (8 * n - 1) <= b.toNat
  · rw [hwidth] at hlt
    rw [decide_eq_true h, Nat.testBit_of_two_pow_le_and_two_pow_add_one_gt h hlt]
  · rw [decide_eq_false h, Nat.testBit_lt_two_pow (Nat.lt_of_not_le h)]

theorem toNat_ofNat (n v : Nat) :
    (ofNat n v).toNat = v % 256 ^ n := by
  rw [toNat]
  exact natOfDigits_digitsOfNat n v

theorem toNat_ofNat_of_lt {n v : Nat} (h : v < 256 ^ n) :
    (ofNat n v).toNat = v := by
  rw [toNat_ofNat, Nat.mod_eq_of_lt h]

theorem toNat_append {m n : Nat} (a : Bytes m) (b : Bytes n) :
    (append a b).toNat = a.toNat + 256 ^ m * b.toNat := by
  have h := natOfDigits_append a.toList b.toList
  rw [a.length_toList] at h
  rw [toNat, toNat, toNat]
  exact h

theorem toNat_reverse {n : Nat} (b : Bytes n) :
    b.reverse.toNat = b.toNatBE :=
  rfl

theorem toNatBE_lt_two_pow {n : Nat} (b : Bytes n) (k : Nat) (h : 8 * n <= k) :
    b.toNatBE < 2 ^ k :=
  lt_of_lt_of_le b.reverse.toNat_lt_two_pow (Nat.pow_le_pow_right (by decide) h)

theorem toNatBE_append {m n : Nat} (a : Bytes m) (b : Bytes n) :
    (append a b).toNatBE = b.toNatBE + 256 ^ n * a.toNatBE := by
  have hreverse : natOfDigits (append a b).reverse.toList =
      natOfDigits (b.reverse.toList ++ a.reverse.toList) :=
    congrArg natOfDigits List.reverse_append
  have hdigits := natOfDigits_append b.reverse.toList a.reverse.toList
  rw [b.reverse.length_toList] at hdigits
  simp only [toNatBE, toNat, hreverse, hdigits]

theorem toNatBE_ofNatBE {n v : Nat} (h : v < 256 ^ n) :
    (ofNatBE n v).toNatBE = v := by
  rw [toNatBE, ofNatBE, reverse_reverse, toNat_ofNat_of_lt h]

theorem toNat_zero (n : Nat) :
    (zero n).toNat = 0 := by
  have hdigits : natOfDigits (List.replicate n 0) = 0 := by
    induction n with
    | zero => rfl
    | succ n ih =>
        rw [List.replicate_succ, natOfDigits, ih, Nat.mul_zero, Nat.add_zero]
        rfl
  rw [toNat]
  exact hdigits

theorem reverse_zero (n : Nat) :
    (zero n).reverse = zero n :=
  ext List.reverse_replicate

theorem toNatBE_zero (n : Nat) :
    (zero n).toNatBE = 0 := by
  rw [toNatBE, reverse_zero, toNat_zero]

theorem toNat_append_zero {m : Nat} (a : Bytes m) (n : Nat) :
    (append a (zero n)).toNat = a.toNat := by
  rw [toNat_append, toNat_zero, Nat.mul_zero, Nat.add_zero]

theorem toNatBE_zero_append {n : Nat} (m : Nat) (b : Bytes n) :
    (append (zero m) b).toNatBE = b.toNatBE := by
  rw [toNatBE_append, toNatBE_zero, Nat.mul_zero, Nat.add_zero]

theorem toNat_xor {n : Nat} (a b : Bytes n) :
    (a.xor b).toNat = a.toNat ^^^ b.toNat := by
  rw [toNat, toNat, toNat]
  exact natOfDigits_zipWith_xor a.toList b.toList (a.length_toList.trans b.length_toList.symm)

theorem reverse_xor {n : Nat} (a b : Bytes n) :
    (a.xor b).reverse = a.reverse.xor b.reverse :=
  ext (List.reverse_zipWith (a.length_toList.trans b.length_toList.symm))

theorem toNatBE_xor {n : Nat} (a b : Bytes n) :
    (a.xor b).toNatBE = a.toNatBE ^^^ b.toNatBE := by
  rw [toNatBE, reverse_xor, toNat_xor, toNat_reverse, toNat_reverse]

theorem xor_zero {n : Nat} (a : Bytes n) :
    a.xor (zero n) = a := by
  rw [← toNat_inj, toNat_xor, toNat_zero, Nat.xor_zero]

theorem xor_comm {n : Nat} (a b : Bytes n) :
    a.xor b = b.xor a := by
  rw [← toNat_inj, toNat_xor, toNat_xor, Nat.xor_comm]

def equivFin (n : Nat) : Bytes n ≃ Fin (256 ^ n) where
  toFun b := ⟨b.toNat, b.toNat_lt⟩
  invFun v := ofNat n v
  left_inv b := ofNat_toNat b
  right_inv v := by
    apply Fin.ext
    change (ofNat n v).toNat = v
    rw [toNat_ofNat, Nat.mod_eq_of_lt v.isLt]

theorem card_eq (n : Nat) :
    Nat.card (Bytes n) = 256 ^ n := by
  rw [Nat.card_congr (equivFin n), Nat.card_eq_fintype_card, Fintype.card_fin]

end Bytes

end Edwards25519
