import Mathlib
import Edwards25519.Proofs.Scalar.Ring

/-!
# Expressions over scalars

An expression is built from the operations on scalars. Its value over the integers
is what the operations compute modulo the group order, so the string it evaluates
to depends on the arguments only through their classes, unless the expression is
an argument itself.
-/

namespace Edwards25519
namespace Scalar

/-- A tree of operations, with scalars and numbers of 512 bits at its leaves. -/
inductive Expression (ι κ : Type) where
  | argument (i : ι)
  | reduce (j : κ)
  | add (a b : Expression ι κ)
  | sub (a b : Expression ι κ)
  | negate (a : Expression ι κ)
  | complement (a : Expression ι κ)
  | mul (a b : Expression ι κ)

namespace Expression

variable {ι κ : Type}

def eval (x : ι -> Scalar) (w : κ -> WideScalar) : Expression ι κ -> Scalar
  | argument i => x i
  | reduce j => (w j).reduce
  | add a b => Scalar.add (a.eval x w) (b.eval x w)
  | sub a b => Scalar.sub (a.eval x w) (b.eval x w)
  | negate a => Scalar.negate (a.eval x w)
  | complement a => Scalar.complement (a.eval x w)
  | mul a b => Scalar.mul (a.eval x w) (b.eval x w)

def value (x : ι -> Int) (w : κ -> Int) : Expression ι κ -> Int
  | argument i => x i
  | reduce j => w j
  | add a b => a.value x w + b.value x w
  | sub a b => a.value x w - b.value x w
  | negate a => -a.value x w
  | complement a => 1 - a.value x w
  | mul a b => a.value x w * b.value x w

def IsOperation : Expression ι κ -> Prop
  | argument _ => False
  | _ => True

variable (x : ι -> Scalar) (w : κ -> WideScalar)

/-- The value of the tree over the integers written by the strings at its leaves. -/
def number (e : Expression ι κ) : Int :=
  e.value (fun i => (x i).toNat) (fun j => (w j).bytes.toNat)

theorem residue_eval (e : Expression ι κ) :
    (e.eval x w).residue = (e.number x w : Residue groupOrder) := by
  induction e with
  | argument i => exact (Int.cast_natCast (x i).toNat).symm
  | reduce j =>
      rw [eval, WideScalar.reduce, residue_ofResidue, number, value, Int.cast_natCast]
      rfl
  | add a b iha ihb =>
      rw [eval, add_eq_ofResidue, residue_ofResidue, iha, ihb, ← Int.cast_add]
      rfl
  | sub a b iha ihb =>
      rw [eval, sub_eq_ofResidue, residue_ofResidue, iha, ihb, ← Int.cast_sub]
      rfl
  | negate a iha =>
      rw [eval, negate_eq_ofResidue, residue_ofResidue, iha, ← Int.cast_neg]
      rfl
  | complement a iha =>
      rw [eval, complement_eq_ofResidue, residue_ofResidue, iha, ← Int.cast_one, ← Int.cast_sub]
      rfl
  | mul a b iha ihb =>
      rw [eval, mul_eq_ofResidue, residue_ofResidue, iha, ihb, ← Int.cast_mul]
      rfl

theorem eval_eq_ofResidue {e : Expression ι κ} (he : e.IsOperation) :
    e.eval x w = ofResidue (e.eval x w).residue := by
  cases e with
  | argument i => cases he
  | reduce j => rw [eval, WideScalar.reduce, residue_ofResidue]
  | add a b => rw [eval, add_eq_ofResidue, residue_ofResidue]
  | sub a b => rw [eval, sub_eq_ofResidue, residue_ofResidue]
  | negate a => rw [eval, negate_eq_ofResidue, residue_ofResidue]
  | complement a => rw [eval, complement_eq_ofResidue, residue_ofResidue]
  | mul a b => rw [eval, mul_eq_ofResidue, residue_ofResidue]

theorem isReduced_eval {e : Expression ι κ} (he : e.IsOperation) :
    IsReduced (e.eval x w) (e.number x w) := by
  rw [← eq_ofResidue_iff, ← residue_eval]
  exact eval_eq_ofResidue x w he

/-! ## Congruent arguments -/

theorem value_congr {x x' : ι -> Int} {w w' : κ -> Int}
    (hx : forall i, x i ≡ x' i [ZMOD groupOrder])
    (hw : forall j, w j ≡ w' j [ZMOD groupOrder]) (e : Expression ι κ) :
    e.value x w ≡ e.value x' w' [ZMOD groupOrder] := by
  induction e with
  | argument i => exact hx i
  | reduce j => exact hw j
  | add a b iha ihb => exact iha.add ihb
  | sub a b iha ihb => exact iha.sub ihb
  | negate a iha => exact iha.neg
  | complement a iha => exact (Int.ModEq.refl 1).sub iha
  | mul a b iha ihb => exact iha.mul ihb

variable {x w} {x' : ι -> Scalar} {w' : κ -> WideScalar}

theorem eval_congr (hx : forall i, (x i).toNat ≡ (x' i).toNat [MOD groupOrder])
    (hw : forall j, (w j).bytes.toNat ≡ (w' j).bytes.toNat [MOD groupOrder])
    {e : Expression ι κ} (he : e.IsOperation) :
    e.eval x w = e.eval x' w' := by
  have hnumber : e.number x w ≡ e.number x' w' [ZMOD groupOrder] :=
    value_congr (fun i => Int.natCast_modEq_iff.mpr (hx i))
      (fun j => Int.natCast_modEq_iff.mpr (hw j)) e
  have h := isReduced_eval x w he
  have h' := isReduced_eval x' w' he
  exact IsReduced.unique ⟨h.lt, h.congruent.trans hnumber⟩ h'

end Expression

/-! ## The ring -/

/-- The operations compute modulo the group order on all strings and never wrap on the way. -/
theorem operations_modulo_groupOrder (x y z : Scalar) (v : WideScalar) :
    ((z = v.reduce <-> IsReduced z v.bytes.toNat) ∧
      (z = add x y <-> IsReduced z (x.toNat + y.toNat)) ∧
      (z = sub x y <-> IsReduced z (x.toNat - y.toNat)) ∧
      (z = negate x <-> IsReduced z (-x.toNat)) ∧
      (z = complement x <-> IsReduced z (1 - x.toNat)) ∧
      (z = mul x y <-> IsReduced z (x.toNat * y.toNat))) ∧
    ((wideSum x y).toNat = x.toNat + y.toNat ∧
      (wideSum x (negate y)).toNat = x.toNat + (negate y).toNat ∧
      ((wideDifference 0 x).toNat : Int) = groupOrder * 2 ^ 256 - x.toNat ∧
      ((wideDifference 1 x).toNat : Int) = groupOrder * 2 ^ 256 + 1 - x.toNat) ∧
    ((x.isCanonical = true <-> x.toNat < groupOrder) ∧
      (x.isCanonical = true <-> add x zero = x)) ∧
    forall {ι κ : Type} (e : Expression ι κ) (s s' : ι -> Scalar) (t t' : κ -> WideScalar),
      e.IsOperation ->
      (forall i, (s i).toNat ≡ (s' i).toNat [MOD groupOrder]) ->
      (forall j, (t j).bytes.toNat ≡ (t' j).bytes.toNat [MOD groupOrder]) ->
      e.eval s t = e.eval s' t' := by
  refine ⟨⟨eq_reduce_iff z v, eq_add_iff z x y, eq_sub_iff z x y, eq_negate_iff z x,
    eq_complement_iff z x, eq_mul_iff z x y⟩, ⟨toNat_wideSum x y, toNat_wideSum x (negate y),
    ?_, toNat_wideDifference (Nat.le_refl 1) x⟩, ⟨isCanonical_iff x, ?_⟩, ?_⟩
  · have hzero := toNat_wideDifference (Nat.zero_le 1) x
    rw [Nat.cast_zero, add_zero] at hzero
    exact hzero
  · rw [isCanonical_iff, add_zero_eq_self_iff]
  · intro ι κ e s s' t t' he hs ht
    exact Expression.eval_congr hs ht he

/-- The string of the group order, which is congruent to zero without being zero. -/
def order : Scalar where
  bytes := Bytes.ofNat 32 groupOrder

def wideOrder : WideScalar where
  bytes := Bytes.ofNat 64 groupOrder

def wideZero : WideScalar where
  bytes := Bytes.zero 64

theorem operations_modulo_groupOrder_order :
    order.isCanonical = false ∧
    order.toNat ≡ zero.toNat [MOD groupOrder] ∧
    wideOrder.bytes.toNat ≡ wideZero.bytes.toNat [MOD groupOrder] ∧
    add (complement order) wideOrder.reduce = add (complement zero) wideZero.reduce := by
  have horder : order.toNat = groupOrder := by
    refine (Bytes.toNat_ofNat 32 groupOrder).trans (Nat.mod_eq_of_lt ?_)
    decide
  have hzero : zero.toNat = 0 := Bytes.toNat_zero 32
  have hwideOrder : wideOrder.bytes.toNat = groupOrder := by
    have hbound : groupOrder < 2 ^ 256 := by decide
    refine (Bytes.toNat_ofNat 64 groupOrder).trans (Nat.mod_eq_of_lt ?_)
    omega
  have hwideZero : wideZero.bytes.toNat = 0 := Bytes.toNat_zero 64
  have hmod : groupOrder ≡ 0 [MOD groupOrder] := Nat.modEq_zero_iff_dvd.mpr dvd_rfl
  have hscalar : order.toNat ≡ zero.toNat [MOD groupOrder] := by
    rw [horder, hzero]
    exact hmod
  have hwide : wideOrder.bytes.toNat ≡ wideZero.bytes.toNat [MOD groupOrder] := by
    rw [hwideOrder, hwideZero]
    exact hmod
  let e : Expression Unit Unit := .add (.complement (.argument ())) (.reduce ())
  rcases operations_modulo_groupOrder order order order wideOrder with ⟨-, -, hcanonical, hcongr⟩
  refine ⟨?_, hscalar, hwide, ?_⟩
  · rw [Bool.eq_false_iff, ne_eq, hcanonical.1, horder]
    exact lt_irrefl groupOrder
  · exact hcongr e (fun _ => order) (fun _ => zero) (fun _ => wideOrder) (fun _ => wideZero)
      True.intro (fun _ => hscalar) (fun _ => hwide)

end Scalar

end Edwards25519
