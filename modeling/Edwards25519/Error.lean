/-!
# Errors

The causes for which an operation gives no result, and their texts.
-/

namespace Edwards25519

inductive Error where
  /-- An operand does not decode. -/
  | invalidPoint
  /-- More seeds are asked for than one expansion yields. -/
  | unsupportedSeedCount (count : Nat)
  /-- The length of the suite tag does not fit in a byte. -/
  | suiteTooLong (length : Nat)
  /-- The length of the suite tag and the context together does not fit in a byte. -/
  | contextTooLong (length maximum : Nat)
  /-- The scalar is a multiple of the group order. -/
  | nonInvertibleScalar
deriving DecidableEq

def Error.message : Error -> String
  | invalidPoint => "point does not decode to a curve element"
  | unsupportedSeedCount count =>
      "at most 2 field seeds can be expanded, " ++ toString count ++ " requested"
  | suiteTooLong length =>
      "suite tag is " ++ toString length ++ " bytes, the maximum is 255"
  | contextTooLong length maximum =>
      "context is " ++ toString length ++ " bytes, at most " ++ toString maximum ++
        " fit alongside the suite tag"
  | nonInvertibleScalar => "scalar is not invertible"

/-!
## Operands that have to decode

Group operations take strings, decode both of them and fail if one does not
decode. What decoding means is left open, since compressed points and ristretto
elements each have their own.
-/

variable {α β γ : Type}

def onDecoded (decode? : α -> Option β) (operation : β -> β -> γ) (p q : α) :
    Except Error γ :=
  match decode? p, decode? q with
  | some P, some Q => .ok (operation P Q)
  | _, _ => .error .invalidPoint

theorem onDecoded_of_some {decode? : α -> Option β} {operation : β -> β -> γ}
    {p q : α} {P Q : β} (hp : decode? p = some P) (hq : decode? q = some Q) :
    onDecoded decode? operation p q = .ok (operation P Q) := by
  rw [onDecoded, hp, hq]

theorem onDecoded_eq_error_iff {decode? : α -> Option β} {operation : β -> β -> γ}
    {p q : α} {e : Error} :
    onDecoded decode? operation p q = .error e <->
      e = .invalidPoint ∧ (decode? p = none ∨ decode? q = none) := by
  unfold onDecoded
  cases decode? p with
  | none => simp [eq_comm]
  | some P =>
      cases decode? q with
      | none => simp [eq_comm]
      | some Q => simp

end Edwards25519
