import Mathlib
import Edwards25519.Error

/-!
# Operations that follow a group

Strings stand for elements of a commutative group, possibly several strings for
one element. Two operations on strings follow the group if they write the sum and
the difference of the elements that their operands stand for. The laws of the
group then hold for the strings that the operations write.
-/

namespace Edwards25519

theorem ok_bind {α β : Type} (a : α) (f : α -> Except Error β) :
    (Except.ok a >>= f) = f a :=
  rfl

variable {α G : Type} [AddCommGroup G]

structure FollowsGroup (standsFor : α -> G -> Prop) (encode : G -> α)
    (add sub : α -> α -> Except Error α) : Prop where
  add_eq : forall {p q : α} {P Q : G}, standsFor p P -> standsFor q Q ->
    add p q = .ok (encode (P + Q))
  sub_eq : forall {p q : α} {P Q : G}, standsFor p P -> standsFor q Q ->
    sub p q = .ok (encode (P - Q))
  encode_zero : standsFor (encode 0) 0
  encode_add : forall {p q : α} {P Q : G}, standsFor p P -> standsFor q Q ->
    standsFor (encode (P + Q)) (P + Q)
  encode_sub : forall {p q : α} {P Q : G}, standsFor p P -> standsFor q Q ->
    standsFor (encode (P - Q)) (P - Q)

namespace FollowsGroup

variable {standsFor : α -> G -> Prop} {encode : G -> α}
variable {add sub : α -> α -> Except Error α}
variable {p q r : α} {P Q R : G}

protected theorem add_comm (h : FollowsGroup standsFor encode add sub)
    (hp : standsFor p P) (hq : standsFor q Q) :
    add p q = add q p := by
  rw [h.add_eq hp hq, h.add_eq hq hp, add_comm P Q]

protected theorem add_assoc (h : FollowsGroup standsFor encode add sub)
    (hp : standsFor p P) (hq : standsFor q Q) (hr : standsFor r R) :
    exists s, (add p q >>= fun t => add t r) = .ok s ∧
      (add q r >>= fun t => add p t) = .ok s := by
  refine ⟨encode (P + Q + R), ?_, ?_⟩
  · rw [h.add_eq hp hq, ok_bind]
    exact h.add_eq (h.encode_add hp hq) hr
  · rw [h.add_eq hq hr, ok_bind, add_assoc P Q R]
    exact h.add_eq hp (h.encode_add hq hr)

protected theorem add_zero (h : FollowsGroup standsFor encode add sub) (hp : standsFor p P) :
    add p (encode 0) = .ok (encode P) := by
  rw [h.add_eq hp h.encode_zero, add_zero]

protected theorem sub_self (h : FollowsGroup standsFor encode add sub) (hp : standsFor p P) :
    sub p p = .ok (encode 0) := by
  rw [h.sub_eq hp hp, sub_self]

protected theorem add_sub_cancel (h : FollowsGroup standsFor encode add sub)
    (hp : standsFor p P) (hq : standsFor q Q) :
    (add p q >>= fun s => sub s q) = .ok (encode P) := by
  rw [h.add_eq hp hq, ok_bind, h.sub_eq (h.encode_add hp hq) hq, add_sub_cancel_right]

theorem add_zero_sub (h : FollowsGroup standsFor encode add sub)
    (hp : standsFor p P) (hq : standsFor q Q) :
    (sub (encode 0) q >>= fun s => add p s) = sub p q := by
  rw [h.sub_eq h.encode_zero hq, ok_bind, h.add_eq hp (h.encode_sub h.encode_zero hq),
    h.sub_eq hp hq, zero_sub, sub_eq_add_neg]

end FollowsGroup

end Edwards25519
