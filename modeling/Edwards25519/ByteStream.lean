import Edwards25519.Bytes

/-!
# Streams of bytes

A source of random bytes is modelled by all the bytes it will ever hand out.
Drawing takes bytes off the front, so a sampler is a function of the stream and
reports how many bytes it took. A search through the successive draws ends as
soon as some draw is accepted.
-/

namespace Edwards25519

structure ByteStream where
  byteAt : Nat -> UInt8

namespace ByteStream

def drop (s : ByteStream) (k : Nat) : ByteStream where
  byteAt i := s.byteAt (k + i)

def draw (s : ByteStream) (n : Nat) : Bytes n where
  toList := (List.range n).map s.byteAt
  length_toList := by
    rw [List.length_map, List.length_range]

/-- The draw of `n` bytes that comes after `k` others of the same size. -/
def block (s : ByteStream) (n k : Nat) : Bytes n :=
  (s.drop (n * k)).draw n

def zeros : ByteStream where
  byteAt _ := 0

def scripted (l : List UInt8) : ByteStream :=
  let script := l.toArray
  { byteAt := fun i => script.getD i 1 }

theorem drop_zero (s : ByteStream) :
    s.drop 0 = s := by
  simp [drop]

theorem drop_drop (s : ByteStream) (j k : Nat) :
    (s.drop j).drop k = s.drop (j + k) := by
  simp [drop, Nat.add_assoc]

theorem byteAt_scripted (l : List UInt8) (i : Nat) :
    (scripted l).byteAt i = l.getD i 1 := by
  simp [scripted]

end ByteStream

/-! ## The first accepted draw -/

/--
The first index from `k` on at which `accept?` gives a value, together with the
value. No index before `k` gives one.
-/
def firstAcceptedFrom {α : Type} (accept? : Nat -> Option α)
    (productive : exists k, (accept? k).isSome) (k : Nat)
    (rejected : forall j, j < k -> accept? j = none) : Nat × α :=
  match h : accept? k with
  | some a => (k, a)
  | none =>
      firstAcceptedFrom accept? productive (k + 1) (by
        intro j hj
        cases Nat.lt_succ_iff_lt_or_eq.mp hj with
        | inl hlt => exact rejected j hlt
        | inr heq => rw [heq, h])
termination_by productive.choose - k
decreasing_by
  have hsome := productive.choose_spec
  have hle : k <= productive.choose := by
    refine Nat.le_of_not_lt ?_
    intro hlt
    rw [rejected _ hlt] at hsome
    cases hsome
  have hne : k ≠ productive.choose := by
    intro heq
    rw [← heq, h] at hsome
    cases hsome
  omega

def firstAccepted {α : Type} (accept? : Nat -> Option α)
    (productive : exists k, (accept? k).isSome) : Nat × α :=
  firstAcceptedFrom accept? productive 0 (by
    intro j hj
    exact absurd hj (Nat.not_lt_zero j))

theorem firstAcceptedFrom_eq {α : Type} (accept? : Nat -> Option α)
    (productive : exists k, (accept? k).isSome) (k : Nat)
    (rejected : forall j, j < k -> accept? j = none)
    {i : Nat} {a : α} (hki : k <= i) (hi : accept? i = some a)
    (hbefore : forall j, j < i -> accept? j = none) :
    firstAcceptedFrom accept? productive k rejected = (i, a) := by
  rw [firstAcceptedFrom]
  split
  · rename_i b hb
    cases Nat.lt_or_eq_of_le hki with
    | inl hlt =>
        rw [hbefore k hlt] at hb
        cases hb
    | inr heq =>
        subst heq
        rw [hi] at hb
        cases hb
        rfl
  · rename_i hnone
    cases Nat.lt_or_eq_of_le hki with
    | inl hlt =>
        exact firstAcceptedFrom_eq accept? productive (k + 1) _ hlt hi hbefore
    | inr heq =>
        subst heq
        rw [hi] at hnone
        cases hnone
termination_by i - k

/-- The search ends at the first accepted index and gives its value unchanged. -/
theorem firstAccepted_eq {α : Type} (accept? : Nat -> Option α)
    (productive : exists k, (accept? k).isSome)
    {i : Nat} {a : α} (hi : accept? i = some a)
    (hbefore : forall j, j < i -> accept? j = none) :
    firstAccepted accept? productive = (i, a) :=
  firstAcceptedFrom_eq accept? productive 0 _ (Nat.zero_le i) hi hbefore

end Edwards25519
