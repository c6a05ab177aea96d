import Mathlib
import Edwards25519.Curve.Group
import Edwards25519.Proofs.Residue.Ring

/-!
# The primes of the curve

Both the characteristic of the field and the order of the subgroup are prime. A
certificate for a number `m` is an element of order `m - 1` together with the
prime factors of `m - 1`, each of which is known to be prime or certified
before. Checking one takes a power for each factor.
-/

namespace Edwards25519

/-! ## Powers in the integers modulo a number -/

/-- The remainder of a power, with all intermediate products reduced. -/
def powerMod (m a n : Nat) : Nat :=
  binaryPower (fun x y => x * y % m) (1 % m) (a % m) n

theorem cast_powerMod (m a n : Nat) :
    (powerMod m a n : ZMod m) = (a : ZMod m) ^ n := by
  apply binaryPower_related (R := fun (x : Nat) (z : ZMod m) => (x : ZMod m) = z)
  · rw [ZMod.natCast_mod, Nat.cast_one]
  · intro x y s t hx hy
    rw [ZMod.natCast_mod, Nat.cast_mul, hx, hy]
  · exact ZMod.natCast_mod a m

theorem powerMod_mod_eq_one_iff (m a n : Nat) :
    powerMod m a n % m = 1 % m <-> (a : ZMod m) ^ n = 1 := by
  have h := ZMod.natCast_eq_natCast_iff' (powerMod m a n) 1 m
  rw [cast_powerMod, Nat.cast_one] at h
  exact h.symm

/-! ## Certificates -/

/-- An element said to have the greatest order modulo a prime. -/
structure PrimalityCertificate where
  modulus : Nat
  generator : Nat
  /-- The prime factors of `modulus - 1`, each as often as it occurs. -/
  factors : List Nat

namespace PrimalityCertificate

/-- The factors are known primes and no smaller power of the generator is one. -/
def check (known : List Nat) (c : PrimalityCertificate) : Bool :=
  decide (c.factors.prod = c.modulus - 1) &&
    c.factors.all known.contains &&
    decide (powerMod c.modulus c.generator (c.modulus - 1) % c.modulus = 1 % c.modulus) &&
    c.factors.all fun q =>
      decide (powerMod c.modulus c.generator ((c.modulus - 1) / q) % c.modulus ≠
        1 % c.modulus)

def checkAll : List Nat -> List PrimalityCertificate -> Bool
  | _, [] => true
  | known, c :: rest => c.check known && checkAll (c.modulus :: known) rest

theorem prime_of_check {known : List Nat} {c : PrimalityCertificate}
    (hknown : forall q, q ∈ known -> q.Prime) (h : c.check known = true) :
    c.modulus.Prime := by
  simp only [check, Bool.and_eq_true, decide_eq_true_eq, List.all_eq_true,
    List.contains_iff_mem] at h
  rcases h with ⟨⟨⟨hprod, hmem⟩, hfull⟩, hproper⟩
  refine lucas_primality c.modulus (c.generator : ZMod c.modulus) ?_ ?_
  · exact (powerMod_mod_eq_one_iff _ _ _).mp hfull
  · intro q hq hdvd
    rw [← hprod] at hdvd
    rcases (Prime.dvd_prod_iff hq.prime).mp hdvd with ⟨r, hr, hqr⟩
    have heq : q = r :=
      (Nat.prime_dvd_prime_iff_eq hq (hknown r (hmem r hr))).mp hqr
    intro hone
    apply hproper q (heq ▸ hr)
    exact (powerMod_mod_eq_one_iff _ _ _).mpr hone

theorem prime_of_checkAll {known : List Nat} {l : List PrimalityCertificate}
    (hknown : forall q, q ∈ known -> q.Prime) (h : checkAll known l = true) :
    forall c, c ∈ l -> c.modulus.Prime := by
  induction l generalizing known with
  | nil =>
      intro c hc
      cases hc
  | cons first rest ih =>
      simp only [checkAll, Bool.and_eq_true] at h
      have hfirst := prime_of_check hknown h.1
      have hmore : forall q, q ∈ first.modulus :: known -> q.Prime := by
        intro q hq
        cases List.mem_cons.mp hq with
        | inl heq => exact heq ▸ hfirst
        | inr htail => exact hknown q htail
      intro c hc
      cases List.mem_cons.mp hc with
      | inl heq => exact heq ▸ hfirst
      | inr htail => exact ih hmore h.2 c htail

end PrimalityCertificate

/-! ## The two primes -/

def smallPrimes : List Nat :=
  [2, 3, 5, 7, 11, 13, 19, 23, 31, 41, 43, 47, 73, 103, 107, 127, 223, 269, 307,
    353, 991, 1361, 2437, 2551, 2851, 3727, 4153, 5879, 30703, 57467, 65147, 75707,
    82163, 132049, 132667, 137849, 409477, 430751, 531581, 569003]

theorem prime_of_mem_smallPrimes :
    forall q, q ∈ smallPrimes -> q.Prime := by
  simp only [smallPrimes, List.forall_mem_cons]
  norm_num

def fieldPrimeCertificates : List PrimalityCertificate :=
  [{ modulus := 1923133
     generator := 2
     factors := [2, 2, 3, 43, 3727] },
   { modulus := 31757755568855353
     generator := 10
     factors := [2, 2, 2, 3, 31, 107, 223, 4153, 430751] },
   { modulus := 2773320623
     generator := 5
     factors := [2, 2437, 569003] },
   { modulus := 72106336199
     generator := 7
     factors := [2, 13, 2773320623] },
   { modulus := 8574133
     generator := 2
     factors := [2, 2, 3, 7, 103, 991] },
   { modulus := 1919519569386763
     generator := 2
     factors := [2, 3, 7, 19, 47, 47, 127, 8574133] },
   { modulus := 75445702479781427272750846543864801
     generator := 7
     factors :=
      [2, 2, 2, 2, 2, 3, 3, 5, 5, 75707, 72106336199, 1919519569386763] },
   { modulus :=
      74058212732561358302231226437062788676166966415465897661863160754340907
     generator := 2
     factors :=
      [2, 3, 353, 57467, 132049, 1923133, 31757755568855353,
        75445702479781427272750846543864801] },
   { modulus := fieldPrime
     generator := 2
     factors :=
      [2, 2, 3, 65147,
        74058212732561358302231226437062788676166966415465897661863160754340907] }]

def groupOrderCertificates : List PrimalityCertificate :=
  [{ modulus := 14741173
     generator := 2
     factors := [2, 2, 3, 3, 409477] },
   { modulus := 58964693
     generator := 2
     factors := [2, 2, 14741173] },
   { modulus := 3044861653679985063343
     generator := 5
     factors := [2, 3, 11, 30703, 82163, 132667, 137849] },
   { modulus := 198211423230930754013084525763697
     generator := 5
     factors := [2, 2, 2, 2, 3, 23, 58964693, 3044861653679985063343] },
   { modulus := 292386187
     generator := 2
     factors := [2, 3, 3, 3, 3, 307, 5879] },
   { modulus := 213441916511
     generator := 13
     factors := [2, 5, 73, 292386187] },
   { modulus := 1224481
     generator := 13
     factors := [2, 2, 2, 2, 2, 3, 5, 2551] },
   { modulus := 1257559732178653
     generator := 2
     factors := [2, 2, 3, 7, 23, 531581, 1224481] },
   { modulus := 4434155615661930479
     generator := 17
     factors := [2, 41, 43, 1257559732178653] },
   { modulus := 172054593956031949258510691
     generator := 2
     factors := [2, 5, 1361, 2851, 4434155615661930479] },
   { modulus := 19757330305831588566944191468367130476339
     generator := 2
     factors := [2, 269, 213441916511, 172054593956031949258510691] },
   { modulus := 276602624281642239937218680557139826668747
     generator := 2
     factors := [2, 7, 19757330305831588566944191468367130476339] },
   { modulus := groupOrder
     generator := 2
     factors :=
      [2, 2, 3, 11, 198211423230930754013084525763697,
        276602624281642239937218680557139826668747] }]

theorem fieldPrimeCertificates_check :
    PrimalityCertificate.checkAll smallPrimes fieldPrimeCertificates = true := by
  decide +kernel

theorem groupOrderCertificates_check :
    PrimalityCertificate.checkAll smallPrimes groupOrderCertificates = true := by
  decide +kernel

theorem fieldPrime_prime :
    fieldPrime.Prime :=
  PrimalityCertificate.prime_of_checkAll prime_of_mem_smallPrimes
    fieldPrimeCertificates_check _ (List.mem_of_getLast? rfl)

theorem groupOrder_prime :
    groupOrder.Prime :=
  PrimalityCertificate.prime_of_checkAll prime_of_mem_smallPrimes
    groupOrderCertificates_check _ (List.mem_of_getLast? rfl)

end Edwards25519
