import WalletApi.Curve.Point
import WalletApi.Proofs.Curve.Modular

/-!
# The two primes of the curve

The coordinates of the curve live in a field because `fieldPrime` is prime, and every point has the
order of the base point because `groupOrder` is. Both numbers have 256 bits, so that primality has
to be shown by a certificate:

* `WalletApi.PrimalityStep` – one step of a certificate: a number, a base, and the factors of its
  predecessor. The base shows the number to be prime when its powers are those of an element whose
  order is the predecessor (`WalletApi.PrimalityStep.prime_of_passes`);
* `WalletApi.certified` – a list of steps in which every factor is among the numbers known before
  the step (`WalletApi.prime_of_certified`).

The factors of the two predecessors are again too large to be tried out, so the certificate of each
number begins with the certificates of its factors.
-/

namespace WalletApi

/-! ### Certificates -/

/-- A step of a certificate of primality: a number, a base whose powers show that the number is
prime, and the factors of the number's predecessor, each as often as it occurs. -/
structure PrimalityStep where
  number : ℕ
  base : ℕ
  factors : List ℕ

/-- The factors multiply to the predecessor; the power of the base with that exponent is one, and no
power is whose exponent lacks one of the factors. -/
def PrimalityStep.passes (s : PrimalityStep) : Bool :=
  1 < s.number && s.factors.prod == s.number - 1
    && Modular.pow s.number s.base (s.number - 1) == 1
    && s.factors.all fun q => Modular.pow s.number s.base ((s.number - 1) / q) != 1

/-- Every step passes, and its factors are numbers known before it. -/
def certified : List ℕ → List PrimalityStep → Bool
  | _, [] => true
  | known, s :: rest =>
    s.passes && s.factors.all known.contains && certified (s.number :: known) rest

theorem cast_pow_eq_one_iff {m : ℕ} (hm : 1 < m) (a n : ℕ) :
    (a : ZMod m) ^ n = 1 ↔ Modular.pow m a n = 1 := by
  rw [← Modular.cast_pow, ← Nat.cast_one, ZMod.natCast_eq_natCast_iff', Modular.pow_eq,
    Nat.mod_mod, Nat.mod_eq_of_lt hm]

/-- **A step that passes shows its number to be prime**, where its factors are prime. -/
theorem PrimalityStep.prime_of_passes {s : PrimalityStep} (h : s.passes = true)
    (hfactors : ∀ q ∈ s.factors, q.Prime) : s.number.Prime := by
  simp only [passes, Bool.and_eq_true, decide_eq_true_eq, beq_iff_eq, List.all_eq_true,
    bne_iff_ne] at h
  obtain ⟨⟨⟨hlt, hprod⟩, hone⟩, hne⟩ := h
  refine lucas_primality s.number (s.base : ZMod s.number) ?_ fun q hq hdvd => ?_
  · exact (cast_pow_eq_one_iff hlt _ _).mpr hone
  · -- A prime that divides the predecessor is one of its factors, and these were tried.
    rw [← hprod] at hdvd
    obtain ⟨f, hf, hqf⟩ := (Prime.dvd_prod_iff hq.prime).mp hdvd
    obtain rfl : q = f := (Nat.prime_dvd_prime_iff_eq hq (hfactors f hf)).mp hqf
    exact fun hpow => hne q hf ((cast_pow_eq_one_iff hlt _ _).mp hpow)

/-- **The numbers of a certificate are prime**, where the numbers known before it are. -/
theorem prime_of_certified {known : List ℕ} {steps : List PrimalityStep}
    (hknown : ∀ q ∈ known, q.Prime) (h : certified known steps = true) :
    ∀ n ∈ steps.map PrimalityStep.number, n.Prime := by
  induction steps generalizing known with
  | nil => simp
  | cons s rest ih =>
    simp only [certified, Bool.and_eq_true, List.all_eq_true, List.contains_iff_mem] at h
    obtain ⟨⟨hpass, hmem⟩, hrest⟩ := h
    have hs : s.number.Prime := s.prime_of_passes hpass fun q hq => hknown q (hmem q hq)
    have hall := ih (List.forall_mem_cons.mpr ⟨hs, hknown⟩) hrest
    exact List.forall_mem_cons.mpr ⟨hs, hall⟩

/-! ### The certificate of both numbers -/

/-- The primes that the certificate ends in, small enough to be tried out. -/
def smallPrimes : List ℕ :=
  [2, 3, 5, 7, 11, 17, 29, 31, 41, 53, 59, 97, 109, 149, 293, 461, 631, 797, 971, 1373, 1627, 1871,
    2011, 2621, 2657, 4051, 4423, 5323, 7723, 9349, 13441, 16699, 20113, 24809, 28181, 41201, 85831,
    96557, 120233, 305873]

/-- The steps that lead to the prime of the field. -/
def fieldSteps : List PrimalityStep :=
  [⟨13331831, 13, [2, 5, 971, 1373]⟩,
    ⟨173378833005251801, 6, [2, 2, 2, 5, 5, 2621, 24809, 13331831]⟩,
    ⟨22149492674086928081353, 5, [2, 2, 2, 3, 5323, 173378833005251801]⟩,
    ⟨132896956044521568488119, 6, [2, 3, 22149492674086928081353]⟩,
    ⟨1206781, 10, [2, 2, 3, 5, 20113]⟩,
    ⟨7240687, 3, [2, 3, 1206781]⟩,
    ⟨107590001, 3, [2, 2, 2, 2, 5, 5, 5, 5, 7, 29, 53]⟩,
    ⟨255515944373312847190720520512484175977, 3,
      [2, 2, 2, 7, 7, 11, 1627, 2657, 4423, 41201, 96557, 7240687, 107590001]⟩,
    ⟨205115282021455665897114700593932402728804164701536103180137503955397371, 10,
      [2, 3, 5, 29, 29, 31, 7723, 132896956044521568488119,
        255515944373312847190720520512484175977]⟩,
    ⟨fieldPrime, 3,
      [2, 3, 7, 13441, 205115282021455665897114700593932402728804164701536103180137503955397371]⟩]

/-- The steps that lead to the order of the group. -/
def orderSteps : List PrimalityStep :=
  [⟨4681609, 23, [2, 2, 2, 3, 97, 2011]⟩,
    ⟨107361793816595537, 3, [2, 2, 2, 2, 16699, 85831, 4681609]⟩,
    ⟨44706919, 6, [2, 3, 797, 9349]⟩,
    ⟨174723607534414371449, 3, [2, 2, 2, 17, 59, 4051, 120233, 44706919]⟩,
    ⟨545358713, 5, [2, 2, 2, 41, 59, 28181]⟩,
    ⟨1627771, 3, [2, 3, 5, 29, 1871]⟩,
    ⟨297159362677, 2, [2, 2, 3, 3, 11, 461, 1627771]⟩,
    ⟨29047611873442575647497758179, 2, [2, 293, 305873, 545358713, 297159362677]⟩,
    ⟨341948486974166000522343609283189, 2, [2, 2, 3, 3, 3, 109, 29047611873442575647497758179]⟩,
    ⟨groupOrder, 7,
      [2, 2, 2, 2, 2, 2, 3, 149, 631, 107361793816595537, 174723607534414371449,
        341948486974166000522343609283189]⟩]

theorem prime_of_mem_smallPrimes : ∀ q ∈ smallPrimes, q.Prime := by norm_num [smallPrimes]

/-- **The number of residues is prime**, so that coordinates form a field. -/
theorem prime_fieldPrime : fieldPrime.Prime := by
  have h : certified smallPrimes fieldSteps = true := by decide +kernel
  exact prime_of_certified prime_of_mem_smallPrimes h fieldPrime (by simp [fieldSteps])

/-- **The order of the group is prime.** -/
theorem prime_groupOrder : groupOrder.Prime := by
  have h : certified smallPrimes orderSteps = true := by decide +kernel
  exact prime_of_certified prime_of_mem_smallPrimes h groupOrder (by simp [orderSteps])

instance : Fact fieldPrime.Prime := ⟨prime_fieldPrime⟩

instance : Fact groupOrder.Prime := ⟨prime_groupOrder⟩

end WalletApi
