import Mathlib.GroupTheory.OrderOfElement
import Mathlib.NumberTheory.LegendreSymbol.QuadraticReciprocity
import Rahgozar.Lib.BigEndian
import Rahgozar.Lib.Pratt
import Rahgozar.Lib.Twists

set_option autoImplicit false

/-! # Curve25519

The Montgomery curve with `A = 486662` over the integers modulo `2^255 - 19`. It has `8 * order`
points: the base point has the prime order `order`, there is a point of order eight, and no curve
over the field has more than twice as many points as the field, and one. The points of the twist
are the rest of the two for every coordinate.
-/

namespace Curve25519

open WeierstrassCurve.Affine Montgomery Bits

/-! ## The two primes -/

def p : ℕ := 2 ^ 255 - 19

/-- The order of the base point. -/
def order : ℕ := 2 ^ 252 + 27742317777372353535851937790883648493

def smallPrimes : List ℕ :=
  [2, 3, 5, 7, 11, 13, 19, 23, 31, 41, 43, 47, 73, 103, 107, 127, 223, 269, 307, 353, 991, 1361,
    2437, 2551, 2851, 3727, 4153, 5879, 30703, 57467, 65147, 75707, 82163, 132049, 132667, 137849,
    409477, 430751, 531581, 569003]

theorem prime_of_mem_smallPrimes : ∀ q ∈ smallPrimes, q.Prime := by
  norm_num [smallPrimes]

def certificate : List Pratt.Step :=
  [⟨p, 2,
      [2, 2, 3, 65147, 74058212732561358302231226437062788676166966415465897661863160754340907]⟩,
    ⟨74058212732561358302231226437062788676166966415465897661863160754340907, 2,
      [2, 3, 353, 57467, 132049, 1923133, 31757755568855353, 75445702479781427272750846543864801]⟩,
    ⟨75445702479781427272750846543864801, 7,
      [2, 2, 2, 2, 2, 3, 3, 5, 5, 75707, 72106336199, 1919519569386763]⟩,
    ⟨31757755568855353, 10, [2, 2, 2, 3, 31, 107, 223, 4153, 430751]⟩,
    ⟨1919519569386763, 2, [2, 3, 7, 19, 47, 47, 127, 8574133]⟩,
    ⟨72106336199, 7, [2, 13, 2773320623]⟩,
    ⟨2773320623, 5, [2, 2437, 569003]⟩,
    ⟨8574133, 2, [2, 2, 3, 7, 103, 991]⟩,
    ⟨1923133, 2, [2, 2, 3, 43, 3727]⟩,
    ⟨order, 2,
      [2, 2, 3, 11, 198211423230930754013084525763697, 276602624281642239937218680557139826668747]⟩,
    ⟨276602624281642239937218680557139826668747, 2,
      [2, 7, 19757330305831588566944191468367130476339]⟩,
    ⟨19757330305831588566944191468367130476339, 2,
      [2, 269, 213441916511, 172054593956031949258510691]⟩,
    ⟨198211423230930754013084525763697, 5, [2, 2, 2, 2, 3, 23, 58964693, 3044861653679985063343]⟩,
    ⟨172054593956031949258510691, 2, [2, 5, 1361, 2851, 4434155615661930479]⟩,
    ⟨3044861653679985063343, 5, [2, 3, 11, 30703, 82163, 132667, 137849]⟩,
    ⟨4434155615661930479, 17, [2, 41, 43, 1257559732178653]⟩,
    ⟨1257559732178653, 2, [2, 2, 3, 7, 23, 531581, 1224481]⟩,
    ⟨213441916511, 13, [2, 5, 73, 292386187]⟩,
    ⟨292386187, 2, [2, 3, 3, 3, 3, 307, 5879]⟩,
    ⟨58964693, 2, [2, 2, 14741173]⟩,
    ⟨14741173, 2, [2, 2, 3, 3, 409477]⟩,
    ⟨1224481, 13, [2, 2, 2, 2, 2, 3, 5, 2551]⟩]

theorem prime_of_mem_certificate : ∀ q ∈ certificate.map Pratt.Step.p, q.Prime :=
  Pratt.prime_of_checks prime_of_mem_smallPrimes (by decide +kernel) (by decide +kernel)

theorem prime_p : p.Prime := prime_of_mem_certificate p (by simp [certificate])

theorem prime_order : order.Prime := prime_of_mem_certificate order (by simp [certificate])

instance : Fact p.Prime := ⟨prime_p⟩

/-! ## The curve and its twist -/

abbrev F : Type := ZMod p

abbrev A : F := 486662

theorem natCast_eq {m n : ℕ} (h : m % p = n % p) : (m : F) = n :=
  (ZMod.natCast_eq_natCast_iff' m n p).mpr h

theorem natCast_ne {m n : ℕ} (h : m % p ≠ n % p) : (m : F) ≠ n :=
  (ZMod.natCast_eq_natCast_iff' m n p).not.mpr h

theorem smooth_of_ne_zero {d : F} (hd : d ≠ 0) : Smooth A d where
  two := by
    have h := natCast_ne (m := 2) (n := 0) (by norm_num [p])
    exact_mod_cast h
  four := by
    have h := natCast_ne (m := 486662 ^ 2) (n := 4) (by norm_num [p])
    exact_mod_cast h
  twist := hd

theorem smooth_one : Smooth A 1 := smooth_of_ne_zero one_ne_zero

theorem smooth_two : Smooth A 2 := smooth_of_ne_zero smooth_one.two

/-- `(A - 2) / 4` -/
abbrev a24 : F := 121665

theorem four_mul_a24 : 4 * a24 = A - 2 := by norm_num [a24, A]

theorem not_isSquare_two : ¬IsSquare (2 : F) := by
  rw [ZMod.exists_sq_eq_two_iff (by norm_num [p])]
  norm_num [p]

/-! ## How many points there are -/

theorem equation_of_mod_eq {u y : ℕ} (h : y ^ 2 % p = (u ^ 3 + 486662 * u ^ 2 + u) % p) :
    (curve A 1).Equation (1 * u) y := by
  rw [equation_mul_iff, one_pow, one_mul, cubic, A]
  exact_mod_cast natCast_eq h

theorem equation_base :
    (curve A 1).Equation (1 * 9)
      14781619447589544791020593568409986887264606134616475288964881837755586237401 := by
  have h := equation_of_mod_eq (u := 9)
    (y := 14781619447589544791020593568409986887264606134616475288964881837755586237401)
    (by norm_num [p])
  exact_mod_cast h

theorem equation_eight :
    (curve A 1).Equation
      (1 * 325606250916557431795983626356110631294008115727848805560023387167927233504)
      32026303591712962751241307547882981359278212717910236697706316503764922500307 := by
  have h := equation_of_mod_eq
    (u := 325606250916557431795983626356110631294008115727848805560023387167927233504)
    (y := 32026303591712962751241307547882981359278212717910236697706316503764922500307)
    (by norm_num [p])
  exact_mod_cast h

/-- A multiple is infinity when the ladder ends with a fraction that says so. -/
theorem nsmul_eq_zero_iff {d u y : F} (hs : Smooth A d) (hu : u ≠ 0)
    (h : (curve A d).Nonsingular (d * u) y) {len n : ℕ} (hn : n < 2 ^ len) :
    n • Point.some (d * u) y h = 0 ↔ (ladder a24 u (bits len n)).Z = 0 := by
  have hshows := ladder_shows hs four_mul_a24 hu h (bits len n)
  rw [number_bits hn] at hshows
  exact hshows.Z_eq_zero_iff.symm

/-- How the ladder ends at the base point, and at the point of order eight. -/
theorem ladder_points :
    (ladder a24 9 (bits 253 order)).Z = 0 ∧
      ¬(ladder a24 325606250916557431795983626356110631294008115727848805560023387167927233504
        (bits 4 (2 ^ 2))).Z = 0 ∧
      (ladder a24 325606250916557431795983626356110631294008115727848805560023387167927233504
        (bits 4 (2 ^ (2 + 1)))).Z = 0 := by
  decide +kernel

theorem order_dvd_card : order ∣ Nat.card (curve A 1).Point := by
  have : Fact order.Prime := ⟨prime_order⟩
  have hbase := smooth_one.nonsingular equation_base
  have hne := natCast_ne (m := 9) (n := 0) (by norm_num [p])
  rw [Nat.cast_ofNat, Nat.cast_zero] at hne
  have horder : addOrderOf (Point.some _ _ hbase) = order := by
    apply addOrderOf_eq_prime
    · rw [nsmul_eq_zero_iff smooth_one hne hbase (by norm_num [order] : _ < 2 ^ 253)]
      exact ladder_points.1
    · exact Point.some_ne_zero hbase
  rw [← horder]
  exact addOrderOf_dvd_natCard _

theorem eight_dvd_card : 8 ∣ Nat.card (curve A 1).Point := by
  have : Fact (Nat.Prime 2) := ⟨Nat.prime_two⟩
  have height := smooth_one.nonsingular equation_eight
  have hne := natCast_ne (n := 0)
    (m := 325606250916557431795983626356110631294008115727848805560023387167927233504)
    (by norm_num [p])
  rw [Nat.cast_ofNat, Nat.cast_zero] at hne
  have horder : addOrderOf (Point.some _ _ height) = 2 ^ (2 + 1) := by
    apply addOrderOf_eq_prime_pow
    · rw [nsmul_eq_zero_iff smooth_one hne height (by norm_num : _ < 2 ^ 4)]
      exact ladder_points.2.1
    · rw [nsmul_eq_zero_iff smooth_one hne height (by norm_num : _ < 2 ^ 4)]
      exact ladder_points.2.2
  have hdvd := addOrderOf_dvd_natCard (Point.some _ _ height)
  rw [horder] at hdvd
  exact hdvd

theorem card_sum : Nat.card (curve A 1).Point + Nat.card (curve A 2).Point = 2 * p + 2 := by
  rw [card_add_card_twist smooth_one smooth_two not_isSquare_two, ZMod.card]

theorem card_curve : Nat.card (curve A 1).Point = 8 * order := by
  have := finite_points smooth_one
  have := finite_points smooth_two
  have hcop : Nat.Coprime 8 order := by norm_num [order]
  obtain ⟨k, hk⟩ := hcop.mul_dvd_of_dvd_of_dvd eight_dvd_card order_dvd_card
  have hpos : 0 < Nat.card (curve A 1).Point := Nat.card_pos
  have htwist : 0 < Nat.card (curve A 2).Point := Nat.card_pos
  have hsum := card_sum
  -- twice as many would be more than the sum of the two
  have hk1 : k = 1 := by
    simp only [order, p] at hk hsum
    omega
  rw [hk, hk1, mul_one]

theorem card_twist : Nat.card (curve A 2).Point = 2 * p + 2 - 8 * order := by
  have hsum := card_sum
  rw [card_curve] at hsum
  omega

/-! ## Low order -/

/-- The points over a coordinate have an order that divides eight. -/
def LowOrder (u : F) : Prop :=
  ∃ d : F, d ≠ 0 ∧ ∃ (y : F) (h : (curve A d).Nonsingular (d * u) y), 8 • Point.some (d * u) y h = 0

theorem lowOrder_zero : LowOrder 0 := by
  have hzero : (curve A 1).Equation (1 * 0) 0 := equation_mul_iff.mpr (by simp [cubic])
  have hP := smooth_one.nonsingular hzero
  have htwo : 2 • Point.some (1 * 0) 0 hP = 0 := by
    rw [two_nsmul]
    exact Point.add_self_of_Y_eq (by rw [negY_eq, neg_zero])
  refine ⟨1, one_ne_zero, 0, hP, ?_⟩
  rw [(by rfl : 8 = 2 * 4), mul_nsmul, htwo, nsmul_zero]

/-- What two multiples that are infinity have in common. -/
theorem nsmul_eq_zero_of_gcd_dvd {G : Type*} [AddCommGroup G] {P : G} {m n k : ℕ} (hm : m • P = 0)
    (hn : n • P = 0) (hk : Nat.gcd m n ∣ k) : k • P = 0 := by
  rw [← addOrderOf_dvd_iff_nsmul_eq_zero] at hm hn ⊢
  exact (Nat.dvd_gcd hm hn).trans hk

/-- A scalar that meets the orders of the curve and of its twist in a divisor of eight only. -/
structure Probes (n : ℕ) : Prop where
  bound : n < 2 ^ 255
  curve : Nat.gcd (2 * n) (8 * order) ∣ 8
  twist : Nat.gcd (2 * n) (2 * p + 2 - 8 * order) ∣ 8

/-- **Only a coordinate of low order gives the result zero.** -/
theorem lowOrder_of_ladder {u : F} {bs : List Bool} (hprobe : Probes (number bs))
    (h : (ladder a24 u bs).X * (ladder a24 u bs).Z = 0) : LowOrder u := by
  by_cases hu : u = 0
  · rw [hu]
    exact lowOrder_zero
  · rcases exists_point not_isSquare_two u with ⟨y, hy⟩ | ⟨y, hy⟩
    · have hP := smooth_one.nonsingular hy
      have htwice := (ladder_shows smooth_one four_mul_a24 hu hP bs).two_nsmul_eq_zero smooth_one
        four_mul_a24 h
      rw [smul_smul] at htwice
      refine ⟨1, one_ne_zero, y, hP, nsmul_eq_zero_of_gcd_dvd htwice ?_ hprobe.curve⟩
      rw [← card_curve]
      exact card_nsmul_eq_zero'
    · have hP := smooth_two.nonsingular hy
      have htwice := (ladder_shows smooth_two four_mul_a24 hu hP bs).two_nsmul_eq_zero smooth_two
        four_mul_a24 h
      rw [smul_smul] at htwice
      refine ⟨2, smooth_two.twist, y, hP, nsmul_eq_zero_of_gcd_dvd htwice ?_ hprobe.twist⟩
      rw [← card_twist]
      exact card_nsmul_eq_zero'

/-- Eight times a point over the coordinate says whether it is of low order. -/
theorem lowOrder_iff (u : F) : LowOrder u ↔ u = 0 ∨ (ladder a24 u (bits 4 8)).Z = 0 := by
  by_cases hu : u = 0
  · rw [hu]
    exact iff_of_true lowOrder_zero (Or.inl rfl)
  · rw [or_iff_right hu]
    constructor
    · rintro ⟨d, hd, y, h, h8⟩
      exact (nsmul_eq_zero_iff (smooth_of_ne_zero hd) hu h (by decide)).mp h8
    · intro hZ
      rcases exists_point not_isSquare_two u with ⟨y, hy⟩ | ⟨y, hy⟩
      · exact ⟨1, one_ne_zero, y, smooth_one.nonsingular hy,
          (nsmul_eq_zero_iff smooth_one hu _ (by decide)).mpr hZ⟩
      · exact ⟨2, smooth_two.twist, y, smooth_two.nonsingular hy,
          (nsmul_eq_zero_iff smooth_two hu _ (by decide)).mpr hZ⟩

instance (u : F) : Decidable (LowOrder u) := decidable_of_iff _ (lowOrder_iff u).symm

/-! ## X25519

Keys and scalars are 32 bytes, least significant first.
-/

def littleEndian (bytes : List UInt8) : ℕ := BigEndian.get bytes.reverse

def toBytes (n : ℕ) : List UInt8 := (BigEndian.put 32 n).reverse

/-- The three low bits are cleared, the highest one is cleared and the second highest one set. -/
def decodeScalar (k : List UInt8) : ℕ :=
  littleEndian ((k.modify 0 (· &&& 248)).modify 31 fun b => b &&& 127 ||| 64)

/-- The highest bit is ignored. -/
def decodeCoordinate (u : List UInt8) : F := littleEndian (u.modify 31 (· &&& 127))

def x25519 (k u : List UInt8) : List UInt8 :=
  let shown := ladder a24 (decodeCoordinate u) (bits 255 (decodeScalar k))
  toBytes (shown.X * power shown.Z (bits 255 (p - 2))).val

theorem power_eq_inv (z : F) : power z (bits 255 (p - 2)) = z⁻¹ := by
  rw [power_bits z (by norm_num [p])]
  by_cases hz : z = 0
  · rw [hz, inv_zero, zero_pow (by norm_num [p])]
  · apply eq_inv_of_mul_eq_one_left
    rw [← pow_succ, ← ZMod.pow_card_sub_one_eq_one hz]
    rfl

theorem toBytes_eq_zero {n : ℕ} (hn : n < 256 ^ 32) (h : ∀ b ∈ toBytes n, b = 0) : n = 0 := by
  have hzero : BigEndian.put 32 n = List.replicate 32 0 := by
    rw [List.eq_replicate_iff]
    exact ⟨BigEndian.length_put 32 n, fun b hb => h b (List.mem_reverse.mpr hb)⟩
  rw [← BigEndian.get_put_of_lt hn, hzero]
  rfl

/-- **A key that is not of low order gives a result with a byte that is not zero.** -/
theorem x25519_ne_zero {k u : List UInt8} (hprobe : Probes (decodeScalar k))
    (hu : ¬LowOrder (decodeCoordinate u)) : ∃ b ∈ x25519 k u, b ≠ 0 := by
  by_contra hnone
  have hzero : ∀ b ∈ x25519 k u, b = 0 := by
    intro b hb
    by_contra hne
    exact hnone ⟨b, hb, hne⟩
  apply hu
  rw [← number_bits hprobe.bound] at hprobe
  apply lowOrder_of_ladder hprobe
  have hval := toBytes_eq_zero ((ZMod.val_lt _).trans (by norm_num [p])) hzero
  rw [ZMod.val_eq_zero, power_eq_inv] at hval
  rcases mul_eq_zero.mp hval with h | h
  · rw [h, zero_mul]
  · rw [inv_eq_zero.mp h, mul_zero]

end Curve25519
