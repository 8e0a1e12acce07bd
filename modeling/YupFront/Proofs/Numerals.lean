import Mathlib.Algebra.Order.Field.Power
import Mathlib.Data.List.Basic
import Mathlib.Data.Rat.Cast.Order
import Mathlib.Tactic.Linarith
import Mathlib.Tactic.NormNum
import YupFront.Json.Real
import YupFront.Proofs.JsonText

/-! How numbers are written. The digits that are found for a binary number are not all zero, so that a
whole part has no needless zero in front, and what is laid out is a number for any reader. -/

namespace YupFront.Decimal.Binary

/-- The number is not zero, and the interval below it does not reach zero. -/
structure Proper (x : Binary) : Prop where
  positive : 0 < x.significand
  below_lt : x.below < 4 * x.significand

theorem proper_of_ofFields? {exponent fraction : Nat} {x : Binary}
    (h : ofFields? exponent fraction = some x) : x.Proper := by
  have hpower : 0 < Nat.pow 2 52 := by decide
  unfold ofFields? at h
  split at h
  · cases h
  · split at h
    · split at h
      · cases h
      · next hfraction =>
        cases h
        exact ⟨Nat.pos_of_ne_zero hfraction, by show 2 < 4 * fraction; omega⟩
    · split at h
      · cases h
        exact ⟨hpower, show 1 < 4 * Nat.pow 2 52 by decide⟩
      · cases h
        exact ⟨Nat.add_pos_left hpower _, by show 2 < 4 * (Nat.pow 2 52 + fraction); omega⟩

section Digits

variable {x : Binary} {power : Int}

/-- Zero is below the interval of what rounds to the number. -/
theorem readsBack_zero (h : x.Proper) (power : Int) : x.readsBack 0 power = false := by
  have hbelow := h.below_lt
  have hpow : 0 < Nat.pow 2 x.exponent := Nat.pow_pos (by decide)
  have hpos : 0 < (4 * x.significand - x.below) * Nat.pow 2 x.exponent :=
    Nat.mul_pos (by omega) hpow
  have hlow : x.compareQuarters (4 * x.significand - x.below) 0 power = .gt := by
    unfold compareQuarters
    generalize Nat.pow 2 1076 = unit
    cases power with
    | ofNat p =>
      show compare _ (0 * _ * _) = _
      rw [Nat.zero_mul, Nat.zero_mul]
      exact Nat.compare_eq_gt.mpr hpos
    | negSucc p =>
      show compare _ (0 * _) = _
      rw [Nat.zero_mul]
      exact Nat.compare_eq_gt.mpr (Nat.mul_pos hpos (Nat.pow_pos (by decide)))
  rw [readsBack, hlow]
  split <;> rfl

theorem onGrid?_ne_zero (h : x.Proper) {n : Nat} (hn : x.onGrid? power = some n) : n ≠ 0 := by
  have hlow : ∀ m, x.readsBack m power = true → m ≠ 0 := by
    rintro m hm rfl
    rw [readsBack_zero h] at hm
    cases hm
  unfold onGrid? at hn
  dsimp only at hn
  split at hn
  · next hread _ =>
    cases hn
    exact hlow _ hread
  · cases hn
    exact Nat.succ_ne_zero _
  · cases hn
  · next hread _ =>
    split at hn
    · cases hn
      exact hlow _ hread
    · cases hn
      exact Nat.succ_ne_zero _
    · cases hn
      split
      · exact hlow _ hread
      · exact Nat.succ_ne_zero _

theorem floorAt_ofNat (x : Binary) (p : Nat) : x.floorAt (.ofNat p) =
    x.significand * Nat.pow 2 x.exponent / (Nat.pow 2 1074 * Nat.pow 10 p) := rfl

theorem floorAt_negSucc (x : Binary) (p : Nat) : x.floorAt (.negSucc p) =
    x.significand * Nat.pow 2 x.exponent * Nat.pow 10 (p + 1) / Nat.pow 2 1074 := rfl

/-- The floor on a grid is at least `n` where `n` units of the grid are at most the number. -/
theorem le_floorAt_iff (x : Binary) (n : Nat) (power : Int) :
    n ≤ x.floorAt power ↔
      (n : ℚ) * (2 ^ 1074 * 10 ^ power) ≤ x.significand * 2 ^ x.exponent := by
  have hten : ∀ p : Nat, 0 < Nat.pow 10 p := fun p => Nat.pow_pos (by decide)
  have htwo : ∀ p : Nat, 0 < Nat.pow 2 p := fun p => Nat.pow_pos (by decide)
  cases power with
  | ofNat p =>
    rw [floorAt_ofNat, Int.ofNat_eq_natCast, zpow_natCast, Nat.le_div_iff_mul_le]
    · exact_mod_cast Iff.rfl
    · exact Nat.mul_pos (htwo 1074) (hten p)
  | negSucc p =>
    rw [floorAt_negSucc]
    have hpos : (0 : ℚ) < 10 ^ (p + 1) := by positivity
    refine (Nat.le_div_iff_mul_le (htwo 1074)).trans ?_
    rw [zpow_negSucc, ← mul_assoc, mul_inv_le_iff₀ hpos]
    exact_mod_cast Iff.rfl

theorem floorAt_pos_of_le {p q : Int} (hle : q ≤ p) (h : 0 < x.floorAt p) : 0 < x.floorAt q := by
  have hp := (x.le_floorAt_iff 1 p).mp h
  have hpower : (10 : ℚ) ^ q ≤ 10 ^ p := zpow_le_zpow_right₀ (by norm_num) hle
  refine (x.le_floorAt_iff 1 q).mpr (le_trans ?_ hp)
  gcongr

/-- As many places up as there are digits behind the first one, there still is a unit. -/
theorem floorAt_pos_of_digits {p : Int} (h : 0 < x.floorAt p) :
    0 < x.floorAt (((Nat.toDigits 10 (x.floorAt p)).length : Int) - 1 + p) := by
  obtain ⟨k, hk⟩ : ∃ k, (Nat.toDigits 10 (x.floorAt p)).length = k + 1 :=
    ⟨_, (Nat.succ_pred_eq_of_pos Nat.length_toDigits_pos).symm⟩
  have hle : 10 ^ k ≤ x.floorAt p := by
    by_cases hzero : k = 0
    · rw [hzero]
      exact h
    · have hlength : ¬(Nat.toDigits 10 (x.floorAt p)).length ≤ k := by omega
      rw [Nat.length_toDigits_le_iff (by decide) (Nat.pos_of_ne_zero hzero)] at hlength
      exact Nat.le_of_not_lt hlength
  have hunits := (x.le_floorAt_iff _ p).mp hle
  have hplace : ((k + 1 : Nat) : Int) - 1 + p = k + p := by omega
  rw [hk, hplace]
  refine (x.le_floorAt_iff 1 _).mpr (le_of_eq_of_le ?_ hunits)
  rw [zpow_add₀ (by norm_num : (10 : ℚ) ≠ 0), zpow_natCast]
  push_cast
  rw [one_mul, mul_left_comm]

/-- The leading digit is at a place where there is a unit. -/
theorem floorAt_leading_pos (h : x.Proper) : 0 < x.floorAt x.leading := by
  unfold leading
  by_cases hwhole : 0 < x.floorAt 0
  · rw [if_pos hwhole]
    have hdigits := floorAt_pos_of_digits hwhole
    rwa [Int.add_zero] at hdigits
  · rw [if_neg hwhole]
    have hunit : Nat.pow 2 1074 ≤ Nat.pow 10 (339 + 1) := by decide +kernel
    have htwo : ∀ p : Nat, 0 < Nat.pow 2 p := fun p => Nat.pow_pos (by decide)
    have hscaled : 0 < x.significand * Nat.pow 2 x.exponent :=
      Nat.mul_pos h.positive (htwo x.exponent)
    have hsmall : 0 < x.floorAt (-340) := by
      rw [show (-340 : Int) = .negSucc 339 from rfl, floorAt_negSucc]
      exact Nat.div_pos (hunit.trans (Nat.le_mul_of_pos_left _ hscaled)) (htwo 1074)
    have hdigits := floorAt_pos_of_digits hsmall
    have hplace : ((Nat.toDigits 10 (x.floorAt (-340))).length : Int) - 1 + -340 =
        ((Nat.toDigits 10 (x.floorAt (-340))).length : Int) - 341 := by omega
    rwa [hplace] at hdigits

theorem shortest_ne_zero (h : x.Proper) : x.shortest.1 ≠ 0 := by
  unfold shortest
  dsimp only
  cases hhit : (List.range 18).findSome? fun (k : Nat) =>
      (x.onGrid? (x.leading + 1 - k)).map fun digits => (digits, x.leading + 1 - (k : Int)) with
  | none =>
    have hlow : x.leading + 1 - 18 ≤ x.leading := by omega
    exact Nat.ne_of_gt (floorAt_pos_of_le hlow (floorAt_leading_pos h))
  | some found =>
    obtain ⟨k, -, hk⟩ := List.exists_of_findSome?_eq_some hhit
    obtain ⟨n, hn, rfl⟩ := Option.map_eq_some_iff.mp hk
    exact onGrid?_ne_zero h hn

end Digits

end YupFront.Decimal.Binary

namespace YupFront.Json

open Decimal

section Parts

variable {cs ds : List Char}

theorem isDigit_zeros (n : Nat) : ∀ c ∈ List.replicate n '0', c.isDigit = true := by
  intro c hc
  obtain ⟨-, rfl⟩ := List.mem_replicate.mp hc
  rfl

theorem Digits.append (h : Digits cs) (hds : ∀ c ∈ ds, c.isDigit = true) : Digits (cs ++ ds) where
  ne_nil hnil := h.ne_nil (List.append_eq_nil_iff.mp hnil).1
  isDigit := List.forall_mem_append.mpr ⟨h.isDigit, hds⟩

theorem Digits.prepend (h : Digits cs) (hds : ∀ c ∈ ds, c.isDigit = true) : Digits (ds ++ cs) where
  ne_nil hnil := h.ne_nil (List.append_eq_nil_iff.mp hnil).2
  isDigit := List.forall_mem_append.mpr ⟨hds, h.isDigit⟩

theorem Digits.take (h : Digits cs) {n : Nat} (hn : 0 < n) : Digits (cs.take n) where
  ne_nil hnil := by
    rcases List.take_eq_nil_iff.mp hnil with rfl | hcs
    · exact Nat.lt_irrefl 0 hn
    · exact h.ne_nil hcs
  isDigit c hc := h.isDigit c (List.mem_of_mem_take hc)

theorem Digits.drop (h : Digits cs) {n : Nat} (hn : n < cs.length) : Digits (cs.drop n) where
  ne_nil hnil := by
    have hle := List.drop_eq_nil_iff.mp hnil
    omega
  isDigit c hc := h.isDigit c (List.mem_of_mem_drop hc)

theorem Digits.whole (h : Digits cs) (hzero : cs.head? ≠ some '0') : Whole cs where
  toDigits := h
  zero hhead := absurd hhead hzero

theorem exponent_repr {sign : String} (h : sign = "-" ∨ sign = "+") (n : Nat) :
    Exponent ("e" ++ sign ++ n.repr).toList := by
  have hn := digits_toDigits n
  rw [← Nat.toList_repr] at hn
  rcases h with rfl | rfl
  · have hlist : ("e" ++ "-" ++ n.repr).toList = 'e' :: '-' :: n.repr.toList := by simp
    rw [hlist]
    exact .mark (.inr rfl) hn
  · have hlist : ("e" ++ "+" ++ n.repr).toList = 'e' :: '+' :: n.repr.toList := by simp
    rw [hlist]
    exact .mark (.inl rfl) hn

end Parts

theorem digits_zero : Digits ['0'] := ⟨List.cons_ne_nil _ _, List.forall_mem_singleton.mpr rfl⟩

theorem whole_zero : Whole ['0'] := ⟨digits_zero, fun _ => rfl⟩

theorem fraction_zero : Fraction ['.', '0'] := .point digits_zero

/-- What some digits are laid out as is a number. -/
theorem numeral_layOut {digits : Nat} (h : digits ≠ 0) (power : Int) :
    Numeral (layOut digits power).toList := by
  have hdigits := digits_toDigits digits
  have hhead := head?_toDigits h
  unfold layOut
  dsimp only
  generalize Nat.toDigits 10 digits = spelled at hdigits hhead ⊢
  generalize hplace : (spelled.length : Int) + power = place
  split
  · -- Zeros fill the whole part up to the point.
    have hwhole : Whole (spelled ++ List.replicate power.toNat '0') := by
      refine (hdigits.append (isDigit_zeros _)).whole ?_
      rwa [List.head?_append_of_ne_nil _ hdigits.ne_nil]
    rw [String.toList_ofList]
    exact hwhole.numeral fraction_zero
  · split
    · -- The point stands between two digits.
      have hshort : place.toNat < spelled.length := by omega
      have hwhole : Whole (spelled.take place.toNat) := by
        refine (hdigits.take (by omega)).whole ?_
        rwa [List.head?_take, if_neg (by omega)]
      rw [String.toList_ofList, List.append_assoc]
      exact hwhole.numeral (.point (hdigits.drop hshort))
    · split
      · -- Zeros stand between the point and the digits.
        have hfraction := hdigits.prepend (isDigit_zeros (-place).toNat)
        rw [String.toList_ofList, List.append_assoc]
        exact whole_zero.numeral (.point hfraction)
      · have hsign := ite_eq_or_eq (place < 1) "-" "+"
        have hexponent := exponent_repr hsign (place - 1).natAbs
        rcases spelled with _ | ⟨d, _ | ⟨e, ds⟩⟩
        · exact absurd rfl hdigits.ne_nil
        · have hparts := Numeral.mk (hdigits.whole hhead) .absent hexponent
          rwa [String.toList_append, String.toList_ofList]
        · have hwhole : Whole [d] := (hdigits.take Nat.one_pos).whole hhead
          have hfraction : Digits (e :: ds) := hdigits.drop (Nat.succ_lt_succ (Nat.succ_pos _))
          have hparts := Numeral.mk hwhole (.point hfraction) hexponent
          rwa [String.toList_append, String.toList_ofList]

theorem spelled_real (x : Float) : (Json.real x).Spelled := by
  unfold real spell?
  dsimp only
  generalize x.toBits.toNat = bits
  have hsign := (ite_eq_or_eq (Nat.pow 2 63 ≤ bits) "-" "").symm
  generalize (if Nat.pow 2 63 ≤ bits then "-" else "") = sign at hsign ⊢
  generalize bits / Nat.pow 2 52 % Nat.pow 2 11 = exponent
  generalize bits % Nat.pow 2 52 = fraction
  by_cases hinfinite : exponent = 2047
  · rw [if_pos hinfinite]
    exact .null
  · rw [if_neg hinfinite]
    cases hfields : Binary.ofFields? exponent fraction with
    | none =>
      have hzero : Numeral ['0', '.', '0'] := whole_zero.numeral fraction_zero
      exact .number (hzero.spelled hsign)
    | some b =>
      have hne := Binary.shortest_ne_zero (Binary.proper_of_ofFields? hfields)
      have hspelled := (numeral_layOut hne b.shortest.2).spelled hsign
      rw [String.ofList_toList] at hspelled
      exact .number hspelled

end YupFront.Json
