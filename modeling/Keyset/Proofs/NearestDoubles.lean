import Keyset.Number.Shortest
import Keyset.Proofs.DigitTexts

/-!
# Rounding to double precision

A fraction and its multiples round alike, every double-precision number rounds to itself, and beyond
either end of the range nothing is left but zero and infinity. Hence numerals of one value stand for
one number, and a shortest numeral stands for the number that it was found for.
-/
namespace Keyset

theorem twoTo_add (m n : Nat) : twoTo (m + n) = twoTo m * twoTo n := Nat.pow_add 2 m n

theorem tenTo_add (m n : Nat) : tenTo (m + n) = tenTo m * tenTo n := Nat.pow_add 10 m n

theorem twoTo_le_twoTo {m n : Nat} (h : m ≤ n) : twoTo m ≤ twoTo n :=
  Nat.pow_le_pow_right (by decide) h

theorem tenTo_le_tenTo {m n : Nat} (h : m ≤ n) : tenTo m ≤ tenTo n :=
  Nat.pow_le_pow_right (by decide) h

theorem twoTo_mul_three_le_tenTo (n : Nat) : twoTo (3 * n) ≤ tenTo n := by
  induction n with
  | zero => exact le_rfl
  | succ n ih =>
    rw [Nat.mul_succ, twoTo_add, tenTo_succ]
    exact Nat.mul_le_mul ih (by decide)

theorem twoTo_dvd_tenTo (n : Nat) : twoTo n ∣ tenTo n := pow_dvd_pow_of_dvd (by decide) n

theorem le_log2_of_twoTo_le {n k : Nat} (h : twoTo k ≤ n) : k ≤ n.log2 :=
  (Nat.le_log2 (lt_of_lt_of_le (twoTo_pos k) h).ne').2 h

/-! ## The nearest code -/

/-- The code below or the code above, whichever is nearer. -/
def nearerCode (below excess gap : Nat) : Nat :=
  if excess < gap ∨ (excess = gap ∧ below % 2 = 0) then below else below + 1

theorem nearerCode_mul (below excess gap : Nat) {k : Nat} (hk : 0 < k) :
    nearerCode below (excess * k) (gap * k) = nearerCode below excess gap := by
  simp only [nearerCode, Nat.mul_lt_mul_right hk, Nat.mul_left_inj hk.ne']

theorem nearerCode_zero (below : Nat) {gap : Nat} (hgap : 0 < gap) :
    nearerCode below 0 gap = below := by
  simp [nearerCode, hgap]

theorem le_nearerCode (below excess gap : Nat) : below ≤ nearerCode below excess gap := by
  rw [nearerCode]
  split
  · exact le_rfl
  · exact Nat.le_succ below

theorem codeOfRatio_eq {num den units shift : Nat} (hunits : num * twoTo 1074 / den = units)
    (hshift : units.log2 - 52 = shift) :
    codeOfRatio num den = nearerCode (shift * twoTo 52 + units / twoTo shift)
      (2 * (num * twoTo 1074 - units / twoTo shift * twoTo shift * den)) (twoTo shift * den) := by
  subst hunits hshift
  rfl

/-- Rounding does not see a factor that numerator and denominator share. -/
theorem codeOfRatio_mul (num den : Nat) {k : Nat} (hk : 0 < k) :
    codeOfRatio (num * k) (den * k) = codeOfRatio num den := by
  have hunits : num * k * twoTo 1074 / (den * k) = num * twoTo 1074 / den := by
    rw [Nat.mul_right_comm, Nat.mul_div_mul_right _ _ hk]
  have hexcess (n : Nat) : 2 * (num * k * twoTo 1074 - n * (den * k)) =
      2 * (num * twoTo 1074 - n * den) * k := by
    rw [Nat.mul_right_comm num, ← Nat.mul_assoc n, ← Nat.sub_mul, Nat.mul_assoc]
  rw [codeOfRatio_eq hunits rfl, codeOfRatio_eq rfl rfl, hexcess, ← Nat.mul_assoc,
    nearerCode_mul _ _ _ hk]

theorem codeOfRatio_eq_zero {num den : Nat} (h : 2 * (num * twoTo 1074) < den) :
    codeOfRatio num den = 0 := by
  have hunits : num * twoTo 1074 / den = 0 := Nat.div_eq_of_lt (by omega)
  rw [codeOfRatio_eq hunits rfl, nearerCode, if_pos (.inl (by simpa using h))]
  simp

theorem codeOfRatio_zero {den : Nat} (hden : 0 < den) : codeOfRatio 0 den = 0 := by
  apply codeOfRatio_eq_zero
  rwa [Nat.zero_mul, Nat.mul_zero]

theorem le_div_twoTo {units shift : Nat} (h : units.log2 = shift + 52) :
    twoTo 52 ≤ units / twoTo shift := by
  have hne : units ≠ 0 := by
    rintro rfl
    simp at h
  rw [Nat.le_div_iff_mul_le (twoTo_pos shift), ← twoTo_add, Nat.add_comm, ← h]
  exact Nat.log2_self_le hne

theorem infinityCode_le_codeOfRatio {num den : Nat} (hden : 0 < den)
    (h : twoTo 1024 * den ≤ num) : infinityCode ≤ codeOfRatio num den := by
  have hunits : twoTo (1024 + 1074) ≤ num * twoTo 1074 / den := by
    have hscaled := Nat.mul_le_mul_right (twoTo 1074) h
    rw [Nat.mul_right_comm, ← twoTo_add] at hscaled
    exact (Nat.le_div_iff_mul_le hden).2 hscaled
  have hlog := le_log2_of_twoTo_le hunits
  obtain ⟨more, hmore⟩ := Nat.exists_eq_add_of_le hlog
  have hshift : (num * twoTo 1074 / den).log2 - 52 = 2046 + more := by omega
  have hfirst : twoTo 52 ≤ num * twoTo 1074 / den / twoTo (2046 + more) := le_div_twoTo (by omega)
  rw [codeOfRatio_eq rfl hshift]
  refine le_trans ?_ (le_nearerCode _ _ _)
  -- Rounding adds nothing here: the code below is large enough, since its first bit counts too.
  have hcodes : infinityCode = 2046 * twoTo 52 + twoTo 52 := by decide
  rw [hcodes, Nat.add_mul]
  omega

/-! ## Numbers that are not rounded -/

theorem log2_eq_of_le_of_lt {n k : Nat} (hle : twoTo k ≤ n) (hlt : n < twoTo (k + 1)) :
    n.log2 = k := by
  have hne : n ≠ 0 := (lt_of_lt_of_le (twoTo_pos k) hle).ne'
  have hlow := le_log2_of_twoTo_le hle
  have hhigh := (Nat.log2_lt hne).2 hlt
  omega

/-- The number of a code is a multiple of the power of two that its code counts. -/
theorem unitsOfCode_spec (code : Nat) : ∃ shift significand,
    unitsOfCode code = significand * twoTo shift ∧ (unitsOfCode code).log2 - 52 = shift ∧
      shift * twoTo 52 + significand = code := by
  rw [unitsOfCode]
  by_cases hsmall : code < twoTo 52
  · refine ⟨0, code, by simp [hsmall], ?_, by simp⟩
    rw [if_pos hsmall]
    by_cases hzero : code = 0
    · simp [hzero]
    · have hlog := (Nat.log2_lt hzero).2 hsmall
      omega
  · -- A normal number has its hidden bit at 52, so its magnitude has no more than 53 bits.
    have hquotient : 0 < code / twoTo 52 := Nat.div_pos (not_lt.1 hsmall) (twoTo_pos 52)
    obtain ⟨shift, hshift⟩ := Nat.exists_eq_add_of_lt hquotient
    rw [Nat.zero_add] at hshift
    have hrest := Nat.mod_lt code (twoTo_pos 52)
    have hcode := Nat.div_add_mod code (twoTo 52)
    rw [hshift] at hcode
    have hlow : twoTo (52 + shift) ≤ (twoTo 52 + code % twoTo 52) * twoTo shift := by
      rw [twoTo_add]
      exact Nat.mul_le_mul_right _ (Nat.le_add_right _ _)
    have hhigh : (twoTo 52 + code % twoTo 52) * twoTo shift < twoTo (52 + shift + 1) := by
      rw [Nat.add_right_comm, twoTo_add, twoTo_succ 52]
      exact Nat.mul_lt_mul_of_pos_right (by omega) (twoTo_pos shift)
    rw [if_neg hsmall, hshift, Nat.add_sub_cancel]
    refine ⟨shift, twoTo 52 + code % twoTo 52, rfl, ?_, ?_⟩
    · rw [log2_eq_of_le_of_lt hlow hhigh]
      omega
    · rw [Nat.mul_add_one] at hcode
      rw [Nat.mul_comm, ← Nat.add_assoc, hcode]

/-- A double-precision number rounds to itself. -/
theorem codeOfRatio_unitsOfCode (code : Nat) :
    codeOfRatio (unitsOfCode code) (twoTo 1074) = code := by
  obtain ⟨shift, significand, hunits, hshift, hcode⟩ := unitsOfCode_spec code
  have hdiv : unitsOfCode code * twoTo 1074 / twoTo 1074 = unitsOfCode code :=
    Nat.mul_div_cancel _ (twoTo_pos _)
  have hexact : unitsOfCode code / twoTo shift = significand := by
    rw [hunits, Nat.mul_div_cancel _ (twoTo_pos shift)]
  rw [codeOfRatio_eq hdiv hshift, hexact, ← hunits, Nat.sub_self, Nat.mul_zero,
    nearerCode_zero _ (Nat.mul_pos (twoTo_pos _) (twoTo_pos _)), hcode]

/-! ## Numerals -/

namespace Numeral

theorem code_of_nonneg (coefficient places : Nat) :
    code ⟨coefficient, places⟩ = codeOfRatio (coefficient * tenTo places) 1 := by
  rw [code, if_pos (Int.natCast_nonneg places), Int.toNat_natCast]

theorem code_neg (coefficient places : Nat) :
    code ⟨coefficient, -places⟩ = codeOfRatio coefficient (tenTo places) := by
  by_cases hnone : places = 0
  · subst hnone
    simp [code]
  · rw [code, if_neg (by simp only; omega)]
    simp

/-- Zeros after a coefficient and a lower exponent leave the number as it is. -/
theorem code_shift (coefficient zeros : Nat) (exponent : Int) :
    code ⟨coefficient * tenTo zeros, exponent - zeros⟩ = code ⟨coefficient, exponent⟩ := by
  obtain ⟨places, rfl | rfl⟩ := exponent.eq_nat_or_neg
  · by_cases hle : zeros ≤ places
    · have hexponent : (places : Int) - zeros = (places - zeros : Nat) := by omega
      rw [hexponent, code_of_nonneg, code_of_nonneg, Nat.mul_assoc, ← tenTo_add,
        Nat.add_sub_cancel' hle]
    · have hexponent : (places : Int) - zeros = -((zeros - places : Nat) : Int) := by omega
      have hsplit : coefficient * tenTo zeros =
          coefficient * tenTo places * tenTo (zeros - places) := by
        rw [Nat.mul_assoc, ← tenTo_add, Nat.add_sub_cancel' (by omega)]
      have hmul := codeOfRatio_mul (coefficient * tenTo places) 1 (tenTo_pos (zeros - places))
      rw [hexponent, code_neg, code_of_nonneg, hsplit, ← hmul, Nat.one_mul]
  · have hexponent : -(places : Int) - zeros = -((places + zeros : Nat) : Int) := by omega
    rw [hexponent, code_neg, code_neg, tenTo_add, codeOfRatio_mul _ _ (tenTo_pos zeros)]

theorem code_tenTo_div_twoTo (num n : Nat) :
    code ⟨num * (tenTo n / twoTo n), -n⟩ = codeOfRatio num (twoTo n) := by
  have hdvd := twoTo_dvd_tenTo n
  have hpos := Nat.div_pos (Nat.le_of_dvd (tenTo_pos n) hdvd) (twoTo_pos n)
  have hround := codeOfRatio_mul num (twoTo n) hpos
  rw [Nat.mul_div_cancel' hdvd] at hround
  rw [code_neg, hround]

theorem code_exact (n : Nat) : (exact n).code = n := by
  have h := code_tenTo_div_twoTo (unitsOfCode n) 1074
  rwa [codeOfRatio_unitsOfCode, Nat.cast_ofNat] at h

end Numeral

/-! ## Shortest numerals -/

namespace Shortest

theorem code_of_onGrid {tie : Tie} {n : Nat} {exponent : Int} {numeral : Numeral}
    (h : onGrid tie n exponent = some numeral) : numeral.code = n := by
  simp only [onGrid] at h
  generalize (if 0 ≤ exponent then unitsOfCode n
    else unitsOfCode n * tenTo (-exponent).toNat) = num at h
  generalize (if 0 ≤ exponent then twoTo 1074 * tenTo exponent.toNat else twoTo 1074) = den at h
  split at h
  · next hbelow habove =>
    rw [Option.some.injEq] at h
    subst h
    split
    · exact beq_iff_eq.1 hbelow
    · exact beq_iff_eq.1 habove
  · next hbelow _ => exact Option.some.inj h ▸ beq_iff_eq.1 hbelow
  · next _ habove => exact Option.some.inj h ▸ beq_iff_eq.1 habove
  · cases h

/-- A shortest numeral stands for the number that it was found for. -/
theorem code_numeral (tie : Tie) (n : Nat) : (numeral tie n).code = n := by
  rw [numeral]
  cases hfound : (List.range 17).findSome? fun (more : Nat) =>
      onGrid tie n (leadingExponent n - (more : Int)) with
  | none => exact Numeral.code_exact n
  | some found =>
    obtain ⟨more, _, hgrid⟩ := List.exists_of_findSome?_eq_some hfound
    exact code_of_onGrid hgrid

end Shortest

/-! ## Reading decimal numbers -/

theorem tenTo_le_of_lt_length {n k : Nat} (hn : n ≠ 0) (h : k < (Text.digits n).length) :
    tenTo k ≤ n := by
  cases k with
  | zero => exact Nat.pos_of_ne_zero hn
  | succ k =>
    by_contra hlt
    have hle := (Text.length_digits_le_iff k.succ_pos).2 (not_le.1 hlt)
    omega

theorem lt_tenTo_length (n : Nat) : n < tenTo (Text.digits n).length :=
  (Text.length_digits_le_iff (List.length_pos_iff.2 (Text.digits_ne_nil n))).1 le_rfl

namespace Numeral

variable {coefficient : Nat} {exponent : Int}

theorem code_zero (exponent : Int) : code ⟨0, exponent⟩ = 0 := by
  obtain ⟨places, rfl | rfl⟩ := exponent.eq_nat_or_neg
  · rw [code_of_nonneg, Nat.zero_mul, codeOfRatio_zero one_pos]
  · rw [code_neg, codeOfRatio_zero (tenTo_pos places)]

theorem code_eq_zero (h : exponent + (Text.digits coefficient).length < -400) :
    code ⟨coefficient, exponent⟩ = 0 := by
  have hlt := lt_tenTo_length coefficient
  generalize (Text.digits coefficient).length = length at h hlt
  obtain ⟨places, rfl⟩ : ∃ places : Nat, exponent = -places := ⟨exponent.natAbs, by omega⟩
  rw [code_neg]
  apply codeOfRatio_eq_zero
  -- 400 decimal digits outweigh 1075 binary ones; the powers are too large to be computed.
  have hpow : 2 * twoTo 1074 ≤ tenTo 400 := by
    rw [Nat.mul_comm, ← twoTo_succ]
    exact le_trans (twoTo_le_twoTo (by decide)) (twoTo_mul_three_le_tenTo 400)
  calc 2 * (coefficient * twoTo 1074) = coefficient * (2 * twoTo 1074) := by ring
    _ < tenTo length * (2 * twoTo 1074) :=
      Nat.mul_lt_mul_of_pos_right hlt (Nat.mul_pos (by decide) (twoTo_pos _))
    _ ≤ tenTo length * tenTo 400 := Nat.mul_le_mul_left _ hpow
    _ = tenTo (length + 400) := (tenTo_add _ _).symm
    _ ≤ tenTo places := tenTo_le_tenTo (by omega)

theorem infinityCode_le_code (hne : coefficient ≠ 0)
    (h : 400 < exponent + (Text.digits coefficient).length) :
    infinityCode ≤ code ⟨coefficient, exponent⟩ := by
  have hpow : twoTo 1024 ≤ tenTo 400 :=
    le_trans (twoTo_le_twoTo (by decide)) (twoTo_mul_three_le_tenTo 400)
  obtain ⟨places, rfl | rfl⟩ := exponent.eq_nat_or_neg
  · have hlength : 0 < (Text.digits coefficient).length :=
      List.length_pos_iff.2 (Text.digits_ne_nil _)
    have hle := tenTo_le_of_lt_length (k := (Text.digits coefficient).length - 1) hne (by omega)
    rw [code_of_nonneg]
    apply infinityCode_le_codeOfRatio one_pos
    rw [Nat.mul_one]
    calc twoTo 1024 ≤ tenTo 400 := hpow
      _ ≤ tenTo ((Text.digits coefficient).length - 1 + places) := tenTo_le_tenTo (by omega)
      _ = tenTo ((Text.digits coefficient).length - 1) * tenTo places := tenTo_add _ _
      _ ≤ coefficient * tenTo places := Nat.mul_le_mul_right _ hle
  · rw [code_neg]
    apply infinityCode_le_codeOfRatio (tenTo_pos places)
    calc twoTo 1024 * tenTo places ≤ tenTo 400 * tenTo places := Nat.mul_le_mul_right _ hpow
      _ = tenTo (400 + places) := (tenTo_add _ _).symm
      _ ≤ coefficient := tenTo_le_of_lt_length hne (by omega)

end Numeral

namespace Binary64

theorem ofRatio_eq_finite (negative : Bool) {num den code : Nat} (hcode : codeOfRatio num den = code)
    (hlt : code < infinityCode) : ofRatio negative num den = .finite ⟨negative, code, hlt⟩ := by
  subst hcode
  exact dif_pos hlt

theorem ofRatio_zero (negative : Bool) :
    ofRatio negative 0 1 = .finite ⟨negative, 0, by decide⟩ :=
  ofRatio_eq_finite negative (codeOfRatio_zero one_pos) (by decide)

/-- A numeral of a finite number is read as this number. -/
theorem ofDecimal_eq_finite (negative : Bool) {coefficient code : Nat} {exponent : Int}
    (hcode : (Numeral.mk coefficient exponent).code = code) (hlt : code < infinityCode) :
    ofDecimal negative coefficient exponent = .finite ⟨negative, code, hlt⟩ := by
  simp only [ofDecimal]
  split
  · next hsmall =>
    have hzero : (Numeral.mk coefficient exponent).code = 0 := by
      rcases hsmall with rfl | hlow
      · exact Numeral.code_zero exponent
      · exact Numeral.code_eq_zero hlow
    obtain rfl : code = 0 := hcode.symm.trans hzero
    exact ofRatio_zero negative
  · next hlarge =>
    have hhigh : ¬ 400 < exponent + (Text.digits coefficient).length := by
      intro h
      have hle := Numeral.infinityCode_le_code (fun hne => hlarge (.inl hne)) h
      omega
    rw [Text.digits] at hhigh
    rw [Numeral.code] at hcode
    rw [if_neg hhigh]
    split
    · next hsign => exact ofRatio_eq_finite negative ((if_pos hsign).symm.trans hcode) hlt
    · next hsign => exact ofRatio_eq_finite negative ((if_neg hsign).symm.trans hcode) hlt

end Binary64

end Keyset
