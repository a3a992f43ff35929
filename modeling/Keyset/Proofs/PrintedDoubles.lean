import Keyset.Proofs.DecimalTexts
import Keyset.Proofs.NumberTexts
import Keyset.Proofs.ShortestDigits

/-!
# Double-precision numbers read as decimals

The reader of decimals rounds only what has more than 28 places or is too large. The digits of a
double-precision number are not of this kind, so the decimal that is read from its text has the
value of the shortest numeral, or there is no such decimal.
-/
namespace Keyset

/-- A magnitude with a sign. -/
def signed (negative : Bool) (x : ℚ) : ℚ := if negative then -x else x

theorem signed_div (negative : Bool) (x y : ℚ) :
    signed negative x / y = signed negative (x / y) := by
  cases negative <;> simp [signed, neg_div]

theorem signed_mul (negative : Bool) (x y : ℚ) :
    signed negative x * y = signed negative (x * y) := by
  cases negative <;> simp [signed]

theorem abs_signed (negative : Bool) (x : ℚ) : |signed negative x| = |x| := by
  cases negative <;> simp [signed]

namespace Fixed

/-- The number that a decimal is. -/
def value (x : Fixed) : ℚ := x.coefficient / 10 ^ x.scale

theorem value_eq_signed (x : Fixed) : x.value = signed x.negative (x.magnitude / 10 ^ x.scale) := by
  rw [value, ← signed_div, coefficient, signed]
  split <;> simp

theorem abs_value (x : Fixed) : |x.value| = x.magnitude / 10 ^ x.scale := by
  rw [value_eq_signed, abs_signed, abs_of_nonneg (by positivity)]

theorem abs_value_lt (x : Fixed) : |x.value| < magnitudeLimit := by
  have hscale : (1 : ℚ) ≤ 10 ^ x.scale := one_le_pow₀ (by norm_num)
  rw [abs_value, div_lt_iff₀ (by positivity)]
  calc (x.magnitude : ℚ) < magnitudeLimit := Nat.cast_lt.2 x.magnitude_lt
    _ ≤ magnitudeLimit * 10 ^ x.scale := le_mul_of_one_le_right (Nat.cast_nonneg _) hscale

theorem of?_value {negative : Bool} {magnitude scale : Nat} {y : Fixed}
    (h : of? negative magnitude scale = some y) :
    y.value = signed negative (magnitude / 10 ^ scale) := by
  rw [of?] at h
  split at h
  · obtain rfl := Option.some.inj h
    exact value_eq_signed _
  · cases h

theorem signed_of_ne_zero (negative : Bool) (magnitude : Nat) (y : ℚ) :
    signed (negative && magnitude != 0) (magnitude / y) = signed negative (magnitude / y) := by
  by_cases hzero : magnitude = 0 <;> simp [hzero, signed]

theorem of?_isSome {negative : Bool} {magnitude scale : Nat} (hlt : magnitude < magnitudeLimit)
    (hle : scale ≤ maxScale) : (of? negative magnitude scale).isSome := by
  rw [of?, dif_pos ⟨hlt, hle⟩]
  rfl

/-! ## Powers of ten -/

theorem scaleDown_eq {x : Fixed} {k : Nat} (h : x.scale + k ≤ maxScale) :
    x.scaleDown k = of? x.negative x.magnitude (x.scale + k) :=
  if_pos h

theorem scaleDown_value {x y : Fixed} {k : Nat} (hle : x.scale + k ≤ maxScale)
    (h : x.scaleDown k = some y) : y.value = x.value / 10 ^ k := by
  rw [scaleDown_eq hle] at h
  rw [of?_value h, value_eq_signed, signed_div, div_div, pow_add]

theorem scaleUp_value {x y : Fixed} {k : Nat} (h : x.scaleUp k = some y) :
    y.value = x.value * 10 ^ k := by
  rw [scaleUp] at h
  split at h
  · next hle =>
    obtain ⟨more, hmore⟩ := Nat.exists_eq_add_of_le hle
    rw [of?_value h, value_eq_signed, signed_mul, hmore, Nat.add_sub_cancel_left, pow_add]
    congr 1
    field_simp
  · split at h
    · next hgt _ =>
      obtain ⟨more, hmore⟩ := Nat.exists_eq_add_of_le (not_le.1 hgt).le
      rw [of?_value h, value_eq_signed, signed_mul, hmore, Nat.add_sub_cancel_left, pow_add,
        Nat.cast_mul, cast_tenTo]
      congr 1
      field_simp
    · cases h

theorem le_of_scaleUp {x : Fixed} {k : Nat} (h : (x.scaleUp k).isSome) : k ≤ maxScale := by
  rw [scaleUp] at h
  split at h
  · next hle => exact hle.trans x.scale_le
  · split at h
    · next hle => exact hle
    · cases h

/-- A product that is a decimal is found, unless the digits start with a zero. -/
theorem scaleUp_isSome {x z : Fixed} {k : Nat} (hvalue : z.value = x.value * 10 ^ k)
    (hleading : tenTo x.scale ≤ x.magnitude) : (x.scaleUp k).isSome := by
  rw [scaleUp]
  split
  · exact of?_isSome x.magnitude_lt (le_trans (Nat.sub_le _ _) x.scale_le)
  · next hgt =>
    obtain ⟨more, rfl⟩ := Nat.exists_eq_add_of_le (not_le.1 hgt).le
    rw [Nat.add_sub_cancel_left]
    have hlt : x.magnitude * tenTo more < magnitudeLimit := by
      have hz := z.abs_value_lt
      rw [hvalue, abs_mul, abs_value, abs_of_pos (by positivity), pow_add, ← mul_assoc,
        div_mul_cancel₀ _ (by positivity), ← cast_tenTo] at hz
      exact_mod_cast hz
    split
    · exact of?_isSome hlt (Nat.zero_le _)
    · next hmany =>
      have hle := Nat.mul_le_mul_right (tenTo more) hleading
      rw [← tenTo_add] at hle
      have htop : magnitudeLimit ≤ tenTo 29 := by decide
      have hlarge : tenTo 29 ≤ tenTo (x.scale + more) := tenTo_le_tenTo (by
        simp only [maxScale] at hmany
        omega)
      omega

/-- A text that is read as a decimal of a value, if there is one. -/
structure ReadsAs (text : List Char) (v : ℚ) : Prop where
  exact : ∀ y, read? text = some y → y.value = v
  holds : ∀ z : Fixed, z.value = v → (read? text).isSome

theorem readsAs_scaleDown {text : List Char} {x : Fixed} {k : Nat} (hle : x.scale + k ≤ maxScale)
    (htext : read? text = x.scaleDown k) : ReadsAs text (x.value / 10 ^ k) where
  exact y hy := scaleDown_value hle (htext.symm.trans hy)
  holds z _ := by
    rw [htext, scaleDown_eq hle]
    exact of?_isSome x.magnitude_lt hle

theorem readsAs_scaleUp {text : List Char} {x : Fixed} {k : Nat}
    (hleading : tenTo x.scale ≤ x.magnitude)
    (htext : read? text = if k < twoTo 32 then x.scaleUp k else none) :
    ReadsAs text (x.value * 10 ^ k) where
  exact y hy := by
    rw [htext, Option.ite_none_right_eq_some] at hy
    exact scaleUp_value hy.2
  holds z hz := by
    have hsome := scaleUp_isSome hz hleading
    have hsmall : k < twoTo 32 := (le_of_scaleUp hsome).trans_lt (by decide)
    rwa [htext, if_pos hsmall]

section

open Json Text

/-- Digits that a decimal has room for. -/
structure Fits (whole fraction : List Char) : Prop extends Pointed whole fraction where
  places : fraction.length ≤ maxScale
  lt : Nat.ofDigitChars 10 (whole ++ fraction) 0 < magnitudeLimit

variable {whole fraction : List Char}

theorem fractionChars_eq (fraction : List Char) :
    fractionChars fraction = if fraction.length = 0 then [] else '.' :: fraction := by
  rw [fractionChars]
  simp only [List.length_eq_zero_iff]

theorem exists_readPlain_spelled (negative : Bool) (h : Fits whole fraction) :
    ∃ x, readPlain (spelled negative whole fraction none) = some x ∧
      x.magnitude = Nat.ofDigitChars 10 (whole ++ fraction) 0 ∧ x.scale = fraction.length ∧
      x.value = signed negative (written whole fraction none).value := by
  have hread := readUnsigned_places h.isDigit_whole h.isDigit_fraction h.whole_ne h.places h.lt
  rw [← fractionChars_eq] at hread
  refine ⟨⟨negative && Nat.ofDigitChars 10 (whole ++ fraction) 0 != 0, _, _, h.lt, h.places⟩, ?_,
    rfl, rfl, ?_⟩
  · rw [spelled, readPlain_append _ (isDigit_head_append h.whole_ne h.isDigit_whole _),
      exponentChars, List.append_nil, hread]
    exact dif_pos ⟨h.lt, h.places⟩
  · rw [value_eq_signed, signed_of_ne_zero, written, Numeral.value]
    simp [div_eq_mul_inv]

theorem readPlain_spelled_exponent (negative : Bool) (h : Fits whole fraction) (n : Int) :
    readPlain (spelled negative whole fraction (some n)) = none := by
  obtain ⟨reading, -, -, -, hread⟩ := exists_readUnsigned_places h.isDigit_whole h.isDigit_fraction
    h.whole_ne h.places h.lt (exponentChars (some n))
  rw [← fractionChars_eq] at hread
  rw [spelled, readPlain_append _ (isDigit_head_append h.whole_ne h.isDigit_whole _), hread,
    exponentChars]
  simp [readUnsigned]

theorem isExponentMark_of_isDigit {c : Char} (h : c.isDigit = true) : isExponentMark c = false := by
  rw [isExponentMark, Bool.or_eq_false_iff]
  constructor <;> rw [beq_eq_false_iff_ne] <;> rintro rfl <;> exact absurd h (by decide)

theorem isExponentMark_of_mem_spelled {negative : Bool} (h : Pointed whole fraction) {c : Char}
    (hc : c ∈ spelled negative whole fraction none) : isExponentMark c = false := by
  rw [spelled, exponentChars, List.append_nil, fractionChars] at hc
  simp only [List.mem_append, List.mem_ite_nil_right, List.mem_ite_nil_left, List.mem_cons,
    List.not_mem_nil, or_false] at hc
  rcases hc with ⟨_, rfl⟩ | hc | ⟨_, rfl | hc⟩
  · decide
  · exact isExponentMark_of_isDigit (h.isDigit_whole c hc)
  · decide
  · exact isExponentMark_of_isDigit (h.isDigit_fraction c hc)

theorem spelled_some (negative : Bool) (whole fraction : List Char) (n : Int) :
    spelled negative whole fraction (some n) = spelled negative whole fraction none ++
      'e' :: (if n < 0 then '-' else '+') :: digits n.natAbs := by
  simp [spelled, exponentChars]

theorem readNatural_digits (n : Nat) : readNatural (digits n) = some n := by
  obtain ⟨c, ds, hds⟩ := List.exists_cons_of_ne_nil (digits_ne_nil n)
  have hc : c.isDigit = true := isDigit_of_mem_digits (hds ▸ List.mem_cons_self)
  rw [readNatural, readDigits_digits]
  intro rest h
  rw [hds] at h
  rw [(List.cons.inj h).1] at hc
  exact absurd hc (by decide)

theorem readScientific_spelled (negative : Bool) (h : Pointed whole fraction) (n : Int) :
    readScientific (spelled negative whole fraction (some n)) =
      (readPlain (spelled negative whole fraction none)).bind fun x =>
        if n.natAbs < twoTo 32 then (if n < 0 then x.scaleDown n.natAbs else x.scaleUp n.natAbs)
        else none := by
  have hmark : ∀ c ∈ spelled negative whole fraction none, (!isExponentMark c) = true :=
    fun c hc => congrArg not (isExponentMark_of_mem_spelled h hc)
  have he : (!isExponentMark 'e') = false := rfl
  have hread : ∀ text, readNatural ('+' :: text) = readDigits text := fun _ => rfl
  rw [spelled_some, readScientific, List.dropWhile_append_of_pos hmark,
    List.takeWhile_append_of_pos hmark, List.dropWhile_cons_of_neg (by decide),
    List.takeWhile_cons_of_neg (by decide), List.append_nil]
  by_cases hneg : n < 0
  · simp [hneg, readNatural_digits]
  · simp [hneg, hread, readDigits_digits]

theorem readsAs_plain (negative : Bool) (h : Fits whole fraction) :
    ReadsAs (spelled negative whole fraction none)
      (signed negative (written whole fraction none).value) := by
  obtain ⟨x, hx, -, -, hvalue⟩ := exists_readPlain_spelled negative h
  constructor
  · intro y hy
    rw [read?, hx, Option.some_or] at hy
    rw [← Option.some.inj hy, hvalue]
  · intro z _
    rw [read?, hx, Option.some_or]
    rfl

theorem value_written_some (whole fraction : List Char) (n : Int) :
    (written whole fraction (some n)).value = (written whole fraction none).value * 10 ^ n := by
  have hsplit : n - (fraction.length : Int) = -(fraction.length : Int) + n := by omega
  rw [written, written, Numeral.value, Numeral.value, mul_assoc, ← zpow_add₀ (by norm_num)]
  simp [hsplit]

theorem readsAs_scientific (negative : Bool) (h : Fits whole fraction) {n : Int}
    (hplaces : fraction.length - n ≤ maxScale)
    (hleading : tenTo fraction.length ≤ Nat.ofDigitChars 10 (whole ++ fraction) 0) :
    ReadsAs (spelled negative whole fraction (some n))
      (signed negative (written whole fraction (some n)).value) := by
  obtain ⟨x, hx, hmagnitude, hscale, hvalue⟩ := exists_readPlain_spelled negative h
  rw [← hmagnitude, ← hscale] at hleading
  rw [← hscale] at hplaces
  have htext : read? (spelled negative whole fraction (some n)) = if n.natAbs < twoTo 32 then
      (if n < 0 then x.scaleDown n.natAbs else x.scaleUp n.natAbs) else none := by
    rw [read?, readPlain_spelled_exponent negative h, Option.none_or,
      readScientific_spelled negative h.toPointed, hx, Option.bind_some]
  rw [value_written_some, ← signed_mul, ← hvalue]
  by_cases hneg : n < 0
  · have hpow : x.value * (10 : ℚ) ^ n = x.value / 10 ^ n.natAbs := by
      have hn : n = -(n.natAbs : Int) := by omega
      rw [hn, zpow_neg, zpow_natCast, Int.natAbs_neg, Int.natAbs_natCast, div_eq_mul_inv]
    have hsmall : maxScale < twoTo 32 := by decide
    rw [if_pos (by omega), if_pos hneg] at htext
    rw [hpow]
    exact readsAs_scaleDown (by omega) htext
  · have hpow : x.value * (10 : ℚ) ^ n = x.value * 10 ^ n.natAbs := by
      have hn : n = (n.natAbs : Int) := by omega
      rw [hn, zpow_natCast, Int.natAbs_natCast]
    rw [if_neg hneg] at htext
    rw [hpow]
    exact readsAs_scaleUp hleading htext

theorem value_padded (numeral : Numeral) (zeros : Nat) :
    (padded numeral zeros).value = numeral.value :=
  Numeral.value_shift numeral.coefficient zeros numeral.exponent

theorem le_of_tenTo_le {m n k : Nat} (h : tenTo m ≤ n) (hn : n ≤ tenTo k) : m ≤ k := by
  by_contra hlt
  have hmono : tenTo (k + 1) ≤ tenTo m := tenTo_le_tenTo (not_le.1 hlt)
  have hpos := tenTo_pos k
  rw [tenTo_succ] at hmono
  omega

theorem readsAs_render_zero {x : Finite64} (h : x.code.val = 0) :
    ReadsAs (floatLayout.render x) 0 := by
  have hfits : Fits ['0'] ['0'] :=
    ⟨⟨forall_mem_zero, forall_mem_zero, List.cons_ne_nil _ _, .inl rfl⟩, by decide, by decide⟩
  have hread := readsAs_plain x.negative hfits
  have hvalue : signed x.negative (written ['0'] ['0'] none).value = 0 := by
    simp [written, Numeral.value, signed, Nat.ofDigitChars_cons]
  rw [hvalue] at hread
  rw [FloatLayout.render, if_pos h]
  exact hread

theorem readsAs_spelled (negative : Bool) (h : Pointed whole fraction) {exponent : Option Int}
    (hfew : Nat.ofDigitChars 10 (whole ++ fraction) 0 ≤ tenTo 17)
    (hplaces : fraction.length - exponent.getD 0 ≤ maxScale)
    (hleading : exponent ≠ none →
      tenTo fraction.length ≤ Nat.ofDigitChars 10 (whole ++ fraction) 0) :
    ReadsAs (spelled negative whole fraction exponent)
      (signed negative (written whole fraction exponent).value) := by
  have hlimit : tenTo 17 < magnitudeLimit := by decide
  cases exponent with
  | none =>
    rw [Option.getD_none] at hplaces
    exact readsAs_plain _ ⟨h, by omega, by omega⟩
  | some n =>
    have hsome := hleading (Option.some_ne_none n)
    have hlength := le_of_tenTo_le hsome hfew
    exact readsAs_scientific _ ⟨h, by simp only [maxScale]; omega, by omega⟩ hplaces hsome

theorem fits_of_length_le (h : Pointed whole fraction) (hlength : (whole ++ fraction).length ≤ 17) :
    Fits whole fraction := by
  have hlt := ofDigitChars_lt (List.forall_mem_append.2 ⟨h.isDigit_whole, h.isDigit_fraction⟩) 0
  have hlimit : tenTo 17 < magnitudeLimit := by decide
  have hmono : tenTo (whole ++ fraction).length ≤ tenTo 17 := tenTo_le_tenTo hlength
  rw [Nat.zero_add, Nat.one_mul] at hlt
  rw [List.length_append] at hlength
  exact ⟨h, by simp only [maxScale]; omega, (hlt.trans_le hmono).trans hlimit⟩

/-- The text of a double-precision number is read as its shortest numeral, if a decimal has places
enough for it. -/
theorem readsAs_render {x : Finite64} (hpos : 0 < x.code.val)
    (h : -(maxScale : Int) ≤ (Shortest.numeral floatLayout.tie x.code).exponent) :
    ReadsAs (floatLayout.render x)
      (signed x.negative (Shortest.numeral floatLayout.tie x.code).value) := by
  have hcoefficient := Shortest.coefficient_numeral_le floatLayout.tie hpos x.code.isLt
  obtain ⟨numeral, zeros, whole, fraction, exponent, hnumeral, hrender, hpointed, -,
    ⟨more, hwritten, hmore⟩, hleading⟩ := render_eq_spelled x
  rw [hnumeral, padded] at h hcoefficient
  rw [hrender, hnumeral, value_padded, ← value_padded numeral more, ← hwritten]
  rcases hmore with rfl | ⟨rfl, hwhole, hfraction⟩
  · rw [padded_zero] at hwritten
    have hdigits : Nat.ofDigitChars 10 (whole ++ fraction) 0 = numeral.coefficient :=
      congrArg Numeral.coefficient hwritten
    have hexponent : exponent.getD 0 - fraction.length = numeral.exponent :=
      congrArg Numeral.exponent hwritten
    have hfew : numeral.coefficient ≤ tenTo 17 :=
      (Nat.le_mul_of_pos_right _ (tenTo_pos zeros)).trans hcoefficient
    have hplace : -(maxScale : Int) ≤ numeral.exponent :=
      h.trans (Int.sub_le_self _ (Int.natCast_nonneg zeros))
    exact readsAs_spelled _ hpointed (hdigits ▸ hfew) (by omega) (hdigits ▸ hleading)
  · refine readsAs_plain _ (fits_of_length_le hpointed ?_)
    rw [List.length_append]
    omega

end

end Fixed

end Keyset
