import Keyset.Json.Reader
import Keyset.Json.Writer
import Keyset.Proofs.NearestDoubles

/-!
# Numbers in JSON texts

A number is written as digits, with a fraction and a power of ten where it has them. The reader
takes these parts out of the text again, whatever follows the number in an array or object. All
digits of a double-precision number name its shortest numeral, wherever its layout puts the point.
-/
namespace Keyset.Json

open Text

/-! ## The parts of a number -/

/-- A text that does not go on as a number does. -/
def EndsNumber (text : List Char) : Prop :=
  ∀ c ∈ text.head?, c.isDigit = false ∧ c ≠ '.' ∧ c ≠ 'e' ∧ c ≠ 'E'

def exponentChars : Option Int → List Char
  | none => []
  | some n => 'e' :: (if n < 0 then '-' else '+') :: digits n.natAbs

def fractionChars (fraction : List Char) : List Char :=
  if fraction = [] then [] else '.' :: fraction

/-- The digits before and after the point of a number. -/
structure Pointed (whole fraction : List Char) : Prop where
  isDigit_whole : ∀ c ∈ whole, c.isDigit = true
  isDigit_fraction : ∀ c ∈ fraction, c.isDigit = true
  whole_ne : whole ≠ []
  no_zero : whole.length = 1 ∨ whole.head? ≠ some '0'

def spelled (negative : Bool) (whole fraction : List Char) (exponent : Option Int) : List Char :=
  (if negative then ['-'] else []) ++
    (whole ++ (fractionChars fraction ++ exponentChars exponent))

variable {whole fraction rest : List Char} {exponent : Option Int}

theorem readExponentDigits_append (negative : Bool) {ds : List Char} (hne : ds ≠ [])
    (hds : ∀ c ∈ ds, c.isDigit = true) (hrest : EndsNumber rest) :
    readExponentDigits negative (ds ++ rest) = some (if negative then
      -(Nat.ofDigitChars 10 ds 0 : Int) else Nat.ofDigitChars 10 ds 0, rest) := by
  have hsplit := splitDigits_of_all hds fun c hc => (hrest c hc).1
  rw [readExponentDigits, hsplit]
  simp [readDigits_of_all hne hds]

theorem readExponentDigits_digits (negative : Bool) (n : Nat) (hrest : EndsNumber rest) :
    readExponentDigits negative (digits n ++ rest) =
      some (if negative then -(n : Int) else n, rest) := by
  have hread := readExponentDigits_append negative (digits_ne_nil n)
    (fun c => isDigit_of_mem_digits) hrest
  rwa [ofDigitChars_digits] at hread

theorem readExponent_exponentChars (exponent : Option Int) (hrest : EndsNumber rest) :
    readExponent (exponentChars exponent ++ rest) = some (exponent, rest) := by
  cases exponent with
  | none =>
    cases rest with
    | nil => rfl
    | cons c rest =>
      obtain ⟨_, _, he, hE⟩ := hrest c rfl
      simp [exponentChars, readExponent, he, hE]
  | some n =>
    by_cases hneg : n < 0
    · have hread := readExponentDigits_digits true n.natAbs hrest
      simp [exponentChars, readExponent, hneg, hread, -Nat.cast_natAbs]
      omega
    · have hread := readExponentDigits_digits false n.natAbs hrest
      simp [exponentChars, readExponent, hneg, hread, -Nat.cast_natAbs]
      omega

theorem head_exponentChars (exponent : Option Int) (hrest : EndsNumber rest) :
    ∀ c ∈ (exponentChars exponent ++ rest).head?, c.isDigit = false ∧ c ≠ '.' := by
  cases exponent with
  | none => exact fun c hc => ⟨(hrest c hc).1, (hrest c hc).2.1⟩
  | some n =>
    intro c hc
    cases hc
    decide

theorem readFraction_fractionChars (hdigit : ∀ c ∈ fraction, c.isDigit = true)
    (hrest : ∀ c ∈ rest.head?, c.isDigit = false ∧ c ≠ '.') :
    readFraction (fractionChars fraction ++ rest) = some (fraction, rest) := by
  by_cases hnone : fraction = []
  · subst hnone
    cases rest with
    | nil => rfl
    | cons c rest =>
      obtain ⟨_, hpoint⟩ := hrest c rfl
      simp only [fractionChars, if_true, List.nil_append]
      rw [readFraction]
      intro text h
      exact hpoint (List.cons.inj h).1
  · have hsplit := splitDigits_of_all hdigit fun c hc => (hrest c hc).1
    rw [fractionChars, if_neg hnone, List.cons_append, readFraction, hsplit]
    simp [hnone]

theorem stopsDigits_fractionChars (fraction : List Char)
    (hrest : ∀ c ∈ rest.head?, c.isDigit = false ∧ c ≠ '.') :
    StopsDigits (fractionChars fraction ++ rest) := by
  by_cases hnone : fraction = []
  · subst hnone
    exact fun c hc => (hrest c hc).1
  · rw [fractionChars, if_neg hnone]
    exact stopsDigits_cons (by decide)

theorem Pointed.append_ne_minus (h : Pointed whole fraction) (tail text : List Char) :
    whole ++ tail ≠ '-' :: text := by
  obtain ⟨c, ds, rfl⟩ := List.exists_cons_of_ne_nil h.whole_ne
  intro hcons
  have hc := h.isDigit_whole c List.mem_cons_self
  rw [(List.cons.inj hcons).1] at hc
  exact absurd hc (by decide)

/-- The parts of a number are read from its text, however the exponent is written. -/
theorem readSpelling_parts (negative : Bool) (h : Pointed whole fraction) {tail : List Char}
    (hhead : ∀ c ∈ (tail ++ rest).head?, c.isDigit = false ∧ c ≠ '.')
    (hexponent : readExponent (tail ++ rest) = some (exponent, rest)) :
    readSpelling ((if negative then ['-'] else []) ++
      (whole ++ (fractionChars fraction ++ tail)) ++ rest) =
      some (⟨negative, whole, fraction, exponent.getD 0,
        fraction.isEmpty && exponent.isNone⟩, rest) := by
  have hsplit := splitDigits_of_all h.isDigit_whole (stopsDigits_fractionChars fraction hhead)
  have hfraction := readFraction_fractionChars h.isDigit_fraction hhead
  have hplain : (whole.isEmpty || whole.length != 1 && whole.head? == some '0') = false := by
    have hne := h.whole_ne
    rcases h.no_zero with hone | hzero
    · simp [hne, hone]
    · simp [hne, hzero]
  simp only [List.append_assoc]
  cases negative with
  | true => simp [readSpelling, hsplit, hplain, hfraction, hexponent]
  | false =>
    simp only [Bool.false_eq_true, if_false, List.nil_append]
    rw [readSpelling]
    · simp [hsplit, hplain, hfraction, hexponent]
    · exact fun text => h.append_ne_minus _ text

theorem readSpelling_spelled (negative : Bool) (h : Pointed whole fraction)
    (hrest : EndsNumber rest) :
    readSpelling (spelled negative whole fraction exponent ++ rest) =
      some (⟨negative, whole, fraction, exponent.getD 0,
        fraction.isEmpty && exponent.isNone⟩, rest) :=
  readSpelling_parts negative h (head_exponentChars exponent hrest)
    (readExponent_exponentChars exponent hrest)

/-! ## Double-precision numbers -/

/-- A numeral with zeros at its end. -/
def padded (numeral : Numeral) (zeros : Nat) : Numeral :=
  ⟨numeral.coefficient * tenTo zeros, numeral.exponent - zeros⟩

def written (whole fraction : List Char) (exponent : Option Int) : Numeral :=
  ⟨Nat.ofDigitChars 10 (whole ++ fraction) 0, exponent.getD 0 - fraction.length⟩

theorem code_padded (numeral : Numeral) (zeros : Nat) :
    (padded numeral zeros).code = numeral.code :=
  Numeral.code_shift numeral.coefficient zeros numeral.exponent

theorem padded_zero (numeral : Numeral) : padded numeral 0 = numeral := by
  simp [padded]

theorem significant_append (ds : List Char) :
    ∃ zeros, ds = FloatLayout.significant ds ++ List.replicate zeros '0' := by
  refine ⟨(ds.reverse.takeWhile (· == '0')).length, ?_⟩
  have hzeros : ds.reverse.takeWhile (· == '0') =
      List.replicate (ds.reverse.takeWhile (· == '0')).length '0' :=
    List.eq_replicate_of_mem fun c hc => by simpa using List.mem_takeWhile_imp hc
  have hsplit := congrArg List.reverse
    (List.takeWhile_append_dropWhile (p := (· == '0')) (l := ds.reverse))
  rw [List.reverse_reverse, List.reverse_append, hzeros, List.reverse_replicate] at hsplit
  exact hsplit.symm

/-- The digits of a positive number. -/
structure SignificantDigits (ds : List Char) : Prop where
  isDigit : ∀ c ∈ ds, c.isDigit = true
  ne_nil : ds ≠ []
  head : ds.head? ≠ some '0'

/-- The numeral of digits of which the first counts `10 ^ leading`. -/
def digitsNumeral (ds : List Char) (leading : Int) : Numeral :=
  ⟨Nat.ofDigitChars 10 ds 0, leading + 1 - ds.length⟩

/-- The significant digits of a numeral make it up again, with the zeros that were cut off. -/
theorem exists_padded_significant {numeral : Numeral} (hne : numeral.coefficient ≠ 0) :
    SignificantDigits (FloatLayout.significant (digits numeral.coefficient)) ∧
      ∃ zeros, numeral = padded (digitsNumeral
        (FloatLayout.significant (digits numeral.coefficient))
        (numeral.exponent + (digits numeral.coefficient).length - 1)) zeros := by
  obtain ⟨coefficient, exponent⟩ := numeral
  simp only at hne ⊢
  have hhead := head?_digits hne
  have hvalue := ofDigitChars_digits coefficient
  obtain ⟨zeros, hsplit⟩ := significant_append (digits coefficient)
  generalize FloatLayout.significant (digits coefficient) = ds at hsplit ⊢
  have hdigit : ∀ c ∈ ds, c.isDigit = true := fun c hc =>
    isDigit_of_mem_digits (n := coefficient) (hsplit ▸ List.mem_append_left _ hc)
  rw [hsplit] at hhead hvalue ⊢
  -- Without a significant digit the coefficient would be zero.
  have hds : ds ≠ [] := by
    rintro rfl
    rw [List.nil_append, Nat.ofDigitChars_replicate_zero, Nat.mul_zero] at hvalue
    exact hne hvalue.symm
  rw [ofDigitChars_append_replicate] at hvalue
  rw [List.head?_append_of_ne_nil _ hds] at hhead
  refine ⟨⟨hdigit, hds, hhead⟩, zeros, ?_⟩
  rw [padded, digitsNumeral, Numeral.mk.injEq]
  refine ⟨hvalue.symm, ?_⟩
  simp
  omega

/-- The parts of a text make up a numeral, as it is or with zeros up to the first place after the
point. The text is not that of an integer, and a power of ten follows digits that do not start with
a zero. -/
structure SpellsNumeral (numeral : Numeral) (whole fraction : List Char) (exponent : Option Int) :
    Prop where
  pointed : Pointed whole fraction
  marked : ¬ (fraction = [] ∧ exponent = none)
  written : ∃ zeros, written whole fraction exponent = padded numeral zeros ∧
    (zeros = 0 ∨ exponent = none ∧ whole.length ≤ 16 ∧ fraction.length = 1)
  leading : exponent ≠ none → tenTo fraction.length ≤ numeral.coefficient

variable {ds : List Char} {leading : Int}

theorem forall_mem_zero : ∀ c ∈ ['0'], c.isDigit = true :=
  List.forall_mem_singleton.2 rfl

theorem SignificantDigits.spells_scientific (h : SignificantDigits ds) :
    ∃ whole fraction exponent, FloatLayout.scientific ds leading =
      spelled false whole fraction exponent ∧
      SpellsNumeral (digitsNumeral ds leading) whole fraction exponent := by
  obtain ⟨c, fraction, rfl⟩ := List.exists_cons_of_ne_nil h.ne_nil
  have hc := h.isDigit c List.mem_cons_self
  refine ⟨[c], fraction, some leading, ?_, ⟨List.forall_mem_singleton.2 hc,
    fun d hd => h.isDigit d (List.mem_cons_of_mem c hd), List.cons_ne_nil _ _, .inl rfl⟩,
    by simp, ⟨0, ?_, .inl rfl⟩, fun _ => ?_⟩
  · cases fraction <;> rfl
  · simp [padded_zero, Json.written, digitsNumeral]
  · exact pow_le_ofDigitChars hc fun hzero => h.head (congrArg some hzero)

theorem SignificantDigits.spells_below_one (h : SignificantDigits ds) (hneg : leading < 0) :
    ∃ whole fraction exponent, floatLayout.pointed ds leading =
      spelled false whole fraction exponent ∧
      SpellsNumeral (digitsNumeral ds leading) whole fraction exponent := by
  refine ⟨['0'], List.replicate (-leading - 1).toNat '0' ++ ds, none, ?_,
    ⟨forall_mem_zero, ?_, List.cons_ne_nil _ _, .inl rfl⟩, by simp [h.ne_nil], ⟨0, ?_, .inl rfl⟩,
    fun hsome => absurd rfl hsome⟩
  · simp [FloatLayout.pointed, hneg, spelled, fractionChars, exponentChars, h.ne_nil]
  · intro c hc
    rcases List.mem_append.1 hc with hzero | hc
    · rw [List.eq_of_mem_replicate hzero]
      decide
    · exact h.isDigit c hc
  · rw [padded_zero, Json.written, digitsNumeral, Numeral.mk.injEq]
    constructor
    · simp [Nat.ofDigitChars_append, Nat.ofDigitChars_cons, Nat.ofDigitChars_replicate_zero]
    · simp
      omega

theorem SignificantDigits.spells_whole (h : SignificantDigits ds) (hneg : ¬ leading < 0)
    (hlength : ds.length ≤ leading.toNat + 1) (hlt : leading < 16) :
    ∃ whole fraction exponent, floatLayout.pointed ds leading =
      spelled false whole fraction exponent ∧
      SpellsNumeral (digitsNumeral ds leading) whole fraction exponent := by
  refine ⟨ds ++ List.replicate (leading.toNat + 1 - ds.length) '0', ['0'], none, ?_,
    ⟨?_, forall_mem_zero, by simp [h.ne_nil], ?_⟩, by simp,
    ⟨leading.toNat + 1 - ds.length + 1, ?_, .inr ⟨rfl, ?_, rfl⟩⟩, fun hsome => absurd rfl hsome⟩
  · simp [FloatLayout.pointed, hneg, hlength, floatLayout, spelled, fractionChars, exponentChars]
  · intro c hc
    rcases List.mem_append.1 hc with hc | hzero
    · exact h.isDigit c hc
    · rw [List.eq_of_mem_replicate hzero]
      decide
  · rw [List.head?_append_of_ne_nil _ h.ne_nil]
    exact .inr h.head
  · rw [Json.written, padded, digitsNumeral, Numeral.mk.injEq]
    constructor
    · rw [List.append_assoc, ← List.replicate_succ', ofDigitChars_append_replicate]
      rfl
    · simp
      omega
  · rw [List.length_append, List.length_replicate]
    omega

theorem SignificantDigits.spells_split (h : SignificantDigits ds) (hneg : ¬ leading < 0)
    (hlength : ¬ ds.length ≤ leading.toNat + 1) :
    ∃ whole fraction exponent, floatLayout.pointed ds leading =
      spelled false whole fraction exponent ∧
      SpellsNumeral (digitsNumeral ds leading) whole fraction exponent := by
  have hdrop : ds.drop (leading.toNat + 1) ≠ [] := by
    rw [Ne, List.drop_eq_nil_iff]
    exact hlength
  have htake : ds.take (leading.toNat + 1) ≠ [] := by
    rw [Ne, List.take_eq_nil_iff]
    exact fun hnil => hnil.elim (Nat.succ_ne_zero _) h.ne_nil
  refine ⟨ds.take (leading.toNat + 1), ds.drop (leading.toNat + 1), none, ?_,
    ⟨fun c hc => h.isDigit c (List.mem_of_mem_take hc),
      fun c hc => h.isDigit c (List.mem_of_mem_drop hc), htake, ?_⟩, fun hnone => hdrop hnone.1,
    ⟨0, ?_, .inl rfl⟩, fun hsome => absurd rfl hsome⟩
  · simp [FloatLayout.pointed, hneg, hlength, spelled, fractionChars, exponentChars, hdrop]
  · rw [List.head?_take, if_neg (Nat.succ_ne_zero _)]
    exact .inr h.head
  · rw [padded_zero, Json.written, digitsNumeral, List.take_append_drop, Numeral.mk.injEq]
    refine ⟨rfl, ?_⟩
    simp
    omega

theorem SignificantDigits.spells_pointed (h : SignificantDigits ds) (hlt : leading < 16) :
    ∃ whole fraction exponent, floatLayout.pointed ds leading =
      spelled false whole fraction exponent ∧
      SpellsNumeral (digitsNumeral ds leading) whole fraction exponent := by
  by_cases hneg : leading < 0
  · exact h.spells_below_one hneg
  · by_cases hlength : ds.length ≤ leading.toNat + 1
    · exact h.spells_whole hneg hlength hlt
    · exact h.spells_split hneg hlength

theorem numeral_zero (tie : Tie) : Shortest.numeral tie 0 = padded ⟨0, 0⟩ 325 := by
  cases tie <;> decide +kernel

/-- A double-precision number is written as its shortest numeral, without the zeros at its end. -/
theorem render_eq_spelled (x : Finite64) : ∃ numeral zeros whole fraction exponent,
    Shortest.numeral floatLayout.tie x.code = padded numeral zeros ∧
    floatLayout.render x = spelled x.negative whole fraction exponent ∧
    SpellsNumeral numeral whole fraction exponent := by
  by_cases hzero : x.code.val = 0
  · refine ⟨⟨0, 0⟩, 325, ['0'], ['0'], none, ?_, ?_,
      ⟨forall_mem_zero, forall_mem_zero, List.cons_ne_nil _ _, .inl rfl⟩, by simp,
      ⟨1, rfl, .inr ⟨rfl, by decide, rfl⟩⟩, fun hsome => absurd rfl hsome⟩
    · rw [hzero, numeral_zero]
    · rw [FloatLayout.render, if_pos hzero]
      rfl
  · have hcode := Shortest.code_numeral floatLayout.tie x.code
    simp only [FloatLayout.render, if_neg hzero]
    generalize Shortest.numeral floatLayout.tie x.code = numeral at hcode ⊢
    have hne : numeral.coefficient ≠ 0 := by
      intro hnone
      obtain ⟨coefficient, exponent⟩ := numeral
      obtain rfl : coefficient = 0 := hnone
      exact hzero (hcode.symm.trans (Numeral.code_zero exponent))
    obtain ⟨hdigits, zeros, hnumeral⟩ := exists_padded_significant hne
    generalize FloatLayout.significant (digits numeral.coefficient) = ds at hdigits hnumeral ⊢
    generalize numeral.exponent + (digits numeral.coefficient).length - 1 = leading at hnumeral ⊢
    have hspelled : ∃ whole fraction exponent, (if floatLayout.positional leading = true then
        floatLayout.pointed ds leading else FloatLayout.scientific ds leading) =
        spelled false whole fraction exponent ∧
        SpellsNumeral (digitsNumeral ds leading) whole fraction exponent := by
      split
      · next hlayout =>
        simp only [floatLayout, Bool.and_eq_true, decide_eq_true_eq] at hlayout
        exact hdigits.spells_pointed hlayout.2
      · exact hdigits.spells_scientific
    obtain ⟨whole, fraction, exponent, htext, hspells⟩ := hspelled
    exact ⟨_, zeros, whole, fraction, exponent, hnumeral, by rw [htext]; rfl, hspells⟩

/-! ## All numbers -/

def Number.fits : Number → Bool
  | .integer n => -0x8000000000000000 ≤ n ∧ n < 0x10000000000000000
  | .float _ => true

/-- A text of a number whose parts are read as this number. -/
def Number.Spells (n : Number) (text : List Char) : Prop :=
  ∃ negative whole fraction exponent, text = spelled negative whole fraction exponent ∧
    Pointed whole fraction ∧ Spelling.number? ⟨negative, whole, fraction, exponent.getD 0,
      fraction.isEmpty && exponent.isNone⟩ = some n

theorem pointed_digits (n : Nat) : Pointed (digits n) [] := by
  refine ⟨fun c => isDigit_of_mem_digits, by simp, digits_ne_nil _, ?_⟩
  by_cases hzero : n = 0
  · rw [hzero]
    exact .inl rfl
  · exact .inr (head?_digits hzero)

theorem integerDigits_eq_spelled (n : Int) :
    integerDigits n = spelled (n < 0) (digits n.natAbs) [] none := by
  by_cases hneg : n < 0 <;> simp [integerDigits, spelled, fractionChars, exponentChars, hneg]

theorem Number.spells_integer {n : Int} (hn : (Number.integer n).fits = true) :
    (Number.integer n).Spells (integerDigits n) := by
  rw [fits, decide_eq_true_eq] at hn
  refine ⟨n < 0, digits n.natAbs, [], none, integerDigits_eq_spelled n, pointed_digits _, ?_⟩
  simp only [Spelling.number?, List.append_nil, ofDigitChars_digits]
  by_cases hneg : n < 0
  · have hfits : n.natAbs ≠ 0 ∧ n.natAbs ≤ twoTo 63 := ⟨by omega, by simp [twoTo]; omega⟩
    simp [hneg, hfits, -Nat.cast_natAbs]
    omega
  · have hfits : n.natAbs < twoTo 64 := by simp [twoTo]; omega
    simp [hneg, hfits, -Nat.cast_natAbs]
    omega

theorem Number.spells_float (x : Finite64) : (Number.float x).Spells (floatLayout.render x) := by
  obtain ⟨numeral, zeros, whole, fraction, exponent, hnumeral, hrender, hpointed, hmarked,
    ⟨more, hwritten, -⟩, -⟩ := render_eq_spelled x
  have hcode : (written whole fraction exponent).code = x.code := by
    rw [hwritten, code_padded, ← code_padded numeral zeros, ← hnumeral, Shortest.code_numeral]
  have hplain : (fraction.isEmpty && exponent.isNone) = false := by
    rw [← Bool.not_eq_true]
    simpa using hmarked
  refine ⟨x.negative, whole, fraction, exponent, hrender, hpointed, ?_⟩
  simp only [Spelling.number?, hplain, Bool.false_eq_true, false_and, if_false]
  rw [Binary64.ofDecimal_eq_finite _ hcode x.code.isLt]

theorem Number.spells_chars {n : Number} (hn : n.fits = true) : n.Spells n.chars := by
  cases n with
  | integer n => exact spells_integer hn
  | float x => exact spells_float x

/-- A number is read from its text, whatever follows it. -/
theorem Number.exists_spelling {n : Number} (hn : n.fits = true) (hrest : EndsNumber rest) :
    ∃ spelling, readSpelling (n.chars ++ rest) = some (spelling, rest) ∧
      spelling.number? = some n := by
  obtain ⟨negative, whole, fraction, exponent, hchars, hpointed, hnumber⟩ := spells_chars hn
  exact ⟨_, hchars ▸ readSpelling_spelled negative hpointed hrest, hnumber⟩

theorem Number.chars_eq_cons {n : Number} (hn : n.fits = true) :
    ∃ c text, n.chars = c :: text ∧ (c = '-' ∨ c.isDigit = true) := by
  obtain ⟨negative, whole, fraction, exponent, hchars, hpointed, _⟩ := spells_chars hn
  obtain ⟨c, ds, rfl⟩ := List.exists_cons_of_ne_nil hpointed.whole_ne
  rw [hchars]
  cases negative with
  | true => exact ⟨'-', _, rfl, .inl rfl⟩
  | false => exact ⟨c, _, rfl, .inr (hpointed.isDigit_whole c List.mem_cons_self)⟩

end Keyset.Json
