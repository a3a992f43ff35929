import Keyset.Proofs.JsonLayouts
import Keyset.Proofs.KeptDecimals
import Keyset.Proofs.TokenGrammar

/-!
# Decimals as numbers in tokens

A number in the text of a token is an integer if it is written as one and fits 64 bits. Any other
number is rounded to double precision before it becomes a decimal, so that only those decimals come
back that are the shortest numeral of their nearest number.
-/
namespace Keyset

namespace Json

/-- An exponent as it is written: a letter of either case, an optional sign and digits. -/
inductive SpellsExponent : List Char → Option Int → Prop
  | absent : SpellsExponent [] none
  | written {mark : Char} {sign ds : List Char} {factor : Int} (hmark : mark = 'e' ∨ mark = 'E')
      (hsign : Sign sign factor) (hne : ds ≠ []) (hds : ∀ c ∈ ds, c.isDigit = true) :
      SpellsExponent (mark :: (sign ++ ds)) (some (factor * Nat.ofDigitChars 10 ds 0))

/-- A number as it is written. -/
structure NumberText where
  negative : Bool
  whole : List Char
  fraction : List Char
  tail : List Char
  exponent : Option Int
  pointed : Pointed whole fraction
  spells : SpellsExponent tail exponent

namespace NumberText

def chars (number : NumberText) : List Char :=
  (if number.negative then ['-'] else []) ++
    (number.whole ++ (fractionChars number.fraction ++ number.tail))

def value (number : NumberText) : ℚ :=
  signed number.negative (written number.whole number.fraction number.exponent).value

/-- The coefficient with its sign. -/
def integer (number : NumberText) : Int :=
  if number.negative then -(written number.whole number.fraction number.exponent).coefficient
  else (written number.whole number.fraction number.exponent).coefficient

/-- Written without point and exponent, and within 64 bits with or without a sign. -/
def IsInteger64 (number : NumberText) : Prop :=
  number.fraction = [] ∧ number.exponent = none ∧
    -0x8000000000000000 ≤ number.integer ∧ number.integer < 0x10000000000000000

def spelling (number : NumberText) : Spelling :=
  ⟨number.negative, number.whole, number.fraction, number.exponent.getD 0,
    number.fraction.isEmpty && number.exponent.isNone⟩

end NumberText

variable {tail rest : List Char} {exponent : Option Int} {number : NumberText}

theorem SpellsExponent.head (h : SpellsExponent tail exponent) (hrest : EndsNumber rest) :
    ∀ c ∈ (tail ++ rest).head?, c.isDigit = false ∧ c ≠ '.' := by
  cases h with
  | absent => exact fun c hc => ⟨(hrest c hc).1, (hrest c hc).2.1⟩
  | written hmark =>
    rintro c ⟨⟩
    rcases hmark with rfl | rfl <;> decide

theorem SpellsExponent.read (h : SpellsExponent tail exponent) (hrest : EndsNumber rest) :
    readExponent (tail ++ rest) = some (exponent, rest) := by
  cases h with
  | absent => exact readExponent_exponentChars none hrest
  | @written mark sign ds factor hmark hsign hne hds =>
    have hread (negative : Bool) := readExponentDigits_append negative hne hds hrest
    cases hsign with
    | none =>
      obtain ⟨d, ds, rfl⟩ := List.exists_cons_of_ne_nil hne
      have hd := hds d List.mem_cons_self
      simp only [List.nil_append, List.cons_append, readExponent, if_pos hmark]
      split
      · next h =>
        rw [(List.cons.inj h).1] at hd
        exact absurd hd (by decide)
      · next h =>
        rw [(List.cons.inj h).1] at hd
        exact absurd hd (by decide)
      · simpa using hread false
    | plus => simp [readExponent, hmark, hread]
    | minus => simp [readExponent, hmark, hread]

namespace NumberText

theorem readSpelling_chars (number : NumberText) (hrest : EndsNumber rest) :
    readSpelling (number.chars ++ rest) = some (number.spelling, rest) :=
  readSpelling_parts number.negative number.pointed (number.spells.head hrest)
    (number.spells.read hrest)

theorem chars_eq_cons (number : NumberText) :
    ∃ c text, number.chars = c :: text ∧ (c = '-' ∨ c.isDigit = true) := by
  obtain ⟨c, ds, hwhole⟩ := List.exists_cons_of_ne_nil number.pointed.whole_ne
  have hc := number.pointed.isDigit_whole c (hwhole ▸ List.mem_cons_self)
  rw [chars, hwhole]
  cases number.negative with
  | true => exact ⟨'-', _, rfl, .inl rfl⟩
  | false => exact ⟨c, _, rfl, .inr hc⟩

theorem reads {n : Number} (h : number.spelling.number? = some n) (depth : Nat) :
    Reads depth number.chars (.number n) := by
  intro fuel rest hfuel hrest
  obtain ⟨c, text, hchars, hc⟩ := number.chars_eq_cons
  have hread := number.readSpelling_chars hrest
  rw [hchars, List.cons_append] at hread
  rw [hchars, List.length_cons] at hfuel
  obtain ⟨fuel, rfl⟩ : ∃ k, fuel = k + 1 := ⟨fuel - 1, by omega⟩
  rw [hchars]
  exact readValue_number hc hread h fuel

/-! ## Numbers as decimals -/

theorem abs_value (number : NumberText) :
    |number.value| = (written number.whole number.fraction number.exponent).value := by
  rw [value, abs_signed, abs_of_nonneg (Numeral.value_nonneg _)]

end NumberText

theorem exists_read?_integerDigits {n : Int} (h : n.natAbs < magnitudeLimit) :
    ∃ y, Fixed.read? (Text.integerDigits n) = some y ∧ y.value = n := by
  have hfits : Fixed.Fits (Text.digits n.natAbs) [] :=
    ⟨pointed_digits _, Nat.zero_le _, by rwa [List.append_nil, Text.ofDigitChars_digits]⟩
  obtain ⟨y, hy, -, -, hvalue⟩ := Fixed.exists_readPlain_spelled (n < 0) hfits
  rw [integerDigits_eq_spelled]
  refine ⟨y, by rw [Fixed.read?, hy, Option.some_or], ?_⟩
  rw [hvalue, written, Numeral.value, List.append_nil, Text.ofDigitChars_digits]
  by_cases hneg : n < 0
  · simp [signed, hneg, abs_of_neg]
  · simp [signed, hneg, abs_of_nonneg (not_lt.1 hneg)]

namespace NumberText

theorem value_plain (hfraction : number.fraction = []) (hexponent : number.exponent = none) :
    number.value = number.integer := by
  rw [value, integer, hexponent, hfraction]
  cases number.negative <;> simp [signed, Numeral.value, written]

/-- Read as an integer: minus zero is none. -/
def ReadsInteger (number : NumberText) : Prop :=
  (number.fraction.isEmpty && number.exponent.isNone) = true ∧
    if number.negative then
      Nat.ofDigitChars 10 (number.whole ++ number.fraction) 0 ≠ 0 ∧
        Nat.ofDigitChars 10 (number.whole ++ number.fraction) 0 ≤ twoTo 63
    else Nat.ofDigitChars 10 (number.whole ++ number.fraction) 0 < twoTo 64

theorem number?_of_readsInteger (h : number.ReadsInteger) :
    number.spelling.number? = some (.integer number.integer) :=
  if_pos h

theorem number?_of_not_readsInteger (h : ¬ number.ReadsInteger) {x : Finite64}
    (hx : Binary64.ofDecimal number.negative
      (written number.whole number.fraction number.exponent).coefficient
      (written number.whole number.fraction number.exponent).exponent = .finite x) :
    number.spelling.number? = some (.float x) := by
  refine (if_neg h).trans ?_
  simp only [written] at hx
  simp only [spelling, hx]

theorem plain_iff : (number.fraction.isEmpty && number.exponent.isNone) = true ↔
    number.fraction = [] ∧ number.exponent = none := by
  simp

theorem isInteger64_of_readsInteger (h : number.ReadsInteger) : number.IsInteger64 := by
  obtain ⟨hplain, hfits⟩ := h
  obtain ⟨hfraction, hexponent⟩ := plain_iff.1 hplain
  have hlow : twoTo 63 = 0x8000000000000000 := rfl
  have hhigh : twoTo 64 = 0x10000000000000000 := rfl
  refine ⟨hfraction, hexponent, ?_⟩
  rw [integer, written]
  cases hnegative : number.negative <;> simp only [hnegative] at hfits ⊢ <;> simp at hfits ⊢ <;>
    omega

theorem readsInteger_or_zero (h : number.IsInteger64) :
    number.ReadsInteger ∨ number.value = 0 := by
  obtain ⟨hfraction, hexponent, hrange⟩ := h
  have hlow : twoTo 63 = 0x8000000000000000 := rfl
  have hhigh : twoTo 64 = 0x10000000000000000 := rfl
  by_cases hzero : number.integer = 0
  · exact .inr (by rw [value_plain hfraction hexponent, hzero, Int.cast_zero])
  · refine .inl ⟨plain_iff.2 ⟨hfraction, hexponent⟩, ?_⟩
    rw [integer, written] at hrange hzero
    split <;> simp_all

theorem read?_of_readsInteger (h : number.ReadsInteger) :
    ∃ y, Fixed.read? (Number.integer number.integer).chars = some y ∧ y.value = number.value := by
  obtain ⟨hfraction, hexponent, hrange⟩ := isInteger64_of_readsInteger h
  rw [value_plain hfraction hexponent]
  refine exists_read?_integerDigits ?_
  simp only [magnitudeLimit]
  omega

theorem shortened_of_isInteger64 (h : number.IsInteger64) (hnot : ¬ number.ReadsInteger) {d : Fixed}
    (hd : number.value = d.value) : d.shortened.value = |d.value| := by
  have hzero := (readsInteger_or_zero h).resolve_left hnot
  rw [hd] at hzero
  rw [Fixed.shortened_zero hzero, hzero, abs_zero]

theorem exists_number {d : Fixed} (hd : number.value = d.value) :
    ∃ n, number.spelling.number? = some n ∧
      ((∃ y, Fixed.read? n.chars = some y ∧ y.value = d.value) ↔
        number.IsInteger64 ∨ d.shortened.value = |d.value|) := by
  by_cases hinteger : number.ReadsInteger
  · have hread := read?_of_readsInteger hinteger
    rw [hd] at hread
    exact ⟨_, number?_of_readsInteger hinteger,
      iff_of_true hread (.inl (isInteger64_of_readsInteger hinteger))⟩
  · have habs := number.abs_value
    rw [hd] at habs
    have hsign : d.value = signed number.negative |d.value| := by
      rw [habs, ← hd]
      rfl
    have hcode := Numeral.code_eq_codeOfRat (written number.whole number.fraction number.exponent)
    rw [← habs] at hcode
    have hx := Binary64.ofDecimal_eq_finite number.negative hcode d.codeOfRat_abs_value_lt
    refine ⟨_, number?_of_not_readsInteger hinteger hx, ?_⟩
    rw [or_iff_right_of_imp fun h => shortened_of_isInteger64 h hinteger hd]
    exact Fixed.keeps_iff rfl hsign

end NumberText

end Json

namespace Token

open Json
open Shortest (HasDigits)

theorem decode_layObject (front back : Blanks) {members : List (MemberText 126)}
    (hne : members ≠ []) : Token.decode (layObject front (members.map (·.laid)) back) =
      Token.ofJson (.ofMembers (members.map (·.member))) := by
  have hdepth : depthLimit = 126 + 1 := rfl
  rw [decode, hdepth, read?_layObject front back hne]

/-- A later value takes the place of the value that a token has. -/
theorem describes_value {before after : List (String × Value)} {v : Value} {t : Token}
    (hafter : ∀ m ∈ after, m.1 ≠ "value") (h : Describes (.ofMembers (before ++ after)) t) :
    Describes (.ofMembers (before ++ ("value", v) :: after)) { t with value := some v } := by
  have hother (name : String) (place : Nat) (hname : "value" ≠ name) :
      (Value.ofMembers (before ++ ("value", v) :: after)).memberAt? name place =
        (Value.ofMembers (before ++ after)).memberAt? name place := by
    have hwith := member?_ofMembers name (before ++ ("value", v) :: after)
    have hwithout := member?_ofMembers name (before ++ after)
    refine hwith.trans (Eq.trans ?_ hwithout.symm)
    simp [List.find?_append, hname]
  have hvalue : (Value.ofMembers (before ++ ("value", v) :: after)).memberAt? "value" 2 =
      some v := by
    refine (member?_ofMembers "value" _).trans ?_
    have hnone : after.reverse.find? (fun m => m.1 == "value") = none :=
      List.find?_eq_none.2 fun m hm => by simpa using hafter m (List.mem_reverse.1 hm)
    simp [List.find?_append, hnone]
  refine ⟨.object _, ?_, ?_, hvalue, ?_⟩
  · rw [hother _ _ (by decide)]
    exact h.kind
  · rw [hother _ _ (by decide)]
    exact h.key
  · rw [hother _ _ (by decide)]
    exact h.offset

/-- The text of a token in any layout, with a place for its value. No later member is a value. -/
structure Layout where
  front : Blanks
  before : List (MemberText 126)
  space : Blanks
  name : NameText
  isValue : name.name = "value"
  middle : Blanks
  lead : Blanks
  trail : Blanks
  after : List (MemberText 126)
  isLast : ∀ m ∈ after, m.name.name ≠ "value"
  back : Blanks

namespace Layout

def text (layout : Layout) (number : NumberText) : String :=
  layObject layout.front (layout.before.map (·.laid) ++
    layMember layout.space layout.name layout.middle (layout.lead.chars ++ number.chars)
      layout.trail :: layout.after.map (·.laid)) layout.back

def others (layout : Layout) : Value :=
  .ofMembers ((layout.before ++ layout.after).map (·.member))

def valueMember (layout : Layout) {chars : List Char} {v : Value} (h : Reads 126 chars v) :
    MemberText 126 :=
  ⟨layout.space, layout.name, layout.middle, layout.lead.chars ++ chars, v, h.blank layout.lead,
    layout.trail⟩

theorem member_valueMember (layout : Layout) {chars : List Char} {v : Value}
    (h : Reads 126 chars v) : (layout.valueMember h).member = ("value", v) := by
  rw [← layout.isValue]
  rfl

/-- The shortest layout of a token that counts forward. -/
def forward (key : String) : Layout where
  front := .none
  before := [.compact "type" (.string "forward"), .compact "key" (.string key)]
  space := .none
  name := .ofString "value"
  isValue := rfl
  middle := .none
  lead := .none
  trail := .none
  after := []
  isLast := List.forall_mem_nil _
  back := .none

end Layout

variable {number : NumberText}

theorem decode_text {n : Number} (hn : number.spelling.number? = some n) (layout : Layout)
    {t : Token} (ht : Token.ofJson layout.others = .ok t) :
    Token.decode (layout.text number) = .ok { t with value := some (.number n) } := by
  have hreads := NumberText.reads hn 126
  have hne : layout.before ++ layout.valueMember hreads :: layout.after ≠ [] :=
    List.append_ne_nil_of_right_ne_nil _ (List.cons_ne_nil _ _)
  have hdecode := decode_layObject layout.front layout.back hne
  rw [List.map_append, List.map_cons, List.map_append, List.map_cons,
    layout.member_valueMember] at hdecode
  rw [Layout.others, List.map_append] at ht
  refine hdecode.trans (ofJson_eq_ok_iff.2 (describes_value ?_ (ofJson_eq_ok_iff.1 ht)))
  intro other hother
  obtain ⟨m, hm, rfl⟩ := List.mem_map.1 hother
  exact layout.isLast m hm

theorem decode_decimal_iff {n : Number} {v : ℚ} :
    (∃ e, ScalarKind.decimal.decode (.number n) = .ok (.decimal e) ∧ e.value = v) ↔
      ∃ y, Fixed.read? n.chars = some y ∧ y.value = v := by
  have hread : ScalarKind.decimal.ofJson? (.number n) =
      (Fixed.read? n.chars).map Scalar.decimal := rfl
  rw [ScalarKind.decode, hread]
  cases Fixed.read? n.chars <;> simp

/-- A decimal that is written as a number comes back exactly if it is written as an integer of 64
bits, or is the shortest numeral of its nearest number of double precision. With fifteen digits it
is, and with more than seventeen it is not. -/
theorem decode_number_iff {d : Fixed} (hd : number.value = d.value) (layout : Layout)
    {t : Token} (ht : Token.ofJson layout.others = .ok t) : ∃ n,
    Token.decode (layout.text number) = .ok { t with value := some (.number n) } ∧
    ((∃ e, ScalarKind.decimal.decode (.number n) = .ok (.decimal e) ∧ e.value = d.value) ↔
      number.IsInteger64 ∨ d.shortened.value = |d.value|) ∧
    (HasDigits 15 |d.value| → d.shortened.value = |d.value|) ∧
    (d.shortened.value = |d.value| → HasDigits 17 |d.value|) := by
  obtain ⟨n, hn, hkept⟩ := NumberText.exists_number hd
  exact ⟨n, decode_text hn layout ht, decode_decimal_iff.trans hkept, Fixed.shortened_of_hasDigits,
    Fixed.hasDigits_of_shortened⟩

def oneTenth : NumberText where
  negative := false
  whole := ['1']
  fraction := ['0']
  tail := ['E', '-', '1']
  exponent := some (-1 * Nat.ofDigitChars 10 ['1'] 0)
  pointed := ⟨List.all_eq_true.1 rfl, List.all_eq_true.1 rfl, by decide, by decide⟩
  spells := .written (.inr rfl) .minus (List.cons_ne_nil '1' []) (List.all_eq_true.1 rfl)

theorem decode_number_tenth : ∃ n,
    Token.decode "\x7b\"type\":\"forward\",\"key\":\"n\",\"value\":1.0E-1\x7d" =
      .ok (.forward "n" (.number n) 0) ∧
    ∃ e, ScalarKind.decimal.decode (.number n) = .ok (.decimal e) ∧ e.value = 1 / 10 := by
  have hd : (Fixed.mk false 1 1 (by decide) (by decide)).value = 1 / 10 := by
    norm_num [Fixed.value, Fixed.coefficient]
  have hnumber : oneTenth.value = 1 / 10 := by
    norm_num [oneTenth, NumberText.value, signed, written, Numeral.value,
      show Nat.ofDigitChars 10 ['1'] 0 = 1 from rfl,
      show Nat.ofDigitChars 10 ['1', '0'] 0 = 10 from rfl]
  obtain ⟨n, hdecode, hkept, hfew, -⟩ :=
    decode_number_iff (hnumber.trans hd.symm) (.forward "n") rfl
  refine ⟨n, hdecode, ?_⟩
  rw [← hd]
  exact hkept.2 (.inr (hfew ⟨1, by decide, -1, by norm_num [hd, Numeral.value]⟩))

/-- The first integer that does not fit 64 bits. -/
def firstLarge : NumberText where
  negative := false
  whole := "18446744073709551616".toList
  fraction := []
  tail := []
  exponent := none
  pointed := ⟨List.all_eq_true.1 rfl, List.all_eq_true.1 rfl, by decide, by decide⟩
  spells := .absent

/-- It is a decimal, and yet rounded to seventeen digits. -/
theorem exists_decode_number_rounded : ∃ n,
    Token.decode "\x7b\"type\":\"forward\",\"key\":\"n\",\"value\":18446744073709551616\x7d" =
      .ok (.forward "n" (.number n) 0) ∧
    (∃ d : Fixed, d.value = 18446744073709551616) ∧
    ∃ e, ScalarKind.decimal.decode (.number n) = .ok (.decimal e) ∧
      e.value = 18446744073709552000 := by
  have hn : firstLarge.spelling.number? =
      some (.float ⟨false, 0x43f0000000000000, by decide⟩) := by
    decide +kernel
  have hread : Fixed.read? (Number.float ⟨false, 0x43f0000000000000, by decide⟩).chars =
      some ⟨false, 18446744073709552000, 0, by decide, by decide⟩ := by
    decide +kernel
  refine ⟨_, decode_text hn (.forward "n") rfl, ?_, decode_decimal_iff.2 ⟨_, hread, ?_⟩⟩
  · exact ⟨⟨false, 18446744073709551616, 0, by decide, by decide⟩,
      by norm_num [Fixed.value, Fixed.coefficient]⟩
  · norm_num [Fixed.value, Fixed.coefficient]

end Token

end Keyset
