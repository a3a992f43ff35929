import Keyset.Numeral
import Keyset.Text
import Mathlib

/-!
# Digits in texts

Every number is written in decimal digits, and all readers take the longest run of digits that they
are given. So what a number's digits are followed by decides where reading stops.
-/
namespace Keyset.Text

/-- A text that does not go on with a digit. -/
def StopsDigits (text : List Char) : Prop := ∀ c ∈ text.head?, c.isDigit = false

theorem stopsDigits_cons {c : Char} {text : List Char} (h : c.isDigit = false) :
    StopsDigits (c :: text) := by
  intro d hd
  cases hd
  exact h

/-! ## Digits of a number -/

theorem digits_ne_nil (n : Nat) : digits n ≠ [] := Nat.toDigits_ne_nil

theorem isDigit_of_mem_digits {n : Nat} {c : Char} (h : c ∈ digits n) : c.isDigit = true :=
  Nat.isDigit_of_mem_toDigits (by decide) (by decide) h

@[simp] theorem ofDigitChars_digits (n : Nat) : Nat.ofDigitChars 10 (digits n) 0 = n :=
  Nat.ofDigitChars_toDigits (by decide) (by decide)

theorem length_digits_le_iff {n k : Nat} (hk : 0 < k) : (digits n).length ≤ k ↔ n < 10 ^ k :=
  Nat.length_toDigits_le_iff (by decide) hk

/-- Only zero is written with a zero in front. -/
theorem head?_digits {n : Nat} (hn : n ≠ 0) : (digits n).head? ≠ some '0' := by
  induction n using Nat.strong_induction_on with
  | _ n ih =>
    rw [digits, Nat.toDigits_eq_if (by decide)]
    split
    · next hlt =>
      interval_cases n <;> first | exact absurd rfl hn | decide
    · have hrest := ih (n / 10) (by omega) (by omega)
      rw [List.head?_append_of_ne_nil _ Nat.toDigits_ne_nil]
      exact hrest

theorem isDigit_of_mem_paddedDigits {width n : Nat} {c : Char} (h : c ∈ paddedDigits width n) :
    c.isDigit = true := by
  rcases List.mem_append.1 h with hzero | hdigit
  · rw [List.eq_of_mem_replicate hzero]
    decide
  · exact isDigit_of_mem_digits hdigit

theorem paddedDigits_ne_nil (width n : Nat) : paddedDigits width n ≠ [] := by
  rw [paddedDigits, Ne, List.append_eq_nil_iff]
  exact fun h => digits_ne_nil n h.2

@[simp] theorem ofDigitChars_paddedDigits (width n : Nat) :
    Nat.ofDigitChars 10 (paddedDigits width n) 0 = n := by
  simp [paddedDigits, Nat.ofDigitChars_append, Nat.ofDigitChars_replicate_zero]

theorem le_length_paddedDigits (width n : Nat) : width ≤ (paddedDigits width n).length := by
  rw [paddedDigits, List.length_append, List.length_replicate]
  omega

theorem length_paddedDigits {width n : Nat} (hwidth : 0 < width) (hn : n < 10 ^ width) :
    (paddedDigits width n).length = width := by
  have hle := (length_digits_le_iff hwidth).2 hn
  rw [paddedDigits, List.length_append, List.length_replicate]
  omega

theorem paddedDigits_eq_cons (width n : Nat) :
    ∃ c rest, paddedDigits width n = c :: rest ∧ c.isDigit = true := by
  obtain ⟨c, rest, h⟩ := List.exists_cons_of_ne_nil (paddedDigits_ne_nil width n)
  exact ⟨c, rest, h, isDigit_of_mem_paddedDigits (h ▸ List.mem_cons_self)⟩

/-! ## Reading digits -/

theorem readDigits_of_all {ds : List Char} (hne : ds ≠ []) (hds : ∀ c ∈ ds, c.isDigit = true) :
    readDigits ds = some (Nat.ofDigitChars 10 ds 0) := by
  rw [readDigits, if_pos ⟨hne, List.all_eq_true.2 hds⟩]

@[simp] theorem readDigits_paddedDigits (width n : Nat) :
    readDigits (paddedDigits width n) = some n := by
  rw [readDigits_of_all (paddedDigits_ne_nil width n) fun c => isDigit_of_mem_paddedDigits,
    ofDigitChars_paddedDigits]

/-- A run of digits is split off whole if no digit follows it. -/
theorem splitDigits_of_all {ds rest : List Char} (hds : ∀ c ∈ ds, c.isDigit = true)
    (hrest : StopsDigits rest) : splitDigits (ds ++ rest) = (ds, rest) := by
  rw [splitDigits, List.takeWhile_append_of_pos hds, List.dropWhile_append_of_pos hds]
  cases rest with
  | nil => simp
  | cons c rest => simp [hrest c rfl]

theorem ofDigitChars_append_replicate (ds : List Char) (k : Nat) :
    Nat.ofDigitChars 10 (ds ++ List.replicate k '0') 0 = Nat.ofDigitChars 10 ds 0 * 10 ^ k := by
  rw [Nat.ofDigitChars_append, Nat.ofDigitChars_replicate_zero, Nat.mul_comm]

theorem le_ofDigitChars (ds : List Char) (n : Nat) : n ≤ Nat.ofDigitChars 10 ds n := by
  induction ds generalizing n with
  | nil => exact le_rfl
  | cons c ds ih =>
    rw [Nat.ofDigitChars_cons]
    exact le_trans (by omega) (ih _)

theorem mul_pow_le_ofDigitChars (ds : List Char) (n : Nat) :
    n * 10 ^ ds.length ≤ Nat.ofDigitChars 10 ds n := by
  induction ds generalizing n with
  | nil => simp
  | cons c ds ih =>
    rw [Nat.ofDigitChars_cons, List.length_cons, Nat.pow_succ', ← Nat.mul_assoc]
    exact le_trans (Nat.mul_le_mul_right _ (by omega)) (ih _)

theorem ofDigitChars_lt {ds : List Char} (hds : ∀ c ∈ ds, c.isDigit = true) (n : Nat) :
    Nat.ofDigitChars 10 ds n < (n + 1) * 10 ^ ds.length := by
  induction ds generalizing n with
  | nil => simp
  | cons c ds ih =>
    have hc := hds c List.mem_cons_self
    simp only [Char.isDigit, Bool.and_eq_true, decide_eq_true_eq, UInt32.le_iff_toNat_le] at hc
    have hhigh : c.toNat ≤ 57 := hc.2
    have hzero : '0'.toNat = 48 := rfl
    rw [Nat.ofDigitChars_cons, List.length_cons, Nat.pow_succ', ← Nat.mul_assoc]
    exact lt_of_lt_of_le (ih (fun d hd => hds d (List.mem_cons_of_mem c hd)) _)
      (Nat.mul_le_mul_right _ (by omega))

/-- Digits that do not start with a zero. -/
theorem pow_le_ofDigitChars {c : Char} {ds : List Char} (hc : c.isDigit = true) (hne : c ≠ '0') :
    10 ^ ds.length ≤ Nat.ofDigitChars 10 (c :: ds) 0 := by
  simp only [Char.isDigit, Bool.and_eq_true, decide_eq_true_eq, UInt32.le_iff_toNat_le] at hc
  have hlow : 48 ≤ c.toNat := hc.1
  have hzero : c.toNat ≠ 48 := fun h => hne (Char.toNat_inj.1 h)
  have hfirst : 1 ≤ c.toNat - '0'.toNat := by
    have hcode : '0'.toNat = 48 := rfl
    omega
  have hle := mul_pow_le_ofDigitChars ds (c.toNat - '0'.toNat)
  rw [Nat.ofDigitChars_cons, Nat.mul_zero, Nat.zero_add]
  exact le_trans (Nat.le_mul_of_pos_left _ hfirst) hle

theorem isDigit_head_append {ds : List Char} (hne : ds ≠ []) (hds : ∀ c ∈ ds, c.isDigit = true)
    (rest : List Char) : ∀ c ∈ (ds ++ rest).head?, c.isDigit = true := by
  obtain ⟨d, ds, rfl⟩ := List.exists_cons_of_ne_nil hne
  rintro c ⟨⟩
  exact hds d List.mem_cons_self

/-! ## White space around digits -/

theorem isBlank_of_isDigit {c : Char} (h : c.isDigit = true) : isBlank c = false := by
  simp only [Char.isDigit, Bool.and_eq_true, decide_eq_true_eq, UInt32.le_iff_toNat_le] at h
  have hlow : 48 ≤ c.toNat := h.1
  have hhigh : c.toNat ≤ 57 := h.2
  rw [isBlank]
  simp
  omega

theorem dropBlank_cons {c : Char} {text : List Char} (h : isBlank c = false) :
    dropBlank (c :: text) = c :: text := by
  simp [dropBlank, h]

theorem trim_of_forall {text : List Char} (h : ∀ c ∈ text, isBlank c = false) :
    trim text = text := by
  have hdrop : ∀ text : List Char, (∀ c ∈ text, isBlank c = false) → dropBlank text = text := by
    intro text h
    cases text with
    | nil => rfl
    | cons c text => exact dropBlank_cons (h c List.mem_cons_self)
  rw [trim, hdrop text h, hdrop text.reverse fun c hc => h c (List.mem_reverse.1 hc),
    List.reverse_reverse]

end Keyset.Text
