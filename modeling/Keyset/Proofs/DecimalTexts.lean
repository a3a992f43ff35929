import Keyset.Proofs.DigitTexts
import Keyset.Proofs.ScalarOrder

/-!
# Decimals read back

The reader stops counting digits when the magnitude or the places exceed their limits. The digits of
a decimal never make it stop, since each prefix of them is at most the magnitude.
-/
namespace Keyset.Fixed

open Text

/-! ## Digits that all count -/

/-- Digits that have a place after what has been read. -/
structure Reading.Takes (reading : Reading) (ds : List Char) : Prop where
  isDigit : ∀ c ∈ ds, c.isDigit = true
  places : reading.pointed = true → reading.scale + ds.length ≤ maxScale
  whole : reading.pointed = false → reading.scale = 0
  lt : Nat.ofDigitChars 10 ds reading.magnitude < magnitudeLimit

def Reading.after (reading : Reading) (ds : List Char) (wide : Bool) : Reading where
  magnitude := Nat.ofDigitChars 10 ds reading.magnitude
  scale := if reading.pointed then reading.scale + ds.length else 0
  pointed := reading.pointed
  started := reading.started || !ds.isEmpty
  wide := wide

variable {reading : Reading} {c : Char} {ds rest : List Char} {wide : Bool}

theorem Reading.after_singleton (reading : Reading) (c : Char) (wide : Bool) :
    reading.after [c] wide = ⟨reading.magnitude * 10 + (c.toNat - '0'.toNat),
      if reading.pointed then reading.scale + 1 else 0, reading.pointed, true, wide⟩ := by
  simp [after, Nat.ofDigitChars_cons, Nat.mul_comm 10]

theorem Reading.after_after (w w' : Bool) :
    (reading.after [c] w).after ds w' = reading.after (c :: ds) w' := by
  cases h : reading.pointed <;> simp [after, h, Nat.ofDigitChars_cons]
  omega

theorem Reading.Takes.tail (h : reading.Takes (c :: ds)) (wide : Bool) :
    (reading.after [c] wide).Takes ds where
  isDigit d hd := h.isDigit d (List.mem_cons_of_mem c hd)
  places hpointed := by
    have hplaces := h.places hpointed
    simp only [after, List.length_cons, List.length_nil] at hpointed hplaces ⊢
    rw [if_pos hpointed]
    omega
  whole hpointed := by
    simp only [after] at hpointed ⊢
    simp [hpointed]
  lt := by simpa [after, Nat.ofDigitChars_cons] using h.lt

theorem readUnsigned_cons (h : reading.Takes (c :: ds)) (rest : List Char) :
    ∃ wide, readUnsigned reading (c :: rest) = readUnsigned (reading.after [c] wide) rest := by
  have hc := h.isDigit c List.mem_cons_self
  have hlt := h.lt
  rw [Nat.ofDigitChars_cons, Nat.mul_comm 10] at hlt
  have hgrows := le_ofDigitChars ds (reading.magnitude * 10 + (c.toNat - '0'.toNat))
  have hfull : (reading.pointed && reading.scale == maxScale) = false := by
    cases hpointed : reading.pointed with
    | false => rfl
    | true =>
      have hplaces := h.places hpointed
      rw [List.length_cons] at hplaces
      simp
      omega
  have hfits : ¬ magnitudeLimit ≤ reading.magnitude * 10 + (c.toNat - '0'.toNat) := by omega
  rw [readUnsigned]
  simp only [hc, hfull, if_true, Bool.false_eq_true, if_false, hfits]
  exact ⟨_, by rw [Reading.after_singleton]⟩

theorem readUnsigned_append (h : reading.Takes ds) (rest : List Char) :
    ∃ wide, readUnsigned reading (ds ++ rest) = readUnsigned (reading.after ds wide) rest := by
  induction ds generalizing reading with
  | nil =>
    refine ⟨reading.wide, ?_⟩
    obtain ⟨magnitude, scale, pointed, started, wide⟩ := reading
    cases pointed with
    | true => simp [Reading.after]
    | false => simp [Reading.after, show scale = 0 from h.whole rfl]
  | cons c ds ih =>
    obtain ⟨w, hfirst⟩ := readUnsigned_cons h (ds ++ rest)
    obtain ⟨wide, hrest⟩ := ih (h.tail w)
    rw [List.cons_append, hfirst, hrest, Reading.after_after]
    exact ⟨wide, rfl⟩

theorem readUnsigned_point (hpointed : reading.pointed = false) (rest : List Char) :
    readUnsigned reading ('.' :: rest) = readUnsigned { reading with pointed := true } rest := by
  rw [readUnsigned]
  simp [hpointed]

/-! ## Written decimals -/

/-- Digits with some of them after a point are taken with all their places. -/
theorem exists_readUnsigned_places {whole places : List Char}
    (hwhole : ∀ c ∈ whole, c.isDigit = true) (hplaces : ∀ c ∈ places, c.isDigit = true)
    (hne : whole ≠ []) (hlength : places.length ≤ maxScale)
    (hlt : Nat.ofDigitChars 10 (whole ++ places) 0 < magnitudeLimit) (rest : List Char) :
    ∃ reading : Reading, reading.started = true ∧
      reading.magnitude = Nat.ofDigitChars 10 (whole ++ places) 0 ∧
      reading.scale = places.length ∧
      readUnsigned .empty (whole ++ ((if places.length = 0 then [] else '.' :: places) ++ rest)) =
        readUnsigned reading rest := by
  rw [Nat.ofDigitChars_append] at hlt ⊢
  have hgrows := le_ofDigitChars places (Nat.ofDigitChars 10 whole 0)
  have hstarted : (!whole.isEmpty) = true := by simpa using hne
  have hfirst : Reading.empty.Takes whole :=
    ⟨hwhole, (fun h => by cases h), fun _ => rfl, lt_of_le_of_lt hgrows hlt⟩
  obtain ⟨wide, hread⟩ := readUnsigned_append hfirst
    ((if places.length = 0 then [] else '.' :: places) ++ rest)
  rw [hread]
  by_cases hnone : places.length = 0
  · rw [if_pos hnone, List.length_eq_zero_iff.1 hnone]
    exact ⟨_, by simpa [Reading.after] using Or.inr hne, rfl, rfl, rfl⟩
  · have hsecond : Reading.Takes { Reading.empty.after whole wide with pointed := true } places := by
      refine ⟨hplaces, fun _ => ?_, (fun h => by cases h), hlt⟩
      simpa [Reading.after, Reading.empty] using hlength
    obtain ⟨wide', hread'⟩ := readUnsigned_append hsecond rest
    rw [if_neg hnone, List.cons_append, readUnsigned_point rfl, hread']
    refine ⟨_, ?_, rfl, ?_, rfl⟩
    · simp [Reading.after, hstarted]
    · simp [Reading.after, Reading.empty]

theorem readUnsigned_places {whole places : List Char} (hwhole : ∀ c ∈ whole, c.isDigit = true)
    (hplaces : ∀ c ∈ places, c.isDigit = true) (hne : whole ≠ [])
    (hlength : places.length ≤ maxScale)
    (hlt : Nat.ofDigitChars 10 (whole ++ places) 0 < magnitudeLimit) :
    readUnsigned .empty (whole ++ if places.length = 0 then [] else '.' :: places) =
      some (Nat.ofDigitChars 10 (whole ++ places) 0, places.length) := by
  obtain ⟨reading, hstarted, hmagnitude, hscale, hread⟩ :=
    exists_readUnsigned_places hwhole hplaces hne hlength hlt []
  rw [List.append_nil] at hread
  rw [hread, readUnsigned, if_pos hstarted, hmagnitude, hscale]

/-- A sign in front of a number that starts with a digit. -/
theorem readPlain_append (negative : Bool) {text : List Char}
    (htext : ∀ c ∈ text.head?, c.isDigit = true) :
    readPlain ((if negative then ['-'] else []) ++ text) =
      (readUnsigned .empty text).bind fun (magnitude, scale) =>
        of? (negative && magnitude != 0) magnitude scale := by
  cases negative with
  | true => rfl
  | false =>
    have hsign {c : Char} {rest : List Char} (h : text = c :: rest) : c.isDigit = true :=
      htext c (h ▸ rfl)
    rw [if_neg Bool.false_ne_true, List.nil_append, readPlain]
    · intro rest h
      exact absurd (hsign h) (by decide)
    · intro rest h
      exact absurd (hsign h) (by decide)

/-- The decimal as it is read: a zero has no sign. -/
def withoutZeroSign (x : Fixed) : Fixed := { x with negative := x.negative && x.magnitude != 0 }

theorem compare_withoutZeroSign (x : Fixed) : x.withoutZeroSign.compare x = .eq := by
  have hcoefficient : x.withoutZeroSign.coefficient = x.coefficient := by
    by_cases h : x.magnitude = 0 <;> simp [coefficient, withoutZeroSign, h]
  have hscale : x.withoutZeroSign.scale = x.scale := rfl
  rw [compare, hcoefficient, hscale, compare_eq_iff_eq]

/-- The text of a decimal is a sign and its digits around the point. -/
theorem render_eq (x : Fixed) : ∃ whole places, whole ≠ [] ∧ places.length = x.scale ∧
    (∀ c ∈ whole, c.isDigit = true) ∧ (∀ c ∈ places, c.isDigit = true) ∧
    Nat.ofDigitChars 10 (whole ++ places) 0 = x.magnitude ∧
    x.render = (if x.negative then ['-'] else []) ++
      (whole ++ if places.length = 0 then [] else '.' :: places) := by
  have hlength := le_length_paddedDigits (x.scale + 1) x.magnitude
  have hdigit := fun c (hc : c ∈ paddedDigits (x.scale + 1) x.magnitude) =>
    isDigit_of_mem_paddedDigits hc
  have hvalue := ofDigitChars_paddedDigits (x.scale + 1) x.magnitude
  rw [render]
  generalize paddedDigits (x.scale + 1) x.magnitude = ds at hlength hdigit hvalue ⊢
  have hplaces : (ds.drop (ds.length - x.scale)).length = x.scale := by
    rw [List.length_drop]
    omega
  refine ⟨ds.take (ds.length - x.scale), ds.drop (ds.length - x.scale), ?_, hplaces,
    fun c hc => hdigit c (List.mem_of_mem_take hc), fun c hc => hdigit c (List.mem_of_mem_drop hc),
    ?_, ?_⟩
  · rw [← List.length_pos_iff, List.length_take]
    omega
  · rw [List.take_append_drop, hvalue]
  · rw [hplaces, List.append_assoc]

theorem readPlain_render (x : Fixed) : readPlain x.render = some x.withoutZeroSign := by
  obtain ⟨whole, places, hne, hscale, hwhole, hplaces, hvalue, hrender⟩ := x.render_eq
  have hread := readUnsigned_places hwhole hplaces hne (hscale.trans_le x.scale_le)
    (hvalue.trans_lt x.magnitude_lt)
  rw [hvalue, hscale] at hread
  rw [hrender, readPlain_append _ (isDigit_head_append hne hwhole _), hscale, hread]
  exact dif_pos ⟨x.magnitude_lt, x.scale_le⟩

theorem isBlank_of_mem_render {x : Fixed} {c : Char} (hc : c ∈ x.render) : isBlank c = false := by
  obtain ⟨whole, places, _, _, hwhole, hplaces, _, hrender⟩ := x.render_eq
  rw [hrender] at hc
  simp only [List.mem_append, List.mem_ite_nil_right, List.mem_ite_nil_left, List.mem_cons,
    List.not_mem_nil, or_false] at hc
  rcases hc with ⟨_, rfl⟩ | hc | ⟨_, rfl | hc⟩
  · decide
  · exact isBlank_of_isDigit (hwhole c hc)
  · decide
  · exact isBlank_of_isDigit (hplaces c hc)

/-- A decimal reads back with its places, and with its sign unless it is zero. -/
theorem read?_trim_render (x : Fixed) : read? (trim x.render) = some x.withoutZeroSign := by
  rw [trim_of_forall fun c => isBlank_of_mem_render, read?, x.readPlain_render, Option.some_or]

end Keyset.Fixed
