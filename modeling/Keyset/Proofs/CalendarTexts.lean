import Keyset.Proofs.DigitTexts
import Keyset.Proofs.ScalarOrder

/-!
# Dates and instants read back

Each part of a date or a time is written in its full width, and a year in as many digits as it needs
behind a sign. A reader of the part takes that many digits, whatever follows; only a signed year is
read up to the hyphen after it.
-/
namespace Keyset

open Text

namespace Date

theorem of?_eq_some (d : Date) : of? d.year d.month d.day = some d := by
  rw [of?, dif_pos d.isDay]

@[simp] theorem expect_cons (c : Char) (text : List Char) : expect c (c :: text) = some text := by
  simp [expect]

/-! ## Reading the parts -/

theorem readNumber_paddedDigits {width n : Nat} (hwidth : 0 < width) (hn : n < 10 ^ width)
    (rest : List Char) : readNumber width (paddedDigits width n ++ rest) = some (n, rest) := by
  have hlength := length_paddedDigits hwidth hn
  have hdrop : dropBlank (paddedDigits width n ++ rest) = paddedDigits width n ++ rest := by
    obtain ⟨c, ds, hcons, hc⟩ := paddedDigits_eq_cons width n
    rw [hcons]
    exact dropBlank_cons (isBlank_of_isDigit hc)
  have htake : (paddedDigits width n ++ rest).take width = paddedDigits width n := by
    rw [List.take_append_of_le_length hlength.ge, List.take_of_length_le hlength.le]
  have hdigits : (paddedDigits width n).takeWhile Char.isDigit = paddedDigits width n := by
    simpa using fun c => isDigit_of_mem_paddedDigits
  simp [readNumber, hdrop, htake, hdigits]

/-- A sign is followed by all digits of the year. -/
private theorem splitDigits_year (n : Nat) {rest : List Char} (hrest : StopsDigits rest) :
    splitDigits (paddedDigits 4 n ++ rest) = (paddedDigits 4 n, rest) :=
  splitDigits_of_all (fun _ => isDigit_of_mem_paddedDigits) hrest

theorem readYear_renderYear (year : Int) {rest : List Char} (hrest : StopsDigits rest) :
    readYear (renderYear year ++ rest) = some (year, rest) := by
  rw [renderYear]
  by_cases hnegative : year < 0
  · have hdrop : dropBlank ('-' :: (paddedDigits 4 year.natAbs ++ rest)) =
        '-' :: (paddedDigits 4 year.natAbs ++ rest) := dropBlank_cons (by decide)
    simp [hnegative, readYear, hdrop, splitDigits_year _ hrest, abs_of_neg hnegative]
  · by_cases hlong : 9999 < year
    · have hdrop : dropBlank ('+' :: (paddedDigits 4 year.natAbs ++ rest)) =
          '+' :: (paddedDigits 4 year.natAbs ++ rest) := dropBlank_cons (by decide)
      simp [hnegative, hlong, readYear, hdrop, splitDigits_year _ hrest,
        abs_of_nonneg (not_lt.1 hnegative)]
    · -- Four digits without a sign: the first one is no sign.
      have hnumber := readNumber_paddedDigits (n := year.natAbs) (by decide : 0 < 4)
        (by omega) rest
      obtain ⟨c, ds, hcons, hc⟩ := paddedDigits_eq_cons 4 year.natAbs
      have hminus : c ≠ '-' := by rintro rfl; exact absurd hc (by decide)
      have hplus : c ≠ '+' := by rintro rfl; exact absurd hc (by decide)
      rw [if_neg hnegative, if_neg hlong, List.nil_append]
      rw [hcons, List.cons_append] at hnumber ⊢
      rw [readYear, dropBlank_cons (isBlank_of_isDigit hc)]
      split
      · next h => exact absurd (List.cons.inj h).1 hminus
      · next h => exact absurd (List.cons.inj h).1 hplus
      · rw [hnumber, Option.map_some, Option.some.injEq, Prod.mk.injEq]
        exact ⟨by omega, rfl⟩

/-! ## Dates -/

theorem readFront_render (d : Date) (rest : List Char) :
    readFront (d.render ++ rest) = some (d, rest) := by
  have hday := d.isDay
  have hlength := monthLength_le d.year d.month
  simp only [IsDay] at hday
  have hmonth := readNumber_paddedDigits (n := d.month) (by decide : 0 < 2) (by omega)
  have hnumber := readNumber_paddedDigits (n := d.day) (by decide : 0 < 2) (by omega)
  have hyear : ∀ text, readYear (renderYear d.year ++ '-' :: text) =
      some (d.year, '-' :: text) :=
    fun text => readYear_renderYear d.year (stopsDigits_cons (by decide))
  simp [readFront, render, hyear, hmonth, hnumber, d.of?_eq_some]

theorem read?_render (d : Date) : read? d.render = some d := by
  have hfront := d.readFront_render []
  rw [List.append_nil] at hfront
  rw [read?, hfront]

end Date

namespace Instant

theorem of?_eq_some (t : Instant) : of? t.date t.second t.nanos = some t := by
  rw [of?, dif_pos t.isTime]

/-- A second billion of nanoseconds is written as second 60. -/
theorem atTime_eq_some (t : Instant) :
    atTime t.date (t.second / 3600) (t.second / 60 % 60) (t.second % 60 + t.nanos / billion)
      (t.nanos % billion) = some t := by
  have htime := t.isTime
  simp only [IsTime, daySeconds, billion] at htime
  simp only [atTime, billion]
  rw [if_neg (by omega)]
  by_cases hleap : t.nanos < 1000000000
  · have hsecond : t.second / 3600 * 3600 + t.second / 60 % 60 * 60 +
        (t.second % 60 + t.nanos / 1000000000) = t.second := by omega
    rw [if_neg (by omega), hsecond, Nat.mod_eq_of_lt hleap, t.of?_eq_some]
  · have hsecond : t.second / 3600 * 3600 + t.second / 60 % 60 * 60 + 59 = t.second := by omega
    have hnanos : 1000000000 + t.nanos % 1000000000 = t.nanos := by omega
    rw [if_pos (by omega), hsecond, hnanos, t.of?_eq_some]

theorem readNanos_paddedDigits {n : Nat} (hn : n < billion) (rest : List Char) :
    readNanos ('.' :: (paddedDigits 9 n ++ rest)) = some (n, rest) := by
  have hlength := length_paddedDigits (by decide : 0 < 9) hn
  have htake : (paddedDigits 9 n ++ rest).take 9 = paddedDigits 9 n := by
    rw [List.take_append_of_le_length hlength.ge, List.take_of_length_le hlength.le]
  have hdrop : (paddedDigits 9 n ++ rest).drop 9 = rest := by
    rw [List.drop_append_of_le_length hlength.ge, List.drop_of_length_le hlength.le,
      List.nil_append]
  rw [readNanos, readFixed]
  simp [htake, hdrop, hlength]

theorem readUniversal_render (t : Instant) : readUniversal t.render = some t := by
  have htime := t.isTime
  simp only [IsTime, daySeconds, billion] at htime
  have hnumber := fun n (hn : n < 10 ^ 2) rest =>
    Date.readNumber_paddedDigits (by decide : 0 < 2) hn rest
  have hhour : t.second / 3600 < 10 ^ 2 := by omega
  have hminute : t.second / 60 % 60 < 10 ^ 2 := by omega
  have hsecond : t.second % 60 + t.nanos / billion < 10 ^ 2 := by
    simp only [billion]
    omega
  have hnanos : t.nanos % billion < billion := Nat.mod_lt _ (by decide)
  simp [readUniversal, render, Date.readFront_render, hnumber _ hhour, hnumber _ hminute,
    hnumber _ hsecond, readNanos_paddedDigits hnanos, t.atTime_eq_some]

theorem read?_render (t : Instant) : read? t.render = some t := by
  rw [read?, t.readUniversal_render, Option.some_or]

end Instant

end Keyset
