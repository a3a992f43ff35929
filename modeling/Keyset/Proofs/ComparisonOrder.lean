import Keyset.Proofs.RoundedIntegers
import Keyset.Proofs.Windows

/-!
# Comparison as an order

Comparison is antisymmetric for all scalars. It is transitive as long as no two integers meet a
number of double precision: by themselves, and beside decimals, integers compare exactly, and a
single integer compares with double-precision numbers as it is rounded. Only where two different
integers are rounded to one number does this number stand on both sides of them.
-/
namespace Keyset

theorem Binary64.compare?_swap (x y : Binary64) :
    y.compare? x = (x.compare? y).map Ordering.swap := by
  rw [compare?, compare?]
  cases x.rank? with
  | none => cases y.rank? <;> rfl
  | some m =>
    cases y.rank? with
    | none => rfl
    | some n => exact congrArg some Std.OrientedOrd.eq_swap

theorem Binary64.compare?_eq_some {x y : Binary64} {order : Ordering}
    (h : x.compare? y = some order) :
    order = compare (x.rank?.getD 0) (y.rank?.getD 0) := by
  rw [compare?] at h
  split at h
  · next hx hy =>
    rw [hx, hy]
    exact (Option.some.inj h).symm
  · cases h

theorem Fixed.compare_swap (x y : Fixed) : y.compare x = (x.compare y).swap := by
  rw [compare_eq_aligned, compare_eq_aligned]
  exact Std.OrientedOrd.eq_swap

theorem Fixed.aligned_ofInt64 (n : Int64) : (ofInt64 n).aligned = n.toInt * tenTo maxScale := by
  have hvalue : (ofInt64 n).coefficient = n.toInt := by
    simp only [coefficient, ofInt64, decide_eq_true_eq]
    split <;> omega
  rw [aligned, hvalue]
  rfl

namespace Scalar

theorem compare?_swap (a b : Scalar) : b.compare? a = (a.compare? b).map Ordering.swap := by
  cases a with
  | null => cases b <;> rfl
  | bool p =>
    cases b with
    | bool q => exact congrArg some Std.OrientedOrd.eq_swap
    | _ => rfl
  | int m =>
    cases b with
    | int n => exact congrArg some Std.OrientedOrd.eq_swap
    | float y => exact Binary64.compare?_swap (.ofInt m.toInt) y
    | decimal e => exact congrArg some (Fixed.compare_swap (.ofInt64 m) e)
    | _ => rfl
  | float x =>
    cases b with
    | int n => exact Binary64.compare?_swap x (.ofInt n.toInt)
    | float y => exact Binary64.compare?_swap x y
    | _ => rfl
  | decimal d =>
    cases b with
    | int n => exact congrArg some (Fixed.compare_swap d (.ofInt64 n))
    | decimal e => exact congrArg some (Fixed.compare_swap d e)
    | _ => rfl
  | text s =>
    cases b with
    | text t => exact congrArg some Std.OrientedOrd.eq_swap
    | _ => rfl
  | date d =>
    cases b with
    | date e => exact congrArg some Std.OrientedOrd.eq_swap
    | _ => rfl
  | datetime s =>
    cases b with
    | datetime t => exact congrArg some Std.OrientedOrd.eq_swap
    | _ => rfl

/-! ## Three scalars -/

def Below (a b : Scalar) : Prop := a.compare? b = some .lt

def AtMost (a b : Scalar) : Prop := a.compare? b = some .lt ∨ a.compare? b = some .eq

/-- Comparison is transitive at three scalars, if the outer two can be compared. -/
def OrdersThree (a b c : Scalar) : Prop :=
  a.AtMost b → b.AtMost c → (a.compare? c).isSome →
    a.AtMost c ∧ (a.Below b ∨ b.Below c → a.Below c)

/-- Two scalars compare, if at all, as two elements of a linear order do. -/
def ComparesAs {β : Type} [LinearOrder β] (a b : Scalar) (x y : β) : Prop :=
  ∀ order ∈ a.compare? b, order = compare x y

variable {a b c : Scalar}

section

variable {β : Type} [LinearOrder β] {x y z : β}

theorem ComparesAs.atMost_iff (h : ComparesAs a b x y) (hsome : (a.compare? b).isSome) :
    a.AtMost b ↔ x ≤ y := by
  obtain ⟨order, horder⟩ := Option.isSome_iff_exists.1 hsome
  rw [AtMost, horder, h order horder, Option.some.injEq, Option.some.injEq, compare_lt_iff_lt,
    compare_eq_iff_eq, le_iff_lt_or_eq]

theorem ComparesAs.below_iff (h : ComparesAs a b x y) (hsome : (a.compare? b).isSome) :
    a.Below b ↔ x < y := by
  obtain ⟨order, horder⟩ := Option.isSome_iff_exists.1 hsome
  rw [Below, horder, h order horder, Option.some.injEq, compare_lt_iff_lt]

theorem AtMost.isSome (h : a.AtMost b) : (a.compare? b).isSome := by
  rcases h with h | h <;> rw [h] <;> rfl

/-- Scalars that compare as three elements of one linear order are ordered. -/
theorem ordersThree_of_comparesAs (hab : ComparesAs a b x y) (hbc : ComparesAs b c y z)
    (hac : ComparesAs a c x z) : OrdersThree a b c := by
  intro hle hle' hsome
  have hxy := (hab.atMost_iff hle.isSome).1 hle
  have hyz := (hbc.atMost_iff hle'.isSome).1 hle'
  refine ⟨(hac.atMost_iff hsome).2 (le_trans hxy hyz), fun hstrict => (hac.below_iff hsome).2 ?_⟩
  rcases hstrict with hlt | hlt
  · exact lt_of_lt_of_le ((hab.below_iff hle.isSome).1 hlt) hyz
  · exact lt_of_le_of_lt hxy ((hbc.below_iff hle'.isSome).1 hlt)

end

/-! ## Comparison without rounding -/

def isFloat : Scalar → Bool
  | .float _ => true
  | _ => false

/-- The rank of a scalar where integers stand among the decimals. -/
def exactRank : Scalar → Rank
  | .int n => .number (n.toInt * tenTo maxScale)
  | a => a.rank

theorem compare_mul_tenTo (m n : Int) :
    compare (m * tenTo maxScale) (n * tenTo maxScale) = compare m n := by
  have hscale : (0 : Int) < tenTo maxScale := by exact_mod_cast tenTo_pos _
  rw [← cmp_eq_compare, ← cmp_eq_compare, cmp_mul_pos_right hscale]

theorem comparesAs_exactRank (ha : a.isFloat = false) (hb : b.isFloat = false) :
    ComparesAs a b a.exactRank b.exactRank := by
  intro order horder
  -- An integer and a decimal meet as decimals, and all other comparable scalars are of one kind.
  cases a <;> cases b <;>
    simp_all [isFloat, compare?, exactRank, rank, Fixed.compare_eq_aligned, Fixed.aligned_ofInt64,
      compare_mul_tenTo, compare_bool]

/-! ## Comparison beside a number of double precision -/

def besideFloat : Scalar → Bool
  | .null => true
  | .int _ => true
  | .float _ => true
  | _ => false

theorem besideFloat_of_compare? {x : Binary64} (h : (a.compare? (.float x)).isSome) :
    a.besideFloat = true := by
  cases a with
  | null => rfl
  | int n => rfl
  | float y => rfl
  | _ => cases h

theorem isSome_compare?_swap : (b.compare? a).isSome = (a.compare? b).isSome := by
  rw [compare?_swap a b, Option.isSome_map]

/-- The rank of a scalar where integers stand among the numbers of double precision. -/
def roundedRank : Scalar → Rank
  | .int n => .number (Binary64.ofIntRank n.toInt)
  | a => a.rank

theorem comparesAs_roundedRank (ha : a.besideFloat = true) (hb : b.besideFloat = true)
    (hints : ¬ ∃ m n, a = .int m ∧ b = .int n) :
    ComparesAs a b a.roundedRank b.roundedRank := by
  intro order horder
  cases a with
  | null => cases b <;> simp_all [besideFloat, compare?, roundedRank, rank]
  | int m =>
    cases b with
    | null => simp_all [compare?, roundedRank, rank]
    | int n => exact absurd ⟨m, n, rfl, rfl⟩ hints
    | float y =>
      rw [Binary64.compare?_eq_some horder, Binary64.rank?_ofInt]
      exact (Rank.compare_number _ _).symm
    | _ => cases hb
  | float x =>
    cases b with
    | null => simp_all [compare?, roundedRank, rank]
    | int n =>
      rw [Binary64.compare?_eq_some horder, Binary64.rank?_ofInt]
      exact (Rank.compare_number _ _).symm
    | float y =>
      rw [Binary64.compare?_eq_some horder]
      exact (Rank.compare_number _ _).symm
    | _ => cases hb
  | _ => cases ha

/-! ## Two integers and a number of double precision -/

/-- Two different integers are rounded to one number, which then stands on the wrong side of one of
them. -/
inductive RoundsTogether : Scalar → Scalar → Scalar → Prop
  | below {m n : Int64} {x : Binary64} (hm : (int m).compare? (float x) = some .eq)
      (hn : (int n).compare? (float x) = some .eq) (hlt : m.toInt < n.toInt) :
      RoundsTogether (.int m) (.int n) (.float x)
  | above {m n : Int64} {x : Binary64} (hm : (int m).compare? (float x) = some .eq)
      (hn : (int n).compare? (float x) = some .eq) (hlt : m.toInt < n.toInt) :
      RoundsTogether (.float x) (.int m) (.int n)
  | between {m n : Int64} {x : Binary64} (hm : (int m).compare? (float x) = some .eq)
      (hn : (int n).compare? (float x) = some .eq) (hlt : n.toInt < m.toInt) :
      RoundsTogether (.int m) (.float x) (.int n)

theorem RoundsTogether.not_ordersThree (h : RoundsTogether a b c) : ¬ OrdersThree a b c := by
  intro horders
  cases h with
  | @below m n x hm hn hlt =>
    have hmn : Below (.int m) (.int n) := congrArg some (compare_lt_iff_lt.2 hlt)
    obtain ⟨_, hstrict⟩ := horders (.inl hmn) (.inr hn) (by rw [hm]; rfl)
    have hbelow : (int m).compare? (.float x) = some .lt := hstrict (.inl hmn)
    rw [hm] at hbelow
    cases hbelow
  | @above m n x hm hn hlt =>
    have hmn : Below (.int m) (.int n) := congrArg some (compare_lt_iff_lt.2 hlt)
    have hxm : (float x).compare? (.int m) = some .eq := by rw [compare?_swap (.int m), hm]; rfl
    have hxn : (float x).compare? (.int n) = some .eq := by rw [compare?_swap (.int n), hn]; rfl
    obtain ⟨_, hstrict⟩ := horders (.inr hxm) (.inl hmn) (by rw [hxn]; rfl)
    have hbelow : (float x).compare? (.int n) = some .lt := hstrict (.inr hmn)
    rw [hxn] at hbelow
    cases hbelow
  | @between m n x hm hn hlt =>
    have hxn : (float x).compare? (.int n) = some .eq := by rw [compare?_swap (.int n), hn]; rfl
    have hmn : (int m).compare? (.int n) = some .gt := congrArg some (compare_gt_iff_gt.2 hlt)
    obtain ⟨hle, _⟩ := horders (.inr hm) (.inr hxn) (by rw [hmn]; rfl)
    rw [AtMost, hmn] at hle
    rcases hle with h | h <;> cases h

theorem comparesAs_int (m n : Int64) : ComparesAs (.int m) (.int n) m.toInt n.toInt :=
  fun _ horder => (Option.some.inj horder).symm

theorem comparesAs_int_float (n : Int64) (x : Binary64) :
    ComparesAs (.int n) (.float x) (Binary64.ofIntRank n.toInt) (x.rank?.getD 0) := by
  intro order horder
  rw [Binary64.compare?_eq_some horder, Binary64.rank?_ofInt]
  rfl

theorem comparesAs_float_int (x : Binary64) (n : Int64) :
    ComparesAs (.float x) (.int n) (x.rank?.getD 0) (Binary64.ofIntRank n.toInt) := by
  intro order horder
  rw [Binary64.compare?_eq_some horder, Binary64.rank?_ofInt]
  rfl

/-- An integer is equal to the number that is nearest to it. -/
theorem compare?_int_float_eq {n : Int64} {x : Binary64}
    (hsome : ((int n).compare? (float x)).isSome)
    (h : Binary64.ofIntRank n.toInt = x.rank?.getD 0) :
    (int n).compare? (float x) = some .eq := by
  obtain ⟨order, horder⟩ := Option.isSome_iff_exists.1 hsome
  rw [horder, comparesAs_int_float n x order horder, h, compare_eq_iff_eq.2 rfl]

theorem ordersThree_int_int_float {m n : Int64} {x : Binary64}
    (h : ¬ RoundsTogether (.int m) (.int n) (.float x)) :
    OrdersThree (.int m) (.int n) (.float x) := by
  intro hle hle' hsome
  have hmn := ((comparesAs_int m n).atMost_iff hle.isSome).1 hle
  have hnx := ((comparesAs_int_float n x).atMost_iff hle'.isSome).1 hle'
  have hround := Binary64.ofIntRank_mono hmn
  refine ⟨((comparesAs_int_float m x).atMost_iff hsome).2 (hround.trans hnx), fun hstrict =>
    ((comparesAs_int_float m x).below_iff hsome).2 ?_⟩
  rcases hstrict with hlt | hlt
  · have hmn := ((comparesAs_int m n).below_iff hle.isSome).1 hlt
    refine lt_of_le_of_ne (hround.trans hnx) fun hm => h ?_
    -- The larger integer stands between, and is rounded to the same number.
    have hn := le_antisymm hnx (hm.symm.le.trans hround)
    exact .below (compare?_int_float_eq hsome hm) (compare?_int_float_eq hle'.isSome hn) hmn
  · exact lt_of_le_of_lt hround (((comparesAs_int_float n x).below_iff hle'.isSome).1 hlt)

theorem ordersThree_float_int_int {m n : Int64} {x : Binary64}
    (h : ¬ RoundsTogether (.float x) (.int m) (.int n)) :
    OrdersThree (.float x) (.int m) (.int n) := by
  intro hle hle' hsome
  have hxm := ((comparesAs_float_int x m).atMost_iff hle.isSome).1 hle
  have hmn := ((comparesAs_int m n).atMost_iff hle'.isSome).1 hle'
  have hround := Binary64.ofIntRank_mono hmn
  refine ⟨((comparesAs_float_int x n).atMost_iff hsome).2 (hxm.trans hround), fun hstrict =>
    ((comparesAs_float_int x n).below_iff hsome).2 ?_⟩
  rcases hstrict with hlt | hlt
  · exact lt_of_lt_of_le (((comparesAs_float_int x m).below_iff hle.isSome).1 hlt) hround
  · have hmn := ((comparesAs_int m n).below_iff hle'.isSome).1 hlt
    refine lt_of_le_of_ne (hxm.trans hround) fun hn => h ?_
    have hm := le_antisymm (hround.trans hn.symm.le) hxm
    have hmsome := isSome_compare?_swap.trans hle.isSome
    have hnsome := isSome_compare?_swap.trans hsome
    exact .above (compare?_int_float_eq hmsome hm) (compare?_int_float_eq hnsome hn.symm) hmn

theorem ordersThree_int_float_int {m n : Int64} {x : Binary64}
    (h : ¬ RoundsTogether (.int m) (.float x) (.int n)) :
    OrdersThree (.int m) (.float x) (.int n) := by
  intro hle hle' hsome
  have hmx := ((comparesAs_int_float m x).atMost_iff hle.isSome).1 hle
  have hxn := ((comparesAs_float_int x n).atMost_iff hle'.isSome).1 hle'
  have hnsome := isSome_compare?_swap.trans hle'.isSome
  refine ⟨((comparesAs_int m n).atMost_iff hsome).2 ?_, fun hstrict =>
    ((comparesAs_int m n).below_iff hsome).2 ?_⟩
  · by_contra hgt
    have hround := Binary64.ofIntRank_mono (not_le.1 hgt).le
    have hm := le_antisymm hmx (hxn.trans hround)
    have hn := le_antisymm (hround.trans hmx) hxn
    exact h (.between (compare?_int_float_eq hle.isSome hm) (compare?_int_float_eq hnsome hn)
      (not_le.1 hgt))
  · refine Binary64.ofIntRank_mono.reflect_lt ?_
    rcases hstrict with hlt | hlt
    · exact lt_of_lt_of_le (((comparesAs_int_float m x).below_iff hle.isSome).1 hlt) hxn
    · exact lt_of_le_of_lt hmx (((comparesAs_float_int x n).below_iff hle'.isSome).1 hlt)

/-! ## Which scalars are ordered -/

theorem isFloat_iff : a.isFloat = true ↔ ∃ x, a = .float x := by
  cases a <;> simp [isFloat]

theorem besideFloat_of_isFloat (hab : (a.compare? b).isSome) (hbc : (b.compare? c).isSome)
    (hac : (a.compare? c).isSome)
    (h : a.isFloat = true ∨ b.isFloat = true ∨ c.isFloat = true) :
    a.besideFloat = true ∧ b.besideFloat = true ∧ c.besideFloat = true := by
  rcases h with h | h | h
  · obtain ⟨x, rfl⟩ := isFloat_iff.1 h
    exact ⟨rfl, besideFloat_of_compare? (isSome_compare?_swap.trans hab),
      besideFloat_of_compare? (isSome_compare?_swap.trans hac)⟩
  · obtain ⟨x, rfl⟩ := isFloat_iff.1 h
    exact ⟨besideFloat_of_compare? hab, rfl,
      besideFloat_of_compare? (isSome_compare?_swap.trans hbc)⟩
  · obtain ⟨x, rfl⟩ := isFloat_iff.1 h
    exact ⟨besideFloat_of_compare? hac, besideFloat_of_compare? hbc, rfl⟩

theorem ordersThree_of_not_roundsTogether (h : ¬ RoundsTogether a b c) : OrdersThree a b c := by
  by_cases hfloat : a.isFloat = true ∨ b.isFloat = true ∨ c.isFloat = true
  · intro hle hle' hsome
    obtain ⟨ha, hb, hc⟩ := besideFloat_of_isFloat hle.isSome hle'.isSome hsome hfloat
    refine (?_ : OrdersThree a b c) hle hle' hsome
    -- Where two of the scalars are integers, the third one is the number of double precision.
    by_cases hab : ∃ m n, a = .int m ∧ b = .int n
    · obtain ⟨m, n, rfl, rfl⟩ := hab
      obtain ⟨x, rfl⟩ := isFloat_iff.1 (by simpa [isFloat] using hfloat)
      exact ordersThree_int_int_float h
    by_cases hbc : ∃ m n, b = .int m ∧ c = .int n
    · obtain ⟨m, n, rfl, rfl⟩ := hbc
      obtain ⟨x, rfl⟩ := isFloat_iff.1 (by simpa [isFloat] using hfloat)
      exact ordersThree_float_int_int h
    by_cases hac : ∃ m n, a = .int m ∧ c = .int n
    · obtain ⟨m, n, rfl, rfl⟩ := hac
      obtain ⟨x, rfl⟩ := isFloat_iff.1 (by simpa [isFloat] using hfloat)
      exact ordersThree_int_float_int h
    exact ordersThree_of_comparesAs (comparesAs_roundedRank ha hb hab)
      (comparesAs_roundedRank hb hc hbc) (comparesAs_roundedRank ha hc hac)
  · simp only [not_or, Bool.not_eq_true] at hfloat
    obtain ⟨ha, hb, hc⟩ := hfloat
    exact ordersThree_of_comparesAs (comparesAs_exactRank ha hb) (comparesAs_exactRank hb hc)
      (comparesAs_exactRank ha hc)

/-- Integers up to 2 to the power 53 are not rounded together. -/
theorem not_roundsTogether_of_natAbs_le
    (h : ∀ n, .int n ∈ [a, b, c] → n.toInt.natAbs ≤ twoTo 53) : ¬ RoundsTogether a b c := by
  have hsame {m n : Int64} {x : Binary64} (hm : (int m).compare? (float x) = some .eq)
      (hn : (int n).compare? (float x) = some .eq) (hm53 : m.toInt.natAbs ≤ twoTo 53)
      (hn53 : n.toInt.natAbs ≤ twoTo 53) : m.toInt = n.toInt := by
    have hmx := compare_eq_iff_eq.1 (comparesAs_int_float m x _ hm).symm
    have hnx := compare_eq_iff_eq.1 (comparesAs_int_float n x _ hn).symm
    exact Binary64.ofIntRank_inj hm53 hn53 (hmx.trans hnx.symm)
  intro htogether
  cases htogether with
  | below hm hn hlt => exact hlt.ne (hsame hm hn (h _ (by simp)) (h _ (by simp)))
  | above hm hn hlt => exact hlt.ne (hsame hm hn (h _ (by simp)) (h _ (by simp)))
  | between hm hn hlt => exact hlt.ne (hsame hn hm (h _ (by simp)) (h _ (by simp)))

/-- Comparison turned round exchanges less and greater, and it is transitive at just those three
scalars that are not two integers rounded to one number; up to 2 to the power 53, no integers are. -/
theorem compare?_ordersThree_iff (a b c : Scalar) :
    b.compare? a = (a.compare? b).map Ordering.swap ∧
    (OrdersThree a b c ↔ ¬ RoundsTogether a b c) ∧
    ((∀ n, .int n ∈ [a, b, c] → n.toInt.natAbs ≤ twoTo 53) → OrdersThree a b c) := by
  have hiff : OrdersThree a b c ↔ ¬ RoundsTogether a b c :=
    ⟨fun horders htogether => htogether.not_ordersThree horders,
      ordersThree_of_not_roundsTogether⟩
  exact ⟨compare?_swap a b, hiff, fun hsmall => hiff.2 (not_roundsTogether_of_natAbs_le hsmall)⟩

/-- The largest integer with neighbours on both sides, beside the number it is equal to. -/
theorem compare?_ordersThree_largest :
    (int 9007199254740991).AtMost (.float (.ofInt 9007199254740992)) ∧
      (float (.ofInt 9007199254740992)).AtMost (.int 9007199254740992) ∧
      (int 9007199254740991).Below (.int 9007199254740992) := by
  have hsmall : ∀ n, .int n ∈ [int 9007199254740991, float (.ofInt 9007199254740992),
      int 9007199254740992] → n.toInt.natAbs ≤ twoTo 53 := by
    intro n hn
    simp only [List.mem_cons, int.injEq, reduceCtorEq, List.not_mem_nil, or_false, false_or] at hn
    rcases hn with rfl | rfl <;> decide +kernel
  have hleft : (int 9007199254740991).compare? (.float (.ofInt 9007199254740992)) = some .lt := by
    decide +kernel
  have hright : (float (.ofInt 9007199254740992)).compare? (.int 9007199254740992) = some .eq := by
    decide +kernel
  have horders := (compare?_ordersThree_iff _ _ _).2.2 hsmall
  exact ⟨.inl hleft, .inr hright, (horders (.inl hleft) (.inr hright) rfl).2 (.inl hleft)⟩

/-- The smallest integer that is rounded is equal to the number below it, and this to the integer
below, but the two integers are not in this order. -/
theorem exists_not_ordersThree :
    (int 9007199254740993).AtMost (.float (.ofInt 9007199254740992)) ∧
      (float (.ofInt 9007199254740992)).AtMost (.int 9007199254740992) ∧
      (int 9007199254740992).Below (.int 9007199254740993) ∧
      ¬ OrdersThree (.int 9007199254740993) (.float (.ofInt 9007199254740992))
        (.int 9007199254740992) := by
  have hleft : (int 9007199254740993).compare? (.float (.ofInt 9007199254740992)) = some .eq := by
    decide +kernel
  have hright : (float (.ofInt 9007199254740992)).compare? (.int 9007199254740992) = some .eq := by
    decide +kernel
  refine ⟨.inr hleft, .inr hright, rfl, fun horders => ?_⟩
  obtain ⟨hle, _⟩ := horders (.inr hleft) (.inr hright) rfl
  rcases hle with h | h <;> cases h

end Scalar
end Keyset
