import Keyset.Scalar.Codec
import Keyset.Proofs.CalendarTexts
import Keyset.Proofs.DecimalTexts
import Keyset.Proofs.JsonTexts
import Keyset.Proofs.TokenWindows

/-!
# The values of tokens

A scalar goes into a token and comes back from it as an equal one. Where it goes as a text, this is
the round trip of the text; the double-precision numbers are the only ones that do not all have a
JSON number.
-/
namespace Keyset

namespace Scalar

/-- The places of a decimal, which its equality does not see. -/
def places? : Scalar → Option Nat
  | .decimal d => some d.scale
  | _ => none

def isInfinite : Scalar → Bool
  | .float (.infinite _) => true
  | _ => false

theorem same_comm {kind : ScalarKind} {a b : Scalar} (ha : a.fits kind = true)
    (hb : b.fits kind = true) : a.same b = b.same a := by
  rw [Bool.eq_iff_iff, same_iff ha hb, same_iff hb ha, eq_comm]

theorem same_self {kind : ScalarKind} {a : Scalar} (ha : a.fits kind = true) :
    a.same a = true :=
  (same_iff ha ha).2 rfl

theorem isInfinite_of_fits {kind : ScalarKind} {a : Scalar} (hkind : kind ≠ .float)
    (ha : a.fits kind = true) : a.isInfinite = false := by
  cases a with
  | float x => cases x <;> simp_all [fits]
  | _ => rfl

theorem within_toJson (v : Scalar) {depth : Nat} : v.toJson.Within depth := by
  cases v with
  | null => exact .null
  | bool b => exact .bool b
  | int n =>
    have hlow := n.le_toInt
    have hhigh := n.toInt_lt
    apply Json.Value.Within.number
    rw [Json.Number.fits, decide_eq_true_eq]
    omega
  | float x => cases x with
    | nan => exact .null
    | infinite negative => exact .null
    | finite x => exact .number rfl
  | decimal d => exact .string _
  | text s => exact .string s
  | date d => exact .string _
  | datetime t => exact .string _

end Scalar

namespace ScalarKind

variable {kind : ScalarKind} {v : Scalar}

/-- All scalars but the infinities come back from their JSON values. -/
theorem exists_ofJson?_toJson (hfit : v.fits kind = true) (hfinite : v.isInfinite = false) :
    ∃ w, kind.ofJson? v.toJson = some w ∧ w.same v = true ∧ w.places? = v.places? := by
  have hself := Scalar.same_self hfit
  cases v with
  | null => exact ⟨.null, by cases kind <;> rfl, rfl, rfl⟩
  | bool b =>
    obtain rfl := beq_iff_eq.1 hfit
    exact ⟨_, rfl, hself, rfl⟩
  | int n =>
    obtain rfl := beq_iff_eq.1 hfit
    have hlow := n.le_toInt
    have hhigh := n.toInt_lt
    refine ⟨.int n, ?_, hself, rfl⟩
    simp [Scalar.toJson, Json.Value.integer, ofJson?, Json.Number.toInt64?]
    omega
  | float x => cases x with
    | nan => cases hfit
    | infinite negative => cases hfinite
    | finite x =>
      obtain rfl := beq_iff_eq.1 hfit
      exact ⟨_, rfl, hself, rfl⟩
  | decimal d =>
    obtain rfl := beq_iff_eq.1 hfit
    refine ⟨.decimal d.withoutZeroSign, ?_, ?_, rfl⟩
    · simp [Scalar.toJson, ofJson?, Fixed.read?_trim_render]
    · simp [Scalar.same, Fixed.compare_withoutZeroSign]
  | text s =>
    obtain rfl := beq_iff_eq.1 hfit
    exact ⟨_, rfl, hself, rfl⟩
  | date d =>
    obtain rfl := beq_iff_eq.1 hfit
    refine ⟨.date d, ?_, hself, rfl⟩
    simp [Scalar.toJson, ofJson?, Date.read?_render]
  | datetime t =>
    obtain rfl := beq_iff_eq.1 hfit
    refine ⟨.datetime t, ?_, hself, rfl⟩
    simp [Scalar.toJson, ofJson?, Instant.read?_render]

/-- Of every kind but that of double-precision numbers, each scalar comes back from its token value as
an equal one, and each decimal with its places. -/
theorem decode_toJson (hkind : kind ≠ .float) (hfit : v.fits kind = true) :
    ∃ w, kind.decode v.toJson = .ok w ∧ w.same v = true ∧ w.places? = v.places? := by
  obtain ⟨w, hw, hsame⟩ := exists_ofJson?_toJson hfit (Scalar.isInfinite_of_fits hkind hfit)
  exact ⟨w, by rw [decode, hw], hsame⟩

/-- A leap second before the year one has all that texts of instants can have. -/
theorem decode_toJson_leapSecond : ∃ w,
    ScalarKind.datetime.decode
      (Scalar.datetime ⟨⟨-44, 12, 31, by decide⟩, 86399, 1500000000, by decide⟩).toJson = .ok w ∧
    w.same (.datetime ⟨⟨-44, 12, 31, by decide⟩, 86399, 1500000000, by decide⟩) = true ∧
    w.places? = none :=
  decode_toJson (by decide) (by decide)

end ScalarKind

theorem SortKey.decodesBack_of_finite {R : Type} [Record R] {key : SortKey} {records : List R}
    (hsuits : key.Suits records) (hfinite : ∀ r ∈ records, (key.scalarOf r).isInfinite = false) :
    key.DecodesBack records := by
  intro r hr
  have hfit := hsuits.fits r hr
  obtain ⟨w, hw, hsame, _⟩ := ScalarKind.exists_ofJson?_toJson hfit (hfinite r hr)
  have hfit' := ScalarKind.fits_of_ofJson? hw
  exact ⟨w, hw, (Scalar.same_comm hfit hfit').trans hsame⟩

end Keyset
