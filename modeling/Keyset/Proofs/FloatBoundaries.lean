import Keyset.Proofs.TokenTexts
import Keyset.Proofs.TokenValues

/-!
# Boundaries of double precision

A finite number passes through a token bit for bit, so a boundary at it selects the same records as
before. JSON has no other numbers: an infinity becomes null on its way, and null is below them all.
-/
namespace Keyset

/-! ## The place of a number -/

namespace Scalar

def isFloatOrNull : Scalar → Bool
  | .null => true
  | .float _ => true
  | _ => false

def isFiniteFloat : Scalar → Bool
  | .float (.finite _) => true
  | _ => false

/-- A scalar that compares with null and with all numbers of double precision as another does. -/
def TakesPlaceOf (w v : Scalar) : Prop :=
  ∀ c : Scalar, c.isFloatOrNull = true → w.compare? c = v.compare? c ∧ c.compare? w = c.compare? v

theorem takesPlaceOf_self (v : Scalar) : v.TakesPlaceOf v := fun _ _ => ⟨rfl, rfl⟩

theorem not_takesPlaceOf_float (x : Binary64) : ¬ null.TakesPlaceOf (.float x) := by
  intro h
  cases (h .null rfl).1

def afterToken (x : Binary64) : Scalar :=
  if (float x).isFiniteFloat then .float x else .null

theorem decode_toJson_float (x : Binary64) :
    ScalarKind.float.decode (float x).toJson = .ok (afterToken x) := by
  cases x <;> rfl

theorem afterToken_takesPlaceOf_iff (x : Binary64) :
    (afterToken x).TakesPlaceOf (.float x) ↔ (float x).isFiniteFloat = true := by
  by_cases h : (float x).isFiniteFloat = true
  · rw [afterToken, if_pos h]
    exact iff_of_true (takesPlaceOf_self _) h
  · rw [afterToken, if_neg h]
    exact iff_of_false (not_takesPlaceOf_float x) h

end Scalar

/-! ## What a boundary selects -/

namespace Paginator

variable {C R E : Type} [Store C R E]

/-- The records that are selected by the text of a token. -/
def selectedBy (p : Paginator C) (text : String) (downwards : Bool) :
    Except (PageError E) C := do
  let token ← (Token.decode text).mapError .token
  let v ← p.boundary token
  p.view v downwards

theorem selectedBy_encode {p : Paginator C} (hkind : p.key.kind = .float) {token : Token}
    {x : Binary64} (hvalue : token.value = some (Scalar.float x).toJson)
    (hoffset : token.offset < Token.offsetLimit) (downwards : Bool) :
    p.selectedBy token.encode downwards = p.view (.afterToken x) downwards := by
  have hboundary : p.boundary token = (.ok (.afterToken x) : Except (PageError E) Scalar) := by
    simp only [boundary, hvalue, hkind, Scalar.decode_toJson_float]
    rfl
  have hback : Token.decode token.encode = .ok token :=
    Token.decode_encode_of_lt hoffset fun v hv => by
      rw [hvalue] at hv
      exact Option.some.inj hv ▸ Scalar.within_toJson _
  have hselected : p.selectedBy token.encode downwards =
      (p.boundary token).bind fun v => p.view v downwards := by
    rw [selectedBy, hback]
    rfl
  rw [hselected, hboundary]
  rfl

end Paginator

/-- The finite numbers of double precision, and no others, keep their place among all keys in a
token, and a boundary at one of them selects the same records after the token was a text. -/
theorem float_boundary (x : Binary64) : ∃ w,
    ScalarKind.float.decode (Scalar.float x).toJson = .ok w ∧
    (w.TakesPlaceOf (.float x) ↔ (Scalar.float x).isFiniteFloat = true) ∧
    ((Scalar.float x).isFiniteFloat = false → w = .null) ∧
    ((Scalar.float x).isFiniteFloat = true → ∀ {C R E : Type} [Store C R E] (p : Paginator C),
      p.key.kind = .float → ∀ token : Token, token.value = some (Scalar.float x).toJson →
        token.offset < Token.offsetLimit → ∀ downwards,
          p.selectedBy token.encode downwards = p.view (.float x) downwards) := by
  refine ⟨.afterToken x, Scalar.decode_toJson_float x, Scalar.afterToken_takesPlaceOf_iff x, ?_, ?_⟩
  · intro h
    rw [Scalar.afterToken, h]
    rfl
  · intro h C R E _ p hkind token hvalue hoffset downwards
    rw [Paginator.selectedBy_encode hkind hvalue hoffset, Scalar.afterToken, if_pos h]

theorem float_boundary_smallest : ∃ w,
    ScalarKind.float.decode (Scalar.float (.finite ⟨true, 1, by decide⟩)).toJson = .ok w ∧
    w.TakesPlaceOf (.float (.finite ⟨true, 1, by decide⟩)) := by
  obtain ⟨w, hdecode, hplace, _⟩ := float_boundary (.finite ⟨true, 1, by decide⟩)
  exact ⟨w, hdecode, hplace.2 rfl⟩

/-- An infinity is above zero, but below it once it went through a token. -/
theorem not_takesPlaceOf_infinity : ∃ w,
    ScalarKind.float.decode (Scalar.float (.infinite false)).toJson = .ok w ∧
    (Binary64.infinite false).compare? (.infinite false) = some .eq ∧
    (Scalar.float (.infinite false)).compare? (.float (.finite ⟨false, 0, by decide⟩)) = some .gt ∧
    w.compare? (.float (.finite ⟨false, 0, by decide⟩)) = some .lt :=
  ⟨.null, rfl, by decide, by decide, by decide⟩

end Keyset
