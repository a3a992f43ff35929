import Keyset.Page
import Keyset.Proofs.TokenTexts

/-!
# Which JSON values are tokens

A token is an object, or an array of its members in their order. Each member is looked at for
itself, and none of them is needed but the kind of the page. Every other value is refused, and a
token that was read is written as one that is read again.
-/
namespace Keyset

open Text

/-! ## Integers in texts -/

inductive Sign : List Char → Int → Prop
  | none : Sign [] 1
  | plus : Sign ['+'] 1
  | minus : Sign ['-'] (-1)

/-- A text of an integer: decimal digits after an optional sign, with white space around them. -/
inductive SpellsInteger : List Char → Int → Prop
  | intro {front sign ds back : List Char} {factor : Int}
      (hfront : ∀ c ∈ front, isBlank c = true) (hsign : Sign sign factor) (hne : ds ≠ [])
      (hds : ∀ c ∈ ds, c.isDigit = true) (hback : ∀ c ∈ back, isBlank c = true) :
      SpellsInteger (front ++ (sign ++ ds) ++ back) (factor * Nat.ofDigitChars 10 ds 0)

section

variable {text front core back ds : List Char}

theorem exists_dropBlank (text : List Char) :
    ∃ front, (∀ c ∈ front, isBlank c = true) ∧ text = front ++ dropBlank text :=
  ⟨text.takeWhile isBlank, fun _ hc => List.mem_takeWhile_imp hc,
    List.takeWhile_append_dropWhile.symm⟩

theorem exists_trim (text : List Char) : ∃ front back, (∀ c ∈ front, isBlank c = true) ∧
    (∀ c ∈ back, isBlank c = true) ∧ text = front ++ trim text ++ back := by
  obtain ⟨front, hfront, htext⟩ := exists_dropBlank text
  obtain ⟨back, hback, hrest⟩ := exists_dropBlank (dropBlank text).reverse
  refine ⟨front, back.reverse, hfront, fun c hc => hback c (List.mem_reverse.1 hc), ?_⟩
  have hrest := congrArg List.reverse hrest
  rw [List.reverse_reverse, List.reverse_append] at hrest
  rw [List.append_assoc, trim, ← hrest, ← htext]

theorem dropBlank_append (hfront : ∀ c ∈ front, isBlank c = true) (rest : List Char) :
    dropBlank (front ++ rest) = dropBlank rest :=
  List.dropWhile_append_of_pos hfront

theorem dropBlank_core (hcore : ∀ c ∈ core, isBlank c = false) (hne : core ≠ [])
    (rest : List Char) : dropBlank (core ++ rest) = core ++ rest := by
  obtain ⟨c, core, rfl⟩ := List.exists_cons_of_ne_nil hne
  exact dropBlank_cons (hcore c List.mem_cons_self)

theorem trim_append (hfront : ∀ c ∈ front, isBlank c = true)
    (hcore : ∀ c ∈ core, isBlank c = false) (hne : core ≠ [])
    (hback : ∀ c ∈ back, isBlank c = true) : trim (front ++ core ++ back) = core := by
  have hback' : ∀ c ∈ back.reverse, isBlank c = true := fun c hc => hback c (List.mem_reverse.1 hc)
  have hcore' : ∀ c ∈ core.reverse, isBlank c = false := fun c hc => hcore c (List.mem_reverse.1 hc)
  have hne' : core.reverse ≠ [] := by rwa [Ne, List.reverse_eq_nil_iff]
  have hrest := dropBlank_core hcore' hne' []
  rw [List.append_nil] at hrest
  rw [trim, List.append_assoc, dropBlank_append hfront, dropBlank_core hcore hne,
    List.reverse_append, dropBlank_append hback', hrest, List.reverse_reverse]

theorem readDigits_eq_some {n : Nat} (h : readDigits text = some n) :
    text ≠ [] ∧ (∀ c ∈ text, c.isDigit = true) ∧ n = Nat.ofDigitChars 10 text 0 := by
  rw [readDigits] at h
  split at h
  · next hdigits => exact ⟨hdigits.1, List.all_eq_true.1 hdigits.2, (Option.some.inj h).symm⟩
  · cases h

theorem readInteger_eq_some {n : Int} (h : readInteger text = some n) :
    ∃ sign ds factor, text = sign ++ ds ∧ Sign sign factor ∧ ds ≠ [] ∧
      (∀ c ∈ ds, c.isDigit = true) ∧ n = factor * Nat.ofDigitChars 10 ds 0 := by
  unfold readInteger at h
  split at h
  all_goals
    obtain ⟨_, hmap, rfl⟩ := Option.map_eq_some_iff.1 h
    obtain ⟨value, hread, hcast⟩ := Option.bind_eq_some_iff.1 hmap
    obtain rfl := Option.some.inj hcast
    obtain ⟨hne, hds, rfl⟩ := readDigits_eq_some hread
  · exact ⟨['-'], _, -1, rfl, .minus, hne, hds, by rw [neg_one_mul]⟩
  · exact ⟨['+'], _, 1, rfl, .plus, hne, hds, by rw [one_mul]⟩
  · exact ⟨[], _, 1, rfl, .none, hne, hds, by rw [one_mul]⟩

theorem readInteger_append {sign : List Char} {factor : Int} (hsign : Sign sign factor)
    (hne : ds ≠ []) (hds : ∀ c ∈ ds, c.isDigit = true) :
    readInteger (sign ++ ds) = some (factor * Nat.ofDigitChars 10 ds 0) := by
  have hread := readDigits_of_all hne hds
  cases hsign with
  | none =>
    obtain ⟨c, ds, rfl⟩ := List.exists_cons_of_ne_nil hne
    have hc := hds c List.mem_cons_self
    rw [List.nil_append, one_mul, readInteger, hread]
    · rfl
    -- A digit is no sign.
    all_goals
      intro rest h
      rw [(List.cons.inj h).1] at hc
      exact absurd hc (by decide)
  | plus => simp [readInteger, hread]
  | minus => simp [readInteger, hread]

theorem isBlank_of_mem_sign {sign : List Char} {factor : Int} (hsign : Sign sign factor) :
    ∀ c ∈ sign, isBlank c = false := by
  cases hsign with
  | none => exact List.forall_mem_nil _
  | plus => exact List.forall_mem_singleton.2 (by decide)
  | minus => exact List.forall_mem_singleton.2 (by decide)

theorem readInteger_trim_iff {n : Int} :
    readInteger (trim text) = some n ↔ SpellsInteger text n := by
  constructor
  · intro h
    obtain ⟨sign, ds, factor, hcore, hsign, hne, hds, rfl⟩ := readInteger_eq_some h
    obtain ⟨front, back, hfront, hback, htext⟩ := exists_trim text
    rw [htext, hcore]
    exact .intro hfront hsign hne hds hback
  · rintro ⟨hfront, hsign, hne, hds, hback⟩
    rw [trim_append hfront _ (List.append_ne_nil_of_right_ne_nil _ hne) hback,
      readInteger_append hsign hne hds]
    exact List.forall_mem_append.2 ⟨isBlank_of_mem_sign hsign, fun c hc =>
      isBlank_of_isDigit (hds c hc)⟩

end

/-! ## The members of a token -/

/-- Objects are records, and so are arrays of no more items than a token has members. -/
inductive IsRecord : Json.Value → Prop
  | object (members : List (String × Json.Value)) : IsRecord (.object members)
  | array {items : List Json.Value} (h : items.length ≤ 4) : IsRecord (.array items)

def Json.Value.memberAt? (name : String) (place : Nat) : Json.Value → Option Json.Value
  | .array items => items[place]?
  | j => j.member? name

/-- A text that may be missing or null. -/
inductive SaysText : Option Json.Value → Option String → Prop
  | absent : SaysText none none
  | null : SaysText (some .null) none
  | text (s : String) : SaysText (some (.string s)) (some s)

/-- An offset is zero when it is missing or null, and else an integer or the text of one that is not
negative and fits 64 bits with a sign. -/
inductive SaysOffset : Option Json.Value → Nat → Prop
  | absent : SaysOffset none 0
  | null : SaysOffset (some .null) 0
  | integer {n : Nat} (h : n < 0x8000000000000000) : SaysOffset (some (.integer n)) n
  | text {s : String} {n : Nat} (hs : SpellsInteger s.toList n) (h : n < 0x8000000000000000) :
      SaysOffset (some (.string s)) n

theorem SaysOffset.lt {value : Option Json.Value} {offset : Nat} (h : SaysOffset value offset) :
    offset < Token.offsetLimit := by
  cases h with
  | absent => decide
  | null => decide
  | integer h => exact h
  | text _ h => exact h

/-- A value is a token: each of its members says what the token has. Members of other names do not
count, and a null is no kind and no key, but a value. -/
structure Describes (j : Json.Value) (t : Token) : Prop where
  isRecord : IsRecord j
  kind : j.memberAt? "type" 0 = some (.string t.kind.name)
  key : SaysText (j.memberAt? "key" 1) t.key
  value : j.memberAt? "value" 2 = t.value
  offset : SaysOffset (j.memberAt? "offset" 3) t.offset

/-- The refusals of values that are no tokens. -/
def TokenError.notTokens : List TokenError :=
  [.malformed, .badKind, .offsetNotInteger, .offsetNegative]

namespace Token

theorem optionalText_iff {value : Option Json.Value} {text : Option String} :
    Wire.optionalText value = some text ↔ SaysText value text := by
  constructor
  · intro h
    unfold Wire.optionalText at h
    split at h
    · exact Option.some.inj h ▸ .absent
    · exact Option.some.inj h ▸ .null
    · exact Option.some.inj h ▸ .text _
    · cases h
  · rintro (_ | _ | _) <;> rfl

theorem toInt64?_eq_some {n : Int} {k : Int64} (h : (Json.Number.integer n).toInt64? = some k) :
    k.toInt = n := by
  rw [Json.Number.toInt64?] at h
  split at h
  · obtain rfl := Option.some.inj h
    exact Int64.toInt_ofInt_of_le (by omega) (by omega)
  · cases h

theorem readOffset_of_int {value : Json.Value} {n : Nat} (h : n < 0x8000000000000000)
    (hread : Wire.readOffsetInt value = (Json.Number.integer n).toInt64?) (hnull : value ≠ .null) :
    Wire.readOffset (some value) = .ok n := by
  have hint : (Int64.ofInt n).toInt = n := Int64.toInt_ofInt_of_le (by omega) (by omega)
  rw [Wire.readOffset, hread, Json.Number.toInt64?, if_pos (by omega)]
  · simp [hint]
  · rintro rfl
    exact hnull rfl

theorem readOffsetInt_eq_some {value : Json.Value} {k : Int64}
    (h : Wire.readOffsetInt value = some k) :
    value = .integer k.toInt ∨ ∃ s, value = .string s ∧ SpellsInteger s.toList k.toInt := by
  unfold Wire.readOffsetInt at h
  split at h
  · next n =>
    cases n with
    | integer n => exact .inl (by rw [toInt64?_eq_some h]; rfl)
    | float x => cases h
  · next s =>
    obtain ⟨n, hread, hfits⟩ := Option.bind_eq_some_iff.1 h
    rw [toInt64?_eq_some hfits]
    exact .inr ⟨s, rfl, readInteger_trim_iff.1 hread⟩
  · cases h

theorem readOffset_iff {value : Option Json.Value} {offset : Nat} :
    Wire.readOffset value = .ok offset ↔ SaysOffset value offset := by
  constructor
  · intro h
    unfold Wire.readOffset at h
    split at h
    · exact Except.ok.inj h ▸ .absent
    · exact Except.ok.inj h ▸ .null
    · next value _ =>
      split at h
      · cases h
      · next k hread =>
        split at h
        · cases h
        · next hsign =>
          obtain rfl := Except.ok.inj h
          have hlt := k.toInt_lt
          have hcast : ((k.toInt.toNat : Nat) : Int) = k.toInt := Int.toNat_of_nonneg (by omega)
          rcases readOffsetInt_eq_some hread with rfl | ⟨s, rfl, hs⟩
          · have hinteger := SaysOffset.integer (n := k.toInt.toNat) (by omega)
            rwa [hcast] at hinteger
          · exact .text (by rwa [hcast]) (by omega)
  · intro h
    cases h with
    | absent => rfl
    | null => rfl
    | integer h => exact readOffset_of_int h rfl Json.Value.noConfusion
    | text hs h =>
      refine readOffset_of_int h ?_ Json.Value.noConfusion
      rw [Wire.readOffsetInt, readInteger_trim_iff.2 hs]
      exact Option.bind_some _ _

theorem parse_iff {name : String} {kind : PageKind} :
    PageKind.parse name = .ok kind ↔ name = kind.name := by
  constructor
  · intro h
    unfold PageKind.parse at h
    split at h
    · next found hfound =>
      obtain rfl := Except.ok.inj h
      have hname : (found.name == name) = true :=
        List.find?_some (p := fun kind => PageKind.name kind == name) hfound
      exact (beq_iff_eq.1 hname).symm
    · cases h
  · rintro rfl
    rw [PageKind.parse, PageKind.ofName?_name]

/-! ## Reading the members -/

variable {j : Json.Value} {t : Token}

/-- In an array, a member stands at the place of its name. -/
theorem find?_positional {items : List Json.Value} (h : items.length ≤ 4) {name : String}
    {place : Nat} (hname : memberNames[place]? = some name) :
    ((memberNames.zip items).find? fun m => m.1 == name).map (·.2) = items[place]? := by
  have hplace : place < memberNames.length := (List.getElem?_eq_some_iff.1 hname).1
  have hcases : place = 0 ∨ place = 1 ∨ place = 2 ∨ place = 3 := by
    simp only [memberNames, List.length_cons, List.length_nil] at hplace
    omega
  rcases hcases with rfl | rfl | rfl | rfl <;> obtain rfl := Option.some.inj hname <;>
    rcases items with _ | ⟨a, _ | ⟨b, _ | ⟨c, _ | ⟨d, _ | ⟨e, items⟩⟩⟩⟩⟩ <;>
    simp_all [memberNames]

theorem exists_record? (h : IsRecord j) : ∃ members, j.record? memberNames = some members ∧
    ∀ name place, memberNames[place]? = some name →
      (members.find? fun m => m.1 == name).map (·.2) = j.memberAt? name place := by
  cases h with
  | object members => exact ⟨members, rfl, fun _ _ _ => rfl⟩
  | array h => exact ⟨_, if_pos h, fun _ _ hname => find?_positional h hname⟩

theorem isRecord_of_record? {members : List (String × Json.Value)}
    (h : j.record? memberNames = some members) : IsRecord j := by
  cases j with
  | object => exact .object _
  | array items =>
    rw [Json.Value.record?, Json.positional] at h
    split at h
    · next hlength => exact .array hlength
    · cases h
  | _ => cases h

/-- The members of a record, as they are looked up. -/
theorem wire_iff {wire : Wire} : (j.record? memberNames).bind Wire.ofMembers = some wire ↔
    IsRecord j ∧ SaysText (j.memberAt? "type" 0) wire.kind ∧
      SaysText (j.memberAt? "key" 1) wire.key ∧ j.memberAt? "value" 2 = wire.value ∧
      j.memberAt? "offset" 3 = wire.offset := by
  by_cases hrecord : IsRecord j
  · obtain ⟨members, hmembers, hmember⟩ := exists_record? hrecord
    rw [hmembers, Option.bind_some, Wire.ofMembers, and_iff_right hrecord]
    simp only [hmember "type" 0 rfl, hmember "key" 1 rfl, hmember "value" 2 rfl,
      hmember "offset" 3 rfl, Option.bind_eq_bind, Option.bind_eq_some_iff, optionalText_iff]
    obtain ⟨kind, key, value, offset⟩ := wire
    simp
  · refine ⟨fun h => ?_, fun h => absurd h.1 hrecord⟩
    obtain ⟨members, hmembers, _⟩ := Option.bind_eq_some_iff.1 h
    exact absurd (isRecord_of_record? hmembers) hrecord

theorem token_eq_ok_iff {wire : Wire} : wire.token = .ok t ↔
    wire.kind = some t.kind.name ∧ wire.key = t.key ∧ wire.value = t.value ∧
      Wire.readOffset wire.offset = .ok t.offset := by
  obtain ⟨kind, key, value, offset⟩ := wire
  obtain ⟨kind', key', value', offset'⟩ := t
  cases kind with
  | none => simp [Wire.token, bind, Except.bind]
  | some name =>
    have hparse : PageKind.parse name = .ok kind' ↔ name = kind'.name := parse_iff
    cases hkind : PageKind.parse name <;> cases hoffset : Wire.readOffset offset <;>
      simp_all [Wire.token, bind, Except.bind, pure, Except.pure]

/-- A value is read as a token if it describes the token. -/
theorem ofJson_eq_ok_iff : Token.ofJson j = .ok t ↔ Describes j t := by
  rw [Token.ofJson, Token.ofMembers]
  constructor
  · intro h
    split at h
    · next wire hwire =>
      obtain ⟨hrecord, hkind, hkey, hvalue, hoffset⟩ := wire_iff.1 hwire
      obtain ⟨hname, hsame, hsame', hread⟩ := token_eq_ok_iff.1 h
      rw [hname] at hkind
      refine ⟨hrecord, ?_, hsame ▸ hkey, hsame' ▸ hvalue, ?_⟩
      · generalize j.memberAt? "type" 0 = member at hkind
        cases hkind
        rfl
      · rw [hoffset]
        exact readOffset_iff.1 hread
    · cases h
  · rintro ⟨hrecord, hkind, hkey, hvalue, hoffset⟩
    have hwire : (j.record? memberNames).bind Wire.ofMembers =
        some ⟨some t.kind.name, t.key, t.value, j.memberAt? "offset" 3⟩ :=
      wire_iff.2 ⟨hrecord, hkind ▸ .text _, hkey, hvalue, rfl⟩
    rw [hwire]
    exact token_eq_ok_iff.2 ⟨rfl, rfl, rfl, readOffset_iff.2 hoffset⟩

/-! ## Refused values -/

theorem readOffset_error {value : Option Json.Value} {e : TokenError}
    (h : Wire.readOffset value = .error e) : e ∈ TokenError.notTokens := by
  unfold Wire.readOffset at h
  split at h
  · cases h
  · cases h
  · split at h
    · obtain rfl := Except.error.inj h
      simp [TokenError.notTokens]
    · split at h
      · obtain rfl := Except.error.inj h
        simp [TokenError.notTokens]
      · cases h

theorem parse_error {name : String} {e : TokenError} (h : PageKind.parse name = .error e) :
    e ∈ TokenError.notTokens := by
  unfold PageKind.parse at h
  split at h
  · cases h
  · obtain rfl := Except.error.inj h
    simp [TokenError.notTokens]

theorem ofJson_error {e : TokenError} (h : Token.ofJson j = .error e) :
    e ∈ TokenError.notTokens := by
  rw [Token.ofJson, Token.ofMembers] at h
  split at h
  · next wire _ =>
    obtain ⟨kind, key, value, offset⟩ := wire
    cases kind with
    | none =>
      obtain rfl := Except.error.inj h
      simp [TokenError.notTokens]
    | some name =>
      cases hkind : PageKind.parse name with
      | error =>
        simp only [Wire.token, hkind, bind, Except.bind] at h
        exact Except.error.inj h ▸ parse_error hkind
      | ok kind =>
        cases hoffset : Wire.readOffset offset with
        | error =>
          simp only [Wire.token, hkind, hoffset, bind, Except.bind] at h
          exact Except.error.inj h ▸ readOffset_error hoffset
        | ok n =>
          simp only [Wire.token, hkind, hoffset, bind, Except.bind] at h
          cases h
  · obtain rfl := Except.error.inj h
    simp [TokenError.notTokens]

/-- The JSON values that are read as tokens are those that describe one, and it is read again from
what is written for it. All others are refused as no tokens. -/
theorem ofJson_grammar (j : Json.Value) :
    (∀ t, Token.ofJson j = .ok t ↔ Describes j t) ∧
    (∀ t, Token.ofJson j = .ok t → Token.ofJson t.toJson = .ok t) ∧
    ((¬ ∃ t, Describes j t) → ∃ e ∈ TokenError.notTokens, Token.ofJson j = .error e) := by
  refine ⟨fun t => ofJson_eq_ok_iff, fun t h => ?_, fun h => ?_⟩
  · rw [ofJson_toJson, token_wire, if_pos (ofJson_eq_ok_iff.1 h).offset.lt]
  · cases hread : Token.ofJson j with
    | error e => exact ⟨e, ofJson_error hread, rfl⟩
    | ok t => exact absurd ⟨t, ofJson_eq_ok_iff.1 hread⟩ h

example : Token.ofJson (.array [.string "backward", .null, .null, .string " -0"]) =
    .ok ⟨.backward, none, some .null, 0⟩ := by cbv

end Token

end Keyset
