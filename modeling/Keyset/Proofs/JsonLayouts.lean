import Keyset.Proofs.JsonTexts

/-!
# Objects in any layout

An object may be written with white space between its parts, with its members in any order, and with
several members of one name, of which the last counts. Names may be escaped as one likes.
-/
namespace Keyset.Json

/-- White space between the parts of a text. -/
structure Blanks where
  chars : List Char
  isBlank : ∀ c ∈ chars, c = ' ' ∨ c = '\t' ∨ c = '\n' ∨ c = '\r'

def Blanks.none : Blanks := ⟨[], List.forall_mem_nil _⟩

/-- What stands between the quotes of a name. -/
structure NameText where
  chars : List Char
  name : String
  reads : ∀ rest, readString (chars ++ '"' :: rest) = some (name, rest)

/-- Reading a text gives a value and what follows the text. -/
def Reads (depth : Nat) (text : List Char) (v : Value) : Prop :=
  ∀ fuel rest, 2 * text.length ≤ fuel → EndsNumber rest →
    readValue depth fuel (text ++ rest) = some (v, rest)

/-- A member of an object as it is written, with white space in all places but in front of the
value, where it belongs to the value's text. -/
structure MemberText (depth : Nat) where
  front : Blanks
  name : NameText
  middle : Blanks
  chars : List Char
  value : Value
  reads : Reads depth chars value
  back : Blanks

variable {depth : Nat} {text rest : List Char}

def layMember (front : Blanks) (name : NameText) (middle : Blanks) (value : List Char)
    (back : Blanks) : List Char :=
  front.chars ++ '"' :: (name.chars ++ '"' :: (middle.chars ++ ':' :: (value ++ back.chars)))

def layMembers : List (List Char) → List Char
  | [] => []
  | [m] => m
  | m :: others => m ++ ',' :: layMembers others

def layObject (front : Blanks) (members : List (List Char)) (back : Blanks) : String :=
  String.ofList (front.chars ++ '\x7b' :: (layMembers members ++ '\x7d' :: back.chars))

namespace MemberText

def laid (m : MemberText depth) : List Char := layMember m.front m.name m.middle m.chars m.back

def member (m : MemberText depth) : String × Value := (m.name.name, m.value)

end MemberText

/-! ## White space -/

theorem skipBlank_append (blanks : Blanks) (rest : List Char) :
    skipBlank (blanks.chars ++ rest) = skipBlank rest := by
  refine List.dropWhile_append_of_pos fun c hc => ?_
  rcases blanks.isBlank c hc with rfl | rfl | rfl | rfl <;> decide

theorem endsNumber_append (blanks : Blanks) (h : EndsNumber rest) :
    EndsNumber (blanks.chars ++ rest) := by
  obtain ⟨chars, hchars⟩ := blanks
  cases chars with
  | nil => exact h
  | cons c chars =>
    rintro d ⟨⟩
    rcases hchars c List.mem_cons_self with rfl | rfl | rfl | rfl <;> decide

theorem readValue_congr (h : skipBlank text = skipBlank rest) (fuel : Nat) :
    readValue depth fuel text = readValue depth fuel rest := by
  cases fuel with
  | zero => rfl
  | succ fuel => simp only [readValue, h]

theorem readMembers_congr (h : skipBlank text = skipBlank rest) (fuel : Nat) :
    readMembers depth fuel text = readMembers depth fuel rest := by
  cases fuel with
  | zero => rfl
  | succ fuel => simp only [readMembers, readName, h]

theorem Reads.blank {v : Value} (h : Reads depth text v) (blanks : Blanks) :
    Reads depth (blanks.chars ++ text) v := by
  intro fuel rest hfuel hrest
  rw [List.length_append] at hfuel
  rw [List.append_assoc, readValue_congr (skipBlank_append blanks _)]
  exact h fuel rest (by omega) hrest

theorem Value.Within.reads {v : Value} (h : v.Within depth) : Reads depth v.chars v :=
  h.readsBack

def NameText.ofString (name : String) : NameText :=
  ⟨name.toList.flatMap escapeChar, name, readString_stringChars name⟩

def MemberText.compact (name : String) {v : Value} (h : v.Within depth) : MemberText depth :=
  ⟨.none, .ofString name, .none, v.chars, v, h.reads, .none⟩

/-! ## Reading members -/

theorem readName_layMember (m : MemberText depth) (rest : List Char) :
    readName (m.laid ++ rest) = some (m.name.name, m.chars ++ (m.back.chars ++ rest)) := by
  have hread := m.name.reads (m.middle.chars ++ ':' :: (m.chars ++ (m.back.chars ++ rest)))
  simp only [MemberText.laid, layMember, List.append_assoc, List.cons_append]
  rw [readName, skipBlank_append, skipBlank_cons (by decide)]
  simp [hread, skipBlank_append, skipBlank_cons (c := ':') (by decide)]

theorem length_chars_lt (m : MemberText depth) : m.chars.length < m.laid.length := by
  simp only [MemberText.laid, layMember, List.length_append, List.length_cons]
  omega

theorem readMembers_layMembers {members : List (MemberText depth)} (hne : members ≠ [])
    (fuel : Nat) (hfuel : 2 * (layMembers (members.map (·.laid))).length + 1 ≤ fuel)
    (rest : List Char) :
    readMembers depth fuel (layMembers (members.map (·.laid)) ++ '\x7d' :: rest) =
      some (members.map (·.member), rest) := by
  induction members generalizing fuel with
  | nil => exact absurd rfl hne
  | cons m others ih =>
    obtain ⟨fuel, rfl⟩ := Nat.exists_eq_add_of_le' (Nat.le_of_add_left_le hfuel)
    have hlength := length_chars_lt m
    cases others with
    | nil =>
      simp only [List.map_cons, List.map_nil, layMembers] at hfuel ⊢
      have hvalue := m.reads fuel (m.back.chars ++ '\x7d' :: rest) (by omega)
        (endsNumber_append _ (endsNumber_cons (by decide) _))
      rw [readMembers, readName_layMember]
      simp [hvalue, skipBlank_append, skipBlank_cons (c := '\x7d') (by decide), MemberText.member]
    | cons other others =>
      have hrest := ih (List.cons_ne_nil other others)
      simp only [List.map_cons, layMembers, List.length_append, List.length_cons] at hfuel hrest ⊢
      have hothers := hrest fuel (by omega)
      have hvalue := m.reads fuel (m.back.chars ++ ',' ::
        (layMembers (other.laid :: others.map (·.laid)) ++ '\x7d' :: rest)) (by omega)
        (endsNumber_append _ (endsNumber_cons (by decide) _))
      rw [List.append_assoc, List.cons_append, readMembers, readName_layMember]
      simp [hvalue, skipBlank_append, skipBlank_cons (c := ',') (by decide), hothers,
        MemberText.member]

theorem layMembers_eq (members : List (List Char)) (m : List Char) :
    ∃ tail, layMembers (m :: members) = m ++ tail := by
  cases members with
  | nil => exact ⟨[], (List.append_nil m).symm⟩
  | cons other members => exact ⟨_, rfl⟩

theorem skipBlank_layMembers (m : MemberText depth) (others : List (MemberText depth))
    (rest : List Char) : ∃ text, skipBlank (layMembers ((m :: others).map (·.laid)) ++ rest) =
      '"' :: text := by
  obtain ⟨tail, htail⟩ := layMembers_eq (others.map (·.laid)) m.laid
  rw [List.map_cons, htail, MemberText.laid, layMember, List.append_assoc, List.append_assoc,
    skipBlank_append, List.cons_append, skipBlank_cons (by decide)]
  exact ⟨_, rfl⟩

theorem readValue_brace {body tail : List Char} {members : List (String × Value)} {fuel : Nat}
    (hbody : skipBlank body = '"' :: tail)
    (hread : readMembers depth fuel ('"' :: tail) = some (members, rest)) :
    readValue (depth + 1) (fuel + 1) ('\x7b' :: body) = some (.ofMembers members, rest) := by
  simp [readValue, skipBlank_cons (c := '\x7b') (by decide), hbody, hread]

/-- An object is read from its text. -/
theorem read?_layObject (front back : Blanks) {members : List (MemberText depth)}
    (hne : members ≠ []) :
    read? (depth + 1) (layObject front (members.map (·.laid)) back) =
      some (.ofMembers (members.map (·.member))) := by
  obtain ⟨m, others, rfl⟩ := List.exists_cons_of_ne_nil hne
  obtain ⟨tail, htail⟩ := skipBlank_layMembers m others ('\x7d' :: back.chars)
  rw [read?, layObject, String.toList_ofList]
  obtain ⟨fuel, hfuel, hlength⟩ : ∃ fuel, fuelFor (front.chars ++ '\x7b' ::
      (layMembers ((m :: others).map (·.laid)) ++ '\x7d' :: back.chars)) = fuel + 1 ∧
      2 * (layMembers ((m :: others).map (·.laid))).length + 1 ≤ fuel := by
    refine ⟨_, rfl, ?_⟩
    simp only [List.length_append, List.length_cons]
    omega
  have hread := readMembers_layMembers hne fuel hlength back.chars
  have hquote : skipBlank ('"' :: tail) = '"' :: tail := skipBlank_cons (by decide) tail
  rw [readMembers_congr (htail.trans hquote.symm)] at hread
  have hback := skipBlank_append back []
  rw [List.append_nil] at hback
  rw [hfuel, readValue_congr (skipBlank_append front _), readValue_brace htail hread,
    Option.bind_some, atEnd, hback]
  rfl

/-! ## Looking up members -/

theorem find?_insertMember (name other : String) (x : Value) (members : List (String × Value)) :
    ((insertMember name x members).find? fun m => m.1 == other).map (·.2) =
      if name = other then some x else (members.find? fun m => m.1 == other).map (·.2) := by
  induction members with
  | nil => by_cases h : name = other <;> simp [insertMember, h]
  | cons m members ih =>
    obtain ⟨first, y⟩ := m
    rw [insertMember]
    split
    · by_cases h : name = other <;> simp [h]
    · split
      · next heq =>
        subst heq
        by_cases h : name = other <;> simp [h]
      · next hne =>
        by_cases h : first = other
        · simp [h, show name ≠ other from fun hname => hne (hname.trans h.symm)]
        · simp [h, ih]

/-- Of several members of one name the last counts. -/
theorem member?_ofMembers (name : String) (members : List (String × Value)) :
    (Value.ofMembers members).member? name =
      (members.reverse.find? fun m => m.1 == name).map (·.2) := by
  induction members using List.reverseRecOn with
  | nil => rfl
  | append_singleton members m ih =>
    rw [Value.ofMembers, List.foldl_append, List.reverse_append]
    simp only [List.foldl_cons, List.foldl_nil, Value.member?, find?_insertMember]
    simp only [Value.ofMembers, Value.member?] at ih
    rw [ih]
    by_cases h : m.1 = name <;> simp [h]

end Keyset.Json
