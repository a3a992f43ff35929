import Keyset.Json.Record
import Keyset.Proofs.NumberTexts

/-!
# JSON values read back from their texts

The text of a value is followed by nothing or by the sign that ends it inside an array or object, so
the reader stops where the writer did. Each value takes at most two steps of the reader for each of
its characters.
-/
namespace Keyset.Json

/-! ## Strings -/

theorem hexDigit?_digitChar : ∀ n < 16, hexDigit? (Nat.digitChar n) = some n := by decide

theorem hex4?_digitChar {n : Nat} (hn : n < 0x20) :
    hex4? '0' '0' (Nat.digitChar (n / 16)) (Nat.digitChar (n % 16)) = some n := by
  have hhigh := hexDigit?_digitChar (n / 16) (by omega)
  have hlow := hexDigit?_digitChar (n % 16) (by omega)
  have hzero : hexDigit? '0' = some 0 := by decide
  simp [hex4?, hhigh, hlow, hzero]
  omega

/-- What is written for a character is one piece, which stands for the character. -/
def Escapes (text : List Char) (c : Char) : Prop := ∃ piece,
  (∀ rest, readPieces (text ++ rest) =
    (readPieces rest).map fun read => (piece :: read.1, read.2)) ∧
  ∀ pieces, joinPieces (piece :: pieces) = (joinPieces pieces).map (c :: ·)

theorem escapes_letter {letter c : Char} (hletter : letter ≠ 'u')
    (hstands : shortEscape? letter = some c) : Escapes ['\\', letter] c := by
  refine ⟨.char c, fun rest => ?_, fun pieces => by rw [joinPieces]⟩
  simp [readPieces, hletter, hstands, Option.map_eq_bind]

theorem escapes_unit {c : Char} (hc : c.toNat < 0x20) :
    Escapes ['\\', 'u', '0', '0', Nat.digitChar (c.toNat / 16), Nat.digitChar (c.toNat % 16)] c := by
  refine ⟨.unit c.toNat, fun rest => ?_, fun pieces => ?_⟩
  · simp only [List.cons_append, List.nil_append]
    rw [readPieces]
    simp [hex4?_digitChar hc, Option.map_eq_bind]
  · have hhigh : isHighSurrogate c.toNat = false := by simp [isHighSurrogate]; omega
    have hlow : isLowSurrogate c.toNat = false := by simp [isLowSurrogate]; omega
    rw [joinPieces.eq_def]
    simp [hhigh, hlow]

theorem escapes_self {c : Char} (hquote : c ≠ '"') (hback : c ≠ '\\') (hc : ¬ c.toNat < 0x20) :
    Escapes [c] c := by
  refine ⟨.char c, fun rest => ?_, fun pieces => by rw [joinPieces]⟩
  simp [readPieces, hback, hc, Option.map_eq_bind]

theorem escapes_escapeChar (c : Char) : Escapes (escapeChar c) c := by
  have hcode {n : Nat} (h : c.toNat = n) : c = Char.ofNat n := by rw [← h, Char.ofNat_toNat]
  unfold escapeChar
  split
  · next h => exact escapes_letter (by decide) (by subst h; decide)
  split
  · next h => exact escapes_letter (by decide) (by subst h; decide)
  split
  · next h => exact escapes_letter (by decide) (by rw [hcode h]; decide)
  split
  · next h => exact escapes_letter (by decide) (by rw [hcode h]; decide)
  split
  · next h => exact escapes_letter (by decide) (by subst h; decide)
  split
  · next h => exact escapes_letter (by decide) (by subst h; decide)
  split
  · next h => exact escapes_letter (by decide) (by subst h; decide)
  split
  · next h => exact escapes_unit h
  · next hquote hback _ _ _ _ _ hc => exact escapes_self hquote hback hc

theorem exists_pieces (cs rest : List Char) : ∃ pieces,
    readPieces (cs.flatMap escapeChar ++ '"' :: rest) = some (pieces, rest) ∧
      joinPieces pieces = some cs := by
  induction cs with
  | nil => exact ⟨[], by simp [readPieces], by simp [joinPieces]⟩
  | cons c cs ih =>
    obtain ⟨pieces, hread, hjoin⟩ := ih
    obtain ⟨piece, hpiece, hchar⟩ := escapes_escapeChar c
    refine ⟨piece :: pieces, ?_, ?_⟩
    · rw [List.flatMap_cons, List.append_assoc, hpiece, hread, Option.map_some]
    · rw [hchar, hjoin, Option.map_some]

theorem readString_stringChars (s : String) (rest : List Char) :
    readString (s.toList.flatMap escapeChar ++ '"' :: rest) = some (s, rest) := by
  obtain ⟨pieces, hread, hjoin⟩ := exists_pieces s.toList rest
  simp [readString, hread, hjoin]

/-! ## Values -/

/-- Members stand in the order of their names, each name once. -/
abbrev InOrder (members : List (String × Value)) : Prop :=
  members.Pairwise fun m other => m.1 < other.1

abbrev Distinct (members : List (String × Value)) : Prop :=
  members.Pairwise fun m other => m.1 ≠ other.1

/-- A value that a text can hold, where arrays and objects are nested within a depth. The integers
have 64 bits, and the names of each object increase. -/
inductive Value.Within : Nat → Value → Prop
  | null {depth : Nat} : Within depth .null
  | bool {depth : Nat} (b : Bool) : Within depth (.bool b)
  | number {depth : Nat} {n : Number} (hn : n.fits = true) : Within depth (.number n)
  | string {depth : Nat} (s : String) : Within depth (.string s)
  | array {depth : Nat} {items : List Value} (hitems : ∀ item ∈ items, Within depth item) :
      Within (depth + 1) (.array items)
  | object {depth : Nat} {members : List (String × Value)}
      (hnames : InOrder members)
      (hmembers : ∀ m ∈ members, Within depth m.2) : Within (depth + 1) (.object members)

/-- A character that is not passed over in front of a value and ends no array. -/
def Starts (c : Char) : Prop := c ≠ ' ' ∧ c ≠ '\t' ∧ c ≠ '\n' ∧ c ≠ '\r' ∧ c ≠ ']'

instance (c : Char) : Decidable (Starts c) := inferInstanceAs (Decidable (_ ∧ _))

theorem skipBlank_cons {c : Char} (h : Starts c) (text : List Char) :
    skipBlank (c :: text) = c :: text := by
  obtain ⟨hspace, htab, hline, hreturn, _⟩ := h
  simp [skipBlank, hspace, htab, hline, hreturn]

theorem starts_of_isDigit {c : Char} (h : c.isDigit = true) : Starts c := by
  refine ⟨?_, ?_, ?_, ?_, ?_⟩ <;> rintro rfl <;> exact absurd h (by decide)

variable {depth : Nat} {v : Value}

theorem Value.Within.chars_eq_cons (h : v.Within depth) :
    ∃ c text, v.chars = c :: text ∧ Starts c := by
  cases h with
  | null => exact ⟨'n', _, rfl, by decide⟩
  | bool b => cases b with
    | true => exact ⟨'t', _, rfl, by decide⟩
    | false => exact ⟨'f', _, rfl, by decide⟩
  | number hn =>
    obtain ⟨c, text, hchars, rfl | hdigit⟩ := Number.chars_eq_cons hn
    · exact ⟨'-', text, by rw [Value.chars, hchars], by decide⟩
    · exact ⟨c, text, by rw [Value.chars, hchars], starts_of_isDigit hdigit⟩
  | string s => exact ⟨'"', _, by rw [Value.chars, stringChars], by decide⟩
  | array hitems => exact ⟨'[', _, by rw [Value.chars], by decide⟩
  | object hnames hmembers => exact ⟨'\x7b', _, by rw [Value.chars], by decide⟩

theorem endsNumber_cons {c : Char} (h : c = ',' ∨ c = ']' ∨ c = '\x7d') (rest : List Char) :
    EndsNumber (c :: rest) := by
  intro d hd
  cases hd
  rcases h with rfl | rfl | rfl <;> decide

/-- Reading the text of a value gives the value and what follows it. -/
def ReadsBack (depth : Nat) (v : Value) : Prop :=
  ∀ fuel rest, 2 * v.chars.length ≤ fuel → EndsNumber rest →
    readValue depth fuel (v.chars ++ rest) = some (v, rest)

theorem readItems_itemsChars {items : List Value} (hne : items ≠ [])
    (hread : ∀ item ∈ items, ReadsBack depth item) (fuel : Nat)
    (hfuel : 2 * (itemsChars items).length + 1 ≤ fuel) (rest : List Char) :
    readItems depth fuel (itemsChars items ++ ']' :: rest) = some (items, rest) := by
  induction items generalizing fuel with
  | nil => exact absurd rfl hne
  | cons x items ih =>
    obtain ⟨fuel, rfl⟩ := Nat.exists_eq_add_of_le' (Nat.le_of_add_left_le hfuel)
    cases items with
    | nil =>
      rw [itemsChars] at hfuel ⊢
      have hlast := hread x List.mem_cons_self fuel (']' :: rest) (by omega)
        (endsNumber_cons (by decide) _)
      rw [readItems, hlast]
      simp [skipBlank]
    | cons y items =>
      rw [itemsChars, List.length_append, List.length_cons] at hfuel
      have hfirst := hread x List.mem_cons_self fuel (',' :: (itemsChars (y :: items) ++ ']' :: rest))
        (by omega) (endsNumber_cons (by decide) _)
      have hrest := ih (List.cons_ne_nil y items)
        (fun item hitem => hread item (List.mem_cons_of_mem x hitem)) fuel (by omega)
      rw [itemsChars, List.append_assoc, List.cons_append, readItems, hfirst]
      simp [skipBlank, hrest]

theorem readName_stringChars (name : String) (rest : List Char) :
    readName (stringChars name ++ ':' :: rest) = some (name, rest) := by
  have hread := readString_stringChars name (':' :: rest)
  rw [stringChars, List.cons_append, List.append_assoc, readName, skipBlank_cons (by decide)]
  simp [hread, skipBlank]

/-- What stands after a member: the other members or the brace, and the rest of the text. -/
def afterMember (others : List (String × Value)) (rest : List Char) : List Char :=
  if others = [] then '\x7d' :: rest else ',' :: (membersChars others ++ '\x7d' :: rest)

theorem membersChars_append (m : String × Value) (others : List (String × Value))
    (rest : List Char) : membersChars (m :: others) ++ '\x7d' :: rest =
      stringChars m.1 ++ ':' :: (m.2.chars ++ afterMember others rest) := by
  cases others <;> simp [membersChars, afterMember]

theorem endsNumber_afterMember (others : List (String × Value)) (rest : List Char) :
    EndsNumber (afterMember others rest) := by
  cases others <;> exact endsNumber_cons (by decide) _

theorem skipBlank_afterMember_nil (rest : List Char) :
    skipBlank (afterMember [] rest) = '\x7d' :: rest := by
  simp [afterMember, skipBlank]

theorem skipBlank_afterMember {others : List (String × Value)} (hne : others ≠ [])
    (rest : List Char) :
    skipBlank (afterMember others rest) = ',' :: (membersChars others ++ '\x7d' :: rest) := by
  simp [afterMember, hne, skipBlank]

/-- Fuel for some members is enough for the value of the first and for the others. -/
theorem fuel_of_membersChars {m : String × Value} {others : List (String × Value)} {fuel : Nat}
    (h : 2 * (membersChars (m :: others)).length + 1 ≤ fuel + 1) :
    2 * m.2.chars.length ≤ fuel ∧ (others ≠ [] → 2 * (membersChars others).length + 1 ≤ fuel) := by
  cases others with
  | nil =>
    rw [membersChars, List.length_append, List.length_cons] at h
    exact ⟨by omega, fun hne => absurd rfl hne⟩
  | cons other others =>
    rw [membersChars, List.length_append, List.length_cons, List.length_append,
      List.length_cons] at h
    exact ⟨by omega, fun _ => by omega⟩

theorem readMembers_membersChars {members : List (String × Value)} (hne : members ≠ [])
    (hread : ∀ m ∈ members, ReadsBack depth m.2) (fuel : Nat)
    (hfuel : 2 * (membersChars members).length + 1 ≤ fuel) (rest : List Char) :
    readMembers depth fuel (membersChars members ++ '\x7d' :: rest) = some (members, rest) := by
  induction members generalizing fuel with
  | nil => exact absurd rfl hne
  | cons m others ih =>
    obtain ⟨fuel, rfl⟩ := Nat.exists_eq_add_of_le' (Nat.le_of_add_left_le hfuel)
    obtain ⟨hvalue, hothers⟩ := fuel_of_membersChars hfuel
    have hfirst := hread m List.mem_cons_self fuel _ hvalue (endsNumber_afterMember others rest)
    rw [membersChars_append, readMembers, readName_stringChars]
    by_cases hlast : others = []
    · subst hlast
      simp [hfirst, skipBlank_afterMember_nil]
    · have hrest := ih hlast (fun other hother => hread other (List.mem_cons_of_mem m hother)) fuel
        (hothers hlast)
      simp [hfirst, skipBlank_afterMember hlast, hrest]

/-! ## Members in order -/

section

variable {name : String} {x : Value} {members sorted : List (String × Value)}

theorem insertMember_perm (hnew : ∀ m ∈ members, name ≠ m.1) :
    (insertMember name x members).Perm ((name, x) :: members) := by
  induction members with
  | nil => exact .refl _
  | cons m members ih =>
    obtain ⟨other, y⟩ := m
    have hne : name ≠ other := hnew (other, y) List.mem_cons_self
    rw [insertMember, if_neg hne]
    split
    · exact .refl _
    · exact ((ih fun m hm => hnew m (List.mem_cons_of_mem _ hm)).cons _).trans (.swap _ _ _)

theorem inOrder_insertMember (hnew : ∀ m ∈ members, name ≠ m.1) (h : InOrder members) :
    InOrder (insertMember name x members) := by
  induction members with
  | nil => exact List.pairwise_singleton _ _
  | cons m members ih =>
    obtain ⟨other, y⟩ := m
    have hne : name ≠ other := hnew (other, y) List.mem_cons_self
    have hrest : ∀ m ∈ members, name ≠ m.1 := fun m hm => hnew m (List.mem_cons_of_mem _ hm)
    obtain ⟨hfirst, hsorted⟩ := List.pairwise_cons.1 h
    rw [insertMember, if_neg hne]
    split
    · next hlt =>
      refine List.pairwise_cons.2 ⟨fun m hm => ?_, h⟩
      rcases List.mem_cons.1 hm with rfl | hm
      · exact hlt
      · exact hlt.trans (hfirst m hm)
    · next hnot =>
      refine List.pairwise_cons.2 ⟨fun m hm => ?_, ih hrest hsorted⟩
      rcases List.mem_cons.1 ((insertMember_perm hrest).mem_iff.1 hm) with rfl | hm
      · exact lt_of_le_of_ne (not_lt.1 hnot) hne.symm
      · exact hfirst m hm

theorem foldl_insertMember (hsorted : InOrder sorted) (hdistinct : Distinct (members ++ sorted)) :
    InOrder (members.foldl (fun sorted (name, x) => insertMember name x sorted) sorted) ∧
      (members.foldl (fun sorted (name, x) => insertMember name x sorted) sorted).Perm
        (members ++ sorted) := by
  induction members generalizing sorted with
  | nil => exact ⟨hsorted, .refl _⟩
  | cons m members ih =>
    obtain ⟨name, x⟩ := m
    rw [List.cons_append] at hdistinct
    have hnew : ∀ m ∈ sorted, name ≠ m.1 := fun m hm =>
      (List.pairwise_cons.1 hdistinct).1 m (List.mem_append_right _ hm)
    have hperm := insertMember_perm (x := x) hnew
    have hmoved := (hperm.append_left members).trans List.perm_middle
    -- Sorted members and those still to come have different names also after this step.
    obtain ⟨hresult, hall⟩ := ih (inOrder_insertMember hnew hsorted)
      ((hmoved.pairwise_iff fun hne => hne.symm).2 hdistinct)
    exact ⟨hresult, hall.trans hmoved⟩

/-- The order in which members are given does not show in their object. -/
theorem Value.ofMembers_of_perm (hperm : members.Perm sorted) (hsorted : InOrder sorted) :
    Value.ofMembers members = .object sorted := by
  have hdistinct : Distinct members :=
    (hperm.pairwise_iff fun hne => hne.symm).2 (hsorted.imp fun hlt => hlt.ne)
  obtain ⟨hresult, hall⟩ := foldl_insertMember (.nil : InOrder [])
    (by rwa [List.append_nil] : Distinct (members ++ []))
  rw [List.append_nil] at hall
  exact congrArg Value.object <| (hall.trans hperm).eq_of_pairwise
    (fun m other _ _ hlt hgt => absurd hgt hlt.asymm) hresult hsorted

end

/-! ## Whole texts -/

theorem readValue_number {c : Char} {text rest : List Char} {spelling : Spelling} {n : Number}
    (hc : c = '-' ∨ c.isDigit = true) (hread : readSpelling (c :: text) = some (spelling, rest))
    (hnumber : spelling.number? = some n) (fuel : Nat) :
    readValue depth (fuel + 1) (c :: text) = some (.number n, rest) := by
  have hstarts : Starts c := by
    rcases hc with rfl | hdigit
    · decide
    · exact starts_of_isDigit hdigit
  have hother : ¬ (c = 'n' ∨ c = 't' ∨ c = 'f' ∨ c = '"' ∨ c = '[' ∨ c = '\x7b') := by
    rintro (rfl | rfl | rfl | rfl | rfl | rfl) <;> exact absurd hc (by decide)
  simp only [not_or] at hother
  obtain ⟨hn, ht, hf, hquote, hbracket, hbrace⟩ := hother
  simp [readValue, skipBlank_cons hstarts, hn, ht, hf, hquote, hbracket, hbrace, hread, hnumber]

theorem Value.Within.readsBack_of_succ (h : v.Within depth)
    (hread : ∀ fuel rest, 2 * v.chars.length ≤ fuel + 1 → EndsNumber rest →
      readValue depth (fuel + 1) (v.chars ++ rest) = some (v, rest)) : ReadsBack depth v := by
  intro fuel rest hfuel hrest
  -- The text has a character, so that the fuel is not used up before the first step.
  obtain ⟨c, text, hchars, _⟩ := h.chars_eq_cons
  have hlength : v.chars.length = text.length + 1 := by rw [hchars, List.length_cons]
  obtain ⟨fuel, rfl⟩ : ∃ n, fuel = n + 1 := ⟨fuel - 1, by omega⟩
  exact hread fuel rest hfuel hrest

theorem readValue_array {text rest : List Char} {items : List Value} {fuel : Nat}
    (hstart : ∃ c tail, text = c :: tail ∧ Starts c)
    (hread : readItems depth fuel text = some (items, rest)) :
    readValue (depth + 1) (fuel + 1) ('[' :: text) = some (.array items, rest) := by
  obtain ⟨c, tail, rfl, hstarts⟩ := hstart
  have hend : c ≠ ']' := hstarts.2.2.2.2
  simp [readValue, skipBlank_cons hstarts, skipBlank_cons (c := '[') (by decide), hend, hread]

theorem readValue_object {text rest : List Char} {members : List (String × Value)} {fuel : Nat}
    (hread : readMembers depth fuel ('"' :: text) = some (members, rest)) :
    readValue (depth + 1) (fuel + 1) ('\x7b' :: '"' :: text) = some (.ofMembers members, rest) := by
  simp [readValue, skipBlank_cons (c := '"') (by decide), skipBlank_cons (c := '\x7b') (by decide),
    hread]

theorem itemsChars_eq_cons {x : Value} {items : List Value} (h : x.Within depth) :
    ∃ c text, itemsChars (x :: items) = c :: text ∧ Starts c := by
  obtain ⟨c, text, hchars, hstarts⟩ := h.chars_eq_cons
  cases items with
  | nil => exact ⟨c, text, by rw [itemsChars, hchars], hstarts⟩
  | cons y items => exact ⟨c, _, by rw [itemsChars, hchars, List.cons_append], hstarts⟩

theorem membersChars_eq_cons (m : String × Value) (members : List (String × Value)) :
    ∃ text, membersChars (m :: members) = '"' :: text := by
  cases members with
  | nil => exact ⟨_, by rw [membersChars, stringChars, List.cons_append]⟩
  | cons other members => exact ⟨_, by rw [membersChars, stringChars, List.cons_append]⟩

/-- Values are read back from their texts, by induction on how they are made up. -/
theorem Value.Within.readsBack (h : v.Within depth) : ReadsBack depth v := by
  induction h with
  | null =>
    refine Within.null.readsBack_of_succ fun fuel rest _ _ => ?_
    simp [Value.chars, readValue, skipBlank]
  | bool b =>
    refine (Within.bool b).readsBack_of_succ fun fuel rest _ _ => ?_
    cases b <;> simp [Value.chars, readValue, skipBlank]
  | number hn =>
    refine (Within.number hn).readsBack_of_succ fun fuel rest _ hrest => ?_
    obtain ⟨c, text, hchars, hc⟩ := Number.chars_eq_cons hn
    obtain ⟨spelling, hread, hnumber⟩ := Number.exists_spelling hn hrest
    rw [hchars] at hread
    rw [Value.chars, hchars]
    exact readValue_number hc hread hnumber fuel
  | string s =>
    refine (Within.string s).readsBack_of_succ fun fuel rest _ _ => ?_
    simp [Value.chars, stringChars, readValue, skipBlank, readString_stringChars]
  | @array depth items hitems ih =>
    refine (Within.array hitems).readsBack_of_succ fun fuel rest hfuel _ => ?_
    rw [Value.chars, List.length_cons, List.length_append] at hfuel
    rw [Value.chars, List.cons_append, List.append_assoc]
    cases items with
    | nil => simp [itemsChars, readValue, skipBlank]
    | cons x items =>
      obtain ⟨c, text, hchars, hstarts⟩ := itemsChars_eq_cons (hitems x List.mem_cons_self)
      have hread := readItems_itemsChars (List.cons_ne_nil x items) ih fuel (by omega) rest
      exact readValue_array ⟨c, _, by rw [hchars]; rfl, hstarts⟩ hread
  | @object depth members hnames hmembers ih =>
    refine (Within.object hnames hmembers).readsBack_of_succ fun fuel rest hfuel _ => ?_
    rw [Value.chars, List.length_cons, List.length_append] at hfuel
    rw [Value.chars, List.cons_append, List.append_assoc]
    cases members with
    | nil => simp [membersChars, readValue, skipBlank]
    | cons m members =>
      obtain ⟨text, hchars⟩ := membersChars_eq_cons m members
      have hread := readMembers_membersChars (List.cons_ne_nil m members) ih fuel (by omega) rest
      rw [hchars] at hread ⊢
      rw [← Value.ofMembers_of_perm (.refl _) hnames]
      exact readValue_object hread

theorem length_le_fuelFor (text : List Char) : 2 * text.length ≤ fuelFor text := by
  rw [fuelFor]
  omega

/-- A value is read back from its text. -/
theorem read?_text (h : v.Within depth) : read? depth v.text = some v := by
  have hread := h.readsBack (fuelFor v.chars) [] (length_le_fuelFor v.chars) (by simp [EndsNumber])
  rw [List.append_nil] at hread
  rw [read?, Value.text, String.toList_ofList, hread]
  simp [atEnd, skipBlank]

/-! ## Records -/

/-- The text of a record is that of the object with its members. -/
theorem read?_recordText {members : List (String × Value)} (hne : members ≠ [])
    (hwithin : ∀ m ∈ members, m.2.Within depth) :
    read? (depth + 1) (recordText members) = some (.ofMembers members) := by
  obtain ⟨m, others, rfl⟩ := List.exists_cons_of_ne_nil hne
  obtain ⟨text, hchars⟩ := membersChars_eq_cons m others
  have hread := readMembers_membersChars hne (fun m hm => (hwithin m hm).readsBack)
    (2 * (membersChars (m :: others)).length + 5) (by omega) []
  rw [hchars, List.cons_append] at hread
  have hvalue := readValue_object hread
  have hfuel : fuelFor ('\x7b' :: '"' :: (text ++ ['\x7d'])) =
      2 * ('"' :: text).length + 5 + 1 := by
    simp [fuelFor]
    omega
  rw [read?, recordText, String.toList_ofList, hchars, List.cons_append, hfuel, hvalue]
  simp [atEnd, skipBlank]

theorem readKnown_membersChars {names : List String} {members : List (String × Value)}
    (hne : members ≠ []) (hnames : ∀ m ∈ members, m.1 ∈ names)
    (hdistinct : Distinct members)
    (hread : ∀ m ∈ members, ReadsBack depth m.2) (fuel : Nat)
    (hfuel : 2 * (membersChars members).length + 1 ≤ fuel) (rest : List Char) :
    readKnown names depth fuel (membersChars members ++ '\x7d' :: rest) = some (members, rest) := by
  induction members generalizing fuel with
  | nil => exact absurd rfl hne
  | cons m others ih =>
    obtain ⟨fuel, rfl⟩ := Nat.exists_eq_add_of_le' (Nat.le_of_add_left_le hfuel)
    obtain ⟨hvalue, hothers⟩ := fuel_of_membersChars hfuel
    have hknown := hnames m List.mem_cons_self
    have hfirst := hread m List.mem_cons_self fuel _ hvalue (endsNumber_afterMember others rest)
    rw [membersChars_append, readKnown, readName_stringChars]
    by_cases hlast : others = []
    · subst hlast
      simp [hfirst, hknown, skipBlank_afterMember_nil]
    · have hrest := ih hlast (fun other hother => hnames other (List.mem_cons_of_mem m hother))
        hdistinct.of_cons (fun other hother => hread other (List.mem_cons_of_mem m hother)) fuel
        (hothers hlast)
      have hnew : others.any (fun other => other.1 == m.1) = false := by
        rw [List.any_eq_false]
        intro other hother
        simpa using ((List.pairwise_cons.1 hdistinct).1 other hother).symm
      simp [hfirst, hknown, skipBlank_afterMember hlast, hrest, hnew]

theorem readRecord_recordText (hdepth : depthLimit = depth + 1) {names : List String}
    {members : List (String × Value)} (hnames : ∀ m ∈ members, m.1 ∈ names)
    (hdistinct : Distinct members)
    (hwithin : ∀ m ∈ members, m.2.Within depth) :
    readRecord names (recordText members) = some members := by
  rw [readRecord, recordText, String.toList_ofList, skipBlank_cons (by decide), hdepth]
  cases members with
  | nil => simp [membersChars, skipBlank, atEnd]
  | cons m members =>
    obtain ⟨text, hchars⟩ := membersChars_eq_cons m members
    have hread := readKnown_membersChars (List.cons_ne_nil m members) hnames hdistinct
      (fun m hm => (hwithin m hm).readsBack)
      (fuelFor ('\x7b' :: (membersChars (m :: members) ++ ['\x7d'])))
      (by simp [fuelFor]; omega) []
    rw [hchars] at hread ⊢
    simp only [List.cons_append] at hread ⊢
    rw [skipBlank_cons (by decide)]
    simp [hread, atEnd, skipBlank]

end Keyset.Json
