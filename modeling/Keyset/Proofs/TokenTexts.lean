import Keyset.Token
import Keyset.Proofs.JsonTexts

/-!
# Tokens read back from their texts

A token is written as an object with its members sorted, or as a record with its members in their own
order. Both forms hold one object and are read alike, so a token comes back from both or from none:
its offset is written as any integer, but read as an integer of 64 bits with a sign.
-/
namespace Keyset.Token

open Json

/-! ## The members of a token -/

/-- The members of a token, as they are found in either form. -/
def wire (t : Token) : Wire := ⟨some t.kind.name, t.key, t.value, offsetValue t.offset⟩

theorem Wire.ofMembers_members (t : Token) : Wire.ofMembers (Wire.members t) = some t.wire := by
  obtain ⟨kind, key, value, offset⟩ := t
  by_cases hzero : offset = 0 <;> cases key <;> cases value <;>
    simp [members, Wire.ofMembers, optionalMember, offsetValue, optionalText, wire, hzero]

theorem ofMembers_toJson (t : Token) :
    (t.toJson.record? memberNames).bind Wire.ofMembers = some t.wire := by
  obtain ⟨kind, key, value, offset⟩ := t
  by_cases hzero : offset = 0 <;> cases key <;> cases value <;>
    simp [toJson, Value.record?, Wire.ofMembers, optionalMember, offsetValue, Wire.optionalText, wire,
      hzero]

/-- The least offset that does not fit 64 bits with a sign. -/
abbrev offsetLimit : Nat := 0x8000000000000000

theorem readOffsetInt_integer (n : Int) :
    Wire.readOffsetInt (.integer n) = (Number.integer n).toInt64? := rfl

theorem readOffset_offsetValue {offset : Nat} (h : offset < offsetLimit) :
    Wire.readOffset (offsetValue offset) = .ok offset := by
  rw [offsetLimit] at h
  by_cases hzero : offset = 0
  · simp [offsetValue, hzero, Wire.readOffset]
  · have hint : (Int64.ofInt offset).toInt = offset := Int64.toInt_ofInt_of_le (by omega) (by omega)
    rw [offsetValue, if_neg hzero, Wire.readOffset, readOffsetInt_integer, Number.toInt64?,
      if_pos (by omega)]
    · simp [hint]
    · exact Value.noConfusion

theorem readOffset_offsetValue_error {offset : Nat} (h : offsetLimit ≤ offset) :
    Wire.readOffset (offsetValue offset) = .error .offsetNotInteger := by
  rw [offsetLimit] at h
  rw [offsetValue, if_neg (by omega), Wire.readOffset, readOffsetInt_integer, Number.toInt64?,
    if_neg (by omega)]
  exact Value.noConfusion

theorem token_wire (t : Token) :
    t.wire.token = if t.offset < offsetLimit then .ok t else .error .offsetNotInteger := by
  have hkind : PageKind.parse t.kind.name = .ok t.kind := by
    rw [PageKind.parse, PageKind.ofName?_name]
  by_cases h : t.offset < offsetLimit
  · have hread := readOffset_offsetValue h
    rw [if_pos h]
    simp only [Wire.token, wire, hkind, hread]
    rfl
  · have hread := readOffset_offsetValue_error (not_lt.1 h)
    rw [if_neg h]
    simp only [Wire.token, wire, hkind, hread]
    rfl

/-! ## One object, two texts -/

/-- The members of the object of a token, by name. -/
def sortedMembers (t : Token) : List (String × Value) :=
  optionalMember "key" (t.key.map .string) ++ optionalMember "offset" (offsetValue t.offset) ++
    ("type", .string t.kind.name) :: optionalMember "value" t.value

theorem inOrder_optionalMember (name : String) (value : Option Value) :
    InOrder (optionalMember name value) := by
  cases value with
  | none => exact .nil
  | some x => exact List.pairwise_singleton _ _

theorem name_eq_of_mem_optionalMember {name : String} {value : Option Value} {m : String × Value}
    (hm : m ∈ optionalMember name value) : m.1 = name := by
  cases value with
  | none => cases hm
  | some x => rw [List.mem_singleton.1 hm]

theorem inOrder_sortedMembers (t : Token) : InOrder t.sortedMembers := by
  have hkey : "key" < "offset" := by decide
  have hoffset : "offset" < "type" := by decide
  have htype : "type" < "value" := by decide
  refine List.pairwise_append.2 ⟨List.pairwise_append.2 ⟨inOrder_optionalMember _ _,
    inOrder_optionalMember _ _, fun m hm other hother => ?_⟩,
    List.pairwise_cons.2 ⟨fun other hother => ?_, inOrder_optionalMember _ _⟩,
    fun m hm other hother => ?_⟩
  · rwa [name_eq_of_mem_optionalMember hm, name_eq_of_mem_optionalMember hother]
  · rwa [name_eq_of_mem_optionalMember hother]
  · have hle : m.1 ≤ "offset" := by
      rcases List.mem_append.1 hm with hm | hm
      · exact (name_eq_of_mem_optionalMember hm).trans_le hkey.le
      · exact (name_eq_of_mem_optionalMember hm).le
    have hge : "type" ≤ other.1 := by
      rcases List.mem_cons.1 hother with rfl | hother
      · exact le_rfl
      · exact htype.le.trans_eq (name_eq_of_mem_optionalMember hother).symm
    exact (hle.trans_lt hoffset).trans_le hge

theorem wireMembers_perm (t : Token) : (Wire.members t).Perm t.sortedMembers := by
  rw [Wire.members, sortedMembers]
  generalize optionalMember "key" (t.key.map .string) = key
  generalize optionalMember "offset" (offsetValue t.offset) = offset
  generalize optionalMember "value" t.value = value
  have hrest : (key ++ value ++ offset).Perm (key ++ offset ++ value) := by
    rw [List.append_assoc, List.append_assoc]
    exact List.perm_append_comm.append_left key
  exact (hrest.cons _).trans List.perm_middle.symm

theorem ofMembers_wireMembers (t : Token) : Value.ofMembers (Wire.members t) = t.toJson :=
  Value.ofMembers_of_perm t.wireMembers_perm t.inOrder_sortedMembers

variable {t : Token} {depth : Nat}

theorem within_of_mem_optionalMember {name : String} {value : Option Value}
    (hvalue : ∀ v ∈ value, v.Within depth) {m : String × Value}
    (hm : m ∈ optionalMember name value) : m.2.Within depth := by
  cases value with
  | none => cases hm
  | some x =>
    rw [List.mem_singleton.1 hm]
    exact hvalue x rfl

theorem within_of_mem_sortedMembers (hoffset : t.offset < 2 * offsetLimit)
    (hvalue : ∀ v ∈ t.value, v.Within depth) :
    ∀ m ∈ t.sortedMembers, m.2.Within depth := by
  intro m hm
  rw [sortedMembers, List.mem_append, List.mem_append, List.mem_cons] at hm
  rcases hm with (hkey | hnumber) | rfl | hm
  · refine within_of_mem_optionalMember (fun v hv => ?_) hkey
    obtain ⟨key, _, rfl⟩ := Option.map_eq_some_iff.1 hv
    exact .string key
  · refine within_of_mem_optionalMember (fun v hv => ?_) hnumber
    obtain ⟨_, hsome⟩ := Option.ite_none_left_eq_some.1 hv
    obtain rfl := Option.some.inj hsome
    apply Value.Within.number
    rw [Number.fits, decide_eq_true_eq]
    rw [offsetLimit] at hoffset
    omega
  · exact .string _
  · exact within_of_mem_optionalMember hvalue hm

/-- Whatever its form, a token is written as one object. -/
structure WritesOneObject (t : Token) : Prop where
  members : Value.ofMembers (Wire.members t) = t.toJson
  encoded : read? depthLimit t.encode = some t.toJson
  serialized : read? depthLimit t.serialize = some t.toJson

/-- Each form of a token gives the token back. -/
structure ComesBack (t : Token) : Prop where
  ofJson : Token.ofJson t.toJson = .ok t
  decode : Token.decode t.encode = .ok t
  deserialize : Token.deserialize t.serialize = .ok t

theorem writesOneObject (hoffset : t.offset < 2 * offsetLimit)
    (hvalue : ∀ v ∈ t.value, v.Within (depthLimit - 1)) : t.WritesOneObject := by
  have hwithin := within_of_mem_sortedMembers hoffset hvalue
  have hobject := Value.Within.object t.inOrder_sortedMembers hwithin
  refine ⟨t.ofMembers_wireMembers, read?_text hobject, ?_⟩
  rw [← t.ofMembers_wireMembers]
  exact read?_recordText (List.cons_ne_nil _ _) fun m hm => hwithin m (t.wireMembers_perm.mem_iff.1 hm)

theorem ofJson_toJson (t : Token) : Token.ofJson t.toJson = t.wire.token := by
  rw [Token.ofJson, Token.ofMembers, t.ofMembers_toJson]

theorem decode_encode (h : t.WritesOneObject) : Token.decode t.encode = t.wire.token := by
  rw [Token.decode, h.encoded]
  exact t.ofJson_toJson

theorem decode_encode_of_lt (hoffset : t.offset < offsetLimit)
    (hvalue : ∀ v ∈ t.value, v.Within (depthLimit - 1)) : Token.decode t.encode = .ok t := by
  rw [decode_encode (writesOneObject (by omega) hvalue), token_wire, if_pos hoffset]

theorem name_mem_memberNames : ∀ m ∈ Wire.members t, m.1 ∈ memberNames := by
  intro m hm
  rw [Wire.members, List.cons_append, List.cons_append, List.mem_cons, List.mem_append,
    List.mem_append] at hm
  rcases hm with rfl | (hkey | hvalue) | hoffset
  · simp [memberNames]
  · simp [memberNames, name_eq_of_mem_optionalMember hkey]
  · simp [memberNames, name_eq_of_mem_optionalMember hvalue]
  · simp [memberNames, name_eq_of_mem_optionalMember hoffset]

theorem deserialize_serialize (hoffset : t.offset < 2 * offsetLimit)
    (hvalue : ∀ v ∈ t.value, v.Within (depthLimit - 1)) :
    Token.deserialize t.serialize = t.wire.token := by
  have hwithin := within_of_mem_sortedMembers hoffset hvalue
  have hdistinct : Distinct (Wire.members t) :=
    (t.wireMembers_perm.pairwise_iff fun hne => hne.symm).2
      (t.inOrder_sortedMembers.imp fun hlt => hlt.ne)
  have hread := readRecord_recordText rfl name_mem_memberNames hdistinct
    fun m hm => hwithin m (t.wireMembers_perm.mem_iff.1 hm)
  rw [deserialize, serialize, hread, Token.ofMembers]
  rw [Option.bind_some, Wire.ofMembers_members]

/-- Tokens are written as one object in every form, and come back from each form exactly if their
offset fits 64 bits with a sign. -/
theorem writesOneObject_and_comesBack_iff (t : Token) (hoffset : t.offset < 0x10000000000000000)
    (hvalue : ∀ v ∈ t.value, v.Within (depthLimit - 1)) :
    t.WritesOneObject ∧ (t.ComesBack ↔ t.offset < offsetLimit) := by
  have hwrites := writesOneObject hoffset hvalue
  refine ⟨hwrites, fun h => ?_, fun h => ?_⟩
  · have hback := h.ofJson
    rw [ofJson_toJson, token_wire] at hback
    by_contra hlarge
    rw [if_neg hlarge] at hback
    cases hback
  · have htoken := t.token_wire
    rw [if_pos h] at htoken
    exact ⟨t.ofJson_toJson.trans htoken, (decode_encode hwrites).trans htoken,
      (deserialize_serialize hoffset hvalue).trans htoken⟩

/-- A null is a value, and not the lack of one. -/
theorem comesBack_null_value :
    (Token.backward "rank" .null 1).WritesOneObject ∧
      ((Token.backward "rank" .null 1).ComesBack ↔ 1 < offsetLimit) :=
  writesOneObject_and_comesBack_iff _ (by decide) fun _ hv => Option.some.inj hv ▸ .null

/-- The least offset that is written and not read back. -/
theorem not_comesBack_offsetLimit :
    Token.decode (Token.forward "rank" (.integer 1) offsetLimit).encode =
        .error .offsetNotInteger ∧
      ¬ (Token.forward "rank" (.integer 1) offsetLimit).ComesBack := by
  have hwrites : (Token.forward "rank" (.integer 1) offsetLimit).WritesOneObject :=
    writesOneObject (by decide) fun _ hv => Option.some.inj hv ▸ .number (by decide)
  have hdecode := decode_encode hwrites
  rw [token_wire, if_neg (by decide)] at hdecode
  refine ⟨hdecode, fun h => ?_⟩
  have hback := h.decode
  rw [hdecode] at hback
  cases hback

end Keyset.Token
