import Keyset.Proofs.KeyResolution

/-!
# The texts of paths

A text is cut at its dots, and a path is written with dots between its segments. Each text is made of
segments in one way only. Therefore a path that has been read, and extended by segments without dots,
is read from its own text again, and no other text spells it.
-/
namespace Keyset

/-- A text is made of segments without dots, with a dot between each of them and the next. -/
inductive Separated : List String → String → Prop where
  | last {segment : String} (h : '.' ∉ segment.toList) : Separated [segment] segment
  | cons {segment text : String} {segments : List String} (h : '.' ∉ segment.toList)
    (hrest : Separated segments text) : Separated (segment :: segments) (segment ++ "." ++ text)

namespace Separated

variable {segment text : String} {segments : List String}

theorem ne_nil (h : Separated segments text) : segments ≠ [] := by
  cases h <;> simp

/-- Cutting a text at its dots gives back what it is made of. -/
theorem dotted_eq (h : Separated segments text) : dotted text = segments := by
  induction h with
  | last h =>
    rw [dotted, List.splitOn_eq_singleton h]
    simp
  | cons h _ ih =>
    rw [← ih]
    simp [dotted, List.splitOn_append_cons_self_of_not_mem h]

theorem intercalate_eq (h : Separated segments text) : ".".intercalate segments = text := by
  induction h with
  | last => exact String.intercalate_singleton
  | cons _ hrest ih => rw [String.intercalate_cons_of_ne_nil hrest.ne_nil, ih]

theorem concat (h : Separated segments text) (hsegment : '.' ∉ segment.toList) :
    Separated (segments ++ [segment]) (text ++ "." ++ segment) := by
  induction h with
  | last h => exact .cons h (.last hsegment)
  | cons h _ ih =>
    have hcons := cons h ih
    simpa only [String.append_assoc, List.cons_append] using hcons

/-- One more character at the front, which lengthens the first segment if it is no dot. -/
theorem exists_push (h : Separated segments text) (c : Char) :
    ∃ segments', Separated segments' (String.singleton c ++ text) := by
  by_cases hc : c = '.'
  · subst hc
    have hempty : '.' ∉ "".toList := by simp
    exact ⟨"" :: segments, cons hempty h⟩
  · have hpush {s : String} (hs : '.' ∉ s.toList) : '.' ∉ (String.singleton c ++ s).toList := by
      simp [hs, Ne.symm hc]
    cases h with
    | last h => exact ⟨_, last (hpush h)⟩
    | cons h hrest =>
      rw [← String.append_assoc, ← String.append_assoc]
      exact ⟨_, cons (hpush h) hrest⟩

end Separated

theorem exists_separated (chars : List Char) : ∃ segments, Separated segments (String.ofList chars) := by
  induction chars with
  | nil => exact ⟨[""], .last (by simp)⟩
  | cons c rest ih =>
    obtain ⟨segments, h⟩ := ih
    have htext : String.ofList (c :: rest) = String.singleton c ++ String.ofList rest := by
      rw [← String.toList_inj]
      simp
    rw [htext]
    exact h.exists_push c

/-- Each text is made of what lies between its dots, and of nothing else. -/
theorem separated_iff {segments : List String} {text : String} :
    Separated segments text ↔ dotted text = segments := by
  refine ⟨Separated.dotted_eq, ?_⟩
  rintro rfl
  obtain ⟨segments, h⟩ := exists_separated text.toList
  rw [String.ofList_toList] at h
  rwa [h.dotted_eq]

namespace Path

variable {path : Path} {text : String}

theorem text_eq_intercalate (path : Path) : path.text = ".".intercalate path.segments := by
  rw [← String.toList_inj, Path.text, String.toList_ofList, String.toList_intercalate]
  rfl

theorem text_eq (h : Separated path.segments text) : path.text = text := by
  rw [text_eq_intercalate, h.intercalate_eq]

theorem parse_eq_ok_iff_separated :
    parse text = .ok path ↔ Separated path.segments text ∧ "" ∉ path.segments := by
  rw [parse_eq_ok_iff, separated_iff]
  constructor
  · rintro ⟨hsegments, hnonempty⟩
    exact ⟨hsegments.symm, hsegments ▸ hnonempty⟩
  · rintro ⟨hsegments, hnonempty⟩
    exact ⟨hsegments.symm, hsegments ▸ hnonempty⟩

theorem exists_parse_iff : (∃ path, parse text = .ok path) ↔
    ∀ segments, Separated segments text → "" ∉ segments := by
  constructor
  · rintro ⟨path, hparse⟩ segments h
    obtain ⟨hsegments, hnonempty⟩ := parse_eq_ok_iff_separated.1 hparse
    rwa [← h.dotted_eq, hsegments.dotted_eq]
  · intro h
    have hdotted : Separated (dotted text) text := separated_iff.2 rfl
    exact ⟨⟨dotted text, dotted_ne text⟩, parse_eq_ok_iff_separated.2 ⟨hdotted, h _ hdotted⟩⟩

theorem takesParts_iff {segments parts : List String} :
    takesParts segments parts = true ↔ segments = parts := by
  induction segments generalizing parts with
  | nil => rw [takesParts, List.isEmpty_iff, eq_comm]
  | cons segment segments ih =>
    rw [takesParts, Bool.and_eq_true, beq_iff_eq, ih]
    cases parts with
    | nil => simp
    | cons part parts => simp [eq_comm]

theorem spells_iff : path.spells text = true ↔ Separated path.segments text := by
  rw [spells, takesParts_iff, separated_iff, eq_comm]

/-- A path that has been read from a text, and then extended any number of times by segments that
are not empty and have no dots. -/
inductive Built : Path → Prop where
  | parse {text : String} {path : Path} (h : parse text = .ok path) : Built path
  | extend {path : Path} {segment : String} (h : Built path) (hnonempty : segment ≠ "")
    (hsegment : '.' ∉ segment.toList) : Built (path.extend segment)

theorem Built.separated (h : Built path) : Separated path.segments path.text ∧ "" ∉ path.segments := by
  induction h with
  | parse h =>
    obtain ⟨hsegments, hnonempty⟩ := parse_eq_ok_iff_separated.1 h
    rw [text_eq hsegments]
    exact ⟨hsegments, hnonempty⟩
  | @extend path segment _ hnonempty hsegment ih =>
    have hconcat : Separated (path.extend segment).segments (path.text ++ "." ++ segment) :=
      ih.1.concat hsegment
    rw [text_eq hconcat]
    refine ⟨hconcat, ?_⟩
    simp [ih.2, Ne.symm hnonempty]

theorem parse_eq_malformed_iff : parse text = .error (.malformedPath text) ↔
    ∃ segments, Separated segments text ∧ "" ∈ segments := by
  have hdotted : Separated (dotted text) text := separated_iff.2 rfl
  rw [parse]
  by_cases h : "" ∈ dotted text
  · rw [if_pos (List.contains_iff_mem.2 h)]
    exact iff_of_true rfl ⟨_, hdotted, h⟩
  · rw [if_neg (mt List.contains_iff_mem.1 h)]
    refine iff_of_false (by simp) ?_
    rintro ⟨segments, hsegments, hempty⟩
    exact h (hsegments.dotted_eq ▸ hempty)

/-- A text can be read as a path if it has no empty segment, and it is then the text of the path;
otherwise it is refused as it is. A path that is built from what was read is read from its own text
again, and is spelled by this text alone. -/
theorem parse_text_spells (text : String) :
    ((∃ path, parse text = .ok path) ↔ ∀ segments, Separated segments text → "" ∉ segments) ∧
    (parse text = .error (.malformedPath text) ↔
      ∃ segments, Separated segments text ∧ "" ∈ segments) ∧
    (∀ path, parse text = .ok path → path.text = text) ∧
    ∀ path, Built path → parse path.text = .ok path ∧ (path.spells text = true ↔ text = path.text) := by
  refine ⟨exists_parse_iff, parse_eq_malformed_iff, ?_, ?_⟩
  · intro path hparse
    exact text_eq (parse_eq_ok_iff_separated.1 hparse).1
  · intro path hbuilt
    obtain ⟨hsegments, hnonempty⟩ := hbuilt.separated
    refine ⟨parse_eq_ok_iff_separated.2 ⟨hsegments, hnonempty⟩, ?_⟩
    rw [spells_iff]
    constructor
    · intro h
      exact (text_eq h).symm
    · rintro rfl
      exact hsegments

/-- What is read as a path to a team, and the path to the name of this team, which is longer. -/
theorem parse_text_spells_team : ∃ read path, parse "owner.team" = .ok read ∧
    read.text = "owner.team" ∧ Built path ∧ path.segments = ["owner", "team", "name"] ∧
    parse path.text = .ok path ∧ (path.spells "owner.team" = true ↔ "owner.team" = path.text) := by
  have hparse : parse "owner.team" = .ok ⟨["owner", "team"], by decide⟩ := rfl
  have hname : "name" ≠ "" ∧ '.' ∉ "name".toList := by decide
  have hbuilt := (Built.parse hparse).extend hname.1 hname.2
  obtain ⟨_, _, htext, h⟩ := parse_text_spells "owner.team"
  obtain ⟨hagain, hspells⟩ := h _ hbuilt
  exact ⟨_, _, hparse, htext _ hparse, hbuilt, rfl, hagain, hspells⟩

end Path

end Keyset
