import Keyset.Proofs.ValidSchemas

/-!
# Registered models

A schema to which models are registered one after the other has the first model of each name, in the
order of the names. So the order in which models are registered matters only for those of one name:
a schema can be built of models that have different names and refer to each other and to their own
fields, in whatever order they come, and is then always the same.
-/
namespace Keyset

/-! ## What models have to be -/

theorem FieldKind.target?_eq_some_iff {kind : FieldKind} {target : String} :
    kind.target? = some target ↔ kind = .toOne target ∨ kind = .manyToMany target := by
  cases kind <;> simp [target?]

namespace Model

variable {model : Model} {name : String}

theorem exists_field?_iff : (∃ field, model.field? name = some field) ↔
    ∃ field ∈ model.fields, field.name = name := by
  rw [← Option.isSome_iff_exists, field?, List.find?_isSome]
  simp only [beq_iff_eq]

/-- The field that a model is ordered by is what its first entry says, the sign apart. -/
theorem defaultOrdering?_eq_some_iff : model.defaultOrdering? = some name ↔
    ∃ entry rest descending, model.ordering = entry :: rest ∧
      SortKey.Signed entry name descending ∧ name ≠ "" := by
  cases hordering : model.ordering with
  | nil => simp [defaultOrdering?, hordering]
  | cons entry rest =>
    have hentry : model.defaultOrdering? = if (SortKey.splitDirection entry).1 = "" then none
        else some (SortKey.splitDirection entry).1 := by
      have hstrip : (stripDescending entry).getD entry = (SortKey.splitDirection entry).1 := by
        rw [SortKey.splitDirection]
        cases stripDescending entry <;> rfl
      simp only [defaultOrdering?, hordering, List.head?_cons, Option.bind_eq_bind,
        Option.bind_some, hstrip]
    rw [hentry]
    constructor
    · intro h
      split at h
      · cases h
      · next hne =>
        obtain rfl := Option.some.inj h
        exact ⟨entry, rest, _, rfl, SortKey.splitDirection_eq_iff.1 rfl, hne⟩
    · rintro ⟨_, _, _, hcons, hsigned, hne⟩
      cases hcons
      rw [SortKey.splitDirection_eq_iff.2 hsigned, if_neg hne]

end Model

namespace Schema

variable {schema next built : Schema} {model : Model} {models : List Model} {name : String}
  {e : ConfigError}

/-! ## Schemas in the order of their names -/

def InOrder (schema : Schema) : Prop := schema.models.Pairwise fun a b => a.name < b.name

theorem insertModel_perm (model : Model) (models : List Model) :
    (insertModel model models).Perm (model :: models) := by
  induction models with
  | nil => exact .refl _
  | cons other rest ih =>
    rw [insertModel]
    split
    · exact .refl _
    · exact (ih.cons other).trans (.swap model other rest)

theorem InOrder.insertModel (h : schema.InOrder)
    (hnew : ∀ other ∈ schema.models, other.name ≠ model.name) :
    InOrder ⟨insertModel model schema.models⟩ := by
  obtain ⟨models⟩ := schema
  simp only [InOrder] at h hnew ⊢
  induction models with
  | nil => exact List.pairwise_singleton _ _
  | cons other rest ih =>
    obtain ⟨hother, hrest⟩ := List.pairwise_cons.1 h
    obtain ⟨hne, hnew⟩ := List.forall_mem_cons.1 hnew
    rw [Schema.insertModel]
    split
    · next hlt =>
      refine List.pairwise_cons.2 ⟨?_, h⟩
      intro later hlater
      rcases List.mem_cons.1 hlater with rfl | hlater
      · exact hlt
      · exact String.lt_trans hlt (hother later hlater)
    · next hnlt =>
      have hlt : other.name < model.name := lt_of_le_of_ne (not_lt.1 hnlt) hne
      refine List.pairwise_cons.2 ⟨?_, ih hrest hnew⟩
      intro later hlater
      rcases List.mem_cons.1 ((insertModel_perm model rest).mem_iff.1 hlater) with rfl | hlater
      · exact hlt
      · exact hother later hlater

/-- In order, a model is found under its name. -/
theorem InOrder.model?_eq_some_iff (h : schema.InOrder) :
    schema.model? name = some model ↔ model ∈ schema.models ∧ model.name = name := by
  have hnodup : (schema.models.map Model.name).Nodup :=
    List.pairwise_map.2 (h.imp fun hlt => ne_of_lt hlt)
  constructor
  · intro hfound
    exact ⟨mem_of_model? hfound, by simpa using List.find?_some hfound⟩
  · rintro ⟨hmem, rfl⟩
    cases hfound : schema.model? model.name with
    | none => simpa using List.find?_eq_none.1 hfound model hmem
    | some other =>
      have hname : other.name = model.name := by simpa using List.find?_some hfound
      rw [List.inj_on_of_nodup_map hnodup (mem_of_model? hfound) hmem hname]

theorem InOrder.eq_of_mem_iff (h : schema.InOrder) (hnext : next.InOrder)
    (hmem : ∀ model, model ∈ schema.models ↔ model ∈ next.models) : schema = next := by
  have hnodup {s : Schema} (hs : s.InOrder) : s.models.Nodup := by
    refine List.Pairwise.imp ?_ hs
    rintro a _ hlt rfl
    exact lt_irrefl _ hlt
  have hperm : schema.models.Perm next.models :=
    (List.perm_ext_iff_of_nodup (hnodup h) (hnodup hnext)).2 hmem
  have hmodels : schema.models = next.models :=
    hperm.eq_of_pairwise (fun a b _ _ hlt hgt => absurd hlt (not_lt.2 (le_of_lt hgt))) h hnext
  cases schema
  cases next
  exact congrArg mk hmodels

/-! ## Registering in place -/

def enter (model : Model) : ExceptT ConfigError (StateM Schema) Unit := do
  if model.name = "" then throw .emptyModelName
  if (← get).knows model.name then throw (.duplicateModel model.name)
  modify fun schema => ⟨insertModel model schema.models⟩

/-- The answer to a call that registers a model, and the schema after it. -/
def call (schema : Schema) (model : Model) : Except ConfigError Unit × Schema :=
  (enter model).run.run schema

/-- The schema after a sequence of calls, whatever their answers are. -/
def afterCalls (models : List Model) : Schema :=
  models.foldl (fun schema model => (schema.call model).2) empty

theorem call_eq : schema.call model = match schema.register model with
    | .ok next => (.ok (), next)
    | .error e => (.error e, schema) := by
  rw [register, call, enter]
  by_cases hempty : model.name = ""
  · rw [if_pos hempty, if_pos hempty]
    rfl
  · rw [if_neg hempty, if_neg hempty]
    change (if schema.knows model.name = true then _ else _ : ExceptT _ (StateM _) _).run.run schema = _
    split <;> rfl

theorem register_eq_ok_iff : schema.register model = .ok next ↔
    model.name ≠ "" ∧ schema.model? model.name = none ∧
      next = ⟨insertModel model schema.models⟩ := by
  rw [register, knows]
  by_cases hempty : model.name = ""
  · simp [hempty]
  · cases hknown : schema.model? model.name with
    | some other => simp [hempty]
    | none => simp [hempty, eq_comm]

/-- A schema has, in the order of their names, the first of some models under each name but the empty
one. -/
structure HoldsFirst (schema : Schema) (models : List Model) : Prop where
  inOrder : schema.InOrder
  mem_iff : ∀ model, model ∈ schema.models ↔ schema.model? model.name = some model
  model?_eq : ∀ name, schema.model? name =
    if name = "" then none else models.find? fun model => model.name == name

theorem holdsFirst_empty : empty.HoldsFirst [] where
  inOrder := .nil
  mem_iff model := by simp [empty, model?]
  model?_eq name := by simp [empty, model?]

theorem HoldsFirst.model?_eq_none_iff (h : schema.HoldsFirst models) (hname : name ≠ "") :
    schema.model? name = none ↔ ∀ other ∈ models, other.name ≠ name := by
  rw [h.model?_eq, if_neg hname, List.find?_eq_none]
  simp only [beq_iff_eq, ne_eq]

theorem HoldsFirst.exists_register_iff (h : schema.HoldsFirst models) :
    (∃ next, schema.register model = .ok next) ↔
      model.name ≠ "" ∧ ∀ other ∈ models, other.name ≠ model.name := by
  constructor
  · rintro ⟨next, hnext⟩
    obtain ⟨hname, hfree, _⟩ := register_eq_ok_iff.1 hnext
    exact ⟨hname, (h.model?_eq_none_iff hname).1 hfree⟩
  · rintro ⟨hname, hnew⟩
    exact ⟨_, register_eq_ok_iff.2 ⟨hname, (h.model?_eq_none_iff hname).2 hnew, rfl⟩⟩

theorem HoldsFirst.register (h : schema.HoldsFirst models)
    (hnext : schema.register model = .ok next) : next.HoldsFirst (models ++ [model]) := by
  obtain ⟨hname, hfree, rfl⟩ := register_eq_ok_iff.1 hnext
  have hnew : ∀ other ∈ schema.models, other.name ≠ model.name := by
    simpa only [model?, List.find?_eq_none, beq_iff_eq] using hfree
  have horder := h.inOrder.insertModel hnew
  have hmem (other : Model) :
      other ∈ insertModel model schema.models ↔ other = model ∨ other ∈ schema.models := by
    rw [(insertModel_perm model schema.models).mem_iff, List.mem_cons]
  refine ⟨horder, fun other => by simp [horder.model?_eq_some_iff], fun name => ?_⟩
  rw [List.find?_append]
  by_cases hsame : model.name = name
  · subst hsame
    have hnone : models.find? (fun other => other.name == model.name) = none := by
      rw [← hfree, h.model?_eq, if_neg hname]
    rw [if_neg hname, hnone, horder.model?_eq_some_iff.2 ⟨(hmem model).2 (.inl rfl), rfl⟩]
    simp
  · have hother : [model].find? (fun other => other.name == name) = none := by
      simp [hsame]
    rw [hother, Option.or_none, ← h.model?_eq]
    apply Option.ext
    intro other
    rw [horder.model?_eq_some_iff, h.inOrder.model?_eq_some_iff, hmem]
    constructor
    · rintro ⟨rfl | hother, hfound⟩
      · exact absurd hfound hsame
      · exact ⟨hother, hfound⟩
    · rintro ⟨hother, hfound⟩
      exact ⟨.inr hother, hfound⟩

/-- A model that is refused is none, or not the first one, of its name. -/
theorem HoldsFirst.refuse (h : schema.HoldsFirst models) (he : schema.register model = .error e) :
    schema.HoldsFirst (models ++ [model]) := by
  refine ⟨h.inOrder, h.mem_iff, fun name => ?_⟩
  rw [h.model?_eq]
  split
  · rfl
  · next hname =>
    rw [List.find?_append]
    by_cases hsame : model.name = name
    · subst hsame
      cases hfind : models.find? (fun other => other.name == model.name) with
      | some other => rfl
      | none =>
        have hfree : schema.model? model.name = none := by
          rw [h.model?_eq, if_neg hname, hfind]
        rw [register_eq_ok_iff.2 ⟨hname, hfree, rfl⟩] at he
        cases he
    · have hother : [model].find? (fun other => other.name == name) = none := by
        simp [hsame]
      rw [hother, Option.or_none]

theorem HoldsFirst.call (h : schema.HoldsFirst models) (model : Model) :
    (schema.call model).2.HoldsFirst (models ++ [model]) := by
  rw [call_eq]
  cases hregister : schema.register model with
  | ok next => exact h.register hregister
  | error e => exact h.refuse hregister

theorem afterCalls_concat : afterCalls (models ++ [model]) = ((afterCalls models).call model).2 := by
  rw [afterCalls, List.foldl_append]
  rfl

/-- After any calls, a schema has the first model of each name. -/
theorem holdsFirst_afterCalls (models : List Model) : (afterCalls models).HoldsFirst models := by
  induction models using List.reverseRecOn with
  | nil => exact holdsFirst_empty
  | append_singleton models model ih =>
    rw [afterCalls_concat]
    exact ih.call model

/-! ## Building a schema of models -/

/-- Models have different names, which are not empty, their relations lead to each other, and the
first entry of an ordering names a field, unless it names nothing. -/
structure Consistent (models : List Model) : Prop where
  named : ∀ model ∈ models, model.name ≠ ""
  distinct : (models.map Model.name).Nodup
  relations : ∀ model ∈ models, ∀ field ∈ model.fields, ∀ target,
    field.kind = .toOne target ∨ field.kind = .manyToMany target →
      ∃ related ∈ models, related.name = target
  orderings : ∀ model ∈ models, ∀ entry rest name descending, model.ordering = entry :: rest →
    SortKey.Signed entry name descending → name ≠ "" → ∃ field ∈ model.fields, field.name = name

theorem Consistent.perm {other : List Model} (h : Consistent models) (hperm : other.Perm models) :
    Consistent other where
  named model hmodel := h.named model (hperm.mem_iff.1 hmodel)
  distinct := (hperm.map _).nodup_iff.2 h.distinct
  relations model hmodel field hfield target htarget := by
    obtain ⟨related, hrelated, hname⟩ :=
      h.relations model (hperm.mem_iff.1 hmodel) field hfield target htarget
    exact ⟨related, hperm.mem_iff.2 hrelated, hname⟩
  orderings model hmodel := h.orderings model (hperm.mem_iff.1 hmodel)

theorem registerAll_concat : registerAll (models ++ [model]) schema = .ok built ↔
    ∃ before, registerAll models schema = .ok before ∧ before.register model = .ok built := by
  have hbind : registerAll (models ++ [model]) schema =
      registerAll models schema >>= fun before => before.register model := by
    simp [registerAll]
  rw [hbind]
  cases registerAll models schema <;> simp [bind, Except.bind]

theorem registerAll_empty_eq_ok_iff : registerAll models empty = .ok built ↔
    (∀ model ∈ models, model.name ≠ "") ∧ (models.map Model.name).Nodup ∧
      built = afterCalls models := by
  induction models using List.reverseRecOn generalizing built with
  | nil =>
    constructor
    · intro h
      exact ⟨by simp, by simp, (Except.ok.inj h).symm⟩
    · rintro ⟨_, _, rfl⟩
      rfl
  | append_singleton models model ih =>
    have hnew : (∃ next, (afterCalls models).register model = .ok next) ↔ _ :=
      (holdsFirst_afterCalls models).exists_register_iff
    have hnames : (∀ other ∈ models ++ [model], other.name ≠ "") ∧
        ((models ++ [model]).map Model.name).Nodup ↔
        (∀ other ∈ models, other.name ≠ "") ∧ (models.map Model.name).Nodup ∧
          model.name ≠ "" ∧ ∀ other ∈ models, other.name ≠ model.name := by
      simp [List.nodup_append, or_imp, forall_and]
      tauto
    rw [registerAll_concat, ← and_assoc, hnames, ← hnew, afterCalls_concat]
    constructor
    · rintro ⟨_, hbefore, hbuilt⟩
      obtain ⟨hnamed, hdistinct, rfl⟩ := ih.1 hbefore
      refine ⟨⟨hnamed, hdistinct, built, hbuilt⟩, ?_⟩
      rw [call_eq, hbuilt]
    · rintro ⟨⟨hnamed, hdistinct, next, hnext⟩, rfl⟩
      refine ⟨_, ih.2 ⟨hnamed, hdistinct, rfl⟩, ?_⟩
      rw [call_eq, hnext]

section

variable (hnamed : ∀ model ∈ models, model.name ≠ "") (hdistinct : (models.map Model.name).Nodup)

include hnamed hdistinct

theorem mem_afterCalls_iff : model ∈ (afterCalls models).models ↔ model ∈ models := by
  have hfirst := holdsFirst_afterCalls models
  rw [hfirst.mem_iff, hfirst.model?_eq]
  constructor
  · intro h
    split at h
    · cases h
    · exact List.mem_of_find?_eq_some h
  · intro hmem
    rw [if_neg (hnamed model hmem)]
    cases hfind : models.find? (fun other => other.name == model.name) with
    | none => simpa using List.find?_eq_none.1 hfind model hmem
    | some other =>
      have hname : other.name = model.name := by simpa using List.find?_some hfind
      rw [List.inj_on_of_nodup_map hdistinct (List.mem_of_find?_eq_some hfind) hmem hname]

theorem exists_model?_afterCalls_iff : (∃ related, (afterCalls models).model? name = some related) ↔
    ∃ related ∈ models, related.name = name := by
  simp only [(holdsFirst_afterCalls models).inOrder.model?_eq_some_iff,
    mem_afterCalls_iff hnamed hdistinct]

theorem valid_afterCalls_iff : (afterCalls models).Valid ↔ Consistent models := by
  constructor
  · rintro ⟨hrelations, horderings⟩
    simp only [mem_afterCalls_iff hnamed hdistinct, exists_model?_afterCalls_iff hnamed hdistinct,
      FieldKind.target?_eq_some_iff] at hrelations
    simp only [mem_afterCalls_iff hnamed hdistinct, Model.exists_field?_iff] at horderings
    refine ⟨hnamed, hdistinct, hrelations, ?_⟩
    intro model hmodel entry rest name descending hentry hsigned hname
    exact horderings model hmodel name
      (Model.defaultOrdering?_eq_some_iff.2 ⟨entry, rest, descending, hentry, hsigned, hname⟩)
  · rintro ⟨_, _, hrelations, horderings⟩
    constructor
    · simpa only [mem_afterCalls_iff hnamed hdistinct,
        exists_model?_afterCalls_iff hnamed hdistinct, FieldKind.target?_eq_some_iff]
    · intro model hmodel name hordering
      rw [mem_afterCalls_iff hnamed hdistinct] at hmodel
      obtain ⟨entry, rest, descending, hentry, hsigned, hname⟩ :=
        Model.defaultOrdering?_eq_some_iff.1 hordering
      exact Model.exists_field?_iff.2
        (horderings model hmodel entry rest name descending hentry hsigned hname)

end

theorem ofModels_eq_ok_iff : ofModels models = .ok schema ↔
    Consistent models ∧ schema = afterCalls models := by
  rw [ofModels_eq_ok_iff_registerAll, registerAll_empty_eq_ok_iff, validate_eq_ok_iff]
  constructor
  · rintro ⟨⟨hnamed, hdistinct, rfl⟩, hvalid⟩
    exact ⟨(valid_afterCalls_iff hnamed hdistinct).1 hvalid, rfl⟩
  · rintro ⟨h, rfl⟩
    exact ⟨⟨h.named, h.distinct, rfl⟩, (valid_afterCalls_iff h.named h.distinct).2 h⟩

/-- In whatever order consistent models are registered, the schema is the same. -/
theorem Consistent.afterCalls_eq {other : List Model} (h : Consistent models)
    (hperm : other.Perm models) : afterCalls other = afterCalls models := by
  apply (holdsFirst_afterCalls other).inOrder.eq_of_mem_iff (holdsFirst_afterCalls models).inOrder
  intro model
  have hother := h.perm hperm
  rw [mem_afterCalls_iff h.named h.distinct, mem_afterCalls_iff hother.named hother.distinct,
    hperm.mem_iff]

/-- After any calls that register models, a schema has the first model of each name. A further call
is accepted if it has a new name, and otherwise leaves the schema as it is. A schema can be built of
models if they are consistent, and it is then the same one in whatever order they come. -/
theorem registered_models (models : List Model) :
    (afterCalls models).HoldsFirst models ∧
    (∀ model,
      (∀ next, (afterCalls models).register model = .ok next ↔
        (afterCalls models).call model = (.ok (), next)) ∧
      (∀ e, (afterCalls models).register model = .error e ↔
        (afterCalls models).call model = (.error e, afterCalls models)) ∧
      ((∃ next, (afterCalls models).call model = (.ok (), next)) ↔
        model.name ≠ "" ∧ ∀ other ∈ models, other.name ≠ model.name)) ∧
    (∀ schema, ofModels models = .ok schema ↔ Consistent models ∧ schema = afterCalls models) ∧
    ∀ other : List Model, other.Perm models →
      (∀ schema, ofModels models = .ok schema → ofModels other = .ok schema) ∧
      ∀ e, ofModels models = .error e → ∃ e', ofModels other = .error e' := by
  have hfirst := holdsFirst_afterCalls models
  refine ⟨hfirst, ?_, fun _ => ofModels_eq_ok_iff, ?_⟩
  · intro model
    rw [← hfirst.exists_register_iff, call_eq]
    cases (afterCalls models).register model <;> simp
  · intro other hperm
    constructor
    · intro schema h
      obtain ⟨hconsistent, rfl⟩ := ofModels_eq_ok_iff.1 h
      exact ofModels_eq_ok_iff.2 ⟨hconsistent.perm hperm, (hconsistent.afterCalls_eq hperm).symm⟩
    · intro e he
      cases hother : ofModels other with
      | error e' => exact ⟨e', rfl⟩
      | ok schema =>
        obtain ⟨hconsistent, _⟩ := ofModels_eq_ok_iff.1 hother
        rw [ofModels_eq_ok_iff.2 ⟨hconsistent.perm hperm.symm, rfl⟩] at he
        cases he

/-- Two models that refer to each other, in both orders, and the same with one of them once more. -/
theorem registered_models_teams : teams.reverse.Perm teams ∧
    (∃ schema, ofModels teams = .ok schema ∧ ofModels teams.reverse = .ok schema) ∧
    (teams ++ teams.take 1).reverse.Perm (teams ++ teams.take 1) ∧
    ofModels (teams ++ teams.take 1) = .error (.duplicateModel "User") ∧
    ∃ e, ofModels (teams ++ teams.take 1).reverse = .error e := by
  have hschema : ofModels teams = .ok ⟨teams.reverse⟩ := rfl
  have htwice : ofModels (teams ++ teams.take 1) = .error (.duplicateModel "User") := rfl
  have hperm := List.reverse_perm teams
  have hperm' := List.reverse_perm (teams ++ teams.take 1)
  have hsame := ((registered_models teams).2.2.2 _ hperm).1 _ hschema
  have hrefused := ((registered_models (teams ++ teams.take 1)).2.2.2 _ hperm').2 _ htwice
  exact ⟨hperm, ⟨_, hschema, hsame⟩, hperm', htwice, hrefused⟩

end Schema

end Keyset
