import Keyset.Config.Load
import Keyset.Proofs.ByteOrder
import Keyset.Proofs.ValidSchemas

/-!
# Valid configurations

A configuration is valid if its models are, and if each of its listings has a paginator, which does
not depend on the store. Of the listings that have none, the one whose name is the least is reported
with the error that its paginator is refused with.
-/
namespace Keyset

namespace Listing

variable {C : Type} {schema : Schema} {listing : Listing} {key : SortKey} {e : ConfigError}

/-- A paginator has what a listing asks for. -/
structure Paginates (listing : Listing) (schema : Schema) (store : C) (count : Nat)
    (p : Paginator C) : Prop where
  store_eq : p.store = store
  count_eq : p.count = count
  perPage_eq : p.perPage = listing.perPage
  key_eq : p.key.key = listing.key
  resolve_eq : SortKey.resolve schema listing.model listing.key = .ok p.key

/-- There is a paginator of the listing over every store, whatever its count. -/
def Works (listing : Listing) (schema : Schema) : Prop :=
  ∀ (C : Type) (store : C) (count : Nat), ∃ p,
    Paginator.ofListing store schema listing count = .ok p ∧ listing.Paginates schema store count p

theorem one_lt_perPage (h : listing.validate = .ok ()) : 1 < listing.perPage := by
  rw [validate] at h
  split at h
  · cases h
  · split at h
    · cases h
    · split at h
      · cases h
      · omega

theorem sortKey_eq_ok_iff : listing.sortKey schema = .ok key ↔
    listing.validate = .ok () ∧ SortKey.resolve schema listing.model listing.key = .ok key := by
  rw [sortKey]
  cases listing.validate <;> simp [bind, Except.bind]

theorem works_of_sortKey (h : listing.sortKey schema = .ok key) : listing.Works schema := by
  intro C store count
  obtain ⟨hvalid, hkey⟩ := sortKey_eq_ok_iff.1 h
  have hper := one_lt_perPage hvalid
  refine ⟨⟨store, key, listing.perPage, count, hper, wordCeiling⟩, ?_, ?_⟩
  · simp only [Paginator.ofListing, h, Paginator.make, dif_pos hper, bind, Except.bind]
  · exact ⟨rfl, rfl, rfl, (SortKey.resolve_eq_ok_iff.1 hkey).key_eq, hkey⟩

theorem ofListing_of_error (h : listing.sortKey schema = .error e) (store : C) (count : Nat) :
    Paginator.ofListing store schema listing count = .error e := by
  simp only [Paginator.ofListing, h, bind, Except.bind]

theorem not_works_of_error (h : listing.sortKey schema = .error e) : ¬ listing.Works schema := by
  intro hworks
  obtain ⟨p, hp, _⟩ := hworks Unit () 0
  rw [ofListing_of_error h] at hp
  cases hp

end Listing

namespace Config

/-- The listings have different names, in increasing order. -/
def InOrder (config : Config) : Prop := config.listings.Pairwise fun a b => a.1 < b.1

instance (config : Config) : Decidable config.InOrder :=
  inferInstanceAs (Decidable (config.listings.Pairwise fun a b => a.1 < b.1))

variable {config : Config} {schema : Schema} {name : String} {listing : Listing} {e : ConfigError}

/-! ## Listings by name -/

theorem fst_mem_insertListing {entries : List (String × Listing)} {entry : String × Listing}
    (h : entry ∈ insertListing name listing entries) : entry.1 = name ∨ entry ∈ entries := by
  induction entries with
  | nil => simp_all [insertListing]
  | cons first rest ih =>
    rw [insertListing] at h
    split at h
    · rcases List.mem_cons.1 h with rfl | h
      · exact .inl rfl
      · exact .inr h
    · split at h
      · rcases List.mem_cons.1 h with rfl | h
        · exact .inl rfl
        · exact .inr (List.mem_cons_of_mem _ h)
      · rcases List.mem_cons.1 h with rfl | h
        · exact .inr List.mem_cons_self
        · exact (ih h).imp_right (List.mem_cons_of_mem _)

theorem pairwise_insertListing {entries : List (String × Listing)}
    (h : entries.Pairwise fun a b => a.1 < b.1) :
    (insertListing name listing entries).Pairwise fun a b => a.1 < b.1 := by
  induction entries with
  | nil => exact List.pairwise_singleton _ _
  | cons first rest ih =>
    obtain ⟨hfirst, hrest⟩ := List.pairwise_cons.1 h
    rw [insertListing]
    split
    · next hlt =>
      refine List.pairwise_cons.2 ⟨?_, h⟩
      intro entry hentry
      rcases List.mem_cons.1 hentry with rfl | hentry
      · exact hlt
      · exact String.lt_trans hlt (hfirst entry hentry)
    · split
      · next heq => exact List.pairwise_cons.2 ⟨heq ▸ hfirst, hrest⟩
      · next hnlt hne =>
        refine List.pairwise_cons.2 ⟨?_, ih hrest⟩
        intro entry hentry
        rcases fst_mem_insertListing hentry with hname | hentry
        · rw [hname]
          exact lt_of_le_of_ne (not_lt.1 hnlt) (Ne.symm hne)
        · exact hfirst entry hentry

theorem InOrder.listing_eq_ok_iff (h : config.InOrder) :
    config.listing name = .ok listing ↔ (name, listing) ∈ config.listings := by
  have hnodup : (config.listings.map Prod.fst).Nodup :=
    List.pairwise_map.2 (h.imp fun hlt => ne_of_lt hlt)
  rw [Config.listing]
  constructor
  · intro hfound
    split at hfound
    · next other found hfind =>
      have hname : other = name := by simpa using List.find?_some hfind
      cases hfound
      exact hname ▸ List.mem_of_find?_eq_some hfind
    · cases hfound
  · intro hmem
    split
    · next other found hfind =>
      have hname : other = name := by simpa using List.find?_some hfind
      have hsame := List.inj_on_of_nodup_map hnodup (List.mem_of_find?_eq_some hfind) hmem hname
      rw [(Prod.mk.inj hsame).2]
    · next hnone =>
      have hne := List.find?_eq_none.1 hnone _ hmem
      simp at hne

def Gives {α : Type} (visit : Yaml.Visit α) (P : α → Prop) : Prop :=
  ∀ left result, visit.run left = some result → P result.1

theorem gives_pure {α : Type} {a : α} {P : α → Prop} (h : P a) :
    Gives (pure a : Yaml.Visit α) P := by
  rintro left _ ⟨⟩
  exact h

theorem gives_throw {α : Type} {P : α → Prop} : Gives (throw () : Yaml.Visit α) P := by
  rintro left _ ⟨⟩

theorem Gives.bind {α β : Type} {visit : Yaml.Visit α} {next : α → Yaml.Visit β} {P : α → Prop}
    {Q : β → Prop} (h : Gives visit P) (hnext : ∀ a, P a → Gives (next a) Q) :
    Gives (visit >>= next) Q := by
  intro left result hrun
  rw [StateT.run_bind] at hrun
  obtain ⟨⟨a, left'⟩, hvisit, hrest⟩ := Option.bind_eq_some_iff.1 hrun
  exact hnext a (h left _ hvisit) left' result hrest

theorem gives_any {α : Type} (visit : Yaml.Visit α) : Gives visit fun _ => True :=
  fun _ _ _ => trivial

theorem gives_foldlM {α β : Type} {step : β → α → Yaml.Visit β} {P : β → Prop}
    (hstep : ∀ b a, P b → Gives (step b a) P) (xs : List α) {b : β} (h : P b) :
    Gives (xs.foldlM step b) P := by
  induction xs generalizing b with
  | nil => exact gives_pure h
  | cons x xs ih =>
    rw [List.foldlM_cons]
    exact (hstep b x h).bind fun _ hb => ih hb

/-- The listings of a configuration that is read are in order. -/
theorem inOrder_of_readYaml? {text : String} (h : readYaml? text = some config) :
    config.InOrder := by
  have hread : ∀ tree : Yaml.Tree, Gives (ofDocument? tree) InOrder := by
    intro tree
    rw [ofDocument?]
    refine (gives_any _).bind fun members _ => (gives_any _).bind fun models _ => ?_
    refine Gives.bind (P := fun listings => listings.Pairwise fun a b => a.1 < b.1) ?_
      fun listings h => gives_pure h
    rw [Document.optional]
    split
    · exact gives_pure .nil
    · rw [readListings]
      refine (gives_any _).bind fun members _ => gives_foldlM ?_ members .nil
      intro listings member hlistings
      exact (gives_any _).bind fun listing _ => gives_pure (pairwise_insertListing hlistings)
    · exact gives_throw
  obtain ⟨tree, _, hrun⟩ := Option.bind_eq_some_iff.1 h
  obtain ⟨result, hresult, rfl⟩ := Option.map_eq_some_iff.1 hrun
  exact hread tree _ result hresult

/-! ## Checking listings -/

theorem checkListing_eq_ok_iff {entry : String × Listing} :
    checkListing schema entry = .ok () ↔ entry.2.Works schema := by
  rw [checkListing]
  cases hkey : entry.2.sortKey schema with
  | ok key => simp [Listing.works_of_sortKey hkey]
  | error e => simp [Listing.not_works_of_error hkey]

theorem checkListing_eq_error {entry : String × Listing}
    (h : checkListing schema entry = .error e) :
    ∃ cause, e = .inListing entry.1 cause ∧ entry.2.sortKey schema = .error cause := by
  rw [checkListing] at h
  split at h
  · cases h
  · next cause hcause => exact ⟨cause, (Except.error.inj h).symm, hcause⟩

theorem validate_of_schema (h : config.schema = .ok schema) :
    config.validate = config.listings.forM (checkListing schema) := by
  simp only [validate, h, bind, Except.bind]

/-- A configuration is valid if its schema is and all its listings work. -/
theorem InOrder.validate_eq_ok_iff (horder : config.InOrder) : config.validate = .ok () ↔
    ∃ schema, config.schema = .ok schema ∧
      ∀ name listing, config.listing name = .ok listing → listing.Works schema := by
  cases hschema : config.schema with
  | error e => simp [validate, hschema, bind, Except.bind]
  | ok schema =>
    rw [validate_of_schema hschema, forM_eq_ok_iff]
    simp only [checkListing_eq_ok_iff, horder.listing_eq_ok_iff]
    constructor
    · intro h
      exact ⟨schema, rfl, fun name listing hmem => h (name, listing) hmem⟩
    · rintro ⟨_, hsame, h⟩ ⟨name, listing⟩ hmem
      exact Except.ok.inj hsame ▸ h name listing hmem

/-- The first listing that does not work is reported. -/
theorem InOrder.exists_validate_eq_error (horder : config.InOrder)
    (hschema : config.schema = .ok schema) (hname : config.listing name = .ok listing)
    (hbad : ¬ listing.Works schema) :
    ∃ first bad cause, config.listing first = .ok bad ∧ bad.sortKey schema = .error cause ∧
      config.validate = .error (.inListing first cause) ∧
      ∀ other good, config.listing other = .ok good → other < first → good.Works schema := by
  cases hvalid : config.validate with
  | ok =>
    obtain ⟨_, hschema', hworks⟩ := horder.validate_eq_ok_iff.1 hvalid
    obtain rfl := Except.ok.inj (hschema.symm.trans hschema')
    exact absurd (hworks name listing hname) hbad
  | error e =>
    rw [validate_of_schema hschema] at hvalid
    obtain ⟨front, ⟨first, bad⟩, back, hlistings, hfront, hfirst⟩ := forM_eq_error_iff.1 hvalid
    obtain ⟨cause, rfl, hcause⟩ := checkListing_eq_error hfirst
    refine ⟨first, bad, cause, ?_, hcause, rfl, ?_⟩
    · rw [horder.listing_eq_ok_iff, hlistings]
      simp
    · intro other good hother hlt
      rw [horder.listing_eq_ok_iff, hlistings] at hother
      rcases List.mem_append.1 hother with hmem | hmem
      · exact checkListing_eq_ok_iff.1 (hfront _ hmem)
      · have hle : first ≤ other := by
          rw [InOrder, hlistings] at horder
          obtain ⟨_, hrest, _⟩ := List.pairwise_append.1 horder
          rcases List.mem_cons.1 hmem with heq | hmem
          · exact le_of_eq (Prod.mk.inj heq).1.symm
          · exact le_of_lt ((List.pairwise_cons.1 hrest).1 _ hmem)
        exact absurd hlt (not_lt.2 hle)

/-- A configuration is valid if its schema is and every listing has a paginator over every store.
Otherwise, if the schema is valid, the listing is reported that has none and whose name is the least
by its bytes, with the message that its paginator is refused with. -/
theorem validate_predicts_paginators (config : Config) (horder : config.InOrder) :
    (config.validate = .ok () ↔ ∃ schema, config.schema = .ok schema ∧
      ∀ name listing, config.listing name = .ok listing →
        ∀ (C : Type) (store : C) (count : Nat), ∃ p,
          Paginator.ofListing store schema listing count = .ok p ∧
            listing.Paginates schema store count p) ∧
    ∀ schema name listing, config.schema = .ok schema → config.listing name = .ok listing →
      ¬ listing.Works schema →
        ∃ first bad cause text, config.listing first = .ok bad ∧
          (∀ (C : Type) (store : C) (count : Nat),
            Paginator.ofListing store schema bad count = .error cause) ∧
          cause.message = "Configuration error: " ++ text ∧
          config.validate = .error (.inListing first cause) ∧
          (ConfigError.inListing first cause).message =
            "Configuration error: " ++ ("Listing " ++ ConfigError.quoted first ++ ": " ++ text) ∧
          ∀ other good, config.listing other = .ok good → bytes other < bytes first →
            good.Works schema := by
  refine ⟨horder.validate_eq_ok_iff, ?_⟩
  intro schema name listing hschema hname hbad
  obtain ⟨first, bad, cause, hfirst, hcause, hvalid, hothers⟩ :=
    horder.exists_validate_eq_error hschema hname hbad
  refine ⟨first, bad, cause, cause.detail, hfirst, ?_, rfl, hvalid, rfl, ?_⟩
  · intro C store count
    exact Listing.ofListing_of_error hcause store count
  · intro other good hother hlt
    exact hothers other good hother (bytes_lt_iff.1 hlt)

/-- Guests by name, and two listings whose pages are too small. -/
def guests : Config where
  models := [⟨"Guest", ["name"], [⟨"name", false, .scalar .text⟩, ⟨"host", true, .toOne "Guest"⟩]⟩]
  listings := [("all", ⟨"Guest", "-host", 25⟩), ("hosts", ⟨"Guest", "host", 1⟩),
    ("names", ⟨"Guest", "name", 0⟩)]

theorem validate_predicts_paginators_guests : guests.InOrder ∧ ∃ schema listing,
    guests.schema = .ok schema ∧ guests.listing "names" = .ok listing ∧ ¬ listing.Works schema ∧
      ∃ first bad cause text, guests.listing first = .ok bad ∧
        (∀ (C : Type) (store : C) (count : Nat),
          Paginator.ofListing store schema bad count = .error cause) ∧
        cause.message = "Configuration error: " ++ text ∧
        guests.validate = .error (.inListing first cause) ∧
        (ConfigError.inListing first cause).message =
          "Configuration error: " ++ ("Listing " ++ ConfigError.quoted first ++ ": " ++ text) ∧
        ∀ other good, guests.listing other = .ok good → bytes other < bytes first →
          good.Works schema := by
  have horder : guests.InOrder := by decide
  have hschema : guests.schema = .ok ⟨guests.models⟩ := rfl
  have hlisting : guests.listing "names" = .ok ⟨"Guest", "name", 0⟩ := rfl
  have hsmall : Listing.sortKey ⟨guests.models⟩ ⟨"Guest", "name", 0⟩ = .error (.pageTooSmall 0) := rfl
  have hbad := Listing.not_works_of_error hsmall
  exact ⟨horder, _, _, hschema, hlisting, hbad,
    (validate_predicts_paginators guests horder).2 _ _ _ hschema hlisting hbad⟩

example : guests.validate = .error (.inListing "hosts" (.pageTooSmall 1)) := by decide +kernel

end Config

end Keyset
