import FacetSearch.Query.Basic

/-! Taxonomies: vocabularies with their titles, terms and attributes, each classified on reading
into the kind of criterion that it supports. Titles are in several languages, and there are ways to
choose the text that is shown. A vocabulary without a list of terms differs from one whose list is
empty. Names may repeat; a look-up takes the first. A facet is a vocabulary that can be filtered on,
and it accepts the comparisons of a query that filter on it. -/
namespace FacetSearch

structure TitleEntry where
  locale : String
  text : String
  deriving DecidableEq, Repr

structure Title where
  entries : List TitleEntry
  deriving DecidableEq, Repr

namespace Title

def empty : Title := ⟨[]⟩

def first? (t : Title) : Option String :=
  t.entries.head?.map TitleEntry.text

def inLocale? (locale : String) (t : Title) : Option String :=
  (t.entries.find? (·.locale = locale)).map TitleEntry.text

end Title

abbrev Localizer := Title → String

namespace Localizer

def first : Localizer := fun t => t.first?.getD ""

def preferring (locale : String) : Localizer := fun t =>
  ((t.inLocale? locale).or t.first?).getD ""

end Localizer

structure Term where
  name : String
  title : Title
  deriving DecidableEq, Repr

structure Attribute where
  key : String
  value : String
  deriving DecidableEq, Repr

structure Vocabulary where
  name : String
  title : Title
  terms? : Option (List Term)
  attributes : List Attribute
  deriving DecidableEq, Repr

namespace Vocabulary

def terms (v : Vocabulary) : List Term :=
  v.terms?.getD []

def termNames (v : Vocabulary) : List String :=
  v.terms.map Term.name

def term? (v : Vocabulary) (name : String) : Option Term :=
  v.terms.find? (·.name = name)

def termLabel (v : Vocabulary) (name : String) : String :=
  ((v.term? name).bind fun t => t.title.first?).getD name

end Vocabulary

inductive Kind where
  | terms
  | numeric
  | text
  deriving DecidableEq, Repr

def Kind.label : Kind → String
  | terms => "TERMS"
  | numeric => "NUMERIC"
  | text => "MATCH"

namespace Attribute

def isNumericType (a : Attribute) : Bool :=
  a.key == "type" && (a.value == "integer" || a.value == "decimal")

def isTextual (a : Attribute) : Bool :=
  a.key == "localized" && a.value == "true" || a.key == "type" && a.value == "string"

end Attribute

/-- Terms come first, then a single numeric type, then a mark of text. -/
def Vocabulary.kind? (v : Vocabulary) : Option Kind :=
  if !v.terms.isEmpty then some .terms
  else if v.attributes.countP Attribute.isNumericType = 1 then some .numeric
  else if v.attributes.any Attribute.isTextual then some .text
  else none

structure Facet where
  vocabulary : Vocabulary
  kind : Kind
  classified : vocabulary.kind? = some kind
  deriving DecidableEq, Repr

namespace Facet

def ofKind? (v : Vocabulary) : (kind : Option Kind) → v.kind? = kind → Option Facet
  | some kind, classified => some ⟨v, kind, classified⟩
  | none, _ => none

def ofVocabulary? (v : Vocabulary) : Option Facet :=
  ofKind? v v.kind? rfl

theorem ofKindEq {v : Vocabulary} {kind : Option Kind} (h : v.kind? = kind) :
    ofKind? v kind h = ofVocabulary? v := by
  subst h
  rfl

theorem ofVocabularyEqSome {v : Vocabulary} {f : Facet} :
    ofVocabulary? v = some f ↔ f.vocabulary = v := by
  constructor
  · intro h
    cases kind : v.kind? with
    | none =>
      rw [← ofKindEq kind] at h
      cases h
    | some k =>
      rw [← ofKindEq kind] at h
      cases h
      rfl
  · rintro rfl
    rw [← ofKindEq f.classified]
    rfl

def name (f : Facet) : String :=
  f.vocabulary.name

def pathName? : Option Value → Option String
  | some (.string path) => (Text.pieces '.' path.toList)[1]?.map String.ofList
  | _ => none

/-- Whether a comparison filters on the facet. Text criteria have the field path second and one
operator of their own. -/
def accepts (f : Facet) (q : Query) : Bool :=
  match f.kind with
  | .terms | .numeric => pathName? q.args[0]? == some f.name
  | .text => q.operator == .matching && pathName? q.args[1]? == some f.name

def find? (f : Facet) (nodes : List Query) : Option Query :=
  nodes.find? f.accepts

end Facet

/-- Kinds stand beside the vocabularies, each at the position of its own. -/
structure Taxonomy where
  name : String
  title : Title
  vocabularies : List Vocabulary
  kinds : List (Option Kind)
  aligned : kinds = vocabularies.map Vocabulary.kind?
  deriving DecidableEq, Repr

namespace Taxonomy

def ofVocabularies (name : String) (title : Title) (vocabularies : List Vocabulary) : Taxonomy :=
  ⟨name, title, vocabularies, vocabularies.map Vocabulary.kind?, rfl⟩

theorem ofOwnVocabularies (t : Taxonomy) : ofVocabularies t.name t.title t.vocabularies = t := by
  obtain ⟨name, title, vocabularies, kinds, rfl⟩ := t
  rfl

theorem kindsLength (t : Taxonomy) : t.vocabularies.length = t.kinds.length := by
  rw [t.aligned, List.length_map]

theorem kindBeside (t : Taxonomy) {p : Vocabulary × Option Kind}
    (member : p ∈ t.vocabularies.zip t.kinds) : p.1.kind? = p.2 := by
  rw [t.aligned, ← List.map_prod_left_eq_zip] at member
  obtain ⟨v, _, rfl⟩ := List.mem_map.mp member
  rfl

def vocabulary? (t : Taxonomy) (name : String) : Option Vocabulary :=
  t.vocabularies.find? (·.name = name)

theorem vocabularyName {t : Taxonomy} {name : String} {v : Vocabulary}
    (h : t.vocabulary? name = some v) : v ∈ t.vocabularies ∧ v.name = name :=
  ⟨List.mem_of_find?_eq_some h, by simpa using List.find?_some h⟩

/-- The kind at the position of the first vocabulary of the name. -/
def kindOf? (t : Taxonomy) (name : String) : Option Kind :=
  (t.vocabularies.findFinIdx? (·.name = name)).bind fun i => t.kinds.get (i.cast t.kindsLength)

theorem kindOfFirst (t : Taxonomy) (name : String) :
    t.kindOf? name = (t.vocabulary? name).bind Vocabulary.kind? := by
  obtain ⟨_, _, vocabularies, _, rfl⟩ := t
  rw [vocabulary?, List.find?_eq_map_findFinIdx?_getElem, kindOf?]
  cases vocabularies.findFinIdx? (·.name = name) <;> simp

def facets (t : Taxonomy) : List Facet :=
  (t.vocabularies.zip t.kinds).attach.filterMap fun p =>
    Facet.ofKind? p.1.1 p.1.2 (t.kindBeside p.2)

theorem facetsOfVocabularies (t : Taxonomy) :
    t.facets = t.vocabularies.filterMap Facet.ofVocabulary? := by
  have each : (fun p : { p // p ∈ t.vocabularies.zip t.kinds } =>
      Facet.ofKind? p.1.1 p.1.2 (t.kindBeside p.2)) =
        Facet.ofVocabulary? ∘ Prod.fst ∘ Subtype.val :=
    funext fun p => Facet.ofKindEq (t.kindBeside p.2)
  rw [facets, each, ← List.filterMap_map, ← List.map_map, List.attach_map_subtype_val,
    List.map_fst_zip (Nat.le_of_eq t.kindsLength)]

def facet? (t : Taxonomy) (name : String) : Option Facet :=
  t.facets.find? (·.name = name)

end Taxonomy
end FacetSearch
