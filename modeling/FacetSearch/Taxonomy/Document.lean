import FacetSearch.Json.Read
import FacetSearch.Taxonomy.Basic

/-! Taxonomies as JSON documents, and the JSON Schema of these. Titles, terms, attributes and
vocabularies may be left out on reading; on writing only the terms of a vocabulary without a list of
terms are left out. -/
namespace FacetSearch

namespace TitleEntry

def toJson (e : TitleEntry) : Json :=
  .object [("locale", .string e.locale), ("text", .string e.text)]

def ofJson? (j : Json) : Option TitleEntry := do
  match ← j.fields? ["locale", "text"] with
  | [locale, text] => some ⟨← Json.required? Json.text? locale, ← Json.required? Json.text? text⟩
  | _ => none

end TitleEntry

namespace Title

def toJson (t : Title) : Json :=
  .array (t.entries.map TitleEntry.toJson)

def ofJson? (j : Json) : Option Title :=
  (j.list? TitleEntry.ofJson?).map Title.mk

def ofField? : Option Json → Option Title
  | some j => ofJson? j
  | none => some .empty

end Title

namespace Term

def toJson (t : Term) : Json :=
  .object [("name", .string t.name), ("title", t.title.toJson)]

def ofJson? (j : Json) : Option Term := do
  match ← j.fields? ["name", "title"] with
  | [name, title] => some ⟨← Json.required? Json.text? name, ← Title.ofField? title⟩
  | _ => none

/-- The terms of a vocabulary. Nothing and `null` both stand for no list. -/
def listOfField? : Option Json → Option (Option (List Term))
  | none | some .null => some none
  | some j => (j.list? ofJson?).map some

end Term

namespace Attribute

def toJson (a : Attribute) : Json :=
  .object [("key", .string a.key), ("value", .string a.value)]

def ofJson? (j : Json) : Option Attribute := do
  match ← j.fields? ["key", "value"] with
  | [key, value] => some ⟨← Json.required? Json.text? key, ← Json.required? Json.text? value⟩
  | _ => none

end Attribute

namespace Vocabulary

def termsMember : Option (List Term) → List (String × Json)
  | some terms => [("terms", .array (terms.map Term.toJson))]
  | none => []

def toJson (v : Vocabulary) : Json :=
  .object ([("name", .string v.name), ("title", v.title.toJson)] ++ termsMember v.terms?
    ++ [("attributes", .array (v.attributes.map Attribute.toJson))])

def ofJson? (j : Json) : Option Vocabulary := do
  match ← j.fields? ["name", "title", "terms", "attributes"] with
  | [name, title, terms, attributes] =>
    some ⟨← Json.required? Json.text? name, ← Title.ofField? title, ← Term.listOfField? terms,
      ← Json.listOrEmpty? Attribute.ofJson? attributes⟩
  | _ => none

end Vocabulary

namespace Taxonomy

def toJson (t : Taxonomy) : Json :=
  .object [("name", .string t.name), ("title", t.title.toJson),
    ("vocabularies", .array (t.vocabularies.map Vocabulary.toJson))]

def ofJson? (j : Json) : Option Taxonomy := do
  match ← j.fields? ["name", "title", "vocabularies"] with
  | [name, title, vocabularies] =>
    some <| ofVocabularies (← Json.required? Json.text? name) (← Title.ofField? title)
      (← Json.listOrEmpty? Vocabulary.ofJson? vocabularies)
  | _ => none

def read? (text : String) : Option Taxonomy :=
  (Json.read? text).bind ofJson?

def write (t : Taxonomy) : String :=
  t.toJson.compact

end Taxonomy

namespace Schema

def describe (description : Option String) (j : List (String × Json)) : Json :=
  .object (j ++ (description.map fun d => ("description", Json.string d)).toList)

def text (description : Option String) : Json :=
  describe description [("type", .string "string")]

def items (definition : String) : String × Json :=
  ("items", .object [("$ref", .string ("#/definitions/" ++ definition))])

def listOf (definition : String) : Json :=
  .object [("default", .array []), items definition, ("type", .string "array")]

def nullableListOf (description : String) (definition : String) : Json :=
  describe (some description) [items definition, ("type", Json.strings ["array", "null"])]

def record (description : String) (required : List String) (properties : List (String × Json)) :
    List (String × Json) :=
  [("description", .string description), ("properties", .object properties),
    ("required", Json.strings required), ("type", .string "object")]

def titleEntryRecord : Json :=
  .object (record "Text in one locale" ["locale", "text"]
    [("locale", text none), ("text", text none)])

def termRecord : Json :=
  .object (record "One enumerable value of a vocabulary" ["name"]
    [("name", text none), ("title", listOf "LocalizedString")])

def attributeRecord : Json :=
  .object (record "Facet metadata entry (e.g. `type = integer`, `localized = true`)" ["key", "value"]
    [("key", text none), ("value", text none)])

def vocabularyRecord : Json :=
  .object (record "A named, typed, filterable attribute of a taxonomy" ["name"]
    [("attributes", listOf "Attribute"), ("name", text (some "Unique within its taxonomy")),
      ("terms", nullableListOf "Present only for enumerable vocabularies" "Term"),
      ("title", listOf "LocalizedString")])

def definitions : Json :=
  .object [("Attribute", attributeRecord), ("LocalizedString", titleEntryRecord),
    ("Term", termRecord), ("Vocabulary", vocabularyRecord)]

def taxonomy : Json :=
  Json.sorted <| .object <| record "On-disk taxonomy document" ["name"]
      [("name", text none), ("title", listOf "LocalizedString"),
        ("vocabularies", listOf "Vocabulary")]
    ++ [("$schema", .string "http://json-schema.org/draft-07/schema#"),
      ("definitions", definitions), ("title", .string "TaxonomyDocument")]

end Schema
end FacetSearch
