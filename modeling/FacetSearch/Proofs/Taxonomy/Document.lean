import FacetSearch.Proofs.Json.RoundTrip
import FacetSearch.Taxonomy.Document

/-! Taxonomy documents read back. Each record is written with fields of distinct names, and a field
that is left out is read as what it stood for. Main statement: writing a document loses nothing, so
a document that was read is written the same way however often it is read again. -/
namespace FacetSearch

namespace Json

theorem memberDistinct {members : List (String × Json)} (distinct : (members.map Prod.fst).Nodup)
    (name : String) : member? name members = some (members.lookup name) := by
  induction members with
  | nil => rfl
  | cons m ms ih =>
    obtain ⟨other, value⟩ := m
    obtain ⟨absent, distinct⟩ := List.nodup_cons.mp distinct
    by_cases same : other = name
    · subst same
      have single : ms.filter (·.1 = other) = [] := by
        rw [List.filter_eq_nil_iff]
        rintro ⟨again, j⟩ member same
        exact absent (List.mem_map.mpr ⟨(again, j), member, of_decide_eq_true same⟩)
      simp [member?, single]
    · have skipped : ((other, value) :: ms).filter (·.1 = name) = ms.filter (·.1 = name) := by
        simp [same]
      have later : (name == other) = false := by simpa using Ne.symm same
      rw [List.lookup_cons, later, member?, skipped]
      exact ih distinct

theorem fieldsDistinct {members : List (String × Json)} (distinct : (members.map Prod.fst).Nodup)
    (names : List String) : (object members).fields? names = some (names.map (members.lookup ·)) := by
  have each : (member? · members) = fun name => some (members.lookup name) :=
    funext (memberDistinct distinct)
  rw [fields?, each]
  exact List.mapM_pure

end Json

theorem TitleEntry.ofToJson (e : TitleEntry) : ofJson? e.toJson = some e := by
  rw [ofJson?, toJson, Json.fieldsDistinct (by simp)]
  rfl

theorem Title.ofToJson (t : Title) : ofField? (some t.toJson) = some t := by
  rw [ofField?, ofJson?, toJson, Json.listKept TitleEntry.ofToJson]
  rfl

theorem Term.ofToJson (t : Term) : ofJson? t.toJson = some t := by
  rw [ofJson?, toJson, Json.fieldsDistinct (by simp)]
  simp [List.lookup_cons, Json.required?, Json.text?, Title.ofToJson]

theorem Attribute.ofToJson (a : Attribute) : ofJson? a.toJson = some a := by
  rw [ofJson?, toJson, Json.fieldsDistinct (by simp)]
  rfl

namespace Vocabulary

/-- No list of terms and an empty one are written apart. -/
theorem termsOfMember (terms : Option (List Term)) :
    Term.listOfField? ((termsMember terms).lookup "terms") = some terms := by
  cases terms with
  | none => rfl
  | some terms =>
    change ((Json.array (terms.map Term.toJson)).list? Term.ofJson?).map some = some (some terms)
    rw [Json.listKept Term.ofToJson]
    rfl

theorem ofToJson (v : Vocabulary) : ofJson? v.toJson = some v := by
  obtain ⟨name, title, terms, attributes⟩ := v
  let listed : Json := .array (attributes.map Attribute.toJson)
  let members := [("name", .string name), ("title", title.toJson)] ++ termsMember terms
    ++ [("attributes", listed)]
  have distinct : (members.map Prod.fst).Nodup := by
    cases terms <;> simp [members, termsMember]
  have fields : (["name", "title", "terms", "attributes"].map (members.lookup ·)) =
      [some (.string name), some title.toJson, (termsMember terms).lookup "terms",
        some listed] := by
    cases terms <;> rfl
  have attributesRead : Json.listOrEmpty? Attribute.ofJson? (some listed) = some attributes :=
    Json.listKept Attribute.ofToJson attributes
  rw [ofJson?, toJson, Json.fieldsDistinct distinct, fields]
  simp [Json.required?, Json.text?, Title.ofToJson, termsOfMember, attributesRead]

end Vocabulary

namespace Json

theorem properMapped {α : Type} {write : α → Json} (one : ∀ a, (write a).isProper = true)
    (as : List α) : properItems (as.map write) = true := by
  induction as with
  | nil => rfl
  | cons a as ih => rw [List.map_cons, properItems, one, ih, Bool.and_self]

end Json

theorem Title.proper (t : Title) : t.toJson.isProper = true :=
  Json.properMapped (fun _ => rfl) t.entries

theorem Term.proper (t : Term) : t.toJson.isProper = true := by
  simp [toJson, Json.isProper, Json.properMembers, Title.proper]

theorem Attribute.proper (a : Attribute) : a.toJson.isProper = true := rfl

theorem Vocabulary.proper (v : Vocabulary) : v.toJson.isProper = true := by
  have attributes := Json.properMapped Attribute.proper v.attributes
  cases terms : v.terms? with
  | none => simp [toJson, terms, termsMember, Json.isProper, Json.properMembers, Title.proper,
      attributes]
  | some terms' =>
    have listed := Json.properMapped Term.proper terms'
    simp [toJson, terms, termsMember, Json.isProper, Json.properMembers, Title.proper,
      attributes, listed]

namespace Taxonomy

theorem proper (t : Taxonomy) : t.toJson.isProper = true := by
  have vocabularies := Json.properMapped Vocabulary.proper t.vocabularies
  simp [toJson, Json.isProper, Json.properMembers, Title.proper, vocabularies]

theorem ofToJson (t : Taxonomy) : ofJson? t.toJson = some t := by
  have listed : Json.listOrEmpty? Vocabulary.ofJson?
      (some (.array (t.vocabularies.map Vocabulary.toJson))) = some t.vocabularies :=
    Json.listKept Vocabulary.ofToJson t.vocabularies
  rw [ofJson?, toJson, Json.fieldsDistinct (by simp)]
  simp [List.lookup_cons, Json.required?, Json.text?, Title.ofToJson, listed, ofOwnVocabularies]

theorem readBack (t : Taxonomy) : read? t.write = some t ∧ read? t.toJson.pretty = some t := by
  obtain ⟨compact, pretty⟩ := Json.writtenRead t.proper
  constructor
  · rw [read?, write, compact]
    exact ofToJson t
  · rw [read?, pretty]
    exact ofToJson t

theorem documentKept :
    (∀ t : Taxonomy, read? t.write = some t ∧ read? t.toJson.pretty = some t) ∧
    ∀ text : String, ((read? text).map write).bind (fun u => (read? u).map write) =
      (read? text).map write := by
  refine ⟨readBack, fun text => ?_⟩
  cases read? text with
  | none => rfl
  | some t =>
    rw [Option.map_some, Option.bind_some, (readBack t).1, Option.map_some]

end Taxonomy
end FacetSearch
