import FacetSearch.Criteria.Basic
import FacetSearch.Query.Text
import FacetSearch.Settings.Basic
import FacetSearch.Taxonomy.Document

/-! The commands and what they report: classifying vocabularies, flattening a query, showing and
editing the criterion of one vocabulary, and rebuilding a query from the criteria of all. JSON
output comes in an envelope, and the codes of failures lead to exit codes. -/
namespace FacetSearch

structure Classification where
  name : String
  kind? : Option Kind
  deriving DecidableEq, Repr

structure Report where
  vocabulary : String
  kind : Kind
  operator : Operator
  active : Bool
  display : String
  node : Query
  deriving DecidableEq, Repr

structure BuildReport where
  criteria : List Report
  display : String
  query? : Option Query
  deriving DecidableEq, Repr

def Kind.toJson (kind : Kind) : Json :=
  .string kind.label

def Classification.toJson (c : Classification) : Json :=
  .object [("name", .string c.name), ("kind", Json.ofOption Kind.toJson c.kind?)]

namespace Report

def ofCriterion (localize : Localizer) (taxonomy : String) (c : Criterion) : Report :=
  ⟨c.name, c.kind, c.operator, c.isActive, c.display localize, c.node taxonomy⟩

def query (r : Report) : String :=
  r.node.render

def toJson (r : Report) : Json :=
  .object [("vocabulary", .string r.vocabulary), ("kind", r.kind.toJson),
    ("operator", .string r.operator.name), ("active", .bool r.active),
    ("display", .string r.display), ("query", .string r.query), ("node", r.node.toJson)]

end Report

namespace BuildReport

def query (b : BuildReport) : Option String :=
  b.query?.map Query.render

def toJson (b : BuildReport) : Json :=
  .object [("criteria", .array (b.criteria.map Report.toJson)), ("display", .string b.display),
    ("query", Json.ofOption .string b.query)]

end BuildReport

inductive CommandError where
  | vocabularyNotFound (name : String)
  | noCriterion (name : String)
  | query (error : QueryError)
  | surplusValues (count : Nat)
  deriving DecidableEq, Repr

def CommandError.message : CommandError → String
  | vocabularyNotFound name => "Vocabulary not found: " ++ name
  | noCriterion name =>
    "Vocabulary " ++ quoted name
      ++ " supports no criterion (no terms, numeric type or text attribute)"
  | query error => "Invalid query: " ++ error.message
  | surplusValues count =>
    "Invalid value: numeric vocabulary takes LOW and HIGH, got " ++ toString count ++ " values"

namespace Command

def readQuery (text : String) : Except CommandError Query :=
  (Query.parse text).mapError .query

def readSource : Option String → Except CommandError (Option Query)
  | some text => (readQuery text).map some
  | none => .ok none

def classify (t : Taxonomy) : List Classification :=
  t.vocabularies.map fun v => ⟨v.name, t.kindOf? v.name⟩

def walk (text : String) : Except CommandError (List Query) :=
  (readQuery text).map Query.leaves

def findFacet (t : Taxonomy) (name : String) : Except CommandError Facet :=
  match t.facet? name, t.vocabulary? name with
  | some f, _ => .ok f
  | none, some _ => .error (.noCriterion name)
  | none, none => .error (.vocabularyNotFound name)

def entry : Kind → List String → Except CommandError Entry
  | .terms, values => .ok (.terms values)
  | .numeric, values =>
    if 2 < values.length then .error (.surplusValues values.length)
    else .ok (.range (values[0]?.getD "") (values[1]?.getD ""))
  | .text, values => .ok (.words (String.intercalate " " values))

/-- Values come first and the operator last, so that the selection of a presence operator wins. -/
def applied (c : Criterion) (operator : Option String) (values : List String) :
    Except CommandError Criterion := do
  let c ← if values.isEmpty then .ok c else (entry c.kind values).map c.enter
  match operator with
  | some name => .ok (c.setOperator ⟨name⟩)
  | none => .ok c

def pathPrefix (s : Settings) (t : Taxonomy) (given : Option String) : String :=
  given.getD (s.pathPrefix t)

def edit (s : Settings) (t : Taxonomy) (vocabulary : String) (query operator : Option String)
    (values : List String) (taxonomy : Option String) : Except CommandError Report := do
  let f ← findFacet t vocabulary
  let source ← readSource query
  let c ← applied (.ofNodes f (CriteriaSet.sourceLeaves source)) operator values
  .ok (.ofCriterion s.localizer (pathPrefix s t taxonomy) c)

def inspect (s : Settings) (t : Taxonomy) (vocabulary : String) (query taxonomy : Option String) :
    Except CommandError Report :=
  edit s t vocabulary query none [] taxonomy

def build (s : Settings) (t : Taxonomy) (query taxonomy : Option String) :
    Except CommandError BuildReport := do
  let source ← readSource query
  let set := CriteriaSet.ofTaxonomy t source
  let path := pathPrefix s t taxonomy
  .ok ⟨set.criteria.map (.ofCriterion s.localizer path), set.display s.localizer,
    set.toQuery? path⟩

end Command

inductive ExitCode where
  | success
  | genericError
  | invalidArgument
  | notFound
  | externalError
  deriving DecidableEq, Repr

def ExitCode.number : ExitCode → Nat
  | success => 0
  | genericError => 1
  | invalidArgument => 2
  | notFound => 3
  | externalError => 10

/-- Codes are open: one that is not listed stands for a generic error. -/
def exitOfCode (code : String) : ExitCode :=
  if code = "VOCABULARY_NOT_FOUND" ∨ code = "FILE_NOT_FOUND" then .notFound
  else if code = "NO_CRITERION" ∨ code = "INVALID_ARGUMENT" ∨ code = "PARSE_ERROR" then
    .invalidArgument
  else if code = "IO_ERROR" then .externalError
  else .genericError

def CommandError.code : CommandError → String
  | vocabularyNotFound _ => "VOCABULARY_NOT_FOUND"
  | noCriterion _ => "NO_CRITERION"
  | query _ => "PARSE_ERROR"
  | surplusValues _ => "INVALID_ARGUMENT"

namespace Envelope

def metadata (command : String) : String × Json :=
  ("metadata", .object [("version", .string "0.1.0"), ("command", .string command)])

def success (command : String) (data : Json) : Json :=
  .object [("success", .bool true), ("data", data), metadata command]

def suggestionMember : List String → List (String × Json)
  | [] => []
  | suggestions => [("suggestions", Json.strings suggestions)]

def failure (command code message : String) (suggestions : List String) : Json :=
  .object [("success", .bool false),
    ("error", .object ([("code", .string code), ("message", .string message)]
      ++ suggestionMember suggestions)), metadata command]

end Envelope
end FacetSearch
