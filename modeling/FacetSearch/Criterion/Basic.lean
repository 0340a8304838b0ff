import FacetSearch.Taxonomy.Basic

/-! The criterion of one facet: an operator and a selection of the facet's kind, that is some term
names, a range with two bounds as entered, or the words to search for. A blank bound is open and
blank words select nothing. A presence operator replaces the selection, every other operator leaves
it. A comparison stands for a criterion; terms and ranges put the field path first, words put it
second. Criteria are shown as short texts for people. -/
namespace FacetSearch

inductive Selection : Kind → Type where
  | terms (names : List String) : Selection .terms
  | range (low high : String) : Selection .numeric
  | words (text : String) : Selection .text
  deriving DecidableEq, Repr

inductive Entry where
  | terms (names : List String)
  | range (low high : String)
  | words (text : String)
  deriving DecidableEq, Repr

namespace Selection

def empty : (kind : Kind) → Selection kind
  | .terms => .terms []
  | .numeric => .range "" ""
  | .text => .words ""

/-- The selection that goes with a presence operator: every term, an open range, or any words. -/
def whole (v : Vocabulary) : (kind : Kind) → Selection kind
  | .terms => .terms v.termNames
  | .numeric => .range "" ""
  | .text => .words "*"

def isSet : Selection kind → Bool
  | .terms names => !names.isEmpty
  | .range low high => !(Text.allBlank low && Text.allBlank high)
  | .words text => !Text.allBlank text

def enter : Entry → Selection kind → Selection kind
  | .terms names, .terms _ => .terms names
  | .range low high, .range _ _ => .range low high
  | .words text, .words _ => .words text
  | _, s => s

end Selection

structure Criterion where
  facet : Facet
  operator : Operator
  selection : Selection facet.kind
  deriving DecidableEq, Repr

def Kind.defaultOperator : Kind → Operator
  | .terms => .oneOf
  | .numeric => .between
  | .text => .matching

namespace Criterion

def fresh (f : Facet) : Criterion :=
  ⟨f, f.kind.defaultOperator, .empty f.kind⟩

def name (c : Criterion) : String :=
  c.facet.name

def kind (c : Criterion) : Kind :=
  c.facet.kind

def setOperator (c : Criterion) (op : Operator) : Criterion :=
  { c with
    operator := op
    selection := if op.isPresence then .whole c.facet.vocabulary c.facet.kind else c.selection }

def enter (c : Criterion) (entry : Entry) : Criterion :=
  { c with selection := c.selection.enter entry }

def isActive (c : Criterion) : Bool :=
  c.operator.isPresence || c.selection.isSet

theorem freshInactive (f : Facet) : (fresh f).isActive = false := by
  obtain ⟨v, kind, classified⟩ := f
  cases kind <;> rfl

theorem setPresenceActive (c : Criterion) {op : Operator} (h : op.isPresence = true) :
    (c.setOperator op).isActive = true := by
  simp [isActive, setOperator, h]

end Criterion

def fieldPath (taxonomy : String) (v : Vocabulary) : String :=
  taxonomy ++ "." ++ v.name

def argText (arg : Option Value) : String :=
  (arg.bind Value.text?).getD ""

def argTexts : Option Value → List String
  | some (.list items) => items.filterMap Value.text?
  | some v => v.text?.toList
  | none => []

def argItems : Option Value → List Value
  | some (.list items) => items
  | _ => []

def boundValue (bound : String) : Value :=
  match Text.leadingInteger? bound with
  | some n => .integer n
  | none => .notANumber

namespace Selection

/-- The selection that a comparison holds, taken over from an older one where it says nothing. -/
def ofNode (v : Vocabulary) (q : Query) : Selection kind → Selection kind
  | .terms _ => .terms (if q.operator.isPresence then v.termNames else argTexts q.args[1]?)
  | .range low high => match q.operator with
    | .atLeast => .range (argText q.args[1]?) ""
    | .atMost => .range "" (argText q.args[1]?)
    | .between =>
      let items := argItems q.args[1]?
      .range (argText items[0]?) (argText items[1]?)
    | _ => .range low high
  | .words _ => .words (argText q.args[0]?)

/-- Terms are complete when as many are selected as the vocabulary has. -/
def isComplete (v : Vocabulary) (names : List String) : Bool :=
  names.length == v.terms.length

def termsOperator (v : Vocabulary) (op : Operator) (names : List String) : Operator :=
  if isComplete v names then if op.isPresence then op else .present
  else if op.isMembership then op else .oneOf

def termsNode (v : Vocabulary) (path : String) (op : Operator) (names : List String) : Query :=
  let operator := termsOperator v op names
  ⟨operator, .string path :: if operator.isPresence then [] else [.list (names.map .string)]⟩

def rangeNode (path : String) (op : Operator) (low high : String) : Query :=
  if op.isPresence then ⟨op, [.string path, .list []]⟩
  else match Text.allBlank low, Text.allBlank high with
    | true, true => ⟨op, [.string path, .list []]⟩
    | false, true => ⟨.atLeast, [.string path, boundValue low]⟩
    | true, false => ⟨.atMost, [.string path, boundValue high]⟩
    | false, false => ⟨.between, [.string path, .list [boundValue low, boundValue high]]⟩

def wordsNode (path : String) (op : Operator) (text : String) : Query :=
  ⟨op, [.string (if Text.allBlank text then "" else text), .string path]⟩

def node (v : Vocabulary) (path : String) (op : Operator) : Selection kind → Query
  | .terms names => termsNode v path op names
  | .range low high => rangeNode path op low high
  | .words text => wordsNode path op text

end Selection

namespace Criterion

def restore (c : Criterion) (q : Query) : Criterion :=
  { c with operator := q.operator, selection := c.selection.ofNode c.facet.vocabulary q }

def node (c : Criterion) (taxonomy : String) : Query :=
  c.selection.node c.facet.vocabulary (fieldPath taxonomy c.facet.vocabulary) c.operator

def ofNodes (f : Facet) (nodes : List Query) : Criterion :=
  match f.find? nodes with
  | some q => (fresh f).restore q
  | none => fresh f

theorem ofNodesFacet (f : Facet) (nodes : List Query) : (ofNodes f nodes).facet = f := by
  unfold ofNodes
  split <;> rfl

end Criterion

inductive Edit where
  | operator (op : Operator)
  | enter (entry : Entry)
  | restore (node : Query)
  deriving DecidableEq, Repr

def Criterion.edit (c : Criterion) : Edit → Criterion
  | .operator op => c.setOperator op
  | .enter entry => c.enter entry
  | .restore q => c.restore q

theorem Criterion.editFacet (c : Criterion) (e : Edit) : (c.edit e).facet = c.facet := by
  cases e <;> rfl

def listedTerms : Nat := 5

def presenceText (title : String) (op : Operator) : String :=
  title ++ if op = .missing then ":none" else ":any"

namespace Selection

def termsText (v : Vocabulary) (title : String) (names : List String) : String :=
  if listedTerms < names.length then title ++ ":..."
  else String.intercalate " | " (names.map v.termLabel)

def rangeText (title low high : String) : String :=
  match Text.allBlank low, Text.allBlank high with
  | true, true => title
  | false, true => title ++ ":>" ++ low
  | true, false => title ++ ":<" ++ high
  | false, false => title ++ ":[" ++ low ++ "," ++ high ++ "]"

def wordsText (title text : String) : String :=
  if Text.allBlank text then title else title ++ ":match(" ++ text ++ ")"

def display (v : Vocabulary) (title : String) : Selection kind → String
  | .terms names => termsText v title names
  | .range low high => rangeText title low high
  | .words text => wordsText title text

end Selection

def Criterion.display (localize : Localizer) (c : Criterion) : String :=
  let title := localize c.facet.vocabulary.title
  if c.operator.isPresence then presenceText title c.operator
  else c.selection.display c.facet.vocabulary title

def Kind.debug : Kind → List Char
  | .terms => "Terms".toList
  | .numeric => "Numeric".toList
  | .text => "Match".toList

/-- Criteria as developers see them. The selection is left out. -/
def Criterion.debug (beyond : Char → Bool) (c : Criterion) : String :=
  String.ofList <| "Criterion \x7b kind: ".toList ++ (c.kind.debug ++ (", vocabulary: ".toList
    ++ (Text.quoteShown beyond c.name ++ (", operator: ".toList
    ++ (c.operator.debug beyond ++ " \x7d".toList)))))

end FacetSearch
