import FacetSearch.Json.Basic
import FacetSearch.Query.Token

/-! Queries read from their tokens, and written as text or as JSON. The reader takes one token at a
time and keeps the lists that are still open, the innermost on top; the outermost is always the
argument list of the query itself. A word waits for the next token, since an opening bracket makes
it the name of a nested node. Written texts are percent-encoded and marked where they would read as
numbers; a lone empty text is written `string:`, since empty brackets hold no item. As JSON a node
is an object, scalars and lists stand for themselves. -/
namespace FacetSearch

namespace Reader

inductive Opening where
  | call (operator : Operator)
  | list (bracket : Bracket)
  deriving DecidableEq, Repr

def Opening.bracket : Opening → Bracket
  | call _ => .round
  | list b => b

def Opening.value (items : List Value) : Opening → Value
  | call operator => .node operator items
  | list _ => .list items

inductive Stack where
  | outermost (operator : Operator) (items : List Value)
  | inside (opening : Opening) (items : List Value) (outer : Stack)
  deriving Repr

namespace Stack

def bracket : Stack → Bracket
  | outermost _ _ => .round
  | inside opening _ _ => opening.bracket

def push (v : Value) : Stack → Stack
  | outermost operator items => outermost operator (v :: items)
  | inside opening items outer => inside opening (v :: items) outer

end Stack

inductive Stage where
  | start
  | named (name : String)
  | opened (stack : Stack)
  | separated (stack : Stack)
  /-- A word has been read that may be a literal or the name of a node. -/
  | pending (word : String) (stack : Stack)
  | filled (stack : Stack)
  | done (query : Query)
  deriving Repr

def close : Stack → Stage
  | .outermost operator items => .done ⟨operator, items.reverse⟩
  | .inside opening items outer => .filled (outer.push (opening.value items.reverse))

def afterItem (s : Stack) (t : Token) : Except QueryError Stage :=
  if t = .comma then .ok (.separated s)
  else if t = .closes s.bracket then .ok (close s)
  else .error (.unexpected .separator t)

/-- Where an item may begin. Nothing at all is the empty text. -/
def beginItem (s : Stack) : Token → Except QueryError Stage
  | .word w => .ok (.pending w s)
  | .opens b => .ok (.opened (.inside (.list b) [] s))
  | t => afterItem (s.push (.string "")) t

def step : Stage → Token → Except QueryError Stage
  | .start, .word w => .ok (.named w)
  | .start, t => .error (.unexpected .operatorName t)
  | .named w, .opens .round => .ok (.opened (.outermost ⟨w⟩ []))
  | .named _, t => .error (.unexpected .openingBracket t)
  | .opened s, t => if t = .closes s.bracket then .ok (close s) else beginItem s t
  | .separated s, t => beginItem s t
  | .pending w s, .opens .round => .ok (.opened (.inside (.call ⟨w⟩) [] s))
  | .pending w s, t => do afterItem (s.push (← Literal.read w)) t
  | .filled s, t => afterItem s t
  | .done _, t => .error (.trailing t)

def finish : Stage → Except QueryError Query
  | .start | .named _ => .error .unexpectedEnd
  | .opened s | .separated s | .filled s => .error (.unclosed s.bracket)
  | .pending w s => do
    let _ ← Literal.read w
    .error (.unclosed s.bracket)
  | .done q => .ok q

def run : Stage → List Token → Except QueryError Stage
  | stage, [] => .ok stage
  | stage, t :: ts => do run (← step stage t) ts

theorem runAppend (stage : Stage) (ts us : List Token) :
    run stage (ts ++ us) = (run stage ts).bind (run · us) := by
  induction ts generalizing stage with
  | nil => rfl
  | cons t ts ih =>
    simp only [List.cons_append, run, bind, Except.bind]
    cases step stage t with
    | error e => rfl
    | ok next => exact ih next

end Reader

namespace Query

def ofTokens (ts : List Token) : Except QueryError Query := do
  Reader.finish (← Reader.run .start ts)

def parse (text : String) : Except QueryError Query := do
  ofTokens (← tokenize text)

end Query

def isLoneEmpty : List Value → Bool
  | [.string text] => text.isEmpty
  | _ => false

mutual
def Value.write : Value → List Char
  | .string text => Literal.writeString text
  | .integer number => Text.decimal number
  | .notANumber => Literal.nanWord
  | .list items =>
    '(' :: (if isLoneEmpty items then Literal.stringMark else writeItems items) ++ [')']
  | .node operator args =>
    operator.name.toList ++
      '(' :: (if isLoneEmpty args then Literal.stringMark else writeItems args) ++ [')']
def writeItems : List Value → List Char
  | [] => []
  | [v] => v.write
  | v :: vs => v.write ++ ',' :: writeItems vs
end

def Value.render (v : Value) : String :=
  String.ofList v.write

def Query.render (q : Query) : String :=
  q.toValue.render

mutual
def Value.toJson : Value → Json
  | .string text => .string text
  | .integer number => .number (String.ofList (Text.decimal number))
  | .notANumber => .null
  | .list items => .array (jsonItems items)
  | .node operator args =>
    .object [("operator", .string operator.name), ("args", .array (jsonItems args))]
def jsonItems : List Value → List Json
  | [] => []
  | v :: vs => v.toJson :: jsonItems vs
end

def Query.toJson (q : Query) : Json :=
  q.toValue.toJson

end FacetSearch
