import FacetSearch.Query.Basic

/-! Tokens of query text, why a text is not a query, and words as scalars. Blanks separate words,
brackets and commas stand for themselves, and everything else forms words; the characters `&`, `|`
and `=` have no place in query text. A bare integer that fits in 64 bits is a number and `NaN` is
its own value; the marks `string:` and `number:` force the type; every other word is
percent-encoded. -/
namespace FacetSearch

inductive Bracket where
  | round
  | square
  deriving DecidableEq, Repr

namespace Bracket

def opening : Bracket → Char
  | round => '('
  | square => '['

def closing : Bracket → Char
  | round => ')'
  | square => ']'

end Bracket

inductive Token where
  | word (text : String)
  | opens (bracket : Bracket)
  | closes (bracket : Bracket)
  | comma
  deriving DecidableEq, Repr

namespace Token

def text : Token → String
  | word w => w
  | opens b => String.ofList [b.opening]
  | closes b => String.ofList [b.closing]
  | comma => ","

def shown (t : Token) : String :=
  "'" ++ t.text ++ "'"

def ofChar? : Char → Option Token
  | '(' => some (opens .round)
  | ')' => some (closes .round)
  | '[' => some (opens .square)
  | ']' => some (closes .square)
  | ',' => some comma
  | _ => none

def isForbidden (c : Char) : Bool :=
  c == '&' || c == '|' || c == '='

def finished : List Char → List Token
  | [] => []
  | pending => [word (String.ofList pending.reverse)]

def scan (pending : List Char) : List Char → List Token
  | [] => finished pending
  | c :: cs =>
    if Text.isBlank c then finished pending ++ scan [] cs
    else match ofChar? c with
      | some t => finished pending ++ t :: scan [] cs
      | none => scan (c :: pending) cs

def firstForbidden? (offset : Nat) : List Char → Option (Char × Nat)
  | [] => none
  | c :: cs => if isForbidden c then some (c, offset) else firstForbidden? (offset + c.utf8Size) cs

theorem firstForbiddenEqNone {offset : Nat} {cs : List Char} :
    firstForbidden? offset cs = none ↔ ∀ c ∈ cs, isForbidden c = false := by
  induction cs generalizing offset with
  | nil => simp [firstForbidden?]
  | cons c cs ih => cases h : isForbidden c <;> simp [firstForbidden?, h, ih]

end Token

inductive Wanted where
  | operatorName
  | openingBracket
  | separator
  deriving DecidableEq, Repr

def Wanted.text : Wanted → String
  | operatorName => "operator name"
  | openingBracket => "'('"
  | separator => "',' or closing delimiter"

inductive QueryError where
  | forbidden (char : Char) (offset : Nat)
  | unexpectedEnd
  | unexpected (wanted : Wanted) (found : Token)
  | unclosed (bracket : Bracket)
  | trailing (found : Token)
  | badEncoding (word : String)
  | badNumber (digits : String)
  deriving DecidableEq, Repr

def quoted (s : String) : String :=
  "'" ++ s ++ "'"

def QueryError.message : QueryError → String
  | forbidden c n =>
    "unexpected character " ++ quoted (String.ofList [c]) ++ " at position " ++ toString n
  | unexpectedEnd => "unexpected end of query"
  | unexpected wanted found => "expected " ++ wanted.text ++ ", found " ++ found.shown
  | unclosed b => "missing closing " ++ quoted (String.ofList [b.closing])
  | trailing found => "unexpected input after end of query: " ++ found.shown
  | badEncoding w => "invalid percent-encoding in " ++ quoted w
  | badNumber digits => "invalid number literal " ++ quoted digits

def tokenize (s : String) : Except QueryError (List Token) :=
  match Token.firstForbidden? 0 s.toList with
  | some (c, n) => .error (.forbidden c n)
  | none => .ok (Token.scan [] s.toList)

namespace Literal

def stringMark : List Char := "string:".toList
def numberMark : List Char := "number:".toList
def nanWord : List Char := "NaN".toList

def decode (cs : List Char) : Except QueryError Value :=
  match Text.percentDecode? cs with
  | some text => .ok (.string text)
  | none => .error (.badEncoding (String.ofList cs))

def readNumber (cs : List Char) : Except QueryError Value :=
  if cs = nanWord then .ok .notANumber
  else match Text.integer? cs with
    | some n => .ok (.integer n)
    | none => .error (.badNumber (String.ofList cs))

def bareNumber? (cs : List Char) : Option Value :=
  if cs = nanWord then some .notANumber
  else if Text.isIntegerText cs then (Text.integer? cs).map .integer
  else none

def readChars (cs : List Char) : Except QueryError Value :=
  match Text.after? stringMark cs with
  | some rest => decode rest
  | none => match Text.after? numberMark cs with
    | some rest => readNumber rest
    | none => match bareNumber? cs with
      | some v => .ok v
      | none => decode cs

def read (word : String) : Except QueryError Value :=
  readChars word.toList

def needsMark (s : String) : Bool :=
  Text.isIntegerText s.toList || s == "NaN"

def writeString (s : String) : List Char :=
  if needsMark s then stringMark ++ Text.percentEncode s else Text.percentEncode s

end Literal
end FacetSearch
