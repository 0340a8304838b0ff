import FacetSearch.Json.Basic

/-! Reading JSON text, one character and then one token at a time. What has been read of a token is
kept latest first. The pieces of a string are characters and escaped units of UTF-16. They are
joined when the closing quote is read; a string with half of a surrogate pair has a token but no
text. The reader of tokens keeps the arrays and objects that are still open on a stack. -/
namespace FacetSearch.Json

inductive Token where
  | openArray
  | closeArray
  | openObject
  | closeObject
  | colon
  | comma
  | null
  | bool (value : Bool)
  | number (written : String)
  | string (text : Option String)
  deriving DecidableEq, Repr

def isSpace (c : Char) : Bool :=
  c == ' ' || c == '\t' || c == '\n' || c == '\r'

def punctuation? : Char → Option Token
  | '[' => some .openArray
  | ']' => some .closeArray
  | '\x7b' => some .openObject
  | '\x7d' => some .closeObject
  | ':' => some .colon
  | ',' => some .comma
  | _ => none

def isNumberChar (c : Char) : Bool :=
  c.isDigit || c == '-' || c == '+' || c == '.' || c == 'e' || c == 'E'

def isDigits (cs : List Char) : Bool :=
  !cs.isEmpty && cs.all Char.isDigit

def isExponent : List Char → Bool
  | '-' :: digits | '+' :: digits => isDigits digits
  | digits => isDigits digits

def isFraction : List Char → Bool
  | [] => true
  | '.' :: rest =>
    let digits := rest.takeWhile Char.isDigit
    !digits.isEmpty && match rest.dropWhile Char.isDigit with
      | [] => true
      | c :: exponent => (c == 'e' || c == 'E') && isExponent exponent
  | c :: exponent => (c == 'e' || c == 'E') && isExponent exponent

def isMagnitude : List Char → Bool
  | '0' :: rest => isFraction rest
  | cs => !(cs.takeWhile Char.isDigit).isEmpty && isFraction (cs.dropWhile Char.isDigit)

def isNumber : List Char → Bool
  | '-' :: rest => isMagnitude rest
  | cs => isMagnitude cs

def literal? : List Char → Option Token
  | ['n', 'u', 'l', 'l'] => some .null
  | ['t', 'r', 'u', 'e'] => some (.bool true)
  | ['f', 'a', 'l', 's', 'e'] => some (.bool false)
  | _ => none

inductive Piece where
  | char (c : Char)
  | unit (n : Nat)
  deriving DecidableEq, Repr

def isHigh (n : Nat) : Bool := 0xD800 ≤ n && n ≤ 0xDBFF
def isLow (n : Nat) : Bool := 0xDC00 ≤ n && n ≤ 0xDFFF

/-- The characters that some pieces make up. The halves of a surrogate pair go together, and
neither stands without the other. -/
def joinPieces : List Piece → Option (List Char)
  | [] => some []
  | .char c :: rest => (joinPieces rest).map (c :: ·)
  | .unit n :: .unit m :: rest =>
    if isHigh n then
      if isLow m then
        (joinPieces rest).map (Char.ofNat (0x10000 + (n - 0xD800) * 0x400 + (m - 0xDC00)) :: ·)
      else none
    else if isLow n then none
    else (joinPieces (.unit m :: rest)).map (Char.ofNat n :: ·)
  | .unit n :: rest =>
    if isHigh n || isLow n then none else (joinPieces rest).map (Char.ofNat n :: ·)

def simpleEscape? : Char → Option Char
  | '"' => some '"'
  | '\\' => some '\\'
  | '/' => some '/'
  | 'b' => some (Char.ofNat 8)
  | 'f' => some (Char.ofNat 12)
  | 'n' => some '\n'
  | 'r' => some '\r'
  | 't' => some '\t'
  | _ => none

inductive Scanner where
  | between
  | number (read : List Char)
  | literal (read : List Char)
  | string (read : List Piece)
  | escape (read : List Piece)
  | unit (read : List Piece) (digits value : Nat)
  deriving DecidableEq, Repr

def startToken (c : Char) : Option (List Token × Scanner) :=
  if isSpace c then some ([], .between)
  else if c = '"' then some ([], .string [])
  else match punctuation? c with
    | some t => some ([t], .between)
    | none =>
      if c.isDigit || c == '-' then some ([], .number [c])
      else if c.isAlpha then some ([], .literal [c])
      else none

def endToken? : Scanner → Option (List Token)
  | .between => some []
  | .number read =>
    if isNumber read.reverse then some [.number (String.ofList read.reverse)] else none
  | .literal read => (literal? read.reverse).map ([·])
  | _ => none

def endThenStart (s : Scanner) (c : Char) : Option (List Token × Scanner) := do
  let ended ← endToken? s
  let (started, next) ← startToken c
  some (ended ++ started, next)

def scanChar : Scanner → Char → Option (List Token × Scanner)
  | .between, c => startToken c
  | .number read, c =>
    if isNumberChar c then some ([], .number (c :: read)) else endThenStart (.number read) c
  | .literal read, c =>
    if c.isAlpha then some ([], .literal (c :: read)) else endThenStart (.literal read) c
  | .string read, c =>
    if c = '"' then
      some ([.string ((joinPieces read.reverse).map String.ofList)], .between)
    else if c = '\\' then some ([], .escape read)
    else if c.toNat < 32 then none
    else some ([], .string (.char c :: read))
  | .escape read, c =>
    if c = 'u' then some ([], .unit read 0 0)
    else (simpleEscape? c).map fun e => ([], .string (.char e :: read))
  | .unit read digits value, c => do
    let h ← Text.hexValue? c
    let value := 16 * value + h
    some ([], if digits = 3 then .string (.unit value :: read) else .unit read (digits + 1) value)

def scan : Scanner → List Char → Option (List Token)
  | s, [] => endToken? s
  | s, c :: cs => do
    let (ts, next) ← scanChar s c
    let rest ← scan next cs
    some (ts ++ rest)

inductive Open where
  | array (items : List Json)
  | member (members : List (Option String × Json)) (name : Option String)
  deriving Repr

inductive Stage where
  | value (fresh : Bool) (stack : List Open)
  | name (fresh : Bool) (members : List (Option String × Json)) (stack : List Open)
  | colon (members : List (Option String × Json)) (name : Option String) (stack : List Open)
  | afterItem (items : List Json) (stack : List Open)
  | afterMember (members : List (Option String × Json)) (stack : List Open)
  | done (value : Json)
  deriving Repr

def closeObject (members : List (Option String × Json)) : Json :=
  if members.any fun member => member.1.isNone then .unpaired
  else .object (members.reverse.filterMap fun (name, value) => name.map (·, value))

def deliver (j : Json) : List Open → Stage
  | [] => .done j
  | .array items :: stack => .afterItem (j :: items) stack
  | .member members name :: stack => .afterMember ((name, j) :: members) stack

def scalar? : Token → Option Json
  | .null => some .null
  | .bool b => some (.bool b)
  | .number written => some (.number written)
  | .string (some text) => some (.string text)
  | .string none => some .unpaired
  | _ => none

def step : Stage → Token → Option Stage
  | .value true (.array [] :: stack), .closeArray => some (deliver (.array []) stack)
  | .value _ stack, .openArray => some (.value true (.array [] :: stack))
  | .value _ stack, .openObject => some (.name true [] stack)
  | .value _ stack, t => (scalar? t).map (deliver · stack)
  | .name true members stack, .closeObject => some (deliver (closeObject members) stack)
  | .name _ members stack, .string name => some (.colon members name stack)
  | .colon members name stack, .colon => some (.value false (.member members name :: stack))
  | .afterItem items stack, .comma => some (.value false (.array items :: stack))
  | .afterItem items stack, .closeArray => some (deliver (.array items.reverse) stack)
  | .afterMember members stack, .comma => some (.name false members stack)
  | .afterMember members stack, .closeObject => some (deliver (closeObject members) stack)
  | _, _ => none

def run : Stage → List Token → Option Stage
  | stage, [] => some stage
  | stage, t :: ts => do run (← step stage t) ts

def ofTokens? (ts : List Token) : Option Json :=
  match run (.value false []) ts with
  | some (.done j) => some j
  | _ => none

def read? (text : String) : Option Json := do
  ofTokens? (← scan .between text.toList)

end FacetSearch.Json
