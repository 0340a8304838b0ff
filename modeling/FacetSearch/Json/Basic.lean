import FacetSearch.Text.Basic

/-! JSON values. A number keeps its written form and an object its members in written order. A
record is an object, where members of other names do not matter and a field must not occur twice, or
an array of the fields in order, where the last ones may be missing. Values are written in one line
or indented by two spaces a level; quotes, backslashes and control characters are escaped,
everything else is written as it is. -/
namespace FacetSearch

inductive Json where
  | null
  | bool (value : Bool)
  | number (written : String)
  | string (text : String)
  | array (items : List Json)
  | object (members : List (String × Json))
  /-- Well-formed text that no Unicode text stands for: half of a surrogate pair is escaped in it,
  either in the value itself or in one of its member names. -/
  | unpaired
  deriving Repr

namespace Json

def ofOption (write : α → Json) : Option α → Json
  | some a => write a
  | none => .null

def strings (texts : List String) : Json :=
  .array (texts.map .string)

/-- Inserts a member by name. Of two members of one name the later stays. -/
def insertMember (name : String) (value : Json) : List (String × Json) → List (String × Json)
  | [] => [(name, value)]
  | (other, old) :: rest =>
    if name < other then (name, value) :: (other, old) :: rest
    else if name = other then (other, old) :: rest
    else (other, old) :: insertMember name value rest

mutual
def sorted : Json → Json
  | .array items => .array (sortedItems items)
  | .object members => .object (sortedMembers members)
  | other => other
def sortedItems : List Json → List Json
  | [] => []
  | j :: js => j.sorted :: sortedItems js
def sortedMembers : List (String × Json) → List (String × Json)
  | [] => []
  | (name, value) :: rest => insertMember name value.sorted (sortedMembers rest)
end

def member? (name : String) (members : List (String × Json)) : Option (Option Json) :=
  match members.filter (·.1 = name) with
  | [] => some none
  | [(_, j)] => some (some j)
  | _ => none

def fields? (names : List String) : Json → Option (List (Option Json))
  | .object members => names.mapM (member? · members)
  | .array items =>
    if items.length ≤ names.length then
      some (items.map some ++ List.replicate (names.length - items.length) none)
    else none
  | _ => none

def text? : Json → Option String
  | .string text => some text
  | _ => none

def list? (read : Json → Option α) : Json → Option (List α)
  | .array items => items.mapM read
  | _ => none

def required? (read : Json → Option α) : Option Json → Option α
  | some j => read j
  | none => none

def listOrEmpty? (read : Json → Option α) : Option Json → Option (List α)
  | some j => list? read j
  | none => some []

def lowerHex (n : Nat) : Char :=
  (Text.hexDigit n).toLower

def escapeChar (c : Char) : List Char :=
  if c = '"' then ['\\', '"']
  else if c = '\\' then ['\\', '\\']
  else if c = '\n' then ['\\', 'n']
  else if c = '\r' then ['\\', 'r']
  else if c = '\t' then ['\\', 't']
  else if c.toNat = 8 then ['\\', 'b']
  else if c.toNat = 12 then ['\\', 'f']
  else if c.toNat < 32 then ['\\', 'u', '0', '0', lowerHex (c.toNat / 16), lowerHex (c.toNat % 16)]
  else [c]

def writeString (s : String) : List Char :=
  '"' :: s.toList.flatMap escapeChar ++ ['"']

def writeScalar : Json → List Char
  | .null => "null".toList
  | .bool true => "true".toList
  | .bool false => "false".toList
  | .number written => written.toList
  | .string text => writeString text
  | _ => "\"\\ud800\"".toList

mutual
def write : Json → List Char
  | .array items => '[' :: writeItems items ++ [']']
  | .object members => '\x7b' :: writeMembers members ++ ['\x7d']
  | scalar => writeScalar scalar
def writeItems : List Json → List Char
  | [] => []
  | [j] => j.write
  | j :: js => j.write ++ ',' :: writeItems js
def writeMembers : List (String × Json) → List Char
  | [] => []
  | [(name, value)] => writeString name ++ ':' :: value.write
  | (name, value) :: rest => writeString name ++ ':' :: value.write ++ ',' :: writeMembers rest
end

def newline (level : Nat) : List Char :=
  '\n' :: List.replicate (2 * level) ' '

mutual
def writeIndented (level : Nat) : Json → List Char
  | .array [] => ['[', ']']
  | .array items => '[' :: indentedItems (level + 1) items ++ newline level ++ [']']
  | .object [] => ['\x7b', '\x7d']
  | .object members => '\x7b' :: indentedMembers (level + 1) members ++ newline level ++ ['\x7d']
  | scalar => writeScalar scalar
def indentedItems (level : Nat) : List Json → List Char
  | [] => []
  | [j] => newline level ++ j.writeIndented level
  | j :: js => newline level ++ j.writeIndented level ++ ',' :: indentedItems level js
def indentedMembers (level : Nat) : List (String × Json) → List Char
  | [] => []
  | [(name, value)] => newline level ++ writeString name ++ ':' :: ' ' :: value.writeIndented level
  | (name, value) :: rest =>
    newline level ++ writeString name ++ ':' :: ' ' :: value.writeIndented level
      ++ ',' :: indentedMembers level rest
end

def compact (j : Json) : String :=
  String.ofList j.write

def pretty (j : Json) : String :=
  String.ofList (j.writeIndented 0)

end Json
end FacetSearch
