import FacetSearch.Toml.Basic

/-! Documents of TOML: lines that define keys, and headers that say in which table. Arrays and
tables in braces nest to a fixed depth; a dotted key has as many names at most. -/
namespace FacetSearch.Toml

def nestingLimit : Nat := 79

def isBareKeyChar (c : Char) : Bool :=
  c.isAlphanum || c == '-' || c == '_'

def name? : List Char → Option (String × List Char)
  | '"' :: rest => (basic rest).map fun (taken, rest) => (String.ofList taken, rest)
  | '\'' :: rest => (literal rest).map fun (taken, rest) => (String.ofList taken, rest)
  | cs =>
    let name := cs.takeWhile isBareKeyChar
    if name.isEmpty then none else some (String.ofList name, cs.dropWhile isBareKeyChar)

def dottedNames : (limit : Nat) → List Char → Option (List String × List Char)
  | 0, _ => none
  | limit + 1, cs => do
    let (name, rest) ← name? (dropSpace cs)
    match dropSpace rest with
    | '.' :: rest =>
      let (names, rest) ← dottedNames limit rest
      some (name :: names, rest)
    | rest => some ([name], rest)

def key? : List Char → Option (List String × List Char) :=
  dottedNames nestingLimit

/-- Adds a value under a dotted key. Tables on the way may be added to if no line has defined them
as a whole; the last of them must have come about by dotted keys. -/
def define : (path : List String) → (key : String) → Toml → Members → Option Members
  | [], key, value, members =>
    if (find? key members).isSome then none else some (put key value members)
  | name :: path, key, value, members => do
    let enter (form : Form) (inner : Members) : Option Members :=
      if path.isEmpty ∧ form ≠ .dotted then none else define path key value inner
    match find? name members with
    | none => some (put name (.table .dotted (← enter .dotted [])) members)
    | some (.table form inner) =>
      if form = .dotted ∨ form = .implied then
        some (put name (.table form (← enter form inner)) members)
      else none
    | some (.tables latest earlier) =>
      some (put name (.tables (← enter .header latest) earlier) members)
    | some _ => none

def defineKey (names : List String) (value : Toml) (members : Members) : Option Members := do
  define names.dropLast (← names.getLast?) value members

def isScalarEnd (c : Char) : Bool :=
  isSpace c || c == '\n' || c == '\r' || c == '#' || c == ',' || c == ']' || c == '\x7d'

def scalar? (cs : List Char) : Option Toml :=
  if cs = "true".toList ∨ cs = "false".toList ∨ isInteger cs ∨ isFloat cs then
    some (.scalar (String.ofList cs))
  else if isMoment cs then some (.moment (String.ofList cs))
  else none

/-- The scalar that begins here. A date and its time may be parted by one blank. -/
def scalarValue (cs : List Char) : Option (Toml × List Char) :=
  let first := cs.takeWhile (!isScalarEnd ·)
  let rest := cs.dropWhile (!isScalarEnd ·)
  let second := rest.tail.takeWhile (!isScalarEnd ·)
  if isDate first ∧ rest.head? = some ' ' ∧ !second.isEmpty then
    (scalar? (first ++ ' ' :: second)).map (·, rest.tail.dropWhile (!isScalarEnd ·))
  else (scalar? first).map (·, rest)

def arrayItems (item : List Char → Option (Toml × List Char)) (cs : List Char) : Option (List Toml × List Char) :=
  match dropGaps false cs with
  | ']' :: rest => some ([], rest)
  | start => do
    let (value, rest) ← item start
    match dropGaps false rest with
    | ']' :: rest => some ([value], rest)
    | ',' :: rest =>
      if _h : rest.length < cs.length then do
        let (values, rest) ← arrayItems item rest
        some (value :: values, rest)
      else none
    | _ => none
termination_by cs.length

def braceMembers (item : List Char → Option (Toml × List Char)) (members : Members) (cs : List Char) :
    Option (Members × List Char) := do
  let (names, rest) ← key? cs
  let (value, rest) ← item (dropSpace (← symbol? '=' rest))
  let members ← defineKey names value members
  match dropSpace rest with
  | '\x7d' :: rest => some (members, rest)
  | ',' :: rest =>
    if _h : rest.length < cs.length then braceMembers item members rest else none
  | _ => none
termination_by cs.length

def textValue (cs : List Char) : Option (Toml × List Char) :=
  (quoted? cs).map fun (taken, rest) => (.text (String.ofList taken), rest)

def value? : (depth : Nat) → List Char → Option (Toml × List Char)
  | _, '"' :: rest => textValue ('"' :: rest)
  | _, '\'' :: rest => textValue ('\'' :: rest)
  | 0, '[' :: _ | 0, '\x7b' :: _ => none
  | depth + 1, '[' :: rest =>
    (arrayItems (value? depth) rest).map fun (items, rest) => (.array items, rest)
  | depth + 1, '\x7b' :: rest => match dropSpace rest with
    | '\x7d' :: rest => some (.table .braces [], rest)
    | start => (braceMembers (value? depth) [] start).map fun (members, rest) =>
      (.table .braces members, rest)
  | _, cs => scalarValue cs

/-- Changes the members of the table at a path of headers. Of repeated tables it is the latest. -/
def within (update : Members → Option Members) : (path : List String) → Members → Option Members
  | [], members => update members
  | name :: path, members => match find? name members with
    | none => do some (put name (.table .implied (← within update path [])) members)
    | some (.table form inner) =>
      if form = .braces then none
      else do some (put name (.table form (← within update path inner)) members)
    | some (.tables latest earlier) => do
      some (put name (.tables (← within update path latest) earlier) members)
    | some _ => none

def openTable (name : String) (members : Members) : Option Members :=
  match find? name members with
  | none => some (put name (.table .header []) members)
  | some (.table .implied inner) => some (put name (.table .header inner) members)
  | some _ => none

def openNextTable (name : String) (members : Members) : Option Members :=
  match find? name members with
  | none => some (put name (.tables [] []) members)
  | some (.tables latest earlier) => some (put name (.tables [] (latest :: earlier)) members)
  | some _ => none

structure Draft where
  path : List String
  root : Members

def Draft.define (d : Draft) (names : List String) (value : Toml) : Option Draft := do
  some { d with root := ← within (defineKey names value) d.path d.root }

def Draft.header (d : Draft) (names : List String)
    (enter : String → Members → Option Members) : Option Draft := do
  let name ← names.getLast?
  some ⟨names, ← within (enter name) names.dropLast d.root⟩

def headerLine (d : Draft) : List Char → Option (Draft × List Char)
  | '[' :: rest => do
    let (names, rest) ← key? rest
    let rest ← symbol? ']' (← symbol? ']' rest)
    some (← d.header names openNextTable, ← restOfLine? rest)
  | rest => do
    let (names, rest) ← key? rest
    some (← d.header names openTable, ← restOfLine? (← symbol? ']' rest))

def line (d : Draft) : List Char → Option (Draft × List Char)
  | '[' :: rest => headerLine d rest
  | '#' :: rest => do some (d, ← lineEnd? (dropComment ('#' :: rest)))
  | '\n' :: rest => some (d, rest)
  | '\r' :: '\n' :: rest => some (d, rest)
  | cs => do
    let (names, rest) ← key? cs
    let (value, rest) ← value? nestingLimit (dropSpace (← symbol? '=' rest))
    some (← d.define names value, ← restOfLine? rest)

def lines (d : Draft) (cs : List Char) : Option Members :=
  match dropSpace cs with
  | [] => some d.root
  | start => do
    let (d, rest) ← line d start
    if _h : rest.length < cs.length then lines d rest else none
termination_by cs.length

def dropByteOrderMark : List Char → List Char
  | '\ufeff' :: rest => rest
  | cs => cs

def read? (text : String) : Option Members :=
  lines ⟨[], []⟩ (dropByteOrderMark text.toList)

end FacetSearch.Toml
