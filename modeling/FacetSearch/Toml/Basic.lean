import FacetSearch.Text.Basic

/-! Values of TOML documents, as far as settings need them, and the scalars they are made of: dates
and times as written; integers of 64 bits in four bases and floats, where single underscores may
stand between digits; quoted text with escapes or without, on one line or several. A table has a
header of its own, is implied by a longer header, is made by dotted keys or is written in braces; it
remembers which, since that decides whether later lines may add to it. -/
namespace FacetSearch

namespace Toml

inductive Form where
  | header
  | implied
  | dotted
  | braces
  deriving DecidableEq, Repr

end Toml

inductive Toml where
  | text (value : String)
  | moment (written : String)
  | scalar (written : String)
  | array (items : List Toml)
  | table (form : Toml.Form) (members : List (String × Toml))
  /-- Tables under one repeated header, the latest first. -/
  | tables (latest : List (String × Toml)) (earlier : List (List (String × Toml)))
  deriving Repr

namespace Toml

abbrev Members := List (String × Toml)

def find? (key : String) (members : Members) : Option Toml :=
  (members.find? (·.1 = key)).map (·.2)

def put (key : String) (value : Toml) : Members → Members
  | [] => [(key, value)]
  | (other, old) :: rest =>
    if other = key then (key, value) :: rest else (other, old) :: put key value rest

def isSpace (c : Char) : Bool :=
  c == ' ' || c == '\t'

def dropSpace (cs : List Char) : List Char :=
  cs.dropWhile isSpace

def isPrintable (c : Char) : Bool :=
  c == '\t' || 32 ≤ c.toNat && c.toNat != 127

def dropComment : List Char → List Char
  | '#' :: rest => rest.dropWhile isPrintable
  | cs => cs

def newline? : List Char → Option (List Char)
  | '\n' :: rest => some rest
  | '\r' :: '\n' :: rest => some rest
  | _ => none

def lineEnd? : List Char → Option (List Char)
  | [] => some []
  | cs => newline? cs

def restOfLine? (cs : List Char) : Option (List Char) :=
  lineEnd? (dropComment (dropSpace cs))

def dropGaps (comment : Bool) : List Char → List Char
  | [] => []
  | '\n' :: rest => dropGaps false rest
  | '\r' :: '\n' :: rest => dropGaps false rest
  | c :: rest =>
    if comment then
      if isPrintable c then dropGaps true rest else c :: rest
    else if isSpace c then dropGaps false rest
    else if c = '#' then dropGaps true rest
    else c :: rest

def fixed? (count : Nat) (cs : List Char) : Option (Nat × List Char) :=
  let digits := cs.take count
  if digits.length = count ∧ digits.all Char.isDigit then
    some (Text.digitsValue digits, cs.drop count)
  else none

def twoDigits? (low high : Nat) (cs : List Char) : Option (Nat × List Char) := do
  let (n, rest) ← fixed? 2 cs
  if low ≤ n ∧ n ≤ high then some (n, rest) else none

def symbol? (c : Char) : List Char → Option (List Char)
  | d :: rest => if c = d then some rest else none
  | [] => none

def isLeap (year : Nat) : Bool :=
  year % 4 == 0 && (year % 100 != 0 || year % 400 == 0)

def monthLength (year month : Nat) : Nat :=
  if month = 2 then (if isLeap year then 29 else 28)
  else if month ∈ [4, 6, 9, 11] then 30 else 31

def date? (cs : List Char) : Option (List Char) := do
  let (year, rest) ← fixed? 4 cs
  let (month, rest) ← twoDigits? 1 12 (← symbol? '-' rest)
  let (_, rest) ← twoDigits? 1 (monthLength year month) (← symbol? '-' rest)
  some rest

def secondFraction? : List Char → Option (List Char)
  | '.' :: rest =>
    if (rest.takeWhile Char.isDigit).isEmpty then none else some (rest.dropWhile Char.isDigit)
  | rest => some rest

def time? (cs : List Char) : Option (List Char) := do
  let (_, rest) ← twoDigits? 0 23 cs
  let (_, rest) ← twoDigits? 0 59 (← symbol? ':' rest)
  let (_, rest) ← twoDigits? 0 60 (← symbol? ':' rest)
  secondFraction? rest

def offset? : List Char → Option (List Char)
  | 'Z' :: rest | 'z' :: rest | rest@([]) => some rest
  | sign :: rest => do
    if sign = '+' ∨ sign = '-' then
      let (_, rest) ← twoDigits? 0 23 rest
      let (_, rest) ← twoDigits? 0 59 (← symbol? ':' rest)
      some rest
    else none

def isTimeBehindDate (cs : List Char) : Bool :=
  match time? cs with
  | some rest => offset? rest == some []
  | none => false

def isDate (cs : List Char) : Bool :=
  date? cs == some []

def isMoment (cs : List Char) : Bool :=
  match date? cs with
  | some [] => true
  | some (c :: rest) => (c == 'T' || c == 't' || c == ' ') && isTimeBehindDate rest
  | none => time? cs == some []

def isGrouped (digit : Char → Bool) : List Char → Bool
  | [] => false
  | [c] => digit c
  | c :: '_' :: rest => digit c && isGrouped digit rest
  | c :: rest => digit c && isGrouped digit rest

def isBinary (c : Char) : Bool := c == '0' || c == '1'
def isOctal (c : Char) : Bool := '0' ≤ c && c ≤ '7'
def isHex (c : Char) : Bool := (Text.hexValue? c).isSome

def ungrouped (cs : List Char) : List Char :=
  cs.filter (· != '_')

def valueIn (base : Nat) (cs : List Char) : Nat :=
  (ungrouped cs).foldl (fun n c => base * n + (Text.hexValue? c).getD 0) 0

/-- A whole number without sign. Only zero itself begins with zero. -/
def isWhole (cs : List Char) : Bool :=
  isGrouped Char.isDigit cs && (cs.head? != some '0' || cs.length == 1)

def isSmall (negative : Bool) (n : Nat) : Bool :=
  decide (Text.InRange (Text.signed negative n))

def isBased (base : Nat) (digit : Char → Bool) (cs : List Char) : Bool :=
  isGrouped digit cs && isSmall false (valueIn base cs)

def isDecimalInteger (cs : List Char) : Bool :=
  let (negative, digits) := Text.splitSign cs
  isWhole digits && isSmall negative (valueIn 10 digits)

def isInteger : List Char → Bool
  | '0' :: 'x' :: digits => isBased 16 isHex digits
  | '0' :: 'o' :: digits => isBased 8 isOctal digits
  | '0' :: 'b' :: digits => isBased 2 isBinary digits
  | cs => isDecimalInteger cs

structure FloatParts where
  whole : List Char
  fraction : Option (List Char)
  exponent : Option (List Char)

def isDigitOrGap (c : Char) : Bool :=
  c.isDigit || c == '_'

def splitExponent : List Char → Option (Option (List Char))
  | [] => some none
  | c :: rest => if c = 'e' ∨ c = 'E' then some (some rest) else none

def floatParts? (cs : List Char) : Option FloatParts := do
  let whole := cs.takeWhile isDigitOrGap
  match cs.dropWhile isDigitOrGap with
  | '.' :: rest =>
    let exponent ← splitExponent (rest.dropWhile isDigitOrGap)
    some ⟨whole, some (rest.takeWhile isDigitOrGap), exponent⟩
  | rest => some ⟨whole, none, ← splitExponent rest⟩

/-- Whether a decimal number rounds to infinity in double precision: it reaches the middle between
the largest double and the next power of two. -/
def overflows (digits : Nat) (exponent : Int) : Bool :=
  let bound := Nat.pow 2 1024 - Nat.pow 2 970
  let size : Int := (Nat.toDigits 10 digits).length + exponent
  if digits = 0 || size < 309 then false
  else if 309 < size then true
  else if 0 ≤ exponent then decide (bound ≤ digits * Nat.pow 10 exponent.toNat)
  else decide (bound * Nat.pow 10 (-exponent).toNat ≤ digits)

def exponentValue (cs : List Char) : Int :=
  let (negative, digits) := Text.splitSign cs
  Text.signed negative (valueIn 10 digits)

def FloatParts.isValid (p : FloatParts) : Bool :=
  isWhole p.whole && p.fraction.all (isGrouped Char.isDigit)
    && p.exponent.all (fun e => isGrouped Char.isDigit (Text.splitSign e).2)
    && (p.fraction.isSome || p.exponent.isSome)

def FloatParts.overflows (p : FloatParts) : Bool :=
  let fraction := ungrouped (p.fraction.getD [])
  Toml.overflows (valueIn 10 (p.whole ++ fraction))
    ((p.exponent.map exponentValue).getD 0 - fraction.length)

/-- Floats beyond the doubles are refused on the positive side only. -/
def isFloat (cs : List Char) : Bool :=
  let (negative, rest) := Text.splitSign cs
  rest == "inf".toList || rest == "nan".toList || match floatParts? rest with
    | some p => p.isValid && (negative || !p.overflows)
    | none => false

abbrev Taken := Option (List Char × List Char)

def prepend (c : Char) : Taken → Taken :=
  Option.map fun (taken, rest) => (c :: taken, rest)

def hexValue (digits : List Char) : Option Nat :=
  digits.foldlM (fun n c => (Text.hexValue? c).map (16 * n + ·)) 0

def codePoint? (digits : List Char) : Option Char := do
  let n ← hexValue digits
  if h : n.isValidChar then some (Char.ofNatAux n h) else none

def escape? : Char → Option Char
  | 'b' => some (Char.ofNat 8)
  | 't' => some '\t'
  | 'n' => some '\n'
  | 'f' => some (Char.ofNat 12)
  | 'r' => some '\r'
  | '"' => some '"'
  | '\\' => some '\\'
  | _ => none

def basic : List Char → Taken
  | [] => none
  | '"' :: rest => some ([], rest)
  | '\\' :: 'u' :: a :: b :: c :: d :: rest =>
    (codePoint? [a, b, c, d]).bind fun x => prepend x (basic rest)
  | '\\' :: 'U' :: a :: b :: c :: d :: e :: f :: g :: h :: rest =>
    (codePoint? [a, b, c, d, e, f, g, h]).bind fun x => prepend x (basic rest)
  | '\\' :: c :: rest => (escape? c).bind fun x => prepend x (basic rest)
  | c :: rest => if isPrintable c then prepend c (basic rest) else none

def literal : List Char → Taken
  | [] => none
  | '\'' :: rest => some ([], rest)
  | c :: rest => if isPrintable c then prepend c (literal rest) else none

/-- Three quotes close a text of several lines; one or two more before them belong to it. -/
def closing (quote : Char) : List Char → List Char × List Char
  | c :: d :: rest =>
    if c = quote ∧ d = quote then ([quote, quote], rest)
    else if c = quote then ([quote], d :: rest) else ([], c :: d :: rest)
  | [c] => if c = quote then ([quote], []) else ([], [c])
  | [] => ([], [])

def joinsLines (cs : List Char) : Bool :=
  (newline? (dropSpace cs)).isSome

def basicLines (joining : Bool) : List Char → Taken
  | [] => none
  | '"' :: '"' :: '"' :: rest => some (closing '"' rest)
  | '\\' :: 'u' :: a :: b :: c :: d :: rest =>
    (codePoint? [a, b, c, d]).bind fun x => prepend x (basicLines false rest)
  | '\\' :: 'U' :: a :: b :: c :: d :: e :: f :: g :: h :: rest =>
    (codePoint? [a, b, c, d, e, f, g, h]).bind fun x => prepend x (basicLines false rest)
  | '\\' :: c :: rest =>
    if joinsLines (c :: rest) then basicLines true (c :: rest)
    else (escape? c).bind fun x => prepend x (basicLines false rest)
  | '\r' :: '\n' :: rest =>
    if joining then basicLines true rest else prepend '\n' (basicLines false rest)
  | c :: rest =>
    if joining && (isSpace c || c == '\n') then basicLines true rest
    else if c = '\n' || isPrintable c then prepend c (basicLines false rest)
    else none

def literalLines : List Char → Taken
  | [] => none
  | '\'' :: '\'' :: '\'' :: rest => some (closing '\'' rest)
  | '\r' :: '\n' :: rest => prepend '\n' (literalLines rest)
  | c :: rest => if c = '\n' || isPrintable c then prepend c (literalLines rest) else none

def dropNewline (cs : List Char) : List Char :=
  (newline? cs).getD cs

def quoted? : List Char → Taken
  | '"' :: '"' :: '"' :: rest => basicLines false (dropNewline rest)
  | '\'' :: '\'' :: '\'' :: rest => literalLines (dropNewline rest)
  | '"' :: rest => basic rest
  | '\'' :: rest => literal rest
  | _ => none

end Toml
end FacetSearch
