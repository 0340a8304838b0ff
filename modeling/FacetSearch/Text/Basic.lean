/-! Texts as lists of characters. Blank characters are those of the Unicode property White_Space,
and text counts as blank when it holds nothing else. Decimal texts stand for 64-bit integers: they
are written, read exactly, or read for the leading integer of a text with the value clamped to 64
bits. In percent encoding letters, digits and `-_.~` stand for themselves, everything else is
written as the bytes of its UTF-8 form; reading undoes this and leaves a `%` without two hex digits
as it is, so it fails only where the bytes are not UTF-8. -/
namespace FacetSearch.Text

def blankRanges : List (Nat × Nat) :=
  [(0x09, 0x0D), (0x20, 0x20), (0x85, 0x85), (0xA0, 0xA0), (0x1680, 0x1680), (0x2000, 0x200A),
    (0x2028, 0x2029), (0x202F, 0x202F), (0x205F, 0x205F), (0x3000, 0x3000)]

def isBlank (c : Char) : Bool :=
  blankRanges.any fun (low, high) => low ≤ c.toNat && c.toNat ≤ high

def allBlank (s : String) : Bool :=
  s.toList.all isBlank

theorem allBlankEmpty : allBlank "" = true := rfl

def dropBlank (cs : List Char) : List Char :=
  cs.dropWhile isBlank

theorem dropBlankEqNil (cs : List Char) : dropBlank cs = [] ↔ cs.all isBlank = true := by
  induction cs with
  | nil => simp [dropBlank]
  | cons c cs ih => cases h : isBlank c <;> simp_all [dropBlank]

def decimal (n : Int64) : List Char :=
  if n.toInt < 0 then '-' :: Nat.toDigits 10 n.toInt.natAbs else Nat.toDigits 10 n.toInt.natAbs

def isIntegerText : List Char → Bool
  | '-' :: digits => !digits.isEmpty && digits.all Char.isDigit
  | digits => !digits.isEmpty && digits.all Char.isDigit

def digitsValue (digits : List Char) : Nat :=
  Nat.ofDigitChars 10 digits 0

def splitSign : List Char → Bool × List Char
  | '-' :: rest => (true, rest)
  | '+' :: rest => (false, rest)
  | rest => (false, rest)

def signed (negative : Bool) (n : Nat) : Int :=
  if negative then -(n : Int) else n

def InRange (z : Int) : Prop :=
  Int64.minValue.toInt ≤ z ∧ z ≤ Int64.maxValue.toInt
instance (z) : Decidable (InRange z) := by
  unfold InRange; infer_instance

def integer? (cs : List Char) : Option Int64 :=
  let (negative, digits) := splitSign cs
  let z := signed negative (digitsValue digits)
  if !digits.isEmpty && digits.all Char.isDigit && decide (InRange z) then some (Int64.ofInt z)
  else none

def clamp (z : Int) : Int64 :=
  Int64.ofInt (max Int64.minValue.toInt (min Int64.maxValue.toInt z))

/-- The integer at the beginning of a text, after blanks and one optional sign. What follows the
digits does not matter; values beyond 64 bits go to the nearest end. -/
def leadingInteger? (s : String) : Option Int64 :=
  let (negative, rest) := splitSign (dropBlank s.toList)
  let digits := rest.takeWhile Char.isDigit
  if digits.isEmpty then none else some (clamp (signed negative (digitsValue digits)))

def after? : (start cs : List Char) → Option (List Char)
  | [], cs => some cs
  | _ :: _, [] => none
  | s :: start, c :: cs => if s = c then after? start cs else none

theorem afterEqSome {start cs rest : List Char} :
    after? start cs = some rest ↔ cs = start ++ rest := by
  induction start generalizing cs with
  | nil => simp [after?, eq_comm]
  | cons s start ih =>
    cases cs with
    | nil => simp [after?]
    | cons c cs => by_cases h : s = c <;> simp [after?, h, ih, eq_comm]

def pieces (separator : Char) : List Char → List (List Char)
  | [] => [[]]
  | c :: cs =>
    if c = separator then [] :: pieces separator cs
    else match pieces separator cs with
      | piece :: rest => (c :: piece) :: rest
      | [] => [[c]]

theorem piecesAppend {separator : Char} (left right : List Char) (free : separator ∉ left) :
    pieces separator (left ++ separator :: right) = left :: pieces separator right := by
  induction left with
  | nil => simp [pieces]
  | cons c cs ih =>
    simp only [List.mem_cons, not_or] at free
    simp [pieces, Ne.symm free.1, ih free.2]

theorem piecesOfFree {separator : Char} (cs : List Char) (free : separator ∉ cs) :
    pieces separator cs = [cs] := by
  induction cs with
  | nil => rfl
  | cons c cs ih =>
    simp only [List.mem_cons, not_or] at free
    simp [pieces, Ne.symm free.1, ih free.2]

theorem piecesFree {separator : Char} {cs piece : List Char} (h : piece ∈ pieces separator cs) :
    separator ∉ piece := by
  induction cs generalizing piece with
  | nil =>
    cases List.mem_singleton.mp h
    exact List.not_mem_nil
  | cons c cs ih =>
    unfold pieces at h
    split at h
    · rcases List.mem_cons.mp h with rfl | later
      · exact List.not_mem_nil
      · exact ih later
    · rename_i other
      split at h
      · rename_i first rest same
        rw [same] at ih
        rcases List.mem_cons.mp h with rfl | later
        · exact List.not_mem_cons_of_ne_of_not_mem (Ne.symm other) (ih List.mem_cons_self)
        · exact ih (List.mem_cons_of_mem first later)
      · cases List.mem_singleton.mp h
        simpa using Ne.symm other

def isUnreserved (c : Char) : Bool :=
  c.isAlphanum || c == '-' || c == '_' || c == '.' || c == '~'

def hexDigit (n : Nat) : Char :=
  if n < 10 then Char.ofNat (48 + n) else Char.ofNat (55 + n)

def hexValue? (c : Char) : Option Nat :=
  if '0' ≤ c && c ≤ '9' then some (c.toNat - 48)
  else if 'A' ≤ c && c ≤ 'F' then some (c.toNat - 55)
  else if 'a' ≤ c && c ≤ 'f' then some (c.toNat - 87)
  else none

theorem hexValueHexDigit : ∀ n < 16, hexValue? (hexDigit n) = some n := by decide

def escapeByte (b : UInt8) : List Char :=
  ['%', hexDigit (b.toNat / 16), hexDigit (b.toNat % 16)]

def encodeChar (c : Char) : List Char :=
  if isUnreserved c then [c] else (String.utf8EncodeChar c).flatMap escapeByte

def percentEncode (s : String) : List Char :=
  s.toList.flatMap encodeChar

def writtenBytes : List Char → List UInt8
  | '%' :: high :: low :: rest =>
    match hexValue? high, hexValue? low with
    | some h, some l => UInt8.ofNat (16 * h + l) :: writtenBytes rest
    | _, _ => String.utf8EncodeChar '%' ++ writtenBytes (high :: low :: rest)
  | c :: rest => String.utf8EncodeChar c ++ writtenBytes rest
  | [] => []

theorem writtenBytesEscape (b : UInt8) (rest : List Char) :
    writtenBytes (escapeByte b ++ rest) = b :: writtenBytes rest := by
  have small : b.toNat < 256 := b.toNat_lt
  simp only [escapeByte, List.cons_append, List.nil_append, writtenBytes,
    hexValueHexDigit _ (show b.toNat / 16 < 16 by omega),
    hexValueHexDigit _ (show b.toNat % 16 < 16 by omega)]
  rw [show 16 * (b.toNat / 16) + b.toNat % 16 = b.toNat by omega, UInt8.ofNat_toNat]

def percentDecode? (cs : List Char) : Option String :=
  String.fromUTF8? ⟨(writtenBytes cs).toArray⟩

def shortEscape? : Char → Option Char
  | '\x00' => some '0'
  | '\t' => some 't'
  | '\r' => some 'r'
  | '\n' => some 'n'
  | '"' => some '"'
  | '\\' => some '\\'
  | _ => none

/-- Whether a character of quoted text stands for itself. Beyond ASCII that depends on the version
of Unicode. -/
def isShown (beyond : Char → Bool) (c : Char) : Bool :=
  if c.toNat < 128 then 32 ≤ c.toNat && c.toNat != 127 else beyond c

def escapeShown (beyond : Char → Bool) (c : Char) : List Char :=
  match shortEscape? c with
  | some mark => ['\\', mark]
  | none =>
    if isShown beyond c then [c]
    else '\\' :: 'u' :: '\x7b' :: Nat.toDigits 16 c.toNat ++ ['\x7d']

def quoteShown (beyond : Char → Bool) (s : String) : List Char :=
  '"' :: s.toList.flatMap (escapeShown beyond) ++ ['"']

end FacetSearch.Text
