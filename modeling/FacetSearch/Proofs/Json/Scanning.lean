import FacetSearch.Json.Read
import FacetSearch.Json.Basic
import FacetSearch.Proofs.Text.RoundTrip

/-! The tokens of written JSON. A piece of text has tokens of its own when it may stand before
anything that ends a number or a word; such pieces are put together and spread over lines freely.
Main statements: both written forms of a value have the tokens of the value. -/
namespace FacetSearch.Json

mutual
def tokens : Json → List Token
  | .null => [.null]
  | .bool value => [.bool value]
  | .number written => [.number written]
  | .string text => [.string (some text)]
  | .array items => .openArray :: (itemTokens items ++ [.closeArray])
  | .object members => .openObject :: (memberTokens members ++ [.closeObject])
  | .unpaired => [.string none]
def itemTokens : List Json → List Token
  | [] => []
  | [j] => j.tokens
  | j :: js => j.tokens ++ .comma :: itemTokens js
def memberTokens : List (String × Json) → List Token
  | [] => []
  | [(name, value)] => .string (some name) :: .colon :: value.tokens
  | (name, value) :: rest =>
    .string (some name) :: .colon :: (value.tokens ++ .comma :: memberTokens rest)
end

mutual
/-- Whether a value has its own written form: numbers are written as numbers and text is whole. -/
def isProper : Json → Bool
  | .number written => isNumber written.toList
  | .array items => properItems items
  | .object members => properMembers members
  | .unpaired => false
  | _ => true
def properItems : List Json → Bool
  | [] => true
  | j :: js => j.isProper && properItems js
def properMembers : List (String × Json) → Bool
  | [] => true
  | (_, value) :: rest => value.isProper && properMembers rest
end

/-- Nothing follows that would belong to a number or a word before it. -/
def Ends (cs : List Char) : Prop :=
  ∀ c, cs.head? = some c → isNumberChar c = false ∧ c.isAlpha = false

def Scans (cs : List Char) (ts : List Token) : Prop :=
  ∀ rest, Ends rest → scan .between (cs ++ rest) = (scan .between rest).map (ts ++ ·)

theorem endsNothing : Ends [] := by
  simp [Ends]

theorem endsCons {c : Char} (h : isNumberChar c = false ∧ c.isAlpha = false) (cs : List Char) :
    Ends (c :: cs) := by
  rintro d same
  cases same
  exact h

theorem scanSilent {s next : Scanner} {c : Char} (h : scanChar s c = some ([], next))
    (cs : List Char) : scan s (c :: cs) = scan next cs := by
  simp [scan, h]

theorem scanEmits {s next : Scanner} {c : Char} {t : Token} (h : scanChar s c = some ([t], next))
    (cs : List Char) : scan s (c :: cs) = (scan next cs).map (t :: ·) := by
  simp only [scan, h, bind, Option.bind]
  cases scan next cs <;> rfl

theorem scansNothing : Scans [] [] := by
  intro rest _
  simp

theorem scansThen {cs ds : List Char} {ts us : List Token} (left : Scans cs ts)
    (ends : ∀ rest, Ends rest → Ends (ds ++ rest)) (right : Scans ds us) :
    Scans (cs ++ ds) (ts ++ us) := by
  intro rest after
  rw [List.append_assoc, left _ (ends rest after), right rest after, Option.map_map]
  simp only [Function.comp_def, List.append_assoc]

theorem scanSpaces {cs : List Char} (spaces : cs.all isSpace = true) (rest : List Char) :
    scan .between (cs ++ rest) = scan .between rest := by
  induction cs with
  | nil => rfl
  | cons c cs ih =>
    obtain ⟨first, others⟩ := List.all_cons ▸ spaces |> Bool.and_eq_true_iff.mp
    have space : scanChar .between c = some ([], .between) := by
      simp [scanChar, startToken, first]
    rw [List.cons_append, scanSilent space, ih others]

theorem scansSpaced (spaces : List Char) {cs : List Char} {ts : List Token} (blank : spaces.all isSpace = true)
    (h : Scans cs ts) : Scans (spaces ++ cs) ts := by
  intro rest ends
  rw [List.append_assoc, scanSpaces blank, h rest ends]

theorem newlineSpaces (level : Nat) : (newline level).all isSpace = true := by
  rw [newline, List.all_cons, List.all_replicate]
  split <;> rfl

theorem scansLine {cs : List Char} {ts : List Token} (level : Nat) (h : Scans cs ts) :
    Scans (newline level ++ cs) ts :=
  scansSpaced _ (newlineSpaces level) h

/-- A character that is a token of its own. -/
structure Cuts (c : Char) (t : Token) : Prop where
  token : scanChar .between c = some ([t], .between)
  ends : isNumberChar c = false ∧ c.isAlpha = false

theorem scansAfter {c : Char} {t : Token} {cs : List Char} {ts : List Token} (cut : Cuts c t)
    (h : Scans cs ts) : Scans (c :: cs) (t :: ts) := by
  intro rest ends
  rw [List.cons_append, scanEmits cut.token, h rest ends, Option.map_map]
  rfl

theorem scansCut {c : Char} {t : Token} {cs ds : List Char} {ts us : List Token}
    (left : Scans cs ts) (cut : Cuts c t) (right : Scans ds us) :
    Scans (cs ++ c :: ds) (ts ++ t :: us) :=
  scansThen left (fun _ _ => endsCons cut.ends _) (scansAfter cut right)

/-- A piece that is read for a character. -/
def Stands (p : Piece) (c : Char) : Prop :=
  p = .char c ∨ p = .unit c.toNat ∧ c.toNat < 32

theorem hexValueLowerHex : ∀ n < 16, Text.hexValue? (lowerHex n) = some n := by decide

section
variable (read : List Piece) (rest : List Char)

theorem scanSimple {e c : Char} (simple : simpleEscape? e = some c) (other : e ≠ 'u') :
    scan (.string read) ('\\' :: e :: rest) = scan (.string (.char c :: read)) rest := by
  have escape : scanChar (.string read) '\\' = some ([], .escape read) := rfl
  have named : scanChar (.escape read) e = some ([], .string (.char c :: read)) := by
    simp [scanChar, simple, other]
  rw [scanSilent escape, scanSilent named]

theorem scanDigit {c : Char} {n : Nat} (hex : Text.hexValue? c = some n) {digits : Nat}
    (more : digits ≠ 3) (value : Nat) : scan (.unit read digits value) (c :: rest) =
      scan (.unit read (digits + 1) (16 * value + n)) rest :=
  scanSilent (by simp [scanChar, hex, more]) rest

theorem scanLastDigit {c : Char} {n : Nat} (hex : Text.hexValue? c = some n) (value : Nat) :
    scan (.unit read 3 value) (c :: rest) = scan (.string (.unit (16 * value + n) :: read)) rest :=
  scanSilent (by simp [scanChar, hex]) rest

theorem scanUnit {n : Nat} (small : n < 256) :
    scan (.string read) ('\\' :: 'u' :: '0' :: '0' :: lowerHex (n / 16) :: lowerHex (n % 16) :: rest)
      = scan (.string (.unit n :: read)) rest := by
  have zero : Text.hexValue? '0' = some 0 := rfl
  have high := hexValueLowerHex (n / 16) (by omega)
  have low := hexValueLowerHex (n % 16) (by omega)
  have escape : scanChar (.string read) '\\' = some ([], .escape read) := rfl
  have unit : scanChar (.escape read) 'u' = some ([], .unit read 0 0) := rfl
  have whole : 16 * (16 * (16 * (16 * 0 + 0) + 0) + n / 16) + n % 16 = n := by omega
  rw [scanSilent escape, scanSilent unit, scanDigit _ _ zero (by decide), scanDigit _ _ zero (by decide),
    scanDigit _ _ high (by decide), scanLastDigit _ _ low, whole]

end

theorem scanEscaped (read : List Piece) (c : Char) : ∃ p, Stands p c ∧ ∀ rest,
    scan (.string read) (escapeChar c ++ rest) = scan (.string (p :: read)) rest := by
  have ofCode {n : Nat} (code : c.toNat = n) : c = Char.ofNat n := by
    rw [← code, Char.ofNat_toNat]
  have simple {e : Char} (escape : simpleEscape? e = some c) (other : e ≠ 'u') :
      ∃ p, Stands p c ∧ ∀ rest,
        scan (.string read) (['\\', e] ++ rest) = scan (.string (p :: read)) rest :=
    ⟨.char c, .inl rfl, fun rest => scanSimple read rest escape other⟩
  unfold escapeChar
  split
  · rename_i quote
    exact simple (by rw [quote]; rfl) (by decide)
  split
  · rename_i backslash
    exact simple (by rw [backslash]; rfl) (by decide)
  split
  · rename_i newline
    exact simple (by rw [newline]; rfl) (by decide)
  split
  · rename_i carriage
    exact simple (by rw [carriage]; rfl) (by decide)
  split
  · rename_i tab
    exact simple (by rw [tab]; rfl) (by decide)
  split
  · rename_i backspace
    exact simple (by rw [ofCode backspace]; rfl) (by decide)
  split
  · rename_i formFeed
    exact simple (by rw [ofCode formFeed]; rfl) (by decide)
  split
  · rename_i control
    exact ⟨.unit c.toNat, .inr ⟨rfl, control⟩, fun rest => scanUnit read rest (by omega)⟩
  · rename_i quote backslash _ _ _ _ _ plain
    have written : scanChar (.string read) c = some ([], .string (.char c :: read)) := by
      simp [scanChar, quote, backslash, plain]
    exact ⟨.char c, .inl rfl, fun rest => scanSilent written rest⟩

theorem joinUnit {n : Nat} (small : n < 32) (ps : List Piece) :
    joinPieces (.unit n :: ps) = (joinPieces ps).map (Char.ofNat n :: ·) := by
  have high : isHigh n = false := by simp [isHigh]; omega
  have low : isLow n = false := by simp [isLow]; omega
  cases ps with
  | nil => simp [joinPieces, high, low]
  | cons p ps => cases p <;> simp [joinPieces, high, low]

theorem joinStanding {p : Piece} {c : Char} (h : Stands p c) (ps : List Piece) :
    joinPieces (p :: ps) = (joinPieces ps).map (c :: ·) := by
  rcases h with rfl | ⟨rfl, small⟩
  · rw [joinPieces]
  · rw [joinUnit small, Char.ofNat_toNat]

theorem scanText (read : List Piece) (cs rest : List Char) : ∃ ps, joinPieces ps = some cs ∧
    scan (.string read) (cs.flatMap escapeChar ++ rest) =
      scan (.string (ps.reverse ++ read)) rest := by
  induction cs generalizing read with
  | nil => exact ⟨[], rfl, rfl⟩
  | cons c cs ih =>
    obtain ⟨p, stands, escaped⟩ := scanEscaped read c
    obtain ⟨ps, joined, scanned⟩ := ih (p :: read)
    refine ⟨p :: ps, by rw [joinStanding stands, joined]; rfl, ?_⟩
    rw [List.flatMap_cons, List.append_assoc, escaped, scanned, List.reverse_cons,
      List.append_assoc, List.singleton_append]

theorem scansString (s : String) : Scans (writeString s) [.string (some s)] := by
  intro rest _
  obtain ⟨ps, joined, scanned⟩ := scanText [] s.toList ('"' :: rest)
  have opened : scanChar .between '"' = some ([], .string []) := rfl
  have closed : scanChar (.string (ps.reverse ++ [])) '"' =
      some ([.string (some s)], .between) := by
    simp [scanChar, joined]
  rw [writeString, List.cons_append, List.cons_append, List.append_assoc,
    scanSilent opened, List.singleton_append, scanned, scanEmits closed]
  rfl

/-! Numbers and words go on until another kind of character comes. -/

section
variable (kind : List Char → Scanner) (p : Char → Bool)
  (goes : ∀ read c, p c = true → scanChar (kind read) c = some ([], kind (c :: read)))
  (stops : ∀ read c, p c = false → scanChar (kind read) c = endThenStart (kind read) c)

include goes in
theorem scanRun {cs : List Char} (all : cs.all p = true) (read rest : List Char) :
    scan (kind read) (cs ++ rest) = scan (kind (cs.reverse ++ read)) rest := by
  induction cs generalizing read with
  | nil => rfl
  | cons c cs ih =>
    obtain ⟨first, others⟩ := List.all_cons ▸ all |> Bool.and_eq_true_iff.mp
    rw [List.cons_append, scanSilent (goes read c first), ih others, List.reverse_cons,
      List.append_assoc, List.singleton_append]

include stops in
theorem scanEnd {read rest : List Char} {t : Token} (ended : endToken? (kind read) = some [t])
    (after : ∀ c, rest.head? = some c → p c = false) :
    scan (kind read) rest = (scan .between rest).map (t :: ·) := by
  cases rest with
  | nil => simpa [scan, endToken?] using ended
  | cons c rest =>
    have start : scanChar .between c = startToken c := rfl
    simp only [scan, stops read c (after c rfl), endThenStart, ended, start, bind, Option.bind]
    cases startToken c with
    | none => rfl
    | some started =>
      simp only
      cases scan started.2 rest <;> rfl

include goes stops in
theorem scansRun {c : Char} {cs : List Char} {t : Token} (all : cs.all p = true)
    (starts : scanChar .between c = some ([], kind [c]))
    (ended : endToken? (kind (c :: cs).reverse) = some [t])
    (after : ∀ rest, Ends rest → ∀ d, rest.head? = some d → p d = false) :
    Scans (c :: cs) [t] := by
  intro rest ends
  rw [List.cons_append, scanSilent starts, scanRun kind p goes all, ← List.reverse_cons,
    scanEnd kind p stops ended (after rest ends)]
  rfl

end

theorem scansWord (c : Char) (cs : List Char) {t : Token} (letters : cs.all Char.isAlpha = true)
    (starts : scanChar .between c = some ([], .literal [c])) (word : literal? (c :: cs) = some t) :
    Scans (c :: cs) [t] := by
  refine scansRun .literal Char.isAlpha ?_ ?_ letters starts ?_ ?_
  · intro read c letter
    simp [scanChar, letter]
  · intro read c other
    simp [scanChar, other]
  · simp [endToken?, word]
  · exact fun rest ends d first => (ends d first).2

theorem digitNumberChar {c : Char} (h : c.isDigit = true) : isNumberChar c = true := by
  simp [isNumberChar, h]

theorem digitsChars {cs : List Char} (h : cs.all Char.isDigit = true) :
    cs.all isNumberChar = true :=
  List.all_eq_true.mpr fun c member => digitNumberChar (List.all_eq_true.mp h c member)

theorem exponentChars {cs : List Char} (h : isExponent cs = true) : cs.all isNumberChar = true := by
  unfold isExponent isDigits at h
  split at h
  all_goals
    have digits := digitsChars (Bool.and_eq_true_iff.mp h).2
    simpa [isNumberChar] using digits

theorem markedChars {c : Char} {cs : List Char}
    (h : ((c == 'e' || c == 'E') && isExponent cs) = true) : (c :: cs).all isNumberChar = true := by
  obtain ⟨mark, exponent⟩ := Bool.and_eq_true_iff.mp h
  have first : isNumberChar c = true := by
    rcases Bool.or_eq_true_iff.mp mark with small | large
    · rw [eq_of_beq small]
      rfl
    · rw [eq_of_beq large]
      rfl
  rw [List.all_cons, first, exponentChars exponent, Bool.and_self]

theorem leadingDigits (cs : List Char) : (cs.takeWhile Char.isDigit).all isNumberChar = true :=
  digitsChars List.all_takeWhile

theorem fractionChars {cs : List Char} (h : isFraction cs = true) : cs.all isNumberChar = true := by
  unfold isFraction at h
  split at h
  · rfl
  · rename_i rest
    obtain ⟨_, after⟩ := Bool.and_eq_true_iff.mp h
    have others : (rest.dropWhile Char.isDigit).all isNumberChar = true := by
      split at after
      · rename_i nothing
        rw [nothing]
        rfl
      · rename_i c exponent same
        rw [same]
        exact markedChars after
    rw [List.all_cons, ← rest.takeWhile_append_dropWhile (p := Char.isDigit), List.all_append,
      leadingDigits, others]
    rfl
  · exact markedChars h

theorem magnitudeChars {cs : List Char} (h : isMagnitude cs = true) :
    cs.all isNumberChar = true := by
  unfold isMagnitude at h
  split at h
  · rw [List.all_cons, fractionChars h]
    rfl
  · have others := fractionChars (Bool.and_eq_true_iff.mp h).2
    rw [← cs.takeWhile_append_dropWhile (p := Char.isDigit), List.all_append, leadingDigits, others]
    rfl

theorem magnitudeStarts {cs : List Char} (h : isMagnitude cs = true) :
    ∃ c rest, cs = c :: rest ∧ c.isDigit = true := by
  unfold isMagnitude at h
  split at h
  · exact ⟨_, _, rfl, rfl⟩
  · cases cs with
    | nil => cases h
    | cons c rest =>
      refine ⟨c, rest, rfl, ?_⟩
      cases digit : c.isDigit with
      | true => rfl
      | false => simp [digit] at h

theorem numberChars {cs : List Char} (h : isNumber cs = true) : cs.all isNumberChar = true := by
  unfold isNumber at h
  split at h
  · rw [List.all_cons, magnitudeChars h]
    rfl
  · exact magnitudeChars h

theorem numberStarts {cs : List Char} (h : isNumber cs = true) :
    ∃ c rest, cs = c :: rest ∧ (c.isDigit = true ∨ c = '-') := by
  unfold isNumber at h
  split at h
  · exact ⟨_, _, rfl, .inr rfl⟩
  · obtain ⟨c, rest, same, digit⟩ := magnitudeStarts h
    exact ⟨c, rest, same, .inl digit⟩

theorem digitStarts : ∀ n < 58, 48 ≤ n →
    scanChar .between (Char.ofNat n) = some ([], .number [Char.ofNat n]) := by decide

theorem numberStart {c : Char} (h : c.isDigit = true ∨ c = '-') :
    scanChar .between c = some ([], .number [c]) := by
  rcases h with digit | rfl
  · simp only [Char.isDigit, Bool.and_eq_true, decide_eq_true_eq] at digit
    have low : 48 ≤ c.toNat := digit.1
    have high : c.toNat ≤ 57 := digit.2
    have starts := digitStarts c.toNat (by omega) low
    rwa [Char.ofNat_toNat] at starts
  · rfl

theorem scansNumber {written : String} (h : isNumber written.toList = true) :
    Scans written.toList [.number written] := by
  have number := h
  obtain ⟨c, cs, same, first⟩ := numberStarts h
  have all := numberChars h
  rw [same, List.all_cons, Bool.and_eq_true] at all
  rw [same] at number ⊢
  have text : String.ofList (c :: cs) = written := by rw [← same, String.ofList_toList]
  refine scansRun .number isNumberChar ?_ ?_ all.2 (numberStart first) ?_ ?_
  · intro read c inside
    simp [scanChar, inside]
  · intro read c other
    simp [scanChar, other]
  · simp [endToken?, number, text]
  · exact fun rest ends d after => (ends d after).1

/-! Whole values. -/

theorem commaCuts : Cuts ',' .comma := ⟨rfl, rfl, rfl⟩

theorem colonCuts : Cuts ':' .colon := ⟨rfl, rfl, rfl⟩

theorem scansClosed {cs : List Char} {ts : List Token} {c : Char} {t : Token} (h : Scans cs ts)
    (cut : Cuts c t) (level : Nat) : Scans (cs ++ newline level ++ [c]) (ts ++ [t]) := by
  rw [List.append_assoc]
  exact scansThen h (fun _ _ => endsCons ⟨rfl, rfl⟩ _) (scansLine level (scansAfter cut scansNothing))

theorem scansArray {cs : List Char} {ts : List Token} (h : Scans cs ts) :
    Scans ('[' :: (cs ++ [']'])) (.openArray :: (ts ++ [.closeArray])) :=
  scansAfter ⟨rfl, rfl, rfl⟩ (scansCut h ⟨rfl, rfl, rfl⟩ scansNothing)

theorem scansObject {cs : List Char} {ts : List Token} (h : Scans cs ts) :
    Scans ('\x7b' :: (cs ++ ['\x7d'])) (.openObject :: (ts ++ [.closeObject])) :=
  scansAfter ⟨rfl, rfl, rfl⟩ (scansCut h ⟨rfl, rfl, rfl⟩ scansNothing)

theorem scansNull : Scans "null".toList [.null] :=
  scansWord 'n' ['u', 'l', 'l'] rfl rfl rfl

theorem scansBool (value : Bool) : Scans (writeScalar (.bool value)) [.bool value] := by
  cases value with
  | false => exact scansWord 'f' ['a', 'l', 's', 'e'] rfl rfl rfl
  | true => exact scansWord 't' ['r', 'u', 'e'] rfl rfl rfl

mutual
theorem scansWritten : ∀ j : Json, j.isProper = true → Scans j.write j.tokens
  | .null, _ => scansNull
  | .bool value, _ => scansBool value
  | .number _, proper => scansNumber proper
  | .string text, _ => scansString text
  | .array items, proper => scansArray (scansItems items proper)
  | .object members, proper => scansObject (scansMembers members proper)
theorem scansItems : ∀ js : List Json, properItems js = true → Scans (writeItems js) (itemTokens js)
  | [], _ => scansNothing
  | [j], proper => scansWritten j (Bool.and_eq_true_iff.mp proper).1
  | j :: k :: js, proper =>
    have ⟨first, others⟩ := Bool.and_eq_true_iff.mp proper
    scansCut (scansWritten j first) commaCuts (scansItems (k :: js) others)
theorem scansMembers : ∀ ms : List (String × Json), properMembers ms = true →
    Scans (writeMembers ms) (memberTokens ms)
  | [], _ => scansNothing
  | [(name, value)], proper =>
    scansCut (scansString name) colonCuts (scansWritten value (Bool.and_eq_true_iff.mp proper).1)
  | (name, value) :: m :: ms, proper =>
    have ⟨first, others⟩ := Bool.and_eq_true_iff.mp proper
    scansCut (scansCut (scansString name) colonCuts (scansWritten value first)) commaCuts
      (scansMembers (m :: ms) others)
end

mutual
theorem scansIndented : ∀ (level : Nat) (j : Json), j.isProper = true →
    Scans (j.writeIndented level) j.tokens
  | _, .null, _ => scansNull
  | _, .bool value, _ => scansBool value
  | _, .number _, proper => scansNumber proper
  | _, .string text, _ => scansString text
  | _, .array [], _ => scansArray scansNothing
  | level, .array (j :: js), proper =>
    scansAfter ⟨rfl, rfl, rfl⟩
      (scansClosed (scansIndentedItems (level + 1) (j :: js) proper) ⟨rfl, rfl, rfl⟩ level)
  | _, .object [], _ => scansObject scansNothing
  | level, .object (m :: ms), proper =>
    scansAfter ⟨rfl, rfl, rfl⟩
      (scansClosed (scansIndentedMembers (level + 1) (m :: ms) proper) ⟨rfl, rfl, rfl⟩ level)
theorem scansIndentedItems : ∀ (level : Nat) (js : List Json), properItems js = true →
    Scans (indentedItems level js) (itemTokens js)
  | _, [], _ => scansNothing
  | level, [j], proper =>
    scansLine level (scansIndented level j (Bool.and_eq_true_iff.mp proper).1)
  | level, j :: k :: js, proper =>
    have ⟨first, others⟩ := Bool.and_eq_true_iff.mp proper
    scansCut (scansLine level (scansIndented level j first)) commaCuts
      (scansIndentedItems level (k :: js) others)
theorem scansIndentedMembers : ∀ (level : Nat) (ms : List (String × Json)),
    properMembers ms = true → Scans (indentedMembers level ms) (memberTokens ms)
  | _, [], _ => scansNothing
  | level, [(name, value)], proper =>
    scansCut (scansLine level (scansString name)) colonCuts
      (scansSpaced [' '] rfl
        (scansIndented level value (Bool.and_eq_true_iff.mp proper).1))
  | level, (name, value) :: m :: ms, proper =>
    have ⟨first, others⟩ := Bool.and_eq_true_iff.mp proper
    scansCut (scansCut (scansLine level (scansString name)) colonCuts
        (scansSpaced [' '] rfl (scansIndented level value first)))
      commaCuts (scansIndentedMembers level (m :: ms) others)
end

end FacetSearch.Json
