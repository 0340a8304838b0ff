import FacetSearch.Proofs.Text.RoundTrip
import FacetSearch.Query.Token

/-! Words of query text. The scanner cuts at brackets and commas, so the tokens of a text are those
of its parts; a text of word characters is one word. Scalars are written in word characters and read
back from their word. -/
namespace FacetSearch
open Text

def reserved : List Char :=
  ['(', ')', '[', ']', ',', '&', '|', '=']

namespace Token

def isWordChar (c : Char) : Bool :=
  !isBlank c && (ofChar? c).isNone && !isForbidden c

theorem wordCharParts {c : Char} (h : isWordChar c = true) :
    isBlank c = false ∧ ofChar? c = none ∧ isForbidden c = false := by
  simpa [isWordChar, and_assoc] using h

theorem notReserved (c : Char) :
    c ∉ reserved ↔ ofChar? c = none ∧ isForbidden c = false := by
  unfold ofChar?
  split <;> simp_all [reserved, isForbidden, and_assoc]

theorem wordCharIff (c : Char) :
    isWordChar c = true ↔ isBlank c = false ∧ c ∉ reserved := by
  rw [notReserved]
  simp [isWordChar, and_assoc]

/-- What ends a word whatever its letters begins anew behind any text. -/
theorem scanAppend (pending left : List Char) {more : List Char} {tokens : List Token}
    (ends : ∀ pending, scan pending more = finished pending ++ tokens) :
    scan pending (left ++ more) = scan pending left ++ tokens := by
  induction left generalizing pending with
  | nil => exact ends pending
  | cons d left ih =>
    simp only [List.cons_append, scan, ih]
    split
    · rw [List.append_assoc]
    · split
      · rw [List.append_assoc, List.cons_append]
      · rfl

theorem scanCut (pending left : List Char) {c : Char} {t : Token} (cut : ofChar? c = some t)
    (solid : isBlank c = false) (right : List Char) :
    scan pending (left ++ c :: right) = scan pending left ++ t :: scan [] right :=
  scanAppend pending left fun pending => by simp [scan, cut, solid]

theorem scanThen (pending : List Char) {cs : List Char} (h : ∀ c ∈ cs, isWordChar c = true)
    (rest : List Char) : scan pending (cs ++ rest) = scan (cs.reverse ++ pending) rest := by
  induction cs generalizing pending with
  | nil => rfl
  | cons c cs ih =>
    obtain ⟨solid, plain, _⟩ := wordCharParts (h c List.mem_cons_self)
    have later := ih (c :: pending) fun d member => h d (List.mem_cons_of_mem c member)
    simp only [List.cons_append, scan, solid, plain, later, Bool.false_eq_true, if_false]
    simp

theorem scanWord (pending : List Char) {cs : List Char} (h : ∀ c ∈ cs, isWordChar c = true) :
    scan pending cs = finished (cs.reverse ++ pending) := by
  have through := scanThen pending h []
  rwa [List.append_nil] at through

theorem scanOneWord {cs : List Char} (filled : cs ≠ []) (h : ∀ c ∈ cs, isWordChar c = true) :
    scan [] cs = [word (String.ofList cs)] := by
  rw [scanWord [] h, List.append_nil]
  unfold finished
  split
  · rename_i empty
    exact absurd (List.reverse_eq_nil_iff.mp empty) filled
  · rw [List.reverse_reverse]

theorem finishedWords {pending : List Char} {w : String} (h : word w ∈ finished pending) :
    w.toList ≠ [] ∧ ∀ c ∈ w.toList, c ∈ pending := by
  unfold finished at h
  split at h
  · cases h
  · rename_i filled
    cases List.mem_singleton.mp h
    rw [String.toList_ofList]
    exact ⟨fun empty => filled (List.reverse_eq_nil_iff.mp empty), fun c => List.mem_reverse.mp⟩

theorem cutNotWord {c : Char} {w : String} : ofChar? c ≠ some (word w) := by
  unfold ofChar?
  split <;> simp

theorem scanWords {P : Char → Prop} {pending cs : List Char} {w : String}
    (started : ∀ c ∈ pending, P c)
    (letters : ∀ c ∈ cs, isBlank c = false → ofChar? c = none → P c)
    (h : word w ∈ scan pending cs) : w.toList ≠ [] ∧ ∀ c ∈ w.toList, P c := by
  have ended {before : List Char} (all : ∀ c ∈ before, P c) (last : word w ∈ finished before) :
      w.toList ≠ [] ∧ ∀ c ∈ w.toList, P c := by
    obtain ⟨filled, inside⟩ := finishedWords last
    exact ⟨filled, fun c member => all c (inside c member)⟩
  induction cs generalizing pending with
  | nil => exact ended started h
  | cons d cs ih =>
    have later : ∀ c ∈ cs, isBlank c = false → ofChar? c = none → P c :=
      fun c member => letters c (List.mem_cons_of_mem d member)
    have nothing : ∀ c ∈ ([] : List Char), P c := by simp
    unfold scan at h
    split at h
    · rcases List.mem_append.mp h with before | after
      · exact ended started before
      · exact ih nothing later after
    · rename_i solid
      split at h
      · rename_i t cut
        rcases List.mem_append.mp h with before | after
        · exact ended started before
        · rcases List.mem_cons.mp after with rfl | after
          · exact absurd cut cutNotWord
          · exact ih nothing later after
      · rename_i plain
        have longer : ∀ c ∈ d :: pending, P c := by
          intro c member
          rcases List.mem_cons.mp member with rfl | member
          · exact letters c (by simp) (by simpa using solid) plain
          · exact started c member
        exact ih longer later h

end Token

theorem tokenizeScan {text : String} {ts : List Token} (h : tokenize text = .ok ts) :
    ts = Token.scan [] text.toList ∧ ∀ c ∈ text.toList, Token.isForbidden c = false := by
  unfold tokenize at h
  split at h
  · cases h
  · rename_i allowed
    cases h
    exact ⟨rfl, Token.firstForbiddenEqNone.mp allowed⟩

theorem tokenizeAllowed {cs : List Char} (h : ∀ c ∈ cs, Token.isForbidden c = false) :
    tokenize (String.ofList cs) = .ok (Token.scan [] cs) := by
  rw [tokenize, String.toList_ofList, Token.firstForbiddenEqNone.mpr h]

theorem tokenizeWords {text : String} {ts : List Token} (h : tokenize text = .ok ts) {w : String}
    (member : .word w ∈ ts) : w.toList ≠ [] ∧ ∀ c ∈ w.toList, Token.isWordChar c = true := by
  obtain ⟨rfl, allowed⟩ := tokenizeScan h
  refine Token.scanWords (by simp) (fun c inside solid plain => ?_) member
  simp [Token.isWordChar, solid, plain, allowed c inside]

namespace Literal

theorem afterAbsent {start cs : List Char} {c : Char} (marked : c ∈ start) (absent : c ∉ cs) :
    after? start cs = none := by
  cases found : after? start cs with
  | none => rfl
  | some rest =>
    rw [afterEqSome.mp found] at absent
    exact absurd (List.mem_append_left rest marked) absent

theorem afterMark (start cs : List Char) : after? start (start ++ cs) = some cs :=
  afterEqSome.mpr rfl

theorem decodeEncoded (s : String) : decode (percentEncode s) = .ok (.string s) := by
  rw [decode, percentRoundTrip]

theorem integerTextPlain {cs : List Char} (h : isIntegerText cs = true) : '%' ∉ cs := by
  intro member
  rcases integerTextChars h member with sign | digit
  · cases sign
  · exact absurd digit (by decide)

theorem bareOfEncoded {s : String} (plain : needsMark s = false) :
    bareNumber? (percentEncode s) = none := by
  simp only [needsMark, Bool.or_eq_false_iff, beq_eq_false_iff_ne] at plain
  unfold bareNumber?
  rw [if_neg, if_neg]
  · intro number
    have same : percentEncode s = s.toList := encodeCharsPlain (integerTextPlain number)
    rw [same, plain.1] at number
    cases number
  · intro nan
    have same : percentEncode s = s.toList := encodeCharsPlain (by rw [← percentEncode, nan]; decide)
    rw [same] at nan
    exact plain.2 (String.toList_injective nan)

theorem colonNotEncoded (s : String) : ':' ∉ percentEncode s := by
  intro member
  rcases percentEncodeChars member with unreserved | percent
  · exact absurd unreserved (by decide)
  · exact absurd percent (by decide)

theorem readUnmarked {cs : List Char} (h : ':' ∉ cs) :
    readChars cs = match bareNumber? cs with
      | some v => .ok v
      | none => decode cs := by
  have marked : ':' ∈ stringMark ∧ ':' ∈ numberMark := by decide
  cases bare : bareNumber? cs <;>
    simp [readChars, afterAbsent marked.1 h, afterAbsent marked.2 h, bare]

theorem readWritten (s : String) : readChars (writeString s) = .ok (.string s) := by
  unfold writeString
  split
  · rw [readChars, afterMark]
    exact decodeEncoded s
  · rename_i plain
    rw [readUnmarked (colonNotEncoded s), bareOfEncoded (by simpa using plain)]
    exact decodeEncoded s

theorem readDecimal (n : Int64) : readChars (decimal n) = .ok (.integer n) := by
  have noColon : ':' ∉ decimal n := by
    intro member
    rcases decimalChars member with minus | digit
    · exact absurd minus (by decide)
    · exact absurd digit (by decide)
  have notNan : decimal n ≠ nanWord := by
    intro same
    have number := decimalIsInteger n
    rw [same] at number
    exact absurd number (by decide)
  have bare : bareNumber? (decimal n) = some (.integer n) := by
    rw [bareNumber?, if_neg notNan, if_pos (decimalIsInteger n), decimalRoundTrip]
    rfl
  rw [readUnmarked noColon, bare]

theorem readNan : readChars nanWord = .ok .notANumber := by
  rw [readUnmarked (by decide)]
  rfl

theorem readMark : readChars stringMark = .ok (.string "") := by
  have whole := afterMark stringMark []
  rw [List.append_nil] at whole
  rw [readChars, whole]
  exact decodeEncoded ""

theorem letterAscii {c : Char} (h : c.isAlpha = true) : c.toNat < 128 := by
  rcases Bool.or_eq_true_iff.mp h with upper | lower
  · have bound : c.toNat ≤ 90 := (of_decide_eq_true upper).2
    omega
  · have bound : c.toNat ≤ 122 := of_decide_eq_true (Bool.and_eq_true_iff.mp lower).2
    omega

theorem digitAscii {c : Char} (h : c.isDigit = true) : c.toNat < 128 := by
  have bound : c.toNat ≤ 57 := of_decide_eq_true (Bool.and_eq_true_iff.mp h).2
  omega

theorem unreservedAscii {c : Char} (h : isUnreserved c = true) : c.toNat < 128 := by
  simp only [isUnreserved, Char.isAlphanum, Bool.or_eq_true, beq_iff_eq] at h
  rcases h with ((((letter | digit) | rfl) | rfl) | rfl) | rfl
  · exact letterAscii letter
  · exact digitAscii digit
  all_goals decide

theorem asciiWordChar : ∀ n < 128, isUnreserved (Char.ofNat n) = true →
    Token.isWordChar (Char.ofNat n) = true := by decide

theorem unreservedWordChar {c : Char} (h : isUnreserved c = true) : Token.isWordChar c = true := by
  have checked := asciiWordChar c.toNat (unreservedAscii h)
  rw [Char.ofNat_toNat] at checked
  exact checked h

theorem encodedWordChars (s : String) : ∀ c ∈ percentEncode s, Token.isWordChar c = true := by
  intro c member
  rcases percentEncodeChars member with unreserved | rfl
  · exact unreservedWordChar unreserved
  · decide

theorem markWordChars : ∀ c ∈ stringMark, Token.isWordChar c = true :=
  List.all_eq_true.mp rfl

theorem writtenWordChars (s : String) : ∀ c ∈ writeString s, Token.isWordChar c = true := by
  intro c member
  unfold writeString at member
  split at member
  · rcases List.mem_append.mp member with mark | encoded
    · exact markWordChars c mark
    · exact encodedWordChars s c encoded
  · exact encodedWordChars s c member

theorem decimalWordChars (n : Int64) : ∀ c ∈ decimal n, Token.isWordChar c = true := by
  intro c member
  rcases decimalChars member with rfl | digit
  · decide
  · exact unreservedWordChar (by simp [isUnreserved, Char.isAlphanum, digit])

theorem nanWordChars : ∀ c ∈ nanWord, Token.isWordChar c = true :=
  List.all_eq_true.mp rfl

theorem writtenEmpty {s : String} (h : writeString s = []) : s = "" := by
  have read := readWritten s
  rw [h] at read
  have empty := readWritten ""
  cases read.symm.trans (show readChars [] = .ok (.string "") from empty)
  rfl

end Literal
end FacetSearch
