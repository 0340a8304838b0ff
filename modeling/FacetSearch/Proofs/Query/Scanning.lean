import FacetSearch.Proofs.Query.Words

/-! What the tokens of a text are made of. A blank ends a word and leaves nothing, a bracket or
comma ends it and leaves its own token, so that the tokens of a text are those of the parts around
either. A forbidden character is found at the number of bytes that stand before it. -/
namespace FacetSearch.Token
open Text

def unread : List Char :=
  ['&', '|', '=']

def cuts : List (Char × Token) :=
  [('(', opens .round), (')', closes .round), ('[', opens .square), (']', closes .square),
    (',', comma)]

theorem unreadIff {c : Char} : isForbidden c = true ↔ c ∈ unread := by
  simp [isForbidden, unread, or_assoc]

theorem allowedIff {cs : List Char} :
    (∀ c ∈ cs, isForbidden c = false) ↔ ∀ c ∈ cs, c ∉ unread := by
  simp only [← unreadIff, Bool.not_eq_true]

theorem cutsKnown : ∀ p ∈ cuts, ofChar? p.1 = some p.2 := by decide

theorem cutPlain {c : Char} {t : Token} (cut : ofChar? c = some t) :
    isBlank c = false ∧ isForbidden c = false := by
  unfold ofChar? at cut
  split at cut
  case h_6 => cases cut
  all_goals decide

theorem forbiddenSolid {c : Char} (h : isForbidden c = true) : isBlank c = false := by
  have among := unreadIff.mp h
  simp only [unread, List.mem_cons, List.not_mem_nil, or_false] at among
  rcases among with rfl | rfl | rfl <;> decide

theorem blankAllowed {c : Char} (blank : isBlank c = true) : isForbidden c = false := by
  cases forbidden : isForbidden c with
  | false => rfl
  | true => exact absurd blank (by simp [forbiddenSolid forbidden])

theorem scanSpaced (pending left : List Char) {c : Char} (blank : isBlank c = true)
    (right : List Char) :
    scan pending (left ++ c :: right) = scan pending left ++ scan [] right :=
  scanAppend pending left fun pending => by simp [scan, blank]

theorem scanBlank {c : Char} (blank : isBlank c = true) (cs : List Char) :
    scan [] (c :: cs) = scan [] cs :=
  scanSpaced [] [] blank cs

theorem scanEnds (pending : List Char) {rest : List Char}
    (allowed : ∀ c ∈ rest, isForbidden c = false) (ends : ∀ c ∈ rest.head?, isWordChar c = false) :
    scan pending rest = finished pending ++ scan [] rest := by
  cases rest with
  | nil => simp [scan, finished]
  | cons c rest =>
    cases blank : isBlank c with
    | true => exact scanSpaced pending [] blank rest |>.trans (by rw [scanBlank blank]; rfl)
    | false =>
      cases cut : ofChar? c with
      | some t =>
        have here := scanCut pending [] cut blank rest
        have alone := scanCut [] [] cut blank rest
        exact here.trans (by rw [show scan [] (c :: rest) = t :: scan [] rest from alone]; rfl)
      | none =>
        have letter : isWordChar c = true := by
          simp [isWordChar, blank, cut, allowed c List.mem_cons_self]
        exact absurd (ends c rfl) (by simp [letter])

theorem firstSkips (offset : Nat) {front : List Char} (h : ∀ c ∈ front, isForbidden c = false)
    (cs : List Char) : firstForbidden? offset (front ++ cs) =
      firstForbidden? (offset + (String.ofList front).utf8ByteSize) cs := by
  induction front generalizing offset with
  | nil => simp
  | cons c front ih =>
    have allowed := h c List.mem_cons_self
    have later := ih (offset + c.utf8Size) fun d member => h d (List.mem_cons_of_mem c member)
    rw [List.cons_append, firstForbidden?, allowed, if_neg Bool.false_ne_true, later]
    simp [Nat.add_assoc]

/-- The tokens of some characters, or the first forbidden one; the first of them has the offset. -/
def reading (offset : Nat) (cs : List Char) : Except QueryError (List Token) :=
  match firstForbidden? offset cs with
  | some (c, n) => .error (.forbidden c n)
  | none => .ok (scan [] cs)

section
variable (offset : Nat) {c : Char} (cs : List Char)

theorem readingStops (forbidden : isForbidden c = true) :
    reading offset (c :: cs) = .error (.forbidden c offset) := by
  rw [reading, firstForbidden?, if_pos forbidden]

theorem readingBlank (blank : isBlank c = true) :
    reading offset (c :: cs) = reading (offset + c.utf8Size) cs := by
  rw [reading, firstForbidden?, blankAllowed blank, if_neg Bool.false_ne_true, scanBlank blank]
  rfl

theorem readingCut {t : Token} (cut : ofChar? c = some t) : reading offset (c :: cs) =
    (reading (offset + c.utf8Size) cs).map (t :: ·) := by
  obtain ⟨solid, allowed⟩ := cutPlain cut
  have scanned : scan [] (c :: cs) = t :: scan [] cs := scanCut [] [] cut solid cs
  rw [reading, firstForbidden?, allowed, if_neg Bool.false_ne_true, scanned, reading]
  cases firstForbidden? (offset + c.utf8Size) cs <;> rfl

theorem readingWord {word : List Char} (filled : word ≠ [])
    (letters : ∀ c ∈ word, isWordChar c = true) (ends : ∀ c ∈ cs.head?, isWordChar c = false) :
    reading offset (word ++ cs) =
      (reading (offset + (String.ofList word).utf8ByteSize) cs).map
        (.word (String.ofList word) :: ·) := by
  have allowed : ∀ c ∈ word, isForbidden c = false := fun c member =>
    (wordCharParts (letters c member)).2.2
  have whole : finished word.reverse = [.word (String.ofList word)] := by
    rw [← scanOneWord filled letters, scanWord [] letters, List.append_nil]
  rw [reading, firstSkips offset allowed, reading]
  cases later : firstForbidden? (offset + (String.ofList word).utf8ByteSize) cs with
  | some found => rfl
  | none =>
    have scanned := scanEnds word.reverse (firstForbiddenEqNone.mp later) ends
    rw [scanThen [] letters, List.append_nil, scanned, whole]
    rfl

end

theorem tokenizeReading (text : String) : tokenize text = reading 0 text.toList := rfl

end FacetSearch.Token
