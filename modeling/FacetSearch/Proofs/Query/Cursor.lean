import FacetSearch.Proofs.Query.Scanning

/-! Reading tokens by byte offsets. A text can only be cut between characters; a cut inside of one
gives nothing, and nothing is read then. Main statement: from the start on no such cut is tried, and
what is read is the tokens of the text, or its first forbidden character where it was met. -/
namespace FacetSearch

namespace Cursor
open Token

section
variable (text : String)

def upTo? (offset : Nat) : Option String :=
  if between : String.Pos.Raw.IsValid text ⟨offset⟩ then
    some (text.sliceTo (text.pos ⟨offset⟩ between)).copy
  else none

def rest? (offset : Nat) : Option String :=
  if between : String.Pos.Raw.IsValid text ⟨offset⟩ then
    some (text.sliceFrom (text.pos ⟨offset⟩ between)).copy
  else none

def slice? (start stop : Nat) : Option String := do
  rest? (← upTo? text stop) start

def head? (offset : Nat) : Option (Option Char) :=
  (rest? text offset).map fun back => back.toList.head?

end

theorem splitsAt {text front back : String} {offset : Nat} (cut : text = front ++ back)
    (reached : offset = front.utf8ByteSize) (between : String.Pos.Raw.IsValid text ⟨offset⟩) :
    (text.pos ⟨offset⟩ between).Splits front back :=
  ⟨cut, by rw [String.offset_pos, reached]; rfl⟩

theorem between (front back : String) :
    String.Pos.Raw.IsValid (front ++ back) ⟨front.utf8ByteSize⟩ :=
  String.Pos.Raw.isValid_iff_exists_append.mpr ⟨front, back, rfl, rfl⟩

theorem upToCut (front back : String) : upTo? (front ++ back) front.utf8ByteSize = some front := by
  rw [upTo?, dif_pos (between front back), (splitsAt rfl rfl (between front back)).copy_sliceTo_eq]

theorem restCut (front back : String) : rest? (front ++ back) front.utf8ByteSize = some back := by
  rw [rest?, dif_pos (between front back), (splitsAt rfl rfl (between front back)).copy_sliceFrom_eq]

theorem sliceCut (front word back : String) :
    slice? (front ++ word ++ back) front.utf8ByteSize (front ++ word).utf8ByteSize = some word := by
  simp only [slice?, upToCut, restCut, bind, Option.bind]

theorem headCut (front : String) (cs : List Char) :
    head? (front ++ String.ofList cs) front.utf8ByteSize = some cs.head? := by
  rw [head?, restCut, Option.map_some, String.toList_ofList]

theorem headWithin {text : String} {offset : Nat} {c : Char} (h : head? text offset = some (some c)) :
    offset + c.utf8Size ≤ text.utf8ByteSize := by
  obtain ⟨back, here, first⟩ := Option.map_eq_some_iff.mp h
  obtain ⟨cs, filled⟩ := List.head?_eq_some_iff.mp first
  unfold rest? at here
  split at here
  · rename_i valid
    obtain ⟨front, back', rfl, reached⟩ := String.Pos.Raw.isValid_iff_exists_append.mp valid
    have reached : offset = front.utf8ByteSize := congrArg String.Pos.Raw.byteIdx reached
    rw [(splitsAt rfl reached valid).copy_sliceFrom_eq] at here
    cases here
    have size : back.utf8ByteSize = c.utf8Size + (String.ofList cs).utf8ByteSize := by
      rw [← String.ofList_toList (s := back), filled]
      simp
    rw [String.utf8ByteSize_append]
    omega
  · cases here

theorem closer {text : String} {offset start behind : Nat} {c : Char} (later : offset ≤ start)
    (h : head? text start = some (some c)) (passed : start + c.utf8Size ≤ behind) :
    text.utf8ByteSize - behind < text.utf8ByteSize - offset := by
  have inside := headWithin h
  have positive := c.utf8Size_pos
  omega

/-- The offset of the first character from here on that fails the test. -/
def advance (p : Char → Bool) (text : String) (offset : Nat) : Option Nat :=
  match _ : head? text offset with
  | none => none
  | some none => some offset
  | some (some c) => if p c then advance p text (offset + c.utf8Size) else some offset
termination_by text.utf8ByteSize - offset
decreasing_by exact closer (Nat.le_refl _) ‹_› (Nat.le_refl _)

inductive Met where
  | nothing
  | forbidden (char : Char) (offset : Nat)
  | token (token : Token) (behind : Nat)

def next? (text : String) (offset : Nat) : Option Met := do
  let start ← advance Text.isBlank text offset
  match ← head? text start with
  | none => some .nothing
  | some c =>
    if isForbidden c then some (.forbidden c start)
    else match ofChar? c with
      | some t => some (.token t (start + c.utf8Size))
      | none => do
        let stop ← advance isWordChar text start
        some (.token (.word (← slice? text start stop)) stop)

section
variable {p : Char → Bool} {text : String}

theorem advanceOnce {offset : Nat} {c : Char} (h : head? text offset = some (some c)) :
    advance p text offset =
      if p c then advance p text (offset + c.utf8Size) else some offset := by
  rw [advance]
  split
  · rename_i none
    cases none.symm.trans h
  · rename_i none
    cases none.symm.trans h
  · rename_i here
    cases here.symm.trans h
    rfl

theorem advanceEnd {offset : Nat} (h : head? text offset = some none) :
    advance p text offset = some offset := by
  rw [advance]
  split
  · rename_i none
    cases none.symm.trans h
  · rfl
  · rename_i here
    cases here.symm.trans h

theorem advanceStops (offset : Nat) {stop : Nat} (h : advance p text offset = some stop) :
    offset ≤ stop ∧ ∀ c, head? text stop = some (some c) → p c = false := by
  induction offset using advance.induct p text with
  | case1 offset none =>
    rw [advance] at h
    split at h <;> simp_all
  | case2 offset ended =>
    cases (advanceEnd ended).symm.trans h
    exact ⟨Nat.le_refl _, fun c here => by cases here.symm.trans ended⟩
  | case3 offset c here passes ih =>
    rw [advanceOnce here, if_pos passes] at h
    obtain ⟨later, fails⟩ := ih h
    exact ⟨by omega, fails⟩
  | case4 offset c here fails =>
    rw [advanceOnce here, if_neg fails] at h
    cases h
    refine ⟨Nat.le_refl _, fun c' here' => ?_⟩
    cases here.symm.trans here'
    simpa using fails

end

theorem nextCloser {text : String} {offset behind : Nat} {t : Token}
    (h : next? text offset = some (.token t behind)) :
    text.utf8ByteSize - behind < text.utf8ByteSize - offset := by
  simp only [next?, bind, Option.bind_eq_some_iff] at h
  obtain ⟨start, skipped, first, here, met⟩ := h
  obtain ⟨later, solid⟩ := advanceStops offset skipped
  split at met
  · cases met
  · rename_i c
    split at met
    · cases met
    · rename_i allowed
      split at met
      · cases met
        exact closer later here (Nat.le_refl _)
      · rename_i plain
        simp only [Option.bind_eq_some_iff] at met
        obtain ⟨stop, ran, word, _, found⟩ := met
        cases found
        have letter : isWordChar c = true := by
          simp [isWordChar, solid c here, plain, allowed]
        rw [advanceOnce here, if_pos letter] at ran
        exact closer later here (advanceStops _ ran).1

def tokens? (text : String) (offset : Nat) : Option (Except QueryError (List Token)) :=
  match _ : next? text offset with
  | none => none
  | some .nothing => some (.ok [])
  | some (.forbidden c n) => some (.error (.forbidden c n))
  | some (.token t behind) => (tokens? text behind).map fun later => later.map (t :: ·)
termination_by text.utf8ByteSize - offset
decreasing_by exact nextCloser ‹_›

theorem tokensOnce (text : String) (offset : Nat) :
    tokens? text offset = (next? text offset).bind fun met => match met with
      | .nothing => some (.ok [])
      | .forbidden c n => some (.error (.forbidden c n))
      | .token t behind => (tokens? text behind).map fun later => later.map (t :: ·) := by
  rw [tokens?]
  split
  all_goals
    rename_i here
    rw [here]
    rfl

theorem frontChar (front : String) (c : Char) (cs : List Char) :
    front ++ String.ofList (c :: cs) = front ++ String.singleton c ++ String.ofList cs := by
  simp [← String.toList_inj]

theorem frontWord (front : String) (word cs : List Char) :
    front ++ String.ofList (word ++ cs) = front ++ String.ofList word ++ String.ofList cs := by
  simp [← String.toList_inj]

theorem behindChar (front : String) (c : Char) :
    (front ++ String.singleton c).utf8ByteSize = front.utf8ByteSize + c.utf8Size := by
  simp

theorem advanceCut (p : Char → Bool) (front : String) (cs : List Char) :
    advance p (front ++ String.ofList cs) front.utf8ByteSize =
      some (front ++ String.ofList (cs.takeWhile p)).utf8ByteSize := by
  induction cs generalizing front with
  | nil => exact (advanceEnd (headCut front [])).trans (by simp)
  | cons c cs ih =>
    rw [advanceOnce (headCut front (c :: cs)), List.takeWhile_cons]
    cases passes : p c with
    | false => simp
    | true =>
      rw [if_pos rfl, if_pos rfl, frontChar, frontChar, ← ih, behindChar]

theorem nextEnd (front : String) :
    next? (front ++ String.ofList []) front.utf8ByteSize = some .nothing := by
  have here := headCut front []
  simp only [next?, advanceEnd here, here, bind, Option.bind_some, List.head?_nil]

section
variable (front : String) {c : Char} (cs : List Char)

theorem nextBlank (blank : Text.isBlank c = true) :
    next? (front ++ String.ofList (c :: cs)) front.utf8ByteSize =
      next? (front ++ String.ofList (c :: cs)) (front ++ String.singleton c).utf8ByteSize := by
  have skipped := advanceOnce (p := Text.isBlank) (headCut front (c :: cs))
  rw [if_pos blank, ← behindChar] at skipped
  rw [next?, next?, skipped]

variable (solid : Text.isBlank c = false)
include solid

theorem nextSolid : next? (front ++ String.ofList (c :: cs)) front.utf8ByteSize =
    if isForbidden c then some (.forbidden c front.utf8ByteSize)
    else match ofChar? c with
      | some t => some (.token t (front.utf8ByteSize + c.utf8Size))
      | none =>
        let word := (c :: cs).takeWhile isWordChar
        some (.token (.word (String.ofList word)) (front ++ String.ofList word).utf8ByteSize) := by
  have here := headCut front (c :: cs)
  have stays := advanceOnce (p := Text.isBlank) here
  rw [solid, if_neg Bool.false_ne_true] at stays
  have whole : front ++ String.ofList (c :: cs) =
      front ++ String.ofList ((c :: cs).takeWhile isWordChar) ++
        String.ofList ((c :: cs).dropWhile isWordChar) := by
    rw [← frontWord, List.takeWhile_append_dropWhile]
  have word := sliceCut front (String.ofList ((c :: cs).takeWhile isWordChar))
    (String.ofList ((c :: cs).dropWhile isWordChar))
  rw [← whole] at word
  simp only [next?, stays, here, bind, Option.bind_some, List.head?_cons, advanceCut, word]

end

theorem leadingWord {c : Char} (cs : List Char) (letter : isWordChar c = true) :
    ∃ word rest, (c :: cs).takeWhile isWordChar = word ∧ c :: cs = word ++ rest ∧ word ≠ [] ∧
      (∀ d ∈ word, isWordChar d = true) ∧ (∀ d ∈ rest.head?, isWordChar d = false) ∧
      rest.length ≤ cs.length := by
  refine ⟨c :: cs.takeWhile isWordChar, cs.dropWhile isWordChar, List.takeWhile_cons_of_pos letter,
    by simp, List.cons_ne_nil _ _, ?_, ?_, ?_⟩
  · intro d member
    rcases List.mem_cons.mp member with rfl | later
    · exact letter
    · exact List.all_eq_true.mp List.all_takeWhile d later
  · exact fun d first => Text.headDropped first
  · exact (List.dropWhile_suffix isWordChar).length_le

theorem tokensCut (front : String) : ∀ cs : List Char,
    tokens? (front ++ String.ofList cs) front.utf8ByteSize = some (reading front.utf8ByteSize cs)
  | [] => by
    rw [tokensOnce, nextEnd]
    rfl
  | c :: cs => by
    cases blank : Text.isBlank c with
    | true =>
      have later := tokensCut (front ++ String.singleton c) cs
      rw [tokensOnce, nextBlank front cs blank, ← tokensOnce, frontChar, later,
        readingBlank _ cs blank, behindChar]
    | false =>
      rw [tokensOnce, nextSolid front cs blank]
      cases forbidden : isForbidden c with
      | true =>
        rw [readingStops _ cs forbidden]
        rfl
      | false =>
        cases cut : ofChar? c with
        | some t =>
          have later := tokensCut (front ++ String.singleton c) cs
          rw [readingCut _ cs cut, ← behindChar, frontChar]
          simp only [Bool.false_eq_true, if_false, Option.bind_some, later, Option.map_some]
        | none =>
          have letter : isWordChar c = true := by simp [isWordChar, blank, cut, forbidden]
          obtain ⟨word, rest, taken, split, filled, letters, ends, shorter⟩ := leadingWord cs letter
          have later := tokensCut (front ++ String.ofList word) rest
          have behind : (front ++ String.ofList word).utf8ByteSize =
              front.utf8ByteSize + (String.ofList word).utf8ByteSize := String.utf8ByteSize_append
          simp only [Bool.false_eq_true, if_false, Option.bind_some, taken]
          rw [split, readingWord _ rest filled letters ends, frontWord, later, behind]
          rfl
termination_by cs => cs.length

theorem tokensRead (text : String) : tokens? text 0 = some (tokenize text) := by
  have read := tokensCut "" text.toList
  rw [String.ofList_toList, String.empty_append] at read
  rw [tokenizeReading]
  exact read

end Cursor

namespace Token

theorem tokenizeOk {text : String} (allowed : ∀ c ∈ text.toList, c ∉ unread) :
    tokenize text = .ok (scan [] text.toList) := by
  rw [tokenize, firstForbiddenEqNone.mpr (allowedIff.mpr allowed)]

theorem tokenizeStops {front back : String} {c : Char} (found : c ∈ unread)
    (allowed : ∀ d ∈ front.toList, d ∉ unread) :
    tokenize (front ++ String.singleton c ++ back) = .error (.forbidden c front.utf8ByteSize) := by
  have chars : (front ++ String.singleton c ++ back).toList = front.toList ++ c :: back.toList := by
    simp
  have first := firstSkips 0 (allowedIff.mpr allowed) (c :: back.toList)
  rw [String.ofList_toList, Nat.zero_add, firstForbidden?, if_pos (unreadIff.mpr found)] at first
  rw [tokenize, chars, first]

theorem tokenizeFails (text : String) :
    (∃ e, tokenize text = .error e) ↔ ∃ c ∈ text.toList, c ∈ unread := by
  constructor
  · rintro ⟨e, failed⟩
    refine Classical.byContradiction fun none => ?_
    rw [tokenizeOk fun c member found => none ⟨c, member, found⟩] at failed
    cases failed
  · rintro ⟨c, member, found⟩
    cases read : tokenize text with
    | error e => exact ⟨e, rfl⟩
    | ok ts =>
      exact absurd found (allowedIff.mp (tokenizeScan read).2 c member)

theorem tokenizeParts {a b : String} (allowed : ∀ c ∈ (a ++ b).toList, c ∉ unread) {c : Char}
    (read : c ∉ unread) : tokenize (a ++ String.singleton c ++ b) =
      .ok (scan [] (a.toList ++ c :: b.toList)) := by
  have chars : (a ++ String.singleton c ++ b).toList = a.toList ++ c :: b.toList := by simp
  rw [tokenizeOk, chars]
  intro d member
  rw [chars, List.mem_append, List.mem_cons] at member
  rw [String.toList_append] at allowed
  rcases member with left | rfl | right
  · exact allowed d (List.mem_append_left _ left)
  · exact read
  · exact allowed d (List.mem_append_right _ right)

end Token

theorem tokenizesExactly :
    (∀ text : String, (∃ e, tokenize text = .error e) ↔ ∃ c ∈ text.toList, c ∈ Token.unread) ∧
    (∀ (front back : String) (c : Char), c ∈ Token.unread →
      (∀ d ∈ front.toList, d ∉ Token.unread) →
      tokenize (front ++ String.singleton c ++ back) =
        .error (.forbidden c front.utf8ByteSize)) ∧
    (∀ a b : String, (∀ c ∈ (a ++ b).toList, c ∉ Token.unread) → ∃ ts us,
      tokenize a = .ok ts ∧ tokenize b = .ok us ∧
      (∀ w, Text.isBlank w = true → tokenize (a ++ String.singleton w ++ b) = .ok (ts ++ us)) ∧
      ∀ p ∈ Token.cuts, tokenize (a ++ String.singleton p.1 ++ b) = .ok (ts ++ p.2 :: us)) ∧
    tokenize "" = .ok [] ∧
    (∀ w : String, w ≠ "" → (∀ c ∈ w.toList, Text.isBlank c = false ∧ c ∉ reserved) →
      tokenize w = .ok [.word w]) ∧
    ∀ text : String, Cursor.tokens? text 0 = some (tokenize text) := by
  refine ⟨Token.tokenizeFails, fun front back c => Token.tokenizeStops, fun a b allowed => ?_, rfl,
    fun w filled letters => ?_, Cursor.tokensRead⟩
  · rw [String.toList_append] at allowed
    obtain ⟨left, right⟩ := List.forall_mem_append.mp allowed
    rw [← String.toList_append] at allowed
    refine ⟨_, _, Token.tokenizeOk left, Token.tokenizeOk right, fun w blank => ?_, fun p cut => ?_⟩
    · have read : w ∉ Token.unread := by simp [← Token.unreadIff, Token.blankAllowed blank]
      rw [Token.tokenizeParts allowed read, Token.scanSpaced [] _ blank]
    · have known := Token.cutsKnown p cut
      obtain ⟨solid, passes⟩ := Token.cutPlain known
      have read : p.1 ∉ Token.unread := by simp [← Token.unreadIff, passes]
      rw [Token.tokenizeParts allowed read, Token.scanCut [] _ known solid]
  · have words : ∀ c ∈ w.toList, Token.isWordChar c = true := fun c member =>
      (Token.wordCharIff c).mpr (letters c member)
    have one := Token.scanOneWord (by simpa using filled) words
    rw [String.ofList_toList] at one
    rw [Token.tokenizeOk fun c member => ?_, one]
    simp [← Token.unreadIff, (Token.wordCharParts (words c member)).2.2]

end FacetSearch
