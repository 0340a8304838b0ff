import FacetSearch.Proofs.Criterion.Matching
import FacetSearch.Proofs.Query.RoundTrip
import FacetSearch.Proofs.Text.Spelling

/-! Words that stand bare in a query. They are typed first, as an integer where they fit, and become
text again when a criterion is restored, so an integer comes back in its shortest spelling. Main
statement: which ids and which words to search for are restored as they were written. -/
namespace FacetSearch
open Text Grammar

/-- Whether a text is read as it stands and is one segment of a field path. -/
def isPlainName (name : String) : Bool :=
  name.toList.all fun c => !isBlank c && !(reserved ++ ['.', ':', '%']).contains c

theorem plainNameChars {name : String} (h : isPlainName name = true) {c : Char}
    (member : c ∈ name.toList) : Token.isWordChar c = true ∧ c ∉ ['.', ':', '%'] := by
  have letter := List.all_eq_true.mp h c member
  simp only [Bool.and_eq_true, Bool.not_eq_true', List.contains_eq_mem, decide_eq_false_iff_not,
    List.mem_append, not_or] at letter
  exact ⟨(Token.wordCharIff c).mpr ⟨letter.1, letter.2.1⟩, letter.2.2⟩

namespace Literal

theorem writtenBytesPlain {cs : List Char} (plain : '%' ∉ cs) :
    writtenBytes cs = cs.flatMap String.utf8EncodeChar := by
  induction cs with
  | nil => rfl
  | cons c cs ih =>
    simp only [List.mem_cons, not_or] at plain
    rw [writtenBytesOther (Ne.symm plain.1), ih plain.2, List.flatMap_cons]

theorem decodePlain {cs : List Char} (plain : '%' ∉ cs) :
    decode cs = .ok (.string (String.ofList cs)) := by
  have bytes : writtenBytes cs = writtenBytes (percentEncode (String.ofList cs)) := by
    rw [writtenBytesPlain plain, percentEncode, writtenBytesChars, String.toList_ofList]
  have encoded : percentDecode? cs = percentDecode? (percentEncode (String.ofList cs)) := by
    simp only [percentDecode?, bytes]
  rw [decode, encoded, percentRoundTrip]

theorem readPlain {cs : List Char} (percent : '%' ∉ cs) (colon : ':' ∉ cs)
    (bare : bareNumber? cs = none) : readChars cs = .ok (.string (String.ofList cs)) := by
  rw [readUnmarked colon, bare]
  exact decodePlain percent

theorem dottedRead {cs : List Char} (dot : '.' ∈ cs) (percent : '%' ∉ cs) (colon : ':' ∉ cs) :
    readChars cs = .ok (.string (String.ofList cs)) := by
  refine readPlain percent colon ?_
  rw [bareNumber?, if_neg, if_neg]
  · intro number
    rcases integerTextChars number dot with minus | digit
    · cases minus
    · cases digit
  · rintro rfl
    exact absurd dot (by decide)

theorem bareOther {cs : List Char} (nan : cs ≠ nanWord)
    (other : ¬ ∃ n, isIntegerText cs = true ∧ integer? cs = some n) : bareNumber? cs = none := by
  rw [bareNumber?, if_neg nan]
  split
  · rename_i number
    cases value : integer? cs with
    | none => rfl
    | some n => exact absurd ⟨n, number, value⟩ other
  · rfl

theorem bareRead {word : List Char} (letters : ∀ c ∈ word, isUnreserved c = true) :
    ∃ v id, readChars word = .ok v ∧ v.text? = some id ∧ Spells word id.toList := by
  have percent : '%' ∉ word := fun member => absurd (letters _ member) (by decide)
  have colon : ':' ∉ word := fun member => absurd (letters _ member) (by decide)
  by_cases fits : ∃ n, isIntegerText word = true ∧ integer? word = some n
  · obtain ⟨n, number, value⟩ := fits
    have nan : word ≠ nanWord := by
      rintro rfl
      exact absurd number (by decide)
    have bare : bareNumber? word = some (.integer n) := by
      rw [bareNumber?, if_neg nan, if_pos number, value]
      rfl
    refine ⟨.integer n, String.ofList (decimal n), by rw [readUnmarked colon, bare], rfl, ?_⟩
    rw [String.toList_ofList]
    exact integerSpells number value
  · by_cases nan : word = nanWord
    · subst nan
      exact ⟨.notANumber, "NaN", readNan, rfl, otherSpells fits⟩
    · refine ⟨.string (String.ofList word), String.ofList word,
        readPlain percent colon (bareOther nan fits), rfl, ?_⟩
      rw [String.toList_ofList]
      exact otherSpells fits

end Literal

theorem allowedClosed {cs : List Char} (h : Allowed cs) : Allowed (cs ++ [')']) :=
  allowedAppend h (allowedCons (by decide) (by simp [Allowed]))

theorem comparisonRead {op : Operator} (known : op ∈ Operator.known) {first second : List Char}
    {v w : Value} (allowed : Allowed first) (allowed' : Allowed second)
    (item : Arg (Token.scan [] first) v) (item' : Arg (Token.scan [] second) w) :
    Query.parse (String.ofList (op.name.toList ++ '(' :: (first ++ ',' :: second) ++ [')'])) =
      .ok ⟨op, [v, w]⟩ := by
  have named := knownNamed op known
  have scanned : Token.scan [] (op.name.toList ++ '(' :: (first ++ ',' :: second) ++ [')']) =
      .word op.name :: .opens .round ::
        (Token.scan [] first ++ .comma :: Token.scan [] second ++ [.closes .round]) := by
    rw [scanCall named, Token.scanCut [] first (show Token.ofChar? ',' = _ from rfl) (by decide)]
  have letters : Allowed (op.name.toList ++ '(' :: (first ++ ',' :: second) ++ [')']) := by
    have name := allowedWord ((wellNamedIff op).mp named).2
    have comma : Token.isForbidden ',' = false := rfl
    have opening : Token.isForbidden '(' = false := rfl
    have inside := allowedAppend allowed (allowedCons comma allowed')
    exact allowedClosed (allowedAppend name (allowedCons opening inside))
  simp only [Query.parse, tokenizeAllowed letters, bind, Except.bind, scanned]
  exact callRead (.intro (.some (.more item (.one item')) (by simp)))

theorem restoredAlone {f : Facet} {q : Query} (flat : q.isConnective = false)
    (own : f.accepts q = true) :
    Criterion.ofNodes f q.leaves = (Criterion.fresh f).restore q := by
  rw [Query.leavesOfComparison flat, Criterion.ofNodes, Facet.find?, List.find?_singleton,
    if_pos own]

section
variable {taxonomy : String} {v : Vocabulary} (plain : isPlainName taxonomy = true)
  (plain' : isPlainName v.name = true)
include plain plain'

theorem pathChars : ∀ c ∈ (fieldPath taxonomy v).toList,
    Token.isWordChar c = true ∧ c ∉ [':', '%'] := by
  have apart {c : Char} (h : Token.isWordChar c = true ∧ c ∉ ['.', ':', '%']) :
      Token.isWordChar c = true ∧ c ∉ [':', '%'] :=
    h.imp_right List.not_mem_of_not_mem_cons
  intro c member
  have whole : c ∈ taxonomy.toList ∨ c = '.' ∨ c ∈ v.name.toList := by
    simpa [fieldPath, String.toList_append, or_assoc] using member
  rcases whole with before | rfl | after
  · exact apart (plainNameChars plain before)
  · decide
  · exact apart (plainNameChars plain' after)

theorem pathArg : Arg (Token.scan [] (fieldPath taxonomy v).toList)
    (.string (fieldPath taxonomy v)) := by
  have chars := pathChars plain plain'
  have dot : '.' ∈ (fieldPath taxonomy v).toList := by
    simp [fieldPath, String.toList_append]
  have reads := Literal.dottedRead dot (fun member => (chars _ member).2 (by decide))
    (fun member => (chars _ member).2 (by decide))
  rw [String.ofList_toList] at reads
  exact literalArg (List.ne_nil_of_mem dot) (fun c member => (chars c member).1) reads

theorem pathAllowed : Allowed (fieldPath taxonomy v).toList :=
  allowedWord fun c member => (pathChars plain plain' c member).1

theorem pathNamed : Facet.pathName? (some (.string (fieldPath taxonomy v))) = some v.name :=
  pathNameOfField (fun dot => (plainNameChars plain dot).2 (by decide))
    (fun dot => (plainNameChars plain' dot).2 (by decide))

section
variable {word : List Char} {w : Value} (nonempty : word ≠ [])
  (letters : ∀ c ∈ word, Token.isWordChar c = true) (reads : Literal.readChars word = .ok w)
include nonempty letters reads

theorem listRead : Query.parse (String.ofList (Operator.oneOf.name.toList ++ '(' ::
      ((fieldPath taxonomy v).toList ++ ',' :: ('(' :: word ++ [')'])) ++ [')'])) =
    .ok ⟨.oneOf, [.string (fieldPath taxonomy v), .list [w]]⟩ := by
  have list : Arg (Token.scan [] ('(' :: word ++ [')'])) (.list [w]) := by
    rw [scanList]
    refine .list (.some (.one (literalArg nonempty letters reads)) ?_)
    rw [Token.scanOneWord nonempty letters]
    simp
  have opening : Token.isForbidden '(' = false := rfl
  have known : Operator.oneOf ∈ Operator.known := by decide
  exact comparisonRead known (pathAllowed plain plain')
    (allowedClosed (allowedCons opening (allowedWord letters))) (pathArg plain plain') list

theorem wordRead : Query.parse (String.ofList (Operator.matching.name.toList ++ '(' ::
      (word ++ ',' :: (fieldPath taxonomy v).toList) ++ [')'])) =
    .ok ⟨.matching, [w, .string (fieldPath taxonomy v)]⟩ := by
  have known : Operator.matching ∈ Operator.known := by decide
  exact comparisonRead known (allowedWord letters) (pathAllowed plain plain')
    (literalArg nonempty letters reads) (pathArg plain plain')

end

section
variable {w : Value} {id : String} (shown : w.text? = some id)
include shown

theorem termsOfBare (terms : v.kind? = some .terms) :
    Criterion.ofNodes ⟨v, .terms, terms⟩
      (Query.mk .oneOf [.string (fieldPath taxonomy v), .list [w]]).leaves =
      ⟨⟨v, .terms, terms⟩, .oneOf, .terms [id]⟩ := by
  have listed : (Facet.mk v .terms terms).kind ≠ .text := Kind.noConfusion
  have own := (Facet.acceptsField listed
    (Query.mk .oneOf [.string (fieldPath taxonomy v), .list [w]])).mpr (pathNamed plain plain')
  have ids : argTexts (some (.list [w])) = [id] := by
    simp only [argTexts, List.filterMap_cons, shown, List.filterMap_nil]
  rw [restoredAlone rfl own, ← ids]
  rfl

theorem wordsOfBare (text : v.kind? = some .text) :
    Criterion.ofNodes ⟨v, .text, text⟩
      (Query.mk .matching [w, .string (fieldPath taxonomy v)]).leaves =
      ⟨⟨v, .text, text⟩, .matching, .words id⟩ := by
  have flat : (Query.mk .matching [w, .string (fieldPath taxonomy v)]).isConnective = false := by
    cases w with
    | node op args => cases shown
    | _ => rfl
  have searched : (Facet.mk v .text text).kind = .text := rfl
  have own := (Facet.acceptsWords searched
    (Query.mk .matching [w, .string (fieldPath taxonomy v)])).mpr ⟨rfl, pathNamed plain plain'⟩
  have words : argText (some w) = id := by
    rw [argText, Option.bind_some, shown, Option.getD_some]
  rw [restoredAlone flat own, ← words]
  rfl

end
end

/-- An integer that fits in 64 bits is restored in its shortest spelling, every other word as it
stands. -/
theorem bareWordsRestored (taxonomy : String) (v : Vocabulary) (word : String)
    (plain : isPlainName taxonomy = true) (plain' : isPlainName v.name = true)
    (filled : word ≠ "") (letters : ∀ c ∈ word.toList, isUnreserved c = true) :
    ∃ id : String, Spells word.toList id.toList ∧
      (∀ terms : v.kind? = some .terms, ∃ q,
        Query.parse ("in(" ++ fieldPath taxonomy v ++ ",(" ++ word ++ "))") = .ok q ∧
        Criterion.ofNodes ⟨v, .terms, terms⟩ q.leaves =
          ⟨⟨v, .terms, terms⟩, .oneOf, .terms [id]⟩) ∧
      ∀ text : v.kind? = some .text, ∃ q,
        Query.parse ("match(" ++ word ++ "," ++ fieldPath taxonomy v ++ ")") = .ok q ∧
        Criterion.ofNodes ⟨v, .text, text⟩ q.leaves = ⟨⟨v, .text, text⟩, .matching, .words id⟩ := by
  obtain ⟨w, id, reads, shown, spells⟩ := Literal.bareRead letters
  have wordChars : ∀ c ∈ word.toList, Token.isWordChar c = true :=
    fun c member => Literal.unreservedWordChar (letters c member)
  have nonempty : word.toList ≠ [] := fun none => filled (String.toList_eq_nil_iff.mp none)
  refine ⟨id, spells, fun terms => ⟨_, ?_, termsOfBare plain plain' shown terms⟩,
    fun text => ⟨_, ?_, wordsOfBare plain plain' shown text⟩⟩
  · rw [← listRead plain plain' nonempty wordChars reads]
    congr 1
    refine String.toList_injective ?_
    simp [String.toList_append, Operator.oneOf]
  · rw [← wordRead plain plain' nonempty wordChars reads]
    congr 1
    refine String.toList_injective ?_
    simp [String.toList_append, Operator.matching]

def agentFacet : Facet :=
  ⟨⟨"agent", .empty, some [⟨"007", .empty⟩, ⟨"008", .empty⟩], []⟩, .terms, by decide⟩

def notesFacet : Facet :=
  ⟨⟨"notes", .empty, none, [⟨"type", "string"⟩]⟩, .text, by decide⟩

theorem bareWordsRestoredPadded :
    ∃ q, Query.parse "in(T.agent,(-0042))" = .ok q ∧
      Criterion.ofNodes agentFacet q.leaves = ⟨agentFacet, .oneOf, .terms ["-42"]⟩ := by
  obtain ⟨id, spells, listed, _⟩ := bareWordsRestored "T" agentFacet.vocabulary "-0042"
    rfl rfl (by decide) (List.all_eq_true.mp rfl)
  have padded : Padded "-0042".toList "-42".toList :=
    @Padded.number true 1 ['4', '2'] (List.all_eq_true.mp rfl) (by decide) (by decide) (by decide)
  have same : id = "-42" := String.toList_injective (spells.padded _ padded)
  subst same
  exact listed (by decide)

/-- An id and a word to search for that begin with zeros. -/
theorem bareWordsShortened :
    (∃ q, Query.parse "in(T.agent,(007))" = .ok q ∧
      Criterion.ofNodes agentFacet q.leaves = ⟨agentFacet, .oneOf, .terms ["7"]⟩) ∧
    Selection.terms ["7"] ≠ .terms ["007"] ∧
    (∃ q, Query.parse "match(00,T.notes)" = .ok q ∧
      Criterion.ofNodes notesFacet q.leaves = ⟨notesFacet, .matching, .words "0"⟩) ∧
    Selection.words "0" ≠ .words "00" := by
  refine ⟨⟨⟨.oneOf, [.string "T.agent", .list [.integer 7]]⟩, rfl, rfl⟩, by decide,
    ⟨⟨.matching, [.integer 0, .string "T.notes"]⟩, rfl, rfl⟩, by decide⟩

end FacetSearch
