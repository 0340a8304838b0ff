import FacetSearch.Proofs.Json.RoundTrip
import FacetSearch.Proofs.Query.Replacing
import FacetSearch.Proofs.Text.Spelling
import FacetSearch.Query.Text

/-! Queries told apart by their JSON text. Scalars, lists and nodes share one space of values, and a
number in it is known by its digits only. Main statement: no two queries have a written form in
common, be it in one line or in several, with members as they stand or in order of their names. -/
namespace FacetSearch

namespace Text

theorem magnitudeTrimmed (n : Int64) : magnitude n = ['0'] ∨ (magnitude n).head? ≠ some '0' := by
  obtain ⟨zeros, digits, same, trimmed⟩ := zerosTrimmed (magnitude n)
  have written : magnitude n = Nat.toDigits 10 (digitsValue digits) := by
    rw [← zerosValue zeros digits, ← same, magnitudeValue, magnitude]
  by_cases none : digits = []
  · rw [none] at written
    exact .inl written
  · have digit : ∀ c ∈ digits, c.isDigit = true := fun c member =>
      magnitudeDigits n c (same ▸ List.mem_append_right _ member)
    rw [written, (trimmedWritten digit none trimmed).2]
    exact .inr trimmed

theorem decimalInjective {m n : Int64} (h : decimal m = decimal n) : m = n := by
  have read := decimalRoundTrip m
  rw [h, decimalRoundTrip] at read
  exact (Option.some.inj read).symm

end Text

namespace Json

theorem magnitudeNumber (n : Int64) : isMagnitude (Text.magnitude n) = true := by
  have digits : (Text.magnitude n).all Char.isDigit = true :=
    List.all_eq_true.mpr (Text.magnitudeDigits n)
  unfold isMagnitude
  split
  · rename_i rest zero
    rcases Text.magnitudeTrimmed n with alone | trimmed
    · cases zero.symm.trans alone
      rfl
    · rw [zero] at trimmed
      exact absurd rfl trimmed
  · rw [List.takeWhile_eq_self_iff.mpr (Text.magnitudeDigits n),
      List.dropWhile_eq_nil_iff.mpr (Text.magnitudeDigits n)]
    simpa [isFraction] using Text.magnitudeFilled n

theorem decimalNumber (n : Int64) : isNumber (Text.decimal n) = true := by
  rw [Text.decimalParts]
  cases decide (n.toInt < 0) with
  | true => exact magnitudeNumber n
  | false =>
    change isNumber (Text.magnitude n) = true
    unfold isNumber
    split
    · rename_i rest signed
      have digit := Text.magnitudeDigits n '-' (signed ▸ List.mem_cons_self)
      exact absurd rfl (Text.digitNotSign digit).1
    · exact magnitudeNumber n

theorem insertProper {name : String} {value : Json} {members : List (String × Json)}
    (here : value.isProper = true) (others : properMembers members = true) :
    properMembers (insertMember name value members) = true := by
  induction members with
  | nil => rw [insertMember, properMembers, here, properMembers, Bool.and_self]
  | cons m rest ih =>
    obtain ⟨other, old⟩ := m
    obtain ⟨first, later⟩ := Bool.and_eq_true_iff.mp others
    rw [insertMember]
    split
    · rw [properMembers, here, others, Bool.and_self]
    · split
      · exact others
      · rw [properMembers, first, ih later, Bool.and_self]

mutual
theorem sortedProper : ∀ j : Json, j.isProper = true → j.sorted.isProper = true
  | .null, _ | .bool _, _ | .string _, _ => rfl
  | .number _, proper => proper
  | .array items, proper => sortedItemsProper items proper
  | .object members, proper => sortedMembersProper members proper
theorem sortedItemsProper : ∀ js : List Json, properItems js = true →
    properItems (sortedItems js) = true
  | [], _ => rfl
  | j :: js, proper => by
    obtain ⟨first, others⟩ := Bool.and_eq_true_iff.mp proper
    rw [sortedItems, properItems, sortedProper j first, sortedItemsProper js others, Bool.and_self]
theorem sortedMembersProper : ∀ ms : List (String × Json), properMembers ms = true →
    properMembers (sortedMembers ms) = true
  | [], _ => rfl
  | (_, value) :: rest, proper =>
    have ⟨first, others⟩ := Bool.and_eq_true_iff.mp proper
    insertProper (sortedProper value first) (sortedMembersProper rest others)
end

end Json

mutual
theorem Value.proper : ∀ v : Value, v.toJson.isProper = true
  | .string _ | .notANumber => rfl
  | .integer n => by
    rw [Value.toJson, Json.isProper, String.toList_ofList]
    exact Json.decimalNumber n
  | .list items => itemsProper items
  | .node _ args => by
    rw [Value.toJson]
    simp [Json.isProper, Json.properMembers, itemsProper args]
theorem itemsProper : ∀ vs : List Value, Json.properItems (jsonItems vs) = true
  | [] => rfl
  | v :: vs => by rw [jsonItems, Json.properItems, Value.proper v, itemsProper vs, Bool.and_self]
end

theorem Value.sortedNode (op : Operator) (args : List Value) :
    (Value.node op args).toJson.sorted =
      .object [("args", .array (Json.sortedItems (jsonItems args))), ("operator", .string op.name)] :=
  rfl

mutual
-- By recursion on the first value. Each kind of value has its own kind of JSON, so the second value
-- is of the kind of the first.
theorem Value.sortedInjective : ∀ v w : Value, v.toJson.sorted = w.toJson.sorted → v = w
  | .string _, w, same => by
    cases w with
    | string t => cases same; rfl
    | _ => cases same
  | .integer m, w, same => by
    cases w with
    | integer n =>
      have digits := congrArg String.toList (Json.number.inj same)
      rw [String.toList_ofList, String.toList_ofList] at digits
      rw [Text.decimalInjective digits]
    | _ => cases same
  | .notANumber, w, same => by
    cases w with
    | notANumber => rfl
    | _ => cases same
  | .list vs, w, same => by
    cases w with
    | list ws => rw [itemsInjective vs ws (Json.array.inj same)]
    | _ => cases same
  | .node op vs, w, same => by
    cases w with
    | node op' ws =>
      rw [Value.sortedNode, Value.sortedNode] at same
      injection same with members
      obtain ⟨first, rest⟩ := List.cons.inj members
      have args := Json.array.inj (congrArg Prod.snd first)
      have name := Json.string.inj (congrArg Prod.snd (List.cons.inj rest).1)
      have operator : op = op' := congrArg Operator.mk name
      rw [itemsInjective vs ws args, operator]
    | _ => cases same
theorem itemsInjective : ∀ vs ws : List Value,
    Json.sortedItems (jsonItems vs) = Json.sortedItems (jsonItems ws) → vs = ws
  | [], [], _ => rfl
  | [], _ :: _, same | _ :: _, [], same => by cases same
  | v :: vs, w :: ws, same => by
    obtain ⟨first, others⟩ := List.cons.inj same
    rw [Value.sortedInjective v w first, itemsInjective vs ws others]
end

theorem Query.proper (q : Query) : q.toJson.isProper = true :=
  q.toValue.proper

theorem Query.sortedApart {q r : Query} : q.toJson.sorted = r.toJson.sorted ↔ q = r := by
  refine ⟨fun same => ?_, fun same => by rw [same]⟩
  exact Query.valueInjective (Value.sortedInjective q.toValue r.toValue same)

theorem Query.jsonApart {q r : Query} : q.toJson = r.toJson ↔ q = r :=
  ⟨fun same => Query.sortedApart.mp (congrArg Json.sorted same), congrArg Query.toJson⟩

theorem serializedApart (q r : Query) :
    (q.toJson.compact = r.toJson.compact ↔ q = r) ∧
    (q.toJson.pretty = r.toJson.pretty ↔ q = r) ∧
    (q.toJson.sorted.compact = r.toJson.sorted.compact ↔ q = r) ∧
    (q.toJson.sorted.pretty = r.toJson.sorted.pretty ↔ q = r) := by
  obtain ⟨line, lines⟩ := Json.writtenApart q.proper r.proper
  obtain ⟨line', lines'⟩ :=
    Json.writtenApart (Json.sortedProper _ q.proper) (Json.sortedProper _ r.proper)
  exact ⟨line.trans Query.jsonApart, lines.trans Query.jsonApart, line'.trans Query.sortedApart,
    lines'.trans Query.sortedApart⟩

end FacetSearch
