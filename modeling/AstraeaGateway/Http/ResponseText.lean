import AstraeaGateway.Http.CJson

/-!
# `Http.ResponseText` — `getResponseFromJson`

The response is cut out of a reply by position: what stands behind the first 13 bytes, without the last two.
That is the text between the quotes, still escaped (`getResponseFromJson_reply`), and the lengths are
`size_t`: a short body makes them wrap, or has no 13 bytes to cut behind. `extraction_iff` says for which
strings and for which bodies neither matters.
-/

namespace AstraeaGateway
namespace Http

open Json

/-- `std::out_of_range`, as `std::string::substr` throws it. -/
inductive SubstrError
  | outOfRange
deriving DecidableEq, Repr

/-- Subtraction on `size_t`. -/
def subSize (a b : Nat) : Nat := if b ≤ a then a - b else a + 2 ^ 64 - b

/-- `std::string::substr` -/
def substr (s : Str) (pos len : Nat) : Except SubstrError Str :=
  if s.length < pos then .error .outOfRange else .ok ((s.drop pos).take len)

/-- `getResponseFromJson` -/
def getResponseFromJson (input : Str) : Except SubstrError Str :=
  if input.isEmpty then .ok input
  else substr input (lit "\x7b\"response\":\"").length
    (subSize (subSize input.length (lit "\x7b\"response\"=\"").length) 2)

/-- One of the two subtractions wraps around. -/
def LengthWraps (input : Str) : Prop :=
  input ≠ [] ∧ (input.length < (lit "\x7b\"response\"=\"").length ∨
    subSize input.length (lit "\x7b\"response\"=\"").length < 2)

/-- A body that is got through without an exception, and without wrapping around. -/
def Survives (body : Str) : Prop := (∃ response, getResponseFromJson body = .ok response) ∧ ¬ LengthWraps body

/-! ## Lengths -/

theorem subSize_of_le {a b : Nat} (h : b ≤ a) : subSize a b = a - b := if_pos h

theorem getResponseFromJson_of_ne_nil {input : Str} (h : input ≠ []) :
    getResponseFromJson input = substr input 13 (subSize (subSize input.length 13) 2) := by
  have hempty : ¬ input.isEmpty = true := by rwa [List.isEmpty_iff]
  rw [getResponseFromJson, if_neg hempty]
  rfl

/-- **An exception is thrown exactly for bodies of 1 to 12 bytes.** -/
theorem throws_iff (input : Str) :
    getResponseFromJson input = .error .outOfRange ↔ input ≠ [] ∧ input.length < 13 := by
  by_cases hnil : input = []
  · subst hnil
    exact iff_of_false (fun h => by cases h) (fun h => h.1 rfl)
  · rw [getResponseFromJson_of_ne_nil hnil, substr]
    split
    case isTrue hshort => exact iff_of_true rfl ⟨hnil, hshort⟩
    case isFalse hlong => exact iff_of_false (fun h => by cases h) (fun h => hlong h.2)

/-- A length wraps around for these, and for bodies of 13 and 14 bytes. -/
theorem lengthWraps_iff (input : Str) : LengthWraps input ↔ input ≠ [] ∧ input.length < 15 := by
  show input ≠ [] ∧ (input.length < 13 ∨ subSize input.length 13 < 2) ↔ _
  unfold subSize
  refine and_congr_right (fun _ => ?_)
  split <;> omega

theorem survives_iff (body : Str) : Survives body ↔ body = [] ∨ 15 ≤ body.length := by
  have hok : (∃ response, getResponseFromJson body = .ok response)
      ↔ ¬ getResponseFromJson body = .error .outOfRange := by
    cases getResponseFromJson body with
    | ok response => simp
    | error e => cases e; simp
  rw [Survives, hok, throws_iff, lengthWraps_iff]
  by_cases hnil : body = []
  · simp [hnil]
  · simp only [hnil, false_or, not_and, ne_eq, not_false_eq_true, forall_const]
    omega

/-! ## Replies -/

section

-- the JSON encoder of the servers is not part of the repository
variable (encode : Str → Str) (hencode : ∀ x, Encoded x (encode x))

/-- The reply of a handler that returns `D(_response = x)`. -/
def reply (x : Str) : Str := objectText encode [(lit "response", x)]

variable {encode}
include hencode

theorem reply_eq (x : Str) :
    reply encode x = lit "\x7b\"response\":\"" ++ (encode x ++ lit "\"\x7d") := by
  have hplain : (lit "response").all (fun b => decide (¬ MustEscape b)) = true := rfl
  have hkey : encode (lit "response") = lit "response" :=
    (hencode (lit "response")).eq_iff.mpr (fun b hb => of_decide_eq_true (List.all_eq_true.mp hplain b hb))
  have hmember : reply encode x
      = openBrace :: (quoted (encode (lit "response")) ++ colon :: quoted (encode x) ++ [closeBrace]) := rfl
  rw [hmember, hkey]
  simp [quoted, lit, openBrace, closeBrace, colon, quote]

/-- The reply does carry the string. -/
theorem readObject_reply (x : Str) : readObject (reply encode x) = some [(lit "response", x)] :=
  readObject_objectText (fun s => (hencode s).escaped) _

/-- **What is cut out of a reply** is the string as it is encoded. -/
theorem getResponseFromJson_reply (x : Str) : getResponseFromJson (reply encode x) = .ok (encode x) := by
  have hlength : (reply encode x).length = 13 + ((encode x).length + 2) := by
    rw [reply_eq hencode, List.length_append, List.length_append]
    rfl
  have hsize : subSize (subSize (reply encode x).length 13) 2 = (encode x).length := by
    rw [hlength, subSize_of_le (Nat.le_add_right _ _), Nat.add_sub_cancel_left,
      subSize_of_le (Nat.le_add_left _ _), Nat.add_sub_cancel]
  have hnil : reply encode x ≠ [] := List.length_pos_iff.mp (by omega)
  have hdrop : (reply encode x).drop 13 = encode x ++ lit "\"\x7d" := by
    rw [reply_eq hencode]
    show ((lit "\x7b\"response\":\"") ++ _).drop (lit "\x7b\"response\":\"").length = _
    exact List.drop_left
  rw [getResponseFromJson_of_ne_nil hnil, hsize, substr, if_neg (by omega), hdrop, List.take_left]

/-- **The extraction returns exactly the strings in which nothing must be escaped, and survives exactly the
    empty body and those of at least 15 bytes.** -/
theorem extraction_iff : (∀ x, getResponseFromJson (reply encode x) = .ok x ↔ ∀ b ∈ x, ¬ MustEscape b) ∧
    ∀ body, Survives body ↔ body = [] ∨ 15 ≤ body.length := by
  refine ⟨?_, survives_iff⟩
  intro x
  rw [getResponseFromJson_reply hencode, Except.ok.injEq]
  exact (hencode x).eq_iff

end

/-- With the encoder of cJSON. -/
theorem extraction_iff_cJSON : (∀ x, Encoded x (CJson.escaped x)) ∧
    (∀ x, getResponseFromJson (reply CJson.escaped x) = .ok x ↔ ∀ b ∈ x, ¬ MustEscape b) ∧
    ∀ body, Survives body ↔ body = [] ∨ 15 ≤ body.length :=
  ⟨CJson.encoded_escaped, extraction_iff CJson.encoded_escaped⟩

/-- A reply that quotes a name comes back with a backslash, and an empty object is too short. -/
theorem extraction_fails : getResponseFromJson (reply CJson.escaped (lit "\"")) ≠ .ok (lit "\"") ∧
    ¬ Survives (lit "\x7b\x7d") := by
  refine ⟨?_, ?_⟩
  · intro h
    rw [getResponseFromJson_reply CJson.encoded_escaped] at h
    exact absurd (Except.ok.inj h) (by decide)
  · rw [survives_iff]
    decide

end Http
end AstraeaGateway
