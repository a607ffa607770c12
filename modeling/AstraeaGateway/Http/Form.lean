import AstraeaGateway.Data
import AstraeaGateway.Overlap

/-!
# `Http.Form` — the audit records of `createForm`

`createForm` puts user and query between fixed texts, as they are: no quote in them is escaped, while the
posts of the other helpers go through cJSON. `identifies_iff` says which records name their user and their
query, and `createForm_inj` that names without the separator are enough for it.
-/

namespace AstraeaGateway
namespace Http

open Overlap

/-- `createForm` -/
def createForm (ipClient request : Str) : Str :=
  lit "\x7b\"User\": \"" ++ ipClient ++ lit "\", \"Query\": \"" ++ request ++ lit "\"\x7d" ++ lit "\n"

/-- What stands between user and query. -/
def formSep : Str := lit "\", \"Query\": \""

variable {ipClient request ipClient' request' : Str}

/-- Two records are equal exactly if they are between the texts at both ends. -/
theorem createForm_eq_iff : createForm ipClient' request' = createForm ipClient request ↔
    ipClient' ++ (formSep ++ request') = ipClient ++ (formSep ++ request) := by
  unfold createForm formSep
  rw [List.append_cancel_right_eq, List.append_cancel_right_eq]
  simp only [List.append_assoc]
  exact ⟨List.append_cancel_left, congrArg _⟩

/-- The separator begins and ends with a quote, and overlaps itself in no other way. -/
theorem overlaps_formSep (k : Nat) : Overlaps formSep k ↔ k = 12 := by
  constructor
  · intro h
    have hborders : ∀ k < 13, 0 < k → formSep.drop k <+: formSep → k = 12 := by decide
    exact hborders k h.lt h.pos h.border
  · rintro rfl
    exact ⟨by decide, by decide, by decide⟩

theorem clearBefore_formSep : ClearBefore formSep ipClient ↔
    ¬ formSep <:+: ipClient ∧ ¬ formSep.dropLast <:+ ipClient := clearBefore_iff overlaps_formSep

theorem clearBehind_formSep : ClearBehind formSep request ↔
    ¬ formSep <:+: request ∧ ¬ formSep.tail <+: request := clearBehind_iff overlaps_formSep

/-- The record is the one of this user and this query only. -/
def Identifies (ipClient request : Str) : Prop :=
  ∀ ipClient' request', createForm ipClient' request' = createForm ipClient request →
    ipClient' = ipClient ∧ request' = request

/-- **A record identifies user and query exactly if the separator can be found in it**: neither of them
    contains it, the user does not end with all of it but the last quote, and the query does not begin with
    all of it but the first. -/
theorem identifies_iff (ipClient request : Str) : Identifies ipClient request ↔
    (¬ formSep <:+: ipClient ∧ ¬ formSep.dropLast <:+ ipClient) ∧
    (¬ formSep <:+: request ∧ ¬ formSep.tail <+: request) := by
  rw [← clearBefore_formSep, ← clearBehind_formSep, ← identified_iff (by decide)]
  unfold Identifies Identified
  simp only [createForm_eq_iff]

/-- **No query forges the record of a user**, as long as all users have names that hide no separator. -/
theorem createForm_inj (h : ClearBefore formSep ipClient) (h' : ClearBefore formSep ipClient')
    (heq : createForm ipClient' request' = createForm ipClient request) :
    ipClient' = ipClient ∧ request' = request :=
  append_inj h' h (createForm_eq_iff.mp heq)

/-- A name that contains the separator, and the name that ends in front of it. -/
theorem createForm_collides : ¬ ∀ ipClient request ipClient' request',
    createForm ipClient request = createForm ipClient' request' →
      ipClient = ipClient' ∧ request = request' := by
  intro h
  have hsame : createForm (lit "a") (lit "b\", \"Query\": \"c")
      = createForm (lit "a\", \"Query\": \"b") (lit "c") := by decide
  exact absurd (h _ _ _ _ hsame).1 (by decide)

end Http
end AstraeaGateway
