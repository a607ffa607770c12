import AstraeaGateway.Gateway.Handlers
import Mathlib.Data.List.Induction

/-!
# `Gateway.QueryResult` — what the response to a read carries

The loop over the result set appends the index of each field where its text was meant: the response depends
on the shape of the result only (`resultLoop_eq`). `carries_iff` says for which result sets it is the
concatenation of the field texts all the same.
-/

namespace AstraeaGateway
namespace Gateway

variable {result : ResultSet}

/-- The field texts, row by row and column by column. NULL is read as empty. -/
def fieldTexts (result : ResultSet) : Str :=
  result.rows.flatMap (fun row => (List.finRange result.numFields).flatMap (fun i => (row i).getD []))

theorem fieldLoop_eq (numFields : Nat) (response : Str) :
    fieldLoop numFields response = response ++ (List.range numFields).map UInt8.ofNat := by
  unfold fieldLoop
  induction numFields with
  | zero => exact (List.append_nil response).symm
  | succ n ih =>
      rw [List.range_succ, List.foldl_append, ih, List.map_append, ← List.append_assoc]
      rfl

/-- **The response is a function of the shape**: at each place, the number of the column. -/
theorem resultLoop_eq (result : ResultSet) : resultLoop result =
    (List.range (result.rows.length * result.numFields)).map (fun p => UInt8.ofNat (p % result.numFields)) := by
  unfold resultLoop
  induction result.rows using List.reverseRecOn with
  | nil => simp
  | append_singleton rows row ih =>
      -- the last row stands behind `rows.length` rows of the same length
      have hrow : (List.range result.numFields).map UInt8.ofNat
          = ((List.range result.numFields).map (rows.length * result.numFields + ·)).map
              (fun p => UInt8.ofNat (p % result.numFields)) := by
        rw [List.map_map]
        refine List.map_congr_left (fun i hi => ?_)
        show UInt8.ofNat i = UInt8.ofNat ((rows.length * result.numFields + i) % result.numFields)
        rw [Nat.mul_add_mod_self_right, Nat.mod_eq_of_lt (List.mem_range.mp hi)]
      rw [List.foldl_append, ih, List.length_append, List.length_singleton, Nat.add_mul, Nat.one_mul,
        List.range_add, List.map_append, ← hrow]
      exact fieldLoop_eq ..

/-- The field texts have one byte for each field on average, and at each place its value is the number of
    the column. -/
def SpellsColumns (result : ResultSet) : Prop :=
  (fieldTexts result).length = result.rows.length * result.numFields ∧
  ∀ (p : Nat) (hp : p < (fieldTexts result).length),
    (fieldTexts result)[p] = UInt8.ofNat (p % result.numFields)

/-- The call of `flushToTarget` returns the field texts, and queues them as the message. -/
def CarriesTexts (clock : Clock) (result : ResultSet) (ipClient : Str) (s : State) : Prop :=
  ∃ s', flushToTarget clock (.stored result) ipClient s = .ok (fieldTexts result, s') ∧
    s'.myQueue = s.myQueue ++ [readEntry (fieldTexts result) ipClient (clock s.reads)]

theorem carriesTexts_iff_eq (clock : Clock) (result : ResultSet) (ipClient : Str) (s : State) :
    CarriesTexts clock result ipClient s ↔ resultLoop result = fieldTexts result := by
  constructor
  · rintro ⟨s', hcall, -⟩
    exact congrArg Prod.fst (Except.ok.inj hcall)
  · intro heq
    rw [CarriesTexts, ← heq]
    exact ⟨_, rfl, rfl⟩

/-- **The response carries the result only by coincidence**: exactly if the field texts spell the column
    numbers. -/
theorem carries_iff (clock : Clock) (result : ResultSet) (ipClient : Str) (s : State) :
    CarriesTexts clock result ipClient s ↔ SpellsColumns result := by
  rw [carriesTexts_iff_eq, resultLoop_eq]
  constructor
  · intro heq
    unfold SpellsColumns
    rw [← heq]
    refine ⟨?_, ?_⟩
    · rw [List.length_map, List.length_range]
    · intro p hp
      rw [List.getElem_map, List.getElem_range]
  · rintro ⟨hlength, hbytes⟩
    refine List.ext_getElem ?_ ?_
    · rw [List.length_map, List.length_range, hlength]
    · intro p hp hp'
      rw [List.getElem_map, List.getElem_range, hbytes p hp']

/-- One row with the text `x`: the response is a zero byte. -/
theorem text_not_carried :
    ¬ CarriesTexts (Clock.held 0) ⟨1, [fun _ => some (lit "x")]⟩ (lit "client:6000") initial := by
  rw [carriesTexts_iff_eq]
  decide

/-- **Texts that a C string can hold** reach the response only where there is nothing to carry. -/
theorem carries_iff_of_no_nul (clock : Clock) (ipClient : Str) (s : State)
    (hnul : (0 : UInt8) ∉ fieldTexts result) :
    CarriesTexts clock result ipClient s ↔ result.rows = [] ∨ result.numFields = 0 := by
  rw [carriesTexts_iff_eq, resultLoop_eq]
  constructor
  · -- the first byte of a response that is not empty is zero
    intro heq
    by_contra hne
    rw [not_or, ← List.length_eq_zero_iff] at hne
    have hpos : 0 < result.rows.length * result.numFields :=
      Nat.mul_pos (Nat.pos_of_ne_zero hne.1) (Nat.pos_of_ne_zero hne.2)
    refine hnul (heq ▸ List.mem_map.mpr ⟨0, List.mem_range.mpr hpos, ?_⟩)
    rw [Nat.zero_mod]
    rfl
  · intro hempty
    have hzero : result.rows.length * result.numFields = 0 := by
      rcases hempty with hrows | hfields
      · rw [hrows, List.length_nil, Nat.zero_mul]
      · exact Nat.mul_eq_zero.mpr (Or.inr hfields)
    have htexts : fieldTexts result = [] := by
      obtain ⟨numFields, rows⟩ := result
      rcases hempty with hrows | rfl
      · exact List.flatMap_eq_nil_iff.mpr (fun row hrow => nomatch (hrows ▸ hrow : row ∈ []))
      · simp [fieldTexts]
    rw [hzero, htexts]
    rfl

end Gateway
end AstraeaGateway
