import AstraeaGateway.Http.CJson
import AstraeaGateway.Http.QueryString
import Mathlib.Data.List.TakeWhile

/-!
# `Http.JsonBody` — `restCallPostJsonAsync`, twice

Both copies of `http_request_helper.h` print the parameters as a JSON object and tell curl how many bytes of
it to post: the gateway's copy the length of the text, the client's copy the number of parameters.
`readObject_gatewayBody`: what the gateway posts is read back as the parameters. `not_postsWhole`: the client
never posts the same.
-/

namespace AstraeaGateway
namespace Http

open Json CJson

variable {params : StrMap}

/-- What a C function sees of a string: everything up to the first NUL. -/
def cStr (s : Str) : Str := s.takeWhile (· != 0)

/-- The items of the object, added with `cJSON_AddStringToObject(root, x.first.c_str(), x.second.c_str())`. -/
def items (params : StrMap) : List (Str × Str) := params.entries.map (fun x => (cStr x.1, cStr x.2))

/-- The body that curl posts: the first `CURLOPT_POSTFIELDSIZE` bytes of `CURLOPT_POSTFIELDS`. For the size -1
    curl takes the length of the text itself. -/
def postBody (postFields : Str) (postFieldSize : Int) : Str :=
  if postFieldSize = -1 then cStr postFields else postFields.take postFieldSize.toNat

/-- `int datalen = params.size();` -/
def datalen (params : StrMap) : Int := (Int32.ofNat params.entries.length).toInt

/-- The body posted by the gateway's copy; `none` if the text could not be printed. -/
def gatewayBody (params : StrMap) : Option Str :=
  (printUnformatted (items params)).map (fun json => postBody json (cStr json).length)

/-- The body posted by the client's copy. -/
def clientBody (params : StrMap) : Option Str :=
  (printUnformatted (items params)).map (fun json => postBody json (datalen params))

/-- Both copies post the same body, and it is the parameters. -/
def PostsWhole (params : StrMap) : Prop := ∃ body, gatewayBody params = some body ∧
  clientBody params = some body ∧ readObject body = some params.entries

/-! ## Texts without NUL -/

theorem cStr_of_not_mem {s : Str} (h : (0 : UInt8) ∉ s) : cStr s = s := by
  refine List.takeWhile_eq_self_iff.mpr (fun b hb => ?_)
  rw [bne_iff_ne]
  rintro rfl
  exact h hb

theorem not_mem_cStr (s : Str) : (0 : UInt8) ∉ cStr s := by
  intro h
  have := List.mem_takeWhile_imp h
  cases this

/-- Printing puts no NUL into the text. -/
theorem not_mem_escaped {s : Str} (h : (0 : UInt8) ∉ s) : (0 : UInt8) ∉ escaped s := by
  intro hmem
  obtain ⟨b, hb, hmem⟩ := List.mem_flatMap.mp hmem
  have hbyte : b.toNat < 256 := b.toNat_lt
  rcases escapeByte_cases b with ⟨htext, -⟩ | ⟨e, htext, -, he⟩ | ⟨htext, -⟩
  · rw [htext, List.mem_singleton] at hmem
    exact h (hmem ▸ hb)
  · rw [htext, List.mem_pair] at hmem
    rcases hmem with hzero | rfl
    · cases hzero
    · cases he
  · rw [htext] at hmem
    simp only [List.mem_cons, List.not_mem_nil, or_false] at hmem
    rcases hmem with hzero | hzero | hzero | hzero | hzero | hzero
    · cases hzero
    · cases hzero
    · cases hzero
    · cases hzero
    · exact Hex.lower_ne_zero (by omega) hzero
    · exact Hex.lower_ne_zero (by omega) hzero

theorem not_mem_member {x : Str × Str} (h : (0 : UInt8) ∉ x.1 ∧ (0 : UInt8) ∉ x.2) :
    (0 : UInt8) ∉ member escaped x := by
  have hkey := not_mem_escaped h.1
  have hvalue := not_mem_escaped h.2
  simp only [member, quoted, List.mem_append, List.mem_cons, List.not_mem_nil, or_false, not_or]
  exact ⟨⟨⟨by decide, hkey⟩, by decide⟩, by decide, ⟨by decide, hvalue⟩, by decide⟩

theorem not_mem_objectText {l : List (Str × Str)} (h : ∀ x ∈ l, (0 : UInt8) ∉ x.1 ∧ (0 : UInt8) ∉ x.2) :
    (0 : UInt8) ∉ objectText escaped l := by
  cases l with
  | nil => decide
  | cons x l =>
      have hrest : (0 : UInt8) ∉ l.flatMap (fun y => comma :: member escaped y) := by
        intro hmem
        obtain ⟨y, hy, hmem⟩ := List.mem_flatMap.mp hmem
        rcases List.mem_cons.mp hmem with hzero | hmem
        · cases hzero
        · exact not_mem_member (h y (List.mem_cons_of_mem x hy)) hmem
      simp only [objectText, List.mem_append, List.mem_cons, List.not_mem_nil, or_false, not_or]
      exact ⟨by decide, not_mem_member (h x List.mem_cons_self), hrest, by decide⟩

/-- `strlen` finds the whole text. -/
theorem cStr_printed {json : Str} (h : printUnformatted (items params) = some json) : cStr json = json := by
  obtain ⟨rfl, -⟩ := printUnformatted_eq h
  refine cStr_of_not_mem (not_mem_objectText (fun x hx => ?_))
  obtain ⟨y, -, rfl⟩ := List.mem_map.mp hx
  exact ⟨not_mem_cStr y.1, not_mem_cStr y.2⟩

/-- The gateway's copy posts the whole text. -/
theorem gatewayBody_eq {json : Str} (h : printUnformatted (items params) = some json) :
    gatewayBody params = some json := by
  have hsize : ((json.length : Nat) : Int) ≠ -1 := by omega
  rw [gatewayBody, h, Option.map_some, cStr_printed h, postBody, if_neg hsize, Int.toNat_natCast,
    List.take_length]

/-- **What the gateway posts is read back as the parameters**, as long as they are free of NUL. -/
theorem readObject_gatewayBody (hnul : ∀ x ∈ params.entries, (0 : UInt8) ∉ x.1 ∧ (0 : UInt8) ∉ x.2) {body : Str}
    (h : gatewayBody params = some body) : readObject body = some params.entries := by
  obtain ⟨json, hjson, -⟩ := Option.map_eq_some_iff.mp h
  rw [gatewayBody_eq hjson] at h
  obtain rfl := Option.some.inj h
  obtain ⟨rfl, -⟩ := printUnformatted_eq hjson
  -- without NUL, `c_str()` gives all of a key or value
  have hitems : items params = params.entries := by
    unfold items
    conv_rhs => rw [← List.map_id params.entries]
    refine List.map_congr_left (fun x hx => ?_)
    exact Prod.ext (cStr_of_not_mem (hnul x hx).1) (cStr_of_not_mem (hnul x hx).2)
  rw [hitems]
  exact readObject_objectText escaped_escaped params.entries

/-! ## The client's copy -/

/-- A text is longer than its number of members. -/
theorem length_lt_objectText (l : List (Str × Str)) : l.length < (objectText escaped l).length := by
  cases l with
  | nil => decide
  | cons x l =>
      have hrest : l.length ≤ (l.flatMap (fun y => comma :: member escaped y)).length := by
        induction l with
        | nil => exact Nat.le_refl 0
        | cons y l ih =>
            rw [List.flatMap_cons, List.length_append, List.length_cons, List.length_cons]
            omega
      rw [objectText, List.length_cons, List.length_cons, List.length_append, List.length_append,
        List.length_singleton]
      omega

/-- The text has so few members that the conversion to `int` keeps their number. -/
theorem datalen_eq {json : Str} (h : printUnformatted (items params) = some json) :
    datalen params = params.entries.length ∧ params.entries.length < json.length := by
  obtain ⟨rfl, hlength⟩ := printUnformatted_eq h
  have hlt := length_lt_objectText (items params)
  rw [items, List.length_map] at hlt
  refine ⟨Int32.toInt_ofNat_of_lt ?_, hlt⟩
  unfold intMax at hlength
  unfold items at hlength
  omega

/-- The client's copy posts one byte for each parameter. -/
theorem length_clientBody {body : Str} (h : clientBody params = some body) :
    body.length = params.entries.length := by
  obtain ⟨json, hjson, rfl⟩ := Option.map_eq_some_iff.mp h
  obtain ⟨hdatalen, hlt⟩ := datalen_eq hjson
  have hsize : ((params.entries.length : Nat) : Int) ≠ -1 := by omega
  rw [hdatalen, postBody, if_neg hsize, Int.toNat_natCast, List.length_take, Nat.min_eq_left (Nat.le_of_lt hlt)]

/-- **The client's copy never posts the whole message**: for no parameters at all are the two bodies equal
    and read back as the parameters. -/
theorem not_postsWhole (params : StrMap) : ¬ PostsWhole params := by
  rintro ⟨body, hgateway, hclient, -⟩
  obtain ⟨json, hjson, -⟩ := Option.map_eq_some_iff.mp hgateway
  obtain ⟨-, hlt⟩ := datalen_eq hjson
  rw [gatewayBody_eq hjson] at hgateway
  obtain rfl := Option.some.inj hgateway
  rw [length_clientBody hclient] at hlt
  exact Nat.lt_irrefl _ hlt

/-- The parameters of a read request. -/
def readParams : StrMap :=
  StrMap.ofEntries [(lit "ip_client", lit "client:12346"), (lit "request", lit "0")]

/-- Two parameters: two bytes of the text. -/
theorem clientBody_truncated :
    gatewayBody readParams = some (lit "\x7b\"ip_client\":\"client:12346\",\"request\":\"0\"\x7d") ∧
    clientBody readParams = some (lit "\x7b\"") ∧ ¬ PostsWhole readParams := by
  have hgateway : gatewayBody readParams
      = some (lit "\x7b\"ip_client\":\"client:12346\",\"request\":\"0\"\x7d") := by decide +kernel
  have hclient : clientBody readParams = some (lit "\x7b\"") := by decide +kernel
  refine ⟨hgateway, hclient, ?_⟩
  rintro ⟨body, hbody, hbody', -⟩
  rw [hgateway] at hbody
  rw [hclient, ← hbody] at hbody'
  exact absurd hbody' (by decide +kernel)

end Http
end AstraeaGateway
