import AstraeaGateway.Data
import AstraeaGateway.Percent
import AstraeaGateway.Separated
import AstraeaGateway.SortedMap

/-!
# `Http.QueryString` — `escapeParams`

The helper that puts the parameters of a call behind its URL, the same in both copies of
`http_request_helper.h`. `curl_easy_escape` is not part of the repository: it is a parameter `escape`, and
what its documentation promises is that each text is `Percent.Encoded` by its escape. `readQuery_escapeParams`:
a reader of the query string finds exactly the parameters.
-/

namespace AstraeaGateway
namespace Http

open Separated

/-- A `map<string, string>`. -/
abbrev StrMap := SortedMap Str Str

/-- `map<string, string> params = {…}` -/
def StrMap.ofEntries (entries : List (Str × Str)) : StrMap := SortedMap.ofEntries entries

def questionMark : UInt8 := 63
def ampersand : UInt8 := 38
def equals : UInt8 := 61

section
variable (escape : Str → Str)

/-- The loop over `params`, which inserts the encoded keys and values in a map of their own. -/
def encodeParams (params : StrMap) : StrMap :=
  params.entries.foldl (fun encodedParams x => encodedParams.insert (escape x.1, escape x.2)) SortedMap.empty

/-- One iteration of the loop over `encodedParams`. -/
def appendParam (url : Str) (x : Str × Str) : Str :=
  let url := if url.getLast? = some questionMark then url else url ++ [ampersand]
  url ++ (x.1 ++ equals :: x.2)

/-- `escapeParams` -/
def escapeParams (url : Str) (params : StrMap) : Str :=
  let encodedParams := encodeParams escape params
  let url := if encodedParams.entries.isEmpty then url else url ++ [questionMark]
  encodedParams.entries.foldl appendParam url

end

/-! ## Reading a query string -/

def readParam (part : Str) : Option (Str × Str) := do
  let (key, value) ← cut equals part
  return (← Percent.decode key, ← Percent.decode value)

/-- The parameters in a URL: what stands behind the first `?`, split on `&`, each part split on its first
    `=`, and both sides percent-decoded. -/
def readQuery (url : Str) : Option (List (Str × Str)) := do
  let (_, query) ← cut questionMark url
  (query.splitOn ampersand).mapM readParam

/-! ## The encoded parameters -/

variable {escape : Str → Str} {params : StrMap}

/-- An entry with key and value escaped. -/
def escapeEntry (escape : Str → Str) (x : Str × Str) : Str × Str := (escape x.1, escape x.2)

/-- What an escaped text stands for. -/
def unescaped (s : Str) : Str := (Percent.decode s).getD []

theorem unescaped_escape (hescape : ∀ s, Percent.Encoded s (escape s)) (s : Str) :
    unescaped (escape s) = s := by
  rw [unescaped, (hescape s).decode, Option.getD_some]

/-- Escaping merges no keys, so all entries get into the second map. -/
theorem encodeParams_perm (hescape : ∀ s, Percent.Encoded s (escape s)) (params : StrMap) :
    (encodeParams escape params).entries.Perm (params.entries.map (escapeEntry escape)) := by
  have hinj : Function.Injective escape := Function.LeftInverse.injective (unescaped_escape hescape)
  have hkeys : ((params.entries.map (escapeEntry escape)).map Prod.fst).Nodup := by
    have hnodup := params.keys_nodup.map hinj
    rw [List.map_map] at hnodup ⊢
    exact hnodup
  have hfold : encodeParams escape params = SortedMap.ofEntries (params.entries.map (escapeEntry escape)) := by
    rw [SortedMap.ofEntries, List.foldl_map]
    rfl
  rw [hfold]
  exact SortedMap.ofEntries_perm hkeys

/-! ## The joined parameters -/

/-- `key=value` -/
def part (x : Str × Str) : Str := x.1 ++ equals :: x.2

/-- Behind the `?`, no separator is put. -/
theorem appendParam_questionMark (url : Str) (x : Str × Str) :
    appendParam (url ++ [questionMark]) x = url ++ questionMark :: part x := by
  unfold appendParam
  rw [List.getLast?_concat, if_pos rfl, List.append_assoc]
  rfl

/-- Anywhere else, `&` is. -/
theorem appendParam_ampersand {url : Str} (h : url.getLast? ≠ some questionMark) (x : Str × Str) :
    appendParam url x = url ++ ampersand :: part x := by
  unfold appendParam
  rw [if_neg h, List.append_assoc]
  rfl

/-- A URL ends in `?` only until the first parameter is there. -/
theorem getLast?_append_part {x : Str × Str} (h : questionMark ∉ part x) (url : Str) :
    (url ++ part x).getLast? ≠ some questionMark := by
  intro hlast
  have hne : part x ≠ [] := by simp [part]
  rw [List.getLast?_append_of_ne_nil url hne] at hlast
  exact h (List.mem_of_getLast? hlast)

theorem foldl_appendParam {l : List (Str × Str)} (hl : ∀ x ∈ l, questionMark ∉ part x) {url : Str}
    (hurl : url.getLast? ≠ some questionMark) :
    l.foldl appendParam url = url ++ (l.map part).flatMap (fun p => ampersand :: p) := by
  induction l generalizing url with
  | nil => exact (List.append_nil url).symm
  | cons x l ih =>
      have hnext := getLast?_append_part (hl x List.mem_cons_self) (url ++ [ampersand])
      rw [List.append_assoc, List.singleton_append] at hnext
      rw [List.foldl_cons, appendParam_ampersand hurl,
        ih (fun y hy => hl y (List.mem_cons_of_mem x hy)) hnext, List.append_assoc]
      rfl

/-- The query string is the parts, joined by `&`. -/
theorem foldl_appendParam_questionMark {x : Str × Str} {l : List (Str × Str)}
    (hl : ∀ y ∈ x :: l, questionMark ∉ part y) (url : Str) :
    (x :: l).foldl appendParam (url ++ [questionMark])
      = url ++ questionMark :: (part x ++ (l.map part).flatMap (fun p => ampersand :: p)) := by
  have hnext := getLast?_append_part (hl x List.mem_cons_self) (url ++ [questionMark])
  rw [List.append_assoc, List.singleton_append] at hnext
  rw [List.foldl_cons, appendParam_questionMark,
    foldl_appendParam (fun y hy => hl y (List.mem_cons_of_mem x hy)) hnext, List.append_assoc]
  rfl

/-! ## The round trip -/

/-- No separator occurs in an escaped text. -/
theorem not_mem_escape (hescape : ∀ s, Percent.Encoded s (escape s)) (s : Str) :
    questionMark ∉ escape s ∧ ampersand ∉ escape s ∧ equals ∉ escape s :=
  ⟨(hescape s).not_mem (by decide) (by decide), (hescape s).not_mem (by decide) (by decide),
    (hescape s).not_mem (by decide) (by decide)⟩

theorem not_mem_part (hescape : ∀ s, Percent.Encoded s (escape s)) (x : Str × Str) :
    questionMark ∉ part (escapeEntry escape x) ∧ ampersand ∉ part (escapeEntry escape x) := by
  obtain ⟨hq, ha, -⟩ := not_mem_escape hescape x.1
  obtain ⟨hq', ha', -⟩ := not_mem_escape hescape x.2
  simp only [part, escapeEntry, List.mem_append, List.mem_cons, not_or]
  exact ⟨⟨hq, by decide, hq'⟩, ha, by decide, ha'⟩

/-- A part is read back on both sides of its `=`. -/
theorem readParam_part (hescape : ∀ s, Percent.Encoded s (escape s)) (x : Str × Str) :
    readParam (part (escapeEntry escape x)) = some x := by
  unfold readParam part escapeEntry
  rw [cut_append (not_mem_escape hescape x.1).2.2]
  simp [(hescape x.1).decode, (hescape x.2).decode]

theorem escapeParams_of_nil (h : (encodeParams escape params).entries = []) (url : Str) :
    escapeParams escape url params = url := by
  simp only [escapeParams, h, List.isEmpty_nil, if_true, List.foldl_nil]

theorem escapeParams_of_cons {x : Str × Str} {l : List (Str × Str)}
    (h : (encodeParams escape params).entries = x :: l) (url : Str) :
    escapeParams escape url params = (x :: l).foldl appendParam (url ++ [questionMark]) := by
  simp only [escapeParams, h, List.isEmpty_cons, Bool.false_eq_true, if_false]

/-- An entry with key and value unescaped. -/
def unescapeEntry (x : Str × Str) : Str × Str := (unescaped x.1, unescaped x.2)

/-- A URL with parameters is read part by part. -/
theorem readQuery_of_cons (hescape : ∀ s, Percent.Encoded s (escape s)) {url : Str}
    (hurl : questionMark ∉ url) {x : Str × Str} {l : List (Str × Str)}
    (h : (encodeParams escape params).entries = x :: l) :
    readQuery (escapeParams escape url params) = some ((x :: l).map unescapeEntry) := by
  -- every entry of the second map is an escaped one
  have hescaped : ∀ y ∈ x :: l, ∃ p, escapeEntry escape p = y := by
    intro y hy
    rw [← h, (encodeParams_perm hescape params).mem_iff] at hy
    obtain ⟨p, -, hp⟩ := List.mem_map.mp hy
    exact ⟨p, hp⟩
  have hquestion : ∀ y ∈ x :: l, questionMark ∉ part y := by
    intro y hy
    obtain ⟨p, rfl⟩ := hescaped y hy
    exact (not_mem_part hescape p).1
  have hampersand : ∀ y ∈ x :: l, ampersand ∉ part y := by
    intro y hy
    obtain ⟨p, rfl⟩ := hescaped y hy
    exact (not_mem_part hescape p).2
  have hread : ∀ y ∈ x :: l, readParam (part y) = some (unescapeEntry y) := by
    intro y hy
    obtain ⟨p, rfl⟩ := hescaped y hy
    rw [readParam_part hescape, unescapeEntry, escapeEntry, unescaped_escape hescape, unescaped_escape hescape]
  have hsplit : (part x ++ (l.map part).flatMap (fun p => ampersand :: p)).splitOn ampersand
      = (x :: l).map part := by
    refine splitOn_append_flatMap (hampersand x List.mem_cons_self) (fun p hp => ?_)
    obtain ⟨y, hy, rfl⟩ := List.mem_map.mp hp
    exact hampersand y (List.mem_cons_of_mem x hy)
  rw [readQuery, escapeParams_of_cons h, foldl_appendParam_questionMark hquestion, cut_append hurl,
    Option.bind_eq_bind, Option.bind_some]
  show ((part x ++ (l.map part).flatMap (fun p => ampersand :: p)).splitOn ampersand).mapM readParam = _
  rw [hsplit]
  exact mapM_map_eq_some hread

/-- **Query-string encoding is lossless.** Behind a base URL without `?`, a reader finds the parameters, each
    key once; without parameters the URL is unchanged. -/
theorem readQuery_escapeParams (hescape : ∀ s, Percent.Encoded s (escape s)) {url : Str}
    (hurl : questionMark ∉ url) (params : StrMap) :
    (params.entries = [] → escapeParams escape url params = url) ∧
    (params.entries ≠ [] → ∃ entries, readQuery (escapeParams escape url params) = some entries ∧
      entries.Perm params.entries ∧ (entries.map Prod.fst).Nodup) := by
  have hperm := encodeParams_perm hescape params
  constructor
  · intro hempty
    rw [hempty, List.map_nil] at hperm
    exact escapeParams_of_nil hperm.eq_nil url
  · intro hne
    obtain ⟨x, l, hentries⟩ : ∃ x l, (encodeParams escape params).entries = x :: l := by
      refine List.exists_cons_of_ne_nil (fun hnil => hne ?_)
      rw [hnil] at hperm
      exact List.map_eq_nil_iff.mp hperm.symm.eq_nil
    have hunescaped : (params.entries.map (escapeEntry escape)).map unescapeEntry = params.entries := by
      rw [List.map_map]
      refine List.map_id'' (fun p => ?_) params.entries
      exact Prod.ext (unescaped_escape hescape p.1) (unescaped_escape hescape p.2)
    have hentriesPerm : ((x :: l).map unescapeEntry).Perm params.entries := by
      rw [← hentries, ← hunescaped]
      exact hperm.map unescapeEntry
    exact ⟨_, readQuery_of_cons hescape hurl hentries, hentriesPerm,
      (hentriesPerm.map Prod.fst).nodup_iff.mpr params.keys_nodup⟩

/-- The message of the gateway to Astraea for a query with all the separators. -/
def queryParams : StrMap :=
  StrMap.ofEntries [(lit "query", lit "SELECT a%b FROM t WHERE c=\"d&e?\""), (lit "ip_client", [])]

theorem readQuery_escapeParams_query :
    (∀ s, Percent.Encoded s (Percent.encode s)) ∧ questionMark ∉ lit "http://astraea:5000/write" ∧
    ((queryParams.entries = [] → escapeParams Percent.encode (lit "http://astraea:5000/write") queryParams
        = lit "http://astraea:5000/write") ∧
     (queryParams.entries ≠ [] → ∃ entries,
        readQuery (escapeParams Percent.encode (lit "http://astraea:5000/write") queryParams) = some entries ∧
        entries.Perm queryParams.entries ∧ (entries.map Prod.fst).Nodup)) :=
  have hurl : questionMark ∉ lit "http://astraea:5000/write" := by decide
  ⟨Percent.encode_encoded, hurl, readQuery_escapeParams Percent.encode_encoded hurl queryParams⟩

end Http
end AstraeaGateway
