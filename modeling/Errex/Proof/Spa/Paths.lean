import Errex.Model.Spa.Api

/-!
# Names in paths

A name that the SPA puts into a path comes out of the router's parameter as it went in, at the handler it was meant for,
unless it is a dot segment.
-/

namespace Errex.Proof.Spa.Paths
open Foundation Uri Utf16 Routing Model.Router Model.Spa

variable {blank : Bool} {endpoint : Endpoint} {name : Utf16} {text : String}

theorem plain_segments (endpoint : Endpoint) :
    ∀ segment ∈ endpoint.before.map String.toList ++ endpoint.after.map String.toList,
      '/' ∉ segment ∧ isSingleDot segment = false ∧ isDoubleDot segment = false := by
  cases endpoint <;> decide

theorem search_after (blank : Bool) (endpoint : Endpoint) (component : List Char) :
    let below := (endpoint.before.map String.toList).foldl (fun table s => literals s table) table
    literals component below = [] ∧ ∃ methods,
      search blank (params below) (endpoint.after.map String.toList) = some ([], methods) ∧
        methods.lookup endpoint.method = some endpoint.handler := by
  cases blank <;> cases endpoint <;> exact ⟨rfl, _, rfl, rfl⟩

theorem encodeComponent_ne_nil {s : List Char} (some_ : s ≠ []) : encodeComponent s ≠ [] := by
  intro none_
  have decoded := percentDecode_encodeComponent s
  rw [none_] at decoded
  exact some_ (utf8_injective (decoded.symm.trans rfl))

theorem route_path {s : List Char} (some_ : s ≠ []) (single : s ≠ ['.']) (double : s ≠ ['.', '.']) :
    route blank endpoint.method (resolvePath (endpoint.path (encodeComponent s))) =
      .handled endpoint.handler [encodeComponent s] := by
  obtain ⟨free, methods, found, handler⟩ := search_after blank endpoint (encodeComponent s)
  have fits : (blank || !(encodeComponent s).isEmpty) = true := by simp [encodeComponent_ne_nil some_]
  have plain := plain_segments endpoint
  have parts : segments (endpoint.path (encodeComponent s)) =
      endpoint.before.map String.toList ++ encodeComponent s :: endpoint.after.map String.toList := by
    refine segments_joinPath ?_ (by simp)
    intro segment mem
    rcases List.mem_append.mp mem with first | mem
    · exact (plain segment (List.mem_append_left _ first)).1
    · rcases List.mem_cons.mp mem with rfl | last
      · exact slash_not_mem_encodeComponent s
      · exact (plain segment (List.mem_append_right _ last)).1
  have stays : resolvePath (endpoint.path (encodeComponent s)) = endpoint.path (encodeComponent s) :=
    resolvePath_encodeComponent single double plain
  have param := search_param free fits (endpoint.after.map String.toList)
  rw [found] at param
  rw [route, stays, parts, search_append param]
  simp [handler]

theorem route_dotted {s : List Char} {handler : Handler} {params : List (List Char)}
    (dotted : s = [] ∨ s = ['.'] ∨ s = ['.', '.'])
    (same : route blank endpoint.method (resolvePath (endpoint.path (encodeComponent s))) = .handled handler params) :
    handler = endpoint.handler ∧ params = [[]] ∨
      endpoint = .listUserSessions ∧ s = ['.'] ∧ handler = .adminGetUser ∧ params = ["sessions".toList] := by
  rcases dotted with rfl | rfl | rfl
  · left
    cases blank <;> cases endpoint <;> cases same <;> exact ⟨rfl, rfl⟩
  · cases blank <;> cases endpoint <;> cases same <;> first | exact .inl ⟨rfl, rfl⟩ | exact .inr ⟨rfl, rfl, rfl, rfl⟩
  · cases blank <;> cases endpoint <;> cases same

theorem call_handled (handler : Handler) (s : List Char) :
    (Routed.handled handler [encodeComponent s]).call = some (handler, [.ofList s]) := by
  simp [Routed.call, decodeText_encodeComponent]

theorem call_eq_some {routed : Routed} {handler : Handler} {params : List String}
    (called : routed.call = some (handler, params)) :
    ∃ raw, routed = .handled handler raw ∧ raw.mapM decodeText = some params := by
  cases routed with
  | handled other raw =>
      obtain ⟨decoded, read, pair⟩ := Option.map_eq_some_iff.mp called
      obtain ⟨rfl, rfl⟩ := Prod.mk.inj pair
      exact ⟨raw, rfl, read⟩
  | methodNotAllowed => cases called
  | fallback => cases called

theorem send_encode (text : String) :
    endpoint.send blank (encode text) =
      some (route blank endpoint.method (resolvePath (endpoint.path (encodeComponent text.toList)))) := by
  rw [Endpoint.send, encodeURIComponent_eq_some_iff.mpr ⟨text, rfl, rfl⟩, Option.map_some]

theorem call_cases {handler : Handler} {params : List String}
    (called : (endpoint.send blank name).bind Routed.call = some (handler, params)) :
    ∃ text, name = encode text ∧
      ((text ≠ "." ∧ text ≠ "..") ∧ handler = endpoint.handler ∧ params = [text] ∨
        handler = endpoint.handler ∧ params = [""] ∨
        endpoint = .listUserSessions ∧ text = "." ∧ handler = .adminGetUser ∧ params = ["sessions"]) := by
  obtain ⟨routed, sent, answers⟩ := Option.bind_eq_some_iff.mp called
  obtain ⟨component, encoded, -⟩ := Option.map_eq_some_iff.mp sent
  obtain ⟨text, rfl, -⟩ := encodeURIComponent_eq_some_iff.mp encoded
  rw [send_encode] at sent
  have spelled : ∀ other : String, text.toList = other.toList → text = other := fun other => String.toList_inj.mp
  refine ⟨text, rfl, ?_⟩
  by_cases dotted : text.toList = [] ∨ text.toList = ['.'] ∨ text.toList = ['.', '.']
  · right
    obtain ⟨raw, rfl, read⟩ := call_eq_some answers
    rcases route_dotted dotted (Option.some.inj sent) with ⟨rfl, rfl⟩ | ⟨rfl, single, rfl, rfl⟩
    · left
      have decoded := decodeText_encodeComponent []
      rw [encodeComponent, List.flatMap_nil] at decoded
      simp only [List.mapM_cons, decoded, List.mapM_nil] at read
      exact ⟨rfl, (Option.some.inj read).symm⟩
    · right
      have decoded := decodeText_encodeComponent "sessions".toList
      have plain : encodeComponent "sessions".toList = "sessions".toList := by decide
      rw [plain] at decoded
      simp only [List.mapM_cons, decoded, List.mapM_nil] at read
      exact ⟨rfl, spelled "." single, rfl, (Option.some.inj read).symm⟩
  · left
    rw [not_or, not_or] at dotted
    rw [route_path dotted.1 dotted.2.1 dotted.2.2] at sent
    obtain rfl := Option.some.inj sent
    rw [call_handled, String.ofList_toList] at answers
    obtain ⟨rfl, rfl⟩ := Prod.mk.inj (Option.some.inj answers)
    refine ⟨⟨?_, ?_⟩, rfl, rfl⟩
    · rintro rfl
      exact dotted.2.1 rfl
    · rintro rfl
      exact dotted.2.2 rfl

/-- Whatever the router does with empty segments: the handler a call is meant for gets a name exactly when the call was
made with this name and the name is no dot segment, and no call reaches another handler, except that the sessions of
the user `.` are a request for the user `sessions`. -/
theorem names_arrive (blank : Bool) (endpoint : Endpoint) (name : Utf16) :
    (∀ text ≠ "", (endpoint.send blank name).bind Routed.call = some (endpoint.handler, [text]) ↔
      name = encode text ∧ text ≠ "." ∧ text ≠ "..") ∧
    ∀ handler params, (endpoint.send blank name).bind Routed.call = some (handler, params) →
      handler = endpoint.handler ∨
        endpoint = .listUserSessions ∧ name = encode "." ∧ handler = .adminGetUser ∧ params = ["sessions"] := by
  constructor
  · intro text some_
    constructor
    · intro called
      obtain ⟨sent, rfl, ⟨plain, -, same⟩ | ⟨-, empty⟩ | ⟨rfl, -, other, -⟩⟩ := call_cases called
      · obtain rfl := List.singleton_inj.mp same
        exact ⟨rfl, plain⟩
      · exact absurd (List.singleton_inj.mp empty) some_
      · cases other
    · rintro ⟨rfl, single, double⟩
      have spelled : ∀ {other : String}, text ≠ other → text.toList ≠ other.toList :=
        fun different same => different (String.toList_inj.mp same)
      rw [send_encode, route_path (spelled some_) (spelled single) (spelled double), Option.bind_some, call_handled,
        String.ofList_toList]
  · intro handler params called
    obtain ⟨text, rfl, ⟨-, same, -⟩ | ⟨same, -⟩ | ⟨sessions, rfl, other, params⟩⟩ := call_cases called
    · exact .inl same
    · exact .inl same
    · exact .inr ⟨sessions, rfl, other, params⟩

theorem names_arrive_spaced : (Endpoint.rotateToken.send false (encode "a/b é")).bind Routed.call =
    some (.adminRotateToken, ["a/b é"]) :=
  ((names_arrive false .rotateToken (encode "a/b é")).1 "a/b é" (by decide)).mpr ⟨rfl, by decide, by decide⟩

end Errex.Proof.Spa.Paths
