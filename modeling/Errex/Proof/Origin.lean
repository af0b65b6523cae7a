import Errex.Foundation.Origin
import Errex.Model.Ws
import Errex.Proof.Ingest.Addresses

/-!
# Origins of the dashboard

The origin check compares with the public URL as it is spelled, so that it lets the dashboard in exactly where that is
how a browser spells it.
-/

namespace Errex.Proof.Origin
open Foundation Text Origin Model Admin Ws Ingest

variable (url : WebUrl)

def remainder (s : List Char) : List Char := ((s.reverse.dropWhile (· == '/')).reverse).takeWhile (· != '/')

theorem authority_free : ∀ c ∈ url.authority, (c != '/') = true := by
  have free : ∀ {s : List Char}, (∀ c ∈ s, delimits c = false) → ∀ c ∈ s, (c != '/') = true := by
    rintro s all c mem
    have free := all c mem
    simp only [delimits, Bool.or_eq_false_iff] at free
    simp [bne, free.1.1.1]
  rw [WebUrl.authority]
  simp only [List.forall_mem_append]
  refine ⟨?_, free url.in_host, ?_⟩
  · cases given : url.userinfo with
    | none => exact nofun
    | some text =>
        simp only [Option.map_some, Option.getD_some, List.forall_mem_append]
        exact ⟨free (url.in_userinfo text given), List.forall_mem_singleton.mpr (by decide)⟩
  · cases given : url.port with
    | none => exact nofun
    | some digits =>
        simp only [Option.map_some, Option.getD_some, List.forall_mem_cons]
        refine ⟨by decide, fun c mem => ?_⟩
        have digit := url.in_port digits given c mem
        cases same : c != '/' with
        | true => rfl
        | false =>
            obtain rfl : c = '/' := by simpa using same
            exact absurd digit (by decide)

theorem authority_ne_nil : url.authority ≠ [] := by
  simp [WebUrl.authority, url.host_ne_nil]

theorem trimEndSlashes_append {front : List Char} (some_ : front ≠ []) (free : ∀ c ∈ front, (c != '/') = true) (before s : List Char) :
    (trimEndSlashes (.ofList (before ++ (front ++ s)))).toList =
      before ++ (front ++ (s.reverse.dropWhile (· == '/')).reverse) := by
  obtain ⟨init, last, rfl⟩ := List.eq_nil_or_concat' front |>.resolve_left some_
  have stops : ((init ++ [last]).reverse ++ before.reverse).dropWhile (· == '/') = (init ++ [last]).reverse ++ before.reverse := by
    have other : (last == '/') = false := by simpa using free last (by simp)
    simp [other]
  have whole : (before ++ ((init ++ [last]) ++ s)).reverse = s.reverse ++ ((init ++ [last]).reverse ++ before.reverse) := by
    simp only [List.reverse_append, List.append_assoc]
  rw [trimEndSlashes, String.toList_ofList, String.toList_ofList, whole, List.dropWhile_append, stops]
  split_ifs with none_left
  · rw [List.isEmpty_iff.mp none_left]
    simp
  · simp

theorem schemeText_free : ∀ c ∈ url.schemeText, c ≠ ':' := by
  rintro c mem rfl
  have inside : Char.toLower ':' ∈ url.scheme.name := url.in_scheme ▸ List.mem_map_of_mem mem
  revert inside
  cases url.scheme <;> decide

theorem normalize_text : normalize url.text =
    some (.ofList (url.schemeText ++ (':' :: '/' :: '/' :: (url.authority ++ remainder url.rest)))) := by
  have trimmed := trimEndSlashes_append (authority_ne_nil url) (authority_free url) (url.schemeText ++ "://".toList) url.rest
  have split : splitOnceList "://".toList (url.schemeText ++ "://".toList ++ (url.authority ++
      (url.rest.reverse.dropWhile (· == '/')).reverse)) = some (url.schemeText, _) :=
    splitOnceList_append (schemeText_free url) _
  have text : url.text = .ofList (url.schemeText ++ "://".toList ++ (url.authority ++ url.rest)) := by
    simp [WebUrl.text]
  have kept : takeWhile (.ofList (url.authority ++ (url.rest.reverse.dropWhile (· == '/')).reverse)) (· != '/') =
      .ofList (url.authority ++ remainder url.rest) := by
    rw [takeWhile, String.toList_ofList, List.takeWhile_append_of_pos (authority_free url), remainder]
  rw [Ws.normalize, splitOnce, text, trimmed, split]
  simp only [Option.map_some, kept]
  refine congrArg some (String.toList_inj.mp ?_)
  change (String.ofList url.schemeText ++ "://" ++ String.ofList (url.authority ++ remainder url.rest)).toList = _
  simp

theorem remainder_cons_slash (s : List Char) : remainder ('/' :: s) = [] := by
  rw [remainder, List.reverse_cons, List.dropWhile_append]
  split_ifs
  · rfl
  · simp

theorem mem_remainder {c : Char} (other : c ≠ '/') (s : List Char) : c ∈ remainder (c :: s) := by
  rw [remainder, List.reverse_cons, List.dropWhile_append]
  split_ifs <;> simp [other]

theorem remainder_rest : (url.path ≠ [] ∨ url.query = none ∧ url.fragment = none) ∧ remainder url.rest = [] ∨
    ¬ (url.path ≠ [] ∨ url.query = none ∧ url.fragment = none) ∧ ∃ c ∈ remainder url.rest, delimits c := by
  rw [WebUrl.rest]
  cases path : url.path with
  | cons c path =>
      obtain rfl : c = '/' := by simpa [path] using url.path_front
      exact .inl ⟨by simp, remainder_cons_slash _⟩
  | nil =>
      cases url.query with
      | some query => exact .inr ⟨by simp, '?', mem_remainder (by decide) _, rfl⟩
      | none =>
          cases url.fragment with
          | some fragment => exact .inr ⟨by simp, '#', mem_remainder (by decide) _, rfl⟩
          | none => exact .inl ⟨by simp, rfl⟩

/-- The URL is spelled as a browser spells its origin, up to a path. -/
structure Canonical : Prop where
  scheme : url.schemeText = url.scheme.name
  userinfo : url.userinfo = none
  host : url.host.map Char.toLower = url.host
  port : ∀ digits ∈ url.port, digits = Nat.toDigits 10 (portNumber digits) ∧ portNumber digits ≠ url.scheme.defaultPort
  path : url.path ≠ [] ∨ url.query = none ∧ url.fragment = none

theorem originPort_eq_iff : (url.port.map (':' :: ·)).getD [] = url.originPort ↔
    ∀ digits ∈ url.port, digits = Nat.toDigits 10 (portNumber digits) ∧ portNumber digits ≠ url.scheme.defaultPort := by
  rw [WebUrl.originPort]
  rcases url.port with _ | _ | ⟨c, digits⟩
  · simp
  · simp
  · simp only [Option.map_some, Option.getD_some, Option.mem_def, Option.some.injEq, forall_eq']
    split_ifs with default <;> simp [default]

theorem toLower_cases (c : Char) : c.toLower = c ∨ 97 ≤ c.toLower.toNat := by
  unfold Char.toLower
  split_ifs with upper
  · right
    obtain ⟨low, high⟩ := upper
    rw [ge_iff_le, UInt32.le_iff_toNat_le] at low
    rw [UInt32.le_iff_toNat_le] at high
    change 97 ≤ (c.val + ('a'.val - 'A'.val)).toNat
    rw [UInt32.toNat_add]
    have : ('a'.val - 'A'.val).toNat = 32 := by decide
    have : ('A'.val).toNat = 65 := by decide
    have : ('Z'.val).toNat = 90 := by decide
    omega
  · exact .inl rfl

theorem delimits_toLower {c : Char} (free : delimits c = false) : delimits c.toLower = false := by
  rcases toLower_cases c with same | letter
  · rwa [same]
  · have other : ∀ d : Char, d.toNat < 97 → (c.toLower == d) = false := by
      intro d small
      rw [beq_eq_false_iff_ne]
      rintro rfl
      omega
    simp [delimits, other '/' (by decide), other '?' (by decide), other '#' (by decide), other '@' (by decide)]

theorem origin_free : ∀ c ∈ url.host.map Char.toLower ++ url.originPort, delimits c = false := by
  have digit : ∀ n, ∀ c ∈ Nat.toDigits 10 n, delimits c = false := by
    intro n c mem
    have digit := Nat.isDigit_of_mem_toDigits (by decide) (by decide) mem
    have other : ∀ d : Char, d.isDigit = false → (c == d) = false := by
      intro d none_
      rw [beq_eq_false_iff_ne]
      rintro rfl
      rw [digit] at none_
      cases none_
    simp [delimits, other '/' (by decide), other '?' (by decide), other '#' (by decide), other '@' (by decide)]
  rw [List.forall_mem_append]
  constructor
  · intro c mem
    obtain ⟨c, inside, rfl⟩ := List.mem_map.mp mem
    exact delimits_toLower (url.in_host c inside)
  · rw [WebUrl.originPort]
    rcases url.port with _ | _ | ⟨c, digits⟩
    · exact nofun
    · exact nofun
    · dsimp only
      split_ifs
      · exact nofun
      · exact List.forall_mem_cons.mpr ⟨by decide, digit _⟩

theorem normalize_eq_origin_iff : Ws.normalize url.text = some url.origin ↔ Canonical url := by
  rw [normalize_text, Option.some.injEq, WebUrl.origin, String.ofList_inj]
  constructor
  · intro same
    have length : url.schemeText.length = url.scheme.name.length := by rw [← url.in_scheme, List.length_map]
    obtain ⟨scheme, rest⟩ := List.append_inj same length
    have rest : url.authority ++ remainder url.rest = url.host.map Char.toLower ++ url.originPort := by simpa using rest
    have free : ∀ c ∈ url.authority ++ remainder url.rest, delimits c = false := rest ▸ origin_free url
    rcases remainder_rest url with ⟨path, nothing⟩ | ⟨-, c, mem, delimits⟩
    · have userinfo : url.userinfo = none := by
        cases given : url.userinfo with
        | none => rfl
        | some text => exact absurd (free '@' (by simp [WebUrl.authority, given])) (by decide)
      rw [WebUrl.authority, userinfo, nothing, List.append_nil, Option.map_none, Option.getD_none, List.nil_append] at rest
      obtain ⟨host, port⟩ := List.append_inj rest (List.length_map ..).symm
      exact ⟨scheme, userinfo, host.symm, (originPort_eq_iff url).mp port, path⟩
    · rw [free c (List.mem_append_right _ mem)] at delimits
      cases delimits
  · rintro ⟨scheme, userinfo, host, port, path⟩
    rcases remainder_rest url with ⟨-, nothing⟩ | ⟨no_path, -⟩
    · rw [WebUrl.authority, userinfo, nothing, scheme, host, (originPort_eq_iff url).mpr port, List.append_nil]
      rfl
    · exact absurd path no_path

/-- The check lets in the dashboard and nothing else exactly where the public URL is spelled as its origin. -/
theorem originAllowed_iff_origin_iff :
    (∀ o, originAllowed o url.text false ↔ o = url.origin) ↔ Canonical url := by
  have check : ∀ o, originAllowed o url.text false ↔ Ws.normalize url.text = some o := by
    intro o
    rw [originAllowed, normalize_text]
    simp only [Bool.false_and, Bool.or_false, beq_iff_eq, Option.some.injEq]
    exact eq_comm
  simp only [check, ← normalize_eq_origin_iff]
  constructor
  · exact fun exact_ => (exact_ _).mpr rfl
  · intro same o
    rw [same, Option.some.injEq, eq_comm]

def dashboard : WebUrl where
  scheme := .https
  schemeText := "https".toList
  userinfo := none
  host := "errex.example.com".toList
  port := some "443".toList
  path := []
  query := none
  fragment := none
  in_scheme := by decide
  in_userinfo := nofun
  host_ne_nil := by decide
  in_host := by
    have each : ("errex.example.com".toList.all (!delimits ·)) = true := by decide
    exact fun c mem => by simpa using List.all_eq_true.mp each c mem
  in_port := by
    rintro digits ⟨⟩
    exact List.all_eq_true.mp (by decide)
  port_le := by
    rintro digits ⟨⟩
    decide
  path_front := by decide
  in_path := nofun
  in_query := nofun

theorem dashboard_locked_out :
    dashboard.text = "https://errex.example.com:443" ∧ dashboard.origin = "https://errex.example.com" ∧
      originAllowed dashboard.origin dashboard.text false = false := by
  decide +kernel

end Errex.Proof.Origin
