import Errex.Model.Admin
import Errex.Model.Ingest
import Mathlib.Data.List.TakeWhile

/-!
# The addresses of a project

The ingest URL and the DSN are put together without escaping the name. They lead to the project
exactly when its name has no delimiter of a URL and no escape (`reachable_iff`).
-/

namespace Errex.Proof.Ingest
open Foundation Foundation.Text Model Model.Ingest Model.Admin Uri

structure PublicUrl where
  scheme : List Char
  authority : List Char
  slashes : Nat
  scheme_ne_nil : scheme ≠ []
  authority_ne_nil : authority ≠ []
  in_scheme : ∀ c ∈ scheme, endsScheme c = false
  in_authority : ∀ c ∈ authority, endsAuthority c = false

def PublicUrl.text (url : PublicUrl) : String :=
  .ofList (url.scheme ++ "://".toList ++ url.authority ++ List.replicate url.slashes '/')

/-- The path that a Sentry SDK posts to: the last segment of the path of its DSN is the project. -/
def sdkPath (dsn : String) : Option (List Char) :=
  (Uri.split dsn.toList).map fun uri =>
    "/api/".toList ++ (uri.path.reverse.takeWhile (· != '/')).reverse ++ "/envelope/".toList

/-- The ingest URL leads to the project with its token, and the DSN to the same path. -/
def Reachable (url : PublicUrl) (name token : String) : Prop :=
  ∃ uri, Uri.split (ingestUrlFor url.text name token).toList = some uri ∧
    routeProject uri.path = some name ∧
    extractSentryKey [] (.ofList (uri.query.getD [])) = some token ∧
    sdkPath (dsnFor url.text name token) = some uri.path

/-- No delimiter, and no `%` before two hexadecimal digits. -/
def Plain (name : String) : Prop :=
  (∀ c ∈ name.toList, endsAuthority c = false) ∧ Uri.escaped name.toList = false

theorem none_of_all {ends : Char → Bool} {s : List Char} (all : s.all (!ends ·) = true) : ∀ c ∈ s, ends c = false := by
  simpa using all

theorem dropWhile_replicate {c : Char} (n : Nat) (s : List Char) :
    (List.replicate n c ++ s).dropWhile (· == c) = s.dropWhile (· == c) := by
  induction n with
  | zero => rfl
  | succ n ih => simp [List.replicate_succ]

section Texts

variable (url : PublicUrl) (name token : String)

theorem trimEndSlashes_text :
    (trimEndSlashes url.text).toList = url.scheme ++ "://".toList ++ url.authority := by
  obtain ⟨front, last, authority⟩ := List.eq_nil_or_concat' url.authority |>.resolve_left url.authority_ne_nil
  have inside := url.in_authority last (by simp [authority])
  have other : (last == '/') = false := by
    cases same : last == '/' with
    | false => rfl
    | true => simp [endsAuthority, same] at inside
  rw [trimEndSlashes, PublicUrl.text, authority]
  simp only [String.toList_ofList, List.reverse_append, List.reverse_replicate, dropWhile_replicate,
    List.reverse_singleton, List.cons_append, List.dropWhile_cons, other,
    Bool.false_eq_true, if_false]
  simp

theorem splitOnce_trimmed : splitOnce (trimEndSlashes url.text) "://" =
    some (.ofList url.scheme, .ofList url.authority) := by
  have absent : ∀ x ∈ url.scheme, x ≠ ':' := by
    rintro x mem rfl
    exact absurd (url.in_scheme ':' mem) (by decide)
  have found : splitOnceList "://".toList (url.scheme ++ "://".toList ++ url.authority) =
      some (url.scheme, url.authority) := splitOnceList_append (c := ':') absent url.authority
  rw [splitOnce, trimEndSlashes_text, found]
  rfl

theorem ingestUrlFor_toList : (ingestUrlFor url.text name token).toList =
    url.scheme ++ ':' :: '/' :: '/' :: (url.authority ++ '/' :: ("api/".toList ++ (name.toList ++
      '/' :: ("envelope/".toList ++ '?' :: ("sentry_key=".toList ++ token.toList))))) := by
  show (trimEndSlashes url.text ++ "/api/" ++ name ++ "/envelope/?sentry_key=" ++ token).toList = _
  simp [trimEndSlashes_text]

theorem dsnFor_toList : (dsnFor url.text name token).toList =
    url.scheme ++ ':' :: '/' :: '/' :: ((token.toList ++ '@' :: url.authority) ++ '/' :: name.toList) := by
  rw [dsnFor, splitOnce_trimmed]
  show (String.ofList url.scheme ++ "://" ++ token ++ "@" ++ String.ofList url.authority ++ "/" ++ name).toList = _
  simp

end Texts

def afterFront (name token : String) : List Char :=
  name.toList ++ '/' :: ("envelope/".toList ++ '?' :: ("sentry_key=".toList ++ token.toList))

theorem split_ingestUrlFor (url : PublicUrl) (name token : String) :
    let parts := ('/' :: ("api/".toList ++ afterFront name token)).span (!endsPath ·)
    Uri.split (ingestUrlFor url.text name token).toList = some ⟨url.scheme, url.authority, parts.1,
      match parts.2 with
      | '?' :: rest => some (rest.takeWhile (· != '#'))
      | _ => none⟩ := by
  rw [ingestUrlFor_toList]
  exact split_eq url.scheme_ne_nil url.in_scheme url.in_authority rfl

theorem segment_eq (name token : String) :
    ((afterFront name token).takeWhile (!endsPath ·)).takeWhile (· != '/') =
      name.toList.takeWhile (!endsAuthority ·) := by
  have both : (fun c => decide ((c != '/') = true ∧ (!endsPath c) = true)) = (!endsAuthority ·) := by
    funext c
    rw [Bool.eq_iff_iff]
    simp only [endsPath, endsAuthority, bne, decide_eq_true_eq, Bool.not_eq_true', Bool.or_eq_false_iff]
    tauto
  rw [List.takeWhile_takeWhile, both, afterFront]
  by_cases all : ∀ c ∈ name.toList, (!endsAuthority c) = true
  · rw [List.takeWhile_append_of_pos all, List.takeWhile_cons_of_neg (by decide), List.append_nil]
    exact (List.takeWhile_eq_self_iff.mpr all).symm
  · rw [List.takeWhile_append]
    apply if_neg
    intro whole
    refine all (List.takeWhile_eq_self_iff.mp ?_)
    exact (List.takeWhile_prefix _).eq_of_length whole

theorem plain_of_routed {name token : String}
    (routed : routeProject (('/' :: ("api/".toList ++ afterFront name token)).takeWhile (!endsPath ·)) = some name) :
    Plain name := by
  have front : ('/' :: ("api/".toList ++ afterFront name token)).takeWhile (!endsPath ·) =
      "/api/".toList ++ (afterFront name token).takeWhile (!endsPath ·) := by
    rfl
  have found : decodeText (name.toList.takeWhile (!endsAuthority ·)) = some name := by
    rw [← segment_eq name token]
    simp only [front, routeProject, List.prefix_append, List.isPrefixOf_iff_prefix, if_true,
      List.span_eq_takeWhile_dropWhile] at routed
    rw [show (5 : Nat) = "/api/".toList.length from rfl, List.drop_left] at routed
    split_ifs at routed
    exact routed
  have decoded := decodeText_eq_some_iff.mp found
  -- the segment is a part of the name, and no shorter in bytes
  have whole : name.toList.takeWhile (!endsAuthority ·) = name.toList := by
    have parts := congrArg (fun s => (utf8 s).length)
      (List.takeWhile_append_dropWhile (p := (!endsAuthority ·)) (l := name.toList))
    have shorter := decodeFrom_length_le 0 (name.toList.takeWhile (!endsAuthority ·))
    rw [← percentDecode, decoded] at shorter
    simp only [utf8_append, List.length_append] at parts
    have rest := eq_nil_of_length_utf8 (s := name.toList.dropWhile (!endsAuthority ·)) (by omega)
    have joined := List.takeWhile_append_dropWhile (p := (!endsAuthority ·)) (l := name.toList)
    rwa [rest, List.append_nil] at joined
  rw [whole] at decoded
  exact ⟨by simpa using List.takeWhile_eq_self_iff.mp whole, (percentDecode_eq_utf8_iff _).mp decoded⟩

theorem routeProject_of_plain {name : String} (nonempty : name.toList ≠ []) (plain : Plain name) :
    routeProject ("/api/".toList ++ (name.toList ++ "/envelope/".toList)) = some name := by
  have inside : ∀ c ∈ name.toList, (c != '/') = true := by
    intro c mem
    have clear := plain.1 c mem
    simp only [endsAuthority, Bool.or_eq_false_iff] at clear
    simp [bne, clear.1.1]
  have segment : (name.toList ++ "/envelope/".toList).span (· != '/') = (name.toList, "/envelope/".toList) :=
    span_stop inside rfl _
  rw [routeProject, if_pos (by simp),
    show (5 : Nat) = "/api/".toList.length from rfl, List.drop_left, segment]
  simpa [nonempty] using decodeText_eq_some_iff.mpr (percentDecode_of_not_escaped plain.2)

theorem isAlphanum_of_mem_token (uuid : Uuid) : ∀ c ∈ (Store.generateToken uuid).toList, c.isAlphanum := by
  intro c mem
  simp only [Store.generateToken, Uuid.simple, String.toList_ofList, List.mem_map] at mem
  obtain ⟨n, -, rfl⟩ := mem
  have small : uuid.bits.toNat / 16 ^ (31 - n) % 16 < 16 := Nat.mod_lt _ (by decide)
  generalize uuid.bits.toNat / 16 ^ (31 - n) % 16 = digit at small
  interval_cases digit <;> decide

theorem ne_of_isAlphanum {c d : Char} (digit : c.isAlphanum) (mark : d.isAlphanum = false) : c ≠ d := by
  rintro rfl
  rw [digit] at mark
  cases mark

theorem extractSentryKey_query {token : String} (digits : ∀ c ∈ token.toList, c.isAlphanum) :
    extractSentryKey [] (.ofList ("sentry_key=".toList ++ token.toList)) = some token := by
  have key : ∀ c ∈ "sentry_key=".toList, (c == '&') = false := none_of_all (by decide)
  have single : Text.split (.ofList ("sentry_key=".toList ++ token.toList)) (· == '&') =
      [.ofList ("sentry_key=".toList ++ token.toList)] := by
    rw [Text.split, String.toList_ofList, List.splitOnP_eq_singleton]
    · rfl
    · intro c mem
      rcases List.mem_append.mp mem with lead | value
      · simp [key c lead]
      · simpa using ne_of_isAlphanum (digits c value) rfl
  have stripped := stripLead_append "sentry_key=".toList token.toList
  rw [String.ofList_toList, String.ofList_toList] at stripped
  show ((Text.split (.ofList ("sentry_key=".toList ++ token.toList)) (· == '&')).findSome? (stripLead · "sentry_key=")) = _
  rw [single, List.findSome?_cons, stripped]

theorem sdkPath_dsnFor (url : PublicUrl) {name token : String} (plain : Plain name)
    (digits : ∀ c ∈ token.toList, c.isAlphanum) :
    sdkPath (dsnFor url.text name token) = some ("/api/".toList ++ (name.toList ++ "/envelope/".toList)) := by
  have in_authority : ∀ c ∈ token.toList ++ '@' :: url.authority, endsAuthority c = false := by
    intro c mem
    rcases List.mem_append.mp mem with value | mem
    · have alnum := digits c value
      simp [endsAuthority, ne_of_isAlphanum alnum]
    rcases List.mem_cons.mp mem with rfl | host
    · rfl
    · exact url.in_authority c host
  have clear : ∀ c ∈ name.toList, (!endsPath c) = true ∧ (c != '/') = true := by
    intro c mem
    have ends := plain.1 c mem
    simp only [endsAuthority, Bool.or_eq_false_iff] at ends
    simp [endsPath, ends, bne]
  have path : ('/' :: name.toList).takeWhile (!endsPath ·) = '/' :: name.toList := by
    apply List.takeWhile_eq_self_iff.mpr
    intro c mem
    rcases List.mem_cons.mp mem with rfl | mem
    · rfl
    · exact (clear c mem).1
  have last : ('/' :: name.toList).reverse.takeWhile (· != '/') = name.toList.reverse := by
    rw [List.reverse_cons, List.takeWhile_append_of_pos fun c mem => (clear c (List.mem_reverse.mp mem)).2]
    simp
  rw [sdkPath, dsnFor_toList, split_eq url.scheme_ne_nil url.in_scheme in_authority rfl]
  simp only [List.span_eq_takeWhile_dropWhile, Option.map_some, path, last, List.reverse_reverse,
    List.append_assoc]

theorem reachable_of_plain (url : PublicUrl) {name : String} (nonempty : name.toList ≠ []) (plain : Plain name)
    (uuid : Uuid) : Reachable url name (Store.generateToken uuid) := by
  have digits := isAlphanum_of_mem_token uuid
  generalize Store.generateToken uuid = token at digits
  have path : ('/' :: ("api/".toList ++ afterFront name token)).span (!endsPath ·) =
      ("/api/".toList ++ (name.toList ++ "/envelope/".toList), '?' :: ("sentry_key=".toList ++ token.toList)) := by
    have kept : ∀ c ∈ "/api/".toList ++ (name.toList ++ "/envelope/".toList), (!endsPath c) = true := by
      have front : ∀ c ∈ "/api/".toList, (!endsPath c) = true := List.all_eq_true.mp (by decide)
      have back : ∀ c ∈ "/envelope/".toList, (!endsPath c) = true := List.all_eq_true.mp (by decide)
      intro c mem
      rcases List.mem_append.mp mem with first | mem
      · exact front c first
      rcases List.mem_append.mp mem with middle | last
      · have clear := plain.1 c middle
        simp only [endsAuthority, Bool.or_eq_false_iff] at clear
        simp [endsPath, clear.1.2, clear.2]
      · exact back c last
    have stopped := span_stop kept (show (!endsPath '?') = false from rfl) ("sentry_key=".toList ++ token.toList)
    rw [← stopped]
    simp [afterFront]
  refine ⟨_, split_ingestUrlFor url name _, ?_, ?_, ?_⟩
  · rw [path]
    exact routeProject_of_plain nonempty plain
  · have whole : ∀ c ∈ "sentry_key=".toList ++ token.toList, (c != '#') = true := by
      have key : ∀ c ∈ "sentry_key=".toList, (c != '#') = true := List.all_eq_true.mp (by decide)
      intro c mem
      rcases List.mem_append.mp mem with lead | value
      · exact key c lead
      · simpa using ne_of_isAlphanum (digits c value) rfl
    rw [path]
    simp only [List.takeWhile_eq_self_iff.mpr whole, Option.getD_some]
    exact extractSentryKey_query digits
  · rw [path]
    exact sdkPath_dsnFor url plain digits

/-- The addresses lead to a project exactly when its name is plain. -/
theorem reachable_iff (url : PublicUrl) (body : String) (accepted : (trim body).isEmpty = false) (uuid : Uuid) :
    Reachable url (trim body) (Store.generateToken uuid) ↔ Plain (trim body) := by
  constructor
  · rintro ⟨uri, split, routed, -, -⟩
    rw [split_ingestUrlFor] at split
    obtain rfl := Option.some.inj split
    have path : routeProject (('/' :: ("api/".toList ++ afterFront (trim body) (Store.generateToken uuid))).takeWhile
        (!endsPath ·)) = some (trim body) := by simpa [List.span_eq_takeWhile_dropWhile] using routed
    exact plain_of_routed path
  · intro plain
    exact reachable_of_plain url (by simpa using accepted) plain uuid

instance (name : String) : Decidable (Plain name) :=
  decidable_of_iff (name.toList.all (!endsAuthority ·) = true ∧ Uri.escaped name.toList = false) (by simp [Plain])

def localUrl : PublicUrl :=
  ⟨"http".toList, "localhost:9090".toList, 1, by decide, by decide, none_of_all (by decide), none_of_all (by decide)⟩

theorem reachable_web : Reachable localUrl (trim " web ") (Store.generateToken ⟨0⟩) :=
  (reachable_iff localUrl " web " (by decide) ⟨0⟩).mpr (by decide)

/-- The route stops at the slash in the name. -/
theorem reachable_fails : ¬ ∀ (url : PublicUrl) (body : String) (uuid : Uuid), (trim body).isEmpty = false →
    Reachable url (trim body) (Store.generateToken uuid) := by
  intro reachable
  obtain ⟨uri, split, routed, -, -⟩ := reachable localUrl "web/api" ⟨0⟩ (by decide)
  rw [split_ingestUrlFor] at split
  obtain rfl := Option.some.inj split
  revert routed
  decide +kernel

end Errex.Proof.Ingest
