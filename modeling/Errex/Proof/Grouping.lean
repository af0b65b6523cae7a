import Errex.Model.Spa.EventDetail
import Errex.Proof.Fnv1a

/-!
# Library frames

The fingerprint hashes the last frame of the first exception, whether it is in the application or not. Two traces that
differ in the presence of one name are grouped apart.
-/

namespace Errex.Proof.Fingerprint
open Foundation Folding Model Model.Fingerprint Model.Spa

theorem throwSiteFrom_append {before after : List Model.Frame} {f : Model.Frame} (inApp : f.inApp = some true)
    (libraries : ∀ g ∈ after, g.inApp ≠ some true) (n : Nat) (inside : n ≤ after.length) :
    throwSiteFrom (before ++ f :: after) (before.length + 1 + n) = before.length := by
  induction n with
  | zero => simp [throwSiteFrom, inApp]
  | succ n ih =>
      have there : (before ++ f :: after)[before.length + 1 + n]? = after[n]? := by
        rw [List.getElem?_append_right (by omega)]
        have index : before.length + 1 + n - before.length = n + 1 := by omega
        rw [index, List.getElem?_cons_succ]
      obtain ⟨g, found⟩ : ∃ g, after[n]? = some g := ⟨after[n], List.getElem?_eq_getElem (by omega)⟩
      have library := libraries g (List.mem_of_getElem? found)
      rw [← Nat.add_assoc, throwSiteFrom, there, found, Option.bind_some, if_neg library, ih (by omega)]

theorem throwSiteIndex_append {before after : List Model.Frame} {f : Model.Frame} (inApp : f.inApp = some true)
    (libraries : ∀ g ∈ after, g.inApp ≠ some true) :
    throwSiteIndex (before ++ f :: after) = before.length := by
  have total : (before ++ f :: after).length = before.length + 1 + after.length := by
    rw [List.length_append, List.length_cons]
    omega
  have site := @throwSiteFrom_append before after f inApp libraries after.length le_rfl
  rw [throwSiteIndex, if_neg (by omega), total, site]

def upToThrowSite (frames : List Model.Frame) : List Model.Frame := frames.take ((throwSiteIndex frames).toNat + 1)

theorem upToThrowSite_append {before after : List Model.Frame} {f : Model.Frame} (inApp : f.inApp = some true)
    (libraries : ∀ g ∈ after, g.inApp ≠ some true) : upToThrowSite (before ++ f :: after) = before ++ [f] := by
  rw [upToThrowSite, throwSiteIndex_append inApp libraries, Int.toNat_natCast, List.take_append]
  simp

def framesOf (event : Event) (k : Nat) : Option (List Model.Frame) :=
  event.exception.bind fun c => c.values[k]?.bind fun ex => ex.stacktrace.map (·.frames)

def withFrames (event : Event) (k : Nat) (frames : List Model.Frame) : Event :=
  { event with
    exception := event.exception.map fun c => ⟨c.values.modify k fun ex => { ex with stacktrace := some ⟨frames⟩ }⟩ }

theorem primaryException_withFrames {event : Event} {frames : List Model.Frame} (traced : framesOf event 0 = some frames) :
    ∃ ex : ExceptionInfo, ∀ frames', (withFrames event 0 frames').primaryException =
      some { ex with stacktrace := some ⟨frames'⟩ } := by
  obtain ⟨c, chain, traced⟩ := Option.bind_eq_some_iff.mp traced
  obtain ⟨ex, first, -⟩ := Option.bind_eq_some_iff.mp traced
  obtain ⟨rest, values⟩ : ∃ rest, c.values = ex :: rest := by
    rw [← List.head?_eq_getElem?] at first
    exact List.head?_eq_some_iff.mp first
  refine ⟨ex, fun frames' => ?_⟩
  rw [Event.primaryException, withFrames, chain, Option.map_some, Option.bind_some, values, List.modify_zero_cons,
    List.head?_cons]

theorem derive_withFrames_later (event : Event) {k : Nat} (later : k ≠ 0) (frames : List Model.Frame) :
    derive (withFrames event k frames) = derive event := by
  have primary : (withFrames event k frames).primaryException = event.primaryException := by
    simp only [Event.primaryException, withFrames]
    cases event.exception with
    | none => rfl
    | some c =>
        obtain ⟨k, rfl⟩ := Nat.exists_eq_succ_of_ne_zero later
        cases values : c.values <;> simp [values]
  simp only [derive, primary]
  rfl

def unnamed : Model.Frame := ⟨none, none, none, none, none, none⟩

theorem bytes_withFrames {event : Event} {frames : List Model.Frame} (traced : framesOf event 0 = some frames)
    (lead : List Model.Frame) : ∃ ty, ∀ filename, bytes (withFrames event 0 (lead ++ [{ unnamed with filename }])) =
      (optStrBytes ty ++ optStrBytes none) ++ optStrBytes filename := by
  obtain ⟨ex, primary⟩ := primaryException_withFrames traced
  refine ⟨ex.ty, fun filename => ?_⟩
  rw [bytes, primary]
  simp [ExceptionInfo.firstFrame, unnamed]

/-- Whatever comes after the throw site leaves the group of an event alone exactly when the exception is not the first
one of the chain, whose last frame is hashed. -/
theorem derive_ignores_libraries_iff {event : Event} {k : Nat} {frames : List Model.Frame} (traced : framesOf event k = some frames) :
    (∀ libraries : List Model.Frame, (∀ g ∈ libraries, g.inApp ≠ some true) →
      derive (withFrames event k (upToThrowSite frames ++ libraries)) = derive event) ↔ k ≠ 0 := by
  constructor
  · rintro ignored rfl
    obtain ⟨ty, bytes_⟩ := bytes_withFrames traced (upToThrowSite frames)
    have library : ∀ filename, ∀ g ∈ [{ unnamed with filename }], g.inApp ≠ some true := fun _ =>
      List.forall_mem_singleton.mpr nofun
    have anonymous := ignored _ (library none)
    have named := ignored _ (library (some ""))
    have bytes_none : bytes _ = (optStrBytes ty ++ optStrBytes none) ++ 0 :: [0xff] := bytes_ none
    have bytes_some : bytes _ = (optStrBytes ty ++ optStrBytes none) ++ 1 :: [0xff] := bytes_ (some "")
    have apart : OneApart (bytes _) (bytes _) :=
      oneApart_iff.mpr ⟨_, 0, 1, [0xff], bytes_none, bytes_some, by decide⟩
    exact derive_ne_of_oneApart apart (anonymous.trans named.symm)
  · intro later libraries _
    exact derive_withFrames_later event later _

def applicationFrame : Model.Frame := { unnamed with function := some "handler", filename := some "app.py", inApp := some true }

def chained : Event :=
  { plainEvent 1 with exception := some ⟨[⟨some "ValueError", none, none, some ⟨[applicationFrame]⟩⟩,
      ⟨some "KeyError", none, none, some ⟨[applicationFrame, unnamed]⟩⟩]⟩ }

theorem derive_ignores_libraries_cause : framesOf chained 1 = some [applicationFrame, unnamed] ∧
    ((∀ libraries : List Model.Frame, (∀ g ∈ libraries, g.inApp ≠ some true) →
      derive (withFrames chained 1 (upToThrowSite [applicationFrame, unnamed] ++ libraries)) = derive chained) ↔
        1 ≠ 0) :=
  ⟨rfl, derive_ignores_libraries_iff rfl⟩

/-- A library frame on top of the application's moves an event to another group. -/
theorem derive_counts_libraries : ¬ ∀ (event : Event) (k : Nat) (frames : List Model.Frame), framesOf event k = some frames →
    (∃ f ∈ frames, f.inApp = some true) → ∀ libraries : List Model.Frame, (∀ g ∈ libraries, g.inApp ≠ some true) →
      derive (withFrames event k (upToThrowSite frames ++ libraries)) = derive event := by
  intro ignored
  have same := ignored chained 0 [applicationFrame] rfl ⟨applicationFrame, List.mem_singleton_self _, rfl⟩ [unnamed]
    (List.forall_mem_singleton.mpr nofun)
  exact absurd same (by decide +kernel)

end Errex.Proof.Fingerprint
