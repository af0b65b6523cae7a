import Errex.Model.Spa.QueryParser

/-!
# The coloured overlay of the input

The segments that `UnifiedInput.svelte` builds from the spans of the tokens, one behind the other, to mirror the text of
the input.
-/

namespace Errex.Model.Spa
open Foundation Utf16

def tokenColorClass (t : Token) : String :=
  match t.kind with
  | .level _ => "text-rose-400"
  | .status _ => "text-emerald-400"
  | .time _ => "text-foreground font-semibold"
  | .keyword _ => "text-amber-400"
  | .sort _ => "text-fuchsia-400"
  | .limit _ => "text-fuchsia-300 italic"
  | .filler => "text-muted-foreground/40 italic"
  | .op _ => "text-muted-foreground italic"
  | .neg => "text-amber-400"
  | .text _ _ => "text-sky-400"
  | .tag _ _ => "text-cyan-400"
  | .url _ _ => "text-teal-400"
  | .saved _ => "text-violet-400"
  | .save _ => "text-violet-300 italic"
  | .forget _ => "text-rose-300 italic"
  | .word _ => "text-muted-foreground"

structure Segment where
  text : Utf16
  cls : Option String

def slice (s : Utf16) (start stop : Nat) : Utf16 := (s.drop start).take (stop - start)

def segmentsFrom (value : Utf16) (pos : Nat) : List Token → List Segment
  | [] => if pos < value.length then [⟨value.drop pos, none⟩] else []
  | t :: tokens =>
      (if pos < t.span.1 then [⟨slice value pos t.span.1, none⟩] else []) ++
        ⟨slice value t.span.1 t.span.2, some (tokenColorClass t)⟩ :: segmentsFrom value t.span.2 tokens

def segments (value : Utf16) : List Segment := segmentsFrom value 0 (tokenize value)

end Errex.Model.Spa
