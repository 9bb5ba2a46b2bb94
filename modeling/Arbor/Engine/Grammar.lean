import Arbor.Grammar.Recognition
import Arbor.Token.Scan

/-!
# The engine of the expression grammar

The engine reads all of the source, and then makes the calls that recognition
gives. A source that is not UTF-8, or not made of tokens, is ill-formed like one
whose tokens are no program.
-/

namespace Arbor

/-- The calls for a source. -/
def Script.ofSource (b : Bounds) (source : ByteArray) : Script :=
  match String.fromUTF8? source with
  | none => [.setError]
  | some text =>
    match Token.scan text with
    | .error _ => [.setError]
    | .ok tokens => .ofTokens b tokens

/-- Recognises the programs of the expression grammar. -/
def Engine.ofGrammar (b : Bounds) : Engine :=
  .call .readToEnd fun reply =>
    match reply.answer with
    | .served source => .ofScript (.ofSource b source)
    | _ => .finish none

end Arbor
