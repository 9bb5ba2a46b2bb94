import Arbor.Engine

/-!
# Engines that put the protocol to the test

A rehearsal makes given calls and may at any place finish with a violation that
no call ran into. One that `carriesOn` pays no heed to refusals, which a well-behaved
engine passes on at once. Its log has an entry per step taken.
-/

namespace Arbor

namespace Rehearsal

/-- A step of a rehearsal. -/
inductive Step
  | call (c : Call)
  /-- Finishes with this violation. -/
  | fail (v : Violation)
  deriving DecidableEq

/-- The engine that takes the steps. -/
def engine (carriesOn : Bool) : List Step → Engine
  | [] => .finish none
  | .fail v :: _ => .finish (some v)
  | .call c :: rest =>
    .call c fun reply =>
      match reply.answer with
      | .refused v => if carriesOn then engine carriesOn rest else .finish (some v)
      | _ => engine carriesOn rest

/-- How things stood after a step. A step that fails makes no call and has no answer. -/
structure Entry where
  answer : Option Answer
  depth : Nat
  failed : Bool

namespace Entry

/-- The entry of an exchange. -/
def ofExchange (x : Exchange) : Entry := ⟨some x.reply.answer, x.reply.depth, x.reply.failed⟩

end Entry

/-- The log of the steps, by the exchanges of their run. A step that fails leaves
    things as the entry before it says; `last` is that entry. -/
def logFrom (last : Entry) : List Step → List Exchange → List Entry
  | .call _ :: steps, x :: exchanges =>
    .ofExchange x :: logFrom (.ofExchange x) steps exchanges
  | .fail _ :: _, [] => [{ last with answer := none }]
  | _, _ => []

/-- Whether the run got through the calls before the first step that fails. -/
def reachesEnd (carriesOn : Bool) (exchanges : List Exchange) : Bool :=
  carriesOn || exchanges.all fun x =>
    match x.reply.answer with
    | .refused _ => false
    | _ => true

/-- The log of a run of the rehearsal. -/
def log (carriesOn : Bool) (steps : List Step) (exchanges : List Exchange) : List Entry :=
  logFrom ⟨none, 0, false⟩ (if reachesEnd carriesOn exchanges then steps else
    steps.take exchanges.length) exchanges

end Rehearsal

end Arbor
