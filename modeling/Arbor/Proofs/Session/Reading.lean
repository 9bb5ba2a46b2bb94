import Arbor.Engine.Script
import Arbor.Proofs.Session.Failure

/-!
# What engines are served

Whatever an engine calls, each call is served the bytes of the source between where the channel
stood before and where it stands afterwards (`Workspace.Step.bytes_eq`). In the order of the calls,
these pieces make up the bytes between the first place and the last, without a gap and without an
overlap (`Workspace.bytes_exchanges`). So a channel that is fed a source loses nothing and repeats
nothing (`Workspace.serves_source`).
-/

namespace Arbor

/-- The bytes that an answer serves. -/
def Answer.bytes : Answer → ByteArray
  | served bytes => bytes
  | _ => .empty

/-- The bytes that the exchanges have served, in order. -/
def Exchange.bytes : List Exchange → ByteArray
  | [] => .empty
  | x :: exchanges => x.reply.answer.bytes ++ bytes exchanges

namespace Workspace

variable {w w' : Workspace} {c : Call} {a : Answer}

/-- A call is served the bytes between the two places of the channel. -/
theorem Step.bytes_eq (h : Step w c a w') :
    a.bytes = w.input.bytes.extract w.input.position w'.input.position := by
  cases h with
  | read => rfl
  | readToEnd =>
    rw [w.input.position_readToEnd]
    exact w.input.readToEnd_eq
  | _ => exact w.input.extract_position.symm

/-- The pieces that are served make up the bytes between the two places of the channel. -/
theorem bytes_exchanges (w : Workspace) (calls : List Call) :
    Exchange.bytes (w.exchanges calls) =
      w.input.bytes.extract w.input.position (w.after calls).input.position := by
  induction calls generalizing w with
  | nil => exact w.input.extract_position.symm
  | cons c calls ih =>
    have hstep := w.step_answer c
    obtain ⟨hbytes, hposition⟩ := hstep.input_eq
    obtain ⟨-, hlater⟩ := (w.reply c).2.input_after calls
    have hfirst : w.input.position ≤ (w.reply c).2.input.position :=
      Nat.le_trans (Nat.le_add_right _ _) (Nat.le_of_eq hposition.symm)
    have hlast : (w.reply c).2.input.position ≤ (w.after (c :: calls)).input.position :=
      Nat.le_trans (Nat.le_add_right _ _) (Nat.le_of_eq hlater.symm)
    calc Exchange.bytes (w.exchanges (c :: calls))
        = (w.answer c).1.bytes ++ Exchange.bytes ((w.reply c).2.exchanges calls) := rfl
      _ = w.input.bytes.extract w.input.position (w.reply c).2.input.position ++
            w.input.bytes.extract (w.reply c).2.input.position
              (w.after (c :: calls)).input.position := by
          rw [hstep.bytes_eq, ih]
          exact congrArg (_ ++ ByteArray.extract · _ _) hbytes
      _ = _ := (ByteArray.extract_eq_extract_append_extract _ hfirst hlast).symm

/-- Nothing is served any more if and only if the channel is at its end. -/
theorem isExhausted_iff_bytes_exchanges :
    w.input.isExhausted = true ↔
      ∀ calls, Exchange.bytes (w.exchanges calls) = .empty := by
  rw [InputChannel.isExhausted_iff]
  constructor
  · intro hend calls
    rw [bytes_exchanges, ByteArray.extract_eq_empty_iff, hend]
    exact Nat.min_le_right _ _
  · intro hnone
    -- To read to the end would serve what is left.
    have hrest := hnone [.readToEnd]
    have hend : (w.after [.readToEnd]).input.position = w.input.bytes.size :=
      w.input.position_readToEnd
    rw [bytes_exchanges, hend, ByteArray.extract_eq_empty_iff, Nat.min_self] at hrest
    exact Nat.le_antisymm w.input.position_le hrest

/-- A channel loses nothing and repeats nothing.

    Let a workspace be fed a source, and then take any calls. The pieces that were served make up
    the source up to the position of the channel, and the rest of it is what remains. A read serves
    the bytes that come next, as many as it asks for or as many as there are. A read to the end
    serves the rest and exhausts the channel. The channel is exhausted exactly if no calls to come
    are served anything.

    Hence what a script remembers of its last run in a session is the source of that run. -/
theorem serves_source (w : Workspace) (source : ByteArray) (calls : List Call) :
    let fed := { w with input := .ofBytes source }
    let now := fed.after calls
    let position := now.input.position
    let remaining := now.input.remaining
    Exchange.bytes (fed.exchanges calls) = source.extract 0 position ∧
      position + remaining = source.size ∧
        (∀ count, (now.reply (.read count)).1.answer =
              .served (source.extract position (position + count)) ∧
            (source.extract position (position + count)).size = min count remaining) ∧
          ((now.reply .readToEnd).1.answer = .served (source.extract position source.size) ∧
            (now.reply .readToEnd).2.input.isExhausted = true) ∧
            (now.input.isExhausted = true ↔
              ∀ more, Exchange.bytes (now.exchanges more) = .empty) ∧
              ∀ (limits : Limits) (uses : List Session.Use) (r : Replay),
                let outcome := ((Session.new limits).after uses).parse r.engine source
                (r.after outcome.exchanges).consumed = source := by
  intro fed now position remaining
  obtain ⟨hbytes, -⟩ := fed.input_after calls
  have hsource : now.input.bytes = source := hbytes
  have hsize : position + remaining = source.size := by
    rw [← hsource]
    exact now.input.position_add_remaining
  refine ⟨fed.bytes_exchanges calls, hsize, fun count => ⟨?_, ?_⟩, ⟨?_, ?_⟩,
    isExhausted_iff_bytes_exchanges, fun limits uses r => ?_⟩
  · rw [← hsource]
    exact congrArg Answer.served (now.input.read_eq count).1
  · rw [ByteArray.size_extract]
    omega
  · rw [← hsource]
    exact congrArg Answer.served now.input.readToEnd_eq
  · exact now.input.isExhausted_readToEnd
  · intro outcome
    obtain ⟨-, -, hexchanges⟩ := Session.parse_after limits uses r.engine source
    rw [hexchanges, Replay.engine, Engine.replay, Engine.run_call]
    exact InputChannel.readToEnd_ofBytes source

end Workspace

end Arbor
