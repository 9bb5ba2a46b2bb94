/-!
# Input channels

An engine is not handed its source: it reads it from a channel, in pieces of
whatever size it likes. A piece is shorter than asked for only at the end, and
an empty piece is the only sign of the end.
-/

namespace Arbor

/-- The bytes of a source, served front to back. -/
structure InputChannel where
  bytes : ByteArray := .empty
  /-- How many bytes were served. -/
  position : Nat := 0
  position_le : position ≤ bytes.size := by exact Nat.zero_le _

namespace InputChannel

/-- The most bytes `readToEnd` reads at a time. -/
def chunk : Nat := 4096

/-- A channel that has served nothing of `bytes`. -/
def ofBytes (bytes : ByteArray) : InputChannel := { bytes }

/-- How many bytes are still to be served. -/
def remaining (input : InputChannel) : Nat := input.bytes.size - input.position

def isExhausted (input : InputChannel) : Bool := input.remaining == 0

/-- How many bytes a read of up to `count` serves. -/
def served (input : InputChannel) (count : Nat) : Nat := min count input.remaining

/-- The next bytes, as many as there are up to `count`. -/
def read (input : InputChannel) (count : Nat) : ByteArray × InputChannel :=
  (input.bytes.extract input.position (input.position + input.served count),
    { input with
      position := input.position + input.served count
      position_le := by
        have := input.position_le
        simp only [served, remaining]
        omega })

theorem remaining_read (input : InputChannel) (count : Nat) :
    (input.read count).2.remaining = input.remaining - input.served count := by
  simp only [read, remaining, served]
  omega

/-- Reads chunk after chunk, behind the bytes `got` so far, until a chunk is empty. -/
def drain (input : InputChannel) (got : ByteArray) : ByteArray × InputChannel :=
  if input.served chunk = 0 then (got, input)
  else (input.read chunk).2.drain (got ++ (input.read chunk).1)
termination_by input.remaining
decreasing_by
  rw [remaining_read]
  have : input.served chunk ≤ input.remaining := Nat.min_le_right _ _
  omega

/-- All bytes that were not served. -/
def readToEnd (input : InputChannel) : ByteArray × InputChannel := input.drain .empty

end InputChannel

end Arbor
