import Arbor.Build.Input

/-!
# Reading

A read serves the bytes that come next, and leaves the channel behind them
(`InputChannel.read_eq`). So does a read to the end, which serves all bytes that were not served,
however many pieces it takes (`InputChannel.readToEnd_eq`, `InputChannel.readToEnd_after`).
-/

namespace Arbor

namespace InputChannel

/-- What was served and what is still to be served are all the bytes there are. -/
theorem position_add_remaining (input : InputChannel) :
    input.position + input.remaining = input.bytes.size :=
  Nat.add_sub_of_le input.position_le

theorem isExhausted_iff {input : InputChannel} :
    input.isExhausted = true ↔ input.position = input.bytes.size := by
  rw [isExhausted, beq_iff_eq, ← position_add_remaining, Nat.left_eq_add]

theorem extract_position (input : InputChannel) :
    input.bytes.extract input.position input.position = .empty :=
  ByteArray.extract_eq_empty_iff.2 (Nat.min_le_left _ _)

/-- Draining puts all bytes to come behind those already read. -/
theorem drain_eq (input : InputChannel) (got : ByteArray) :
    (input.drain got).1 = got ++ input.bytes.extract input.position input.bytes.size := by
  fun_induction drain input got with
  | case1 input got hs =>
    -- Nothing is served only if nothing is left.
    have hend : input.bytes.size ≤ input.position := by
      simp only [served, chunk, remaining] at hs
      omega
    have hnone : input.bytes.extract input.position input.bytes.size = .empty :=
      ByteArray.extract_eq_empty_iff.2 (by omega)
    rw [hnone, ByteArray.append_empty]
  | case2 input got hs ih =>
    have hle : input.position + input.served chunk ≤ input.bytes.size := by
      have := input.position_le
      simp only [served, remaining]
      omega
    rw [ih, ByteArray.append_assoc]
    exact congrArg (got ++ ·)
      (ByteArray.extract_eq_extract_append_extract _ (Nat.le_add_right _ _) hle).symm

/-- Draining leaves the channel at the end of its bytes. -/
theorem drain_after (input : InputChannel) (got : ByteArray) :
    (input.drain got).2.bytes = input.bytes ∧
      (input.drain got).2.position = input.bytes.size := by
  fun_induction drain input got with
  | case1 input got hs =>
    have := input.position_le
    simp only [served, chunk, remaining] at hs
    exact ⟨rfl, show input.position = input.bytes.size by omega⟩
  | case2 input got hs ih => exact ih

/-- A read serves as many of the next bytes as there are. -/
theorem read_eq (input : InputChannel) (count : Nat) :
    (input.read count).1 = input.bytes.extract input.position (input.position + count) ∧
      (input.read count).2.bytes = input.bytes ∧
        (input.read count).2.position = input.position + (input.read count).1.size := by
  have := input.position_le
  simp only [read, served, remaining]
  refine ⟨?_, trivial, ?_⟩
  · rw [ByteArray.ext_iff, ByteArray.data_extract, ByteArray.data_extract,
      Array.extract_eq_extract_right, ByteArray.size_data]
    omega
  · rw [ByteArray.size_extract]
    omega

/-- A read to the end serves all bytes to come. -/
theorem readToEnd_eq (input : InputChannel) :
    input.readToEnd.1 = input.bytes.extract input.position input.bytes.size := by
  rw [readToEnd, drain_eq, ByteArray.empty_append]

theorem readToEnd_after (input : InputChannel) :
    input.readToEnd.2.bytes = input.bytes ∧
      input.readToEnd.2.position = input.position + input.readToEnd.1.size := by
  obtain ⟨hbytes, hposition⟩ := input.drain_after .empty
  refine ⟨hbytes, hposition.trans ?_⟩
  have := input.position_le
  rw [readToEnd_eq, ByteArray.size_extract]
  omega

theorem position_readToEnd (input : InputChannel) :
    input.readToEnd.2.position = input.bytes.size :=
  (input.drain_after .empty).2

theorem isExhausted_readToEnd (input : InputChannel) : input.readToEnd.2.isExhausted = true := by
  rw [isExhausted_iff, position_readToEnd, input.readToEnd_after.1]

/-- A read to the end of a new channel serves the whole source. -/
theorem readToEnd_ofBytes (source : ByteArray) : (ofBytes source).readToEnd.1 = source := by
  rw [readToEnd_eq]
  exact ByteArray.extract_zero_size

end InputChannel

end Arbor
