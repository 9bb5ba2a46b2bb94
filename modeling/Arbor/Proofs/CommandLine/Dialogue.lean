import Arbor.CommandLine
import Arbor.Proofs.Interpreter.Effect
import Arbor.Proofs.Text.Lines

/-!
# Lines that fail

A line that fails binds no name, and what it leaves in the session is reset by the next one. So
interpreters before and after it hold the same dialogue over the lines that follow
(`Interpreter.converse_of_rested`), and the dialogue without the line is the dialogue with its
answer left out (`Interpreter.converse_eraseIdx`). As the line can be taken out of the text that
the program reads, the program shows the same for all other lines, and ends in the same way
(`CommandLine.converse_dropLine`).
-/

namespace Arbor

namespace Response

/-- Only a fatal error ends a dialogue. -/
theorem isFatal_of_breach {r : Response} {e : StatementError} (h : r.breach? = some e) :
    e.isFatal = true := by
  cases r with
  | skip => cases h
  | value v => cases h
  | failure e' =>
    rw [breach?] at h
    split at h
    next hfatal =>
      cases h
      exact hfatal
    next => cases h

end Response

namespace Interpreter

variable {i j : Interpreter}

/-! ### Dialogues -/

/-- A line that is not blank is interpreted. -/
theorem respond_of_not_blank {line : String} (h : Text.isAllBlank line = false) :
    i.respond line =
      (match (i.interpret line).1 with
        | .ok v => .value v
        | .error e => .failure e,
      (i.interpret line).2) := by
  rw [respond, h, if_neg Bool.false_ne_true]
  generalize i.interpret line = answer
  obtain ⟨result, after⟩ := answer
  cases result <;> rfl

/-- A dialogue ends with a line that breaks it, and else goes on with the next line. -/
theorem converse_cons (line : String) (rest : List String) :
    i.converse (line :: rest) =
      match (i.respond line).1.breach? with
      | some e => ⟨[], some e⟩
      | none =>
        let d := (i.respond line).2.converse rest
        ⟨(i.respond line).1 :: d.responses, d.breach⟩ := rfl

/-- A line has the same response whatever the session was used for. -/
theorem respond_of_rested (h : i.rested = j.rested) (line : String) :
    (i.respond line).1 = (j.respond line).1 ∧
      (i.respond line).2.rested = (j.respond line).2.rested := by
  have hinterpret : i.interpret line = j.interpret line := by
    rw [← i.interpret_rested, h, j.interpret_rested]
  cases hb : Text.isAllBlank line with
  | true =>
    rw [respond, respond, hb, if_pos rfl, if_pos rfl]
    exact ⟨rfl, h⟩
  | false =>
    rw [respond_of_not_blank hb, respond_of_not_blank hb, hinterpret]
    exact ⟨rfl, rfl⟩

theorem converse_of_rested (h : i.rested = j.rested) (lines : List String) :
    i.converse lines = j.converse lines := by
  induction lines generalizing i j with
  | nil => rfl
  | cons line rest ih =>
    obtain ⟨hresponse, hrested⟩ := respond_of_rested h line
    rw [converse_cons, converse_cons, hresponse, ih hrested]

/-- A line that fails leaves the interpreter as it was. -/
theorem rested_respond_of_failure {line : String} {e : StatementError}
    (h : (i.respond line).1 = .failure e) : (i.respond line).2.rested = i.rested := by
  cases hb : Text.isAllBlank line with
  | true =>
    rw [respond, hb, if_pos rfl] at h
    cases h
  | false =>
    rw [respond_of_not_blank hb] at h ⊢
    cases hanswer : (i.interpret line).1 with
    | ok v =>
      rw [hanswer] at h
      cases h
    | error e' =>
      dsimp only
      rw [rested_interpret, names_of_error hanswer]

/-- Without a line that fails, a dialogue is the same but for the response to this line. -/
theorem converse_eraseIdx {lines : List String} {index : Nat} {e : StatementError}
    (h : (i.converse lines).responses[index]? = some (.failure e)) :
    i.converse (lines.eraseIdx index) =
      ⟨(i.converse lines).responses.eraseIdx index, (i.converse lines).breach⟩ := by
  induction lines generalizing i index with
  | nil => cases h
  | cons line rest ih =>
    rw [converse_cons] at h ⊢
    cases hbreach : (i.respond line).1.breach? with
    | some e' =>
      rw [hbreach] at h
      cases h
    | none =>
      rw [hbreach] at h
      dsimp only at h ⊢
      cases index with
      | zero =>
        -- The rest is answered by the interpreter that the line has left.
        have hrested := rested_respond_of_failure (Option.some.inj h)
        exact (converse_of_rested hrested rest).symm
      | succ index =>
        have hrest := ih h
        rw [List.eraseIdx_cons_succ, converse_cons, hbreach]
        dsimp only
        rw [hrest]
        rfl

/-- Only an error that is fatal ends a dialogue before its lines do. -/
theorem isFatal_of_breach {lines : List String} {e : StatementError}
    (h : (i.converse lines).breach = some e) : e.isFatal = true := by
  induction lines generalizing i with
  | nil => cases h
  | cons line rest ih =>
    rw [converse_cons] at h
    cases hbreach : (i.respond line).1.breach? with
    | some e' =>
      rw [hbreach] at h
      cases h
      exact Response.isFatal_of_breach hbreach
    | none =>
      rw [hbreach] at h
      exact ih h

end Interpreter

/-! ### Dialogues over a text -/

namespace CommandLine

namespace Outcome

variable {e : StatementError}

theorem ofStatementError_of_isFatal (h : e.isFatal = true) :
    ofStatementError e = aborted e.message := if_pos h

theorem ofStatementError_of_not_isFatal (h : e.isFatal = false) :
    ofStatementError e = failed e.message := if_neg (Bool.not_eq_true _ ▸ h)

end Outcome

/-- The lines of a text, as they are read. -/
def linesOf (text : String) : List String := (Text.lines text.toList).map String.ofList

/-- The text without one of its lines. -/
def dropLine (index : Nat) (text : String) : String :=
  String.ofList (Text.dropLine index text.toList)

theorem linesOf_dropLine (index : Nat) (text : String) :
    linesOf (dropLine index text) = (linesOf text).eraseIdx index := by
  rw [linesOf, dropLine, String.toList_ofList, Text.lines_dropLine, List.eraseIdx_eq_take_drop_succ,
    List.map_append, List.map_take, List.map_drop, ← List.eraseIdx_eq_take_drop_succ, linesOf]

/-- What is shown while lines are read and answered. -/
def shown (responses : List Response) : String :=
  String.join (responses.map fun r => prompt ++ r.text)

theorem shown_append (front back : List Response) :
    shown (front ++ back) = shown front ++ shown back := by
  rw [shown, List.map_append, String.join_append, shown, shown]

theorem shown_cons (r : Response) (rest : List Response) :
    shown (r :: rest) = prompt ++ r.text ++ shown rest := by
  rw [shown, List.map_cons, String.join_cons, shown]

/-- Each response has its place in what is shown. -/
theorem shown_of_getElem? {responses : List Response} {index : Nat} {r : Response}
    (h : responses[index]? = some r) :
    shown responses = shown (responses.take index) ++ (prompt ++ r.text) ++
      shown (responses.drop (index + 1)) := by
  obtain ⟨hlt, rfl⟩ := List.getElem?_eq_some_iff.1 h
  have hsplit := shown_append (responses.take index) (responses.drop index)
  rw [List.take_append_drop, List.drop_eq_getElem_cons hlt, shown_cons] at hsplit
  rw [hsplit, ← String.append_assoc]

/-- The dialogue over the lines of a text. -/
def dialogue (c : Config) (text : String) : Dialogue := (interpreter c).converse (linesOf text)

/-- What the program does once no line is left to answer, which is when the text has ended or a
    line has broken the build protocol. -/
def ending : Option StatementError → Outcome
  | none => { output := prompt ++ "quitting...\n" }
  | some e => { Outcome.aborted e.message with output := prompt }

/-- The program shows each response, and ends as the dialogue does. -/
theorem converse_eq (c : Config) (text : String) :
    converse c text true = { ending (dialogue c text).breach with
      output := shown (dialogue c text).responses ++ (ending (dialogue c text).breach).output } := by
  have hconverse : converse c text true =
      match (dialogue c text).breach with
      | some e => { Outcome.ofStatementError e with
          output := shown (dialogue c text).responses ++ prompt }
      | none => { output := shown (dialogue c text).responses ++ prompt ++ "quitting...\n" } := rfl
  rw [hconverse]
  cases h : (dialogue c text).breach with
  | none =>
    dsimp only [ending]
    rw [String.append_assoc]
  | some e =>
    dsimp only [ending]
    rw [Outcome.ofStatementError_of_isFatal (Interpreter.isFatal_of_breach h)]

/-- A line that fails leaves no trace. Without it, the text has the same other lines, each of them
    has the same response, and the dialogue ends in the same way: with the text, or at the same
    line with the same fault. So the program has the same status, and shows the same but for the
    error. -/
theorem converse_dropLine (c : Config) (text : String) (index : Nat) {e : StatementError}
    (h : (dialogue c text).responses[index]? = some (.failure e)) :
    let rest := dropLine index text
    let d := dialogue c text
    let d' := dialogue c rest
    let outcome := converse c text true
    let outcome' := converse c rest true
    linesOf rest = (linesOf text).eraseIdx index ∧
      d'.responses = d.responses.eraseIdx index ∧
        d'.breach = d.breach ∧
          (linesOf rest)[d'.responses.length]? = (linesOf text)[d.responses.length]? ∧
            outcome'.status = outcome.status ∧
              outcome'.errors = outcome.errors ∧
                ∃ front back,
                  outcome.output = front ++ (prompt ++ s!"error: {e.message}\n") ++ back ∧
                    outcome'.output = front ++ back := by
  intro rest d d' outcome outcome'
  have hlines : linesOf rest = (linesOf text).eraseIdx index := linesOf_dropLine index text
  have hdialogue : d' = ⟨d.responses.eraseIdx index, d.breach⟩ := by
    unfold d' dialogue
    rw [hlines]
    exact Interpreter.converse_eraseIdx h
  have hfatal : (linesOf rest)[d'.responses.length]? = (linesOf text)[d.responses.length]? := by
    have hlt : index < d.responses.length := (List.getElem?_eq_some_iff.1 h).1
    have hlength : d'.responses.length = d.responses.length - 1 := by
      rw [hdialogue, List.length_eraseIdx, if_pos hlt]
    rw [hlines, hlength, List.getElem?_eraseIdx, if_neg (by omega), Nat.sub_add_cancel (by omega)]
  have hbreach : d'.breach = d.breach := by rw [hdialogue]
  have hshown := shown_of_getElem? h
  have hshown' : shown d'.responses =
      shown (d.responses.take index) ++ shown (d.responses.drop (index + 1)) := by
    rw [hdialogue, List.eraseIdx_eq_take_drop_succ, shown_append]
  have houtcome : outcome = { ending d.breach with
      output := shown d.responses ++ (ending d.breach).output } := converse_eq c text
  have houtcome' : outcome' = { ending d.breach with
      output := shown d'.responses ++ (ending d.breach).output } :=
    hbreach ▸ converse_eq c rest
  refine ⟨hlines, by rw [hdialogue], hbreach, hfatal, by rw [houtcome, houtcome'],
    by rw [houtcome, houtcome'], shown (d.responses.take index),
    shown (d.responses.drop (index + 1)) ++ (ending d.breach).output, ?_, ?_⟩
  · rw [houtcome, ← String.append_assoc]
    exact congrArg (· ++ (ending d.breach).output) hshown
  · rw [houtcome', ← String.append_assoc]
    exact congrArg (· ++ (ending d.breach).output) hshown'

/-- The line in the middle divides by zero. What follows it reads what was bound before it. -/
theorem converse_dropLine_division :
    let text := "x = 2\n1 / 0\nx\n"
    let rest := "x = 2\nx\n"
    (dialogue {} text).responses[1]? = some (.failure (.eval .divisionByZero)) ∧
      dropLine 1 text = rest ∧
        (dialogue {} rest).responses = (dialogue {} text).responses.eraseIdx 1 ∧
          (dialogue {} rest).breach = (dialogue {} text).breach ∧
            (converse {} rest true).status = (converse {} text true).status ∧
              (converse {} rest true).output = ">> 2\n>> 2\n>> quitting...\n" := by
  intro text rest
  have hfailure : (dialogue {} text).responses[1]? = some (.failure (.eval .divisionByZero)) := by
    decide +kernel
  have hrest : dropLine 1 text = rest := by decide +kernel
  obtain ⟨-, hresponses, hbreach, -, hstatus, -⟩ := converse_dropLine {} text 1 hfailure
  rw [hrest] at hresponses hbreach hstatus
  exact ⟨hfailure, hrest, hresponses, hbreach, hstatus, by decide +kernel⟩

end CommandLine

end Arbor
