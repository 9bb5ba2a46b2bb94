import Arbor.Proofs.CommandLine.Dialogue

/-!
# The modes of the program

The program prints the tree of a source, or evaluates the source, or reads it line by line, as its
arguments ask for (`CommandLine.run_of_source`, `CommandLine.run_of_repl`). Each mode parses the
source by itself, and they agree on what comes of it (`CommandLine.modes_agree`):

* if the build protocol is broken, the status is 2 in all modes;
* if the source is ill-formed, printing and evaluating have status 1;
* if it has a tree without a value, the tree is printed, and evaluating has status 1;
* a dialogue over one line shows the value or the error that evaluating shows, and ends with
  status 0 unless the build protocol is broken.
-/

namespace Arbor

namespace CommandLine

variable {c : Config} {source : String}

/-! ### Starting -/

section

variable {arguments : List String} {a : Arguments} {input : ByteArray} {d : Directory}

/-- The source that arguments name is printed, or evaluated if they ask for that. -/
theorem run_of_source (hread : Arguments.read arguments = .ok a)
    (hload : Config.load d a.layers = .ok c) (hrepl : a.repl = false)
    (hsource : CommandLine.source a.path input d = .ok source) :
    run arguments input d = if a.eval then eval c source else print c source := by
  rw [run, hread]
  dsimp only
  rw [perform, hload]
  dsimp only
  rw [hrepl, hsource]
  rfl

/-- A dialogue is held over the text of the input. -/
theorem run_of_repl (hread : Arguments.read arguments = .ok a)
    (hload : Config.load d a.layers = .ok c) (hrepl : a.repl = true) :
    run arguments source.toUTF8 d = converse c source true := by
  have hreadable : Text.readable source.toUTF8 = (source, true) := by
    rw [Text.readable, fromUTF8?_eq_some_iff.2 rfl]
  rw [run, hread]
  dsimp only
  rw [perform, hload]
  dsimp only
  rw [hrepl, hreadable]
  rfl

end

set_option maxRecDepth 4000 in
/-- The configuration without layers is the default one. -/
theorem load_nil (d : Directory) : Config.load d [] = .ok {} := rfl

/-! ### Printing and evaluating -/

/-- What the source is parsed to. -/
def parsed (c : Config) (source : String) : Except ParseError ParseTree :=
  ((Session.new c.limits).parse (.ofGrammar c.bounds) source.toUTF8).result

/-- What the source is evaluated to. -/
def answer (c : Config) (source : String) : Except StatementError Value :=
  ((interpreter c).interpret source).1

theorem answer_of_error {e : ParseError} (h : parsed c source = .error e) :
    answer c source = .error (.parse e) :=
  ((interpreter c).interpret_of_error source h).1

theorem answer_of_ok {tree : ParseTree} (h : parsed c source = .ok tree) :
    answer c source = (tree.evaluate {}).1.mapError .eval :=
  ((interpreter c).interpret_of_ok source h).1

theorem status_ofStatementError (e : StatementError) :
    (Outcome.ofStatementError e).status = if e.isFatal then 2 else 1 := by
  rw [Outcome.ofStatementError]
  split <;> rfl

theorem print_eq (c : Config) (source : String) :
    print c source =
      match parsed c source with
      | .ok tree => { output := tree.render c.format c.showValues }
      | .error e => .ofStatementError (.parse e) := rfl

theorem eval_eq (c : Config) (source : String) :
    eval c source =
      match answer c source with
      | .ok v => { output := v.text ++ "\n" }
      | .error e => .ofStatementError e := rfl

/-- Printing has the status of the parse. -/
theorem status_print (c : Config) (source : String) :
    ((print c source).status = 0 ↔ ∃ tree, parsed c source = .ok tree) ∧
      ((print c source).status = 1 ↔ parsed c source = .error .syntaxError) ∧
      ((print c source).status = 2 ↔ ∃ v, parsed c source = .error (.contract v)) := by
  rw [print_eq]
  cases parsed c source with
  | ok tree => simp
  | error e =>
    dsimp only
    rw [status_ofStatementError]
    cases e <;> simp [StatementError.isFatal, ParseError.isFatal]

/-- Evaluating has the status of the parse, unless a tree has no value. -/
theorem status_eval (c : Config) (source : String) :
    ((eval c source).status = 0 ↔
        ∃ tree, parsed c source = .ok tree ∧ ∃ v, (tree.evaluate {}).1 = .ok v) ∧
      ((eval c source).status = 1 ↔ parsed c source = .error .syntaxError ∨
        ∃ tree, parsed c source = .ok tree ∧ ∃ e, (tree.evaluate {}).1 = .error e) ∧
      ((eval c source).status = 2 ↔ ∃ v, parsed c source = .error (.contract v)) := by
  rw [eval_eq]
  cases h : parsed c source with
  | ok tree =>
    rw [answer_of_ok h]
    cases htree : (tree.evaluate {}).1 with
    | ok v => simp [htree, Except.mapError]
    | error e =>
      have hstatus := status_ofStatementError (.eval e)
      simp [htree, Except.mapError, hstatus, StatementError.isFatal]
  | error e =>
    rw [answer_of_error h]
    dsimp only
    rw [status_ofStatementError]
    cases e <;> simp [StatementError.isFatal, ParseError.isFatal]

/-! ### A dialogue over one line -/

/-- In a dialogue, a line has the value that its evaluation has, or fails with the same error, or
    breaks the build protocol in the same way. -/
theorem dialogue_cases (hline : '\n' ∉ source.toList.dropLast)
    (hblank : Text.isAllBlank source = false) :
    (∃ v, dialogue c source = ⟨[.value v], none⟩ ∧ eval c source = { output := v.text ++ "\n" }) ∨
      (∃ e, dialogue c source = ⟨[.failure e], none⟩ ∧ eval c source = .failed e.message) ∨
        ∃ e, dialogue c source = ⟨[], some e⟩ ∧ eval c source = .aborted e.message := by
  have hne : source.toList ≠ [] := by
    intro h
    rw [Text.isAllBlank, h] at hblank
    cases hblank
  have hlines : linesOf source = [source] := by
    rw [linesOf, Text.IsLine.lines_eq ⟨hne, hline⟩, List.map_singleton, String.ofList_toList]
  rw [dialogue, hlines, Interpreter.converse_cons, Interpreter.respond_of_not_blank hblank, eval_eq,
    answer]
  cases ((interpreter c).interpret source).1 with
  | ok v => exact .inl ⟨v, rfl, rfl⟩
  | error e =>
    dsimp only [Response.breach?]
    cases h : e.isFatal with
    | false => exact .inr (.inl ⟨e, rfl, Outcome.ofStatementError_of_not_isFatal h⟩)
    | true => exact .inr (.inr ⟨e, rfl, Outcome.ofStatementError_of_isFatal h⟩)

theorem shown_nil : shown [] = "" := rfl

theorem shown_singleton (r : Response) : shown [r] = prompt ++ r.text := by
  rw [shown_cons, shown_nil, String.append_empty]

/-- What a dialogue over one line shows is what the evaluation of the line shows. It goes on and
    ends well unless the build protocol is broken. -/
theorem converse_of_isLine (hline : '\n' ∉ source.toList.dropLast)
    (hblank : Text.isAllBlank source = false) :
    let evaluated := eval c source
    let conversed := converse c source true
    let responses := (dialogue c source).responses
    (conversed.status = 2 ↔ evaluated.status = 2) ∧
      (conversed.status = 2 → conversed = { evaluated with output := prompt }) ∧
      (conversed.status ≠ 2 → conversed =
        { output := prompt ++ (evaluated.output ++ evaluated.errors) ++
            (prompt ++ "quitting...\n") }) ∧
      (evaluated.status = 0 ↔ ∃ v, responses = [.value v]) ∧
      (evaluated.status = 1 ↔ ∃ e, responses = [.failure e]) ∧
      ∀ r ∈ responses, evaluated.output ++ evaluated.errors = r.text := by
  dsimp only
  rw [converse_eq]
  rcases dialogue_cases (c := c) hline hblank with ⟨v, hd, he⟩ | ⟨e, hd, he⟩ | ⟨e, hd, he⟩
  · rw [hd, he, shown_singleton]
    simp [ending, Response.text]
  · rw [hd, he, shown_singleton]
    simp [ending, Response.text, Outcome.failed]
  · rw [hd, he, shown_nil]
    simp [ending, Outcome.aborted]

/-- The modes agree on every source. The arguments that the program is started with choose the mode,
    the configuration and the source.

    If the build protocol is broken, then printing and evaluating
    have status 2, and status 1 if the source is ill-formed. Else printing has status 0, and
    evaluating has status 0 if the tree has a value and 1 if it has none.

    A dialogue over a source that is one line, and not blank, has status 2 in the same case, with
    the same fault and without having ended. Else it has status 0, and shows the value or the error
    that evaluating shows. -/
theorem modes_agree (c : Config) (source : String) :
    let printed := print c source
    let evaluated := eval c source
    let conversed := converse c source true
    let responses := (dialogue c source).responses
    (∀ (arguments : List String) (a : Arguments) (input : ByteArray) (d : Directory),
        Arguments.read arguments = .ok a → Config.load d a.layers = .ok c →
          (a.repl = false → CommandLine.source a.path input d = .ok source →
            run arguments input d = if a.eval then evaluated else printed) ∧
          (a.repl = true → input = source.toUTF8 → run arguments input d = conversed)) ∧
      (printed.status = 0 ↔ ∃ tree, parsed c source = .ok tree) ∧
      (printed.status = 1 ↔ parsed c source = .error .syntaxError) ∧
      (printed.status = 2 ↔ ∃ v, parsed c source = .error (.contract v)) ∧
      (evaluated.status = 0 ↔
        ∃ tree, parsed c source = .ok tree ∧ ∃ v, (tree.evaluate {}).1 = .ok v) ∧
      (evaluated.status = 1 ↔ parsed c source = .error .syntaxError ∨
        ∃ tree, parsed c source = .ok tree ∧ ∃ e, (tree.evaluate {}).1 = .error e) ∧
      (evaluated.status = 2 ↔ ∃ v, parsed c source = .error (.contract v)) ∧
      ('\n' ∉ source.toList.dropLast → Text.isAllBlank source = false →
        (conversed.status = 2 ↔ ∃ v, parsed c source = .error (.contract v)) ∧
        (conversed.status = 2 → conversed = { evaluated with output := prompt }) ∧
        (conversed.status ≠ 2 → conversed =
          { output := prompt ++ (evaluated.output ++ evaluated.errors) ++
              (prompt ++ "quitting...\n") }) ∧
        (evaluated.status = 0 ↔ ∃ v, responses = [.value v]) ∧
        (evaluated.status = 1 ↔ ∃ e, responses = [.failure e]) ∧
        ∀ r ∈ responses, evaluated.output ++ evaluated.errors = r.text) := by
  intro printed evaluated conversed responses
  obtain ⟨hprint, hprint', hprint''⟩ := status_print c source
  obtain ⟨heval, heval', heval''⟩ := status_eval c source
  refine ⟨fun arguments a input d hread hload => ⟨run_of_source hread hload, ?_⟩, hprint, hprint',
    hprint'', heval, heval', heval'', fun hline hblank => ?_⟩
  · rintro hrepl rfl
    exact run_of_repl hread hload hrepl
  obtain ⟨hstatus, hrest⟩ := converse_of_isLine (c := c) hline hblank
  exact ⟨hstatus.trans heval'', hrest⟩

/-- The source has a tree and no value. -/
theorem modes_agree_division :
    let source := "1 / 0\n"
    '\n' ∉ source.toList.dropLast ∧ Text.isAllBlank source = false ∧
      run ["--eval"] source.toUTF8 {} = eval {} source ∧
      run ["--repl"] source.toUTF8 {} = converse {} source true ∧
      (print {} source).status = 0 ∧
        (eval {} source).status = 1 ∧
          (dialogue {} source).responses = [.failure (.eval .divisionByZero)] ∧
            (eval {} source).errors = "error: division by zero\n" ∧
              converse {} source true = { output :=
                prompt ++ ((eval {} source).output ++ (eval {} source).errors) ++
                  (prompt ++ "quitting...\n") } := by
  intro source
  have hline : '\n' ∉ source.toList.dropLast := by decide
  have hblank : Text.isAllBlank source = false := by decide
  have hresponses : (dialogue {} source).responses = [.failure (.eval .divisionByZero)] := by
    decide +kernel
  have hsource : CommandLine.source none source.toUTF8 {} = .ok source := by
    rw [CommandLine.source, Directory.decode, fromUTF8?_eq_some_iff.2 rfl]
  obtain ⟨hstart, -, -, -, -, -, -, hdialogue⟩ := modes_agree {} source
  obtain ⟨hevaluates, -⟩ := hstart ["--eval"] { eval := true } source.toUTF8 {} rfl (load_nil _)
  obtain ⟨-, hconverses⟩ := hstart ["--repl"] { repl := true } source.toUTF8 {} rfl (load_nil _)
  obtain ⟨-, -, hgoes, -, hfails, -⟩ := hdialogue hline hblank
  exact ⟨hline, hblank, hevaluates rfl hsource, hconverses rfl rfl, by decide +kernel,
    hfails.2 ⟨_, hresponses⟩, hresponses, by decide +kernel, hgoes (by decide +kernel)⟩

end CommandLine

end Arbor
