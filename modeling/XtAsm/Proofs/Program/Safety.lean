import XtAsm.Proofs.Grammar.Guards
import XtAsm.Proofs.Parser.Blame
import XtAsm.Proofs.Stateful.Descent
import XtAsm.Proofs.Stateful.Encoder
import XtAsm.Proofs.Stateful.Lexer
import XtAsm.Proofs.Stateful.Visitor
import XtAsm.Proofs.Terminal.Display

/-!
# No input breaks a precondition

From the bytes of a file to tokens, from tokens to a program, and from a program to its source form,
its binary form and its listing: every stage comes to an end and meets all preconditions on the way,
whatever the bytes are and whatever the stage was used for before.  So does the display of the
error that ends a stage.

* `SyntaxError.IsShowable`: an error that can be displayed at any time;
* `Source.exists_safe_run`: the stages in a row.
-/

namespace XtAsm

/-- The error of a file with the given bytes can be displayed, whatever the files hold by then.
Only a file that exceeds the capacity can make a display exceed it. -/
def SyntaxError.IsShowable (e : SyntaxError) (bytes : Text) : Prop :=
  ∀ files colour, (∃ t, Terminal.printError files e colour = .ok t) ∨
    (Terminal.printError files e colour = .error .excessiveCount ∧ capacity ≤ bytes.length)

namespace Source

variable {file bytes : Text}

/-- What lies within a file can be displayed. -/
theorem isShowable_of_within {e : SyntaxError} (h : e.Within (ofText file bytes).size) :
    e.IsShowable bytes := by
  intro files colour
  rw [Terminal.printError_eq_showError]
  have size := size_ofText_le file bytes
  refine (Terminal.showError_of_within h files colour).imp_right ?_
  exact fun ⟨failed, large⟩ => ⟨failed, by omega⟩

theorem isShowable_of_lex_error {e : Lexer.Error} (h : (ofText file bytes).lex = .error e) :
    (e.syntaxError file).IsShowable bytes :=
  isShowable_of_within (Lexer.within_of_lex_error h)

theorem isShowable_of_parse_error {ts : List Token} {e : ParseError}
    (lexed : (ofText file bytes).lex = .ok ts) (h : (Program.ofTokens ts).result = .error e) :
    e.syntaxError.IsShowable bytes := by
  have within := Lexer.within_of_lex_ok lexed
  obtain ⟨first, last⟩ := Parser.mem_of_ofTokens_error h
  exact isShowable_of_within
    (ParseError.within_syntaxError (within _ first) (within _ last))

/-- **No input breaks a precondition.**  Whatever the bytes of a file are, and whatever lexer,
parser, generator and encoder were used for before, each of them runs to its end on what the one
before it yields, and each error that ends the run can be displayed. -/
theorem exists_safe_run (file bytes : Text) (l : Lexer.Registers) (p : Parser.Registers)
    (v : Listing.Visitor) (buffer : Text) :
    ∃ l', Runs (Lexer.lex (ofText file bytes)) l
        ((ofText file bytes).lex.mapError (·.syntaxError file)) l' ∧
      match (ofText file bytes).lex with
      | .error e => (e.syntaxError file).IsShowable bytes
      | .ok ts => ∃ p', Runs (Parser.parse ts) p (Program.ofTokens ts).result p' ∧
        match (Program.ofTokens ts).result with
        | .error e => e.syntaxError.IsShowable bytes
        | .ok program => (∃ t, program.render = .ok t) ∧
          (∃ b, Runs (Wire.Encoder.encode program) buffer (Wire.encode program) b) ∧
          ∃ v', Runs (Listing.Visitor.ofProgram program) v (Listing.ofProgram program) v' := by
  obtain ⟨l', lexes, -⟩ := Lexer.exists_runs_lex l (ofText file bytes)
  refine ⟨l', lexes, ?_⟩
  cases lexed : (ofText file bytes).lex with
  | error e => exact isShowable_of_lex_error lexed
  | ok ts =>
    obtain ⟨p', parses, -⟩ := Parser.exists_runs_parse p ts
    refine ⟨p', parses, ?_⟩
    cases parsed : (Program.ofTokens ts).result with
    | error e => exact isShowable_of_parse_error lexed parsed
    | ok program =>
      exact ⟨Grammar.exists_render_of_ofTokens parsed,
        Wire.Encoder.exists_runs_encode buffer program,
        Listing.Visitor.exists_runs_ofProgram v program⟩

end Source

end XtAsm
