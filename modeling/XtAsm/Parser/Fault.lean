import XtAsm.Node.Basic
import XtAsm.Token.Basic

/-!
# Syntactic faults

A sequence of tokens can be wrong in two ways: it stops too early, or it goes on with a token that
does not fit.  `ParseFault` names every case and `ParseFault.message` words it.
-/

namespace XtAsm

/-- The places of the grammar at which an operand stands. -/
inductive Slot
  | exitValue
  /-- The operand that an instruction changes; `word` is the instruction as written. -/
  | target (op : Mnemonic) (word : Text)
  /-- The second operand of an instruction. -/
  | source (op : Mnemonic) (word : Text)
  | rangeStart
  | rangeEnd
  | increment
  | conditionLeft
  | conditionRight
  deriving DecidableEq

namespace Slot

/-- The description of a place. -/
def render : Slot → Text
  | .exitValue => "value for EXIT instruction"
  | .target .mov word => "destination for " ++ Text.upper word ++ " instruction"
  | .target _ word => "left hand side for " ++ Text.upper word ++ " instruction"
  | .source .mov word => "source for " ++ Text.upper word ++ " instruction"
  | .source _ word => "right hand side for " ++ Text.upper word ++ " instruction"
  | .rangeStart => "start of FOR range"
  | .rangeEnd => "end of FOR range"
  | .increment => "increment for FOR statement"
  | .conditionLeft => "left hand side of condition"
  | .conditionRight => "right hand side of condition"

/-- A literal may stand at the place, since nothing is assigned to it. -/
def allowsLiteral : Slot → Bool
  | .target _ _ => false
  | _ => true

end Slot

/-- What can be wrong with a sequence of tokens.  `found` is the text of the token that does not
fit, and `word` the keyword of the statement or block concerned. -/
inductive ParseFault
  | notASection (found : Text)
  | duplicateData
  | duplicateCode
  | missingValue (name : Text)
  | invalidValue (name found : Text)
  | missingEnumName
  | invalidEnumName (found : Text)
  | missingEnumEnd (enumeration : Text)
  | invalidMember (enumeration found : Text)
  | invalidIndex (member found : Text)
  | notAnInstruction (found : Text)
  | missingEnd (word : Text)
  | missingOperand (slot : Slot)
  | invalidOperand (slot : Slot) (found : Text)
  | missingLabel
  | invalidLabel (found : Text)
  | missingSemicolon
  | invalidSemicolon (found : Text)
  | missingRangeIn
  | invalidRangeIn (found : Text)
  | missingComparison
  | invalidComparison (found : Text)
  | twoLiterals
  | missingIn (word : Text)
  | invalidConnective (word found : Text)
  deriving DecidableEq

namespace ParseFault

/-- The remark on the token that was found. -/
def foundNote (found : Text) : Text := " (found " ++ Text.apostrophes found ++ ")"

/-- The description of a fault. -/
def message : ParseFault → Text
  | .notASection found => "unexpected token " ++ Text.apostrophes found ++ " (not a valid section)"
  | .duplicateData => "duplicate #data section"
  | .duplicateCode => "duplicate #code section"
  | .missingValue name => "missing value for variable " ++ Text.apostrophes name
  | .invalidValue name found =>
    "invalid value for variable " ++ Text.apostrophes name ++ foundNote found
  | .missingEnumName => "missing name for ENUM declaration"
  | .invalidEnumName found => "invalid name for ENUM declaration" ++ foundNote found
  | .missingEnumEnd enumeration =>
    "missing END for ENUM declaration " ++ Text.apostrophes enumeration
  | .invalidMember enumeration found =>
    "invalid member for ENUM declaration " ++ Text.apostrophes enumeration ++ foundNote found
  | .invalidIndex member found =>
    "invalid index for ENUM member " ++ Text.apostrophes member ++ foundNote found
  | .notAnInstruction found =>
    "unexpected token " ++ Text.apostrophes found ++ " (not a valid instruction)"
  | .missingEnd word => "missing END for " ++ Text.upper word ++ " block"
  | .missingOperand slot => "missing " ++ slot.render
  | .invalidOperand slot found => "invalid " ++ slot.render ++ foundNote found
  | .missingLabel => "missing label for JMP instruction"
  | .invalidLabel found => "invalid label for JMP instruction" ++ foundNote found
  | .missingSemicolon => "missing ';' in FOR statement"
  | .invalidSemicolon found => "expected ';' in FOR statement" ++ foundNote found
  | .missingRangeIn => "missing IN for FOR statement"
  | .invalidRangeIn found => "expected IN for FOR statement" ++ foundNote found
  | .missingComparison => "missing comparison in condition"
  | .invalidComparison found => "invalid comparison in condition" ++ foundNote found
  | .twoLiterals => "both sides can't be values"
  | .missingIn word => "missing IN for " ++ Text.upper word ++ " statement"
  | .invalidConnective word found =>
    "unexpected token after condition in " ++ Text.upper word ++ " statement" ++ foundNote found

end ParseFault

/-- A fault of a sequence of tokens, and the first and the last token that it covers. -/
structure ParseError where
  fault : ParseFault
  first : Token
  last : Token
  deriving DecidableEq

namespace ParseError

/-- A fault of a single token. -/
def atToken (t : Token) (fault : ParseFault) : ParseError := ⟨fault, t, t⟩

/-- The fault as a syntax error. -/
def syntaxError (e : ParseError) : SyntaxError :=
  ⟨e.first.position, distance e.first.span.start e.last.span.stop, e.fault.message⟩

@[simp] theorem syntaxError_atToken (t : Token) (fault : ParseFault) :
    (atToken t fault).syntaxError = t.syntaxError fault.message := rfl

end ParseError

end XtAsm
