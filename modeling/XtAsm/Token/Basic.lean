import XtAsm.Source.Position
import XtAsm.Text.Quoted
import XtAsm.Token.Kind

/-!
# Tokens

A token is a lexeme together with the place at which it stands.
-/

namespace XtAsm

/-- A lexeme and its place.  The text of a variable, register or label lacks the leading sign,
which its span still covers. -/
structure Token where
  kind : Kind
  text : Text
  position : Position
  span : Span
  deriving DecidableEq

namespace Token

/-- A syntax error that covers the token. -/
def syntaxError (t : Token) (message : Text) : SyntaxError :=
  ⟨t.position, t.span.length, message⟩

/-- Class, quoted text and position. -/
def render (t : Token) : Except Fault Text := do
  return (← t.kind.render) ++ "(" ++ t.text.quoted ++ ")@" ++ t.position.render

end Token

end XtAsm
