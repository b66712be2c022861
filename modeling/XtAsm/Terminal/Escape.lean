import XtAsm.Text.Basic

/-!
# Terminal escapes

An escape sets the look of the text after it by a list of 64-bit numbers.  The empty escape changes
nothing.
-/

namespace XtAsm.Terminal

/-- The numbers of an escape. -/
structure Escape where
  parameters : List UInt64
  deriving DecidableEq

namespace Escape

/-- The empty escape. -/
def plain : Escape := ⟨[]⟩

/-- Back to the normal look. -/
def reset : Escape := ⟨[0]⟩

/-- Bold text. -/
def bold : Escape := ⟨[1]⟩

/-- The escape that also sets the colour of the text. -/
def colour (e : Escape) (n : UInt64) : Escape := ⟨e.parameters ++ [30 + n]⟩

/-- The characters of an escape. -/
def render (e : Escape) : Text :=
  if e.parameters = [] then []
  else "\x1b[" ++ Text.join ";" (e.parameters.map fun p => Text.ofNat p.toNat) ++ "m"

/-- A text with the look of an escape, and the normal look after it. -/
def wrap (e : Escape) (t : Text) : Text :=
  if e.parameters = [] then t else e.render ++ t ++ reset.render

@[simp] theorem wrap_plain (t : Text) : plain.wrap t = t := rfl

end Escape

/-- The number of the colour red. -/
def red : UInt64 := 1

/-- The number of the colour cyan. -/
def cyan : UInt64 := 6

end XtAsm.Terminal
