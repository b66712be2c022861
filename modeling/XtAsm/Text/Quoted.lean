import XtAsm.Text.Invisible
import XtAsm.Text.Utf8

/-!
# Quoted texts

A quoted text stands between double quotes.  Quotes and backslashes are escaped, control
characters and stray bytes are written in hexadecimal or by their letter, and characters without
a visible form are written by their code.
-/

namespace XtAsm.Text

/-- The character has a visible form; of the ASCII blanks only the space does. -/
def isVisible (c : Char) : Bool :=
  if c.toNat < 0x80 then 0x20 ≤ c.toNat && c.toNat < 0x7F
  else !invisibleRanges.any fun (lo, hi) => lo ≤ c.toNat && c.toNat ≤ hi

/-- The low digits of a number in lower-case hexadecimal, at a fixed width. -/
def hex (width n : Nat) : List Char :=
  match width with
  | 0 => []
  | width + 1 => hex width (n / 16) ++ [Nat.digitChar (n % 16)]

/-- The letter that names a control character after a backslash. -/
def controlLetter? (c : Char) : Option Char :=
  match c.toNat with
  | 7 => some 'a'
  | 8 => some 'b'
  | 9 => some 't'
  | 10 => some 'n'
  | 11 => some 'v'
  | 12 => some 'f'
  | 13 => some 'r'
  | _ => none

/-- A character as it stands inside quotes. -/
def quotedChar (c : Char) : List Char :=
  if c = '"' ∨ c = '\\' then ['\\', c]
  else if isVisible c then [c]
  else match controlLetter? c with
    | some letter => ['\\', letter]
    | none =>
      if c.toNat < 0x80 then '\\' :: 'x' :: hex 2 c.toNat
      else if c.toNat < 0x10000 then '\\' :: 'u' :: hex 4 c.toNat
      else '\\' :: 'U' :: hex 8 c.toNat

/-- A symbol as it stands inside quotes. -/
def quotedSymbol : Symbol → List Char
  | .char c => quotedChar c
  | .stray b => '\\' :: 'x' :: hex 2 b.toNat

/-- The text between double quotes. -/
def quoted (t : Text) : Text :=
  ofChars ('"' :: (symbols t).flatMap quotedSymbol ++ ['"'])

/-- Every byte as two lower-case hexadecimal digits. -/
def toHex (t : Text) : Text := ofChars (t.flatMap fun b => hex 2 b.toNat)

end XtAsm.Text
