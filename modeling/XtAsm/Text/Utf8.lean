import XtAsm.Text.Basic

/-!
# Reading texts as UTF-8

Every text can be read: a byte that starts no well-formed sequence is kept as a stray byte of its
own, and reading goes on at the next byte.  Well-formed sequences are the shortest encodings of
the Unicode scalar values, so overlong forms and surrogates fall apart into stray bytes.

* `sequence?`: the well-formed sequence at the head of a text, if there is one;
* `symbols`: the characters and stray bytes of a text;
* `toChars`: the same with a replacement character for every stray byte;
* `isValid`: no stray byte occurs.
-/

namespace XtAsm.Text

/-- One symbol of a text read as UTF-8: a character, or a byte that belongs to none. -/
inductive Symbol
  | char (c : Char)
  | stray (b : UInt8)
  deriving DecidableEq

/-- The character that stands for a stray byte. -/
def replacement : Char := '\uFFFD'

/-- The character shown for a symbol. -/
def Symbol.toChar : Symbol → Char
  | .char c => c
  | .stray _ => replacement

/-- Continuation bytes, which carry six bits each. -/
def isContinuation (b : UInt8) : Bool := 0x80 ≤ b && b ≤ 0xBF

/-- The six bits of a continuation byte. -/
def payload (b : UInt8) : Nat := b.toNat - 0x80

/-- A scalar value not below a least value, as a character. -/
def scalar? (least value : Nat) : Option Char :=
  if least ≤ value ∧ value.isValidChar then some (Char.ofNat value) else none

/-- The character encoded by a leading byte and the bytes after it, with the number of those
bytes that it takes. -/
def sequence? (b : UInt8) (rest : Text) : Option (Char × Nat) :=
  if b < 0x80 then some (Char.ofNat b.toNat, 0)
  -- a continuation byte starts no character
  else if b < 0xC0 then none
  else if b < 0xE0 then
    match rest with
    | c :: _ =>
      if isContinuation c then
        (scalar? 0x80 ((b.toNat - 0xC0) * 64 + payload c)).map (·, 1)
      else none
    | _ => none
  else if b < 0xF0 then
    match rest with
    | c :: d :: _ =>
      if isContinuation c && isContinuation d then
        (scalar? 0x800 ((b.toNat - 0xE0) * 4096 + payload c * 64 + payload d)).map (·, 2)
      else none
    | _ => none
  else if b < 0xF8 then
    match rest with
    | c :: d :: e :: _ =>
      if isContinuation c && isContinuation d && isContinuation e then
        (scalar? 0x10000 ((b.toNat - 0xF0) * 262144 + payload c * 4096 + payload d * 64 +
          payload e)).map (·, 3)
      else none
    | _ => none
  else none

/-- The symbols of a text, after passing over a number of bytes that belong to the last one. -/
def symbolsFrom : Nat → Text → List Symbol
  | _, [] => []
  | n + 1, _ :: rest => symbolsFrom n rest
  | 0, b :: rest =>
    match sequence? b rest with
    | some (c, n) => .char c :: symbolsFrom n rest
    | none => .stray b :: symbolsFrom 0 rest

/-- The characters and stray bytes of a text, in order. -/
def symbols (t : Text) : List Symbol := symbolsFrom 0 t

/-- The characters of a text, with one replacement character for every stray byte. -/
def toChars (t : Text) : List Char := (symbols t).map Symbol.toChar

/-- The number of characters of a text, counting one for every stray byte. -/
def charCount (t : Text) : Nat := (symbols t).length

/-- The text is well-formed UTF-8. -/
def isValid (t : Text) : Bool :=
  (symbols t).all fun
    | .char _ => true
    | .stray _ => false

@[simp] theorem length_toChars (t : Text) : (toChars t).length = charCount t := by
  simp [toChars, charCount]

end XtAsm.Text
