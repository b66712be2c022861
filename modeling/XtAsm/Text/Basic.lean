/-!
# Texts

Names, literals and messages are sequences of bytes.  Most are UTF-8, but nothing forces them to
be: a tree read from its binary form may hold any bytes at all.

* `Text`, the type, with a coercion from string literals;
* `ofNat`, `ofInt`: decimal numerals;
* `splitOn`, `join`, `upper`: cutting at a byte, joining with a separator, ASCII upper case.
-/

namespace XtAsm

/-- A sequence of bytes, which need not be valid UTF-8. -/
abbrev Text := List UInt8

namespace Text

/-- The UTF-8 encoding of a sequence of characters. -/
def ofChars (cs : List Char) : Text := cs.flatMap String.utf8EncodeChar

@[simp] theorem ofChars_nil : ofChars [] = [] := rfl

@[simp] theorem ofChars_cons (c : Char) (cs : List Char) :
    ofChars (c :: cs) = String.utf8EncodeChar c ++ ofChars cs := rfl

@[simp] theorem ofChars_append (cs ds : List Char) :
    ofChars (cs ++ ds) = ofChars cs ++ ofChars ds := by
  simp [ofChars]

/-- The UTF-8 encoding of a string. -/
def ofString (s : String) : Text := ofChars s.toList

instance : Coe String Text := ⟨ofString⟩

/-- The line feed byte. -/
def newline : UInt8 := 10

/-- The decimal numeral of a natural number. -/
def ofNat (n : Nat) : Text := ofChars (Nat.toDigits 10 n)

/-- The decimal numeral of an integer, with a leading minus sign when it is negative. -/
def ofInt : Int → Text
  | .ofNat n => ofNat n
  | .negSucc n => ofString "-" ++ ofNat (n + 1)

/-- Each ASCII lower-case letter replaced by its upper-case form. -/
def upper (t : Text) : Text :=
  t.map fun b => if 97 ≤ b ∧ b ≤ 122 then b - 32 else b

/-- The pieces between the occurrences of a byte; there is always at least one. -/
def splitOn (sep : UInt8) : Text → List Text
  | [] => [[]]
  | b :: rest =>
    if b = sep then [] :: splitOn sep rest
    else match splitOn sep rest with
      | [] => [[b]]
      | piece :: pieces => (b :: piece) :: pieces

/-- The pieces in order, with a separator between neighbours. -/
def join (sep : Text) : List Text → Text
  | [] => []
  | [t] => t
  | t :: ts => t ++ sep ++ join sep ts

@[simp] theorem join_nil (sep : Text) : join sep [] = [] := rfl

@[simp] theorem join_singleton (sep t : Text) : join sep [t] = t := rfl

theorem splitOn_ne_nil (sep : UInt8) (t : Text) : splitOn sep t ≠ [] := by
  cases t with
  | nil => simp [splitOn]
  | cons b rest =>
    simp only [splitOn]
    split
    · simp
    · split <;> simp

@[simp] theorem join_cons_cons (sep t u : Text) (ts : List Text) :
    join sep (t :: u :: ts) = t ++ sep ++ join sep (u :: ts) := rfl

/-- Putting the separators back restores the text. -/
theorem join_splitOn (sep : UInt8) (t : Text) : join [sep] (splitOn sep t) = t := by
  induction t with
  | nil => rfl
  | cons b rest ih =>
    cases h : splitOn sep rest with
    | nil => exact absurd h (splitOn_ne_nil sep rest)
    | cons piece pieces =>
      rw [h] at ih
      simp only [splitOn, h]
      split
      · next hb => simp [hb, ih]
      · cases pieces with
        | nil => simpa using ih
        | cons next more => simpa using ih

/-- The text between single quotes. -/
def apostrophes (t : Text) : Text := ofString "'" ++ t ++ ofString "'"

/-- The given number of spaces. -/
def spaces (n : Nat) : Text := List.replicate n 32

end Text

end XtAsm
