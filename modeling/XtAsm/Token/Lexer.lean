import XtAsm.Scanner
import XtAsm.Source.File
import XtAsm.Token.Basic

/-!
# Reading tokens

Reading goes from left to right.  At every place the next character decides what stands there: a
blank, a line break, a comment, a lexeme of some class, or nothing that the language knows.

* `LexFault`: what can be wrong with a lexeme;
* `Item`, `itemAt`: what stands at the head of the remaining characters;
* `tokensFrom`, `Source.tokens`: the tokens up to the first fault.
-/

namespace XtAsm

/-- What can be wrong with a lexeme. -/
inductive LexFault
  | unknownSection (name : Text)
  | missingName (sign : Char)
  | unfinishedEquals
  | unfinishedNotEquals
  | unfinishedAnd
  | unfinishedOr
  | unfinishedComment
  | unknownCharacter (c : Char)
  deriving DecidableEq

/-- The description of a fault. -/
def LexFault.message : LexFault → Text
  | .unknownSection name => "unknown section " ++ Text.apostrophes name
  | .missingName sign => "missing name after " ++ Text.apostrophes (Text.ofChars [sign])
  | .unfinishedEquals => "unterminated boolean equals"
  | .unfinishedNotEquals => "unterminated boolean not-equals"
  | .unfinishedAnd => "unterminated boolean and"
  | .unfinishedOr => "unterminated boolean or"
  | .unfinishedComment => "unterminated comment prefix"
  | .unknownCharacter c => "unknown character " ++ Text.apostrophes (Text.ofChars [c])

namespace Lexer

/-! ### Character classes -/

/-- An ASCII letter. -/
def letter : Scanner := .firstOf [.within 'a' 'z', .within 'A' 'Z']

/-- A decimal digit. -/
def digit : Scanner := .within '0' '9'

/-- What can follow the first character of an identifier. -/
def identifierRest : Scanner := .many (.firstOf [letter, digit, .word ['_'], .word ['.']])

/-- What can follow the first digit of a number. -/
def numberRest : Scanner := .many (.firstOf [digit, .word ['.']])

/-- The head of a section runs up to the next blank or line break. -/
def sectionRest : Scanner := .many (.noneOf [' ', '\t', '\r', '\n'])

/-- A register or label runs up to the next blank, line break or semicolon. -/
def nameRest : Scanner := .many (.noneOf [' ', '\t', '\r', '\n', ';'])

/-- A comment runs up to the end of its line. -/
def commentRest : Scanner := .upTo '\n'

/-! ### Items -/

/-- What stands at the head of the remaining characters.  Each `extra` counts the characters after
the first one. -/
inductive Item
  | blank
  | lineBreak
  | comment (extra : Nat)
  | lexeme (kind : Kind) (text : Text) (extra : Nat)
  | fault (fault : LexFault) (extra : Nat)
  deriving DecidableEq

/-- A name after a sign that is not part of its text. -/
def signed (kind : Kind) (sign : Char) (name : List Char) : Item :=
  if name = [] then .fault (.missingName sign) 0
  else .lexeme kind (Text.ofChars name) name.length

/-- A section head, given the characters after its sign. -/
def sectionHead (name : List Char) : Item :=
  if name = "code".toList then .lexeme .code "#code" name.length
  else if name = "data".toList then .lexeme .data "#data" name.length
  else .fault (.unknownSection (Text.ofChars name)) name.length

/-- A word or a variable, given its first character and the characters after it. -/
def identifier (c : Char) (rest : List Char) : Item :=
  match Keyword.ofChars? (c :: rest) with
  | some w => .lexeme (.word w) (Text.ofChars (c :: rest)) rest.length
  | none =>
    if c = '.' then signed .var c rest
    else .lexeme .name (Text.ofChars (c :: rest)) rest.length

/-- An operator whose second character is compulsory. -/
def pair (first second : Char) (kind : Kind) (fault : LexFault) : List Char → Item
  | c :: _ =>
    if c = second then .lexeme kind (Text.ofChars [first, second]) 1 else .fault fault 0
  | [] => .fault fault 0

/-- An operator that an equals sign extends. -/
def orEqual (first : Char) (strict wide : Relation) : List Char → Item
  | c :: _ =>
    if c = '=' then .lexeme (.compare wide) (Text.ofChars [first, '=']) 1
    else .lexeme (.compare strict) (Text.ofChars [first]) 0
  | [] => .lexeme (.compare strict) (Text.ofChars [first]) 0

/-- A comment, given the characters after its first dash. -/
def comment (rest : List Char) : Item :=
  match rest with
  | '-' :: _ => .comment (commentRest.run rest)
  | _ => .fault .unfinishedComment 0

/-- What stands at the head of the characters `c :: rest`. -/
def itemAt (c : Char) (rest : List Char) : Item :=
  match c with
  | ' ' | '\t' | '\r' => .blank
  | '\n' => .lineBreak
  | '#' => sectionHead (rest.take (sectionRest.run rest))
  | '$' => signed .reg c (rest.take (nameRest.run rest))
  | ':' => signed .label c (rest.take (nameRest.run rest))
  | '?' => .lexeme .query "?" 0
  | ';' => .lexeme .semicolon ";" 0
  | '=' => pair '=' '=' (.compare .eq) .unfinishedEquals rest
  | '!' => pair '!' '=' (.compare .ne) .unfinishedNotEquals rest
  | '&' => pair '&' '&' (.connect .and_) .unfinishedAnd rest
  | '|' => pair '|' '|' (.connect .or_) .unfinishedOr rest
  | '<' => orEqual '<' .lt .le rest
  | '>' => orEqual '>' .gt .ge rest
  | '-' => comment rest
  | _ =>
    -- a dot starts a variable, a letter a name or a reserved word
    if c = '.' ∨ 0 < letter.run [c] then identifier c (rest.take (identifierRest.run rest))
    else if 0 < digit.run [c] then
      let more := rest.take (numberRest.run rest)
      .lexeme .int (Text.ofChars (c :: more)) more.length
    else .fault (.unknownCharacter c) 0

/-! ### Reading -/

/-- A place in the source: the number of characters before it, its line and its column. -/
structure Cursor where
  offset : Nat
  line : Nat
  column : Nat
  deriving DecidableEq

namespace Cursor

/-- The first place of a file. -/
def start : Cursor := ⟨0, 1, 1⟩

/-- The place some characters further on the same line. -/
def advance (k : Cursor) (n : Nat) : Cursor := ⟨k.offset + n, k.line, k.column + n⟩

/-- The place after a line break. -/
def nextLine (k : Cursor) : Cursor := ⟨k.offset + 1, k.line + 1, 1⟩

/-- The place as a position of a file. -/
def position (k : Cursor) (file : Text) : Position := ⟨file, k.line, k.column⟩

/-- The span of some characters from a place on. -/
def span (k : Cursor) (n : Nat) : Span := ⟨k.offset, k.offset + n, by omega⟩

end Cursor

/-- A faulty lexeme: where it starts, how many characters it has and what is wrong with it. -/
structure Error where
  cursor : Cursor
  length : Nat
  fault : LexFault
  deriving DecidableEq

/-- The fault as a syntax error of a file. -/
def Error.syntaxError (e : Error) (file : Text) : SyntaxError :=
  ⟨e.cursor.position file, e.length, e.fault.message⟩

/-- The tokens of the remaining characters, which start at the given place. -/
def tokensFrom (file : Text) (k : Cursor) : List Char → Except Error (List Token)
  | [] => .ok []
  | c :: rest =>
    match itemAt c rest with
    | .blank => tokensFrom file (k.advance 1) rest
    | .lineBreak => tokensFrom file k.nextLine rest
    | .comment extra => tokensFrom file (k.advance (extra + 1)) (rest.drop extra)
    | .lexeme kind text extra =>
      let token : Token := ⟨kind, text, k.position file, k.span (extra + 1)⟩
      (tokensFrom file (k.advance (extra + 1)) (rest.drop extra)).map (token :: ·)
    | .fault fault extra => .error ⟨k, extra + 1, fault⟩
termination_by input => input.length
decreasing_by all_goals simp only [List.length_cons, List.length_drop]; omega

end Lexer

/-- The tokens of a source file, up to the first fault. -/
def Source.lex (s : Source) : Except Lexer.Error (List Token) :=
  Lexer.tokensFrom s.file .start s.contents

end XtAsm
