import XtAsm.Proofs.Program.RoundTrip
import XtAsm.Proofs.Source.Normalisation
import XtAsm.Proofs.Token.Tiling

/-!
# Enumerations are read back from their source form

The source form of an enumeration that was read from source text, in a data section of its own, is
read as the same enumeration exactly if all members have plain names and none of them takes its
value from a counter that has run over.

* `exists_of_spells`, `plain_of_tokensFrom`, `nonneg_of_tokensFrom`: what reading a word, and an
  integer, says about it;
* `exists_memberChars`: what reading members says about them;
* `Program.enum_rereads_iff`: which enumerations are read back.
-/

namespace XtAsm

open Lexer Grammar

/-! ### Words and integers -/

namespace Lexer

variable {file : Text} {k : Cursor} {rest : List Char} {ts : List Token}

theorem Free.append {cs ds : List Char} (h : Free cs) (h' : Free ds) : Free (cs ++ ds) := by
  cases cs with
  | nil => exact h'
  | cons c cs => exact h

/-- Reading starts with the lexemes that the characters are a layout of. -/
theorem exists_of_layout {cs : List Char} {ls : List (Kind × Text)} (layout : Layout cs ls)
    (free : Free rest) (lexed : tokensFrom file k (cs ++ rest) = .ok ts) :
    ∃ k' us vs, ts = us ++ vs ∧ us.map Token.lexeme = ls ∧ tokensFrom file k' rest = .ok vs := by
  obtain ⟨k', us, lexemes, read⟩ := tokensFrom_append layout free file k
  rw [read] at lexed
  cases tail : tokensFrom file k' rest with
  | error e =>
    rw [tail] at lexed
    cases lexed
  | ok vs =>
    rw [tail] at lexed
    cases lexed
    exact ⟨k', us, vs, rfl, lexemes, tail⟩

/-- Reading starts with the lexeme that stands there. -/
theorem exists_of_spells {l : Kind × Text} {w : List Char} (hw : Spells l w) (free : Free rest)
    (lexed : tokensFrom file k (w ++ rest) = .ok ts) :
    ∃ k' t us, ts = t :: us ∧ t.lexeme = l ∧ tokensFrom file k' rest = .ok us := by
  have layout : Layout w [l] := by simpa using Layout.lexeme hw (.inr (by simp)) .nil
  obtain ⟨k', first, us, rfl, lexemes, read⟩ := exists_of_layout layout free lexed
  obtain ⟨t, rfl, lexeme⟩ := Node.exists_singleton lexemes
  exact ⟨k', t, us, rfl, lexeme, read⟩

/-- The first token is the lexeme that stands there. -/
theorem kind_of_item {c : Char} {kind : Kind} {text : Text} {extra : Nat} {t : Token}
    (item : itemAt c rest = .lexeme kind text extra)
    (lexed : tokensFrom file k (c :: rest) = .ok (t :: ts)) : t.kind = kind := by
  rw [tokensFrom, item] at lexed
  dsimp only at lexed
  cases tail : tokensFrom file (k.advance (extra + 1)) (rest.drop extra) with
  | error e =>
    rw [tail] at lexed
    cases lexed
  | ok us =>
    rw [tail] at lexed
    cases lexed
    rfl

/-- A word of identifier characters that is read as a variable or a name with the same text is a
name: it starts with a letter and is not reserved. -/
theorem plain_of_tokensFrom {c : Char} {cs : List Char} {t : Token}
    (hs : ∀ d ∈ c :: cs, isIdentifierRest d = true) (free : Free rest)
    (lexed : tokensFrom file k (c :: cs ++ rest) = .ok (t :: ts))
    (kind : t.kind = .var ∨ t.kind = .name) (text : t.text = Text.ofChars (c :: cs)) :
    isLetter c = true ∧ Keyword.ofChars? (c :: cs) = none ∧
      ∃ k', tokensFrom file k' rest = .ok ts := by
  rw [List.forall_mem_cons] at hs
  have first := hs.1
  simp only [isIdentifierRest, Bool.or_eq_true, beq_iff_eq] at first
  rcases first with ((letter | digit) | rfl) | rfl
  · cases reserved : Keyword.ofChars? (c :: cs) with
    | some w =>
      have spelling : w.spelling.toList = c :: cs := by simpa using List.find?_some reserved
      have word := Spells.word w
      rw [spelling] at word
      obtain ⟨k', u, us, same, lexeme, -⟩ := exists_of_spells word free lexed
      cases same
      rw [Node.kind_of_lexeme lexeme] at kind
      simp at kind
    | none =>
      obtain ⟨k', u, us, same, -, read⟩ := exists_of_spells (.name letter hs.2 reserved) free lexed
      cases same
      exact ⟨letter, rfl, k', read⟩
  · -- a number, whatever follows it
    have number := kind_of_item (itemAt_of_digit digit (cs ++ rest)) lexed
    rw [number] at kind
    simp at kind
  · rw [List.cons_append, tokensFrom_of_fault (c := '_') rfl] at lexed
    cases lexed
  · cases cs with
    | nil =>
      -- a dot alone is a fault
      have alone : ([] ++ rest).takeWhile isIdentifierRest = [] :=
        takeWhile_append_of_stop (by simp) fun d hd => by
          rcases free d hd with rfl | rfl <;> rfl
      have item := itemAt_of_letter (c := '.') (.inl rfl) ([] ++ rest)
      rw [alone] at item
      rw [List.cons_append, tokensFrom_of_fault item] at lexed
      cases lexed
    | cons d ds =>
      -- a variable, whose text is shorter
      obtain ⟨k', u, us, same, lexeme, -⟩ :=
        exists_of_spells (.var (List.cons_ne_nil d ds) hs.2) free lexed
      cases same
      rw [Node.text_of_lexeme lexeme] at text
      have shorter := congrArg List.length (Text.ofChars_injective text)
      simp at shorter

/-- The characters of an integer. -/
def integerChars : Int → List Char
  | .ofNat n => Nat.toDigits 10 n
  | .negSucc n => '-' :: Nat.toDigits 10 (n + 1)

theorem ofInt_eq_ofChars (value : Int) : Text.ofInt value = Text.ofChars (integerChars value) := by
  cases value <;> rfl

/-- An integer that is read is a number: a sign is read as the start of a comment. -/
theorem nonneg_of_tokensFrom {value : Int} (free : Free rest)
    (lexed : tokensFrom file k (integerChars value ++ rest) = .ok ts) :
    0 ≤ value ∧ ∃ k' t us, ts = t :: us ∧ t.kind = .int ∧ tokensFrom file k' rest = .ok us := by
  have digits (n : Nat) : ∃ c cs, Nat.toDigits 10 n = c :: cs ∧ c.isDigit = true ∧
      ∀ d ∈ cs, isNumberRest d = true := by
    obtain ⟨c, cs, same⟩ := List.exists_cons_of_ne_nil (Nat.toDigits_ne_nil (n := n) (b := 10))
    have all : ∀ d ∈ c :: cs, d.isDigit = true := fun d hd =>
      Text.isDigit_of_mem_toDigits (n := n) (same ▸ hd)
    rw [List.forall_mem_cons] at all
    exact ⟨c, cs, same, all.1, fun d hd => by simp [isNumberRest, all.2 d hd]⟩
  cases value with
  | ofNat n =>
    obtain ⟨c, cs, same, hc, hs⟩ := digits n
    rw [integerChars, same] at lexed
    obtain ⟨k', t, us, first, lexeme, read⟩ := exists_of_spells (.int hc hs) free lexed
    exact ⟨Int.natCast_nonneg n, k', t, us, first, Node.kind_of_lexeme lexeme, read⟩
  | negSucc n =>
    obtain ⟨c, cs, same, hc, -⟩ := digits (n + 1)
    rw [integerChars, same] at lexed
    have other : c ≠ '-' := by
      rintro rfl
      cases hc
    have item : comment (c :: (cs ++ rest)) = .fault .unfinishedComment 0 := by
      unfold comment
      split
      · next split =>
        cases split
        exact absurd rfl other
      · rfl
    rw [List.cons_append, List.cons_append, tokensFrom_of_fault (c := '-') item] at lexed
    cases lexed

/-- Blanks are passed over. -/
theorem tokensFrom_blank (file : Text) (k : Cursor) (rest : List Char) :
    tokensFrom file k (' ' :: rest) = tokensFrom file (k.advance 1) rest := by
  rw [tokensFrom]
  rfl

end Lexer

/-! ### Members -/

namespace Node

/-- The name of a member consists of identifier characters. -/
theorem exists_chars_of_written {t : Text} (h : Written .var t ∨ Written .name t) :
    ∃ c cs, t = Text.ofChars (c :: cs) ∧ ∀ d ∈ c :: cs, isIdentifierRest d = true := by
  rcases h with ⟨w, hw⟩ | ⟨w, hw⟩
  · cases hw with
    | @var cs ne hs =>
      obtain ⟨c, cs, rfl⟩ := List.exists_cons_of_ne_nil ne
      exact ⟨c, cs, rfl, hs⟩
  · cases hw with
    | @name c cs hc hs =>
      refine ⟨c, cs, rfl, ?_⟩
      rw [List.forall_mem_cons]
      exact ⟨by simp [isIdentifierRest, hc], hs⟩

/-- Numerals of numbers have no sign. -/
theorem ofInt_ne_of_nonneg {value other : Int} (lower : 0 ≤ value) (negative : other < 0) :
    Text.ofInt value ≠ Text.ofInt other := by
  obtain ⟨n, rfl⟩ := Int.eq_ofNat_of_zero_le lower
  obtain ⟨m, rfl⟩ := Int.eq_negSucc_of_lt_zero negative
  intro same
  rw [ofInt_eq_ofChars, ofInt_eq_ofChars] at same
  have digits : Nat.toDigits 10 n = '-' :: Nat.toDigits 10 (m + 1) := Text.ofChars_injective same
  have sign : '-' ∈ Nat.toDigits 10 n := by simp [digits]
  cases Text.isDigit_of_mem_toDigits sign

/-- A member starts with a variable or a name. -/
theorem kind_of_isMembers {name : Text} {next : Int} {t : Token} {ts : List Token}
    {members : List Variable} (h : IsMembers name next (t :: ts) members) :
    t.kind = .var ∨ t.kind = .name := by
  cases h with
  | counted hm | indexed hm => exact hm

/-- The first member has the text of the first token, after the name of the enumeration. -/
theorem exists_first {name text value : Text} {next : Int} {ts : List Token}
    {members : List Variable}
    (h : IsMembers name next ts (⟨name ++ "." ++ text, value, true⟩ :: members)) :
    ∃ t us, ts = t :: us ∧ (t.kind = .var ∨ t.kind = .name) ∧ t.text = text := by
  generalize hm : Variable.mk (name ++ Text.ofString "." ++ text) value true = m at h
  cases h with
  | counted hk | indexed hk =>
    exact ⟨_, _, rfl, hk, (List.append_cancel_left (congrArg Variable.name hm)).symm⟩

/-- A member in front of an integer is read with an index. -/
theorem rest_of_isMembers {name : Text} {next : Int} {m : Variable} {members : List Variable}
    {us vs ws : List Token} {a i e : Token} (h : IsMembers name next (a :: us) (m :: members))
    (he : e.kind = .word .end_) (same : us ++ e :: vs = i :: ws) (hi : i.kind = .int) :
    ∃ next ts, IsMembers name next ts members ∧ ws = ts ++ e :: vs := by
  cases h with
  | counted _ hs =>
    cases us with
    | nil =>
      cases same
      rw [he] at hi
      cases hi
    | cons t us =>
      cases same
      have kind := kind_of_isMembers hs
      rw [hi] at kind
      simp at kind
  | @indexed _ _ _ _ ts _ _ _ _ hs =>
    cases same
    exact ⟨_, ts, hs, rfl⟩

/-- Members that are read back in front of `end` have plain names and no negative values. -/
theorem exists_memberChars {name : Text} {members : List Variable}
    (hm : ∀ m ∈ members, IsMember name m) :
    ∃ cs, members.flatMap (renderMember name) = Text.ofChars cs ∧ Free cs ∧
      ∀ {file k rest next us e vs}, Free rest → IsMembers name next us members →
        e.kind = .word .end_ → tokensFrom file k (cs ++ rest) = .ok (us ++ e :: vs) →
        ∀ m ∈ members, IsPlainName (memberName name m) ∧
          m.value ≠ Text.ofInt (-9223372036854775808) := by
  induction members with
  | nil => exact ⟨[], rfl, by simp [Free], by simp⟩
  | cons m members ih =>
    rw [List.forall_mem_cons] at hm
    obtain ⟨⟨text, value, written, rfl⟩, rest⟩ := hm
    obtain ⟨cs, rendered, free, ih⟩ := ih rest
    obtain ⟨c, ds, rfl, identifier⟩ := exists_chars_of_written written
    refine ⟨' ' :: (c :: ds ++ (' ' :: (integerChars value ++ cs))), ?_, ?_, ?_⟩
    · have space : Text.ofString " " = Text.ofChars [' '] := rfl
      rw [List.flatMap_cons, rendered, renderMember, memberName_qualified, ofInt_eq_ofChars, space]
      simp only [← Text.ofChars_append]
      simp
    · intro d hd
      cases hd
      exact .inl rfl
    · intro file k rest next us e vs freeRest reads he lexed
      obtain ⟨a, us, rfl, kind, same⟩ := exists_first reads
      have afterInteger : Free (cs ++ rest) := free.append freeRest
      simp only [List.cons_append, List.append_assoc] at lexed
      rw [tokensFrom_blank] at lexed
      -- the name, a space and the value
      have space : Free (' ' :: (integerChars value ++ (cs ++ rest))) := by simp [Free]
      obtain ⟨letter, unreserved, k', lexed⟩ :=
        plain_of_tokensFrom identifier space lexed kind same
      rw [tokensFrom_blank] at lexed
      obtain ⟨lower, k', i, ws, index, isIndex, lexed⟩ := nonneg_of_tokensFrom afterInteger lexed
      obtain ⟨next, ts, reads, rfl⟩ := rest_of_isMembers reads he index isIndex
      rw [List.forall_mem_cons, memberName_qualified]
      exact ⟨⟨⟨c, ds, rfl, letter, unreserved⟩, ofInt_ne_of_nonneg lower (by decide)⟩,
        ih freeRest reads he lexed⟩

end Node

namespace Program

/-- Every declaration has tokens of its own. -/
theorem exists_declaration {ts : List Token} {ds : List Node} (h : IsDeclarations ts ds) :
    ∀ n ∈ ds, ∃ us, IsDeclaration us n ∧ ∀ t ∈ us, t ∈ ts := by
  induction h with
  | nil => simp
  | @cons us vs n ns h _ ih =>
    rw [List.forall_mem_cons]
    refine ⟨⟨us, h, fun t ht => List.mem_append_left _ ht⟩, fun m hm => ?_⟩
    obtain ⟨ws, declaration, inside⟩ := ih m hm
    exact ⟨ws, declaration, fun t ht => List.mem_append_right _ (inside t ht)⟩

/-- A program that starts with a data section, and declares nothing but an enumeration. -/
theorem exists_members {ts : List Token} {q : Program} {d : Token} {name : Text}
    {members : List Variable} (h : IsProgram (d :: ts) q) (hd : d.kind = .data)
    (only : q.data = [.enum name members]) :
    ∃ k n us e vs, ts = k :: n :: (us ++ e :: vs) ∧ n.text = name ∧ e.kind = .word .end_ ∧
      IsMembers name 0 us members := by
  have single : ∀ {us : List Token}, IsDeclarations us [.enum name members] →
      ∃ k n ws e, us = k :: n :: (ws ++ [e]) ∧ n.text = name ∧ e.kind = .word .end_ ∧
        IsMembers name 0 ws members := by
    intro us hs
    cases hs with
    | cons h hs =>
      cases h with
      | enum hk hn hs' he =>
        cases hs
        exact ⟨_, _, _, _, List.append_nil _, rfl, he, hs'⟩
  generalize hts : d :: ts = all at h
  cases h with
  | empty => cases hts
  | data hs =>
    obtain ⟨_, hs⟩ := hs
    cases hts
    rw [data_ofSections] at only
    obtain ⟨k, n, us, e, rfl, same, he, reads⟩ := single (only ▸ hs)
    exact ⟨k, n, us, e, [], rfl, same, he, reads⟩
  | code hs =>
    cases only
  | @dataCode us vs _ _ hs =>
    obtain ⟨_, hs⟩ := hs
    cases hts
    rw [data_ofSections] at only
    obtain ⟨k, n, us, e, rfl, same, he, reads⟩ := single (only ▸ hs)
    exact ⟨k, n, us, e, vs, by simp, same, he, reads⟩
  | codeData hs =>
    obtain ⟨isCode, _⟩ := hs
    cases hts
    rw [hd] at isCode
    cases isCode

/-- The data section with an enumeration in it. -/
def enumText (name : Text) (members : List Variable) : Text :=
  Text.ofString "#data\n" ++ Node.renderEnum name members

theorem last_enumText (name : Text) (members : List Variable) :
    (enumText name members).getLast? = some 100 := by
  have last : (Text.ofString " end").getLast? = some 100 := rfl
  rw [enumText, Node.renderEnum, List.getLast?_append, List.getLast?_append, last]
  rfl

/-- An enumeration that is read back has members with plain names and without negative values. -/
theorem plain_of_rereads {name : Text} {members : List Variable} (hn : Written .name name)
    (hm : ∀ m ∈ members, Node.IsMember name m) {file : Text} {ts : List Token} {q : Program}
    (lexed : (Source.ofText file (enumText name members)).lex = .ok ts)
    (parsed : (ofTokens ts).result = .ok q) (only : q.data = [.enum name members]) :
    ∀ m ∈ members, Node.IsPlainName (Node.memberName name m) ∧
      m.value ≠ Text.ofInt (-9223372036854775808) := by
  obtain ⟨hs, head, layout⟩ := (Prints.ofSpells .data).broken
    ((Node.prints_of_written (.inl rfl) hn).afterWord .enum (s := "enum ") rfl)
  obtain ⟨cs, rendered, free, plain⟩ := Node.exists_memberChars hm
  have text : enumText name members = Text.ofChars (hs ++ (cs ++ [' ', 'e', 'n', 'd'])) := by
    rw [Text.ofChars_append, Text.ofChars_append, ← head, ← rendered, enumText, Node.renderEnum]
    simp only [List.append_assoc]
    rfl
  have last := last_enumText name members
  rw [text] at last lexed
  have close : Free [' ', 'e', 'n', 'd', '\n'] := by simp [Free]
  have unended := Source.not_isEnded_of_getLast? last (by decide)
  rw [Source.lex, Source.contents_of_not_isEnded unended, Text.toChars_ofChars] at lexed
  simp only [List.append_assoc, List.cons_append, List.nil_append] at lexed
  obtain ⟨k', first, us, rfl, lexemes, read⟩ := exists_of_layout layout (free.append close) lexed
  obtain ⟨d, ws, rfl, hd, lexemes⟩ := Node.exists_cons lexemes
  obtain ⟨w, ws, rfl, -, lexemes⟩ := Node.exists_cons lexemes
  obtain ⟨n, rfl, -⟩ := Node.exists_singleton lexemes
  obtain ⟨_, _, us', e, vs, same, -, he, reads⟩ :=
    exists_members (isProgram_of_accepts parsed) (Node.kind_of_lexeme hd) only
  cases same
  exact plain close reads he read

/-- The tokens of the enumeration's source form are read as the enumeration. -/
theorem rereads_of_readable {name : Text} {members : List Variable} (hn : Written .name name)
    (hm : ∀ m ∈ members, Node.IsReadable name m) (file : Text) :
    ∃ ts q, (Source.ofText file (enumText name members)).lex = .ok ts ∧
      (ofTokens ts).result = .ok q ∧ q.data = [.enum name members] := by
  obtain ⟨text, ls, rendered, prints, reads⟩ := Node.reprints_enum hn hm
  cases rendered
  obtain ⟨ts, lexed, lexemes⟩ := lex_ofText ((Prints.ofSpells .data).broken prints) file
  have unended := Source.not_isEnded_of_getLast? (last_enumText name members) (by decide)
  obtain ⟨d, us, rfl, hd, hus⟩ := Node.exists_cons lexemes
  have declarations := IsDeclarations.cons (reads us hus) .nil
  rw [List.append_nil] at declarations
  refine ⟨_, _, ?_, accepts_of_isProgram (.data (.mk (Node.kind_of_lexeme hd) declarations)), rfl⟩
  rw [← Source.ofText_append_newline unended]
  exact lexed

/-- **Enumerations.**  An enumeration of a program that was read is read back from its source form,
in a data section of its own, exactly if all members have plain names, and none of them takes its
value from a counter that has run over. -/
theorem enum_rereads_iff {s : Source} {ts : List Token} {p : Program} (lexed : s.lex = .ok ts)
    (parsed : (ofTokens ts).result = .ok p) {name : Text} {members : List Variable}
    (declared : .enum name members ∈ p.data) (file : Text) :
    (∃ text us q, (Node.enum name members).render = .ok text ∧
      (Source.ofText file (Text.ofString "#data\n" ++ text)).lex = .ok us ∧
      (ofTokens us).result = .ok q ∧ q.data = [.enum name members]) ↔
    ∀ m ∈ members, Node.IsPlainName (Node.memberName name m) ∧
      m.value ≠ Text.ofInt (-9223372036854775808) := by
  have lexical : ∀ t ∈ ts, t.IsLexical := spells_of_tokensFrom lexed
  obtain ⟨us, vs, ds, cs, rfl, hd, -, inUs, -⟩ := exists_sections (isProgram_of_accepts parsed)
  obtain ⟨ws, declaration, inside⟩ := exists_declaration hd _ declared
  have lexicalWs : ∀ t ∈ ws, t.IsLexical := fun t ht => lexical t (inUs t (inside t ht))
  constructor
  · rintro ⟨text, us, q, rendered, relexed, reparsed, only⟩
    cases rendered
    cases declaration.expressible lexicalWs with
    | enum hn hm => exact plain_of_rereads hn hm relexed reparsed only
  · intro plain
    cases declaration with
    | enum _ hn reads _ =>
      have readable := Node.isReadable_of_isMembers reads (fun t ht => lexicalWs t (by simp [ht]))
        (.inr ⟨by decide, by decide⟩) (fun m hm => (plain m hm).1) fun m hm => (plain m hm).2
      obtain ⟨us, q, relexed, reparsed, only⟩ :=
        rereads_of_readable ((lexicalWs _ (by simp)).written hn) readable file
      exact ⟨_, us, q, rfl, relexed, reparsed, only⟩

theorem enum_rereads_iff_choice :
    (choiceSource.lex = .ok choiceTokens ∧ (ofTokens choiceTokens).result = .ok choiceProgram ∧
      .enum "E" [⟨"E.a", "0", true⟩] ∈ choiceProgram.data) ∧
    ((∃ text us q, (Node.enum "E" [⟨"E.a", "0", true⟩]).render = .ok text ∧
        (Source.ofText "again" (Text.ofString "#data\n" ++ text)).lex = .ok us ∧
        (ofTokens us).result = .ok q ∧ q.data = [.enum "E" [⟨"E.a", "0", true⟩]]) ↔
      ∀ m ∈ [(⟨"E.a", "0", true⟩ : Variable)], Node.IsPlainName (Node.memberName "E" m) ∧
        m.value ≠ Text.ofInt (-9223372036854775808)) := by
  have lexed : choiceSource.lex = .ok choiceTokens := lex_of_toOption (by decide +kernel)
  have parsed : (ofTokens choiceTokens).result = .ok choiceProgram := rfl
  have declared : .enum "E" [⟨"E.a", "0", true⟩] ∈ choiceProgram.data := .head _
  exact ⟨⟨lexed, parsed, declared⟩, enum_rereads_iff lexed parsed declared "again"⟩

/-- A file with an enumeration, whose member is a variable with the name of a reserved word. -/
def reservedSource : Source := .ofText "reserved" "#data\nenum e .end end"

/-- Its tokens. -/
def reservedTokens : List Token :=
  [⟨.data, "#data", ⟨"reserved", 1, 1⟩, spanAt 0 5⟩,
   ⟨.word .enum, "enum", ⟨"reserved", 2, 1⟩, spanAt 6 4⟩,
   ⟨.name, "e", ⟨"reserved", 2, 6⟩, spanAt 11 1⟩,
   ⟨.var, "end", ⟨"reserved", 2, 8⟩, spanAt 13 4⟩,
   ⟨.word .end_, "end", ⟨"reserved", 2, 13⟩, spanAt 18 3⟩]

/-- Its program. -/
def reservedProgram : Program := .ofSections [.enum "e" [⟨"e.end", "0", true⟩]] []

/-- The tokens of the enumeration's source form. -/
def reprintTokens : List Token :=
  [⟨.data, "#data", ⟨"again", 1, 1⟩, spanAt 0 5⟩,
   ⟨.word .enum, "enum", ⟨"again", 2, 1⟩, spanAt 6 4⟩,
   ⟨.name, "e", ⟨"again", 2, 6⟩, spanAt 11 1⟩,
   ⟨.word .end_, "end", ⟨"again", 2, 8⟩, spanAt 13 3⟩,
   ⟨.int, "0", ⟨"again", 2, 12⟩, spanAt 17 1⟩,
   ⟨.word .end_, "end", ⟨"again", 2, 14⟩, spanAt 19 3⟩]

/-- A member with the name of a reserved word is written as the reserved word. -/
theorem not_rereads_reserved :
    (reservedSource.lex = .ok reservedTokens ∧
      (ofTokens reservedTokens).result = .ok reservedProgram ∧
      .enum "e" [⟨"e.end", "0", true⟩] ∈ reservedProgram.data) ∧
    (Node.enum "e" [⟨"e.end", "0", true⟩]).render = .ok "enum e end 0 end" ∧
      ¬ ∃ us q, (Source.ofText "again" "#data\nenum e end 0 end").lex = .ok us ∧
        (ofTokens us).result = .ok q := by
  have lexed : reservedSource.lex = .ok reservedTokens := lex_of_toOption (by decide +kernel)
  have relexed : (Source.ofText "again" "#data\nenum e end 0 end").lex = .ok reprintTokens :=
    lex_of_toOption (by decide +kernel)
  refine ⟨⟨lexed, rfl, .head _⟩, rfl, ?_⟩
  rintro ⟨us, q, read, parsed⟩
  rw [relexed] at read
  cases read
  -- after the enumeration without members there is a number
  cases parsed

end Program

end XtAsm
