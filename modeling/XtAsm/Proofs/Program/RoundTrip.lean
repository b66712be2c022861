import XtAsm.Proofs.Grammar.Soundness
import XtAsm.Proofs.Node.Reprint

/-!
# Programs are read back from their source form

The source form of a program that was read from source text is read as the same program, unless
it writes a member of an enumeration in a way that cannot be read.

* `Node.IsPlainName`: texts that are read as names;
* `Program.HasPlainMembers`, `Program.CountsWithinBounds`: what enumerations have to satisfy;
* `Program.exists_reprint`: every such program is read back.
-/

namespace XtAsm

open Lexer Grammar

namespace Node

/-- The text starts with a letter and is no reserved word. -/
def IsPlainName (t : Text) : Prop :=
  ∃ c cs, t = Text.ofChars (c :: cs) ∧ isLetter c = true ∧ Keyword.ofChars? (c :: cs) = none

/-- The name of a member is written as a name, if it is a plain one. -/
theorem written_name_of_isPlainName {t : Text} (plain : IsPlainName t)
    (h : Written .var t ∨ Written .name t) : Written .name t := by
  obtain ⟨c, cs, rfl, letter, unreserved⟩ := plain
  rcases h with ⟨w, hw⟩ | h
  · generalize hl : (Kind.var, Text.ofChars (c :: cs)) = l at hw
    cases hw with
    | @var ds _ hs =>
      obtain rfl : c :: cs = ds := Text.ofChars_injective (congrArg Prod.snd hl)
      exact ⟨_, .name letter (fun d hd => hs d (List.mem_cons_of_mem c hd)) unreserved⟩
    | _ => cases hl
  · exact h

/-- A counter of an enumeration: not negative, or the smallest value after it has run over. -/
def IsCounter (value : Int) : Prop :=
  value = -9223372036854775808 ∨ 0 ≤ value ∧ value < Text.halfWords

theorem isCounter_succ {value : Int} (lower : 0 ≤ value) (upper : value < Text.halfWords) :
    IsCounter (Text.wrap64 (value + 1)) := by
  by_cases largest : value = 9223372036854775807
  · subst largest
    exact .inl rfl
  · have below : value + 1 < Text.halfWords := by
      simp only [Text.halfWords] at upper ⊢
      omega
    right
    rw [Text.wrap64_of_bounds (by simp only [Text.halfWords]; omega) below]
    omega

/-- A number of source text has no sign. -/
theorem bounds_of_written {t : Text} {value : Int} (h : Written .int t)
    (hv : Text.readInt t = .ok value) : 0 ≤ value ∧ value < Text.halfWords := by
  obtain ⟨w, hw⟩ := h
  cases hw with
  | int hc hs =>
    obtain ⟨encoding, lower, _⟩ := Text.utf8EncodeChar_of_isDigit hc
    rw [Text.ofChars_cons, encoding, List.singleton_append] at hv
    refine Text.bounds_of_readInt ?_ hv
    rw [UInt8.le_iff_toNat_le, Text.toNat_ofNat_byte (by omega)]
    exact lower

/-- Members with plain names can be read, if none of them takes its value from a counter that has
run over. -/
theorem isReadable_of_isMembers {name : Text} {next : Int} {ts : List Token}
    {members : List Variable} (h : IsMembers name next ts members)
    (lexical : ∀ t ∈ ts, t.IsLexical) (counter : IsCounter next)
    (plain : ∀ m ∈ members, IsPlainName (memberName name m))
    (counts : ∀ m ∈ members, m.value ≠ Text.ofInt (-9223372036854775808)) :
    ∀ m ∈ members, IsReadable name m := by
  have readable : ∀ (t : Token) (value : Int), t.IsLexical → t.kind = .var ∨ t.kind = .name →
      0 ≤ value → value < Text.halfWords →
      IsPlainName (memberName name ⟨name ++ "." ++ t.text, Text.ofInt value, true⟩) →
      IsReadable name ⟨name ++ "." ++ t.text, Text.ofInt value, true⟩ := by
    intro t value lexical kind lower upper plain
    rw [memberName_qualified] at plain
    obtain ⟨n, rfl⟩ := Int.eq_ofNat_of_zero_le lower
    exact ⟨t.text, n, written_name_of_isPlainName plain (kind.imp lexical.written lexical.written),
      Int.ofNat_lt.1 upper, rfl⟩
  induction h with
  | nil => simp
  | @counted next m ts members hm _ ih =>
    rw [List.forall_mem_cons] at plain counts ⊢
    rcases counter with wrapped | ⟨lower, upper⟩
    · exact absurd (congrArg Text.ofInt wrapped) counts.1
    · exact ⟨readable _ _ (lexical _ (by simp)) hm lower upper plain.1,
        ih (fun t ht => lexical t (by simp [ht])) (isCounter_succ lower upper) plain.2 counts.2⟩
  | @indexed next value m i ts members hm hi hv _ ih =>
    -- an index sets the counter, whether it has run over or not
    rw [List.forall_mem_cons] at plain counts ⊢
    obtain ⟨lower, upper⟩ := bounds_of_written ((lexical i (by simp)).written hi) hv
    exact ⟨readable _ _ (lexical _ (by simp)) hm lower upper plain.1,
      ih (fun t ht => lexical t (by simp [ht])) (isCounter_succ lower upper) plain.2 counts.2⟩

end Node

namespace Program

/-- All members of enumerations have plain names. -/
def HasPlainMembers (p : Program) : Prop :=
  ∀ name members, .enum name members ∈ p.data → ∀ m ∈ members,
    Node.IsPlainName (Node.memberName name m)

/-- No member of an enumeration takes its value from a counter that has run over: after the largest
value counting goes on with the smallest one. -/
def CountsWithinBounds (p : Program) : Prop :=
  ∀ name members, .enum name members ∈ p.data → ∀ m ∈ members,
    m.value ≠ Text.ofInt (-9223372036854775808)

/-- The source forms of declarations are read as the declarations. -/
theorem reprints_of_isDeclarations {ts : List Token} {ds : List Node} (h : IsDeclarations ts ds)
    (lexical : ∀ t ∈ ts, t.IsLexical)
    (plain : ∀ name members, .enum name members ∈ ds → ∀ m ∈ members,
      Node.IsPlainName (Node.memberName name m))
    (counts : ∀ name members, .enum name members ∈ ds → ∀ m ∈ members,
      m.value ≠ Text.ofInt (-9223372036854775808)) :
    ∀ n ∈ ds, Node.Reprints IsDeclaration n := by
  induction h with
  | nil => simp
  | @cons us vs n ns h _ ih =>
    rw [List.forall_mem_cons]
    refine ⟨?_, ih (fun t ht => lexical t (by simp [ht]))
      (fun name members hm => plain name members (by simp [hm]))
      (fun name members hm => counts name members (by simp [hm]))⟩
    cases h with
    | initialised ht hv =>
      exact Node.reprints_variable ((lexical _ (by simp)).written ht)
        (.inr ((lexical _ (by simp)).written hv))
    | uninitialised ht _ =>
      exact Node.reprints_variable ((lexical _ (by simp)).written ht) (.inl rfl)
    | enum _ hn hs _ =>
      exact Node.reprints_enum ((lexical _ (by simp)).written hn)
        (Node.isReadable_of_isMembers hs (fun t ht => lexical t (by simp [ht]))
          (.inr ⟨by decide, by decide⟩) (plain _ _ List.mem_cons_self)
          (counts _ _ List.mem_cons_self))

/-- Two sections that are read back make a program that is read back. -/
theorem exists_layout {ds cs : List Node} (hd : ∀ n ∈ ds, Node.Reprints IsDeclaration n)
    (hc : ∀ n ∈ cs, Node.Reprints IsStatement n) :
    ∃ t ls, (ofSections ds cs).render = .ok (t ++ Text.ofString "\n") ∧ Prints t ls ∧
      Node.Reads (IsProgram · (ofSections ds cs)) ls := by
  obtain ⟨dataTexts, ls, renderedData, printsData, readsData⟩ :=
    Node.reprintsAll_of_forall IsDeclarations.nil IsDeclarations.cons hd
  obtain ⟨codeTexts, ms, renderedCode, printsCode, readsCode⟩ := Node.reprintsAll_block hc
  have data := printsData.onLines (Prints.ofSpells .data)
  have code := printsCode.onLines (Prints.ofSpells .code)
  refine ⟨_, _, ?_, data.broken code, fun ts hts => ?_⟩
  · simp only [render, Node.render, data_ofSections, code_ofSections, renderedData, renderedCode,
      bind, Except.bind]
    rfl
  · obtain ⟨us, vs, rfl, hus, hvs⟩ := Node.exists_append hts
    obtain ⟨d, us, rfl, hd, hus⟩ := Node.exists_cons hus
    obtain ⟨c, vs, rfl, hc, hvs⟩ := Node.exists_cons hvs
    exact .dataCode (.mk (Node.kind_of_lexeme hd) (readsData us hus))
      (.mk (Node.kind_of_lexeme hc) (readsCode vs hvs))

/-- The two sections of a program that was read, with the tokens of each. -/
theorem exists_sections {ts : List Token} {p : Program} (h : IsProgram ts p) :
    ∃ us vs ds cs, p = ofSections ds cs ∧ IsDeclarations us ds ∧ IsBlock vs cs ∧
      (∀ t ∈ us, t ∈ ts) ∧ ∀ t ∈ vs, t ∈ ts := by
  cases h with
  | empty => exact ⟨[], [], [], [], rfl, .nil, .nil, by simp, by simp⟩
  | data hd =>
    obtain ⟨_, hs⟩ := hd
    exact ⟨_, [], _, [], rfl, hs, .nil, fun t ht => by simp [ht], by simp⟩
  | code hc =>
    obtain ⟨_, hs⟩ := hc
    exact ⟨[], _, [], _, rfl, .nil, hs, by simp, fun t ht => by simp [ht]⟩
  | dataCode hd hc =>
    obtain ⟨_, hd⟩ := hd
    obtain ⟨_, hc⟩ := hc
    exact ⟨_, _, _, _, rfl, hd, hc, fun t ht => by simp [ht], fun t ht => by simp [ht]⟩
  | codeData hc hd =>
    obtain ⟨_, hd⟩ := hd
    obtain ⟨_, hc⟩ := hc
    exact ⟨_, _, _, _, rfl, hd, hc, fun t ht => by simp [ht], fun t ht => by simp [ht]⟩

/-- The declarations and statements of a program that was read from source text. -/
theorem exists_expressible {s : Source} {ts : List Token} {p : Program} (lexed : s.lex = .ok ts)
    (parsed : (ofTokens ts).result = .ok p) :
    ∃ ds cs, p = ofSections ds cs ∧ (∀ n ∈ ds, n.IsDeclared) ∧ ∀ n ∈ cs, n.IsExpressible := by
  have lexical : ∀ t ∈ ts, t.IsLexical := spells_of_tokensFrom lexed
  obtain ⟨us, vs, ds, cs, same, hd, hc, inUs, inVs⟩ :=
    exists_sections (isProgram_of_accepts parsed)
  exact ⟨ds, cs, same, hd.expressible fun t ht => lexical t (inUs t ht),
    hc.expressible fun t ht => lexical t (inVs t ht)⟩

/-- **Reading undoes printing.**  A program that was read from source text has a source form, and
a file made from it is read as the same program, if all members of its enumerations have plain
names and no counter ran over. -/
theorem exists_reprint {s : Source} {ts : List Token} {p : Program} (lexed : s.lex = .ok ts)
    (parsed : (ofTokens ts).result = .ok p) (plain : p.HasPlainMembers)
    (counts : p.CountsWithinBounds) (file : Text) :
    ∃ text us, p.render = .ok text ∧ (Source.ofText file text).lex = .ok us ∧
      (ofTokens us).result = .ok p := by
  have lexical : ∀ t ∈ ts, t.IsLexical := spells_of_tokensFrom lexed
  obtain ⟨us, vs, ds, cs, rfl, hd, hc, inUs, inVs⟩ :=
    exists_sections (isProgram_of_accepts parsed)
  have statements := hc.expressible fun t ht => lexical t (inVs t ht)
  obtain ⟨t, ls, rendered, prints, reads⟩ := exists_layout
    (reprints_of_isDeclarations hd (fun t ht => lexical t (inUs t ht)) plain counts)
    fun n hn => Node.reprints_of_isExpressible (statements n hn)
  obtain ⟨ws, relexed, lexemes⟩ := lex_ofText prints file
  exact ⟨_, ws, rendered, relexed, accepts_of_isProgram (reads ws lexemes)⟩

/-- A file with an enumeration, whose member is written as a variable, and a choice. -/
def choiceSource : Source :=
  .ofText "choice" "#data\nenum E .a end\n#code\nif .x<$r in else exit 1 end"

/-- Its tokens. -/
def choiceTokens : List Token :=
  [⟨.data, "#data", ⟨"choice", 1, 1⟩, spanAt 0 5⟩,
   ⟨.word .enum, "enum", ⟨"choice", 2, 1⟩, spanAt 6 4⟩,
   ⟨.name, "E", ⟨"choice", 2, 6⟩, spanAt 11 1⟩,
   ⟨.var, "a", ⟨"choice", 2, 8⟩, spanAt 13 2⟩,
   ⟨.word .end_, "end", ⟨"choice", 2, 11⟩, spanAt 16 3⟩,
   ⟨.code, "#code", ⟨"choice", 3, 1⟩, spanAt 20 5⟩,
   ⟨.word .if_, "if", ⟨"choice", 4, 1⟩, spanAt 26 2⟩,
   ⟨.var, "x", ⟨"choice", 4, 4⟩, spanAt 29 2⟩,
   ⟨.compare .lt, "<", ⟨"choice", 4, 6⟩, spanAt 31 1⟩,
   ⟨.reg, "r", ⟨"choice", 4, 7⟩, spanAt 32 2⟩,
   ⟨.word .in_, "in", ⟨"choice", 4, 10⟩, spanAt 35 2⟩,
   ⟨.word .else_, "else", ⟨"choice", 4, 13⟩, spanAt 38 4⟩,
   ⟨.word .exit, "exit", ⟨"choice", 4, 18⟩, spanAt 43 4⟩,
   ⟨.int, "1", ⟨"choice", 4, 23⟩, spanAt 48 1⟩,
   ⟨.word .end_, "end", ⟨"choice", 4, 25⟩, spanAt 50 3⟩]

/-- Its program. -/
def choiceProgram : Program :=
  .ofSections [.enum "E" [⟨"E.a", "0", true⟩]]
    [.choice [.mk (.ofRelation .lt) (.use "x") (.register "r")] [] [] [.exit (.literal "1")]]

theorem exists_reprint_choice :
    (choiceSource.lex = .ok choiceTokens ∧ (ofTokens choiceTokens).result = .ok choiceProgram ∧
      choiceProgram.HasPlainMembers ∧ choiceProgram.CountsWithinBounds) ∧
    ∃ text us, choiceProgram.render = .ok text ∧ (Source.ofText "again" text).lex = .ok us ∧
      (ofTokens us).result = .ok choiceProgram := by
  have lexed : choiceSource.lex = .ok choiceTokens := lex_of_toOption (by decide +kernel)
  have parsed : (ofTokens choiceTokens).result = .ok choiceProgram := rfl
  have plain : choiceProgram.HasPlainMembers := by
    intro name members hm m mem
    simp only [choiceProgram, data_ofSections, List.mem_singleton] at hm
    cases hm
    rw [List.mem_singleton.1 mem]
    exact ⟨'a', [], by decide, by decide, by decide⟩
  have counts : choiceProgram.CountsWithinBounds := by
    intro name members hm m mem
    simp only [choiceProgram, data_ofSections, List.mem_singleton] at hm
    cases hm
    rw [List.mem_singleton.1 mem]
    decide
  exact ⟨⟨lexed, parsed, plain, counts⟩, exists_reprint lexed parsed plain counts "again"⟩

end Program

end XtAsm
