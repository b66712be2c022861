import XtAsm.Proofs.Stateful.Scanner
import XtAsm.Proofs.Token.Lexeme

/-!
# Scanners look at what they accept

What a scanner accepts of an input is within the input, and stays the same if the input is cut off
anywhere behind it.

* `IsStable`: a count that does not depend on anything behind the counted characters;
* `IsStable.many`, `isStable_run`: every scanner counts in this way;
* `run_upTo`: a search is the repetition of the search for one character;
* `reads_only_accepted`: all that scanners have in common.
-/

namespace XtAsm.Scanner

/-- What is accepted of an input is accepted of every beginning that is long enough. -/
def IsStable (item : List Char → Nat) : Prop :=
  ∀ ⦃p input : List Char⦄, p <+: input → item input ≤ p.length → item p = item input

/-- A scanner of one character does not look at any other. -/
theorem Accepts.isStable {s : Scanner} {test : Char → Bool} (h : s.Accepts test) :
    IsStable s.run := by
  intro p input hp enough
  cases p with
  | nil => rw [h.nil, Nat.eq_zero_of_le_zero enough]
  | cons c p =>
    obtain ⟨rest, rfl⟩ := hp
    rw [List.cons_append, h.cons, h.cons]

/-- The same pieces are cut off a beginning that holds all of them. -/
theorem Repeats.of_isPrefix {item : List Char → Nat} (stable : IsStable item)
    {input rest : List Char} {pieces : List (List Char)} (h : Repeats item input pieces rest)
    {p : List Char} (hp : p <+: input) (enough : pieces.flatten.length ≤ p.length) :
    ∃ rest', Repeats item p pieces rest' := by
  induction h generalizing p with
  | stop nothing =>
    have same := stable hp (nothing ▸ Nat.zero_le _)
    exact ⟨p, .stop (same.trans nothing)⟩
  | @next input piece after rest pieces split ne accepted _ ih =>
    rw [List.flatten_cons, List.length_append] at enough
    have first : piece <+: p := List.prefix_of_prefix_length_le ⟨after, split.symm⟩ hp (by omega)
    obtain ⟨q, rfl⟩ := first
    rw [List.length_append] at enough
    obtain ⟨rest', more⟩ := ih ((List.prefix_append_right_inj piece).mp (split ▸ hp)) (by omega)
    have same := stable hp (by rw [accepted, List.length_append]; omega)
    exact ⟨rest', .next rfl ne (same.trans accepted) more⟩

theorem IsStable.many {s : Scanner} (stable : IsStable s.run) : IsStable (many s).run := by
  intro p input hp enough
  obtain ⟨pieces, rest, cut⟩ := exists_repeats s.run_le_length input
  rw [cut.run_many] at enough
  obtain ⟨rest', cut'⟩ := cut.of_isPrefix stable hp enough
  rw [cut.run_many, cut'.run_many]

/-- A search is the repetition of the search for one character. -/
theorem run_upTo (stop : Char) (input : List Char) :
    (upTo stop).run input = (many (noneOf [stop])).run input := by
  have longest := (accepts_noneOf [stop]).take_run_many input
  have within := List.length_take_of_le ((many (noneOf [stop])).run_le_length input)
  have others : (fun c => decide (c ∉ [stop])) = fun c => decide (c ≠ stop) := by
    funext c
    simp
  rw [← within, longest, others, run]

mutual

/-- What a scanner accepts does not depend on anything behind it. -/
theorem isStable_run (s : Scanner) : IsStable s.run := by
  cases s with
  | firstOf alternatives =>
    intro p input hp enough
    rw [run] at enough
    rw [run, run]
    exact isStable_runFirst alternatives hp enough
  | word chars =>
    intro p input hp enough
    rw [run] at enough
    rw [run, run]
    by_cases found : chars.isPrefixOf input
    · rw [if_pos found] at enough ⊢
      have first := List.isPrefixOf_iff_prefix.mp found
      rw [if_pos (List.isPrefixOf_iff_prefix.mpr (List.prefix_of_prefix_length_le first hp enough))]
    · have absent : ¬ chars.isPrefixOf p := fun h =>
        found (List.isPrefixOf_iff_prefix.mpr ((List.isPrefixOf_iff_prefix.mp h).trans hp))
      rw [if_neg found, if_neg absent]
  | within lowest highest => exact (accepts_within lowest highest).isStable
  | noneOf chars => exact (accepts_noneOf chars).isStable
  | many item => exact (isStable_run item).many
  | upTo stop =>
    intro p input hp enough
    rw [run_upTo] at enough
    rw [run_upTo, run_upTo]
    exact (accepts_noneOf [stop]).isStable.many hp enough

theorem isStable_runFirst (alternatives : List Scanner) : IsStable (runFirst alternatives) := by
  intro p input hp enough
  cases alternatives with
  | nil => rfl
  | cons s rest =>
    have first := isStable_run s hp
    rw [runFirst] at enough
    rw [runFirst, runFirst]
    cases found : s.run input with
    | zero =>
      rw [found] at enough first
      rw [first (Nat.zero_le _)]
      exact isStable_runFirst rest hp enough
    | succ n =>
      rw [found] at enough first
      rw [first enough]

end

/-- **Scanners look only at what they accept.**  Every scanner, a repetition too, comes to an end
without a look beyond its input, and none of its loops takes more turns than there are characters,
and one.  It accepts a beginning of the input, and the same one of every beginning that is long
enough.  Its repetition accepts the pieces that the scanner itself accepts one after another, up to
where it accepts nothing; there is only one way to cut them off.  To repeat a repetition changes
nothing, and a search is the repetition of the search for one character. -/
theorem reads_only_accepted (s : Scanner) (input : List Char) :
    (∀ bound, input.length < bound → Runs (s.count bound input) () (s.run input) ()) ∧
    s.run input ≤ input.length ∧
    (∀ p, p <+: input → s.run input ≤ p.length → s.run p = s.run input) ∧
    (∃ pieces rest, Repeats s.run input pieces rest ∧ input = pieces.flatten ++ rest ∧
      (many s).run input = pieces.flatten.length ∧
      ∀ pieces' rest', Repeats s.run input pieces' rest' → pieces' = pieces ∧ rest' = rest) ∧
    (many (many s)).run input = (many s).run input ∧
    ∀ stop, (upTo stop).run input = (many (noneOf [stop])).run input := by
  obtain ⟨pieces, rest, cut⟩ := exists_repeats s.run_le_length input
  refine ⟨fun bound enough => runs_count s enough (), s.run_le_length input,
    fun p hp enough => isStable_run s hp enough,
    ⟨pieces, rest, cut, cut.eq_append, cut.run_many, fun _ _ cut' => cut.unique cut'⟩,
    run_many_many s input, fun stop => run_upTo stop input⟩

/-- Words of which one starts with another, as often as they occur. -/
def overlapping : Scanner := .many (.firstOf [.word ['a', 'b'], .word ['a']])

/-- A word is cut off in front of the one that it starts with. -/
theorem reads_only_accepted_overlapping :
    (overlapping.run "abaac".toList ≤ "abaa".toList.length ∧ "abaa".toList <+: "abaac".toList) ∧
    overlapping.run "abaa".toList = overlapping.run "abaac".toList ∧
    Runs (overlapping.count 6 "abaac".toList) () 4 () := by
  have enough : overlapping.run "abaac".toList ≤ "abaa".toList.length := by decide
  have start : "abaa".toList <+: "abaac".toList := ⟨['c'], rfl⟩
  obtain ⟨ends, -, stable, -⟩ := reads_only_accepted overlapping "abaac".toList
  exact ⟨⟨enough, start⟩, stable _ start enough, ends 6 (by decide)⟩

end XtAsm.Scanner
