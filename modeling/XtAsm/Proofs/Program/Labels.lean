import Mathlib.Data.List.Nodup
import Mathlib.Data.List.Perm.Basic
import XtAsm.Proofs.Listing.Reading

/-!
# The labels of a listing

A listing places the labels of the program and those that are made up for loops, choices and
conditions.

* `Program.labels`, `Program.jumps`: the labels of a program, and where its jumps go;
* `Program.freshNames`: the labels that are made up for it;
* `Program.placedLabels_perm`: a listing places both sorts, and no others;
* `Program.labels_resolved`: the labels that are made up are placed once, and all jumps find them,
  unless the program uses such labels itself;
* `Program.nodup_placedLabels_iff`: when no label is placed twice.
-/

namespace XtAsm

open Lexer

namespace Listing

/-- All numbers between two bounds, in order. -/
theorem Fresh.perm_range' {a b : Nat} {ns : List Nat} (h : Fresh a b ns) :
    ns.Perm (List.range' (a + 1) (b - a)) := by
  have count := h.count
  have inside : ns ⊆ List.range' (a + 1) (b - a) := fun n hn => by
    have bounds := h.bounds n hn
    rw [List.mem_range'_1]
    omega
  refine (List.subperm_of_subset h.nodup inside).perm_of_length_le ?_
  rw [List.length_range']
  omega

/-- The text is a dot, an L and decimal digits. -/
def looksFresh : Text → Bool
  | 46 :: 76 :: digits => digits ≠ [] && digits.all Text.isDigitByte
  | _ => false

/-- Labels that are made up look like it. -/
theorem looksFresh_fresh (n : Nat) : looksFresh (Label.fresh n).render = true := by
  have text : (Label.fresh n).render = 46 :: 76 :: Text.ofNat n := rfl
  have ne : Text.ofNat n ≠ [] := Text.ofChars_ne_nil Nat.toDigits_ne_nil
  have digits : ∀ b ∈ Text.ofNat n, Text.isDigitByte b = true :=
    Text.forall_mem_ofChars Text.isDigitByte_of_isDigit fun _ => Text.isDigit_of_mem_toDigits
  rw [text, looksFresh, Bool.and_eq_true, decide_eq_true_eq, List.all_eq_true]
  exact ⟨ne, digits⟩

/-- The labels of lines are those of the program and those that are made up. -/
theorem labelTexts_perm (ls : List Line) :
    (labelTexts ls).Perm (ls.filterMap Line.labelName? ++
      (labelNumbers ls).map fun k => (Label.fresh k).render) := by
  induction ls with
  | nil => exact .nil
  | cons l ls ih =>
    cases l with
    | label l =>
      cases l with
      | named name => exact ih.cons name
      | fresh k => exact (ih.cons _).trans List.perm_middle.symm
    | _ => exact ih

/-- Labels that are not among some others are those of the program, if the others are all that are
made up. -/
theorem filter_render {targets : List Label} {others : List Text}
    (made : ∀ k, .fresh k ∈ targets → (Label.fresh k).render ∈ others)
    (own : ∀ t ∈ targets.filterMap Label.name?, t ∉ others) :
    (targets.map Label.render).filter (· ∉ others) = targets.filterMap Label.name? := by
  induction targets with
  | nil => rfl
  | cons l targets ih =>
    have rest := fun k mem => made k (List.mem_cons_of_mem l mem)
    cases l with
    | named name =>
      have kept : Label.name? (.named name) = some name := rfl
      rw [List.filterMap_cons_some kept, List.forall_mem_cons] at own
      have here : (Label.named name).render ∉ others := own.1
      rw [List.map_cons, List.filterMap_cons_some kept,
        List.filter_cons_of_pos (by simpa using here), ih rest own.2]
      rfl
    | fresh k =>
      have dropped : Label.name? (.fresh k) = none := rfl
      have mem := made k List.mem_cons_self
      rw [List.filterMap_cons_none dropped] at own ⊢
      rw [List.map_cons, List.filter_cons_of_neg (by simpa using mem), ih rest own]

end Listing

namespace Program

open Listing

/-- The names of all labels of a program, at any depth. -/
def labels (p : Program) : List Text := (Node.statementsAll p.code).filterMap Node.label?

/-- Where the jumps of a program go, at any depth. -/
def jumps (p : Program) : List Text := (Node.statementsAll p.code).filterMap Node.jump?

/-- The labels that are made up for a program. -/
def freshNames (p : Program) : List Text :=
  (List.range' 1 (freshLabels p)).map fun k => (Label.fresh k).render

theorem mem_freshNames {p : Program} {t : Text} :
    t ∈ p.freshNames ↔ ∃ k, 1 ≤ k ∧ k ≤ freshLabels p ∧ (Label.fresh k).render = t := by
  simp only [freshNames, List.mem_map, List.mem_range'_1]
  constructor
  · rintro ⟨k, bounds, same⟩
    exact ⟨k, bounds.1, by omega, same⟩
  · rintro ⟨k, lower, upper, same⟩
    exact ⟨k, ⟨lower, by omega⟩, same⟩

theorem nodup_freshNames (p : Program) : p.freshNames.Nodup :=
  List.Nodup.map (fun _ _ => render_fresh_injective) List.nodup_range'

theorem looksFresh_of_mem {p : Program} {t : Text} (h : t ∈ p.freshNames) :
    looksFresh t = true := by
  obtain ⟨k, -, -, rfl⟩ := mem_freshNames.1 h
  exact looksFresh_fresh k

section

variable {s : Source} {ts : List Token} {p : Program} {listing : Text}

/-- **Labels.**  A listing places the labels of the program and those that are made up. -/
theorem placedLabels_perm (lexed : s.lex = .ok ts) (parsed : (ofTokens ts).result = .ok p)
    (generated : ofProgram p = .ok listing) :
    (placedLabels listing).Perm (p.labels ++ p.freshNames) := by
  obtain ⟨ls, ks, contains, fresh, placed, -, -⟩ := exists_contents lexed parsed generated
  rw [placed, labels, ← contains.names]
  refine (labelTexts_perm ls).trans (.append_left _ ?_)
  rw [contains.numbers, freshNames]
  exact fresh.perm_range'.map _

/-- The jumps of a listing that do not go to labels that are made up are those of the program. -/
theorem filter_jumpTargets (lexed : s.lex = .ok ts) (parsed : (ofTokens ts).result = .ok p)
    (generated : ofProgram p = .ok listing) (unlike : ∀ t ∈ p.jumps, t ∉ p.freshNames) :
    (jumpTargets listing).filter (· ∉ p.freshNames) = p.jumps := by
  obtain ⟨ls, ks, contains, fresh, -, targets, -⟩ := exists_contents lexed parsed generated
  rw [jumps, ← contains.jumps] at unlike ⊢
  rw [targets]
  refine filter_render (fun k mem => ?_) unlike
  have bounds := fresh.bounds k ((contains.resolved k mem).resolve_right (by simp))
  exact mem_freshNames.2 ⟨k, by omega, bounds.2, rfl⟩

/-- **Fresh labels.**  If no label and no jump of a program looks like a label that is made up, then
each label that is made up is placed by exactly one line of the listing, nothing else that looks
like it is placed, and all jumps but those of the program go to labels that are made up. -/
theorem labels_resolved (lexed : s.lex = .ok ts) (parsed : (ofTokens ts).result = .ok p)
    (generated : ofProgram p = .ok listing)
    (unlike : ∀ t ∈ p.labels ++ p.jumps, looksFresh t = false) :
    (∀ k, 1 ≤ k → k ≤ freshLabels p → (placedLabels listing).count (Label.fresh k).render = 1) ∧
      (∀ t ∈ placedLabels listing, looksFresh t = true →
        ∃ k, 1 ≤ k ∧ k ≤ freshLabels p ∧ (Label.fresh k).render = t) ∧
      (jumpTargets listing).filter (· ∉ p.freshNames) = p.jumps := by
  have other : ∀ t ∈ p.labels ++ p.jumps, t ∉ p.freshNames := by
    intro t mem made
    have looks := looksFresh_of_mem made
    rw [unlike t mem] at looks
    cases looks
  rw [List.forall_mem_append] at unlike other
  have placed := placedLabels_perm lexed parsed generated
  refine ⟨fun k lower upper => ?_, fun t mem looks => ?_,
    filter_jumpTargets lexed parsed generated other.2⟩
  · have made : (Label.fresh k).render ∈ p.freshNames := mem_freshNames.2 ⟨k, lower, upper, rfl⟩
    have absent : (Label.fresh k).render ∉ p.labels := fun mem => other.1 _ mem made
    rw [placed.count_eq, List.count_append, List.count_eq_zero_of_not_mem absent,
      List.count_eq_one_of_mem p.nodup_freshNames made]
  · rw [placed.mem_iff, List.mem_append] at mem
    refine mem_freshNames.1 (mem.resolve_left fun own => ?_)
    rw [unlike.1 t own] at looks
    cases looks

/-- A file with a label, and a loop with a choice and a jump within. -/
def searchSource : Source :=
  .ofText "search" "#code\n:a loop if .x==0||.y==1 in break end jmp :a end"

/-- Its tokens. -/
def searchTokens : List Token :=
  [⟨.code, "#code", ⟨"search", 1, 1⟩, spanAt 0 5⟩,
   ⟨.label, "a", ⟨"search", 2, 1⟩, spanAt 6 2⟩,
   ⟨.word .loop, "loop", ⟨"search", 2, 4⟩, spanAt 9 4⟩,
   ⟨.word .if_, "if", ⟨"search", 2, 9⟩, spanAt 14 2⟩,
   ⟨.var, "x", ⟨"search", 2, 12⟩, spanAt 17 2⟩,
   ⟨.compare .eq, "==", ⟨"search", 2, 14⟩, spanAt 19 2⟩,
   ⟨.int, "0", ⟨"search", 2, 16⟩, spanAt 21 1⟩,
   ⟨.connect .or_, "||", ⟨"search", 2, 17⟩, spanAt 22 2⟩,
   ⟨.var, "y", ⟨"search", 2, 19⟩, spanAt 24 2⟩,
   ⟨.compare .eq, "==", ⟨"search", 2, 21⟩, spanAt 26 2⟩,
   ⟨.int, "1", ⟨"search", 2, 23⟩, spanAt 28 1⟩,
   ⟨.word .in_, "in", ⟨"search", 2, 25⟩, spanAt 30 2⟩,
   ⟨.word .break_, "break", ⟨"search", 2, 28⟩, spanAt 33 5⟩,
   ⟨.word .end_, "end", ⟨"search", 2, 34⟩, spanAt 39 3⟩,
   ⟨.word .jmp, "jmp", ⟨"search", 2, 38⟩, spanAt 43 3⟩,
   ⟨.label, "a", ⟨"search", 2, 42⟩, spanAt 47 2⟩,
   ⟨.word .end_, "end", ⟨"search", 2, 45⟩, spanAt 50 3⟩]

/-- Its program. -/
def searchProgram : Program :=
  .ofSections [] [.label "a", .loop [.choice [.mk (.ofRelation .eq) (.use "x") (.literal "0"),
    .mk (.ofRelation .eq) (.use "y") (.literal "1")] [.ofJunction .or_] [.leave] [], .jump "a"]]

/-- Its listing. -/
def searchListing : Text :=
  ".data\n.code\na:\n.L1:\n  cmp [x], 0\n  je .L4\n  cmp [y], 1\n  jne .L3\n" ++
    ".L4:\n  jmp .L2\n.L3:\n  jmp a\n  jmp .L1\n.L2:\n"

theorem generated_search :
    searchSource.lex = .ok searchTokens ∧ (ofTokens searchTokens).result = .ok searchProgram ∧
      ofProgram searchProgram = .ok searchListing :=
  ⟨lex_of_toOption (by decide +kernel), rfl, rfl⟩

theorem labels_resolved_search :
    (searchSource.lex = .ok searchTokens ∧ (ofTokens searchTokens).result = .ok searchProgram ∧
      ofProgram searchProgram = .ok searchListing ∧
      ∀ t ∈ searchProgram.labels ++ searchProgram.jumps, looksFresh t = false) ∧
    (∀ k, 1 ≤ k → k ≤ freshLabels searchProgram →
        (placedLabels searchListing).count (Label.fresh k).render = 1) ∧
      (∀ t ∈ placedLabels searchListing, looksFresh t = true →
        ∃ k, 1 ≤ k ∧ k ≤ freshLabels searchProgram ∧ (Label.fresh k).render = t) ∧
      (jumpTargets searchListing).filter (· ∉ searchProgram.freshNames) = searchProgram.jumps := by
  obtain ⟨lexed, parsed, generated⟩ := generated_search
  have unlike : ∀ t ∈ searchProgram.labels ++ searchProgram.jumps, looksFresh t = false := by
    decide
  exact ⟨⟨lexed, parsed, generated, unlike⟩, labels_resolved lexed parsed generated unlike⟩

/-- **Distinct labels.**  No label is placed twice in a listing exactly if the program does not
place one twice, and uses none of those that are made up for it. -/
theorem nodup_placedLabels_iff (lexed : s.lex = .ok ts) (parsed : (ofTokens ts).result = .ok p)
    (generated : ofProgram p = .ok listing) :
    (placedLabels listing).Nodup ↔ p.labels.Nodup ∧
      ∀ k, 1 ≤ k → k ≤ freshLabels p → (Label.fresh k).render ∉ p.labels := by
  rw [(placedLabels_perm lexed parsed generated).nodup_iff, List.nodup_append]
  constructor
  · rintro ⟨distinct, -, disjoint⟩
    exact ⟨distinct, fun k lower upper mem =>
      disjoint _ mem _ (mem_freshNames.2 ⟨k, lower, upper, rfl⟩) rfl⟩
  · rintro ⟨distinct, unused⟩
    refine ⟨distinct, p.nodup_freshNames, ?_⟩
    rintro t mem _ made rfl
    obtain ⟨k, lower, upper, rfl⟩ := mem_freshNames.1 made
    exact unused k lower upper mem

theorem nodup_placedLabels_iff_search :
    (searchSource.lex = .ok searchTokens ∧ (ofTokens searchTokens).result = .ok searchProgram ∧
      ofProgram searchProgram = .ok searchListing) ∧
    ((placedLabels searchListing).Nodup ↔ searchProgram.labels.Nodup ∧
      ∀ k, 1 ≤ k → k ≤ freshLabels searchProgram →
        (Label.fresh k).render ∉ searchProgram.labels) := by
  obtain ⟨lexed, parsed, generated⟩ := generated_search
  exact ⟨⟨lexed, parsed, generated⟩, nodup_placedLabels_iff lexed parsed generated⟩

/-- A file with a label of the sort that is made up, and a loop. -/
def clashSource : Source := .ofText "clash" "#code\n:.L1\nloop break end"

/-- Its tokens. -/
def clashTokens : List Token :=
  [⟨.code, "#code", ⟨"clash", 1, 1⟩, spanAt 0 5⟩,
   ⟨.label, ".L1", ⟨"clash", 2, 1⟩, spanAt 6 4⟩,
   ⟨.word .loop, "loop", ⟨"clash", 3, 1⟩, spanAt 11 4⟩,
   ⟨.word .break_, "break", ⟨"clash", 3, 6⟩, spanAt 16 5⟩,
   ⟨.word .end_, "end", ⟨"clash", 3, 12⟩, spanAt 22 3⟩]

/-- Its program. -/
def clashProgram : Program := .ofSections [] [.label ".L1", .loop [.leave]]

/-- Its listing. -/
def clashListing : Text := ".data\n.code\n.L1:\n.L1:\n  jmp .L2\n  jmp .L1\n.L2:\n"

/-- The only label of a program is placed a second time for a loop. -/
theorem not_nodup_placedLabels :
    (clashSource.lex = .ok clashTokens ∧ (ofTokens clashTokens).result = .ok clashProgram ∧
      ofProgram clashProgram = .ok clashListing) ∧
    clashProgram.labels.Nodup ∧ placedLabels clashListing = [".L1", ".L1", ".L2"] ∧
      ¬ (placedLabels clashListing).Nodup := by
  have lexed : clashSource.lex = .ok clashTokens := lex_of_toOption (by decide +kernel)
  have placed : placedLabels clashListing = [".L1", ".L1", ".L2"] := by decide
  refine ⟨⟨lexed, rfl, rfl⟩, by decide, placed, ?_⟩
  rw [placed]
  decide

end

end Program

end XtAsm
