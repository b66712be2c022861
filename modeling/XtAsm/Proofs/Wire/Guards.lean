import XtAsm.Proofs.Node.Guards
import XtAsm.Proofs.Wire.Recognition

/-!
# Guards in binary form

The comparisons and the connectives of a loop or choice stand in two lists, each with a length of
its own.  Reading does not compare the two lengths, so a program that was read need not have a
source form.

* `guardedLoop`: a loop with any numbers of comparisons and connectives;
* `decode_guardedLoop`: it is read, whatever the numbers are;
* `decode_render_iff_isJoined`: from which bytes only matched guards are read, and which of the
  programs that are read can be printed.
-/

namespace XtAsm.Wire

/-- A program with a single loop, guarded by the given numbers of comparisons and connectives. -/
def guardedLoop (comparisons connectives : Nat) : Program :=
  .ofSections [] [.whileLoop
    (List.replicate comparisons (.mk (.ofRelation .eq) (.register "a") (.literal "1")))
    (List.replicate connectives (.ofJunction .and_)) []]

section GuardedLoop

variable {m n : Nat}

theorem guards_guardedLoop (m n : Nat) : (guardedLoop m n).guards = [⟨m, n⟩] := by
  have within : Node.guardsOf
      (List.replicate m (.mk (.ofRelation .eq) (.register "a") (.literal "1"))) = [] := by
    induction m with
    | zero => rw [List.replicate_zero, Node.guardsOf]
    | succ m ih =>
      rw [List.replicate_succ, Node.guardsOf, ih, Node.guardsIn, Node.guards, Node.guards]
      rfl
  simp [Program.guards, Program.nodes, guardedLoop, Node.guardsAll, Node.guards, within]

/-- The lengths to be written are the two numbers, and small ones. -/
theorem lengths_guardedLoop (hm : m < Text.words) (hn : n < Text.words) :
    ∀ k ∈ lengthsAll (guardedLoop m n).nodes, k < Text.words := by
  have one : 1 < Text.words := by decide
  intro k hk
  simp only [Program.nodes, guardedLoop, Program.data_ofSections, Program.code_ofSections,
    lengthsAll, lengths, lengthsOf_eq_flatMap, List.length_nil, List.length_cons,
    List.length_replicate, List.append_nil, List.mem_append, List.mem_cons, List.mem_flatMap,
    List.mem_replicate, List.not_mem_nil, or_false, Nat.zero_add] at hk
  rcases hk with rfl | rfl | ((rfl | ⟨c, ⟨-, rfl⟩, hk⟩) | rfl) | rfl
  · exact Nat.zero_lt_of_lt one
  · exact one
  · exact hm
  · simp only [lengthsIn, lengths, List.singleton_append, List.mem_cons, List.not_mem_nil,
      or_false] at hk
    rcases hk with rfl | rfl <;> exact one
  · exact hn
  · exact Nat.zero_lt_of_lt one

theorem isKnown_guardedLoop (m n : Nat) :
    ∀ o ∈ operatorsAll (guardedLoop m n).nodes, o.IsKnown := by
  intro o ho
  simp only [Program.nodes, guardedLoop, Program.data_ofSections, Program.code_ofSections,
    operatorsAll, operators, operatorsOf_eq_flatMap, List.map_replicate, List.append_nil,
    List.nil_append, List.mem_append, List.mem_flatMap, List.mem_replicate] at ho
  rcases ho with ⟨c, ⟨-, rfl⟩, ho⟩ | ⟨-, rfl⟩
  · obtain rfl : o = .comparison (.ofRelation .eq) := by
      simpa [operatorsIn, operators] using ho
    decide
  · decide

/-- What is written for such a loop is read, however the numbers relate to each other. -/
theorem decode_guardedLoop (hm : m < Text.words) (hn : n < Text.words) :
    decode (encode (guardedLoop m n)) = .ok (guardedLoop m n) := by
  have known : (operatorsAll (guardedLoop m n).nodes).findSome? Operator.defect? = none :=
    List.findSome?_eq_none_iff.mpr fun o ho =>
      Operator.defect?_eq_none_iff.mpr (isKnown_guardedLoop m n o ho)
  rw [decode_encode_eq _ (lengths_guardedLoop hm hn), known]
  rfl

end GuardedLoop

/-- Reading a program with two sections looks at its operators and at its layout, not at its
guards. -/
theorem decode_ofSections_iff {bytes : Text} {ds cs : List Node} :
    decode bytes = .ok (.ofSections ds cs) ↔
      (∀ o ∈ operatorsAll (Program.ofSections ds cs).nodes, o.IsKnown) ∧
        Relaxed (layout (.ofSections ds cs)) bytes := by
  rw [decode_eq_ok_iff_layout, known_nodes]
  constructor
  · rintro ⟨⟨s, same, known⟩, form⟩
    cases same
    exact ⟨known, form⟩
  · rintro ⟨known, form⟩
    exact ⟨⟨(ds, cs), rfl, known⟩, form⟩

/-- **Reading does not compare the two lengths of a guard.**  All that is read from some bytes has
matched guards, and can be printed, if and only if the bytes are no form of a program with a guard
that is not matched: the reader itself keeps none of these away.  A program that was read is printed
if and only if no comparison lacks the connective before it; otherwise printing looks for a
connective that is not there.  And any two 64-bit words are the numbers of comparisons and
connectives of a loop that is read. -/
theorem decode_render_iff_isJoined (bytes : Text) :
    ((∀ p, decode bytes = .ok p →
        (∀ g ∈ p.guards, g.IsMatched) ∧ ∃ text, p.render = .ok text) ↔
      ∀ ds cs, (∀ o ∈ operatorsAll (Program.ofSections ds cs).nodes, o.IsKnown) →
        Relaxed (layout (.ofSections ds cs)) bytes →
          ∀ g ∈ (Program.ofSections ds cs).guards, g.IsMatched) ∧
    (∀ p, decode bytes = .ok p →
      ((∃ text, p.render = .ok text) ↔ ∀ g ∈ p.guards, g.IsJoined) ∧
      (p.render = .error .outOfRange ↔ ∃ g ∈ p.guards, g.connectives + 1 < g.comparisons)) ∧
    ∀ m n, m < Text.words → n < Text.words →
      ∃ other p, decode other = .ok p ∧ p.guards = [⟨m, n⟩] := by
  refine ⟨⟨fun promise ds cs known form => ?_, fun matched p read => ?_⟩,
    fun p _ => ⟨p.succeedsIff_render.exists_iff, ?_⟩, fun m n hm hn => ?_⟩
  · exact (promise _ (decode_ofSections_iff.mpr ⟨known, form⟩)).1
  · obtain ⟨⟨s, rfl, -⟩, -⟩ := decode_eq_ok_iff_layout.mp read
    obtain ⟨known, form⟩ := decode_ofSections_iff.mp read
    have guards := matched _ _ known form
    exact ⟨guards, (Program.succeedsIff_render _).exists_iff.mpr fun g hg => (guards g hg).isJoined⟩
  · rw [p.succeedsIff_render.error_iff]
    simp [Guard.IsJoined]
  · exact ⟨_, _, decode_guardedLoop hm hn, guards_guardedLoop m n⟩

/-- The bytes of a loop with two comparisons and no connective. -/
def unjoinedBytes : Text :=
  identifier ++ [2, 1, 0, 2, 1, 11, 2, 15, 0, 17, 1, 97, 1, 17, 1, 49, 0,
    15, 0, 17, 1, 97, 1, 17, 1, 49, 0, 0, 0]

theorem decode_render_iff_isJoined_unjoined :
    decode unjoinedBytes = .ok (guardedLoop 2 0) ∧
    (guardedLoop 2 0).render = .error .outOfRange ∧
    ∃ bytes p, decode bytes = .ok p ∧ p.guards = [⟨0, 5⟩] := by
  have read : decode unjoinedBytes = .ok (guardedLoop 2 0) := by rfl
  obtain ⟨-, printed, accepted⟩ := decode_render_iff_isJoined unjoinedBytes
  refine ⟨read, (printed _ read).2.mpr ⟨⟨2, 0⟩, ?_, by decide⟩,
    accepted 0 5 (by decide) (by decide)⟩
  rw [guards_guardedLoop]
  exact List.mem_singleton_self _

/-- Reading accepts a loop without enough connectives, and printing it runs out of them. -/
theorem not_isMatched_of_decode :
    ¬ ∀ bytes p, decode bytes = .ok p →
      (∀ g ∈ p.guards, g.IsMatched) ∧ ∃ text, p.render = .ok text := by
  intro claim
  have read : decode unjoinedBytes = .ok (guardedLoop 2 0) := by rfl
  obtain ⟨matched, -⟩ := claim _ _ read
  have unmatched : (2 : Nat) = 0 + 1 :=
    matched ⟨2, 0⟩ (by rw [guards_guardedLoop]; exact List.mem_singleton_self _)
  exact absurd unmatched (by decide)

end XtAsm.Wire
