import XtAsm.Proofs.Wire.Recognition

/-!
# Cut and continued bytes

A reader either runs out of bytes, or what it makes of them is settled: neither bytes that follow
nor a greater depth change it any more.  So the binary form of a program shows where it ends.

* `Settles`: the outcome of one reader, unless it runs out of bytes, is that of another one on all
  continuations of these bytes;
* `settles_list`, `settles_text`, …: the readers of the parts of a node;
* `settles_node`: nodes, by induction on the depth to which they are read;
* `decode_cut_or_continued`: whole programs.
-/

namespace XtAsm.Wire

/-- Unless the first reader runs out of bytes, the second one comes to the same outcome on every
continuation of these bytes, and leaves the continuation as it is. -/
def Settles {α : Type} (r r' : Reader α) : Prop :=
  ∀ input more, r input = .error .truncated ∨
    r' (input ++ more) = (r input).map fun p => (p.1, p.2 ++ more)

section Readers

variable {α β : Type} {r r' : Reader α}

theorem settles_pure (a : α) : Settles (pure a) (pure a) := fun _ _ => .inr rfl

theorem settles_throw (e : Error) : Settles (throw e : Reader α) (throw e) := fun _ _ => .inr rfl

theorem bind_of_error {f : α → Reader β} {input : Text} {e : Error} (h : r input = .error e) :
    (r >>= f) input = .error e := by
  show (r input).bind (fun p => f p.1 p.2) = _
  rw [h]
  rfl

/-- Two readers in a row: the second one goes on where the first one stopped. -/
theorem Settles.bind {f f' : α → Reader β} (hr : Settles r r') (hf : ∀ a, Settles (f a) (f' a)) :
    Settles (r >>= f) (r' >>= f') := by
  intro input more
  rcases hr input more with short | settled
  · exact .inl (bind_of_error short)
  · cases first : r input with
    | error e =>
      rw [first] at settled
      rw [bind_of_error first, bind_of_error settled]
      exact .inr rfl
    | ok p =>
      rw [first] at settled
      rw [bind_of_ok first, bind_of_ok settled]
      exact hf p.1 p.2 more

theorem Settles.map (hr : Settles r r') (make : α → β) :
    Settles (r >>= fun a => pure (make a)) (r' >>= fun a => pure (make a)) :=
  hr.bind fun a => settles_pure (make a)

theorem settles_byte : Settles readByte readByte := by
  intro input more
  cases input with
  | nil => exact .inl rfl
  | cons b rest => exact .inr rfl

theorem settles_digits (most : Nat) : Settles (readDigits most) (readDigits most) := by
  induction most with
  | zero => exact fun _ _ => .inl rfl
  | succ m ih =>
    intro input more
    cases input with
    | nil => exact .inl rfl
    | cons b rest =>
      rw [List.cons_append, readDigits, readDigits]
      by_cases low : b < 128
      · rw [if_pos low, if_pos low]
        split
        · exact .inl rfl
        · exact .inr rfl
      · rw [if_neg low, if_neg low]
        rcases ih rest more with short | settled
        · rw [short]
          exact .inl rfl
        · rw [settled]
          cases readDigits m rest with
          | error e => exact .inr rfl
          | ok p => exact .inr rfl

theorem settles_varint : Settles readVarint readVarint := settles_digits 10

theorem settles_takeBytes (n : Nat) : Settles (takeBytes n) (takeBytes n) := by
  intro input more
  unfold takeBytes
  by_cases short : input.length < n
  · exact .inl (if_pos short)
  · right
    have enough : ¬ (input ++ more).length < n := by
      rw [List.length_append]
      omega
    rw [if_neg short, if_neg enough, List.take_append_of_le_length (by omega),
      List.drop_append_of_le_length (by omega)]
    rfl

theorem settles_text : Settles readText readText := by
  rw [readText_eq]
  exact settles_varint.bind settles_takeBytes

theorem settles_bool : Settles readBool readBool := settles_byte.map _

theorem settles_comparator : Settles readComparator readComparator := by
  refine settles_byte.bind fun b => ?_
  by_cases unknown : 5 < b
  · rw [if_pos unknown]
    exact (settles_throw _).bind fun _ => settles_pure _
  · rw [if_neg unknown]
    exact settles_pure _

theorem settles_connective : Settles readConnective readConnective := by
  refine settles_byte.bind fun b => ?_
  by_cases unknown : 1 < b
  · rw [if_pos unknown]
    exact (settles_throw _).bind fun _ => settles_pure _
  · rw [if_neg unknown]
    exact settles_pure _

theorem settles_times (h : Settles r r') (n : Nat) :
    Settles (readTimes r n) (readTimes r' n) := by
  induction n with
  | zero => exact settles_pure []
  | succ n ih => exact h.bind fun a => ih.map (a :: ·)

theorem settles_list (h : Settles r r') : Settles (readList r) (readList r') :=
  settles_varint.bind (settles_times h)

end Readers

/-! ### Nodes -/

section Nodes

variable {child child' : Reader Node}

-- Whether a node is of the expected sort does not depend on any bytes.

theorem settles_variable (h : Settles child child') :
    Settles (child >>= asVariable) (child' >>= asVariable) :=
  h.bind fun n _ _ => .inr (by cases n <;> rfl)

theorem settles_condition (h : Settles child child') :
    Settles (child >>= asCondition) (child' >>= asCondition) :=
  h.bind fun n _ _ => .inr (by cases n <;> rfl)

theorem settles_data (h : Settles child child') :
    Settles (child >>= asData) (child' >>= asData) :=
  h.bind fun n _ _ => .inr (by cases n <;> rfl)

theorem settles_code (h : Settles child child') :
    Settles (child >>= asCode) (child' >>= asCode) :=
  h.bind fun n _ _ => .inr (by cases n <;> rfl)

/-- The fields that the tag of a node chooses. -/
theorem settles_fields (h : Settles child child') (t : UInt8) :
    Settles (readFields child t) (readFields child' t) := by
  have list := settles_list h
  have conditions := settles_list (settles_condition h)
  have connectives := settles_list settles_connective
  unfold readFields
  split
  case h_1 => exact list.map _
  case h_2 => exact list.map _
  case h_3 => exact settles_text.map _
  case h_4 => exact h.map _
  case h_5 | h_6 | h_7 => exact h.bind fun _ => h.map _
  case h_8 => exact settles_pure _
  case h_9 => exact settles_text.map _
  case h_10 => exact settles_text.bind fun _ => (settles_list (settles_variable h)).map _
  case h_11 => exact conditions.bind fun _ => connectives.bind fun _ => list.map _
  case h_12 => exact h.bind fun _ => h.bind fun _ => h.bind fun _ => list.map _
  case h_13 => exact list.map _
  case h_14 =>
    exact conditions.bind fun _ => connectives.bind fun _ => list.bind fun _ => list.map _
  case h_15 => exact settles_comparator.bind fun _ => h.bind fun _ => h.map _
  case h_16 => exact settles_text.bind fun _ => settles_text.bind fun _ => settles_bool.map _
  case h_17 => exact settles_text.bind fun _ => settles_bool.map _
  case h_18 => exact settles_throw _

end Nodes

/-- What a node is read as does not change with the depth, once that is reached. -/
theorem settles_node {depth depth' : Nat} (le : depth ≤ depth') :
    Settles (readNode depth) (readNode depth') := by
  induction depth generalizing depth' with
  | zero => exact fun _ _ => .inl rfl
  | succ depth ih =>
    obtain ⟨deeper, rfl⟩ := Nat.exists_eq_add_of_lt le
    exact settles_byte.bind fun t => settles_fields (ih (by omega)) t

theorem settles_program {depth depth' : Nat} (le : depth ≤ depth') :
    Settles (readProgram depth) (readProgram depth') :=
  (settles_data (settles_node le)).bind fun _ => (settles_code (settles_node le)).map _

/-! ### Programs -/

section Programs

variable {bytes cut rest more : Text} {p : Program}

theorem decode_of_short (short : bytes.length < identifier.length) :
    decode bytes = .error .missingIdentifier := by
  have absent : bytes.take identifier.length ≠ identifier := by
    intro found
    have size := congrArg List.length found
    rw [List.length_take] at size
    omega
  unfold decode
  rw [if_pos absent]
  rfl

theorem decode_identifier : decode identifier = .error .missingVersion := by rfl

/-- A proper part of the sections of a program ends too early. -/
theorem decode_of_cut (read : readProgram (rest ++ more).length (rest ++ more) = .ok (p, []))
    (ne : more ≠ []) : decode (identifier ++ version :: rest) = .error .truncated := by
  have le : rest.length ≤ (rest ++ more).length := by simp
  rw [decode_header]
  rcases settles_program le rest more with short | settled
  · rw [short]
    rfl
  · -- otherwise the bytes that were cut off would be left over
    rw [read] at settled
    cases first : readProgram rest.length rest with
    | error e =>
      rw [first] at settled
      cases settled
    | ok q =>
      rw [first] at settled
      injection settled with same
      have left : q.2 ++ more = [] := (congrArg Prod.snd same).symm
      exact absurd (List.append_eq_nil_iff.mp left).2 ne

/-- Bytes behind the sections of a program are left over. -/
theorem decode_of_more (read : readProgram rest.length rest = .ok (p, [])) (ne : more ≠ []) :
    decode (identifier ++ version :: (rest ++ more)) = .error (.trailing more.length) := by
  have le : rest.length ≤ (rest ++ more).length := by simp
  rw [decode_header]
  rcases settles_program le rest more with short | settled
  · rw [read] at short
    cases short
  · rw [settled, read]
    exact if_pos ne

/-- A part of the bytes stops within the identifier, right behind it, or within the rest. -/
theorem prefix_header_cases (h : cut <+: identifier ++ version :: rest) :
    cut.length < identifier.length ∨ cut = identifier ∨
      ∃ front, cut = identifier ++ version :: front ∧ front <+: rest := by
  rcases Nat.lt_trichotomy cut.length identifier.length with short | exact | long
  · exact .inl short
  · right
    left
    have same := List.prefix_of_prefix_length_le h (List.prefix_append _ _) (Nat.le_of_eq exact)
    exact same.eq_of_length exact
  · right
    right
    have within := List.prefix_of_prefix_length_le (List.prefix_append _ _) h (Nat.le_of_lt long)
    obtain ⟨tail, rfl⟩ := within
    rw [List.prefix_append_right_inj] at h
    cases tail with
    | nil => simp at long
    | cons v front =>
      obtain ⟨rfl, front_le⟩ := List.cons_prefix_cons.mp h
      exact ⟨front, rfl, front_le⟩

end Programs

/-- **The binary form of a program shows where it ends.**  If bytes are read as a program, then no
proper part of them from the start on is, and no continuation of them.  The objection to a part
tells how far it goes, and the objection to a continuation tells its length. -/
theorem decode_cut_or_continued {bytes : Text} {p : Program} (h : decode bytes = .ok p) :
    (∀ cut, cut <+: bytes → cut ≠ bytes → ∃ e, decode cut = .error e ∧
      e.message =
        if cut.length < 5 then ("wire: missing identifier" : Text)
        else if cut.length = 5 then ("wire: missing version" : Text)
        else ("wire: truncated input" : Text)) ∧
    ∀ more, more ≠ [] → ∃ e, decode (bytes ++ more) = .error e ∧
      e.message = "wire: " ++ Text.ofNat more.length ++ " trailing bytes" := by
  obtain ⟨rest, rfl, read⟩ := decode_eq_ok_iff.mp h
  have size : identifier.length = 5 := rfl
  refine ⟨fun cut part ne => ?_, fun more some => ?_⟩
  · rcases prefix_header_cases part with short | rfl | ⟨front, rfl, tail, rfl⟩
    · exact ⟨_, decode_of_short short, by rw [if_pos (size ▸ short)]; rfl⟩
    · exact ⟨_, decode_identifier, rfl⟩
    · have left : tail ≠ [] := fun none => ne (by rw [none, List.append_nil])
      refine ⟨_, decode_of_cut read left, ?_⟩
      rw [if_neg (by simp [size]), if_neg (by simp [size])]
      rfl
  · refine ⟨.trailing more.length, ?_, rfl⟩
    rw [List.append_assoc]
    exact decode_of_more read some

/-- The declaration of a variable, whose name takes up two bytes, cut within that name and continued
by a byte. -/
theorem decode_cut_or_continued_name :
    let bytes : Text := identifier ++ [2, 1, 1, 16, 2, 120, 121, 0, 1, 2, 0]
    decode bytes = .ok (.ofSections [.declaration "xy" []] []) ∧
    (∃ e, decode (bytes.take 11) = .error e ∧ e.message = ("wire: truncated input" : Text)) ∧
    ∃ e, decode (bytes ++ [0]) = .error e ∧ e.message = ("wire: 1 trailing bytes" : Text) := by
  intro bytes
  have h : decode bytes = .ok (.ofSections [.declaration "xy" []] []) := by rfl
  obtain ⟨cut, continued⟩ := decode_cut_or_continued h
  exact ⟨h, cut (bytes.take 11) (List.take_prefix 11 bytes) (by decide), continued [0] (by decide)⟩

end XtAsm.Wire
