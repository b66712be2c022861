import XtAsm.Proofs.Wire.Layout

/-!
# What reading accepts

Reading accepts exactly the relaxed forms of the layouts of programs whose operators are known.

* `Recognises`: a reader that accepts exactly the forms of certain values;
* `recognises_list`, `recognises_text`, …: the readers of the parts of a node;
* `recognises_node`: nodes, by induction on the depth to which they are read;
* `decode_eq_ok_iff_relaxed`: whole programs.
-/

namespace XtAsm.Wire

section Bind

variable {α β : Type} {r : Reader α} {f : α → Reader β} {input mid rest : Text} {a : α} {b : β}

theorem bind_of_ok (h : r input = .ok (a, mid)) : (r >>= f) input = f a mid := by
  show (r input).bind (fun p => f p.1 p.2) = _
  rw [h]
  rfl

theorem exists_of_bind_ok (h : (r >>= f) input = .ok (b, rest)) :
    ∃ a mid, r input = .ok (a, mid) ∧ f a mid = .ok (b, rest) := by
  cases first : r input with
  | error e =>
    have failed : (r >>= f) input = .error e := by
      show (r input).bind (fun p => f p.1 p.2) = _
      rw [first]
      rfl
    rw [failed] at h
    cases h
  | ok p =>
    rw [bind_of_ok first] at h
    exact ⟨p.1, p.2, rfl, h⟩

end Bind

/-- On bytes up to a given number, the reader accepts exactly the forms of the layouts of valid
values.  Whatever it accepts, however long, is such a form. -/
structure Recognises {α : Type} (size : Nat) (r : Reader α) (valid : α → Prop)
    (layout : α → List Item) : Prop where
  sound {input rest : Text} {a : α} (h : r input = .ok (a, rest)) :
    ∃ bytes, input = bytes ++ rest ∧ valid a ∧ Relaxed (layout a) bytes
  complete {a : α} {bytes : Text} (ha : valid a) (form : Relaxed (layout a) bytes)
    (fits : bytes.length ≤ size) (rest : Text) : r (bytes ++ rest) = .ok (a, rest)

namespace Recognises

variable {α β : Type} {size : Nat} {r : Reader α} {valid : α → Prop} {layout : α → List Item}

theorem congr {valid' : α → Prop} (hr : Recognises size r valid layout)
    (h : ∀ a, valid a ↔ valid' a) : Recognises size r valid' layout := by
  have same : valid = valid' := funext fun a => propext (h a)
  exact same ▸ hr

/-- A value that takes up no bytes. -/
theorem ofPure (a : α) (layout : α → List Item) (empty : layout a = []) :
    Recognises size (pure a) (fun b => b = a) layout where
  sound {input rest b} h := by
    cases h
    exact ⟨[], rfl, rfl, empty ▸ .nil⟩
  complete {b bytes} hb form _ rest := by
    subst hb
    rw [empty] at form
    obtain rfl := forms_nil.mp form
    rfl

/-- Two readers in a row, where the final value tells what the first one has read. -/
theorem bind {f : α → Reader β} {valid' : β → Prop} {layout' : β → List Item}
    (hr : Recognises size r valid layout) (key : β → α)
    (hf : ∀ a, Recognises size (f a) (fun b => key b = a ∧ valid' b) layout') :
    Recognises size (r >>= f) (fun b => valid (key b) ∧ valid' b)
      (fun b => layout (key b) ++ layout' b) where
  sound {input rest b} h := by
    obtain ⟨a, mid, first, second⟩ := exists_of_bind_ok h
    obtain ⟨u, rfl, ha, hu⟩ := hr.sound first
    obtain ⟨v, rfl, ⟨rfl, hb⟩, hv⟩ := (hf a).sound second
    exact ⟨u ++ v, by rw [List.append_assoc], ⟨ha, hb⟩, forms_append.mpr ⟨u, v, rfl, hu, hv⟩⟩
  complete {b bytes} hb form fits rest := by
    obtain ⟨u, v, rfl, hu, hv⟩ := forms_append.mp form
    rw [List.length_append] at fits
    have first := hr.complete hb.1 hu (by omega) (v ++ rest)
    rw [List.append_assoc, bind_of_ok first]
    exact (hf (key b)).complete ⟨rfl, hb.2⟩ hv (by omega) rest

/-- A value made from what has been read. -/
theorem map (hr : Recognises size r valid layout) (make : α → β) (layout' : β → List Item)
    (same : ∀ a, layout' (make a) = layout a) :
    Recognises size (r >>= fun a => pure (make a)) (fun b => ∃ a, b = make a ∧ valid a) layout' where
  sound {input rest b} h := by
    obtain ⟨a, mid, first, made⟩ := exists_of_bind_ok h
    obtain ⟨u, rfl, ha, hu⟩ := hr.sound first
    cases made
    exact ⟨u, rfl, ⟨a, rfl, ha⟩, same a ▸ hu⟩
  complete {b bytes} hb form fits rest := by
    obtain ⟨a, rfl, ha⟩ := hb
    rw [same] at form
    rw [bind_of_ok (hr.complete ha form fits rest)]
    rfl

/-- Two values in a row. -/
theorem pair {s : Reader β} {valid' : β → Prop} {layout' : β → List Item}
    (hr : Recognises size r valid layout) (hs : Recognises size s valid' layout') :
    Recognises size (r >>= fun a => s >>= fun b => pure (a, b))
      (fun p => valid p.1 ∧ valid' p.2) (fun p => layout p.1 ++ layout' p.2) := by
  refine hr.bind Prod.fst fun a => ?_
  refine (hs.map (fun b => (a, b)) (fun p => layout' p.2) fun _ => rfl).congr ?_
  rintro ⟨a', b⟩
  constructor
  · rintro ⟨b', eq, hb⟩
    cases eq
    exact ⟨rfl, hb⟩
  · rintro ⟨rfl, hb⟩
    exact ⟨b, rfl, hb⟩

/-- A node of which a certain sort is expected. -/
theorem expect {child : Reader Node} {known : Node → Prop} {nodeLayout : Node → List Item}
    (hc : Recognises size child known nodeLayout) (cast : Node → Reader α) (make : α → Node)
    (made : ∀ a, cast (make a) = pure a)
    (only : ∀ n, (∃ a, n = make a) ∨ ∃ e, cast n = throw e) :
    Recognises size (child >>= cast) (fun a => known (make a)) (fun a => nodeLayout (make a)) := by
  have read : ∀ n, Recognises size (cast n) (fun a => make a = n ∧ True) (fun _ => []) := by
    intro n
    refine ⟨fun {input rest a} accepted => ?_, fun {a bytes} ha form _ rest => ?_⟩
    · rcases only n with ⟨a', rfl⟩ | ⟨e, he⟩
      · rw [made] at accepted
        cases accepted
        exact ⟨[], rfl, ⟨rfl, trivial⟩, .nil⟩
      · rw [he] at accepted
        cases accepted
    · obtain rfl := forms_nil.mp form
      obtain ⟨rfl, -⟩ := ha
      rw [made]
      rfl
  have both := hc.bind make read
  simpa only [List.append_nil, and_true] using both

end Recognises

section Parts

variable {α : Type} {size : Nat}

/-- A reader of one byte. -/
theorem recognises_one {r : Reader α} {valid : α → Prop} {item : α → Item}
    (read : UInt8 → Except Error α) (nil : ∃ e, r [] = .error e)
    (cons : ∀ b rest, r (b :: rest) = (read b).map fun a => (a, rest))
    (form : ∀ a bytes, valid a ∧ (item a).Form bytes ↔ ∃ b, bytes = [b] ∧ read b = .ok a) :
    Recognises size r valid fun a => [item a] where
  sound {input rest a} h := by
    cases input with
    | nil =>
      obtain ⟨e, he⟩ := nil
      rw [he] at h
      cases h
    | cons b tail =>
      rw [cons] at h
      cases accepted : read b with
      | error e =>
        rw [accepted] at h
        cases h
      | ok a' =>
        rw [accepted] at h
        cases h
        obtain ⟨ha, hb⟩ := (form a [b]).mpr ⟨b, rfl, accepted⟩
        exact ⟨[b], rfl, ha, relaxed_singleton.mpr hb⟩
  complete {a bytes} ha hb _ rest := by
    obtain ⟨b, rfl, accepted⟩ := (form a bytes).mp ⟨ha, relaxed_singleton.mp hb⟩
    rw [List.singleton_append, cons, accepted]
    rfl

theorem recognises_bool : Recognises size readBool (fun _ => True) fun b => [.truth b] := by
  refine recognises_one (fun b => .ok (b != 0)) ⟨_, rfl⟩ (fun _ _ => rfl) ?_
  intro a bytes
  cases a with
  | true => simp [Item.Form, and_comm]
  | false => simp [Item.Form]

/-- An operator byte, which may not exceed a bound. -/
theorem recognises_operator {r : Reader α} {most : UInt8} {code : α → UInt8} (make : UInt8 → α)
    (error : UInt8 → Error) (nil : ∃ e, r [] = .error e)
    (cons : ∀ b rest, r (b :: rest) = if most < b then .error (error b) else .ok (make b, rest))
    (code_make : ∀ b, code (make b) = b) (make_code : ∀ a, make (code a) = a) :
    Recognises size r (fun a => code a ≤ most) fun a => [.byte (code a)] := by
  refine recognises_one (fun b => if most < b then .error (error b) else .ok (make b)) nil ?_ ?_
  · intro b rest
    rw [cons]
    split <;> rfl
  · intro a bytes
    constructor
    · rintro ⟨known, form⟩
      refine ⟨code a, form, ?_⟩
      rw [if_neg (UInt8.not_lt.mpr known), make_code]
    · rintro ⟨b, rfl, accepted⟩
      split at accepted
      · cases accepted
      · next known =>
        cases accepted
        rw [code_make]
        exact ⟨UInt8.not_lt.mp known, rfl⟩

theorem recognises_comparator :
    Recognises size readComparator (fun op => op.code ≤ 5) fun op => [.byte op.code] := by
  refine recognises_operator .mk .unknownComparison ⟨_, rfl⟩ (fun b rest => ?_) (fun _ => rfl)
    fun _ => rfl
  show (if 5 < b then _ else _ : Reader Comparator) rest = _
  split <;> rfl

theorem recognises_connective :
    Recognises size readConnective (fun op => op.code ≤ 1) fun op => [.byte op.code] := by
  refine recognises_operator .mk .unknownConnective ⟨_, rfl⟩ (fun b rest => ?_) (fun _ => rfl)
    fun _ => rfl
  show (if 1 < b then _ else _ : Reader Connective) rest = _
  split <;> rfl

/-- Digits are read as long as they go on, up to the given number of them. -/
theorem readDigits_eq_ok_iff {most n : Nat} {input rest : Text} :
    readDigits most input = .ok (n, rest) ↔
      ∃ bytes, input = bytes ++ rest ∧ IsVarint most n bytes := by
  induction most generalizing n input with
  | zero =>
    constructor
    · intro h
      cases h
    · rintro ⟨bytes, -, form⟩
      exact absurd (List.length_eq_zero_iff.mp (Nat.le_zero.mp form.short)) form.ne_nil
  | succ m ih =>
    cases input with
    | nil =>
      constructor
      · intro h
        cases h
      · rintro ⟨bytes, eq, form⟩
        exact absurd (List.append_eq_nil_iff.mp eq.symm).1 form.ne_nil
    | cons b tail =>
      -- a form of a number has a first byte
      have first : (∃ bytes, b :: tail = bytes ++ rest ∧ IsVarint (m + 1) n bytes) ↔
          ∃ bytes, tail = bytes ++ rest ∧ IsVarint (m + 1) n (b :: bytes) := by
        constructor
        · rintro ⟨bytes, eq, form⟩
          obtain ⟨c, bytes, rfl⟩ := List.exists_cons_of_ne_nil form.ne_nil
          obtain ⟨rfl, rfl⟩ := List.cons.inj eq
          exact ⟨bytes, rfl, form⟩
        · rintro ⟨bytes, rfl, form⟩
          exact ⟨b :: bytes, rfl, form⟩
      rw [first]
      by_cases low : b < 128
      · rw [readDigits, if_pos low]
        simp only [isVarint_of_low low]
        constructor
        · intro h
          split at h
          · cases h
          · next fits =>
            cases h
            refine ⟨[], rfl, rfl, fun zero => ?_, rfl⟩
            exact UInt8.not_lt.mp fun above => fits ⟨zero, above⟩
        · rintro ⟨_, rfl, rfl, bit, rfl⟩
          exact if_neg fun both => absurd (bit both.1) (UInt8.not_le.mpr both.2)
      · rw [readDigits, if_neg low]
        simp only [isVarint_of_high (UInt8.not_lt.mp low)]
        constructor
        · intro h
          cases read : readDigits m tail with
          | error e =>
            rw [read] at h
            cases h
          | ok p =>
            rw [read] at h
            cases h
            obtain ⟨bytes, rfl, form⟩ := ih.mp read
            exact ⟨bytes, rfl, p.1, form, rfl⟩
        · rintro ⟨bytes, rfl, high, form, rfl⟩
          rw [ih.mpr ⟨bytes, rfl, form⟩]
          rfl

theorem recognises_varint : Recognises size readVarint (fun _ => True) fun n => [.length n] where
  sound h := by
    obtain ⟨bytes, eq, form⟩ := readDigits_eq_ok_iff.mp h
    exact ⟨bytes, eq, trivial, relaxed_singleton.mpr form⟩
  complete _ form _ _ := readDigits_eq_ok_iff.mpr ⟨_, rfl, relaxed_singleton.mp form⟩

/-- As many values as asked for. -/
theorem recognises_times {item : Reader α} {valid : α → Prop} {layout : α → List Item}
    (h : Recognises size item valid layout) (n : Nat) :
    Recognises size (readTimes item n) (fun as => as.length = n ∧ ∀ a ∈ as, valid a)
      fun as => as.flatMap layout := by
  induction n with
  | zero =>
    refine (Recognises.ofPure [] (fun as => as.flatMap layout) rfl).congr fun as => ?_
    constructor
    · rintro rfl
      simp
    · rintro ⟨none, -⟩
      exact List.length_eq_zero_iff.mp none
  | succ n ih =>
    have both := (h.pair ih).map (fun p => p.1 :: p.2) (fun as => as.flatMap layout) fun _ => rfl
    simp only [bind_assoc, pure_bind] at both
    refine both.congr fun as => ?_
    constructor
    · rintro ⟨p, rfl, ha, size, hs⟩
      exact ⟨by rw [List.length_cons, size], List.forall_mem_cons.mpr ⟨ha, hs⟩⟩
    · rintro ⟨size, hs⟩
      obtain ⟨a, as, rfl⟩ := List.exists_cons_of_length_eq_add_one size
      rw [List.forall_mem_cons] at hs
      exact ⟨(a, as), rfl, hs.1, Nat.succ.inj size, hs.2⟩

/-- Values after their number. -/
theorem recognises_list {item : Reader α} {valid : α → Prop} {layout : α → List Item}
    (h : Recognises size item valid layout) :
    Recognises size (readList item) (fun as => ∀ a ∈ as, valid a)
      fun as => .length as.length :: as.flatMap layout := by
  have both := recognises_varint.bind List.length fun n => recognises_times h n
  simp only [true_and] at both
  exact both

/-- Exactly the given number of bytes. -/
def takeBytes (n : Nat) : Reader Text := fun input =>
  if input.length < n then .error .truncated else .ok (input.take n, input.drop n)

theorem readText_eq : readText = readVarint >>= takeBytes := by
  unfold readText
  congr 1
  funext n input
  show (if input.length < n then _ else _ : Reader Text) input = _
  unfold takeBytes
  by_cases short : input.length < n <;> simp only [short, if_true, if_false] <;> rfl

theorem recognises_text : Recognises size readText (fun _ => True) textItems := by
  have bytes : ∀ n, Recognises size (takeBytes n) (fun t => t.length = n ∧ True)
      fun t => t.map .byte := by
    intro n
    refine ⟨fun {input rest t} read => ?_, fun {t w} ht form _ rest => ?_⟩
    · unfold takeBytes at read
      split at read
      · cases read
      · next fits =>
        cases read
        refine ⟨_, (List.take_append_drop n input).symm, ⟨?_, trivial⟩, relaxed_bytes.mpr rfl⟩
        rw [List.length_take]
        omega
    · obtain rfl := relaxed_bytes.mp form
      obtain ⟨rfl, -⟩ := ht
      rw [takeBytes, if_neg (by rw [List.length_append]; omega), List.take_left, List.drop_left]
  have both := recognises_varint.bind List.length bytes
  simp only [and_true] at both
  rw [readText_eq]
  exact both

end Parts

/-! ### Nodes -/

/-- All operators of the node are known. -/
def Known (n : Node) : Prop := ∀ o ∈ operators n, o.IsKnown

/-- The byte that the binary form of a node starts with. -/
def tag : Node → UInt8
  | .data _ => 1
  | .code _ => 2
  | .label _ => 3
  | .exit _ => 4
  | .assign op _ _ => mnemonicTag op
  | .leave => 8
  | .jump _ => 9
  | .enum _ _ => 10
  | .whileLoop _ _ _ => 11
  | .forLoop _ _ _ _ => 12
  | .loop _ => 13
  | .choice _ _ _ _ => 14
  | .condition _ => 15
  | .var _ => 16
  | .register _ => 17
  | .literal _ => 17

/-- The items of a node after its tag. -/
def fields (n : Node) : List Item := (items n).tail

theorem items_eq_cons (n : Node) : items n = .byte (tag n) :: fields n := by
  cases n with
  | condition c =>
    obtain ⟨op, l, r⟩ := c
    simp [items, conditionItems, tag, fields]
  | var v => simp [items, variableItems, tag, fields]
  | _ => simp [items, tag, fields]

theorem mnemonicTag_ne {op : Mnemonic} {t : UInt8} (h : t ≠ 5 ∧ t ≠ 6 ∧ t ≠ 7) :
    mnemonicTag op ≠ t := by
  cases op with
  | add => exact h.1.symm
  | sub => exact h.2.1.symm
  | mov => exact h.2.2.symm

section Nodes

variable {α : Type} {size : Nat} {child : Reader Node}

/-- The fields of the nodes with a tag, given how such a node is made from what has been read. -/
theorem Recognises.node {r : Reader α} {valid : α → Prop} {layout : α → List Item} {t : UInt8}
    (hr : Recognises size r valid layout) (make : α → Node)
    (shape : ∀ n, tag n = t ↔ ∃ a, n = make a) (known : ∀ a, Known (make a) ↔ valid a)
    (same : ∀ a, fields (make a) = layout a) :
    Recognises size (r >>= fun a => pure (make a)) (fun n => tag n = t ∧ Known n) fields := by
  refine (hr.map make fields same).congr fun n => ?_
  rw [shape]
  constructor
  · rintro ⟨a, rfl, ha⟩
    exact ⟨⟨a, rfl⟩, (known a).mpr ha⟩
  · rintro ⟨⟨a, rfl⟩, ha⟩
    exact ⟨a, rfl, (known a).mp ha⟩

/-- All operators of some nodes are known if those of each node are. -/
theorem known_all {ns : List Node} :
    (∀ o ∈ operatorsAll ns, o.IsKnown) ↔ ∀ n ∈ ns, Known n := by
  simp only [operatorsAll_eq_flatMap, List.mem_flatMap, Known]
  exact ⟨fun h n hn o ho => h o ⟨n, hn, ho⟩, fun h o ⟨n, hn, ho⟩ => h n hn o ho⟩

/-- All operators of some conditions are known if those of each condition are. -/
theorem known_conditions {cs : List Condition} :
    (∀ o ∈ operatorsOf cs, o.IsKnown) ↔ ∀ c ∈ cs, Known (.condition c) := by
  simp only [operatorsOf_eq_flatMap, List.mem_flatMap, Known, operators]
  constructor
  · intro h c hc o ho
    exact h o ⟨c, hc, ho⟩
  · rintro h o ⟨c, hc, ho⟩
    exact h c hc o ho

/-- The connectives themselves are operators. -/
theorem known_connectives {ops : List Connective} :
    (∀ o ∈ ops.map Operator.connective, o.IsKnown) ↔ ∀ op ∈ ops, op.code ≤ 1 :=
  List.forall_mem_map

/-- A node that consists of a body. -/
theorem recognises_body (hc : Recognises size child Known items) (make : List Node → Node)
    {t : UInt8} (shape : ∀ n, tag n = t ↔ ∃ ns, n = make ns)
    (ops : ∀ ns, operators (make ns) = operatorsAll ns)
    (same : ∀ ns, fields (make ns) = .length ns.length :: itemsAll ns) :
    Recognises size (readList child >>= fun ns => pure (make ns)) (fun n => tag n = t ∧ Known n)
      fields := by
  refine (recognises_list hc).node make shape (fun ns => ?_) fun ns => ?_
  · rw [Known, ops, known_all]
  · rw [same, itemsAll_eq_flatMap]

/-- A node that consists of a text. -/
theorem recognises_name (make : Text → Node) {t : UInt8}
    (shape : ∀ n, tag n = t ↔ ∃ name, n = make name) (ops : ∀ name, operators (make name) = [])
    (same : ∀ name, fields (make name) = textItems name) :
    Recognises size (readText >>= fun name => pure (make name)) (fun n => tag n = t ∧ Known n)
      fields := by
  refine recognises_text.node make shape (fun name => ?_) same
  simp [Known, ops]

/-- An instruction with two operands. -/
theorem recognises_assign (hc : Recognises size child Known items) (op : Mnemonic) :
    Recognises size (child >>= fun a => child >>= fun b => pure (.assign op a b))
      (fun n => tag n = mnemonicTag op ∧ Known n) fields := by
  have read := (hc.pair hc).node (t := mnemonicTag op) (fun p => .assign op p.1 p.2)
    (fun n => ?_) (fun p => ?_) fun p => ?_
  · simpa only [bind_assoc, pure_bind] using read
  · cases n with
    | assign op' a b => cases op <;> cases op' <;> simp [tag, mnemonicTag]
    | _ => cases op <;> simp [tag, mnemonicTag]
  · simp only [Known, operators, List.forall_mem_append]
  · simp [fields, items]

theorem recognises_variable (hc : Recognises size child Known items) :
    Recognises size (child >>= asVariable) (fun v => Known (.var v)) fun v => items (.var v) := by
  refine hc.expect asVariable .var (fun _ => rfl) fun n => ?_
  cases n with
  | var v => exact .inl ⟨v, rfl⟩
  | _ => exact .inr ⟨_, rfl⟩

theorem recognises_condition (hc : Recognises size child Known items) :
    Recognises size (child >>= asCondition) (fun c => Known (.condition c))
      fun c => items (.condition c) := by
  refine hc.expect asCondition .condition (fun _ => rfl) fun n => ?_
  cases n with
  | condition c => exact .inl ⟨c, rfl⟩
  | _ => exact .inr ⟨_, rfl⟩

theorem recognises_enum (hc : Recognises size child Known items) :
    Recognises size (readText >>= fun name => readList (child >>= asVariable) >>= fun members =>
      pure (.enum name members)) (fun n => tag n = 10 ∧ Known n) fields := by
  have members := recognises_list (recognises_variable hc)
  have read := (recognises_text.pair members).node (t := 10) (fun p => .enum p.1 p.2)
    (fun n => ?_) (fun p => ?_) fun p => ?_
  · simpa only [bind_assoc, pure_bind] using read
  · cases n <;> simp [tag, mnemonicTag_ne]
  · simp [Known, operators]
  · simp [fields, items]

theorem recognises_whileLoop (hc : Recognises size child Known items) :
    Recognises size (readList (child >>= asCondition) >>= fun conds =>
      readList readConnective >>= fun ops => readList child >>= fun body =>
        pure (.whileLoop conds ops body)) (fun n => tag n = 11 ∧ Known n) fields := by
  have conds := recognises_list (recognises_condition hc)
  have parts := conds.pair ((recognises_list recognises_connective).pair (recognises_list hc))
  have read := parts.node (t := 11) (fun p => .whileLoop p.1 p.2.1 p.2.2)
    (fun n => ?_) (fun p => ?_) fun p => ?_
  · simpa only [bind_assoc, pure_bind] using read
  · cases n <;> simp [tag, mnemonicTag_ne]
  · rw [Known, operators]
    simp only [List.forall_mem_append, known_conditions, known_connectives, known_all, and_assoc]
  · simp [fields, items, itemsOf_eq_flatMap, connectiveItems, itemsAll_eq_flatMap]

theorem recognises_forLoop (hc : Recognises size child Known items) :
    Recognises size (child >>= fun counter => child >>= fun limit => child >>= fun increment =>
      readList child >>= fun body => pure (.forLoop counter limit increment body))
      (fun n => tag n = 12 ∧ Known n) fields := by
  have parts := hc.pair (hc.pair (hc.pair (recognises_list hc)))
  have read := parts.node (t := 12) (fun p => .forLoop p.1 p.2.1 p.2.2.1 p.2.2.2)
    (fun n => ?_) (fun p => ?_) fun p => ?_
  · simpa only [bind_assoc, pure_bind] using read
  · cases n <;> simp [tag, mnemonicTag_ne]
  · rw [Known, operators]
    simp only [List.forall_mem_append, known_all, Known, and_assoc]
  · simp [fields, items, itemsAll_eq_flatMap]

theorem recognises_choice (hc : Recognises size child Known items) :
    Recognises size (readList (child >>= asCondition) >>= fun conds =>
      readList readConnective >>= fun ops => readList child >>= fun thenBody =>
        readList child >>= fun elseBody => pure (.choice conds ops thenBody elseBody))
      (fun n => tag n = 14 ∧ Known n) fields := by
  have conds := recognises_list (recognises_condition hc)
  have bodies := (recognises_list hc).pair (recognises_list hc)
  have parts := conds.pair ((recognises_list recognises_connective).pair bodies)
  have read := parts.node (t := 14) (fun p => .choice p.1 p.2.1 p.2.2.1 p.2.2.2)
    (fun n => ?_) (fun p => ?_) fun p => ?_
  · simpa only [bind_assoc, pure_bind] using read
  · cases n <;> simp [tag, mnemonicTag_ne]
  · rw [Known, operators]
    simp only [List.forall_mem_append, known_conditions, known_connectives, known_all, and_assoc]
  · simp [fields, items, itemsOf_eq_flatMap, connectiveItems, itemsAll_eq_flatMap]

theorem recognises_comparison (hc : Recognises size child Known items) :
    Recognises size (readComparator >>= fun op => child >>= fun lhs => child >>= fun rhs =>
      pure (.condition (.mk op lhs rhs))) (fun n => tag n = 15 ∧ Known n) fields := by
  have parts := recognises_comparator.pair (hc.pair hc)
  have read := parts.node (t := 15) (fun p => .condition (.mk p.1 p.2.1 p.2.2))
    (fun n => ?_) (fun p => ?_) fun p => ?_
  · simpa only [bind_assoc, pure_bind] using read
  · cases n with
    | condition c =>
      obtain ⟨op, l, r⟩ := c
      simp [tag]
    | _ => simp [tag, mnemonicTag_ne]
  · rw [Known, operators, operatorsIn]
    simp only [List.forall_mem_cons, List.forall_mem_append, Known, Operator.IsKnown]
  · simp [fields, items, conditionItems]

theorem recognises_var :
    Recognises size (readText >>= fun name => readText >>= fun value => readBool >>= fun b =>
      pure (.var ⟨name, value, b⟩)) (fun n => tag n = 16 ∧ Known n) fields := by
  have parts : Recognises size _ _ _ := recognises_text.pair (recognises_text.pair recognises_bool)
  have read := parts.node (t := 16) (fun p => .var ⟨p.1, p.2.1, p.2.2⟩)
    (fun n => ?_) (fun p => ?_) fun p => ?_
  · simpa only [bind_assoc, pure_bind] using read
  · cases n with
    | var v => exact ⟨fun _ => ⟨(v.name, v.value, v.isDeclaration), rfl⟩, fun _ => rfl⟩
    | _ => simp [tag, mnemonicTag_ne]
  · simp [Known, operators]
  · simp [fields, items, variableItems]

theorem recognises_operand :
    Recognises size (readText >>= fun value => readBool >>= fun b =>
      pure (if b then .register value else .literal value)) (fun n => tag n = 17 ∧ Known n)
      fields := by
  have parts : Recognises size _ _ _ := recognises_text.pair recognises_bool
  have read := parts.node (t := 17) (fun p => if p.2 then .register p.1 else .literal p.1)
    (fun n => ?_) (fun p => ?_) fun p => ?_
  · simpa only [bind_assoc, pure_bind] using read
  · cases n <;> simp [tag, mnemonicTag_ne]
  · obtain ⟨value, _ | _⟩ := p <;> simp [Known, operators]
  · obtain ⟨value, _ | _⟩ := p <;> simp [fields, items]

/-- The fields that the tag of a node chooses. -/
theorem recognises_fields (hc : Recognises size child Known items) (t : UInt8) :
    Recognises size (readFields child t) (fun n => tag n = t ∧ Known n) fields := by
  unfold readFields
  split
  case h_1 =>
    refine recognises_body hc .data (fun n => ?_) (fun ns => by rw [operators]) fun ns => ?_
    · cases n <;> simp [tag, mnemonicTag_ne]
    · simp [fields, items]
  case h_2 =>
    refine recognises_body hc .code (fun n => ?_) (fun ns => by rw [operators]) fun ns => ?_
    · cases n <;> simp [tag, mnemonicTag_ne]
    · simp [fields, items]
  case h_3 =>
    refine recognises_name .label (fun n => ?_) (fun name => by rw [operators]) fun name => ?_
    · cases n <;> simp [tag, mnemonicTag_ne]
    · simp [fields, items]
  case h_4 =>
    refine hc.node .exit (fun n => ?_) (fun value => ?_) fun value => ?_
    · cases n <;> simp [tag, mnemonicTag_ne]
    · rw [Known, operators, Known]
    · simp [fields, items]
  case h_5 => exact recognises_assign hc .add
  case h_6 => exact recognises_assign hc .sub
  case h_7 => exact recognises_assign hc .mov
  case h_8 =>
    refine (Recognises.ofPure .leave fields (by simp [fields, items])).congr fun n => ?_
    cases n <;> simp [tag, mnemonicTag_ne, Known, operators]
  case h_9 =>
    refine recognises_name .jump (fun n => ?_) (fun name => by rw [operators]) fun name => ?_
    · cases n <;> simp [tag, mnemonicTag_ne]
    · simp [fields, items]
  case h_10 => exact recognises_enum hc
  case h_11 => exact recognises_whileLoop hc
  case h_12 => exact recognises_forLoop hc
  case h_13 =>
    refine recognises_body hc .loop (fun n => ?_) (fun ns => by rw [operators]) fun ns => ?_
    · cases n <;> simp [tag, mnemonicTag_ne]
    · simp [fields, items]
  case h_14 => exact recognises_choice hc
  case h_15 => exact recognises_comparison hc
  case h_16 => exact recognises_var
  case h_17 => exact recognises_operand
  case h_18 =>
    refine ⟨fun {input rest n} h => (by cases h), fun {n bytes} hn => ?_⟩
    obtain ⟨rfl, -⟩ := hn
    cases n with
    | assign op target source => cases op <;> simp_all [tag, mnemonicTag]
    | _ => simp_all [tag]

end Nodes

/-- Every node is read from exactly its relaxed forms, as far as they are no longer than the depth
to which nodes are read: each level of a node takes a byte for its tag. -/
theorem recognises_node (depth : Nat) : Recognises depth (readNode depth) Known items := by
  induction depth with
  | zero =>
    refine ⟨fun {input rest n} h => (by cases h), fun {n bytes} _ form fits rest => ?_⟩
    rw [items_eq_cons] at form
    obtain ⟨tail, rfl, -⟩ := relaxed_byte.mp form
    exact absurd fits (by simp)
  | succ depth ih =>
    refine ⟨fun {input rest n} h => ?_, fun {n bytes} known form fits rest => ?_⟩
    · obtain ⟨t, mid, first, second⟩ := exists_of_bind_ok h
      obtain ⟨bytes, rfl, ⟨rfl, known⟩, form⟩ := (recognises_fields ih t).sound second
      cases input with
      | nil => cases first
      | cons b tail =>
        cases first
        refine ⟨tag n :: bytes, rfl, known, ?_⟩
        rw [items_eq_cons]
        exact relaxed_byte.mpr ⟨bytes, rfl, form⟩
    · rw [items_eq_cons] at form
      obtain ⟨tail, rfl, hs⟩ := relaxed_byte.mp form
      rw [List.length_cons] at fits
      exact (recognises_fields ih (tag n)).complete ⟨rfl, known⟩ hs (by omega) rest

/-! ### Programs -/

theorem recognises_data (depth : Nat) :
    Recognises depth (readNode depth >>= asData) (fun ds => Known (.data ds))
      fun ds => items (.data ds) := by
  refine (recognises_node depth).expect asData .data (fun _ => rfl) fun n => ?_
  cases n with
  | data ds => exact .inl ⟨ds, rfl⟩
  | _ => exact .inr ⟨_, rfl⟩

theorem recognises_code (depth : Nat) :
    Recognises depth (readNode depth >>= asCode) (fun cs => Known (.code cs))
      fun cs => items (.code cs) := by
  refine (recognises_node depth).expect asCode .code (fun _ => rfl) fun n => ?_
  cases n with
  | code cs => exact .inl ⟨cs, rfl⟩
  | _ => exact .inr ⟨_, rfl⟩

/-- The two sections in a row. -/
theorem recognises_sections (depth : Nat) :
    Recognises depth (readProgram depth)
      (fun p => ∃ s : List Node × List Node, p = .ofSections s.1 s.2 ∧ Known (.data s.1) ∧
        Known (.code s.2))
      fun p => items (.data p.data) ++ items (.code p.code) := by
  have both := ((recognises_data depth).pair (recognises_code depth)).map
    (fun s => Program.ofSections s.1 s.2)
    (fun p => items (.data p.data) ++ items (.code p.code)) fun _ => rfl
  unfold readProgram
  simpa only [bind_assoc, pure_bind] using both

/-- After identifier and version the sections are read, and nothing may follow them. -/
theorem decode_header (rest : Text) :
    decode (identifier ++ version :: rest) = (readProgram rest.length rest).bind fun r =>
      if r.2 ≠ [] then .error (.trailing r.2.length) else .ok r.1 := by
  unfold decode
  rw [List.take_left, List.drop_left]
  rfl

/-- Whatever is read starts with identifier and version. -/
theorem exists_header {bytes : Text} {p : Program} (h : decode bytes = .ok p) :
    ∃ rest, bytes = identifier ++ version :: rest := by
  unfold decode at h
  by_cases found : bytes.take identifier.length = identifier
  · cases after : bytes.drop identifier.length with
    | nil =>
      rw [found, after] at h
      cases h
    | cons v rest =>
      by_cases supported : v = version
      · have whole := List.take_append_drop identifier.length bytes
        rw [found, after, supported] at whole
        exact ⟨rest, whole.symm⟩
      · rw [found, after] at h
        simp [supported, throw, throwThe, MonadExceptOf.throw, bind, Except.bind] at h
  · simp [found, throw, throwThe, MonadExceptOf.throw, bind, Except.bind] at h

theorem decode_eq_ok_iff {bytes : Text} {p : Program} :
    decode bytes = .ok p ↔ ∃ rest, bytes = identifier ++ version :: rest ∧
      readProgram rest.length rest = .ok (p, []) := by
  constructor
  · intro h
    obtain ⟨rest, rfl⟩ := exists_header h
    refine ⟨rest, rfl, ?_⟩
    rw [decode_header] at h
    cases read : readProgram rest.length rest with
    | error e =>
      rw [read] at h
      cases h
    | ok r =>
      obtain ⟨q, left⟩ := r
      rw [read] at h
      cases left with
      | nil =>
        cases h
        rfl
      | cons b left => cases h
  · rintro ⟨rest, rfl, read⟩
    rw [decode_header, read]
    rfl

/-- The operators of a program are those of its sections. -/
theorem known_nodes {ds cs : List Node} :
    (∀ o ∈ operatorsAll (Program.ofSections ds cs).nodes, o.IsKnown) ↔
      Known (.data ds) ∧ Known (.code cs) := by
  simp [known_all, Program.nodes]

theorem relaxed_layout {p : Program} {bytes : Text} :
    Relaxed (layout p) bytes ↔ ∃ rest, bytes = identifier ++ version :: rest ∧
      Relaxed (items (.data p.data) ++ items (.code p.code)) rest := by
  rw [layout, Relaxed, forms_append]
  constructor
  · rintro ⟨u, v, rfl, hu, hv⟩
    obtain rfl := relaxed_bytes.mp hu
    obtain ⟨rest, rfl, hs⟩ := relaxed_byte.mp hv
    exact ⟨rest, rfl, hs⟩
  · rintro ⟨rest, rfl, hs⟩
    exact ⟨identifier, version :: rest, rfl, relaxed_bytes.mpr rfl,
      relaxed_byte.mpr ⟨rest, rfl, hs⟩⟩

/-- Programs are read from exactly the relaxed forms of their layouts. -/
theorem decode_eq_ok_iff_layout {bytes : Text} {p : Program} :
    decode bytes = .ok p ↔
      (∃ s : List Node × List Node, p = .ofSections s.1 s.2 ∧ Known (.data s.1) ∧
        Known (.code s.2)) ∧ Relaxed (layout p) bytes := by
  rw [decode_eq_ok_iff, relaxed_layout]
  constructor
  · rintro ⟨rest, rfl, read⟩
    obtain ⟨u, eq, valid, form⟩ := (recognises_sections _).sound read
    rw [List.append_nil] at eq
    exact ⟨valid, rest, rfl, eq ▸ form⟩
  · rintro ⟨valid, rest, rfl, form⟩
    have read := (recognises_sections rest.length).complete valid form (Nat.le_refl _) []
    rw [List.append_nil] at read
    exact ⟨rest, rfl, read⟩

/-- **Reading accepts exactly the relaxed forms.**  What is written for a program is written for its
layout.  Bytes are read as a program with two sections if and only if all its operators are known
and the bytes consist of one form for each item of its layout: lengths in any form of base 128 that
stays within 64 bits, and any byte but zero for true.  So whatever has been read is written and read
back, in no more bytes, and in the same bytes if these have no slack. -/
theorem decode_eq_ok_iff_relaxed (bytes : Text) :
    (∀ p, encode p = write (layout p)) ∧
    (∀ ds cs, decode bytes = .ok (.ofSections ds cs) ↔
      (∀ o ∈ operatorsAll (Program.ofSections ds cs).nodes, o.IsKnown) ∧
        Relaxed (layout (.ofSections ds cs)) bytes) ∧
    ∀ p, decode bytes = .ok p →
      decode (encode p) = .ok p ∧ (encode p).length ≤ bytes.length ∧
        (Forms (fun i u => i.Form u ∧ i.Tight u) (layout p) bytes → encode p = bytes) := by
  refine ⟨encode_eq_write, fun ds cs => ?_, fun p h => ?_⟩
  · rw [decode_eq_ok_iff_layout, known_nodes]
    constructor
    · rintro ⟨⟨s, eq, known⟩, form⟩
      cases eq
      exact ⟨known, form⟩
    · rintro ⟨known, form⟩
      exact ⟨⟨(ds, cs), rfl, known⟩, form⟩
  · obtain ⟨valid, form⟩ := decode_eq_ok_iff_layout.mp h
    obtain ⟨again, shorter⟩ := relaxed_write form
    rw [encode_eq_write]
    exact ⟨decode_eq_ok_iff_layout.mpr ⟨valid, again⟩, shorter, fun tight => (eq_write tight).symm⟩

/-- Lengths in two and three bytes, and seven for true. -/
theorem decode_eq_ok_iff_relaxed_slack :
    let bytes : Text :=
      identifier ++ [2, 1, 0x81, 0, 16, 0x81, 0x80, 0, 120, 0x80, 0, 7, 2, 0x80, 0]
    let p := Program.ofSections [.declaration "x" []] []
    decode bytes = .ok p ∧ decode (encode p) = .ok p ∧ (encode p).length ≤ bytes.length := by
  intro bytes p
  have h : decode bytes = .ok p := by rfl
  obtain ⟨again, shorter, -⟩ := (decode_eq_ok_iff_relaxed bytes).2.2 p h
  exact ⟨h, again, shorter⟩

end XtAsm.Wire
