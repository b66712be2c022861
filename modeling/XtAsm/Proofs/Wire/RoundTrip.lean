import XtAsm.Proofs.Node.Induction
import XtAsm.Text.Integer
import XtAsm.Wire.Decode

/-!
# Reading back the binary form

What has been written is read back, as far as its operators have a meaning.  Otherwise reading
stops at the first operator without one, in the order in which they were written.

* `Operator`, `operators`: the operator bytes of a tree, in the order of writing;
* `lengths`: the numbers of a tree that are written in base 128;
* `Reads`: how a reader fares on bytes that were written for a value;
* `decode_encode`: the round trip of a whole program.
-/

namespace XtAsm.Wire

/-! ### Operators and lengths -/

/-- An operator byte of a tree. -/
inductive Operator
  | comparison (op : Comparator)
  | connective (op : Connective)
  deriving DecidableEq

namespace Operator

/-- The byte stands for an operator of source text. -/
def IsKnown : Operator → Prop
  | .comparison op => op.code ≤ 5
  | .connective op => op.code ≤ 1

instance (o : Operator) : Decidable o.IsKnown := by
  cases o <;> exact inferInstanceAs (Decidable (_ ≤ _))

/-- What reading objects to. -/
def error : Operator → Error
  | .comparison op => .unknownComparison op.code
  | .connective op => .unknownConnective op.code

/-- The objection to an operator, unless it is known. -/
def defect? (o : Operator) : Option Error := if o.IsKnown then none else some o.error

theorem defect?_eq_none_iff {o : Operator} : o.defect? = none ↔ o.IsKnown := by
  by_cases known : o.IsKnown <;> simp [defect?, known]

theorem defect?_eq_some_iff {o : Operator} {e : Error} :
    o.defect? = some e ↔ ¬ o.IsKnown ∧ o.error = e := by
  by_cases known : o.IsKnown <;> simp [defect?, known]

/-- The message about an operator that is not known. -/
def complaint : Operator → Text
  | .comparison op => "wire: unknown comparison " ++ Text.ofNat op.code.toNat
  | .connective op => "wire: unknown boolean operator " ++ Text.ofNat op.code.toNat

theorem message_error (o : Operator) : o.error.message = o.complaint := by
  cases o <;> rfl

end Operator

mutual

/-- The operators of a node, in the order in which they are written. -/
def operators : Node → List Operator
  | .data declarations => operatorsAll declarations
  | .code instructions => operatorsAll instructions
  | .exit value => operators value
  | .assign _ target source => operators target ++ operators source
  | .whileLoop conds ops body => operatorsOf conds ++ ops.map .connective ++ operatorsAll body
  | .forLoop counter limit increment body =>
    operators counter ++ operators limit ++ operators increment ++ operatorsAll body
  | .loop body => operatorsAll body
  | .choice conds ops thenBody elseBody =>
    operatorsOf conds ++ ops.map .connective ++ operatorsAll thenBody ++ operatorsAll elseBody
  | .condition c => operatorsIn c
  | .label _ | .leave | .jump _ | .enum _ _ | .var _ | .register _ | .literal _ => []

/-- The operators of a comparison. -/
def operatorsIn : Condition → List Operator
  | .mk op lhs rhs => .comparison op :: (operators lhs ++ operators rhs)

/-- The operators of several nodes. -/
def operatorsAll : List Node → List Operator
  | [] => []
  | n :: ns => operators n ++ operatorsAll ns

/-- The operators of several comparisons. -/
def operatorsOf : List Condition → List Operator
  | [] => []
  | c :: cs => operatorsIn c ++ operatorsOf cs

end

/-- The lengths of the texts of a variable. -/
def variableLengths (v : Variable) : List Nat := [v.name.length, v.value.length]

mutual

/-- The lengths that are written for a node: those of its texts and of its lists. -/
def lengths : Node → List Nat
  | .data declarations => declarations.length :: lengthsAll declarations
  | .code instructions => instructions.length :: lengthsAll instructions
  | .label name => [name.length]
  | .exit value => lengths value
  | .assign _ target source => lengths target ++ lengths source
  | .leave => []
  | .jump target => [target.length]
  | .enum name members => name.length :: members.length :: members.flatMap variableLengths
  | .whileLoop conds ops body =>
    conds.length :: lengthsOf conds ++ [ops.length] ++ body.length :: lengthsAll body
  | .forLoop counter limit increment body =>
    lengths counter ++ lengths limit ++ lengths increment ++ body.length :: lengthsAll body
  | .loop body => body.length :: lengthsAll body
  | .choice conds ops thenBody elseBody =>
    conds.length :: lengthsOf conds ++ [ops.length] ++ thenBody.length :: lengthsAll thenBody ++
      elseBody.length :: lengthsAll elseBody
  | .condition c => lengthsIn c
  | .var v => variableLengths v
  | .register name => [name.length]
  | .literal value => [value.length]

/-- The lengths that are written for a comparison. -/
def lengthsIn : Condition → List Nat
  | .mk _ lhs rhs => lengths lhs ++ lengths rhs

/-- The lengths that are written for several nodes. -/
def lengthsAll : List Node → List Nat
  | [] => []
  | n :: ns => lengths n ++ lengthsAll ns

/-- The lengths that are written for several comparisons. -/
def lengthsOf : List Condition → List Nat
  | [] => []
  | c :: cs => lengthsIn c ++ lengthsOf cs

end

theorem operatorsAll_eq_flatMap (ns : List Node) : operatorsAll ns = ns.flatMap operators := by
  induction ns with
  | nil => rw [operatorsAll]; rfl
  | cons n ns ih => rw [operatorsAll, ih]; rfl

theorem operatorsOf_eq_flatMap (cs : List Condition) : operatorsOf cs = cs.flatMap operatorsIn := by
  induction cs with
  | nil => rw [operatorsOf]; rfl
  | cons c cs ih => rw [operatorsOf, ih]; rfl

theorem lengthsAll_eq_flatMap (ns : List Node) : lengthsAll ns = ns.flatMap lengths := by
  induction ns with
  | nil => rw [lengthsAll]; rfl
  | cons n ns ih => rw [lengthsAll, ih]; rfl

theorem lengthsOf_eq_flatMap (cs : List Condition) : lengthsOf cs = cs.flatMap lengthsIn := by
  induction cs with
  | nil => rw [lengthsOf]; rfl
  | cons c cs ih => rw [lengthsOf, ih]; rfl

theorem nodes_eq_flatMap (ns : List Node) : nodes ns = ns.flatMap node := by
  induction ns with
  | nil => rw [nodes]; rfl
  | cons n ns ih => rw [nodes, ih]; rfl

theorem conditions_eq_flatMap (cs : List Condition) : conditions cs = cs.flatMap condition := by
  induction cs with
  | nil => rw [conditions]; rfl
  | cons c cs ih => rw [conditions, ih]; rfl

/-! ### Readers on written bytes -/

/-- On the given bytes the reader yields the value and leaves what follows them, or stops at the
first of the given operators that is not known. -/
def Reads {α : Type} (r : Reader α) (bytes : Text) (a : α) (ops : List Operator) : Prop :=
  ∀ rest, r (bytes ++ rest) =
    match ops.findSome? Operator.defect? with
    | none => .ok (a, rest)
    | some e => .error e

section Readers

variable {α β : Type}

theorem reads_pure (a : α) : Reads (pure a) [] a [] := fun _ => rfl

/-- Two readers in a row, of which the second may depend on what the first has read. -/
theorem Reads.bind {r : Reader α} {f : α → Reader β} {bytes bytes' : Text} {a : α} {b : β}
    {ops ops' : List Operator} (hr : Reads r bytes a ops) (hf : Reads (f a) bytes' b ops') :
    Reads (r >>= f) (bytes ++ bytes') b (ops ++ ops') := by
  intro rest
  have step : (r >>= f) (bytes ++ bytes' ++ rest) =
      (r (bytes ++ (bytes' ++ rest))).bind fun p => f p.1 p.2 := by
    rw [List.append_assoc]; rfl
  rw [step, hr, List.findSome?_append]
  cases ops.findSome? Operator.defect? with
  | some e => rfl
  | none => exact hf rest

theorem Reads.map {r : Reader α} {bytes : Text} {a : α} {ops : List Operator} (f : α → β)
    (hr : Reads r bytes a ops) : Reads (r >>= fun x => pure (f x)) bytes (f a) ops := by
  have both := Reads.bind (f := fun x => pure (f x)) hr (reads_pure (f a))
  rwa [List.append_nil, List.append_nil] at both

theorem reads_byte (b : UInt8) : Reads readByte [b] b [] := fun _ => rfl

/-- How many numbers fit into the given number of digits and a last one, which only adds a bit. -/
def capacity : Nat → Nat
  | 0 => 2
  | k + 1 => capacity k * 128

/-- A number that fits is read back. -/
theorem readDigits_varint (k n : Nat) (h : n < capacity k) (rest : Text) :
    readDigits (k + 1) (varint n ++ rest) = .ok (n, rest) := by
  induction k generalizing n with
  | zero =>
    have small : n < 2 := h
    have bit : ¬ 1 < UInt8.ofNat n := by
      rw [UInt8.lt_iff_toNat_lt, UInt8.toNat_ofNat']
      simp
      omega
    rw [varint, if_pos (by omega), List.singleton_append, readDigits, if_pos, if_neg]
    · rw [UInt8.toNat_ofNat', Nat.mod_eq_of_lt (by omega)]
    · exact fun both => bit both.2
    · rw [UInt8.lt_iff_toNat_lt, UInt8.toNat_ofNat']
      simp
      omega
  | succ k ih =>
    by_cases small : n < 128
    · rw [varint, if_pos small, List.singleton_append, readDigits, if_pos, if_neg (by omega)]
      · rw [UInt8.toNat_ofNat', Nat.mod_eq_of_lt (by omega)]
      · rw [UInt8.lt_iff_toNat_lt, UInt8.toNat_ofNat']
        simp
        omega
    · have high : n / 128 < capacity k := by
        rw [Nat.div_lt_iff_lt_mul (by omega)]
        exact h
      have digit : (UInt8.ofNat (n % 128 + 128)).toNat = n % 128 + 128 := by
        rw [UInt8.toNat_ofNat', Nat.mod_eq_of_lt (by omega)]
      have more : ¬ UInt8.ofNat (n % 128 + 128) < 128 := by
        rw [UInt8.lt_iff_toNat_lt, digit]
        simp
      rw [varint, if_neg small, List.cons_append, readDigits, if_neg more, ih _ high]
      show Except.ok ((UInt8.ofNat (n % 128 + 128)).toNat - 128 + 128 * (n / 128), rest) = _
      rw [digit, show n % 128 + 128 - 128 + 128 * (n / 128) = n by omega]

theorem reads_varint {n : Nat} (h : n < Text.words) : Reads readVarint (varint n) n [] :=
  readDigits_varint 9 n h

theorem reads_text {t : Text} (h : t.length < Text.words) : Reads readText (text t) t [] := by
  intro rest
  have read : readText (text t ++ rest) =
      (readVarint (varint t.length ++ (t ++ rest))).bind fun p =>
        if p.2.length < p.1 then .error .truncated else .ok (p.2.take p.1, p.2.drop p.1) := by
    rw [text, List.append_assoc]
    show (readVarint (varint t.length ++ (t ++ rest))).bind _ = _
    congr 1
    funext ⟨n, bytes⟩
    show (if bytes.length < n then _ else _ : Reader Text) bytes = _
    by_cases short : bytes.length < n <;> simp only [short, if_true, if_false] <;> rfl
  rw [read, reads_varint h]
  show (if (t ++ rest).length < t.length then _ else Except.ok _) = Except.ok (t, rest)
  rw [if_neg (by simp), List.take_left, List.drop_left]

theorem reads_bool (b : Bool) : Reads readBool (bool b) b [] := by
  cases b <;> exact fun _ => rfl

theorem reads_comparator (op : Comparator) :
    Reads readComparator [op.code] op [.comparison op] := by
  intro rest
  show (if 5 < op.code then _ else _ : Reader Comparator) rest = _
  by_cases known : op.code ≤ 5
  · have fine : (Operator.comparison op).defect? = none :=
      Operator.defect?_eq_none_iff.mpr known
    rw [if_neg (UInt8.not_lt.mpr known), List.findSome?, fine]
    rfl
  · have bad : (Operator.comparison op).defect? = some _ :=
      Operator.defect?_eq_some_iff.mpr ⟨known, rfl⟩
    rw [if_pos (UInt8.not_le.mp known), List.findSome?, bad]
    rfl

theorem reads_connective (op : Connective) :
    Reads readConnective [op.code] op [.connective op] := by
  intro rest
  show (if 1 < op.code then _ else _ : Reader Connective) rest = _
  by_cases known : op.code ≤ 1
  · have fine : (Operator.connective op).defect? = none :=
      Operator.defect?_eq_none_iff.mpr known
    rw [if_neg (UInt8.not_lt.mpr known), List.findSome?, fine]
    rfl
  · have bad : (Operator.connective op).defect? = some _ :=
      Operator.defect?_eq_some_iff.mpr ⟨known, rfl⟩
    rw [if_pos (UInt8.not_le.mp known), List.findSome?, bad]
    rfl

/-- As many values as were written. -/
theorem reads_times {item : Reader α} {bytes : α → Text} {ops : α → List Operator} {as : List α}
    (h : ∀ a ∈ as, Reads item (bytes a) a (ops a)) :
    Reads (readTimes item as.length) (as.flatMap bytes) as (as.flatMap ops) := by
  induction as with
  | nil => exact reads_pure []
  | cons a as ih =>
    have tail := ih fun b hb => h b (List.mem_cons_of_mem a hb)
    exact (h a List.mem_cons_self).bind (tail.map (a :: ·))

/-- Values after their number. -/
theorem reads_list {item : Reader α} {bytes : α → Text} {ops : α → List Operator} {as : List α}
    (size : as.length < Text.words) (h : ∀ a ∈ as, Reads item (bytes a) a (ops a)) :
    Reads (readList item) (varint as.length ++ as.flatMap bytes) as (as.flatMap ops) :=
  (reads_varint size).bind (reads_times h)

end Readers

theorem reads_connectives {ops : List Connective} (size : ops.length < Text.words) :
    Reads (readList readConnective) (connectives ops) ops (ops.map .connective) := by
  have read := reads_list size fun op (_ : op ∈ ops) => reads_connective op
  rwa [← List.map_eq_flatMap, ← List.map_eq_flatMap] at read

/-! ### Nodes -/

/-- A node is read back from its bytes by every reader that goes deep enough. -/
def Readable (n : Node) : Prop :=
  ∀ depth, (node n).length ≤ depth → Reads (readNode depth) (node n) n (operators n)

/-- A node is read back if its fields are, once its tag has chosen them. -/
theorem readable_of_fields {n : Node} {tag : UInt8} {fields : Text} (bytes : node n = tag :: fields)
    (h : ∀ depth, fields.length ≤ depth →
      Reads (readFields (readNode depth) tag) fields n (operators n)) : Readable n := by
  intro depth enough
  rw [bytes] at enough ⊢
  cases depth with
  -- a node has at least the byte of its tag
  | zero => simp at enough
  | succ depth =>
    have fit : fields.length ≤ depth := by simpa using enough
    exact (reads_byte tag).bind (h depth fit)

theorem length_le_of_mem {α : Type} {f : α → Text} {a : α} {as : List α} (h : a ∈ as) :
    (f a).length ≤ (as.flatMap f).length :=
  (List.sublist_flatten_of_mem (List.mem_map_of_mem h)).length_le

/-- The children in a list, given that each of them is read back. -/
theorem reads_nodes {ns : List Node} (size : ∀ k ∈ ns.length :: lengthsAll ns, k < Text.words)
    (h : ∀ n ∈ ns, (∀ k ∈ lengths n, k < Text.words) → Readable n) (depth : Nat)
    (enough : (nodes ns).length ≤ depth) :
    Reads (readList (readNode depth)) (varint ns.length ++ nodes ns) ns (operatorsAll ns) := by
  rw [List.forall_mem_cons, lengthsAll_eq_flatMap] at size
  rw [nodes_eq_flatMap] at enough ⊢
  rw [operatorsAll_eq_flatMap]
  refine reads_list size.1 fun n hn => ?_
  have small : ∀ k ∈ lengths n, k < Text.words := fun k hk =>
    size.2 k (List.mem_flatMap.mpr ⟨n, hn, hk⟩)
  exact h n hn small depth (Nat.le_trans (length_le_of_mem hn) enough)

/-- A node that consists of a body. -/
theorem readable_of_body {make : List Node → Node} {tag : UInt8} {ns : List Node}
    (bytes : node (make ns) = tag :: (varint ns.length ++ nodes ns))
    (fields : ∀ item, readFields item tag = readList item >>= fun body => pure (make body))
    (ops : operators (make ns) = operatorsAll ns)
    (size : ∀ k ∈ ns.length :: lengthsAll ns, k < Text.words)
    (h : ∀ n ∈ ns, (∀ k ∈ lengths n, k < Text.words) → Readable n) : Readable (make ns) := by
  refine readable_of_fields bytes fun depth enough => ?_
  rw [List.length_append] at enough
  rw [fields, ops]
  exact (reads_nodes size h depth (by omega)).map make

theorem readable_var (v : Variable) (size : ∀ k ∈ variableLengths v, k < Text.words) :
    Readable (.var v) := by
  refine readable_of_fields (by rw [node, variableNode]) fun depth _ => ?_
  have name := reads_text (t := v.name) (size _ (by simp [variableLengths]))
  have value := reads_text (t := v.value) (size _ (by simp [variableLengths]))
  have read : Reads (readFields (readNode depth) 16)
      (text v.name ++ (text v.value ++ bool v.isDeclaration)) (.var v) ([] ++ ([] ++ [])) :=
    name.bind (value.bind ((reads_bool v.isDeclaration).map fun b => Node.var ⟨v.name, v.value, b⟩))
  simpa [operators] using read

theorem readable_condition (c : Condition) (lhs : Readable c.lhs) (rhs : Readable c.rhs) :
    Readable (.condition c) := by
  obtain ⟨op, l, r⟩ := c
  refine readable_of_fields (by rw [node, condition]) fun depth enough => ?_
  simp only [List.length_cons, List.length_append] at enough
  have left := lhs depth (by simp only [Condition.lhs]; omega)
  have right := rhs depth (by simp only [Condition.rhs]; omega)
  have read : Reads (readFields (readNode depth) 15) ([op.code] ++ (node l ++ node r))
      (.condition (.mk op l r)) ([.comparison op] ++ (operators l ++ operators r)) :=
    (reads_comparator op).bind (left.bind (right.map fun n => Node.condition (.mk op l n)))
  simpa [operators, operatorsIn] using read

/-- The conditions in a list, given that the operands of each are read back. -/
theorem reads_conditions {cs : List Condition}
    (size : ∀ k ∈ cs.length :: lengthsOf cs, k < Text.words)
    (h : ∀ c ∈ cs, ((∀ k ∈ lengths c.lhs, k < Text.words) → Readable c.lhs) ∧
      ((∀ k ∈ lengths c.rhs, k < Text.words) → Readable c.rhs))
    (depth : Nat) (enough : (conditions cs).length ≤ depth) :
    Reads (readList (readNode depth >>= asCondition)) (varint cs.length ++ conditions cs) cs
      (operatorsOf cs) := by
  rw [List.forall_mem_cons, lengthsOf_eq_flatMap] at size
  rw [conditions_eq_flatMap] at enough ⊢
  rw [operatorsOf_eq_flatMap]
  refine reads_list size.1 fun c hc => ?_
  have small : ∀ k ∈ lengthsIn c, k < Text.words := fun k hk =>
    size.2 k (List.mem_flatMap.mpr ⟨c, hc, hk⟩)
  have fit : (node (.condition c)).length ≤ depth := by
    rw [node]
    exact Nat.le_trans (length_le_of_mem hc) enough
  have sides : Readable c.lhs ∧ Readable c.rhs := by
    obtain ⟨op, l, r⟩ := c
    rw [lengthsIn, List.forall_mem_append] at small
    exact ⟨(h _ hc).1 small.1, (h _ hc).2 small.2⟩
  have read := readable_condition c sides.1 sides.2 depth fit
  have read := Reads.bind (f := asCondition) read (reads_pure c)
  rwa [List.append_nil, List.append_nil, node, operators] at read

theorem reads_variables {vs : List Variable}
    (size : ∀ k ∈ vs.length :: vs.flatMap variableLengths, k < Text.words) (depth : Nat)
    (enough : (vs.flatMap variableNode).length ≤ depth) :
    Reads (readList (readNode depth >>= asVariable)) (varint vs.length ++ vs.flatMap variableNode)
      vs [] := by
  rw [List.forall_mem_cons] at size
  have read : Reads (readList (readNode depth >>= asVariable))
      (varint vs.length ++ vs.flatMap variableNode) vs (vs.flatMap fun _ => []) := by
    refine reads_list size.1 fun v hv => ?_
    have fit : (node (.var v)).length ≤ depth := by
      rw [node]
      exact Nat.le_trans (length_le_of_mem hv) enough
    have small : ∀ k ∈ variableLengths v, k < Text.words := fun k hk =>
      size.2 k (List.mem_flatMap.mpr ⟨v, hv, hk⟩)
    have read := Reads.bind (f := asVariable) (readable_var v small depth fit) (reads_pure v)
    rwa [List.append_nil, List.append_nil, node, operators] at read
  -- variables hold no operators
  have none : (vs.flatMap fun _ => ([] : List Operator)) = [] :=
    List.flatMap_eq_nil_iff.mpr fun _ _ => rfl
  rwa [none] at read

/-- **Every node is read back from its bytes**, whatever stands where in it. -/
theorem readable (n : Node) (size : ∀ k ∈ lengths n, k < Text.words) : Readable n := by
  induction n using Node.induction with
  | data ns ih =>
    rw [lengths] at size
    exact readable_of_body (by rw [node]) (fun _ => rfl) (by rw [operators]) size ih
  | code ns ih =>
    rw [lengths] at size
    exact readable_of_body (by rw [node]) (fun _ => rfl) (by rw [operators]) size ih
  | label name =>
    refine readable_of_fields (by rw [node]) fun depth _ => ?_
    rw [operators]
    exact (reads_text (size _ (by simp [lengths]))).map Node.label
  | exit value ih =>
    rw [lengths] at size
    refine readable_of_fields (by rw [node]) fun depth enough => ?_
    rw [operators]
    exact (ih size depth enough).map Node.exit
  | assign op target source ht hs =>
    rw [lengths, List.forall_mem_append] at size
    refine readable_of_fields (by rw [node]) fun depth enough => ?_
    rw [List.length_append] at enough
    have left := ht size.1 depth (by omega)
    have right := hs size.2 depth (by omega)
    rw [operators]
    cases op <;> exact left.bind (right.map fun n => Node.assign _ target n)
  | leave =>
    refine readable_of_fields (by rw [node]) fun depth _ => ?_
    rw [operators]
    exact reads_pure Node.leave
  | jump target =>
    refine readable_of_fields (by rw [node]) fun depth _ => ?_
    rw [operators]
    exact (reads_text (size _ (by simp [lengths]))).map Node.jump
  | enum name members =>
    rw [lengths, List.forall_mem_cons] at size
    refine readable_of_fields (by rw [node, List.append_assoc]) fun depth enough => ?_
    simp only [List.length_append] at enough
    have values := reads_variables size.2 depth (by omega)
    rw [operators]
    exact (reads_text size.1).bind (values.map fun vs => Node.enum name vs)
  | whileLoop conds ops body hc hb =>
    rw [lengths, List.forall_mem_append, List.forall_mem_append] at size
    obtain ⟨⟨hconds, hops⟩, hbody⟩ := size
    refine readable_of_fields (by rw [node]) fun depth enough => ?_
    simp only [List.length_append] at enough
    have tests := reads_conditions hconds hc depth (by omega)
    have joints := reads_connectives (hops ops.length (by simp))
    have block := reads_nodes hbody hb depth (by omega)
    have read : Reads (readFields (readNode depth) 11)
        ((varint conds.length ++ conditions conds) ++ (connectives ops ++
          (varint body.length ++ nodes body)))
        (.whileLoop conds ops body)
        (operatorsOf conds ++ (ops.map .connective ++ operatorsAll body)) :=
      tests.bind (joints.bind (block.map fun b => Node.whileLoop conds ops b))
    simpa [operators] using read
  | forLoop counter limit increment body h₁ h₂ h₃ hb =>
    simp only [lengths, List.forall_mem_append] at size
    obtain ⟨⟨⟨s₁, s₂⟩, s₃⟩, hbody⟩ := size
    refine readable_of_fields (by rw [node]) fun depth enough => ?_
    simp only [List.length_append] at enough
    have first := h₁ s₁ depth (by omega)
    have second := h₂ s₂ depth (by omega)
    have third := h₃ s₃ depth (by omega)
    have block := reads_nodes hbody hb depth (by omega)
    have read : Reads (readFields (readNode depth) 12)
        (node counter ++ (node limit ++ (node increment ++ (varint body.length ++ nodes body))))
        (.forLoop counter limit increment body)
        (operators counter ++ (operators limit ++ (operators increment ++ operatorsAll body))) :=
      first.bind (second.bind (third.bind (block.map fun b =>
        Node.forLoop counter limit increment b)))
    simpa [operators] using read
  | loop ns ih =>
    rw [lengths] at size
    exact readable_of_body (by rw [node]) (fun _ => rfl) (by rw [operators]) size ih
  | choice conds ops thenBody elseBody hc ht he =>
    simp only [lengths, List.forall_mem_append] at size
    obtain ⟨⟨⟨hconds, hops⟩, hthen⟩, helse⟩ := size
    refine readable_of_fields (by rw [node]) fun depth enough => ?_
    simp only [List.length_append] at enough
    have tests := reads_conditions hconds hc depth (by omega)
    have joints := reads_connectives (hops ops.length (by simp))
    have first := reads_nodes hthen ht depth (by omega)
    have second := reads_nodes helse he depth (by omega)
    have read : Reads (readFields (readNode depth) 14)
        ((varint conds.length ++ conditions conds) ++ (connectives ops ++
          ((varint thenBody.length ++ nodes thenBody) ++
            (varint elseBody.length ++ nodes elseBody))))
        (.choice conds ops thenBody elseBody)
        (operatorsOf conds ++ (ops.map .connective ++
          (operatorsAll thenBody ++ operatorsAll elseBody))) :=
      tests.bind (joints.bind (first.bind (second.map fun b =>
        Node.choice conds ops thenBody b)))
    simpa [operators] using read
  | condition c hl hr =>
    obtain ⟨op, l, r⟩ := c
    rw [lengths, lengthsIn, List.forall_mem_append] at size
    exact readable_condition _ (hl size.1) (hr size.2)
  | var v =>
    rw [lengths] at size
    exact readable_var v size
  | register name =>
    refine readable_of_fields (by rw [node]) fun depth _ => ?_
    rw [operators]
    exact (reads_text (size _ (by simp [lengths]))).bind
      ((reads_bool true).map fun b => if b then Node.register name else Node.literal name)
  | literal value =>
    refine readable_of_fields (by rw [node]) fun depth _ => ?_
    rw [operators]
    exact (reads_text (size _ (by simp [lengths]))).bind
      ((reads_bool false).map fun b => if b then Node.register value else Node.literal value)

/-! ### Programs -/

/-- The first objection to the operators of a program decides how reading its bytes ends. -/
theorem decode_encode_eq (p : Program) (size : ∀ k ∈ lengthsAll p.nodes, k < Text.words) :
    decode (encode p) =
      match (operatorsAll p.nodes).findSome? Operator.defect? with
      | none => .ok (.ofSections p.data p.code)
      | some e => .error e := by
  simp only [Program.nodes, lengthsAll, List.append_nil, List.forall_mem_append] at size
  obtain ⟨hd, hc⟩ := size
  let bytes := node (.data p.data) ++ node (.code p.code)
  have read : Reads (readProgram bytes.length) bytes (.ofSections p.data p.code)
      (operatorsAll p.nodes) := by
    have data := readable _ hd bytes.length (by simp [bytes])
    have code := readable _ hc bytes.length (by simp [bytes])
    have data := Reads.bind (f := asData) data (reads_pure p.data)
    have code := Reads.bind (f := asCode) code (reads_pure p.code)
    rw [List.append_nil, List.append_nil] at data code
    have both : Reads (readProgram bytes.length) bytes (.ofSections p.data p.code)
        (operators (.data p.data) ++ operators (.code p.code)) :=
      data.bind (code.map fun c => Program.ofSections p.data c)
    simpa [Program.nodes, operatorsAll] using both
  have whole := read []
  rw [List.append_nil] at whole
  -- identifier and version are cut off
  have header : decode (encode p) = ((readProgram bytes.length) bytes).bind fun r =>
      if r.2 ≠ [] then .error (.trailing r.2.length) else .ok r.1 := by
    unfold decode encode
    rw [List.take_left, List.drop_left]
    rfl
  rw [header, whole]
  cases (operatorsAll p.nodes).findSome? Operator.defect? <;> rfl

/-- **Reading undoes writing, and fails exactly on operators that are not known.**  A program whose
lengths are 64-bit words is read back, with an absent section as an empty one, if all its operators
are known.  Otherwise reading complains about the first one that is not, in the order of writing. -/
theorem decode_encode (p : Program) (size : ∀ k ∈ lengthsAll p.nodes, k < Text.words) :
    ((∀ o ∈ operatorsAll p.nodes, o.IsKnown) →
      decode (encode p) = .ok (.ofSections p.data p.code)) ∧
    ((∃ o ∈ operatorsAll p.nodes, ¬ o.IsKnown) →
      ∃ before o after e, operatorsAll p.nodes = before ++ o :: after ∧
        (∀ b ∈ before, b.IsKnown) ∧ ¬ o.IsKnown ∧
        decode (encode p) = .error e ∧ e.message = o.complaint) := by
  have outcome := decode_encode_eq p size
  constructor
  · intro known
    have fine : (operatorsAll p.nodes).findSome? Operator.defect? = none :=
      List.findSome?_eq_none_iff.mpr fun o ho => Operator.defect?_eq_none_iff.mpr (known o ho)
    rw [outcome, fine]
  · rintro ⟨o, ho, unknown⟩
    cases first : (operatorsAll p.nodes).findSome? Operator.defect? with
    | none =>
      have fine := List.findSome?_eq_none_iff.mp first o ho
      exact absurd (Operator.defect?_eq_none_iff.mp fine) unknown
    | some e =>
      obtain ⟨before, o, after, split, found, clean⟩ := List.findSome?_eq_some_iff.mp first
      obtain ⟨unknown, rfl⟩ := Operator.defect?_eq_some_iff.mp found
      have known : ∀ b ∈ before, b.IsKnown := fun b hb =>
        Operator.defect?_eq_none_iff.mp (clean b hb)
      exact ⟨before, o, after, o.error, split, known, unknown, by rw [outcome, first],
        o.message_error⟩

/-- A loop inside an exit, a choice with an excess connective and an absent section. -/
theorem decode_encode_nested :
    let p : Program := ⟨none, some [.exit (.loop [.leave, .enum "e" [⟨"e.a", "0", true⟩]]),
      .choice [.mk ⟨5⟩ (.use "x") (.literal "1")] [⟨0⟩, ⟨1⟩] [.data []] [.jump "l"]]⟩
    (∀ k ∈ lengthsAll p.nodes, k < Text.words) ∧ (∀ o ∈ operatorsAll p.nodes, o.IsKnown) ∧
      decode (encode p) = .ok (.ofSections [] p.code) := by
  intro p
  have size : ∀ k ∈ lengthsAll p.nodes, k < Text.words := by decide
  have known : ∀ o ∈ operatorsAll p.nodes, o.IsKnown := by decide
  exact ⟨size, known, (decode_encode p size).1 known⟩

end XtAsm.Wire
