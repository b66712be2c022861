import Mathlib.Data.List.Basic
import Mathlib.Data.Nat.Digits.Defs
import XtAsm.Proofs.Wire.RoundTrip

/-!
# Layouts of the binary form

The binary form of a program is a row of items: fixed bytes, lengths and truth values.  Writing
picks one form for each of them.  Reading tolerates others, for lengths and for truth values only.

* `IsVarint`: the forms of a length, of which `varint` is the shortest;
* `Item`, `Item.Form`, `Item.Tight`: an item, its forms, and those among them without slack;
* `Forms`: bytes made up of one form for each item;
* `layout`: the items of a program, with `encode_eq_write` for what is written.
-/

namespace XtAsm.Wire

/-! ### Forms of a length -/

/-- The bytes are a form of the number in base 128, least digit first, of at most `most` bytes.
Every byte but the last has its high bit set, and a byte at the very end of the room holds a single
bit. -/
structure IsVarint (most n : Nat) (bytes : Text) : Prop where
  more : ∀ b ∈ bytes.dropLast, 128 ≤ b
  last : ∃ b ∈ bytes.getLast?, b < 128
  short : bytes.length ≤ most
  overflow : ∀ b ∈ bytes[most - 1]?, b ≤ 1
  value : Nat.ofDigits 128 (bytes.map fun b => b.toNat % 128) = n

theorem IsVarint.ne_nil {most n : Nat} {bytes : Text} (h : IsVarint most n bytes) :
    bytes ≠ [] := by
  rintro rfl
  obtain ⟨b, hb, -⟩ := h.last
  cases hb

/-- A single byte is a form of itself. -/
theorem isVarint_singleton {m n : Nat} {b : UInt8} :
    IsVarint (m + 1) n [b] ↔ b < 128 ∧ (m = 0 → b ≤ 1) ∧ b.toNat = n := by
  constructor
  · intro h
    obtain ⟨c, hc, low⟩ := h.last
    obtain rfl : b = c := by simpa using hc
    have small : b.toNat < 128 := low
    refine ⟨low, ?_, ?_⟩
    · rintro rfl
      exact h.overflow b rfl
    · have value := h.value
      rwa [List.map_cons, List.map_nil, Nat.ofDigits_singleton, Nat.mod_eq_of_lt small] at value
  · rintro ⟨low, bit, rfl⟩
    have small : b.toNat < 128 := low
    refine ⟨by simp, ⟨b, rfl, low⟩, by simp, ?_, ?_⟩
    · cases m with
      | zero =>
        intro c hc
        cases hc
        exact bit rfl
      | succ m => simp
    · rw [List.map_cons, List.map_nil, Nat.ofDigits_singleton, Nat.mod_eq_of_lt small]

/-- The low digit of a byte with its high bit set. -/
theorem toNat_mod_of_le {b : UInt8} (high : 128 ≤ b) : b.toNat % 128 = b.toNat - 128 := by
  have least : 128 ≤ b.toNat := high
  have most := b.toNat_lt
  omega

/-- In front of a further byte stands the lowest digit. -/
theorem isVarint_cons {m n : Nat} {b : UInt8} {tail : Text} (ne : tail ≠ []) :
    IsVarint (m + 1) n (b :: tail) ↔
      128 ≤ b ∧ ∃ high, IsVarint m high tail ∧ b.toNat - 128 + 128 * high = n := by
  obtain ⟨c, tail, rfl⟩ := List.exists_cons_of_ne_nil ne
  constructor
  · rintro ⟨more, last, short, overflow, value⟩
    have high : 128 ≤ b := more b (by simp)
    refine ⟨high, _, ⟨fun d hd => more d (by simp [hd]), by simpa using last,
      by simpa using short, ?_, rfl⟩, ?_⟩
    · cases m with
      | zero => simp at short
      | succ m => simpa using overflow
    · rwa [List.map_cons, Nat.ofDigits_cons, toNat_mod_of_le high] at value
  · rintro ⟨high, _, ⟨more, last, short, overflow, rfl⟩, rfl⟩
    refine ⟨?_, by simpa using last, by simpa using short, ?_, ?_⟩
    · rw [List.dropLast_cons_cons, List.forall_mem_cons]
      exact ⟨high, more⟩
    · cases m with
      | zero => simp at short
      | succ m => simpa using overflow
    · rw [List.map_cons, Nat.ofDigits_cons, toNat_mod_of_le high]

/-- A byte without its high bit ends a form. -/
theorem isVarint_of_low {m n : Nat} {b : UInt8} {tail : Text} (low : b < 128) :
    IsVarint (m + 1) n (b :: tail) ↔ tail = [] ∧ (m = 0 → b ≤ 1) ∧ b.toNat = n := by
  by_cases ne : tail = []
  · subst ne
    simp [isVarint_singleton, low]
  · simp [isVarint_cons ne, ne, UInt8.not_le.mpr low]

/-- A byte with its high bit set goes on. -/
theorem isVarint_of_high {m n : Nat} {b : UInt8} {tail : Text} (high : 128 ≤ b) :
    IsVarint (m + 1) n (b :: tail) ↔
      ∃ rest, IsVarint m rest tail ∧ b.toNat - 128 + 128 * rest = n := by
  by_cases ne : tail = []
  · subst ne
    have nothing : ∀ rest, ¬ IsVarint m rest [] := fun rest h => h.ne_nil rfl
    simp [isVarint_singleton, UInt8.not_lt.mpr high, nothing]
  · simp [isVarint_cons ne, high]

/-- What is written for a length is a form of it as soon as there is one, and the shortest. -/
theorem IsVarint.shortest {most n : Nat} {bytes : Text} (h : IsVarint most n bytes) :
    IsVarint most n (varint n) ∧ ((varint n).length < bytes.length ∨ bytes = varint n) := by
  induction bytes generalizing most n with
  | nil => exact absurd rfl h.ne_nil
  | cons b tail ih =>
    obtain ⟨m, rfl⟩ : ∃ m, most = m + 1 := Nat.exists_eq_succ_of_ne_zero (by
      have short := h.short
      rw [List.length_cons] at short
      omega)
    by_cases low : b < 128
    · obtain ⟨rfl, -, rfl⟩ := (isVarint_of_low low).mp h
      have small : b.toNat < 128 := low
      have written : varint b.toNat = [b] := by
        rw [varint, if_pos small, UInt8.ofNat_toNat]
      exact ⟨written ▸ h, .inr written.symm⟩
    · have high : 128 ≤ b := UInt8.not_lt.mp low
      have least : 128 ≤ b.toNat := high
      have most := b.toNat_lt
      obtain ⟨rest, hs, value⟩ := (isVarint_of_high high).mp h
      by_cases small : n < 128
      -- all higher digits are zero, and are not written
      · have byte : (UInt8.ofNat n).toNat = n := by
          rw [UInt8.toNat_ofNat', Nat.mod_eq_of_lt (by omega)]
        have room : tail.length ≤ m := hs.short
        have size : 0 < tail.length := List.length_pos_iff.mpr hs.ne_nil
        rw [varint, if_pos small]
        refine ⟨isVarint_singleton.mpr ⟨?_, by omega, byte⟩, .inl ?_⟩
        · rw [UInt8.lt_iff_toNat_lt, byte]
          exact small
        · rw [List.length_singleton, List.length_cons]
          omega
      · obtain ⟨form, shorter⟩ := ih hs
        have written : varint n = b :: varint rest := by
          rw [varint, if_neg small, show n % 128 + 128 = b.toNat by omega, UInt8.ofNat_toNat,
            show n / 128 = rest by omega]
        rw [written]
        refine ⟨(isVarint_of_high high).mpr ⟨rest, form, value⟩, ?_⟩
        rcases shorter with shorter | rfl
        · left
          rw [List.length_cons, List.length_cons]
          omega
        · exact .inr rfl

/-! ### Items -/

/-- A part of the binary form. -/
inductive Item
  /-- A byte without any choice: a tag, an operator, or a byte of a text. -/
  | byte (b : UInt8)
  /-- The length of a text or of a list. -/
  | length (n : Nat)
  | truth (b : Bool)
  deriving DecidableEq

namespace Item

/-- What is written for an item. -/
def written : Item → Text
  | .byte b => [b]
  | .length n => varint n
  | .truth b => bool b

/-- What is read as an item: a length in any form of at most ten bytes that stays below the number
of 64-bit words, and any byte but zero for true. -/
def Form : Item → Text → Prop
  | .byte b, bytes => bytes = [b]
  | .length n, bytes => IsVarint 10 n bytes
  | .truth true, bytes => ∃ b, b ≠ 0 ∧ bytes = [b]
  | .truth false, bytes => bytes = [0]

/-- What a form without slack meets: there is no shorter form of a length, and a truth value is
zero or one. -/
def Tight : Item → Text → Prop
  | .byte _, _ => True
  | .length n, bytes => ∀ other, IsVarint 10 n other → bytes.length ≤ other.length
  | .truth _, bytes => bytes = [0] ∨ bytes = [1]

/-- What is written for an item is a form of it as soon as there is one, and no form is shorter. -/
theorem Form.written {i : Item} {bytes : Text} (h : i.Form bytes) :
    i.Form i.written ∧ i.written.length ≤ bytes.length := by
  match i with
  | .byte b =>
    obtain rfl : bytes = [b] := h
    exact ⟨rfl, Nat.le_refl _⟩
  | .length n =>
    obtain ⟨form, shorter | rfl⟩ := IsVarint.shortest h
    · exact ⟨form, Nat.le_of_lt shorter⟩
    · exact ⟨form, Nat.le_refl _⟩
  | .truth true =>
    obtain ⟨b, -, rfl⟩ := h
    exact ⟨⟨1, by decide, rfl⟩, Nat.le_refl 1⟩
  | .truth false =>
    obtain rfl : bytes = [0] := h
    exact ⟨rfl, Nat.le_refl 1⟩

/-- A form without slack is what is written. -/
theorem Form.eq_written {i : Item} {bytes : Text} (h : i.Form bytes) (tight : i.Tight bytes) :
    bytes = i.written := by
  match i with
  | .byte b => exact h
  | .length n =>
    obtain ⟨form, shorter | eq⟩ := IsVarint.shortest h
    · have least := tight _ form
      omega
    · exact eq
  | .truth true =>
    obtain ⟨b, ne, rfl⟩ := h
    rcases tight with zero | one
    · exact absurd (List.cons.inj zero).1 ne
    · exact one
  | .truth false => exact h

end Item

/-! ### Rows of items -/

/-- The bytes are made up of pieces, one for each item, which stand in the given relation. -/
inductive Forms (form : Item → Text → Prop) : List Item → Text → Prop
  | nil : Forms form [] []
  | cons {i : Item} {is : List Item} {u v : Text} (h : form i u) (hs : Forms form is v) :
      Forms form (i :: is) (u ++ v)

/-- The bytes are a form of the items that is read. -/
abbrev Relaxed : List Item → Text → Prop := Forms Item.Form

/-- What is written for a row of items. -/
def write (is : List Item) : Text := is.flatMap Item.written

section Forms

variable {form : Item → Text → Prop} {i : Item} {is js : List Item} {bytes : Text}

theorem forms_nil : Forms form [] bytes ↔ bytes = [] := by
  constructor
  · rintro ⟨⟩
    rfl
  · rintro rfl
    exact .nil

theorem forms_cons : Forms form (i :: is) bytes ↔
    ∃ u v, bytes = u ++ v ∧ form i u ∧ Forms form is v := by
  constructor
  · rintro ⟨⟩
    exact ⟨_, _, rfl, ‹_›, ‹_›⟩
  · rintro ⟨u, v, rfl, h, hs⟩
    exact .cons h hs

theorem forms_append : Forms form (is ++ js) bytes ↔
    ∃ u v, bytes = u ++ v ∧ Forms form is u ∧ Forms form js v := by
  induction is generalizing bytes with
  | nil => simp [forms_nil]
  | cons i is ih =>
    simp only [List.cons_append, forms_cons, ih]
    constructor
    · rintro ⟨u, _, rfl, h, v, w, rfl, hs, ht⟩
      exact ⟨u ++ v, w, by simp, ⟨u, v, rfl, h, hs⟩, ht⟩
    · rintro ⟨_, w, rfl, ⟨u, v, rfl, h, hs⟩, ht⟩
      exact ⟨u, v ++ w, by simp, h, v, w, rfl, hs, ht⟩

theorem relaxed_singleton : Relaxed [i] bytes ↔ i.Form bytes := by
  simp [Relaxed, forms_cons, forms_nil]

/-- A fixed byte in front. -/
theorem relaxed_byte {b : UInt8} : Relaxed (.byte b :: is) bytes ↔
    ∃ tail, bytes = b :: tail ∧ Relaxed is tail := by
  simp [Relaxed, forms_cons, Item.Form]

/-- Fixed bytes have a single form. -/
theorem relaxed_bytes {t : Text} : Relaxed (t.map .byte) bytes ↔ bytes = t := by
  induction t generalizing bytes with
  | nil => exact forms_nil
  | cons b t ih => simp [relaxed_byte, ih]

/-- What is written for some items is read as them as soon as anything is, and nothing shorter
is. -/
theorem relaxed_write (h : Relaxed is bytes) :
    Relaxed is (write is) ∧ (write is).length ≤ bytes.length := by
  induction h with
  | nil => exact ⟨.nil, Nat.le_refl _⟩
  | cons h _ ih =>
    rw [write, List.flatMap_cons, List.length_append, List.length_append]
    exact ⟨.cons h.written.1 ih.1, Nat.add_le_add h.written.2 ih.2⟩

/-- Bytes without slack are those that are written. -/
theorem eq_write (h : Forms (fun i u => i.Form u ∧ i.Tight u) is bytes) : bytes = write is := by
  induction h with
  | nil => rfl
  | cons h _ ih => rw [write, List.flatMap_cons, h.1.eq_written h.2, ih, write]

end Forms

/-! ### Layouts -/

/-- The items of a text. -/
def textItems (t : Text) : List Item := .length t.length :: t.map .byte

/-- The items of a variable. -/
def variableItems (v : Variable) : List Item :=
  .byte 16 :: (textItems v.name ++ textItems v.value ++ [.truth v.isDeclaration])

/-- The items of some connectives. -/
def connectiveItems (ops : List Connective) : List Item :=
  .length ops.length :: ops.flatMap fun op => [.byte op.code]

mutual

/-- The items of a node. -/
def items : Node → List Item
  | .data declarations => .byte 1 :: .length declarations.length :: itemsAll declarations
  | .code instructions => .byte 2 :: .length instructions.length :: itemsAll instructions
  | .label name => .byte 3 :: textItems name
  | .exit value => .byte 4 :: items value
  | .assign op target source => .byte (mnemonicTag op) :: (items target ++ items source)
  | .leave => [.byte 8]
  | .jump target => .byte 9 :: textItems target
  | .enum name members =>
    .byte 10 :: (textItems name ++ .length members.length :: members.flatMap variableItems)
  | .whileLoop conds ops body =>
    .byte 11 :: (.length conds.length :: itemsOf conds ++
      (connectiveItems ops ++ .length body.length :: itemsAll body))
  | .forLoop counter limit increment body =>
    .byte 12 :: (items counter ++ (items limit ++ (items increment ++
      .length body.length :: itemsAll body)))
  | .loop body => .byte 13 :: .length body.length :: itemsAll body
  | .choice conds ops thenBody elseBody =>
    .byte 14 :: (.length conds.length :: itemsOf conds ++ (connectiveItems ops ++
      (.length thenBody.length :: itemsAll thenBody ++ .length elseBody.length ::
        itemsAll elseBody)))
  | .condition c => conditionItems c
  | .var v => variableItems v
  | .register name => .byte 17 :: (textItems name ++ [.truth true])
  | .literal value => .byte 17 :: (textItems value ++ [.truth false])

/-- The items of a comparison. -/
def conditionItems : Condition → List Item
  | .mk op lhs rhs => .byte 15 :: .byte op.code :: (items lhs ++ items rhs)

/-- The items of several nodes. -/
def itemsAll : List Node → List Item
  | [] => []
  | n :: ns => items n ++ itemsAll ns

/-- The items of several comparisons. -/
def itemsOf : List Condition → List Item
  | [] => []
  | c :: cs => conditionItems c ++ itemsOf cs

end

theorem itemsAll_eq_flatMap (ns : List Node) : itemsAll ns = ns.flatMap items := by
  induction ns with
  | nil => rw [itemsAll]; rfl
  | cons n ns ih => rw [itemsAll, ih]; rfl

theorem itemsOf_eq_flatMap (cs : List Condition) : itemsOf cs = cs.flatMap conditionItems := by
  induction cs with
  | nil => rw [itemsOf]; rfl
  | cons c cs ih => rw [itemsOf, ih]; rfl

/-- The items of a program, in the order in which they are written. -/
def layout (p : Program) : List Item :=
  identifier.map .byte ++ .byte version :: (items (.data p.data) ++ items (.code p.code))

/-! ### What is written for a layout -/

@[simp] theorem write_nil : write [] = [] := rfl

@[simp] theorem write_cons (i : Item) (is : List Item) : write (i :: is) = i.written ++ write is :=
  rfl

@[simp] theorem write_append (is js : List Item) : write (is ++ js) = write is ++ write js :=
  List.flatMap_append

theorem write_flatMap {α : Type} (f : α → List Item) (as : List α) :
    write (as.flatMap f) = as.flatMap fun a => write (f a) :=
  List.flatMap_assoc

theorem write_bytes (t : Text) : write (t.map .byte) = t := by
  induction t with
  | nil => rfl
  | cons b t ih => rw [List.map_cons, write_cons, ih, Item.written, List.singleton_append]

theorem write_textItems (t : Text) : write (textItems t) = text t := by
  rw [textItems, write_cons, write_bytes, Item.written, text]

theorem write_variableItems (v : Variable) : write (variableItems v) = variableNode v := by
  simp [variableItems, variableNode, write_textItems, Item.written]

theorem write_connectiveItems (ops : List Connective) :
    write (connectiveItems ops) = connectives ops := by
  rw [connectiveItems, write_cons, write_flatMap, connectives, List.map_eq_flatMap]
  rfl

theorem write_itemsAll {ns : List Node} (h : ∀ n ∈ ns, write (items n) = node n) :
    write (itemsAll ns) = nodes ns := by
  rw [itemsAll_eq_flatMap, nodes_eq_flatMap, write_flatMap]
  exact List.flatMap_congr h

theorem write_conditionItems {c : Condition} (hl : write (items c.lhs) = node c.lhs)
    (hr : write (items c.rhs) = node c.rhs) : write (conditionItems c) = condition c := by
  obtain ⟨op, l, r⟩ := c
  simp only [Condition.lhs, Condition.rhs] at hl hr
  simp [conditionItems, condition, hl, hr, Item.written]

theorem write_itemsOf {cs : List Condition}
    (h : ∀ c ∈ cs, write (items c.lhs) = node c.lhs ∧ write (items c.rhs) = node c.rhs) :
    write (itemsOf cs) = conditions cs := by
  rw [itemsOf_eq_flatMap, conditions_eq_flatMap, write_flatMap]
  exact List.flatMap_congr fun c hc => write_conditionItems (h c hc).1 (h c hc).2

/-- The binary form of a node is what is written for its items. -/
theorem write_items (n : Node) : write (items n) = node n := by
  induction n using Node.induction with
  | data ns ih => simp [items, node, write_itemsAll ih, Item.written]
  | code ns ih => simp [items, node, write_itemsAll ih, Item.written]
  | label name => simp [items, node, write_textItems, Item.written]
  | exit value ih => simp [items, node, ih, Item.written]
  | assign op target source ht hs => simp [items, node, ht, hs, Item.written]
  | leave => simp [items, node, Item.written]
  | jump target => simp [items, node, write_textItems, Item.written]
  | enum name members =>
    simp [items, node, write_textItems, write_flatMap, write_variableItems, Item.written]
  | whileLoop conds ops body hc hb =>
    simp [items, node, write_itemsOf hc, write_connectiveItems, write_itemsAll hb, Item.written]
  | forLoop counter limit increment body h₁ h₂ h₃ hb =>
    simp [items, node, h₁, h₂, h₃, write_itemsAll hb, Item.written]
  | loop ns ih => simp [items, node, write_itemsAll ih, Item.written]
  | choice conds ops thenBody elseBody hc ht he =>
    simp [items, node, write_itemsOf hc, write_connectiveItems, write_itemsAll ht,
      write_itemsAll he, Item.written]
  | condition c hl hr => rw [items, node, write_conditionItems hl hr]
  | var v => rw [items, node, write_variableItems]
  | register name => simp [items, node, write_textItems, Item.written]
  | literal value => simp [items, node, write_textItems, Item.written]

/-- **The binary form of a program is what is written for its layout.** -/
theorem encode_eq_write (p : Program) : encode p = write (layout p) := by
  simp [encode, layout, write_bytes, write_items, Item.written]

end XtAsm.Wire
