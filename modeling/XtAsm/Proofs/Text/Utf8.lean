import XtAsm.Node.Printer
import XtAsm.Source.File

/-!
# Encoded characters are read back

* `toChars_ofChars`: the characters of an encoding are the encoded ones;
* `newline_not_mem_utf8EncodeChar`: only the line break is encoded with a newline byte, so that
  indenting an encoding is indenting its characters (`indent_ofChars`);
* `symbols_append_of_ascii`, `toChars_append_newline`: a text, well-formed or not, can be read in
  pieces that start with ASCII, and so line by line;
* `contents_ofText`: a source file made from encoded lines holds their characters.
-/

namespace XtAsm.Text

/-! ### One character -/

theorem toNat_lt (c : Char) : c.toNat < 0x110000 := by
  have h := c.valid
  simp only [UInt32.isValidChar, Nat.isValidChar] at h
  simp only [Char.toNat]
  omega

theorem scalar?_toNat {least : Nat} {c : Char} (h : least ≤ c.toNat) :
    scalar? least c.toNat = some c := by
  rw [scalar?, if_pos ⟨h, c.valid⟩, Char.ofNat_toNat]

theorem toNat_ofNat_byte {n : Nat} (h : n < 256) : (UInt8.ofNat n).toNat = n := by
  simp [Nat.mod_eq_of_lt h]

/-- A byte below a bound, given its value. -/
theorem ofNat_lt_iff {n : Nat} (h : n < 256) (b : UInt8) : UInt8.ofNat n < b ↔ n < b.toNat := by
  rw [UInt8.lt_iff_toNat_lt, toNat_ofNat_byte h]

theorem isContinuation_ofNat {n : Nat} (h : n < 64) :
    isContinuation (UInt8.ofNat (n + 0x80)) = true := by
  have hn : (UInt8.ofNat (n + 0x80)).toNat = n + 0x80 := toNat_ofNat_byte (by omega)
  simp only [isContinuation, Bool.and_eq_true, decide_eq_true_eq, UInt8.le_iff_toNat_le, hn]
  exact ⟨by simp, by simp; omega⟩

theorem payload_ofNat {n : Nat} (h : n < 64) : payload (UInt8.ofNat (n + 0x80)) = n := by
  have hn : (UInt8.ofNat (n + 0x80)).toNat = n + 0x80 := toNat_ofNat_byte (by omega)
  unfold payload
  omega

section Sequences

variable {c : Char} (rest : Text)

theorem sequence?_one (h : c.toNat < 0x80) :
    sequence? (UInt8.ofNat c.toNat) rest = some (c, 0) := by
  unfold sequence?
  rw [if_pos ((ofNat_lt_iff (by omega) _).2 h), toNat_ofNat_byte (by omega), Char.ofNat_toNat]

theorem sequence?_two {n m : Nat} (hn : n < 0x20) (hm : m < 64) (hc : n * 64 + m = c.toNat)
    (least : 0x80 ≤ c.toNat) :
    sequence? (UInt8.ofNat (n + 0xc0)) (UInt8.ofNat (m + 0x80) :: rest) = some (c, 1) := by
  have hb := ofNat_lt_iff (n := n + 0xc0) (by omega)
  have hv : (UInt8.ofNat (n + 0xc0)).toNat = n + 0xc0 := toNat_ofNat_byte (by omega)
  unfold sequence?
  rw [if_neg (by rw [hb]; simp), if_neg (by rw [hb]; simp), if_pos (by rw [hb]; simp; omega)]
  simp only [isContinuation_ofNat hm, payload_ofNat hm, if_true]
  rw [hv, Nat.add_sub_cancel, hc, scalar?_toNat least]
  rfl

theorem sequence?_three {n m k : Nat} (hn : n < 0x10) (hm : m < 64) (hk : k < 64)
    (hc : n * 4096 + m * 64 + k = c.toNat) (least : 0x800 ≤ c.toNat) :
    sequence? (UInt8.ofNat (n + 0xe0))
      (UInt8.ofNat (m + 0x80) :: UInt8.ofNat (k + 0x80) :: rest) = some (c, 2) := by
  have hb := ofNat_lt_iff (n := n + 0xe0) (by omega)
  have hv : (UInt8.ofNat (n + 0xe0)).toNat = n + 0xe0 := toNat_ofNat_byte (by omega)
  unfold sequence?
  rw [if_neg (by rw [hb]; simp), if_neg (by rw [hb]; simp), if_neg (by rw [hb]; simp),
    if_pos (by rw [hb]; simp; omega)]
  simp only [isContinuation_ofNat hm, isContinuation_ofNat hk, payload_ofNat hm, payload_ofNat hk,
    Bool.and_self, if_true]
  rw [hv, Nat.add_sub_cancel, hc, scalar?_toNat least]
  rfl

theorem sequence?_four {n m k l : Nat} (hn : n < 0x08) (hm : m < 64) (hk : k < 64) (hl : l < 64)
    (hc : n * 262144 + m * 4096 + k * 64 + l = c.toNat) (least : 0x10000 ≤ c.toNat) :
    sequence? (UInt8.ofNat (n + 0xf0))
      (UInt8.ofNat (m + 0x80) :: UInt8.ofNat (k + 0x80) :: UInt8.ofNat (l + 0x80) :: rest) =
      some (c, 3) := by
  have hb := ofNat_lt_iff (n := n + 0xf0) (by omega)
  have hv : (UInt8.ofNat (n + 0xf0)).toNat = n + 0xf0 := toNat_ofNat_byte (by omega)
  unfold sequence?
  rw [if_neg (by rw [hb]; simp), if_neg (by rw [hb]; simp), if_neg (by rw [hb]; simp),
    if_neg (by rw [hb]; simp), if_pos (by rw [hb]; simp; omega)]
  simp only [isContinuation_ofNat hm, isContinuation_ofNat hk, isContinuation_ofNat hl,
    payload_ofNat hm, payload_ofNat hk, payload_ofNat hl, Bool.and_self, if_true]
  rw [hv, Nat.add_sub_cancel, hc, scalar?_toNat least]
  rfl

/-- A character is read back in front of any bytes. -/
theorem symbolsFrom_utf8EncodeChar :
    symbolsFrom 0 (String.utf8EncodeChar c ++ rest) = .char c :: symbolsFrom 0 rest := by
  have bound := toNat_lt c
  have toNat_val : c.val.toNat = c.toNat := rfl
  unfold String.utf8EncodeChar
  simp only [toNat_val]
  split
  · next h =>
    simp only [List.cons_append, List.nil_append, symbolsFrom]
    rw [sequence?_one (c := c) rest (by omega)]
  · split
    · next h _ =>
      simp only [List.cons_append, List.nil_append, symbolsFrom]
      rw [sequence?_two (c := c) rest (by omega) (by omega) (by omega) (by omega)]
      rfl
    · split
      · simp only [List.cons_append, List.nil_append, symbolsFrom]
        rw [sequence?_three (c := c) rest (by omega) (by omega) (by omega) (by omega) (by omega)]
        rfl
      · simp only [List.cons_append, List.nil_append, symbolsFrom]
        rw [sequence?_four (c := c) rest (by omega) (by omega) (by omega) (by omega) (by omega)
          (by omega)]
        rfl

end Sequences

/-- A character below 0x80 is a single byte. -/
theorem utf8EncodeChar_of_lt {c : Char} (h : c.toNat < 0x80) :
    String.utf8EncodeChar c = [UInt8.ofNat c.toNat] := by
  have toNat_val : c.val.toNat = c.toNat := rfl
  unfold String.utf8EncodeChar
  simp only [toNat_val]
  rw [if_pos (by omega)]

/-- A byte below 0x80 stands for the character with its value, and occurs in no other encoding. -/
theorem toNat_eq_of_mem_utf8EncodeChar {c : Char} {b : UInt8} (hb : b.toNat < 0x80)
    (h : b ∈ String.utf8EncodeChar c) : c.toNat = b.toNat := by
  have toNat_val : c.val.toNat = c.toNat := rfl
  have ne : ∀ n, 0x80 ≤ n → n < 256 → b ≠ UInt8.ofNat n := by
    intro n lower upper e
    rw [e, toNat_ofNat_byte upper] at hb
    omega
  unfold String.utf8EncodeChar at h
  simp only [toNat_val] at h
  split at h
  · next hc => rw [List.mem_singleton.1 h, toNat_ofNat_byte (by omega)]
  · -- beyond one byte, every byte is at least 0x80
    refine absurd h ?_
    split
    · simp only [List.mem_cons, List.not_mem_nil, or_false, not_or]
      exact ⟨ne _ (by omega) (by omega), ne _ (by omega) (by omega)⟩
    · split
      · simp only [List.mem_cons, List.not_mem_nil, or_false, not_or]
        exact ⟨ne _ (by omega) (by omega), ne _ (by omega) (by omega), ne _ (by omega) (by omega)⟩
      · simp only [List.mem_cons, List.not_mem_nil, or_false, not_or]
        exact ⟨ne _ (by omega) (by omega), ne _ (by omega) (by omega), ne _ (by omega) (by omega),
          ne _ (by omega) (by omega)⟩

/-- Only the line break is encoded with a newline byte. -/
theorem newline_not_mem_utf8EncodeChar {c : Char} (h : c ≠ '\n') :
    newline ∉ String.utf8EncodeChar c :=
  fun mem => h (Char.toNat_inj.1 (toNat_eq_of_mem_utf8EncodeChar (by decide) mem))

/-! ### Whole texts -/

@[simp] theorem toChars_ofChars (cs : List Char) : toChars (ofChars cs) = cs := by
  have symbols_ofChars : symbols (ofChars cs) = cs.map Symbol.char := by
    unfold symbols
    induction cs with
    | nil => rfl
    | cons c cs ih => simp [symbolsFrom_utf8EncodeChar, ih]
  rw [toChars, symbols_ofChars, List.map_map]
  exact List.map_id cs

theorem ofChars_injective {cs ds : List Char} (h : ofChars cs = ofChars ds) : cs = ds := by
  rw [← toChars_ofChars cs, h, toChars_ofChars]

/-- The byte of a character that does not occur does not occur either. -/
theorem not_mem_ofChars {b : UInt8} {d : Char} {cs : List Char} (hb : b.toNat < 0x80)
    (hd : d.toNat = b.toNat) (h : d ∉ cs) : b ∉ ofChars cs := by
  intro mem
  obtain ⟨c, hc, inside⟩ := List.mem_flatMap.1 mem
  have : c = d := Char.toNat_inj.1 ((toNat_eq_of_mem_utf8EncodeChar hb inside).trans hd.symm)
  exact h (this ▸ hc)

/-- The characters with two spaces after every line break. -/
def indentChars (cs : List Char) : List Char :=
  cs.flatMap fun c => if c = '\n' then ['\n', ' ', ' '] else [c]

@[simp] theorem indentChars_nil : indentChars [] = [] := rfl

@[simp] theorem indentChars_append (cs ds : List Char) :
    indentChars (cs ++ ds) = indentChars cs ++ indentChars ds := by
  simp [indentChars]

theorem indentChars_cons_of_ne {c : Char} (h : c ≠ '\n') (cs : List Char) :
    indentChars (c :: cs) = c :: indentChars cs := by
  simp [indentChars, h]

@[simp] theorem indentChars_newline (cs : List Char) :
    indentChars ('\n' :: cs) = '\n' :: ' ' :: ' ' :: indentChars cs := rfl

theorem indentChars_of_not_mem {cs : List Char} (h : '\n' ∉ cs) : indentChars cs = cs := by
  induction cs with
  | nil => rfl
  | cons c cs ih =>
    rw [List.mem_cons, not_or] at h
    rw [indentChars_cons_of_ne (Ne.symm h.1), ih h.2]

theorem indent_of_newline_not_mem {t : Text} (h : newline ∉ t) : Node.indent t = t := by
  induction t with
  | nil => rfl
  | cons b t ih =>
    rw [List.mem_cons, not_or] at h
    have tail := ih h.2
    simp only [Node.indent, List.flatMap_cons, if_neg (Ne.symm h.1)] at tail ⊢
    rw [tail]
    rfl

/-- Indenting an encoding indents its characters. -/
theorem indent_ofChars (cs : List Char) : Node.indent (ofChars cs) = ofChars (indentChars cs) := by
  induction cs with
  | nil => rfl
  | cons c cs ih =>
    rw [ofChars_cons, Node.indent_append, ih]
    by_cases hc : c = '\n'
    · subst hc
      rfl
    · rw [indentChars_cons_of_ne hc, ofChars_cons,
        indent_of_newline_not_mem (newline_not_mem_utf8EncodeChar hc)]

/-! ### ASCII -/

section Ascii

variable {a : UInt8}

/-- An ASCII byte continues no sequence. -/
theorem sequence?_append_of_ascii (ha : a < 0x80) (b : UInt8) (rest more : Text) :
    sequence? b (rest ++ a :: more) = sequence? b rest := by
  have stop : isContinuation a = false := by
    simp [isContinuation, UInt8.not_le.mpr ha]
  rcases rest with _ | ⟨c, _ | ⟨d, _ | ⟨e, rest⟩⟩⟩
  · rcases more with _ | ⟨d, _ | ⟨e, more⟩⟩ <;> simp [sequence?, stop]
  · rcases more with _ | ⟨e, more⟩ <;> simp [sequence?, stop]
  · simp [sequence?, stop]
  · simp [sequence?]

/-- A sequence takes no more bytes than there are. -/
theorem length_of_sequence? {b : UInt8} {rest : Text} {c : Char} {n : Nat}
    (h : sequence? b rest = some (c, n)) : n ≤ rest.length := by
  unfold sequence? at h
  grind [Option.map_eq_some_iff]

theorem symbols_cons_of_ascii (ha : a < 0x80) (u : Text) :
    symbols (a :: u) = .char (Char.ofNat a.toNat) :: symbols u := by
  simp [symbols, symbolsFrom, sequence?, ha]

/-- A text that starts with an ASCII byte is read by itself, whatever stands before it. -/
theorem symbolsFrom_append_of_ascii (ha : a < 0x80) {n : Nat} {t : Text} (h : n ≤ t.length)
    (u : Text) : symbolsFrom n (t ++ a :: u) =
      symbolsFrom n t ++ symbols (a :: u) := by
  fun_induction symbolsFrom n t with
  | case1 n =>
    obtain rfl : n = 0 := Nat.le_zero.mp h
    rfl
  | case2 n b rest ih => exact ih (Nat.le_of_succ_le_succ h)
  | case3 b rest c n found ih =>
    rw [List.cons_append, symbolsFrom, sequence?_append_of_ascii ha, found]
    exact congrArg _ (ih (length_of_sequence? found))
  | case4 b rest stray ih =>
    rw [List.cons_append, symbolsFrom, sequence?_append_of_ascii ha, stray]
    exact congrArg _ (ih (Nat.zero_le _))

theorem symbols_append_of_ascii (ha : a < 0x80) (t u : Text) :
    symbols (t ++ a :: u) = symbols t ++ symbols (a :: u) :=
  symbolsFrom_append_of_ascii ha (Nat.zero_le _) u

end Ascii

/-- The characters of a text can be read line by line. -/
theorem toChars_append_newline (t u : Text) :
    toChars (t ++ newline :: u) = toChars t ++ '\n' :: toChars u := by
  rw [toChars, symbols_append_of_ascii (by decide), symbols_cons_of_ascii (by decide),
    List.map_append]
  rfl

end XtAsm.Text

namespace XtAsm.Source

/-- Lines that are all ended stay as they are. -/
theorem terminateLines_append_newline (t : Text) :
    terminateLines (t ++ [Text.newline]) = t ++ [Text.newline] := by
  induction t with
  | nil => rfl
  | cons b t ih =>
    unfold terminateLines at ih ⊢
    simp only [List.cons_append, cutLines]
    by_cases hb : b = Text.newline
    · rw [if_pos hb, List.flatMap_cons, ih, hb]
      rfl
    · rw [if_neg hb]
      cases h : cutLines (t ++ [Text.newline]) with
      | nil => simp [h] at ih
      | cons line lines =>
        rw [h, List.flatMap_cons] at ih
        simp only [List.flatMap_cons, List.cons_append, ih]

/-- A source file made from encoded characters that end with a line break holds the characters. -/
theorem contents_ofText (file : Text) (cs : List Char) :
    (ofText file (Text.ofChars (cs ++ ['\n']))).contents = cs ++ ['\n'] := by
  have newline : Text.ofChars ['\n'] = [Text.newline] := rfl
  rw [ofText, Text.ofChars_append, newline, terminateLines_append_newline, ← newline,
    ← Text.ofChars_append, Text.toChars_ofChars]

end XtAsm.Source
