import XtAsm.Proofs.Text.Utf8

/-!
# Characters and stray bytes

Reading a text as UTF-8 finds the encoded characters, and nothing else: a byte is taken for a stray
one exactly where the encoding of no character starts.

* `Decodes`: the characters of a text, told by their encodings;
* `utf8EncodeChar_of_sequence?`: a sequence that is read is the encoding of its character;
* `symbols_cons_cases`: what stands at the head of a text;
* `decodes_iff`: every text has the characters that `toChars` reads, and no others.
-/

namespace XtAsm.Text

/-- The characters of a text.  Where the encoding of a character starts, the character stands; a
byte at which none starts is replaced. -/
inductive Decodes : Text → List Char → Prop
  | nil : Decodes [] []
  | char (c : Char) {t : Text} {cs : List Char} (more : Decodes t cs) :
      Decodes (String.utf8EncodeChar c ++ t) (c :: cs)
  | stray {b : UInt8} {t : Text} {cs : List Char}
      (nothing : ∀ c, ¬ String.utf8EncodeChar c <+: b :: t) (more : Decodes t cs) :
      Decodes (b :: t) (replacement :: cs)

/-! ### Sequences -/

theorem toNat_ofNat_of_isValidChar {n : Nat} (h : n.isValidChar) : (Char.ofNat n).toNat = n := by
  rw [Char.ofNat, dif_pos h]
  rfl

/-- A character that is made from a value has the value. -/
theorem toNat_of_scalar? {least value length n : Nat} {c : Char}
    (h : (scalar? least value).map (·, length) = some (c, n)) :
    c.toNat = value ∧ least ≤ c.toNat ∧ n = length := by
  unfold scalar? at h
  split at h
  · next valid =>
    cases h
    rw [toNat_ofNat_of_isValidChar valid.2]
    exact ⟨rfl, valid.1, rfl⟩
  · cases h

theorem bounds_of_isContinuation {b : UInt8} (h : isContinuation b = true) :
    b.toNat = payload b + 0x80 ∧ payload b < 64 := by
  simp only [isContinuation, Bool.and_eq_true, decide_eq_true_eq, UInt8.le_iff_toNat_le] at h
  have lower : 0x80 ≤ b.toNat := h.1
  have upper : b.toNat ≤ 0xBF := h.2
  unfold payload
  omega

section Encodings

variable {c : Char} {b d e f : UInt8}

theorem utf8EncodeChar_two (hb : 0xC0 ≤ b.toNat) (hb' : b.toNat < 0xE0)
    (hd : isContinuation d = true) (value : c.toNat = (b.toNat - 0xC0) * 64 + payload d)
    (least : 0x80 ≤ c.toNat) : String.utf8EncodeChar c = [b, d] := by
  obtain ⟨byte, small⟩ := bounds_of_isContinuation hd
  have toNat_val : c.val.toNat = c.toNat := rfl
  have first : c.toNat / 64 % 32 + 192 = b.toNat := by omega
  have second : c.toNat % 64 + 128 = d.toNat := by omega
  simp only [String.utf8EncodeChar, toNat_val]
  rw [if_neg (by omega), if_pos (by omega), first, second, UInt8.ofNat_toNat, UInt8.ofNat_toNat]

theorem utf8EncodeChar_three (hb : 0xE0 ≤ b.toNat) (hb' : b.toNat < 0xF0)
    (hd : isContinuation d = true) (he : isContinuation e = true)
    (value : c.toNat = (b.toNat - 0xE0) * 4096 + payload d * 64 + payload e)
    (least : 0x800 ≤ c.toNat) : String.utf8EncodeChar c = [b, d, e] := by
  obtain ⟨byte, small⟩ := bounds_of_isContinuation hd
  obtain ⟨byte', small'⟩ := bounds_of_isContinuation he
  have toNat_val : c.val.toNat = c.toNat := rfl
  have first : c.toNat / 4096 % 16 + 224 = b.toNat := by omega
  have second : c.toNat / 64 % 64 + 128 = d.toNat := by omega
  have third : c.toNat % 64 + 128 = e.toNat := by omega
  simp only [String.utf8EncodeChar, toNat_val]
  rw [if_neg (by omega), if_neg (by omega), if_pos (by omega), first, second, third,
    UInt8.ofNat_toNat, UInt8.ofNat_toNat, UInt8.ofNat_toNat]

theorem utf8EncodeChar_four (hb : 0xF0 ≤ b.toNat) (hb' : b.toNat < 0xF8)
    (hd : isContinuation d = true) (he : isContinuation e = true) (hf : isContinuation f = true)
    (value : c.toNat = (b.toNat - 0xF0) * 262144 + payload d * 4096 + payload e * 64 + payload f)
    (least : 0x10000 ≤ c.toNat) : String.utf8EncodeChar c = [b, d, e, f] := by
  obtain ⟨byte, small⟩ := bounds_of_isContinuation hd
  obtain ⟨byte', small'⟩ := bounds_of_isContinuation he
  obtain ⟨byte'', small''⟩ := bounds_of_isContinuation hf
  have toNat_val : c.val.toNat = c.toNat := rfl
  have first : c.toNat / 262144 % 8 + 240 = b.toNat := by omega
  have second : c.toNat / 4096 % 64 + 128 = d.toNat := by omega
  have third : c.toNat / 64 % 64 + 128 = e.toNat := by omega
  have fourth : c.toNat % 64 + 128 = f.toNat := by omega
  simp only [String.utf8EncodeChar, toNat_val]
  rw [if_neg (by omega), if_neg (by omega), if_neg (by omega), first, second, third, fourth,
    UInt8.ofNat_toNat, UInt8.ofNat_toNat, UInt8.ofNat_toNat, UInt8.ofNat_toNat]

end Encodings

/-- A sequence that is read is the encoding of its character. -/
theorem utf8EncodeChar_of_sequence? {b : UInt8} {rest : Text} {c : Char} {n : Nat}
    (h : sequence? b rest = some (c, n)) : String.utf8EncodeChar c = b :: rest.take n := by
  unfold sequence? at h
  simp only [UInt8.lt_iff_toNat_lt] at h
  split at h
  case isTrue one =>
    cases h
    have small : b.toNat < 0x80 := one
    have value := toNat_ofNat_of_isValidChar (.inl (Nat.lt_trans small (by decide)))
    rw [utf8EncodeChar_of_lt (by rwa [value]), value, UInt8.ofNat_toNat]
    rfl
  split at h
  case isTrue => cases h
  case isFalse low =>
  have low := Nat.le_of_not_lt low
  split at h
  case isTrue high =>
    rcases rest with _ | ⟨d, rest⟩ <;> simp only [reduceCtorEq] at h
    split at h
    case isTrue hd =>
      obtain ⟨value, least, rfl⟩ := toNat_of_scalar? h
      exact utf8EncodeChar_two low high hd value least
    case isFalse => cases h
  case isFalse low =>
  have low := Nat.le_of_not_lt low
  split at h
  case isTrue high =>
    rcases rest with _ | ⟨d, _ | ⟨e, rest⟩⟩ <;> simp only [reduceCtorEq] at h
    split at h
    case isTrue continued =>
      rw [Bool.and_eq_true] at continued
      obtain ⟨value, least, rfl⟩ := toNat_of_scalar? h
      exact utf8EncodeChar_three low high continued.1 continued.2 value least
    case isFalse => cases h
  case isFalse low =>
  have low := Nat.le_of_not_lt low
  split at h
  case isTrue high =>
    rcases rest with _ | ⟨d, _ | ⟨e, _ | ⟨f, rest⟩⟩⟩ <;> simp only [reduceCtorEq] at h
    split at h
    case isTrue continued =>
      rw [Bool.and_eq_true, Bool.and_eq_true] at continued
      obtain ⟨value, least, rfl⟩ := toNat_of_scalar? h
      exact utf8EncodeChar_four low high continued.1.1 continued.1.2 continued.2 value least
    case isFalse => cases h
  case isFalse => cases h

/-! ### Texts -/

/-- At the head of a text stands the encoding of a character, or a byte at which none starts. -/
theorem symbols_cons_cases (b : UInt8) (t : Text) :
    (∃ c rest, b :: t = String.utf8EncodeChar c ++ rest ∧ rest.length ≤ t.length ∧
      symbols (b :: t) = .char c :: symbols rest) ∨
    ((∀ c, ¬ String.utf8EncodeChar c <+: b :: t) ∧ symbols (b :: t) = .stray b :: symbols t) := by
  cases found : sequence? b t with
  | some place =>
    obtain ⟨c, n⟩ := place
    have split : b :: t = String.utf8EncodeChar c ++ t.drop n := by
      rw [utf8EncodeChar_of_sequence? found, List.cons_append, List.take_append_drop]
    refine .inl ⟨c, t.drop n, split, by rw [List.length_drop]; omega, ?_⟩
    rw [split, symbols, symbolsFrom_utf8EncodeChar]
    rfl
  | none =>
    have stray : symbols (b :: t) = .stray b :: symbols t := by
      rw [symbols, symbolsFrom, found]
      rfl
    refine .inr ⟨?_, stray⟩
    rintro c ⟨rest, encoding⟩
    rw [← encoding, symbols, symbolsFrom_utf8EncodeChar] at stray
    cases stray

/-- Every text has the characters that are read, and no others. -/
theorem decodes_iff (t : Text) (cs : List Char) : Decodes t cs ↔ cs = toChars t := by
  constructor
  · intro h
    induction h with
    | nil => rfl
    | char c _ ih =>
      rw [toChars, symbols, symbolsFrom_utf8EncodeChar, ih]
      rfl
    | @stray b t cs nothing _ ih =>
      rcases symbols_cons_cases b t with ⟨c, rest, split, -⟩ | ⟨-, stray⟩
      · exact absurd ⟨rest, split.symm⟩ (nothing c)
      · rw [toChars, stray, ih]
        rfl
  · rintro rfl
    induction size : t.length using Nat.strongRecOn generalizing t with
    | ind n ih =>
      cases t with
      | nil => exact .nil
      | cons b t =>
        rw [List.length_cons] at size
        rw [toChars]
        rcases symbols_cons_cases b t with ⟨c, rest, split, shorter, read⟩ | ⟨nothing, read⟩
        · rw [read, split]
          exact .char c (ih rest.length (by omega) rest rfl)
        · rw [read]
          exact .stray nothing (ih t.length (by omega) t rfl)

end XtAsm.Text
