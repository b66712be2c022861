import XtAsm.Proofs.Text.Utf8
import XtAsm.Text.Integer

/-!
# Numerals

* `ofNat_injective`: different numbers have different numerals;
* `Denotes`, `readInt_ofNat`: decimal numerals, which are read as their numbers below the limit;
* `bounds_of_readInt`, `nonneg_of_readInt`: what is read without a minus sign is not negative;
* `wrap64_of_readInt`, `wrap64_wrap64_add`: integers that are read are 64-bit words, and sums may be
  reduced to words early.
-/

namespace XtAsm.Text

theorem ofNat_injective {n m : Nat} (h : ofNat n = ofNat m) : n = m := by
  have digits : Nat.toDigits 10 n = Nat.toDigits 10 m := ofChars_injective h
  rw [← Nat.ofDigitChars_ten_toDigits (n := n), digits, Nat.ofDigitChars_ten_toDigits]

/-! ### Digits -/

/-- A decimal digit is a single byte. -/
theorem utf8EncodeChar_of_isDigit {c : Char} (h : c.isDigit = true) :
    String.utf8EncodeChar c = [UInt8.ofNat c.toNat] ∧ 48 ≤ c.toNat ∧ c.toNat ≤ 57 := by
  simp only [Char.isDigit, Bool.and_eq_true, decide_eq_true_eq, ge_iff_le,
    UInt32.le_iff_toNat_le] at h
  have lower : 48 ≤ c.toNat := h.1
  have upper : c.toNat ≤ 57 := h.2
  exact ⟨utf8EncodeChar_of_lt (by omega), lower, upper⟩

theorem le_ofDigitChars (cs : List Char) (read : Nat) : read ≤ Nat.ofDigitChars 10 cs read := by
  rw [Nat.ofDigitChars_eq_ofDigitChars_zero]
  have : 1 * read ≤ 10 ^ cs.length * read := Nat.mul_le_mul_right _ (Nat.pow_pos (by decide))
  omega

/-- Digits are read from the left. -/
theorem magnitudeFrom_ofChars {cs : List Char} (digits : ∀ c ∈ cs, c.isDigit = true) (read : Nat)
    (bound : Nat.ofDigitChars 10 cs read < words) :
    magnitudeFrom read (ofChars cs) = .ok (Nat.ofDigitChars 10 cs read) := by
  induction cs generalizing read with
  | nil => rfl
  | cons c cs ih =>
    obtain ⟨encoding, lower, upper⟩ := utf8EncodeChar_of_isDigit (digits c (by simp))
    have byte : (UInt8.ofNat c.toNat).toNat = c.toNat := toNat_ofNat_byte (by omega)
    have isDigit : 48 ≤ UInt8.ofNat c.toNat ∧ UInt8.ofNat c.toNat ≤ 57 := by
      rw [UInt8.le_iff_toNat_le, UInt8.le_iff_toNat_le, byte]
      exact ⟨lower, upper⟩
    have next : read * 10 + (c.toNat - 48) = 10 * read + (c.toNat - '0'.toNat) := by
      rw [Nat.mul_comm]
      rfl
    rw [Nat.ofDigitChars_cons] at bound ⊢
    have small := Nat.lt_of_le_of_lt (le_ofDigitChars cs _) bound
    rw [ofChars_cons, encoding, List.singleton_append]
    unfold magnitudeFrom
    simp only [if_pos isDigit, byte, next, if_pos small]
    exact ih (fun d hd => digits d (List.mem_cons_of_mem c hd)) _ bound

theorem isDigit_of_mem_toDigits {c : Char} {n : Nat} (h : c ∈ Nat.toDigits 10 n) :
    c.isDigit = true :=
  Nat.isDigit_of_mem_toDigits (by decide) (by decide) h

theorem newline_not_mem_ofNat (n : Nat) : newline ∉ ofNat n := by
  have digits : '\n' ∉ Nat.toDigits 10 n := fun h =>
    absurd (isDigit_of_mem_toDigits h) (by decide)
  exact not_mem_ofChars (by decide) (by decide) digits

theorem newline_not_mem_ofInt (value : Int) : newline ∉ ofInt value := by
  cases value with
  | ofNat n => exact newline_not_mem_ofNat n
  | negSucc n =>
    rw [ofInt, List.mem_append, not_or]
    exact ⟨by decide, newline_not_mem_ofNat _⟩

/-- A text that starts with a digit, or anything beyond, has no sign. -/
theorem readInt_of_le {b : UInt8} (h : 48 ≤ b) (rest : Text) :
    readInt (b :: rest) = (bounded (halfWords - 1) (b :: rest)).map fun n => (n : Int) := by
  rw [readInt, if_neg, if_neg]
  · rintro rfl
    exact absurd h (by decide)
  · rintro rfl
    exact absurd h (by decide)

/-- The text is a decimal numeral of the number; leading zeros count for nothing. -/
def Denotes (t : Text) (value : Int) : Prop :=
  ∃ cs, cs ≠ [] ∧ (∀ c ∈ cs, c.isDigit = true) ∧ t = ofChars cs ∧
    value = Nat.ofDigitChars 10 cs 0

theorem denotes_ofNat (n : Nat) : Denotes (ofNat n) n :=
  ⟨Nat.toDigits 10 n, Nat.toDigits_ne_nil, fun _ => isDigit_of_mem_toDigits, rfl,
    by rw [Nat.ofDigitChars_ten_toDigits]⟩

/-- A byte of a numeral is the byte of a digit. -/
theorem Denotes.forall_mem {t : Text} {value : Int} (h : Denotes t value) :
    ∀ b ∈ t, 48 ≤ b ∧ b ≤ 57 := by
  obtain ⟨cs, -, digits, rfl, -⟩ := h
  intro b mem
  obtain ⟨c, hc, hb⟩ := List.mem_flatMap.1 mem
  obtain ⟨encoding, lower, upper⟩ := utf8EncodeChar_of_isDigit (digits c hc)
  rw [encoding, List.mem_singleton] at hb
  rw [hb, UInt8.le_iff_toNat_le, UInt8.le_iff_toNat_le, toNat_ofNat_byte (by omega)]
  exact ⟨lower, upper⟩

/-- A numeral of a number below the limit is read as the number. -/
theorem Denotes.readInt_eq {t : Text} {value : Int} (h : Denotes t value)
    (bound : value < halfWords) : readInt t = .ok value := by
  have bytes := h.forall_mem
  obtain ⟨cs, ne, digits, rfl, rfl⟩ := h
  have bound : Nat.ofDigitChars 10 cs 0 < halfWords := Int.ofNat_lt.mp bound
  have all := magnitudeFrom_ofChars digits 0 (Nat.lt_trans bound (by decide))
  obtain ⟨b, rest, cons⟩ := List.exists_cons_of_ne_nil fun empty => ne (ofChars_injective empty)
  rw [cons] at all bytes ⊢
  rw [readInt_of_le (bytes b List.mem_cons_self).1, bounded, magnitude, all]
  · simp only [if_pos (Nat.le_sub_one_of_lt bound)]
    rfl
  · exact List.cons_ne_nil b rest

/-- The numeral of a number below the limit is read back. -/
theorem readInt_ofNat {n : Nat} (h : n < halfWords) : readInt (ofNat n) = .ok n :=
  (denotes_ofNat n).readInt_eq (Int.ofNat_lt.mpr h)

/-- A text that starts with a digit denotes a number between zero and the limit. -/
theorem bounds_of_readInt {b : UInt8} {rest : Text} {value : Int} (digit : 48 ≤ b)
    (h : readInt (b :: rest) = .ok value) : 0 ≤ value ∧ value < halfWords := by
  rw [readInt_of_le digit, bounded] at h
  cases hm : magnitude (b :: rest) with
  | error e =>
    simp only [hm] at h
    cases h
  | ok n =>
    simp only [hm] at h
    split at h
    · next bound =>
      cases h
      simp only [halfWords] at bound ⊢
      omega
    · cases h

/-! ### Words -/

/-- Sums may be reduced to words before they are complete. -/
theorem wrap64_wrap64_add (i k : Int) : wrap64 (wrap64 i + k) = wrap64 (i + k) := Int.bmod_add_bmod

theorem exists_of_map_bounded {limit : Nat} {t : Text} {f : Int → Int} {value : Int}
    (h : (bounded limit t >>= fun n => pure (n : Int)).map f = .ok value) :
    ∃ n : Nat, n ≤ limit ∧ f n = value := by
  unfold bounded at h
  split at h
  · split at h
    · next n _ within =>
      cases h
      exact ⟨n, within, rfl⟩
    · cases h
  · cases h

/-- Without a minus sign no integer that is read is negative. -/
theorem nonneg_of_readInt {t : Text} {value : Int} (unsigned : 45 ∉ t)
    (h : readInt t = .ok value) : 0 ≤ value := by
  cases t with
  | nil => cases h
  | cons b rest =>
    have plain : b ≠ 45 := fun minus => unsigned (minus ▸ List.mem_cons_self)
    rw [readInt, if_neg plain] at h
    split at h
    all_goals
      obtain ⟨n, -, rfl⟩ := exists_of_map_bounded h
      exact Int.natCast_nonneg n

/-- Every integer that is read is a signed 64-bit word. -/
theorem wrap64_of_readInt {t : Text} {value : Int} (h : readInt t = .ok value) :
    wrap64 value = value := by
  have bounds : -(halfWords : Int) ≤ value ∧ value < halfWords := by
    cases t with
    | nil => cases h
    | cons b rest =>
      rw [readInt] at h
      split at h
      · obtain ⟨n, within, rfl⟩ := exists_of_map_bounded h
        simp only [halfWords] at within ⊢
        omega
      -- with a plus sign or without any sign the limit is the same
      · split at h
        all_goals
          obtain ⟨n, within, rfl⟩ := exists_of_map_bounded h
          simp only [halfWords] at within ⊢
          omega
  exact wrap64_of_bounds bounds.1 bounds.2

end XtAsm.Text
