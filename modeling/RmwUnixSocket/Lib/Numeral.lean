import Mathlib.Algebra.Group.Nat.Defs
import Mathlib.Algebra.Group.Int.Defs
import Mathlib.Data.List.Infix

/-!
# Printed and parsed numbers

`%u` prints the decimal digits of a number, `%x` its hexadecimal digits.  `strtol` parses a
decimal number at the start of a string as the C library does: white space, a sign, digits, a
result that saturates at the bounds of a 64-bit `long`, and how many characters it took.

Texts built of fields with a separator between them are read back field by field, as long as
no field holds the separator.
-/

namespace Numeral

/-! ## Printing -/

/-- `%u`, `%d` of a number that is not negative. -/
def decimal (n : Nat) : List Char := Nat.toDigits 10 n

/-- `%x`. -/
def hex (n : Nat) : List Char := Nat.toDigits 16 n

/-- `snprintf` into a buffer of `size` bytes, one of them for the terminator. -/
def snprintf (size : Nat) (text : List Char) : List Char := text.take (size - 1)

theorem snprintf_of_fits {size : Nat} {text : List Char} (hfits : text.length < size) :
    snprintf size text = text :=
  List.take_of_length_le (by omega)

theorem digitChar_inj {m n : Nat} (hm : m < 16) (hn : n < 16)
    (h : m.digitChar = n.digitChar) : m = n := by
  have hall : ∀ m < 16, ∀ n < 16, m.digitChar = n.digitChar → m = n := by decide
  exact hall m hm n hn h

theorem toDigits_inj {b m n : Nat} (hb : 1 < b) (hb16 : b ≤ 16)
    (h : Nat.toDigits b m = Nat.toDigits b n) : m = n := by
  induction m using Nat.strong_induction_on generalizing n with
  | _ m ih =>
    rw [Nat.toDigits_eq_if hb (n := m), Nat.toDigits_eq_if hb (n := n)] at h
    by_cases hm : m < b
    · by_cases hn : n < b
      · rw [if_pos hm, if_pos hn, List.singleton_inj] at h
        exact digitChar_inj (by omega) (by omega) h
      · -- a number of one digit against one of more
        rw [if_pos hm, if_neg hn] at h
        have hlen := congrArg List.length h
        have hpos : 0 < (Nat.toDigits b (n / b)).length := Nat.length_toDigits_pos
        simp only [List.length_singleton, List.length_append] at hlen
        omega
    · by_cases hn : n < b
      · rw [if_neg hm, if_pos hn] at h
        have hlen := congrArg List.length h
        have hpos : 0 < (Nat.toDigits b (m / b)).length := Nat.length_toDigits_pos
        simp only [List.length_singleton, List.length_append] at hlen
        omega
      · rw [if_neg hm, if_neg hn] at h
        obtain ⟨hfront, hlast⟩ := List.append_inj' h rfl
        have hdiv : m / b = n / b := ih (m / b) (Nat.div_lt_self (by omega) hb) hfront
        have hmod : m % b = n % b := by
          apply digitChar_inj
          · exact lt_of_lt_of_le (Nat.mod_lt m (by omega)) hb16
          · exact lt_of_lt_of_le (Nat.mod_lt n (by omega)) hb16
          · simpa using hlast
        rw [← Nat.div_add_mod m b, ← Nat.div_add_mod n b, hdiv, hmod]

theorem decimal_inj {m n : Nat} : decimal m = decimal n ↔ m = n :=
  ⟨fun h => toDigits_inj (by decide) (by decide) h, fun h => by rw [h]⟩

theorem hex_inj {m n : Nat} : hex m = hex n ↔ m = n :=
  ⟨fun h => toDigits_inj (by decide) (by decide) h, fun h => by rw [h]⟩

theorem length_decimal_le {n k : Nat} (hk : 0 < k) (hn : n < 10 ^ k) :
    (decimal n).length ≤ k :=
  (Nat.length_toDigits_le_iff (by decide) hk).mpr hn

theorem length_hex_le {n k : Nat} (hk : 0 < k) (hn : n < 16 ^ k) : (hex n).length ≤ k :=
  (Nat.length_toDigits_le_iff (by decide) hk).mpr hn

theorem isDigit_of_mem_decimal {n : Nat} {c : Char} (hc : c ∈ decimal n) : c.isDigit :=
  Nat.isDigit_of_mem_toDigits (by decide) (by decide) hc

theorem not_mem_decimal {n : Nat} {c : Char} (hc : c.isDigit = false) : c ∉ decimal n := by
  intro hmem
  simp [isDigit_of_mem_decimal hmem] at hc

/-- A decimal number starts with a digit. -/
theorem decimal_eq_cons (n : Nat) : ∃ c rest, decimal n = c :: rest ∧ c.isDigit := by
  cases hd : decimal n with
  | nil => exact absurd hd Nat.toDigits_ne_nil
  | cons c rest =>
    refine ⟨c, rest, rfl, isDigit_of_mem_decimal (n := n) ?_⟩
    rw [hd]
    exact List.mem_cons_self

/-! ## Fields -/

/-- Two texts that agree up to and after a separator that neither first field holds. -/
theorem field_inj {α : Type} {sep : α} {x y r s : List α} (hx : sep ∉ x) (hy : sep ∉ y) :
    x ++ sep :: r = y ++ sep :: s ↔ x = y ∧ r = s := by
  constructor
  · intro h
    induction x generalizing y with
    | nil =>
      cases y with
      | nil => exact ⟨rfl, by simpa using h⟩
      | cons b y => simp at h; simp [h.1] at hy
    | cons a x ih =>
      cases y with
      | nil => simp at h; simp [h.1] at hx
      | cons b y =>
        simp only [List.cons_append, List.cons.injEq] at h
        obtain ⟨hxy, hrs⟩ := ih (by simp at hx; exact hx.2) (by simp at hy; exact hy.2) h.2
        exact ⟨by rw [h.1, hxy], hrs⟩
  · rintro ⟨rfl, rfl⟩
    rfl

/-! ## Parsing -/

/-- The white space of the C locale. -/
def isSpace (c : Char) : Bool :=
  c = ' ' ∨ ('\t'.toNat ≤ c.toNat ∧ c.toNat ≤ '\r'.toNat)

def LONG_MAX : Int := 2 ^ 63 - 1

def LONG_MIN : Int := -2 ^ 63

/-- An optional sign: whether it is a minus, and how many characters it takes. -/
def sign : List Char → Bool × Nat
  | '-' :: _ => (true, 1)
  | '+' :: _ => (false, 1)
  | _ => (false, 0)

/-- `strtol` in base 10: the value, and the offset of `*endptr`.  It is 0 where no digit was
found. -/
def strtol (s : List Char) : Int × Nat :=
  let space := (s.takeWhile isSpace).length
  let (neg, signed) := sign (s.drop space)
  let digits := (s.drop (space + signed)).takeWhile Char.isDigit
  let value : Int := Nat.ofDigitChars 10 digits 0
  if digits = [] then (0, 0)
  else (max LONG_MIN (min LONG_MAX (if neg then -value else value)),
    space + signed + digits.length)

theorem toNat_of_isDigit {c : Char} (hc : c.isDigit) : 48 ≤ c.toNat ∧ c.toNat ≤ 57 := by
  exact Char.isDigit_iff_toNat.mp hc

theorem isSpace_of_isDigit {c : Char} (hc : c.isDigit) : isSpace c = false := by
  have hrange := toNat_of_isDigit hc
  have hblank : c ≠ ' ' := by
    rintro rfl
    simp at hrange
  simp only [isSpace, hblank, false_or, decide_eq_false_iff_not, not_and]
  intro _
  change ¬ c.toNat ≤ 13
  omega

theorem sign_of_isDigit {c : Char} (hc : c.isDigit) (rest : List Char) :
    sign (c :: rest) = (false, 0) := by
  have hrange := toNat_of_isDigit hc
  have hminus : c ≠ '-' := by
    rintro rfl
    simp at hrange
  have hplus : c ≠ '+' := by
    rintro rfl
    simp at hrange
  simp [sign, hminus, hplus]

/-- A printed number that fits a `long` is read back, up to the first character after it. -/
theorem strtol_decimal {n : Nat} (hn : n < 2 ^ 63) {c : Char} (hc : c.isDigit = false)
    (rest : List Char) : strtol (decimal n ++ c :: rest) = ((n : Int), (decimal n).length) := by
  obtain ⟨d, ds, hds, hd⟩ := decimal_eq_cons n
  have hspace : (decimal n ++ c :: rest).takeWhile isSpace = [] := by
    simp [hds, isSpace_of_isDigit hd]
  have hsign : sign (decimal n ++ c :: rest) = (false, 0) := by
    rw [hds, List.cons_append]
    exact sign_of_isDigit hd _
  have hdigits : (decimal n ++ c :: rest).takeWhile Char.isDigit = decimal n := by
    rw [List.takeWhile_append_of_pos (fun a ha => isDigit_of_mem_decimal ha)]
    simp [hc]
  have hne : decimal n ≠ [] := by simp [hds]
  have hvalue : Nat.ofDigitChars 10 (decimal n) 0 = n := Nat.ofDigitChars_ten_toDigits
  simp only [strtol, hspace, hsign, hdigits, hvalue, hne, List.length_nil, List.drop_zero,
    Nat.zero_add, if_false, Bool.false_eq_true, Prod.mk.injEq, and_true]
  have hmax : LONG_MAX = 2 ^ 63 - 1 := rfl
  have hmin : LONG_MIN = -2 ^ 63 := rfl
  omega

end Numeral
