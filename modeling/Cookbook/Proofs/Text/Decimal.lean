import Cookbook.Text.Decimal

/-!
# The digits of a number

A run of digits that is read as a number is the number's own digits behind some zeros
(`digits_of_word?`). So a run is the number padded to a width exactly when it has no zero in front
that the width does not ask for (`eq_leftpad_iff`).
-/

namespace Cookbook.Text

variable {cs : List Char} {n : UInt32} {width : Nat}

theorem word?_eq_some : word? cs = some n ↔
    cs ≠ [] ∧ (∀ c ∈ cs, c.isDigit = true) ∧ Nat.ofDigitChars 10 cs 0 = n.toNat := by
  unfold word?
  by_cases malformed : (cs.isEmpty || !cs.all Char.isDigit) = true
  · rw [if_pos malformed]
    simp only [reduceCtorEq, false_iff]
    rintro ⟨nonempty, plain, -⟩
    simp [nonempty, List.all_eq_true.mpr plain] at malformed
  · rw [if_neg malformed]
    obtain ⟨nonempty, plain⟩ : cs ≠ [] ∧ ∀ c ∈ cs, c.isDigit = true := by
      simpa using malformed
    simp only [nonempty, ne_eq, not_false_eq_true, true_and, and_iff_right plain]
    split
    next small =>
      rw [Option.some.injEq, ← UInt32.toNat_inj, UInt32.toNat_ofNatLT]
    next large =>
      simp only [reduceCtorEq, false_iff]
      intro value
      exact large (value ▸ n.toNat_lt)

theorem isDigit_of_word? (read : word? cs = some n) : ∀ c ∈ cs, c.isDigit = true :=
  (word?_eq_some.mp read).2.1

theorem notMem_of_word? {c : Char} (other : c.isDigit = false) (read : word? cs = some n) : c ∉ cs := by
  intro member
  rw [isDigit_of_word? read c member] at other
  cases other

theorem toDigits_of_isDigit {c : Char} (digit : c.isDigit = true) :
    Nat.toDigits 10 (c.toNat - '0'.toNat) = [c] := by
  have bounds : 48 ≤ c.toNat ∧ c.toNat ≤ 57 := Char.isDigit_iff_toNat.mp digit
  have zero : '0'.toNat = 48 := rfl
  have small : c.toNat - 48 < 10 := by omega
  rw [zero, Nat.toDigits_of_lt_base small, List.singleton_inj, ← Char.toNat_inj,
    Nat.toNat_digitChar_of_lt_ten small]
  omega

theorem toDigits_append (plain : ∀ c ∈ cs, c.isDigit = true) {value : Nat} (positive : 0 < value) :
    Nat.toDigits 10 value ++ cs = Nat.toDigits 10 (Nat.ofDigitChars 10 cs value) := by
  induction cs generalizing value with
  | nil => rw [List.append_nil, Nat.ofDigitChars_nil]
  | cons c cs ih =>
      obtain ⟨digit, plain⟩ := List.forall_mem_cons.mp plain
      have bounds : 48 ≤ c.toNat ∧ c.toNat ≤ 57 := Char.isDigit_iff_toNat.mp digit
      have zero : '0'.toNat = 48 := rfl
      calc
        Nat.toDigits 10 value ++ c :: cs
            = (Nat.toDigits 10 value ++ Nat.toDigits 10 (c.toNat - '0'.toNat)) ++ cs := by
              rw [toDigits_of_isDigit digit, List.append_assoc, List.singleton_append]
        _ = Nat.toDigits 10 (10 * value + (c.toNat - '0'.toNat)) ++ cs := by
              rw [Nat.toDigits_append_toDigits (by decide) positive (by omega)]
        _ = Nat.toDigits 10 (Nat.ofDigitChars 10 (c :: cs) value) := by
              rw [ih plain (by omega), Nat.ofDigitChars_cons]

theorem digits_of_ne_zero {c : Char} (read : word? (c :: cs) = some n) (other : c ≠ '0') :
    digits n = c :: cs := by
  obtain ⟨-, plain, value⟩ := word?_eq_some.mp read
  obtain ⟨digit, plain⟩ := List.forall_mem_cons.mp plain
  have bounds : 48 ≤ c.toNat ∧ c.toNat ≤ 57 := Char.isDigit_iff_toNat.mp digit
  have zero : '0'.toNat = 48 := rfl
  have positive : 0 < c.toNat - '0'.toNat := by
    have apart : c.toNat ≠ '0'.toNat := fun same => other (Char.toNat_inj.mp same)
    omega
  rw [Nat.ofDigitChars_cons, Nat.mul_zero, Nat.zero_add] at value
  rw [digits, ← value, ← toDigits_append plain positive, toDigits_of_isDigit digit,
    List.singleton_append]

theorem word?_of_zero_cons (read : word? ('0' :: cs) = some n) (more : cs ≠ []) :
    word? cs = some n := by
  obtain ⟨-, plain, value⟩ := word?_eq_some.mp read
  exact word?_eq_some.mpr ⟨more, (List.forall_mem_cons.mp plain).2, value⟩

theorem digits_of_word? (read : word? cs = some n) :
    ∃ zeros, cs = List.replicate zeros '0' ++ digits n := by
  induction cs with
  | nil => exact absurd rfl (word?_eq_some.mp read).1
  | cons c cs ih =>
      by_cases other : c = '0'
      · subst other
        cases cs with
        | nil =>
            have zero : n = 0 := by
              have value : 0 = n.toNat := (word?_eq_some.mp read).2.2
              exact UInt32.toNat_inj.mp value.symm
            exact ⟨0, by rw [zero]; rfl⟩
        | cons next cs =>
            obtain ⟨zeros, padded⟩ := ih (word?_of_zero_cons read (List.cons_ne_nil next cs))
            exact ⟨zeros + 1, by rw [padded, List.replicate_succ, List.cons_append]⟩
      · exact ⟨0, (digits_of_ne_zero read other).symm⟩

theorem length_digits_le (read : word? cs = some n) : (digits n).length ≤ cs.length := by
  obtain ⟨zeros, padded⟩ := digits_of_word? read
  rw [padded, List.length_append]
  exact Nat.le_add_left _ _

theorem length_digits_of_zero (zero : (digits n).head? = some '0') : (digits n).length = 1 := by
  obtain ⟨rest, whole⟩ := List.head?_eq_some_iff.mp zero
  cases rest with
  | nil => rw [whole, List.length_singleton]
  | cons c rest =>
      have read := word?_digits n
      rw [whole] at read
      have shorter := length_digits_le (word?_of_zero_cons read (List.cons_ne_nil c rest))
      rw [whole, List.length_cons] at shorter
      omega

/-- That a run of digits has at least as many as a width asks for, and no leading zero beyond that. -/
structure Padded (width : Nat) (cs : List Char) : Prop where
  wide : width ≤ cs.length
  tight : width < cs.length → cs.head? ≠ some '0'

instance : Decidable (Padded width cs) :=
  decidable_of_iff (width ≤ cs.length ∧ (width < cs.length → cs.head? ≠ some '0'))
    ⟨fun both => ⟨both.1, both.2⟩, fun padded => ⟨padded.wide, padded.tight⟩⟩

theorem padded_leftpad (positive : 0 < width) (n : UInt32) :
    Padded width (List.leftpad width '0' (digits n)) := by
  have length := List.length_leftpad (n := width) (a := '0') (l := digits n)
  refine ⟨by omega, ?_⟩
  intro wider zero
  have unpadded : List.leftpad width '0' (digits n) = digits n := by
    rw [List.leftpad, Nat.sub_eq_zero_of_le (by omega), List.replicate_zero, List.nil_append]
  rw [unpadded] at zero
  have single := length_digits_of_zero zero
  omega

/-- A run of digits is its number padded to a width if it is padded to that width at all. -/
theorem leftpad_digits_eq_iff (positive : 0 < width) (read : word? cs = some n) :
    List.leftpad width '0' (digits n) = cs ↔ Padded width cs := by
  constructor
  · rintro rfl
    exact padded_leftpad positive n
  · intro padded
    obtain ⟨zeros, whole⟩ := digits_of_word? read
    have length : cs.length = zeros + (digits n).length := by
      rw [whole, List.length_append, List.length_replicate]
    have wide := padded.wide
    rw [whole, List.leftpad, List.append_left_inj]
    congr 1
    cases zeros with
    | zero => omega
    | succ zeros =>
        have zero : cs.head? = some '0' := by
          rw [whole, List.replicate_succ, List.cons_append, List.head?_cons]
        have exactly : ¬ width < cs.length := fun wider => padded.tight wider zero
        omega

theorem digits_eq_iff (read : word? cs = some n) : digits n = cs ↔ Padded 1 cs := by
  have some_ : 1 ≤ (digits n).length := Nat.length_toDigits_pos
  have unpadded : List.leftpad 1 '0' (digits n) = digits n := by
    rw [List.leftpad, Nat.sub_eq_zero_of_le some_, List.replicate_zero, List.nil_append]
  rw [← leftpad_digits_eq_iff Nat.one_pos read, unpadded]

end Cookbook.Text
