import PrincessIDE.Foundation.Trim

namespace PrincessIDE.Str
open Utf8

theorem toDigits_hexDigit (two : 1 < base) (letters : base ≤ 16) (member : c ∈ Nat.toDigits base n) : isHexDigit c = true := by
  have digit : ∀ d : Fin 16, isHexDigit (Nat.digitChar d) = true := by decide
  induction n using Nat.strongRecOn with
  | ind n ih =>
    by_cases single : n < base
    · rw [Nat.toDigits_of_lt_base single,List.mem_singleton] at member
      rw [member]
      exact digit ⟨n,by omega⟩
    · rw [Nat.toDigits_of_base_le two (Nat.le_of_not_lt single),List.mem_append,List.mem_singleton] at member
      rcases member with front | rfl
      · exact ih (n/base) (Nat.div_lt_self (by omega) two) front
      · exact digit ⟨n % base,Nat.lt_of_lt_of_le (Nat.mod_lt n (by omega)) letters⟩

-- No digit is one of the characters that a reader cuts or trims at.
theorem toDigits_plain (two : 1 < base) (letters : base ≤ 16) (foreign : isHexDigit c = false) : c ∉ Nat.toDigits base n := by
  intro inside
  have digit := toDigits_hexDigit two letters inside
  rw [foreign] at digit
  cases digit

theorem toDigits_trimmed (two : 1 < base) (letters : base ≤ 16) (n : Nat) : Trimmed (Nat.toDigits base n) :=
  ⟨fun _ first => (hexDigit_plain (toDigits_hexDigit two letters (List.mem_of_mem_head? first))).1,
    fun _ last => (hexDigit_plain (toDigits_hexDigit two letters (List.mem_of_mem_getLast? last))).1⟩

theorem fromStrRadix_toDigits (two : 1 < base) (letters : base ≤ 16) (small : n < bound) :
    fromStrRadix base bound (Nat.toDigits base n) = some n := by
  have read := readDigits_toDigits two letters small
  cases digits : Nat.toDigits base n with
  | nil => exact absurd digits Nat.toDigits_ne_nil
  | cons c rest =>
    have digit : isHexDigit c = true := toDigits_hexDigit (n:=n) two letters (by simp [digits])
    rw [digits] at read
    rw [fromStrRadix,if_neg (hexDigit_plain digit).2.2.1]
    exact read

end PrincessIDE.Str
