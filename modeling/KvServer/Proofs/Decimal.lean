import Mathlib
import KvServer.Number.Decimal

/-!
# Decimal text reads back

The decimal text of a number is read back as that number by the integer readers, whenever the
number lies in the range asked for. Its characters are ASCII digits, behind a `-` for a negative
integer, so the text starts with neither sign the readers strip and its UTF-8 bytes hold no
carriage return: a decimal text never ends a line early.
-/

namespace KvServer.Decimal

/-- Each of the ten digit characters is a digit with its own value, is neither sign, and is
written as one UTF-8 byte that is no carriage return. -/
theorem digitChar_spec : ∀ d, d < 10 →
    (digitChar d).isDigit = true ∧ digitValue (digitChar d) = d ∧
      digitChar d ≠ '+' ∧ digitChar d ≠ '-' ∧ 13 ∉ String.utf8EncodeChar (digitChar d) := by
  decide

theorem digits_eq (n : Nat) :
    digits n = if n < 10 then [digitChar n] else digits (n / 10) ++ [digitChar (n % 10)] := by
  rw [digits]

theorem mem_digits {n : Nat} {c : Char} (h : c ∈ digits n) : ∃ d, d < 10 ∧ c = digitChar d := by
  induction n using Nat.strongRecOn with
  | ind n ih =>
    rw [digits_eq] at h
    split at h
    · exact ⟨n, by omega, List.mem_singleton.1 h⟩
    · rcases List.mem_append.1 h with h | h
      · exact ih (n / 10) (by omega) h
      · exact ⟨n % 10, Nat.mod_lt _ (by omega), List.mem_singleton.1 h⟩

theorem digits_eq_cons (n : Nat) : ∃ d cs, d < 10 ∧ digits n = digitChar d :: cs := by
  induction n using Nat.strongRecOn with
  | ind n ih =>
    rw [digits_eq]
    split
    · exact ⟨n, [], by omega, rfl⟩
    · obtain ⟨d, cs, hd, h⟩ := ih (n / 10) (by omega)
      exact ⟨d, cs ++ [digitChar (n % 10)], hd, by rw [h, List.cons_append]⟩

theorem digitsValue_digits (n : Nat) : digitsValue (digits n) = n := by
  induction n using Nat.strongRecOn with
  | ind n ih =>
    rw [digits_eq]
    split
    · simp [digitsValue, (digitChar_spec n ‹_›).2.1]
    · have hd := (digitChar_spec (n % 10) (Nat.mod_lt _ (by omega))).2.1
      have hn := ih (n / 10) (by omega)
      simp only [digitsValue, List.foldl_append, List.foldl_cons, List.foldl_nil] at hn ⊢
      rw [hn, hd]
      omega

theorem ofDigits?_digits (n : Nat) : ofDigits? (digits n) = some (n : Nat) := by
  have hall : (digits n).all Char.isDigit = true := by
    rw [List.all_eq_true]
    intro c hc
    obtain ⟨d, hd, rfl⟩ := mem_digits hc
    exact (digitChar_spec d hd).1
  have hne : digits n ≠ [] := by
    obtain ⟨d, cs, -, h⟩ := digits_eq_cons n
    simp [h]
  rw [ofDigits?, if_pos ⟨hne, hall⟩, digitsValue_digits]

@[simp] theorem toList_ofNat (n : Nat) : (ofNat n).toList = digits n := by
  simp [ofNat]

/-- The decimal text of a number below `bound` reads back as that number. -/
theorem parseNat?_ofNat {n bound : Nat} (h : n < bound) : parseNat? bound (ofNat n) = some n := by
  obtain ⟨d, cs, hd, hcs⟩ := digits_eq_cons n
  have hplus := (digitChar_spec d hd).2.2.1
  unfold parseNat?
  simp only [toList_ofNat]
  split
  · rename_i heq
    rw [hcs] at heq
    exact absurd (List.cons.inj heq).1 hplus
  · simp [ofDigits?_digits, h]

/-- The decimal text of an integer in `[lo, hi]` reads back as that integer. -/
theorem parseInt?_ofInt {i lo hi : Int} (hlo : lo ≤ i) (hhi : i ≤ hi) :
    parseInt? lo hi (ofInt i) = some i := by
  obtain ⟨d, cs, hd, hcs⟩ := digits_eq_cons i.natAbs
  obtain ⟨-, -, hplus, hminus, -⟩ := digitChar_spec d hd
  by_cases hneg : i < 0
  · have htext : (ofInt i).toList = '-' :: digits i.natAbs := by simp [ofInt, hneg]
    simp [parseInt?, htext, ofDigits?_digits, hlo, hhi, abs_of_neg hneg]
  · have hval : ((i.natAbs : Nat) : Int) = i := by omega
    have htext : (ofInt i).toList = digits i.natAbs := by simp [ofInt, hneg]
    unfold parseInt?
    rw [htext]
    split
    · rename_i heq
      rw [hcs] at heq
      exact absurd (List.cons.inj heq).1 hminus
    · rename_i heq
      rw [hcs] at heq
      exact absurd (List.cons.inj heq).1 hplus
    · simp [ofDigits?_digits, hval, hlo, hhi]

/-- The text of a signed 64-bit integer reads back as that integer. -/
theorem parseInt64?_ofInt (n : Int64) : parseInt64? (ofInt n.toInt) = some n.toInt := by
  have hlo := n.le_toInt
  have hhi := n.toInt_lt
  exact parseInt?_ofInt (by simp only [int64Min]; omega) (by simp only [int64Max]; omega)

/-- No decimal text of a natural number is `-1`, the text a null length is written with. -/
theorem ofNat_ne_minus_one (n : Nat) : ofNat n ≠ "-1" := by
  intro h
  obtain ⟨d, cs, hd, hcs⟩ := digits_eq_cons n
  have hlist := congrArg String.toList h
  rw [toList_ofNat, hcs] at hlist
  exact (digitChar_spec d hd).2.2.2.1 (List.cons.inj hlist).1

end KvServer.Decimal
