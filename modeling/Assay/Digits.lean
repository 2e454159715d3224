/-!
# Digits

Digits of a base up to sixteen denote a number, and those that a number is written with denote the
number itself (`number_toDigits`).
-/

namespace Assay.Digits

/-- The value of a hexadecimal digit. -/
def hexValue? (c : Char) : Option Nat :=
  if '0' ≤ c ∧ c ≤ '9' then some (c.toNat - '0'.toNat)
  else if 'a' ≤ c ∧ c ≤ 'f' then some (c.toNat - 'a'.toNat + 10)
  else if 'A' ≤ c ∧ c ≤ 'F' then some (c.toNat - 'A'.toNat + 10)
  else none

/-- The number that digits denote in a base. -/
def number (base : Nat) (digits : List Char) : Nat :=
  digits.foldl (fun n c => base * n + (hexValue? c).getD 0) 0

variable {b n : Nat}

theorem exists_digitChar_of_mem_toDigits (hb : 1 < b) {c : Char} (hc : c ∈ Nat.toDigits b n) :
    ∃ d < b, c = Nat.digitChar d := by
  induction n using Nat.strongRecOn with
  | ind n ih =>
    rw [Nat.toDigits_eq_if hb] at hc
    split at hc
    · exact ⟨n, ‹n < b›, List.mem_singleton.mp hc⟩
    · rcases List.mem_append.mp hc with hc | hc
      · exact ih (n / b) (Nat.div_lt_self (by omega) hb) hc
      · exact ⟨n % b, Nat.mod_lt _ (by omega), List.mem_singleton.mp hc⟩

theorem head?_toDigits_ne_zero (hb : 1 < b) (hn : 0 < n) : (Nat.toDigits b n).head? ≠ some '0' := by
  induction n using Nat.strongRecOn with
  | ind n ih =>
    rw [Nat.toDigits_eq_if hb]
    split
    · simp only [List.head?_cons, ne_eq, Option.some.injEq, Nat.digitChar_eq_zero]
      omega
    · have hhead := ih (n / b) (Nat.div_lt_self hn hb) (Nat.div_pos (by omega) (by omega))
      obtain ⟨c, cs, hcs⟩ := List.exists_cons_of_ne_nil (Nat.toDigits_ne_nil (n := n / b) (b := b))
      rw [hcs] at hhead ⊢
      exact hhead

theorem hexValue?_digitChar : ∀ d < 16, hexValue? (Nat.digitChar d) = some d := by
  decide

theorem number_toDigits (hb : 1 < b) (hb' : b ≤ 16) (n : Nat) :
    number b (Nat.toDigits b n) = n := by
  have hdigit {d : Nat} (hd : d < b) : (hexValue? (Nat.digitChar d)).getD 0 = d := by
    rw [hexValue?_digitChar d (by omega), Option.getD_some]
  induction n using Nat.strongRecOn with
  | ind n ih =>
    rw [Nat.toDigits_eq_if hb]
    split
    · simp [number, hdigit ‹n < b›]
    · have hprefix : number b (Nat.toDigits b (n / b)) = n / b :=
        ih (n / b) (Nat.div_lt_self (by omega) hb)
      unfold number at hprefix ⊢
      rw [List.foldl_append, hprefix, List.foldl_cons, List.foldl_nil,
        hdigit (Nat.mod_lt n (by omega)), Nat.div_add_mod]

end Assay.Digits
