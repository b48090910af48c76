import Mathlib.Data.List.Nodup
import Mathlib.Data.List.Perm.Subperm
import Resumable.Name.Temporary

/-!
# The search for a temporary

No two places of the sequence have the same name. So the search for a free name, which looks at one
place more than there are taken names, finds one, and it is the first from where the search begins.
-/

namespace Resumable.Name

variable {taken : List String} {place n : Nat}

theorem toList_temporary_of_not_lt (hn : ¬ n < 25) :
    (temporary n).toList = '_' :: Nat.toDigits 10 (n - 25) := by
  rw [temporary, if_neg hn, String.toList_append, Nat.toString_eq_repr, Nat.toList_repr]
  rfl

theorem exists_letter : ∀ n < 25, ∃ c, (temporary n).toList = ['_', c] ∧ c.isDigit = false := by
  intro n hn
  rw [temporary, if_pos hn]
  refine ⟨_, String.toList_ofList, ?_⟩
  revert n
  decide +kernel

/-- A lettered temporary reads as no numbered one, which goes on with a digit. -/
theorem temporary_ne_of_lt_of_not_lt {m : Nat} (hm : m < 25) (hn : ¬ n < 25) :
    temporary m ≠ temporary n := by
  intro heq
  obtain ⟨c, hc, hletter⟩ := exists_letter m hm
  rw [heq, toList_temporary_of_not_lt hn] at hc
  have hdigits : c ∈ Nat.toDigits 10 (n - 25) := (List.cons.inj hc).2 ▸ List.mem_singleton_self c
  rw [Nat.isDigit_of_mem_toDigits (by decide) (by decide) hdigits] at hletter
  cases hletter

theorem temporary_injective : Function.Injective temporary := by
  have hlettered : ∀ m < 25, ∀ n < 25, temporary m = temporary n → m = n := by decide +kernel
  intro m n heq
  by_cases hm : m < 25 <;> by_cases hn : n < 25
  · exact hlettered m hm n hn heq
  · exact absurd heq (temporary_ne_of_lt_of_not_lt hm hn)
  · exact absurd heq.symm (temporary_ne_of_lt_of_not_lt hn hm)
  · have hlists := congrArg String.toList heq
    rw [toList_temporary_of_not_lt hm, toList_temporary_of_not_lt hn] at hlists
    have hread := congrArg (fun digits => Nat.ofDigitChars 10 digits 0) (List.cons.inj hlists).2
    simp only [Nat.ofDigitChars_toDigits (show 1 < 10 by decide) (Nat.le_refl 10)] at hread
    omega

/-- Among one place more than there are taken names, one is free. -/
theorem exists_free (taken : List String) (place : Nat) :
    ∃ n ∈ List.range' place (taken.length + 1), temporary n ∉ taken := by
  by_contra hnone
  simp only [not_exists, not_and, not_not] at hnone
  have hsubset : (List.range' place (taken.length + 1)).map temporary ⊆ taken := by
    intro name hname
    obtain ⟨n, hn, rfl⟩ := List.mem_map.1 hname
    exact hnone n hn
  have hnodup := (List.nodup_range' (s := place) (n := taken.length + 1)).map temporary_injective
  have hlength := (hnodup.subperm hsubset).length_le
  rw [List.length_map, List.length_range'] at hlength
  exact absurd hlength (Nat.not_succ_le_self _)

/-- The search ends at the first free place. -/
theorem find?_firstFree (taken : List String) (place : Nat) :
    (List.range' place (taken.length + 1)).find? (fun n => !taken.contains (temporary n)) =
      some (firstFree taken place) := by
  obtain ⟨n, hn, hfree⟩ := exists_free taken place
  cases hfind : (List.range' place (taken.length + 1)).find? fun n =>
      !taken.contains (temporary n) with
  | none =>
    have htaken := List.find?_eq_none.1 hfind n hn
    simp only [Bool.not_eq_true', List.contains_iff_mem, Bool.not_eq_false] at htaken
    exact absurd htaken hfree
  | some found => rw [firstFree, hfind, Option.getD_some]

theorem le_firstFree (taken : List String) (place : Nat) : place ≤ firstFree taken place :=
  (List.mem_range'_1.1 (List.find?_range'_eq_some.1 (find?_firstFree taken place)).2.1).1

theorem temporary_firstFree (taken : List String) (place : Nat) :
    temporary (firstFree taken place) ∉ taken := by
  have hfree := (List.find?_range'_eq_some.1 (find?_firstFree taken place)).1
  simpa only [Bool.not_eq_true', ← Bool.not_eq_true, List.contains_iff_mem] using hfree

/-- No free place is passed over. -/
theorem firstFree_le (hplace : place ≤ n) (hfree : temporary n ∉ taken) :
    firstFree taken place ≤ n := by
  by_contra hlt
  have htaken := (List.find?_range'_eq_some.1 (find?_firstFree taken place)).2.2 n hplace
    (Nat.lt_of_not_le hlt)
  simp only [Bool.not_not, List.contains_iff_mem] at htaken
  exact hfree htaken

end Resumable.Name
