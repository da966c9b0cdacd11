import Mathlib.Data.Multiset.ZeroCons

/-! # Relations between the members of a multiset

Each member is related to every other one. The relation need not be symmetric, so both directions
hold for any two of them. -/

namespace Others

variable {α : Type*} {R S : α → α → Prop} {a : α} {M : Multiset α}

/-- Every member is related to all others. -/
def All (R : α → α → Prop) (M : Multiset α) : Prop :=
  ∀ a rest, M = a ::ₘ rest → ∀ b ∈ rest, R a b

theorem all_zero (R : α → α → Prop) : All R 0 := by
  intro a rest heq
  exact absurd heq.symm (Multiset.cons_ne_zero)

theorem all_cons : All R (a ::ₘ M) ↔ (∀ b ∈ M, R a b ∧ R b a) ∧ All R M := by
  constructor
  · intro h
    refine ⟨fun b hb => ⟨h a M rfl b hb, ?_⟩, fun b rest heq c hc => ?_⟩
    · obtain ⟨rest, rfl⟩ := Multiset.exists_cons_of_mem hb
      exact h b (a ::ₘ rest) (Multiset.cons_swap a b rest) a (Multiset.mem_cons_self a rest)
    · refine h b (a ::ₘ rest) ?_ c (Multiset.mem_cons_of_mem hc)
      rw [heq, Multiset.cons_swap]
  · rintro ⟨hpairs, hrest⟩ b rest heq c hc
    rcases Multiset.cons_eq_cons.mp heq with ⟨rfl, rfl⟩ | ⟨-, common, rfl, rfl⟩
    · exact (hpairs c hc).1
    · rcases Multiset.mem_cons.mp hc with rfl | hc
      · exact (hpairs b (Multiset.mem_cons_self b common)).2
      · exact hrest b common rfl c hc

theorem All.mono (h : All R M) (himp : ∀ a ∈ M, ∀ b ∈ M, R a b → S a b) : All S M := by
  intro a rest heq b hb
  subst heq
  exact himp a (Multiset.mem_cons_self a rest) b (Multiset.mem_cons_of_mem hb) (h a rest rfl b hb)

end Others
