import Mathlib.Combinatorics.SimpleGraph.Metric

/-!
# Flooding over relays

Every vertex elects relays among its neighbours. A vertex sends what it hears only if the first
neighbour that it hears has elected it.
-/

namespace RelayFlooding

variable {V : Type*}

/-- A vertex that is two steps away, and not less, is a neighbour of a relay. -/
def Covering (graph : SimpleGraph V) (elects : V → V → Prop) : Prop :=
  ∀ w a b, graph.Adj w a → graph.Adj a b → b ≠ w → ¬ graph.Adj w b →
    ∃ m, graph.Adj w m ∧ graph.Adj m b ∧ elects w m

/-- The vertices that have sent, in this order, when no vertex is left to send. -/
structure Finished (graph : SimpleGraph V) [DecidableRel graph.Adj] (elects : V → V → Prop)
    (origin : V) (senders : List V) : Prop where
  started : origin ∈ senders
  heard : ∀ w ∈ senders, w = origin ∨ ∃ u ∈ senders, graph.Adj u w
  relay : ∀ v, v ≠ origin → ∀ w, senders.find? (fun u => graph.Adj u v) = some w →
    elects w v → v ∈ senders

/-- Two searches are for the same element if each one's result is a match of the other. -/
theorem find_unique {p q : V → Bool} {senders : List V} {w w' : V}
    (hp : senders.find? p = some w') (hq : senders.find? q = some w) (hpw : p w = true)
    (hqw : q w' = true) : w = w' := by
  induction senders with
  | nil => cases hp
  | cons node nodes ih =>
      rw [List.find?_cons] at hp hq
      cases hnode : p node <;> cases hnode' : q node <;> simp only [hnode, hnode'] at hp hq
      · exact ih hp hq
      · rw [Option.some.inj hq, hpw] at hnode
        cases hnode
      · rw [Option.some.inj hp, hqw] at hnode'
        cases hnode'
      · exact (Option.some.inj hq).symm.trans (Option.some.inj hp)

variable {graph : SimpleGraph V} [DecidableRel graph.Adj] {elects : V → V → Prop} {origin : V}
  {senders : List V}

/-- Every vertex that the graph connects with the origin has a neighbour that has sent. -/
theorem Finished.reaches (h : Finished graph elects origin senders)
    (hcovering : Covering graph elects) {v : V} (hv : v ≠ origin)
    (hreach : graph.Reachable origin v) : ∃ u ∈ senders, graph.Adj u v := by
  classical
  by_contra hunheard
  -- Of the senders nearest to the vertex, `w` is the first.
  have hsome : ∃ k, ∃ w ∈ senders, graph.Reachable w v ∧ graph.dist w v = k :=
    ⟨_, origin, h.started, hreach, rfl⟩
  obtain ⟨u, hu, hnearest⟩ := Nat.find_spec hsome
  have hmin : ∀ x ∈ senders, graph.Reachable x v → Nat.find hsome ≤ graph.dist x v :=
    fun x hx hxv => Nat.find_min' hsome ⟨x, hx, hxv, rfl⟩
  have hnear : (senders.find? fun x =>
      decide (graph.Reachable x v ∧ graph.dist x v = Nat.find hsome)).isSome :=
    List.find?_isSome.mpr ⟨u, hu, decide_eq_true hnearest⟩
  obtain ⟨w, hfind⟩ := Option.isSome_iff_exists.mp hnear
  have hw := List.mem_of_find?_eq_some hfind
  have hprop := List.find?_some hfind
  obtain ⟨hwv, hdist⟩ := of_decide_eq_true hprop
  obtain ⟨walk, hlength⟩ := hwv.exists_walk_length_eq_dist
  rw [hdist] at hlength
  cases walk with
  | nil => exact (h.heard v hw).elim hv hunheard
  | cons hwa rest =>
      cases rest with
      | nil => exact hunheard ⟨w, hw, hwa⟩
      | @cons _ b _ hab rest =>
          rw [SimpleGraph.Walk.length_cons, SimpleGraph.Walk.length_cons] at hlength
          have hne : b ≠ w := by
            rintro rfl
            have := graph.dist_le rest
            omega
          have hnot : ¬ graph.Adj w b := by
            intro hwb
            have := graph.dist_le (.cons hwb rest)
            rw [SimpleGraph.Walk.length_cons] at this
            omega
          obtain ⟨m, hwm, hmb, hselector⟩ := hcovering w _ b hwa hab hne hnot
          -- The relay is nearer, so it has not sent the message.
          have hnearer := graph.dist_le (.cons hmb rest)
          rw [SimpleGraph.Walk.length_cons] at hnearer
          have hm : m ∉ senders := by
            intro hmem
            have := hmin m hmem (SimpleGraph.Walk.reachable (.cons hmb rest))
            omega
          have hheard : (senders.find? fun x => graph.Adj x m).isSome :=
            List.find?_isSome.mpr ⟨w, hw, decide_eq_true hwm⟩
          obtain ⟨w', hfind'⟩ := Option.isSome_iff_exists.mp hheard
          have hprop' := List.find?_some hfind'
          have hw'm : graph.Adj w' m := of_decide_eq_true hprop'
          -- But `w` is the first one that it has heard.
          have hfirst : w = w' := by
            apply find_unique hfind' hfind (decide_eq_true hwm) (decide_eq_true ⟨?_, ?_⟩)
            · exact SimpleGraph.Walk.reachable (.cons hw'm (.cons hmb rest))
            · have hle := graph.dist_le (.cons hw'm (.cons hmb rest))
              rw [SimpleGraph.Walk.length_cons, SimpleGraph.Walk.length_cons] at hle
              have hge := hmin w' (List.mem_of_find?_eq_some hfind')
                (SimpleGraph.Walk.reachable (.cons hw'm (.cons hmb rest)))
              omega
          subst hfirst
          have hmo : m ≠ origin := fun heq => hm (heq ▸ h.started)
          exact hm (h.relay m hmo w hfind' hselector)

end RelayFlooding
