import Mathlib.Data.List.Basic
import Mathlib.Order.Bounds.Basic

/-!
# Shortest paths by settling labels

Vertices get labels: a settled vertex has its distance, a candidate the least
cost of a step from a settled vertex. Settling a candidate with a least label
gives every vertex its distance from the root.
-/

namespace ShortestPath

variable {V : Type*} {edge : V → V → ℕ → Prop} {root : V}

/-- The vertex can be reached from the root at this cost. -/
inductive Walk (edge : V → V → ℕ → Prop) (root : V) : V → ℕ → Prop
  | nil : Walk edge root root 0
  | snoc {v w : V} {cost weight : ℕ} (walk : Walk edge root v cost) (step : edge v w weight) :
      Walk edge root w (cost + weight)

/-- A walk that visits no vertex twice. -/
inductive Trail (edge : V → V → ℕ → Prop) (root : V) : List V → V → ℕ → Prop
  | nil : Trail edge root [root] root 0
  | snoc {visited : List V} {v w : V} {cost weight : ℕ} (trail : Trail edge root visited v cost)
      (step : edge v w weight) (fresh : w ∉ visited) :
      Trail edge root (w :: visited) w (cost + weight)

theorem Trail.walk {visited : List V} {v : V} {cost : ℕ} (h : Trail edge root visited v cost) :
    Walk edge root v cost := by
  induction h with
  | nil => exact .nil
  | snoc trail step fresh ih => exact .snoc ih step

/-- The labels, when the edges in `relaxed` have been looked at. -/
structure Labelled (edge : V → V → ℕ → Prop) (root : V) (relaxed : V → V → ℕ → Prop)
    (settled candidates : List (V × ℕ)) : Prop where
  start : (root, 0) ∈ settled
  trail : ∀ v d, (v, d) ∈ settled →
    ∃ visited, Trail edge root visited v d ∧ ∀ u ∈ visited, u ∈ settled.map Prod.fst
  least : ∀ v d, (v, d) ∈ settled → ∀ cost, Walk edge root v cost → d ≤ cost
  reached : ∀ w d, (w, d) ∈ candidates → w ∉ settled.map Prod.fst ∧
    ∃ v dv weight, (v, dv) ∈ settled ∧ edge v w weight ∧ d = dv + weight
  best : ∀ v dv w weight, (v, dv) ∈ settled → relaxed v w weight → w ∉ settled.map Prod.fst →
    ∃ d, (w, d) ∈ candidates ∧ d ≤ dv + weight

variable {relaxed : V → V → ℕ → Prop} {settled candidates : List (V × ℕ)}

/-- A step from a settled vertex to one that is not settled extends a trail. -/
theorem Labelled.trail_snoc (h : Labelled edge root relaxed settled candidates) {v w : V}
    {d weight : ℕ} (hv : (v, d) ∈ settled) (hstep : edge v w weight)
    (hw : w ∉ settled.map Prod.fst) :
    ∃ visited, Trail edge root (w :: visited) w (d + weight) ∧
      ∀ u ∈ visited, u ∈ settled.map Prod.fst := by
  obtain ⟨visited, htrail, hvisited⟩ := h.trail v d hv
  exact ⟨visited, htrail.snoc hstep fun hmem => hw (hvisited w hmem), hvisited⟩

/-- Every walk to a vertex that is not settled passes a candidate. -/
theorem Labelled.exists_candidate_le (h : Labelled edge root relaxed settled candidates)
    (hrelaxed : ∀ v w weight, v ∈ settled.map Prod.fst → edge v w weight → relaxed v w weight)
    {x : V} {cost : ℕ} (hwalk : Walk edge root x cost) (hx : x ∉ settled.map Prod.fst) :
    ∃ y d, (y, d) ∈ candidates ∧ d ≤ cost := by
  -- The last step leaves a settled vertex, or a candidate comes earlier on the walk.
  induction hwalk with
  | nil => exact absurd (List.mem_map_of_mem h.start) hx
  | @snoc v w cost weight walk step ih =>
      by_cases hv : v ∈ settled.map Prod.fst
      · obtain ⟨⟨v, d⟩, hd, rfl⟩ := List.mem_map.mp hv
        obtain ⟨e, he, hle⟩ := h.best v d w weight hd (hrelaxed v w weight hv step) hx
        have hleast := h.least v d hd cost walk
        exact ⟨w, e, he, by omega⟩
      · obtain ⟨y, d, hd, hle⟩ := ih hv
        exact ⟨y, d, hd, by omega⟩

/-- A least candidate has its distance. -/
theorem Labelled.le_of_walk (h : Labelled edge root relaxed settled candidates)
    (hrelaxed : ∀ v w weight, v ∈ settled.map Prod.fst → edge v w weight → relaxed v w weight)
    {u : V} {d : ℕ} (hu : (u, d) ∈ candidates) (hmin : ∀ y e, (y, e) ∈ candidates → d ≤ e)
    {cost : ℕ} (hwalk : Walk edge root u cost) : d ≤ cost := by
  obtain ⟨y, e, he, hle⟩ := h.exists_candidate_le hrelaxed hwalk (h.reached u d hu).1
  exact le_trans (hmin y e he) hle

/-- Settle a least candidate. -/
theorem Labelled.settle (h : Labelled edge root relaxed settled candidates)
    (hrelaxed : ∀ v w weight, v ∈ settled.map Prod.fst → edge v w weight → relaxed v w weight)
    {u : V} {d : ℕ} (hu : (u, d) ∈ candidates) (hmin : ∀ y e, (y, e) ∈ candidates → d ≤ e)
    {rest : List (V × ℕ)} (hrest : ∀ p, p ∈ rest ↔ p ∈ candidates ∧ p.1 ≠ u) :
    Labelled edge root (fun v w weight => relaxed v w weight ∧ v ≠ u) (settled ++ [(u, d)])
      rest := by
  have hfst : (settled ++ [(u, d)]).map Prod.fst = settled.map Prod.fst ++ [u] := by
    rw [List.map_append]
    rfl
  obtain ⟨hfresh, v, dv, weight, hv, hstep, hd⟩ := h.reached u d hu
  refine ⟨List.mem_append_left _ h.start, fun x e hx => ?_, fun x e hx cost hwalk => ?_,
    fun w e hw => ?_, fun x dx w m hx hrel hw => ?_⟩
  · rw [hfst]
    rcases List.mem_append.mp hx with hx | hx
    · obtain ⟨visited, htrail, hvisited⟩ := h.trail x e hx
      exact ⟨visited, htrail, fun y hy => List.mem_append_left _ (hvisited y hy)⟩
    · obtain ⟨rfl, rfl⟩ := Prod.mk.inj (List.mem_singleton.mp hx)
      obtain ⟨visited, htrail, hvisited⟩ := h.trail_snoc hv hstep hfresh
      -- The trail to the vertex before it goes through settled vertices only.
      refine ⟨x :: visited, hd ▸ htrail, fun y hy => ?_⟩
      rcases List.mem_cons.mp hy with rfl | hy
      · exact List.mem_append_right _ (List.mem_singleton_self _)
      · exact List.mem_append_left _ (hvisited y hy)
  · rcases List.mem_append.mp hx with hx | hx
    · exact h.least x e hx cost hwalk
    · obtain ⟨rfl, rfl⟩ := Prod.mk.inj (List.mem_singleton.mp hx)
      exact h.le_of_walk hrelaxed hu hmin hwalk
  · obtain ⟨hw, hne⟩ := (hrest _).mp hw
    obtain ⟨hnot, v, dv, weight, hv, hstep, he⟩ := h.reached w e hw
    refine ⟨?_, v, dv, weight, List.mem_append_left _ hv, hstep, he⟩
    rw [hfst]
    intro hmem
    rcases List.mem_append.mp hmem with hmem | hmem
    · exact hnot hmem
    · exact hne (List.mem_singleton.mp hmem)
  · rw [hfst] at hw
    rcases List.mem_append.mp hx with hx | hx
    · obtain ⟨e, he, hle⟩ := h.best x dx w m hx hrel.1 fun hmem =>
        hw (List.mem_append_left _ hmem)
      refine ⟨e, (hrest _).mpr ⟨he, ?_⟩, hle⟩
      rintro rfl
      exact hw (List.mem_append_right _ (List.mem_singleton_self _))
    · -- The edges of the new vertex have not been looked at.
      obtain ⟨rfl, rfl⟩ := Prod.mk.inj (List.mem_singleton.mp hx)
      exact absurd rfl hrel.2

/-- Look at an edge to a settled vertex. -/
theorem Labelled.skip (h : Labelled edge root relaxed settled candidates) {v w : V} {weight : ℕ}
    (hw : w ∈ settled.map Prod.fst) :
    Labelled edge root (fun x y m => relaxed x y m ∨ (x = v ∧ y = w ∧ m = weight)) settled
      candidates := by
  refine ⟨h.start, h.trail, h.least, h.reached, fun x dx y m hx hrel hy => ?_⟩
  rcases hrel with hrel | ⟨-, rfl, -⟩
  · exact h.best x dx y m hx hrel hy
  · exact absurd hw hy

/-- Look at an edge, and lower the label of its end. -/
theorem Labelled.relax (h : Labelled edge root relaxed settled candidates) {v w : V} {d weight : ℕ}
    (hv : ∀ e, (v, e) ∈ settled ↔ e = d) (hstep : edge v w weight)
    (hw : w ∉ settled.map Prod.fst) {lowered : List (V × ℕ)}
    (hold : ∀ p ∈ lowered, p ∈ candidates ∨ p = (w, d + weight))
    (hlow : ∀ x e, (x, e) ∈ candidates → ∃ e' ≤ e, (x, e') ∈ lowered)
    (hnew : ∃ e ≤ d + weight, (w, e) ∈ lowered) :
    Labelled edge root (fun x y m => relaxed x y m ∨ (x = v ∧ y = w ∧ m = weight)) settled
      lowered := by
  refine ⟨h.start, h.trail, h.least, fun x e hx => ?_, fun x dx y m hx hrel hy => ?_⟩
  · rcases hold _ hx with hx | hx
    · exact h.reached x e hx
    · obtain ⟨rfl, rfl⟩ := Prod.mk.inj hx
      exact ⟨hw, v, d, weight, (hv d).mpr rfl, hstep, rfl⟩
  · rcases hrel with hrel | ⟨rfl, rfl, rfl⟩
    · obtain ⟨e, he, hle⟩ := h.best x dx y m hx hrel hy
      obtain ⟨e', hle', he'⟩ := hlow y e he
      exact ⟨e', he', le_trans hle' hle⟩
    · obtain ⟨e, hle, he⟩ := hnew
      obtain rfl := (hv dx).mp hx
      exact ⟨e, he, hle⟩

end ShortestPath
