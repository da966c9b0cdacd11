import Mathlib.Logic.Function.Basic
import Mathlib.Data.List.Nodup
import Mathlib.Data.List.Perm.Subperm
import Ns3Rdma.Lib.ShortestPath

/-!
# Breadth-first search

A queue holds the discovered vertices, and every discovered vertex its parent. It is a search for
shortest paths where every step costs the same: the queue is in the order of the labels.
-/

namespace BreadthFirst

open ShortestPath

variable {V : Type*} [DecidableEq V]

/-- The queue, and the parents; the root is its own parent. -/
structure Search (V : Type*) where
  grey : List V
  parent : V → Option V

namespace Search

def start (root : V) : Search V := ⟨[root], Function.update (fun _ => none) root (some root)⟩

/-- Discover a vertex from `u`, unless it has a parent. -/
def discover (u : V) (s : Search V) (w : V) : Search V :=
  if s.parent w = none then ⟨s.grey ++ [w], Function.update s.parent w (some u)⟩ else s

/-- Discover the neighbours of the head of the queue, and take it off. -/
def visit (neighbours : V → List V) (u : V) (s : Search V) : Search V :=
  let discovered := (neighbours u).foldl (discover u) s
  { discovered with grey := discovered.grey.tail }

/-- Search until the target is the head of the queue. -/
def run (neighbours : V → List V) (target : V) : ℕ → Search V → Option (Search V)
  | 0, _ => none
  | fuel + 1, s =>
      match s.grey with
      | [] => none
      | u :: _ => if u = target then some s else run neighbours target fuel (s.visit neighbours u)

end Search

/-- A step to a neighbour. -/
def Step (neighbours : V → List V) (v w : V) (weight : ℕ) : Prop :=
  w ∈ neighbours v ∧ weight = 1

variable {neighbours : V → List V} {root target u : V} {d : ℕ} {s : Search V}
  {settled candidates : List (V × ℕ)} {done : List V}

omit [DecidableEq V] in
theorem labelled_weaken {edge relaxed relaxed' : V → V → ℕ → Prop}
    (h : Labelled edge root relaxed settled candidates)
    (himp : ∀ v w weight, relaxed' v w weight → relaxed v w weight) :
    Labelled edge root relaxed' settled candidates :=
  { h with best := fun v dv w weight hv hrel => h.best v dv w weight hv (himp v w weight hrel) }

/-- The head of the queue is visited, and the neighbours in `done` have been looked at. -/
structure Visiting (neighbours : V → List V) (root u : V) (d : ℕ) (done : List V) (s : Search V)
    (settled candidates : List (V × ℕ)) : Prop where
  labelled : Labelled (Step neighbours) root
    (fun v w weight => Step neighbours v w weight ∧ (v ≠ u ∨ w ∈ done)) settled candidates
  current : (u, d) ∈ settled
  grey : s.grey = u :: candidates.map Prod.fst
  nodup : ((settled ++ candidates).map Prod.fst).Nodup
  discovered : ∀ v, s.parent v ≠ none ↔ v ∈ (settled ++ candidates).map Prod.fst
  parents : ∀ v p, s.parent v = some p → v ≠ root → v ∈ neighbours p ∧
    ∃ e, (p, e) ∈ settled ∧ (v, e + 1) ∈ settled ++ candidates
  sorted : candidates.Pairwise fun a b => a.2 ≤ b.2
  near : ∀ c ∈ candidates, d ≤ c.2 ∧ c.2 ≤ d + 1

namespace Visiting

theorem start (root : V) :
    Visiting neighbours root root 0 [] (Search.start root) [(root, 0)] [] where
  labelled :=
    { start := List.mem_singleton_self _
      trail := by
        intro v e hv
        obtain ⟨rfl, rfl⟩ := Prod.mk.inj (List.mem_singleton.mp hv)
        exact ⟨[v], .nil, fun w hw => hw⟩
      least := by
        intro v e hv cost _
        obtain ⟨-, rfl⟩ := Prod.mk.inj (List.mem_singleton.mp hv)
        exact Nat.zero_le _
      reached := fun w e hw => by cases hw
      best := by
        intro v dv w weight hv hrel
        obtain ⟨rfl, -⟩ := Prod.mk.inj (List.mem_singleton.mp hv)
        exact absurd hrel.2 (by simp) }
  current := List.mem_singleton_self _
  grey := rfl
  nodup := List.nodup_singleton _
  discovered := by
    intro v
    unfold Search.start
    by_cases hv : v = root <;> simp [hv]
  parents := by
    intro v p hp hne
    change Function.update (fun _ => none) root (some root) v = some p at hp
    rw [Function.update_of_ne hne] at hp
    cases hp
  sorted := List.Pairwise.nil
  near := fun c hc => by cases hc

variable (h : Visiting neighbours root u d done s settled candidates)
include h

omit [DecidableEq V] in
/-- A vertex has one label. -/
theorem eq_of_mem {v : V} {e e' : ℕ} (he : (v, e) ∈ settled ++ candidates)
    (he' : (v, e') ∈ settled ++ candidates) : e = e' :=
  congrArg Prod.snd (List.inj_on_of_nodup_map h.nodup he he' rfl)

omit [DecidableEq V] in
theorem not_settled {c : V × ℕ} (hc : c ∈ candidates) : c.1 ∉ settled.map Prod.fst := by
  intro hmem
  have hnodup := h.nodup
  rw [List.map_append] at hnodup
  exact (List.nodup_append.mp hnodup).2.2 c.1 hmem c.1 (List.mem_map_of_mem hc) rfl

/-- Look at one neighbour. -/
theorem discover {w : V} (hw : w ∈ neighbours u) :
    ∃ candidates', Visiting neighbours root u d (done ++ [w]) (s.discover u w) settled
      candidates' := by
  have hstep : Step neighbours u w 1 := ⟨hw, rfl⟩
  have hrel : ∀ v x weight, (Step neighbours v x weight ∧ (v ≠ u ∨ x ∈ done ++ [w])) →
      (Step neighbours v x weight ∧ (v ≠ u ∨ x ∈ done)) ∨ (v = u ∧ x = w ∧ weight = 1) := by
    rintro v x weight ⟨hedge, hcase⟩
    by_cases hv : v = u
    · rcases List.mem_append.mp (hcase.resolve_left (not_not_intro hv)) with hx | hx
      · exact Or.inl ⟨hedge, Or.inr hx⟩
      · exact Or.inr ⟨hv, List.mem_singleton.mp hx, hedge.2⟩
    · exact Or.inl ⟨hedge, Or.inl hv⟩
  have hlabel : ∀ e, (u, e) ∈ settled ↔ e = d := by
    intro e
    refine ⟨fun he => ?_, ?_⟩
    · exact h.eq_of_mem (List.mem_append_left _ he) (List.mem_append_left _ h.current)
    rintro rfl
    exact h.current
  unfold Search.discover
  by_cases hnew : s.parent w = none
  · rw [if_pos hnew]
    have hfresh : w ∉ (settled ++ candidates).map Prod.fst := fun hmem =>
      (h.discovered w).mpr hmem hnew
    have hnot : w ∉ settled.map Prod.fst := fun hmem => hfresh (by
      rw [List.map_append]
      exact List.mem_append_left _ hmem)
    refine ⟨candidates ++ [(w, d + 1)], ?_, h.current, ?_, ?_, fun v => ?_, fun v p hp hne => ?_,
      ?_, fun c hc => ?_⟩
    · refine labelled_weaken (h.labelled.relax hlabel hstep hnot ?_ ?_ ?_) hrel
      · intro p hp
        exact (List.mem_append.mp hp).imp_right List.mem_singleton.mp
      · exact fun x e hx => ⟨e, le_rfl, List.mem_append_left _ hx⟩
      · exact ⟨d + 1, le_rfl, List.mem_append_right _ (List.mem_singleton_self _)⟩
    · change s.grey ++ [w] = _
      rw [h.grey, List.map_append]
      rfl
    · rw [← List.append_assoc, List.map_append]
      have hnodup := List.Nodup.concat hfresh h.nodup
      rw [List.concat_eq_append] at hnodup
      exact hnodup
    · rw [← List.append_assoc, List.map_append, List.mem_append, ← h.discovered]
      by_cases hv : v = w
      · simp [hv]
      · simp [hv]
    · rw [← List.append_assoc]
      by_cases hv : v = w
      · subst hv
        have hp : u = p := by simpa using hp
        subst hp
        exact ⟨hw, d, h.current, List.mem_append_right _ (List.mem_singleton_self _)⟩
      · have hold : s.parent v = some p := by simpa [hv] using hp
        obtain ⟨hmem, e, he, hv'⟩ := h.parents v p hold hne
        exact ⟨hmem, e, he, List.mem_append_left _ hv'⟩
    · refine List.pairwise_append.mpr ⟨h.sorted, List.pairwise_singleton _ _, fun a ha b hb => ?_⟩
      rw [List.mem_singleton.mp hb]
      exact (h.near a ha).2
    · rcases List.mem_append.mp hc with hc | hc
      · exact h.near c hc
      · rw [List.mem_singleton.mp hc]
        exact ⟨Nat.le_succ _, le_rfl⟩
  · rw [if_neg hnew]
    have hmem := (h.discovered w).mp hnew
    rw [List.map_append] at hmem
    refine ⟨candidates, { h with labelled := labelled_weaken ?_ hrel }⟩
    rcases List.mem_append.mp hmem with hmem | hmem
    · exact h.labelled.skip hmem
    · obtain ⟨⟨x, e⟩, hc, rfl⟩ := List.mem_map.mp hmem
      exact h.labelled.relax hlabel hstep (h.not_settled hc) (fun p hp => Or.inl hp)
        (fun x e hx => ⟨e, le_rfl, hx⟩) ⟨e, (h.near _ hc).2, hc⟩

theorem foldl_discover {todo : List V} (htodo : ∀ w ∈ todo, w ∈ neighbours u) :
    ∃ candidates', Visiting neighbours root u d (done ++ todo)
      (todo.foldl (Search.discover u) s) settled candidates' := by
  induction todo generalizing done s candidates with
  | nil =>
      rw [List.append_nil]
      exact ⟨candidates, h⟩
  | cons w rest ih =>
      obtain ⟨candidates', h'⟩ := h.discover (htodo w List.mem_cons_self)
      obtain ⟨final, hfinal⟩ := ih h' fun x hx => htodo x (List.mem_cons_of_mem _ hx)
      rw [List.append_assoc, List.singleton_append] at hfinal
      exact ⟨final, hfinal⟩

omit [DecidableEq V] h in
theorem all_relaxed (hdone : done = neighbours u) :
    ∀ v w weight, v ∈ settled.map Prod.fst → Step neighbours v w weight →
      Step neighbours v w weight ∧ (v ≠ u ∨ w ∈ done) := by
  intro v w weight _ hstep
  refine ⟨hstep, or_iff_not_imp_left.mpr fun hv => ?_⟩
  rw [hdone, ← not_not.mp hv]
  exact hstep.1

omit [DecidableEq V] in
/-- When the neighbours have been looked at, the first candidate is visited. -/
theorem next (hdone : done = neighbours u) {w : V} {e : ℕ} {rest : List (V × ℕ)}
    (hcandidates : candidates = (w, e) :: rest) :
    Visiting neighbours root w e [] { s with grey := s.grey.tail } (settled ++ [(w, e)]) rest := by
  subst hdone hcandidates
  obtain ⟨hmin, hsorted⟩ := List.pairwise_cons.mp h.sorted
  have hnodup := h.nodup
  rw [← List.singleton_append, ← List.append_assoc] at hnodup
  have hlater : ∀ c ∈ rest, c.1 ≠ w := by
    rintro ⟨x, e'⟩ hc rfl
    rw [List.map_append] at hnodup
    refine (List.nodup_append.mp hnodup).2.2 x ?_ x (List.mem_map_of_mem hc) rfl
    rw [List.map_append]
    exact List.mem_append_right _ (List.mem_singleton_self _)
  have hleast : ∀ y e', (y, e') ∈ (w, e) :: rest → e ≤ e' := by
    intro y e' hy
    rcases List.mem_cons.mp hy with hy | hy
    · obtain ⟨-, rfl⟩ := Prod.mk.inj hy
      exact le_rfl
    · exact hmin (y, e') hy
  have hrest : ∀ p, p ∈ rest ↔ p ∈ (w, e) :: rest ∧ p.1 ≠ w := by
    refine fun p => ⟨fun hp => ⟨List.mem_cons_of_mem _ hp, hlater p hp⟩, fun hp => ?_⟩
    refine (List.mem_cons.mp hp.1).resolve_left fun heq => hp.2 ?_
    rw [heq]
  have hlabelled := h.labelled.settle (all_relaxed rfl) List.mem_cons_self hleast hrest
  refine ⟨labelled_weaken hlabelled fun v x weight hrel => ?_, ?_, ?_, hnodup, fun v => ?_,
    fun v p hp hne => ?_, hsorted, fun c hc => ⟨hmin c hc, ?_⟩⟩
  · refine ⟨⟨hrel.1, or_iff_not_imp_left.mpr fun hv => ?_⟩, by simpa using hrel.2⟩
    rw [← not_not.mp hv]
    exact hrel.1.1
  · exact List.mem_append_right _ (List.mem_singleton_self _)
  · change s.grey.tail = _
    rw [h.grey]
    rfl
  · rw [List.append_assoc]
    exact h.discovered v
  · rw [List.append_assoc]
    obtain ⟨hmem, e', he', hv⟩ := h.parents v p hp hne
    exact ⟨hmem, e', List.mem_append_left _ he', hv⟩
  · have hfirst := (h.near (w, e) List.mem_cons_self).1
    have hlast := (h.near c (List.mem_cons_of_mem _ hc)).2
    exact hlast.trans (Nat.succ_le_succ hfirst)

end Visiting

/-! ## The whole search -/

/-- The target is found, if it can be reached at all. -/
theorem Visiting.run (h : Visiting neighbours root u d [] s settled candidates) {nodes : List V}
    (hclosed : ∀ v ∈ nodes, ∀ w ∈ neighbours v, w ∈ nodes)
    (hnodes : ∀ c ∈ settled, c.1 ∈ nodes)
    (hmissed : target ∈ settled.map Prod.fst → target = u) {cost : ℕ}
    (hwalk : Walk (Step neighbours) root target cost) {fuel : ℕ}
    (hfuel : nodes.length < fuel + settled.length) :
    ∃ s' d' settled' candidates', Search.run neighbours target fuel s = some s' ∧
      Visiting neighbours root target d' [] s' settled' candidates' := by
  induction fuel generalizing u d s settled candidates with
  | zero =>
      -- There are no more settled vertices than nodes.
      have hnodup := h.nodup
      rw [List.map_append] at hnodup
      have hsub : settled.map Prod.fst ⊆ nodes := by
        intro v hv
        obtain ⟨c, hc, rfl⟩ := List.mem_map.mp hv
        exact hnodes c hc
      have hlength := (List.Nodup.subperm (List.nodup_append.mp hnodup).1 hsub).length_le
      rw [List.length_map] at hlength
      omega
  | succ fuel ih =>
      unfold Search.run
      rw [h.grey]
      dsimp only
      by_cases hu : u = target
      · rw [if_pos hu]
        subst hu
        exact ⟨s, d, settled, candidates, rfl, h⟩
      · rw [if_neg hu]
        obtain ⟨candidates', h'⟩ := h.foldl_discover fun w (hw : w ∈ neighbours u) => hw
        rw [List.nil_append] at h'
        have hnot : target ∉ settled.map Prod.fst := fun hmem => hu (hmissed hmem).symm
        cases hcandidates : candidates' with
        | nil =>
            obtain ⟨y, e, hy, -⟩ :=
              h'.labelled.exists_candidate_le (all_relaxed rfl) hwalk hnot
            rw [hcandidates] at hy
            cases hy
        | cons c rest =>
            obtain ⟨w, e⟩ := c
            have hnext := h'.next rfl hcandidates
            have hw : w ∈ nodes := by
              obtain ⟨-, v, dv, weight, hv, hstep, -⟩ :=
                h'.labelled.reached w e (hcandidates ▸ List.mem_cons_self)
              exact hclosed v (hnodes _ hv) w hstep.1
            refine ih hnext (fun c hc => ?_) (fun hmem => ?_) ?_
            · rcases List.mem_append.mp hc with hc | hc
              · exact hnodes c hc
              · rw [List.mem_singleton.mp hc]
                exact hw
            · rw [List.map_append] at hmem
              exact List.mem_singleton.mp ((List.mem_append.mp hmem).resolve_left hnot)
            · rw [List.length_append, List.length_singleton]
              omega

/-! ## Paths of parents -/

/-- The path along the parents from the root to the vertex. -/
inductive Path (neighbours : V → List V) (parent : V → Option V) (root : V) : List V → V → Prop
  | root : Path neighbours parent root [root] root
  | snoc {path : List V} {p v : V} (before : Path neighbours parent root path p) (new : v ∉ path)
      (ne_root : v ≠ root) (step : parent v = some p) (neighbour : v ∈ neighbours p) :
      Path neighbours parent root (path ++ [v]) v

omit [DecidableEq V] in
/-- A visited vertex has a path as long as its label. -/
theorem Visiting.exists_path (h : Visiting neighbours root u d done s settled candidates) {v : V}
    {e : ℕ} (hv : (v, e) ∈ settled) :
    ∃ path, Path neighbours s.parent root path v ∧ path.length = e + 1 ∧
      ∀ x ∈ path, ∃ e' ≤ e, (x, e') ∈ settled := by
  induction e using Nat.strong_induction_on generalizing v with
  | _ e ih =>
      have hlater {x : V} {k : ℕ} (hx : (x, k) ∈ settled) :
          (x, k) ∈ settled ++ candidates := List.mem_append_left _ hx
      by_cases hroot : v = root
      · subst hroot
        obtain rfl := h.eq_of_mem (hlater hv) (hlater h.labelled.start)
        refine ⟨[v], .root, rfl, fun x hx => ⟨0, le_rfl, ?_⟩⟩
        rw [List.mem_singleton.mp hx]
        exact hv
      · have hparent := (h.discovered v).mpr (List.mem_map_of_mem (hlater hv))
        obtain ⟨p, hp⟩ := Option.ne_none_iff_exists'.mp hparent
        obtain ⟨hmem, e', hsettled, hlabel⟩ := h.parents v p hp hroot
        obtain rfl := h.eq_of_mem hlabel (hlater hv)
        obtain ⟨path, hpath, hlength, hlabels⟩ := ih e' (Nat.lt_succ_self e') hsettled
        refine ⟨path ++ [v], .snoc hpath (fun hx => ?_) hroot hp hmem, ?_, fun x hx => ?_⟩
        · obtain ⟨k, hk, hkv⟩ := hlabels v hx
          have heq := h.eq_of_mem (hlater hkv) (hlater hv)
          omega
        · rw [List.length_append, hlength]
          rfl
        · rcases List.mem_append.mp hx with hx | hx
          · obtain ⟨k, hk, hkx⟩ := hlabels x hx
            exact ⟨k, Nat.le_succ_of_le hk, hkx⟩
          · rw [List.mem_singleton.mp hx]
            exact ⟨_, le_rfl, hv⟩

/-- The search finds a path of the least length. -/
theorem exists_path_of_walk {nodes : List V} (hroot : root ∈ nodes)
    (hclosed : ∀ v ∈ nodes, ∀ w ∈ neighbours v, w ∈ nodes) {cost : ℕ}
    (hwalk : Walk (Step neighbours) root target cost) {fuel : ℕ} (hfuel : nodes.length < fuel + 1) :
    ∃ s' path, Search.run neighbours target fuel (Search.start root) = some s' ∧
      Path neighbours s'.parent root path target ∧
        ∀ k, Walk (Step neighbours) root target k → path.length ≤ k + 1 := by
  obtain ⟨s', d, settled, candidates, hrun, h⟩ :=
    (Visiting.start root).run hclosed (fun c hc => by rwa [List.mem_singleton.mp hc])
      (fun hmem => List.mem_singleton.mp hmem) hwalk hfuel
  obtain ⟨path, hpath, hlength, -⟩ := h.exists_path h.current
  refine ⟨s', path, hrun, hpath, fun k hk => ?_⟩
  rw [hlength]
  exact Nat.succ_le_succ (h.labelled.least target d h.current k hk)

end BreadthFirst
