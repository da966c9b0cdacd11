import Mathlib.Data.List.Induction
import Mathlib.Logic.Basic

/-!
# Runs of a partial labelled step function

A component is a state type together with a step function that executes one
event, or refuses it. Properties of a run are stated over its executed prefixes,
so a statement about "every state reached" also covers the intermediate ones.
-/

namespace StepSystem

variable {σ ε : Type*}

/-- Execute the events in order; the run is undefined once an event is refused. -/
def run (step : σ → ε → Option σ) : σ → List ε → Option σ
  | state, [] => some state
  | state, event :: rest => (step state event).bind fun next => run step next rest

/-- The predicate holds initially and after every executed event. -/
def Throughout (step : σ → ε → Option σ) (P : σ → Prop) (start : σ) (events : List ε) : Prop :=
  ∀ done rest state, events = done ++ rest → run step start done = some state → P state

/-- The relation holds between the two ends of every executed event. -/
def EachStep (step : σ → ε → Option σ) (C : σ → ε → σ → Prop) (start : σ)
    (events : List ε) : Prop :=
  ∀ done event rest state next, events = done ++ event :: rest →
    run step start done = some state → step state event = some next → C state event next

variable {step : σ → ε → Option σ}

@[simp] theorem run_nil (state : σ) : run step state [] = some state := rfl

theorem run_cons (state : σ) (event : ε) (rest : List ε) :
    run step state (event :: rest) = (step state event).bind fun next => run step next rest :=
  rfl

theorem run_cons_of_step {state next : σ} {event : ε} (rest : List ε)
    (hstep : step state event = some next) :
    run step state (event :: rest) = run step next rest := by
  rw [run_cons, hstep, Option.bind_some]

theorem run_append (state : σ) (first second : List ε) :
    run step state (first ++ second) =
      (run step state first).bind fun middle => run step middle second := by
  induction first generalizing state with
  | nil => rfl
  | cons event rest ih =>
      rw [List.cons_append, run_cons, run_cons]
      cases step state event with
      | none => rfl
      | some next => exact ih next

theorem run_trans {start middle final : σ} {first second : List ε}
    (hfirst : run step start first = some middle)
    (hsecond : run step middle second = some final) :
    run step start (first ++ second) = some final := by
  rw [run_append, hfirst, Option.bind_some, hsecond]

@[simp] theorem eachStep_nil {C : σ → ε → σ → Prop} (start : σ) :
    EachStep step C start [] := by
  intro done event rest state next heq
  simp at heq

theorem eachStep_cons {C : σ → ε → σ → Prop} {start : σ} {event : ε} {rest : List ε} :
    EachStep step C start (event :: rest) ↔
      ∀ next, step start event = some next → C start event next ∧ EachStep step C next rest := by
  constructor
  · intro h next hstep
    refine ⟨h [] event rest start next rfl rfl hstep, ?_⟩
    intro done event' rest' state final heq hrun
    exact h (event :: done) event' rest' state final (by rw [heq]; rfl)
      ((run_cons_of_step done hstep).trans hrun)
  · intro h done event' rest' state final heq hrun hfinal
    cases done with
    | nil =>
        obtain ⟨rfl, rfl⟩ := List.cons.inj heq
        obtain rfl := Option.some.inj hrun
        exact (h final hfinal).1
    | cons first done =>
        obtain ⟨rfl, htail⟩ := List.cons.inj heq
        rw [run_cons, Option.bind_eq_some_iff] at hrun
        obtain ⟨next, hstep, hrun⟩ := hrun
        exact (h next hstep).2 done event' rest' state final htail hrun hfinal

theorem eachStep_append {C : σ → ε → σ → Prop} {start middle : σ} {first second : List ε}
    (hrun : run step start first = some middle) :
    EachStep step C start (first ++ second) ↔
      EachStep step C start first ∧ EachStep step C middle second := by
  induction first generalizing start with
  | nil =>
      obtain rfl := Option.some.inj hrun
      simp
  | cons event rest ih =>
      rw [run_cons, Option.bind_eq_some_iff] at hrun
      obtain ⟨next, hstep, hrun⟩ := hrun
      rw [List.cons_append, eachStep_cons, eachStep_cons]
      simp only [hstep, Option.some.injEq, forall_eq', ih hrun, and_assoc]

theorem eachStep_and {C D : σ → ε → σ → Prop} {start : σ} {events : List ε} :
    EachStep step (fun state event next => C state event next ∧ D state event next) start events ↔
      EachStep step C start events ∧ EachStep step D start events := by
  constructor
  · intro h
    exact ⟨fun done event rest state next heq hrun hstep =>
        (h done event rest state next heq hrun hstep).1,
      fun done event rest state next heq hrun hstep =>
        (h done event rest state next heq hrun hstep).2⟩
  · rintro ⟨hC, hD⟩ done event rest state next heq hrun hstep
    exact ⟨hC done event rest state next heq hrun hstep,
      hD done event rest state next heq hrun hstep⟩

/-- The states of a run are its start and the ends of its executed steps. -/
theorem throughout_iff_eachStep {P : σ → Prop} {start : σ} {events : List ε} :
    Throughout step P start events ↔
      P start ∧ EachStep step (fun _ _ next => P next) start events := by
  constructor
  · intro h
    refine ⟨h [] events start rfl rfl, ?_⟩
    intro done event rest state next heq hrun hstep
    refine h (done ++ [event]) rest next (by simpa using heq) (run_trans hrun ?_)
    rw [run_cons_of_step [] hstep, run_nil]
  · rintro ⟨hstart, heach⟩ done rest state heq hrun
    induction done using List.reverseRecOn with
    | nil =>
        obtain rfl := Option.some.inj hrun
        exact hstart
    | append_singleton done event _ =>
        rw [run_append, Option.bind_eq_some_iff] at hrun
        obtain ⟨middle, hmiddle, hlast⟩ := hrun
        rw [run_cons, Option.bind_eq_some_iff] at hlast
        obtain ⟨next, hstep, hnext⟩ := hlast
        obtain rfl := Option.some.inj hnext
        exact heach done event rest middle next (by simpa using heq) hmiddle hstep

/-- Exchange a step property for a step condition. Both agree in every state of an
invariant that the condition preserves, so they agree along the whole run. -/
theorem eachStep_iff_of_invariant {C D : σ → ε → σ → Prop} {I : σ → Prop}
    (hiff : ∀ state event next, I state → step state event = some next →
      (C state event next ↔ D state event next))
    (hkeep : ∀ state event next, I state → step state event = some next →
      D state event next → I next)
    {start : σ} (hstart : I start) (events : List ε) :
    EachStep step C start events ↔ EachStep step D start events := by
  induction events generalizing start with
  | nil => simp
  | cons event rest ih =>
      rw [eachStep_cons, eachStep_cons]
      refine forall_congr' fun next => imp_congr_right fun hstep => ?_
      rw [hiff start event next hstart hstep]
      refine and_congr_right fun hcond => ?_
      exact ih (hkeep start event next hstart hstep hcond)

/-- An invariant preserved by the steps that meet a condition holds throughout
every run whose steps all meet it. -/
theorem throughout_of_eachStep {D : σ → ε → σ → Prop} {I : σ → Prop}
    (hkeep : ∀ state event next, I state → step state event = some next →
      D state event next → I next)
    {start : σ} (hstart : I start) {events : List ε} (heach : EachStep step D start events) :
    Throughout step I start events := by
  rw [throughout_iff_eachStep]
  refine ⟨hstart, ?_⟩
  induction events generalizing start with
  | nil => simp
  | cons event rest ih =>
      rw [eachStep_cons] at heach ⊢
      intro next hstep
      obtain ⟨hcond, hrest⟩ := heach next hstep
      have hnext := hkeep start event next hstart hstep hcond
      exact ⟨hnext, ih hnext hrest⟩

/-- An invariant preserved by every step holds throughout every run. -/
theorem throughout_of_invariant {I : σ → Prop}
    (hkeep : ∀ state event next, I state → step state event = some next → I next)
    {start : σ} (hstart : I start) (events : List ε) : Throughout step I start events :=
  throughout_of_eachStep (D := fun _ _ _ => True)
    (fun state event next hstate hstep _ => hkeep state event next hstate hstep) hstart
    (fun _ _ _ _ _ _ _ _ => trivial)

/-- A property of all states holds at the start of every executed event. -/
theorem Throughout.eachStep {P : σ → Prop} {C : σ → ε → σ → Prop} {start : σ} {events : List ε}
    (h : Throughout step P start events) (himp : ∀ state event next, P state → C state event next) :
    EachStep step C start events := by
  intro done event rest state next heq hrun _
  exact himp state event next (h done (event :: rest) state heq hrun)

/-- On a concrete run, evaluate the property after each prefix. -/
theorem throughout_of_take {P : σ → Prop} [DecidablePred P] {start : σ} {events : List ε}
    (h : ∀ k ≤ events.length, ((run step start (events.take k)).all fun s => decide (P s)) = true) :
    Throughout step P start events := by
  intro done rest state heq hrun
  have hprefix := h done.length (by rw [heq, List.length_append]; exact Nat.le_add_right _ _)
  rw [heq, List.take_left, hrun] at hprefix
  exact of_decide_eq_true hprefix

/-- On a concrete run, evaluate the relation at each step. -/
theorem eachStep_of_take {C : σ → ε → σ → Prop} [∀ s e t, Decidable (C s e t)] {start : σ}
    {events : List ε} (h : ∀ k < events.length, ((run step start (events.take k)).all fun s =>
      events[k]?.all fun e => (step s e).all fun t => decide (C s e t)) = true) :
    EachStep step C start events := by
  intro done event rest state next heq hrun hstep
  have hstepHere := h done.length (by rw [heq, List.length_append]; simp)
  rw [heq, List.take_left, hrun, Option.all_some, List.getElem?_append_right (Nat.le_refl _),
    Nat.sub_self, List.getElem?_cons_zero, Option.all_some, hstep, Option.all_some] at hstepHere
  exact of_decide_eq_true hstepHere

theorem Throughout.mono {P Q : σ → Prop} {start : σ} {events : List ε}
    (himp : ∀ state, P state → Q state) (h : Throughout step P start events) :
    Throughout step Q start events :=
  fun done rest state heq hrun => himp state (h done rest state heq hrun)

theorem Throughout.last {P : σ → Prop} {start final : σ} {events : List ε}
    (h : Throughout step P start events) (hrun : run step start events = some final) : P final :=
  h events [] final (List.append_nil events).symm hrun

end StepSystem
