import Ns3Rdma.Lib.StepSystem

/-!
# Two systems that answer alike

A relation between the states of two systems is kept by their runs if every event of the first
system has the same outcome in the second one, perhaps after a translation that leaves it out.
-/

namespace StepSystem

section Outcomes

variable {α β γ δ : Type*} {R : α → β → Prop} {Q : γ → δ → Prop}

theorem rel_map {o : Option α} {f : α → γ} {g : α → δ} (h : ∀ a, o = some a → Q (f a) (g a)) :
    Option.Rel Q (o.map f) (o.map g) := by
  cases o with
  | none => exact .none
  | some a => exact .some (h a rfl)

theorem rel_imp {P : α → β → Prop} {o : Option α} {o' : Option β} (hrel : Option.Rel R o o')
    (h : ∀ a b, o = some a → R a b → P a b) : Option.Rel P o o' := by
  cases hrel with
  | none => exact .none
  | some hab => exact .some (h _ _ rfl hab)

theorem rel_map_of_rel {o : Option α} {o' : Option β} {f : α → γ} {g : β → δ}
    (hrel : Option.Rel R o o') (h : ∀ a b, R a b → Q (f a) (g b)) :
    Option.Rel Q (o.map f) (o'.map g) := by
  cases hrel with
  | none => exact .none
  | some hab => exact .some (h _ _ hab)

theorem rel_bind_of_rel {o : Option α} {o' : Option β} {f : α → Option γ} {g : β → Option δ}
    (hrel : Option.Rel R o o') (h : ∀ a b, R a b → Option.Rel Q (f a) (g b)) :
    Option.Rel Q (o.bind f) (o'.bind g) := by
  cases hrel with
  | none => exact .none
  | some hab => exact h _ _ hab

end Outcomes

variable {σ σ' ε ε' : Type*} {step : σ → ε → Option σ} {step' : σ' → ε' → Option σ'}

/-- Without an event the state stays. -/
def stepOrStay (step' : σ' → ε' → Option σ') (state : σ') : Option ε' → Option σ'
  | some event => step' state event
  | none => some state

theorem run_filterMap_cons (translate : ε → Option ε') (state : σ') (event : ε) (rest : List ε) :
    run step' state ((event :: rest).filterMap translate) =
      (stepOrStay step' state (translate event)).bind fun next =>
        run step' next (rest.filterMap translate) := by
  rw [List.filterMap_cons]
  cases translate event with
  | none => rfl
  | some event' => rfl

/-- The relation may mention the events that are still to come. -/
theorem rel_run {R : List ε → σ → σ' → Prop} {translate : ε → Option ε'}
    (hstep : ∀ event rest state state', R (event :: rest) state state' →
      Option.Rel (R rest) (step state event) (stepOrStay step' state' (translate event)))
    {events : List ε} {state : σ} {state' : σ'} (hR : R events state state') :
    Option.Rel (R []) (run step state events) (run step' state' (events.filterMap translate)) := by
  induction events generalizing state state' with
  | nil => exact .some hR
  | cons event rest ih =>
      rw [run_cons, run_filterMap_cons]
      exact rel_bind_of_rel (hstep event rest state state' hR) fun next next' h => ih h

end StepSystem
