/-!
Courses of steps that change a state in place. A course that breaks off leaves the state as it is at
that point: what was changed before stays changed.
-/

namespace EnumBlocks

/-- A course of steps on a state, which may use the services of a machine and may break off. -/
abbrev Course (m : Type → Type) (σ ε α : Type) :=
  ExceptT ε (StateT σ m) α

namespace Course

variable {m : Type → Type} [Monad m] {σ ε α β : Type}

def runOn (course : Course m σ ε α) (state : σ) : m (Except ε α × σ) :=
  (ExceptT.run course).run state

def attempt (action : m (Except ε α)) : Course m σ ε α :=
  ExceptT.mk (StateT.lift action)

def act (action : m α) : Course m σ ε α :=
  attempt (.ok <$> action)

def ofResult (result : Except ε α) : Course m σ ε α :=
  attempt (pure result)

variable (state : σ)

@[simp]
theorem runOn_pure (value : α) :
    (pure value : Course m σ ε α).runOn state = pure (.ok value, state) := rfl

@[simp]
theorem runOn_throw (failure : ε) :
    (throw failure : Course m σ ε α).runOn state = pure (.error failure, state) := rfl

theorem runOn_bind (first : Course m σ ε α) (next : α → Course m σ ε β) :
    (first >>= next).runOn state = (do
      match ← first.runOn state with
      | (.ok value, later) => (next value).runOn later
      | (.error failure, later) => pure (.error failure, later)) := by
  change (first.run.run state >>= fun parts => (ExceptT.bindCont next parts.1).run parts.2) = _
  congr 1
  funext ⟨result, later⟩
  cases result <;> rfl

variable [LawfulMonad m]

@[simp]
theorem runOn_get_bind (next : σ → Course m σ ε β) :
    (get >>= next).runOn state = (next state).runOn state := by
  have lifted : (get : Course m σ ε σ) = ExceptT.lift get := rfl
  rw [runOn_bind, runOn, lifted, ExceptT.run_lift, StateT.run_map, StateT.run_get, map_pure,
    pure_bind]

@[simp]
theorem runOn_modify (change : σ → σ) :
    (modify change : Course m σ ε Unit).runOn state = pure (.ok (), change state) := by
  have lifted : (modify change : Course m σ ε Unit) = ExceptT.lift (modify change) := rfl
  rw [runOn, lifted, ExceptT.run_lift, StateT.run_map, StateT.run_modify, map_pure]

@[simp]
theorem runOn_modify_bind (change : σ → σ) (next : Unit → Course m σ ε β) :
    (modify change >>= next).runOn state = (next ()).runOn (change state) := by
  rw [runOn_bind, runOn_modify, pure_bind]

/-- What was changed before a course breaks off stays changed. -/
example : (do modify (· + 1); throw () : Course Id Nat Unit Unit).runOn 0 = (.error (), 1) := rfl

@[simp]
theorem runOn_attempt (action : m (Except ε α)) :
    (attempt action : Course m σ ε α).runOn state = (·, state) <$> action := by
  simp [runOn, attempt]

@[simp]
theorem runOn_attempt_bind (action : m (Except ε α)) (next : α → Course m σ ε β) :
    (attempt action >>= next).runOn state = (do
      match ← action with
      | .ok value => (next value).runOn state
      | .error failure => pure (.error failure, state)) := by
  rw [runOn_bind, runOn_attempt, bind_map_left]
  apply bind_congr
  intro result
  cases result <;> rfl

@[simp]
theorem runOn_act_bind (action : m α) (next : α → Course m σ ε β) :
    (act action >>= next).runOn state = (do (next (← action)).runOn state) := by
  rw [act, runOn_attempt_bind, bind_map_left]

@[simp]
theorem runOn_ofResult (result : Except ε α) :
    (ofResult result : Course m σ ε α).runOn state = pure (result, state) := by
  rw [ofResult, runOn_attempt, map_pure]

@[simp]
theorem runOn_ofResult_bind (result : Except ε α) (next : α → Course m σ ε β) :
    (ofResult result >>= next).runOn state =
      match result with
      | .ok value => (next value).runOn state
      | .error failure => pure (.error failure, state) := by
  rw [ofResult, runOn_attempt_bind, pure_bind]

end Course

end EnumBlocks
