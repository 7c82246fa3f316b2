/-
This file is the library of runs. A component is a step function that may stop
with an error; a run feeds it a list of actions, each of which may have to meet
a guard. The file gives the induction rule for invariants over runs, the
relation that lifts a simulation from states to results, and the rule that
lifts a step simulation to whole runs.
-/

import Mathlib.Data.List.Basic

namespace Gem5.Library

open List

/-! ### Results -/

/-- Two results agree when both are errors and the errors are equal, or both are values and
the values are related. -/
def Agree {Error First Second : Type} (related : First → Second → Prop) :
    Except Error First → Except Error Second → Prop
  | .ok first, .ok second => related first second
  | .error first, .error second => first = second
  | _, _ => False

section Results

variable {Error First Second Result : Type} {related : First → Second → Prop}
  {first : Except Error First} {second : Except Error Second} {next : First → Except Error Second}
  {result : Except Error Result} {allowed : Error → Prop} {holds : Result → Prop}

theorem Agree.cases (agree : Agree related first second) :
    (∃ error, first = .error error ∧ second = .error error) ∨
      ∃ left right, first = .ok left ∧ second = .ok right ∧ related left right := by
  cases first with
  | error firstError =>
    cases second with
    | error => exact .inl ⟨firstError, rfl, congrArg Except.error agree.symm⟩
    | ok => exact agree.elim
  | ok left =>
    cases second with
    | error => exact agree.elim
    | ok right => exact .inr ⟨left, right, rfl, rfl, agree⟩

theorem Agree.bind {FirstResult SecondResult : Type}
    {resultRelated : FirstResult → SecondResult → Prop}
    {firstNext : First → Except Error FirstResult}
    {secondNext : Second → Except Error SecondResult} (agree : Agree related first second)
    (next : ∀ left right, related left right →
      Agree resultRelated (firstNext left) (secondNext right)) :
    Agree resultRelated (first >>= firstNext) (second >>= secondNext) := by
  rcases agree.cases with ⟨_, rfl, rfl⟩ | ⟨left, right, rfl, rfl, relates⟩
  · exact rfl
  · exact next left right relates

theorem Agree.eq {other : Except Error Result} (agree : Agree Eq result other) :
    result = other := by
  rcases agree.cases with ⟨_, rfl, rfl⟩ | ⟨_, _, rfl, rfl, same⟩
  · rfl
  · rw [same]

theorem Agree.mono {weaker : First → Second → Prop} (agree : Agree related first second)
    (weaken : ∀ left right, related left right → weaker left right) :
    Agree weaker first second := by
  rcases agree.cases with ⟨_, rfl, rfl⟩ | ⟨left, right, rfl, rfl, relates⟩
  · exact rfl
  · exact weaken left right relates

theorem Agree.ite {condition : Prop} [Decidable condition] {otherFirst : Except Error First}
    {otherSecond : Except Error Second} (positive : condition → Agree related first second)
    (negative : ¬ condition → Agree related otherFirst otherSecond) :
    Agree related (if condition then first else otherFirst)
      (if condition then second else otherSecond) := by
  split
  · rename_i holds
    exact positive holds
  · rename_i fails
    exact negative fails

section

variable (agree : Agree related first second)
include agree

theorem Agree.and_right {holds : Second → Prop}
    (always : ∀ right, second = .ok right → holds right) :
    Agree (fun left right => related left right ∧ holds right) first second := by
  rcases agree.cases with ⟨_, rfl, rfl⟩ | ⟨_, right, rfl, rfl, relates⟩
  · exact rfl
  · exact ⟨relates, always right rfl⟩

theorem Agree.ok_left {left : First} (value : first = .ok left) :
    ∃ right, second = .ok right ∧ related left right := by
  subst value
  cases second with
  | error => exact agree.elim
  | ok right => exact ⟨right, rfl, agree⟩

theorem Agree.ok_right {right : Second} (value : second = .ok right) :
    ∃ left, first = .ok left ∧ related left right := by
  subst value
  cases first with
  | error => exact agree.elim
  | ok left => exact ⟨left, rfl, agree⟩

theorem Agree.error_left {error : Error} (failed : first = .error error) :
    second = .error error := by
  subst failed
  cases second with
  | error => exact congrArg Except.error agree.symm
  | ok => exact agree.elim

end

theorem ok_bind (value : First) (next : First → Except Error Second) :
    (.ok value >>= next : Except Error Second) = next value := rfl

theorem bind_eq_ok {returned : Second} (value : first >>= next = .ok returned) :
    ∃ middle, first = .ok middle ∧ next middle = .ok returned := by
  cases first with
  | error => cases value
  | ok middle => exact ⟨middle, rfl, value⟩

theorem map_eq_ok {value : First → Second} {returned : Second}
    (mapped : (first >>= fun middle => .ok (value middle)) = .ok returned) :
    ∃ middle, first = .ok middle ∧ value middle = returned := by
  obtain ⟨middle, done, same⟩ := bind_eq_ok mapped
  exact ⟨middle, done, Except.ok.inj same⟩

theorem then_eq_ok {condition : Prop} [Decidable condition] {error : Error} {returned : Result}
    (value : (if condition then result else .error error) = .ok returned) :
    condition ∧ result = .ok returned := by
  split at value
  case isTrue holds => exact ⟨holds, value⟩
  case isFalse => cases value

theorem else_eq_ok {condition : Prop} [Decidable condition] {error : Error} {returned : Result}
    (value : (if condition then .error error else result) = .ok returned) :
    ¬ condition ∧ result = .ok returned := by
  split at value
  case isTrue => cases value
  case isFalse fails => exact ⟨fails, value⟩

theorem exists_of_check {check : Result → Bool} (value : result.toOption.any check = true) :
    ∃ returned, result = .ok returned ∧ check returned = true := by
  cases result with
  | error => cases value
  | ok returned => exact ⟨returned, rfl, value⟩

def raised {Error Result : Type} : Except Error Result → Option Error
  | .error error => some error
  | .ok _ => none

theorem eq_error_of_raised {error : Error} (failed : raised result = some error) :
    result = .error error := by
  cases result with
  | error => exact congrArg Except.error (Option.some.inj failed)
  | ok => cases failed

def Raises {Error Result : Type} (allowed : Error → Prop) (result : Except Error Result) : Prop :=
  ∀ error, result = .error error → allowed error

theorem Raises.ok (value : Result) : Raises allowed (.ok value : Except Error Result) := by
  intro error failed
  cases failed

theorem Raises.error {fault : Error} (holds : allowed fault) :
    Raises allowed (.error fault : Except Error Result) := by
  intro error failed
  cases failed
  exact holds

theorem Raises.bind (raises : Raises allowed first)
    (continued : ∀ middle, first = .ok middle → Raises allowed (next middle)) :
    Raises allowed (first >>= next) := by
  intro error failed
  cases first with
  | error =>
    cases failed
    exact raises error rfl
  | ok middle => exact continued middle rfl error failed

theorem Raises.map {value : First → Second} (raises : Raises allowed first) :
    Raises allowed (first >>= fun middle => .ok (value middle)) :=
  raises.bind fun _ _ => .ok _

theorem Raises.ite {condition : Prop} [Decidable condition] {other : Except Error Result}
    (positive : condition → Raises allowed result) (negative : ¬ condition → Raises allowed other) :
    Raises allowed (if condition then result else other) := by
  split
  · rename_i holds
    exact positive holds
  · rename_i fails
    exact negative fails

/-- The value of a result has a property, or its error is an allowed one. -/
def Ensures {Error Result : Type} (allowed : Error → Prop) (holds : Result → Prop) :
    Except Error Result → Prop
  | .ok value => holds value
  | .error error => allowed error

theorem Ensures.bind {middleHolds : First → Prop} {holds : Second → Prop}
    (ensures : Ensures allowed middleHolds first)
    (continued : ∀ middle, middleHolds middle → Ensures allowed holds (next middle)) :
    Ensures allowed holds (first >>= next) := by
  cases first with
  | error => exact ensures
  | ok middle => exact continued middle ensures

section

variable (ensures : Ensures allowed holds result)
include ensures

theorem Ensures.mono {weaker : Result → Prop} (weaken : ∀ value, holds value → weaker value) :
    Ensures allowed weaker result := by
  cases result with
  | error => exact ensures
  | ok value => exact weaken value ensures

theorem Ensures.of_ok {value : Result} (returned : result = .ok value) : holds value := by
  subst returned
  exact ensures

theorem Ensures.raises : Raises allowed result := by
  intro error failed
  subst failed
  exact ensures

end

end Results

/-! ### Runs -/

section Runs

variable {State Action Error : Type}

/-- A run of the step function through a list of actions, every one of which meets the guard
in the state it is taken in. -/
inductive Run (step : State → Action → Except Error State) (guard : State → Action → Prop) :
    State → List Action → State → Prop where
  | nil (state : State) : Run step guard state [] state
  | cons {state next final : State} {action : Action} {rest : List Action}
      (meets : guard state action) (taken : step state action = .ok next)
      (continued : Run step guard next rest final) : Run step guard state (action :: rest) final

variable {step : State → Action → Except Error State} {guard : State → Action → Prop}

variable {start final : State} {actions : List Action}

theorem Run.invariant (holds : State → Prop)
    (kept : ∀ {state action next}, holds state → guard state action →
      step state action = .ok next → holds next) (run : Run step guard start actions final)
    (initially : holds start) : holds final := by
  induction run with
  | nil => exact initially
  | cons meets taken _ hypothesis => exact hypothesis (kept initially meets taken)

theorem Run.invariant_of_total (holds : State → Prop)
    (kept : ∀ {state action}, holds state → guard state action →
      ∃ next, step state action = .ok next ∧ holds next)
    (run : Run step guard start actions final) (initially : holds start) : holds final := by
  refine run.invariant holds (fun before meets taken => ?_) initially
  obtain ⟨_, reached, after⟩ := kept before meets
  cases reached.symm.trans taken
  exact after

theorem Run.imp {other : State → Action → Prop} (holds : State → Prop)
    (kept : ∀ state action next, holds state → step state action = .ok next → holds next)
    (carries : ∀ state action, holds state → guard state action → other state action)
    (run : Run step guard start actions final) (initially : holds start) :
    Run step other start actions final := by
  induction run with
  | nil state => exact .nil state
  | cons meets taken _ hypothesis =>
    exact .cons (carries _ _ initially meets) taken (hypothesis (kept _ _ _ initially taken))

theorem Run.unique {other : State → Action → Prop} {first second : State}
    (left : Run step guard start actions first) (right : Run step other start actions second) :
    first = second := by
  induction left with
  | nil =>
    cases right
    rfl
  | cons _ taken _ hypothesis =>
    cases right with
    | cons _ again continued =>
      cases taken.symm.trans again
      exact hypothesis continued

/-- The end of the run through a list of actions, if every step meets the guard and returns a
value. -/
def guardedRun (step : State → Action → Except Error State) (guard : State → Action → Prop)
    [∀ state action, Decidable (guard state action)] (start : State) :
    List Action → Option State
  | [] => some start
  | action :: rest =>
    if guard start action then
      match step start action with
      | .ok next => guardedRun step guard next rest
      | .error _ => none
    else none

theorem Run.of_guardedRun [∀ state action, Decidable (guard state action)]
    (value : guardedRun step guard start actions = some final) :
    Run step guard start actions final := by
  induction actions generalizing start with
  | nil =>
    cases value
    exact .nil _
  | cons _ _ hypothesis =>
    rw [guardedRun] at value
    split at value
    · rename_i meets
      split at value
      · rename_i next taken
        exact .cons meets taken (hypothesis value)
      · cases value
    · cases value

theorem Run.exists_and [∀ state action, Decidable (guard state action)] {holds : State → Prop}
    (value : guardedRun step guard start actions = some final)
    (always : Run step guard start actions final → holds final) :
    ∃ state, Run step guard start actions state ∧ holds state :=
  ⟨final, of_guardedRun value, always (of_guardedRun value)⟩

theorem Run.exists_check [∀ state action, Decidable (guard state action)] {check : State → Prop}
    [DecidablePred check] (value : (guardedRun step guard start actions).any check = true) :
    ∃ state, Run step guard start actions state ∧ check state := by
  cases ends : guardedRun step guard start actions with
  | none =>
    rw [ends] at value
    cases value
  | some state =>
    rw [ends] at value
    exact ⟨state, of_guardedRun ends, of_decide_eq_true value⟩

theorem Run.exists_checked [∀ state action, Decidable (guard state action)] (check : State → Prop)
    [DecidablePred check] {holds : State → Prop}
    (value : (guardedRun step guard start actions).any check = true)
    (follows : ∀ state, Run step guard start actions state → check state → holds state) :
    ∃ state, Run step guard start actions state ∧ holds state := by
  obtain ⟨state, run, checked⟩ := exists_check value
  exact ⟨state, run, follows state run checked⟩

theorem foldlM_agree {Other : Type} {otherStep : Other → Action → Except Error Other}
    {related : State → Other → Prop}
    (simulates : ∀ state other, ∀ action ∈ actions, related state other →
      Agree related (step state action) (otherStep other action))
    {state : State} {other : Other} (initially : related state other) :
    Agree related (actions.foldlM step state) (actions.foldlM otherStep other) := by
  induction actions generalizing state other with
  | nil => exact initially
  | cons action _ hypothesis =>
    rw [foldlM_cons, foldlM_cons]
    exact (simulates state other action mem_cons_self initially).bind fun _ _ related =>
      hypothesis (fun state other action member =>
        simulates state other action (mem_cons_of_mem _ member)) related

theorem foldlM_invariant (holds : State → Prop)
    (kept : ∀ state, ∀ action ∈ actions, ∀ next, holds state → step state action = .ok next →
      holds next) (initially : holds start)
    (taken : actions.foldlM step start = .ok final) : holds final := by
  induction actions generalizing start with
  | nil =>
    cases taken
    exact initially
  | cons action _ hypothesis =>
    rw [foldlM_cons] at taken
    obtain ⟨next, first, continued⟩ := bind_eq_ok taken
    exact hypothesis
      (fun state action member => kept state action (mem_cons_of_mem _ member))
      (kept start action mem_cons_self next initially first) continued

theorem foldlM_raises (holds : State → Prop) {allowed : Error → Prop}
    (kept : ∀ state, ∀ action ∈ actions, ∀ next, holds state → step state action = .ok next →
      holds next)
    (raises : ∀ state, ∀ action ∈ actions, holds state → Raises allowed (step state action))
    (initially : holds start) : Raises allowed (actions.foldlM step start) := by
  induction actions generalizing start with
  | nil => exact .ok start
  | cons action _ hypothesis =>
    rw [foldlM_cons]
    refine (raises start action mem_cons_self initially).bind fun next taken => ?_
    exact hypothesis
      (fun state action member => kept state action (mem_cons_of_mem _ member))
      (fun state action member => raises state action (mem_cons_of_mem _ member))
      (kept start action mem_cons_self next initially taken)

end Runs

theorem mapM_ok {Error First Second : Type} {next : First → Except Error Second}
    {values : List First} (each : ∀ value ∈ values, ∃ result, next value = .ok result) :
    ∃ results, values.mapM next = .ok results ∧
      ∀ result, result ∈ results ↔ ∃ value ∈ values, next value = .ok result := by
  induction values with
  | nil => exact ⟨[], rfl, fun result => ⟨nofun, nofun⟩⟩
  | cons value _ hypothesis =>
    obtain ⟨first, taken⟩ := each value mem_cons_self
    obtain ⟨results, continued, members⟩ := hypothesis fun other member =>
      each other (mem_cons_of_mem value member)
    refine ⟨first :: results, ?_, fun result => ?_⟩
    · rw [mapM_cons, taken, ok_bind, continued]
      rfl
    · rw [mem_cons, members, exists_mem_cons_iff, taken]
      exact or_congr_left ⟨fun same => same ▸ rfl, fun same => (Except.ok.inj same).symm⟩

theorem countP_of_mapM {Error First Second : Type} {next : First → Except Error Second}
    {values : List First} {results : List Second} (taken : values.mapM next = .ok results)
    (before : First → Bool) (after : Second → Bool)
    (same : ∀ value result, next value = .ok result → after result = before value) :
    results.countP after = values.countP before := by
  induction values generalizing results with
  | nil =>
    cases taken
    rfl
  | cons value _ hypothesis =>
    rw [mapM_cons] at taken
    obtain ⟨first, made, taken⟩ := bind_eq_ok taken
    obtain ⟨_, continued, rfl⟩ := map_eq_ok taken
    rw [countP_cons, countP_cons, hypothesis continued, same value first made]

end Gem5.Library
