import Mathlib.Order.Basic

/-!
# Runs of a transition system

A system is given by a step function that answers `none` when an action is
not enabled.  A run may be restricted to the actions that its states allow;
an invariant that every allowed step preserves holds at the end of such a run.
A system simulates another one when it answers every step with a run.
-/

namespace Libjaypea

namespace Transitions

variable {State Action : Type*}

/-- The runs whose every action is allowed in the state where it is taken. -/
inductive Run (step : State → Action → Option State) (allowed : State → Action → Prop) :
    State → List Action → State → Prop
  | nil (state : State) : Run step allowed state [] state
  | cons {first next last : State} {action : Action} {actions : List Action}
      (allows : allowed first action) (steps : step first action = some next)
      (rest : Run step allowed next actions last) : Run step allowed first (action :: actions) last

/-- Every action is allowed. -/
def anything (_ : State) (_ : Action) : Prop :=
  True

variable {step : State → Action → Option State} {allowed : State → Action → Prop}

theorem Run.invariant {Holds : State → Prop}
    (preserved : ∀ first action next, Holds first → allowed first action →
      step first action = some next → Holds next)
    {start last : State} {actions : List Action} (run : Run step allowed start actions last)
    (holds : Holds start) : Holds last := by
  induction run with
  | nil state => exact holds
  | cons allows steps _ ih =>
      apply ih
      exact preserved _ _ _ holds allows steps

theorem Run.single {first next : State} {action : Action} (allows : allowed first action)
    (steps : step first action = some next) : Run step allowed first [action] next :=
  .cons allows steps (.nil next)

theorem Run.append {first middle last : State} {earlier later : List Action}
    (start : Run step allowed first earlier middle) (rest : Run step allowed middle later last) :
    Run step allowed first (earlier ++ later) last := by
  induction start with
  | nil state => exact rest
  | cons allows steps _ ih => exact .cons allows steps (ih rest)

/-- The state after the actions, if they can be taken. -/
def exec (step : State → Action → Option State) : State → List Action → Option State
  | state, [] => some state
  | state, action :: actions => (step state action).bind fun next => exec step next actions

/-- Actions that are allowed in every state. -/
theorem run_of_exec_of_allowed {first last : State} {actions : List Action}
    (executes : exec step first actions = some last)
    (allows : ∀ action ∈ actions, ∀ state, allowed state action) :
    Run step allowed first actions last := by
  induction actions generalizing first with
  | nil =>
      cases executes
      exact .nil _
  | cons action actions ih =>
      obtain ⟨next, steps, later⟩ := Option.bind_eq_some_iff.mp executes
      obtain ⟨head, tail⟩ := List.forall_mem_cons.mp allows
      exact .cons (head first) steps (ih later tail)

theorem run_of_exec {first last : State} {actions : List Action}
    (executes : exec step first actions = some last) : Run step anything first actions last :=
  run_of_exec_of_allowed executes fun _ _ _ => trivial

/-- Actions can be taken where an invariant enables each of them. -/
theorem exists_exec {Holds : State → Prop} {actions : List Action}
    (enabled : ∀ state, ∀ action ∈ actions, Holds state →
      ∃ next, step state action = some next ∧ Holds next)
    {first : State} (holds : Holds first) :
    ∃ last, exec step first actions = some last ∧ Holds last := by
  induction actions generalizing first with
  | nil => exact ⟨first, rfl, holds⟩
  | cons action actions ih =>
      obtain ⟨next, steps, holds⟩ := enabled first action List.mem_cons_self holds
      have later : ∀ state, ∀ action ∈ actions, Holds state →
          ∃ next, step state action = some next ∧ Holds next :=
        fun state action member => enabled state action (List.mem_cons_of_mem _ member)
      obtain ⟨last, executes, holds⟩ := ih later holds
      exact ⟨last, Option.bind_eq_some_iff.mpr ⟨next, steps, executes⟩, holds⟩

theorem exists_run_of_exec {View : Type*} {view : State → View} {first : State}
    {actions : List Action} {seen : View}
    (executes : (exec step first actions).map view = some seen) :
    ∃ last, Run step anything first actions last ∧ view last = seen := by
  obtain ⟨last, executes, shows⟩ := Option.map_eq_some_iff.mp executes
  exact ⟨last, run_of_exec executes, shows⟩

/-- Takes only the actions that are allowed. -/
def guarded (step : State → Action → Option State) (allowed : State → Action → Prop)
    [∀ state action, Decidable (allowed state action)] (state : State) (action : Action) :
    Option State :=
  if allowed state action then step state action else none

theorem run_of_exec_guarded [∀ state action, Decidable (allowed state action)]
    {first last : State} {actions : List Action}
    (executes : exec (guarded step allowed) first actions = some last) :
    Run step allowed first actions last := by
  induction actions generalizing first with
  | nil =>
      cases executes
      exact .nil _
  | cons action actions ih =>
      obtain ⟨next, steps, later⟩ := Option.bind_eq_some_iff.mp executes
      rw [guarded, Option.ite_none_right_eq_some] at steps
      exact .cons steps.1 steps.2 (ih later)

theorem exists_run_of_exec_guarded [∀ state action, Decidable (allowed state action)]
    {View : Type*} {view : State → View} {first : State} {actions : List Action} {seen : View}
    (executes : (exec (guarded step allowed) first actions).map view = some seen) :
    ∃ last, Run step allowed first actions last ∧ view last = seen := by
  obtain ⟨last, executes, shows⟩ := Option.map_eq_some_iff.mp executes
  exact ⟨last, run_of_exec_guarded executes, shows⟩

/-- A run is still one where more is allowed. -/
theorem Run.mono {permitted : State → Action → Prop}
    (weaker : ∀ state action, allowed state action → permitted state action)
    {first last : State} {actions : List Action} (run : Run step allowed first actions last) :
    Run step permitted first actions last := by
  induction run with
  | nil state => exact .nil state
  | cons allows steps _ ih => exact .cons (weaker _ _ allows) steps ih

/-- What an invariant makes of the allowed actions. -/
theorem Run.strengthen {Holds : State → Prop} {permitted : State → Action → Prop}
    (preserved : ∀ first action next, Holds first → allowed first action →
      step first action = some next → Holds next)
    (permits : ∀ state action, Holds state → allowed state action → permitted state action)
    {first last : State} {actions : List Action} (run : Run step allowed first actions last)
    (holds : Holds first) : Run step permitted first actions last := by
  induction run with
  | nil state => exact .nil state
  | cons allows steps _ ih =>
      apply Run.cons (permits _ _ holds allows) steps
      exact ih (preserved _ _ _ holds allows steps)

/-- Steps that keep an invariant and are runs of another system make runs of it. -/
theorem Run.simulate {Holds : State → Prop} {Abstract Event : Type*}
    {answer : Abstract → Event → Option Abstract} {answers : Abstract → Event → Prop}
    (view : State → Abstract)
    (preserved : ∀ first action next, Holds first → allowed first action →
      step first action = some next → Holds next)
    (simulated : ∀ first action next, Holds first → allowed first action →
      step first action = some next →
      ∃ events, Run answer answers (view first) events (view next))
    {start last : State} {actions : List Action} (run : Run step allowed start actions last)
    (holds : Holds start) : ∃ events, Run answer answers (view start) events (view last) := by
  induction run with
  | nil state => exact ⟨[], .nil _⟩
  | cons allows steps _ ih =>
      obtain ⟨events, earlier⟩ := simulated _ _ _ holds allows steps
      obtain ⟨others, later⟩ := ih (preserved _ _ _ holds allows steps)
      exact ⟨events ++ others, earlier.append later⟩

section Log

variable {Entry : Type*} {log : State → List Entry}

/-- When every step logs one entry, each entry of a run's log is that of one of
its steps. -/
theorem Run.step_of_logged
    (logs : ∀ first action next, step first action = some next →
      ∃ entry, log next = log first ++ [entry])
    {start last : State} {actions : List Action} (run : Run step allowed start actions last)
    (fresh : log start = []) {earlier later : List Entry} {entry : Entry}
    (logged : log last = earlier ++ entry :: later) :
    ∃ state action next taken, Run step allowed start taken state ∧ allowed state action ∧
      step state action = some next ∧ log state = earlier ∧ log next = earlier ++ [entry] := by
  let Holds (state : State) : Prop :=
    (∃ taken, Run step allowed start taken state) ∧
      ∀ earlier later entry, log state = earlier ++ entry :: later →
        ∃ state action next taken, Run step allowed start taken state ∧ allowed state action ∧
          step state action = some next ∧ log state = earlier ∧ log next = earlier ++ [entry]
  have preserved : ∀ first action next, Holds first → allowed first action →
      step first action = some next → Holds next := by
    rintro first action next ⟨⟨taken, reached⟩, entries⟩ allows steps
    refine ⟨⟨_, reached.append (.single allows steps)⟩, ?_⟩
    intro earlier later entry split
    obtain ⟨added, appended⟩ := logs first action next steps
    rcases List.eq_nil_or_concat later with rfl | ⟨others, final, rfl⟩
    · have same := appended.symm.trans split
      obtain ⟨logEq, entryEq⟩ := List.append_inj' same rfl
      cases entryEq
      exact ⟨first, action, next, taken, reached, allows, steps, logEq, split⟩
    · rw [appended, List.concat_eq_append, ← List.cons_append, ← List.append_assoc] at split
      obtain ⟨logEq, -⟩ := List.append_inj' split rfl
      exact entries earlier others entry logEq
  have holds : Holds last := by
    apply run.invariant preserved
    refine ⟨⟨[], .nil start⟩, fun earlier later entry split => ?_⟩
    rw [fresh] at split
    exact absurd split (by simp)
  exact holds.2 earlier later entry logged

/-- Every logged entry is good exactly when every step of the run is permitted. -/
theorem Run.logged_iff {Good : Entry → Prop} {permitted : State → Action → Prop}
    (judged : ∀ first action next, allowed first action → step first action = some next →
      ∃ entry, log next = log first ++ [entry] ∧ (Good entry ↔ permitted first action))
    {start last : State} {actions : List Action} (run : Run step allowed start actions last) :
    (∀ entry ∈ log last, Good entry) ↔
      (∀ entry ∈ log start, Good entry) ∧ Run step permitted start actions last := by
  induction run with
  | nil state => simp [Run.nil]
  | @cons first next last action actions allows steps rest ih =>
      obtain ⟨added, appended, good⟩ := judged first action next allows steps
      rw [ih, appended]
      simp only [List.mem_append, List.mem_singleton, or_imp, forall_and, forall_eq, good]
      constructor
      · rintro ⟨⟨before, permits⟩, later⟩
        exact ⟨before, .cons permits steps later⟩
      · rintro ⟨before, _ | ⟨permits, taken, later⟩⟩
        cases steps.symm.trans taken
        exact ⟨⟨before, permits⟩, later⟩

/-- What relates every entry to those that were logged before it. -/
theorem Run.log_pairwise {Before : Entry → Entry → Prop}
    (judged : ∀ first action next, allowed first action → step first action = some next →
      ∃ entry, log next = log first ++ [entry] ∧ ∀ earlier ∈ log first, Before earlier entry)
    {start last : State} {actions : List Action} (run : Run step allowed start actions last)
    (ordered : (log start).Pairwise Before) : (log last).Pairwise Before := by
  have preserved : ∀ first action next, (log first).Pairwise Before → allowed first action →
      step first action = some next → (log next).Pairwise Before := by
    intro first action next ordered allows steps
    obtain ⟨added, appended, after⟩ := judged first action next allows steps
    rw [appended, List.pairwise_append]
    refine ⟨ordered, List.pairwise_singleton _ _, ?_⟩
    simpa using after
  exact run.invariant preserved ordered

/-- Actions that are taken one after another in an order that the log respects. -/
theorem run_of_exec_of_pairwise (Within : Action → Prop) (Before : Action → Action → Prop)
    {source : Entry → Action}
    (logs : ∀ first action next, step first action = some next →
      ∃ entry, log next = log first ++ [entry] ∧ source entry = action)
    {first last : State} {actions : List Action} (executes : exec step first actions = some last)
    (within : ∀ action ∈ actions, Within action) (ordered : actions.Pairwise Before)
    (after : ∀ entry ∈ log first, ∀ action ∈ actions, Before (source entry) action) :
    Run step (fun state action => Within action ∧ ∀ entry ∈ log state, Before (source entry) action)
      first actions last := by
  induction actions generalizing first with
  | nil =>
      cases executes
      exact .nil _
  | cons action actions ih =>
      obtain ⟨next, steps, later⟩ := Option.bind_eq_some_iff.mp executes
      obtain ⟨added, appended, same⟩ := logs first action next steps
      obtain ⟨head, tail⟩ := List.pairwise_cons.mp ordered
      refine .cons ⟨within action List.mem_cons_self,
        fun entry member => after entry member action List.mem_cons_self⟩ steps ?_
      apply ih later (fun other member => within other (List.mem_cons_of_mem _ member)) tail
      rw [appended]
      simp only [List.mem_append, List.mem_singleton, or_imp, forall_and, forall_eq, same]
      exact ⟨fun entry member other later => after entry member other
        (List.mem_cons_of_mem _ later), head⟩

end Log

section Measure

variable {Holds : State → Prop} {Measure : Type*} [PartialOrder Measure]
  {measure : State → Measure}

/-- A measure that no step lets fall does not fall over a run. -/
theorem Run.measure_le
    (preserved : ∀ first action next, Holds first → allowed first action →
      step first action = some next → Holds next)
    (rises : ∀ first action next, Holds first → allowed first action →
      step first action = some next → measure first ≤ measure next)
    {start last : State} {actions : List Action} (run : Run step allowed start actions last)
    (holds : Holds start) : measure start ≤ measure last := by
  induction run with
  | nil state => exact le_refl _
  | cons allows steps _ ih =>
      have here := rises _ _ _ holds allows steps
      exact here.trans (ih (preserved _ _ _ holds allows steps))

/-- The measure is the same at both ends exactly when every step keeps it. -/
theorem Run.keeps_measure_iff {permitted : State → Action → Prop}
    (preserved : ∀ first action next, Holds first → step first action = some next → Holds next)
    (rises : ∀ first action next, Holds first → step first action = some next →
      measure first ≤ measure next)
    (kept : ∀ first action next, Holds first → step first action = some next →
      (measure next = measure first ↔ permitted first action))
    {start last : State} {actions : List Action} (run : Run step anything start actions last)
    (holds : Holds start) :
    measure last = measure start ↔ Run step permitted start actions last := by
  induction run with
  | nil state => exact ⟨fun _ => .nil state, fun _ => rfl⟩
  | @cons first next last action actions _ steps rest ih =>
      have holdsNext := preserved _ _ _ holds steps
      have here := rises _ _ _ holds steps
      have later : measure next ≤ measure last :=
        rest.measure_le (fun first action next holds _ => preserved first action next holds)
          (fun first action next holds _ => rises first action next holds) holdsNext
      constructor
      · intro same
        have whole : measure next = measure first := le_antisymm (same ▸ later) here
        apply Run.cons ((kept _ _ _ holds steps).mp whole) steps
        exact (ih holdsNext).mp (same.trans whole.symm)
      · rintro (_ | ⟨allows, taken, run⟩)
        cases steps.symm.trans taken
        exact ((ih holdsNext).mpr run).trans ((kept _ _ _ holds steps).mpr allows)

end Measure

end Transitions

end Libjaypea
