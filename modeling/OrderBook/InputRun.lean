import Mathlib.Logic.Basic

/-!
# Runs of a system driven by inputs

A system takes one input at a time; its step relates a state, an input and a
state that follows.  A run is a list of inputs with a state they lead to.  What
every step keeps holds in every state that a run reaches.
-/

namespace InputRun

variable {State Input : Type*} {step : State → Input → State → Prop} {start : State}

/-- The inputs lead from the start to a state. -/
inductive Run (step : State → Input → State → Prop) (start : State) :
    List Input → State → Prop
  | start : Run step start [] start
  | step {inputs : List Input} {input : Input} {state next : State} :
      Run step start inputs state → step state input next →
        Run step start (inputs ++ [input]) next

/-- What every step keeps on the allowed inputs holds in every state of a run of
such inputs. -/
theorem Run.invariant (allowed : Input → Prop) (holds : State → Prop)
    (initially : holds start)
    (kept : ∀ {state next : State} {input : Input}, allowed input → holds state →
      step state input next → holds next)
    {inputs : List Input} {state : State} (run : Run step start inputs state)
    (inputsAllowed : ∀ input ∈ inputs, allowed input) : holds state := by
  induction run with
  | start => exact initially
  | step run stepped ih =>
      have earlier := ih fun input mem => inputsAllowed input (List.mem_append_left _ mem)
      exact kept (inputsAllowed _ (by simp)) earlier stepped

/-- A step in front of a run. -/
theorem Run.cons {first : Input} {second state : State} {inputs : List Input}
    (stepped : step start first second) (run : Run step second inputs state) :
    Run step start (first :: inputs) state := by
  induction run with
  | start => exact Run.step Run.start stepped
  | step run later ih => exact Run.step ih later

theorem Run.eq_start {state : State} (run : Run step start [] state) : state = start := by
  generalize noInputs : ([] : List Input) = inputs at run
  cases run with
  | start => rfl
  | step run stepped => simp at noInputs

/-- The first step of a run. -/
theorem Run.of_cons {first : Input} {state : State} {inputs : List Input}
    (run : Run step start (first :: inputs) state) :
    ∃ second, step start first second ∧ Run step second inputs state := by
  generalize allEq : first :: inputs = all at run
  induction run generalizing inputs with
  | start => cases allEq
  | @step earlier last before after run stepped ih =>
      cases earlier with
      | nil =>
          cases allEq
          exact ⟨after, run.eq_start ▸ stepped, Run.start⟩
      | cons head others =>
          cases allEq
          obtain ⟨second, firstStep, later⟩ := ih rfl
          exact ⟨second, firstStep, Run.step later stepped⟩

/-- A run over the front of a list has not begun, or has taken the first step. -/
theorem Run.of_front {first : Input} {all earlier later : List Input} {state : State}
    (run : Run step start earlier state) (split : first :: all = earlier ++ later) :
    state = start ∨ ∃ second rest, step start first second ∧ Run step second rest state ∧
      all = rest ++ later := by
  cases earlier with
  | nil => exact .inl run.eq_start
  | cons head rest =>
      obtain ⟨second, stepped, afterwards⟩ := run.of_cons
      obtain ⟨rfl, restEq⟩ := List.cons_eq_cons.mp split
      exact .inr ⟨second, rest, stepped, afterwards, restEq⟩

theorem Run.append {middle state : State} {first second : List Input}
    (run : Run step start first middle) (later : Run step middle second state) :
    Run step start (first ++ second) state := by
  induction later with
  | start => rwa [List.append_nil]
  | step later stepped ih =>
      rw [← List.append_assoc]
      exact Run.step ih stepped

/-- A system without choices has one end for each list of inputs. -/
theorem Run.unique (deterministic : ∀ {state first second : State} {input : Input},
      step state input first → step state input second → first = second)
    {inputs : List Input} {state other : State} (run : Run step start inputs state)
    (otherRun : Run step start inputs other) : state = other := by
  induction inputs generalizing start with
  | nil => rw [run.eq_start, otherRun.eq_start]
  | cons first inputs ih =>
      obtain ⟨second, stepped, later⟩ := run.of_cons
      obtain ⟨otherSecond, otherStepped, otherLater⟩ := otherRun.of_cons
      obtain rfl := deterministic stepped otherStepped
      exact ih later otherLater

/-- A run seen as one of another system over the same states. -/
theorem Run.map {Other : Type*} {other : State → Other → State → Prop} (rename : Input → Other)
    (simulates : ∀ {state next : State} {input : Input}, step state input next →
      other state (rename input) next) {inputs : List Input} {state : State}
    (run : Run step start inputs state) : Run other start (inputs.map rename) state := by
  induction run with
  | start => exact Run.start
  | step run stepped ih =>
      rw [List.map_append]
      exact Run.step ih (simulates stepped)

/-- A run is one of any system that steps alike on the way. -/
theorem Run.of_agreeing {other : State → Input → State → Prop} {inputs : List Input}
    {state : State} (run : Run step start inputs state)
    (alike : ∀ (earlier later : List Input) (input : Input) (state next : State),
      inputs = earlier ++ [input] ++ later → Run step start earlier state →
        Run other start earlier state → step state input next → other state input next) :
    Run other start inputs state := by
  induction run with
  | start => exact Run.start
  | @step earlier input state next run stepped ih =>
      have earlierRun := ih fun before later _ _ _ split =>
        alike before (later ++ [input]) _ _ _ (by rw [split, List.append_assoc])
      exact Run.step earlierRun
        (alike earlier [] _ _ _ (List.append_nil _).symm run earlierRun stepped)

end InputRun
