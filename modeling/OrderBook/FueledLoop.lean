import Mathlib.Logic.Basic

/-!
# Loops and calls that may fail to return

A `while` loop is a body run again and again on a state: an iteration either
goes on with a new state, leaves the loop, or stops the whole program.  Running
a loop spends one unit of fuel an iteration, and a call returns a value when
some amount of fuel is enough for it.  The rules below reason about a loop from
one iteration: by an invariant, by another loop that it follows, and by an
invariant that never lets it end.
-/

namespace FueledLoop

universe u

/-- Why a call does not return. -/
inductive Halt where
  | assertFailed
  | outOfFuel
  deriving DecidableEq, Repr

/-- The outcome of one iteration: go on, or leave the loop. -/
inductive Flow (σ : Type*) where
  | next (state : σ)
  | done (state : σ)
  deriving DecidableEq, Repr

/-- An `assert` of the modelled program. -/
def assertThat (condition : Prop) [Decidable condition] : Except Halt Unit :=
  if condition then .ok () else .error .assertFailed

/-- Iterate a loop body with the given fuel. -/
def loop {σ : Type*} (body : σ → Except Halt (Flow σ)) : Nat → σ → Except Halt σ
  | 0, _ => .error .outOfFuel
  | fuel + 1, state =>
      match body state with
      | .error halt => .error halt
      | .ok (.done result) => .ok result
      | .ok (.next following) => loop body fuel following

/-- A call returns a value when some fuel is enough for it. -/
def Returns {α : Type*} (call : Nat → Except Halt α) (value : α) : Prop :=
  ∃ fuel, call fuel = .ok value

/-- More fuel never changes a value that was returned. -/
def FuelMonotone {α : Type*} (call : Nat → Except Halt α) : Prop :=
  ∀ ⦃fuel more : Nat⦄ ⦃value : α⦄, fuel ≤ more → call fuel = .ok value →
    call more = .ok value

@[simp]
theorem assertThat_eq_ok {condition : Prop} [Decidable condition] {value : Unit} :
    assertThat condition = .ok value ↔ condition := by
  by_cases holds : condition <;> simp [assertThat, holds]

theorem assertThat_of {condition : Prop} [Decidable condition]
    (holds : condition) : assertThat condition = .ok () := by
  simp [holds]

/-- A sequence of two calls returns exactly when both do. -/
@[simp]
theorem bind_eq_ok {α β : Type u} {call : Except Halt α}
    {continuation : α → Except Halt β} {value : β} :
    call >>= continuation = .ok value ↔
      ∃ middle, call = .ok middle ∧ continuation middle = .ok value := by
  cases call with
  | error halt => simp [bind, Except.bind]
  | ok middle => simp [bind, Except.bind]

@[simp]
theorem ok_bind {α β : Type u} (value : α) (continuation : α → Except Halt β) :
    (Except.ok value : Except Halt α) >>= continuation = continuation value :=
  rfl

@[simp]
theorem pure_eq_ok {α : Type*} (value : α) :
    (pure value : Except Halt α) = .ok value :=
  rfl

theorem Returns.unique {α : Type*} {call : Nat → Except Halt α}
    (monotone : FuelMonotone call) {first second : α}
    (firstReturns : Returns call first) (secondReturns : Returns call second) :
    first = second := by
  obtain ⟨firstFuel, firstEq⟩ := firstReturns
  obtain ⟨secondFuel, secondEq⟩ := secondReturns
  have firstMore := monotone (Nat.le_max_left firstFuel secondFuel) firstEq
  have secondMore := monotone (Nat.le_max_right firstFuel secondFuel) secondEq
  rw [firstMore] at secondMore
  exact Except.ok.inj secondMore

theorem FuelMonotone.const {α : Type*} (result : Except Halt α) :
    FuelMonotone fun _ => result :=
  fun _ _ _ _ returned => returned

theorem FuelMonotone.bind {α β : Type u} {call : Nat → Except Halt α}
    {continuation : α → Nat → Except Halt β} (first : FuelMonotone call)
    (second : ∀ middle, FuelMonotone (continuation middle)) :
    FuelMonotone fun fuel => call fuel >>= fun middle => continuation middle fuel := by
  intro fuel more value enough returned
  obtain ⟨middle, middleEq, valueEq⟩ := bind_eq_ok.mp returned
  exact bind_eq_ok.mpr ⟨middle, first enough middleEq, second middle enough valueEq⟩

theorem FuelMonotone.ite {α : Type*} {condition : Prop} [Decidable condition]
    {yes no : Nat → Except Halt α} (first : FuelMonotone yes)
    (second : FuelMonotone no) :
    FuelMonotone fun fuel => if condition then yes fuel else no fuel := by
  by_cases holds : condition
  · simpa only [if_pos holds] using first
  · simpa only [if_neg holds] using second

/-- Two calls in a row: fuel enough for each is enough for both. -/
theorem Returns.bind {α β : Type u} {call : Nat → Except Halt α}
    {continuation : α → Nat → Except Halt β} {middle : α} {value : β}
    (first : FuelMonotone call) (second : FuelMonotone (continuation middle))
    (called : Returns call middle) (continued : Returns (continuation middle) value) :
    Returns (fun fuel => call fuel >>= fun result => continuation result fuel) value := by
  obtain ⟨firstFuel, firstEq⟩ := called
  obtain ⟨secondFuel, secondEq⟩ := continued
  refine ⟨max firstFuel secondFuel, bind_eq_ok.mpr ⟨middle, ?_, ?_⟩⟩
  · exact first (Nat.le_max_left _ _) firstEq
  · exact second (Nat.le_max_right _ _) secondEq

theorem Returns.const {α : Type*} {result : Except Halt α} {value : α}
    (returned : result = .ok value) : Returns (fun _ => result) value :=
  ⟨0, returned⟩

/-- A `for` loop that may stop the program: an invariant that speaks of the state
and of the items still to come holds with no item left when the loop ends. -/
theorem foldlM_invariant {σ : Type u} {α : Type*} {step : σ → α → Except Halt σ}
    (invariant : List α → σ → Prop)
    (kept : ∀ item later state following, invariant (item :: later) state →
      step state item = .ok following → invariant later following)
    {items : List α} {start last : σ} (holds : invariant items start)
    (folded : items.foldlM step start = .ok last) : invariant [] last := by
  induction items generalizing start with
  | nil =>
      rw [List.foldlM_nil, pure_eq_ok, Except.ok.injEq] at folded
      exact folded ▸ holds
  | cons item later ih =>
      rw [List.foldlM_cons] at folded
      obtain ⟨following, stepped, rest⟩ := bind_eq_ok.mp folded
      exact ih (kept item later start following holds stepped) rest

section Loop

variable {σ : Type*} {body : σ → Except Halt (Flow σ)}

theorem loop_monotone (state : σ) :
    FuelMonotone fun fuel => loop body fuel state := by
  intro fuel more value enough returned
  induction fuel generalizing more state with
  | zero => simp [loop] at returned
  | succ fuel ih =>
      obtain ⟨extra, rfl⟩ : ∃ extra, more = extra + 1 := ⟨more - 1, by omega⟩
      simp only [loop] at returned ⊢
      split at returned
      · cases returned
      · exact returned
      · exact ih _ (by omega) returned

theorem Returns.of_done {state result : σ} (finished : body state = .ok (.done result)) :
    Returns (fun fuel => loop body fuel state) result :=
  ⟨1, by simp [loop, finished]⟩

theorem Returns.of_next {state following result : σ}
    (continued : body state = .ok (.next following))
    (returns : Returns (fun fuel => loop body fuel following) result) :
    Returns (fun fuel => loop body fuel state) result := by
  obtain ⟨fuel, returned⟩ := returns
  exact ⟨fuel + 1, by simpa [loop, continued] using returned⟩

theorem Returns.after_next {state following result : σ}
    (continued : body state = .ok (.next following))
    (returns : Returns (fun fuel => loop body fuel state) result) :
    Returns (fun fuel => loop body fuel following) result := by
  obtain ⟨fuel, returned⟩ := returns
  cases fuel with
  | zero => cases returned
  | succ fuel =>
      refine ⟨fuel, ?_⟩
      simpa only [loop, continued] using returned

/-- Partial correctness: an invariant of the body holds of the state from
which a returning loop is left. -/
theorem loop_invariant (invariant : σ → Prop)
    (step : ∀ state following, invariant state →
      body state = .ok (.next following) → invariant following)
    {fuel : Nat} {state result : σ} (start : invariant state)
    (returned : loop body fuel state = .ok result) :
    ∃ last, invariant last ∧ body last = .ok (.done result) := by
  induction fuel generalizing state with
  | zero => simp [loop] at returned
  | succ fuel ih =>
      simp only [loop] at returned
      split at returned
      · cases returned
      · next finished =>
          cases returned
          exact ⟨state, start, finished⟩
      · next following continued =>
          exact ih (step state following start continued) returned

/-- Divergence: a body that always goes on from states of an invariant never
lets the loop return. -/
theorem loop_diverges (invariant : σ → Prop)
    (step : ∀ state, invariant state →
      ∃ following, body state = .ok (.next following) ∧ invariant following)
    {state : σ} (start : invariant state) (fuel : Nat) :
    loop body fuel state = .error .outOfFuel := by
  induction fuel generalizing state with
  | zero => rfl
  | succ fuel ih =>
      obtain ⟨following, continued, kept⟩ := step state start
      simpa [loop, continued] using ih kept

end Loop

/-! ### Visited states and settled outcomes

A loop visits its start and every state that an iteration hands on.  An outcome is settled
when it is not the lack of fuel: a call that returns fails no `assert` with any fuel. -/

section Visits

/-- The states at the head of a loop, from its start on. -/
inductive Visits {σ : Type*} (body : σ → Except Halt (Flow σ)) (start : σ) : σ → Prop where
  | start : Visits body start start
  | next {state following : σ} (visited : Visits body start state)
      (continued : body state = .ok (.next following)) : Visits body start following

theorem Visits.invariant {σ : Type*} {body : σ → Except Halt (Flow σ)} {start state : σ}
    (visited : Visits body start state) (invariant : σ → Prop) (holds : invariant start)
    (step : ∀ state following, invariant state →
      body state = .ok (.next following) → invariant following) : invariant state := by
  induction visited with
  | start => exact holds
  | next _ continued ih => exact step _ _ ih continued

/-- More fuel only changes the outcome of a call that ran out of it. -/
def FuelStable {α : Type*} (call : Nat → Except Halt α) : Prop :=
  ∀ ⦃fuel more : Nat⦄, fuel ≤ more → call fuel ≠ .error .outOfFuel → call more = call fuel

theorem FuelStable.const {α : Type*} (result : Except Halt α) : FuelStable fun _ => result :=
  fun _ _ _ _ => rfl

theorem FuelStable.monotone {α : Type*} {call : Nat → Except Halt α} (stable : FuelStable call) :
    FuelMonotone call := by
  intro fuel more value enough returned
  rw [stable enough (by simp [returned]), returned]

theorem FuelStable.bind {α β : Type u} {call : Nat → Except Halt α}
    {continuation : α → Nat → Except Halt β} (first : FuelStable call)
    (second : ∀ middle, FuelStable (continuation middle)) :
    FuelStable fun fuel => call fuel >>= fun middle => continuation middle fuel := by
  intro fuel more enough settled
  have firstSettled : call fuel ≠ .error .outOfFuel := by
    intro ranOut
    apply settled
    simp only [ranOut]
    rfl
  have firstEq := first enough firstSettled
  simp only [firstEq]
  cases returned : call fuel with
  | error halt => rfl
  | ok middle =>
      simp only [returned, ok_bind] at settled ⊢
      exact second middle enough settled

theorem FuelStable.ite {α : Type*} {condition : Prop} [Decidable condition]
    {yes no : Nat → Except Halt α} (first : FuelStable yes) (second : FuelStable no) :
    FuelStable fun fuel => if condition then yes fuel else no fuel := by
  split
  · exact first
  · exact second

theorem loop_stable {σ : Type*} (body : σ → Except Halt (Flow σ)) (state : σ) :
    FuelStable fun fuel => loop body fuel state := by
  intro fuel more enough settled
  induction fuel generalizing more state with
  | zero => exact (settled rfl).elim
  | succ fuel ih =>
      obtain ⟨extra, rfl⟩ : ∃ extra, more = extra + 1 := ⟨more - 1, by omega⟩
      simp only [loop] at settled ⊢
      cases iterated : body state with
      | error halt => rfl
      | ok flow =>
          rw [iterated] at settled
          cases flow with
          | done result => rfl
          | next following => exact ih following (by omega) settled

/-- A call that returns fails no `assert`, however much fuel it is given. -/
theorem Returns.ne_assertFailed {α : Type*} {call : Nat → Except Halt α}
    (stable : FuelStable call) {value : α} (returns : Returns call value) (fuel : Nat) :
    call fuel ≠ .error .assertFailed := by
  intro failed
  obtain ⟨enough, returned⟩ := returns
  have failedMore := stable (Nat.le_max_left fuel enough) (by simp [failed])
  have returnedMore := stable (Nat.le_max_right fuel enough) (by simp [returned])
  rw [failedMore, failed, returned] at returnedMore
  cases returnedMore

end Visits

/-! ### Simulation

A computation simulates another one along a map of states when it halts in the same
way and its results are the images. -/

section Simulation

def Flow.map {σ τ : Type*} (image : σ → τ) : Flow σ → Flow τ
  | .next state => .next (image state)
  | .done state => .done (image state)

theorem simulate_bind {α β γ δ : Type u} {call : Except Halt α} {mirrored : Except Halt β}
    {image : α → β} {after : γ → δ} {continuation : α → Except Halt γ}
    {mirroredContinuation : β → Except Halt δ} (first : mirrored = call.map image)
    (second : ∀ value, mirroredContinuation (image value) = (continuation value).map after) :
    mirrored >>= mirroredContinuation = (call >>= continuation).map after := by
  rw [first]
  cases call with
  | error halt => rfl
  | ok value => exact second value

theorem simulate_assert {condition mirrored : Prop} [Decidable condition] [Decidable mirrored]
    (same : mirrored ↔ condition) :
    assertThat mirrored = (assertThat condition).map id := by
  by_cases holds : condition
  · rw [assertThat_of holds, assertThat_of (same.mpr holds)]
    rfl
  · simp [assertThat, holds, same, Except.map]

theorem simulate_ite {α β : Type*} {condition mirrored : Prop} [Decidable condition]
    [Decidable mirrored] {yes no : Except Halt α} {mirroredYes mirroredNo : Except Halt β}
    {image : α → β} (same : mirrored ↔ condition) (first : mirroredYes = yes.map image)
    (second : mirroredNo = no.map image) :
    (if mirrored then mirroredYes else mirroredNo) = (if condition then yes else no).map image := by
  by_cases holds : condition
  · rw [if_pos holds, if_pos (same.mpr holds), first]
  · rw [if_neg holds, if_neg fun also => holds (same.mp also), second]

theorem simulate_foldlM {σ τ : Type u} {α β : Type*} {step : σ → α → Except Halt σ}
    {mirroredStep : τ → β → Except Halt τ} {image : σ → τ} {rename : α → β}
    (same : ∀ state item,
      mirroredStep (image state) (rename item) = (step state item).map image)
    (items : List α) (state : σ) :
    (items.map rename).foldlM mirroredStep (image state) =
      (items.foldlM step state).map image := by
  induction items generalizing state with
  | nil => rfl
  | cons item items ih =>
      rw [List.map_cons, List.foldlM_cons, List.foldlM_cons]
      exact simulate_bind (same state item) ih

theorem simulate_loop {σ τ : Type*} {body : σ → Except Halt (Flow σ)}
    {mirroredBody : τ → Except Halt (Flow τ)} {image : σ → τ}
    (same : ∀ state, mirroredBody (image state) = (body state).map (Flow.map image))
    (fuel : Nat) (state : σ) :
    loop mirroredBody fuel (image state) = (loop body fuel state).map image := by
  induction fuel generalizing state with
  | zero => rfl
  | succ fuel ih =>
      rw [loop, loop, same]
      cases body state with
      | error halt => rfl
      | ok flow =>
          cases flow with
          | next following => exact ih following
          | done result => rfl

/-- One call follows another along a map of results: it returns the images of what the other
returns and nothing else.  How the two halt need not be the same. -/
def Follows {α β : Type*} (image : α → β) (call : Except Halt α) (mirrored : Except Halt β) :
    Prop :=
  ∀ value, mirrored = .ok value ↔ ∃ result, call = .ok result ∧ image result = value

theorem Follows.of_eq {α β : Type*} {image : α → β} {call : Except Halt α}
    {mirrored : Except Halt β} (same : mirrored = call.map image) :
    Follows image call mirrored := by
  intro value
  rw [same]
  cases call with
  | error halt => simp [Except.map]
  | ok result => simp [Except.map]

/-- A call that follows another returns if and only if the other does, with the image. -/
theorem returns_of_follows {α β : Type*} {call : Nat → Except Halt α}
    {mirrored : Nat → Except Halt β} {image : α → β}
    (follows : ∀ fuel, Follows image (call fuel) (mirrored fuel)) :
    ((∃ result, Returns mirrored result) ↔ ∃ result, Returns call result) ∧
      ∀ result, Returns call result → Returns mirrored (image result) := by
  have forward : ∀ result, Returns call result → Returns mirrored (image result) := by
    rintro result ⟨fuel, returned⟩
    exact ⟨fuel, (follows fuel _).mpr ⟨result, returned, rfl⟩⟩
  refine ⟨⟨?_, fun ⟨result, returns⟩ => ⟨_, forward result returns⟩⟩, forward⟩
  rintro ⟨value, fuel, returned⟩
  obtain ⟨result, original, -⟩ := (follows fuel value).mp returned
  exact ⟨result, fuel, original⟩

end Simulation

/-! ### Agreement

Two computations on the same states agree when they do the same, and a postcondition of
their common results carries the facts that make the next ones agree. -/

section Agreement

/-- The state that an iteration hands on. -/
def Flow.state {σ : Type*} : Flow σ → σ
  | .next state => state
  | .done state => state

structure Agrees {α : Type*} (first second : Except Halt α) (post : α → Prop) : Prop where
  eq : first = second
  holds : ∀ {value : α}, second = .ok value → post value

theorem Agrees.ok {α : Type*} {post : α → Prop} {value : α} (holds : post value) :
    Agrees (.ok value) (.ok value) post where
  eq := rfl
  holds returned := by
    cases returned
    exact holds

theorem Agrees.mono {α : Type*} {first second : Except Halt α} {post weaker : α → Prop}
    (agrees : Agrees first second post) (weaken : ∀ value, post value → weaker value) :
    Agrees first second weaker where
  eq := agrees.eq
  holds returned := weaken _ (agrees.holds returned)

theorem Agrees.bind {α β : Type u} {first second : Except Halt α} {post : α → Prop}
    {firstNext secondNext : α → Except Halt β} {nextPost : β → Prop}
    (agrees : Agrees first second post)
    (next : ∀ value, second = .ok value → post value →
      Agrees (firstNext value) (secondNext value) nextPost) :
    Agrees (first >>= firstNext) (second >>= secondNext) nextPost := by
  rw [agrees.eq]
  cases returned : second with
  | error halt => exact ⟨rfl, fun impossible => nomatch impossible⟩
  | ok value => exact next value returned (agrees.holds returned)

/-- One computation runs a call for which the other has the value already. -/
theorem Agrees.bind_ok {α β : Type u} {call : Except Halt α} {value : α} {post : α → Prop}
    {next : α → Except Halt β} {second : Except Halt β} {nextPost : β → Prop}
    (agrees : Agrees call (.ok value) post)
    (continued : post value → Agrees (next value) second nextPost) :
    Agrees (call >>= next) second nextPost := by
  rw [agrees.eq]
  exact continued (agrees.holds rfl)

theorem Agrees.assert {condition : Prop} [Decidable condition] :
    Agrees (assertThat condition) (assertThat condition) fun _ => condition where
  eq := rfl
  holds returned := assertThat_eq_ok.mp returned

theorem Agrees.ite {α : Type*} {condition : Prop} [Decidable condition]
    {firstYes secondYes firstNo secondNo : Except Halt α} {post : α → Prop}
    (yes : condition → Agrees firstYes secondYes post)
    (no : ¬ condition → Agrees firstNo secondNo post) :
    Agrees (if condition then firstYes else firstNo)
      (if condition then secondYes else secondNo) post := by
  by_cases holds : condition
  · rw [if_pos holds, if_pos holds]
    exact yes holds
  · rw [if_neg holds, if_neg holds]
    exact no holds

theorem Agrees.foldlM {σ : Type u} {α : Type*} {firstStep secondStep : σ → α → Except Halt σ}
    (invariant : List α → σ → Prop)
    (agrees : ∀ item later state, invariant (item :: later) state →
      Agrees (firstStep state item) (secondStep state item) (invariant later))
    {items : List α} {start : σ} (holds : invariant items start) :
    Agrees (items.foldlM firstStep start) (items.foldlM secondStep start) (invariant []) := by
  induction items generalizing start with
  | nil => exact .ok holds
  | cons item later ih =>
      rw [List.foldlM_cons, List.foldlM_cons]
      exact (agrees item later start holds).bind fun _ _ following => ih following

/-- A pass over a list that never stops the program. -/
theorem Agrees.foldl {σ : Type u} {α : Type*} {call : σ → α → Except Halt σ} {step : σ → α → σ}
    (invariant : List α → σ → Prop)
    (agrees : ∀ item later state, invariant (item :: later) state →
      Agrees (call state item) (.ok (step state item)) (invariant later))
    {items : List α} {start : σ} (holds : invariant items start) :
    Agrees (items.foldlM call start) (.ok (items.foldl step start)) (invariant []) := by
  induction items generalizing start with
  | nil => exact .ok holds
  | cons item later ih =>
      rw [List.foldlM_cons, List.foldl_cons]
      exact (agrees item later start holds).bind_ok fun following => ih following

theorem Agrees.loop {σ : Type*} {firstBody secondBody : σ → Except Halt (Flow σ)}
    (invariant : σ → Prop)
    (agrees : ∀ state, invariant state →
      Agrees (firstBody state) (secondBody state) fun flow => invariant flow.state)
    (fuel : Nat) {start : σ} (holds : invariant start) :
    Agrees (loop firstBody fuel start) (loop secondBody fuel start) invariant := by
  induction fuel generalizing start with
  | zero => exact ⟨rfl, fun impossible => nomatch impossible⟩
  | succ fuel ih =>
      have body := agrees start holds
      rw [FueledLoop.loop, FueledLoop.loop, body.eq]
      cases returned : secondBody start with
      | error halt => exact ⟨rfl, fun impossible => nomatch impossible⟩
      | ok flow =>
          have kept := body.holds returned
          cases flow with
          | next following => exact ih kept
          | done result => exact .ok kept

/-- A call for every item of a list, none of which stops the program. -/
theorem mapM_eq_map {α : Type*} {β : Type u} {call : α → Except Halt β} {value : α → β}
    {items : List α} (returns : ∀ item ∈ items, call item = .ok (value item)) :
    items.mapM call = .ok (items.map value) := by
  induction items with
  | nil => rfl
  | cons item items ih =>
      rw [List.mapM_cons, returns item List.mem_cons_self, ok_bind,
        ih fun other mem => returns other (List.mem_cons_of_mem item mem), ok_bind]
      rfl

end Agreement

end FueledLoop
