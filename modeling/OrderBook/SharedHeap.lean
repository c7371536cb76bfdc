import Mathlib.Data.List.Nodup
import OrderBook.FueledLoop

/-!
# Programs over shared objects

A program allocates objects, reads and writes them through pointers, and links
pointers into lists whose nodes are reached through iterators.  An object stays
under its pointer as long as the program runs, which is what a shared pointer
promises of every pointer that is held; an iterator is only good while its node
is in the list.  A use of memory that is not covered by this is a fault.

A program simulates a computation on values when it halts as the computation
does, never by a fault, and its results are related to the values.
-/

namespace SharedHeap

open FueledLoop

/-- Why a program over the heap stops: as a call does, or by a bad use of memory. -/
inductive Fault where
  | halt (halt : Halt)
  | danglingPointer
  | danglingIterator
  deriving DecidableEq, Repr

abbrev Pointer := Nat

abbrev Iterator := Nat

/-- The objects under their pointers, and the number of list nodes ever made. -/
structure Heap (Object : Type) where
  objects : List Object
  nodesMade : Nat
  deriving DecidableEq, Repr

/-- A node of a list of pointers. -/
structure Node where
  iter : Iterator
  pointer : Pointer
  deriving DecidableEq, Repr

abbrev Program (Object : Type) := StateT (Heap Object) (Except Fault)

section Operations

variable {Object α : Type}

def Heap.empty : Heap Object := ⟨[], 0⟩

def Heap.write (heap : Heap Object) (pointer : Pointer) (object : Object) : Heap Object :=
  { heap with objects := heap.objects.set pointer object }

def makeShared (object : Object) : Program Object Pointer := fun heap =>
  .ok (heap.objects.length, { heap with objects := heap.objects ++ [object] })

def load (pointer : Pointer) : Program Object Object := fun heap =>
  match heap.objects[pointer]? with
  | some object => .ok (object, heap)
  | none => .error .danglingPointer

def store (pointer : Pointer) (object : Object) : Program Object Unit := fun heap =>
  if pointer < heap.objects.length then .ok ((), heap.write pointer object)
  else .error .danglingPointer

/-- Append a pointer to a list; the iterator of its node is one not seen before. -/
def pushBack (nodes : List Node) (pointer : Pointer) :
    Program Object (List Node × Iterator) := fun heap =>
  .ok ((nodes ++ [⟨heap.nodesMade, pointer⟩], heap.nodesMade),
    { heap with nodesMade := heap.nodesMade + 1 })

/-- Erase the node of an iterator, which must be in the list. -/
def eraseNode (nodes : List Node) (iter : Iterator) : Program Object (List Node) := fun heap =>
  if iter ∈ nodes.map Node.iter then .ok (nodes.eraseP fun node => node.iter = iter, heap)
  else .error .danglingIterator

/-- A computation that leaves the heap alone. -/
def liftCall (call : Except Halt α) : Program Object α := fun heap =>
  match call with
  | .ok value => .ok (value, heap)
  | .error halt => .error (.halt halt)

/-- Iterate a loop body with the given fuel. -/
def loopProgram {σ : Type} (body : σ → Program Object (Flow σ)) : Nat → σ → Program Object σ
  | 0, _ => fun _ => .error (.halt .outOfFuel)
  | fuel + 1, state => do
      match ← body state with
      | .done result => return result
      | .next following => loopProgram body fuel following

end Operations

section Running

variable {Object α β : Type} {heap : Heap Object}

theorem pure_run (value : α) (heap : Heap Object) :
    (pure value : Program Object α) heap = .ok (value, heap) :=
  rfl

theorem bind_run (call : Program Object α) (next : α → Program Object β) (heap : Heap Object) :
    (call >>= next) heap = call heap >>= fun result => next result.1 result.2 :=
  rfl

/-- A call that returns hands its result and its heap on. -/
theorem bind_of_run {call : Program Object α} {result : α} {later : Heap Object}
    (returned : call heap = .ok (result, later)) (next : α → Program Object β) :
    (call >>= next) heap = next result later := by
  rw [bind_run, returned]
  rfl

theorem toOption_eq_some {outcome : Except Fault α} {value : α} :
    outcome.toOption = some value ↔ outcome = .ok value := by
  cases outcome with
  | error fault => simp [Except.toOption]
  | ok result => simp [Except.toOption]

theorem load_run {pointer : Pointer} {object : Object}
    (found : heap.objects[pointer]? = some object) : load pointer heap = .ok (object, heap) := by
  simp only [load, found]

theorem load_bind {pointer : Pointer} {object : Object}
    (found : heap.objects[pointer]? = some object) (next : Object → Program Object α) :
    (load pointer >>= next) heap = next object heap :=
  bind_of_run (load_run found) next

theorem store_bind {pointer : Pointer} {old : Object}
    (found : heap.objects[pointer]? = some old) (object : Object)
    (next : Unit → Program Object α) :
    (store pointer object >>= next) heap = next () (heap.write pointer object) := by
  obtain ⟨inside, -⟩ := List.getElem?_eq_some_iff.mp found
  exact bind_of_run (by rw [store, if_pos inside]) next

theorem makeShared_bind (object : Object) (next : Pointer → Program Object α) :
    (makeShared object >>= next) heap =
      next heap.objects.length { heap with objects := heap.objects ++ [object] } :=
  rfl

theorem object?_write {pointer : Pointer} {old : Object}
    (found : heap.objects[pointer]? = some old) (object : Object) (other : Pointer) :
    (heap.write pointer object).objects[other]? =
      if other = pointer then some object else heap.objects[other]? := by
  obtain ⟨inside, -⟩ := List.getElem?_eq_some_iff.mp found
  rw [Heap.write, List.getElem?_set]
  by_cases same : other = pointer
  · subst same
    simp [inside]
  · simp [same, Ne.symm same]

end Running

/-! ### What a list points at -/

section Holds

variable {Object : Type} {heap later : Heap Object} {nodes : List Node} {objects : List Object}

/-- The nodes of a list point at the given objects. -/
def Heap.Holds (heap : Heap Object) (nodes : List Node) (objects : List Object) : Prop :=
  nodes.map (fun node => heap.objects[node.pointer]?) = objects.map some

namespace Heap.Holds

theorem nil : heap.Holds [] [] := rfl

theorem cons_iff {node : Node} {object : Object} :
    heap.Holds (node :: nodes) (object :: objects) ↔
      heap.objects[node.pointer]? = some object ∧ heap.Holds nodes objects := by
  rw [Holds, List.map_cons, List.map_cons, List.cons_eq_cons]
  rfl

theorem append {otherNodes : List Node} {others : List Object} (holds : heap.Holds nodes objects)
    (otherHolds : heap.Holds otherNodes others) :
    heap.Holds (nodes ++ otherNodes) (objects ++ others) := by
  rw [Holds, List.map_append, List.map_append]
  exact congrArg₂ _ holds otherHolds

theorem length_eq (holds : heap.Holds nodes objects) : nodes.length = objects.length := by
  simpa using congrArg List.length holds

theorem of_mem (holds : heap.Holds nodes objects) {node : Node} (mem : node ∈ nodes) :
    ∃ object ∈ objects, heap.objects[node.pointer]? = some object := by
  have image : heap.objects[node.pointer]? ∈ objects.map some :=
    holds ▸ List.mem_map_of_mem mem
  obtain ⟨object, objectMem, found⟩ := List.mem_map.mp image
  exact ⟨object, objectMem, found.symm⟩

theorem of_mem_right (holds : heap.Holds nodes objects) {object : Object}
    (mem : object ∈ objects) : ∃ node ∈ nodes, heap.objects[node.pointer]? = some object := by
  have image : some object ∈ nodes.map fun node => heap.objects[node.pointer]? :=
    holds.symm ▸ List.mem_map_of_mem mem
  exact List.mem_map.mp image

/-- Splitting a list at a node splits its objects. -/
theorem of_append_cons {front back : List Node} {node : Node}
    (holds : heap.Holds (front ++ node :: back) objects) :
    ∃ frontObjects object backObjects, objects = frontObjects ++ object :: backObjects ∧
      heap.Holds front frontObjects ∧ heap.objects[node.pointer]? = some object ∧
        heap.Holds back backObjects := by
  rw [Holds, List.map_append] at holds
  obtain ⟨frontObjects, rest, rfl, frontHolds, restHolds⟩ := List.map_eq_append_iff.mp holds.symm
  obtain ⟨object, backObjects, rfl, objectEq, backHolds⟩ := List.map_eq_cons_iff.mp restHolds
  exact ⟨frontObjects, object, backObjects, rfl, frontHolds.symm, objectEq.symm,
    backHolds.symm⟩

theorem congr (holds : heap.Holds nodes objects)
    (same : ∀ node ∈ nodes, later.objects[node.pointer]? = heap.objects[node.pointer]?) :
    later.Holds nodes objects :=
  (List.map_congr_left same).trans holds

theorem map {update : Object → Object} (holds : heap.Holds nodes objects)
    (updated : ∀ node ∈ nodes, later.objects[node.pointer]? =
      heap.objects[node.pointer]?.map update) : later.Holds nodes (objects.map update) := by
  have mapped := congrArg (List.map (Option.map update)) holds
  rw [List.map_map, List.map_map] at mapped
  rw [Holds, List.map_map]
  exact (List.map_congr_left updated).trans mapped

/-- Nodes whose objects differ in a key are told apart by it. -/
theorem node_unique {Key : Type} {key : Object → Key} (holds : heap.Holds nodes objects)
    (nodup : (objects.map key).Nodup) {first second : Node} (firstMem : first ∈ nodes)
    (secondMem : second ∈ nodes) {firstObject secondObject : Object}
    (firstFound : heap.objects[first.pointer]? = some firstObject)
    (secondFound : heap.objects[second.pointer]? = some secondObject)
    (sameKey : key firstObject = key secondObject) : first = second := by
  have keysEq : nodes.map (fun node => heap.objects[node.pointer]?.map key) =
      (objects.map key).map some := by
    have mapped := congrArg (List.map (Option.map key)) holds
    simpa only [List.map_map, Function.comp_def, Option.map_some] using mapped
  have keysNodup : (nodes.map fun node => heap.objects[node.pointer]?.map key).Nodup :=
    keysEq ▸ nodup.map fun _ _ => Option.some.inj
  apply List.inj_on_of_nodup_map keysNodup firstMem secondMem
  rw [firstFound, secondFound, Option.map_some, Option.map_some, sameKey]

/-- Reading every object of a list leaves the heap alone. -/
theorem mapM_load (holds : heap.Holds nodes objects) :
    (nodes.mapM (m := Program Object) fun node => load node.pointer) heap =
      .ok (objects, heap) := by
  induction nodes generalizing objects with
  | nil =>
      cases objects with
      | nil => rfl
      | cons object objects => cases holds
  | cons node nodes ih =>
      cases objects with
      | nil => cases holds
      | cons object objects =>
          obtain ⟨found, others⟩ := cons_iff.mp holds
          rw [List.mapM_cons, load_bind found, bind_of_run (ih others), pure_run]

end Heap.Holds

end Holds

/-! ### What a program may write -/

section Evolves

variable {Object : Type} {changes : Object → Object → Prop} {writable : Pointer → Prop}
  {heap middle later : Heap Object}

/-- Every object is still there, and only writable ones have changed, along `changes`. -/
def Heap.Evolves (changes : Object → Object → Prop) (writable : Pointer → Prop)
    (heap later : Heap Object) : Prop :=
  ∀ ⦃pointer : Pointer⦄ ⦃object : Object⦄, heap.objects[pointer]? = some object →
    ∃ now, later.objects[pointer]? = some now ∧
      (now = object ∨ writable pointer ∧ changes object now)

namespace Heap.Evolves

theorem of_objects_eq (same : later.objects = heap.objects) :
    heap.Evolves changes writable later := by
  intro pointer object found
  exact ⟨object, same ▸ found, .inl rfl⟩

theorem alloc (object : Object) :
    heap.Evolves changes writable { heap with objects := heap.objects ++ [object] } := by
  intro pointer old found
  obtain ⟨inside, -⟩ := List.getElem?_eq_some_iff.mp found
  refine ⟨old, ?_, .inl rfl⟩
  simpa only [List.getElem?_append_left inside] using found

theorem write {pointer : Pointer} {old object : Object}
    (found : heap.objects[pointer]? = some old) (allowed : writable pointer)
    (changed : changes old object) :
    heap.Evolves changes writable (heap.write pointer object) := by
  intro other kept otherFound
  rw [object?_write found]
  by_cases same : other = pointer
  · subst same
    rw [found, Option.some.injEq] at otherFound
    subst otherFound
    exact ⟨object, if_pos rfl, .inr ⟨allowed, changed⟩⟩
  · exact ⟨kept, by rw [if_neg same, otherFound], .inl rfl⟩

theorem trans {nextWritable : Pointer → Prop} (first : heap.Evolves changes writable middle)
    (transitive : ∀ {first second third : Object}, changes first second → changes second third →
      changes first third)
    (second : middle.Evolves changes nextWritable later)
    (within : ∀ pointer < heap.objects.length, nextWritable pointer → writable pointer) :
    heap.Evolves changes writable later := by
  intro pointer object found
  obtain ⟨inside, -⟩ := List.getElem?_eq_some_iff.mp found
  obtain ⟨now, nowFound, nowChange⟩ := first found
  obtain ⟨last, lastFound, lastChange⟩ := second nowFound
  refine ⟨last, lastFound, ?_⟩
  rcases lastChange with rfl | ⟨allowed, changed⟩
  · exact nowChange
  · rcases nowChange with rfl | ⟨allowedBefore, changedBefore⟩
    · exact .inr ⟨within pointer inside allowed, changed⟩
    · exact .inr ⟨allowedBefore, transitive changedBefore changed⟩

theorem unchanged (evolves : heap.Evolves changes writable later) {pointer : Pointer}
    {object : Object} (found : heap.objects[pointer]? = some object)
    (kept : ¬ writable pointer) : later.objects[pointer]? = some object := by
  obtain ⟨now, nowFound, rfl | ⟨allowed, -⟩⟩ := evolves found
  · exact nowFound
  · exact (kept allowed).elim

theorem length_le (evolves : heap.Evolves changes writable later) :
    heap.objects.length ≤ later.objects.length := by
  apply Nat.le_of_not_lt
  intro shorter
  obtain ⟨now, nowFound, -⟩ := evolves (List.getElem?_eq_getElem shorter)
  obtain ⟨within, -⟩ := List.getElem?_eq_some_iff.mp nowFound
  exact Nat.lt_irrefl _ within

end Heap.Evolves

end Evolves

/-! ### Simulation of a computation on values -/

section Simulation

variable {Object α β γ δ : Type}

/-- The outcome of a program against the outcome of a computation on values. -/
def Simulates (post : α → Heap Object → β → Prop) (outcome : Except Fault (α × Heap Object)) :
    Except Halt β → Prop
  | .ok value => ∃ result heap, outcome = .ok (result, heap) ∧ post result heap value
  | .error halt => outcome = .error (.halt halt)

variable {post : α → Heap Object → β → Prop} {nextPost : γ → Heap Object → δ → Prop}
  {heap : Heap Object}

theorem Simulates.ok {result : α} {value : β} (related : post result heap value) :
    Simulates post (.ok (result, heap)) (.ok value) :=
  ⟨result, heap, rfl, related⟩

/-- A program that returns simulates a computation that does. -/
theorem Simulates.of_ok {result : α} {value : Except Halt β}
    (simulates : Simulates post (.ok (result, heap)) value) :
    ∃ returned, value = .ok returned ∧ post result heap returned := by
  cases value with
  | error halt => cases simulates
  | ok returned =>
      obtain ⟨_, _, same, related⟩ := simulates
      cases same
      exact ⟨returned, rfl, related⟩

theorem Simulates.mono {weaker : α → Heap Object → β → Prop}
    {outcome : Except Fault (α × Heap Object)} {value : Except Halt β}
    (simulates : Simulates post outcome value)
    (weaken : ∀ result heap value, post result heap value → weaker result heap value) :
    Simulates weaker outcome value := by
  cases value with
  | error halt => exact simulates
  | ok value =>
      obtain ⟨result, last, returned, related⟩ := simulates
      exact ⟨result, last, returned, weaken _ _ _ related⟩

theorem Simulates.bind {call : Program Object α} {value : Except Halt β}
    {next : α → Program Object γ} {valueNext : β → Except Halt δ}
    (first : Simulates post (call heap) value)
    (second : ∀ result later middle, post result later middle →
      Simulates nextPost (next result later) (valueNext middle)) :
    Simulates nextPost ((call >>= next) heap) (value >>= valueNext) := by
  rw [bind_run]
  cases value with
  | error halt =>
      have stopped : call heap = .error (.halt halt) := first
      rw [stopped]
      rfl
  | ok middle =>
      obtain ⟨result, later, returned, related⟩ := first
      rw [returned]
      exact second result later middle related

/-- The computation has the value of a step that the program takes. -/
theorem Simulates.bind_ok {call : Program Object α} {value : β} {next : α → Program Object γ}
    {after : Except Halt δ} (first : Simulates post (call heap) (.ok value))
    (second : ∀ result later, post result later value →
      Simulates nextPost (next result later) after) :
    Simulates nextPost ((call >>= next) heap) after := by
  obtain ⟨result, later, returned, related⟩ := first
  rw [bind_run, returned]
  exact second result later related

/-- A passed `assert` is known to hold afterwards. -/
theorem Simulates.assert_bind {condition : Prop} [Decidable condition]
    {next : Unit → Program Object γ} {valueNext : Unit → Except Halt δ}
    (passed : condition → Simulates nextPost (next () heap) (valueNext ())) :
    Simulates nextPost ((liftCall (assertThat condition) >>= next) heap)
      (assertThat condition >>= valueNext) := by
  by_cases holds : condition
  · rw [assertThat_of holds]
    exact passed holds
  · rw [assertThat, if_neg holds]
    rfl

theorem Simulates.ite {condition : Prop} [Decidable condition] {yes no : Program Object α}
    {valueYes valueNo : Except Halt β}
    (first : condition → Simulates post (yes heap) valueYes)
    (second : ¬ condition → Simulates post (no heap) valueNo) :
    Simulates post ((if condition then yes else no) heap)
      (if condition then valueYes else valueNo) := by
  by_cases holds : condition
  · rw [if_pos holds, if_pos holds]
    exact first holds
  · rw [if_neg holds, if_neg holds]
    exact second holds

theorem Simulates.foldlM {σ τ ι κ : Type} {step : σ → ι → Program Object σ}
    {valueStep : τ → κ → Except Halt τ}
    (invariant : List ι → List κ → σ → Heap Object → τ → Prop)
    (kept : ∀ item later valueItem valueLater state heap value,
      invariant (item :: later) (valueItem :: valueLater) state heap value →
        Simulates (invariant later valueLater) (step state item heap) (valueStep value valueItem))
    {items : List ι} {valueItems : List κ} (sameLength : items.length = valueItems.length)
    {state : σ} {value : τ} (holds : invariant items valueItems state heap value) :
    Simulates (invariant [] []) (items.foldlM step state heap)
      (valueItems.foldlM valueStep value) := by
  induction items generalizing valueItems state heap value with
  | nil =>
      cases valueItems with
      | nil => exact .ok holds
      | cons valueItem valueLater => cases sameLength
  | cons item later ih =>
      cases valueItems with
      | nil => cases sameLength
      | cons valueItem valueLater =>
          rw [List.foldlM_cons, List.foldlM_cons]
          apply (kept item later valueItem valueLater state heap value holds).bind
          intro result last middle related
          exact ih (Nat.succ.inj sameLength) related

/-- A pass over a list that on values never stops. -/
theorem Simulates.foldl {σ τ ι : Type} {step : σ → ι → Program Object σ} {valueStep : τ → ι → τ}
    (invariant : σ → Heap Object → τ → Prop)
    (kept : ∀ item state heap value, invariant state heap value →
      Simulates invariant (step state item heap) (.ok (valueStep value item)))
    {items : List ι} {state : σ} {value : τ} (holds : invariant state heap value) :
    Simulates invariant (items.foldlM step state heap) (.ok (items.foldl valueStep value)) := by
  induction items generalizing state heap value with
  | nil => exact .ok holds
  | cons item later ih =>
      rw [List.foldlM_cons, List.foldl_cons]
      apply (kept item state heap value holds).bind_ok
      intro result last related
      exact ih related

/-- Both bodies go on, or both leave the loop. -/
def FlowRelated {σ τ : Type} (invariant : σ → Heap Object → τ → Prop) :
    Flow σ → Heap Object → Flow τ → Prop
  | .next state, heap, .next value => invariant state heap value
  | .done state, heap, .done value => invariant state heap value
  | _, _, _ => False

theorem Simulates.loop {σ τ : Type} {body : σ → Program Object (Flow σ)}
    {valueBody : τ → Except Halt (Flow τ)} (invariant : σ → Heap Object → τ → Prop)
    (kept : ∀ state heap value, invariant state heap value →
      Simulates (FlowRelated invariant) (body state heap) (valueBody value))
    (fuel : Nat) {state : σ} {value : τ} (holds : invariant state heap value) :
    Simulates invariant (loopProgram body fuel state heap) (loop valueBody fuel value) := by
  induction fuel generalizing state heap value with
  | zero => rfl
  | succ fuel ih =>
      have iterated := kept state heap value holds
      rw [loopProgram, bind_run, loop]
      cases valueIterated : valueBody value with
      | error halt =>
          rw [valueIterated] at iterated
          have stopped : body state heap = .error (.halt halt) := iterated
          rw [stopped]
          rfl
      | ok valueFlow =>
          rw [valueIterated] at iterated
          obtain ⟨flow, later, returned, related⟩ := iterated
          rw [returned]
          cases flow with
          | next following =>
              cases valueFlow with
              | next valueFollowing => exact ih related
              | done valueResult => exact related.elim
          | done result =>
              cases valueFlow with
              | next valueFollowing => exact related.elim
              | done valueResult => exact .ok related

end Simulation

end SharedHeap
