import OrderBook.SharedRuns

/-!
# The book manager

The manager of `book_manager.h` and `book_manager.cpp` feeds the messages of the
three streams to its book, keeps the events that come back, and hands them out when
it is told to flush.  The four callbacks are declared in the header and defined by
the program that links the library, so they are parameters here.  They are members of
the manager: each is given the manager, whose book is its first argument, and the
event, and may change the manager and a state of its own, the world.
-/

namespace OrderBook

open FueledLoop InputRun

variable {P : Type} [LinearOrder P] {World : Type}

/-- The events of `b` are moved to the end of `a`. -/
def mergeEvents (a b : OrderInfoVec P) : OrderInfoVec P := a ++ b

structure BookManager (P : Type) [LinearOrder P] where
  book : SmartOrderBook P
  events : OrderInfoVec P

structure Callbacks (P : Type) [LinearOrder P] (World : Type) where
  onOrderAdd : BookManager P → OrderInfo P → World → BookManager P × World
  onOrderCancel : BookManager P → OrderInfo P → World → BookManager P × World
  onOrderModify : BookManager P → OrderInfo P → World → BookManager P × World
  onOrderExecution : BookManager P → OrderInfo P → World → BookManager P × World

namespace Callbacks

/-- The switch of `flushEvents`: each kind of event has its callback. -/
def dispatch (callbacks : Callbacks P World) (state : BookManager P × World)
    (info : OrderInfo P) : BookManager P × World :=
  match info.event with
  | .add => callbacks.onOrderAdd state.1 info state.2
  | .cancel => callbacks.onOrderCancel state.1 info state.2
  | .exec => callbacks.onOrderExecution state.1 info state.2
  | .modif => callbacks.onOrderModify state.1 info state.2

/-- No callback changes the stored events.  The loop of `flushEvents` holds iterators into
them while it runs. -/
def KeepStore (callbacks : Callbacks P World) : Prop :=
  ∀ manager info world, (callbacks.dispatch (manager, world) info).1.events = manager.events

/-- The same callbacks, each writing its own kind and the event it was given. -/
def logged (callbacks : Callbacks P World) :
    Callbacks P (World × List (OrderEvent × OrderInfo P)) where
  onOrderAdd manager info world :=
    let (next, later) := callbacks.onOrderAdd manager info world.1
    (next, later, world.2 ++ [(.add, info)])
  onOrderCancel manager info world :=
    let (next, later) := callbacks.onOrderCancel manager info world.1
    (next, later, world.2 ++ [(.cancel, info)])
  onOrderModify manager info world :=
    let (next, later) := callbacks.onOrderModify manager info world.1
    (next, later, world.2 ++ [(.modif, info)])
  onOrderExecution manager info world :=
    let (next, later) := callbacks.onOrderExecution manager info world.1
    (next, later, world.2 ++ [(.exec, info)])

/-- Callbacks that change the manager only by sending its book messages. -/
def ActsByMessages [Zero P] (callbacks : Callbacks P World) : Prop :=
  callbacks.KeepStore ∧ ∀ manager info world, ∃ messages,
    Run SmartOrderBook.MessageStep manager.book messages
        (callbacks.dispatch (manager, world) info).1.book ∧
      ∀ message ∈ messages, message.Positive ∧ message.DistinctPrices

/-- Callbacks that only listen: they leave the manager alone and do not look at it. -/
def listening (tell : OrderEvent → World → OrderInfo P → World) : Callbacks P World where
  onOrderAdd manager info world := (manager, tell .add world info)
  onOrderCancel manager info world := (manager, tell .cancel world info)
  onOrderModify manager info world := (manager, tell .modif world info)
  onOrderExecution manager info world := (manager, tell .exec world info)

theorem dispatch_listening (tell : OrderEvent → World → OrderInfo P → World)
    (state : BookManager P × World) (info : OrderInfo P) :
    (listening tell).dispatch state info = (state.1, tell info.event state.2 info) := by
  cases kind : info.event <;> simp [dispatch, listening, kind]

theorem keepStore_listening (tell : OrderEvent → World → OrderInfo P → World) :
    (listening tell).KeepStore := by
  intro manager info world
  rw [dispatch_listening]

/-- Logging changes nothing but the log. -/
theorem dispatch_logged (callbacks : Callbacks P World) (manager : BookManager P)
    (world : World) (log : List (OrderEvent × OrderInfo P)) (info : OrderInfo P) :
    callbacks.logged.dispatch (manager, world, log) info =
      ((callbacks.dispatch (manager, world) info).1, (callbacks.dispatch (manager, world) info).2,
        log ++ [(info.event, info)]) := by
  cases kind : info.event <;> simp [dispatch, logged, kind]

theorem KeepStore.logged {callbacks : Callbacks P World} (keeps : callbacks.KeepStore) :
    callbacks.logged.KeepStore := by
  rintro manager info ⟨world, log⟩
  rw [dispatch_logged]
  exact keeps manager info world

end Callbacks

namespace BookManager

/-- A freshly constructed manager. -/
def new : BookManager P := ⟨.empty, []⟩

/-- The loop of `flushEvents` from the stored event `next` on, for the number of rounds it had
left when it began.  It reads the events where they are stored. -/
def flushFrom (callbacks : Callbacks P World) (next : Nat) :
    Nat → BookManager P × World → BookManager P × World
  | 0, state => state
  | rounds + 1, state =>
      match state.1.events[next]? with
      | none => state
      | some info => flushFrom callbacks (next + 1) rounds (callbacks.dispatch state info)

/-- Hand out the stored events in their order and forget them. -/
def flushEvents (manager : BookManager P) (callbacks : Callbacks P World) (world : World) :
    BookManager P × World :=
  let (after, later) := flushFrom callbacks 0 manager.events.length (manager, world)
  ({ after with events := [] }, later)

/-- Callbacks that keep the store are given what is left of it, one event after the other. -/
theorem flushFrom_eq {callbacks : Callbacks P World} (keeps : callbacks.KeepStore) (next : Nat)
    (state : BookManager P × World) :
    flushFrom callbacks next (state.1.events.length - next) state =
      (state.1.events.drop next).foldl callbacks.dispatch state := by
  generalize roundsEq : state.1.events.length - next = rounds
  induction rounds generalizing next state with
  | zero => rw [List.drop_eq_nil_of_le (by omega), flushFrom, List.foldl_nil]
  | succ rounds ih =>
      have inside : next < state.1.events.length := by omega
      have kept := keeps state.1 state.1.events[next] state.2
      rw [flushFrom, List.getElem?_eq_getElem inside, List.drop_eq_getElem_cons inside,
        List.foldl_cons]
      refine (ih (next + 1) _ (by rw [kept]; omega)).trans ?_
      rw [kept]

theorem flushEvents_eq {callbacks : Callbacks P World} (keeps : callbacks.KeepStore)
    (manager : BookManager P) (world : World) :
    manager.flushEvents callbacks world =
      (⟨(manager.events.foldl callbacks.dispatch (manager, world)).1.book, []⟩,
        (manager.events.foldl callbacks.dispatch (manager, world)).2) := by
  have flushed := flushFrom_eq keeps 0 (manager, world)
  rw [Nat.sub_zero, List.drop_zero] at flushed
  rw [flushEvents, flushed]

variable [Zero P]

/-- The manager after the call and the lines written to the error stream. -/
def processOrderMessage (fuel : Nat) (manager : BookManager P) (msg : OrderMessage P) :
    Except Halt (BookManager P × List String) :=
  match msg.type with
  | .add => do
      let (book, events) ← manager.book.processOrderAddMessage fuel msg
      return (⟨book, mergeEvents manager.events events⟩, [])
  | .cancel =>
      let (book, events) := manager.book.processOrderCancelMessage msg
      return (⟨book, mergeEvents manager.events events⟩, [])
  | .modify => do
      let (book, events) ← manager.book.processOrderModifyMessage fuel msg
      return (⟨book, mergeEvents manager.events events⟩, [])
  | _ => return (manager, ["Invalid order message type"])

def processTradeMessage (fuel : Nat) (manager : BookManager P) (msg : TradeMessage P) :
    Except Halt (BookManager P) := do
  let (book, events) ← manager.book.processTradeMessage fuel msg
  return ⟨book, mergeEvents manager.events events⟩

def processSnapshotMessage (manager : BookManager P) (msg : SnapshotMessage P) :
    Except Halt (BookManager P) := do
  let (book, events) ← manager.book.processSnapshotMessage msg
  return ⟨book, mergeEvents manager.events events⟩

end BookManager

/-- The events of the first message come first. -/
theorem SmartOrderBook.processStream_cons [Zero P] (fuel : Nat) (book : SmartOrderBook P)
    (message : Message P) (messages : List (Message P)) :
    book.processStream fuel (message :: messages) = (do
      let (next, events) ← book.process fuel message
      let (final, later) ← next.processStream fuel messages
      return (final, events ++ later)) := by
  have shifted (state : SmartOrderBook P × OrderInfoVec P) (front : OrderInfoVec P) :
      messages.foldlM (fun state message => do
          let (next, events) ← state.1.process fuel message
          return (next, state.2 ++ events)) (state.1, front ++ state.2) = (do
        let (final, later) ← messages.foldlM (fun state message => do
          let (next, events) ← state.1.process fuel message
          return (next, state.2 ++ events)) state
        return (final, front ++ later)) := by
    induction messages generalizing state with
    | nil => rfl
    | cons message messages ih =>
        rw [List.foldlM_cons, List.foldlM_cons]
        cases done : state.1.process fuel message with
        | error halt => rfl
        | ok outcome =>
            simp only [ok_bind, pure_eq_ok]
            rw [List.append_assoc]
            exact ih (outcome.1, state.2 ++ outcome.2)
  rw [processStream, List.foldlM_cons]
  cases done : book.process fuel message with
  | error halt => rfl
  | ok outcome =>
      have front := shifted (outcome.1, []) outcome.2
      rw [List.append_nil] at front
      exact front

/-- Calls of the manager. -/
inductive ManagerCall (P : Type) where
  | processOrderMessage (msg : OrderMessage P)
  | processTradeMessage (msg : TradeMessage P)
  | processSnapshotMessage (msg : SnapshotMessage P)
  | flushEvents
  deriving DecidableEq, Repr

/-- The message that a call passes to the book, if it passes one. -/
def ManagerCall.message? : ManagerCall P → Option (Message P)
  | .processOrderMessage msg =>
      match msg.type with
      | .add => some (.add msg)
      | .cancel => some (.cancel msg)
      | .modify => some (.modify msg)
      | _ => none
  | .processTradeMessage msg => some (.trade msg)
  | .processSnapshotMessage msg => some (.snapshot msg)
  | .flushEvents => none

/-- What a call writes to the error stream. -/
def ManagerCall.errors : ManagerCall P → List String
  | .processOrderMessage msg =>
      match msg.type with
      | .add | .cancel | .modify => []
      | _ => ["Invalid order message type"]
  | _ => []

/-- A manager, the world of its callbacks, and what it wrote to the error stream. -/
structure Service (P : Type) [LinearOrder P] (World : Type) where
  manager : BookManager P
  world : World
  errors : List String

namespace Service

/-- A fresh manager in a world. -/
def start (world : World) : Service P World := ⟨.new, world, []⟩

variable [Zero P]

def call (fuel : Nat) (callbacks : Callbacks P World) (state : Service P World) :
    ManagerCall P → Except Halt (Service P World)
  | .processOrderMessage msg => do
      let (manager, errors) ← state.manager.processOrderMessage fuel msg
      return ⟨manager, state.world, state.errors ++ errors⟩
  | .processTradeMessage msg => do
      let manager ← state.manager.processTradeMessage fuel msg
      return ⟨manager, state.world, state.errors⟩
  | .processSnapshotMessage msg => do
      let manager ← state.manager.processSnapshotMessage msg
      return ⟨manager, state.world, state.errors⟩
  | .flushEvents =>
      let (manager, world) := state.manager.flushEvents callbacks state.world
      return ⟨manager, world, state.errors⟩

def calls (fuel : Nat) (callbacks : Callbacks P World) (state : Service P World)
    (calls : List (ManagerCall P)) : Except Halt (Service P World) :=
  calls.foldlM (Service.call fuel callbacks) state

variable {fuel : Nat} {callbacks : Callbacks P World} {state next : Service P World}

/-- A call that passes a message on does what the book does, and keeps the events. -/
theorem call_of_message {call : ManagerCall P} {message : Message P}
    (passes : call.message? = some message) :
    state.call fuel callbacks call = (do
      let (book, events) ← state.manager.book.process fuel message
      return ⟨⟨book, state.manager.events ++ events⟩, state.world, state.errors⟩) := by
  cases call with
  | processOrderMessage msg =>
      cases typeEq : msg.type <;> simp only [ManagerCall.message?, typeEq] at passes <;>
        cases passes
      · simp [Service.call, BookManager.processOrderMessage, typeEq, SmartOrderBook.process,
          mergeEvents]
      · simp [Service.call, BookManager.processOrderMessage, typeEq, SmartOrderBook.process,
          mergeEvents]
      · simp [Service.call, BookManager.processOrderMessage, typeEq, SmartOrderBook.process,
          mergeEvents]
  | processTradeMessage msg =>
      cases passes
      simp [Service.call, BookManager.processTradeMessage, SmartOrderBook.process, mergeEvents]
  | processSnapshotMessage msg =>
      cases passes
      simp [Service.call, BookManager.processSnapshotMessage, SmartOrderBook.process, mergeEvents]
  | flushEvents => cases passes

/-- A call that neither passes a message on nor flushes is refused with an error line. -/
theorem call_of_refused {call : ManagerCall P} (refused : call.message? = none)
    (noFlush : call ≠ .flushEvents) :
    state.call fuel callbacks call =
      .ok ⟨state.manager, state.world, state.errors ++ call.errors⟩ := by
  cases call with
  | processOrderMessage msg =>
      cases typeEq : msg.type <;> simp [ManagerCall.message?, typeEq] at refused
      · simp [Service.call, BookManager.processOrderMessage, typeEq, ManagerCall.errors]
      · simp [Service.call, BookManager.processOrderMessage, typeEq, ManagerCall.errors]
      · simp [Service.call, BookManager.processOrderMessage, typeEq, ManagerCall.errors]
  | processTradeMessage msg => cases refused
  | processSnapshotMessage msg => cases refused
  | flushEvents => exact (noFlush rfl).elim

omit [LinearOrder P] [Zero P] in
theorem errors_of_message {call : ManagerCall P} {message : Message P}
    (passes : call.message? = some message) : call.errors = [] := by
  cases call with
  | processOrderMessage msg =>
      cases typeEq : msg.type <;> simp [ManagerCall.message?, typeEq] at passes <;>
        simp [ManagerCall.errors, typeEq]
  | processTradeMessage msg => rfl
  | processSnapshotMessage msg => rfl
  | flushEvents => rfl

/-! ### Callbacks that listen -/

section Listening

variable {tell : OrderEvent → World → OrderInfo P → World}

/-- Tell the events one after another. -/
def tellAll (tell : OrderEvent → World → OrderInfo P → World) (world : World)
    (events : OrderInfoVec P) : World :=
  events.foldl (fun world info => tell info.event world info) world

omit [LinearOrder P] [Zero P] in
theorem tellAll_append (world : World) (first second : OrderInfoVec P) :
    tellAll tell world (first ++ second) = tellAll tell (tellAll tell world first) second :=
  List.foldl_append

/-- The state that a flush would leave. -/
def settled (tell : OrderEvent → World → OrderInfo P → World) (state : Service P World) :
    Service P World :=
  ⟨⟨state.manager.book, []⟩, tellAll tell state.world state.manager.events, state.errors⟩

omit [Zero P] in
theorem foldl_listening (events : OrderInfoVec P) (manager : BookManager P) (world : World) :
    events.foldl (Callbacks.listening tell).dispatch (manager, world) =
      (manager, tellAll tell world events) := by
  induction events generalizing world with
  | nil => rfl
  | cons info events ih =>
      rw [List.foldl_cons, Callbacks.dispatch_listening, ih]
      rfl

theorem call_flushEvents_listening :
    state.call fuel (.listening tell) .flushEvents = .ok (state.settled tell) := by
  simp [Service.call, BookManager.flushEvents_eq (Callbacks.keepStore_listening tell),
    foldl_listening, settled]

/-- The manager does to the settled state what the book does with the messages. -/
theorem calls_listening (fuel : Nat) (tell : OrderEvent → World → OrderInfo P → World)
    (calls : List (ManagerCall P)) (state : Service P World) :
    (state.calls fuel (.listening tell) calls).map (settled tell) =
      (state.manager.book.processStream fuel (calls.filterMap ManagerCall.message?)).map
        fun result => ⟨⟨result.1, []⟩, tellAll tell (state.settled tell).world result.2,
          state.errors ++ calls.flatMap ManagerCall.errors⟩ := by
  induction calls generalizing state with
  | nil => simp [Service.calls, SmartOrderBook.processStream, settled, tellAll, Except.map]
  | cons call calls ih =>
      rw [Service.calls, List.foldlM_cons]
      cases passes : call.message? with
      | some message =>
          rw [call_of_message passes, List.filterMap_cons_some passes,
            SmartOrderBook.processStream_cons, List.flatMap_cons, errors_of_message passes]
          cases done : state.manager.book.process fuel message with
          | error halt => rfl
          | ok outcome =>
              simp only [ok_bind, pure_eq_ok]
              refine (ih _).trans ?_
              cases later : outcome.1.processStream fuel (calls.filterMap ManagerCall.message?) with
              | error halt => rfl
              | ok result => simp [ok_bind, Except.map, settled, tellAll_append]
      | none =>
          rw [List.filterMap_cons_none passes, List.flatMap_cons]
          by_cases flush : call = .flushEvents
          · subst flush
            rw [call_flushEvents_listening, ok_bind]
            exact ih _
          · rw [call_of_refused passes flush, ok_bind]
            refine (ih _).trans ?_
            simp [settled]

theorem calls_flush_listening (calls : List (ManagerCall P)) :
    state.calls fuel (.listening tell) (calls ++ [.flushEvents]) =
      (state.calls fuel (.listening tell) calls).map (settled tell) := by
  rw [Service.calls, List.foldlM_append, ← Service.calls]
  cases state.calls fuel (.listening tell) calls with
  | error halt => rfl
  | ok final =>
      rw [ok_bind, List.foldlM_cons, call_flushEvents_listening]
      rfl

end Listening

/-! ### Delivery -/

section Delivery

/-- The events that the book hands back when a call is made. -/
def emitted (fuel : Nat) (state : Service P World) (call : ManagerCall P) : OrderInfoVec P :=
  match call.message? with
  | none => []
  | some message =>
      match state.manager.book.process fuel message with
      | .error _ => []
      | .ok (_, events) => events

/-- The events that the book hands back along a run of calls. -/
def produced (fuel : Nat) (callbacks : Callbacks P World) :
    Service P World → List (ManagerCall P) → OrderInfoVec P
  | _, [] => []
  | state, call :: calls =>
      state.emitted fuel call ++
        match state.call fuel callbacks call with
        | .error _ => []
        | .ok next => next.produced fuel callbacks calls

/-- An event with the callback it belongs to. -/
def addressed (info : OrderInfo P) : OrderEvent × OrderInfo P := (info.event, info)

/-- The same state, with a log of what the callbacks were given. -/
def withLog (state : Service P World) (log : List (OrderEvent × OrderInfo P)) :
    Service P (World × List (OrderEvent × OrderInfo P)) :=
  ⟨state.manager, (state.world, log), state.errors⟩

omit [Zero P] in
theorem foldl_logged (callbacks : Callbacks P World) (events : OrderInfoVec P)
    (state : BookManager P × World) (log : List (OrderEvent × OrderInfo P)) :
    events.foldl callbacks.logged.dispatch (state.1, state.2, log) =
      ((events.foldl callbacks.dispatch state).1, (events.foldl callbacks.dispatch state).2,
        log ++ events.map addressed) := by
  induction events generalizing state log with
  | nil => simp
  | cons info events ih =>
      rw [List.foldl_cons, Callbacks.dispatch_logged, ih]
      simp [addressed]

/-- One call under logging callbacks: what was given out and is stored grows by what the
book hands back. -/
theorem call_logged (keeps : callbacks.KeepStore) (call : ManagerCall P)
    (called : state.call fuel callbacks call = .ok next)
    (log : List (OrderEvent × OrderInfo P)) :
    ∃ more, (state.withLog log).call fuel callbacks.logged call = .ok (next.withLog (log ++ more)) ∧
      more ++ next.manager.events.map addressed =
        (state.manager.events ++ state.emitted fuel call).map addressed := by
  cases passes : call.message? with
  | some message =>
      rw [call_of_message passes] at called ⊢
      obtain ⟨outcome, done, rest⟩ := bind_eq_ok.mp called
      cases rest
      refine ⟨[], ?_, ?_⟩
      · simp [withLog, done, ok_bind]
      · simp [emitted, passes, done]
  | none =>
      by_cases flush : call = .flushEvents
      · subst flush
        rw [Service.call, BookManager.flushEvents_eq keeps] at called
        cases called
        refine ⟨state.manager.events.map addressed, ?_, ?_⟩
        · have given := foldl_logged callbacks state.manager.events
            (state.manager, state.world) log
          simp only [Service.call, BookManager.flushEvents_eq keeps.logged, withLog, given]
          rfl
        · simp [emitted, passes]
      · rw [call_of_refused passes flush] at called ⊢
        cases called
        exact ⟨[], by simp [withLog], by simp [emitted, passes]⟩

theorem calls_logged (keeps : callbacks.KeepStore) {final : Service P World}
    (calls : List (ManagerCall P)) (ran : state.calls fuel callbacks calls = .ok final)
    (log : List (OrderEvent × OrderInfo P)) :
    ∃ more, (state.withLog log).calls fuel callbacks.logged calls =
        .ok (final.withLog (log ++ more)) ∧
      more ++ final.manager.events.map addressed =
        (state.manager.events ++ state.produced fuel callbacks calls).map addressed := by
  induction calls generalizing state log with
  | nil =>
      cases ran
      exact ⟨[], by simp [Service.calls], by simp [produced]⟩
  | cons call calls ih =>
      rw [Service.calls, List.foldlM_cons] at ran
      obtain ⟨next, called, rest⟩ := bind_eq_ok.mp ran
      obtain ⟨first, firstCalled, firstEq⟩ := call_logged keeps call called log
      obtain ⟨others, othersCalled, othersEq⟩ := ih rest (log ++ first)
      refine ⟨first ++ others, ?_, ?_⟩
      · rw [Service.calls, List.foldlM_cons, firstCalled, ok_bind, ← List.append_assoc]
        exact othersCalled
      · rw [List.append_assoc, othersEq, List.map_append, ← List.append_assoc, firstEq]
        simp [produced, called]

end Delivery

/-! ### Callbacks that act -/

section Acting

theorem foldl_acting (acts : callbacks.ActsByMessages) (events : OrderInfoVec P)
    (start : BookManager P × World) :
    ∃ messages, Run SmartOrderBook.MessageStep start.1.book messages
        (events.foldl callbacks.dispatch start).1.book ∧
      ∀ message ∈ messages, message.Positive ∧ message.DistinctPrices := by
  induction events generalizing start with
  | nil => exact ⟨[], .start, by simp⟩
  | cons info events ih =>
      obtain ⟨first, firstRun, firstAllowed⟩ := acts.2 start.1 info start.2
      obtain ⟨others, othersRun, othersAllowed⟩ := ih (callbacks.dispatch start info)
      exact ⟨first ++ others, firstRun.append othersRun,
        List.forall_mem_append.mpr ⟨firstAllowed, othersAllowed⟩⟩

/-- What a call does to the book, the book does by messages that include the one of the call. -/
theorem call_acting (acts : callbacks.ActsByMessages) {call : ManagerCall P}
    (called : state.call fuel callbacks call = .ok next)
    (allowed : ∀ message ∈ call.message?, message.Positive ∧ message.DistinctPrices) :
    ∃ messages, Run SmartOrderBook.MessageStep state.manager.book messages next.manager.book ∧
      call.message?.toList.Sublist messages ∧
        ∀ message ∈ messages, message.Positive ∧ message.DistinctPrices := by
  cases passes : call.message? with
  | some message =>
      rw [call_of_message passes] at called
      obtain ⟨outcome, done, rest⟩ := bind_eq_ok.mp called
      cases rest
      refine ⟨[message], .step .start ⟨outcome.2, fuel, done⟩, .refl _, ?_⟩
      simpa using allowed message passes
  | none =>
      by_cases flush : call = .flushEvents
      · subst flush
        rw [Service.call, BookManager.flushEvents_eq acts.1] at called
        cases called
        obtain ⟨messages, run, fits⟩ := foldl_acting acts state.manager.events
          (state.manager, state.world)
        exact ⟨messages, run, List.nil_sublist _, fits⟩
      · rw [call_of_refused passes flush] at called
        cases called
        exact ⟨[], .start, .refl _, by simp⟩

theorem calls_acting (acts : callbacks.ActsByMessages) {calls : List (ManagerCall P)}
    {final : Service P World} (ran : state.calls fuel callbacks calls = .ok final)
    (allowed : ∀ message ∈ calls.filterMap ManagerCall.message?,
      message.Positive ∧ message.DistinctPrices) :
    ∃ messages, Run SmartOrderBook.MessageStep state.manager.book messages final.manager.book ∧
      (calls.filterMap ManagerCall.message?).Sublist messages ∧
        ∀ message ∈ messages, message.Positive ∧ message.DistinctPrices := by
  induction calls generalizing state with
  | nil =>
      cases ran
      exact ⟨[], .start, .refl _, by simp⟩
  | cons call calls ih =>
      rw [Service.calls, List.foldlM_cons] at ran
      obtain ⟨next, called, rest⟩ := bind_eq_ok.mp ran
      have split : (call :: calls).filterMap ManagerCall.message? =
          call.message?.toList ++ calls.filterMap ManagerCall.message? := by
        cases passes : call.message? <;> simp [passes]
      rw [split, List.forall_mem_append] at allowed
      obtain ⟨first, firstRun, firstPart, firstAllowed⟩ := call_acting acts called
        (by simpa using allowed.1)
      obtain ⟨others, othersRun, othersPart, othersAllowed⟩ := ih rest allowed.2
      exact ⟨first ++ others, firstRun.append othersRun, split ▸ firstPart.append othersPart,
        List.forall_mem_append.mpr ⟨firstAllowed, othersAllowed⟩⟩

end Acting

end Service

/-- Under callbacks that only listen, a manager that ends with a flush has done what its
book does with the messages, halts included, and has told every event once and in order:
when it flushed in between makes no difference. -/
theorem manager_follows_stream [Zero P] (fuel : Nat)
    (tell : OrderEvent → World → OrderInfo P → World) (world : World)
    (calls : List (ManagerCall P)) :
    (Service.start world).calls fuel (.listening tell) (calls ++ [.flushEvents]) =
      (SmartOrderBook.empty.processStream fuel (calls.filterMap ManagerCall.message?)).map
        fun result => ⟨⟨result.1, []⟩,
          result.2.foldl (fun world info => tell info.event world info) world,
          calls.flatMap ManagerCall.errors⟩ := by
  rw [Service.calls_flush_listening, Service.calls_listening]
  rfl

/-- Whatever the callbacks do to the book, each event that the book hands back to the manager
is given to the callback of its kind once and in the order of production, or is still
stored: none is lost, repeated or overtaken, and logging the callbacks changes nothing
else. -/
theorem manager_delivers [Zero P] {fuel : Nat} {callbacks : Callbacks P World}
    (keeps : callbacks.KeepStore) {world : World} {calls : List (ManagerCall P)}
    {final : Service P World}
    (ran : (Service.start world).calls fuel callbacks calls = .ok final) :
    ∃ delivered,
      (Service.start (world, [])).calls fuel callbacks.logged calls =
        .ok ⟨final.manager, (final.world, delivered), final.errors⟩ ∧
      delivered ++ final.manager.events.map (fun info => (info.event, info)) =
        ((Service.start world).produced fuel callbacks calls).map
          (fun info => (info.event, info)) := by
  obtain ⟨delivered, logged, accounted⟩ := Service.calls_logged keeps calls ran []
  exact ⟨delivered, logged, accounted⟩

/-- Callbacks that count the executions and, at each of them, cancel the ask 2 at 102. -/
def pullOnExecution : Callbacks ℤ Nat where
  onOrderAdd manager _ world := (manager, world)
  onOrderCancel manager _ world := (manager, world)
  onOrderModify manager _ world := (manager, world)
  onOrderExecution manager _ world :=
    ({ manager with
        book := (manager.book.processOrderCancelMessage ⟨.cancel, 2, true, 5, 102⟩).1 },
      world + 1)

theorem dispatch_pullOnExecution (manager : BookManager ℤ) (info : OrderInfo ℤ) (world : Nat) :
    pullOnExecution.dispatch (manager, world) info =
      if info.event = .exec then
        ({ manager with
            book := (manager.book.processOrderCancelMessage ⟨.cancel, 2, true, 5, 102⟩).1 },
          world + 1)
      else (manager, world) := by
  cases kind : info.event <;> simp [Callbacks.dispatch, pullOnExecution, kind]

theorem pullOnExecution_keeps : pullOnExecution.KeepStore := by
  intro manager info world
  rw [dispatch_pullOnExecution]
  split
  · rfl
  · rfl

/-- Two asks, a bid that meets the first one, and a flush before the next bid. -/
def pulledCalls : List (ManagerCall ℤ) :=
  [.processOrderMessage ⟨.add, 1, true, 10, 100⟩, .processOrderMessage ⟨.add, 2, true, 5, 102⟩,
    .processOrderMessage ⟨.add, 3, false, 4, 100⟩, .flushEvents,
    .processOrderMessage ⟨.add, 4, false, 3, 99⟩]

theorem manager_delivers_pulledCalls :
    ∃ final delivered, (Service.start 0).calls 9 pullOnExecution pulledCalls = .ok final ∧
      final.manager.events = [⟨.add, 4, false, 3, 99⟩] ∧
      (Service.start (0, [])).calls 9 pullOnExecution.logged pulledCalls =
        .ok ⟨final.manager, (final.world, delivered), final.errors⟩ ∧
      delivered = [(.add, ⟨.add, 1, true, 10, 100⟩), (.add, ⟨.add, 2, true, 5, 102⟩),
        (.exec, ⟨.exec, 1, true, 4, 100⟩)] := by
  have ran : ∃ final, (Service.start 0).calls 9 pullOnExecution pulledCalls = .ok final ∧
      final.manager.events = [⟨.add, 4, false, 3, 99⟩] := ⟨_, rfl, rfl⟩
  obtain ⟨final, ran, stored⟩ := ran
  obtain ⟨delivered, logged, accounted⟩ := manager_delivers pullOnExecution_keeps ran
  rw [stored] at accounted
  exact ⟨final, delivered, ran, stored, logged, List.append_cancel_right accounted⟩

/-- Callbacks may send the book messages of their own while the events are handed out.  The
managed book then is one that a plain book reaches by messages, those of the calls
among them in their order, so the representation invariant holds in it. -/
theorem managed_book_reached [Zero P] {fuel : Nat} {callbacks : Callbacks P World}
    (acts : callbacks.ActsByMessages) {world : World} {calls : List (ManagerCall P)}
    {final : Service P World} (ran : (Service.start world).calls fuel callbacks calls = .ok final)
    (allowed : ∀ message ∈ calls.filterMap ManagerCall.message?,
      message.Positive ∧ message.DistinctPrices) :
    (∃ messages, Run SmartOrderBook.MessageStep .empty messages final.manager.book ∧
      (calls.filterMap ManagerCall.message?).Sublist messages ∧
        ∀ message ∈ messages, message.Positive ∧ message.DistinctPrices) ∧
    ∀ isSell, (final.manager.book.sides isSell).RepInvariant := by
  obtain ⟨messages, run, part, fits⟩ := Service.calls_acting acts ran allowed
  refine ⟨⟨messages, run, part, fits⟩, fun isSell => ?_⟩
  rw [BookSide.repInvariant_iff_valid]
  exact SmartOrderBook.valid_of_messages run fits isSell

theorem pullOnExecution_acts : pullOnExecution.ActsByMessages := by
  refine ⟨pullOnExecution_keeps, fun manager info world => ?_⟩
  rw [dispatch_pullOnExecution]
  split
  · exact ⟨[.cancel ⟨.cancel, 2, true, 5, 102⟩], .step .start ⟨_, 0, rfl⟩, by decide⟩
  · exact ⟨[], .start, by simp⟩

theorem managed_book_reached_pulledCalls :
    ∃ final, (Service.start 0).calls 9 pullOnExecution pulledCalls = .ok final ∧
      (final.manager.book.sides true).existOrder 2 = false ∧
      ∀ isSell, (final.manager.book.sides isSell).RepInvariant := by
  have ran : ∃ final, (Service.start 0).calls 9 pullOnExecution pulledCalls = .ok final ∧
      (final.manager.book.sides true).existOrder 2 = false := ⟨_, rfl, rfl⟩
  obtain ⟨final, ran, pulled⟩ := ran
  exact ⟨final, ran, pulled,
    (managed_book_reached pullOnExecution_acts ran (by decide)).2⟩

end OrderBook
