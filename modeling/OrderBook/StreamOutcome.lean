import OrderBook.BookManager
import OrderBook.MatchingCalls
import OrderBook.ModifyMessage

/-!
# What becomes of a stream of messages

A stream of messages is processed to its end, or it is stuck for ever at a message
whose quantity `matchPendingLiqAdd` never finishes absorbing.  There is no third
outcome: no `assert` of the source ever fails.  A message that gets stuck is told by
the ledger of expected liquidity of its own side when it arrives.
-/

namespace OrderBook

open FueledLoop InputRun

variable {P : Type} [LinearOrder P]

namespace BookSide

variable {isSell : Bool} {side other : BookSide P isSell} {quantity : ℤ} {price : P}

theorem Valid.matchPendingLiqAdd_forever {slack : Set ℤ} (valid : side.Valid slack)
    (pos : 0 < quantity) (forever : side.AbsorbsForever quantity price) (fuel : Nat) :
    side.matchPendingLiqAdd fuel quantity price = .error .outOfFuel := by
  have nonneg : ∀ entry ∈ side.pendingLiqAddQty.entries, 0 ≤ entry.2 := fun entry mem =>
    valid.ledgers.add_nonneg (SortedMap.find?_eq_some_iff.mpr mem)
  rcases absorbEnds nonneg pos price with ⟨-, never⟩ | ⟨ends, -⟩
  · rw [BookSide.matchPendingLiqAdd, never fuel]
    rfl
  · exact (ends forever).elim

theorem AbsorbsForever.congr (sameLedger : other.pendingLiqAddQty = side.pendingLiqAddQty)
    (forever : side.AbsorbsForever quantity price) : other.AbsorbsForever quantity price := by
  simpa only [AbsorbsForever, ReachesFirst, elsewhere, sameLedger] using forever

end BookSide

namespace SmartOrderBook

variable [Zero P] {book : SmartOrderBook P}

/-- The message never returns: its quantity is absorbed for ever.  A modification adds
its order again, and the cancel before it leaves the ledger as it is. -/
def Hangs (book : SmartOrderBook P) : Message P → Prop
  | .add msg => (book.sides msg.isSell).AbsorbsForever msg.quantity msg.price
  | .modify msg => book.existOrder msg.id = true ∧
      (book.sides msg.isSell).AbsorbsForever msg.quantity msg.price
  | _ => False

theorem Valid.add_hangs (valid : book.Valid {0}) {msg : OrderMessage P} (pos : 0 < msg.quantity)
    (forever : (book.sides msg.isSell).AbsorbsForever msg.quantity msg.price) (fuel : Nat) :
    book.processOrderAddMessage fuel msg = .error .outOfFuel := by
  rw [SmartOrderBook.processOrderAddMessage,
    (valid msg.isSell).matchPendingLiqAdd_forever pos forever fuel]
  rfl

theorem Valid.add_returns (valid : book.Valid {0}) {msg : OrderMessage P} (pos : 0 < msg.quantity)
    (ends : ¬ (book.sides msg.isSell).AbsorbsForever msg.quantity msg.price) :
    ∃ outcome, Returns (fun fuel => book.processOrderAddMessage fuel msg) outcome := by
  obtain ⟨⟨own, matched⟩, absorbed⟩ :=
    ((valid msg.isSell).matchPendingLiqAdd_returns_iff pos msg.price).mpr ends
  obtain ⟨final, events, returns, -⟩ := valid.processOrderAddMessage_returns pos absorbed
  exact ⟨(final, events), returns⟩

/-- A modification of a known order hangs or returns as its second half does. -/
theorem Valid.modify_cases (valid : book.Valid {0}) {msg : OrderMessage P} {order : Order P}
    (pos : 0 < msg.quantity) (found : book.getOrder? msg.id = some order) :
    ((book.sides msg.isSell).AbsorbsForever msg.quantity msg.price ∧
        ∀ fuel, book.processOrderModifyMessage fuel msg = .error .outOfFuel) ∨
      ¬ (book.sides msg.isSell).AbsorbsForever msg.quantity msg.price ∧
        ∃ outcome, Returns (fun fuel => book.processOrderModifyMessage fuel msg) outcome := by
  have nonneg := (valid.getOrder?_isOpen found).remaining_pos.le
  have addPos : 0 < (addOf msg).quantity := pos
  have cancelled : (book.cancelledAt msg order msg.price).Valid {0} :=
    valid.cancelledAt nonneg msg.price
  have sameLedger : ((book.cancelledAt msg order msg.price).sides msg.isSell).pendingLiqAddQty =
      (book.sides msg.isSell).pendingLiqAddQty :=
    (valid.cancelledAt_ledgers nonneg msg.price).1
  by_cases forever : (book.sides msg.isSell).AbsorbsForever msg.quantity msg.price
  · refine Or.inl ⟨forever, fun fuel => ?_⟩
    have stuck := cancelled.add_hangs addPos (forever.congr sameLedger) fuel
    simp only [SmartOrderBook.processOrderModifyMessage, found]
    exact congrArg (· >>= _) stuck
  · refine Or.inr ⟨forever, ?_⟩
    obtain ⟨⟨final, events⟩, returns⟩ := cancelled.add_returns addPos
      fun hangs => forever (hangs.congr sameLedger.symm)
    obtain ⟨modified, modifies⟩ := (modify_iff_addsFrom found final).mpr ⟨events, returns⟩
    exact ⟨(final, modified), modifies⟩

/-- A message is stuck for ever, or it returns. -/
theorem Valid.process_cases (valid : book.Valid {0}) {message : Message P}
    (positive : message.Positive) (distinct : message.DistinctPrices) :
    (book.Hangs message ∧ ∀ fuel, book.process fuel message = .error .outOfFuel) ∨
      ¬ book.Hangs message ∧
        ∃ outcome, Returns (fun fuel => book.process fuel message) outcome := by
  cases message with
  | add msg =>
      by_cases forever : (book.sides msg.isSell).AbsorbsForever msg.quantity msg.price
      · exact Or.inl ⟨forever, valid.add_hangs positive forever⟩
      · exact Or.inr ⟨forever, valid.add_returns positive forever⟩
  | cancel msg => exact Or.inr ⟨id, _, 0, rfl⟩
  | modify msg =>
      cases found : book.getOrder? msg.id with
      | none =>
          refine Or.inr ⟨?_,
            (book, [⟨.modif, msg.id, msg.isSell, msg.quantity, msg.price⟩]), 0, ?_⟩
          · rintro ⟨known, -⟩
            obtain ⟨order, other⟩ := valid.getOrder?_of_existOrder known
            rw [found] at other
            cases other
          · simp only [process, processOrderModifyMessage, found]
            rfl
      | some order =>
          have known := existOrder_of_getOrder? found
          rcases valid.modify_cases positive found with ⟨forever, stuck⟩ | ⟨ends, returns⟩
          · exact Or.inl ⟨⟨known, forever⟩, stuck⟩
          · exact Or.inr ⟨fun hangs => ends hangs.2, returns⟩
  | trade msg =>
      obtain ⟨final, events, returns, -⟩ := valid.processTradeMessage_returns msg positive.le
      exact Or.inr ⟨id, _, returns⟩
  | snapshot msg =>
      have taken (isSell : Bool) := (valid isSell).processL2Snapshot_distinct
        (Set.mem_singleton 0) (positive isSell) (distinct isSell)
      choose sides events done view using taken
      exact Or.inr ⟨id, (⟨sides⟩, events false ++ events true), 0,
        processSnapshotMessage_eq_ok.mpr ⟨events, rfl, done⟩⟩

/-! ### Fuel -/

theorem addMessage_stable (book : SmartOrderBook P) (msg : OrderMessage P) :
    FuelStable fun fuel => book.processOrderAddMessage fuel msg := by
  have uncrossStable (state : SmartOrderBook P) (order : Order P) :
      FuelStable fun fuel => state.uncross fuel msg order :=
    FuelStable.ite
      ((BookSide.processCrossedOrder_stable _ _).bind fun _ => FuelStable.const _)
      (FuelStable.const _)
  have matchStable : FuelStable fun fuel =>
      (book.sides msg.isSell).matchPendingLiqAdd fuel msg.quantity msg.price :=
    (loop_stable _ _).bind fun _ => FuelStable.const _
  exact matchStable.bind fun _ => FuelStable.ite (FuelStable.const _)
    ((uncrossStable _ _).bind fun _ => FuelStable.const _)

theorem modifyMessage_stable (book : SmartOrderBook P) (msg : OrderMessage P) :
    FuelStable fun fuel => book.processOrderModifyMessage fuel msg := by
  unfold processOrderModifyMessage
  cases book.getOrder? msg.id with
  | none => exact FuelStable.const _
  | some order => exact (addMessage_stable _ _).bind fun _ => FuelStable.const _

theorem process_stable (book : SmartOrderBook P) (message : Message P) :
    FuelStable fun fuel => book.process fuel message := by
  cases message with
  | add msg => exact addMessage_stable book msg
  | cancel msg => exact FuelStable.const _
  | modify msg => exact modifyMessage_stable book msg
  | trade msg =>
      exact (BookSide.processTrade_stable _ _).bind fun _ =>
        (BookSide.processTrade_stable _ _).bind fun _ => FuelStable.const _
  | snapshot msg => exact FuelStable.const _

theorem processStream_stable (book : SmartOrderBook P) (messages : List (Message P)) :
    FuelStable fun fuel => book.processStream fuel messages := by
  induction messages generalizing book with
  | nil => exact FuelStable.const _
  | cons message messages ih =>
      simp only [processStream_cons]
      exact (process_stable book message).bind fun outcome =>
        (ih outcome.1).bind fun _ => FuelStable.const _

/-! ### Streams -/

/-- A stream is processed to its end, or it is stuck at a message that hangs. -/
theorem Valid.stream_cases (valid : book.Valid {0}) {messages : List (Message P)}
    (allowed : ∀ message ∈ messages, message.Positive ∧ message.DistinctPrices) :
    (∃ result, Returns (fun fuel => book.processStream fuel messages) result) ∨
      (∀ fuel, book.processStream fuel messages = .error .outOfFuel) ∧
        ∃ earlier message later stuck, messages = earlier ++ message :: later ∧
          Run MessageStep book earlier stuck ∧ stuck.Hangs message := by
  induction messages generalizing book with
  | nil => exact Or.inl ⟨_, 0, rfl⟩
  | cons message messages ih =>
      rw [List.forall_mem_cons] at allowed
      obtain ⟨⟨positive, distinct⟩, others⟩ := allowed
      simp only [processStream_cons]
      rcases valid.process_cases positive distinct with
        ⟨hangs, stuck⟩ | ⟨-, ⟨next, events⟩, returns⟩
      · refine Or.inr ⟨fun fuel => ?_, [], message, messages, book, rfl, .start, hangs⟩
        rw [stuck fuel]
        rfl
      · have nextValid := valid.messageStep (Set.mem_singleton 0) positive (Or.inl distinct)
          ⟨events, returns⟩
        rcases ih nextValid others with
          ⟨result, continued⟩ | ⟨stuck, earlier, hanging, later, state, split, run, hangs⟩
        · refine Or.inl ⟨(result.1, events ++ result.2), ?_⟩
          exact returns.bind (process_monotone book message)
            ((processStream_stable next messages).bind fun _ => FuelStable.const _).monotone
            (continued.bind (processStream_stable next messages).monotone
              (FuelStable.const _).monotone (.const rfl))
        · refine Or.inr ⟨fun fuel => ?_, message :: earlier, hanging, later, state,
            congrArg (message :: ·) split, run.cons ⟨events, returns⟩, hangs⟩
          cases done : book.process fuel message with
          | error halt =>
              have safe := returns.ne_assertFailed (process_stable book message) fuel
              cases halt with
              | assertFailed => exact (safe done).elim
              | outOfFuel => rfl
          | ok outcome =>
              cases Returns.unique (process_monotone book message) ⟨fuel, done⟩ returns
              rw [ok_bind, stuck fuel]
              rfl

/-- No stream is processed past a message that hangs. -/
theorem Valid.stream_stuck (valid : book.Valid {0}) {earlier later : List (Message P)}
    {message : Message P} {stuck : SmartOrderBook P}
    (allowed : ∀ other ∈ earlier ++ message :: later, other.Positive ∧ other.DistinctPrices)
    (run : Run MessageStep book earlier stuck) (hangs : stuck.Hangs message) (fuel : Nat)
    (result : SmartOrderBook P × OrderInfoVec P) :
    book.processStream fuel (earlier ++ message :: later) ≠ .ok result := by
  induction earlier generalizing book result with
  | nil =>
      obtain rfl := run.eq_start
      obtain ⟨positive, distinct⟩ := allowed message (by simp)
      rcases valid.process_cases positive distinct with ⟨-, stays⟩ | ⟨ends, -⟩
      · rw [List.nil_append, processStream_cons, stays fuel]
        rintro ⟨⟩
      · exact (ends hangs).elim
  | cons first earlier ih =>
      intro processed
      obtain ⟨second, stepped, rest⟩ := run.of_cons
      rw [List.cons_append, processStream_cons] at processed
      obtain ⟨⟨next, events⟩, done, continued⟩ := bind_eq_ok.mp processed
      obtain ⟨final, streamed, -⟩ := bind_eq_ok.mp continued
      obtain rfl := MessageStep.unique ⟨events, fuel, done⟩ stepped
      obtain ⟨positive, distinct⟩ := allowed first (by simp)
      have nextValid := valid.messageStep (Set.mem_singleton 0) positive (Or.inl distinct) stepped
      exact ih nextValid (fun other mem => allowed other (List.mem_cons_of_mem _ mem))
        rest final streamed

end SmartOrderBook

/-- No stream of messages ever fails an `assert`, and it is processed to its end exactly when
no message of it hangs in the book that the messages before it lead to. -/
theorem stream_ends_iff [Zero P] {messages : List (Message P)}
    (allowed : ∀ message ∈ messages, message.Positive ∧ message.DistinctPrices) :
    (∀ fuel, (SmartOrderBook.empty : SmartOrderBook P).processStream fuel messages ≠
      .error .assertFailed) ∧
    ((∃ result, Returns (fun fuel => (SmartOrderBook.empty : SmartOrderBook P).processStream fuel
        messages) result) ↔
      ∀ earlier message later book, messages = earlier ++ message :: later →
        Run SmartOrderBook.MessageStep .empty earlier book → ¬ book.Hangs message) := by
  have valid : (SmartOrderBook.empty : SmartOrderBook P).Valid {0} := SmartOrderBook.valid_empty
  rcases valid.stream_cases allowed with
    ⟨result, returns⟩ | ⟨stuck, earlier, message, later, book, split, run, hangs⟩
  · refine ⟨returns.ne_assertFailed (SmartOrderBook.processStream_stable _ messages),
      iff_of_true ⟨result, returns⟩ ?_⟩
    rintro earlier message later book rfl run hangs
    obtain ⟨fuel, processed⟩ := returns
    exact valid.stream_stuck allowed run hangs fuel result processed
  · refine ⟨fun fuel => by simp [stuck fuel], iff_of_false ?_ fun none => ?_⟩
    · rintro ⟨result, fuel, processed⟩
      simp [stuck fuel] at processed
    · exact none earlier message later book split run hangs

/-- Two trades whose orders have not come yet, and a bid that wants more than the first. -/
def stuckMessages : List (Message ℤ) :=
  [.trade ⟨5, 100⟩, .trade ⟨5, 101⟩, .add ⟨.add, 1, false, 20, 102⟩]

theorem stream_ends_iff_samples :
    (∀ earlier message later book, sampleMessages = earlier ++ message :: later →
      Run SmartOrderBook.MessageStep .empty earlier book → ¬ book.Hangs message) ∧
    ¬ ∃ result, Returns (fun fuel => SmartOrderBook.empty.processStream fuel stuckMessages)
      result := by
  constructor
  · have processed : ∃ result, SmartOrderBook.empty.processStream 9 sampleMessages = .ok result :=
      ⟨_, rfl⟩
    obtain ⟨result, processed⟩ := processed
    exact (stream_ends_iff (by decide)).2.mp ⟨result, 9, processed⟩
  · rw [(stream_ends_iff (by decide)).2]
    intro none
    have traded : ∃ book, SmartOrderBook.empty.processAll 9 (stuckMessages.take 2) = .ok book ∧
        book.Hangs (.add ⟨.add, 1, false, 20, 102⟩) :=
      ⟨_, rfl, ⟨101, 5, rfl, by unfold BookSide.Reaches; decide⟩, (101, 5), rfl, by decide⟩
    obtain ⟨book, traded, hangs⟩ := traded
    exact none _ _ [] book rfl (SmartOrderBook.run_of_processAll 9 traded) hangs

end OrderBook
