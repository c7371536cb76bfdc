import Mathlib.Data.List.Induction
import OrderBook.SnapshotEffect
import OrderBook.SnapshotLeads
import OrderBook.Uncrossed

/-!
# The L2 book

The aggregated book of `l2_book.h` and `l2_book.cpp`, and `getL2Book` of
`order_book.cpp`, which fills one from the levels of the two sides.  As in the
two-sided book, `bidBook_` lies under `false` and `askBook_` under `true`.

A call of the class concerns one side and one price, and what it does there
depends only on what is stored there.  The book is therefore a family of
independent cells, and only the order of the calls at each cell matters.
-/

namespace OrderBook

open InputRun FueledLoop

variable {P : Type} [LinearOrder P]

structure L2Book (P : Type) [LinearOrder P] where
  books : (isSell : Bool) → SortedMap P (L2PriceLevel P) (PriceComparator isSell)

namespace L2Book

/-- The default constructor. -/
def empty : L2Book P := ⟨fun _ => .empty⟩

/-- Write one of the two maps. -/
def setBook (book : L2Book P) (isSell : Bool)
    (levels : SortedMap P (L2PriceLevel P) (PriceComparator isSell)) : L2Book P :=
  ⟨Function.update book.books isSell levels⟩

def existLevel (book : L2Book P) (isSell : Bool) (price : P) : Bool :=
  ((book.books isSell).find? price).isSome

/-- The subscript of the map creates a default level under a missing price, which
stays in the book with the price and quantity of the default constructor. -/
def getL2Level [Zero P] (book : L2Book P) (isSell : Bool) (price : P) :
    L2PriceLevel P × L2Book P :=
  match (book.books isSell).find? price with
  | some level => (level, book)
  | none => (⟨0, 0⟩, book.setBook isSell ((book.books isSell).insert price ⟨0, 0⟩))

/-- The line `addLevel` writes to the error stream names the quantity twice. -/
def alreadyExists (quantity : ℤ) : String :=
  "[L2Book]: Trying to add an L2 level that already exist: " ++ toString quantity ++ "@" ++
    toString quantity

/-- The book after the call and the lines written to the error stream. -/
def addLevel (book : L2Book P) (isSell : Bool) (price : P) (quantity : ℤ) :
    L2Book P × List String :=
  if book.existLevel isSell price then (book, [alreadyExists quantity])
  else (book.setBook isSell ((book.books isSell).insert price ⟨price, quantity⟩), [])

def updateLevel (book : L2Book P) (isSell : Bool) (price : P) (quantity : ℤ) : L2Book P :=
  if book.existLevel isSell price then
    book.setBook isSell ((book.books isSell).insert price ⟨price, quantity⟩)
  else book

def removeLevel (book : L2Book P) (isSell : Bool) (price : P) : L2Book P :=
  if book.existLevel isSell price then
    book.setBook isSell ((book.books isSell).erase price)
  else book

/-- The levels of one side from its best price on. -/
def levels (book : L2Book P) (isSell : Bool) : L2SnapshotSide P :=
  (book.books isSell).entries.map Prod.snd

/-- The rows of `operator<<`, each with the flag its letter stands for: the asks
from the last to the best, then the bids from the best on. -/
def rows (book : L2Book P) : List (Bool × L2PriceLevel P) :=
  (book.levels true).reverse.map (Prod.mk true) ++ (book.levels false).map (Prod.mk false)

end L2Book

/-- Calls of the public interface. -/
inductive L2Call (P : Type) where
  | existLevel (isSell : Bool) (price : P)
  | getL2Level (isSell : Bool) (price : P)
  | addLevel (isSell : Bool) (price : P) (quantity : ℤ)
  | updateLevel (isSell : Bool) (price : P) (quantity : ℤ)
  | removeLevel (isSell : Bool) (price : P)
  deriving DecidableEq, Repr

/-- What a call hands back: whether the level exists, the level it reads, and the
lines it writes to the error stream. -/
structure L2Answer (P : Type) where
  exist : Option Bool
  level : Option (L2PriceLevel P)
  errors : List String
  deriving DecidableEq, Repr

namespace L2Call

/-- The side and the price a call is about. -/
def cell : L2Call P → Bool × P
  | .existLevel isSell price => (isSell, price)
  | .getL2Level isSell price => (isSell, price)
  | .addLevel isSell price _ => (isSell, price)
  | .updateLevel isSell price _ => (isSell, price)
  | .removeLevel isSell price => (isSell, price)

/-- What a call leaves stored at its price, given what was stored there. -/
def store [Zero P] : L2Call P → Option (L2PriceLevel P) → Option (L2PriceLevel P)
  | .existLevel _ _, stored => stored
  | .getL2Level _ _, stored => some (stored.getD ⟨0, 0⟩)
  | .addLevel _ price quantity, stored => some (stored.getD ⟨price, quantity⟩)
  | .updateLevel _ price quantity, stored => stored.map fun _ => ⟨price, quantity⟩
  | .removeLevel _ _, _ => none

/-- What a call answers, given what was stored at its price. -/
def answer [Zero P] : L2Call P → Option (L2PriceLevel P) → L2Answer P
  | .existLevel _ _, stored => ⟨some stored.isSome, none, []⟩
  | .getL2Level _ _, stored => ⟨none, some (stored.getD ⟨0, 0⟩), []⟩
  | .addLevel _ _ quantity, some _ => ⟨none, none, [L2Book.alreadyExists quantity]⟩
  | _, _ => ⟨none, none, []⟩

end L2Call

/-- The answers of a list of calls at one cell, and what they leave there. -/
def cellCalls [Zero P] (stored : Option (L2PriceLevel P)) :
    List (L2Call P) → Option (L2PriceLevel P) × List (L2Call P × L2Answer P)
  | [] => (stored, [])
  | call :: calls =>
      let (final, answers) := cellCalls (call.store stored) calls
      (final, (call, call.answer stored) :: answers)

namespace L2Book

def call [Zero P] (book : L2Book P) : L2Call P → L2Book P × L2Answer P
  | .existLevel isSell price => (book, ⟨some (book.existLevel isSell price), none, []⟩)
  | .getL2Level isSell price =>
      let (level, next) := book.getL2Level isSell price
      (next, ⟨none, some level, []⟩)
  | .addLevel isSell price quantity =>
      let (next, errors) := book.addLevel isSell price quantity
      (next, ⟨none, none, errors⟩)
  | .updateLevel isSell price quantity =>
      (book.updateLevel isSell price quantity, ⟨none, none, []⟩)
  | .removeLevel isSell price => (book.removeLevel isSell price, ⟨none, none, []⟩)

/-- A list of calls one after another, each with what it answers. -/
def calls [Zero P] (book : L2Book P) :
    List (L2Call P) → L2Book P × List (L2Call P × L2Answer P)
  | [] => (book, [])
  | first :: later =>
      let (next, answer) := book.call first
      let (final, answers) := next.calls later
      (final, (first, answer) :: answers)

/-- What is stored on a side under a price. -/
def stored (book : L2Book P) (cell : Bool × P) : Option (L2PriceLevel P) :=
  (book.books cell.1).find? cell.2

theorem existLevel_eq_false_iff {book : L2Book P} {isSell : Bool} {price : P} :
    book.existLevel isSell price = false ↔ book.stored (isSell, price) = none := by
  simp [existLevel, stored]

theorem ext_stored {first second : L2Book P}
    (same : ∀ cell, first.stored cell = second.stored cell) : first = second := by
  obtain ⟨firstBooks⟩ := first
  obtain ⟨secondBooks⟩ := second
  congr 1
  funext isSell
  apply SortedMap.ext_find?
  intro price
  exact same (isSell, price)

section Calls

variable [Zero P]

/-- A call that leaves the book alone stores what was stored. -/
theorem stored_of_unchanged {book : L2Book P} {call : L2Call P}
    (unchanged : (book.call call).1 = book)
    (same : call.store (book.stored call.cell) = book.stored call.cell) (cell : Bool × P) :
    (book.call call).1.stored cell =
      if cell = call.cell then call.store (book.stored call.cell) else book.stored cell := by
  rw [unchanged, same]
  split
  · next atTarget => rw [atTarget]
  · rfl

/-- A call that writes one map at its price stores what it writes. -/
theorem stored_of_written {book : L2Book P} {call : L2Call P}
    (levels : SortedMap P (L2PriceLevel P) (PriceComparator call.cell.1))
    (wrote : (book.call call).1 = book.setBook call.cell.1 levels)
    (written : ∀ price, levels.find? price = if price = call.cell.2 then
      call.store (book.stored call.cell) else (book.books call.cell.1).find? price)
    (cell : Bool × P) :
    (book.call call).1.stored cell =
      if cell = call.cell then call.store (book.stored call.cell) else book.stored cell := by
  rw [wrote]
  obtain ⟨side, price⟩ := cell
  simp only [stored, setBook, Prod.ext_iff]
  by_cases same : side = call.cell.1
  · subst same
    simp [written price, stored]
  · simp [same]

/-- A call changes what is stored at its own cell, as `store` says, and nothing else. -/
theorem stored_call (book : L2Book P) (call : L2Call P) (cell : Bool × P) :
    (book.call call).1.stored cell =
      if cell = call.cell then call.store (book.stored call.cell) else book.stored cell := by
  cases call with
  | existLevel isSell price => exact stored_of_unchanged rfl rfl cell
  | getL2Level isSell price =>
      cases found : (book.books isSell).find? price with
      | none =>
          apply stored_of_written ((book.books isSell).insert price ⟨0, 0⟩)
          · simp [L2Book.call, getL2Level, found, L2Call.cell]
          · intro other
            simp [SortedMap.find?_insert, L2Call.cell, L2Call.store, stored, found]
      | some level =>
          apply stored_of_unchanged
          · simp [L2Book.call, getL2Level, found]
          · simp [L2Call.cell, L2Call.store, stored, found]
  | addLevel isSell price quantity =>
      cases found : (book.books isSell).find? price with
      | none =>
          apply stored_of_written ((book.books isSell).insert price ⟨price, quantity⟩)
          · simp [L2Book.call, L2Book.addLevel, existLevel, found, L2Call.cell]
          · intro other
            simp [SortedMap.find?_insert, L2Call.cell, L2Call.store, stored, found]
      | some level =>
          apply stored_of_unchanged
          · simp [L2Book.call, L2Book.addLevel, existLevel, found]
          · simp [L2Call.cell, L2Call.store, stored, found]
  | updateLevel isSell price quantity =>
      cases found : (book.books isSell).find? price with
      | none =>
          apply stored_of_unchanged
          · simp [L2Book.call, L2Book.updateLevel, existLevel, found]
          · simp [L2Call.cell, L2Call.store, stored, found]
      | some level =>
          apply stored_of_written ((book.books isSell).insert price ⟨price, quantity⟩)
          · simp [L2Book.call, L2Book.updateLevel, existLevel, found, L2Call.cell]
          · intro other
            simp [SortedMap.find?_insert, L2Call.cell, L2Call.store, stored, found]
  | removeLevel isSell price =>
      cases found : (book.books isSell).find? price with
      | none =>
          apply stored_of_unchanged
          · simp [L2Book.call, L2Book.removeLevel, existLevel, found]
          · simp [L2Call.cell, L2Call.store, stored, found]
      | some level =>
          apply stored_of_written ((book.books isSell).erase price)
          · simp [L2Book.call, L2Book.removeLevel, existLevel, found, L2Call.cell]
          · intro other
            exact SortedMap.find?_erase (book.books isSell) price other

theorem answer_call (book : L2Book P) (call : L2Call P) :
    (book.call call).2 = call.answer (book.stored call.cell) := by
  cases call with
  | existLevel isSell price => rfl
  | getL2Level isSell price =>
      cases found : (book.books isSell).find? price with
      | none => simp [L2Book.call, getL2Level, found, L2Call.cell, L2Call.answer, stored]
      | some level => simp [L2Book.call, getL2Level, found, L2Call.cell, L2Call.answer, stored]
  | addLevel isSell price quantity =>
      cases found : (book.books isSell).find? price with
      | none =>
          simp [L2Book.call, L2Book.addLevel, existLevel, found, L2Call.cell, L2Call.answer,
            stored]
      | some level =>
          simp [L2Book.call, L2Book.addLevel, existLevel, found, L2Call.cell, L2Call.answer,
            stored]
  | updateLevel isSell price quantity => rfl
  | removeLevel isSell price => rfl

/-- A cell sees its own calls only, in their order. -/
theorem calls_at (book : L2Book P) (calls : List (L2Call P)) (cell : Bool × P) :
    ((book.calls calls).1.stored cell,
      (book.calls calls).2.filter fun answered => answered.1.cell = cell) =
        cellCalls (book.stored cell) (calls.filter fun call => call.cell = cell) := by
  induction calls generalizing book with
  | nil => rfl
  | cons call calls ih =>
      have later := ih (book.call call).1
      rw [stored_call] at later
      by_cases here : call.cell = cell
      · rw [if_pos here.symm, here] at later
        simp only [L2Book.calls, List.filter_cons, here, decide_true, if_true, cellCalls,
          ← later, answer_call]
      · rw [if_neg (Ne.symm here)] at later
        simpa [L2Book.calls, List.filter_cons, here] using later

theorem calls_concat (book : L2Book P) (calls : List (L2Call P)) (last : L2Call P) :
    (book.calls (calls ++ [last])).1 = ((book.calls calls).1.call last).1 := by
  induction calls generalizing book with
  | nil => rfl
  | cons call calls ih => exact ih (book.call call).1

/-- A level that `getL2Level` created and that no later call has written or removed. -/
def Phantom (calls : List (L2Call P)) (isSell : Bool) (price : P) : Prop :=
  ∃ earlier later, calls = earlier ++ .getL2Level isSell price :: later ∧
    (empty.calls earlier).1.existLevel isSell price = false ∧
    (∀ quantity, .updateLevel isSell price quantity ∉ later) ∧
    .removeLevel isSell price ∉ later

theorem phantom_nil (isSell : Bool) (price : P) : ¬ Phantom [] isSell price := by
  rintro ⟨earlier, later, split, -⟩
  simp at split

theorem phantom_concat {calls : List (L2Call P)} {last : L2Call P} {isSell : Bool} {price : P} :
    Phantom (calls ++ [last]) isSell price ↔
      last = .getL2Level isSell price ∧
          (empty.calls calls).1.existLevel isSell price = false ∨
        Phantom calls isSell price ∧ (∀ quantity, last ≠ .updateLevel isSell price quantity) ∧
          last ≠ .removeLevel isSell price := by
  constructor
  · rintro ⟨earlier, later, split, missing, unwritten, unremoved⟩
    rcases List.eq_nil_or_concat later with rfl | ⟨others, final, rfl⟩
    · obtain ⟨rfl, lastEq⟩ := List.append_inj' split rfl
      exact Or.inl ⟨by simpa using lastEq, missing⟩
    · rw [List.concat_eq_append] at split unwritten unremoved
      rw [← List.cons_append, ← List.append_assoc] at split
      obtain ⟨rfl, lastEq⟩ := List.append_inj' split rfl
      simp only [List.cons.injEq, and_true] at lastEq
      subst lastEq
      refine Or.inr ⟨⟨earlier, others, rfl, missing, ?_, ?_⟩, ?_, ?_⟩
      · intro quantity mem
        exact unwritten quantity (by simp [mem])
      · intro mem
        exact unremoved (by simp [mem])
      · rintro quantity rfl
        exact unwritten quantity (by simp)
      · rintro rfl
        exact unremoved (by simp)
  · rintro (⟨rfl, missing⟩ | ⟨⟨earlier, later, rfl, missing, unwritten, unremoved⟩, kept⟩)
    · exact ⟨calls, [], rfl, missing, by simp, by simp⟩
    · refine ⟨earlier, later ++ [last], by simp, missing, ?_, ?_⟩
      · intro quantity mem
        rcases List.mem_append.mp mem with mem | mem
        · exact unwritten quantity mem
        · exact kept.1 quantity (List.mem_singleton.mp mem).symm
      · intro mem
        rcases List.mem_append.mp mem with mem | mem
        · exact unremoved mem
        · exact kept.2 (List.mem_singleton.mp mem).symm

/-- What is stored under a price: nothing, a level of that price, or a phantom. -/
inductive Shown (price : P) (phantom : Prop) : Option (L2PriceLevel P) → Prop
  | missing (real : ¬ phantom) : Shown price phantom none
  | listed (real : ¬ phantom) (quantity : ℤ) : Shown price phantom (some ⟨price, quantity⟩)
  | default (made : phantom) : Shown price phantom (some ⟨0, 0⟩)

omit [LinearOrder P] in
/-- A call at the cell keeps it in one of the three states: reading a missing
level makes a phantom, and writing or removing the level ends one. -/
theorem Shown.call {before : Option (L2PriceLevel P)} {phantom : Prop} {call : L2Call P}
    {isSell : Bool} {price : P} (here : call.cell = (isSell, price))
    (shown : Shown price phantom before) :
    Shown price (call = .getL2Level isSell price ∧ before = none ∨
      phantom ∧ (∀ quantity, call ≠ .updateLevel isSell price quantity) ∧
        call ≠ .removeLevel isSell price) (call.store before) := by
  cases call with
  | existLevel side key =>
      cases shown with
      | missing real => exact .missing (by simp [real])
      | listed real quantity => exact .listed (by simp [real]) quantity
      | default made => exact .default (by simp [made])
  | getL2Level side key =>
      obtain ⟨rfl, rfl⟩ := Prod.mk.inj here
      cases shown with
      | missing real => exact .default (by simp)
      | listed real quantity => exact .listed (by simp [real]) quantity
      | default made => exact .default (by simp [made])
  | addLevel side key quantity =>
      obtain ⟨rfl, rfl⟩ := Prod.mk.inj here
      cases shown with
      | missing real => exact .listed (by simp [real]) quantity
      | listed real held => exact .listed (by simp [real]) held
      | default made => exact .default (by simp [made])
  | updateLevel side key quantity =>
      obtain ⟨rfl, rfl⟩ := Prod.mk.inj here
      cases shown with
      | missing real => exact .missing (by simp)
      | listed real held => exact .listed (by simp) quantity
      | default made => exact .listed (by simp) quantity
  | removeLevel side key =>
      obtain ⟨rfl, rfl⟩ := Prod.mk.inj here
      exact .missing (by simp)

theorem shown_calls (calls : List (L2Call P)) (isSell : Bool) (price : P) :
    Shown price (Phantom calls isSell price) ((empty.calls calls).1.stored (isSell, price)) := by
  induction calls using List.reverseRecOn with
  | nil => exact .missing (phantom_nil isSell price)
  | append_singleton calls last ih =>
      rw [calls_concat, stored_call, phantom_concat, existLevel_eq_false_iff]
      split
      · next here =>
          rw [← here]
          exact ih.call here.symm
      · next elsewhere =>
          have same : (last = .getL2Level isSell price ∧
              (empty.calls calls).1.stored (isSell, price) = none ∨
                Phantom calls isSell price ∧
                  (∀ quantity, last ≠ .updateLevel isSell price quantity) ∧
                    last ≠ .removeLevel isSell price) ↔ Phantom calls isSell price := by
            constructor
            · rintro (⟨rfl, -⟩ | ⟨made, -⟩)
              · exact (elsewhere rfl).elim
              · exact made
            · intro made
              refine Or.inr ⟨made, ?_, ?_⟩
              · rintro quantity rfl
                exact elsewhere rfl
              · rintro rfl
                exact elsewhere rfl
          rwa [same]

end Calls

end L2Book

/-- Two lists of calls that agree on each side and price, in whatever way they
interleave the prices, leave the same book and get the same answers there. -/
theorem l2Calls_interleave [Zero P] (book : L2Book P) {first second : List (L2Call P)}
    (sameAt : ∀ cell : Bool × P, (first.filter fun call => call.cell = cell) =
      second.filter fun call => call.cell = cell) :
    (book.calls first).1 = (book.calls second).1 ∧
    ∀ cell : Bool × P, ((book.calls first).2.filter fun answered => answered.1.cell = cell) =
      (book.calls second).2.filter fun answered => answered.1.cell = cell := by
  have cellEq (cell : Bool × P) := (book.calls_at first cell).trans
    (sameAt cell ▸ (book.calls_at second cell).symm)
  constructor
  · apply L2Book.ext_stored
    intro cell
    exact congrArg Prod.fst (cellEq cell)
  · intro cell
    exact congrArg Prod.snd (cellEq cell)

/-- Calls at a bid and at an ask, a query, a read and a refused level among them. -/
def quoteCalls : List (L2Call ℤ) :=
  [.addLevel false 99 5, .addLevel true 101 7, .existLevel false 99, .addLevel false 99 8,
    .getL2Level true 101, .removeLevel true 101]

/-- The same calls at the ask first. -/
def asksFirst : List (L2Call ℤ) :=
  [.addLevel true 101 7, .getL2Level true 101, .removeLevel true 101, .addLevel false 99 5,
    .existLevel false 99, .addLevel false 99 8]

theorem l2Calls_interleave_twoSides :
    (L2Book.empty.calls quoteCalls).1 = (L2Book.empty.calls asksFirst).1 ∧
    ((L2Book.empty.calls quoteCalls).2.filter fun answered => answered.1.cell = (false, 99)) =
        [(.addLevel false 99 5, ⟨none, none, []⟩), (.existLevel false 99, ⟨some true, none, []⟩),
          (.addLevel false 99 8, ⟨none, none, [L2Book.alreadyExists 8]⟩)] ∧
    ((L2Book.empty.calls quoteCalls).2.filter fun answered => answered.1.cell = (false, 99)) =
      (L2Book.empty.calls asksFirst).2.filter fun answered => answered.1.cell = (false, 99) := by
  have sameAt : ∀ cell : Bool × ℤ, (quoteCalls.filter fun call => call.cell = cell) =
      asksFirst.filter fun call => call.cell = cell := by
    intro cell
    simp only [quoteCalls, asksFirst, List.filter_cons, List.filter_nil]
    by_cases bid : (false, 99) = cell
    · simp [L2Call.cell, ← bid]
    · by_cases ask : (true, 101) = cell
      · simp [L2Call.cell, ← ask]
      · simp [L2Call.cell, bid, ask]
  obtain ⟨sameBook, sameAnswers⟩ := l2Calls_interleave .empty sameAt
  exact ⟨sameBook, by decide, sameAnswers (false, 99)⟩

/-- A stored level shows another price than its key exactly when `getL2Level` was
asked for it while it was missing and no later call wrote or removed it.  Such a
level is the default one, and `addLevel` does not replace it. -/
theorem l2Level_misread_iff [Zero P] (calls : List (L2Call P)) (isSell : Bool) (price : P) :
    ((∃ level, ((L2Book.empty.calls calls).1.books isSell).find? price = some level ∧
        level.price ≠ price) ↔ price ≠ 0 ∧ L2Book.Phantom calls isSell price) ∧
    (L2Book.Phantom calls isSell price →
      ((L2Book.empty.calls calls).1.books isSell).find? price = some ⟨0, 0⟩) := by
  have shown := L2Book.shown_calls calls isSell price
  simp only [L2Book.stored] at shown
  generalize ((L2Book.empty.calls calls).1.books isSell).find? price = held at shown
  cases shown with
  | missing real => simp [real]
  | listed real quantity => simp [real]
  | default made => simp [made, eq_comm]

/-! ### The L2 book of an order book -/

/-- One round of the loops of `getL2Book`. -/
def L2Book.addEntry (isSell : Bool) (state : L2Book P × List String)
    (entry : P × L3PriceLevel P) : L2Book P × List String :=
  let (next, errors) := state.1.addLevel isSell entry.1 entry.2.quantity
  (next, state.2 ++ errors)

/-- The L2 book and the lines written to the error stream. -/
def SmartOrderBook.getL2Book (book : SmartOrderBook P) : L2Book P × List String :=
  (book.sides true).levels.entries.foldl (L2Book.addEntry true)
    ((book.sides false).levels.entries.foldl (L2Book.addEntry false) (.empty, []))

namespace L2Book

variable [Zero P]

/-- The first level added under a price stays, unless one was stored before. -/
theorem stored_addEntry (isSell : Bool) (state : L2Book P × List String)
    (entry : P × L3PriceLevel P) (cell : Bool × P) :
    (addEntry isSell state entry).1.stored cell =
      if cell = (isSell, entry.1) then
        some ((state.1.stored cell).getD ⟨entry.1, entry.2.quantity⟩)
      else state.1.stored cell := by
  refine (state.1.stored_call (.addLevel isSell entry.1 entry.2.quantity) cell).trans ?_
  by_cases here : cell = (isSell, entry.1)
  · simp [L2Call.cell, L2Call.store, here]
  · simp [L2Call.cell, here]

theorem stored_addEntries (isSell : Bool) (entries : List (P × L3PriceLevel P))
    (state : L2Book P × List String) (cell : Bool × P) :
    (entries.foldl (addEntry isSell) state).1.stored cell =
      (state.1.stored cell).or (if cell.1 = isSell then
        (entries.find? fun entry => entry.1 = cell.2).map fun entry =>
          ⟨entry.1, entry.2.quantity⟩ else none) := by
  induction entries generalizing state with
  | nil => simp
  | cons entry entries ih =>
      obtain ⟨side, price⟩ := cell
      rw [List.foldl_cons, ih, stored_addEntry]
      by_cases here : side = isSell ∧ price = entry.1
      · obtain ⟨rfl, rfl⟩ := here
        cases state.1.stored (side, entry.1) with
        | none => simp
        | some level => simp
      · have elsewhere : (side, price) ≠ (isSell, entry.1) := by simpa using here
        rw [if_neg elsewhere]
        by_cases same : side = isSell
        · have later : ¬ entry.1 = price := fun priceEq => here ⟨same, priceEq.symm⟩
          simp [same, later]
        · simp [same]

theorem errors_addEntries {isSell : Bool} {entries : List (P × L3PriceLevel P)}
    {state : L2Book P × List String}
    (distinct : entries.Pairwise fun first second => first.1 ≠ second.1)
    (free : ∀ entry ∈ entries, state.1.stored (isSell, entry.1) = none) :
    (entries.foldl (addEntry isSell) state).2 = state.2 := by
  induction entries generalizing state with
  | nil => rfl
  | cons entry entries ih =>
      rw [List.pairwise_cons] at distinct
      have added : (addEntry isSell state entry).2 = state.2 := by
        have missing := existLevel_eq_false_iff.mpr (free entry (by simp))
        simp [addEntry, addLevel, missing]
      rw [List.foldl_cons, ih distinct.2, added]
      intro later mem
      rw [stored_addEntry, if_neg (by simpa using (distinct.1 later mem).symm)]
      exact free later (by simp [mem])

end L2Book

namespace SmartOrderBook

variable [Zero P] {book : SmartOrderBook P}

/-- The levels of a side as the map the L2 book keeps. -/
def l2Side (book : SmartOrderBook P) (isSell : Bool) :
    SortedMap P (L2PriceLevel P) (PriceComparator isSell) :=
  ⟨(book.sides isSell).levels.entries.map fun entry => (entry.1, ⟨entry.1, entry.2.quantity⟩),
    (List.pairwise_map.mpr (book.sides isSell).levels.sorted)⟩

omit [Zero P] in
theorem find?_l2Side (book : SmartOrderBook P) (isSell : Bool) (price : P) :
    (book.l2Side isSell).find? price =
      ((book.sides isSell).levels.entries.find? fun entry => entry.1 = price).map fun entry =>
        ⟨entry.1, entry.2.quantity⟩ := by
  simp [l2Side, SortedMap.find?, List.find?_map, Function.comp_def]

/-- The L2 book holds the levels of the two sides under their keys. -/
theorem getL2Book_books (book : SmartOrderBook P) : book.getL2Book.1 = ⟨book.l2Side⟩ := by
  apply L2Book.ext_stored
  rintro ⟨isSell, price⟩
  have empty : L2Book.empty.stored (isSell, price) = none := rfl
  rw [getL2Book, L2Book.stored_addEntries, L2Book.stored_addEntries, empty]
  simp only [L2Book.stored, find?_l2Side]
  cases isSell with
  | false => simp
  | true => simp

/-- No level is added twice, so nothing is written to the error stream. -/
theorem errors_getL2Book (book : SmartOrderBook P) : book.getL2Book.2 = [] := by
  rw [getL2Book, L2Book.errors_addEntries (SortedMap.keys_ne _),
    L2Book.errors_addEntries (SortedMap.keys_ne _)]
  · intro entry mem
    rfl
  · intro entry mem
    rw [L2Book.stored_addEntries]
    simp [L2Book.stored, L2Book.empty]

theorem levels_getL2Book (book : SmartOrderBook P) (isSell : Bool) :
    book.getL2Book.1.levels isSell = (book.sides isSell).l2View := by
  simp [getL2Book_books, L2Book.levels, l2Side, BookSide.l2View]

theorem stored_getL2Book (book : SmartOrderBook P) (isSell : Bool) (price : P) :
    book.getL2Book.1.stored (isSell, price) =
      ((book.sides isSell).levels.find? price).map fun level => ⟨price, level.quantity⟩ := by
  rw [getL2Book_books, L2Book.stored, find?_l2Side]
  cases found : (book.sides isSell).levels.entries.find? fun entry => entry.1 = price with
  | none => simp [SortedMap.find?, found]
  | some entry =>
      have keyEq : entry.1 = price := by simpa using List.find?_some found
      simp [SortedMap.find?, found, keyEq]

/-- The rows of the L2 book of an uncrossed book go down in price from line to line. -/
theorem Uncrossed.rows_descend (uncrossed : book.Uncrossed) :
    book.getL2Book.1.rows.Pairwise fun upper lower => lower.2.price < upper.2.price := by
  rw [L2Book.rows, List.pairwise_append, List.pairwise_map, List.pairwise_map,
    List.pairwise_reverse, levels_getL2Book, levels_getL2Book, BookSide.l2View, BookSide.l2View,
    List.pairwise_map, List.pairwise_map]
  refine ⟨(book.sides true).levels.sorted, (book.sides false).levels.sorted, ?_⟩
  intro ask askMem bid bidMem
  simp only [List.mem_map, List.mem_reverse] at askMem bidMem
  obtain ⟨_, ⟨askEntry, askMem, rfl⟩, rfl⟩ := askMem
  obtain ⟨_, ⟨bidEntry, bidMem, rfl⟩, rfl⟩ := bidMem
  exact uncrossed_iff_lt.mp uncrossed
    (BookSide.existLevel_iff.mpr ⟨_, SortedMap.find?_eq_some_iff.mpr bidMem⟩)
    (BookSide.existLevel_iff.mpr ⟨_, SortedMap.find?_eq_some_iff.mpr askMem⟩)

end SmartOrderBook

/-- The L2 book taken after any run shows each level of the two sides under its price, with the
quantity that its orders have left, and writes no error.  After order and trade
messages its rows go down in price from line to line. -/
theorem l2Book_of_run [Zero P] {messages : List (Message P)} {book : SmartOrderBook P}
    (run : Run SmartOrderBook.MessageStep .empty messages book)
    (allowed : ∀ message ∈ messages, message.Positive ∧ message.DistinctPrices) :
    book.getL2Book.2 = [] ∧
    (∀ isSell price, book.getL2Book.1.existLevel isSell price =
        (book.sides isSell).existLevel price ∧
      ((book.sides isSell).existLevel price = true →
        book.getL2Book.1.getL2Level isSell price =
          (((book.sides isSell).getL3Level price).getL2Level, book.getL2Book.1))) ∧
    (∀ isSell, ∀ level ∈ book.getL2Book.1.levels isSell, 0 < level.quantity ∧
      level.quantity = (((book.sides isSell).ordersAt level.price).map
        Order.getRemainingQuantity).sum) ∧
    ((∀ message ∈ messages, message.OrderOrTrade) →
      book.getL2Book.1.rows.Pairwise fun upper lower => lower.2.price < upper.2.price) := by
  have valid := SmartOrderBook.valid_of_messages run allowed
  refine ⟨book.errors_getL2Book, ?_, ?_, ?_⟩
  · intro isSell price
    have stored := book.stored_getL2Book isSell price
    simp only [L2Book.stored] at stored
    constructor
    · rw [L2Book.existLevel, stored, Option.isSome_map, BookSide.existLevel]
    · intro present
      obtain ⟨level, found⟩ := BookSide.existLevel_iff.mp present
      have priceEq : level.price = price := ((valid isSell).linked.level found).price_eq
      rw [found] at stored
      simp [L2Book.getL2Level, stored, BookSide.getL3Level, found, L3PriceLevel.getL2Level,
        priceEq]
  · intro isSell level mem
    rw [SmartOrderBook.levels_getL2Book] at mem
    refine ⟨(valid isSell).l2View_pos level mem, ?_⟩
    rw [← BookSide.quantityAt_of_mem_l2View mem, (valid isSell).quantityAt_eq]
    rfl
  · intro streams
    have uncrossed := (run.invariant (fun message => message.Positive ∧ message.OrderOrTrade)
      (fun book => book.Valid {0} ∧ book.Uncrossed)
      ⟨SmartOrderBook.valid_empty, SmartOrderBook.uncrossed_empty⟩ ?_ ?_).2
    · exact uncrossed.rows_descend
    · rintro state next message ⟨positive, stream⟩ ⟨valid, uncrossed⟩ stepped
      exact ⟨valid.messageStep (Set.mem_singleton 0) positive (Or.inl stream.distinctPrices)
        stepped, uncrossed.messageStep valid positive stream stepped⟩
    · exact fun message mem => ⟨(allowed message mem).1, streams message mem⟩

/-- A bid takes the best of two asks and rests above another bid. -/
def quoteMessages : List (Message ℤ) :=
  [.add ⟨.add, 1, true, 10, 100⟩, .add ⟨.add, 2, true, 5, 102⟩, .add ⟨.add, 3, false, 4, 99⟩,
    .add ⟨.add, 4, false, 12, 101⟩]

theorem l2Book_of_quoteMessages :
    ∃ book, Run SmartOrderBook.MessageStep .empty quoteMessages book ∧
      book.getL2Book.1.rows =
        [(true, ⟨102, 5⟩), (false, ⟨101, 2⟩), (false, ⟨99, 4⟩)] ∧
      book.getL2Book.1.rows.Pairwise fun upper lower => lower.2.price < upper.2.price := by
  have processed : ∃ book, SmartOrderBook.empty.processAll 9 quoteMessages = .ok book ∧
      book.getL2Book.1.rows =
        [(true, ⟨102, 5⟩), (false, ⟨101, 2⟩), (false, ⟨99, 4⟩)] := ⟨_, rfl, rfl⟩
  obtain ⟨book, processed, rowsEq⟩ := processed
  have run := SmartOrderBook.run_of_processAll 9 processed
  exact ⟨book, run, rowsEq, (l2Book_of_run run (by decide)).2.2.2 (by decide)⟩

/-! ### Snapshots of the L2 book -/

/-- The snapshot message that shows the levels of an L2 book. -/
def L2Book.toSnapshot (book : L2Book P) : SnapshotMessage P :=
  ⟨book.levels false, book.levels true⟩

namespace BookSide

variable {isSell : Bool} {side other : BookSide P isSell}

theorem mem_l2View_iff {price : P} {quantity : ℤ} :
    ⟨price, quantity⟩ ∈ side.l2View ↔
      (side.levels.find? price).map L3PriceLevel.quantity = some quantity := by
  simp only [l2View, List.mem_map, L2PriceLevel.mk.injEq, Option.map_eq_some_iff,
    SortedMap.find?_eq_some_iff]
  constructor
  · rintro ⟨entry, mem, rfl, rfl⟩
    exact ⟨entry.2, mem, rfl⟩
  · rintro ⟨level, mem, rfl⟩
    exact ⟨_, mem, rfl, rfl⟩

/-- A side that expects nothing shows what the snapshot of another side shows. -/
theorem Valid.takes_view [Zero P] (valid : side.Valid {0}) (otherValid : other.Valid {0})
    (idle : side.l2SnapQueue = [])
    (free : ∀ id, InventedId other.l2View id → side.existOrder id = false) :
    ∃ final events, side.processL2Snapshot other.l2View = .ok (final, events) ∧
      ∀ price, (final.levels.find? price).map L3PriceLevel.quantity =
        (other.levels.find? price).map L3PriceLevel.quantity := by
  have positive := otherValid.l2View_pos
  have distinct := l2View_prices_nodup other
  refine ⟨side.reconciled other.l2View, side.reconcileEvents other.l2View, ?_, ?_⟩
  · rw [processL2Snapshot_reconciles idle,
      valid.reconcile_eq (Set.mem_singleton 0) positive distinct]
    rfl
  · intro price
    ext quantity
    rw [Option.map_eq_some_iff, valid.reconciled_view positive distinct free, mem_l2View_iff]

end BookSide

namespace SmartOrderBook

theorem levels_toSnapshot [Zero P] (book : SmartOrderBook P) (isSell : Bool) :
    book.getL2Book.1.toSnapshot.levels isSell = (book.sides isSell).l2View := by
  cases isSell with
  | false => exact book.levels_getL2Book false
  | true => exact book.levels_getL2Book true

/-- Sides with the same levels and quantities have the same L2 book. -/
theorem getL2Book_congr [Zero P] {first second : SmartOrderBook P}
    (same : ∀ isSell price, ((first.sides isSell).levels.find? price).map L3PriceLevel.quantity =
      ((second.sides isSell).levels.find? price).map L3PriceLevel.quantity) :
    first.getL2Book = second.getL2Book := by
  refine Prod.ext (L2Book.ext_stored ?_) ?_
  · rintro ⟨isSell, price⟩
    have viaQuantity (book : SmartOrderBook P) : book.getL2Book.1.stored (isSell, price) =
        (((book.sides isSell).levels.find? price).map L3PriceLevel.quantity).map
          (L2PriceLevel.mk price) := by
      rw [stored_getL2Book, Option.map_map]
      rfl
    rw [viaQuantity, viaQuantity, same]
  · rw [errors_getL2Book, errors_getL2Book]

end SmartOrderBook

/-- A book that expects nothing takes over the L2 book of any other book from the
snapshot that shows it, provided the ids the snapshot invents are free: after the
message both have the same L2 book. -/
theorem l2Book_transfers [Zero P] {source target : SmartOrderBook P}
    {sourceMessages targetMessages : List (Message P)}
    (sourceRun : Run SmartOrderBook.MessageStep .empty sourceMessages source)
    (sourceAllowed : ∀ message ∈ sourceMessages, message.Positive ∧ message.DistinctPrices)
    (targetRun : Run SmartOrderBook.MessageStep .empty targetMessages target)
    (targetAllowed : ∀ message ∈ targetMessages, message.Positive ∧ message.DistinctPrices)
    (idle : ∀ isSell, (target.sides isSell).l2SnapQueue = [])
    (free : ∀ isSell id, BookSide.InventedId (source.getL2Book.1.levels isSell) id →
      (target.sides isSell).existOrder id = false) :
    ∃ final events, target.processSnapshotMessage source.getL2Book.1.toSnapshot =
        .ok (final, events) ∧ final.getL2Book = source.getL2Book := by
  have sourceValid := SmartOrderBook.valid_of_messages sourceRun sourceAllowed
  have targetValid := SmartOrderBook.valid_of_messages targetRun targetAllowed
  have taken (isSell : Bool) := (targetValid isSell).takes_view (sourceValid isSell)
    (idle isSell) (source.levels_getL2Book isSell ▸ free isSell)
  choose sides events done view using taken
  refine ⟨⟨sides⟩, events false ++ events true, ?_, SmartOrderBook.getL2Book_congr view⟩
  refine SmartOrderBook.processSnapshotMessage_eq_ok.mpr ⟨events, rfl, fun isSell => ?_⟩
  rw [source.levels_toSnapshot]
  exact done isSell

/-- Orders of another market. -/
def otherMessages : List (Message ℤ) :=
  [.add ⟨.add, 7, true, 3, 100⟩, .add ⟨.add, 8, false, 6, 98⟩]

theorem l2Book_transfers_otherMessages :
    ∃ source target final : SmartOrderBook ℤ, ∃ events,
      Run SmartOrderBook.MessageStep .empty quoteMessages source ∧
      Run SmartOrderBook.MessageStep .empty otherMessages target ∧
      target.getL2Book.1.rows = [(true, ⟨100, 3⟩), (false, ⟨98, 6⟩)] ∧
      target.processSnapshotMessage source.getL2Book.1.toSnapshot = .ok (final, events) ∧
      final.getL2Book = source.getL2Book ∧
      final.getL2Book.1.rows = [(true, ⟨102, 5⟩), (false, ⟨101, 2⟩), (false, ⟨99, 4⟩)] := by
  have processed : ∃ source target : SmartOrderBook ℤ,
      SmartOrderBook.empty.processAll 9 quoteMessages = .ok source ∧
      SmartOrderBook.empty.processAll 9 otherMessages = .ok target ∧
      source.getL2Book.1.rows = [(true, ⟨102, 5⟩), (false, ⟨101, 2⟩), (false, ⟨99, 4⟩)] ∧
      target.getL2Book.1.rows = [(true, ⟨100, 3⟩), (false, ⟨98, 6⟩)] ∧
      (∀ isSell, (target.sides isSell).l2SnapQueue = []) ∧
      ∀ isSell, ∀ entry ∈ (target.sides isSell).orderMap.entries, entry.1 < 100 :=
    ⟨_, _, rfl, rfl, rfl, rfl, by decide, by decide⟩
  obtain ⟨source, target, sourceProcessed, targetProcessed, sourceRows, targetRows, idle, ids⟩ :=
    processed
  have sourceRun := SmartOrderBook.run_of_processAll 9 sourceProcessed
  have targetRun := SmartOrderBook.run_of_processAll 9 targetProcessed
  have free : ∀ isSell id, BookSide.InventedId (source.getL2Book.1.levels isSell) id →
      (target.sides isSell).existOrder id = false := by
    rintro isSell id ⟨above, -⟩
    rw [BookSide.existOrder, Option.isSome_eq_false_iff, Option.isNone_iff_eq_none,
      SortedMap.find?_eq_none_iff]
    intro handler mem
    exact absurd (ids isSell (id, handler) mem) (not_lt.mpr above)
  obtain ⟨final, events, done, same⟩ := l2Book_transfers sourceRun (by decide) targetRun
    (by decide) idle free
  exact ⟨source, target, final, events, sourceRun, targetRun, targetRows, done, same,
    same ▸ sourceRows⟩

end OrderBook
