import Mathlib.Order.Nat

/-!
# Queues that keep the order of insertion

A log lists everything that was ever inserted, under ids that may be used again.
The insertion number of an id is its last position in the log.  A queue of ids is in
order when the numbers increase along it: this survives removals anywhere in the
queue, and new ids at its end.
-/

namespace InsertionLog

variable {Entry Id : Type*} (key : Entry → Id)

/-- The entry under `number` is the last one inserted with the id. -/
structure Inserted (log : List Entry) (id : Id) (number : ℕ) (entry : Entry) : Prop where
  at_number : log[number]? = some entry
  key_eq : key entry = id
  last : ∀ later other, number < later → log[later]? = some other → key other ≠ id

/-- A queue of ids whose entries fit and whose numbers increase. -/
structure InOrder (log : List Entry) (fits : Entry → Prop) (queue : List Id) : Prop where
  numbered : ∀ id ∈ queue, ∃ number entry, Inserted key log id number entry ∧ fits entry
  increasing : queue.Pairwise fun first second => ∀ number entry other otherEntry,
    Inserted key log first number entry → Inserted key log second other otherEntry →
      number < other

variable {key} {log : List Entry} {id : Id} {number : ℕ} {entry new : Entry}

theorem Inserted.lt_length (inserted : Inserted key log id number entry) :
    number < log.length :=
  (List.getElem?_eq_some_iff.mp inserted.at_number).1

/-- An insertion under another id changes no number. -/
theorem inserted_append_of_ne (different : key new ≠ id) :
    Inserted key (log ++ [new]) id number entry ↔ Inserted key log id number entry := by
  constructor
  · rintro ⟨found, keyEq, last⟩
    have inside : number < log.length := by
      by_contra outside
      obtain rfl : entry = new := by
        rw [List.getElem?_append_right (not_lt.mp outside)] at found
        exact (List.mem_singleton.mp (List.mem_of_getElem? found))
      exact different keyEq
    refine ⟨by rwa [List.getElem?_append_left inside] at found, keyEq, ?_⟩
    intro later other after otherFound
    have laterInside := (List.getElem?_eq_some_iff.mp otherFound).1
    exact last later other after (by rwa [List.getElem?_append_left laterInside])
  · intro inserted
    refine ⟨by rw [List.getElem?_append_left inserted.lt_length, inserted.at_number],
      inserted.key_eq, ?_⟩
    intro later other after otherFound
    by_cases laterInside : later < log.length
    · rw [List.getElem?_append_left laterInside] at otherFound
      exact inserted.last later other after otherFound
    · rw [List.getElem?_append_right (not_lt.mp laterInside)] at otherFound
      rwa [List.mem_singleton.mp (List.mem_of_getElem? otherFound)]

/-- The last insertion of a log has its own number. -/
theorem inserted_append_self (log : List Entry) (new : Entry) :
    Inserted key (log ++ [new]) (key new) log.length new := by
  refine ⟨by simp, rfl, ?_⟩
  intro later other after found
  have inside := (List.getElem?_eq_some_iff.mp found).1
  simp only [List.length_append, List.length_singleton] at inside
  omega

theorem Inserted.number_unique {other : ℕ} {otherEntry : Entry}
    (inserted : Inserted key log id number entry)
    (otherInserted : Inserted key log id other otherEntry) : number = other := by
  rcases lt_trichotomy number other with before | same | after
  · exact (inserted.last other otherEntry before otherInserted.at_number
      otherInserted.key_eq).elim
  · exact same
  · exact (otherInserted.last number entry after inserted.at_number inserted.key_eq).elim

namespace InOrder

variable {fits : Entry → Prop} {queue : List Id}

theorem nil (log : List Entry) : InOrder key log fits [] where
  numbered := by simp
  increasing := List.Pairwise.nil

/-- Removals anywhere keep a queue in order. -/
theorem sublist {thinner : List Id} (inOrder : InOrder key log fits queue)
    (thins : thinner.Sublist queue) : InOrder key log fits thinner where
  numbered id mem := inOrder.numbered id (thins.subset mem)
  increasing := inOrder.increasing.sublist thins

/-- An insertion elsewhere keeps a queue in order. -/
theorem insert_elsewhere (inOrder : InOrder key log fits queue)
    (fresh : ∀ id ∈ queue, key new ≠ id) : InOrder key (log ++ [new]) fits queue where
  numbered id mem := by
    obtain ⟨number, entry, inserted, entryFits⟩ := inOrder.numbered id mem
    exact ⟨number, entry, (inserted_append_of_ne (fresh id mem)).mpr inserted, entryFits⟩
  increasing := by
    apply inOrder.increasing.imp_of_mem
    intro first second firstMem secondMem ordered number entry other otherEntry firstIn secondIn
    rw [inserted_append_of_ne (fresh first firstMem)] at firstIn
    rw [inserted_append_of_ne (fresh second secondMem)] at secondIn
    exact ordered number entry other otherEntry firstIn secondIn

/-- An insertion at the end keeps a queue in order. -/
theorem insert_last (inOrder : InOrder key log fits queue)
    (fresh : ∀ id ∈ queue, key new ≠ id) (newFits : fits new) :
    InOrder key (log ++ [new]) fits (queue ++ [key new]) where
  numbered id mem := by
    rcases List.mem_append.mp mem with old | last
    · exact (inOrder.insert_elsewhere fresh).numbered id old
    · obtain rfl := List.mem_singleton.mp last
      exact ⟨log.length, new, inserted_append_self log new, newFits⟩
  increasing := by
    refine List.pairwise_append.mpr
      ⟨(inOrder.insert_elsewhere fresh).increasing, List.pairwise_singleton .., ?_⟩
    intro first firstMem second secondMem number entry other otherEntry firstIn secondIn
    obtain rfl := List.mem_singleton.mp secondMem
    rw [inserted_append_of_ne (fresh first firstMem)] at firstIn
    rw [secondIn.number_unique (inserted_append_self log new)]
    exact firstIn.lt_length

end InOrder

end InsertionLog
