import Mathlib.Algebra.BigOperators.Group.List.Basic
import Mathlib.Algebra.Order.BigOperators.Group.List
import Mathlib.Algebra.Order.Ring.Int
import Mathlib.Tactic.Linarith

/-!
# Filling an amount along a queue

An amount is taken from the items of a queue one after another: every item but
the last one touched gives its whole size.  `pieces` lists what is taken from
whom, `exhausted` the items that gave everything, and `remaining` the queue
that is left.  The operations compose: taking two amounts in a row is taking
their sum, and a queue made of two parts is filled part by part.
-/

namespace QueueFill

variable {α : Type*} (size : α → ℤ) (cut : α → ℤ → α)

/-- The sum of the sizes of a queue. -/
def total (items : List α) : ℤ := (items.map size).sum

/-- The pieces taken when an amount is filled along a queue. -/
def pieces : ℤ → List α → List (α × ℤ)
  | _, [] => []
  | amount, item :: items =>
      if amount = 0 then []
      else (item, min amount (size item)) ::
        pieces (amount - min amount (size item)) items

/-- The items that are used up. -/
def exhausted : ℤ → List α → List α
  | _, [] => []
  | amount, item :: items =>
      if size item ≤ amount then item :: exhausted (amount - size item) items else []

/-- The queue that is left, its first item cut where the amount ends inside it. -/
def remaining : ℤ → List α → List α
  | _, [] => []
  | amount, item :: items =>
      if size item ≤ amount then remaining (amount - size item) items
      else cut item amount :: items

/-- A queue with its first item cut. -/
def cutFirst (amount : ℤ) : List α → List α
  | [] => []
  | item :: items => cut item amount :: items

/-- Every item of a queue has a positive size. -/
def Positive (items : List α) : Prop := ∀ item ∈ items, 0 < size item

/-- Cutting an item lowers its size, and cuts add up. -/
structure Lawful : Prop where
  size_cut : ∀ item amount, size (cut item amount) = size item - amount
  cut_cut : ∀ item first second, cut (cut item first) second = cut item (first + second)
  cut_zero : ∀ item, cut item 0 = item

/-- The pieces taken from the front of a queue until the amount or the queue ends: every
item but the last one gives everything, and none gives nothing. -/
structure Greedy (amount : ℤ) (items : List α) (taken : List (α × ℤ)) : Prop where
  ahead : taken.map Prod.fst <+: items
  full : ∀ piece ∈ taken.dropLast, piece.2 = size piece.1
  fits : ∀ piece ∈ taken, 0 < piece.2 ∧ piece.2 ≤ size piece.1
  total_eq : (taken.map Prod.snd).sum = min amount (total size items)

/-- What the pieces take from the items of one key. -/
def takenFrom {κ : Type*} [DecidableEq κ] (key : α → κ) (taken : List (α × ℤ)) (k : κ) : ℤ :=
  (taken.map fun piece => if key piece.1 = k then piece.2 else 0).sum

/-- The items with the pieces of their key cut off, without those that are used up. -/
def subtract {κ : Type*} [DecidableEq κ] (key : α → κ) (taken : List (α × ℤ))
    (items : List α) : List α :=
  (items.map fun item => cut item (takenFrom key taken (key item))).filter fun item =>
    0 < size item

section Sizes

variable {size}

@[simp]
theorem total_nil : total size [] = 0 := rfl

@[simp]
theorem total_cons (item : α) (items : List α) :
    total size (item :: items) = size item + total size items := by
  simp [total]

@[simp]
theorem total_append (first second : List α) :
    total size (first ++ second) = total size first + total size second := by
  simp [total]

theorem Positive.head {item : α} {items : List α}
    (positive : Positive size (item :: items)) : 0 < size item :=
  positive item (by simp)

theorem Positive.tail {item : α} {items : List α}
    (positive : Positive size (item :: items)) : Positive size items :=
  fun other otherMem => positive other (by simp [otherMem])

theorem sum_map_nonneg {items : List α} (nonneg : ∀ item ∈ items, 0 ≤ size item) :
    0 ≤ (items.map size).sum := by
  apply List.sum_nonneg
  intro part mem
  obtain ⟨item, itemMem, rfl⟩ := List.mem_map.mp mem
  exact nonneg item itemMem

theorem Positive.total_nonneg {items : List α} (positive : Positive size items) :
    0 ≤ total size items :=
  sum_map_nonneg fun item mem => (positive item mem).le

theorem Positive.total_pos {items : List α} (positive : Positive size items)
    (nonempty : items ≠ []) : 0 < total size items := by
  cases items with
  | nil => exact (nonempty rfl).elim
  | cons item items =>
      have itemPos := positive.head
      have itemsNonneg := positive.tail.total_nonneg
      simp only [total_cons]
      omega

@[simp]
theorem pieces_zero (items : List α) : pieces size 0 items = [] := by
  cases items <;> simp [pieces]

/-- Renaming the items of a queue keeps what is taken from whom. -/
theorem pieces_map {β : Type*} {renamedSize : β → ℤ} {rename : α → β}
    (same : ∀ item, renamedSize (rename item) = size item) (amount : ℤ) (items : List α) :
    pieces renamedSize amount (items.map rename) =
      (pieces size amount items).map (Prod.map rename id) := by
  induction items generalizing amount with
  | nil => rfl
  | cons item items ih =>
      rw [List.map_cons, pieces, pieces, same, ih]
      split
      · rfl
      · rfl

theorem exhausted_zero {items : List α} (positive : Positive size items) :
    exhausted size 0 items = [] := by
  cases items with
  | nil => rfl
  | cons item items =>
      have itemPos := positive.head
      simp [exhausted, itemPos]

theorem mem_of_mem_exhausted {items : List α} {amount : ℤ} {item : α}
    (mem : item ∈ exhausted size amount items) : item ∈ items := by
  induction items generalizing amount with
  | nil => exact mem
  | cons first items ih =>
      unfold exhausted at mem
      split at mem
      · rcases List.mem_cons.mp mem with rfl | later
        · exact List.mem_cons_self
        · exact List.mem_cons_of_mem _ (ih later)
      · cases mem

theorem pieces_append {first second : List α} {amount : ℤ}
    (positive : Positive size first) (nonneg : 0 ≤ amount) :
    pieces size amount (first ++ second) =
      pieces size amount first ++
        pieces size (amount - min amount (total size first)) second := by
  induction first generalizing amount with
  | nil =>
      simp [pieces, min_eq_right nonneg]
  | cons item items ih =>
      by_cases empty : amount = 0
      · subst empty
        have nothing : min 0 (total size (item :: items)) = 0 :=
          min_eq_left positive.total_nonneg
        rw [nothing]
        simp
      · have itemPos := positive.head
        have itemsNonneg := positive.tail.total_nonneg
        simp only [List.cons_append, pieces, if_neg empty, total_cons]
        rw [ih positive.tail (by omega)]
        congr 3
        omega

/-- The pieces taken add up to the amount, as far as the queue reaches. -/
theorem sum_pieces {items : List α} {amount : ℤ} (positive : Positive size items)
    (nonneg : 0 ≤ amount) :
    ((pieces size amount items).map Prod.snd).sum = min amount (total size items) := by
  induction items generalizing amount with
  | nil => simpa [pieces] using nonneg
  | cons item items ih =>
      by_cases empty : amount = 0
      · subst empty
        simpa using positive.total_nonneg
      · have itemPos := positive.head
        have itemsNonneg := positive.tail.total_nonneg
        simp only [pieces, if_neg empty, List.map_cons, List.sum_cons, total_cons]
        rw [ih positive.tail (by omega)]
        omega

theorem mem_pieces {items : List α} {amount piece : ℤ} {item : α}
    (positive : Positive size items) (nonneg : 0 ≤ amount)
    (taken : (item, piece) ∈ pieces size amount items) :
    item ∈ items ∧ 0 < piece ∧ piece ≤ size item := by
  induction items generalizing amount with
  | nil => simp [pieces] at taken
  | cons head items ih =>
      by_cases empty : amount = 0
      · simp [pieces, empty] at taken
      · have headPos := positive.head
        simp only [pieces, if_neg empty, List.mem_cons, Prod.mk.injEq] at taken
        rcases taken with ⟨rfl, rfl⟩ | taken
        · exact ⟨by simp, by omega, by omega⟩
        · have later := ih positive.tail (by omega) taken
          exact ⟨by simp [later.1], later.2⟩

theorem sum_nonneg_of_pieces {items : List α} {amount : ℤ} (positive : Positive size items)
    (nonneg : 0 ≤ amount) {some : List (α × ℤ)}
    (taken : ∀ piece ∈ some, piece ∈ pieces size amount items) :
    0 ≤ (some.map Prod.snd).sum :=
  sum_map_nonneg fun piece mem => (mem_pieces positive nonneg (taken piece mem)).2.1.le

/-- The first pieces take a part of the amount. -/
theorem sum_take_pieces {items : List α} {amount : ℤ} (positive : Positive size items)
    (nonneg : 0 ≤ amount) (count : ℕ) :
    0 ≤ (((pieces size amount items).take count).map Prod.snd).sum ∧
      (((pieces size amount items).take count).map Prod.snd).sum ≤ amount := by
  have laterNonneg : 0 ≤ (((pieces size amount items).drop count).map Prod.snd).sum :=
    sum_nonneg_of_pieces positive nonneg fun _ => List.mem_of_mem_drop
  have wholeSum := sum_pieces positive nonneg
  rw [← List.sum_take_add_sum_drop _ count, ← List.map_take, ← List.map_drop] at wholeSum
  refine ⟨sum_nonneg_of_pieces positive nonneg fun _ => List.mem_of_mem_take, ?_⟩
  omega

end Sizes

section Cuts

variable {size cut}

theorem remaining_zero (lawful : Lawful size cut) {items : List α}
    (positive : Positive size items) : remaining size cut 0 items = items := by
  cases items with
  | nil => rfl
  | cons item items =>
      have itemPos := positive.head
      simp [remaining, itemPos, lawful.cut_zero]

theorem remaining_eq_nil {items : List α} {amount : ℤ}
    (positive : Positive size items) (covers : total size items ≤ amount) :
    remaining size cut amount items = [] := by
  induction items generalizing amount with
  | nil => rfl
  | cons item items ih =>
      have itemsNonneg := positive.tail.total_nonneg
      simp only [total_cons] at covers
      rw [remaining, if_pos (by omega), ih positive.tail (by omega)]

theorem remaining_ne_nil {items : List α} {amount : ℤ}
    (short : amount < total size items) (nonneg : 0 ≤ amount) :
    remaining size cut amount items ≠ [] := by
  induction items generalizing amount with
  | nil =>
      simp only [total_nil] at short
      omega
  | cons item items ih =>
      simp only [total_cons] at short
      by_cases covers : size item ≤ amount
      · rw [remaining, if_pos covers]
        exact ih (by omega) (by omega)
      · simp [remaining, covers]

theorem remaining_append_of_covers {first second : List α} {amount : ℤ}
    (positive : Positive size first) (covers : total size first ≤ amount) :
    remaining size cut amount (first ++ second) =
      remaining size cut (amount - total size first) second := by
  induction first generalizing amount with
  | nil => simp
  | cons item items ih =>
      have itemsNonneg := positive.tail.total_nonneg
      simp only [total_cons] at covers
      rw [List.cons_append, remaining, if_pos (by omega), ih positive.tail (by omega)]
      congr 1
      simp only [total_cons]
      omega

theorem remaining_append_of_short {first second : List α} {amount : ℤ}
    (nonneg : 0 ≤ amount) (short : amount < total size first) :
    remaining size cut amount (first ++ second) =
      remaining size cut amount first ++ second := by
  induction first generalizing amount with
  | nil =>
      simp only [total_nil] at short
      omega
  | cons item items ih =>
      simp only [total_cons] at short
      by_cases covers : size item ≤ amount
      · rw [List.cons_append, remaining, if_pos covers, remaining, if_pos covers,
          ih (by omega) (by omega)]
      · simp [remaining, covers]

/-- What is left is the old total less the amount taken. -/
theorem total_remaining (lawful : Lawful size cut) {items : List α} {amount : ℤ}
    (positive : Positive size items) (nonneg : 0 ≤ amount) :
    total size (remaining size cut amount items) =
      total size items - min amount (total size items) := by
  induction items generalizing amount with
  | nil => simpa [remaining] using nonneg
  | cons item items ih =>
      have itemPos := positive.head
      have itemsNonneg := positive.tail.total_nonneg
      by_cases covers : size item ≤ amount
      · rw [remaining, if_pos covers, ih positive.tail (by omega), total_cons]
        omega
      · rw [remaining, if_neg covers, total_cons, total_cons, lawful.size_cut]
        omega

theorem Positive.remaining (lawful : Lawful size cut) {items : List α} {amount : ℤ}
    (positive : Positive size items) :
    Positive size (remaining size cut amount items) := by
  induction items generalizing amount with
  | nil => simpa [QueueFill.remaining] using positive
  | cons item items ih =>
      by_cases covers : size item ≤ amount
      · rw [QueueFill.remaining, if_pos covers]
        exact ih positive.tail
      · rw [QueueFill.remaining, if_neg covers]
        intro other otherMem
        rcases List.mem_cons.mp otherMem with rfl | otherMem
        · rw [lawful.size_cut]
          omega
        · exact positive.tail other otherMem

/-- Taking two amounts in a row is taking their sum. -/
theorem remaining_remaining (lawful : Lawful size cut) {items : List α}
    {first second : ℤ} (positive : Positive size items) (firstNonneg : 0 ≤ first)
    (secondNonneg : 0 ≤ second) :
    remaining size cut second (remaining size cut first items) =
      remaining size cut (first + second) items := by
  induction items generalizing first with
  | nil => rfl
  | cons item items ih =>
      have itemPos := positive.head
      by_cases covers : size item ≤ first
      · rw [remaining, if_pos covers, ih positive.tail (by omega), remaining,
          if_pos (by omega)]
        congr 1
        omega
      · rw [remaining, if_neg covers, remaining, lawful.size_cut, remaining]
        by_cases reaches : size item ≤ first + second
        · rw [if_pos (by omega), if_pos reaches]
          congr 1
          omega
        · rw [if_neg (by omega), if_neg reaches, lawful.cut_cut]

/-- After the first pieces are taken, the others are what the rest of the amount
takes from the rest of the queue. -/
theorem pieces_drop (lawful : Lawful size cut) {items : List α} {amount : ℤ}
    (positive : Positive size items) (nonneg : 0 ≤ amount) (count : ℕ) :
    (pieces size amount items).drop count =
      pieces size (amount - (((pieces size amount items).take count).map Prod.snd).sum)
        (remaining size cut (((pieces size amount items).take count).map Prod.snd).sum
          items) := by
  induction items generalizing amount count with
  | nil => simp [pieces, remaining]
  | cons item items ih =>
      cases count with
      | zero => simp [remaining_zero lawful positive]
      | succ count =>
          have itemPos := positive.head
          by_cases empty : amount = 0
          · simp [empty]
          · have laterNonneg := (sum_take_pieces positive.tail
              (show 0 ≤ amount - min amount (size item) by omega) count).1
            rw [pieces, if_neg empty]
            simp only [List.drop_succ_cons, List.take_succ_cons, List.map_cons, List.sum_cons]
            by_cases covers : size item ≤ amount
            · rw [min_eq_right covers] at laterNonneg ⊢
              rw [ih positive.tail (by omega) count, remaining, if_pos (by omega)]
              congr 1
              · omega
              · congr 1
                omega
            · -- the first item is not used up, so there is no second piece
              rw [min_eq_left (by omega), sub_self]
              simp

/-- The used-up items are a first part of the queue, and what remains is the
rest of it with at most its first item cut. -/
theorem exhausted_append {items : List α} {amount : ℤ} (nonneg : 0 ≤ amount) :
    ∃ rest left, items = exhausted size amount items ++ rest ∧
      remaining size cut amount items = cutFirst cut left rest ∧
      0 ≤ left ∧ ∀ item ∈ rest.head?, left < size item := by
  induction items generalizing amount with
  | nil => exact ⟨[], 0, rfl, rfl, le_rfl, by simp⟩
  | cons item items ih =>
      by_cases covers : size item ≤ amount
      · obtain ⟨rest, left, split, shape, bounds⟩ := ih (sub_nonneg.mpr covers)
        refine ⟨rest, left, ?_, ?_, bounds⟩
        · rw [exhausted, if_pos covers, List.cons_append, ← split]
        · rw [remaining, if_pos covers, shape]
      · refine ⟨item :: items, amount, ?_, ?_, nonneg, ?_⟩
        · rw [exhausted, if_neg covers, List.nil_append]
        · rw [remaining, if_neg covers, cutFirst]
        · simpa using covers

/-- An item of which a piece is taken is used up, or remains with the piece cut off. -/
theorem mem_pieces_cases (cut : α → ℤ → α) {items : List α} {amount piece : ℤ} {item : α}
    (nonneg : 0 ≤ amount)
    (taken : (item, piece) ∈ pieces size amount items) :
    piece = size item ∧ item ∈ exhausted size amount items ∨
      cut item piece ∈ remaining size cut amount items := by
  induction items generalizing amount with
  | nil => cases taken
  | cons first items ih =>
      unfold pieces at taken
      split at taken
      · cases taken
      · by_cases covers : size first ≤ amount
        · rw [min_eq_right covers, List.mem_cons] at taken
          rw [exhausted, if_pos covers, remaining, if_pos covers]
          rcases taken with same | later
          · obtain ⟨rfl, rfl⟩ := Prod.mk.inj same
            exact .inl ⟨rfl, List.mem_cons_self⟩
          · rcases ih (sub_nonneg.mpr covers) later with used | kept
            · exact .inl ⟨used.1, List.mem_cons_of_mem _ used.2⟩
            · exact .inr kept
        · rw [min_eq_left (not_le.mp covers).le, sub_self, pieces_zero, List.mem_singleton] at taken
          obtain ⟨rfl, rfl⟩ := Prod.mk.inj taken
          rw [remaining, if_neg covers]
          exact .inr List.mem_cons_self

theorem exhausted_eq_self {items : List α} {amount : ℤ} (positive : Positive size items)
    (covers : total size items ≤ amount) : exhausted size amount items = items := by
  induction items generalizing amount with
  | nil => rfl
  | cons item items ih =>
      rw [total_cons] at covers
      have othersNonneg := positive.tail.total_nonneg
      rw [exhausted, if_pos (by omega), ih positive.tail (by omega)]

/-- Taking more than there is takes everything. -/
theorem remaining_min {items : List α} {amount : ℤ} (positive : Positive size items) :
    remaining size cut (min amount (total size items)) items = remaining size cut amount items ∧
      exhausted size (min amount (total size items)) items = exhausted size amount items := by
  rcases le_total amount (total size items) with short | covers
  · rw [min_eq_left short]
    exact ⟨rfl, rfl⟩
  · rw [min_eq_right covers, remaining_eq_nil positive le_rfl, remaining_eq_nil positive covers,
      exhausted_eq_self positive le_rfl, exhausted_eq_self positive covers]
    exact ⟨rfl, rfl⟩

/-- The used up items come before those that are left. -/
theorem map_eq_append {β : Type*} {key : α → β}
    (stable : ∀ item amount, key (cut item amount) = key item)
    (items : List α) (amount : ℤ) :
    items.map key =
      (exhausted size amount items).map key ++ (remaining size cut amount items).map key := by
  induction items generalizing amount with
  | nil => rfl
  | cons item items ih =>
      rw [exhausted, remaining]
      split
      · rw [List.map_cons, List.map_cons, ih, List.cons_append]
      · rw [List.map_nil, List.nil_append, List.map_cons, List.map_cons, stable]

end Cuts

/-! ### Allocations -/

section Allocation

variable {size cut} {items : List α} {amount : ℤ}

theorem pieces_ahead (size : α → ℤ) (amount : ℤ) (items : List α) :
    (pieces size amount items).map Prod.fst <+: items := by
  induction items generalizing amount with
  | nil => exact List.nil_prefix
  | cons item items ih =>
      unfold pieces
      split
      · exact List.nil_prefix
      · rw [List.map_cons]
        exact (List.prefix_cons_inj item).mpr (ih _)

theorem pieces_full (nonneg : 0 ≤ amount) :
    ∀ piece ∈ (pieces size amount items).dropLast, piece.2 = size piece.1 := by
  induction items generalizing amount with
  | nil => simp [pieces]
  | cons item items ih =>
      unfold pieces
      split
      · simp
      · by_cases last : pieces size (amount - min amount (size item)) items = []
        · simp [last]
        · have more : amount - min amount (size item) ≠ 0 := by
            intro nothing
            exact last (by rw [nothing, pieces_zero])
          rw [List.dropLast_cons_of_ne_nil last]
          intro piece mem
          rcases List.mem_cons.mp mem with rfl | later
          · simp only
            omega
          · exact ih (by omega) piece later

theorem Positive.greedy_pieces (positive : Positive size items) (nonneg : 0 ≤ amount) :
    Greedy size amount items (pieces size amount items) where
  ahead := pieces_ahead size amount items
  full := pieces_full nonneg
  fits _ mem := (mem_pieces positive nonneg mem).2
  total_eq := sum_pieces positive nonneg

variable {κ : Type*} [DecidableEq κ] {key : α → κ}

@[simp]
theorem takenFrom_nil (key : α → κ) (k : κ) : takenFrom key ([] : List (α × ℤ)) k = 0 := rfl

theorem takenFrom_cons (key : α → κ) (piece : α × ℤ) (taken : List (α × ℤ)) (k : κ) :
    takenFrom key (piece :: taken) k =
      (if key piece.1 = k then piece.2 else 0) + takenFrom key taken k := rfl

@[simp]
theorem takenFrom_append (key : α → κ) (first second : List (α × ℤ)) (k : κ) :
    takenFrom key (first ++ second) k = takenFrom key first k + takenFrom key second k := by
  simp [takenFrom]

theorem takenFrom_eq_zero {taken : List (α × ℤ)} {k : κ}
    (untouched : ∀ piece ∈ taken, key piece.1 ≠ k) : takenFrom key taken k = 0 := by
  induction taken with
  | nil => rfl
  | cons piece taken ih =>
      rw [takenFrom_cons, if_neg (untouched piece List.mem_cons_self), zero_add]
      exact ih fun other mem => untouched other (List.mem_cons_of_mem _ mem)

/-- With one piece per key, what is taken under a key is its piece. -/
theorem takenFrom_of_mem {taken : List (α × ℤ)} {piece : α × ℤ}
    (nodup : (taken.map fun other => key other.1).Nodup) (mem : piece ∈ taken) :
    takenFrom key taken (key piece.1) = piece.2 := by
  induction taken with
  | nil => cases mem
  | cons first taken ih =>
      rw [List.map_cons, List.nodup_cons] at nodup
      rw [takenFrom_cons]
      rcases List.mem_cons.mp mem with rfl | later
      · have others : takenFrom key taken (key piece.1) = 0 :=
          takenFrom_eq_zero fun other otherMem same =>
            nodup.1 (List.mem_map.mpr ⟨other, otherMem, same⟩)
        rw [if_pos rfl, others, add_zero]
      · have different : key first.1 ≠ key piece.1 := fun same =>
          nodup.1 (List.mem_map.mpr ⟨piece, later, same.symm⟩)
        rw [if_neg different, ih nodup.2 later, zero_add]

theorem subtract_append (taken : List (α × ℤ)) (first second : List α) :
    subtract size cut key taken (first ++ second) =
      subtract size cut key taken first ++ subtract size cut key taken second := by
  simp [subtract]

/-- Items that no piece is taken from stay as they are. -/
theorem subtract_untouched (lawful : Lawful size cut) {taken : List (α × ℤ)}
    (positive : Positive size items)
    (untouched : ∀ item ∈ items, takenFrom key taken (key item) = 0) :
    subtract size cut key taken items = items := by
  have kept : items.map (fun item => cut item (takenFrom key taken (key item))) = items := by
    refine (List.map_congr_left fun item mem => ?_).trans (List.map_id items)
    rw [untouched item mem, lawful.cut_zero, id]
  rw [subtract, kept]
  exact List.filter_eq_self.mpr fun item mem => decide_eq_true (positive item mem)

/-- Only the amounts per key matter. -/
theorem subtract_congr {first second : List (α × ℤ)}
    (same : ∀ item ∈ items, takenFrom key first (key item) = takenFrom key second (key item)) :
    subtract size cut key first items = subtract size cut key second items := by
  rw [subtract, subtract, List.map_congr_left fun item mem => by rw [same item mem]]

/-- Subtracting what is taken along a queue leaves the queue that remains. -/
theorem subtract_pieces (lawful : Lawful size cut) (nodup : (items.map key).Nodup)
    (positive : Positive size items) (nonneg : 0 ≤ amount) :
    subtract size cut key (pieces size amount items) items = remaining size cut amount items := by
  induction items generalizing amount with
  | nil => rfl
  | cons item items ih =>
      rw [List.map_cons, List.nodup_cons] at nodup
      by_cases nothing : amount = 0
      · rw [nothing, pieces_zero, remaining_zero lawful positive]
        exact subtract_untouched lawful positive fun _ _ => rfl
      · have others : subtract size cut key
            (pieces size amount (item :: items)) items =
              remaining size cut (amount - min amount (size item)) items := by
          rw [← ih nodup.2 positive.tail (by omega)]
          apply subtract_congr
          intro other mem
          have different : key item ≠ key other := by
            intro same
            exact nodup.1 (same ▸ List.mem_map_of_mem mem)
          rw [pieces, if_neg nothing, takenFrom_cons, if_neg different, zero_add]
        have own : takenFrom key (pieces size amount (item :: items)) (key item) =
            min amount (size item) := by
          rw [pieces, if_neg nothing, takenFrom_cons, if_pos rfl, takenFrom_eq_zero, add_zero]
          intro piece mem same
          have inside : piece.1 ∈ items :=
            (pieces_ahead size _ items).subset (List.mem_map_of_mem mem)
          exact nodup.1 (same ▸ List.mem_map_of_mem inside)
        have head : subtract size cut key (pieces size amount (item :: items)) [item] =
            if size item ≤ amount then [] else [cut item amount] := by
          have sizeEq := lawful.size_cut item (min amount (size item))
          rw [subtract, List.map_singleton, own]
          split
          · next covers =>
              have used : ¬ 0 < size (cut item (min amount (size item))) := by
                rw [sizeEq]
                omega
              simp [used]
          · next short =>
              rw [min_eq_left (not_le.mp short).le] at sizeEq ⊢
              have left : 0 < size (cut item amount) := by
                rw [sizeEq]
                omega
              simp [left]
        rw [← List.singleton_append, subtract_append, List.singleton_append, head, others,
          remaining]
        split
        · next covers => rw [min_eq_right covers, List.nil_append]
        · next short =>
            rw [min_eq_left (by omega), sub_self, remaining_zero lawful positive.tail,
              List.singleton_append]

/-- Subtracting looks at each item alone. -/
theorem filter_subtract (key : α → κ) (keep : α → Prop) [DecidablePred keep]
    (stable : ∀ item amount, keep (cut item amount) ↔ keep item) (taken : List (α × ℤ))
    (items : List α) :
    (subtract size cut key taken items).filter (fun item => keep item) =
      subtract size cut key taken (items.filter fun item => keep item) := by
  rw [subtract, subtract, List.filter_filter, List.filter_map, List.filter_map, List.filter_filter]
  congr 1
  apply List.filter_congr
  intro item _
  simp [stable, Bool.and_comm]

/-- What is left of the items of one key is their old total less what is taken from them. -/
theorem total_filter_remaining {key : α → κ} (lawful : Lawful size cut)
    (stable : ∀ item amount, key (cut item amount) = key item) (positive : Positive size items)
    (nonneg : 0 ≤ amount) (k : κ) :
    total size ((remaining size cut amount items).filter fun item => key item = k) =
      total size (items.filter fun item => key item = k) -
        takenFrom key (pieces size amount items) k := by
  induction items generalizing amount with
  | nil => simp [remaining, pieces]
  | cons item items ih =>
      have itemPos := positive.head
      by_cases covers : size item ≤ amount
      · rw [remaining, if_pos covers, ih positive.tail (by omega), pieces,
          if_neg (by omega), min_eq_right covers, takenFrom_cons, List.filter_cons]
        by_cases here : key item = k
        · simp [here, total_cons]
        · simp [here]
      · rw [remaining, if_neg covers, List.filter_cons, List.filter_cons, stable]
        have pieceEq : takenFrom key (pieces size amount (item :: items)) k =
            if key item = k then amount else 0 := by
          by_cases nothing : amount = 0
          · simp [nothing, pieces_zero]
          · rw [pieces, if_neg nothing, min_eq_left (by omega), sub_self, pieces_zero,
              takenFrom_cons, takenFrom_nil, add_zero]
        rw [pieceEq]
        by_cases here : key item = k
        · simp [here, total_cons, lawful.size_cut]
          omega
        · simp [here]

end Allocation

end QueueFill
