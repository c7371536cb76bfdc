import Mathlib.Data.List.Pairwise
import Mathlib.Data.List.Sort
import Mathlib.Order.RelClasses

/-!
# Key-sorted association maps

A finite map is a list of key-value entries whose keys strictly increase along
a chosen strict total order.  The representation is canonical, so two maps with
the same lookups are equal, and iterating a map means walking its entry list.
The first entry is the one `begin()` of an ordered container points at.
-/

/-- A finite map whose entries are listed in strictly increasing key order. -/
structure SortedMap (Key Value : Type*) (before : Key → Key → Prop) where
  entries : List (Key × Value)
  sorted : entries.Pairwise fun first second => before first.1 second.1
  deriving DecidableEq

namespace SortedMap

variable {Key Value : Type*} {before : Key → Key → Prop}

/-- The map without entries. -/
def empty : SortedMap Key Value before := ⟨[], List.Pairwise.nil⟩

/-- The first entry in key order. -/
def begin? (m : SortedMap Key Value before) : Option (Key × Value) :=
  m.entries.head?

/-- The value stored under a key. -/
def find? [DecidableEq Key] (m : SortedMap Key Value before) (key : Key) :
    Option Value :=
  (m.entries.find? fun entry => entry.1 = key).map Prod.snd

/-- Remove a key. -/
def erase [DecidableEq Key] (m : SortedMap Key Value before) (key : Key) :
    SortedMap Key Value before :=
  ⟨m.entries.filter fun entry => entry.1 ≠ key, m.sorted.filter _⟩

/-- Keep the entries whose keys satisfy a predicate. -/
def retain (m : SortedMap Key Value before) (keep : Key → Prop) [DecidablePred keep] :
    SortedMap Key Value before :=
  ⟨m.entries.filter fun entry => keep entry.1, m.sorted.filter _⟩

theorem ext_entries {first second : SortedMap Key Value before}
    (entriesEq : first.entries = second.entries) : first = second := by
  cases first
  cases second
  cases entriesEq
  rfl

@[simp]
theorem find?_empty [DecidableEq Key] (key : Key) :
    (empty : SortedMap Key Value before).find? key = none :=
  rfl

theorem begin?_eq_some_iff {m : SortedMap Key Value before} {entry : Key × Value} :
    m.begin? = some entry ↔ ∃ others, m.entries = entry :: others := by
  simp [begin?, List.head?_eq_some_iff]

theorem begin?_eq_none_iff {m : SortedMap Key Value before} :
    m.begin? = none ↔ m.entries = [] := by
  simp [begin?]

theorem exists_begin? [DecidableEq Key] {m : SortedMap Key Value before} {key : Key}
    {value : Value} (found : m.find? key = some value) :
    ∃ entry, m.begin? = some entry := by
  cases first : m.begin? with
  | none =>
      rw [begin?_eq_none_iff] at first
      simp [find?, first] at found
  | some entry => exact ⟨entry, rfl⟩

section Order

variable [IsStrictTotalOrder Key before]

/-- The keys before a given one, the new entry, and the keys after it. -/
theorem sorted_around [DecidableRel before]
    (m : SortedMap Key Value before) (key : Key) (value : Value) :
    (m.entries.filter (fun entry => before entry.1 key) ++ (key, value) ::
        m.entries.filter (fun entry => before key entry.1)).Pairwise
      fun first second => before first.1 second.1 := by
  rw [List.pairwise_append]
  refine ⟨m.sorted.filter _, List.pairwise_cons.mpr ⟨?_, m.sorted.filter _⟩, ?_⟩
  · intro entry entryMem
    simpa using (List.mem_filter.mp entryMem).2
  · intro lower lowerMem upper upperMem
    have lowerBefore : before lower.1 key := by
      simpa using (List.mem_filter.mp lowerMem).2
    rcases List.mem_cons.mp upperMem with rfl | upperMem
    · exact lowerBefore
    · have upperAfter : before key upper.1 := by
        simpa using (List.mem_filter.mp upperMem).2
      exact Trans.trans lowerBefore upperAfter

/-- Store a value under a key, replacing any earlier one. -/
def insert [DecidableRel before] (m : SortedMap Key Value before)
    (key : Key) (value : Value) : SortedMap Key Value before :=
  ⟨m.entries.filter (fun entry => before entry.1 key) ++ (key, value) ::
      m.entries.filter (fun entry => before key entry.1),
    sorted_around m key value⟩

theorem before_ne {first second : Key} (ordered : before first second) :
    first ≠ second := by
  rintro rfl
  exact irrefl first ordered

theorem keys_ne (m : SortedMap Key Value before) :
    m.entries.Pairwise fun first second => first.1 ≠ second.1 := by
  apply m.sorted.imp
  intro first second ordered
  exact before_ne ordered

/-- A key has at most one entry. -/
theorem entry_unique (m : SortedMap Key Value before) {key : Key}
    {first second : Value} (firstMem : (key, first) ∈ m.entries)
    (secondMem : (key, second) ∈ m.entries) : first = second := by
  by_contra different
  have pairNe : (key, first) ≠ (key, second) := fun equal =>
    different (Prod.mk.inj equal).2
  have symmetric : Std.Symm fun (first second : Key × Value) => first.1 ≠ second.1 :=
    ⟨fun _ _ distinct => distinct.symm⟩
  exact List.Pairwise.forall m.keys_ne firstMem secondMem pairNe rfl

theorem find?_eq_some_iff [DecidableEq Key] {m : SortedMap Key Value before}
    {key : Key} {value : Value} :
    m.find? key = some value ↔ (key, value) ∈ m.entries := by
  constructor
  · intro found
    obtain ⟨entry, entryFound, rfl⟩ := Option.map_eq_some_iff.mp found
    have keyEq : entry.1 = key := by simpa using List.find?_some entryFound
    exact keyEq ▸ List.mem_of_find?_eq_some entryFound
  · intro mem
    cases search : m.entries.find? fun entry => entry.1 = key with
    | none =>
        have absent := List.find?_eq_none.mp search (key, value) mem
        simp at absent
    | some entry =>
        have keyEq : entry.1 = key := by simpa using List.find?_some search
        have entryMem : (key, entry.2) ∈ m.entries :=
          keyEq ▸ List.mem_of_find?_eq_some search
        simp [find?, search, m.entry_unique entryMem mem]

theorem find?_eq_none_iff [DecidableEq Key] {m : SortedMap Key Value before}
    {key : Key} :
    m.find? key = none ↔ ∀ value, (key, value) ∉ m.entries := by
  constructor
  · intro absent value mem
    rw [find?_eq_some_iff.mpr mem] at absent
    cases absent
  · intro absent
    cases found : m.find? key with
    | none => rfl
    | some value => exact (absent value (find?_eq_some_iff.mp found)).elim

/-- Maps with the same lookups are the same map. -/
theorem ext_find? [DecidableEq Key] {first second : SortedMap Key Value before}
    (lookupEq : ∀ key, first.find? key = second.find? key) : first = second := by
  have memIff : ∀ entry, entry ∈ first.entries ↔ entry ∈ second.entries := by
    rintro ⟨key, value⟩
    rw [← find?_eq_some_iff, ← find?_eq_some_iff, lookupEq]
  have nodup (m : SortedMap Key Value before) : m.entries.Nodup :=
    m.keys_ne.imp fun different equal => different (congrArg Prod.fst equal)
  apply ext_entries
  refine List.Perm.eq_of_pairwise ?_ first.sorted second.sorted
    ((List.perm_ext_iff_of_nodup (nodup first) (nodup second)).mpr memIff)
  intro lower upper _ _ ordered reversed
  exact (irrefl lower.1 (Trans.trans ordered reversed : before lower.1 lower.1)).elim

theorem mem_insert_iff [DecidableRel before] {m : SortedMap Key Value before}
    {key other : Key} {value found : Value} :
    (other, found) ∈ (m.insert key value).entries ↔
      other = key ∧ found = value ∨ other ≠ key ∧ (other, found) ∈ m.entries := by
  simp only [insert, List.mem_append, List.mem_cons, List.mem_filter, Prod.mk.injEq,
    decide_eq_true_eq]
  constructor
  · rintro (⟨mem, ordered⟩ | same | ⟨mem, ordered⟩)
    · exact Or.inr ⟨before_ne ordered, mem⟩
    · exact Or.inl same
    · exact Or.inr ⟨(before_ne ordered).symm, mem⟩
  · rintro (same | ⟨different, mem⟩)
    · exact Or.inr (Or.inl same)
    · rcases trichotomous_of before other key with ordered | equal | ordered
      · exact Or.inl ⟨mem, ordered⟩
      · exact (different equal).elim
      · exact Or.inr (Or.inr ⟨mem, ordered⟩)

@[simp]
theorem find?_insert_self [DecidableEq Key] [DecidableRel before]
    (m : SortedMap Key Value before) (key : Key) (value : Value) :
    (m.insert key value).find? key = some value :=
  find?_eq_some_iff.mpr (mem_insert_iff.mpr (Or.inl ⟨rfl, rfl⟩))

theorem find?_insert_of_ne [DecidableEq Key] [DecidableRel before]
    (m : SortedMap Key Value before) {key other : Key} (value : Value)
    (different : other ≠ key) :
    (m.insert key value).find? other = m.find? other := by
  ext found
  simp [find?_eq_some_iff, mem_insert_iff, different]

theorem find?_insert [DecidableEq Key] [DecidableRel before]
    (m : SortedMap Key Value before) (key other : Key) (value : Value) :
    (m.insert key value).find? other =
      if other = key then some value else m.find? other := by
  split
  · next same => rw [same, find?_insert_self]
  · next different => exact find?_insert_of_ne m value different

theorem find?_erase [DecidableEq Key] (m : SortedMap Key Value before)
    (key other : Key) :
    (m.erase key).find? other = if other = key then none else m.find? other := by
  ext found
  rw [find?_eq_some_iff]
  split
  · next same => simp [erase, same]
  · next different => simp [erase, different, find?_eq_some_iff]

@[simp]
theorem find?_erase_self [DecidableEq Key] (m : SortedMap Key Value before)
    (key : Key) : (m.erase key).find? key = none := by
  simp [find?_erase]

theorem find?_erase_of_ne [DecidableEq Key] (m : SortedMap Key Value before)
    {key other : Key} (different : other ≠ key) :
    (m.erase key).find? other = m.find? other := by
  simp [find?_erase, different]

theorem find?_foldl_erase [DecidableEq Key] (m : SortedMap Key Value before) (keys : List Key)
    (key : Key) :
    (keys.foldl erase m).find? key = if key ∈ keys then none else m.find? key := by
  induction keys generalizing m with
  | nil => simp
  | cons first keys ih =>
      rw [List.foldl_cons, ih, find?_erase]
      by_cases later : key ∈ keys
      · simp [later]
      · simp [later]

theorem isSome_of_foldl_erase [DecidableEq Key] {keys : List Key} {key : Key}
    {m : SortedMap Key Value before}
    (present : ((keys.foldl erase m).find? key).isSome = true) :
    (m.find? key).isSome = true := by
  induction keys generalizing m with
  | nil => exact present
  | cons gone keys ih =>
      have later := ih present
      rw [find?_erase] at later
      split at later
      · cases later
      · exact later

theorem find?_retain [DecidableEq Key] (m : SortedMap Key Value before)
    (keep : Key → Prop) [DecidablePred keep] (key : Key) :
    (m.retain keep).find? key = if keep key then m.find? key else none := by
  ext found
  rw [find?_eq_some_iff]
  split
  · next kept => simp [retain, kept, find?_eq_some_iff]
  · next dropped => simp [retain, dropped]

theorem insert_find?_self [DecidableEq Key] [DecidableRel before]
    {m : SortedMap Key Value before} {key : Key} {value : Value}
    (found : m.find? key = some value) : m.insert key value = m := by
  apply ext_find?
  intro other
  rw [find?_insert]
  split
  · next same => rw [same, found]
  · rfl

theorem erase_of_find?_none [DecidableEq Key] {m : SortedMap Key Value before}
    {key : Key} (absent : m.find? key = none) : m.erase key = m := by
  apply ext_find?
  intro other
  rw [find?_erase]
  split
  · next same => rw [same, absent]
  · rfl

@[simp]
theorem insert_insert [DecidableEq Key] [DecidableRel before]
    (m : SortedMap Key Value before) (key : Key) (first second : Value) :
    (m.insert key first).insert key second = m.insert key second := by
  apply ext_find?
  intro other
  simp only [find?_insert]
  split <;> rfl

@[simp]
theorem erase_insert [DecidableEq Key] [DecidableRel before]
    (m : SortedMap Key Value before) (key : Key) (value : Value) :
    (m.insert key value).erase key = m.erase key := by
  apply ext_find?
  intro other
  simp only [find?_erase, find?_insert]
  split <;> rfl

/-- Storing under a present key replaces its value in place. -/
theorem entries_insert_of_find? [DecidableEq Key] [DecidableRel before]
    {m : SortedMap Key Value before} {key : Key} {old : Value}
    (found : m.find? key = some old) (value : Value) :
    (m.insert key value).entries =
      m.entries.map fun entry => if entry.1 = key then (key, value) else entry := by
  have keysEq : (m.entries.map fun entry =>
      if entry.1 = key then (key, value) else entry).Pairwise
        fun first second => before first.1 second.1 := by
    rw [List.pairwise_map]
    apply m.sorted.imp
    intro first second ordered
    have firstKey : (if first.1 = key then (key, value) else first).1 = first.1 := by
      split
      · next same => exact same.symm
      · rfl
    have secondKey : (if second.1 = key then (key, value) else second).1 = second.1 := by
      split
      · next same => exact same.symm
      · rfl
    rwa [firstKey, secondKey]
  have replaced : m.insert key value = ⟨_, keysEq⟩ := by
    apply ext_find?
    intro other
    ext result
    rw [find?_eq_some_iff, find?_eq_some_iff, mem_insert_iff, List.mem_map]
    constructor
    · rintro (⟨rfl, rfl⟩ | ⟨different, mem⟩)
      · exact ⟨_, find?_eq_some_iff.mp found, by simp⟩
      · exact ⟨_, mem, by simp [different]⟩
    · rintro ⟨entry, mem, entryEq⟩
      split at entryEq
      · exact Or.inl ⟨(Prod.mk.inj entryEq).1.symm, (Prod.mk.inj entryEq).2.symm⟩
      · next different =>
          subst entryEq
          exact Or.inr ⟨different, mem⟩
  exact congrArg entries replaced

section First

variable {m : SortedMap Key Value before}
  {key : Key} {value : Value} {others : List (Key × Value)}

theorem find?_of_begin? [DecidableEq Key] (first : m.begin? = some (key, value)) :
    m.find? key = some value := by
  obtain ⟨others, entriesEq⟩ := begin?_eq_some_iff.mp first
  exact find?_eq_some_iff.mpr (by simp [entriesEq])

/-- The first key precedes every other key of the map. -/
theorem before_of_begin? [DecidableEq Key] (first : m.begin? = some (key, value))
    {other : Key} {found : Value} (otherFound : m.find? other = some found)
    (different : other ≠ key) : before key other := by
  obtain ⟨others, entriesEq⟩ := begin?_eq_some_iff.mp first
  have sorted := m.sorted
  rw [entriesEq, List.pairwise_cons] at sorted
  have mem := find?_eq_some_iff.mp otherFound
  rw [entriesEq, List.mem_cons] at mem
  rcases mem with same | mem
  · exact (different (Prod.mk.inj same).1).elim
  · exact sorted.1 _ mem

/-- What passes to earlier keys and not to the first one fails for every key. -/
theorem none_of_begin? [DecidableEq Key] {holds : Key → Prop}
    (earlier : ∀ {first second : Key}, before first second → holds second → holds first)
    (fails : ∀ {key : Key} {value : Value}, m.begin? = some (key, value) → ¬ holds key) :
    ∀ entry ∈ m.entries, ¬ holds entry.1 := by
  rintro ⟨other, found⟩ mem otherHolds
  cases first : m.begin? with
  | none =>
      rw [begin?_eq_none_iff.mp first] at mem
      cases mem
  | some entry =>
      by_cases same : other = entry.1
      · exact fails first (same ▸ otherHolds)
      · exact fails first (earlier
          (before_of_begin? first (find?_eq_some_iff.mpr mem) same) otherHolds)

theorem entries_insert_first [DecidableRel before]
    (entriesEq : m.entries = (key, value) :: others) (replacement : Value) :
    (m.insert key replacement).entries = (key, replacement) :: others := by
  have sorted := m.sorted
  rw [entriesEq, List.pairwise_cons] at sorted
  have noneLower : m.entries.filter (fun entry => before entry.1 key) = [] := by
    rw [List.filter_eq_nil_iff]
    intro entry entryMem
    rw [entriesEq, List.mem_cons] at entryMem
    rcases entryMem with rfl | entryMem
    · simpa using irrefl key
    · simpa using asymm (sorted.1 entry entryMem)
  have allUpper :
      m.entries.filter (fun entry => before key entry.1) = others := by
    rw [entriesEq, List.filter_cons_of_neg (by simpa using irrefl key),
      List.filter_eq_self]
    intro entry entryMem
    simpa using sorted.1 entry entryMem
  simp only [insert, noneLower, allUpper, List.nil_append]

theorem entries_erase_first [DecidableEq Key]
    (entriesEq : m.entries = (key, value) :: others) :
    (m.erase key).entries = others := by
  have sorted := m.sorted
  rw [entriesEq, List.pairwise_cons] at sorted
  simp only [erase, entriesEq]
  rw [List.filter_cons_of_neg (by simp), List.filter_eq_self]
  intro entry entryMem
  simpa using (before_ne (sorted.1 entry entryMem)).symm

end First

end Order

/-- A property of keys that passes to earlier keys holds of a first part of the
entries. -/
theorem entries_split (m : SortedMap Key Value before) (early : Key → Prop)
    [DecidablePred early]
    (down : ∀ {first second : Key}, before first second → early second → early first) :
    m.entries = m.entries.filter (fun entry => early entry.1) ++
      m.entries.filter (fun entry => ¬ early entry.1) := by
  obtain ⟨entries, sorted⟩ := m
  induction entries with
  | nil => rfl
  | cons entry entries ih =>
      rw [List.pairwise_cons] at sorted
      by_cases holds : early entry.1
      · simpa [holds] using ih sorted.2
      · have later : ∀ other ∈ entries, ¬ early other.1 :=
          fun other mem otherEarly => holds (down (sorted.1 other mem) otherEarly)
        have noneLater : entries.filter (fun entry => early entry.1) = [] :=
          List.filter_eq_nil_iff.mpr (by simpa using later)
        have allLater : entries.filter (fun entry => ¬ early entry.1) = entries :=
          List.filter_eq_self.mpr (by simpa using later)
        simp only [List.filter_cons]
        simp only [holds, noneLater, not_false_eq_true, decide_true, decide_false, if_true,
          List.nil_append, allLater, Bool.false_eq_true, if_false]

/-! ### Renamed keys -/

section Rekey

variable {Other Image : Type*} {after : Other → Other → Prop}

/-- The map with renamed keys and mapped values, in the same order. -/
def rekey (m : SortedMap Key Value before) (rename : Key ≃ Other) (image : Value → Image)
    (keeps : ∀ {first second : Key}, before first second →
      after (rename first) (rename second)) : SortedMap Other Image after :=
  ⟨m.entries.map fun entry => (rename entry.1, image entry.2),
    List.pairwise_map.mpr (m.sorted.imp keeps)⟩

/-- The map with renamed keys, in the opposite order. -/
def rekeyReversed (m : SortedMap Key Value before) (rename : Key ≃ Other) (image : Value → Image)
    (flips : ∀ {first second : Key}, before first second →
      after (rename second) (rename first)) : SortedMap Other Image after :=
  ⟨(m.entries.map fun entry => (rename entry.1, image entry.2)).reverse,
    List.pairwise_reverse.mpr (List.pairwise_map.mpr (m.sorted.imp flips))⟩

theorem begin?_rekey (m : SortedMap Key Value before) (rename : Key ≃ Other)
    (image : Value → Image)
    (keeps : ∀ {first second : Key}, before first second →
      after (rename first) (rename second)) :
    (m.rekey rename image keeps).begin? =
      m.begin?.map fun entry => (rename entry.1, image entry.2) :=
  List.head?_map ..

variable [DecidableEq Key] [DecidableEq Other]

/-- One map looks up under renamed keys what the other one holds. -/
def Renames (m : SortedMap Key Value before) (rename : Key ≃ Other) (image : Value → Image)
    (renamed : SortedMap Other Image after) : Prop :=
  ∀ key, renamed.find? (rename key) = (m.find? key).map image

variable [IsStrictTotalOrder Key before] [IsStrictTotalOrder Other after]
  {m : SortedMap Key Value before} {rename : Key ≃ Other} {image : Value → Image}

theorem renames_of_entries {renamed : SortedMap Other Image after}
    (same : ∀ entry, entry ∈ renamed.entries ↔
      entry ∈ m.entries.map fun entry => (rename entry.1, image entry.2)) :
    m.Renames rename image renamed := by
  intro key
  apply Option.ext
  intro value
  rw [find?_eq_some_iff, same, Option.map_eq_some_iff]
  simp only [List.mem_map, find?_eq_some_iff, Prod.mk.injEq, EmbeddingLike.apply_eq_iff_eq]
  constructor
  · rintro ⟨⟨_, old⟩, mem, rfl, rfl⟩
    exact ⟨old, mem, rfl⟩
  · rintro ⟨old, mem, rfl⟩
    exact ⟨(key, old), mem, rfl, rfl⟩

theorem renames_rekey (m : SortedMap Key Value before)
    (keeps : ∀ {first second : Key}, before first second →
      after (rename first) (rename second)) :
    m.Renames rename image (m.rekey rename image keeps) :=
  renames_of_entries fun _ => Iff.rfl

theorem renames_rekeyReversed (m : SortedMap Key Value before)
    (flips : ∀ {first second : Key}, before first second →
      after (rename second) (rename first)) :
    m.Renames rename image (m.rekeyReversed rename image flips) :=
  renames_of_entries fun _ => List.mem_reverse

namespace Renames

variable {renamed other : SortedMap Other Image after}

omit [IsStrictTotalOrder Key before] in
theorem unique (renames : m.Renames rename image renamed)
    (otherRenames : m.Renames rename image other) : renamed = other := by
  apply ext_find?
  intro key
  rw [← rename.apply_symm_apply key, renames, otherRenames]

theorem insert [DecidableRel before] [DecidableRel after]
    (renames : m.Renames rename image renamed) (key : Key) (value : Value) :
    (m.insert key value).Renames rename image (renamed.insert (rename key) (image value)) := by
  intro found
  rw [find?_insert, find?_insert, renames found]
  by_cases same : found = key
  · rw [if_pos same, if_pos (congrArg rename same), Option.map_some]
  · rw [if_neg same, if_neg fun equal => same (rename.injective equal)]

theorem erase (renames : m.Renames rename image renamed) (key : Key) :
    (m.erase key).Renames rename image (renamed.erase (rename key)) := by
  intro found
  rw [find?_erase, find?_erase, renames found]
  by_cases same : found = key
  · rw [if_pos same, if_pos (congrArg rename same), Option.map_none]
  · rw [if_neg same, if_neg fun equal => same (rename.injective equal)]

end Renames

end Rekey

/-! ### Related values -/

section Related

variable {Other : Type*} {related : Value → Other → Prop} [DecidableEq Key]

/-- Two maps with the same keys and, under each key, related values. -/
def Related (related : Value → Other → Prop) (m : SortedMap Key Value before)
    (other : SortedMap Key Other before) : Prop :=
  ∀ key, Option.Rel related (m.find? key) (other.find? key)

namespace Related

variable {m : SortedMap Key Value before} {other : SortedMap Key Other before} {key : Key}

theorem of_some (relates : m.Related related other) {value : Value}
    (found : m.find? key = some value) :
    ∃ image, other.find? key = some image ∧ related value image := by
  have atKey := relates key
  rw [found] at atKey
  cases lookedUp : other.find? key with
  | none =>
      rw [lookedUp] at atKey
      cases atKey
  | some image =>
      rw [lookedUp] at atKey
      cases atKey with
      | some holds => exact ⟨image, rfl, holds⟩

theorem of_some_right (relates : m.Related related other) {image : Other}
    (found : other.find? key = some image) :
    ∃ value, m.find? key = some value ∧ related value image := by
  have atKey := relates key
  rw [found] at atKey
  cases lookedUp : m.find? key with
  | none =>
      rw [lookedUp] at atKey
      cases atKey
  | some value =>
      rw [lookedUp] at atKey
      cases atKey with
      | some holds => exact ⟨value, rfl, holds⟩

theorem none_iff (relates : m.Related related other) :
    m.find? key = none ↔ other.find? key = none := by
  constructor
  · intro absent
    cases found : other.find? key with
    | none => rfl
    | some image =>
        obtain ⟨value, present, -⟩ := relates.of_some_right found
        rw [absent] at present
        cases present
  · intro absent
    cases found : m.find? key with
    | none => rfl
    | some value =>
        obtain ⟨image, present, -⟩ := relates.of_some found
        rw [absent] at present
        cases present

variable [IsStrictTotalOrder Key before]

theorem insert [DecidableRel before] {value : Value} {image : Other}
    (elsewhere : ∀ found ≠ key, Option.Rel related (m.find? found) (other.find? found))
    (holds : related value image) :
    (m.insert key value).Related related (other.insert key image) := by
  intro found
  rw [find?_insert, find?_insert]
  by_cases same : found = key
  · rw [if_pos same, if_pos same]
    exact .some holds
  · rw [if_neg same, if_neg same]
    exact elsewhere found same

theorem erase
    (elsewhere : ∀ found ≠ key, Option.Rel related (m.find? found) (other.find? found)) :
    (m.erase key).Related related (other.erase key) := by
  intro found
  rw [find?_erase, find?_erase]
  by_cases same : found = key
  · rw [if_pos same, if_pos same]
    exact .none
  · rw [if_neg same, if_neg same]
    exact elsewhere found same

/-- Related maps begin at the same key, or both are empty. -/
theorem begin?_cases (relates : m.Related related other) :
    (m.begin? = none ∧ other.begin? = none) ∨
      ∃ key value image, m.begin? = some (key, value) ∧ other.begin? = some (key, image) ∧
        related value image := by
  cases first : m.begin? with
  | none =>
      cases otherFirst : other.begin? with
      | none => exact .inl ⟨rfl, rfl⟩
      | some image =>
          obtain ⟨value, found, -⟩ := relates.of_some_right (find?_of_begin? otherFirst)
          obtain ⟨entry, begins⟩ := exists_begin? found
          rw [first] at begins
          cases begins
  | some entry =>
      obtain ⟨key, value⟩ := entry
      obtain ⟨image, imageFound, holds⟩ := relates.of_some (find?_of_begin? first)
      obtain ⟨⟨otherKey, otherImage⟩, otherFirst⟩ := exists_begin? imageFound
      obtain ⟨_, found, -⟩ := relates.of_some_right (find?_of_begin? otherFirst)
      by_cases same : key = otherKey
      · subst same
        rw [find?_of_begin? otherFirst, Option.some.injEq] at imageFound
        subst imageFound
        exact .inr ⟨key, value, otherImage, rfl, otherFirst, holds⟩
      · have ahead : before key otherKey := before_of_begin? first found (Ne.symm same)
        have behind : before otherKey key := before_of_begin? otherFirst imageFound same
        exact (asymm ahead behind).elim

/-- Walking related maps meets the same keys in the same order. -/
theorem forall₂_entries (relates : m.Related related other) :
    List.Forall₂ (fun entry image => entry.1 = image.1 ∧ related entry.2 image.2)
      m.entries other.entries := by
  generalize entriesEq : m.entries = entries
  induction entries generalizing m other with
  | nil =>
      rcases relates.begin?_cases with ⟨-, none⟩ | ⟨key, value, image, first, -⟩
      · rw [begin?_eq_none_iff.mp none]
        exact .nil
      · rw [begin?_eq_none_iff.mpr entriesEq] at first
        cases first
  | cons entry entries ih =>
      have begins := begin?_eq_some_iff.mpr ⟨entries, entriesEq⟩
      rcases relates.begin?_cases with ⟨none, -⟩ | ⟨key, value, image, first, otherFirst, holds⟩
      · rw [begins] at none
        cases none
      · rw [begins, Option.some.injEq] at first
        subst first
        obtain ⟨others, otherEq⟩ := begin?_eq_some_iff.mp otherFirst
        have tails : (m.erase key).Related related (other.erase key) :=
          Related.erase fun found _ => relates found
        have tail := ih tails (entries_erase_first entriesEq)
        rw [entries_erase_first otherEq] at tail
        rw [otherEq]
        exact .cons ⟨rfl, holds⟩ tail

end Related

end Related

end SortedMap
