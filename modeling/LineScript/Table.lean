/-
Tables: finite maps from names to values, kept in ascending order of
the names.

The order (by code point, character by character) is part of the type,
so a table has exactly one representation: `Table.ext` says that two
tables with the same look-ups are equal. Listings come out sorted with no
further work, and each name occurs once.
-/
import LineScript.Text.Basic

set_option autoImplicit false

namespace LineScript

/-- Entries whose names ascend strictly. -/
def Ascending {α : Type} (entries : List (Text × α)) : Prop :=
  entries.Pairwise fun a b => a.1 < b.1

/-- Put an entry in its place, over an entry of the same name. -/
def insertEntry {α : Type} (name : Text) (value : α) :
    List (Text × α) → List (Text × α)
  | [] => [(name, value)]
  | (other, old) :: rest =>
    if name < other then (name, value) :: (other, old) :: rest
    else if name = other then (name, value) :: rest
    else (other, old) :: insertEntry name value rest

/-- The value stored under a name. -/
def findEntry {α : Type} (name : Text) : List (Text × α) → Option α
  | [] => none
  | (other, value) :: rest =>
    if name = other then some value else findEntry name rest

theorem mem_insertEntry {α : Type} {name : Text} {value : α} {entry : Text × α}
    {entries : List (Text × α)} (h : entry ∈ insertEntry name value entries) :
    entry = (name, value) ∨ entry ∈ entries := by
  induction entries with
  | nil => simpa [insertEntry] using h
  | cons head rest ih =>
    simp only [insertEntry] at h
    split at h
    · simpa using h
    · split at h
      · rcases List.mem_cons.1 h with h | h
        · exact .inl h
        · exact .inr (List.mem_cons_of_mem _ h)
      · rcases List.mem_cons.1 h with h | h
        · exact .inr (h ▸ List.mem_cons_self)
        · exact (ih h).imp_right (List.mem_cons_of_mem _)

/-- Of two different texts one comes first. -/
theorem Text.lt_or_gt_of_ne {a b : Text} (h : a ≠ b) : a < b ∨ b < a := by
  by_cases hab : a < b
  · exact .inl hab
  · by_cases hba : b < a
    · exact .inr hba
    · exact absurd (List.le_antisymm (List.not_lt.1 hba) (List.not_lt.1 hab)) h

theorem Ascending.insertEntry {α : Type} {entries : List (Text × α)}
    (h : Ascending entries) (name : Text) (value : α) :
    Ascending (insertEntry name value entries) := by
  induction entries with
  | nil => exact List.pairwise_singleton _ _
  | cons head rest ih =>
    obtain ⟨other, old⟩ := head
    have hhead := (List.pairwise_cons.1 h).1
    have hrest := (List.pairwise_cons.1 h).2
    simp only [LineScript.insertEntry]
    split
    · rename_i hlt
      refine List.pairwise_cons.2 ⟨fun entry hentry => ?_, h⟩
      rcases List.mem_cons.1 hentry with rfl | hmem
      · exact hlt
      · exact List.lt_trans hlt (hhead entry hmem)
    · split
      · rename_i heq
        subst heq
        exact List.pairwise_cons.2 ⟨hhead, hrest⟩
      · rename_i hnlt hne
        refine List.pairwise_cons.2 ⟨fun entry hentry => ?_, ih hrest⟩
        rcases mem_insertEntry hentry with rfl | hmem
        · exact (Text.lt_or_gt_of_ne hne).resolve_left hnlt
        · exact hhead entry hmem

/-- A finite map from names to values. -/
structure Table (α : Type) where
  /-- The entries, by ascending name. -/
  toList : List (Text × α)
  ascending : Ascending toList

namespace Table

variable {α : Type}

/-- The table without entries. -/
def empty : Table α := ⟨[], List.Pairwise.nil⟩

instance : EmptyCollection (Table α) := ⟨empty⟩
instance : Inhabited (Table α) := ⟨empty⟩

/-- The value under a name, if there is one. -/
def get? (table : Table α) (name : Text) : Option α :=
  findEntry name table.toList

/-- Whether a name has a value. -/
def contains (table : Table α) (name : Text) : Bool := (table.get? name).isSome

/-- The table with `value` under `name`, and all else as it was. -/
def insert (table : Table α) (name : Text) (value : α) : Table α :=
  ⟨insertEntry name value table.toList, table.ascending.insertEntry name value⟩

/-- The table of a list of entries; of two with one name the later wins. -/
def ofList (entries : List (Text × α)) : Table α :=
  entries.foldl (fun table (name, value) => table.insert name value) empty

/-- The names, ascending. -/
def names (table : Table α) : List Text := table.toList.map (·.1)

/-- How many names have a value. -/
def size (table : Table α) : Nat := table.toList.length

/-- Whether no name has a value. -/
def isEmpty (table : Table α) : Bool := table.toList.isEmpty

-- ========================================================= look-ups

@[simp] theorem get?_empty (name : Text) :
    (empty : Table α).get? name = none := rfl

theorem findEntry_insertEntry (name other : Text) (value : α)
    (entries : List (Text × α)) :
    findEntry other (insertEntry name value entries) =
      if other = name then some value else findEntry other entries := by
  induction entries with
  | nil => rfl
  | cons head rest ih =>
    obtain ⟨present, old⟩ := head
    simp only [insertEntry]
    split
    · rfl
    · split
      · rename_i heq
        subst heq
        simp only [findEntry]
        split <;> rfl
      · rename_i hne
        simp only [findEntry, ih]
        by_cases hp : other = present
        · subst hp
          simp [Ne.symm hne]
        · simp [hp]

/-- What is stored is found, and nothing else moves. -/
@[grind =] theorem get?_insert (table : Table α) (name other : Text)
    (value : α) :
    (table.insert name value).get? other
      = if other = name then some value else table.get? other :=
  findEntry_insertEntry name other value table.toList

@[simp] theorem get?_insert_self (table : Table α) (name : Text) (value : α) :
    (table.insert name value).get? name = some value := by
  simp [get?_insert]

theorem get?_insert_of_ne (table : Table α) {name other : Text} (value : α)
    (h : other ≠ name) :
    (table.insert name value).get? other = table.get? other := by
  simp [get?_insert, h]

theorem findEntry_eq_some_iff {entries : List (Text × α)}
    (h : Ascending entries) {name : Text} {value : α} :
    findEntry name entries = some value ↔ (name, value) ∈ entries := by
  induction entries with
  | nil => simp [findEntry]
  | cons head rest ih =>
    obtain ⟨other, old⟩ := head
    have hhead := (List.pairwise_cons.1 h).1
    have ih := ih (List.pairwise_cons.1 h).2
    simp only [findEntry, List.mem_cons, Prod.mk.injEq]
    by_cases hn : name = other
    · subst hn
      simp only [if_true, true_and, Option.some.injEq]
      constructor
      · exact fun hv => .inl hv.symm
      · rintro (hv | hmem)
        · exact hv.symm
        · exact absurd (hhead _ hmem) (List.lt_irrefl name)
    · simp [hn, ih]

/-- An entry is listed exactly when it is found. -/
theorem mem_toList_iff {table : Table α} {name : Text} {value : α} :
    (name, value) ∈ table.toList ↔ table.get? name = some value :=
  (findEntry_eq_some_iff table.ascending).symm

theorem mem_of_get?_foldl_insert {entries : List (Text × α)} {table : Table α}
    {name : Text} {value : α}
    (h : (entries.foldl (fun table entry => table.insert entry.1 entry.2)
      table).get? name = some value) :
    (name, value) ∈ entries ∨ table.get? name = some value := by
  induction entries generalizing table with
  | nil => exact .inr h
  | cons entry rest ih =>
    rcases ih h with hmem | hin
    · exact .inl (List.mem_cons_of_mem _ hmem)
    · rw [get?_insert] at hin
      by_cases heq : name = entry.1
      · rw [if_pos heq] at hin
        cases hin
        rw [heq]
        exact .inl List.mem_cons_self
      · rw [if_neg heq] at hin
        exact .inr hin

/-- A name found in a table that is built from a list is listed there. -/
theorem mem_of_get?_ofList {entries : List (Text × α)} {name : Text}
    {value : α} (h : (ofList entries).get? name = some value) :
    (name, value) ∈ entries := by
  rcases mem_of_get?_foldl_insert h with hmem | hempty
  · exact hmem
  · cases hempty

/-- The entries of a table are different. -/
theorem nodup_toList (table : Table α) : table.toList.Nodup := by
  apply table.ascending.imp
  intro a b hlt heq
  subst heq
  exact List.lt_irrefl a.1 hlt

/-- Tables with the same look-ups are equal. -/
theorem ext {a b : Table α} (h : ∀ name, a.get? name = b.get? name) :
    a = b := by
  have hmem : ∀ entry, entry ∈ a.toList ↔ entry ∈ b.toList := by
    rintro ⟨name, value⟩
    rw [mem_toList_iff, mem_toList_iff, h]
  have hperm :=
    (List.perm_ext_iff_of_nodup a.nodup_toList b.nodup_toList).2 hmem
  have hentries : a.toList = b.toList :=
    hperm.eq_of_pairwise (fun x y _ _ hxy hyx =>
      absurd (List.lt_trans hxy hyx) (List.lt_irrefl _))
      a.ascending b.ascending
  obtain ⟨entries, _⟩ := a
  obtain ⟨entries', _⟩ := b
  subst hentries
  rfl

-- =================================================== changing values

/-- The table of those entries that `f` gives a new value. -/
def filterMap {β : Type} (table : Table α) (f : Text → α → Option β) :
    Table β where
  toList :=
    table.toList.filterMap fun (name, value) => (f name value).map (name, ·)
  ascending := by
    refine List.pairwise_filterMap.2 (table.ascending.imp ?_)
    intro a b hlt a' ha b' hb
    obtain ⟨_, _, rfl⟩ := Option.map_eq_some_iff.1 ha
    obtain ⟨_, _, rfl⟩ := Option.map_eq_some_iff.1 hb
    exact hlt

theorem get?_filterMap {β : Type} (table : Table α) (f : Text → α → Option β)
    (name : Text) :
    (table.filterMap f).get? name = (table.get? name).bind (f name) := by
  apply Option.ext
  intro b
  rw [← mem_toList_iff]
  simp only [filterMap, List.mem_filterMap, Option.bind_eq_some_iff]
  constructor
  · rintro ⟨⟨other, value⟩, hmem, hf⟩
    obtain ⟨_, hb, heq⟩ := Option.map_eq_some_iff.1 hf
    simp only [Prod.mk.injEq] at heq
    obtain ⟨rfl, rfl⟩ := heq
    exact ⟨value, mem_toList_iff.1 hmem, hb⟩
  · rintro ⟨value, hget, hf⟩
    exact ⟨(name, value), mem_toList_iff.2 hget, by simp [hf]⟩

end Table

end LineScript
