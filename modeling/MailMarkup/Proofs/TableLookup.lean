import MailMarkup.Table
import Mathlib.Data.List.Nodup

/-!
# Looking names up in tables

What each operation on a table does to `get?`. Entries inserted later win, so an overlay tries its
upper table first; a list of entries with different names is looked up as it stands. Every table
lists its names once, in ascending order, so that tables with the same look-ups are equal.
-/
namespace MailMarkup.Table

variable {α β : Type}

/-- A look-up in one step, as a condition on the names. -/
theorem lookup_entry (key name : String) (value : α) (rest : List (String × α)) :
    ((key, value) :: rest).lookup name = if name = key then some value else rest.lookup name := by
  by_cases h : name = key
  · simp [h]
  · have different : (name == key) = false := beq_eq_false_iff_ne.mpr h
    simp [List.lookup_cons, different, h]

theorem lookup_of_mem {entries : List (String × α)} (distinct : (entries.map Prod.fst).Nodup)
    {e : String × α} (he : e ∈ entries) : entries.lookup e.1 = some e.2 := by
  induction entries with
  | nil => cases he
  | cons head rest ih =>
    obtain ⟨key, value⟩ := head
    obtain ⟨fresh, distinct⟩ := List.nodup_cons.mp distinct
    rw [lookup_entry]
    rcases List.mem_cons.mp he with rfl | he
    · simp
    · have different : e.1 ≠ key := fun same => fresh (same ▸ List.mem_map.mpr ⟨e, he, rfl⟩)
      rw [if_neg different, ih distinct he]

theorem lookup_eq_none_of_fresh {entries : List (String × α)} {name : String}
    (fresh : name ∉ entries.map Prod.fst) : entries.lookup name = none := by
  rw [List.lookup_eq_none_iff]
  intro e he
  have different : name ≠ e.1 := fun same => fresh (same ▸ List.mem_map.mpr ⟨e, he, rfl⟩)
  simpa using different

@[simp] theorem get?_empty (name : String) : (empty : Table α).get? name = none := rfl

private theorem lookup_insertEntry (name other : String) (value : α) (entries : List (String × α)) :
    (insertEntry name value entries).lookup other =
      if other = name then some value else entries.lookup other := by
  induction entries with
  | nil => rw [insertEntry, lookup_entry]
  | cons head rest ih =>
    obtain ⟨key, old⟩ := head
    simp only [insertEntry]
    split
    · rw [lookup_entry]
    · split
      · next same =>
        subst same
        simp only [lookup_entry]
        split <;> rfl
      · next different =>
        rw [lookup_entry, ih, lookup_entry]
        by_cases h : other = key
        · subst h
          rw [if_pos rfl, if_neg (Ne.symm different), if_pos rfl]
        · rw [if_neg h, if_neg h]

@[simp] theorem get?_insert (t : Table α) (name other : String) (value : α) :
    (t.insert name value).get? other = if other = name then some value else t.get? other :=
  lookup_insertEntry name other value t.entries

@[simp] theorem get?_erase (t : Table α) (name other : String) :
    (t.erase name).get? other = if other = name then none else t.get? other := by
  have kept (entries : List (String × α)) : (entries.filter (·.1 != name)).lookup other =
      if other = name then none else entries.lookup other := by
    induction entries with
    | nil => simp
    | cons head rest ih =>
      obtain ⟨key, value⟩ := head
      rw [List.filter_cons, lookup_entry]
      by_cases erased : key = name
      · rw [if_neg (by simp [erased]), ih, erased]
        by_cases h : other = name <;> simp [h]
      · rw [if_pos (by simp [erased]), lookup_entry, ih]
        by_cases h : other = key
        · subst h
          rw [if_pos rfl, if_neg erased, if_pos rfl]
        · rw [if_neg h, if_neg h]
  exact kept t.entries

/-- Entries of different names cannot hide each other, whatever order they are inserted in. -/
theorem get?_insertAll {entries : List (String × α)} (distinct : (entries.map Prod.fst).Nodup)
    (t : Table α) (name : String) :
    (t.insertAll entries).get? name = (entries.lookup name).or (t.get? name) := by
  induction entries generalizing t with
  | nil => rfl
  | cons head rest ih =>
    obtain ⟨key, value⟩ := head
    obtain ⟨fresh, distinct⟩ := List.nodup_cons.mp distinct
    have step : (t.insertAll ((key, value) :: rest)).get? name =
        (rest.lookup name).or ((t.insert key value).get? name) := ih distinct (t.insert key value)
    rw [step, get?_insert, lookup_entry]
    by_cases h : name = key
    · subst h
      simp [lookup_eq_none_of_fresh fresh]
    · rw [if_neg h, if_neg h]

theorem get?_ofList {entries : List (String × α)} (distinct : (entries.map Prod.fst).Nodup)
    (name : String) : (ofList entries).get? name = entries.lookup name := by
  rw [ofList, get?_insertAll distinct, get?_empty, Option.or_none]

theorem pairwise_keys (t : Table α) : t.keys.Pairwise (· < ·) :=
  List.pairwise_map.mpr t.ascending

theorem nodup_keys (t : Table α) : t.keys.Nodup := by
  refine t.pairwise_keys.imp ?_
  rintro name _ lt rfl
  exact String.lt_irrefl name lt

@[simp] theorem get?_overlay (t upper : Table α) (name : String) :
    (t.overlay upper).get? name = (upper.get? name).or (t.get? name) :=
  get?_insertAll upper.nodup_keys t name

theorem mem_entries_iff {t : Table α} {name : String} {value : α} :
    (name, value) ∈ t.entries ↔ t.get? name = some value := by
  constructor
  · exact fun member => lookup_of_mem t.nodup_keys member
  · intro found
    obtain ⟨before, after, split, -⟩ := List.lookup_eq_some_iff.mp found
    rw [split]
    exact List.mem_append_right before List.mem_cons_self

/-- What a table is made of is all that is found in it. -/
theorem mem_of_get?_ofList {entries : List (String × α)} {name : String} {a : α}
    (found : (ofList entries).get? name = some a) : (name, a) ∈ entries := by
  have all : ∀ t : Table α, ∀ e ∈ (t.insertAll entries).entries, e ∈ t.entries ∨ e ∈ entries := by
    clear found
    induction entries with
    | nil => exact fun _ _ member => .inl member
    | cons head rest ih =>
      intro t e member
      rcases ih (t.insert head.1 head.2) e member with old | new
      · exact (mem_insertEntry old).elim (fun same => .inr (by simp [same])) .inl
      · exact .inr (List.mem_cons_of_mem head new)
  exact (all .empty (name, a) (mem_entries_iff.mpr found)).resolve_left List.not_mem_nil

theorem nodup_entries (t : Table α) : t.entries.Nodup := List.Nodup.of_map Prod.fst t.nodup_keys

/-- Two tables with the same entries list them in the same order. -/
theorem ext_get? {t u : Table α} (same : ∀ name, t.get? name = u.get? name) : t = u := by
  have members : ∀ e, e ∈ t.entries ↔ e ∈ u.entries := by
    rintro ⟨name, value⟩
    rw [mem_entries_iff, mem_entries_iff, same]
  have permuted := (List.perm_ext_iff_of_nodup t.nodup_entries u.nodup_entries).mpr members
  refine ext (permuted.eq_of_pairwise ?_ t.ascending u.ascending)
  exact fun a b _ _ lt gt => absurd (String.lt_trans lt gt) (String.lt_irrefl _)

/-- The entries of a table, inserted one after another, make up the table. -/
theorem ofList_entries (t : Table α) : ofList t.entries = t :=
  ext_get? fun name => get?_ofList t.nodup_keys name

@[simp] theorem empty_overlay (t : Table α) : empty.overlay t = t := ofList_entries t

theorem overlay_assoc (t u v : Table α) : (t.overlay u).overlay v = t.overlay (u.overlay v) :=
  ext_get? fun name => by simp [Option.or_assoc]

/-- A list of entries that is made name by name is looked up through the list it is made from. -/
theorem lookup_filterMap {entries : List (String × β)} (distinct : (entries.map Prod.fst).Nodup)
    (make : String → β → Option α) (name : String) :
    (entries.filterMap fun e => (make e.1 e.2).map (e.1, ·)).lookup name =
      (entries.lookup name).bind (make name) := by
  induction entries with
  | nil => rfl
  | cons head rest ih =>
    obtain ⟨key, b⟩ := head
    obtain ⟨fresh, distinct⟩ := List.nodup_cons.mp distinct
    rw [lookup_entry, List.filterMap_cons]
    cases made : make key b with
    | none =>
      simp only [Option.map_none, ih distinct]
      by_cases h : name = key
      · subst h
        simp [lookup_eq_none_of_fresh fresh, made]
      · rw [if_neg h]
    | some a =>
      simp only [Option.map_some, lookup_entry, ih distinct]
      by_cases h : name = key
      · subst h
        simp [made]
      · rw [if_neg h, if_neg h]

/-- Making entries name by name keeps the names different. -/
theorem nodup_filterMap {entries : List (String × β)} (distinct : (entries.map Prod.fst).Nodup)
    (make : String → β → Option α) :
    ((entries.filterMap fun e => (make e.1 e.2).map (e.1, ·)).map Prod.fst).Nodup := by
  rw [List.Nodup, List.pairwise_map, List.pairwise_filterMap]
  refine (List.pairwise_map.mp distinct).imp ?_
  intro e other different _ made _ madeOther
  obtain ⟨_, -, rfl⟩ := Option.map_eq_some_iff.mp made
  obtain ⟨_, -, rfl⟩ := Option.map_eq_some_iff.mp madeOther
  exact different

def mapValues (f : α → β) (t : Table α) : Table β where
  entries := t.entries.map fun e => (e.1, f e.2)
  ascending := by
    rw [Ascending, List.pairwise_map]
    exact t.ascending

theorem lookup_map (f : α → β) (entries : List (String × α)) (name : String) :
    (entries.map fun e => (e.1, f e.2)).lookup name = (entries.lookup name).map f := by
  induction entries with
  | nil => rfl
  | cons head rest ih =>
    obtain ⟨key, value⟩ := head
    rw [List.map_cons, lookup_entry, lookup_entry, ih]
    split <;> rfl

theorem get?_mapValues (f : α → β) (t : Table α) (name : String) :
    (t.mapValues f).get? name = (t.get? name).map f := lookup_map f t.entries name

@[simp] theorem keys_mapValues (f : α → β) (t : Table α) : (t.mapValues f).keys = t.keys := by
  simp [keys, mapValues, Function.comp_def]

theorem get?_of_mem_keys {t : Table α} {name : String} (member : name ∈ t.keys) :
    ∃ value, t.get? name = some value := by
  obtain ⟨⟨key, value⟩, entry, rfl⟩ := List.mem_map.mp member
  exact ⟨value, lookup_of_mem t.nodup_keys entry⟩

end MailMarkup.Table
