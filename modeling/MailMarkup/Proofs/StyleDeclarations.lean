import MailMarkup.Proofs.TableLookup
import MailMarkup.Style.Buckets

/-!
# The declarations of styles

To set a property keeps what holds of all declarations, if it holds of the one that is set, and does
not touch the declarations of other properties. What holds of the declarations that a template lists
for a bucket therefore holds of the bucket.
-/
namespace MailMarkup

namespace Styles

section Declarations

variable {P : String → String → Prop} {s : Styles} {property value : String}

def All (P : String → String → Prop) (s : Styles) : Prop := ∀ d ∈ s.declarations, P d.1 d.2

private theorem mem_setEntry {entries : List (String × String)} {d : String × String}
    (member : d ∈ setEntry property value entries) : d = (property, value) ∨ d ∈ entries := by
  induction entries with
  | nil => exact .inl (List.mem_singleton.mp member)
  | cons head rest ih =>
    obtain ⟨other, old⟩ := head
    rw [setEntry] at member
    split at member
    · next same =>
      rcases List.mem_cons.mp member with rfl | below
      · exact .inl (by rw [same])
      · exact .inr (List.mem_cons_of_mem _ below)
    · rcases List.mem_cons.mp member with rfl | below
      · exact .inr List.mem_cons_self
      · exact (ih below).imp id (List.mem_cons_of_mem _)

theorem all_empty : empty.All P := List.forall_mem_nil _

theorem All.set (all : s.All P) (holds : P property value) : (s.set property value).All P := by
  intro d member
  rcases mem_setEntry member with rfl | old
  · exact holds
  · exact all d old

theorem All.set? (all : s.All P) {value : Option String} (holds : ∀ text ∈ value, P property text) :
    (s.set? property value).All P := by
  cases value with
  | none => exact all
  | some value => exact all.set (holds value rfl)

theorem all_ofOptions {declarations : List (String × Option String)}
    (holds : ∀ d ∈ declarations, ∀ text ∈ d.2, P d.1 text) : (ofOptions declarations).All P := by
  have all : ∀ s : Styles, s.All P →
      (declarations.foldl (fun s d => s.set? d.1 d.2) s).All P := by
    induction declarations with
    | nil => exact fun _ all => all
    | cons d rest ih =>
      obtain ⟨here, below⟩ := List.forall_mem_cons.mp holds
      exact fun s all => ih below _ (all.set? here)
  exact all empty all_empty

theorem All.not_contains (all : s.All fun other _ => other ≠ property) :
    s.contains property = false := by
  rw [contains, Option.isSome_eq_false_iff, Option.isNone_iff_eq_none, get?,
    List.lookup_eq_none_iff]
  intro d member
  exact bne_iff_ne.mpr (all d member).symm

end Declarations

section Selection

variable (p : String → Bool)

/-- The declarations of the properties of a kind. -/
def select (s : Styles) : List (String × String) := s.declarations.filter fun d => p d.1

variable {p} {s : Styles} {property : String}

theorem filter_setEntry (other : p property = false) (value : String)
    (entries : List (String × String)) :
    ((setEntry property value entries).filter fun d => p d.1) =
      entries.filter fun d => p d.1 := by
  induction entries with
  | nil => simp [setEntry, other]
  | cons head rest ih =>
    obtain ⟨name, old⟩ := head
    rw [setEntry]
    split
    · next same => simp [same, other]
    · rw [List.filter_cons, List.filter_cons, ih]

theorem select_set (other : p property = false) (value : String) :
    (s.set property value).select p = s.select p := filter_setEntry other value s.declarations

theorem select_set? (other : p property = false) (value : Option String) :
    (s.set? property value).select p = s.select p := by
  cases value with
  | none => rfl
  | some value => exact select_set other value

theorem select_eq_nil (all : s.All fun property _ => p property = false) : s.select p = [] :=
  List.filter_eq_nil_iff.mpr fun d member => by simp [all d member]

theorem select_eq_self (all : s.All fun property _ => p property = true) :
    s.select p = s.declarations := List.filter_eq_self.mpr all

end Selection

end Styles

namespace Buckets

variable {P : String → String → Prop} {r : Resolution} {name : String} {styles : Styles}

private theorem all_of_get?_ofList {entries : List (String × Styles)}
    (each : ∀ e ∈ entries, e.2.All P)
    (found : Table.get? (.ofList entries) name = some styles) : styles.All P :=
  each (name, styles) (Table.mem_of_get?_ofList found)

private theorem all_outerBackground (background : (backgroundStyles r).All P) :
    (outerBackground r).All P := by
  unfold outerBackground
  split
  · exact background
  · exact Styles.all_empty

private theorem all_innerBackground (background : (backgroundStyles r).All P) :
    (innerBackground r).All P := by
  unfold innerBackground
  split
  · exact Styles.all_empty
  · exact background

/-- Apart from the background and the declarations of its cell, a body declares few properties. -/
theorem all_ofBody {context : Context} (background : (backgroundStyles r).All P)
    (cell : (bodyCell r).All P) (radius : ∀ text ∈ r.raw? "border-radius", P "border-radius" text)
    (width : P "width" "100%") (margin : P "margin" "0px auto")
    (column : P "max-width" context.widthText) (line : P "line-height" "0")
    (font : P "font-size" "0") (found : (ofBody r context).get? name = some styles) :
    styles.All P := by
  refine all_of_get?_ofList ?_ found
  simp only [List.forall_mem_cons, List.not_mem_nil, IsEmpty.forall_iff, implies_true, and_true]
  have outer := all_outerBackground background
  have inner := all_innerBackground background
  exact ⟨(outer.set width).set? radius, (inner.set width).set? radius, cell,
    ((inner.set margin).set? radius).set column, (Styles.all_empty.set line).set font⟩

theorem all_ofBadge (table : (badgeTable r).All P) (cell : (badgeCell r).All P)
    (label : (badgeLabel r).All P) (found : (ofBadge r).get? name = some styles) :
    styles.All P := by
  refine all_of_get?_ofList ?_ found
  simp only [List.forall_mem_cons, List.not_mem_nil, IsEmpty.forall_iff, implies_true, and_true]
  exact ⟨table, cell, label⟩

end Buckets

end MailMarkup
