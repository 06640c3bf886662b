import MailMarkup.Proofs.StyleDeclarations
import Mathlib.Data.List.Induction

/-!
# The order of declarations

A style is a map that remembers the order in which its properties were first set. To set a property
again changes its value and not its place, so the places come from the first settings and the values
from the last. Two styles with the same properties in the same order and the same values are equal,
and that is how the laws of extension are proved.
-/
namespace MailMarkup.Styles

/-- The properties of a style, in the order of its declarations. -/
def properties (s : Styles) : List String := s.declarations.map Prod.fst

theorem nodup_properties (s : Styles) : s.properties.Nodup := s.distinct

variable {property value : String} {s t : Styles}

theorem ext (same : s.declarations = t.declarations) : s = t := by
  obtain ⟨_, _⟩ := s
  obtain ⟨_, _⟩ := t
  cases same
  rfl

private theorem lookup_setEntry (property value other : String) (entries : List (String × String)) :
    (setEntry property value entries).lookup other =
      if other = property then some value else entries.lookup other := by
  induction entries with
  | nil => rw [setEntry, Table.lookup_entry]
  | cons head rest ih =>
    obtain ⟨name, old⟩ := head
    rw [setEntry]
    split
    · next same =>
      subst same
      rw [Table.lookup_entry, Table.lookup_entry]
      split <;> rfl
    · next different =>
      rw [Table.lookup_entry, ih, Table.lookup_entry]
      by_cases h : other = name
      · subst h
        rw [if_pos rfl, if_neg different, if_pos rfl]
      · rw [if_neg h, if_neg h]

@[simp] theorem get?_set (s : Styles) (property value other : String) :
    (s.set property value).get? other = if other = property then some value else s.get? other :=
  lookup_setEntry property value other s.declarations

@[simp] theorem properties_set (s : Styles) (property value : String) :
    (s.set property value).properties =
      if property ∈ s.properties then s.properties else s.properties ++ [property] :=
  map_fst_setEntry property value s.declarations

/-- The declarations are known from the order of the properties and from their values. -/
theorem declarations_eq (s : Styles) :
    s.declarations = s.properties.map fun property => (property, (s.get? property).getD "") := by
  rw [properties, List.map_map]
  refine (List.map_id _).symm.trans (List.map_congr_left fun d member => ?_)
  have found : s.get? d.1 = some d.2 := Table.lookup_of_mem s.distinct member
  simp [found]

theorem ext_get? (order : s.properties = t.properties)
    (values : ∀ property, s.get? property = t.get? property) : s = t := by
  refine ext ?_
  rw [s.declarations_eq, t.declarations_eq, order]
  exact List.map_congr_left fun property _ => by rw [values]

/-- Each property with its value and a semicolon, in order. -/
theorem css_eq (s : Styles) : s.css = String.join (s.properties.map fun property =>
    property ++ ":" ++ (s.get? property).getD "" ++ ";") := by
  rw [css, s.declarations_eq, List.map_map]
  rfl

/-- The values that a property is given, in order. -/
def valuesOf (property : String) (settings : List (String × String)) : List String :=
  (settings.filter (·.1 = property)).map Prod.snd

private theorem ofList_concat (settings : List (String × String)) (property value : String) :
    ofList (settings ++ [(property, value)]) = (ofList settings).set property value :=
  List.foldl_concat ..

theorem ofList_append (earlier later : List (String × String)) :
    ofList (earlier ++ later) = (ofList earlier).setAll later :=
  List.foldl_append ..

theorem properties_ofList (settings : List (String × String)) :
    (ofList settings).properties = (settings.map Prod.fst).eraseDups := by
  induction settings using List.reverseRecOn with
  | nil => rfl
  | append_singleton earlier last ih =>
    rw [ofList_concat, properties_set, ih, List.map_append, List.eraseDups_append,
      List.map_singleton, List.cons_removeAll]
    by_cases again : last.1 ∈ earlier.map Prod.fst <;>
      simp [List.mem_eraseDups, again, List.eraseDups_cons]

theorem get?_ofList (settings : List (String × String)) (property : String) :
    (ofList settings).get? property = (valuesOf property settings).getLast? := by
  induction settings using List.reverseRecOn with
  | nil => rfl
  | append_singleton earlier last ih =>
    rw [ofList_concat, get?_set, ih]
    by_cases same : property = last.1
    · simp [valuesOf, same]
    · simp [valuesOf, same, Ne.symm same]

private theorem setEntry_of_fresh {entries : List (String × String)}
    (fresh : property ∉ entries.map Prod.fst) :
    setEntry property value entries = entries ++ [(property, value)] := by
  induction entries with
  | nil => rfl
  | cons head rest ih =>
    obtain ⟨other, old⟩ := head
    rw [List.map_cons, List.mem_cons, not_or] at fresh
    rw [setEntry, if_neg (Ne.symm fresh.1), ih fresh.2, List.cons_append]

private theorem declarations_ofList {settings : List (String × String)}
    (distinct : (settings.map Prod.fst).Nodup) : (ofList settings).declarations = settings := by
  induction settings using List.reverseRecOn with
  | nil => rfl
  | append_singleton earlier last ih =>
    rw [List.map_append, List.map_singleton, List.nodup_append] at distinct
    obtain ⟨distinct, -, apart⟩ := distinct
    have fresh : last.1 ∉ earlier.map Prod.fst := fun member =>
      apart _ member _ (List.mem_singleton_self _) rfl
    rw [← ih distinct] at fresh
    rw [ofList_concat]
    exact (setEntry_of_fresh fresh).trans (congrArg (· ++ [last]) (ih distinct))

/-- Every style is what comes of setting its declarations. -/
theorem ofList_declarations (s : Styles) : ofList s.declarations = s :=
  ext (declarations_ofList s.distinct)

private theorem eraseDups_of_nodup {names : List String} (distinct : names.Nodup) :
    names.eraseDups = names := by
  induction names with
  | nil => rfl
  | cons name rest ih =>
    obtain ⟨fresh, distinct⟩ := List.nodup_cons.mp distinct
    have others : rest.filter (fun other => !other == name) = rest := by
      refine List.filter_eq_self.mpr fun other member => ?_
      have different : other ≠ name := fun same => fresh (same ▸ member)
      simpa using different
    rw [List.eraseDups_cons, others, ih distinct]

private theorem extend_eq_ofList (a b : Styles) :
    a.extend b = ofList (a.declarations ++ b.declarations) := by
  rw [ofList_append, ofList_declarations, extend]

@[simp] theorem get?_extend (a b : Styles) (property : String) :
    (a.extend b).get? property = (b.get? property).or (a.get? property) := by
  have values (s : Styles) : s.get? property = (valuesOf property s.declarations).getLast? := by
    rw [← get?_ofList, ofList_declarations]
  rw [extend_eq_ofList, get?_ofList, values a, values b, ← List.getLast?_append, valuesOf,
    List.filter_append, List.map_append]
  rfl

/-- What is new in the upper style stands behind what was there before. -/
theorem properties_extend (a b : Styles) :
    (a.extend b).properties = a.properties ++ b.properties.filter (· ∉ a.properties) := by
  have news : b.properties.removeAll a.properties =
      b.properties.filter (· ∉ a.properties) := by
    simp [List.removeAll]
  have apart (p : String → Bool) : (b.properties.filter p).eraseDups = b.properties.filter p :=
    eraseDups_of_nodup (b.nodup_properties.filter p)
  rw [extend_eq_ofList, properties_ofList, List.map_append, List.eraseDups_append]
  rw [← properties, ← properties, eraseDups_of_nodup a.nodup_properties, news, apart]

theorem extend_assoc (a b c : Styles) : (a.extend b).extend c = a.extend (b.extend c) := by
  refine ext_get? ?_ fun property => by simp [Option.or_assoc]
  simp only [properties_extend, List.filter_append, List.filter_filter, List.append_assoc,
    List.mem_append, List.mem_filter]
  congr 2
  refine List.filter_congr fun property _ => ?_
  by_cases first : property ∈ a.properties <;> simp [first]

theorem extend_self (a : Styles) : a.extend a = a := by
  refine ext_get? ?_ fun property => by simp
  simp [properties_extend]

/-- A way in which declarations come into a style. -/
inductive Operation where
  | set (property value : String)
  | set? (property : String) (value : Option String)
  | extend (upper : Styles)

namespace Operation

def apply (s : Styles) : Operation → Styles
  | .set property value => s.set property value
  | .set? property value => s.set? property value
  | .extend upper => s.extend upper

/-- The settings that an operation makes, in order; an absent value makes none. -/
def settings : Operation → List (String × String)
  | .set property value => [(property, value)]
  | .set? property value => value.toList.map (property, ·)
  | .extend upper => upper.declarations

private theorem apply_eq_setAll (s : Styles) (operation : Operation) :
    operation.apply s = s.setAll operation.settings := by
  cases operation with
  | set => rfl
  | set? property value => cases value <;> rfl
  | extend => rfl

end Operation

/-- The style that operations make of one without declarations. -/
def run (operations : List Operation) : Styles := operations.foldl Operation.apply empty

/-- Whatever the operations, all that counts is the settings that they make. -/
theorem run_eq_ofList (operations : List Operation) :
    run operations = ofList (operations.flatMap Operation.settings) := by
  induction operations using List.reverseRecOn with
  | nil => rfl
  | append_singleton earlier last ih =>
    have step : run (earlier ++ [last]) = last.apply (run earlier) := List.foldl_concat ..
    rw [step, ih, Operation.apply_eq_setAll, ← ofList_append, List.flatMap_append,
      List.flatMap_singleton]

/-- What a style records of settings: places go by the first setting of a property, values by the
last one. -/
structure Records (s : Styles) (settings : List (String × String)) : Prop where
  distinct : (s.declarations.map Prod.fst).Nodup
  order : s.declarations.map Prod.fst = (settings.map Prod.fst).eraseDups
  value : ∀ property, s.get? property = (valuesOf property settings).getLast?
  /-- The text lists the properties in their order, each with its last value. -/
  text : s.css = String.join ((settings.map Prod.fst).eraseDups.map fun property =>
    property ++ ":" ++ (valuesOf property settings).getLast?.getD "" ++ ";")

private theorem records_ofList (settings : List (String × String)) :
    (ofList settings).Records settings where
  distinct := (ofList settings).distinct
  order := properties_ofList settings
  value := get?_ofList settings
  text := by simp only [css_eq, properties_ofList, get?_ofList]

/-- Styles are maps in the order of insertion, and extension is associative and idempotent. -/
theorem run_records (operations : List Operation) (a b c : Styles) :
    (run operations).Records (operations.flatMap Operation.settings) ∧
    (∀ property, (a.extend b).get? property =
      if b.contains property then b.get? property else a.get? property) ∧
    (a.extend b).extend c = a.extend (b.extend c) ∧
    a.extend a = a := by
  refine ⟨?_, fun property => ?_, extend_assoc a b c, extend_self a⟩
  · rw [run_eq_ofList]
    exact records_ofList _
  · rw [get?_extend, contains]
    cases b.get? property <;> rfl

/-- A property that is set again keeps its place, also by an extension. -/
example : (run [.set "width" "100%", .set? "border" none, .set "color" "red",
    .extend (ofList [("margin", "0"), ("width", "50%")])]).css =
      "width:50%;color:red;margin:0;" := by decide +kernel

end MailMarkup.Styles
