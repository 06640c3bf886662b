import MailMarkup.Attribute.Defaults
import MailMarkup.Proofs.TableLookup

/-!
# Layers of defaults

Merging and laying out defaults in terms of the text that each attribute gets. Every layer of a
merge is the layer below under the layer above, and the defaults of a node answer for an attribute
with the first of its layers that has it: its classes from the last to the first, its tag, and what
holds for all nodes.
-/
namespace MailMarkup.Defaults

/-- The layer of a name, without entries if there is none. -/
def layer (layers : Table (Table String)) (name : String) : Table String :=
  (layers.get? name).getD .empty

def ofTag (d : Defaults) (tag : String) : Table String := layer d.tags tag

theorem get?_extend (layers : Table (Table String)) (name other : String)
    (attributes : Table String) :
    (extend layers name attributes).get? other =
      if other = name then some ((layer layers name).overlay attributes) else layers.get? other :=
  Table.get?_insert ..

private theorem layer_extend (layers : Table (Table String)) (name other : String)
    (attributes : Table String) :
    layer (extend layers name attributes) other =
      if other = name then (layer layers name).overlay attributes else layer layers other := by
  rw [layer, get?_extend]
  split <;> rfl

/-- The names of the upper layers differ, so each lower layer is extended at most once. -/
private theorem get?_extend_entries {entries : List (String × Table String)}
    (distinct : (entries.map Prod.fst).Nodup) (layers : Table (Table String)) (name : String) :
    (entries.foldl (fun t e => extend t e.1 e.2) layers).get? name =
      ((entries.lookup name).map (layer layers name).overlay).or (layers.get? name) := by
  induction entries generalizing layers with
  | nil => rfl
  | cons head rest ih =>
    obtain ⟨key, attributes⟩ := head
    obtain ⟨fresh, distinct⟩ := List.nodup_cons.mp distinct
    rw [List.foldl_cons, ih distinct, layer_extend, get?_extend, Table.lookup_entry]
    by_cases h : name = key
    · subst h
      simp [Table.lookup_eq_none_of_fresh fresh]
    · rw [if_neg h, if_neg h, if_neg h]

theorem get?_extendAll (layers upper : Table (Table String)) (name : String) :
    (extendAll layers upper).get? name =
      ((upper.get? name).map (layer layers name).overlay).or (layers.get? name) :=
  get?_extend_entries upper.nodup_keys layers name

theorem layer_extendAll (layers upper : Table (Table String)) (name : String) :
    layer (extendAll layers upper) name = (layer layers name).overlay (layer upper name) := by
  rw [layer, get?_extendAll, layer.eq_def upper]
  cases upper.get? name <;> rfl

theorem ofTag_merge (d upper : Defaults) (tag : String) :
    (d.merge upper).ofTag tag = (d.ofTag tag).overlay (upper.ofTag tag) :=
  layer_extendAll d.tags upper.tags tag

theorem ofClass_merge (d upper : Defaults) (name : String) :
    (d.merge upper).ofClass name = (d.ofClass name).overlay (upper.ofClass name) :=
  layer_extendAll d.classes upper.classes name

/-- The text that is met first when the layers are looked through in order. -/
def firstText? (layers : List (Table String)) (name : String) : Option String :=
  layers.findSome? (·.get? name)

@[simp] theorem firstText?_nil (name : String) : firstText? [] name = none := rfl

@[simp] theorem firstText?_cons (t : Table String) (layers : List (Table String))
    (name : String) : firstText? (t :: layers) name = (t.get? name).or (firstText? layers name) := by
  rw [firstText?, List.findSome?_cons]
  cases t.get? name <;> rfl

@[simp] theorem firstText?_append (layers others : List (Table String)) (name : String) :
    firstText? (layers ++ others) name =
      (firstText? layers name).or (firstText? others name) :=
  List.findSome?_append

/-- The layers of a node, the one that counts first at the head. -/
def layersOf (d : Defaults) (tag : String) (classes : List String) : List (Table String) :=
  classes.reverse.map d.ofClass ++ [d.ofTag tag, d.all]

private theorem get?_foldl_overlay (layers : List (Table String)) (bottom : Table String)
    (name : String) :
    (layers.foldl Table.overlay bottom).get? name =
      firstText? (layers.reverse ++ [bottom]) name := by
  induction layers generalizing bottom with
  | nil => simp
  | cons upper rest ih =>
    rw [List.foldl_cons, ih (bottom.overlay upper)]
    simp

/-- A node takes each attribute from the first of its layers that has it, blank or not. -/
theorem get?_forNode (d : Defaults) (tag : String) (classes : List String) (name : String) :
    (d.forNode tag classes).get? name = firstText? (d.layersOf tag classes) name := by
  have folded : d.forNode tag classes =
      (d.ofTag tag :: classes.map d.ofClass).foldl Table.overlay d.all := by
    rw [List.foldl_cons, List.foldl_map]
    rfl
  rw [folded, get?_foldl_overlay]
  simp [layersOf]

/-- The layers of a node when settings lie below a head. Of each kind the head comes first. -/
def stack (config head : Defaults) (tag : String) (classes : List String) : List (Table String) :=
  classes.reverse.flatMap (fun name => [head.ofClass name, config.ofClass name]) ++
    [head.ofTag tag, config.ofTag tag, head.all, config.all]

private theorem firstText?_classes (config head : Defaults) (classes : List String)
    (name : String) :
    firstText? (classes.map (config.merge head).ofClass) name =
      firstText? (classes.flatMap fun c => [head.ofClass c, config.ofClass c]) name := by
  induction classes with
  | nil => rfl
  | cons c rest ih =>
    rw [List.map_cons, firstText?_cons, ih, List.flatMap_cons, ofClass_merge]
    simp [Option.or_assoc]

/-- A merge lays the two sets of defaults into each other kind by kind, not one over the other. -/
theorem get?_forNode_merge (config head : Defaults) (tag : String) (classes : List String)
    (name : String) :
    ((config.merge head).forNode tag classes).get? name =
      firstText? (stack config head tag classes) name := by
  have ofAll : (config.merge head).all = config.all.overlay head.all := rfl
  rw [get?_forNode, layersOf, stack, firstText?_append, firstText?_append, firstText?_classes,
    ofTag_merge, ofAll]
  simp [Option.or_assoc]

end MailMarkup.Defaults
