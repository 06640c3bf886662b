/-!
# Styles

The declarations of one style text. A property occurs once, in the place where it was first set,
and with the value it was last given.
-/
namespace MailMarkup

namespace Styles

def setEntry (property value : String) : List (String × String) → List (String × String)
  | [] => [(property, value)]
  | (other, old) :: rest =>
    if other = property then (other, value) :: rest
    else (other, old) :: setEntry property value rest

theorem map_fst_setEntry (property value : String) (entries : List (String × String)) :
    (setEntry property value entries).map Prod.fst =
      if property ∈ entries.map Prod.fst then entries.map Prod.fst
      else entries.map Prod.fst ++ [property] := by
  induction entries with
  | nil => simp [setEntry]
  | cons head rest ih =>
    obtain ⟨other, old⟩ := head
    by_cases h : other = property
    · simp [setEntry, h]
    · have h' : property ≠ other := fun e => h e.symm
      simp only [setEntry, h, if_false, List.map_cons, ih, List.mem_cons, h', false_or]
      split <;> simp

theorem nodup_setEntry (property value : String) {entries : List (String × String)}
    (h : (entries.map Prod.fst).Nodup) :
    ((setEntry property value entries).map Prod.fst).Nodup := by
  rw [map_fst_setEntry]
  split
  · exact h
  · next absent =>
    refine List.nodup_append.2 ⟨h, by simp, fun a ha b hb => ?_⟩
    rw [List.mem_singleton] at hb
    exact fun e => absent (hb ▸ e ▸ ha)

end Styles

structure Styles where
  declarations : List (String × String)
  distinct : (declarations.map Prod.fst).Nodup
  deriving DecidableEq

namespace Styles

def empty : Styles := ⟨[], List.nodup_nil⟩

def set (s : Styles) (property value : String) : Styles :=
  ⟨setEntry property value s.declarations, nodup_setEntry property value s.distinct⟩

/-- Sets the property if there is a value. -/
def set? (s : Styles) (property : String) : Option String → Styles
  | some value => s.set property value
  | none => s

def setAll (s : Styles) (declarations : List (String × String)) : Styles :=
  declarations.foldl (fun s d => s.set d.1 d.2) s

def ofList (declarations : List (String × String)) : Styles := empty.setAll declarations

/-- All declarations of `other` set one after the other. -/
def extend (s other : Styles) : Styles := s.setAll other.declarations

def get? (s : Styles) (property : String) : Option String := s.declarations.lookup property

def contains (s : Styles) (property : String) : Bool := (s.get? property).isSome

def isEmpty (s : Styles) : Bool := s.declarations.isEmpty

/-- Declarations that are present whatever their value, and those that depend on one. -/
def ofOptions (declarations : List (String × Option String)) : Styles :=
  declarations.foldl (fun s d => s.set? d.1 d.2) empty

def declarationText (d : String × String) : String := d.1 ++ ":" ++ d.2 ++ ";"

def css (s : Styles) : String := String.join (s.declarations.map declarationText)

end Styles
end MailMarkup
