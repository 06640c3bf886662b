import MailMarkup.Proofs.ResolutionExactness

/-!
# Resolved texts resolve to themselves

The attributes that a resolution sets, written as the node's own and resolved again without any
defaults, are set to the same values: a trimmed text reads as before, and an attribute that was
left unset has no default in the schema either. The texts that cannot be read are the exception,
since the default of the schema comes back for them.
-/
namespace MailMarkup
open Text

namespace Resolution

variable {c : Component} {defaults own : Table String} {name : String} {type : AttributeType}

private theorem setting?_trimmed (name picked : String) (type : AttributeType) :
    setting? name (trimmed picked) type = setting? name picked type := by
  rw [setting?, setting?, Value.ofRaw_trimmed, trimmed_trimmed]

private theorem rejection?_trimmed (name picked : String) (type : AttributeType) :
    rejection? name (trimmed picked) type = rejection? name picked type := by
  rw [rejection?, rejection?, Value.ofRaw_trimmed]

private theorem exists_setting_of_not_rejected {picked : String}
    (read : rejection? name picked type = none) :
    ∃ value, setting? name picked type = some ⟨trimmed picked, value⟩ := by
  unfold rejection? at read
  unfold setting?
  cases judged : Value.ofRaw name picked type with
  | ok value => exact ⟨value, rfl⟩
  | error problem =>
    rw [judged] at read
    cases read

/-- The texts of the attributes that are set. -/
def rawTexts (r : Resolution) : Table String := r.settings.mapValues Setting.raw

/-- Every text that counts can be read. -/
def IsReadable (c : Component) (defaults own : Table String) : Prop :=
  rejections c defaults own = []

theorem IsReadable.not_rejected (readable : IsReadable c defaults own) {picked : String}
    (declared : (name, type) ∈ c.declared)
    (found : pick? c.schema defaults own name = some picked) :
    rejection? name picked type = none := by
  have each := List.filterMap_eq_nil_iff.mp readable (name, type) declared
  rwa [found, Option.bind_some] at each

private theorem get?_rawTexts (declared : (name, type) ∈ c.declared) :
    (resolve c defaults own).rawTexts.get? name =
      ((pick? c.schema defaults own name).bind fun picked => setting? name picked type).map
        Setting.raw := by
  rw [rawTexts, Table.get?_mapValues, get?_settings, Component.typeOf?_of_mem declared,
    Option.bind_some]

/-- The text that counts among the texts of a resolution is the one that counted before, without
blanks around it. -/
theorem pick?_rawTexts (readable : IsReadable c defaults own)
    (declared : (name, type) ∈ c.declared) :
    pick? c.schema .empty (resolve c defaults own).rawTexts name =
      (pick? c.schema defaults own name).map trimmed := by
  have raw : (resolve c defaults own).rawTexts.get? name = _ := get?_rawTexts declared
  cases found : pick? c.schema defaults own name with
  | none =>
    rw [found] at raw
    rw [pick?, Option.or_eq_none_iff, Option.or_eq_none_iff] at found
    rw [pick?, raw, found.2.2]
    rfl
  | some picked =>
    obtain ⟨value, read⟩ :=
      exists_setting_of_not_rejected (readable.not_rejected declared found)
    rw [found, Option.bind_some, read, Option.map_some] at raw
    have solid : isBlankText (trimmed picked) = false := by
      rw [isBlankText_trimmed, pick?_not_blank found]
    rw [pick?, raw, nonblank_eq_some_iff.mpr ⟨rfl, solid⟩]
    rfl

/-- Resolved texts resolve to themselves. -/
theorem settings_rawTexts (readable : IsReadable c defaults own) :
    (resolve c .empty (resolve c defaults own).rawTexts).settings =
      (resolve c defaults own).settings := by
  rw [settings_resolve, settings_resolve c defaults own]
  refine congrArg Table.ofList (List.filterMap_congr ?_)
  rintro ⟨name, type⟩ declared
  have same : settingOf? c .empty (resolve c defaults own).rawTexts name type =
      settingOf? c defaults own name type := by
    rw [settingOf?, pick?_rawTexts readable declared, Option.bind_map]
    simp only [Function.comp_def, setting?_trimmed]
    rfl
  rw [same]

theorem diagnostics_rawTexts (readable : IsReadable c defaults own) :
    (resolve c .empty (resolve c defaults own).rawTexts).diagnostics = [] := by
  have known : ∀ name ∈ (resolve c defaults own).rawTexts.keys, c.typeOf? name ≠ none := by
    intro name member
    rw [rawTexts, Table.keys_mapValues] at member
    obtain ⟨setting, isSet⟩ := Table.get?_of_mem_keys member
    intro unknown
    rw [get?_settings, unknown] at isSet
    cases isSet
  have unknown : ((resolve c defaults own).rawTexts.keys.filter fun name =>
      (c.typeOf? name).isNone) = [] := by
    rw [List.filter_eq_nil_iff]
    intro name member isNone
    exact known name member (Option.isNone_iff_eq_none.mp isNone)
  have read : rejections c .empty (resolve c defaults own).rawTexts = [] := by
    refine List.filterMap_eq_nil_iff.mpr ?_
    rintro ⟨name, type⟩ declared
    rw [pick?_rawTexts readable declared, Option.bind_map, Option.bind_eq_none_iff]
    intro picked found
    exact (rejection?_trimmed name picked type).trans (readable.not_rejected declared found)
  rw [diagnostics_resolve, unknown, read]
  rfl

end Resolution

end MailMarkup
