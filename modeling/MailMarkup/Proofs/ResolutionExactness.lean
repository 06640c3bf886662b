import MailMarkup.Attribute.Resolution
import MailMarkup.Proofs.ComponentTables

/-!
# Resolutions are exact

A resolution sets what the schemas declare and the picked texts allow, and nothing else; each of its
diagnostics stands for one attribute, in a fixed order. A text that was set reads again as it was
read, and no default of a schema is ever rejected.
-/
namespace MailMarkup
open Text

variable {c : Component} {defaults own : Table String} {name picked : String}

theorem nonblank_eq_some_iff {s : Option String} {text : String} :
    nonblank s = some text ↔ s = some text ∧ isBlankText text = false := by
  rw [nonblank, Option.filter_eq_some_iff, Bool.not_eq_true']

/-- A picked text is never blank: the texts of the tables are passed over if they are, and no
default of a schema is. -/
theorem pick?_not_blank (h : pick? c.schema defaults own name = some picked) :
    isBlankText picked = false := by
  rw [pick?, Option.or_eq_some_iff, Option.or_eq_some_iff] at h
  rcases h with h | ⟨-, h | ⟨-, h⟩⟩
  · exact (nonblank_eq_some_iff.mp h).2
  · exact (nonblank_eq_some_iff.mp h).2
  · obtain ⟨before, after, split, -⟩ := List.lookup_eq_some_iff.mp h
    exact c.default_not_blank (name, picked) (by simp [split])

namespace Value

@[simp] theorem ofRaw_trimmed (name raw : String) (type : AttributeType) :
    ofRaw name (trimmed raw) type = ofRaw name raw type := by
  rw [ofRaw, ofRaw, trimmed_trimmed]

theorem ofRaw_eq_ok_iff {name raw : String} {type : AttributeType} {value : Value} :
    ofRaw name raw type = .ok value ↔ read? type (trimmed raw) = some value := by
  unfold ofRaw
  cases read? type (trimmed raw) <;> simp

end Value

/-- What is wrong with a text that cannot be read at the type. -/
def rejection? (name picked : String) (type : AttributeType) : Option Problem :=
  match Value.ofRaw name picked type with
  | .ok _ => none
  | .error problem => some problem

/-- What is set for a text that can be read at the type. -/
def setting? (name picked : String) (type : AttributeType) : Option Setting :=
  match Value.ofRaw name picked type with
  | .ok value => some ⟨trimmed picked, value⟩
  | .error _ => none

theorem judge_problem? (name picked : String) (type : AttributeType) :
    (judge name picked type).problem? = rejection? name picked type := by
  unfold judge rejection?
  cases Value.ofRaw name picked type <;> rfl

private theorem judge_setting? (name picked : String) (type : AttributeType) :
    (judge name picked type).setting? = (setting? name picked type).map (name, ·) := by
  unfold judge setting?
  cases Value.ofRaw name picked type <;> rfl

theorem rejection?_eq_some_iff {type : AttributeType} {problem : Problem} :
    rejection? name picked type = some problem ↔
      Value.read? type (trimmed picked) = none ∧
        problem = .invalidValue name (trimmed picked) type := by
  unfold rejection? Value.ofRaw
  cases Value.read? type (trimmed picked) <;> simp [eq_comm]

theorem setting?_eq_some_iff {type : AttributeType} {setting : Setting} :
    setting? name picked type = some setting ↔
      setting.raw = trimmed picked ∧ Value.ofRaw name picked type = .ok setting.value := by
  unfold setting?
  obtain ⟨raw, value⟩ := setting
  cases Value.ofRaw name picked type <;> simp [eq_comm]

/-- The attribute a diagnostic is about. -/
def Problem.attribute? : Problem → Option String
  | .unknownAttribute _ name | .invalidValue name .. => some name
  | _ => none

namespace Resolution

private theorem declaredFindings_filterMap {α : Type} (view : Finding → Option α) (c : Component)
    (defaults own : Table String) :
    (declaredFindings c defaults own).filterMap view = c.declared.filterMap fun e =>
      (pick? c.schema defaults own e.1).bind fun picked => view (judge e.1 picked e.2) := by
  simp only [declaredFindings, List.filterMap_filterMap, Option.bind_map, Function.comp_def]

/-- What a resolution sets for an attribute of the given type, if anything. -/
def settingOf? (c : Component) (defaults own : Table String) (name : String)
    (type : AttributeType) : Option Setting :=
  (pick? c.schema defaults own name).bind fun picked => setting? name picked type

theorem settings_resolve (c : Component) (defaults own : Table String) :
    (resolve c defaults own).settings = .ofList (c.declared.filterMap fun e =>
      (settingOf? c defaults own e.1 e.2).map (e.1, ·)) := by
  have unknown : (unknownFindings c own).filterMap Finding.setting? = [] := by
    simp [unknownFindings, Finding.setting?]
  rw [resolve, ofFindings, List.filterMap_append, unknown, List.nil_append,
    declaredFindings_filterMap]
  simp only [judge_setting?, settingOf?, Option.map_bind, Function.comp_def]

theorem get?_settings (c : Component) (defaults own : Table String) (name : String) :
    (resolve c defaults own).settings.get? name = (c.typeOf? name).bind fun type =>
      (pick? c.schema defaults own name).bind fun picked => setting? name picked type := by
  rw [settings_resolve, Table.get?_ofList (Table.nodup_filterMap c.nodup_declared _),
    Table.lookup_filterMap c.nodup_declared, Component.lookup_declared]
  rfl

/-- What is set was read from the text that counts. -/
theorem exists_picked_of_get? {setting : Setting}
    (isSet : (resolve c defaults own).settings.get? name = some setting) :
    ∃ type picked, c.typeOf? name = some type ∧ pick? c.schema defaults own name = some picked ∧
      setting.raw = trimmed picked ∧ Value.read? type (trimmed picked) = some setting.value := by
  rw [get?_settings] at isSet
  obtain ⟨type, declared, isSet⟩ := Option.bind_eq_some_iff.mp isSet
  obtain ⟨picked, found, isSet⟩ := Option.bind_eq_some_iff.mp isSet
  obtain ⟨raw, read⟩ := setting?_eq_some_iff.mp isSet
  exact ⟨type, picked, declared, found, raw, Value.ofRaw_eq_ok_iff.mp read⟩

theorem raw_ne_empty_of_get? {setting : Setting}
    (isSet : (resolve c defaults own).settings.get? name = some setting) : setting.raw ≠ "" := by
  obtain ⟨_, picked, -, found, raw, -⟩ := exists_picked_of_get? isSet
  rw [raw]
  intro empty
  have blank := (trimmed_eq_empty_iff picked).mp empty
  rw [pick?_not_blank found] at blank
  cases blank

theorem raw?_ne_empty (c : Component) (defaults own : Table String) (name : String) :
    (resolve c defaults own).raw? name ≠ some "" := by
  intro isSet
  obtain ⟨setting, looked, empty⟩ := Option.map_eq_some_iff.mp isSet
  exact raw_ne_empty_of_get? looked empty

/-- Where there is a choice of words, the text that is set is one of them. -/
theorem mem_of_raw?_choice {values : List String}
    (choice : ∀ type ∈ c.typeOf? name, type = .choice values) {text : String}
    (isSet : (resolve c defaults own).raw? name = some text) : text ∈ values := by
  obtain ⟨setting, looked, rfl⟩ := Option.map_eq_some_iff.mp isSet
  obtain ⟨type, picked, declared, -, raw, read⟩ := exists_picked_of_get? looked
  obtain rfl := choice type declared
  rw [← raw, Value.read?] at read
  split at read
  · next chosen => exact List.contains_iff_mem.mp chosen
  · cases read

/-- What is wrong with the texts that count, in the order of the schemas. -/
def rejections (c : Component) (defaults own : Table String) : List Problem :=
  (c.schema.attributes ++ Schema.shared.attributes).filterMap fun e =>
    (pick? c.schema defaults own e.1).bind fun picked => rejection? e.1 picked e.2

theorem exists_of_rejection {e : String × AttributeType} {problem : Problem}
    (h : (pick? c.schema defaults own e.1).bind (rejection? e.1 · e.2) = some problem) :
    ∃ text, pick? c.schema defaults own e.1 = some text ∧
      Value.read? e.2 (trimmed text) = none ∧
        problem = .invalidValue e.1 (trimmed text) e.2 := by
  obtain ⟨text, picked, rejected⟩ := Option.bind_eq_some_iff.mp h
  exact ⟨text, picked, rejection?_eq_some_iff.mp rejected⟩

/-- The diagnostics, unknown names first, in the order of the table and of the schemas. -/
theorem diagnostics_resolve (c : Component) (defaults own : Table String) :
    (resolve c defaults own).diagnostics =
      (own.keys.filter fun name => (c.typeOf? name).isNone).map (.unknownAttribute c.tag) ++
        rejections c defaults own := by
  have unknown : (unknownFindings c own).filterMap Finding.problem? =
      (own.keys.filter fun name => (c.typeOf? name).isNone).map (.unknownAttribute c.tag) := by
    simp only [unknownFindings, Component.typeOf?_isNone]
    simp [Finding.problem?, List.filterMap_map, Function.comp_def]
  have declared := declaredFindings_filterMap Finding.problem? c defaults own
  simp only [judge_problem?] at declared
  rw [diagnostics, resolve, ofFindings, List.filterMap_append, unknown, declared]
  rfl

theorem cases_of_mem_diagnostics {p : Problem}
    (reported : p ∈ (resolve c defaults own).diagnostics) :
    (∃ name, p = .unknownAttribute c.tag name) ∨
      ∃ name value type, p = .invalidValue name value type := by
  rw [diagnostics_resolve] at reported
  rcases List.mem_append.mp reported with unknown | rejected
  · obtain ⟨name, -, same⟩ := List.mem_map.mp unknown
    exact .inl ⟨name, same.symm⟩
  · obtain ⟨e, -, rejected⟩ := List.mem_filterMap.mp rejected
    obtain ⟨_, -, -, same⟩ := exists_of_rejection rejected
    exact .inr ⟨_, _, _, same⟩

/-- Unknown names stand once in the table and declared ones once in the schemas, and no name is
both. -/
theorem nodup_diagnostics (c : Component) (defaults own : Table String) :
    ((resolve c defaults own).diagnostics.map Problem.attribute?).Nodup := by
  rw [diagnostics_resolve, List.Nodup, List.pairwise_map, List.pairwise_append]
  refine ⟨?_, ?_, ?_⟩
  · rw [List.pairwise_map]
    exact (own.nodup_keys.filter _).imp fun different same => different (Option.some.inj same)
  · rw [rejections, List.pairwise_filterMap]
    refine (List.pairwise_map.mp c.nodup_declared).imp ?_
    intro e other different p hp q hq
    obtain ⟨_, -, -, rfl⟩ := exists_of_rejection hp
    obtain ⟨_, -, -, rfl⟩ := exists_of_rejection hq
    exact fun same => different (Option.some.inj same)
  · intro p hp q hq
    obtain ⟨name, unknown, rfl⟩ := List.mem_map.mp hp
    obtain ⟨e, declared, hq⟩ := List.mem_filterMap.mp hq
    obtain ⟨_, -, -, rfl⟩ := exists_of_rejection hq
    intro same
    obtain rfl := Option.some.inj same
    have undeclared := (List.mem_filter.mp unknown).2
    rw [Component.typeOf?_of_mem declared] at undeclared
    cases undeclared

/-- Only the defaults of declared names are read. -/
theorem resolve_congr {defaults' : Table String}
    (agree : ∀ name, c.typeOf? name ≠ none → defaults'.get? name = defaults.get? name) :
    resolve c defaults' own = resolve c defaults own := by
  have same : declaredFindings c defaults' own = declaredFindings c defaults own := by
    refine List.filterMap_congr ?_
    rintro ⟨name, type⟩ declared
    have read : defaults'.get? name = defaults.get? name := by
      refine agree name ?_
      rw [Component.typeOf?_of_mem declared]
      exact Option.some_ne_none type
    simp only [pick?, read]
  rw [resolve, resolve, same]

/-- A text that is rejected comes from one of the tables, since no default of a schema is. -/
theorem rejected_source {name value : String} {type : AttributeType}
    (rejected : .invalidValue name value type ∈ (resolve c defaults own).diagnostics) :
    ∃ text, (nonblank (own.get? name)).or (nonblank (defaults.get? name)) = some text ∧
      c.typeOf? name = some type ∧ value = trimmed text ∧ Value.read? type value = none := by
  rw [diagnostics_resolve, List.mem_append] at rejected
  rcases rejected with unknown | rejected
  · obtain ⟨_, -, same⟩ := List.mem_map.mp unknown
    cases same
  · obtain ⟨⟨name, type⟩, declared, rejected⟩ := List.mem_filterMap.mp rejected
    obtain ⟨text, picked, unread, same⟩ := exists_of_rejection rejected
    cases same
    have typed := Component.typeOf?_of_mem declared
    refine ⟨text, ?_, typed, rfl, unread⟩
    rw [pick?, ← Option.or_assoc, Option.or_eq_some_iff] at picked
    rcases picked with given | ⟨-, default⟩
    · exact given
    · obtain ⟨before, after, split, -⟩ := List.lookup_eq_some_iff.mp default
      have isRead := c.default_isRead (name, text) (by simp [split])
      rw [typed, Option.bind_some, unread] at isRead
      cases isRead

/-- What a resolution holds: the settings are the declared names whose text can be read and no
others, and the diagnostics are the names that are not declared and the texts that cannot be
read. -/
structure IsExact (c : Component) (defaults own : Table String) (r : Resolution) : Prop where
  /-- The texts that can be read are set, without blanks around them. -/
  set_iff : ∀ name setting, r.settings.get? name = some setting ↔ ∃ type picked,
    c.typeOf? name = some type ∧ pick? c.schema defaults own name = some picked ∧
      setting.raw = trimmed picked ∧ Value.ofRaw name picked type = .ok setting.value
  /-- What is set is not empty and reads as it was read. -/
  raw_reads : ∀ name setting, r.settings.get? name = some setting → setting.raw ≠ "" ∧
    ∃ type, c.typeOf? name = some type ∧ Value.ofRaw name setting.raw type = .ok setting.value
  /-- Unknown names first, in the order of the table, then the texts that cannot be read, in the
  order of the schemas. -/
  diagnostics_eq : r.diagnostics =
    (own.keys.filter fun name => (c.typeOf? name).isNone).map (.unknownAttribute c.tag) ++
      rejections c defaults own
  ascending : own.keys.Pairwise (· < ·)
  /-- No attribute is reported twice. -/
  reported_once : (r.diagnostics.map Problem.attribute?).Nodup
  rejected_source : ∀ name value type, .invalidValue name value type ∈ r.diagnostics →
    ∃ text, (nonblank (own.get? name)).or (nonblank (defaults.get? name)) = some text ∧
      c.typeOf? name = some type ∧ value = trimmed text ∧ Value.read? type value = none
  /-- Defaults of names that are not declared change nothing. -/
  stray_defaults : ∀ defaults' : Table String,
    (∀ name, c.typeOf? name ≠ none → defaults'.get? name = defaults.get? name) →
      resolve c defaults' own = r

theorem resolve_isExact (c : Component) (defaults own : Table String) :
    (resolve c defaults own).IsExact c defaults own := by
  have set_iff : ∀ name setting, (resolve c defaults own).settings.get? name = some setting ↔
      ∃ type picked, c.typeOf? name = some type ∧ pick? c.schema defaults own name = some picked ∧
        setting.raw = trimmed picked ∧ Value.ofRaw name picked type = .ok setting.value := by
    intro name setting
    simp only [get?_settings, Option.bind_eq_some_iff, setting?_eq_some_iff, exists_and_left]
  refine { set_iff, raw_reads := ?_, diagnostics_eq := diagnostics_resolve c defaults own,
           ascending := own.pairwise_keys, reported_once := nodup_diagnostics c defaults own,
           rejected_source := fun _ _ _ => rejected_source,
           stray_defaults := fun _ => resolve_congr }
  intro name setting isSet
  obtain ⟨type, picked, declared, found, raw, read⟩ := (set_iff name setting).mp isSet
  rw [raw]
  constructor
  · intro empty
    have blank := (trimmed_eq_empty_iff picked).mp empty
    rw [pick?_not_blank found] at blank
    cases blank
  · exact ⟨type, declared, by rw [Value.ofRaw_trimmed, read]⟩

end Resolution

end MailMarkup
