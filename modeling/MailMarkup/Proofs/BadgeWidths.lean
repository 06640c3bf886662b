import MailMarkup.Proofs.BorderThickness
import MailMarkup.Proofs.FiniteWidths
import MailMarkup.Proofs.LengthLists
import MailMarkup.Proofs.NumeralSpelling

/-!
# The widths of badges

The width of a badge is read twice: as an attribute, and by its box. The box does not read every
width that is set. If the numeral starts and ends with a digit, both readings agree, and the label
has what borders and paddings leave of the width; a width such as `200.px` is set, but leaves the
label without a width.
-/
namespace MailMarkup
open Text

namespace Resolution

variable {c : Component} {defaults own : Table String} {name : String} {setting : Setting}

/-- The text of a single length is read as it stands. -/
theorem exists_read_of_get? {rule : LengthRule} (typed : c.typeOf? name = some (.lengths rule))
    (least : 1 ≤ rule.least) (one : rule.most = 1) (units : rule.units ≠ [])
    (isSet : (resolve c defaults own).settings.get? name = some setting) :
    ∃ l found, setting.value = .length l ∧ Length.read? setting.raw = some found ∧
      rule.Admits found l := by
  obtain ⟨type, picked, declared, -, raw, read⟩ := exists_picked_of_get? isSet
  cases typed.symm.trans declared
  obtain ⟨-, -, yields⟩ := (LengthRule.read?_eq_some_iff least units).mp read
  generalize words : wordsOf (trimmed picked) = tokens at yields
  generalize setting.value = value at yields ⊢
  cases yields with
  | length _ taken =>
    obtain ⟨found, read, admits⟩ := taken
    rw [← trimmed_eq_of_wordsOf words, trimmed_trimmed, ← raw] at read
    exact ⟨_, found, rfl, read, admits⟩
  | shorthand several => omega

/-- How the width of a badge is spelled, and what its box reads of it. -/
theorem exists_spelling_of_width {value : Value}
    (isSet : (resolve .badge defaults own).value? "width" = some value) :
    ∃ (l : Length) (n : Numeral) (unit : LengthUnit), value = .length l ∧
      (resolve .badge defaults own).raw? "width" =
        some (String.ofList (n.spelled ++ unit.suffix.toList)) ∧
      l.value = n.value ∧ (l.unit = .px ∨ l.unit = .percent) ∧
      ((resolve .badge defaults own).raw? "width").bind declaredWidth? =
        if n.IsPlain then some l else none := by
  have typed : Component.badge.typeOf? "width" = some (.length Component.pxOrPercent) := by decide
  obtain ⟨setting, looked, rfl⟩ := Option.map_eq_some_iff.mp isSet
  obtain ⟨l, found, value, read, admits⟩ :=
    exists_read_of_get? typed (le_refl 1) rfl (by decide) looked
  obtain ⟨n, spelled, number⟩ := exists_numeral_of_read? read
  have width : l.value = n.value ∧ found.unit.ofWidth? = some l.unit ∧
      (l.unit = .px ∨ l.unit = .percent) := by
    cases admits with
    | declared _ unit =>
      rcases List.mem_pair.mp unit with unit | unit <;> simp [number, unit, LengthUnit.ofWidth?]
    | zero _ _ bare _ given =>
      have pixels : LengthUnit.px ∈ Component.pxOrPercent := by decide
      obtain ⟨-, rfl⟩ := given.resolve_right fun others => others.1 pixels
      simp [number, bare, LengthUnit.ofWidth?]
  obtain ⟨number, unit, known⟩ := width
  have raw : (resolve .badge defaults own).raw? "width" = some setting.raw :=
    congrArg (Option.map Setting.raw) looked
  refine ⟨l, n, found.unit, value, ?_, number, known, ?_⟩
  · rw [raw, ← spelled, String.ofList_toList]
  · rw [raw, Option.bind_some, declaredWidth?_of_spelled spelled, unit, ← number]
    rfl

/-- The thickness of a border: its own if that is set, and else the common one. -/
def edge (r : Resolution) (name : String) : Float :=
  match r.raw? name, r.raw? "border" with
  | some text, _ => borderThickness text
  | none, some text => borderThickness text
  | none, none => 0

private theorem thickness_eq_edge (defaults own : Table String) (name : String) :
    (Border.ofAttributes (resolve c defaults own)).thickness ((resolve c defaults own).raw? name) =
      (resolve c defaults own).edge name := by
  have common : (Border.ofAttributes (resolve c defaults own)).common =
    (resolve c defaults own).raw? "border" := rfl
  rw [edge]
  cases isSet : (resolve c defaults own).raw? name with
  | none =>
    rw [Border.thickness_of_absent (.inl rfl), common]
    cases (resolve c defaults own).raw? "border" <;> rfl
  | some text =>
    obtain ⟨setting, found, rfl⟩ := Option.map_eq_some_iff.mp isSet
    exact Border.thickness_of_nonempty (raw_ne_empty_of_get? found)

/-- What the paddings and the borders of a label leave of a width. -/
def room (r : Resolution) (width : Float) : Float :=
  width - (r.side "inner-padding" .left + r.side "inner-padding" .right)
    - (r.edge "border-left" + r.edge "border-right")

private theorem contentWidth_eq (defaults own : Table String) :
    Component.badge.contentWidth (resolve .badge defaults own) =
      match ((resolve .badge defaults own).raw? "width").bind declaredWidth? with
      | some ⟨width, .px⟩ => some ((resolve .badge defaults own).room width)
      | _ => none := by
  rw [Component.contentWidth, innerWidth]
  cases ((resolve .badge defaults own).raw? "width").bind declaredWidth? with
  | none => rfl
  | some declared =>
    obtain ⟨width, unit⟩ := declared
    cases unit with
    | px =>
      simp only [room, ← thickness_eq_edge]
      rfl
    | _ => rfl

end Resolution

private theorem Component.contentWidth_of_unset {r : Resolution} (unset : r.value? "width" = none) :
    Component.badge.contentWidth r = none := by
  have noText : r.raw? "width" = none :=
    Option.map_eq_none_iff.mpr (Option.map_eq_none_iff.mp unset)
  rw [contentWidth, innerWidth, noText]
  rfl

/-- A badge whose label has less than no room left is reported. -/
theorem impossibleBox_of_visit {s : Setup} {context : Context} {n : Node} {w : Float}
    (known : Component.ofTag? n.tag = some .badge)
    (width : (s.bundle context .badge n).contentWidth = some w) (negative : w < 0) :
    .impossibleBox "mj-badge" w ∈ Events.diagnostics (visit s context n).events := by
  have opened := (opening_prefix_visit s context known).subset
    (Setup.overfull_mem_opening width negative)
  exact List.mem_filterMap.mpr ⟨_, opened, rfl⟩

/-- What the label of a badge has of the width that is set. -/
structure Resolution.HasRoom (r : Resolution) : Prop where
  unset : r.value? "width" = none → Component.badge.contentWidth r = none
  percent : ∀ w, r.value? "width" = some (.length ⟨w, .percent⟩) →
    Component.badge.contentWidth r = none
  /-- The label has a width if the numeral starts and ends with a digit, and only then. -/
  pixels : ∀ w, r.value? "width" = some (.length ⟨w, .px⟩) →
    ∃ (n : Numeral) (unit : LengthUnit),
      r.raw? "width" = some (String.ofList (n.spelled ++ unit.suffix.toList)) ∧ w = n.value ∧
      Component.badge.contentWidth r = if n.IsPlain then some (r.room w) else none
  /-- A width is not set to anything else. -/
  cases : ∀ value, r.value? "width" = some value →
    ∃ w, value = .length ⟨w, .px⟩ ∨ value = .length ⟨w, .percent⟩

/-- The box of a badge reads the width that is set if its numeral is plain, and a negative rest is
reported wherever the badge stands. -/
theorem contentWidth_reads_width (defaults own : Table String) :
    (Resolution.resolve .badge defaults own).HasRoom ∧
      ∀ (s : Setup) (context : Context) (n : Node), Component.ofTag? n.tag = some .badge →
        ∀ w, (s.bundle context .badge n).contentWidth = some w → w < 0 →
          .impossibleBox "mj-badge" w ∈ Events.diagnostics (visit s context n).events := by
  refine ⟨{ unset := Component.contentWidth_of_unset, percent := ?_, pixels := ?_, cases := ?_ },
    fun s context n known w width negative => impossibleBox_of_visit known width negative⟩
  · intro w isSet
    obtain ⟨l, n, unit, same, -, -, -, read⟩ := Resolution.exists_spelling_of_width isSet
    cases same
    rw [Resolution.contentWidth_eq, read]
    by_cases plain : n.IsPlain <;> simp [plain]
  · intro w isSet
    obtain ⟨l, n, unit, same, raw, number, -, read⟩ := Resolution.exists_spelling_of_width isSet
    cases same
    refine ⟨n, unit, raw, number, ?_⟩
    rw [Resolution.contentWidth_eq, read]
    by_cases plain : n.IsPlain <;> simp [plain]
  · intro value isSet
    obtain ⟨⟨w, unit⟩, n, -, rfl, -, -, known, -⟩ := Resolution.exists_spelling_of_width isSet
    rcases known with rfl | rfl
    · exact ⟨w, .inl rfl⟩
    · exact ⟨w, .inr rfl⟩

/-- Half a pixel counts, and the label has less than no room. -/
theorem contentWidth_reads_width_narrow :
    let own : Table String := .ofList [("inner-padding", "15px"), ("width", "20.5px")]
    let s : Setup := ⟨.empty, Template.standard⟩
    let badge : Node := { tag := "mj-badge", attributes := own }
    Component.ofTag? badge.tag = some .badge ∧ ∃ w, w < 0 ∧ Decimal.text w = "-11.5" ∧
      (s.bundle ⟨600, none⟩ .badge badge).contentWidth = some w ∧
      (Resolution.resolve .badge .empty own).HasRoom ∧
      .impossibleBox "mj-badge" w ∈ Events.diagnostics (visit s ⟨600, none⟩ badge).events := by
  intro own s badge
  have known : Component.ofTag? badge.tag = some .badge := by decide
  have given : (s.bundle ⟨600, none⟩ .badge badge).contentWidth.any (fun w =>
      decide (w < 0) && Decimal.text w == "-11.5") = true := by decide +kernel
  obtain ⟨w, width, given⟩ := (Option.any_eq_true _ _).mp given
  obtain ⟨negative, written⟩ := Bool.and_eq_true_iff.mp given
  have room := contentWidth_reads_width .empty own
  exact ⟨known, w, of_decide_eq_true negative, beq_iff_eq.mp written, width, room.1,
    room.2 s ⟨600, none⟩ badge known w width (of_decide_eq_true negative)⟩

/-- A width whose numeral ends with its point is set in pixels, but leaves the label without a
width. -/
theorem contentWidth_reads_width_pointed :
    let own : Table String := .ofList [("width", "200.px")]
    ∃ w, (Resolution.resolve .badge .empty own).value? "width" = some (.length ⟨w, .px⟩) ∧
      (w == 200) = true ∧
      Component.badge.contentWidth (Resolution.resolve .badge .empty own) = none ∧
      Component.badge.contentWidth (Resolution.resolve .badge .empty own) ≠
        some ((Resolution.resolve .badge .empty own).room w) := by
  intro own
  have given : (Context.ownWidth? (.resolve .badge .empty own)).any (· == 200) = true := by
    decide +kernel
  have noRoom : (Component.badge.contentWidth (.resolve .badge .empty own)).isNone = true := by
    decide +kernel
  rw [Option.isNone_iff_eq_none] at noRoom
  obtain ⟨w, isSet, value⟩ := (Option.any_eq_true _ _).mp given
  unfold Context.ownWidth? at isSet
  split at isSet
  · next width found =>
    cases isSet
    exact ⟨w, found, value, noRoom, noRoom ▸ (Option.some_ne_none _).symm⟩
  · cases isSet

end MailMarkup
