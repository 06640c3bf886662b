import MailMarkup.Decimal.Positional
import Mathlib.Data.List.TakeWhile

/-!
# Runs

Where a run of items of one kind ends, whatever reads the run stops.
-/
namespace MailMarkup

variable {α : Type}

/-- The items of a run have a property that the next item has not. -/
structure IsRun (p : α → Bool) (run rest : List α) : Prop where
  all : ∀ c ∈ run, p c = true
  stops : rest.head?.any p = false

namespace IsRun

variable {p : α → Bool} {run rest : List α}

theorem of_while (p : α → Bool) (xs : List α) :
    IsRun p (xs.takeWhile p) (xs.dropWhile p) where
  all := List.all_eq_true.mp List.all_takeWhile
  stops := by
    have head := List.head?_dropWhile_not p xs
    cases next : (xs.dropWhile p).head? with
    | none => rfl
    | some x =>
      rw [next] at head
      exact head

theorem goesOn (h : IsRun p run rest) {other : List α} (same : other.head? = rest.head?) :
    IsRun p run other :=
  ⟨h.all, same ▸ h.stops⟩

theorem takeWhile_eq (h : IsRun p run rest) : (run ++ rest).takeWhile p = run := by
  rw [List.takeWhile_append_of_pos h.all]
  cases rest with
  | nil => exact List.append_nil run
  | cons x rest =>
    have stops : ¬ p x = true := by simpa using h.stops
    rw [List.takeWhile_cons_of_neg stops, List.append_nil]

theorem dropWhile_eq (h : IsRun p run rest) : (run ++ rest).dropWhile p = rest := by
  rw [List.dropWhile_append_of_pos h.all]
  cases rest with
  | nil => rfl
  | cons x rest =>
    have stops : ¬ p x = true := by simpa using h.stops
    rw [List.dropWhile_cons_of_neg stops]

end IsRun

theorem Decimal.digitRun_eq {digits rest : List Char} (h : IsRun Char.isDigit digits rest) :
    digitRun (digits ++ rest) = (digits, rest) := by
  rw [digitRun, h.takeWhile_eq, h.dropWhile_eq]

end MailMarkup
