import Mathlib.Data.List.Forall2

/-!
# The first failure of a list of computations

Computations that are done one after another over a list succeed when each of them does, and fail
with the failure of the first that fails, everything before it having succeeded.
-/
namespace MailMarkup.FirstFailure

variable {ε α β σ : Type}

theorem toOption_eq_some_iff {r : Except ε α} {a : α} : r.toOption = some a ↔ r = .ok a := by
  cases r <;> simp [Except.toOption]

theorem map_eq_error_iff {f : α → β} {r : Except ε α} {e : ε} :
    r.map f = .error e ↔ r = .error e := by
  cases r <;> simp [Except.map]

theorem map_succeeds_iff {f : α → β} {r : Except ε α} :
    (∃ b, r.map f = .ok b) ↔ ∃ a, r = .ok a := by
  cases r <;> simp [Except.map]

theorem map_eq_ok_iff {f : α → β} {r : Except ε α} {b : β} :
    r.map f = .ok b ↔ ∃ a, r = .ok a ∧ f a = b := by
  cases r <;> simp [Except.map]

theorem bind_eq_ok_iff {f : α → Except ε β} {r : Except ε α} {b : β} :
    r.bind f = .ok b ↔ ∃ a, r = .ok a ∧ f a = .ok b := by
  cases r <;> simp [Except.bind]

/-- If what comes second cannot fail on a result of what comes first, only the first can. -/
theorem bind_eq_error_iff {f : α → Except ε β} {r : Except ε α} {e : ε}
    (total : ∀ a, r = .ok a → ∃ b, f a = .ok b) : r.bind f = .error e ↔ r = .error e := by
  cases r with
  | error first => simp [Except.bind]
  | ok a =>
    obtain ⟨b, answer⟩ := total a rfl
    simp [Except.bind, answer]

theorem bind_succeeds_iff {f : α → Except ε β} {r : Except ε α}
    (total : ∀ a, r = .ok a → ∃ b, f a = .ok b) : (∃ b, r.bind f = .ok b) ↔ ∃ a, r = .ok a := by
  constructor
  · rintro ⟨b, h⟩
    obtain ⟨a, ha, -⟩ := bind_eq_ok_iff.mp h
    exact ⟨a, ha⟩
  · rintro ⟨a, ha⟩
    obtain ⟨b, answer⟩ := total a ha
    exact ⟨b, bind_eq_ok_iff.mpr ⟨a, ha, answer⟩⟩

theorem mapM_cons_of_ok {f : α → Except ε β} {x : α} {y : β} (h : f x = .ok y) (xs : List α) :
    (x :: xs).mapM f = (xs.mapM f).map (y :: ·) := by
  rw [List.mapM_cons, h]
  cases xs.mapM f <;> rfl

theorem mapM_cons_of_error {f : α → Except ε β} {x : α} {e : ε} (h : f x = .error e)
    (xs : List α) : (x :: xs).mapM f = .error e := by
  rw [List.mapM_cons, h]
  rfl

theorem mapM_eq_ok_iff {f : α → Except ε β} {xs : List α} {ys : List β} :
    xs.mapM f = .ok ys ↔ List.Forall₂ (fun x y => f x = .ok y) xs ys := by
  induction xs generalizing ys with
  | nil => cases ys <;> simp [pure, Except.pure]
  | cons x xs ih =>
    cases h : f x with
    | error e => cases ys <;> simp [mapM_cons_of_error h, h]
    | ok y =>
      rw [mapM_cons_of_ok h]
      cases rest : xs.mapM f with
      | error e => cases ys <;> simp [Except.map, ← ih, rest]
      | ok zs => cases ys <;> simp [Except.map, ← ih, rest, h]

theorem mapM_succeeds_iff {f : α → Except ε β} {xs : List α} :
    (∃ ys, xs.mapM f = .ok ys) ↔ ∀ x ∈ xs, ∃ y, f x = .ok y := by
  induction xs with
  | nil => simp [pure, Except.pure]
  | cons x xs ih =>
    rw [List.forall_mem_cons, ← ih]
    cases h : f x with
    | error e => simp [mapM_cons_of_error h]
    | ok y => simp [mapM_cons_of_ok h, map_succeeds_iff]

/-- The failure reported is the one of the first computation that fails. -/
theorem mapM_eq_error_iff {f : α → Except ε β} {xs : List α} {e : ε} :
    xs.mapM f = .error e ↔ ∃ before x after, xs = before ++ x :: after ∧
      (∀ b ∈ before, ∃ y, f b = .ok y) ∧ f x = .error e := by
  induction xs with
  | nil => simp [pure, Except.pure]
  | cons x xs ih =>
    cases h : f x with
    | error first =>
      rw [mapM_cons_of_error h]
      constructor
      · rintro ⟨⟩
        exact ⟨[], x, xs, rfl, by simp, h⟩
      · rintro ⟨before, z, after, split, succeed, fails⟩
        cases before with
        | nil =>
          cases split
          cases h.symm.trans fails
          rfl
        | cons b before =>
          cases split
          obtain ⟨y, hy⟩ := succeed x List.mem_cons_self
          cases h.symm.trans hy
    | ok y =>
      rw [mapM_cons_of_ok h, map_eq_error_iff, ih]
      constructor
      · rintro ⟨before, z, after, rfl, succeed, fails⟩
        exact ⟨x :: before, z, after, rfl, List.forall_mem_cons.mpr ⟨⟨y, h⟩, succeed⟩, fails⟩
      · rintro ⟨before, z, after, split, succeed, fails⟩
        cases before with
        | nil =>
          cases split
          cases h.symm.trans fails
        | cons b before =>
          cases split
          exact ⟨before, z, after, rfl, (List.forall_mem_cons.mp succeed).2, fails⟩

/-- Two runs over lists that correspond to each other agree in what each pair of steps agrees in. -/
theorem map_eq_of_mapM_ok {α' β' γ : Type} {f : α → Except ε β} {f' : α' → Except ε β'}
    {g : α → α'} {view : β → γ} {view' : β' → γ} {xs : List α} {ys : List β} {ys' : List β'}
    (first : xs.mapM f = .ok ys) (second : (xs.map g).mapM f' = .ok ys')
    (same : ∀ x ∈ xs, ∀ y y', f x = .ok y → f' (g x) = .ok y' → view' y' = view y) :
    ys'.map view' = ys.map view := by
  rw [mapM_eq_ok_iff] at first second
  induction first generalizing ys' with
  | nil =>
    cases second
    rfl
  | cons head rest ih =>
    obtain ⟨here, below⟩ := List.forall_mem_cons.mp same
    rw [List.map_cons] at second
    cases second with
    | cons head' rest' => rw [List.map_cons, List.map_cons, here _ _ head head', ih rest' below]

theorem forall_of_mapM_ok {P : β → Prop} {f : α → Except ε β} {xs : List α} {ys : List β}
    (each : ∀ x ∈ xs, ∀ y, f x = .ok y → P y) (h : xs.mapM f = .ok ys) : ∀ y ∈ ys, P y := by
  rw [mapM_eq_ok_iff] at h
  induction h with
  | nil => exact List.forall_mem_nil P
  | cons first rest ih =>
    obtain ⟨here, below⟩ := List.forall_mem_cons.mp each
    exact List.forall_mem_cons.mpr ⟨here _ first, ih below⟩

theorem foldlM_cons_of_ok {f : σ → α → Except ε σ} {s s' : σ} {x : α} (h : f s x = .ok s')
    (xs : List α) : (x :: xs).foldlM f s = xs.foldlM f s' := by
  rw [List.foldlM_cons, h]
  rfl

theorem foldlM_append_of_ok {f : σ → α → Except ε σ} {s s' : σ} {xs : List α}
    (h : xs.foldlM f s = .ok s') (others : List α) :
    (xs ++ others).foldlM f s = others.foldlM f s' := by
  rw [List.foldlM_append, h]
  rfl

/-- What every successful step carries on from the items before it holds of all items at the end of
a run that succeeds. -/
theorem foldlM_follows {P : List α → σ → Prop} {f : σ → α → Except ε σ}
    (step : ∀ before s x next, P before s → f s x = .ok next → P (before ++ [x]) next)
    {xs : List α} {s last : σ} (before : List α) (start : P before s)
    (h : xs.foldlM f s = .ok last) : P (before ++ xs) last := by
  induction xs generalizing before s with
  | nil =>
    cases h
    rwa [List.append_nil]
  | cons x xs ih =>
    rw [List.foldlM_cons] at h
    obtain ⟨next, first, rest⟩ := bind_eq_ok_iff.mp h
    rw [List.append_cons]
    exact ih (before ++ [x]) (step before s x next start first) rest

/-- What every successful step keeps holds at the end of a run that succeeds. -/
theorem foldlM_preserves {P : σ → Prop} {f : σ → α → Except ε σ}
    (step : ∀ s x next, P s → f s x = .ok next → P next) {xs : List α} {s last : σ} (start : P s)
    (h : xs.foldlM f s = .ok last) : P last :=
  foldlM_follows (P := fun _ => P) (fun _ => step) [] start h

/-- If an item of a kind replaces what is viewed of the state, by something read off the item alone,
and the other items leave it, then all items of the kind are read and the last of them counts. -/
theorem exists_mapM_of_foldlM {γ : Type} (kind : α → Bool) (read : α → Except ε β) (value : β → γ)
    (view : σ → γ) {f : σ → α → Except ε σ}
    (hit : ∀ s x next, kind x = true → f s x = .ok next →
      ∃ b, read x = .ok b ∧ view next = value b)
    (miss : ∀ s x next, kind x = false → f s x = .ok next → view next = view s)
    {xs : List α} {s last : σ} (h : xs.foldlM f s = .ok last) :
    ∃ bs, (xs.filter kind).mapM read = .ok bs ∧
      view last = (bs.getLast?.map value).getD (view s) := by
  induction xs generalizing s with
  | nil =>
    cases h
    exact ⟨[], rfl, rfl⟩
  | cons x xs ih =>
    rw [List.foldlM_cons] at h
    obtain ⟨next, first, rest⟩ := bind_eq_ok_iff.mp h
    obtain ⟨bs, reads, seen⟩ := ih rest
    cases here : kind x with
    | true =>
      obtain ⟨b, readFirst, seenFirst⟩ := hit s x next here first
      refine ⟨b :: bs, ?_, ?_⟩
      · rw [List.filter_cons_of_pos here, mapM_cons_of_ok readFirst, reads]
        rfl
      · rw [seen, seenFirst, List.getLast?_cons]
        cases bs.getLast? <;> rfl
    | false =>
      refine ⟨bs, ?_, ?_⟩
      · rw [List.filter_cons_of_neg (by simp [here]), reads]
      · rw [seen, miss s x next here first]

/-- What is written into the state before a run is there at its end, unless an item of the kind that
replaces it comes. -/
theorem foldlM_write {γ : Type} (kind : α → Bool) (write : σ → γ → σ) {f : σ → α → Except ε σ}
    (hit : ∀ s v x, kind x = true → f (write s v) x = f s x)
    (miss : ∀ s v x, kind x = false → f (write s v) x = (f s x).map (write · v))
    (xs : List α) (s : σ) (v : γ) :
    xs.foldlM f (write s v) =
      if xs.any kind then xs.foldlM f s else (xs.foldlM f s).map (write · v) := by
  induction xs generalizing s with
  | nil => rfl
  | cons x xs ih =>
    rw [List.foldlM_cons, List.foldlM_cons, List.any_cons]
    cases here : kind x with
    | true => rw [hit s v x here, Bool.true_or, if_pos rfl]
    | false =>
      rw [miss s v x here, Bool.false_or]
      cases f s x with
      | error e => exact (ite_self _).symm
      | ok next => exact ih next

/-- The result is a failure if and only if there are problems, and then with the first of them. -/
def Reports (r : Except ε α) (problems : List ε) : Prop :=
  ∀ e, r = .error e ↔ problems.head? = some e

namespace Reports

variable {r : Except ε α} {problems others : List ε}

theorem ok (a : α) : Reports (.ok a : Except ε α) [] := by
  intro e
  simp

theorem error (e : ε) (rest : List ε) : Reports (.error e : Except ε α) (e :: rest) := by
  intro first
  simp

theorem eq_nil (h : Reports r problems) {a : α} (succeeds : r = .ok a) : problems = [] := by
  cases problems with
  | nil => rfl
  | cons e rest =>
    have fails := (h e).mpr rfl
    rw [succeeds] at fails
    cases fails

theorem succeeds_iff (h : Reports r problems) : (∃ a, r = .ok a) ↔ problems = [] := by
  constructor
  · rintro ⟨a, succeeds⟩
    exact h.eq_nil succeeds
  · rintro rfl
    cases fails : r with
    | ok a => exact ⟨a, rfl⟩
    | error e => cases (h e).mp fails

theorem map (h : Reports r problems) (f : α → β) : Reports (r.map f) problems :=
  fun e => map_eq_error_iff.trans (h e)

/-- The problems of what comes second count if what comes first has none. -/
theorem bind {f : α → Except ε β} (h : Reports r problems)
    (next : ∀ a, r = .ok a → Reports (f a) others) : Reports (r.bind f) (problems ++ others) := by
  intro e
  cases result : r with
  | error first =>
    have found := (h first).mp result
    simp [Except.bind, List.head?_append, found]
  | ok a =>
    rw [h.eq_nil result, List.nil_append]
    exact next a result e

theorem mapM {f : α → Except ε β} {faults : α → List ε} (each : ∀ x, Reports (f x) (faults x))
    (xs : List α) : Reports (xs.mapM f) (xs.flatMap faults) := by
  induction xs with
  | nil => exact ok []
  | cons x xs ih =>
    rw [List.mapM_cons, List.flatMap_cons]
    exact (each x).bind fun y _ => ih.map (y :: ·)

/-- The problems of an item do not depend on what the items before it have led to. -/
theorem foldlM {f : σ → α → Except ε σ} {faults : α → List ε}
    (each : ∀ s x, Reports (f s x) (faults x)) (xs : List α) (s : σ) :
    Reports (xs.foldlM f s) (xs.flatMap faults) := by
  induction xs generalizing s with
  | nil => exact ok s
  | cons x xs ih =>
    rw [List.foldlM_cons, List.flatMap_cons]
    exact (each s x).bind fun next _ => ih next

end Reports

end MailMarkup.FirstFailure
