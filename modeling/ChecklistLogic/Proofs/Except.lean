import Mathlib.Data.List.Forall2

/-!
# ChecklistLogic — results that may be failures

The stages of reading are chained as `Except` computations. A chain succeeds exactly if each of its
links does, and it fails as the first link that fails; these lemmas take a chain apart.

* `Except.bind_eq_ok_iff`, `Except.map_eq_ok_iff`, `Except.mapError_eq_ok_iff` — one link of a chain
  that succeeds; `Except.bind_eq_error_iff` and so on — one of a chain that fails.
* `Except.mapM_eq_ok_iff`, `Except.mapM_eq_error_iff` — a link for every element of a list.
-/

namespace Except

variable {ε ε' α β : Type}

theorem bind_eq_ok_iff {x : Except ε α} {f : α → Except ε β} {result : β} :
    x >>= f = .ok result ↔ ∃ a, x = .ok a ∧ f a = .ok result := by
  cases x with
  | error e => simp [bind, Except.bind]
  | ok a => simp [bind, Except.bind]

theorem map_eq_ok_iff {x : Except ε α} {f : α → β} {result : β} :
    f <$> x = .ok result ↔ ∃ a, x = .ok a ∧ f a = result := by
  cases x with
  | error e => simp [Functor.map, Except.map]
  | ok a => simp [Functor.map, Except.map]

theorem mapError_eq_ok_iff {x : Except ε α} {f : ε → ε'} {result : α} :
    x.mapError f = .ok result ↔ x = .ok result := by
  cases x with
  | error e => simp [Except.mapError]
  | ok a => simp [Except.mapError]

theorem bind_eq_error_iff {x : Except ε α} {f : α → Except ε β} {e : ε} :
    x >>= f = .error e ↔ x = .error e ∨ ∃ a, x = .ok a ∧ f a = .error e := by
  cases x with
  | error other => simp [bind, Except.bind]
  | ok a => simp [bind, Except.bind]

theorem map_eq_error_iff {x : Except ε α} {f : α → β} {e : ε} :
    f <$> x = .error e ↔ x = .error e := by
  cases x with
  | error other => simp [Functor.map, Except.map]
  | ok a => simp [Functor.map, Except.map]

theorem mapError_eq_error_iff {x : Except ε α} {f : ε → ε'} {e : ε'} :
    x.mapError f = .error e ↔ ∃ cause, x = .error cause ∧ f cause = e := by
  cases x with
  | error cause => simp [Except.mapError]
  | ok a => simp [Except.mapError]

/-- Chains with the same first link are the same if they go on alike where that succeeds. -/
theorem bind_congr_ok {x : Except ε α} {f g : α → Except ε β}
    (hNext : ∀ a, x = .ok a → f a = g a) : x >>= f = x >>= g := by
  cases x with
  | error e => rfl
  | ok a => exact hNext a rfl

theorem map_mapError (f : ε → ε') (g : α → β) (x : Except ε α) :
    g <$> x.mapError f = (g <$> x).mapError f := by
  cases x <;> rfl

/-- Results that are the same but for what is left out of their errors. -/
theorem mapError_eq_mapError_iff {x y : Except ε α} {f : ε → ε'} :
    x.mapError f = y.mapError f ↔ (∃ a, x = .ok a ∧ y = .ok a) ∨
      ∃ e other, x = .error e ∧ y = .error other ∧ f e = f other := by
  cases x <;> cases y <;> simp [Except.mapError, eq_comm]

/-- Links that are the same but for what is left out of their errors make up such chains. -/
theorem mapError_bind_congr {x y : Except ε α} {g h : α → Except ε β} {f : ε → ε'}
    (hFirst : x.mapError f = y.mapError f)
    (hNext : ∀ a, (g a).mapError f = (h a).mapError f) :
    (x >>= g).mapError f = (y >>= h).mapError f := by
  rcases mapError_eq_mapError_iff.1 hFirst with ⟨a, rfl, rfl⟩ | ⟨e, other, rfl, rfl, hSame⟩
  · exact hNext a
  · exact congrArg Except.error hSame

theorem mapM_cons_of_ok {f : α → Except ε β} {item : α} {rest : List α} {result : β}
    (hItem : f item = .ok result) :
    (item :: rest).mapM f = (result :: ·) <$> rest.mapM f := by
  rw [List.mapM_cons, hItem]
  cases rest.mapM f <;> rfl

theorem mapM_cons_of_error {f : α → Except ε β} {item : α} {rest : List α} {e : ε}
    (hItem : f item = .error e) : (item :: rest).mapM f = .error e := by
  rw [List.mapM_cons, hItem]
  rfl

/-- A list is mapped if each element of it is. -/
theorem mapM_eq_ok_iff {f : α → Except ε β} {items : List α} {results : List β} :
    items.mapM f = .ok results ↔
      List.Forall₂ (fun item result => f item = .ok result) items results := by
  induction items generalizing results with
  | nil => cases results <;> simp [pure, Except.pure]
  | cons item rest ih =>
    cases hItem : f item with
    | error e =>
      rw [mapM_cons_of_error hItem]
      cases results <;> simp [hItem]
    | ok first =>
      rw [mapM_cons_of_ok hItem, map_eq_ok_iff]
      constructor
      · rintro ⟨others, hOthers, rfl⟩
        exact .cons hItem (ih.1 hOthers)
      · rintro (_ | ⟨hFirst, hOthers⟩)
        rw [hItem] at hFirst
        cases hFirst
        exact ⟨_, ih.2 hOthers, rfl⟩

/-- The first element that fails decides how a list fails. -/
theorem mapM_eq_error_iff {f : α → Except ε β} {items : List α} {e : ε} :
    items.mapM f = .error e ↔ ∃ before item after, items = before ++ item :: after ∧
      (∀ earlier ∈ before, ∃ result, f earlier = .ok result) ∧ f item = .error e := by
  induction items with
  | nil => simp [pure, Except.pure]
  | cons item rest ih =>
    cases hItem : f item with
    | error first =>
      rw [mapM_cons_of_error hItem]
      constructor
      · intro hError
        cases hError
        exact ⟨[], item, rest, rfl, by simp, hItem⟩
      · rintro ⟨before, failing, after, hItems, hBefore, hFails⟩
        cases before with
        | nil =>
          obtain ⟨rfl, -⟩ := List.cons.inj hItems
          rw [Except.error.inj (hItem.symm.trans hFails)]
        | cons earlier others =>
          obtain ⟨rfl, -⟩ := List.cons.inj hItems
          obtain ⟨result, hResult⟩ := hBefore item (by simp)
          rw [hItem] at hResult
          cases hResult
    | ok result =>
      have hRest : (item :: rest).mapM f = .error e ↔ rest.mapM f = .error e := by
        rw [mapM_cons_of_ok hItem, map_eq_error_iff]
      rw [hRest, ih]
      constructor
      · rintro ⟨before, failing, after, rfl, hBefore, hFails⟩
        refine ⟨item :: before, failing, after, rfl, ?_, hFails⟩
        intro earlier hMem
        rcases List.mem_cons.1 hMem with rfl | hMem
        · exact ⟨result, hItem⟩
        · exact hBefore earlier hMem
      · rintro ⟨before, failing, after, hItems, hBefore, hFails⟩
        cases before with
        | nil =>
          obtain ⟨rfl, -⟩ := List.cons.inj hItems
          rw [hItem] at hFails
          cases hFails
        | cons earlier others =>
          obtain ⟨rfl, rfl⟩ := List.cons.inj hItems
          exact ⟨others, failing, after, rfl, fun other hMem => hBefore other (by simp [hMem]),
            hFails⟩

/-- Lists whose elements have the same outcomes one by one have the same outcome. -/
theorem mapM_congr {γ : Type} {f : α → Except ε γ} {g : β → Except ε γ} {items : List α}
    {others : List β} (hSame : List.Forall₂ (fun item other => f item = g other) items others) :
    items.mapM f = others.mapM g := by
  induction hSame with
  | nil => rfl
  | cons hHead _ ih => rw [List.mapM_cons, List.mapM_cons, hHead, ih]

end Except
