import Mathlib.Data.List.Forall2
/-!
# Outcomes — what goes through and what fails

A list is worked through item by item. It goes through just if every item does,
and each result stands where its item does (`Except.mapM_eq_ok`); it fails with
the failure of one of them (`Except.exists_mem_of_mapM`). What is undone or
brought back for each item is so for the list.
-/

namespace Cutscene

namespace Except

variable {α β ε : Type}

theorem bind_eq_ok_iff {x : Except ε α} {f : α → Except ε β} {b : β} :
    x >>= f = .ok b ↔ ∃ a, x = .ok a ∧ f a = .ok b := by
  cases x <;> simp [bind, Except.bind]

theorem bind_eq_error_iff {x : Except ε α} {f : α → Except ε β} {err : ε} :
    x >>= f = .error err ↔ x = .error err ∨ ∃ a, x = .ok a ∧ f a = .error err := by
  cases x <;> simp [bind, Except.bind]

theorem eq_ok_of_toOption {x : Except ε α} {a : α} (h : x.toOption = some a) : x = .ok a := by
  cases x with
  | error err => simp [Except.toOption] at h
  | ok b => rw [Option.some.inj h]

/-- **A list goes through just if every item does.** -/
theorem mapM_eq_ok {f : α → Except ε β} {as : List α} {bs : List β} :
    as.mapM f = .ok bs ↔ List.Forall₂ (fun a b => f a = .ok b) as bs := by
  induction as generalizing bs with
  | nil =>
    rw [List.mapM_nil, List.forall₂_nil_left_iff]
    exact ⟨fun h => (Except.ok.inj h).symm, fun h => h ▸ rfl⟩
  | cons a as ih =>
    rw [List.mapM_cons, bind_eq_ok_iff, List.forall₂_cons_left_iff]
    simp only [bind_eq_ok_iff, ih, pure, Except.pure, Except.ok.injEq]
    constructor
    · rintro ⟨b, hb, bs, hbs, rfl⟩
      exact ⟨b, bs, hb, hbs, rfl⟩
    · rintro ⟨b, bs, hb, hbs, rfl⟩
      exact ⟨b, hb, bs, hbs, rfl⟩

/-- What is undone item by item is undone for the whole list. -/
theorem mapM_map {f : α → β} {g : β → Except ε α} {as : List α}
    (h : ∀ a ∈ as, g (f a) = .ok a) : (as.map f).mapM g = .ok as := by
  rw [mapM_eq_ok]
  induction as with
  | nil => exact .nil
  | cons a as ih =>
    obtain ⟨ha, has⟩ := List.forall_mem_cons.1 h
    exact .cons ha (ih has)

/-- A list fails with the failure of one of its items. -/
theorem exists_mem_of_mapM {f : α → Except ε β} {as : List α} {err : ε}
    (h : as.mapM f = .error err) : ∃ a ∈ as, f a = .error err := by
  induction as with
  | nil => simp [pure, Except.pure] at h
  | cons a as ih =>
    rw [List.mapM_cons, bind_eq_error_iff] at h
    rcases h with ha | ⟨b, -, h⟩
    · exact ⟨a, List.mem_cons_self, ha⟩
    rcases bind_eq_error_iff.1 h with has | ⟨bs, -, h⟩
    · obtain ⟨a', ha', herr⟩ := ih has
      exact ⟨a', List.mem_cons_of_mem _ ha', herr⟩
    · simp [pure, Except.pure] at h

/-- Every item of a list that goes through goes through. -/
theorem exists_ok_of_mapM {f : α → Except ε β} {as : List α} {bs : List β}
    (h : as.mapM f = .ok bs) : ∀ a ∈ as, ∃ b, f a = .ok b := by
  have hpairs := mapM_eq_ok.1 h
  clear h
  induction hpairs with
  | nil => simp
  | cons hab _ ih => exact List.forall_mem_cons.2 ⟨⟨_, hab⟩, ih⟩

/-- What brings back each item brings back the list. -/
theorem map_of_mapM {f : α → Except ε β} {g : β → α} (hback : ∀ {a b}, f a = .ok b → g b = a)
    {as : List α} {bs : List β} (h : as.mapM f = .ok bs) : bs.map g = as := by
  have hpairs : List.Forall₂ (fun b a => g b = a) bs as :=
    (mapM_eq_ok.1 h).flip.imp fun _ _ hab => hback hab
  rwa [← List.forall₂_map_left_iff, List.forall₂_eq_eq_eq] at hpairs

end Except

/-- What holds of the items holds of the results that they determine. -/
theorem forall_of_forall₂ {α β : Type} {r : α → β → Prop} {p : α → Prop} {q : β → Prop}
    (hr : ∀ {a b}, p a → r a b → q b) {as : List α} {bs : List β} (h : List.Forall₂ r as bs)
    (hp : ∀ a ∈ as, p a) : ∀ b ∈ bs, q b := by
  induction h with
  | nil => simp
  | cons hab _ ih =>
    obtain ⟨ha, has⟩ := List.forall_mem_cons.1 hp
    exact List.forall_mem_cons.2 ⟨hr ha hab, ih has⟩

end Cutscene
