/-
  BootSeal — steps that may fail: what is known when a chain of them succeeds, and
  what all of its errors have in common (`FailsWith`).
-/
import Mathlib.Data.List.Forall2

namespace BootSeal

theorem bind_eq_ok {ε α β : Type} {x : Except ε α} {f : α → Except ε β} {b : β} :
    (x >>= f) = .ok b ↔ ∃ a, x = .ok a ∧ f a = .ok b := by
  cases x with
  | ok a => exact ⟨fun h => ⟨a, rfl, h⟩, fun ⟨_, ha, h⟩ => by cases ha; exact h⟩
  | error e => exact ⟨nofun, nofun⟩

theorem bind_eq_error {ε α β : Type} {x : Except ε α} {f : α → Except ε β} {e : ε} :
    (x >>= f) = .error e ↔ x = .error e ∨ ∃ a, x = .ok a ∧ f a = .error e := by
  cases x with
  | ok a =>
    refine ⟨fun h => Or.inr ⟨a, rfl, h⟩, ?_⟩
    rintro (h | ⟨_, ⟨⟩, h⟩)
    · cases h
    · exact h
  | error e' =>
    constructor
    · intro h
      cases h
      exact Or.inl rfl
    · rintro (h | ⟨_, h, _⟩)
      · cases h
        rfl
      · cases h

theorem bind_of_eq_ok {ε α β : Type} {x : Except ε α} {f : α → Except ε β} {a : α}
    {r : Except ε β} (hx : x = .ok a) (h : f a = r) : (x >>= f) = r := by
  rw [hx]; exact h

/-- A step that undoes another one, for all of a list. -/
theorem mapM_map_eq_ok {ε α β : Type} {g : α → β} {f : β → Except ε α} {l : List α}
    (h : ∀ a ∈ l, f (g a) = .ok a) : (l.map g).mapM f = .ok l := by
  induction l with
  | nil => rfl
  | cons a l ih =>
    obtain ⟨ha, hl⟩ := List.forall_mem_cons.1 h
    rw [List.map_cons, List.mapM_cons, ha]
    exact bind_of_eq_ok rfl (bind_of_eq_ok (ih hl) rfl)

/-- A step for all of a list succeeds if it does for each of them. -/
theorem mapM_eq_ok_iff {ε α β : Type} {f : α → Except ε β} {l : List α} {bs : List β} :
    l.mapM f = .ok bs ↔ List.Forall₂ (fun a b => f a = .ok b) l bs := by
  induction l generalizing bs with
  | nil =>
    rw [List.mapM_nil, List.forall₂_nil_left_iff]
    exact ⟨fun h => (Except.ok.inj h).symm, fun h => congrArg Except.ok h.symm⟩
  | cons a l ih =>
    rw [List.mapM_cons, bind_eq_ok, List.forall₂_cons_left_iff]
    refine exists_congr fun b => ?_
    rw [bind_eq_ok]
    constructor
    · rintro ⟨hb, bs', hbs', h⟩
      cases h
      exact ⟨bs', hb, ih.1 hbs', rfl⟩
    · rintro ⟨bs', hb, hbs', rfl⟩
      exact ⟨hb, bs', ih.2 hbs', rfl⟩

theorem mapM_cons_eq_error_iff {ε α β : Type} {f : α → Except ε β} {a : α} {l : List α} {e : ε} :
    (a :: l).mapM f = .error e ↔
      f a = .error e ∨ (∃ b, f a = .ok b) ∧ l.mapM f = .error e := by
  rw [List.mapM_cons, bind_eq_error]
  refine or_congr_right ⟨?_, ?_⟩
  · rintro ⟨b, hb, h⟩
    rcases bind_eq_error.1 h with h | ⟨bs, -, h⟩
    · exact ⟨⟨b, hb⟩, h⟩
    · cases h
  · rintro ⟨⟨b, hb⟩, h⟩
    exact ⟨b, hb, bind_eq_error.2 (Or.inl h)⟩

/-- It fails with the error of the first one that fails. -/
theorem mapM_eq_error_iff {ε α β : Type} {f : α → Except ε β} {l : List α} {e : ε} :
    l.mapM f = .error e ↔ ∃ before a after, l = before ++ a :: after ∧
      (∀ x ∈ before, ∃ b, f x = .ok b) ∧ f a = .error e := by
  induction l with
  | nil =>
    refine ⟨nofun, fun ⟨before, a, after, hl, _⟩ => ?_⟩
    exact absurd hl.symm (List.append_ne_nil_of_right_ne_nil _ (List.cons_ne_nil a after))
  | cons a l ih =>
    rw [mapM_cons_eq_error_iff, ih]
    constructor
    · rintro (ha | ⟨ha, before, x, after, rfl, hbefore, hx⟩)
      · exact ⟨[], a, l, rfl, List.forall_mem_nil _, ha⟩
      · exact ⟨a :: before, x, after, rfl, List.forall_mem_cons.2 ⟨ha, hbefore⟩, hx⟩
    · rintro ⟨before, x, after, hl, hbefore, hx⟩
      rcases List.cons_eq_append_iff.1 hl with ⟨-, h⟩ | ⟨before', rfl, rfl⟩
      · cases h
        exact Or.inl hx
      · obtain ⟨ha, hbefore⟩ := List.forall_mem_cons.1 hbefore
        exact Or.inr ⟨ha, before', x, after, rfl, hbefore, hx⟩

theorem exists_eq_ok_of_toBool {ε α : Type} {x : Except ε α} (h : x.toBool = true) :
    ∃ a, x = .ok a := by
  cases x with
  | ok a => exact ⟨a, rfl⟩
  | error => cases h

theorem exists_eq_error_of_toBool {ε α : Type} {x : Except ε α} (h : x.toBool = false) :
    ∃ e, x = .error e := by
  cases x with
  | ok => cases h
  | error e => exact ⟨e, rfl⟩

theorem eq_ok_of_toOption {ε α : Type} {x : Except ε α} {a : α} (h : x.toOption = some a) :
    x = .ok a := by
  cases x with
  | ok b => cases h; rfl
  | error => cases h

/-- A step that also changes a state. -/
theorem exists_eq_mk_ok_of_toBool {σ ε α : Type} {p : σ × Except ε α} (h : p.2.toBool = true) :
    ∃ s a, p = (s, .ok a) := by
  obtain ⟨a, ha⟩ := exists_eq_ok_of_toBool h
  exact ⟨p.1, a, Prod.ext rfl ha⟩

theorem exists_eq_mk_error_of_toBool {σ ε α : Type} {p : σ × Except ε α}
    (h : p.2.toBool = false) : ∃ s e, p = (s, .error e) := by
  obtain ⟨e, he⟩ := exists_eq_error_of_toBool h
  exact ⟨p.1, e, Prod.ext rfl he⟩

/-! ## Errors of one kind -/

/-- If the result is an error, it has the property. -/
def FailsWith {ε α : Type} (P : ε → Prop) : Except ε α → Prop
  | .ok _ => True
  | .error e => P e

namespace FailsWith

variable {ε ε' α β : Type} {P : ε → Prop} {P' : ε' → Prop}

@[simp] theorem ok (a : α) : FailsWith P (.ok a) := trivial

@[simp] theorem pure (a : α) : FailsWith P (Pure.pure a : Except ε α) := trivial

@[simp] theorem error_iff {e : ε} : FailsWith P (.error e : Except ε α) ↔ P e := Iff.rfl

@[simp] theorem throw_iff {e : ε} : FailsWith P (throw e : Except ε α) ↔ P e := Iff.rfl

theorem of_eq {x : Except ε α} {e : ε} (h : FailsWith P x) (hx : x = .error e) : P e := by
  rw [hx] at h; exact h

theorem mono {Q : ε → Prop} {x : Except ε α} (hx : FailsWith P x) (h : ∀ e, P e → Q e) :
    FailsWith Q x := by
  cases x with
  | ok a => exact ok a
  | error e => exact h e hx

theorem bind {x : Except ε α} {f : α → Except ε β} (hx : FailsWith P x)
    (hf : ∀ a, FailsWith P (f a)) : FailsWith P (x >>= f) := by
  cases x with
  | ok a => exact hf a
  | error e => exact hx

theorem bind_of_eq {x : Except ε α} {f : α → Except ε β} (hx : FailsWith P x)
    (hf : ∀ a, x = .ok a → FailsWith P (f a)) : FailsWith P (x >>= f) := by
  cases x with
  | ok a => exact hf a rfl
  | error e => exact hx

theorem map {x : Except ε α} {f : α → β} (hx : FailsWith P x) : FailsWith P (x.map f) := by
  cases x with
  | ok a => exact ok (f a)
  | error e => exact hx

theorem mapError {x : Except ε α} {f : ε → ε'} (hx : FailsWith P x) (hf : ∀ e, P e → P' (f e)) :
    FailsWith P' (x.mapError f) := by
  cases x with
  | ok a => exact ok a
  | error e => exact hf e hx

theorem mapError_of_forall {x : Except ε α} {f : ε → ε'} (hf : ∀ e, P' (f e)) :
    FailsWith P' (x.mapError f) := by
  cases x with
  | ok a => exact ok a
  | error e => exact hf e

theorem mapM {f : α → Except ε β} (hf : ∀ a, FailsWith P (f a)) (l : List α) :
    FailsWith P (l.mapM f) := by
  induction l with
  | nil => exact ok []
  | cons a rest ih =>
    rw [List.mapM_cons]
    exact bind (hf a) fun b => bind ih fun bs => ok (b :: bs)

end FailsWith

/-! ## Guards -/

theorem guard_of_pos {p : Prop} [Decidable p] (h : p) : (guard p : Option Unit) = some () :=
  if_pos h

theorem guard_of_neg {p : Prop} [Decidable p] (h : ¬ p) : (guard p : Option Unit) = none :=
  if_neg h

end BootSeal
