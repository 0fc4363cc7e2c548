import Mathlib.Data.List.Forall2

/-! # Code that checks and throws: what a successful run passed -/

namespace Capcurl.Lib

variable {ε α β : Type}

@[simp]
theorem throw_bind_else_eq_ok {c : Prop} [Decidable c] (e : ε) (f : β → Except ε α)
    (x : Except ε α) (a : α) : (if c then throw e >>= f else x) = .ok a ↔ ¬ c ∧ x = .ok a := by
  by_cases hc : c
  · simp only [hc, if_true, not_true_eq_false, false_and, iff_false]
    intro h
    cases h
  · simp [hc]

@[simp]
theorem throw_else_eq_ok {c : Prop} [Decidable c] (e : ε) (x : Except ε α) (a : α) :
    (if c then throw e else x) = .ok a ↔ ¬ c ∧ x = .ok a := by
  by_cases hc : c
  · simp only [hc, if_true, not_true_eq_false, false_and, iff_false]
    intro h
    cases h
  · simp [hc]

theorem bind_eq_ok (x : Except ε β) (f : β → Except ε α) (a : α) :
    (x >>= f) = .ok a ↔ ∃ b, x = .ok b ∧ f b = .ok a := by
  cases x with
  | error e =>
    constructor
    · intro h
      cases h
    · rintro ⟨b, hb, -⟩
      cases hb
  | ok b =>
    constructor
    · intro h
      exact ⟨b, rfl, h⟩
    · rintro ⟨b', hb, h⟩
      rw [← Except.ok.inj hb] at h
      exact h

theorem ok_bind (a : β) (f : β → Except ε α) : (Except.ok a >>= f) = f a := rfl

theorem error_bind (e : ε) (f : β → Except ε α) : (Except.error e >>= f) = .error e := rfl

theorem bind_unit_eq_ok (x : Except ε Unit) (f : Unit → Except ε α) (a : α) :
    (x >>= f) = .ok a ↔ x = .ok () ∧ f () = .ok a := by
  rw [bind_eq_ok]
  exact ⟨fun ⟨(), hx, hf⟩ => ⟨hx, hf⟩, fun ⟨hx, hf⟩ => ⟨(), hx, hf⟩⟩

@[simp]
theorem pure_eq_ok (a b : α) : (pure a : Except ε α) = .ok b ↔ a = b :=
  ⟨fun h => Except.ok.inj h, fun h => congrArg _ h⟩

theorem toOption_eq_some (x : Except ε α) (a : α) : x.toOption = some a ↔ x = .ok a := by
  cases x <;> simp [Except.toOption]

theorem bind_eq_error (x : Except ε β) (f : β → Except ε α) (e : ε) :
    (x >>= f) = .error e ↔ x = .error e ∨ ∃ b, x = .ok b ∧ f b = .error e := by
  cases x with
  | error e' => simp [error_bind]
  | ok b => simp [ok_bind]

theorem mapError_eq_ok {ε' : Type} (f : ε → ε') (x : Except ε α) (a : α) :
    x.mapError f = .ok a ↔ x = .ok a := by
  cases x <;> simp [Except.mapError]

theorem mapError_eq_error {ε' : Type} (f : ε → ε') (x : Except ε α) (e : ε') :
    x.mapError f = .error e ↔ ∃ e', x = .error e' ∧ f e' = e := by
  cases x <;> simp [Except.mapError]

theorem mapM_eq_ok (f : α → Except ε β) (l : List α) (r : List β) :
    l.mapM f = .ok r ↔ List.Forall₂ (fun a b => f a = .ok b) l r := by
  induction l generalizing r with
  | nil => rw [List.mapM_nil, pure_eq_ok, List.forall₂_nil_left_iff, eq_comm]
  | cons a l ih =>
    rw [List.mapM_cons, bind_eq_ok, List.forall₂_cons_left_iff]
    simp only [bind_eq_ok, pure_eq_ok, ih]
    constructor
    · rintro ⟨b, hb, bs, hbs, rfl⟩
      exact ⟨b, bs, hb, hbs, rfl⟩
    · rintro ⟨b, bs, hb, hbs, rfl⟩
      exact ⟨b, hb, bs, hbs, rfl⟩

end Capcurl.Lib
