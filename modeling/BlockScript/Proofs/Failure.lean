import BlockScript.Fault

/-!
# Steps that may fail

A sequence of steps succeeds as far as each of them does, and fails with the
first of them that fails.
-/

set_option autoImplicit false

namespace BlockScript.Except

variable {ε α β : Type}

theorem ok_bind (a : α) (next : α → Except ε β) : (Except.ok a >>= next) = next a := rfl

theorem exists_of_bind_eq_ok {x : Except ε α} {next : α → Except ε β} {r : β}
    (h : (x >>= next) = .ok r) : ∃ a, x = .ok a ∧ next a = .ok r := by
  cases x with
  | error e => cases h
  | ok a => exact ⟨a, rfl, h⟩

def Fails (x : Except ε α) : Prop := ∃ e, x = .error e

@[simp] theorem not_fails_ok (a : α) : ¬ Fails (.ok a : Except ε α) := nofun

@[simp] theorem fails_error (e : ε) : Fails (.error e : Except ε α) := ⟨e, rfl⟩

/-- If the second step does not depend on the result of the first, either of them can fail. -/
theorem fails_bind_const {x : Except ε α} {y : α → Except ε β} {p : Prop}
    (h : ∀ a, x = .ok a → (Fails (y a) ↔ p)) : Fails (x >>= y) ↔ Fails x ∨ p := by
  cases x with
  | error e => simp [Fails, bind, Except.bind]
  | ok a => simpa [bind, Except.bind] using h a rfl

theorem fails_bind_pure {x : Except ε α} (f : α → β) :
    Fails (x >>= fun a => pure (f a)) ↔ Fails x := by
  cases x with
  | error e => exact ⟨fun _ => ⟨e, rfl⟩, fun _ => ⟨e, rfl⟩⟩
  | ok a => exact ⟨nofun, nofun⟩

def OnlyFails (p : ε → Prop) (x : Except ε α) : Prop := ∀ e, x = .error e → p e

theorem onlyFails_ok {p : ε → Prop} (a : α) : OnlyFails p (.ok a : Except ε α) := nofun

theorem OnlyFails.mono {p q : ε → Prop} {x : Except ε α} (h : OnlyFails p x)
    (hpq : ∀ e, p e → q e) : OnlyFails q x := fun e he => hpq e (h e he)

theorem OnlyFails.bind {p : ε → Prop} {x : Except ε α} {y : α → Except ε β}
    (hx : OnlyFails p x) (hy : ∀ a, x = .ok a → OnlyFails p (y a)) : OnlyFails p (x >>= y) := by
  cases x with
  | error e => exact fun _ he => hx _ (by cases he; rfl)
  | ok a => exact hy a rfl

theorem OnlyFails.forM {p : ε → Prop} {f : α → Except ε PUnit} (h : ∀ a, OnlyFails p (f a)) :
    ∀ xs : List α, OnlyFails p (xs.forM f)
  | [] => onlyFails_ok _
  | x :: xs => (h x).bind fun _ _ => OnlyFails.forM h xs

theorem OnlyFails.foldlM {p : ε → Prop} {f : β → α → Except ε β}
    (h : ∀ b a, OnlyFails p (f b a)) : ∀ (xs : List α) (b : β), OnlyFails p (xs.foldlM f b)
  | [], _ => onlyFails_ok _
  | x :: xs, b => (h b x).bind fun b' _ => OnlyFails.foldlM h xs b'

theorem OnlyFails.mapM {p : ε → Prop} {f : α → Except ε β} (h : ∀ a, OnlyFails p (f a)) :
    ∀ xs : List α, OnlyFails p (xs.mapM f)
  | [] => onlyFails_ok _
  | x :: xs => by
    rw [List.mapM_cons]
    exact (h x).bind fun _ _ => (OnlyFails.mapM h xs).bind fun _ _ => onlyFails_ok _

end BlockScript.Except
