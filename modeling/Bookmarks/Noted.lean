/-
# Readings with notices

`Noted ε α` is the result of a reading that may fail with an `ε` and that leaves notices behind
either way. Notices are kept in the order in which they were raised, and a failing step ends the
reading but not its journal: what was noted before the failure is still there.
-/
import Bookmarks.Journal

namespace Bookmarks

/-- An `α`, or the failure to get one, together with the notices raised on the way. -/
structure Noted (ε α : Type) where
  /-- The notices raised, oldest first. -/
  notices : List Notice
  /-- What came of the reading. -/
  result : Except ε α

namespace Noted

variable {ε ε' α β : Type}

/-- A reading that raises no notice. -/
def ofExcept (result : Except ε α) : Noted ε α :=
  ⟨[], result⟩

/-- A reading that only raises one notice. -/
def note (notice : Notice) : Noted ε Unit :=
  ⟨[notice], .ok ()⟩

/-- A reading that only raises notices. -/
def tell (notices : List Notice) : Noted ε Unit :=
  ⟨notices, .ok ()⟩

/-- A reading that fails. -/
def fail (error : ε) : Noted ε α :=
  ⟨[], .error error⟩

/-- Read on with the value of the first reading, if there is one. -/
protected def bind (x : Noted ε α) (f : α → Noted ε β) : Noted ε β :=
  match x.result with
  | .ok a => ⟨x.notices ++ (f a).notices, (f a).result⟩
  | .error error => ⟨x.notices, .error error⟩

instance : Monad (Noted ε) where
  pure a := ⟨[], .ok a⟩
  bind := Noted.bind

/-- The same reading with its failure seen as a failure of another type. -/
def mapError (f : ε → ε') (x : Noted ε α) : Noted ε' α :=
  ⟨x.notices, x.result.mapError f⟩

@[simp] theorem notices_pure (a : α) : (pure a : Noted ε α).notices = [] := rfl

@[simp] theorem result_pure (a : α) : (pure a : Noted ε α).result = .ok a := rfl

@[simp] theorem result_mapError (f : ε → ε') (x : Noted ε α) :
    (x.mapError f).result = x.result.mapError f := rfl

@[simp] theorem notices_mapError (f : ε → ε') (x : Noted ε α) :
    (x.mapError f).notices = x.notices := rfl

theorem bind_of_ok {x : Noted ε α} {a : α} (h : x.result = .ok a) (f : α → Noted ε β) :
    x >>= f = ⟨x.notices ++ (f a).notices, (f a).result⟩ := by
  simp only [bind, Noted.bind, h]

theorem bind_of_error {x : Noted ε α} {error : ε} (h : x.result = .error error)
    (f : α → Noted ε β) : x >>= f = ⟨x.notices, .error error⟩ := by
  simp only [bind, Noted.bind, h]

/-- Readings one after another can be grouped at will. -/
theorem lawfulMonad (ε : Type) : LawfulMonad (Noted ε) := .mk' (Noted ε)
  (fun x => by
    change x >>= pure = x
    cases h : x.result with
    | ok a => rw [bind_of_ok h, notices_pure, result_pure, List.append_nil, ← h]
    | error error => rw [bind_of_error h, ← h])
  (fun a f => by rw [bind_of_ok (result_pure a)]; rfl)
  (fun x f g => by
    cases hx : x.result with
    | error error => rw [bind_of_error hx, bind_of_error hx, bind_of_error rfl]
    | ok a =>
        rw [bind_of_ok hx, bind_of_ok hx]
        cases hf : (f a).result with
        | ok b => rw [bind_of_ok hf, bind_of_ok rfl, List.append_assoc]
        | error error => rw [bind_of_error hf, bind_of_error rfl])

/-- A reading in two steps succeeds when both steps do. -/
theorem result_bind_eq_ok {x : Noted ε α} {f : α → Noted ε β} {b : β} :
    (x >>= f).result = .ok b ↔ ∃ a, x.result = .ok a ∧ (f a).result = .ok b := by
  cases h : x.result with
  | ok a => simp [bind_of_ok h]
  | error error => simp [bind_of_error h]

/-- A reading in two steps fails with the first step that does. -/
theorem result_bind_eq_error {x : Noted ε α} {f : α → Noted ε β} {error : ε} :
    (x >>= f).result = .error error ↔
      x.result = .error error ∨ ∃ a, x.result = .ok a ∧ (f a).result = .error error := by
  cases h : x.result with
  | ok a => simp [bind_of_ok h]
  | error error' => simp [bind_of_error h]

end Noted

end Bookmarks
