/-
# Writing and reading back

A file that was written is found again under the path that it was written to, with the content that
was given to it, and no other file is different (`read_of_write`, `eq_put_of_write`). What is a
directory before stays one, so that every path still leads where it led.
-/
import Bookmarks.Command.Files

namespace Bookmarks.Command

/-- Two steps succeed where both of them do. -/
theorem Except.exists_ok_of_bind {ε α β : Type} {x : Except ε α} {f : α → Except ε β} {b : β}
    (h : x >>= f = .ok b) : ∃ a, x = .ok a ∧ f a = .ok b := by
  cases x with
  | error error => cases h
  | ok a => exact ⟨a, rfl, h⟩

theorem Place.isBelow_self (place : Place) : place.isBelow place = false := by
  simp [isBelow]

namespace Directory

variable {directory after : Directory} {place other : Place} {content : Bytes} {text : String}

/-- The place that a path leads to, whatever there is. -/
def locate (directory : Directory) (text : String) : Except PathFault Place := do
  let path ← Path.parse text
  (← directory.follow path.start path.before).step path.last

/-! ## One more file -/

theorem lookup_filter_of_ne {files : List (Place × Bytes)} (h : other ≠ place) :
    (files.filter fun file => file.1 ≠ place).lookup other = files.lookup other := by
  induction files with
  | nil => rfl
  | cons file files ih =>
      by_cases hfile : file.1 = place
      · have hother : (other == file.1) = false := beq_false_of_ne (hfile ▸ h)
        rw [List.filter_cons_of_neg (by simpa using hfile), ih, List.lookup_cons, hother]
      · rw [List.filter_cons_of_pos (by simpa using hfile), List.lookup_cons, List.lookup_cons, ih]

theorem get?_put_self : (directory.put place content).get? place = some content :=
  List.lookup_cons_self

theorem get?_put_of_ne (h : other ≠ place) :
    (directory.put place content).get? other = directory.get? other := by
  have hother : (other == place) = false := beq_false_of_ne h
  rw [get?, put, List.lookup_cons, hother]
  exact lookup_filter_of_ne h

/-- A file makes directories of what is on the way to it, and undoes none. -/
theorem hasDirectory_put :
    (directory.put place content).hasDirectory other =
      (directory.hasDirectory other || place.isBelow other) := by
  cases hbelow : place.isBelow other with
  | true => simp [hasDirectory, put, hbelow]
  | false =>
      -- A file that the new one replaces was not below the directory, either.
      have hkept (file : Place × Bytes) :
          (decide (file.1 ≠ place) && file.1.isBelow other) = file.1.isBelow other := by
        by_cases hfile : file.1 = place
        · simp [hfile, hbelow]
        · simp [hfile]
      simp only [hasDirectory, put, List.any_cons, List.any_filter, hkept, hbelow, Bool.false_or,
        Bool.or_false]

theorem follow_put {here : Place} {names : List String}
    (h : directory.follow here names = .ok other) :
    (directory.put place content).follow here names = .ok other := by
  induction names generalizing here with
  | nil => exact h
  | cons name names ih =>
      obtain ⟨next, hnext, hrest⟩ := Except.exists_ok_of_bind h
      split at hrest
      · next hdirectory =>
        have hkept : (directory.put place content).hasDirectory next = true := by
          rw [hasDirectory_put, hdirectory, Bool.true_or]
        rw [follow, hnext]
        exact (if_pos hkept).trans (ih hrest)
      · cases hrest

/-! ## Writing a file -/

/-- A file is written where its path leads, if that is no directory and not written like one. -/
theorem exists_of_write (h : directory.write text content = .ok after) :
    ∃ path here place, Path.parse text = .ok path ∧
      directory.follow path.start path.before = .ok here ∧ here.step path.last = .ok place ∧
      path.endsInSlash = false ∧ directory.hasDirectory place = false ∧
      after = directory.put place content := by
  obtain ⟨path, hpath, h⟩ := Except.exists_ok_of_bind h
  obtain ⟨here, hhere, h⟩ := Except.exists_ok_of_bind h
  split at h
  · cases h
  next hslash =>
  obtain ⟨place, hplace, h⟩ := Except.exists_ok_of_bind h
  split at h
  · cases h
  next hfile =>
  cases h
  exact ⟨path, here, place, hpath, hhere, hplace, eq_false_of_ne_true hslash,
    eq_false_of_ne_true hfile, rfl⟩

/-- Writing puts a file at the place that the path leads to, and changes nothing else. -/
theorem eq_put_of_write (h : directory.write text content = .ok after) :
    ∃ place, directory.locate text = .ok place ∧ after = directory.put place content := by
  obtain ⟨path, here, place, hpath, hhere, hplace, -, -, hafter⟩ := exists_of_write h
  refine ⟨place, ?_, hafter⟩
  simp only [locate, hpath, hhere, hplace, bind, Except.bind]

/-- What was written is read under the path that it was written to. -/
theorem read_of_write (h : directory.write text content = .ok after) :
    after.read text = .ok content := by
  obtain ⟨path, here, place, hpath, hhere, hplace, hslash, hfile, rfl⟩ := exists_of_write h
  have hfile' : (directory.put place content).hasDirectory place = false := by
    rw [hasDirectory_put, hfile, Place.isBelow_self, Bool.or_false]
  simp [read, hpath, follow_put hhere, hplace, bind, Except.bind, hfile', get?_put_self, hslash]

end Directory

end Bookmarks.Command
