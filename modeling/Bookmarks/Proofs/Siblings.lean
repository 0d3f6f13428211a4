/-
# Siblings in a list

Where siblings are kept in a list, the next sibling of an element is its `successor?`. In a list
without repetitions an element comes after a single other one, and the head comes after none.
-/
import Mathlib.Data.List.Basic

namespace Bookmarks

variable {α : Type} [DecidableEq α] {element other next : α} {elements : List α}

/-- The element that stands after another one in a list. -/
def successor? (element : α) : List α → Option α
  | [] => none
  | first :: rest => if first = element then rest.head? else successor? element rest

theorem successor?_append {earlier later : List α} (h : element ∉ earlier) :
    successor? element (earlier ++ element :: later) = later.head? := by
  induction earlier with
  | nil => simp [successor?]
  | cons first rest ih =>
      rw [List.mem_cons, not_or] at h
      rw [List.cons_append, successor?, if_neg (Ne.symm h.1), ih h.2]

theorem mem_tail_of_successor? (h : successor? element elements = some next) :
    next ∈ elements.tail := by
  induction elements with
  | nil => cases h
  | cons first rest ih =>
      rw [successor?] at h
      split at h
      · exact List.mem_of_head? h
      · exact List.mem_of_mem_tail (ih h)

/-- The head of a list without repetitions comes after no element. -/
theorem successor?_ne_head? (hnodup : elements.Nodup) (hhead : elements.head? = some next) :
    successor? element elements ≠ some next := by
  intro h
  cases elements with
  | nil => cases h
  | cons first rest =>
      obtain rfl := Option.some.inj hhead
      exact (List.nodup_cons.1 hnodup).1 (mem_tail_of_successor? h)

/-- In a list without repetitions an element comes after a single other one. -/
theorem successor?_inj (hnodup : elements.Nodup) (h : successor? element elements = some next)
    (hother : successor? other elements = some next) : element = other := by
  induction elements with
  | nil => cases h
  | cons first rest ih =>
      have hrest := (List.nodup_cons.1 hnodup).2
      rw [successor?] at h hother
      by_cases helement : first = element
      · by_cases hsame : first = other
        · exact helement.symm.trans hsame
        · rw [if_pos helement] at h
          rw [if_neg hsame] at hother
          exact absurd hother (successor?_ne_head? hrest h)
      · by_cases hsame : first = other
        · rw [if_neg helement] at h
          rw [if_pos hsame] at hother
          exact absurd h (successor?_ne_head? hrest hother)
        · rw [if_neg helement] at h
          rw [if_neg hsame] at hother
          exact ih hrest h hother

/-- Under other names for different elements, the same one comes next. -/
theorem successor?_map {β : Type} [DecidableEq β] {f : α → β} (hf : f.Injective) (element : α)
    (elements : List α) :
    successor? (f element) (elements.map f) = (successor? element elements).map f := by
  induction elements with
  | nil => rfl
  | cons first rest ih =>
      rw [List.map_cons, successor?, successor?, ih, List.head?_map]
      by_cases h : first = element
      · rw [if_pos h, if_pos (congrArg f h)]
      · rw [if_neg h, if_neg (hf.ne h)]

end Bookmarks
