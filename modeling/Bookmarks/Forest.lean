/-
# Forests of headings

What a walk through an outline gathers: for each entry that it reached, the heading read there, the
entries found below it, and the entries that follow it at its level. Each heading keeps the handle
of the node it was read from.
-/

namespace Bookmarks

/-- What a table of contents says about one entry, its place in the table apart. -/
structure Heading where
  title : String
  /-- The page where the entry begins. -/
  startPage : Int
  /-- The page where whatever comes next begins. -/
  endPage : Int
  /-- The height on the start page. -/
  position : Int
  deriving DecidableEq, Repr

/-- Entries at one level with everything below them, in order. -/
inductive Forest (ν : Type) where
  | nil
  | cons (node : ν) (heading : Heading) (below after : Forest ν)
  deriving DecidableEq, Repr

namespace Forest

variable {ν : Type}

/-- Entries in the forest. -/
def size : Forest ν → Nat
  | .nil => 0
  | .cons _ _ below after => below.size + after.size + 1

/-- Nodes in the order of the outline: an entry, what is below it, what follows it. -/
def nodes : Forest ν → List ν
  | .nil => []
  | .cons node _ below after => node :: (below.nodes ++ after.nodes)

/-- The last node at the top level. -/
def last? : Forest ν → Option ν
  | .nil => none
  | .cons node _ _ .nil => some node
  | .cons _ _ _ after => after.last?

theorem last?_cons (node : ν) (heading : Heading) (below after : Forest ν) :
    (cons node heading below after).last? = after.last?.or (some node) := by
  induction after generalizing node heading below with
  | nil => rfl
  | cons next heading' below' after _ ih =>
      have hlast := ih next heading' below'
      rw [last?, hlast]
      · simp
      · simp

/-- The numbers of the entries at the top level, if entries are numbered from `start` on in the
order of the outline. -/
def topNumbers (start : Nat) : Forest ν → List Nat
  | .nil => []
  | .cons _ _ below after => start :: after.topNumbers (start + below.size + 1)

end Forest

end Bookmarks
