/-
# Page trees

The pages of a document are the leaves of a tree. The tree is walked depth first, with the siblings
still to come kept on a stack. No more nodes are looked at than the document has objects, so a tree
that leads back into itself does not hold up the walk.
-/
import Bookmarks.Pdf.Document
import Bookmarks.Pdf.Store

namespace Bookmarks.Pdf

namespace Store

/-- Levels of siblings that are kept waiting. -/
def pageTreeDepth : Nat := 256

/-- What a node of a page tree is. -/
inductive PageNode where
  /-- A page. -/
  | page (id : ObjectId)
  /-- A node with children of its own. -/
  | pages (id : ObjectId)
  /-- Neither. -/
  | other
  deriving DecidableEq, Repr

variable (store : Store)

/-- The children of a node: an array, not a reference to one. -/
def kids (id : ObjectId) : List Object :=
  (do
    let node ← store.dictionary id
    let kids ← node.require "Kids"
    kids.asArray).toOption.getD []

/-- What a child is, according to the type it gives as a name. -/
def pageNode : Object → PageNode
  | .reference id =>
      match (do (← store.dictionary id).require "Type").toOption with
      | some (.name type) =>
          if type = ascii "Page" then .page id
          else if type = ascii "Pages" then .pages id
          else .other
      | _ => .other
  | _ => .other

/-- The next child to look at, what follows it, and the siblings that are still waiting. -/
def nextKid : List Object → List (List Object) → Option (Object × List Object × List (List Object))
  | kid :: kids, waiting => some (kid, kids, waiting)
  | [], [] => none
  | [], kids :: waiting => nextKid kids waiting

/-- The pages found by looking at up to `budget` more nodes. -/
def pagesFrom : Nat → List Object → List (List Object) → List ObjectId
  | 0, _, _ => []
  | budget + 1, kids, waiting =>
      match nextKid kids waiting with
      | none => []
      | some (kid, kids, waiting) =>
          match store.pageNode kid with
          | .page id => id :: pagesFrom budget kids waiting
          | .pages id =>
              if waiting.length < pageTreeDepth then
                pagesFrom budget (store.kids id)
                  (if kids.isEmpty then waiting else kids :: waiting)
              else pagesFrom budget kids waiting
          | .other => pagesFrom budget kids waiting

/-- The pages of the document in order. -/
def pages : List ObjectId :=
  match (do (← (← store.catalog).require "Pages").asReference).toOption with
  | some root => store.pagesFrom store.objects.size (store.kids root) []
  | none => []

/-- The document that a store holds. -/
def document : Document where
  version := store.version
  isEncrypted := store.encryption.isOk
  catalog := store.catalog
  object := store.object
  pages := store.pages
  ids := store.objects.keys
  mem_ids := store.mem_keys_of_object

end Store

end Bookmarks.Pdf
