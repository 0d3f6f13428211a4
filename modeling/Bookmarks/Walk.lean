/-
# Walking an outline

The walk follows the links of an outline from its root: down to the first child of each node before
going on to the node's next sibling. It remembers every entry that it has seen and takes none of
them up twice, and it goes no deeper than it is told to. What a strict reader refuses, a lenient
reader cuts away: a broken link counts as a missing one, a chain ends where it meets an entry again,
and a node at the depth limit stays without children.

The number of steps below one another is bounded by `fuel`, so that a walk through endlessly many
nodes is a walk that stops `exhausted`.
-/
import Bookmarks.Forest
import Bookmarks.Outline
import Bookmarks.PageNumber
import Bookmarks.Settings

namespace Bookmarks

/-- Why a walk stops before its end. -/
inductive Stop where
  | fault (fault : Fault)
  /-- The walk was not given enough fuel. -/
  | exhausted
  deriving DecidableEq, Repr

/-- A reading inside a walk. -/
def Noted.inWalk {α : Type} (reading : Noted Fault α) : Noted Stop α :=
  reading.mapError Stop.fault

namespace Settings

/-- What becomes of a damaged branch. -/
def meet (settings : Settings) (damage : Damage) : Noted Fault Unit :=
  match settings.tolerance with
  | .strict => .fail (.corrupted damage)
  | .lenient => .note (.branchSkipped damage)

/-- The answer to a link. A broken link is a damaged branch, and leads nowhere. -/
def follow {ν : Type} (settings : Settings) (answer : Except Fault (Option ν)) :
    Noted Fault (Option ν) :=
  match answer with
  | .ok target => pure target
  | .error (.corrupted damage) => do
      settings.meet damage
      pure none
  | .error fault => .fail fault

end Settings

/-- What is read at an entry. -/
structure Entry (ν : Type) where
  heading : Heading
  /-- The entry's next sibling. -/
  next : Option ν

/-- What a walk brings home. -/
structure Walked (ν : Type) where
  /-- The entries taken up. -/
  forest : Forest ν
  /-- All entries seen so far, the latest first. -/
  seen : List ν

namespace Outline

variable {ν π : Type}

section Reading

variable (outline : Outline ν π) (number? : π → Option Nat) (settings : Settings)

/-- The number of the page that an entry points to; without an entry it is unknown. -/
def pageNumber : Option ν → Noted Fault Int
  | none => pure unknownPage
  | some entry => do
      let page ← outline.page entry
      match page.bind number? with
      | some number => pure (signed32 number)
      | none => do
          Noted.note (.pageUnknown (outline.label entry))
          pure unknownPage

/-- The page that ends an entry: where its next sibling begins, or else its first child. An entry
with neither reaches to the end of the document. -/
def endPage (entry : ν) (next : Option ν) : Noted Fault Int := do
  let sibling ← outline.pageNumber number? next
  if 0 ≤ sibling then pure sibling
  else do
    let child ← settings.follow (outline.first entry)
    let below ← outline.pageNumber number? child
    if 0 ≤ below then pure below
    else if next.isNone && child.isNone then pure (signed32 outline.pageCount.toNat)
    else pure unknownPage

/-- The height on its page that an entry points to, zero if it names none. -/
def position (entry : ν) : Noted Fault Int := do
  let destination ← outline.destination entry
  match destination.bind Destination.top? with
  | some top => pure top.truncate
  | none => pure 0

/-- The heading of an entry and its next sibling. -/
def readEntry (entry : ν) : Noted Fault (Entry ν) := do
  let start ← outline.pageNumber number? (some entry)
  let next ← settings.follow (outline.next entry)
  let finish ← outline.endPage number? settings entry next
  let position ← outline.position entry
  let title ← Noted.ofExcept (outline.title entry)
  pure ⟨⟨title, start, finish, position⟩, next⟩

/-- Compare the end of a chain with the child that the node above declares to be its last. -/
def checkLast [DecidableEq ν] (scope : ν) (reached : Option ν) : Noted Fault Unit := do
  let declared ← settings.follow (outline.last scope)
  match reached, declared with
  | some reached, some declared =>
      if reached = declared then pure ()
      else
        Noted.note <| .lastDiffers (outline.label scope) (outline.label reached)
          (outline.label declared)
  | _, _ => pure ()

end Reading

variable [DecidableEq ν]
variable (outline : Outline ν π) (number? : π → Option Nat) (settings : Settings)

/-- The entries below a node, where `chain` walks along a chain of siblings. -/
def descend (chain : Nat → Option ν → List ν → Noted Stop (Walked ν)) (scope : ν) (depth : Nat)
    (seen : List ν) : Noted Stop (Walked ν) := do
  let first ← (settings.follow (outline.first scope)).inWalk
  if first.isSome && settings.depthLimit ≤ depth then do
    (settings.meet (.tooDeep settings.depthLimit)).inWalk
    pure ⟨.nil, seen⟩
  else do
    let walked ← chain depth first seen
    (outline.checkLast settings scope walked.forest.last?).inWalk
    pure walked

/-- A chain of siblings with everything below it. -/
def chain : Nat → Nat → Option ν → List ν → Noted Stop (Walked ν)
  | _, _, none, seen => pure ⟨.nil, seen⟩
  | fuel, depth, some entry, seen =>
      if entry ∈ seen then do
        (settings.meet (.linkedTwice (outline.label entry))).inWalk
        pure ⟨.nil, seen⟩
      else
        match fuel with
        | 0 => .fail .exhausted
        | fuel + 1 => do
            let read ← (outline.readEntry number? settings entry).inWalk
            let below ← outline.descend settings (chain fuel) entry (depth + 1) (entry :: seen)
            let after ← chain fuel depth read.next below.seen
            pure ⟨.cons entry read.heading below.forest after.forest, after.seen⟩

/-- Everything below the root of an outline. -/
def walk (fuel : Nat) (root : ν) : Noted Stop (Walked ν) :=
  outline.descend settings (outline.chain number? settings fuel) root 0 []

end Outline

end Bookmarks
