/-
# Readings compared

Two readers that ask the same questions stay together as long as they get the same answers. What
they get may differ without much harm: a broken link, a remark that only one of them makes. A
relation between readings that reading on passes on, and that holds wherever the two ask for
something, holds of all that they read (`Compares.readWithin`), so that no such relation has to be
followed through the walk by hand. A declared last child is only looked at to check on the walk, so
that of two such checks only the outcomes have to be related (`ComparesButLast.readWithin`).
-/
import Bookmarks.Reading

namespace Bookmarks

namespace Noted

/-! ## Readings inside a walk -/

variable {α β : Type}

theorem inWalk_bind (x : Noted Fault α) (f : α → Noted Fault β) :
    (x >>= f).inWalk = x.inWalk >>= fun a => (f a).inWalk := by
  rcases x with ⟨_, _ | _⟩ <;> rfl

/-! ## Relations that are passed on -/

/-- The notices are remarks on an outline that is intact as far as it was read. -/
def SkipsNothing (notices : List Notice) : Prop :=
  ∀ damage, Notice.branchSkipped damage ∉ notices

/-- Reading on passes a relation on, and a reading that asks for nothing is related to itself. -/
structure PassesOn (R : (α : Type) → Noted Stop α → Noted Stop α → Prop) : Prop where
  pure : ∀ {α : Type} (a : α), R α (pure a) (pure a)
  bind : ∀ {α β : Type} {x y : Noted Stop α} {f g : α → Noted Stop β},
    R α x y → (∀ a, R β (f a) (g a)) → R β (x >>= f) (y >>= g)
  tell : ∀ {notices}, SkipsNothing notices → R Unit (tell notices) (tell notices)
  exhausted : ∀ {α : Type}, R α (fail .exhausted) (fail .exhausted)

end Noted

namespace Outline

variable {ν π : Type}

/-- The answers that a reader gets from one outline and a reader of other tolerance from another
outline are related, those about declared last children apart. -/
structure ComparesButLast (R : (α : Type) → Noted Stop α → Noted Stop α → Prop)
    (outline outline' : Outline ν π) (settings settings' : Settings) : Prop
    extends Noted.PassesOn R where
  pageCount_eq : outline.pageCount = outline'.pageCount
  label_eq : outline.label = outline'.label
  depthLimit_eq : settings.depthLimit = settings'.depthLimit
  rootTitle_eq : settings.rootTitle = settings'.rootTitle
  root : R _ (Noted.ofExcept outline.root).inWalk (Noted.ofExcept outline'.root).inWalk
  pages : R _ (Noted.ofExcept (outline.pages ())).inWalk (Noted.ofExcept (outline'.pages ())).inWalk
  first : ∀ node, R _ (settings.follow (outline.first node)).inWalk
    (settings'.follow (outline'.first node)).inWalk
  next : ∀ node, R _ (settings.follow (outline.next node)).inWalk
    (settings'.follow (outline'.next node)).inWalk
  title : ∀ node, R _ (Noted.ofExcept (outline.title node)).inWalk
    (Noted.ofExcept (outline'.title node)).inWalk
  destination : ∀ node, R _ (outline.destination node).inWalk (outline'.destination node).inWalk
  page : ∀ node, R _ (outline.page node).inWalk (outline'.page node).inWalk
  meet : ∀ damage, R _ (settings.meet damage).inWalk (settings'.meet damage).inWalk

/-- All answers that a reader gets from one outline and a reader of other tolerance from another
outline are related. -/
structure Compares (R : (α : Type) → Noted Stop α → Noted Stop α → Prop)
    (outline outline' : Outline ν π) (settings settings' : Settings) : Prop
    extends ComparesButLast R outline outline' settings settings' where
  last : ∀ node, R _ (settings.follow (outline.last node)).inWalk
    (settings'.follow (outline'.last node)).inWalk

namespace ComparesButLast

variable {R : (α : Type) → Noted Stop α → Noted Stop α → Prop} {outline outline' : Outline ν π}
  {settings settings' : Settings} {number? : π → Option Nat}

theorem note (h : ComparesButLast R outline outline' settings settings') {notice : Notice}
    (hnotice : ∀ damage, notice ≠ .branchSkipped damage) :
    R _ (Noted.note notice) (Noted.note notice) :=
  h.tell fun damage hmem => hnotice damage (List.mem_singleton.1 hmem).symm

/-! ## Reading an entry -/

theorem pageNumber (h : ComparesButLast R outline outline' settings settings') (entry : Option ν) :
    R _ (outline.pageNumber number? entry).inWalk (outline'.pageNumber number? entry).inWalk := by
  cases entry with
  | none => exact h.pure _
  | some entry =>
      simp only [Outline.pageNumber, Noted.inWalk_bind]
      apply h.bind (h.page entry)
      intro page
      cases page.bind number? with
      | some number => exact h.pure _
      | none =>
          rw [h.label_eq]
          exact h.bind (h.note (by simp)) fun _ => h.pure _

theorem endPage (h : ComparesButLast R outline outline' settings settings') (entry : ν)
    (next : Option ν) :
    R _ (outline.endPage number? settings entry next).inWalk
      (outline'.endPage number? settings' entry next).inWalk := by
  simp only [Outline.endPage, Noted.inWalk_bind, h.pageCount_eq]
  apply h.bind (h.pageNumber next)
  intro sibling
  split
  · exact h.pure _
  · simp only [Noted.inWalk_bind]
    apply h.bind (h.first entry)
    intro child
    apply h.bind (h.pageNumber child)
    intro below
    split
    · exact h.pure _
    · split <;> exact h.pure _

theorem position (h : ComparesButLast R outline outline' settings settings') (entry : ν) :
    R _ (outline.position entry).inWalk (outline'.position entry).inWalk := by
  simp only [Outline.position, Noted.inWalk_bind]
  apply h.bind (h.destination entry)
  intro destination
  split <;> exact h.pure _

theorem readEntry (h : ComparesButLast R outline outline' settings settings') (entry : ν) :
    R _ (outline.readEntry number? settings entry).inWalk
      (outline'.readEntry number? settings' entry).inWalk := by
  simp only [Outline.readEntry, Noted.inWalk_bind]
  apply h.bind (h.pageNumber (some entry))
  intro start
  apply h.bind (h.next entry)
  intro next
  apply h.bind (h.endPage entry next)
  intro finish
  apply h.bind (h.position entry)
  intro position
  apply h.bind (h.title entry)
  intro title
  exact h.pure _

/-! ## Walking -/

variable [DecidableEq ν]

variable (hcheck : ∀ scope reached, R _ (outline.checkLast settings scope reached).inWalk
  (outline'.checkLast settings' scope reached).inWalk)
include hcheck

/-- Going below a node is passed on if walking along a chain is. -/
theorem descend (h : ComparesButLast R outline outline' settings settings')
    {chain chain' : Nat → Option ν → List ν → Noted Stop (Walked ν)}
    (hchain : ∀ depth current seen, R _ (chain depth current seen) (chain' depth current seen))
    (scope : ν) (depth : Nat) (seen : List ν) :
    R _ (outline.descend settings chain scope depth seen)
      (outline'.descend settings' chain' scope depth seen) := by
  simp only [Outline.descend, h.depthLimit_eq]
  apply h.bind (h.first scope)
  intro first
  split
  · exact h.bind (h.meet _) fun _ => h.pure _
  · apply h.bind (hchain depth first seen)
    intro walked
    exact h.bind (hcheck scope _) fun _ => h.pure _

theorem chain (h : ComparesButLast R outline outline' settings settings') (fuel depth : Nat)
    (current : Option ν) (seen : List ν) :
    R _ (outline.chain number? settings fuel depth current seen)
      (outline'.chain number? settings' fuel depth current seen) := by
  induction fuel generalizing depth current seen with
  | zero =>
      cases current with
      | none =>
          simp only [Outline.chain]
          exact h.pure _
      | some entry =>
          simp only [Outline.chain, h.label_eq]
          split
          · exact h.bind (h.meet _) fun _ => h.pure _
          · exact h.exhausted
  | succ fuel ih =>
      cases current with
      | none =>
          simp only [Outline.chain]
          exact h.pure _
      | some entry =>
          simp only [Outline.chain, h.label_eq]
          split
          · exact h.bind (h.meet _) fun _ => h.pure _
          · apply h.bind (h.readEntry entry)
            intro read
            apply h.bind (h.descend hcheck ih entry (depth + 1) _)
            intro below
            apply h.bind (ih depth read.next below.seen)
            intro after
            exact h.pure _

/-! ## Reading the table of contents -/

variable [BEq π] [Hashable π]

theorem forestWithin (h : ComparesButLast R outline outline' settings settings') (fuel : Nat) :
    R _ (outline.forestWithin settings fuel) (outline'.forestWithin settings' fuel) := by
  unfold Outline.forestWithin
  apply h.bind h.root
  intro root
  cases root with
  | none => exact h.bind (h.note (by simp)) fun _ => h.pure _
  | some root =>
      apply h.bind h.pages
      intro pages
      exact h.bind (h.descend hcheck (h.chain hcheck fuel) root 0 []) fun _ => h.pure _

/-- Readers that get related answers, and whose checks of declared last children have related
outcomes, read related tables of contents. -/
theorem readWithin (h : ComparesButLast R outline outline' settings settings') (fuel : Nat) :
    R _ (outline.readWithin settings fuel) (outline'.readWithin settings' fuel) := by
  rw [Outline.readWithin_eq, Outline.readWithin_eq, h.pageCount_eq, h.rootTitle_eq]
  apply h.bind (h.forestWithin hcheck fuel)
  intro forest
  apply h.bind (h.tell _) fun _ => h.pure _
  intro damage hmem
  simp at hmem

end ComparesButLast

namespace Compares

variable {R : (α : Type) → Noted Stop α → Noted Stop α → Prop} {outline outline' : Outline ν π}
  {settings settings' : Settings} [DecidableEq ν]

theorem checkLast (h : Compares R outline outline' settings settings') (scope : ν)
    (reached : Option ν) :
    R _ (outline.checkLast settings scope reached).inWalk
      (outline'.checkLast settings' scope reached).inWalk := by
  simp only [Outline.checkLast, Noted.inWalk_bind, h.label_eq]
  apply h.bind (h.last scope)
  intro declared
  split
  · split
    · exact h.pure ()
    · exact h.note (by simp)
  · exact h.pure ()

/-- Readers that get related answers read related tables of contents. -/
theorem readWithin [BEq π] [Hashable π] (h : Compares R outline outline' settings settings')
    (fuel : Nat) : R _ (outline.readWithin settings fuel) (outline'.readWithin settings' fuel) :=
  h.toComparesButLast.readWithin h.checkLast fuel

end Compares

end Outline

end Bookmarks
