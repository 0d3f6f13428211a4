/-
# Growing a table along a walk

The table of contents of an outline is not laid out at the end of a walk but grows with it: a pass
carries the table in the making and the entries seen, and adds a section for each entry before it
goes below it. `growBelow` and `growChain` are this pass, told at each step to which section and to
which level the next section belongs.

The pass takes up the entries that `Outline.descend` and `Outline.chain` take up, raises the same
notices and fails alike, and the table at its end is the one that their forest is planted in
(`growBelow_eq`).
-/
import Bookmarks.Contents.Growth
import Bookmarks.Walk

namespace Bookmarks

/-- The state of a pass. -/
structure Pass (ν : Type) where
  /-- The table in the making. -/
  contents : Contents
  /-- All entries seen so far, the latest first. -/
  seen : List ν

/-- A pass after a walk: it holds what the walk took up, and has seen what the walk saw. -/
def Pass.grown {ν : Type} (pass : Pass ν) (parent level : Nat) (walked : Walked ν) : Pass ν :=
  ⟨Contents.plant parent level walked.forest pass.contents, walked.seen⟩

namespace Outline

variable {ν π : Type} [DecidableEq ν]

section Growing

variable (outline : Outline ν π) (number? : π → Option Nat) (settings : Settings)

/-- Add the entries below a node to the section `parent`, where `grow` goes along a chain of
siblings and comes back with the last one taken up. -/
def growBelow (grow : Nat → Nat → Option ν → Option ν → Pass ν → Noted Stop (Option ν × Pass ν))
    (parent : Nat) (scope : ν) (level : Nat) (pass : Pass ν) : Noted Stop (Pass ν) := do
  let first ← (settings.follow (outline.first scope)).inWalk
  if first.isSome && settings.depthLimit ≤ level then do
    (settings.meet (.tooDeep settings.depthLimit)).inWalk
    pure pass
  else do
    let (previous, pass) ← grow parent level first none pass
    (outline.checkLast settings scope previous).inWalk
    pure pass

/-- Add a chain of siblings to the section `parent`, each with everything below it. `previous` is
the sibling taken up before. -/
def growChain : Nat → Nat → Nat → Option ν → Option ν → Pass ν → Noted Stop (Option ν × Pass ν)
  | _, _, _, none, previous, pass => pure (previous, pass)
  | fuel, parent, level, some entry, previous, pass =>
      if entry ∈ pass.seen then do
        (settings.meet (.linkedTwice (outline.label entry))).inWalk
        pure (previous, pass)
      else
        match fuel with
        | 0 => .fail .exhausted
        | fuel + 1 => do
            let read ← (outline.readEntry number? settings entry).inWalk
            let contents := pass.contents.addChild parent level read.heading
            let pass ← outline.growBelow settings (growChain fuel) pass.contents.size entry
              (level + 1) ⟨contents, entry :: pass.seen⟩
            growChain fuel parent level read.next (some entry) pass

end Growing

/-! ## The pass and the walk -/

variable {outline : Outline ν π} {number? : π → Option Nat} {settings : Settings}

/-- A pass goes below a node like a walk, if it goes along chains like one. -/
theorem growBelow_eq_of_chain
    {grow : Nat → Nat → Option ν → Option ν → Pass ν → Noted Stop (Option ν × Pass ν)}
    {chain : Nat → Option ν → List ν → Noted Stop (Walked ν)}
    (hchain : ∀ parent level current previous pass,
      grow parent level current previous pass =
        (fun walked => (walked.forest.last?.or previous, pass.grown parent level walked)) <$>
          chain level current pass.seen)
    (parent : Nat) (scope : ν) (level : Nat) (pass : Pass ν) :
    outline.growBelow settings grow parent scope level pass =
      pass.grown parent level <$> outline.descend settings chain scope level pass.seen := by
  have hlawful := Noted.lawfulMonad Stop
  rw [growBelow, descend, map_bind]
  congr 1
  funext first
  split
  · rw [map_bind]
    rfl
  · simp only [hchain, bind_map_left, map_bind, map_pure, Option.or_none]

/-- Along a chain of siblings a pass adds what a walk takes up. -/
theorem growChain_eq (fuel parent level : Nat) (current previous : Option ν) (pass : Pass ν) :
    outline.growChain number? settings fuel parent level current previous pass =
      (fun walked => (walked.forest.last?.or previous, pass.grown parent level walked)) <$>
        outline.chain number? settings fuel level current pass.seen := by
  have hlawful := Noted.lawfulMonad Stop
  induction fuel generalizing parent level current previous pass with
  | zero =>
      cases current with
      | none => rfl
      | some entry =>
          rw [growChain, chain]
          split
          · rw [map_bind]
            rfl
          · rfl
  | succ fuel ih =>
      cases current with
      | none => rfl
      | some entry =>
          rw [growChain, chain]
          split
          · rw [map_bind]
            rfl
          · simp only [growBelow_eq_of_chain ih, ih, bind_map_left, map_bind, map_pure,
              Forest.last?_cons, Option.or_assoc, Option.some_or]
            rfl

/-- A pass adds what a walk takes up. -/
theorem growBelow_eq (fuel parent : Nat) (scope : ν) (level : Nat) (pass : Pass ν) :
    outline.growBelow settings (outline.growChain number? settings fuel) parent scope level pass =
      pass.grown parent level <$>
        outline.descend settings (outline.chain number? settings fuel) scope level pass.seen :=
  growBelow_eq_of_chain (growChain_eq fuel) parent scope level pass

end Outline

end Bookmarks
