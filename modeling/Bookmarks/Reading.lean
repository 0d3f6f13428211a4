/-
# Reading an outline

The outline of a document is read into a table of contents: one section for each entry that the
walk takes up, added to the table as soon as the entry is read. A document without an outline has a
table that holds nothing but the document as a whole. The table is the one of the forest that the
walk brings home (`Outline.readWithin_eq`). Reading a finite outline always ends.
-/
import Bookmarks.Contents.Listing
import Bookmarks.Walk.Growth
import Bookmarks.Walk.Termination

namespace Bookmarks

namespace Outline

variable {ν π : Type} [DecidableEq ν] [BEq π] [Hashable π]

/-- The table that grows along an outline. Pages are only asked for if there is an outline to begin
with. -/
def growWithin (outline : Outline ν π) (settings : Settings) (fuel : Nat) :
    Noted Stop Contents := do
  let bare := Contents.bare settings.rootTitle (signed32 outline.pageCount.toNat)
  let root ← (Noted.ofExcept outline.root).inWalk
  match root with
  | none => do
      Noted.note .noOutline
      pure bare
  | some root => do
      let pages ← (Noted.ofExcept (outline.pages ())).inWalk
      let index := PageIndex.ofList pages
      let pass ← outline.growBelow settings (outline.growChain index.number? settings fuel) 0 root 0
        ⟨bare, []⟩
      pure pass.contents

/-- The table of contents of an outline, read with a bounded number of steps below one another.
The finished table is noted line by line. -/
def readWithin (outline : Outline ν π) (settings : Settings) (fuel : Nat) :
    Noted Stop Contents := do
  let contents ← outline.growWithin settings fuel
  Noted.tell (contents.lines.map .contentsLine)
  pure contents

/-- The entries of an outline, as a walk brings them home. -/
def forestWithin (outline : Outline ν π) (settings : Settings) (fuel : Nat) :
    Noted Stop (Forest ν) := do
  let root ← (Noted.ofExcept outline.root).inWalk
  match root with
  | none => do
      Noted.note .noOutline
      pure .nil
  | some root => do
      let pages ← (Noted.ofExcept (outline.pages ())).inWalk
      let index := PageIndex.ofList pages
      let walked ← outline.walk index.number? settings fuel root
      pure walked.forest

/-- The table that grows along an outline is the one of the outline's entries. -/
theorem growWithin_eq (outline : Outline ν π) (settings : Settings) (fuel : Nat) :
    outline.growWithin settings fuel =
      Contents.ofForest settings.rootTitle (signed32 outline.pageCount.toNat) <$>
        outline.forestWithin settings fuel := by
  have hlawful := Noted.lawfulMonad Stop
  rw [growWithin, forestWithin, map_bind]
  congr 1
  funext root
  cases root with
  | none => simp only [map_bind, map_pure, ← Contents.plant_bare, Contents.plant]
  | some root =>
      simp only [map_bind, map_pure, growBelow_eq, bind_map_left, walk, Pass.grown,
        Contents.plant_bare]

theorem readWithin_eq (outline : Outline ν π) (settings : Settings) (fuel : Nat) :
    outline.readWithin settings fuel = (do
      let forest ← outline.forestWithin settings fuel
      let contents :=
        Contents.ofForest settings.rootTitle (signed32 outline.pageCount.toNat) forest
      Noted.tell (contents.lines.map .contentsLine)
      pure contents) := by
  have hlawful := Noted.lawfulMonad Stop
  rw [readWithin, growWithin_eq, bind_map_left]

theorem readWithin_ne_exhausted {outline : Outline ν π} {settings : Settings} {handles : List ν}
    (hwithin : outline.LinksWithin handles) {fuel : Nat} (hfuel : handles.length ≤ fuel) :
    (outline.readWithin settings fuel).result ≠ .error .exhausted := by
  intro h
  simp only [readWithin_eq, Noted.result_bind_eq_error, Noted.result_pure] at h
  obtain h | ⟨_, _, h | ⟨_, _, h⟩⟩ := h
  · simp only [forestWithin, Noted.result_bind_eq_error, Noted.result_inWalk_ne_exhausted,
      false_or] at h
    obtain ⟨root, _, h⟩ := h
    cases root with
    | none =>
      simp [Noted.result_bind_eq_error, Noted.note] at h
    | some root =>
      simp only [Noted.result_bind_eq_error, Noted.result_inWalk_ne_exhausted, false_or,
        Noted.result_pure] at h
      obtain ⟨_, _, h | ⟨_, _, h⟩⟩ := h
      · exact walk_ne_exhausted hwithin hfuel h
      · exact absurd h (by simp)
  · exact absurd h (by simp [Noted.tell])
  · exact absurd h (by simp)

end Outline

/-- The table of contents of an outline among finitely many handles. -/
def FiniteOutline.read {ν π : Type} [DecidableEq ν] [BEq π] [Hashable π]
    (outline : FiniteOutline ν π) (settings : Settings) : Noted Fault Contents :=
  let reading := outline.readWithin settings outline.handles.length
  match h : reading.result with
  | .ok contents => ⟨reading.notices, .ok contents⟩
  | .error (.fault fault) => ⟨reading.notices, .error fault⟩
  | .error .exhausted =>
      absurd h (Outline.readWithin_ne_exhausted outline.linksWithin (Nat.le_refl _))

end Bookmarks
