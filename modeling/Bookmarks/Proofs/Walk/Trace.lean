/-
# Walks that keep their steps

A walk goes below a node, or it comes to an entry of a chain. `Traced` keeps these steps beside what
comes of the walk. Without its steps a traced walk is the walk itself (`reading_traceWithin`), and
with its steps it stays as it is when it is given more fuel, unless it has run out of fuel
(`settled_traceWithin`).
-/
import Bookmarks.Proofs.Walk.Reading

namespace Bookmarks

variable {ν π α β : Type}

/-- One step of a walk. -/
inductive Step (ν : Type) where
  /-- The walk goes below a node, to entries at a depth. -/
  | enter (scope : ν) (depth : Nat)
  /-- The walk comes to an entry of a chain at a depth. -/
  | reach (entry : ν) (depth : Nat)
  deriving DecidableEq, Repr

namespace Step

/-- The depth of the entries that a step is about. -/
def depth : Step ν → Nat
  | .enter _ depth => depth
  | .reach _ depth => depth

/-- The node that a step goes below. -/
def entered? : Step ν → Option ν
  | .enter scope _ => some scope
  | .reach _ _ => none

end Step

/-- A reading inside a walk, with the steps taken for it. -/
structure Traced (ν α : Type) where
  /-- The steps, the earliest first. -/
  steps : List (Step ν)
  /-- What came of it. -/
  reading : Noted Stop α

namespace Traced

/-- A reading for which no step is taken. -/
def ofReading (reading : Noted Stop α) : Traced ν α :=
  ⟨[], reading⟩

/-- A single step. -/
def step (step : Step ν) : Traced ν Unit :=
  ⟨[step], pure ()⟩

/-- Read on with the value of the first reading, if there is one. -/
protected def bind (x : Traced ν α) (f : α → Traced ν β) : Traced ν β where
  steps := x.steps ++ match x.reading.result with
    | .ok a => (f a).steps
    | .error _ => []
  reading := x.reading >>= fun a => (f a).reading

instance : Monad (Traced ν) where
  pure a := ofReading (pure a)
  bind := Traced.bind

variable {x y : Traced ν α} {f g : α → Traced ν β}

@[simp] theorem reading_pure (a : α) : (pure a : Traced ν α).reading = pure a := rfl

@[simp] theorem reading_ofReading (reading : Noted Stop α) :
    (ofReading reading : Traced ν α).reading = reading := rfl

@[simp] theorem reading_bind : (x >>= f).reading = x.reading >>= fun a => (f a).reading := rfl

theorem reading_step_bind (s : Step ν) (f : Unit → Traced ν β) :
    (step s >>= f).reading = (f ()).reading := rfl

@[simp] theorem steps_ofReading (reading : Noted Stop α) :
    (ofReading reading : Traced ν α).steps = [] := rfl

theorem bind_of_ok {a : α} (h : x.reading.result = .ok a) :
    x >>= f = ⟨x.steps ++ (f a).steps, x.reading >>= fun a => (f a).reading⟩ := by
  simp only [bind, Traced.bind, h]

theorem bind_of_error {stop : Stop} (h : x.reading.result = .error stop) :
    x >>= f = ⟨x.steps, ⟨x.reading.notices, .error stop⟩⟩ := by
  rw [← Noted.bind_of_error h fun a => (f a).reading]
  simp only [bind, Traced.bind, h, List.append_nil]

/-- The steps of two readings in a row are those of the first, if it fails, and otherwise those of
both. -/
theorem steps_bind (x : Traced ν α) (f : α → Traced ν β) :
    (x >>= f).steps = x.steps ∨ ∃ a, (x >>= f).steps = x.steps ++ (f a).steps := by
  cases h : x.reading.result with
  | ok a =>
      rw [bind_of_ok h]
      exact Or.inr ⟨a, rfl⟩
  | error stop =>
      rw [bind_of_error h]
      exact Or.inl rfl

theorem steps_bind_of_ok {a : α} (h : x.reading.result = .ok a) :
    (x >>= f).steps = x.steps ++ (f a).steps := by
  rw [bind_of_ok h]

theorem steps_bind_of_nil (x : Traced ν α) (hf : ∀ a, (f a).steps = []) :
    (x >>= f).steps = x.steps := by
  rcases steps_bind x f with h | ⟨a, h⟩
  · exact h
  · rw [h, hf, List.append_nil]

theorem steps_step_bind (s : Step ν) (f : Unit → Traced ν β) :
    (step s >>= f).steps = s :: (f ()).steps := rfl

/-! ## Enough fuel -/

/-- With more fuel a reading stays as it is, unless it has run out of fuel. -/
def Settled (x y : Traced ν α) : Prop :=
  x.reading.result ≠ .error .exhausted → y = x

theorem Settled.refl (x : Traced ν α) : Settled x x :=
  fun _ => rfl

theorem Settled.bind (hx : Settled x y) (hf : ∀ a, Settled (f a) (g a)) :
    Settled (x >>= f) (y >>= g) := by
  intro h
  cases hresult : x.reading.result with
  | ok a =>
      have hrest : (f a).reading.result ≠ .error .exhausted := by
        intro hexhausted
        exact h (Noted.result_bind_eq_error.2 (Or.inr ⟨a, hresult, hexhausted⟩))
      have hsame : y = x := hx (by rw [hresult]; exact nofun)
      subst hsame
      rw [bind_of_ok hresult, bind_of_ok hresult, Noted.bind_of_ok hresult,
        Noted.bind_of_ok hresult, hf a hrest]
  | error stop =>
      have hsame : y = x := by
        apply hx
        intro hexhausted
        exact h (Noted.result_bind_eq_error.2 (Or.inl hexhausted))
      subst hsame
      rw [bind_of_error hresult, bind_of_error hresult]

end Traced

/-! ## The walk with its steps -/

namespace Outline

section Trace

variable [DecidableEq ν] (outline : Outline ν π) (number? : π → Option Nat) (settings : Settings)

open Traced in
/-- The entries below a node, which the walk has gone below. -/
def traceBelow (chain : Nat → Option ν → List ν → Traced ν (Walked ν)) (scope : ν) (depth : Nat)
    (seen : List ν) : Traced ν (Walked ν) := do
  let first ← ofReading (settings.follow (outline.first scope)).inWalk
  if first.isSome && settings.depthLimit ≤ depth then do
    ofReading (settings.meet (.tooDeep settings.depthLimit)).inWalk
    pure ⟨.nil, seen⟩
  else do
    let walked ← chain depth first seen
    ofReading (outline.checkLast settings scope walked.forest.last?).inWalk
    pure walked

open Traced in
/-- Going below a node. -/
def traceDescend (chain : Nat → Option ν → List ν → Traced ν (Walked ν)) (scope : ν)
    (depth : Nat) (seen : List ν) : Traced ν (Walked ν) := do
  step (.enter scope depth)
  outline.traceBelow settings chain scope depth seen

open Traced in
/-- A chain of siblings with everything below it. -/
def traceChain : Nat → Nat → Option ν → List ν → Traced ν (Walked ν)
  | _, _, none, seen => pure ⟨.nil, seen⟩
  | fuel, depth, some entry, seen => do
      step (.reach entry depth)
      if entry ∈ seen then do
        ofReading (settings.meet (.linkedTwice (outline.label entry))).inWalk
        pure ⟨.nil, seen⟩
      else
        match fuel with
        | 0 => ofReading (.fail .exhausted)
        | fuel + 1 => do
            let read ← ofReading (outline.readEntry number? settings entry).inWalk
            let below ← outline.traceDescend settings (traceChain fuel) entry (depth + 1)
              (entry :: seen)
            let after ← traceChain fuel depth read.next below.seen
            pure ⟨.cons entry read.heading below.forest after.forest, after.seen⟩

open Traced in
/-- The entries of an outline. -/
def traceForest [BEq π] [Hashable π] (fuel : Nat) : Traced ν (Forest ν) := do
  let root ← ofReading (Noted.ofExcept outline.root).inWalk
  match root with
  | none => do
      ofReading (Noted.note .noOutline)
      pure .nil
  | some root => do
      let pages ← ofReading (Noted.ofExcept (outline.pages ())).inWalk
      let index := PageIndex.ofList pages
      let walked ← outline.traceDescend settings
        (outline.traceChain index.number? settings fuel) root 0 []
      pure walked.forest

open Traced in
/-- The table of contents of an outline. -/
def traceWithin [BEq π] [Hashable π] (fuel : Nat) : Traced ν Contents := do
  let forest ← outline.traceForest settings fuel
  let contents :=
    Contents.ofForest settings.rootTitle (signed32 outline.pageCount.toNat) forest
  ofReading (Noted.tell (contents.lines.map .contentsLine))
  pure contents

end Trace

variable [DecidableEq ν] {outline : Outline ν π} {number? : π → Option Nat} {settings : Settings}

/-! ### Without its steps it is the walk -/

theorem reading_traceDescend {trace : Nat → Option ν → List ν → Traced ν (Walked ν)}
    {chain : Nat → Option ν → List ν → Noted Stop (Walked ν)}
    (htrace : ∀ depth current seen, (trace depth current seen).reading = chain depth current seen)
    (scope : ν) (depth : Nat) (seen : List ν) :
    (outline.traceDescend settings trace scope depth seen).reading =
      outline.descend settings chain scope depth seen := by
  rw [traceDescend, Traced.reading_step_bind, traceBelow,
    Traced.reading_bind, Traced.reading_ofReading, descend]
  congr 1
  funext first
  rw [apply_ite Traced.reading]
  simp only [Traced.reading_bind, Traced.reading_ofReading, Traced.reading_pure, htrace]

theorem reading_traceChain (fuel depth : Nat) (current : Option ν) (seen : List ν) :
    (outline.traceChain number? settings fuel depth current seen).reading =
      outline.chain number? settings fuel depth current seen := by
  induction fuel, depth, current, seen using chain_induction with
  | finish fuel depth seen => rw [chain_none, traceChain, Traced.reading_pure]
  | revisit fuel depth entry seen hseen =>
      rw [chain_of_mem hseen, traceChain.eq_def, Traced.reading_step_bind, if_pos hseen]
      rfl
  | exhausted depth entry seen hseen =>
      rw [chain, traceChain, Traced.reading_step_bind, if_neg hseen, if_neg hseen]
      rfl
  | visit fuel depth entry seen hseen ih =>
      rw [chain, traceChain, Traced.reading_step_bind, if_neg hseen, if_neg hseen]
      simp only [Traced.reading_bind, Traced.reading_ofReading, Traced.reading_pure, ih,
        reading_traceDescend ih]

theorem reading_traceForest [BEq π] [Hashable π] (fuel : Nat) :
    (outline.traceForest settings fuel).reading = outline.forestWithin settings fuel := by
  rw [traceForest, Traced.reading_bind, Traced.reading_ofReading, forestWithin]
  congr 1
  funext root
  cases root with
  | none => rfl
  | some root =>
      simp only [Traced.reading_bind, Traced.reading_ofReading, Traced.reading_pure,
        reading_traceDescend (reading_traceChain fuel), walk]

/-- Without its steps a traced reading is the reading. -/
theorem reading_traceWithin [BEq π] [Hashable π] (fuel : Nat) :
    (outline.traceWithin settings fuel).reading = outline.readWithin settings fuel := by
  simp only [traceWithin, readWithin_eq, Traced.reading_bind, Traced.reading_ofReading,
    Traced.reading_pure, reading_traceForest]

/-! ### With enough fuel it stays as it is -/

theorem settled_traceDescend {trace trace' : Nat → Option ν → List ν → Traced ν (Walked ν)}
    (htrace : ∀ depth current seen, (trace depth current seen).Settled (trace' depth current seen))
    (scope : ν) (depth : Nat) (seen : List ν) :
    (outline.traceDescend settings trace scope depth seen).Settled
      (outline.traceDescend settings trace' scope depth seen) := by
  refine (Traced.Settled.refl _).bind fun _ => ?_
  refine (Traced.Settled.refl _).bind fun first => ?_
  split
  · exact Traced.Settled.refl _
  · exact (htrace _ _ _).bind fun _ => Traced.Settled.refl _

theorem settled_traceChain {fuel fuel' : Nat} (hfuel : fuel ≤ fuel') (depth : Nat)
    (current : Option ν) (seen : List ν) :
    (outline.traceChain number? settings fuel depth current seen).Settled
      (outline.traceChain number? settings fuel' depth current seen) := by
  induction fuel, depth, current, seen using chain_induction generalizing fuel' with
  | finish fuel depth seen =>
      rw [traceChain, traceChain]
      exact Traced.Settled.refl _
  | revisit fuel depth entry seen hseen =>
      rw [traceChain.eq_def, traceChain.eq_def]
      simp only [if_pos hseen]
      exact Traced.Settled.refl _
  | exhausted depth entry seen hseen =>
      intro hends
      rw [reading_traceChain, chain, if_neg hseen] at hends
      exact absurd rfl hends
  | visit fuel depth entry seen hseen ih =>
      obtain ⟨fuel', rfl⟩ : ∃ smaller, fuel' = smaller + 1 := ⟨fuel' - 1, by omega⟩
      have hfuel : fuel ≤ fuel' := Nat.le_of_succ_le_succ hfuel
      rw [traceChain, traceChain]
      simp only [if_neg hseen]
      refine (Traced.Settled.refl _).bind fun _ => ?_
      refine (Traced.Settled.refl _).bind fun read => ?_
      have hchain := fun depth current seen => ih depth current seen hfuel
      refine (settled_traceDescend hchain _ _ _).bind fun below => ?_
      exact (hchain depth read.next below.seen).bind fun _ => Traced.Settled.refl _

theorem settled_traceWithin [BEq π] [Hashable π] {fuel fuel' : Nat} (hfuel : fuel ≤ fuel') :
    (outline.traceWithin settings fuel).Settled (outline.traceWithin settings fuel') := by
  refine Traced.Settled.bind ?_ fun _ => Traced.Settled.refl _
  refine (Traced.Settled.refl _).bind fun root => ?_
  cases root with
  | none => exact Traced.Settled.refl _
  | some root =>
      refine (Traced.Settled.refl _).bind fun pages => ?_
      refine Traced.Settled.bind ?_ fun _ => Traced.Settled.refl _
      exact settled_traceDescend (settled_traceChain hfuel) _ _ _

/-- With more fuel a reading stays as it is, unless it has run out of fuel. -/
theorem readWithin_eq_of_le [BEq π] [Hashable π] {fuel fuel' : Nat} (hfuel : fuel ≤ fuel')
    (h : (outline.readWithin settings fuel).result ≠ .error .exhausted) :
    outline.readWithin settings fuel' = outline.readWithin settings fuel := by
  rw [← reading_traceWithin] at h
  rw [← reading_traceWithin, ← reading_traceWithin, settled_traceWithin hfuel h]

end Outline

theorem Noted.inWalk_injective {α : Type} : Function.Injective (Noted.inWalk (α := α)) := by
  rintro ⟨notices, result⟩ ⟨notices', result'⟩ h
  obtain ⟨rfl, hresult⟩ := Noted.mk.inj h
  cases result <;> cases result' <;> cases hresult <;> rfl

namespace FiniteOutline

variable [DecidableEq ν] [BEq π] [Hashable π] {outline other : FiniteOutline ν π}

theorem inWalk_read (settings : Settings) :
    (outline.read settings).inWalk = outline.readWithin settings outline.handles.length := by
  unfold read
  dsimp only
  split
  · next h => exact congrArg (Noted.mk _) h.symm
  · next h => exact congrArg (Noted.mk _) h.symm
  · next h => exact absurd h (Outline.readWithin_ne_exhausted outline.linksWithin (Nat.le_refl _))

/-- It does not matter among which handles an outline is read. -/
theorem read_eq_of_toOutline (h : outline.toOutline = other.toOutline) (settings : Settings) :
    outline.read settings = other.read settings := by
  have hread {outline : FiniteOutline ν π} {fuel : Nat} (hfuel : outline.handles.length ≤ fuel) :
      (outline.read settings).inWalk = outline.readWithin settings fuel := by
    rw [inWalk_read, Outline.readWithin_eq_of_le hfuel
      (Outline.readWithin_ne_exhausted outline.linksWithin (Nat.le_refl _))]
  apply Noted.inWalk_injective
  rw [hread (Nat.le_max_left _ other.handles.length), hread (Nat.le_max_right _ _), h]

end FiniteOutline

end Bookmarks
