/-
# The depths of a walk and the levels of sections

The depths that a walk goes down to are the levels of the table that it fills: it goes below a node
once for each section, in the order of the table, and the entries that it comes to there are one
level deeper than the section (`descents_traceWithin`).
-/
import Bookmarks.Proofs.Walk.Steps

namespace Bookmarks

variable {ν π : Type}

/-- The depths at which steps go below nodes, the earliest first. -/
def descents (steps : List (Step ν)) : List Nat :=
  (steps.filter fun step => step.entered?.isSome).map Step.depth

theorem descents_enter (scope : ν) (depth : Nat) (steps : List (Step ν)) :
    descents (.enter scope depth :: steps) = depth :: descents steps := rfl

theorem descents_reach (entry : ν) (depth : Nat) (steps : List (Step ν)) :
    descents (.reach entry depth :: steps) = descents steps := rfl

theorem descents_append (steps others : List (Step ν)) :
    descents (steps ++ others) = descents steps ++ descents others := by
  rw [descents, List.filter_append, List.map_append]
  rfl

/-- The depths below the entries of a forest whose top entries are at a depth. -/
def Forest.depthsBelow (depth : Nat) : Forest ν → List Nat
  | .nil => []
  | .cons _ _ below after =>
      (depth + 1) :: (depthsBelow (depth + 1) below ++ depthsBelow depth after)

/-- Below a section the entries are one level deeper than the section. -/
theorem Forest.map_depthsBelow (forest : Forest ν) :
    ∀ (parent depth start : Nat), (forest.depthsBelow depth).map Int.ofNat =
      (Contents.sectionsOf parent depth start forest).map fun s => s.level + 1 := by
  induction forest with
  | nil => intros; rfl
  | cons node heading below after ihBelow ihAfter =>
      intro parent depth start
      have hafter := ihAfter parent depth (start + below.size + 1)
      rw [depthsBelow, Contents.sectionsOf, List.map_cons, List.map_cons, List.map_append,
        List.map_append, ihBelow start (depth + 1) (start + 1), hafter]
      rfl

namespace Outline

variable [DecidableEq ν] {outline : Outline ν π} {number? : π → Option Nat} {settings : Settings}

theorem descents_traceDescend {trace : Nat → Option ν → List ν → Traced ν (Walked ν)}
    {scope : ν} {depth : Nat} {seen : List ν} {walked : Walked ν}
    (htrace : ∀ first {walked}, (trace depth first seen).reading.result = .ok walked →
      descents (trace depth first seen).steps = walked.forest.depthsBelow depth)
    (h : (outline.traceDescend settings trace scope depth seen).reading.result = .ok walked) :
    descents (outline.traceDescend settings trace scope depth seen).steps =
      depth :: walked.forest.depthsBelow depth := by
  rw [traceDescend, Traced.reading_step_bind, traceBelow] at h
  rw [traceDescend, Traced.steps_step_bind, descents_enter]
  congr 1
  obtain ⟨first, hfirst, h⟩ := Noted.result_bind_eq_ok.1 h
  dsimp only at h
  rw [traceBelow, Traced.steps_bind_of_ok hfirst, Traced.steps_ofReading, List.nil_append]
  split at h
  · next hdeep =>
    obtain ⟨_, -, hwalked⟩ := Noted.result_bind_eq_ok.1 h
    cases hwalked
    rw [if_pos hdeep, Traced.steps_bind_of_nil _ fun _ => rfl]
    rfl
  · next hdeep =>
    obtain ⟨chained, hchained, h⟩ := Noted.result_bind_eq_ok.1 h
    obtain ⟨_, -, hwalked⟩ := Noted.result_bind_eq_ok.1 h
    cases hwalked
    rw [if_neg hdeep, Traced.steps_bind_of_nil _ fun _ => Traced.steps_bind_of_nil _ fun _ => rfl]
    exact htrace first hchained

/-- Where a chain of siblings is taken up at a depth, the walk goes below each entry one deeper than
it came to the entry. -/
theorem descents_traceChain (fuel depth : Nat) (current : Option ν) (seen : List ν)
    {walked : Walked ν}
    (h : (outline.traceChain number? settings fuel depth current seen).reading.result =
      .ok walked) :
    descents (outline.traceChain number? settings fuel depth current seen).steps =
      walked.forest.depthsBelow depth := by
  induction fuel, depth, current, seen using chain_induction generalizing walked with
  | finish fuel depth seen =>
      rw [traceChain] at h ⊢
      cases h
      rfl
  | revisit fuel depth entry seen hseen =>
      rw [traceChain.eq_def] at h ⊢
      rw [Traced.reading_step_bind, if_pos hseen] at h
      obtain ⟨_, -, hwalked⟩ := Noted.result_bind_eq_ok.1 h
      cases hwalked
      rw [Traced.steps_step_bind, if_pos hseen, Traced.steps_bind_of_nil _ fun _ => rfl]
      rfl
  | exhausted depth entry seen hseen =>
      rw [traceChain, Traced.reading_step_bind, if_neg hseen] at h
      cases h
  | visit fuel depth entry seen hseen ih =>
      rw [traceChain] at h ⊢
      rw [Traced.reading_step_bind, if_neg hseen] at h
      obtain ⟨read, hread, h⟩ := Noted.result_bind_eq_ok.1 h
      obtain ⟨below, hbelow, h⟩ := Noted.result_bind_eq_ok.1 h
      obtain ⟨after, hafter, h⟩ := Noted.result_bind_eq_ok.1 h
      cases h
      rw [Traced.steps_step_bind, if_neg hseen, descents_reach, Traced.steps_bind_of_ok hread,
        Traced.steps_ofReading, List.nil_append, Traced.steps_bind_of_ok hbelow,
        Traced.steps_bind_of_nil _ fun _ => rfl, descents_append, ih _ _ _ hafter,
        descents_traceDescend (fun first {_} hfirst => ih _ first _ hfirst) hbelow]
      rfl

/-- A reading that succeeds goes below a node once for each section of the table, in the order of
the table, and always to the level below the section. -/
theorem descents_traceWithin [BEq π] [Hashable π] {fuel : Nat} {root : ν} {contents : Contents}
    (hroot : outline.root = .ok (some root))
    (h : (outline.traceWithin settings fuel).reading.result = .ok contents) :
    (descents (outline.traceWithin settings fuel).steps).map Int.ofNat =
      contents.sections.toList.map fun s => s.level + 1 := by
  rw [steps_traceWithin]
  obtain ⟨forest, hforest, h⟩ := Noted.result_bind_eq_ok.1 h
  obtain ⟨_, -, hcontents⟩ := Noted.result_bind_eq_ok.1 h
  cases hcontents
  obtain ⟨found, hfound, hforest⟩ := Noted.result_bind_eq_ok.1 hforest
  rw [traceForest, Traced.steps_bind_of_ok hfound, Traced.steps_ofReading, List.nil_append]
  obtain rfl : found = some root := by
    rw [hroot] at hfound
    cases hfound
    rfl
  obtain ⟨pages, hpages, hforest⟩ := Noted.result_bind_eq_ok.1 hforest
  obtain ⟨walked, hwalked, hforest⟩ := Noted.result_bind_eq_ok.1 hforest
  cases hforest
  dsimp only
  rw [Traced.steps_bind_of_ok hpages, Traced.steps_ofReading, List.nil_append,
    Traced.steps_bind_of_nil _ fun _ => rfl,
    descents_traceDescend (fun first {_} => descents_traceChain fuel 0 first []) hwalked,
    List.map_cons, Forest.map_depthsBelow _ 0 0 1]
  rfl

end Outline

end Bookmarks
