/-
# The steps of a walk

A walk goes below no entry twice, and it is never deeper than it has gone below entries. So among
finitely many handles it takes few steps, makes few sections, and stays within the integers that
count levels. What comes of it is the same for any fuel that is enough (`readWithin_ends`).
-/
import Bookmarks.Outline.Table
import Bookmarks.Proofs.Page.Index
import Bookmarks.Proofs.Walk.Trace

namespace Bookmarks

variable {ν π α β : Type}

/-- A reading inside a walk that does not run out of fuel is a reading of its own. -/
theorem Noted.exists_eq_inWalk {x : Noted Stop α} (h : x.result ≠ .error .exhausted) :
    ∃ reading : Noted Fault α, x = reading.inWalk := by
  rcases x with ⟨notices, (fault | _) | a⟩
  · exact ⟨⟨notices, .error fault⟩, rfl⟩
  · exact absurd rfl h
  · exact ⟨⟨notices, .ok a⟩, rfl⟩

/-- A depth that is less than the greatest signed 32-bit integer is counted on without overflow, and
is the same as an unsigned integer. -/
theorem level_exact {depth : Nat} (h : depth < Int32.maxValue.toInt) :
    (Int32.ofNat depth + 1).toInt = depth + 1 ∧
      (Int32.ofNat depth).toISize.toUSize.toNat = depth := by
  have hmax : Int32.maxValue.toInt = 2147483647 := by decide
  rw [hmax] at h
  have hlevel : (Int32.ofNat depth).toInt = depth := Int32.toInt_ofNat_of_lt (by omega)
  have hwide : (Int32.ofNat depth).toISize.toInt = depth :=
    (Int32.toInt_toISize _).trans hlevel
  constructor
  · rw [Int32.toInt_add, hlevel]
    apply Int.bmod_eq_of_le
    · simp
      omega
    · simp
      omega
  · rw [ISize.toNat_toUSize_of_le, ← ISize.toNat_toInt, hwide, Int.toNat_natCast]
    rw [ISize.le_iff_toInt_le, hwide]
    simp

/-! ## The nodes that steps go below -/

/-- The nodes that steps go below, the earliest first. -/
def enteredBy (steps : List (Step ν)) : List ν :=
  steps.filterMap Step.entered?

theorem enteredBy_enter (scope : ν) (depth : Nat) (steps : List (Step ν)) :
    enteredBy (.enter scope depth :: steps) = scope :: enteredBy steps := rfl

theorem enteredBy_reach (entry : ν) (depth : Nat) (steps : List (Step ν)) :
    enteredBy (.reach entry depth :: steps) = enteredBy steps := rfl

theorem enteredBy_append (steps others : List (Step ν)) :
    enteredBy (steps ++ others) = enteredBy steps ++ enteredBy others :=
  List.filterMap_append

namespace Traced

variable {x : Traced ν α} {f : α → Traced ν β}

/-- Different handles of a list. -/
structure Distinct (handles seen : List ν) : Prop where
  nodup : seen.Nodup
  subset : seen ⊆ handles

theorem Distinct.nil (handles : List ν) : Distinct handles [] :=
  ⟨List.nodup_nil, List.nil_subset _⟩

theorem Distinct.cons {handles seen : List ν} (h : Distinct handles seen) {entry : ν}
    (hnew : entry ∉ seen) (hentry : entry ∈ handles) : Distinct handles (entry :: seen) :=
  ⟨List.nodup_cons.2 ⟨hnew, h.nodup⟩, List.cons_subset.2 ⟨hentry, h.subset⟩⟩

theorem Distinct.length_le {handles seen : List ν} (h : Distinct handles seen) :
    seen.length ≤ handles.length :=
  h.nodup.length_le_of_subset h.subset

/-- Starting with some handles seen, a reading goes below new handles only and below none twice. It
adds them to those seen, and none of its steps is deeper than there are handles. -/
structure Takes (handles seen : List ν) (x : Traced ν α) (seenAfter : α → List ν) : Prop where
  distinct : Distinct handles ((enteredBy x.steps).reverse ++ seen)
  seen_eq : ∀ a, x.reading.result = .ok a → seenAfter a = (enteredBy x.steps).reverse ++ seen
  depth_le : ∀ step ∈ x.steps, step.depth ≤ handles.length

namespace Takes

variable {handles seen : List ν} {seenAfter : α → List ν} {seenLater : β → List ν}

theorem distinct_after (h : Takes handles seen x seenAfter) {a : α}
    (ha : x.reading.result = .ok a) : Distinct handles (seenAfter a) := by
  rw [h.seen_eq a ha]
  exact h.distinct

theorem length_le_after (h : Takes handles seen x seenAfter) {a : α}
    (ha : x.reading.result = .ok a) : seen.length ≤ (seenAfter a).length := by
  rw [h.seen_eq a ha, List.length_append]
  exact Nat.le_add_left _ _

theorem ofReading (h : Distinct handles seen) (reading : Noted Stop α) :
    Takes handles seen (ofReading reading) fun _ => seen :=
  ⟨h, fun _ _ => rfl, fun _ hstep => absurd hstep List.not_mem_nil⟩

theorem pure (h : Distinct handles seen) {a : α} (ha : seenAfter a = seen) :
    Takes handles seen (Pure.pure a) seenAfter where
  distinct := h
  seen_eq a' ha' := by
    cases ha'
    exact ha
  depth_le _ hstep := absurd hstep List.not_mem_nil

theorem reach (h : Distinct handles seen) (entry : ν) {depth : Nat}
    (hdepth : depth ≤ handles.length) :
    Takes handles seen (step (.reach entry depth)) fun _ => seen where
  distinct := h
  seen_eq _ _ := rfl
  depth_le step hstep := by
    cases List.mem_singleton.1 hstep
    exact hdepth

theorem enter {scope : ν} (h : Distinct handles (scope :: seen)) {depth : Nat}
    (hdepth : depth ≤ handles.length) :
    Takes handles seen (step (.enter scope depth)) fun _ => scope :: seen where
  distinct := h
  seen_eq _ _ := rfl
  depth_le step hstep := by
    cases List.mem_singleton.1 hstep
    exact hdepth

theorem bind (hx : Takes handles seen x seenAfter)
    (hf : ∀ a, x.reading.result = .ok a → Takes handles (seenAfter a) (f a) seenLater) :
    Takes handles seen (x >>= f) seenLater := by
  cases h : x.reading.result with
  | ok a =>
      have hrest := hf a h
      have hentered : (enteredBy (x >>= f).steps).reverse ++ seen =
          (enteredBy (f a).steps).reverse ++ seenAfter a := by
        rw [hx.seen_eq a h, bind_of_ok h, enteredBy_append, List.reverse_append,
          List.append_assoc]
      refine ⟨?_, ?_, ?_⟩
      · rw [hentered]
        exact hrest.distinct
      · intro b hb
        rw [reading_bind, Noted.bind_of_ok h] at hb
        rw [hentered]
        exact hrest.seen_eq b hb
      · rw [bind_of_ok h]
        intro step hstep
        rcases List.mem_append.1 hstep with hstep | hstep
        · exact hx.depth_le step hstep
        · exact hrest.depth_le step hstep
  | error stop =>
      rw [bind_of_error h]
      exact ⟨hx.distinct, (fun _ hb => nomatch hb), hx.depth_le⟩

end Takes

end Traced

namespace Outline

variable [DecidableEq ν] {outline : Outline ν π} {number? : π → Option Nat} {settings : Settings}

/-! ## A walk takes few steps for the nodes that it goes below -/

variable (outline settings) in
theorem length_traceDescend {trace : Nat → Option ν → List ν → Traced ν (Walked ν)}
    (htrace : ∀ depth current seen, (trace depth current seen).steps.length ≤
      3 * (enteredBy (trace depth current seen).steps).length + 1)
    (scope : ν) (depth : Nat) (seen : List ν) :
    (outline.traceDescend settings trace scope depth seen).steps.length + 1 ≤
      3 * (enteredBy (outline.traceDescend settings trace scope depth seen).steps).length := by
  have hbelow : (outline.traceBelow settings trace scope depth seen).steps.length ≤
      3 * (enteredBy (outline.traceBelow settings trace scope depth seen).steps).length + 1 := by
    rw [traceBelow]
    rcases Traced.steps_bind (.ofReading (settings.follow (outline.first scope)).inWalk) _ with
      hsteps | ⟨first, hsteps⟩
    · rw [hsteps]
      exact Nat.zero_le _
    rw [hsteps, Traced.steps_ofReading, List.nil_append]
    split
    · rw [Traced.steps_bind_of_nil _ fun _ => rfl]
      exact Nat.zero_le _
    · rw [Traced.steps_bind_of_nil _ fun _ => Traced.steps_bind_of_nil _ fun _ => rfl]
      exact htrace _ _ _
  rw [traceDescend, Traced.steps_step_bind, enteredBy_enter, List.length_cons, List.length_cons]
  omega

variable (outline number? settings) in
/-- A walk goes below each entry that it comes to, or ends the chain there. -/
theorem length_traceChain (fuel depth : Nat) (current : Option ν) (seen : List ν) :
    (outline.traceChain number? settings fuel depth current seen).steps.length ≤
      3 * (enteredBy
        (outline.traceChain number? settings fuel depth current seen).steps).length + 1 := by
  induction fuel, depth, current, seen using chain_induction with
  | finish fuel depth seen =>
      rw [traceChain]
      exact Nat.zero_le _
  | revisit fuel depth entry seen hseen =>
      rw [traceChain.eq_def, Traced.steps_step_bind, if_pos hseen,
        Traced.steps_bind_of_nil _ fun _ => rfl]
      exact Nat.le_add_left _ _
  | exhausted depth entry seen hseen =>
      rw [traceChain, Traced.steps_step_bind, if_neg hseen]
      exact Nat.le_add_left _ _
  | visit fuel depth entry seen hseen ih =>
      rw [traceChain, Traced.steps_step_bind, if_neg hseen, enteredBy_reach, List.length_cons]
      rcases Traced.steps_bind (.ofReading (outline.readEntry number? settings entry).inWalk) _ with
        hsteps | ⟨read, hsteps⟩
      · rw [hsteps]
        exact Nat.le_add_left _ _
      rw [hsteps, Traced.steps_ofReading, List.nil_append]
      have hdescend := length_traceDescend outline settings ih entry (depth + 1) (entry :: seen)
      rcases Traced.steps_bind (outline.traceDescend settings
        (outline.traceChain number? settings fuel) entry (depth + 1) (entry :: seen)) _ with
        hsteps | ⟨below, hsteps⟩
      · rw [hsteps]
        omega
      rw [hsteps, Traced.steps_bind_of_nil _ fun _ => rfl, enteredBy_append, List.length_append,
        List.length_append]
      have hafter := ih depth read.next below.seen
      omega

/-! ## A walk goes below no entry twice -/

section Takes

variable {handles : List ν} (hwithin : outline.LinksWithin handles)
include hwithin

theorem takes_traceBelow {trace : Nat → Option ν → List ν → Traced ν (Walked ν)} {scope : ν}
    {depth : Nat} {seen : List ν} (hseen : Traced.Distinct handles seen)
    (htrace : ∀ first, (∀ entry, first = some entry → entry ∈ handles) →
      (trace depth first seen).Takes handles seen Walked.seen) :
    (outline.traceBelow settings trace scope depth seen).Takes handles seen Walked.seen := by
  refine (Traced.Takes.ofReading hseen _).bind fun first hfirst => ?_
  split
  · exact (Traced.Takes.ofReading hseen _).bind fun _ _ => .pure hseen rfl
  · have hchain := htrace first <| by
      rintro entry rfl
      exact follow_mem hwithin.first_mem (Noted.result_inWalk_eq_ok.1 hfirst)
    refine hchain.bind fun walked hwalked => ?_
    have hafter := hchain.distinct_after hwalked
    exact (Traced.Takes.ofReading hafter _).bind fun _ _ => .pure hafter rfl

theorem takes_traceChain (fuel depth : Nat) (current : Option ν) (seen : List ν)
    (hseen : Traced.Distinct handles seen) (hdepth : depth ≤ seen.length)
    (hcurrent : ∀ entry, current = some entry → entry ∈ handles) :
    (outline.traceChain number? settings fuel depth current seen).Takes handles seen
      Walked.seen := by
  have hdepth' := Nat.le_trans hdepth hseen.length_le
  induction fuel, depth, current, seen using chain_induction with
  | finish fuel depth seen =>
      rw [traceChain]
      exact .pure hseen rfl
  | revisit fuel depth entry seen hmem =>
      rw [traceChain.eq_def]
      refine (Traced.Takes.reach hseen entry hdepth').bind fun _ _ => ?_
      rw [if_pos hmem]
      exact (Traced.Takes.ofReading hseen _).bind fun _ _ => .pure hseen rfl
  | exhausted depth entry seen hnew =>
      rw [traceChain]
      refine (Traced.Takes.reach hseen entry hdepth').bind fun _ _ => ?_
      rw [if_neg hnew]
      refine ⟨hseen, ?_, fun _ h => absurd h List.not_mem_nil⟩
      intro _ hok
      cases hok
  | visit fuel depth entry seen hnew ih =>
      have hcons := hseen.cons hnew (hcurrent entry rfl)
      have hlength := hcons.length_le
      rw [List.length_cons] at hlength
      rw [traceChain]
      refine (Traced.Takes.reach hseen entry hdepth').bind fun _ _ => ?_
      rw [if_neg hnew]
      refine (Traced.Takes.ofReading hseen _).bind fun read hread => ?_
      have hbelow : (outline.traceDescend settings (outline.traceChain number? settings fuel) entry
          (depth + 1) (entry :: seen)).Takes handles seen Walked.seen := by
        refine (Traced.Takes.enter hcons (by omega)).bind fun _ _ => ?_
        refine takes_traceBelow hwithin hcons fun first hfirst => ?_
        exact ih _ _ _ hcons (by rw [List.length_cons]; omega) hfirst (by omega)
      refine hbelow.bind fun below hok => ?_
      have hafter := hbelow.distinct_after hok
      have hdeep := Nat.le_trans hdepth (hbelow.length_le_after hok)
      have hnext := next_mem_of_readEntry hwithin (Noted.result_inWalk_eq_ok.1 hread)
      have hchain := ih depth read.next below.seen hafter hdeep hnext
        (Nat.le_trans hdeep hafter.length_le)
      exact hchain.bind fun after hok => .pure (hchain.distinct_after hok) rfl

variable (number? settings) in
/-- Going below the root, a walk goes below different handles, none of them deeper than there are
handles. -/
theorem takes_traceBelow_root (fuel : Nat) (root : ν) :
    (outline.traceBelow settings (outline.traceChain number? settings fuel) root 0 []).Takes
      handles [] Walked.seen :=
  takes_traceBelow hwithin (.nil handles) fun first hfirst =>
    takes_traceChain hwithin fuel 0 first [] (.nil handles) (Nat.zero_le _) hfirst

/-- A walk that succeeds has gone below the root and the entries that it brings home. -/
theorem enteredBy_traceDescend {fuel : Nat} {root : ν} {walked : Walked ν}
    (h : (outline.traceDescend settings (outline.traceChain number? settings fuel) root 0
      []).reading.result = .ok walked) :
    enteredBy (outline.traceDescend settings (outline.traceChain number? settings fuel) root 0
      []).steps = root :: walked.forest.nodes := by
  rw [traceDescend, Traced.steps_step_bind, enteredBy_enter]
  congr 1
  have htakes := takes_traceBelow_root number? settings hwithin fuel root
  have hentered := htakes.seen_eq walked h
  rw [reading_traceDescend (reading_traceChain fuel)] at h
  obtain ⟨opened, -, hchain⟩ := walk_eq_ok.1 h
  rw [(chain_trail hchain).2, List.append_nil, List.append_nil] at hentered
  exact (List.reverse_inj.1 hentered).symm

variable [BEq π] [Hashable π]

omit hwithin in
theorem steps_traceWithin (fuel : Nat) :
    (outline.traceWithin settings fuel).steps = (outline.traceForest settings fuel).steps := by
  rw [traceWithin, Traced.steps_bind_of_nil _ fun _ => Traced.steps_bind_of_nil _ fun _ => rfl]

variable (outline settings) in
omit hwithin in
/-- The steps of a reading are those of a walk from the root, if it comes to that. -/
theorem steps_traceForest (fuel : Nat) :
    (outline.traceForest settings fuel).steps = [] ∨
      ∃ (number? : π → Option Nat) (root : ν), (outline.traceForest settings fuel).steps =
        .enter root 0 :: (outline.traceBelow settings
          (outline.traceChain number? settings fuel) root 0 []).steps := by
  rw [traceForest]
  rcases Traced.steps_bind (.ofReading (Noted.ofExcept outline.root).inWalk) _ with
    hsteps | ⟨root, hsteps⟩
  · exact Or.inl hsteps
  rw [hsteps, Traced.steps_ofReading, List.nil_append]
  cases root with
  | none => exact Or.inl rfl
  | some root =>
      rcases Traced.steps_bind (.ofReading (Noted.ofExcept (outline.pages ())).inWalk) _ with
        hsteps | ⟨pages, hsteps⟩
      · exact Or.inl hsteps
      right
      refine ⟨(PageIndex.ofList pages).number?, root, ?_⟩
      rw [hsteps, Traced.steps_ofReading, List.nil_append, Traced.steps_bind_of_nil _ fun _ => rfl]
      rfl

/-- A reading that succeeds brings home an entry for each that it has gone below. -/
theorem size_eq_of_traceForest {fuel : Nat} {forest : Forest ν}
    (h : (outline.traceForest settings fuel).reading.result = .ok forest) :
    forest.size = (enteredBy (outline.traceForest settings fuel).steps).tail.length := by
  obtain ⟨root, hroot, h⟩ := Noted.result_bind_eq_ok.1 h
  rw [traceForest, Traced.steps_bind_of_ok hroot, Traced.steps_ofReading, List.nil_append]
  cases root with
  | none =>
      cases h
      rfl
  | some root =>
      obtain ⟨pages, hpages, h⟩ := Noted.result_bind_eq_ok.1 h
      obtain ⟨walked, hwalk, h⟩ := Noted.result_bind_eq_ok.1 h
      cases h
      dsimp only
      rw [Traced.steps_bind_of_ok hpages, Traced.steps_ofReading, List.nil_append,
        Traced.steps_bind_of_nil _ fun _ => rfl, enteredBy_traceDescend hwithin hwalk,
        List.tail_cons, Forest.length_nodes]

variable (settings) in
/-- A reading takes few steps, makes few sections, and does not go deep. -/
theorem bounds_of_traceWithin (fuel : Nat) :
    (outline.traceWithin settings fuel).steps.length ≤ 3 * handles.length + 2 ∧
    (enteredBy (outline.traceWithin settings fuel).steps).tail.length ≤ handles.length ∧
    ∀ step ∈ (outline.traceWithin settings fuel).steps, step.depth ≤ handles.length := by
  rw [steps_traceWithin]
  rcases steps_traceForest outline settings fuel with
    hsteps | ⟨number?, root, hsteps⟩
  · rw [hsteps]
    exact ⟨Nat.zero_le _, Nat.zero_le _, fun _ hstep => absurd hstep List.not_mem_nil⟩
  have htakes := takes_traceBelow_root number? settings hwithin fuel root
  have hfew := length_traceDescend outline settings
    (length_traceChain outline number? settings fuel) root 0 []
  have hentered := htakes.distinct.length_le
  rw [List.append_nil, List.length_reverse] at hentered
  rw [traceDescend, Traced.steps_step_bind, enteredBy_enter, List.length_cons,
    List.length_cons] at hfew
  rw [hsteps, List.length_cons, enteredBy_enter, List.tail_cons]
  refine ⟨by omega, hentered, ?_⟩
  intro step hstep
  rcases List.mem_cons.1 hstep with rfl | hstep
  · exact Nat.zero_le _
  · exact htakes.depth_le step hstep

/-- Among finitely many handles a reading ends, and what comes of it is the same for any fuel that
is no less than their number. It takes at most three steps for each handle and two besides. Each
time that it goes below an entry it makes a section, and it makes no more sections than there are
handles. No step is deeper than there are handles, so if their number is less than the greatest
signed 32-bit integer, a level can be counted on without overflow and is unchanged as an unsigned
integer. -/
theorem readWithin_ends (settings : Settings) :
    ∃ (steps : List (Step ν)) (reading : Noted Fault Contents),
      (∀ fuel, handles.length ≤ fuel →
        outline.readWithin settings fuel = reading.inWalk ∧
        outline.traceWithin settings fuel = ⟨steps, reading.inWalk⟩) ∧
      steps.length ≤ 3 * handles.length + 2 ∧
      (enteredBy steps).tail.length ≤ handles.length ∧
      (∀ contents, reading.result = .ok contents →
        contents.size = (enteredBy steps).tail.length + 1) ∧
      ∀ step ∈ steps, step.depth ≤ handles.length ∧
        (handles.length < Int32.maxValue.toInt →
          (Int32.ofNat step.depth + 1).toInt = step.depth + 1 ∧
          (Int32.ofNat step.depth).toISize.toUSize.toNat = step.depth) := by
  have hends : (outline.traceWithin settings handles.length).reading.result ≠
      .error .exhausted := by
    rw [reading_traceWithin]
    exact readWithin_ne_exhausted hwithin (Nat.le_refl _)
  obtain ⟨reading, hreading⟩ := Noted.exists_eq_inWalk hends
  obtain ⟨hlength, hentered, hdepth⟩ := bounds_of_traceWithin settings hwithin handles.length
  refine ⟨(outline.traceWithin settings handles.length).steps, reading, ?_, ?_, ?_, ?_, ?_⟩
  · intro fuel hfuel
    have hsame := settled_traceWithin hfuel hends
    rw [← reading_traceWithin, hsame, ← hreading]
    exact ⟨rfl, rfl⟩
  · exact hlength
  · exact hentered
  · intro contents hcontents
    rw [← Noted.result_inWalk_eq_ok, ← hreading, reading_traceWithin] at hcontents
    obtain ⟨forest, hforest, rfl⟩ := readWithin_eq_ok.1 hcontents
    rw [← reading_traceForest] at hforest
    rw [contentsOf, Contents.size_ofForest, size_eq_of_traceForest hwithin hforest,
      steps_traceWithin]
  · intro step hstep
    exact ⟨hdepth step hstep, fun hlevels => level_exact (by have := hdepth step hstep; omega)⟩

end Takes

end Outline

/-- An entry is below itself, two chapters come after each other, and the second is followed by the
node under which the outline begins. -/
def tangle : OutlineTable where
  pageCount := 9
  root := .ok (some 0)
  pages := .ok ["p1"]
  rows := [
    (0, { first := .ok (some 1) }),
    (1, { first := .ok (some 2), next := .ok (some 3), title := .ok "Chapter 1" }),
    (2, { first := .ok (some 2), next := .ok (some 1), title := .ok "Section 1" }),
    (3, { first := .ok (some 1), next := .ok (some 0), title := .ok "Chapter 2" })]

theorem linksWithin_tangle : tangle.toOutline.LinksWithin [0, 1, 2, 3] := by
  have hsubset : tangle.targets ⊆ [0, 1, 2, 3] := by decide
  exact ⟨fun h => hsubset (tangle.linksWithin.first_mem h),
    fun h => hsubset (tangle.linksWithin.next_mem h)⟩

/-- A lenient reader whose depth is not limited makes four sections of the tangle and stops. -/
theorem ends_tangle :
    ∃ contents, contents.size = 5 ∧ ∀ fuel, 4 ≤ fuel →
      (tangle.toOutline.readWithin
        { tolerance := .lenient, depthLimit := 18446744073709551615 } fuel).result =
          .ok contents ∧
      ∀ step ∈ (tangle.toOutline.traceWithin
        { tolerance := .lenient, depthLimit := 18446744073709551615 } fuel).steps,
          step.depth ≤ 4 ∧ (Int32.ofNat step.depth + 1).toInt = step.depth + 1 := by
  obtain ⟨steps, reading, hsame, -, -, hsize, hsteps⟩ :=
    Outline.readWithin_ends linksWithin_tangle
      { tolerance := .lenient, depthLimit := 18446744073709551615 }
  have hforest : (tangle.toOutline.forestWithin
      { tolerance := .lenient, depthLimit := 18446744073709551615 } 4).result =
      .ok (.cons 1 ⟨"Chapter 1", -1, -1, 0⟩ (.cons 2 ⟨"Section 1", -1, -1, 0⟩ .nil .nil)
        (.cons 3 ⟨"Chapter 2", -1, -1, 0⟩ .nil (.cons 0 ⟨"", -1, -1, 0⟩ .nil .nil))) := by
    simp only [Outline.forestWithin, PageIndex.number?_ofList]
    decide +kernel
  have hread := Outline.readWithin_eq_ok.2 ⟨_, hforest, rfl⟩
  rw [(hsame 4 (Nat.le_refl _)).1] at hread
  obtain ⟨contents, hcontents, hfive⟩ :
      ∃ contents, reading.inWalk.result = .ok contents ∧ contents.size = 5 :=
    ⟨_, hread, Contents.size_ofForest _ _ _⟩
  refine ⟨contents, hfive, ?_⟩
  intro fuel hfuel
  rw [(hsame fuel hfuel).1, (hsame fuel hfuel).2]
  refine ⟨hcontents, ?_⟩
  intro step hstep
  obtain ⟨hdepth, hlevel⟩ := hsteps step hstep
  exact ⟨hdepth, (hlevel (by decide)).1⟩

end Bookmarks
