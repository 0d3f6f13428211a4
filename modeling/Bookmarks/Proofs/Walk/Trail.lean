/-
# The course of a walk

What a walk brings home follows rules that mention neither fuel nor notices. A chain of siblings
ends, meets an entry again and is cut, or takes its entry up: the entry is read, the entries below
it are entered, and the chain goes on with the next sibling. `Trail` states these rules, and
`chain_trail` and `Trail.chain_eq_ok` say that they describe exactly the walks that succeed. Each
entry that a walk takes up it adds to those it has seen, so what it has seen by the end is the
forest that it brings home on top of what it had seen before.
-/
import Bookmarks.Reading

namespace Bookmarks

variable {ν π : Type}

/-! ## Damage and links -/

namespace Settings

variable {settings : Settings}

theorem meet_eq_ok {damage : Damage} :
    (settings.meet damage).result = .ok () ↔ settings.tolerance = .lenient := by
  unfold meet
  cases settings.tolerance with
  | strict => exact ⟨fun h => (by cases h), fun h => (by cases h)⟩
  | lenient => exact ⟨fun _ => rfl, fun _ => rfl⟩

theorem meet_eq_error {damage : Damage} {fault : Fault} :
    (settings.meet damage).result = .error fault ↔
      settings.tolerance = .strict ∧ fault = .corrupted damage := by
  unfold meet
  cases settings.tolerance with
  | strict =>
      constructor
      · intro h
        cases h
        exact ⟨rfl, rfl⟩
      · intro h
        rw [h.2]
        rfl
  | lenient => exact ⟨fun h => (by cases h), fun h => (by cases h.1)⟩

/-- To a strict reader a link is what it is. -/
theorem follow_of_strict (hstrict : settings.tolerance = .strict)
    (answer : Except Fault (Option ν)) : (settings.follow answer).result = answer := by
  unfold follow
  split
  · rfl
  · rw [meet, hstrict]
    rfl
  · rfl

/-- A link leads to an entry only if that is the answer. -/
theorem follow_eq_ok_some {answer : Except Fault (Option ν)} {target : ν} :
    (settings.follow answer).result = .ok (some target) ↔ answer = .ok (some target) := by
  unfold follow
  split
  · simp
  · simp [Noted.result_bind_eq_ok]
  · simp [Noted.fail]

theorem follow_of_ok {answer : Except Fault (Option ν)} {target : Option ν}
    (h : answer = .ok target) : (settings.follow answer).result = .ok target := by
  subst h
  rfl

/-- A link leads nowhere if there is none, or if it is broken and the reader puts up with that. -/
theorem follow_eq_ok_none {answer : Except Fault (Option ν)} :
    (settings.follow answer).result = .ok none ↔
      answer = .ok none ∨
        settings.tolerance = .lenient ∧ ∃ damage, answer = .error (.corrupted damage) := by
  unfold follow
  split
  · simp
  · next damage =>
    rw [Noted.result_bind_eq_ok]
    constructor
    · intro h
      rcases h with ⟨_, hmeet, _⟩
      exact Or.inr ⟨meet_eq_ok.1 hmeet, damage, rfl⟩
    · intro h
      rcases h with h | ⟨hlenient, _⟩
      · cases h
      · exact ⟨(), meet_eq_ok.2 hlenient, rfl⟩
  · next fault hkind =>
    constructor
    · intro h
      cases h
    · intro h
      rcases h with h | ⟨_, damage, h⟩
      · cases h
      · exact absurd (Except.error.inj h) (hkind damage)

/-- Following a link fails if it is broken and the reader is strict, or if asking for it fails in
another way. -/
theorem follow_eq_error {answer : Except Fault (Option ν)} {fault : Fault} :
    (settings.follow answer).result = .error fault ↔
      answer = .error fault ∧ (settings.tolerance = .strict ∨ fault.kind ≠ .corrupted) := by
  unfold follow
  split
  · simp
  · next damage =>
    simp only [Noted.result_bind_eq_error, meet_eq_error, Noted.result_pure, reduceCtorEq,
      and_false, exists_false, or_false, Except.error.injEq]
    constructor
    · intro h
      rcases h with ⟨hstrict, rfl⟩
      exact ⟨rfl, Or.inl hstrict⟩
    · intro h
      rcases h with ⟨rfl, hstrict | hkind⟩
      · exact ⟨hstrict, rfl⟩
      · exact absurd rfl hkind
  · next other hkind =>
    simp only [Noted.fail, Except.error.injEq]
    constructor
    · intro h
      subst h
      refine ⟨rfl, Or.inr ?_⟩
      intro h
      cases other with
      | corrupted damage => exact hkind damage rfl
      | _ => cases h
    · exact And.left

end Settings

/-! ## Reading an entry -/

namespace Outline

variable {outline : Outline ν π} {number? : π → Option Nat} {settings : Settings}

theorem pageNumber_some_eq_ok {entry : ν} {number : Int} :
    (outline.pageNumber number? (some entry)).result = .ok number ↔
      ∃ page, (outline.page entry).result = .ok page ∧
        number = (page.bind number?).elim unknownPage signed32 := by
  unfold pageNumber
  rw [Noted.result_bind_eq_ok]
  apply exists_congr
  intro page
  apply and_congr_right
  intro _
  cases page.bind number? with
  | none =>
      rw [Noted.result_bind_eq_ok, Option.elim_none]
      constructor
      · intro h
        rcases h with ⟨_, _, h⟩
        exact (Except.ok.inj h).symm
      · intro h
        exact ⟨(), rfl, congrArg _ h.symm⟩
  | some number =>
      rw [Noted.result_pure, Option.elim_some]
      exact ⟨fun h => (Except.ok.inj h).symm, fun h => congrArg _ h.symm⟩

theorem endPage_eq_ok {entry : ν} {next : Option ν} {finish : Int} :
    (outline.endPage number? settings entry next).result = .ok finish ↔
      ∃ sibling, (outline.pageNumber number? next).result = .ok sibling ∧
        (0 ≤ sibling ∧ finish = sibling ∨
          sibling < 0 ∧ ∃ child below,
            (settings.follow (outline.first entry)).result = .ok child ∧
            (outline.pageNumber number? child).result = .ok below ∧
            finish =
              if 0 ≤ below then below
              else if next.isNone && child.isNone then signed32 outline.pageCount.toNat
              else unknownPage) := by
  unfold endPage
  -- The last page is a closed computation that unification must not begin to carry out.
  generalize signed32 outline.pageCount.toNat = lastPage
  rw [Noted.result_bind_eq_ok]
  apply exists_congr
  intro sibling
  apply and_congr_right
  intro _
  by_cases hsibling : 0 ≤ sibling
  · rw [if_pos hsibling, Noted.result_pure, Except.ok.injEq, eq_comm]
    simp only [hsibling, Int.not_lt.mpr hsibling, true_and, false_and, or_false]
  · rw [if_neg hsibling, Noted.result_bind_eq_ok]
    simp only [hsibling, Int.not_le.mp hsibling, false_and, true_and, false_or,
      Noted.result_bind_eq_ok]
    apply exists_congr
    intro child
    constructor
    · intro h
      rcases h with ⟨hchild, below, hbelow, h⟩
      refine ⟨below, hchild, hbelow, ?_⟩
      split at h
      · rw [if_pos ‹_›]
        exact (Except.ok.inj h).symm
      · rw [if_neg ‹_›]
        split at h
        · rw [if_pos ‹_›]
          exact (Except.ok.inj h).symm
        · rw [if_neg ‹_›]
          exact (Except.ok.inj h).symm
    · intro h
      rcases h with ⟨below, hchild, hbelow, rfl⟩
      refine ⟨hchild, below, hbelow, ?_⟩
      split
      · rfl
      · split <;> rfl

/-- The position of an entry is told by its destination. -/
theorem result_position {entry : ν} {destination : Option Destination}
    (h : (outline.destination entry).result = .ok destination) :
    (outline.position entry).result =
      .ok ((destination.bind Destination.top?).elim 0 Binary32.truncate) := by
  rw [position, Noted.result_bind_eq_ok]
  refine ⟨destination, h, ?_⟩
  cases destination.bind Destination.top? <;> rfl

/-- An entry is read by its page, its next sibling, its end, its position and its title. -/
theorem readEntry_eq_ok {entry : ν} {read : Entry ν} :
    (outline.readEntry number? settings entry).result = .ok read ↔
      (outline.pageNumber number? (some entry)).result = .ok read.heading.startPage ∧
      (settings.follow (outline.next entry)).result = .ok read.next ∧
      (outline.endPage number? settings entry read.next).result = .ok read.heading.endPage ∧
      (outline.position entry).result = .ok read.heading.position ∧
      outline.title entry = .ok read.heading.title := by
  simp only [readEntry, Noted.result_bind_eq_ok, Noted.result_pure, Except.ok.injEq]
  constructor
  · intro h
    rcases h with
      ⟨start, hstart, next, hnext, finish, hfinish, position, hposition, title, htitle, rfl⟩
    exact ⟨hstart, hnext, hfinish, hposition, htitle⟩
  · intro h
    rcases h with ⟨hstart, hnext, hfinish, hposition, htitle⟩
    exact ⟨_, hstart, _, hnext, _, hfinish, _, hposition, _, htitle, rfl⟩

/-! ## The rules -/

variable (outline number? settings) in
/-- How the entries below a node are entered: not at all where they are too deep and the reader
puts up with that, and otherwise by the link to the first of them. -/
inductive Opens (scope : ν) (depth : Nat) : Option ν → Prop where
  | cut {child : ν}
      (hfirst : (settings.follow (outline.first scope)).result = .ok (some child))
      (hdeep : settings.depthLimit ≤ depth) (hlenient : settings.tolerance = .lenient) :
      Opens scope depth none
  | enter {first declared : Option ν}
      (hfirst : (settings.follow (outline.first scope)).result = .ok first)
      (hdepth : first.isSome → depth < settings.depthLimit)
      (hlast : (settings.follow (outline.last scope)).result = .ok declared) :
      Opens scope depth first

variable (outline number? settings) in
/-- The course of a walk along a chain of siblings at a depth, from the current entry on and with
some entries seen before, and the forest that it brings home. -/
inductive Trail : Nat → Option ν → List ν → Forest ν → Prop where
  | finish {depth : Nat} {seen : List ν} : Trail depth none seen .nil
  | revisit {depth : Nat} {entry : ν} {seen : List ν} (hseen : entry ∈ seen)
      (hlenient : settings.tolerance = .lenient) : Trail depth (some entry) seen .nil
  | visit {depth : Nat} {entry : ν} {seen : List ν} {read : Entry ν} {opened : Option ν}
      {below after : Forest ν} (hseen : entry ∉ seen)
      (hread : (outline.readEntry number? settings entry).result = .ok read)
      (hopens : Opens outline settings entry (depth + 1) opened)
      (hbelow : Trail (depth + 1) opened (entry :: seen) below)
      (hafter : Trail depth read.next (below.nodes.reverse ++ entry :: seen) after) :
      Trail depth (some entry) seen (.cons entry read.heading below after)

variable [DecidableEq ν]

theorem checkLast_eq_ok {scope : ν} {reached : Option ν} :
    (outline.checkLast settings scope reached).result = .ok () ↔
      ∃ declared, (settings.follow (outline.last scope)).result = .ok declared := by
  unfold checkLast
  rw [Noted.result_bind_eq_ok]
  apply exists_congr
  intro declared
  apply and_iff_left
  split
  · split <;> rfl
  · rfl

/-- To go below a node is to walk along the chain that it opens. -/
theorem descend_eq_ok {chain : Nat → Option ν → List ν → Noted Stop (Walked ν)} {scope : ν}
    {depth : Nat} {seen : List ν} {walked : Walked ν}
    (hnone : (chain depth none seen).result = .ok ⟨.nil, seen⟩) :
    (outline.descend settings chain scope depth seen).result = .ok walked ↔
      ∃ opened, Opens outline settings scope depth opened ∧
        (chain depth opened seen).result = .ok walked := by
  simp only [descend, Noted.result_bind_eq_ok, Noted.result_inWalk_eq_ok]
  constructor
  · intro h
    rcases h with ⟨first, hfirst, h⟩
    split at h
    · next hdeep =>
      simp only [Bool.and_eq_true, decide_eq_true_eq] at hdeep
      obtain ⟨child, rfl⟩ := Option.isSome_iff_exists.1 hdeep.1
      simp only [Noted.result_bind_eq_ok, Noted.result_inWalk_eq_ok] at h
      obtain ⟨_, hmeet, h⟩ := h
      exact ⟨none, .cut hfirst hdeep.2 (Settings.meet_eq_ok.1 hmeet), hnone.trans h⟩
    · next hdeep =>
      simp only [Bool.and_eq_true, decide_eq_true_eq, not_and, Nat.not_le] at hdeep
      simp only [Noted.result_bind_eq_ok, Noted.result_inWalk_eq_ok] at h
      obtain ⟨walked', hchain, _, hlast, h⟩ := h
      cases h
      obtain ⟨declared, hlast⟩ := checkLast_eq_ok.1 hlast
      exact ⟨first, .enter hfirst hdeep hlast, hchain⟩
  · intro h
    rcases h with ⟨opened, hopens, hchain⟩
    cases hopens with
    | @cut child hfirst hdeep hlenient =>
        refine ⟨some child, hfirst, ?_⟩
        rw [if_pos (by simp [hdeep]), Noted.result_bind_eq_ok]
        exact ⟨(), Noted.result_inWalk_eq_ok.2 (Settings.meet_eq_ok.2 hlenient),
          hnone.symm.trans hchain⟩
    | @enter first declared hfirst hdepth hlast =>
        refine ⟨opened, hfirst, ?_⟩
        rw [if_neg (by simpa using hdepth), Noted.result_bind_eq_ok]
        refine ⟨walked, hchain, ?_⟩
        rw [Noted.result_bind_eq_ok]
        exact ⟨(), Noted.result_inWalk_eq_ok.2 (checkLast_eq_ok.2 ⟨declared, hlast⟩), rfl⟩

theorem chain_none {fuel depth : Nat} {seen : List ν} :
    outline.chain number? settings fuel depth none seen = pure ⟨.nil, seen⟩ := by
  rw [chain]

theorem chain_of_mem {fuel depth : Nat} {entry : ν} {seen : List ν} (hseen : entry ∈ seen) :
    outline.chain number? settings fuel depth (some entry) seen = (do
      (settings.meet (.linkedTwice (outline.label entry))).inWalk
      pure ⟨.nil, seen⟩) := by
  cases fuel <;> rw [chain, if_pos hseen]

theorem walk_eq_ok {fuel : Nat} {root : ν} {walked : Walked ν} :
    (outline.walk number? settings fuel root).result = .ok walked ↔
      ∃ opened, Opens outline settings root 0 opened ∧
        (outline.chain number? settings fuel 0 opened []).result = .ok walked :=
  descend_eq_ok (by rw [chain_none]; rfl)

/-- A chain that comes to an entry it has seen is cut there, if the reader puts up with that. -/
theorem chain_revisit_eq_ok {fuel depth : Nat} {entry : ν} {seen : List ν} {walked : Walked ν}
    (hseen : entry ∈ seen) :
    (outline.chain number? settings fuel depth (some entry) seen).result = .ok walked ↔
      settings.tolerance = .lenient ∧ walked = ⟨.nil, seen⟩ := by
  rw [chain_of_mem hseen, Noted.result_bind_eq_ok]
  constructor
  · intro h
    rcases h with ⟨_, hmeet, h⟩
    exact ⟨Settings.meet_eq_ok.1 (Noted.result_inWalk_eq_ok.1 hmeet), (Except.ok.inj h).symm⟩
  · intro h
    rcases h with ⟨hlenient, rfl⟩
    exact ⟨(), Noted.result_inWalk_eq_ok.2 (Settings.meet_eq_ok.2 hlenient), rfl⟩

/-- A chain that comes to a new entry takes it up. -/
theorem chain_visit_eq_ok {fuel depth : Nat} {entry : ν} {seen : List ν} {walked : Walked ν}
    (hseen : entry ∉ seen) :
    (outline.chain number? settings (fuel + 1) depth (some entry) seen).result = .ok walked ↔
      ∃ read opened below after,
        (outline.readEntry number? settings entry).result = .ok read ∧
        Opens outline settings entry (depth + 1) opened ∧
        (outline.chain number? settings fuel (depth + 1) opened (entry :: seen)).result =
          .ok below ∧
        (outline.chain number? settings fuel depth read.next below.seen).result = .ok after ∧
        walked = ⟨.cons entry read.heading below.forest after.forest, after.seen⟩ := by
  rw [chain, if_neg hseen]
  simp only [Noted.result_bind_eq_ok, Noted.result_inWalk_eq_ok]
  constructor
  · intro h
    rcases h with ⟨read, hread, below, hdescend, after, hafter, h⟩
    obtain ⟨opened, hopens, hbelow⟩ := (descend_eq_ok (by rw [chain_none]; rfl)).1 hdescend
    exact ⟨read, opened, below, after, hread, hopens, hbelow, hafter, (Except.ok.inj h).symm⟩
  · intro h
    rcases h with ⟨read, opened, below, after, hread, hopens, hbelow, hafter, rfl⟩
    exact ⟨read, hread, below,
      (descend_eq_ok (by rw [chain_none]; rfl)).2 ⟨opened, hopens, hbelow⟩, after, hafter, rfl⟩

omit [DecidableEq ν] in
/-- What holds of the chains that end, that come to an entry they have seen, and that have no fuel
left for a new one, holds of all chains if it passes on to those with fuel for one entry more. -/
theorem chain_induction {motive : Nat → Nat → Option ν → List ν → Prop}
    (finish : ∀ fuel depth seen, motive fuel depth none seen)
    (revisit : ∀ fuel depth entry seen, entry ∈ seen → motive fuel depth (some entry) seen)
    (exhausted : ∀ depth entry seen, entry ∉ seen → motive 0 depth (some entry) seen)
    (visit : ∀ fuel depth entry seen, entry ∉ seen →
      (∀ depth current seen, motive fuel depth current seen) →
      motive (fuel + 1) depth (some entry) seen)
    (fuel depth : Nat) (current : Option ν) (seen : List ν) :
    motive fuel depth current seen := by
  induction fuel generalizing depth current seen with
  | zero =>
      cases current with
      | none => exact finish 0 depth seen
      | some entry =>
          by_cases hseen : entry ∈ seen
          · exact revisit 0 depth entry seen hseen
          · exact exhausted depth entry seen hseen
  | succ fuel ih =>
      cases current with
      | none => exact finish (fuel + 1) depth seen
      | some entry =>
          by_cases hseen : entry ∈ seen
          · exact revisit (fuel + 1) depth entry seen hseen
          · exact visit fuel depth entry seen hseen ih

/-- A walk along a chain that succeeds has taken its course by the rules. -/
theorem chain_trail {fuel depth : Nat} {current : Option ν} {seen : List ν} {walked : Walked ν}
    (h : (outline.chain number? settings fuel depth current seen).result = .ok walked) :
    Trail outline number? settings depth current seen walked.forest ∧
      walked.seen = walked.forest.nodes.reverse ++ seen := by
  induction fuel, depth, current, seen using chain_induction generalizing walked with
  | finish fuel depth seen =>
      rw [chain_none] at h
      cases h
      exact ⟨.finish, rfl⟩
  | revisit fuel depth entry seen hseen =>
      rcases (chain_revisit_eq_ok hseen).1 h with ⟨hlenient, rfl⟩
      exact ⟨.revisit hseen hlenient, rfl⟩
  | exhausted depth entry seen hseen =>
      rw [chain, if_neg hseen] at h
      cases h
  | visit fuel depth entry seen hseen ih =>
      rcases (chain_visit_eq_ok hseen).1 h with
        ⟨read, opened, below, after, hread, hopens, hbelow, hafter, rfl⟩
      rcases ih _ _ _ hbelow with ⟨hbelow, hbelowSeen⟩
      rcases ih _ _ _ hafter with ⟨hafter, hafterSeen⟩
      rw [hbelowSeen] at hafter hafterSeen
      refine ⟨.visit hseen hread hopens hbelow hafter, ?_⟩
      simp [hafterSeen, Forest.nodes]

/-- A course that follows the rules is walked as soon as there is fuel for each of its entries. -/
theorem Trail.chain_eq_ok {depth : Nat} {current : Option ν} {seen : List ν} {forest : Forest ν}
    (h : Trail outline number? settings depth current seen forest) {fuel : Nat}
    (hfuel : forest.size ≤ fuel) :
    (outline.chain number? settings fuel depth current seen).result =
      .ok ⟨forest, forest.nodes.reverse ++ seen⟩ := by
  induction h generalizing fuel with
  | finish =>
      rw [chain_none]
      rfl
  | revisit hseen hlenient => exact (chain_revisit_eq_ok hseen).2 ⟨hlenient, rfl⟩
  | @visit depth entry seen read opened below after hseen hread hopens hbelow hafter
      ihBelow ihAfter =>
      rw [Forest.size] at hfuel
      obtain ⟨fuel, rfl⟩ : ∃ smaller, fuel = smaller + 1 := ⟨fuel - 1, by omega⟩
      refine (chain_visit_eq_ok hseen).2 ⟨read, opened, _, _, hread, hopens,
        ihBelow (by omega), ihAfter (by omega), ?_⟩
      simp [Forest.nodes]

end Outline

end Bookmarks
