/-
# Where a walk breaks down

A walk fails at an entry that cannot be read, at a node whose entries cannot be entered, or, if it
is strict, at an entry that it has seen before. `chain_fault` turns this into a rule: what holds
wherever the walk stands, and excuses every failure there, excuses the failure of the whole walk.
It is used with what is known about all answers of an outline (`Answers`) and with what is known
about the links of an outline that is a tree.
-/
import Bookmarks.Proofs.Walk.Trail

namespace Bookmarks

variable {ν π : Type}

theorem Noted.result_inWalk_eq_fault {α : Type} {reading : Noted Fault α} {fault : Fault} :
    reading.inWalk.result = .error (.fault fault) ↔ reading.result = .error fault := by
  rcases reading with ⟨_, _ | _⟩
  · constructor <;> (intro h; cases h; rfl)
  · exact ⟨fun h => (by cases h), fun h => (by cases h)⟩

namespace Outline

variable {outline : Outline ν π} {number? : π → Option Nat} {settings : Settings}

variable (outline settings) in
/-- Why the entries below a node cannot be entered at a depth. -/
inductive OpenFails (scope : ν) (depth : Nat) : Fault → Prop where
  | first {fault : Fault}
      (hfirst : (settings.follow (outline.first scope)).result = .error fault) :
      OpenFails scope depth fault
  | deep {child : ν} (hfirst : (settings.follow (outline.first scope)).result = .ok (some child))
      (hdeep : settings.depthLimit ≤ depth) (hstrict : settings.tolerance = .strict) :
      OpenFails scope depth (.corrupted (.tooDeep settings.depthLimit))
  | last {fault : Fault}
      (hlast : (settings.follow (outline.last scope)).result = .error fault) :
      OpenFails scope depth fault

variable (outline number? settings) in
/-- `I` holds of every place that a walk comes to if it holds where the walk begins, and where it
holds the walk can only fail with a fault that `P` holds of. -/
structure Guarded [DecidableEq ν] (I : Nat → Option ν → List ν → Prop) (P : Fault → Prop) :
    Prop where
  seen : ∀ {depth entry seen}, I depth (some entry) seen → entry ∈ seen →
    settings.tolerance = .strict → P (.corrupted (.linkedTwice (outline.label entry)))
  read : ∀ {depth entry seen fault}, I depth (some entry) seen → entry ∉ seen →
    (outline.readEntry number? settings entry).result = .error fault → P fault
  opens : ∀ {depth entry seen fault}, I depth (some entry) seen → entry ∉ seen →
    OpenFails outline settings entry (depth + 1) fault → P fault
  below : ∀ {depth entry seen first}, I depth (some entry) seen → entry ∉ seen →
    (settings.follow (outline.first entry)).result = .ok first →
    (first.isSome → depth + 1 < settings.depthLimit) → I (depth + 1) first (entry :: seen)
  after : ∀ {depth entry seen read opened below}, I depth (some entry) seen → entry ∉ seen →
    (outline.readEntry number? settings entry).result = .ok read →
    Opens outline settings entry (depth + 1) opened →
    Trail outline number? settings (depth + 1) opened (entry :: seen) below →
    I depth read.next (below.nodes.reverse ++ entry :: seen)

variable [DecidableEq ν]

theorem checkLast_eq_error {scope : ν} {reached : Option ν} {fault : Fault}
    (h : (outline.checkLast settings scope reached).result = .error fault) :
    (settings.follow (outline.last scope)).result = .error fault := by
  unfold checkLast at h
  rcases Noted.result_bind_eq_error.1 h with h | ⟨declared, _, h⟩
  · exact h
  · split at h
    · split at h <;> cases h
    · cases h

/-- Going below a node fails because its entries cannot be entered or on the chain of these. -/
theorem descend_eq_fault {chain : Nat → Option ν → List ν → Noted Stop (Walked ν)} {scope : ν}
    {depth : Nat} {seen : List ν} {fault : Fault}
    (h : (outline.descend settings chain scope depth seen).result = .error (.fault fault)) :
    OpenFails outline settings scope depth fault ∨
      ∃ first, (settings.follow (outline.first scope)).result = .ok first ∧
        (first.isSome → depth < settings.depthLimit) ∧
        (chain depth first seen).result = .error (.fault fault) := by
  simp only [descend, Noted.result_bind_eq_error, Noted.result_inWalk_eq_fault,
    Noted.result_inWalk_eq_ok] at h
  rcases h with hfirst | ⟨first, hfirst, h⟩
  · exact Or.inl (.first hfirst)
  · split at h
    · next hdeep =>
      simp only [Bool.and_eq_true, decide_eq_true_eq] at hdeep
      rcases Option.isSome_iff_exists.1 hdeep.1 with ⟨child, rfl⟩
      rcases Noted.result_bind_eq_error.1 h with hmeet | ⟨_, _, h⟩
      · rw [Noted.result_inWalk_eq_fault, Settings.meet_eq_error] at hmeet
        rcases hmeet with ⟨hstrict, rfl⟩
        exact Or.inl (.deep hfirst hdeep.2 hstrict)
      · cases h
    · next hdeep =>
      simp only [Bool.and_eq_true, decide_eq_true_eq, not_and, Nat.not_le] at hdeep
      rcases Noted.result_bind_eq_error.1 h with hchain | ⟨_, _, h⟩
      · exact Or.inr ⟨first, hfirst, hdeep, hchain⟩
      · rcases Noted.result_bind_eq_error.1 h with hlast | ⟨_, _, h⟩
        · exact Or.inl (.last (checkLast_eq_error (Noted.result_inWalk_eq_fault.1 hlast)))
        · cases h

theorem chain_revisit_eq_fault {fuel depth : Nat} {entry : ν} {seen : List ν} {fault : Fault}
    (hseen : entry ∈ seen)
    (h : (outline.chain number? settings fuel depth (some entry) seen).result =
      .error (.fault fault)) :
    settings.tolerance = .strict ∧ fault = .corrupted (.linkedTwice (outline.label entry)) := by
  rw [chain_of_mem hseen, Noted.result_bind_eq_error, Noted.result_inWalk_eq_fault] at h
  rcases h with hmeet | ⟨_, _, h⟩
  · exact Settings.meet_eq_error.1 hmeet
  · cases h

/-- The rule for failing walks along a chain. -/
theorem chain_fault {I : Nat → Option ν → List ν → Prop} {P : Fault → Prop}
    (hguarded : Guarded outline number? settings I P) {fuel depth : Nat} {current : Option ν}
    {seen : List ν} {fault : Fault} (hplace : I depth current seen)
    (h : (outline.chain number? settings fuel depth current seen).result =
      .error (.fault fault)) : P fault := by
  induction fuel, depth, current, seen using chain_induction with
  | finish fuel depth seen =>
      rw [chain_none] at h
      cases h
  | revisit fuel depth entry seen hseen =>
      rcases chain_revisit_eq_fault hseen h with ⟨hstrict, rfl⟩
      exact hguarded.seen hplace hseen hstrict
  | exhausted depth entry seen hseen =>
      rw [chain, if_neg hseen] at h
      cases h
  | visit fuel depth entry seen hseen ih =>
      rw [chain, if_neg hseen] at h
      rcases Noted.result_bind_eq_error.1 h with hread | ⟨read, hread, h⟩
      · exact hguarded.read hplace hseen (Noted.result_inWalk_eq_fault.1 hread)
      rcases Noted.result_bind_eq_error.1 h with hbelow | ⟨below, hbelow, h⟩
      · rcases descend_eq_fault hbelow with hopens | ⟨first, hfirst, hdepth, hbelow⟩
        · exact hguarded.opens hplace hseen hopens
        · exact ih _ _ _ (hguarded.below hplace hseen hfirst hdepth) hbelow
      rcases Noted.result_bind_eq_error.1 h with hafter | ⟨_, _, h⟩
      · rcases (descend_eq_ok (by rw [chain_none]; rfl)).1 hbelow with ⟨opened, hopens, hbelow⟩
        rcases chain_trail hbelow with ⟨htrail, hbelowSeen⟩
        rw [hbelowSeen] at hafter
        exact ih _ _ _ (hguarded.after hplace hseen (Noted.result_inWalk_eq_ok.1 hread) hopens
          htrail) hafter
      · cases h

/-- The rule for failing walks. -/
theorem walk_fault {I : Nat → Option ν → List ν → Prop} {P : Fault → Prop}
    (hguarded : Guarded outline number? settings I P) {fuel : Nat} {root : ν} {fault : Fault}
    (hopens : ∀ {fault}, OpenFails outline settings root 0 fault → P fault)
    (hplace : ∀ {first}, (settings.follow (outline.first root)).result = .ok first →
      (first.isSome → 0 < settings.depthLimit) → I 0 first [])
    (h : (outline.walk number? settings fuel root).result = .error (.fault fault)) : P fault := by
  rcases descend_eq_fault h with hfails | ⟨first, hfirst, hdepth, hchain⟩
  · exact hopens hfails
  · exact chain_fault hguarded (hplace hfirst hdepth) hchain

end Outline

end Bookmarks
