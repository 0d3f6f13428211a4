/-
# Walks come to an end

A walk takes no entry up twice, so among finitely many handles it needs no more fuel than there are
handles: `walk_ne_exhausted`.
-/
import Bookmarks.Walk

namespace Bookmarks

@[simp] theorem Noted.result_inWalk_eq_ok {α : Type} {reading : Noted Fault α} {a : α} :
    reading.inWalk.result = .ok a ↔ reading.result = .ok a := by
  rcases reading with ⟨_, _ | _⟩
  · exact ⟨nofun, nofun⟩
  · constructor <;> rintro ⟨⟩ <;> rfl

@[simp] theorem Noted.result_inWalk_ne_exhausted {α : Type} (reading : Noted Fault α) :
    reading.inWalk.result ≠ .error .exhausted := by
  rcases reading with ⟨_, _ | _⟩ <;> nofun

namespace Outline

variable {ν π : Type}

/-- The walk has fuel left, and what it has seen by the end are different handles of the list, no
fewer than before. -/
structure EndsWithin (handles seen : List ν) (walked : Noted Stop (Walked ν)) : Prop where
  ne_exhausted : walked.result ≠ .error .exhausted
  nodup : ∀ {w}, walked.result = .ok w → w.seen.Nodup
  subset : ∀ {w}, walked.result = .ok w → w.seen ⊆ handles
  length_le : ∀ {w}, walked.result = .ok w → seen.length ≤ w.seen.length

variable {outline : Outline ν π} {number? : π → Option Nat} {settings : Settings}

theorem follow_mem {answer : Except Fault (Option ν)} {handles : List ν} {node : ν}
    (hanswer : ∀ {target}, answer = .ok (some target) → target ∈ handles)
    (h : (settings.follow answer).result = .ok (some node)) : node ∈ handles := by
  unfold Settings.follow at h
  split at h
  · exact hanswer (by simpa using h)
  · simp [Noted.result_bind_eq_ok] at h
  · simp [Noted.fail] at h

theorem next_mem_of_readEntry {handles : List ν} (hwithin : outline.LinksWithin handles)
    {node : ν} {entry : Entry ν}
    (h : (outline.readEntry number? settings node).result = .ok entry) :
    ∀ next, entry.next = some next → next ∈ handles := by
  intro next hnext
  simp only [readEntry, Noted.result_bind_eq_ok, Noted.result_pure, Except.ok.injEq] at h
  obtain ⟨_, _, _, hfollow, _, _, _, _, _, _, rfl⟩ := h
  obtain rfl : _ = some next := hnext
  exact follow_mem hwithin.next_mem hfollow

theorem endsWithin_of_seen {handles seen : List ν} (hnodup : seen.Nodup)
    (hsubset : seen ⊆ handles) (damage : Damage) :
    EndsWithin handles seen (do
      (settings.meet damage).inWalk
      pure ⟨.nil, seen⟩) := by
  have hok : ∀ {w : Walked ν}, (do
      (settings.meet damage).inWalk
      pure ⟨.nil, seen⟩ : Noted Stop (Walked ν)).result = .ok w → w.seen = seen := by
    intro w h
    simp only [Noted.result_bind_eq_ok, Noted.result_pure, Except.ok.injEq] at h
    obtain ⟨_, _, rfl⟩ := h
    rfl
  refine ⟨by simp [Noted.result_bind_eq_error], fun h => ?_, fun h => ?_, fun h => ?_⟩
  · rw [hok h]; exact hnodup
  · rw [hok h]; exact hsubset
  · exact Nat.le_of_eq (by rw [hok h])

theorem endsWithin_of_end {handles seen : List ν} (hnodup : seen.Nodup)
    (hsubset : seen ⊆ handles) :
    EndsWithin handles seen (pure ⟨.nil, seen⟩) :=
  ⟨by simp, by simp +contextual [hnodup], by simp +contextual [hsubset], by simp +contextual⟩

variable [DecidableEq ν]

theorem descend_endsWithin {handles : List ν} (hwithin : outline.LinksWithin handles)
    {chain : Nat → Option ν → List ν → Noted Stop (Walked ν)} {scope : ν} {depth : Nat}
    {seen : List ν} (hnodup : seen.Nodup) (hsubset : seen ⊆ handles)
    (hchain : ∀ first, (∀ entry, first = some entry → entry ∈ handles) →
      EndsWithin handles seen (chain depth first seen)) :
    EndsWithin handles seen (outline.descend settings chain scope depth seen) := by
  have hfirst : ∀ {first}, (settings.follow (outline.first scope)).result = .ok first →
      ∀ entry, first = some entry → entry ∈ handles := by
    rintro _ h entry rfl
    exact follow_mem hwithin.first_mem h
  have hok : ∀ {w}, (outline.descend settings chain scope depth seen).result = .ok w →
      w.seen.Nodup ∧ w.seen ⊆ handles ∧ seen.length ≤ w.seen.length := by
    intro w h
    simp only [descend, Noted.result_bind_eq_ok, Noted.result_inWalk_eq_ok] at h
    obtain ⟨first, hf, h⟩ := h
    split at h
    · simp only [Noted.result_bind_eq_ok, Noted.result_pure, Except.ok.injEq] at h
      obtain ⟨_, _, rfl⟩ := h
      exact ⟨hnodup, hsubset, Nat.le_refl _⟩
    · simp only [Noted.result_bind_eq_ok, Noted.result_pure, Except.ok.injEq] at h
      obtain ⟨_, hw, _, _, rfl⟩ := h
      have hends := hchain first (hfirst hf)
      exact ⟨hends.nodup hw, hends.subset hw, hends.length_le hw⟩
  refine ⟨fun h => ?_, fun h => (hok h).1, fun h => (hok h).2.1, fun h => (hok h).2.2⟩
  simp only [descend, Noted.result_bind_eq_error, Noted.result_inWalk_ne_exhausted,
    Noted.result_inWalk_eq_ok, false_or] at h
  obtain ⟨first, hf, h⟩ := h
  split at h
  · simp [Noted.result_bind_eq_error] at h
  · simp only [Noted.result_bind_eq_error, Noted.result_inWalk_ne_exhausted, Noted.result_pure,
      false_or] at h
    obtain h | ⟨_, _, _, _, h⟩ := h
    · exact (hchain first (hfirst hf)).ne_exhausted h
    · exact absurd h (by simp)

theorem chain_endsWithin {handles : List ν} (hwithin : outline.LinksWithin handles) :
    ∀ {fuel depth : Nat} {current : Option ν} {seen : List ν}, seen.Nodup → seen ⊆ handles →
      (∀ entry, current = some entry → entry ∈ handles) →
      handles.length ≤ fuel + seen.length →
      EndsWithin handles seen (outline.chain number? settings fuel depth current seen) := by
  intro fuel
  induction fuel with
  | zero =>
    intro depth current seen hnodup hsubset hcurrent hfuel
    cases current with
    | none =>
      rw [chain]
      exact endsWithin_of_end hnodup hsubset
    | some entry =>
      rw [chain]
      split
      · exact endsWithin_of_seen hnodup hsubset _
      · next hseen =>
        have hmore := (List.nodup_cons.2 ⟨hseen, hnodup⟩).length_le_of_subset
          (List.cons_subset.2 ⟨hcurrent entry rfl, hsubset⟩)
        simp only [List.length_cons] at hmore
        omega
  | succ fuel ih =>
    intro depth current seen hnodup hsubset hcurrent hfuel
    cases current with
    | none =>
      rw [chain]
      exact endsWithin_of_end hnodup hsubset
    | some entry =>
      rw [chain]
      split
      · exact endsWithin_of_seen hnodup hsubset _
      · next hseen =>
        have hnodup' : (entry :: seen).Nodup := List.nodup_cons.2 ⟨hseen, hnodup⟩
        have hsubset' : entry :: seen ⊆ handles :=
          List.cons_subset.2 ⟨hcurrent entry rfl, hsubset⟩
        have hbelow : EndsWithin handles (entry :: seen)
            (outline.descend settings (outline.chain number? settings fuel) entry (depth + 1)
              (entry :: seen)) :=
          descend_endsWithin hwithin hnodup' hsubset' fun first hfirst =>
            ih hnodup' hsubset' hfirst (by simp only [List.length_cons]; omega)
        have hafter : ∀ {read : Entry ν} {below : Walked ν},
            (outline.readEntry number? settings entry).result = .ok read →
            (outline.descend settings (outline.chain number? settings fuel) entry (depth + 1)
              (entry :: seen)).result = .ok below →
            EndsWithin handles below.seen
              (outline.chain number? settings fuel depth read.next below.seen) := by
          intro read below hread hb
          have hle := hbelow.length_le hb
          simp only [List.length_cons] at hle
          exact ih (hbelow.nodup hb) (hbelow.subset hb)
            (next_mem_of_readEntry hwithin hread) (by omega)
        have hok : ∀ {w}, (do
            let read ← (outline.readEntry number? settings entry).inWalk
            let below ← outline.descend settings (outline.chain number? settings fuel) entry
              (depth + 1) (entry :: seen)
            let after ← outline.chain number? settings fuel depth read.next below.seen
            pure ⟨.cons entry read.heading below.forest after.forest, after.seen⟩ :
              Noted Stop (Walked ν)).result = .ok w →
            w.seen.Nodup ∧ w.seen ⊆ handles ∧ seen.length ≤ w.seen.length := by
          intro w h
          simp only [Noted.result_bind_eq_ok, Noted.result_inWalk_eq_ok, Noted.result_pure,
            Except.ok.injEq] at h
          obtain ⟨read, hread, below, hb, after, ha, rfl⟩ := h
          have hends := hafter hread hb
          have hle := hbelow.length_le hb
          have hle' := hends.length_le ha
          have hdistinct := hends.nodup ha
          have hlisted := hends.subset ha
          simp only [List.length_cons] at hle
          exact ⟨hdistinct, hlisted, by simp only; omega⟩
        refine ⟨fun h => ?_, fun h => (hok h).1, fun h => (hok h).2.1, fun h => (hok h).2.2⟩
        simp only [Noted.result_bind_eq_error, Noted.result_inWalk_ne_exhausted,
          Noted.result_inWalk_eq_ok, false_or, Noted.result_pure] at h
        obtain ⟨read, hread, h | ⟨below, hb, h | ⟨_, _, h⟩⟩⟩ := h
        · exact hbelow.ne_exhausted h
        · exact (hafter hread hb).ne_exhausted h
        · exact absurd h (by simp)

/-- A walk among finitely many handles needs no more fuel than there are handles. -/
theorem walk_ne_exhausted {handles : List ν} (hwithin : outline.LinksWithin handles) {root : ν}
    {fuel : Nat} (hfuel : handles.length ≤ fuel) :
    (outline.walk number? settings fuel root).result ≠ .error .exhausted :=
  (descend_endsWithin hwithin List.nodup_nil (List.nil_subset _)
    fun _ hfirst => chain_endsWithin hwithin List.nodup_nil (List.nil_subset _) hfirst
      (by simpa using hfuel)).ne_exhausted

end Outline

end Bookmarks
