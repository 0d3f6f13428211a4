/-
# From hop to hop to a destination

A destination that is no array leads on: a dictionary to the destination that it holds, a name or a
string to what the document lets it stand for. Such hops may go on without end, but no more than
thirty-two of them are made. A destination comes down to the array that so many hops lead to, and to
nothing if they lead to none, in particular if they lead round in a circle
(`Document.result_explicitDestination`).
-/
import Bookmarks.Proofs.Pdf.Readable

namespace Bookmarks.Pdf

namespace Document

section Hops

variable (document : Document)

/-- A name stands for an object. -/
def Explains (name : Bytes) (target : Object) : Prop :=
  (document.namedDestination name : Noted Fault (Option Object)).result = .ok (some target)

/-- An object that is no reference leads on to another one. -/
inductive LeadsOn : Object → Object → Prop where
  | dictionary {entries : Dictionary} {target : Object} (htarget : entries.get? "D" = some target) :
      LeadsOn (.dictionary entries) target
  | string {name : Bytes} {target : Object} (htarget : document.Explains name target) :
      LeadsOn (.string name) target
  | name {name : Bytes} {target : Object} (htarget : document.Explains name target) :
      LeadsOn (.name name) target

/-- One hop: a value leads on to what the object that it stands for leads on to. -/
def Hop (value target : Object) : Prop :=
  ∃ object, document.resolve value = .ok object ∧ document.LeadsOn object target

/-- So many hops lead from one value to another. -/
inductive Hops : Nat → Object → Object → Prop where
  | here (value : Object) : Hops 0 value value
  | step {count : Nat} {value target last : Object} (hhop : document.Hop value target)
      (hrest : Hops count target last) : Hops (count + 1) value last

/-- A value stands for an array that is not empty. -/
def Shows (value : Object) (items : List Object) : Prop :=
  document.resolve value = .ok (.array items) ∧ items ≠ []

end Hops

variable {document : Document} {value target last : Object} {items : List Object} {limit : Nat}

theorem Shows.not_hop (h : document.Shows value items) : ¬ document.Hop value target := by
  rintro ⟨object, hobject, hleads⟩
  cases h.1.symm.trans hobject
  cases hleads

/-- No two hops lead from one value to different ones. -/
theorem hop_rightUnique (document : Document) : Relator.RightUnique document.Hop := by
  rintro value target other ⟨object, hobject, hleads⟩ ⟨object', hobject', hleads'⟩
  cases hobject.symm.trans hobject'
  cases hleads with
  | dictionary htarget =>
      cases hleads' with
      | dictionary htarget' => exact Option.some.inj (htarget.symm.trans htarget')
  | string htarget =>
      cases hleads' with
      | string htarget' => exact Option.some.inj (Except.ok.inj (htarget.symm.trans htarget'))
  | name htarget =>
      cases hleads' with
      | name htarget' => exact Option.some.inj (Except.ok.inj (htarget.symm.trans htarget'))

theorem namedDestination_eq_none {name : Bytes} (h : ∀ target, ¬ document.Explains name target) :
    (document.namedDestination name : Noted Fault (Option Object)).result = .ok none := by
  obtain ⟨found, hfound⟩ : ∃ found,
      (document.namedDestination name : Noted Fault (Option Object)).result = .ok found :=
    exists_namedDestination name
  cases found with
  | none => exact hfound
  | some target => exact absurd hfound (h target)

theorem Hops.reflTransGen {count : Nat} (h : document.Hops count value last) :
    Relation.ReflTransGen document.Hop value last := by
  induction h with
  | here value => exact .refl
  | step hhop _ ih => exact .head hhop ih

/-! ## Looking at one object -/

theorem destinationWithin_of_shows (h : document.Shows value items) :
    (document.destinationWithin (limit + 1) value : Noted Fault (Option (List Object))).result =
      .ok (some items) := by
  obtain ⟨hvalue, hitems⟩ := h
  rw [destinationWithin, hvalue]
  cases items with
  | nil => exact absurd rfl hitems
  | cons item items => rfl

/-- After a hop there is one object less to look at. -/
theorem destinationWithin_of_hop (h : document.Hop value target) :
    (document.destinationWithin (limit + 1) value : Noted Fault (Option (List Object))).result =
      (document.destinationWithin limit target).result := by
  obtain ⟨object, hobject, hleads⟩ := h
  rw [destinationWithin, hobject]
  cases hleads with
  | dictionary htarget => simp only [htarget]
  | string htarget => simp only [Noted.bind_of_ok htarget]
  | name htarget => simp only [Noted.bind_of_ok htarget]

/-- A value that is no array and leads nowhere is no destination. -/
theorem destinationWithin_of_stuck (hshows : ∀ items, ¬ document.Shows value items)
    (hhop : ∀ target, ¬ document.Hop value target) :
    (document.destinationWithin (limit + 1) value : Noted Fault (Option (List Object))).result =
      .ok none := by
  rw [destinationWithin]
  split
  · rfl
  · next items hitems hvalue => exact absurd ⟨hvalue, hitems⟩ (hshows items)
  · next entries hvalue =>
    split
    · next target htarget => exact absurd ⟨_, hvalue, .dictionary htarget⟩ (hhop target)
    · rfl
  · next name hvalue =>
    have hnone := namedDestination_eq_none fun target htarget =>
      hhop target ⟨_, hvalue, .string htarget⟩
    simp only [Noted.bind_of_ok hnone]
    rfl
  · next name hvalue =>
    have hnone := namedDestination_eq_none fun target htarget =>
      hhop target ⟨_, hvalue, .name htarget⟩
    simp only [Noted.bind_of_ok hnone]
    rfl
  · rfl

/-! ## Looking at several objects -/

/-- A destination comes down to the array that fewer hops lead to than objects are looked at. -/
theorem destinationWithin_eq_some_iff (limit : Nat) :
    (document.destinationWithin limit value : Noted Fault (Option (List Object))).result =
      .ok (some items) ↔
      ∃ count < limit, ∃ last, document.Hops count value last ∧ document.Shows last items := by
  induction limit generalizing value with
  | zero =>
      rw [destinationWithin]
      simp
  | succ limit ih =>
      constructor
      · intro h
        -- Each object that is looked at shows an array, leads on, or is stuck.
        by_cases hshows : ∃ items, document.Shows value items
        · obtain ⟨items', hshows⟩ := hshows
          rw [destinationWithin_of_shows hshows] at h
          cases h
          exact ⟨0, Nat.succ_pos limit, value, .here value, hshows⟩
        by_cases hhop : ∃ target, document.Hop value target
        · obtain ⟨target, hhop⟩ := hhop
          rw [destinationWithin_of_hop hhop] at h
          obtain ⟨count, hcount, last, hhops, hlast⟩ := ih.1 h
          exact ⟨count + 1, Nat.succ_lt_succ hcount, last, .step hhop hhops, hlast⟩
        · rw [destinationWithin_of_stuck (not_exists.1 hshows) (not_exists.1 hhop)] at h
          cases h
      · rintro ⟨count, hcount, last, hhops, hlast⟩
        cases hhops with
        | here => exact destinationWithin_of_shows hlast
        | step hhop hrest =>
            rw [destinationWithin_of_hop hhop]
            exact ih.2 ⟨_, Nat.lt_of_succ_lt_succ hcount, last, hrest, hlast⟩

/-! ## Circles -/

/-- Whatever a circle leads to is part of it. -/
theorem transGen_of_reflTransGen (hcircle : Relation.TransGen document.Hop value value)
    (h : Relation.ReflTransGen document.Hop value last) :
    Relation.TransGen document.Hop last last := by
  induction h with
  | refl => exact hcircle
  | tail _ hhop ih =>
      obtain ⟨next, hnext, hback⟩ := Relation.TransGen.head'_iff.1 ih
      obtain rfl := document.hop_rightUnique hhop hnext
      exact .tail' hback hhop

/-- From a circle no array is ever reached. -/
theorem not_shows_of_circle (hcircle : Relation.TransGen document.Hop target target)
    (htarget : Relation.ReflTransGen document.Hop value target)
    (hlast : Relation.ReflTransGen document.Hop value last) : ¬ document.Shows last items := by
  intro hshows
  -- There is one way from `value`, so of the circle and the array one comes before the other.
  obtain hlater | hearlier :=
    Relation.ReflTransGen.total_of_right_unique document.hop_rightUnique htarget hlast
  · obtain ⟨next, hhop, -⟩ :=
      Relation.TransGen.head'_iff.1 (transGen_of_reflTransGen hcircle hlater)
    exact hshows.not_hop hhop
  · obtain rfl | ⟨next, hhop, -⟩ := hearlier.cases_head
    · obtain ⟨next, hhop, -⟩ := Relation.TransGen.head'_iff.1 hcircle
      exact hshows.not_hop hhop
    · exact hshows.not_hop hhop

/-- A destination comes down to the array that at most thirty-two hops lead to. If they lead to
none, and so whenever they lead round in a circle, it comes down to nothing. -/
theorem result_explicitDestination (document : Document) (destination : Object) :
    (∀ items, (document.explicitDestination destination : Noted Fault _).result = .ok (some items) ↔
      ∃ count ≤ 32, ∃ last, document.Hops count destination last ∧
        document.resolve last = .ok (.array items) ∧ items ≠ []) ∧
    ((document.explicitDestination destination : Noted Fault _).result = .ok none ↔
      ∀ items, ¬ ∃ count ≤ 32, ∃ last, document.Hops count destination last ∧
        document.resolve last = .ok (.array items) ∧ items ≠ []) ∧
    ∀ target, Relation.ReflTransGen document.Hop destination target →
      Relation.TransGen document.Hop target target →
      (document.explicitDestination destination : Noted Fault _).result = .ok none := by
  have hsome : ∀ items,
      (document.explicitDestination destination : Noted Fault _).result = .ok (some items) ↔
        ∃ count ≤ 32, ∃ last, document.Hops count destination last ∧ document.Shows last items := by
    intro items
    simp only [explicitDestination, destinationWithin_eq_some_iff, nameDepth, Nat.lt_succ_iff]
  have hnone : (document.explicitDestination destination : Noted Fault _).result = .ok none ↔
      ∀ items, ¬ ∃ count ≤ 32, ∃ last,
        document.Hops count destination last ∧ document.Shows last items := by
    obtain ⟨found, hfound⟩ : ∃ found,
        (document.explicitDestination destination : Noted Fault _).result = .ok found :=
      exists_destinationWithin nameDepth destination
    simp only [← hsome, hfound]
    cases found <;> simp
  refine ⟨hsome, hnone, fun target htarget hcircle => hnone.2 ?_⟩
  rintro items ⟨count, -, last, hhops, hlast⟩
  exact not_shows_of_circle hcircle htarget hhops.reflTransGen hlast

/-- A value inside so many dictionaries. -/
def wrapped (value : Object) : Nat → Object
  | 0 => value
  | count + 1 => .dictionary [(ascii "D", wrapped value count)]

/-- The last hop that is made is the thirty-second. -/
example (document : Document) :
    (document.explicitDestination (wrapped (.array [.null]) 32) : Noted Fault _).result =
      .ok (some [.null]) ∧
    (document.explicitDestination (wrapped (.array [.null]) 33) : Noted Fault _).result =
      .ok none :=
  ⟨rfl, rfl⟩

end Document

/-! ## A circle of names and dictionaries -/

/-- A document in which the north is a dictionary that leads to the south, and the south is the
north by another name. -/
def roundabout : Document := Store.document {
  version := "1.5"
  trailer := [(ascii "Root", .reference ⟨1, 0⟩)]
  objects := .ofList [
    (⟨1, 0⟩, .dictionary [(ascii "Dests", .reference ⟨2, 0⟩)]),
    (⟨2, 0⟩, .dictionary [
      (ascii "North", .dictionary [(ascii "D", .string (ascii "South"))]),
      (ascii "South", .name (ascii "North"))])] ObjectId.order }

/-- What the north is at the roundabout. -/
def north : Object :=
  .dictionary [(ascii "D", .string (ascii "South"))]

/-- The north leads back to itself in three hops, and so it is no destination. -/
theorem explicitDestination_roundabout :
    Relation.ReflTransGen roundabout.Hop (.string (ascii "North")) north ∧
      Relation.TransGen roundabout.Hop north north ∧
      (roundabout.explicitDestination (.string (ascii "North")) : Noted Fault _).result =
        .ok none := by
  have hstart : roundabout.Hop (.string (ascii "North")) north := ⟨_, rfl, .string rfl⟩
  have hdown : roundabout.Hop north (.string (ascii "South")) := ⟨_, rfl, .dictionary rfl⟩
  have hname : roundabout.Hop (.string (ascii "South")) (.name (ascii "North")) :=
    ⟨_, rfl, .string rfl⟩
  have hback : roundabout.Hop (.name (ascii "North")) north := ⟨_, rfl, .name rfl⟩
  have hcircle := Relation.TransGen.head hdown (.head hname (.single hback))
  exact ⟨.single hstart, hcircle,
    (roundabout.result_explicitDestination _).2.2 _ (.single hstart) hcircle⟩

end Bookmarks.Pdf
