/-
# Outlines under other names

What nodes and pages are called does not matter to a reader. If the answers of one outline are those
of another with different names for different nodes and for different pages, then both are read with
the same outcome: the same table of contents, a fault of the same kind, or no end
(`Renames.readWithin_same`). Links may be arranged in any way, and any question may fail. The
outlines are alike in the sense of `Alike`, and outlines that are alike take the same steps, also
where a step fails.
-/
import Bookmarks.Proofs.Page.Index
import Bookmarks.Proofs.Walk.Likeness

namespace Bookmarks

variable {ν μ π ρ α β γ δ : Type}

/-- Going through a list of pages finds a page where going through the renamed list does. -/
theorem scanPages_map [BEq π] [LawfulBEq π] [BEq ρ] [LawfulBEq ρ] {g : π → ρ} (hg : g.Injective)
    (pages : List π) (page : π) : scanPages (pages.map g) (g page) = scanPages pages page := by
  have hsame : (fun other => other == g page) ∘ g = fun other => other == page := by
    funext other
    rw [Function.comp_apply, Bool.eq_iff_iff, beq_iff_eq, beq_iff_eq, hg.eq_iff]
  rw [scanPages, List.findIdx?_map, hsame, scanPages]

/-! ## Readings with the same answer -/

namespace SameAnswer

variable {S : α → β → Prop} {T : γ → δ → Prop} {x : Noted Fault α} {y : Noted Fault β}
  {f : α → Noted Fault γ} {g : β → Noted Fault δ}

theorem bind (h : SameAnswer S x.result y.result)
    (hrest : ∀ a b, S a b → SameAnswer T (f a).result (g b).result) :
    SameAnswer T (x >>= f).result (y >>= g).result := by
  obtain ⟨notices, result⟩ := x
  obtain ⟨notices', result'⟩ := y
  cases h with
  | ok h => exact hrest _ _ h
  | error h => exact .error h

theorem exists_error {answer : Except Fault α} {other : Except Fault β}
    (h : SameAnswer S answer other) {fault : Fault} (hfault : answer = .error fault) :
    ∃ fault', other = .error fault' ∧ fault.kind = fault'.kind := by
  cases h with
  | ok _ => cases hfault
  | error h => cases hfault; exact ⟨_, rfl, h⟩

end SameAnswer

/-- Links that have the same answer are followed with the same answer. -/
theorem Settings.follow_sameAnswer {R : ν → μ → Prop} {answer : Except Fault (Option ν)}
    {other : Except Fault (Option μ)} (settings : Settings)
    (h : SameAnswer (Option.Rel R) answer other) :
    SameAnswer (Option.Rel R) (settings.follow answer).result (settings.follow other).result := by
  cases hfollow : (settings.follow answer).result with
  | ok target =>
      obtain ⟨target', hfollow', hrel⟩ := Settings.follow_alike h hfollow
      rw [hfollow']
      exact .ok hrel
  | error fault =>
      obtain ⟨hanswer, hfails⟩ := Settings.follow_eq_error.1 hfollow
      subst hanswer
      cases h with
      | @error _ fault' hkind =>
          rw [hkind] at hfails
          rw [Settings.follow_eq_error.2 ⟨rfl, hfails⟩]
          exact .error hkind

/-- Damage has the same answer, whatever it is. -/
theorem Settings.meet_sameAnswer (settings : Settings) (damage other : Damage) :
    SameAnswer Eq (settings.meet damage).result (settings.meet other).result := by
  unfold meet
  cases settings.tolerance with
  | strict => exact .error rfl
  | lenient => exact .ok rfl

/-- Outcomes of two walks: related values, faults of one kind, or no end on either side. -/
inductive SameOutcome (S : α → β → Prop) : Except Stop α → Except Stop β → Prop where
  | ok {value : α} {other : β} (h : S value other) : SameOutcome S (.ok value) (.ok other)
  | fault {fault other : Fault} (h : fault.kind = other.kind) :
      SameOutcome S (.error (.fault fault)) (.error (.fault other))
  | exhausted : SameOutcome S (.error .exhausted) (.error .exhausted)

namespace SameOutcome

variable {S : α → β → Prop} {T : γ → δ → Prop} {x : Noted Stop α} {y : Noted Stop β}
  {f : α → Noted Stop γ} {g : β → Noted Stop δ}

theorem bind (h : SameOutcome S x.result y.result)
    (hrest : ∀ a b, S a b → SameOutcome T (f a).result (g b).result) :
    SameOutcome T (x >>= f).result (y >>= g).result := by
  obtain ⟨notices, result⟩ := x
  obtain ⟨notices', result'⟩ := y
  cases h with
  | ok h => exact hrest _ _ h
  | fault h => exact .fault h
  | exhausted => exact .exhausted

theorem exists_ok {outcome : Except Stop α} {other : Except Stop β}
    (h : SameOutcome S outcome other) {value : α} (hvalue : outcome = .ok value) :
    ∃ value', other = .ok value' ∧ S value value' := by
  cases h with
  | ok h => cases hvalue; exact ⟨_, rfl, h⟩
  | fault _ => cases hvalue
  | exhausted => cases hvalue

theorem exists_fault {outcome : Except Stop α} {other : Except Stop β}
    (h : SameOutcome S outcome other) {fault : Fault} (hfault : outcome = .error (.fault fault)) :
    ∃ fault', other = .error (.fault fault') ∧ fault.kind = fault'.kind := by
  cases h with
  | ok _ => cases hfault
  | fault h => cases hfault; exact ⟨_, rfl, h⟩
  | exhausted => cases hfault

theorem inWalk {x : Noted Fault α} {y : Noted Fault β} (h : SameAnswer S x.result y.result) :
    SameOutcome S x.inWalk.result y.inWalk.result := by
  obtain ⟨notices, result⟩ := x
  obtain ⟨notices', result'⟩ := y
  cases h with
  | ok h => exact .ok h
  | error h => exact .fault h

theorem inWalk_ofExcept {x : Except Fault α} {y : Except Fault β} (h : SameAnswer S x y) :
    SameOutcome S (Noted.ofExcept x).inWalk.result (Noted.ofExcept y).inWalk.result :=
  inWalk h

end SameOutcome

/-- What is read at counterparts: one heading, and next siblings that are counterparts again. -/
structure Entry.Alike (R : ν → μ → Prop) (read : Entry ν) (other : Entry μ) : Prop where
  heading_eq : read.heading = other.heading
  next : Option.Rel R read.next other.next

/-- What is brought home: forests that are alike, with the same entries seen. -/
structure Walked.Alike (R : ν → μ → Prop) (walked : Walked ν) (other : Walked μ) : Prop where
  forest : walked.forest.Alike R other.forest
  seen : Outline.SameSeen R walked.seen other.seen

namespace Outline

variable {first : Outline ν π} {second : Outline μ ρ} {settings : Settings}

section Below

variable {R : ν → μ → Prop} [DecidableEq ν] [DecidableEq μ]

theorem sameAnswer_checkLast {scope : ν} {scope' : μ}
    (hlast : SameAnswer (Option.Rel R) (first.last scope) (second.last scope'))
    (reached : Option ν) (reached' : Option μ) :
    SameAnswer Eq (first.checkLast settings scope reached).result
      (second.checkLast settings scope' reached').result := by
  have hfollow := settings.follow_sameAnswer hlast
  -- Whether the last child differs is remarked on, and nothing else.
  cases hfirst : (settings.follow (first.last scope)).result with
  | ok declared =>
      obtain ⟨declared', hsecond, -⟩ := hfollow.exists_ok hfirst
      rw [checkLast_eq_ok.2 ⟨declared, hfirst⟩, checkLast_eq_ok.2 ⟨declared', hsecond⟩]
      exact .ok rfl
  | error fault =>
      obtain ⟨fault', hsecond, hkind⟩ := hfollow.exists_error hfirst
      have hfails : (first.checkLast settings scope reached).result = .error fault :=
        Noted.result_bind_eq_error.2 (Or.inl hfirst)
      have hfails' : (second.checkLast settings scope' reached').result = .error fault' :=
        Noted.result_bind_eq_error.2 (Or.inl hsecond)
      rw [hfails, hfails']
      exact .error hkind

variable (settings) in
theorem sameOutcome_descend {chain : Nat → Option ν → List ν → Noted Stop (Walked ν)}
    {chain' : Nat → Option μ → List μ → Noted Stop (Walked μ)} {scope : ν} {scope' : μ}
    (hfirst : SameAnswer (Option.Rel R) (first.first scope) (second.first scope'))
    (hlast : SameAnswer (Option.Rel R) (first.last scope) (second.last scope')) {depth : Nat}
    {seen : List ν} {seen' : List μ} (hseen : SameSeen R seen seen')
    (hchain : ∀ current current', Option.Rel R current current' →
      SameOutcome (Walked.Alike R) (chain depth current seen).result
        (chain' depth current' seen').result) :
    SameOutcome (Walked.Alike R) (first.descend settings chain scope depth seen).result
      (second.descend settings chain' scope' depth seen').result := by
  apply (SameOutcome.inWalk (settings.follow_sameAnswer hfirst)).bind
  intro opened opened' hopened
  have hsome : opened.isSome = opened'.isSome := by cases hopened <;> rfl
  rw [hsome]
  split
  · apply (SameOutcome.inWalk (settings.meet_sameAnswer _ _)).bind
    rintro _ _ -
    exact .ok ⟨.nil, hseen⟩
  · apply (hchain opened opened' hopened).bind
    intro walked walked' hwalked
    apply (SameOutcome.inWalk (sameAnswer_checkLast hlast _ _)).bind
    rintro _ _ -
    exact .ok hwalked

end Below

namespace Alike

variable {R : ν → μ → Prop} {firstNumber? : π → Option Nat} {secondNumber? : ρ → Option Nat}
  (h : Alike R first firstNumber? second secondNumber?)
include h

/-! ## Outlines that are alike, where a question fails -/

theorem sameAnswer_pageNumber {entry : Option ν} {other : Option μ}
    (hrel : Option.Rel R entry other) :
    SameAnswer Eq (first.pageNumber firstNumber? entry).result
      (second.pageNumber secondNumber? other).result := by
  cases hrel with
  | some hentry => exact h.pageNumber_alike hentry
  | none => exact .ok rfl

theorem sameAnswer_endPage {entry : ν} {other : μ} (hentry : R entry other) {next : Option ν}
    {next' : Option μ} (hnext : Option.Rel R next next') :
    SameAnswer Eq (first.endPage firstNumber? settings entry next).result
      (second.endPage secondNumber? settings other next').result := by
  apply (h.sameAnswer_pageNumber hnext).bind
  rintro sibling _ rfl
  split
  · exact .ok rfl
  apply (settings.follow_sameAnswer (h.first_alike hentry)).bind
  intro child child' hchild
  apply (h.sameAnswer_pageNumber hchild).bind
  rintro below _ rfl
  have hnextNone : next.isNone = next'.isNone := by cases hnext <;> rfl
  have hchildNone : child.isNone = child'.isNone := by cases hchild <;> rfl
  rw [hnextNone, hchildNone, h.pageCount_eq]
  split
  · exact .ok rfl
  · split <;> exact .ok rfl

theorem sameAnswer_readEntry {entry : ν} {other : μ} (hentry : R entry other) :
    SameAnswer (Entry.Alike R) (first.readEntry firstNumber? settings entry).result
      (second.readEntry secondNumber? settings other).result := by
  apply (h.sameAnswer_pageNumber (.some hentry)).bind
  rintro start _ rfl
  apply (settings.follow_sameAnswer (h.next_alike hentry)).bind
  intro next next' hnext
  apply (h.sameAnswer_endPage hentry hnext).bind
  rintro finish _ rfl
  apply (h.position_alike hentry).bind
  rintro position _ rfl
  apply SameAnswer.bind (h.title_alike hentry)
  rintro title _ rfl
  exact .ok ⟨rfl, hnext⟩

variable [DecidableEq ν] [DecidableEq μ]

variable (settings) in
theorem sameOutcome_chain (fuel depth : Nat) {current : Option ν} {current' : Option μ}
    (hcurrent : Option.Rel R current current') {seen : List ν} {seen' : List μ}
    (hseen : SameSeen R seen seen') :
    SameOutcome (Walked.Alike R)
      (first.chain firstNumber? settings fuel depth current seen).result
      (second.chain secondNumber? settings fuel depth current' seen').result := by
  induction fuel, depth, current, seen using chain_induction generalizing current' seen' with
  | finish fuel depth seen =>
      cases hcurrent with
      | none =>
          rw [chain_none, chain_none]
          exact .ok ⟨.nil, hseen⟩
  | revisit fuel depth entry seen hmem =>
      cases hcurrent with
      | some hentry =>
          rw [chain_of_mem hmem, chain_of_mem ((hseen _ _ hentry).1 hmem)]
          apply (SameOutcome.inWalk (settings.meet_sameAnswer _ _)).bind
          rintro _ _ -
          exact .ok ⟨.nil, hseen⟩
  | exhausted depth entry seen hnew =>
      cases hcurrent with
      | some hentry =>
          rw [chain, if_neg hnew, chain, if_neg (mt (hseen _ _ hentry).2 hnew)]
          exact .exhausted
  | visit fuel depth entry seen hnew ih =>
      cases hcurrent with
      | some hentry =>
          rw [chain, if_neg hnew, chain, if_neg (mt (hseen _ _ hentry).2 hnew)]
          apply (SameOutcome.inWalk (h.sameAnswer_readEntry hentry)).bind
          intro read read' hread
          have hcons := h.sameSeen_cons hentry hseen
          have hdescend := sameOutcome_descend settings (h.first_alike hentry)
            (h.last_alike hentry) hcons fun opened opened' hopened =>
              ih (depth + 1) opened (entry :: seen) hopened hcons
          apply hdescend.bind
          intro below below' hbelow
          apply (ih depth read.next below.seen hread.next hbelow.seen).bind
          intro after after' hafter
          rw [hread.heading_eq]
          exact .ok ⟨.cons hentry hbelow.forest hafter.forest, hafter.seen⟩

end Alike

/-! ## Outlines under other names -/

/-- The answers of the second outline are those of the first, with nodes renamed by `f` and pages
renamed by `g`. -/
structure Renames (f : ν → μ) (g : π → ρ) (first : Outline ν π) (second : Outline μ ρ) : Prop where
  pageCount_eq : first.pageCount = second.pageCount
  root_eq : SameAnswer (Option.map f · = ·) first.root second.root
  pages_eq : SameAnswer (List.map g · = ·) (first.pages ()) (second.pages ())
  first_eq : ∀ node, SameAnswer (Option.map f · = ·) (first.first node) (second.first (f node))
  last_eq : ∀ node, SameAnswer (Option.map f · = ·) (first.last node) (second.last (f node))
  next_eq : ∀ node, SameAnswer (Option.map f · = ·) (first.next node) (second.next (f node))
  title_eq : ∀ node, SameAnswer Eq (first.title node) (second.title (f node))
  destination_eq : ∀ node,
    SameAnswer Eq (first.destination node).result (second.destination (f node)).result
  page_eq : ∀ node,
    SameAnswer (Option.map g · = ·) (first.page node).result (second.page (f node)).result

theorem optionRel_of_map_eq {f : ν → μ} {node : Option ν} {other : Option μ}
    (h : node.map f = other) : Option.Rel (f · = ·) node other := by
  subst h
  cases node with
  | none => exact .none
  | some node => exact .some rfl

namespace Renames

variable {f : ν → μ} {g : π → ρ} (h : first.Renames f g second)
include h

theorem position_alike (node : ν) :
    SameAnswer Eq (first.position node).result (second.position (f node)).result := by
  apply (h.destination_eq node).bind
  rintro destination _ rfl
  split <;> exact .ok rfl

theorem pageNumber_alike {firstNumber? : π → Option Nat} {secondNumber? : ρ → Option Nat}
    (hnumber : ∀ page, secondNumber? (g page) = firstNumber? page) (node : ν) :
    SameAnswer Eq (first.pageNumber firstNumber? (some node)).result
      (second.pageNumber secondNumber? (some (f node))).result := by
  apply (h.page_eq node).bind
  rintro page _ rfl
  have hsame : (page.map g).bind secondNumber? = page.bind firstNumber? := by
    cases page with
    | none => rfl
    | some page => exact hnumber page
  rw [hsame]
  split <;> exact .ok rfl

/-- If different nodes have different names, each node stands for the one that it is renamed to. -/
theorem alike (hf : f.Injective) {firstNumber? : π → Option Nat} {secondNumber? : ρ → Option Nat}
    (hnumber : ∀ page, secondNumber? (g page) = firstNumber? page) :
    Alike (f · = ·) first firstNumber? second secondNumber? where
  pageCount_eq := h.pageCount_eq
  eq_iff := by
    rintro entry entry' _ _ rfl rfl
    exact hf.eq_iff.symm
  first_alike := by
    rintro entry _ rfl
    exact (h.first_eq entry).mono optionRel_of_map_eq
  last_alike := by
    rintro entry _ rfl
    exact (h.last_eq entry).mono optionRel_of_map_eq
  next_alike := by
    rintro entry _ rfl
    exact (h.next_eq entry).mono optionRel_of_map_eq
  title_alike := by
    rintro entry _ rfl
    exact h.title_eq entry
  position_alike := by
    rintro entry _ rfl
    exact h.position_alike entry
  pageNumber_alike := by
    rintro entry _ rfl
    exact h.pageNumber_alike hnumber entry

variable [DecidableEq ν] [DecidableEq μ] [BEq π] [LawfulBEq π] [Hashable π] [LawfulHashable π]
  [BEq ρ] [LawfulBEq ρ] [Hashable ρ] [LawfulHashable ρ]

theorem sameOutcome_forestWithin (hf : f.Injective) (hg : g.Injective) (fuel : Nat) :
    SameOutcome (Forest.Alike (f · = ·)) (first.forestWithin settings fuel).result
      (second.forestWithin settings fuel).result := by
  apply (SameOutcome.inWalk_ofExcept h.root_eq).bind
  rintro root _ rfl
  cases root with
  | none => exact .ok .nil
  | some root =>
      apply (SameOutcome.inWalk_ofExcept h.pages_eq).bind
      rintro pages _ rfl
      simp only [PageIndex.number?_ofList]
      have halike := h.alike hf fun page => scanPages_map hg pages page
      have hseen : SameSeen (f · = ·) [] [] := fun _ _ _ =>
        iff_of_false List.not_mem_nil List.not_mem_nil
      have hwalk := sameOutcome_descend settings
        ((h.first_eq root).mono optionRel_of_map_eq) ((h.last_eq root).mono optionRel_of_map_eq)
        hseen fun _ _ hopened => halike.sameOutcome_chain settings fuel 0 hopened hseen
      apply hwalk.bind
      intro walked walked' hwalked
      exact .ok hwalked.forest

/-- An outline is read as it is under other names, as long as different nodes and different pages
have different names. -/
theorem readWithin_same (hf : f.Injective) (hg : g.Injective) (settings : Settings) (fuel : Nat) :
    SameOutcome Eq (first.readWithin settings fuel).result
      (second.readWithin settings fuel).result := by
  rw [Outline.readWithin_eq, Outline.readWithin_eq]
  apply (h.sameOutcome_forestWithin hf hg fuel).bind
  intro forest forest' hforest
  rw [h.pageCount_eq, hforest.ofForest_eq]
  exact .ok rfl

end Renames

end Outline

/-- A single note that comes after itself, with a broken link below it. The page list names its page
twice. -/
def leaflet : Outline Bool Bool where
  pageCount := 3
  root := .ok (some false)
  first node := if node then .error (.corrupted (.reported "torn off")) else .ok (some true)
  last _ := .ok (some true)
  next _ := .ok (some true)
  title node := .ok (if node then "Note" else "")
  destination _ := pure none
  page node := pure (some node)
  pages _ := .ok [true, true]
  label := toString

/-- The leaflet with words for its nodes and numbers for its pages. -/
def wordedLeaflet : Outline String Nat where
  pageCount := 3
  root := .ok (some "leaflet")
  first node :=
    if node = "note" then .error (.corrupted (.reported "no such node")) else .ok (some "note")
  last _ := .ok (some "note")
  next _ := .ok (some "note")
  title node := .ok (if node = "note" then "Note" else "")
  destination _ := pure none
  page node := pure (some (if node = "note" then 12 else 0))
  pages _ := .ok [12, 12]
  label node := node

theorem renames_leaflet :
    leaflet.Renames (fun node => if node then "note" else "leaflet")
      (fun page => if page then 12 else 0) wordedLeaflet where
  pageCount_eq := rfl
  root_eq := .ok rfl
  pages_eq := .ok rfl
  first_eq node := by
    cases node with
    | false => exact .ok rfl
    | true => exact .error rfl
  last_eq _ := .ok rfl
  next_eq _ := .ok rfl
  title_eq node := by cases node <;> exact .ok rfl
  destination_eq _ := .ok rfl
  page_eq node := by cases node <;> exact .ok rfl

/-- In words, too, a lenient reader finds the note on the first page, and a strict one finds
damage. -/
theorem same_leaflet :
    ∃ contents, (leaflet.readWithin { tolerance := .lenient } 1).result = .ok contents ∧
      (wordedLeaflet.readWithin { tolerance := .lenient } 1).result = .ok contents ∧
      contents.sections.toList =
        [Contents.rootSection "root" 3 [1], ⟨some 0, "Note", 0, 1, 1, 0, []⟩] ∧
      ∃ fault, (wordedLeaflet.readWithin {} 1).result = .error (.fault fault) ∧
        fault.kind = .corrupted := by
  have hf : Function.Injective fun node : Bool => if node then "note" else "leaflet" := by
    unfold Function.Injective
    decide
  have hg : Function.Injective fun page : Bool => if page then 12 else 0 := by
    unfold Function.Injective
    decide
  have hsame := fun settings => renames_leaflet.readWithin_same hf hg settings 1
  have hforest : (leaflet.forestWithin { tolerance := .lenient } 1).result =
      .ok (.cons true ⟨"Note", 1, 1, 0⟩ .nil .nil) := by
    simp only [Outline.forestWithin, PageIndex.number?_ofList]
    decide +kernel
  have hread := Outline.readWithin_eq_ok.2 ⟨_, hforest, rfl⟩
  have hstrict : (leaflet.forestWithin {} 1).result =
      .error (.fault (.corrupted (.reported "torn off"))) := by
    simp only [Outline.forestWithin, PageIndex.number?_ofList]
    decide +kernel
  have hfails := Outline.readWithin_eq_error.2 hstrict
  obtain ⟨contents, hother, rfl⟩ := (hsame { tolerance := .lenient }).exists_ok hread
  obtain ⟨fault, hfault, hkind⟩ := (hsame {}).exists_fault hfails
  exact ⟨_, hread, hother, by decide +kernel, fault, hfault, hkind.symm⟩

end Bookmarks
