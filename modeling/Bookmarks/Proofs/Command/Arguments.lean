/-
# Command lines without a file to write

What a command shows does not depend on where it is to go. `ParsesOutput` says so of a parser of
command lines: a command line that names a file for its result does so by an option, and asks,
without that option, for the same with no file. The option can be written in several ways, and
wherever options can stand. The parser that takes arguments apart one after another is of this kind
(`parsesOutput_ofArguments`).
-/
import Bookmarks.Command.Arguments
import Bookmarks.Proofs.Command.Files
import Mathlib.Data.List.TakeDrop

namespace Bookmarks.Command

/-- The ways to write the short option for a file, less its hyphen: what stands in the argument and
what stands behind it. -/
def shortForms (path : String) : List (String × List String) :=
  [("o", [path]), ("o" ++ path, []), ("o=" ++ path, [])]

/-- The ways to write the option for a file, each with what is left without it. -/
inductive OutputOption (path : String) : List String → List String → Prop
  | short {letters : String} {behind : List String} (form : (letters, behind) ∈ shortForms path) :
      OutputOption path (("-" ++ letters) :: behind) []
  /-- A flag stands before it in the same argument. -/
  | joined {letters : String} {behind : List String} (form : (letters, behind) ∈ shortForms path) :
      OutputOption path (("-i" ++ letters) :: behind) ["-i"]
  | long : OutputOption path ["--output", path] []
  | longWithValue : OutputOption path ["--output=" ++ path] []

/-- The second command line is the first one less its option for a file. Behind two hyphens there
are no options. -/
def WithoutOutput (arguments plain : List String) : Prop :=
  ∃ before after path written kept, "--" ∉ before ∧ path ≠ "" ∧ OutputOption path written kept ∧
    arguments = before ++ written ++ after ∧ plain = before ++ kept ++ after

/-- A parser of command lines for which the file to write is an option of its own: without it a
command asks for the same, with no file to write. -/
structure ParsesOutput (parse : List String → Except Refusal Request) : Prop where
  withoutOutput : ∀ {arguments plain view input output}, WithoutOutput arguments plain →
    parse arguments = .ok (.show view input output) →
    parse plain = .ok (.show view input { output with path := none })
  exists_withoutOutput : ∀ {arguments view input output},
    parse arguments = .ok (.show view input output) → output.path.isSome →
    ∃ plain, WithoutOutput arguments plain

/-! ## What is given besides the file to write -/

/-- All that is given but the file to write. -/
def Given.withoutOutput (given : Given) : Given :=
  { given with output := none }

variable {form : CommandForm} {given given' result : Given} {pending pending' : Option Topic}

theorem raise_eq_ok {flag flag' : Bool} : raise flag = .ok flag' ↔ flag = false ∧ flag' = true := by
  cases flag <;> simp [raise, eq_comm]

theorem fill_eq_ok {α : Type} {place value place' : Option α} :
    fill place value = .ok place' ↔ place = none ∧ value.isSome ∧ place' = value := by
  cases place <;> cases value <;> simp [fill, orMisused, Except.map, eq_comm]

/-- What is given along with what is to come. -/
theorem taken_eq_ok {taken : Except Refusal Given} :
    (do return (← taken, pending)) = Except.ok (given', pending') ↔
      taken = .ok given' ∧ pending' = pending := by
  cases taken with
  | error refusal => exact iff_of_false nofun nofun
  | ok given =>
      change Except.ok (given, pending) = Except.ok (given', pending') ↔ _
      rw [Except.ok.injEq, Except.ok.injEq, Prod.mk.injEq, eq_comm (a := pending)]

/-- The file to write has a name, and there is one at most. -/
theorem Given.add_output_eq_ok {path : String} :
    given.add .output path = .ok given' ↔
      given.output = none ∧ path ≠ "" ∧ given' = { given with output := some path } := by
  have hpath : path? path = if path = "" then none else some path := by
    simp [path?]
  constructor
  · intro h
    obtain ⟨place, hplace, hgiven⟩ := Except.exists_ok_of_bind h
    obtain ⟨hnone, hsome, rfl⟩ := fill_eq_ok.1 hplace
    cases hgiven
    rw [hpath] at hsome ⊢
    split at hsome
    · cases hsome
    next hne =>
    exact ⟨hnone, hne, by rw [if_neg hne]⟩
  · rintro ⟨hnone, hne, rfl⟩
    rw [if_neg hne] at hpath
    simp only [Given.add, hpath, hnone]
    rfl

/-- No other option names the file to write. -/
theorem Given.add_output_of_ne {topic : Topic} {value : String} (htopic : topic ≠ .output)
    (hadd : given.add topic value = .ok given') : given'.output = given.output := by
  cases topic with
  | help => cases hadd
  | output => exact absurd rfl htopic
  | lenient | maxDepth | json | compact | level | leads =>
      obtain ⟨place, -, hgiven⟩ := Except.exists_ok_of_bind hadd
      cases hgiven
      rfl

/-- Once the file to write is known, another option says the same without it. -/
theorem Given.add_withoutOutput {topic : Topic} {value : String} (h : given.output.isSome)
    (hadd : given.add topic value = .ok given') :
    given'.output = given.output ∧
      given.withoutOutput.add topic value = .ok given'.withoutOutput := by
  cases topic with
  | help => cases hadd
  | output =>
      obtain ⟨hnone, -⟩ := Given.add_output_eq_ok.1 hadd
      simp [hnone] at h
  | lenient | maxDepth | json | compact | level | leads =>
      obtain ⟨place, hplace, hgiven⟩ := Except.exists_ok_of_bind hadd
      cases hgiven
      exact ⟨rfl, by simp only [Given.add, Given.withoutOutput, hplace]; rfl⟩

theorem Given.taken_withoutOutput {topic : Topic} {value : String} (h : given.output.isSome)
    (htaken : (do return (← given.add topic value, pending)) = Except.ok (given', pending')) :
    given'.output = given.output ∧
      (do return (← given.withoutOutput.add topic value, pending)) =
        Except.ok (ε := Refusal) (given'.withoutOutput, pending') := by
  obtain ⟨hnext, rfl⟩ := taken_eq_ok.1 htaken
  obtain ⟨hkept, hnext'⟩ := Given.add_withoutOutput h hnext
  exact ⟨hkept, taken_eq_ok.2 ⟨hnext', rfl⟩⟩

theorem Given.addOperand_withoutOutput {operand : String}
    (hadd : given.addOperand form operand = .ok given') :
    given'.output = given.output ∧
      given.withoutOutput.addOperand form operand = .ok given'.withoutOutput := by
  unfold addOperand at hadd ⊢
  split at hadd
  · next hfile =>
    obtain ⟨place, hplace, hgiven⟩ := Except.exists_ok_of_bind hadd
    cases hgiven
    refine ⟨rfl, ?_⟩
    rw [if_pos hfile]
    simp only [Given.withoutOutput, hplace]
    rfl
  · cases hadd

theorem foldlM_addOperand_withoutOutput {operands : List String}
    (hadd : operands.foldlM (Given.addOperand form) given = .ok given') :
    given'.output = given.output ∧
      operands.foldlM (Given.addOperand form) given.withoutOutput = .ok given'.withoutOutput := by
  induction operands generalizing given with
  | nil => cases hadd; exact ⟨rfl, rfl⟩
  | cons operand operands ih =>
      obtain ⟨next, hnext, hrest⟩ := Except.exists_ok_of_bind hadd
      obtain ⟨hkept, hnext'⟩ := Given.addOperand_withoutOutput hnext
      obtain ⟨hkept', hrest'⟩ := ih hrest
      refine ⟨hkept'.trans hkept, ?_⟩
      rw [List.foldlM_cons, hnext']
      exact hrest'

theorem joinedOptions_withoutOutput {forms : List OptionForm} {letters : List Char}
    (h : given.output.isSome)
    (hjoined : joinedOptions forms given letters = .ok (given', pending)) :
    given'.output = given.output ∧
      joinedOptions forms given.withoutOutput letters = .ok (given'.withoutOutput, pending) := by
  induction letters generalizing given with
  | nil => cases hjoined; exact ⟨rfl, rfl⟩
  | cons letter letters ih =>
      unfold joinedOptions at hjoined ⊢
      split at hjoined
      · cases hjoined
      next option hoption =>
      split at hjoined
      · next hvalue =>
        rw [if_pos hvalue]
        split at hjoined
        · cases hjoined; exact ⟨rfl, rfl⟩
        · exact Given.taken_withoutOutput h hjoined
        · exact Given.taken_withoutOutput h hjoined
      · next hflag =>
        rw [if_neg hflag]
        obtain ⟨next, hnext, hrest⟩ := Except.exists_ok_of_bind hjoined
        obtain ⟨hkept, hnext'⟩ := Given.add_withoutOutput h hnext
        obtain ⟨hkept', hrest'⟩ := ih (hkept ▸ h) hrest
        refine ⟨hkept'.trans hkept, ?_⟩
        simp only [hnext']
        exact hrest'

theorem longOption_withoutOutput {forms : List OptionForm} {text : List Char}
    (h : given.output.isSome) (hlong : longOption forms given text = .ok (given', pending)) :
    given'.output = given.output ∧
      longOption forms given.withoutOutput text = .ok (given'.withoutOutput, pending) := by
  cases hsplit : splitValue text with
  | mk name value =>
      simp only [longOption, hsplit] at hlong ⊢
      cases hoption : forms.find? fun form => form.long = name with
      | none => rw [hoption] at hlong; cases hlong
      | some option =>
          simp only [hoption] at hlong ⊢
          split at hlong
          · exact Given.taken_withoutOutput h hlong
          · cases hlong; exact ⟨rfl, rfl⟩
          · cases hlong
          · exact Given.taken_withoutOutput h hlong

theorem takeArgument_withoutOutput {argument : String} (h : given.output.isSome)
    (htake : takeArgument form given pending argument = .ok (given', pending')) :
    given'.output = given.output ∧
      takeArgument form given.withoutOutput pending argument =
        .ok (given'.withoutOutput, pending') := by
  unfold takeArgument at htake ⊢
  split at htake
  · split at htake
    · cases htake
    next hvalue =>
    rw [if_neg hvalue]
    exact Given.taken_withoutOutput h htake
  · split at htake
    · exact longOption_withoutOutput h htake
    · exact joinedOptions_withoutOutput h htake
    · obtain ⟨hnext, rfl⟩ := taken_eq_ok.1 htake
      obtain ⟨hkept, hnext'⟩ := Given.addOperand_withoutOutput hnext
      exact ⟨hkept, taken_eq_ok.2 ⟨hnext', rfl⟩⟩

/-- Once the file to write is known, what follows is read alike without it. -/
theorem gather_withoutOutput {arguments : List String} (h : given.output.isSome)
    (hgather : gather form given pending arguments = .ok result) :
    result.output = given.output ∧
      gather form given.withoutOutput pending arguments = .ok result.withoutOutput := by
  induction arguments generalizing given pending with
  | nil =>
      unfold gather at hgather ⊢
      split at hgather
      · cases hgather
      next hpending =>
      cases hgather
      exact ⟨rfl, if_neg hpending⟩
  | cons argument arguments ih =>
      unfold gather at hgather ⊢
      split at hgather
      · next hhyphens =>
        rw [if_pos hhyphens]
        exact foldlM_addOperand_withoutOutput hgather
      · next hhyphens =>
        obtain ⟨⟨next, pending'⟩, hnext, hrest⟩ := Except.exists_ok_of_bind hgather
        obtain ⟨hkept, hnext'⟩ := takeArgument_withoutOutput h hnext
        obtain ⟨hkept', hrest'⟩ := ih (hkept ▸ h) hrest
        refine ⟨hkept'.trans hkept, ?_⟩
        rw [if_neg hhyphens, hnext']
        exact hrest'

/-! ## Reading the option -/

theorem gather_cons {argument : String} {arguments : List String} (h : argument ≠ "--") :
    gather form given pending (argument :: arguments) =
      (takeArgument form given pending argument >>= fun taken =>
        gather form taken.1 taken.2 arguments) := by
  rw [gather]
  exact if_neg (by simp [h])

/-- Arguments before the two hyphens are read on their own. -/
theorem gather_append {before after : List String} (hhyphens : "--" ∉ before)
    (hgather : gather form given pending (before ++ after) = .ok result) :
    ∃ given' pending', ∀ rest,
      gather form given pending (before ++ rest) = gather form given' pending' rest := by
  induction before generalizing given pending with
  | nil => exact ⟨given, pending, fun rest => rfl⟩
  | cons argument before ih =>
      obtain ⟨hargument, hbefore⟩ := not_or.1 (mt List.mem_cons.2 hhyphens)
      rw [List.cons_append, gather_cons (Ne.symm hargument)] at hgather
      obtain ⟨⟨next, pending'⟩, hnext, hrest⟩ := Except.exists_ok_of_bind hgather
      obtain ⟨given'', pending'', hrest'⟩ := ih hbefore hrest
      refine ⟨given'', pending'', fun rest => ?_⟩
      rw [List.cons_append, gather_cons (Ne.symm hargument), hnext]
      exact hrest' rest

/-- An option is not taken for the value of another one. -/
theorem pending_eq_none {argument : String} (hargument : looksLikeOption argument = true)
    (h : takeArgument form given pending argument = .ok (given', pending')) : pending = none := by
  cases pending with
  | none => rfl
  | some topic =>
      unfold takeArgument at h
      simp only [hargument, if_true] at h
      cases h

theorem takeArgument_short {argument : String} {letter : Char} {letters : List Char}
    (h : argument.toList = '-' :: letter :: letters) (hletter : letter ≠ '-') :
    takeArgument form given none argument =
      joinedOptions form.options given (letter :: letters) := by
  unfold takeArgument
  simp only [h]

theorem takeArgument_long {argument : String} {text : List Char}
    (h : argument.toList = '-' :: '-' :: text) :
    takeArgument form given none argument = longOption form.options given text := by
  unfold takeArgument
  simp only [h]

/-- Every command that knows the option gives it a value. -/
theorem Verb.output_form (verb : Verb) : ∀ option ∈ verb.form.options,
    option.short = some 'o' ∨ option.long = "output" →
      option = ⟨.output, "output", some 'o', true⟩ := by
  cases verb <;> decide

theorem Verb.leads_form (verb : Verb) : ∀ option ∈ verb.form.options,
    option.short = some 'i' → option = ⟨.leads, "inter-level-text", some 'i', false⟩ := by
  cases verb <;> decide

/-- An option that is about the file to write is written as such. -/
theorem Verb.output_topic (verb : Verb) : ∀ option ∈ verb.form.options,
    option.topic = .output → option = ⟨.output, "output", some 'o', true⟩ := by
  cases verb <;> decide

/-- The only flags with a letter are the one for help and the one for leads. -/
theorem Verb.flag_topic (verb : Verb) : ∀ option ∈ verb.form.options,
    option.short.isSome → option.takesValue = false →
      option.topic = .help ∨ option.short = some 'i' := by
  cases verb <;> decide

variable {verb : Verb}

/-- The option in short form says what file to write, or the next argument will. -/
theorem joinedOptions_output {value : List Char}
    (h : joinedOptions verb.form.options given ('o' :: value) = .ok (given', pending)) :
    (value = [] ∧ given' = given ∧ pending = some .output) ∨
      (value ≠ [] ∧ pending = none ∧ ∃ path, given.add .output path = .ok given') := by
  unfold joinedOptions at h
  split at h
  · cases h
  next option hoption =>
  obtain rfl := verb.output_form option (List.mem_of_find?_eq_some hoption)
    (.inl (by simpa using List.find?_some hoption))
  rw [if_pos rfl] at h
  split at h
  · cases h
    exact .inl ⟨rfl, rfl, rfl⟩
  all_goals
    obtain ⟨hnext, rfl⟩ := taken_eq_ok.1 h
    exact .inr ⟨by simp_all, rfl, _, hnext⟩

/-- The option in long form, in the same way. -/
theorem longOption_output {text : List Char} {value : Option String}
    (hsplit : splitValue text = ("output", value))
    (h : longOption verb.form.options given text = .ok (given', pending)) :
    (value = none ∧ given' = given ∧ pending = some .output) ∨
      (pending = none ∧ ∃ path, value = some path ∧ given.add .output path = .ok given') := by
  simp only [longOption, hsplit] at h
  cases hoption : verb.form.options.find? fun form => form.long = "output" with
  | none => rw [hoption] at h; cases h
  | some option =>
      obtain rfl := verb.output_form option (List.mem_of_find?_eq_some hoption)
        (.inr (by simpa using List.find?_some hoption))
      simp only [hoption] at h
      cases value with
      | none => cases h; exact .inl ⟨rfl, rfl, rfl⟩
      | some value =>
          obtain ⟨hnext, rfl⟩ := taken_eq_ok.1 h
          exact .inr ⟨rfl, value, rfl, hnext⟩

/-- A flag before other options in the same argument is read as if it stood by itself, and only
once. -/
theorem joinedOptions_leads {letters : List Char}
    (h : joinedOptions verb.form.options given ('i' :: letters) = .ok (given', pending)) :
    given.leads = false ∧
      joinedOptions verb.form.options given ['i'] = .ok ({ given with leads := true }, none) ∧
      joinedOptions verb.form.options { given with leads := true } letters =
        .ok (given', pending) := by
  unfold joinedOptions at h
  split at h
  · cases h
  next option hoption =>
  obtain rfl := verb.leads_form option (List.mem_of_find?_eq_some hoption)
    (by simpa using List.find?_some hoption)
  obtain ⟨next, hnext, hrest⟩ := Except.exists_ok_of_bind h
  obtain ⟨flag, hraised, hgiven⟩ := Except.exists_ok_of_bind hnext
  obtain ⟨hleads, rfl⟩ := raise_eq_ok.1 hraised
  cases hgiven
  refine ⟨hleads, ?_, hrest⟩
  unfold joinedOptions
  simp only [hoption]
  rw [if_neg (by decide), hnext]
  rfl

/-- The file to write is named, and the rest is read after that. -/
def Names (verb : Verb) (given : Given) (after : List String) (result : Given) : Prop :=
  ∃ path given', given.add .output path = .ok given' ∧
    gather verb.form given' none after = .ok result

/-- A value that is still to come is the next argument. -/
theorem exists_value_of_gather {arguments : List String}
    (h : gather verb.form given (some .output) arguments = .ok result) :
    ∃ path after given', arguments = path :: after ∧ given.add .output path = .ok given' ∧
      gather verb.form given' none after = .ok result := by
  cases arguments with
  | nil => cases h
  | cons path after =>
      unfold gather at h
      rw [if_neg (by simp)] at h
      obtain ⟨⟨next, pending'⟩, hnext, hrest⟩ := Except.exists_ok_of_bind h
      unfold takeArgument at hnext
      simp only at hnext
      split at hnext
      · cases hnext
      obtain ⟨hadd, rfl⟩ := taken_eq_ok.1 hnext
      exact ⟨path, after, _, rfl, hadd, hrest⟩

theorem names_of_pending {path : String} {after : List String}
    (h : gather verb.form given (some .output) (path :: after) = .ok result) :
    Names verb given after result := by
  obtain ⟨_, _, given', harguments, hadd, hrest⟩ := exists_value_of_gather h
  cases harguments
  exact ⟨path, given', hadd, hrest⟩

theorem names_of_joined {path letters : String} {behind after : List String} (hpath : path ≠ "")
    (hform : (letters, behind) ∈ shortForms path)
    (h : joinedOptions verb.form.options given letters.toList = .ok (given', pending))
    (hrest : gather verb.form given' pending (behind ++ after) = .ok result) :
    Names verb given after result := by
  simp only [shortForms, List.mem_cons, Prod.mk.injEq, List.not_mem_nil, or_false] at hform
  obtain ⟨rfl, rfl⟩ | ⟨rfl, rfl⟩ | ⟨rfl, rfl⟩ := hform
  · obtain ⟨-, rfl, rfl⟩ | ⟨hvalue, -⟩ := joinedOptions_output h
    · exact names_of_pending hrest
    · exact absurd rfl hvalue
  · rw [String.toList_append] at h
    obtain ⟨hvalue, -⟩ | ⟨-, rfl, value, hadd⟩ := joinedOptions_output h
    · exact absurd (by simpa using hvalue) hpath
    · exact ⟨value, given', hadd, hrest⟩
  · rw [String.toList_append] at h
    obtain ⟨hvalue, -⟩ | ⟨-, rfl, value, hadd⟩ := joinedOptions_output h
    · simp at hvalue
    · exact ⟨value, given', hadd, hrest⟩

theorem exists_toList_of_shortForms {path letters : String} {behind : List String}
    (h : (letters, behind) ∈ shortForms path) : ∃ value, letters.toList = 'o' :: value := by
  simp only [shortForms, List.mem_cons, Prod.mk.injEq, List.not_mem_nil, or_false] at h
  obtain ⟨rfl, -⟩ | ⟨rfl, -⟩ | ⟨rfl, -⟩ := h
  · exact ⟨[], rfl⟩
  · exact ⟨path.toList, by rw [String.toList_append]; rfl⟩
  · exact ⟨'=' :: path.toList, by rw [String.toList_append]; rfl⟩

/-- An argument that is an option in short form is read as such. -/
theorem exists_joined_of_gather {argument : String} {letter : Char} {letters : List Char}
    {arguments : List String} (hargument : argument.toList = '-' :: letter :: letters)
    (hletter : letter ≠ '-')
    (h : gather form given pending (argument :: arguments) = .ok result) :
    pending = none ∧ ∃ given' pending',
      joinedOptions form.options given (letter :: letters) = .ok (given', pending') ∧
        gather form given' pending' arguments = .ok result := by
  have hhyphens : argument ≠ "--" := by
    rintro rfl
    exact hletter (List.cons.inj (List.cons.inj hargument).2).1.symm
  rw [gather_cons hhyphens] at h
  obtain ⟨⟨given', pending'⟩, htaken, hrest⟩ := Except.exists_ok_of_bind h
  obtain rfl := pending_eq_none (by simp [looksLikeOption, hargument]) htaken
  rw [takeArgument_short hargument hletter] at htaken
  exact ⟨rfl, given', pending', htaken, hrest⟩

theorem exists_long_of_gather {argument : String} {text : List Char} {arguments : List String}
    (hargument : argument.toList = '-' :: '-' :: text) (htext : text ≠ [])
    (h : gather form given pending (argument :: arguments) = .ok result) :
    pending = none ∧ ∃ given' pending',
      longOption form.options given text = .ok (given', pending') ∧
        gather form given' pending' arguments = .ok result := by
  have hhyphens : argument ≠ "--" := by
    rintro rfl
    exact htext (List.cons.inj (List.cons.inj hargument).2).2.symm
  rw [gather_cons hhyphens] at h
  obtain ⟨⟨given', pending'⟩, htaken, hrest⟩ := Except.exists_ok_of_bind h
  obtain rfl := pending_eq_none (by simp [looksLikeOption, hargument]) htaken
  rw [takeArgument_long hargument] at htaken
  exact ⟨rfl, given', pending', htaken, hrest⟩

/-- A command line with the option names the file to write, and otherwise it is read as the one
without. -/
theorem names_of_gather {path : String} {written kept after : List String} (hpath : path ≠ "")
    (hoption : OutputOption path written kept)
    (h : gather verb.form given pending (written ++ after) = .ok result) :
    ∃ given', gather verb.form given pending (kept ++ after) = gather verb.form given' none after ∧
      Names verb given' after result := by
  cases hoption with
  | @short letters behind hform =>
      obtain ⟨value, hletters⟩ := exists_toList_of_shortForms hform
      have hargument : ("-" ++ letters).toList = '-' :: 'o' :: value := by
        rw [String.toList_append, hletters]
        rfl
      obtain ⟨rfl, given', pending', hjoined, hrest⟩ :=
        exists_joined_of_gather hargument (by decide) h
      rw [← hletters] at hjoined
      exact ⟨given, rfl, names_of_joined hpath hform hjoined hrest⟩
  | @joined letters behind hform =>
      have hargument : ("-i" ++ letters).toList = '-' :: 'i' :: letters.toList := by
        rw [String.toList_append]
        rfl
      obtain ⟨rfl, given', pending', hjoined, hrest⟩ :=
        exists_joined_of_gather hargument (by decide) h
      obtain ⟨-, hflag, hletters⟩ := joinedOptions_leads hjoined
      refine ⟨{ given with leads := true }, ?_, names_of_joined hpath hform hletters hrest⟩
      have hkept : ("-i" : String).toList = ['-', 'i'] := rfl
      rw [List.cons_append, gather_cons (by decide), takeArgument_short hkept (by decide), hflag]
      rfl
  | long =>
      have hargument : ("--output" : String).toList = '-' :: '-' :: "output".toList := rfl
      obtain ⟨rfl, given', pending', hlong, hrest⟩ := exists_long_of_gather hargument (by decide) h
      obtain ⟨-, rfl, rfl⟩ | ⟨-, _, hvalue, -⟩ := longOption_output rfl hlong
      · exact ⟨_, rfl, names_of_pending hrest⟩
      · cases hvalue
  | longWithValue =>
      have hargument : ("--output=" ++ path).toList =
          '-' :: '-' :: ("output=".toList ++ path.toList) := by
        rw [String.toList_append]
        rfl
      obtain ⟨rfl, given', pending', hlong, hrest⟩ := exists_long_of_gather hargument (by simp) h
      obtain ⟨hvalue, -⟩ | ⟨rfl, value, -, hadd⟩ := longOption_output rfl hlong
      · cases hvalue
      · exact ⟨given, rfl, value, given', hadd, hrest⟩

/-- Without the option the same is given, but for the file to write. -/
theorem gather_kept {path : String} {written kept after : List String} (hpath : path ≠ "")
    (hoption : OutputOption path written kept)
    (h : gather verb.form given pending (written ++ after) = .ok result) :
    gather verb.form given pending (kept ++ after) = .ok result.withoutOutput := by
  obtain ⟨given', hkept, value, named, hadd, hrest⟩ := names_of_gather hpath hoption h
  obtain ⟨hnone, -, rfl⟩ := Given.add_output_eq_ok.1 hadd
  obtain ⟨-, hplain⟩ := gather_withoutOutput rfl hrest
  have hgiven : given' = { given' with output := none } := by rw [← hnone]
  rw [hkept, hgiven]
  exact hplain

/-! ## Finding the option -/

/-- What joined options say besides the file to write, which comes first or behind one flag. -/
theorem joinedOptions_cases {letters : List Char}
    (h : joinedOptions verb.form.options given letters = .ok (given', pending)) :
    (given'.output = given.output ∧ pending ≠ some .output) ∨
      ∃ value, letters = 'o' :: value ∨ letters = 'i' :: 'o' :: value := by
  induction letters generalizing given with
  | nil => cases h; exact .inl ⟨rfl, by simp⟩
  | cons letter letters ih =>
      by_cases hletter : letter = 'i'
      · obtain rfl := hletter
        obtain ⟨-, -, hrest⟩ := joinedOptions_leads h
        obtain hkept | ⟨value, rfl | rfl⟩ := ih hrest
        · exact .inl hkept
        · exact .inr ⟨value, .inr rfl⟩
        · cases (joinedOptions_leads hrest).1
      · unfold joinedOptions at h
        split at h
        · cases h
        next option hoption =>
        have hmem := List.mem_of_find?_eq_some hoption
        have hshort : option.short = some letter := by simpa using List.find?_some hoption
        by_cases htopic : option.topic = .output
        · obtain rfl := verb.output_topic option hmem htopic
          obtain rfl : 'o' = letter := by simpa using hshort
          exact .inr ⟨letters, .inl rfl⟩
        split at h
        · split at h
          · cases h
            exact .inl ⟨rfl, by simpa using htopic⟩
          all_goals
            obtain ⟨hnext, rfl⟩ := taken_eq_ok.1 h
            exact .inl ⟨Given.add_output_of_ne htopic hnext, by simp⟩
        · next hflag =>
          obtain ⟨next, hnext, -⟩ := Except.exists_ok_of_bind h
          obtain hhelp | hleads :=
            verb.flag_topic option hmem (by simp [hshort]) (by simpa using hflag)
          · rw [hhelp] at hnext
            cases hnext
          · exact absurd (by simpa [hshort] using hleads) hletter

/-- What an option in long form says, if it is not about the file to write. -/
theorem longOption_cases {text : List Char}
    (h : longOption verb.form.options given text = .ok (given', pending)) :
    (given'.output = given.output ∧ pending ≠ some .output) ∨ (splitValue text).1 = "output" := by
  cases hsplit : splitValue text with
  | mk name value =>
      simp only [longOption, hsplit] at h ⊢
      cases hoption : verb.form.options.find? fun form => form.long = name with
      | none => rw [hoption] at h; cases h
      | some option =>
          have hmem := List.mem_of_find?_eq_some hoption
          have hlong : option.long = name := by simpa using List.find?_some hoption
          by_cases htopic : option.topic = .output
          · obtain rfl := verb.output_topic option hmem htopic
            exact .inr hlong.symm
          · simp only [hoption] at h
            left
            split at h
            · obtain ⟨hnext, rfl⟩ := taken_eq_ok.1 h
              exact ⟨Given.add_output_of_ne htopic hnext, by simp⟩
            · cases h
              exact ⟨rfl, by simpa using htopic⟩
            · cases h
            · obtain ⟨hnext, rfl⟩ := taken_eq_ok.1 h
              exact ⟨Given.add_output_of_ne htopic hnext, by simp⟩

/-- A name and its value are what the text is made of. -/
theorem splitValue_eq {text : List Char} {name : String} {value : Option String}
    (h : splitValue text = (name, value)) :
    text = name.toList ++ (value.elim [] fun value => '=' :: value.toList) := by
  simp only [splitValue, List.span_eq_takeWhile_dropWhile] at h
  have hspan := List.takeWhile_append_dropWhile (p := fun c => decide (c ≠ '=')) (l := text)
  have hhead := List.head?_dropWhile_not (fun c => decide (c ≠ '=')) text
  split at h
  · next first rest hrest =>
    cases h
    rw [hrest] at hspan hhead
    obtain rfl : first = '=' := by simpa using hhead
    rw [String.toList_ofList, Option.elim_some, String.toList_ofList]
    exact hspan.symm
  · next hrest =>
    cases h
    rw [hrest] at hspan
    rw [String.toList_ofList]
    exact hspan.symm

/-- The letter of the option, with what is behind it, is the option in one of its short forms. -/
theorem exists_shortForm {value : List Char} {after : List String}
    (hjoined : joinedOptions verb.form.options given ('o' :: value) = .ok (given', pending))
    (h : gather verb.form given' pending after = .ok result) :
    ∃ path letters behind rest, path ≠ "" ∧ (letters, behind) ∈ shortForms path ∧
      letters.toList = 'o' :: value ∧ after = behind ++ rest := by
  obtain ⟨rfl, rfl, rfl⟩ | ⟨hvalue, -⟩ := joinedOptions_output hjoined
  · obtain ⟨path, rest, _, rfl, hadd, -⟩ := exists_value_of_gather h
    exact ⟨path, "o", [path], rest, (Given.add_output_eq_ok.1 hadd).2.1, by simp [shortForms], rfl,
      rfl⟩
  · refine ⟨String.ofList value, "o" ++ String.ofList value, [], after, by simpa using hvalue,
      by simp [shortForms], ?_, rfl⟩
    simp

/-- An argument that says or announces what file to write is an option for it. -/
theorem exists_outputOption_of_take {argument : String} {after : List String}
    (hpending : pending ≠ some .output)
    (htaken : takeArgument verb.form given pending argument = .ok (given', pending'))
    (hchanged : ¬(given'.output = given.output ∧ pending' ≠ some .output))
    (h : gather verb.form given' pending' after = .ok result) :
    ∃ path written kept rest, path ≠ "" ∧ OutputOption path written kept ∧
      argument :: after = written ++ rest := by
  unfold takeArgument at htaken
  split at htaken
  · next topic =>
    split at htaken
    · cases htaken
    obtain ⟨hnext, rfl⟩ := taken_eq_ok.1 htaken
    exact absurd ⟨Given.add_output_of_ne (by simpa using hpending) hnext, by simp⟩ hchanged
  split at htaken
  · next text hargument =>
    obtain hkept | hname := longOption_cases htaken
    · exact absurd hkept hchanged
    have hsplit : splitValue text = ("output", (splitValue text).2) := Prod.ext hname rfl
    have htext := splitValue_eq hsplit
    obtain ⟨hvalue, rfl, rfl⟩ | ⟨-, path, hvalue, hadd⟩ := longOption_output hsplit htaken
    · obtain ⟨path, rest, _, rfl, hadd, -⟩ := exists_value_of_gather h
      obtain rfl : argument = "--output" := by
        rw [← String.toList_inj, hargument, htext, hvalue]
        rfl
      exact ⟨path, _, _, rest, (Given.add_output_eq_ok.1 hadd).2.1, .long, rfl⟩
    · obtain rfl : argument = "--output=" ++ path := by
        rw [← String.toList_inj, hargument, htext, hvalue, String.toList_append]
        rfl
      exact ⟨path, _, _, after, (Given.add_output_eq_ok.1 hadd).2.1, .longWithValue, rfl⟩
  · next letter letters hargument =>
    obtain hkept | ⟨value, hletters | hletters⟩ := joinedOptions_cases htaken
    · exact absurd hkept hchanged
    · rw [hletters] at htaken hargument
      obtain ⟨path, letters, behind, rest, hpath, hform, htext, rfl⟩ := exists_shortForm htaken h
      obtain rfl : argument = "-" ++ letters := by
        rw [← String.toList_inj, hargument, String.toList_append, htext]
        rfl
      exact ⟨path, _, _, rest, hpath, .short hform, rfl⟩
    · rw [hletters] at htaken hargument
      obtain ⟨-, -, hjoined⟩ := joinedOptions_leads htaken
      obtain ⟨path, letters, behind, rest, hpath, hform, htext, rfl⟩ := exists_shortForm hjoined h
      obtain rfl : argument = "-i" ++ letters := by
        rw [← String.toList_inj, hargument, String.toList_append, htext]
        rfl
      exact ⟨path, _, _, rest, hpath, .joined hform, rfl⟩
  · obtain ⟨hnext, rfl⟩ := taken_eq_ok.1 htaken
    exact absurd ⟨(Given.addOperand_withoutOutput hnext).1, by simp⟩ hchanged

/-- A file to write is named by an option, before any two hyphens. -/
theorem exists_outputOption_of_gather {arguments : List String} (hpending : pending ≠ some .output)
    (hgiven : given.output = none)
    (h : gather verb.form given pending arguments = .ok result) (houtput : result.output.isSome) :
    ∃ before after path written kept, "--" ∉ before ∧ path ≠ "" ∧
      OutputOption path written kept ∧ arguments = before ++ written ++ after := by
  induction arguments generalizing given pending with
  | nil =>
      unfold gather at h
      split at h
      · cases h
      · cases h
        simp [hgiven] at houtput
  | cons argument arguments ih =>
      unfold gather at h
      split at h
      · rw [(foldlM_addOperand_withoutOutput h).1, hgiven] at houtput
        cases houtput
      next hhyphens =>
      obtain ⟨⟨given', pending'⟩, htaken, hrest⟩ := Except.exists_ok_of_bind h
      by_cases hkept : given'.output = given.output ∧ pending' ≠ some .output
      · obtain ⟨before, after, path, written, kept, hbefore, hpath, hoption, rfl⟩ :=
          ih hkept.2 (hkept.1.trans hgiven) hrest
        have hargument : "--" ≠ argument := by
          rintro rfl
          exact hhyphens (by simp [pending_eq_none rfl htaken])
        exact ⟨argument :: before, after, path, written, kept,
          by simp [hargument, hbefore], hpath, hoption, rfl⟩
      · obtain ⟨path, written, kept, rest, hpath, hoption, harguments⟩ :=
          exists_outputOption_of_take hpending htaken hkept hrest
        exact ⟨[], rest, path, written, kept, List.not_mem_nil, hpath, hoption, harguments⟩

/-! ## Command lines -/

theorem Given.showing_withoutOutput {view view' : View} {input : Input} {output : Output}
    (h : given.showing view = .ok (.show view' input output)) :
    output.path = given.output ∧
      given.withoutOutput.showing view = .ok (.show view' input { output with path := none }) := by
  obtain ⟨input', hinput, h⟩ := Except.exists_ok_of_bind h
  obtain ⟨output', houtput, h⟩ := Except.exists_ok_of_bind h
  cases h
  unfold destined at houtput
  split at houtput
  · cases houtput
  next hcompact =>
  cases houtput
  have hinput' : given.withoutOutput.input = .ok input := hinput
  have houtput' : given.withoutOutput.destined =
      .ok { path := none, json := given.json, compact := given.compact } := if_neg hcompact
  rw [showing, hinput', houtput']
  exact ⟨rfl, rfl⟩

theorem Verb.request_withoutOutput {view : View} {input : Input} {output : Output}
    (h : verb.request given = .ok (.show view input output)) :
    output.path = given.output ∧
      verb.request given.withoutOutput = .ok (.show view input { output with path := none }) := by
  cases verb with
  | tree | flatten => exact Given.showing_withoutOutput h
  | level =>
      obtain ⟨wanted, hwanted, hshowing⟩ := Except.exists_ok_of_bind h
      have hwanted' : orMisused given.withoutOutput.level = .ok wanted := hwanted
      rw [request, hwanted']
      exact Given.showing_withoutOutput hshowing
  | info =>
      obtain ⟨input', -, h⟩ := Except.exists_ok_of_bind h
      cases h
  | version | help => cases h

/-- A command line that makes a request begins with a word for it, and the rest is gathered. -/
theorem exists_of_ofArguments {arguments : List String} {request : Request}
    (h : Request.ofArguments arguments = .ok request) :
    ∃ word rest verb, arguments = word :: rest ∧ Verb.ofWord? word = some verb ∧
      ∀ rest', Request.ofArguments (word :: rest') =
        (gather verb.form {} none rest' >>= fun given => verb.request given) := by
  cases arguments with
  | nil => cases h
  | cons word rest =>
      cases habout : Request.aboutProgram word with
      | some refusal => simp [Request.ofArguments, habout] at h
      | none =>
          have hcommand (rest' : List String) :
              Request.ofArguments (word :: rest') = Request.ofCommand word rest' := by
            simp only [Request.ofArguments, habout]
          rw [hcommand] at h
          obtain ⟨verb, hverb, hrequest⟩ := Except.exists_ok_of_bind h
          have hword : Verb.ofWord? word = some verb := by
            cases hfound : Verb.ofWord? word with
            | none => rw [hfound] at hverb; cases hverb
            | some found => rw [hfound] at hverb; cases hverb; rfl
          refine ⟨word, rest, verb, rfl, hword, fun rest' => ?_⟩
          rw [hcommand, Request.ofCommand, hverb]
          cases verb with
          | help => cases hrequest
          | tree | flatten | level | info | version => rfl

/-- The option for a file is no word for anything. -/
theorem ofWord?_of_hyphen {word : String} {letters : List Char} (h : word.toList = '-' :: letters) :
    Verb.ofWord? word = none := by
  refine List.find?_eq_none.2 fun verb _ => ?_
  simp only [decide_eq_true_eq]
  rintro rfl
  cases verb <;> exact absurd (List.cons.inj h).1 (by decide)

/-- Arguments are taken apart so that the file to write is an option of its own. -/
theorem parsesOutput_ofArguments : ParsesOutput Request.ofArguments where
  withoutOutput := by
    rintro _ _ view input output
      ⟨before, after, path, written, kept, hhyphens, hpath, hoption, rfl, rfl⟩ h
    obtain ⟨word, rest, verb, harguments, hword, hgathered⟩ := exists_of_ofArguments h
    cases before with
    | nil =>
        obtain ⟨letters, hletters⟩ : ∃ letters, word.toList = '-' :: letters := by
          cases hoption with
          | long =>
              obtain ⟨rfl, -⟩ := List.cons.inj harguments
              exact ⟨_, rfl⟩
          | short | joined | longWithValue =>
              obtain ⟨rfl, -⟩ := List.cons.inj harguments
              rw [String.toList_append]
              exact ⟨_, rfl⟩
        rw [ofWord?_of_hyphen hletters] at hword
        cases hword
    | cons first before =>
        obtain ⟨rfl, -⟩ := List.cons.inj harguments
        have hbefore : "--" ∉ before := fun hmem => hhyphens (List.mem_cons_of_mem first hmem)
        rw [List.append_assoc, List.cons_append, hgathered] at h
        obtain ⟨given, hgiven, hrequest⟩ := Except.exists_ok_of_bind h
        obtain ⟨_, _, hreads⟩ := gather_append hbefore hgiven
        rw [hreads] at hgiven
        have hplain := gather_kept hpath hoption hgiven
        rw [← hreads] at hplain
        rw [List.append_assoc, List.cons_append, hgathered, hplain]
        exact (Verb.request_withoutOutput hrequest).2
  exists_withoutOutput h houtput := by
    obtain ⟨word, rest, verb, rfl, hword, hgathered⟩ := exists_of_ofArguments h
    rw [hgathered] at h
    obtain ⟨given, hgiven, hrequest⟩ := Except.exists_ok_of_bind h
    rw [(Verb.request_withoutOutput hrequest).1] at houtput
    obtain ⟨before, after, path, written, kept, hbefore, hpath, hoption, rfl⟩ :=
      exists_outputOption_of_gather (by simp) rfl hgiven houtput
    have hhyphens : "--" ≠ word := by
      rintro rfl
      cases (ofWord?_of_hyphen rfl).symm.trans hword
    exact ⟨_, word :: before, after, path, written, kept, by simp [hhyphens, hbefore], hpath,
      hoption, rfl, rfl⟩

end Bookmarks.Command
