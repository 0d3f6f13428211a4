/-
# Arguments

The command line is a word for what to do, followed by options and the file to do it to. An option
has a long name and may have a short one; short options without values can be joined into one
argument. A value stands behind an equals sign, directly behind a short option, or in the next
argument, which must not look like an option itself. Behind two hyphens there are no more options.

`Request.ofArguments` takes a command line apart. Nothing is done unless all of it is sound.
-/
import Bookmarks.Command.Request
import Bookmarks.Json.Basic

namespace Bookmarks.Command

/-! ## Numbers and paths -/

/-- The number that decimal digits stand for, of which there has to be one. -/
def digits? (text : List Char) : Option Nat :=
  if text.isEmpty || !text.all Char.isDigit then none else some (Numeral.valueOf text)

/-- An unsigned 64-bit number, which may have a plus sign. -/
def unsigned? (text : String) : Option Nat := do
  let value ← match text.toList with
    | '+' :: digits => digits? digits
    | digits => digits? digits
  if value < Nat.pow 2 64 then some value else none

/-- A signed 32-bit number. -/
def signed? (text : String) : Option Int := do
  let value : Int ← match text.toList with
    | '-' :: digits => (digits? digits).map fun n => -(n : Int)
    | '+' :: digits => (digits? digits).map Int.ofNat
    | digits => (digits? digits).map Int.ofNat
  if -(Nat.pow 2 31 : Int) ≤ value ∧ value < Nat.pow 2 31 then some value else none

/-- A path, which is never empty. -/
def path? (text : String) : Option String :=
  if text.isEmpty then none else some text

/-! ## Options -/

/-- What an option is about. -/
inductive Topic where
  | help
  | lenient
  | maxDepth
  | output
  | json
  | compact
  | level
  | leads
  deriving DecidableEq, Repr

/-- How an option is written. -/
structure OptionForm where
  topic : Topic
  long : String
  short : Option Char
  takesValue : Bool
  deriving DecidableEq, Repr

/-- How the arguments of a command are written. -/
structure CommandForm where
  options : List OptionForm
  /-- A file has to be named. -/
  takesFile : Bool
  deriving DecidableEq, Repr

/-- The option that every command has. -/
def helpOption : OptionForm := ⟨.help, "help", some 'h', false⟩

/-- The options on how to read a file. -/
def inputOptions : List OptionForm :=
  [⟨.lenient, "lenient", none, false⟩, ⟨.maxDepth, "max-depth", none, true⟩]

/-- The options on what becomes of the result. -/
def outputOptions : List OptionForm :=
  [⟨.output, "output", some 'o', true⟩, ⟨.json, "json", none, false⟩,
    ⟨.compact, "compact", none, false⟩]

/-- The options on the level to show. -/
def levelOptions : List OptionForm :=
  [⟨.level, "level", some 'l', true⟩, ⟨.leads, "inter-level-text", some 'i', false⟩]

/-- What the arguments of a command say. -/
structure Given where
  lenient : Bool := false
  maxDepth : Option Nat := none
  output : Option String := none
  json : Bool := false
  compact : Bool := false
  level : Option Int := none
  leads : Bool := false
  /-- The file to read. -/
  path : Option String := none
  deriving DecidableEq, Repr

/-- What is there, or a refusal. -/
def orMisused {α : Type} : Option α → Except Refusal α
  | some value => .ok value
  | none => .error .misused

/-- Raise a flag, which must not be up yet. -/
def raise (flag : Bool) : Except Refusal Bool :=
  if flag then .error .misused else .ok true

/-- Fill a place, which must not be taken yet, with a value that is sound. -/
def fill {α : Type} (place value : Option α) : Except Refusal (Option α) :=
  if place.isSome then .error .misused else (orMisused value).map some

namespace Given

/-- One more option with its value; an option that takes none does not look at it. -/
def add (given : Given) (topic : Topic) (value : String) : Except Refusal Given := do
  match topic with
  | .help => .error .helpAsked
  | .lenient => return { given with lenient := ← raise given.lenient }
  | .maxDepth => return { given with maxDepth := ← fill given.maxDepth (unsigned? value) }
  | .output => return { given with output := ← fill given.output (path? value) }
  | .json => return { given with json := ← raise given.json }
  | .compact => return { given with compact := ← raise given.compact }
  | .level => return { given with level := ← fill given.level (signed? value) }
  | .leads => return { given with leads := ← raise given.leads }

/-- An argument that is no option: the file, if the command takes one. -/
def addOperand (form : CommandForm) (given : Given) (operand : String) : Except Refusal Given := do
  if form.takesFile then return { given with path := ← fill given.path (path? operand) }
  else .error .misused

end Given

/-- An argument that begins with a hyphen but is not one stands for an option. -/
def looksLikeOption (argument : String) : Bool :=
  match argument.toList with
  | '-' :: _ :: _ => true
  | _ => false

/-- A name and, behind an equals sign, a value. -/
def splitValue (text : List Char) : String × Option String :=
  let (name, rest) := text.span (· ≠ '=')
  match rest with
  | _ :: value => (String.ofList name, some (String.ofList value))
  | [] => (String.ofList name, none)

/-- An option in short form whose value is to come, if there is one, after those before it. -/
def joinedOptions (forms : List OptionForm) (given : Given) :
    List Char → Except Refusal (Given × Option Topic)
  | [] => .ok (given, none)
  | letter :: rest =>
      match forms.find? fun form => form.short = some letter with
      | none => .error .misused
      | some form =>
          if form.takesValue then
            match rest with
            | [] => .ok (given, some form.topic)
            | '=' :: value => do
                return (← given.add form.topic (String.ofList value), none)
            | value => do
                return (← given.add form.topic (String.ofList value), none)
          else do
            joinedOptions forms (← given.add form.topic "") rest

/-- An option in long form, which may have a value with it. -/
def longOption (forms : List OptionForm) (given : Given) (text : List Char) :
    Except Refusal (Given × Option Topic) :=
  let (name, value) := splitValue text
  match forms.find? fun form => form.long = name with
  | none => .error .misused
  | some form =>
      match form.takesValue, value with
      | true, some value => do return (← given.add form.topic value, none)
      | true, none => .ok (given, some form.topic)
      | false, some _ => .error .misused
      | false, none => do return (← given.add form.topic "", none)

/-- Take one argument. `pending` is an option whose value is to come next. -/
def takeArgument (form : CommandForm) (given : Given) (pending : Option Topic)
    (argument : String) : Except Refusal (Given × Option Topic) :=
  match pending with
  | some topic =>
      if looksLikeOption argument then .error .misused
      else do return (← given.add topic argument, none)
  | none =>
      match argument.toList with
      | '-' :: '-' :: text => longOption form.options given text
      | '-' :: letter :: letters => joinedOptions form.options given (letter :: letters)
      | _ => do return (← given.addOperand form argument, none)

/-- Take arguments apart, one after another. -/
def gather (form : CommandForm) (given : Given) (pending : Option Topic) :
    List String → Except Refusal Given
  | [] => if pending.isSome then .error .misused else .ok given
  | argument :: rest =>
      if pending.isNone && argument = "--" then rest.foldlM (Given.addOperand form) given
      else do
        let (given, pending) ← takeArgument form given pending argument
        gather form given pending rest

namespace Given

variable (given : Given)

/-- The file to read, and how to read it. -/
def input : Except Refusal Input := do
  return {
    path := ← orMisused given.path
    lenient := given.lenient
    maxDepth := given.maxDepth.getD defaultDepthLimit }

/-- What becomes of the result. A compact layout is one of JSON only. -/
def destined : Except Refusal Output :=
  if given.compact && !given.json then .error .misused
  else .ok { path := given.output, json := given.json, compact := given.compact }

/-- A request to show something. -/
def showing (view : View) : Except Refusal Request := do
  return .show view (← given.input) (← given.destined)

end Given

/-! ## Commands -/

/-- What the program can be told to do. -/
inductive Verb where
  | tree
  | flatten
  | level
  | info
  | version
  | help
  deriving DecidableEq, Repr

namespace Verb

/-- Everything that the program can be told to do. -/
def all : List Verb :=
  [.tree, .flatten, .level, .info, .version, .help]

/-- The word for it. -/
def word : Verb → String
  | .tree => "tree"
  | .flatten => "flatten"
  | .level => "level"
  | .info => "info"
  | .version => "version"
  | .help => "help"

/-- What a word stands for. -/
def ofWord? (word : String) : Option Verb :=
  all.find? fun verb => verb.word = word

/-- How its arguments are written. -/
def form : Verb → CommandForm
  | .tree | .flatten => ⟨helpOption :: inputOptions ++ outputOptions, true⟩
  | .level => ⟨helpOption :: inputOptions ++ outputOptions ++ levelOptions, true⟩
  | .info => ⟨helpOption :: inputOptions, true⟩
  | .version | .help => ⟨[helpOption], false⟩

/-- The request that it makes with what is given. -/
def request (given : Given) : Verb → Except Refusal Request
  | .tree => given.showing .tree
  | .flatten => given.showing .flat
  | .level => do given.showing (.level (← orMisused given.level) given.leads)
  | .info => do return .info (← given.input)
  | .version => .ok .version
  | .help => .error .helpAsked

end Verb

namespace Request

/-- The answer to a call for help, which may name what it is about. -/
def helpOn : List String → Refusal
  | [] => .helpAsked
  | [word] => if (Verb.ofWord? word).isSome then .helpAsked else .misused
  | _ => .misused

/-- The request of a word and the arguments after it. -/
def ofCommand (word : String) (arguments : List String) : Except Refusal Request := do
  match ← orMisused (Verb.ofWord? word) with
  | .help => .error (helpOn arguments)
  | verb => verb.request (← gather verb.form {} none arguments)

/-- The answer to a first argument that asks about the program itself. -/
def aboutProgram (argument : String) : Option Refusal :=
  match argument.toList with
  | ['-', '-', 'v', 'e', 'r', 's', 'i', 'o', 'n'] => some .versionAsked
  | '-' :: 'V' :: _ => some .versionAsked
  | ['-', '-', 'h', 'e', 'l', 'p'] => some .helpAsked
  | '-' :: 'h' :: _ => some .helpAsked
  | _ => none

/-- The request of a command line. -/
def ofArguments : List String → Except Refusal Request
  | [] => .error .misused
  | argument :: rest =>
      match aboutProgram argument with
      | some refusal => .error refusal
      | none => ofCommand argument rest

end Request

end Bookmarks.Command
