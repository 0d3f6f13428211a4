/-
# Runs that fail, and runs that write a file

A run of the program does all of what it was asked to, or it prints nothing and leaves every file as
it is. A run that hands its text to a file leaves there, byte for byte, what the same command prints
without a file, but for the newline at its end, and it changes no other file
(`World.Serves.run_allOrNothing`). This rests on what the calls of the program do in a world, and on
how command lines name the file to write, but not on how documents are loaded or texts coloured.
-/
import Bookmarks.Command.Run
import Bookmarks.Command.Standard
import Bookmarks.Proofs.Command.Arguments

namespace Bookmarks.Command

namespace World

variable {world next after : World}

/-- Calls that do in a world what they are for. The file system may refuse to read or write for
reasons of its own. What is read depends on the directory alone and changes nothing; neither does a
writing that is refused. -/
structure Serves (system : System (StateM World)) : Prop where
  read : ∀ path directory, ∃ answer, ∀ world : World, world.directory = directory →
    (system.read path).run world = (answer, world)
  write : ∀ path text (world : World),
    (∃ detail, (system.write path text).run world = (.error detail, world)) ∨
      ∃ directory, world.directory.write path (Utf8.encode text) = .ok directory ∧
        (system.write path text).run world = (.ok (), { world with directory := directory })
  print : ∀ line world, (system.print line).run world = ((), world.printing line)
  report : ∀ line world, (system.report line).run world = ((), world.reporting line)

theorem run_write (path text : String) :
    (system.write path text).run world =
      match world.directory.write path (Utf8.encode text) with
      | .ok directory => (.ok (), { world with directory := directory })
      | .error fault => (.error fault.message, world) := by
  change StateT.run (match world.directory.write path (Utf8.encode text) with
    | .ok directory => _
    | .error fault => _) world = _
  cases world.directory.write path (Utf8.encode text) <;> rfl

theorem serves_system : Serves system where
  read path directory :=
    ⟨(directory.read path).mapError PathFault.message, by rintro world rfl; rfl⟩
  write path text world := by
    rw [run_write]
    cases world.directory.write path (Utf8.encode text) with
    | ok directory => exact .inr ⟨directory, rfl, rfl⟩
    | error fault => exact .inl ⟨fault.message, rfl⟩
  print _ _ := rfl
  report _ _ := rfl

end World

/-! ## Steps in a world -/

section Steps

variable {α β : Type} {world next : World} {x : ExceptT String (StateM World) α}
  {f : α → ExceptT String (StateM World) β} {reason : String}

/-- After a step that succeeds, the steps behind it begin in what it leaves. -/
theorem run_bind_of_ok {a : α} (h : x.run.run world = (.ok a, next)) :
    (x >>= f).run.run world = (f a).run.run next := by
  rw [ExceptT.run_bind, StateT.run_bind, h]
  rfl

/-- A step that fails is the last one. -/
theorem run_bind_of_error (h : x.run.run world = (.error reason, next)) :
    (x >>= f).run.run world = (.error reason, next) := by
  rw [ExceptT.run_bind, StateT.run_bind, h]
  rfl

theorem run_readContents (input : Input) (document : Pdf.Document) (world : World) :
    (readContents (m := StateM World) input document).run.run world =
      ((document.readContents input.settings).result.mapError Fault.message, world) := rfl

theorem carryOut_of_ok {toolkit : Toolkit} {system : System (StateM World)} {request : Request}
    (hrun : (perform toolkit system request).run.run world = (.ok (), next)) :
    (carryOut toolkit system request).run world = (0, next) := by
  rw [carryOut, StateT.run_bind, hrun]
  rfl

end Steps

namespace World.Serves

variable {toolkit : Toolkit} {system : System (StateM World)} (h : Serves system)
  {world after : World} {request : Request} {view : View} {input : Input} {output : Output}
include h

/-- Opening a file changes nothing, and what comes of it depends on the directory alone. -/
theorem exists_opened (toolkit : Toolkit) (input : Input) (directory : Directory) :
    ∃ opened, ∀ paint (world : World), world.directory = directory →
      (openInput { toolkit with paint := paint } system input).run.run world = (opened, world) := by
  obtain ⟨answer, hread⟩ := h.read input.path directory
  refine ⟨(Pdf.Document.ofRead toolkit.load answer).mapError Fault.message, ?_⟩
  intro paint world hworld
  have hlift : (ExceptT.lift (ε := String) (system.read input.path)).run.run world =
      (.ok answer, world) := by
    rw [ExceptT.run_lift, StateT.run_map, hread world hworld]
    rfl
  exact run_bind_of_ok hlift

/-- What a request shows, or why it shows nothing, is the same wherever the text is to go. -/
theorem exists_shown (toolkit : Toolkit) (view : View) (input : Input) (format : Format)
    (directory : Directory) :
    ∃ shown : Except String String, ∀ paint output (world : World), world.directory = directory →
      output.format = format →
      (perform { toolkit with paint := paint } system (.show view input output)).run.run world =
        match shown with
        | .ok text =>
            (deliver { toolkit with paint := paint } system text output.path).run.run world
        | .error reason => (.error reason, world) := by
  obtain ⟨opened, hopened⟩ := h.exists_opened toolkit input directory
  cases opened with
  | error reason =>
      exact ⟨.error reason, fun paint output world hworld _ =>
        run_bind_of_error (hopened paint world hworld)⟩
  | ok document =>
      have hread := run_readContents input document
      cases hcontents : (document.readContents input.settings).result.mapError Fault.message with
      | error reason =>
          simp only [hcontents] at hread
          exact ⟨.error reason, fun paint output world hworld _ =>
            (run_bind_of_ok (hopened paint world hworld)).trans (run_bind_of_error (hread world))⟩
      | ok contents =>
          simp only [hcontents] at hread
          refine ⟨.ok (view.render format contents), ?_⟩
          rintro paint output world hworld rfl
          exact (run_bind_of_ok (hopened paint world hworld)).trans (run_bind_of_ok (hread world))

theorem run_print (line : String) :
    (ExceptT.lift (ε := String) (system.print line)).run.run world =
      (.ok (), world.printing line) := by
  rw [ExceptT.run_lift, StateT.run_map, h.print]
  rfl

theorem deliver_none (text : String) :
    (deliver toolkit system text none).run.run world = (.ok (), world.printing text) :=
  h.run_print text

/-- A text is handed to a file, or the file is refused and all stays as it is. -/
theorem deliver_some (text path : String) :
    (∃ reason, (deliver toolkit system text (some path)).run.run world = (.error reason, world)) ∨
      ∃ directory, world.directory.write path (Utf8.encode text) = .ok directory ∧
        (deliver toolkit system text (some path)).run.run world =
          (.ok (), { world with directory := directory }.printing
            (toolkit.paint .green "Saved to" ++ " " ++ path)) := by
  obtain ⟨detail, hwrite⟩ | ⟨directory, hdirectory, hwrite⟩ := h.write path text world
  · exact .inl ⟨detail, run_bind_of_error hwrite⟩
  · exact .inr ⟨directory, hdirectory, (run_bind_of_ok hwrite).trans (h.run_print _)⟩

theorem run_printLines (lines : List String) :
    (printLines system lines).run.run world = (.ok (), lines.foldl World.printing world) := by
  have hlines : (lines.forM system.print).run world = ((), lines.foldl World.printing world) := by
    induction lines generalizing world with
    | nil => rfl
    | cons line lines ih =>
        change StateT.run (system.print line >>= fun _ => lines.forM system.print) world = _
        rw [StateT.run_bind, h.print]
        exact ih
  rw [printLines, ExceptT.run_lift, StateT.run_map, hlines]
  rfl

/-! ## Requests -/

/-- A request that fails has printed nothing and left every file as it is. -/
theorem eq_of_perform_error {reason : String}
    (hrun : (perform toolkit system request).run.run world = (.error reason, after)) :
    after = world := by
  cases request with
  | «show» view input output =>
      obtain ⟨shown, hshown⟩ := h.exists_shown toolkit view input output.format world.directory
      have hshown := hshown toolkit.paint output world rfl rfl
      cases shown with
      | error reason => cases hshown.symm.trans hrun; rfl
      | ok text =>
          replace hrun := hshown.symm.trans hrun
          cases hpath : output.path with
          | none =>
              rw [hpath] at hrun
              cases (h.deliver_none text).symm.trans hrun
          | some path =>
              rw [hpath] at hrun
              obtain ⟨detail, hwrite⟩ | ⟨directory, -, hwrite⟩ := h.deliver_some text path
              · cases hwrite.symm.trans hrun
                rfl
              · cases hwrite.symm.trans hrun
  | info input =>
      obtain ⟨opened, hopened⟩ := h.exists_opened toolkit input world.directory
      have hopened := hopened toolkit.paint world rfl
      cases opened with
      | error reason => cases (run_bind_of_error hopened).symm.trans hrun; rfl
      | ok document =>
          replace hrun := (run_bind_of_ok hopened).symm.trans hrun
          have hread := run_readContents input document world
          cases hcontents :
            (document.readContents input.settings).result.mapError Fault.message with
          | error reason =>
              rw [hcontents] at hread
              cases (run_bind_of_error hread).symm.trans hrun
              rfl
          | ok contents =>
              -- From here on nothing fails.
              rw [hcontents] at hread
              replace hrun := (run_bind_of_ok hread).symm.trans hrun
              replace hrun := (run_bind_of_ok (h.run_printLines _)).symm.trans hrun
              replace hrun := (run_bind_of_ok (h.run_print "")).symm.trans hrun
              cases (h.run_printLines _).symm.trans hrun
  | version => cases (h.run_printLines _).symm.trans hrun

/-- A request that succeeds and has a file for its text writes what is shown without one, in any
colours and after anything that was printed before. -/
theorem exists_saved {path : String} (hpath : output.path = some path)
    (hrun : (perform toolkit system (.show view input output)).run.run world = (.ok (), after)) :
    ∃ text, world.directory.write path (Utf8.encode text) = .ok after.directory ∧
      ∀ paint (world' : World), world'.directory = world.directory →
        (perform { toolkit with paint := paint } system
          (.show view input { output with path := none })).run.run world' =
            (.ok (), world'.printing text) := by
  obtain ⟨shown, hshown⟩ := h.exists_shown toolkit view input output.format world.directory
  replace hrun := (hshown toolkit.paint output world rfl rfl).symm.trans hrun
  cases shown with
  | error reason => cases hrun
  | ok text =>
      rw [hpath] at hrun
      obtain ⟨detail, hwrite⟩ | ⟨directory, hdirectory, hwrite⟩ := h.deliver_some text path
      · cases hwrite.symm.trans hrun
      · cases hwrite.symm.trans hrun
        exact ⟨text, hdirectory, fun paint world' hworld =>
          (hshown paint { output with path := none } world' hworld rfl).trans (h.deliver_none text)⟩

theorem carryOut_of_error {reason : String}
    (hrun : (perform toolkit system request).run.run world = (.error reason, after)) :
    (carryOut toolkit system request).run world =
      (1, after.reporting (toolkit.paint .boldRed "Error" ++ ": " ++ reason)) := by
  rw [carryOut, StateT.run_bind, hrun]
  change StateT.run (system.report _ >>= fun _ => pure 1) after = _
  rw [StateT.run_bind, h.report]
  rfl

/-- An accepted command line ends with zero or one. A run that ends with one has printed nothing and
left every file as it was. A run that was to save what it shows and ends with zero leaves a file, at
the place that the path leads to, which is read there as some text; all other files are as they
were. The file may well be the one that was read. The command can be given without the option for
the file, and then it prints just that text and a newline, in any world with the same directory. -/
theorem run_allOrNothing (hparse : ParsesOutput toolkit.parse) {arguments : List String}
    {exitCode : Nat} (hrequest : toolkit.parse arguments = .ok request)
    (hrun : (run toolkit system arguments).run world = (exitCode, after)) :
    (exitCode = 0 ∨ exitCode = 1) ∧
      (exitCode = 1 → after.output = world.output ∧ after.directory = world.directory) ∧
      ∀ {view input output path}, request = .show view input output → output.path = some path →
        exitCode = 0 →
        ∃ text place, world.directory.locate path = .ok place ∧
          after.directory.read path = .ok (Utf8.encode text) ∧
          after.directory.get? place = some (Utf8.encode text) ∧
          (∀ other, other ≠ place → after.directory.get? other = world.directory.get? other) ∧
          (∃ plain, WithoutOutput arguments plain) ∧
          ∀ plain, WithoutOutput arguments plain →
            ∀ paint (world' : World), world'.directory = world.directory →
              (run { toolkit with paint := paint } system plain).run world' =
                (0, world'.printing text) := by
  rw [run, hrequest] at hrun
  cases hdone : (perform toolkit system request).run.run world with
  | mk answer next =>
  cases answer with
  | error reason =>
      cases (h.carryOut_of_error hdone).symm.trans hrun
      obtain rfl := h.eq_of_perform_error hdone
      exact ⟨.inr rfl, fun _ => ⟨rfl, rfl⟩, fun _ _ => nofun⟩
  | ok done =>
      cases (carryOut_of_ok hdone).symm.trans hrun
      refine ⟨.inl rfl, nofun, ?_⟩
      rintro view input output path rfl hpath -
      obtain ⟨text, hwrite, hplain⟩ := h.exists_saved hpath hdone
      obtain ⟨place, hplace, hafter⟩ := Directory.eq_put_of_write hwrite
      refine ⟨text, place, hplace, Directory.read_of_write hwrite, ?_, ?_,
        hparse.exists_withoutOutput hrequest (hpath ▸ rfl), ?_⟩
      · rw [hafter, Directory.get?_put_self]
      · intro other hother
        rw [hafter, Directory.get?_put_of_ne hother]
      · intro plain hplainLine paint world' hworld
        rw [run]
        simp only [hparse.withoutOutput hplainLine hrequest]
        exact carryOut_of_ok (hplain paint world' hworld)

end World.Serves

/-- A document with one bookmark, and something else. -/
def desk : World where
  directory := .ofFiles [
    ("booklet.pdf", Utf8.encode
      ("%PDF-1.4\n1 0 obj<</Outlines 2 0 R>>endobj\n2 0 obj<</First 3 0 R>>endobj\n" ++
        "3 0 obj<</Title(Note)>>endobj\nxref\n0 4\n0000000000 65535 f \n0000000009 00000 n \n" ++
        "0000000042 00000 n \n0000000072 00000 n \ntrailer<</Size 4/Root 1 0 R>>\n" ++
        "startxref\n102\n%%EOF")),
    ("letter.txt", Utf8.encode "Dear reader")]

/-- A listing of the booklet, to be put in its own place. -/
def saveListing : List String := ["tree", "booklet.pdf", "-o", "booklet.pdf"]

/-- A listing of a file that is not there. -/
def listMissing : List String := ["flatten", "pamphlet.pdf", "--json", "-o", "letter.txt"]

/-- What the booklet's listing says. -/
def bookletListing : String :=
  " -1) root [1,0], children = 1, pos = 0\n 0) Note [-1,0], children = 0, pos = 0"

/-- The booklet gives way to its listing, which is what would be printed, and the letter stays. What
cannot be listed changes nothing. -/
theorem allOrNothing_desk :
    World.Serves World.system ∧ ParsesOutput (Toolkit.standard false).parse ∧
      (∃ after, (run (Toolkit.standard false) World.system saveListing).run desk = (0, after) ∧
        after.directory.read "booklet.pdf" = .ok (Utf8.encode bookletListing) ∧
        after.directory.get? ⟨some 0, ["letter.txt"]⟩ = some (Utf8.encode "Dear reader")) ∧
      (run (Toolkit.standard true) World.system ["tree", "booklet.pdf"]).run desk =
        (0, { desk with output := bookletListing ++ "\n" }) ∧
      ∃ after, (run (Toolkit.standard false) World.system listMissing).run desk = (1, after) ∧
        after.output = "" ∧ after.directory = desk.directory := by
  have hprinted : (run (Toolkit.standard true) World.system ["tree", "booklet.pdf"]).run desk =
      (0, { desk with output := bookletListing ++ "\n" }) := by
    change @Eq (Nat × World) _ _
    decide +kernel
  refine ⟨World.serves_system, parsesOutput_ofArguments, ?_, hprinted, ?_⟩
  · have hrequest : (Toolkit.standard false).parse saveListing =
        .ok (.show .tree { path := "booklet.pdf" } { path := some "booklet.pdf" }) := rfl
    have hexit : ((run (Toolkit.standard false) World.system saveListing).run desk).1 = 0 := by
      decide +kernel
    generalize hrun : (run (Toolkit.standard false) World.system saveListing).run desk = result
      at hexit
    obtain ⟨exitCode, after⟩ := result
    obtain rfl : exitCode = 0 := hexit
    obtain ⟨-, -, hsaved⟩ :=
      World.serves_system.run_allOrNothing parsesOutput_ofArguments hrequest hrun
    obtain ⟨text, place, hplace, hread, -, hothers, -, hplain⟩ := hsaved rfl rfl rfl
    have hwithout : WithoutOutput saveListing ["tree", "booklet.pdf"] :=
      ⟨["tree", "booklet.pdf"], [], "booklet.pdf", _, _, by decide, by decide,
        .short List.mem_cons_self, rfl, rfl⟩
    -- What is printed without the file is known, and so is what stands in it.
    obtain rfl : text = bookletListing := by
      have hsame := (hplain _ hwithout ((Toolkit.standard true).paint) desk rfl).symm.trans hprinted
      have houtput := congrArg (World.output ∘ Prod.snd) hsame
      simpa [World.printing, desk, ← String.toList_inj] using houtput
    have hbooklet : desk.directory.locate "booklet.pdf" = .ok ⟨some 0, ["booklet.pdf"]⟩ := by
      decide +kernel
    obtain rfl := Except.ok.inj (hbooklet.symm.trans hplace)
    have hletter : desk.directory.get? ⟨some 0, ["letter.txt"]⟩ =
        some (Utf8.encode "Dear reader") := by
      decide +kernel
    exact ⟨after, rfl, hread, (hothers _ (by decide)).trans hletter⟩
  · have hrequest : (Toolkit.standard false).parse listMissing =
        .ok (.show .flat { path := "pamphlet.pdf" } { path := some "letter.txt", json := true }) :=
      rfl
    have hexit : ((run (Toolkit.standard false) World.system listMissing).run desk).1 = 1 := by
      decide +kernel
    generalize hrun : (run (Toolkit.standard false) World.system listMissing).run desk = result
      at hexit
    obtain ⟨exitCode, after⟩ := result
    obtain rfl : exitCode = 1 := hexit
    obtain ⟨-, hfailed, -⟩ :=
      World.serves_system.run_allOrNothing parsesOutput_ofArguments hrequest hrun
    exact ⟨after, rfl, hfailed rfl⟩

end Bookmarks.Command
