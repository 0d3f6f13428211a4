/-
# Reports

The texts that the program shows: a view of a table of contents, what there is to know about a
document, and what the program is.
-/
import Bookmarks.Command.Toolkit
import Bookmarks.Contents.Listing
import Bookmarks.Contents.Projection
import Bookmarks.Contents.Record

namespace Bookmarks.Command

/-- The sections that a view shows one after another. -/
def View.sections (view : View) (contents : Contents) : List Section :=
  match view with
  | .tree => contents.root :: contents.preorder
  | .flat => contents.preorder
  | .level wanted leads => (contents.atLevel wanted leads).map Excerpt.toSection

/-- A section in a view. -/
def View.line : View → Section → String
  | .level _ _, s => s.spanLine
  | _, s => s.line

/-- A view as JSON: the whole table is nested, any other view is a list. -/
def View.record (view : View) (contents : Contents) : Json :=
  match view with
  | .tree => contents.record
  | _ => flatRecord (view.sections contents)

/-- A view in a format. -/
def View.render (view : View) (format : Format) (contents : Contents) : String :=
  match format with
  | .text => "\n".intercalate ((view.sections contents).map view.line)
  | .json layout => (view.record contents).write layout

/-- A line of forty strokes. -/
def rule : String :=
  String.ofList (List.replicate 40 '─')

section Lines

variable (paint : Style → String → String)

/-- A heading with a rule below it. -/
def headingLines (title : String) : List String :=
  [paint .boldCyan title, paint .dim rule]

/-- A value with its label. -/
def itemLine (label value : String) : String :=
  paint .bold label ++ ": " ++ value

/-- What there is to know about the document in a file. -/
def documentLines (path : String) (document : Pdf.Document) : List String :=
  headingLines paint "Document Information" ++
    [itemLine paint "File" path,
      itemLine paint "Format" ("PDF " ++ document.version),
      itemLine paint "Pages" (toString document.outline.pageCount.toNat),
      itemLine paint "Encrypted" (if document.isEncrypted then "Yes" else "No")]

/-- What there is to know about a table of contents. -/
def contentsLines (contents : Contents) : List String :=
  let unresolved := toString contents.unresolvedCount
  headingLines paint "Outline Statistics" ++
    [itemLine paint "Bookmarks" (toString contents.preorder.length),
      itemLine paint "Top-level" (toString contents.root.children.length),
      itemLine paint "Depth" (toString (contents.maxLevel + 1)),
      itemLine paint "Unresolved pages"
        (if 0 < contents.unresolvedCount then paint .yellow unresolved else unresolved)]

/-- The name of the program. -/
def programName : String := "pdfoutline"

/-- The version of the program. -/
def programVersion : String := "0.1.0"

/-- What the program is. -/
def versionLines : List String :=
  [paint .boldCyan programName ++ " " ++ programVersion,
    "PDF bookmark tree inspection tool",
    "",
    "Repository: " ++ paint .dim "https://github.com/iyulab/pdfoutline",
    "License: MIT"]

end Lines

/-- How the program is called. -/
def usageLines : List String :=
  ["Usage: " ++ programName ++ " <COMMAND> [OPTIONS] [FILE]",
    "",
    "Commands: tree, flatten, level, info, version"]

end Bookmarks.Command
