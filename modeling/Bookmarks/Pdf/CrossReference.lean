/-
# Cross-reference tables

A file says where its objects are: a table gives the offset of each object by number, and a trailer
after it says where to begin. A file that was changed later has several tables, each naming the one
before it; what a later table says about an object counts.
-/
import Bookmarks.Pdf.Grammar

namespace Bookmarks.Pdf

open Grammar

/-- Where an object is to be found. -/
structure Slot where
  offset : Nat
  generation : Nat
  deriving DecidableEq, Repr

/-- The objects in use, by number. -/
abbrev SlotTable := Std.TreeMap Nat Slot

/-- The bytes of a file from each offset on, the end included. -/
structure FileBytes where
  suffixes : Array Bytes

namespace FileBytes

/-- Collect the ends of a list of bytes, the longest first. -/
def collect (suffixes : Array Bytes) : Bytes → Array Bytes
  | [] => suffixes.push []
  | byte :: rest => collect (suffixes.push (byte :: rest)) rest

/-- A file of given content. -/
def ofBytes (content : Bytes) : FileBytes :=
  ⟨collect #[] content⟩

variable (file : FileBytes)

/-- Bytes in the file. -/
def size : Nat :=
  file.suffixes.size - 1

/-- The bytes from an offset on, which may be the very end. -/
def from? (offset : Nat) : Option Bytes :=
  file.suffixes[offset]?

/-- The offset where a word stands for the last time, looking no further ahead than `start`. -/
def findLast (word : String) (start : Nat) : Option Nat :=
  ((List.range' start (file.size + 1 - start)).reverse).find? fun offset =>
    ((file.from? offset).bind (expect word)).isSome

end FileBytes

/-- The end of an entry of a table, two bytes long. -/
def expectEntryEnd : Bytes → Option Bytes
  | 32 :: 13 :: rest => some rest
  | 32 :: 10 :: rest => some rest
  | 13 :: 10 :: rest => some rest
  | _ => none

/-- One entry of a table, which says nothing if the object is free. -/
def readSlot (bytes : Bytes) : Option (Option Slot × Bytes) := do
  let (offset, rest) ← readBelow (Nat.pow 2 32) bytes
  let (generation, rest) ← readBelow (Nat.pow 2 32) (← expect " " rest)
  match ← expect " " rest with
  | 110 :: rest =>
      let slot := if generation < Nat.pow 2 16 then some ⟨offset, generation⟩ else none
      some (slot, ← expectEntryEnd rest)
  | 102 :: rest => some (none, ← expectEntryEnd rest)
  | _ => none

/-- The entries of a section in order, numbered from `number` on, as many as there are up to a
bound. -/
def readSlots : Nat → Nat → SlotTable → Bytes → SlotTable × Bytes
  | 0, _, table, bytes => (table, bytes)
  | bound + 1, number, table, bytes =>
      match readSlot bytes with
      | none => (table, bytes)
      | some (none, rest) => readSlots bound (number + 1) table rest
      | some (some slot, rest) =>
          readSlots bound (number + 1) (table.insert (number % Nat.pow 2 32) slot) rest

/-- One section of a table. The count that it announces is not needed. -/
def readSection (bound : Nat) (table : SlotTable) (bytes : Bytes) :
    Option (SlotTable × Bytes) := do
  let (start, rest) ← readBelow (Nat.pow 2 64) bytes
  let (_, rest) ← readBelow (Nat.pow 2 32) (← expect " " rest)
  let rest ← expectLineEnd ((expect " " rest).getD rest)
  some (readSlots bound start table rest)

/-- As many sections as there are up to a bound. -/
def moreSections (bound : Nat) : Nat → SlotTable → Bytes → SlotTable × Bytes
  | 0, table, bytes => (table, bytes)
  | left + 1, table, bytes =>
      match readSection bound table bytes with
      | none => (table, bytes)
      | some (table, rest) => moreSections bound left table rest

/-- All sections of a table, one at least. -/
def readSections (bound : Nat) (table : SlotTable) (bytes : Bytes) :
    Option (SlotTable × Bytes) := do
  let (table, rest) ← readSection bound table bytes
  some (moreSections bound bound table rest)

/-- An integer entry of a dictionary. -/
def integerOf? (entries : Dictionary) (key : String) : Option Int :=
  match entries.get? key with
  | some (.integer value) => some value
  | _ => none

/-- A table and its trailer, as they are written. -/
def readTable (bound : Nat) (bytes : Bytes) : Option (SlotTable × Dictionary) := do
  let rest ← expectLineEnd (← expect "xref" bytes)
  let (table, rest) ← readSections bound ∅ rest
  let rest ← expect "trailer" (skipSpace rest)
  let (trailer, _) ← readDictionary (readObject bound) bound (skipSpace rest)
  some (table, trailer)

/-- The table that begins at some bytes. A trailer has to tell the table's size. An object in the
place of a table is a defect of its own. -/
def tableAt (bound : Nat) (bytes : Bytes) : Except Defect (SlotTable × Dictionary) :=
  match readTable bound bytes with
  | some (table, trailer) =>
      if (integerOf? trailer "Size").isSome then .ok (table, trailer) else .error .trailer
  | none =>
      let length? (entries : Dictionary) : Option Int := integerOf? entries "Length"
      let object : Option Object := do
        let (_, rest) ← readDefinition bytes
        readWhole length? bound rest
      if object.isSome then .error (.table .unreadable) else .error .trailer

/-- A table together with another one, whose entries only fill numbers that are free. -/
def mergeTables (table previous : SlotTable) : SlotTable :=
  previous.foldl (fun table number slot => table.insertIfNew number slot) table

/-- Bytes at the end of a file that are searched for its end marker. -/
def endWindow : Nat := 512

/-- Bytes that have to be there before the end marker. -/
def startWindow : Nat := 25

namespace FileBytes

variable (file : FileBytes)

/-- Where the last table of a file begins, according to the lines at its end. -/
def tableStart? : Option Nat := do
  let marker ← file.findLast "%%EOF" (file.size - endWindow)
  if marker ≤ startWindow then none
  else do
    let start ← file.findLast "startxref" (marker - startWindow)
    let rest ← expectLineEnd (← expect "startxref" (← file.from? start))
    let (offset, rest) ← readInteger rest
    let _ ← expect "%%EOF" (← expectLineEnd rest)
    if 0 ≤ offset ∧ offset ≤ file.size then some offset.toNat else none

/-- Follow up to `tables` tables that were current before, beginning with the one that the last
trailer names. A table that was read already ends the chain. -/
def followPrevious : Nat → List Int → Option Int → SlotTable → Except Defect SlotTable
  | 0, _, _, table => .ok table
  | _, _, none, table => .ok table
  | tables + 1, seen, some offset, table =>
      if offset ∈ seen then .ok table
      else if offset < 0 ∨ file.size < offset then .error (.table .previousStart)
      else do
        let (previous, trailer) ←
          tableAt file.size ((file.from? offset.toNat).getD [])
        followPrevious tables (offset :: seen) (integerOf? trailer "Prev")
          (mergeTables table previous)

/-- Where the objects of a file are, and the trailer of its last table. -/
def crossReference : Except Defect (SlotTable × Dictionary) := do
  match file.tableStart? with
  | none => .error (.table .start)
  | some start => do
      let (table, trailer) ← tableAt file.size ((file.from? start).getD [])
      let table ← file.followPrevious (file.size + 1) [] (integerOf? trailer "Prev") table
      pure (table, trailer)

end FileBytes

end Bookmarks.Pdf
