/-
# How objects are written

The written form of PDF objects, read from the front of a list of bytes. Each reader gives the
object and the bytes after it, or nothing if no such object stands there. Blanks and comments may
stand between any two tokens, and tokens that cannot be mistaken need none between them.

Nesting is bounded by a number that the reader of a whole file takes from the file's size, which no
object in it can exceed.
-/
import Bookmarks.Pdf.Object

namespace Bookmarks.Pdf.Grammar

/-! ## Blanks, comments and words -/

/-- Carriage return. -/
def cr : UInt8 := 13

/-- Line feed. -/
def lf : UInt8 := 10

/-- Space, tab, line feed, carriage return, null and form feed. -/
def isBlank (byte : UInt8) : Bool :=
  byte = 32 || byte = 9 || byte = lf || byte = cr || byte = 0 || byte = 12

/-- A byte that ends a name and begins a token of its own. -/
def isDelimiter (byte : UInt8) : Bool :=
  (ascii "()<>[]\x7b\x7d/%").contains byte

/-- A byte that may be part of a name. -/
def isRegular (byte : UInt8) : Bool :=
  !isBlank byte && !isDelimiter byte

/-- A decimal digit. -/
def isDigit (byte : UInt8) : Bool :=
  48 ≤ byte && byte ≤ 57

/-- An octal digit. -/
def isOctal (byte : UInt8) : Bool :=
  48 ≤ byte && byte ≤ 55

/-- The value of a decimal digit. -/
def digitValue (byte : UInt8) : Nat :=
  byte.toNat - 48

/-- The value of a hexadecimal digit. -/
def hexValue? (byte : UInt8) : Option Nat :=
  if isDigit byte then some (byte.toNat - 48)
  else if 65 ≤ byte && byte ≤ 70 then some (byte.toNat - 55)
  else if 97 ≤ byte && byte ≤ 102 then some (byte.toNat - 87)
  else none

/-- The bytes after a word, if they begin with it. -/
def expectBytes : Bytes → Bytes → Option Bytes
  | [], bytes => some bytes
  | _ :: _, [] => none
  | w :: word, b :: bytes => if w = b then expectBytes word bytes else none

/-- The bytes after an ASCII word, if they begin with it. -/
def expect (word : String) (bytes : Bytes) : Option Bytes :=
  expectBytes (ascii word) bytes

/-- The bytes after the end of a line, if they begin with one. -/
def expectLineEnd : Bytes → Option Bytes
  | 13 :: 10 :: rest => some rest
  | 13 :: rest => some rest
  | 10 :: rest => some rest
  | _ => none

/-- The bytes after blanks and comments. Within a comment, `comment` holds the bytes from its
beginning: a comment that no line end closes is none. -/
def skipFrom (comment : Option Bytes) : Bytes → Bytes
  | [] => comment.getD []
  | byte :: rest =>
      match comment with
      | none =>
          if isBlank byte then skipFrom none rest
          else if byte = 37 then skipFrom (some (byte :: rest)) rest
          else byte :: rest
      | some start =>
          if byte = cr || byte = lf then skipFrom none rest
          else skipFrom (some start) rest

/-- The bytes after blanks and comments. -/
def skipSpace (bytes : Bytes) : Bytes :=
  skipFrom none bytes

/-! ## Numbers and references -/

/-- The number that decimal digits stand for. -/
def valueOf (digits : Bytes) : Nat :=
  digits.foldl (fun value digit => value * 10 + digitValue digit) 0

/-- One digit or more. -/
def readDigits (bytes : Bytes) : Option (Bytes × Bytes) :=
  match bytes.span isDigit with
  | ([], _) => none
  | (digits, rest) => some (digits, rest)

/-- A natural number below a bound. -/
def readBelow (bound : Nat) (bytes : Bytes) : Option (Nat × Bytes) := do
  let (digits, rest) ← readDigits bytes
  let value := valueOf digits
  if value < bound then some (value, rest) else none

/-- The number and generation of an object, blanks after each of them. -/
def readId (bytes : Bytes) : Option (ObjectId × Bytes) := do
  let (number, rest) ← readBelow (Nat.pow 2 32) bytes
  let (generation, rest) ← readBelow (Nat.pow 2 16) (skipSpace rest)
  some (⟨number, generation⟩, skipSpace rest)

/-- A reference. -/
def readReference (bytes : Bytes) : Option (Object × Bytes) := do
  let (id, rest) ← readId bytes
  some (.reference id, ← expect "R" rest)

/-- A sign, a missing one being positive. -/
def readSign : Bytes → Bool × Bytes
  | 45 :: rest => (true, rest)
  | 43 :: rest => (false, rest)
  | bytes => (false, bytes)

/-- A number with a point, which digits stand before or after. -/
def readReal (bytes : Bytes) : Option (Object × Bytes) := do
  let (negative, rest) := readSign bytes
  let (whole, rest) := rest.span isDigit
  let (fraction, rest) := (← expect "." rest).span isDigit
  if whole.isEmpty && fraction.isEmpty then none
  else
    some (.real (Binary32.ofDecimal negative (valueOf (whole ++ fraction))
      (-(fraction.length : Int))), rest)

/-- A signed integer of 64 bits. -/
def readInteger (bytes : Bytes) : Option (Int × Bytes) := do
  let (negative, rest) := readSign bytes
  let (digits, rest) ← readDigits rest
  let value : Int := if negative then -(valueOf digits : Int) else valueOf digits
  if -(Nat.pow 2 63 : Int) ≤ value ∧ value < Nat.pow 2 63 then some (value, rest) else none

/-! ## Names and strings -/

/-- The bytes of a name after its slash. A number sign with two hexadecimal digits is the byte of
that code, and one without ends the name. -/
def nameBytes : Bytes → Bytes × Bytes
  | 35 :: high :: low :: rest =>
      match hexValue? high, hexValue? low with
      | some high, some low =>
          let (name, rest) := nameBytes rest
          (UInt8.ofNat (high * 16 + low) :: name, rest)
      | _, _ => ([], 35 :: high :: low :: rest)
  | byte :: rest =>
      if byte = 35 || !isRegular byte then ([], byte :: rest)
      else
        let (name, rest) := nameBytes rest
        (byte :: name, rest)
  | [] => ([], [])

/-- A name. -/
def readName (bytes : Bytes) : Option (Bytes × Bytes) := do
  some (nameBytes (← expect "/" bytes))

/-- Where a string in parentheses stands. -/
inductive LiteralMode where
  | plain
  /-- After a backslash. -/
  | escaped
  /-- After a backslash and up to three octal digits. -/
  | octal (count value : Nat)
  /-- After a backslash and a carriage return. -/
  | carriage
  deriving DecidableEq, Repr

/-- Parentheses that may be open within a string. -/
def openLimit : Nat := 100

/-- What a byte means within a string. -/
inductive LiteralStep where
  /-- The string is closed. -/
  | closed
  /-- Too many parentheses are open. -/
  | refused
  /-- The string goes on, with so many open parentheses and with this byte at its end. -/
  | goOn (mode : LiteralMode) (open_ : Nat) (byte : Option UInt8)
  deriving DecidableEq, Repr

/-- A byte that no backslash stands before. -/
def plainStep (open_ : Nat) (byte : UInt8) : LiteralStep :=
  if byte = 41 then
    match open_ with
    | 0 => .closed
    | open_ + 1 => .goOn .plain open_ (some byte)
  else if byte = 40 then
    if open_ < openLimit then .goOn .plain (open_ + 1) (some byte) else .refused
  else if byte = 92 then .goOn .escaped open_ none
  else .goOn .plain open_ (some byte)

/-- The byte that a letter after a backslash stands for. -/
def unescape (byte : UInt8) : UInt8 :=
  if byte = 110 then 10
  else if byte = 114 then 13
  else if byte = 116 then 9
  else if byte = 98 then 8
  else if byte = 102 then 12
  else byte

/-- A byte after a backslash. -/
def escapedStep (open_ : Nat) (byte : UInt8) : LiteralStep :=
  if isOctal byte then .goOn (.octal 1 (digitValue byte)) open_ none
  else if byte = cr then .goOn .carriage open_ none
  else if byte = lf then .goOn .plain open_ none
  else .goOn .plain open_ (some (unescape byte))

/-- The bytes of a string up to its closing parenthesis, behind those collected so far. Octal codes
count modulo 256, and a backslash at the end of a line joins it with the next. -/
def literalBytes (mode : LiteralMode) (open_ : Nat) (collected : Bytes) :
    Bytes → Option (Bytes × Bytes)
  | [] => none
  | byte :: rest =>
      let (collected, step) : Bytes × LiteralStep :=
        match mode with
        | .plain => (collected, plainStep open_ byte)
        | .escaped => (collected, escapedStep open_ byte)
        | .octal count value =>
            if count < 3 && isOctal byte then
              (collected, .goOn (.octal (count + 1) (value * 8 + digitValue byte)) open_ none)
            else (UInt8.ofNat value :: collected, plainStep open_ byte)
        | .carriage =>
            if byte = lf then (collected, .goOn .plain open_ none)
            else (collected, plainStep open_ byte)
      match step with
      | .closed => some (collected.reverse, rest)
      | .refused => none
      | .goOn mode open_ (some byte) => literalBytes mode open_ (byte :: collected) rest
      | .goOn mode open_ none => literalBytes mode open_ collected rest

/-- A string in parentheses. -/
def readLiteral (bytes : Bytes) : Option (Bytes × Bytes) := do
  literalBytes .plain 0 [] (← expect "(" bytes)

/-- The bytes of a hexadecimal string up to its closing bracket. An odd digit at the end is followed
by a zero. -/
def hexBytes (pending : Option Nat) (collected : Bytes) : Bytes → Option (Bytes × Bytes)
  | [] => none
  | byte :: rest =>
      if isBlank byte then hexBytes pending collected rest
      else if byte = 62 then
        match pending with
        | none => some (collected.reverse, rest)
        | some high => some ((UInt8.ofNat (high * 16) :: collected).reverse, rest)
      else
        match hexValue? byte, pending with
        | none, _ => none
        | some value, none => hexBytes (some value) collected rest
        | some value, some high =>
            hexBytes none (UInt8.ofNat (high * 16 + value) :: collected) rest

/-- A string in hexadecimal digits. -/
def readHex (bytes : Bytes) : Option (Bytes × Bytes) := do
  hexBytes none [] (← expect "<" bytes)

/-! ## Objects -/

/-- As many objects as there are, up to a bound, with blanks after each of them. -/
def readItems (object : Bytes → Option (Object × Bytes)) : Nat → Bytes → List Object × Bytes
  | 0, bytes => ([], bytes)
  | bound + 1, bytes =>
      match object bytes with
      | none => ([], bytes)
      | some (item, rest) =>
          let (items, rest) := readItems object bound (skipSpace rest)
          (item :: items, rest)

/-- As many entries of a dictionary as there are, up to a bound, the last first. -/
def readEntries (object : Bytes → Option (Object × Bytes)) :
    Nat → Dictionary → Bytes → Dictionary × Bytes
  | 0, entries, bytes => (entries, bytes)
  | bound + 1, entries, bytes =>
      let entry : Option ((Bytes × Object) × Bytes) := do
        let (key, rest) ← readName bytes
        let (value, rest) ← object (skipSpace rest)
        some ((key, value), skipSpace rest)
      match entry with
      | none => (entries, bytes)
      | some (entry, rest) => readEntries object bound (entry :: entries) rest

/-- An array. -/
def readArray (object : Bytes → Option (Object × Bytes)) (bound : Nat) (bytes : Bytes) :
    Option (List Object × Bytes) := do
  let rest ← expect "[" bytes
  let (items, rest) := readItems object bound (skipSpace rest)
  some (items, ← expect "]" rest)

/-- A dictionary. Of equal keys the last one counts. -/
def readDictionary (object : Bytes → Option (Object × Bytes)) (bound : Nat) (bytes : Bytes) :
    Option (Dictionary × Bytes) := do
  let rest ← expect "<<" bytes
  let (entries, rest) := readEntries object bound [] (skipSpace rest)
  some (entries, ← expect ">>" rest)

/-- A word for a value. -/
def readWord (word : String) (value : Object) (bytes : Bytes) : Option (Object × Bytes) :=
  (expect word bytes).map fun rest => (value, rest)

/-- An object other than a stream, with fewer than `bound` arrays and dictionaries around any part
of it. -/
def readObject : Nat → Bytes → Option (Object × Bytes)
  | 0, _ => none
  | bound + 1, bytes =>
      readWord "null" .null bytes
        <|> readWord "true" (.boolean true) bytes
        <|> readWord "false" (.boolean false) bytes
        <|> readReference bytes
        <|> readReal bytes
        <|> (readInteger bytes).map (fun (value, rest) => (.integer value, rest))
        <|> (readName bytes).map (fun (value, rest) => (.name value, rest))
        <|> (readLiteral bytes).map (fun (value, rest) => (.string value, rest))
        <|> (readHex bytes).map (fun (value, rest) => (.string value, rest))
        <|> (readArray (readObject bound) bound bytes).map
          (fun (items, rest) => (.array items, rest))
        <|> (readDictionary (readObject bound) bound bytes).map
          (fun (entries, rest) => (.dictionary entries, rest))

/-- The bytes after the first `count` of them, if there are so many. -/
def dropExactly : Nat → Bytes → Option Bytes
  | 0, bytes => some bytes
  | _ + 1, [] => none
  | count + 1, _ :: bytes => dropExactly count bytes

/-- The bytes after a stream's content, if it has the given length and is closed properly. -/
def skipContent (length : Nat) (bytes : Bytes) : Option Bytes := do
  let rest ← dropExactly length bytes
  expect "endstream" ((expectLineEnd rest).getD rest)

/-- The dictionary of a stream and the bytes of its content with all that follows. -/
def readStreamStart (bound : Nat) (bytes : Bytes) : Option (Dictionary × Bytes) := do
  let (entries, rest) ← readDictionary (readObject bound) bound bytes
  some (entries, ← expectLineEnd (← expect "stream" (skipSpace rest)))

/-- The object that stands by itself, where `length?` knows the lengths of streams. A stream of
unknown length is taken as it is; one that is not closed where its length says is but a dictionary;
a negative length spoils the object. -/
def readWhole (length? : Dictionary → Option Int) (bound : Nat) (bytes : Bytes) : Option Object :=
  let plain : Option Object := (readObject bound bytes).map Prod.fst
  match readStreamStart bound bytes with
  | none => plain
  | some (entries, content) =>
      match length? entries with
      | none => some (.stream entries)
      | some length =>
          if length < 0 then none
          else match skipContent length.toNat content with
            | some _ => some (.stream entries)
            | none => plain

/-- The name of the object that is defined next, and the bytes of the object itself. -/
def readDefinition (bytes : Bytes) : Option (ObjectId × Bytes) := do
  let (id, rest) ← readId (skipSpace bytes)
  some (id, skipSpace (← expect "obj" rest))

end Bookmarks.Pdf.Grammar
