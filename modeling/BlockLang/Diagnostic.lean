import BlockLang.Error
import BlockLang.Text.Blank
import BlockLang.Text.Line

/-! # Diagnostics — an error shown in its source

  A diagnostic names the fault and the file, and shows the line of the error
  with a caret under the place:

      Error: UndeclaredIdentifier (Variable `i` not declared)
      -> shell
        |
      1 | print i + 1;
        | ------^

  The line is shown without its indentation and without the white space at
  its end.  The caret counts characters, not bytes. -/

namespace BlockLang

/-! ### Where the caret stands -/

/-- The location behind the last line of a source, where its newline would be
    or is; an empty source has none. -/
def endLocation? (source : String) : Option Location :=
  let ls := lines source.toList
  ls.getLast?.map fun line => ⟨ls.length, line, byteSize (line.takeWhile (· ≠ '\n'))⟩

/-- The location of an offset in a source; an offset outside it stands for
    the end. -/
def nearestLocation? (source : String) (offset : UInt32) : Option Location :=
  (locate? source offset).or (endLocation? source)

/-- Characters of the line before the place.  For a place inside a character
    it is the number of bytes. -/
def Location.charColumn (location : Location) : Nat :=
  match dropBytes? location.column location.line with
  | some rest => location.line.length - rest.length
  | none => location.column

/-- The characters that indent a line. -/
def isIndent (c : Char) : Bool := c = ' ' || c = '\t'

/-- Number of characters that indent the line. -/
def Location.indent (location : Location) : Nat := (location.line.takeWhile isIndent).length

/-! ### Text -/

/-- The two empty columns of a line number, and a bar. -/
def gutter (number : String) : String :=
  String.ofList (List.replicate (number.length + 1) ' ') ++ "|"

/-- The line with a bar above it and the caret under it. -/
def Location.excerpt (location : Location) : List String :=
  let number := toString location.number
  let shown := trimEnd (location.line.drop location.indent)
  let caret := List.replicate (location.charColumn - location.indent) '-' ++ ['^']
  [gutter number, number ++ " | " ++ String.ofList shown,
    gutter number ++ " " ++ String.ofList caret]

/-- The first line of a diagnostic. -/
def Fault.headline (fault : Fault) : String :=
  match fault.tip? with
  | none => "Error: " ++ fault.name
  | some tip => "Error: " ++ fault.name ++ " (" ++ tip ++ ")"

/-- An error shown in its source. -/
def Error.render (error : Error) (source : String) : String :=
  let excerpt := match nearestLocation? source error.position.offset with
    | none => []
    | some location => location.excerpt
  "\n".intercalate ([error.fault.headline, "-> " ++ error.position.file] ++ excerpt)

end BlockLang
