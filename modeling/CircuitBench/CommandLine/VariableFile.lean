import CircuitBench.Text.Blank
import CircuitBench.Text.Line

/-!
# Files of variables

A file of variables has one `NAME=value` on a line, and may have blank lines and
comments. Blanks around name and value do not belong to them. Of two lines with one name
the first counts, and what comes behind a line of any other form is not read. A value is
taken as it stands, with its quotes and without looking up other variables in it.
-/

namespace CircuitBench.CommandLine.VariableFile

def isNamePart (c : Char) : Bool :=
  c.isAlphanum || c = '_' || c = '.'

inductive Line where
  | nothing
  | entry (name value : String)
  | malformed

def Line.read (text : List Char) : Line :=
  let text := Text.trim text
  if text.isEmpty || text.head? = some '#' then nothing
  else
    let name := text.takeWhile isNamePart
    match Text.trimStart (text.dropWhile isNamePart) with
    | '=' :: value =>
      if name.head?.any fun c => c.isAlpha || c = '_' then
        entry (String.ofList name) (String.ofList (Text.trim value))
      else malformed
    | _ => malformed

def ofLines : List (List Char) → List (String × String)
  | [] => []
  | line :: rest =>
    match Line.read line with
    | .nothing => ofLines rest
    | .entry name value => (name, value) :: ofLines rest
    | .malformed => []

def ofText (text : String) : List (String × String) :=
  ofLines (Text.lines text.toList)

def lookup? (text name : String) : Option String :=
  (ofText text).lookup name

end CircuitBench.CommandLine.VariableFile
