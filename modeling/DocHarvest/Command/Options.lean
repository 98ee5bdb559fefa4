import DocHarvest.Text.Split

/-! The command line: operands and options in any order, read from left to right. -/

namespace DocHarvest

structure Options where
  inputs : List String
  output : Option String
  format : String
  pretty : Bool
  extensions : List String
  unresolved : Bool
deriving DecidableEq, Repr

inductive Request where
  | help
  | harvest (options : Options)
deriving DecidableEq, Repr

namespace Options

open Text

inductive Setting where
  | output
  | format
  | extension
deriving DecidableEq, Repr

inductive Flag where
  | pretty
  | unresolved
  | help
deriving DecidableEq, Repr

/-- What one argument is, with the value that is written into it. -/
inductive Argument where
  | operand (text : String)
  | endOfOptions
  | flag (sort : Flag)
  | setting (sort : Setting) (value : Option String)
  | unknown
deriving DecidableEq, Repr

def longArgument (name : String) (value : Option String) : Argument :=
  match name, value with
  | "output", v => .setting .output v
  | "format", v => .setting .format v
  | "extension", v => .setting .extension v
  | "pretty", none => .flag .pretty
  | "unresolved", none => .flag .unresolved
  | "help", none => .flag .help
  | _, _ => .unknown

/-- The value written right after a letter; an equals sign may part them. -/
def attachedValue : List Char → Option String
  | [] => none
  | c :: s => some (String.ofList (if c == '=' then s else c :: s))

def shortArgument (letter : Char) (rest : List Char) : Argument :=
  if letter == 'o' then .setting .output (attachedValue rest)
  else if letter == 'f' then .setting .format (attachedValue rest)
  else if letter == 'e' then .setting .extension (attachedValue rest)
  else if letter == 'h' then .flag .help
  else .unknown

def Argument.ofText (text : String) : Argument :=
  match text.toList with
  | '-' :: '-' :: [] => .endOfOptions
  | '-' :: '-' :: s =>
    match cutAtChar? '=' s with
    | some (name, value) => longArgument (String.ofList name) (some (String.ofList value))
    | none => longArgument (String.ofList s) none
  | '-' :: letter :: rest => shortArgument letter rest
  | _ => .operand text

structure Given where
  inputs : List String
  output : Option String
  format : Option String
  pretty : Bool
  extensions : List String
  unresolved : Bool
deriving DecidableEq, Repr

def Given.nothing : Given :=
  ⟨[], none, none, false, [], false⟩

/-- Only the list of extensions may be given more than once, and a directory needs a name. -/
def Given.set? (g : Given) (sort : Setting) (value : String) : Option Given :=
  match sort with
  | .output =>
    if g.output.isSome || value.isEmpty then none else some { g with output := some value }
  | .format => if g.format.isSome then none else some { g with format := some value }
  | .extension =>
    some { g with extensions := g.extensions ++ (value.toList.splitOn ',').map String.ofList }

def Given.finish? (g : Given) : Option Request :=
  if g.inputs.isEmpty then none
  else some (.harvest
    { inputs := g.inputs
      output := g.output
      format := g.format.getD "json"
      pretty := g.pretty
      extensions := if g.extensions.isEmpty then ["js", "ngdoc"] else g.extensions
      unresolved := g.unresolved })

def isOperand (text : String) : Bool :=
  Argument.ofText text == .operand text

def read? (g : Given) : List String → Option Request
  | [] => g.finish?
  | text :: rest =>
    match Argument.ofText text with
    | .operand input => read? { g with inputs := g.inputs ++ [input] } rest
    | .endOfOptions => Given.finish? { g with inputs := g.inputs ++ rest }
    | .flag .help => some .help
    | .flag .pretty => if g.pretty then none else read? { g with pretty := true } rest
    | .flag .unresolved => if g.unresolved then none else read? { g with unresolved := true } rest
    | .setting sort (some value) => (g.set? sort value).bind fun g' => read? g' rest
    | .setting sort none =>
      match rest with
      | [] => none
      | value :: rest' =>
        if isOperand value then (g.set? sort value).bind fun g' => read? g' rest' else none
    | .unknown => none

end Options

def Request.ofArguments? (arguments : List String) : Option Request :=
  Options.read? .nothing arguments

def Request.usage : String :=
  "Usage: ngdoc [OPTIONS] <FILES>..."

def Request.helpLines : List String := [
  "Extract @ngdoc documentation records from annotated source files",
  "",
  usage,
  "",
  "Arguments:",
  "  <FILES>...  Input files, directories or glob patterns",
  "",
  "Options:",
  "  -o, --output <OUTPUT>         Output directory. If omitted, records are written to stdout",
  "  -f, --format <FORMAT>         Output format: json (default), jsonl [default: json]",
  "      --pretty                  Pretty-print JSON output",
  "  -e, --extension <EXTENSIONS>  File extensions picked up when scanning directories "
    ++ "[default: js,ngdoc]",
  "      --unresolved              Report records whose module could not be resolved",
  "  -h, --help                    Print help"]

def Request.helpText : String :=
  String.join (helpLines.map (· ++ "\n"))

end DocHarvest
