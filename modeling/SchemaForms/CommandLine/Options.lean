import SchemaForms.Template.Basic
import SchemaForms.Text.Split

/-!
The arguments of the command line. Arguments are read from left to right, and the first one that
asks for help or cannot be read decides. An option takes its value after an equals sign or from the
next argument, which may not look like an option. Only the request for more messages may be
repeated. Two dashes end the options.
-/

namespace SchemaForms

structure Options where
  input : String
  root : Option String
  mode : Mode
  record : Option String
  allowsDoctype : Bool
  ignoresNamespaces : Bool
  defaultPrefix : String
  verbosity : Nat
  deriving DecidableEq, Repr, Inhabited

/-- Why arguments do not ask for a form. -/
inductive Stop where
  | help
  | version
  | misuse
  deriving DecidableEq, Repr

namespace Options

/-- What was read so far. -/
structure Draft where
  input : Option String
  root : Option String
  mode : Option Mode
  record : Option String
  allowsDoctype : Bool
  ignoresNamespaces : Bool
  defaultPrefix : Option String
  verbosity : Nat
  deriving DecidableEq, Repr, Inhabited

namespace Draft

def empty : Draft := ⟨none, none, none, none, false, false, none, 0⟩

def once (held : Option α) (value : α) : Except Stop (Option α) :=
  match held with
  | none => .ok (some value)
  | some _ => .error .misuse

def onceOnly (held : Bool) : Except Stop Bool := if held then .error .misuse else .ok true

def positional (draft : Draft) (value : String) : Except Stop Draft := do
  return { draft with input := ← once draft.input value }

def modeNamed (name : String) : Except Stop Mode :=
  match name with
  | "edit" => .ok .edit
  | "display" => .ok .display
  | _ => .error .misuse

def takesValue (name : String) : Bool :=
  name ∈ ["root", "mode", "instance", "default-prefix"]

def withValue (draft : Draft) (name value : String) : Except Stop Draft := do
  match name with
  | "root" => return { draft with root := ← once draft.root value }
  | "mode" => return { draft with mode := ← once draft.mode (← modeNamed value) }
  | "instance" => return { draft with record := ← once draft.record value }
  | "default-prefix" => return { draft with defaultPrefix := ← once draft.defaultPrefix value }
  | _ => throw .misuse

def flag (draft : Draft) (name : String) : Except Stop Draft := do
  match name with
  | "allow-dtd" => return { draft with allowsDoctype := ← onceOnly draft.allowsDoctype }
  | "no-namespaces" => return { draft with ignoresNamespaces := ← onceOnly draft.ignoresNamespaces }
  | "verbose" => return { draft with verbosity := draft.verbosity + 1 }
  | "help" => throw .help
  | "version" => throw .version
  | _ => throw .misuse

def shortFlag (draft : Draft) : Char → Except Stop Draft
  | 'v' => draft.flag "verbose"
  | 'h' => draft.flag "help"
  | 'V' => draft.flag "version"
  | _ => throw .misuse

/-- A single dash is a value like any other. -/
def looksLikeOption (argument : String) : Bool :=
  match argument.toList with
  | '-' :: _ :: _ => true
  | _ => false

def read (draft : Draft) : List String → Except Stop Draft
  | [] => return draft
  | argument :: others =>
    match argument.toList with
    | ['-', '-'] => others.foldlM positional draft
    | '-' :: '-' :: option =>
      match Text.cutFirst '=' option with
      | some (name, value) => do
        read (← draft.withValue (String.ofList name) (String.ofList value)) others
      | none =>
        let name := String.ofList option
        if takesValue name then
          match others with
          | [] => throw .misuse
          | value :: others => do
            if looksLikeOption value then throw .misuse
            read (← draft.withValue name value) others
        else do read (← draft.flag name) others
    | '-' :: first :: flags => do read (← (first :: flags).foldlM shortFlag draft) others
    | _ => do read (← draft.positional argument) others

def finish (draft : Draft) : Except Stop Options :=
  match draft.input with
  | none => throw .misuse
  | some input => return {
      input := input
      root := draft.root
      mode := draft.mode.getD .edit
      record := draft.record
      allowsDoctype := draft.allowsDoctype
      ignoresNamespaces := draft.ignoresNamespaces
      defaultPrefix := draft.defaultPrefix.getD "ns"
      verbosity := draft.verbosity }

end Draft

def parse (arguments : List String) : Except Stop Options := do
  (← Draft.empty.read arguments).finish

def usage : String := "Usage: xsd-form-compiler [OPTIONS] <INPUT>"

def help : String := "\n".intercalate [
  "Compiles XSD schemas into conditional form templates for metadata records",
  "",
  usage,
  "",
  "Arguments:",
  "  <INPUT>  The schema file",
  "",
  "Options:",
  "      --root <ROOT>                      Local name of the global element to compile",
  "      --mode <MODE>                      edit or display [default: edit]",
  "      --instance <INSTANCE>              Print the form for this document",
  "      --allow-dtd                        Allow document type definitions",
  "      --no-namespaces                    Address nodes by local name only",
  "      --default-prefix <DEFAULT_PREFIX>  Prefix of a default namespace [default: ns]",
  "  -v, --verbose...                       Log more",
  "  -h, --help                             Print help",
  "  -V, --version                          Print version"]

def version : String := "xsd-form-compiler 0.1.0"

end Options

end SchemaForms
