import SchemaForms.CommandLine.Options
import SchemaForms.Compile.Tree
import SchemaForms.Files.Store
import SchemaForms.Form.Bind
import SchemaForms.Template.Document
import SchemaForms.Text.Logged

/-!
A run of the program over a store of files: the schema is loaded, a global element of its first
document is compiled, and the template is printed, or the form that it gives for a document.
Messages are kept in the order in which they arise, also when the run fails.
-/

namespace SchemaForms

inductive RunError where
  | unreadableSchema (cause : ImportFailure)
  | schema (cause : SchemaError)
  | noRoot
  | compile (cause : CompileError)
  | unreadableRecord (path reason : String)
  | malformedRecord
  | bind (cause : BindError)
  deriving DecidableEq, Repr

def RunError.message : RunError → String
  | unreadableSchema cause => "failed to load schema: " ++ cause.message
  | schema cause => cause.message
  | noRoot => "the schema declares no global element to compile"
  | compile cause => cause.message
  | unreadableRecord path reason =>
    "failed to read instance document " ++ Text.quoted path ++ ": " ++ reason
  | malformedRecord => "failed to parse instance document:"
  | bind cause => cause.message

/-- The text of a failure in a log. -/
def RunError.line (error : RunError) : String := Text.logged error.message

structure Message where
  isWarning : Bool
  text : String
  deriving DecidableEq, Repr, Inhabited

def LogEntry.toMessage (entry : LogEntry) : Message := ⟨entry.note.isWarning, entry.line⟩

/-- What a run prints, and what it has to say. -/
structure Report where
  result : Except RunError String
  messages : List Message

/-- The lines on which the warnings of a run begin. -/
def Report.warnings (report : Report) : List String :=
  (report.messages.filter Message.isWarning).map fun message => Text.firstLine message.text

abbrev Running := ExceptT RunError (StateM (List Message))

namespace Options

def orFail (cause : ε → RunError) : Except ε α → Running α
  | .ok a => return a
  | .error e => throw (cause e)

def say (messages : List Message) : Running Unit := modify (· ++ messages)

/-- Prefixes are used if the document describes a namespace, and then that namespace has one. -/
def namespaces (options : Options) (document : SchemaDocument) : InstanceNamespaces :=
  match document.targetNamespace, options.ignoresNamespaces with
  | some target, false =>
    let registry := document.namespaces
    .enabled
      (if (registry.prefixFor? target).isNone then registry.register "" target else registry)
      options.defaultPrefix
  | _, _ => .disabled

/-- The named element of a document, or the first one that it declares. -/
def rootElement (options : Options) (set : SchemaSet) (main : DocumentId) :
    Except RunError ExpandedName :=
  match options.root with
  | some localName => .ok ⟨(set.document main).targetNamespace, localName⟩
  | none =>
    match set.globalElements.find? (·.document = main) with
    | some declaration => .ok declaration.name
    | none => .error .noRoot

def loadSchema (options : Options) (store : FileStore) : Running (SchemaSet × DocumentId) := do
  let source ← orFail .unreadableSchema (store.schemaSource options.input)
  let (result, loader) :=
    (Loader.new [store.resolver] options.allowsDoctype).load ⟨options.input, source.text⟩
  say (loader.warnings.map fun warning => ⟨true, warning.line⟩)
  return (loader.set, ← orFail .schema result)

def compileRoot (options : Options) (set : SchemaSet) (main : DocumentId) :
    Running (SchemaIndex × Template) := do
  let namespaces := options.namespaces (set.document main)
  let root ← options.rootElement set main
  let index ← orFail .schema (SchemaIndex.build set namespaces [root])
  say (index.warnings.map fun warning => ⟨true, warning.line⟩)
  let address := Address.root (namespaces.prefixedName root)
  let compilation ← orFail .compile (index.compile options.mode address)
  say (compilation.log.map LogEntry.toMessage)
  return (index, compilation.template)

def fillRecord (options : Options) (store : FileStore) (index : SchemaIndex) (template : Template)
    (path : String) : Running Form := do
  let source ← orFail (.unreadableRecord path) (store.read path)
  match Xml.read? options.allowsDoctype source.text with
  | none => throw .malformedRecord
  | some root => orFail .bind (template.bind ⟨root, index.namespaces⟩)

def running (options : Options) (store : FileStore) : Running String := do
  let (set, main) ← options.loadSchema store
  let (index, template) ← options.compileRoot set main
  match options.record with
  | some path => return (← options.fillRecord store index template path).outline
  | none => return template.document ++ "\n"

def run (options : Options) (store : FileStore) : Report :=
  let (result, messages) := (options.running store).run []
  ⟨result, messages⟩

end Options

/-- How a run ends, with what it prints. -/
structure Exit where
  code : Nat
  output : String
  deriving DecidableEq, Repr

def Stop.exit : Stop → Exit
  | help => ⟨0, Options.help ++ "\n"⟩
  | version => ⟨0, Options.version ++ "\n"⟩
  | misuse => ⟨2, ""⟩

def Report.exit (report : Report) : Exit :=
  match report.result with
  | .ok output => ⟨0, output⟩
  | .error _ => ⟨1, ""⟩

end SchemaForms
