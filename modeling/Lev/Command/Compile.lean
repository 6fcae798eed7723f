import Lev.Build.Draft
import Lev.Command.Arguments
import Lev.Command.Plan
import Lev.Command.Usage
import Lev.Syntax.Load
import Lev.Toolchain

/-!
The command. It reads a program, shows it or lowers it, and writes what it was asked for. A program
that cannot be compiled ends it with status 1, anything unforeseen with status 2. Nothing is written
unless the module was built and the tools of the machine have accepted it.
-/
namespace Lev.Command

/-- Why a compilation stops: because of what it was given, or for a reason it does not foresee. -/
inductive Stop where
  | failed (message : Text)
  | internal (message : Text)

namespace Stop

def status : Stop → Nat
  | .failed _ => 1
  | .internal _ => 2

def report : Stop → Text
  | .failed message => lit "Compilation failed: " ++ message
  | .internal message => lit "Internal compiler error: " ++ message

end Stop

/-- A plan that may stop. -/
abbrev Task := ExceptT Stop Plan

/-- Prints a line; a surrogate cannot be printed. -/
def say (text : Text) : Task Unit :=
  match Utf8.unencodable? text with
  | some fault => throw (.internal fault.message)
  | none => ExceptT.lift (.print (text ++ lit "\n") (.done ()))

/-- A line on the second channel, where surrogates are written out as escapes. -/
def warnLine (text : Text) : Plan Unit := .warn (Utf8.escapeSurrogates text ++ lit "\n") (.done ())

def warnLines : List Text → Plan Unit
  | [] => pure ()
  | text :: rest => do
    warnLine text
    warnLines rest

/-- Why a file could not be used. -/
def reason : FileError → Text
  | .missing => lit "No such file or directory"
  | .notDirectory => lit "Not a directory"
  | .isDirectory => lit "Is a directory"
  | .nameTooLong => lit "File name too long"
  | .nulInPath => lit "embedded null byte"

/-- The number that the operating system gives a failure. -/
def errorNumber : FileError → Nat
  | .missing => 2
  | .notDirectory => 20
  | .isDirectory => 21
  | .nameTooLong => 36
  | .nulInPath => 22

/-- The stop when the source cannot be read. -/
def Stop.ofRead (path : Text) : FileError → Stop
  | .nulInPath => .internal (reason .nulInPath)
  | error => .failed (lit "Cannot read " ++ path ++ lit ": " ++ reason error)

/-- The stop when a file cannot be written. -/
def Stop.ofWrite (path : Text) : FileError → Stop
  | .nulInPath => .internal (reason .nulInPath)
  | error =>
    .internal
      (lit "[Errno " ++ Text.ofNat (errorNumber error) ++ lit "] " ++ reason error ++ lit ": " ++ path.quoted)

/-- The stop when a text is no program. -/
def Stop.ofLoad (path : Text) : LoadError → Stop
  | .format error => .failed (path ++ lit ": " ++ (LoadError.format error).message)
  | error => .internal error.message

/-- The program in the bytes of a file. -/
def decodeProgram (stack : Load.Stack) (path : Text) (bytes : List UInt8) : Except Stop Program := do
  let text ← (Utf8.decode bytes).mapError fun fault => .internal fault.message
  (Load.programOn stack (Utf8.unifyLineEnds text)).mapError (.ofLoad path)

/-- A step of a task that prints, reads and writes nothing. -/
def settle {α : Type} : Except Stop α → Task α
  | .ok a => pure a
  | .error stop => throw stop

/-- Reads the program. -/
def load (stack : Load.Stack) (path : Text) : Task Program := do
  match ← ExceptT.lift (.read path .done) with
  | .error error => throw (.ofRead path error)
  | .ok bytes => settle (decodeProgram stack path bytes)

/-- The lines that tell what is wrong with a program. -/
def complaints : ProgramError → List Text
  | .build errors => ProgramError.messages errors
  | error => [error.message]

/-- The triple that is asked for. -/
def Request.triple? (request : Request) : Option Text := request.triple.bind Given.filled?

/-- The settings of the build on a machine. -/
def Request.options (request : Request) (tools : Toolchain) : Options :=
  { moduleName := request.moduleName.shown
    entryName := request.entry.shown
    triple := request.triple?
    host := tools.host }

/-- The build that is asked for: a blank is no name for the entry function. -/
def Request.build (request : Request) (program : Program) : Session Unit :=
  match request.entry with
  | .blank => Draft.buildUnnamed program.subject
  | .text _ => Draft.build program.subject

/-- Lowers a program. -/
def lower (tools : Toolchain) (request : Request) (program : Program) : Task Module := do
  let (result, draft) := request.build program (Draft.new (request.options tools))
  if request.verbose then ExceptT.lift (warnLines draft.log)
  match result with
  | .ok () => pure draft.module
  | .error (.program error) =>
    let lines := complaints error
    ExceptT.lift (warnLines (lines.map (lit "Error: " ++ ·)))
    throw (.failed (Text.ofNat lines.length ++ lit " error(s)"))
  | .error fault => throw (.internal fault.message)

/-- The stop when a module cannot be handed on. -/
def Stop.ofEmit : Fault → Stop
  | .rejectedModule name complaint => .failed (Fault.rejectedModule name complaint).message
  | .noTarget triple complaint => .failed (Fault.noTarget triple complaint).message
  | fault => .internal fault.message

/-- Whether the module can be handed on. -/
def verify (tools : Toolchain) (module : Module) : Except Stop Unit := (tools.verify module).mapError .ofEmit

/-- The machine that object code for a triple is produced for. -/
def target (tools : Toolchain) (triple : Text) : Except Stop Text := (tools.target triple).mapError .ofEmit

/-- The object code of a module for a machine. -/
def objectCode (tools : Toolchain) (machine : Text) (module : Module) : Except Fault Artifact := do
  (tools.emit machine module).mapError .noCode
  .ok ⟨.object, module.text⟩

/-- Where to write a file if no path, or an empty one, is given for it. -/
def Request.destination (request : Request) (extension : Text) : Text :=
  (request.output.bind Given.filled?).getD (Path.withExtension request.source extension)

/-- What a file holds once it has been opened and what was to be written into it has been made or not. -/
def contents : Except Fault Artifact → Content
  | .ok artifact => .artifact artifact
  | .error _ => .bytes []

/-- Writes a file; `note` is what the log says about it. The file is opened first, so that it is left empty
    if what was to be written cannot be made. -/
def deliver (request : Request) (path : Text) (made : Except Fault Artifact) (note : Text) : Task Unit := do
  match ← ExceptT.lift (.write path (contents made) .done) with
  | .error error => throw (.ofWrite path error)
  | .ok () =>
    let _ ← settle (made.mapError .ofEmit)
    if request.verbose then ExceptT.lift (warnLine (lit "lowering.emit: " ++ note))
    say (lit "Successfully compiled to " ++ path)

/-- Prints the module. -/
def printModule (module : Module) : Task Unit := say module.text

/-- Writes the text of the module. -/
def writeText (tools : Toolchain) (request : Request) (module : Module) (output : Given) : Task Unit := do
  say (lit "Writing IR to " ++ output.shown ++ lit "...")
  settle (verify tools module)
  match output with
  | .blank => throw (.internal (lit "expected str, bytes or os.PathLike object, not list"))
  | .text path => deliver request path (.ok ⟨.text, module.text⟩) (lit "Wrote IR " ++ path)

/-- Writes the bitcode of the module; every module that is accepted has one. -/
def writeBitcode (tools : Toolchain) (request : Request) (module : Module) : Task Unit := do
  let path := request.destination (lit ".bc")
  say (lit "Writing bitcode to " ++ path ++ lit "...")
  settle (verify tools module)
  deliver request path (.ok ⟨.bitcode, module.text⟩) (lit "Wrote bitcode " ++ path)

/-- Writes the object code of the module. -/
def writeObject (tools : Toolchain) (request : Request) (module : Module) : Task Unit := do
  let path := request.destination (lit ".o")
  say (lit "Compiling to " ++ path ++ lit "...")
  settle (verify tools module)
  let machine ← settle (target tools module.triple)
  deliver request path (objectCode tools machine module)
    (lit "Wrote object file " ++ path ++ lit " for " ++ machine)

/-- Lowers a program and hands on its module. -/
def build (tools : Toolchain) (request : Request) (program : Program) : Task Module := do
  say (lit "Lowering to LLVM IR...")
  lower tools request program

/-- Makes the product that was asked for. -/
def produce (tools : Toolchain) (request : Request) (program : Program) : Task Unit :=
  match request.product, request.output with
  | .tree, _ => say program.node.doc.layout
  | .ir, none => do printModule (← build tools request program)
  | .ir, some output => do writeText tools request (← build tools request program) output
  | .bitcode, _ => do writeBitcode tools request (← build tools request program)
  | .object, _ => do writeObject tools request (← build tools request program)

/-- A whole compilation. -/
def compile (stack : Load.Stack) (tools : Toolchain) (request : Request) : Task Unit := do
  say (lit "Loading " ++ request.source ++ lit "...")
  produce tools request (← load stack request.source)

/-- The command on a machine: what it does for its arguments, and the status it ends with. -/
def plan (stack : Load.Stack) (tools : Toolchain) (arguments : List Text) : Plan Nat :=
  match parse arguments with
  | .error .help => .print help (.done 0)
  | .error (.misuse error) =>
    .warn (usage ++ Utf8.escapeSurrogates (lit "levc.py: error: " ++ error.message) ++ lit "\n") (.done 2)
  | .ok request => do
    match ← (compile stack tools request).run with
    | .ok () => pure 0
    | .error stop =>
      warnLine stop.report
      pure stop.status

end Lev.Command
