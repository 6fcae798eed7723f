import Lev.Table
import Lev.Text.Digit
import Lev.Text.Quoted

/-!
The arguments of the command. An option is given by its name, by a start of a long name that fits no
other, or by its letter; a value follows as the next argument, behind `=`, or directly behind a
letter. The one operand is the source. Behind the argument `--` there are only operands. The separator
`--` is no value: where it is attached to an option, the option is left blank.
-/
namespace Lev.Command

/-- What a compilation produces. -/
inductive Product where
  | object
  | bitcode
  | ir
  | tree
  deriving DecidableEq

/-- Options without a value. -/
inductive Flag where
  | help
  | emit (product : Product)
  | verbose
  deriving DecidableEq

/-- Options with a value. -/
inductive Setting where
  | output
  | moduleName
  | entry
  | triple
  deriving DecidableEq

inductive Key where
  | flag (flag : Flag)
  | setting (setting : Setting)
  deriving DecidableEq

/-- What is given for a setting. -/
inductive Given where
  | blank
  | text (value : Text)
  deriving DecidableEq

/-- A value that is attached to its option. -/
def Given.ofAttached (value : Text) : Given := if value = lit "--" then .blank else .text value

/-- A setting where it has to be shown. -/
def Given.shown : Given → Text
  | .blank => lit "[]"
  | .text value => value

/-- A setting where a blank or empty one counts for nothing. -/
def Given.filled? : Given → Option Text
  | .blank => none
  | .text value => if value.isEmpty then none else some value

/-- A compilation that is asked for. -/
structure Request where
  source : Text
  output : Option Given
  product : Product
  moduleName : Given
  entry : Given
  triple : Option Given
  verbose : Bool

/-- Why arguments cannot be understood. -/
inductive UsageError where
  | ambiguous (argument : Text) (candidates : List Text)
  | ignoredValue (flag : Flag) (value : Text)
  | missingValue (setting : Setting)
  | conflict (product other : Product)
  | missingSource
  | unrecognized (arguments : List Text)

/-- Why arguments give no request: help is asked for, or they are misused. -/
inductive Halt where
  | help
  | misuse (error : UsageError)

/-! ### Names -/

/-- The names of the options. -/
def names : Table Key :=
  [(lit "-h", .flag .help), (lit "--help", .flag .help),
   (lit "-o", .setting .output), (lit "--output", .setting .output),
   (lit "--emit-ir", .flag (.emit .ir)),
   (lit "--emit-bitcode", .flag (.emit .bitcode)),
   (lit "--emit-ast", .flag (.emit .tree)),
   (lit "--module-name", .setting .moduleName),
   (lit "--entry", .setting .entry),
   (lit "--triple", .setting .triple),
   (lit "--verbose", .flag .verbose)]

/-- An option by all its names. -/
def Key.title (key : Key) : Text :=
  Text.join (lit "/") ((names.filter fun (_, other) => decide (other = key)).map (·.1))

def UsageError.message : UsageError → Text
  | .ambiguous argument candidates =>
    lit "ambiguous option: " ++ argument ++ lit " could match " ++ Text.join (lit ", ") candidates
  | .ignoredValue flag value =>
    lit "argument " ++ (Key.flag flag).title ++ lit ": ignored explicit argument " ++ value.quoted
  | .missingValue setting => lit "argument " ++ (Key.setting setting).title ++ lit ": expected one argument"
  | .conflict product other =>
    lit "argument " ++ (Key.flag (.emit product)).title ++ lit ": not allowed with argument " ++
      (Key.flag (.emit other)).title
  | .missingSource => lit "the following arguments are required: source"
  | .unrecognized arguments => lit "unrecognized arguments: " ++ Text.join (lit " ") arguments

/-! ### Arguments one by one -/

/-- What the end of an option's argument asks for. -/
inductive Ending where
  | nothing
  | setting (setting : Setting) (value : Option Given)

/-- What an option's argument asks for: letters can be run together, and the last can take a value. -/
structure Bundle where
  flags : List Flag
  ending : Ending

/-- The options of a letter and the letters behind it. -/
def Bundle.ofLetters : Key → Text → Except UsageError Bundle
  | .setting setting, [] => .ok ⟨[], .setting setting none⟩
  | .setting setting, c :: rest => .ok ⟨[], .setting setting (some (.ofAttached (c :: rest)))⟩
  | .flag flag, [] => .ok ⟨[flag], .nothing⟩
  | .flag flag, c :: rest =>
    match names.get? [.char '-', c] with
    | none => .error (.ignoredValue flag (c :: rest))
    | some key => do
      let more ← ofLetters key rest
      .ok { more with flags := flag :: more.flags }

/-- The options of a letter and all that stands behind it, a sign `=` first or not. -/
def Bundle.ofShort (key : Key) : Text → Except UsageError Bundle
  | [] => ofLetters key []
  | c :: rest =>
    if !c.is '=' then ofLetters key (c :: rest)
    else
      match key, rest with
      | .setting setting, value => .ok ⟨[], .setting setting (some (.ofAttached value))⟩
      | .flag flag, [] => .error (.ignoredValue flag [])
      | .flag flag, letters => ofLetters (.flag flag) letters

/-- The option of a long name. -/
def Bundle.ofName : Key → Option Text → Except UsageError Bundle
  | .setting setting, value => .ok ⟨[], .setting setting (value.map .ofAttached)⟩
  | .flag flag, none => .ok ⟨[flag], .nothing⟩
  | .flag flag, some value => .error (.ignoredValue flag value)

/-- What a single argument is. Misuse of an option is reported only when its turn comes. -/
inductive Token where
  | operand (argument : Text)
  | separator
  | option (bundle : Except UsageError Bundle)
  | stray (argument : Text)

/-- Whether the argument is a number below zero. A line feed may end it. -/
def isNegativeNumber : Text → Bool
  | [] => false
  | sign :: number =>
    let digits (t : Text) : Text := t.takeWhile CodePoint.isDigit
    let ends (t : Text) : Bool := t.isEmpty || t = lit "\n"
    let whole := digits number
    sign.is '-' &&
      match number.drop whole.length with
      | [] => !whole.isEmpty
      | c :: rest =>
        if c.is '.' then !(digits rest).isEmpty && ends (rest.drop (digits rest).length)
        else !whole.isEmpty && ends (c :: rest)

/-- An argument that begins with a dash and names no option: a number, a phrase or a mistake. -/
def Token.ofOther (argument : Text) : Token :=
  if isNegativeNumber argument || argument.contains (.char ' ') then .operand argument else .stray argument

/-- An argument with two dashes: a name or the start of one, with or without a value. -/
def Token.ofLong (argument : Text) : Except UsageError Token :=
  let (name, value) :=
    match argument.cut? (.char '=') with
    | some (name, value) => (name, some value)
    | none => (argument, none)
  match names.get? name with
  | some key => .ok (.option (Bundle.ofName key value))
  | none =>
    match names.filter fun (candidate, _) => candidate.startsWith name with
    | [] => .ok (.ofOther argument)
    | [(_, key)] => .ok (.option (Bundle.ofName key value))
    | candidates => .error (.ambiguous argument (candidates.map (·.1)))

/-- The token of an argument that stands before any separator. -/
def Token.ofArgument (argument : Text) : Except UsageError Token :=
  match argument with
  | first :: second :: rest =>
    if !first.is '-' then .ok (.operand argument)
    else if second.is '-' then Token.ofLong argument
    else
      match names.get? [first, second] with
      | some key => .ok (.option (Bundle.ofShort key rest))
      | none => .ok (.ofOther argument)
  | _ => .ok (.operand argument)

/-- The tokens of the arguments. -/
def tokens : List Text → Except UsageError (List Token)
  | [] => .ok []
  | argument :: rest =>
    if argument = lit "--" then .ok (.separator :: rest.map .operand)
    else do
      let token ← Token.ofArgument argument
      .ok (token :: (← tokens rest))

/-! ### Arguments together -/

/-- What has been understood so far; `strays` are the arguments that nothing was made of. -/
structure Intake where
  source : Option Text := none
  output : Option Given := none
  product : Product := .object
  moduleName : Given := .text (lit "Main")
  entry : Given := .text (lit "main")
  triple : Option Given := none
  verbose : Bool := false
  strays : List Text := []

namespace Intake

def addStray (intake : Intake) (argument : Text) : Intake :=
  { intake with strays := intake.strays ++ [argument] }

/-- The first operand is the source. -/
def addOperand (intake : Intake) (argument : Text) : Intake :=
  match intake.source with
  | none => { intake with source := some argument }
  | some _ => intake.addStray argument

/-- A separator counts for nothing as long as the source is still to come. -/
def addSeparator (intake : Intake) : Intake :=
  match intake.source with
  | none => intake
  | some _ => intake.addStray (lit "--")

/-- Gives a setting its value. -/
def assign (intake : Intake) (setting : Setting) (value : Given) : Intake :=
  match setting with
  | .output => { intake with output := some value }
  | .moduleName => { intake with moduleName := value }
  | .entry => { intake with entry := value }
  | .triple => { intake with triple := some value }

/-- Asks for a product; two different ones cannot be had. -/
def choose (intake : Intake) (product : Product) : Except Halt Intake :=
  if intake.product = .object ∨ intake.product = product then .ok { intake with product }
  else .error (.misuse (.conflict product intake.product))

/-- Takes flags in order. -/
def raise (intake : Intake) : List Flag → Except Halt Intake
  | [] => .ok intake
  | .help :: _ => .error .help
  | .verbose :: rest => raise { intake with verbose := true } rest
  | .emit product :: rest => do raise (← intake.choose product) rest

/-- The request, once all arguments have been taken. -/
def finish (intake : Intake) : Except Halt Request :=
  match intake.source, intake.strays with
  | none, _ => .error (.misuse .missingSource)
  | some _, stray :: strays => .error (.misuse (.unrecognized (stray :: strays)))
  | some source, [] =>
    .ok
      { source, output := intake.output, product := intake.product, moduleName := intake.moduleName,
        entry := intake.entry, triple := intake.triple, verbose := intake.verbose }

/-- Takes tokens in order. A separator directly behind the source counts for nothing. -/
def take (intake : Intake) : List Token → Except Halt Request
  | [] => intake.finish
  | .separator :: rest => intake.addSeparator.take rest
  | .operand argument :: .separator :: rest =>
    match intake.source with
    | none => (intake.addOperand argument).take rest
    | some _ => ((intake.addOperand argument).addSeparator).take rest
  | .operand argument :: rest => (intake.addOperand argument).take rest
  | .stray argument :: rest => (intake.addStray argument).take rest
  | .option (.error error) :: _ => .error (.misuse error)
  | .option (.ok ⟨flags, .nothing⟩) :: rest => do (← intake.raise flags).take rest
  | .option (.ok ⟨flags, .setting setting (some value)⟩) :: rest => do
    ((← intake.raise flags).assign setting value).take rest
  | .option (.ok ⟨flags, .setting setting none⟩) :: .operand value :: rest => do
    ((← intake.raise flags).assign setting (.text value)).take rest
  | .option (.ok ⟨_, .setting setting none⟩) :: _ => .error (.misuse (.missingValue setting))

end Intake

/-- The request that arguments make. -/
def parse (arguments : List Text) : Except Halt Request := do
  let tokens ← (tokens arguments).mapError .misuse
  Intake.take {} tokens

end Lev.Command
