import Lev.Proofs.LoadFailures
import Lev.Proofs.Whole

/-!
How a compilation ends once its program has been loaded. What the command writes is read off its plan, and
the steps of the plan are followed one by one. What the tools of the machine do is assumed by name: they
accept a module whose blocks are closed, and produce the object code of a module that they have accepted.
Main statement: where the paths can be printed and written and the entry function has a name, the command
ends with status 0 or 1, and with status 1 exactly if the program cannot be built or has no target; it
writes one file of the kind that was asked for, or none.
-/
namespace Lev

/-! ### Files that are written -/

namespace Plan
variable {α β : Type}

/-- The files that a run writes, in order. -/
def writes : Plan α → Disk → List (Text × Content)
  | .done _,_ => []
  | .print _ next,disk => next.writes disk
  | .warn _ next,disk => next.writes disk
  | .read path next,disk => (next (disk.read path)).writes disk
  | .write path content next,disk =>
    match disk.write path content with
    | .ok after => (path,content) :: (next (.ok ())).writes after
    | .error error => (next (.error error)).writes disk

theorem writes_bind (first : Plan α) (next : α → Plan β) (disk : Disk) :
    (first >>= next).writes disk = first.writes disk ++ (next (first.run disk).result).writes (first.run disk).disk := by
  change (first.bind next).writes disk = _
  induction first generalizing disk with
  | done result => rfl
  | print text rest ih => exact ih disk
  | warn text rest ih => exact ih disk
  | read path rest ih => exact ih _ disk
  | write path content rest ih =>
    simp only [Plan.bind,Plan.run,writes]
    cases disk.write path content with
    | ok after => exact congrArg _ (ih (.ok ()) after)
    | error fault => exact ih (.error fault) disk

end Plan

theorem Disk.write_of_writable {disk : Disk} {path : Text} {place : Location} (writable : disk.writable path = .ok place)
    (content : Content) : ∃ after, disk.write path content = .ok after := by
  unfold write
  rw [writable]
  exact ⟨_,rfl⟩

/-- The disk after files have been written in order. -/
def Disk.writeAll (disk : Disk) : List (Text × Content) → Except FileError Disk
  | [] => .ok disk
  | (path,content) :: rest => do
    let after ← disk.write path content
    after.writeAll rest

/-- A run changes the disk by the files that it writes and by nothing else. -/
theorem Plan.writeAll_writes {α : Type} (plan : Plan α) (disk : Disk) : disk.writeAll (plan.writes disk) = .ok (plan.run disk).disk := by
  induction plan generalizing disk with
  | done result => rfl
  | print text rest ih => exact ih disk
  | warn text rest ih => exact ih disk
  | read path rest ih => exact ih _ disk
  | write path content rest ih =>
    simp only [Plan.run,writes]
    cases written : disk.write path content with
    | ok after =>
      simp only [Disk.writeAll,written]
      exact ih (.ok ()) after
    | error fault => exact ih (.error fault) disk

namespace Command

/-! ### The steps of a compilation -/

/-- The lines as they come out on the second channel. -/
def warned (lines : List Text) : Text := lines.flatMap fun line => Utf8.escapeSurrogates line ++ lit "\n"

theorem warned_append (lines others : List Text) : warned (lines ++ others) = warned lines ++ warned others := List.flatMap_append

/-- From a disk, the task ends with the result and leaves the second disk. It has printed `err` on the second channel and
    written the files. -/
def Does {α : Type} (task : Task α) (disk : Disk) (result : Except Stop α) (err : Text) (after : Disk)
    (files : List (Text × Content)) : Prop :=
  ∃ out, task.run.run disk = ⟨result,out,err,after⟩ ∧ task.run.writes disk = files

namespace Does
variable {α β : Type} {task : Task α} {next : α → Task β} {disk after last : Disk} {a : α} {stop : Stop} {result : Except Stop β}
variable {err err' : Text} {files files' : List (Text × Content)}

theorem bind (first : Does task disk (.ok a) err after files) (rest : Does (next a) after result err' last files') :
    Does (task >>= next) disk result (err ++ err') last (files ++ files') := by
  obtain ⟨out,run,written⟩ := first
  obtain ⟨out',run',written'⟩ := rest
  refine ⟨out ++ out',?_,?_⟩
  · rw [ExceptT.run_bind,Plan.run_bind,run]
    dsimp only
    rw [run']
  · rw [ExceptT.run_bind,Plan.writes_bind,run,written]
    dsimp only
    rw [written']
theorem stop_bind (first : Does task disk (.error stop) err after files) : Does (task >>= next) disk (.error stop) err after files := by
  obtain ⟨out,run,written⟩ := first
  refine ⟨out,?_,?_⟩
  · rw [ExceptT.run_bind,Plan.run_bind,run]
    simp [Plan.run,pure]
  · rw [ExceptT.run_bind,Plan.writes_bind,run,written]
    simp [Plan.writes,pure]
/-- What follows a step that leaves no trace. -/
theorem andThen (first : Does task disk (.ok a) [] disk []) (rest : Does (next a) disk result err last files) :
    Does (task >>= next) disk result err last files :=
  first.bind rest
theorem settled {step : Except Stop α} (passes : step = .ok a) (rest : Does (next a) disk result err last files) :
    Does (settle step >>= next) disk result err last files := by
  subst passes
  exact andThen ⟨[],rfl,rfl⟩ rest
theorem stopped {step : Except Stop α} (fails : step = .error stop) (disk : Disk) :
    Does (settle step >>= next) disk (.error stop) [] disk [] := by
  subst fails
  exact stop_bind ⟨[],rfl,rfl⟩
theorem said {text : Text} (whole : text.Whole) (disk : Disk) : Does (say text) disk (.ok ()) [] disk [] := by
  rw [say,Utf8.unencodable?_eq_none_iff.mpr whole]
  exact ⟨_,rfl,rfl⟩
theorem lifted (plan : Plan α) (disk : Disk) :
    Does (ExceptT.lift plan) disk (.ok (plan.run disk).result) (plan.run disk).err (plan.run disk).disk (plan.writes disk) := by
  have lift : (ExceptT.lift plan : Task α).run = plan >>= fun a => .done (.ok a) := rfl
  refine ⟨(plan.run disk).out,?_,?_⟩
  · rw [lift,Plan.run_bind]
    simp [Plan.run]
  · rw [lift,Plan.writes_bind]
    simp [Plan.writes]
theorem given (a : α) (disk : Disk) : Does (pure a) disk (.ok a) [] disk [] := ⟨[],rfl,rfl⟩
theorem thrown (stop : Stop) (disk : Disk) : Does (throw stop : Task α) disk (.error stop) [] disk [] := ⟨[],rfl,rfl⟩

end Does

/-- The plan puts the lines on the second channel. -/
def Warns (plan : Plan Unit) (lines : List Text) : Prop :=
  ∀ disk, plan.run disk = ⟨(),[],warned lines,disk⟩ ∧ plan.writes disk = []

theorem warns_line (line : Text) : Warns (warnLine line) [line] := by
  intro disk
  simp [warnLine,Plan.run,Plan.writes,warned]
theorem warns_lines (lines : List Text) : Warns (warnLines lines) lines := by
  intro disk
  induction lines with
  | nil => exact ⟨rfl,rfl⟩
  | cons line rest ih =>
    rw [warnLines,Plan.run_bind,Plan.writes_bind]
    simp [warnLine,Plan.run,Plan.writes,ih,warned]
theorem Does.after_warning {α : Type} {plan : Plan Unit} {lines : List Text} (warns : Warns plan lines) {task : Task α} {disk last : Disk}
    {result : Except Stop α} {err : Text} {files : List (Text × Content)} (rest : Does task disk result err last files) :
    Does (do ExceptT.lift plan; task) disk result (warned lines ++ err) last files := by
  obtain ⟨run,written⟩ := warns disk
  have first := lifted plan disk
  rw [run,written] at first
  exact first.bind rest

/-- What the log says, where it is asked for. -/
def Request.logged (request : Request) (lines : List Text) : List Text := if request.verbose then lines else []

theorem Does.after_log {α : Type} (request : Request) {plan : Plan Unit} {lines : List Text} (warns : Warns plan lines) {task : Task α}
    {disk last : Disk} {result : Except Stop α} {err : Text} {files : List (Text × Content)} (rest : Does task disk result err last files) :
    Does (if request.verbose then (do ExceptT.lift plan; task) else task) disk result (warned (request.logged lines) ++ err) last files := by
  unfold Request.logged
  split
  · exact rest.after_warning warns
  · exact rest

variable {stack : Load.Stack} {tools : Toolchain} {arguments : List Text} {disk : Disk}
variable {request : Request} {program : Program} {draft : Draft}

/-- Building the program on the machine with the settings of the request has this outcome. -/
def Request.Builds (request : Request) (tools : Toolchain) (program : Program) (outcome : Except Fault Unit × Draft) : Prop :=
  request.build program (.new (request.options tools)) = outcome

theorem Request.Builds.unique {outcome outcome' : Except Fault Unit × Draft} (first : request.Builds tools program outcome)
    (second : request.Builds tools program outcome') : outcome = outcome' :=
  first.symm.trans second
theorem Request.Builds.not_failed (builds : request.Builds tools program (.ok (),draft)) :
    ¬∃ errors draft, request.Builds tools program (.error (.program (.build errors)),draft) := by
  rintro ⟨errors,_,failed⟩
  cases builds.unique failed
theorem messages_eq (errors : List ProgramError) : ProgramError.messages errors = errors.map ProgramError.message := by
  induction errors with
  | nil => rfl
  | cons error rest ih => rw [ProgramError.messages,ih,List.map_cons]
theorem Does.lowers (builds : request.Builds tools program (.ok (),draft)) (disk : Disk) :
    Does (lower tools request program) disk (.ok draft.module) (warned (request.logged draft.log)) disk [] := by
  unfold lower
  rw [builds]
  have does := (given draft.module disk).after_log request (warns_lines draft.log)
  rwa [List.append_nil] at does
theorem Does.refuses {errors : List ProgramError} (builds : request.Builds tools program (.error (.program (.build errors)),draft)) (disk : Disk) :
    Does (lower tools request program) disk (.error (.failed (Text.ofNat errors.length ++ lit " error(s)")))
      (warned (request.logged draft.log ++ errors.map fun error => lit "Error: " ++ error.message)) disk [] := by
  unfold lower
  rw [builds]
  simp only [complaints,messages_eq,List.length_map,List.map_map]
  have stops : Does (throw (.failed (Text.ofNat errors.length ++ lit " error(s)")) : Task Module) disk _ [] disk [] := thrown _ disk
  have lines := (stops.after_warning (warns_lines (errors.map ((lit "Error: " ++ ·) ∘ ProgramError.message)))).after_log request
    (warns_lines draft.log)
  rw [List.append_nil,← warned_append] at lines
  exact lines
/-- A file that can be written is written once what it is to hold has been made. -/
theorem Does.delivers {path : Text} (printable : path.Whole) {disk after : Disk} {made : Except Fault Artifact} {artifact : Artifact}
    (makes : made = .ok artifact) (note : Text) (written : disk.write path (.artifact artifact) = .ok after) :
    Does (deliver request path made note) disk (.ok ()) (warned (request.logged [lit "lowering.emit: " ++ note])) after
      [(path,.artifact artifact)] := by
  subst makes
  have asked : Does (ExceptT.lift (.write path (.artifact artifact) .done)) disk (.ok (.ok ())) [] after [(path,.artifact artifact)] := by
    have does := lifted (.write path (.artifact artifact) .done) disk
    simpa [Plan.run,Plan.writes,written] using does
  have closing : Text.Whole (lit "Successfully compiled to " ++ path) := by simp [printable]
  have logged := (said closing after).after_log request (warns_line (lit "lowering.emit: " ++ note))
  rw [List.append_nil] at logged
  exact asked.bind (settled rfl logged)

/-! ### What is asked for -/

/-- The file that is asked for, if one is, and its kind. -/
def Request.file? (request : Request) : Option (Given × FileKind) :=
  match request.product,request.output with
  | .tree,_ => none
  | .ir,none => none
  | .ir,some output => some (output,.text)
  | .bitcode,_ => some (.text (request.destination (lit ".bc")),.bitcode)
  | .object,_ => some (.text (request.destination (lit ".o")),.object)
/-- The triple that object code is asked for. -/
def Request.target (request : Request) (tools : Toolchain) : Text := request.triple?.getD tools.host

theorem Request.target_eq (request : Request) (tools : Toolchain) : (request.options tools).target = request.target tools := by
  unfold Options.target Request.target Request.options
  cases found : request.triple? with
  | none => rfl
  | some asked =>
    have filled : asked.isEmpty = false := by
      obtain ⟨given,_,same⟩ := Option.bind_eq_some_iff.mp found
      cases given with
      | blank => cases same
      | text value =>
        by_cases empty : value.isEmpty
        · simp [Given.filled?,empty] at same
        · simp only [Given.filled?,empty,Bool.false_eq_true,if_false,Option.some.injEq] at same
          simpa [same] using empty
    simp [filled]

/-- The tools accept the module that is built if its blocks are closed. -/
def Accepts (tools : Toolchain) (request : Request) (program : Program) : Prop :=
  ∀ draft, request.Builds tools program (.ok (),draft) → draft.module.isClosed = true → tools.accept draft.module = .ok ()
/-- If the tools accept the module that is built and find a target for it, they produce its object code. -/
def Emits (tools : Toolchain) (request : Request) (program : Program) : Prop :=
  ∀ draft, request.Builds tools program (.ok (),draft) → tools.accept draft.module = .ok () →
    tools.lookup (request.target tools) = .ok () →
    ∃ machine, tools.machine (request.target tools) = .ok machine ∧ tools.emit machine draft.module = .ok ()

/-- The arguments ask for the compilation of a program that can be loaded. The names of the module and of the target have an
    encoding, and the file that is asked for can be written. -/
structure Supplied (stack : Load.Stack) (arguments : List Text) (disk : Disk) (request : Request) (program : Program) : Prop where
  parsed : parse arguments = .ok request
  loaded : ∃ bytes text, disk.read request.source = .ok bytes ∧ Utf8.decode bytes = .ok text ∧
    Load.programOn stack (Utf8.unifyLineEnds text) = .ok program
  named : request.moduleName.shown.Whole
  targeted : ∀ triple, request.triple? = some triple → triple.Whole
  writable : ∀ given kind, request.file? = some (given,kind) → ∃ path place, given = .text path ∧ disk.writable path = .ok place

/-- The ways in which the compilation of a loaded program can end. -/
inductive Outcome (tools : Toolchain) (request : Request) (program : Program) (disk : Disk) :
    Except Stop Unit → Text → Disk → List (Text × Content) → Prop
  | shown (tree : request.product = .tree) : Outcome tools request program disk (.ok ()) [] disk []
  | printed (draft : Draft) (ir : request.product = .ir) (nowhere : request.output = none)
      (builds : request.Builds tools program (.ok (),draft)) (err : Text) : Outcome tools request program disk (.ok ()) err disk []
  | written (draft : Draft) (path : Text) (kind : FileKind) (after : Disk) (asked : request.file? = some (.text path,kind))
      (builds : request.Builds tools program (.ok (),draft))
      (targeted : request.product = .object → tools.lookup (request.target tools) = .ok ()) (err : Text) :
      Outcome tools request program disk (.ok ()) err after [(path,.artifact ⟨kind,draft.module.text⟩)]
  | refused (errors : List ProgramError) (draft : Draft) (compiled : request.product ≠ .tree)
      (builds : request.Builds tools program (.error (.program (.build errors)),draft)) :
      Outcome tools request program disk (.error (.failed (Text.ofNat errors.length ++ lit " error(s)")))
        (warned (request.logged draft.log ++ errors.map fun error => lit "Error: " ++ error.message)) disk []
  | untargeted (draft : Draft) (object : request.product = .object) (builds : request.Builds tools program (.ok (),draft))
      (unsupported : tools.lookup (request.target tools) ≠ .ok ()) (message err : Text) :
      Outcome tools request program disk (.error (.failed message)) err disk []

/-- The task ends in one of these ways. -/
def Ends (tools : Toolchain) (request : Request) (program : Program) (disk : Disk) (task : Task Unit) : Prop :=
  ∃ result err after files, Does task disk result err after files ∧ Outcome tools request program disk result err after files

theorem Request.build_of_entry (program : Program) (entered : request.entry ≠ .blank) :
    request.build program = Draft.build program.subject := by
  unfold Request.build
  cases entry : request.entry with
  | blank => exact absurd entry entered
  | text name => rfl
/-- Before anything is made of it, the program is built. -/
theorem produce_eq (tools : Toolchain) (program : Program) (compiled : request.product ≠ .tree) :
    ∃ next, produce tools request program = build tools request program >>= next := by
  unfold produce
  split
  · exact absurd ‹_› compiled
  · exact ⟨_,rfl⟩
  · exact ⟨_,rfl⟩
  · exact ⟨_,rfl⟩
  · exact ⟨_,rfl⟩

theorem Does.builds {outcome : Except Stop Module} {err : Text} (lowers : Does (lower tools request program) disk outcome err disk []) :
    Does (build tools request program) disk outcome err disk [] :=
  (said (Text.whole_lit "Lowering to LLVM IR...") disk).andThen lowers

theorem verify_of_whole {module : Module} (whole : module.text.Whole) (accepted : tools.accept module = .ok ()) :
    verify tools module = .ok () := by
  rw [verify,Toolchain.verify,Utf8.unencodable?_eq_none_iff.mpr whole,accepted]
  rfl
/-- A module that passes the check is handed on once its path has been announced. -/
theorem Does.announces (verified : verify tools draft.module = .ok ()) {path : Text} (printable : path.Whole) {front : Text} (title : front.Whole)
    {task : Task Unit} {after : Disk} {result : Except Stop Unit} {err : Text} {files : List (Text × Content)}
    (rest : Does task disk result err after files) :
    Does (do
      say (front ++ path ++ lit "...")
      settle (verify tools draft.module)
      task) disk result err after files := by
  refine (said ?_ disk).andThen (settled verified rest)
  simp [title,printable]
theorem target_of_lookup {triple machine : Text} (whole : triple.Whole) (found : tools.lookup triple = .ok ())
    (set : tools.machine triple = .ok machine) : target tools triple = .ok machine := by
  rw [target,Toolchain.target,Utf8.unencodable?_eq_none_iff.mpr whole,found,set]
  rfl
theorem target_of_complaint {triple complaint : Text} (whole : triple.Whole) (lost : tools.lookup triple = .error complaint) :
    target tools triple = .error (.failed (Fault.noTarget triple complaint).message) := by
  rw [target,Toolchain.target,Utf8.unencodable?_eq_none_iff.mpr whole,lost]
  rfl

section
variable (supplied : Supplied stack arguments disk request program) (printable : ∀ path kind, request.file? = some (.text path,kind) → path.Whole)
include supplied printable

theorem Supplied.place {given : Given} {kind : FileKind} (asked : request.file? = some (given,kind)) (text : Text) :
    ∃ path after, given = .text path ∧ path.Whole ∧ disk.write path (.artifact ⟨kind,text⟩) = .ok after := by
  obtain ⟨path,place,rfl,writable⟩ := supplied.writable _ _ asked
  obtain ⟨after,written⟩ := Disk.write_of_writable writable (.artifact ⟨kind,text⟩)
  exact ⟨path,after,rfl,printable _ _ asked,written⟩
/-- What is made of a module that has been built and that the tools serve. -/
theorem Supplied.hands_on (compiled : request.product ≠ .tree) (builds : request.Builds tools program (.ok (),draft))
    (accepted : tools.accept draft.module = .ok ()) (emits : Emits tools request program) (whole : draft.module.text.Whole)
    (triple : draft.module.triple = request.target tools ∧ (request.target tools).Whole) :
    Ends tools request program disk (produce tools request program) := by
  unfold Ends
  have done := (Does.lowers builds disk).builds
  have verified := verify_of_whole whole accepted
  cases product : request.product with
  | tree => exact absurd product compiled
  | ir =>
    cases output : request.output with
    | none =>
      have same : produce tools request program = build tools request program >>= printModule := by simp only [produce,product,output]
      rw [same]
      exact ⟨_,_,_,_,done.bind (Does.said whole disk),.printed draft product output builds _⟩
    | some given =>
      have asked : request.file? = some (given,.text) := by simp [Request.file?,product,output]
      obtain ⟨path,after,rfl,shown,written⟩ := supplied.place printable asked draft.module.text
      have same : produce tools request program = build tools request program >>= fun module => writeText tools request module (.text path) := by
        simp only [produce,product,output]
      have handed : Does (writeText tools request draft.module (.text path)) disk _ _ after _ :=
        .announces verified shown (Text.whole_lit "Writing IR to ") (.delivers shown rfl _ written)
      rw [same]
      exact ⟨_,_,_,_,done.bind handed,.written draft path .text after asked builds (by simp [product]) _⟩
  | bitcode =>
    have asked : request.file? = some (.text (request.destination (lit ".bc")),.bitcode) := by simp [Request.file?,product]
    obtain ⟨_,after,same,shown,written⟩ := supplied.place printable asked draft.module.text
    cases same
    have same : produce tools request program = build tools request program >>= writeBitcode tools request := by simp only [produce,product]
    have handed : Does (writeBitcode tools request draft.module) disk _ _ after _ :=
      .announces verified shown (Text.whole_lit "Writing bitcode to ") (.delivers shown rfl _ written)
    rw [same]
    exact ⟨_,_,_,_,done.bind handed,.written draft _ .bitcode after asked builds (by simp [product]) _⟩
  | object =>
    have asked : request.file? = some (.text (request.destination (lit ".o")),.object) := by simp [Request.file?,product]
    obtain ⟨_,after,same,shown,written⟩ := supplied.place printable asked draft.module.text
    cases same
    have same : produce tools request program = build tools request program >>= writeObject tools request := by
      simp only [produce,product]
    rw [same]
    cases found : tools.lookup (request.target tools) with
    | ok _ =>
      obtain ⟨machine,set,emitted⟩ := emits draft builds accepted found
      have targets : target tools draft.module.triple = .ok machine := triple.1 ▸ target_of_lookup triple.2 found set
      have makes : objectCode tools machine draft.module = .ok ⟨.object,draft.module.text⟩ := by
        rw [objectCode,emitted]
        rfl
      have handed : Does (writeObject tools request draft.module) disk _ _ after _ :=
        .announces verified shown (Text.whole_lit "Compiling to ") (.settled targets (.delivers shown makes _ written))
      exact ⟨_,_,_,_,done.bind handed,.written draft _ .object after asked builds (fun _ => found) _⟩
    | error complaint =>
      have fails : target tools draft.module.triple = .error _ := triple.1 ▸ target_of_complaint triple.2 found
      have handed : Does (writeObject tools request draft.module) disk _ _ disk _ :=
        .announces verified shown (Text.whole_lit "Compiling to ") (.stopped fails disk)
      exact ⟨_,_,_,_,done.bind handed,.untargeted draft product builds (by simp [found]) _ _⟩
/-- Where the entry function has a name and the path can be printed, the program is shown, printed, written or refused. -/
theorem Supplied.produces (entered : request.product ≠ .tree → request.entry ≠ .blank)
    (accepts : Accepts tools request program) (emits : Emits tools request program) :
    Ends tools request program disk (produce tools request program) := by
  by_cases tree : request.product = .tree
  · refine ⟨_,_,_,_,?_,.shown tree⟩
    rw [produce,tree]
    exact Does.said program.whole_layout disk
  · have same := Request.build_of_entry program (entered tree)
    rcases Draft.build_cases program (request.options tools) with ⟨draft,built⟩ | ⟨errors,draft,failed⟩
    · have builds : request.Builds tools program (.ok (),draft) := by rw [Request.Builds,same,built]
      have host : tools.host.Whole := Utf8.unencodable?_eq_none_iff.mp tools.encodable
      have asked : draft.module.triple = request.target tools := by
        obtain ⟨_,_,_,_,_,_,_,taken,_⟩ := Draft.build_eq_ok built
        rw [Draft.module,taken.settings]
        exact request.target_eq tools
      have targeted : (request.target tools).Whole := request.target_eq tools ▸ Options.whole_target host supplied.targeted
      have accepted := accepts draft builds (Draft.isClosed_of_built built)
      have whole := Draft.whole_text built supplied.named host supplied.targeted
      exact supplied.hands_on printable tree builds accepted emits whole ⟨asked,targeted⟩
    · have builds : request.Builds tools program (.error (.program (.build errors)),draft) := by rw [Request.Builds,same,failed]
      obtain ⟨next,same⟩ := produce_eq tools program tree
      rw [Ends,same]
      exact ⟨_,_,_,_,(Does.refuses builds disk).builds.stop_bind,.refused errors draft tree builds⟩

end

/-! ### The command -/

theorem Supplied.loads (supplied : Supplied stack arguments disk request program) : Does (load stack request.source) disk (.ok program) [] disk [] := by
  obtain ⟨bytes,raw,read,decoded,loaded⟩ := supplied.loaded
  have asked : Does (ExceptT.lift (.read request.source .done)) disk (.ok (.ok bytes)) [] disk [] := by
    have does := Does.lifted (.read request.source .done) disk
    simpa [Plan.run,Plan.writes,read] using does
  have settled : decodeProgram stack request.source bytes = .ok program := by
    simp [decodeProgram,decoded,loaded,Except.mapError,Bind.bind,Except.bind]
  refine asked.andThen ?_
  dsimp only
  rw [settled]
  exact ⟨[],rfl,rfl⟩
theorem Supplied.compiles (supplied : Supplied stack arguments disk request program) (source : request.source.Whole)
    (printable : ∀ path kind, request.file? = some (.text path,kind) → path.Whole)
    (entered : request.product ≠ .tree → request.entry ≠ .blank)
    (accepts : Accepts tools request program) (emits : Emits tools request program) :
    Ends tools request program disk (compile stack tools request) := by
  obtain ⟨result,err,after,files,does,outcome⟩ := supplied.produces printable entered accepts emits
  have announced : Text.Whole (lit "Loading " ++ request.source ++ lit "...") := by simp [source]
  exact ⟨result,err,after,files,(Does.said announced disk).andThen (supplied.loads.andThen does),outcome⟩

/-- The status that a compilation ends with. -/
def status : Except Stop Unit → Nat
  | .ok () => 0
  | .error stop => stop.status
/-- What is said about a compilation that stops. -/
def closing : Except Stop Unit → List Text
  | .ok () => []
  | .error stop => [stop.report]

theorem Does.plan_run (parsed : parse arguments = .ok request) {result : Except Stop Unit} {err : Text} {after : Disk}
    {files : List (Text × Content)} (does : Does (compile stack tools request) disk result err after files) :
    ((plan stack tools arguments).run disk).result = status result ∧ ((plan stack tools arguments).run disk).err = err ++ warned (closing result) ∧
      (plan stack tools arguments).writes disk = files := by
  obtain ⟨out,run,written⟩ := does
  rw [plan,parsed]
  dsimp only
  rw [Plan.run_bind,Plan.writes_bind,run,written]
  cases result with
  | ok _ => simp [status,closing,Plan.run,Plan.writes,warned,pure]
  | error stop =>
    simp [status,closing,warnLine,Plan.run,Plan.writes,warned,pure,Bind.bind,Plan.bind]

theorem Request.file?_eq_none_iff : request.file? = none ↔ request.product = .tree ∨ request.product = .ir ∧ request.output = none := by
  unfold Request.file?
  cases request.product <;> cases request.output <;> simp

namespace Outcome
variable {result : Except Stop Unit} {err : Text} {after : Disk} {files : List (Text × Content)}

theorem status_eq (outcome : Outcome tools request program disk result err after files) : status result = 0 ∨ status result = 1 := by
  cases outcome with
  | shown | printed | written => exact .inl rfl
  | refused | untargeted => exact .inr rfl
theorem status_eq_one_iff (outcome : Outcome tools request program disk result err after files) :
    status result = 1 ↔ request.product ≠ .tree ∧ ((∃ errors draft, request.Builds tools program (.error (.program (.build errors)),draft)) ∨
      request.product = .object ∧ tools.lookup (request.target tools) ≠ .ok ()) := by
  cases outcome with
  | shown tree => simp [status,tree]
  | printed draft ir nowhere builds => simp [status,builds.not_failed,ir]
  | written draft path kind after asked builds targeted => simp +contextual [status,builds.not_failed,targeted]
  | refused errors draft compiled builds => exact iff_of_true rfl ⟨compiled,.inl ⟨errors,draft,builds⟩⟩
  | untargeted draft object builds unsupported => exact iff_of_true rfl ⟨by simp [object],.inr ⟨object,unsupported⟩⟩
theorem report_of_builds (outcome : Outcome tools request program disk result err after files) {errors : List ProgramError} {draft : Draft}
    (compiled : request.product ≠ .tree) (builds : request.Builds tools program (.error (.program (.build errors)),draft)) :
    err ++ warned (closing result) = warned (request.logged draft.log ++ errors.map (fun error => lit "Error: " ++ error.message) ++
      [lit "Compilation failed: " ++ Text.ofNat errors.length ++ lit " error(s)"]) := by
  cases outcome with
  | shown tree => exact absurd tree compiled
  | printed draft _ _ built | written draft _ _ _ _ built | untargeted draft _ built => cases built.unique builds
  | refused errors draft _ failed =>
    cases failed.unique builds
    simp [warned_append,closing,Stop.report]
theorem files_ne_nil_iff (outcome : Outcome tools request program disk result err after files) :
    files ≠ [] ↔ status result = 0 ∧ request.product ≠ .tree ∧ ¬(request.product = .ir ∧ request.output = none) := by
  rw [← not_or,← Request.file?_eq_none_iff]
  cases outcome with
  | shown tree => simp [Request.file?,tree]
  | printed _ ir nowhere => simp [Request.file?,ir,nowhere]
  | written _ _ _ _ asked => simp [status,asked]
  | refused | untargeted => simp [status,Stop.status]
theorem files_eq (outcome : Outcome tools request program disk result err after files) (any : files ≠ []) :
    ∃ path kind draft, request.file? = some (.text path,kind) ∧ request.Builds tools program (.ok (),draft) ∧
      files = [(path,.artifact ⟨kind,draft.module.text⟩)] := by
  cases outcome with
  | written draft path kind _ asked builds => exact ⟨path,kind,draft,asked,builds,rfl⟩
  | shown | printed | refused | untargeted => exact absurd rfl any

end Outcome

end Command

open Command (Supplied Request Outcome Accepts Emits)

/-- Let a program be loaded, its paths be such that they can be printed and written, and the entry function have a name; let the
    tools of the machine accept the module that is built if its blocks are closed, and produce its object code if they have
    accepted it and there is a target. Then the command ends with status 0 or 1. It ends with 1 exactly if more than the tree is asked for and the program cannot be
    built or there is no target for its object code. If it cannot be built, each of its errors is reported, in order, behind the
    log, and then their number. A file is written exactly if the status is 0 and one was asked for; it is one file, of the kind
    that was asked for, and holds the module that was built. -/
theorem compile_outcome (stack : Load.Stack) (tools : Toolchain) (arguments : List Text) (disk : Disk) (request : Request)
    (program : Program) (supplied : Supplied stack arguments disk request program) (source : request.source.Whole)
    (printable : ∀ path kind, request.file? = some (.text path,kind) → path.Whole)
    (entered : request.product ≠ .tree → request.entry ≠ .blank)
    (accepts : Accepts tools request program) (emits : Emits tools request program) :
    let trace := (Command.plan stack tools arguments).run disk
    let files := (Command.plan stack tools arguments).writes disk
    (trace.result = 0 ∨ trace.result = 1) ∧
    (trace.result = 1 ↔ request.product ≠ .tree ∧
      ((∃ errors draft, request.Builds tools program (.error (.program (.build errors)),draft)) ∨
        request.product = .object ∧ tools.lookup (request.target tools) ≠ .ok ())) ∧
    (∀ errors draft, request.product ≠ .tree → request.Builds tools program (.error (.program (.build errors)),draft) →
      trace.err = Command.warned (request.logged draft.log ++ errors.map (fun error => lit "Error: " ++ error.message) ++
        [lit "Compilation failed: " ++ Text.ofNat errors.length ++ lit " error(s)"])) ∧
    (files ≠ [] ↔ trace.result = 0 ∧ request.product ≠ .tree ∧ ¬(request.product = .ir ∧ request.output = none)) ∧
    (files ≠ [] → ∃ path kind draft, request.file? = some (.text path,kind) ∧ request.Builds tools program (.ok (),draft) ∧
      files = [(path,.artifact ⟨kind,draft.module.text⟩)]) ∧
    disk.writeAll files = .ok trace.disk := by
  intro trace files
  obtain ⟨result,err,after,written,does,outcome⟩ := supplied.compiles source printable entered accepts emits
  obtain ⟨ends,reports,writes⟩ := does.plan_run supplied.parsed
  have status : trace.result = Command.status result := ends
  have same : files = written := writes
  rw [status,same]
  refine ⟨outcome.status_eq,outcome.status_eq_one_iff,?_,outcome.files_ne_nil_iff,outcome.files_eq,?_⟩
  · intro errors draft compiled builds
    exact reports.trans (outcome.report_of_builds compiled builds)
  · exact same ▸ (Command.plan stack tools arguments).writeAll_writes disk

/-- A disk with one file, in the working directory. -/
def Disk.ofFile (name text : Text) : Disk := ⟨[],[],[([name],.bytes (Utf8.encode text))]⟩

/-- The text of a program that calls `f`. -/
def callingText : Text := lit "\x7b\"kind\":\"Call\",\"name\":\"f\",\"args\":[]\x7d"
/-- The text of a program that binds what `f` gives to an immutable name. -/
def freezingText : Text :=
  lit "\x7b\"stmts\":[\x7b\"kind\":\"Let\",\"name\":\"y\",\"rhs\":" ++ callingText ++ lit "\x7d],\"end\":" ++ callingText ++ lit "\x7d"

/-- The text is that of a program. -/
def Load.Loads (text : Text) : Prop :=
  Utf8.decode (Utf8.encode text) = .ok text ∧ (Load.programOn .unbounded (Utf8.unifyLineEnds text)).isOk = true

theorem callingText_loads : Load.Loads callingText := by
  unfold Load.Loads
  decide +kernel
theorem freezingText_loads : Load.Loads freezingText := by
  unfold Load.Loads
  decide +kernel

/-- An argument of one byte that is no text, as it is decoded: U+DCFF. -/
def escapedByte : Text := [.surrogate 0x4FF]

/-- A request in which the module has its usual name and there is no triple. -/
def Command.Request.usual (source : Text) (output : Option Command.Given) (product : Command.Product) (entry : Command.Given)
    (verbose : Bool) : Request :=
  ⟨source,output,product,.text (lit "Main"),entry,none,verbose⟩

theorem Command.Request.printable {request : Request} {path : Text} {kind : FileKind} (file : request.file? = some (.text path,kind))
    (whole : path.Whole) : ∀ path kind, request.file? = some (.text path,kind) → path.Whole := by
  intro other kind asked
  cases file.symm.trans asked
  exact whole
/-- With the usual names, the compilation of a file to a path that can be written is supplied with all it needs. -/
theorem Command.Supplied.ofFile {arguments : List Text} {request : Request} {name text : Text} (parsed : Command.parse arguments = .ok request)
    (read : (Disk.ofFile name text).read request.source = .ok (Utf8.encode text)) (loads : Load.Loads text)
    (usual : request.moduleName = .text (lit "Main") ∧ request.triple = none)
    {path : Text} {place : Location} {kind : FileKind} (file : request.file? = some (.text path,kind))
    (writable : (Disk.ofFile name text).writable path = .ok place) :
    ∃ program, Supplied .unbounded arguments (Disk.ofFile name text) request program := by
  obtain ⟨decoded,done⟩ := loads
  cases loaded : Load.programOn .unbounded (Utf8.unifyLineEnds text) with
  | error fault =>
    rw [loaded] at done
    cases done
  | ok program =>
    refine ⟨program,parsed,⟨_,_,read,decoded,loaded⟩,?_,?_,?_⟩
    · rw [usual.1]
      exact Text.whole_lit _
    · intro triple asked
      rw [Request.triple?,usual.2] at asked
      cases asked
    · intro given kind asked
      cases file.symm.trans asked
      exact ⟨path,place,rfl,writable⟩
theorem Toolchain.x86_accepts (request : Request) (program : Program) : Accepts .x86 request program := by
  intro draft _ closed
  simp [x86,closed]
theorem Toolchain.x86_emits (request : Request) (program : Program) : Emits .x86 request program :=
  fun _ _ _ _ => ⟨_,rfl,rfl⟩

/-- The program is built, and its object code is written where the arguments ask for it. -/
theorem compile_outcome_calling :
    let arguments := [lit "p.json",lit "-oout"]
    let disk := Disk.ofFile (lit "p.json") callingText
    ∃ request program, Supplied .unbounded arguments disk request program ∧
      ((Command.plan .unbounded .x86 arguments).run disk).result = 0 ∧
      ∃ draft : Draft, (Command.plan .unbounded .x86 arguments).writes disk = [(lit "out",.artifact ⟨.object,draft.module.text⟩)] := by
  intro arguments disk
  obtain ⟨program,supplied⟩ : ∃ program, Supplied .unbounded arguments disk
      (.usual (lit "p.json") (some (.text (lit "out"))) .object (.text (lit "main")) false) program :=
    Supplied.ofFile rfl rfl callingText_loads ⟨rfl,rfl⟩ rfl rfl
  have ends : ((Command.plan .unbounded .x86 arguments).run disk).result = 0 := by decide +kernel
  obtain ⟨_,_,_,written,files,_⟩ := compile_outcome .unbounded .x86 arguments disk _ program supplied (Text.whole_lit _)
    (Request.printable rfl (Text.whole_lit "out")) (by simp [Request.usual]) (Toolchain.x86_accepts _ _) (Toolchain.x86_emits _ _)
  obtain ⟨path,kind,draft,asked,_,same⟩ := files (written.mpr ⟨ends,by simp [Request.usual],by simp [Request.usual]⟩)
  cases asked
  exact ⟨_,program,supplied,ends,draft,same⟩

/-- Tools that produce no object code. -/
def Toolchain.idle : Toolchain := { Toolchain.x86 with emit := fun _ _ => .error (lit "no code") }

/-- Each of these is needed: that the entry function has a name, that the paths can be printed, that object code is produced, and
    that the log is told apart from the report of the errors. Where no object code is produced, a file is left behind. -/
theorem compile_unforeseen :
    (¬∀ stack tools arguments disk request program, Supplied stack arguments disk request program →
      Accepts tools request program → Emits tools request program → request.source.Whole →
      (∀ path kind, request.file? = some (.text path,kind) → path.Whole) →
      ((Command.plan stack tools arguments).run disk).result < 2) ∧
    (¬∀ stack tools arguments disk request program, Supplied stack arguments disk request program →
      Accepts tools request program → Emits tools request program → request.source.Whole → request.entry ≠ .blank →
      ((Command.plan stack tools arguments).run disk).result < 2) ∧
    (¬∀ stack tools arguments disk request program, Supplied stack arguments disk request program →
      Accepts tools request program → Emits tools request program →
      (∀ path kind, request.file? = some (.text path,kind) → path.Whole) → request.entry ≠ .blank →
      ((Command.plan stack tools arguments).run disk).result < 2) ∧
    (¬∀ stack tools arguments disk request program, Supplied stack arguments disk request program →
      Accepts tools request program → request.source.Whole →
      (∀ path kind, request.file? = some (.text path,kind) → path.Whole) → request.entry ≠ .blank →
      ((Command.plan stack tools arguments).run disk).result < 2 ∨ (Command.plan stack tools arguments).writes disk = []) ∧
    ¬∀ stack tools arguments disk request program errors draft, Supplied stack arguments disk request program →
      Accepts tools request program → Emits tools request program → request.source.Whole →
      (∀ path kind, request.file? = some (.text path,kind) → path.Whole) → request.entry ≠ .blank → request.product ≠ .tree →
      request.Builds tools program (.error (.program (.build errors)),draft) →
      ((Command.plan stack tools arguments).run disk).err = Command.warned (errors.map (fun error => lit "Error: " ++ error.message) ++
        [lit "Compilation failed: " ++ Text.ofNat errors.length ++ lit " error(s)"]) := by
  have accepts := Toolchain.x86_accepts
  have emits := Toolchain.x86_emits
  refine ⟨?_,?_,?_,?_,?_⟩
  · intro foreseen
    obtain ⟨program,supplied⟩ : ∃ program, Supplied .unbounded [lit "p.json",lit "--entry=--"] (.ofFile (lit "p.json") callingText)
        (.usual (lit "p.json") none .object .blank false) program :=
      Supplied.ofFile rfl rfl callingText_loads ⟨rfl,rfl⟩ rfl rfl
    have ends := foreseen _ .x86 _ _ _ _ supplied (accepts _ _) (emits _ _) (Text.whole_lit _)
      (Request.printable rfl (Text.whole_lit "p.o"))
    revert ends
    decide +kernel
  · intro foreseen
    obtain ⟨program,supplied⟩ : ∃ program, Supplied .unbounded [lit "p.json",lit "-o",escapedByte] (.ofFile (lit "p.json") callingText)
        (.usual (lit "p.json") (some (.text escapedByte)) .object (.text (lit "main")) false) program :=
      Supplied.ofFile rfl rfl callingText_loads ⟨rfl,rfl⟩ rfl rfl
    have ends := foreseen _ .x86 _ _ _ _ supplied (accepts _ _) (emits _ _) (Text.whole_lit _) (by simp [Request.usual])
    revert ends
    decide +kernel
  · intro foreseen
    obtain ⟨program,supplied⟩ : ∃ program, Supplied .unbounded [escapedByte,lit "-oout"] (.ofFile escapedByte callingText)
        (.usual escapedByte (some (.text (lit "out"))) .object (.text (lit "main")) false) program :=
      Supplied.ofFile rfl rfl callingText_loads ⟨rfl,rfl⟩ rfl rfl
    have ends := foreseen _ .x86 _ _ _ _ supplied (accepts _ _) (emits _ _) (Request.printable rfl (Text.whole_lit "out"))
      (by simp [Request.usual])
    revert ends
    decide +kernel
  · intro foreseen
    obtain ⟨program,supplied⟩ : ∃ program, Supplied .unbounded [lit "p.json"] (.ofFile (lit "p.json") callingText)
        (.usual (lit "p.json") none .object (.text (lit "main")) false) program :=
      Supplied.ofFile rfl rfl callingText_loads ⟨rfl,rfl⟩ rfl rfl
    have ends := foreseen _ .idle _ _ _ _ supplied (accepts _ program) (Text.whole_lit _)
      (Request.printable rfl (Text.whole_lit "p.o")) (by simp [Request.usual])
    revert ends
    decide +kernel
  · intro reported
    obtain ⟨program,supplied⟩ : ∃ program, Supplied .unbounded [lit "p.json",lit "--verbose"] (.ofFile (lit "p.json") freezingText)
        (.usual (lit "p.json") none .object (.text (lit "main")) true) program :=
      Supplied.ofFile rfl rfl freezingText_loads ⟨rfl,rfl⟩ rfl rfl
    have asked : (Request.usual (lit "p.json") none .object (.text (lit "main")) true).file? = some (.text (lit "p.o"),.object) := rfl
    have printable := Request.printable asked (Text.whole_lit _)
    obtain ⟨_,_,_,_,does,outcome⟩ := supplied.compiles (Text.whole_lit _) printable (by simp [Request.usual]) (accepts _ _) (emits _ _)
    have ran : let trace := (Command.plan .unbounded .x86 [lit "p.json",lit "--verbose"]).run (.ofFile (lit "p.json") freezingText)
        trace.result = 1 ∧ trace.err.head? = some (.char 'l') := by decide +kernel
    obtain ⟨ends,first⟩ := ran
    rw [(does.plan_run supplied.parsed).1,outcome.status_eq_one_iff] at ends
    obtain ⟨compiled,⟨errors,draft,failed⟩ | ⟨_,unsupported⟩⟩ := ends
    · -- The first line is one of the log.
      rw [reported _ _ _ _ _ _ _ _ supplied (accepts _ _) (emits _ _) (Text.whole_lit _) printable (by simp [Request.usual]) compiled
        failed] at first
      cases errors with
      | nil => exact absurd first (by decide)
      | cons error rest =>
        have other : some (CodePoint.char 'E') = some (.char 'l') := first
        exact absurd other (by decide)
    · have target : Toolchain.x86.lookup ((Request.usual (lit "p.json") none .object (.text (lit "main")) true).target .x86) = .ok () := by
        decide +kernel
      exact unsupported target

end Lev
