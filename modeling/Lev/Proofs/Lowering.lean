import Lev.Analysis.Calls
import Lev.Proofs.Loops

/-!
Lowering keeps the invariant of filling, whatever it lowers: it gives a value that is known where it
ends, or it stops for one of five reasons in a frame that is still in order. In particular it never
ends a block twice and never closes a merge point twice.
-/
namespace Lev
open Attempt (Meets)
open Lev.Frame (Advance Stopped)

/-- Why lowering can stop, given the signatures and the call sites of what is lowered. -/
inductive Raised (signatures : Table Nat) (sites : List CallSite) : Fault → Prop
  | undeclared (name : Text) : Raised signatures sites (.program (.undeclaredVariable (.text name)))
  | immutable (name : Text) : Raised signatures sites (.program (.immutableAssignment (.text name)))
  | inconstant (name : Text) : Raised signatures sites (.program (.nonConstantLet (.text name)))
  | misnamed {fault : Fault} : fault.Misnamed → Raised signatures sites fault
  | uncallable {callee : Text} {count : Nat} {fault : Fault} : ⟨callee,count⟩ ∈ sites →
      callable signatures callee count = .error fault → Raised signatures sites fault

theorem callable_eq_ok {signatures : Table Nat} {callee : Text} {count : Nat} :
    callable signatures callee count = .ok () ↔ signatures.get? callee = some count := by
  unfold callable
  cases signatures.get? callee with
  | none => simp
  | some arity => by_cases same : arity = count <;> simp [same]
theorem Raised.program {signatures : Table Nat} {sites : List CallSite} {fault : Fault} (raised : Raised signatures sites fault) :
    ∃ error, fault = .program error := by
  cases raised with
  | undeclared name => exact ⟨_,rfl⟩
  | immutable name => exact ⟨_,rfl⟩
  | inconstant name => exact ⟨_,rfl⟩
  | misnamed misnamed =>
    obtain ⟨_,error,_,rfl⟩ := misnamed
    exact ⟨error,rfl⟩
  | uncallable site failed =>
    unfold callable at failed
    split at failed
    · exact ⟨_,(Except.error.inj failed).symm⟩
    · split at failed
      · cases failed
      · exact ⟨_,(Except.error.inj failed).symm⟩
theorem Raised.mono {signatures : Table Nat} {sites more : List CallSite} {fault : Fault}
    (raised : Raised signatures sites fault) (inside : ∀ site ∈ sites, site ∈ more) : Raised signatures more fault := by
  cases raised with
  | undeclared name => exact .undeclared name
  | immutable name => exact .immutable name
  | inconstant name => exact .inconstant name
  | misnamed misnamed => exact .misnamed misnamed
  | uncallable site failed => exact .uncallable (inside _ site) failed

/-- Filling went on from the first frame to the second, where an integer is known. -/
def Frame.Gives (signatures : Table Nat) (root : Text) (pending : List Text) (above : Text → List Text) (f : Frame) (value : Value) (f' : Frame) : Prop :=
  ∃ above', f'.Sound signatures root pending above' ∧ Advance above above' f f' ∧ f'.Knows above' value ∧ value.type = .i32
/-- Filling went on from the first frame to the second, where an environment is in force. -/
def Frame.Leaves (signatures : Table Nat) (root : Text) (pending : List Text) (above : Text → List Text) (f : Frame) (env : Environment) (f' : Frame) : Prop :=
  ∃ above', f'.Sound signatures root pending above' ∧ Advance above above' f f' ∧ f'.Binds above' env

section
variable {signatures : Table Nat} {root : Text} {pending : List Text} {above : Text → List Text} {f : Frame}

theorem Frame.Sound.stopped (sound : f.Sound signatures root pending above) : Stopped signatures root f f :=
  (Advance.refl above f).stopped sound
/-- An instruction that yields an integer. -/
theorem Frame.Sound.emitNamed (sound : f.Sound signatures root pending above) (base : Text) (instr : Text → Instr)
    (yields : ∀ result, (instr result).yields? = some (result,.i32)) (plain : ∀ result, (instr result).isPhi = false)
    (stays : ∀ result, (instr result).isTerminator = false) (typed : ∀ result, (instr result).WellTyped signatures)
    (known : ∀ result, ∀ value ∈ (instr result).operands, f.Knows above value) (failed : Fault → Frame → Prop) :
    Meets (Build.emitNamed base instr) f (Frame.Gives signatures root pending above f) failed := by
  have result : ∀ name, (instr (f.fresh base)).result? = some name → name = f.fresh base := by
    intro name result
    rw [Instr.result?_eq,yields] at result
    cases result
    rfl
  obtain ⟨later,advance⟩ := sound.emitted (plain _) (stays _) (typed _) (known _) result
  exact .of_run (Build.emitNamed_run base instr f)
    ⟨above,later,advance,Frame.knows_emitted sound base (yields _),rfl⟩
/-- Goes on where a value has been computed. -/
theorem Frame.Gives.step {f' f'' : Frame} {other : Value} {above' : Text → List Text}
    (advance : Advance above above' f f') (gives : Frame.Gives signatures root pending above' f' other f'') :
    Frame.Gives signatures root pending above f other f'' := by
  obtain ⟨above'',sound,further,known,type⟩ := gives
  exact ⟨above'',sound,advance.trans further,known,type⟩
theorem Frame.Sound.readVariable (sound : f.Sound signatures root pending above) {env : Environment} (binds : f.Binds above env)
    (name : Text) :
    Meets (Build.readVariable env name) f (Frame.Gives signatures root pending above f)
      (fun fault f' => Raised signatures [] fault ∧ Stopped signatures root f f') := by
  unfold Build.readVariable Environment.resolve
  cases bound : env.lookup? name with
  | none => exact .of_error rfl ⟨.undeclared name,sound.stopped⟩
  | some binding =>
    obtain ⟨known,type⟩ := binds name binding bound
    refine .run_then rfl ?_
    cases boxed : binding.isBoxed with
    | true =>
      rw [boxed] at type
      refine sound.emitNamed name (fun result => .load result binding.value) (fun _ => rfl) (fun _ => rfl) (fun _ => rfl)
        (fun _ => type) (fun _ value member => ?_) _
      cases List.mem_singleton.mp member
      exact known
    | false =>
      rw [boxed] at type
      exact .of_run rfl ⟨above,sound,.refl above f,known,type⟩
theorem Frame.Sound.arith (sound : f.Sound signatures root pending above) (op : Operator) {left right : Value}
    (knownLeft : f.Knows above left) (knownRight : f.Knows above right) (typeLeft : left.type = .i32)
    (typeRight : right.type = .i32) (failed : Fault → Frame → Prop) :
    Meets (Build.arith op left right) f (Frame.Gives signatures root pending above f) failed := by
  unfold Build.arith
  split
  · exact .of_run rfl ⟨above,sound,.refl above f,trivial,rfl⟩
  · refine sound.emitNamed op.base (fun result => .arith result op left right) (fun _ => rfl) (fun _ => rfl) (fun _ => rfl)
      (fun _ => ⟨typeLeft,typeRight⟩) (fun _ value member => ?_) failed
    rcases List.mem_cons.mp member with rfl | last
    · exact knownLeft
    · cases List.mem_singleton.mp last
      exact knownRight
theorem Frame.Sound.store (sound : f.Sound signatures root pending above) {value address : Value} (knownValue : f.Knows above value)
    (typeValue : value.type = .i32) (knownAddress : f.Knows above address) (typeAddress : address.type = .pointer) :
    (f.emitted [] (.store value address)).Sound signatures root pending above ∧
      Advance above above f (f.emitted [] (.store value address)) := by
  refine sound.emitted rfl rfl ⟨typeValue,typeAddress⟩ (fun operand member => ?_) (fun name yields => by cases yields)
  rcases List.mem_cons.mp member with rfl | last
  · exact knownValue
  · cases List.mem_singleton.mp last
    exact knownAddress
/-- The cell that an assignment stores to is known, or the assignment is at fault. -/
theorem Frame.Binds.assignable {env : Environment} (binds : f.Binds above env) (name : Text) (signatures : Table Nat) :
    Attempt.Allows (fun address => f.Knows above address ∧ address.type = .pointer) (Raised signatures []) (env.assignable name) := by
  unfold Environment.assignable Environment.resolve
  cases bound : env.lookup? name with
  | none => exact .undeclared name
  | some binding =>
    obtain ⟨known,type⟩ := binds name binding bound
    show Attempt.Allows _ _ (if binding.isBoxed then .ok binding.value else .error (.program (.immutableAssignment (.text name))))
    cases boxed : binding.isBoxed with
    | true =>
      rw [boxed] at type
      exact ⟨known,type⟩
    | false => exact Raised.immutable name

end

mutual

theorem Expr.lower_sound (signatures : Table Nat) (e : Expr) {root : Text} {pending : List Text}
    {above : Text → List Text} {f : Frame} (sound : f.Sound signatures root pending above) {env : Environment}
    (binds : f.Binds above env) :
    Meets (e.lower signatures env) f (Frame.Gives signatures root pending above f)
      (fun fault f' => Raised signatures e.calls fault ∧ Stopped signatures root f f') := by
  match e with
  | .literal n => exact .of_run rfl ⟨above,sound,.refl above f,trivial,rfl⟩
  | .var name =>
    simp only [Expr.lower,Expr.calls]
    exact sound.readVariable binds name
  | .binary left op right =>
    simp only [Expr.lower,Expr.calls]
    refine .bind (left.lower_sound signatures sound binds) ?_
      (fun _ _ failed => ⟨failed.1.mono (fun _ => List.mem_append_left _),failed.2⟩)
    rintro a f₁ ⟨above₁,sound₁,advance₁,known₁,type₁⟩
    refine .bind (right.lower_sound signatures sound₁ (advance₁.binds binds)) ?_
      (fun _ _ failed => ⟨failed.1.mono (fun _ => List.mem_append_right _),advance₁.stop failed.2⟩)
    rintro b f₂ ⟨above₂,sound₂,advance₂,known₂,type₂⟩
    refine (sound₂.arith op (advance₂.knows known₁) known₂ type₁ type₂ _).mono ?_ (fun _ _ failed => failed)
    exact fun _ _ gives => gives.step (advance₁.trans advance₂)
  | .call callee args =>
    simp only [Expr.lower,Expr.calls]
    cases result : callable signatures callee args.length with
    | error fault => exact .of_error rfl ⟨.uncallable List.mem_cons_self result,sound.stopped⟩
    | ok _ =>
      refine .run_then rfl ?_
      refine .bind (args.lower_sound signatures sound binds) ?_
        (fun _ _ failed => ⟨failed.1.mono (fun _ => List.mem_cons_of_mem _),failed.2⟩)
      rintro values f₁ ⟨above₁,sound₁,advance₁,count,known₁⟩
      refine .bind (Build.identifier_meets callee f₁) ?_ ?_
      · rintro name _ ⟨rfl,rfl⟩
        have declared : signatures.get? name = some values.length := count ▸ callable_eq_ok.mp result
        refine (sound₁.emitNamed _ (fun result => .call result name values) (fun _ => rfl) (fun _ => rfl) (fun _ => rfl)
          (fun _ => ⟨declared,fun value member => (known₁ value member).2⟩)
          (fun _ value member => (known₁ value member).1) _).mono ?_ (fun _ _ failed => failed)
        exact fun _ _ gives => gives.step advance₁
      · rintro fault _ ⟨misnamed,rfl⟩
        exact ⟨.misnamed misnamed,advance₁.stopped sound₁⟩
  | .scope body =>
    simp only [Expr.lower,Expr.calls]
    refine .andThen (body.lower_sound signatures sound binds) ?_
    rintro ⟨value,_⟩ f₁ ⟨above₁,sound₁,advance₁,_,known₁,type₁⟩
    exact .of_run rfl ⟨above₁,sound₁,advance₁,known₁,type₁⟩
  | .loop cond body =>
    simp only [Expr.lower,Expr.calls]
    refine .bind (cond.lower_sound signatures sound binds) ?_
      (fun _ _ failed => ⟨failed.1.mono (fun _ => List.mem_append_left _),failed.2⟩)
    rintro first f₁ ⟨above₁,sound₁,advance₁,known₁,type₁⟩
    refine .run_then (Build.isZero_run first f₁) ?_
    obtain ⟨sound₂,advance₂,known₂⟩ := sound₁.compared known₁ type₁
    have toLoop := advance₁.trans advance₂
    have bindsBefore := toLoop.binds binds
    obtain ⟨above₃,sound₃,looping₃,code₃⟩ := sound₂.branched known₂ rfl
    refine .congr (Build.enter_run sound₂.ready _ _) ?_
    refine .bind (MergePoint.openFor_opens sound₂.root_label bindsBefore cond.reads
      ⟨sound₃,looping₃,rfl,code₃,rfl,by simp,by simp⟩) ?_ (fun _ _ failed => ⟨.misnamed failed.1,toLoop.stop failed.2⟩)
    rintro points f₄ opens
    refine .bind (body.lower_sound signatures opens.sound (opens.binds bindsBefore)) ?_ ?_
    · rintro ⟨_,after⟩ f₅ ⟨above₅,sound₅,advance₅,binds₅,_,_⟩
      refine .bind (cond.lower_sound signatures sound₅ binds₅) ?_ ?_
      · rintro again f₆ ⟨above₆,sound₆,advance₆,known₆,type₆⟩
        refine .run_then (Build.isZero_run again f₆) ?_
        obtain ⟨sound₇,advance₇,known₇⟩ := sound₆.compared known₆ type₆
        have looping := ((opens.looping.step advance₅).step advance₆).step advance₇
        have missing : ∀ point ∈ points, point.latch = none := by
          intro point member
          obtain ⟨binding,stands⟩ := opens.bindings point member
          exact stands.latch
        obtain ⟨log,left⟩ := Build.leave_run sound₇.ready after missing f₆.comparison (f₁.compared first).header (f₁.compared first).exit
        have sound₈ := sound₇.looped sound₂ looping ((advance₆.trans advance₇).binds binds₅) known₇ rfl log
        exact .of_run left ⟨above₆,sound₈,toLoop.trans (looping.advance_looped sound₇ log),trivial,rfl⟩
      · intro fault f₆ failed
        exact ⟨failed.1.mono (fun _ => List.mem_append_left _),
          (toLoop.trans (opens.looping.step advance₅).advance).stop failed.2⟩
    · intro fault f₅ failed
      exact ⟨failed.1.mono (fun _ => List.mem_append_right _),(toLoop.trans opens.looping.advance).stop failed.2⟩

theorem Args.lower_sound (signatures : Table Nat) (args : Args) {root : Text} {pending : List Text}
    {above : Text → List Text} {f : Frame} (sound : f.Sound signatures root pending above) {env : Environment}
    (binds : f.Binds above env) :
    Meets (args.lower signatures env) f
      (fun values f' => ∃ above', f'.Sound signatures root pending above' ∧ Advance above above' f f' ∧
        values.length = args.length ∧ ∀ value ∈ values, f'.Knows above' value ∧ value.type = .i32)
      (fun fault f' => Raised signatures args.calls fault ∧ Stopped signatures root f f') := by
  match args with
  | .nil => exact .of_run rfl ⟨above,sound,.refl above f,rfl,by simp⟩
  | .cons first rest =>
    simp only [Args.lower,Args.calls]
    refine .bind (first.lower_sound signatures sound binds) ?_
      (fun _ _ failed => ⟨failed.1.mono (fun _ => List.mem_append_left _),failed.2⟩)
    rintro value f₁ ⟨above₁,sound₁,advance₁,known₁,type₁⟩
    refine .bind (rest.lower_sound signatures sound₁ (advance₁.binds binds)) ?_
      (fun _ _ failed => ⟨failed.1.mono (fun _ => List.mem_append_right _),advance₁.stop failed.2⟩)
    rintro values f₂ ⟨above₂,sound₂,advance₂,count,known₂⟩
    refine .of_run rfl ⟨above₂,sound₂,advance₁.trans advance₂,congrArg (· + 1) count,?_⟩
    intro other member
    rcases List.mem_cons.mp member with rfl | later
    · exact ⟨advance₂.knows known₁,type₁⟩
    · exact known₂ other later

theorem Stmt.lower_sound (signatures : Table Nat) (s : Stmt) {root : Text} {pending : List Text}
    {above : Text → List Text} {f : Frame} (sound : f.Sound signatures root pending above) {env : Environment}
    (binds : f.Binds above env) :
    Meets (s.lower signatures env) f (Frame.Leaves signatures root pending above f)
      (fun fault f' => Raised signatures s.calls fault ∧ Stopped signatures root f f') := by
  match s with
  | .discard value =>
    simp only [Stmt.lower,Stmt.calls]
    refine .andThen (value.lower_sound signatures sound binds) ?_
    rintro _ f₁ ⟨above₁,sound₁,advance₁,_,_⟩
    exact .of_run rfl ⟨above₁,sound₁,advance₁,advance₁.binds binds⟩
  | .bindConst name value =>
    simp only [Stmt.lower,Stmt.calls]
    refine .andThen (value.lower_sound signatures sound binds) ?_
    rintro bound f₁ ⟨above₁,sound₁,advance₁,known₁,type₁⟩
    split
    · exact .of_error rfl ⟨.inconstant name,advance₁.stopped sound₁⟩
    · exact .of_run rfl ⟨above₁,sound₁,advance₁,(advance₁.binds binds).bind known₁ (by simpa using type₁)⟩
  | .bindMut name value =>
    simp only [Stmt.lower,Stmt.calls]
    refine .bind (Build.identifier_meets name f) ?_ ?_
    · rintro base _ ⟨rfl,rfl⟩
      refine .run_then (Build.allocate_run _ _) ?_
      obtain ⟨sound₁,advance₁,known₁⟩ := sound.allocated base
      refine .bind (value.lower_sound signatures sound₁ (advance₁.binds binds)) ?_
        (fun _ _ failed => ⟨failed.1,advance₁.stop failed.2⟩)
      rintro bound f₂ ⟨above₂,sound₂,advance₂,known₂,type₂⟩
      refine .run_then (Build.emitUnnamed_run _ _) (.of_run rfl ?_)
      obtain ⟨sound₃,advance₃⟩ := sound₂.store known₂ type₂ (advance₂.knows known₁) rfl
      have advance := (advance₁.trans advance₂).trans advance₃
      exact ⟨above₂,sound₃,advance,(advance.binds binds).bind ((advance₂.trans advance₃).knows known₁) rfl⟩
    · rintro fault _ ⟨misnamed,rfl⟩
      exact ⟨.misnamed misnamed,sound.stopped⟩
  | .assign name value =>
    simp only [Stmt.lower,Stmt.calls]
    have assigned := binds.assignable name signatures
    cases result : env.assignable name with
    | error fault =>
      rw [result] at assigned
      exact .of_error rfl ⟨assigned.mono (by simp),sound.stopped⟩
    | ok address =>
      rw [result] at assigned
      refine .run_then rfl ?_
      refine .andThen (value.lower_sound signatures sound binds) ?_
      rintro stored f₁ ⟨above₁,sound₁,advance₁,known₁,type₁⟩
      refine .run_then (Build.emitUnnamed_run _ _) (.of_run rfl ?_)
      obtain ⟨sound₂,advance₂⟩ := sound₁.store known₁ type₁ (advance₁.knows assigned.1) assigned.2
      have advance := advance₁.trans advance₂
      exact ⟨above₁,sound₂,advance,advance.binds binds⟩

theorem Block.lower_sound (signatures : Table Nat) (b : Block) {root : Text} {pending : List Text}
    {above : Text → List Text} {f : Frame} (sound : f.Sound signatures root pending above) {env : Environment}
    (binds : f.Binds above env) :
    Meets (b.lower signatures env) f
      (fun result f' => ∃ above', f'.Sound signatures root pending above' ∧ Advance above above' f f' ∧ f'.Binds above' result.2 ∧
        f'.Knows above' result.1 ∧ result.1.type = .i32)
      (fun fault f' => Raised signatures b.calls fault ∧ Stopped signatures root f f') := by
  match b with
  | .result value =>
    simp only [Block.lower,Block.calls]
    refine .andThen (value.lower_sound signatures sound binds) ?_
    rintro _ f₁ ⟨above₁,sound₁,advance₁,known₁,type₁⟩
    exact .of_run rfl ⟨above₁,sound₁,advance₁,advance₁.binds binds,known₁,type₁⟩
  | .step first rest =>
    simp only [Block.lower,Block.calls]
    refine .bind (first.lower_sound signatures sound binds) ?_
      (fun _ _ failed => ⟨failed.1.mono (fun _ => List.mem_append_left _),failed.2⟩)
    rintro env₁ f₁ ⟨above₁,sound₁,advance₁,binds₁⟩
    refine (rest.lower_sound signatures sound₁ binds₁).mono ?_
      (fun _ _ failed => ⟨failed.1.mono (fun _ => List.mem_append_right _),advance₁.stop failed.2⟩)
    rintro result f₂ ⟨above₂,sound₂,advance₂,binds₂,known₂⟩
    exact ⟨above₂,sound₂,advance₁.trans advance₂,binds₂,known₂⟩

end

end Lev
