import Lev.Proofs.Folding
import Lev.Proofs.Representation
import Lev.Proofs.Wrapping
import Mathlib.Data.Int.Bitwise
import Mathlib.Data.Int.ModEq

/-!
Constants of a width. Main statement: wrapping gives the one signed number of the width that agrees with an integer modulo
the number of its vectors, and there is no width below one; so every constant of a module and every constant that a name
or a merge point is tagged with fits a word, however large the literals of the program are. Constants are made where a
literal is read, where an operation is folded and where a loop ends, and all of them are wrapped there; every other
step only hands on what it was given.
-/
namespace Lev
open Attempt (Maintains)

/-! ### Residues -/

/-- The second integer is a signed number of so many bits that agrees with the first modulo the number of their vectors. -/
structure IsResidue (bits : Nat) (value r : Int) : Prop where
  fits : FitsBits bits r
  congruent : r ≡ value [ZMOD 2 ^ bits]

section
variable {bits : Nat} {value r : Int}

/-- Masking keeps the residue, also that of a negative integer, whose bits are ones without end. -/
theorem land_mask (bits : Nat) (value : Int) : Int.land value (2 ^ bits - 1) = value % 2 ^ bits := by
  have positive : 0 < 2 ^ bits := Nat.two_pow_pos bits
  have mask : (2 ^ bits - 1 : Int) = Int.ofNat (2 ^ bits - 1) := by
    rw [Int.ofNat_eq_natCast,Nat.cast_sub positive]
    norm_cast
  rw [mask]
  cases value with
  | ofNat n =>
    show Int.ofNat (n &&& (2 ^ bits - 1)) = _
    rw [Nat.and_two_pow_sub_one_eq_mod]
    norm_cast
  | negSucc n =>
    have small : n % 2 ^ bits < 2 ^ bits := Nat.mod_lt n positive
    have flipped : Nat.ldiff (2 ^ bits - 1) n = 2 ^ bits - (n % 2 ^ bits + 1) := by
      refine Nat.eq_of_testBit_eq fun i => ?_
      rw [Nat.testBit_ldiff,Nat.testBit_two_pow_sub_one,Nat.testBit_two_pow_sub_succ small,Nat.testBit_mod_two_pow]
      by_cases low : i < bits <;> simp [low]
    show Int.ofNat (Nat.ldiff (2 ^ bits - 1) n) = _
    rw [flipped,Int.negSucc_emod n (by exact_mod_cast positive),Int.ofNat_eq_natCast,Nat.cast_sub small]
    push_cast
    omega
theorem cast_pow_two (bits : Nat) : ((Nat.pow 2 bits : Nat) : Int) = 2 ^ bits := by
  show ((2 ^ bits : Nat) : Int) = 2 ^ bits
  norm_cast
theorem wrap_eq_wrap_iff (bits : Nat) (a b : Int) : wrap bits a = wrap bits b ↔ a ≡ b [ZMOD 2 ^ bits] := by
  unfold wrap Int.ModEq
  rw [← cast_pow_two]
  constructor
  · intro same
    rw [← Int.bmod_emod,same,Int.bmod_emod]
  · intro same
    rw [← Int.emod_bmod,same,Int.emod_bmod]
theorem fitsBits_wrap (bits : Nat) (value : Int) : FitsBits bits (wrap bits value) := by
  have same : (BitVec.ofInt bits value).toInt = wrap bits value := BitVec.toInt_ofInt value
  exact same ▸ fitsBits_toInt _
/-- Wrapping gives such a number, and there is no other. -/
theorem isResidue_iff (positive : 1 ≤ bits) : IsResidue bits value r ↔ r = wrap bits value := by
  constructor
  · intro residue
    rw [← residue.fits.wrap_eq positive]
    exact (wrap_eq_wrap_iff bits r value).mpr residue.congruent
  · rintro rfl
    exact ⟨fitsBits_wrap bits value,(wrap_eq_wrap_iff bits _ value).mp (wrap_wrap bits value)⟩
/-- Wrapping masks, and then corrects the sign from the middle of the range on. -/
theorem wrap_eq_masked (positive : 1 ≤ bits) (value : Int) :
    wrap bits value =
      if 2 ^ (bits - 1) ≤ Int.land value (2 ^ bits - 1) then Int.land value (2 ^ bits - 1) - 2 ^ bits
      else Int.land value (2 ^ bits - 1) := by
  obtain ⟨low,rfl⟩ : ∃ low, bits = low + 1 := ⟨bits - 1,by omega⟩
  have half : ((2 ^ (low + 1) : Int) + 1) / 2 = 2 ^ low := by
    rw [Int.pow_succ]
    omega
  rw [land_mask,wrap,Int.bmod_def,cast_pow_two,half,Nat.add_sub_cancel]
  by_cases early : value % 2 ^ (low + 1) < 2 ^ low
  · rw [if_pos early,if_neg (Int.not_le.mpr early)]
  · rw [if_neg early,if_pos (Int.not_lt.mp early)]

end

/-! ### Constants in the code -/

/-- The value is no constant, or one that fits a word. -/
def Value.Fits : Value → Prop
  | .const n => FitsWord n
  | .reg _ _ => True
/-- The levity is tagged with no constant, or with one that fits a word. -/
def Levity.Fits : Levity → Prop
  | .boxed => True
  | .unboxed n => FitsWord n
/-- The values that the instruction is given, on the edges of a phi as well. -/
def Instr.inputs : Instr → List Value
  | .phi _ _ incoming => incoming.map Prod.fst
  | instr => instr.operands
/-- All constants of the function fit a word. -/
def Function.Fits (fn : Function) : Prop := fn.Each fun _ instr => ∀ value ∈ instr.inputs, value.Fits
/-- All constants that names stand for or are tagged with fit a word. -/
def Environment.Fits (env : Environment) : Prop :=
  ∀ name binding, env.lookup? name = some binding → binding.value.Fits ∧ binding.levity.Fits
/-- All constants of the code and of the merge points fit a word. -/
structure Frame.Fits (f : Frame) : Prop where
  function : f.function.Fits
  points : ∀ point ∈ f.points, point.levity.Fits

theorem Value.fits_ofInt (n : Int) : (Value.ofInt n).Fits := fitsWord_wrap n
theorem Environment.fits_empty : Environment.empty.Fits := by
  intro name binding bound
  simp at bound
theorem Environment.Fits.bind {env : Environment} (fits : env.Fits) (name : Text) {value : Value} {levity : Levity}
    (fitsValue : value.Fits) (fitsLevity : levity.Fits) : (env.bind name value levity).Fits := by
  intro key binding bound
  rw [Environment.lookup?_bind] at bound
  by_cases same : key = name
  · rw [if_pos same] at bound
    cases bound
    exact ⟨fitsValue,fitsLevity⟩
  · rw [if_neg same] at bound
    exact fits key binding bound
theorem Environment.Fits.bindAll {env : Environment} (fits : env.Fits) {points : List MergePoint}
    (tags : ∀ point ∈ points, point.levity.Fits) : (MergePoint.bindAll env points).Fits := by
  induction points generalizing env with
  | nil => exact fits
  | cons point rest ih =>
    obtain ⟨first,others⟩ := List.forall_mem_cons.mp tags
    exact ih (fits.bind point.name trivial first) others
theorem Environment.Fits.resolve {env : Environment} (fits : env.Fits) {name : Text} {binding : Binding}
    (resolved : env.resolve name = .ok binding) : binding.value.Fits ∧ binding.levity.Fits := by
  unfold Environment.resolve at resolved
  cases bound : env.lookup? name with
  | none =>
    rw [bound] at resolved
    cases resolved
  | some other =>
    rw [bound] at resolved
    cases resolved
    exact fits name binding bound
theorem Environment.Fits.assignable {env : Environment} (fits : env.Fits) {name : Text} {address : Value}
    (assigned : env.assignable name = .ok address) : address.Fits := by
  unfold Environment.assignable at assigned
  cases resolved : env.resolve name with
  | error fault =>
    rw [resolved] at assigned
    cases assigned
  | ok binding =>
    rw [resolved] at assigned
    replace assigned : (if binding.isBoxed then Except.ok binding.value else .error _) = .ok address := assigned
    split at assigned
    · cases assigned
      exact (fits.resolve resolved).1
    · cases assigned
theorem MergePoint.fits_carried {env : Environment} (fits : env.Fits) (point : MergePoint) : (point.carried env).Fits := by
  rcases point.carried_cases env with own | ⟨binding,bound,_,same⟩
  · rw [own]
    trivial
  · rw [same]
    exact (fits _ _ bound).1
/-- Another edge of a phi brings one value more. -/
theorem Function.Fits.addIncoming {fn : Function} (fits : fn.Fits) (phi latch : Text) {value : Value} (new : value.Fits) :
    (fn.addIncoming phi (value,latch)).Fits := by
  refine Function.Each.addIncoming fits fun label instr old other member => ?_
  cases instr with
  | phi result type incoming =>
    by_cases same : result = phi
    · simp only [Instr.addIncoming,if_pos same,Instr.inputs,List.map_append,List.mem_append] at member
      rcases member with early | last
      · exact old other early
      · exact List.mem_singleton.mp last ▸ new
    · rw [Instr.addIncoming,if_neg same] at member
      exact old other member
  | _ => exact old other member

/-! ### What lowering emits -/

namespace Build
variable {α : Type} {env : Environment}

/-- A step that leaves the code and the merge points as they are. -/
theorem fits_still {step : Build α} (same : ∀ f, (step f).2.function.blocks = f.function.blocks ∧ (step f).2.points = f.points) :
    Maintains Frame.Fits step fun _ => True := by
  refine .of_state fun f fits => ⟨fun block member => ?_,fun point member => ?_⟩
  · exact fits.function block ((same f).1 ▸ member)
  · exact fits.points point ((same f).2 ▸ member)
theorem fits_emit {instr : Instr} (inputs : ∀ value ∈ instr.inputs, value.Fits) : Maintains Frame.Fits (emit instr) fun _ => True :=
  .of_state fun _ fits => ⟨Function.Each.append fits.function inputs,fits.points⟩
theorem fits_emitUnnamed {instr : Instr} (inputs : ∀ value ∈ instr.inputs, value.Fits) :
    Maintains Frame.Fits (emitUnnamed instr) fun _ => True :=
  (fits_still fun _ => ⟨rfl,rfl⟩).andThen fun _ => fits_emit inputs
theorem fits_emitNamed (base : Text) {instr : Text → Instr} (inputs : ∀ result, ∀ value ∈ (instr result).inputs, value.Fits) :
    Maintains Frame.Fits (emitNamed base instr) Value.Fits :=
  (fits_still fun _ => ⟨rfl,rfl⟩).andThen fun result => (fits_emit (inputs result)).andThen fun _ => .pure trivial
theorem fits_terminate {instr : Instr} (inputs : ∀ value ∈ instr.inputs, value.Fits) :
    Maintains Frame.Fits (terminate instr) fun _ => True := by
  refine (fits_still fun _ => ⟨rfl,rfl⟩).andThen fun _ => (fits_still fun _ => ⟨rfl,rfl⟩).andThen fun ended => ?_
  cases ended with
  | false => exact fits_emit inputs
  | true => exact .fail _
theorem fits_isZero {value : Value} (fits : value.Fits) : Maintains Frame.Fits (isZero value) Value.Fits :=
  (fits_still fun _ => ⟨rfl,rfl⟩).andThen fun _ => .andThen (fits_emit (List.forall_mem_singleton.mpr fits)) fun _ => .pure trivial
theorem fits_addBlock (base : Text) : Maintains Frame.Fits (addBlock base) fun _ => True :=
  .of_state fun _ fits => ⟨Function.Each.addBlock fits.function base,fits.points⟩
theorem fits_allocate (name : Text) : Maintains Frame.Fits (allocate name) fun cell => cell.pointer.Fits := by
  intro f fits
  have registered : (f.function.register name).2.Fits := fits.function
  exact .of_run rfl ⟨⟨Function.Each.insert registered fun _ member => absurd member List.not_mem_nil,fits.points⟩,trivial⟩
theorem fits_identifier (name : Text) : Maintains Frame.Fits (identifier name) fun _ => True := by
  unfold identifier
  split
  · exact .fail _
  · exact .pure trivial
theorem fits_readVariable (fits : env.Fits) (name : Text) : Maintains Frame.Fits (readVariable env name) Value.Fits := by
  refine (Maintains.ofExcept fun binding resolved => fits.resolve resolved).bind fun binding bound => ?_
  split
  · exact fits_emitNamed name fun _ => List.forall_mem_singleton.mpr bound.1
  · exact .pure bound.1
theorem fits_arith (op : Operator) {left right : Value} (fitsLeft : left.Fits) (fitsRight : right.Fits) :
    Maintains Frame.Fits (arith op left right) Value.Fits := by
  unfold arith
  split
  · exact .pure (Value.fits_ofInt _)
  · exact fits_emitNamed op.base fun _ => List.forall_mem_cons.mpr ⟨fitsLeft,List.forall_mem_singleton.mpr fitsRight⟩

end Build

namespace MergePoint
variable {env : Environment}

/-- A merge point is tagged as its name was. -/
theorem fits_openAll (fits : env.Fits) (preheader : Text) (names : List Text) :
    Maintains Frame.Fits (openAll env preheader names) fun points => ∀ point ∈ points, point.levity.Fits := by
  induction names with
  | nil => exact .pure (by simp)
  | cons name rest ih =>
    unfold openAll
    split
    · exact ih
    · rename_i binding bound
      obtain ⟨fitsValue,fitsLevity⟩ := fits name binding bound
      refine (Build.fits_identifier name).andThen fun base => (Build.fits_still fun _ => ⟨rfl,rfl⟩).andThen fun phi => ?_
      refine .andThen (Build.fits_emit (List.forall_mem_singleton.mpr fitsValue)) fun _ => ih.bind fun points tags => ?_
      exact .pure (List.forall_mem_cons.mpr ⟨fitsLevity,tags⟩)
theorem fits_openFor (fits : env.Fits) (reads : List Text) (preheader : Text) :
    Maintains Frame.Fits (openFor reads env preheader) fun points => ∀ point ∈ points, point.levity.Fits := by
  refine (fits_openAll fits preheader _).bind fun points tags => ?_
  split
  · exact .pure tags
  · refine (Build.fits_still fun _ => ⟨rfl,rfl⟩).andThen fun block => ?_
    exact (Build.fits_still fun _ => ⟨rfl,rfl⟩).andThen fun _ => .pure tags
theorem fits_closeAll (fits : env.Fits) (latch : Text) {points : List MergePoint} (tags : ∀ point ∈ points, point.levity.Fits) :
    Maintains Frame.Fits (closeAll env latch points) fun closed => ∀ point ∈ closed, point.levity.Fits := by
  induction points with
  | nil => exact .pure (by simp)
  | cons point rest ih =>
    obtain ⟨first,others⟩ := List.forall_mem_cons.mp tags
    intro f kept
    unfold closeAll
    refine .run_then (Attempt.read_run Frame.function f) ?_
    unfold MergePoint.close
    cases point.latch with
    | some block => exact .of_error rfl kept
    | none =>
      have later : Maintains Frame.Fits (do
          Build.note (lit "lowering.loops: Patched merge point " ++ point.name ++ lit " from " ++ latch)
          let points ← closeAll env latch rest
          pure ({ point with latch := some latch } :: points)) fun closed => ∀ point ∈ closed, point.levity.Fits := by
        refine (Build.fits_still fun _ => ⟨rfl,rfl⟩).andThen fun _ => (ih others).bind fun closed fitsClosed => ?_
        exact .pure (List.forall_mem_cons.mpr ⟨first,fitsClosed⟩)
      exact later _ ⟨kept.function.addIncoming point.phi latch (fits_carried fits point),kept.points⟩

end MergePoint

mutual

/-- Lowering an expression emits constants that fit a word only, and gives no others. -/
theorem Expr.lower_fits (signatures : Table Nat) (e : Expr) {env : Environment} (fits : env.Fits) :
    Maintains Frame.Fits (e.lower signatures env) Value.Fits := by
  match e with
  | .literal n => exact .pure (Value.fits_ofInt n)
  | .var name => exact Build.fits_readVariable fits name
  | .binary left op right =>
    refine (left.lower_fits signatures fits).bind fun a fitsLeft => ?_
    exact (right.lower_fits signatures fits).bind fun b fitsRight => Build.fits_arith op fitsLeft fitsRight
  | .call callee args =>
    refine (Maintains.ofExcept fun _ _ => trivial).andThen fun _ => (args.lower_fits signatures fits).bind fun values fitsValues => ?_
    exact (Build.fits_identifier callee).andThen fun name => Build.fits_emitNamed _ fun _ => fitsValues
  | .scope body => exact (body.lower_fits signatures fits).bind fun result good => .pure good.1
  | .loop cond body =>
    refine (cond.lower_fits signatures fits).bind fun first fitsFirst => (Build.fits_isZero fitsFirst).bind fun skip fitsSkip => ?_
    refine (Build.fits_addBlock _).andThen fun header => (Build.fits_addBlock _).andThen fun exit => ?_
    refine (Build.fits_still fun _ => ⟨rfl,rfl⟩).andThen fun preheader => ?_
    refine .andThen (Build.fits_terminate (List.forall_mem_singleton.mpr fitsSkip)) fun _ => ?_
    refine (Build.fits_still fun _ => ⟨rfl,rfl⟩).andThen fun _ => (MergePoint.fits_openFor fits _ preheader).bind fun points tags => ?_
    refine (body.lower_fits signatures (fits.bindAll tags)).bind fun result after => ?_
    refine (cond.lower_fits signatures after.2).bind fun again fitsAgain => (Build.fits_isZero fitsAgain).bind fun leave fitsLeave => ?_
    refine (Build.fits_still fun _ => ⟨rfl,rfl⟩).andThen fun latch => (MergePoint.fits_closeAll after.2 latch tags).bind fun closed listed => ?_
    refine .andThen (Build.fits_terminate (List.forall_mem_singleton.mpr fitsLeave)) fun _ => ?_
    refine (Build.fits_still fun _ => ⟨rfl,rfl⟩).andThen fun _ => Maintains.andThen (.of_state fun f kept => ?_) fun _ => .pure (Value.fits_ofInt 0)
    exact ⟨kept.function,List.forall_mem_append.mpr ⟨kept.points,listed⟩⟩

theorem Args.lower_fits (signatures : Table Nat) (args : Args) {env : Environment} (fits : env.Fits) :
    Maintains Frame.Fits (args.lower signatures env) fun values => ∀ value ∈ values, value.Fits := by
  match args with
  | .nil => exact .pure (by simp)
  | .cons first rest =>
    refine (first.lower_fits signatures fits).bind fun value fitsValue => (rest.lower_fits signatures fits).bind fun values others => ?_
    exact .pure (List.forall_mem_cons.mpr ⟨fitsValue,others⟩)

theorem Stmt.lower_fits (signatures : Table Nat) (s : Stmt) {env : Environment} (fits : env.Fits) :
    Maintains Frame.Fits (s.lower signatures env) Environment.Fits := by
  match s with
  | .discard value => exact (value.lower_fits signatures fits).bind fun _ _ => .pure fits
  | .bindConst name value =>
    refine (value.lower_fits signatures fits).bind fun bound fitsBound => ?_
    cases bound with
    | reg result type => exact .fail _
    | const n => exact .pure (fits.bind name fitsBound fitsBound)
  | .bindMut name value =>
    refine (Build.fits_identifier name).andThen fun base => (Build.fits_allocate base).bind fun cell fitsCell => ?_
    refine (value.lower_fits signatures fits).bind fun bound fitsBound => ?_
    refine .andThen (Build.fits_emitUnnamed (List.forall_mem_cons.mpr ⟨fitsBound,List.forall_mem_singleton.mpr fitsCell⟩)) fun _ => ?_
    exact .pure (fits.bind name fitsCell trivial)
  | .assign name value =>
    refine (Maintains.ofExcept fun address assigned => fits.assignable assigned).bind fun address fitsAddress => ?_
    refine (value.lower_fits signatures fits).bind fun stored fitsStored => ?_
    exact .andThen (Build.fits_emitUnnamed (List.forall_mem_cons.mpr ⟨fitsStored,List.forall_mem_singleton.mpr fitsAddress⟩)) fun _ => .pure fits

theorem Block.lower_fits (signatures : Table Nat) (b : Block) {env : Environment} (fits : env.Fits) :
    Maintains Frame.Fits (b.lower signatures env) fun result => result.1.Fits ∧ result.2.Fits := by
  match b with
  | .result value => exact (value.lower_fits signatures fits).bind fun result fitsResult => .pure ⟨fitsResult,fits⟩
  | .step first rest => exact (first.lower_fits signatures fits).bind fun after fitsAfter => rest.lower_fits signatures fitsAfter

end

theorem Subject.lowerProgram_fits (signatures : Table Nat) (subject : Subject) {env : Environment} (fits : env.Fits) :
    Maintains Frame.Fits (subject.lowerProgram signatures env) Value.Fits := by
  cases subject with
  | node n =>
    cases n with
    | expr e => exact e.lower_fits signatures fits
    | stmt s => exact .fail _
    | block b => exact (b.lower_fits signatures fits).bind fun result good => .pure good.1
  | oddBinary left symbol right =>
    exact (left.lower_fits signatures fits).bind fun _ _ => (right.lower_fits signatures fits).bind fun _ _ => .fail _
  | foreign value => exact .fail _

/-! ### The constants of a module -/

/-- All constants of the functions and of the merge points fit a word. -/
structure Draft.Fits (draft : Draft) : Prop where
  functions : ∀ fn ∈ draft.functions, fn.Fits
  points : ∀ point ∈ draft.points, point.levity.Fits

namespace Draft
variable {draft : Draft} {α : Type}

theorem Fits.resume (fits : draft.Fits) {f : Frame} (frame : f.Fits) : (draft.resume f).Fits where
  functions fn member := by
    obtain ⟨old,listed,rfl⟩ := List.mem_map.mp member
    split
    · exact frame.function
    · exact fits.functions old listed
  points := frame.points
theorem fits_fill {work : Build α} {good : α → Prop} (kept : Maintains Frame.Fits work good) (idle : Except Fault α) :
    Maintains Draft.Fits (fill work idle) fun _ => True := by
  refine .of_state fun draft fits => ?_
  unfold fill
  split
  · rename_i fn filling found _
    exact fits.resume (kept.kept ⟨fits.functions fn (mem_of_entryFunction? found),fits.points⟩)
  · exact fits
theorem fits_declare (name : Text) (arity : Int) : Maintains Draft.Fits (declare name arity) fun _ => True := by
  refine Maintains.andThen (.of_state fun _ fits => fits) fun known => ?_
  cases known with
  | some fn =>
    dsimp only
    split
    · exact .pure trivial
    · exact .fail _
  | none =>
    dsimp only
    split
    · exact .fail _
    · refine Maintains.andThen (.of_state fun _ fits => ⟨?_,fits.points⟩) fun _ => .pure trivial
      refine List.forall_mem_append.mpr ⟨fits.functions,List.forall_mem_singleton.mpr fun block member => ?_⟩
      exact absurd member List.not_mem_nil
theorem fits_declareAll (table : Table Int) : Maintains Draft.Fits (declareAll table) fun _ => True := by
  induction table with
  | nil => exact .pure trivial
  | cons entry rest ih => exact (fits_declare entry.1 entry.2).andThen fun _ => ih
theorem fits_closeArena (target : Text) : Maintains Frame.Fits (Build.closeArena target) fun _ => True := by
  refine (Build.fits_still fun _ => ⟨rfl,rfl⟩).andThen fun _ => (Build.fits_still fun _ => ⟨rfl,rfl⟩).andThen fun ended => ?_
  cases ended with
  | true => exact .fail _
  | false =>
    exact .of_state fun _ fits => ⟨Function.Each.insert fits.function fun _ member => absurd member List.not_mem_nil,fits.points⟩
theorem fits_fillEntry (signatures : Table Nat) (subject : Subject) : Maintains Frame.Fits (fillEntry signatures subject) fun _ => True := by
  refine (Build.fits_still fun _ => ⟨rfl,rfl⟩).andThen fun start => ?_
  refine (subject.lowerProgram_fits signatures Environment.fits_empty).bind fun value fitsValue => ?_
  refine .andThen (Build.fits_terminate (List.forall_mem_singleton.mpr fitsValue)) fun _ => (fits_closeArena start).andThen fun _ => ?_
  refine (Build.fits_still fun _ => ⟨rfl,rfl⟩).andThen fun name => (Build.fits_still fun _ => ⟨rfl,rfl⟩).andThen fun cells => ?_
  exact (Build.fits_still fun _ => ⟨rfl,rfl⟩).andThen fun points => Build.fits_still fun _ => ⟨rfl,rfl⟩
theorem fits_buildEntry (subject : Subject) : Maintains Draft.Fits (buildEntry subject) fun _ => True := by
  refine Maintains.andThen (.of_state fun draft fits => ?_) fun _ => Maintains.andThen (.of_state fun _ fits => fits) fun signatures => ?_
  · unfold openEntry
    split
    · exact fits
    · rename_i fn found
      have opened := Function.Each.addBlock (Function.Each.addBlock (fits.functions fn (mem_of_entryFunction? found)) (lit "entry")) (lit "start")
      exact fits.resume ⟨opened,fits.points⟩
  · exact fits_fill (fits_fillEntry signatures subject) _
theorem fits_reported {step : Session α} (kept : Maintains Draft.Fits step fun _ => True) :
    Maintains Draft.Fits (reported step) fun _ => True := by
  refine .of_state fun draft fits => ?_
  have later := kept.kept fits
  unfold reported
  split
  · rename_i run
    rw [run] at later
    exact later
  · exact later
/-- Whatever is built, and whether it succeeds or not. -/
theorem fits_build (subject : Subject) : Maintains Draft.Fits (build subject) fun _ => True := by
  refine Maintains.andThen (.of_state fun _ fits => fits) fun already => ?_
  cases already with
  | true => exact .fail _
  | false =>
    refine Maintains.andThen (.of_state fun _ fits => ⟨fits.functions,fits.points⟩) fun _ => ?_
    refine Maintains.andThen (.of_state fun _ fits => fits) fun options => ?_
    refine Maintains.andThen (.ofExcept fun _ _ => trivial) fun discovered => Maintains.andThen (.ofExcept fun _ _ => trivial) fun violations => ?_
    split
    · refine (fits_declareAll _).andThen fun _ => (fits_declare _ 0).andThen fun entry => ?_
      refine Maintains.andThen (.of_state fun _ fits => ⟨fits.functions,fits.points⟩) fun _ => ?_
      exact fits_reported (fits_buildEntry subject)
    · exact .fail _

end Draft

/-! ### Tags -/

/-- All constants at the moment fit a word. -/
structure Moment.Fits (moment : Moment) : Prop where
  frame : moment.frame.Fits
  env : moment.env.Fits

section
variable {signatures : Table Nat} {cond : Expr} {env : Environment} {f before opened : Frame} {first : Value} {points : List MergePoint}
variable {moment moment' : Moment}

theorem Frame.Fits.opens (fits : f.Fits) (bound : env.Fits) (ran : cond.lower signatures env f = (.ok first,before))
    (ranOpen : MergePoint.openFor cond.reads env (before.compared first).block ((before.compared first).branched before.comparison) =
      (.ok points,opened)) : opened.Fits ∧ (MergePoint.bindAll env points).Fits := by
  obtain ⟨fits₁,fitsFirst⟩ := (cond.lower_fits signatures bound f fits).ok ran
  have compared : (before.compared first).function.Fits := Function.Each.append fits₁.function (List.forall_mem_singleton.mpr fitsFirst)
  have headed := Function.Each.addBlock (Function.Each.addBlock compared (lit "loop")) (lit "afterloop")
  have branched : ((before.compared first).branched before.comparison).Fits :=
    ⟨Function.Each.append headed (List.forall_mem_singleton.mpr trivial),fits₁.points⟩
  obtain ⟨fitsOpened,tags⟩ := (MergePoint.fits_openFor bound cond.reads _ _ branched).ok ranOpen
  exact ⟨fitsOpened,bound.bindAll tags⟩
theorem Moment.Leads.fits (leads : moment.Leads signatures moment') (fits : moment.Fits) : moment'.Fits := by
  obtain ⟨frame,bound⟩ := fits
  cases leads with
  | left | args _ | firstArg | scope | cond | discard | bindConst | assign _ | result | first => exact ⟨frame,bound⟩
  | right ran | laterArgs ran => exact ⟨((Expr.lower_fits signatures _ bound _ frame).ok ran).1,bound⟩
  | body ran ranOpen =>
    obtain ⟨fitsOpened,boundOpened⟩ := frame.opens bound ran ranOpen
    exact ⟨fitsOpened,boundOpened⟩
  | again ran ranOpen ranBody =>
    obtain ⟨fitsOpened,boundOpened⟩ := frame.opens bound ran ranOpen
    obtain ⟨fitsEnded,_,boundEnded⟩ := (Block.lower_fits signatures _ boundOpened _ fitsOpened).ok ranBody
    exact ⟨fitsEnded,boundEnded⟩
  | bindMut _ => exact ⟨((Build.fits_allocate _ _ frame).ok (Build.allocate_run ..)).1,bound⟩
  | rest ran =>
    obtain ⟨fitsAfter,boundAfter⟩ := (Stmt.lower_fits signatures _ bound _ frame).ok ran
    exact ⟨fitsAfter,boundAfter⟩
theorem Program.Passes.fits {program : Program} {options : Options} (passes : program.Passes options signatures moment) : moment.Fits := by
  obtain ⟨log,way⟩ := passes
  induction way with
  | refl =>
    refine ⟨⟨?_,fun _ member => absurd member List.not_mem_nil⟩,Environment.fits_empty⟩
    have none : (Function.declare options.entryName 0).Fits := fun _ member => absurd member List.not_mem_nil
    exact Function.Each.addBlock (Function.Each.addBlock none (lit "entry")) (lit "start")
  | tail _ leads ih => exact leads.fits ih

end

/-- For every integer and every width given as an integer: from one on, wrapping gives the one signed number of the width that
    agrees with the integer modulo the number of its vectors, which is what masking and correcting the sign give; wrapping twice is
    wrapping once, and integers wrap to the same if and only if they agree. Below one, there is no such width. In whatever is built,
    every constant fits a word, and so does every constant that a merge point is tagged with, or a name at a moment of lowering. -/
theorem wrap_unique_residue :
    (∀ bits value : Int, 1 ≤ bits → ∃ r, wrapTo bits value = .ok r ∧ IsResidue bits.toNat value r ∧
      (∀ other, IsResidue bits.toNat value other → other = r) ∧ wrapTo bits r = .ok r ∧
      r = let masked := Int.land value (2 ^ bits.toNat - 1)
          if 2 ^ (bits.toNat - 1) ≤ masked then masked - 2 ^ bits.toNat else masked) ∧
    (∀ bits a b : Int, 1 ≤ bits → (wrapTo bits a = wrapTo bits b ↔ a ≡ b [ZMOD 2 ^ bits.toNat])) ∧
    (∀ bits value : Int, bits ≤ 0 → wrapTo bits value = .error .negativeShift) ∧
    (∀ (subject : Subject) (options : Options) (draft : Draft), (Draft.build subject (.new options)).2 = draft →
      (∀ fn ∈ draft.module.functions, ∀ block ∈ fn.blocks, ∀ instr ∈ block.instrs, ∀ n, .const n ∈ instr.inputs → FitsBits 32 n) ∧
      ∀ point ∈ draft.points, ∀ n, point.levity = .unboxed n → FitsBits 32 n) ∧
    ∀ (program : Program) (options : Options) (signatures : Table Nat) (moment : Moment), program.Passes options signatures moment →
      ∀ name value n, moment.env.lookup? name = some ⟨value,.unboxed n⟩ → FitsBits 32 n := by
  have wrapped : ∀ bits value : Int, 1 ≤ bits → wrapTo bits value = .ok (wrap bits.toNat value) := by
    intro bits value positive
    exact if_neg (by omega)
  refine ⟨fun bits value positive => ?_,fun bits a b positive => ?_,fun bits value none => ?_,?_,?_⟩
  · have wide : 1 ≤ bits.toNat := by omega
    refine ⟨_,wrapped bits value positive,(isResidue_iff wide).mpr rfl,fun other => (isResidue_iff wide).mp,?_,wrap_eq_masked wide value⟩
    rw [wrapped bits _ positive,wrap_wrap]
  · rw [wrapped bits a positive,wrapped bits b positive,← wrap_eq_wrap_iff]
    exact ⟨Except.ok.inj,congrArg Except.ok⟩
  · exact if_pos (by omega)
  · rintro subject options _ rfl
    have fits := (Draft.fits_build subject).kept (⟨by simp [Draft.new],by simp [Draft.new]⟩ : (Draft.new options).Fits)
    refine ⟨fun fn listed block member instr inside n input => fits.functions fn listed block member instr inside _ input,?_⟩
    intro point member n tagged
    have tag := fits.points point member
    rw [tagged] at tag
    exact tag
  · intro program options signatures moment passes name value n bound
    exact (passes.fits.env name _ bound).2

/-- A program that stores a literal of 33 bits in a cell. -/
def oversized : Program :=
  .block (.step (.bindConst (lit "x") (.literal 6442450944)) (.step (.bindMut (lit "y") (.var (lit "x"))) (.result (.var (lit "y")))))
/-- With eight bits, `-129` wraps to `127` and to nothing else. The module of the program is built, and the literal has become the
    least integer of a word in it. -/
theorem wrap_unique_residue_oversized :
    wrapTo 8 (-129) = .ok 127 ∧ (∀ other, IsResidue 8 (-129) other → other = 127) ∧ wrapTo 0 5 = .error .negativeShift ∧
    (Draft.build oversized.subject (.new {})).1 = .ok () ∧
    ∃ fn ∈ (Draft.build oversized.subject (.new {})).2.module.functions, ∃ block ∈ fn.blocks, ∃ instr ∈ block.instrs,
      Value.const (-2147483648) ∈ instr.inputs ∧ FitsBits 32 (-2147483648) := by
  obtain ⟨residue,_,widthless,constants,_⟩ := wrap_unique_residue
  obtain ⟨r,wraps,_,unique,_⟩ := residue 8 (-129) (by decide)
  have same : r = 127 := Except.ok.inj (wraps.symm.trans rfl)
  have built : (Draft.build oversized.subject (.new {})).1 = .ok () := Attempt.eq_ok_of_isOk (by decide +kernel)
  have stored : ∃ fn ∈ (Draft.build oversized.subject (.new {})).2.module.functions, ∃ block ∈ fn.blocks, ∃ instr ∈ block.instrs,
      Value.const (-2147483648) ∈ instr.inputs := by decide +kernel
  obtain ⟨fn,listed,block,member,instr,inside,input⟩ := stored
  have fits := (constants oversized.subject {} _ rfl).1 fn listed block member instr inside _ input
  exact ⟨same ▸ wraps,fun other found => (unique other found).trans same,widthless 0 5 (by decide),built,
    fn,listed,block,member,instr,inside,input,fits⟩

end Lev
