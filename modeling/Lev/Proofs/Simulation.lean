import Lev.Proofs.Lowering
import Lev.Proofs.Machine
import Mathlib.Data.List.TakeWhile

/-!
How a running machine follows an evaluation. `Simulates` relates a machine to the outcome of a step of an
evaluation: if there is one, the machine gets to a state that fits it; if there is none, the machine does
not return within the bound. `Placed` relates a machine to the frame whose code it has just run.
-/
namespace Lev

/-! ### Arithmetic -/

theorem wrap_eq_toInt (n : Int) : wrap wordBits n = (BitVec.ofInt 32 n).toInt := (BitVec.toInt_ofInt ..).symm
theorem ofInt_wrap (n : Int) : BitVec.ofInt 32 (wrap wordBits n) = .ofInt 32 n := by
  rw [wrap_eq_toInt,BitVec.ofInt_toInt]
/-- The quotient of the absolute values, with the sign of the operands, is the one that is cut off toward zero. -/
theorem Operator.quotient_eq_tdiv (left right : Int) : quotient left right = left.tdiv right := by
  unfold quotient
  rw [← Int.ofNat_fdiv]
  cases left with
  | ofNat a =>
    have positive : ¬ Int.ofNat a < 0 := by simp
    cases right with
    | ofNat b =>
      have divisor : ¬ Int.ofNat b < 0 := by simp
      simp only [positive,divisor]
      rfl
    | negSucc b =>
      simp only [positive,Int.negSucc_lt_zero]
      rfl
  | negSucc a =>
    cases right with
    | ofNat b =>
      have divisor : ¬ Int.ofNat b < 0 := by simp
      simp only [divisor,Int.negSucc_lt_zero]
      rfl
    | negSucc b =>
      simp only [Int.negSucc_lt_zero]
      rfl
theorem Operator.compute_eq_apply (op : Operator) (a b : Word) : op.compute a b = op.apply a b := by
  cases op with
  | add => simp [compute,apply,BitVec.ofInt_add]
  | sub => exact congrArg some (BitVec.eq_of_toInt_eq (by rw [BitVec.toInt_sub,BitVec.toInt_ofInt]))
  | mul => simp [compute,apply,BitVec.ofInt_mul]
  | div =>
    have zero : b = 0 ↔ b.toInt = 0 := BitVec.toInt_inj.symm
    have least : a = .intMin 32 ↔ a.toInt = -2147483648 := BitVec.toInt_inj.symm
    have minus : b = -1 ↔ b.toInt = -1 := BitVec.toInt_inj.symm
    have quotient : a.sdiv b = .ofInt 32 (a.toInt.tdiv b.toInt) :=
      BitVec.eq_of_toInt_eq (by rw [BitVec.toInt_sdiv,BitVec.toInt_ofInt])
    simp only [compute,apply,zero,least,minus,quotient]
/-- Folding constants computes what the words they stand for give. -/
theorem Operator.apply_of_fold {op : Operator} {a b : Word} {n : Int} (folded : op.fold wordBits a.toInt b.toInt = some n) :
    op.apply a b = some (.ofInt 32 n) := by
  cases op with
  | add => cases folded; simp [apply,ofInt_wrap]
  | sub => cases folded; simp [apply,ofInt_wrap]
  | mul => cases folded; simp [apply,ofInt_wrap]
  | div =>
    by_cases undefined : b.toInt = 0 ∨ (a.toInt = -2147483648 ∧ b.toInt = -1)
    · have nothing : Operator.div.fold wordBits a.toInt b.toInt = none := if_pos undefined
      rw [nothing] at folded
      cases folded
    · have divided : Operator.div.fold wordBits a.toInt b.toInt = some (quotient a.toInt b.toInt) := if_neg undefined
      rw [divided,quotient_eq_tdiv] at folded
      cases folded
      exact if_neg undefined

/-! ### Machines and evaluations -/

section
variable (module : Module) (fn : Function) (world : World) (bound : Nat)

/-- The machine follows a step of an evaluation with the given outcome. -/
def Simulates {α : Type} (s : Machine) (outcome : Option (α × Memory)) (post : α → Memory → Machine → Prop) : Prop :=
  match outcome with
  | some (a,memory) => ∃ s', Machine.Reaches module fn world s s' ∧ post a memory s'
  | none => Machine.run module fn world bound s = none

end

section
variable {module : Module} {fn : Function} {world : World} {bound : Nat} {s s' : Machine} {memory : Memory}
variable {α β : Type}

/-- The machine may be ahead. -/
theorem Simulates.after {outcome : Option (α × Memory)} {post : α → Memory → Machine → Prop}
    (reaches : Machine.Reaches module fn world s s') (simulates : Simulates module fn world bound s' outcome post) :
    Simulates module fn world bound s outcome post := by
  cases outcome with
  | none => exact reaches.running simulates
  | some result =>
    obtain ⟨s'',further,holds⟩ := simulates
    exact ⟨s'',reaches.trans further,holds⟩
/-- A sequence is followed part by part. -/
theorem Simulates.bind {first : Evaluation α} {next : α → Evaluation β} {mid : α → Memory → Machine → Prop}
    {post : β → Memory → Machine → Prop} (simulates : Simulates module fn world bound s (first memory) mid)
    (rest : ∀ a memory' s', mid a memory' s' → Simulates module fn world bound s' (next a memory') post) :
    Simulates module fn world bound s ((first >>= next) memory) post := by
  have unfolded : (first >>= next) memory = (first memory).bind fun (a,memory') => next a memory' := rfl
  rw [unfolded]
  cases outcome : first memory with
  | none =>
    rw [outcome] at simulates
    exact simulates
  | some result =>
    obtain ⟨a,memory'⟩ := result
    rw [outcome] at simulates
    obtain ⟨mid,reaches,holds⟩ := simulates
    exact .after reaches (rest a memory' mid holds)
/-- The machine goes on once the evaluation is done. -/
theorem Simulates.further {outcome : Option (α × Memory)} {mid post : α → Memory → Machine → Prop}
    (simulates : Simulates module fn world bound s outcome mid)
    (more : ∀ a memory s', mid a memory s' → ∃ s'', Machine.Reaches module fn world s' s'' ∧ post a memory s'') :
    Simulates module fn world bound s outcome post := by
  cases outcome with
  | none => exact simulates
  | some result =>
    obtain ⟨s',reaches,holds⟩ := simulates
    obtain ⟨s'',further,holds'⟩ := more _ _ s' holds
    exact ⟨s'',reaches.trans further,holds'⟩
theorem Simulates.mono {outcome : Option (α × Memory)} {post post' : α → Memory → Machine → Prop}
    (simulates : Simulates module fn world bound s outcome post)
    (implies : ∀ a memory s', post a memory s' → post' a memory s') : Simulates module fn world bound s outcome post' :=
  simulates.further (fun a memory s' holds => ⟨s',.refl,implies a memory s' holds⟩)
theorem Simulates.pure {a : α} {post : α → Memory → Machine → Prop} (holds : post a memory s) :
    Simulates module fn world bound s ((Pure.pure a : Evaluation α) memory) post :=
  ⟨s,.refl,holds⟩
theorem Simulates.le {outcome : Option (α × Memory)} {post : α → Memory → Machine → Prop} {fewer : Nat}
    (simulates : Simulates module fn world bound s outcome post) (le : fewer ≤ bound) :
    Simulates module fn world fewer s outcome post := by
  cases outcome with
  | none => exact Machine.run_eq_none_of_le le simulates
  | some result => exact simulates
/-- A step of the machine counts. -/
theorem Simulates.step {outcome : Option (α × Memory)} {post : α → Memory → Machine → Prop}
    (turn : s.step module fn world = some (.next s')) (simulates : Simulates module fn world bound s' outcome post) :
    Simulates module fn world (bound + 1) s outcome post := by
  cases outcome with
  | none => exact (Machine.run_next turn bound).trans simulates
  | some result =>
    obtain ⟨s'',further,holds⟩ := simulates
    exact ⟨s'',.head turn further,holds⟩
/-- A machine that follows an evaluation under every bound, and then returns, returns what the evaluation does. -/
theorem Simulates.returns_iff {evaluation : Nat → Option (Word × Memory)}
    (simulates : ∀ bound, Simulates module fn world bound s (evaluation bound)
      (fun w memory s' => Machine.run module fn world 1 s' = some (w,memory.trace))) {w : Word} {trace : List Event} :
    (∃ steps, Machine.run module fn world steps s = some (w,trace)) ↔ ∃ bound cells, evaluation bound = some (w,⟨cells,trace⟩) := by
  constructor
  · rintro ⟨steps,returned⟩
    have simulated := simulates steps
    cases outcome : evaluation steps with
    | none =>
      rw [outcome] at simulated
      cases simulated.symm.trans returned
    | some result =>
      obtain ⟨w',memory⟩ := result
      rw [outcome] at simulated
      obtain ⟨s',reaches,ended⟩ := simulated
      obtain ⟨more,returned'⟩ := reaches.returns ended
      cases Machine.run_unique returned returned'
      exact ⟨steps,memory.cells,outcome⟩
  · rintro ⟨bound,cells,evaluated⟩
    have simulated := simulates bound
    rw [evaluated] at simulated
    obtain ⟨s',reaches,ended⟩ := simulated
    exact reaches.returns ended

/-! ### Loops -/

section
variable {test body : Evaluation Word} {inside : Memory → Machine → Prop} {tested : Word → Memory → Machine → Prop}
variable {post : Memory → Machine → Prop}

/-- The rounds of a loop. Each of them takes the machine a step at least, so that it cannot return within the
    bound if the evaluation needs more rounds than that. -/
theorem Simulates.rounds
    (round : ∀ memory s, inside memory s → Simulates module fn world bound s ((body >>= fun _ => test) memory) tested)
    (leave : ∀ memory s, tested 0 memory s → ∃ s', Machine.Reaches module fn world s s' ∧ post memory s')
    (again : ∀ w memory s, w ≠ 0 → tested w memory s → ∃ s', s.step module fn world = some (.next s') ∧ inside memory s')
    {n : Nat} (le : n ≤ bound) (holds : inside memory s) :
    Simulates module fn world n s ((body >>= fun _ => Evaluation.iterate test body n) memory) (fun _ => post) := by
  induction n generalizing memory s with
  | zero =>
    have nothing : (body >>= fun _ => Evaluation.iterate test body 0) memory = none := by
      show (body memory).bind (fun _ => none) = none
      cases body memory <;> rfl
    rw [nothing]
    exact rfl
  | succ n ih =>
    rw [Evaluation.iterate,← bind_assoc]
    refine .bind ((round memory s holds).le le) (fun w memory' s' ended => ?_)
    split
    · rename_i zero
      obtain ⟨s'',reaches,done⟩ := leave memory' s' (zero ▸ ended)
      exact .after reaches (.pure done)
    · rename_i nonzero
      obtain ⟨s'',turn,back⟩ := again w memory' s' nonzero ended
      exact .step turn (ih (Nat.le_of_succ_le le) back)
/-- A loop whose first test stands before it. -/
theorem Simulates.iterate {entered : Word → Memory → Machine → Prop}
    (first : Simulates module fn world bound s (test memory) entered)
    (skip : ∀ memory s, entered 0 memory s → ∃ s', Machine.Reaches module fn world s s' ∧ post memory s')
    (enter : ∀ w memory s, w ≠ 0 → entered w memory s → ∃ s', s.step module fn world = some (.next s') ∧ inside memory s')
    (round : ∀ memory s, inside memory s → Simulates module fn world bound s ((body >>= fun _ => test) memory) tested)
    (leave : ∀ memory s, tested 0 memory s → ∃ s', Machine.Reaches module fn world s s' ∧ post memory s')
    (again : ∀ w memory s, w ≠ 0 → tested w memory s → ∃ s', s.step module fn world = some (.next s') ∧ inside memory s') :
    Simulates module fn world bound s (Evaluation.iterate test body bound memory) (fun _ => post) := by
  cases bound with
  | zero => exact rfl
  | succ n =>
    rw [Evaluation.iterate]
    refine .bind first (fun w memory' s' ended => ?_)
    split
    · rename_i zero
      obtain ⟨s'',reaches,done⟩ := skip memory' s' (zero ▸ ended)
      exact .after reaches (.pure done)
    · rename_i nonzero
      obtain ⟨s'',turn,begun⟩ := enter w memory' s' nonzero ended
      exact .step turn (.rounds round leave again (Nat.le_succ n) begun)

end

end

/-! ### The code that is run -/

/-- The second instruction is the first, or a phi with more edges. -/
def Instr.Grows (instr later : Instr) : Prop :=
  later = instr ∨ ∃ result type incoming more, instr = .phi result type incoming ∧ later = .phi result type (incoming ++ more)

theorem Instr.Grows.isPhi {instr later : Instr} (grows : instr.Grows later) : later.isPhi = instr.isPhi := by
  rcases grows with rfl | ⟨_,_,_,_,rfl,rfl⟩ <;> rfl
theorem Instr.Grows.eq {instr later : Instr} (grows : instr.Grows later) (plain : instr.isPhi = false) : later = instr := by
  rcases grows with same | ⟨_,_,_,_,rfl,_⟩
  · exact same
  · cases plain
theorem Instr.Grows.trans {instr later last : Instr} (first : instr.Grows later) (second : later.Grows last) :
    instr.Grows last := by
  rcases first with rfl | ⟨result,type,incoming,more,rfl,rfl⟩
  · exact second
  · rcases second with rfl | ⟨_,_,_,others,same,rfl⟩
    · exact .inr ⟨result,type,incoming,more,rfl,rfl⟩
    · cases same
      exact .inr ⟨result,type,incoming,more ++ others,rfl,by rw [List.append_assoc]⟩
theorem Instr.grows_addIncoming (phi : Text) (edge : Value × Text) (instr : Instr) : instr.Grows (instr.addIncoming phi edge) := by
  cases instr with
  | phi result type incoming =>
    by_cases same : result = phi
    · exact .inr ⟨result,type,incoming,[edge],rfl,by simp [addIncoming,same]⟩
    · exact .inl (by simp [addIncoming,same])
  | _ => exact .inl rfl
theorem MergePoint.grows_latchInstr (env : Environment) (latch : Text) (points : List MergePoint) (instr : Instr) :
    instr.Grows (latchInstr env latch points instr) := by
  induction points generalizing instr with
  | nil => exact .inl rfl
  | cons point rest ih => exact (instr.grows_addIncoming point.phi _).trans (ih _)

/-- The first function has the code of the second: nothing has been put in front of it, and its phis are all. -/
structure Function.Carries (fn part : Function) : Prop where
  places : ∀ label index instr, part.At label index instr → ∃ later, fn.At label index later ∧ instr.Grows later
  rest : ∀ label instrs, part.code? label = some instrs →
    ∀ index later, instrs.length ≤ index → fn.At label index later → later.isPhi = false
  labels : ∀ label ∈ part.labels, label ∈ fn.labels

namespace Function
variable {fn part after : Function}

theorem At.unique {label : Text} {index : Nat} {instr instr' : Instr} (found : fn.At label index instr)
    (found' : fn.At label index instr') : instr = instr' := by
  obtain ⟨instrs,code,inside⟩ := found
  obtain ⟨others,code',inside'⟩ := found'
  rw [code] at code'
  cases code'
  exact Option.some.inj (inside.symm.trans inside')
theorem Carries.refl (fn : Function) : fn.Carries fn where
  places _ _ instr found := ⟨instr,found,.inl rfl⟩
  rest label instrs code index later long placed := by
    obtain ⟨_,same,inside⟩ := placed
    rw [code] at same
    cases same
    exact absurd (List.getElem?_eq_some_iff.mp inside).1 (Nat.not_lt.mpr long)
  labels _ member := member
theorem Carries.at (carries : fn.Carries part) {label : Text} {index : Nat} {instr : Instr} (found : part.At label index instr)
    (plain : instr.isPhi = false) : fn.At label index instr := by
  obtain ⟨later,placed,grows⟩ := carries.places label index instr found
  exact grows.eq plain ▸ placed
theorem Carries.appended (carries : fn.Carries after) {label : Text} {instrs : List Instr} {instr : Instr}
    (added : Appended part after label instrs instr) (plain : instr.isPhi = false) : fn.Carries part where
  places place index found placed := carries.places place index found (added.at_iff.mpr (.inl placed))
  rest place others code index later long placed := by
    by_cases here : place = label
    · subst here
      rw [added.before] at code
      cases code
      rcases Nat.eq_or_lt_of_le long with last | past
      · have atEnd : after.At place index instr := added.at_iff.mpr (.inr ⟨rfl,last.symm,rfl⟩)
        exact (carries.at atEnd plain).unique placed ▸ plain
      · exact carries.rest place _ added.code_same index later (by rw [List.length_append]; exact past) placed
    · exact carries.rest place others ((added.code_other here).trans code) index later long placed
  labels place member := carries.labels place (added.labels ▸ member)
theorem Carries.patched (carries : fn.Carries after) {change : Instr → Instr} (patched : Patched part after change)
    (grows : ∀ instr : Instr, instr.Grows (change instr)) : fn.Carries part where
  places place index instr found := by
    obtain ⟨later,placed,further⟩ := carries.places place index _ (patched.at_iff.mpr ⟨instr,found,rfl⟩)
    exact ⟨later,placed,(grows instr).trans further⟩
  rest place instrs code index later long placed :=
    carries.rest place (instrs.map change) (by rw [patched.code,code]; rfl) index later (by simpa using long) placed
  labels place member := carries.labels place (patched.labels ▸ member)
theorem Carries.advance {above above' : Text → List Text} {f f' : Frame} (carries : fn.Carries f'.function)
    (advance : Frame.Advance above above' f f') : fn.Carries f.function where
  places place index instr found := carries.places place index instr (advance.place found)
  rest place instrs code index later long placed := by
    obtain ⟨added,code',plain,_⟩ := advance.code place instrs code
    by_cases inside : index < (instrs ++ added).length
    · have found : f'.function.At place index (instrs ++ added)[index] := ⟨_,code',List.getElem?_eq_getElem inside⟩
      have isAdded : (instrs ++ added)[index] ∈ added := by
        rw [List.getElem_append_right long]
        exact List.getElem_mem _
      exact (carries.at found (plain _ isAdded)).unique placed ▸ plain _ isAdded
    · exact carries.rest place _ code' index later (Nat.not_lt.mp inside) placed
  labels place member := carries.labels place (advance.labels member)

end Function

/-! ### The state of the machine -/

namespace Machine

/-- The value stands for a datum; constants are the integers of words. -/
def Holds (s : Machine) : Value → Datum → Prop
  | .const n, datum => ∃ w : Word, datum = .word w ∧ n = w.toInt
  | .reg name _, datum => s.registers name = some datum
/-- The registers that the frame has named are as they were. -/
def Keeps (f : Frame) (s s' : Machine) : Prop := ∀ name ∈ f.function.names.used, s'.registers name = s.registers name
/-- The machine has run the code of the frame and stands at its end. Each pair is a cell of the evaluation and a
    place of the machine that hold the same word. -/
structure Placed (fn : Function) (f : Frame) (pairs : List (Nat × Nat)) (memory : Memory) (s : Machine) : Prop where
  block : s.block = f.block
  index : ∀ instrs, f.function.code? f.block = some instrs → s.index = instrs.length
  cells : ∀ index name, fn.At f.entry index (.alloca name) →
    s.registers name = some (.address index) ∧ index < s.memory.length
  trace : s.trace = memory.trace
  same : ∀ pair ∈ pairs, ∃ w, memory.cells[pair.1]? = some w ∧ s.memory[pair.2]? = some (some w)
/-- The binding stands for what the slot stands for. -/
def Represents (s : Machine) (pairs : List (Nat × Nat)) (binding : Binding) : Slot → Prop
  | .word w => binding.isBoxed = false ∧ s.Holds binding.value (.word w)
  | .cell number => binding.isBoxed = true ∧ ∃ place, s.Holds binding.value (.address place) ∧ (number,place) ∈ pairs
/-- The names that are mentioned stand for the same in lowering and in the evaluation. -/
def Agrees (s : Machine) (pairs : List (Nat × Nat)) (mentioned : List Text) (env : Environment) (names : Names) : Prop :=
  ∀ name ∈ mentioned, ∀ binding, env.lookup? name = some binding →
    ∃ slot, names.get? name = some slot ∧ s.Represents pairs binding slot

variable {s s' : Machine} {fn : Function} {f f' : Frame} {pairs : List (Nat × Nat)} {memory memory' : Memory}
variable {signatures : Table Nat} {root : Text} {pending : List Text} {above above' : Text → List Text}

theorem Holds.value? {value : Value} {datum : Datum} (holds : s.Holds value datum) : s.value? value = some datum := by
  cases value with
  | const n =>
    obtain ⟨w,rfl,rfl⟩ := holds
    rw [Machine.value?,BitVec.ofInt_toInt]
  | reg name type => exact holds
theorem Holds.word? {value : Value} {w : Word} (holds : s.Holds value (.word w)) : s.word? value = some w := by
  rw [Machine.word?,holds.value?]
theorem Holds.address? {value : Value} {place : Nat} (holds : s.Holds value (.address place)) : s.address? value = some place := by
  rw [Machine.address?,holds.value?]
theorem Holds.bit? {value : Value} {b : Bool} (holds : s.Holds value (.bit b)) : s.bit? value = some b := by
  rw [Machine.bit?,holds.value?]
theorem holds_ofInt (s : Machine) (n : Int) : s.Holds (.ofInt n) (.word (.ofInt 32 n)) := ⟨.ofInt 32 n,rfl,wrap_eq_toInt n⟩
theorem Keeps.refl (f : Frame) (s : Machine) : Keeps f s s := fun _ _ => rfl
theorem Keeps.trans {s'' : Machine} (first : Keeps f s s') (advance : Frame.Advance above above' f f') (second : Keeps f' s' s'') :
    Keeps f s s'' :=
  fun name member => (second name (advance.used name member)).trans (first name member)
theorem Keeps.congr {s'' : Machine} (keeps : Keeps f s s') (registers : s''.registers = s'.registers) : Keeps f s s'' :=
  fun name member => (congrFun registers name).trans (keeps name member)
/-- What is known keeps its meaning as long as the registers in use do. -/
theorem Holds.keep {value : Value} {datum : Datum} (holds : s.Holds value datum) (sound : f.Sound signatures root pending above)
    (known : f.Knows above value) (keeps : Keeps f s s') : s'.Holds value datum := by
  cases value with
  | const n => exact holds
  | reg name type =>
    obtain ⟨place,position,instr,found,yields,_⟩ := known
    have result : instr.result? = some name := by rw [Instr.result?_eq,yields]; rfl
    exact (keeps name (sound.named.resultUsed place position instr name found result)).trans holds
theorem Represents.holds {binding : Binding} {slot : Slot} (represents : s.Represents pairs binding slot) :
    ∃ datum, s.Holds binding.value datum := by
  cases slot with
  | word w => exact ⟨_,represents.2⟩
  | cell number =>
    obtain ⟨_,place,holds,_⟩ := represents
    exact ⟨_,holds⟩
/-- A binding of the same kind represents the slot as well if its value stands for the same. -/
theorem Represents.transfer {binding binding' : Binding} {slot : Slot} (represents : s.Represents pairs binding slot)
    (kind : binding'.isBoxed = binding.isBoxed) (same : ∀ datum, s.Holds binding.value datum → s'.Holds binding'.value datum) :
    s'.Represents pairs binding' slot := by
  cases slot with
  | word w => exact ⟨kind.trans represents.1,same _ represents.2⟩
  | cell number =>
    obtain ⟨boxed,place,holds,paired⟩ := represents
    exact ⟨kind.trans boxed,place,same _ holds,paired⟩
theorem Agrees.keep {mentioned : List Text} {env : Environment} {names : Names} (agrees : s.Agrees pairs mentioned env names)
    (sound : f.Sound signatures root pending above) (binds : f.Binds above env) (keeps : Keeps f s s') :
    s'.Agrees pairs mentioned env names := by
  intro name member binding bound
  obtain ⟨slot,found,represents⟩ := agrees name member binding bound
  exact ⟨slot,found,represents.transfer rfl (fun _ holds => holds.keep sound (binds name binding bound).1 keeps)⟩
theorem Holds.congr {value : Value} {datum : Datum} (holds : s.Holds value datum) (registers : s'.registers = s.registers) :
    s'.Holds value datum := by
  cases value with
  | const n => exact holds
  | reg name type => exact (congrFun registers name).trans holds
/-- Agreement depends on the registers and the pairs of cells only, and stays with more pairs. -/
theorem Agrees.congr {more : List (Nat × Nat)} {mentioned : List Text} {env : Environment} {names : Names}
    (agrees : s.Agrees pairs mentioned env names) (registers : s'.registers = s.registers) (inside : ∀ pair ∈ pairs, pair ∈ more) :
    s'.Agrees more mentioned env names := by
  intro name member binding bound
  obtain ⟨slot,found,represents⟩ := agrees name member binding bound
  have later : s'.Represents pairs binding slot := represents.transfer rfl (fun _ holds => holds.congr registers)
  refine ⟨slot,found,?_⟩
  cases slot with
  | word w => exact later
  | cell number =>
    obtain ⟨boxed,place,holds,paired⟩ := later
    exact ⟨boxed,place,holds,inside _ paired⟩
/-- A name that is bound anew agrees if its binding and its slot do. -/
theorem Agrees.bind {mentioned : List Text} {env : Environment} {names : Names} (agrees : s.Agrees pairs mentioned env names)
    {name : Text} {value : Value} {levity : Levity} {slot : Slot} (represents : s.Represents pairs ⟨value,levity⟩ slot) :
    s.Agrees pairs mentioned (env.bind name value levity) (names.set name slot) := by
  intro key member binding bound
  rw [Environment.lookup?_bind] at bound
  rw [Table.get?_set]
  by_cases same : key = name
  · rw [if_pos same] at bound ⊢
    cases bound
    exact ⟨slot,rfl,represents⟩
  · rw [if_neg same] at bound ⊢
    exact agrees key member binding bound
theorem Agrees.mono {mentioned fewer : List Text} {env : Environment} {names : Names}
    (agrees : s.Agrees pairs mentioned env names) (inside : ∀ name ∈ fewer, name ∈ mentioned) :
    s.Agrees pairs fewer env names :=
  fun name member => agrees name (inside name member)

/-! ### One instruction -/

section
variable {module : Module} {world : World}

theorem step_of_at {instr : Instr} (found : fn.At s.block s.index instr) :
    s.step module fn world = s.execute module fn world instr := by
  obtain ⟨instrs,code,inside⟩ := found
  simp [step,code,inside]
theorem Reaches.step {instr : Instr} (found : fn.At s.block s.index instr)
    (turn : s.execute module fn world instr = some (.next s')) : Reaches module fn world s s' :=
  .single ((step_of_at found).trans turn)
theorem run_of_stuck {instr : Instr} (found : fn.At s.block s.index instr) (stuck : s.execute module fn world instr = none)
    (steps : Nat) : run module fn world steps s = none :=
  run_stuck ((step_of_at found).trans stuck) steps

end

theorem Placed.fewer {more : List (Nat × Nat)} (placed : Placed fn f more memory s) (inside : ∀ pair ∈ pairs, pair ∈ more) :
    Placed fn f pairs memory s :=
  ⟨placed.block,placed.index,placed.cells,placed.trace,fun pair member => placed.same pair (inside pair member)⟩
/-- The machine stands at an instruction that has just been emitted. -/
theorem Placed.next (placed : Placed fn f pairs memory s) (sound : f.Sound signatures root pending above) {base : Text}
    {instr : Instr} (carries : fn.Carries (f.emitted base instr).function) (plain : instr.isPhi = false) :
    fn.At s.block s.index instr := by
  obtain ⟨instrs,code,_⟩ := sound.current
  rw [placed.block,placed.index instrs code]
  exact carries.at ((Frame.appended_emitted base code instr).at_iff.mpr (.inr ⟨rfl,rfl,rfl⟩)) plain
/-- After the instruction it stands at the end of the code again. -/
theorem Placed.emitted (placed : Placed fn f pairs memory s) (sound : f.Sound signatures root pending above) (named : fn.Named)
    (base : Text) {instr : Instr} (found : fn.At s.block s.index instr) (block : s'.block = s.block) (index : s'.index = s.index + 1)
    (registers : ∀ name, instr.result? ≠ some name → s'.registers name = s.registers name)
    (grown : s.memory.length ≤ s'.memory.length) (trace : s'.trace = memory'.trace)
    (same : ∀ pair ∈ pairs, ∃ w, memory'.cells[pair.1]? = some w ∧ s'.memory[pair.2]? = some (some w)) :
    Placed fn (f.emitted base instr) pairs memory' s' where
  block := block.trans placed.block
  index instrs code := by
    obtain ⟨olds,before,_⟩ := sound.current
    have later := (Frame.appended_emitted base before instr).code_same
    have equal : some instrs = some (olds ++ [instr]) := code.symm.trans later
    cases equal
    rw [index,placed.index olds before,List.length_append]
    rfl
  cells position name alloca := by
    obtain ⟨held,inside⟩ := placed.cells position name alloca
    have other : instr.result? ≠ some name := by
      intro result
      obtain ⟨atEntry,_⟩ := named.resultOnce _ _ _ _ _ _ name found alloca result rfl
      exact sound.inside (placed.block.symm.trans atEntry)
    exact ⟨(registers name other).trans held,Nat.lt_of_lt_of_le inside grown⟩
  trace := trace
  same := same
theorem keeps_emitted (base : Text) {instr : Instr} (result : ∀ name, instr.result? = some name → name = f.fresh base)
    (registers : ∀ name, instr.result? ≠ some name → s'.registers name = s.registers name) : Keeps f s s' := by
  intro name member
  refine registers name (fun yields => ?_)
  exact f.fresh_not_used base (result name yields ▸ member)
/-- An instruction that only sets a register. -/
theorem Placed.yield (placed : Placed fn f pairs memory s) (sound : f.Sound signatures root pending above) (named : fn.Named)
    {base : Text} {instr : Instr} (found : fn.At s.block s.index instr) (result : instr.result? = some (f.fresh base)) (datum : Datum) :
    Placed fn (f.emitted base instr) pairs memory (s.yield (f.fresh base) datum) ∧ Keeps f s (s.yield (f.fresh base) datum) ∧
      (s.yield (f.fresh base) datum).registers (f.fresh base) = some datum := by
  have registers : ∀ name, instr.result? ≠ some name → (s.yield (f.fresh base) datum).registers name = s.registers name := by
    intro name other
    rw [result] at other
    exact if_neg (fun same => other (congrArg some same.symm))
  refine ⟨placed.emitted sound named base found rfl rfl registers (Nat.le_refl _) placed.trace placed.same,?_,if_pos rfl⟩
  exact keeps_emitted base (fun name yields => Option.some.inj (yields.symm.trans result)) registers

/-! ### Into a block -/

theorem mapM_eq_some {α β : Type} {f : α → Option β} {list : List α} (defined : ∀ a ∈ list, ∃ b, f a = some b) :
    ∃ result, list.mapM f = some result ∧ (∀ b ∈ result, ∃ a ∈ list, f a = some b) ∧
      ∀ a ∈ list, ∀ b, f a = some b → b ∈ result := by
  induction list with
  | nil => exact ⟨[],rfl,by simp,by simp⟩
  | cons first rest ih =>
    obtain ⟨b,here⟩ := defined first List.mem_cons_self
    obtain ⟨result,later,sources,images⟩ := ih (fun a member => defined a (List.mem_cons_of_mem _ member))
    refine ⟨b :: result,by simp [List.mapM_cons,here,later],?_,?_⟩
    · intro other member
      rcases List.mem_cons.mp member with rfl | inside
      · exact ⟨first,List.mem_cons_self,here⟩
      · obtain ⟨a,source,image⟩ := sources other inside
        exact ⟨a,List.mem_cons_of_mem _ source,image⟩
    · intro a member other image
      rcases List.mem_cons.mp member with rfl | inside
      · exact List.mem_cons.mpr (.inl (Option.some.inj (image.symm.trans here)))
      · exact List.mem_cons_of_mem _ (images a inside other image)
theorem takeWhile_eq_take {α : Type} {p : α → Bool} {list : List α} {n : Nat} (short : n ≤ list.length)
    (leading : ∀ (i : Nat) a, i < n → list[i]? = some a → p a = true) (rest : ∀ (i : Nat) a, n ≤ i → list[i]? = some a → p a = false) :
    list.takeWhile p = list.take n := by
  induction list generalizing n with
  | nil => simp
  | cons first others ih =>
    cases n with
    | zero =>
      have stops := rest 0 first (Nat.le_refl 0) rfl
      simp [stops]
    | succ n =>
      have goes := leading 0 first (Nat.zero_lt_succ n) rfl
      have later := ih (Nat.le_of_succ_le_succ short) (fun i a less => leading (i+1) a (Nat.succ_lt_succ less))
        (fun i a le => rest (i+1) a (Nat.succ_le_succ le))
      simp [goes,later]
theorem select?_isPhi {phi : Instr} {entry : Text × Datum} (selected : s.select? phi = some entry) : phi.isPhi = true := by
  cases phi with
  | phi => rfl
  | _ => cases selected
theorem select?_result {phi : Instr} {result : Text} {datum : Datum} (selected : s.select? phi = some (result,datum)) :
    phi.result? = some result := by
  cases phi with
  | phi name type incoming =>
    simp only [select?] at selected
    split at selected
    · obtain ⟨other,_,same⟩ := Option.map_eq_some_iff.mp selected
      cases same
      rfl
    · cases selected
  | _ => cases selected
/-- The phis of a block are those that the part of the function has there. -/
theorem takeWhile_isPhi {part : Function} {target : Text} {phis instrs : List Instr} (carries : fn.Carries part)
    (code : part.code? target = some phis) (leading : ∀ phi ∈ phis, phi.isPhi = true) (found : fn.code? target = some instrs) :
    phis.length ≤ instrs.length ∧ instrs.takeWhile Instr.isPhi = instrs.take phis.length := by
  have grown : ∀ index, index < phis.length → ∃ later, instrs[index]? = some later ∧ later.isPhi = true := by
    intro index less
    obtain ⟨later,⟨_,same,inside⟩,grows⟩ := carries.places target index phis[index] ⟨phis,code,List.getElem?_eq_getElem less⟩
    rw [found] at same
    cases same
    exact ⟨later,inside,grows.isPhi.trans (leading _ (List.getElem_mem less))⟩
  have short : phis.length ≤ instrs.length := by
    by_contra long
    obtain ⟨later,inside,_⟩ := grown instrs.length (by omega)
    simp at inside
  refine ⟨short,takeWhile_eq_take short (fun index instr less inside => ?_) ?_⟩
  · obtain ⟨later,inside',isPhi⟩ := grown index less
    rw [inside] at inside'
    cases inside'
    exact isPhi
  · exact fun index later long inside => carries.rest target phis code index later long ⟨instrs,found,inside⟩
/-- A block is entered with its phis set, if the block that is left has a value for each of them. -/
theorem enter_eq {part : Function} {target : Text} {phis : List Instr} (named : fn.Named) (carries : fn.Carries part)
    (code : part.code? target = some phis) (leading : ∀ phi ∈ phis, phi.isPhi = true)
    (selected : ∀ index phi, fn.At target index phi → phi.isPhi = true → ∃ entry, s.select? phi = some entry) :
    ∃ registers, s.enter fn target = some { s with block := target, index := phis.length, registers } ∧
      (∀ index phi result datum, fn.At target index phi → s.select? phi = some (result,datum) → registers result = some datum) ∧
      ∀ name, (∀ index phi, fn.At target index phi → phi.isPhi = true → phi.result? ≠ some name) →
        registers name = s.registers name := by
  obtain ⟨instrs,found⟩ := Function.mem_labels_iff.mp
    (carries.labels target (Function.mem_labels_iff.mpr ⟨phis,code⟩))
  obtain ⟨short,phisOf⟩ := takeWhile_isPhi carries code leading found
  have atPhi : ∀ phi ∈ instrs.take phis.length, phi.isPhi = true ∧ ∃ index, fn.At target index phi := by
    intro phi member
    rw [← phisOf] at member
    exact ⟨List.mem_takeWhile_imp member,Function.At.of_mem found ((List.takeWhile_prefix _).subset member)⟩
  obtain ⟨data,mapped,sources,images⟩ := mapM_eq_some (fun phi member => by
    obtain ⟨isPhi,index,placed⟩ := atPhi phi member
    exact selected index phi placed isPhi)
  -- Each entry of the data comes from a phi of the block.
  have origin : ∀ name datum, Table.get? name data = some datum →
      ∃ index phi, fn.At target index phi ∧ phi.isPhi = true ∧ s.select? phi = some (name,datum) := by
    intro name datum got
    obtain ⟨phi,member,selects⟩ := sources _ (Table.mem_of_get? got)
    obtain ⟨isPhi,index,placed⟩ := atPhi phi member
    exact ⟨index,phi,placed,isPhi,selects⟩
  refine ⟨fun name => (Table.get? name data).or (s.registers name),?_,?_,?_⟩
  · simp only [enter,found,phisOf,mapped,Option.bind_eq_bind,Option.bind_some,List.length_take,Nat.min_eq_left short]
  · intro index phi result datum placed selects
    have inside : phi ∈ instrs.take phis.length := by
      obtain ⟨_,same,here⟩ := placed
      rw [found] at same
      cases same
      have less : index < phis.length := by
        by_contra long
        have plain := carries.rest target phis code index phi (Nat.not_lt.mp long) ⟨_,found,here⟩
        rw [select?_isPhi selects] at plain
        cases plain
      exact List.mem_of_getElem? (by rw [List.getElem?_take_of_lt less]; exact here)
    have listed := images phi inside _ selects
    cases got : Table.get? result data with
    | none => exact absurd (List.mem_map_of_mem listed) (Table.get?_eq_none_iff.mp got)
    | some other =>
      obtain ⟨index',phi',placed',_,selects'⟩ := origin result other got
      obtain ⟨_,rfl⟩ := named.resultOnce _ _ _ _ _ _ result placed placed' (select?_result selects) (select?_result selects')
      rw [placed.unique placed',selects'] at selects
      cases selects
      simp only [got,Option.some_or]
  · intro name other
    cases got : Table.get? name data with
    | none => simp only [got,Option.none_or]
    | some datum =>
      obtain ⟨index,phi,placed,isPhi,selects⟩ := origin name datum got
      exact absurd (select?_result selects) (other index phi placed isPhi)
/-- A block without phis is entered with the registers as they are. -/
theorem enter_plain {part : Function} {target : Text} (carries : fn.Carries part) (code : part.code? target = some []) :
    s.enter fn target = some { s with block := target, index := 0 } := by
  obtain ⟨instrs,found⟩ := Function.mem_labels_iff.mp
    (carries.labels target (Function.mem_labels_iff.mpr ⟨[],code⟩))
  have phisOf := (takeWhile_isPhi carries code (by simp) found).2
  rw [List.length_nil,List.take_zero] at phisOf
  simp [enter,found,phisOf,Table.get?]

end Machine

end Lev
