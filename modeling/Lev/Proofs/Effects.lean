import Lev.Proofs.Simulation

/-!
What the machine does with the code of one step of lowering. The machine follows the evaluation of a variable,
an operation, a call or an assignment, and it goes into a loop, round it and out of it as the tests say.
-/
namespace Lev
open Lev.Frame (Advance)
open Machine (Placed Keeps)

/-- Cells of the evaluation and places of the machine are paired one to one; the places are those of cells that
    have been allocated. -/
structure Pairing (f : Frame) (pairs : List (Nat × Nat)) : Prop where
  injective : ∀ pair ∈ pairs, ∀ other ∈ pairs, pair.1 = other.1 ↔ pair.2 = other.2
  allocated : ∀ pair ∈ pairs, pair.2 < f.arena.cells.length

/-- The machine is where lowering is, with the same cells and the same names. -/
structure Follows (fn : Function) (f : Frame) (pairs : List (Nat × Nat)) (mentioned : List Text) (env : Environment)
    (names : Names) (memory : Memory) (s : Machine) : Prop where
  placed : Placed fn f pairs memory s
  pairing : Pairing f pairs
  agrees : s.Agrees pairs mentioned env names

/-- The machine has gone from one frame to the next, where the value stands for a word. -/
structure Yields (fn : Function) (f f' : Frame) (pairs : List (Nat × Nat)) (s : Machine) (value : Value) (w : Word)
    (memory' : Memory) (s' : Machine) : Prop where
  placed : Placed fn f' pairs memory' s'
  keeps : Keeps f s s'
  holds : s'.Holds value (.word w)

section
variable {module : Module} {fn : Function} {world : World} {bound : Nat}
variable {signatures : Table Nat} {root : Text} {pending : List Text} {above above' : Text → List Text}
variable {f f' : Frame} {pairs : List (Nat × Nat)} {mentioned fewer : List Text} {env : Environment} {names : Names}
variable {memory memory' : Memory} {s s' : Machine} {value : Value}

theorem Pairing.advance (pairing : Pairing f pairs) (advance : Advance above above' f f') : Pairing f' pairs where
  injective := pairing.injective
  allocated pair member := Nat.lt_of_lt_of_le (pairing.allocated pair member) advance.cells.length_le
theorem Follows.mono (follows : Follows fn f pairs mentioned env names memory s) (inside : ∀ name ∈ fewer, name ∈ mentioned) :
    Follows fn f pairs fewer env names memory s :=
  ⟨follows.placed,follows.pairing,follows.agrees.mono inside⟩
/-- What the names stand for outlasts the steps of the machine. -/
theorem Follows.advance (follows : Follows fn f pairs mentioned env names memory s) (sound : f.Sound signatures root pending above)
    (binds : f.Binds above env) (advance : Advance above above' f f') (placed : Placed fn f' pairs memory' s')
    (keeps : Keeps f s s') : Follows fn f' pairs mentioned env names memory' s' :=
  ⟨placed,follows.pairing.advance advance,follows.agrees.keep sound binds keeps⟩
theorem Yields.after {s₀ : Machine} {f₀ : Frame} {above₀ : Text → List Text} {w : Word} (keeps : Keeps f₀ s₀ s)
    (advance : Advance above₀ above f₀ f) (yields : Yields fn f f' pairs s value w memory' s') :
    Yields fn f₀ f' pairs s₀ value w memory' s' :=
  ⟨yields.placed,keeps.trans advance yields.keeps,yields.holds⟩

/-! ### Expressions -/

theorem readVariable_simulates (sound : f.Sound signatures root pending above) (named : fn.Named) {name : Text}
    (follows : Follows fn f pairs [name] env names memory s) (run : Build.readVariable env name f = (.ok value,f'))
    (carries : fn.Carries f'.function) :
    Simulates module fn world bound s (Evaluation.read names name memory) (Yields fn f f' pairs s value) := by
  obtain ⟨binding,_,resolved,rest⟩ := Attempt.bind_eq_ok.mp run
  unfold Environment.resolve at resolved
  cases bound : env.lookup? name with
  | none =>
    rw [bound] at resolved
    cases resolved
  | some binding =>
    rw [bound] at resolved
    cases resolved
    obtain ⟨slot,found,represents⟩ := follows.agrees name List.mem_cons_self binding bound
    cases slot with
    | word w =>
      obtain ⟨unboxed,holds⟩ := represents
      rw [if_neg (by simp [unboxed])] at rest
      cases rest
      have read : Evaluation.read names name memory = some (w,memory) := by simp only [Evaluation.read,found]
      rw [read]
      exact ⟨s,.refl,follows.placed,.refl f s,holds⟩
    | cell number =>
      obtain ⟨boxed,place,holds,paired⟩ := represents
      rw [if_pos boxed,Build.emitNamed_run] at rest
      cases rest
      obtain ⟨w,stored,loaded⟩ := follows.placed.same _ paired
      have read : Evaluation.read names name memory = some (w,memory) := by simp [Evaluation.read,found,stored]
      rw [read]
      have here := follows.placed.next sound carries rfl
      have turn : s.execute module fn world (.load (f.fresh name) binding.value) =
          some (.next (s.yield (f.fresh name) (.word w))) := by
        simp [Machine.execute,holds.address?,loaded]
      obtain ⟨placed,keeps,held⟩ := follows.placed.yield sound named here rfl (.word w)
      exact ⟨_,.step here turn,placed,keeps,held⟩
theorem arith_simulates (sound : f.Sound signatures root pending above) (named : fn.Named) (op : Operator) {left right : Value}
    {a b : Word} (placed : Placed fn f pairs memory s) (holdsLeft : s.Holds left (.word a)) (holdsRight : s.Holds right (.word b))
    (run : Build.arith op left right f = (.ok value,f')) (carries : fn.Carries f'.function) :
    Simulates module fn world bound s (Evaluation.compute op a b memory) (Yields fn f f' pairs s value) := by
  unfold Build.arith at run
  cases folded : op.folded? left right with
  | some n =>
    rw [folded] at run
    cases run
    have applied : op.apply a b = some (.ofInt 32 n) := by
      cases left with
      | reg => cases folded
      | const x =>
        cases right with
        | reg => cases folded
        | const y =>
          obtain ⟨_,same,rfl⟩ := holdsLeft
          obtain ⟨_,same',rfl⟩ := holdsRight
          cases same
          cases same'
          exact Operator.apply_of_fold folded
    rw [Evaluation.compute,applied]
    exact ⟨s,.refl,placed,.refl f s,Machine.holds_ofInt s n⟩
  | none =>
    rw [folded] at run
    cases (Build.emitNamed_run ..).symm.trans run
    have here := placed.next sound carries rfl
    rw [Evaluation.compute]
    cases applied : op.apply a b with
    | none =>
      refine Machine.run_of_stuck here ?_ bound
      simp [Machine.execute,holdsLeft.word?,holdsRight.word?,op.compute_eq_apply,applied]
    | some w =>
      have turn : s.execute module fn world (.arith (f.fresh op.base) op left right) =
          some (.next (s.yield (f.fresh op.base) (.word w))) := by
        simp [Machine.execute,holdsLeft.word?,holdsRight.word?,op.compute_eq_apply,applied]
      obtain ⟨placed',keeps,held⟩ := placed.yield sound named here rfl (.word w)
      exact ⟨_,.step here turn,placed',keeps,held⟩
theorem mapM_word? {values : List Value} {words : List Word} (hold : values.Forall₂ (fun value w => s.Holds value (.word w)) words) :
    values.mapM s.word? = some words := by
  induction hold with
  | nil => rfl
  | cons first _ ih => simp [List.mapM_cons,first.word?,ih]
theorem call_simulates (sound : f.Sound signatures root pending above) (named : fn.Named) {callee base : Text} {values : List Value}
    {words : List Word} (placed : Placed fn f pairs memory s)
    (hold : values.Forall₂ (fun value w => s.Holds value (.word w)) words) (declared : module.declares callee words.length = true)
    (carries : fn.Carries (f.emitted base (.call (f.fresh base) callee values)).function) :
    Simulates module fn world bound s (Evaluation.call world callee words memory)
      (Yields fn f (f.emitted base (.call (f.fresh base) callee values)) pairs s (.reg (f.fresh base) .i32)) := by
  let w := world memory.trace callee words
  let s' : Machine := { s.yield (f.fresh base) (.word w) with trace := s.trace ++ [⟨callee,words,w⟩] }
  have here := placed.next sound carries rfl
  have turn : s.execute module fn world (.call (f.fresh base) callee values) = some (.next s') := by
    simp [Machine.execute,mapM_word? hold,declared,s',w,placed.trace]
  have registers : ∀ name, (Instr.call (f.fresh base) callee values).result? ≠ some name → s'.registers name = s.registers name :=
    fun name other => if_neg (fun same => other (congrArg some same.symm))
  have result : ∀ name, (Instr.call (f.fresh base) callee values).result? = some name → name = f.fresh base :=
    fun name yields => (Option.some.inj yields).symm
  have held : s'.Holds (.reg (f.fresh base) .i32) (.word w) := if_pos rfl
  refine ⟨s',.step here turn,?_,?_,held⟩
  · refine placed.emitted sound named base here rfl rfl registers (Nat.le_refl _) ?_ placed.same
    simp only [s',w,placed.trace]
  · exact Machine.keeps_emitted base result registers
/-- A comparison yields the bit that the branch of a loop goes by. -/
theorem compared_reaches (sound : f.Sound signatures root pending above) (named : fn.Named) {w : Word}
    (placed : Placed fn f pairs memory s) (holds : s.Holds value (.word w)) (carries : fn.Carries (f.compared value).function) :
    ∃ s', Machine.Reaches module fn world s s' ∧ Placed fn (f.compared value) pairs memory s' ∧ Keeps f s s' ∧
      s'.Holds f.comparison (.bit (w = 0)) := by
  have here : fn.At s.block s.index (.isZero (f.fresh (lit "iszero")) value) := placed.next sound carries rfl
  have turn : s.execute module fn world (.isZero (f.fresh (lit "iszero")) value) =
      some (.next (s.yield (f.fresh (lit "iszero")) (.bit (w = 0)))) := by
    simp [Machine.execute,holds.word?]
  obtain ⟨placed',keeps,held⟩ := placed.yield sound named here rfl (.bit (w = 0))
  exact ⟨_,.step here turn,placed',keeps,held⟩

/-! ### Cells -/

/-- A cell has its place before the code that uses it runs. -/
theorem allocated_holds (sound : f.Sound signatures root pending above) {name : Text} (placed : Placed fn f pairs memory s)
    (carries : fn.Carries (f.allocated name).function) :
    Placed fn (f.allocated name) pairs memory s ∧
      s.Holds (.reg (f.fresh name) .pointer) (.address f.arena.cells.length) ∧
      fn.At f.entry f.arena.cells.length (.alloca (f.fresh name)) := by
  obtain ⟨others,pointers,added⟩ := Frame.appended_allocated sound name
  have size : f.arena.cells.length = others.length := by simpa using congrArg List.length pointers
  have here : fn.At f.entry f.arena.cells.length (.alloca (f.fresh name)) :=
    carries.at (added.at_iff.mpr (.inr ⟨rfl,by simpa using size,rfl⟩)) rfl
  refine ⟨⟨placed.block,?_,placed.cells,placed.trace,placed.same⟩,(placed.cells _ _ here).1,here⟩
  intro instrs code
  exact placed.index instrs ((added.code_other sound.inside).symm.trans code)
/-- A store changes one place. -/
theorem store_reaches (memory' : Memory) (sound : f.Sound signatures root pending above) (named : fn.Named) {address : Value} {w : Word} {place : Nat}
    {more : List (Nat × Nat)} (placed : Placed fn f pairs memory s) (holds : s.Holds value (.word w))
    (points : s.Holds address (.address place)) (inside : place < s.memory.length)
    (carries : fn.Carries (f.emitted [] (.store value address)).function) (trace : memory'.trace = memory.trace)
    (same : ∀ pair ∈ more, ∃ x, memory'.cells[pair.1]? = some x ∧
      (if pair.2 = place then x = w else s.memory[pair.2]? = some (some x))) :
    ∃ s', Machine.Reaches module fn world s s' ∧ Placed fn (f.emitted [] (.store value address)) more memory' s' ∧
      s'.registers = s.registers := by
  let s' : Machine := { s.skip with memory := s.memory.set place (some w) }
  have here := placed.next sound carries rfl
  have turn : s.execute module fn world (.store value address) = some (.next s') := by
    simp [Machine.execute,holds.word?,points.address?,inside,s']
  have before : Placed fn f [] memory s := ⟨placed.block,placed.index,placed.cells,placed.trace,by simp⟩
  have after : Placed fn (f.emitted [] (.store value address)) [] memory' s' :=
    before.emitted sound named [] here rfl rfl (fun _ _ => rfl) (by simp [s']) (placed.trace.trans trace.symm) (by simp)
  refine ⟨s',.step here turn,⟨after.block,after.index,after.cells,after.trace,?_⟩,rfl⟩
  intro pair member
  obtain ⟨x,stored,there⟩ := same pair member
  refine ⟨x,stored,?_⟩
  by_cases hit : pair.2 = place
  · rw [if_pos hit] at there
    simp [s',hit,there,inside]
  · rw [if_neg hit] at there
    simp [s',Ne.symm hit,there]
/-- An assignment changes the cell and its place, and no other of either. -/
theorem write_simulates (sound : f.Sound signatures root pending above) (named : fn.Named) {name : Text} {address : Value}
    {w : Word} (assigned : env.assignable name = .ok address) (member : name ∈ mentioned)
    (carries : fn.Carries (f.emitted [] (.store value address)).function)
    (follows : Follows fn f pairs mentioned env names memory s) (holds : s.Holds value (.word w)) :
    Simulates module fn world bound s (Evaluation.write names name w memory) (fun _ memory' s' =>
      Follows fn (f.emitted [] (.store value address)) pairs mentioned env names memory' s' ∧ s'.registers = s.registers) := by
  unfold Environment.assignable Environment.resolve at assigned
  cases bound : env.lookup? name with
  | none =>
    rw [bound] at assigned
    cases assigned
  | some binding =>
    rw [bound] at assigned
    have stores : (if binding.isBoxed then Except.ok binding.value
      else Except.error (Fault.program (.immutableAssignment (.text name)))) = .ok address := assigned
    obtain ⟨slot,got,represents⟩ := follows.agrees name member binding bound
    cases slot with
    | word x =>
      rw [if_neg (by simp [represents.1])] at stores
      cases stores
    | cell number =>
      obtain ⟨boxed,place,points,paired⟩ := represents
      rw [if_pos boxed] at stores
      cases stores
      obtain ⟨_,stored,there⟩ := follows.placed.same _ paired
      have inCells : number < memory.cells.length := (List.getElem?_eq_some_iff.mp stored).1
      have written : Evaluation.write names name w memory = some ((),{ memory with cells := memory.cells.set number w }) := by
        simp [Evaluation.write,got,inCells]
      have same : ∀ pair ∈ pairs, ∃ x, (memory.cells.set number w)[pair.1]? = some x ∧
          (if pair.2 = place then x = w else s.memory[pair.2]? = some (some x)) := by
        intro pair inside
        obtain ⟨x,before,after⟩ := follows.placed.same pair inside
        have together := follows.pairing.injective pair inside (number,place) paired
        by_cases hit : pair.2 = place
        · exact ⟨w,by simp [together.mpr hit,inCells],by rw [if_pos hit]⟩
        · have other : pair.1 ≠ number := fun equal => hit (together.mp equal)
          exact ⟨x,by simp [Ne.symm other,before],by rw [if_neg hit]; exact after⟩
      rw [written]
      obtain ⟨s',reaches,placed,registers⟩ := store_reaches { memory with cells := memory.cells.set number w } sound
        named follows.placed holds points (List.getElem?_eq_some_iff.mp there).1 carries rfl same
      exact ⟨s',reaches,⟨placed,⟨follows.pairing.injective,follows.pairing.allocated⟩,
        follows.agrees.congr registers (fun _ paired => paired)⟩,registers⟩
/-- A new cell takes a place that no other cell has. -/
theorem make_reaches (sound : f.Sound signatures root pending above) (named : fn.Named) {pointer : Value} {place : Nat} {w : Word}
    (name : Text) (carries : fn.Carries (f.emitted [] (.store value pointer)).function)
    (follows : Follows fn f pairs mentioned env names memory s) (holds : s.Holds value (.word w))
    (points : s.Holds pointer (.address place)) (inside : place < s.memory.length)
    (new : ∀ pair ∈ pairs, pair.2 < place) (allocated : place < f.arena.cells.length) :
    ∃ s', Machine.Reaches module fn world s s' ∧
      Follows fn (f.emitted [] (.store value pointer)) ((memory.cells.length,place) :: pairs) mentioned
        (env.bind name pointer .boxed) (names.set name (.cell memory.cells.length)) { memory with cells := memory.cells ++ [w] } s' ∧
      s'.registers = s.registers := by
  have known : ∀ pair ∈ pairs, pair.1 < memory.cells.length := by
    intro pair member
    obtain ⟨_,stored,_⟩ := follows.placed.same pair member
    exact (List.getElem?_eq_some_iff.mp stored).1
  have same : ∀ pair ∈ (memory.cells.length,place) :: pairs, ∃ x, (memory.cells ++ [w])[pair.1]? = some x ∧
      (if pair.2 = place then x = w else s.memory[pair.2]? = some (some x)) := by
    intro pair member
    rcases List.mem_cons.mp member with rfl | old
    · exact ⟨w,by simp,by simp⟩
    · obtain ⟨x,stored,there⟩ := follows.placed.same pair old
      refine ⟨x,by rw [List.getElem?_append_left (known pair old)]; exact stored,?_⟩
      rw [if_neg (Nat.ne_of_lt (new pair old))]
      exact there
  obtain ⟨s',reaches,placed,registers⟩ := store_reaches { memory with cells := memory.cells ++ [w] } sound named follows.placed
    holds points inside carries rfl same
  refine ⟨s',reaches,⟨placed,⟨?_,?_⟩,?_⟩,registers⟩
  · intro pair member other member'
    rcases List.mem_cons.mp member with rfl | old <;> rcases List.mem_cons.mp member' with rfl | old'
    · simp
    · have := known other old'
      have := new other old'
      simp only
      omega
    · have := known pair old
      have := new pair old
      simp only
      omega
    · exact follows.pairing.injective pair old other old'
  · intro pair member
    rcases List.mem_cons.mp member with rfl | old
    · exact allocated
    · exact follows.pairing.allocated pair old
  · refine (follows.agrees.congr registers (fun _ => List.mem_cons_of_mem _)).bind ?_
    exact ⟨rfl,place,points.congr registers,List.mem_cons_self⟩

end

/-! ### Loops -/

section
variable {module : Module} {fn : Function} {world : World}
variable {signatures : Table Nat} {root : Text} {pending : List Text} {above above₀ : Text → List Text}
variable {f f' f₀ : Frame} {pairs : List (Nat × Nat)} {mentioned reads : List Text} {env after : Environment} {names : Names}
variable {memory : Memory} {s : Machine} {skip leave : Value} {header exit : Text} {points : List MergePoint} {log : List Text}

/-- A branch out of a loop, or past it. -/
theorem exit_reaches (placed : Placed fn f pairs memory s) (found : fn.At s.block s.index (.condBr leave exit header))
    (holds : s.Holds leave (.bit true)) (carries : fn.Carries f'.function) (code : f'.function.code? exit = some [])
    (block : f'.block = exit) (entry : f'.entry = f.entry) :
    ∃ s', Machine.Reaches module fn world s s' ∧ Placed fn f' pairs memory s' ∧ s'.registers = s.registers := by
  have turn : s.execute module fn world (.condBr leave exit header) = some (.next { s with block := exit, index := 0 }) := by
    simp [Machine.execute,holds.bit?,Machine.enter_plain carries code]
  refine ⟨_,.step found turn,⟨block.symm,?_,entry ▸ placed.cells,placed.trace,placed.same⟩,rfl⟩
  intro instrs found'
  rw [block,code] at found'
  cases found'
  rfl
/-- A branch to the header of a loop. -/
theorem header_step (module : Module) (world : World) (named : fn.Named)
    (opens : MergePoint.Opens signatures root pending above above₀ f₀ skip header exit env reads points f')
    (carries : fn.Carries f'.function) (placed : Placed fn f pairs memory s) (entry : f'.entry = f.entry)
    (found : fn.At s.block s.index (.condBr leave exit header)) (holds : s.Holds leave (.bit false))
    (selected : ∀ index phi, fn.At header index phi → phi.isPhi = true → ∃ entry, s.select? phi = some entry) :
    ∃ s', s.step module fn world = some (.next s') ∧ Placed fn f' pairs memory s' ∧
      (∀ index phi result datum, fn.At header index phi → s.select? phi = some (result,datum) → s'.registers result = some datum) ∧
      ∀ name, (∀ index phi, fn.At header index phi → phi.isPhi = true → phi.result? ≠ some name) →
        s'.registers name = s.registers name := by
  have leading : ∀ phi ∈ points.map (MergePoint.opening env), phi.isPhi = true := by
    intro phi member
    obtain ⟨point,_,rfl⟩ := List.mem_map.mp member
    rfl
  obtain ⟨registers,entered,chosen,others⟩ := Machine.enter_eq named carries opens.code leading selected
  let s' : Machine := { s with block := header, index := (points.map (MergePoint.opening env)).length, registers }
  have turn : s.execute module fn world (.condBr leave exit header) = some (.next s') := by
    simp [Machine.execute,holds.bit?,entered,s']
  refine ⟨s',(Machine.step_of_at found).trans turn,⟨opens.here.symm,?_,?_,placed.trace,placed.same⟩,chosen,others⟩
  · intro instrs code
    rw [opens.here,opens.code] at code
    cases code
    rfl
  · intro index name alloca
    rw [entry] at alloca
    obtain ⟨held,inside⟩ := placed.cells index name alloca
    refine ⟨(others name (fun position phi phiAt isPhi result => ?_)).trans held,inside⟩
    -- A phi is not the instruction that makes a cell.
    obtain ⟨rfl,rfl⟩ := named.resultOnce _ _ _ _ _ _ name phiAt alloca result rfl
    rw [phiAt.unique alloca] at isPhi
    cases isPhi
/-- The phis of a header that has been closed have an edge from the block before the loop and one from the latch. -/
theorem phi_shape (sound : f.Sound signatures root pending above)
    (looping : Frame.Looping above₀ above f₀ f skip header exit (points.map (MergePoint.opening env)))
    (carries : fn.Carries (f.looped after points leave header exit log).function) {index : Nat} {phi : Instr}
    (found : fn.At header index phi) (isPhi : phi.isPhi = true) :
    ∃ point ∈ points, ∃ more, phi =
      .phi point.phi point.type ((point.initial env,point.preheader) :: (point.carried after,f.block) :: more) := by
  obtain ⟨instrs,code,_⟩ := sound.current
  have added : Function.Appended _ (f.looped after points leave header exit log).function _ _ _ := Frame.appended_looped code log
  have patched := MergePoint.patched_latchAll after f.block points f.function
  obtain ⟨rest,headed,_⟩ := looping.code
  have label : header ∈ (f.looped after points leave header exit log).function.labels := by
    rw [added.labels,patched.labels]
    exact Function.mem_labels_iff.mpr ⟨_,headed⟩
  obtain ⟨closed,closedCode⟩ := Function.mem_labels_iff.mp label
  have less : index < closed.length := by
    by_contra long
    rw [carries.rest header closed closedCode index phi (Nat.not_lt.mp long) found] at isPhi
    cases isPhi
  obtain ⟨later,placed,grows⟩ := carries.places header index closed[index] ⟨closed,closedCode,List.getElem?_eq_getElem less⟩
  cases placed.unique found
  have wasPhi : closed[index].isPhi = true := grows.isPhi.symm.trans isPhi
  rcases added.at_iff.mp ⟨closed,closedCode,List.getElem?_eq_getElem less⟩ with before | ⟨_,_,last⟩
  · obtain ⟨instr,opened,shape⟩ := patched.at_iff.mp before
    have isOpening : instr.isPhi = true := by
      rw [← (MergePoint.grows_latchInstr after f.block points instr).isPhi,← shape]
      exact wasPhi
    obtain ⟨point,member,rfl⟩ := looping.phi_mem opened isOpening
    rw [MergePoint.opening,MergePoint.latchInstr_phi after f.block (looping.phis_nodup sound.named) member] at shape
    rw [shape] at grows
    rcases grows with rfl | ⟨_,_,_,more,same,rfl⟩
    · exact ⟨point,member,[],rfl⟩
    · cases same
      exact ⟨point,member,more,rfl⟩
  · rw [last] at wasPhi
    cases wasPhi
/-- The branch before a loop. -/
theorem branch_at (looping : Frame.Looping above₀ above f₀ f skip header exit (points.map (MergePoint.opening env)))
    (carries : fn.Carries f.function) (placed : Placed fn f₀ pairs memory s) :
    fn.At s.block s.index (.condBr skip exit header) := by
  obtain ⟨instrs,code,branched⟩ := looping.branch
  rw [placed.block,placed.index instrs code]
  exact carries.at ⟨_,branched,by simp⟩ rfl
/-- The phi of a merge point, and which phis there are, before the header is closed. -/
theorem opening_at (opens : MergePoint.Opens signatures root pending above above₀ f₀ skip header exit env reads points f')
    (carries : fn.Carries f'.function) {point : MergePoint} (member : point ∈ points) :
    ∃ index more, fn.At header index (.phi point.phi point.type ((point.initial env,f₀.block) :: more)) := by
  obtain ⟨index,opened⟩ := Function.At.of_mem opens.code (List.mem_map_of_mem member)
  obtain ⟨later,placed,grows⟩ := carries.places header index _ opened
  obtain ⟨binding,stands⟩ := opens.bindings point member
  rw [MergePoint.opening,stands.preheader] at grows
  rcases grows with rfl | ⟨_,_,_,more,same,rfl⟩
  · exact ⟨index,[],placed⟩
  · cases same
    exact ⟨index,more,placed⟩
theorem opening_of_at (opens : MergePoint.Opens signatures root pending above above₀ f₀ skip header exit env reads points f')
    (carries : fn.Carries f'.function) {index : Nat} {phi : Instr} (found : fn.At header index phi) (isPhi : phi.isPhi = true) :
    ∃ point ∈ points, ∃ more, phi = .phi point.phi point.type ((point.initial env,f₀.block) :: more) := by
  have less : index < (points.map (MergePoint.opening env)).length := by
    by_contra long
    rw [carries.rest header _ opens.code index phi (Nat.not_lt.mp long) found] at isPhi
    cases isPhi
  obtain ⟨later,placed,grows⟩ := carries.places header index _ ⟨_,opens.code,List.getElem?_eq_getElem less⟩
  cases placed.unique found
  rw [List.length_map] at less
  obtain ⟨binding,stands⟩ := opens.bindings _ (List.getElem_mem less)
  rw [List.getElem_map,MergePoint.opening,stands.preheader] at grows
  rcases grows with rfl | ⟨_,_,_,more,same,rfl⟩
  · exact ⟨_,List.getElem_mem less,[],rfl⟩
  · cases same
    exact ⟨_,List.getElem_mem less,more,rfl⟩
/-- Into a loop: the names that it merges stand for phis, which have the values from before the loop. -/
theorem enter_step {waiting : List Text} (named : fn.Named) (sound : f₀.Sound signatures root waiting above₀)
    (binds : f₀.Binds above₀ env) (opens : MergePoint.Opens signatures root pending above above₀ f₀ skip header exit env reads points f')
    (distinct : (points.map MergePoint.name).Nodup) (read : ∀ point ∈ points, point.name ∈ mentioned)
    (carries : fn.Carries f'.function) (follows : Follows fn f₀ pairs mentioned env names memory s) (holds : s.Holds skip (.bit false)) :
    ∃ s', s.step module fn world = some (.next s') ∧
      Follows fn f' pairs mentioned (MergePoint.bindAll env points) names memory s' ∧ Keeps f₀ s s' := by
  have advance := opens.looping.advance
  have found := branch_at opens.looping carries follows.placed
  have selects : ∀ (point : MergePoint) more datum, s.Holds (point.initial env) datum →
      s.select? (.phi point.phi point.type ((point.initial env,f₀.block) :: more)) = some (point.phi,datum) := by
    intro point more datum held
    simp [Machine.select?,follows.placed.block,held.value?]
  -- A merge point starts with what its name stands for.
  have represented : ∀ point ∈ points, ∃ binding slot, point.StandsFor env f₀.block binding ∧ point.initial env = binding.value ∧
      names.get? point.name = some slot ∧ s.Represents pairs binding slot := by
    intro point member
    obtain ⟨binding,stands⟩ := opens.bindings point member
    obtain ⟨slot,bound,represents⟩ := follows.agrees point.name (read point member) binding stands.bound
    exact ⟨binding,slot,stands,by rw [MergePoint.initial,stands.bound],bound,represents⟩
  obtain ⟨s',turn,placed,chosen,others⟩ := header_step module world named opens carries follows.placed advance.entry found holds (by
    intro index phi placed isPhi
    obtain ⟨point,member,more,rfl⟩ := opening_of_at opens carries placed isPhi
    obtain ⟨binding,slot,_,initial,_,represents⟩ := represented point member
    obtain ⟨datum,held⟩ := represents.holds
    exact ⟨_,selects point more datum (initial ▸ held)⟩)
  have keeps : Keeps f₀ s s' := by
    intro name used
    refine others name (fun index phi placed isPhi result => ?_)
    obtain ⟨point,member,more,rfl⟩ := opening_of_at opens carries placed isPhi
    cases result
    exact opens.fresh point member used
  refine ⟨s',turn,⟨placed,follows.pairing.advance advance,?_⟩,keeps⟩
  intro name member binding bound
  by_cases listed : name ∈ points.map MergePoint.name
  · obtain ⟨point,inside,rfl⟩ := List.mem_map.mp listed
    rw [MergePoint.lookup?_bindAll_of_mem env distinct inside] at bound
    cases bound
    obtain ⟨before,slot,stands,initial,got,represents⟩ := represented point inside
    refine ⟨slot,got,represents.transfer (by simp [Binding.isBoxed,stands.levity]) (fun datum held => ?_)⟩
    obtain ⟨index,more,phiAt⟩ := opening_at opens carries inside
    exact chosen index _ point.phi datum phiAt (selects point more datum (initial ▸ held))
  · rw [MergePoint.lookup?_bindAll_of_not_mem env listed] at bound
    exact follows.agrees.keep sound binds keeps name member binding bound
/-- The branch at the end of a loop. -/
theorem latch_at (sound : f.Sound signatures root pending above) (placed : Placed fn f pairs memory s)
    (carries : fn.Carries (f.looped after points leave header exit log).function) :
    fn.At s.block s.index (.condBr leave exit header) := by
  obtain ⟨instrs,code,_⟩ := sound.current
  rw [placed.block,placed.index instrs code]
  exact carries.at ((Frame.appended_looped code log).at_iff.mpr (.inr ⟨rfl,(List.length_map _).symm,rfl⟩)) rfl
/-- Round a loop: if the latch carries the phis' own values, the registers stay as they are. -/
theorem again_step {waiting : List Text} {above' : Text → List Text} (named : fn.Named)
    (sound : f.Sound signatures root waiting above')
    (looping : Frame.Looping above₀ above' f₀ f skip header exit (points.map (MergePoint.opening env)))
    (opens : MergePoint.Opens signatures root pending above above₀ f₀ skip header exit env reads points f')
    (distinct : (points.map MergePoint.name).Nodup) (read : ∀ point ∈ points, point.name ∈ mentioned)
    (carried : ∀ point ∈ points, point.carried after = point.value)
    (carries : fn.Carries (f.looped after points leave header exit log).function) (carriesHeader : fn.Carries f'.function)
    (placed : Placed fn f pairs memory s) (agrees : s.Agrees pairs mentioned (MergePoint.bindAll env points) names)
    (holds : s.Holds leave (.bit false)) :
    ∃ s', s.step module fn world = some (.next s') ∧ Placed fn f' pairs memory s' ∧ s'.registers = s.registers := by
  have entry : f'.entry = f.entry := opens.looping.advance.entry.trans looping.advance.entry.symm
  have apart : f₀.block ≠ f.block := fun same => looping.moved (same ▸ looping.outside.1)
  -- Each phi takes what it holds already.
  have selects : ∀ index phi, fn.At header index phi → phi.isPhi = true →
      ∃ result datum, s.select? phi = some (result,datum) ∧ s.registers result = some datum := by
    intro index phi found isPhi
    obtain ⟨point,member,more,rfl⟩ := phi_shape sound looping carries found isPhi
    obtain ⟨binding,stands⟩ := opens.bindings point member
    obtain ⟨slot,_,represents⟩ := agrees point.name (read point member) _ (MergePoint.lookup?_bindAll_of_mem env distinct member)
    obtain ⟨datum,held⟩ := represents.holds
    refine ⟨point.phi,datum,?_,held⟩
    have value : s.value? point.value = some datum := held.value?
    simp [Machine.select?,placed.block,stands.preheader,apart,carried point member,value]
  obtain ⟨s',turn,placed',chosen,others⟩ :=
    header_step module world named opens carriesHeader placed entry (latch_at sound placed carries) holds (by
      intro index phi found isPhi
      obtain ⟨result,datum,selected,_⟩ := selects index phi found isPhi
      exact ⟨_,selected⟩)
  refine ⟨s',turn,placed',funext (fun name => ?_)⟩
  by_cases isPhi : ∃ index phi, fn.At header index phi ∧ phi.isPhi = true ∧ phi.result? = some name
  · obtain ⟨index,phi,found,isPhi,result⟩ := isPhi
    obtain ⟨other,datum,selected,held⟩ := selects index phi found isPhi
    cases result.symm.trans (Machine.select?_result selected)
    exact (chosen index phi name datum found selected).trans held.symm
  · exact others name (fun index phi found isPhi' result => isPhi ⟨index,phi,found,isPhi',result⟩)

end

end Lev
