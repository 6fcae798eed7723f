import Lev.Proofs.Moments
import Lev.Proofs.Moves

/-!
The cells of a function. Lowering makes a cell for each mutable binding that it comes to, and comes to the condition
of a loop twice. Main statement: the first block of the entry function makes the cells and nothing else, no other block
makes any, and their names are those of the mutable bindings of the program in the order of lowering; so however often
its loops go round, a run has the same cells.
-/
namespace Lev

/-! ### The cells of a program -/

mutual

/-- The names of the cells that lowering an expression makes, one after the other. -/
def Expr.cells : Expr → List Text
  | .literal _ => []
  | .var _ => []
  | .binary left _ right => left.cells ++ right.cells
  | .call _ args => args.cells
  | .scope body => body.cells
  | .loop cond body => cond.cells ++ (body.cells ++ cond.cells)

def Args.cells : Args → List Text
  | .nil => []
  | .cons first rest => first.cells ++ rest.cells

def Stmt.cells : Stmt → List Text
  | .discard value => value.cells
  | .bindConst _ value => value.cells
  | .bindMut name value => name :: value.cells
  | .assign _ value => value.cells

def Block.cells : Block → List Text
  | .result value => value.cells
  | .step first rest => first.cells ++ rest.cells

end

def Program.cells : Program → List Text
  | .expr e => e.cells
  | .block b => b.cells

/-! ### Blocks without cells -/

/-- Only the block of the label makes cells. -/
def Function.Hoisted (fn : Function) (place : Text) : Prop :=
  ∀ block ∈ fn.blocks, block.label ≠ place → ∀ instr ∈ block.instrs, instr.isAlloca = false

theorem Function.hoisted_iff {fn : Function} {place : Text} :
    fn.Hoisted place ↔ fn.Each fun label instr => label ≠ place → instr.isAlloca = false :=
  ⟨fun hoisted block member instr inside other => hoisted block member other instr inside,
    fun each block member other instr inside => each block member instr inside other⟩

namespace Function.Hoisted
variable {fn : Function} {place : Text}

theorem append (hoisted : fn.Hoisted place) (label : Text) {instr : Instr} (plain : instr.isAlloca = false) :
    (fn.append label instr).Hoisted place :=
  hoisted_iff.mpr ((hoisted_iff.mp hoisted).append fun _ => plain)
theorem insert (hoisted : fn.Hoisted place) {cursor : Cursor} (here : cursor.block = place) (instr : Instr) :
    (fn.insert cursor instr).1.Hoisted place :=
  hoisted_iff.mpr ((hoisted_iff.mp hoisted).insert fun other => absurd here other)
theorem addBlock (hoisted : fn.Hoisted place) (base : Text) : (fn.addBlock base).2.Hoisted place :=
  hoisted_iff.mpr ((hoisted_iff.mp hoisted).addBlock base)
theorem addIncoming (hoisted : fn.Hoisted place) (phi : Text) (edge : Value × Text) : (fn.addIncoming phi edge).Hoisted place := by
  refine hoisted_iff.mpr ((hoisted_iff.mp hoisted).addIncoming fun label instr plain other => ?_)
  cases instr with
  | alloca => exact plain other
  | _ => rfl

end Function.Hoisted

/-! ### What lowering makes -/

/-- The cells are numbered one after the other. -/
def Arena.Numbered (arena : Arena) : Prop := arena.cells.map Cell.index = List.range arena.cells.length

theorem Arena.Numbered.index_eq {arena : Arena} (numbered : arena.Numbered) {k : Nat} {cell : Cell}
    (here : arena.cells[k]? = some cell) : cell.index = k := by
  have short : k < arena.cells.length := (List.getElem?_eq_some_iff.mp here).1
  have same : (arena.cells.map Cell.index)[k]? = some k := by rw [numbered,List.getElem?_range short]
  rw [List.getElem?_map,here] at same
  exact Option.some.inj same

/-- The second frame has cells of these names more than the first, numbered as they are made, and all made in one place. -/
structure Frame.Allots (f : Frame) (names : List Text) (f' : Frame) : Prop where
  names : f'.arena.cells.map Cell.name = f.arena.cells.map Cell.name ++ names
  numbered : f.arena.Numbered → f'.arena.Numbered
  place : f'.arena.cursor.block = f.arena.cursor.block
  hoisted : f.function.Hoisted f.arena.cursor.block → f'.function.Hoisted f.arena.cursor.block

theorem Frame.Allots.trans {f f' f'' : Frame} {names more : List Text} (first : f.Allots names f') (second : f'.Allots more f'') :
    f.Allots (names ++ more) f'' where
  names := by rw [second.names,first.names,List.append_assoc]
  numbered start := second.numbered (first.numbered start)
  place := second.place.trans first.place
  hoisted start := first.place ▸ second.hoisted (first.place ▸ first.hoisted start)

namespace Build
variable {α β : Type}

/-- If it succeeds, the step makes cells of these names. -/
def Allots (step : Build α) (names : List Text) : Prop := ∀ f a f', step f = (.ok a,f') → f.Allots names f'

namespace Allots
variable {step : Build α} {next : α → Build β} {names more : List Text}

theorem bind (first : Allots step names) (rest : ∀ a, Allots (next a) more) : Allots (step >>= next) (names ++ more) := by
  intro f b f' run
  obtain ⟨a,f₁,ran,later⟩ := Attempt.bind_eq_ok.mp run
  exact (first f a f₁ ran).trans (rest a f₁ b f' later)
/-- The cells of the second step only. -/
theorem after (first : Allots step []) (rest : ∀ a, Allots (next a) names) : Allots (step >>= next) names := first.bind rest
/-- The cells of the first step only. -/
theorem before (first : Allots step names) (rest : ∀ a, Allots (next a) []) : Allots (step >>= next) names :=
  List.append_nil names ▸ first.bind rest
/-- A step that changes neither the blocks nor the cells. -/
theorem still (same : ∀ f, (step f).2.function.blocks = f.function.blocks ∧ (step f).2.arena = f.arena) : Allots step [] := by
  intro f a f' run
  obtain ⟨blocks,arena⟩ := same f
  rw [run] at blocks arena
  refine ⟨by rw [arena,List.append_nil],arena ▸ id,by rw [arena],fun hoisted block member => ?_⟩
  exact hoisted block (blocks ▸ member)
theorem pure (a : α) : Allots (Pure.pure a : Build α) [] := still fun _ => ⟨rfl,rfl⟩
theorem fail (fault : Fault) : Allots (Attempt.fail fault : Build α) names := by
  intro f a f' run
  cases run
theorem emit {instr : Instr} (plain : instr.isAlloca = false) : Allots (Build.emit instr) [] := by
  intro f a f' run
  cases run
  exact ⟨(List.append_nil _).symm,id,rfl,fun hoisted => hoisted.append f.block plain⟩
theorem emitUnnamed {instr : Instr} (plain : instr.isAlloca = false) : Allots (Build.emitUnnamed instr) [] :=
  after (still fun _ => ⟨rfl,rfl⟩) fun _ => emit plain
theorem emitNamed {base : Text} {instr : Text → Instr} (plain : ∀ result, (instr result).isAlloca = false) :
    Allots (Build.emitNamed base instr) [] :=
  after (still fun _ => ⟨rfl,rfl⟩) fun result => after (emit (plain result)) fun _ => pure _
theorem isZero (value : Value) : Allots (Build.isZero value) [] :=
  after (still fun _ => ⟨rfl,rfl⟩) fun _ => after (emit rfl) fun _ => pure _
theorem addBlock (base : Text) : Allots (Build.addBlock base) [] := by
  intro f a f' run
  cases run
  exact ⟨(List.append_nil _).symm,id,rfl,fun hoisted => hoisted.addBlock base⟩
theorem terminate {instr : Instr} (plain : instr.isAlloca = false) : Allots (Build.terminate instr) [] := by
  refine after (still fun _ => ⟨rfl,rfl⟩) fun _ => after (still fun _ => ⟨rfl,rfl⟩) fun ended => ?_
  cases ended with
  | false => exact emit plain
  | true => exact fail _
theorem identifier (name : Text) : Allots (Build.identifier name) [] := by
  unfold Build.identifier
  split
  · exact fail _
  · exact pure name
theorem allocate (name : Text) : Allots (Build.allocate name) [name] := by
  intro f a f' run
  cases run
  refine ⟨List.map_append,fun numbered => ?_,rfl,fun hoisted => ?_⟩
  · have more : (f.arena.cells.map Cell.index) ++ [f.arena.cells.length] = List.range (f.arena.cells.length + 1) := by
      rw [numbered,List.range_succ]
    simpa [Arena.Numbered,Arena.allocate] using more
  have registered : (f.function.register name).2.Hoisted f.arena.cursor.block := hoisted
  exact registered.insert rfl _
theorem readVariable (env : Environment) (name : Text) : Allots (Build.readVariable env name) [] := by
  refine after (still fun _ => ⟨rfl,rfl⟩) fun binding => ?_
  split
  · exact emitNamed fun _ => rfl
  · exact pure binding.value
theorem arith (op : Operator) (left right : Value) : Allots (Build.arith op left right) [] := by
  unfold Build.arith
  split
  · exact pure _
  · exact emitNamed fun _ => rfl
theorem openAll (env : Environment) (preheader : Text) (names : List Text) : Allots (MergePoint.openAll env preheader names) [] := by
  induction names with
  | nil => exact pure []
  | cons name rest ih =>
    unfold MergePoint.openAll
    split
    · exact ih
    · refine after (identifier name) fun base => after (still fun _ => ⟨rfl,rfl⟩) fun phi => after (emit rfl) fun _ => ?_
      exact after ih fun points => pure _
theorem openFor (reads : List Text) (env : Environment) (preheader : Text) : Allots (MergePoint.openFor reads env preheader) [] := by
  refine after (openAll env preheader _) fun points => ?_
  split
  · exact pure points
  · exact still fun _ => ⟨rfl,rfl⟩
theorem closeAll (env : Environment) (latch : Text) (points : List MergePoint) : Allots (MergePoint.closeAll env latch points) [] := by
  induction points with
  | nil => exact pure []
  | cons point rest ih =>
    intro f closed f' run
    unfold MergePoint.closeAll MergePoint.close at run
    rw [Attempt.bind_run_ok (Attempt.read_run Frame.function f)] at run
    cases latched : point.latch with
    | some block =>
      rw [latched] at run
      cases run
    | none =>
      rw [latched] at run
      -- The edge of the phi is added to the code only.
      have edge : f.Allots [] { f with function := f.function.addIncoming point.phi (point.carried env,latch) } :=
        ⟨(List.append_nil _).symm,id,rfl,fun hoisted => hoisted.addIncoming _ _⟩
      have later : Allots (do
          Build.note (lit "lowering.loops: Patched merge point " ++ point.name ++ lit " from " ++ latch)
          let points ← MergePoint.closeAll env latch rest
          Pure.pure ({ point with latch := some latch } :: points)) [] :=
        after (still fun _ => ⟨rfl,rfl⟩) fun _ => before ih fun _ => pure _
      exact edge.trans (later _ _ _ run)

end Allots

end Build

open Build (Allots)

mutual

/-- Lowering an expression makes its cells. -/
theorem Expr.lower_allots (signatures : Table Nat) (e : Expr) (env : Environment) : Allots (e.lower signatures env) e.cells := by
  match e with
  | .literal n => exact .pure _
  | .var name => exact .readVariable env name
  | .binary left op right =>
    exact (left.lower_allots signatures env).bind fun a => (right.lower_allots signatures env).before fun b => .arith op a b
  | .call callee args =>
    refine .after (.still fun _ => ⟨rfl,rfl⟩) fun _ => (args.lower_allots signatures env).before fun values => ?_
    exact .after (.identifier callee) fun name => .emitNamed fun _ => rfl
  | .scope body => exact (body.lower_allots signatures env).before fun result => .pure result.1
  | .loop cond body =>
    refine (cond.lower_allots signatures env).bind fun first => .after (.isZero first) fun skip => ?_
    refine .after (.addBlock _) fun header => .after (.addBlock _) fun exit => .after (.still fun _ => ⟨rfl,rfl⟩) fun preheader => ?_
    refine .after (.terminate rfl) fun _ => .after (.still fun _ => ⟨rfl,rfl⟩) fun _ => .after (.openFor _ env preheader) fun points => ?_
    refine (body.lower_allots signatures _).bind fun result => (cond.lower_allots signatures result.2).before fun again => ?_
    refine .after (.isZero again) fun leave => .after (.still fun _ => ⟨rfl,rfl⟩) fun latch => ?_
    refine .after (.closeAll result.2 latch points) fun closed => .after (.terminate rfl) fun _ => ?_
    exact .still fun _ => ⟨rfl,rfl⟩

theorem Args.lower_allots (signatures : Table Nat) (args : Args) (env : Environment) : Allots (args.lower signatures env) args.cells := by
  match args with
  | .nil => exact .pure []
  | .cons first rest =>
    exact (first.lower_allots signatures env).bind fun value => (rest.lower_allots signatures env).before fun values => .pure _

theorem Stmt.lower_allots (signatures : Table Nat) (s : Stmt) (env : Environment) : Allots (s.lower signatures env) s.cells := by
  match s with
  | .discard value => exact (value.lower_allots signatures env).before fun _ => .pure env
  | .bindConst name value =>
    refine (value.lower_allots signatures env).before fun bound => ?_
    cases bound with
    | const n => exact .pure _
    | reg result type => exact .fail _
  | .bindMut name value =>
    intro f env' f' run
    simp only [Stmt.lower] at run
    obtain ⟨base,_,ranName,later⟩ := Attempt.bind_eq_ok.mp run
    obtain ⟨rfl,rfl,_⟩ := Build.identifier_eq_ok ranName
    refine (Allots.allocate _).bind (fun cell => ?_) _ _ _ later
    exact (value.lower_allots signatures env).before fun bound => .after (.emitUnnamed rfl) fun _ => .pure _
  | .assign name value =>
    refine .after (.still fun _ => ⟨rfl,rfl⟩) fun address => (value.lower_allots signatures env).before fun stored => ?_
    exact .after (.emitUnnamed rfl) fun _ => .pure _

theorem Block.lower_allots (signatures : Table Nat) (b : Block) (env : Environment) : Allots (b.lower signatures env) b.cells := by
  match b with
  | .result value => exact (value.lower_allots signatures env).before fun result => .pure _
  | .step first rest => exact (first.lower_allots signatures env).bind fun after => rest.lower_allots signatures after

end

theorem Program.lower_allots (program : Program) (signatures : Table Nat) (env : Environment) :
    Allots (program.subject.lowerProgram signatures env) program.cells := by
  cases program with
  | expr e => exact e.lower_allots signatures env
  | block b => exact (b.lower_allots signatures env).before fun result => .pure result.1

/-! ### The cells of a module -/

theorem Frame.hoisted_finished {f : Frame} (hoisted : f.function.Hoisted f.arena.cursor.block) (value : Value) (root : Text) :
    (f.finished value root).function.Hoisted f.arena.cursor.block := by
  have registered : (f.function.register []).2.Hoisted f.arena.cursor.block := hoisted
  have returned : ((f.emitted [] (.ret value)).function.register []).2.Hoisted f.arena.cursor.block := registered.append f.block rfl
  exact returned.insert rfl (.br root)
/-- A cell is found at its place. -/
theorem Arena.get_eq_ok {arena : Arena} {k : Nat} {cell : Cell} (here : arena.cells[k]? = some cell) : arena.get k = .ok cell := by
  have short : k < arena.cells.length := (List.getElem?_eq_some_iff.mp here).1
  have place : arena.index? k = some k := by
    have positive : ¬ (k : Int) < 0 := by omega
    have inside : 0 ≤ (k : Int) ∧ (k : Int) < arena.cells.length := by omega
    simp only [Arena.index?,Int.ofNat_eq_natCast,if_neg positive,if_pos inside,Int.toNat_natCast]
  rw [Arena.get,place]
  simp only [here]
/-- The cells of a module that is built are those that its program foretells, and they are made in the first block only, which
    no other leads to. -/
theorem Draft.cells_foretold {program : Program} {options : Options} {draft : Draft}
    (built : Draft.build program.subject (.new options) = (.ok (),draft)) :
    ∃ fn arena block, draft.entryFunction? = some fn ∧ draft.filling = some ⟨arena,block⟩ ∧ fn.Named ∧
      arena.cells.map Cell.name = program.cells ∧ arena.Numbered ∧ fn.Hoisted (lit "entry") ∧ fn.labels.head? = some (lit "entry") ∧
      ∀ source, ¬ fn.Edge source (lit "entry") := by
  obtain ⟨before,others,value,f,_,lowered,gives,holds,_,_,filling⟩ := Draft.build_filled built
  have wellFormed := Draft.finished_wellFormed gives
  obtain ⟨above,sound,advance,_⟩ := gives
  have allots := program.lower_allots before.signatures .empty _ _ _ lowered
  have place : f.arena.cursor.block = lit "entry" := allots.place
  have declared : (Function.declare options.entryName 0).Hoisted (lit "entry") := by
    intro block member
    rw [Function.declare_blocks] at member
    cases member
  have start : (Draft.start options before).function.Hoisted (lit "entry") :=
    (declared.addBlock (lit "entry")).addBlock (lit "start")
  have hoisted : f.function.Hoisted f.arena.cursor.block := place ▸ allots.hoisted start
  have names : f.arena.cells.map Cell.name = program.cells := allots.names
  exact ⟨_,_,_,holds.entryFunction?,filling,sound.named_finished value,names,allots.numbered rfl,place ▸ Frame.hoisted_finished hoisted value _,
    wellFormed.first,wellFormed.unentered⟩

/-! ### Runs -/

/-- In the first block the machine has made one cell for each instruction that it has passed, and all of them elsewhere. -/
structure Machine.Counted (entry : Text) (count : Nat) (s : Machine) : Prop where
  inside : s.block = entry → s.memory.length = s.index ∧ s.index ≤ count
  outside : s.block ≠ entry → s.memory.length = count

section
variable {fn : Function} {entry root : Text} {names : List Text} {module : Module} {world : World} {s s' : Machine}

/-- What stands in a block that makes cells and then goes on. -/
theorem Function.At.alloca_or_last (code : fn.code? entry = some (names.map .alloca ++ [.br root])) {index : Nat} {instr : Instr}
    (found : fn.At entry index instr) :
    (index < names.length ∧ instr.isAlloca = true ∧ instr.targets = []) ∨ index = names.length ∧ instr = .br root := by
  obtain ⟨instrs,same,here⟩ := found
  cases code.symm.trans same
  by_cases less : index < names.length
  · rw [List.getElem?_append_left (by simpa using less),List.getElem?_map,List.getElem?_eq_getElem less] at here
    cases here
    exact .inl ⟨less,rfl,rfl⟩
  · rw [List.getElem?_append_right (by simpa using less),List.length_map] at here
    obtain ⟨short,last⟩ := List.getElem?_eq_some_iff.mp here
    rw [List.length_singleton] at short
    exact .inr ⟨by omega,by simpa using last.symm⟩
theorem Machine.Moves.counted (moves : s.Moves fn s') (named : fn.Named)
    (code : fn.code? entry = some (names.map .alloca ++ [.br root])) (hoisted : fn.Hoisted entry)
    (unentered : ∀ source, ¬ fn.Edge source entry) (counted : s.Counted entry names.length) : s'.Counted entry names.length := by
  cases moves with
  | enters instr target found edge entered =>
    obtain ⟨_,_,block,_,memory,_⟩ := Machine.enter_sets entered
    have other : target ≠ entry := fun same => unentered s.block ⟨_,_,found,same ▸ edge⟩
    refine ⟨fun here => absurd (block.symm.trans here) other,fun _ => ?_⟩
    rw [memory]
    by_cases here : s.block = entry
    · rw [here] at found
      rcases found.alloca_or_last code with ⟨_,_,none⟩ | ⟨last,_⟩
      · rw [none] at edge
        cases edge
      · rw [(counted.inside here).1,last]
    · exact counted.outside here
  | passes instr found _ inner block index _ size =>
    refine ⟨fun here => ?_,fun other => ?_⟩
    · rw [block] at here
      rw [here] at found
      rcases found.alloca_or_last code with ⟨less,alloca,_⟩ | ⟨_,rfl⟩
      · rw [size,index,alloca,(counted.inside here).1]
        exact ⟨rfl,less⟩
      · cases inner
    · rw [block] at other
      obtain ⟨instrs,here,inside⟩ := found
      have listed : (⟨s.block,instrs⟩ : BasicBlock) ∈ fn.blocks := (Function.mem_blocks_iff named.labels).mpr here
      rw [size,hoisted _ listed other instr (List.mem_of_getElem? inside),counted.outside other]
      rfl
theorem Machine.Reaches.counted (reaches : Machine.Reaches module fn world s s') (named : fn.Named)
    (code : fn.code? entry = some (names.map .alloca ++ [.br root])) (hoisted : fn.Hoisted entry)
    (unentered : ∀ source, ¬ fn.Edge source entry) (counted : s.Counted entry names.length) : s'.Counted entry names.length := by
  induction reaches with
  | refl => exact counted
  | tail _ turn ih => exact (Machine.moves_of_step turn).counted named code hoisted unentered ih
theorem Machine.Counted.start (entry : Text) (count : Nat) : (Machine.start entry).Counted entry count :=
  ⟨fun _ => ⟨rfl,Nat.zero_le count⟩,fun other => absurd rfl other⟩
theorem Machine.Counted.le {count : Nat} (counted : s.Counted entry count) : s.memory.length ≤ count := by
  by_cases here : s.block = entry
  · obtain ⟨size,le⟩ := counted.inside here
    exact size ▸ le
  · exact Nat.le_of_eq (counted.outside here)

end

/-- The first block of the entry function of a module that is built makes the cells of the arena one after the other and goes on to
    the program; no other block makes cells; each cell is found under the number that it has; their names are those that the program
    foretells; and a run has made all of them when it leaves the first block and makes no more. -/
theorem cells_hoisted_and_counted (program : Program) (options : Options) (draft : Draft)
    (built : Draft.build program.subject (.new options) = (.ok (),draft)) :
    ∃ fn arena block, ∃ names : List Text, draft.entryFunction? = some fn ∧ draft.filling = some ⟨arena,block⟩ ∧
      fn.labels.head? = some (lit "entry") ∧ fn.code? (lit "entry") = some (names.map .alloca ++ [.br (lit "start")]) ∧
      (∀ other ∈ fn.blocks, other.label ≠ lit "entry" → ∀ instr ∈ other.instrs, instr.isAlloca = false) ∧
      arena.cells.map Cell.pointer = names.map (Value.reg · .pointer) ∧
      (∀ (k : Nat) cell, arena.cells[k]? = some cell → arena.get k = .ok cell ∧ cell.index = k) ∧
      arena.cells.map Cell.name = program.cells ∧
      ∀ module world s, Machine.Reaches module fn world (.start (lit "entry")) s →
        s.memory.length ≤ program.cells.length ∧ (s.block ≠ lit "entry" → s.memory.length = program.cells.length) := by
  obtain ⟨fn,arena,block,found,filling,named,cells,numbered,hoisted,first,unentered⟩ := Draft.cells_foretold built
  obtain ⟨_,_,_,names,found',filling',code,pointers⟩ := Draft.entry_code built
  cases found.symm.trans found'
  cases filling.symm.trans filling'
  have count : program.cells.length = names.length := by
    have same := congrArg List.length pointers
    rw [← cells]
    simpa using same
  refine ⟨fn,arena,block,names,found,filling,first,code,hoisted,pointers,fun k cell here => ?_,cells,fun module world s reaches => ?_⟩
  · exact ⟨Arena.get_eq_ok here,numbered.index_eq here⟩
  · have counted := reaches.counted named code hoisted unentered (.start _ _)
    rw [count]
    exact ⟨counted.le,counted.outside⟩

/-- A loop with a mutable binding in its condition and one in its body, which go out of use in each round. -/
def renewing : Program :=
  .block (.step (.bindMut (lit "n") (.literal 3))
    (.step (.discard (.loop (.scope (.step (.bindMut (lit "m") (.var (lit "n"))) (.result (.var (lit "m")))))
      (.step (.bindMut (lit "k") (.var (lit "n")))
        (.step (.assign (lit "n") (.binary (.var (lit "k")) .sub (.literal 1))) (.result (.literal 0))))))
    (.result (.var (lit "n")))))
/-- The condition has its cell twice, and no run has more than these four cells. -/
theorem cells_hoisted_and_counted_renewing :
    (Draft.build renewing.subject (.new {})).1 = .ok () ∧
    ∃ fn arena block, (Draft.build renewing.subject (.new {})).2.entryFunction? = some fn ∧
      (Draft.build renewing.subject (.new {})).2.filling = some ⟨arena,block⟩ ∧
      arena.cells.map Cell.name = [lit "n",lit "m",lit "k",lit "m"] ∧
      ∀ module world s, Machine.Reaches module fn world (.start (lit "entry")) s → s.memory.length ≤ 4 := by
  have built : (Draft.build renewing.subject (.new {})).1 = .ok () := Attempt.eq_ok_of_isOk (by decide +kernel)
  have foretold : renewing.cells = [lit "n",lit "m",lit "k",lit "m"] := by decide +kernel
  obtain ⟨fn,arena,block,_,entry,filling,_,_,_,_,_,names,runs⟩ := cells_hoisted_and_counted renewing {} _ (Attempt.run_of_fst built)
  rw [foretold] at names runs
  exact ⟨built,fn,arena,block,entry,filling,names,fun module world s reaches => (runs module world s reaches).1⟩

end Lev
