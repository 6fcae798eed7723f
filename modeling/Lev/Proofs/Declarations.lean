import Lev.Proofs.Arities
import Lev.Proofs.Preservation

/-!
The functions of a module. The call sites of a program are found by one visit of its syntax, declared in the order of
that visit, and called by another visit, which sees the condition of a loop twice. Main statement: besides the entry
function, a module that is built declares exactly the functions that the program calls, once each, in the order of
their first call; each takes as many arguments as every call of it in the program and in the code gives.
-/
namespace Lev

/-- The functions that the program calls apart from the entry function, in the order of their first call. -/
def Program.callees (program : Program) (entryName : Text) : List Text :=
  ((program.node.calls.map CallSite.name).filter (· ≠ entryName)).eraseDups

/-- An instruction of the function calls the callee with the arguments. -/
def Function.Invokes (fn : Function) (callee : Text) (args : List Value) : Prop :=
  ∃ block ∈ fn.blocks, ∃ result, .call result callee args ∈ block.instrs

/-! ### Calls in the code -/

theorem Function.invokes_iff {fn : Function} (distinct : fn.labels.Nodup) {callee : Text} {args : List Value} :
    fn.Invokes callee args ↔ ∃ label index result, fn.At label index (.call result callee args) := by
  constructor
  · rintro ⟨block,member,result,inside⟩
    obtain ⟨index,found⟩ := Function.At.of_mem ((Function.mem_blocks_iff distinct).mp member) inside
    exact ⟨block.label,index,result,found⟩
  · rintro ⟨label,index,result,instrs,code,found⟩
    exact ⟨⟨label,instrs⟩,(Function.mem_blocks_iff distinct).mpr code,result,List.mem_of_getElem? found⟩

/-- The code calls what the site calls, with as many arguments. -/
def Function.Serves (fn : Function) (site : CallSite) : Prop :=
  ∃ label index result args, fn.At label index (.call result site.name args) ∧ site.arity = args.length

section
variable {fn : Function} {signatures : Table Nat} {root : Text}

mutual

/-- Every call site of an expression that was lowered is served. -/
theorem Expr.lower_serves (e : Expr) {pending : List Text} {above : Text → List Text} {f f' : Frame} {env : Environment}
    (sound : f.Sound signatures root pending above) (binds : f.Binds above env) {value : Value}
    (run : e.lower signatures env f = (.ok value,f')) (carries : fn.Carries f'.function) : ∀ site ∈ e.calls, fn.Serves site := by
  intro site member
  match e with
  | .literal _ | .var _ => cases member
  | .binary left op right =>
    simp only [Expr.lower] at run
    obtain ⟨a,f₁,ranLeft,run⟩ := Attempt.bind_eq_ok.mp run
    obtain ⟨b,f₂,ranRight,run⟩ := Attempt.bind_eq_ok.mp run
    obtain ⟨above₁,sound₁,advance₁,known₁,type₁⟩ := (left.lower_sound signatures sound binds).ok ranLeft
    obtain ⟨above₂,sound₂,advance₂,known₂,type₂⟩ := (right.lower_sound signatures sound₁ (advance₁.binds binds)).ok ranRight
    obtain ⟨_,_,advance₃,_⟩ := (sound₂.arith op (advance₂.knows known₁) known₂ type₁ type₂ (fun _ _ => True)).ok run
    have carries₂ := carries.advance advance₃
    rcases List.mem_append.mp member with early | late
    · exact left.lower_serves sound binds ranLeft (carries₂.advance advance₂) site early
    · exact right.lower_serves sound₁ (advance₁.binds binds) ranRight carries₂ site late
  | .call callee args =>
    simp only [Expr.lower] at run
    obtain ⟨_,_,checked,run⟩ := Attempt.bind_eq_ok.mp run
    cases (Prod.mk.inj checked).2
    obtain ⟨values,f₁,ranArgs,run⟩ := Attempt.bind_eq_ok.mp run
    obtain ⟨above₁,sound₁,advance₁,count,_⟩ := (args.lower_sound signatures sound binds).ok ranArgs
    obtain ⟨base,ready,identified,emitted⟩ := Attempt.bind_eq_ok.mp run
    obtain ⟨rfl,rfl⟩ := (Build.identifier_meets callee f₁).ok identified
    cases (Build.emitNamed_run ..).symm.trans emitted
    obtain ⟨instrs,code,_⟩ := sound₁.current
    have added := Frame.appended_emitted (lit "call_" ++ base) code (.call (ready.fresh (lit "call_" ++ base)) base values)
    rcases List.mem_cons.mp member with rfl | deeper
    · exact ⟨ready.block,instrs.length,_,values,carries.at (added.at_iff.mpr (.inr ⟨rfl,rfl,rfl⟩)) rfl,by rw [count]⟩
    · exact args.lower_serves sound binds ranArgs (carries.appended added rfl) site deeper
  | .scope body =>
    simp only [Expr.lower] at run
    obtain ⟨_,_,ran,rest⟩ := Attempt.bind_eq_ok.mp run
    cases rest
    exact body.lower_serves sound binds ran carries site member
  | .loop cond body =>
    obtain ⟨rfl,loop,rfl⟩ := LoopRun.of_lower sound binds run
    obtain ⟨carriesBefore,_,carriesEnded,_⟩ := loop.carries carries
    rcases List.mem_append.mp member with early | late
    · exact cond.lower_serves sound binds loop.ranFirst (carriesBefore.advance loop.compared_preheader) site early
    · exact body.lower_serves loop.opens.sound (loop.opens.binds (loop.advance_preheader.binds binds)) loop.ranBody
        carriesEnded site late

theorem Args.lower_serves (args : Args) {pending : List Text} {above : Text → List Text} {f f' : Frame} {env : Environment}
    (sound : f.Sound signatures root pending above) (binds : f.Binds above env) {values : List Value}
    (run : args.lower signatures env f = (.ok values,f')) (carries : fn.Carries f'.function) : ∀ site ∈ args.calls, fn.Serves site := by
  intro site member
  match args with
  | .nil => cases member
  | .cons first rest =>
    simp only [Args.lower] at run
    obtain ⟨_,f₁,ranFirst,run⟩ := Attempt.bind_eq_ok.mp run
    obtain ⟨_,f₂,ranRest,run⟩ := Attempt.bind_eq_ok.mp run
    cases run
    obtain ⟨above₁,sound₁,advance₁,_⟩ := (first.lower_sound signatures sound binds).ok ranFirst
    obtain ⟨_,_,advance₂,_⟩ := (rest.lower_sound signatures sound₁ (advance₁.binds binds)).ok ranRest
    rcases List.mem_append.mp member with early | late
    · exact first.lower_serves sound binds ranFirst (carries.advance advance₂) site early
    · exact rest.lower_serves sound₁ (advance₁.binds binds) ranRest carries site late

theorem Stmt.lower_serves (s : Stmt) {pending : List Text} {above : Text → List Text} {f f' : Frame} {env env' : Environment}
    (sound : f.Sound signatures root pending above) (binds : f.Binds above env)
    (run : s.lower signatures env f = (.ok env',f')) (carries : fn.Carries f'.function) : ∀ site ∈ s.calls, fn.Serves site := by
  intro site member
  match s with
  | .discard value =>
    simp only [Stmt.lower] at run
    obtain ⟨_,_,ran,run⟩ := Attempt.bind_eq_ok.mp run
    cases run
    exact value.lower_serves sound binds ran carries site member
  | .bindConst name value =>
    simp only [Stmt.lower] at run
    obtain ⟨constant,_,ran,run⟩ := Attempt.bind_eq_ok.mp run
    cases constant with
    | reg => cases run
    | const n =>
      cases run
      exact value.lower_serves sound binds ran carries site member
  | .bindMut name value =>
    simp only [Stmt.lower] at run
    obtain ⟨base,start,identified,rest⟩ := Attempt.bind_eq_ok.mp run
    obtain ⟨rfl,rfl⟩ := (Build.identifier_meets name f).ok identified
    obtain ⟨_,_,allocated,rest⟩ := Attempt.bind_eq_ok.mp rest
    cases (Build.allocate_run ..).symm.trans allocated
    obtain ⟨_,_,ran,rest⟩ := Attempt.bind_eq_ok.mp rest
    obtain ⟨_,_,emitted,rest⟩ := Attempt.bind_eq_ok.mp rest
    cases (Build.emitUnnamed_run ..).symm.trans emitted
    cases rest
    obtain ⟨sound₁,advance₁,_⟩ := sound.allocated base
    obtain ⟨_,sound₂,_⟩ := (value.lower_sound signatures sound₁ (advance₁.binds binds)).ok ran
    obtain ⟨_,code,_⟩ := sound₂.current
    exact value.lower_serves sound₁ (advance₁.binds binds) ran (carries.appended (Frame.appended_emitted _ code _) rfl) site member
  | .assign name value =>
    simp only [Stmt.lower] at run
    obtain ⟨_,_,assigned,run⟩ := Attempt.bind_eq_ok.mp run
    cases (Prod.mk.inj assigned).2
    obtain ⟨_,_,ran,run⟩ := Attempt.bind_eq_ok.mp run
    obtain ⟨_,sound₁,_⟩ := (value.lower_sound signatures sound binds).ok ran
    obtain ⟨_,_,emitted,run⟩ := Attempt.bind_eq_ok.mp run
    cases (Build.emitUnnamed_run ..).symm.trans emitted
    cases run
    obtain ⟨_,code,_⟩ := sound₁.current
    exact value.lower_serves sound binds ran (carries.appended (Frame.appended_emitted _ code _) rfl) site member

theorem Block.lower_serves (b : Block) {pending : List Text} {above : Text → List Text} {f f' : Frame} {env : Environment}
    (sound : f.Sound signatures root pending above) (binds : f.Binds above env) {result : Value × Environment}
    (run : b.lower signatures env f = (.ok result,f')) (carries : fn.Carries f'.function) : ∀ site ∈ b.calls, fn.Serves site := by
  intro site member
  match b with
  | .result value =>
    simp only [Block.lower] at run
    obtain ⟨_,_,ran,run⟩ := Attempt.bind_eq_ok.mp run
    cases run
    exact value.lower_serves sound binds ran carries site member
  | .step first rest =>
    simp only [Block.lower] at run
    obtain ⟨_,f₁,ranFirst,ranRest⟩ := Attempt.bind_eq_ok.mp run
    obtain ⟨above₁,sound₁,_,binds₁⟩ := (first.lower_sound signatures sound binds).ok ranFirst
    obtain ⟨_,_,advance₂,_⟩ := (rest.lower_sound signatures sound₁ binds₁).ok ranRest
    rcases List.mem_append.mp member with early | late
    · exact first.lower_serves sound binds ranFirst (carries.advance advance₂) site early
    · exact rest.lower_serves sound₁ binds₁ ranRest carries site late

end

theorem Program.lower_serves (program : Program) {pending : List Text} {above : Text → List Text} {f f' : Frame}
    (sound : f.Sound signatures root pending above) {value : Value}
    (run : program.subject.lowerProgram signatures .empty f = (.ok value,f')) (carries : fn.Carries f'.function) :
    ∀ site ∈ program.node.calls, fn.Serves site := by
  cases program with
  | expr e => exact e.lower_serves sound (Frame.binds_empty _ _) run carries
  | block b =>
    obtain ⟨_,_,ran,rest⟩ := Attempt.bind_eq_ok.mp run
    cases rest
    exact b.lower_serves sound (Frame.binds_empty _ _) ran carries

end

/-! ### The functions and their signatures -/

theorem Text.eraseDups_filter_ne (name : Text) (names : List Text) :
    (name :: names).eraseDups.filter (· ≠ name) = (names.filter (· ≠ name)).eraseDups := by
  have others : ∀ other ∈ (names.filter (· ≠ name)).eraseDups, other ≠ name := by
    intro other member
    simpa using (List.mem_filter.mp (List.mem_eraseDups.mp member)).2
  have rest : names.filter (fun other => !other == name) = names.filter (· ≠ name) :=
    List.filter_congr (fun other _ => by by_cases same : other = name <;> simp [same])
  rw [List.eraseDups_cons,rest,List.filter_cons_of_neg (by simp)]
  exact List.filter_eq_self.mpr (fun other member => by simpa using others other member)

namespace Draft

theorem callees_eq (program : Program) (options : Options) :
    (callees options program.node).names = program.callees options.entryName := by
  have reflects := Signatures.ofCalls_reflects (by simp [Table.names] : Table.names [(options.entryName,(0 : Int))] |>.Nodup)
    program.node.calls
  have kept : (callees options program.node).names =
      (Signatures.ofCalls [(options.entryName,(0 : Int))] program.node.calls).table.names.filter (· ≠ options.entryName) := by
    rw [Table.names,Table.names,List.filter_map]
    rfl
  rw [kept,reflects.names]
  exact Text.eraseDups_filter_ne _ _
/-- Where names are distinct, every function has its own signature. -/
theorem InStep.get?_signatures {draft : Draft} (inStep : draft.InStep) (distinct : (draft.functions.map Function.name).Nodup)
    {fn : Function} (member : fn ∈ draft.functions) : draft.signatures.get? fn.name = some fn.params.length :=
  Table.get?_of_mem (inStep.names ▸ distinct) (inStep ▸ List.mem_map_of_mem member)
theorem InStep.mem_of_signatures {draft : Draft} (inStep : draft.InStep) {name : Text} {count : Nat}
    (known : draft.signatures.get? name = some count) : ∃ fn ∈ draft.functions, fn.name = name ∧ fn.params.length = count := by
  obtain ⟨fn,found,params⟩ := inStep.found known
  exact ⟨fn,List.mem_of_find?_eq_some found,by simpa using List.find?_some found,params⟩

section
variable {program : Program} {options : Options} {draft : Draft}

/-- The functions of a module that is built: those that the program calls, and the entry function. -/
theorem names_of_built (built : build program.subject (.new options) = (.ok (),draft)) :
    draft.functions.map Function.name = program.callees options.entryName ++ [options.entryName] := by
  obtain ⟨before,others,_,_,⟨holds,_,declared⟩,_,_,taken,_⟩ := build_course built
  rw [taken.functions,List.map_append,List.map_singleton,taken.name,← callees_eq,← declared_names,← declared,holds.functions,
    List.map_append]
  rfl
theorem distinct_of_built (built : build program.subject (.new options) = (.ok (),draft)) :
    (draft.functions.map Function.name).Nodup := by
  obtain ⟨unique,notEntry,_⟩ := callees_names (findings_of_built built)
  rw [callees_eq] at unique notEntry
  rw [names_of_built built]
  exact unique.append (List.nodup_singleton _) (by simpa using notEntry)
/-- Every call site of the program fits the function that it calls. -/
theorem arity_of_built (built : build program.subject (.new options) = (.ok (),draft)) {function : Function}
    (member : function ∈ draft.functions) {site : CallSite} (inside : site ∈ program.node.calls) (named : site.name = function.name) :
    site.arity = function.params.length := by
  obtain ⟨before,_,_,_,⟨holds,_,declared⟩,_,_,taken,same,_⟩ := build_course built
  obtain ⟨args,_,arity⟩ := (program.node.mem_calls_iff site).mp inside
  have found : draft.signatures.get? site.name = some args.length := by
    rw [same,holds.inStep,declared]
    exact declared_sites (findings_of_built built) inside arity
  rw [named,taken.inStep.get?_signatures (distinct_of_built built) member] at found
  rw [arity,Option.some.inj found]

end

end Draft

/-- A function that is well formed is not only declared. -/
theorem Function.WellFormed.isDeclaration {fn : Function} {signatures : Table Nat} {entry : Text}
    (wellFormed : fn.WellFormed signatures entry) : fn.isDeclaration = false := by
  have first := wellFormed.first
  cases blocks : fn.blocks with
  | nil => simp [Function.labels,blocks] at first
  | cons _ _ => simp [Function.isDeclaration,blocks]

/-- For every program and options with which a module is built: its functions are the functions that the program calls
    apart from the entry function, once each in the order of their first call and only declared, and then the entry
    function, which is defined and takes no arguments; the signatures name the same functions in the same order. Every
    function takes as many arguments as every call of it in the program gives, and every call in the code is one of a
    function of the module with as many arguments as it takes. Every call of the program is made in the code. -/
theorem module_holds_called_functions (program : Program) (options : Options) (draft : Draft)
    (built : Draft.build program.subject (.new options) = (.ok (),draft)) :
    ∃ others fn, draft.module.functions = others ++ [fn] ∧ draft.entryFunction? = some fn ∧
      others.map Function.name = program.callees options.entryName ∧ (∀ other ∈ others, other.isDeclaration = true) ∧
      fn.name = options.entryName ∧ fn.params = [] ∧ fn.isDeclaration = false ∧
      draft.signatures.names = program.callees options.entryName ++ [options.entryName] ∧
      (∀ function ∈ draft.module.functions, ∀ site ∈ program.node.calls, site.name = function.name →
        site.arity = function.params.length) ∧
      (∀ callee args, fn.Invokes callee args →
        ∃ target ∈ draft.module.functions, target.name = callee ∧ target.params.length = args.length) ∧
      (∀ site ∈ program.node.calls, ∃ args, fn.Invokes site.name args ∧ site.arity = args.length) ∧
      (program.node.calls = [] → draft.module.functions = [fn]) := by
  obtain ⟨before,others,value,f,_,lowered,gives,taken,same,_⟩ := Draft.build_course built
  have wellFormed := Draft.finished_wellFormed gives
  obtain ⟨above,sound,advance,_⟩ := gives
  obtain ⟨started,_⟩ := Frame.initial_sound (Function.declare_blocks options.entryName 0) before.signatures before.points
    before.log (rfl : Draft.start options before = _)
  have callees : others.map Function.name = program.callees options.entryName := by
    have names := Draft.names_of_built built
    rw [taken.functions,List.map_append,List.map_singleton,taken.name] at names
    exact List.append_cancel_right names
  refine ⟨others,_,taken.functions,taken.entryFunction?,callees,?_,taken.name,advance.declared.2,wellFormed.isDeclaration,
    taken.inStep.names.trans (Draft.names_of_built built),fun _ member _ => Draft.arity_of_built built member,?_,?_,?_⟩
  · intro other member
    rw [Function.isDeclaration,(taken.apart other member).2]
    rfl
  · intro callee args invokes
    obtain ⟨label,index,result,found⟩ := (Function.invokes_iff wellFormed.distinct).mp invokes
    exact taken.inStep.mem_of_signatures (same ▸ (wellFormed.typed label index _ found).1)
  · intro site member
    obtain ⟨label,index,result,args,found,arity⟩ :=
      program.lower_serves started lowered (sound.carries_finished value) site member
    exact ⟨args,(Function.invokes_iff wellFormed.distinct).mpr ⟨label,index,result,found⟩,arity⟩
  · intro none
    rw [Program.callees,none] at callees
    have nobody : others = [] := List.map_eq_nil_iff.mp callees
    show draft.functions = _
    rw [taken.functions,nobody]
    rfl

/-- A program that calls functions in arguments and in the condition of a loop, some of them twice, and itself:
    `while f(g(1)) { h(); main() }; f(2)`. -/
def calling : Program :=
  .block (.step (.discard (.loop (.call (lit "f") (.cons (.call (lit "g") (.cons (.literal 1) .nil)) .nil))
      (.step (.discard (.call (lit "h") .nil)) (.result (.call (lit "main") .nil)))))
    (.result (.call (lit "f") (.cons (.literal 2) .nil))))
/-- The module of the program declares three functions before the entry function, and one of them takes no arguments. -/
theorem module_holds_called_functions_calling :
    (Draft.build calling.subject (.new {})).1 = .ok () ∧
      ∃ others fn, (Draft.build calling.subject (.new {})).2.module.functions = others ++ [fn] ∧
        others.map Function.name = [lit "f",lit "g",lit "h"] ∧ fn.name = lit "main" ∧
        ∃ args, fn.Invokes (lit "h") args ∧ args.length = 0 := by
  have built : (Draft.build calling.subject (.new {})).1 = .ok () := Attempt.eq_ok_of_isOk (by decide +kernel)
  obtain ⟨others,fn,functions,_,callees,_,name,_,_,_,_,_,made,_⟩ :=
    module_holds_called_functions calling {} _ (Attempt.run_of_fst built)
  obtain ⟨args,invokes,arity⟩ := made ⟨lit "h",0⟩ (by decide +kernel)
  have order : calling.callees (lit "main") = [lit "f",lit "g",lit "h"] := by decide +kernel
  exact ⟨built,others,fn,functions,callees.trans order,name,args,invokes,by simpa using arity.symm⟩

end Lev
