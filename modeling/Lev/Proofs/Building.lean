import Lev.Proofs.Filled
import Lev.Proofs.Resolution
import Lev.Proofs.Signatures

/-!
Building a module. If the analyses find anything, it is reported and nothing is emitted. Otherwise every
callee and the entry function can be declared, every call of the program fits its callee, and what the
build does is filling the entry function. Main statements: a module that is built is well formed, and a
build that fails reports errors of the program.
-/
namespace Lev
open Attempt (Meets)

namespace Function

theorem registerParams_length (count : Nat) (names : NameScope) : (registerParams count names).1.length = count := by
  induction count generalizing names with
  | zero => rfl
  | succ count ih => exact congrArg (· + 1) (ih _)
@[simp] theorem declare_params (name : Text) (arity : Nat) : (declare name arity).params.length = arity :=
  registerParams_length arity .empty
@[simp] theorem declare_name (name : Text) (arity : Nat) : (declare name arity).name = name := rfl
@[simp] theorem declare_blocks (name : Text) (arity : Nat) : (declare name arity).blocks = [] := rfl

/-- The entry of the function in the table of signatures. -/
abbrev signature (fn : Function) : Text × Nat := (fn.name,fn.params.length)

end Function

namespace Draft

/-- The table of signatures is in step with the functions of the module. -/
def InStep (draft : Draft) : Prop := draft.signatures = draft.functions.map Function.signature

/-- What the analyses find in a program: conflicts, names that the target cannot carry, violations of scope. -/
def findings (options : Options) (n : Node) : List ProgramError :=
  let found := Signatures.ofCalls [(options.entryName,0)] n.calls
  found.conflicts.map Conflict.error ++ found.table.names.filterMap Identifier.error? ++ (n.check []).map Violation.error
/-- The functions that the call sites of a program ask for, apart from the entry function. -/
def callees (options : Options) (n : Node) : Table Int :=
  (Signatures.ofCalls [(options.entryName,0)] n.calls).table.filter fun (name,_) => name ≠ options.entryName

/-- The functions of the module before the entry function is filled. -/
def declared (options : Options) (n : Node) : List Function :=
  ((callees options n).map fun entry => .declare entry.1 entry.2.toNat) ++ [.declare options.entryName 0]

/-! ### Declaring functions -/

theorem mem_of_entryFunction? {draft : Draft} {fn : Function} (found : draft.entryFunction? = some fn) : fn ∈ draft.functions := by
  obtain ⟨name,_,named⟩ := Option.bind_eq_some_iff.mp found
  exact List.mem_of_find?_eq_some named
theorem entry_of_entryFunction? {draft : Draft} {fn : Function} (found : draft.entryFunction? = some fn) :
    draft.entry = some fn.name := by
  obtain ⟨name,entry,named⟩ := Option.bind_eq_some_iff.mp found
  have same : fn.name = name := by simpa using List.find?_some named
  exact same ▸ entry
theorem InStep.names {draft : Draft} (inStep : draft.InStep) : draft.signatures.names = draft.functions.map Function.name := by
  rw [inStep]
  simp [Table.names]
theorem find?_of_get? {functions : List Function} {name : Text} {count : Nat}
    (known : Table.get? name (functions.map Function.signature) = some count) :
    ∃ fn, functions.find? (·.name = name) = some fn ∧ fn.params.length = count := by
  induction functions with
  | nil => cases known
  | cons fn rest ih =>
    by_cases same : fn.name = name
    · exact ⟨fn,by simp [same],by simpa [Table.get?,same] using known⟩
    · obtain ⟨other,found,params⟩ := ih (by simpa [Table.get?,same] using known)
      exact ⟨other,by simpa [same] using found,params⟩
/-- The function of a name in the table is in the module, with the parameters that the table says. -/
theorem InStep.found {draft : Draft} (inStep : draft.InStep) {name : Text} {count : Nat} (known : draft.signatures.get? name = some count) :
    ∃ fn, draft.function? name = some fn ∧ fn.params.length = count :=
  find?_of_get? (inStep ▸ known)
theorem declare_run (draft : Draft) {name : Text} (arity : Int) (new : draft.signatures.get? name = none)
    (carried : Identifier.error? name = none) :
    ∃ log, declare name arity draft = (.ok name,
      { draft with
        functions := draft.functions ++ [.declare name arity.toNat]
        signatures := draft.signatures ++ [(name,arity.toNat)], log }) := by
  unfold declare
  rw [Attempt.bind_run_ok (Attempt.read_run _ _),new]
  simp only [carried,Function.declare_params]
  refine ⟨draft.log ++ [lit "lowering.core: Declared " ++ name ++ lit "/" ++ Text.ofInt arity],?_⟩
  rw [← Table.set_of_none new]
  rfl
/-- Distinct names that are new and that the target can carry can all be declared. -/
theorem declareAll_run {table : Table Int} (distinct : table.names.Nodup)
    (carried : ∀ name ∈ table.names, Identifier.error? name = none) (draft : Draft)
    (new : ∀ name ∈ table.names, draft.signatures.get? name = none) :
    ∃ log, declareAll table draft = (.ok (),
      { draft with
        functions := draft.functions ++ table.map fun entry => .declare entry.1 entry.2.toNat
        signatures := draft.signatures ++ table.map fun entry => (entry.1,entry.2.toNat), log }) := by
  induction table generalizing draft with
  | nil => exact ⟨draft.log,by simp [declareAll]⟩
  | cons entry rest ih =>
    obtain ⟨name,arity⟩ := entry
    simp only [Table.names,List.map_cons,List.nodup_cons,List.mem_cons,forall_eq_or_imp] at distinct carried new
    obtain ⟨log,declared⟩ := declare_run draft arity new.1 carried.1
    obtain ⟨log',later⟩ := ih distinct.2 carried.2
      { draft with
        functions := draft.functions ++ [.declare name arity.toNat]
        signatures := draft.signatures ++ [(name,arity.toNat)], log } (by
        intro other member
        have apart : name ≠ other := fun same => distinct.1 (same ▸ member)
        rw [Table.get?_append,new.2 other member]
        simp [Table.get?,apart])
    refine ⟨log',?_⟩
    rw [declareAll,Attempt.bind_run_ok declared,later]
    simp

/-- The entry function of the draft is the given one; it comes last, after functions that are only declared, and the signatures
    are in step. -/
structure Holds (options : Options) (others : List Function) (fn : Function) (draft : Draft) : Prop where
  settings : draft.options = options
  entry : draft.entry = some options.entryName
  functions : draft.functions = others ++ [fn]
  inStep : draft.InStep
  name : fn.name = options.entryName
  apart : ∀ other ∈ others, other.name ≠ options.entryName ∧ other.blocks = []

/-- What holds of the call sites if the analyses find nothing. -/
theorem clean_sites {options : Options} {n : Node} (clean : findings options n = []) :
    let table := (Signatures.ofCalls [(options.entryName,0)] n.calls).table
    table.names.Nodup ∧ table.get? options.entryName = some 0 ∧ (∀ name ∈ table.names, Identifier.error? name = none) ∧
      ∀ site ∈ n.calls, table.get? site.name = some site.arity := by
  have covers := Signatures.ofCalls_covers (by simp [Table.names] : Table.names [(options.entryName,(0 : Int))] |>.Nodup) n.calls
  simp only [findings,List.append_eq_nil_iff,List.map_eq_nil_iff,List.filterMap_eq_nil_iff] at clean
  obtain ⟨⟨conflicts,carried⟩,_⟩ := clean
  refine ⟨covers.distinct,covers.kept _ _ (by simp [Table.get?]),carried,?_⟩
  intro site member
  obtain ⟨arity,present,same | conflict⟩ := covers.entered site member
  · exact same ▸ present
  · rw [conflicts] at conflict
    cases conflict
theorem entry_carried {options : Options} {n : Node} (clean : findings options n = []) : Identifier.error? options.entryName = none := by
  obtain ⟨_,entry,carried,_⟩ := clean_sites clean
  exact carried _ (List.mem_map_of_mem (Table.mem_of_get? entry))
theorem declared_names (options : Options) (n : Node) :
    (declared options n).map Function.name = (callees options n).names ++ [options.entryName] := by
  simp [declared,Table.names,Function.comp_def]
theorem callees_names {options : Options} {n : Node} (clean : findings options n = []) :
    (callees options n).names.Nodup ∧ options.entryName ∉ (callees options n).names ∧
      ∀ name ∈ (callees options n).names, Identifier.error? name = none := by
  obtain ⟨distinct,_,carried,_⟩ := clean_sites clean
  refine ⟨distinct.sublist (List.filter_sublist.map _),?_,?_⟩
  · intro member
    obtain ⟨entry,inside,same⟩ := List.mem_map.mp member
    have other := (List.mem_filter.mp inside).2
    simp [same] at other
  · intro name member
    obtain ⟨entry,inside,rfl⟩ := List.mem_map.mp member
    exact carried _ (List.mem_map_of_mem (List.mem_filter.mp inside).1)
/-- Every call site finds a function of its name that takes as many arguments. -/
theorem declared_sites {options : Options} {n : Node} (clean : findings options n = []) {site : CallSite}
    (member : site ∈ n.calls) {count : Nat} (arity : site.arity = count) :
    Table.get? site.name ((declared options n).map Function.signature) = some count := by
  obtain ⟨distinct,entry,_,sites⟩ := clean_sites clean
  obtain ⟨unique,notEntry,_⟩ := callees_names clean
  have present := sites site member
  rw [arity] at present
  refine Table.get?_of_mem ?_ ?_
  · have names : Table.names ((declared options n).map Function.signature) =
        (declared options n).map Function.name := by simp [Table.names,Function.comp_def]
    rw [names,declared_names,List.nodup_append]
    refine ⟨unique,List.nodup_singleton _,?_⟩
    rintro name inside _ single rfl
    exact notEntry (List.mem_singleton.mp single ▸ inside)
  · by_cases same : site.name = options.entryName
    · rw [same,entry] at present
      have none : count = 0 := by simpa using present.symm
      refine List.mem_map.mpr ⟨.declare options.entryName 0,List.mem_append_right _ List.mem_cons_self,?_⟩
      simp [same,none]
    · refine List.mem_map.mpr ⟨.declare site.name count,List.mem_append_left _ ?_,by simp⟩
      refine List.mem_map.mpr ⟨(site.name,(count : Int)),List.mem_filter.mpr ⟨Table.mem_of_get? present,by simpa using same⟩,by simp⟩

theorem carried_of_clean {options : Options} {n : Node} (clean : findings options n = []) :
    ∀ site ∈ n.calls, Identifier.error? site.name = none := by
  obtain ⟨_,_,carried,sites⟩ := clean_sites clean
  exact fun site member => carried _ (List.mem_map_of_mem (Table.mem_of_get? (sites site member)))
theorem violations_of_clean {options : Options} {n : Node} (clean : findings options n = []) : n.violations [] = [] := by
  rw [← Node.check_eq_nil_iff]
  exact List.map_eq_nil_iff.mp (List.append_eq_nil_iff.mp clean).2
theorem findings_eq_nil {options : Options} {program : Program} {table : Table Int}
    (discovered : discover options program.subject = .ok (table,[])) (checked : program.subject.check [] = .ok []) :
    findings options program.node = [] := by
  have errors := congrArg Prod.snd (Except.ok.inj discovered)
  have violations : program.node.check [] = [] := Except.ok.inj checked
  exact List.append_eq_nil_iff.mpr ⟨errors,by rw [violations]; rfl⟩

/-! ### The course of a build -/

/-- The rest of a build in which the analyses have found nothing. -/
def proceed (program : Program) (options : Options) : Session Unit := do
  declareAll (callees options program.node)
  let entry ← declare options.entryName 0
  Attempt.modify fun draft => { draft with entry := some entry }
  reported (buildEntry program.subject)

theorem build_run (program : Program) (options : Options) :
    build program.subject (.new options) =
      (match findings options program.node with
        | [] => proceed program options
        | errors => Attempt.reject (.build errors)) { Draft.new options with built := true } := rfl
theorem build_of_findings {program : Program} {options : Options} (dirty : findings options program.node ≠ []) :
    build program.subject (.new options) =
      (.error (.program (.build (findings options program.node))),{ Draft.new options with built := true }) := by
  rw [build_run]
  cases found : findings options program.node with
  | nil => exact absurd found dirty
  | cons error rest => rfl
theorem findings_of_built {program : Program} {options : Options} {draft : Draft}
    (built : build program.subject (.new options) = (.ok (),draft)) : findings options program.node = [] := by
  by_contra dirty
  rw [build_of_findings dirty] at built
  cases built
/-- If the analyses find nothing, everything can be declared, and the call sites fit the functions they call. -/
theorem clean_course {program : Program} {options : Options} (clean : findings options program.node = []) :
    ∃ draft others, (Holds options others (.declare options.entryName 0) draft ∧ draft.points = [] ∧
        draft.functions = declared options program.node) ∧
      (∀ site ∈ program.node.calls, ∀ count : Nat, site.arity = count → draft.signatures.get? site.name = some count) ∧
      build program.subject (.new options) = reported (buildEntry program.subject) draft := by
  obtain ⟨unique,notEntry,carried⟩ := callees_names clean
  have new : ∀ name ∈ (callees options program.node).names, ({ Draft.new options with built := true } : Draft).signatures.get? name = none :=
    fun _ _ => rfl
  obtain ⟨log,all⟩ := declareAll_run unique carried { Draft.new options with built := true } new
  have newEntry : Table.get? options.entryName ((callees options program.node).map fun entry => (entry.1,entry.2.toNat)) = none := by
    rw [Table.get?_eq_none_iff]
    simpa [Table.names] using notEntry
  obtain ⟨log',last⟩ := declare_run { Draft.new options with
      built := true
      functions := (callees options program.node).map fun entry => .declare entry.1 entry.2.toNat
      signatures := (callees options program.node).map fun entry => (entry.1,entry.2.toNat), log } 0 newEntry (entry_carried clean)
  have inStep : ((callees options program.node).map fun entry => (entry.1,entry.2.toNat)) ++ [(options.entryName,0)] =
      (declared options program.node).map Function.signature := by
    simp [declared]
  refine ⟨{ Draft.new options with
    built := true, functions := declared options program.node
    signatures := ((callees options program.node).map fun entry => (entry.1,entry.2.toNat)) ++ [(options.entryName,0)]
    entry := some options.entryName, log := log' },_,⟨⟨rfl,rfl,rfl,inStep,rfl,?_⟩,rfl,rfl⟩,?_,?_⟩
  · intro fn member
    obtain ⟨entry,inside,rfl⟩ := List.mem_map.mp member
    exact ⟨fun same => notEntry (same ▸ List.mem_map_of_mem inside),rfl⟩
  · intro site member count arity
    dsimp only
    rw [inStep]
    exact declared_sites clean member arity
  · rw [build_run,clean]
    show proceed program options _ = _
    unfold proceed
    rw [Attempt.bind_run_ok all]
    exact Attempt.bind_run_ok last
theorem build_of_clean {program : Program} {options : Options} (clean : findings options program.node = []) :
    ∃ draft others, Holds options others (.declare options.entryName 0) draft ∧
      (∀ site ∈ program.node.calls, ∀ count : Nat, site.arity = count → draft.signatures.get? site.name = some count) ∧
      build program.subject (.new options) = reported (buildEntry program.subject) draft := by
  obtain ⟨draft,others,⟨holds,_⟩,fits,run⟩ := clean_course clean
  exact ⟨draft,others,holds,fits,run⟩

section
variable {options : Options} {others : List Function} {fn : Function} {draft : Draft}

theorem Holds.entryFunction? (holds : Holds options others fn draft) : draft.entryFunction? = some fn := by
  rw [Draft.entryFunction?,holds.entry,Option.bind_some,function?,holds.functions,List.find?_append,List.find?_eq_none.mpr ?_]
  · simp [holds.name]
  · intro other member same
    exact (holds.apart other member).1 (by simpa using same)
/-- A frame whose function is the entry function can be taken over. -/
theorem Holds.resume (holds : Holds options others fn draft) (f : Frame) (name : f.function.name = options.entryName)
    (params : f.function.params = fn.params) : Holds options others f.function (draft.resume f) := by
  have functions : (draft.resume f).functions = others ++ [f.function] := by
    have kept : ∀ other ∈ others, (if other.name = f.function.name then f.function else other) = other := by
      intro other member
      rw [if_neg (name ▸ (holds.apart other member).1)]
    rw [Draft.resume,replace,holds.functions,List.map_append,List.map_congr_left kept]
    simp [holds.name,name]
  refine ⟨holds.settings,holds.entry,functions,?_,name,holds.apart⟩
  have same : (draft.resume f).signatures = draft.signatures := rfl
  rw [InStep,same,holds.inStep,functions,holds.functions]
  simp [holds.name,name,params]
theorem Holds.openEntry_run (holds : Holds options others fn draft) :
    openEntry draft = (.ok (),draft.resume (.initial fn draft.points draft.log)) := by
  unfold openEntry
  rw [holds.entryFunction?]
  rfl
/-- Filling the entry function of a draft is filling its frame. -/
theorem Holds.buildEntry_run (holds : Holds options others fn draft) (subject : Subject) :
    buildEntry subject draft =
      let outcome := fillEntry draft.signatures subject (.initial fn draft.points draft.log)
      (outcome.1,(draft.resume (.initial fn draft.points draft.log)).resume outcome.2) := by
  have opened := holds.resume (.initial fn draft.points draft.log) holds.name rfl
  unfold buildEntry
  rw [Attempt.bind_run_ok holds.openEntry_run,Attempt.bind_run_ok (Attempt.read_run _ _)]
  unfold fill
  rw [opened.entryFunction?]
  rfl

end

/-- The frame that filling the entry function starts from. -/
abbrev start (options : Options) (draft : Draft) : Frame := .initial (.declare options.entryName 0) draft.points draft.log

/-- Once the program has been lowered, filling the entry function ends the blocks that lowering has left open. -/
theorem Holds.filled_run {options : Options} {others : List Function} {draft : Draft} {program : Program}
    (holds : Holds options others (.declare options.entryName 0) draft) {value : Value} {f' : Frame}
    (lowered : program.subject.lowerProgram draft.signatures .empty (start options draft) = (.ok value,f'))
    (gives : Frame.Gives draft.signatures (lit "start") [] (Frame.belowEntry (lit "entry") (lit "start")) (start options draft) value f') :
    ∃ draft', reported (buildEntry program.subject) draft = (.ok (),draft') ∧
      Holds options others (f'.finished value (lit "start")).function draft' ∧ draft'.signatures = draft.signatures ∧
      draft'.points = f'.points ∧ draft'.filling = some ⟨(f'.finished value (lit "start")).arena,f'.block⟩ := by
  obtain ⟨above,later,advance,_⟩ := gives
  have opened := holds.resume (start options draft) rfl rfl
  obtain ⟨log,filled⟩ := fillEntry_run lowered later
  have taken := opened.resume { f'.finished value (lit "start") with log } advance.declared.1 advance.declared.2
  refine ⟨_,?_,taken,rfl,rfl,rfl⟩
  unfold reported
  rw [holds.buildEntry_run,filled]
  rfl
/-- What filling the entry function comes to: it succeeds and ends the blocks that lowering has left open, or it
    reports the error that lowering has met. -/
theorem Holds.reported_run {options : Options} {others : List Function} {draft : Draft} {program : Program}
    (holds : Holds options others (.declare options.entryName 0) draft) :
    (∃ value f' draft', program.subject.lowerProgram draft.signatures .empty (start options draft) = (.ok value,f') ∧
      Frame.Gives draft.signatures (lit "start") [] (Frame.belowEntry (lit "entry") (lit "start")) (start options draft) value f' ∧
      reported (buildEntry program.subject) draft = (.ok (),draft') ∧
      Holds options others (f'.finished value (lit "start")).function draft' ∧ draft'.signatures = draft.signatures) ∨
    (∃ error f' draft', program.subject.lowerProgram draft.signatures .empty (start options draft) = (.error (.program error),f') ∧
      Raised draft.signatures program.node.calls (.program error) ∧
      Frame.Stopped draft.signatures (lit "start") (start options draft) f' ∧
      reported (buildEntry program.subject) draft = (.error (.program (.build [error])),draft') ∧
      Holds options others f'.function draft' ∧ draft'.signatures = draft.signatures) := by
  obtain ⟨sound,_⟩ := Frame.initial_sound (Function.declare_blocks options.entryName 0) draft.signatures draft.points draft.log
    (rfl : start options draft = _)
  have meets := program.lower_sound draft.signatures sound (Frame.binds_empty _ _)
  have opened := holds.resume (start options draft) rfl rfl
  rcases lowered : program.subject.lowerProgram draft.signatures .empty (start options draft) with ⟨fault | value,f'⟩
  · obtain ⟨raised,stopped⟩ := meets.error lowered
    obtain ⟨error,rfl⟩ := raised.program
    have filled := fillEntry_run_error lowered
    have taken := opened.resume f' stopped.2.1 stopped.2.2
    refine .inr ⟨error,f',_,rfl,raised,stopped,?_,taken,rfl⟩
    unfold reported
    rw [holds.buildEntry_run,filled]
  · have gives := meets.ok lowered
    obtain ⟨draft',outcome,taken,same,_⟩ := holds.filled_run lowered gives
    exact .inl ⟨value,f',draft',rfl,gives,outcome,taken,same⟩

/-- A build from scratch succeeds or reports errors of the program. -/
theorem build_cases (program : Program) (options : Options) :
    (∃ draft, build program.subject (.new options) = (.ok (),draft)) ∨
      ∃ errors draft, build program.subject (.new options) = (.error (.program (.build errors)),draft) := by
  by_cases clean : findings options program.node = []
  · obtain ⟨draft,others,holds,_,run⟩ := build_of_clean clean
    rw [run]
    rcases holds.reported_run with ⟨_,_,last,_,_,outcome,_⟩ | ⟨error,_,last,_,_,_,outcome,_⟩
    · exact .inl ⟨last,outcome⟩
    · exact .inr ⟨[error],last,outcome⟩
  · exact .inr ⟨_,_,build_of_findings clean⟩

/-- However a build ends, the table of signatures is in step with the functions of the module. -/
theorem build_inStep (program : Program) (options : Options) : (build program.subject (.new options)).2.InStep := by
  by_cases clean : findings options program.node = []
  · obtain ⟨draft,others,holds,_,run⟩ := build_of_clean clean
    rw [run]
    rcases holds.reported_run with ⟨_,_,_,_,_,outcome,taken,_⟩ | ⟨_,_,_,_,_,_,outcome,taken,_⟩
    · exact outcome ▸ taken.inStep
    · exact outcome ▸ taken.inStep
  · rw [build_of_findings clean]
    rfl

/-- All instructions of all functions have operands of the types they ask for. -/
def WellTyped (draft : Draft) : Prop :=
  ∀ fn ∈ draft.functions, ∀ block ∈ fn.blocks, ∀ instr ∈ block.instrs, instr.WellTyped draft.signatures

theorem Holds.wellTyped {options : Options} {others : List Function} {fn : Function} {draft : Draft}
    (holds : Holds options others fn draft) (distinct : fn.labels.Nodup)
    (typed : ∀ label index instr, fn.At label index instr → instr.WellTyped draft.signatures) : draft.WellTyped := by
  intro other member block inside instr found
  rw [holds.functions] at member
  rcases List.mem_append.mp member with early | last
  · rw [(holds.apart other early).2] at inside
    cases inside
  · cases List.mem_singleton.mp last
    obtain ⟨index,placed⟩ := Function.At.of_mem ((Function.mem_blocks_iff distinct).mp inside) found
    exact typed _ _ _ placed
theorem Holds.isClosed {options : Options} {others : List Function} {fn : Function} {draft : Draft}
    (holds : Holds options others fn draft) (closed : ∀ block ∈ fn.blocks, block.isClosed = true) :
    draft.module.isClosed = true := by
  rw [Module.isClosed,List.all_eq_true]
  intro other member
  rw [List.all_eq_true]
  intro block inside
  have found : other ∈ others ++ [fn] := holds.functions ▸ member
  rcases List.mem_append.mp found with early | last
  · rw [(holds.apart other early).2] at inside
    cases inside
  · cases List.mem_singleton.mp last
    exact closed block inside
/-- What a build that succeeds has done. -/
theorem build_filled {program : Program} {options : Options} {draft' : Draft}
    (built : build program.subject (.new options) = (.ok (),draft')) :
    ∃ draft others value f', (Holds options others (.declare options.entryName 0) draft ∧ draft.points = [] ∧
        draft.functions = declared options program.node) ∧
      program.subject.lowerProgram draft.signatures .empty (start options draft) = (.ok value,f') ∧
      Frame.Gives draft.signatures (lit "start") [] (Frame.belowEntry (lit "entry") (lit "start")) (start options draft) value f' ∧
      Holds options others (f'.finished value (lit "start")).function draft' ∧ draft'.signatures = draft.signatures ∧
      draft'.points = f'.points ∧ draft'.filling = some ⟨(f'.finished value (lit "start")).arena,f'.block⟩ := by
  obtain ⟨draft,others,⟨holds,fresh⟩,_,run⟩ := clean_course (findings_of_built built)
  rw [run] at built
  rcases holds.reported_run with ⟨value,f',_,lowered,gives,_⟩ | ⟨_,_,_,_,_,_,outcome,_⟩
  · obtain ⟨last,outcome,taken,same,points,filling⟩ := holds.filled_run lowered gives
    rw [outcome] at built
    cases built
    exact ⟨draft,others,value,f',⟨holds,fresh⟩,lowered,gives,taken,same,points,filling⟩
  · rw [outcome] at built
    cases built
theorem build_course {program : Program} {options : Options} {draft' : Draft}
    (built : build program.subject (.new options) = (.ok (),draft')) :
    ∃ draft others value f', (Holds options others (.declare options.entryName 0) draft ∧ draft.points = [] ∧
        draft.functions = declared options program.node) ∧
      program.subject.lowerProgram draft.signatures .empty (start options draft) = (.ok value,f') ∧
      Frame.Gives draft.signatures (lit "start") [] (Frame.belowEntry (lit "entry") (lit "start")) (start options draft) value f' ∧
      Holds options others (f'.finished value (lit "start")).function draft' ∧ draft'.signatures = draft.signatures ∧
      draft'.points = f'.points := by
  obtain ⟨draft,others,value,f',fresh,lowered,gives,taken,same,points,_⟩ := build_filled built
  exact ⟨draft,others,value,f',fresh,lowered,gives,taken,same,points⟩
theorem build_eq_ok {program : Program} {options : Options} {draft' : Draft}
    (built : build program.subject (.new options) = (.ok (),draft')) :
    ∃ draft others value f', Holds options others (.declare options.entryName 0) draft ∧
      program.subject.lowerProgram draft.signatures .empty (start options draft) = (.ok value,f') ∧
      Frame.Gives draft.signatures (lit "start") [] (Frame.belowEntry (lit "entry") (lit "start")) (start options draft) value f' ∧
      Holds options others (f'.finished value (lit "start")).function draft' ∧ draft'.signatures = draft.signatures := by
  obtain ⟨draft,others,value,f',⟨holds,_⟩,lowered,gives,taken,same,_⟩ := build_course built
  exact ⟨draft,others,value,f',holds,lowered,gives,taken,same⟩

end Draft

/-- The entry function that filling ends with is in static single assignment form. -/
theorem Draft.finished_wellFormed {options : Options} {draft : Draft} {value : Value} {f : Frame} {signatures : Table Nat}
    (gives : Frame.Gives signatures (lit "start") [] (Frame.belowEntry (lit "entry") (lit "start")) (start options draft) value f) :
    (f.finished value (lit "start")).function.WellFormed signatures (lit "entry") := by
  obtain ⟨above,sound,advance,known,type⟩ := gives
  obtain ⟨_,labels,_⟩ := Frame.initial_sound (Function.declare_blocks options.entryName 0) signatures draft.points draft.log
    (rfl : start options draft = _)
  have entry : f.entry = lit "entry" := advance.entry
  have first : f.function.labels.head? = some f.entry := by
    obtain ⟨more,later⟩ := advance.blocks
    rw [← later,labels,entry]
    rfl
  have aboveRoot : above (lit "start") = [f.entry] := by
    rw [advance.certificate _ (by rw [labels]; exact List.mem_cons_of_mem _ List.mem_cons_self),entry]
    rfl
  have top : above f.entry = [] := by
    rw [entry,advance.certificate _ (by rw [labels]; exact List.mem_cons_self)]
    rfl
  exact entry ▸ sound.finished known type aboveRoot top first
theorem Draft.isClosed_of_built {program : Program} {options : Options} {draft : Draft}
    (built : build program.subject (.new options) = (.ok (),draft)) : draft.module.isClosed = true := by
  obtain ⟨_,_,_,_,_,_,gives,taken,_⟩ := build_eq_ok built
  exact taken.isClosed (finished_wellFormed gives).closed

/-- For every program and options with which a module is built, its entry function is in static single
    assignment form, and every block of the module ends in its only terminator. -/
theorem build_wellFormed (program : Program) (options : Options) (draft : Draft)
    (built : Draft.build program.subject (.new options) = (.ok (),draft)) :
    (∃ fn, draft.entryFunction? = some fn ∧ fn.WellFormed draft.signatures (lit "entry")) ∧
      draft.module.isClosed = true := by
  obtain ⟨_,_,_,_,_,_,gives,holds,same⟩ := Draft.build_eq_ok built
  exact ⟨⟨_,holds.entryFunction?,same ▸ Draft.finished_wellFormed gives⟩,Draft.isClosed_of_built built⟩

/-- A loop in the condition of a loop, in a program that counts a cell down. -/
def countdown : Program :=
  .block (.step (.bindMut (lit "n") (.literal 3))
    (.step (.discard (.loop
      (.binary (.loop (.literal 0) (.result (.literal 1))) .add (.var (lit "n")))
      (.step (.assign (lit "n") (.binary (.var (lit "n")) .sub (.literal 1))) (.result (.var (lit "n"))))))
    (.result (.var (lit "n")))))
/-- The module of the program is built, so its entry function is well formed. -/
theorem build_wellFormed_countdown :
    (Draft.build countdown.subject (.new {})).1 = .ok () ∧
      (Draft.build countdown.subject (.new {})).2.module.isClosed = true := by
  have built : (Draft.build countdown.subject (.new {})).1 = .ok () := Attempt.eq_ok_of_isOk (by decide +kernel)
  exact ⟨built,(build_wellFormed countdown {} _ (Attempt.run_of_fst built)).2⟩

/-! ### Failures -/

/-- The errors that the program can still make once the analyses have found nothing. -/
inductive LateError (sites : List CallSite) : ProgramError → Prop
  | inconstant (name : Text) : LateError sites (.nonConstantLet (.text name))
  | immutable (name : Text) : LateError sites (.immutableAssignment (.text name))
  | misnamed (name reason : Text) (uncalled : ∀ site ∈ sites, site.name ≠ name) :
      LateError sites (.badIdentifier (.text name) reason)

/-- If every call site fits its callee and names resolve, lowering meets no other errors. -/
theorem Raised.late {signatures : Table Nat} {sites : List CallSite} {error : ProgramError}
    (raised : Raised signatures sites (.program error))
    (fits : ∀ site ∈ sites, ∀ count : Nat, site.arity = count → signatures.get? site.name = some count)
    (carried : ∀ site ∈ sites, Identifier.error? site.name = none) (resolved : ∀ name, error ≠ .undeclaredVariable name) :
    LateError sites error := by
  generalize same : Fault.program error = fault at raised
  cases raised with
  | undeclared name =>
    cases same
    exact absurd rfl (resolved _)
  | immutable name =>
    cases same
    exact .immutable name
  | inconstant name =>
    cases same
    exact .inconstant name
  | misnamed misnamed =>
    obtain ⟨name,found,failed,same'⟩ := misnamed
    obtain ⟨reason,rfl⟩ := Identifier.error?_eq_some failed
    rw [← same] at same'
    cases same'
    refine .misnamed name reason (fun site member called => ?_)
    rw [← called,carried site member] at failed
    cases failed
  | uncallable site failed =>
    rw [callable_eq_ok.mpr (fits _ site _ rfl)] at failed
    cases failed

/-- Whatever the program and the options, building a module from scratch succeeds or reports errors of the program,
    and emits only what is well typed. If the analyses find nothing, one error is reported, and it is no
    matter of names that do not resolve or of calls. -/
theorem build_failures (program : Program) (options : Options) :
    ((Draft.build program.subject (.new options)).1 = .ok () ∨
      ∃ errors, (Draft.build program.subject (.new options)).1 = .error (.program (.build errors))) ∧
    (Draft.build program.subject (.new options)).2.WellTyped ∧
    (∀ table, Draft.discover options program.subject = .ok (table,[]) → program.subject.check [] = .ok [] →
      ∀ fault, (Draft.build program.subject (.new options)).1 = .error fault →
        ∃ error, fault = .program (.build [error]) ∧ LateError program.node.calls error) := by
  by_cases clean : Draft.findings options program.node = []
  · obtain ⟨draft,others,holds,fits,run⟩ := Draft.build_of_clean clean
    rw [run]
    rcases holds.reported_run with
      ⟨value,f',last,_,gives,outcome,taken,same⟩ | ⟨error,f',last,lowered,raised,stopped,outcome,taken,same⟩
    · have wellFormed := Draft.finished_wellFormed gives
      rw [outcome]
      refine ⟨.inl rfl,taken.wellTyped wellFormed.distinct (same ▸ wellFormed.typed),?_⟩
      intro table _ _ fault failed
      cases failed
    · obtain ⟨⟨pending,above,sound⟩,_⟩ := stopped
      rw [outcome]
      refine ⟨.inr ⟨_,rfl⟩,taken.wellTyped sound.named.labels (same ▸ sound.linked.typed),?_⟩
      intro table _ _ fault failed
      cases failed
      refine ⟨error,rfl,raised.late fits (Draft.carried_of_clean clean) ?_⟩
      rintro name rfl
      have blames := (program.lower_resolves draft.signatures Scope.matches_empty _).error lowered
      obtain ⟨_,_,_,starts⟩ := blames name rfl
      rw [Draft.violations_of_clean clean] at starts
      cases starts
  · rw [Draft.build_of_findings clean]
    refine ⟨.inr ⟨_,rfl⟩,?_,?_⟩
    · intro fn member
      cases member
    · intro table discovered checked
      exact absurd (Draft.findings_eq_nil discovered checked) clean

/-- A program that binds the value of a cell to an immutable name. -/
def frozenCell : Program :=
  .block (.step (.bindMut (lit "x") (.literal 1)) (.step (.bindConst (lit "y") (.var (lit "x"))) (.result (.var (lit "y")))))
/-- The analyses find nothing in the program, and building it fails because the name needs a constant. -/
theorem build_failures_frozenCell :
    (∃ table, Draft.discover {} frozenCell.subject = .ok (table,[])) ∧ frozenCell.subject.check [] = .ok [] ∧
      ∃ error, (Draft.build frozenCell.subject (.new {})).1 = .error (.program (.build [error])) ∧
        LateError frozenCell.node.calls error := by
  have carried : Identifier.error? (lit "main") = none := Option.isNone_iff_eq_none.mp (by decide +kernel)
  have discovered : Draft.discover {} frozenCell.subject = .ok ([(lit "main",0)],[]) := by
    show Except.ok ([(lit "main",0)],[].map Conflict.error ++ [lit "main"].filterMap Identifier.error?) = _
    simp [carried]
  have violations : frozenCell.node.check [] = [] := by decide +kernel
  have checked : frozenCell.subject.check [] = .ok [] := congrArg Except.ok violations
  have late := (build_failures frozenCell {}).2.2 _ discovered checked
  cases outcome : (Draft.build frozenCell.subject (.new {})).1 with
  | ok _ =>
    have failed : (Draft.build frozenCell.subject (.new {})).1.isOk = false := by decide +kernel
    rw [outcome] at failed
    cases failed
  | error fault =>
    obtain ⟨error,same,isLate⟩ := late fault outcome
    exact ⟨⟨_,discovered⟩,checked,error,by rw [same],isLate⟩

end Lev
