import Lev.Proofs.Building
import Lev.Proofs.Rounds

/-!
The code that is built for a program does what the program means. Lowering and evaluation follow the same syntax,
so the machine is led along by induction on it: an expression yields its word, and a statement leaves the names
with their meaning. What is left is the start of the function, where the cells are made, and its end. Main
statement: the entry function returns a word after a sequence of calls if and only if the program does.
-/
namespace Lev
open Lev.Frame (Advance)
open Machine (Placed Keeps)

/-! ### Syntax -/

/-- The module has the callees of the sites as functions outside, with their signatures. -/
def Module.Provides (module : Module) (signatures : Table Nat) (sites : List CallSite) : Prop :=
  ∀ site ∈ sites, ∀ count, signatures.get? site.name = some count → module.declares site.name count = true

theorem Module.Provides.mono {module : Module} {signatures : Table Nat} {sites fewer : List CallSite}
    (provides : module.Provides signatures sites) (inside : ∀ site ∈ fewer, site ∈ sites) : module.Provides signatures fewer :=
  fun site member => provides site (inside site member)

/-- What a statement does: there may be one more cell, and the names are in force with their meaning. -/
def Leads (fn : Function) (f f' : Frame) (pairs : List (Nat × Nat)) (mentioned : List Text) (env : Environment) (s : Machine)
    (names : Names) (memory' : Memory) (s' : Machine) : Prop :=
  ∃ more, (∀ pair ∈ pairs, pair ∈ more) ∧ Follows fn f' more mentioned env names memory' s' ∧ Keeps f s s'

section
variable {module : Module} {fn : Function} {world : World} {bound : Nat} {signatures : Table Nat} {root : Text}

mutual

/-- The machine follows an expression. -/
theorem Expr.lower_simulates (named : fn.Named) (e : Expr) {pending : List Text} {above : Text → List Text} {f f' : Frame} {env : Environment}
    {pairs : List (Nat × Nat)} {names : Names} {memory : Memory} {s : Machine} (sound : f.Sound signatures root pending above)
    (binds : f.Binds above env) {value : Value} (run : e.lower signatures env f = (.ok value,f'))
    (carries : fn.Carries f'.function) (free : e.isCaptureFree = true) (provides : module.Provides signatures e.calls)
    (follows : Follows fn f pairs e.mentions env names memory s) :
    Simulates module fn world bound s (e.eval world bound names memory) (Yields fn f f' pairs s value) := by
  match e with
  | .literal n =>
    cases run
    exact .pure ⟨follows.placed,.refl f s,Machine.holds_ofInt s n⟩
  | .var name =>
    exact readVariable_simulates sound named follows run carries
  | .binary left op right =>
    simp only [Expr.lower] at run
    obtain ⟨a,f₁,ranLeft,run⟩ := Attempt.bind_eq_ok.mp run
    obtain ⟨b,f₂,ranRight,run⟩ := Attempt.bind_eq_ok.mp run
    obtain ⟨above₁,sound₁,advance₁,known₁,type₁⟩ := (left.lower_sound signatures sound binds).ok ranLeft
    obtain ⟨above₂,sound₂,advance₂,known₂,type₂⟩ := (right.lower_sound signatures sound₁ (advance₁.binds binds)).ok ranRight
    obtain ⟨_,_,advance₃,_⟩ := (sound₂.arith op (advance₂.knows known₁) known₂ type₁ type₂ (fun _ _ => True)).ok run
    have carries₂ := carries.advance advance₃
    simp only [Expr.isCaptureFree,Bool.and_eq_true] at free
    simp only [Expr.calls] at provides
    simp only [Expr.mentions] at follows
    simp only [Expr.eval]
    refine .bind (left.lower_simulates named sound binds ranLeft (carries₂.advance advance₂) free.1
      (provides.mono (fun _ => List.mem_append_left _)) (follows.mono (fun _ => List.mem_append_left _)))
      (fun x memory₁ s₁ yields₁ => ?_)
    have follows₁ := follows.advance sound binds advance₁ yields₁.placed yields₁.keeps
    refine .bind (right.lower_simulates named sound₁ (advance₁.binds binds) ranRight carries₂ free.2
      (provides.mono (fun _ => List.mem_append_right _)) (follows₁.mono (fun _ => List.mem_append_right _)))
      (fun y memory₂ s₂ yields₂ => ?_)
    have holds := yields₁.holds.keep sound₁ known₁ yields₂.keeps
    refine (arith_simulates sound₂ named op yields₂.placed holds yields₂.holds run carries).mono ?_
    exact fun _ _ _ yields => (yields.after yields₂.keeps advance₂).after yields₁.keeps advance₁
  | .call callee args =>
    simp only [Expr.lower] at run
    obtain ⟨_,_,checked,run⟩ := Attempt.bind_eq_ok.mp run
    have declared : signatures.get? callee = some args.length := callable_eq_ok.mp (Prod.mk.inj checked).1
    cases (Prod.mk.inj checked).2
    obtain ⟨values,f₁,ranArgs,run⟩ := Attempt.bind_eq_ok.mp run
    obtain ⟨above₁,sound₁,advance₁,count,known₁⟩ := (args.lower_sound signatures sound binds).ok ranArgs
    obtain ⟨base,_,identified,emitted⟩ := Attempt.bind_eq_ok.mp run
    obtain ⟨rfl,rfl⟩ := (Build.identifier_meets callee f₁).ok identified
    cases (Build.emitNamed_run ..).symm.trans emitted
    obtain ⟨instrs,code,_⟩ := sound₁.current
    simp only [Expr.eval]
    refine .bind (args.lower_simulates named sound binds ranArgs (carries.appended (Frame.appended_emitted _ code _) rfl) free
      (provides.mono (fun _ => List.mem_cons_of_mem _)) follows) ?_
    rintro words memory₁ s₁ ⟨placed,keeps,hold⟩
    have provided : module.declares base words.length = true := by
      rw [← hold.length_eq,count]
      exact provides ⟨base,args.length⟩ List.mem_cons_self args.length declared
    exact (call_simulates sound₁ named placed hold provided carries).mono (fun _ _ _ yields => yields.after keeps advance₁)
  | .scope body =>
    simp only [Expr.lower] at run
    obtain ⟨⟨result,_⟩,f₁,ran,rest⟩ := Attempt.bind_eq_ok.mp run
    cases rest
    simp only [Expr.eval]
    exact body.lower_simulates named sound binds ran carries free provides follows
  | .loop cond body =>
    obtain ⟨rfl,loop,rfl⟩ := LoopRun.of_lower sound binds run
    simp only [Expr.isCaptureFree,Bool.and_eq_true,List.all_eq_true] at free
    simp only [Expr.calls] at provides
    have apart : ∀ name ∈ body.binders, name ∉ cond.mentions := by
      intro name binder mentioned
      simpa [mentioned] using free.2 name binder
    obtain ⟨carriesBefore,carriesOpened,carriesEnded,carriesLatch⟩ := loop.carries carries
    have ofCond := provides.mono (fun _ => List.mem_append_left _)
    have ofBody := provides.mono (fun _ => List.mem_append_right _)
    simp only [Expr.eval]
    refine .bind (loop.simulates apart named sound binds carries follows ?_ ?_ ?_) ?_
    · exact cond.lower_simulates named sound binds loop.ranFirst (carriesBefore.advance loop.compared_preheader) free.1.1 ofCond
        (follows.mono (fun _ => List.mem_append_left _))
    · intro memory' s' follows'
      exact body.lower_simulates named loop.opens.sound (loop.opens.binds (loop.advance_preheader.binds binds)) loop.ranBody
        carriesEnded free.1.2 ofBody follows'
    · intro memory' s' follows'
      exact cond.lower_simulates named loop.soundEnded loop.bindsEnded loop.ranAgain (carriesLatch.advance loop.compared_latch)
        free.1.1 ofCond follows'
    · intro _ memory' s' after
      exact .pure ⟨after.placed,after.keeps,Machine.holds_ofInt s' 0⟩

theorem Args.lower_simulates (named : fn.Named) (args : Args) {pending : List Text} {above : Text → List Text} {f f' : Frame} {env : Environment}
    {pairs : List (Nat × Nat)} {names : Names} {memory : Memory} {s : Machine} (sound : f.Sound signatures root pending above)
    (binds : f.Binds above env) {values : List Value} (run : args.lower signatures env f = (.ok values,f'))
    (carries : fn.Carries f'.function) (free : args.isCaptureFree = true) (provides : module.Provides signatures args.calls)
    (follows : Follows fn f pairs args.mentions env names memory s) :
    Simulates module fn world bound s (args.eval world bound names memory) (fun words memory' s' =>
      Placed fn f' pairs memory' s' ∧ Keeps f s s' ∧ values.Forall₂ (fun value w => s'.Holds value (.word w)) words) := by
  match args with
  | .nil =>
    cases run
    exact .pure ⟨follows.placed,.refl f s,.nil⟩
  | .cons first rest =>
    simp only [Args.lower] at run
    obtain ⟨value,f₁,ranFirst,run⟩ := Attempt.bind_eq_ok.mp run
    obtain ⟨others,f₂,ranRest,run⟩ := Attempt.bind_eq_ok.mp run
    cases run
    obtain ⟨above₁,sound₁,advance₁,known₁,_⟩ := (first.lower_sound signatures sound binds).ok ranFirst
    obtain ⟨above₂,_,advance₂,_⟩ := (rest.lower_sound signatures sound₁ (advance₁.binds binds)).ok ranRest
    simp only [Args.isCaptureFree,Bool.and_eq_true] at free
    simp only [Args.calls] at provides
    simp only [Args.mentions] at follows
    simp only [Args.eval]
    refine .bind (first.lower_simulates named sound binds ranFirst (carries.advance advance₂) free.1
      (provides.mono (fun _ => List.mem_append_left _)) (follows.mono (fun _ => List.mem_append_left _)))
      (fun w memory₁ s₁ yields₁ => ?_)
    have follows₁ := follows.advance sound binds advance₁ yields₁.placed yields₁.keeps
    refine .bind (rest.lower_simulates named sound₁ (advance₁.binds binds) ranRest carries free.2
      (provides.mono (fun _ => List.mem_append_right _)) (follows₁.mono (fun _ => List.mem_append_right _))) ?_
    rintro words memory₂ s₂ ⟨placed,keeps,hold⟩
    exact .pure ⟨placed,yields₁.keeps.trans advance₁ keeps,.cons (yields₁.holds.keep sound₁ known₁ keeps) hold⟩

theorem Stmt.lower_simulates (named : fn.Named) (first : Stmt) {pending : List Text} {above : Text → List Text} {f f' : Frame} {env : Environment}
    {pairs : List (Nat × Nat)} {names : Names} {memory : Memory} {s : Machine} {mentioned : List Text}
    (sound : f.Sound signatures root pending above) (binds : f.Binds above env) {env' : Environment}
    (run : first.lower signatures env f = (.ok env',f')) (carries : fn.Carries f'.function) (free : first.isCaptureFree = true)
    (provides : module.Provides signatures first.calls) (inside : ∀ name ∈ first.mentions, name ∈ mentioned)
    (follows : Follows fn f pairs mentioned env names memory s) :
    Simulates module fn world bound s (first.eval world bound names memory) (Leads fn f f' pairs mentioned env' s) := by
  match first with
  | .discard value =>
    simp only [Stmt.lower] at run
    obtain ⟨_,f₁,ran,run⟩ := Attempt.bind_eq_ok.mp run
    cases run
    obtain ⟨above₁,_,advance₁,_⟩ := (value.lower_sound signatures sound binds).ok ran
    simp only [Stmt.eval]
    refine .bind (value.lower_simulates named sound binds ran carries free provides (follows.mono inside)) (fun _ memory₁ s₁ yields => ?_)
    exact .pure ⟨pairs,fun _ paired => paired,follows.advance sound binds advance₁ yields.placed yields.keeps,yields.keeps⟩
  | .bindConst name value =>
    simp only [Stmt.lower] at run
    obtain ⟨constant,f₁,ran,run⟩ := Attempt.bind_eq_ok.mp run
    obtain ⟨above₁,_,advance₁,_⟩ := (value.lower_sound signatures sound binds).ok ran
    cases constant with
    | reg => cases run
    | const n =>
      cases run
      simp only [Stmt.eval]
      refine .bind (value.lower_simulates named sound binds ran carries free provides (follows.mono inside)) (fun w memory₁ s₁ yields => ?_)
      have follows₁ := follows.advance sound binds advance₁ yields.placed yields.keeps
      exact .pure ⟨pairs,fun _ paired => paired,⟨yields.placed,follows₁.pairing,follows₁.agrees.bind ⟨rfl,yields.holds⟩⟩,yields.keeps⟩
  | .bindMut name value =>
    simp only [Stmt.lower] at run
    obtain ⟨base,start,identified,rest⟩ := Attempt.bind_eq_ok.mp run
    obtain ⟨rfl,rfl⟩ := (Build.identifier_meets name f).ok identified
    obtain ⟨_,_,allocated,rest⟩ := Attempt.bind_eq_ok.mp rest
    cases (Build.allocate_run ..).symm.trans allocated
    obtain ⟨stored,f₂,ran,rest⟩ := Attempt.bind_eq_ok.mp rest
    obtain ⟨_,_,emitted,rest⟩ := Attempt.bind_eq_ok.mp rest
    cases (Build.emitUnnamed_run ..).symm.trans emitted
    cases rest
    obtain ⟨sound₁,advance₁,known₁⟩ := sound.allocated base
    obtain ⟨above₂,sound₂,advance₂,_⟩ := (value.lower_sound signatures sound₁ (advance₁.binds binds)).ok ran
    obtain ⟨instrs,code,_⟩ := sound₂.current
    have carries₂ := carries.appended (Frame.appended_emitted _ code _) rfl
    -- The cell has its place from the start of the function on.
    obtain ⟨placed₁,points,made⟩ := allocated_holds sound follows.placed (carries₂.advance advance₂)
    have follows₁ := follows.advance sound binds advance₁ placed₁ (.refl start s)
    simp only [Stmt.eval]
    refine .bind (value.lower_simulates named sound₁ (advance₁.binds binds) ran carries₂ free provides (follows₁.mono inside))
      (fun w memory₂ s₂ yields => ?_)
    have follows₂ := follows₁.advance sound₁ (advance₁.binds binds) advance₂ yields.placed yields.keeps
    have place : start.arena.cells.length < s₂.memory.length :=
      (yields.placed.cells _ _ (by rw [advance₂.entry]; exact made)).2
    have grown : start.arena.cells.length < f₂.arena.cells.length := by
      refine Nat.lt_of_lt_of_le ?_ advance₂.cells.length_le
      simp [Frame.allocated]
    obtain ⟨s₃,reaches,follows₃,registers⟩ := make_reaches sound₂ named base carries follows₂ yields.holds
      (points.keep sound₁ known₁ yields.keeps) place follows.pairing.allocated grown
    exact ⟨s₃,reaches,_,fun _ => List.mem_cons_of_mem _,follows₃,
      ((Keeps.refl start s).trans advance₁ yields.keeps).congr registers⟩
  | .assign name value =>
    simp only [Stmt.lower] at run
    obtain ⟨address,_,assigned,run⟩ := Attempt.bind_eq_ok.mp run
    cases (Prod.mk.inj assigned).2
    obtain ⟨stored,f₁,ran,run⟩ := Attempt.bind_eq_ok.mp run
    obtain ⟨above₁,sound₁,advance₁,_⟩ := (value.lower_sound signatures sound binds).ok ran
    obtain ⟨_,_,emitted,run⟩ := Attempt.bind_eq_ok.mp run
    cases (Build.emitUnnamed_run ..).symm.trans emitted
    cases run
    obtain ⟨instrs,code,_⟩ := sound₁.current
    simp only [Stmt.eval]
    refine .bind (value.lower_simulates named sound binds ran (carries.appended (Frame.appended_emitted _ code _) rfl) free provides
      (follows.mono (fun key member => inside key (List.mem_cons_of_mem _ member)))) (fun w memory₁ s₁ yields => ?_)
    have follows₁ := follows.advance sound binds advance₁ yields.placed yields.keeps
    refine .bind (write_simulates sound₁ named (Prod.mk.inj assigned).1 (inside name List.mem_cons_self) carries follows₁
      yields.holds) ?_
    rintro _ memory₂ s₂ ⟨follows₂,registers⟩
    exact .pure ⟨pairs,fun _ paired => paired,follows₂,yields.keeps.congr registers⟩

theorem Block.lower_simulates (named : fn.Named) (b : Block) {pending : List Text} {above : Text → List Text} {f f' : Frame} {env : Environment}
    {pairs : List (Nat × Nat)} {names : Names} {memory : Memory} {s : Machine} (sound : f.Sound signatures root pending above)
    (binds : f.Binds above env) {result : Value × Environment} (run : b.lower signatures env f = (.ok result,f'))
    (carries : fn.Carries f'.function) (free : b.isCaptureFree = true) (provides : module.Provides signatures b.calls)
    (follows : Follows fn f pairs b.mentions env names memory s) :
    Simulates module fn world bound s (b.eval world bound names memory) (Yields fn f f' pairs s result.1) := by
  match b with
  | .result value =>
    simp only [Block.lower] at run
    obtain ⟨_,_,ran,run⟩ := Attempt.bind_eq_ok.mp run
    cases run
    exact value.lower_simulates named sound binds ran carries free provides follows
  | .step first rest =>
    simp only [Block.lower] at run
    obtain ⟨env₁,f₁,ranFirst,ranRest⟩ := Attempt.bind_eq_ok.mp run
    obtain ⟨above₁,sound₁,advance₁,binds₁⟩ := (first.lower_sound signatures sound binds).ok ranFirst
    obtain ⟨above₂,_,advance₂,_⟩ := (rest.lower_sound signatures sound₁ binds₁).ok ranRest
    simp only [Block.isCaptureFree,Bool.and_eq_true] at free
    simp only [Block.calls] at provides
    simp only [Block.eval]
    refine .bind (first.lower_simulates named sound binds ranFirst (carries.advance advance₂) free.1
      (provides.mono (fun _ => List.mem_append_left _)) (fun _ => List.mem_append_left _) follows) ?_
    rintro names₁ memory₁ s₁ ⟨more,grown,follows₁,keeps₁⟩
    refine (rest.lower_simulates named sound₁ binds₁ ranRest carries free.2 (provides.mono (fun _ => List.mem_append_right _))
      (follows₁.mono (fun _ => List.mem_append_right _))).mono ?_
    exact fun _ _ _ yields => ⟨yields.placed.fewer grown,keeps₁.trans advance₁ yields.keeps,yields.holds⟩

end

end

theorem Program.lower_simulates {module : Module} {fn : Function} {world : World} {bound : Nat} {signatures : Table Nat}
    (named : fn.Named) (program : Program) {root : Text} {pending : List Text} {above : Text → List Text} {f f' : Frame}
    {memory : Memory} {s : Machine} (sound : f.Sound signatures root pending above) {value : Value}
    (run : program.subject.lowerProgram signatures .empty f = (.ok value,f')) (carries : fn.Carries f'.function)
    (free : program.isCaptureFree = true) (provides : module.Provides signatures program.node.calls)
    (placed : Placed fn f [] memory s) :
    Simulates module fn world bound s (program.eval world bound memory) (Yields fn f f' [] s value) := by
  have follows (mentioned : List Text) : Follows fn f [] mentioned .empty [] memory s :=
    ⟨placed,⟨by simp,by simp⟩,fun name _ binding bound => by simp at bound⟩
  cases program with
  | expr e => exact e.lower_simulates named sound (Frame.binds_empty _ _) run carries free provides (follows _)
  | block b =>
    obtain ⟨⟨result,_⟩,_,ran,rest⟩ := Attempt.bind_eq_ok.mp run
    cases rest
    exact b.lower_simulates named sound (Frame.binds_empty _ _) ran carries free provides (follows _)

/-! ### The start and the end of the function -/

section
variable {module : Module} {fn : Function} {world : World} {signatures : Table Nat} {root : Text}
variable {above above' : Text → List Text} {f f' : Frame}

/-- The cells are made one after the other. -/
theorem cells_reached (module : Module) (world : World) (named : fn.Named) {entry : Text} {names : List Text} {last : Instr}
    (code : fn.code? entry = some (names.map .alloca ++ [last])) {count : Nat} (le : count ≤ names.length) :
    ∃ s, Machine.Reaches module fn world (.start entry) s ∧ s.block = entry ∧ s.index = count ∧ s.memory.length = count ∧
      s.trace = [] ∧ ∀ index name, index < count → names[index]? = some name → s.registers name = some (.address index) := by
  have cellAt : ∀ index name, names[index]? = some name → fn.At entry index (.alloca name) := by
    intro index name found
    refine ⟨_,code,?_⟩
    have short : index < names.length := (List.getElem?_eq_some_iff.mp found).1
    rw [List.getElem?_append_left (by simpa using short),List.getElem?_map,found]
    rfl
  induction count with
  | zero => exact ⟨.start entry,.refl,rfl,rfl,rfl,rfl,fun _ _ less => absurd less (Nat.not_lt_zero _)⟩
  | succ count ih =>
    obtain ⟨s,reaches,block,index,size,trace,held⟩ := ih (Nat.le_of_succ_le le)
    have here := cellAt count names[count] (List.getElem?_eq_getElem le)
    let s' : Machine := { s.yield names[count] (.address s.memory.length) with memory := s.memory ++ [none] }
    have turn : s.execute module fn world (.alloca names[count]) = some (.next s') := rfl
    have found : fn.At s.block s.index (.alloca names[count]) := by rw [block,index]; exact here
    refine ⟨s',reaches.trans (Machine.Reaches.step found turn),block,congrArg (· + 1) index,by simp [s',size],trace,?_⟩
    intro position name less cell
    rcases Nat.eq_or_lt_of_le (Nat.le_of_lt_succ less) with rfl | earlier
    · rw [List.getElem?_eq_getElem le] at cell
      cases cell
      exact (if_pos rfl).trans (by rw [size])
    · have other : name ≠ names[count] := by
        rintro rfl
        have once := (named.resultOnce _ _ _ _ _ _ _ (cellAt position _ cell) here rfl rfl).2
        omega
      exact (if_neg other).trans (held position name earlier cell)
theorem Frame.Sound.carries_finished (sound : f.Sound signatures root [] above) (value : Value) :
    (f.finished value root).function.Carries f.function := by
  obtain ⟨_,_,_,_,returned,entered⟩ := sound.appended_finished value
  exact ((Function.Carries.refl _).appended entered rfl).appended returned rfl
/-- Once its cells have been made, the function goes to where its code begins. -/
theorem Frame.Sound.begins (sound : f.Sound signatures root [] above) (value : Value) (advance : Advance above' above f' f)
    (block : f'.block = root) (empty : f'.function.code? root = some []) :
    ∃ s, Machine.Reaches module (f.finished value root).function world (.start f.entry) s ∧
      Placed (f.finished value root).function f' [] ⟨[],[]⟩ s := by
  obtain ⟨_,names,_,_,_,entered⟩ := sound.appended_finished value
  obtain ⟨s,reaches,here,index,size,trace,held⟩ :=
    cells_reached module world (sound.named_finished value) entered.code_same (Nat.le_refl names.length)
  have found : (f.finished value root).function.At s.block s.index (.br root) := by
    rw [here,index]
    exact entered.at_iff.mpr (.inr ⟨rfl,by simp,rfl⟩)
  have turn : s.execute module (f.finished value root).function world (.br root) =
      some (.next { s with block := root, index := 0 }) := by
    simp [Machine.execute,Machine.enter_plain ((sound.carries_finished value).advance advance) empty]
  refine ⟨_,reaches.trans (Machine.Reaches.step found turn),⟨block.symm,?_,?_,trace,by simp⟩⟩
  · intro instrs code
    rw [block,empty] at code
    cases code
    rfl
  · intro position name alloca
    rw [← advance.entry] at alloca
    rcases entered.at_iff.mp alloca with cell | ⟨_,_,other⟩
    · obtain ⟨_,code,inside⟩ := cell
      rw [entered.before] at code
      cases code
      rw [List.getElem?_map] at inside
      obtain ⟨_,cell,same⟩ := Option.map_eq_some_iff.mp inside
      cases same
      have less : position < names.length := (List.getElem?_eq_some_iff.mp cell).1
      exact ⟨held position name less cell,size.symm ▸ less⟩
    · cases other
/-- At the end of its code the function returns. -/
theorem Frame.Sound.returns (sound : f.Sound signatures root [] above) {value : Value} {pairs : List (Nat × Nat)}
    {memory : Memory} {s : Machine} {w : Word} (placed : Placed (f.finished value root).function f pairs memory s)
    (holds : s.Holds value (.word w)) :
    Machine.run module (f.finished value root).function world 1 s = some (w,memory.trace) := by
  obtain ⟨instrs,_,_,code,returned,entered⟩ := sound.appended_finished value
  have found : (f.finished value root).function.At s.block s.index (.ret value) := by
    rw [placed.block,placed.index instrs code]
    exact entered.at_iff.mpr (.inl (returned.at_iff.mpr (.inr ⟨rfl,rfl,rfl⟩)))
  rw [Machine.run,Machine.step_of_at found]
  simp [Machine.execute,holds.word?,placed.trace]

end

namespace Draft

/-- Every function of the module but the entry function is outside. -/
theorem Holds.provides {options : Options} {others : List Function} {fn : Function} {draft : Draft}
    (holds : Holds options others fn draft) {sites : List CallSite} (outside : ∀ site ∈ sites, site.name ≠ options.entryName) :
    draft.module.Provides draft.signatures sites := by
  intro site member count known
  obtain ⟨callee,found,params⟩ := holds.inStep.found known
  have name : callee.name = site.name := by simpa using List.find?_some found
  have inside : callee ∈ others ++ [fn] := holds.functions ▸ List.mem_of_find?_eq_some found
  have declared : callee.blocks = [] := by
    rcases List.mem_append.mp inside with early | last
    · exact (holds.apart callee early).2
    · cases List.mem_singleton.mp last
      exact absurd (name.symm.trans holds.name) (outside site member)
  have lookup : draft.module.functions.find? (·.name = site.name) = some callee := found
  simp [Module.declares,lookup,params,Function.isDeclaration,declared]
theorem Holds.find?_entry {options : Options} {others : List Function} {fn : Function} {draft : Draft}
    (holds : Holds options others fn draft) : draft.module.functions.find? (·.name = options.entryName) = some fn := by
  have found := holds.entryFunction?
  rw [Draft.entryFunction?,holds.entry] at found
  exact found

end Draft

/-- For every program and options with which a module is built, if no loop of the program has a body that binds a
    name of its condition and the program does not call the entry function, then however the functions outside
    behave, the entry function returns a word after a sequence of calls if and only if the program does. -/
theorem build_preserves_meaning (program : Program) (options : Options) (draft : Draft)
    (built : Draft.build program.subject (.new options) = (.ok (),draft)) (free : program.isCaptureFree = true)
    (outside : ∀ site ∈ program.node.calls, site.name ≠ options.entryName) (world : World) (w : Word) (trace : List Event) :
    draft.module.Returns world options.entryName w trace ↔ program.Evaluates world w trace := by
  obtain ⟨before,others,value,f,_,lowered,gives,holds,same⟩ := Draft.build_eq_ok built
  have first := (Draft.finished_wellFormed gives).first
  obtain ⟨above,sound,advance,_,_⟩ := gives
  obtain ⟨sound₀,_,empty⟩ := Frame.initial_sound (Function.declare_blocks options.entryName 0) before.signatures before.points
    before.log (rfl : Draft.start options before = _)
  have provides : draft.module.Provides before.signatures program.node.calls := same ▸ holds.provides outside
  have simulates (bound : Nat) : Simulates draft.module (f.finished value (lit "start")).function world bound (.start f.entry)
      (program.eval world bound ⟨[],[]⟩)
      (fun w memory s => Machine.run draft.module (f.finished value (lit "start")).function world 1 s = some (w,memory.trace)) := by
    obtain ⟨s,reaches,placed⟩ := sound.begins value advance rfl empty
    refine .after reaches ?_
    refine (program.lower_simulates (sound.named_finished value) sound₀ lowered (sound.carries_finished value) free provides
      placed).mono ?_
    exact fun _ _ _ yields => sound.returns yields.placed yields.holds
  have entry : f.entry = lit "entry" := advance.entry
  rw [Program.Evaluates,← Simulates.returns_iff simulates,entry]
  constructor
  · rintro ⟨fn,label,steps,found,head,returned⟩
    cases holds.find?_entry.symm.trans found
    cases first.symm.trans head
    exact ⟨steps,returned⟩
  · rintro ⟨steps,returned⟩
    exact ⟨_,_,steps,holds.find?_entry,first,returned⟩

/-- A loop that takes from a cell what a function outside returns. -/
def draining : Program :=
  .block (.step (.bindMut (lit "n") (.literal 3))
    (.step (.discard (.loop (.var (lit "n"))
      (.step (.assign (lit "n") (.binary (.var (lit "n")) .sub (.call (lit "take") (.cons (.var (lit "n")) .nil))))
        (.result (.literal 0)))))
    (.result (.binary (.var (lit "n")) .add (.literal 7)))))
/-- If the function returns the number of calls so far, it is called twice, and the code returns what the program does. -/
theorem build_preserves_meaning_draining :
    ((Draft.build draining.subject (.new {})).1 = .ok () ∧ draining.isCaptureFree = true ∧
      ∀ site ∈ draining.node.calls, site.name ≠ ({} : Options).entryName) ∧
      (Draft.build draining.subject (.new {})).2.module.Returns (fun trace _ _ => .ofNat 32 (trace.length + 1))
        ({} : Options).entryName 7 [⟨lit "take",[3],1⟩,⟨lit "take",[2],2⟩] := by
  have built : (Draft.build draining.subject (.new {})).1 = .ok () := Attempt.eq_ok_of_isOk (by decide +kernel)
  have free : draining.isCaptureFree = true := by decide +kernel
  have outside : ∀ site ∈ draining.node.calls, site.name ≠ ({} : Options).entryName := by decide +kernel
  refine ⟨⟨built,free,outside⟩,?_⟩
  exact (build_preserves_meaning draining {} _ (Attempt.run_of_fst built) free outside _ 7 _).mpr ⟨9,[0],by decide +kernel⟩

end Lev
