import Lev.Proofs.Building
import Lev.Proofs.Rounds
import Mathlib.Data.List.Sort

/-!
The merge points of a build. A moment of lowering is what is lowered next, the environment in force and the
frame it starts from. A loop merges the names that its condition reads and that are in force when the loop is
met; its merge points are listed when it is finished, after those of the loops inside it. Main statement: the
merge points of a module that is built carry the names that the program foretells, in this order, and each of
them has its two edges, from the two ways into its block, which begins with the phis of its loop.
-/
namespace Lev
open Lev.Frame (Advance)

/-! ### Moments -/

/-- Something to be lowered. -/
inductive Task where
  | expr (e : Expr)
  | args (args : Args)
  | stmt (s : Stmt)
  | block (b : Block)

def Program.task : Program → Task
  | .expr e => .expr e
  | .block b => .block b

/-- What is lowered next, the environment in force and the frame that lowering starts from. -/
structure Moment where
  task : Task
  env : Environment
  frame : Frame

/-- Lowering at the first moment comes to the second, after what stands before it has been lowered. -/
inductive Moment.Leads (signatures : Table Nat) : Moment → Moment → Prop
  | left {left right : Expr} {op : Operator} {env : Environment} {f : Frame} :
      Leads signatures ⟨.expr (.binary left op right),env,f⟩ ⟨.expr left,env,f⟩
  | right {left right : Expr} {op : Operator} {env : Environment} {f f' : Frame} {value : Value}
      (ran : left.lower signatures env f = (.ok value,f')) :
      Leads signatures ⟨.expr (.binary left op right),env,f⟩ ⟨.expr right,env,f'⟩
  | args {callee : Text} {args : Args} {env : Environment} {f : Frame} (fits : callable signatures callee args.length = .ok ()) :
      Leads signatures ⟨.expr (.call callee args),env,f⟩ ⟨.args args,env,f⟩
  | firstArg {first : Expr} {rest : Args} {env : Environment} {f : Frame} :
      Leads signatures ⟨.args (.cons first rest),env,f⟩ ⟨.expr first,env,f⟩
  | laterArgs {first : Expr} {rest : Args} {env : Environment} {f f' : Frame} {value : Value}
      (ran : first.lower signatures env f = (.ok value,f')) :
      Leads signatures ⟨.args (.cons first rest),env,f⟩ ⟨.args rest,env,f'⟩
  | scope {body : Block} {env : Environment} {f : Frame} : Leads signatures ⟨.expr (.scope body),env,f⟩ ⟨.block body,env,f⟩
  | cond {cond : Expr} {body : Block} {env : Environment} {f : Frame} :
      Leads signatures ⟨.expr (.loop cond body),env,f⟩ ⟨.expr cond,env,f⟩
  | body {cond : Expr} {body : Block} {env : Environment} {f before opened : Frame} {first : Value} {points : List MergePoint}
      (ran : cond.lower signatures env f = (.ok first,before))
      (ranOpen : MergePoint.openFor cond.reads env (before.compared first).block
        ((before.compared first).branched before.comparison) = (.ok points,opened)) :
      Leads signatures ⟨.expr (.loop cond body),env,f⟩ ⟨.block body,MergePoint.bindAll env points,opened⟩
  | again {cond : Expr} {body : Block} {env after : Environment} {f before opened ended : Frame} {first value : Value}
      {points : List MergePoint} (ran : cond.lower signatures env f = (.ok first,before))
      (ranOpen : MergePoint.openFor cond.reads env (before.compared first).block
        ((before.compared first).branched before.comparison) = (.ok points,opened))
      (ranBody : body.lower signatures (MergePoint.bindAll env points) opened = (.ok (value,after),ended)) :
      Leads signatures ⟨.expr (.loop cond body),env,f⟩ ⟨.expr cond,after,ended⟩
  | discard {value : Expr} {env : Environment} {f : Frame} : Leads signatures ⟨.stmt (.discard value),env,f⟩ ⟨.expr value,env,f⟩
  | bindConst {name : Text} {value : Expr} {env : Environment} {f : Frame} :
      Leads signatures ⟨.stmt (.bindConst name value),env,f⟩ ⟨.expr value,env,f⟩
  | bindMut {name : Text} {value : Expr} {env : Environment} {f : Frame} (carried : Identifier.error? name = none) :
      Leads signatures ⟨.stmt (.bindMut name value),env,f⟩ ⟨.expr value,env,f.allocated name⟩
  | assign {name : Text} {value : Expr} {env : Environment} {f : Frame} {address : Value}
      (found : env.assignable name = .ok address) : Leads signatures ⟨.stmt (.assign name value),env,f⟩ ⟨.expr value,env,f⟩
  | result {value : Expr} {env : Environment} {f : Frame} : Leads signatures ⟨.block (.result value),env,f⟩ ⟨.expr value,env,f⟩
  | first {first : Stmt} {rest : Block} {env : Environment} {f : Frame} :
      Leads signatures ⟨.block (.step first rest),env,f⟩ ⟨.stmt first,env,f⟩
  | rest {first : Stmt} {rest : Block} {env env' : Environment} {f f' : Frame}
      (ran : first.lower signatures env f = (.ok env',f')) :
      Leads signatures ⟨.block (.step first rest),env,f⟩ ⟨.block rest,env',f'⟩

/-- Lowering the loop of the first moment comes to the second inside of the loop, where its merge points stand for their names:
    to the body, and to the condition once more. -/
inductive Moment.Enters (signatures : Table Nat) (points : List MergePoint) : Moment → Moment → Prop
  | body {cond : Expr} {body : Block} {env : Environment} {f before opened : Frame} {first : Value}
      (ran : cond.lower signatures env f = (.ok first,before))
      (ranOpen : MergePoint.openFor cond.reads env (before.compared first).block
        ((before.compared first).branched before.comparison) = (.ok points,opened)) :
      Enters signatures points ⟨.expr (.loop cond body),env,f⟩ ⟨.block body,MergePoint.bindAll env points,opened⟩
  | again {cond : Expr} {body : Block} {env after : Environment} {f before opened ended : Frame} {first value : Value}
      (ran : cond.lower signatures env f = (.ok first,before))
      (ranOpen : MergePoint.openFor cond.reads env (before.compared first).block
        ((before.compared first).branched before.comparison) = (.ok points,opened))
      (ranBody : body.lower signatures (MergePoint.bindAll env points) opened = (.ok (value,after),ended)) :
      Enters signatures points ⟨.expr (.loop cond body),env,f⟩ ⟨.expr cond,after,ended⟩

/-- The moments of building a program, given the signatures that were declared for it. -/
def Program.Passes (program : Program) (options : Options) (signatures : Table Nat) (moment : Moment) : Prop :=
  ∃ log, Relation.ReflTransGen (Moment.Leads signatures)
    ⟨program.task,.empty,.initial (.declare options.entryName 0) [] log⟩ moment

/-! ### The names that loops merge -/

/-- Those of the names read that are in force, each once, in the order of their code points. -/
def merged (reads inForce : List Text) : List Text :=
  (reads.filter (· ∈ inForce)).eraseDups.insertionSort fun s t => Text.compare s t ≠ .gt

mutual

/-- The names of the merge points that an expression makes where the given names are in force. -/
def Expr.merges : Expr → List Text → List Text
  | .literal _, _ => []
  | .var _, _ => []
  | .binary left _ right, inForce => left.merges inForce ++ right.merges inForce
  | .call _ args, inForce => args.merges inForce
  | .scope body, inForce => body.merges inForce
  | .loop cond body, inForce =>
    cond.merges inForce ++ body.merges inForce ++ cond.merges (body.binders ++ inForce) ++ merged cond.reads inForce

def Args.merges : Args → List Text → List Text
  | .nil, _ => []
  | .cons first rest, inForce => first.merges inForce ++ rest.merges inForce

def Stmt.merges : Stmt → List Text → List Text
  | .discard value, inForce => value.merges inForce
  | .bindConst _ value, inForce => value.merges inForce
  | .bindMut _ value, inForce => value.merges inForce
  | .assign _ value, inForce => value.merges inForce

def Block.merges : Block → List Text → List Text
  | .result value, inForce => value.merges inForce
  | .step first rest, inForce => first.merges inForce ++ rest.merges (first.binder?.toList ++ inForce)

end

def Program.merges : Program → List Text
  | .expr e => e.merges []
  | .block b => b.merges []

namespace Text

theorem gt_of_compare_lt {s t : Text} (less : compare s t = .lt) : compare t s = .gt := by
  cases order : compare t s with
  | gt => rfl
  | eq =>
    rw [eq_of_compare_eq order,compare_self] at less
    cases less
  | lt =>
    have cycle := compare_lt_trans less order
    rw [compare_self] at cycle
    cases cycle
theorem compare_antisymm {s t : Text} (one : compare s t ≠ .gt) (other : compare t s ≠ .gt) : s = t := by
  cases order : compare s t with
  | lt => exact absurd (gt_of_compare_lt order) other
  | eq => exact eq_of_compare_eq order
  | gt => exact absurd order one

instance : Std.Total fun s t : Text => compare s t ≠ .gt where
  total s t := by
    cases order : compare s t with
    | lt => exact .inl (by simp)
    | eq => exact .inl (by simp)
    | gt => exact .inr (by simp [lt_of_compare_gt order])
instance : IsTrans Text fun s t => compare s t ≠ .gt where
  trans s t u first second := by
    cases order : compare s t with
    | lt =>
      cases order' : compare t u with
      | lt => simp [compare_lt_trans order order']
      | eq => simpa [← eq_of_compare_eq order'] using first
      | gt => exact absurd order' second
    | eq => simpa [eq_of_compare_eq order] using second
    | gt => exact absurd order first

end Text

/-! ### The names in force -/

/-- The environment binds the given names and no others. -/
def Environment.InForce (env : Environment) (names : List Text) : Prop := ∀ name, (env.lookup? name).isSome ↔ name ∈ names

section
variable {signatures : Table Nat} {env env' : Environment} {names : List Text} {f f' : Frame}

/-- The names that a loop opens merge points for are those that it merges. -/
theorem Environment.InForce.merged_eq (inForce : env.InForce names) (reads : List Text) :
    (Text.sortDistinct reads).filter (fun name => (env.lookup? name).isSome) = merged reads names := by
  have increasing : ((Text.sortDistinct reads).filter fun name => (env.lookup? name).isSome).Pairwise fun s t => Text.compare s t ≠ .gt := by
    refine ((Text.sortDistinct_pairwise reads).filter _).imp (fun {s t} less => ?_)
    rw [less]
    exact fun same => by cases same
  have increasing' : (merged reads names).Pairwise fun s t => Text.compare s t ≠ .gt := List.pairwise_insertionSort _ _
  have distinct : (merged reads names).Nodup := (List.perm_insertionSort _ _).nodup_iff.mpr (Text.nodup_eraseDups _)
  refine List.Perm.eq_of_pairwise (fun _ _ _ _ => Text.compare_antisymm) increasing increasing' ?_
  refine (List.perm_ext_iff_of_nodup ((Text.sortDistinct_nodup reads).filter _) distinct).mpr (fun name => ?_)
  simp only [merged,List.mem_filter,Text.mem_sortDistinct_iff,List.mem_insertionSort,List.mem_eraseDups,decide_eq_true_eq,inForce name]
theorem Environment.InForce.bind (inForce : env.InForce names) (name : Text) (value : Value) (levity : Levity) :
    (env.bind name value levity).InForce (name :: names) := by
  intro other
  rw [Environment.lookup?_bind,List.mem_cons]
  by_cases same : other = name
  · simp [same]
  · simpa [same] using inForce other
theorem Environment.InForce.bindAll (inForce : env.InForce names) {points : List MergePoint}
    (bound : ∀ point ∈ points, point.name ∈ names) : (MergePoint.bindAll env points).InForce names := by
  induction points generalizing env with
  | nil => exact inForce
  | cons point rest ih =>
    refine ih ?_ (fun other member => bound other (List.mem_cons_of_mem _ member))
    intro name
    have inside := bound point List.mem_cons_self
    rw [inForce.bind point.name point.value point.levity name,List.mem_cons]
    constructor
    · rintro (rfl | old)
      · exact inside
      · exact old
    · exact .inr
/-- A statement brings the name that it binds into force. -/
theorem Stmt.inForce_lower {s : Stmt} (inForce : env.InForce names) (run : s.lower signatures env f = (.ok env',f')) :
    env'.InForce (s.binder?.toList ++ names) := by
  cases s with
  | discard value =>
    obtain ⟨_,_,_,rest⟩ := Attempt.bind_eq_ok.mp run
    cases rest
    exact inForce
  | bindConst name value =>
    obtain ⟨bound,_,_,rest⟩ := Attempt.bind_eq_ok.mp run
    cases bound with
    | reg => cases rest
    | const n =>
      cases rest
      exact inForce.bind name _ _
  | bindMut name value =>
    obtain ⟨_,_,_,rest⟩ := Attempt.bind_eq_ok.mp run
    obtain ⟨_,_,_,rest⟩ := Attempt.bind_eq_ok.mp rest
    obtain ⟨_,_,_,rest⟩ := Attempt.bind_eq_ok.mp rest
    obtain ⟨_,_,_,rest⟩ := Attempt.bind_eq_ok.mp rest
    cases rest
    exact inForce.bind name _ _
  | assign name value =>
    obtain ⟨_,_,_,rest⟩ := Attempt.bind_eq_ok.mp run
    obtain ⟨_,_,_,rest⟩ := Attempt.bind_eq_ok.mp rest
    obtain ⟨_,_,_,rest⟩ := Attempt.bind_eq_ok.mp rest
    cases rest
    exact inForce

end

theorem Block.inForce_lower {signatures : Table Nat} {b : Block} {env env' : Environment} {names : List Text} {value : Value}
    {f f' : Frame} (inForce : env.InForce names) (run : b.lower signatures env f = (.ok (value,env'),f')) : env'.InForce (b.binders ++ names) := by
  match b with
  | .result e =>
    obtain ⟨_,_,_,rest⟩ := Attempt.bind_eq_ok.mp run
    cases rest
    exact inForce
  | .step first rest =>
    obtain ⟨env₁,f₁,ranFirst,ranRest⟩ := Attempt.bind_eq_ok.mp run
    have later := Block.inForce_lower (Stmt.inForce_lower inForce ranFirst) ranRest
    intro name
    rw [later name,Block.binders_step]
    simp only [List.mem_append]
    tauto

/-! ### Finished loops -/

/-- A loop that was lowered from the given moment on: its merge points, the blocks that meet at its header, and
    the environment that its body left. -/
structure Merge where
  cond : Expr
  body : Block
  env : Environment
  frame : Frame
  points : List MergePoint
  header : Text
  preheader : Text
  latch : Text
  after : Environment

namespace Merge

/-- The moment that the loop was lowered from. -/
def moment (merge : Merge) : Moment := ⟨.expr (.loop merge.cond merge.body),merge.env,merge.frame⟩
/-- The phi of a merge point. -/
def phi (merge : Merge) (point : MergePoint) : Instr :=
  .phi point.phi point.type [(point.initial merge.env,merge.preheader),(point.carried merge.after,merge.latch)]

/-- The header begins with the phis of the loop, which are all of its phis, and is entered from two blocks. -/
structure Settled (merge : Merge) (fn : Function) : Prop where
  code : ∃ rest, fn.code? merge.header = some (merge.points.map merge.phi ++ rest) ∧ ∀ instr ∈ rest, instr.isPhi = false
  ways : ∀ source, fn.Edge source merge.header ↔ source = merge.preheader ∨ source = merge.latch
  apart : merge.preheader ≠ merge.latch

/-- What the merge points are opened and closed with. -/
structure Closes (signatures : Table Nat) (merge : Merge) : Prop where
  entered : ∃ points ended, Moment.Enters signatures points merge.moment ⟨.expr merge.cond,merge.after,ended⟩ ∧
    merge.points = points.map (MergePoint.closed merge.latch)
  names : merge.points.map MergePoint.name =
    (Text.sortDistinct merge.cond.reads).filter fun name => (merge.env.lookup? name).isSome
  bound : ∀ point ∈ merge.points, ∃ binding, merge.env.lookup? point.name = some binding
  edges : ∀ point ∈ merge.points, point.preheader = merge.preheader ∧ point.latch = some merge.latch

variable {merge : Merge}

theorem Settled.header_mem {fn : Function} (settled : merge.Settled fn) : merge.header ∈ fn.labels := by
  obtain ⟨rest,code,_⟩ := settled.code
  exact Function.mem_labels_iff.mpr ⟨_,code⟩
/-- What is filled later leaves the loop as it is. -/
theorem Settled.advance {above above' : Text → List Text} {f f' : Frame} (settled : merge.Settled f.function)
    (advance : Advance above above' f f') : merge.Settled f'.function := by
  obtain ⟨rest,code,plain⟩ := settled.code
  obtain ⟨added,later,plain',_⟩ := advance.code _ _ code
  refine ⟨⟨rest ++ added,by rw [later,List.append_assoc],?_⟩,?_,settled.apart⟩
  · intro instr member
    rcases List.mem_append.mp member with old | new
    · exact plain instr old
    · exact plain' instr new
  · exact fun source => (advance.ways source _ settled.header_mem).trans (settled.ways source)
/-- Phis at the start of a block stay there if another instruction comes to the end of a block. -/
theorem code_appended {fn after : Function} {label place : Text} {instrs start : List Instr} {instr : Instr}
    (added : Function.Appended fn after label instrs instr) (plain : instr.isPhi = false)
    (code : ∃ rest, fn.code? place = some (start ++ rest) ∧ ∀ instr ∈ rest, instr.isPhi = false) :
    ∃ rest, after.code? place = some (start ++ rest) ∧ ∀ instr ∈ rest, instr.isPhi = false := by
  obtain ⟨rest,code,following⟩ := code
  by_cases same : place = label
  · have before := added.before
    rw [← same,code] at before
    cases before
    refine ⟨rest ++ [instr],by rw [same,added.code_same,List.append_assoc],?_⟩
    intro other member
    rcases List.mem_append.mp member with old | new
    · exact following other old
    · exact List.mem_singleton.mp new ▸ plain
  · exact ⟨rest,(added.code_other same).trans code,following⟩
theorem Settled.appended {fn after : Function} {label : Text} {instrs : List Instr} {instr : Instr} (settled : merge.Settled fn)
    (added : Function.Appended fn after label instrs instr) (plain : instr.isPhi = false) (elsewhere : merge.header ∉ instr.targets) :
    merge.Settled after := by
  refine ⟨code_appended added plain settled.code,?_,settled.apart⟩
  intro source
  rw [added.edge_iff,settled.ways source]
  simp [elsewhere]

end Merge

namespace LoopRun
variable {signatures : Table Nat} {root : Text} {pending : List Text} {above : Text → List Text} {cond : Expr}
variable {body : Block} {env : Environment} {f : Frame} (loop : LoopRun signatures root pending above cond body env f)

/-- The loop as a finished one. -/
def merge : Merge :=
  ⟨cond,body,env,f,loop.points.map (MergePoint.closed loop.latch.block),loop.preheader.header,loop.preheader.block,
    loop.latch.block,loop.after⟩

theorem closes : loop.merge.Closes signatures where
  entered := ⟨loop.points,loop.ended,.again loop.ranFirst loop.ranOpen loop.ranBody,rfl⟩
  names := List.map_map.trans loop.opens.names
  bound point member := by
    obtain ⟨opened,inside,rfl⟩ := List.mem_map.mp member
    obtain ⟨binding,stands⟩ := loop.opens.bindings opened inside
    exact ⟨binding,stands.bound⟩
  edges point member := by
    obtain ⟨opened,inside,rfl⟩ := List.mem_map.mp member
    obtain ⟨binding,stands⟩ := loop.opens.bindings opened inside
    exact ⟨stands.preheader,rfl⟩
/-- The phis of the loop after their edges from the latch have been added. -/
theorem latched_phis :
    (loop.points.map (MergePoint.opening env)).map (MergePoint.latchInstr loop.after loop.latch.block loop.points) =
      loop.merge.points.map loop.merge.phi := by
  rw [merge,List.map_map,List.map_map]
  refine List.map_congr_left (fun point member => ?_)
  obtain ⟨binding,stands⟩ := loop.opens.bindings point member
  have distinct := loop.looping.phis_nodup loop.sound_latch.named
  have latched := MergePoint.latchInstr_phi loop.after loop.latch.block distinct member point.type
    [(point.initial env,point.preheader)]
  refine latched.trans ?_
  rw [stands.preheader]
  rfl
/-- Everything else is left as it is by the edges from the latch. -/
theorem latched_others {label : Text} {instrs : List Instr} {others : List Instr} (code : loop.latch.function.code? label = some instrs)
    (inside : ∀ instr ∈ others, instr ∈ instrs) (other : label ≠ loop.preheader.header ∨ ∀ instr ∈ others, instr.isPhi = false) :
    others.map (MergePoint.latchInstr loop.after loop.latch.block loop.points) = others := by
  refine (List.map_congr_left (fun instr member => ?_)).trans (List.map_id others)
  obtain ⟨index,found⟩ := Function.At.of_mem code (inside instr member)
  exact loop.looping.latchInstr_eq loop.sound_latch.named _ found (other.imp id (fun plain => plain instr member))
theorem settled_done : loop.merge.Settled loop.done.function := by
  obtain ⟨rest,code,plain⟩ := loop.looping.code
  obtain ⟨instrs,here,_⟩ := loop.sound_latch.current
  have patched := MergePoint.patched_latchAll loop.after loop.latch.block loop.points loop.latch.function
  refine ⟨Merge.code_appended (Frame.appended_looped here loop.log) rfl ⟨rest,?_,plain⟩,?_,?_⟩
  · show (MergePoint.latchAll loop.after loop.latch.block loop.points loop.latch.function).code? loop.preheader.header = _
    rw [patched.code,code,Option.map_some,List.map_append,loop.latched_phis,
      loop.latched_others code (fun _ => List.mem_append_right _) (.inr plain)]
  · intro source
    have ways := Frame.edge_looped loop.sound_latch loop.after loop.points loop.last.comparison loop.preheader.header loop.log source
      loop.preheader.header
    rw [loop.looping.ways source] at ways
    refine ways.trans ?_
    simp [merge]
  · intro same
    have moved : loop.merge.latch ∉ loop.preheader.function.labels := loop.looping.moved
    exact moved (same ▸ loop.looping.outside.1)
/-- Loops inside the loop stay as they are when it is finished. -/
theorem settled_inner {merge : Merge} (settled : merge.Settled loop.latch.function) (inner : merge.header ∉ loop.opened.function.labels) :
    merge.Settled loop.done.function := by
  have notHeader : merge.header ≠ loop.preheader.header := by
    intro same
    exact inner (same ▸ Function.mem_labels_iff.mpr ⟨_,loop.opens.code⟩)
  have notExit : merge.header ≠ loop.preheader.exit := fun same => inner (same ▸ loop.opens.looping.exitLabel)
  obtain ⟨rest,code,plain⟩ := settled.code
  obtain ⟨instrs,here,_⟩ := loop.sound_latch.current
  have patched := MergePoint.patched_latchAll loop.after loop.latch.block loop.points loop.latch.function
  refine ⟨Merge.code_appended (Frame.appended_looped here loop.log) rfl ⟨rest,?_,plain⟩,?_,settled.apart⟩
  · rw [patched.code,code,Option.map_some,loop.latched_others code (fun _ member => member) (.inl notHeader)]
  · intro source
    have ways := Frame.edge_looped loop.sound_latch loop.after loop.points loop.last.comparison loop.preheader.header loop.log source
      merge.header
    rw [settled.ways source] at ways
    refine ways.trans ?_
    simp [notHeader,notExit]

end LoopRun

/-! ### Collecting loops -/

/-- Between the frames, and from the moment on, loops were finished whose merge points carry the given names. -/
def Gathers (signatures : Table Nat) (start : Moment) (f f' : Frame) (names : List Text) : Prop :=
  ∃ merges : List Merge, f'.points = f.points ++ merges.flatMap Merge.points ∧
    merges.flatMap (fun merge => merge.points.map MergePoint.name) = names ∧
    ∀ merge ∈ merges, merge.Closes signatures ∧ merge.Settled f'.function ∧ merge.header ∉ f.function.labels ∧
      Relation.ReflTransGen (Moment.Leads signatures) start merge.moment

namespace Gathers
variable {signatures : Table Nat} {start start' : Moment} {above above' : Text → List Text} {f f₁ f₂ : Frame} {names more : List Text}

theorem none (same : f₁.points = f.points) : Gathers signatures start f f₁ [] := ⟨[],by simp [same],rfl,by simp⟩
/-- Loops that are met on the way of a later moment are met on the way of an earlier one. -/
theorem lead (leads : start.Leads signatures start') (gathers : Gathers signatures start' f f₁ names) :
    Gathers signatures start f f₁ names := by
  obtain ⟨merges,points,carried,each⟩ := gathers
  refine ⟨merges,points,carried,fun merge member => ?_⟩
  obtain ⟨closes,settled,fresh,way⟩ := each merge member
  exact ⟨closes,settled,fresh,.head leads way⟩
/-- Filling that finishes no loop may follow. -/
theorem further (gathers : Gathers signatures start f f₁ names) (advance : Advance above above' f₁ f₂) (same : f₂.points = f₁.points) :
    Gathers signatures start f f₂ names := by
  obtain ⟨merges,points,carried,each⟩ := gathers
  refine ⟨merges,same.trans points,carried,fun merge member => ?_⟩
  obtain ⟨closes,settled,fresh,way⟩ := each merge member
  exact ⟨closes,settled.advance advance,fresh,way⟩
/-- Filling that finishes no loop may come before. -/
theorem since (gathers : Gathers signatures start f₁ f₂ names) (advance : Advance above above' f f₁) (same : f₁.points = f.points) :
    Gathers signatures start f f₂ names := by
  obtain ⟨merges,points,carried,each⟩ := gathers
  refine ⟨merges,by rw [points,same],carried,fun merge member => ?_⟩
  obtain ⟨closes,settled,fresh,way⟩ := each merge member
  exact ⟨closes,settled,fun old => fresh (advance.labels old),way⟩
theorem append {above₁ above₂ : Text → List Text} (first : Gathers signatures start f f₁ names) (advance : Advance above above₁ f f₁)
    (second : Gathers signatures start f₁ f₂ more) (advance' : Advance above₁ above₂ f₁ f₂) :
    Gathers signatures start f f₂ (names ++ more) := by
  obtain ⟨merges,points,carried,each⟩ := first
  obtain ⟨later,points',carried',each'⟩ := second
  refine ⟨merges ++ later,?_,?_,?_⟩
  · rw [points',points,List.flatMap_append,List.append_assoc]
  · rw [List.flatMap_append,carried,carried']
  · intro merge member
    rcases List.mem_append.mp member with early | late
    · obtain ⟨closes,settled,fresh,way⟩ := each merge early
      exact ⟨closes,settled.advance advance',fresh,way⟩
    · obtain ⟨closes,settled,fresh,way⟩ := each' merge late
      exact ⟨closes,settled,fun old => fresh (advance.labels old),way⟩

/-- An instruction that stays in its block finishes no loop. -/
theorem emitted {root : Text} {pending : List Text} (gathers : Gathers signatures start f f₁ names)
    (sound : f₁.Sound signatures root pending above) (base : Text) {instr : Instr} (plain : instr.isPhi = false)
    (stays : instr.isTerminator = false) : Gathers signatures start f (f₁.emitted base instr) names := by
  obtain ⟨merges,points,carried,each⟩ := gathers
  obtain ⟨instrs,code,_⟩ := sound.current
  refine ⟨merges,points,carried,fun merge member => ?_⟩
  obtain ⟨closes,settled,fresh,way⟩ := each merge member
  refine ⟨closes,settled.appended (Frame.appended_emitted base code instr) plain ?_,fresh,way⟩
  simp [Instr.targets_eq_nil stays]
theorem arith {root : Text} {pending : List Text} (gathers : Gathers signatures start f f₁ names)
    (sound : f₁.Sound signatures root pending above) {op : Operator} {left right value : Value}
    (run : Build.arith op left right f₁ = (.ok value,f₂)) : Gathers signatures start f f₂ names := by
  unfold Build.arith at run
  cases folded : op.folded? left right with
  | some n =>
    rw [folded] at run
    cases run
    exact gathers
  | none =>
    rw [folded] at run
    cases (Build.emitNamed_run ..).symm.trans run
    exact gathers.emitted sound op.base rfl rfl

end Gathers

section
variable {f f' : Frame}

theorem Build.readVariable_points {env : Environment} {name : Text} {value : Value} (run : readVariable env name f = (.ok value,f')) :
    f'.points = f.points := by
  obtain ⟨binding,f₁,resolved,run⟩ := Attempt.bind_eq_ok.mp run
  cases (Prod.mk.inj resolved).2
  split at run
  · cases (Build.emitNamed_run ..).symm.trans run
    rfl
  · cases run
    rfl
theorem Build.identifier_eq_ok {name base : Text} (run : identifier name f = (.ok base,f')) :
    base = name ∧ f' = f ∧ Identifier.error? name = none := by
  unfold identifier at run
  cases failed : Identifier.error? name with
  | some error =>
    rw [failed] at run
    cases run
  | none =>
    rw [failed] at run
    cases run
    exact ⟨rfl,rfl,rfl⟩

end

/-- Opening merge points finishes no loop. -/
theorem MergePoint.openAll_points {env : Environment} {preheader : Text} {names : List Text} {f f' : Frame} {points : List MergePoint}
    (run : openAll env preheader names f = (.ok points,f')) : f'.points = f.points := by
  induction names generalizing f points with
  | nil =>
    cases run
    rfl
  | cons name rest ih =>
    rw [openAll] at run
    cases bound : env.lookup? name with
    | none =>
      rw [bound] at run
      exact ih run
    | some binding =>
      rw [bound] at run
      obtain ⟨base,f₁,ranName,later⟩ := Attempt.bind_eq_ok.mp run
      obtain ⟨_,kept,_⟩ := Build.identifier_eq_ok ranName
      subst kept
      obtain ⟨phi,f₂,ranRegister,later⟩ := Attempt.bind_eq_ok.mp later
      cases ranRegister
      obtain ⟨_,f₃,ranEmit,later⟩ := Attempt.bind_eq_ok.mp later
      cases ranEmit
      obtain ⟨more,f₄,ranRest,later⟩ := Attempt.bind_eq_ok.mp later
      cases later
      have same := ih ranRest
      exact same
theorem MergePoint.openFor_points {env : Environment} {preheader : Text} {reads : List Text} {f f' : Frame} {points : List MergePoint}
    (run : openFor reads env preheader f = (.ok points,f')) : f'.points = f.points := by
  obtain ⟨opened,f₁,ranAll,run⟩ := Attempt.bind_eq_ok.mp run
  have same := openAll_points ranAll
  split at run
  · cases run
    exact same
  · obtain ⟨block,_,ranBlock,run⟩ := Attempt.bind_eq_ok.mp run
    cases ranBlock
    obtain ⟨_,_,ranNote,run⟩ := Attempt.bind_eq_ok.mp run
    cases ranNote
    cases run
    exact same

/-- A loop gathers what its parts gather, and then its own merge points. -/
theorem LoopRun.gathers {signatures : Table Nat} {root : Text} {pending : List Text} {above : Text → List Text} {cond : Expr}
    {body : Block} {env : Environment} {f : Frame} (loop : LoopRun signatures root pending above cond body env f) {names : List Text}
    (inForce : env.InForce names) (first : Gathers signatures ⟨.expr cond,env,f⟩ f loop.before (cond.merges names))
    (through : Gathers signatures ⟨.block body,MergePoint.bindAll env loop.points,loop.opened⟩ loop.opened loop.ended
      (body.merges names))
    (again : Gathers signatures ⟨.expr cond,loop.after,loop.ended⟩ loop.ended loop.last (cond.merges (body.binders ++ names))) :
    Gathers signatures ⟨.expr (.loop cond body),env,f⟩ f loop.done ((Expr.loop cond body).merges names) := by
  have opened : loop.opened.points = loop.preheader.points := by
    have same := MergePoint.openFor_points loop.ranOpen
    exact same
  have toOpened : Advance above loop.aboveOpened f loop.opened := loop.advance_preheader.trans loop.opens.looping.advance
  have body' := through.lead (.body loop.ranFirst loop.ranOpen)
  have again' := again.lead (.again loop.ranFirst loop.ranOpen loop.ranBody)
  have inside := (body'.append loop.advanceEnded again' loop.advanceLast).further loop.compared_latch rfl
  obtain ⟨merges,points,carried,each⟩ := (first.lead .cond).further loop.compared_preheader rfl
  obtain ⟨inner,points',carried',each'⟩ := inside
  refine ⟨merges ++ inner ++ [loop.merge],?_,?_,?_⟩
  · have last : loop.done.points = loop.latch.points ++ loop.merge.points := rfl
    rw [last,points',opened,points]
    simp
  · have own : loop.merge.points.map MergePoint.name = merged cond.reads names :=
      loop.closes.names.trans (inForce.merged_eq cond.reads)
    simp only [List.flatMap_append,carried,carried',List.flatMap_singleton,own,Expr.merges,List.append_assoc]
  · intro merge member
    simp only [List.mem_append,List.mem_singleton] at member
    rcases member with (early | late) | rfl
    · obtain ⟨closes,settled,fresh,way⟩ := each merge early
      exact ⟨closes,settled.advance loop.advance_done,fresh,way⟩
    · obtain ⟨closes,settled,fresh,way⟩ := each' merge late
      exact ⟨closes,loop.settled_inner settled fresh,fun old => fresh (toOpened.labels old),way⟩
    · exact ⟨loop.closes,loop.settled_done,fun old => loop.looping.fresh.1 (loop.advance_preheader.labels old),.refl⟩

mutual

/-- What lowering an expression adds to the merge points. -/
theorem Expr.lower_gathers (signatures : Table Nat) (e : Expr) {root : Text} {pending : List Text} {above : Text → List Text}
    {f f' : Frame} (sound : f.Sound signatures root pending above) {env : Environment} (binds : f.Binds above env) {names : List Text}
    (inForce : env.InForce names) {value : Value} (run : e.lower signatures env f = (.ok value,f')) :
    Gathers signatures ⟨.expr e,env,f⟩ f f' (e.merges names) := by
  match e with
  | .literal n =>
    cases run
    exact .none rfl
  | .var name =>
    simp only [Expr.lower] at run
    exact .none (Build.readVariable_points run)
  | .binary left op right =>
    simp only [Expr.lower] at run
    obtain ⟨a,f₁,ranLeft,later⟩ := Attempt.bind_eq_ok.mp run
    obtain ⟨b,f₂,ranRight,last⟩ := Attempt.bind_eq_ok.mp later
    obtain ⟨above₁,sound₁,advance₁,_⟩ := (left.lower_sound signatures sound binds).ok ranLeft
    obtain ⟨above₂,sound₂,advance₂,_⟩ := (right.lower_sound signatures sound₁ (advance₁.binds binds)).ok ranRight
    have first := left.lower_gathers signatures sound binds inForce ranLeft
    have second := right.lower_gathers signatures sound₁ (advance₁.binds binds) inForce ranRight
    exact ((first.lead .left).append advance₁ (second.lead (.right ranLeft)) advance₂).arith sound₂ last
  | .call callee args =>
    simp only [Expr.lower] at run
    obtain ⟨_,_,ranCheck,later⟩ := Attempt.bind_eq_ok.mp run
    obtain ⟨fits,rfl⟩ := Prod.mk.inj ranCheck
    obtain ⟨values,f₁,ranArgs,later⟩ := Attempt.bind_eq_ok.mp later
    obtain ⟨name,f₂,ranName,last⟩ := Attempt.bind_eq_ok.mp later
    obtain ⟨_,rfl,_⟩ := Build.identifier_eq_ok ranName
    obtain ⟨above₁,sound₁,_⟩ := (args.lower_sound signatures sound binds).ok ranArgs
    have inner := args.lower_gathers signatures sound binds inForce ranArgs
    cases (Build.emitNamed_run ..).symm.trans last
    exact (inner.lead (.args fits)).emitted sound₁ _ rfl rfl
  | .scope body =>
    simp only [Expr.lower] at run
    obtain ⟨⟨inner,_⟩,f₁,ran,last⟩ := Attempt.bind_eq_ok.mp run
    cases last
    exact (body.lower_gathers signatures sound binds inForce ran).lead .scope
  | .loop cond body =>
    obtain ⟨_,loop,rfl⟩ := LoopRun.of_lower sound binds run
    have bound : ∀ point ∈ loop.points, point.name ∈ names := by
      intro point member
      obtain ⟨binding,stands⟩ := loop.opens.bindings point member
      exact (inForce point.name).mp (by rw [stands.bound]; rfl)
    have inForce' := inForce.bindAll bound
    refine loop.gathers inForce (cond.lower_gathers signatures sound binds inForce loop.ranFirst) ?_ ?_
    · exact body.lower_gathers signatures loop.opens.sound (loop.opens.binds (loop.advance_preheader.binds binds)) inForce' loop.ranBody
    · exact cond.lower_gathers signatures loop.soundEnded loop.bindsEnded (Block.inForce_lower inForce' loop.ranBody) loop.ranAgain

theorem Args.lower_gathers (signatures : Table Nat) (args : Args) {root : Text} {pending : List Text} {above : Text → List Text}
    {f f' : Frame} (sound : f.Sound signatures root pending above) {env : Environment} (binds : f.Binds above env) {names : List Text}
    (inForce : env.InForce names) {values : List Value} (run : args.lower signatures env f = (.ok values,f')) :
    Gathers signatures ⟨.args args,env,f⟩ f f' (args.merges names) := by
  match args with
  | .nil =>
    cases run
    exact .none rfl
  | .cons first rest =>
    simp only [Args.lower] at run
    obtain ⟨a,f₁,ranFirst,later⟩ := Attempt.bind_eq_ok.mp run
    obtain ⟨others,f₂,ranRest,last⟩ := Attempt.bind_eq_ok.mp later
    cases last
    obtain ⟨above₁,sound₁,advance₁,_⟩ := (first.lower_sound signatures sound binds).ok ranFirst
    obtain ⟨above₂,_,advance₂,_⟩ := (rest.lower_sound signatures sound₁ (advance₁.binds binds)).ok ranRest
    have early := first.lower_gathers signatures sound binds inForce ranFirst
    have late := rest.lower_gathers signatures sound₁ (advance₁.binds binds) inForce ranRest
    exact (early.lead .firstArg).append advance₁ (late.lead (.laterArgs ranFirst)) advance₂

theorem Stmt.lower_gathers (signatures : Table Nat) (s : Stmt) {root : Text} {pending : List Text} {above : Text → List Text}
    {f f' : Frame} (sound : f.Sound signatures root pending above) {env env' : Environment} (binds : f.Binds above env)
    {names : List Text} (inForce : env.InForce names) (run : s.lower signatures env f = (.ok env',f')) :
    Gathers signatures ⟨.stmt s,env,f⟩ f f' (s.merges names) := by
  match s with
  | .discard value =>
    simp only [Stmt.lower] at run
    obtain ⟨_,f₁,ran,last⟩ := Attempt.bind_eq_ok.mp run
    cases last
    exact (value.lower_gathers signatures sound binds inForce ran).lead .discard
  | .bindConst name value =>
    simp only [Stmt.lower] at run
    obtain ⟨bound,f₁,ran,last⟩ := Attempt.bind_eq_ok.mp run
    have inner := value.lower_gathers signatures sound binds inForce ran
    cases bound with
    | reg => cases last
    | const n =>
      cases last
      exact inner.lead .bindConst
  | .bindMut name value =>
    simp only [Stmt.lower] at run
    obtain ⟨base,_,ranName,later⟩ := Attempt.bind_eq_ok.mp run
    obtain ⟨rfl,kept,carried⟩ := Build.identifier_eq_ok ranName
    subst kept
    obtain ⟨cell,_,ranCell,later⟩ := Attempt.bind_eq_ok.mp later
    cases (Build.allocate_run ..).symm.trans ranCell
    obtain ⟨bound,f₁,ran,later⟩ := Attempt.bind_eq_ok.mp later
    obtain ⟨_,_,ranStore,last⟩ := Attempt.bind_eq_ok.mp later
    cases (Build.emitUnnamed_run ..).symm.trans ranStore
    cases last
    obtain ⟨sound₀,advance₀,_⟩ := sound.allocated base
    obtain ⟨_,sound₁,_⟩ := (value.lower_sound signatures sound₀ (advance₀.binds binds)).ok ran
    have inner := value.lower_gathers signatures sound₀ (advance₀.binds binds) inForce ran
    exact ((inner.lead (.bindMut carried)).since advance₀ rfl).emitted sound₁ [] rfl rfl
  | .assign name value =>
    simp only [Stmt.lower] at run
    obtain ⟨address,_,ranCheck,later⟩ := Attempt.bind_eq_ok.mp run
    obtain ⟨found,rfl⟩ := Prod.mk.inj ranCheck
    obtain ⟨stored,f₁,ran,later⟩ := Attempt.bind_eq_ok.mp later
    obtain ⟨_,_,ranStore,last⟩ := Attempt.bind_eq_ok.mp later
    cases (Build.emitUnnamed_run ..).symm.trans ranStore
    cases last
    obtain ⟨_,sound₁,_⟩ := (value.lower_sound signatures sound binds).ok ran
    have inner := value.lower_gathers signatures sound binds inForce ran
    exact (inner.lead (.assign found)).emitted sound₁ [] rfl rfl

theorem Block.lower_gathers (signatures : Table Nat) (b : Block) {root : Text} {pending : List Text} {above : Text → List Text}
    {f f' : Frame} (sound : f.Sound signatures root pending above) {env env' : Environment} (binds : f.Binds above env)
    {names : List Text} (inForce : env.InForce names) {value : Value} (run : b.lower signatures env f = (.ok (value,env'),f')) :
    Gathers signatures ⟨.block b,env,f⟩ f f' (b.merges names) := by
  match b with
  | .result e =>
    simp only [Block.lower] at run
    obtain ⟨_,f₁,ran,last⟩ := Attempt.bind_eq_ok.mp run
    cases last
    exact (e.lower_gathers signatures sound binds inForce ran).lead .result
  | .step first rest =>
    simp only [Block.lower] at run
    obtain ⟨env₁,f₁,ranFirst,ranRest⟩ := Attempt.bind_eq_ok.mp run
    obtain ⟨above₁,sound₁,advance₁,binds₁⟩ := (first.lower_sound signatures sound binds).ok ranFirst
    obtain ⟨above₂,_,advance₂,_⟩ := (rest.lower_sound signatures sound₁ binds₁).ok ranRest
    have early := first.lower_gathers signatures sound binds inForce ranFirst
    have late := rest.lower_gathers signatures sound₁ binds₁ (Stmt.inForce_lower inForce ranFirst) ranRest
    exact (early.lead .first).append advance₁ (late.lead (.rest ranFirst)) advance₂

end

theorem Program.lower_gathers (signatures : Table Nat) (program : Program) {root : Text} {pending : List Text}
    {above : Text → List Text} {f f' : Frame} (sound : f.Sound signatures root pending above) {value : Value}
    (run : program.subject.lowerProgram signatures .empty f = (.ok value,f')) :
    Gathers signatures ⟨program.task,.empty,f⟩ f f' program.merges := by
  have inForce : Environment.empty.InForce [] := fun name => by simp
  have binds := Frame.binds_empty f above
  cases program with
  | expr e => exact e.lower_gathers signatures sound binds inForce run
  | block b =>
    obtain ⟨⟨_,_⟩,_,ran,last⟩ := Attempt.bind_eq_ok.mp run
    cases last
    exact b.lower_gathers signatures sound binds inForce ran

/-! ### The finished function -/

theorem flatMap_eq_of_once {α β : Type} {list : List α} {g : α → List β} {index : Nat} {a : α} (here : list[index]? = some a)
    (others : ∀ i b, list[i]? = some b → i ≠ index → g b = []) : list.flatMap g = g a := by
  induction list generalizing index with
  | nil => cases here
  | cons first rest ih =>
    cases index with
    | zero =>
      cases here
      have none : rest.flatMap g = [] := by
        rw [List.flatMap_eq_nil_iff]
        intro b member
        obtain ⟨i,found⟩ := List.getElem?_of_mem member
        exact others (i + 1) b (by simpa using found) (by omega)
      simp [none]
    | succ index =>
      have none := others 0 first rfl (by omega)
      rw [List.flatMap_cons,none,List.nil_append]
      exact ih (by simpa using here) (fun i b found other => others (i + 1) b (by simpa using found) (by omega))
/-- The edges of a phi are those of the one instruction of its name. -/
theorem Function.Named.incoming_eq {fn : Function} (named : fn.Named) {label phi : Text} {index : Nat} {type : Ty}
    {edges : List (Value × Text)} (found : fn.At label index (.phi phi type edges)) : fn.incoming phi = edges := by
  have once : ∀ place position instr, fn.At place position instr → instr.result? = some phi → place = label ∧ position = index :=
    fun _ _ _ at_other yields => named.resultOnce _ _ _ _ _ _ phi at_other found yields rfl
  obtain ⟨instrs,code,here⟩ := found
  have member : (⟨label,instrs⟩ : BasicBlock) ∈ fn.blocks := (mem_blocks_iff named.labels).mpr code
  obtain ⟨position,place⟩ := List.getElem?_of_mem member
  unfold incoming
  rw [flatMap_eq_of_once place,flatMap_eq_of_once here]
  · simp
  · intro i other at_other elsewhere
    split
    · rename_i result _ _
      refine if_neg (fun same => elsewhere ?_)
      exact (once label i _ ⟨instrs,code,at_other⟩ (by rw [same]; rfl)).2
    · rfl
  · intro i block at_block elsewhere
    rw [List.flatMap_eq_nil_iff]
    intro other inside
    split
    · rename_i result _ _
      refine if_neg (fun same => elsewhere ?_)
      obtain ⟨j,at_other⟩ := At.of_mem ((mem_blocks_iff named.labels).mp (List.mem_of_getElem? at_block)) inside
      obtain ⟨atLabel,_⟩ := once _ _ _ at_other (by rw [same]; rfl)
      have equal : fn.labels[i]? = fn.labels[position]? := by
        rw [Function.labels,List.getElem?_map,List.getElem?_map,at_block,place]
        exact congrArg some atLabel
      have short : i < fn.labels.length := by
        rw [Function.labels,List.length_map]
        exact (List.getElem?_eq_some_iff.mp at_block).1
      exact (List.getElem?_inj short named.labels).mp equal
    · rfl

/-- The merge points of a loop whose condition is lowered in an environment: in the finished function they have an edge
    from the block before the loop, with what their name was bound to, and one from the latch; these blocks are the two
    ways into the header; and the header begins with their phis and has no others. -/
structure Function.Joins (fn : Function) (cond : Expr) (env : Environment) (points : List MergePoint) (header preheader latch : Text) :
    Prop where
  names : points.map MergePoint.name = merged cond.reads env.names
  closed : ∀ point ∈ points, point.isOpen = false ∧ point.preheader = preheader ∧ point.latch = some latch
  edges : ∀ point ∈ points, ∃ binding carried, env.lookup? point.name = some binding ∧
    fn.incoming point.phi = [(binding.value,preheader),(carried,latch)]
  apart : preheader ≠ latch
  ways : ∀ source, fn.Edge source header ↔ source = preheader ∨ source = latch
  phis : ∃ rest, fn.code? header = some (points.map (fun point => .phi point.phi point.type (fn.incoming point.phi)) ++ rest) ∧
    ∀ instr ∈ rest, instr.isPhi = false

theorem Merge.Settled.incoming_eq {merge : Merge} {fn : Function} (settled : merge.Settled fn) (named : fn.Named) {point : MergePoint}
    (member : point ∈ merge.points) :
    fn.incoming point.phi = [(point.initial merge.env,merge.preheader),(point.carried merge.after,merge.latch)] := by
  obtain ⟨rest,code,_⟩ := settled.code
  obtain ⟨index,found⟩ := Function.At.of_mem code (List.mem_append_left _ (List.mem_map_of_mem member))
  exact named.incoming_eq found
theorem Merge.Settled.joins {signatures : Table Nat} {merge : Merge} {fn : Function} (settled : merge.Settled fn)
    (closes : merge.Closes signatures) (named : fn.Named) :
    fn.Joins merge.cond merge.env merge.points merge.header merge.preheader merge.latch := by
  obtain ⟨rest,code,plain⟩ := settled.code
  have inForce : merge.env.InForce merge.env.names := by
    intro name
    rw [Option.isSome_iff_ne_none,ne_eq,Environment.lookup?,Table.get?_eq_none_iff,not_not]
  refine ⟨closes.names.trans (inForce.merged_eq merge.cond.reads),?_,?_,settled.apart,settled.ways,rest,?_,plain⟩
  · intro point member
    obtain ⟨before,latch⟩ := closes.edges point member
    exact ⟨by rw [MergePoint.isOpen,latch]; rfl,before,latch⟩
  · intro point member
    obtain ⟨binding,bound⟩ := closes.bound point member
    refine ⟨binding,point.carried merge.after,bound,?_⟩
    rw [settled.incoming_eq named member,MergePoint.initial,bound]
  · rw [code]
    refine congrArg (fun phis => some (phis ++ rest)) (List.map_congr_left (fun point member => ?_))
    rw [settled.incoming_eq named member]
    rfl

/-- The merge points of a module that is built carry the names that its program foretells, and they are those of the loops
    that were lowered, one loop after the other, each joined in the entry function as it should be. -/
theorem build_merges (program : Program) (options : Options) (draft : Draft)
    (built : Draft.build program.subject (.new options) = (.ok (),draft)) :
    draft.points.map MergePoint.name = program.merges ∧
    ∃ (fn : Function) (loops : List (List MergePoint)), draft.entryFunction? = some fn ∧ draft.points = loops.flatten ∧
      ∀ points ∈ loops, ∃ cond body env frame header preheader latch,
        program.Passes options draft.signatures ⟨.expr (.loop cond body),env,frame⟩ ∧
        fn.Joins cond env points header preheader latch := by
  obtain ⟨before,others,value,f,⟨_,none,_⟩,lowered,gives,holds,same,points⟩ := Draft.build_course built
  obtain ⟨above,sound,advance,_⟩ := gives
  obtain ⟨started,labels,_⟩ := Frame.initial_sound (Function.declare_blocks options.entryName 0) before.signatures before.points before.log
    (rfl : Draft.start options before = _)
  obtain ⟨merges,gathered,names,each⟩ := program.lower_gathers before.signatures started lowered
  obtain ⟨_,_,_,_,returned,entered⟩ := sound.appended_finished value
  have listed : draft.points = (merges.map Merge.points).flatten := by
    have start : (Draft.start options before).points = [] := none
    rw [points,gathered,start,List.nil_append,List.flatMap_def]
  refine ⟨?_,_,merges.map Merge.points,holds.entryFunction?,listed,?_⟩
  · rw [listed,← names,List.map_flatten,List.map_map,List.flatMap_def]
    rfl
  · intro group member
    obtain ⟨merge,inside,rfl⟩ := List.mem_map.mp member
    obtain ⟨closes,settled,fresh,way⟩ := each merge inside
    have root : merge.header ∉ (Instr.br (lit "start")).targets := by
      intro same
      exact fresh (List.mem_singleton.mp same ▸ started.root_label)
    have last := (settled.appended returned rfl (by simp [Instr.targets])).appended entered rfl root
    refine ⟨merge.cond,merge.body,merge.env,merge.frame,merge.header,merge.preheader,merge.latch,⟨before.log,?_⟩,
      last.joins closes (sound.named_finished value)⟩
    rw [same]
    exact none ▸ way

/-- A program with a loop in the condition of a loop; both conditions read `b`. -/
def nestedLoops : Program :=
  .block (.step (.bindMut (lit "b") (.literal 3))
    (.step (.bindMut (lit "a") (.literal 2))
    (.step (.discard (.loop
      (.binary (.loop (.var (lit "b")) (.step (.assign (lit "b") (.binary (.var (lit "b")) .sub (.literal 1))) (.result (.literal 0))))
        .add (.var (lit "a")))
      (.step (.assign (lit "a") (.binary (.var (lit "a")) .sub (.literal 1))) (.result (.literal 0)))))
    (.result (.var (lit "a"))))))
/-- The inner loop is lowered twice, and the outer one merges both names. -/
theorem build_merges_nestedLoops :
    (Draft.build nestedLoops.subject (.new {})).1 = .ok () ∧
      (Draft.build nestedLoops.subject (.new {})).2.points.map MergePoint.name = [lit "b",lit "b",lit "a",lit "b"] ∧
      ∃ (fn : Function) (loops : List (List MergePoint)), (Draft.build nestedLoops.subject (.new {})).2.entryFunction? = some fn ∧
        (Draft.build nestedLoops.subject (.new {})).2.points = loops.flatten ∧
        ∀ points ∈ loops, ∃ cond env header preheader latch, fn.Joins cond env points header preheader latch := by
  have built : (Draft.build nestedLoops.subject (.new {})).1 = .ok () := Attempt.eq_ok_of_isOk (by decide +kernel)
  have foretold : nestedLoops.merges = [lit "b",lit "b",lit "a",lit "b"] := by decide +kernel
  obtain ⟨names,fn,loops,entry,listed,each⟩ := build_merges nestedLoops {} _ (Attempt.run_of_fst built)
  refine ⟨built,names.trans foretold,fn,loops,entry,listed,?_⟩
  intro points member
  obtain ⟨cond,_,env,_,header,preheader,latch,_,joins⟩ := each points member
  exact ⟨cond,env,header,preheader,latch,joins⟩

end Lev
