import Lev.Proofs.Simulation

/-!
What one step of the machine does. It goes along an edge into a block, where it sets the registers of the phis, or it
carries out one instruction, which sets at most its own register and adds a cell if it is made to.
-/
namespace Lev

/-- Whether the instruction makes a cell. -/
def Instr.isAlloca : Instr → Bool
  | .alloca _ => true
  | _ => false

namespace Machine
variable {module : Module} {world : World} {s s' : Machine} {fn : Function}

/-- What a step does: it goes along an edge into a block, or it carries out an instruction and comes to the one after it. -/
inductive Moves (fn : Function) (s s' : Machine) : Prop
  | enters (instr : Instr) (target : Text) (found : fn.At s.block s.index instr) (edge : target ∈ instr.targets)
      (entered : s.enter fn target = some s') : Moves fn s s'
  | passes (instr : Instr) (found : fn.At s.block s.index instr) (plain : instr.isPhi = false) (inner : instr.isTerminator = false)
      (block : s'.block = s.block) (index : s'.index = s.index + 1)
      (registers : ∀ name, instr.result? ≠ some name → s'.registers name = s.registers name)
      (size : s'.memory.length = s.memory.length + instr.isAlloca.toNat) : Moves fn s s'

theorem registers_yield (s : Machine) {result name : Text} (datum : Datum) (other : some result ≠ some name) :
    (s.yield result datum).registers name = s.registers name := if_neg (fun same => other (congrArg some same.symm))
theorem moves_of_step (turn : s.step module fn world = some (.next s')) : s.Moves fn s' := by
  obtain ⟨code,here,turn⟩ := Option.bind_eq_some_iff.mp turn
  obtain ⟨instr,inside,turn⟩ := Option.bind_eq_some_iff.mp turn
  have found : fn.At s.block s.index instr := ⟨code,here,inside⟩
  cases instr with
  | alloca result =>
    cases turn
    exact .passes _ found rfl rfl rfl rfl (fun _ => s.registers_yield _) (by simp [Instr.isAlloca])
  | store value address =>
    obtain ⟨w,_,turn⟩ := Option.bind_eq_some_iff.mp turn
    obtain ⟨place,_,turn⟩ := Option.bind_eq_some_iff.mp turn
    obtain ⟨_,next⟩ := Option.ite_none_right_eq_some.mp turn
    cases next
    exact .passes _ found rfl rfl rfl rfl (fun _ _ => rfl) (by simp [Instr.isAlloca])
  | load result address =>
    obtain ⟨place,_,turn⟩ := Option.bind_eq_some_iff.mp turn
    obtain ⟨w,_,next⟩ := Option.bind_eq_some_iff.mp turn
    cases next
    exact .passes _ found rfl rfl rfl rfl (fun _ => s.registers_yield _) rfl
  | arith result op left right =>
    obtain ⟨a,_,turn⟩ := Option.bind_eq_some_iff.mp turn
    obtain ⟨b,_,turn⟩ := Option.bind_eq_some_iff.mp turn
    obtain ⟨w,_,next⟩ := Option.bind_eq_some_iff.mp turn
    cases next
    exact .passes _ found rfl rfl rfl rfl (fun _ => s.registers_yield _) rfl
  | call result callee args =>
    obtain ⟨words,_,turn⟩ := Option.bind_eq_some_iff.mp turn
    obtain ⟨_,next⟩ := Option.ite_none_right_eq_some.mp turn
    cases next
    exact .passes _ found rfl rfl rfl rfl (fun _ => s.registers_yield _) rfl
  | isZero result value =>
    obtain ⟨w,_,next⟩ := Option.bind_eq_some_iff.mp turn
    cases next
    exact .passes _ found rfl rfl rfl rfl (fun _ => s.registers_yield _) rfl
  | phi result type incoming => cases turn
  | br target =>
    obtain ⟨_,entered,next⟩ := Option.map_eq_some_iff.mp turn
    cases next
    exact .enters _ target found (by simp [Instr.targets]) entered
  | condBr cond yes no =>
    obtain ⟨b,_,turn⟩ := Option.bind_eq_some_iff.mp turn
    obtain ⟨_,entered,next⟩ := Option.map_eq_some_iff.mp turn
    cases next
    exact .enters _ _ found (by cases b <;> simp [Instr.targets]) entered
  | ret value =>
    obtain ⟨w,_,next⟩ := Option.bind_eq_some_iff.mp turn
    cases next
theorem mem_of_mapM {α β : Type} {f : α → Option β} {list : List α} {result : List β} (mapped : list.mapM f = some result) :
    (∀ b ∈ result, ∃ a ∈ list, f a = some b) ∧ ∀ a ∈ list, ∃ b ∈ result, f a = some b := by
  have defined : ∀ a ∈ list, ∃ b, f a = some b := by
    induction list generalizing result with
    | nil => simp
    | cons first rest ih =>
      rw [List.mapM_cons] at mapped
      obtain ⟨b,here,later⟩ := Option.bind_eq_some_iff.mp mapped
      obtain ⟨others,ran,_⟩ := Option.bind_eq_some_iff.mp later
      exact List.forall_mem_cons.mpr ⟨⟨b,here⟩,ih ran⟩
  obtain ⟨result',mapped',sources,images⟩ := mapM_eq_some defined
  cases mapped.symm.trans mapped'
  refine ⟨sources,fun a member => ?_⟩
  obtain ⟨b,image⟩ := defined a member
  exact ⟨b,images a member b image,image⟩
theorem select?_source {phi : Instr} {result : Text} {datum : Datum} (selected : s.select? phi = some (result,datum)) :
    ∃ type edges source, phi = .phi result type edges ∧ (source,s.block) ∈ edges ∧ s.value? source = some datum := by
  cases phi with
  | phi name type edges =>
    simp only [select?] at selected
    split at selected
    · rename_i source label found
      obtain ⟨other,held,same⟩ := Option.map_eq_some_iff.mp selected
      cases same
      have left : label = s.block := by simpa using List.find?_some found
      exact ⟨type,edges,source,rfl,left ▸ List.mem_of_find?_eq_some found,held⟩
    · cases selected
  | _ => cases selected
/-- On the way into a block, the registers of its phis are set along an edge from the block that is left, and no others. -/
theorem enter_sets {target : Text} (entered : s.enter fn target = some s') :
    ∃ instrs, fn.code? target = some instrs ∧ s'.block = target ∧ s'.index = (instrs.takeWhile Instr.isPhi).length ∧
      s'.memory = s.memory ∧
      (∀ name, s'.registers name = s.registers name ∨ ∃ index type edges source datum, fn.At target index (.phi name type edges) ∧
        (source,s.block) ∈ edges ∧ s.value? source = some datum ∧ s'.registers name = some datum) ∧
      ∀ name type edges, .phi name type edges ∈ instrs.takeWhile Instr.isPhi → (s'.registers name).isSome := by
  obtain ⟨instrs,code,rest⟩ := Option.bind_eq_some_iff.mp entered
  obtain ⟨data,mapped,last⟩ := Option.bind_eq_some_iff.mp rest
  cases last
  obtain ⟨sources,images⟩ := mem_of_mapM mapped
  refine ⟨instrs,code,rfl,rfl,rfl,fun name => ?_,fun name type edges member => ?_⟩
  · cases got : Table.get? name data with
    | none => exact .inl (by simp [got])
    | some datum =>
      obtain ⟨phi,member,selected⟩ := sources _ (Table.mem_of_get? got)
      obtain ⟨type,edges,source,rfl,inside,held⟩ := select?_source selected
      obtain ⟨index,found⟩ := Function.At.of_mem code ((List.takeWhile_prefix _).subset member)
      exact .inr ⟨index,type,edges,source,datum,found,inside,held,by simp [got]⟩
  · obtain ⟨⟨result,datum⟩,listed,selected⟩ := images _ member
    obtain ⟨_,_,_,same,_⟩ := select?_source selected
    cases same
    cases got : Table.get? name data with
    | none => exact absurd (List.mem_map_of_mem listed) (Table.get?_eq_none_iff.mp got)
    | some other => simp [got]

end Machine

end Lev
