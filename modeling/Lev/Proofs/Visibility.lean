import Lev.Analysis.Bindings
import Lev.Proofs.Evaluation
import Lev.Proofs.Names
import Lev.Proofs.SharedScopes

/-!
Visible bindings. Every read and every assignment stands at a place in the syntax. The binding that is visible there is the
latest one among the statements before the place in its own block, or else in the blocks around it from the inside out, or
else the one of the scope that the syntax is checked in. Main statement: the check reports a name as undeclared exactly where
one of its occurrences has no visible binding and as immutable exactly where one of its assignments has an immutable one, each
once and in the order of the first such places, and it leaves the scopes of others as they were.
-/
namespace Lev

/-! ### Places -/

/-- The pieces of syntax, in source order. -/
def Node.pieces : Node → List Node
  | .expr (.literal _) => []
  | .expr (.var _) => []
  | .expr (.binary left _ right) => [.expr left,.expr right]
  | .expr (.call _ args) => args.toList.map .expr
  | .expr (.scope body) => [.block body]
  | .expr (.loop cond body) => [.expr cond,.block body]
  | .stmt (.discard value) => [.expr value]
  | .stmt (.bindConst _ value) => [.expr value]
  | .stmt (.bindMut _ value) => [.expr value]
  | .stmt (.assign _ value) => [.expr value]
  | .block b => b.stmts.map .stmt ++ [.expr b.value]

/-- Where something stands in syntax: the number of the piece to enter, level by level. -/
abbrev Place := List Nat

/-- The place comes before the other in source order: it is around it, or in an earlier piece. -/
inductive Place.Before : Place → Place → Prop
  | around (i : Nat) (rest : Place) : Before [] (i :: rest)
  | earlier {i j : Nat} (less : i < j) (p q : Place) : Before (i :: p) (j :: q)
  | inside (i : Nat) {p q : Place} (before : Before p q) : Before (i :: p) (i :: q)

/-- What stands at a place. -/
def Node.at? : Node → Place → Option Node
  | n, [] => some n
  | n, i :: rest =>
    match n.pieces[i]? with
    | none => none
    | some piece => piece.at? rest

/-- The statements before the piece of a number, in a block. -/
def Node.stmtsBefore (n : Node) (i : Nat) : List Stmt :=
  match n with
  | .block b => b.stmts.take i
  | _ => []

/-- The statements before a place, level by level from the inside out. -/
def Node.around : Node → Place → List (List Stmt)
  | _, [] => []
  | n, i :: rest =>
    match n.pieces[i]? with
    | none => []
    | some piece => piece.around rest ++ [n.stmtsBefore i]

/-! ### Bindings -/

/-- The latest of the statements that binds the name. -/
def Stmt.latest? (stmts : List Stmt) (name : Text) : Option Stmt := stmts.reverse.find? (·.binder? = some name)

/-- Whether the statement makes a mutable binding. -/
def Stmt.isMutable : Stmt → Bool
  | .bindMut _ _ => true
  | _ => false

/-- Whether the binding of a name that is visible at a place is mutable, if there is one. -/
def Node.visible? (n : Node) (scope : Scope) (place : Place) (name : Text) : Option Bool :=
  match (n.around place).findSome? (Stmt.latest? · name) with
  | some binding => some binding.isMutable
  | none => scope.get? name

/-- A violation at a place: a read or an assignment of a name without visible binding, or an assignment whose visible binding is
    immutable. -/
inductive Node.ViolatedAt (n : Node) (scope : Scope) (place : Place) : Violation → Prop
  | read {name : Text} (stands : n.at? place = some (.expr (.var name))) (unbound : n.visible? scope place name = none) :
      ViolatedAt n scope place (.undeclared name)
  | assigned {name : Text} {value : Expr} (stands : n.at? place = some (.stmt (.assign name value)))
      (unbound : n.visible? scope place name = none) : ViolatedAt n scope place (.undeclared name)
  | frozen {name : Text} {value : Expr} (stands : n.at? place = some (.stmt (.assign name value)))
      (fixed : n.visible? scope place name = some false) : ViolatedAt n scope place (.immutable name)

/-! ### One level -/

/-- The scope in which the piece of a number is checked. -/
def Node.scopeAt (n : Node) (scope : Scope) (i : Nat) : Scope := (n.stmtsBefore i).foldl Stmt.extend scope

/-- The violations of the piece of a number. -/
def Node.pieceViolations (n : Node) (scope : Scope) (i : Nat) : List Violation :=
  (n.pieces[i]?).elim [] (·.violations (n.scopeAt scope i))

/-- The violations of syntax that are not in one of its pieces. -/
def Node.ownViolations (n : Node) (scope : Scope) : List Violation :=
  match n with
  | .expr (.var name) => scope.readViolations name
  | .stmt (.assign name _) => scope.assignViolations name
  | _ => []

section
variable {n piece : Node} {scope : Scope} {i : Nat} {place : Place} {name : Text} {violation : Violation}

theorem Stmt.get?_extend_of (s : Stmt) (scope : Scope) (name : Text) :
    (s.extend scope).get? name = if s.binder? = some name then some s.isMutable else scope.get? name := by
  cases s with
  | discard _ | assign _ _ => simp [Stmt.extend,Stmt.binder?]
  | bindConst bound _ | bindMut bound _ => simp [Stmt.extend,Stmt.binder?,Stmt.isMutable,Table.get?_set,eq_comm]
/-- After statements, a name has the latest binding that they make of it, or else the one of before. -/
theorem Scope.get?_foldl_extend (stmts : List Stmt) (scope : Scope) (name : Text) :
    (stmts.foldl Stmt.extend scope).get? name = ((Stmt.latest? stmts name).map Stmt.isMutable).or (scope.get? name) := by
  induction stmts using List.reverseRecOn with
  | nil => rfl
  | append_singleton stmts s ih =>
    rw [List.foldl_append,List.foldl_cons,List.foldl_nil,Stmt.get?_extend_of,ih]
    by_cases binds : s.binder? = some name
    · simp [Stmt.latest?,binds]
    · simp [Stmt.latest?,binds]
theorem Node.at?_cons (found : n.pieces[i]? = some piece) : n.at? (i :: place) = piece.at? place := by
  simp only [at?,found]
/-- What is visible inside a piece is what is visible in it from the scope in which it is checked. -/
theorem Node.visible?_cons (found : n.pieces[i]? = some piece) :
    n.visible? scope (i :: place) name = piece.visible? (n.scopeAt scope i) place name := by
  have inner : n.around (i :: place) = piece.around place ++ [n.stmtsBefore i] := by simp only [around,found]
  simp only [visible?,inner,List.findSome?_append,scopeAt,Scope.get?_foldl_extend]
  cases (piece.around place).findSome? (Stmt.latest? · name) with
  | some binding => rfl
  | none =>
    cases latest : Stmt.latest? (n.stmtsBefore i) name with
    | some binding => simp [latest]
    | none => simp [latest]
theorem Node.violatedAt_cons (found : n.pieces[i]? = some piece) :
    n.ViolatedAt scope (i :: place) violation ↔ piece.ViolatedAt (n.scopeAt scope i) place violation := by
  constructor
  · rintro (⟨stands,unbound⟩ | ⟨stands,unbound⟩ | ⟨stands,fixed⟩) <;> rw [at?_cons found] at stands
    · exact .read stands (visible?_cons found ▸ unbound)
    · exact .assigned stands (visible?_cons found ▸ unbound)
    · exact .frozen stands (visible?_cons found ▸ fixed)
  · rintro (⟨stands,unbound⟩ | ⟨stands,unbound⟩ | ⟨stands,fixed⟩) <;> rw [← at?_cons found] at stands
    · exact .read stands ((visible?_cons found).trans unbound)
    · exact .assigned stands ((visible?_cons found).trans unbound)
    · exact .frozen stands ((visible?_cons found).trans fixed)
theorem Node.ViolatedAt.enters (violated : n.ViolatedAt scope (i :: place) violation) : ∃ piece, n.pieces[i]? = some piece := by
  cases found : n.pieces[i]? with
  | some piece => exact ⟨piece,rfl⟩
  | none =>
    have nowhere : n.at? (i :: place) = none := by simp only [at?,found]
    rcases violated with ⟨stands,_⟩ | ⟨stands,_⟩ | ⟨stands,_⟩ <;> cases nowhere.symm.trans stands
theorem Scope.mem_readViolations : violation ∈ scope.readViolations name ↔ violation = .undeclared name ∧ scope.get? name = none := by
  unfold readViolations Table.contains
  cases scope.get? name <;> simp
theorem Scope.mem_assignViolations : violation ∈ scope.assignViolations name ↔
    violation = .undeclared name ∧ scope.get? name = none ∨ violation = .immutable name ∧ scope.get? name = some false := by
  unfold assignViolations
  cases scope.get? name with
  | none => simp
  | some isMutable => cases isMutable <;> simp
theorem Node.violatedAt_nil : n.ViolatedAt scope [] violation ↔ violation ∈ n.ownViolations scope := by
  constructor
  · rintro (⟨stands,unbound⟩ | ⟨stands,unbound⟩ | ⟨stands,fixed⟩) <;> cases stands
    · exact Scope.mem_readViolations.mpr ⟨rfl,unbound⟩
    · exact Scope.mem_assignViolations.mpr (.inl ⟨rfl,unbound⟩)
    · exact Scope.mem_assignViolations.mpr (.inr ⟨rfl,fixed⟩)
  · intro member
    cases n with
    | block b => cases member
    | expr e =>
      cases e with
      | var read =>
        obtain ⟨rfl,unbound⟩ := Scope.mem_readViolations.mp member
        exact .read rfl unbound
      | _ => cases member
    | stmt s =>
      cases s with
      | assign target value =>
        rcases Scope.mem_assignViolations.mp member with ⟨rfl,unbound⟩ | ⟨rfl,fixed⟩
        · exact .assigned rfl unbound
        · exact .frozen rfl fixed
      | _ => cases member

end

/-! ### The check, level by level -/

theorem Args.violations_eq (args : Args) (scope : Scope) : args.violations scope = args.toList.flatMap (·.violations scope) := by
  cases args with
  | nil => rfl
  | cons first rest => simp [Args.violations,Args.toList,Args.violations_eq rest scope]
theorem flatMap_range {α β : Type} (items : List α) (f : α → List β) :
    ((List.range items.length).flatMap fun i => (items[i]?).elim [] f) = items.flatMap f := by
  induction items with
  | nil => rfl
  | cons first rest ih => simp [List.range_succ_eq_map,List.flatMap_map,ih]
theorem Block.violations_eq (b : Block) (scope : Scope) :
    b.violations scope = (List.range (Node.block b).pieces.length).flatMap ((Node.block b).pieceViolations scope) := by
  cases b with
  | result value => exact (List.append_nil _).symm
  | step first rest =>
    have count : (Node.block (.step first rest)).pieces.length = (Node.block rest).pieces.length + 1 := rfl
    rw [count,List.range_succ_eq_map,List.flatMap_cons,List.flatMap_map,Block.violations,Block.violations_eq rest]
    rfl
/-- The check goes through the pieces in order, after what it finds at the syntax itself. -/
theorem Node.violations_eq (n : Node) (scope : Scope) :
    n.violations scope = n.ownViolations scope ++ (List.range n.pieces.length).flatMap (n.pieceViolations scope) := by
  cases n with
  | block b => exact b.violations_eq scope
  | stmt s =>
    cases s with
    | discard value | bindConst name value | bindMut name value => exact (List.append_nil _).symm
    | assign name value => exact congrArg (scope.assignViolations name ++ ·) (List.append_nil _).symm
  | expr e =>
    cases e with
    | literal _ => rfl
    | var name | scope body => exact (List.append_nil _).symm
    | binary left op right => exact congrArg (left.violations scope ++ ·) (List.append_nil _).symm
    | loop cond body => exact congrArg (cond.violations scope ++ ·) (List.append_nil _).symm
    | call callee args =>
      have through := flatMap_range (args.toList.map Node.expr) (·.violations scope)
      rw [List.flatMap_map] at through
      exact (args.violations_eq scope).trans through.symm

/-! ### Source order -/

section
variable {n piece : Node} {scope : Scope} {i : Nat}

theorem Place.Before.asymm {p q : Place} (before : p.Before q) : ¬ q.Before p := by
  induction before with
  | around i rest => exact fun after => nomatch after
  | earlier less p q =>
    intro after
    cases after with
    | earlier less' => omega
    | inside => omega
  | inside i before ih =>
    intro after
    cases after with
    | earlier less => omega
    | inside _ after => exact ih after

/-- The violations are those at the places of a part of the syntax, one for each such place, in source order. -/
def Node.Sweeps (n : Node) (scope : Scope) (part : Place → Prop) (violations : List Violation) : Prop :=
  ∃ found : List (Place × Violation), found.map Prod.snd = violations ∧ found.Pairwise (fun a b => a.1.Before b.1) ∧
    ∀ place violation, (place,violation) ∈ found ↔ part place ∧ n.ViolatedAt scope place violation

theorem Node.Sweeps.congr {part part' : Place → Prop} {violations : List Violation} (sweeps : n.Sweeps scope part violations)
    (same : ∀ place violation, n.ViolatedAt scope place violation → (part place ↔ part' place)) : n.Sweeps scope part' violations := by
  obtain ⟨found,listed,ordered,covers⟩ := sweeps
  refine ⟨found,listed,ordered,fun place violation => ?_⟩
  rw [covers]
  exact and_congr_left (same place violation)
theorem Node.Sweeps.append {early late : Place → Prop} {violations more : List Violation} (first : n.Sweeps scope early violations)
    (second : n.Sweeps scope late more) (apart : ∀ p q, early p → late q → p.Before q) :
    n.Sweeps scope (fun place => early place ∨ late place) (violations ++ more) := by
  obtain ⟨found,rfl,ordered,covers⟩ := first
  obtain ⟨found',rfl,ordered',covers'⟩ := second
  refine ⟨found ++ found',List.map_append,List.pairwise_append.mpr ⟨ordered,ordered',?_⟩,?_⟩
  · intro one member other member'
    exact apart _ _ ((covers one.1 one.2).mp member).1 ((covers' other.1 other.2).mp member').1
  · intro place violation
    rw [List.mem_append,covers,covers',or_and_right]
theorem Node.ownViolations_single (n : Node) (scope : Scope) : (n.ownViolations scope).Pairwise fun _ _ => False := by
  unfold ownViolations
  split
  · unfold Scope.readViolations
    split <;> simp
  · unfold Scope.assignViolations
    split <;> simp
  · exact .nil
theorem Node.sweeps_own (n : Node) (scope : Scope) : n.Sweeps scope (· = []) (n.ownViolations scope) := by
  refine ⟨(n.ownViolations scope).map ([],·),?_,?_,?_⟩
  · rw [List.map_map]
    exact List.map_id _
  · rw [List.pairwise_map]
    exact (n.ownViolations_single scope).imp False.elim
  · intro place violation
    constructor
    · intro member
      obtain ⟨_,own,same⟩ := List.mem_map.mp member
      cases same
      exact ⟨rfl,Node.violatedAt_nil.mpr own⟩
    · rintro ⟨rfl,violated⟩
      exact List.mem_map_of_mem (Node.violatedAt_nil.mp violated)
section
variable (inner : ∀ piece ∈ n.pieces, ∀ scope, piece.Sweeps scope (fun _ => True) (piece.violations scope))
include inner

theorem Node.sweeps_piece (scope : Scope) (i : Nat) :
    n.Sweeps scope (fun place => ∃ rest, place = i :: rest) (n.pieceViolations scope i) := by
  cases found : n.pieces[i]? with
  | none =>
    refine ⟨[],by simp [pieceViolations,found],.nil,fun place violation => ⟨fun member => absurd member List.not_mem_nil,?_⟩⟩
    rintro ⟨⟨rest,rfl⟩,violated⟩
    obtain ⟨piece,entered⟩ := violated.enters
    cases found.symm.trans entered
  | some piece =>
    obtain ⟨below,listed,ordered,covers⟩ := inner piece (List.mem_of_getElem? found) (n.scopeAt scope i)
    refine ⟨below.map fun entry => (i :: entry.1,entry.2),?_,?_,?_⟩
    · rw [List.map_map,pieceViolations,found]
      exact listed
    · rw [List.pairwise_map]
      exact ordered.imp (.inside i)
    · intro place violation
      constructor
      · intro member
        obtain ⟨entry,inside,same⟩ := List.mem_map.mp member
        cases same
        exact ⟨⟨_,rfl⟩,(violatedAt_cons found).mpr ((covers _ _).mp inside).2⟩
      · rintro ⟨⟨rest,rfl⟩,violated⟩
        exact List.mem_map.mpr ⟨(rest,violation),(covers _ _).mpr ⟨trivial,(violatedAt_cons found).mp violated⟩,rfl⟩
theorem Node.sweeps_range (scope : Scope) (count : Nat) :
    n.Sweeps scope (fun place => ∃ i < count, ∃ rest, place = i :: rest) ((List.range count).flatMap (n.pieceViolations scope)) := by
  induction count with
  | zero => exact ⟨[],rfl,.nil,by simp⟩
  | succ count ih =>
    rw [List.range_succ,List.flatMap_append,List.flatMap_singleton]
    refine (ih.append (Node.sweeps_piece inner scope count) ?_).congr fun place violation _ => ?_
    · rintro _ _ ⟨i,less,rest,rfl⟩ ⟨rest',rfl⟩
      exact .earlier less rest rest'
    · constructor
      · rintro (⟨i,less,later⟩ | later)
        · exact ⟨i,by omega,later⟩
        · exact ⟨count,by omega,later⟩
      · rintro ⟨i,less,later⟩
        rcases Nat.lt_succ_iff_lt_or_eq.mp less with below | rfl
        · exact .inl ⟨i,below,later⟩
        · exact .inr later
theorem Node.sweeps_pieces (scope : Scope) : n.Sweeps scope (fun _ => True) (n.violations scope) := by
  rw [n.violations_eq]
  refine ((n.sweeps_own scope).append (Node.sweeps_range inner scope n.pieces.length) ?_).congr fun place violation violated => ?_
  · rintro _ _ rfl ⟨i,_,rest,rfl⟩
    exact .around i rest
  · refine ⟨fun _ => trivial,fun _ => ?_⟩
    cases place with
    | nil => exact .inl rfl
    | cons i rest =>
      obtain ⟨piece,found⟩ := violated.enters
      exact .inr ⟨i,(List.getElem?_eq_some_iff.mp found).1,rest,rfl⟩

end

theorem Args.sizeOf_mem {args : Args} {arg : Expr} (member : arg ∈ args.toList) : sizeOf arg < sizeOf args := by
  cases args with
  | nil => cases member
  | cons first rest =>
    rw [Args.cons.sizeOf_spec]
    rcases List.mem_cons.mp member with rfl | later
    · omega
    · have := Args.sizeOf_mem later
      omega
theorem Block.sizeOf_mem {b : Block} {s : Stmt} (member : s ∈ b.stmts) : sizeOf s < sizeOf b := by
  cases b with
  | result value => cases member
  | step first rest =>
    rw [Block.step.sizeOf_spec]
    rcases List.mem_cons.mp member with rfl | later
    · omega
    · have := Block.sizeOf_mem later
      omega
theorem Block.sizeOf_value (b : Block) : sizeOf b.value < sizeOf b := by
  cases b with
  | result value =>
    rw [Block.value,Block.result.sizeOf_spec]
    omega
  | step first rest =>
    have := rest.sizeOf_value
    rw [Block.value,Block.step.sizeOf_spec]
    omega
theorem Node.sizeOf_piece (member : piece ∈ n.pieces) : sizeOf piece < sizeOf n := by
  cases n with
  | expr e =>
    rw [Node.expr.sizeOf_spec]
    cases e with
    | literal _ | var _ => cases member
    | binary left op right =>
      rw [Expr.binary.sizeOf_spec]
      simp only [pieces,List.mem_cons,List.not_mem_nil,or_false] at member
      rcases member with rfl | rfl <;> rw [Node.expr.sizeOf_spec] <;> omega
    | call callee args =>
      obtain ⟨arg,inside,rfl⟩ := List.mem_map.mp member
      have := Args.sizeOf_mem inside
      rw [Expr.call.sizeOf_spec,Node.expr.sizeOf_spec]
      omega
    | scope body =>
      cases List.mem_singleton.mp member
      rw [Expr.scope.sizeOf_spec,Node.block.sizeOf_spec]
      omega
    | loop cond body =>
      rw [Expr.loop.sizeOf_spec]
      simp only [pieces,List.mem_cons,List.not_mem_nil,or_false] at member
      rcases member with rfl | rfl
      · rw [Node.expr.sizeOf_spec]
        omega
      · rw [Node.block.sizeOf_spec]
        omega
  | stmt s =>
    rw [Node.stmt.sizeOf_spec]
    cases s with
    | discard value | bindConst name value | bindMut name value | assign name value =>
      cases List.mem_singleton.mp member
      simp only [Stmt.discard.sizeOf_spec,Stmt.bindConst.sizeOf_spec,Stmt.bindMut.sizeOf_spec,Stmt.assign.sizeOf_spec,
        Node.expr.sizeOf_spec]
      omega
  | block b =>
    rw [Node.block.sizeOf_spec]
    rcases List.mem_append.mp member with early | last
    · obtain ⟨s,inside,rfl⟩ := List.mem_map.mp early
      have := Block.sizeOf_mem inside
      rw [Node.stmt.sizeOf_spec]
      omega
    · cases List.mem_singleton.mp last
      have := b.sizeOf_value
      rw [Node.expr.sizeOf_spec]
      omega

end

/-- The violations of syntax are those at its places, one for each place, in source order. -/
theorem Node.sweeps (n : Node) (scope : Scope) : n.Sweeps scope (fun _ => True) (n.violations scope) :=
  Node.sweeps_pieces (fun piece member scope =>
    -- The statements of a block are not its parts as a term, so that the recursion goes by size.
    have := Node.sizeOf_piece member
    piece.sweeps scope) scope
termination_by sizeOf n

/-! ### Each violation once -/

/-- The violation is listed with the place, and with none before it. -/
def Earliest (found : List (Place × Violation)) (place : Place) (violation : Violation) : Prop :=
  (place,violation) ∈ found ∧ ∀ earlier : Place, earlier.Before place → (earlier,violation) ∉ found

/-- The violation occurs at the place, and at none before it. -/
def Node.FirstAt (n : Node) (scope : Scope) (place : Place) (violation : Violation) : Prop :=
  n.ViolatedAt scope place violation ∧ ∀ earlier : Place, earlier.Before place → ¬ n.ViolatedAt scope earlier violation

section
variable {found : List (Place × Violation)} {place last : Place} {violation newest : Violation}

/-- What is listed later does not come before. -/
theorem Earliest.snoc (earliest : Earliest found place violation) (late : ∀ entry ∈ found, entry.1.Before last) :
    Earliest (found ++ [(last,newest)]) place violation := by
  refine ⟨List.mem_append_left _ earliest.1,fun earlier before member => ?_⟩
  rcases List.mem_append.mp member with old | new
  · exact earliest.2 earlier before old
  · cases List.mem_singleton.mp new
    exact before.asymm (late _ earliest.1)
theorem earliest_last (fresh : newest ∉ found.map Prod.snd) : Earliest (found ++ [(last,newest)]) last newest := by
  refine ⟨List.mem_append_right _ List.mem_cons_self,fun earlier before member => ?_⟩
  rcases List.mem_append.mp member with old | new
  · exact fresh (List.mem_map_of_mem old)
  · cases List.mem_singleton.mp new
    exact before.asymm before
theorem exists_earliest (ordered : found.Pairwise fun a b => a.1.Before b.1) (member : violation ∈ found.map Prod.snd) :
    ∃ place, Earliest found place violation := by
  induction found using List.reverseRecOn with
  | nil => cases member
  | append_singleton found entry ih =>
    obtain ⟨before,_,apart⟩ := List.pairwise_append.mp ordered
    have late : ∀ earlier ∈ found, earlier.1.Before entry.1 := fun earlier old => apart earlier old _ List.mem_cons_self
    by_cases known : violation ∈ found.map Prod.snd
    · obtain ⟨place,earliest⟩ := ih before known
      exact ⟨place,earliest.snoc late⟩
    · rw [List.map_append,List.mem_append] at member
      obtain rfl := List.mem_singleton.mp (member.resolve_left known)
      exact ⟨entry.1,earliest_last known⟩
/-- Without repetitions, violations are listed in the order of their earliest places. -/
theorem eraseDups_ordered (ordered : found.Pairwise fun a b => a.1.Before b.1) :
    (found.map Prod.snd).eraseDups.Pairwise fun violation later =>
      ∃ p q : Place, Earliest found p violation ∧ Earliest found q later ∧ p.Before q := by
  -- From the end of the list: one more entry changes none of the earliest places so far.
  induction found using List.reverseRecOn with
  | nil => exact .nil
  | append_singleton found entry ih =>
    obtain ⟨before,_,apart⟩ := List.pairwise_append.mp ordered
    have late : ∀ earlier ∈ found, earlier.1.Before entry.1 := fun earlier old => apart earlier old _ List.mem_cons_self
    have grown : (found.map Prod.snd).eraseDups.Pairwise fun violation later =>
        ∃ p q : Place, Earliest (found ++ [entry]) p violation ∧ Earliest (found ++ [entry]) q later ∧ p.Before q := by
      refine (ih before).imp ?_
      rintro violation later ⟨p,q,first,second,less⟩
      exact ⟨p,q,first.snoc late,second.snoc late,less⟩
    rw [List.map_append,List.eraseDups_append]
    by_cases known : entry.2 ∈ found.map Prod.snd
    · simpa [List.removeAll,known] using grown
    · have single : ([entry].map Prod.snd).removeAll (found.map Prod.snd) = [entry.2] := by simpa [List.removeAll] using known
      rw [single]
      refine List.pairwise_append.mpr ⟨grown,List.pairwise_singleton _ _,?_⟩
      intro violation old later new
      obtain rfl := List.mem_singleton.mp (List.mem_eraseDups.mp new)
      obtain ⟨place,earliest⟩ := exists_earliest before (List.mem_eraseDups.mp old)
      exact ⟨place,entry.1,earliest.snoc late,earliest_last known,late _ earliest.1⟩

end

theorem Node.mem_check_iff (n : Node) (scope : Scope) (violation : Violation) :
    violation ∈ n.check scope ↔ ∃ place, n.ViolatedAt scope place violation := by
  obtain ⟨found,listed,_,covers⟩ := n.sweeps scope
  rw [check,List.mem_eraseDups,← listed,List.mem_map]
  constructor
  · rintro ⟨entry,member,rfl⟩
    exact ⟨entry.1,((covers _ _).mp member).2⟩
  · rintro ⟨place,violated⟩
    exact ⟨(place,violation),(covers _ _).mpr ⟨trivial,violated⟩,rfl⟩
theorem Node.check_ordered (n : Node) (scope : Scope) : (n.check scope).Pairwise fun violation later =>
    ∃ p q : Place, n.FirstAt scope p violation ∧ n.FirstAt scope q later ∧ p.Before q := by
  obtain ⟨found,listed,ordered,covers⟩ := n.sweeps scope
  have first {place : Place} {violation : Violation} (earliest : Earliest found place violation) : n.FirstAt scope place violation :=
    ⟨((covers _ _).mp earliest.1).2,fun earlier before violated => earliest.2 earlier before ((covers _ _).mpr ⟨trivial,violated⟩)⟩
  rw [check,← listed]
  refine (eraseDups_ordered ordered).imp ?_
  rintro violation later ⟨p,q,one,other,less⟩
  exact ⟨p,q,first one,first other,less⟩

/-! ### The report -/

theorem Violation.error_injective : Function.Injective Violation.error := by
  intro a b same
  cases a <;> cases b <;> cases same <;> rfl
theorem Node.nodup_check (n : Node) (scope : Scope) : (n.check scope).Nodup := by
  refine (n.check_ordered scope).imp ?_
  rintro violation _ ⟨p,q,first,second,less⟩ rfl
  exact second.2 p less first.1
theorem Node.error_mem_iff (n : Node) (scope : Scope) (violation : Violation) :
    violation.error ∈ (n.check scope).map Violation.error ↔ ∃ place, n.ViolatedAt scope place violation :=
  (List.mem_map_of_injective Violation.error_injective).trans (n.mem_check_iff scope violation)

/-- The check of syntax reports exactly its violations of visibility, each once and in source order, and changes no scope. -/
theorem check_reports_exactly (n : Node) (scope : Scope) :
    let errors := (n.check scope).map Violation.error
    (∀ name, .undeclaredVariable (.text name) ∈ errors ↔ ∃ place,
      (n.at? place = some (.expr (.var name)) ∨ ∃ value, n.at? place = some (.stmt (.assign name value))) ∧
        n.visible? scope place name = none) ∧
    (∀ name, .immutableAssignment (.text name) ∈ errors ↔ ∃ place value,
      n.at? place = some (.stmt (.assign name value)) ∧ n.visible? scope place name = some false) ∧
    (∀ error ∈ errors, ∃ name, error = .undeclaredVariable (.text name) ∨ error = .immutableAssignment (.text name)) ∧
    errors.Nodup ∧
    ((n.check scope).Pairwise fun violation later =>
      ∃ p q : Place, n.FirstAt scope p violation ∧ n.FirstAt scope q later ∧ p.Before q) ∧
    ∀ (scopes : List Scope) (number : Nat), scopes[number]? = some scope →
      (n.checkShared scopes number).1 = n.check scope ∧ scopes <+: (n.checkShared scopes number).2 := by
  refine ⟨fun name => ?_,fun name => ?_,?_,?_,n.check_ordered scope,fun scopes number held => n.checkShared_spec held⟩
  · refine (n.error_mem_iff scope (.undeclared name)).trans ⟨?_,?_⟩
    · rintro ⟨place,⟨stands,unbound⟩ | ⟨stands,unbound⟩⟩
      · exact ⟨place,.inl stands,unbound⟩
      · exact ⟨place,.inr ⟨_,stands⟩,unbound⟩
    · rintro ⟨place,stands | ⟨value,stands⟩,unbound⟩
      · exact ⟨place,.read stands unbound⟩
      · exact ⟨place,.assigned stands unbound⟩
  · refine (n.error_mem_iff scope (.immutable name)).trans ⟨?_,?_⟩
    · rintro ⟨place,violated⟩
      cases violated with
      | frozen stands fixed => exact ⟨place,_,stands,fixed⟩
    · rintro ⟨place,value,stands,fixed⟩
      exact ⟨place,.frozen stands fixed⟩
  · intro error member
    obtain ⟨violation,_,rfl⟩ := List.mem_map.mp member
    cases violation with
    | undeclared name => exact ⟨name,.inl rfl⟩
    | immutable name => exact ⟨name,.inr rfl⟩
  · exact (n.nodup_check scope).map Violation.error_injective

/-- A block that binds `x` to itself and then assigns it from `y`, a loop on `z` whose body binds and assigns `z`, an inner
    mutable `x`, and the first assignment again. -/
def misusing : Node :=
  let assignX := Stmt.assign (lit "x") (.var (lit "y"))
  .block (.step (.bindConst (lit "x") (.var (lit "x")))
    (.step assignX
    (.step (.discard (.loop (.var (lit "z"))
      (.step (.bindMut (lit "z") (.literal 1)) (.step (.assign (lit "z") (.literal 2)) (.result (.var (lit "z")))))))
    (.step (.discard (.scope (.step (.bindMut (lit "x") (.literal 1))
      (.step (.assign (lit "x") (.var (lit "w"))) (.result (.var (lit "x")))))))
    (.step assignX (.result (.var (lit "z"))))))))
/-- Where `w` is visible, the block has four violations, and the caller's two scopes are not changed by the check. The assignment
    of `z` in the loop's body is none of them. -/
theorem check_reports_exactly_misusing :
    misusing.check [(lit "w",false)] =
      [.undeclared (lit "x"),.immutable (lit "x"),.undeclared (lit "y"),.undeclared (lit "z")] ∧
    (misusing.checkShared [[],[(lit "w",false)]] 1).1 = misusing.check [(lit "w",false)] ∧
    [[],[(lit "w",false)]] <+: (misusing.checkShared [[],[(lit "w",false)]] 1).2 ∧
    (∃ name, (Violation.immutable (lit "x")).error = .undeclaredVariable (.text name) ∨
      (Violation.immutable (lit "x")).error = .immutableAssignment (.text name)) ∧
    ¬ ∃ place value, misusing.at? place = some (.stmt (.assign (lit "z") value)) ∧
      misusing.visible? [(lit "w",false)] place (lit "z") = some false := by
  have found : misusing.check [(lit "w",false)] =
      [.undeclared (lit "x"),.immutable (lit "x"),.undeclared (lit "y"),.undeclared (lit "z")] := by decide +kernel
  obtain ⟨_,frozen,others,_,_,shared⟩ := check_reports_exactly misusing [(lit "w",false)]
  obtain ⟨same,kept⟩ := shared [[],[(lit "w",false)]] 1 rfl
  refine ⟨found,same,kept,others _ ?_,?_⟩
  · rw [found]
    exact List.mem_cons_of_mem _ List.mem_cons_self
  · intro violated
    have reported : (Violation.immutable (lit "z")).error ∈ _ := (frozen (lit "z")).mpr violated
    rw [List.mem_map_of_injective Violation.error_injective,found] at reported
    revert reported
    decide +kernel

end Lev
