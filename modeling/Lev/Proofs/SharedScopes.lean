import Lev.Analysis.Bindings
import Mathlib.Data.List.Induction
import Mathlib.Tactic.Common

/-!
The binding check on scopes that can be changed in place. A walk through the syntax reaches scopes by number, and whoever holds a
number sees every change of the scope. The walk binds names only in copies that it has made itself, so it finds what the check
finds, and the scopes that were there before stay as they were.
-/
namespace Lev

/-! ### The walk -/

/-- The violations with one more, unless it is among them. -/
def Violation.report (found : List Violation) (violation : Violation) : List Violation :=
  if violation ∈ found then found else found ++ [violation]

/-- The scopes that exist, each reached by its number, and the violations found so far. -/
structure Walk where
  scopes : List Scope
  found : List Violation

namespace Walk

def scope (w : Walk) (number : Nat) : Scope := (w.scopes[number]?).getD []

def report (w : Walk) (violations : List Violation) : Walk := { w with found := violations.foldl Violation.report w.found }

/-- A copy of a scope, under the next number. -/
def copy (w : Walk) (number : Nat) : Walk := { w with scopes := w.scopes ++ [w.scope number] }

/-- A name set in a scope, in place. -/
def bind (w : Walk) (number : Nat) (name : Text) (isMutable : Bool) : Walk :=
  { w with scopes := w.scopes.modify number (·.set name isMutable) }

/-- A name set in a copy of a scope, and the number of the copy. -/
def bindCopy (w : Walk) (number : Nat) (name : Text) (isMutable : Bool) : Nat × Walk :=
  (w.scopes.length,(w.copy number).bind w.scopes.length name isMutable)

end Walk

mutual

def Expr.walk : Expr → Nat → Walk → Walk
  | .literal _, _, w => w
  | .var name, number, w => w.report ((w.scope number).readViolations name)
  | .binary left _ right, number, w => right.walk number (left.walk number w)
  | .call _ args, number, w => args.walk number w
  | .scope body, number, w => body.walk w.scopes.length (w.copy number)
  | .loop cond body, number, w =>
    let w := cond.walk number w
    body.walk w.scopes.length (w.copy number)

def Args.walk : Args → Nat → Walk → Walk
  | .nil, _, w => w
  | .cons first rest, number, w => rest.walk number (first.walk number w)

/-- The walk through a statement, and the number of the scope after it. -/
def Stmt.walk : Stmt → Nat → Walk → Nat × Walk
  | .discard value, number, w => (number,value.walk number w)
  | .bindConst name value, number, w => (value.walk number w).bindCopy number name false
  | .bindMut name value, number, w => (value.walk number w).bindCopy number name true
  | .assign name value, number, w => (number,value.walk number (w.report ((w.scope number).assignViolations name)))

def Block.walk : Block → Nat → Walk → Walk
  | .result value, number, w => value.walk number w
  | .step first rest, number, w =>
    let after := first.walk number w
    rest.walk after.1 after.2

end

def Node.walk : Node → Nat → Walk → Walk
  | .expr e, number, w => e.walk number w
  | .stmt s, number, w => (s.walk number w).2
  | .block b, number, w => b.walk number w

/-- The check of syntax in a scope that others hold, on a copy of it: the violations, and the scopes afterwards. -/
def Node.checkShared (n : Node) (scopes : List Scope) (number : Nat) : List Violation × List Scope :=
  let w := n.walk scopes.length (Walk.copy ⟨scopes,[]⟩ number)
  (w.found,w.scopes)

/-! ### What the walk does -/

/-- From one point of the walk to a later one, the violations are reported in turn and every scope stays as it was. -/
structure Walk.Finds (w w' : Walk) (violations : List Violation) : Prop where
  kept : w.scopes <+: w'.scopes
  found : w'.found = violations.foldl Violation.report w.found

section
variable {w w' w'' : Walk} {number : Nat} {scope : Scope} {violations more : List Violation}

theorem Walk.Finds.refl (w : Walk) : w.Finds w [] := ⟨List.prefix_rfl,rfl⟩
theorem Walk.Finds.trans (first : w.Finds w' violations) (second : w'.Finds w'' more) : w.Finds w'' (violations ++ more) := by
  refine ⟨first.kept.trans second.kept,?_⟩
  rw [second.found,first.found,List.foldl_append]
theorem Walk.Finds.holds (finds : w.Finds w' violations) (held : w.scopes[number]? = some scope) :
    w'.scopes[number]? = some scope := by
  obtain ⟨made,grown⟩ := finds.kept
  rw [← grown,List.getElem?_append_left (List.getElem?_eq_some_iff.mp held).1]
  exact held
theorem Walk.scope_of_held (held : w.scopes[number]? = some scope) : w.scope number = scope := by rw [Walk.scope,held]; rfl
theorem Walk.finds_report (w : Walk) (violations : List Violation) : w.Finds (w.report violations) violations :=
  ⟨List.prefix_rfl,rfl⟩
theorem Walk.finds_copy (w : Walk) (number : Nat) : w.Finds (w.copy number) [] := ⟨List.prefix_append _ _,rfl⟩
theorem Walk.copy_holds (held : w.scopes[number]? = some scope) : (w.copy number).scopes[w.scopes.length]? = some scope := by
  rw [Walk.copy,List.getElem?_concat_length,scope_of_held held]
/-- A change of the copy does not reach the scopes of before. -/
theorem Walk.scopes_bindCopy (w : Walk) (number : Nat) (name : Text) (isMutable : Bool) :
    (w.bindCopy number name isMutable).2.scopes = w.scopes ++ [(w.scope number).set name isMutable] := by
  simp [bindCopy,bind,copy,List.modify_eq_take_drop]
theorem Walk.Finds.bindCopy (finds : w.Finds w' violations) (held : w.scopes[number]? = some scope) (name : Text)
    (isMutable : Bool) : w.Finds (w'.bindCopy number name isMutable).2 violations ∧
      (w'.bindCopy number name isMutable).2.scopes[(w'.bindCopy number name isMutable).1]? = some (scope.set name isMutable) := by
  rw [scopes_bindCopy,scope_of_held (finds.holds held)]
  refine ⟨⟨?_,finds.found⟩,List.getElem?_concat_length⟩
  rw [scopes_bindCopy]
  exact finds.kept.trans (List.prefix_append _ _)

end

mutual

theorem Expr.walk_finds (e : Expr) {number : Nat} {w : Walk} {scope : Scope} (held : w.scopes[number]? = some scope) :
    w.Finds (e.walk number w) (e.violations scope) := by
  cases e with
  | literal _ => exact .refl w
  | var name =>
    obtain rfl := Walk.scope_of_held held
    exact w.finds_report _
  | binary left op right =>
    have finds := left.walk_finds held
    exact finds.trans (right.walk_finds (finds.holds held))
  | call callee args => exact args.walk_finds held
  | scope body => exact (w.finds_copy number).trans (body.walk_finds (Walk.copy_holds held))
  | loop cond body =>
    have finds := cond.walk_finds held
    have inside := ((cond.walk number w).finds_copy number).trans (body.walk_finds (Walk.copy_holds (finds.holds held)))
    exact finds.trans inside

theorem Args.walk_finds (args : Args) {number : Nat} {w : Walk} {scope : Scope} (held : w.scopes[number]? = some scope) :
    w.Finds (args.walk number w) (args.violations scope) := by
  cases args with
  | nil => exact .refl w
  | cons first rest =>
    have finds := first.walk_finds held
    exact finds.trans (rest.walk_finds (finds.holds held))

/-- After a statement, its number is that of the scope extended by the statement. -/
theorem Stmt.walk_finds (s : Stmt) {number : Nat} {w : Walk} {scope : Scope} (held : w.scopes[number]? = some scope) :
    w.Finds (s.walk number w).2 (s.violations scope) ∧
      (s.walk number w).2.scopes[(s.walk number w).1]? = some (s.extend scope) := by
  cases s with
  | discard value =>
    have finds := value.walk_finds held
    exact ⟨finds,finds.holds held⟩
  | bindConst name value => exact (value.walk_finds held).bindCopy held name false
  | bindMut name value => exact (value.walk_finds held).bindCopy held name true
  | assign name value =>
    obtain rfl := Walk.scope_of_held held
    have target := w.finds_report ((w.scope number).assignViolations name)
    have finds := target.trans (value.walk_finds (target.holds held))
    exact ⟨finds,finds.holds held⟩

theorem Block.walk_finds (b : Block) {number : Nat} {w : Walk} {scope : Scope} (held : w.scopes[number]? = some scope) :
    w.Finds (b.walk number w) (b.violations scope) := by
  cases b with
  | result value => exact value.walk_finds held
  | step first rest =>
    obtain ⟨finds,extended⟩ := first.walk_finds held
    exact finds.trans (rest.walk_finds extended)

end

theorem Node.walk_finds (n : Node) {number : Nat} {w : Walk} {scope : Scope} (held : w.scopes[number]? = some scope) :
    w.Finds (n.walk number w) (n.violations scope) := by
  cases n with
  | expr e => exact e.walk_finds held
  | stmt s => exact (s.walk_finds held).1
  | block b => exact b.walk_finds held

theorem Violation.foldl_report (violations : List Violation) : violations.foldl Violation.report [] = violations.eraseDups := by
  induction violations using List.reverseRecOn with
  | nil => rfl
  | append_singleton violations violation ih =>
    rw [List.foldl_append,ih,List.foldl_cons,List.foldl_nil,List.eraseDups_append]
    by_cases known : violation ∈ violations
    · simp [report,List.removeAll,known]
    · simp [report,List.removeAll,known,List.eraseDups_cons]
/-- On shared scopes the check finds the same, and the scopes that others hold are not changed. -/
theorem Node.checkShared_spec (n : Node) {scopes : List Scope} {number : Nat} {scope : Scope} (held : scopes[number]? = some scope) :
    (n.checkShared scopes number).1 = n.check scope ∧ scopes <+: (n.checkShared scopes number).2 := by
  have copied := Walk.finds_copy ⟨scopes,[]⟩ number
  have finds := copied.trans (n.walk_finds (Walk.copy_holds held))
  exact ⟨finds.found.trans (Violation.foldl_report _),finds.kept⟩

end Lev
