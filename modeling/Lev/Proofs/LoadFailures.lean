import Lev.Command.Compile
import Lev.Proofs.Encoding
import Lev.Proofs.Names
import Lev.Proofs.Reading
import Mathlib.Logic.Relation

/-!
How loading fails. A value that is no syntax is refused with an error about its format, and a program
that is refused so ends the command with status 1. What escapes this: a kind that is a list or an object,
where a statement is loaded; an integer with too many digits, where it is read or is to be shown in an
error; a value or text that nests too deep for the stack of the machine; and a file that is not encoded as
text. They end the command with status 2.
-/
namespace Lev

/-- The error is about the format of a document. -/
def LoadError.IsFormat (error : LoadError) : Prop := ∃ fault, error = .format fault

namespace Load

/-- To load the first value at its place, the second has to be loaded at its own. -/
inductive Part : Place × Json → Place × Json → Prop
  | asBlock {d : Json} (kind : d.HasKind "Block" ∨ (d.member? "kind").getD .null = .null) : Part (.node,d) (.block,d)
  | asStmt (d : Json) : Part (.node,d) (.stmt,d)
  | asExpr (d : Json) : Part (.node,d) (.expr,d)
  | left {d v : Json} (kind : d.HasKind "Infix") (found : d.member? "left" = some v) : Part (.expr,d) (.expr,v)
  | right {d v : Json} (kind : d.HasKind "Infix") (found : d.member? "right" = some v) : Part (.expr,d) (.expr,v)
  | arg {d v : Json} {items : List Json} (kind : d.HasKind "Call") (found : d.member? "args" = some (.list items))
      (item : v ∈ items) : Part (.expr,d) (.expr,v)
  | scope {d v : Json} (kind : d.HasKind "Scope") (found : d.member? "block" = some v) : Part (.expr,d) (.block,v)
  | cond {d v : Json} (kind : d.HasKind "While") (found : d.member? "cond" = some v) : Part (.expr,d) (.expr,v)
  | body {d v : Json} (kind : d.HasKind "While") (found : d.member? "block" = some v) : Part (.expr,d) (.block,v)
  | discarded {d v : Json} (kind : d.HasKind "TermSemicolon") (found : d.member? "expr" = some v) : Part (.stmt,d) (.expr,v)
  | bound {d v : Json} {binder : Binder} (kind : d.member? "kind" = some (.text binder.tag))
      (found : d.member? "rhs" = some v) : Part (.stmt,d) (.expr,v)
  | step {d v : Json} {items : List Json} (found : d.member? "stmts" = some (.list items)) (item : v ∈ items) :
      Part (.block,d) (.stmt,v)
  | last {d v : Json} (found : d.member? "end" = some v) : Part (.block,d) (.expr,v)

/-- The error that a kind leads to where it is looked up among words and is none. -/
inductive KindError : Json → LoadError → Prop
  | list (items : List Json) : KindError (.list items) .listKind
  | object (members : List (Text × Json)) : KindError (.object members) .objectKind

/-- To load the value at its place, a statement has to be loaded whose kind leads to the error. -/
def Misled (place : Place) (d : Json) (error : LoadError) : Prop :=
  ∃ v kind, Relation.ReflTransGen Part (place,d) (.stmt,v) ∧ v.member? "kind" = some kind ∧ KindError kind error

/-- An error about the first value at its place can show the second: a value that is no object, or its kind, name, value or
    operator. -/
inductive Quoted : Place → Json → Json → Prop
  | whole {place : Place} {d : Json} (plain : ∀ members, d ≠ .object members) : Quoted place d d
  | member {place : Place} {d v : Json} {name : String} (inside : place = .expr ∨ place = .stmt)
      (listed : name ∈ ["kind","name","value","op"]) (found : d.member? name = some v) : Quoted place d v

/-- To load the value at its place, a value has to be loaded about which an error would show what cannot be printed. -/
def Unshown (place : Place) (d : Json) (error : LoadError) : Prop :=
  error = .unprintable ∧ ∃ place' v w, Relation.ReflTransGen Part (place,d) (place',v) ∧ Quoted place' v w ∧ w.isPrintable = false

/-- Every error of the step is of the given sort. -/
def FailsAs (sort : LoadError → Prop) {α : Type} (step : Load α) : Prop := ∀ error, step = .error error → sort error

/-- The error is about the format of the value, or what it would show of the value cannot be printed. -/
inductive Own (place : Place) (d : Json) : LoadError → Prop
  | format (fault : FormatError) : Own place d (.format fault)
  | unprintable {v : Json} (quoted : Quoted place d v) (long : v.isPrintable = false) : Own place d .unprintable

/-- The errors of loading a value at a place that do not come from the value itself come from its parts. -/
def FromParts (place : Place) (d : Json) (error : LoadError) : Prop :=
  Own place d error ∨ ∃ place' v, Part (place,d) (place',v) ∧ as place' v = .error error

section
variable {α β : Type} {sort : LoadError → Prop} {place : Place} {d : Json}

theorem FailsAs.ok (a : α) : FailsAs sort (.ok a : Load α) := fun _ failed => by cases failed
/-- A refusal is about the format, unless it would show what cannot be printed. -/
theorem FailsAs.refuse {fault : FormatError} (quoted : ∀ v, fault.value? = some v → v.isPrintable = false → Quoted place d v) :
    FailsAs (Own place d) (refuse fault : Load α) := by
  intro error failed
  unfold Load.refuse at failed
  split at failed
  · cases failed
    exact .format fault
  · rename_i long
    cases failed
    cases shown : fault.value? with
    | none => exact absurd rfl (shown ▸ long)
    | some v =>
      rw [shown] at long
      have unprintable : v.isPrintable = false := by simpa using long
      exact .unprintable (quoted v shown unprintable) unprintable
/-- The error shows no value. -/
theorem FailsAs.refuse_plain {fault : FormatError} (plain : fault.value? = none) : FailsAs (Own place d) (Load.refuse fault : Load α) :=
  .refuse fun v shown => by simp [plain] at shown
theorem FailsAs.bind {first : Load α} {next : α → Load β} (failsFirst : FailsAs sort first)
    (failsNext : ∀ a, first = .ok a → FailsAs sort (next a)) : FailsAs sort (first >>= next) := by
  cases first with
  | error early =>
    intro error failed
    cases failed
    exact failsFirst _ rfl
  | ok a => exact failsNext a rfl
theorem FailsAs.mono {sort' : LoadError → Prop} {step : Load α} (fails : FailsAs sort step)
    (implies : ∀ error, sort error → sort' error) : FailsAs sort' step :=
  fun error failed => implies error (fails error failed)
theorem FailsAs.map {step : Load α} (fails : FailsAs sort step) (f : α → β) : FailsAs sort (step.map f) := by
  intro error failed
  cases step with
  | error early =>
    cases failed
    exact fails _ rfl
  | ok a => cases failed
theorem FailsAs.own {step : Load α} (fails : FailsAs (Own place d) step) : FailsAs (FromParts place d) step :=
  fails.mono fun _ => .inl
theorem FailsAs.part {place' : Place} {v : Json} {step : Load α} {f : α → Node} (part : Part (place,d) (place',v))
    (loads : as place' v = step.map f) : FailsAs (FromParts place d) step := by
  intro error failed
  exact .inr ⟨place',v,part,by rw [loads,failed]; rfl⟩

/-! ### The parts of the loader -/

variable {members : Members}

theorem required_fails (kind member : Text) : FailsAs (Own place d) (required kind member members) := by
  unfold required
  split
  · exact .ok _
  · exact .refuse_plain rfl
/-- An error about an object shows a member that has been looked up. -/
theorem Quoted.of_required {kind : Text} {name : String} {v : Json} (inside : place = .expr ∨ place = .stmt)
    (listed : name ∈ ["kind","name","value","op"]) (found : required kind (lit name) members = .ok v) :
    Quoted place (.object members) v :=
  .member inside listed (required_eq_ok_iff.mp found)
theorem name_fails (kind : Text) (inside : place = .expr ∨ place = .stmt) :
    FailsAs (Own place (.object members)) (name kind members) := by
  refine (required_fails kind (lit "name")).bind (fun v found => ?_)
  split
  · exact .ok _
  · refine .refuse fun w shown _ => ?_
    cases shown
    exact .of_required inside (by simp) found
theorem integer_fails : FailsAs (Own .expr (.object members)) (integer members) := by
  refine (required_fails (lit "Literal") (lit "value")).bind (fun v found => ?_)
  split
  · exact .ok _
  · refine .refuse fun w shown _ => ?_
    cases shown
    exact .of_required (.inl rfl) (by simp) found
theorem operator_fails : FailsAs (Own .expr (.object members)) (operator members) := by
  refine (required_fails (lit "Infix") (lit "op")).bind (fun v found => ?_)
  split
  · exact .ok _
  · refine .refuse fun w shown _ => ?_
    cases shown
    exact .of_required (.inl rfl) (by simp) found
theorem argsAreList_fails : FailsAs (Own place d) (argsAreList members) := by
  unfold argsAreList
  split
  · exact .ok _
  · exact .ok _
  · exact .refuse_plain rfl
theorem stmtsAreList_fails : FailsAs (Own place d) (stmtsAreList members) := by
  refine (required_fails (lit "Block") (lit "stmts")).bind (fun v _ => ?_)
  split
  · exact .ok _
  · exact .refuse_plain rfl
/-- A kind that cannot be printed is one that the object has. -/
theorem kind_fails {fault : FormatError} (shows : fault.value? = some (kind members)) (inside : place = .expr ∨ place = .stmt) :
    FailsAs (Own place (.object members)) (refuse fault : Load α) := by
  refine .refuse fun v shown long => ?_
  cases shows.symm.trans shown
  cases found : Table.get? (lit "kind") members with
  | none => simp [kind,found,Json.isPrintable] at long
  | some v =>
    have same : kind members = v := by simp [kind,found]
    exact .member inside (by simp) (same ▸ found)
theorem exprAt_fails (kind : Text) {member : String}
    (part : ∀ v, (Json.object members).member? member = some v → Part (place,d) (.expr,v)) :
    FailsAs (FromParts place d) (exprAt kind (lit member) members) := by
  rw [exprAt_eq]
  exact (required_fails kind (lit member)).own.bind fun v found => .part (part v (required_eq_ok_iff.mp found)) rfl
theorem blockAt_fails (kind : Text)
    (part : ∀ v, (Json.object members).member? "block" = some v → Part (place,d) (.block,v)) :
    FailsAs (FromParts place d) (blockAt kind members) := by
  rw [blockAt_eq]
  exact (required_fails kind (lit "block")).own.bind fun v found => .part (part v (required_eq_ok_iff.mp found)) rfl
theorem argItems_fails {items : List Json} (part : ∀ v ∈ items, Part (place,d) (.expr,v)) :
    FailsAs (FromParts place d) (argItems items) := by
  induction items with
  | nil =>
    rw [argItems]
    exact .ok _
  | cons item rest ih =>
    rw [argItems]
    refine .bind (.part (part item List.mem_cons_self) rfl) (fun first _ => ?_)
    exact (ih fun v later => part v (List.mem_cons_of_mem _ later)).bind fun _ _ => .ok _
theorem stmtItems_fails {items : List Json} (part : ∀ v ∈ items, Part (place,d) (.stmt,v)) :
    FailsAs (FromParts place d) (stmtItems items) := by
  induction items with
  | nil =>
    rw [stmtItems]
    exact .ok _
  | cons item rest ih =>
    rw [stmtItems]
    refine .bind (.part (part item List.mem_cons_self) rfl) (fun first _ => ?_)
    exact (ih fun v later => part v (List.mem_cons_of_mem _ later)).bind fun _ _ => .ok _
theorem argsAt_fails
    (part : ∀ items, (Json.object members).member? "args" = some (.list items) → ∀ v ∈ items, Part (place,d) (.expr,v)) :
    FailsAs (FromParts place d) (argsAt members) := by
  rw [argsAt_eq]
  split
  · exact .ok _
  · rename_i items found
    exact argItems_fails (part items found)
  · exact (FailsAs.refuse_plain rfl).own
theorem stmtsAt_fails
    (part : ∀ items, (Json.object members).member? "stmts" = some (.list items) → ∀ v ∈ items, Part (place,d) (.stmt,v)) :
    FailsAs (FromParts place d) (stmtsAt members) := by
  rw [stmtsAt_eq]
  split
  · exact (FailsAs.refuse_plain rfl).own
  · rename_i items found
    exact stmtItems_fails (part items found)
  · exact (FailsAs.refuse_plain rfl).own
theorem binder?_fails (v : Json) : FailsAs (KindError v) (binder? v) := by
  intro error failed
  cases v with
  | list items =>
    cases failed
    exact .list items
  | object members =>
    cases failed
    exact .object members
  | _ => cases failed

end

theorem KindError.found {members : Members} {error : LoadError} (failed : KindError (kind members) error) :
    ∃ v, (Json.object members).member? "kind" = some v ∧ KindError v error := by
  cases found : Table.get? (lit "kind") members with
  | none =>
    rw [kind,found] at failed
    cases failed
  | some v =>
    rw [kind,found] at failed
    exact ⟨v,found,failed⟩

/-! ### One value -/

/-- A value that is no object is refused as it is. -/
theorem FailsAs.plain {α : Type} {place : Place} {d : Json} (plain : ∀ members, d ≠ .object members) {fault : FormatError}
    (shows : fault.value? = some d) : FailsAs (FromParts place d) (Load.refuse fault : Load α) := by
  refine (FailsAs.refuse fun v shown _ => ?_).own
  cases shows.symm.trans shown
  exact .whole plain

theorem expr_fails (d : Json) : FailsAs (FromParts .expr d) (expr d) := by
  cases d with
  | object members =>
    simp only [expr]
    split_ifs with literal var binary call scope loop
    · exact integer_fails.own.bind fun _ _ => .ok _
    · exact (name_fails _ (.inl rfl)).own.bind fun _ _ => .ok _
    · have kind := kind_eq_text_iff.mp (isWord_iff.mp binary)
      refine operator_fails.own.bind (fun _ _ => ?_)
      refine (exprAt_fails _ fun v found => .left kind found).bind (fun _ _ => ?_)
      exact (exprAt_fails _ fun v found => .right kind found).bind fun _ _ => .ok _
    · have kind := kind_eq_text_iff.mp (isWord_iff.mp call)
      refine argsAreList_fails.own.bind (fun _ _ => ?_)
      refine (name_fails _ (.inl rfl)).own.bind (fun _ _ => ?_)
      exact (argsAt_fails fun items found v item => .arg kind found item).bind fun _ _ => .ok _
    · have kind := kind_eq_text_iff.mp (isWord_iff.mp scope)
      exact (blockAt_fails _ fun v found => .scope kind found).bind fun _ _ => .ok _
    · have kind := kind_eq_text_iff.mp (isWord_iff.mp loop)
      refine (exprAt_fails _ fun v found => .cond kind found).bind (fun _ _ => ?_)
      exact (blockAt_fails _ fun v found => .body kind found).bind fun _ _ => .ok _
    · exact (kind_fails rfl (.inl rfl)).own
  | _ =>
    rw [expr]
    · exact .plain (by simp) rfl
    · simp
theorem block_fails (d : Json) : FailsAs (FromParts .block d) (block d) := by
  cases d with
  | object members =>
    simp only [block]
    refine stmtsAreList_fails.own.bind (fun _ _ => ?_)
    refine (stmtsAt_fails fun items found v item => .step found item).bind (fun _ _ => ?_)
    exact (exprAt_fails _ fun v found => .last found).bind fun _ _ => .ok _
  | _ =>
    rw [block]
    · exact .plain (by simp) rfl
    · simp
theorem stmt_fails (d : Json) :
    FailsAs (fun error => FromParts .stmt d error ∨ ∃ kind, d.member? "kind" = some kind ∧ KindError kind error) (stmt d) := by
  cases d with
  | object members =>
    simp only [stmt]
    split_ifs with discard
    · have kind := kind_eq_text_iff.mp (isWord_iff.mp discard)
      refine ((exprAt_fails _ fun v found => .discarded kind found).bind fun _ _ => .ok _).mono ?_
      exact fun _ => .inl
    · refine .bind ((binder?_fails _).mono fun error failed => .inr ?_) (fun found looked => ?_)
      · exact failed.found
      · refine FailsAs.mono ?_ (fun _ => .inl)
        cases found with
        | none => exact (kind_fails rfl (.inr rfl)).own
        | some binder =>
          have kind := kind_eq_text_iff.mp (binder?_eq_ok_iff.mp looked)
          refine (name_fails _ (.inr rfl)).own.bind (fun _ _ => ?_)
          exact (exprAt_fails _ fun v found => .bound kind found).bind fun _ _ => .ok _
  | _ =>
    rw [stmt]
    · exact (FailsAs.plain (by simp) rfl).mono fun _ => .inl
    · simp

theorem node_fails (d : Json) : FailsAs (FromParts .node d) (node d) := by
  cases d with
  | object members =>
    simp only [node]
    split_ifs with isBlock discard
    · refine .bind (.part (.asBlock ?_) rfl) fun _ _ => .ok _
      rcases Bool.or_eq_true_iff.mp isBlock with word | bare
      · exact .inl (kind_eq_text_iff.mp (isWord_iff.mp word))
      · right
        split at bare
        · assumption
        · cases bare
    · exact .bind (.part (.asStmt _) rfl) fun _ _ => .ok _
    · refine .bind (fun error failed => .inr ⟨.stmt,_,.asStmt _,?_⟩) (fun found _ => ?_)
      · simp only [as,stmt]
        rw [if_neg discard,failed]
        rfl
      · cases found with
        | none => exact .bind (.part (.asExpr _) rfl) fun _ _ => .ok _
        | some binder => exact .bind (.part (.asStmt _) rfl) fun _ _ => .ok _
  | _ =>
    rw [node]
    · exact .plain (by simp) rfl
    · simp
/-- What an error at a place comes from. -/
theorem as_fails (place : Place) (d : Json) :
    FailsAs (fun error => FromParts place d error ∨
      place = .stmt ∧ ∃ kind, d.member? "kind" = some kind ∧ KindError kind error) (as place d) := by
  cases place with
  | node => exact (node_fails d).mono fun _ => .inl
  | expr => exact ((expr_fails d).map _).mono fun _ => .inl
  | stmt => exact ((stmt_fails d).map _).mono fun _ => Or.imp_right fun misled => ⟨rfl,misled⟩
  | block => exact ((block_fails d).map _).mono fun _ => .inl

/-! ### A whole document -/

theorem sizeOf_member {d v : Json} {name : String} (found : d.member? name = some v) : sizeOf v < sizeOf d := by
  obtain ⟨members,rfl⟩ := Json.object_of_member? found
  have inside := List.sizeOf_lt_of_mem (Table.mem_of_get? found)
  simp only [Prod.mk.sizeOf_spec,Json.object.sizeOf_spec] at inside ⊢
  omega
theorem sizeOf_item {d v : Json} {name : String} {items : List Json} (found : d.member? name = some (.list items))
    (item : v ∈ items) : sizeOf v < sizeOf d := by
  have outer := sizeOf_member found
  have inner := List.sizeOf_lt_of_mem item
  simp only [Json.list.sizeOf_spec] at outer
  omega
/-- A part is smaller, or it is the value itself at a place of its own. -/
theorem Part.smaller {place place' : Place} {d v : Json} (part : Part (place,d) (place',v)) :
    sizeOf v < sizeOf d ∨ v = d ∧ place = .node ∧ place' ≠ .node := by
  cases part with
  | asBlock _ | asStmt _ | asExpr _ => exact .inr ⟨rfl,rfl,by simp⟩
  | left _ found | right _ found | scope _ found | cond _ found | body _ found | discarded _ found | bound _ found | last found =>
    exact .inl (sizeOf_member found)
  | arg _ found item | step found item => exact .inl (sizeOf_item found item)
theorem Misled.of_part {place place' : Place} {d v : Json} {error : LoadError} (misled : Misled place' v error)
    (part : Part (place,d) (place',v)) : Misled place d error := by
  obtain ⟨s,kind,inside,found,wrong⟩ := misled
  exact ⟨s,kind,.head part inside,found,wrong⟩
theorem Unshown.of_part {place place' : Place} {d v : Json} {error : LoadError} (unshown : Unshown place' v error)
    (part : Part (place,d) (place',v)) : Unshown place d error := by
  obtain ⟨same,other,s,w,inside,quoted,long⟩ := unshown
  exact ⟨same,other,s,w,.head part inside,quoted,long⟩
/-- Every error is about the format, or about the kind of a statement that had to be loaded, or it would show what cannot be
    printed. -/
theorem as_explained (place : Place) (d : Json) :
    FailsAs (fun error => error.IsFormat ∨ Misled place d error ∨ Unshown place d error) (as place d) := by
  intro error failed
  rcases as_fails place d error failed with (own | ⟨place',v,part,failed'⟩) | ⟨rfl,kind,found,wrong⟩
  · cases own with
    | format fault => exact .inl ⟨fault,rfl⟩
    | unprintable quoted long => exact .inr (.inr ⟨rfl,_,_,_,.refl,quoted,long⟩)
  · have smaller := part.smaller
    exact (as_explained place' v error failed').imp id (.imp (·.of_part part) (·.of_part part))
  · exact .inr (.inl ⟨d,kind,.refl,found,wrong⟩)
termination_by (sizeOf d,if place = .node then 1 else 0)
decreasing_by
  rcases smaller with less | ⟨rfl,rfl,other⟩
  · exact .left _ _ less
  · exact .right _ (by simp [other])

/-! ### Values that can be printed -/

theorem isPrintable_member {d v : Json} {name : String} (found : d.member? name = some v) (printable : d.isPrintable = true) :
    v.isPrintable = true := by
  obtain ⟨members,rfl⟩ := Json.object_of_member? found
  exact Json.membersPrintable_iff.mp printable _ (Table.mem_of_get? found)
theorem isPrintable_item {d v : Json} {name : String} {items : List Json} (found : d.member? name = some (.list items))
    (item : v ∈ items) (printable : d.isPrintable = true) : v.isPrintable = true :=
  Json.arePrintable_iff.mp (isPrintable_member found printable) v item
theorem Part.isPrintable {place place' : Place} {d v : Json} (part : Part (place,d) (place',v)) (printable : d.isPrintable = true) :
    v.isPrintable = true := by
  cases part with
  | asBlock _ | asStmt _ | asExpr _ => exact printable
  | left _ found | right _ found | scope _ found | cond _ found | body _ found | discarded _ found | bound _ found | last found =>
    exact isPrintable_member found printable
  | arg _ found item | step found item => exact isPrintable_item found item printable
/-- Every error about a value that can be printed can be shown. -/
theorem not_unshown {place : Place} {d : Json} {error : LoadError} (printable : d.isPrintable = true) : ¬Unshown place d error := by
  rintro ⟨_,place',v,w,inside,quoted,long⟩
  have later : ∀ at' : Place × Json, Relation.ReflTransGen Part (place,d) at' → at'.2.isPrintable = true := by
    intro at' reached
    induction reached with
    | refl => exact printable
    | tail _ part ih => exact part.isPrintable ih
  have good : w.isPrintable = true := by
    cases quoted with
    | whole _ => exact later _ inside
    | member _ _ found => exact isPrintable_member found (later _ inside)
  rw [good] at long
  cases long

theorem refuse_of_long {α : Type} {fault : FormatError} {v : Json} (shows : fault.value? = some v) (long : v.isPrintable = false) :
    (refuse fault : Load α) = .error .unprintable := by
  unfold refuse
  rw [shows]
  simp [long]
/-- A value that is no object and cannot be printed. -/
theorem as_of_plain {d : Json} (plain : ∀ members, d ≠ .object members) (long : d.isPrintable = false) (place : Place) :
    as place d = .error .unprintable := by
  cases d with
  | object members => exact absurd rfl (plain members)
  | _ =>
    cases place <;> simp only [as,node,expr,stmt,block] <;> rw [refuse_of_long rfl long] <;> rfl
/-- A number as kind that cannot be printed. -/
theorem as_of_number {d : Json} {n : Int} (found : d.member? "kind" = some (.int n)) (long : (Json.int n).isPrintable = false)
    {place : Place} (tagged : place ≠ .block) : as place d = .error .unprintable := by
  obtain ⟨members,rfl⟩ := Json.object_of_member? found
  have looked : Load.kind members = .int n := by
    rw [Load.kind,show Table.get? (lit "kind") members = some (.int n) from found]
    rfl
  have noExpr : (refuse (.unknownExpr (.int n)) : Load Expr) = .error .unprintable := refuse_of_long rfl long
  have noStmt : (refuse (.unknownStmt (.int n)) : Load Stmt) = .error .unprintable := refuse_of_long rfl long
  cases place with
  | block => exact absurd rfl tagged
  | node => simp [as,node,expr,looked,isWord,binder?,noExpr]; rfl
  | expr => simp [as,expr,looked,isWord,noExpr]; rfl
  | stmt => simp [as,stmt,looked,isWord,binder?,noStmt]; rfl
theorem as_of_kind {d kind : Json} {error : LoadError} (found : d.member? "kind" = some kind) (wrong : KindError kind error) :
    as .stmt d = .error error ∧ as .node d = .error error := by
  obtain ⟨members,rfl⟩ := Json.object_of_member? found
  have looked : Load.kind members = kind := by
    rw [Load.kind,show Table.get? (lit "kind") members = some kind from found]
    rfl
  cases wrong with
  | list items => exact ⟨by simp [as,stmt,looked,isWord]; rfl,by simp [as,node,looked,isWord]; rfl⟩
  | object items => exact ⟨by simp [as,stmt,looked,isWord]; rfl,by simp [as,node,looked,isWord]; rfl⟩
theorem FailsAs.refuse_format {α : Type} {fault : FormatError} (plain : fault.value? = none) :
    FailsAs LoadError.IsFormat (Load.refuse fault : Load α) := by
  intro error failed
  unfold Load.refuse at failed
  rw [plain] at failed
  cases failed
  exact ⟨fault,rfl⟩
theorem asProgram_fails (n : Node) : FailsAs LoadError.IsFormat n.asProgram := by
  cases n with
  | stmt s => exact .refuse_format rfl
  | _ => exact .ok _
/-- What is read from a text can be printed, so that no error about it fails to show what is wrong. -/
theorem program_fails (t : Text) :
    FailsAs (fun error => error.IsFormat ∨
      (∃ digits, error = .unreadable (.oversizedInteger digits) ∧ Json.Reader.LongRun t digits) ∨
      ∃ d, Json.read t = .ok d ∧ Misled .node d error) (program t) := by
  cases result : Json.read t with
  | ok d =>
    rw [program_of_read result]
    refine .bind ((as_explained .node d).mono fun error explained => ?_) (fun n _ => ?_)
    · rcases explained with format | misled | unshown
      · exact .inl format
      · exact .inr (.inr ⟨d,rfl,misled⟩)
      · exact absurd unshown (not_unshown (Json.isPrintable_of_read result))
    · exact (asProgram_fails n).mono fun _ => .inl
  | error problem =>
    cases problem with
    | oversizedInteger digits =>
      rw [program_of_oversized result]
      intro error failed
      cases failed
      exact .inr (.inl ⟨digits,rfl,Json.read_oversized result⟩)
    | malformed problem line column offset =>
      rw [program_of_malformed result]
      exact (FailsAs.refuse_format rfl).mono fun _ => .inl

/-! ### A machine with its stack -/

theorem asOn_of_room {stack : Stack} {place : Place} {d : Json} (room : stack.value? place d = none) :
    asOn stack place d = as place d := by
  rw [asOn,room]
theorem asOn_fails (stack : Stack) (place : Place) (d : Json) :
    FailsAs (fun error => error.IsFormat ∨ Misled place d error ∨ Unshown place d error ∨
      ∃ complaint, stack.value? place d = some complaint ∧ error = .exhausted complaint) (asOn stack place d) := by
  cases full : stack.value? place d with
  | none =>
    rw [asOn_of_room full]
    exact (as_explained place d).mono fun _ => .imp_right (.imp_right .inl)
  | some complaint =>
    intro error failed
    rw [asOn,full] at failed
    cases failed
    exact .inr (.inr (.inr ⟨complaint,rfl,rfl⟩))
theorem programOn_fails (stack : Stack) (t : Text) :
    FailsAs (fun error => error.IsFormat ∨
      (∃ digits, error = .unreadable (.oversizedInteger digits) ∧ Json.Reader.LongRun t digits) ∨
      (∃ d, Json.read t = .ok d ∧ Misled .node d error) ∨
      ∃ complaint, stack.text? t = some complaint ∧ error = .exhausted complaint) (programOn stack t) := by
  cases full : stack.text? t with
  | none =>
    rw [programOn,full]
    exact (program_fails t).mono fun _ => .imp_right (.imp_right .inl)
  | some complaint =>
    intro error failed
    rw [programOn,full] at failed
    cases failed
    exact .inr (.inr (.inr ⟨complaint,rfl,rfl⟩))

end Load

/-! ### The command -/

theorem Plan.run_bind {α β : Type} (first : Plan α) (next : α → Plan β) (disk : Disk) :
    (first >>= next).run disk =
      let before := first.run disk
      let after := (next before.result).run before.disk
      ⟨after.result,before.out ++ after.out,before.err ++ after.err,after.disk⟩ := by
  change (first.bind next).run disk = _
  induction first generalizing disk with
  | done result => rfl
  | print text rest ih => simp [Plan.bind,Plan.run,ih,List.append_assoc]
  | warn text rest ih => simp [Plan.bind,Plan.run,ih,List.append_assoc]
  | read path rest ih => simp [Plan.bind,Plan.run,ih]
  | write path artifact rest ih =>
    simp only [Plan.bind,Plan.run]
    cases disk.write path artifact with
    | ok after => exact ih (.ok ()) after
    | error fault => exact ih (.error fault) disk

namespace Command

/-- The command gets as far as the bytes of the file that it was asked to compile. -/
structure Reads (arguments : List Text) (disk : Disk) (request : Request) (bytes : List UInt8) : Prop where
  parsed : parse arguments = .ok request
  announced : Utf8.unencodable? (lit "Loading " ++ request.source ++ lit "...") = none
  read : disk.read request.source = .ok bytes

/-- The command gets as far as the text of the program: the bytes of the file are the encoding of one. -/
def Opens (arguments : List Text) (disk : Disk) (request : Request) (text : Text) : Prop :=
  ∃ bytes raw, Reads arguments disk request bytes ∧ Utf8.decode bytes = .ok raw ∧ text = Utf8.unifyLineEnds raw

variable {stack : Load.Stack} {tools : Toolchain} {arguments : List Text} {disk : Disk} {request : Request} {bytes : List UInt8}
variable {text : Text} {error : LoadError} {stop : Stop}

theorem Reads.load_run (reads : Reads arguments disk request bytes) (stopped : decodeProgram stack request.source bytes = .error stop) :
    (load stack request.source).run.run disk = ⟨.error stop,[],[],disk⟩ := by
  have asked : (ExceptT.lift (.read request.source .done) : Task (Except FileError (List UInt8))).run.run disk =
      ⟨.ok (.ok bytes),[],[],disk⟩ := by
    rw [← reads.read]
    rfl
  rw [load,ExceptT.run_bind,Plan.run_bind,asked]
  dsimp only
  rw [stopped]
  rfl
theorem Reads.compile_run (reads : Reads arguments disk request bytes) (stopped : decodeProgram stack request.source bytes = .error stop) :
    (compile stack tools request).run.run disk =
      ⟨.error stop,lit "Loading " ++ request.source ++ lit "..." ++ lit "\n",[],disk⟩ := by
  have said : (say (lit "Loading " ++ request.source ++ lit "...")).run.run disk =
      ⟨.ok (),lit "Loading " ++ request.source ++ lit "..." ++ lit "\n",[],disk⟩ := by
    rw [say,reads.announced]
    change (⟨.ok (),_ ++ [],[],disk⟩ : Plan.Trace (Except Stop Unit)) = _
    rw [List.append_nil]
  rw [compile,ExceptT.run_bind,Plan.run_bind,said]
  dsimp only
  rw [ExceptT.run_bind,Plan.run_bind,reads.load_run stopped]
  simp [Plan.run,pure]
/-- A file that holds no program ends the command: it reports why and leaves the disk alone. -/
theorem Reads.run_of_stop (reads : Reads arguments disk request bytes) (stopped : decodeProgram stack request.source bytes = .error stop) :
    (plan stack tools arguments).run disk =
      ⟨stop.status,lit "Loading " ++ request.source ++ lit "..." ++ lit "\n",
        Utf8.escapeSurrogates stop.report ++ lit "\n",disk⟩ := by
  rw [plan,reads.parsed]
  dsimp only
  rw [Plan.run_bind,reads.compile_run stopped]
  simp [warnLine,Plan.run,pure,bind,Plan.bind]
theorem decodeProgram_of_undecodable {fault : Utf8.Fault} (failed : Utf8.decode bytes = .error fault) (path : Text) :
    decodeProgram stack path bytes = .error (.internal fault.message) := by
  simp [decodeProgram,failed,Except.mapError,bind,Except.bind]
theorem decodeProgram_of_error {raw : Text} (decoded : Utf8.decode bytes = .ok raw)
    (failed : Load.programOn stack (Utf8.unifyLineEnds raw) = .error error) (path : Text) :
    decodeProgram stack path bytes = .error (.ofLoad path error) := by
  simp [decodeProgram,decoded,failed,Except.mapError,bind,Except.bind]
theorem Stop.status_ofLoad (path : Text) (error : LoadError) :
    (error.IsFormat → (Stop.ofLoad path error).status = 1) ∧ (¬error.IsFormat → (Stop.ofLoad path error).status = 2) := by
  cases error with
  | format fault => exact ⟨fun _ => rfl,fun other => absurd ⟨fault,rfl⟩ other⟩
  | unprintable | listKind | objectKind | unreadable _ | exhausted _ =>
    refine ⟨?_,fun _ => rfl⟩
    rintro ⟨fault,same⟩
    cases same

end Command

/-- How loading fails on a machine. A value is refused with an error about its format, unless a statement in it has a list
    or an object as its kind, or the error would show a value with an integer that is too long to be printed, or the value
    nests too deep for the stack. Where the stack holds it, the value itself does escape so if its kind is a list or an
    object, if its kind is such an integer, or if it cannot be printed and is no object. The text of a program is refused
    with an error about its format, unless it has too many digits in a row, nests too deep for the stack or holds such a
    kind. The command ends with status 1 in the one case and with status 2 in the others, and also if the file is not
    encoded as text; it writes nothing. -/
theorem load_failures (stack : Load.Stack) (place : Load.Place) (d : Json) (t : Text) :
    (∀ error, Load.asOn stack place d = .error error → error.IsFormat ∨ Load.Misled place d error ∨ Load.Unshown place d error ∨
      ∃ complaint, stack.value? place d = some complaint ∧ error = .exhausted complaint) ∧
    (stack.value? place d = none →
      (∀ kind error, place = .stmt ∨ place = .node → d.member? "kind" = some kind → Load.KindError kind error →
        Load.asOn stack place d = .error error) ∧
      (∀ n, place ≠ .block → d.member? "kind" = some (.int n) → (Json.int n).isPrintable = false →
        Load.asOn stack place d = .error .unprintable) ∧
      ((∀ members, d ≠ .object members) → d.isPrintable = false → Load.asOn stack place d = .error .unprintable)) ∧
    (∀ error, Load.programOn stack t = .error error → error.IsFormat ∨
      (∃ digits, error = .unreadable (.oversizedInteger digits) ∧ Json.Reader.LongRun t digits) ∨
      (∃ d, Json.read t = .ok d ∧ Load.Misled .node d error) ∨
      ∃ complaint, stack.text? t = some complaint ∧ error = .exhausted complaint) ∧
    (∀ tools arguments disk request error, Command.Opens arguments disk request t → Load.programOn stack t = .error error →
      let trace := (Command.plan stack tools arguments).run disk
      (error.IsFormat → trace.result = 1) ∧ (¬error.IsFormat → trace.result = 2) ∧ trace.disk = disk) ∧
    ∀ tools arguments disk request bytes fault, Command.Reads arguments disk request bytes → Utf8.decode bytes = .error fault →
      let trace := (Command.plan stack tools arguments).run disk
      trace.result = 2 ∧ trace.disk = disk := by
  refine ⟨Load.asOn_fails stack place d,?_,Load.programOn_fails stack t,?_,?_⟩
  · intro room
    rw [Load.asOn_of_room room]
    refine ⟨?_,fun n tagged found long => Load.as_of_number found long tagged,fun plain long => Load.as_of_plain plain long place⟩
    rintro kind error (rfl | rfl) found wrong
    · exact (Load.as_of_kind found wrong).1
    · exact (Load.as_of_kind found wrong).2
  · rintro tools arguments disk request error ⟨bytes,raw,reads,decoded,rfl⟩ failed trace
    have run : trace = _ := reads.run_of_stop (Command.decodeProgram_of_error decoded failed request.source)
    obtain ⟨format,other⟩ := Command.Stop.status_ofLoad request.source error
    rw [run]
    exact ⟨format,other,rfl⟩
  · intro tools arguments disk request bytes fault reads failed trace
    have run : trace = _ := reads.run_of_stop (Command.decodeProgram_of_undecodable failed request.source)
    rw [run]
    exact ⟨rfl,rfl⟩

/-- An object with a list as its kind. -/
def misleading : Text := lit "\x7b\"kind\": []\x7d"

instance {α : Type} (step : Load α) : Decidable (step = .error .listKind) :=
  match step with
  | .error .listKind => .isTrue rfl
  | .error (.format _) | .error .unprintable | .error .objectKind | .error (.unreadable _) | .error (.exhausted _) | .ok _ =>
    .isFalse (by simp)

/-- The object with a list as its kind ends the command with status 2, and so does a file of one byte that begins no character.
    The least integer that is too long is not shown. -/
theorem load_failures_misleading :
    let d : Json := .object [(lit "kind",.list [])]
    let disk : Disk := ⟨[],[],[([lit "p.json"],.bytes (Utf8.encode misleading)),([lit "q.json"],.bytes [0xff])]⟩
    Load.asOn .unbounded .stmt d = .error .listKind ∧ Load.Misled .stmt d .listKind ∧
      Load.asOn .unbounded .node (.int Json.digitBound) = .error .unprintable ∧
      Load.programOn .unbounded misleading = .error .listKind ∧
      ((Command.plan .unbounded .x86 [lit "p.json"]).run disk).result = 2 ∧
      ((Command.plan .unbounded .x86 [lit "q.json"]).run disk).result = 2 := by
  intro d disk
  have parts := load_failures .unbounded .stmt d misleading
  have other : ¬LoadError.listKind.IsFormat := by
    rintro ⟨fault,same⟩
    cases same
  have asStmt := (parts.2.1 rfl).1 _ _ (.inl rfl) (rfl : d.member? "kind" = some (.list [])) (.list [])
  have misled : Load.Misled .stmt d .listKind := by
    rcases parts.1 _ asStmt with format | misled | ⟨same,_⟩ | ⟨_,full,_⟩
    · exact absurd format other
    · exact misled
    · cases same
    · cases full
  have long : (Json.int Json.digitBound).isPrintable = false := by simp [Json.isPrintable]
  have unprintable := ((load_failures .unbounded .node (.int Json.digitBound) misleading).2.1 rfl).2.2 (by simp) long
  have failed : Load.programOn .unbounded misleading = .error .listKind := by decide +kernel
  have opens : Command.Opens [lit "p.json"] disk _ misleading := ⟨_,_,⟨rfl,rfl,rfl⟩,rfl,rfl⟩
  have reads : Command.Reads [lit "q.json"] disk _ [0xff] := ⟨rfl,rfl,rfl⟩
  exact ⟨asStmt,misled,unprintable,failed,(parts.2.2.2.1 .x86 _ disk _ _ opens failed).2.1 other,
    (parts.2.2.2.2 .x86 _ disk _ _ _ reads rfl).1⟩
/-- Not every value that is refused is refused with an error about its format, even where the stack holds all calls. -/
theorem load_fails_otherwise :
    ¬((∀ place d error, Load.asOn .unbounded place d = .error error → error.IsFormat) ∧
      ∀ t error, Load.programOn .unbounded t = .error error → error.IsFormat) := by
  rintro ⟨_,formats⟩
  have failed : Load.programOn .unbounded misleading = .error .listKind := by decide +kernel
  obtain ⟨fault,same⟩ := formats misleading .listKind failed
  cases same

end Lev
