import Lev.Syntax.Load
import Mathlib.Tactic.Common

/-!
Which JSON values encode syntax. An encoding is an object with the kind of the node and, in its other
members, encodings of the node's parts; members that the node does not have do not matter. Main statement:
loading accepts exactly the encodings, and gives what they encode.
-/
namespace Lev

namespace Json

/-- The member of a name; only objects have members. -/
def member? (d : Json) (name : String) : Option Json :=
  match d with
  | .object members => Table.get? (lit name) members
  | _ => none

/-- The value has a member of the name, and the property holds of it. -/
def Has (d : Json) (name : String) (property : Json → Prop) : Prop := ∃ v, d.member? name = some v ∧ property v

/-- The value is an object of the kind. -/
def HasKind (d : Json) (word : String) : Prop := d.member? "kind" = some (.text (lit word))

/-- The value lists statements and has an end, and the property holds of the two. -/
def HasSteps (d : Json) (property : List Json → Json → Prop) : Prop :=
  ∃ items, d.member? "stmts" = some (.list items) ∧ d.Has "end" (property items)

/-- The encoding of a node of the kind. -/
def ofNode (word : String) (members : List (String × Json)) : Json :=
  .object ((lit "kind",.text (lit word)) :: members.map fun (name,v) => (lit name,v))

end Json

mutual

/-- The value encodes the expression. -/
def Expr.EncodedBy : Expr → Json → Prop
  | .literal n, d => d.HasKind "Literal" ∧ d.member? "value" = some (.int n)
  | .var name, d => d.HasKind "Var" ∧ d.member? "name" = some (.text name)
  | .binary left op right, d =>
    d.HasKind "Infix" ∧ d.member? "op" = some (.text op.symbol) ∧ d.Has "left" (fun v => left.EncodedBy v) ∧
      d.Has "right" (fun v => right.EncodedBy v)
  | .call callee args, d =>
    d.HasKind "Call" ∧ d.member? "name" = some (.text callee) ∧
      (d.member? "args" = none ∧ args = .nil ∨ ∃ items, d.member? "args" = some (.list items) ∧ args.EncodedBy items)
  | .scope body, d => d.HasKind "Scope" ∧ d.Has "block" (fun v => v.HasSteps fun items last => body.StepsEncodedBy items last)
  | .loop cond body, d =>
    d.HasKind "While" ∧ d.Has "cond" (fun v => cond.EncodedBy v) ∧
      d.Has "block" (fun v => v.HasSteps fun items last => body.StepsEncodedBy items last)

/-- The values encode the arguments one by one. -/
def Args.EncodedBy : Args → List Json → Prop
  | .nil, items => items = []
  | .cons first rest, items => ∃ v more, items = v :: more ∧ first.EncodedBy v ∧ rest.EncodedBy more

/-- The value encodes the statement. -/
def Stmt.EncodedBy : Stmt → Json → Prop
  | .discard value, d => d.HasKind "TermSemicolon" ∧ d.Has "expr" (fun v => value.EncodedBy v)
  | .bindConst name value, d =>
    d.HasKind "Let" ∧ d.member? "name" = some (.text name) ∧ d.Has "rhs" (fun v => value.EncodedBy v)
  | .bindMut name value, d =>
    d.HasKind "LetMut" ∧ d.member? "name" = some (.text name) ∧ d.Has "rhs" (fun v => value.EncodedBy v)
  | .assign name value, d =>
    d.HasKind "Mutate" ∧ d.member? "name" = some (.text name) ∧ d.Has "rhs" (fun v => value.EncodedBy v)

/-- The values encode the statements of the block one by one, and the last value its end. -/
def Block.StepsEncodedBy : Block → List Json → Json → Prop
  | .result value, items, last => items = [] ∧ value.EncodedBy last
  | .step first rest, items, last => ∃ v more, items = v :: more ∧ first.EncodedBy v ∧ rest.StepsEncodedBy more last

end

/-- The value encodes the block; its kind is not looked at. -/
def Block.EncodedBy (b : Block) (d : Json) : Prop := d.HasSteps b.StepsEncodedBy

/-- The value encodes the node. A block that stands alone is known by its kind, or has none. -/
def Node.EncodedBy : Node → Json → Prop
  | .expr e, d => e.EncodedBy d
  | .stmt s, d => s.EncodedBy d
  | .block b, d => (d.HasKind "Block" ∨ (d.member? "kind").getD .null = .null) ∧ b.EncodedBy d

mutual

/-- The encoding of an expression that has its members and no others. -/
def Expr.json : Expr → Json
  | .literal n => .ofNode "Literal" [("value",.int n)]
  | .var name => .ofNode "Var" [("name",.text name)]
  | .binary left op right => .ofNode "Infix" [("left",left.json),("op",.text op.symbol),("right",right.json)]
  | .call callee args => .ofNode "Call" [("name",.text callee),("args",.list args.jsons)]
  | .scope body => .ofNode "Scope" [("block",.ofNode "Block" [("stmts",.list body.stmtJsons),("end",body.valueJson)])]
  | .loop cond body =>
    .ofNode "While"
      [("cond",cond.json),("block",.ofNode "Block" [("stmts",.list body.stmtJsons),("end",body.valueJson)])]

def Args.jsons : Args → List Json
  | .nil => []
  | .cons first rest => first.json :: rest.jsons

def Stmt.json : Stmt → Json
  | .discard value => .ofNode "TermSemicolon" [("expr",value.json)]
  | .bindConst name value => .ofNode "Let" [("name",.text name),("rhs",value.json)]
  | .bindMut name value => .ofNode "LetMut" [("name",.text name),("rhs",value.json)]
  | .assign name value => .ofNode "Mutate" [("name",.text name),("rhs",value.json)]

def Block.stmtJsons : Block → List Json
  | .result _ => []
  | .step first rest => first.json :: rest.stmtJsons

def Block.valueJson : Block → Json
  | .result value => value.json
  | .step _ rest => rest.valueJson

end

def Block.json (b : Block) : Json := .ofNode "Block" [("stmts",.list b.stmtJsons),("end",b.valueJson)]

def Node.json : Node → Json
  | .expr e => e.json
  | .stmt s => s.json
  | .block b => b.json

/-! ### What the parts of the loader accept -/

theorem Json.object_of_member? {d v : Json} {name : String} (found : d.member? name = some v) : ∃ members, d = .object members := by
  cases d with
  | object members => exact ⟨members,rfl⟩
  | _ => cases found
@[simp] theorem lit_inj {s t : String} : lit s = lit t ↔ s = t := by
  unfold lit
  rw [List.map_inj_right (fun _ _ same => CodePoint.char.inj same),String.toList_inj]

namespace Load
variable {α β : Type} {members : Members}

theorem bind_eq_ok {first : Load α} {next : α → Load β} {b : β} :
    (first >>= next) = .ok b ↔ ∃ a, first = .ok a ∧ next a = .ok b := by
  cases first with
  | error error => simp [bind,Except.bind]
  | ok a => simp [bind,Except.bind]
@[simp] theorem refuse_ne_ok (error : FormatError) (a : α) : (refuse error : Load α) ≠ .ok a := by
  unfold refuse
  split <;> simp
theorem isWord_iff {value : Json} {word : String} : isWord value word = true ↔ value = .text (lit word) := by
  cases value <;> simp [isWord]
theorem kind_eq_text_iff {t : Text} : kind members = .text t ↔ (Json.object members).member? "kind" = some (.text t) := by
  simp only [kind,Json.member?]
  cases Table.get? (lit "kind") members <;> simp
theorem required_eq_ok_iff {kind : Text} {member : String} {v : Json} :
    required kind (lit member) members = .ok v ↔ (Json.object members).member? member = some v := by
  unfold required Json.member?
  split <;> simp_all
theorem name_eq_ok_iff {kind t : Text} :
    name kind members = .ok t ↔ (Json.object members).member? "name" = some (.text t) := by
  simp only [name,bind_eq_ok,required_eq_ok_iff]
  constructor
  · rintro ⟨v,found,matched⟩
    split at matched
    · cases matched
      exact found
    · exact absurd matched (refuse_ne_ok _ _)
  · exact fun found => ⟨_,found,rfl⟩
theorem integer_eq_ok_iff {n : Int} :
    integer members = .ok n ↔ (Json.object members).member? "value" = some (.int n) := by
  simp only [integer,bind_eq_ok,required_eq_ok_iff]
  constructor
  · rintro ⟨v,found,matched⟩
    split at matched
    · cases matched
      exact found
    · exact absurd matched (refuse_ne_ok _ _)
  · exact fun found => ⟨_,found,rfl⟩

end Load

theorem Operator.ofSymbol?_eq_some_iff {symbol : Text} {op : Operator} : ofSymbol? symbol = some op ↔ symbol = op.symbol := by
  constructor
  · intro found
    unfold ofSymbol? at found
    split_ifs at found <;> cases found <;> assumption
  · rintro rfl
    cases op <;> decide

namespace Block

@[simp] theorem stmts_ofList (stmts : List Stmt) (value : Expr) : (ofList stmts value).stmts = stmts := by
  induction stmts with
  | nil => rfl
  | cons first rest ih => exact congrArg _ ih
@[simp] theorem value_ofList (stmts : List Stmt) (value : Expr) : (ofList stmts value).value = value := by
  induction stmts with
  | nil => rfl
  | cons first rest ih => exact ih
@[simp] theorem ofList_stmts_value (b : Block) : ofList b.stmts b.value = b := by
  match b with
  | .result _ => rfl
  | .step first rest => exact congrArg (Block.step first) rest.ofList_stmts_value

end Block

namespace Load
variable {members : Members} {d : Json}

theorem operator_eq_ok_iff {op : Operator} :
    operator members = .ok op ↔ (Json.object members).member? "op" = some (.text op.symbol) := by
  simp only [operator,bind_eq_ok,required_eq_ok_iff]
  constructor
  · rintro ⟨v,found,matched⟩
    split at matched
    · rename_i named
      cases matched
      unfold operator? at named
      split at named
      · rw [found,Operator.ofSymbol?_eq_some_iff.mp named]
      · cases named
    · exact absurd matched (refuse_ne_ok _ _)
  · intro found
    have named : Operator.ofSymbol? op.symbol = some op := Operator.ofSymbol?_eq_some_iff.mpr rfl
    exact ⟨_,found,by simp [operator?,named]⟩
theorem exprAt_eq (kind member : Text) (members : Members) :
    exprAt kind member members = required kind member members >>= expr := by
  induction members with
  | nil => rfl
  | cons entry rest ih =>
    obtain ⟨key,v⟩ := entry
    unfold required at ih ⊢
    rw [exprAt,Table.get?]
    by_cases same : key = member
    · rw [if_pos same,if_pos same]
      rfl
    · rw [if_neg same,if_neg same,ih]
theorem blockAt_eq (kind : Text) (members : Members) :
    blockAt kind members = required kind (lit "block") members >>= block := by
  induction members with
  | nil => rfl
  | cons entry rest ih =>
    obtain ⟨key,v⟩ := entry
    unfold required at ih ⊢
    rw [blockAt,Table.get?]
    by_cases same : key = lit "block"
    · rw [if_pos same,if_pos same]
      rfl
    · rw [if_neg same,if_neg same,ih]
theorem argsAt_eq (members : Members) :
    argsAt members = match Table.get? (lit "args") members with
      | none => .ok .nil
      | some (.list items) => argItems items
      | some _ => refuse (.notList (lit "Call") (lit "args")) := by
  induction members with
  | nil => simp [argsAt,Table.get?]
  | cons entry rest ih =>
    obtain ⟨key,v⟩ := entry
    rw [Table.get?]
    by_cases same : key = lit "args"
    · cases v <;> simp [argsAt,same]
    · cases v <;> simpa [argsAt,same] using ih
theorem stmtsAt_eq (members : Members) :
    stmtsAt members = match Table.get? (lit "stmts") members with
      | none => refuse (.missing (lit "Block") (lit "stmts"))
      | some (.list items) => stmtItems items
      | some _ => refuse (.notList (lit "Block") (lit "stmts")) := by
  induction members with
  | nil => simp [stmtsAt,Table.get?]
  | cons entry rest ih =>
    obtain ⟨key,v⟩ := entry
    rw [Table.get?]
    by_cases same : key = lit "stmts"
    · cases v <;> simp [stmtsAt,same]
    · cases v <;> simpa [stmtsAt,same] using ih
theorem exprAt_eq_ok_iff {kind : Text} {member : String} {e : Expr} :
    exprAt kind (lit member) members = .ok e ↔ (Json.object members).Has member fun v => expr v = .ok e := by
  rw [exprAt_eq,bind_eq_ok]
  simp [required_eq_ok_iff,Json.Has]
theorem blockAt_eq_ok_iff {kind : Text} {b : Block} :
    blockAt kind members = .ok b ↔ (Json.object members).Has "block" fun v => block v = .ok b := by
  rw [blockAt_eq,bind_eq_ok]
  simp [required_eq_ok_iff,Json.Has]
theorem argsAt_eq_ok_iff {args : Args} :
    argsAt members = .ok args ↔
      (Json.object members).member? "args" = none ∧ args = .nil ∨
        ∃ items, (Json.object members).member? "args" = some (.list items) ∧ argItems items = .ok args := by
  rw [argsAt_eq]
  unfold Json.member?
  split <;> simp_all [@eq_comm _ args]
theorem stmtsAt_eq_ok_iff {stmts : List Stmt} :
    stmtsAt members = .ok stmts ↔
      ∃ items, (Json.object members).member? "stmts" = some (.list items) ∧ stmtItems items = .ok stmts := by
  rw [stmtsAt_eq]
  unfold Json.member?
  split <;> simp_all
theorem argsAreList_of_argsAt {args : Args} (loaded : argsAt members = .ok args) : argsAreList members = .ok () := by
  unfold argsAreList
  rcases argsAt_eq_ok_iff.mp loaded with ⟨absent,_⟩ | ⟨items,found,_⟩
  · simp only [Json.member?] at absent
    rw [absent]
  · simp only [Json.member?] at found
    rw [found]
theorem stmtsAreList_of_stmtsAt {stmts : List Stmt} (loaded : stmtsAt members = .ok stmts) :
    stmtsAreList members = .ok () := by
  obtain ⟨items,found,_⟩ := stmtsAt_eq_ok_iff.mp loaded
  exact bind_eq_ok.mpr ⟨_,required_eq_ok_iff.mpr found,rfl⟩

/-! ### What the loader accepts -/

/-- The kind decides what an expression is loaded as. -/
theorem expr_eq_ok_iff {e : Expr} :
    expr d = .ok e ↔
      d.HasKind "Literal" ∧ (∃ n, d.member? "value" = some (.int n) ∧ .literal n = e) ∨
      d.HasKind "Var" ∧ (∃ t, d.member? "name" = some (.text t) ∧ .var t = e) ∨
      d.HasKind "Infix" ∧
        (∃ op, d.member? "op" = some (.text op.symbol) ∧ ∃ left, (d.Has "left" fun v => expr v = .ok left) ∧
          ∃ right, (d.Has "right" fun v => expr v = .ok right) ∧ .binary left op right = e) ∨
      d.HasKind "Call" ∧
        (∃ callee, d.member? "name" = some (.text callee) ∧
          ∃ args, (d.member? "args" = none ∧ args = .nil ∨
            ∃ items, d.member? "args" = some (.list items) ∧ argItems items = .ok args) ∧ .call callee args = e) ∨
      d.HasKind "Scope" ∧ (∃ body, (d.Has "block" fun v => block v = .ok body) ∧ .scope body = e) ∨
      d.HasKind "While" ∧
        (∃ cond, (d.Has "cond" fun v => expr v = .ok cond) ∧
          ∃ body, (d.Has "block" fun v => block v = .ok body) ∧ .loop cond body = e) := by
  cases d with
  | object members =>
    simp only [expr,Json.HasKind,← kind_eq_text_iff]
    split_ifs with literal var binary call scope loop
    · simp_all [isWord_iff,bind_eq_ok,integer_eq_ok_iff]
    · simp_all [isWord_iff,bind_eq_ok,name_eq_ok_iff]
    · simp_all [isWord_iff,bind_eq_ok,operator_eq_ok_iff,exprAt_eq_ok_iff]
    · have list (args : Args) : (∃ u, argsAreList members = .ok u) ∧ argsAt members = .ok args ↔ argsAt members = .ok args :=
        and_iff_right_of_imp fun loaded => ⟨(),argsAreList_of_argsAt loaded⟩
      simp_all [isWord_iff,bind_eq_ok,name_eq_ok_iff,← argsAt_eq_ok_iff]
    · simp_all [isWord_iff,bind_eq_ok,blockAt_eq_ok_iff]
    · simp_all [isWord_iff,bind_eq_ok,exprAt_eq_ok_iff,blockAt_eq_ok_iff]
    · simp_all [isWord_iff]
  | _ => simp [expr,Json.HasKind,Json.member?]
theorem binder?_eq_ok_iff {v : Json} {binder : Binder} : binder? v = .ok (some binder) ↔ v = .text binder.tag := by
  cases v with
  | text t =>
    simp only [binder?,Json.text.injEq]
    split_ifs <;> cases binder <;> simp_all [Binder.tag]
  | _ => simp [binder?]
theorem Binder.tag_ne (binder : Binder) : binder.tag ≠ lit "TermSemicolon" := by cases binder <;> simp [tag]
/-- The kind decides what a statement is loaded as. -/
theorem stmt_eq_ok_iff {s : Stmt} :
    stmt d = .ok s ↔
      d.HasKind "TermSemicolon" ∧ (∃ value, (d.Has "expr" fun v => expr v = .ok value) ∧ .discard value = s) ∨
      ∃ binder : Binder, d.member? "kind" = some (.text binder.tag) ∧ ∃ t, d.member? "name" = some (.text t) ∧
        ∃ value, (d.Has "rhs" fun v => expr v = .ok value) ∧ binder.stmt t value = s := by
  cases d with
  | object members =>
    simp only [stmt,Json.HasKind,← kind_eq_text_iff]
    split_ifs with discard
    · rw [isWord_iff] at discard
      have other (binder : Binder) : lit "TermSemicolon" ≠ binder.tag := binder.tag_ne.symm
      simp [discard,other,bind_eq_ok,exprAt_eq_ok_iff]
    · rw [isWord_iff] at discard
      simp only [discard,false_and,false_or,bind_eq_ok]
      constructor
      · rintro ⟨_ | binder,found,loaded⟩
        · exact absurd loaded (refuse_ne_ok _ _)
        · obtain ⟨t,named,value,loaded,same⟩ : ∃ t, _ ∧ ∃ value, _ ∧ _ := by simpa only [bind_eq_ok] using loaded
          exact ⟨binder,binder?_eq_ok_iff.mp found,t,name_eq_ok_iff.mp named,value,exprAt_eq_ok_iff.mp loaded,Except.ok.inj same⟩
      · rintro ⟨binder,found,t,named,value,loaded,same⟩
        refine ⟨some binder,binder?_eq_ok_iff.mpr found,?_⟩
        simp only [bind_eq_ok]
        exact ⟨t,name_eq_ok_iff.mpr named,value,exprAt_eq_ok_iff.mpr loaded,congrArg _ same⟩
  | _ => simp [stmt,Json.HasKind,Json.member?]
theorem stmt_eq_discard_iff {value : Expr} :
    stmt d = .ok (.discard value) ↔ d.HasKind "TermSemicolon" ∧ d.Has "expr" fun v => expr v = .ok value := by
  have other (binder : Binder) (t : Text) (e : Expr) : binder.stmt t e ≠ .discard value := by
    cases binder <;> simp [Binder.stmt]
  simp [stmt_eq_ok_iff,other]
theorem stmt_eq_binder_iff (binder : Binder) {t : Text} {value : Expr} :
    stmt d = .ok (binder.stmt t value) ↔
      d.member? "kind" = some (.text binder.tag) ∧ d.member? "name" = some (.text t) ∧ d.Has "rhs" fun v => expr v = .ok value := by
  have discard (e : Expr) : .discard e ≠ binder.stmt t value := by cases binder <;> simp [Binder.stmt]
  have same (other : Binder) (t' : Text) (e : Expr) :
      other.stmt t' e = binder.stmt t value ↔ other = binder ∧ t' = t ∧ e = value := by
    cases other <;> cases binder <;> simp [Binder.stmt]
  simp [stmt_eq_ok_iff,discard,same]
theorem block_eq_ok_iff {b : Block} :
    block d = .ok b ↔
      ∃ items, d.member? "stmts" = some (.list items) ∧ stmtItems items = .ok b.stmts ∧
        d.Has "end" fun v => expr v = .ok b.value := by
  cases d with
  | object members =>
    simp only [block,bind_eq_ok]
    constructor
    · rintro ⟨_,_,stmts,loaded,value,ended,same⟩
      obtain ⟨items,found,loaded⟩ := stmtsAt_eq_ok_iff.mp loaded
      cases same
      exact ⟨items,found,by simpa using loaded,by simpa using exprAt_eq_ok_iff.mp ended⟩
    · rintro ⟨items,found,loaded,ended⟩
      have stmts := stmtsAt_eq_ok_iff.mpr ⟨items,found,loaded⟩
      exact ⟨(),stmtsAreList_of_stmtsAt stmts,_,stmts,_,exprAt_eq_ok_iff.mpr ended,by simp⟩
  | _ => simp [block,Json.Has,Json.member?]

/-- A block is loaded from what encodes it if its steps are. -/
theorem block_eq_ok_iff_of_steps {b : Block}
    (steps : ∀ items last, stmtItems items = .ok b.stmts ∧ expr last = .ok b.value ↔ b.StepsEncodedBy items last) (d : Json) :
    block d = .ok b ↔ b.EncodedBy d := by
  simp only [block_eq_ok_iff,Block.EncodedBy,Json.HasSteps,Json.Has,← steps]
  constructor
  · rintro ⟨items,found,loaded,last,ended,value⟩
    exact ⟨items,found,last,ended,loaded,value⟩
  · rintro ⟨items,found,last,ended,loaded,value⟩
    exact ⟨items,found,loaded,last,ended,value⟩

end Load

mutual

theorem Expr.load_iff (e : Expr) (d : Json) : Load.expr d = .ok e ↔ e.EncodedBy d := by
  rw [Load.expr_eq_ok_iff]
  match e with
  | .literal n => simp [Expr.EncodedBy]
  | .var name => simp [Expr.EncodedBy]
  | .binary left op right => simp [Expr.EncodedBy,left.load_iff,right.load_iff]
  | .call callee args => simp [Expr.EncodedBy,args.load_iff]
  | .scope body =>
    have block := Load.block_eq_ok_iff_of_steps body.steps_load_iff
    simp [Expr.EncodedBy,block,Block.EncodedBy]
  | .loop cond body =>
    have block := Load.block_eq_ok_iff_of_steps body.steps_load_iff
    simp [Expr.EncodedBy,cond.load_iff,block,Block.EncodedBy]

theorem Args.load_iff (args : Args) (items : List Json) : Load.argItems items = .ok args ↔ args.EncodedBy items := by
  match args, items with
  | .nil, [] => simp [Load.argItems,Args.EncodedBy]
  | .nil, item :: rest => simp [Load.argItems,Args.EncodedBy,Load.bind_eq_ok]
  | .cons first others, [] => simp [Load.argItems,Args.EncodedBy]
  | .cons first others, item :: rest =>
    simp [Load.argItems,Args.EncodedBy,Load.bind_eq_ok,first.load_iff,others.load_iff]

theorem Stmt.load_iff (s : Stmt) (d : Json) : Load.stmt d = .ok s ↔ s.EncodedBy d := by
  match s with
  | .discard value =>
    rw [Load.stmt_eq_discard_iff]
    simp [Stmt.EncodedBy,value.load_iff]
  | .bindConst name value =>
    refine (Load.stmt_eq_binder_iff .bindConst).trans ?_
    simp [Stmt.EncodedBy,Json.HasKind,Load.Binder.tag,value.load_iff]
  | .bindMut name value =>
    refine (Load.stmt_eq_binder_iff .bindMut).trans ?_
    simp [Stmt.EncodedBy,Json.HasKind,Load.Binder.tag,value.load_iff]
  | .assign name value =>
    refine (Load.stmt_eq_binder_iff .assign).trans ?_
    simp [Stmt.EncodedBy,Json.HasKind,Load.Binder.tag,value.load_iff]

theorem Block.steps_load_iff (b : Block) (items : List Json) (last : Json) :
    Load.stmtItems items = .ok b.stmts ∧ Load.expr last = .ok b.value ↔ b.StepsEncodedBy items last := by
  match b, items with
  | .result value, [] => simp [Load.stmtItems,Block.StepsEncodedBy,Block.stmts,Block.value,value.load_iff]
  | .result value, item :: rest => simp [Load.stmtItems,Block.StepsEncodedBy,Block.stmts,Load.bind_eq_ok]
  | .step first others, [] => simp [Load.stmtItems,Block.StepsEncodedBy,Block.stmts]
  | .step first others, item :: rest =>
    simp [Load.stmtItems,Block.StepsEncodedBy,Block.stmts,Block.value,Load.bind_eq_ok,first.load_iff,← others.steps_load_iff,and_assoc]

end

theorem Block.load_iff (b : Block) (d : Json) : Load.block d = .ok b ↔ b.EncodedBy d :=
  Load.block_eq_ok_iff_of_steps b.steps_load_iff d

/-! ### Nodes and programs -/

theorem Expr.EncodedBy.kind {e : Expr} {d : Json} (encoded : e.EncodedBy d) :
    ∃ word ∈ ["Literal","Var","Infix","Call","Scope","While"], d.HasKind word := by
  cases e <;> exact ⟨_,by simp,encoded.1⟩
theorem Stmt.EncodedBy.kind {s : Stmt} {d : Json} (encoded : s.EncodedBy d) :
    ∃ word ∈ ["TermSemicolon","Let","LetMut","Mutate"], d.HasKind word := by
  cases s <;> exact ⟨_,by simp,encoded.1⟩
theorem Block.EncodedBy.contains {b : Block} {members : Load.Members} (encoded : b.EncodedBy (.object members)) :
    Table.contains members (lit "stmts") = true := by
  obtain ⟨items,found,_⟩ := encoded
  have found : Table.get? (lit "stmts") members = some (.list items) := found
  simp [Table.contains,found]

namespace Load
variable {members : Members}

theorem node_of_block (encoded : kind members = .text (lit "Block") ∨ kind members = .null ∧ Table.contains members (lit "stmts") = true) :
    node (.object members) = (block (.object members)).map .block := by
  rcases encoded with word | ⟨null,contains⟩
  · simp [node,word,isWord]
    rfl
  · simp [node,null,contains,isWord]
    rfl
theorem node_of_stmt {word : String} (kinds : word ∈ ["TermSemicolon","Let","LetMut","Mutate"])
    (tag : kind members = .text (lit word)) : node (.object members) = (stmt (.object members)).map .stmt := by
  simp only [List.mem_cons,List.not_mem_nil,or_false] at kinds
  rcases kinds with rfl | rfl | rfl | rfl <;> simp [node,tag,isWord,binder?] <;> rfl
theorem node_of_expr {word : String} (kinds : word ∈ ["Literal","Var","Infix","Call","Scope","While"])
    (tag : kind members = .text (lit word)) : node (.object members) = (expr (.object members)).map .expr := by
  simp only [List.mem_cons,List.not_mem_nil,or_false] at kinds
  rcases kinds with rfl | rfl | rfl | rfl | rfl | rfl <;> simp [node,tag,isWord,binder?] <;> rfl

/-- What a node is loaded as. -/
theorem node_eq_ok {n : Node} (loaded : node (.object members) = .ok n) :
    (∃ b, n = .block b ∧ block (.object members) = .ok b ∧ (kind members = .text (lit "Block") ∨ kind members = .null)) ∨
      (∃ s, n = .stmt s ∧ stmt (.object members) = .ok s) ∨ ∃ e, n = .expr e ∧ expr (.object members) = .ok e := by
  simp only [node] at loaded
  split_ifs at loaded with isBlock isDiscard
  · obtain ⟨b,loaded,same⟩ := bind_eq_ok.mp loaded
    refine .inl ⟨b,(Except.ok.inj same).symm,loaded,?_⟩
    rcases Bool.or_eq_true_iff.mp isBlock with word | bare
    · exact .inl (isWord_iff.mp word)
    · right
      split at bare
      · assumption
      · cases bare
  · obtain ⟨s,loaded,same⟩ := bind_eq_ok.mp loaded
    exact .inr (.inl ⟨s,(Except.ok.inj same).symm,loaded⟩)
  · obtain ⟨_ | binder,_,loaded⟩ := bind_eq_ok.mp loaded
    · obtain ⟨e,loaded,same⟩ := bind_eq_ok.mp loaded
      exact .inr (.inr ⟨e,(Except.ok.inj same).symm,loaded⟩)
    · obtain ⟨s,loaded,same⟩ := bind_eq_ok.mp loaded
      exact .inr (.inl ⟨s,(Except.ok.inj same).symm,loaded⟩)

end Load

theorem Node.load_iff (n : Node) (d : Json) : Load.node d = .ok n ↔ n.EncodedBy d := by
  constructor
  · intro loaded
    cases d with
    | object members =>
      rcases Load.node_eq_ok loaded with ⟨b,rfl,block,tag⟩ | ⟨s,rfl,stmt⟩ | ⟨e,rfl,expr⟩
      · exact ⟨tag.imp Load.kind_eq_text_iff.mp id,(b.load_iff _).mp block⟩
      · exact (s.load_iff _).mp stmt
      · exact (e.load_iff _).mp expr
    | _ => exact absurd loaded (Load.refuse_ne_ok _ _)
  · intro encoded
    match n with
    | .expr e =>
      obtain ⟨word,kinds,tag⟩ := Expr.EncodedBy.kind encoded
      obtain ⟨members,rfl⟩ := Json.object_of_member? tag
      rw [Load.node_of_expr kinds (Load.kind_eq_text_iff.mpr tag),(e.load_iff _).mpr encoded]
      rfl
    | .stmt s =>
      obtain ⟨word,kinds,tag⟩ := Stmt.EncodedBy.kind encoded
      obtain ⟨members,rfl⟩ := Json.object_of_member? tag
      rw [Load.node_of_stmt kinds (Load.kind_eq_text_iff.mpr tag),(s.load_iff _).mpr encoded]
      rfl
    | .block b =>
      obtain ⟨tag,encoded⟩ := encoded
      obtain ⟨members,rfl⟩ := Json.object_of_member? encoded.choose_spec.1
      rw [Load.node_of_block (tag.imp Load.kind_eq_text_iff.mpr (⟨·,encoded.contains⟩)),(b.load_iff _).mpr encoded]
      rfl

/-- The program that a node is. -/
def Node.asProgram : Node → Load Program
  | .expr e => .ok (.expr e)
  | .block b => .ok (.block b)
  | .stmt _ => Load.refuse .notProgram

theorem Node.asProgram_eq_ok_iff {n : Node} {program : Program} : n.asProgram = .ok program ↔ program.node = n := by
  cases n <;> cases program <;> simp [asProgram,Program.node,eq_comm]

namespace Load

theorem program_of_read {t : Text} {d : Json} (read : Json.read t = .ok d) : program t = node d >>= Node.asProgram := by
  unfold program
  rw [read]
  rfl
theorem program_of_malformed {t : Text} {problem : Json.Problem} {line column offset : Nat}
    (failed : Json.read t = .error (.malformed problem line column offset)) :
    program t = refuse (.malformed (.malformed problem line column offset)) := by
  unfold program
  rw [failed]
  rfl
theorem program_of_oversized {t : Text} {digits : Nat} (failed : Json.read t = .error (.oversizedInteger digits)) :
    program t = .error (.unreadable (.oversizedInteger digits)) := by
  unfold program
  rw [failed]
  rfl
theorem program_eq_ok_iff {t : Text} {p : Program} :
    program t = .ok p ↔ ∃ d, Json.read t = .ok d ∧ node d = .ok p.node := by
  cases read : Json.read t with
  | ok d => simp [program_of_read read,bind_eq_ok,Node.asProgram_eq_ok_iff]
  | error error =>
    cases error with
    | malformed problem line column offset => simp [program_of_malformed read]
    | oversizedInteger digits => simp [program_of_oversized read]

end Load

theorem Node.exists_program_iff {n : Node} : (∃ program : Program, program.node = n) ↔ ∀ s, n ≠ .stmt s := by
  cases n with
  | expr e => exact iff_of_true ⟨.expr e,rfl⟩ (by simp)
  | block b => exact iff_of_true ⟨.block b,rfl⟩ (by simp)
  | stmt s => exact iff_of_false (by rintro ⟨_ | _,same⟩ <;> cases same) (fun noStmt => noStmt s rfl)

/-! ### Encoding -/

theorem Json.member?_ofNode (word name : String) (members : List (String × Json)) :
    (Json.ofNode word members).member? name = if name = "kind" then some (.text (lit word)) else members.lookup name := by
  have rest : Table.get? (lit name) (members.map fun (name,v) => (lit name,v)) = members.lookup name := by
    induction members with
    | nil => rfl
    | cons entry rest ih =>
      obtain ⟨key,v⟩ := entry
      by_cases same : key = name
      · simp [Table.get?,same]
      · have other : (name == key) = false := beq_false_of_ne (Ne.symm same)
        simpa [Table.get?,List.lookup_cons,same,other] using ih
  by_cases kind : name = "kind"
  · simp [ofNode,member?,Table.get?,kind]
  · simp [ofNode,member?,Table.get?,kind,Ne.symm kind,rest]

mutual

theorem Expr.encodedBy_json (e : Expr) : e.EncodedBy e.json := by
  match e with
  | .literal n => simp [Expr.EncodedBy,Expr.json,Json.HasKind,Json.member?_ofNode]
  | .var name => simp [Expr.EncodedBy,Expr.json,Json.HasKind,Json.member?_ofNode]
  | .binary left op right =>
    simp [Expr.EncodedBy,Expr.json,Json.HasKind,Json.Has,Json.member?_ofNode,List.lookup_cons,left.encodedBy_json,right.encodedBy_json]
  | .call callee args =>
    simp [Expr.EncodedBy,Expr.json,Json.HasKind,Json.member?_ofNode,List.lookup_cons,args.encodedBy_jsons]
  | .scope body =>
    simp [Expr.EncodedBy,Expr.json,Json.HasKind,Json.Has,Json.HasSteps,Json.member?_ofNode,List.lookup_cons,body.stepsEncodedBy_jsons]
  | .loop cond body =>
    simp [Expr.EncodedBy,Expr.json,Json.HasKind,Json.Has,Json.HasSteps,Json.member?_ofNode,List.lookup_cons,cond.encodedBy_json,
      body.stepsEncodedBy_jsons]

theorem Args.encodedBy_jsons (args : Args) : args.EncodedBy args.jsons := by
  match args with
  | .nil => rfl
  | .cons first rest => exact ⟨_,_,rfl,first.encodedBy_json,rest.encodedBy_jsons⟩

theorem Stmt.encodedBy_json (s : Stmt) : s.EncodedBy s.json := by
  match s with
  | .discard value | .bindConst _ value | .bindMut _ value | .assign _ value =>
    simp [Stmt.EncodedBy,Stmt.json,Json.HasKind,Json.Has,Json.member?_ofNode,List.lookup_cons,value.encodedBy_json]

theorem Block.stepsEncodedBy_jsons (b : Block) : b.StepsEncodedBy b.stmtJsons b.valueJson := by
  match b with
  | .result value => exact ⟨rfl,value.encodedBy_json⟩
  | .step first rest => exact ⟨_,_,rfl,first.encodedBy_json,rest.stepsEncodedBy_jsons⟩

end

theorem Node.encodedBy_json (n : Node) : n.EncodedBy n.json := by
  cases n with
  | expr e => exact e.encodedBy_json
  | stmt s => exact s.encodedBy_json
  | block b =>
    simp [EncodedBy,json,Block.json,Block.EncodedBy,Json.HasKind,Json.Has,Json.HasSteps,Json.member?_ofNode,List.lookup_cons,
      b.stepsEncodedBy_jsons]

/-- For every JSON value, loading it as an expression, a statement or a block gives the syntax that it encodes, and
    nothing else is loaded. So the encoding of a node of any depth is loaded as that node, and a text is
    loaded as a program if and only if it is a document that is loaded as a node other than a statement. -/
theorem load_iff_encodedBy :
    (∀ d e, Load.expr d = .ok e ↔ e.EncodedBy d) ∧ (∀ d s, Load.stmt d = .ok s ↔ s.EncodedBy d) ∧
    (∀ d b, Load.block d = .ok b ↔ b.EncodedBy d) ∧ (∀ n : Node, Load.node n.json = .ok n) ∧
    ∀ t n, (∃ program, Load.program t = .ok program ∧ program.node = n) ↔
      (∀ s, n ≠ .stmt s) ∧ ∃ d, Json.read t = .ok d ∧ Load.node d = .ok n := by
  refine ⟨fun d e => e.load_iff d,fun d s => s.load_iff d,fun d b => b.load_iff d,fun n => (n.load_iff _).mpr n.encodedBy_json,?_⟩
  intro t n
  rw [← Node.exists_program_iff]
  constructor
  · rintro ⟨program,loaded,rfl⟩
    exact ⟨⟨program,rfl⟩,Load.program_eq_ok_iff.mp loaded⟩
  · rintro ⟨⟨program,rfl⟩,loaded⟩
    exact ⟨program,Load.program_eq_ok_iff.mpr loaded,rfl⟩

end Lev
