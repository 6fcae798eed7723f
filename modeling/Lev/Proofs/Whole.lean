import Lev.Proofs.References

/-!
Texts that can be written. A text is whole if no surrogate stands in it; these are the texts that have an
encoding. Main statements: shown syntax is whole whatever names stand in it, and so is the text of every
module that is built, if its own name, its triple and that of the host are.
-/
namespace Lev

/-! ### Whole texts -/

/-- No surrogate stands in the text. -/
def Text.Whole (t : Text) : Prop := ∀ c ∈ t, c.isEncodable = true

namespace Text
variable {s t : Text}

@[simp] theorem whole_nil : Whole [] := by simp [Whole]
@[simp] theorem whole_cons {c : CodePoint} : Whole (c :: t) ↔ c.isEncodable = true ∧ t.Whole := List.forall_mem_cons
@[simp] theorem whole_append : Whole (s ++ t) ↔ s.Whole ∧ t.Whole := List.forall_mem_append
theorem whole_chars (chars : List Char) : Whole (chars.map .char) := by
  intro c member
  obtain ⟨char,_,rfl⟩ := List.mem_map.mp member
  rfl
@[simp] theorem whole_lit (s : String) : (lit s).Whole := whole_chars s.toList
@[simp] theorem whole_ofNat (n : Nat) : (ofNat n).Whole := whole_chars _
@[simp] theorem whole_ofInt (n : Int) : (ofInt n).Whole := by
  cases n with
  | ofNat n => exact whole_ofNat n
  | negSucc n => exact whole_cons.mpr ⟨rfl,whole_ofNat (n + 1)⟩
@[simp] theorem whole_hex (width n : Nat) : (hex width n).Whole := by
  induction width generalizing n with
  | zero => exact whole_nil
  | succ width ih => simp [hex,ih,hexDigit,CodePoint.isEncodable]
@[simp] theorem whole_blanks (n : Nat) : (blanks n).Whole := by
  intro c member
  rw [List.eq_of_mem_replicate member]
  rfl
theorem whole_flatMap {α : Type} {parts : List α} {text : α → Text} (each : ∀ part ∈ parts, (text part).Whole) :
    Whole (parts.flatMap text) := by
  intro c member
  obtain ⟨part,inside,found⟩ := List.mem_flatMap.mp member
  exact each part inside c found
theorem whole_join {separator : Text} (between : separator.Whole) {parts : List Text} (each : ∀ part ∈ parts, part.Whole) :
    (join separator parts).Whole := by
  induction parts with
  | nil => exact whole_nil
  | cons part rest ih =>
    obtain ⟨first,others⟩ := List.forall_mem_cons.mp each
    cases rest with
    | nil => exact first
    | cons next rest => exact whole_append.mpr ⟨whole_append.mpr ⟨first,between⟩,ih others⟩

end Text

theorem Utf8.unencodable?_eq_none_iff {t : Text} : unencodable? t = none ↔ t.Whole := by
  have anywhere : ∀ position, unencodableFrom? position t = none ↔ t.Whole := by
    induction t with
    | nil => simp [unencodableFrom?]
    | cons c rest ih =>
      intro position
      cases c with
      | char c => simp [unencodableFrom?,ih,CodePoint.isEncodable]
      | surrogate offset => simp [unencodableFrom?,CodePoint.isEncodable]
  exact anywhere 0
/-- The target carries only names that are whole. -/
theorem Identifier.whole {name : Text} (carried : error? name = none) : name.Whole := by
  have holds := Option.map_eq_none_iff.mp carried
  unfold reason? at holds
  split at holds
  · cases holds
  · split at holds
    · cases holds
    · split at holds
      · exact List.all_eq_true.mp ‹_›
      · cases holds

/-! ### Shown syntax -/

/-- A surrogate does not show as itself. -/
theorem CodePoint.isEncodable_of_isPrintable {point : CodePoint} (shows : point.isPrintable = true) : point.isEncodable = true := by
  cases point with
  | char c => rfl
  | surrogate offset =>
    have upper := offset.isLt
    have hidden : inRanges hiddenBasic (0xD800 + offset.val) = true :=
      List.any_eq_true.mpr ⟨(0xD7FC,0xF8FF),by decide,by simp; omega⟩
    have small : ¬ 0xD800 + offset.val < 0x7F ∧ 0xD800 + offset.val ≠ 0x7F ∧ 0xD800 + offset.val < 0x10000 := by omega
    simp [isPrintable,code,hidden,small] at shows

namespace Text

theorem isEncodable_quoteMark (t : Text) : (quoteMark t).isEncodable = true := by
  unfold quoteMark
  split <;> rfl
theorem whole_quotedPoint {mark : CodePoint} (plain : mark.isEncodable = true) (point : CodePoint) : (quotedPoint mark point).Whole := by
  unfold quotedPoint
  split
  · rename_i escaped
    rcases escaped with rfl | rfl
    · exact whole_cons.mpr ⟨rfl,by simpa using plain⟩
    · exact whole_lit "\\\\"
  · split
    · exact whole_lit _
    · split
      · exact whole_lit _
      · split
        · exact whole_lit _
        · split
          · simpa using CodePoint.isEncodable_of_isPrintable ‹_›
          · dsimp only
            split
            · simp
            · split <;> simp
/-- Whatever stands in a text, its quoted form is whole. -/
@[simp] theorem whole_quoted (t : Text) : t.quoted.Whole := by
  have mark := isEncodable_quoteMark t
  have points : Whole (t.flatMap (quotedPoint (quoteMark t))) := whole_flatMap fun point _ => whole_quotedPoint mark point
  simp [quoted,mark,points]

end Text

namespace Doc

mutual

/-- The words of the document are whole; the texts it quotes need not be. -/
def Whole : Doc → Prop
  | .atom shown => shown.Whole
  | .text _ => True
  | .list items => WholeItems items
  | .table entries => WholeEntries entries
  | .record name fields => name.Whole ∧ WholeFields fields
def WholeItems : List Doc → Prop
  | [] => True
  | item :: rest => item.Whole ∧ WholeItems rest
def WholeEntries : List (Text × Doc) → Prop
  | [] => True
  | (_,value) :: rest => value.Whole ∧ WholeEntries rest
def WholeFields : List (Text × Doc) → Prop
  | [] => True
  | (name,value) :: rest => name.Whole ∧ value.Whole ∧ WholeFields rest

end

mutual

theorem whole_flat (doc : Doc) (whole : doc.Whole) : doc.flat.Whole := by
  cases doc with
  | atom shown => exact whole
  | text value => simp [flat]
  | list items => simpa [flat] using Text.whole_join (Text.whole_lit ", ") (whole_flatItems items whole)
  | table entries => simpa [flat] using Text.whole_join (Text.whole_lit ", ") (whole_flatEntries entries whole)
  | record name fields => simpa [flat,whole.1] using Text.whole_join (Text.whole_lit ", ") (whole_flatFields fields whole.2)
theorem whole_flatItems (items : List Doc) (whole : WholeItems items) : ∀ part ∈ flatItems items, part.Whole := by
  cases items with
  | nil => simp [flatItems]
  | cons item rest => exact List.forall_mem_cons.mpr ⟨whole_flat item whole.1,whole_flatItems rest whole.2⟩
theorem whole_flatEntries (entries : List (Text × Doc)) (whole : WholeEntries entries) : ∀ part ∈ flatEntries entries, part.Whole := by
  cases entries with
  | nil => simp [flatEntries]
  | cons entry rest =>
    have value := whole_flat entry.2 whole.1
    exact List.forall_mem_cons.mpr ⟨by simp [value],whole_flatEntries rest whole.2⟩
theorem whole_flatFields (fields : List (Text × Doc)) (whole : WholeFields fields) : ∀ part ∈ flatFields fields, part.Whole := by
  cases fields with
  | nil => simp [flatFields]
  | cons field rest =>
    have value := whole_flat field.2 whole.2.1
    exact List.forall_mem_cons.mpr ⟨by simp [whole.1,value],whole_flatFields rest whole.2.2⟩

end

theorem whole_insertEntry {name : Text} {value : Doc} (whole : value.Whole) {entries : List (Text × Doc)} (others : WholeEntries entries) :
    WholeEntries (insertEntry name value entries) := by
  induction entries with
  | nil => exact ⟨whole,trivial⟩
  | cons entry rest ih =>
    unfold insertEntry
    split
    · exact ⟨others.1,ih others.2⟩
    · exact ⟨whole,others⟩

mutual

theorem whole_sorted (doc : Doc) (whole : doc.Whole) : doc.sorted.Whole := by
  cases doc with
  | atom shown => exact whole
  | text value => trivial
  | list items => exact whole_sortedItems items whole
  | table entries => exact whole_sortedEntries entries whole
  | record name fields => exact ⟨whole.1,whole_sortedFields fields whole.2⟩
theorem whole_sortedItems (items : List Doc) (whole : WholeItems items) : WholeItems (sortedItems items) := by
  cases items with
  | nil => trivial
  | cons item rest => exact ⟨whole_sorted item whole.1,whole_sortedItems rest whole.2⟩
theorem whole_sortedEntries (entries : List (Text × Doc)) (whole : WholeEntries entries) : WholeEntries (sortedEntries entries) := by
  cases entries with
  | nil => trivial
  | cons entry rest => exact whole_insertEntry (whole_sorted entry.2 whole.1) (whole_sortedEntries rest whole.2)
theorem whole_sortedFields (fields : List (Text × Doc)) (whole : WholeFields fields) : WholeFields (sortedFields fields) := by
  cases fields with
  | nil => trivial
  | cons field rest => exact ⟨whole.1,whole_sorted field.2 whole.2.1,whole_sortedFields rest whole.2.2⟩

end

/-- A text that is broken over lines is made of quoted pieces. -/
theorem whole_fillWords (indent reserve : Nat) (current : Text) (words : List Text) :
    ∀ piece ∈ fillWords indent reserve current words, piece.Whole := by
  induction words generalizing current with
  | nil =>
    unfold fillWords
    split <;> simp
  | cons word rest ih =>
    unfold fillWords
    generalize (if rest.isEmpty then reserve else 0) = free
    dsimp only
    split
    · exact ih _
    · split
      · exact ih _
      · exact List.forall_mem_cons.mpr ⟨Text.whole_quoted _,ih _⟩
theorem whole_textPieces (indent allowance : Nat) (lines : List Text) : ∀ piece ∈ textPieces indent allowance lines, piece.Whole := by
  induction lines with
  | nil => simp [textPieces]
  | cons line rest ih =>
    unfold textPieces
    generalize (if rest.isEmpty then allowance else 0) = free
    dsimp only
    refine List.forall_mem_append.mpr ⟨?_,ih⟩
    split
    · simp
    · exact whole_fillWords _ _ _ _
theorem whole_brokenText (alone : Bool) (indent allowance : Nat) (value : Text) : (brokenText alone indent allowance value).Whole := by
  unfold brokenText
  generalize (if alone then indent + 1 else indent) = column
  generalize (if alone then allowance + 1 else allowance) = reserve
  dsimp only
  have each := whole_textPieces column reserve (linesWithEnds value)
  split
  · exact Text.whole_quoted value
  · rename_i piece single
    exact each piece (single ▸ List.mem_singleton_self piece)
  · have between : Text.Whole (lit "\n" ++ Text.blanks column) := by simp
    have body := Text.whole_join between each
    split
    · simpa using body
    · exact body

mutual

theorem whole_layoutAt (doc : Doc) (whole : doc.Whole) (alone : Bool) (indent allowance : Nat) :
    (doc.layoutAt alone indent allowance).Whole := by
  cases doc with
  | atom shown => exact whole
  | text value =>
    unfold layoutAt
    split
    · exact Text.whole_quoted value
    · exact whole_brokenText _ _ _ _
  | list items =>
    unfold layoutAt
    split
    · exact whole_flat (.list items) whole
    · simpa using whole_layoutItems items whole _ _
  | table entries =>
    unfold layoutAt
    split
    · exact whole_flat (.table entries) whole
    · simpa using whole_layoutEntries entries whole _ _
  | record name fields =>
    unfold layoutAt
    split
    · exact whole_flat (.record name fields) whole
    · simpa [whole.1] using whole_layoutFields fields whole.2 _ _
theorem whole_layoutItems (items : List Doc) (whole : WholeItems items) (indent allowance : Nat) :
    (layoutItems items indent allowance).Whole := by
  cases items with
  | nil => simp [layoutItems]
  | cons item rest =>
    unfold layoutItems
    split
    · exact whole_layoutAt item whole.1 _ _ _
    · simpa using ⟨whole_layoutAt item whole.1 _ _ _,whole_layoutItems rest whole.2 _ _⟩
theorem whole_layoutEntries (entries : List (Text × Doc)) (whole : WholeEntries entries) (indent allowance : Nat) :
    (layoutEntries entries indent allowance).Whole := by
  cases entries with
  | nil => simp [layoutEntries]
  | cons entry rest =>
    unfold layoutEntries
    dsimp only
    split
    · simpa using whole_layoutAt entry.2 whole.1 _ _ _
    · simpa using ⟨whole_layoutAt entry.2 whole.1 _ _ _,whole_layoutEntries rest whole.2 _ _⟩
theorem whole_layoutFields (fields : List (Text × Doc)) (whole : WholeFields fields) (indent allowance : Nat) :
    (layoutFields fields indent allowance).Whole := by
  cases fields with
  | nil => simp [layoutFields]
  | cons field rest =>
    unfold layoutFields
    dsimp only
    split
    · simpa [whole.1] using whole_layoutAt field.2 whole.2.1 _ _ _
    · simpa [whole.1] using ⟨whole_layoutAt field.2 whole.2.1 _ _ _,whole_layoutFields rest whole.2.2 _ _⟩

end

theorem whole_layout (doc : Doc) (whole : doc.Whole) : doc.layout.Whole := whole_layoutAt doc.sorted (whole_sorted doc whole) _ _ _

end Doc

theorem Operator.whole_doc (op : Operator) : op.doc.Whole := by
  have title : op.title.Whole := by cases op <;> exact Text.whole_lit _
  simp [doc,Doc.Whole,title]

mutual

theorem Expr.whole_doc (e : Expr) : e.doc.Whole := by
  match e with
  | .literal n | .var name => simp [Expr.doc,Doc.Whole,Doc.WholeFields]
  | .binary left op right => simp [Expr.doc,Doc.Whole,Doc.WholeFields,left.whole_doc,op.whole_doc,right.whole_doc]
  | .call callee args => simp [Expr.doc,Doc.Whole,Doc.WholeFields,args.whole_docs]
  | .scope body => simp [Expr.doc,Block.record,Doc.Whole,Doc.WholeFields,body.whole_stmtDocs,body.whole_valueDoc]
  | .loop cond body => simp [Expr.doc,Block.record,Doc.Whole,Doc.WholeFields,cond.whole_doc,body.whole_stmtDocs,body.whole_valueDoc]
theorem Args.whole_docs (args : Args) : Doc.WholeItems args.docs := by
  match args with
  | .nil => trivial
  | .cons first rest => exact ⟨first.whole_doc,rest.whole_docs⟩
theorem Stmt.whole_doc (s : Stmt) : s.doc.Whole := by
  match s with
  | .discard value | .bindConst name value | .bindMut name value | .assign name value =>
    simp [Stmt.doc,Doc.Whole,Doc.WholeFields,value.whole_doc]
theorem Block.whole_stmtDocs (b : Block) : Doc.WholeItems b.stmtDocs := by
  match b with
  | .result _ => trivial
  | .step first rest => exact ⟨first.whole_doc,rest.whole_stmtDocs⟩
theorem Block.whole_valueDoc (b : Block) : b.valueDoc.Whole := by
  match b with
  | .result value => exact value.whole_doc
  | .step _ rest => exact rest.whole_valueDoc

end

/-- Whatever its names are, a program can be shown. -/
theorem Program.whole_layout (program : Program) : program.node.doc.layout.Whole := by
  refine Doc.whole_layout _ ?_
  cases program with
  | expr e => exact e.whole_doc
  | block b => simp [node,Node.doc,Block.doc,Block.record,Doc.Whole,Doc.WholeFields,b.whole_stmtDocs,b.whole_valueDoc]

/-! ### Names -/

/-- All names in use are whole. -/
def NameScope.Whole (scope : NameScope) : Prop := ∀ name ∈ scope.used, name.Whole

theorem NameScope.whole_name {base : Text} (whole : base.Whole) (scope : NameScope) : (scope.register base).1.Whole := by
  unfold register
  split
  · simp [numbered,whole]
  · exact whole
theorem NameScope.Whole.register {scope : NameScope} (names : scope.Whole) {base : Text} (whole : base.Whole) : (scope.register base).2.Whole := by
  unfold NameScope.Whole
  rw [register_used]
  exact List.forall_mem_cons.mpr ⟨whole_name whole scope,names⟩
theorem Function.whole_registerParams (count : Nat) {names : NameScope} (whole : names.Whole) :
    (∀ param ∈ (registerParams count names).1, param.Whole) ∧ (registerParams count names).2.Whole := by
  induction count generalizing names with
  | zero => exact ⟨by simp [registerParams],whole⟩
  | succ count ih =>
    obtain ⟨params,later⟩ := ih (whole.register Text.whole_nil)
    exact ⟨List.forall_mem_cons.mpr ⟨NameScope.whole_name Text.whole_nil names,params⟩,later⟩
theorem Function.whole_declare (name : Text) (arity : Nat) :
    (∀ param ∈ (declare name arity).params, param.Whole) ∧ (declare name arity).names.Whole := by
  have fresh : NameScope.empty.Whole := by simp [NameScope.Whole,NameScope.empty]
  obtain ⟨params,names⟩ := whole_registerParams arity fresh
  exact ⟨params,names.register Text.whole_nil⟩

/-- The names that stand for cells are whole: the target has to carry them. -/
def Environment.Whole (env : Environment) : Prop :=
  ∀ name binding, env.lookup? name = some binding → binding.isBoxed = true → name.Whole

theorem Environment.Whole.bind {env : Environment} (whole : env.Whole) {name : Text} {value : Value} {levity : Levity}
    (new : levity = .boxed → name.Whole) : (env.bind name value levity).Whole := by
  intro other binding found boxed
  rw [lookup?_bind] at found
  split at found
  · rename_i same
    cases found
    exact same ▸ new (by simpa [Binding.isBoxed] using boxed)
  · exact whole other binding found boxed
theorem Environment.Whole.bindAll {env : Environment} (whole : env.Whole) {points : List MergePoint}
    (names : ∀ point ∈ points, point.name.Whole) : (MergePoint.bindAll env points).Whole := by
  unfold MergePoint.bindAll
  induction points generalizing env with
  | nil => exact whole
  | cons point rest ih =>
    obtain ⟨first,others⟩ := List.forall_mem_cons.mp names
    exact ih (whole.bind fun _ => first) others

namespace Build
variable {α β : Type}

/-- The step takes whole names only, and what it gives on success is good. -/
def TakesWhole (step : Build α) (good : α → Prop) : Prop :=
  ∀ f : Frame, f.function.names.Whole → (step f).2.function.names.Whole ∧ ∀ a, (step f).1 = .ok a → good a

namespace TakesWhole
variable {step : Build α} {next : α → Build β} {good : α → Prop} {better : β → Prop}

theorem pure {a : α} (holds : good a) : TakesWhole (Pure.pure a : Build α) good :=
  fun _ names => ⟨names,fun _ same => Except.ok.inj same ▸ holds⟩
theorem fail (fault : Fault) : TakesWhole (Attempt.fail fault : Build α) good := fun _ names => ⟨names,fun _ same => by cases same⟩
theorem bind (first : TakesWhole step good) (rest : ∀ a, good a → TakesWhole (next a) better) : TakesWhole (step >>= next) better := by
  intro f names
  obtain ⟨kept,result⟩ := first f names
  rcases run : step f with ⟨fault | a,after⟩
  · rw [run] at kept
    rw [Attempt.bind_run_error run]
    exact ⟨kept,fun _ same => by cases same⟩
  · rw [run] at kept result
    rw [Attempt.bind_run_ok run]
    exact rest a (result a rfl) after kept
theorem andThen (first : TakesWhole step fun _ => True) (rest : ∀ a, TakesWhole (next a) better) : TakesWhole (step >>= next) better :=
  first.bind fun a _ => rest a
/-- A step that takes no name. -/
theorem still (same : ∀ f, (step f).2.function.names = f.function.names) : TakesWhole step fun _ => True :=
  fun f names => ⟨same f ▸ names,fun _ _ => trivial⟩
theorem register {base : Text} (whole : base.Whole) : TakesWhole (Build.register base) fun _ => True :=
  fun _ names => ⟨names.register whole,fun _ _ => trivial⟩
theorem addBlock {base : Text} (whole : base.Whole) : TakesWhole (Build.addBlock base) fun _ => True :=
  fun _ names => ⟨names.register whole,fun _ _ => trivial⟩
theorem allocate {base : Text} (whole : base.Whole) : TakesWhole (Build.allocate base) fun _ => True :=
  fun _ names => ⟨names.register whole,fun _ _ => trivial⟩
theorem emitUnnamed (instr : Instr) : TakesWhole (Build.emitUnnamed instr) fun _ => True :=
  fun _ names => ⟨names.register Text.whole_nil,fun _ _ => trivial⟩
theorem emitNamed {base : Text} (whole : base.Whole) (instr : Text → Instr) : TakesWhole (Build.emitNamed base instr) fun _ => True :=
  fun _ names => ⟨names.register whole,fun _ _ => trivial⟩
theorem isZero (value : Value) : TakesWhole (Build.isZero value) fun _ => True :=
  fun _ names => ⟨names.register (Text.whole_lit _),fun _ _ => trivial⟩
theorem terminate (instr : Instr) : TakesWhole (Build.terminate instr) fun _ => True := by
  refine (register Text.whole_nil).andThen fun _ => (still fun _ => rfl).andThen fun ended => ?_
  cases ended with
  | false => exact still fun _ => rfl
  | true => exact fail _
theorem identifier (name : Text) : TakesWhole (Build.identifier name) fun base => base = name ∧ name.Whole := by
  unfold Build.identifier
  split
  · exact fail _
  · exact pure ⟨rfl,Identifier.whole ‹_›⟩

end TakesWhole

end Build

open Build (TakesWhole)

theorem Build.takesWhole_readVariable {env : Environment} (whole : env.Whole) (name : Text) :
    TakesWhole (readVariable env name) fun _ => True := by
  intro f names
  unfold readVariable
  cases found : env.lookup? name with
  | none =>
    have unresolved : env.resolve name = .error (.program (.undeclaredVariable (.text name))) := by rw [Environment.resolve,found]
    rw [unresolved]
    exact ⟨names,fun _ _ => trivial⟩
  | some binding =>
    have resolved : env.resolve name = .ok binding := by rw [Environment.resolve,found]
    rw [resolved,Attempt.bind_run_ok (rfl : Attempt.ofExcept (.ok binding) f = (.ok binding,f))]
    cases boxed : binding.isBoxed with
    | true => exact TakesWhole.emitNamed (whole name binding found boxed) _ f names
    | false => exact ⟨names,fun _ _ => trivial⟩
theorem Build.takesWhole_arith (op : Operator) (left right : Value) : TakesWhole (arith op left right) fun _ => True := by
  unfold arith
  split
  · exact .pure trivial
  · refine .emitNamed ?_ _
    cases op <;> exact Text.whole_lit _

theorem MergePoint.takesWhole_openAll (env : Environment) (preheader : Text) (names : List Text) :
    TakesWhole (openAll env preheader names) fun points => ∀ point ∈ points, point.name.Whole := by
  induction names with
  | nil => exact .pure (by simp)
  | cons name rest ih =>
    unfold openAll
    split
    · exact ih
    · refine (TakesWhole.identifier name).bind ?_
      rintro _ ⟨rfl,whole⟩
      refine (TakesWhole.register whole).andThen fun phi => (TakesWhole.still fun _ => rfl).andThen fun _ => ih.bind ?_
      intro points others
      exact .pure (List.forall_mem_cons.mpr ⟨whole,others⟩)
theorem MergePoint.takesWhole_openFor (reads : List Text) (env : Environment) (preheader : Text) :
    TakesWhole (openFor reads env preheader) fun points => ∀ point ∈ points, point.name.Whole := by
  refine (takesWhole_openAll env preheader _).bind fun points whole => ?_
  split
  · exact .pure whole
  · exact (TakesWhole.still fun _ => rfl).andThen fun _ => (TakesWhole.still fun _ => rfl).andThen fun _ => .pure whole
theorem MergePoint.takesWhole_closeAll (env : Environment) (latch : Text) (points : List MergePoint) :
    TakesWhole (closeAll env latch points) fun _ => True := by
  induction points with
  | nil => exact .pure trivial
  | cons point rest ih =>
    intro f names
    unfold closeAll
    rw [Attempt.bind_run_ok (Attempt.read_run Frame.function f)]
    unfold MergePoint.close
    cases point.latch with
    | some block => exact ⟨names,fun _ _ => trivial⟩
    | none =>
      -- The edge of the phi is added to the code only.
      have later : TakesWhole (do
          Build.note (lit "lowering.loops: Patched merge point " ++ point.name ++ lit " from " ++ latch)
          let points ← closeAll env latch rest
          pure ({ point with latch := some latch } :: points)) fun _ => True :=
        (TakesWhole.still fun _ => rfl).andThen fun _ => ih.andThen fun _ => .pure trivial
      exact later { f with function := f.function.addIncoming point.phi (point.carried env,latch) } names

mutual

theorem Expr.takesWhole_lower (signatures : Table Nat) (e : Expr) {env : Environment} (whole : env.Whole) :
    TakesWhole (e.lower signatures env) fun _ => True := by
  match e with
  | .literal n => exact .pure trivial
  | .var name => exact Build.takesWhole_readVariable whole name
  | .binary left op right =>
    refine (left.takesWhole_lower signatures whole).andThen fun a => ?_
    exact (right.takesWhole_lower signatures whole).andThen fun b => Build.takesWhole_arith op a b
  | .call callee args =>
    refine TakesWhole.andThen (.still fun _ => rfl) fun _ => (args.takesWhole_lower signatures whole).andThen fun values => ?_
    refine (TakesWhole.identifier callee).bind ?_
    rintro _ ⟨rfl,carried⟩
    exact .emitNamed (by simp [carried]) _
  | .scope body => exact (body.takesWhole_lower signatures whole).bind fun _ _ => .pure trivial
  | .loop cond body =>
    refine (cond.takesWhole_lower signatures whole).andThen fun first => (TakesWhole.isZero first).andThen fun skip => ?_
    refine (TakesWhole.addBlock (Text.whole_lit _)).andThen fun header => (TakesWhole.addBlock (Text.whole_lit _)).andThen fun exit => ?_
    refine (TakesWhole.still fun _ => rfl).andThen fun preheader => (TakesWhole.terminate _).andThen fun _ => ?_
    refine (TakesWhole.still fun _ => rfl).andThen fun _ => (MergePoint.takesWhole_openFor _ env preheader).bind fun points names => ?_
    refine (body.takesWhole_lower signatures (whole.bindAll names)).bind fun result after => ?_
    refine (cond.takesWhole_lower signatures after).andThen fun again => (TakesWhole.isZero again).andThen fun leave => ?_
    refine (TakesWhole.still fun _ => rfl).andThen fun latch => (MergePoint.takesWhole_closeAll _ latch points).andThen fun closed => ?_
    refine (TakesWhole.terminate _).andThen fun _ => (TakesWhole.still fun _ => rfl).andThen fun _ => ?_
    exact (TakesWhole.still fun _ => rfl).andThen fun _ => .pure trivial
theorem Args.takesWhole_lower (signatures : Table Nat) (args : Args) {env : Environment} (whole : env.Whole) :
    TakesWhole (args.lower signatures env) fun _ => True := by
  match args with
  | .nil => exact .pure trivial
  | .cons first rest =>
    refine (first.takesWhole_lower signatures whole).andThen fun value => ?_
    exact (rest.takesWhole_lower signatures whole).andThen fun values => .pure trivial
theorem Stmt.takesWhole_lower (signatures : Table Nat) (s : Stmt) {env : Environment} (whole : env.Whole) :
    TakesWhole (s.lower signatures env) Environment.Whole := by
  match s with
  | .discard value => exact (value.takesWhole_lower signatures whole).andThen fun _ => .pure whole
  | .bindConst name value =>
    refine (value.takesWhole_lower signatures whole).andThen fun value => ?_
    cases value with
    | reg result type => exact .fail _
    | const n => exact .pure (whole.bind fun boxed => by cases boxed)
  | .bindMut name value =>
    refine (TakesWhole.identifier name).bind ?_
    rintro _ ⟨rfl,carried⟩
    refine (TakesWhole.allocate carried).andThen fun cell => (value.takesWhole_lower signatures whole).andThen fun value => ?_
    exact (TakesWhole.emitUnnamed _).andThen fun _ => .pure (whole.bind fun _ => carried)
  | .assign name value =>
    refine TakesWhole.andThen (.still fun _ => rfl) fun address => (value.takesWhole_lower signatures whole).andThen fun value => ?_
    exact (TakesWhole.emitUnnamed _).andThen fun _ => .pure whole
theorem Block.takesWhole_lower (signatures : Table Nat) (b : Block) {env : Environment} (whole : env.Whole) :
    TakesWhole (b.lower signatures env) fun result => result.2.Whole := by
  match b with
  | .result value => exact (value.takesWhole_lower signatures whole).andThen fun _ => .pure whole
  | .step first rest => exact (first.takesWhole_lower signatures whole).bind fun _ later => rest.takesWhole_lower signatures later

end

theorem Program.takesWhole_lower (signatures : Table Nat) (program : Program) :
    TakesWhole (program.subject.lowerProgram signatures .empty) fun _ => True := by
  have fresh : Environment.empty.Whole := by simp [Environment.Whole]
  cases program with
  | expr e => exact e.takesWhole_lower signatures fresh
  | block b => exact (b.takesWhole_lower signatures fresh).bind fun _ _ => .pure trivial

/-! ### Modules -/

theorem escapeName_whole {name : Text} (whole : name.Whole) : (escapeName name).Whole := by
  refine Text.whole_flatMap fun c member => ?_
  split
  · exact Text.whole_lit _
  · split
    · exact Text.whole_lit _
    · simpa using whole c member
theorem localRef_whole {name : Text} (whole : name.Whole) : (localRef name).Whole := by simp [localRef,escapeName_whole whole]
theorem globalRef_whole {name : Text} (whole : name.Whole) : (globalRef name).Whole := by simp [globalRef,escapeName_whole whole]
@[simp] theorem Ty.whole_text (type : Ty) : type.text.Whole := by cases type <;> exact Text.whole_lit _
@[simp] theorem Operator.whole_mnemonic (op : Operator) : op.mnemonic.Whole := by cases op <;> exact Text.whole_lit _
theorem Value.whole_ref {value : Value} (whole : ∀ name type, value = .reg name type → name.Whole) : value.ref.Whole := by
  cases value with
  | const n => exact Text.whole_ofInt n
  | reg name type => exact localRef_whole (whole name type rfl)
/-- An instruction can be written if the names that it takes, refers to and calls can be. -/
theorem Instr.whole_text {instr : Instr} (named : ∀ name, instr.result? = some name → name.Whole)
    (refers : ∀ name, instr.Refers name → name.Whole)
    (called : ∀ result callee args, instr = .call result callee args → callee.Whole) : instr.text.Whole := by
  have operand : ∀ value ∈ instr.operands, value.ref.Whole := by
    intro value member
    refine Value.whole_ref ?_
    rintro name type rfl
    exact refers name (.inl ⟨type,member⟩)
  have target : ∀ label ∈ instr.targets, (localRef label).Whole := fun label member => localRef_whole (refers label (.inr (.inl member)))
  have yields : ∀ name, instr.result? = some name → (localRef name).Whole := fun name same => localRef_whole (named name same)
  cases instr with
  | alloca result => simp [text,yields result rfl]
  | store value address => simp [text,Value.text,operand value (by simp [operands]),operand address (by simp [operands])]
  | load result address => simp [text,Value.text,yields result rfl,operand address (by simp [operands])]
  | arith result op left right =>
    simp [text,Value.text,yields result rfl,operand left (by simp [operands]),operand right (by simp [operands])]
  | call result callee args =>
    have each : ∀ part ∈ args.map Value.text, part.Whole := by
      intro part member
      obtain ⟨arg,inside,rfl⟩ := List.mem_map.mp member
      simp [Value.text,operand arg inside]
    simp [text,yields result rfl,globalRef_whole (called result callee args rfl),Text.whole_join (Text.whole_lit ", ") each]
  | isZero result value => simp [text,Value.text,yields result rfl,operand value (by simp [operands])]
  | phi result type incoming =>
    have each : ∀ part ∈ incoming.map edgeText, part.Whole := by
      intro part member
      obtain ⟨⟨value,source⟩,inside,rfl⟩ := List.mem_map.mp member
      have first : value.ref.Whole := by
        refine Value.whole_ref ?_
        rintro name kind rfl
        exact refers name (.inr (.inr ⟨result,type,incoming,rfl,.inl ⟨kind,source,inside⟩⟩))
      have second := localRef_whole (refers source (.inr (.inr ⟨result,type,incoming,rfl,.inr (List.mem_map_of_mem inside)⟩)))
      simp [edgeText,first,second]
    simp [text,yields result rfl,Text.whole_join (Text.whole_lit ", ") each]
  | br label => simp [text,target label (by simp [targets])]
  | condBr cond yes no =>
    simp [text,Value.text,operand cond (by simp [operands]),target yes (by simp [targets]),target no (by simp [targets])]
  | ret value => simp [text,Value.text,operand value (by simp [operands])]
theorem labelText_whole {label : Text} (whole : label.Whole) : (labelText label).Whole := by
  unfold labelText
  split
  · exact whole
  · simp [escapeName_whole whole]

namespace Function
variable {fn : Function}

theorem whole_text (name : fn.name.Whole) (params : ∀ param ∈ fn.params, param.Whole)
    (blocks : ∀ block ∈ fn.blocks, block.label.Whole ∧ ∀ instr ∈ block.instrs, instr.text.Whole) : fn.text.Whole := by
  have head : fn.head.Whole := by
    have each : ∀ part ∈ fn.params.map fun param => (Value.reg param .i32).text, part.Whole := by
      intro part member
      obtain ⟨param,inside,rfl⟩ := List.mem_map.mp member
      simp [Value.text,Value.ref,localRef_whole (params param inside)]
    simp [Function.head,globalRef_whole name,Text.whole_join (Text.whole_lit ", ") each]
  have body : Text.Whole (fn.blocks.flatMap BasicBlock.text) := by
    refine Text.whole_flatMap fun block member => ?_
    obtain ⟨label,instrs⟩ := blocks block member
    have lines : Text.Whole (block.instrs.flatMap fun instr => lit "  " ++ (instr.text ++ lit "\n")) :=
      Text.whole_flatMap fun instr inside => by simp [instrs instr inside]
    simp [BasicBlock.text,labelText_whole label,lines]
  unfold text
  split <;> simp [head,body]
theorem whole_text_declare {name : Text} (carried : Identifier.error? name = none) (arity : Nat) : (declare name arity).text.Whole :=
  whole_text (Identifier.whole carried) (whole_declare name arity).1 (by simp)
theorem Named.whole_definitions (named : fn.Named) (whole : fn.names.Whole) : ∀ name ∈ fn.definitions, name.Whole := by
  intro name member
  obtain ⟨block,found,inside⟩ := List.mem_flatMap.mp member
  refine whole name ?_
  rcases List.mem_cons.mp inside with rfl | result
  · exact named.labelUsed _ (List.mem_map_of_mem found)
  · obtain ⟨instr,placed,yields⟩ := List.mem_filterMap.mp result
    obtain ⟨index,at_instr⟩ := At.of_mem ((mem_blocks_iff named.labels).mp found) placed
    exact named.resultUsed _ _ _ _ at_instr yields
/-- A well formed function can be written if what it defines and what can be called can be. -/
theorem WellFormed.whole_text {signatures : Table Nat} {entry : Text} (wellFormed : fn.WellFormed signatures entry)
    (inside : ∀ source target, fn.Edge source target → target ∈ fn.labels) (name : fn.name.Whole)
    (params : ∀ param ∈ fn.params, param.Whole) (defined : ∀ name ∈ fn.definitions, name.Whole)
    (callees : ∀ callee ∈ signatures.names, callee.Whole) : fn.text.Whole := by
  refine Function.whole_text name params fun block found => ⟨?_,fun instr member => ?_⟩
  · exact defined _ (List.mem_flatMap.mpr ⟨block,found,List.mem_cons_self⟩)
  · refine Instr.whole_text ?_ ?_ ?_
    · intro name yields
      exact defined name (List.mem_flatMap.mpr ⟨block,found,List.mem_cons_of_mem _ (List.mem_filterMap.mpr ⟨instr,member,yields⟩)⟩)
    · intro name refers
      exact defined name (wellFormed.defines inside found member refers)
    · rintro result callee args rfl
      obtain ⟨index,placed⟩ := At.of_mem ((mem_blocks_iff wellFormed.distinct).mp found) member
      exact callees callee (List.mem_map_of_mem (Table.mem_of_get? (wellFormed.typed _ _ _ placed).1))

end Function

theorem Options.whole_target {options : Options} (host : options.host.Whole)
    (whole : ∀ triple, options.triple = some triple → triple.Whole) : options.target.Whole := by
  unfold target
  split
  · exact host
  · split
    · exact host
    · exact whole _ ‹_›
theorem Module.whole_text {module : Module} (name : module.name.Whole) (triple : module.triple.Whole)
    (functions : ∀ fn ∈ module.functions, fn.text.Whole) : module.text.Whole := by
  refine Text.whole_join (Text.whole_lit "\n") ?_
  intro part member
  rcases List.mem_append.mp member with header | text
  · simp only [List.mem_cons,List.not_mem_nil,or_false] at header
    rcases header with rfl | rfl | rfl | rfl <;> simp [name,triple]
  · obtain ⟨fn,inside,rfl⟩ := List.mem_map.mp text
    exact functions fn inside

namespace Draft
variable {options : Options}

theorem declared_carried {n : Node} (clean : findings options n = []) {fn : Function} (member : fn ∈ declared options n) :
    ∃ name arity, fn = .declare name arity ∧ Identifier.error? name = none := by
  rcases List.mem_append.mp member with callee | last
  · obtain ⟨site,inside,rfl⟩ := List.mem_map.mp callee
    exact ⟨_,_,rfl,(callees_names clean).2.2 _ (List.mem_map_of_mem inside)⟩
  · exact ⟨_,_,List.mem_singleton.mp last,entry_carried clean⟩

/-- The text of a module that is built is whole if the name of the module, its triple and the host's are. -/
theorem whole_text {program : Program} {draft' : Draft} (built : build program.subject (.new options) = (.ok (),draft'))
    (name : options.moduleName.Whole) (host : options.host.Whole) (triple : ∀ triple, options.triple = some triple → triple.Whole) :
    draft'.module.text.Whole := by
  have clean := findings_of_built built
  obtain ⟨draft,others,value,f,⟨holds,_,all⟩,lowered,gives,taken,_⟩ := build_course built
  have wellFormed := finished_wellFormed gives
  obtain ⟨above,sound,advance,_⟩ := gives
  have started : (start options draft).function.names.Whole :=
    ((Function.whole_declare options.entryName 0).2.register (Text.whole_lit "entry")).register (Text.whole_lit "start")
  have filled : f.function.names.Whole := by
    have kept := (program.takesWhole_lower draft.signatures (start options draft) started).1
    rwa [lowered] at kept
  have names : (f.finished value (lit "start")).function.names.Whole := (filled.register Text.whole_nil).register Text.whole_nil
  have callees : ∀ callee ∈ draft.signatures.names, callee.Whole := by
    intro callee member
    rw [holds.inStep.names,all] at member
    obtain ⟨fn,found,rfl⟩ := List.mem_map.mp member
    obtain ⟨name,arity,rfl,carried⟩ := declared_carried clean found
    exact Identifier.whole carried
  have entry : (f.finished value (lit "start")).function.text.Whole := by
    have noParams : (f.finished value (lit "start")).function.params = [] := advance.declared.2
    refine wellFormed.whole_text (fun _ _ => sound.targets_finished value) ?_ ?_ ?_ callees
    · exact taken.name ▸ Identifier.whole (entry_carried clean)
    · simp [noParams]
    · exact (sound.named_finished value).whole_definitions names
  rw [module,taken.settings]
  refine Module.whole_text name (Options.whole_target host triple) ?_
  intro fn member
  rw [taken.functions] at member
  rcases List.mem_append.mp member with early | last
  · have found : fn ∈ draft.functions := holds.functions ▸ List.mem_append_left _ early
    obtain ⟨name,arity,rfl,carried⟩ := declared_carried clean (all ▸ found)
    exact Function.whole_text_declare carried arity
  · exact List.mem_singleton.mp last ▸ entry

end Draft

end Lev
