import Lev.Proofs.Building

/-!
References and definitions in the text of a function. The text is made of pieces: references to something
local, the places that define it (a result, a parameter or the label of a block), and the words between
them. Escaping keeps names apart. Main statement: the names that the entry function of a module defines
are distinct, also as they are printed, and each reference in its text has exactly one definition there.
-/
namespace Lev

/-! ### Escaped names -/

/-- A code point as it stands inside quotes. -/
def CodePoint.escaped (c : CodePoint) : Text := if c.is '\\' then lit "\\5c" else if c.is '"' then lit "\\22" else [c]

/-- The first code point of an escaped text can be read off it. -/
theorem CodePoint.escaped_append_inj {c d : CodePoint} {s t : Text} (same : c.escaped ++ s = d.escaped ++ t) : c = d ∧ s = t := by
  have backslash : escaped (.char '\\') = [.char '\\',.char '5',.char 'c'] := by decide
  have quote : escaped (.char '"') = [.char '\\',.char '2',.char '2'] := by decide
  have plain : ∀ c : CodePoint, c = .char '\\' ∨ c = .char '"' ∨ c ≠ .char '\\' ∧ c.escaped = [c] := by
    intro c
    by_cases isBackslash : c = .char '\\'
    · exact .inl isBackslash
    · by_cases isQuote : c = .char '"'
      · exact .inr (.inl isQuote)
      · exact .inr (.inr ⟨isBackslash,by simp [escaped,is,isBackslash,isQuote]⟩)
  rcases plain c with rfl | rfl | ⟨ne,once⟩ <;> rcases plain d with rfl | rfl | ⟨ne',once'⟩ <;> simp_all
theorem escapeName_injective {s t : Text} (same : escapeName s = escapeName t) : s = t := by
  have step : ∀ (c : CodePoint) (s : Text), escapeName (c :: s) = c.escaped ++ escapeName s := fun _ _ => List.flatMap_cons
  have written : ∀ c : CodePoint, c.escaped ≠ [] := by
    intro c
    simp only [CodePoint.escaped]
    split
    · decide
    · split <;> simp [lit]
  induction s generalizing t with
  | nil =>
    cases t with
    | nil => rfl
    | cons d t =>
      rw [step] at same
      exact absurd (List.append_eq_nil_iff.mp same.symm).1 (written d)
  | cons c s ih =>
    cases t with
    | nil =>
      rw [step] at same
      exact absurd (List.append_eq_nil_iff.mp same).1 (written c)
    | cons d t =>
      rw [step,step] at same
      obtain ⟨rfl,rest⟩ := CodePoint.escaped_append_inj same
      rw [ih rest]
theorem localRef_injective {s t : Text} (same : localRef s = localRef t) : s = t := by
  simp only [localRef,List.append_assoc,List.append_cancel_left_eq,List.append_cancel_right_eq] at same
  exact escapeName_injective same

/-! ### The pieces of a text -/

/-- A part of the text of a function: words, a reference to something local, or a place that defines it. -/
inductive Piece where
  | word (text : Text)
  | reference (name : Text)
  | result (name : Text)
  | label (name : Text)

namespace Piece

def text : Piece → Text
  | .word text => text
  | .reference name => localRef name
  | .result name => localRef name
  | .label name => labelText name
/-- The name that a piece defines. -/
def defines? : Piece → Option Text
  | .result name => some name
  | .label name => some name
  | _ => none
/-- The pieces with commas between them. -/
def join : List (List Piece) → List Piece
  | [] => []
  | [part] => part
  | part :: rest => part ++ .word (lit ", ") :: join rest

end Piece

/-- The text of pieces in order. -/
def piecesText (pieces : List Piece) : Text := pieces.flatMap Piece.text

def Value.pieces : Value → List Piece
  | .const n => [.word (Text.ofInt n)]
  | .reg name _ => [.reference name]
def Value.typedPieces (value : Value) : List Piece := .word (value.type.text ++ lit " ") :: value.pieces

namespace Instr

def edgePieces (edge : Value × Text) : List Piece :=
  .word (lit "[") :: edge.1.pieces ++ [.word (lit ", "),.reference edge.2,.word (lit "]")]
def pieces : Instr → List Piece
  | .alloca result => [.result result,.word (lit " = alloca i32")]
  | .store value address => .word (lit "store ") :: value.typedPieces ++ .word (lit ", ") :: address.typedPieces
  | .load result address => .result result :: .word (lit " = load i32, ") :: address.typedPieces
  | .arith result op left right =>
    .result result :: .word (lit " = " ++ op.mnemonic ++ lit " ") :: left.typedPieces ++ .word (lit ", ") :: right.pieces
  | .call result callee args =>
    .result result :: .word (lit " = call i32 " ++ globalRef callee ++ lit "(") ::
      Piece.join (args.map Value.typedPieces) ++ [.word (lit ")")]
  | .isZero result value => .result result :: .word (lit " = icmp eq ") :: value.typedPieces ++ [.word (lit ", 0")]
  | .phi result type incoming =>
    .result result :: .word (lit " = phi  " ++ type.text ++ lit " ") :: Piece.join (incoming.map edgePieces)
  | .br target => [.word (lit "br label "),.reference target]
  | .condBr cond yes no =>
    .word (lit "br ") :: cond.typedPieces ++ [.word (lit ", label "),.reference yes,.word (lit ", label "),.reference no]
  | .ret value => .word (lit "ret ") :: value.typedPieces

end Instr

def BasicBlock.pieces (block : BasicBlock) : List Piece :=
  .label block.label :: .word (lit ":\n") ::
    block.instrs.flatMap fun instr => .word (lit "  ") :: instr.pieces ++ [.word (lit "\n")]

namespace Function

def headPieces (fn : Function) : List Piece :=
  .word (lit "i32 " ++ globalRef fn.name ++ lit "(") ::
    Piece.join (fn.params.map fun param => [.word (Ty.i32.text ++ lit " "),.result param]) ++ [.word (lit ")")]
def pieces (fn : Function) : List Piece :=
  if fn.isDeclaration then .word (lit "declare ") :: fn.headPieces ++ [.word (lit "\n")]
  else .word (lit "define ") :: fn.headPieces ++ .word (lit "\n\x7b\n") :: fn.blocks.flatMap BasicBlock.pieces ++ [.word (lit "\x7d\n")]

end Function

section
variable (more others : List Piece)

@[simp] theorem piecesText_nil : piecesText [] = [] := rfl
@[simp] theorem piecesText_cons (piece : Piece) : piecesText (piece :: more) = piece.text ++ piecesText more := rfl
@[simp] theorem piecesText_append : piecesText (more ++ others) = piecesText more ++ piecesText others :=
  List.flatMap_append
theorem piecesText_flatMap {α : Type} (parts : List α) (pieces : α → List Piece) :
    piecesText (parts.flatMap pieces) = parts.flatMap fun part => piecesText (pieces part) :=
  List.flatMap_assoc

end

theorem piecesText_join (parts : List (List Piece)) : piecesText (Piece.join parts) = Text.join (lit ", ") (parts.map piecesText) := by
  induction parts with
  | nil => rfl
  | cons part rest ih =>
    cases rest with
    | nil => rfl
    | cons next rest => simp [Piece.join,Text.join,Piece.text,ih]
theorem Value.piecesText_eq (value : Value) : piecesText value.pieces = value.ref := by
  cases value <;> simp [pieces,ref,Piece.text]
theorem Value.piecesText_typed (value : Value) : piecesText value.typedPieces = value.text := by
  simp [typedPieces,text,piecesText_eq,Piece.text]
theorem Instr.piecesText_eq (instr : Instr) : piecesText instr.pieces = instr.text := by
  have edge : ∀ edge, piecesText (edgePieces edge) = edgeText edge := by
    intro edge
    simp [edgePieces,edgeText,Value.piecesText_eq,Piece.text]
  cases instr <;>
    simp [pieces,text,Piece.text,Value.piecesText_eq,Value.piecesText_typed,piecesText_join,edge,Function.comp_def]
/-- The text of a function is the text of its pieces. -/
theorem Function.piecesText_eq (fn : Function) : piecesText fn.pieces = fn.text := by
  have block : ∀ block : BasicBlock, piecesText block.pieces = block.text := by
    intro block
    simp [BasicBlock.pieces,BasicBlock.text,Piece.text,piecesText_flatMap,Instr.piecesText_eq]
  have head : piecesText fn.headPieces = fn.head := by
    simp [headPieces,Function.head,Piece.text,piecesText_join,Function.comp_def,Value.text,Value.type,Value.ref]
  unfold pieces text
  split <;> simp [head,block,Piece.text,piecesText_flatMap]

/-! ### What the pieces define -/

/-- The names that the blocks of a function define: their labels and the results of their instructions. -/
def Function.definitions (fn : Function) : List Text :=
  fn.blocks.flatMap fun block => block.label :: block.instrs.filterMap Instr.result?

/-- The names that pieces define, in order. -/
def definedBy (pieces : List Piece) : List Text := pieces.filterMap Piece.defines?

section
variable (more others : List Piece) (name : Text)

@[simp] theorem definedBy_nil : definedBy [] = [] := rfl
@[simp] theorem definedBy_word (text : Text) : definedBy (.word text :: more) = definedBy more := rfl
@[simp] theorem definedBy_reference : definedBy (.reference name :: more) = definedBy more := rfl
@[simp] theorem definedBy_result : definedBy (.result name :: more) = name :: definedBy more := rfl
@[simp] theorem definedBy_label : definedBy (.label name :: more) = name :: definedBy more := rfl
@[simp] theorem definedBy_append : definedBy (more ++ others) = definedBy more ++ definedBy others := List.filterMap_append
theorem definedBy_flatMap {α : Type} (parts : List α) (pieces : α → List Piece) :
    definedBy (parts.flatMap pieces) = parts.flatMap fun part => definedBy (pieces part) := by
  induction parts with
  | nil => rfl
  | cons part rest ih => simp [ih]

end

theorem definedBy_join (parts : List (List Piece)) : definedBy (Piece.join parts) = parts.flatMap definedBy := by
  induction parts with
  | nil => rfl
  | cons part rest ih =>
    cases rest with
    | nil => simp [Piece.join]
    | cons next rest => simp [Piece.join,ih]
theorem Value.definedBy_pieces (value : Value) : definedBy value.pieces = [] := by
  cases value <;> rfl
theorem Value.definedBy_typed (value : Value) : definedBy value.typedPieces = [] := by
  simp [typedPieces,definedBy_pieces]
theorem Instr.definedBy_pieces (instr : Instr) : definedBy instr.pieces = instr.result?.toList := by
  have edges : ∀ incoming : List (Value × Text), definedBy (Piece.join (incoming.map edgePieces)) = [] := by
    intro incoming
    rw [definedBy_join,List.flatMap_eq_nil_iff]
    rintro _ member
    obtain ⟨edge,_,rfl⟩ := List.mem_map.mp member
    simp [edgePieces,Value.definedBy_pieces]
  have args : ∀ args : List Value, definedBy (Piece.join (args.map Value.typedPieces)) = [] := by
    intro args
    rw [definedBy_join,List.flatMap_eq_nil_iff]
    rintro _ member
    obtain ⟨arg,_,rfl⟩ := List.mem_map.mp member
    exact arg.definedBy_typed
  cases instr <;> simp [pieces,result?,Value.definedBy_pieces,Value.definedBy_typed,edges,args]
/-- The pieces of a function define its parameters and what its blocks define. -/
theorem Function.definedBy_pieces (fn : Function) : definedBy fn.pieces = fn.params ++ fn.definitions := by
  have block : ∀ block : BasicBlock, definedBy block.pieces = block.label :: block.instrs.filterMap Instr.result? := by
    intro block
    simp only [BasicBlock.pieces,definedBy_label,definedBy_word,definedBy_flatMap,List.cons_append,definedBy_append,
      Instr.definedBy_pieces,definedBy_nil,List.append_nil]
    rw [List.filterMap_eq_flatMap_toList]
  have head : definedBy fn.headPieces = fn.params := by
    simp [headPieces,definedBy_join,List.flatMap_map]
  unfold pieces definitions
  by_cases declaration : fn.isDeclaration
  · have none : fn.blocks = [] := List.isEmpty_iff.mp declaration
    simp [declaration,head,none]
  · simp [declaration,head,block,definedBy_flatMap]

/-! ### Distinct names -/

/-- Where names are in order, no two definitions share one. -/
theorem Function.Named.definitions_nodup {fn : Function} (named : fn.Named) : fn.definitions.Nodup := by
  have code : ∀ block ∈ fn.blocks, fn.code? block.label = some block.instrs := fun block => (mem_blocks_iff named.labels).mp
  have placed : ∀ block ∈ fn.blocks, ∀ name ∈ block.instrs.filterMap Instr.result?,
      ∃ index instr, fn.At block.label index instr ∧ instr.result? = some name := by
    intro block member name inside
    obtain ⟨instr,found,yields⟩ := List.mem_filterMap.mp inside
    obtain ⟨index,placed⟩ := At.of_mem (code block member) found
    exact ⟨index,instr,placed,yields⟩
  have apart : ∀ block ∈ fn.blocks, ∀ label ∈ fn.labels, label ∉ block.instrs.filterMap Instr.result? := by
    intro block member label inside found
    obtain ⟨index,instr,at_instr,yields⟩ := placed block member label found
    exact named.apart _ _ _ at_instr label inside yields
  rw [definitions,List.nodup_flatMap]
  constructor
  · intro block member
    refine List.nodup_cons.mpr ⟨apart block member _ (List.mem_map_of_mem member),?_⟩
    rw [List.Nodup,List.pairwise_filterMap,List.pairwise_iff_getElem]
    rintro i j hi hj before name yields other yields' rfl
    have first : fn.At block.label i block.instrs[i] := ⟨_,code block member,List.getElem?_eq_getElem hi⟩
    have second : fn.At block.label j block.instrs[j] := ⟨_,code block member,List.getElem?_eq_getElem hj⟩
    have same := (named.resultOnce _ _ _ _ _ _ _ first second yields yields').2
    omega
  · have distinct : fn.blocks.Pairwise fun block other => block.label ≠ other.label := List.pairwise_map.mp named.labels
    refine distinct.imp_of_mem ?_
    intro block other member member' differ name inside inside'
    rcases List.mem_cons.mp inside with rfl | result <;> rcases List.mem_cons.mp inside' with equal | result'
    · exact differ equal
    · exact apart other member' _ (List.mem_map_of_mem member) result'
    · exact apart block member _ (List.mem_map_of_mem member') (equal ▸ result)
    · obtain ⟨_,_,first,yields⟩ := placed block member name result
      obtain ⟨_,_,second,yields'⟩ := placed other member' name result'
      exact differ (named.resultOnce _ _ _ _ _ _ _ first second yields yields').1

/-! ### References -/

theorem mem_join {piece : Piece} {parts : List (List Piece)} (member : piece ∈ Piece.join parts) :
    piece = .word (lit ", ") ∨ ∃ part ∈ parts, piece ∈ part := by
  induction parts with
  | nil => cases member
  | cons part rest ih =>
    cases rest with
    | nil => exact .inr ⟨part,List.mem_cons_self,member⟩
    | cons next rest =>
      rcases List.mem_append.mp member with inside | later
      · exact .inr ⟨part,List.mem_cons_self,inside⟩
      · rcases List.mem_cons.mp later with comma | later
        · exact .inl comma
        · exact (ih later).imp_right (fun ⟨part,found,inside⟩ => ⟨part,List.mem_cons_of_mem _ found,inside⟩)
theorem Value.reference_mem {value : Value} {name : Text} (member : .reference name ∈ value.pieces) :
    ∃ type, value = .reg name type := by
  cases value with
  | const n => simp [pieces] at member
  | reg other type =>
    simp only [pieces,List.mem_singleton,Piece.reference.injEq] at member
    exact ⟨type,member ▸ rfl⟩
theorem Value.reference_mem_typed {value : Value} {name : Text} (member : .reference name ∈ value.typedPieces) :
    ∃ type, value = .reg name type := by
  simp only [typedPieces,List.mem_cons,reduceCtorEq,false_or] at member
  exact reference_mem member

/-- What an instruction refers to: an operand, a label that control can pass to, or an edge of a phi. -/
def Instr.Refers (instr : Instr) (name : Text) : Prop :=
  (∃ type, .reg name type ∈ instr.operands) ∨ name ∈ instr.targets ∨
    ∃ result type incoming, instr = .phi result type incoming ∧
      ((∃ kind source, (.reg name kind,source) ∈ incoming) ∨ name ∈ incoming.map Prod.snd)

theorem Instr.reference_mem {instr : Instr} {name : Text} (member : .reference name ∈ instr.pieces) : instr.Refers name := by
  have typed : ∀ value ∈ instr.operands, .reference name ∈ value.typedPieces → instr.Refers name := by
    intro value operand inside
    obtain ⟨type,rfl⟩ := Value.reference_mem_typed inside
    exact .inl ⟨type,operand⟩
  cases instr with
  | alloca result => simp [pieces] at member
  | store value address =>
    simp only [pieces,List.cons_append,List.mem_cons,List.mem_append,reduceCtorEq,false_or] at member
    exact member.elim (typed value (by simp [operands])) (typed address (by simp [operands]))
  | load result address =>
    simp only [pieces,List.mem_cons,reduceCtorEq,false_or] at member
    exact typed address (by simp [operands]) member
  | arith result op left right =>
    simp only [pieces,List.cons_append,List.mem_cons,List.mem_append,reduceCtorEq,false_or] at member
    rcases member with first | second
    · exact typed left (by simp [operands]) first
    · obtain ⟨type,rfl⟩ := Value.reference_mem second
      exact .inl ⟨type,by simp [operands]⟩
  | call result callee args =>
    simp only [pieces,List.cons_append,List.mem_cons,List.mem_append,reduceCtorEq,false_or,List.not_mem_nil,or_false] at member
    obtain comma | ⟨part,found,inside⟩ := mem_join member
    · cases comma
    · obtain ⟨arg,operand,rfl⟩ := List.mem_map.mp found
      exact typed arg operand inside
  | isZero result value =>
    simp only [pieces,List.cons_append,List.mem_cons,List.mem_append,reduceCtorEq,false_or,List.not_mem_nil,or_false] at member
    exact typed value (by simp [operands]) member
  | phi result type incoming =>
    simp only [pieces,List.mem_cons,reduceCtorEq,false_or] at member
    obtain comma | ⟨part,found,inside⟩ := mem_join member
    · cases comma
    · obtain ⟨⟨value,source⟩,edge,rfl⟩ := List.mem_map.mp found
      simp only [edgePieces,List.cons_append,List.mem_cons,List.mem_append,reduceCtorEq,false_or,List.not_mem_nil,or_false,
        Piece.reference.injEq] at inside
      refine .inr (.inr ⟨result,type,incoming,rfl,inside.imp (fun first => ?_) (fun same => ?_)⟩)
      · obtain ⟨kind,rfl⟩ := Value.reference_mem first
        exact ⟨kind,source,edge⟩
      · exact same ▸ List.mem_map_of_mem edge
  | br target =>
    simp only [pieces,List.mem_cons,reduceCtorEq,false_or,List.not_mem_nil,or_false,Piece.reference.injEq] at member
    exact .inr (.inl (by simp [targets,member]))
  | condBr cond yes no =>
    simp only [pieces,List.cons_append,List.mem_cons,List.mem_append,reduceCtorEq,false_or,List.not_mem_nil,or_false,
      Piece.reference.injEq] at member
    rcases member with first | target
    · exact typed cond (by simp [operands]) first
    · exact .inr (.inl (by simpa [targets] using target))
  | ret value =>
    simp only [pieces,List.mem_cons,reduceCtorEq,false_or] at member
    exact typed value (by simp [operands]) member
/-- Every reference of a function belongs to one of its instructions. -/
theorem Function.reference_mem {fn : Function} {name : Text} (member : .reference name ∈ fn.pieces) :
    ∃ block ∈ fn.blocks, ∃ instr ∈ block.instrs, instr.Refers name := by
  have head : .reference name ∉ fn.headPieces := by
    intro inside
    simp only [headPieces,List.cons_append,List.mem_cons,List.mem_append,reduceCtorEq,false_or,List.not_mem_nil,or_false] at inside
    obtain comma | ⟨part,found,inside⟩ := mem_join inside
    · cases comma
    · obtain ⟨param,_,rfl⟩ := List.mem_map.mp found
      simp at inside
  unfold pieces at member
  split at member
  · simp [head] at member
  · simp only [List.cons_append,List.append_assoc,List.mem_cons,List.mem_append,reduceCtorEq,false_or,head,List.not_mem_nil,or_false,
      List.mem_flatMap] at member
    obtain ⟨block,inside,member⟩ := member
    simp only [BasicBlock.pieces,List.cons_append,List.mem_cons,reduceCtorEq,false_or,List.mem_flatMap,List.mem_append,List.not_mem_nil,
      or_false] at member
    obtain ⟨instr,found,member⟩ := member
    exact ⟨block,inside,instr,found,instr.reference_mem member⟩

/-- Where a function is well formed and control stays among its blocks, everything it refers to is defined. -/
theorem Function.WellFormed.defines {fn : Function} {signatures : Table Nat} {entry : Text} (wellFormed : fn.WellFormed signatures entry)
    (inside : ∀ source target, fn.Edge source target → target ∈ fn.labels) {block : BasicBlock} (found : block ∈ fn.blocks) {instr : Instr}
    (member : instr ∈ block.instrs) {name : Text} (refers : instr.Refers name) : name ∈ fn.definitions := by
  have label : ∀ label ∈ fn.labels, label ∈ fn.definitions := by
    intro label member
    obtain ⟨block,found,rfl⟩ := List.mem_map.mp member
    exact List.mem_flatMap.mpr ⟨block,found,List.mem_cons_self⟩
  have result : ∀ place position instr type, fn.At place position instr → instr.yields? = some (name,type) → name ∈ fn.definitions := by
    rintro place position instr type ⟨instrs,code,placed⟩ yields
    have found : (⟨place,instrs⟩ : BasicBlock) ∈ fn.blocks := (mem_blocks_iff wellFormed.distinct).mpr code
    refine List.mem_flatMap.mpr ⟨_,found,List.mem_cons_of_mem _ (List.mem_filterMap.mpr ⟨instr,List.mem_of_getElem? placed,?_⟩)⟩
    rw [Instr.result?_eq,yields]
    rfl
  obtain ⟨index,placed⟩ := At.of_mem ((mem_blocks_iff wellFormed.distinct).mp found) member
  rcases refers with ⟨type,operand⟩ | target | ⟨phi,type,incoming,rfl,⟨kind,source,edge⟩ | source⟩
  · obtain ⟨place,position,other,at_other,yields,_⟩ := wellFormed.operands _ _ _ _ _ placed operand
    exact result _ _ _ _ at_other yields
  · exact label _ (inside _ _ ⟨index,instr,placed,target⟩)
  · obtain ⟨_,_,place,position,other,at_other,yields,_⟩ := wellFormed.incoming _ _ _ _ _ placed _ _ _ edge
    exact result _ _ _ _ at_other yields
  · obtain ⟨_,_,from_source,_⟩ := ((wellFormed.edges _ _ _ _ _ placed).2 name).mp source
    exact label _ from_source.mem_labels
/-- Control stays among the blocks of the entry function. -/
theorem Frame.Sound.targets_finished {signatures : Table Nat} {root : Text} {above : Text → List Text} {f : Frame}
    (sound : f.Sound signatures root [] above) (value : Value) {source target : Text}
    (edge : (f.finished value root).function.Edge source target) : target ∈ (f.finished value root).function.labels := by
  obtain ⟨_,_,_,_,returned,entered⟩ := sound.appended_finished value
  rw [entered.labels,returned.labels]
  rcases entered.edge_iff.mp edge with old | ⟨_,last⟩
  · rcases returned.edge_iff.mp old with old | ⟨_,none⟩
    · exact (sound.linked.targets _ _ old).1
    · cases none
  · cases List.mem_singleton.mp last
    exact sound.root_label

/-- The names of the blocks and of the values of the entry function of a module that is built are distinct, and so are
    the texts of references to them; every reference in the text of the function has exactly one definition there. -/
theorem build_names_once (program : Program) (options : Options) (draft : Draft)
    (built : Draft.build program.subject (.new options) = (.ok (),draft)) :
    ∃ fn, draft.entryFunction? = some fn ∧ fn.definitions.Nodup ∧ (fn.definitions.map localRef).Nodup ∧
      fn.text = piecesText fn.pieces ∧ definedBy fn.pieces = fn.definitions ∧
      ∀ name, .reference name ∈ fn.pieces → ((definedBy fn.pieces).map localRef).count (localRef name) = 1 := by
  obtain ⟨_,_,value,f,_,_,gives,holds,_⟩ := Draft.build_eq_ok built
  have wellFormed := Draft.finished_wellFormed gives
  obtain ⟨_,sound,advance,_⟩ := gives
  have distinct := (sound.named_finished value).definitions_nodup
  have printed := distinct.map (fun _ _ => localRef_injective)
  have params : (f.finished value (lit "start")).function.params = [] := advance.declared.2
  have defined := Function.definedBy_pieces (f.finished value (lit "start")).function
  rw [params,List.nil_append] at defined
  refine ⟨_,holds.entryFunction?,distinct,printed,(Function.piecesText_eq _).symm,defined,?_⟩
  intro name member
  obtain ⟨block,inside,instr,placed,refers⟩ := Function.reference_mem member
  have found := wellFormed.defines (fun _ _ => sound.targets_finished value) inside placed refers
  rw [defined]
  exact List.count_eq_one_of_mem printed (List.mem_map_of_mem found)

/-- A program whose names look like those that lowering makes up, and like their escaped texts. -/
def masquerade : Program :=
  .block (.step (.bindMut (lit "loop") (.literal 3))
    (.step (.bindMut (lit "loop.1") (.literal 1))
    (.step (.bindMut (lit ".1") (.literal 2))
    (.step (.bindMut (lit "\\22") (.call (lit "f") .nil))
    (.step (.bindMut (lit "\"") (.literal 4))
    (.step (.discard (.loop (.var (lit "loop"))
      (.step (.assign (lit "loop") (.binary (.var (lit "loop")) .sub (.var (lit "loop.1")))) (.result (.var (lit "\""))))))
    (.result (.binary (.var (lit ".1")) .mul (.var (lit "\\22"))))))))))
/-- The program is built, the names it defines are told apart by numbers, and every reference has one definition. -/
theorem build_names_once_masquerade :
    (Draft.build masquerade.subject (.new {})).1 = .ok () ∧
      ∃ fn, (Draft.build masquerade.subject (.new {})).2.entryFunction? = some fn ∧
        fn.definitions.take 6 = [lit "entry",lit "loop",lit "loop.1",lit ".1.1",lit "\\22",lit "\""] ∧
        (fn.definitions.map localRef).Nodup ∧
        ∀ name, .reference name ∈ fn.pieces → ((definedBy fn.pieces).map localRef).count (localRef name) = 1 := by
  have built : (Draft.build masquerade.subject (.new {})).1 = .ok () := Attempt.eq_ok_of_isOk (by decide +kernel)
  have names : (Draft.build masquerade.subject (.new {})).2.entryFunction?.map (fun fn => fn.definitions.take 6) =
      some [lit "entry",lit "loop",lit "loop.1",lit ".1.1",lit "\\22",lit "\""] := by decide +kernel
  obtain ⟨fn,entry,_,printed,_,_,once⟩ := build_names_once masquerade {} _ (Attempt.run_of_fst built)
  rw [entry] at names
  exact ⟨built,fn,entry,Option.some.inj names,printed,once⟩

end Lev
