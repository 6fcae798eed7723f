import Lev.Proofs.WellFormed

/-!
Two invariants of a function while it is filled. `Named`: labels and results are taken from the names of
the function, each at most once. `Linked`: phis have one edge for each way into their block, and every
operand is visible where it is used, by a certificate that assigns to each label the labels above it.
Each change to the code keeps them under conditions that only concern what is added.
-/
namespace Lev

namespace Function

/-! ### Names -/

/-- Labels and results carry distinct names that are all in use. -/
structure Named (fn : Function) : Prop where
  labels : fn.labels.Nodup
  labelUsed : ∀ label ∈ fn.labels, label ∈ fn.names.used
  resultUsed : ∀ place index instr name, fn.At place index instr → instr.result? = some name → name ∈ fn.names.used
  resultOnce : ∀ place index instr place' index' instr' name, fn.At place index instr → fn.At place' index' instr' →
    instr.result? = some name → instr'.result? = some name → place = place' ∧ index = index'
  apart : ∀ place index instr, fn.At place index instr → ∀ label ∈ fn.labels, instr.result? ≠ some label

variable {fn after : Function} {label : Text} {instrs : List Instr} {instr : Instr}

theorem Named.appended (named : fn.Named) (added : Appended fn after label instrs instr)
    (grown : ∀ name ∈ fn.names.used, name ∈ after.names.used)
    (fresh : ∀ name, instr.result? = some name → name ∉ fn.names.used ∧ name ∈ after.names.used) : after.Named where
  labels := added.labels ▸ named.labels
  labelUsed other member := grown other (named.labelUsed other (added.labels ▸ member))
  resultUsed place index found name at_found yields := by
    rcases added.at_iff.mp at_found with old | ⟨rfl,rfl,rfl⟩
    · exact grown name (named.resultUsed place index found name old yields)
    · exact (fresh name yields).2
  resultOnce place index found place' index' found' name at_found at_found' yields yields' := by
    rcases added.at_iff.mp at_found with old | ⟨rfl,rfl,rfl⟩ <;>
      rcases added.at_iff.mp at_found' with old' | ⟨rfl,rfl,rfl⟩
    · exact named.resultOnce place index found place' index' found' name old old' yields yields'
    · exact absurd (named.resultUsed place index found name old yields) (fresh name yields').1
    · exact absurd (named.resultUsed place' index' found' name old' yields') (fresh name yields).1
    · exact ⟨rfl,rfl⟩
  apart place index found at_found other member := by
    rw [added.labels] at member
    rcases added.at_iff.mp at_found with old | ⟨rfl,rfl,rfl⟩
    · exact named.apart place index found old other member
    · exact fun yields => (fresh other yields).1 (named.labelUsed other member)
theorem Named.opened (named : fn.Named) (added : Opened fn after label)
    (grown : ∀ name ∈ fn.names.used, name ∈ after.names.used) (fresh : label ∉ fn.names.used)
    (taken : label ∈ after.names.used) : after.Named where
  labels := by
    rw [added.labels,List.nodup_append]
    refine ⟨named.labels,List.nodup_singleton label,?_⟩
    rintro old member new single rfl
    exact added.fresh (List.mem_singleton.mp single ▸ member)
  labelUsed other member := by
    rw [added.labels] at member
    rcases List.mem_append.mp member with old | new
    · exact grown other (named.labelUsed other old)
    · exact List.mem_singleton.mp new ▸ taken
  resultUsed place index found name at_found yields :=
    grown name (named.resultUsed place index found name (added.at_iff.mp at_found) yields)
  resultOnce place index found place' index' found' name at_found at_found' :=
    named.resultOnce place index found place' index' found' name (added.at_iff.mp at_found) (added.at_iff.mp at_found')
  apart place index found at_found other member := by
    rw [added.labels] at member
    have old := added.at_iff.mp at_found
    rcases List.mem_append.mp member with inside | new
    · exact named.apart place index found old other inside
    · intro yields
      exact fresh (named.resultUsed place index found label old (List.mem_singleton.mp new ▸ yields))
theorem Named.patched (named : fn.Named) {change : Instr → Instr} (patched : Patched fn after change)
    (results : ∀ instr, (change instr).result? = instr.result?) (names : after.names = fn.names) : after.Named where
  labels := patched.labels ▸ named.labels
  labelUsed other member := names ▸ named.labelUsed other (patched.labels ▸ member)
  resultUsed place index found name at_found yields := by
    obtain ⟨old,at_old,rfl⟩ := patched.at_iff.mp at_found
    exact names ▸ named.resultUsed place index old name at_old (results old ▸ yields)
  resultOnce place index found place' index' found' name at_found at_found' yields yields' := by
    obtain ⟨old,at_old,rfl⟩ := patched.at_iff.mp at_found
    obtain ⟨old',at_old',rfl⟩ := patched.at_iff.mp at_found'
    exact named.resultOnce place index old place' index' old' name at_old at_old' (results old ▸ yields) (results old' ▸ yields')
  apart place index found at_found other member := by
    obtain ⟨old,at_old,rfl⟩ := patched.at_iff.mp at_found
    rw [results old]
    exact named.apart place index old at_old other (patched.labels ▸ member)

/-! ### Control flow and visibility -/

/-- The value is a constant, or the result of an instruction in a block above the label or in its own
    block, so that it is known at the end of this block. -/
def Seen (fn : Function) (above : Text → List Text) (label : Text) : Value → Prop
  | .const _ => True
  | .reg name type => ∃ place position instr, fn.At place position instr ∧ instr.yields? = some (name,type) ∧
      (place ∈ above label ∨ place = label)
/-- The value is a constant, or the result of an instruction above the label or before the index. -/
def SeenBefore (fn : Function) (above : Text → List Text) (label : Text) (index : Nat) : Value → Prop
  | .const _ => True
  | .reg name type => ∃ place position instr, fn.At place position instr ∧ instr.yields? = some (name,type) ∧
      (place ∈ above label ∨ (place = label ∧ position < index))

/-- The control flow of the function has no way into the entry, its phis fit the ways into their blocks
    and the certificate makes every operand visible where it is used. -/
structure Linked (signatures : Table Nat) (entry root : Text) (above : Text → List Text) (fn : Function) : Prop where
  targets : ∀ source target, fn.Edge source target → target ∈ fn.labels ∧ target ≠ entry
  rootPlain : ∀ index instr, fn.At root index instr → instr.isPhi = false
  phisFirst : ∀ label instrs, fn.code? label = some instrs → PhisFirst instrs
  edges : ∀ label index result type incoming, fn.At label index (.phi result type incoming) →
    (incoming.map Prod.snd).Nodup ∧ ∀ source, source ∈ incoming.map Prod.snd ↔ fn.Edge source label
  kept : ∀ source target, fn.Edge source target → ∀ label ∈ above target, label = source ∨ label ∈ above source
  operands : ∀ label index instr, fn.At label index instr → ∀ value ∈ instr.operands, fn.SeenBefore above label index value
  incoming : ∀ label index result type incoming, fn.At label index (.phi result type incoming) →
    ∀ value source, (value,source) ∈ incoming → fn.Seen above source value
  typed : ∀ label index instr, fn.At label index instr → instr.WellTyped signatures

theorem Seen.mono {above above' : Text → List Text} {label label' : Text} {value : Value} (seen : fn.Seen above label value)
    (places : ∀ place position instr, fn.At place position instr →
      ∃ instr', after.At place position instr' ∧ instr'.yields? = instr.yields?)
    (labels : ∀ place, place ∈ above label ∨ place = label → place ∈ above' label' ∨ place = label') :
    after.Seen above' label' value := by
  cases value with
  | const n => trivial
  | reg name type =>
    obtain ⟨place,position,instr,found,yields,visible⟩ := seen
    obtain ⟨instr',found',same⟩ := places place position instr found
    exact ⟨place,position,instr',found',same.trans yields,labels place visible⟩
theorem SeenBefore.mono {above above' : Text → List Text} {label : Text} {index : Nat} {value : Value}
    (seen : fn.SeenBefore above label index value)
    (places : ∀ place position instr, fn.At place position instr →
      ∃ instr', after.At place position instr' ∧ instr'.yields? = instr.yields?)
    (same : above' label = above label) : after.SeenBefore above' label index value := by
  cases value with
  | const n => trivial
  | reg name type =>
    obtain ⟨place,position,instr,found,yields,visible⟩ := seen
    obtain ⟨instr',found',equal⟩ := places place position instr found
    exact ⟨place,position,instr',found',equal.trans yields,same ▸ visible⟩
/-- What is known at the end of a block is known to an instruction that is added there. -/
theorem Seen.before {above : Text → List Text} {value : Value} (seen : fn.Seen above label value)
    (code : fn.code? label = some instrs) : fn.SeenBefore above label instrs.length value := by
  cases value with
  | const n => trivial
  | reg name type =>
    obtain ⟨place,position,instr,found,yields,higher | rfl⟩ := seen
    · exact ⟨place,position,instr,found,yields,.inl higher⟩
    · obtain ⟨others,same,inside⟩ := found
      have short : position < others.length := (List.getElem?_eq_some_iff.mp inside).1
      rw [code] at same
      cases same
      exact ⟨place,position,instr,⟨instrs,code,inside⟩,yields,.inr ⟨rfl,short⟩⟩

theorem Appended.places (added : Appended fn after label instrs instr) (place : Text) (position : Nat) (found : Instr)
    (old : fn.At place position found) : ∃ found', after.At place position found' ∧ found'.yields? = found.yields? :=
  ⟨found,added.at_iff.mpr (.inl old),rfl⟩
theorem Opened.places (added : Opened fn after label) (place : Text) (position : Nat) (found : Instr)
    (old : fn.At place position found) : ∃ found', after.At place position found' ∧ found'.yields? = found.yields? :=
  ⟨found,added.at_iff.mpr old,rfl⟩

variable {signatures : Table Nat} {entry root : Text} {above : Text → List Text}

/-- The certificate only matters at the labels of the function. -/
theorem Linked.congr (linked : fn.Linked signatures entry root above) {above' : Text → List Text}
    (same : ∀ label ∈ fn.labels, above' label = above label) : fn.Linked signatures entry root above' where
  targets := linked.targets
  rootPlain := linked.rootPlain
  phisFirst := linked.phisFirst
  edges := linked.edges
  kept source target edge := by
    obtain ⟨_,_,found,_⟩ := edge
    rw [same source found.mem_labels,same target (linked.targets source target ⟨_,_,found,‹_›⟩).1]
    exact linked.kept source target ⟨_,_,found,‹_›⟩
  operands place index found at_found value member :=
    (linked.operands place index found at_found value member).mono (fun _ _ found old => ⟨found,old,rfl⟩) (same place at_found.mem_labels)
  incoming place index result type incoming at_found value source member := by
    have edge := ((linked.edges place index result type incoming at_found).2 source).mp (List.mem_map_of_mem member)
    obtain ⟨_,_,found,_⟩ := edge
    refine (linked.incoming place index result type incoming at_found value source member).mono (fun _ _ found old => ⟨found,old,rfl⟩) ?_
    rw [same source found.mem_labels]
    exact fun _ visible => visible
  typed := linked.typed

/-- An instruction other than a phi may be added where its operands are known; what it leads to must
    start no block with phis, and lie below. -/
theorem Linked.appended (linked : fn.Linked signatures entry root above) (added : Appended fn after label instrs instr)
    (plain : instr.isPhi = false) (typed : instr.WellTyped signatures) (operands : ∀ value ∈ instr.operands, fn.Seen above label value)
    (leads : ∀ target ∈ instr.targets, target ∈ fn.labels ∧ target ≠ entry ∧
      (∀ index other, fn.At target index other → other.isPhi = false) ∧
      ∀ passed ∈ above target, passed = label ∨ passed ∈ above label) : after.Linked signatures entry root above where
  targets source target edge := by
    rw [added.labels]
    rcases added.edge_iff.mp edge with old | ⟨rfl,new⟩
    · exact linked.targets source target old
    · exact ⟨(leads target new).1,(leads target new).2.1⟩
  rootPlain index other found := by
    rcases added.at_iff.mp found with old | ⟨_,_,rfl⟩
    · exact linked.rootPlain index other old
    · exact plain
  phisFirst other others code := by
    by_cases here : other = label
    · subst here
      rw [added.code_same] at code
      cases code
      exact (linked.phisFirst other instrs added.before).snoc plain
    · rw [added.code_other here] at code
      exact linked.phisFirst other others code
  edges other index result type incoming found := by
    rcases added.at_iff.mp found with old | ⟨_,_,rfl⟩
    · obtain ⟨distinct,exact_⟩ := linked.edges other index result type incoming old
      refine ⟨distinct,fun source => (exact_ source).trans ?_⟩
      rw [added.edge_iff]
      constructor
      · exact .inl
      · rintro (edge | ⟨rfl,new⟩)
        · exact edge
        · have noPhi := (leads other new).2.2.1 index _ old
          simp [Instr.isPhi] at noPhi
    · simp [Instr.isPhi] at plain
  kept source target edge := by
    rcases added.edge_iff.mp edge with old | ⟨rfl,new⟩
    · exact linked.kept source target old
    · exact (leads target new).2.2.2
  operands place index found at_found value member := by
    rcases added.at_iff.mp at_found with old | ⟨rfl,rfl,rfl⟩
    · exact (linked.operands place index found old value member).mono added.places rfl
    · exact ((operands value member).before added.before).mono added.places rfl
  incoming place index result type incoming at_found value source member := by
    rcases added.at_iff.mp at_found with old | ⟨_,_,rfl⟩
    · exact (linked.incoming place index result type incoming old value source member).mono added.places (fun _ visible => visible)
    · simp [Instr.isPhi] at plain
  typed place index found at_found := by
    rcases added.at_iff.mp at_found with old | ⟨_,_,rfl⟩
    · exact linked.typed place index found old
    · exact typed

theorem Linked.opened (linked : fn.Linked signatures entry root above) (added : Opened fn after label) : after.Linked signatures entry root above where
  targets source target edge := by
    have old := linked.targets source target (added.edge_iff.mp edge)
    exact ⟨by rw [added.labels]; exact List.mem_append_left _ old.1,old.2⟩
  rootPlain index other found := linked.rootPlain index other (added.at_iff.mp found)
  phisFirst other others code := by
    by_cases here : other = label
    · subst here
      rw [added.code_same] at code
      cases code
      exact ⟨[],[],rfl,by simp,by simp⟩
    · rw [added.code_other here] at code
      exact linked.phisFirst other others code
  edges other index result type incoming found := by
    simp only [added.edge_iff]
    exact linked.edges other index result type incoming (added.at_iff.mp found)
  kept source target edge := linked.kept source target (added.edge_iff.mp edge)
  operands place index found at_found value member :=
    (linked.operands place index found (added.at_iff.mp at_found) value member).mono added.places rfl
  incoming place index result type incoming at_found value source member :=
    (linked.incoming place index result type incoming (added.at_iff.mp at_found) value source member).mono added.places
      (fun _ visible => visible)
  typed place index found at_found := linked.typed place index found (added.at_iff.mp at_found)

/-- A phi with one edge may be added behind phis, in a block that is entered from the edge's source only. -/
theorem Linked.appendedPhi (linked : fn.Linked signatures entry root above) {result source : Text} {value : Value}
    (added : Appended fn after label instrs (.phi result value.type [(value,source)]))
    (leading : ∀ instr ∈ instrs, instr.isPhi = true) (below : label ≠ root)
    (ways : ∀ origin, fn.Edge origin label ↔ origin = source) (seen : fn.Seen above source value) :
    after.Linked signatures entry root above where
  targets origin target edge := by
    rw [added.labels]
    rcases added.edge_iff.mp edge with old | ⟨_,new⟩
    · exact linked.targets origin target old
    · simp [Instr.targets] at new
  rootPlain index other found := by
    rcases added.at_iff.mp found with old | ⟨here,_,_⟩
    · exact linked.rootPlain index other old
    · exact absurd here.symm below
  phisFirst other others code := by
    by_cases here : other = label
    · subst here
      rw [added.code_same] at code
      cases code
      refine ⟨instrs ++ [.phi result value.type [(value,source)]],[],by simp,?_,by simp⟩
      intro instr member
      rcases List.mem_append.mp member with old | new
      · exact leading instr old
      · rw [List.mem_singleton.mp new]; rfl
    · rw [added.code_other here] at code
      exact linked.phisFirst other others code
  edges other index name type incoming found := by
    have sameEdges : ∀ origin, after.Edge origin other ↔ fn.Edge origin other := by
      intro origin
      rw [added.edge_iff]
      simp [Instr.targets]
    simp only [sameEdges]
    rcases added.at_iff.mp found with old | ⟨rfl,_,new⟩
    · exact linked.edges other index name type incoming old
    · cases new
      simp [ways]
  kept origin target edge := by
    rcases added.edge_iff.mp edge with old | ⟨_,new⟩
    · exact linked.kept origin target old
    · simp [Instr.targets] at new
  operands place index found at_found operand member := by
    rcases added.at_iff.mp at_found with old | ⟨_,_,rfl⟩
    · exact (linked.operands place index found old operand member).mono added.places rfl
    · simp [Instr.operands] at member
  incoming place index name type incoming at_found operand origin member := by
    rcases added.at_iff.mp at_found with old | ⟨_,_,new⟩
    · exact (linked.incoming place index name type incoming old operand origin member).mono added.places (fun _ visible => visible)
    · cases new
      cases List.mem_singleton.mp member
      exact seen.mono added.places (fun _ visible => visible)
  typed place index found at_found := by
    rcases added.at_iff.mp at_found with old | ⟨_,_,rfl⟩
    · exact linked.typed place index found old
    · simp [Instr.WellTyped]

/-- The last function is the first with a loop closed: the phis of the header have an edge from the latch more, no
    other instruction has changed, and the latch branches past the loop or to the header. -/
structure Latched (above : Text → List Text) (header exit latch : Text) (leave : Value) (change : Instr → Instr)
    (instrs : List Instr) (fn mid after : Function) : Prop where
  patched : Patched fn mid change
  added : Appended mid after latch instrs (.condBr leave exit header)
  extended : ∀ index result type incoming, fn.At header index (.phi result type incoming) →
    ∃ value, change (.phi result type incoming) = .phi result type (incoming ++ [(value,latch)]) ∧
      fn.Seen above latch value ∧ value.type = type
  others : ∀ place index instr, fn.At place index instr → place ≠ header ∨ instr.isPhi = false → change instr = instr

namespace Latched
variable {header exit latch : Text} {leave : Value} {change : Instr → Instr} {mid : Function} {place : Text} {index : Nat}
variable {old found : Instr}

theorem at_iff (latched : Latched above header exit latch leave change instrs fn mid after) :
    after.At place index found ↔ (∃ old, fn.At place index old ∧ found = change old) ∨
      (place = latch ∧ index = instrs.length ∧ found = .condBr leave exit header) := by
  rw [latched.added.at_iff,latched.patched.at_iff]
/-- An instruction has not changed, or it is a phi of the header. -/
theorem changed (latched : Latched above header exit latch leave change instrs fn mid after) (placed : fn.At place index old) :
    change old = old ∨ (place = header ∧ ∃ result type incoming value, old = .phi result type incoming ∧
      change old = .phi result type (incoming ++ [(value,latch)]) ∧ fn.Seen above latch value ∧ value.type = type) := by
  by_cases here : place = header ∧ old.isPhi = true
  · obtain ⟨rfl,isPhi⟩ := here
    cases old with
    | phi result type incoming =>
      obtain ⟨value,more,known,same⟩ := latched.extended index result type incoming placed
      exact .inr ⟨rfl,result,type,incoming,value,rfl,more,known,same⟩
    | _ => simp [Instr.isPhi] at isPhi
  · refine .inl (latched.others place index old placed ?_)
    by_cases same : place = header
    · exact .inr (by simpa [same] using here)
    · exact .inl same
theorem isPhi_change (latched : Latched above header exit latch leave change instrs fn mid after) (placed : fn.At place index old) :
    (change old).isPhi = old.isPhi := by
  rcases latched.changed placed with same | ⟨_,_,_,_,_,rfl,more,_⟩
  · rw [same]
  · rw [more]; rfl
theorem places (latched : Latched above header exit latch leave change instrs fn mid after) (place : Text) (position : Nat)
    (old : Instr) (placed : fn.At place position old) : ∃ found, after.At place position found ∧ found.yields? = old.yields? := by
  refine ⟨change old,latched.at_iff.mpr (.inl ⟨old,placed,rfl⟩),?_⟩
  rcases latched.changed placed with same | ⟨_,result,type,incoming,value,rfl,more,_⟩
  · rw [same]
  · rw [more]; rfl
theorem edge_iff (latched : Latched above header exit latch leave change instrs fn mid after) {source target : Text} :
    after.Edge source target ↔ fn.Edge source target ∨ (source = latch ∧ (target = exit ∨ target = header)) := by
  rw [latched.added.edge_iff]
  have kept : mid.Edge source target ↔ fn.Edge source target := by
    unfold Edge
    simp only [latched.patched.at_iff]
    constructor
    · rintro ⟨index,_,⟨old,found,rfl⟩,leads⟩
      rcases latched.changed found with same | ⟨_,result,type,incoming,value,rfl,more,_⟩
      · exact ⟨index,old,found,same ▸ leads⟩
      · simp [more,Instr.targets] at leads
    · rintro ⟨index,old,found,leads⟩
      rcases latched.changed found with same | ⟨_,result,type,incoming,value,rfl,_⟩
      · exact ⟨index,change old,⟨old,found,rfl⟩,same.symm ▸ leads⟩
      · simp [Instr.targets] at leads
  rw [kept]
  simp [Instr.targets]
theorem phisFirst (latched : Latched above header exit latch leave change instrs fn mid after)
    (before : ∀ label olds, fn.code? label = some olds → PhisFirst olds) {found : List Instr} (code : after.code? place = some found) :
    PhisFirst found := by
  have mapped : ∀ olds, fn.code? place = some olds → PhisFirst (olds.map change) := by
    intro olds code
    obtain ⟨phis,rest,rfl,leading,following⟩ := before place olds code
    refine ⟨phis.map change,rest.map change,List.map_append,?_,?_⟩
    · intro instr member
      obtain ⟨old,inside,rfl⟩ := List.mem_map.mp member
      obtain ⟨index,placed⟩ := At.of_mem code (List.mem_append_left _ inside)
      rw [latched.isPhi_change placed]
      exact leading old inside
    · intro instr member
      obtain ⟨old,inside,rfl⟩ := List.mem_map.mp member
      obtain ⟨index,placed⟩ := At.of_mem code (List.mem_append_right _ inside)
      rw [latched.isPhi_change placed]
      exact following old inside
  by_cases here : place = latch
  · subst here
    rw [latched.added.code_same] at code
    cases code
    obtain ⟨olds,code,same⟩ := Option.map_eq_some_iff.mp ((latched.patched.code place).symm.trans latched.added.before)
    exact same ▸ (mapped olds code).snoc rfl
  · rw [latched.added.code_other here] at code
    obtain ⟨olds,code,same⟩ := Option.map_eq_some_iff.mp ((latched.patched.code place).symm.trans code)
    exact same ▸ mapped olds code
/-- The new edge of a phi of the header is the only one from the latch. -/
theorem nodup_snoc {incoming : List (Value × Text)} {value : Value} (distinct : (incoming.map Prod.snd).Nodup)
    (new : latch ∉ incoming.map Prod.snd) : ((incoming ++ [(value,latch)]).map Prod.snd).Nodup := by
  rw [List.map_append,List.nodup_append]
  refine ⟨distinct,by simp,?_⟩
  rintro source member other single rfl
  simp only [List.map_cons,List.map_nil,List.mem_singleton] at single
  exact new (single ▸ member)

end Latched

/-- Closing a loop: the phis of the header get their edge from the latch, and the latch branches to the
    header or past the loop. Between the two steps the phis would not fit the ways into the header. -/
theorem Linked.looped (linked : fn.Linked signatures entry root above) {mid : Function} {change : Instr → Instr}
    {header exit latch : Text} {leave : Value} (latched : Latched above header exit latch leave change instrs fn mid after)
    (unended : ∀ target, ¬ fn.Edge latch target) (headerLabel : header ∈ fn.labels ∧ header ≠ entry)
    (exitLabel : exit ∈ fn.labels ∧ exit ≠ entry) (empty : fn.code? exit = some [])
    (aboveHeader : ∀ passed ∈ above header, passed = latch ∨ passed ∈ above latch)
    (aboveExit : ∀ passed ∈ above exit, passed = latch ∨ passed ∈ above latch)
    (seen : fn.Seen above latch leave) (isBit : leave.type = .i1) : after.Linked signatures entry root above where
  targets source target edge := by
    rw [latched.added.labels,latched.patched.labels]
    rcases latched.edge_iff.mp edge with old | ⟨_,rfl | rfl⟩
    · exact linked.targets source target old
    · exact exitLabel
    · exact headerLabel
  rootPlain index found at_found := by
    rcases latched.at_iff.mp at_found with ⟨old,at_old,rfl⟩ | ⟨_,_,rfl⟩
    · exact (latched.isPhi_change at_old).trans (linked.rootPlain index old at_old)
    · rfl
  phisFirst place found code := latched.phisFirst linked.phisFirst code
  edges place index result type incoming at_found := by
    simp only [latched.edge_iff]
    rcases latched.at_iff.mp at_found with ⟨old,at_old,same⟩ | ⟨_,_,new⟩
    · rcases latched.changed at_old with kept | ⟨rfl,result',type',incoming',value,rfl,more,_⟩
      · -- A phi that is not in the header keeps its edges, and no way into its block is added.
        rw [kept] at same
        subst same
        obtain ⟨distinct,exact_⟩ := linked.edges place index result type incoming at_old
        refine ⟨distinct,fun source => (exact_ source).trans ⟨.inl,?_⟩⟩
        rintro (edge | ⟨rfl,rfl | rfl⟩)
        · exact edge
        · obtain ⟨_,code,inside⟩ := at_old
          rw [empty] at code
          cases code
          simp at inside
        · obtain ⟨_,more,_⟩ := latched.extended index result type incoming at_old
          rw [kept] at more
          simp at more
      · rw [more] at same
        cases same
        obtain ⟨distinct,exact_⟩ := linked.edges place index result type incoming' at_old
        refine ⟨Latched.nodup_snoc distinct (fun member => unended place ((exact_ latch).mp member)),fun source => ?_⟩
        rw [List.map_append,List.mem_append,exact_ source]
        simp
    · cases new
  kept source target edge := by
    rcases latched.edge_iff.mp edge with old | ⟨rfl,rfl | rfl⟩
    · exact linked.kept source target old
    · exact aboveExit
    · exact aboveHeader
  operands place index found at_found value member := by
    rcases latched.at_iff.mp at_found with ⟨old,at_old,rfl⟩ | ⟨rfl,rfl,rfl⟩
    · rcases latched.changed at_old with same | ⟨_,_,_,_,_,rfl,more,_⟩
      · rw [same] at member
        exact (linked.operands place index old at_old value member).mono latched.places rfl
      · simp [more,Instr.operands] at member
    · cases List.mem_singleton.mp member
      obtain ⟨olds,before,same⟩ := Option.map_eq_some_iff.mp ((latched.patched.code place).symm.trans latched.added.before)
      rw [← same,List.length_map]
      exact (seen.before before).mono latched.places rfl
  incoming place index result type incoming at_found value source member := by
    rcases latched.at_iff.mp at_found with ⟨old,at_old,same⟩ | ⟨_,_,new⟩
    · rcases latched.changed at_old with kept | ⟨rfl,result',type',incoming',carried,rfl,more,known,_⟩
      · rw [kept] at same
        subst same
        exact (linked.incoming place index result type incoming at_old value source member).mono latched.places (fun _ visible => visible)
      · rw [more] at same
        cases same
        rcases List.mem_append.mp member with old | new
        · exact (linked.incoming place index result type incoming' at_old value source old).mono latched.places (fun _ visible => visible)
        · cases List.mem_singleton.mp new
          exact known.mono latched.places (fun _ visible => visible)
    · cases new
  typed place index found at_found := by
    rcases latched.at_iff.mp at_found with ⟨old,at_old,rfl⟩ | ⟨_,_,rfl⟩
    · have typed := linked.typed place index old at_old
      rcases latched.changed at_old with same | ⟨_,_,_,_,value,rfl,more,_,fits⟩
      · rw [same]; exact typed
      · rw [more]
        intro edge member
        rcases List.mem_append.mp member with old | new
        · exact typed edge old
        · rw [List.mem_singleton.mp new]; exact fits
    · exact isBit

end Function

end Lev
