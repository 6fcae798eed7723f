import Lev.Proofs.Signatures

/-!
What the call sites of syntax say by themselves. A site belongs to a piece of syntax if the call is found
somewhere inside it. The arity of a name is the known one, or else the one of its first site; sites with
another number of arguments stray from it. Main statement: the signatures of call sites hold each name
once in the order of first sight with its arity, and one conflict for each name with a stray site, in the
order of the first ones.
-/
namespace Lev

/-! ### The calls inside syntax -/

/-- The pieces that a piece of syntax is made of. -/
inductive Node.Part : Node → Node → Prop
  | left (left : Expr) (op : Operator) (right : Expr) : Part (.expr (.binary left op right)) (.expr left)
  | right (left : Expr) (op : Operator) (right : Expr) : Part (.expr (.binary left op right)) (.expr right)
  | arg (callee : Text) {args : Args} {arg : Expr} (member : arg ∈ args.toList) : Part (.expr (.call callee args)) (.expr arg)
  | scope (body : Block) : Part (.expr (.scope body)) (.block body)
  | cond (cond : Expr) (body : Block) : Part (.expr (.loop cond body)) (.expr cond)
  | body (cond : Expr) (body : Block) : Part (.expr (.loop cond body)) (.block body)
  | discard (value : Expr) : Part (.stmt (.discard value)) (.expr value)
  | bindConst (name : Text) (value : Expr) : Part (.stmt (.bindConst name value)) (.expr value)
  | bindMut (name : Text) (value : Expr) : Part (.stmt (.bindMut name value)) (.expr value)
  | assign (name : Text) (value : Expr) : Part (.stmt (.assign name value)) (.expr value)
  | first (first : Stmt) (rest : Block) : Part (.block (.step first rest)) (.stmt first)
  | rest (first : Stmt) (rest : Block) : Part (.block (.step first rest)) (.block rest)
  | result (value : Expr) : Part (.block (.result value)) (.expr value)

/-- Somewhere inside the syntax is a call that the site describes. -/
def Node.Calls (n : Node) (site : CallSite) : Prop :=
  ∃ args, Relation.ReflTransGen Node.Part n (.expr (.call site.name args)) ∧ site.arity = args.length

theorem Args.calls_eq (args : Args) : args.calls = args.toList.flatMap Expr.calls := by
  cases args with
  | nil => rfl
  | cons first rest => simp [Args.calls,Args.toList,Args.calls_eq rest]
/-- The call sites of a piece are call sites of the whole. -/
theorem Node.Part.calls {n part : Node} (inside : n.Part part) {site : CallSite} (member : site ∈ part.calls) :
    site ∈ n.calls := by
  cases inside with
  | left | cond | first => exact List.mem_append_left _ member
  | right | body | rest => exact List.mem_append_right _ member
  | arg callee inside =>
    refine List.mem_cons_of_mem _ ?_
    rw [Args.calls_eq]
    exact List.mem_flatMap.mpr ⟨_,inside,member⟩
  | scope | discard | bindConst | bindMut | assign | result => exact member
theorem Node.Part.found {n part : Node} (inside : n.Part part) {site : CallSite} (found : part.Calls site) : n.Calls site := by
  obtain ⟨args,way,arity⟩ := found
  exact ⟨args,.head inside way,arity⟩

mutual

theorem Expr.found_of_calls (e : Expr) (site : CallSite) (member : site ∈ e.calls) : (Node.expr e).Calls site := by
  match e with
  | .literal _ => cases member
  | .var _ => cases member
  | .binary left op right =>
    rcases List.mem_append.mp member with early | late
    · exact (Node.Part.left left op right).found (left.found_of_calls site early)
    · exact (Node.Part.right left op right).found (right.found_of_calls site late)
  | .call callee args =>
    rcases List.mem_cons.mp member with rfl | deeper
    · exact ⟨args,.refl,rfl⟩
    · obtain ⟨arg,inside,found⟩ := args.found_of_calls site deeper
      exact (Node.Part.arg callee inside).found found
  | .scope body => exact (Node.Part.scope body).found (body.found_of_calls site member)
  | .loop cond body =>
    rcases List.mem_append.mp member with early | late
    · exact (Node.Part.cond cond body).found (cond.found_of_calls site early)
    · exact (Node.Part.body cond body).found (body.found_of_calls site late)

theorem Args.found_of_calls (args : Args) (site : CallSite) (member : site ∈ args.calls) :
    ∃ arg ∈ args.toList, (Node.expr arg).Calls site := by
  match args with
  | .nil => cases member
  | .cons first rest =>
    rcases List.mem_append.mp member with early | late
    · exact ⟨first,List.mem_cons_self,first.found_of_calls site early⟩
    · obtain ⟨arg,inside,found⟩ := rest.found_of_calls site late
      exact ⟨arg,List.mem_cons_of_mem _ inside,found⟩

theorem Stmt.found_of_calls (s : Stmt) (site : CallSite) (member : site ∈ s.calls) : (Node.stmt s).Calls site := by
  match s with
  | .discard value => exact (Node.Part.discard value).found (value.found_of_calls site member)
  | .bindConst name value => exact (Node.Part.bindConst name value).found (value.found_of_calls site member)
  | .bindMut name value => exact (Node.Part.bindMut name value).found (value.found_of_calls site member)
  | .assign name value => exact (Node.Part.assign name value).found (value.found_of_calls site member)

theorem Block.found_of_calls (body : Block) (site : CallSite) (member : site ∈ body.calls) : (Node.block body).Calls site := by
  match body with
  | .result value => exact (Node.Part.result value).found (value.found_of_calls site member)
  | .step first rest =>
    rcases List.mem_append.mp member with early | late
    · exact (Node.Part.first first rest).found (first.found_of_calls site early)
    · exact (Node.Part.rest first rest).found (rest.found_of_calls site late)

end

/-- The call sites of syntax are those of the calls found inside it. -/
theorem Node.mem_calls_iff (n : Node) (site : CallSite) : site ∈ n.calls ↔ n.Calls site := by
  constructor
  · intro member
    cases n with
    | expr e => exact e.found_of_calls site member
    | stmt s => exact s.found_of_calls site member
    | block b => exact b.found_of_calls site member
  · rintro ⟨args,way,arity⟩
    induction way using Relation.ReflTransGen.head_induction_on with
    | refl =>
      refine List.mem_cons.mpr (.inl ?_)
      rw [← arity]
    | head inside _ member => exact inside.calls member

namespace Signatures

/-! ### Arities and conflicts -/

/-- The arity of a name: the known one, or else the one of its first site. -/
def arity? (known : Table Int) (sites : List CallSite) (name : Text) : Option Int :=
  (known.get? name).or ((sites.find? (·.name = name)).map CallSite.arity)
/-- The sites whose number of arguments is not the arity of their name. -/
def strays (known : Table Int) (sites : List CallSite) : List CallSite :=
  sites.filter fun site => arity? known sites site.name ≠ some site.arity
/-- The conflict of a name: its arity and the one of its first stray site. -/
def conflict? (known : Table Int) (sites : List CallSite) (name : Text) : Option Conflict := do
  let expected ← arity? known sites name
  let found ← arity? [] (strays known sites) name
  some ⟨name,expected,found⟩
/-- The names with a stray site, each once, in the order of the first ones. -/
def disputed (known : Table Int) (sites : List CallSite) : List Text := ((strays known sites).map CallSite.name).eraseDups

section
variable {known : Table Int} {sites : List CallSite} {site : CallSite} {name : Text}

theorem arity?_append (known : Table Int) (sites more : List CallSite) (name : Text) :
    arity? known (sites ++ more) name = (arity? known sites name).or (arity? [] more name) := by
  simp only [arity?,List.find?_append,Option.map_or,Option.or_assoc]
  rfl
theorem arity?_eq_none : arity? known sites name = none ↔ name ∉ known.names ∧ name ∉ sites.map CallSite.name := by
  simp only [arity?,Option.or_eq_none_iff,Table.get?_eq_none_iff,Option.map_eq_none_iff,List.find?_eq_none,List.mem_map]
  grind
theorem arity?_of_mem (more : List CallSite) (member : site ∈ sites) :
    arity? known (sites ++ more) site.name = arity? known sites site.name := by
  rw [arity?_append]
  cases absent : arity? known sites site.name with
  | none => exact absurd (List.mem_map_of_mem member) (arity?_eq_none.mp absent).2
  | some expected => rfl
/-- A site strays if its name has another arity already. -/
theorem strays_append (known : Table Int) (sites : List CallSite) (site : CallSite) :
    strays known (sites ++ [site]) =
      strays known sites ++ if (arity? known sites site.name).getD site.arity = site.arity then [] else [site] := by
  have kept : ∀ other ∈ sites, (decide (arity? known (sites ++ [site]) other.name ≠ some other.arity)) =
      decide (arity? known sites other.name ≠ some other.arity) := by
    intro other member
    rw [arity?_of_mem _ member]
  have last : arity? known (sites ++ [site]) site.name = some ((arity? known sites site.name).getD site.arity) := by
    rw [arity?_append]
    cases arity? known sites site.name <;> simp [arity?,Table.get?]
  rw [strays,List.filter_append,List.filter_congr kept,List.filter_singleton,last]
  by_cases same : (arity? known sites site.name).getD site.arity = site.arity <;> simp [strays,same]
theorem mem_disputed_iff : name ∈ disputed known sites ↔ ∃ found, ⟨name,found⟩ ∈ strays known sites := by
  simp only [disputed,List.mem_eraseDups,List.mem_map]
  constructor
  · rintro ⟨site,member,rfl⟩
    exact ⟨site.arity,member⟩
  · rintro ⟨found,member⟩
    exact ⟨_,member,rfl⟩

/-! ### Entering sites -/

/-- What is found tells of the sites that were entered what they say by themselves. -/
structure Reflects (known : Table Int) (sites : List CallSite) (found : Signatures) : Prop where
  names : found.table.names = (known.names ++ sites.map CallSite.name).eraseDups
  arity : ∀ name, found.table.get? name = arity? known sites name
  conflicts : found.conflicts = (disputed known sites).filterMap (conflict? known sites)

theorem arity?_of_present {expected : Int} (present : arity? known sites site.name = some expected) (name : Text) :
    arity? known (sites ++ [site]) name = arity? known sites name := by
  rw [arity?_append]
  by_cases same : site.name = name
  · rw [← same,present]
    rfl
  · simp [arity?,Table.get?,same]
theorem disputed_of_agree (same : (arity? known sites site.name).getD site.arity = site.arity) :
    disputed known (sites ++ [site]) = disputed known sites := by
  simp [disputed,strays_append,same]
theorem disputed_of_stray (other : (arity? known sites site.name).getD site.arity ≠ site.arity) :
    disputed known (sites ++ [site]) = disputed known sites ++ if site.name ∈ disputed known sites then [] else [site.name] := by
  simp only [disputed,strays_append,other,if_false,List.map_append,List.map_cons,List.map_nil,Text.eraseDups_snoc,List.mem_eraseDups]
theorem conflict?_of_mem (member : name ∈ disputed known sites) :
    conflict? known (sites ++ [site]) name = conflict? known sites name := by
  obtain ⟨found,stray⟩ := mem_disputed_iff.mp member
  have first : arity? known (sites ++ [site]) name = arity? known sites name := arity?_of_mem _ (List.mem_filter.mp stray).1
  have second : arity? [] (strays known (sites ++ [site])) name = arity? [] (strays known sites) name := by
    rw [strays_append]
    exact arity?_of_mem _ stray
  simp only [conflict?,first,second]
theorem filterMap_conflict? (known : Table Int) (sites : List CallSite) (site : CallSite) :
    (disputed known sites).filterMap (conflict? known (sites ++ [site])) =
      (disputed known sites).filterMap (conflict? known sites) :=
  List.filterMap_congr (fun _ member => conflict?_of_mem member)
/-- Every name with a stray site has a conflict. -/
theorem conflict?_of_disputed (member : name ∈ disputed known sites) :
    ∃ expected found, conflict? known sites name = some ⟨name,expected,found⟩ := by
  obtain ⟨_,stray⟩ := mem_disputed_iff.mp member
  have inside := (List.mem_filter.mp stray).1
  cases first : arity? known sites name with
  | none => exact absurd (List.mem_map_of_mem inside) (arity?_eq_none.mp first).2
  | some expected =>
    cases second : arity? [] (strays known sites) name with
    | none => exact absurd (List.mem_map_of_mem stray) (arity?_eq_none.mp second).2
    | some found => exact ⟨expected,found,by simp [conflict?,first,second]⟩
theorem names_conflict? (known : Table Int) (sites : List CallSite) :
    ((disputed known sites).filterMap (conflict? known sites)).map Conflict.name = disputed known sites := by
  have each : ∀ name ∈ disputed known sites, (conflict? known sites name).map Conflict.name = some name := by
    intro name member
    obtain ⟨expected,found,conflict⟩ := conflict?_of_disputed member
    rw [conflict]
    rfl
  rw [List.map_filterMap,List.filterMap_congr each,List.filterMap_some]
/-- The conflict of a name whose first stray site is the last one. -/
theorem conflict?_of_first_stray {expected : Int} (present : arity? known sites site.name = some expected)
    (differs : expected ≠ site.arity) (first : site.name ∉ disputed known sites) :
    conflict? known (sites ++ [site]) site.name = some ⟨site.name,expected,site.arity⟩ := by
  have stray : (arity? known sites site.name).getD site.arity ≠ site.arity := by
    rw [present]
    exact differs
  have none : arity? [] (strays known sites) site.name = none := by
    refine arity?_eq_none.mpr ⟨by simp [Table.names],?_⟩
    intro member
    exact first (List.mem_eraseDups.mpr member)
  have found : arity? [] (strays known (sites ++ [site])) site.name = some site.arity := by
    rw [strays_append,if_neg stray,arity?_append,none]
    simp [arity?,Table.get?]
  simp [conflict?,arity?_of_present present,present,found]

section
variable {found : Signatures}

theorem Reflects.names_conflicts (reflects : Reflects known sites found) :
    found.conflicts.map Conflict.name = disputed known sites := by
  rw [reflects.conflicts,names_conflict?]
/-- The names after one more site: those before it, and its own if that has no arity yet. -/
theorem Reflects.names_snoc (reflects : Reflects known sites found) (site : CallSite) :
    (known.names ++ (sites ++ [site]).map CallSite.name).eraseDups =
      found.table.names ++ if arity? known sites site.name = none then [site.name] else [] := by
  have snoc := Text.eraseDups_snoc (known.names ++ sites.map CallSite.name) site.name
  rw [List.map_append,← List.append_assoc,reflects.names]
  refine snoc.trans ?_
  simp only [arity?_eq_none,List.mem_append,← not_or,ite_not]
/-- A site whose name has an arity changes the conflicts only. -/
theorem Reflects.of_present (reflects : Reflects known sites found) {expected : Int}
    (present : found.table.get? site.name = some expected) {conflicts : List Conflict}
    (told : conflicts = (disputed known (sites ++ [site])).filterMap (conflict? known (sites ++ [site]))) :
    Reflects known (sites ++ [site]) {found with conflicts := conflicts} := by
  rw [reflects.arity] at present
  refine ⟨?_,?_,told⟩
  · rw [reflects.names_snoc,present,if_neg (by simp),List.append_nil]
  · intro name
    rw [arity?_of_present present,reflects.arity]
theorem Reflects.enter (reflects : Reflects known sites found) (site : CallSite) :
    Reflects known (sites ++ [site]) (found.enter site) := by
  have arity := reflects.arity site.name
  rcases enter_cases found site with ⟨absent,entered⟩ | ⟨expected,present,⟨entered,settled⟩ | ⟨entered,unsettled⟩⟩
  · rw [absent] at arity
    rw [entered]
    constructor
    · rw [reflects.names_snoc,if_pos arity.symm]
      simp [Table.names]
    · intro name
      rw [arity?_append,Table.get?_append,reflects.arity]
      simp [arity?,Table.get?]
    · rw [disputed_of_agree (by rw [← arity]; rfl),filterMap_conflict?]
      exact reflects.conflicts
  · rw [entered]
    refine reflects.of_present present ?_
    rw [present] at arity
    have same : disputed known (sites ++ [site]) = disputed known sites := by
      by_cases agrees : expected = site.arity
      · exact disputed_of_agree (by rw [← arity]; exact agrees)
      · have member : site.name ∈ disputed known sites := reflects.names_conflicts ▸ settled.resolve_left agrees
        rw [disputed_of_stray (by rw [← arity]; exact agrees),if_pos member,List.append_nil]
    rw [same,filterMap_conflict?]
    exact reflects.conflicts
  · rw [entered]
    refine reflects.of_present present ?_
    rw [present] at arity
    rw [not_or,reflects.names_conflicts] at unsettled
    obtain ⟨differs,first⟩ := unsettled
    rw [disputed_of_stray (by rw [← arity]; exact differs),if_neg first,List.filterMap_append,filterMap_conflict?,
      ← reflects.conflicts]
    simp [conflict?_of_first_stray arity.symm differs first]

end

/-- The signatures of call sites are what the sites say by themselves. -/
theorem ofCalls_reflects {known : Table Int} (distinct : known.names.Nodup) (sites : List CallSite) :
    Reflects known sites (ofCalls known sites) := by
  induction sites using List.reverseRecOn with
  | nil =>
    refine ⟨?_,?_,rfl⟩
    · simp [ofCalls,Text.eraseDups_of_nodup distinct]
    · intro name
      simp [ofCalls,arity?]
  | append_singleton sites site ih =>
    rw [ofCalls,List.foldl_append]
    exact ih.enter site

/-! ### Names with two arities -/

/-- A site, or what is known, gives the name this number of arguments. -/
def Given (known : Table Int) (sites : List CallSite) (name : Text) (arity : Int) : Prop :=
  known.get? name = some arity ∨ ⟨name,arity⟩ ∈ sites

theorem given_of_arity? {arity : Int} (found : arity? known sites name = some arity) : Given known sites name arity := by
  cases early : known.get? name with
  | some expected =>
    rw [arity?,early] at found
    exact .inl (early.trans found)
  | none =>
    rw [arity?,early,Option.none_or,Option.map_eq_some_iff] at found
    obtain ⟨site,first,rfl⟩ := found
    obtain rfl : site.name = name := by simpa using List.find?_some first
    exact .inr (List.mem_of_find?_eq_some first)
/-- A number of arguments that is given and is not the arity of its name is given by a stray site. -/
theorem stray_of_given {expected arity : Int} (found : arity? known sites name = some expected) (other : expected ≠ arity)
    (given : Given known sites name arity) : ⟨name,arity⟩ ∈ strays known sites := by
  rcases given with early | member
  · rw [arity?,early] at found
    exact absurd (Option.some.inj found).symm other
  · refine List.mem_filter.mpr ⟨member,?_⟩
    simpa [found] using other
/-- A name is disputed if it is given two numbers of arguments. -/
theorem mem_disputed_iff_given :
    name ∈ disputed known sites ↔ ∃ one other, one ≠ other ∧ Given known sites name one ∧ Given known sites name other := by
  rw [mem_disputed_iff]
  constructor
  · rintro ⟨found,stray⟩
    obtain ⟨member,differs⟩ := List.mem_filter.mp stray
    cases first : arity? known sites name with
    | none => exact absurd (List.mem_map_of_mem member) (arity?_eq_none.mp first).2
    | some expected => exact ⟨expected,found,by simpa [first] using differs,given_of_arity? first,.inr member⟩
  · rintro ⟨one,other,differ,given,given'⟩
    cases first : arity? known sites name with
    | none =>
      obtain ⟨unknown,unseen⟩ := arity?_eq_none.mp first
      rcases given with early | member
      · exact absurd (List.mem_map_of_mem (Table.mem_of_get? early)) unknown
      · exact absurd (List.mem_map_of_mem member) unseen
    | some expected =>
      by_cases same : expected = one
      · exact ⟨other,stray_of_given first (same ▸ differ) given'⟩
      · exact ⟨one,stray_of_given first same given⟩

end

end Signatures

end Lev
