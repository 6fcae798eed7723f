import Lev.Proofs.Arities

/-!
Disputes about arities. Every conflict arises at one call site: the first one of its name whose number of arguments is not
the one in the table. Main statement: the table holds what was known and then each other name with the arity of its first
site; there is one conflict for each name with a site that differs from the table, in the order of the sites where they
arise. In another order of the sites the same names are in conflict, and if there are none the table holds the same arities.
Syntax has callees exactly if no two of its calls share a name and not a number of arguments, and then these are its call
sites; otherwise the first conflict is the failure.
-/
namespace Lev

/-! ### Where conflicts arise -/

/-- The conflict arises at the site of the index: this is the first site of the name that differs from the table. -/
structure Conflict.ArisesAt (table : Table Int) (sites : List CallSite) (conflict : Conflict) (index : Nat) : Prop where
  expected : table.get? conflict.name = some conflict.expected
  found : sites[index]? = some ⟨conflict.name,conflict.found⟩
  differs : conflict.found ≠ conflict.expected
  first : ∀ earlier < index, ∀ site, sites[earlier]? = some site → site.name = conflict.name → site.arity = conflict.expected

/-- No two of the sites share a name and not a number of arguments. -/
def CallSite.Agree (sites : List CallSite) : Prop :=
  ∀ site ∈ sites, ∀ other ∈ sites, site.name = other.name → site.arity = other.arity

/-- The site of the index is the first one that disagrees with a site before it, and the conflict is between the first site of
    the name and this one. -/
structure Conflict.ComesFirst (sites : List CallSite) (conflict : Conflict) (index : Nat) : Prop where
  expected : sites.find? (·.name = conflict.name) = some ⟨conflict.name,conflict.expected⟩
  found : sites[index]? = some ⟨conflict.name,conflict.found⟩
  differs : conflict.found ≠ conflict.expected
  before : CallSite.Agree (sites.take index)

/-- The conflicts arise at sites, one after the other. -/
structure Signatures.Placed (sites : List CallSite) (found : Signatures) : Prop where
  arise : ∀ conflict ∈ found.conflicts, ∃ index, conflict.ArisesAt found.table sites index
  ordered : found.conflicts.Pairwise fun conflict later =>
    ∃ index index', conflict.ArisesAt found.table sites index ∧ later.ArisesAt found.table sites index' ∧ index < index'

section
variable {table larger : Table Int} {sites : List CallSite} {conflict : Conflict} {index index' : Nat}

theorem Conflict.ArisesAt.index_lt (arises : conflict.ArisesAt table sites index) : index < sites.length :=
  (List.getElem?_eq_some_iff.mp arises.found).1
theorem Conflict.ArisesAt.not_lt (arises : conflict.ArisesAt table sites index) (arises' : conflict.ArisesAt table sites index') :
    ¬ index < index' :=
  fun before => arises.differs (arises'.first index before _ arises.found rfl)
theorem Conflict.ArisesAt.unique (arises : conflict.ArisesAt table sites index) (arises' : conflict.ArisesAt table sites index') :
    index = index' := by
  have := arises.not_lt arises'
  have := arises'.not_lt arises
  omega
/-- A conflict stays where it arose when more sites follow and the table grows. -/
theorem Conflict.ArisesAt.grow (arises : conflict.ArisesAt table sites index) (more : List CallSite)
    (kept : ∀ name arity, table.get? name = some arity → larger.get? name = some arity) :
    conflict.ArisesAt larger (sites ++ more) index := by
  have inside := arises.index_lt
  refine ⟨kept _ _ arises.expected,?_,arises.differs,?_⟩
  · rw [List.getElem?_append_left inside]
    exact arises.found
  · intro earlier before site placed named
    rw [List.getElem?_append_left (by omega)] at placed
    exact arises.first earlier before site placed named

end

namespace Signatures

section
variable {known : Table Int} {sites sites' : List CallSite} {site : CallSite} {found : Signatures} {name : Text}

theorem Placed.grow (placed : Placed sites found) (more : List CallSite) {table : Table Int}
    (kept : ∀ name arity, found.table.get? name = some arity → table.get? name = some arity) :
    Placed (sites ++ more) { found with table := table } := by
  refine ⟨?_,placed.ordered.imp ?_⟩
  · intro conflict member
    obtain ⟨index,arises⟩ := placed.arise conflict member
    exact ⟨index,arises.grow more kept⟩
  · rintro conflict later ⟨index,index',arises,arises',before⟩
    exact ⟨index,index',arises.grow more kept,arises'.grow more kept,before⟩
/-- A new conflict arises at the site that was entered, if every site before it is known. -/
theorem arisesAt_length {expected : Int} (covered : ∀ other ∈ sites, found.Knows other)
    (present : found.table.get? site.name = some expected)
    (unsettled : ¬ (expected = site.arity ∨ site.name ∈ found.conflicts.map Conflict.name)) :
    Conflict.ArisesAt found.table (sites ++ [site]) ⟨site.name,expected,site.arity⟩ sites.length := by
  obtain ⟨differs,fresh⟩ := not_or.mp unsettled
  refine ⟨present,by simp,Ne.symm differs,?_⟩
  intro earlier before other placed named
  rw [List.getElem?_append_left before] at placed
  obtain ⟨arity,recorded,settled⟩ := covered other (List.mem_of_getElem? placed)
  rw [named] at recorded settled
  have same : expected = arity := Option.some.inj (present.symm.trans recorded)
  rw [same]
  exact (settled.resolve_right fresh).symm
theorem Placed.enter (placed : Placed sites found) (covered : ∀ other ∈ sites, found.Knows other) (site : CallSite) :
    Placed (sites ++ [site]) (found.enter site) := by
  rcases enter_cases found site with ⟨_,entered⟩ | ⟨expected,present,⟨entered,_⟩ | ⟨entered,unsettled⟩⟩ <;> rw [entered]
  · refine placed.grow [site] fun name arity old => ?_
    rw [Table.get?_append,old]
    rfl
  · exact placed.grow [site] fun _ _ old => old
  · have grown := placed.grow [site] (fun _ _ old => old : ∀ name arity, _ → found.table.get? name = some arity)
    have last := arisesAt_length covered present unsettled
    refine ⟨?_,?_⟩
    · intro conflict member
      rcases List.mem_append.mp member with old | new
      · exact grown.arise conflict old
      · cases List.mem_singleton.mp new
        exact ⟨sites.length,last⟩
    · refine List.pairwise_append.mpr ⟨grown.ordered,List.pairwise_singleton _ _,?_⟩
      intro conflict old later new
      cases List.mem_singleton.mp new
      obtain ⟨index,arises⟩ := placed.arise conflict old
      exact ⟨index,sites.length,arises.grow [site] fun _ _ old => old,last,arises.index_lt⟩
theorem ofCalls_placed (distinct : known.names.Nodup) (sites : List CallSite) : Placed sites (ofCalls known sites) := by
  induction sites using List.reverseRecOn with
  | nil => exact ⟨by simp [ofCalls],List.Pairwise.nil⟩
  | append_singleton sites site ih =>
    rw [ofCalls,List.foldl_append]
    exact ih.enter (ofCalls_covers distinct sites).entered site

/-! ### Tables and names in conflict -/

/-- The names of the table: those that were known, and then the others in the order of their first sites. -/
theorem names_ofCalls (distinct : known.names.Nodup) (sites : List CallSite) :
    (ofCalls known sites).table.names = known.names ++ ((sites.map CallSite.name).filter (· ∉ known.names)).eraseDups := by
  have others : (sites.map CallSite.name).removeAll known.names = (sites.map CallSite.name).filter (· ∉ known.names) := by
    simp [List.removeAll]
  rw [(ofCalls_reflects distinct sites).names,List.eraseDups_append,Text.eraseDups_of_nodup distinct,others]
theorem mem_conflicts_iff (distinct : known.names.Nodup) :
    name ∈ (ofCalls known sites).conflicts.map Conflict.name ↔
      ∃ site ∈ sites, site.name = name ∧ (ofCalls known sites).table.get? name ≠ some site.arity := by
  have reflects := ofCalls_reflects distinct sites
  rw [reflects.names_conflicts,mem_disputed_iff,reflects.arity]
  simp only [strays,List.mem_filter,decide_eq_true_eq]
  constructor
  · rintro ⟨found,member,differs⟩
    exact ⟨_,member,rfl,differs⟩
  · rintro ⟨site,member,rfl,differs⟩
    exact ⟨site.arity,member,differs⟩

/-! ### Other orders of the sites -/

theorem given_perm (perm : sites.Perm sites') {arity : Int} : Given known sites name arity ↔ Given known sites' name arity := by
  unfold Given
  rw [perm.mem_iff]
theorem mem_disputed_perm (perm : sites.Perm sites') : name ∈ disputed known sites ↔ name ∈ disputed known sites' := by
  simp only [mem_disputed_iff_given,given_perm perm]
/-- A name without conflict has one arity, whichever of its sites comes first. -/
theorem arity?_perm (perm : sites.Perm sites') (settled : name ∉ disputed known sites) :
    arity? known sites name = arity? known sites' name := by
  have absent : arity? known sites name = none ↔ arity? known sites' name = none := by
    rw [arity?_eq_none,arity?_eq_none,(perm.map CallSite.name).mem_iff]
  cases one : arity? known sites name with
  | none => exact (absent.mp one).symm
  | some arity =>
    cases other : arity? known sites' name with
    | none => exact absurd (absent.mpr other) (by simp [one])
    | some arity' =>
      by_contra differ
      have given' := (given_perm perm).mpr (given_of_arity? other)
      exact settled (mem_disputed_iff_given.mpr ⟨arity,arity',fun same => differ (same ▸ rfl),given_of_arity? one,given'⟩)

/-! ### Callees -/

theorem distinct_nil : (Table.names ([] : Table Int)).Nodup := List.nodup_nil
theorem conflicts_eq_nil_iff (sites : List CallSite) : (ofCalls [] sites).conflicts = [] ↔ CallSite.Agree sites := by
  have given {name : Text} {arity : Int} : Given [] sites name arity ↔ ⟨name,arity⟩ ∈ sites := by simp [Given,Table.get?]
  have disputes : (ofCalls [] sites).conflicts = [] ↔ ∀ name, name ∉ disputed [] sites := by
    rw [← (ofCalls_reflects distinct_nil sites).names_conflicts,← List.eq_nil_iff_forall_not_mem,List.map_eq_nil_iff]
  simp only [disputes,mem_disputed_iff_given,given]
  constructor
  · intro clean site member other member' named
    by_contra differ
    exact clean site.name ⟨site.arity,other.arity,differ,member,named ▸ member'⟩
  · rintro agree name ⟨one,other,differ,member,member'⟩
    exact differ (agree _ member _ member' rfl)
/-- Where the first conflict arises, the sites before agree with the table. -/
theorem Placed.agrees_before (placed : Placed sites (ofCalls known sites)) (distinct : known.names.Nodup) {conflict : Conflict}
    {rest : List Conflict} {index : Nat} (starts : (ofCalls known sites).conflicts = conflict :: rest)
    (arises : conflict.ArisesAt (ofCalls known sites).table sites index) (member : site ∈ sites.take index) :
    (ofCalls known sites).table.get? site.name = some site.arity := by
  by_contra differs
  -- A site that differs from the table has a conflict, which would have arisen at the site or before it.
  obtain ⟨other,listed,named⟩ := List.mem_map.mp
    ((mem_conflicts_iff distinct).mpr ⟨site,List.mem_of_mem_take member,rfl,differs⟩)
  have late : ∃ index', other.ArisesAt (ofCalls known sites).table sites index' ∧ index ≤ index' := by
    have ordered := placed.ordered
    rw [starts] at listed ordered
    rcases List.mem_cons.mp listed with rfl | later
    · exact ⟨index,arises,Nat.le_refl _⟩
    · obtain ⟨_,index',arises',arisesLater,before⟩ := (List.pairwise_cons.mp ordered).1 other later
      exact ⟨index',arisesLater,arises.unique arises' ▸ Nat.le_of_lt before⟩
  obtain ⟨index',arises',le⟩ := late
  obtain ⟨position,inside,at_⟩ := List.mem_iff_getElem.mp member
  have early : position < index := by
    rw [List.length_take] at inside
    omega
  have listed : sites[position]? = some site := by
    rw [← List.getElem?_take_of_lt early,List.getElem?_eq_getElem inside,at_]
  have same := arises'.first position (by omega) site listed named.symm
  exact differs (by rw [same,← named]; exact arises'.expected)
theorem comesFirst_of_conflicts {conflict : Conflict} {rest : List Conflict} (starts : (ofCalls [] sites).conflicts = conflict :: rest) :
    ∃ index, conflict.ComesFirst sites index := by
  have placed := ofCalls_placed distinct_nil sites
  obtain ⟨index,arises⟩ := placed.arise conflict (starts ▸ List.mem_cons_self)
  have recorded := arises.expected
  rw [(ofCalls_reflects distinct_nil sites).arity] at recorded
  obtain ⟨first,sought,arity⟩ := Option.map_eq_some_iff.mp (recorded : (sites.find? _).map CallSite.arity = _)
  have named : first.name = conflict.name := by simpa using List.find?_some sought
  refine ⟨index,?_,arises.found,arises.differs,?_⟩
  · rw [sought,← named,← arity]
  · intro site member other member' same
    have one := placed.agrees_before distinct_nil starts arises member
    have two := placed.agrees_before distinct_nil starts arises member'
    rw [same] at one
    exact Option.some.inj (one.symm.trans two)
theorem callees_of_agree (agree : CallSite.Agree sites) :
    ∃ found, callees sites = .ok found ∧ found.Nodup ∧ ∀ site, site ∈ found ↔ site ∈ sites := by
  have clean := (conflicts_eq_nil_iff sites).mpr agree
  have covers := ofCalls_covers distinct_nil sites
  refine ⟨(ofCalls [] sites).table.map fun entry => ⟨entry.1,entry.2⟩,?_,?_,?_⟩
  · unfold callees
    simp only [clean]
  · refine List.Nodup.of_map CallSite.name ?_
    rw [List.map_map]
    exact covers.distinct
  · intro site
    rw [List.mem_map]
    constructor
    · rintro ⟨entry,member,rfl⟩
      obtain ⟨site,listed,rfl⟩ := (covers.sources entry member).resolve_left List.not_mem_nil
      exact listed
    · intro listed
      obtain ⟨arity,recorded,settled⟩ := covers.entered site listed
      rw [clean] at settled
      obtain rfl := settled.resolve_right List.not_mem_nil
      exact ⟨_,Table.mem_of_get? recorded,rfl⟩
theorem callees_of_disagree (disagree : ¬ CallSite.Agree sites) :
    ∃ (conflict : Conflict) (index : Nat), callees sites = .error conflict.error ∧ conflict.ComesFirst sites index := by
  cases starts : (ofCalls [] sites).conflicts with
  | nil => exact absurd ((conflicts_eq_nil_iff sites).mp starts) disagree
  | cons conflict rest =>
    obtain ⟨index,first⟩ := comesFirst_of_conflicts starts
    refine ⟨conflict,index,?_,first⟩
    unfold callees
    simp only [starts]

end

end Signatures
theorem Node.agree_calls_iff (n : Node) : CallSite.Agree n.calls ↔
    ¬ ∃ site other, n.Calls site ∧ n.Calls other ∧ site.name = other.name ∧ site.arity ≠ other.arity := by
  constructor
  · rintro agree ⟨site,other,inside,inside',named,differ⟩
    exact differ (agree site ((n.mem_calls_iff site).mpr inside) other ((n.mem_calls_iff other).mpr inside') named)
  · intro agreed site member other member' named
    by_contra differ
    exact agreed ⟨site,other,(n.mem_calls_iff site).mp member,(n.mem_calls_iff other).mp member',named,differ⟩

/-- Whatever the sites and what is known before: the table has the known names in their order and then the other names in the order
    of first sight, each with its known arity or else the arity of its first site; the names in conflict are those with a site that
    differs from the table, each once, and the conflicts are listed in the order of the sites where they arise. For every other order
    of the sites the same names are in conflict, and without conflicts the table is the same map. For every piece of syntax, finding
    its callees fails exactly if two calls inside share a name and not a number of arguments, with the first conflict of this sort,
    and otherwise gives each call site inside once and nothing else. -/
theorem arities_exact_in_any_order :
    (∀ (known : Table Int) (sites : List CallSite), known.names.Nodup →
      let found := Signatures.ofCalls known sites
      found.table.names = known.names ++ ((sites.map CallSite.name).filter (· ∉ known.names)).eraseDups ∧
      (∀ name, found.table.get? name = (known.get? name).or ((sites.find? (·.name = name)).map CallSite.arity)) ∧
      (found.conflicts.map Conflict.name).Nodup ∧
      (∀ name, name ∈ found.conflicts.map Conflict.name ↔
        ∃ site ∈ sites, site.name = name ∧ found.table.get? name ≠ some site.arity) ∧
      (∀ conflict ∈ found.conflicts, ∃ index, conflict.ArisesAt found.table sites index) ∧
      (found.conflicts.Pairwise fun conflict later => ∃ index index',
        conflict.ArisesAt found.table sites index ∧ later.ArisesAt found.table sites index' ∧ index < index') ∧
      ∀ sites', sites.Perm sites' →
        let found' := Signatures.ofCalls known sites'
        (∀ name, name ∈ found.conflicts.map Conflict.name ↔ name ∈ found'.conflicts.map Conflict.name) ∧
        (found.conflicts = [] → ∀ name, found.table.get? name = found'.table.get? name)) ∧
    ∀ n : Node,
      ((∃ error, Signatures.callees n.calls = .error error) ↔
        ∃ site other, n.Calls site ∧ n.Calls other ∧ site.name = other.name ∧ site.arity ≠ other.arity) ∧
      (∀ error, Signatures.callees n.calls = .error error →
        ∃ (conflict : Conflict) (index : Nat), error = conflict.error ∧ conflict.ComesFirst n.calls index) ∧
      ∀ found, Signatures.callees n.calls = .ok found → found.Nodup ∧ ∀ site, site ∈ found ↔ n.Calls site := by
  constructor
  · intro known sites distinct
    have reflects := Signatures.ofCalls_reflects distinct sites
    have placed := Signatures.ofCalls_placed distinct sites
    refine ⟨Signatures.names_ofCalls distinct sites,reflects.arity,?_,fun name => Signatures.mem_conflicts_iff distinct,
      placed.arise,placed.ordered,?_⟩
    · rw [reflects.names_conflicts]
      exact Text.nodup_eraseDups _
    · intro sites' perm
      have reflects' := Signatures.ofCalls_reflects distinct sites'
      refine ⟨fun name => ?_,fun clean name => ?_⟩
      · rw [reflects.names_conflicts,reflects'.names_conflicts]
        exact Signatures.mem_disputed_perm perm
      · have settled : name ∉ Signatures.disputed known sites := by
          rw [← reflects.names_conflicts,clean]
          exact List.not_mem_nil
        rw [reflects.arity,reflects'.arity]
        exact Signatures.arity?_perm perm settled
  · intro n
    by_cases agree : CallSite.Agree n.calls
    · obtain ⟨found,done,distinct,listed⟩ := Signatures.callees_of_agree agree
      rw [done]
      refine ⟨iff_of_false ?_ (n.agree_calls_iff.mp agree),?_,?_⟩
      · rintro ⟨error,failed⟩
        cases failed
      · intro error failed
        cases failed
      · intro result same
        cases same
        exact ⟨distinct,fun site => (listed site).trans (n.mem_calls_iff site)⟩
    · obtain ⟨conflict,index,failed,first⟩ := Signatures.callees_of_disagree agree
      rw [failed]
      refine ⟨iff_of_true ⟨_,rfl⟩ (not_not.mp fun agreed => agree (n.agree_calls_iff.mpr agreed)),?_,?_⟩
      · intro error same
        cases same
        exact ⟨conflict,index,rfl,first⟩
      · intro found done
        cases done

/-- A program that calls `f` with one argument, then `g` and `f` with none. -/
def overloading : Node :=
  .expr (.binary (.call (lit "f") (.cons (.call (lit "g") .nil) .nil)) .add (.call (lit "f") .nil))
/-- Where `g` is known to take two arguments, `g` is in conflict before `f`, in the other order of the sites as well; by itself the
    program has a conflict on `f` only. -/
theorem arities_exact_in_any_order_overloading :
    (Signatures.ofCalls [(lit "g",2)] overloading.calls).conflicts = [⟨lit "g",2,0⟩,⟨lit "f",1,0⟩] ∧
    lit "f" ∈ (Signatures.ofCalls [(lit "g",2)] overloading.calls.reverse).conflicts.map Conflict.name ∧
    ∃ error, Signatures.callees overloading.calls = .error error := by
  have found : (Signatures.ofCalls [(lit "g",2)] overloading.calls).conflicts = [⟨lit "g",2,0⟩,⟨lit "f",1,0⟩] := by decide +kernel
  obtain ⟨tables,nodes⟩ := arities_exact_in_any_order
  obtain ⟨_,_,_,_,_,_,orders⟩ := tables [(lit "g",2)] overloading.calls (List.nodup_singleton _)
  refine ⟨found,?_,?_⟩
  · rw [← (orders _ (List.reverse_perm _).symm).1,found]
    exact List.mem_cons_of_mem _ List.mem_cons_self
  · refine (nodes overloading).1.mpr ⟨⟨lit "f",1⟩,⟨lit "f",0⟩,?_,?_,rfl,by decide⟩
    · exact ⟨_,.single (.left _ _ _),rfl⟩
    · exact ⟨_,.single (.right _ _ _),rfl⟩

end Lev
