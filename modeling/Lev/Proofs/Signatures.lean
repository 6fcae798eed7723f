import Lev.Analysis.Calls
import Lev.Proofs.Names

/-!
The signatures that call sites give: every site has its name in the table, with its own number of
arguments unless the name is in conflict, and the table holds nothing else than the sites and what was
known before.
-/
namespace Lev

namespace Signatures
variable {found : Signatures} {site : CallSite}

/-- What entering a site does: the name is new, or it agrees or is in conflict already, or it becomes so. -/
theorem enter_cases (found : Signatures) (site : CallSite) :
    (found.table.get? site.name = none ∧
      found.enter site = { found with table := found.table ++ [(site.name,site.arity)] }) ∨
    (∃ expected, found.table.get? site.name = some expected ∧
      (found.enter site = found ∧ (expected = site.arity ∨ site.name ∈ found.conflicts.map Conflict.name) ∨
        found.enter site = { found with conflicts := found.conflicts ++ [⟨site.name,expected,site.arity⟩] } ∧
          ¬ (expected = site.arity ∨ site.name ∈ found.conflicts.map Conflict.name))) := by
  have named : found.conflicts.any (·.name = site.name) ↔ site.name ∈ found.conflicts.map Conflict.name := by simp
  unfold enter
  cases known : found.table.get? site.name with
  | none => exact .inl ⟨rfl,by rw [Table.set_of_none known]⟩
  | some expected =>
    refine .inr ⟨expected,rfl,?_⟩
    simp only [named]
    by_cases settled : expected = site.arity ∨ site.name ∈ found.conflicts.map Conflict.name
    · exact .inl ⟨if_pos settled,settled⟩
    · exact .inr ⟨if_neg settled,settled⟩

/-- The table knows the site: its number of arguments is the one in the table, or its name is in conflict. -/
def Knows (found : Signatures) (site : CallSite) : Prop :=
  ∃ arity, found.table.get? site.name = some arity ∧ (arity = site.arity ∨ site.name ∈ found.conflicts.map Conflict.name)

/-- What is known of the sites that were entered: their names are in the table, which holds nothing that
    was not known before or entered. -/
structure Covers (known : Table Int) (sites : List CallSite) (found : Signatures) : Prop where
  distinct : found.table.names.Nodup
  kept : ∀ name arity, known.get? name = some arity → found.table.get? name = some arity
  entered : ∀ site ∈ sites, found.Knows site
  sources : ∀ entry ∈ found.table, entry ∈ known ∨ ∃ site ∈ sites, entry = (site.name,site.arity)

/-- One site more is covered once it is entered. -/
theorem Covers.enter {known : Table Int} {sites : List CallSite} {found : Signatures} (covers : Covers known sites found)
    (site : CallSite) : Covers known (sites ++ [site]) (found.enter site) := by
  have more : ∀ entry, (entry ∈ known ∨ ∃ site ∈ sites, entry = (site.name,site.arity)) →
      entry ∈ known ∨ ∃ other ∈ sites ++ [site], entry = (other.name,other.arity) := by
    rintro entry (old | ⟨other,member,same⟩)
    · exact .inl old
    · exact .inr ⟨other,List.mem_append_left _ member,same⟩
  rcases enter_cases found site with ⟨absent,entered⟩ | ⟨expected,present,⟨entered,settled⟩ | ⟨entered,_⟩⟩ <;> rw [entered]
  · have extended : ∀ name arity, found.table.get? name = some arity →
        Table.get? name (found.table ++ [(site.name,site.arity)]) = some arity := by
      intro name arity old
      rw [Table.get?_append,old]
      rfl
    constructor
    · rw [Table.names,List.map_append,List.nodup_append]
      refine ⟨covers.distinct,List.nodup_singleton _,?_⟩
      rintro name member _ single rfl
      cases List.mem_singleton.mp single
      exact Table.get?_eq_none_iff.mp absent member
    · exact fun name arity old => extended name arity (covers.kept name arity old)
    · intro other member
      rcases List.mem_append.mp member with old | new
      · obtain ⟨arity,present,settled⟩ := covers.entered other old
        exact ⟨arity,extended _ _ present,settled⟩
      · cases List.mem_singleton.mp new
        exact ⟨site.arity,by rw [Table.get?_append,absent]; simp [Table.get?],.inl rfl⟩
    · intro entry member
      rcases List.mem_append.mp member with old | new
      · exact more entry (covers.sources entry old)
      · exact .inr ⟨site,List.mem_append_right _ List.mem_cons_self,List.mem_singleton.mp new⟩
  · refine ⟨covers.distinct,covers.kept,?_,fun entry member => more entry (covers.sources entry member)⟩
    intro other member
    rcases List.mem_append.mp member with old | new
    · exact covers.entered other old
    · cases List.mem_singleton.mp new
      exact ⟨expected,present,settled⟩
  · refine ⟨covers.distinct,covers.kept,?_,fun entry member => more entry (covers.sources entry member)⟩
    intro other member
    rcases List.mem_append.mp member with old | new
    · obtain ⟨arity,present,settled⟩ := covers.entered other old
      exact ⟨arity,present,settled.imp_right (fun inside => by simp only [List.map_append,List.mem_append]; exact .inl inside)⟩
    · cases List.mem_singleton.mp new
      exact ⟨expected,present,.inr (by simp)⟩
theorem ofCalls_covers {known : Table Int} (distinct : known.names.Nodup) (sites : List CallSite) :
    Covers known sites (ofCalls known sites) := by
  suffices general : ∀ done found, Covers known done found → Covers known (done ++ sites) (sites.foldl enter found) from
    general [] ⟨known,[]⟩ ⟨distinct,fun _ _ old => old,by simp,fun entry member => .inl member⟩
  induction sites with
  | nil => exact fun done found covers => by simpa using covers
  | cons site rest ih =>
    intro done found covers
    have later := ih (done ++ [site]) (found.enter site) (covers.enter site)
    rwa [List.append_assoc] at later

end Signatures

end Lev
