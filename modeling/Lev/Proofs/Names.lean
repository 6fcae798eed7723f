import Lev.Build.Frame
import Lev.Proofs.Attempt
import Mathlib.Data.List.Induction
import Mathlib.Data.List.Nodup
import Mathlib.Data.List.Perm.Subperm
import Mathlib.Tactic.Common

/-!
Sorted names, look-up in tables and environments, names that the target cannot carry, and the freshness
of names: a name that is handed out was not in use before and is in use afterwards.
-/
namespace Lev

theorem CodePoint.code_injective {a b : CodePoint} (same : a.code = b.code) : a = b := by
  have valid : ∀ c : Char, c.toNat < 0xD800 ∨ 0xDFFF < c.toNat := fun c => c.valid.imp id And.left
  cases a with
  | char c =>
    cases b with
    | char d => exact congrArg _ (Char.toNat_inj.mp same)
    | surrogate offset =>
      have := valid c
      have := offset.isLt
      simp only [code] at same
      omega
  | surrogate offset =>
    cases b with
    | char d =>
      have := valid d
      have := offset.isLt
      simp only [code] at same
      omega
    | surrogate offset' =>
      simp only [code] at same
      exact congrArg _ (Fin.ext (by omega))

namespace Text

/-! ### Names in order -/

theorem compare_self (t : Text) : compare t t = .eq := by
  induction t with
  | nil => rfl
  | cons a rest ih => simp [compare,ih]
theorem lt_of_compare_gt {s t : Text} (gt : compare s t = .gt) : compare t s = .lt := by
  induction s generalizing t with
  | nil => cases t <;> cases gt
  | cons a rest ih =>
    cases t with
    | nil => rfl
    | cons b others =>
      simp only [compare,Ordering.then_eq_gt,Ordering.then_eq_lt,Nat.compare_eq_gt,Nat.compare_eq_lt,Nat.compare_eq_eq] at gt ⊢
      rcases gt with first | ⟨same,later⟩
      · exact .inl first
      · exact .inr ⟨same.symm,ih later⟩
theorem compare_lt_trans {s t u : Text} (first : compare s t = .lt) (second : compare t u = .lt) : compare s u = .lt := by
  induction s generalizing t u with
  | nil =>
    cases u with
    | nil => cases t <;> cases second
    | cons c rest => rfl
  | cons a rest ih =>
    cases t with
    | nil => cases first
    | cons b others =>
      cases u with
      | nil => cases second
      | cons c more =>
        simp only [compare,Ordering.then_eq_lt,Nat.compare_eq_lt,Nat.compare_eq_eq] at first second ⊢
        rcases first with less | ⟨same,later⟩ <;> rcases second with less' | ⟨same',later'⟩
        · exact .inl (by omega)
        · exact .inl (by omega)
        · exact .inl (by omega)
        · exact .inr ⟨by omega,ih later later'⟩
theorem eq_of_compare_eq {s t : Text} (same : compare s t = .eq) : s = t := by
  induction s generalizing t with
  | nil => cases t with
    | nil => rfl
    | cons b others => cases same
  | cons a rest ih =>
    cases t with
    | nil => cases same
    | cons b others =>
      simp only [compare,Ordering.then_eq_eq,Nat.compare_eq_eq] at same
      rw [CodePoint.code_injective same.1,ih same.2]
theorem mem_insertSorted_iff {name other : Text} {names : List Text} :
    other ∈ insertSorted name names ↔ other = name ∨ other ∈ names := by
  induction names with
  | nil => simp [insertSorted]
  | cons first rest ih =>
    rw [insertSorted]
    cases order : compare name first with
    | lt => simp
    | eq => simp [eq_of_compare_eq order]
    | gt =>
      simp only [List.mem_cons,ih]
      tauto
theorem insertSorted_pairwise (name : Text) {names : List Text} (sorted : names.Pairwise fun s t => compare s t = .lt) :
    (insertSorted name names).Pairwise fun s t => compare s t = .lt := by
  induction names with
  | nil => exact List.pairwise_singleton _ _
  | cons first rest ih =>
    rw [insertSorted]
    obtain ⟨least,later⟩ := List.pairwise_cons.mp sorted
    split
    · rename_i less
      refine List.pairwise_cons.mpr ⟨fun other member => ?_,sorted⟩
      rcases List.mem_cons.mp member with rfl | inside
      · exact less
      · exact compare_lt_trans less (least other inside)
    · exact sorted
    · rename_i greater
      refine List.pairwise_cons.mpr ⟨fun other member => ?_,ih later⟩
      rcases mem_insertSorted_iff.mp member with rfl | inside
      · exact lt_of_compare_gt greater
      · exact least other inside
theorem mem_sortDistinct_iff {name : Text} {names : List Text} : name ∈ sortDistinct names ↔ name ∈ names := by
  induction names with
  | nil => exact Iff.rfl
  | cons first rest ih =>
    rw [List.mem_cons,← ih]
    exact mem_insertSorted_iff
theorem sortDistinct_pairwise (names : List Text) : (sortDistinct names).Pairwise fun s t => compare s t = .lt := by
  induction names with
  | nil => exact .nil
  | cons name rest ih => exact insertSorted_pairwise name ih
/-- Each name is listed once. -/
theorem sortDistinct_nodup (names : List Text) : (sortDistinct names).Nodup := by
  refine (sortDistinct_pairwise names).imp (fun {s t} less same => ?_)
  rw [same,compare_self] at less
  cases less

/-! ### Names in the order of first sight -/

theorem eraseDups_snoc (names : List Text) (name : Text) :
    (names ++ [name]).eraseDups = names.eraseDups ++ if name ∈ names then [] else [name] := by
  rw [List.eraseDups_append]
  by_cases member : name ∈ names <;> simp [List.removeAll,List.eraseDups_cons,member]
theorem eraseDups_of_nodup {names : List Text} (distinct : names.Nodup) : names.eraseDups = names := by
  induction names using List.reverseRecOn with
  | nil => rfl
  | append_singleton names name ih =>
    obtain ⟨early,_,apart⟩ := List.nodup_append.mp distinct
    have new : name ∉ names := fun member => apart name member name List.mem_cons_self rfl
    rw [eraseDups_snoc,ih early,if_neg new]
theorem nodup_eraseDups (names : List Text) : names.eraseDups.Nodup := by
  induction names using List.reverseRecOn with
  | nil => exact List.nodup_nil
  | append_singleton names name ih =>
    rw [eraseDups_snoc]
    by_cases member : name ∈ names
    · simpa [member] using ih
    · simp only [member,if_false,List.nodup_append,List.mem_eraseDups]
      refine ⟨ih,List.nodup_singleton _,?_⟩
      rintro other inside _ single rfl
      exact member (List.mem_singleton.mp single ▸ inside)

end Text

namespace Table
variable {α : Type}

theorem get?_set (table : Table α) (name key : Text) (value : α) :
    (table.set name value).get? key = if key = name then some value else table.get? key := by
  induction table with
  | nil => simp only [set,get?,eq_comm]
  | cons entry rest ih =>
    obtain ⟨first,old⟩ := entry
    by_cases same : first = name
    · subst same
      by_cases asked : key = first <;> simp [set,get?,asked,eq_comm]
    · by_cases asked : first = key
      · subst asked
        simp [set,get?,same]
      · simp [set,get?,same,asked,ih]
theorem contains_set (table : Table α) (name key : Text) (value : α) :
    (table.set name value).contains key = (decide (key = name) || table.contains key) := by
  by_cases same : key = name <;> simp [contains,get?_set,same]
theorem get?_eq_none_iff {table : Table α} {name : Text} : table.get? name = none ↔ name ∉ table.names := by
  induction table with
  | nil => simp [get?,names]
  | cons entry rest ih =>
    obtain ⟨key,value⟩ := entry
    by_cases same : key = name
    · simp [get?,names,same]
    · simpa [get?,names,same,Ne.symm same] using ih
theorem mem_of_get? {table : Table α} {name : Text} {value : α} (found : table.get? name = some value) :
    (name,value) ∈ table := by
  induction table with
  | nil => cases found
  | cons entry rest ih =>
    obtain ⟨key,old⟩ := entry
    by_cases same : key = name
    · simp_all [get?]
    · exact List.mem_cons_of_mem _ (ih (by simpa [get?,same] using found))
theorem get?_of_mem {table : Table α} (distinct : table.names.Nodup) {name : Text} {value : α}
    (member : (name,value) ∈ table) : table.get? name = some value := by
  induction table with
  | nil => cases member
  | cons entry rest ih =>
    obtain ⟨key,old⟩ := entry
    simp only [names,List.map_cons,List.nodup_cons] at distinct
    rcases List.mem_cons.mp member with here | later
    · cases here
      simp [get?]
    · have elsewhere : key ≠ name := fun same => distinct.1 (same ▸ List.mem_map_of_mem later)
      simpa [get?,elsewhere] using ih distinct.2 later
theorem set_of_none {table : Table α} {name : Text} (absent : table.get? name = none) (value : α) :
    table.set name value = table ++ [(name,value)] := by
  induction table with
  | nil => rfl
  | cons entry rest ih =>
    obtain ⟨key,old⟩ := entry
    by_cases same : key = name
    · simp [get?,same] at absent
    · simp [set,same,ih (by simpa [get?,same] using absent)]
theorem get?_append (table more : Table α) (name : Text) : get? name (table ++ more) = (table.get? name).or (more.get? name) := by
  induction table with
  | nil => rfl
  | cons entry rest ih =>
    obtain ⟨key,old⟩ := entry
    by_cases same : key = name
    · simp [get?,same]
    · simpa [get?,same] using ih

end Table

namespace Environment

@[simp] theorem lookup?_empty (name : Text) : empty.lookup? name = none := rfl
theorem lookup?_bind (env : Environment) (name key : Text) (value : Value) (levity : Levity) :
    (env.bind name value levity).lookup? key =
      if key = name then some ⟨value,levity⟩ else env.lookup? key :=
  Table.get?_set env name key ⟨value,levity⟩

end Environment

/-- The fault is about a name that the target cannot carry. -/
def Fault.Misnamed (fault : Fault) : Prop :=
  ∃ name error, Identifier.error? name = some error ∧ fault = .program error

theorem Build.identifier_meets (name : Text) (f : Frame) :
    Attempt.Meets (identifier name) f (fun base after => base = name ∧ after = f)
      (fun fault after => fault.Misnamed ∧ after = f) := by
  unfold identifier
  split
  · rename_i error found
    exact .of_error rfl ⟨⟨name,error,found,rfl⟩,rfl⟩
  · exact .of_run rfl ⟨rfl,rfl⟩

namespace NameScope

theorem numbered_injective (base : Text) {m n : Nat} (same : numbered base m = numbered base n) : m = n := by
  have digits : Text.ofNat m = Text.ofNat n := by simpa [numbered] using same
  have chars : Nat.toDigits 10 m = Nat.toDigits 10 n :=
    List.map_injective_iff.mpr (fun _ _ equal => by cases equal; rfl) digits
  rw [← Nat.ofDigitChars_ten_toDigits (n := m),chars,Nat.ofDigitChars_ten_toDigits]

/-- If the search ends at a name in use, every name it could have tried is in use. -/
theorem used_of_firstFree (used : List Text) (base : Text) (fuel number : Nat)
    (taken : numbered base (firstFree used base fuel number) ∈ used) :
    ∀ k, number ≤ k → k ≤ number + fuel → numbered base k ∈ used := by
  induction fuel generalizing number with
  | zero =>
    intro k low high
    have : k = number := by omega
    subst this
    exact taken
  | succ fuel ih =>
    intro k low high
    by_cases first : numbered base number ∈ used
    · rw [firstFree,if_pos (List.contains_iff_mem.mpr first)] at taken
      rcases Nat.eq_or_lt_of_le low with rfl | later
      · exact first
      · exact ih (number+1) taken k later (by omega)
    · rw [firstFree,if_neg (fun found => first (List.contains_iff_mem.mp found))] at taken
      exact absurd taken first

/-- One more number is tried than there are names in use, so the search ends at a free name. -/
theorem firstFree_free (used : List Text) (base : Text) (number : Nat) :
    numbered base (firstFree used base used.length number) ∉ used := by
  intro taken
  have all := used_of_firstFree used base used.length number taken
  have distinct : ((List.range' number (used.length+1)).map (numbered base)).Nodup :=
    List.Nodup.map (fun _ _ => numbered_injective base) List.nodup_range'
  have inside : (List.range' number (used.length+1)).map (numbered base) ⊆ used := by
    intro name member
    obtain ⟨k,range,rfl⟩ := List.mem_map.mp member
    obtain ⟨low,high⟩ := List.mem_range'_1.mp range
    exact all k low (by omega)
  have short := (List.subperm_of_subset distinct inside).length_le
  simp only [List.length_map,List.length_range'] at short
  omega

/-- A name that is handed out is new. -/
theorem register_fresh (scope : NameScope) (base : Text) : (scope.register base).1 ∉ scope.used := by
  by_cases taken : base ∈ scope.used
  · simpa [register,taken] using firstFree_free scope.used base _
  · simp [register,taken]
@[simp] theorem register_used (scope : NameScope) (base : Text) :
    (scope.register base).2.used = (scope.register base).1 :: scope.used := by
  by_cases taken : base ∈ scope.used <;> simp [register,taken]

end NameScope

end Lev
