import Lev.Syntax.Load
import Mathlib.Algebra.Group.Nat.Defs
import Mathlib.Data.List.Infix
import Mathlib.Data.List.TakeWhile
import Mathlib.Tactic.Common

/-!
What a JSON text leaves for the rest of its reading: every reader leaves an end of the text it was
given. So an integer that is too long to be read stands in the text, digit by digit. What is read can be
printed again: the limits on the digits of an integer are the same.
-/
namespace Lev.Json

/-! ### Values that can be printed -/

theorem digitBound_eq : digitBound = 10 ^ digitLimit := by
  unfold digitBound
  generalize digitLimit = limit
  rfl
theorem isPrintable_int {n : Int} : (Json.int n).isPrintable = true ↔ n.natAbs < digitBound := by
  rw [isPrintable,decide_eq_true_iff]
theorem arePrintable_iff {items : List Json} : arePrintable items = true ↔ ∀ v ∈ items, v.isPrintable = true := by
  induction items with
  | nil => simp [arePrintable]
  | cons item rest ih => simp [arePrintable,ih]
theorem membersPrintable_iff {members : List (Text × Json)} :
    membersPrintable members = true ↔ ∀ entry ∈ members, entry.2.isPrintable = true := by
  induction members with
  | nil => simp [membersPrintable]
  | cons entry rest ih => simp [membersPrintable,ih]
theorem membersPrintable_set {members : Table Json} (printable : membersPrintable members = true) (name : Text) {v : Json}
    (good : v.isPrintable = true) : membersPrintable (members.set name v) = true := by
  induction members with
  | nil => simp [Table.set,membersPrintable,good]
  | cons entry rest ih =>
    obtain ⟨key,old⟩ := entry
    simp only [membersPrintable,Bool.and_eq_true] at printable
    rw [Table.set]
    split
    · simp [membersPrintable,good,printable.2]
    · simp [membersPrintable,printable.1,ih printable.2]

namespace Reader

theorem digit?_lt {c : CodePoint} {d : Nat} (found : digit? c = some d) : d < 10 := by
  unfold digit? at found
  split at found
  · rename_i c
    split at found
    · rename_i isDigit
      cases found
      simp only [Char.isDigit,Bool.and_eq_true,decide_eq_true_iff,ge_iff_le,UInt32.le_iff_toNat_le] at isDigit
      have bounds : 48 ≤ c.toNat ∧ c.toNat ≤ 57 := isDigit
      have zero : '0'.toNat = 48 := rfl
      omega
    · cases found
  · cases found
theorem spelled_lt {ds : List Nat} (digits : ∀ d ∈ ds, d < 10) : spelled ds < 10 ^ ds.length := by
  have general : ∀ n, ds.foldl (fun n d => n * 10 + d) n < (n + 1) * 10 ^ ds.length := by
    induction ds with
    | nil => simp
    | cons d rest ih =>
      intro n
      have first := digits d List.mem_cons_self
      have later := ih (fun e member => digits e (List.mem_cons_of_mem d member)) (n * 10 + d)
      rw [List.foldl_cons,List.length_cons,Nat.pow_succ]
      calc _ < (n * 10 + d + 1) * 10 ^ rest.length := later
        _ ≤ ((n + 1) * 10) * 10 ^ rest.length := Nat.mul_le_mul_right _ (by omega)
        _ = (n + 1) * (10 ^ rest.length * 10) := by rw [Nat.mul_assoc,Nat.mul_comm 10]
  simpa [spelled] using general 0

/-- The text has that many digits in a row, more than an integer may have. -/
def LongRun (t : Text) (count : Nat) : Prop :=
  digitLimit < count ∧ ∃ run, run <:+: t ∧ run.length = count ∧ ∀ c ∈ run, (digit? c).isSome

/-- What is read is as told, and an integer is too long only if the text has that many digits in a row. -/
def Within {α : Type} (t : Text) (good : α → Prop) : Except Stop α → Prop
  | .ok a => good a
  | .error (.oversizedInteger count) => LongRun t count
  | .error (.at _ _) => True

/-- What is left is an end of the text. -/
def Leaves {α : Type} (t : Text) (read : Read α) : Prop := read.rest <:+ t

/-- What is left is an end of the text, and the value is as told. -/
def Gives {α : Type} (t : Text) (good : α → Prop) (read : Read α) : Prop := Leaves t read ∧ good read.value

section
variable {α β : Type} {t t' : Text} {good : α → Prop}

theorem LongRun.of_suffix {count : Nat} (long : LongRun t' count) (suffix : t' <:+ t) : LongRun t count := by
  obtain ⟨limit,run,inside,rest⟩ := long
  exact ⟨limit,run,inside.trans suffix.isInfix,rest⟩
theorem Within.bind {good' : β → Prop} {first : Except Stop α} {next : α → Except Stop β} (within : Within t good first)
    (rest : ∀ a, good a → Within t good' (next a)) : Within t good' (first >>= next) := by
  cases first with
  | ok a => exact rest a within
  | error stop =>
    cases stop with
    | «at» _ _ => trivial
    | oversizedInteger _ => exact within
theorem Within.of_suffix {result : Except Stop α} {good' : α → Prop} (within : Within t' good' result) (suffix : t' <:+ t)
    (implies : ∀ a, good' a → good a) : Within t good result := by
  cases result with
  | ok a => exact implies a within
  | error stop =>
    cases stop with
    | «at» _ _ => trivial
    | oversizedInteger _ => exact LongRun.of_suffix within suffix

theorem skipBlanks_suffix (offset : Nat) (t : Text) : (skipBlanks offset t).2 <:+ t := by
  induction t generalizing offset with
  | nil => exact List.suffix_rfl
  | cons c rest ih =>
    rw [skipBlanks]
    split
    · exact (ih _).trans (List.suffix_cons c rest)
    · exact List.suffix_rfl
theorem fourDigits?_suffix {n : Nat} (found : fourDigits? t = some (n,t')) : t' <:+ t := by
  unfold fourDigits? at found
  split at found
  · rename_i a b c d next rest
    simp only [bind,Option.bind_eq_some_iff] at found
    obtain ⟨_,_,_,_,_,_,_,_,same⟩ := found
    cases same
    exact ⟨[a,b,c,d],rfl⟩
  · cases found
theorem pairedEscape?_within (first offset : Nat) (t : Text) :
    Within t (fun found => ∀ second after, found = some (second,after) → after <:+ t) (pairedEscape? first offset t) := by
  unfold pairedEscape?
  split
  · rename_i a b rest
    split
    · split
      · trivial
      · rename_i second after found
        intro second' after' same
        split at same
        · cases same
          exact (fourDigits?_suffix found).trans ⟨[a,b],rfl⟩
        · cases same
    · intro _ _ same
      cases same
  · intro _ _ same
    cases same

theorem string_within (start fuel offset : Nat) (t : Text) : Within t (Leaves t) (string start fuel offset t) := by
  induction fuel generalizing offset t with
  | zero => trivial
  | succ fuel ih =>
    cases t with
    | nil => trivial
    | cons c rest =>
      have later {after : Text} (offset : Nat) (suffix : after <:+ c :: rest) (change : Text → Text) :
          Within (c :: rest) (Leaves (c :: rest))
            (string start fuel offset after >>= fun more => .ok { more with value := change more.value }) :=
        ((ih offset after).of_suffix suffix fun _ left => left.trans suffix).bind fun _ left => left
      rw [string.eq_def]
      dsimp only
      split_ifs with quote escape control
      · exact List.suffix_cons c rest
      · cases rest with
        | nil => trivial
        | cons e rest =>
          dsimp only
          split_ifs with unicode
          · cases digits : fourDigits? rest with
            | none => trivial
            | some found =>
              obtain ⟨first,after⟩ := found
              have suffix : after <:+ c :: e :: rest := (fourDigits?_suffix digits).trans ⟨[c,e],rfl⟩
              refine ((pairedEscape?_within first (offset + 6) after).of_suffix suffix fun _ paired => paired).bind ?_
              intro found paired
              cases found with
              | none => exact later _ suffix _
              | some pair => exact later _ ((paired pair.1 pair.2 rfl).trans suffix) _
          · cases escaped? e with
            | none => trivial
            | some point => exact later _ ⟨[c,e],rfl⟩ _
      · trivial
      · exact later _ (List.suffix_cons c rest) _
theorem digits_suffix (t : Text) : (digits t).2 <:+ t := List.dropWhile_suffix _
theorem digits_run (t : Text) (long : digitLimit < (digits t).1.length) : LongRun t (digits t).1.length := by
  refine ⟨long,_,(List.takeWhile_prefix fun c => (digit? c).isSome).isInfix,?_,fun c => List.mem_takeWhile_imp⟩
  exact (List.filterMap_length_eq_length.mpr fun c => List.mem_takeWhile_imp).symm
theorem digits_lt (t : Text) : ∀ d ∈ (digits t).1, d < 10 := by
  intro d member
  obtain ⟨c,_,found⟩ := List.mem_filterMap.mp member
  exact digit?_lt found
theorem whole?_run {ds : List Nat} (found : whole? t = some (ds,t')) :
    t' <:+ t ∧ (digitLimit < ds.length → LongRun t ds.length) ∧ ∀ d ∈ ds, d < 10 := by
  unfold whole? at found
  split at found
  · cases found
  · split at found
    · cases found
    · cases found
      exact ⟨List.suffix_cons _ _,fun long => absurd long (by decide),by simp⟩
    · cases found
      exact ⟨digits_suffix (_ :: _),digits_run (_ :: _),digits_lt (_ :: _)⟩
/-- An integer with no more digits than the limit allows can be printed. -/
theorem isPrintable_spelled {ds : List Nat} (digits : ∀ d ∈ ds, d < 10) (short : ¬ digitLimit < ds.length) (negative : Bool) :
    (Json.int (if negative then -Int.ofNat (spelled ds) else Int.ofNat (spelled ds))).isPrintable = true := by
  have less : spelled ds < digitBound := by
    rw [digitBound_eq]
    exact Nat.lt_of_lt_of_le (spelled_lt digits) (Nat.pow_le_pow_right (by decide) (Nat.le_of_not_lt short))
  rw [isPrintable_int]
  cases negative <;> simpa using less
theorem fraction?_suffix {ds : List Nat} (found : fraction? t = some (ds,t')) : t' <:+ t := by
  unfold fraction? at found
  split at found
  · cases found
  · rename_i c rest
    split at found
    · split at found
      · cases found
      · cases found
        exact (digits_suffix rest).trans (List.suffix_cons c rest)
    · cases found
theorem exponent?_suffix {n : Int} (found : exponent? t = some (n,t')) : t' <:+ t := by
  unfold exponent? at found
  split at found
  · cases found
  · rename_i c rest
    split at found
    · split at found
      rename_i negative unsigned sign
      have suffix : unsigned <:+ rest := by
        split at sign
        · split_ifs at sign <;> cases sign
          · exact List.suffix_cons _ _
          · exact List.suffix_cons _ _
          · exact List.suffix_rfl
        · cases sign
          exact List.suffix_rfl
      split at found
      · cases found
      · rename_i ds after _ digits
        cases found
        have left := digits_suffix unsigned
        rw [digits] at left
        exact (left.trans suffix).trans (List.suffix_cons c rest)
    · cases found
theorem getD_suffix {found : Option (α × Text)} (suffix : ∀ a t', found = some (a,t') → t' <:+ t) :
    (found.map (·.2)).getD t <:+ t := by
  cases found with
  | none => exact List.suffix_rfl
  | some pair => exact suffix _ _ rfl
theorem number?_within {result : Except Stop Json} (found : number? t = some (result,t')) :
    t' <:+ t ∧ Within t (fun v => v.isPrintable = true) result := by
  unfold number? at found
  split at found
  rename_i negative unsigned sign
  split at found
  · cases found
  · rename_i whole rest digits
    have suffix : unsigned <:+ t := by
      split at sign
      · split_ifs at sign <;> cases sign
        · exact List.suffix_cons _ _
        · exact List.suffix_rfl
      · cases sign
        exact List.suffix_rfl
    obtain ⟨left,long,small⟩ := whole?_run digits
    have leaves : ((exponent? (((fraction? rest).map (·.2)).getD rest)).map (·.2)).getD (((fraction? rest).map (·.2)).getD rest) <:+ t :=
      (getD_suffix fun _ _ => exponent?_suffix).trans ((getD_suffix fun _ _ => fraction?_suffix).trans (left.trans suffix))
    dsimp only at found
    split at found
    · cases found
      exact ⟨leaves,rfl⟩
    · split at found
      · rename_i limit
        cases found
        exact ⟨leaves,(long limit).of_suffix suffix⟩
      · rename_i short
        cases found
        exact ⟨leaves,isPrintable_spelled small short negative⟩
theorem words_printable : ∀ entry ∈ words, entry.2.isPrintable = true := by
  simp [words,isPrintable]
theorem scalar_within (offset : Nat) (t : Text) : Within t (Gives t fun v => v.isPrintable = true) (scalar offset t) := by
  unfold scalar
  split
  · rename_i word value found
    exact ⟨List.drop_suffix _ _,words_printable _ (List.mem_of_find?_eq_some found)⟩
  · split
    · trivial
    · rename_i value rest found
      obtain ⟨suffix,within⟩ := number?_within found
      exact within.bind fun _ printable => ⟨suffix,printable⟩

/-- The readers of values, of items and of members leave an end of the text, and what they give can be printed. -/
structure Sound (fuel : Nat) : Prop where
  value : ∀ offset t, Within t (Gives t fun v => v.isPrintable = true) (value fuel offset t)
  items : ∀ offset t, Within t (Gives t fun vs => arePrintable vs = true) (items fuel offset t)
  members : ∀ offset t before, membersPrintable before = true →
    Within t (Gives t fun vs => membersPrintable vs = true) (members fuel offset t before)

variable {fuel : Nat}

/-- A reader that starts at an end of the text. -/
theorem Within.later {result : Except Stop (Read α)} (within : Within t' (Gives t' good) result) (suffix : t' <:+ t) :
    Within t (Gives t good) result :=
  within.of_suffix suffix fun _ gives => ⟨gives.1.trans suffix,gives.2⟩

theorem Sound.value_succ (sound : Sound fuel) (offset : Nat) (t : Text) :
    Within t (Gives t fun v => v.isPrintable = true) (Reader.value (fuel + 1) offset t) := by
  cases t with
  | nil => trivial
  | cons c rest =>
    have tail := List.suffix_cons c rest
    have blanks := (skipBlanks_suffix (offset + 1) rest).trans tail
    rw [Reader.value.eq_def]
    dsimp only
    split_ifs with quote brace bracket
    · exact ((string_within _ _ _ rest).of_suffix tail fun _ left => left.trans tail).bind fun _ left => ⟨left,rfl⟩
    · split
      · trivial
      · rename_i d after skipped
        rw [skipped] at blanks
        split_ifs with close
        · exact ⟨(List.suffix_cons d after).trans blanks,rfl⟩
        · exact ((sound.members _ _ _ rfl).later blanks).bind fun _ gives => gives
    · split
      · trivial
      · rename_i d after skipped
        rw [skipped] at blanks
        split_ifs with close
        · exact ⟨(List.suffix_cons d after).trans blanks,rfl⟩
        · exact ((sound.items _ _).later blanks).bind fun _ gives => gives
    · exact scalar_within _ _
theorem Sound.items_succ (sound : Sound fuel) (offset : Nat) (t : Text) :
    Within t (Gives t fun vs => arePrintable vs = true) (Reader.items (fuel + 1) offset t) := by
  rw [Reader.items]
  refine (sound.value offset t).bind (fun first gives => ?_)
  obtain ⟨left,printable⟩ := gives
  have blanks := (skipBlanks_suffix first.offset first.rest).trans left
  dsimp only
  split
  · trivial
  · rename_i c rest skipped
    rw [skipped] at blanks
    have tail := (List.suffix_cons c rest).trans blanks
    split_ifs with close comma
    · exact ⟨tail,by simp [arePrintable,printable]⟩
    · refine ((sound.items _ _).later ((skipBlanks_suffix _ rest).trans tail)).bind fun _ gives => ?_
      exact ⟨gives.1,by simp [arePrintable,printable,gives.2]⟩
    · trivial
theorem Sound.members_succ (sound : Sound fuel) (offset : Nat) (t : Text) (before : Table Json)
    (printable : membersPrintable before = true) :
    Within t (Gives t fun vs => membersPrintable vs = true) (Reader.members (fuel + 1) offset t before) := by
  cases t with
  | nil => trivial
  | cons c rest =>
    have tail := List.suffix_cons c rest
    rw [Reader.members.eq_def]
    dsimp only
    split_ifs with quote
    · refine ((string_within _ _ _ rest).of_suffix tail fun _ left => left.trans tail).bind (fun name left => ?_)
      have blanks := (skipBlanks_suffix name.offset name.rest).trans left
      split
      · trivial
      · rename_i d after skipped
        rw [skipped] at blanks
        have tail := (skipBlanks_suffix ((skipBlanks name.offset name.rest).1 + 1) after).trans ((List.suffix_cons d after).trans blanks)
        split_ifs with colon
        · refine ((sound.value _ _).later tail).bind (fun member gives => ?_)
          obtain ⟨left,good⟩ := gives
          have more := membersPrintable_set printable name.value good
          have blanks := (skipBlanks_suffix member.offset member.rest).trans left
          split
          · trivial
          · rename_i d after skipped
            rw [skipped] at blanks
            have tail := (List.suffix_cons d after).trans blanks
            split_ifs with close comma
            · exact ⟨tail,more⟩
            · exact (sound.members _ _ _ more).later ((skipBlanks_suffix _ after).trans tail)
            · trivial
        · trivial
    · trivial
theorem sound (fuel : Nat) : Sound fuel := by
  induction fuel with
  | zero => exact ⟨fun _ _ => trivial,fun _ _ => trivial,fun _ _ _ _ => trivial⟩
  | succ fuel ih => exact ⟨ih.value_succ,ih.items_succ,ih.members_succ⟩
theorem document_within (t : Text) : Within t (fun v => v.isPrintable = true) (document t) := by
  unfold document
  split_ifs
  · trivial
  · have blanks := skipBlanks_suffix 0 t
    refine (((sound _).value _ _).later blanks).bind (fun read gives => ?_)
    dsimp only
    split_ifs
    · exact gives.2
    · trivial
end

end Reader

/-- An integer is too long to be read only if the text has that many digits in a row. -/
theorem read_oversized {t : Text} {digits : Nat} (failed : read t = .error (.oversizedInteger digits)) :
    Reader.LongRun t digits := by
  have within := Reader.document_within t
  unfold read at failed
  cases result : Reader.document t with
  | ok d => simp [result,Except.mapError] at failed
  | error stop =>
    rw [result] at failed within
    cases stop with
    | «at» problem offset => simp [Except.mapError,Reader.Stop.located] at failed
    | oversizedInteger count =>
      simp only [Except.mapError,Reader.Stop.located,Except.error.injEq,ReadError.oversizedInteger.injEq] at failed
      exact failed ▸ within
/-- What is read can be printed. -/
theorem isPrintable_of_read {t : Text} {d : Json} (done : read t = .ok d) : d.isPrintable = true := by
  have within := Reader.document_within t
  unfold read at done
  cases result : Reader.document t with
  | ok v =>
    rw [result] at done within
    cases done
    exact within
  | error stop =>
    rw [result] at done
    cases done

end Lev.Json
