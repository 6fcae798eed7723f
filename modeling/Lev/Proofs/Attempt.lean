import Lev.Attempt
import Mathlib.Tactic.Common

/-!
What computations on a state guarantee. `Meets` says where a computation leads from one state, on
success and on failure; it is composed along the steps of the computation.
-/
namespace Lev.Attempt
variable {σ α β : Type}

/-- From the state, the computation succeeds as `post` allows or fails as `failed` allows. -/
def Meets (m : Attempt σ α) (state : σ) (post : α → σ → Prop) (failed : Fault → σ → Prop) : Prop :=
  match m state with
  | (.ok a,after) => post a after
  | (.error fault,after) => failed fault after

/-- The result is one that `good` allows, or a fault that `bad` allows. -/
def Allows (good : α → Prop) (bad : Fault → Prop) : Except Fault α → Prop
  | .ok a => good a
  | .error fault => bad fault

variable {m : Attempt σ α} {next : α → Attempt σ β} {state : σ}
variable {post : α → σ → Prop} {failed : Fault → σ → Prop}

theorem bind_run (m : Attempt σ α) (next : α → Attempt σ β) (state : σ) :
    (m >>= next) state = match m state with
      | (.ok a,after) => next a after
      | (.error fault,after) => (.error fault,after) := rfl
@[simp] theorem pure_run (a : α) (state : σ) : (Pure.pure a : Attempt σ α) state = (.ok a,state) := rfl
@[simp] theorem read_run (view : σ → α) (state : σ) : read view state = (.ok (view state),state) := rfl

/-- A step that succeeds hands its result and its state on. -/
theorem bind_run_ok {a : α} {after : σ} (first : m state = (.ok a,after)) :
    (m >>= next) state = next a after := by
  rw [bind_run,first]
/-- A step that fails is the last one. -/
theorem bind_run_error {fault : Fault} {after : σ} (first : m state = (.error fault,after)) :
    (m >>= next) state = (.error fault,after) := by
  rw [bind_run,first]
/-- A sequence succeeds if both of its parts do. -/
theorem bind_eq_ok {b : β} {last : σ} :
    (m >>= next) state = (.ok b,last) ↔ ∃ a after, m state = (.ok a,after) ∧ next a after = (.ok b,last) := by
  rw [bind_run]
  constructor
  · intro run
    split at run
    · exact ⟨_,_,‹_›,run⟩
    · cases run
  · rintro ⟨a,after,first,rest⟩
    rw [first]
    exact rest

theorem meets_bind {post : β → σ → Prop} :
    Meets (m >>= next) state post failed ↔ Meets m state (fun a after => Meets (next a) after post failed) failed := by
  unfold Meets
  rw [bind_run]
  rcases m state with ⟨_ | a,after⟩ <;> rfl
theorem Meets.mono (meets : Meets m state post failed) {post' : α → σ → Prop} {failed' : Fault → σ → Prop}
    (onSuccess : ∀ a after, post a after → post' a after)
    (onFailure : ∀ fault after, failed fault after → failed' fault after) : Meets m state post' failed' := by
  unfold Meets at meets ⊢
  split at meets
  · exact onSuccess _ _ meets
  · exact onFailure _ _ meets
theorem Meets.and (meets : Meets m state post failed) {post' : α → σ → Prop} {failed' : Fault → σ → Prop}
    (meets' : Meets m state post' failed') :
    Meets m state (fun a after => post a after ∧ post' a after) (fun fault after => failed fault after ∧ failed' fault after) := by
  unfold Meets at meets meets' ⊢
  rcases run : m state with ⟨_ | a,after⟩
  · rw [run] at meets meets'
    exact ⟨meets,meets'⟩
  · rw [run] at meets meets'
    exact ⟨meets,meets'⟩
/-- What follows a step only has to start where the step can lead. -/
theorem Meets.bind {post : β → σ → Prop} {mid : α → σ → Prop} {stopped : Fault → σ → Prop}
    (first : Meets m state mid stopped) (rest : ∀ a after, mid a after → Meets (next a) after post failed)
    (stop : ∀ fault after, stopped fault after → failed fault after) :
    Meets (m >>= next) state post failed :=
  meets_bind.mpr (first.mono rest stop)
theorem Meets.andThen {post : β → σ → Prop} {mid : α → σ → Prop} (first : Meets m state mid failed)
    (rest : ∀ a after, mid a after → Meets (next a) after post failed) : Meets (m >>= next) state post failed :=
  first.bind rest (fun _ _ holds => holds)
theorem Meets.run_then {post : β → σ → Prop} {a : α} {after : σ} (first : m state = (.ok a,after))
    (rest : Meets (next a) after post failed) : Meets (m >>= next) state post failed := by
  unfold Meets
  rw [bind_run_ok first]
  exact rest
/-- A step that succeeds may lead anywhere if what follows it can start anywhere. -/
theorem Meets.whatever {post : β → σ → Prop} {a : α} {after : σ} (first : m state = (.ok a,after))
    (rest : ∀ a after, Meets (next a) after post failed) : Meets (m >>= next) state post failed :=
  .run_then first (rest a after)
/-- Only the outcome matters. -/
theorem Meets.congr {m' : Attempt σ α} {state' : σ} (same : m state = m' state') (meets : Meets m' state' post failed) :
    Meets m state post failed := by
  unfold Meets at meets ⊢
  rw [same]
  exact meets
theorem Meets.of_run {a : α} {after : σ} (run : m state = (.ok a,after)) (holds : post a after) :
    Meets m state post failed := by
  unfold Meets
  rw [run]
  exact holds
theorem Meets.of_error {fault : Fault} {after : σ} (run : m state = (.error fault,after))
    (holds : failed fault after) : Meets m state post failed := by
  unfold Meets
  rw [run]
  exact holds
theorem Meets.ok (meets : Meets m state post failed) {a : α} {after : σ} (run : m state = (.ok a,after)) :
    post a after := by
  unfold Meets at meets
  rw [run] at meets
  exact meets
theorem Meets.error (meets : Meets m state post failed) {fault : Fault} {after : σ}
    (run : m state = (.error fault,after)) : failed fault after := by
  unfold Meets at meets
  rw [run] at meets
  exact meets
/-- The computation does what it does. -/
theorem meets_run (m : Attempt σ α) (state : σ) :
    Meets m state (fun a after => m state = (.ok a,after)) (fun fault after => m state = (.error fault,after)) := by
  rcases run : m state with ⟨fault | a,after⟩
  · exact .of_error run rfl
  · exact .of_run run rfl

/-- The computation keeps an invariant of the state, also where it fails, and what it gives on success is good. -/
def Maintains (inv : σ → Prop) (m : Attempt σ α) (good : α → Prop) : Prop :=
  ∀ state, inv state → Meets m state (fun a after => inv after ∧ good a) (fun _ after => inv after)

section
variable {inv : σ → Prop} {good : α → Prop} {better : β → Prop}

theorem Maintains.pure {a : α} (holds : good a) : Maintains inv (Pure.pure a) good :=
  fun _ kept => .of_run rfl ⟨kept,holds⟩
theorem Maintains.fail (fault : Fault) : Maintains inv (Attempt.fail fault) good := fun _ kept => .of_error rfl kept
theorem Maintains.ofExcept {result : Except Fault α} (holds : ∀ a, result = .ok a → good a) : Maintains inv (ofExcept result) good := by
  intro state kept
  cases result with
  | ok a => exact .of_run rfl ⟨kept,holds a rfl⟩
  | error fault => exact .of_error rfl kept
theorem Maintains.bind (first : Maintains inv m good) (rest : ∀ a, good a → Maintains inv (next a) better) :
    Maintains inv (m >>= next) better :=
  fun state kept => (first state kept).andThen fun a after holds => rest a holds.2 after holds.1
theorem Maintains.andThen (first : Maintains inv m fun _ => True) (rest : ∀ a, Maintains inv (next a) better) :
    Maintains inv (m >>= next) better :=
  first.bind fun a _ => rest a
/-- Nothing is asked of the result. -/
theorem Maintains.of_state (kept : ∀ state, inv state → inv (m state).2) : Maintains inv m fun _ => True := by
  intro state holds
  have later := kept state holds
  rcases run : m state with ⟨fault | a,after⟩
  · rw [run] at later
    exact .of_error run later
  · rw [run] at later
    exact .of_run run ⟨later,trivial⟩
theorem Maintains.kept (maintains : Maintains inv m good) {state : σ} (holds : inv state) : inv (m state).2 := by
  have meets := maintains state holds
  rcases run : m state with ⟨fault | a,after⟩
  · exact meets.error run
  · exact (meets.ok run).1

end

theorem eq_ok_of_isOk {result : Except Fault Unit} (done : result.isOk = true) : result = .ok () := by
  cases result with
  | ok _ => rfl
  | error _ => cases done
theorem eq_ok_of_toOption {result : Except Fault α} {a : α} (done : result.toOption = some a) : result = .ok a := by
  cases result with
  | ok b => exact congrArg Except.ok (Option.some.inj done)
  | error _ => cases done
theorem run_of_fst {a : α} (done : (m state).1 = .ok a) : m state = (.ok a,(m state).2) := Prod.ext done rfl
theorem meets_iff_allows {good : α → Prop} {bad : Fault → Prop} :
    Meets m state (fun a _ => good a) (fun fault _ => bad fault) ↔ Allows good bad (m state).1 := by
  unfold Meets
  rcases m state with ⟨_ | a,after⟩ <;> rfl

theorem ofExcept_bind (result : Except Fault α) (next : α → Except Fault β) :
    (ofExcept (result >>= next) : Attempt σ β) = ofExcept result >>= fun a => ofExcept (next a) := by
  funext state
  cases result <;> rfl

/-- From every state, both computations lead to the same state, and both fail alike or succeed with related results. -/
def Alike (same : α → β → Prop) (m : Attempt σ α) (m' : Attempt σ β) : Prop :=
  ∀ state, (∃ a b after, m state = (.ok a,after) ∧ m' state = (.ok b,after) ∧ same a b) ∨
    ∃ fault after, m state = (.error fault,after) ∧ m' state = (.error fault,after)

section
variable {γ δ : Type} {m' : Attempt σ γ} {next' : γ → Attempt σ δ} {same : α → γ → Prop} {same' : β → δ → Prop}

theorem Alike.pure {a : α} {c : γ} (related : same a c) : Alike same (Pure.pure a : Attempt σ α) (Pure.pure c) :=
  fun state => .inl ⟨a,c,state,rfl,rfl,related⟩
theorem Alike.fail (fault : Fault) : Alike same (Attempt.fail fault : Attempt σ α) (Attempt.fail fault) :=
  fun state => .inr ⟨fault,state,rfl,rfl⟩
theorem Alike.reject (error : ProgramError) : Alike same (Attempt.reject error : Attempt σ α) (Attempt.reject error) :=
  .fail (.program error)
theorem Alike.of_eq {m' : Attempt σ α} (equal : m = m') : Alike Eq m m' := by
  subst equal
  intro state
  rcases run : m state with ⟨fault | a,after⟩
  · exact .inr ⟨fault,after,rfl,rfl⟩
  · exact .inl ⟨a,a,after,rfl,rfl,rfl⟩
theorem Alike.eq {m' : Attempt σ α} (alike : Alike Eq m m') : m = m' := by
  funext state
  rcases alike state with ⟨a,_,after,run,run',rfl⟩ | ⟨fault,after,run,run'⟩
  · rw [run,run']
  · rw [run,run']
theorem Alike.mono (alike : Alike same m m') {weaker : α → γ → Prop} (implies : ∀ a c, same a c → weaker a c) :
    Alike weaker m m' := by
  intro state
  rcases alike state with ⟨a,c,after,run,run',related⟩ | failed
  · exact .inl ⟨a,c,after,run,run',implies a c related⟩
  · exact .inr failed
/-- Sequences are alike if their parts are. -/
theorem Alike.bind (alike : Alike same m m') (rest : ∀ a c, same a c → Alike same' (next a) (next' c)) :
    Alike same' (m >>= next) (m' >>= next') := by
  intro state
  rcases alike state with ⟨a,c,after,run,run',related⟩ | ⟨fault,after,run,run'⟩
  · rw [bind_run_ok run,bind_run_ok run']
    exact rest a c related after
  · exact .inr ⟨fault,after,bind_run_error run,bind_run_error run'⟩
/-- What follows the same step has to be alike. -/
theorem Alike.after {next' : α → Attempt σ δ} (rest : ∀ a, Alike same' (next a) (next' a)) :
    Alike same' (m >>= next) (m >>= next') := by
  refine (Alike.of_eq rfl).bind ?_
  rintro a _ rfl
  exact rest a

end

end Lev.Attempt
