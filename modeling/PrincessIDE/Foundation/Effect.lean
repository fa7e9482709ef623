import Mathlib.Order.Defs.Unbundled

namespace PrincessIDE.Effect

-- Stateful code that can fail: the state reached by a failure is kept.
abbrev Action (σ ε α : Type) := EStateM ε σ α

def after (x : Action σ ε α) (s : σ) : σ := match x.run s with
  | .ok _ t => t
  | .error _ t => t

def answer (x : Action σ ε α) (s : σ) : Except ε α := match x.run s with
  | .ok a _ => .ok a
  | .error e _ => .error e

theorem after_ok {x : Action σ ε α} (done : x.run s = .ok a t) : after x s = t := by rw [after,done]

theorem after_error {x : Action σ ε α} (failed : x.run s = .error e t) : after x s = t := by rw [after,failed]

theorem after_bind (x : Action σ ε α) (f : α → Action σ ε β) (s : σ) :
    after (x >>= f) s = match answer x s with
      | .ok a => after (f a) (after x s)
      | .error _ => after x s := by
  simp only [after,answer,bind,EStateM.bind,EStateM.run]
  cases x s <;> rfl

theorem answer_bind (x : Action σ ε α) (f : α → Action σ ε β) (s : σ) :
    answer (x >>= f) s = match answer x s with
      | .ok a => answer (f a) (after x s)
      | .error e => .error e := by
  simp only [after,answer,bind,EStateM.bind,EStateM.run]
  cases x s <;> rfl

theorem answer_bind_ok {x : Action σ ε α} {f : α → Action σ ε β} (done : answer (x >>= f) s = .ok b) :
    ∃ a, answer x s = .ok a ∧ answer (f a) (after x s) = .ok b := by
  rw [answer_bind] at done
  cases first : answer x s with
  | ok a => rw [first] at done; exact ⟨a,rfl,done⟩
  | error e => rw [first] at done; cases done

@[simp] theorem after_pure (a : α) (s : σ) : after (pure a : Action σ ε α) s = s := rfl
@[simp] theorem answer_pure (a : α) (s : σ) : answer (pure a : Action σ ε α) s = .ok a := rfl
@[simp] theorem after_throw (e : ε) (s : σ) : after (throw e : Action σ ε α) s = s := rfl
@[simp] theorem answer_throw (e : ε) (s : σ) : answer (throw e : Action σ ε α) s = .error e := rfl
@[simp] theorem after_get (s : σ) : after (get : Action σ ε σ) s = s := rfl
@[simp] theorem answer_get (s : σ) : answer (get : Action σ ε σ) s = .ok s := rfl
@[simp] theorem after_modify (f : σ → σ) (s : σ) : after (modify f : Action σ ε PUnit) s = f s := rfl
@[simp] theorem answer_modify (f : σ → σ) (s : σ) : answer (modify f : Action σ ε PUnit) s = .ok ⟨⟩ := rfl

theorem run_get (f : σ → Action σ ε α) (s : σ) : (get >>= f).run s = (f s).run s := rfl

theorem run_bind_ok {x : Action σ ε α} (done : x.run s = .ok a t) (f : α → Action σ ε β) : (x >>= f).run s = (f a).run t := by
  simp only [EStateM.run,bind,EStateM.bind] at done ⊢
  rw [done]

theorem run_bind_error {x : Action σ ε α} (failed : x.run s = .error e t) (f : α → Action σ ε β) : (x >>= f).run s = .error e t := by
  simp only [EStateM.run,bind,EStateM.bind] at failed ⊢
  rw [failed]

-- What succeeds as a whole succeeds in its parts.
theorem run_bind_parts {x : Action σ ε α} {f : α → Action σ ε β} (done : (x >>= f).run s = .ok b u) :
    ∃ a t, x.run s = .ok a t ∧ (f a).run t = .ok b u := by
  simp only [EStateM.run,bind,EStateM.bind] at done ⊢
  cases first : x s with
  | ok a t => rw [first] at done; exact ⟨a,t,rfl,done⟩
  | error e t => rw [first] at done; cases done

theorem run_each_parts {f : α → Action σ ε PUnit} (done : ((a::as).forM f).run s = .ok b u) :
    ∃ t, (f a).run s = .ok ⟨⟩ t ∧ (as.forM f).run t = .ok b u := by
  obtain ⟨_,t,first,rest⟩ := run_bind_parts done
  exact ⟨t,first,rest⟩

-- An action on a part of the state.
def zoom (part : σ → τ) (put : τ → σ → σ) (x : Action τ ε α) : Action σ ε α := fun s => match x (part s) with
  | .ok a t => .ok a (put t s)
  | .error e t => .error e (put t s)

theorem after_zoom (part : σ → τ) (put : τ → σ → σ) (x : Action τ ε α) (s : σ) :
    after (zoom part put x) s = put (after x (part s)) s := by
  simp only [after,zoom,EStateM.run]
  cases x (part s) <;> rfl

theorem run_zoom_ok {part : σ → τ} {put : τ → σ → σ} {x : Action τ ε α} (done : x.run (part s) = .ok a t) :
    (zoom part put x).run s = .ok a (put t s) := by
  simp only [EStateM.run,zoom] at done ⊢
  rw [done]

theorem run_zoom_parts {part : σ → τ} {put : τ → σ → σ} {x : Action τ ε α} (done : (zoom part put x).run s = .ok a u) :
    ∃ t, x.run (part s) = .ok a t ∧ u = put t s := by
  simp only [EStateM.run,zoom] at done ⊢
  cases here : x (part s) with
  | ok b t => rw [here] at done; cases done; exact ⟨t,rfl,rfl⟩
  | error e t => rw [here] at done; cases done

-- A failure becomes an answer.
def attempt (x : Action σ ε α) : Action σ ε (Option α) := fun s => match x s with
  | .ok a t => .ok (some a) t
  | .error _ t => .ok none t

theorem run_attempt_ok {x : Action σ ε α} (done : x.run s = .ok a t) : (attempt x).run s = .ok (some a) t := by
  simp only [EStateM.run,attempt] at done ⊢
  rw [done]

theorem after_attempt (x : Action σ ε α) (s : σ) : after (attempt x) s = after x s := by
  simp only [after,attempt,EStateM.run]
  cases x s <;> rfl

-- As `attempt`, with the failure.
def caught (x : Action σ ε α) : Action σ ε (Except ε α) := fun s => match x s with
  | .ok a t => .ok (.ok a) t
  | .error e t => .ok (.error e) t

theorem run_caught (x : Action σ ε α) (s : σ) : (caught x).run s = .ok (answer x s) (after x s) := by
  simp only [answer,after,caught,EStateM.run]
  cases x s <;> rfl

-- What surrounds the code answers each question, given those it was asked before.
abbrev Host (Q : Type) (A : Q → Type) := List Q → (q : Q) → A q

def ask {A : Q → Type} (host : Host Q A) (q : Q) : Action (List Q) ε (A q) := fun asked => .ok (host asked q) (asked++[q])

-- After a failure that is `bad` the handler runs, and the failure goes on.
def onError (bad : ε → Bool) (handler : Action σ ε PUnit) (x : Action σ ε α) : Action σ ε α := fun s => match x s with
  | .ok a t => .ok a t
  | .error e t => if bad e then (handler *> throw e : Action σ ε α) t else .error e t

-- Whatever the outcome, the state moves along `R`.
def Moves (R : σ → σ → Prop) (x : Action σ ε α) : Prop := ∀ s, R s (after x s)

namespace Moves
variable {R : σ → σ → Prop} [IsPreorder σ R]

theorem pure (a : α) : Moves R (Pure.pure a : Action σ ε α) := fun s => refl_of R s

theorem throw (e : ε) : Moves R (MonadExcept.throw e : Action σ ε α) := fun s => refl_of R s

theorem get : Moves R (MonadState.get : Action σ ε σ) := fun s => refl_of R s

theorem bind {x : Action σ ε α} {f : α → Action σ ε β} (first : Moves R x) (rest : ∀ a, Moves R (f a)) :
    Moves R (x >>= f) := by
  intro s
  rw [after_bind]
  cases answer x s with
  | ok a => exact trans_of R (first s) (rest a _)
  | error e => exact first s

theorem onError {handler : Action σ ε PUnit} {x : Action σ ε α} (inner : Moves R x) (handled : Moves R handler) :
    Moves R (onError bad handler x) := by
  intro s
  have first := inner s
  unfold after at first ⊢
  simp only [Effect.onError,EStateM.run] at first ⊢
  cases here : x s with
  | ok a t => simpa [here] using first
  | error e t =>
    rw [here] at first
    dsimp only
    cases bad e with
    | true => exact trans_of R first (bind handled (fun _ => throw e) t)
    | false => exact first

theorem each {f : α → Action σ ε PUnit} {xs : List α} (every : ∀ a ∈ xs, Moves R (f a)) : Moves R (xs.forM f) := by
  induction xs with
  | nil => exact pure _
  | cons a xs ih => exact bind (every a (by simp)) (fun _ => ih fun b member => every b (List.mem_cons_of_mem _ member))

end Moves

theorem Moves.attempt {R : σ → σ → Prop} {x : Action σ ε α} (inner : Moves R x) : Moves R (attempt x) := fun s => by
  rw [after_attempt]
  exact inner s

theorem Moves.modify {R : σ → σ → Prop} {f : σ → σ} (step : ∀ s, R s (f s)) :
    Moves R (modify f : Action σ ε PUnit) := step

theorem Moves.caught {R : σ → σ → Prop} {x : Action σ ε α} (inner : Moves R x) : Moves R (Effect.caught x : Action σ ε (Except ε α)) := fun s => by
  rw [after_ok (run_caught x s)]
  exact inner s

theorem Moves.zoom {R : σ → σ → Prop} {part : σ → τ} {put : τ → σ → σ} {x : Action τ ε α}
    (inner : ∀ s, R s (put (after x (part s)) s)) : Moves R (zoom part put x) := fun s => by
  rw [after_zoom]
  exact inner s

-- The list in the state grows at its end, by items of one kind.
def Appends (part : σ → List β) (allowed : β → Prop) (s t : σ) : Prop :=
  ∃ added, part t = part s ++ added ∧ ∀ b ∈ added, allowed b

instance : IsPreorder σ (Appends part allowed) where
  refl s := ⟨[],by simp,by simp⟩
  trans s t u := by
    rintro ⟨one,first,held⟩ ⟨two,second,held'⟩
    exact ⟨one++two,by rw [second,first,List.append_assoc],List.forall_mem_append.mpr ⟨held,held'⟩⟩

theorem appends_none {part : σ → List β} (same : part t = part s) : Appends part allowed s t := ⟨[],by simp [same],by simp⟩

-- No failure, from whatever state.
def Sure (x : Action σ ε α) : Prop := ∀ s, ∃ a, answer x s = .ok a

namespace Sure

theorem pure (a : α) : Sure (Pure.pure a : Action σ ε α) := fun _ => ⟨a,rfl⟩

theorem bind {x : Action σ ε α} {f : α → Action σ ε β} (first : Sure x) (rest : ∀ a, Sure (f a)) : Sure (x >>= f) := by
  intro s
  obtain ⟨a,done⟩ := first s
  rw [answer_bind,done]
  exact rest a _

theorem each {f : α → Action σ ε PUnit} {xs : List α} (every : ∀ a, Sure (f a)) : Sure (xs.forM f) := by
  induction xs with
  | nil => exact pure _
  | cons a xs ih => exact bind (every a) fun _ => ih

theorem caught (x : Action σ ε α) : Sure (Effect.caught x : Action σ ε (Except ε α)) := fun s => ⟨_,by rw [answer,run_caught]⟩

theorem zoom {part : σ → τ} {put : τ → σ → σ} {x : Action τ ε α} (inner : Sure x) : Sure (zoom part put x) := by
  intro s
  obtain ⟨a,done⟩ := inner (part s)
  refine ⟨a,?_⟩
  simp only [answer,Effect.zoom,EStateM.run] at done ⊢
  cases here : x (part s) with
  | ok b t => rw [here] at done; exact done
  | error e t => rw [here] at done; cases done

theorem run {x : Action σ ε α} (sure : Sure x) (s : σ) : ∃ a, x.run s = .ok a (after x s) := by
  obtain ⟨a,done⟩ := sure s
  refine ⟨a,?_⟩
  unfold answer at done
  unfold after
  cases here : x.run s with
  | ok b t => rw [here] at done; cases done; rfl
  | error e t => rw [here] at done; cases done

end Sure

-- One answer, from whatever state.
def Yields (x : Action σ ε α) (a : α) : Prop := ∀ s, answer x s = .ok a

namespace Yields

theorem pure (a : α) : Yields (Pure.pure a : Action σ ε α) a := fun _ => rfl

theorem bind {x : Action σ ε α} {f : α → Action σ ε β} (first : Yields x a) (rest : Yields (f a) b) : Yields (x >>= f) b := by
  intro s
  rw [answer_bind,first s]
  exact rest _

theorem after_sure {x : Action σ ε α} {f : α → Action σ ε β} (first : Sure x) (rest : ∀ a, Yields (f a) b) : Yields (x >>= f) b := by
  intro s
  obtain ⟨a,done⟩ := first s
  rw [answer_bind,done]
  exact rest a _

theorem caught {x : Action σ ε α} (inner : Yields x a) : Yields (Effect.caught x) (.ok a) := by
  intro s
  rw [answer,run_caught,inner s]

end Yields

-- From a state in `P` the action ends in `Q` with its answer, or fails in `E`.
def Ensures (P : σ → Prop) (x : Action σ ε α) (Q : α → σ → Prop) (E : σ → Prop) : Prop :=
  ∀ s, P s → match x.run s with
    | .ok a t => Q a t
    | .error _ t => E t

namespace Ensures
variable {P E : σ → Prop} {Q : α → σ → Prop}

theorem pure {a : α} (held : ∀ s, P s → Q a s) : Ensures P (Pure.pure a : Action σ ε α) Q E := held

theorem throw {e : ε} (held : ∀ s, P s → E s) : Ensures P (MonadExcept.throw e : Action σ ε α) Q E := held

theorem get {Q : σ → σ → Prop} (held : ∀ s, P s → Q s s) : Ensures P (MonadState.get : Action σ ε σ) Q E := held

theorem modify {f : σ → σ} {Q : PUnit → σ → Prop} (step : ∀ s, P s → Q ⟨⟩ (f s)) :
    Ensures P (modify f : Action σ ε PUnit) Q E := step

theorem bind {x : Action σ ε α} {f : α → Action σ ε β} {S : β → σ → Prop} (first : Ensures P x Q E)
    (rest : ∀ a, Ensures (Q a) (f a) S E) : Ensures P (x >>= f) S E := by
  intro s start
  have here := first s start
  simp only [EStateM.run,Bind.bind,EStateM.bind] at here ⊢
  cases done : x s with
  | ok a t => rw [done] at here; exact rest a t here
  | error e t => rw [done] at here; exact here

theorem weaken {Q' : α → σ → Prop} {P' E' : σ → Prop} {x : Action σ ε α} (inner : Ensures P x Q E) (before : ∀ s, P' s → P s)
    (answered : ∀ a s, Q a s → Q' a s) (failed : ∀ s, E s → E' s) : Ensures P' x Q' E' := by
  intro s start
  have here := inner s (before s start)
  cases done : x.run s with
  | ok a t => rw [done] at here; exact answered a t here
  | error e t => rw [done] at here; exact failed t here

-- The handler starts with a failure, and what it leads to outlives it.
theorem onError {F : σ → Prop} {x : Action σ ε α} {handler : Action σ ε PUnit} (inner : Ensures P x Q E)
    (handled : Ensures E handler (fun _ => F) F) (passed : ∀ s, E s → F s) : Ensures P (onError bad handler x) Q F := by
  intro s start
  have here := inner s start
  simp only [EStateM.run,Effect.onError] at here ⊢
  cases done : x s with
  | ok a t => rw [done] at here; exact here
  | error e t =>
    rw [done] at here
    dsimp only
    cases bad e with
    | true => exact (handled.bind fun _ => throw fun _ => id) t here
    | false => exact passed t here

-- A handler of every failure.
theorem onFailure {F : σ → Prop} {x : Action σ ε α} {handler : Action σ ε PUnit} (inner : Ensures P x Q E)
    (handled : Ensures E handler (fun _ => F) F) : Ensures P (Effect.onError (fun _ => true) handler x) Q F := by
  intro s start
  have here := inner s start
  simp only [EStateM.run,Effect.onError] at here ⊢
  cases done : x s with
  | ok a t => rw [done] at here; exact here
  | error e t => rw [done] at here; exact (handled.bind fun _ => throw fun _ => id) t here

theorem each {f : α → Action σ ε PUnit} {xs : List α} (every : ∀ a ∈ xs, Ensures P (f a) (fun _ => P) E) :
    Ensures P (xs.forM f) (fun _ => P) E := by
  induction xs with
  | nil => exact pure fun _ => id
  | cons a xs ih => exact bind (every a (by simp)) fun _ => ih fun b member => every b (List.mem_cons_of_mem _ member)

theorem attempt {F : σ → Prop} {x : Action σ ε α} (inner : Ensures P x (fun _ => E) E) :
    Ensures P (attempt x) (fun _ => E) F := by
  intro s start
  have here := inner s start
  simp only [EStateM.run,Effect.attempt] at here ⊢
  cases done : x s with
  | ok a t => rw [done] at here; exact here
  | error e t => rw [done] at here; exact here

theorem caught {F : σ → Prop} {x : Action σ ε α} (inner : Ensures P x Q E) :
    Ensures P (Effect.caught x) (fun r s => match r with
      | .ok a => Q a s
      | .error _ => E s) F := by
  intro s start
  have here := inner s start
  simp only [EStateM.run,Effect.caught] at here ⊢
  cases done : x s with
  | ok a t => rw [done] at here; exact here
  | error e t => rw [done] at here; exact here

-- Where no failure is left, the action succeeds.
theorem runs {x : Action σ ε α} (inner : Ensures P x Q fun _ => False) (start : P s) : ∃ a t, x.run s = .ok a t ∧ Q a t := by
  have here := inner s start
  cases done : x.run s with
  | ok a t => rw [done] at here; exact ⟨a,t,rfl,here⟩
  | error e t => rw [done] at here; exact here.elim

theorem after_of {x : Action σ ε α} (inner : Ensures P x (fun _ => E) E) (start : P s) : E (after x s) := by
  have here := inner s start
  unfold after
  cases done : x.run s with
  | ok a t => rw [done] at here; exact here
  | error e t => rw [done] at here; exact here

theorem zoom {part : σ → τ} {put : τ → σ → σ} {x : Action τ ε α} (inner : ∀ s, P s → match x.run (part s) with
    | .ok a t => Q a (put t s)
    | .error _ t => E (put t s)) : Ensures P (zoom part put x) Q E := by
  intro s start
  have here := inner s start
  simp only [EStateM.run,Effect.zoom] at here ⊢
  cases done : x (part s) with
  | ok a t => rw [done] at here; exact here
  | error e t => rw [done] at here; exact here

theorem pointwise {x : Action σ ε α} (each : ∀ s, P s → Ensures (· = s) x Q E) : Ensures P x Q E :=
  fun s start => each s start s rfl

theorem and {Q' : α → σ → Prop} {E' : σ → Prop} {x : Action σ ε α} (one : Ensures P x Q E) (two : Ensures P x Q' E') :
    Ensures P x (fun a s => Q a s ∧ Q' a s) (fun s => E s ∧ E' s) := by
  intro s start
  have left := one s start
  have right := two s start
  cases done : x.run s with
  | ok a t => rw [done] at left right; exact ⟨left,right⟩
  | error e t => rw [done] at left right; exact ⟨left,right⟩

-- A move along `R` after others.
theorem follows {R : σ → σ → Prop} [IsPreorder σ R] {x : Action σ ε α} (moves : Moves R x) (s : σ) :
    Ensures (R s) x (fun _ => R s) (R s) := by
  intro t start
  have here := trans_of R start (moves t)
  cases done : x.run t with
  | ok a u => rwa [after_ok done] at here
  | error e u => rwa [after_error done] at here

theorem moves {R : σ → σ → Prop} {x : Action σ ε α} (every : ∀ s, Ensures (· = s) x (fun _ => R s) (R s)) : Moves R x :=
  fun s => after_of (every s) rfl

end Ensures

-- A failure that tells the stage it comes from.
def staged (stage : ν) (x : Action σ ε α) : Action σ (ν × ε) α := fun s => match x s with
  | .ok a t => .ok a t
  | .error e t => .error (stage,e) t

def unstaged (x : Action σ (ν × ε) α) : Action σ ε α := fun s => match x s with
  | .ok a t => .ok a t
  | .error e t => .error e.2 t

theorem unstaged_staged (stage : ν) (x : Action σ ε α) : unstaged (staged stage x) = x := by
  funext s
  unfold unstaged staged
  cases x s <;> rfl

theorem unstaged_bind (x : Action σ (ν × ε) α) (f : α → Action σ (ν × ε) β) :
    unstaged (x >>= f) = unstaged x >>= fun a => unstaged (f a) := by
  funext s
  simp only [unstaged,bind,EStateM.bind]
  cases x s <;> rfl

theorem unstaged_get : unstaged (get : Action σ (ν × ε) σ) = get := rfl

-- As `Ensures`, where the failure says what is left behind.
def Ends (P : σ → Prop) (x : Action σ ε α) (Q : α → σ → Prop) (F : ε → σ → Prop) : Prop :=
  ∀ s, P s → match x.run s with
    | .ok a t => Q a t
    | .error e t => F e t

namespace Ends
variable {P E : σ → Prop} {Q : α → σ → Prop} {F : ε → σ → Prop}

theorem pure {a : α} (held : ∀ s, P s → Q a s) : Ends P (Pure.pure a : Action σ ε α) Q F := held

theorem get {Q : σ → σ → Prop} (held : ∀ s, P s → Q s s) : Ends P (MonadState.get : Action σ ε σ) Q F := held

theorem bind {x : Action σ ε α} {f : α → Action σ ε β} {S : β → σ → Prop} (first : Ends P x Q F)
    (rest : ∀ a, Ends (Q a) (f a) S F) : Ends P (x >>= f) S F := by
  intro s start
  have here := first s start
  simp only [EStateM.run,Bind.bind,EStateM.bind] at here ⊢
  cases done : x s with
  | ok a t => rw [done] at here; exact rest a t here
  | error e t => rw [done] at here; exact here

theorem staged {F : ν × ε → σ → Prop} {x : Action σ ε α} (inner : Ensures P x Q E) (failed : ∀ e s, E s → F (stage,e) s) :
    Ends P (staged stage x) Q F := by
  intro s start
  have here := inner s start
  simp only [EStateM.run,Effect.staged] at here ⊢
  cases done : x s with
  | ok a t => rw [done] at here; exact here
  | error e t => rw [done] at here; exact failed e t here

end Ends

-- The first action runs as the second does, or fails on the way there.
def Cuts (R : σ → σ → Prop) (x y : Action σ ε α) : Prop :=
  ∀ s, x.run s = y.run s ∨ ∃ e t, x.run s = .error e t ∧ R t (after y s)

namespace Cuts
variable {R : σ → σ → Prop}

theorem same (x : Action σ ε α) : Cuts R x x := fun _ => .inl rfl

theorem bind [IsPreorder σ R] {x y : Action σ ε α} {f g : α → Action σ ε β} (first : Cuts R x y)
    (rest : ∀ a, Cuts R (f a) (g a)) (moves : ∀ a, Moves R (g a)) : Cuts R (x >>= f) (y >>= g) := by
  intro s
  rcases first s with same | ⟨e,t,failed,before⟩
  · cases here : y.run s with
    | ok a t =>
      rw [after_bind,run_bind_ok (same.trans here),run_bind_ok here]
      rcases rest a t with same' | ⟨e,u,failed,before⟩
      · exact .inl same'
      · refine .inr ⟨e,u,failed,?_⟩
        rwa [answer,here,after_ok here]
    | error e t => exact .inl ((run_bind_error (same.trans here) f).trans (run_bind_error here g).symm)
  · refine .inr ⟨e,t,run_bind_error failed f,?_⟩
    rw [after_bind]
    cases answer y s with
    | ok a => exact trans_of R before (moves a _)
    | error e => exact before

theorem each [IsPreorder σ R] {f g : α → Action σ ε PUnit} (every : ∀ a, Cuts R (f a) (g a)) (moves : ∀ a, Moves R (g a))
    (xs : List α) : Cuts R (xs.forM f) (xs.forM g) := by
  induction xs with
  | nil => exact same _
  | cons a xs ih => exact bind (every a) (fun _ => ih) fun _ => .each fun b _ => moves b

theorem zoom {part : σ → τ} {put : τ → σ → σ} {x y : Action τ ε α}
    (inner : ∀ s, x.run (part s) = y.run (part s) ∨ ∃ e t, x.run (part s) = .error e t ∧ R (put t s) (put (after y (part s)) s)) :
    Cuts R (zoom part put x) (zoom part put y) := by
  intro s
  rw [after_zoom]
  simp only [EStateM.run,Effect.zoom]
  rcases inner s with same | ⟨e,t,failed,before⟩
  · simp only [EStateM.run] at same
    exact .inl (by rw [same])
  · simp only [EStateM.run] at failed
    exact .inr ⟨e,put t s,by rw [failed],before⟩

end Cuts

end PrincessIDE.Effect
