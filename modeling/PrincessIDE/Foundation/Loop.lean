namespace PrincessIDE.Loop

-- A loop whose turns consume, in order, the answers of what surrounds it. A
-- turn goes on with a new state or leaves the loop with a result.
inductive Turn (σ ρ : Type) where
  | next (s : σ)
  | leave (result : ρ) (s : σ)
deriving DecidableEq, Repr

def Turn.state : Turn σ ρ → σ
  | .next s => s
  | .leave _ s => s

-- No result means that the answers ended while the loop was still going.
def loop (turn : σ → ι → Turn σ ρ) (s : σ) : List ι → Option ρ × σ × List ι
  | [] => (none,s,[])
  | i :: rest => match turn s i with
    | .next s => loop turn s rest
    | .leave result s => (some result,s,rest)

def goesOn (turn : σ → ι → Turn σ ρ) (s : σ) : List ι → Option σ
  | [] => some s
  | i :: rest => match turn s i with
    | .next s => goesOn turn s rest
    | .leave _ _ => none

variable {turn : σ → ι → Turn σ ρ}

theorem loop_append (on : goesOn turn s a = some m) (b : List ι) : loop turn s (a++b) = loop turn m b := by
  induction a generalizing s with
  | nil => cases on; rfl
  | cons i a ih =>
    simp only [goesOn] at on
    simp only [List.cons_append,loop]
    cases here : turn s i with
    | next t => rw [here] at on; exact ih on
    | leave result t => rw [here] at on; cases on

-- A loop that was left went on through the answers before the last one it took.
theorem loop_left (left : loop turn s is = (some result,out,rest)) :
    ∃ seen i m, is = seen ++ i :: rest ∧ goesOn turn s seen = some m ∧ turn m i = .leave result out := by
  induction is generalizing s with
  | nil => cases left
  | cons i is ih =>
    simp only [loop] at left
    cases here : turn s i with
    | next t =>
      rw [here] at left
      obtain ⟨seen,j,m,rfl,on,last⟩ := ih left
      exact ⟨i::seen,j,m,rfl,by simp [goesOn,here,on],last⟩
    | leave r t =>
      rw [here] at left
      cases left
      exact ⟨[],i,s,rfl,rfl,here⟩

-- A loop that was not left went on through all the answers.
theorem loop_ended (ended : loop turn s is = (none,out,rest)) : goesOn turn s is = some out := by
  induction is generalizing s with
  | nil => cases ended; rfl
  | cons i is ih =>
    simp only [loop] at ended
    simp only [goesOn]
    cases here : turn s i with
    | next t => rw [here] at ended; exact ih ended
    | leave r t => rw [here] at ended; cases ended

-- An answer behind some that a loop went on through is one that it goes on
-- through too, or the one at which it is left.
theorem loop_met (left : loop turn s (seen ++ i :: later) = (some result,out,rest)) (on : goesOn turn s seen = some m) :
    (∃ t, turn m i = .next t) ∨ turn m i = .leave result out := by
  rw [loop_append on,loop] at left
  cases here : turn m i with
  | next t => exact .inl ⟨t,rfl⟩
  | leave r u =>
    rw [here] at left
    cases left
    exact .inr rfl

theorem goesOn_invariant (P : List ι → σ → Prop) (seen : List ι) (start : P seen s)
    (step : ∀ seen m i t, P seen m → turn m i = .next t → P (seen++[i]) t)
    (on : goesOn turn s is = some out) : P (seen++is) out := by
  induction is generalizing s seen with
  | nil => cases on; simpa using start
  | cons i is ih =>
    simp only [goesOn] at on
    cases here : turn s i with
    | next t =>
      rw [here] at on
      have later := ih _ (step seen s i t start here) on
      simpa using later
    | leave r t => rw [here] at on; cases on

-- What holds between the start of a loop, its result and its end, from what
-- holds of one turn.
theorem loop_yields (Q : σ → Option ρ → σ → Prop) (stay : ∀ s, Q s none s)
    (next : ∀ s i t r u, turn s i = .next t → Q t r u → Q s r u)
    (leave : ∀ s i r u, turn s i = .leave r u → Q s (some r) u) (s : σ) (is : List ι) :
    Q s (loop turn s is).1 (loop turn s is).2.1 := by
  induction is generalizing s with
  | nil => exact stay s
  | cons i is ih =>
    simp only [loop]
    cases here : turn s i with
    | next t => exact next s i t _ _ here (ih t)
    | leave r u => exact leave s i r u here

-- A part of the state that the answers alone move is moved by those gone through.
theorem goesOn_fold (view : σ → τ) (f : τ → ι → τ) (follows : ∀ s i t, turn s i = .next t → view t = f (view s) i)
    (on : goesOn turn s is = some m) : view m = is.foldl f (view s) := by
  induction is generalizing s with
  | nil => cases on; rfl
  | cons i is ih =>
    simp only [goesOn] at on
    cases here : turn s i with
    | next t =>
      rw [here] at on
      rw [List.foldl_cons,← follows s i t here]
      exact ih on
    | leave r t => rw [here] at on; cases on

-- The answers that a loop goes on through.
def passed (turn : σ → ι → Turn σ ρ) (s : σ) : List ι → List ι
  | [] => []
  | i :: rest => match turn s i with
    | .next t => i :: passed turn t rest
    | .leave _ _ => []

theorem passed_left (left : loop turn s is = (some result,out,rest)) :
    ∃ i m, goesOn turn s (passed turn s is) = some m ∧ turn m i = .leave result out := by
  induction is generalizing s with
  | nil => cases left
  | cons i is ih =>
    simp only [loop] at left
    simp only [passed]
    cases here : turn s i with
    | next t =>
      rw [here] at left
      obtain ⟨j,m,on,last⟩ := ih left
      exact ⟨j,m,by simp [goesOn,here,on],last⟩
    | leave r t =>
      rw [here] at left
      cases left
      exact ⟨i,s,rfl,here⟩

-- The turn at which a loop was left.
def leaving (turn : σ → ι → Turn σ ρ) (s : σ) : List ι → Option (σ × ι)
  | [] => none
  | i :: rest => match turn s i with
    | .next s => leaving turn s rest
    | .leave _ _ => some (s,i)

theorem loop_leaving (turn : σ → ι → Turn σ ρ) (s : σ) (is : List ι) : match leaving turn s is with
    | some (m,i) => ∃ r out rest, turn m i = .leave r out ∧ loop turn s is = (some r,out,rest)
    | none => ∃ out, loop turn s is = (none,out,[]) := by
  induction is generalizing s with
  | nil => exact ⟨s,rfl⟩
  | cons i is ih =>
    simp only [leaving,loop]
    cases here : turn s i with
    | next t => exact ih t
    | leave r u => exact ⟨r,u,is,here,rfl⟩

theorem leaving_invariant (P : σ → Prop) (step : ∀ m i t, P m → turn m i = .next t → P t) (start : P s) (is : List ι) :
    match leaving turn s is with
    | some (m,_) => P m
    | none => P (loop turn s is).2.1 := by
  induction is generalizing s with
  | nil => exact start
  | cons i is ih =>
    simp only [leaving,loop]
    cases here : turn s i with
    | next t => exact ih (step s i t start here)
    | leave r u => exact start

-- Some item is one of `P` and no item up to it, itself included, is one of `Q`.
def Ahead (P Q : ι → Prop) (seen : List ι) : Prop :=
  ∃ before t after, seen = before ++ t :: after ∧ P t ∧ ¬ ∃ u ∈ before++[t], Q u

theorem ahead_snoc {P Q : ι → Prop} : Ahead P Q (seen++[t]) ↔ Ahead P Q seen ∨ (P t ∧ ¬ ∃ u ∈ seen++[t], Q u) := by
  constructor
  · rintro ⟨before,u,after,split,first,free⟩
    rcases List.eq_nil_or_concat after with rfl | ⟨after,last,rfl⟩
    · obtain ⟨rfl,same⟩ := List.append_inj' split rfl
      cases same
      exact .inr ⟨first,free⟩
    · rw [List.concat_eq_append,← List.cons_append,← List.append_assoc] at split
      exact .inl ⟨before,u,after,(List.append_inj' split rfl).1,first,free⟩
  · rintro (⟨before,u,after,rfl,first,free⟩ | ⟨first,free⟩)
    · exact ⟨before,u,after++[t],by simp,first,free⟩
    · exact ⟨seen,t,[],rfl,first,free⟩

end PrincessIDE.Loop
