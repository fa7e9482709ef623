import Mathlib.Data.List.DropRight
import Mathlib.Data.List.Induction
import Mathlib.Logic.Function.Basic

namespace PrincessIDE.FileTree

-- A path by its pieces: between two slashes stands nothing or a dot, two dots,
-- or a name.
inductive Piece (ν : Type) where
  | here
  | up
  | name (n : ν)
deriving DecidableEq, Repr

structure Route (ν : Type) where
  absolute : Bool
  pieces : List (Piece ν)
deriving DecidableEq, Repr

-- Where an entry is: the names from the root to it.
abbrev Place (ν : Type) := List ν

inductive Node (ν β : Type) where
  | dir
  | file (content : β)
  | link (target : Route ν)
deriving DecidableEq, Repr

@[ext]
structure Tree (ν β : Type) where
  nodes : Place ν → Option (Node ν β)
  root : nodes [] = some .dir
  closed : ∀ place name, nodes (place ++ [name]) ≠ none → nodes place = some .dir

inductive Fault where
  | noEntry
  | notDirectory
  | isDirectory
  | loop
deriving DecidableEq, Repr

variable {ν β : Type} [DecidableEq ν] [DecidableEq β]

def Route.start (route : Route ν) (place : Place ν) : Place ν := if route.absolute then [] else place

-- The path is followed from a directory. A link is followed with one link less
-- to go; with `create` the last name need not be there. The answer has the
-- place, and the links that are still allowed.
def walkWith (t : Tree ν β) (create : Bool) (links : Nat) (follow : Place ν → List (Piece ν) → Except Fault (Place ν × Nat))
    (place : Place ν) : List (Piece ν) → Except Fault (Place ν × Nat)
  | [] => .ok (place,links)
  | piece :: rest =>
    if t.nodes place = some .dir then
      match piece with
      | .here => walkWith t create links follow place rest
      | .up => walkWith t create links follow place.dropLast rest
      | .name n => match t.nodes (place ++ [n]) with
        | none => if create && rest.isEmpty then .ok (place ++ [n],links) else .error .noEntry
        | some (.link target) => follow (target.start place) (target.pieces ++ rest)
        | some _ => walkWith t create links follow (place ++ [n]) rest
    else .error .notDirectory

def walk (t : Tree ν β) (create : Bool) : Nat → Place ν → List (Piece ν) → Except Fault (Place ν × Nat)
  | 0 => walkWith t create 0 fun _ _ => .error .loop
  | links+1 => walkWith t create (links+1) (walk t create links)

-- A directory or a file.
def Real (t : Tree ν β) (place : Place ν) : Prop := t.nodes place = some .dir ∨ ∃ content, t.nodes place = some (.file content)

section
variable {t : Tree ν β} {create : Bool}

@[simp] theorem walk_nil (links : Nat) (place : Place ν) : walk t create links place [] = .ok (place,links) := by
  cases links <;> rfl

theorem walk_stuck (other : t.nodes place ≠ some .dir) (links : Nat) (piece : Piece ν) (rest : List (Piece ν)) :
    walk t create links place (piece :: rest) = .error .notDirectory := by
  cases links <;> exact if_neg other

theorem walk_here (dir : t.nodes place = some .dir) (links : Nat) (rest : List (Piece ν)) :
    walk t create links place (.here :: rest) = walk t create links place rest := by
  cases links <;> exact if_pos dir

theorem walk_up (dir : t.nodes place = some .dir) (links : Nat) (rest : List (Piece ν)) :
    walk t create links place (.up :: rest) = walk t create links place.dropLast rest := by
  cases links <;> exact if_pos dir

theorem walk_absent (dir : t.nodes place = some .dir) (absent : t.nodes (place ++ [n]) = none) (links : Nat) (rest : List (Piece ν)) :
    walk t create links place (.name n :: rest) = if create && rest.isEmpty then .ok (place ++ [n],links) else .error .noEntry := by
  cases links <;> simp only [walk,walkWith,dir,absent,if_true]

theorem walk_real (dir : t.nodes place = some .dir) (real : Real t (place ++ [n])) (links : Nat) (rest : List (Piece ν)) :
    walk t create links place (.name n :: rest) = walk t create links (place ++ [n]) rest := by
  rcases real with found | ⟨content,found⟩ <;> cases links <;> simp only [walk,walkWith,dir,found,if_true]

theorem walk_link (dir : t.nodes place = some .dir) (found : t.nodes (place ++ [n]) = some (.link target)) (links : Nat)
    (rest : List (Piece ν)) : walk t create (links+1) place (.name n :: rest) =
      walk t create links (target.start place) (target.pieces ++ rest) := by
  simp only [walk,walkWith,dir,found,if_true]

theorem walk_loop (dir : t.nodes place = some .dir) (found : t.nodes (place ++ [n]) = some (.link target)) (rest : List (Piece ν)) :
    walk t create 0 place (.name n :: rest) = .error .loop := by
  simp only [walk,walkWith,dir,found,if_true]

omit [DecidableEq ν] [DecidableEq β] in
-- Under a name there is nothing, an entry to stand on, or a link.
theorem node_cases (t : Tree ν β) (place : Place ν) :
    t.nodes place = none ∨ Real t place ∨ ∃ target, t.nodes place = some (.link target) := by
  cases found : t.nodes place with
  | none => exact .inl rfl
  | some node => cases node with
    | dir => exact .inr (.inl (.inl found))
    | file content => exact .inr (.inl (.inr ⟨content,found⟩))
    | link target => exact .inr (.inr ⟨target,rfl⟩)

omit [DecidableEq ν] [DecidableEq β] in
-- The rounds of a walk: over the links that are allowed, and for each number of
-- them over the path.
theorem walk_rounds (t : Tree ν β) {motive : Nat → Place ν → List (Piece ν) → Prop}
    (nil : ∀ links place, motive links place [])
    (stuck : ∀ links place piece rest, t.nodes place ≠ some .dir → motive links place (piece :: rest))
    (here : ∀ links place rest, t.nodes place = some .dir → motive links place rest → motive links place (.here :: rest))
    (up : ∀ links place rest, t.nodes place = some .dir → motive links place.dropLast rest → motive links place (.up :: rest))
    (absent : ∀ links place n rest, t.nodes place = some .dir → t.nodes (place ++ [n]) = none → motive links place (.name n :: rest))
    (real : ∀ links place n rest, t.nodes place = some .dir → Real t (place ++ [n]) → motive links (place ++ [n]) rest →
      motive links place (.name n :: rest))
    (loop : ∀ place n rest target, t.nodes place = some .dir → t.nodes (place ++ [n]) = some (.link target) →
      motive 0 place (.name n :: rest))
    (link : ∀ links place n rest target, t.nodes place = some .dir → t.nodes (place ++ [n]) = some (.link target) →
      motive links (target.start place) (target.pieces ++ rest) → motive (links+1) place (.name n :: rest))
    (links : Nat) (place : Place ν) (ps : List (Piece ν)) : motive links place ps := by
  induction links generalizing place ps with
  | zero =>
    induction ps generalizing place with
    | nil => exact nil 0 place
    | cons piece rest ih =>
      by_cases dir : t.nodes place = some .dir
      · cases piece with
        | here => exact here 0 place rest dir (ih place)
        | up => exact up 0 place rest dir (ih place.dropLast)
        | name n =>
          rcases node_cases t (place ++ [n]) with none | some | ⟨target,found⟩
          · exact absent 0 place n rest dir none
          · exact real 0 place n rest dir some (ih (place ++ [n]))
          · exact loop place n rest target dir found
      · exact stuck 0 place piece rest dir
  | succ links fewer =>
    induction ps generalizing place with
    | nil => exact nil (links+1) place
    | cons piece rest ih =>
      by_cases dir : t.nodes place = some .dir
      · cases piece with
        | here => exact here (links+1) place rest dir (ih place)
        | up => exact up (links+1) place rest dir (ih place.dropLast)
        | name n =>
          rcases node_cases t (place ++ [n]) with none | some | ⟨target,found⟩
          · exact absent (links+1) place n rest dir none
          · exact real (links+1) place n rest dir some (ih (place ++ [n]))
          · exact link links place n rest target dir found (fewer _ _)
      · exact stuck (links+1) place piece rest dir

theorem walk_append (links : Nat) (place : Place ν) (ps qs : List (Piece ν)) :
    walk t false links place (ps ++ qs) = (walk t false links place ps).bind fun r => walk t false r.2 r.1 qs := by
  induction links, place, ps using walk_rounds t with
  | nil links place => rw [List.nil_append,walk_nil]; rfl
  | stuck links place piece rest other => rw [List.cons_append,walk_stuck other,walk_stuck other]; rfl
  | here links place rest dir ih => rw [List.cons_append,walk_here dir,walk_here dir,ih]
  | up links place rest dir ih => rw [List.cons_append,walk_up dir,walk_up dir,ih]
  | absent links place n rest dir absent => rw [List.cons_append,walk_absent dir absent,walk_absent dir absent]; rfl
  | real links place n rest dir real ih => rw [List.cons_append,walk_real dir real,walk_real dir real,ih]
  | loop place n rest target dir found => rw [List.cons_append,walk_loop dir found,walk_loop dir found]; rfl
  | link links place n rest target dir found ih =>
    rw [List.cons_append,walk_link dir found,walk_link dir found,← List.append_assoc,ih]

-- What is found with few links is found with more.
theorem walk_more (found : walk t create links place ps = .ok (p,left)) (more : Nat) :
    walk t create (links+more) place ps = .ok (p,left+more) := by
  induction links, place, ps using walk_rounds t with
  | nil links place =>
    rw [walk_nil] at found ⊢
    cases found
    rfl
  | stuck links place piece rest other => rw [walk_stuck other] at found; cases found
  | here links place rest dir ih => rw [walk_here dir] at found ⊢; exact ih found
  | up links place rest dir ih => rw [walk_up dir] at found ⊢; exact ih found
  | absent links place n rest dir absent =>
    rw [walk_absent dir absent] at found ⊢
    split at found
    · rename_i last
      cases found
      exact if_pos last
    · cases found
  | real links place n rest dir real ih => rw [walk_real dir real] at found ⊢; exact ih found
  | loop place n rest target dir there => rw [walk_loop dir there] at found; cases found
  | link links place n rest target dir there ih =>
    rw [walk_link dir there] at found
    rw [Nat.add_right_comm,walk_link dir there]
    exact ih found

omit [DecidableEq ν] [DecidableEq β] in
theorem dir_above (t : Tree ν β) (place : Place ν) (dir : t.nodes place = some .dir) : t.nodes place.dropLast = some .dir := by
  rcases List.eq_nil_or_concat place with rfl | ⟨front,last,rfl⟩
  · exact t.root
  · rw [List.concat_eq_append,List.dropLast_concat]
    exact t.closed front last (by rw [← List.concat_eq_append,dir]; nofun)

omit [DecidableEq ν] [DecidableEq β] in
theorem dir_prefix (t : Tree ν β) (before : above <+: place) (dir : t.nodes place = some .dir) : t.nodes above = some .dir := by
  induction place using List.reverseRecOn with
  | nil =>
    rw [List.prefix_nil.mp before]
    exact t.root
  | append_singleton front last ih =>
    rcases List.prefix_concat_iff.mp before with same | earlier
    · rw [same]
      exact dir
    · exact ih earlier (t.closed front last (by rw [dir]; nofun))

theorem walk_ends (start : Real t place) (found : walk t false links place ps = .ok (p,left)) : Real t p := by
  induction links, place, ps using walk_rounds t with
  | nil links place =>
    rw [walk_nil] at found
    cases found
    exact start
  | stuck links place piece rest other => rw [walk_stuck other] at found; cases found
  | here links place rest dir ih => rw [walk_here dir] at found; exact ih start found
  | up links place rest dir ih => rw [walk_up dir] at found; exact ih (.inl (dir_above t place dir)) found
  | absent links place n rest dir absent => rw [walk_absent dir absent] at found; cases found
  | real links place n rest dir real ih => rw [walk_real dir real] at found; exact ih real found
  | loop place n rest target dir there => rw [walk_loop dir there] at found; cases found
  | link links place n rest target dir there ih =>
    rw [walk_link dir there] at found
    refine ih ?_ found
    unfold Route.start
    split
    · exact .inl t.root
    · exact .inl dir

-- The path of an entry that is no link leads to it.
theorem walk_place (real : Real t place) (links : Nat) (rest : List (Piece ν)) :
    walk t create links [] (place.map .name ++ rest) = walk t create links place rest := by
  induction place using List.reverseRecOn generalizing rest with
  | nil => rfl
  | append_singleton front last ih =>
    have dir : t.nodes front = some .dir := t.closed front last (by rcases real with here | ⟨_,here⟩ <;> rw [here] <;> nofun)
    rw [List.map_append,List.append_assoc]
    exact (ih (.inl dir) _).trans (walk_real dir real links rest)

theorem walk_heres (dir : t.nodes place = some .dir) (heres : ∀ piece ∈ ps, piece = .here) (links : Nat) :
    walk t create links place ps = .ok (place,links) := by
  induction ps with
  | nil => exact walk_nil links place
  | cons piece rest ih =>
    rw [heres piece List.mem_cons_self,walk_here dir]
    exact ih fun other member => heres other (List.mem_cons_of_mem _ member)

-- The last name of a path that is created: it is new in a directory, or the
-- links led to an entry.
theorem walk_created (start : Real t place) (found : walk t true links place ps = .ok (p,left)) :
    Real t p ∨ ∃ front n, p = front ++ [n] ∧ t.nodes front = some .dir ∧ t.nodes p = none := by
  induction links, place, ps using walk_rounds t with
  | nil links place =>
    rw [walk_nil] at found
    cases found
    exact .inl start
  | stuck links place piece rest other => rw [walk_stuck other] at found; cases found
  | here links place rest dir ih => rw [walk_here dir] at found; exact ih start found
  | up links place rest dir ih => rw [walk_up dir] at found; exact ih (.inl (dir_above t place dir)) found
  | absent links place n rest dir absent =>
    rw [walk_absent dir absent] at found
    split at found
    · cases found
      exact .inr ⟨place,n,rfl,dir,absent⟩
    · cases found
  | real links place n rest dir real ih => rw [walk_real dir real] at found; exact ih real found
  | loop place n rest target dir there => rw [walk_loop dir there] at found; cases found
  | link links place n rest target dir there ih =>
    rw [walk_link dir there] at found
    refine ih ?_ found
    unfold Route.start
    split
    · exact .inl t.root
    · exact .inl dir

-- No walk with fewer than that many links gets through the entry to a directory.
structure Blocked (t : Tree ν β) (most : Nat) (front : Place ν) (n : ν) : Prop where
  dir : t.nodes (front ++ [n]) ≠ some .dir
  link : ∀ target, t.nodes (front ++ [n]) = some (.link target) → ∀ links < most, ∀ p left,
    walk t false links (target.start front) target.pieces = .ok (p,left) → t.nodes p ≠ some .dir

theorem walk_through (blocked : ∀ p left, walk t false links place ps = .ok (p,left) → t.nodes p ≠ some .dir)
    (found : walk t false links place (ps ++ rest) = .ok (p,left)) : t.nodes p ≠ some .dir := by
  rw [walk_append] at found
  cases first : walk t false links place ps with
  | error fault => rw [first] at found; cases found
  | ok r =>
    have here := blocked r.1 r.2 first
    rw [first] at found
    change walk t false r.2 r.1 rest = _ at found
    cases rest with
    | nil =>
      rw [walk_nil] at found
      cases found
      exact here
    | cons piece rest => rw [walk_stuck here] at found; cases found

-- The way to a directory is the same in a tree that differs in such an entry.
theorem walk_agree {u : Tree ν β} (blocked : Blocked t most front n) (agree : ∀ q, q ≠ front ++ [n] → u.nodes q = t.nodes q)
    (few : links ≤ most) (found : walk t false links place ps = .ok (p,left)) (dir : t.nodes p = some .dir) :
    walk u false links place ps = .ok (p,left) := by
  have same : ∀ q, t.nodes q = some .dir → u.nodes q = some .dir := by
    intro q here
    rw [agree q (fun at' => blocked.dir (at' ▸ here))]
    exact here
  induction links, place, ps using walk_rounds t with
  | nil links place => rw [walk_nil] at found ⊢; exact found
  | stuck links place piece rest other => rw [walk_stuck other] at found; cases found
  | here links place rest inside ih =>
    rw [walk_here inside] at found
    rw [walk_here (same place inside)]
    exact ih few found
  | up links place rest inside ih =>
    rw [walk_up inside] at found
    rw [walk_up (same place inside)]
    exact ih few found
  | absent links place n rest inside absent => rw [walk_absent inside absent] at found; cases found
  | real links place m rest inside real ih =>
    rw [walk_real inside real] at found
    by_cases here : place ++ [m] = front ++ [n]
    · -- it is a file, behind which a walk ends
      have other : t.nodes (place ++ [m]) ≠ some .dir := here ▸ blocked.dir
      cases rest with
      | nil =>
        rw [walk_nil] at found
        cases found
        exact absurd dir other
      | cons piece rest => rw [walk_stuck other] at found; cases found
    · have still : Real u (place ++ [m]) := by rwa [Real,agree _ here]
      rw [walk_real (same place inside) still]
      exact ih few found
  | loop place m rest target inside there => rw [walk_loop inside there] at found; cases found
  | link links place m rest target inside there ih =>
    rw [walk_link inside there] at found
    by_cases here : place ++ [m] = front ++ [n]
    · obtain ⟨rfl,last⟩ := List.append_inj' here rfl
      cases last
      exact absurd dir (walk_through (blocked.link target there links (by omega)) found)
    · rw [walk_link (same place inside) (by rw [agree _ here,there])]
      exact ih (by omega) found

end

namespace Tree

omit [DecidableEq β] in
def empty : Tree ν β where
  nodes place := if place = [] then some .dir else none
  root := rfl
  closed _ _ entry := absurd (if_neg (List.append_ne_nil_of_right_ne_nil _ (List.cons_ne_nil _ _))) entry

-- A file, a link or a new directory comes to a place in a directory; a directory
-- is not replaced.
def set (t : Tree ν β) (place : Place ν) (node : Node ν β) : Tree ν β :=
  if allowed : place ≠ [] ∧ t.nodes place.dropLast = some .dir ∧ t.nodes place ≠ some .dir then
    { nodes := Function.update t.nodes place (some node)
      root := by rw [Function.update_of_ne (Ne.symm allowed.1),t.root]
      closed := by
        intro q name entry
        have above : t.nodes q = some .dir := by
          by_cases here : q ++ [name] = place
          · rw [← here,List.dropLast_concat] at allowed
            exact allowed.2.1
          · rw [Function.update_of_ne here] at entry
            exact t.closed q name entry
        have other : q ≠ place := fun same => allowed.2.2 (same ▸ above)
        rw [Function.update_of_ne other,above] }
  else t

def erase (t : Tree ν β) (place : Place ν) : Tree ν β :=
  if leaf : t.nodes place ≠ some .dir then
    { nodes := Function.update t.nodes place none
      root := by
        have other : [] ≠ place := fun same => leaf (same ▸ t.root)
        rw [Function.update_of_ne other,t.root]
      closed := by
        intro q name entry
        have inside : q ++ [name] ≠ place := fun same => by rw [same,Function.update_self] at entry; exact entry rfl
        rw [Function.update_of_ne inside] at entry
        have above := t.closed q name entry
        have other : q ≠ place := fun same => leaf (same ▸ above)
        rw [Function.update_of_ne other,above] }
  else t

-- The entry itself moves, a link as it is.
def rename (t : Tree ν β) (old new : Place ν) : Tree ν β := match t.nodes old with
  | none | some .dir => t
  | some node => (t.set new node).erase old

theorem set_self (t : Tree ν β) (dir : t.nodes front = some .dir) (other : t.nodes (front ++ [n]) ≠ some .dir) (node : Node ν β) :
    (t.set (front ++ [n]) node).nodes (front ++ [n]) = some node := by
  have allowed : front ++ [n] ≠ [] ∧ t.nodes (front ++ [n]).dropLast = some .dir ∧ t.nodes (front ++ [n]) ≠ some .dir :=
    ⟨List.append_ne_nil_of_right_ne_nil _ (List.cons_ne_nil _ _),by rwa [List.dropLast_concat],other⟩
  rw [set,dif_pos allowed]
  exact Function.update_self _ _ _

theorem set_other (t : Tree ν β) (other : q ≠ place) (node : Node ν β) : (t.set place node).nodes q = t.nodes q := by
  unfold set
  split
  · exact Function.update_of_ne other _ _
  · rfl

theorem set_same (t : Tree ν β) (there : t.nodes place = some node) : t.set place node = t := by
  ext1
  funext q
  by_cases here : q = place
  · rw [here]
    unfold set
    split
    · exact (Function.update_self _ _ _).trans there.symm
    · rfl
  · exact t.set_other here node

theorem erase_self (t : Tree ν β) (leaf : t.nodes place ≠ some .dir) : (t.erase place).nodes place = none := by
  rw [erase,dif_pos leaf]
  exact Function.update_self _ _ _

theorem erase_other (t : Tree ν β) (other : q ≠ place) : (t.erase place).nodes q = t.nodes q := by
  unfold erase
  split
  · exact Function.update_of_ne other _ _
  · rfl

theorem erase_none (t : Tree ν β) (absent : t.nodes place = none) : t.erase place = t := by
  ext1
  funext q
  by_cases here : q = place
  · rw [here,absent]
    exact t.erase_self (by rw [absent]; nofun)
  · exact t.erase_other here

theorem erase_dir (t : Tree ν β) (dir : t.nodes place = some .dir) : t.erase place = t := dif_neg (not_not.mpr dir)

theorem erase_set (t : Tree ν β) (absent : t.nodes place = none) (node : Node ν β) (leaf : node ≠ .dir) :
    (t.set place node).erase place = t := by
  ext1
  funext q
  by_cases here : q = place
  · rw [here,absent]
    refine erase_self _ ?_
    unfold set
    split
    · intro same
      have self : Function.update t.nodes place (some node) place = some node := Function.update_self _ _ _
      exact leaf (Option.some.inj (self.symm.trans same))
    · rw [absent]
      nofun
  · rw [erase_other _ here,set_other _ here]

theorem rename_leaf (t : Tree ν β) (there : t.nodes old = some node) (leaf : node ≠ .dir) :
    t.rename old new = (t.set new node).erase old := by
  unfold rename
  split
  · rename_i absent
    cases there.symm.trans absent
  · rename_i dir
    exact absurd (Option.some.inj (there.symm.trans dir)) leaf
  · rename_i other _ found
    rw [Option.some.inj (there.symm.trans found)]

end Tree

end PrincessIDE.FileTree
