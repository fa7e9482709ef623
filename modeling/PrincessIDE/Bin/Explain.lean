import PrincessIDE.Bin.Leaf

namespace PrincessIDE.PageTable
open Memory

structure NotPresent where
  levels : List WalkLevel
  level : Level
  index : BitVec 16
  entryAddress : U64
deriving DecidableEq, Repr

namespace Walker
variable [GuestMemory μ]

-- The loop of `partial_path`: the guards and the reads of `visit`, up to and
-- with the level `stop`, and no check on the entries.
def pathTo (walker : Walker μ) (address : U64) (stop : Level) (visited : List U64) (out : List WalkLevel) (table : U64) :
    List Level → Except WalkError (List WalkLevel)
  | [] => .ok out
  | level :: below =>
    if walker.outsideRam table then .error (.tableNotInRam level table)
    else if visited.contains table then .error (.cycle table level)
    else
      let index := tableIndex address level
      let entryAddress := table + index.setWidth 64 * 8
      match GuestMemory.readU64 walker.memory entryAddress with
      | .error source => .error (.memory level source)
      | .ok raw =>
        let entry := PageTableEntry.decode raw
        let out := out ++ [⟨level,index,table,entryAddress,entry⟩]
        if level = stop then .ok out
        else walker.pathTo address stop (visited ++ [table]) out entry.tablePhysicalAddress below

def levelsToVisit (walker : Walker μ) : List Level := (if walker.cr4.la57 then [.pml5] else []) ++ [.pml4,.pdpt,.pd,.pt]

def partialPath (walker : Walker μ) (cr3 : Cr3) (address : U64) (stop : Level) : Except WalkError (List WalkLevel) :=
  walker.pathTo address stop [] [] cr3.tableAddress walker.levelsToVisit

def walkOrExplain (walker : Walker μ) (cr3 : Cr3) (address : U64) : Except WalkError (Except NotPresent PageTableWalk) :=
  match walker.walk cr3 address with
  | .ok walk => .ok (.ok walk)
  | .error (.notPresent level index _) => do
    let path ← walker.partialPath cr3 address level
    let entryAddress := (path.getLast?.map WalkLevel.entryAddress).getD 0
    pure (.error ⟨path.dropLast,level,index,entryAddress⟩)
  | .error other => .error other

end Walker

theorem levelsToVisit_distinct (walker : Walker μ) : walker.levelsToVisit.Nodup := by
  unfold Walker.levelsToVisit
  cases walker.cr4.la57 <;> decide

-- Entries that lie one below the other, each of them read from the table that
-- the one before it points to, present, and no page; and the table behind them.
inductive Descends [GuestMemory μ] (walker : Walker μ) (address : U64) : U64 → List WalkLevel → U64 → Prop where
  | here : Descends walker address table [] table
  | down (level : Level) (read : GuestMemory.readU64 walker.memory (table + (tableIndex address level).setWidth 64 * 8) = .ok raw)
      (present : (PageTableEntry.decode raw).present = true) (inner : (PageTableEntry.decode raw).pageSize = false)
      (rest : Descends walker address (PageTableEntry.decode raw).tablePhysicalAddress steps last) :
      Descends walker address table (stepAt table level address raw :: steps) last

-- What a finding says of the memory: the entries above the hole, from the top
-- of the path on and without a gap, and the absent entry itself.
structure Explains [GuestMemory μ] (walker : Walker μ) (cr3 : Cr3) (address : U64) (found : NotPresent) (raw : U64) : Prop where
  path : ∃ table, Descends walker address cr3.tableAddress found.levels table ∧
    found.entryAddress = table + (tableIndex address found.level).setWidth 64 * 8
  order : found.levels.map WalkLevel.level ++ [found.level] <+: walker.levelsToVisit
  index : found.index = tableIndex address found.level
  read : GuestMemory.readU64 walker.memory found.entryAddress = .ok raw
  absent : (PageTableEntry.decode raw).present = false

section
variable [GuestMemory μ] {walker : Walker μ} {address : U64}

theorem finish_not (walker : Walker μ) (address : U64) (levels : List WalkLevel) (size : LeafSize) (base offset : U64) (leaf : PageTableEntry) :
    walker.finish address levels size base offset leaf ≠ .error (.notPresent level index raw) := by
  unfold Walker.finish
  split
  · exact fun same => nomatch same
  · split
    · exact fun same => nomatch same
    · exact fun same => nomatch same

-- The two ways to a hole: here, or at a table further down.
theorem visit_hole (stopped : walker.visit address visited levels table level below = .error (.notPresent stop index absent)) :
    walker.outsideRam table = false ∧ visited.contains table = false ∧
      ∃ raw, GuestMemory.readU64 walker.memory (table + (tableIndex address level).setWidth 64 * 8) = .ok raw ∧
        ((stop = level ∧ index = tableIndex address level ∧ absent = raw ∧ (PageTableEntry.decode raw).present = false) ∨
          ((PageTableEntry.decode raw).present = true ∧ (PageTableEntry.decode raw).pageSize = false ∧ ∃ next rest, below = next :: rest ∧
            walker.visit address (visited ++ [table]) (levels ++ [stepAt table level address raw])
              (PageTableEntry.decode raw).tablePhysicalAddress next rest = .error (.notPresent stop index absent))) := by
  rw [Walker.visit.eq_def] at stopped
  split at stopped
  · cases stopped
  rename_i inside
  split at stopped
  · cases stopped
  rename_i fresh
  rw [Bool.not_eq_true] at inside fresh
  refine ⟨inside,fresh,?_⟩
  dsimp only at stopped
  split at stopped
  · cases stopped
  rename_i raw read
  refine ⟨raw,read,?_⟩
  split at stopped
  · split at stopped
    · exact (finish_not _ _ _ _ _ _ _ stopped).elim
    · cases stopped
  · rename_i small
    rw [Bool.not_eq_true] at small
    split at stopped
    · rename_i none
      cases stopped
      exact .inl ⟨rfl,rfl,rfl,by simpa using none⟩
    · rename_i here
      have present : (PageTableEntry.decode raw).present = true := by simpa using here
      split at stopped
      · exact (finish_not _ _ _ _ _ _ _ stopped).elim
      · exact .inr ⟨present,small,_,_,rfl,stopped⟩

theorem pathTo_reads (inside : walker.outsideRam table = false) (fresh : visited.contains table = false)
    (read : GuestMemory.readU64 walker.memory (table + (tableIndex address level).setWidth 64 * 8) = .ok raw) (stop : Level)
    (out : List WalkLevel) (below : List Level) : walker.pathTo address stop visited out table (level :: below) =
      if level = stop then .ok (out ++ [stepAt table level address raw])
      else walker.pathTo address stop (visited ++ [table]) (out ++ [stepAt table level address raw])
        (PageTableEntry.decode raw).tablePhysicalAddress below := by
  rw [Walker.pathTo,inside,fresh]
  dsimp only
  rw [read]
  rfl

-- Behind a hole the second loop goes the way of the first and ends at it. By
-- induction on the levels that are left.
theorem visit_pathTo (stopped : walker.visit address visited levels table level below = .error (.notPresent stop index absent))
    (distinct : (level :: below).Nodup) : ∃ steps last, Descends walker address table steps last ∧
      steps.map WalkLevel.level ++ [stop] <+: level :: below ∧ index = tableIndex address stop ∧
      GuestMemory.readU64 walker.memory (last + (tableIndex address stop).setWidth 64 * 8) = .ok absent ∧
      (PageTableEntry.decode absent).present = false ∧
      ∀ out, walker.pathTo address stop visited out table (level :: below) = .ok (out ++ steps ++ [stepAt last stop address absent]) := by
  induction below generalizing level table visited levels with
  | nil =>
    obtain ⟨inside,fresh,raw,read,⟨rfl,rfl,rfl,none⟩ | ⟨_,_,next,rest,more,_⟩⟩ := visit_hole stopped
    · refine ⟨[],table,.here,List.prefix_refl _,rfl,read,none,fun out => ?_⟩
      rw [pathTo_reads inside fresh read,if_pos rfl,List.append_nil]
    · cases more
  | cons next rest ih =>
    obtain ⟨inside,fresh,raw,read,⟨rfl,rfl,rfl,none⟩ | ⟨present,small,_,_,more,deeper⟩⟩ := visit_hole stopped
    · refine ⟨[],table,.here,List.prefix_append [stop] _,rfl,read,none,fun out => ?_⟩
      rw [pathTo_reads inside fresh read,if_pos rfl,List.append_nil]
    · cases more
      obtain ⟨apart,below⟩ := List.nodup_cons.mp distinct
      obtain ⟨steps,last,descends,order,place,found,none,goes⟩ := ih deeper below
      refine ⟨stepAt table level address raw :: steps,last,.down level read present small descends,?_,place,found,none,fun out => ?_⟩
      · exact List.cons_prefix_cons.mpr ⟨rfl,order⟩
      · have among : stop ∈ next :: rest := order.subset (List.mem_append_right _ (List.mem_singleton_self _))
        have differ : level ≠ stop := fun same => apart (same ▸ among)
        rw [pathTo_reads inside fresh read,if_neg differ,goes]
        simp

theorem descends_unique (one : Descends walker address table steps last) (two : Descends walker address table steps' last')
    (same : steps.map WalkLevel.level = steps'.map WalkLevel.level) : steps = steps' ∧ last = last' := by
  induction one generalizing steps' last' with
  | here => cases two with
    | here => exact ⟨rfl,rfl⟩
    | down => cases same
  | down level read present inner rest ih => cases two with
    | here => cases same
    | down level' read' present' inner' rest' =>
      obtain ⟨top,below⟩ := List.cons.inj same
      change level = level' at top
      subst top
      obtain rfl := Except.ok.inj (read.symm.trans read')
      obtain ⟨rfl,rfl⟩ := ih rest' below
      exact ⟨rfl,rfl⟩

theorem before_unique {chain a b : List Level} {stop : Level} (distinct : chain.Nodup) (one : a ++ [stop] <+: chain) (two : b ++ [stop] <+: chain) :
    a = b := by
  have shorter : ∀ c d : List Level, d ++ [stop] <+: chain → c ++ [stop] <+: d ++ [stop] → c = d := by
    intro c d among inner
    rcases List.prefix_concat_iff.mp inner with same | further
    · exact (List.append_inj' same rfl).1
    · have inside : stop ∈ d := further.subset (List.mem_append_right _ (List.mem_singleton_self _))
      have once := distinct.sublist among.sublist
      exact ((List.nodup_append.mp once).2.2 stop inside stop (List.mem_singleton_self _) rfl).elim
  rcases List.prefix_or_prefix_of_prefix one two with inner | inner
  · exact shorter a b two inner
  · exact (shorter b a one inner).symm

theorem explains_unique {one two : NotPresent} (first : Explains walker cr3 address one raw) (second : Explains walker cr3 address two raw')
    (level : one.level = two.level) : one = two := by
  obtain ⟨table,descends,place⟩ := first.path
  obtain ⟨table',descends',place'⟩ := second.path
  have order := first.order
  have index := first.index
  rw [level] at order place index
  obtain ⟨levels,rfl⟩ := descends_unique descends descends' (before_unique (levelsToVisit_distinct walker) order second.order)
  obtain ⟨levels₁,level₁,index₁,entry₁⟩ := one
  obtain ⟨levels₂,level₂,index₂,entry₂⟩ := two
  simp only [NotPresent.mk.injEq]
  exact ⟨levels,level,index.trans second.index.symm,place.trans place'.symm⟩

-- A walk that stops at a hole has passed the canonical check; it visits the
-- levels that the second loop goes through again.
theorem walk_visits (stopped : walker.walk cr3 address = .error (.notPresent level index raw)) : ∃ top below,
    walker.levelsToVisit = top :: below ∧ walker.visit address [] [] cr3.tableAddress top below = .error (.notPresent level index raw) := by
  unfold Walker.walk at stopped
  unfold Walker.levelsToVisit
  generalize walker.cr4.la57 = five at stopped ⊢
  by_cases canonical : canonicality address (if five then 57 else 48) = .nonCanonical
  · rw [if_pos canonical] at stopped
    cases stopped
  · rw [if_neg canonical] at stopped
    cases five with
    | true => exact ⟨_,_,rfl,stopped⟩
    | false => exact ⟨_,_,rfl,stopped⟩

theorem walk_hole (stopped : walker.walk cr3 address = .error (.notPresent level index raw)) : ∃ found,
    walker.walkOrExplain cr3 address = .ok (.error found) ∧ found.level = level ∧ found.index = index ∧
      Explains walker cr3 address found raw := by
  have path : ∃ steps last, Descends walker address cr3.tableAddress steps last ∧
      steps.map WalkLevel.level ++ [level] <+: walker.levelsToVisit ∧ index = tableIndex address level ∧
      GuestMemory.readU64 walker.memory (last + (tableIndex address level).setWidth 64 * 8) = .ok raw ∧
      (PageTableEntry.decode raw).present = false ∧
      walker.partialPath cr3 address level = .ok (steps ++ [stepAt last level address raw]) := by
    obtain ⟨top,below,chain,goes⟩ := walk_visits stopped
    have distinct := levelsToVisit_distinct walker
    unfold Walker.partialPath
    rw [chain] at distinct ⊢
    obtain ⟨steps,last,descends,order,place,read,none,ends⟩ := visit_pathTo goes distinct
    exact ⟨steps,last,descends,order,place,read,none,ends []⟩
  obtain ⟨steps,last,descends,order,place,read,none,ends⟩ := path
  refine ⟨⟨steps,level,index,last + (tableIndex address level).setWidth 64 * 8⟩,?_,rfl,rfl,⟨last,descends,rfl⟩,order,place,read,none⟩
  rw [Walker.walkOrExplain,stopped]
  dsimp only
  rw [ends]
  simp [bind,Except.bind,pure,Except.pure,stepAt]

theorem walk_passed (failed : walker.walk cr3 address = .error e) (other : ∀ level index raw, e ≠ .notPresent level index raw) :
    walker.walkOrExplain cr3 address = .error e := by
  rw [Walker.walkOrExplain,failed]
  cases e with
  | notPresent level index raw => exact absurd rfl (other level index raw)
  | _ => rfl

-- The explanation is the walk, its other errors, or where the walk ended and why.
theorem walkOrExplain_agrees (walker : Walker μ) (cr3 : Cr3) (address : U64) :
    (∀ walk, walker.walkOrExplain cr3 address = .ok (.ok walk) ↔ walker.walk cr3 address = .ok walk) ∧
    (∀ e, walker.walkOrExplain cr3 address = .error e ↔
      walker.walk cr3 address = .error e ∧ ∀ level index raw, e ≠ .notPresent level index raw) ∧
    ∀ found, walker.walkOrExplain cr3 address = .ok (.error found) ↔
      ∃ raw, walker.walk cr3 address = .error (.notPresent found.level found.index raw) ∧ Explains walker cr3 address found raw := by
  cases result : walker.walk cr3 address with
  | ok walk =>
    have same : walker.walkOrExplain cr3 address = .ok (.ok walk) := by rw [Walker.walkOrExplain,result]
    simp [same]
  | error e =>
    by_cases hole : ∃ level index raw, e = .notPresent level index raw
    · obtain ⟨level,index,raw,rfl⟩ := hole
      obtain ⟨found,answer,rfl,rfl,explains⟩ := walk_hole result
      refine ⟨fun walk => ⟨?_,?_⟩,fun e => ⟨?_,?_⟩,fun found' => ⟨?_,?_⟩⟩
      · intro same
        cases answer.symm.trans same
      · intro same
        cases same
      · intro same
        cases answer.symm.trans same
      · rintro ⟨same,other⟩
        exact absurd (Except.error.inj same).symm (other _ _ _)
      · intro same
        cases answer.symm.trans same
        exact ⟨raw,rfl,explains⟩
      · rintro ⟨raw',same,explains'⟩
        obtain ⟨level,_,_⟩ := WalkError.notPresent.inj (Except.error.inj same)
        rw [answer,explains_unique explains explains' level]
    · have other : ∀ level index raw, e ≠ .notPresent level index raw := fun level index raw same => hole ⟨level,index,raw,same⟩
      have answer := walk_passed result other
      refine ⟨fun walk => ⟨?_,?_⟩,fun e' => ⟨?_,?_⟩,fun found => ⟨?_,?_⟩⟩
      · intro same
        cases answer.symm.trans same
      · intro same
        cases same
      · intro same
        cases answer.symm.trans same
        exact ⟨rfl,other⟩
      · rintro ⟨same,_⟩
        cases same
        exact answer
      · intro same
        cases answer.symm.trans same
      · rintro ⟨raw,same,_⟩
        exact absurd (Except.error.inj same) (other _ _ _)

end
end PrincessIDE.PageTable
