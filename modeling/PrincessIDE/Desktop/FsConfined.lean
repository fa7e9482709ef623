import PrincessIDE.Desktop.FsHandler

namespace PrincessIDE.Fs
open FileTree Error
open Utf8 (Text Bytes encode lossy)
open Ops (err)

-- The directories and files that a lookup finds.
theorem lookup_ok : lookup t create start path = .ok place ↔ hasNul path = false ∧ ∃ left, walk t create maxLinks start path = .ok (place,left) := by
  unfold lookup
  by_cases nul : hasNul path = true
  · simp [nul]
  · rw [if_neg nul]
    cases walked : walk t create maxLinks start path with
    | error fault => simp
    | ok found => obtain ⟨p,left⟩ := found; simp [nul]

theorem lookup_real (found : lookup t false [] path = .ok place) : Real t place := by
  obtain ⟨_,left,walked⟩ := lookup_ok.mp found
  exact walk_ends (.inl t.root) walked

theorem hasNul_append (a b : FsPath) : hasNul (a ++ b) = (hasNul a || hasNul b) := List.any_append

theorem hasNul_heres (heres : ∀ piece ∈ path, piece = .here) : hasNul path = false := by
  refine List.any_eq_false.mpr fun piece member => ?_
  rw [heres piece member]
  exact Bool.false_ne_true

-- The temporary file has another name than the file, and no NUL only where the
-- file has none.
theorem tmpName_other (pid : Nat) (name : Bytes) : tmpName pid name ≠ name := by
  intro same
  have text := congrArg lossy same
  rw [tmpName,Utf8.lossy_encode] at text
  have lengths := congrArg List.length text
  simp only [List.length_append,String.length_toList] at lengths
  have suffix : ".tmp".length = 4 := by decide
  omega

theorem lossy_nul (inside : 0 ∈ name) : Char.ofNat 0 ∈ lossy name := by
  obtain ⟨a,b,rfl⟩ := List.append_of_mem inside
  have ascii : (0 : UInt8).toNat < 0x80 := by decide
  rw [Utf8.Seam.lossy (Utf8.Seam.before_ascii a ascii b),Utf8.lossy,Utf8.lossy,Utf8.segments_ascii ascii]
  simp [Utf8.Segment.char]

theorem tmpName_nul (pid : Nat) (inside : 0 ∈ name) : 0 ∈ tmpName pid name := by
  refine List.mem_flatMap.mpr ⟨Char.ofNat 0,?_,by decide⟩
  simp only [List.mem_append]
  exact .inl (.inl (.inl (.inr (lossy_nul inside))))

theorem heres_piece {path : FsPath} (member : p ∈ path.rtakeWhile isHere) : p = .here := by
  have here := List.mem_rtakeWhile_imp member
  exact eq_of_beq here

-- The name of a path is behind the directory, with dots and slashes at most
-- behind each of them.
theorem path_parts (named : fileName path = some name) (found : parent path = some above) :
    ∃ heres, bare path = above ++ heres ++ [Piece.name name] ∧ ∀ piece ∈ heres, piece = .here := by
  unfold fileName at named
  unfold parent at found
  split at named
  · rename_i n last
    cases named
    split at found
    · cases found
    · cases found
      have cut := List.dropLast_append_getLast? _ last
      have heres := List.rdropWhile_append_rtakeWhile (p:=isHere) (l:=(bare path).dropLast)
      refine ⟨(bare path).dropLast.rtakeWhile isHere,?_,fun piece => heres_piece⟩
      rw [show bare (bare path).dropLast = (bare path).dropLast.rdropWhile isHere from rfl,heres,cut]
  · cases named

theorem path_behind (path : FsPath) : ∃ heres, path = bare path ++ heres ∧ (∀ piece ∈ heres, piece = .here) ∧
    (bare path = path ↔ heres = []) := by
  have whole := List.rdropWhile_append_rtakeWhile (p:=isHere) (l:=path)
  refine ⟨path.rtakeWhile isHere,whole.symm,fun piece => heres_piece,?_⟩
  rw [bare]
  constructor
  · intro same
    rw [same] at whole
    exact List.append_right_eq_self.mp whole
  · intro none
    rw [none,List.append_nil] at whole
    exact whole

-- What the checks of `fs_write` have seen.
structure Checked (t : FsTree) (cwd : FsPlace) (display : Json → Text) (args : Json) (job : Job) : Prop where
  content : (args.get "content").bind Json.asStr = some job.content
  root : ∃ root, (args.get "projectRoot").bind Json.asStr = some root ∧ canonicalRoot t cwd root = .ok job.root
  path : (args.get "path").bind Json.asStr = some job.path
  joined : joinChecked job.root job.path = .ok job.candidate
  above : ∃ above, Fs.parent job.candidate = some above ∧ lookup t false [] above = .ok job.parent
  inside : job.root <+: job.parent
  named : fileName job.candidate = some job.name
  existed : job.existed = exists' t (pathOf job.target)
  plain : job.existed = true → isFile t (pathOf job.target) = true

theorem bind_parts {x : Except ε α} {f : α → Except ε β} (done : x >>= f = .ok b) : ∃ a, x = .ok a ∧ f a = .ok b := by
  cases x with
  | error e => cases done
  | ok a => exact ⟨a,rfl,done⟩

theorem mapError_ok {x : Except ε α} {f : ε → δ} (done : x.mapError f = .ok a) : x = .ok a := by
  cases x with
  | error e => cases done
  | ok b => exact congrArg Except.ok (Except.ok.inj done)

theorem argStr_ok (done : argStr display args key cmd = .ok value) : (args.get key).bind Json.asStr = some value := by
  unfold argStr at done
  split at done
  · rename_i found
    rw [found,Except.ok.inj done]
  · cases done

theorem checkWrite_checked (done : checkWrite t cwd display args = .ok job) : Checked t cwd display args job := by
  obtain ⟨root,rootArg,done⟩ := bind_parts done
  obtain ⟨path,pathArg,done⟩ := bind_parts done
  obtain ⟨content,contentArg,done⟩ := bind_parts done
  obtain ⟨canonical,rootFound,done⟩ := bind_parts done
  obtain ⟨candidate,joined,done⟩ := bind_parts done
  split at done
  · cases done
  · rename_i above aboveFound
    obtain ⟨parent,parentFound,done⟩ := bind_parts done
    split at done
    · rename_i inside
      split at done
      · cases done
      · rename_i name named
        unfold checkTarget at done
        split at done
        · cases done
        · rename_i plain
          cases done
          refine ⟨argStr_ok contentArg,⟨root,argStr_ok rootArg,rootFound⟩,argStr_ok pathArg,joined,
            ⟨above,aboveFound,mapError_ok parentFound⟩,List.isPrefixOf_iff_prefix.mp inside,named,rfl,fun existed => ?_⟩
          change exists' t _ = true at existed
          simpa [existed] using plain
    · cases done

theorem hasNul_target (pid : Nat) (job : Job) (plain : hasNul (pathOf (job.tmp pid)) = false) : hasNul (pathOf job.target) = false := by
  rw [Job.tmp,pathOf,List.map_append,hasNul_append,Bool.or_eq_false_iff] at plain
  rw [Job.target,pathOf,List.map_append,hasNul_append,Bool.or_eq_false_iff]
  refine ⟨plain.1,List.any_eq_false.mpr fun piece member => ?_⟩
  rw [List.mem_singleton.mp member]
  intro nul
  have zero := tmpName_nul pid (List.contains_iff_mem.mp nul)
  have none := List.any_eq_false.mp plain.2 (.name (tmpName pid job.name)) List.mem_cons_self
  exact none (List.contains_iff_mem.mpr zero)

theorem lookup_place (create : Bool) (real : Real t place) (plain : hasNul (pathOf place) = false) :
    lookup t create [] (pathOf place) = .ok place := by
  refine lookup_ok.mpr ⟨plain,maxLinks,?_⟩
  have walked : walk t create maxLinks [] (pathOf place ++ []) = walk t create maxLinks place [] := walk_place real maxLinks []
  rw [List.append_nil,walk_nil] at walked
  exact walked

theorem isFile_ok (file : isFile t path = true) (found : lookup t false [] path = .ok place) : ∃ content, t.nodes place = some (.file content) := by
  rw [isFile,found] at file
  dsimp only at file
  split at file
  · exact ⟨_,by assumption⟩
  · cases file

-- `fs_write` goes on only where the target is no directory, nor a link to one.
theorem Checked.blocked (checked : Checked t cwd display args job) (plain : hasNul (pathOf job.target) = false) :
    Blocked t maxLinks job.parent job.name := by
  have file : ∀ place, lookup t false [] (pathOf job.target) = .ok place → ∃ content, t.nodes place = some (.file content) := by
    intro place found
    have existed : job.existed = true := by rw [checked.existed,exists',found]; rfl
    exact isFile_ok (checked.plain existed) found
  refine ⟨fun dir => ?_,fun target there links few p left walked dir => ?_⟩
  · obtain ⟨content,found⟩ := file _ (lookup_place false (.inl dir) plain)
    cases dir.symm.trans found
  · obtain ⟨above,_,parentFound⟩ := checked.above
    have inside : t.nodes job.parent = some .dir := t.closed _ job.name (by rw [there]; nofun)
    have found : lookup t false [] (pathOf job.target) = .ok p := by
      refine lookup_ok.mpr ⟨plain,left+(maxLinks-1-links),?_⟩
      have more := walk_more walked (maxLinks-1-links)
      rw [Job.target,pathOf,List.map_append,walk_place (.inl inside),List.map_singleton,show maxLinks = maxLinks-1+1 from rfl,
        walk_link inside there,List.append_nil]
      rw [show links+(maxLinks-1-links) = maxLinks-1 by omega] at more
      exact more
    obtain ⟨content,still⟩ := file p found
    cases dir.symm.trans still

-- A request for the same file.
structure SameFile (args again : Json) : Prop where
  root : (again.get "projectRoot").bind Json.asStr = (args.get "projectRoot").bind Json.asStr
  path : (again.get "path").bind Json.asStr = (args.get "path").bind Json.asStr

def quiet : ReadFate := ⟨none,none⟩

theorem argStr_some (display : Json → Text) (cmd : Text) (found : (args.get key).bind Json.asStr = some value) :
    argStr display args key cmd = .ok value := by
  rw [argStr,found]

theorem canonicalRoot_agree {u : FsTree} (found : canonicalRoot t cwd root = .ok place) (dir : t.nodes place = some .dir)
    (blocked : Blocked t maxLinks front n) (agree : ∀ q, q ≠ front ++ [n] → u.nodes q = t.nodes q) :
    canonicalRoot u cwd root = .ok place := by
  unfold canonicalRoot at found ⊢
  split at found
  · cases found
  · rename_i some
    obtain ⟨plain,left,walked⟩ := lookup_ok.mp (mapError_ok found)
    have still := lookup_ok.mpr ⟨plain,left,walk_agree blocked agree (Nat.le_refl _) walked dir⟩
    rw [if_neg some,still]
    rfl

-- The written file is found again, unless there is a slash or a dot behind it.
theorem lookup_written {u : FsTree} (checked : Checked t cwd display args job) (plain : hasNul (pathOf job.target) = false)
    (dir : t.nodes job.parent = some .dir) (agree : ∀ q, q ≠ job.target → u.nodes q = t.nodes q)
    (written : u.nodes job.target = some (.file content)) :
    (bare job.candidate = job.candidate → lookup u false [] job.candidate = .ok job.target) ∧
    (bare job.candidate ≠ job.candidate → ∀ place, lookup u false [] job.candidate ≠ .ok place) := by
  obtain ⟨above,aboveFound,parentFound⟩ := checked.above
  obtain ⟨between,front,heres⟩ := path_parts checked.named aboveFound
  obtain ⟨behind,whole,dots,same⟩ := path_behind job.candidate
  obtain ⟨clean,left,walked⟩ := lookup_ok.mp parentFound
  have blocked := checked.blocked plain
  have other : job.parent ≠ job.target := fun same => blocked.dir (by rw [← Job.target,← same,dir])
  have inside : u.nodes job.parent = some .dir := (agree _ other).trans dir
  have still := walk_agree blocked agree (Nat.le_refl _) walked dir
  have reached : walk u false maxLinks [] (bare job.candidate) = .ok (job.target,left) := by
    rw [front,List.append_assoc,walk_append,still]
    change walk u false left job.parent _ = _
    rw [walk_append,walk_heres inside heres]
    change walk u false left job.parent [.name job.name] = _
    rw [walk_real inside (.inr ⟨content,written⟩),walk_nil]
    rfl
  have name : hasNul [.name job.name] = false := by
    rw [Job.target,pathOf,List.map_append,hasNul_append,Bool.or_eq_false_iff] at plain
    exact plain.2
  constructor
  · intro last
    refine lookup_ok.mpr ⟨?_,left,by rw [← last]; exact reached⟩
    rw [← last,front,hasNul_append,hasNul_append,clean,hasNul_heres heres,name]
    rfl
  · intro more place found
    obtain ⟨_,rest,passed⟩ := lookup_ok.mp found
    rw [whole,walk_append,reached] at passed
    change walk u false left job.target behind = _ at passed
    have file : u.nodes job.target ≠ some .dir := by rw [written]; nofun
    cases behind with
    | nil => exact more (same.mpr rfl)
    | cons piece later => rw [walk_stuck file] at passed; cases passed

def WriteFate.Fails (fate : WriteFate) : Prop := fate.written ≠ none ∨ fate.renamed ≠ none

-- What is in the temporary file when it is closed.
def WriteFate.bytes (fate : WriteFate) (content : Text) : Bytes := match fate.written with
  | some (n,_) => (encode content).take n
  | none => encode content

-- What a read answers with: the front of a file under the root.
structure ReadInside (t : FsTree) (root : FsPlace) (data : ReadData) (real : FsPlace) (content : Bytes) : Prop where
  inside : root <+: real
  file : t.nodes real = some (.file content)
  path : data.path = placeText real
  bytes : data.bytes = content.length
  front : data.content = lossy (content.take maxReadBytes)

-- What a write may do: only the target changes, and not where the write fails;
-- where it succeeds, a read of the same file has what was written.
structure Confined (t : FsTree) (cwd : FsPlace) (pid : Nat) (display : Json → Text) (args : Json) (fate : WriteFate) : Prop where
  inside : ∀ job, checkWrite t cwd display args = .ok job → job.root <+: job.target
  frame : ∀ place, (∀ job, checkWrite t cwd display args = .ok job → place ≠ job.target) →
    (fsWrite t cwd pid display args fate).1.nodes place = t.nodes place
  failed : ∀ e, (fsWrite t cwd pid display args fate).2 = .error e → ∀ job, checkWrite t cwd display args = .ok job →
    (fsWrite t cwd pid display args fate).1.nodes job.target = t.nodes job.target
  readBack : ∀ data, (fsWrite t cwd pid display args fate).2 = .ok data → ∀ again, SameFile args again → ∃ got content,
    fsRead (fsWrite t cwd pid display args fate).1 cwd display again quiet = .ok got ∧
      (args.get "content").bind Json.asStr = some content ∧ got.content = lossy ((encode content).take maxReadBytes)

-- Nothing stands where the temporary file comes to be, and what comes there is
-- taken away when the write fails; nothing is behind the name of the file when it
-- succeeds. A directory stands in the way of every write. Of a file or a link
-- that stands there nothing may be seen afterwards.
def Harmless (t : FsTree) (pid : Nat) (fate : WriteFate) (job : Job) : Prop := match t.nodes (job.tmp pid) with
  | some .dir => True
  | none => ∀ place, openTmp t fate (job.tmp pid) = .ok place →
      (fate.Fails → fate.removed = true) ∧ (¬ fate.Fails → bare job.candidate = job.candidate)
  | some _ => fate.removed = false ∧ ∀ place, openTmp t fate (job.tmp pid) = .ok place →
      fate.Fails ∧ t.nodes place = some (.file (fate.bytes job.content))

theorem replace_closed {job : Job} (closed : openTmp t fate (job.tmp pid) = .error e) :
    ∃ reply, replace t pid fate job = (removeFile t fate (job.tmp pid),.error reply) := by
  rw [replace,closed]
  exact ⟨_,rfl⟩

theorem replace_failed {job : Job} (opened : openTmp t fate (job.tmp pid) = .ok place) (fails : fate.Fails) :
    ∃ reply, replace t pid fate job = (removeFile (t.set place (.file (fate.bytes job.content))) fate (job.tmp pid),.error reply) := by
  rw [replace,opened,WriteFate.bytes]
  cases written : fate.written with
  | some cut => exact ⟨_,rfl⟩
  | none => cases renamed : fate.renamed with
    | some e => exact ⟨_,rfl⟩
    | none => exact absurd fails (by simp [WriteFate.Fails,written,renamed])

theorem replace_done {job : Job} (opened : openTmp t fate (job.tmp pid) = .ok place) (done : ¬ fate.Fails) : ∃ data, replace t pid fate job =
    ((t.set place (.file (encode job.content))).rename (job.tmp pid) job.target,.ok data) := by
  simp only [WriteFate.Fails,not_or,not_not] at done
  rw [replace,opened,done.1,done.2]
  exact ⟨_,rfl⟩

theorem openTmp_ok {job : Job} (opened : openTmp t fate (job.tmp pid) = .ok place) :
    lookup t true [] (pathOf (job.tmp pid)) = .ok place ∧ t.nodes place ≠ some .dir := by
  unfold openTmp at opened
  split at opened
  · cases opened
  · unfold createFile at opened
    split at opened
    · cases opened
    · rename_i found
      split at opened
      · cases opened
      · rename_i other
        rw [← Except.ok.inj opened]
        exact ⟨found,other⟩

-- The file that is opened is in a directory.
theorem openTmp_place {job : Job} (opened : openTmp t fate (job.tmp pid) = .ok place) :
    ∃ front n, place = front ++ [n] ∧ t.nodes front = some .dir ∧ t.nodes (front ++ [n]) ≠ some .dir := by
  obtain ⟨found,other⟩ := openTmp_ok opened
  obtain ⟨_,left,walked⟩ := lookup_ok.mp found
  rcases walk_created (.inl t.root) walked with real | ⟨front,n,rfl,dir,_⟩
  · rcases List.eq_nil_or_concat place with rfl | ⟨front,n,rfl⟩
    · exact absurd t.root other
    · rw [List.concat_eq_append] at real other ⊢
      exact ⟨front,n,rfl,t.closed front n (by rcases real with here | ⟨_,here⟩ <;> rw [here] <;> nofun),other⟩
  · exact ⟨front,n,rfl,dir,other⟩

theorem openTmp_dir {job : Job} (fate : WriteFate) (dir : t.nodes (job.tmp pid) = some .dir) :
    ∃ e, openTmp t fate (job.tmp pid) = .error e := by
  cases opened : openTmp t fate (job.tmp pid) with
  | error e => exact ⟨e,rfl⟩
  | ok place =>
    obtain ⟨found,other⟩ := openTmp_ok opened
    have there := lookup_place true (.inl dir) (lookup_ok.mp found).1
    rw [there] at found
    exact absurd dir (Except.ok.inj found ▸ other)

theorem openTmp_new (checked : Checked t cwd display args job) (absent : t.nodes (job.tmp pid) = none)
    (opened : openTmp t fate (job.tmp pid) = .ok place) :
    place = job.tmp pid ∧ t.nodes job.parent = some .dir ∧ hasNul (pathOf (job.tmp pid)) = false := by
  obtain ⟨found,_⟩ := openTmp_ok opened
  obtain ⟨plain,left,walked⟩ := lookup_ok.mp found
  obtain ⟨above,_,parentFound⟩ := checked.above
  rw [Job.tmp,pathOf,List.map_append,walk_place (lookup_real parentFound)] at walked
  by_cases dir : t.nodes job.parent = some .dir
  · rw [List.map_singleton,walk_absent dir absent] at walked
    cases walked
    exact ⟨rfl,dir,plain⟩
  · rw [List.map_singleton,walk_stuck dir] at walked
    cases walked

theorem fsWrite_job (found : checkWrite t cwd display args = .ok job) (pid : Nat) (fate : WriteFate) :
    fsWrite t cwd pid display args fate = replace t pid fate job := by
  rw [fsWrite,found]

theorem tmp_other (pid : Nat) (job : Job) : job.tmp pid ≠ job.target := fun same =>
  tmpName_other pid job.name (List.cons.inj (List.append_cancel_left same)).1

-- A write that leaves the tree as it was, and says so.
theorem confined_unchanged (found : checkWrite t cwd display args = .ok job) (replaced : replace t pid fate job = (u,.error reply))
    (same : u = t) : Confined t cwd pid display args fate where
  inside other also := by
    rw [← Except.ok.inj (found.symm.trans also)]
    exact (checkWrite_checked found).inside.trans (List.prefix_append _ _)
  frame place _ := by rw [fsWrite_job found,replaced,same]
  failed _ _ _ _ := by rw [fsWrite_job found,replaced,same]
  readBack data done := by
    rw [fsWrite_job found,replaced] at done
    cases done

theorem fsRead_written {u : FsTree} (checked : Checked t cwd display args job) (plain : hasNul (pathOf job.target) = false)
    (dir : t.nodes job.parent = some .dir) (agree : ∀ q, q ≠ job.target → u.nodes q = t.nodes q)
    (written : u.nodes job.target = some (.file content)) (same : SameFile args again) :
    (bare job.candidate = job.candidate → fsRead u cwd display again quiet =
      .ok ⟨placeText job.target,content.length,lossy (content.take maxReadBytes),decide (content.length > maxReadBytes)⟩) ∧
    (bare job.candidate ≠ job.candidate → ∀ got, fsRead u cwd display again quiet ≠ .ok got) := by
  obtain ⟨root,rootArg,rootFound⟩ := checked.root
  have rootDir := dir_prefix t checked.inside dir
  have blocked := checked.blocked plain
  have rootStill := canonicalRoot_agree rootFound rootDir blocked agree
  obtain ⟨reads,fails⟩ := lookup_written checked plain dir agree written
  have inside : job.root.isPrefixOf job.target = true :=
    List.isPrefixOf_iff_prefix.mpr (checked.inside.trans (List.prefix_append _ _))
  have start : fsRead u cwd display again quiet = (lookup u false [] job.candidate).mapError
      (err .notFound ("cannot open ".toList ++ job.path)) >>= fun real =>
        if job.root.isPrefixOf real then readReal u quiet job.path real else .error (denied job.path job.root) := by
    rw [fsRead,argStr_some display _ (same.root.trans rootArg),argStr_some display _ (same.path.trans checked.path)]
    change canonicalRoot u cwd root >>= _ = _
    rw [rootStill]
    change joinChecked job.root job.path >>= _ = _
    rw [checked.joined]
    rfl
  rw [start]
  refine ⟨fun last => ?_,fun more got read => ?_⟩
  · rw [reads last]
    change (if job.root.isPrefixOf job.target then _ else _) = _
    rw [if_pos inside,readReal,written]
    rfl
  · obtain ⟨place,found,_⟩ := bind_parts read
    exact fails more place (mapError_ok found)

-- The tree after a write that succeeds.
theorem done_tree {t : FsTree} {pid : Nat} {job : Job} (absent : t.nodes (job.tmp pid) = none) (dir : t.nodes job.parent = some .dir)
    (target : t.nodes job.target ≠ some .dir) (content : Bytes) :
    let u := (t.set (job.tmp pid) (.file content)).rename (job.tmp pid) job.target
    u.nodes job.target = some (.file content) ∧ ∀ q, q ≠ job.target → u.nodes q = t.nodes q := by
  have other := tmp_other pid job
  have self : (t.set (job.tmp pid) (.file content)).nodes (job.tmp pid) = some (.file content) :=
    t.set_self dir (by rw [← Job.tmp,absent]; nofun) _
  have inside : (t.set (job.tmp pid) (.file content)).nodes job.parent = some .dir := by
    rw [t.set_other (fun same => by rw [← same,dir] at absent; cases absent),dir]
  have free : (t.set (job.tmp pid) (.file content)).nodes job.target ≠ some .dir := by rwa [t.set_other other.symm]
  dsimp only
  rw [Tree.rename_leaf _ self nofun]
  constructor
  · rw [Tree.erase_other _ other.symm]
    exact Tree.set_self _ inside free _
  · intro q away
    by_cases here : q = job.tmp pid
    · rw [here,absent]
      refine Tree.erase_self _ ?_
      rw [Tree.set_other _ other,self]
      nofun
    · rw [Tree.erase_other _ here,Tree.set_other _ away,Tree.set_other _ here]

-- The file that was there is gone from the place of the temporary file.
theorem renamed_gone {t : FsTree} {pid : Nat} {job : Job} (found : t.nodes (job.tmp pid) = some node) (leaf : node ≠ .dir) :
    (t.rename (job.tmp pid) job.target).nodes (job.tmp pid) = none := by
  rw [t.rename_leaf found leaf]
  refine Tree.erase_self _ ?_
  rw [Tree.set_other _ (tmp_other pid job),found]
  exact fun same => leaf (Option.some.inj same)

-- A write to a file that is there, perhaps through a link, leaves no directory.
theorem set_leaf {t : FsTree} (found : t.nodes tmp = some node) (leaf : node ≠ .dir) (place : FsPlace) (content : Bytes) :
    ∃ after, (t.set place (.file content)).nodes tmp = some after ∧ after ≠ .dir := by
  by_cases here : tmp = place
  · subst place
    by_cases allowed : tmp ≠ [] ∧ t.nodes tmp.dropLast = some .dir ∧ t.nodes tmp ≠ some .dir
    · exact ⟨.file content,by rw [Tree.set,dif_pos allowed]; exact Function.update_self _ _ _,nofun⟩
    · exact ⟨node,by rw [Tree.set,dif_neg allowed,found],leaf⟩
  · exact ⟨node,by rw [t.set_other here,found],leaf⟩

theorem harmless_confined (found : checkWrite t cwd display args = .ok job) (harmless : Harmless t pid fate job) :
    Confined t cwd pid display args fate := by
  have checked := checkWrite_checked found
  unfold Harmless at harmless
  split at harmless
  · rename_i dir
    obtain ⟨e,closed⟩ := openTmp_dir fate dir
    obtain ⟨reply,replaced⟩ := replace_closed closed
    exact confined_unchanged found replaced (by rw [removeFile,Tree.erase_dir _ dir,ite_self])
  · rename_i absent
    cases opened : openTmp t fate (job.tmp pid) with
    | error e =>
      obtain ⟨reply,replaced⟩ := replace_closed opened
      exact confined_unchanged found replaced (by rw [removeFile,Tree.erase_none _ absent,ite_self])
    | ok place =>
      obtain ⟨removes,last⟩ := harmless place opened
      obtain ⟨here,dir,plain⟩ := openTmp_new checked absent opened
      subst here
      by_cases fails : fate.Fails
      · obtain ⟨reply,replaced⟩ := replace_failed opened fails
        exact confined_unchanged found replaced (by rw [removeFile,if_pos (removes fails),Tree.erase_set _ absent (.file _) nofun])
      · obtain ⟨data,replaced⟩ := replace_done opened fails
        have clean := hasNul_target pid job plain
        obtain ⟨written,agree⟩ := done_tree absent dir (checked.blocked clean).dir (encode job.content)
        have job' : ∀ other, checkWrite t cwd display args = .ok other → other = job :=
          fun other also => Except.ok.inj (also.symm.trans found)
        constructor
        · intro other also
          rw [job' other also]
          exact checked.inside.trans (List.prefix_append _ _)
        · intro q away
          rw [fsWrite_job found,replaced]
          exact agree q (away job found)
        · intro e failed
          rw [fsWrite_job found,replaced] at failed
          cases failed
        · intro _ _ again same
          have read := (fsRead_written checked clean dir agree written same).1 (last fails)
          rw [fsWrite_job found,replaced]
          exact ⟨_,_,read,checked.content,rfl⟩
  · rename_i node there leaf
    obtain ⟨stays,opens⟩ := harmless
    have kept : ∀ u, removeFile u fate (job.tmp pid) = u := fun u => by
      rw [removeFile,stays]
      rfl
    cases opened : openTmp t fate (job.tmp pid) with
    | error e =>
      obtain ⟨reply,replaced⟩ := replace_closed opened
      exact confined_unchanged found replaced (kept t)
    | ok place =>
      obtain ⟨fails,same⟩ := opens place opened
      obtain ⟨reply,replaced⟩ := replace_failed opened fails
      exact confined_unchanged found replaced (by rw [kept,Tree.set_same _ same])

-- What stood at the place of the temporary file is still there.
theorem confined_tmp (found : checkWrite t cwd display args = .ok job) (confined : Confined t cwd pid display args fate) :
    (replace t pid fate job).1.nodes (job.tmp pid) = t.nodes (job.tmp pid) := by
  rw [← fsWrite_job found]
  exact confined.frame _ fun other also => by
    rw [Except.ok.inj (also.symm.trans found)]
    exact tmp_other pid job

theorem confined_harmless (found : checkWrite t cwd display args = .ok job) (confined : Confined t cwd pid display args fate) :
    Harmless t pid fate job := by
  have checked := checkWrite_checked found
  have still := confined_tmp found confined
  unfold Harmless
  split
  · trivial
  · rename_i absent
    intro place opened
    obtain ⟨here,dir,plain⟩ := openTmp_new checked absent opened
    subst here
    constructor
    · intro fails
      by_contra kept
      obtain ⟨reply,replaced⟩ := replace_failed opened fails
      rw [replaced,removeFile,if_neg kept,absent,Job.tmp,Tree.set_self t dir (by rw [← Job.tmp,absent]; nofun)] at still
      cases still
    · intro done
      by_contra more
      obtain ⟨data,replaced⟩ := replace_done opened done
      have clean := hasNul_target pid job plain
      obtain ⟨written,agree⟩ := done_tree absent dir (checked.blocked clean).dir (encode job.content)
      have whole : fsWrite t cwd pid display args fate = _ := (fsWrite_job found pid fate).trans replaced
      obtain ⟨got,_,read,_⟩ := confined.readBack data (by rw [whole]) args ⟨rfl,rfl⟩
      rw [whole] at read
      exact (fsRead_written checked clean dir agree written ⟨rfl,rfl⟩).2 more got read
  · rename_i node leaf there
    have gone : ∀ u : FsTree, (∃ after, u.nodes (job.tmp pid) = some after ∧ after ≠ .dir) → (u.erase (job.tmp pid)).nodes (job.tmp pid) = none := by
      intro u there
      obtain ⟨after,here,file⟩ := there
      exact u.erase_self (by rw [here]; exact fun same => file (Option.some.inj same))
    have stays : fate.removed = false := by
      by_contra removed
      rw [Bool.not_eq_false] at removed
      cases opened : openTmp t fate (job.tmp pid) with
      | error e =>
        obtain ⟨reply,replaced⟩ := replace_closed opened
        rw [replaced,removeFile,if_pos removed,gone t ⟨node,there,leaf⟩,there] at still
        cases still
      | ok place =>
        by_cases fails : fate.Fails
        · obtain ⟨reply,replaced⟩ := replace_failed opened fails
          rw [replaced,removeFile,if_pos removed,gone _ (set_leaf there leaf _ _),there] at still
          cases still
        · obtain ⟨data,replaced⟩ := replace_done opened fails
          obtain ⟨after,here,file⟩ := set_leaf there leaf place (encode job.content)
          rw [replaced,renamed_gone here file,there] at still
          cases still
    refine ⟨stays,fun place opened => ?_⟩
    have fails : fate.Fails := by
      by_contra done
      obtain ⟨data,replaced⟩ := replace_done opened done
      obtain ⟨after,here,file⟩ := set_leaf there leaf place (encode job.content)
      rw [replaced,renamed_gone here file,there] at still
      cases still
    refine ⟨fails,?_⟩
    obtain ⟨reply,replaced⟩ := replace_failed opened fails
    have whole := (fsWrite_job found pid fate).trans replaced
    rw [removeFile,stays] at whole
    change _ = (t.set place (.file (fate.bytes job.content)),_) at whole
    obtain ⟨front,n,rfl,dir,other⟩ := openTmp_place opened
    have written := t.set_self dir other (.file (fate.bytes job.content))
    by_cases here : front ++ [n] = job.target
    · have same := confined.failed reply (by rw [whole]) job found
      rw [whole,← here,written] at same
      exact same.symm
    · have same := confined.frame (front ++ [n]) fun other also => by
        rw [Except.ok.inj (also.symm.trans found)]
        exact here
      rw [whole,written] at same
      exact same.symm

theorem fsRead_inside (done : fsRead t cwd display args fate = .ok data) : ∃ root path canonical candidate real content,
    (args.get "projectRoot").bind Json.asStr = some root ∧ (args.get "path").bind Json.asStr = some path ∧
    canonicalRoot t cwd root = .ok canonical ∧ joinChecked canonical path = .ok candidate ∧
    lookup t false [] candidate = .ok real ∧ ReadInside t canonical data real content := by
  obtain ⟨root,rootArg,done⟩ := bind_parts done
  obtain ⟨path,pathArg,done⟩ := bind_parts done
  obtain ⟨canonical,rootFound,done⟩ := bind_parts done
  obtain ⟨candidate,joined,done⟩ := bind_parts done
  obtain ⟨real,found,done⟩ := bind_parts done
  split at done
  · rename_i inside
    unfold readReal at done
    split at done
    · cases done
    · split at done
      · rename_i content file
        split at done
        · cases done
        · cases done
          exact ⟨root,path,canonical,candidate,real,content,argStr_ok rootArg,argStr_ok pathArg,rootFound,joined,mapError_ok found,
            List.isPrefixOf_iff_prefix.mp inside,file,rfl,rfl,rfl⟩
      · cases done
  · cases done

theorem fs_confined_iff (t : FsTree) (cwd : FsPlace) (pid : Nat) (display : Json → Text) (args : Json) :
    (∀ fate data, fsRead t cwd display args fate = .ok data → ∃ root path canonical candidate real content,
      (args.get "projectRoot").bind Json.asStr = some root ∧ (args.get "path").bind Json.asStr = some path ∧
      canonicalRoot t cwd root = .ok canonical ∧ joinChecked canonical path = .ok candidate ∧
      lookup t false [] candidate = .ok real ∧ ReadInside t canonical data real content) ∧
    ∀ fate, Confined t cwd pid display args fate ↔
      ∀ job, checkWrite t cwd display args = .ok job → Harmless t pid fate job := by
  refine ⟨fun fate data => fsRead_inside,fun fate => ⟨fun confined job found => confined_harmless found confined,fun harmless => ?_⟩⟩
  cases found : checkWrite t cwd display args with
  | ok job => exact harmless_confined found (harmless job found)
  | error e =>
    have same : fsWrite t cwd pid display args fate = (t,.error e) := by rw [fsWrite,found]
    constructor
    · intro job also
      cases found.symm.trans also
    · intro place _
      rw [same]
    · intro _ _ job also
      cases found.symm.trans also
    · intro data done
      rw [same] at done
      cases done

-- A project with a file of another process's making where the temporary file
-- comes to be, and a file outside.
def project (there : Node Bytes Bytes) : FsTree :=
  (((Tree.empty.set [encode "r".toList] .dir).set [encode "secret".toList] (.file (encode "keep".toList))).set
    [encode "r".toList,encode "a.c".toList] (.file (encode "old".toList))).set
    [encode "r".toList,encode ".a.c.princesside-7.tmp".toList] there

def secret : FsPlace := [encode "secret".toList]

def save (path : String) : Json := .obj [("projectRoot".toList,.str "/r".toList),("path".toList,.str path.toList),
  ("content".toList,.str "new".toList)]

def smooth : WriteFate := ⟨none,none,none,true⟩

def plain : Json → Text := fun _ => []

def linked : FsTree := project (.link ⟨true,[.name (encode "secret".toList)]⟩)

def taken : FsTree := project (.file (encode "mine".toList))

def ordinary : FsTree := taken.erase [encode "r".toList,encode ".a.c.princesside-7.tmp".toList]

theorem toOption_ok {x : Except ε α} (found : x.toOption = some a) : x = .ok a := by
  cases x with
  | error e => cases found
  | ok b => exact congrArg Except.ok (Option.some.inj found)

-- Where a file or a link stands already, no write that can remove it is harmless.
theorem taken_harms {job : Job} (there : t.nodes (job.tmp pid) = some node) (leaf : node ≠ .dir) (removed : fate.removed = true) :
    ¬ Harmless t pid fate job := by
  intro harmless
  unfold Harmless at harmless
  split at harmless
  · rename_i dir
    exact leaf (Option.some.inj (there.symm.trans dir))
  · rename_i absent
    cases there.symm.trans absent
  · exact Bool.false_ne_true (harmless.1.symm.trans removed)

def job (path : String) (behind : FsPath) : Job := ⟨path.toList,"new".toList,[encode "r".toList],
  [.name (encode "r".toList),.name (encode "a.c".toList)] ++ behind,[encode "r".toList],encode "a.c".toList,true⟩

theorem fs_write_escapes :
    ((fsWrite linked [] 7 plain (save "a.c") smooth).1.nodes secret = some (.file (encode "new".toList)) ∧
      ¬ Confined linked [] 7 plain (save "a.c") smooth) ∧
    ¬ Confined taken [] 7 plain (save "a.c") smooth ∧
    ((fsWrite ordinary [] 7 plain (save "a.c/") smooth).2.isOk = true ∧ ¬ Confined ordinary [] 7 plain (save "a.c/") smooth) := by
  have written : (fsWrite linked [] 7 plain (save "a.c") smooth).1.nodes secret = some (.file (encode "new".toList)) := by decide +kernel
  have linkedFound : (checkWrite linked [] plain (save "a.c")).toOption = some (job "a.c" []) := by decide +kernel
  have takenFound : (checkWrite taken [] plain (save "a.c")).toOption = some (job "a.c" []) := by decide +kernel
  have ordinaryFound : (checkWrite ordinary [] plain (save "a.c/")).toOption = some (job "a.c/" [.here]) := by decide +kernel
  refine ⟨⟨written,fun confined => ?_⟩,fun confined => ?_,by decide +kernel,fun confined => ?_⟩
  · have there : linked.nodes ((job "a.c" []).tmp 7) = some (.link ⟨true,[.name (encode "secret".toList)]⟩) := by decide +kernel
    exact taken_harms there nofun rfl (confined_harmless (toOption_ok linkedFound) confined)
  · have there : taken.nodes ((job "a.c" []).tmp 7) = some (.file (encode "mine".toList)) := by decide +kernel
    exact taken_harms there nofun rfl (confined_harmless (toOption_ok takenFound) confined)
  · have harmless := confined_harmless (toOption_ok ordinaryFound) confined
    have absent : ordinary.nodes ((job "a.c/" [.here]).tmp 7) = none := by decide +kernel
    have opened : (openTmp ordinary smooth ((job "a.c/" [.here]).tmp 7)).toOption = some ((job "a.c/" [.here]).tmp 7) := by decide +kernel
    rw [Harmless,absent] at harmless
    have last := (harmless _ (toOption_ok opened)).2 (by simp [WriteFate.Fails,smooth])
    exact absurd last (by decide +kernel)

end PrincessIDE.Fs
