import PrincessIDE.Desktop.FsConfined

namespace PrincessIDE.EditorView
open Fs FileTree Str
open Utf8 (Text Bytes encode lossy replacement)

structure Status where
  text : Text
  error : Bool
deriving DecidableEq, Repr

-- The editor hands back the text that it was given.
structure View where
  currentPath : Text
  projectRoot : Text
  doc : Text
  dirty : Bool
  status : Status
deriving DecidableEq, Repr

def rootFor (view : View) (path : Text) : Text :=
  if view.projectRoot ≠ [] then view.projectRoot else
  let folder := (path.rdropWhile (· ≠ '/')).dropLast
  if folder = [] then ['/'] else folder

def readArgs (root path : Text) : Json := .obj [("projectRoot".toList,.str root),("path".toList,.str path)]

def writeArgs (root path content : Text) : Json :=
  .obj [("projectRoot".toList,.str root),("path".toList,.str path),("content".toList,.str content)]

def errorMessage (reply : Json) : Text := (((reply.get "error").bind (Json.get "message")).bind Json.asStr).getD []

def loadIntoEditor (view : View) (data : ReadData) : View :=
  let note := if data.truncated then " — truncated at the 8 MiB cap".toList else []
  let shown := data.path ++ " — ".toList ++ decimal data.bytes ++ " bytes".toList ++ note
  {view with currentPath:=data.path,doc:=data.content,dirty:=false,status:=⟨shown,false⟩}

def openPath (t : FsTree) (cwd : FsPlace) (display : Json → Text) (fate : ReadFate) (view : View) (path : Text) : View :=
  match fsRead t cwd display (readArgs (rootFor view path) path) fate with
  | .error e => {view with status:=⟨"open failed: ".toList ++ errorMessage e,true⟩}
  | .ok data => loadIntoEditor view data

def saveArgs (view : View) : Json := writeArgs (rootFor view view.currentPath) view.currentPath view.doc

def saved (view : View) : Except Json WriteData → View
  | .error e => {view with status:=⟨"save failed: ".toList ++ errorMessage e,true⟩}
  | .ok data =>
    let created := if data.created then " (created)".toList else []
    let shown := "saved ".toList ++ data.path ++ " — ".toList ++ decimal data.bytes ++ " bytes".toList ++ created
    {view with dirty:=false,status:=⟨shown,false⟩}

def save (t : FsTree) (cwd : FsPlace) (pid : Nat) (display : Json → Text) (fate : WriteFate) (view : View) : FsTree × View :=
  if view.currentPath = [] then (t,{view with status:=⟨"nothing to save — open a file first".toList,true⟩})
  else
    let (written,reply) := fsWrite t cwd pid display (saveArgs view) fate
    (written,saved view reply)

-- The file that a path leads to.
def Leads (t : FsTree) (cwd : FsPlace) (root path : Text) (real : FsPlace) (content : Bytes) : Prop := ∃ canonical candidate,
  canonicalRoot t cwd root = .ok canonical ∧ joinChecked canonical path = .ok candidate ∧
  lookup t false [] candidate = .ok real ∧ t.nodes real = some (.file content)

-- What a read that is cut at the cap can give back: text up to the cap, or beyond
-- it by the rest of a replacement character at the end.
def Whole (content : Bytes) : Prop := ∃ text, encode text = content ∧
  (content.length ≤ maxReadBytes ∨ ∃ front, text = front ++ [replacement] ∧ (encode front).length < maxReadBytes)

-- The write that the checks let go ahead: where the temporary file is opened, it
-- is not the file itself by a link; and the file, where it is the target, is
-- replaced by a file with the same bytes.
def Spares (t : FsTree) (pid : Nat) (fate : WriteFate) (job : Job) (real : FsPlace) (content : Bytes) : Prop :=
  ∀ place, openTmp t fate (job.tmp pid) = .ok place → (place = real → fate.bytes job.content = content) ∧
    (¬ fate.Fails → job.target = real → place = job.tmp pid ∧ Whole content)

theorem removeFile_other (u : FsTree) (fate : WriteFate) (other : real ≠ place) : (removeFile u fate place).nodes real = u.nodes real := by
  unfold removeFile
  split
  · exact u.erase_other other
  · rfl

-- Where the temporary file is opened elsewhere, a link stands in its place.
theorem openTmp_link {job : Job} (checked : Checked t cwd display args job) (opened : openTmp t fate (job.tmp pid) = .ok place)
    (elsewhere : place ≠ job.tmp pid) : ∃ target, t.nodes (job.tmp pid) = some (.link target) := by
  rcases node_cases t (job.tmp pid) with absent | real | link
  · exact absurd (openTmp_new checked absent opened).1 elsewhere
  · obtain ⟨found,_⟩ := openTmp_ok opened
    rw [lookup_place true real (lookup_ok.mp found).1] at found
    exact absurd (Except.ok.inj found).symm elsewhere
  · exact link

-- What is in a tree once the temporary file is written.
theorem opened_nodes {job : Job} (opened : openTmp t fate (job.tmp pid) = .ok place) (bytes : Bytes) (q : FsPlace) :
    (t.set place (.file bytes)).nodes q = if place = q then some (.file bytes) else t.nodes q := by
  by_cases here : place = q
  · obtain ⟨front,n,rfl,dir,other⟩ := openTmp_place opened
    rw [if_pos here,← here]
    exact t.set_self dir other _
  · rw [if_neg here]
    exact t.set_other (Ne.symm here) _

theorem opened_tmp {job : Job} (checked : Checked t cwd display args job) (opened : openTmp t fate (job.tmp pid) = .ok place) (bytes : Bytes) :
    (place = job.tmp pid ∧ (t.set place (.file bytes)).nodes (job.tmp pid) = some (.file bytes)) ∨
    (place ≠ job.tmp pid ∧ ∃ target, (t.set place (.file bytes)).nodes (job.tmp pid) = some (.link target)) := by
  have nodes := opened_nodes opened bytes (job.tmp pid)
  by_cases here : place = job.tmp pid
  · rw [if_pos here] at nodes
    exact .inl ⟨here,nodes⟩
  · rw [if_neg here] at nodes
    obtain ⟨target,link⟩ := openTmp_link checked opened here
    exact .inr ⟨here,target,nodes.trans link⟩

-- The file after the renaming: the entry of the temporary name where it is the
-- target, and what it was before where it is not.
theorem renamed_nodes {u : FsTree} {job : Job} (there : u.nodes (job.tmp pid) = some node) (leaf : node ≠ .dir)
    (file : u.nodes real = some (.file bytes)) (away : real ≠ job.tmp pid) :
    (u.rename (job.tmp pid) job.target).nodes real = if job.target = real then some node else some (.file bytes) := by
  rw [u.rename_leaf there leaf,Tree.erase_other _ away]
  by_cases here : job.target = real
  · rw [if_pos here,← here]
    rw [← here,Job.target] at file
    have stands : u.nodes (job.parent ++ [job.name]) ≠ none := by
      rw [file]
      intro none
      cases none
    refine u.set_self (u.closed job.parent job.name stands) ?_ node
    rw [file]
    intro dir
    cases dir
  · rw [if_neg here,Tree.set_other _ (Ne.symm here),file]

theorem file_iff : (some (.file a) : Option (Node Bytes Bytes)) = some (.file b) ↔ a = b := by
  rw [Option.some.injEq,Node.file.injEq]

theorem renamed_spares {u : FsTree} {job : Job} (file : u.nodes real = if place = real then some (.file bytes) else some (.file content))
    (stands : (place = job.tmp pid ∧ u.nodes (job.tmp pid) = some (.file bytes)) ∨
      (place ≠ job.tmp pid ∧ ∃ target, u.nodes (job.tmp pid) = some (.link target))) (away : real ≠ job.tmp pid) :
    (u.rename (job.tmp pid) job.target).nodes real = some (.file content) ↔
      (place = real → bytes = content) ∧ (job.target = real → place = job.tmp pid ∧ bytes = content) := by
  have there : ∃ held, u.nodes real = some (.file held) ∧ (held = content ↔ (place = real → bytes = content)) := by
    by_cases here : place = real
    · rw [if_pos here] at file
      exact ⟨bytes,file,fun same _ => same,fun same => same here⟩
    · rw [if_neg here] at file
      exact ⟨content,file,fun _ same => absurd same here,fun _ => rfl⟩
  obtain ⟨held,found,kept⟩ := there
  rcases stands with ⟨plain,tmp⟩ | ⟨elsewhere,target,tmp⟩
  · have other : place ≠ real := fun same => away (same.symm.trans plain)
    rw [renamed_nodes tmp nofun found away]
    by_cases target : job.target = real
    · rw [if_pos target,file_iff]
      exact ⟨fun same => ⟨fun here => absurd here other,fun _ => ⟨plain,same⟩⟩,fun both => (both.2 target).2⟩
    · rw [if_neg target,file_iff,kept]
      exact ⟨fun same => ⟨same,fun here => absurd here target⟩,And.left⟩
  · rw [renamed_nodes tmp nofun found away]
    by_cases same : job.target = real
    · rw [if_pos same]
      exact ⟨nofun,fun both => absurd (both.2 same).1 elsewhere⟩
    · rw [if_neg same,file_iff,kept]
      exact ⟨fun kept => ⟨kept,fun here => absurd here same⟩,And.left⟩

theorem replace_spares {job : Job} (checked : Checked t cwd display args job) (file : t.nodes real = some (.file content))
    (away : real ≠ job.tmp pid) (restored : encode job.content = content ↔ Whole content) :
    (replace t pid fate job).1.nodes real = some (.file content) ↔ Spares t pid fate job real content := by
  cases opened : openTmp t fate (job.tmp pid) with
  | error e =>
    obtain ⟨reply,replaced⟩ := replace_closed opened
    have same : (replace t pid fate job).1.nodes real = some (.file content) := by rw [replaced,removeFile_other t fate away,file]
    refine ⟨fun _ place also => ?_,fun _ => same⟩
    cases opened.symm.trans also
  | ok place =>
    have only : Spares t pid fate job real content ↔ (place = real → fate.bytes job.content = content) ∧
        (¬ fate.Fails → job.target = real → place = job.tmp pid ∧ Whole content) :=
      ⟨fun spares => spares place opened,fun spares other also => by rwa [← Except.ok.inj (opened.symm.trans also)]⟩
    rw [only]
    by_cases fails : fate.Fails
    · obtain ⟨reply,replaced⟩ := replace_failed opened fails
      rw [replaced,removeFile_other _ fate away,opened_nodes opened]
      by_cases here : place = real
      · rw [if_pos here]
        refine ⟨fun same => ⟨fun _ => ?_,fun done => absurd fails done⟩,fun spares => by rw [spares.1 here]⟩
        exact Node.file.inj (Option.some.inj same)
      · rw [if_neg here]
        exact ⟨fun _ => ⟨fun same => absurd same here,fun done => absurd fails done⟩,fun _ => file⟩
    · obtain ⟨data,replaced⟩ := replace_done opened fails
      have bytes : fate.bytes job.content = encode job.content := by
        simp only [WriteFate.Fails,not_or,not_not] at fails
        rw [WriteFate.bytes,fails.1]
      have nodes := opened_nodes opened (encode job.content) real
      rw [file] at nodes
      rw [replaced,bytes,renamed_spares nodes (opened_tmp checked opened _) away,restored]
      exact ⟨fun both => ⟨both.1,fun _ => both.2⟩,fun both => ⟨both.1,both.2 fails⟩⟩

theorem placeText_named (front : FsPlace) (name : Bytes) : ∃ above, placeText (front ++ [name]) = above ++ '/' :: lossy name := by
  have ascii : (47 : UInt8).toNat < 0x80 := by decide
  have slash : Utf8.segments (47 :: name) = .scalar [47] '/' :: Utf8.segments name := Utf8.segments_ascii ascii name
  refine ⟨lossy (front.flatMap fun name => 47 :: name),?_⟩
  rw [placeText,if_neg (List.append_ne_nil_of_right_ne_nil _ (List.cons_ne_nil _ _)),List.flatMap_append,List.flatMap_singleton,
    Utf8.Seam.lossy (Utf8.Seam.before_ascii _ ascii name)]
  refine congrArg (_ ++ ·) ?_
  rw [lossy,lossy,slash]
  rfl

theorem placeText_absolute (place : FsPlace) : Path.isAbsolute (placeText place) = true := by
  unfold placeText
  split
  · rfl
  · rename_i some
    obtain ⟨name,rest,rfl⟩ := List.exists_cons_of_ne_nil some
    have ascii : (47 : UInt8).toNat < 0x80 := by decide
    rw [List.flatMap_cons,List.cons_append,lossy,Utf8.segments_ascii ascii]
    rfl

theorem piece_name (shown : piece part = .name n) : n = encode part := by
  unfold piece at shown
  split at shown
  · cases shown
  · split at shown
    · cases shown
    · exact (Piece.name.inj shown).symm

theorem fileName_plain (named : fileName (parse path) = some name) : ∃ part, name = encode part ∧ '/' ∉ part := by
  unfold fileName at named
  split at named
  · rename_i n last
    cases named
    have member := (List.rdropWhile_prefix isHere (parse path)).subset (List.mem_of_getLast? last)
    obtain ⟨part,inside,shown⟩ := List.mem_map.mp member
    exact ⟨part,piece_name shown,split_plain inside⟩
  · cases named

-- The last name of a path, where it is a name of its own.
theorem fileName_behind (above : Text) (plain : '/' ∉ name) (long : 2 < name.length) :
    fileName (parse (above ++ '/' :: name)) = some (encode name) := by
  have own : piece name = .name (encode name) := by
    rw [piece,if_neg (by rintro (rfl | rfl) <;> simp at long),if_neg (by rintro rfl; simp at long)]
  have pieces : parse (above ++ '/' :: name) = parse above ++ [Piece.name (encode name)] := by
    rw [parse,split_behind,split_absent plain (List.mem_singleton.mpr rfl),List.map_append,List.map_singleton,own]
    rfl
  have ends : bare (parse above ++ [Piece.name (encode name)]) = parse above ++ [Piece.name (encode name)] :=
    List.rdropWhile_concat_neg _ _ _ (by simp [isHere])
  rw [fileName,pieces,ends,List.getLast?_concat]

theorem tmpName_text (pid : Nat) {part : Text} (plain : '/' ∉ part) :
    ∃ text, tmpName pid (encode part) = encode text ∧ '/' ∉ text ∧ 2 < text.length := by
  refine ⟨".".toList ++ part ++ ".princesside-".toList ++ decimal pid ++ ".tmp".toList,?_,?_,?_⟩
  · rw [tmpName,Utf8.lossy_encode]
  · intro inside
    rcases List.mem_append.mp inside with front | last
    · rcases List.mem_append.mp front with front | digit
      · rcases List.mem_append.mp front with front | middle
        · rcases List.mem_append.mp front with dot | name
          · exact absurd dot (by decide)
          · exact plain name
        · exact absurd middle (by decide)
      · exact absurd (decimal_isDigit digit).1 (by decide)
    · exact absurd last (by decide)
  · have suffix : ".tmp".length = 4 := by decide
    simp only [List.length_append,String.length_toList]
    omega

theorem joinChecked_absolute (absolute : Path.isAbsolute path = true) (joined : joinChecked root path = .ok candidate) : candidate = parse path := by
  unfold joinChecked at joined
  rw [if_pos absolute] at joined
  split at joined
  · cases joined
  · dsimp only at joined
    split at joined
    · cases joined
    · exact (Except.ok.inj joined).symm

-- The temporary file of a save is not the file that was opened: it has a longer name.
theorem tmp_away {job : Job} (pid : Nat) (joined : joinChecked job.root (placeText real) = .ok job.candidate)
    (named : fileName job.candidate = some job.name) : real ≠ job.tmp pid := by
  intro same
  rw [joinChecked_absolute (placeText_absolute real) joined] at named
  obtain ⟨part,encoded,plain⟩ := fileName_plain named
  obtain ⟨text,tmp,clean,long⟩ := tmpName_text pid plain
  rw [← encoded] at tmp
  obtain ⟨above,shown⟩ := placeText_named job.parent (tmpName pid job.name)
  rw [same,show job.tmp pid = job.parent ++ [tmpName pid job.name] from rfl,shown,tmp,Utf8.lossy_encode,
    fileName_behind above clean long,← tmp] at named
  exact tmpName_other pid job.name (Option.some.inj named)

theorem read_leads (read : fsRead t cwd display (readArgs root path) fate = .ok data) (leads : Leads t cwd root path real content) :
    data.path = placeText real ∧ data.content = lossy (content.take maxReadBytes) := by
  obtain ⟨root',path',canonical',candidate',real',content',rootArg,pathArg,rootFound',joined',found',inside⟩ := fsRead_inside read
  obtain ⟨canonical,candidate,rootFound,joined,found,file⟩ := leads
  cases Option.some.inj rootArg
  cases Option.some.inj pathArg
  cases rootFound.symm.trans rootFound'
  cases joined.symm.trans joined'
  cases found.symm.trans found'
  cases file.symm.trans inside.file
  exact ⟨inside.path,inside.front⟩

-- A file that was opened and is saved as it was shown keeps its bytes exactly when
-- the checks refuse the save, or the write spares them.
theorem unedited_save_iff (t : FsTree) (cwd : FsPlace) (pid : Nat) (display : Json → Text) (readFate : ReadFate) (writeFate : WriteFate)
    (view : View) (path : Text) (read : fsRead t cwd display (readArgs (rootFor view path) path) readFate = .ok data)
    (leads : Leads t cwd (rootFor view path) path real content) :
    (save t cwd pid display writeFate (openPath t cwd display readFate view path)).1.nodes real = some (.file content) ↔
      ∀ job, checkWrite t cwd display (saveArgs (openPath t cwd display readFate view path)) = .ok job →
        Spares t pid writeFate job real content := by
  obtain ⟨shown,front⟩ := read_leads read leads
  obtain ⟨_,_,_,_,_,file⟩ := leads
  have opened : openPath t cwd display readFate view path = loadIntoEditor view data := by rw [openPath,read]
  have some : (loadIntoEditor view data).currentPath ≠ [] := by
    intro none
    have absolute := placeText_absolute real
    rw [← shown,show data.path = [] from none] at absolute
    cases absolute
  rw [opened,save,if_neg some]
  change (fsWrite t cwd pid display (saveArgs (loadIntoEditor view data)) writeFate).1.nodes real = _ ↔ _
  cases found : checkWrite t cwd display (saveArgs (loadIntoEditor view data)) with
  | error e =>
    rw [fsWrite,found]
    refine ⟨fun _ job none => ?_,fun _ => file⟩
    cases none
  | ok job =>
    have checked := checkWrite_checked found
    have named : job.path = placeText real := (Option.some.inj checked.path).symm.trans shown
    have content : job.content = lossy (content.take maxReadBytes) := (Option.some.inj checked.content).symm.trans front
    rw [fsWrite_job found,replace_spares checked file (tmp_away pid (named ▸ checked.joined) checked.named) (by rw [content]; exact Utf8.reencode_iff _ _)]
    exact ⟨fun spares other also => by rwa [← Except.ok.inj also],fun spares => spares job rfl⟩

def source : FsPlace := [encode "a.c".toList]

def holding (content : Bytes) : FsTree := Tree.empty.set source (.file content)

def scratch : View := ⟨[],[],"int main(void)".toList,false,⟨[],false⟩⟩

def openSource (t : FsTree) : View := openPath t [] plain quiet scratch "/a.c".toList

theorem openSource_leads (content : Bytes) (file : (holding content).nodes source = some (.file content)) (root : (canonicalRoot (holding content) [] ['/']).toOption = some [])
    (found : (lookup (holding content) false [] (parse "/a.c".toList)).toOption = some source) :
    Leads (holding content) [] (rootFor scratch "/a.c".toList) "/a.c".toList source content :=
  ⟨[],parse "/a.c".toList,toOption_ok root,rfl,toOption_ok found,file⟩

theorem text_saved : (save (holding [0x68,0x69]) [] 7 plain smooth (openSource (holding [0x68,0x69]))).1.nodes source = some (.file [0x68,0x69]) ∧
    ¬ ∃ job, checkWrite (holding [0x68,0x69]) [] plain (saveArgs (openSource (holding [0x68,0x69]))) = .ok job ∧
      ¬ Spares (holding [0x68,0x69]) 7 smooth job source [0x68,0x69] := by
  have kept : (save (holding [0x68,0x69]) [] 7 plain smooth (openSource (holding [0x68,0x69]))).1.nodes source =
      some (.file [0x68,0x69]) := by decide +kernel
  have read : (fsRead (holding [0x68,0x69]) [] plain (readArgs (rootFor scratch "/a.c".toList) "/a.c".toList) quiet).toOption =
      some ⟨"/a.c".toList,2,"hi".toList,false⟩ := by decide +kernel
  have leads := openSource_leads [0x68,0x69] (by decide +kernel) (by decide +kernel) (by decide +kernel)
  refine ⟨kept,fun ⟨job,found,harmed⟩ => harmed ?_⟩
  exact (unedited_save_iff (holding [0x68,0x69]) [] 7 plain quiet smooth scratch "/a.c".toList (toOption_ok read) leads).mp kept job found

-- A file of one byte that is no text.
theorem lossy_text_saved : (holding [0xFF]).nodes source = some (.file [0xFF]) ∧
    (save (holding [0xFF]) [] 7 plain smooth (openSource (holding [0xFF]))).1.nodes source = some (.file [0xEF,0xBF,0xBD]) ∧
    (save (holding [0xFF]) [] 7 plain smooth (openSource (holding [0xFF]))).2.status = ⟨"saved /a.c — 3 bytes".toList,false⟩ := by
  decide +kernel

end PrincessIDE.EditorView
