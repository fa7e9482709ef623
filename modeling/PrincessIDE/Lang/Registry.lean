import Mathlib.Data.Finmap
import PrincessIDE.Foundation.Path

namespace PrincessIDE.Lang
open Utf8 (Text)
open Str (startsWith)
open PrincessIDE.Path (extension)

inductive LanguageErrorCode where
  | missingField
  | unknownField
  | invalidValue
  | duplicateId
  | adapterNotFound
  | ioError
  | parseError
deriving DecidableEq

structure LanguageError where
  code : LanguageErrorCode
  message : Text
deriving DecidableEq

-- What a manifest says of its language, as far as it is checked or asked for.
structure LanguageSection where
  id : Text
  displayName : Text
  extensions : List Text
  lspCommand : Text
  buildBackend : Text
  runBackend : Text
  debugBackend : Option Text
deriving DecidableEq

def required (field : Text) (empty : Bool) : Except LanguageError Unit :=
  if empty then .error ⟨.missingField,field ++ " must not be empty".toList⟩ else .ok ()

def dotted : List Text → Except LanguageError Unit
  | [] => .ok ()
  | ext :: rest =>
    if startsWith ['.'] ext then dotted rest
    else .error ⟨.invalidValue,"extension '".toList ++ ext ++ "' must start with a dot".toList⟩

def validateBackend (backend : Text) : Except LanguageError Unit := required "backend".toList backend.isEmpty

def withoutRepeats (seen : List Text) : List Text → Except LanguageError Unit
  | [] => .ok ()
  | ext :: rest =>
    if seen.contains ext then .error ⟨.invalidValue,"duplicate extension '".toList ++ ext ++ "'".toList⟩ else withoutRepeats (ext :: seen) rest

def validate (lang : LanguageSection) : Except LanguageError Unit := do
  required "language.id".toList lang.id.isEmpty
  required "language.displayName".toList lang.displayName.isEmpty
  required "language.extensions".toList lang.extensions.isEmpty
  required "language.lsp.command".toList lang.lspCommand.isEmpty
  required "language.build.backend".toList lang.buildBackend.isEmpty
  required "language.run.backend".toList lang.runBackend.isEmpty
  dotted lang.extensions
  validateBackend lang.buildBackend
  validateBackend lang.runBackend
  lang.debugBackend.forM validateBackend
  withoutRepeats [] lang.extensions

-- A section that has passed the checks.
structure LanguageManifest where
  language : LanguageSection
  valid : validate language = .ok ()

def LanguageManifest.id (m : LanguageManifest) : Text := m.language.id

def LanguageManifest.handlesExtension (m : LanguageManifest) (ext : Text) : Bool := m.language.extensions.contains ext

def validateAndConvert (lang : LanguageSection) : Except LanguageError LanguageManifest := match checked : validate lang with
  | .ok () => .ok ⟨lang,checked⟩
  | .error e => .error e

-- What is not part of the crate: the files and the TOML reader.
structure Host where
  readToString : Text → Except Text Text
  toml : Text → Except Text LanguageSection

section
variable (host : Host)

def fromToml (text : Text) : Except LanguageError LanguageManifest := match host.toml text with
  | .error e => .error ⟨.parseError,"failed to parse manifest TOML: ".toList ++ e⟩
  | .ok lang => validateAndConvert lang

def fromFile (path : Text) : Except LanguageError LanguageManifest := match host.readToString path with
  | .error e => .error ⟨.ioError,"failed to read manifest ".toList ++ path ++ ": ".toList ++ e⟩
  | .ok text => fromToml host text

end

inductive Adapter where
  | c
deriving DecidableEq

-- The two hash maps, without the order in which they are gone through.
structure LanguageRegistry where
  manifests : Finmap fun _ : Text => LanguageManifest
  adapters : Finmap fun _ : Text => Adapter
  scannedPaths : List Text

def LanguageRegistry.new : LanguageRegistry := ⟨∅,∅,[]⟩

def cId : Text := "c".toList

def LanguageRegistry.register (r : LanguageRegistry) (m : LanguageManifest) : LanguageRegistry :=
  { r with
    manifests := r.manifests.insert m.id m
    adapters := if m.id = cId then r.adapters.insert m.id .c else r.adapters }

def duplicate (id : Text) : LanguageError :=
  ⟨.duplicateId,"duplicate language id '".toList ++ id ++ "' (already registered from another manifest)".toList⟩

-- The registry changes only where the manifest is taken.
def loadFromFile (host : Host) (path : Text) (r : LanguageRegistry) : Except LanguageError LanguageRegistry := do
  let manifest ← fromFile host path
  if manifest.id ∈ r.manifests then .error (duplicate manifest.id)
  else return r.register manifest

-- What the system says of a directory: an entry may fail to be read as well.
structure Directory where
  isDir : Bool
  readDir : Except Text (List (Except Text Text))

def entryError (e : Text) : LanguageError := ⟨.ioError,"failed to read directory entry: ".toList ++ e⟩

-- The scan: what has been registered when a file fails stays.
def loadEntries (host : Host) : List (Except Text Text) → LanguageRegistry → Except LanguageError Unit × LanguageRegistry
  | [],r => (.ok (),r)
  | .error e :: _,r => (.error (entryError e),r)
  | .ok path :: rest,r =>
    if extension path = some "toml".toList then match loadFromFile host path r with
      | .error e => (.error e,r)
      | .ok next => loadEntries host rest next
    else loadEntries host rest r

def LanguageRegistry.scanning (r : LanguageRegistry) (dir : Text) : LanguageRegistry := { r with scannedPaths := r.scannedPaths ++ [dir] }

def loadFromDir (host : Host) (dir : Text) (found : Directory) (r : LanguageRegistry) : Except LanguageError Unit × LanguageRegistry :=
  if found.isDir then match found.readDir with
    | .error e => (.error ⟨.ioError,"failed to read directory ".toList ++ dir ++ ": ".toList ++ e⟩,r.scanning dir)
    | .ok entries => loadEntries host entries (r.scanning dir)
  else (.error ⟨.ioError,dir ++ " is not a directory".toList⟩,r)

-- The map is gone through in some order of its entries.
def byExtension (order : AList fun _ : Text => LanguageManifest) (ext : Text) : Option LanguageManifest :=
  (order.entries.map (·.snd)).find? (·.handlesExtension ext)

def entered (host : Host) (r : LanguageRegistry) : Except Text Text → Option LanguageRegistry
  | .error _ => none
  | .ok path => if extension path = some "toml".toList then (loadFromFile host path r).toOption else some r

theorem entered_toml (host : Host) (r : LanguageRegistry) (named : extension path = some "toml".toList) :
    entered host r (.ok path) = (loadFromFile host path r).toOption := if_pos named

theorem entered_other (host : Host) (r : LanguageRegistry) (off : extension path ≠ some "toml".toList) : entered host r (.ok path) = some r := if_neg off

-- The scan as a fold that has failed or holds the registry so far.
def scan (host : Host) (entries : List (Except Text Text)) (r : Option LanguageRegistry) : Option LanguageRegistry :=
  entries.foldl (fun r entry => r.bind fun r => entered host r entry) r

theorem scan_none (host : Host) (entries : List (Except Text Text)) : scan host entries none = none := by
  induction entries with
  | nil => rfl
  | cons entry entries ih => exact ih

theorem loadEntries_toml (host : Host) (named : extension path = some "toml".toList) (rest : List (Except Text Text)) (r : LanguageRegistry) :
    loadEntries host (.ok path :: rest) r = match loadFromFile host path r with
      | .error e => (.error e,r)
      | .ok next => loadEntries host rest next := if_pos named

theorem loadEntries_other (off : extension path ≠ some "toml".toList) (rest : List (Except Text Text)) (r : LanguageRegistry) :
    loadEntries host (.ok path :: rest) r = loadEntries host rest r := if_neg off

theorem loadEntries_scan (host : Host) (entries : List (Except Text Text)) (r : LanguageRegistry) :
    scan host entries (some r) = (loadEntries host entries r).1.toOption.map fun _ => (loadEntries host entries r).2 := by
  induction entries generalizing r with
  | nil => rfl
  | cons entry entries ih =>
    change scan host entries (entered host r entry) = _
    cases entry with
    | error e => exact scan_none host entries
    | ok path =>
      by_cases named : extension path = some "toml".toList
      · rw [loadEntries_toml host named,entered_toml host r named]
        cases loadFromFile host path r with
        | error e => exact scan_none host entries
        | ok next => exact ih next
      · rw [loadEntries_other named,entered_other host r named]
        exact ih r

-- A file is taken where its manifest is valid and its language is new.
theorem loadFromFile_option (host : Host) (path : Text) (r : LanguageRegistry) : (loadFromFile host path r).toOption =
    (fromFile host path).toOption.bind fun m => if m.id ∈ r.manifests then none else some (r.register m) := by
  unfold loadFromFile
  cases fromFile host path with
  | error e => rfl
  | ok m =>
    change (if m.id ∈ r.manifests then _ else _ : Except _ _).toOption = if m.id ∈ r.manifests then none else _
    split
    · rfl
    · rfl

theorem register_comm (apart : m.id ≠ n.id) (r : LanguageRegistry) : (r.register m).register n = (r.register n).register m := by
  unfold LanguageRegistry.register
  dsimp only
  rw [Finmap.insert_insert_of_ne _ apart]
  by_cases first : m.id = cId
  · have other : n.id ≠ cId := fun second => apart (first.trans second.symm)
    rw [if_pos first,if_neg other,if_neg other,if_pos first]
  · rw [if_neg first,if_neg first]

theorem taken_comm (r : LanguageRegistry) (m n : LanguageManifest) :
    ((if m.id ∈ r.manifests then none else some (r.register m)).bind fun s => if n.id ∈ s.manifests then none else some (s.register n)) =
      (if n.id ∈ r.manifests then none else some (r.register n)).bind fun s => if m.id ∈ s.manifests then none else some (s.register m) := by
  by_cases apart : m.id = n.id
  · rw [apart]
    split
    · rfl
    · simp [LanguageRegistry.register,apart]
  · by_cases early : m.id ∈ r.manifests
    · by_cases late : n.id ∈ r.manifests
      · rw [if_pos early,if_pos late]
        rfl
      · simp [LanguageRegistry.register,early,late]
    · by_cases late : n.id ∈ r.manifests
      · simp [LanguageRegistry.register,early,late]
      · have back : n.id ≠ m.id := fun same => apart same.symm
        rw [if_neg early,if_neg late,Option.bind_some,Option.bind_some,register_comm apart]
        simp [LanguageRegistry.register,early,late,apart,back]

theorem entered_comm (host : Host) (r : LanguageRegistry) (a b : Except Text Text) :
    (entered host r a).bind (fun s => entered host s b) = (entered host r b).bind fun s => entered host s a := by
  cases a with
  | error e =>
    cases entered host r b <;> rfl
  | ok path =>
    cases b with
    | error e => cases entered host r (.ok path) <;> rfl
    | ok other =>
      by_cases first : extension path = some "toml".toList
      · by_cases second : extension other = some "toml".toList
        · simp only [entered,if_pos first,if_pos second,loadFromFile_option]
          cases (fromFile host path).toOption with
          | none => cases (fromFile host other).toOption <;> simp
          | some m => cases (fromFile host other).toOption with
            | none => simp
            | some n => exact taken_comm r m n
        · simp only [entered,if_neg second]
          exact Option.bind_fun_some _
      · simp only [entered,if_neg first]
        exact (Option.bind_fun_some _).symm

theorem scan_perm (host : Host) {entries entries' : List (Except Text Text)} (perm : entries.Perm entries') (r : Option LanguageRegistry) :
    scan host entries r = scan host entries' r := by
  refine perm.foldl_eq' (fun a _ b _ r => ?_) r
  cases r with
  | none => rfl
  | some r => exact entered_comm host r a b

-- What stays of a scan that fails: what the entries in front of the one that fails
-- have made.
theorem loadEntries_failed (host : Host) (entries : List (Except Text Text)) (r : LanguageRegistry) (failed : (loadEntries host entries r).1 = .error e) :
    ∃ front bad back, entries = front ++ bad :: back ∧ scan host front (some r) = some (loadEntries host entries r).2 ∧
      entered host (loadEntries host entries r).2 bad = none := by
  induction entries generalizing r with
  | nil => cases failed
  | cons entry entries ih =>
    have later : ∀ next, entered host r entry = some next → loadEntries host (entry :: entries) r = loadEntries host entries next →
        ∃ front bad back, entry :: entries = front ++ bad :: back ∧ scan host front (some r) = some (loadEntries host (entry :: entries) r).2 ∧
          entered host (loadEntries host (entry :: entries) r).2 bad = none := by
      intro next taken same
      rw [same] at failed ⊢
      obtain ⟨front,bad,back,rfl,done,refused⟩ := ih next failed
      refine ⟨entry :: front,bad,back,rfl,?_,refused⟩
      change scan host front (entered host r entry) = _
      rw [taken,done]
    cases entry with
    | error e => exact ⟨[],.error e,entries,rfl,rfl,rfl⟩
    | ok path =>
      by_cases named : extension path = some "toml".toList
      · cases taken : loadFromFile host path r with
        | error e =>
          have whole := loadEntries_toml host named entries r
          rw [taken] at whole
          rw [whole]
          exact ⟨[],.ok path,entries,rfl,rfl,by rw [entered_toml host r named,taken]; rfl⟩
        | ok next =>
          have whole := loadEntries_toml host named entries r
          rw [taken] at whole
          exact later next (by rw [entered_toml host r named,taken]; rfl) whole
      · exact later r (entered_other host r named) (loadEntries_other named entries r)

-- A language of the registry that claims an extension.
structure Claims (r : LanguageRegistry) (ext : Text) (m : LanguageManifest) : Prop where
  registered : ∃ id, r.manifests.lookup id = some m
  handles : m.handlesExtension ext = true

theorem entry_registered {r : LanguageRegistry} {order : AList fun _ : Text => LanguageManifest} (same : order.toFinmap = r.manifests) :
    m ∈ order.entries.map (·.snd) ↔ ∃ id, r.manifests.lookup id = some m := by
  rw [← same,List.mem_map]
  constructor
  · rintro ⟨⟨id,_⟩,inside,rfl⟩
    exact ⟨id,(Finmap.lookup_toFinmap id order).trans (AList.mem_lookup_iff.mpr inside)⟩
  · rintro ⟨id,found⟩
    exact ⟨⟨id,m⟩,AList.mem_lookup_iff.mp ((Finmap.lookup_toFinmap id order).symm.trans found),rfl⟩

theorem byExtension_claims {r : LanguageRegistry} {order : AList fun _ : Text => LanguageManifest} (same : order.toFinmap = r.manifests) (found : byExtension order ext = some m) :
    Claims r ext m :=
  ⟨(entry_registered same).mp (List.mem_of_find?_eq_some found),List.find?_some (p := fun m : LanguageManifest => m.handlesExtension ext) found⟩

theorem byExtension_none {r : LanguageRegistry} {order : AList fun _ : Text => LanguageManifest} (same : order.toFinmap = r.manifests) :
    byExtension order ext = none ↔ ∀ m, ¬ Claims r ext m := by
  unfold byExtension
  rw [List.find?_eq_none]
  constructor
  · rintro none m ⟨registered,handles⟩
    exact none m ((entry_registered same).mpr registered) handles
  · intro none m inside handles
    exact none m ⟨(entry_registered same).mp inside,handles⟩

-- Any claimant may be the first that is met.
theorem byExtension_first (claims : Claims r ext m) : ∃ order : AList fun _ : Text => LanguageManifest, order.toFinmap = r.manifests ∧ byExtension order ext = some m := by
  obtain ⟨order,same⟩ : ∃ order : AList fun _ : Text => LanguageManifest, order.toFinmap = r.manifests := by
    refine Finmap.induction_on r.manifests fun order => ⟨order,rfl⟩
  obtain ⟨entry,inside,rfl⟩ := List.mem_map.mp ((entry_registered same).mpr claims.registered)
  obtain ⟨front,back,cut⟩ := List.append_of_mem inside
  have moved : order.entries.Perm (entry :: (front ++ back)) := cut ▸ List.perm_middle
  refine ⟨⟨entry :: (front ++ back),(List.perm_nodupKeys moved).mp order.nodupKeys⟩,?_,List.find?_cons_of_pos claims.handles⟩
  rw [← same]
  exact AList.toFinmap_eq.mpr moved.symm

-- What is left where a directory is not taken as a whole.
inductive Stopped (host : Host) (dir : Text) (found : Directory) (r after : LanguageRegistry) : Prop where
  | unread : found.isDir = false ∨ (∃ e, found.readDir = .error e) → after.manifests = r.manifests → after.adapters = r.adapters →
    Stopped host dir found r after
  | midway : found.readDir = .ok (front ++ bad :: back) → loadEntries host front (r.scanning dir) = (.ok (),after) →
    (∀ next, loadEntries host [bad] after ≠ (.ok (),next)) → Stopped host dir found r after

theorem scan_loaded (done : scan host entries (some r) = some after) : loadEntries host entries r = (.ok (),after) := by
  have same := loadEntries_scan host entries r
  rw [done] at same
  obtain ⟨_,loaded,left⟩ := Option.map_eq_some_iff.mp same.symm
  cases result : (loadEntries host entries r).1 with
  | error e =>
    rw [result] at loaded
    cases loaded
  | ok _ => exact Prod.ext result left

theorem loaded_scan (loaded : loadEntries host entries r = (.ok (),after)) : scan host entries (some r) = some after := by
  rw [loadEntries_scan,loaded]
  rfl

theorem load_stopped (host : Host) (dir : Text) (found : Directory) (r : LanguageRegistry) (failed : (loadFromDir host dir found r).1 = .error e) :
    Stopped host dir found r (loadFromDir host dir found r).2 := by
  unfold loadFromDir at failed ⊢
  split at failed
  · next here =>
    rw [if_pos here]
    cases read : found.readDir with
    | error e => exact .unread (.inr ⟨e,read⟩) rfl rfl
    | ok entries =>
      rw [read] at failed
      obtain ⟨front,bad,back,cut,done,refused⟩ := loadEntries_failed host entries _ failed
      refine .midway (cut ▸ read) (scan_loaded done) fun next loaded => ?_
      have taken : entered host (loadEntries host entries (r.scanning dir)).2 bad = some next := loaded_scan loaded
      rw [refused] at taken
      cases taken
  · next off =>
    rw [if_neg off]
    exact .unread (.inl (Bool.eq_false_iff.mpr off)) rfl rfl

theorem load_perm (host : Host) (dir : Text) (isDir : Bool) {entries entries' : List (Except Text Text)} (perm : entries.Perm entries') (r : LanguageRegistry) :
    (loadFromDir host dir ⟨isDir,.ok entries⟩ r).1.isOk = (loadFromDir host dir ⟨isDir,.ok entries'⟩ r).1.isOk ∧
    ((loadFromDir host dir ⟨isDir,.ok entries⟩ r).1.isOk = true →
      (loadFromDir host dir ⟨isDir,.ok entries⟩ r).2 = (loadFromDir host dir ⟨isDir,.ok entries'⟩ r).2) := by
  cases isDir with
  | false => exact ⟨rfl,fun _ => rfl⟩
  | true =>
    change (loadEntries host entries (r.scanning dir)).1.isOk = (loadEntries host entries' (r.scanning dir)).1.isOk ∧
      ((loadEntries host entries (r.scanning dir)).1.isOk = true →
        (loadEntries host entries (r.scanning dir)).2 = (loadEntries host entries' (r.scanning dir)).2)
    have same := scan_perm host perm (some (r.scanning dir))
    rw [loadEntries_scan,loadEntries_scan] at same
    generalize loadEntries host entries (r.scanning dir) = one at same
    generalize loadEntries host entries' (r.scanning dir) = other at same
    obtain ⟨result,left⟩ := one
    obtain ⟨result',left'⟩ := other
    cases result with
    | error e => cases result' with
      | error e' => exact ⟨rfl,fun ok => (nomatch ok)⟩
      | ok _ => cases same
    | ok _ => cases result' with
      | error e' => cases same
      | ok _ => exact ⟨rfl,fun _ => Option.some.inj same⟩

-- Which of the directory's files and of the map's entries come first matters where
-- two languages claim one extension, and to what a failed scan leaves.
theorem registry_orders (host : Host) (dir : Text) (r : LanguageRegistry) :
    (∀ isDir, ∀ entries entries' : List (Except Text Text), entries.Perm entries' →
      (loadFromDir host dir ⟨isDir,.ok entries⟩ r).1.isOk = (loadFromDir host dir ⟨isDir,.ok entries'⟩ r).1.isOk ∧
      ((loadFromDir host dir ⟨isDir,.ok entries⟩ r).1.isOk = true →
        (loadFromDir host dir ⟨isDir,.ok entries⟩ r).2 = (loadFromDir host dir ⟨isDir,.ok entries'⟩ r).2)) ∧
    (∀ found e, (loadFromDir host dir found r).1 = .error e → Stopped host dir found r (loadFromDir host dir found r).2) ∧
    ∀ ext, (∀ order : AList fun _ : Text => LanguageManifest, order.toFinmap = r.manifests →
        (byExtension order ext = none ↔ ∀ m, ¬ Claims r ext m) ∧ ∀ m, byExtension order ext = some m → Claims r ext m) ∧
      ((∀ order order' : AList fun _ : Text => LanguageManifest, order.toFinmap = r.manifests → order'.toFinmap = r.manifests →
        byExtension order ext = byExtension order' ext) ↔ ∀ m n, Claims r ext m → Claims r ext n → m = n) := by
  refine ⟨fun isDir entries entries' perm => load_perm host dir isDir perm r,fun found e failed => load_stopped host dir found r failed,
    fun ext => ⟨fun order same => ⟨byExtension_none same,fun m found => byExtension_claims same found⟩,fun steady m n first second => ?_,?_⟩⟩
  · obtain ⟨order,same,found⟩ := byExtension_first first
    obtain ⟨order',same',found'⟩ := byExtension_first second
    exact Option.some.inj (found.symm.trans ((steady order order' same same').trans found'))
  · intro single order order' same same'
    cases found : byExtension order ext with
    | none => exact ((byExtension_none same').mpr ((byExtension_none same).mp found)).symm
    | some m =>
      cases found' : byExtension order' ext with
      | none => exact absurd (byExtension_claims same found) ((byExtension_none same').mp found' m)
      | some n => rw [single m n (byExtension_claims same found) (byExtension_claims same' found')]

def madeUp (id : Text) : LanguageSection := ⟨id,"L".toList,[".x".toList],"ls".toList,"make".toList,"jvm".toList,none⟩

-- A file is its name, and its manifest names the language so; one has no name.
def namedHost : Host := ⟨fun path => .ok path,fun text => .ok (madeUp (if text = "z.toml".toList then [] else text))⟩

def twoNamed : Directory := ⟨true,.ok [.ok "a.toml".toList,.ok "z.toml".toList]⟩

theorem half_loaded : (loadFromDir namedHost [] twoNamed .new).1.isOk = false ∧
    ((loadFromDir namedHost [] twoNamed .new).2.manifests.lookup "a.toml".toList).isSome = true ∧
    (LanguageRegistry.new.manifests.lookup "a.toml".toList).isSome = false := by
  decide +kernel

def oneLanguage : LanguageManifest := ⟨madeUp "a".toList,by decide⟩
def otherLanguage : LanguageManifest := ⟨madeUp "b".toList,by decide⟩

def twoLanguages : LanguageRegistry := (LanguageRegistry.new.register oneLanguage).register otherLanguage

-- A scan that fails leaves a language behind, and two languages with one extension
-- are found in the order of the map.
theorem order_shows : ((loadFromDir namedHost [] twoNamed .new).1.isOk = false ∧ (loadFromDir namedHost [] twoNamed .new).2.manifests ≠ LanguageRegistry.new.manifests) ∧
    ∃ order order' : AList fun _ : Text => LanguageManifest, order.toFinmap = twoLanguages.manifests ∧ order'.toFinmap = twoLanguages.manifests ∧
      byExtension order ".x".toList ≠ byExtension order' ".x".toList := by
  refine ⟨⟨half_loaded.1,fun same => ?_⟩,?_⟩
  · have there := half_loaded.2.1
    rw [same,half_loaded.2.2] at there
    cases there
  · have first : Claims twoLanguages ".x".toList oneLanguage := ⟨⟨"a".toList,by rfl⟩,by decide⟩
    have second : Claims twoLanguages ".x".toList otherLanguage := ⟨⟨"b".toList,by rfl⟩,by decide⟩
    obtain ⟨order,same,found⟩ := byExtension_first first
    obtain ⟨order',same',found'⟩ := byExtension_first second
    refine ⟨order,order',same,same',fun equal => ?_⟩
    have merged := Option.some.inj (found.symm.trans (equal.trans found'))
    have ids := congrArg LanguageManifest.id merged
    revert ids
    decide

end PrincessIDE.Lang
