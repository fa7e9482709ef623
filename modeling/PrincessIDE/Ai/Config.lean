import PrincessIDE.Ai.Completion
import PrincessIDE.Build.Diagnostics
import PrincessIDE.Core.Config
import PrincessIDE.Foundation.Marks
import PrincessIDE.Foundation.Rows
import PrincessIDE.Foundation.Trim

namespace PrincessIDE.Ai
open Utf8 (Text)
open Str
open Diagnostics (endsWith endsWith_append endsWith_eq)
open Config (isAsciiAlphabetic)

inductive AiProviderKind where
  | openAiCompatible
  | none
deriving DecidableEq

structure AiSection where
  provider : AiProviderKind
  baseUrl : Text
  model : Text
deriving DecidableEq

structure GlobalAiSettings where
  baseUrl : Option Text
  model : Option Text
deriving DecidableEq

-- The settings of a provider together with its key.
structure KeyedConfig extends AiConfig where
  apiKey : Option Text
deriving DecidableEq

abbrev EnvLookup := Text → Option Text

def envBaseUrlName : Text := "PRINCESSIDE_AI_BASE_URL".toList
def envModelName : Text := "PRINCESSIDE_AI_MODEL".toList
def envOpenaiBaseUrls : List Text := ["OPENAI_BASE_URL".toList,"OPENAI_API_BASE".toList]
def envOpenaiModel : Text := "OPENAI_MODEL".toList
def envApiKey : Text := "OPENAI_API_KEY".toList
def defaultChatPath : Text := "/chat/completions".toList

def nonBlank (value : Text) : Bool := !(trim value).isEmpty

def GlobalAiSettings.setBaseUrl (s : GlobalAiSettings) : Option Text := s.baseUrl.filter nonBlank
def GlobalAiSettings.setModel (s : GlobalAiSettings) : Option Text := s.model.filter nonBlank

def envBaseUrl (env : EnvLookup) : Option Text := ((env envBaseUrlName :: envOpenaiBaseUrls.map env).filterMap id).find? nonBlank

def envModel (env : EnvLookup) : Option Text := ((env envModelName).or (env envOpenaiModel)).filter nonBlank

def pick (candidates : List (Option Text)) : Option Text := ((candidates.filterMap id).map trim).find? (!·.isEmpty)

def normalizeBaseUrl (raw : Text) : Text :=
  let trimmed := trimEndMatches (· = '/') (trim raw)
  if contains "://".toList trimmed then trimmed else "http://".toList ++ trimmed

def chatCompletionsUrl (baseUrl : Text) : Text :=
  let base := normalizeBaseUrl baseUrl
  if endsWith defaultChatPath base then base else base ++ defaultChatPath

def resolveAiConfig (manifest : AiSection) (global : GlobalAiSettings) (env : EnvLookup) : Option KeyedConfig :=
  if manifest.provider = .none then none
  else do
    let baseUrl ← pick [some manifest.baseUrl,envBaseUrl env,global.setBaseUrl]
    let model ← pick [some manifest.model,envModel env,global.setModel]
    return ⟨⟨normalizeBaseUrl baseUrl,model⟩,env envApiKey⟩

-- The sources of a setting in the documented order, and the first that is not blank.
def endpointSources (manifest : AiSection) (global : GlobalAiSettings) (env : EnvLookup) : List (Option Text) :=
  [some manifest.baseUrl,env envBaseUrlName] ++ envOpenaiBaseUrls.map env ++ [global.baseUrl]

def modelSources (manifest : AiSection) (global : GlobalAiSettings) (env : EnvLookup) : List (Option Text) :=
  [some manifest.model,env envModelName,env envOpenaiModel,global.model]

def firstGiven (sources : List (Option Text)) : Option Text := (sources.filterMap id).find? nonBlank

-- What is resolved is what the first sources that are not blank say, up to the
-- blanks around it and the form of an endpoint.
structure Cascaded (manifest : AiSection) (global : GlobalAiSettings) (env : EnvLookup) (resolved : Option KeyedConfig) : Prop where
  given : resolved.isSome = true ↔ manifest.provider ≠ .none ∧
    (∃ value, some value ∈ endpointSources manifest global env ∧ nonBlank value = true) ∧
    ∃ value, some value ∈ modelSources manifest global env ∧ nonBlank value = true
  endpoint : ∀ c ∈ resolved, (firstGiven (endpointSources manifest global env)).map normalizeBaseUrl = some c.baseUrl
  model : ∀ c ∈ resolved, (firstGiven (modelSources manifest global env)).map trim = some c.model
  key : ∀ c ∈ resolved, c.apiKey = env envApiKey

theorem firstGiven_append (front back : List (Option Text)) : firstGiven (front ++ back) = (firstGiven front).or (firstGiven back) := by
  unfold firstGiven
  rw [List.filterMap_append,List.find?_append]

theorem firstGiven_one (source : Option Text) : firstGiven [source] = source.filter nonBlank := by
  cases source with
  | none => rfl
  | some value =>
    change [value].find? nonBlank = _
    cases solid : nonBlank value <;> simp [Option.filter,solid]

theorem firstGiven_given (found : firstGiven sources = some value) : nonBlank value = true := List.find?_some found

theorem firstGiven_filter (sources : List (Option Text)) : (firstGiven sources).filter nonBlank = firstGiven sources := by
  cases found : firstGiven sources with
  | none => rfl
  | some value => exact if_pos (firstGiven_given found)

theorem firstGiven_isSome (sources : List (Option Text)) : (firstGiven sources).isSome = true ↔ ∃ value, some value ∈ sources ∧ nonBlank value = true := by
  unfold firstGiven
  rw [List.find?_isSome]
  constructor
  · rintro ⟨value,member,solid⟩
    obtain ⟨source,member,same⟩ := List.mem_filterMap.mp member
    exact ⟨value,same ▸ member,solid⟩
  · rintro ⟨value,member,solid⟩
    exact ⟨value,List.mem_filterMap.mpr ⟨some value,member,rfl⟩,solid⟩

theorem nonBlank_trim (value : Text) : nonBlank (trim value) = nonBlank value := by
  unfold nonBlank
  rw [trim_trim]

theorem pick_first (candidates : List (Option Text)) : pick candidates = (firstGiven candidates).map trim := by
  unfold pick firstGiven
  rw [List.find?_map]
  rfl

theorem firstGiven_solid (solid : nonBlank value = true) (rest : List (Option Text)) : firstGiven (some value :: rest) = some value :=
  List.find?_cons_of_pos solid

theorem firstGiven_blank (blank : nonBlank value = false) (rest : List (Option Text)) : firstGiven (some value :: rest) = firstGiven rest :=
  List.find?_cons_of_neg (by rw [blank]; exact Bool.false_ne_true)

-- Searching a source before it is listed changes nothing.
theorem firstGiven_filtered (source : Option Text) (rest : List (Option Text)) : firstGiven (source.filter nonBlank :: rest) = firstGiven (source :: rest) := by
  cases source with
  | none => rfl
  | some value =>
    cases solid : nonBlank value with
    | true => rw [Option.filter_some_pos solid]
    | false => rw [Option.filter_some_neg (by simp [solid]),firstGiven_blank solid]; rfl

theorem pick_searched (value : Text) (env global : Option Text) :
    pick [some value,env,global.filter nonBlank] = (firstGiven [some value,env,global]).map trim := by
  rw [pick_first,show [some value,env,global.filter nonBlank] = [some value,env] ++ [global.filter nonBlank] from rfl,firstGiven_append,
    firstGiven_filtered,← firstGiven_append]
  rfl

theorem endpoint_picked (manifest : AiSection) (global : GlobalAiSettings) (env : EnvLookup) :
    pick [some manifest.baseUrl,envBaseUrl env,global.setBaseUrl] = (firstGiven (endpointSources manifest global env)).map trim := by
  have searched : envBaseUrl env = firstGiven (env envBaseUrlName :: envOpenaiBaseUrls.map env) := rfl
  have picked : [some manifest.baseUrl,envBaseUrl env,global.baseUrl] = [some manifest.baseUrl] ++ ([envBaseUrl env] ++ [global.baseUrl]) := rfl
  have listed : endpointSources manifest global env =
    [some manifest.baseUrl] ++ ((env envBaseUrlName :: envOpenaiBaseUrls.map env) ++ [global.baseUrl]) := rfl
  rw [GlobalAiSettings.setBaseUrl,pick_searched,picked,listed,firstGiven_append,firstGiven_append,firstGiven_append,firstGiven_append,
    firstGiven_one (envBaseUrl env),searched,firstGiven_filter]

theorem model_picked (manifest : AiSection) (global : GlobalAiSettings) (env : EnvLookup) :
    pick [some manifest.model,envModel env,global.setModel] =
      (firstGiven [some manifest.model,(env envModelName).or (env envOpenaiModel),global.model]).map trim := by
  rw [GlobalAiSettings.setModel,pick_searched,envModel,show ∀ source : Option Text, [some manifest.model,source,global.model] =
    [some manifest.model] ++ source :: [global.model] from fun _ => rfl,firstGiven_append,firstGiven_filtered,← firstGiven_append]
  rfl

-- A blank variable in front of another one, and nothing behind them that is the same.
structure Hidden (manifest : AiSection) (global : GlobalAiSettings) (env : EnvLookup) : Prop where
  provided : manifest.provider ≠ .none
  reachable : ∃ value, some value ∈ endpointSources manifest global env ∧ nonBlank value = true
  silent : nonBlank manifest.model = false
  blank : ∃ value, env envModelName = some value ∧ nonBlank value = false
  vendor : ∃ value, env envOpenaiModel = some value ∧ nonBlank value = true ∧ ∀ other ∈ global.model, trim other ≠ trim value

-- A global setting says the same as a variable, up to blanks.
theorem global_iff (named : nonBlank v = true) (global : Option Text) :
    (firstGiven [global]).map trim = some (trim v) ↔ ∃ other ∈ global, trim other = trim v := by
  cases global with
  | none => exact ⟨fun found => (nomatch found),fun ⟨_,member,_⟩ => (nomatch member)⟩
  | some other =>
    cases solid : nonBlank other with
    | true =>
      rw [firstGiven_solid solid]
      exact ⟨fun same => ⟨other,rfl,Option.some.inj same⟩,fun ⟨_,member,same⟩ => by cases member; exact congrArg some same⟩
    | false =>
      rw [firstGiven_blank solid]
      refine ⟨fun found => (nomatch found),fun ⟨_,member,same⟩ => ?_⟩
      cases member
      rw [← nonBlank_trim,same,nonBlank_trim,named] at solid
      cases solid

-- One source made of two differs from the two where the front one is blank.
theorem merged_iff (value : Text) (front back global : Option Text) :
    (firstGiven [some value,front.or back,global]).map trim = (firstGiven [some value,front,back,global]).map trim ↔
      ¬ (nonBlank value = false ∧ (∃ blank, front = some blank ∧ nonBlank blank = false) ∧
        ∃ v, back = some v ∧ nonBlank v = true ∧ ∀ other ∈ global, trim other ≠ trim v) := by
  cases silent : nonBlank value with
  | true => simp [firstGiven_solid silent]
  | false =>
    rw [firstGiven_blank silent,firstGiven_blank silent]
    cases front with
    | none => simp; rfl
    | some blank =>
      cases solid : nonBlank blank with
      | true => simp [firstGiven_solid solid,solid]
      | false =>
        rw [Option.some_or,firstGiven_blank solid,firstGiven_blank solid]
        cases back with
        | none => simp; rfl
        | some v =>
          cases named : nonBlank v with
          | false => rw [firstGiven_blank named]; simp [named]
          | true =>
            rw [firstGiven_solid named]
            refine (global_iff named global).trans ⟨?_,fun apart => ?_⟩
            · rintro ⟨other,member,same⟩ ⟨_,_,w,named,_,differ⟩
              cases named
              exact differ other member same
            · by_contra alone
              exact apart ⟨rfl,⟨blank,rfl,solid⟩,v,rfl,named,fun other member same => alone ⟨other,member,same⟩⟩

theorem resolve_eq (provided : manifest.provider ≠ .none) (global : GlobalAiSettings) (env : EnvLookup) :
    resolveAiConfig manifest global env = (firstGiven (endpointSources manifest global env)).bind fun endpoint =>
      ((firstGiven [some manifest.model,(env envModelName).or (env envOpenaiModel),global.model]).map trim).map fun model =>
        ⟨⟨normalizeBaseUrl (trim endpoint),model⟩,env envApiKey⟩ := by
  unfold resolveAiConfig
  rw [if_neg provided,endpoint_picked,model_picked]
  cases firstGiven (endpointSources manifest global env) with
  | none => rfl
  | some endpoint => cases firstGiven [some manifest.model,(env envModelName).or (env envOpenaiModel),global.model] <;> rfl

theorem normalize_trim (raw : Text) : normalizeBaseUrl (trim raw) = normalizeBaseUrl raw := by
  unfold normalizeBaseUrl
  rw [trim_trim]

theorem cascaded_none (missing : ¬ (manifest.provider ≠ .none ∧ (∃ value, some value ∈ endpointSources manifest global env ∧ nonBlank value = true) ∧
    ∃ value, some value ∈ modelSources manifest global env ∧ nonBlank value = true)) : Cascaded manifest global env none :=
  ⟨⟨fun given => (nomatch given),fun found => absurd found missing⟩,fun _ given => (nomatch given),fun _ given => (nomatch given),
    fun _ given => (nomatch given)⟩

-- Where the model of the code's sources is that of the documented ones.
theorem cascaded (provided : manifest.provider ≠ .none)
    (same : (firstGiven [some manifest.model,(env envModelName).or (env envOpenaiModel),global.model]).map trim =
      (firstGiven (modelSources manifest global env)).map trim) :
    Cascaded manifest global env (resolveAiConfig manifest global env) := by
  have whole := resolve_eq provided global env
  rw [same] at whole
  rw [whole]
  have endpoints := firstGiven_isSome (endpointSources manifest global env)
  have models := firstGiven_isSome (modelSources manifest global env)
  cases endpoint : firstGiven (endpointSources manifest global env) with
  | none =>
    rw [endpoint] at endpoints
    exact cascaded_none fun ⟨_,found,_⟩ => (nomatch endpoints.mpr found)
  | some e =>
    cases model : firstGiven (modelSources manifest global env) with
    | none =>
      rw [model] at models
      exact cascaded_none fun ⟨_,_,found⟩ => (nomatch models.mpr found)
    | some m =>
      rw [endpoint] at endpoints
      rw [model] at models
      refine ⟨⟨fun _ => ⟨provided,endpoints.mp rfl,models.mp rfl⟩,fun _ => rfl⟩,?_,?_,?_⟩
      · rintro _ ⟨⟩
        rw [endpoint]
        exact congrArg some (normalize_trim e).symm
      · rintro _ ⟨⟩
        rw [model]
        rfl
      · rintro _ ⟨⟩
        rfl

theorem resolve_iff (manifest : AiSection) (global : GlobalAiSettings) (env : EnvLookup) :
    Cascaded manifest global env (resolveAiConfig manifest global env) ↔ ¬ Hidden manifest global env := by
  have merged := merged_iff manifest.model (env envModelName) (env envOpenaiModel) global.model
  constructor
  · rintro ⟨given,_,model,_⟩ ⟨provided,reachable,silent,blank,v,vendor,named,apart⟩
    have listed : some v ∈ modelSources manifest global env := by
      rw [← vendor]
      exact .tail _ (.tail _ (.head _))
    obtain ⟨c,found⟩ := Option.isSome_iff_exists.mp (given.mpr ⟨provided,reachable,v,listed,named⟩)
    have first := model c found
    rw [resolve_eq provided] at found
    obtain ⟨_,_,built⟩ := Option.bind_eq_some_iff.mp found
    obtain ⟨m,picked,same⟩ := Option.map_eq_some_iff.mp built
    have agree : (firstGiven [some manifest.model,(env envModelName).or (env envOpenaiModel),global.model]).map trim =
        (firstGiven (modelSources manifest global env)).map trim := by
      rw [picked,first,← same]
    exact merged.mp agree ⟨silent,blank,v,vendor,named,apart⟩
  · intro clear
    by_cases provided : manifest.provider = .none
    · have off : resolveAiConfig manifest global env = none := if_pos provided
      rw [off]
      exact cascaded_none fun found => found.1 provided
    by_cases reachable : ∃ value, some value ∈ endpointSources manifest global env ∧ nonBlank value = true
    · exact cascaded provided (merged.mpr fun ⟨silent,blank,vendor⟩ => clear ⟨provided,reachable,silent,blank,vendor⟩)
    · have none : firstGiven (endpointSources manifest global env) = none :=
        Option.not_isSome_iff_eq_none.mp (mt (firstGiven_isSome _).mp reachable)
      have off := resolve_eq provided global env
      rw [none] at off
      rw [off]
      exact cascaded_none fun found => reachable found.2.1

-- A manifest that leaves the model to the environment, where the first variable is
-- set to nothing.
def bareManifest : AiSection := ⟨.openAiCompatible,"http://127.0.0.1:1/v1".toList,[]⟩

def bareEnv : EnvLookup := fun name => if name = envModelName then some [] else if name = envOpenaiModel then some "m".toList else none

theorem vendor_hidden : ¬ Cascaded bareManifest ⟨none,none⟩ bareEnv (resolveAiConfig bareManifest ⟨none,none⟩ bareEnv) := by
  intro cascaded
  have unresolved : resolveAiConfig bareManifest ⟨none,none⟩ bareEnv = none := by decide +kernel
  have found := cascaded.given.mpr ⟨by decide,⟨bareManifest.baseUrl,.head _,by decide +kernel⟩,⟨"m".toList,.tail _ (.tail _ (.head _)),by decide +kernel⟩⟩
  rw [unresolved] at found
  cases found

def schemeChar (c : Char) : Bool := isAsciiAlphabetic c || (48 ≤ c.toNat && c.toNat ≤ 57) || "+-.".toList.contains c

def schemeName : Text → Bool
  | [] => false
  | c :: rest => isAsciiAlphabetic c && rest.all schemeChar

def Schemed (url : Text) : Prop := ∃ cut ∈ splitOnce "://".toList url, schemeName cut.1 = true

-- What the two steps promise of an endpoint.
structure Endpoint (raw : Text) : Prop where
  idempotent : normalizeBaseUrl (normalizeBaseUrl raw) = normalizeBaseUrl raw
  schemed : Schemed (normalizeBaseUrl raw)
  trimmed : Trimmed (normalizeBaseUrl raw)
  slashless : ∀ c ∈ (normalizeBaseUrl raw).getLast?, c ≠ '/'
  steady : chatCompletionsUrl (chatCompletionsUrl raw) = chatCompletionsUrl raw

-- An input whose text inside the blanks, and before its last slashes, is a body
-- that has no blanks at its ends, and no other scheme than a name.
structure Plain (raw body : Text) : Prop where
  shape : ∃ blanks slashes tail, raw = blanks ++ (body ++ slashes) ++ tail ∧ (∀ c ∈ blanks, isWhitespace c = true) ∧
    (∀ c ∈ slashes, c = '/') ∧ ∀ c ∈ tail, isWhitespace c = true
  some : body ≠ []
  trimmed : Trimmed body
  slashless : ∀ c ∈ body.getLast?, c ≠ '/'
  named : ∀ cut ∈ splitOnce "://".toList body, schemeName cut.1 = true

-- A text that is an endpoint in its normal form.
structure Settled (url : Text) : Prop where
  trimmed : Trimmed url
  slashless : ∀ c ∈ url.getLast?, c ≠ '/'
  marked : contains "://".toList url = true

theorem Settled.normalize (settled : Settled url) : normalizeBaseUrl url = url := by
  have bare : trimEndMatches (· = '/') url = url := trimEndMatches_of_last fun c last => decide_eq_false (settled.slashless c last)
  unfold normalizeBaseUrl
  rw [settled.trimmed.trim_eq,bare]
  exact if_pos settled.marked

theorem prefixed_split (rest : Text) : splitOnce "://".toList ("http://".toList ++ rest) = some ("http".toList,rest) := rfl

theorem prefixed_contains (rest : Text) : contains "://".toList ("http://".toList ++ rest) = true := rfl

-- The input without its blanks and last slashes.
def stripped (raw : Text) : Text := trimEndMatches (· = '/') (trim raw)

theorem normalize_marked (marked : contains "://".toList (stripped raw) = true) : normalizeBaseUrl raw = stripped raw := if_pos marked

theorem normalize_bare (bare : ¬ contains "://".toList (stripped raw) = true) : normalizeBaseUrl raw = "http://".toList ++ stripped raw := if_neg bare

theorem stripped_head (raw : Text) : ∀ c ∈ (stripped raw).head?, isWhitespace c = false := by
  obtain ⟨slashes,cut,_⟩ := trimEndMatches_cut (· = '/') (trim raw)
  intro c first
  refine (trim_trimmed raw).1 c ?_
  rw [cut]
  exact List.mem_head?_append_of_mem_head? first

theorem normalize_contains (raw : Text) : contains "://".toList (normalizeBaseUrl raw) = true := by
  by_cases marked : contains "://".toList (stripped raw) = true
  · rwa [normalize_marked marked]
  · rw [normalize_bare marked]
    exact prefixed_contains _

theorem normalize_head (raw : Text) : ∀ c ∈ (normalizeBaseUrl raw).head?, isWhitespace c = false := by
  by_cases marked : contains "://".toList (stripped raw) = true
  · rw [normalize_marked marked]
    exact stripped_head raw
  · intro c first
    rw [normalize_bare marked] at first
    cases first
    decide

theorem normalize_some (raw : Text) : normalizeBaseUrl raw ≠ [] := by
  intro empty
  have marked := normalize_contains raw
  rw [empty] at marked
  cases marked

-- What starts as an endpoint and ends as the chat path is left as it is.
theorem settled_path (head : ∀ c ∈ url.head?, isWhitespace c = false) (marked : contains "://".toList url = true)
    (last : url.getLast? = some 's') : Settled url := by
  refine ⟨⟨head,fun c same => ?_⟩,fun c same => ?_,marked⟩
  · cases last.symm.trans same
    decide
  · cases last.symm.trans same
    decide

theorem path_last (front : Text) : (front ++ defaultChatPath).getLast? = some 's' := by
  rw [List.getLast?_append]
  rfl

theorem chat_settled (settled : Settled url) (ends : endsWith defaultChatPath url = true) : chatCompletionsUrl url = url := by
  unfold chatCompletionsUrl
  rw [settled.normalize]
  exact if_pos ends

theorem chat_steady (raw : Text) : chatCompletionsUrl (chatCompletionsUrl raw) = chatCompletionsUrl raw := by
  by_cases ends : endsWith defaultChatPath (normalizeBaseUrl raw) = true
  · have whole : chatCompletionsUrl raw = normalizeBaseUrl raw := if_pos ends
    rw [whole]
    obtain ⟨front,same⟩ := endsWith_eq ends
    exact chat_settled (settled_path (normalize_head raw) (normalize_contains raw) (same ▸ path_last front)) ends
  · have whole : chatCompletionsUrl raw = normalizeBaseUrl raw ++ defaultChatPath := if_neg ends
    have head : ∀ c ∈ (normalizeBaseUrl raw ++ defaultChatPath).head?, isWhitespace c = false := by
      rw [List.head?_append_of_ne_nil _ (normalize_some raw)]
      exact normalize_head raw
    rw [whole]
    exact chat_settled (settled_path head (contains_ahead (normalize_contains raw) _) (path_last _)) (endsWith_append _ _)

theorem Plain.stripped_eq (plain : Plain raw body) : stripped raw = body := by
  obtain ⟨⟨blanks,slashes,tail,rfl,blank,slash,white⟩,some,trimmed,slashless,_⟩ := plain
  obtain ⟨front,d,rfl⟩ := (List.eq_nil_or_concat' body).resolve_left some
  have inner : Trimmed (front ++ [d] ++ slashes) := by
    refine ⟨fun c first => ?_,fun c last => ?_⟩
    · rw [List.head?_append_of_ne_nil _ some] at first
      exact trimmed.1 c first
    · rw [List.getLast?_append] at last
      rcases Option.or_eq_some_iff.mp last with behind | ⟨_,front⟩
      · rw [slash c (List.mem_of_getLast? behind)]
        decide
      · exact trimmed.2 c front
  unfold stripped
  rw [trim_append white,trim_behind blank,inner.trim_eq,List.append_assoc,List.singleton_append]
  exact trimEndMatches_bare (fun c member => decide_eq_true (slash c member)) (decide_eq_false (slashless d (by simp))) front

theorem Plain.settled (plain : Plain raw body) : Settled (normalizeBaseUrl raw) := by
  have same := plain.stripped_eq
  by_cases marked : contains "://".toList (stripped raw) = true
  · rw [normalize_marked marked]
    rw [same] at marked ⊢
    exact ⟨plain.trimmed,plain.slashless,marked⟩
  · have last : ("http://".toList ++ body).getLast? = body.getLast? := List.getLast?_append_of_ne_nil _ plain.some
    rw [normalize_bare marked,same]
    refine ⟨⟨fun c first => ?_,?_⟩,?_,prefixed_contains body⟩
    · cases first
      decide
    · rw [last]
      exact plain.trimmed.2
    · rw [last]
      exact plain.slashless

theorem Plain.schemed (plain : Plain raw body) : Schemed (normalizeBaseUrl raw) := by
  have same := plain.stripped_eq
  by_cases marked : contains "://".toList (stripped raw) = true
  · obtain ⟨cut,found⟩ := Option.isSome_iff_exists.mp marked
    rw [normalize_marked marked]
    exact ⟨cut,found,plain.named cut (same ▸ found)⟩
  · rw [normalize_bare marked]
    exact ⟨_,prefixed_split _,rfl⟩

theorem stripped_cut (raw : Text) : ∃ blanks slashes tail, raw = blanks ++ (stripped raw ++ slashes) ++ tail ∧
    (∀ c ∈ blanks, isWhitespace c = true) ∧ (∀ c ∈ slashes, c = '/') ∧ ∀ c ∈ tail, isWhitespace c = true := by
  obtain ⟨blanks,front,blank⟩ := trimStart_cut raw
  obtain ⟨tail,back,white⟩ := trimEnd_cut (trimStart raw)
  obtain ⟨slashes,body,slash⟩ := trimEndMatches_cut (· = '/') (trim raw)
  refine ⟨blanks,slashes,tail,?_,blank,fun c member => of_decide_eq_true (slash c member),white⟩
  unfold stripped
  rw [← body,List.append_assoc]
  exact front.trans (congrArg (blanks ++ ·) back)

theorem endpoint_iff (raw : Text) : Endpoint raw ↔ ∃ body, Plain raw body := by
  constructor
  · rintro ⟨_,schemed,trimmed,slashless,_⟩
    have ending : stripped raw ≠ [] ∧ (normalizeBaseUrl raw).getLast? = (stripped raw).getLast? := by
      by_cases marked : contains "://".toList (stripped raw) = true
      · refine ⟨fun empty => ?_,congrArg List.getLast? (normalize_marked marked)⟩
        rw [empty] at marked
        cases marked
      · rw [normalize_bare marked] at slashless ⊢
        by_cases empty : stripped raw = []
        · rw [empty] at slashless
          exact absurd rfl (slashless '/' rfl)
        · exact ⟨empty,List.getLast?_append_of_ne_nil _ empty⟩
    refine ⟨stripped raw,stripped_cut raw,ending.1,⟨stripped_head raw,?_⟩,?_,fun cut found => ?_⟩
    · rw [← ending.2]
      exact trimmed.2
    · rw [← ending.2]
      exact slashless
    · have marked : contains "://".toList (stripped raw) = true := Option.isSome_of_mem found
      obtain ⟨other,same,named⟩ := schemed
      rw [normalize_marked marked] at same
      cases same.symm.trans found
      exact named
  · rintro ⟨body,plain⟩
    exact ⟨plain.settled.normalize,plain.schemed,plain.settled.trimmed,plain.settled.slashless,chat_steady raw⟩

-- A blank before the last slash stays, and goes the second time.
theorem blank_unsettled : ¬ Endpoint "http://h/v1 /".toList := by
  intro endpoint
  have twice := endpoint.idempotent
  revert twice
  decide +kernel

-- What is resolved passes the check before a call: neither text is blank.
theorem resolved_preflight (resolved : resolveAiConfig manifest global env = some c) {call : Calling} (given : call.config = some c.toAiConfig)
    (live : call.cancelled = false) (streams : call.stream = true) (k : Setting) : preflight k call = none := by
  have provided : manifest.provider ≠ .none := by
    intro off
    unfold resolveAiConfig at resolved
    rw [if_pos off] at resolved
    cases resolved
  rw [resolve_eq provided] at resolved
  obtain ⟨endpoint,_,built⟩ := Option.bind_eq_some_iff.mp resolved
  obtain ⟨model,picked,same⟩ := Option.map_eq_some_iff.mp built
  obtain ⟨m,first,named⟩ := Option.map_eq_some_iff.mp picked
  have reachable : trim c.baseUrl ≠ [] := by
    obtain ⟨⟨scheme,rest⟩,found⟩ := Option.isSome_iff_exists.mp (normalize_contains (trim endpoint))
    have colon : ':' ∈ normalizeBaseUrl (trim endpoint) := by
      rw [splitOnce_eq found]
      exact List.mem_append_left _ (List.mem_append_right _ (.head _))
    rw [← same]
    exact List.ne_nil_of_mem (trim_keeps (by decide) colon)
  have solid : trim c.model ≠ [] := by
    have full := firstGiven_given first
    unfold nonBlank at full
    rw [← same,← named,trim_trim]
    simpa using full
  unfold preflight
  rw [live,given,streams]
  simp [reachable,solid]

end PrincessIDE.Ai
