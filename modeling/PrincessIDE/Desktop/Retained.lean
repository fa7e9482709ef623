import PrincessIDE.Desktop.EventStore

namespace PrincessIDE.EventStore
open Utf8 (Text)

-- A bounded list keeps the last entries of all that were put in.
theorem capped_small (small : xs.length ≤ cap) : capped cap xs = xs := by
  rw [capped,Nat.sub_eq_zero_of_le small,List.drop_zero]

theorem capped_again (cap : Nat) (xs ys : List α) : capped cap (capped cap xs ++ ys) = capped cap (xs ++ ys) := by
  unfold capped
  by_cases small : xs.length ≤ cap
  · rw [Nat.sub_eq_zero_of_le small,List.drop_zero]
  · have cut : (xs.drop (xs.length-cap) ++ ys).length - cap = ys.length := by
      rw [List.length_append,List.length_drop]
      omega
    have all : (xs ++ ys).length - cap = (xs.length - cap) + ys.length := by
      rw [List.length_append]
      omega
    rw [cut,all,← List.drop_drop]
    congr 1
    rw [List.drop_append_of_le_length (by omega)]

-- A list with a cap or with none.
def keep : Option Nat → List α → List α
  | none,xs => xs
  | some cap,xs => capped cap xs

theorem keep_nil (cap : Option Nat) : keep cap ([] : List α) = [] := by
  cases cap with
  | none => rfl
  | some cap => exact capped_small (Nat.zero_le cap)

theorem keep_again (cap : Option Nat) (xs ys : List α) : keep cap (keep cap xs ++ ys) = keep cap (xs ++ ys) := by
  cases cap with
  | none => rfl
  | some cap => exact capped_again cap xs ys

-- What the envelopes before one say of it: the greatest number, whether a build
-- is known, and the foreign versions.
structure Past where
  last : Nat
  built : Bool
  versions : List Number

namespace Past

def start : Past := ⟨0,false,[]⟩

def foreign (p : Past) (env : AnyEvent) : Bool := env.v ≠ createInitialState.modelVersion && !p.versions.contains env.v

def builds (env : AnyEvent) : Bool := match env.payload with
  | .buildStarted _ | .buildFinished _ => true
  | _ => false

def next (p : Past) (env : AnyEvent) : Past :=
  ⟨max p.last env.seq,p.built || (p.last < env.seq && builds env),if p.foreign env then p.versions ++ [env.v] else p.versions⟩

end Past

-- The entries of the envelopes, each against what came before it.
def contributed (entry : Past → AnyEvent → Option α) : Past → List AnyEvent → List α
  | _,[] => []
  | past,env :: rest => (entry past env).toList ++ contributed entry (past.next env) rest

-- An applied envelope has a number above all before it.
def applied (entry : AnyEvent → Option α) (past : Past) (env : AnyEvent) : Option α :=
  if env.seq ≤ past.last then none else entry env

def logLine (env : AnyEvent) : Option LogLine := match env.payload with
  | .logAppend stream chunk encoding => some ⟨env.seq,env.ts,env.opId,stream,chunk,encoding,encoding = .utf8Lossy⟩
  | _ => none

def diagnosticOf (env : AnyEvent) : Option BuildDiagnostic := match env.payload with
  | .buildDiagnostic p => some p
  | _ => none

def stopOf (env : AnyEvent) : Option (Nat × DebugStopped) := match env.payload with
  | .debugStopped p => some (env.seq,p)
  | _ => none

def outputOf (env : AnyEvent) : Option (Nat × DebugOutput) := match env.payload with
  | .debugOutput p => some (env.seq,p)
  | _ => none

def messageOf (serverId : Text) (env : AnyEvent) : Option Text := match env.payload with
  | .lspMessage server message => if server = serverId then some message else none
  | _ => none

def ignoredOf (past : Past) (env : AnyEvent) : Option Ignored :=
  if env.seq ≤ past.last then some ⟨env.seq,env.payload.kind,"seq not greater than lastSeq".toList⟩ else
  match env.payload with
  | .buildFinished _ => if past.built then none else some ⟨env.seq,env.payload.kind,"build.finished without build.started".toList⟩
  | .unhandled kind => some ⟨env.seq,kind,"unhandled kind ".toList ++ kind⟩
  | _ => none

def gapAt (past : Past) (env : AnyEvent) : Option SeqGap :=
  if past.last ≠ 0 ∧ past.last+1 < env.seq then some ⟨past.last+1,env.seq,env.seq-past.last-1⟩ else none

def versionOf (past : Past) (env : AnyEvent) : Option Number := if past.foreign env then some env.v else none

def pastOf (s : IdeState) : Past := ⟨s.lastSeq,s.build.isSome,s.versionMismatches⟩

theorem lookup_set [DecidableEq κ] [BEq κ] [LawfulBEq κ] (key other : κ) (value : α) (rows : Record κ α) :
    (Record.set key value rows).lookup other = if other = key then some value else rows.lookup other := by
  induction rows with
  | nil =>
    rw [Record.set,List.lookup_cons,List.lookup_nil]
    by_cases same : other = key
    · rw [if_pos same,beq_iff_eq.mpr same]
    · rw [if_neg same,beq_eq_false_iff_ne.mpr same]
  | cons row rest ih =>
    obtain ⟨name,held⟩ := row
    rw [Record.set]
    by_cases here : name = key
    · rw [if_pos here,List.lookup_cons,List.lookup_cons,here]
      by_cases same : other = key
      · rw [if_pos same,beq_iff_eq.mpr same]
      · rw [if_neg same,beq_eq_false_iff_ne.mpr same]
    · rw [if_neg here,List.lookup_cons,List.lookup_cons,ih]
      by_cases found : other = name
      · have apart : ¬ other = key := fun same => here (found.symm.trans same)
        rw [beq_iff_eq.mpr found]
        exact (if_neg apart).symm
      · rw [beq_eq_false_iff_ne.mpr found]

theorem serverView_set (lsp : Record Text LspServerView) (server other : Text) (view : LspServerView) :
    serverView (Record.set server view lsp) other = if other = server then view else serverView lsp other := by
  unfold serverView
  rw [lookup_set]
  split <;> rfl

-- The branches that put something into a bounded list.
theorem applyPayload_log (s : Panels) : ∃ logs bytes,
    (applyPayload ⟨v,seq,ts,opId,.logAppend stream chunk encoding⟩ s).1 = {s with logs:=logs,logBytes:=bytes} ∧
    logs = capped maxLogLines (s.logs ++ [⟨seq,ts,opId,stream,chunk,encoding,encoding = .utf8Lossy⟩]) := ⟨_,_,rfl,rfl⟩

theorem applyPayload_diagnostic (s : Panels) : ∃ diagnostics,
    (applyPayload ⟨v,seq,ts,opId,.buildDiagnostic p⟩ s).1 = {s with diagnostics:=diagnostics} ∧
    diagnostics = capped maxDiagnostics (s.diagnostics ++ [p]) := ⟨_,rfl,rfl⟩

theorem applyPayload_message (s : Panels) : ∃ view : LspServerView,
    (applyPayload ⟨v,seq,ts,opId,.lspMessage server message⟩ s).1 = {s with lsp:=Record.set server view s.lsp} ∧
    view.messages = capped maxLspMessages ((serverView s.lsp server).messages ++ [message]) := by
  refine ⟨⟨(serverView s.lsp server).serverId,_,(serverView s.lsp server).stopped⟩,rfl,?_⟩
  dsimp only

theorem serverView_messages (s : Panels) (env : AnyEvent) (serverId : Text) (other : messageOf serverId env = none) :
    (serverView (applyPayload env s).1.lsp serverId).messages = (serverView s.lsp serverId).messages := by
  obtain ⟨v,seq,ts,opId,payload⟩ := env
  cases payload with
  | logAppend =>
    obtain ⟨logs,bytes,shape,_⟩ := applyPayload_log s
    rw [shape]
  | buildDiagnostic =>
    obtain ⟨kept,shape,_⟩ := applyPayload_diagnostic s
    rw [shape]
  | lspMessage server message =>
    obtain ⟨view,shape,_⟩ := applyPayload_message s
    rw [shape]
    dsimp only [messageOf] at other ⊢
    split at other
    · cases other
    · rename_i apart
      rw [serverView_set,if_neg (Ne.symm apart)]
  | lspStopped server reason =>
    dsimp only [applyPayload]
    rw [serverView_set]
    split
    · rename_i same
      rw [same]
    · rfl
  | _ => dsimp only [applyPayload] <;> split <;> rfl

-- What an envelope leaves alone.
structure Untouched (env : AnyEvent) (s t : Panels) : Prop where
  logs : logLine env = none → t.logs = s.logs
  diagnostics : diagnosticOf env = none → t.diagnostics = s.diagnostics
  stops : stopOf env = none → t.debug.stops = s.debug.stops
  output : outputOf env = none → t.debug.output = s.debug.output
  build : t.build.isSome = (s.build.isSome || Past.builds env)

theorem applyPayload_untouched (env : AnyEvent) (s : Panels) : Untouched env s (applyPayload env s).1 := by
  obtain ⟨v,seq,ts,opId,payload⟩ := env
  have same := (Bool.or_false s.build.isSome).symm
  have known := (Bool.or_true s.build.isSome).symm
  cases payload with
  | logAppend =>
    obtain ⟨logs,bytes,shape,_⟩ := applyPayload_log s
    rw [shape]
    exact ⟨nofun,fun _ => rfl,fun _ => rfl,fun _ => rfl,same⟩
  | buildDiagnostic =>
    obtain ⟨kept,shape,_⟩ := applyPayload_diagnostic s
    rw [shape]
    exact ⟨fun _ => rfl,nofun,fun _ => rfl,fun _ => rfl,same⟩
  | lspMessage =>
    obtain ⟨view,shape,_⟩ := applyPayload_message s
    rw [shape]
    exact ⟨fun _ => rfl,fun _ => rfl,fun _ => rfl,fun _ => rfl,same⟩
  | debugStopped => exact ⟨fun _ => rfl,fun _ => rfl,nofun,fun _ => rfl,same⟩
  | debugOutput => exact ⟨fun _ => rfl,fun _ => rfl,fun _ => rfl,nofun,same⟩
  | buildStarted => exact ⟨fun _ => rfl,fun _ => rfl,fun _ => rfl,fun _ => rfl,known⟩
  | buildFinished =>
    dsimp only [applyPayload]
    split <;> exact ⟨fun _ => rfl,fun _ => rfl,fun _ => rfl,fun _ => rfl,known⟩
  | runFault | runExited =>
    dsimp only [applyPayload]
    split <;> exact ⟨fun _ => rfl,fun _ => rfl,fun _ => rfl,fun _ => rfl,same⟩
  | _ => exact ⟨fun _ => rfl,fun _ => rfl,fun _ => rfl,fun _ => rfl,same⟩

-- A list of the panels with its cap, and what the branches do to it.
structure Column (get : Panels → List α) (cap : Option Nat) (entry : AnyEvent → Option α) : Prop where
  adds : ∀ {x} env s, entry env = some x → get (applyPayload env s).1 = keep cap (get s ++ [x])
  leaves : ∀ env s, entry env = none → get (applyPayload env s).1 = get s

theorem log_column : Column Panels.logs (some maxLogLines) logLine where
  adds {x} env s added := by
    obtain ⟨v,seq,ts,opId,payload⟩ := env
    cases payload <;> cases added
    obtain ⟨logs,bytes,shape,kept⟩ := applyPayload_log s
    rw [shape]
    exact kept
  leaves env s := (applyPayload_untouched env s).logs

theorem diagnostic_column : Column Panels.diagnostics (some maxDiagnostics) diagnosticOf where
  adds {x} env s added := by
    obtain ⟨v,seq,ts,opId,payload⟩ := env
    cases payload <;> cases added
    obtain ⟨diagnostics,shape,kept⟩ := applyPayload_diagnostic s
    rw [shape]
    exact kept
  leaves env s := (applyPayload_untouched env s).diagnostics

theorem stop_column : Column (fun s => s.debug.stops) none stopOf where
  adds {x} env s added := by
    obtain ⟨v,seq,ts,opId,payload⟩ := env
    cases payload <;> cases added
    rfl
  leaves env s := (applyPayload_untouched env s).stops

theorem output_column : Column (fun s => s.debug.output) none outputOf where
  adds {x} env s added := by
    obtain ⟨v,seq,ts,opId,payload⟩ := env
    cases payload <;> cases added
    rfl
  leaves env s := (applyPayload_untouched env s).output

theorem message_column (serverId : Text) :
    Column (fun s => (serverView s.lsp serverId).messages) (some maxLspMessages) (messageOf serverId) where
  adds {x} env s added := by
    obtain ⟨v,seq,ts,opId,payload⟩ := env
    cases payload with
    | lspMessage server message =>
      obtain ⟨view,shape,kept⟩ := applyPayload_message s
      dsimp only [messageOf] at added
      by_cases same : server = serverId
      · rw [if_pos same] at added
        cases added
        rw [shape,← same]
        dsimp only
        rw [serverView_set,if_pos rfl]
        exact kept
      · rw [if_neg same] at added
        cases added
    | _ => cases added
  leaves env s := serverView_messages s env serverId

-- The lists beside the panels.
theorem noteVersion_foreign (native : s.modelVersion = createInitialState.modelVersion) (env : AnyEvent) :
    (noteVersion s env.v).versionMismatches = s.versionMismatches ++ (versionOf (pastOf s) env).toList := by
  unfold noteVersion versionOf Past.foreign pastOf
  rw [native]
  by_cases foreign : (env.v ≠ createInitialState.modelVersion && !s.versionMismatches.contains env.v) = true
  · rw [if_pos foreign,if_pos foreign]
    rfl
  · rw [if_neg foreign,if_neg foreign]
    exact (List.append_nil _).symm

theorem noteVersion_ignored (s : IdeState) (v : Number) :
    (noteVersion s v).ignored = s.ignored ∧ (noteVersion s v).modelVersion = s.modelVersion := by
  unfold noteVersion
  split <;> exact ⟨rfl,rfl⟩

theorem applyPayload_reason (env : AnyEvent) (s : IdeState) (above : ¬ env.seq ≤ s.lastSeq) :
    (applyPayload env s.toPanels).2.map (Ignored.mk env.seq env.payload.kind) = ignoredOf (pastOf s) env := by
  obtain ⟨v,seq,ts,opId,payload⟩ := env
  rw [ignoredOf,if_neg (show ¬ seq ≤ (pastOf s).last from above)]
  cases payload with
  | buildFinished p =>
    dsimp only [applyPayload]
    cases build : s.build <;> simp [pastOf,build]
  | runFault | runExited =>
    dsimp only [applyPayload]
    split <;> rfl
  | _ => rfl

theorem noteGap_gaps (s : IdeState) (env : AnyEvent) (above : ¬ env.seq ≤ s.lastSeq) :
    (noteGap s env.seq).gaps = s.gaps ++ (gapAt (pastOf s) env).toList := by
  unfold noteGap gapAt pastOf
  by_cases hole : s.lastSeq ≠ 0 ∧ env.seq ≠ s.lastSeq+1
  · rw [if_pos hole,if_pos ⟨hole.1,show s.lastSeq+1 < env.seq by omega⟩]
    rfl
  · rw [if_neg hole,if_neg (fun wide : s.lastSeq ≠ 0 ∧ s.lastSeq+1 < env.seq => hole ⟨wide.1,by omega⟩)]
    exact (List.append_nil _).symm

theorem noteGap_books (s : IdeState) (seq : Nat) : (noteGap s seq).modelVersion = s.modelVersion ∧
    (noteGap s seq).versionMismatches = s.versionMismatches ∧ (noteGap s seq).ignored = s.ignored ∧
    (noteGap s seq).lastSeq = s.lastSeq ∧ (noteGap s seq).build = s.build := by
  unfold noteGap
  split <;> exact ⟨rfl,rfl,rfl,rfl,rfl⟩

-- What an envelope does to the lists beside the panels, once its version is noted.
structure Booked (s t : IdeState) (env : AnyEvent) : Prop where
  native : t.modelVersion = s.modelVersion
  versions : t.versionMismatches = s.versionMismatches
  ignored : t.ignored = s.ignored ++ (ignoredOf (pastOf s) env).toList
  gaps : t.gaps = s.gaps ++ (gapAt (pastOf s) env).toList

theorem skip_booked (s : IdeState) (env : AnyEvent) (old : env.seq ≤ s.lastSeq) : Booked s (skip s env) env := by
  have noted : ignoredOf (pastOf s) env = some ⟨env.seq,env.payload.kind,"seq not greater than lastSeq".toList⟩ := if_pos old
  have whole : gapAt (pastOf s) env = none := if_neg fun hole => absurd hole.2 (by dsimp only [pastOf]; omega)
  unfold skip
  split <;> exact ⟨rfl,rfl,by rw [noted]; rfl,by rw [whole]; exact (List.append_nil _).symm⟩

theorem applyNext_booked (s : IdeState) (env : AnyEvent) (above : ¬ env.seq ≤ s.lastSeq) :
    Booked s (applyNext (noteGap s env.seq) env) env := by
  obtain ⟨native,versions,ignored,last,build⟩ := noteGap_books s env.seq
  have gaps := noteGap_gaps s env above
  have reason := applyPayload_reason env (noteGap s env.seq) (by rwa [last])
  have past : ignoredOf (pastOf (noteGap s env.seq)) env = ignoredOf (pastOf s) env := by
    unfold ignoredOf pastOf
    rw [last,build]
  rw [past] at reason
  unfold applyNext
  generalize applyPayload env (noteGap s env.seq).toPanels = result at reason ⊢
  obtain ⟨panels,noted⟩ := result
  cases noted with
  | none => exact ⟨native,versions,by rw [← reason,← ignored]; exact (List.append_nil _).symm,gaps⟩
  | some noted => exact ⟨native,versions,by rw [← reason,← ignored]; rfl,gaps⟩

theorem applyEvent_booked (s : IdeState) (env : AnyEvent) : Booked (noteVersion s env.v) (applyEvent s env) env := by
  unfold applyEvent
  by_cases old : env.seq ≤ (noteVersion s env.v).lastSeq
  · simp only [if_pos old]
    exact skip_booked _ env old
  · simp only [if_neg old]
    exact applyNext_booked _ env old

theorem versionOf_next (past : Past) (env : AnyEvent) : (past.next env).versions = past.versions ++ (versionOf past env).toList := by
  unfold Past.next versionOf
  by_cases foreign : past.foreign env = true
  · rw [if_pos foreign,if_pos foreign]
    rfl
  · rw [if_neg foreign,if_neg foreign]
    exact (List.append_nil _).symm

theorem applyEvent_past (native : s.modelVersion = createInitialState.modelVersion) (env : AnyEvent) :
    (applyEvent s env).modelVersion = createInitialState.modelVersion ∧ pastOf (applyEvent s env) = (pastOf s).next env := by
  have booked := applyEvent_booked s env
  have panels := (applyEvent_cases s env).2
  refine ⟨booked.native.trans ((noteVersion_ignored s env.v).2.trans native),?_⟩
  have versions : (applyEvent s env).versionMismatches = ((pastOf s).next env).versions := by
    rw [booked.versions,noteVersion_foreign native,versionOf_next]
    rfl
  have last : (applyEvent s env).lastSeq = max s.lastSeq env.seq := by
    by_cases old : env.seq ≤ s.lastSeq
    · rw [(applyEvent_old old).1,Nat.max_eq_left old]
    · rw [(applyEvent_new old).1,Nat.max_eq_right (Nat.le_of_not_le old)]
  have build : (applyEvent s env).build.isSome = (s.build.isSome || (s.lastSeq < env.seq && Past.builds env)) := by
    by_cases old : env.seq ≤ s.lastSeq
    · rw [if_pos old] at panels
      rw [panels,decide_eq_false (Nat.not_lt.mpr old),Bool.false_and,Bool.or_false]
    · rw [if_neg old] at panels
      rw [panels,(applyPayload_untouched env s.toPanels).build,decide_eq_true (Nat.lt_of_not_le old),Bool.true_and]
  unfold pastOf
  rw [versions,last,build]
  rfl

-- A list with its cap and what an envelope contributes to it, over a whole run.
def Kept (get : IdeState → List α) (cap : Option Nat) (entry : Past → AnyEvent → Option α) : Prop :=
  ∀ s env, s.modelVersion = createInitialState.modelVersion → keep cap (get s) = get s →
    get (applyEvent s env) = keep cap (get s ++ (entry (pastOf s) env).toList)

theorem Kept.run {get : IdeState → List α} (kept : Kept get cap entry) (native : s.modelVersion = createInitialState.modelVersion)
    (settled : keep cap (get s) = get s) (fed : List AnyEvent) :
    get (replayEvents fed s) = keep cap (get s ++ contributed entry (pastOf s) fed) := by
  induction fed generalizing s with
  | nil =>
    rw [contributed,List.append_nil,settled]
    rfl
  | cons env rest ih =>
    have step := kept s env native settled
    obtain ⟨model,past⟩ := applyEvent_past native env
    have again := keep_again cap (get s ++ (entry (pastOf s) env).toList)
    have within : keep cap (get (applyEvent s env)) = get (applyEvent s env) := by
      have alone := again []
      rw [List.append_nil,List.append_nil] at alone
      rw [step,alone]
    change get (replayEvents rest (applyEvent s env)) = _
    rw [ih model within,step,past,again,contributed,List.append_assoc]

theorem Kept.replayed {get : IdeState → List α} (kept : Kept get cap entry) (empty : get createInitialState = []) (fed : List AnyEvent) :
    get (replayEvents fed createInitialState) = keep cap (contributed entry .start fed) := by
  rw [kept.run rfl (by rw [empty,keep_nil]),empty]
  rfl

theorem Column.kept {get : Panels → List α} (column : Column get cap entry) : Kept (fun s => get s.toPanels) cap (applied entry) := by
  intro s env _ settled
  have panels := (applyEvent_cases s env).2
  change keep cap (get s.toPanels) = get s.toPanels at settled
  show get (applyEvent s env).toPanels = keep cap (get s.toPanels ++ (applied entry (pastOf s) env).toList)
  unfold applied
  by_cases old : env.seq ≤ s.lastSeq
  · rw [if_pos old] at panels
    rw [panels,if_pos (show env.seq ≤ (pastOf s).last from old)]
    exact settled.symm.trans (congrArg (keep cap) (List.append_nil _).symm)
  · rw [if_neg old] at panels
    rw [panels,if_neg (show ¬ env.seq ≤ (pastOf s).last from old)]
    cases added : entry env with
    | none => exact (column.leaves env s.toPanels added).trans (settled.symm.trans (congrArg (keep cap) (List.append_nil _).symm))
    | some x => exact column.adds env s.toPanels added

theorem ignored_kept : Kept IdeState.ignored none ignoredOf := by
  intro s env _ _
  have past : ignoredOf (pastOf (noteVersion s env.v)) env = ignoredOf (pastOf s) env := by
    obtain ⟨numbers,panels⟩ := noteVersion_same s env.v
    have last : (noteVersion s env.v).lastSeq = s.lastSeq := congrArg Sequence.lastSeq numbers
    have build : (noteVersion s env.v).build = s.build := congrArg Panels.build panels
    unfold ignoredOf pastOf
    rw [last,build]
  rw [(applyEvent_booked s env).ignored,(noteVersion_ignored s env.v).1,past]
  rfl

theorem gaps_kept : Kept IdeState.gaps none gapAt := by
  intro s env _ _
  have numbers := (noteVersion_same s env.v).1
  have past : gapAt (pastOf (noteVersion s env.v)) env = gapAt (pastOf s) env := by
    have last : (noteVersion s env.v).lastSeq = s.lastSeq := congrArg Sequence.lastSeq numbers
    unfold gapAt pastOf
    rw [last]
  have gaps : (noteVersion s env.v).gaps = s.gaps := congrArg Sequence.gaps numbers
  rw [(applyEvent_booked s env).gaps,gaps,past]
  rfl

theorem versions_kept : Kept IdeState.versionMismatches none versionOf := by
  intro s env native _
  rw [(applyEvent_booked s env).versions,noteVersion_foreign native]
  rfl

-- The last of all that was put in, as many as the cap allows.
def Latest (cap : Nat) (kept all : List α) : Prop := kept <:+ all ∧ kept.length = min cap all.length

theorem latest_capped (cap : Nat) (all : List α) : Latest cap (keep (some cap) all) all := by
  refine ⟨List.drop_suffix _ _,?_⟩
  rw [keep,capped,List.length_drop]
  omega

theorem latest_whole (cap : Nat) (all : List α) : Latest cap (keep none all) all ↔ all.length ≤ cap := by
  rw [Latest,keep]
  exact ⟨fun latest => by omega,fun small => ⟨List.suffix_refl all,by omega⟩⟩

-- The caps that the source has no constants for.
structure Caps where
  output : Nat
  ignored : Nat
  gaps : Nat
  versions : Nat

structure Retained (caps : Caps) (fed : List AnyEvent) (s : IdeState) : Prop where
  logs : Latest maxLogLines s.logs (contributed (applied logLine) .start fed)
  diagnostics : Latest maxDiagnostics s.diagnostics (contributed (applied diagnosticOf) .start fed)
  messages : ∀ serverId, Latest maxLspMessages (serverView s.lsp serverId).messages (contributed (applied (messageOf serverId)) .start fed)
  stops : Latest maxDiagnostics s.debug.stops (contributed (applied stopOf) .start fed)
  output : Latest caps.output s.debug.output (contributed (applied outputOf) .start fed)
  ignored : Latest caps.ignored s.ignored (contributed ignoredOf .start fed)
  gaps : Latest caps.gaps s.gaps (contributed gapAt .start fed)
  versions : Latest caps.versions s.versionMismatches (contributed versionOf .start fed)

-- So few entries that the lists without a cap stay within one.
structure Few (caps : Caps) (fed : List AnyEvent) : Prop where
  stops : (contributed (applied stopOf) .start fed).length ≤ maxDiagnostics
  output : (contributed (applied outputOf) .start fed).length ≤ caps.output
  ignored : (contributed ignoredOf .start fed).length ≤ caps.ignored
  gaps : (contributed gapAt .start fed).length ≤ caps.gaps
  versions : (contributed versionOf .start fed).length ≤ caps.versions

theorem contributed_front (entry : Past → AnyEvent → Option α) (past : Past) {before fed : List AnyEvent} (part : before <+: fed) :
    (contributed entry past before).length ≤ (contributed entry past fed).length := by
  obtain ⟨after,rfl⟩ := part
  induction before generalizing past with
  | nil => exact Nat.zero_le _
  | cons env rest ih =>
    rw [List.cons_append,contributed,contributed,List.length_append,List.length_append]
    exact Nat.add_le_add_left (ih (past.next env)) _

theorem few_front (few : Few caps fed) (part : before <+: fed) : Few caps before := by
  refine ⟨?_,?_,?_,?_,?_⟩
  · exact (contributed_front _ _ part).trans few.stops
  · exact (contributed_front _ _ part).trans few.output
  · exact (contributed_front _ _ part).trans few.ignored
  · exact (contributed_front _ _ part).trans few.gaps
  · exact (contributed_front _ _ part).trans few.versions

theorem replay_stops (fed : List AnyEvent) :
    (replayEvents fed createInitialState).debug.stops = keep none (contributed (applied stopOf) .start fed) :=
  stop_column.kept.replayed rfl fed

theorem replay_retained (caps : Caps) (fed : List AnyEvent) : Retained caps fed (replayEvents fed createInitialState) ↔ Few caps fed := by
  have stops := replay_stops fed
  have output := output_column.kept.replayed rfl fed
  have ignored := ignored_kept.replayed rfl fed
  have gaps := gaps_kept.replayed rfl fed
  have versions := versions_kept.replayed rfl fed
  constructor
  · intro retained
    refine ⟨?_,?_,?_,?_,?_⟩
    · exact (latest_whole _ _).mp (stops ▸ retained.stops)
    · exact (latest_whole _ _).mp (output ▸ retained.output)
    · exact (latest_whole _ _).mp (ignored ▸ retained.ignored)
    · exact (latest_whole _ _).mp (gaps ▸ retained.gaps)
    · exact (latest_whole _ _).mp (versions ▸ retained.versions)
  · intro few
    have logs := log_column.kept.replayed rfl fed
    have diagnostics := diagnostic_column.kept.replayed rfl fed
    refine ⟨?_,?_,fun serverId => ?_,?_,?_,?_,?_,?_⟩
    · rw [logs]
      exact latest_capped _ _
    · rw [diagnostics]
      exact latest_capped _ _
    · rw [(message_column serverId).kept.replayed rfl fed]
      exact latest_capped _ _
    · rw [stops]
      exact (latest_whole _ _).mpr few.stops
    · rw [output]
      exact (latest_whole _ _).mpr few.output
    · rw [ignored]
      exact (latest_whole _ _).mpr few.ignored
    · rw [gaps]
      exact (latest_whole _ _).mpr few.gaps
    · rw [versions]
      exact (latest_whole _ _).mpr few.versions

def stopAt (seq : Nat) : AnyEvent :=
  ⟨1,seq,"t".toList,none,.debugStopped ⟨.step,1,⟨0,"kmain".toList,"kernel/main.c".toList,1,"0x100000".toList⟩,[]⟩⟩

theorem stops_contributed (count : Nat) : ∀ {past : Past} {first : Nat}, past.last < first →
    (contributed (applied stopOf) past ((List.range' first count).map stopAt)).length = count := by
  induction count with
  | zero => intro past first _; rfl
  | succ count ih =>
    intro past first above
    have shown : applied stopOf past (stopAt first) = stopOf (stopAt first) := if_neg (Nat.not_le.mpr above)
    rw [List.range'_succ,List.map_cons,contributed,shown,List.length_append,ih (show max past.last first < first+1 by omega)]
    exact Nat.add_comm 1 count

end PrincessIDE.EventStore
