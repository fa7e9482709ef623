import Mathlib.Data.List.InsertIdx
import PrincessIDE.Desktop.EventBus

namespace PrincessIDE.Replay
open EventStore Maxima Bus

-- A hole raises the flag, and nothing takes it back.
theorem applyEvent_needsReplay (s : IdeState) (env : AnyEvent) : (applyEvent s env).needsReplay = true ↔
    s.needsReplay = true ∨ s.lastSeq < env.seq ∧ s.lastSeq ≠ 0 ∧ env.seq ≠ s.lastSeq+1 := by
  have numbers := (applyEvent_cases s env).1
  have flag : (applyEvent s env).needsReplay = (s.sequence.next env.seq).needsReplay := congrArg Sequence.needsReplay numbers
  rw [flag,Sequence.next]
  change (if env.seq ≤ s.lastSeq then _ else _ : Sequence).needsReplay = true ↔ _
  by_cases old : env.seq ≤ s.lastSeq
  · rw [if_pos old]
    have flag : (if env.seq = s.sequence.lastSeq then {s.sequence with duplicates:=s.sequence.duplicates+1}
        else {s.sequence with outOfOrder:=s.sequence.outOfOrder+1}).needsReplay = s.needsReplay := by split <;> rfl
    rw [flag]
    exact ⟨.inl,fun either => either.elim id fun new => absurd new.1 (Nat.not_lt.mpr old)⟩
  · rw [if_neg old]
    by_cases hole : s.lastSeq ≠ 0 ∧ env.seq ≠ s.lastSeq+1
    · rw [if_pos (show s.sequence.lastSeq ≠ 0 ∧ env.seq ≠ s.sequence.lastSeq+1 from hole)]
      exact ⟨fun _ => .inr ⟨Nat.not_le.mp old,hole⟩,fun _ => rfl⟩
    · rw [if_neg (show ¬ (s.sequence.lastSeq ≠ 0 ∧ env.seq ≠ s.sequence.lastSeq+1) from hole)]
      exact ⟨.inl,fun either => either.elim id fun new => absurd new.2 hole⟩

theorem applyEvent_lastSeq (s : IdeState) (env : AnyEvent) : (applyEvent s env).lastSeq = max s.lastSeq env.seq := by
  by_cases old : env.seq ≤ s.lastSeq
  · rw [(applyEvent_old old).1,Nat.max_eq_left old]
  · rw [(applyEvent_new old).1,Nat.max_eq_right (Nat.le_of_not_le old)]

theorem replayEvents_append (fed more : List AnyEvent) (s : IdeState) :
    replayEvents (fed ++ more) s = replayEvents more (replayEvents fed s) := List.foldl_append

theorem replayEvents_grows (events : List AnyEvent) (s : IdeState) : s.lastSeq ≤ (replayEvents events s).lastSeq ∧
    (s.needsReplay = true → (replayEvents events s).needsReplay = true) := by
  induction events generalizing s with
  | nil => exact ⟨Nat.le_refl _,id⟩
  | cons env rest ih =>
    obtain ⟨above,stays⟩ := ih (applyEvent s env)
    have step := applyEvent_lastSeq s env
    exact ⟨Nat.le_trans (by omega) above,fun raised => stays ((applyEvent_needsReplay s env).mpr (.inl raised))⟩

-- The state after the events 1, …, n in their order.
def ideal (published : List AnyEvent) (n : Nat) : IdeState := replayEvents (published.take n) createInitialState

theorem ideal_next (found : published[n]? = some env) : ideal published (n+1) = applyEvent (ideal published n) env := by
  rw [ideal,List.take_add_one,found,Option.toList_some,replayEvents_snoc]
  rfl

theorem ideal_counts (numbered : Numbered published) (inside : n ≤ published.length) :
    (ideal published n).lastSeq = n ∧ (ideal published n).appliedEvents = n := by
  induction n with
  | zero => exact ⟨rfl,rfl⟩
  | succ n ih =>
    obtain ⟨last,count⟩ := ih (by omega)
    have found := List.getElem?_eq_getElem (show n < published.length by omega)
    have seq := numbered _ _ found
    obtain ⟨next,more⟩ := applyEvent_new (show ¬ published[n].seq ≤ (ideal published n).lastSeq by omega)
    rw [ideal_next found,next,more,seq,count]
    exact ⟨rfl,rfl⟩

-- With the first event in its place, the flag says exactly that a number below the last one was not applied.
theorem needsReplay_iff (positive : ∀ env ∈ fed, 1 ≤ env.seq) (first : ∀ env ∈ fed.head?, env.seq = 1) :
    (replayEvents fed createInitialState).needsReplay = true ↔
    ∃ n, 1 ≤ n ∧ n < (replayEvents fed createInitialState).lastSeq ∧ n ∉ appliedNumbers createInitialState fed := by
  obtain ⟨last,_,gaps,_,raised⟩ := replay_counted fed positive
  rw [appliedNumbers_initial fed positive]
  generalize replayEvents fed createInitialState = s at *
  change s.lastSeq = _ at last
  change s.gaps = _ at gaps
  change s.needsReplay = true ↔ s.gaps ≠ [] at raised
  rw [raised,gaps,Ne,List.map_eq_nil_iff]
  cases fed with
  | nil =>
    refine ⟨fun some => absurd rfl some,fun below => ?_⟩
    obtain ⟨n,_,below,_⟩ := below
    rw [last] at below
    cases below
  | cons env rest =>
    have ascends := maxima_ascends ((env::rest).map AnyEvent.seq)
    rw [List.map_cons,maxima,first env rfl] at ascends last ⊢
    generalize (maxima (rest.map AnyEvent.seq)).filter (1 < ·) = numbers at *
    have top := List.getLast?_eq_some_getLast (List.cons_ne_nil 1 numbers)
    rw [top,Option.getD_some] at last
    rw [← last] at top
    rw [holes_nil_iff ascends top]
    constructor
    · intro missing
      push Not at missing
      obtain ⟨n,low,high,absent⟩ := missing
      refine ⟨n,low,Nat.lt_of_le_of_ne high fun same => ?_,absent⟩
      exact absent (same ▸ List.mem_of_getLast? top)
    · rintro ⟨n,low,high,absent⟩ all
      exact absent (all n low (Nat.le_of_lt high))

theorem known_positive {fed : List AnyEvent} (numbered : Numbered published) (known : ∀ env ∈ fed, env ∈ published) : ∀ env ∈ fed, 1 ≤ env.seq :=
  fun env member => (numbered_mem numbered (known env member)).1

theorem known_within (numbered : Numbered published) (known : ∀ env ∈ fed, env ∈ published) :
    (replayEvents fed createInitialState).lastSeq ≤ published.length := by
  cases fed with
  | nil => exact Nat.zero_le _
  | cons env rest =>
    obtain ⟨⟨top,inside,same⟩,_⟩ := replay_last (known_positive numbered known) List.mem_cons_self
    rw [← same]
    exact (numbered_mem numbered (known top inside)).2

-- What was fed starts with the first event, and without a hole the panels are
-- those of all events up to the last one.
structure Tracks (published fed : List AnyEvent) : Prop where
  known : ∀ env ∈ fed, env ∈ published
  first : ∀ env ∈ fed.head?, env.seq = 1
  panels : (replayEvents fed createInitialState).needsReplay = false →
    (replayEvents fed createInitialState).toPanels =
      (ideal published (replayEvents fed createInitialState).lastSeq).toPanels

theorem Tracks.snoc (tracks : Tracks published fed) (numbered : Numbered published) (member : env ∈ published)
    (opening : (replayEvents fed createInitialState).lastSeq = 0 → env.seq = 1) : Tracks published (fed ++ [env]) := by
  have within := known_within numbered tracks.known
  refine ⟨List.forall_mem_append.mpr ⟨tracks.known,fun other here => List.mem_singleton.mp here ▸ member⟩,?_,?_⟩
  · cases fed with
    | nil =>
      intro other head
      cases head
      exact opening rfl
    | cons other rest => exact tracks.first
  · rw [replayEvents_snoc,(applyEvent_cases _ env).2,applyEvent_lastSeq]
    have panels := tracks.panels
    generalize replayEvents fed createInitialState = s at *
    intro flag
    have flags := (applyEvent_needsReplay s env).not.mp (by rw [flag]; exact Bool.false_ne_true)
    rw [not_or,Bool.not_eq_true] at flags
    obtain ⟨low,close⟩ := flags
    by_cases old : env.seq ≤ s.lastSeq
    · rw [if_pos old,Nat.max_eq_left old]
      exact panels low
    · have next : env.seq = s.lastSeq+1 := by
        by_cases fresh : s.lastSeq = 0
        · rw [opening fresh,fresh]
        · by_contra apart
          exact close ⟨Nat.not_le.mp old,fresh,apart⟩
      obtain ⟨i,found⟩ := List.mem_iff_getElem?.mp member
      have index := numbered i env found
      obtain rfl : i = s.lastSeq := by omega
      obtain ⟨last,_⟩ := ideal_counts numbered within
      rw [if_neg old,Nat.max_eq_right (Nat.le_of_not_le old),next,ideal_next found,(applyEvent_cases _ env).2,
        if_neg (by omega),panels low]

-- Events that follow each other, from one that is not behind the state: they leave no hole.
theorem Tracks.feed (numbered : Numbered published) (events : List AnyEvent) (known : ∀ env ∈ events, env ∈ published)
    (follow : ∀ i env, events[i]? = some env → env.seq = behind+i+1) (tracks : Tracks published fed)
    (low : (replayEvents fed createInitialState).needsReplay = false)
    (reach : behind ≤ (replayEvents fed createInitialState).lastSeq) :
    Tracks published (fed ++ events) ∧ (replayEvents (fed ++ events) createInitialState).needsReplay = false ∧
    behind+events.length ≤ (replayEvents (fed ++ events) createInitialState).lastSeq := by
  induction events generalizing behind fed with
  | nil =>
    rw [List.append_nil]
    exact ⟨tracks,low,reach⟩
  | cons env rest ih =>
    obtain ⟨here,later⟩ := List.forall_mem_cons.mp known
    have seq : env.seq = behind+1 := follow 0 env rfl
    have next := tracks.snoc numbered here (by omega)
    have step := applyEvent_lastSeq (replayEvents fed createInitialState) env
    have flag := applyEvent_needsReplay (replayEvents fed createInitialState) env
    rw [← replayEvents_snoc] at step flag
    have still : (replayEvents (fed ++ [env]) createInitialState).needsReplay = false := by
      rw [← Bool.not_eq_true,flag,low]
      rintro (raised | hole)
      · cases raised
      · omega
    have after := ih later (fun i other found => by rw [follow (i+1) other found]; omega) next still
      (show behind+1 ≤ _ by omega)
    rw [List.append_assoc,List.singleton_append] at after
    rw [List.length_cons]
    exact ⟨after.1,after.2.1,by have count := after.2.2; omega⟩

-- The engine's bus, the state of the interface, and the answers on their way
-- to it. The rest is history: all that was published and all that was fed, the
-- last number of the answers, and the last number of the state behind the last
-- of them.
structure Session where
  bus : EventBus
  ui : IdeState
  answers : List OpReplayData
  published : List AnyEvent
  fed : List AnyEvent
  answered : Nat
  replayed : Nat
deriving DecidableEq, Repr

def start : Session := ⟨.new,createInitialState,[],[],[],0,0⟩

-- An event that is lost is one that no `deliver` names.
inductive Step where
  | publish
  | deliver (index : Nat)
  | ask
  | feed (index : Nat)
deriving DecidableEq, Repr

-- `ask` is the button `request-replay`. Its handler drops the events of the
-- answer: `feed` does with them what the listener does with a live event.
def perform (stream : Nat → Body) (s : Session) : Step → Session
  | .publish =>
    let (bus,env) := s.bus.envelope (stream s.published.length)
    {s with bus:=bus,published:=s.published ++ [env]}
  | .deliver index => match s.published[index]? with
    | some env => {s with ui:=applyEvent s.ui env,fed:=s.fed ++ [env]}
    | none => s
  | .ask => {s with answers:=s.answers ++ [opReplay s.bus (s.ui.lastSeq+1)]}
  | .feed index => match s.answers[index]? with
    | some answer =>
      let ui := replayEvents answer.events s.ui
      ⟨s.bus,ui,s.answers.eraseIdx index,s.published,s.fed ++ answer.events,max s.answered answer.lastSeq,ui.lastSeq⟩
    | none => s

def run (stream : Nat → Body) (steps : List Step) : Session := steps.foldl (perform stream) start

theorem run_snoc (stream : Nat → Body) (steps : List Step) (step : Step) :
    run stream (steps ++ [step]) = perform stream (run stream steps) step := List.foldl_concat _ _ _ _

-- What holds of each step in the state before it, along a run.
def Along (P : Session → Step → Prop) (stream : Nat → Body) (steps : List Step) : Prop :=
  ∀ before step, before ++ [step] <+: steps → P (run stream before) step

theorem along_front (along : Along P stream steps) (front : before <+: steps) : Along P stream before :=
  fun earlier step cut => along earlier step (cut.trans front)

theorem along_last (along : Along P stream (steps ++ [step])) : P (run stream steps) step := along steps step (List.prefix_refl _)

theorem along_snoc (along : Along P stream steps) (here : P (run stream steps) step) : Along P stream (steps ++ [step]) := by
  intro before last cut
  rcases List.prefix_concat_iff.mp cut with same | earlier
  · obtain ⟨front,final⟩ := List.append_inj' same rfl
    cases front
    cases final
    exact here
  · exact along before last earlier

-- No event that is asked for was evicted.
def Kept (s : Session) : Step → Prop
  | .ask => s.published.length ≤ s.ui.lastSeq+ringCapacity
  | _ => True

-- Nothing but the first event opens the state, and no answer comes to a state
-- that has a hole.
def Steady (s : Session) : Step → Prop
  | .deliver index => ∀ env ∈ s.published[index]?, s.ui.lastSeq = 0 → env.seq = 1
  | .feed index => ∀ answer ∈ s.answers[index]?, s.ui.needsReplay = false
  | _ => True

-- The panels that the events of the session show.
def shown (p : Panels) := (p.build,p.run,p.debug,p.ai,p.lsp,p.logs)

-- `panels`: as long as nothing newer is applied than a replay left, the panels
-- are those of 1, …, n. `whole`: n is the last event published if the replay
-- answered up to it.
structure Recovered (s : Session) : Prop where
  panels : s.ui.lastSeq = s.replayed → shown s.ui.toPanels = shown (ideal s.published s.replayed).toPanels
  whole : s.answered = s.published.length →
    shown s.ui.toPanels = shown (replayEvents s.published createInitialState).toPanels
  needsReplay : s.ui.needsReplay = true ↔
    ∃ env ∈ s.published, env.seq < s.ui.lastSeq ∧ env.seq ∉ appliedNumbers createInitialState s.fed

-- An answer on its way has the events behind a number that the state has passed.
structure Fits (s : Session) (answer : OpReplayData) : Prop where
  within : answer.lastSeq ≤ s.published.length
  events : ∃ behind ≤ s.ui.lastSeq, answer.events = (s.published.take answer.lastSeq).drop behind

theorem Fits.known (fits : Fits s answer) : ∀ env ∈ answer.events, env ∈ s.published := by
  obtain ⟨_,behind,_,events⟩ := fits
  rw [events]
  exact fun env member => List.mem_of_mem_take (List.mem_of_mem_drop member)

structure Follows (s : Session) : Prop where
  bus : Holds s.bus s.published
  ui : s.ui = replayEvents s.fed createInitialState
  answers : ∀ answer ∈ s.answers, Fits s answer
  tracks : Tracks s.published s.fed
  settled : s.ui.lastSeq = s.replayed → s.ui.needsReplay = false
  passed : s.replayed ≤ s.ui.lastSeq
  reach : s.answered ≤ s.replayed

theorem start_follows : Follows start := by
  have tracks : Tracks [] [] := ⟨List.forall_mem_nil _,fun _ head => (by cases head),fun _ => rfl⟩
  exact ⟨new_holds,rfl,List.forall_mem_nil _,tracks,fun _ => rfl,Nat.le_refl _,Nat.le_refl _⟩

theorem publish_follows (follows : Follows s) : Follows (perform stream s .publish) := by
  obtain ⟨bus,ui,answers,tracks,settled,passed,reach⟩ := follows
  have within := known_within bus.numbered tracks.known
  rw [← ui] at within
  have grown := envelope_holds bus (stream s.published.length)
  refine ⟨grown,ui,fun answer member => ?_,⟨?_,tracks.first,fun flag => ?_⟩,settled,passed,reach⟩
  · obtain ⟨inside,behind,past,events⟩ := answers answer member
    refine ⟨?_,behind,past,?_⟩
    · simp only [perform,List.length_append]
      omega
    · rw [events]
      simp only [perform,List.take_append_of_le_length inside]
  · exact fun env member => List.mem_append_left _ (tracks.known env member)
  · have panels := tracks.panels flag
    change (replayEvents s.fed createInitialState).toPanels = (ideal (s.published ++ _)
      (replayEvents s.fed createInitialState).lastSeq).toPanels
    rw [← ui] at panels ⊢
    rw [panels,ideal,ideal,List.take_append_of_le_length within]

theorem deliver_follows (follows : Follows s) (steady : Steady s (.deliver index)) :
    Follows (perform stream s (.deliver index)) := by
  obtain ⟨bus,ui,answers,tracks,settled,passed,reach⟩ := follows
  cases found : s.published[index]? with
  | none =>
    simp only [perform,found]
    exact ⟨bus,ui,answers,tracks,settled,passed,reach⟩
  | some env =>
    simp only [perform,found]
    have opening : s.ui.lastSeq = 0 → env.seq = 1 := steady env found
    have last := applyEvent_lastSeq s.ui env
    have flag := applyEvent_needsReplay s.ui env
    refine ⟨bus,?_,fun answer member => ?_,?_,fun same => ?_,?_,?_⟩
    · rw [replayEvents_snoc,← ui]
    · obtain ⟨inside,behind,past,events⟩ := answers answer member
      exact ⟨inside,behind,Nat.le_trans past (by simp only [last]; omega),events⟩
    · exact tracks.snoc bus.numbered (List.mem_of_getElem? found) (ui ▸ opening)
    · change (applyEvent s.ui env).lastSeq = s.replayed at same
      change (applyEvent s.ui env).needsReplay = false
      rw [← Bool.not_eq_true,flag,settled (by omega)]
      rintro (raised | hole)
      · cases raised
      · omega
    · change s.replayed ≤ (applyEvent s.ui env).lastSeq
      omega
    · exact reach

theorem ask_follows (follows : Follows s) (kept : Kept s .ask) : Follows (perform stream s .ask) := by
  obtain ⟨bus,ui,answers,tracks,settled,passed,reach⟩ := follows
  refine ⟨bus,ui,?_,tracks,settled,passed,reach⟩
  refine List.forall_mem_append.mpr ⟨fun answer member => ?_,fun answer member => ?_⟩
  · obtain ⟨inside,rest⟩ := answers answer member
    exact ⟨inside,rest⟩
  · cases List.mem_singleton.mp member
    have last : s.bus.lastSeq = s.published.length := bus.count
    refine ⟨Nat.le_of_eq last,s.ui.lastSeq,Nat.le_refl _,?_⟩
    simp only [perform,opReplay]
    rw [since_published bus kept,last,List.take_length]

theorem feed_follows (follows : Follows s) (steady : Steady s (.feed index)) : Follows (perform stream s (.feed index)) := by
  obtain ⟨bus,ui,answers,tracks,settled,passed,reach⟩ := follows
  cases found : s.answers[index]? with
  | none =>
    simp only [perform,found]
    exact ⟨bus,ui,answers,tracks,settled,passed,reach⟩
  | some answer =>
    have low : s.ui.needsReplay = false := steady answer found
    obtain ⟨inside,behind,past,events⟩ := answers answer (List.mem_of_getElem? found)
    have known := (answers answer (List.mem_of_getElem? found)).known
    have follow : ∀ i env, answer.events[i]? = some env → env.seq = behind+i+1 := by
      intro i env at'
      rw [events,List.getElem?_drop,List.getElem?_take] at at'
      split at at'
      · exact bus.numbered _ env at'
      · cases at'
    rw [ui] at low past
    obtain ⟨next,still,far⟩ := Tracks.feed bus.numbered answer.events known follow tracks low past
    have same : replayEvents answer.events s.ui = replayEvents (s.fed ++ answer.events) createInitialState := by
      rw [replayEvents_append,← ui]
    have grows := (replayEvents_grows answer.events s.ui).1
    have length : behind+answer.events.length = max behind answer.lastSeq := by
      rw [events,List.length_drop,List.length_take]
      omega
    simp only [perform,found]
    refine ⟨bus,same,fun other member => ?_,next,fun _ => ?_,Nat.le_refl _,?_⟩
    · obtain ⟨fits,start',past',cut⟩ := answers other (List.mem_of_mem_eraseIdx member)
      exact ⟨fits,start',Nat.le_trans past' grows,cut⟩
    · rw [← same] at still
      exact still
    · rw [← same] at far
      change max s.answered answer.lastSeq ≤ (replayEvents answer.events s.ui).lastSeq
      omega

theorem perform_follows (follows : Follows s) (kept : Kept s step) (steady : Steady s step) :
    Follows (perform stream s step) := by
  cases step with
  | publish => exact publish_follows follows
  | deliver => exact deliver_follows follows steady
  | ask => exact ask_follows follows kept
  | feed => exact feed_follows follows steady

theorem run_follows (kept : Along Kept stream steps) (steady : Along Steady stream steps) : Follows (run stream steps) := by
  induction steps using List.reverseRecOn with
  | nil => exact start_follows
  | append_singleton steps step ih =>
    have earlier := List.prefix_append steps [step]
    rw [run_snoc]
    exact perform_follows (ih (along_front kept earlier) (along_front steady earlier)) (along_last kept) (along_last steady)

theorem follows_recovered (follows : Follows s) : Recovered s := by
  obtain ⟨bus,ui,_,tracks,settled,passed,reach⟩ := follows
  have within := known_within bus.numbered tracks.known
  have panels : s.ui.lastSeq = s.replayed → s.ui.toPanels = (ideal s.published s.replayed).toPanels := by
    intro same
    have shows := tracks.panels
    rw [← ui] at shows
    rw [shows (settled same),same]
  rw [← ui] at within
  refine ⟨fun same => congrArg shown (panels same),fun all => ?_,?_⟩
  · have last : s.replayed = s.published.length := by omega
    rw [panels (by omega),ideal,last,List.take_length]
  · have flag := needsReplay_iff (known_positive bus.numbered tracks.known) tracks.first
    rw [← ui] at flag
    rw [flag]
    constructor
    · rintro ⟨n,low,below,absent⟩
      have found := List.getElem?_eq_getElem (show n-1 < s.published.length by omega)
      have seq := bus.numbered _ _ found
      have back : n-1+1 = n := Nat.sub_add_cancel low
      rw [back] at seq
      exact ⟨_,List.mem_of_getElem? found,by rw [seq]; exact below,by rw [seq]; exact absent⟩
    · rintro ⟨env,member,below,absent⟩
      exact ⟨env.seq,(numbered_mem bus.numbered member).1,below,absent⟩

-- A hole costs the state an event for good: it counts fewer than its last number.
theorem gapped_count (positive : ∀ env ∈ fed, 1 ≤ env.seq) (raised : (replayEvents fed createInitialState).needsReplay = true) :
    (replayEvents fed createInitialState).appliedEvents < (replayEvents fed createInitialState).lastSeq := by
  obtain ⟨last,count,gaps,_,flag⟩ := replay_counted fed positive
  generalize replayEvents fed createInitialState = s at *
  change s.lastSeq = _ at last
  change s.appliedEvents = _ at count
  have some := flag.mp raised
  rw [gaps,Ne,List.map_eq_nil_iff] at some
  cases fed with
  | nil => exact absurd rfl some
  | cons env rest =>
    have ascends := maxima_ascends ((env::rest).map AnyEvent.seq)
    have first := positive env List.mem_cons_self
    rw [List.map_cons,maxima] at ascends last count some
    generalize (maxima (rest.map AnyEvent.seq)).filter (env.seq < ·) = numbers at *
    have top := List.getLast?_eq_some_getLast (List.cons_ne_nil env.seq numbers)
    rw [top,Option.getD_some] at last
    rw [← last] at top
    have sizes := holes_count ascends top
    have above := ascends_last ascends top List.mem_cons_self
    cases ranges : holes (env.seq::numbers) with
    | nil => exact absurd ranges some
    | cons hole others =>
      have range := (holes_range ascends (ranges ▸ List.mem_cons_self)).2.1
      rw [ranges,List.map_cons,List.sum_cons] at sizes
      omega

-- A stream of one text that grows: its length is the number of the events that were applied.
def chunk : Body := ⟨"t".toList,none,.aiChunk "r".toList "x".toList⟩

def chunked (n : Nat) : Record Utf8.Text AiView :=
  if n = 0 then [] else [("r".toList,⟨"r".toList,List.replicate n 'x',none,false⟩)]

theorem chunk_ai (seq : Nat) (shows : p.ai = chunked n) : (applyPayload (chunkAt seq) p).1.ai = chunked (n+1) := by
  simp only [applyPayload,chunkAt,shows]
  cases n with
  | zero => rfl
  | succ n =>
    have more : List.replicate (n+1) 'x' ++ ['x'] = List.replicate (n+1+1) 'x' := List.replicate_succ'.symm
    rw [chunked,chunked,if_neg (Nat.succ_ne_zero _),if_neg (Nat.succ_ne_zero _),← more]
    rfl

theorem chunks_ai (chunks : ∀ env ∈ fed, env = chunkAt env.seq) :
    (replayEvents fed createInitialState).ai = chunked (replayEvents fed createInitialState).appliedEvents := by
  induction fed using List.reverseRecOn with
  | nil => rfl
  | append_singleton fed env ih =>
    obtain ⟨before,here⟩ := List.forall_mem_append.mp chunks
    have shows := ih before
    have panels := (applyEvent_cases (replayEvents fed createInitialState) env).2
    rw [replayEvents_snoc]
    by_cases old : env.seq ≤ (replayEvents fed createInitialState).lastSeq
    · rw [if_pos old] at panels
      rw [(applyEvent_old old).2,panels,shows]
    · rw [if_neg old,here env List.mem_cons_self] at panels
      rw [(applyEvent_new old).2,← chunk_ai env.seq shows,← panels,← here env List.mem_cons_self]

theorem chunked_injective (same : chunked m = chunked n) : m = n := by
  unfold chunked at same
  split at same <;> split at same
  · omega
  · cases same
  · cases same
  · simp only [List.cons.injEq,Prod.mk.injEq,AiView.mk.injEq,List.replicate_inj] at same
    omega

theorem run_chunks (steps : List Step) : ∀ env ∈ (run (fun _ => chunk) steps).published, env = chunkAt env.seq := by
  induction steps using List.reverseRecOn with
  | nil => exact List.forall_mem_nil _
  | append_singleton steps step ih =>
    rw [run_snoc]
    generalize run (fun _ => chunk) steps = s at *
    cases step with
    | publish => exact List.forall_mem_append.mpr ⟨ih,fun env here => by rw [List.mem_singleton.mp here]; rfl⟩
    | ask => exact ih
    | deliver index =>
      simp only [perform]
      split <;> exact ih
    | feed index =>
      simp only [perform]
      split <;> exact ih

-- In a stream of chunks the text is too short after a replay of a state that has a hole.
theorem feed_lost (follows : Follows s) (chunks : ∀ env ∈ s.published, env = chunkAt env.seq)
    (found : s.answers[index]? = some answer) (raised : s.ui.needsReplay = true) :
    ¬ Recovered (perform stream s (.feed index)) := by
  obtain ⟨bus,ui,answers,tracks,_,_,_⟩ := follows
  have known : ∀ env ∈ s.fed ++ answer.events, env ∈ s.published :=
    List.forall_mem_append.mpr ⟨tracks.known,(answers answer (List.mem_of_getElem? found)).known⟩
  have same : replayEvents answer.events s.ui = replayEvents (s.fed ++ answer.events) createInitialState := by
    rw [replayEvents_append,← ui]
  have still := (replayEvents_grows answer.events s.ui).2 raised
  simp only [perform,found]
  intro recovered
  have panels := recovered.panels rfl
  rw [same] at still panels
  have fewer := gapped_count (known_positive bus.numbered known) still
  have within := known_within bus.numbered known
  have here := chunks_ai fun env member => chunks env (known env member)
  generalize replayEvents (s.fed ++ answer.events) createInitialState = after at *
  have there : (ideal s.published after.lastSeq).ai = chunked (ideal s.published after.lastSeq).appliedEvents :=
    chunks_ai fun env member => chunks env (List.mem_of_mem_take member)
  rw [(ideal_counts bus.numbered within).2] at there
  have texts : after.ai = (ideal s.published after.lastSeq).ai := congrArg (fun shows => shows.2.2.2.1) panels
  rw [here,there] at texts
  have counts := chunked_injective texts
  omega

-- A first delivery of a later event raises no flag.
theorem deliver_lost (follows : Follows s) (found : s.published[index]? = some env) (fresh : s.ui.lastSeq = 0)
    (later : env.seq ≠ 1) : ¬ Recovered (perform stream s (.deliver index)) := by
  obtain ⟨bus,ui,_,tracks,settled,passed,_⟩ := follows
  have seq := bus.numbered index env found
  have none : s.fed = [] := by
    refine List.eq_nil_iff_forall_not_mem.mpr fun other member => ?_
    have positive := known_positive bus.numbered tracks.known
    have below := (replay_last positive member).2
    have above := positive other member
    rw [← ui] at below
    omega
  have first := List.getElem?_eq_getElem (show 0 < s.published.length from Nat.lt_of_le_of_lt (Nat.zero_le _)
    (List.getElem?_eq_some_iff.mp found).1)
  have one := bus.numbered 0 _ first
  simp only [perform,found,none]
  intro recovered
  have raised := recovered.needsReplay.mpr ⟨_,List.mem_of_getElem? first,?_,?_⟩
  · rw [applyEvent_needsReplay,settled (by omega)] at raised
    rcases raised with raised | hole
    · cases raised
    · exact hole.2.1 fresh
  · simp only [applyEvent_lastSeq]
    omega
  · rw [List.nil_append,appliedNumbers_initial [env] (by simp; omega)]
    simp [maxima]
    omega

theorem replay_sequence (events : List AnyEvent) (s : IdeState) :
    (replayEvents events s).sequence = (events.map AnyEvent.seq).foldl Sequence.next s.sequence := by
  induction events generalizing s with
  | nil => rfl
  | cons env rest ih =>
    rw [List.map_cons,List.foldl_cons,← (applyEvent_cases s env).1]
    exact ih (applyEvent s env)

def numbers (answer : OpReplayData) : List Nat × Nat := (answer.events.map AnyEvent.seq,answer.lastSeq)

-- What does not depend on what the events say.
structure Alike (s t : Session) : Prop where
  count : s.bus.seq = t.bus.seq
  ring : s.bus.ring.map AnyEvent.seq = t.bus.ring.map AnyEvent.seq
  ui : s.ui.sequence = t.ui.sequence
  answers : s.answers.map numbers = t.answers.map numbers
  published : s.published.map AnyEvent.seq = t.published.map AnyEvent.seq

-- What two lists have at an index if their images agree.
theorem map_found {f : α → β} {xs ys : List α} {i : Nat} (same : xs.map f = ys.map f) (found : xs[i]? = some x) :
    ∃ y, ys[i]? = some y ∧ f x = f y := by
  have image := congrArg (·[i]?) same
  simp only [List.getElem?_map,found,Option.map_some] at image
  obtain ⟨y,there,equal⟩ := Option.map_eq_some_iff.mp image.symm
  exact ⟨y,there,equal.symm⟩

theorem map_missing {f : α → β} {xs ys : List α} {i : Nat} (same : xs.map f = ys.map f) (missing : xs[i]? = none) : ys[i]? = none := by
  have length := congrArg List.length same
  rw [List.length_map,List.length_map] at length
  rw [List.getElem?_eq_none_iff] at missing ⊢
  omega

theorem push_alike {a b : EventBus} (ring : a.ring.map AnyEvent.seq = b.ring.map AnyEvent.seq) (same : x.seq = y.seq) :
    (a.push x).ring.map AnyEvent.seq = (b.push y).ring.map AnyEvent.seq := by
  have length := congrArg List.length ring
  rw [List.length_map,List.length_map] at length
  rw [EventBus.push,EventBus.push,length]
  simp only [List.map_append,List.map_singleton,same]
  split
  · rw [List.map_drop,List.map_drop,ring]
  · rw [ring]

theorem since_alike {a b : EventBus} (ring : a.ring.map AnyEvent.seq = b.ring.map AnyEvent.seq) (fromSeq : Nat) :
    (a.since fromSeq).map AnyEvent.seq = (b.since fromSeq).map AnyEvent.seq := by
  have cut : ∀ events : List AnyEvent, (events.filter (fromSeq ≤ ·.seq)).map AnyEvent.seq =
      (events.map AnyEvent.seq).filter (fromSeq ≤ ·) := fun events => by rw [List.filter_map]; rfl
  rw [EventBus.since,EventBus.since,cut,cut,ring]

theorem perform_alike (alike : Alike s t) (step : Step) : Alike (perform one s step) (perform two t step) := by
  obtain ⟨count,ring,ui,answers,published⟩ := alike
  cases step with
  | publish =>
    refine ⟨congrArg (· + 1) count,push_alike ring (congrArg (· + 1) count),ui,answers,?_⟩
    simp only [perform,List.map_append,List.map_singleton,published]
    exact congrArg (fun seq => _ ++ [seq+1]) count
  | deliver index =>
    cases found : s.published[index]? with
    | none =>
      simp only [perform,found,map_missing published found]
      exact ⟨count,ring,ui,answers,published⟩
    | some env =>
      obtain ⟨other,there,seq⟩ := map_found published found
      simp only [perform,found,there]
      refine ⟨count,ring,?_,answers,published⟩
      rw [(applyEvent_cases _ _).1,(applyEvent_cases _ _).1,ui,seq]
  | ask =>
    have last : s.ui.lastSeq = t.ui.lastSeq := congrArg Sequence.lastSeq ui
    refine ⟨count,ring,ui,?_,published⟩
    simp only [perform,List.map_append,List.map_singleton,answers,opReplay,last,numbers,EventBus.lastSeq,count]
    rw [since_alike ring]
  | feed index =>
    cases found : s.answers[index]? with
    | none =>
      simp only [perform,found,map_missing answers found]
      exact ⟨count,ring,ui,answers,published⟩
    | some answer =>
      obtain ⟨other,there,same⟩ := map_found answers found
      have events : answer.events.map AnyEvent.seq = other.events.map AnyEvent.seq := congrArg Prod.fst same
      simp only [perform,found,there]
      refine ⟨count,ring,?_,?_,published⟩
      · rw [replay_sequence,replay_sequence,ui,events]
      · rw [← List.eraseIdx_map,← List.eraseIdx_map,answers]

theorem run_alike (one two : Nat → Body) (steps : List Step) : Alike (run one steps) (run two steps) := by
  induction steps using List.reverseRecOn with
  | nil => exact ⟨rfl,rfl,rfl,rfl,rfl⟩
  | append_singleton steps step ih =>
    rw [run_snoc,run_snoc]
    exact perform_alike ih step

theorem run_published (stream : Nat → Body) (steps : List Step) : (run stream steps).published.length ≤ steps.length := by
  induction steps using List.reverseRecOn with
  | nil => exact Nat.le_refl _
  | append_singleton steps step ih =>
    rw [run_snoc,List.length_append,List.length_singleton]
    generalize run stream steps = s at *
    cases step with
    | publish =>
      simp only [perform,List.length_append,List.length_singleton]
      omega
    | ask => exact Nat.le_succ_of_le ih
    | deliver index =>
      simp only [perform]
      split <;> exact Nat.le_succ_of_le ih
    | feed index =>
      simp only [perform]
      split <;> exact Nat.le_succ_of_le ih

theorem kept_of_short (stream : Nat → Body) (short : steps.length ≤ ringCapacity) : Along Kept stream steps := by
  intro before step cut
  have shorter := cut.length_le
  have published := run_published stream before
  rw [List.length_append,List.length_singleton] at shorter
  cases step with
  | ask =>
    change _ ≤ _ + _
    omega
  | _ => trivial

-- A step that is not steady loses events: at once, or in a stream of chunks.
theorem unsteady_lost (kept : ∀ stream, Along Kept stream steps) (steady : ∀ stream, Along Steady stream steps)
    (recovers : ∀ stream, Recovered (run stream (steps ++ [step]))) (stream : Nat → Body) : Steady (run stream steps) step := by
  have follows : ∀ stream, Follows (run stream steps) := fun stream => run_follows (kept stream) (steady stream)
  simp only [run_snoc] at recovers
  cases step with
  | publish => trivial
  | ask => trivial
  | deliver index =>
    intro env found fresh
    by_contra later
    exact deliver_lost (follows stream) found fresh later (recovers stream)
  | feed index =>
    intro answer found
    by_contra raised
    have alike := run_alike stream (fun _ => chunk) steps
    obtain ⟨other,there,_⟩ := map_found alike.answers found
    have flag : (run stream steps).ui.needsReplay = (run (fun _ => chunk) steps).ui.needsReplay :=
      congrArg Sequence.needsReplay alike.ui
    rw [flag,Bool.not_eq_false] at raised
    exact feed_lost (follows _) (run_chunks steps) there raised (recovers _)

theorem replay_recovers_iff (steps : List Step) (kept : ∀ stream, Along Kept stream steps) :
    (∀ stream before, before <+: steps → Recovered (run stream before)) ↔ ∀ stream, Along Steady stream steps := by
  constructor
  · intro recovers
    induction steps using List.reverseRecOn with
    | nil =>
      intro stream before step cut
      simp at cut
    | append_singleton steps step ih =>
      have earlier := List.prefix_append steps [step]
      have steady := ih (fun stream => along_front (kept stream) earlier)
        fun stream before front => recovers stream before (front.trans earlier)
      exact fun stream => along_snoc (steady stream) (unsteady_lost (fun stream => along_front (kept stream) earlier) steady
        (fun stream => recovers stream _ (List.prefix_refl _)) stream)
  · intro steady stream before front
    exact follows_recovered (run_follows (along_front (kept stream) front) (along_front (steady stream) front))

def lossy : List Step := [.publish,.publish,.publish,.deliver 0,.deliver 2,.ask,.feed 0]

theorem replay_recovers_lossy : (∀ stream before, before <+: lossy → Recovered (run stream before)) ↔
    ∀ stream, Along Steady stream lossy :=
  replay_recovers_iff lossy fun stream => kept_of_short stream (by decide)

-- The event 2 is lost and does not come back. And where the first event to come
-- is 2, no flag says that 1 is missing.
theorem replay_recovers_fails :
    Along Kept (fun _ => chunk) lossy ∧ (run (fun _ => chunk) lossy).answered = 3 ∧
    (run (fun _ => chunk) lossy).ui.ai = chunked 2 ∧ (ideal (run (fun _ => chunk) lossy).published 3).ai = chunked 3 ∧
    ¬ Recovered (run (fun _ => chunk) lossy) ∧ ¬ Recovered (run (fun _ => chunk) [.publish,.publish,.deliver 1]) := by
  refine ⟨kept_of_short _ (by decide),by decide,by decide,by decide,fun recovered => ?_,fun recovered => ?_⟩
  · have texts := congrArg (fun shows => shows.2.2.2.1) (recovered.whole (by decide))
    exact absurd texts (by decide)
  · exact absurd (recovered.needsReplay.mpr ⟨chunkAt 1,by decide,by decide,by decide⟩) (by decide)

end PrincessIDE.Replay
