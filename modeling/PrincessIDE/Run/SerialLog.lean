import PrincessIDE.Foundation.Channel
import PrincessIDE.Run.Process

namespace PrincessIDE.Process
open Utf8 Reader Error Loop Channel

def Received.answer : Received → Answer StreamChunk
  | .chunk c => .item c
  | .timeout => .timeout
  | .disconnected => .closed

-- The readers of both pipes send on one channel, and the loop receives from it.
def Piped (pipes : Pipe → List Wake) (ticks : List Tick) : Prop :=
  Answers StreamChunk.pipe (fun pipe => spawnReader pipe (pipes pipe)) (ticks.map fun t => t.received.answer)

def heardOf (pipe : Pipe) (ticks : List Tick) : List StreamChunk := heard StreamChunk.pipe pipe (ticks.map fun t => t.received.answer)

-- The tee file and the count of final chunks, behind one more answer.
structure Log where
  file : Text
  ended : Nat

def Log.hear (log : Log) (t : Tick) : Log := match t.received with
  | .chunk c => ⟨log.file ++ (if c.pipe = .serial then c.text else []),log.ended + (if c.atEof then 1 else 0)⟩
  | _ => log

def Logs (s : Watch) (log : Log) : Prop := s.tee = some log.file ∧ s.eofSeen = log.ended

-- A turn that goes on, or that leaves the loop without a failure.
def Stays (out : Turn Watch Left) (s : Watch) : Prop := out = .next s ∨ out = .leave .broke s

theorem deliver_logs (logs : Logs s log) (ok : (deliver s c t).1 = .ok ()) :
    Logs (deliver s c t).2 ⟨log.file ++ (if c.pipe = .serial then c.text else []),log.ended + (if c.atEof then 1 else 0)⟩ := by
  obtain ⟨tee,ended⟩ := logs
  have seen : (seeEof s c t).tee = some log.file ∧ (seeEof s c t).eofSeen = log.ended + (if c.atEof then 1 else 0) := by
    unfold seeEof
    split
    · exact ⟨tee,by rw [ended]⟩
    · exact ⟨tee,ended⟩
  unfold deliver at ok ⊢
  dsimp only at ok ⊢
  by_cases empty : c.text = []
  · rw [if_pos empty]
    refine ⟨?_,seen.2⟩
    rw [seen.1,empty]
    simp
  · rw [if_neg empty] at ok ⊢
    rw [seen.1] at ok ⊢
    cases pipe : c.pipe with
    | emulator =>
      exact ⟨by simp,seen.2⟩
    | serial =>
      rw [pipe] at ok
      cases written : t.written with
      | error err => rw [written] at ok; cases ok
      | ok _ => exact ⟨rfl,seen.2⟩

theorem settle_stays (stays : Stays (settle p s t) u) : u = s := by
  unfold settle at stays
  split at stays
  · rcases stays with on | left
    · cases on
    · cases left
      rfl
  · rcases stays with on | left
    · cases on
      rfl
    · cases left

theorem receive_logs (logs : Logs s log) (stays : Stays (receive p s t) u) : Logs u (log.hear t) := by
  unfold receive at stays
  unfold Log.hear
  cases received : t.received with
  | disconnected =>
    rw [received] at stays
    rcases stays with on | left
    · cases on
    · cases left
      exact logs
  | timeout =>
    rw [received] at stays
    rw [settle_stays stays]
    exact logs
  | chunk c =>
    rw [received] at stays
    dsimp only at stays
    split at stays
    · rcases stays with on | left
      · cases on
      · cases left
    · next delivered =>
      have kept := deliver_logs (t:=t) logs (congrArg Prod.fst delivered)
      rw [delivered] at kept
      rw [settle_stays stays]
      exact kept

theorem turn_logs (logs : Logs s log) (stays : Stays (turn p s t) u) : Logs u (log.hear t) := by
  have reaped : Logs (reap p s t).2 log := by
    refine ⟨(reap_tee p s t).trans logs.1,?_⟩
    rw [← logs.2]
    unfold reap
    repeat' split
    all_goals rfl
  unfold turn at stays
  split at stays
  · rcases stays with on | left
    · cases on
    · cases left
  · next next done =>
    rw [done] at reaped
    refine receive_logs (s:=enforce p next t) ⟨(enforce_tee p next t).trans reaped.1,?_⟩ stays
    rw [← reaped.2]
    unfold enforce killExpired killCancelled
    repeat' split
    all_goals rfl

theorem goesOn_logs (log : Log) (logs : Logs s log) (on : goesOn (turn p) s seen = some m) : Logs m (seen.foldl Log.hear log) := by
  induction seen generalizing s log with
  | nil => cases on; exact logs
  | cons t seen ih =>
    simp only [goesOn] at on
    cases here : turn p s t with
    | next u => rw [here] at on; exact ih _ (turn_logs logs (.inl here)) on
    | leave r u => rw [here] at on; cases on

-- The loop is left at the end of the channel or behind the final chunks of both pipes.
theorem turn_broke (broke : turn p s t = .leave .broke u) : t.received = .disconnected ∨ readers ≤ u.eofSeen := by
  have settled : ∀ {s}, settle p s t = .leave .broke u → readers ≤ u.eofSeen := by
    intro s broke
    unfold settle at broke
    split at broke
    · next closed => cases broke; exact closed.1
    · cases broke
  unfold turn at broke
  split at broke
  · cases broke
  · unfold receive at broke
    split at broke
    · next received => exact .inl received
    · exact .inr (settled broke)
    · split at broke
      · cases broke
      · exact .inr (settled broke)

-- What the file and the count come to: what was heard of both pipes.
theorem hear_all (ticks : List Tick) (log : Log) : ticks.foldl Log.hear log =
    ⟨log.file ++ (heardOf .serial ticks).flatMap StreamChunk.text,
      log.ended + (heardOf .serial ticks).countP StreamChunk.atEof + (heardOf .emulator ticks).countP StreamChunk.atEof⟩ := by
  induction ticks generalizing log with
  | nil => simp [heardOf,heard]
  | cons t ticks ih =>
    rw [List.foldl_cons,ih]
    unfold Log.hear heardOf
    rw [List.map_cons]
    cases t.received with
    | chunk c =>
      rw [show Received.answer (.chunk c) = .item c from rfl,heard_item,heard_item]
      obtain ⟨pipe,text,encoding,last⟩ := c
      cases pipe with
      | serial =>
        refine congrArg₂ Log.mk (by simp) ?_
        simp [List.countP_cons]
        omega
      | emulator =>
        refine congrArg₂ Log.mk (by simp) ?_
        simp [List.countP_cons]
        omega
    | timeout => rfl
    | disconnected => rfl

-- The final chunk of a pipe is its last one.
theorem spawnReader_ended {front back : List StreamChunk} (split : spawnReader pipe schedule = front ++ back) :
    front.countP StreamChunk.atEof = 0 ∨ (front.countP StreamChunk.atEof = 1 ∧ back = []) := by
  obtain ⟨running,last,whole,going,few⟩ : ∃ running last, spawnReader pipe schedule = running ++ last ∧
      (∀ c ∈ running, c.atEof = false) ∧ last.length ≤ 1 := by
    refine ⟨_,_,rfl,?_,?_⟩
    · intro c member
      obtain ⟨chunk,_,rfl⟩ := List.mem_map.mp member
      rfl
    · split <;> simp
  have still : ∀ part : List StreamChunk, (∀ c ∈ part, c.atEof = false) → part.countP StreamChunk.atEof = 0 := by
    intro part going
    rw [List.countP_eq_zero]
    intro c member
    simp [going c member]
  rcases List.append_eq_append_iff.mp (split.symm.trans whole) with ⟨more,rest,_⟩ | ⟨more,rest,tail⟩
  · refine .inl (still front fun c member => going c ?_)
    rw [rest]
    exact List.mem_append_left _ member
  · have count : front.countP StreamChunk.atEof = more.countP StreamChunk.atEof := by
      rw [rest,List.countP_append,still running going,Nat.zero_add]
    have short := List.countP_le_length (p:=StreamChunk.atEof) (l:=more)
    rw [tail,List.length_append] at few
    by_cases none : more.countP StreamChunk.atEof = 0
    · exact .inl (count.trans none)
    · exact .inr ⟨by omega,List.eq_nil_of_length_eq_zero (by omega)⟩

-- Where the loop is left without a failure, the whole serial pipe has been heard.
theorem broke_heard (piped : Piped pipes (front ++ t :: back)) (broke : turn p m t = .leave .broke s)
    (logs : Logs s ((front++[t]).foldl Log.hear ⟨[],0⟩)) : heardOf .serial (front++[t]) = spawnReader .serial (pipes .serial) := by
  rw [Piped,List.map_append,List.map_cons] at piped
  rcases turn_broke broke with closed | ended
  · have last : t.received.answer = .closed := by rw [closed]; rfl
    rw [last] at piped
    rw [← piped.heard_all .serial,heardOf,List.map_append,heard,List.filterMap_append,List.map_singleton,last]
    exact List.append_nil _
  · rw [logs.2,hear_all,heardOf,heardOf,List.map_append] at ended
    rw [← List.singleton_append,← List.append_assoc] at piped
    obtain ⟨left,all,_⟩ := piped.split
    have serial := all .serial
    have one := spawnReader_ended serial
    have two := spawnReader_ended (all .emulator)
    change readers ≤ 0 + _ + _ at ended
    unfold readers at ended
    have done : left .serial = [] := by
      rw [List.map_singleton] at ended
      rcases one with none | ⟨_,done⟩
      · omega
      · exact done
    rw [done,List.append_nil] at serial
    rw [serial,heardOf,List.map_append]
    rfl

theorem finish_tee (child : Child) (s : Watch) (w : World) : (finish child s w).2.tee = s.tee := by
  cases status : s.status <;> cases waited : w.waited <;> simp [finish,status,waited]

-- The file of a run that returns an outcome.
theorem run_file (piped : Piped pipes w.ticks) (configured : spec.serialTee = some path)
    (returned : run cfg spec w = (some (.ok outcome),s)) : s.tee = some (lossy (Reader.read (pipes .serial))) := by
  unfold run at returned
  split at returned
  · cases returned
  split at returned
  · cases returned
  · next child spawned =>
    unfold supervise at returned
    rw [teeOf,configured,Option.map_some] at returned
    split at returned
    · cases returned
    · split at returned
      · cases returned
      · cases returned
      · next out rest left =>
        obtain ⟨front,t,m,ticks,on,broke⟩ := loop_left left
        have logs := turn_logs (goesOn_logs ⟨[],0⟩ ⟨rfl,rfl⟩ on) (.inr broke)
        have concat : (front.foldl Log.hear ⟨[],0⟩).hear t = (front++[t]).foldl Log.hear ⟨[],0⟩ := by rw [List.foldl_append]; rfl
        rw [concat] at logs
        rw [ticks] at piped
        have whole := broke_heard piped broke logs
        have file := logs.1
        rw [hear_all,whole,spawnReader_text] at file
        have ended : (finish child out w).2 = s := (Prod.mk.inj returned).2
        rw [← ended,finish_tee]
        exact file

-- The log holds what was captured, byte for byte, exactly when the guest wrote UTF-8:
-- any other byte is replaced in the text that the file is written from.
theorem tee_exact_iff (piped : Piped pipes w.ticks) (configured : spec.serialTee = some path)
    (returned : run cfg spec w = (some (.ok outcome),s)) :
    s.tee.map encode = some (Reader.read (pipes .serial)) ↔ ∃ t, encode t = Reader.read (pipes .serial) := by
  rw [run_file piped configured returned,Option.map_some,Option.some_inj]
  constructor
  · exact fun same => ⟨_,same⟩
  · rintro ⟨t,same⟩
    rw [← same,lossy_encode]

-- A guest that prints these bytes at once and stops.
def capture (bytes : Bytes) : Pipe → List Wake
  | .serial => [.bytes bytes]
  | .emulator => []

def hearing (c : StreamChunk) : World := quietWorld [{quietTick with received:=.chunk c},{quietTick with received:=.disconnected}]

theorem hearing_piped (sent : spawnReader .serial [.bytes bytes] = [c]) : Piped (capture bytes) (hearing c).ticks := by
  have serial : c.pipe = .serial := spawnReader_pipe (by rw [sent]; exact List.mem_singleton_self c)
  refine .item c [] ?_ (.closed ?_ .none)
  · rw [serial]
    exact sent
  · intro pipe
    rw [serial]
    cases pipe with
    | serial => exact Function.update_self _ _ _
    | emulator => rfl

def bootChunk : StreamChunk := ⟨.serial,"boot\n".toList,.utf8,false⟩

theorem tee_exact_boot : (run runnerConfig (qemuSpec none (some [])) (hearing bootChunk)).2.tee.map encode =
    some (Reader.read (capture (encode "boot\n".toList) .serial)) := by
  have sent : spawnReader .serial [.bytes (encode "boot\n".toList)] = [bootChunk] := by
    rw [spawnReader,wakes_ops]
    decide
  exact (tee_exact_iff (hearing_piped sent) rfl (Prod.ext (by rfl) rfl)).mpr ⟨"boot\n".toList,by decide⟩

def strayChunk : StreamChunk := ⟨.serial,[replacement,'\n'],.utf8Lossy,false⟩

theorem stray_byte_replaced : ¬ ∀ pipes cfg spec w path outcome s, Piped pipes w.ticks → spec.serialTee = some path →
    run cfg spec w = (some (.ok outcome),s) → s.tee.map encode = some (Reader.read (pipes .serial)) := by
  intro claim
  have sent : spawnReader .serial [.bytes [0xff,10]] = [strayChunk] := by
    rw [spawnReader,wakes_ops]
    decide
  have same := claim (capture [0xff,10]) runnerConfig (qemuSpec none (some [])) (hearing strayChunk) [] _ _ (hearing_piped sent) rfl
    (Prod.ext (by rfl) rfl)
  revert same
  decide

end PrincessIDE.Process
