import PrincessIDE.Desktop.EventStore

namespace PrincessIDE.Bus
open EventStore
open Utf8 (Text)

def eventModelVersion : Number := 1

-- How many recent envelopes stay replayable.
def ringCapacity : Nat := 5000

structure EventBus where
  seq : Nat
  ring : List AnyEvent
deriving DecidableEq, Repr

def EventBus.new : EventBus := ⟨0,[]⟩

def EventBus.lastSeq (bus : EventBus) : Nat := bus.seq

-- What a caller publishes, and the time at which it does.
structure Body where
  ts : Text
  opId : Option Text
  payload : Payload
deriving DecidableEq, Repr

-- `envelope` has two atomic parts: `fetch_add` on the counter, and the push
-- under the lock of the ring.
def EventBus.takeNumber (bus : EventBus) : EventBus × Nat := ({bus with seq:=bus.seq+1},bus.seq+1)

def EventBus.push (bus : EventBus) (env : AnyEvent) : EventBus :=
  let room := if bus.ring.length = ringCapacity then bus.ring.drop 1 else bus.ring
  {bus with ring:=room ++ [env]}

def EventBus.envelope (bus : EventBus) (body : Body) : EventBus × AnyEvent :=
  let (taken,seq) := bus.takeNumber
  let env : AnyEvent := ⟨eventModelVersion,seq,body.ts,body.opId,body.payload⟩
  (taken.push env,env)

def EventBus.since (bus : EventBus) (fromSeq : Nat) : List AnyEvent := bus.ring.filter (fromSeq ≤ ·.seq)

structure OpReplayData where
  events : List AnyEvent
  fromSeq : Nat
  lastSeq : Nat
deriving DecidableEq, Repr

def opReplay (bus : EventBus) (fromSeq : Nat) : OpReplayData := ⟨bus.since fromSeq,fromSeq,bus.lastSeq⟩

-- The events have the numbers 1, 2, 3 in their order.
def Numbered (events : List AnyEvent) : Prop := ∀ (i : Nat) (env : AnyEvent), events[i]? = some env → env.seq = i+1

theorem numbered_snoc (numbered : Numbered events) (next : env.seq = events.length+1) : Numbered (events ++ [env]) := by
  intro i other found
  by_cases inside : i < events.length
  · rw [List.getElem?_append_left inside] at found
    exact numbered i other found
  · rw [List.getElem?_append_right (Nat.not_lt.mp inside)] at found
    obtain ⟨here,rfl⟩ := List.getElem?_eq_some_iff.mp found
    rw [List.length_singleton] at here
    simp only [List.getElem_singleton]
    omega

theorem numbered_mem (numbered : Numbered events) (member : env ∈ events) : 1 ≤ env.seq ∧ env.seq ≤ events.length := by
  obtain ⟨i,found⟩ := List.mem_iff_getElem?.mp member
  have seq := numbered i env found
  have inside := (List.getElem?_eq_some_iff.mp found).1
  omega

-- A filter by numbers is a cut in the list.
theorem numbered_filter (numbered : Numbered events) (kept : start ≤ fromSeq) :
    (events.drop start).filter (fromSeq+1 ≤ ·.seq) = events.drop fromSeq := by
  have split : events.drop start = (events.drop start).take (fromSeq-start) ++ events.drop fromSeq := by
    conv_lhs => rw [← List.take_append_drop (fromSeq-start) (events.drop start),List.drop_drop,Nat.add_sub_cancel' kept]
  rw [split,List.filter_append]
  have early : ((events.drop start).take (fromSeq-start)).filter (fromSeq+1 ≤ ·.seq) = [] := by
    refine List.filter_eq_nil_iff.mpr fun env member => ?_
    obtain ⟨i,found⟩ := List.mem_iff_getElem?.mp member
    rw [List.getElem?_take] at found
    split at found
    · rw [List.getElem?_drop] at found
      have seq := numbered _ env found
      simp only [decide_eq_true_eq]
      omega
    · cases found
  have late : (events.drop fromSeq).filter (fromSeq+1 ≤ ·.seq) = events.drop fromSeq := by
    refine List.filter_eq_self.mpr fun env member => ?_
    obtain ⟨i,found⟩ := List.mem_iff_getElem?.mp member
    rw [List.getElem?_drop] at found
    have seq := numbered _ env found
    simp only [decide_eq_true_eq]
    omega
  rw [early,late,List.nil_append]

-- The bus after the events that were published on it one after the other.
structure Holds (bus : EventBus) (published : List AnyEvent) : Prop where
  numbered : Numbered published
  count : bus.seq = published.length
  ring : bus.ring = published.drop (published.length-ringCapacity)

theorem new_holds : Holds .new [] := ⟨fun _ _ found => by simp at found,rfl,rfl⟩

theorem push_ring {bus : EventBus} (latest : bus.ring = pushed.drop (pushed.length-ringCapacity)) (env : AnyEvent) :
    (bus.push env).ring = (pushed ++ [env]).drop ((pushed ++ [env]).length-ringCapacity) := by
  have length : bus.ring.length = pushed.length-(pushed.length-ringCapacity) := by rw [latest,List.length_drop]
  have positive : 0 < ringCapacity := by decide
  rw [List.length_append,List.length_singleton,EventBus.push]
  by_cases full : bus.ring.length = ringCapacity
  · have next : pushed.length-ringCapacity+1 = pushed.length+1-ringCapacity := by omega
    rw [if_pos full,List.drop_append_of_le_length (by omega),latest,List.drop_drop,next]
  · have low : pushed.length+1-ringCapacity = 0 := by omega
    have empty : pushed.length-ringCapacity = 0 := by omega
    rw [if_neg full,latest,low,empty]
    rfl

theorem envelope_holds (holds : Holds bus published) (body : Body) :
    Holds (bus.envelope body).1 (published ++ [(bus.envelope body).2]) := by
  have next : bus.seq+1 = published.length+1 := congrArg (· + 1) holds.count
  have taken : bus.takeNumber.1.ring = published.drop (published.length-ringCapacity) := holds.ring
  refine ⟨numbered_snoc holds.numbered next,?_,push_ring taken _⟩
  rw [List.length_append]
  exact next

-- What the ring still has of the events behind a number.
theorem since_published (holds : Holds bus published) (kept : published.length ≤ fromSeq+ringCapacity) :
    bus.since (fromSeq+1) = published.drop fromSeq := by
  rw [EventBus.since,holds.ring]
  exact numbered_filter holds.numbered (by omega)

end PrincessIDE.Bus
