import Mathlib.Data.List.Nodup
import Mathlib.Data.List.Perm.Basic
import PrincessIDE.Desktop.EventBus
import PrincessIDE.Foundation.Runs

namespace PrincessIDE.Publishing
open EventStore Bus Runs

-- The bus between the atomic steps of its callers: the envelopes that have
-- their number and are not in the ring yet. The history is all that was put
-- into the ring, in that order.
structure Shared where
  bus : EventBus
  pending : List AnyEvent
  appended : List AnyEvent
deriving DecidableEq, Repr

-- `envelope` and `envelope_from_body` are the same two steps. `since` reads the
-- ring under its lock and changes nothing.
inductive Step where
  | takeNumber (body : Body)
  | append (index : Nat)
deriving DecidableEq, Repr

def start : Shared := ⟨.new,[],[]⟩

def perform (s : Shared) : Step → Shared
  | .takeNumber body =>
    let (bus,seq) := s.bus.takeNumber
    {s with bus:=bus,pending:=s.pending ++ [⟨eventModelVersion,seq,body.ts,body.opId,body.payload⟩]}
  | .append index => match s.pending[index]? with
    | some env => ⟨s.bus.push env,s.pending.eraseIdx index,s.appended ++ [env]⟩
    | none => s

-- The push of a number comes after those of smaller ones only.
def InOrder (s : Shared) : Step → Prop
  | .takeNumber _ => True
  | .append index => ∀ env ∈ s.pending[index]?, ∀ other ∈ s.appended, other.seq < env.seq

-- What `since` answers, and what the ring retains.
structure Ordered (s : Shared) : Prop where
  ascending : ∀ n, ((s.bus.since n).map AnyEvent.seq).Pairwise (· < ·)
  once : ∀ n, ∀ env ∈ s.bus.ring, n ≤ env.seq → (s.bus.since n).count env = 1
  only : ∀ n, ∀ env ∈ s.bus.since n, env ∈ s.bus.ring ∧ n ≤ env.seq
  bounded : s.bus.ring.length ≤ ringCapacity
  retained : s.bus.ring.length = min s.appended.length ringCapacity ∧ ∀ env ∈ s.bus.ring, env ∈ s.appended
  highest : ∀ env ∈ s.bus.ring, ∀ other ∈ s.appended, other ∉ s.bus.ring → other.seq < env.seq

-- A call that no other one interrupts is the `envelope` of the bus.
theorem envelope_alone (s : Shared) (body : Body) (idle : s.pending = []) :
    perform (perform s (.takeNumber body)) (.append 0) =
      ⟨(s.bus.envelope body).1,[],s.appended ++ [(s.bus.envelope body).2]⟩ := by
  simp only [perform,idle]
  rfl

-- The numbers are those issued, each once; `ascends` is the order of the pushes.
structure Told (s : Shared) : Prop where
  numbers : ((s.appended ++ s.pending).map AnyEvent.seq).Nodup
  issued : ∀ env ∈ s.appended ++ s.pending, env.seq ≤ s.bus.seq
  latest : s.bus.ring = s.appended.drop (s.appended.length-ringCapacity)
  ascends : (s.appended.map AnyEvent.seq).Pairwise (· < ·)

theorem start_told : Told start := ⟨.nil,List.forall_mem_nil _,rfl,.nil⟩

theorem take_told (told : Told s) (body : Body) : Told (perform s (.takeNumber body)) := by
  obtain ⟨numbers,issued,latest,ascends⟩ := told
  refine ⟨?_,?_,latest,ascends⟩
  · simp only [perform,EventBus.takeNumber]
    rw [← List.append_assoc,List.map_append]
    refine List.nodup_append.mpr ⟨numbers,List.nodup_singleton _,?_⟩
    intro seq before new here
    obtain ⟨env,member,rfl⟩ := List.mem_map.mp before
    have bound := issued env member
    rw [List.mem_singleton.mp here]
    simp only
    omega
  · simp only [perform,EventBus.takeNumber]
    rw [← List.append_assoc]
    refine List.forall_mem_append.mpr ⟨fun env member => Nat.le_succ_of_le (issued env member),fun env here => ?_⟩
    rw [List.mem_singleton.mp here]

-- The envelope goes from those that wait to those in the ring.
theorem append_moves {pending : List AnyEvent} (found : pending[index]? = some env) (appended : List AnyEvent) :
    (appended ++ [env] ++ pending.eraseIdx index).Perm (appended ++ pending) := by
  obtain ⟨inside,rfl⟩ := List.getElem?_eq_some_iff.mp found
  rw [List.append_assoc]
  exact (List.getElem_cons_eraseIdx_perm inside).append_left appended

theorem append_told (told : Told s) (inOrder : InOrder s (.append index)) : Told (perform s (.append index)) := by
  obtain ⟨numbers,issued,latest,ascends⟩ := told
  cases found : s.pending[index]? with
  | none =>
    simp only [perform,found]
    exact ⟨numbers,issued,latest,ascends⟩
  | some env =>
    have moves := append_moves found s.appended
    simp only [perform,found]
    refine ⟨(moves.map AnyEvent.seq).nodup_iff.mpr numbers,fun other member => issued other (moves.mem_iff.mp member),
      push_ring latest env,?_⟩
    rw [List.map_append]
    refine List.pairwise_append.mpr ⟨ascends,List.pairwise_singleton _ _,?_⟩
    intro seq before new here
    obtain ⟨other,member,rfl⟩ := List.mem_map.mp before
    rw [List.mem_singleton.mp here]
    exact inOrder env found other member

theorem told_ordered (told : Told s) : Ordered s := by
  obtain ⟨_,_,latest,ascends⟩ := told
  have split : s.appended = s.appended.take (s.appended.length-ringCapacity) ++ s.bus.ring := by
    rw [latest,List.take_append_drop]
  have length : s.bus.ring.length = s.appended.length-(s.appended.length-ringCapacity) := by rw [latest,List.length_drop]
  have sorted := ascends
  rw [split,List.map_append] at sorted
  obtain ⟨_,inside,above⟩ := List.pairwise_append.mp sorted
  have answered : ∀ n, ((s.bus.since n).map AnyEvent.seq).Pairwise (· < ·) :=
    fun n => inside.sublist (List.filter_sublist.map AnyEvent.seq)
  refine ⟨answered,fun n env member high => ?_,fun n env member => ?_,by omega,⟨by omega,fun env member => ?_⟩,?_⟩
  · have nodup : (s.bus.since n).Nodup := .of_map AnyEvent.seq ((answered n).imp fun less => Nat.ne_of_lt less)
    exact List.count_eq_one_of_mem nodup (List.mem_filter.mpr ⟨member,by simpa using high⟩)
  · obtain ⟨inside,high⟩ := List.mem_filter.mp member
    exact ⟨inside,by simpa using high⟩
  · rw [split]
    exact List.mem_append_right _ member
  · intro env member other among absent
    rw [split] at among
    rcases List.mem_append.mp among with old | kept
    · exact above _ (List.mem_map_of_mem old) _ (List.mem_map_of_mem member)
    · exact absurd kept absent

-- The greatest number so far is still in the ring, and a smaller one comes behind it.
theorem append_disorders (told : Told s) (late : ¬ InOrder s (.append index)) : ¬ Ordered (perform s (.append index)) := by
  obtain ⟨_,_,latest,ascends⟩ := told
  simp only [InOrder] at late
  push Not at late
  obtain ⟨env,found,other,member,above⟩ := late
  change s.pending[index]? = some env at found
  have whole := (List.dropLast_concat_getLast (List.ne_nil_of_mem member)).symm
  generalize s.appended.dropLast = front,s.appended.getLast _ = top at whole
  have most : other.seq ≤ top.seq := by
    rw [whole,List.map_append] at ascends
    rw [whole] at member
    rcases List.mem_append.mp member with early | last
    · exact Nat.le_of_lt ((List.pairwise_append.mp ascends).2.2 _ (List.mem_map_of_mem early) _ List.mem_cons_self)
    · rw [List.mem_singleton.mp last]
  have room : 2 ≤ ringCapacity := by decide
  have ring := push_ring latest env
  rw [whole,List.append_assoc,List.drop_append_of_le_length (by simp only [List.length_append,List.length_cons,List.length_nil]; omega)] at ring
  intro ordered
  have sorted := ordered.ascending 0
  simp only [perform,found] at sorted
  have answered : (s.bus.push env).since 0 = (s.bus.push env).ring := List.filter_eq_self.mpr fun _ _ => decide_eq_true (Nat.zero_le _)
  rw [answered,ring,List.map_append] at sorted
  have less := List.rel_of_pairwise_cons (List.pairwise_append.mp sorted).2.1 (List.mem_singleton.mpr rfl)
  omega

theorem published_in_order_iff (steps : List Step) :
    Always perform start Ordered steps ↔ Along perform start InOrder steps := by
  refine always_iff Told Ordered InOrder start_told (fun s => told_ordered) (fun s step told inOrder => ?_) (fun s step told late => ?_) steps
  · cases step with
    | takeNumber body => exact take_told told body
    | append index => exact append_told told inOrder
  · cases step with
    | takeNumber body => exact absurd trivial late
    | append index => exact append_disorders told late

-- Two producers that append in the opposite order of their numbers.
def crossed : List Step :=
  [.takeNumber ⟨"t".toList,none,.unhandled "a".toList⟩,.takeNumber ⟨"t".toList,none,.unhandled "b".toList⟩,.append 1,.append 0]

theorem published_in_order_crossed :
    ((run perform start crossed).bus.since 1).map AnyEvent.seq = [2,1] ∧ ¬ Always perform start Ordered crossed := by
  refine ⟨by decide,fun always => ?_⟩
  have sorted := (always_last always).ascending 1
  exact absurd sorted (by decide)

end PrincessIDE.Publishing
