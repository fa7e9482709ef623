import PrincessIDE.Run.FaultError
import Mathlib.Data.List.Induction

namespace PrincessIDE.Serial
open Utf8 Str
open RunBackend (found seenFaults)

-- The vector that an EXCEPTION line prints.
def lineVector (line : Text) : Option (Nat × Text) := (splitOnce exceptionPrefix line).bind fun found => parseVector found.2

def lineRaw (line : Text) : Option RawFault := (splitOnce faultPrefix line).bind fun found => parseFault found.2

def vectorOf (f : RawFault) : Option (Nat × Text) := f.vectorNumber.map (·,f.vector)

-- For each reported fault the lines behind the one before it, with its own line.
def windows (front : List Text) : List Text → List (List Text)
  | [] => []
  | line :: later => if (lineRaw line).isSome then (front++[line]) :: windows [] later else windows (front++[line]) later

def Prints (window : List Text) : Prop := ∃ line ∈ window, (lineVector line).isSome

-- The reported vector, if any, was printed among these lines.
def Own (window : List Text) (f : RawFault) : Prop := ∀ vector, vectorOf f = some vector → ∃ line ∈ window, lineVector line = some vector

-- The last vector printed, or the one known before.
def lastPrinted (last : Option (Nat × Text)) (window : List Text) : Option (Nat × Text) :=
  window.foldl (fun last line => (lineVector line).or last) last

def attributed (last : Option (Nat × Text)) : List (List Text) → List (Option (Nat × Text))
  | [] => []
  | window :: later => lastPrinted last window :: attributed (lastPrinted last window) later

theorem lastPrinted_snoc (last : Option (Nat × Text)) (window : List Text) (line : Text) :
    lastPrinted last (window++[line]) = (lineVector line).or (lastPrinted last window) := by
  rw [lastPrinted,List.foldl_append]
  rfl

theorem lastPrinted_cases (last : Option (Nat × Text)) (window : List Text) :
    (¬ Prints window ∧ lastPrinted last window = last) ∨
    (Prints window ∧ ∃ vector, lastPrinted last window = some vector ∧ ∃ line ∈ window, lineVector line = some vector) := by
  induction window using List.reverseRecOn with
  | nil => exact .inl ⟨fun ⟨_,inside,_⟩ => absurd inside List.not_mem_nil,rfl⟩
  | append_singleton window line ih =>
    have member : line ∈ window++[line] := by simp
    rw [lastPrinted_snoc]
    cases here : lineVector line with
    | some vector => exact .inr ⟨⟨line,member,by rw [here]; rfl⟩,vector,rfl,line,member,here⟩
    | none =>
      rcases ih with ⟨silent,same⟩ | ⟨⟨other,inside,prints⟩,vector,same,front,inside',printed⟩
      · refine .inl ⟨?_,same⟩
        rintro ⟨other,inside,prints⟩
        rcases List.mem_append.mp inside with before | own
        · exact silent ⟨other,before,prints⟩
        · rw [List.mem_singleton.mp own,here] at prints
          cases prints
      · exact .inr ⟨⟨other,List.mem_append_left _ inside,prints⟩,vector,same,front,List.mem_append_left _ inside',printed⟩

theorem parseFault_bare (parsed : parseFault rest = some f) : f.vectorNumber = none ∧ f.vector = [] := by
  have kept : ∀ (fields : List Text) (f : RawFault),
      (fields.foldl readField f).vectorNumber = f.vectorNumber ∧ (fields.foldl readField f).vector = f.vector := by
    intro fields
    induction fields with
    | nil => intro f; exact ⟨rfl,rfl⟩
    | cons field fields ih =>
      intro f
      have one : (readField f field).vectorNumber = f.vectorNumber ∧ (readField f field).vector = f.vector := by
        unfold readField
        repeat' split
        all_goals exact ⟨rfl,rfl⟩
      exact ⟨(ih _).1.trans one.1,(ih _).2.trans one.2⟩
  unfold parseFault at parsed
  split at parsed
  · cases parsed
  · split at parsed
    · cases parsed
    · cases parsed
      exact kept _ _

-- Behind the line's own EXCEPTION nothing touches the last vector.
theorem feed_behind (o : SerialObserver) (line : Text) : (feedPanic (feedFault o line).2 line).2.lastVector = o.lastVector := by
  obtain ⟨_,panicked⟩ := (feedPanic_only (feedFault o line).2 line).1
  obtain ⟨_,_,_,fault⟩ := feedFault_only o line
  rw [panicked,fault]

theorem feed_lastVector (o : SerialObserver) (line : Text) : (feed o line).2.lastVector = (lineVector line).or o.lastVector := by
  have banner : ∀ o, (feedBanner o line).2.lastVector = o.lastVector := by
    intro o
    obtain ⟨_,changed⟩ := (feedBanner_only o line).1
    rw [changed]
  have paging : ∀ o, (feedPaging o line).2.lastVector = o.lastVector := by
    intro o
    obtain ⟨_,changed⟩ := (feedPaging_only o line).1
    rw [changed]
  have vector : ∀ o, (feedVector o line).lastVector = (lineVector line).or o.lastVector := by
    intro o
    unfold feedVector lineVector
    split
    · next v found => rw [found]; rfl
    · next none => rw [none]; rfl
  rw [feed,feed_behind,vector,paging,banner]

-- The vector is taken over from the state behind the line's own EXCEPTION.
theorem feed_vector (o : SerialObserver) (line : Text) :
    (seenFaults (feed o line).1).map vectorOf = (lineRaw line).toList.map fun _ => (lineVector line).or o.lastVector := by
  have state : (feedVector (feedPaging (feedBanner o line).2 line).2 line).lastVector = (lineVector line).or o.lastVector := by
    rw [← feed_lastVector,feed,feed_behind]
  rw [seenFaults_feed]
  generalize feedVector (feedPaging (feedBanner o line).2 line).2 line = behind at state ⊢
  unfold feedFault
  cases raw : (splitOnce faultPrefix line).bind fun found => parseFault found.2 with
  | none => rw [lineRaw,raw]; rfl
  | some f =>
    obtain ⟨found,_,parsed⟩ := Option.bind_eq_some_iff.mp raw
    have bare := (parseFault_bare parsed).1
    rw [lineRaw,raw]
    refine congrArg (· :: []) ?_
    rw [← state]
    unfold completeFault vectorOf
    cases behind.lastVector <;> cases lineError line <;> simp [bare]

theorem found_vectors (o : SerialObserver) (front rows : List Text) (start : Option (Nat × Text)) (state : o.lastVector = lastPrinted start front) :
    (found o rows).map vectorOf = attributed start (windows front rows) := by
  induction rows generalizing o front start with
  | nil => rfl
  | cons line later ih =>
    have next : (feed o line).2.lastVector = lastPrinted start (front++[line]) := by rw [feed_lastVector,state,lastPrinted_snoc]
    rw [found,List.map_append,feed_vector,windows]
    cases raw : lineRaw line with
    | none => simpa using ih _ _ start next
    | some f =>
      have rest := ih _ [] (lastPrinted start (front++[line])) next
      have own : lastPrinted start (front++[line]) = (lineVector line).or o.lastVector := by rw [← next,feed_lastVector]
      rw [Option.isSome_some,if_pos rfl,attributed,own]
      exact congrArg _ (rest.trans (congrArg (attributed · _) own))

-- Whether a vector is known from before, and of which window it is the own.
theorem attributed_own (last : Option (Nat × Text)) (ws : List (List Text)) (faults : List RawFault)
    (vectors : faults.map vectorOf = attributed last ws) :
    List.Forall₂ Own ws faults ↔
      ∀ front window back, ws = front ++ window :: back → Prints window ∨ (last = none ∧ ∀ before ∈ front, ¬ Prints before) := by
  induction ws generalizing last faults with
  | nil =>
    obtain rfl : faults = [] := List.map_eq_nil_iff.mp vectors
    exact ⟨fun _ front window back split => absurd split (by simp),fun _ => .nil⟩
  | cons window ws ih =>
    obtain ⟨f,rest,rfl,vector,others⟩ := List.map_eq_cons_iff.mp vectors
    have later := ih (lastPrinted last window) rest others
    rw [List.forall₂_cons,later]
    rcases lastPrinted_cases last window with ⟨silent,same⟩ | ⟨prints,printed,same,line,inside,here⟩
    · rw [same] at vector later ⊢
      have own : Own window f ↔ last = none := by
        unfold Own
        rw [vector]
        constructor
        · intro own
          cases known : last with
          | none => rfl
          | some printed =>
            obtain ⟨line,inside,here⟩ := own printed known
            exact absurd ⟨line,inside,by rw [here]; rfl⟩ silent
        · rintro rfl _ no
          cases no
      rw [own]
      constructor
      · rintro ⟨unknown,all⟩ front other back split
        cases front with
        | nil => exact .inr ⟨unknown,List.forall_mem_nil _⟩
        | cons first front =>
          obtain ⟨rfl,tail⟩ := List.cons.inj split
          exact (all front other back tail).imp id fun before => ⟨unknown,List.forall_mem_cons.mpr ⟨silent,before.2⟩⟩
      · intro all
        have unknown := ((all [] window ws rfl).resolve_left silent).1
        refine ⟨unknown,fun front other back split => ?_⟩
        have here := all (window :: front) other back (by rw [split]; rfl)
        exact here.imp id fun before => ⟨unknown,(List.forall_mem_cons.mp before.2).2⟩
    · rw [same] at vector later ⊢
      have own : Own window f := by
        intro v known
        rw [vector] at known
        cases known
        exact ⟨line,inside,here⟩
      constructor
      · rintro ⟨_,all⟩ front other back split
        cases front with
        | nil =>
          obtain ⟨rfl,_⟩ := List.cons.inj split
          exact .inl prints
        | cons first front =>
          obtain ⟨rfl,tail⟩ := List.cons.inj split
          exact .inl ((all front other back tail).resolve_right fun no => by cases no.1)
      · intro all
        refine ⟨own,fun front other back split => .inl ?_⟩
        have here := all (window :: front) other back (by rw [split]; rfl)
        exact here.resolve_right fun before => before.2 window List.mem_cons_self prints

-- Every reported fault has its own vector exactly where each one prints a vector,
-- or nothing printed one before it.
theorem feed_vectors_iff (rows : List Text) : List.Forall₂ Own (windows [] rows) (found .new rows) ↔
    ∀ front window back, windows [] rows = front ++ window :: back → Prints window ∨ ∀ before ∈ front, ¬ Prints before := by
  have vectors := found_vectors .new [] rows none rfl
  rw [attributed_own none _ _ vectors]
  simp only [true_and]

def firstFault : List Text := [
  "[pagingkernel] EXCEPTION: vector=0x0e (#PF page fault)","[pagingkernel] FAULT_RIP=0x00000000001011dd cs=0x0008"].map String.toList

def bareFault : Text := "[pagingkernel] FAULT_RIP=0x0000000000101204 cs=0x0008".toList

theorem earlier_vector_kept : ¬ ∀ rows, List.Forall₂ Own (windows [] rows) (found .new rows) := by
  intro claim
  have own := claim (firstFault ++ [bareFault])
  have parts : windows [] (firstFault ++ [bareFault]) = [firstFault,[bareFault]] := by decide +kernel
  have vectors : (found .new (firstFault ++ [bareFault])).map vectorOf = [some (14,"#PF".toList),some (14,"#PF".toList)] := by decide +kernel
  have bare : lineVector bareFault = none := by decide +kernel
  obtain ⟨first,later,whole,_,others⟩ := List.map_eq_cons_iff.mp vectors
  obtain ⟨second,_,rfl,vector,_⟩ := List.map_eq_cons_iff.mp others
  rw [parts,whole] at own
  obtain ⟨line,inside,printed⟩ := (List.forall₂_cons.mp (List.forall₂_cons.mp own).2).1 _ vector
  rw [List.mem_singleton.mp inside,bare] at printed
  cases printed

end PrincessIDE.Serial
