import PrincessIDE.Foundation.Utf8

namespace PrincessIDE.Stream
open Utf8

inductive TextEncoding where
  | utf8
  | utf8Lossy
deriving DecidableEq, Repr

def TextEncoding.asStr : TextEncoding → Text
  | .utf8 => "utf8".toList
  | .utf8Lossy => "utf8-lossy".toList

structure Utf8Chunker where
  pending : Bytes
deriving DecidableEq, Repr

abbrev Chunk := Text × TextEncoding

def decodeChunk (bytes : Bytes) : Chunk :=
  match fromUtf8 bytes with
  | .ok text => (text,.utf8)
  | .error _ => (lossy bytes,.utf8Lossy)

namespace Utf8Chunker

def new : Utf8Chunker := ⟨[]⟩

def push (s : Utf8Chunker) (bytes : Bytes) : Utf8Chunker := ⟨s.pending ++ bytes⟩

def pendingLen (s : Utf8Chunker) : Nat := s.pending.length

def isEmpty (s : Utf8Chunker) : Bool := s.pending.isEmpty

def takePrefix (s : Utf8Chunker) (cut : Nat) : Chunk × Utf8Chunker :=
  (decodeChunk (s.pending.take cut),⟨s.pending.drop cut⟩)

end Utf8Chunker

def newline : UInt8 := 10

def rposition (b : UInt8) : Bytes → Option Nat
  | [] => none
  | x :: rest => match rposition b rest with
    | some i => some (i+1)
    | none => if x = b then some 0 else none

namespace Utf8Chunker

def takeLines (s : Utf8Chunker) : Option (Chunk × Utf8Chunker) :=
  (rposition newline s.pending).map (fun i => s.takePrefix (i+1))

def takeAvailable (s : Utf8Chunker) : Option (Chunk × Utf8Chunker) :=
  if s.pending = [] then none
  else match fromUtf8 s.pending with
    | .ok _ => some (s.takePrefix s.pending.length)
    | .error e => match e.errorLen with
      | none => if e.validUpTo = 0 then none else some (s.takePrefix e.validUpTo)
      | some invalidLen => some (s.takePrefix (e.validUpTo+invalidLen))

def takeRemainder (s : Utf8Chunker) : Option (Chunk × Utf8Chunker) :=
  if s.pending = [] then none else some (s.takePrefix s.pending.length)

end Utf8Chunker

theorem lossy_plain (plain : newline ∉ bs) : '\n' ∉ lossy bs := by
  intro inside
  obtain ⟨pre,post,cut⟩ := List.append_of_mem inside
  obtain ⟨x,y,split⟩ := lossy_infix (by simpa using cut : lossy bs = pre ++ ['\n'] ++ post) (by decide)
  exact plain (by rw [split]; simp [show encode ['\n'] = [newline] from by decide])

theorem rposition_none : rposition b bs = none ↔ b ∉ bs := by
  induction bs with
  | nil => simp [rposition]
  | cons x rest ih =>
    cases later : rposition b rest with
    | some j =>
      have inside : b ∈ rest := by
        by_contra absent
        rw [ih.mpr absent] at later
        cases later
      simp [rposition,later,inside]
    | none =>
      have absent := ih.mp later
      simp only [rposition,later,List.mem_cons,absent,or_false]
      split
      · simp_all
      · simp; exact fun equal => ‹¬x = b› equal.symm

theorem rposition_some (found : rposition b bs = some i) :
    ∃ front back, bs = front ++ b :: back ∧ front.length = i ∧ b ∉ back := by
  induction bs generalizing i with
  | nil => simp [rposition] at found
  | cons x rest ih =>
    cases later : rposition b rest with
    | some j =>
      simp only [rposition,later,Option.some.injEq] at found
      obtain ⟨front,back,rfl,len,last⟩ := ih later
      exact ⟨x::front,back,by simp,by simp [len,found],last⟩
    | none =>
      simp only [rposition,later] at found
      split at found
      · cases found
        subst x
        exact ⟨[],rest,by simp,rfl,rposition_none.mp later⟩
      · cases found

-- What one extraction hands out, with the bytes it drained.
structure Handed where
  bytes : Bytes
  text : Text
  encoding : TextEncoding
deriving DecidableEq, Repr

def hand (s : Utf8Chunker) : Option (Chunk × Utf8Chunker) → List Handed × Utf8Chunker
  | none => ([],s)
  | some ((text,encoding),next) =>
    ([⟨s.pending.take (s.pending.length-next.pending.length),text,encoding⟩],next)

inductive Op where
  | push (bytes : Bytes)
  | takeLines
  | takeAvailable
deriving DecidableEq, Repr

def apply (s : Utf8Chunker) : Op → List Handed × Utf8Chunker
  | .push bytes => ([],s.push bytes)
  | .takeLines => hand s s.takeLines
  | .takeAvailable => hand s s.takeAvailable

def runOps (s : Utf8Chunker) : List Op → List Handed × Utf8Chunker
  | [] => ([],s)
  | op :: ops => ((apply s op).1 ++ (runOps (apply s op).2 ops).1,(runOps (apply s op).2 ops).2)

theorem runOps_append (s : Utf8Chunker) (a b : List Op) :
    runOps s (a++b) = ((runOps s a).1 ++ (runOps (runOps s a).2 b).1,(runOps (runOps s a).2 b).2) := by
  induction a generalizing s with
  | nil => rfl
  | cons op a ih => simp [runOps,ih]

def pushed : Op → Bytes
  | .push bytes => bytes
  | _ => []

def fed (ops : List Op) : Bytes := ops.flatMap pushed

-- Any interleaving of the operations, then the one `take_remainder` at EOF.
def session (ops : List Op) : List Handed :=
  let s := runOps .new ops
  s.1 ++ (hand s.2 s.2.takeRemainder).1

-- One extraction drains a nonempty prefix, decodes exactly that prefix, and
-- cuts at a place no later byte can turn into the middle of a segment.
structure CleanCut (pending : Bytes) (h : Handed) (rest : Bytes) : Prop where
  split : pending = h.bytes ++ rest
  some : h.bytes ≠ []
  decoded : (h.text,h.encoding) = decodeChunk h.bytes
  seam : ∀ more, Seam h.bytes (rest ++ more)

theorem takePrefix_clean {s : Utf8Chunker} (split : s.pending = front ++ rest) (some : front ≠ [])
    (seam : ∀ more, Seam front (rest ++ more)) :
    ∃ h, hand s (.some (s.takePrefix front.length)) = ([h],⟨rest⟩) ∧ CleanCut s.pending h rest := by
  refine ⟨⟨front,(decodeChunk front).1,(decodeChunk front).2⟩,?_,split,some,rfl,seam⟩
  simp [hand,Utf8Chunker.takePrefix,split]

theorem takeLines_clean (taken : s.takeLines = some out) :
    ∃ h, hand s (some out) = ([h],out.2) ∧ CleanCut s.pending h out.2.pending ∧ newline ∉ out.2.pending ∧
      h.bytes.getLast? = some newline := by
  unfold Utf8Chunker.takeLines at taken
  cases found : rposition newline s.pending with
  | none => simp [found] at taken
  | some i =>
    simp only [found,Option.map_some,Option.some.injEq] at taken
    obtain ⟨front,back,split,len,last⟩ := rposition_some found
    have regroup : s.pending = (front++[newline]) ++ back := by simp [split]
    have cut : i+1 = (front++[newline]).length := by simp [len]
    obtain ⟨h,handed,clean⟩ := takePrefix_clean regroup (by simp)
      (fun more => Seam.after_ascii front (c:=newline) (by decide) (back++more))
    subst taken
    rw [cut,handed]
    have rest : (s.takePrefix (front++[newline]).length).2 = ⟨back⟩ := by simp [Utf8Chunker.takePrefix,regroup]
    have same : h.bytes = front ++ [newline] := List.append_cancel_right (clean.split.symm.trans regroup)
    exact ⟨h,by rw [rest],by rw [rest]; exact clean,by rw [rest]; exact last,by simp [same]⟩

theorem takeAvailable_clean (taken : s.takeAvailable = some out) :
    ∃ h, hand s (some out) = ([h],out.2) ∧ CleanCut s.pending h out.2.pending := by
  unfold Utf8Chunker.takeAvailable at taken
  split at taken
  · cases taken
  rename_i nonempty
  cases result : fromUtf8 s.pending with
  | ok t =>
    simp only [result,Option.some.injEq] at taken
    obtain ⟨closed,_,_⟩ := fromUtf8_ok result
    obtain ⟨h,handed,clean⟩ := takePrefix_clean (show s.pending = s.pending ++ [] by simp) nonempty
      (fun more => .of_closed closed more)
    subst taken
    have rest : (s.takePrefix s.pending.length).2 = ⟨[]⟩ := by simp [Utf8Chunker.takePrefix]
    exact ⟨h,by rw [handed,rest],by rw [rest]; exact clean⟩
  | error e =>
    obtain ⟨good,bad,tail,split,some,upTo,closed,_,kind⟩ := fromUtf8_error result
    simp only [result] at taken
    rcases kind with ⟨len,ended,_⟩ | ⟨len,_,seam⟩
    · simp only [len] at taken
      split at taken
      · cases taken
      · rename_i positive
        cases taken
        have front : good ≠ [] := by intro empty; rw [upTo,empty] at positive; exact positive rfl
        have regroup : s.pending = good ++ bad := by rw [split,ended,List.append_nil]
        obtain ⟨h,handed,clean⟩ := takePrefix_clean regroup front (fun more => .of_closed closed _)
        have rest : (s.takePrefix good.length).2 = ⟨bad⟩ := by simp [Utf8Chunker.takePrefix,regroup]
        rw [upTo,handed]
        exact ⟨h,by rw [rest],by rw [rest]; exact clean⟩
    · simp only [len,Option.some.injEq] at taken
      have cut : e.validUpTo+bad.length = (good++bad).length := by simp [upTo]
      have both : ∀ more, Seam (good++bad) (tail++more) := by
        intro more
        have outer : Seam good (bad++(tail++more)) := .of_closed closed _
        have inner : Seam good bad := .of_closed closed _
        unfold Seam at outer inner
        have joint := seam more
        unfold Seam at joint ⊢
        rw [List.append_assoc,outer,joint,inner,List.append_assoc]
      obtain ⟨h,handed,clean⟩ := takePrefix_clean split (by simp [some]) both
      subst taken
      have rest : (s.takePrefix (good++bad).length).2 = ⟨tail⟩ := by simp [Utf8Chunker.takePrefix,split]
      rw [cut,handed]
      exact ⟨h,by rw [rest],by rw [rest]; exact clean⟩

-- `take_available` gives up on one unfinished sequence only.
theorem takeAvailable_stuck (stuck : Utf8Chunker.takeAvailable s = none) :
    s.pending = [] ∨ ∃ h, run none s.pending = ([],some h) := by
  unfold Utf8Chunker.takeAvailable at stuck
  split at stuck
  · exact .inl ‹_›
  cases result : fromUtf8 s.pending with
  | ok t => simp [result] at stuck
  | error e =>
    obtain ⟨good,bad,tail,split,_,upTo,_,_,kind⟩ := fromUtf8_error result
    simp only [result] at stuck
    rcases kind with ⟨len,rfl,held⟩ | ⟨len,_⟩
    · simp only [len] at stuck
      split at stuck
      · rename_i none
        have empty : good = [] := List.length_eq_zero_iff.mp (upTo.symm.trans none)
        simp only [empty,List.nil_append,List.append_nil] at split
        exact .inr (split ▸ held)
      · cases stuck
    · simp [len] at stuck

theorem stuck_short (stuck : Utf8Chunker.takeAvailable s = none) : s.pendingLen ≤ 3 := by
  rcases takeAvailable_stuck stuck with empty | ⟨h,held⟩
  · simp [Utf8Chunker.pendingLen,empty]
  · have bytes := run_bytes none s.pending
    simp only [held,heldBytes_none,heldBytes_some,List.flatMap_nil,List.nil_append] at bytes
    have short := (held_short (congrArg Prod.snd held)).2
    rw [bytes] at short
    exact short

theorem takeRemainder_clean (taken : s.takeRemainder = some out) :
    ∃ h, hand s (some out) = ([h],⟨[]⟩) ∧ h.bytes = s.pending ∧ (h.text,h.encoding) = decodeChunk h.bytes := by
  unfold Utf8Chunker.takeRemainder at taken
  split at taken
  · cases taken
  · cases taken
    exact ⟨⟨s.pending,(decodeChunk s.pending).1,(decodeChunk s.pending).2⟩,
      by simp [hand,Utf8Chunker.takePrefix],rfl,rfl⟩

theorem decodeChunk_text (bytes : Bytes) : (decodeChunk bytes).1 = lossy bytes := by
  unfold decodeChunk
  cases result : fromUtf8 bytes with
  | ok t => exact (fromUtf8_ok result).2.2
  | error e => rfl

theorem decodeChunk_tag (bytes : Bytes) : (decodeChunk bytes).2 = .utf8 ↔ Intact (segments bytes) := by
  rw [← fromUtf8_intact]
  unfold decodeChunk
  cases result : fromUtf8 bytes with
  | ok t => simp [(fromUtf8_ok result).2.2]
  | error e => simp

-- One step of the session: the bytes handed out followed by the bytes still
-- pending are the bytes that were pending or pushed, in order, and whatever
-- arrives later, no segment of the whole lies across an extraction.
theorem apply_step (s : Utf8Chunker) (op : Op) :
    s.pending ++ pushed op = (apply s op).1.flatMap Handed.bytes ++ (apply s op).2.pending ∧
    (∀ more, segments (s.pending ++ (pushed op ++ more)) =
      (apply s op).1.flatMap (fun h => segments h.bytes) ++ segments ((apply s op).2.pending ++ more)) ∧
    ∀ h ∈ (apply s op).1, (h.text,h.encoding) = decodeChunk h.bytes := by
  have quiet : ∀ s : Utf8Chunker, s.pending = ([] : List Handed).flatMap Handed.bytes ++ s.pending := by simp
  have clean : ∀ (h : Handed) (rest : Bytes), CleanCut s.pending h rest →
      s.pending = [h].flatMap Handed.bytes ++ rest ∧
      (∀ more, segments (s.pending ++ more) = [h].flatMap (fun h => segments h.bytes) ++ segments (rest ++ more)) ∧
      ∀ g ∈ [h], (g.text,g.encoding) = decodeChunk g.bytes := by
    intro h rest cut
    refine ⟨by simp [cut.split],fun more => ?_,by simpa using cut.decoded⟩
    have seam := cut.seam more
    unfold Seam at seam
    rw [cut.split,List.append_assoc,seam]
    simp
  cases op with
  | push bytes => simp [apply,pushed,Utf8Chunker.push]
  | takeLines =>
    simp only [apply,pushed,List.append_nil,List.nil_append]
    cases taken : s.takeLines with
    | none => simp [hand]
    | some out =>
      obtain ⟨h,handed,cut,_,_⟩ := takeLines_clean taken
      rw [handed]
      exact clean h _ cut
  | takeAvailable =>
    simp only [apply,pushed,List.append_nil,List.nil_append]
    cases taken : s.takeAvailable with
    | none => simp [hand]
    | some out =>
      obtain ⟨h,handed,cut⟩ := takeAvailable_clean taken
      rw [handed]
      exact clean h _ cut

theorem runOps_bytes (s : Utf8Chunker) (ops : List Op) :
    s.pending ++ fed ops = (runOps s ops).1.flatMap Handed.bytes ++ (runOps s ops).2.pending := by
  induction ops generalizing s with
  | nil => simp [runOps,fed]
  | cons op ops ih =>
    have one := (apply_step s op).1
    have rest := ih (apply s op).2
    simp only [fed] at rest
    simp only [runOps,fed,List.flatMap_cons,List.flatMap_append,List.append_assoc]
    rw [← rest,← List.append_assoc,one,List.append_assoc]

theorem runOps_segments (s : Utf8Chunker) (ops : List Op) (more : Bytes) :
    segments (s.pending ++ (fed ops ++ more)) =
      (runOps s ops).1.flatMap (fun h => segments h.bytes) ++ segments ((runOps s ops).2.pending ++ more) := by
  induction ops generalizing s with
  | nil => simp [runOps,fed]
  | cons op ops ih =>
    have one := (apply_step s op).2.1 (fed ops ++ more)
    have rest := ih (apply s op).2
    simp only [fed] at one rest
    simp only [runOps,fed,List.flatMap_cons,List.flatMap_append,List.append_assoc]
    rw [← rest,one]

theorem runOps_decoded (s : Utf8Chunker) (ops : List Op) :
    ∀ h ∈ (runOps s ops).1, (h.text,h.encoding) = decodeChunk h.bytes := by
  induction ops generalizing s with
  | nil => simp [runOps]
  | cons op ops ih =>
    intro h member
    rcases List.mem_append.mp member with first | later
    · exact (apply_step s op).2.2 h first
    · exact ih _ h later

theorem remainder_handed (s : Utf8Chunker) :
    (hand s s.takeRemainder).1.flatMap Handed.bytes = s.pending ∧
    (hand s s.takeRemainder).1.flatMap (fun h => segments h.bytes) = segments s.pending ∧
    ∀ h ∈ (hand s s.takeRemainder).1, (h.text,h.encoding) = decodeChunk h.bytes := by
  cases taken : s.takeRemainder with
  | none =>
    have empty : s.pending = [] := by
      by_contra some
      simp [Utf8Chunker.takeRemainder,some] at taken
    simp [hand,empty,segments,run,close]
  | some out =>
    obtain ⟨h,handed,bytes,decoded⟩ := takeRemainder_clean taken
    rw [handed]
    simp [bytes,decoded]

theorem session_bytes (ops : List Op) : (session ops).flatMap Handed.bytes = fed ops := by
  have bytes := runOps_bytes .new ops
  simp only [Utf8Chunker.new,List.nil_append] at bytes
  simp only [session,List.flatMap_append,(remainder_handed _).1,Utf8Chunker.new]
  exact bytes.symm

theorem session_segments (ops : List Op) :
    (session ops).flatMap (fun h => segments h.bytes) = segments (fed ops) := by
  have segs := runOps_segments .new ops []
  simp only [Utf8Chunker.new,List.nil_append,List.append_nil] at segs
  simp only [session,List.flatMap_append,(remainder_handed _).2.1,Utf8Chunker.new]
  exact segs.symm

theorem session_decoded (ops : List Op) : ∀ h ∈ session ops, (h.text,h.encoding) = decodeChunk h.bytes := by
  intro h member
  rcases List.mem_append.mp member with running | last
  · exact runOps_decoded _ _ h running
  · exact (remainder_handed _).2.2 h last

theorem session_text (ops : List Op) : (session ops).flatMap Handed.text = lossy (fed ops) := by
  have texts : ∀ h ∈ session ops, h.text = (segments h.bytes).map Segment.char := by
    intro h member
    have decoded := congrArg Prod.fst (session_decoded ops h member)
    exact decoded.trans (decodeChunk_text _)
  rw [List.flatMap_congr texts,← List.map_flatMap,session_segments]
  rfl

-- The positions of a stream covered by its broken segments.
def brokenMask (bs : Bytes) : List Bool :=
  (segments bs).flatMap (fun g => List.replicate g.bytes.length g.isBroken)

theorem brokenMask_length (bs : Bytes) : (brokenMask bs).length = bs.length := by
  have bytes := congrArg List.length (segments_bytes bs)
  rw [List.length_flatMap] at bytes
  rw [brokenMask,List.length_flatMap]
  simpa only [List.length_replicate] using bytes

theorem session_mask (ops : List Op) :
    (session ops).flatMap (fun h => brokenMask h.bytes) = brokenMask (fed ops) := by
  simp only [brokenMask,← session_segments,List.flatMap_assoc]

theorem brokenMask_lossy (lossy : ¬ Intact (segments bs)) : true ∈ brokenMask bs := by
  obtain ⟨g,member,bad⟩ : ∃ g ∈ segments bs, g.isBroken = true := by
    simpa [Intact] using lossy
  refine List.mem_flatMap.mpr ⟨g,member,?_⟩
  rw [bad]
  exact List.mem_replicate.mpr ⟨by simpa using segments_nonempty member,rfl⟩

-- The bytes of one extraction, located in the stream: they start behind the
-- bytes of the extractions before it.
theorem session_located (split : session ops = before ++ h :: after) (found : (brokenMask h.bytes)[i]? = some b) :
    (brokenMask (fed ops))[(before.flatMap Handed.bytes).length + i]? = some b := by
  have lens : (before.flatMap (fun h => brokenMask h.bytes)).length = (before.flatMap Handed.bytes).length := by
    simp [List.length_flatMap,brokenMask_length]
  rw [← session_mask,split,List.flatMap_append,List.flatMap_cons,← lens,
    List.getElem?_append_right (by omega),Nat.add_sub_cancel_left]
  rw [List.getElem?_append_left (List.getElem?_eq_some_iff.mp found).1]
  exact found

theorem chunker_decodes (ops : List Op) :
    (session ops).flatMap Handed.bytes = fed ops ∧
    (session ops).flatMap Handed.text = lossy (fed ops) ∧
    (∀ before h after, session ops = before ++ h :: after → h.encoding = .utf8Lossy →
      ∃ i, i < h.bytes.length ∧ (brokenMask (fed ops))[(before.flatMap Handed.bytes).length + i]? = some true) ∧
    (∀ t, fromUtf8 (fed ops) = .ok t →
      (session ops).flatMap Handed.text = t ∧ ∀ h ∈ session ops, h.encoding = .utf8) := by
  refine ⟨session_bytes ops,session_text ops,?_,?_⟩
  · intro before h after split tagged
    have member : h ∈ session ops := by simp [split]
    have tag := congrArg Prod.snd (session_decoded ops h member)
    have damaged : ¬ Intact (segments h.bytes) := by
      rw [← decodeChunk_tag,← tag,tagged]
      simp
    obtain ⟨i,bound,here⟩ := List.mem_iff_getElem.mp (brokenMask_lossy damaged)
    refine ⟨i,by rwa [brokenMask_length] at bound,session_located split ?_⟩
    rw [List.getElem?_eq_getElem bound,here]
  · intro t valid
    obtain ⟨_,intact,rfl⟩ := fromUtf8_ok valid
    refine ⟨session_text ops,fun h member => ?_⟩
    have tag := congrArg Prod.snd (session_decoded ops h member)
    refine tag.trans ((decodeChunk_tag _).mpr fun g inside => intact g ?_)
    rw [← session_segments]
    exact List.mem_flatMap.mpr ⟨h,member,inside⟩

end PrincessIDE.Stream
