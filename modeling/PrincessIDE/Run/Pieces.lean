import PrincessIDE.Run.Reader

namespace PrincessIDE.Reader
open Utf8 PrincessIDE.Stream

-- A line without its newline.
abbrev Line := {bs : Bytes // newline ∉ bs}

def noLine : Line := ⟨[],List.not_mem_nil⟩

def Line.grow (u : Line) (b : UInt8) (other : b ≠ newline) : Line :=
  ⟨u.1++[b],fun inside => (List.mem_append.mp inside).elim u.2 fun last => other (List.mem_singleton.mp last).symm⟩

-- The lines that some bytes end, the first of them begun before, and the line
-- that they leave unfinished.
def finish (u : Line) : Bytes → List Line × Line
  | [] => ([],u)
  | b :: rest =>
    if ended : b = newline then (u :: (finish noLine rest).1,(finish noLine rest).2)
    else finish (u.grow b ended) rest

-- A sequence that `x` leaves unfinished is not gone on with by `p`.
def Apart (x p : Bytes) : Prop := ∀ h, (run none x).2 = some h → ∃ c rest, p = c :: rest ∧ h.owed.accept c = .refuse

-- The stretches of a line that can be handed out on their own: valid text up to
-- any place, or up to and with one broken sequence; the rest of a line that its
-- newline ends; and what is left, when no newline comes, behind a broken sequence.
inductive Piece : Bool → Bytes → Text → Prop where
  | text (start : Apart x p) (valid : fromUtf8 p = .ok t) : Piece ended (x ++ p ++ y) t
  | broken (start : Apart x (good ++ bad)) (valid : fromUtf8 good = .ok t) (damaged : segments bad = [.broken bad])
      (cut : Apart bad y) : Piece ended (x ++ (good ++ bad) ++ y) (t ++ [replacement])
  | rest (start : Apart x p) : Piece true (x ++ p) (lossy p)
  | remainder (start : Apart x (bad ++ p)) (damaged : segments bad = [.broken bad]) (cut : Apart bad p) :
      Piece false (x ++ (bad ++ p)) (lossy p)

theorem Apart.closed (closed : (run none x).2 = none) (p : Bytes) : Apart x p := by
  intro h held
  cases closed.symm.trans held

theorem Apart.append (apart : Apart x p) (more : Bytes) : Apart x (p ++ more) := by
  intro h held
  obtain ⟨c,rest,rfl,refused⟩ := apart h held
  exact ⟨c,rest++more,rfl,refused⟩

-- The first byte decides.
theorem Apart.front (apart : Apart x (p ++ more)) (some : p ≠ []) : Apart x p := by
  intro h held
  obtain ⟨c,rest,same,refused⟩ := apart h held
  cases p with
  | nil => exact absurd rfl some
  | cons b p =>
    cases same
    exact ⟨c,p,rfl,refused⟩

theorem Apart.seam (apart : Apart x p) : Seam x p := by
  cases held : (run none x).2 with
  | none => exact .of_closed held p
  | some h =>
    obtain ⟨c,rest,rfl,refused⟩ := apart h held
    exact .of_refused held refused rest

-- Behind the cut the decoder starts anew.
theorem Apart.run (apart : Apart x p) (some : p ≠ []) : (Utf8.run none (x++p)).2 = (Utf8.run none p).2 := by
  rw [run_append]
  cases held : (Utf8.run none x).2 with
  | none => rfl
  | some h =>
    obtain ⟨c,rest,rfl,refused⟩ := apart h held
    simp [Utf8.run,step,refused]

-- The cuts of a front and of what follows it are the cut of the whole.
theorem Apart.trans (first : Apart x p) (some : p ≠ []) (second : Apart p q) : Apart (x++p) q := by
  intro h held
  rw [first.run some] at held
  exact second h held

theorem Apart.nil (p : Bytes) : Apart [] p := .closed rfl p

theorem apart_unfinished (held : Utf8.run none q = ([],some h)) (apart : Apart q p) :
    segments q = [.broken q] ∧ ∃ c rest, p = c :: rest := by
  have kept := run_bytes none q
  simp only [held,List.flatMap_nil,List.nil_append,heldBytes_some,heldBytes_none] at kept
  obtain ⟨c,rest,same,_⟩ := apart h (congrArg Prod.snd held)
  exact ⟨by simp [segments,held,close,kept],c,rest,same⟩

-- Where an error cuts the input, with what may follow the cut.
theorem fromUtf8_apart (failed : fromUtf8 bs = .error e) : ∃ good bad rest, bs = good ++ bad ++ rest ∧ bad ≠ [] ∧
    e.validUpTo = good.length ∧ (run none good).2 = none ∧ fromUtf8 good = .ok (lossy good) ∧
    ((e.errorLen = none ∧ rest = [] ∧ ∃ h, run none bad = ([],some h)) ∨
      (e.errorLen = some bad.length ∧ segments bad = [.broken bad] ∧ Apart bad rest)) := by
  obtain ⟨good,bad,rest,split,some,upTo,closed,intact,kind⟩ := fromUtf8_stop failed
  refine ⟨good,bad,rest,split,some,upTo,closed,(fromUtf8_intact good).mpr intact,?_⟩
  rcases kind with ⟨len,ended,h,held⟩ | ⟨len,ran⟩ | ⟨len,h,c,tail,held,rfl,refused⟩
  · exact .inl ⟨len,ended,h,held⟩
  · exact .inr ⟨len,by simp [segments,ran,close],.closed (congrArg Prod.snd ran) rest⟩
  · have apart : Apart bad (c::tail) := by
      intro g held'
      rw [held] at held'
      cases held'
      exact ⟨c,tail,rfl,refused⟩
    exact .inr ⟨len,(apart_unfinished held apart).1,apart⟩

-- What a flush cuts off: all the text that is valid, an unfinished sequence left
-- out, or text and the broken sequence behind it.
theorem takeAvailable_cases {s : Utf8Chunker} (taken : s.takeAvailable = some out) : ∃ p rest, s.pending = p ++ rest ∧ p ≠ [] ∧ out = (decodeChunk p,⟨rest⟩) ∧
    ((fromUtf8 p = .ok (lossy p) ∧ (run none p).2 = none ∧ (rest = [] ∨ ∃ h, run none rest = ([],some h))) ∨
      ∃ good bad, p = good ++ bad ∧ fromUtf8 good = .ok (lossy good) ∧ (run none good).2 = none ∧ segments bad = [.broken bad] ∧
        bad ≠ [] ∧ Apart bad rest) := by
  unfold Utf8Chunker.takeAvailable at taken
  split at taken
  · cases taken
  rename_i nonempty
  have cut : ∀ front back, s.pending = front ++ back → s.takePrefix front.length = (decodeChunk front,⟨back⟩) := by
    intro front back split
    simp [Utf8Chunker.takePrefix,split]
  cases result : fromUtf8 s.pending with
  | ok t =>
    simp only [result,Option.some.injEq] at taken
    obtain ⟨closed,intact,_⟩ := fromUtf8_ok result
    have whole : s.pending = s.pending ++ [] := (List.append_nil _).symm
    exact ⟨s.pending,[],whole,nonempty,taken.symm.trans (cut _ _ whole),.inl ⟨(fromUtf8_intact _).mpr intact,closed,.inl rfl⟩⟩
  | error e =>
    obtain ⟨good,bad,rest,split,some,upTo,closed,valid,kind⟩ := fromUtf8_apart result
    simp only [result] at taken
    rcases kind with ⟨len,rfl,held⟩ | ⟨len,damaged,apart⟩
    · simp only [len] at taken
      split at taken
      · cases taken
      rename_i positive
      cases taken
      rw [List.append_nil] at split
      have front : good ≠ [] := by intro empty; rw [upTo,empty] at positive; exact positive rfl
      exact ⟨good,bad,split,front,by rw [upTo,cut _ _ split],.inl ⟨valid,closed,.inr held⟩⟩
    · simp only [len,Option.some.injEq] at taken
      have length : e.validUpTo+bad.length = (good++bad).length := by simp [upTo]
      rw [length,cut _ _ split] at taken
      exact ⟨good++bad,rest,split,by simp [some],taken.symm,.inr ⟨good,bad,rfl,valid,closed,damaged,some,apart⟩⟩

theorem first_broken {a b c d : List Segment} (intact : Intact a) (intact' : Intact c)
    (same : a ++ .broken x :: b = c ++ .broken y :: d) : a = c ∧ x = y ∧ b = d := by
  induction a generalizing c with
  | nil => cases c with
    | nil => simpa using same
    | cons g c =>
      have first := (List.cons.inj same).1
      have whole := intact' g (.head _)
      rw [← first] at whole
      cases whole
  | cons g a ih => cases c with
    | nil =>
      have first := (List.cons.inj same).1
      have whole := intact g (.head _)
      rw [first] at whole
      cases whole
    | cons g' c =>
      obtain ⟨head,tail⟩ := List.cons.inj same
      obtain ⟨front,bytes,back⟩ := ih (fun s inside => intact s (.tail _ inside)) (fun s inside => intact' s (.tail _ inside)) tail
      exact ⟨by rw [head,front],bytes,back⟩

-- A flush gives up the first broken sequence together with the text before it.
theorem flush_broken (valid : fromUtf8 good = .ok t) (damaged : segments bad = [.broken bad]) (apart : Apart bad y) :
    wake ⟨good ++ bad ++ y⟩ .idle = ([decodeChunk (good ++ bad)],⟨y⟩) := by
  obtain ⟨closed,intact,_⟩ := fromUtf8_ok valid
  have whole : segments (good ++ bad ++ y) = segments good ++ .broken bad :: segments y := by
    have front : Seam good (bad ++ y) := .of_closed closed _
    have back := apart.seam
    unfold Seam at front back
    rw [List.append_assoc,front,back,damaged,List.singleton_append]
  cases result : fromUtf8 (good ++ bad ++ y) with
  | ok t' =>
    have intact' := (fromUtf8_ok result).2.1 (.broken bad) (by rw [whole]; simp)
    cases intact'
  | error e =>
    obtain ⟨good',bad',rest,split,some,upTo,closed',valid',kind⟩ := fromUtf8_apart result
    have intact'' := (fromUtf8_ok valid').2.1
    have damaged' : segments bad' = [.broken bad'] := by
      rcases kind with ⟨_,_,h,held⟩ | ⟨_,damaged',_⟩
      · have kept := run_bytes none bad'
        simp only [held,List.flatMap_nil,List.nil_append,heldBytes_some,heldBytes_none] at kept
        simp [segments,held,close,kept]
      · exact damaged'
    have apart' : Apart bad' rest ∨ rest = [] := by
      rcases kind with ⟨_,ended,_⟩ | ⟨_,_,apart'⟩
      · exact .inr ended
      · exact .inl apart'
    have whole' : segments (good ++ bad ++ y) = segments good' ++ .broken bad' :: segments rest := by
      have front : Seam good' (bad' ++ rest) := .of_closed closed' _
      have back : Seam bad' rest := apart'.elim Apart.seam fun ended => ended ▸ Seam.nil bad'
      unfold Seam at front back
      rw [split,List.append_assoc,front,back,damaged',List.singleton_append]
    obtain ⟨front,bytes,back⟩ := first_broken intact intact'' (whole.symm.trans whole')
    have sameGood : good = good' := by
      have bytes := congrArg (List.flatMap Segment.bytes) front
      rwa [segments_bytes,segments_bytes] at bytes
    have sameRest : y = rest := by
      have bytes := congrArg (List.flatMap Segment.bytes) back
      rwa [segments_bytes,segments_bytes] at bytes
    subst bytes sameGood sameRest
    have length : e.validUpTo+bad.length = (good++bad).length := by simp [upTo]
    have len : e.errorLen = .some bad.length := by
      rcases kind with ⟨_,rfl,h,held⟩ | ⟨len,_⟩
      · obtain ⟨_,_,_,none⟩ := apart_unfinished held apart
        cases none
      · exact len
    have nonempty : good ++ bad ++ y ≠ [] := by simp [some]
    have taken : Utf8Chunker.takeAvailable ⟨good ++ bad ++ y⟩ = .some (decodeChunk (good ++ bad),⟨y⟩) := by
      rw [Utf8Chunker.takeAvailable,if_neg nonempty]
      simp only [result,len,length]
      simp only [Utf8Chunker.takePrefix,List.take_left,List.drop_left]
    rw [wake,taken]

theorem flush_bad (damaged : segments bad = [.broken bad]) (apart : Apart bad y) : wake ⟨bad ++ y⟩ .idle = ([decodeChunk bad],⟨y⟩) := by
  have empty : fromUtf8 [] = .ok [] := by decide
  exact flush_broken empty damaged apart

-- The chunker of a line that is read: what is pending is its end, cut off where
-- nothing lies across.
def Aboard (u : Bytes) (s : Utf8Chunker) : Prop := ∃ x, u = x ++ s.pending ∧ Apart x s.pending

theorem aboard_new : Aboard [] .new := ⟨[],rfl,.nil _⟩

theorem Aboard.push (aboard : Aboard u s) (got : Bytes) : Aboard (u++got) (s.push got) := by
  obtain ⟨x,rfl,apart⟩ := aboard
  exact ⟨x,List.append_assoc ..,apart.append got⟩

theorem Aboard.plain (aboard : Aboard u s) (plain : newline ∉ u) : newline ∉ s.pending := by
  obtain ⟨x,rfl,_⟩ := aboard
  exact fun inside => plain (List.mem_append_right _ inside)

theorem text_broken (valid : fromUtf8 good = .ok t) (damaged : segments bad = [.broken bad]) : lossy (good ++ bad) = t ++ [replacement] := by
  obtain ⟨closed,_,rfl⟩ := fromUtf8_ok valid
  rw [Seam.lossy (.of_closed closed bad)]
  simp [lossy,damaged,Segment.char]

-- What a flush hands out is a piece of the line, however the line goes on.
theorem flush_pieces {s : Utf8Chunker} (aboard : Aboard u s) (taken : s.takeAvailable = some out) :
    Aboard u out.2 ∧ ∀ ended more, Piece ended (u++more) out.1.1 := by
  obtain ⟨x,rfl,apart⟩ := aboard
  obtain ⟨p,rest,split,nonempty,rfl,kind⟩ := takeAvailable_cases taken
  rw [split] at apart ⊢
  have cut := apart.front nonempty
  dsimp only
  rw [decodeChunk_text]
  rcases kind with ⟨valid,closed,_⟩ | ⟨good,bad,rfl,valid,closed,damaged,some,behind⟩
  · refine ⟨⟨x++p,(List.append_assoc ..).symm,.closed (by rw [cut.run nonempty,closed]) _⟩,fun ended more => ?_⟩
    have whole : x ++ (p ++ rest) ++ more = x ++ p ++ (rest ++ more) := by simp
    exact whole ▸ .text cut valid
  · have both : Apart (good ++ bad) rest := (Apart.closed closed bad).trans some behind
    refine ⟨⟨x++(good++bad),(List.append_assoc ..).symm,cut.trans nonempty both⟩,fun ended more => ?_⟩
    have whole : x ++ (good ++ bad ++ rest) ++ more = x ++ (good ++ bad) ++ (rest ++ more) := by simp
    rw [whole,text_broken valid damaged]
    exact .broken cut valid damaged (behind.append more)

-- What is left behind the last flush.
theorem remainder_pieces {s : Utf8Chunker} (aboard : Aboard u s) :
    (lossy (wake s .idle).2.pending).length ≤ 1 ∨ Piece false u (lossy (wake s .idle).2.pending) := by
  have single : ∀ h (bs : Bytes), run none bs = ([],some h) → (lossy bs).length ≤ 1 := by
    intro h bs held
    simp [lossy,segments,held,close]
  cases taken : s.takeAvailable with
  | none =>
    have quiet : (wake s .idle).2 = s := by rw [wake,taken]
    rw [quiet]
    rcases takeAvailable_stuck taken with empty | ⟨h,held⟩
    · exact .inl (by rw [empty]; decide)
    · exact .inl (single h _ held)
  | some out =>
    obtain ⟨x,rfl,apart⟩ := aboard
    obtain ⟨p,rest,split,nonempty,rfl,kind⟩ := takeAvailable_cases taken
    have next : (wake s .idle).2.pending = rest := by rw [wake,taken]
    rw [next]
    rcases kind with ⟨_,_,ended⟩ | ⟨good,bad,rfl,valid,closed,damaged,some,behind⟩
    · rcases ended with rfl | ⟨h,held⟩
      · exact .inl (by decide)
      · exact .inl (single h _ held)
    · right
      have whole : x ++ s.pending = (x ++ good) ++ (bad ++ rest) := by rw [split]; simp
      rw [whole]
      refine .remainder ?_ damaged behind
      cases good with
      | nil => rw [split] at apart; simpa using apart
      | cons b good =>
        rw [split,List.append_assoc] at apart
        have front := apart.front (List.cons_ne_nil b good)
        exact .closed (by rw [front.run (List.cons_ne_nil b good),closed]) _

-- The lines of some chunks, as a line-wise consumer meets them.
def told (chunks : List Chunk) : List Text := chunks.flatMap fun c => Str.lines c.1

theorem told_append (a b : List Chunk) : told (a++b) = told a ++ told b := List.flatMap_append

theorem rposition_append (b : UInt8) (a c : Bytes) :
    rposition b (a++c) = ((rposition b c).map (a.length + ·)).or (rposition b a) := by
  induction a with
  | nil => cases here : rposition b c <;> simp [rposition,here]
  | cons x a ih =>
    simp only [List.cons_append,rposition,ih]
    cases rposition b c with
    | none => simp
    | some i => simp [Nat.add_right_comm]

theorem drainLines_found {s : Utf8Chunker} (found : rposition newline s.pending = some i) :
    drainLines s = ([decodeChunk (s.pending.take (i+1))],⟨s.pending.drop (i+1)⟩) := by
  simp [drainLines_once,Utf8Chunker.takeLines,found,Utf8Chunker.takePrefix,hand,chunkOf]

-- A line, its newline, and what comes behind it.
theorem drain_line {a : Bytes} (plain : newline ∉ a) (c : Bytes) :
    told (drainLines ⟨a ++ newline :: c⟩).1 = Str.dropReturn (lossy a) :: told (drainLines ⟨c⟩).1 ∧
      (drainLines ⟨a ++ newline :: c⟩).2 = (drainLines ⟨c⟩).2 := by
  have line : lossy (a ++ [newline]) = lossy a ++ ['\n'] := by
    rw [Seam.lossy (.before_ascii a (by decide) [])]
    rfl
  have here : rposition newline (a ++ newline :: c) = ((rposition newline c).map fun i => a.length+1+i).or (some a.length) := by
    have split : a ++ newline :: c = (a ++ [newline]) ++ c := by simp
    have last : rposition newline (a ++ [newline]) = some a.length := by
      rw [rposition_append]
      simp [rposition]
    rw [split,rposition_append,last]
    simp
  cases later : rposition newline c with
  | none =>
    rw [later] at here
    rw [drainLines_found here,drainLines_dry (rposition_none.mp later)]
    have split : a ++ newline :: c = (a ++ [newline]) ++ c := by simp
    have length : a.length+1 = (a ++ [newline]).length := by simp
    rw [split,length,List.take_left,List.drop_left]
    refine ⟨?_,rfl⟩
    simp only [told,List.flatMap_cons,List.flatMap_nil,List.append_nil,decodeChunk_text,line]
    exact Str.lines_terminated (lossy_plain plain)
  | some i =>
    rw [later] at here
    rw [drainLines_found here,drainLines_found later]
    have split : a ++ newline :: c = (a ++ [newline]) ++ c := by simp
    have length : a.length+1+i+1 = (a ++ [newline]).length+(i+1) := by simp; omega
    rw [split,length,List.take_length_add_append,List.drop_length_add_append]
    refine ⟨?_,rfl⟩
    simp only [told,List.flatMap_cons,List.flatMap_nil,List.append_nil,decodeChunk_text]
    rw [Seam.lossy (.after_ascii a (by decide) _),line,Str.lines_append (.inr (by simp)),Str.lines_terminated (lossy_plain plain)]
    rfl

-- The lines that reading some more ends, and what is left unfinished.
theorem drain_finish (q : Line) (got : Bytes) :
    told (drainLines ⟨q.1++got⟩).1 = (finish q got).1.map (fun line => Str.dropReturn (lossy line.1)) ∧
      (drainLines ⟨q.1++got⟩).2 = ⟨(finish q got).2.1⟩ := by
  induction got generalizing q with
  | nil =>
    rw [List.append_nil,drainLines_dry q.2]
    exact ⟨rfl,rfl⟩
  | cons b rest ih =>
    rw [finish]
    split
    · next ended =>
      subst ended
      obtain ⟨lines,left⟩ := drain_line q.2 rest
      obtain ⟨lines',left'⟩ := ih noLine
      rw [lines,left]
      exact ⟨congrArg _ lines',left'⟩
    · next other =>
      have here := ih (q.grow b other)
      rwa [Line.grow,List.append_assoc,List.singleton_append] at here

-- A line begun earlier is longer by what came before.
theorem finish_front {u q : Line} {x : Bytes} (split : u.1 = x ++ q.1) (got : Bytes) :
    ((finish q got).1 = [] ∧ (finish u got).1 = [] ∧ (finish u got).2.1 = x ++ (finish q got).2.1 ∧ (finish q got).2.1 = q.1 ++ got) ∨
    ∃ first first' rest tail more, finish q got = (first :: rest,tail) ∧ finish u got = (first' :: rest,tail) ∧
      first.1 = q.1 ++ more ∧ first'.1 = x ++ first.1 := by
  induction got generalizing u q with
  | nil => exact .inl ⟨rfl,rfl,split,(List.append_nil _).symm⟩
  | cons b rest ih =>
    rw [finish,finish]
    by_cases ended : b = newline
    · rw [dif_pos ended,dif_pos ended]
      exact .inr ⟨q,u,_,_,[],rfl,rfl,(List.append_nil _).symm,split⟩
    · rw [dif_neg ended,dif_neg ended]
      have grown : (u.grow b ended).1 = x ++ (q.grow b ended).1 := by simp [Line.grow,split]
      rcases ih grown with ⟨none,none',longer,whole⟩ | ⟨first,first',rest',tail,more,here,here',grows,longer⟩
      · exact .inl ⟨none,none',longer,by rw [whole]; simp [Line.grow]⟩
      · exact .inr ⟨first,first',rest',tail,b::more,here,here',by rw [grows]; simp [Line.grow],longer⟩

-- The first line that is ended is the one that was begun.
theorem finish_first (u : Line) (got : Bytes) : ((finish u got).1 = [] ∧ ∃ more, (finish u got).2.1 = u.1 ++ more) ∨
    ∃ first rest tail more, finish u got = (first :: rest,tail) ∧ first.1 = u.1 ++ more := by
  rcases finish_front (u:=u) (q:=u) (x:=[]) rfl got with ⟨none,_,_,whole⟩ | ⟨first,_,rest,tail,more,here,_,grows,_⟩
  · exact .inl ⟨none,got,whole⟩
  · exact .inr ⟨first,rest,tail,more,here,grows⟩

-- The texts that can come of some lines and an unfinished one: a piece, with a
-- carriage return at its end or without.
def Told (lines : List Line) (tail : Line) (t : Text) : Prop := ∃ t', (t = t' ∨ t = Str.dropReturn t') ∧
  ((∃ line ∈ lines, Piece true line.1 t') ∨ Piece false tail.1 t')

theorem read_pieces {u : Line} (aboard : Aboard u.1 s) (got : Bytes) :
    Aboard (finish u got).2.1 (wake s (.bytes got)).2 ∧
      ∀ t ∈ told (wake s (.bytes got)).1, ∃ line ∈ (finish u got).1, ∃ t', t = Str.dropReturn t' ∧ Piece true line.1 t' := by
  have plain := aboard.plain u.2
  obtain ⟨x,split,apart⟩ := aboard
  obtain ⟨lines,left⟩ := drain_finish ⟨s.pending,plain⟩ got
  have whole : ∀ line : Line, Piece true line.1 (lossy line.1) := fun line => .rest (x:=[]) (.nil _)
  change told (drainLines (s.push got)).1 = _ at lines
  change (drainLines (s.push got)).2 = _ at left
  rw [wake,lines,left]
  rcases finish_front (u:=u) (q:=⟨s.pending,plain⟩) split got with
    ⟨none,none',longer,grown⟩ | ⟨first,first',rest,tail,more,here,here',grows,longer⟩
  · refine ⟨⟨x,longer,?_⟩,by simp [none]⟩
    rw [grown]
    exact apart.append got
  · rw [here,here']
    refine ⟨⟨[],rfl,.nil _⟩,fun t inside => ?_⟩
    obtain ⟨line,among,rfl⟩ := List.mem_map.mp inside
    rcases List.mem_cons.mp among with rfl | later
    · refine ⟨first',.head _,_,rfl,?_⟩
      rw [longer,grows]
      exact .rest (apart.append more)
    · exact ⟨line,.tail _ later,_,rfl,whole line⟩

-- What a flush cuts off holds no newline, so it is one line or none.
theorem told_single {t : Text} (plain : '\n' ∉ t) (tag : TextEncoding) (inside : l ∈ told [(t,tag)]) : l = t := by
  have same : told [(t,tag)] = Str.lines t := List.append_nil _
  rw [same] at inside
  by_cases empty : t = []
  · rw [empty] at inside
    cases inside
  · rw [Str.lines_single plain empty] at inside
    exact List.mem_singleton.mp inside

theorem idle_pieces {u : Line} (aboard : Aboard u.1 s) :
    Aboard u.1 (wake s .idle).2 ∧ ∀ t ∈ told (wake s .idle).1, ∀ ended more, Piece ended (u.1++more) t := by
  rw [wake]
  cases taken : s.takeAvailable with
  | none =>
    refine ⟨aboard,fun t inside => ?_⟩
    cases inside
  | some out =>
    obtain ⟨next,piece⟩ := flush_pieces aboard taken
    refine ⟨next,fun t inside ended more => ?_⟩
    obtain ⟨p,rest,split,_,rfl,_⟩ := takeAvailable_cases taken
    have plain : '\n' ∉ (decodeChunk p).1 := by
      rw [decodeChunk_text]
      refine lossy_plain fun inside => aboard.plain u.2 ?_
      rw [split]
      exact List.mem_append_left _ inside
    rw [told_single plain _ inside]
    exact piece ended more

theorem finish_append (u : Line) (a b : Bytes) :
    finish u (a++b) = ((finish u a).1 ++ (finish (finish u a).2 b).1,(finish (finish u a).2 b).2) := by
  induction a generalizing u with
  | nil => rfl
  | cons c a ih =>
    rw [List.cons_append,finish,finish]
    split
    · rw [ih]; rfl
    · exact ih _

theorem Told.later (here : Told lines tail t) (before : List Line) : Told (before ++ lines) tail t := by
  obtain ⟨t',same,piece⟩ := here
  exact ⟨t',same,piece.imp_left fun ⟨line,among,whole⟩ => ⟨line,List.mem_append_right _ among,whole⟩⟩

-- Whatever a run of wakes hands out are pieces of the lines that it reads.
theorem wakes_pieces {u : Line} (aboard : Aboard u.1 s) (schedule : List Wake) :
    Aboard (finish u (read schedule)).2.1 (wakes s schedule).2 ∧
      ∀ t ∈ told (wakes s schedule).1, Told (finish u (read schedule)).1 (finish u (read schedule)).2 t := by
  induction schedule generalizing u s with
  | nil => exact ⟨aboard,fun t inside => nomatch inside⟩
  | cons w rest ih =>
    have cut : read (w::rest) = w.read ++ read rest := rfl
    rw [cut,finish_append,wakes]
    dsimp only
    rw [told_append]
    cases w with
    | bytes got =>
      obtain ⟨next,pieces⟩ := read_pieces aboard got
      obtain ⟨last,later⟩ := ih next
      refine ⟨last,fun t inside => ?_⟩
      rcases List.mem_append.mp inside with first | behind
      · obtain ⟨line,among,t',same,piece⟩ := pieces t first
        exact ⟨t',.inr same,.inl ⟨line,List.mem_append_left _ among,piece⟩⟩
      · exact (later t behind).later _
    | idle =>
      obtain ⟨next,pieces⟩ := idle_pieces aboard
      obtain ⟨last,later⟩ := ih next
      refine ⟨last,fun t inside => ?_⟩
      rcases List.mem_append.mp inside with first | behind
      · refine ⟨t,.inl rfl,?_⟩
        change (∃ line ∈ (finish u (read rest)).1, _) ∨ Piece false (finish u (read rest)).2.1 t
        rcases finish_first u (read rest) with ⟨_,more,whole⟩ | ⟨line,others,tail,more,here,whole⟩
        · rw [whole]
          exact .inr (pieces t first false more)
        · rw [here]
          exact .inl ⟨line,.head _,whole ▸ pieces t first true more⟩
      · exact later t behind

-- The flush and the remainder at the end of a pipe.
def closing (s : Utf8Chunker) : List Chunk := (wake s .idle).1 ++ match (wake s .idle).2.takeRemainder with
  | some (chunk,_) => [chunk]
  | none => []

theorem closing_pieces {u : Line} (aboard : Aboard u.1 s) : ∀ t ∈ told (closing s), t.length ≤ 1 ∨ Piece false u.1 t := by
  intro t inside
  obtain ⟨next,pieces⟩ := idle_pieces aboard
  rw [closing,told_append] at inside
  rcases List.mem_append.mp inside with flushed | left
  · right
    have piece := pieces t flushed false []
    rwa [List.append_nil] at piece
  · cases taken : (wake s .idle).2.takeRemainder with
    | none => rw [taken] at left; cases left
    | some out =>
      rw [taken] at left
      have chunk : out.1 = decodeChunk (wake s .idle).2.pending := by
        unfold Utf8Chunker.takeRemainder at taken
        split at taken
        · cases taken
        · cases taken
          simp [Utf8Chunker.takePrefix]
      have text : out.1.1 = lossy (wake s .idle).2.pending := by rw [chunk,decodeChunk_text]
      have same := told_single (t:=out.1.1) (by rw [text]; exact lossy_plain (next.plain u.2)) out.1.2 left
      rw [same,text]
      exact remainder_pieces aboard

theorem finish_open {u : Line} (plain : newline ∉ u.1++got) : finish u got = ([],⟨u.1++got,plain⟩) := by
  induction got generalizing u with
  | nil => simp [finish]
  | cons b rest ih =>
    have other : b ≠ newline := fun same => plain (by simp [same])
    have regroup : (u.grow b other).1 ++ rest = u.1 ++ b :: rest := by simp [Line.grow]
    rw [finish,dif_neg other,ih (by rw [regroup]; exact plain)]
    simp [regroup]

theorem finish_ended {u : Line} (plain : newline ∉ u.1++got) : finish u (got++[newline]) = ([⟨u.1++got,plain⟩],noLine) := by
  rw [finish_append,finish_open plain]
  rfl

theorem push_open {s : Utf8Chunker} (plain : newline ∉ s.pending++got) : wake s (.bytes got) = ([],⟨s.pending++got⟩) :=
  drainLines_dry (s:=s.push got) plain

theorem read_append (a b : List Wake) : read (a++b) = read a ++ read b := List.flatMap_append

-- No read comes back empty, as it would at the end of the pipe.
def Busy (schedule : List Wake) : Prop := ∀ w ∈ schedule, w ≠ .bytes []

theorem Busy.append (first : Busy a) (second : Busy b) : Busy (a++b) :=
  fun w inside => (List.mem_append.mp inside).elim (first w) (second w)

theorem busy_crumbs (bs : Bytes) : Busy (crumbs bs) := by
  intro w inside
  obtain ⟨b,_,among⟩ := List.mem_flatMap.mp inside
  rcases List.mem_cons.mp among with rfl | idle
  · exact fun none => nomatch none
  · rw [List.eq_of_mem_replicate idle]
    exact fun none => nomatch none

theorem busy_idle : Busy [.idle] := by
  intro w inside
  rw [List.mem_singleton.mp inside]
  exact fun none => nomatch none

theorem busy_bytes (some : bs ≠ []) : Busy [.bytes bs] := by
  intro w inside
  rw [List.mem_singleton.mp inside]
  exact fun none => some (Wake.bytes.inj none)

-- The flushed crumbs of `x` and the bytes of `p` lead to a chunker that holds `p`.
theorem reach (apart : Apart x p) (some : p ≠ []) (plain : newline ∉ x++p) :
    ∃ schedule, Busy schedule ∧ read schedule = x++p ∧ (wakes .new schedule).2 = ⟨p⟩ := by
  have plainX : newline ∉ x := fun inside => plain (List.mem_append_left _ inside)
  have plainP : newline ∉ p := fun inside => plain (List.mem_append_right _ inside)
  obtain ⟨_,stuck⟩ := crumbs_wakes (s:=.new) (by decide) x
  obtain ⟨aboard,_⟩ := wakes_pieces (u:=noLine) aboard_new (crumbs x)
  rw [read_crumbs,finish_open (u:=noLine) plainX] at aboard
  obtain ⟨q,pending⟩ : ∃ q, (wakes .new (crumbs x)).2.pending = q := ⟨_,rfl⟩
  have holds : (wakes .new (crumbs x)).2 = ⟨q⟩ := by rw [← pending]
  obtain ⟨front,split,cut⟩ := aboard
  rw [pending] at split cut
  change x = front ++ q at split
  have plainQ : newline ∉ q ++ p := by
    rw [split] at plainX
    exact fun inside => (List.mem_append.mp inside).elim (fun here => plainX (List.mem_append_right _ here)) plainP
  rw [holds] at stuck
  rcases takeAvailable_stuck stuck with empty | ⟨h,held⟩
  · refine ⟨crumbs x ++ [Wake.bytes p],(busy_crumbs x).append (busy_bytes some),by rw [read_append,read_crumbs]; simp [read,Wake.read],?_⟩
    have none : q = [] := empty
    rw [wakes_append,holds,none]
    simp only [wakes]
    rw [push_open (by simpa using plainP)]
    rfl
  · refine ⟨crumbs x ++ ([Wake.bytes p] ++ [Wake.idle]),(busy_crumbs x).append ((busy_bytes some).append busy_idle),
      by rw [read_append,read_crumbs]; simp [read,Wake.read],?_⟩
    have begun : q ≠ [] := by
      intro none
      rw [none] at held
      cases held
    have behind : Apart q p := by
      intro g held'
      have same := cut.run begun
      rw [← split,held'] at same
      exact apart g same
    rw [wakes_append,holds,List.singleton_append]
    simp only [wakes]
    rw [push_open plainQ]
    rw [flush_bad (apart_unfinished held behind).1 behind]

theorem idle_valid (valid : fromUtf8 p = .ok t) (some : p ≠ []) : wake ⟨p⟩ .idle = ([(t,.utf8)],⟨[]⟩) := by
  simp [wake,Utf8Chunker.takeAvailable,some,valid,Utf8Chunker.takePrefix,decodeChunk]

theorem told_one {t : Text} (plain : '\n' ∉ t) (some : t ≠ []) (tag : TextEncoding) : told [(t,tag)] = [t] := by
  simp [told,Str.lines_single plain some]

theorem text_plain {p : Bytes} (valid : fromUtf8 p = .ok t) (some : t ≠ []) (plain : newline ∉ p) : p ≠ [] ∧ '\n' ∉ t := by
  obtain ⟨_,_,rfl⟩ := fromUtf8_ok valid
  refine ⟨?_,lossy_plain plain⟩
  rintro rfl
  exact some rfl

theorem handed_text (start : Apart x p) (valid : fromUtf8 p = .ok t) (some : t ≠ []) (plain : newline ∉ x++p++y) :
    ∃ schedule, Busy schedule ∧ read schedule = x++p++y ∧ t ∈ told (wakes .new schedule).1 := by
  have plainXP : newline ∉ x++p := fun inside => plain (List.mem_append_left _ inside)
  obtain ⟨nonempty,line⟩ := text_plain valid some fun inside => plainXP (List.mem_append_right _ inside)
  obtain ⟨schedule,busy,reads,holds⟩ := reach start nonempty plainXP
  refine ⟨schedule ++ ([Wake.idle] ++ crumbs y),busy.append (busy_idle.append (busy_crumbs y)),
    by rw [read_append,read_append,reads,read_crumbs]; rfl,?_⟩
  rw [wakes_append,holds,List.singleton_append]
  simp only [wakes,idle_valid valid nonempty,told_append]
  refine List.mem_append_right _ (List.mem_append_left _ ?_)
  rw [told_one line some]
  exact List.mem_singleton_self t

theorem handed_broken (start : Apart x (good ++ bad)) (valid : fromUtf8 good = .ok t) (damaged : segments bad = [.broken bad])
    (cut : Apart bad y) (plain : newline ∉ x++(good++bad)++y) :
    ∃ schedule, Busy schedule ∧ read schedule = x++(good++bad)++y ∧ t++[replacement] ∈ told (wakes .new schedule).1 := by
  have nonempty : good ++ bad ++ y ≠ [] := by
    intro none
    rw [(List.append_eq_nil_iff.mp (List.append_eq_nil_iff.mp none).1).2] at damaged
    cases damaged
  rw [List.append_assoc] at plain ⊢
  obtain ⟨schedule,busy,reads,holds⟩ := reach (start.append y) nonempty plain
  have line : '\n' ∉ t ++ [replacement] := by
    rw [← text_broken valid damaged]
    exact lossy_plain fun inside => plain (List.mem_append_right _ (List.mem_append_left _ inside))
  refine ⟨schedule ++ [Wake.idle],busy.append busy_idle,by rw [read_append,reads]; simp [read,Wake.read],?_⟩
  rw [wakes_append,holds]
  simp only [wakes,flush_broken valid damaged cut,told_append]
  refine List.mem_append_right _ (List.mem_append_left _ ?_)
  have chunk : decodeChunk (good++bad) = (t++[replacement],(decodeChunk (good++bad)).2) := by
    rw [← text_broken valid damaged,← decodeChunk_text]
  rw [chunk,told_one line (by simp)]
  exact List.mem_singleton_self _

-- Any piece of a line is handed out, as it is or without its carriage return, by
-- some way in which the line and its newline arrive.
theorem piece_ended (piece : Piece true line t) (some : t ≠ []) (plain : newline ∉ line) :
    ∃ schedule, Busy schedule ∧ read schedule = line++[newline] ∧
      (t ∈ told (wakes .new schedule).1 ∨ Str.dropReturn t ∈ told (wakes .new schedule).1) := by
  have ending : ∀ schedule, Busy schedule → read schedule = line → t ∈ told (wakes .new schedule).1 → ∃ schedule, Busy schedule ∧
      read schedule = line++[newline] ∧ (t ∈ told (wakes .new schedule).1 ∨ Str.dropReturn t ∈ told (wakes .new schedule).1) := by
    intro schedule busy reads inside
    refine ⟨schedule ++ [Wake.bytes [newline]],busy.append (busy_bytes (List.cons_ne_nil newline [])),by rw [read_append,reads]; rfl,.inl ?_⟩
    rw [wakes_append,told_append]
    exact List.mem_append_left _ inside
  cases piece with
  | text start valid =>
    obtain ⟨schedule,busy,reads,inside⟩ := handed_text start valid some plain
    exact ending schedule busy reads inside
  | broken start valid damaged cut =>
    obtain ⟨schedule,busy,reads,inside⟩ := handed_broken start valid damaged cut plain
    exact ending schedule busy reads inside
  | rest start =>
    rename_i x p
    have nonempty : p ≠ [] := by
      rintro rfl
      exact some rfl
    obtain ⟨schedule,busy,reads,holds⟩ := reach start nonempty plain
    refine ⟨schedule ++ [Wake.bytes [newline]],busy.append (busy_bytes (List.cons_ne_nil newline [])),by rw [read_append,reads]; rfl,.inr ?_⟩
    rw [wakes_append,holds,told_append]
    have line := (drain_line (fun inside => plain (List.mem_append_right _ inside) : newline ∉ p) []).1
    refine List.mem_append_right _ ?_
    change _ ∈ told ((drainLines ⟨p ++ [newline]⟩).1 ++ [])
    rw [List.append_nil,line]
    exact .head _

-- The same of a line that no newline ends.
theorem piece_left (piece : Piece false line t) (some : t ≠ []) (plain : newline ∉ line) :
    ∃ schedule, Busy schedule ∧ read schedule = line ∧ t ∈ told ((wakes .new schedule).1 ++ closing (wakes .new schedule).2) := by
  have ending : ∀ schedule, Busy schedule → read schedule = line → t ∈ told (wakes .new schedule).1 →
      ∃ schedule, Busy schedule ∧ read schedule = line ∧ t ∈ told ((wakes .new schedule).1 ++ closing (wakes .new schedule).2) := by
    intro schedule busy reads inside
    exact ⟨schedule,busy,reads,by rw [told_append]; exact List.mem_append_left _ inside⟩
  cases piece with
  | text start valid =>
    obtain ⟨schedule,busy,reads,inside⟩ := handed_text start valid some plain
    exact ending schedule busy reads inside
  | broken start valid damaged cut =>
    obtain ⟨schedule,busy,reads,inside⟩ := handed_broken start valid damaged cut plain
    exact ending schedule busy reads inside
  | remainder start damaged cut =>
    rename_i x bad p
    have nonempty : p ≠ [] := by
      rintro rfl
      exact some rfl
    have begun : bad ++ p ≠ [] := fun none => nonempty (List.append_eq_nil_iff.mp none).2
    obtain ⟨schedule,busy,reads,holds⟩ := reach start begun plain
    refine ⟨schedule,busy,reads,?_⟩
    rw [told_append,holds,closing,flush_bad damaged cut]
    refine List.mem_append_right _ ?_
    have left : Utf8Chunker.takeRemainder ⟨p⟩ = .some (decodeChunk p,⟨[]⟩) := by
      simp [Utf8Chunker.takeRemainder,nonempty,Utf8Chunker.takePrefix]
    have line : '\n' ∉ lossy p := lossy_plain fun inside => plain (List.mem_append_right _ (List.mem_append_right _ inside))
    have chunk : decodeChunk p = (lossy p,(decodeChunk p).2) := by rw [← decodeChunk_text]
    rw [left,told_append]
    refine List.mem_append_right _ ?_
    dsimp only
    rw [chunk,told_one line some]
    exact List.mem_singleton_self _

-- The crumbs of whatever bytes hand out next to nothing at once.
theorem quiet_closing {s : Utf8Chunker} (stuck : s.takeAvailable = none) : ∀ t ∈ told (closing s), t.length ≤ 4 := by
  intro t inside
  have quiet : wake s .idle = ([],s) := by rw [wake,stuck]
  rw [closing,quiet,List.nil_append] at inside
  dsimp only at inside
  have few := stuck_short stuck
  cases taken : s.takeRemainder with
  | none => rw [taken] at inside; cases inside
  | some out =>
    rw [taken] at inside
    have text : out.1.1.length ≤ 4 := by
      unfold Utf8Chunker.takeRemainder at taken
      split at taken
      · cases taken
      · cases taken
        have short := lossy_length s.pending
        unfold Utf8Chunker.pendingLen at few
        simp only [Utf8Chunker.takePrefix,List.take_length,decodeChunk_text]
        omega
    obtain ⟨_,among,line⟩ := List.mem_flatMap.mp inside
    rw [List.mem_singleton.mp among] at line
    obtain ⟨_,pre,post,whole⟩ := Str.lines_within line
    have length := congrArg List.length whole
    simp only [List.length_append] at length
    omega

theorem told_short (short : ∀ c ∈ chunks, c.1.length ≤ n) : ∀ t ∈ told chunks, t.length ≤ n := by
  intro t inside
  obtain ⟨c,among,line⟩ := List.mem_flatMap.mp inside
  obtain ⟨_,pre,post,whole⟩ := Str.lines_within line
  have length := congrArg List.length whole
  have bound := short c among
  simp only [List.length_append] at length
  omega

theorem crumbs_told (bs : Bytes) : (wakes .new (crumbs bs)).2.takeAvailable = none ∧
    ∀ t ∈ told ((wakes .new (crumbs bs)).1 ++ closing (wakes .new (crumbs bs)).2), t.length ≤ 4 := by
  obtain ⟨short,stuck⟩ := crumbs_wakes (s:=.new) (by decide) bs
  refine ⟨stuck,fun t inside => ?_⟩
  rw [told_append] at inside
  rcases List.mem_append.mp inside with running | last
  · exact told_short short t running
  · exact quiet_closing stuck t last

section Pipes
variable {ι : Type} [DecidableEq ι]

-- Several pipes, each with a chunker of its own.
def hear (s : ι → Utf8Chunker) : List (ι × Wake) → List Chunk × (ι → Utf8Chunker)
  | [] => ([],s)
  | a :: rest =>
    let later := hear (Function.update s a.1 (wake (s a.1) a.2).2) rest
    ((wake (s a.1) a.2).1 ++ later.1,later.2)

theorem hear_append (s : ι → Utf8Chunker) (a b : List (ι × Wake)) :
    hear s (a++b) = ((hear s a).1 ++ (hear (hear s a).2 b).1,(hear (hear s a).2 b).2) := by
  induction a generalizing s with
  | nil => rfl
  | cons x a ih => simp [hear,ih]

-- What one of them meets.
def alone (which : ι) (arrivals : List (ι × Wake)) : List Wake := arrivals.filterMap fun a => if a.1 = which then some a.2 else none

theorem alone_same (which : ι) (w : Wake) (rest : List (ι × Wake)) : alone which ((which,w) :: rest) = w :: alone which rest := by
  simp [alone]

theorem alone_other {which other : ι} (differ : other ≠ which) (w : Wake) (rest : List (ι × Wake)) :
    alone which ((other,w) :: rest) = alone which rest := by
  simp [alone,differ]

theorem hear_alone (s : ι → Utf8Chunker) (arrivals : List (ι × Wake)) :
    (∀ which, (hear s arrivals).2 which = (wakes (s which) (alone which arrivals)).2) ∧
      ∀ c, c ∈ (hear s arrivals).1 ↔ ∃ which, c ∈ (wakes (s which) (alone which arrivals)).1 := by
  induction arrivals generalizing s with
  | nil => exact ⟨fun which => rfl,fun c => by simp [hear,alone,wakes]⟩
  | cons a rest ih =>
    obtain ⟨which,w⟩ := a
    obtain ⟨states,chunks⟩ := ih (Function.update s which (wake (s which) w).2)
    have other : ∀ p, p ≠ which → Function.update s which (wake (s which) w).2 p = s p := fun p differ => Function.update_of_ne differ ..
    refine ⟨fun p => ?_,fun c => ?_⟩
    · rw [hear]
      dsimp only
      rw [states]
      by_cases same : p = which
      · rw [same,alone_same,Function.update_self,wakes]
      · rw [alone_other (Ne.symm same),other p same]
    · rw [hear]
      dsimp only
      rw [List.mem_append,chunks]
      constructor
      · rintro (first | ⟨p,later⟩)
        · exact ⟨which,by rw [alone_same,wakes]; exact List.mem_append_left _ first⟩
        · by_cases same : p = which
          · rw [same,Function.update_self] at later
            exact ⟨which,by rw [alone_same,wakes]; exact List.mem_append_right _ later⟩
          · rw [other p same] at later
            exact ⟨p,by rwa [alone_other (Ne.symm same)]⟩
      · rintro ⟨p,inside⟩
        by_cases same : p = which
        · rw [same,alone_same,wakes] at inside
          rcases List.mem_append.mp inside with first | later
          · exact .inl first
          · exact .inr ⟨which,by rwa [Function.update_self]⟩
        · rw [alone_other (Ne.symm same)] at inside
          exact .inr ⟨p,by rwa [other p same]⟩

-- What is written to the pipes: the lines in the order in which they are ended,
-- and what is left of each pipe behind its last newline.
structure Script (ι : Type) where
  lines : List (ι × Line)
  tail : ι → Line

def Script.empty : Script ι := ⟨[],fun _ => noLine⟩

def Script.write (s : Script ι) (a : ι × Wake) : Script ι :=
  ⟨s.lines ++ (finish (s.tail a.1) a.2.read).1.map (a.1,·),Function.update s.tail a.1 (finish (s.tail a.1) a.2.read).2⟩

def script (s : Script ι) (arrivals : List (ι × Wake)) : Script ι := arrivals.foldl Script.write s

theorem script_append (s : Script ι) (a b : List (ι × Wake)) : script s (a++b) = script (script s a) b := List.foldl_append

theorem script_alone (s : Script ι) (which : ι) (arrivals : List (ι × Wake)) :
    (script s arrivals).tail which = (finish (s.tail which) (read (alone which arrivals))).2 ∧
      ∀ line, (which,line) ∈ (script s arrivals).lines ↔
        (which,line) ∈ s.lines ∨ line ∈ (finish (s.tail which) (read (alone which arrivals))).1 := by
  induction arrivals generalizing s with
  | nil => exact ⟨rfl,fun line => ⟨.inl,fun inside => inside.elim id fun none => nomatch none⟩⟩
  | cons a rest ih =>
    obtain ⟨p,w⟩ := a
    obtain ⟨tails,lines⟩ := ih (s.write (p,w))
    change (script (s.write (p,w)) rest).tail which = _ ∧ ∀ line, (which,line) ∈ (script (s.write (p,w)) rest).lines ↔ _
    rw [tails]
    by_cases same : p = which
    · subst same
      have cut : read (alone p ((p,w) :: rest)) = w.read ++ read (alone p rest) := by rw [alone_same]; rfl
      have tail : (s.write (p,w)).tail p = (finish (s.tail p) w.read).2 := Function.update_self ..
      rw [cut,finish_append,tail]
      refine ⟨rfl,fun line => ?_⟩
      rw [lines,tail]
      simp only [Script.write,List.mem_append,List.mem_map,Prod.mk.injEq,true_and,exists_eq_right]
      tauto
    · have tail : (s.write (p,w)).tail which = s.tail which := Function.update_of_ne (Ne.symm same) ..
      rw [alone_other same,tail]
      refine ⟨rfl,fun line => ?_⟩
      rw [lines,tail]
      simp only [Script.write,List.mem_append,List.mem_map,Prod.mk.injEq]
      constructor
      · rintro ((before | ⟨_,_,here,_⟩) | later)
        · exact .inl before
        · exact absurd here same
        · exact .inr later
      · rintro (before | later)
        · exact .inl (.inl before)
        · exact .inr later

end Pipes

end PrincessIDE.Reader
