import PrincessIDE.Core.Json
import PrincessIDE.Foundation.Str

namespace PrincessIDE.JsonText
open Utf8 (Text)
open Str (digitValue)

def blank (c : Char) : Bool := c = ' ' || c = '\n' || c = '\r' || c = '\t'

def Blank (t : Text) : Prop := ∀ c ∈ t, blank c = true

-- What stands for itself between quotes.
def plain (c : Char) : Bool := 0x20 ≤ c.toNat && c != '"' && c != '\\'

-- The characters that have an escape of their own, each with its letter.
def escapes : List (Char × Char) := [('"','"'),('\\','\\'),(Char.ofNat 8,'b'),(Char.ofNat 12,'f'),('\n','n'),('\r','r'),('\t','t')]

def short (e : Char) : Option Char := if e = '/' then some e else (escapes.find? (·.2 = e)).map Prod.fst

-- What stands for one character between quotes. Of the escapes by number there
-- are those below 256.
inductive Letter : Text → Char → Prop where
  | plain (solid : plain c = true) : Letter [c] c
  | short (known : short e = some c) : Letter ['\\',e] c
  | code (high : digitValue 16 x = some a) (low : digitValue 16 y = some b) : Letter ['\\','u','0','0',x,y] (Char.ofNat (16*a+b))

inductive Spells : Text → Text → Prop where
  | nil : Spells [] []
  | cons (letter : Letter w c) (rest : Spells t s) : Spells (w ++ t) (c :: s)

def Quoted (t s : Text) : Prop := ∃ body, t = '"' :: (body ++ ['"']) ∧ Spells body s

section
variable {α : Type}

-- Items with commas between them, and blanks around each.
inductive Items (P : Text → α → Prop) : Text → List α → Prop where
  | last (front : Blank pad) (item : P t a) (back : Blank gap) : Items P (pad ++ (t ++ gap)) [a]
  | more (front : Blank pad) (item : P t a) (back : Blank gap) (rest : Items P ts as) :
      Items P (pad ++ (t ++ (gap ++ ',' :: ts))) (a :: as)

def Enclosed (opening closing : Char) (P : Text → α → Prop) (t : Text) (as : List α) : Prop :=
  ∃ inner, t = opening :: (inner ++ [closing]) ∧ ((as = [] ∧ Blank inner) ∨ Items P inner as)

def Member (P : Text → α → Prop) (t : Text) (field : Text × α) : Prop :=
  ∃ key gap pad value, t = key ++ (gap ++ ':' :: (pad ++ value)) ∧ Quoted key field.1 ∧ Blank gap ∧ Blank pad ∧ P value field.2

end

-- The texts of the values that are made of strings alone, with so many lists and
-- objects within each other at the most. The names in an object are apart.
def Denotes : Nat → Text → Json → Prop
  | 0,t,v => ∃ s, v = .str s ∧ Quoted t s
  | n+1,t,v => (∃ s, v = .str s ∧ Quoted t s) ∨ (∃ items, v = .arr items ∧ Enclosed '[' ']' (Denotes n) t items) ∨
      ∃ fields, v = .obj fields ∧ (fields.map Prod.fst).Nodup ∧ Enclosed '{' '}' (Member (Denotes n)) t fields

-- A reader takes the text of a value off the front of what it is given.
def Reads {α : Type} (read : Text → Option (α × Text)) (P : Text → α → Prop) : Prop :=
  ∀ t a, P t a → ∀ rest, read (t ++ rest) = some (a,rest)

def skip (t : Text) : Text := t.dropWhile blank

def readCode : Text → Option (Char × Text)
  | '0' :: '0' :: x :: y :: rest => do
    let a ← digitValue 16 x
    let b ← digitValue 16 y
    pure (Char.ofNat (16*a+b),rest)
  | _ => none

def readLetter : Text → Option (Char × Text)
  | [] => none
  | c :: t =>
    if plain c then some (c,t)
    else if c = '\\' then match t with
      | [] => none
      | e :: rest => if e = 'u' then readCode rest else (short e).map fun c => (c,rest)
    else none

-- Behind the opening quote; each letter takes a character at least.
def readString : Nat → Text → Option (Text × Text)
  | 0,_ => none
  | n+1,t =>
    if t.head? = some '"' then some ([],t.tail)
    else (readLetter t).bind fun (c,rest) => (readString n rest).map fun (s,rest) => (c :: s,rest)

def readQuoted : Text → Option (Text × Text)
  | '"' :: t => readString t.length t
  | _ => none

section
variable {α : Type} (read : Text → Option (α × Text))

def readItems (closing : Char) : Nat → Text → Option (List α × Text)
  | 0,_ => none
  | n+1,t => (read (skip t)).bind fun (a,rest) => match skip rest with
    | [] => none
    | c :: rest =>
      if c = ',' then (readItems closing n rest).map fun (as,rest) => (a :: as,rest)
      else if c = closing then some ([a],rest)
      else none

-- Behind the opening bracket; each item takes a character at least.
def readEnclosed (closing : Char) (t : Text) : Option (List α × Text) := match skip t with
  | [] => none
  | c :: rest => if c = closing then some ([],rest) else readItems read closing t.length t

def readMember (t : Text) : Option ((Text × α) × Text) :=
  (readQuoted t).bind fun (key,rest) => match skip rest with
    | ':' :: rest => (read (skip rest)).map fun (a,rest) => ((key,a),rest)
    | _ => none

end

def readText (t : Text) : Option (Json × Text) := (readQuoted t).map fun (s,rest) => (.str s,rest)

def readValue : Nat → Text → Option (Json × Text)
  | 0,t => readText t
  | n+1,t => match t with
    | '[' :: rest => (readEnclosed (readValue n) ']' rest).map fun (items,rest) => (.arr items,rest)
    | '{' :: rest => (readEnclosed (readMember (readValue n)) '}' rest).map fun (fields,rest) => (.obj fields,rest)
    | _ => readText t

theorem readLetter_reads : Reads readLetter Letter := by
  intro w c letter rest
  cases letter with
  | plain solid => exact if_pos solid
  | @short e c known =>
    have other : e ≠ 'u' := by
      rintro rfl
      cases known
    change (if e = 'u' then readCode rest else (short e).map fun c => (c,rest)) = some (c,rest)
    rw [if_neg other,known]
    rfl
  | @code x a y b high low =>
    change readCode ('0' :: '0' :: x :: y :: rest) = some (Char.ofNat (16*a+b),rest)
    rw [readCode,high,low]
    rfl

theorem Letter.first (letter : Letter w c) : w ≠ [] ∧ w.head? ≠ some '"' := by
  cases letter with
  | @plain c solid =>
    refine ⟨List.cons_ne_nil _ _,fun quote => ?_⟩
    cases quote
    cases solid
  | short known => exact ⟨List.cons_ne_nil _ _,by simp⟩
  | code high low => exact ⟨List.cons_ne_nil _ _,by simp⟩

theorem Spells.short_text (spells : Spells t s) : s.length ≤ t.length := by
  induction spells with
  | nil => exact Nat.le_refl _
  | cons letter _ ih =>
    have some := List.length_pos_iff.mpr letter.first.1
    rw [List.length_append,List.length_cons]
    omega

theorem Spells.append (front : Spells t s) (back : Spells u r) : Spells (t ++ u) (s ++ r) := by
  induction front with
  | nil => exact back
  | cons letter _ ih =>
    rw [List.append_assoc]
    exact .cons letter ih

theorem readString_spelled (spells : Spells t s) (enough : s.length < n) (rest : Text) :
    readString n (t ++ '"' :: rest) = some (s,rest) := by
  induction spells generalizing n with
  | nil =>
    obtain ⟨n,rfl⟩ := Nat.exists_eq_add_of_lt enough
    exact if_pos rfl
  | @cons w c t s letter spells ih =>
    obtain ⟨n,rfl⟩ : ∃ k, n = k+1 := ⟨n-1,by omega⟩
    have inside : (w ++ t ++ '"' :: rest).head? ≠ some '"' := by
      rw [List.append_assoc,List.head?_append_of_ne_nil _ letter.first.1]
      exact letter.first.2
    rw [readString,if_neg inside,List.append_assoc,readLetter_reads w c letter,Option.bind_some]
    exact congrArg (Option.map _) (ih (by simpa using enough))

theorem readQuoted_reads : Reads readQuoted Quoted := by
  rintro t s ⟨body,rfl,spells⟩ rest
  have short := spells.short_text
  rw [List.cons_append,List.append_assoc]
  exact readString_spelled spells (by simp; omega) rest

theorem blank_nil : Blank [] := fun _ inside => (nomatch inside)

theorem skip_blank (front : Blank pad) (t : Text) : skip (pad ++ t) = skip t := List.dropWhile_append_of_pos front

theorem skip_solid (solid : blank c = false) (t : Text) : skip (c :: t) = c :: t := by
  rw [skip,List.dropWhile_cons_of_neg (by rw [solid]; exact Bool.false_ne_true)]

-- The first character of an item is not blank, and does not close a list.
def Opens {α : Type} (closing : Char) (P : Text → α → Prop) : Prop := ∀ t a, P t a → ∃ c rest, t = c :: rest ∧ blank c = false ∧ c ≠ closing

section
variable {α : Type} {P : Text → α → Prop} {read : Text → Option (α × Text)} {closing : Char} {t : Text} {as : List α}

theorem Opens.skip (opens : Opens closing P) (item : P t a) (front : Blank pad) (rest : Text) : skip (pad ++ (t ++ rest)) = t ++ rest := by
  obtain ⟨c,tail,rfl,solid,_⟩ := opens t a item
  rw [skip_blank front,List.cons_append,skip_solid solid]

theorem Items.enough (opens : Opens closing P) (items : Items P t as) : as.length ≤ t.length := by
  induction items with
  | last _ item _ =>
    obtain ⟨c,tail,rfl,_,_⟩ := opens _ _ item
    simp
    omega
  | more _ item _ _ ih =>
    obtain ⟨c,tail,rfl,_,_⟩ := opens _ _ item
    simp
    omega

theorem Items.opens (opens : Opens closing P) (items : Items P t as) (rest : Text) : ∃ c tail, skip (t ++ rest) = c :: tail ∧ c ≠ closing := by
  have first : ∀ {pad core : Text} {a : α} (behind : Text), Blank pad → P core a →
      ∃ c tail, skip (pad ++ (core ++ behind) ++ rest) = c :: tail ∧ c ≠ closing := by
    intro pad core a behind front item
    obtain ⟨c,tail,same,_,other⟩ := opens core a item
    rw [List.append_assoc,List.append_assoc,opens.skip item front,same]
    exact ⟨c,tail ++ (behind ++ rest),rfl,other⟩
  cases items with
  | last front item back => exact first _ front item
  | more front item back items => exact first _ front item

theorem readItems_reads (reads : Reads read P) (opens : Opens closing P) (solid : blank closing = false) (other : closing ≠ ',')
    (items : Items P t as) (enough : as.length ≤ n) (rest : Text) : readItems read closing n (t ++ closing :: rest) = some (as,rest) := by
  induction items generalizing n with
  | @last pad t a gap front item back =>
    obtain ⟨n,rfl⟩ : ∃ k, n = k+1 := ⟨n-1,by simp at enough; omega⟩
    rw [readItems,List.append_assoc,List.append_assoc,opens.skip item front,reads t a item,Option.bind_some]
    dsimp only
    rw [skip_blank back,skip_solid solid]
    dsimp only
    rw [if_neg other,if_pos rfl]
  | @more pad t a gap ts as front item back items ih =>
    obtain ⟨n,rfl⟩ : ∃ k, n = k+1 := ⟨n-1,by simp at enough; omega⟩
    rw [readItems,List.append_assoc,List.append_assoc,opens.skip item front,reads t a item,Option.bind_some]
    dsimp only
    rw [List.append_assoc,skip_blank back,List.cons_append,skip_solid (by decide)]
    dsimp only
    rw [if_pos rfl,ih (by simpa using enough)]
    rfl

theorem readEnclosed_reads (reads : Reads read P) (opens : Opens closing P) (solid : blank closing = false) (other : closing ≠ ',')
    (enclosed : Enclosed opening closing P t as) (rest : Text) : ∃ inner, t = opening :: inner ∧
    readEnclosed read closing (inner ++ rest) = some (as,rest) := by
  obtain ⟨inner,rfl,⟨rfl,empty⟩ | items⟩ := enclosed
  · refine ⟨_,rfl,?_⟩
    rw [List.append_assoc,readEnclosed,skip_blank empty,List.singleton_append,skip_solid solid]
    exact if_pos rfl
  · refine ⟨_,rfl,?_⟩
    have enough := items.enough opens
    have all := readItems_reads (n:=(inner ++ [closing] ++ rest).length) reads opens solid other items (by simp; omega) rest
    rw [List.append_assoc,List.singleton_append] at all ⊢
    obtain ⟨c,tail,begins,inside⟩ := items.opens opens (closing :: rest)
    rw [readEnclosed,begins]
    dsimp only
    rw [if_neg inside,all]

theorem quoted_first (quoted : Quoted t s) : ∃ rest, t = '"' :: rest := by
  obtain ⟨body,rfl,_⟩ := quoted
  exact ⟨_,rfl⟩

theorem member_opens (outer : closing ≠ '"') : Opens closing (Member P) := by
  rintro t field ⟨key,gap,pad,value,rfl,quoted,_,_,_⟩
  obtain ⟨rest,rfl⟩ := quoted_first quoted
  exact ⟨'"',_,rfl,rfl,outer.symm⟩

theorem readMember_reads (reads : Reads read P) (opens : Opens closing P) : Reads (readMember read) (Member P) := by
  rintro t ⟨name,a⟩ ⟨key,gap,pad,value,rfl,quoted,middle,front,item⟩ rest
  have named := readQuoted_reads key name quoted (gap ++ ':' :: (pad ++ (value ++ rest)))
  rw [readMember,List.append_assoc,List.append_assoc,List.cons_append,List.append_assoc,named,Option.bind_some]
  dsimp only
  rw [skip_blank middle,skip_solid (by decide)]
  change (read (skip (pad ++ (value ++ rest)))).map _ = _
  rw [opens.skip item front,reads value a item]
  rfl

end

theorem denotes_first (denotes : Denotes n t v) : ∃ c rest, t = c :: rest ∧ (c = '"' ∨ c = '[' ∨ c = '{') := by
  have text : (∃ s, v = .str s ∧ Quoted t s) → ∃ c rest, t = c :: rest ∧ (c = '"' ∨ c = '[' ∨ c = '{') := by
    rintro ⟨s,_,quoted⟩
    obtain ⟨rest,same⟩ := quoted_first quoted
    exact ⟨'"',rest,same,.inl rfl⟩
  cases n with
  | zero => exact text denotes
  | succ n =>
    rcases denotes with single | ⟨_,_,_,same,_⟩ | ⟨_,_,_,_,same,_⟩
    · exact text single
    · exact ⟨'[',_,same,.inr (.inl rfl)⟩
    · exact ⟨'{',_,same,.inr (.inr rfl)⟩

theorem denotes_opens (n : Nat) (closes : closing = ']' ∨ closing = '}') : Opens closing (Denotes n) := by
  intro t v denotes
  obtain ⟨c,rest,same,begins⟩ := denotes_first denotes
  refine ⟨c,rest,same,?_,?_⟩
  · rcases begins with rfl | rfl | rfl <;> rfl
  · rcases begins with rfl | rfl | rfl <;> rcases closes with rfl | rfl <;> decide

theorem readText_reads (denotes : ∃ s, v = Json.str s ∧ Quoted t s) (rest : Text) : readText (t ++ rest) = some (v,rest) := by
  obtain ⟨s,rfl,quoted⟩ := denotes
  rw [readText,readQuoted_reads t s quoted rest]
  rfl

theorem readValue_reads (n : Nat) : Reads (readValue n) (Denotes n) := by
  induction n with
  | zero => exact fun t v denotes rest => readText_reads denotes rest
  | succ n ih =>
    rintro t v (single | ⟨items,rfl,list⟩ | ⟨fields,rfl,_,object⟩) rest
    · obtain ⟨tail,rfl⟩ : ∃ tail, t = '"' :: tail := by
        obtain ⟨s,_,quoted⟩ := single
        exact quoted_first quoted
      exact readText_reads single rest
    · obtain ⟨inner,rfl,all⟩ := readEnclosed_reads ih (denotes_opens n (.inl rfl)) (by decide) (by decide) list rest
      exact congrArg (Option.map _) all
    · obtain ⟨inner,rfl,all⟩ := readEnclosed_reads (readMember_reads ih (denotes_opens n (.inr rfl))) (member_opens (by decide))
        (by decide) (by decide) object rest
      exact congrArg (Option.map _) all
-- A reader for the whole of a text.
def parse (n : Nat) (t : Text) : Option Json := (readValue n (skip t)).bind fun (v,rest) => if skip rest = [] then some v else none

theorem parse_denotes (denotes : Denotes n t v) : parse n t = some v := by
  obtain ⟨c,tail,rfl,solid,_⟩ := denotes_opens n (.inl rfl) t v denotes
  have whole := readValue_reads n _ _ denotes []
  rw [List.append_nil] at whole
  rw [parse,skip_solid solid,whole]
  rfl

-- How the characters of a text are written.
def letter (c : Char) : Text := match escapes.find? (·.1 = c) with
  | some (_,e) => ['\\',e]
  | none => if c.toNat < 0x20 then ['\\','u','0','0',(c.toNat / 16).digitChar,(c.toNat % 16).digitChar] else [c]

def quote (s : Text) : Text := '"' :: (s.flatMap letter ++ ['"'])

theorem escapes_short : ∀ pair ∈ escapes, short pair.2 = some pair.1 := by
  have each : (escapes.all fun pair => short pair.2 = some pair.1) = true := by decide
  exact fun pair inside => of_decide_eq_true (List.all_eq_true.mp each pair inside)

theorem letter_stands (c : Char) : Letter (letter c) c := by
  unfold letter
  split
  · next name e found =>
    have same : name = c := by simpa using List.find?_some found
    exact same ▸ .short (escapes_short (name,e) (List.mem_of_find?_eq_some found))
  · next missing =>
    split
    · next low =>
      have high : digitValue 16 (c.toNat / 16).digitChar = some (c.toNat / 16) := Str.digitValue_digitChar (by omega) (Nat.le_refl _)
      have rest : digitValue 16 (c.toNat % 16).digitChar = some (c.toNat % 16) := Str.digitValue_digitChar (by omega) (Nat.le_refl _)
      have code := Letter.code high rest
      rwa [Nat.div_add_mod,Char.ofNat_toNat] at code
    · next high =>
      have each := List.find?_eq_none.mp missing
      have quote : c ≠ '"' := fun same => each ('"','"') (by simp [escapes]) (by simp [same])
      have slash : c ≠ '\\' := fun same => each ('\\','\\') (by simp [escapes]) (by simp [same])
      refine .plain ?_
      rw [plain,Bool.and_eq_true,Bool.and_eq_true]
      exact ⟨⟨decide_eq_true (by omega),bne_iff_ne.mpr quote⟩,bne_iff_ne.mpr slash⟩

theorem quote_quoted (s : Text) : Quoted (quote s) s := by
  refine ⟨_,rfl,?_⟩
  induction s with
  | nil => exact .nil
  | cons c s ih =>
    rw [List.flatMap_cons]
    exact .cons (letter_stands c) ih

example : parse 3 "\x7b \"a\\n\" : [\"b\", []] \x7d".toList = some (.obj [("a\n".toList,.arr [.str "b".toList,.arr []])]) := by rfl

-- The values that are made of strings alone, by how deep they are.
def Textual : Nat → Json → Prop
  | 0,v => ∃ s, v = .str s
  | n+1,v => (∃ s, v = .str s) ∨ (∃ items, v = .arr items ∧ ∀ item ∈ items, Textual n item) ∨
      ∃ fields, v = .obj fields ∧ (fields.map Prod.fst).Nodup ∧ ∀ field ∈ fields, Textual n field.2

def margin (level : Nat) : Text := '\n' :: List.replicate (2*level) ' '

def listed (pad back : Text) : List Text → Text
  | [] => []
  | [t] => pad ++ (t ++ back)
  | t :: ts => pad ++ (t ++ ',' :: listed pad back ts)

-- One item a line, two blanks further in than what holds them.
def prettyList (opening closing : Char) (level : Nat) (items : List Text) : Text :=
  opening :: (listed (margin (level+1)) (margin level) items ++ [closing])

def pretty : Nat → Nat → Json → Text
  | _,_,.str s => quote s
  | n+1,level,.arr items => prettyList '[' ']' level (items.map (pretty n (level+1)))
  | n+1,level,.obj fields => prettyList '{' '}' level (fields.map fun field => quote field.1 ++ ": ".toList ++ pretty n (level+1) field.2)
  | _,_,_ => []

theorem margin_blank (level : Nat) : Blank (margin level) := by
  intro c inside
  rcases List.mem_cons.mp inside with rfl | later
  · rfl
  · rw [List.eq_of_mem_replicate later]
    rfl

section
variable {α : Type} {P : Text → α → Prop}

theorem listed_items (front : Blank pad) (last : Blank back) {items : List α} {text : α → Text} (some : items ≠ [])
    (each : ∀ item ∈ items, P (text item) item) : Items P (listed pad back (items.map text)) items := by
  induction items with
  | nil => exact absurd rfl some
  | cons item items ih =>
    obtain ⟨here,later⟩ := List.forall_mem_cons.mp each
    cases items with
    | nil => exact .last front here last
    | cons next rest => exact .more front here blank_nil (ih (List.cons_ne_nil _ _) later)

-- Items with a comma in front of each but the first.
theorem joined_items {β : Type} {text : β → Text} {value : β → α} {first : β} {items : List β} (here : P (text first) (value first))
    (each : ∀ item ∈ items, P (text item) (value item)) :
    Items P (text first ++ items.flatMap fun item => ',' :: text item) (value first :: items.map value) := by
  induction items generalizing first with
  | nil => exact .last blank_nil here blank_nil
  | cons next rest ih =>
    obtain ⟨second,later⟩ := List.forall_mem_cons.mp each
    exact .more blank_nil here blank_nil (ih second later)

theorem prettyList_enclosed (opening closing : Char) (level : Nat) {items : List α} {text : α → Text}
    (each : ∀ item ∈ items, P (text item) item) : Enclosed opening closing P (prettyList opening closing level (items.map text)) items := by
  refine ⟨_,rfl,?_⟩
  cases items with
  | nil => exact .inl ⟨rfl,blank_nil⟩
  | cons item items => exact .inr (listed_items (margin_blank _) (margin_blank _) (List.cons_ne_nil _ _) each)

end

theorem pretty_denotes (textual : Textual n v) (level : Nat) : Denotes n (pretty n level v) v := by
  induction n generalizing v level with
  | zero =>
    obtain ⟨s,rfl⟩ := textual
    exact ⟨s,rfl,quote_quoted s⟩
  | succ n ih =>
    rcases textual with ⟨s,rfl⟩ | ⟨items,rfl,each⟩ | ⟨fields,rfl,nodup,each⟩
    · exact .inl ⟨s,rfl,quote_quoted s⟩
    · exact .inr (.inl ⟨items,rfl,prettyList_enclosed _ _ _ fun item inside => ih (each item inside) _⟩)
    · refine .inr (.inr ⟨fields,rfl,nodup,prettyList_enclosed _ _ _ fun field inside => ?_⟩)
      refine ⟨quote field.1,[],[' '],_,?_,quote_quoted field.1,blank_nil,?_,ih (each field inside) (level+1)⟩
      · rw [List.append_assoc]
        rfl
      · intro c inside
        rw [List.mem_singleton.mp inside]
        rfl

-- `to_string` of a value, with so many lists and objects within each other at the
-- most: nothing stands between its tokens.
def compact : Nat → Json → Text
  | _,.null => "null".toList
  | _,.bool value => (if value then "true" else "false").toList
  | _,.int value => (if value < 0 then ['-'] else []) ++ Str.decimal value.natAbs
  | _,.float text => text
  | _,.str s => quote s
  | n+1,.arr items => '[' :: ([','].intercalate (items.map (compact n)) ++ [']'])
  | n+1,.obj fields => '{' :: ([','].intercalate (fields.map fun field => quote field.1 ++ ':' :: compact n field.2) ++ ['}'])
  | 0,_ => []

theorem letter_high (c : Char) : ∀ x ∈ letter c, 0x20 ≤ x.toNat := by
  intro x inside
  unfold letter at inside
  split at inside
  · next name e found =>
    have each : (escapes.all fun pair => 0x20 ≤ pair.2.toNat) = true := by decide
    have high : 0x20 ≤ e.toNat := of_decide_eq_true (List.all_eq_true.mp each (name,e) (List.mem_of_find?_eq_some found))
    simp only [List.mem_cons,List.not_mem_nil,or_false] at inside
    rcases inside with rfl | rfl
    · decide
    · exact high
  · split at inside
    · have digit : ∀ n, n < 16 → 0x20 ≤ (Nat.digitChar n).toNat := by decide
      simp only [List.mem_cons,List.not_mem_nil,or_false] at inside
      rcases inside with rfl | rfl | rfl | rfl | rfl | rfl
      · decide
      · decide
      · decide
      · decide
      · exact digit _ (by omega)
      · exact digit _ (by omega)
    · next low =>
      rw [List.mem_singleton.mp inside]
      omega

end PrincessIDE.JsonText
