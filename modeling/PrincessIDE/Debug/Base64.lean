import PrincessIDE.Foundation.Columns

namespace PrincessIDE.Base64
open Utf8

def isAsciiWhitespace (byte : UInt8) : Bool := [9,10,12,13,32].contains byte

def pad : UInt8 := 61

def value (byte : UInt8) : Option Nat :=
  if 65 ≤ byte.toNat ∧ byte.toNat ≤ 90 then some (byte.toNat-65)
  else if 97 ≤ byte.toNat ∧ byte.toNat ≤ 122 then some (byte.toNat-97+26)
  else if 48 ≤ byte.toNat ∧ byte.toNat ≤ 57 then some (byte.toNat-48+52)
  else if byte = 43 then some 62
  else if byte = 47 then some 63
  else none

-- `chunks(4)` and `chunks(3)`
def chunks4 : Bytes → List Bytes
  | [] => []
  | [a] => [[a]]
  | [a,b] => [[a,b]]
  | [a,b,c] => [[a,b,c]]
  | a :: b :: c :: d :: rest => [a,b,c,d] :: chunks4 rest

def chunks3 : Bytes → List Bytes
  | [] => []
  | [a] => [[a]]
  | [a,b] => [[a,b]]
  | a :: b :: c :: rest => [a,b,c] :: chunks3 rest

-- Six more bits; a pad stands for six zeros.
def accumulate (accumulator : Nat) (byte : UInt8) : Option Nat :=
  if byte = pad then some (accumulator*64) else (value byte).map (accumulator*64 + ·)

def byteAt (i n : Nat) : UInt8 := UInt8.ofNat (n / 256^i % 256)

def decodeChunk (chunk : Bytes) : Option Bytes :=
  let padding := chunk.count pad
  if chunk.length < 2 ∨ 2 < padding then none
  else (chunk.foldlM accumulate 0).map fun accumulator =>
    let triple := accumulator * 64^(4-chunk.length)
    byteAt 2 triple :: ((if 2 < chunk.length ∧ padding < 2 then [byteAt 1 triple] else []) ++
      if 3 < chunk.length ∧ padding < 1 then [byteAt 0 triple] else [])

def base64Decode (input : Text) : Option Bytes :=
  ((chunks4 ((encode input).filter (!isAsciiWhitespace ·))).mapM decodeChunk).map List.flatten

def alphabet : Text := "ABCDEFGHIJKLMNOPQRSTUVWXYZabcdefghijklmnopqrstuvwxyz0123456789+/".toList

def letter (v : Nat) : Char := alphabet.getD (v % 64) '='

-- A byte that is not there counts as zero.
def triple (chunk : Bytes) : Nat := (chunk.getD 0 0).toNat*65536 + (chunk.getD 1 0).toNat*256 + (chunk.getD 2 0).toNat

def encodeChunk (chunk : Bytes) : Text :=
  [letter (triple chunk/262144),letter (triple chunk/4096),if 1 < chunk.length then letter (triple chunk/64) else '=',
    if 2 < chunk.length then letter (triple chunk) else '=']

def base64Encode (bytes : Bytes) : Text := (chunks3 bytes).flatMap encodeChunk

def byteOf (c : Char) : UInt8 := UInt8.ofNat c.toNat

-- A text with its whitespace removed.
def stripped (input : Text) : Text := input.filter (!Str.isAsciiWhitespace ·)

theorem letter_congr (same : v % 64 = w % 64) : letter v = letter w := by rw [letter,letter,same]

theorem value_letter (v : Nat) : value (byteOf (letter v)) = some (v % 64) ∧ byteOf (letter v) ≠ pad := by
  have all : ∀ v < 64, value (byteOf (letter v)) = some v ∧ byteOf (letter v) ≠ pad := by decide +kernel
  rw [letter_congr (Nat.mod_mod v 64).symm]
  exact all _ (Nat.mod_lt _ (by decide))

theorem letter_value (known : value byte = some v) : v < 64 ∧ byteOf (letter v) = byte ∧ byte ≠ pad := by
  have all : ∀ n < 256, (value (UInt8.ofNat n)).all (fun v => v < 64 ∧ byteOf (letter v) = UInt8.ofNat n ∧ UInt8.ofNat n ≠ pad) = true := by decide +kernel
  have here := all byte.toNat byte.toNat_lt
  rw [UInt8.ofNat_toNat,known] at here
  simpa using here

theorem whitespace_small (blank : isAsciiWhitespace byte = true) : byte.toNat < 128 := by
  have all : ([9,10,12,13,32] : Bytes).all (·.toNat < 128) = true := by decide
  exact of_decide_eq_true (List.all_eq_true.mp all byte (List.contains_iff_mem.mp blank))

theorem blank_small (white : Str.isAsciiWhitespace c = true) : c.toNat < 128 := by
  have all : ['\t','\n','\x0c','\r',' '].all (·.toNat < 128) = true := by decide
  exact of_decide_eq_true (List.all_eq_true.mp all c (List.contains_iff_mem.mp white))

-- The filter of the bytes is that of the characters: only ASCII bytes are removed.
theorem encode_stripped (input : Text) : encode (stripped input) = (encode input).filter (!isAsciiWhitespace ·) := by
  induction input with
  | nil => rfl
  | cons c input ih =>
    have split : ∀ rest, encode (c::rest) = encode [c] ++ encode rest := encode_append [c]
    rw [split,List.filter_append,← ih,stripped,List.filter_cons]
    by_cases ascii : c.toNat < 128
    · have byte : encode [c] = [byteOf c] := encode_ascii (by simpa using ascii)
      have same : isAsciiWhitespace (byteOf c) = Str.isAsciiWhitespace c := by
        have all : ∀ n < 128, isAsciiWhitespace (byteOf (Char.ofNat n)) = Str.isAsciiWhitespace (Char.ofNat n) := by decide +kernel
        rw [← Char.ofNat_toNat c]
        exact all c.toNat ascii
      rw [byte,List.filter_singleton,same]
      cases Str.isAsciiWhitespace c with
      | true => rfl
      | false =>
        rw [Bool.not_false,if_pos rfl,split,byte]
        rfl
    · have kept : (encode [c]).filter (!isAsciiWhitespace ·) = encode [c] := by
        rw [List.filter_eq_self]
        intro b member
        cases white : isAsciiWhitespace b with
        | false => rfl
        | true =>
          have small := whitespace_small white
          have inside := List.mem_singleton.mp (ascii_encode small member)
          have value : (Char.ofNat b.toNat).val.toNat = b.toNat := toNat_ofNat (.inl (by omega))
          rw [inside] at value
          exact absurd (Nat.lt_of_le_of_lt (Nat.le_of_eq value) small) ascii
      have solid : Str.isAsciiWhitespace c = false := Bool.eq_false_iff.mpr fun white => ascii (blank_small white)
      rw [kept,solid,Bool.not_false,if_pos rfl]
      exact split (stripped input)

-- The letters as bytes.
def written (chunk : Bytes) : Bytes := (encodeChunk chunk).map byteOf

theorem written_parts (chunk : Bytes) : ∃ a b c d, written chunk = [a,b,c,d] := ⟨_,_,_,_,rfl⟩

theorem accumulate_value (known : value byte = some v) (accumulator : Nat) : accumulate accumulator byte = some (accumulator*64+v) := by
  rw [accumulate,if_neg (letter_value known).2.2,known]
  rfl

theorem accumulate_pad (accumulator : Nat) : accumulate accumulator pad = some (accumulator*64) := if_pos rfl

theorem byteAt_toNat (i n : Nat) : (byteAt i n).toNat = n / 256^i % 256 := by
  rw [byteAt,UInt8.toNat_ofNat']
  omega

theorem byteAt_eq {b : UInt8} (same : n / 256^i % 256 = b.toNat) : byteAt i n = b := UInt8.toNat.inj ((byteAt_toNat i n).trans same)

-- Four letters are three bytes.
theorem decodeChunk_whole (one : value a = some v) (two : value b = some w) (three : value c = some x) (four : value d = some y) :
    decodeChunk [a,b,c,d] = some [byteAt 2 (((v*64+w)*64+x)*64+y),byteAt 1 (((v*64+w)*64+x)*64+y),byteAt 0 (((v*64+w)*64+x)*64+y)] := by
  have none : [a,b,c,d].count pad = 0 := by
    rw [List.count_eq_zero]
    simp [(letter_value one).2.2.symm,(letter_value two).2.2.symm,(letter_value three).2.2.symm,(letter_value four).2.2.symm]
  have sum : [a,b,c,d].foldlM accumulate 0 = some (((v*64+w)*64+x)*64+y) := by
    simp [accumulate_value one,accumulate_value two,accumulate_value three,accumulate_value four]
  unfold decodeChunk
  rw [none,sum]
  simp

theorem decodeChunk_padded (one : value a = some v) (two : value b = some w) (three : value c = some x) :
    decodeChunk [a,b,c,pad] = some [byteAt 2 (((v*64+w)*64+x)*64),byteAt 1 (((v*64+w)*64+x)*64)] := by
  have once : [a,b,c,pad].count pad = 1 := by
    simp [(letter_value one).2.2,(letter_value two).2.2,(letter_value three).2.2]
  have sum : [a,b,c,pad].foldlM accumulate 0 = some (((v*64+w)*64+x)*64) := by
    simp [accumulate_value one,accumulate_value two,accumulate_value three,accumulate_pad]
  unfold decodeChunk
  rw [once,sum]
  simp

theorem decodeChunk_twice (one : value a = some v) (two : value b = some w) :
    decodeChunk [a,b,pad,pad] = some [byteAt 2 (((v*64+w)*64)*64)] := by
  have twice : [a,b,pad,pad].count pad = 2 := by
    simp [(letter_value one).2.2,(letter_value two).2.2]
  have sum : [a,b,pad,pad].foldlM accumulate 0 = some (((v*64+w)*64)*64) := by
    simp [accumulate_value one,accumulate_value two,accumulate_pad]
  unfold decodeChunk
  rw [twice,sum]
  simp

-- The letters are those of the twenty-four bits.
theorem written_one (sum : triple [a] = n) : written [a] = [byteOf (letter (n/262144)),byteOf (letter (n/4096)),pad,pad] := by
  subst sum
  rfl

theorem written_two (sum : triple [a,b] = n) :
    written [a,b] = [byteOf (letter (n/262144)),byteOf (letter (n/4096)),byteOf (letter (n/64)),pad] := by
  subst sum
  rfl

theorem written_three (sum : triple [a,b,c] = n) :
    written [a,b,c] = [byteOf (letter (n/262144)),byteOf (letter (n/4096)),byteOf (letter (n/64)),byteOf (letter n)] := by
  subst sum
  rfl

theorem decode_written (some : chunk ≠ []) (short : chunk.length ≤ 3) : decodeChunk (written chunk) = .some chunk := by
  match chunk,some,short with
  | [a],_,_ =>
    have small := a.toNat_lt
    have sum : triple [a] = a.toNat*65536 := by simp [triple]
    rw [written_one sum,decodeChunk_twice (value_letter _).1 (value_letter _).1]
    simp only [Option.some.injEq,List.cons.injEq,and_true]
    exact byteAt_eq (by omega)
  | [a,b],_,_ =>
    have one := a.toNat_lt
    have two := b.toNat_lt
    have sum : triple [a,b] = a.toNat*65536 + b.toNat*256 := by simp [triple]
    rw [written_two sum,decodeChunk_padded (value_letter _).1 (value_letter _).1 (value_letter _).1]
    simp only [Option.some.injEq,List.cons.injEq,and_true]
    exact ⟨byteAt_eq (by omega),byteAt_eq (by omega)⟩
  | [a,b,c],_,_ =>
    have one := a.toNat_lt
    have two := b.toNat_lt
    have three := c.toNat_lt
    have sum : triple [a,b,c] = a.toNat*65536 + b.toNat*256 + c.toNat := by simp [triple]
    rw [written_three sum,decodeChunk_whole (value_letter _).1 (value_letter _).1 (value_letter _).1 (value_letter _).1]
    simp only [Option.some.injEq,List.cons.injEq,and_true]
    exact ⟨byteAt_eq (by omega),byteAt_eq (by omega),byteAt_eq (by omega)⟩

theorem letter_plain (v : Nat) : (letter v).toNat < 128 ∧ isAsciiWhitespace (byteOf (letter v)) = false := by
  have all : ∀ v < 64, (letter v).toNat < 128 ∧ isAsciiWhitespace (byteOf (letter v)) = false := by decide +kernel
  rw [letter_congr (Nat.mod_mod v 64).symm]
  exact all _ (Nat.mod_lt _ (by decide))

theorem encodeChunk_plain (member : c ∈ encodeChunk chunk) : c.toNat < 128 ∧ isAsciiWhitespace (byteOf c) = false := by
  have equals : '='.toNat < 128 ∧ isAsciiWhitespace (byteOf '=') = false := by decide
  simp only [encodeChunk,List.mem_cons,List.not_mem_nil,or_false] at member
  rcases member with rfl | rfl | rfl | rfl
  · exact letter_plain _
  · exact letter_plain _
  · split
    · exact letter_plain _
    · exact equals
  · split
    · exact letter_plain _
    · exact equals

theorem encode_base64 (bytes : Bytes) : encode (base64Encode bytes) = (chunks3 bytes).flatMap written := by
  rw [encode_ascii,base64Encode,List.map_flatMap]
  · rfl
  · intro c member
    obtain ⟨chunk,_,inside⟩ := List.mem_flatMap.mp member
    exact (encodeChunk_plain inside).1

theorem written_solid (chunks : List Bytes) : (chunks.flatMap written).filter (!isAsciiWhitespace ·) = chunks.flatMap written := by
  rw [List.filter_eq_self]
  intro byte member
  obtain ⟨chunk,_,inside⟩ := List.mem_flatMap.mp member
  obtain ⟨c,letter,rfl⟩ := List.mem_map.mp inside
  rw [(encodeChunk_plain letter).2]
  rfl

theorem chunks4_written (chunks : List Bytes) : chunks4 (chunks.flatMap written) = chunks.map written := by
  induction chunks with
  | nil => rfl
  | cons chunk chunks ih =>
    obtain ⟨a,b,c,d,shape⟩ := written_parts chunk
    rw [List.flatMap_cons,List.map_cons,← ih,shape]
    rfl

theorem chunks3_short (bytes : Bytes) : ∀ chunk ∈ chunks3 bytes, chunk ≠ [] ∧ chunk.length ≤ 3 := by
  induction bytes using chunks3.induct with
  | case1 => exact List.forall_mem_nil _
  | case2 a | case3 a b => simp [chunks3]
  | case4 a b c rest ih => exact List.forall_mem_cons.mpr ⟨by simp,ih⟩

theorem chunks3_flatten (bytes : Bytes) : (chunks3 bytes).flatten = bytes := by
  induction bytes using chunks3.induct with
  | case1 | case2 a | case3 a b => rfl
  | case4 a b c rest ih => rw [chunks3,List.flatten_cons,ih]; rfl

theorem chunks4_flatten (bytes : Bytes) : (chunks4 bytes).flatten = bytes := by
  induction bytes using chunks4.induct with
  | case1 | case2 a | case3 a b | case4 a b c => rfl
  | case5 a b c d rest ih => rw [chunks4,List.flatten_cons,ih]; rfl

theorem decode_chunks {chunks : List Bytes} (short : ∀ chunk ∈ chunks, chunk ≠ [] ∧ chunk.length ≤ 3) : (chunks.map written).mapM decodeChunk = some chunks := by
  induction chunks with
  | nil => rfl
  | cons chunk chunks ih =>
    obtain ⟨here,later⟩ := List.forall_mem_cons.mp short
    rw [List.map_cons,List.mapM_cons,decode_written here.1 here.2,ih later]
    rfl

theorem decode_encode (bytes : Bytes) : base64Decode (base64Encode bytes) = some bytes := by
  rw [base64Decode,encode_base64,written_solid,chunks4_written,decode_chunks (chunks3_short bytes),Option.map_some,chunks3_flatten]

-- The groups of the stripped text.
def groups (input : Text) : List Bytes := chunks4 (encode (stripped input))

def whole : Bytes → Bool
  | [a,b,c,d] => (value a).isSome && (value b).isSome && (value c).isSome && (value d).isSome
  | _ => false

-- A group with padding, and zeros in the bits behind its last byte.
def closing : Bytes → Bool
  | [a,b,c,d] => (value a).isSome && d == pad &&
    if c = pad then (value b).any (· % 16 = 0) else (value b).isSome && (value c).any (· % 4 = 0)
  | _ => false

def canonical : List Bytes → Bool
  | [] => true
  | [group] => whole group || closing group
  | group :: later => whole group && canonical later

def rejected (groups : List Bytes) : Bool := groups.any fun group =>
  group.length < 2 || 2 < group.count pad || group.any fun byte => byte != pad && (value byte).isNone

theorem accumulate_none (bytes : Bytes) (accumulator : Nat) :
    bytes.foldlM accumulate accumulator = none ↔ (bytes.any fun byte => byte != pad && (value byte).isNone) = true := by
  induction bytes generalizing accumulator with
  | nil => simp
  | cons byte bytes ih =>
    rw [List.foldlM_cons,List.any_cons]
    by_cases padding : byte = pad
    · rw [padding,accumulate_pad]
      simpa using ih (accumulator*64)
    · cases known : value byte with
      | none => simp [accumulate,padding,known]
      | some v =>
        rw [accumulate_value known]
        simpa using ih (accumulator*64+v)

theorem decodeChunk_none (group : Bytes) : decodeChunk group = none ↔ rejected [group] = true := by
  rw [decodeChunk,rejected,List.any_cons,List.any_nil,Bool.or_false]
  by_cases shape : group.length < 2 ∨ 2 < group.count pad
  · rw [if_pos shape]
    rcases shape with short | many
    · simp [short]
    · simp [many]
  · rw [if_neg shape,Option.map_eq_none_iff,accumulate_none]
    obtain ⟨long,few⟩ := not_or.mp shape
    simp [long,few]

theorem rejected_cons (group : Bytes) (later : List Bytes) : rejected (group::later) = (rejected [group] || rejected later) := by
  simp [rejected]

theorem mapM_none (chunks : List Bytes) : chunks.mapM decodeChunk = none ↔ rejected chunks = true := by
  induction chunks with
  | nil => simp [rejected]
  | cons group chunks ih =>
    rw [List.mapM_cons,rejected_cons,Bool.or_eq_true,← decodeChunk_none,← ih]
    cases decodeChunk group with
    | none => simp
    | some bytes => cases chunks.mapM decodeChunk <;> simp

theorem decode_groups (input : Text) : base64Decode input = ((groups input).mapM decodeChunk).map List.flatten := by
  rw [base64Decode,groups,encode_stripped]

theorem decode_none (input : Text) : base64Decode input = none ↔ rejected (groups input) = true := by
  rw [decode_groups,Option.map_eq_none_iff,mapM_none]

theorem written_whole (group : whole chunk = true) : ∃ a b c, decodeChunk chunk = some [a,b,c] ∧ written [a,b,c] = chunk := by
  unfold whole at group
  split at group
  · rename_i a b c d
    simp only [Bool.and_eq_true,Option.isSome_iff_exists] at group
    obtain ⟨⟨⟨⟨v,one⟩,⟨w,two⟩⟩,⟨x,three⟩⟩,⟨y,four⟩⟩ := group
    refine ⟨_,_,_,decodeChunk_whole one two three four,?_⟩
    obtain ⟨v64,first,_⟩ := letter_value one
    obtain ⟨w64,second,_⟩ := letter_value two
    obtain ⟨x64,third,_⟩ := letter_value three
    obtain ⟨y64,fourth,_⟩ := letter_value four
    generalize sum : ((v*64+w)*64+x)*64+y = n
    have back : triple [byteAt 2 n,byteAt 1 n,byteAt 0 n] = n := by
      simp only [triple,List.getD_cons_zero,List.getD_cons_succ,byteAt_toNat]
      omega
    rw [written_three back,letter_congr (w:=v) (by omega),first,letter_congr (w:=w) (by omega),second,
      letter_congr (w:=x) (by omega),third,letter_congr (w:=y) (by omega),fourth]
  · cases group

theorem written_closing (group : closing chunk = true) :
    ∃ bytes, decodeChunk chunk = some bytes ∧ chunks3 bytes = [bytes] ∧ written bytes = chunk := by
  unfold closing at group
  split at group
  · rename_i a b c d
    simp only [Bool.and_eq_true,beq_iff_eq,Option.isSome_iff_exists] at group
    obtain ⟨⟨⟨v,one⟩,rfl⟩,rest⟩ := group
    obtain ⟨v64,first,_⟩ := letter_value one
    split at rest
    · rename_i twice
      obtain ⟨w,two,zero⟩ := (Option.any_eq_true _ _).mp rest
      obtain ⟨w64,second,_⟩ := letter_value two
      have zeros : w % 16 = 0 := of_decide_eq_true zero
      rw [twice]
      refine ⟨_,decodeChunk_twice one two,rfl,?_⟩
      generalize sum : ((v*64+w)*64)*64 = n
      have back : triple [byteAt 2 n] = n := by
        simp [triple,byteAt_toNat]
        omega
      rw [written_one back,letter_congr (w:=v) (by omega),first,letter_congr (w:=w) (by omega),second]
    · obtain ⟨isValue,third⟩ := Bool.and_eq_true_iff.mp rest
      obtain ⟨w,two⟩ := Option.isSome_iff_exists.mp isValue
      obtain ⟨x,three,zero⟩ := (Option.any_eq_true _ _).mp third
      obtain ⟨w64,second,_⟩ := letter_value two
      obtain ⟨x64,last,_⟩ := letter_value three
      have zeros : x % 4 = 0 := of_decide_eq_true zero
      refine ⟨_,decodeChunk_padded one two three,rfl,?_⟩
      generalize sum : ((v*64+w)*64+x)*64 = n
      have back : triple [byteAt 2 n,byteAt 1 n] = n := by
        simp [triple,byteAt_toNat]
        omega
      rw [written_two back,letter_congr (w:=v) (by omega),first,letter_congr (w:=w) (by omega),second,
        letter_congr (w:=x) (by omega),last]
  · cases group

-- Canonical groups decode, and their bytes are written as these groups again.
theorem decode_canonical {groups : List Bytes} (fine : canonical groups = true) :
    ∃ chunks, groups.mapM decodeChunk = some chunks ∧ (chunks3 chunks.flatten).map written = groups := by
  induction groups with
  | nil => exact ⟨[],rfl,rfl⟩
  | cons group later ih =>
    have first : (∃ a b c, decodeChunk group = some [a,b,c] ∧ written [a,b,c] = group) ∧ canonical later = true ∨
        closing group = true ∧ later = [] := by
      cases later with
      | nil => exact (Bool.or_eq_true_iff.mp fine).imp (⟨written_whole ·,rfl⟩) (⟨·,rfl⟩)
      | cons next later =>
        obtain ⟨here,rest⟩ := Bool.and_eq_true_iff.mp fine
        exact .inl ⟨written_whole here,rest⟩
    rcases first with ⟨⟨a,b,c,decoded,same⟩,rest⟩ | ⟨last,rfl⟩
    · obtain ⟨chunks,found,back⟩ := ih rest
      refine ⟨[a,b,c]::chunks,?_,?_⟩
      · rw [List.mapM_cons,decoded,found]
        rfl
      · have split : chunks3 ([a,b,c]::chunks).flatten = [a,b,c] :: chunks3 chunks.flatten := rfl
        rw [split,List.map_cons,back,same]
    · obtain ⟨bytes,decoded,alone,same⟩ := written_closing last
      refine ⟨[bytes],?_,?_⟩
      · rw [List.mapM_cons,decoded]
        rfl
      · rw [List.flatten_singleton,alone,List.map_singleton,same]

theorem canonical_cons {later : List Bytes} (group : whole chunk = true) (rest : canonical later = true) : canonical (chunk::later) = true := by
  cases later with
  | nil => rw [canonical,group]; rfl
  | cons next later => exact Bool.and_eq_true_iff.mpr ⟨group,rest⟩

theorem closing_one (a : UInt8) : closing (written [a]) = true := by
  have bits : triple [a] / 4096 % 64 % 16 = 0 := by
    simp only [triple,List.getD_cons_zero,List.getD_cons_succ,List.getD_nil,UInt8.toNat_zero]
    omega
  rw [written_one rfl,closing,(value_letter _).1,(value_letter _).1,if_pos rfl,Option.any_some,bits]
  rfl

theorem closing_two (a b : UInt8) : closing (written [a,b]) = true := by
  have bits : triple [a,b] / 64 % 64 % 4 = 0 := by
    simp only [triple,List.getD_cons_zero,List.getD_cons_succ,List.getD_nil,UInt8.toNat_zero]
    omega
  rw [written_two rfl,closing,(value_letter _).1,(value_letter _).1,(value_letter _).1,if_neg (value_letter _).2,Option.any_some,bits]
  rfl

theorem whole_three (a b c : UInt8) : whole (written [a,b,c]) = true := by
  rw [written_three rfl,whole,(value_letter _).1,(value_letter _).1,(value_letter _).1,(value_letter _).1]
  rfl

theorem canonical_written (bytes : Bytes) : canonical ((chunks3 bytes).map written) = true := by
  induction bytes using chunks3.induct with
  | case1 => rfl
  | case2 a => rw [chunks3,List.map_singleton,canonical,closing_one,Bool.or_true]
  | case3 a b => rw [chunks3,List.map_singleton,canonical,closing_two,Bool.or_true]
  | case4 a b c rest ih =>
    rw [chunks3,List.map_cons]
    exact canonical_cons (whole_three a b c) ih

theorem groups_encoded (same : base64Encode bytes = stripped input) : groups input = (chunks3 bytes).map written := by
  rw [groups,← same,encode_base64,chunks4_written]

theorem encoded_groups (same : (chunks3 bytes).map written = groups input) : base64Encode bytes = stripped input := by
  have plain : encode (base64Encode bytes) = encode (stripped input) := by
    rw [encode_base64,List.flatMap_def,same,groups,chunks4_flatten]
  rw [← lossy_encode (base64Encode bytes),plain,lossy_encode]

theorem round_trip_iff (bytes : Bytes) (input : Text) : base64Decode (base64Encode bytes) = some bytes ∧
    ((∀ decoded, base64Decode input = some decoded → base64Encode decoded = stripped input) ↔
      rejected (groups input) = true ∨ canonical (groups input) = true) := by
  refine ⟨decode_encode bytes,?_,?_⟩
  · intro faithful
    cases found : base64Decode input with
    | none => exact .inl ((decode_none input).mp found)
    | some decoded =>
      rw [groups_encoded (faithful decoded found)]
      exact .inr (canonical_written decoded)
  · intro condition decoded found
    rcases condition with bad | fine
    · rw [(decode_none input).mpr bad] at found
      cases found
    · obtain ⟨chunks,parts,back⟩ := decode_canonical fine
      rw [decode_groups,parts] at found
      cases found
      exact encoded_groups back

-- The bits of the `R` behind the last byte are lost, and the pads are asked for neither at the end nor only there.
theorem trailing_bits_accepted :
    (base64Decode "QR==".toList = some [65] ∧ base64Encode [65] ≠ stripped "QR==".toList) ∧
    (base64Decode "QQ".toList = some [65] ∧ base64Encode [65] ≠ stripped "QQ".toList) ∧
    base64Decode "QQ==QUFB".toList = some [65,65,65,65] ∧ base64Encode [65,65,65,65] ≠ stripped "QQ==QUFB".toList := by
  refine ⟨⟨?_,?_⟩,⟨?_,?_⟩,?_,?_⟩ <;> decide +kernel

end PrincessIDE.Base64
