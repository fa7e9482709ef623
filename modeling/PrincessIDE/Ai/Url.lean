import PrincessIDE.Ai.Http
import PrincessIDE.Build.Printed

namespace PrincessIDE.Http
open Utf8 (Text)
open Str Error
open Diagnostics (rsplitOnce rsplitOnce_char rsplitOnce_eq)

structure ParsedUrl where
  host : Text
  port : Nat
  target : Text
  tls : Bool
deriving DecidableEq, Repr

def portOf (t : Text) : Option Nat := fromStrRadix 10 u16 t

-- The host and the port of an authority.
def splitAuthority (authority : Text) : Text × Nat :=
  match (stripPrefix ['['] authority).bind fun _ => splitOnce [']'] authority with
  | some (front,rest) => (front.drop 1,((stripPrefix [':'] rest).bind portOf).getD 80)
  | none => match rsplitOnce ':' authority with
    | some (host,port) => match portOf port with
      | some port => (host,port)
      | none => (authority,80)
    | none => (authority,80)

def splitTarget (rest : Text) : Text × Text := match splitOnce ['/'] rest with
  | some (authority,path) => (authority,'/' :: path)
  | none => (rest,['/'])

-- `quoted` is what `{:?}` makes of a text.
def parseUrl (quoted : Text → Text) (url : Text) : Except PrincessError ParsedUrl := match splitOnce "://".toList url with
  | none => .error ((PrincessError.new .invalidConfig ("AI base_url is not an absolute URL: ".toList ++ quoted url)).withDetail
      "expected `http://host[:port]/path` (this build speaks plain HTTP only)".toList)
  | some (scheme,rest) =>
    let scheme := scheme.map toAsciiLowercase
    if scheme ≠ "http".toList ∧ scheme ≠ "https".toList then
      .error ((PrincessError.new .invalidConfig ("unsupported AI endpoint scheme ".toList ++ quoted scheme)).withDetail ("URL: ".toList ++ url))
    else
      let (authority,target) := splitTarget rest
      if authority = [] then .error (PrincessError.new .invalidConfig ("AI endpoint has no host: ".toList ++ quoted url))
      else .ok ⟨(splitAuthority authority).1,(splitAuthority authority).2,target,scheme = "https".toList⟩

def hostHeader (parsed : ParsedUrl) : Text :=
  if parsed.port = 80 then parsed.host else parsed.host ++ ':' :: decimal parsed.port

structure SocketAddr where
  text : Text
  isIpv4 : Bool
deriving DecidableEq, Repr

-- What `resolve` asks the resolver for.
def authorityOf (parsed : ParsedUrl) : Text := parsed.host ++ ':' :: decimal parsed.port

def resolve (toSocketAddrs : Text → Except Text (List SocketAddr)) (parsed : ParsedUrl) (url : Text) : Except PrincessError SocketAddr :=
  match toSocketAddrs (authorityOf parsed) with
  | .error e => .error (forTransport ("resolving ".toList ++ parsed.host) e)
  | .ok addrs => match (addrs.find? SocketAddr.isIpv4).or addrs.getLast? with
    | some addr => .ok addr
    | none => .error ((forTransport ("resolving ".toList ++ parsed.host) ("no address for ".toList ++ parsed.host)).withDetail url)

-- An IPv6 literal in its brackets, with whatever is behind them.
def Bracketed (authority : Text) : Prop := authority.head? = some '[' ∧ ']' ∈ authority

-- The host an authority names and the text of its port.
inductive Names : Text → Text → Option Text → Prop where
  | literal (rest : Text) : ']' ∉ host → Names ('[' :: host ++ ']' :: rest) host (stripPrefix [':'] rest)
  | port : ¬ Bracketed (host ++ ':' :: port) → ':' ∉ port → Names (host ++ ':' :: port) host (some port)
  | plain : ¬ Bracketed host → ':' ∉ host → Names host host none

-- A text that a parser could take for a host and its port.
def EndsPort (t : Text) : Prop := ∃ front port n, t = front ++ ':' :: port ∧ portOf port = some n

theorem names_exist (authority : Text) : ∃ host port, Names authority host port := by
  by_cases bracketed : Bracketed authority
  · obtain ⟨open',close⟩ := bracketed
    cases authority with
    | nil => cases open'
    | cons c t =>
      cases open'
      have inside : ']' ∈ t := (List.mem_cons.mp close).resolve_left (by decide)
      obtain ⟨host,rest,rfl,absent⟩ := List.eq_append_cons_of_mem inside
      exact ⟨host,_,.literal rest absent⟩
  · by_cases colon : ':' ∈ authority
    · have back : ':' ∈ authority.reverse := List.mem_reverse.mpr colon
      obtain ⟨a,b,whole,absent⟩ := List.eq_append_cons_of_mem back
      have split : authority = b.reverse ++ ':' :: a.reverse := by
        have reversed := congrArg List.reverse whole
        rw [List.reverse_reverse] at reversed
        rw [reversed]
        simp
      rw [split] at bracketed ⊢
      exact ⟨_,_,.port bracketed fun inside => absent (List.mem_reverse.mp inside)⟩
    · exact ⟨authority,none,.plain bracketed colon⟩

theorem unbracketed (open' : ¬ Bracketed authority) : ((stripPrefix ['['] authority).bind fun _ => splitOnce [']'] authority) = none := by
  cases front : stripPrefix ['['] authority with
  | none => rfl
  | some rest =>
    have close : ']' ∉ authority := fun inside => open' ⟨by rw [stripPrefix_eq front]; rfl,inside⟩
    exact splitOnce_none close (List.mem_singleton.mpr rfl)

theorem digits_colon (read : readDigits 10 bound v t = some n) : ':' ∉ t := by
  intro inside
  rw [readDigits_stopped (by decide) inside] at read
  cases read

theorem portOf_colon (read : portOf port = some n) : ':' ∉ port := by
  unfold portOf fromStrRadix at read
  split at read
  · cases read
  · next c digits =>
    split at read
    · next plus =>
      split at read
      · cases read
      · subst plus
        exact fun inside => digits_colon read ((List.mem_cons.mp inside).resolve_left (by decide))
    · exact digits_colon read

-- Where the port is a number, or there is none, the parser reads what is named.
theorem splitAuthority_names (names : Names authority host port) (read : ∀ t, port = some t → portOf t ≠ none) :
    splitAuthority authority = (host,(port.bind portOf).getD 80) := by
  cases names with
  | literal rest absent =>
    have cut : splitOnce [']'] ('[' :: host ++ ']' :: rest) = some ('[' :: host,rest) :=
      splitOnce_char (fun inside => (List.mem_cons.mp inside).elim (by decide) absent) rest
    have front : stripPrefix ['['] ('[' :: host ++ ']' :: rest) = some (host ++ ']' :: rest) := rfl
    unfold splitAuthority
    rw [front,Option.bind_some,cut]
    rfl
  | port bracketed plain =>
    unfold splitAuthority
    rw [unbracketed bracketed,rsplitOnce_char plain]
    dsimp only [Option.bind_some]
    cases found : portOf _ with
    | none => exact absurd found (read _ rfl)
    | some n => rfl
  | plain bracketed colon =>
    have none : rsplitOnce ':' authority = none := by
      unfold rsplitOnce
      rw [splitOnce_none (fun inside => colon (List.mem_reverse.mp inside)) (List.mem_singleton.mpr rfl)]
      rfl
    unfold splitAuthority
    rw [unbracketed bracketed,none]
    rfl
-- No host that is named reads as a literal in brackets.
theorem named_open (names : Names authority host port) : ¬ Bracketed host := by
  cases names with
  | literal rest absent => exact fun bracketed => absent bracketed.2
  | plain bracketed _ => exact bracketed
  | port bracketed _ =>
    rintro ⟨front,close⟩
    refine bracketed ⟨?_,List.mem_append_left _ close⟩
    cases host with
    | nil => cases front
    | cons c host => exact front

theorem named_within (names : Names authority host port) : ∀ c ∈ host, c ∈ authority := by
  intro c inside
  cases names with
  | literal rest absent => simp [inside]
  | plain => exact inside
  | port => simp [inside]

theorem decimal_plain (n : Nat) : ':' ∉ decimal n ∧ ']' ∉ decimal n ∧ '/' ∉ decimal n := by
  refine ⟨fun inside => ?_,fun inside => ?_,fun inside => ?_⟩
  all_goals exact absurd (decimal_isDigit inside) (by decide)

-- A host with its port behind it is named by both.
theorem names_rendered (open' : ¬ Bracketed host) (n : Nat) : Names (host ++ ':' :: decimal n) host (some (decimal n)) := by
  refine .port ?_ (decimal_plain n).1
  rintro ⟨front,close⟩
  have inside : ']' ∈ host := (List.mem_append.mp close).resolve_right fun later =>
    (List.mem_cons.mp later).elim (by decide) (decimal_plain n).2.1
  cases host with
  | nil => cases inside
  | cons c host => exact open' ⟨front,inside⟩

theorem splitTarget_rendered (plain : '/' ∉ authority) (path : Text) : splitTarget (authority ++ '/' :: path) = (authority,'/' :: path) := by
  unfold splitTarget
  rw [splitOnce_char plain]

-- What parsing the rendered URL gives: the scheme and the target are those it was made from.
theorem parse_rendered (quoted : Text → Text) (plain : '/' ∉ authority) (some : authority ≠ []) (path : Text) :
    parseUrl quoted ("http://".toList ++ (authority ++ '/' :: path)) =
      .ok ⟨(splitAuthority authority).1,(splitAuthority authority).2,'/' :: path,false⟩ := by
  have cut : splitOnce "://".toList ("http://".toList ++ (authority ++ '/' :: path)) = .some ("http".toList,authority ++ '/' :: path) := rfl
  unfold parseUrl
  rw [cut]
  dsimp only
  rw [if_neg (by decide),splitTarget_rendered plain]
  dsimp only
  rw [if_neg some]
  rfl

-- A URL that gives the host and the port of another.
def Reparses (quoted : Text → Text) (p : ParsedUrl) (authority : Text) : Prop :=
  ∃ q, parseUrl quoted ("http://".toList ++ (authority ++ p.target)) = .ok q ∧ q.host = p.host ∧ q.port = p.port

-- The authority of a URL with one of the two schemes.
def HasAuthority (url authority : Text) : Prop := ∃ scheme rest, splitOnce "://".toList url = some (scheme,rest) ∧
  (scheme.map toAsciiLowercase = "http".toList ∨ scheme.map toAsciiLowercase = "https".toList) ∧
  authority = rest.takeWhile (· ≠ '/') ∧ authority ≠ []

theorem splitTarget_take (rest : Text) : (splitTarget rest).1 = rest.takeWhile (· ≠ '/') ∧ ∃ path, (splitTarget rest).2 = '/' :: path := by
  by_cases slash : '/' ∈ rest
  · obtain ⟨a,b,rfl,absent⟩ := List.eq_append_cons_of_mem slash
    rw [splitTarget_rendered absent]
    refine ⟨?_,b,rfl⟩
    rw [List.takeWhile_append_of_pos (fun c inside => by simpa using fun same : c = '/' => absent (same ▸ inside))]
    simp
  · have whole : splitTarget rest = (rest,['/']) := by
      unfold splitTarget
      rw [splitOnce_none slash (List.mem_singleton.mpr rfl)]
    rw [whole]
    refine ⟨?_,[],rfl⟩
    exact (List.takeWhile_eq_self_iff.mpr fun c inside => by simpa using fun same : c = '/' => slash (same ▸ inside)).symm

-- A URL is accepted exactly if it has an authority, and that is where its host and port are from.
theorem parse_authority (parsed : parseUrl quoted url = .ok p) :
    ∃ authority, HasAuthority url authority ∧ p.host = (splitAuthority authority).1 ∧ p.port = (splitAuthority authority).2 ∧ ∃ path, p.target = '/' :: path := by
  unfold parseUrl at parsed
  split at parsed
  · cases parsed
  · next scheme rest cut =>
    dsimp only at parsed
    split at parsed
    · cases parsed
    · next known =>
      split at parsed
      · cases parsed
      · next some =>
        cases parsed
        obtain ⟨taken,target⟩ := splitTarget_take rest
        refine ⟨_,⟨scheme,rest,cut,?_,taken,some⟩,rfl,rfl,target⟩
        by_contra other
        exact known (not_or.mp other)

theorem authority_parses (quoted : Text → Text) (has : HasAuthority url authority) :
    ∃ p, parseUrl quoted url = .ok p ∧ p.host = (splitAuthority authority).1 ∧ p.port = (splitAuthority authority).2 ∧ ∃ path, p.target = '/' :: path := by
  obtain ⟨scheme,rest,cut,known,taken,some⟩ := has
  obtain ⟨front,target⟩ := splitTarget_take rest
  rw [← taken] at front
  have scheme' : ¬ (scheme.map toAsciiLowercase ≠ "http".toList ∧ scheme.map toAsciiLowercase ≠ "https".toList) := fun ⟨one,other⟩ => known.elim one other
  unfold parseUrl
  rw [cut]
  dsimp only
  rw [if_neg scheme',front,if_neg some]
  exact ⟨_,rfl,rfl,rfl,target⟩

theorem authority_unique (one : HasAuthority url a) (other : HasAuthority url b) : a = b := by
  obtain ⟨_,_,cut,_,rfl,_⟩ := one
  obtain ⟨_,_,cut',_,rfl,_⟩ := other
  rw [cut] at cut'
  cases cut'
  rfl

theorem authority_plain (has : HasAuthority url authority) : '/' ∉ authority := by
  obtain ⟨_,rest,_,_,rfl,_⟩ := has
  intro inside
  have kept := List.mem_takeWhile_imp inside
  simp at kept

-- With its port behind it a host is read back.
theorem port_reparses (quoted : Text → Text) (open' : ¬ Bracketed host) (plain : '/' ∉ host) (small : n < u16) (path : Text) (tls : Bool) :
    Reparses quoted ⟨host,n,'/' :: path,tls⟩ (host ++ ':' :: decimal n) := by
  have read : portOf (decimal n) = some n := fromStrRadix_decimal small
  have parts := splitAuthority_names (names_rendered open' n) fun t same => by
    cases same
    rw [read]
    exact Option.some_ne_none n
  rw [Option.bind_some,read] at parts
  have slashless : '/' ∉ host ++ ':' :: decimal n := fun inside => (List.mem_append.mp inside).elim plain fun later =>
    (List.mem_cons.mp later).elim (by decide) (decimal_plain n).2.2
  exact ⟨_,parse_rendered quoted slashless (by simp) path,by rw [parts],by rw [parts]; rfl⟩

-- Alone it is, if there is one and it does not end in a port.
theorem host_reparses (quoted : Text → Text) (open' : ¬ Bracketed host) (plain : '/' ∉ host) (path : Text) (tls : Bool) :
    Reparses quoted ⟨host,80,'/' :: path,tls⟩ host ↔ host ≠ [] ∧ ¬ EndsPort host := by
  have reads : splitAuthority host = match rsplitOnce ':' host with
      | some (front,port) => match portOf port with
        | some port => (front,port)
        | none => (host,80)
      | none => (host,80) := by
    unfold splitAuthority
    rw [unbracketed open']
  constructor
  · rintro ⟨q,parsed,same,_⟩
    constructor
    · rintro rfl
      cases parsed
    · rintro ⟨front,port,n,rfl,read⟩
      have parts : splitAuthority (front ++ ':' :: port) = (front,n) := by
        rw [reads,rsplitOnce_char (portOf_colon read)]
        dsimp only
        rw [read]
      rw [parse_rendered quoted plain (by simp) path,parts] at parsed
      cases parsed
      have lengths := congrArg List.length same
      simp only [List.length_append,List.length_cons] at lengths
      omega
  · rintro ⟨some,portless⟩
    have whole : splitAuthority host = (host,80) := by
      rw [reads]
      cases cut : rsplitOnce ':' host with
      | none => rfl
      | some parts =>
        obtain ⟨front,port⟩ := parts
        dsimp only
        cases read : portOf port with
        | none => rfl
        | some n => exact absurd ⟨front,port,n,rsplitOnce_eq cut,read⟩ portless
    exact ⟨_,parse_rendered quoted plain some path,by rw [whole],by rw [whole]⟩
-- What a URL renders to names the host and the port it named, and one without a number for
-- its port is refused.
structure Faithful (quoted : Text → Text) (url : Text) : Prop where
  reparses : ∀ p, parseUrl quoted url = .ok p → Reparses quoted p (hostHeader p) ∧ Reparses quoted p (authorityOf p)
  refused : ∀ authority host port, HasAuthority url authority → Names authority host (some port) → portOf port = none →
    ∃ e, parseUrl quoted url = .error e

-- The port is a number, and where it is 80 or not there the host can stand alone.
def Portable (url : Text) : Prop := ∀ authority host port, HasAuthority url authority → Names authority host port →
  (∀ t, port = some t → portOf t ≠ none) ∧ ((port.bind portOf).getD 80 = 80 → host ≠ [] ∧ ¬ EndsPort host)

theorem url_faithful_iff (quoted : Text → Text) (url : Text) : Faithful quoted url ↔ Portable url := by
  constructor
  · intro faithful authority host port has names
    obtain ⟨p,parsed,hosts,ports,path,target⟩ := authority_parses quoted has
    have numbered : ∀ t, port = some t → portOf t ≠ none := by
      rintro t rfl unread
      obtain ⟨e,failed⟩ := faithful.refused authority host t has names unread
      rw [parsed] at failed
      cases failed
    refine ⟨numbered,fun default => ?_⟩
    rw [splitAuthority_names names numbered] at hosts ports
    dsimp only at hosts ports
    rw [default] at ports
    obtain ⟨alone,_⟩ := faithful.reparses p parsed
    obtain ⟨h,n,t,tls⟩ := p
    dsimp only at hosts ports target
    subst hosts ports target
    rw [hostHeader,if_pos rfl] at alone
    exact (host_reparses quoted (named_open names) (fun inside => authority_plain has (named_within names _ inside)) path tls).mp alone
  · intro portable
    refine ⟨fun p parsed => ?_,fun authority host port has names unread => absurd unread ((portable authority host _ has names).1 port rfl)⟩
    obtain ⟨authority,has,hosts,ports,path,target⟩ := parse_authority parsed
    obtain ⟨host,port,names⟩ := names_exist authority
    obtain ⟨numbered,alone⟩ := portable authority host port has names
    rw [splitAuthority_names names numbered] at hosts ports
    have open' := named_open names
    have plain : '/' ∉ host := fun inside => authority_plain has (named_within names _ inside)
    have small : (port.bind portOf).getD 80 < u16 := by
      cases found : port.bind portOf with
      | none => decide
      | some n =>
        obtain ⟨t,_,read⟩ := Option.bind_eq_some_iff.mp found
        exact fromStrRadix_lt (by decide) read
    obtain ⟨h,n,t,tls⟩ := p
    dsimp only at hosts ports target
    subst hosts ports target
    have both := port_reparses quoted open' plain small path tls
    refine ⟨?_,both⟩
    unfold hostHeader
    dsimp only
    split
    · next default =>
      rw [default] at both ⊢
      exact (host_reparses quoted open' plain path tls).mpr (alone default)
    · exact both

-- `http://h:99999/`
theorem port_in_host : ¬ Faithful id "http://h:99999/".toList := by
  intro faithful
  have has : HasAuthority "http://h:99999/".toList "h:99999".toList :=
    ⟨"http".toList,"h:99999/".toList,by decide,.inl (by decide),by decide,by decide⟩
  have unliteral : ¬ Bracketed (['h'] ++ ':' :: "99999".toList) := fun bracketed => absurd bracketed.1 (by decide)
  have names : Names "h:99999".toList ['h'] (some "99999".toList) := .port unliteral (by decide)
  obtain ⟨e,failed⟩ := faithful.refused _ _ _ has names (by decide)
  have read : (parseUrl id "http://h:99999/".toList).toOption.map ParsedUrl.host = some "h:99999".toList := by decide
  rw [failed] at read
  cases read

end PrincessIDE.Http
