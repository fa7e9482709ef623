import PrincessIDE.Run.Serial

namespace PrincessIDE.CliSerial
open Utf8 (Text)
open Str Event
-- `parse_vector` and `parse_hex_u64` stand in both crates, word for word.
open Serial (exceptionPrefix faultPrefix panicPrefix parseHexU64 parseVector)

def banner : Text := "PrincessIDE reference kernel booted".toList

structure RawFault where
  vectorNumber : Nat
  vector : Text
  rip : Nat
  ripText : Text
  errorCode : Nat
  cs : Text
  rflags : Text
deriving DecidableEq, Repr

def RawFault.intoPayload (f : RawFault) (symbolicated : Option SymbolicatedLocation) : RunFaultPayload :=
  let regs : RegisterFile := RegisterFile.insert "RIP".toList f.ripText []
  let regs := RegisterFile.insert "CS".toList f.cs regs
  let regs := RegisterFile.insert "RFLAGS".toList f.rflags regs
  ⟨f.vector,f.rip,f.ripText,f.errorCode,regs,symbolicated⟩

inductive SerialObservation where
  | banner
  | fault (fault : RawFault)
  | panicked
deriving DecidableEq, Repr

structure SerialObserver where
  bannerSeen : Bool
  panicSeen : Bool
  lastVector : Option (Nat × Text)
  fault : Option RawFault
deriving DecidableEq, Repr

def SerialObserver.new : SerialObserver := ⟨false,false,none,none⟩

def readField (f : RawFault) (field : Text) : RawFault :=
  match stripPrefix "cs=".toList field with
  | some value => {f with cs:=value}
  | none => match stripPrefix "rflags=".toList field with
    | some value => {f with rflags:=value}
    | none => match stripPrefix "error=".toList field with
      | some value => {f with errorCode:=(parseHexU64 value).getD 0}
      | none => f

def parseFault (rest : Text) : Option RawFault :=
  match splitWhitespace rest with
  | [] => none
  | ripText :: fields => match parseHexU64 ripText with
    | none => none
    | some rip => some (fields.foldl readField ⟨0,[],rip,ripText,0,[],[]⟩)

-- The parts of `feed`, each with what it adds to the observations.
def feedBanner (o : SerialObserver) (line : Text) : List SerialObservation × SerialObserver :=
  if !o.bannerSeen && contains banner line then ([.banner],{o with bannerSeen:=true}) else ([],o)

def feedVector (o : SerialObserver) (line : Text) : SerialObserver :=
  match (splitOnce exceptionPrefix line).bind (fun found => parseVector found.2) with
  | some vector => {o with lastVector:=some vector}
  | none => o

def completeFault (o : SerialObserver) (f : RawFault) : RawFault := match o.lastVector with
  | some (number,name) => {f with vectorNumber:=number,vector:=name}
  | none => f

def feedFault (o : SerialObserver) (line : Text) : List SerialObservation × SerialObserver :=
  match (splitOnce faultPrefix line).bind (fun found => parseFault found.2) with
  | some f => ([.fault (completeFault o f)],{o with fault:=some (completeFault o f)})
  | none => ([],o)

def feedPanic (o : SerialObserver) (line : Text) : List SerialObservation × SerialObserver :=
  if contains panicPrefix line && !o.panicSeen then ([.panicked],{o with panicSeen:=true}) else ([],o)

def feed (o : SerialObserver) (line : Text) : List SerialObservation × SerialObserver :=
  let banner := feedBanner o line
  let fault := feedFault (feedVector banner.2 line) line
  let panicked := feedPanic fault.2 line
  (banner.1 ++ fault.1 ++ panicked.1,panicked.2)

end PrincessIDE.CliSerial
