import PrincessIDE.Foundation.Utf8

namespace PrincessIDE.Error
open Utf8

inductive ErrorCode where
  | toolchainMissing
  | buildFailed
  | qemuFailed
  | timeout
  | notFound
  | invalidConfig
  | sandboxDenied
  | cancelled
  | aiUnavailable
  | internal
deriving DecidableEq, Repr

def ErrorCode.asStr : ErrorCode → Text
  | .toolchainMissing => "E_TOOLCHAIN_MISSING".toList
  | .buildFailed => "E_BUILD_FAILED".toList
  | .qemuFailed => "E_QEMU_FAILED".toList
  | .timeout => "E_TIMEOUT".toList
  | .notFound => "E_NOT_FOUND".toList
  | .invalidConfig => "E_INVALID_CONFIG".toList
  | .sandboxDenied => "E_SANDBOX_DENIED".toList
  | .cancelled => "E_CANCELLED".toList
  | .aiUnavailable => "E_AI_UNAVAILABLE".toList
  | .internal => "E_INTERNAL".toList

structure PrincessError where
  code : ErrorCode
  message : Text
  detail : Option Text
deriving DecidableEq, Repr

namespace PrincessError

def new (code : ErrorCode) (message : Text) : PrincessError := ⟨code,message,none⟩

def withDetail (e : PrincessError) (detail : Text) : PrincessError :=
  if detail = [] then e else {e with detail:=some detail}

def internal (message : Text) : PrincessError := .new .internal message

-- What `Display` prints; error texts are built from it.
def display (e : PrincessError) : Text :=
  e.code.asStr ++ ": ".toList ++ e.message ++ match e.detail with
    | none => []
    | some detail => " (".toList ++ detail ++ ")".toList

@[simp] theorem withDetail_code (e : PrincessError) (detail : Text) : (e.withDetail detail).code = e.code := by
  unfold withDetail
  split <;> rfl

end PrincessError

end PrincessIDE.Error
