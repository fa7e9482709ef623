import Mathlib.Algebra.GroupWithZero.Nat
import PrincessIDE.Foundation.Around

namespace PrincessIDE.DotClangd
open Utf8 (Text)
open Str

def flagBlacklist : List Text := ["-fno-tree-loop-distribute-patterns","-fconserve-stack","-mpreferred-stack-boundary=*",
  "-fno-var-tracking-assignments","-fno-ipa-icf","-mno-direct-extern-access"].map String.toList

def nostdIncludeFlag : Text := "-nostdlibinc".toList

-- `WILDCARD_MARKERS` has only this one.
def wildcardMarker : Char := '*'

def allowedWildcard : Text := "-mpreferred-stack-boundary=*".toList

def quoted (t : Text) : Text := '\x60' :: t ++ ['\x60']

-- `str::len`
def byteLen (t : Text) : Nat := (t.map Char.utf8Size).sum

def indentOf (line : Text) : Nat := byteLen line - byteLen (trimStart line)

def compileFlagsLine (line : Text) : Bool := startsWith "CompileFlags:".toList (trimStart line) && !startsWith ['#'] (trimStart line)

def compileFlagsIndent (line : Text) : Option Nat :=
  if compileFlagsLine (trimEnd line) then some (indentOf (trimEnd line)) else none

def noKeyProblem : Text := "no \x60CompileFlags:\x60 key: clangd has nothing to add or remove (D7)".toList
def noChildProblem : Text := "\x60CompileFlags:\x60 has no \x60Add:\x60/\x60Remove:\x60 child key (D7)".toList

def sequenceProblem (entry : Text) : Text := "\x60CompileFlags:\x60 directly contains the sequence entry ".toList ++ quoted entry ++
  ("; clangd requires a dictionary with \x60Add:\x60/\x60Remove:\x60 keys (otherwise it logs " ++
    "\"CompileFlags should be a dictionary\" and ignores the entire .clangd, D7)").toList

-- The walk over the block: what it finds, and whether it has seen a child key.
def walk (indent : Nat) (seen : Bool) : List Text → List Text × Bool
  | [] => ([],seen)
  | line :: rest =>
    let trimmed := trim line
    if trimmed = [] || startsWith ['#'] trimmed then walk indent seen rest
    else if indentOf line ≤ indent then ([],seen)
    else if indentOf line = indent+2 && startsWith "- ".toList trimmed then ([sequenceProblem trimmed],seen)
    else walk indent (seen || indentOf line = indent+2 && trimmed.getLast? = some ':') rest

def structureProblems (lines : List Text) : List Text := match lines.findSome? compileFlagsIndent with
  | none => [noKeyProblem]
  | some indent =>
    let (found,seen) := walk indent false ((lines.dropWhile fun line => !compileFlagsLine line).drop 1)
    found ++ if seen then [] else [noChildProblem]

-- Texts that have to be somewhere, and one that must not be.
def requiredProblems (text : Text) : List Text :=
  (if contains "--target=".toList text then [] else ["missing \x60--target=<triple>\x60 (D7: the triple must be pinned)".toList]) ++
  (if contains nostdIncludeFlag text then [] else ["missing ".toList ++ quoted nostdIncludeFlag]) ++
  (if contains "-nostdinc".toList text then
    [("contains \x60-nostdinc\x60; use \x60-nostdlibinc\x60 instead (D7: \x60-nostdinc\x60 also deletes              " ++
      "clang's own freestanding stddef.h/stdint.h/stdarg.h)").toList]
  else [])

def blacklistProblem (text flag : Text) : Option Text :=
  if contains flag text then none else some ("missing GCC-only flag removal ".toList ++ quoted flag ++ " (D7)".toList)

-- The value of a line that is an entry.
def entryValue (trimmed : Text) : Text := trim (trimMatches (· = '"') (trimStartMatches "- ".toList trimmed))

def wildcardProblem (line : Text) : Option Text :=
  if !startsWith "- ".toList (trim line) then none
  else if entryValue (trim line) = [] then none
  else if (entryValue (trim line)).contains wildcardMarker && entryValue (trim line) ≠ allowedWildcard then
    some ("wildcard entry ".toList ++ quoted (entryValue (trim line)) ++
      (" in .clangd: a flag-name glob (e.g. \x60-W*\x60) would also                  " ++
        "delete -Wall/-Wextra and hide every warning (D7)").toList)
  else none

def validateDotClangd (text : Text) : List Text := structureProblems (lines text) ++ requiredProblems text ++
  flagBlacklist.filterMap (blacklistProblem text) ++ (lines text).filterMap wildcardProblem

-- What is looked at of a file, when nothing is said of it.
structure Clean (text : Text) : Prop where
  structured : structureProblems (lines text) = []
  target : contains "--target=".toList text = true
  nostdlibinc : contains nostdIncludeFlag text = true
  nostdinc : contains "-nostdinc".toList text = false
  blacklist : ∀ flag ∈ flagBlacklist, contains flag text = true
  wildcards : ∀ line ∈ lines text, wildcardProblem line = none

theorem needed_nil (found : Bool) (problem : Text) : (if found then [] else [problem]) = [] ↔ found = true := by
  cases found <;> simp

theorem barred_nil (found : Bool) (problem : Text) : (if found then [problem] else []) = [] ↔ found = false := by
  cases found <;> simp

theorem validate_nil (text : Text) : validateDotClangd text = [] ↔ Clean text := by
  have required : requiredProblems text = [] ↔ contains "--target=".toList text = true ∧ contains nostdIncludeFlag text = true ∧
      contains "-nostdinc".toList text = false := by
    rw [requiredProblems,List.append_eq_nil_iff,List.append_eq_nil_iff,and_assoc,needed_nil,needed_nil,barred_nil]
  have blacklist : flagBlacklist.filterMap (blacklistProblem text) = [] ↔ ∀ flag ∈ flagBlacklist, contains flag text = true := by
    rw [List.filterMap_eq_nil_iff]
    refine forall₂_congr fun flag _ => ?_
    unfold blacklistProblem
    split <;> simp [*]
  rw [validateDotClangd,List.append_eq_nil_iff,List.append_eq_nil_iff,List.append_eq_nil_iff,required,blacklist,List.filterMap_eq_nil_iff]
  constructor
  · rintro ⟨⟨⟨structured,target,nostdlibinc,nostdinc⟩,blacklist⟩,wildcards⟩
    exact ⟨structured,target,nostdlibinc,nostdinc,blacklist,wildcards⟩
  · rintro ⟨structured,target,nostdlibinc,nostdinc,blacklist,wildcards⟩
    exact ⟨⟨⟨structured,target,nostdlibinc,nostdinc⟩,blacklist⟩,wildcards⟩

end PrincessIDE.DotClangd
