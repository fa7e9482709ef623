import PrincessIDE.Cli.Arrivals
import PrincessIDE.Cli.Scripted

namespace PrincessIDE.CliOutput
open Utf8 (Bytes lossy encode)
open RunBackend (SymbolizeFn)
open BuildProcess (StdioStream)
open CliBuild (BuildPlan Publishes Silent)
open CliRun (Serves)
open Serial (CarriesFault)
open Reader (Wake Wake.ops wakes closing told Busy Script)
open PrincessIDE.Stream (session)
open Str (lines)

-- Both commands send the same facts of what a child writes, however it arrives.
def Steady (symbols : Option SymbolizeFn) (bs : Bytes) (build : BuildPlan) (written : Script StdioStream) : Prop :=
  (∀ faults faults', Serves symbols bs faults → Serves symbols bs faults' → faults = faults') ∧
    ∀ ds ds', Publishes build written ds → Publishes build written ds' → ds = ds'

theorem steady_iff (symbols : Option SymbolizeFn) (bs : Bytes) (build : BuildPlan) (written : Script StdioStream) :
    Steady symbols bs build written ↔ ¬ CarriesFault (lossy bs) ∧ Silent build written :=
  and_congr (CliRun.serves_iff symbols bs) (CliBuild.publishes_iff build written)

theorem told_session (schedule : List Wake) : told ((wakes .new schedule).1 ++ closing (wakes .new schedule).2) =
    (session ((schedule ++ [Wake.idle]).flatMap Wake.ops)).flatMap fun h => lines h.text := by
  rw [← CliRun.handed_reader,Reader.spawnReader_session,told,List.flatMap_map]
  rfl

-- The line of a fault comes whole, or flushed in two pieces of which none is one.
theorem flushed_fault_lost : ¬ ∀ symbols bs build written, Steady symbols bs build written := by
  intro claim
  have whole : Busy [.bytes (encode "FAULT_RIP=0x10\n".toList)] := by
    intro w inside
    rw [List.mem_singleton.mp inside]
    decide
  have pieces : Busy [.bytes (encode "FAULT_".toList),.idle,.bytes (encode "RIP=0x10\n".toList)] := by
    intro w inside
    simp only [List.mem_cons,List.not_mem_nil,or_false] at inside
    rcases inside with rfl | rfl | rfl <;> decide
  obtain ⟨one,served,some⟩ := CliRun.schedule_serves none whole
  obtain ⟨two,served',none⟩ := CliRun.schedule_serves none pieces
  rw [told_session] at some none
  have raised := some.mpr (by decide +kernel)
  have lost : ¬ two ≠ [] := fun more => absurd (none.mp more) (by decide +kernel)
  have same := (claim .none (encode "FAULT_RIP=0x10\n".toList) ⟨[],[],[],[],.none⟩ .empty).1 one two served served'
  exact lost (same ▸ raised)

end PrincessIDE.CliOutput
