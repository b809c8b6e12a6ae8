import TapeCalc.Run.Counters
import TapeCalc.Text.Fixed

/-!
# Summaries

The block of lines that shows the counters of a run. Counters hold no clock, so the two lines
about time carry a star.
-/
namespace TapeCalc.Counters

/-- The share of one kind of instruction in percent, to two places. -/
def share (c : Counters) (i : Instruction) : String :=
  Text.fixed 2 ((c.count i).toFloat / (max c.steps 1).toFloat * 100)

def rule (mark : Char) : String := String.ofList (List.replicate 58 mark)

def mixLine (c : Counters) (i : Instruction) : String :=
  "  " ++ i.symbol.toString ++ "                      " ++ toString (c.count i) ++
    " (" ++ c.share i ++ "%)"

def summaryLines (c : Counters) : List String :=
  [rule '=',
    "TAPE MACHINE RUN STATISTICS",
    rule '=',
    "host_seconds *",
    "steps                    " ++ toString c.steps,
    "steps_per_sec *",
    "jumps_taken              " ++ toString c.jumps,
    "input_consumed           " ++ toString c.consumed,
    "output_produced          " ++ toString c.produced,
    rule '-',
    "INSTRUCTION MIX"] ++ Instruction.all.map c.mixLine ++ [rule '=']

def summary (c : Counters) : String := String.join (c.summaryLines.map (· ++ "\n"))

end TapeCalc.Counters
