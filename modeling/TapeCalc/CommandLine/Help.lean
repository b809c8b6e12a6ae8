/-!
# Help

The texts that describe the command and its prompt.
-/
namespace TapeCalc.CommandLine

def versionText : String := "bfcalc 0.3.0\n"

/-- The summary of the command. -/
def shortHelpText : String := "Calculator backed by an 8-bit tape machine and base-256 cell arithmetic

Usage: bfcalc [OPTIONS] [EXPRESSIONS]...

Arguments:
  [EXPRESSIONS]...  Arithmetic expressions to calculate

Options:
  -i, --interactive     Run in interactive mode (also the default when no expressions are given)
      --8bit            Use 8-bit mode: run the tape program, operands and results modulo 256
      --modules <DIR>   Directory holding addition.bf, subtraction.bf, multiplication.bf, division.bf, power.bf
      --config <FILE>   JSON configuration file
      --step-limit <N>  Abort a tape run after this many instructions
      --stats           Print tape machine statistics after each 8-bit evaluation
  -v, --verbose...      Raise log verbosity (-v debug, -vv per-instruction trace)
  -h, --help            Print help (see more with '--help')
  -V, --version         Print version

Examples:
  bfcalc \"999+999\" \"1000*500\"
  bfcalc --8bit \"200-100\" \"255+1\"
  bfcalc -i --modules ./bf
"

/-- The full description of the command. -/
def longHelpText : String := "Evaluate <number><op><number> expressions with + - * / ^.

By default operands of any size are handled by the cell arithmetic engine. With --8bit the operator's tape program runs on the interpreter and results are modulo 256.

Usage: bfcalc [OPTIONS] [EXPRESSIONS]...

Arguments:
  [EXPRESSIONS]...
          Arithmetic expressions to calculate

Options:
  -i, --interactive
          Run in interactive mode (also the default when no expressions are given)

      --8bit
          Use 8-bit mode: run the tape program, operands and results modulo 256

      --modules <DIR>
          Directory holding addition.bf, subtraction.bf, multiplication.bf, division.bf, power.bf

      --config <FILE>
          JSON configuration file

      --step-limit <N>
          Abort a tape run after this many instructions

      --stats
          Print tape machine statistics after each 8-bit evaluation

  -v, --verbose...
          Raise log verbosity (-v debug, -vv per-instruction trace)

  -h, --help
          Print help (see a summary with '-h')

  -V, --version
          Print version

Examples:
  bfcalc \"999+999\" \"1000*500\"
  bfcalc --8bit \"200-100\" \"255+1\"
  bfcalc -i --modules ./bf
"

def thinRule (width : Nat) : String := String.ofList (List.replicate width '-')

/-- What the prompt says when it is asked for help. -/
def promptHelp : List String :=
  ["", "Help:", thinRule 30,
    "Enter expressions like:",
    "  5+3      - Addition",
    "  10-4     - Subtraction",
    "  6*7      - Multiplication",
    "  15/3     - Division",
    "  2^10     - Power",
    thinRule 30,
    "Big number examples:",
    "  999+999       = 1998",
    "  1000*500      = 500000",
    "  999^2         = 998001",
    "  123456789*10  = 1234567890",
    thinRule 30]

end TapeCalc.CommandLine
