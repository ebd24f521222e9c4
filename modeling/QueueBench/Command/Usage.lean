import QueueBench.Command.Arguments

/-!
# Usage

What is printed instead of a run when the command line does not lead to one.
-/
namespace QueueBench

namespace Refusal

def usage : List String :=
  ["qbench - charts for concurrent-queue benchmark results",
   "",
   "Usage: qbench [OPTIONS]",
   "       qbench run [OPTIONS]",
   "       qbench help [COMMAND]",
   "",
   "Options:",
   "  -r, --results-dir <DIR>   Directory with the CSV files, and for the charts [results]",
   "  -t, --thread-axis <AXIS>  Thread count on the scaling chart: producers (p), consumers (c)",
   "                            or total (p+c) [producers]",
   "      --split-modes         Draw one row of scaling panels per allocation mode",
   "      --json                Print the report as JSON instead of the text summary",
   "  -v, --verbose             Verbose output",
   "  -h, --help                Print help",
   "  -V, --version             Print version"]

def lines : Refusal → List String
  | helpRequested => usage
  | versionRequested => ["qbench 0.1.0"]
  | unknownArgument => ["error: unexpected argument"]
  | unknownCommand => ["error: unrecognized subcommand"]
  | conflict => ["error: the argument cannot be used here"]
  | missingValue => ["error: a value is required but none was supplied"]
  | unwantedValue => ["error: unexpected value for an option that takes none"]
  | noText => ["error: invalid UTF-8 was detected in one or more arguments"]
  | badAxis => [s!"error: invalid value for '--thread-axis': {ThreadAxis.unknownNameMessage}"]

end Refusal

end QueueBench
