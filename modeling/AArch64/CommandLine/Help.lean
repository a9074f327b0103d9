import AArch64.CommandLine.Arguments

/-! Texts on how the program is used. -/
namespace AArch64.CommandLine

def version : String := "a64sim 0.1.0"

def Topic.lines : Topic → List String
  | program =>
    ["AArch64 instruction-level simulator",
      "",
      "Usage: a64sim <COMMAND>",
      "",
      "Commands:",
      "  run   Runs an image until it returns from its entry point, halts or fails",
      "  info  Prints the entry point, segments and heap symbol of an image",
      "  help  Print this message or the help of the given subcommand(s)",
      "",
      "Options:",
      "  -h, --help     Print help",
      "  -V, --version  Print version"]
  | run =>
    ["Runs an image until it returns from its entry point, halts or fails",
      "",
      "Usage: a64sim run [OPTIONS] <ELF>",
      "",
      "Arguments:",
      "  <ELF>  ",
      "",
      "Options:",
      "      --config <CONFIG>                      TOML file with simulator settings",
      "      --log-file <LOG_FILE>                  Write log output to this file instead of stderr",
      "      --trace                                Log every executed instruction",
      "      --max-instructions <MAX_INSTRUCTIONS>  Stop after this many instructions, counted across callouts and breakpoints",
      "      --stack-top <STACK_TOP>                Initial stack pointer, in hex",
      "  -h, --help                                 Print help"]
  | info =>
    ["Prints the entry point, segments and heap symbol of an image",
      "",
      "Usage: a64sim info <ELF>",
      "",
      "Arguments:",
      "  <ELF>  ",
      "",
      "Options:",
      "  -h, --help  Print help"]
  | help =>
    ["Print this message or the help of the given subcommand(s)",
      "",
      "Usage: a64sim help [COMMAND]...",
      "",
      "Arguments:",
      "  [COMMAND]...  Print help for the subcommand(s)"]

def Topic.text (t : Topic) : String :=
  String.join (t.lines.map (· ++ "\n"))

end AArch64.CommandLine
