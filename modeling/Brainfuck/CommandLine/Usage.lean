/-!
How the program and its commands are used. The texts name the program as it was called.
-/

namespace Brainfuck.CommandLine.Usage

def top (program : String) : String :=
  String.join [
    "Usage:\n",
    "  " ++ program ++ " run  [--debug|-d] [--input|-i TEXT] \"<code>\"  # Run a program (args are concatenated)\n",
    "  " ++ program ++ " run  [--debug|-d] --file <PATH>               # Run a program loaded from file\n",
    "  " ++ program ++ " repl [--bare|--editor]                        # Start the read-eval-print loop\n",
    "  " ++ program ++ "                                               # Same as `" ++ program ++ " repl`\n",
    "\n",
    "Run \"" ++ program ++ " <subcommand> --help\" for more info.\n",
    "\n"]

def run (program : String) : String :=
  String.join [
    "Usage:\n",
    "  " ++ program ++ " run [OPTIONS] \"<code>\"\n",
    "  " ++ program ++ " run [OPTIONS] --file <PATH>\n",
    "\n",
    "Options:\n",
    "  --file,  -f <PATH>         Read the program from PATH instead of positional \"<code>\"\n",
    "  --input, -i <TEXT>         Input consumed by `,` before falling back to the terminal\n",
    "  --tape-length, -t <N>      Number of tape cells (default 30000)\n",
    "  --dump[=PATH]              Write a JSON dump of the final machine state\n",
    "  --debug, -d                Print a trace line before every instruction\n",
    "  --help,  -h                Show this help\n",
    "\n",
    "Notes:\n",
    "- Characters outside of ><+-.,[] are comments and are ignored.\n",
    "- When --input runs out, `,` prompts for a line and uses its first character;\n",
    "  an empty line, EOF or ctrl+c at the prompt stores 0.\n",
    "\n",
    "Examples:\n",
    "- Load a program from a file:\n",
    "    " ++ program ++ " run --file ./program.bf\n",
    "- Echo one character:\n",
    "    " ++ program ++ " run --input A \",.\"\n",
    "\n"]

def repl (program : String) : String :=
  String.join [
    "Usage:\n",
    "  " ++ program ++ " repl   # Start the interactive read-eval-print loop\n",
    "\n",
    "Options:\n",
    "  --help,   -h        Show this help\n",
    "  --bare              Force non-interactive bare mode\n",
    "  --editor            Force interactive editor mode (errors if stdin is not a TTY)\n",
    "  --debug,  -d        Trace every instruction\n",
    "  --tape-length, -t <N>\n",
    "                      Number of tape cells (default 30000)\n",
    "\n",
    "Description:\n",
    "  Each line you enter is run as a separate program on a freshly reset tape.\n",
    "  The first error prints an \"Error:\" banner and ends the session.\n",
    "\n",
    "Notes:\n",
    "    - Non-instruction characters are comments and are ignored.\n",
    "    - Ctrl+C exits the REPL immediately, except at a `,` input prompt,\n",
    "      where it stores 0 and the program continues.\n",
    "    - Mode selection:\n",
    "        * Flags: --bare|--editor override environment and auto-detection.\n",
    "        * Env: SBFI_REPL_MODE=bare|editor overrides auto-detection.\n",
    "        * Auto-detect: if stdin is a TTY, starts in interactive editor mode; otherwise, bare mode.\n",
    "        * Banners are suppressed if stderr is not a TTY.\n",
    "\n"]

end Brainfuck.CommandLine.Usage
