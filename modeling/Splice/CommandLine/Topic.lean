import Splice.Text.Line

set_option autoImplicit false

namespace Splice.CommandLine

/-- What a text is about: the program as a whole or one of its commands. -/
inductive Topic where
  | program | build | deps | init | completion
  deriving DecidableEq, Repr

def block (lines : List String) : Text := lines.flatMap fun l => l.toList ++ ['\n']

namespace Topic

def title : Topic → Text
  | program => "preproc".toList
  | build => "preproc build".toList
  | deps => "preproc deps".toList
  | init => "preproc init".toList
  | completion => "preproc completion".toList

def usage : Topic → Text
  | program =>
    block
      ["usage: preproc [-h] [--version] [--config PATH] [-v] [-q]",
        "               \x7bbuild,deps,init,completion\x7d ..."]
  | build =>
    block
      ["usage: preproc build [-h] [-I DIR] [-c MARKER] [--strip-prefix PREFIX]",
        "                     [-o PATH] [-MF PATH]",
        "                     file"]
  | deps =>
    block
      ["usage: preproc deps [-h] [-I DIR] [-c MARKER] [--strip-prefix PREFIX]",
        "                    [--target NAME]",
        "                    file"]
  | init =>
    block
      ["usage: preproc init [-h] [--force]"]
  | completion =>
    block
      ["usage: preproc completion [-h] [--shell \x7bbash,zsh,fish,tcsh\x7d]"]

def details : Topic → Text
  | program =>
    block
      ["",
        "Minimal source preprocessor for comment-embedded include directives",
        "",
        "positional arguments:",
        "  \x7bbuild,deps,init,completion\x7d",
        "                        Available commands",
        "    build               Preprocess a file into a single flattened output",
        "    deps                Print the make dependency rule for a file",
        "    init                Create .preproc.toml configuration file",
        "    completion          Show shell tab-completion setup",
        "",
        "options:",
        "  -h, --help            show this help message and exit",
        "  --version             show program's version number and exit",
        "  --config PATH         Path to configuration file",
        "  -v, --verbose         Verbose output",
        "  -q, --quiet           Suppress non-error output",
        "",
        "Directives:",
        "  //&include <util.c>     # searched in the include directories",
        "  //&include \"local.c\"    # relative to the including file",
        "",
        "Examples:",
        "  preproc build main.c                     # Write main.i",
        "  preproc build main.c -I lib -o out.c     # Search lib/ for <...> includes",
        "  preproc build main.py -c '#'             # Directives start with #&",
        "  preproc build main.c -o a.i -MF a.i.d    # Also write a make depfile",
        "  preproc deps main.c                      # Print the dependency rule",
        "",
        "Configuration:",
        "  preproc init                  # Create .preproc.toml in current directory",
        "",
        "For detailed command help: preproc <command> --help",
        "        "]
  | build =>
    block
      ["",
        "positional arguments:",
        "  file                  File to preprocess",
        "",
        "options:",
        "  -h, --help            show this help message and exit",
        "  -I DIR, --include DIR",
        "                        Add a directory to search for <global> includes (can",
        "                        be repeated)",
        "  -c MARKER, --comment MARKER",
        "                        Comment marker that starts a directive (default: //)",
        "  --strip-prefix PREFIX",
        "                        Prefix removed from paths listed in dependency output",
        "  -o PATH, --output PATH",
        "                        Output file (default: input with the configured",
        "                        suffix, .i)",
        "  -MF PATH, --depfile PATH",
        "                        Also write a make-compatible dependency file",
        "",
        "Examples:",
        "  preproc build main.c                  # Output to main.i",
        "  preproc build main.c -I include       # Add an include directory",
        "  preproc build main.c -MF main.i.d     # Write dependencies for make"]
  | deps =>
    block
      ["",
        "positional arguments:",
        "  file                  File to preprocess",
        "",
        "options:",
        "  -h, --help            show this help message and exit",
        "  -I DIR, --include DIR",
        "                        Add a directory to search for <global> includes (can",
        "                        be repeated)",
        "  -c MARKER, --comment MARKER",
        "                        Comment marker that starts a directive (default: //)",
        "  --strip-prefix PREFIX",
        "                        Prefix removed from paths listed in dependency output",
        "  --target NAME         Rule target (default: the build output path)"]
  | init =>
    block
      ["",
        "options:",
        "  -h, --help  show this help message and exit",
        "  --force     Overwrite existing configuration"]
  | completion =>
    block
      ["",
        "options:",
        "  -h, --help            show this help message and exit",
        "  --shell \x7bbash,zsh,fish,tcsh\x7d",
        "                        Generate the completion script for a specific shell"]

def help (t : Topic) : Text := t.usage ++ t.details

end Topic

def version : Text := "preproc 0.3.0\n".toList

def completionSetup : Text :=
  block
    ["",
      "Shell Completion Setup for preproc",
      "==================================",
      "",
      "Bash (add to ~/.bashrc):",
      "  eval \"$(register-python-argcomplete preproc)\"",
      "",
      "Zsh (add to ~/.zshrc):",
      "  autoload -U bashcompinit",
      "  bashcompinit",
      "  eval \"$(register-python-argcomplete preproc)\"",
      "",
      "Fish (add to ~/.config/fish/config.fish):",
      "  register-python-argcomplete --shell fish preproc | source",
      "",
      "Generate script for a specific shell:",
      "  preproc completion --shell bash",
      ""]

def configTemplate : Text :=
  block
    ["# preproc configuration",
      "",
      "[preprocess]",
      "comment = \"//\" # directives are lines starting with <comment>&",
      "include_paths = [] # searched in order for <global> includes",
      "output_suffix = \".i\"",
      "encoding = \"utf-8\"",
      "",
      "[depfile]",
      "strip_prefix = \"\""]

end Splice.CommandLine
