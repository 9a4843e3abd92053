import CommentTags.Text.Basic

/-!
Help pages.
-/

namespace CommentTags
namespace CommandLine

def page (lines : List String) : Text := lines.flatMap fun l => text l ++ [.char '\n']

/-- The page for the whole program. -/
def mainPage : Text := page [
   "usage: doctag [-h] COMMAND ...",
   "",
   "doctag: documentation comment tag extractor",
   "",
   "positional arguments:",
   "  COMMAND",
   "    init      Write a default configuration file",
   "    extract   Extract token trees from node files",
   "    show      Print the token tree of a node file",
   "",
   "options:",
   "  -h, --help  show this help message and exit"]

/-- The page for `init`. -/
def initPage : Text := page [
   "usage: doctag init [-h] [directory]",
   "",
   "Create a .doctag.yaml file holding the default grammar settings.",
   "",
   "positional arguments:",
   "  directory   Directory to write the configuration to (default: current",
   "              directory)",
   "",
   "options:",
   "  -h, --help  show this help message and exit"]

/-- The page for `extract`. -/
def extractPage : Text := page [
   "usage: doctag extract [-h] [--config CONFIG] [--verbose]",
   "                      [--output-dir OUTPUT_DIR] [--collect]",
   "                      NODE_FILE [NODE_FILE ...]",
   "",
   "Pair documentation comments with declarations and report missing tag types.",
   "",
   "positional arguments:",
   "  NODE_FILE             Node files to process",
   "",
   "options:",
   "  -h, --help            show this help message and exit",
   "  --config CONFIG       Configuration file (default: .doctag.yaml in the",
   "                        current directory, if present)",
   "  --verbose, -v         Log progress to stderr",
   "  --output-dir OUTPUT_DIR",
   "                        Write one artifact per node file into this directory",
   "  --collect             Report every missing tag type instead of stopping at",
   "                        the first"]

/-- The page for `show`. -/
def showPage : Text := page [
   "usage: doctag show [-h] [--config CONFIG] [--verbose] NODE_FILE",
   "",
   "Print the extracted token tree of a node file as an indented listing.",
   "",
   "positional arguments:",
   "  NODE_FILE        Node file to process",
   "",
   "options:",
   "  -h, --help       show this help message and exit",
   "  --config CONFIG  Configuration file (default: .doctag.yaml in the current",
   "                   directory, if present)",
   "  --verbose, -v    Log progress to stderr"]

end CommandLine
end CommentTags
