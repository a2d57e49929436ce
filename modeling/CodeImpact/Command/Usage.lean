/-!
# The usage text
-/

namespace CodeImpact

/-- What the program says about its commands and options, line by line. -/
def usageLines : List String :=
  ["blastmap - semantic code graph and change impact analysis",
    "",
    "Usage:",
    "  blastmap <command> [arguments]",
    "  blastmap --help",
    "",
    "  blastmap graph --root <DIR> [--enrich] [ANALYSIS] [--output <FORMAT>]",
    "  blastmap export --root <DIR> [--format <FORMAT>] [--minify] [--cluster] " ++
      "[--out <PATH>] [ANALYSIS]",
    "  blastmap changes --head <DIR> --base <DIR> --diff <FILE> [--file <PATH>] " ++
      "[ANALYSIS] [--output <FORMAT>]",
    "  blastmap impact --head <DIR> --base <DIR> --diff <FILE> [--file <PATH>] " ++
      "[--direction <DIR>]",
    "                  [--kinds <K1,K2>] [--max-depth <N>] [ANALYSIS] [--output <FORMAT>]",
    "  blastmap version",
    "",
    "Commands:",
    "  graph     Assemble the code graph and print its size",
    "  export    Export the enriched graph (json, jsonl, csv, dot)",
    "  changes   Map a unified diff to added, modified and deleted functions",
    "  impact    Show functions affected by the changes in a diff",
    "  version   Print version information",
    "",
    "Analysis arguments:",
    "  --include <GLOB>        Only analyze matching files (repeatable)",
    "  --exclude <GLOB>        Skip matching files (repeatable)",
    "  --no-gitignore          Do not honor .gitignore/.ignore",
    "  --timeout-secs <N>      Per-file extraction timeout (default: 60)",
    "  --max-file-size <N>     Skip files larger than N bytes (default: 1048576)",
    "  --workers <N>           Concurrent extraction workers (default: CPU count)",
    "  --verbose, -v           Log progress to stderr",
    "",
    "Impact arguments:",
    "  --direction <DIR>       forward, backward (default) or both",
    "  --kinds <LIST>          Relationship kinds to follow, comma separated (default: all)",
    "  --max-depth <N>         Deepest level to report",
    "",
    "Global arguments:",
    "  --output <FORMAT>       human (default), json or pretty",
    "",
    "Environment:",
    "  BLASTMAP_FILE_TIMEOUT_SECS, BLASTMAP_MAX_FILE_SIZE   Override defaults; flags win",
    "  RUST_LOG                                            Log filter (default: warn)"]

def usage : String :=
  "".intercalate (usageLines.map (· ++ "\n"))

end CodeImpact
