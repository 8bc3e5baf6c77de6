/-!
# Help page
-/
namespace MemberOrigin.Cli

def version : String := "0.1.0"

def versionPage : String := "recordlens v" ++ version

/-- The help page; it starts and ends with an empty line. -/
def helpPage : String :=
  "\n".intercalate [
    "",
    "recordlens - record member classifier v" ++ version,
    "",
    "USAGE:",
    "  recordlens <command> [options]",
    "",
    "COMMANDS:",
    "  classify <dump>           Classify every member of a dumped record",
    "  inspect <dump>            Print the normalized bodies of a dumped record",
    "  help                      Show help",
    "  version                   Show version",
    "",
    "GLOBAL OPTIONS:",
    "  -h, --help                Show help",
    "  -v, --version             Show version",
    "  -V, --verbose             Verbose output",
    "  -q, --quiet               Hide progress detail, even with --verbose",
    "  -c, --config <file>       Config file path (default: recordlens.json)",
    "",
    "CLASSIFY OPTIONS:",
    "  --json                    Print the report as JSON",
    "  --only-generated          List compiler-generated members only",
    "  --debug-assertions        Check internal preconditions while matching",
    "",
    "EXAMPLES:",
    "  recordlens classify dumps/point.yaml",
    "  recordlens classify dumps/point.yaml --json --only-generated",
    "  recordlens inspect dumps/point.yaml",
    ""]

end MemberOrigin.Cli
