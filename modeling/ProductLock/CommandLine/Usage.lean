namespace ProductLock.CommandLine

/-- The lines printed when help is asked for. -/
def usage : List String :=
  ["Usage: productdeps COMMAND [OPTIONS]",
    "",
    "  resolve CONFIG       resolve the dependencies, check the lockfile, write the manifest",
    "    -d, --discovered FILE   recommendation blob of an artifact (may be repeated)",
    "    --write-locks           write the lockfile instead of checking it",
    "    -m, --manifest FILE     where the manifest is written",
    "    -l, --lockfile FILE     where the lockfile is",
    "    --report-out FILE       also write the list of dependencies",
    "    -v, --verbose           show more of what is done",
    "  classify VERSION...  show the kinds of versions",
    "    --format json           as a document instead of a table"]

end ProductLock.CommandLine
