import PackageDoc.CommandLine
import PackageDoc.Files.Session

/-!
# The program

Documents a package and writes the result as JSON.  The paths of the files that may belong to the
package are read from the standard input, one to a line.  Modules are not imported.
-/

namespace PackageDoc

/-- The paths on the standard input. -/
partial def readPaths (input : IO.FS.Stream) : IO (List String) := do
  let line ← input.getLine
  if line.isEmpty then return []
  let path := trimmed line
  let rest ← readPaths input
  return if path.isEmpty then rest else path :: rest

/-- A file with its contents. -/
def readFile (path : String) : IO (String × Option (List UInt8)) := do
  let bytes ← IO.FS.readBinFile path
  return (path, some bytes.toList)

/-- Document a package. -/
def runWith (options : Options) : IO UInt32 := do
  let paths ← readPaths (← IO.getStdin)
  let files ← paths.mapM readFile
  let session : Session := { config := options.config, searchPath := options.searchPath }
  match session.run (FileTree.ofFiles files) options.root with
  | .error error =>
    IO.eprintln error.message
    return 1
  | .ok model =>
    IO.FS.createDirAll options.outputDir
    IO.FS.writeFile (model.filePath options.outputDir) model.fileText
    return 0

end PackageDoc

/-- Run with the arguments of the command line. -/
def main (args : List String) : IO UInt32 :=
  match PackageDoc.Options.ofArgs args with
  | .error error => do
    IO.eprintln error.message
    return 2
  | .ok options => PackageDoc.runWith options
