import SchemaDoc.Command.Run

/-!
The program. It takes a snapshot of the files around the working directory, runs on it, writes back
the files that changed, prints the answer and exits with its code.
-/

namespace SchemaDoc

namespace Snapshot

abbrev Entries := List (List String × FileTree.Entry)

/-- The names that lead to an absolute path. -/
def names (path : String) : List String :=
  (Path.components path).filterMap fun
    | .name text => some text
    | _ => none

/-- A path and the directories around it, none of which is listed yet. -/
def parents (entries : Entries) (names : List String) : Entries :=
  (List.range (names.length - 1)).foldl (fun entries count =>
    let step := names.take (count + 1)
    if (entries.lookup step).isSome then entries else (step, .directory) :: entries) entries

/-- Add a directory with all that is in it, or a file. Links are not followed. -/
partial def add (entries : Entries) (entry : IO.FS.DirEntry) : IO Entries := do
  let names := names entry.path.toString
  match (← entry.path.symlinkMetadata).type with
  | .dir => (← entry.path.readDir).foldlM add ((names, .directory) :: entries)
  | .file => return (names, .file (← IO.FS.readBinFile entry.path)) :: entries
  | _ => return entries

/-- Add a place outside of what was listed: a file with its content, a directory by name only. -/
def addPlace (entries : Entries) (place : IO.FS.DirEntry) : IO Entries := do
  let names := names place.path.toString
  if (entries.lookup names).isSome || !(← place.path.pathExists) then return entries
  else if ← place.path.isDir then return (names, .directory) :: parents entries names
  else return (names, .file (← IO.FS.readBinFile place.path)) :: parents entries names

/-- The files that a run can see: all below the working directory, and those at given places. -/
def take (places : List String) : IO FileTree := do
  let root ← IO.currentDir
  let own := parents [] (names root.toString ++ [""])
  let entries ← (← root.readDir).foldlM add own
  return ⟨← places.foldlM (fun entries place => addPlace entries ⟨root, place⟩) entries⟩

/-- Write the files that a run has changed. -/
def store (before after : FileTree) : IO Unit :=
  after.entries.reverse.forM fun (names, entry) => do
    let path := "/" ++ "/".intercalate names
    match entry, before.find? names with
    | .directory, none => IO.FS.createDirAll path
    | .file content, some (.file old) =>
      if old != content then IO.FS.writeBinFile path content
    | .file content, _ => IO.FS.writeBinFile path content
    | .directory, some _ => pure ()

end Snapshot

end SchemaDoc

open SchemaDoc in
def main (arguments : List String) : IO UInt32 := do
  let values ← environmentNames.mapM fun name => return (name, ← IO.getEnv name)
  let environment : Environment := fun name => (values.lookup name).bind id
  let root := (← IO.currentDir).toString
  let before ← Snapshot.take (globalSettingsPath environment :: arguments)
  let (output, after) := run root environment before arguments
  Snapshot.store before after
  IO.print output.text
  return output.exitCode.toUInt32
