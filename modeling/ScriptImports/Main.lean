import ScriptImports.CommandLine.Reach

/-!
The program `nako-loader`. It copies what a run looks at from the disk into a file tree, and then
runs on that. There is no network here.
-/
namespace ScriptImports.Main

/-- Copies an entry and the directories above it, if it is there. `below` are the names that lead
to it from a directory that has been copied. -/
def copyEntry (tree : FileTree) (directory : Path) : List Segment → IO FileTree
  | [] => return tree
  | name :: below => do
    if name = Segment.here then copyEntry tree directory below
    else if name = Segment.up then copyEntry tree (directory.parent?.getD directory) below
    else
      let entry := directory.child (PathText.shown name)
      try
        let real ← IO.FS.realPath entry.toString
        let target := Path.ofString real.toString
        if ← real.isDir then
          let tree := tree.write target .directory
          let tree := if target = entry then tree else tree.write entry (.link target)
          copyEntry tree target below
        else
          let tree := tree.write target (.file (← IO.FS.readBinFile real))
          return if target = entry then tree else tree.write entry (.link target)
      catch _ => return tree

def copyPath (tree : FileTree) (p : Path) : IO FileTree :=
  copyEntry tree Path.root ((Path.ofSegments true tree.current).join p).steps

/-- How often something that was copied shows what else to copy: the settings show the program's
imports, and a descriptor shows its entry file. -/
def rounds : Nat := 4

def copyReach (words : List String) : Nat → CommandLine.Host → IO CommandLine.Host
  | 0, h => return h
  | n + 1, h => do
    let tree ← (CommandLine.reach h words).foldlM copyPath h.tree
    copyReach words n { h with tree := tree }

def consulted : List String :=
  ["NAKO_LIB", "NAKO_HOME", "NODE_PATH", "XDG_CONFIG_HOME", "HOME", "TMPDIR"]

/-- A tree with the current directory. Where that is gone, it is a place that has nothing. -/
def start : IO FileTree :=
  try
    let directory := Path.ofString (← IO.currentDir).toString
    return { FileTree.empty with current := directory.segments }.write directory .directory
  catch _ => return { FileTree.empty with current := [[]] }

def host : IO CommandLine.Host := do
  let values ← consulted.mapM fun name => do return (name, ← IO.getEnv name)
  let environment : Environment := fun name => (values.lookup name).join.map PathText.ofString
  let executable : Except Fault Path ←
    try pure (.ok (Path.ofString (← IO.appPath).toString))
    catch e => pure (.error (.other e.toString))
  return ⟨environment, ← start, .unavailable, executable, none⟩

end ScriptImports.Main

def main (words : List String) : IO UInt32 := do
  let h ← ScriptImports.Main.copyReach words ScriptImports.Main.rounds (← ScriptImports.Main.host)
  let output := ScriptImports.CommandLine.run h ⟨[], []⟩ words
  IO.print output.out
  IO.eprint output.error
  return UInt32.ofNat output.exit
