import ScriptImports.CommandLine.Run

/-!
Which paths a run looks at. The answer grows with what is known of the file tree: the settings show
where the modules of a name are looked for, a program shows its imports, and a descriptor shows its
entry file.
-/
namespace ScriptImports.CommandLine

def referencePaths (h : Host) (s : Settings) (r : Reference) : List Path :=
  let probed := (Search.candidates s r.name r.file).flatMap fun step =>
    [step.path, step.path.child Descriptor.fileName]
  match Resolution.resolve s h.tree r with
  | .ok ⟨⟨_, .path p⟩, _⟩ => probed ++ [p]
  | _ => probed

def reach (h : Host) (words : List String) : List Path :=
  match parse words with
  | .error _ => []
  | .ok a =>
    let document := (a.config.or (Settings.defaultPath h.environment h.accountHome)).toList
    match settings h a, a.command with
    | .error _, _ => document
    | .ok s, .resolve name origin line => document ++ referencePaths h s ⟨name, origin, line⟩
    | .ok s, .deps program =>
      let shown := (h.tree.canonical program).toOption.getD program
      let references := Statement.scan ((h.tree.readText program).toOption.getD "") (some shown)
      document ++ program :: references.flatMap (referencePaths h s)

end ScriptImports.CommandLine
