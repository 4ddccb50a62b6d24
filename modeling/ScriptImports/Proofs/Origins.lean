import ScriptImports.Proofs.Certificate

/-!
What the importing file has to do with the place that a name leads to. A native module with an
absolute name, and any name with a slash for the root, is found at the same place from wherever it is
imported. A script whose name is absolute by its `file:` scheme or its drive marker alone is read as
a relative one: it is looked for beside the importing file, and nowhere without such a file.
-/
namespace ScriptImports

theorem Name.isUrl_of_isRooted {name : String} (rooted : (Path.ofString name).isRooted = true) :
    isUrl name = false := by
  obtain ⟨below, spelled⟩ := Path.isRooted_ofString_iff.1 rooted
  rw [isUrl, spelled]
  rfl

namespace Resolution

variable {s : Settings} {t : FileTree}

/-- What an outcome tells, but for the file and line of the statement. -/
def told (outcome : Except ImportFailure Resolution) : Except FailureCause Resolution :=
  outcome.mapError ImportFailure.cause

/-- A native module is found from any two files alike that give its name the same candidates. -/
theorem told_native {r r' : Reference} (named : r.name = r'.name)
    (candidates : Search.candidates s r.name r.file = Search.candidates s r'.name r'.file)
    (native : Name.kind s.nativeExtensions s.scriptExtensions r.name = .native) :
    told (resolve s t r) = told (resolve s t r') := by
  rw [resolve_native native, resolve_native (named ▸ native), candidates, named]
  split <;> rfl

theorem candidates_absolute {name : String} (absolute : Name.form name = .absolute)
    (origin : Option Path) :
    Search.candidates s name origin =
      [⟨"absolute path", (Name.toPath name).anchor s.workingDir⟩] := by
  rw [Search.candidates, absolute]

/-- A script with a slash for the root is where its name says. -/
theorem resolve_rooted {r : Reference}
    (script : Name.kind s.nativeExtensions s.scriptExtensions r.name = .script)
    (rooted : (Path.ofString r.name).isRooted = true) :
    resolve s t r = .ok ⟨⟨.script, .path (Path.ofString r.name).normalize⟩, []⟩ := by
  have url := Name.isUrl_of_isRooted rooted
  rw [resolve, script, scriptLocation?, url, rooted, Path.anchor, rooted]
  rfl

/-- Any other script, but for the remote ones, is read from the folder of the importing file. -/
theorem told_beside {r : Reference}
    (script : Name.kind s.nativeExtensions s.scriptExtensions r.name = .script)
    (url : Name.isUrl r.name = false) (rooted : (Path.ofString r.name).isRooted = false) :
    told (resolve s t r) =
      match r.file with
      | none => .error (.missingOrigin r.name)
      | some file =>
        .ok ⟨⟨.script, .path ((Path.ofString r.name).anchor (file.folder s.workingDir))⟩, []⟩ := by
  rw [resolve, script, scriptLocation?, url, rooted]
  cases r.file <;> rfl

/-- An absolute name of a native module, and one of a script that starts with a slash, stands for the
same from wherever it is imported; the script is where the name says, and needs no importing file. A
script that is absolute by its scheme or its drive marker is read as a relative name. -/
theorem resolve_absolute {s : Settings} {name : String} (absolute : Name.form name = .absolute)
    (t : FileTree) :
    (Name.kind s.nativeExtensions s.scriptExtensions name = .native ∨
        (Path.ofString name).isRooted = true →
      ∀ r r' : Reference, r.name = name → r'.name = name →
        told (resolve s t r) = told (resolve s t r')) ∧
    (Name.kind s.nativeExtensions s.scriptExtensions name = .script →
      (Path.ofString name).isRooted = true →
      ∀ r : Reference, r.name = name →
        resolve s t r = .ok ⟨⟨.script, .path (Path.ofString name).normalize⟩, []⟩) ∧
    (Name.kind s.nativeExtensions s.scriptExtensions name = .script →
      (Path.ofString name).isRooted = false →
      ∀ r : Reference, r.name = name →
        told (resolve s t r) =
          match r.file with
          | none => .error (.missingOrigin name)
          | some file =>
            .ok ⟨⟨.script, .path ((Path.ofString name).anchor (file.folder s.workingDir))⟩, []⟩) := by
  have url : Name.isUrl name = false := by
    rw [← Bool.not_eq_true, ← Name.form_eq_url_iff, absolute]
    nofun
  refine ⟨?_, ?_, ?_⟩
  · intro anywhere r r' named named'
    subst named
    cases kind : Name.kind s.nativeExtensions s.scriptExtensions r.name with
    | native =>
        apply told_native named'.symm _ kind
        rw [candidates_absolute absolute, named', candidates_absolute absolute]
    | script =>
        have rooted := anywhere.resolve_left (by rw [kind]; nofun)
        rw [resolve_rooted kind rooted, resolve_rooted (named' ▸ kind) (named' ▸ rooted), named']
  · rintro script rooted r rfl
    exact resolve_rooted script rooted
  · rintro script unrooted r rfl
    exact told_beside script url unrooted

theorem resolve_absolute_driveMarker :
    Name.form "C:\\lib\\a.mjs" = .absolute ∧
    told (resolve (Settings.default fun _ => none) .empty ⟨"C:\\lib\\a.mjs", none, 1⟩) =
      told (resolve (Settings.default fun _ => none) .empty
        ⟨"C:\\lib\\a.mjs", some (Path.ofString "/proj/main.nako3"), 2⟩) := by
  have absolute : Name.form "C:\\lib\\a.mjs" = .absolute := by decide
  exact ⟨absolute, (resolve_absolute absolute .empty).1 (Or.inl (by decide)) _ _ rfl rfl⟩

/-- The scheme that a native module may have makes the place of a script hang on the file that
imports it. -/
theorem resolve_stranded :
    Name.form "file:///lib/a.nako3" = .absolute ∧
    told (resolve (Settings.default fun _ => none) .empty ⟨"file:///lib/a.nako3", none, 1⟩) =
      .error (.missingOrigin "file:///lib/a.nako3") ∧
    told (resolve (Settings.default fun _ => none) .empty
        ⟨"file:///lib/a.nako3", some (Path.ofString "/proj/main.nako3"), 1⟩) =
      .ok ⟨⟨.script, .path (Path.ofString "/proj/file:/lib/a.nako3")⟩, []⟩ := by
  have beside : (Path.ofString "file:///lib/a.nako3").anchor
      ((Path.ofString "/proj/main.nako3").folder (Path.ofString ".")) =
        Path.ofString "/proj/file:/lib/a.nako3" := by decide +kernel
  refine ⟨by decide, ?_, ?_⟩
  · rw [told_beside (by decide) (by decide) (by decide)]
  · rw [told_beside (by decide) (by decide) (by decide), ← beside]
    rfl

end Resolution

end ScriptImports
