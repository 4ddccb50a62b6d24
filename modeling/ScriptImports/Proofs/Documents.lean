import ScriptImports.FileTree.Change
import ScriptImports.Proofs.Overlays
import ScriptImports.Proofs.TomlKeys
import ScriptImports.Settings.Document

/-!
Settings from a document. A document has no key twice, so that each field is set by one entry or by
none, and then it is the default one. Loading keeps what the document says, apart from two values
that it takes for nothing said: the path `.` for the runtime, and an empty list of paths.
-/
namespace ScriptImports

namespace Settings

/-! How the fields of settings are written. -/

def WritesText (text : String) (v : Toml) : Prop := v = .string text

def WritesTexts (texts : List String) (v : Toml) : Prop := v = .array (texts.map .string)

def WritesPath (p : Path) (v : Toml) : Prop := ∃ text, p = Path.ofString text ∧ WritesText text v

def WritesRoot (root : Option Path) (v : Toml) : Prop := ∃ p ∈ root, WritesPath p v

def WritesPaths (ps : List Path) (v : Toml) : Prop :=
  ∃ texts, ps = texts.map Path.ofString ∧ WritesTexts texts v

def WritesCount (count : Option Nat) (v : Toml) : Prop := ∃ n ∈ count, v = .integer n

/-- Settings are related field by field, each under its key and in the way that it is written. -/
structure Fieldwise (R : {α : Type} → String → (α → Toml → Prop) → α → α → Prop)
    (s s' : Settings) : Prop where
  installRoot : R "install_root" WritesPath s.installRoot s'.installRoot
  workingDir : R "working_dir" WritesPath s.workingDir s'.workingDir
  libRoot : R "lib_root" WritesRoot s.libRoot s'.libRoot
  homeRoot : R "home_root" WritesRoot s.homeRoot s'.homeRoot
  globalPaths : R "global_module_paths" WritesPaths s.globalPaths s'.globalPaths
  enginePackage : R "engine_package" WritesText s.enginePackage s'.enginePackage
  stagingDir : R "staging_dir" WritesPath s.stagingDir s'.stagingDir
  nativeExtensions : R "native_extensions" WritesTexts s.nativeExtensions s'.nativeExtensions
  scriptExtensions : R "script_extensions" WritesTexts s.scriptExtensions s'.scriptExtensions
  fetchTimeout : R "fetch_timeout_secs" WritesCount s.fetchTimeout s'.fetchTimeout
  userAgent : R "user_agent" WritesText s.userAgent s'.userAgent

/-- What one entry does to a field. -/
inductive FieldSet (name : String) (v : Toml) {α : Type} (key : String) (writes : α → Toml → Prop) :
    α → α → Prop
  | set {before after : α} : name = key → writes after v → FieldSet name v key writes before after
  | kept (a : α) : name ≠ key → FieldSet name v key writes a a

/-- What a document says of a field. -/
inductive Told (document : TomlTable) {α : Type} (key : String) (writes : α → Toml → Prop) :
    α → α → Prop
  | set {before after : α} {v : Toml} : document.lookup key = some v → writes after v →
    Told document key writes before after
  | unset (a : α) : document.lookup key = none → Told document key writes a a

theorem stringOf?_eq_some_iff {v : Toml} {text : String} :
    stringOf? v = some text ↔ v = .string text := by
  cases v <;> simp [stringOf?]

theorem stringsOf?_eq_some_iff {v : Toml} {texts : List String} :
    stringsOf? v = some texts ↔ WritesTexts texts v := by
  rw [WritesTexts]
  cases v with
  | array items =>
      rw [stringsOf?, Text.mapM_eq_some_iff, Toml.array.injEq]
      induction items generalizing texts with
      | nil => cases texts <;> simp
      | cons item items ih => cases texts <;> simp [stringOf?_eq_some_iff, ih]
  | string | integer | float | boolean | datetime | table | tables => simp [stringsOf?]

theorem countOf?_eq_some_iff {v : Toml} {n : Nat} : countOf? v = some n ↔ v = .integer n := by
  cases v with
  | integer m =>
      rw [countOf?, Toml.integer.injEq]
      split <;> simp <;> omega
  | string | array | float | boolean | datetime | table | tables => simp [countOf?]

/-! An entry sets the field with its name. How it is read depends on what the field holds. -/

section

variable {s' : Settings} {v : Toml} {R : Settings → Prop}

theorem of_text {update : String → Settings} (h : (stringOf? v).map update = some s')
    (each : ∀ text, WritesText text v → R (update text)) : R s' := by
  obtain ⟨text, read, rfl⟩ := Option.map_eq_some_iff.1 h
  exact each text (stringOf?_eq_some_iff.1 read)

theorem of_path {update : Path → Settings}
    (h : ((stringOf? v).map Path.ofString).map update = some s')
    (each : ∀ p, WritesPath p v → R (update p)) : R s' := by
  rw [Option.map_map] at h
  exact of_text h fun text written => each _ ⟨text, rfl, written⟩

theorem of_root {update : Path → Settings}
    (h : ((stringOf? v).map Path.ofString).map update = some s')
    (each : ∀ p, WritesRoot (some p) v → R (update p)) : R s' :=
  of_path h fun p written => each p ⟨p, rfl, written⟩

theorem of_texts {update : List String → Settings} (h : (stringsOf? v).map update = some s')
    (each : ∀ texts, WritesTexts texts v → R (update texts)) : R s' := by
  obtain ⟨texts, read, rfl⟩ := Option.map_eq_some_iff.1 h
  exact each texts (stringsOf?_eq_some_iff.1 read)

theorem of_paths {update : List String → Settings} (h : (stringsOf? v).map update = some s')
    (each : ∀ texts, WritesPaths (texts.map Path.ofString) v → R (update texts)) : R s' :=
  of_texts h fun texts written => each texts ⟨texts, rfl, written⟩

theorem of_count {update : Nat → Settings} (h : (countOf? v).map update = some s')
    (each : ∀ n, WritesCount (some n) v → R (update n)) : R s' := by
  obtain ⟨n, read, rfl⟩ := Option.map_eq_some_iff.1 h
  exact each n ⟨n, rfl, countOf?_eq_some_iff.1 read⟩

end

/-- An entry sets the field with its name, and leaves the other fields as they are. -/
theorem setEntry_fieldwise {s s' : Settings} {name : String} {v : Toml}
    (h : setEntry s name v = some s') : Fieldwise (FieldSet name v) s s' := by
  unfold setEntry at h
  split at h
  case h_12 =>
    cases h
    constructor <;> exact .kept _ ‹_›
  case h_1 | h_2 | h_7 =>
    refine of_path h fun p written => ?_
    constructor <;> first | exact .set rfl written | exact .kept _ nofun
  case h_3 | h_4 =>
    refine of_root h fun p written => ?_
    constructor <;> first | exact .set rfl written | exact .kept _ nofun
  case h_5 =>
    refine of_paths h fun texts written => ?_
    constructor <;> first | exact .set rfl written | exact .kept _ nofun
  case h_6 | h_11 =>
    refine of_text h fun text written => ?_
    constructor <;> first | exact .set rfl written | exact .kept _ nofun
  case h_8 | h_9 =>
    refine of_texts h fun texts written => ?_
    constructor <;> first | exact .set rfl written | exact .kept _ nofun
  case h_10 =>
    refine of_count h fun n written => ?_
    constructor <;> first | exact .set rfl written | exact .kept _ nofun

/-- Relations between fields go through settings. -/
theorem Fieldwise.trans {R S T : {α : Type} → String → (α → Toml → Prop) → α → α → Prop}
    {s₁ s₂ s₃ : Settings} (first : Fieldwise R s₁ s₂) (second : Fieldwise S s₂ s₃)
    (both : ∀ {α : Type} {key : String} {writes : α → Toml → Prop} {a b c : α},
      R key writes a b → S key writes b c → T key writes a c) : Fieldwise T s₁ s₃ where
  installRoot := both first.installRoot second.installRoot
  workingDir := both first.workingDir second.workingDir
  libRoot := both first.libRoot second.libRoot
  homeRoot := both first.homeRoot second.homeRoot
  globalPaths := both first.globalPaths second.globalPaths
  enginePackage := both first.enginePackage second.enginePackage
  stagingDir := both first.stagingDir second.stagingDir
  nativeExtensions := both first.nativeExtensions second.nativeExtensions
  scriptExtensions := both first.scriptExtensions second.scriptExtensions
  fetchTimeout := both first.fetchTimeout second.fetchTimeout
  userAgent := both first.userAgent second.userAgent

/-- The first entry is the only one with its key. -/
theorem FieldSet.told {α : Type} {name key : String} {v : Toml} {document : TomlTable}
    {writes : α → Toml → Prop} {a b c : α} (fresh : document.lookup name = none)
    (entry : FieldSet name v key writes a b) (rest : Told document key writes b c) :
    Told ((name, v) :: document) key writes a c := by
  cases entry with
  | set here written =>
      subst here
      cases rest with
      | set there _ =>
          rw [fresh] at there
          cases there
      | unset => exact .set List.lookup_cons_self written
  | kept other =>
      have same : ((name, v) :: document).lookup key = document.lookup key := by
        rw [List.lookup_cons, beq_eq_false_iff_ne.2 (Ne.symm other)]
      cases rest with
      | set there written => exact .set (same.trans there) written
      | unset nothing => exact .unset _ (same.trans nothing)

theorem told_of_foldlM {document : TomlTable} {s s' : Settings} (distinct : document.Distinct)
    (h : document.foldlM (fun s e => setEntry s e.1 e.2) s = some s') :
    Fieldwise (Told document) s s' := by
  induction document generalizing s with
  | nil =>
      cases h
      constructor <;> exact .unset _ rfl
  | cons entry document ih =>
      rw [List.foldlM_cons] at h
      obtain ⟨next, first, more⟩ := Option.bind_eq_some_iff.1 h
      obtain ⟨fresh, others⟩ := List.nodup_cons.1 distinct
      rw [← Table.lookup_eq_none_iff] at fresh
      exact (setEntry_fieldwise first).trans (ih others more) (FieldSet.told fresh)

/-- Each field is what the document's entry for it writes, or else the default. -/
theorem told_of_ofDocument? {env : Environment} {document : TomlTable} {s : Settings}
    (distinct : document.Distinct) (h : ofDocument? env document = some s) :
    Fieldwise (Told document) (default env) s :=
  told_of_foldlM distinct h

/-! Loading. -/

/-- The root of the runtime: the document's, or else the argument. -/
inductive RuntimeRoot (document : TomlTable) (argument : Path) : Path → Prop
  | set {p : Path} {v : Toml} : document.lookup "install_root" = some v → WritesPath p v →
    p.same (Path.ofString ".") = false → RuntimeRoot document argument p
  /-- The path `.`, in any spelling, is taken for the default. -/
  | here {p : Path} {v : Toml} : document.lookup "install_root" = some v → WritesPath p v →
    p.same (Path.ofString ".") = true → RuntimeRoot document argument argument
  | unset : document.lookup "install_root" = none → RuntimeRoot document argument argument

/-- A root that is the document's or comes from a variable. -/
inductive RootLoaded (document : TomlTable) (key : String) (value : Option PathText) :
    Option Path → Prop
  | set {p : Path} {v : Toml} : document.lookup key = some v → WritesPath p v →
    RootLoaded document key value (some p)
  | unset {root : Option Path} : document.lookup key = none → RootFilled value none root →
    RootLoaded document key value root

/-- The global paths, the document's or from a variable. -/
inductive PathsLoaded (document : TomlTable) (value : Option PathText) : List Path → Prop
  | set {paths : List Path} {v : Toml} : document.lookup "global_module_paths" = some v →
    WritesPaths paths v → paths ≠ [] → PathsLoaded document value paths
  /-- The empty list is taken for the default. -/
  | empty {paths : List Path} : document.lookup "global_module_paths" = some (.array []) →
    PathsFilled value [] paths → PathsLoaded document value paths
  | unset {paths : List Path} : document.lookup "global_module_paths" = none →
    PathsFilled value [] paths → PathsLoaded document value paths

/-- Settings from a document, with what it leaves open from an environment and an argument. -/
structure Loaded (env : Environment) (document : TomlTable) (installRoot : Path) (s : Settings) :
    Prop where
  runtime : RuntimeRoot document installRoot s.installRoot
  libRoot : RootLoaded document "lib_root" (env "NAKO_LIB") s.libRoot
  homeRoot : RootLoaded document "home_root" (env "NAKO_HOME") s.homeRoot
  globalPaths : PathsLoaded document (env "NODE_PATH") s.globalPaths
  enginePackage : Told document "engine_package" WritesText "nadesiko3core" s.enginePackage
  stagingDir : Told document "staging_dir" WritesPath (default env).stagingDir s.stagingDir
  nativeExtensions : Told document "native_extensions" WritesTexts
    ["mjs", "js", "so", "dylib", "dll"] s.nativeExtensions
  scriptExtensions : Told document "script_extensions" WritesTexts ["nako3", "nako"]
    s.scriptExtensions
  fetchTimeout : Told document "fetch_timeout_secs"
    WritesCount (some 30) s.fetchTimeout
  userAgent : Told document "user_agent" WritesText "nako-loader/0.1.0" s.userAgent

variable {env : Environment} {document : TomlTable}

theorem runtimeRoot_of_told {given : Path} (argument : Path)
    (told : Told document "install_root" WritesPath (Path.ofString ".") given) :
    RuntimeRoot document argument
      (if isOpen given then argument else given) := by
  cases told with
  | set there written =>
      split
      · next same => exact .here there written same
      · next other => exact .set there written (Bool.eq_false_iff.2 other)
  | unset nothing =>
      rw [if_pos (by decide)]
      exact .unset nothing

theorem rootLoaded_of_told {key : String} {value : Option PathText} {given root : Option Path}
    (told : Told document key WritesRoot none given)
    (filled : RootFilled value given root) : RootLoaded document key value root := by
  cases told with
  | set there written =>
      obtain ⟨p, rfl, written⟩ := written
      cases filled
      exact .set there written
  | unset nothing => exact .unset nothing filled

theorem pathsLoaded_of_told {value : Option PathText} {given paths : List Path}
    (told : Told document "global_module_paths" WritesPaths [] given)
    (filled : PathsFilled value given paths) : PathsLoaded document value paths := by
  cases told with
  | set there written =>
      by_cases nothing : given = []
      · subst nothing
        obtain ⟨texts, same, rfl⟩ := written
        rw [List.map_eq_nil_iff.1 same.symm] at there
        exact .empty there filled
      · cases filled with
        | kept some => exact .set there written some
        | filled => exact absurd rfl nothing
        | unset => exact absurd rfl nothing
  | unset nothing => exact .unset nothing filled

/-- Once the two paths of the place are filled in, the environment comes over the document. -/
theorem loaded_overlay {given : Settings} (told : Fieldwise (Told document) (default env) given)
    (installRoot workingDir : Path) :
    Loaded env document installRoot
      ({ given with
        installRoot := if isOpen given.installRoot then installRoot else given.installRoot
        workingDir := workingDir }.overlay env) := by
  have overlaid := overlaid_overlay
    { given with
      installRoot := if isOpen given.installRoot then installRoot else given.installRoot
      workingDir := workingDir } env
  exact
    { runtime := runtimeRoot_of_told installRoot told.installRoot
      libRoot := rootLoaded_of_told told.libRoot overlaid.libRoot
      homeRoot := rootLoaded_of_told told.homeRoot overlaid.homeRoot
      globalPaths := pathsLoaded_of_told told.globalPaths overlaid.globalPaths
      enginePackage := told.enginePackage
      stagingDir := told.stagingDir
      nativeExtensions := told.nativeExtensions
      scriptExtensions := told.scriptExtensions
      fetchTimeout := told.fetchTimeout
      userAgent := told.userAgent }

/-- Only the current directory can be missing, where the document leaves the working directory
open. -/
theorem complete_cases (given : Settings) (env : Environment) (tree : FileTree)
    (installRoot : Path) :
    (∃ workingDir, given.complete env tree installRoot =
      .ok ({ given with
        installRoot := if isOpen given.installRoot then installRoot else given.installRoot
        workingDir := workingDir }.overlay env)) ∨
    isOpen given.workingDir = true ∧ ∃ fault, currentDir tree = .error fault ∧
      given.complete env tree installRoot = .error fault := by
  rw [complete]
  dsimp only
  cases isOpen given.workingDir with
  | false => exact Or.inl ⟨given.workingDir, rfl⟩
  | true =>
      cases currentDir tree with
      | error fault => exact Or.inr ⟨rfl, fault, rfl, rfl⟩
      | ok directory => exact Or.inl ⟨directory, rfl⟩

theorem exists?_of_readText {tree : FileTree} {path : Path} {text : String}
    (readable : tree.readText path = .ok text) : tree.exists? path = true := by
  rw [FileTree.exists?]
  cases seen : tree.lookAt path with
  | ok node => rfl
  | error fault =>
      rw [FileTree.readText, FileTree.readBytes, seen] at readable
      cases readable

theorem load_of_readText {tree : FileTree} {path : Path} {text : String} {given : Settings}
    (readable : tree.readText path = .ok text)
    (spelled : Toml.ofText? text = some document) (parses : ofDocument? env document = some given)
    (installRoot : Path) :
    load env tree path installRoot = given.complete env tree installRoot := by
  have parsed : (Toml.ofText? text).bind (ofDocument? env) = some given := by
    rw [spelled, Option.bind_some, parses]
  rw [load, if_pos (exists?_of_readText readable), readable]
  dsimp only
  rw [parsed]

/-- A document that says settings is loaded as what it says, unless it leaves the working directory
open and the current directory is gone. The roots that it leaves open come from the argument and the
environment, and everything else is the default. -/
theorem load_keeps_document {tree : FileTree} {path : Path} {text : String} {given : Settings}
    (readable : tree.readText path = .ok text)
    (spelled : Toml.ofText? text = some document) (parses : ofDocument? env document = some given)
    (installRoot : Path) :
    (∃ s, load env tree path installRoot = .ok s ∧ Loaded env document installRoot s) ∨
    isOpen given.workingDir = true ∧ ∃ fault, currentDir tree = .error fault ∧
      load env tree path installRoot = .error fault := by
  have told := told_of_ofDocument? (Toml.distinct_of_ofText? spelled) parses
  rw [load_of_readText readable spelled parses]
  obtain ⟨workingDir, completed⟩ | gone := complete_cases given env tree installRoot
  · exact Or.inl ⟨_, completed, loaded_overlay told installRoot workingDir⟩
  · exact Or.inr gone

/-- A document with entries of every kind, one of them in a table that says nothing here. -/
def completeText : String :=
  "install_root = '/srv'\nglobal_module_paths = [\"/t\", \"\"]\nfetch_timeout_secs = 5\n" ++
    "[more]\nlib_root = 1\n"

def completeTree : FileTree :=
  FileTree.empty.write (Path.ofString "/l.toml") (.file completeText.toUTF8)

def libEnv : Environment := fun _ => some (.ofString "/lib")

theorem load_keeps_document_complete :
    ∃ document s, Toml.ofText? completeText = some document ∧
      load libEnv completeTree (Path.ofString "/l.toml") (Path.ofString "/opt") = .ok s ∧
      Loaded libEnv document (Path.ofString "/opt") s ∧
      (s.installRoot, s.libRoot, s.globalPaths, s.fetchTimeout) =
        (Path.ofString "/srv", some (Path.ofString "/lib"), [Path.ofString "/t", Path.empty],
          some 5) := by
  have parsed : ((Toml.ofText? completeText).bind (ofDocument? libEnv)).isSome = true := by
    decide +kernel
  obtain ⟨given, parsed⟩ := Option.isSome_iff_exists.1 parsed
  obtain ⟨document, spelled, parses⟩ := Option.bind_eq_some_iff.1 parsed
  have readable : completeTree.readText (Path.ofString "/l.toml") = .ok completeText := by
    decide +kernel
  have here : currentDir completeTree = .ok Path.root := by decide +kernel
  have fields : (load libEnv completeTree (Path.ofString "/l.toml")
      (Path.ofString "/opt")).toOption.map
        (fun s => (s.installRoot, s.libRoot, s.globalPaths, s.fetchTimeout)) =
      some (Path.ofString "/srv", some (Path.ofString "/lib"), [Path.ofString "/t", Path.empty],
        some 5) := by decide +kernel
  obtain ⟨s, loaded, keeps⟩ | ⟨_, fault, gone, _⟩ :=
    load_keeps_document readable spelled parses (Path.ofString "/opt")
  · rw [loaded] at fields
    exact ⟨document, s, spelled, loaded, keeps, Option.some.inj fields⟩
  · rw [here] at gone
    cases gone

/-- A document that says where it is, and that there are no global paths. -/
def dottedText : String := "install_root = './'\nglobal_module_paths = []\n"

def dottedTree : FileTree :=
  FileTree.empty.write (Path.ofString "/l.toml") (.file dottedText.toUTF8)

/-- What this document sets is not kept: the two values stand for nothing set. -/
theorem load_overrules_document :
    ∃ document s, Toml.ofText? dottedText = some document ∧
      document.lookup "install_root" = some (.string "./") ∧
      document.lookup "global_module_paths" = some (.array []) ∧
      load libEnv dottedTree (Path.ofString "/l.toml") (Path.ofString "/opt") = .ok s ∧
      s.installRoot = Path.ofString "/opt" ∧ s.globalPaths = [Path.ofString "/lib"] := by
  have said : ((Toml.ofText? dottedText).bind fun d => (d.lookup "install_root").bind stringOf?) =
      some "./" := by decide +kernel
  have listed : ((Toml.ofText? dottedText).bind fun d =>
      (d.lookup "global_module_paths").bind stringsOf?) = some [] := by decide +kernel
  have fields : (load libEnv dottedTree (Path.ofString "/l.toml")
      (Path.ofString "/opt")).toOption.map (fun s => (s.installRoot, s.globalPaths)) =
        some (Path.ofString "/opt", [Path.ofString "/lib"]) := by decide +kernel
  obtain ⟨document, spelled, said⟩ := Option.bind_eq_some_iff.1 said
  rw [spelled, Option.bind_some] at listed
  obtain ⟨v, there, said⟩ := Option.bind_eq_some_iff.1 said
  obtain ⟨v', there', listed⟩ := Option.bind_eq_some_iff.1 listed
  rw [stringOf?_eq_some_iff] at said
  rw [stringsOf?_eq_some_iff] at listed
  cases loaded : load libEnv dottedTree (Path.ofString "/l.toml") (Path.ofString "/opt") with
  | error fault =>
      rw [loaded] at fields
      cases fields
  | ok s =>
      rw [loaded] at fields
      obtain ⟨runtime, paths⟩ := Prod.mk.inj (Option.some.inj fields)
      exact ⟨document, s, spelled, said ▸ there, listed ▸ there', rfl, runtime, paths⟩

end Settings

end ScriptImports
