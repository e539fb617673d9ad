import CodeAtlas.Source.Examiner

/-!
# Trees that differ in what files hold

Where a path leads, which files and directories there are and what is named below a directory are
matters of a tree's shape. This file proves that all of these are the same in trees of one shape,
and so is everything that is read from elsewhere than the files in which they differ.
-/

namespace CodeAtlas

namespace FileTree

/-- Whether the same stands at every path of two trees, but for what files hold, however the paths
are listed. -/
structure SamePlaces (t t' : FileTree) : Prop where
  workingDirectory : t'.workingDirectory = t.workingDirectory
  nodes : ∀ parts, t'.node? parts = t.node? parts ∨ ∃ content tree content' tree',
    t.node? parts = some (.file content tree) ∧ t'.node? parts = some (.file content' tree')

/-- Whether two trees differ in nothing but what their files hold. -/
structure SameShape (t t' : FileTree) : Prop where
  keys : t'.nodes.keys = t.nodes.keys
  workingDirectory : t'.workingDirectory = t.workingDirectory
  nodes : ∀ parts, t'.node? parts = t.node? parts ∨ ∃ content tree content' tree',
    t.node? parts = some (.file content tree) ∧ t'.node? parts = some (.file content' tree')

/-- Whether two trees of one shape agree on what stands where a path leads. -/
def AgreesAt (t t' : FileTree) (p : Path) : Prop :=
  ∀ parts, t.locate p = .ok parts → t'.node? parts = t.node? parts

/-- A tree in which one file has been replaced has the shape of the one before. -/
theorem sameShape_put {t : FileTree} {parts : List String} {content content' : ByteArray}
    {tree tree' : Option SyntaxTree} (h : t.node? parts = some (.file content tree)) :
    t.SameShape (t.put parts (.file content' tree')) where
  keys := by
    have hparts := ne_nil_of_file h
    have hknown : t.nodes.contains parts = true := by
      unfold node? at h
      rw [if_neg (by simpa using hparts)] at h
      exact Dict.contains_of_get?_eq_some h
    unfold put
    rw [Dict.keys_insert, if_pos ((Dict.contains_iff_mem_keys _ _).1 hknown)]
  workingDirectory := rfl
  nodes q := by
    rw [node?_put (ne_nil_of_file h)]
    by_cases hq : q = parts
    · rw [if_pos hq, hq]
      exact Or.inr ⟨content, tree, content', tree', h, rfl⟩
    · rw [if_neg hq]
      exact Or.inl rfl

namespace SamePlaces

variable {t t' : FileTree} (h : t.SamePlaces t')
include h

/-! ## Where paths lead -/

theorem linkTarget?_eq (parts : List String) : t'.linkTarget? parts = t.linkTarget? parts := by
  unfold linkTarget?
  rcases h.nodes parts with hsame | ⟨_, _, _, _, hold, hnew⟩
  · rw [hsame]
  · rw [hold, hnew]

theorem resolveWith_eq (follow : List String → List String → List String)
    (done todo : List String) :
    t'.resolveWith follow done todo = t.resolveWith follow done todo := by
  induction todo generalizing done with
  | nil => rfl
  | cons name rest ih =>
    unfold resolveWith
    rw [h.linkTarget?_eq, ih, ih]

theorem resolveFrom_eq (hops : Nat) (done todo : List String) :
    t'.resolveFrom hops done todo = t.resolveFrom hops done todo := by
  induction hops generalizing done todo with
  | zero => rfl
  | succ hops ih =>
    unfold resolveFrom
    rw [h.resolveWith_eq, funext fun done => funext fun todo => ih done todo]

theorem origin_eq (p : Path) : t'.origin p = t.origin p := by
  unfold origin
  rw [h.workingDirectory]

theorem resolve_eq (p : Path) : t'.resolve p = t.resolve p := by
  unfold resolve
  rw [h.origin_eq, h.resolveFrom_eq]

theorem enter_eq (here : List String) (last : Bool) : t'.enter here last = t.enter here last := by
  unfold enter
  rcases h.nodes here with hsame | ⟨_, _, _, _, hold, hnew⟩
  · rw [hsame]
  · rw [hold, hnew]

theorem locateWith_eq
    (follow : Option (List String → List String → Except FileErrorKind (List String)))
    (done rest : List String) :
    t'.locateWith follow done rest = t.locateWith follow done rest := by
  induction rest generalizing done with
  | nil => rfl
  | cons name rest ih =>
    unfold locateWith
    rw [h.linkTarget?_eq, h.enter_eq, ih, ih]

theorem locateFrom_eq (hops : Nat) (done rest : List String) :
    t'.locateFrom hops done rest = t.locateFrom hops done rest := by
  induction hops generalizing done rest with
  | zero => exact h.locateWith_eq none done rest
  | succ hops ih =>
    unfold locateFrom
    rw [h.locateWith_eq, funext fun done => funext fun rest => ih done rest]

theorem locate_eq (p : Path) : t'.locate p = t.locate p := by
  unfold locate
  rw [h.origin_eq, h.locateFrom_eq]

/-! ## What there is -/

/-- A path leads to the same, or to a file in both trees. -/
theorem target?_cases (p : Path) :
    t'.target? p = t.target? p ∨ ∃ content tree content' tree',
      t.target? p = some (.file content tree) ∧ t'.target? p = some (.file content' tree') := by
  unfold target?
  rw [h.locate_eq]
  cases t.locate p with
  | error kind => exact Or.inl rfl
  | ok parts => exact h.nodes parts

theorem isFile_eq (p : Path) : t'.isFile p = t.isFile p := by
  unfold isFile
  rcases h.target?_cases p with hsame | ⟨_, _, _, _, hold, hnew⟩
  · rw [hsame]
  · rw [hold, hnew]

theorem isDirectory_eq (p : Path) : t'.isDirectory p = t.isDirectory p := by
  unfold isDirectory
  rcases h.target?_cases p with hsame | ⟨_, _, _, _, hold, hnew⟩
  · rw [hsame]
  · rw [hold, hnew]

/-! ## What is read -/

/-- A file that stands where the trees agree has the same bytes. -/
theorem readBytes_eq {p : Path} (hp : t.AgreesAt t' p) :
    t'.readBytes p = t.readBytes p := by
  unfold readBytes
  rw [h.locate_eq]
  cases hlocated : t.locate p with
  | error kind => rfl
  | ok parts =>
    dsimp only
    rw [hp parts hlocated]

theorem syntaxTree?_eq {p : Path} (hp : t.AgreesAt t' p) :
    t'.syntaxTree? p = t.syntaxTree? p := by
  unfold syntaxTree? target?
  rw [h.locate_eq]
  cases hlocated : t.locate p with
  | error kind => rfl
  | ok parts =>
    dsimp only
    rw [hp parts hlocated]

theorem read_eq {p : Path} (hp : t.AgreesAt t' p) :
    SourceFile.read t' p = SourceFile.read t p := by
  unfold SourceFile.read
  rw [h.readBytes_eq hp, h.syntaxTree?_eq hp]

end SamePlaces

namespace SameShape

variable {t t' : FileTree} (h : t.SameShape t')
include h

theorem samePlaces : t.SamePlaces t' := ⟨h.workingDirectory, h.nodes⟩

theorem namesBelow_eq (parts : List String) : t'.namesBelow parts = t.namesBelow parts := by
  unfold namesBelow
  rw [h.keys]

/-- A walk meets the same files. -/
theorem walk_eq (r : DiscoveryRule) (depth : Nat) (dir : List String) :
    t'.walk r depth dir = t.walk r depth dir := by
  induction depth generalizing dir with
  | zero => rfl
  | succ depth ih =>
    unfold walk
    rw [h.namesBelow_eq]
    congr 1
    funext name
    dsimp only
    rcases h.nodes (dir ++ [name]) with hsame | ⟨_, _, _, _, hold, hnew⟩
    · simp only [hsame, h.samePlaces.isDirectory_eq, ih]
    · rw [hold, hnew]

/-! ## What examiners make of the shape -/

theorem fileIdentifier_eq (file root : Path) :
    fileIdentifier t' file root = fileIdentifier t file root := by
  unfold fileIdentifier
  rw [h.samePlaces.resolve_eq, h.samePlaces.resolve_eq]

theorem isMarked_eq (l : Language) (dir : Path) : l.isMarked t' dir = l.isMarked t dir := by
  unfold Language.isMarked
  simp only [h.samePlaces.isFile_eq]

theorem pythonIdentifier_eq (file root : Path) :
    PythonModule.identifier t' file root = PythonModule.identifier t file root := by
  unfold PythonModule.identifier
  rw [h.fileIdentifier_eq]

theorem pythonSourceRoot_eq (repository : Path) :
    PythonModule.sourceRoot t' repository = PythonModule.sourceRoot t repository := by
  unfold PythonModule.sourceRoot
  simp only [h.samePlaces.isDirectory_eq]

theorem enclosingPackages_eq (bound : Nat) (dir : Path) (parts : List String) :
    PythonModule.enclosingPackages t' bound dir parts =
      PythonModule.enclosingPackages t bound dir parts := by
  induction bound generalizing dir parts with
  | zero => rfl
  | succ bound ih =>
    unfold PythonModule.enclosingPackages
    rw [h.samePlaces.isFile_eq, ih]

/-- The kind of a Python module does not depend on what other files hold. -/
theorem pythonKind_eq (m : PythonModule) : m.kind t' = m.kind t := by
  have hmarked : Language.python.isMarked t' = Language.python.isMarked t :=
    funext (h.isMarked_eq .python)
  unfold PythonModule.kind PythonModule.nameParts
  simp only [hmarked, h.pythonIdentifier_eq, h.pythonSourceRoot_eq, h.enclosingPackages_eq]

theorem resolveModule?_eq (m : PythonModule) (root : Path) (known : List String) :
    m.resolveModule? t' root known = m.resolveModule? t root known := by
  funext raw
  unfold PythonModule.resolveModule?
  rw [h.pythonIdentifier_eq]

/-- Neither do the units that its methods' parameters are. -/
theorem pythonParameterTargets_eq (m : PythonModule) (root : Path) (known : List String) :
    m.parameterTargets t' root known = m.parameterTargets t root known := by
  unfold PythonModule.parameterTargets
  rw [h.resolveModule?_eq]

theorem pythonDependencies_eq (m : PythonModule) (root : Path) (known : List String) :
    m.dependencies t' root known = m.dependencies t root known := by
  unfold PythonModule.dependencies
  rw [h.resolveModule?_eq, h.pythonIdentifier_eq]

theorem scriptProject_eq (file : Path) :
    Examiner.scriptProject t' file = Examiner.scriptProject t file := by
  unfold Examiner.scriptProject
  simp only [h.samePlaces.isFile_eq, h.samePlaces.resolve_eq]

theorem resolveImport?_eq (file root : Path) (known : List String) (specifier : String) :
    Examiner.resolveImport? t' file root known specifier =
      Examiner.resolveImport? t file root known specifier := by
  unfold Examiner.resolveImport?
  simp only [h.samePlaces.resolve_eq]

theorem moduleParameterTargets_eq (file root : Path) (known : List String) (a : ModuleAnalysis) :
    Examiner.moduleParameterTargets t' file root known a =
      Examiner.moduleParameterTargets t file root known a := by
  unfold Examiner.moduleParameterTargets Examiner.importedUnits
  simp only [h.resolveImport?_eq]

theorem moduleDependencies_eq (file root : Path) (known : List String) (a : ModuleAnalysis) :
    Examiner.moduleDependencies t' file root known a =
      Examiner.moduleDependencies t file root known a := by
  unfold Examiner.moduleDependencies
  simp only [h.resolveImport?_eq]

theorem packageFiles_eq (dir : Path) : GoFile.packageFiles t' dir = GoFile.packageFiles t dir := by
  unfold GoFile.packageFiles
  rw [h.samePlaces.isDirectory_eq, h.namesBelow_eq, h.samePlaces.resolve_eq]

end SameShape

end FileTree

end CodeAtlas
