import CodeAtlas.Proofs.Text.Split
import CodeAtlas.Source.Examiner

/-!
# Specifiers of imports

A specifier that begins with a dot is a path from the directory of the file that imports. It leads
to a place by its letters alone: double dots are followed as they are written, links are not. This
file proves that a specifier which leads to a known module finds it, with and without its suffix,
that one which leads to a directory finds the directory's index, and which places find nothing.
-/

namespace CodeAtlas

/-! ## From one directory to a place -/

/-- Whether a text can be the name of a directory's entry. -/
structure IsEntryName (s : String) : Prop where
  ne_empty : s ≠ ""
  ne_dot : s ≠ "."
  ne_dots : s ≠ ".."
  not_slash : '/' ∉ s.toList

instance (s : String) : Decidable (IsEntryName s) :=
  decidable_of_iff (s ≠ "" ∧ s ≠ "." ∧ s ≠ ".." ∧ '/' ∉ s.toList)
    ⟨fun ⟨h, h', h'', h'''⟩ => ⟨h, h', h'', h'''⟩, fun ⟨h, h', h'', h'''⟩ => ⟨h, h', h'', h'''⟩⟩

/-- The steps from a directory to a place: up to the last directory that they share, and down. -/
def stepsBetween : List String → List String → List String
  | name :: directory, name' :: place =>
    if name = name' then stepsBetween directory place
    else List.replicate (directory.length + 1) ".." ++ name' :: place
  | directory, place => List.replicate directory.length ".." ++ place

/-- The specifier that leads from a directory to a place. -/
def relativeSpecifier (directory place : List String) : String :=
  let steps := stepsBetween directory place
  if steps.head? = some ".." then Path.joined steps else "./" ++ Path.joined steps

namespace Examiner

theorem followDots_concat (parts : List String) (name : String) :
    followDots (parts ++ [name]) =
      if name = ".." then (followDots parts).dropLast else followDots parts ++ [name] := by
  unfold followDots
  rw [List.foldl_append]
  rfl

theorem followDots_append_names (parts : List String) {names : List String}
    (h : ∀ name ∈ names, name ≠ "..") :
    followDots (parts ++ names) = followDots parts ++ names := by
  induction names using List.reverseRecOn with
  | nil => simp
  | append_singleton names name ih =>
    have hname : name ≠ ".." := h name (List.mem_append_right _ (List.mem_singleton_self _))
    rw [← List.append_assoc, followDots_concat, if_neg hname,
      ih fun n hn => h n (List.mem_append_left _ hn), List.append_assoc]

theorem followDots_append_dots (parts : List String) (n : Nat) :
    followDots (parts ++ List.replicate n "..") =
      (followDots parts).take ((followDots parts).length - n) := by
  induction n with
  | zero => simp
  | succ n ih =>
    rw [List.replicate_succ', ← List.append_assoc, followDots_concat, if_pos rfl, ih,
      List.dropLast_eq_take, List.take_take, List.length_take]
    congr 1
    omega

theorem followDots_of_names {names : List String} (h : ∀ name ∈ names, name ≠ "..") :
    followDots names = names :=
  followDots_append_names [] h

/-- The steps from a directory to a place lead there. -/
theorem followDots_append_stepsBetween {directory place : List String}
    (hdirectory : ∀ name ∈ directory, name ≠ "..") (hplace : ∀ name ∈ place, name ≠ "..") :
    followDots (directory ++ stepsBetween directory place) = place := by
  -- the names that both share are collected in front
  suffices h : ∀ shared : List String, (∀ name ∈ shared, name ≠ "..") →
      followDots (shared ++ directory ++ stepsBetween directory place) = shared ++ place from
    h [] nofun
  have hup (shared directory place : List String)
      (hnames : ∀ name ∈ shared ++ directory, name ≠ "..") (hplace : ∀ name ∈ place, name ≠ "..") :
      followDots (shared ++ directory ++ (List.replicate directory.length ".." ++ place)) =
        shared ++ place := by
    rw [← List.append_assoc, followDots_append_names _ hplace, followDots_append_dots,
      followDots_of_names hnames, List.length_append, Nat.add_sub_cancel, List.take_left]
  have hall {shared directory : List String} (hshared : ∀ name ∈ shared, name ≠ "..")
      (hdirectory : ∀ name ∈ directory, name ≠ "..") : ∀ name ∈ shared ++ directory, name ≠ ".." :=
    fun name hname => (List.mem_append.1 hname).elim (hshared name) (hdirectory name)
  induction directory, place using stepsBetween.induct with
  | case1 directory name place ih =>
    intro shared hshared
    have hname : ∀ n ∈ [name], n ≠ ".." := by
      simpa using hdirectory name List.mem_cons_self
    have hrest := ih (fun n hn => hdirectory n (List.mem_cons_of_mem _ hn))
      (fun n hn => hplace n (List.mem_cons_of_mem _ hn)) (shared ++ [name]) (hall hshared hname)
    rw [stepsBetween, if_pos rfl]
    simpa using hrest
  | case2 name directory name' place hne =>
    intro shared hshared
    rw [stepsBetween, if_neg hne]
    exact hup shared (name :: directory) (name' :: place) (hall hshared hdirectory) hplace
  | case3 directory place hends =>
    intro shared hshared
    rw [stepsBetween]
    · exact hup shared directory place (hall hshared hdirectory) hplace
    · exact hends

end Examiner

/-! ## Written steps -/

theorem stepsBetween_steps (directory : List String) {place : List String}
    (hplace : ∀ name ∈ place, IsEntryName name) :
    ∀ step ∈ stepsBetween directory place, step ≠ "" ∧ step ≠ "." ∧ '/' ∉ step.toList := by
  have hup (n : Nat) (place : List String) (hplace : ∀ name ∈ place, IsEntryName name) :
      ∀ step ∈ List.replicate n ".." ++ place, step ≠ "" ∧ step ≠ "." ∧ '/' ∉ step.toList := by
    intro step hstep
    rcases List.mem_append.1 hstep with hdots | hname
    · obtain rfl := List.eq_of_mem_replicate hdots
      decide
    · have h := hplace step hname
      exact ⟨h.ne_empty, h.ne_dot, h.not_slash⟩
  induction directory, place using stepsBetween.induct with
  | case1 directory name place ih =>
    rw [stepsBetween, if_pos rfl]
    exact ih fun n hn => hplace n (List.mem_cons_of_mem _ hn)
  | case2 name directory name' place hne =>
    rw [stepsBetween, if_neg hne]
    exact hup _ _ hplace
  | case3 directory place hends =>
    rw [stepsBetween]
    · exact hup _ _ hplace
    · exact hends

theorem split_joined {steps : List String} (hne : steps ≠ [])
    (h : ∀ step ∈ steps, '/' ∉ step.toList) :
    Text.split (Path.joined steps) '/' = steps := by
  cases steps with
  | nil => exact absurd rfl hne
  | cons step steps => exact Text.split_join_of_not_mem rfl h

theorem startsWith_joined_dots (steps : List String) :
    Text.startsWith (Path.joined (".." :: steps)) "." = true := by
  unfold Text.startsWith Path.joined Text.join
  rw [String.toList_intercalate]
  cases steps <;> simp [List.intercalate]

theorem split_dot_slash (s : String) : Text.split ("./" ++ s) '/' = "." :: Text.split s '/' := by
  have hcut : "./" ++ s = "." ++ "/" ++ s := rfl
  rw [hcut, Text.split_append rfl]
  rfl

/-- A written path without empty components and single dots is read again. -/
theorem ofText_relativeSpecifier {directory place : List String}
    (hplace : ∀ name ∈ place, IsEntryName name) :
    Text.startsWith (relativeSpecifier directory place) "." = true ∧
      (Path.ofText (relativeSpecifier directory place)).parts = stepsBetween directory place := by
  have hsteps := stepsBetween_steps directory hplace
  unfold relativeSpecifier
  generalize stepsBetween directory place = steps at hsteps ⊢
  have hkept : steps.filter (fun p => p ≠ "" && p ≠ ".") = steps :=
    List.filter_eq_self.2 fun step hstep => by
      obtain ⟨hempty, hdot, -⟩ := hsteps step hstep
      simp [hempty, hdot]
  have hslash : ∀ step ∈ steps, '/' ∉ step.toList := fun step hstep => (hsteps step hstep).2.2
  unfold Path.ofText
  dsimp only
  split
  · next hhead =>
    obtain ⟨rest, rfl⟩ := List.head?_eq_some_iff.1 hhead
    exact ⟨startsWith_joined_dots rest, by rw [split_joined (List.cons_ne_nil _ _) hslash, hkept]⟩
  · have hdot : Text.startsWith ("./" ++ Path.joined steps) "." = true := by
      unfold Text.startsWith
      rw [String.toList_append]
      rfl
    refine ⟨hdot, ?_⟩
    rw [split_dot_slash]
    cases steps with
    | nil => rfl
    | cons step steps =>
      rw [split_joined (List.cons_ne_nil _ _) hslash, List.filter_cons_of_neg (by simp), hkept]

/-! ## Where a specifier leads -/

namespace Examiner

/-- The place to which a specifier leads from the directory of a file. -/
def placeOf (t : FileTree) (file : Path) (specifier : String) : List String :=
  followDots ((t.resolve file).parent.parts ++ (Path.ofText specifier).parts)

/-- The specifier that leads from a file's directory to a place does so. -/
theorem placeOf_relativeSpecifier {t : FileTree} {file : Path} {place : List String}
    (hfile : ∀ name ∈ (t.resolve file).parent.parts, name ≠ "..")
    (hplace : ∀ name ∈ place, IsEntryName name) :
    placeOf t file (relativeSpecifier (t.resolve file).parent.parts place) = place := by
  unfold placeOf
  rw [(ofText_relativeSpecifier hplace).2]
  exact followDots_append_stepsBetween hfile fun name hname => (hplace name hname).ne_dots

/-- The known unit that a place below the source root means: the module there, with or without its
suffix, or else the index of the directory there. -/
def unitAt? (known : List String) : List String → Option String
  | [] => none
  | part :: parts =>
    let place := part :: parts
    let candidate := Text.join "." (place.dropLast ++ [dropSuffix (place.getLast?.getD "")])
    if known.contains candidate then some candidate
    else if known.contains (candidate ++ ".index") then some (candidate ++ ".index")
    else none

/-! ## Modules and their places -/

/-- Whether a name ends like the name of a script module. -/
def EndsInSuffix (name : String) : Prop :=
  ∃ suffix ∈ Language.typescript.suffixes, Text.endsWith name suffix = true

theorem exists_ending {suffix : String} (h : suffix ∈ Language.typescript.suffixes) :
    ∃ ending, suffix = "." ++ ending ∧ '.' ∉ ending.toList := by
  unfold Language.suffixes at h
  simp only [List.mem_cons, List.not_mem_nil, or_false] at h
  rcases h with rfl | rfl | rfl | rfl
  exacts [⟨"ts", rfl, by decide⟩, ⟨"tsx", rfl, by decide⟩, ⟨"js", rfl, by decide⟩,
    ⟨"jsx", rfl, by decide⟩]

theorem splitLast?_append_suffix (stem : String) {ending : String} (h : '.' ∉ ending.toList) :
    Text.splitLast? (stem ++ ("." ++ ending)) "." = some (stem, ending) :=
  (Text.splitLast?_eq_some rfl).2 ⟨String.append_assoc.symm, h⟩

theorem dropSuffix_append (stem : String) {suffix : String}
    (h : suffix ∈ Language.typescript.suffixes) : dropSuffix (stem ++ suffix) = stem := by
  obtain ⟨ending, rfl, hending⟩ := exists_ending h
  unfold dropSuffix
  rw [splitLast?_append_suffix stem hending]
  exact if_pos (List.contains_iff_mem.2 h)

theorem dropSuffix_of_not_endsInSuffix {name : String} (h : ¬EndsInSuffix name) :
    dropSuffix name = name := by
  unfold dropSuffix
  split
  · next stem ending hcut =>
    obtain ⟨rfl, -⟩ := (Text.splitLast?_eq_some Text.toList_dot).1 hcut
    refine if_neg fun hsuffix => h ⟨"." ++ ending, List.contains_iff_mem.1 hsuffix, ?_⟩
    exact Text.endsWith_iff.2 ⟨stem, String.append_assoc⟩
  · rfl

/-- A file that is a script module, links followed: the directory below the source root in which it
is, its name without the suffix, and the suffix. -/
structure IsModuleAt (t : FileTree) (root module : Path) (directory : List String)
    (stem suffix : String) : Prop where
  parts : (t.resolve module).parts = (t.resolve root).parts ++ (directory ++ [stem ++ suffix])
  suffix : suffix ∈ Language.typescript.suffixes

theorem relativeTo?_below (root : List String) (parts : List String) :
    (⟨true, root ++ parts⟩ : Path).relativeTo? ⟨true, root⟩ = some parts := by
  unfold Path.relativeTo?
  rw [if_pos (by simp), List.drop_left]

theorem relativeTo?_outside {root parts : List String} (h : ¬root <+: parts) :
    (⟨true, parts⟩ : Path).relativeTo? ⟨true, root⟩ = none := by
  unfold Path.relativeTo?
  exact if_neg (by simpa using h)

theorem IsModuleAt.identifier {t : FileTree} {root module : Path} {directory : List String}
    {stem suffix : String} (h : IsModuleAt t root module directory stem suffix) :
    fileIdentifier t module root = Text.join "." (directory ++ [stem]) := by
  obtain ⟨ending, hsuffix, hending⟩ := exists_ending h.suffix
  have hrelative : (t.resolve module).relativeTo? (t.resolve root) =
      some (directory ++ [stem ++ suffix]) := by
    rw [show t.resolve module = ⟨true, (t.resolve module).parts⟩ from rfl, h.parts]
    exact relativeTo?_below _ _
  unfold fileIdentifier Text.beforeLast
  rw [hrelative]
  dsimp only
  rw [List.getLast?_concat, Option.getD_some, hsuffix, splitLast?_append_suffix stem hending,
    List.dropLast_concat]

/-- What is looked for at a place: the name there without its suffix, and the index below it. -/
theorem unitAt?_concat (known directory : List String) (name : String) :
    unitAt? known (directory ++ [name]) =
      let candidate := Text.join "." (directory ++ [dropSuffix name])
      if candidate ∈ known then some candidate
      else if candidate ++ ".index" ∈ known then some (candidate ++ ".index")
      else none := by
  have hplace : ∃ part parts, directory ++ [name] = part :: parts := by
    cases directory <;> simp
  obtain ⟨part, parts, hparts⟩ := hplace
  rw [hparts, unitAt?, ← hparts]
  simp only [List.dropLast_concat, List.getLast?_concat, Option.getD_some, List.contains_iff_mem]

section Resolution

variable {t : FileTree} {file root : Path} {known : List String} {specifier : String}

theorem startsWith_slash (h : Text.startsWith specifier "." = true) :
    Text.startsWith specifier "/" = false := by
  unfold Text.startsWith at h ⊢
  cases hlist : specifier.toList with
  | nil => rfl
  | cons c cs =>
    rw [hlist] at h
    have hc : '.' = c := by simpa using h
    rw [← hc]
    rfl

/-- A specifier that begins with a dot means what is at the place to which it leads. -/
theorem resolveImport?_eq (h : Text.startsWith specifier "." = true) :
    resolveImport? t file root known specifier =
      ((⟨true, placeOf t file specifier⟩ : Path).relativeTo? (t.resolve root)).bind
        (unitAt? known) := by
  have happend : ((t.resolve file).parent.append (Path.ofText specifier)).parts =
      (t.resolve file).parent.parts ++ (Path.ofText specifier).parts := by
    unfold Path.append
    rw [if_neg]
    change ¬Text.startsWith specifier "/" = true
    rw [startsWith_slash h]
    decide
  unfold resolveImport?
  rw [if_neg (by simp [h])]
  dsimp only
  rw [happend, ← placeOf]
  cases (⟨true, placeOf t file specifier⟩ : Path).relativeTo? (t.resolve root) with
  | none => rfl
  | some parts =>
    cases parts with
    | nil => rfl
    | cons part parts => rfl

/-- A specifier means known modules only. -/
theorem mem_of_resolveImport? {unit : String}
    (h : resolveImport? t file root known specifier = some unit) : unit ∈ known := by
  by_cases hdot : Text.startsWith specifier "." = true
  · rw [resolveImport?_eq hdot] at h
    obtain ⟨parts, -, h⟩ := Option.bind_eq_some_iff.1 h
    obtain rfl | ⟨directory, name, rfl⟩ := List.eq_nil_or_concat parts
    · cases h
    · rw [List.concat_eq_append, unitAt?_concat] at h
      dsimp only at h
      split at h
      · next hmodule => exact Option.some.inj h ▸ hmodule
      · split at h
        · next hindex => exact Option.some.inj h ▸ hindex
        · cases h
  · unfold resolveImport? at h
    rw [if_pos (by simpa using hdot)] at h
    cases h

/-- What a specifier means that leads to a place below the source root. -/
theorem resolveImport?_below (h : Text.startsWith specifier "." = true) {directory : List String}
    {name : String}
    (hplace : placeOf t file specifier = (t.resolve root).parts ++ (directory ++ [name])) :
    resolveImport? t file root known specifier =
      let candidate := Text.join "." (directory ++ [dropSuffix name])
      if candidate ∈ known then some candidate
      else if candidate ++ ".index" ∈ known then some (candidate ++ ".index")
      else none := by
  rw [resolveImport?_eq h, hplace]
  refine (congrArg (·.bind (unitAt? known)) (relativeTo?_below _ _)).trans ?_
  exact unitAt?_concat known directory name

/-- A specifier finds the known module to which it leads. -/
theorem resolveImport?_module {module : Path} {directory : List String} {stem suffix : String}
    (hmodule : IsModuleAt t root module directory stem suffix)
    (hknown : fileIdentifier t module root ∈ known) (h : Text.startsWith specifier "." = true)
    (hplace : placeOf t file specifier = (t.resolve module).parts ∨
      placeOf t file specifier = (t.resolve root).parts ++ (directory ++ [stem]) ∧
        ¬EndsInSuffix stem) :
    resolveImport? t file root known specifier = some (fileIdentifier t module root) := by
  rw [hmodule.identifier] at hknown ⊢
  rcases hplace with hplace | ⟨hplace, hstem⟩
  · rw [resolveImport?_below h (hplace.trans hmodule.parts), dropSuffix_append stem hmodule.suffix]
    exact if_pos hknown
  · rw [resolveImport?_below h hplace, dropSuffix_of_not_endsInSuffix hstem]
    exact if_pos hknown

/-- A specifier that leads to a directory below the source root finds the known index there. -/
theorem resolveImport?_directory {index : Path} {up : List String} {name suffix : String}
    (hindex : IsModuleAt t root index (up ++ [name]) "index" suffix)
    (hknown : fileIdentifier t index root ∈ known) (h : Text.startsWith specifier "." = true)
    (hplace : placeOf t file specifier = (t.resolve root).parts ++ (up ++ [name]))
    (hname : ¬EndsInSuffix name) (hmodule : Text.join "." (up ++ [name]) ∉ known) :
    resolveImport? t file root known specifier = some (fileIdentifier t index root) := by
  have hindex : fileIdentifier t index root = Text.join "." (up ++ [name]) ++ ".index" := by
    rw [hindex.identifier, Text.join_concat "." (List.concat_ne_nil _ _), String.append_assoc]
    rfl
  rw [hindex] at hknown ⊢
  rw [resolveImport?_below h hplace, dropSuffix_of_not_endsInSuffix hname]
  dsimp only
  rw [if_neg hmodule, if_pos hknown]

/-- Nothing is found at the source root itself. -/
theorem resolveImport?_root (h : Text.startsWith specifier "." = true)
    (hplace : placeOf t file specifier = (t.resolve root).parts) :
    resolveImport? t file root known specifier = none := by
  rw [resolveImport?_eq h, hplace]
  have hroot := relativeTo?_below (t.resolve root).parts []
  rw [List.append_nil] at hroot
  exact congrArg (·.bind (unitAt? known)) hroot

/-- Nothing is found outside of the source root, and by other specifiers than paths. -/
theorem resolveImport?_outside (h : Text.startsWith specifier "." = true →
    ¬(t.resolve root).parts <+: placeOf t file specifier) :
    resolveImport? t file root known specifier = none := by
  by_cases hdot : Text.startsWith specifier "." = true
  · rw [resolveImport?_eq hdot]
    exact congrArg (·.bind (unitAt? known)) (relativeTo?_outside (h hdot))
  · unfold resolveImport?
    rw [if_pos (by simpa using hdot)]

end Resolution

/-- What specifiers mean in the file that imports. One that leads to a known module, with its suffix
or, if the rest of its name does not end in a suffix, without it, finds the module. One that leads
to a directory below the source root finds the directory's known index, unless a known module has
the directory's name; but a directory whose name ends in a suffix is looked for without it, and the
source root itself has no index. What leads out of the source root and what is no path finds
nothing. The specifier that leads from the file's directory to a place does lead there. -/
theorem specifiers_find_modules (t : FileTree) (file root : Path) (known : List String)
    (specifier : String) :
    (∀ module directory stem suffix, IsModuleAt t root module directory stem suffix →
      fileIdentifier t module root ∈ known → Text.startsWith specifier "." = true →
      (placeOf t file specifier = (t.resolve module).parts ∨
        placeOf t file specifier = (t.resolve root).parts ++ (directory ++ [stem]) ∧
          ¬EndsInSuffix stem) →
      resolveImport? t file root known specifier = some (fileIdentifier t module root)) ∧
    (∀ index up name suffix, IsModuleAt t root index (up ++ [name]) "index" suffix →
      fileIdentifier t index root ∈ known → Text.startsWith specifier "." = true →
      placeOf t file specifier = (t.resolve root).parts ++ (up ++ [name]) →
      ¬EndsInSuffix name → Text.join "." (up ++ [name]) ∉ known →
      resolveImport? t file root known specifier = some (fileIdentifier t index root)) ∧
    (∀ up name, ∀ suffix ∈ Language.typescript.suffixes,
      Text.startsWith specifier "." = true →
      placeOf t file specifier = (t.resolve root).parts ++ (up ++ [name ++ suffix]) →
      Text.join "." (up ++ [name]) ∉ known → Text.join "." (up ++ [name]) ++ ".index" ∉ known →
      resolveImport? t file root known specifier = none) ∧
    (placeOf t file specifier = (t.resolve root).parts →
      resolveImport? t file root known specifier = none) ∧
    (¬(t.resolve root).parts <+: placeOf t file specifier ∨
        Text.startsWith specifier "." = false →
      resolveImport? t file root known specifier = none) ∧
    ∀ place, (∀ name ∈ (t.resolve file).parent.parts, IsEntryName name) →
      (∀ name ∈ place, IsEntryName name) →
      Text.startsWith (relativeSpecifier (t.resolve file).parent.parts place) "." = true ∧
        placeOf t file (relativeSpecifier (t.resolve file).parent.parts place) = place := by
  refine ⟨fun module directory stem suffix hmodule hknown h hplace =>
      resolveImport?_module hmodule hknown h hplace,
    fun index up name suffix hindex hknown h hplace hname hmodule =>
      resolveImport?_directory hindex hknown h hplace hname hmodule, ?_, ?_, ?_, ?_⟩
  · intro up name suffix hsuffix h hplace hmodule hindex
    rw [resolveImport?_below h hplace, dropSuffix_append name hsuffix]
    dsimp only
    rw [if_neg hmodule, if_neg hindex]
  · intro hplace
    by_cases h : Text.startsWith specifier "." = true
    · exact resolveImport?_root h hplace
    · exact resolveImport?_outside fun hdot => absurd hdot h
  · rintro (houtside | hplain)
    · exact resolveImport?_outside fun _ => houtside
    · exact resolveImport?_outside fun hdot => absurd (hdot.symm.trans hplain) (by decide)
  · intro place hfile hplace
    exact ⟨(ofText_relativeSpecifier hplace).1,
      placeOf_relativeSpecifier (fun name hname => (hfile name hname).ne_dots) hplace⟩

/-- A project with a module and an index in its source directory and in a directory below it. -/
def scripts : FileTree :=
  ⟨⟨[(["src"], .directory), (["src", "main.ts"], .file .empty none),
    (["src", "index.ts"], .file .empty none), (["src", "users"], .directory),
    (["src", "users", "index.ts"], .file .empty none),
    (["src", "users", "list.tsx"], .file .empty none)]⟩, []⟩

/-- The source directory of the project. -/
def scriptsRoot : Path := ⟨true, ["src"]⟩

/-- The module that imports. -/
def listModule : Path := ⟨true, ["src", "users", "list.tsx"]⟩

/-- The identifiers of the project's modules. -/
def scriptUnits : List String := ["index", "main", "users.index", "users.list"]

/-- Both spellings find the module one directory up, a dot finds the index beside the file, and the
way to the module is two dots and its name. -/
theorem specifiers_find_modules_of_scripts :
    resolveImport? scripts listModule scriptsRoot scriptUnits "../main.ts" = some "main" ∧
      resolveImport? scripts listModule scriptsRoot scriptUnits "../main" = some "main" ∧
      resolveImport? scripts listModule scriptsRoot scriptUnits "./" = some "users.index" ∧
      resolveImport? scripts listModule scriptsRoot scriptUnits "../../main" = none ∧
      relativeSpecifier ["src", "users"] ["src", "main"] = "../main" ∧
      placeOf scripts listModule "../main" = ["src", "main"] := by
  have hmain : IsModuleAt scripts scriptsRoot ⟨true, ["src", "main.ts"]⟩ [] "main" ".ts" :=
    ⟨by decide +kernel, by decide⟩
  have hindex : IsModuleAt scripts scriptsRoot ⟨true, ["src", "users", "index.ts"]⟩
      ([] ++ ["users"]) "index" ".ts" := ⟨by decide +kernel, by decide⟩
  have hplain (name : String) (h : ∀ suffix ∈ Language.typescript.suffixes,
      Text.endsWith name suffix = false) : ¬EndsInSuffix name := by
    rintro ⟨suffix, hsuffix, hends⟩
    exact Bool.false_ne_true ((h suffix hsuffix).symm.trans hends)
  obtain ⟨hsuffixed, -⟩ :=
    specifiers_find_modules scripts listModule scriptsRoot scriptUnits "../main.ts"
  obtain ⟨hbare, -, -, -, -, hway⟩ :=
    specifiers_find_modules scripts listModule scriptsRoot scriptUnits "../main"
  obtain ⟨-, hdirectory, -⟩ :=
    specifiers_find_modules scripts listModule scriptsRoot scriptUnits "./"
  obtain ⟨-, -, -, -, houtside, -⟩ :=
    specifiers_find_modules scripts listModule scriptsRoot scriptUnits "../../main"
  refine ⟨hsuffixed _ _ _ _ hmain (by decide +kernel) rfl (.inl (by decide +kernel)),
    hbare _ _ _ _ hmain (by decide +kernel) rfl
      (.inr ⟨by decide +kernel, hplain "main" (by decide +kernel)⟩),
    (hdirectory _ _ _ _ hindex (by decide +kernel) rfl (by decide +kernel)
      (hplain "users" (by decide +kernel)) (by decide +kernel)).trans (by decide +kernel),
    houtside (.inl (by decide +kernel)), by decide +kernel, ?_⟩
  exact (hway ["src", "main"] (by decide +kernel) (by decide +kernel)).2

/-- The index of the source root is not found by the path to the root, and a directory whose name
ends in a suffix is not found at all. -/
theorem index_not_found :
    IsModuleAt scripts scriptsRoot ⟨true, ["src", "index.ts"]⟩ [] "index" ".ts" ∧
      fileIdentifier scripts ⟨true, ["src", "index.ts"]⟩ scriptsRoot ∈ scriptUnits ∧
      placeOf scripts listModule ".." = ["src"] ∧
      resolveImport? scripts listModule scriptsRoot scriptUnits ".." = none ∧
      resolveImport? scripts listModule scriptsRoot ["chart.js.index"] "../chart.js" = none := by
  refine ⟨⟨by decide +kernel, by decide⟩, ?_, ?_, ?_, ?_⟩ <;> decide +kernel

end Examiner

end CodeAtlas
