import CodeAtlas.Proofs.Text.Split
import CodeAtlas.Source.Python

/-!
# References between modules

A reference is a dotted name with a number of dots in front, its level. Without dots it is read from
the source root; one dot means the package of the module that refers, and each further one leads one
package up. This file proves that the answer is the longest known beginning of the name that is
meant, and what is meant when a reference climbs above the source root.
-/

namespace CodeAtlas

namespace PythonModule

/-! ## The longest known beginning -/

/-- Whether a name's parts are the first ones among the given parts. The empty text is no name. -/
def Begins (name : String) (parts : List String) : Prop :=
  name ≠ "" ∧ Text.split name '.' <+: parts

/-- Whether an answer is the known name that begins the given parts and takes most of them, and
there is an answer if there is such a name. -/
structure LongestKnown (known parts : List String) (answer : Option String) : Prop where
  begins : ∀ name ∈ answer, name ∈ known ∧ Begins name parts
  longest : ∀ other ∈ known, Begins other parts →
    ∃ name ∈ answer, (Text.split other '.').length ≤ (Text.split name '.').length

/-- There is only one such answer. -/
theorem LongestKnown.unique {known parts : List String} {answer answer' : Option String}
    (h : LongestKnown known parts answer) (h' : LongestKnown known parts answer') :
    answer = answer' := by
  have hle {a b : Option String} (ha : LongestKnown known parts a) (hb : LongestKnown known parts b)
      (name : String) (hname : name ∈ a) :
      ∃ other ∈ b, (Text.split name '.').length ≤ (Text.split other '.').length :=
    hb.longest name (ha.begins name hname).1 (ha.begins name hname).2
  cases answer with
  | none =>
    cases answer' with
    | none => rfl
    | some name' =>
      obtain ⟨_, hnone, -⟩ := hle h' h name' rfl
      cases hnone
  | some name =>
    obtain ⟨name', hname', hlength⟩ := hle h h' name rfl
    obtain ⟨_, hname, hlength'⟩ := hle h' h name' hname'
    cases hname
    obtain rfl := Option.mem_def.1 hname'
    -- both names take the same number of the first parts
    have hbegins := List.prefix_of_prefix_length_le (h.begins name rfl).2.2
      (h'.begins name' rfl).2.2 hlength
    rw [Text.split_injective '.' (hbegins.eq_of_length (Nat.le_antisymm hlength hlength'))]

theorem not_begins_nil (name : String) : ¬Begins name [] :=
  fun h => Text.split_ne_nil name '.' (List.prefix_nil.1 h.2)

theorem longestKnown_nil (known : List String) : LongestKnown known [] none :=
  ⟨nofun, fun other _ h => (not_begins_nil other h).elim⟩

/-- One part more changes nothing as long as no known name takes all of them. -/
theorem LongestKnown.concat {known parts : List String} {answer : Option String}
    (h : LongestKnown known parts answer) {part : String}
    (hwhole : ∀ other ∈ known, Begins other (parts ++ [part]) →
      Text.split other '.' ≠ parts ++ [part]) :
    LongestKnown known (parts ++ [part]) answer where
  begins name hname := by
    obtain ⟨hknown, hname, hparts⟩ := h.begins name hname
    exact ⟨hknown, hname, hparts.trans (List.prefix_append _ _)⟩
  longest other hother hbegins :=
    h.longest other hother ⟨hbegins.1,
      (List.prefix_concat_iff.1 hbegins.2).resolve_left (hwhole other hother hbegins)⟩

/-- Cutting at the last dot again and again finds the longest known beginning, and comes to an end
before the count runs out. -/
theorem longestKnown_within {known : List String} {bound : Nat} {dotted : String}
    (h : dotted.length < bound) :
    LongestKnown known (Text.split dotted '.') (longestKnownWithin known bound dotted) := by
  induction bound generalizing dotted with
  | zero => exact absurd h (Nat.not_lt_zero _)
  | succ bound ih =>
    have hself (other : String) (hsplit : Text.split other '.' = Text.split dotted '.') :
        other = dotted := Text.split_injective '.' hsplit
    unfold longestKnownWithin
    by_cases hempty : dotted = ""
    · have hsplit : Text.split dotted '.' = [""] := by rw [hempty]; rfl
      rw [if_pos hempty, hsplit]
      refine (longestKnown_nil known).concat fun other _ hbegins hother => ?_
      exact hbegins.1 ((hself other (hother.trans hsplit.symm)).trans hempty)
    · rw [if_neg hempty]
      by_cases hknown : known.contains dotted = true
      · rw [if_pos hknown]
        refine ⟨fun name hname => ?_, fun other _ hbegins => ⟨dotted, rfl, hbegins.2.length_le⟩⟩
        obtain rfl := Option.some.inj hname
        exact ⟨by simpa using hknown, hempty, List.prefix_refl _⟩
      · rw [if_neg hknown]
        have hwhole (other : String) (hother : other ∈ known)
            (hsplit : Text.split other '.' = Text.split dotted '.') : False :=
          hknown (by simpa [hself other hsplit] using hother)
        split
        · next before after hcut =>
          have hsplit := Text.split_of_splitLast? Text.toList_dot hcut
          have hlength : before.length < bound := by
            obtain ⟨rfl, -⟩ := (Text.splitLast?_eq_some Text.toList_dot).1 hcut
            simp only [String.length_append] at h
            have hdot : ".".length = 1 := rfl
            omega
          rw [hsplit] at hwhole ⊢
          exact (ih hlength).concat fun other hother _ => hwhole other hother
        · next hcut =>
          have hsplit := Text.split_of_not_mem ((Text.splitLast?_eq_none Text.toList_dot).1 hcut)
          rw [hsplit] at hwhole ⊢
          exact (longestKnown_nil known).concat fun other hother _ => hwhole other hother

theorem longestKnown_split (known : List String) (dotted : String) :
    LongestKnown known (Text.split dotted '.') (longestKnown? known dotted) :=
  longestKnown_within (Nat.lt_succ_self _)

/-! ## The level of a reference -/

/-- The number of dots in front of a reference. -/
def levelOf (raw : String) : Nat := (raw.toList.takeWhile (· = '.')).length

/-- The parts of a reference behind the dots in front of it. -/
def restOf (raw : String) : List String :=
  let rest := String.ofList (raw.toList.dropWhile (· = '.'))
  if rest = "" then [] else Text.split rest '.'

/-- The parts of the name of a module's package; a package's own file belongs to the package. -/
def packageParts (m : PythonModule) (t : FileTree) (root : Path) : List String :=
  let parts := Text.split (identifier t m.path root) '.'
  if m.path.name = packageFile then parts else parts.dropLast

/-- A name that is joined from the parts of a module's name and the rest of a reference. -/
theorem longestKnown_join (known : List String) {base : List String}
    (hbase : ∀ p ∈ base, '.' ∉ p.toList) (rest : String) :
    LongestKnown known (base ++ if rest = "" then [] else Text.split rest '.')
      (longestKnown? known (Text.join "." (if rest = "" then base else base ++ [rest]))) := by
  have hcut : base.flatMap (fun p => Text.split p '.') = base := by
    rw [List.flatMap_congr fun p hp => Text.split_of_not_mem (hbase p hp), List.flatMap_singleton']
  by_cases hrest : rest = ""
  · rw [if_pos hrest, if_pos hrest, List.append_nil]
    cases base with
    | nil => exact longestKnown_nil known
    | cons part parts =>
      have hknown := longestKnown_split known (Text.join "." (part :: parts))
      rwa [Text.split_join rfl, hcut] at hknown
  · rw [if_neg hrest, if_neg hrest]
    have hknown := longestKnown_split known (Text.join "." (base ++ [rest]))
    cases base with
    | nil => simpa [Text.join] using hknown
    | cons part parts =>
      rwa [List.cons_append, Text.split_join rfl, ← List.cons_append, List.flatMap_append, hcut,
        List.flatMap_singleton] at hknown

/-- The packages that are left of a module's own when a reference has led up from it. Where it
leads beyond the source root, the levels are counted from the end of what there is. -/
def climbed (package : List String) (level : Nat) : List String :=
  if level ≤ package.length + 1 then package.take (package.length - (level - 1))
  else package.take (2 * package.length - (level - 1))

theorem absoluteName_eq (parts : List String) (isPackage : Bool) (raw : String) :
    absoluteName parts isPackage raw =
      let package := if isPackage then parts else parts.dropLast
      let rest := String.ofList (raw.toList.dropWhile (· = '.'))
      Text.join "." (if rest = "" then climbed package (levelOf raw)
        else climbed package (levelOf raw) ++ [rest]) := by
  unfold absoluteName climbed levelOf
  dsimp only
  generalize (raw.toList.takeWhile (· = '.')).length = level
  generalize (if isPackage = true then parts else parts.dropLast) = package
  have hclimbed : (if level > 1 then
      if level - 1 ≤ package.length then package.take (package.length - (level - 1))
      else package.take (package.length - (level - 1 - package.length))
      else package) =
      if level ≤ package.length + 1 then package.take (package.length - (level - 1))
      else package.take (2 * package.length - (level - 1)) := by
    by_cases hlevel : level ≤ package.length + 1
    · rw [if_pos hlevel]
      by_cases hup : level > 1
      · rw [if_pos hup, if_pos (by omega)]
      · rw [if_neg hup, show level - 1 = 0 by omega, Nat.sub_zero, List.take_length]
    · rw [if_neg hlevel, if_pos (by omega), if_neg (by omega)]
      congr 1
      omega
  rw [hclimbed]

theorem startsWith_dot_iff (raw : String) : Text.startsWith raw "." = true ↔ levelOf raw ≠ 0 := by
  unfold Text.startsWith levelOf
  rw [List.isPrefixOf_iff_prefix, show ".".toList = ['.'] from rfl]
  cases raw.toList with
  | nil => simp
  | cons c cs =>
    rw [List.takeWhile_cons]
    by_cases hc : c = '.' <;> simp [hc, eq_comm]

section Resolution

variable (m : PythonModule) (t : FileTree) (root : Path) (known : List String) (raw : String)

theorem longestKnown_absolute (hlevel : levelOf raw = 0) :
    LongestKnown known (Text.split raw '.') (m.resolveModule? t root known raw) := by
  unfold resolveModule?
  rw [if_neg fun h => (startsWith_dot_iff raw).1 h hlevel]
  exact longestKnown_split known raw

theorem longestKnown_relative (hlevel : levelOf raw ≠ 0) :
    LongestKnown known (climbed (m.packageParts t root) (levelOf raw) ++ restOf raw)
      (m.resolveModule? t root known raw) := by
  have hpackage : m.packageParts t root =
      if (m.path.name == packageFile) = true then Text.split (identifier t m.path root) '.'
      else (Text.split (identifier t m.path root) '.').dropLast := by
    unfold packageParts
    simp only [beq_iff_eq]
  have hparts (p : String) (hp : p ∈ climbed (m.packageParts t root) (levelOf raw)) :
      '.' ∉ p.toList := by
    have hmem : p ∈ m.packageParts t root := by
      unfold climbed at hp
      split at hp <;> exact List.mem_of_mem_take hp
    refine Text.not_mem_of_mem_split (s := identifier t m.path root) ?_
    unfold packageParts at hmem
    split at hmem
    · exact hmem
    · exact List.dropLast_subset _ hmem
  unfold resolveModule?
  rw [if_pos ((startsWith_dot_iff raw).2 hlevel), absoluteName_eq, ← hpackage]
  exact longestKnown_join known hparts _

/-- A reference means known modules only. -/
theorem mem_of_resolveModule? {m : PythonModule} {t : FileTree} {root : Path} {known : List String}
    {raw name : String} (h : m.resolveModule? t root known raw = some name) : name ∈ known := by
  by_cases hlevel : levelOf raw = 0
  · exact ((longestKnown_absolute m t root known raw hlevel).begins name h).1
  · exact ((longestKnown_relative m t root known raw hlevel).begins name h).1

end Resolution

/-- The answer to every reference of every module: without dots in front the longest known beginning
of the reference itself; with as many dots as lead to a package or to the source root, the longest
known beginning of that package's name followed by the rest of the reference. With more dots than
that the levels that are too many are taken off the module's own package once more, from its end. An
answer is always a known name. -/
theorem resolveModule_levels (m : PythonModule) (t : FileTree) (root : Path) (known : List String)
    (raw : String) :
    let package := m.packageParts t root
    let level := levelOf raw
    let answer := m.resolveModule? t root known raw
    (level = 0 → LongestKnown known (Text.split raw '.') answer) ∧
    (1 ≤ level → level ≤ package.length + 1 →
      LongestKnown known (package.take (package.length - (level - 1)) ++ restOf raw) answer) ∧
    (package.length + 1 < level →
      LongestKnown known (package.take (2 * package.length - (level - 1)) ++ restOf raw) answer) ∧
    ∀ name, answer = some name → name ∈ known := by
  dsimp only
  have hrelative := longestKnown_relative m t root known raw
  unfold climbed at hrelative
  refine ⟨longestKnown_absolute m t root known raw, fun hdots hlevel => ?_, fun hlevel => ?_, ?_⟩
  · rw [if_pos hlevel] at hrelative
    exact hrelative (Nat.ne_of_gt hdots)
  · rw [if_neg (Nat.not_le.2 hlevel)] at hrelative
    exact hrelative (Nat.ne_of_gt (Nat.zero_lt_of_lt hlevel))
  · exact fun name hname => mem_of_resolveModule? hname

/-- A module in a package of a package. -/
def nestedModule : PythonModule := ⟨⟨true, ["p", "q", "a.py"]⟩, .empty, [], [], false⟩

/-- Two levels up from the package `p.q` there are the modules beside `p`; one more level leads to
the modules in `p` again. -/
theorem resolveModule_levels_of_nested :
    LongestKnown ["x", "p.x"] ["x", "y"]
      (nestedModule.resolveModule? .empty ⟨true, []⟩ ["x", "p.x"] "...x.y") ∧
    LongestKnown ["x", "p.x"] ["p", "x", "y"]
      (nestedModule.resolveModule? .empty ⟨true, []⟩ ["x", "p.x"] "....x.y") ∧
    LongestKnown ["x", "p.x"] ["x", "y"]
      (nestedModule.resolveModule? .empty ⟨true, []⟩ ["x", "p.x"] "x.y") := by
  obtain ⟨-, hlevels, -, -⟩ :=
    resolveModule_levels nestedModule .empty ⟨true, []⟩ ["x", "p.x"] "...x.y"
  obtain ⟨-, -, hbeyond, -⟩ :=
    resolveModule_levels nestedModule .empty ⟨true, []⟩ ["x", "p.x"] "....x.y"
  obtain ⟨habsolute, -, -, -⟩ :=
    resolveModule_levels nestedModule .empty ⟨true, []⟩ ["x", "p.x"] "x.y"
  exact ⟨hlevels (by decide +kernel) (by decide +kernel), hbeyond (by decide +kernel),
    habsolute (by decide +kernel)⟩

/-- So a reference that climbs above the source root may have an answer. -/
theorem resolved_above_root :
    (nestedModule.packageParts .empty ⟨true, []⟩).length + 1 < levelOf "....x" ∧
      nestedModule.resolveModule? .empty ⟨true, []⟩ ["p.x"] "....x" = some "p.x" := by
  constructor <;> decide +kernel

end PythonModule

end CodeAtlas
