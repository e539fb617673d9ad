import CodeAtlas.Proofs.Text.Occurrences
import CodeAtlas.Source.TypeScript
import Mathlib.Data.List.DropRight

/-!
# Paths of route files

The path that a route file answers is looked for among the letters of the file's own path: behind
the first `app/` and in front of the last `/route.`. This file proves what that is among the path's
components: what counts are directories whose names end with `app` and names that begin with
`route.`, and a route of no segments is never found.
-/

namespace CodeAtlas.TypeScript

/-! ## Parameters -/

/-- A text and what it becomes when every bracketed name loses its brackets and gets a colon. A
name reaches from an opening bracket to the next closing one. -/
inductive Parametrized : List Char → List Char → Prop
  | nil : Parametrized [] []
  | parameter {name rest rest' : List Char} : name ≠ [] → ']' ∉ name → Parametrized rest rest' →
      Parametrized ('[' :: (name ++ ']' :: rest)) (':' :: (name ++ rest'))
  | plain {c : Char} {rest rest' : List Char} :
      (∀ name after, c :: rest = '[' :: (name ++ ']' :: after) → ']' ∉ name → name = []) →
      Parametrized rest rest' → Parametrized (c :: rest) (c :: rest')

theorem takeWhile_append_closing {name : List Char} (h : ']' ∉ name) (rest : List Char) :
    (name ++ ']' :: rest).takeWhile (· ≠ ']') = name := by
  have hname : ∀ c ∈ name, decide (c ≠ ']') = true := fun c hc =>
    decide_eq_true fun (heq : c = ']') => h (heq ▸ hc)
  rw [List.takeWhile_append_of_pos hname]
  simp

/-- A name that does not take the rest of the text ends at a closing bracket. -/
theorem eq_append_closing {rest : List Char}
    (h : (rest.takeWhile (· ≠ ']')).length ≠ rest.length) :
    rest = rest.takeWhile (· ≠ ']') ++
      ']' :: rest.drop ((rest.takeWhile (· ≠ ']')).length + 1) := by
  induction rest with
  | nil => exact absurd rfl h
  | cons c cs ih =>
    by_cases hc : c = ']'
    · simp [hc]
    · have htake : (c :: cs).takeWhile (· ≠ ']') = c :: cs.takeWhile (· ≠ ']') :=
        List.takeWhile_cons_of_pos (decide_eq_true hc)
      rw [htake, List.length_cons, List.length_cons, Ne, Nat.add_right_cancel_iff] at h
      rw [htake, List.length_cons, List.cons_append, List.drop_succ_cons]
      exact congrArg (c :: ·) (ih h)

theorem parametrized_routeParameters (cs : List Char) : Parametrized cs (routeParameters cs) := by
  fun_induction routeParameters cs with
  | case1 => exact .nil
  | case2 rest name hnone ih =>
    refine .plain (fun name' after heq hname' => ?_) ih
    obtain rfl : rest = name' ++ ']' :: after := (List.cons.inj heq).2
    have hname : name = name' := takeWhile_append_closing hname' after
    rw [hname] at hnone
    simpa using hnone
  | case3 rest name hsome ih =>
    rw [Bool.or_eq_true, not_or, List.isEmpty_iff, decide_eq_true_eq] at hsome
    obtain ⟨hne, hlength⟩ := hsome
    have hname : ']' ∉ name := fun hmem => by simpa using List.mem_takeWhile_imp hmem
    have hparameter := Parametrized.parameter hne hname ih
    rwa [← eq_append_closing hlength] at hparameter
  | case4 c rest hc ih =>
    exact .plain (fun name after heq _ => absurd (List.cons.inj heq).1 hc) ih

theorem Parametrized.eq {cs ds : List Char} (h : Parametrized cs ds) : routeParameters cs = ds := by
  induction h with
  | nil => simp [routeParameters]
  | @parameter name rest rest' hne hname _ ih =>
    rw [routeParameters, if_pos rfl]
    simp only [takeWhile_append_closing hname]
    rw [if_neg (by simp [hne])]
    simp [ih]
  | @plain c rest rest' hplain _ ih =>
    rw [routeParameters]
    split
    · next hc =>
      subst hc
      dsimp only
      rw [ih, if_pos]
      rw [Bool.or_eq_true, List.isEmpty_iff, decide_eq_true_eq]
      by_contra hname
      rw [not_or] at hname
      exact hname.1 (hplain _ _ (congrArg ('[' :: ·) (eq_append_closing hname.2))
        fun hmem => by simpa using List.mem_takeWhile_imp hmem)
    · rw [ih]

theorem parametrized_iff {cs ds : List Char} : Parametrized cs ds ↔ routeParameters cs = ds :=
  ⟨Parametrized.eq, fun h => h ▸ parametrized_routeParameters cs⟩

theorem Parametrized.append_plain {cs rest rest' : List Char} (hcs : '[' ∉ cs)
    (h : Parametrized rest rest') : Parametrized (cs ++ rest) (cs ++ rest') := by
  induction cs with
  | nil => exact h
  | cons c cs ih =>
    refine .plain (fun name after heq _ => ?_) (ih fun hmem => hcs (List.mem_cons_of_mem c hmem))
    exact absurd ((List.cons.inj heq).1 ▸ List.mem_cons_self) hcs

/-- Parameters do not change how often a letter occurs that is neither a bracket nor a colon. -/
theorem Parametrized.count_eq {cs ds : List Char} (h : Parametrized cs ds) {x : Char}
    (hx : x ≠ '[' ∧ x ≠ ']' ∧ x ≠ ':') : ds.count x = cs.count x := by
  induction h with
  | nil => rfl
  | parameter _ _ _ ih =>
    simp [List.count_append, ih, hx.1.symm, hx.2.1.symm, hx.2.2.symm]
  | plain _ _ ih => simp [List.count_cons, ih]

/-! ## Segments -/

/-- A segment of a route: a name that stands for itself, or the name of a parameter. -/
inductive RouteSegment where
  | fixed (name : String)
  | parameter (name : String)

namespace RouteSegment

/-- The directory of a segment. -/
def directory : RouteSegment → String
  | fixed name => name
  | parameter name => "[" ++ name ++ "]"

/-- The segment in a route's path. -/
def shown : RouteSegment → String
  | fixed name => name
  | parameter name => ":" ++ name

/-- Whether the segment's name is one: a fixed name opens no bracket, a parameter's name is not
empty and closes none. -/
def IsProper : RouteSegment → Prop
  | fixed name => '[' ∉ name.toList
  | parameter name => name ≠ "" ∧ ']' ∉ name.toList

end RouteSegment

theorem toList_slash_joined {part : String} {parts : List String} :
    '/' :: (Path.joined (part :: parts)).toList =
      (part :: parts).flatMap fun p => '/' :: p.toList := by
  induction parts generalizing part with
  | nil => simp [Path.joined, Text.join]
  | cons next rest ih =>
    unfold Path.joined at ih ⊢
    rw [Text.join_cons_cons, String.toList_append, String.toList_append, List.flatMap_cons, ← ih]
    simp

/-- In a path of proper segments exactly the parameters lose their brackets. -/
theorem parametrized_segments {segments : List RouteSegment}
    (h : ∀ s ∈ segments, s.IsProper) :
    Parametrized ('/' :: (Path.joined (segments.map RouteSegment.directory)).toList)
      ('/' :: (Path.joined (segments.map RouteSegment.shown)).toList) := by
  have hall : Parametrized
      ((segments.map RouteSegment.directory).flatMap fun p => '/' :: p.toList)
      ((segments.map RouteSegment.shown).flatMap fun p => '/' :: p.toList) := by
    induction segments with
    | nil => exact .nil
    | cons s rest ih =>
      have hrest := ih fun t ht => h t (List.mem_cons_of_mem s ht)
      rw [List.map_cons, List.map_cons, List.flatMap_cons, List.flatMap_cons]
      have hs := h s List.mem_cons_self
      cases s with
      | fixed name =>
        have hname : '[' ∉ '/' :: name.toList := fun hmem =>
          hs ((List.mem_cons.1 hmem).resolve_left (by decide))
        exact hrest.append_plain hname
      | parameter name =>
        have hname : name.toList ≠ [] := fun hnil => hs.1 (String.toList_injective hnil)
        have hparameter := (Parametrized.parameter hname hs.2 hrest).append_plain
          (show '[' ∉ ['/'] by decide)
        simpa [RouteSegment.directory, RouteSegment.shown] using hparameter
  cases segments with
  | nil => exact .append_plain (show '[' ∉ ['/'] by decide) .nil
  | cons s rest =>
    rw [List.map_cons, List.map_cons, toList_slash_joined, toList_slash_joined]
    exact hall

theorem count_slash_joined {parts : List String} (hne : parts ≠ [])
    (h : ∀ p ∈ parts, '/' ∉ p.toList) :
    ('/' :: (Path.joined parts).toList).count '/' = parts.length := by
  have hall : (parts.flatMap fun p => '/' :: p.toList).count '/' = parts.length := by
    clear hne
    induction parts with
    | nil => rfl
    | cons p rest ih =>
      rw [List.flatMap_cons, List.count_append, List.count_cons_self,
        List.count_eq_zero_of_not_mem (h p List.mem_cons_self),
        ih fun q hq => h q (List.mem_cons_of_mem p hq), List.length_cons]
      omega
  obtain ⟨p, rest, rfl⟩ := List.exists_cons_of_ne_nil hne
  rw [toList_slash_joined, hall]

/-! ## Routes among the components of a path -/

/-- The directories below the first one whose name ends with `app`. -/
def belowApp? (directories : List String) : Option (List String) :=
  (directories.dropWhile fun d => !Text.endsWith d "app").tail?

/-- The components in front of the last one whose name begins with `route.`, if there are any. -/
def aboveRoute? (components : List String) : Option (List String) :=
  let above := (components.rdropWhile fun c => !Text.startsWith c "route.").dropLast
  if above = [] then none else some above

theorem afterApp_joined {directories : List String} {name : String}
    (hdirectories : ∀ d ∈ directories, '/' ∉ d.toList) (hname : '/' ∉ name.toList) :
    (Text.splitFirst? (Path.joined (directories ++ [name])) "app/").map (·.2) =
      (belowApp? directories).map fun below => Path.joined (below ++ [name]) := by
  have hword : "app/" = "app" ++ "/" := rfl
  rw [hword]
  induction directories with
  | nil =>
    have hjoined : Path.joined ([] ++ [name]) = name := by simp [Path.joined, Text.join]
    rw [hjoined, Text.splitFirst?_of_not_mem rfl hname]
    rfl
  | cons d ds ih =>
    have hd : '/' ∉ d.toList := hdirectories d List.mem_cons_self
    have hjoined : Path.joined (d :: ds ++ [name]) = d ++ "/" ++ Path.joined (ds ++ [name]) := by
      obtain ⟨next, rest, hrest⟩ := List.exists_cons_of_ne_nil (l := ds ++ [name]) (by simp)
      unfold Path.joined
      rw [List.cons_append, hrest, Text.join_cons_cons]
    unfold belowApp?
    rw [hjoined, List.dropWhile_cons]
    cases hends : Text.endsWith d "app" with
    | true =>
      obtain ⟨start, rfl⟩ := Text.endsWith_iff.1 hends
      rw [Text.splitFirst?_of_endsWith rfl hd]
      rfl
    | false =>
      rw [Text.splitFirst?_of_not_endsWith rfl (by decide) hd (by simp [hends]), Option.map_map]
      exact ih fun d' hd' => hdirectories d' (List.mem_cons_of_mem d hd')

theorem beforeRoute_joined {components : List String} (h : ∀ c ∈ components, '/' ∉ c.toList) :
    (Text.splitLast? (Path.joined components) "/route.").map (·.1) =
      (aboveRoute? components).map Path.joined := by
  have hword : "/route." = "/" ++ "route." := rfl
  rw [hword]
  induction components using List.reverseRecOn with
  | nil =>
    rw [Text.splitLast?_of_not_mem rfl (by simp [Path.joined, Text.join])]
    rfl
  | append_singleton cs c ih =>
    have hc : '/' ∉ c.toList := h c (by simp)
    by_cases hcs : cs = []
    · subst hcs
      have hjoined : Path.joined ([] ++ [c]) = c := by simp [Path.joined, Text.join]
      have habove : aboveRoute? ([] ++ [c]) = none := by
        unfold aboveRoute?
        rw [List.rdropWhile_concat]
        cases Text.startsWith c "route." <;> rfl
      rw [hjoined, Text.splitLast?_of_not_mem rfl hc, habove]
      rfl
    · have hjoined : Path.joined (cs ++ [c]) = Path.joined cs ++ "/" ++ c :=
        Text.join_concat "/" hcs c
      unfold aboveRoute?
      rw [hjoined, List.rdropWhile_concat]
      cases hstarts : Text.startsWith c "route." with
      | true =>
        obtain ⟨ending, hending⟩ := List.isPrefixOf_iff_prefix.1 hstarts
        obtain rfl : c = "route." ++ String.ofList ending :=
          String.toList_injective (by simp [← hending])
        rw [Text.splitLast?_of_startsWith rfl hc]
        simp [hcs]
      | false =>
        rw [Text.splitLast?_of_not_startsWith rfl (by decide) hc (by simp [hstarts]),
          Option.map_map]
        exact ih fun c' hc' => h c' (List.mem_append_left _ hc')

/-- The segments of the route of a file, given by its directories and its name. -/
def routeSegments? (directories : List String) (name : String) : Option (List String) :=
  (belowApp? directories).bind fun below => aboveRoute? (below ++ [name])

theorem belowApp?_eq_none {directories : List String}
    (h : ∀ d ∈ directories, Text.endsWith d "app" = false) : belowApp? directories = none := by
  unfold belowApp?
  rw [List.dropWhile_eq_nil_iff.2 fun d hd => by simp [h d hd]]
  rfl

theorem belowApp?_append {above : List String} {app : String} {below : List String}
    (habove : ∀ d ∈ above, Text.endsWith d "app" = false) (happ : Text.endsWith app "app" = true) :
    belowApp? (above ++ app :: below) = some below := by
  unfold belowApp?
  rw [List.dropWhile_append_of_pos fun d hd => by simp [habove d hd],
    List.dropWhile_cons_of_neg (by simp [happ])]
  rfl

/-- Either no directory's name ends with `app`, or there is a first one whose name does. -/
theorem belowApp?_cases (directories : List String) :
    (∀ d ∈ directories, Text.endsWith d "app" = false) ∨
      ∃ above app below, directories = above ++ app :: below ∧
        (∀ d ∈ above, Text.endsWith d "app" = false) ∧ Text.endsWith app "app" = true := by
  induction directories with
  | nil => exact .inl nofun
  | cons d ds ih =>
    cases hd : Text.endsWith d "app" with
    | true => exact .inr ⟨[], d, ds, rfl, nofun, hd⟩
    | false =>
      rcases ih with hnone | ⟨above, app, below, rfl, habove, happ⟩
      · exact .inl (by simpa [hd] using hnone)
      · exact .inr ⟨d :: above, app, below, rfl, by simpa [hd] using habove, happ⟩

theorem mem_of_belowApp? {directories below : List String} (h : belowApp? directories = some below)
    {d : String} (hd : d ∈ below) : d ∈ directories := by
  rcases belowApp?_cases directories with hnone | ⟨above, app, below', rfl, habove, happ⟩
  · rw [belowApp?_eq_none hnone] at h
    cases h
  · rw [belowApp?_append habove happ] at h
    obtain rfl := Option.some.inj h
    simp [hd]

theorem aboveRoute?_concat (below : List String) {file : String}
    (h : Text.startsWith file "route." = true) :
    aboveRoute? (below ++ [file]) = if below = [] then none else some below := by
  unfold aboveRoute?
  rw [List.rdropWhile_concat_neg _ _ _ (by simp [h]), List.dropLast_concat]

theorem aboveRoute?_eq_none_iff (components : List String) :
    aboveRoute? components = none ↔
      ∀ c ∈ components.tail, Text.startsWith c "route." = false := by
  induction components using List.reverseRecOn with
  | nil => exact ⟨fun _ => nofun, fun _ => rfl⟩
  | append_singleton cs c ih =>
    cases hc : Text.startsWith c "route." with
    | true =>
      rw [aboveRoute?_concat cs hc]
      cases cs with
      | nil => simp
      | cons d ds => simp [hc]
    | false =>
      have hsame : aboveRoute? (cs ++ [c]) = aboveRoute? cs := by
        unfold aboveRoute?
        rw [List.rdropWhile_concat_pos _ _ _ (by simp [hc])]
      rw [hsame, ih]
      cases cs with
      | nil => simp
      | cons d ds => simp [or_imp, forall_and, hc]

theorem routePath?_joined {directories : List String} {name : String}
    (hdirectories : ∀ d ∈ directories, '/' ∉ d.toList) (hname : '/' ∉ name.toList) :
    routePath? (Path.joined (directories ++ [name])) =
      (routeSegments? directories name).map fun segments =>
        String.ofList (routeParameters ('/' :: (Path.joined segments).toList)) := by
  have hroute (path : String) : routePath? path =
      ((Text.splitFirst? path "app/").map (·.2)).bind fun after =>
        ((Text.splitLast? after "/route.").map (·.1)).map fun route =>
          String.ofList (routeParameters ('/' :: route.toList)) := by
    unfold routePath?
    cases Text.splitFirst? path "app/" with
    | none => rfl
    | some cut =>
      dsimp only [Option.map_some, Option.bind_some]
      cases Text.splitLast? cut.2 "/route." <;> rfl
  unfold routeSegments?
  rw [hroute, afterApp_joined hdirectories hname, Option.map_bind, Option.bind_map]
  refine Option.bind_congr fun below hbelow => ?_
  have hcomponents : ∀ c ∈ below ++ [name], '/' ∉ c.toList := by
    intro c hc
    rcases List.mem_append.1 hc with hmem | hlast
    · exact hdirectories c (mem_of_belowApp? hbelow hmem)
    · exact List.mem_singleton.1 hlast ▸ hname
  rw [Function.comp_apply, beforeRoute_joined hcomponents, Option.map_map]
  rfl

/-- The route of a file is the path of its segments, parametrized. -/
theorem routePath?_eq_some_iff {directories : List String} {name route : String}
    (hdirectories : ∀ d ∈ directories, '/' ∉ d.toList) (hname : '/' ∉ name.toList) :
    routePath? (Path.joined (directories ++ [name])) = some route ↔
      ∃ segments, routeSegments? directories name = some segments ∧
        Parametrized ('/' :: (Path.joined segments).toList) route.toList := by
  rw [routePath?_joined hdirectories hname, Option.map_eq_some_iff]
  refine exists_congr fun segments => and_congr_right fun _ => ?_
  rw [parametrized_iff, ← String.toList_inj, String.toList_ofList]

theorem routeSegments?_of_file {above below : List String} {app file : String}
    (habove : ∀ d ∈ above, Text.endsWith d "app" = false) (happ : Text.endsWith app "app" = true)
    (hfile : Text.startsWith file "route." = true) :
    routeSegments? (above ++ app :: below) file = if below = [] then none else some below := by
  unfold routeSegments?
  rw [belowApp?_append habove happ, Option.bind_some, aboveRoute?_concat below hfile]

/-- A longer route is another one. -/
theorem not_parametrized_of_longer {below segments : List String} {route : List Char}
    (hbelow : ∀ d ∈ below, '/' ∉ d.toList) (hsegments : ∀ s ∈ segments, '/' ∉ s.toList)
    (h : Parametrized ('/' :: (Path.joined segments).toList) route) :
    ¬Parametrized ('/' :: (Path.joined (below ++ "app" :: segments)).toList) route := by
  intro hlonger
  have hslash : '/' ≠ '[' ∧ '/' ≠ ']' ∧ '/' ≠ ':' := by decide
  have hcount := (hlonger.count_eq hslash).symm.trans (h.count_eq hslash)
  have hparts : ∀ p ∈ below ++ "app" :: segments, '/' ∉ p.toList := by
    simp only [List.mem_append, List.mem_cons]
    rintro p (hp | rfl | hp)
    exacts [hbelow p hp, by decide, hsegments p hp]
  rw [count_slash_joined (by simp) hparts, List.length_append, List.length_cons] at hcount
  by_cases hnone : segments = []
  · -- the file stands right below `app`: one slash, and then nothing
    subst hnone
    have hone : ('/' :: (Path.joined []).toList).count '/' = 1 := by decide
    rw [hone, List.length_nil] at hcount
    obtain rfl : below = [] := List.eq_nil_of_length_eq_zero (by omega)
    have hroute := h.eq.trans hlonger.eq.symm
    exact absurd hroute (by simp [routeParameters, Path.joined, Text.join])
  · rw [count_slash_joined hnone hsegments] at hcount
    omega

theorem routeSegments?_eq_none_iff (directories : List String) (name : String) :
    routeSegments? directories name = none ↔
      ∀ above app below, directories = above ++ app :: below →
        (∀ d ∈ above, Text.endsWith d "app" = false) → Text.endsWith app "app" = true →
        ∀ c ∈ (below ++ [name]).tail, Text.startsWith c "route." = false := by
  have hbelow : routeSegments? directories name = none ↔
      ∀ below, belowApp? directories = some below → aboveRoute? (below ++ [name]) = none :=
    Option.bind_eq_none_iff
  simp only [hbelow, aboveRoute?_eq_none_iff]
  constructor
  · rintro h above app below rfl habove happ
    exact h below (belowApp?_append habove happ)
  · intro h below hfound
    rcases belowApp?_cases directories with hnone | ⟨above, app, below', rfl, habove, happ⟩
    · rw [belowApp?_eq_none hnone] at hfound
      cases hfound
    · rw [belowApp?_append habove happ] at hfound
      exact Option.some.inj hfound ▸ h above app below' rfl habove happ

/-- A route file below `app` answers the path of its segments if there are any and `app` is the
first directory whose name ends so. -/
theorem routePath?_file_iff {above segments : List String} {ending route : String}
    (habove : ∀ d ∈ above, '/' ∉ d.toList) (hsegments : ∀ s ∈ segments, '/' ∉ s.toList)
    (hending : '/' ∉ ending.toList)
    (hroute : Parametrized ('/' :: (Path.joined segments).toList) route.toList) :
    routePath? (Path.joined (above ++ "app" :: segments ++ ["route." ++ ending])) = some route ↔
      segments ≠ [] ∧ ∀ d ∈ above, Text.endsWith d "app" = false := by
  have hdirectories : ∀ d ∈ above ++ "app" :: segments, '/' ∉ d.toList := by
    simp only [List.mem_append, List.mem_cons]
    rintro d (hd | rfl | hd)
    exacts [habove d hd, by decide, hsegments d hd]
  have hname : '/' ∉ ("route." ++ ending).toList := by
    rw [String.toList_append]
    exact fun hmem => (List.mem_append.1 hmem).elim (by decide) hending
  have hfile : Text.startsWith ("route." ++ ending) "route." = true :=
    List.isPrefixOf_iff_prefix.2 ⟨ending.toList, (String.toList_append).symm⟩
  rw [routePath?_eq_some_iff hdirectories hname]
  rcases belowApp?_cases above with hnone | ⟨above', app, below, rfl, habove', happ⟩
  · rw [routeSegments?_of_file hnone (by decide) hfile, and_iff_left hnone]
    by_cases hempty : segments = []
    · simp [hempty]
    · rw [if_neg hempty, iff_true_right hempty]
      exact ⟨segments, rfl, hroute⟩
  · -- the segments begin too early
    have hsplit : above' ++ app :: below ++ "app" :: segments =
        above' ++ app :: (below ++ "app" :: segments) := by simp
    rw [hsplit, routeSegments?_of_file habove' happ hfile, if_neg (by simp)]
    have hbelow : ∀ d ∈ below, '/' ∉ d.toList := fun d hd => habove d (by simp [hd])
    constructor
    · rintro ⟨_, hsome, hlonger⟩
      obtain rfl := Option.some.inj hsome
      exact absurd hlonger (not_parametrized_of_longer hbelow hsegments hroute)
    · rintro ⟨-, hends⟩
      exact absurd happ (by simp [hends app (by simp)])

/-- What the route of a file's path is. It is read off the directories below the first one whose
name ends with `app` and above the last name that begins with `route.`. So a file `route.x` in the
segments below a directory `app` answers the segments' path exactly if there are segments and no
directory's name above ends with `app`, and there is no route exactly if below the first name that
ends with `app`, the next one apart, no name begins with `route.`. -/
theorem routes_among_components (directories : List String) (name route : String) :
    ((∀ d ∈ directories, '/' ∉ d.toList) → '/' ∉ name.toList →
      (routePath? (Path.joined (directories ++ [name])) = some route ↔
        ∃ segments, routeSegments? directories name = some segments ∧
          Parametrized ('/' :: (Path.joined segments).toList) route.toList) ∧
      (routePath? (Path.joined (directories ++ [name])) = none ↔
        ∀ above app below, directories = above ++ app :: below →
          (∀ d ∈ above, Text.endsWith d "app" = false) → Text.endsWith app "app" = true →
          ∀ c ∈ (below ++ [name]).tail, Text.startsWith c "route." = false)) ∧
    (∀ (above segments : List String) (ending : String), (∀ d ∈ above, '/' ∉ d.toList) →
      (∀ s ∈ segments, '/' ∉ s.toList) → '/' ∉ ending.toList →
      Parametrized ('/' :: (Path.joined segments).toList) route.toList →
      (routePath? (Path.joined (above ++ "app" :: segments ++ ["route." ++ ending])) = some route ↔
        segments ≠ [] ∧ ∀ d ∈ above, Text.endsWith d "app" = false)) ∧
    ∀ segments : List RouteSegment, (∀ s ∈ segments, s.IsProper) →
      Parametrized ('/' :: (Path.joined (segments.map RouteSegment.directory)).toList)
        ('/' :: (Path.joined (segments.map RouteSegment.shown)).toList) := by
  refine ⟨fun hdirectories hname => ?_, ?_, ?_⟩
  · refine ⟨routePath?_eq_some_iff hdirectories hname, ?_⟩
    rw [routePath?_joined hdirectories hname, Option.map_eq_none_iff, routeSegments?_eq_none_iff]
  · exact fun above segments ending => routePath?_file_iff
  · exact fun segments => parametrized_segments

/-- The segments `users` and `[id]` below `src/app` make a path with a parameter, and there is none
without `app`. -/
theorem routes_among_components_of_users :
    routePath? "src/app/users/[id]/route.ts" = some "/users/:id" ∧
      routePath? "src/pages/route.ts" = none := by
  obtain ⟨-, hfiles, hsegments⟩ := routes_among_components [] "" "/users/:id"
  obtain ⟨hpaths, -, -⟩ := routes_among_components ["src", "pages"] "route.ts" ""
  constructor
  · have hshown := hsegments [.fixed "users", .parameter "id"] (by
      simp [RouteSegment.IsProper])
    exact (hfiles ["src"] ["users", "[id]"] "ts" (by decide) (by decide) (by decide)
      hshown).2 ⟨by decide, by decide⟩
  · refine (hpaths (by decide) (by decide)).2.2 ?_
    intro above app below hsplit _ happ
    have hmem : app ∈ ["src", "pages"] := hsplit ▸ by simp
    exact absurd happ ((by decide : ∀ d ∈ ["src", "pages"], ¬Text.endsWith d "app" = true) app hmem)

/-- A file right below `app` has no route; a directory's name that ends with `app` is taken for
`app`, and a directory's name that begins with `route.` for a route file. -/
theorem routes_misread :
    routePath? "app/route.ts" = none ∧ routePath? "src/myapp/users/route.ts" = some "/users" ∧
      routePath? "myapp/app/users/route.ts" = some "/app/users" ∧
      routePath? "app/users/route.d/page.ts" = some "/users" := by
  refine ⟨?_, ?_, ?_, ?_⟩ <;> cbv

end CodeAtlas.TypeScript
