import CodeAtlas.Text.CharSet

/-!
# Lines

Cutting a text into lines at every line break of Unicode, where a return and a line feed
together are one break; and the form of a text in which every break of the two is a line feed.
-/

namespace CodeAtlas.Text

/-- Whether the character ends a line: line feed, return, the vertical tab and form feed, the
file, group and record separators, next line, and the line and paragraph separators. -/
def isLineBreak (c : Char) : Bool :=
  (0xA ≤ c.toNat && c.toNat ≤ 0xD) || (0x1C ≤ c.toNat && c.toNat ≤ 0x1E) || c.toNat == 0x85 ||
    c.toNat == 0x2028 || c.toNat == 0x2029

/-- The text with every return, alone or before a line feed, written as a line feed. -/
def unifyBreaks : List Char → List Char
  | [] => []
  | '\r' :: '\n' :: rest => '\n' :: unifyBreaks rest
  | '\r' :: rest => '\n' :: unifyBreaks rest
  | c :: rest => c :: unifyBreaks rest

/-- The lines of a text that has no return before a line feed. A break at the end of the text
begins no further line. -/
def linesFrom (line : List Char) : List Char → List (List Char)
  | [] => if line.isEmpty then [] else [line.reverse]
  | c :: rest =>
    if isLineBreak c then line.reverse :: linesFrom [] rest else linesFrom (c :: line) rest

/-- The lines of a text without their breaks. -/
def linesOf (cs : List Char) : List (List Char) := linesFrom [] (unifyBreaks cs)

/-- The lines of a text without their breaks. -/
def lines (s : String) : List String := (linesOf s.toList).map String.ofList

/-- The text with line feeds as its only breaks of the two kinds. -/
def unified (s : String) : String := String.ofList (unifyBreaks s.toList)

/-- A text with unified breaks has no return. -/
theorem return_not_mem_unifyBreaks (cs : List Char) : '\r' ∉ unifyBreaks cs := by
  fun_induction unifyBreaks cs with
  | case1 => simp
  | case2 rest ih => simp [ih]
  | case3 rest h ih => simp [ih]
  | case4 c rest h1 h2 ih =>
    simp only [List.mem_cons, not_or]
    refine ⟨?_, ih⟩
    intro hc
    exact h2 hc.symm

/-- A text without returns stays as it is. -/
theorem unifyBreaks_of_not_mem {cs : List Char} (h : '\r' ∉ cs) : unifyBreaks cs = cs := by
  fun_induction unifyBreaks cs with
  | case1 => rfl
  | case2 rest => simp at h
  | case3 rest => simp at h
  | case4 c rest h1 h2 ih => rw [ih fun hmem => h (List.mem_cons_of_mem _ hmem)]

theorem unified_of_not_mem {s : String} (h : '\r' ∉ s.toList) : unified s = s := by
  rw [unified, unifyBreaks_of_not_mem h, String.ofList_toList]

end CodeAtlas.Text
