import CodeAtlas.Json.Limits

/-!
# The platform

The program reads ignore files with a library and documents with an interpreter. Both are given:
nothing here depends on what patterns mean or how much an interpreter allows.
-/

namespace CodeAtlas

/-- A library of ignore patterns and an interpreter, as the program is given them. -/
structure Platform where
  /-- Which paths the lines of an ignore file ignore. The same lines always mean the same; some
  are refused. -/
  compile : List String → Outcome (String → Bool)
  /-- What the interpreter allows the documents that it reads. -/
  limits : Json.Limits
  deriving Inhabited

end CodeAtlas
