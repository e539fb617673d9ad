import CodeAtlas.Proofs.Graph.Reloaded

/-!
# Documents are settled after one reading

A document may repeat nodes and edges, refer to nodes that it does not have, leave fields out and
flag entry points where it does not list them. It may have values of any sort where a program would
write texts and numbers, and it may spell one value in several ways. What is read of it is a graph
like any other, and it lacks the one thing that writing keeps and reading drops: only the removal of
a node leaves a listed method without links, and reading removes none. Each place of the graph keeps
the spelling that it was given first. So what is written of the graph is read as it stands, and
written again without a change.
-/

namespace CodeAtlas.SpelledGraph

/-- The value that a text writes repeats no name. -/
theorem exists_plain_of_ofText {s : String} {d : ForeignDocument} (hread : ofText s = .ok d) :
    ∃ v : Value, v.Plain ∧ ofJson v = .ok d := by
  unfold ofText at hread
  obtain ⟨v, hv, hread⟩ := Outcome.bind_eq_ok.1 hread
  exact ⟨v, Json.plain_of_readAs hv, hread⟩

/-- Every document that is accepted is settled by one reading, whatever it repeats, leaves out or
refers to, and of whatever sort its values are. The text that is written of it is read without loss:
the graph that is read gives the same answers, down to the links of every method, and the same text
is written of it.

A document is a value whose objects repeat no name, or a text that writes one. The texts inside it
may hold halves of surrogate pairs; the text of the document itself consists of characters, so it
has such halves as escapes only. -/
theorem settled_of_read {d : ForeignDocument}
    (hread : (∃ v : Value, v.Plain ∧ ofJson v = .ok d) ∨ ∃ s, ofText s = .ok d) :
    ∃ d' : ForeignDocument, ofText d.toText = .ok d' ∧ d'.toText = d.toText ∧
      d.graph.AnswersAlike d'.graph ∧ ∀ id, d'.graph.linksOf id = d.graph.linksOf id := by
  obtain ⟨v, hplain, hv⟩ : ∃ v : Value, v.Plain ∧ ofJson v = .ok d :=
    hread.elim id fun ⟨_, hs⟩ => exists_plain_of_ofText hs
  have hgrown : Graph.empty.GrownFrom d.graph := .of_ofJson hv
  have hg : d.graph.WellFormed := .of_ofJson hv
  have howned : d.graph.Owned :=
    hgrown.keeps (fun _ _ hd => by cases hd) fun _ m _ howned => howned.apply m
  have hfilled : d.graph.Filled :=
    hgrown.keeps (fun _ _ hls => by cases hls) fun _ _ hm hfilled => hfilled.apply hm
  obtain ⟨d', hagain, hr, hh, hjson⟩ := (Sound.of_ofJson hplain hv).ofText_toText hg
  rw [hfilled.filledLinks hg howned] at hjson
  exact ⟨d', hagain, congrArg Json.pretty hjson, hr.answersAlike hg hh,
    (hr.linksOf_eq_iff hg).2 hfilled⟩

/-- A document with a node told three times in three spellings, repeated and dangling edges, methods
and links of nodes that it does not have, values of odd sorts, and entry points that it flags and
does not list. -/
def carelessDocument : Value :=
  .object [
    ("nodes", .array [
      .object [("id", .int 1), ("kind", .string " service "), ("entryPoint", .bool true)],
      .object [("id", .string ⟨[0xd800]⟩), ("classId", .array [.int 7]), ("entryPoint", .int 1)],
      .object [("id", .bool true), ("sourceFile", .null), ("description", .array [.null])],
      .object [("id", .string "A")]]),
    ("edges", .array [.object [("from", .bool true), ("to", .string ⟨[0xd800]⟩)],
      .object [("from", .int 1), ("to", .string ⟨[0xd800]⟩)],
      .object [("from", .string "A"), ("to", .bool true)],
      .object [("from", .string "A"), ("to", .string ⟨[0xdc00]⟩)],
      .object [("from", .null), ("to", .null)]]),
    ("methods", .object [
      ("A", .array [.object [("methodName", .null), ("businessLogic", .string "ab")]]),
      ("1", .array [.object [("methodName", .string "n")]])]),
    ("methodParameters", .object [
      ("A", .object [
        ("m", .array [.object [("position", .int 0), ("target", .int 1)],
          .object [("position", .bool false), ("target", .bool true)],
          .object [("position", .object []), ("target", .string "gone")]]),
        ("n", .array [.object [("position", .int 0), ("target", .string "gone")]])]),
      ("gone", .object [
        ("m", .array [.object [("position", .int 0), ("target", .string "A")]])])])]

/-- The careless document is accepted. Two edges and one link are left of it, the last telling of a
node has the last word about its kind, and nothing changes from then on. -/
theorem settled_of_carelessDocument : ∃ d : ForeignDocument, ofJson carelessDocument = .ok d ∧
    (d.graph.edgeList = [(.whole 1, .text ⟨[0xd800]⟩), (.text "A", .whole 1)] ∧
      d.graph.entryPoints = [.whole 1, .text ⟨[0xd800]⟩] ∧
      d.graph.classId? (.text ⟨[0xd800]⟩) = some (.ofString "[7]") ∧
      d.graph.kind (.whole 1) = .other ∧
      d.graph.methods.keys = [.text "A"] ∧
      (d.graph.linksOf (.text "A")).values = [[⟨"m", ⟨.int 0⟩, .whole 1⟩]]) ∧
    ∃ d' : ForeignDocument, ofText d.toText = .ok d' ∧ d'.toText = d.toText ∧
      d.graph.AnswersAlike d'.graph ∧ ∀ id, d'.graph.linksOf id = d.graph.linksOf id := by
  have hread : ((ofJson carelessDocument : Outcome ForeignDocument).map fun d => decide
      (d.graph.edgeList = [(.whole 1, .text ⟨[0xd800]⟩), (.text "A", .whole 1)] ∧
        d.graph.entryPoints = [.whole 1, .text ⟨[0xd800]⟩] ∧
        d.graph.classId? (.text ⟨[0xd800]⟩) = some (.ofString "[7]") ∧
        d.graph.kind (.whole 1) = .other ∧
        d.graph.methods.keys = [.text "A"] ∧
        (d.graph.linksOf (.text "A")).values = [[⟨"m", ⟨.int 0⟩, .whole 1⟩]])).toOption =
      some true := by
    decide +kernel
  have hplain : carelessDocument.Plain := by
    simp only [carelessDocument, Json.plain_object_iff, Json.plain_array_iff, Json.plain_null,
      Json.plain_bool, Json.plain_int, Json.plain_string, List.forall_mem_cons, List.not_mem_nil,
      false_implies, implies_true, List.map_cons, List.map_nil, and_true]
    decide +kernel
  cases hd : (ofJson carelessDocument : Outcome ForeignDocument) with
  | error f =>
    rw [hd] at hread
    cases hread
  | ok d =>
    rw [hd] at hread
    exact ⟨d, rfl, of_decide_eq_true (Option.some.inj hread),
      settled_of_read (.inl ⟨_, hplain, hd⟩)⟩

end CodeAtlas.SpelledGraph
