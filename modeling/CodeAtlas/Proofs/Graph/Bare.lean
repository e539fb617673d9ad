import CodeAtlas.Proofs.Graph.Answers
import CodeAtlas.Proofs.Graph.WellFormed

/-!
# Graphs that come from sources

A graph that was just built from source files is not tied to any record and has no text that
an enricher would give. This file proves that the operations by which surveys build graphs
keep it so.
-/

namespace CodeAtlas

/-- A method without enriched texts. -/
def Method.Plain (m : Method) : Prop := m.description = none ∧ m.businessLogic = []

theorem Method.plain_extracted (name : String) (exceptions : List String)
    (httpMethod httpPath : Option String) (lineNumber : Option Int) :
    (Method.extracted name exceptions httpMethod httpPath lineNumber).Plain := ⟨rfl, rfl⟩

namespace Graph

/-- A graph whose nodes are not tied to records and have no enriched texts. -/
structure Bare (g : Graph) : Prop where
  wellFormed : g.WellFormed
  untied : g.classIds = .empty
  descriptions : ∀ id, g.description? id = none
  texts : ∀ id, ∀ m ∈ g.methodsOf id, m.Plain

namespace Bare

variable {g h : Graph}

/-- What does not label nodes keeps a graph bare. -/
theorem congr (hg : g.Bare) (hwf : h.WellFormed) (hids : h.classIds = g.classIds)
    (hinfo : h.info = g.info) (hmethods : h.methods = g.methods) : h.Bare where
  wellFormed := hwf
  untied := hids.trans hg.untied
  descriptions id := (description?_congr (nodeInfo?_congr hinfo id)).trans (hg.descriptions id)
  texts id := by
    rw [methodsOf_congr hmethods]
    exact hg.texts id

theorem of_empty : Graph.empty.Bare where
  wellFormed := .of_empty
  untied := rfl
  descriptions _ := rfl
  texts _ _ h := by cases h

theorem addNode (hg : g.Bare) (id file : String) : (g.addNode id file).Bare :=
  hg.congr (hg.wellFormed.addNode id file) (classIds_addNode ..) (info_addNode ..)
    (methods_addNode ..)

theorem addDependency (hg : g.Bare) (a b : String) : (g.addDependency a b).Bare :=
  hg.congr (hg.wellFormed.addDependency a b) (classIds_addDependency ..) (info_addDependency ..)
    (methods_addDependency ..)

theorem markEntryPoint (hg : g.Bare) (id : String) : (g.markEntryPoint id).Bare :=
  hg.congr (hg.wellFormed.markEntryPoint id) (classIds_markEntryPoint ..) (info_markEntryPoint ..)
    (methods_markEntryPoint ..)

theorem setNodeInfo (hg : g.Bare) (id : String) (kind : Kind) :
    (g.setNodeInfo id ⟨kind, none⟩).Bare where
  wellFormed := hg.wellFormed.setNodeInfo id _
  untied := (classIds_setNodeInfo ..).trans hg.untied
  descriptions j := by
    unfold description?
    rw [nodeInfo?_setNodeInfo]
    split
    · rfl
    · exact hg.descriptions j
  texts j := by
    rw [methodsOf_congr (methods_setNodeInfo ..)]
    exact hg.texts j

theorem setMethods (hg : g.Bare) (id : String) {ms : List Method} (hms : ∀ m ∈ ms, m.Plain) :
    (g.setMethods id ms).Bare where
  wellFormed := hg.wellFormed.setMethods id _
  untied := (classIds_setMethods ..).trans hg.untied
  descriptions j :=
    (description?_congr (nodeInfo?_congr (info_setMethods ..) j)).trans (hg.descriptions j)
  texts j := by
    rw [methodsOf_setMethods]
    split
    · exact hms
    · exact hg.texts j

theorem addMethodParameter (hg : g.Bare) (id name : String) (n : Int) (target : String) :
    (g.addMethodParameter id name n target).Bare :=
  hg.congr (hg.wellFormed.addMethodParameter id name n target) (classIds_addMethodParameter ..)
    (info_addMethodParameter ..) (methods_addMethodParameter ..)

theorem clearMethodParameters (hg : g.Bare) (id : String) : (g.clearMethodParameters id).Bare :=
  hg.congr (hg.wellFormed.clearMethodParameters id) rfl rfl rfl

/-- The nodes that stay keep what is known about them when another one is removed. -/
theorem removeNode (hg : g.Bare) (id : String) : (g.removeNode id).Bare := by
  have hwf := hg.wellFormed.removeNode id
  unfold Graph.removeNode at hwf ⊢
  split at hwf
  · next hid =>
    rw [if_pos hid]
    refine ⟨hwf, ?_, fun j => ?_, fun j m hm => ?_⟩
    · rw [hg.untied]
      rfl
    · simp only [description?, nodeInfo?, Dict.get?_erase]
      split
      · rfl
      · exact hg.descriptions j
    · simp only [methodsOf, Dict.getD_erase] at hm
      split at hm
      · cases hm
      · exact hg.texts j m hm
  · next hid =>
    rwa [if_neg hid]

end Bare

end Graph

end CodeAtlas
