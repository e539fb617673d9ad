import CodeAtlas.Record.Store
import CodeAtlas.Text.Quoted

/-!
# Access to the record store

The store as its users meet it: it issues ids, and a write may be refused for reasons of its
own, by a schedule that depends on the write and on how many writes of its sort came before.
A refused write changes nothing but that count.
-/

namespace CodeAtlas

/-- The sorts of writes. -/
inductive WriteSort where
  | saveClasses
  | saveMethods
  | saveLinks
  | deleteClasses
  | deleteMethodsAndLinks
  deriving Repr, DecidableEq, Inhabited

/-- The sort of a write. -/
def StoreWrite.sort : StoreWrite → WriteSort
  | .saveClasses _ => .saveClasses
  | .saveMethods _ => .saveMethods
  | .saveLinks _ => .saveLinks
  | .deleteClasses _ => .deleteClasses
  | .deleteMethodsAndLinks _ => .deleteMethodsAndLinks

/-- The store with the ids it has issued and the refusals it has in store. -/
structure StoreAccess where
  store : RecordStore
  /-- How many ids have been issued. -/
  issued : Nat
  /-- How many writes of each sort have been asked for. -/
  asked : Dict WriteSort Nat
  /-- Whether a write is refused, by the number of its sort, counted from one. -/
  refusal : StoreWrite → Nat → Option Failure
  deriving Inhabited

/-- A computation on the store. What it wrote stays written when it fails later. -/
abbrev StoreM (α : Type) := StateM StoreAccess α

namespace StoreAccess

/-- Access to a store that refuses nothing. -/
def ofStore (s : RecordStore) : StoreAccess := ⟨s, 0, .empty, fun _ _ => none⟩

/-- The id with a number: the number in at least 32 hexadecimal digits. -/
def idOfNumber (n : Nat) : String := String.ofList (Text.hexAtLeast 32 n)

/-- No id is issued twice. -/
theorem idOfNumber_inj {m n : Nat} (h : idOfNumber m = idOfNumber n) : m = n :=
  Text.hexAtLeast_inj (String.ofList_injective h)

/-- Issues the next id. -/
def newId : StoreM String := fun a => (idOfNumber (a.issued + 1), { a with issued := a.issued + 1 })

/-- The records as they are now. -/
def current : StoreM RecordStore := fun a => (a.store, a)

/-- Asks for a write. -/
def write (w : StoreWrite) : StoreM (Outcome Unit) := fun a =>
  let n := a.asked.getD w.sort 0 + 1
  let a := { a with asked := a.asked.insert w.sort n }
  match a.refusal w n with
  | some f => (.error f, a)
  | none =>
    match a.store.write w with
    | .ok s => (.ok (), { a with store := s })
    | .error f => (.error f, a)

/-- Asks for writes one after the other until one is refused. -/
def writeAll : List StoreWrite → StoreM (Outcome Unit)
  | [] => pure (.ok ())
  | w :: ws => do
    match ← write w with
    | .ok _ => writeAll ws
    | .error f => return .error f

end StoreAccess

end CodeAtlas
