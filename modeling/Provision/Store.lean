import Provision.PackageId
import Provision.Text.Quoted

/-!
Binary stores: the local store and remote stores in order of priority. A store may fail to answer a
query, as one that is offline does, and looking for a binary passes over such stores and records
their errors.
-/

namespace Provision

/-- What a binary is stored under. -/
structure BinaryKey where
  reference : Reference
  digest : String
deriving DecidableEq, Repr

namespace BinaryKey

def of (r : Reference) (id : PackageId) : BinaryKey :=
  ⟨r, id.digest⟩

def text (key : BinaryKey) : String :=
  key.reference.text ++ ":" ++ key.digest

end BinaryKey

/-- Why a store did not answer a query. -/
inductive StoreError
  | unavailable (store message : String)
  | notFound (store : String) (key : BinaryKey)
deriving DecidableEq, Repr

def StoreError.message : StoreError → String
  | .unavailable store message => "store '" ++ store ++ "' unavailable: " ++ message
  | .notFound store key => "binary " ++ key.text ++ " not found in '" ++ store ++ "'"

structure BinaryHandle where
  key : BinaryKey
  store : String
deriving DecidableEq, Repr

/-- A store of binaries as it is asked: it has a name, and an answer to the question whether it has a
binary. -/
structure Store where
  name : String
  exists? : BinaryKey → Except StoreError Bool

namespace Store

def empty (name : String) : Store :=
  ⟨name, fun _ => .ok false⟩

def outOfReach (name : String) (error : BinaryKey → StoreError) : Store :=
  ⟨name, fun key => .error (error key)⟩

def fetch (s : Store) (key : BinaryKey) : Except StoreError BinaryHandle := do
  if ← s.exists? key then return ⟨key, s.name⟩ else throw (.notFound s.name key)

end Store

structure MemoryStore where
  name : String
  binaries : List BinaryKey
  isOffline : Bool
deriving DecidableEq, Repr

namespace MemoryStore

def named (name : String) : MemoryStore := ⟨name, [], false⟩

def insert (s : MemoryStore) (key : BinaryKey) : MemoryStore :=
  { s with binaries := s.binaries.insert key }

def setOffline (s : MemoryStore) (isOffline : Bool) : MemoryStore :=
  { s with isOffline }

def size (s : MemoryStore) : Nat :=
  s.binaries.length

def offlineError (s : MemoryStore) : StoreError :=
  .unavailable s.name "store is offline"

/-- A store in memory as it is asked; while it is offline, it is out of reach. -/
def toStore (s : MemoryStore) : Store :=
  if s.isOffline then .outOfReach s.name fun _ => s.offlineError
  else ⟨s.name, fun key => .ok (s.binaries.contains key)⟩

end MemoryStore

def Store.holding (name : String) (binaries : List BinaryKey) : Store :=
  MemoryStore.toStore ⟨name, binaries, false⟩

inductive Location
  | cache
  | remote (name : String)
deriving DecidableEq, Repr

structure Lookup where
  location? : Option Location
  errors : List StoreError
deriving DecidableEq, Repr

/-- The local store and the remote stores, of which the first has the highest priority. -/
structure Stores where
  cache : Store
  remotes : List Store

namespace Stores

def remote? (s : Stores) (name : String) : Option Store :=
  s.remotes.find? (·.name == name)

def summary (s : Stores) : String :=
  let remotes := ", ".intercalate (s.remotes.map fun store => Text.quotedText store.name)
  "BinaryStores \x7b local: " ++ Text.quotedText s.cache.name ++ ", remotes: [" ++ remotes ++
    "] \x7d"

/-- The stores in the order in which they are asked, each with the location that it stands for. -/
def ranked (s : Stores) : List (Location × Store) :=
  (.cache, s.cache) :: s.remotes.map fun store => (.remote store.name, store)

def search (key : BinaryKey) : List (Location × Store) → Lookup
  | [] => ⟨none, []⟩
  | (location, store) :: rest =>
    match store.exists? key with
    | .ok true => ⟨some location, []⟩
    | .ok false => search key rest
    | .error e =>
      let lookup := search key rest
      { lookup with errors := e :: lookup.errors }

/-- Look for a binary: in the local store, then in the remotes by priority. -/
def locate (s : Stores) (key : BinaryKey) : Lookup :=
  search key s.ranked

end Stores

end Provision
