import Std.Data.TreeSet
import Fat32.Cluster.Table

/-!
# Cluster chains

The clusters of a file or directory, followed link by link through the table. A chain yields
each cluster at most once: when a link leads back to a cluster that was yielded, the chain is
corrupt, and it ends with that error as it does with any other.
-/

namespace Fat32

structure Chain where
  start : UInt32
  /-- The cluster that comes next. -/
  due : Option UInt32
  visited : Std.TreeSet UInt32
  /-- An error that is known before anything is read. -/
  refused : Option Error
  table : Table

namespace Chain

def ofTable (volume : Volume) (table : Table) (start : UInt32) : Chain :=
  if volume.isDataCluster start then ⟨start, some start, ∅, none, table⟩
  else ⟨start, none, ∅, some (.invalidCluster start), table⟩

def ofStart (volume : Volume) (start : UInt32) : Chain := ofTable volume .empty start

/-- How a chain goes on after `current`: the cluster due next, if any, and the event to report;
or the error that ends it. -/
def follow (volume : Volume) (start current : UInt32) :
    Link → Except Error (Option UInt32 × Event)
  | .next cluster =>
      if volume.isDataCluster cluster then
        .ok (some cluster, .chainLink start current cluster)
      else .error (.corruptChain start current)
  | .endOfChain => .ok (none, .chainLast start current)
  | .free => .error (.freeCluster start current)
  | .reserved | .bad => .error (.corruptChain start current)

/-- What the chain yields next, none at its end. A cluster is yielded once its link is known; no
cluster is due after an error. -/
def advance (chain : Chain) (volume : Volume) :
    StateM Session (Option (Except Error UInt32) × Chain) := do
  if let some error := chain.refused then
    return (some (.error error), { chain with refused := none })
  let some current := chain.due | return (none, chain)
  let chain := { chain with due := none }
  if chain.visited.contains current then
    return (some (.error (.corruptChain chain.start current)), chain)
  let chain := { chain with visited := chain.visited.insert current }
  let (link, table) ← chain.table.link volume current
  let chain := { chain with table }
  match link.bind (follow volume chain.start current) with
  | .error error => return (some (.error error), chain)
  | .ok (due, event) =>
      Session.report [event]
      return (some (.ok current), { chain with due })

/-- Passes what the chain yields to `visit`, up to `limit` items, until the chain ends or `visit`
is done or fails. -/
def forEach {σ : Type} (volume : Volume)
    (visit : Except Error UInt32 → σ → Access (ForInStep σ)) :
    (limit : Nat) → Chain → σ → Access σ
  | 0, _, state => return state
  | limit + 1, chain, state => do
      let (item, chain) ← chain.advance volume
      match item with
      | none => return state
      | some item =>
          match ← visit item state with
          | .done state => return state
          | .yield state => forEach volume visit limit chain state

end Chain

/-- A number of items that no chain exceeds: every data cluster, and an error. -/
def Volume.chainBound (volume : Volume) : Nat := volume.clusterCount.toNat + 1

def Table.clusterChain (table : Table) (volume : Volume) (start : UInt32) :
    Access (List UInt32) := do
  let visit (item : Except Error UInt32) (clusters : Array UInt32) := do
    return .yield (clusters.push (← item))
  let clusters ← Chain.forEach volume visit volume.chainBound (.ofTable volume table start) #[]
  return clusters.toList

def Volume.clusterChain (volume : Volume) (start : UInt32) : Access (List UInt32) :=
  Table.empty.clusterChain volume start

end Fat32
