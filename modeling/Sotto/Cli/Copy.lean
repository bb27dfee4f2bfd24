import Sotto.Cli.Vault
import Sotto.Library.Checked
import Mathlib.Data.List.Destutter

/-!
# Comparing and copying environments

Two environments of a project are compared by their decrypted entries, and the entries of one
are copied over those of the other through the vault's `set`, one after the other: a set that
fails ends the copy, and the sets before it stay.
-/

namespace Sotto

namespace Cli

open Core

/-- How a name compares in two environments. -/
inductive DiffStatus
  | onlyLeft
  | onlyRight
  | differs
  | equal
deriving DecidableEq

/-- One name of a comparison, with both values. -/
structure DiffEntry where
  name : String
  status : DiffStatus
  left : Option Bytes
  right : Option Bytes

/-- What a copy would change, or did, by name. -/
structure CopyPlan where
  create : List String
  update : List String
  unchanged : List String

namespace App

/-- The map of a list of entries; a later entry of a name replaces an earlier one. -/
def collect (entries : List (String × Bytes)) : Table String Bytes :=
  entries.foldl (fun map entry => AList.insert entry.1 entry.2 map) ∅

/-- All secrets of one named environment. -/
def entriesFor (keypair : Keypair) (projectId : Ident) (env : String) (store : Store) :
    Except Error (List (String × Bytes)) := do
  (← Vault.open store keypair projectId env).entries store

/-- The status of a name; a name that is in neither environment has none. -/
def diffStatus : Option Bytes → Option Bytes → Option DiffStatus
  | some l, some r => if l = r then some .equal else some .differs
  | some _, none => some .onlyLeft
  | none, some _ => some .onlyRight
  | none, none => none

def diffEntry (left right : Table String Bytes) (name : String) : Option DiffEntry := do
  let status ← diffStatus (left.lookup name) (right.lookup name)
  return ⟨name, status, left.lookup name, right.lookup name⟩

/-- Compare two environments of the project; no list is shown for a name without a status. -/
def envDiff (keypair : Keypair) (projectId : Ident) (left right : String) (store : Store) :
    Except Error (Option (List DiffEntry)) := do
  let leftEntries ← entriesFor keypair projectId left store
  let right := collect (← entriesFor keypair projectId right store)
  let left := collect leftEntries
  let names := (left.keys ++ right.keys).mergeSort fun a b => decide (a ≤ b)
  return (names.destutter (· ≠ ·)).mapM (diffEntry left right)

/-- Plan, and with `apply` perform, the copy of the entries that are left. The draws are numbered
by the number of entries that follow. -/
def copyEntries (dstVault : Vault) (dstMap : Table String Bytes) (apply : Bool)
    (seed : Nat → Seed) :
    List (String × Bytes) → CopyPlan → Store → Except Error CopyPlan × Store
  | [], plan, store => (.ok plan, store)
  | (name, value) :: entries, plan, store =>
      let drawn := 2 * entries.length
      let written :=
        if apply then dstVault.set (seed drawn) (seed (drawn + 1)) name value store else .ok store
      match dstMap.lookup name with
      | some existing =>
          if existing = value then
            copyEntries dstVault dstMap apply seed entries
              { plan with unchanged := plan.unchanged ++ [name] } store
          else
            match written with
            | .error e => (.error e, store)
            | .ok store =>
                copyEntries dstVault dstMap apply seed entries
                  { plan with update := plan.update ++ [name] } store
      | none =>
          match written with
          | .error e => (.error e, store)
          | .ok store =>
              copyEntries dstVault dstMap apply seed entries
                { plan with create := plan.create ++ [name] } store

/-- The source's entries, and the destination with the map of its own. -/
def copyEnds (keypair : Keypair) (projectId : Ident) (src dst : String) (store : Store) :
    Except Error (List (String × Bytes) × Vault × Table String Bytes) := do
  Checked.require (src ≠ dst) (.input "source and destination environments are the same")
  let srcEntries ← entriesFor keypair projectId src store
  let dstVault ← Vault.open store keypair projectId dst
  return (srcEntries, dstVault, collect (← dstVault.entries store))

/-- Plan, and with `apply` perform, a copy of the secrets of `src` onto `dst`. -/
def envCopy (keypair : Keypair) (projectId : Ident) (src dst : String) (apply : Bool)
    (seed : Nat → Seed) (store : Store) : Except Error CopyPlan × Store :=
  match copyEnds keypair projectId src dst store with
  | .error e => (.error e, store)
  | .ok (srcEntries, dstVault, dstMap) =>
      copyEntries dstVault dstMap apply seed srcEntries ⟨[], [], []⟩ store

end App

end Cli

end Sotto
