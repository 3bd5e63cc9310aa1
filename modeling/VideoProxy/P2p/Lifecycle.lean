import VideoProxy.Lib.SharedLock
import VideoProxy.Lib.Transition
import VideoProxy.P2p.PieceCache

/-!
# Concurrent calls on the registry of peer-to-peer sources

The registry is shared by many calls.  This module splits `register`,
`read_range`, `verify_complete` and `remove` where they touch what other calls
can see: the lock of the entries, the entries, the flag and the number of leases
of a registration, and the file `.invalid` in its directory.

An entry of the table is the handle of a registration.  The registration lives
on after its entry is removed, for the calls that hold a lease on it.  What such
a call does with the pieces is left open: it may call the provider any number of
times and end with any result.
-/

namespace VideoProxy
namespace P2pLifecycle

/-- Calls are numbered; a number is used once. -/
abbrev CallId := Nat

/-- Registrations are numbered in the order they are made. -/
abbrev Handle := Nat

/-- What the calls share of a `RegisteredP2pSource`, with the id of its entry. -/
structure Registration where
  id : Nat
  diskDir : Option Directory
  invalid : Bool
  active : Nat

/-- What `register` reads of a source and its manifest. -/
structure Offer where
  sourceLength : Nat
  manifestLength : Nat
  diskDir : Option Directory

/-- The calls that take a lease. -/
inductive Purpose
  | readRange
  | verifyComplete
  deriving DecidableEq

/-- How such a call ends. -/
inductive Outcome
  | ok
  | error (reason : ProxyError)
  | integrityError
  deriving DecidableEq

/-- `MAX_P2P_SOURCES`. -/
def maxP2pSources : Nat := 1024

/-- The errors that the registry makes itself. -/
def notFound : ProxyError := .request "P2P source ID not found"

@[inherit_doc notFound]
def invalidSource : ProxyError :=
  .request "P2P source failed complete integrity verification"

@[inherit_doc notFound]
def leaseOverflow : ProxyError :=
  .storage "P2P active request count overflow"

@[inherit_doc notFound]
def lengthsDiffer : ProxyError :=
  .request "P2P source and manifest lengths differ"

@[inherit_doc notFound]
def registryFull : ProxyError := .request "P2P source registry is full"

@[inherit_doc notFound]
def idsExhausted : ProxyError := .request "P2P source ID exhausted"

@[inherit_doc notFound]
def previouslyInvalidated : ProxyError :=
  .request "P2P manifest identity was previously invalidated"

/-- Where a call is: each place is named by what the call does next, or by what
it returned. -/
inductive Place
  | unstarted
  | lost
  | entering (purpose : Purpose) (id : Nat)
  | looking (purpose : Purpose) (id : Nat)
  | checking (purpose : Purpose) (id : Nat) (handle : Handle)
  | leasing (purpose : Purpose) (id : Nat) (handle : Handle)
  | leased (purpose : Purpose) (id : Nat) (handle : Handle)
  | working (purpose : Purpose) (id : Nat) (handle : Handle)
  | calling (purpose : Purpose) (id : Nat) (handle : Handle)
  | condemning (id : Nat) (handle : Handle)
  | marking (id : Nat) (handle : Handle) (directory : Directory)
  | sweepEntering (id : Nat) (handle : Handle) (directory : Directory)
  | sweeping
      (id : Nat) (handle : Handle) (directory : Directory)
      (others : List Handle)
  | closing (purpose : Purpose) (id : Nat) (handle : Handle) (outcome : Outcome)
  | answered
      (purpose : Purpose) (id : Nat) (handle : Option Handle)
      (outcome : Outcome)
  | registering (diskDir : Option Directory)
  | probing (diskDir : Option Directory)
  | inserting (diskDir : Option Directory) (id : Nat)
  | registered (id : Nat) (handle : Handle)
  | refused (reason : ProxyError)
  | removing (id : Nat)
  | erasing (id : Nat)
  | awaiting (id : Nat) (handle : Handle)
  | reviewEntering (id : Nat) (handle : Handle) (directory : Directory)
  | reviewing (id : Nat) (handle : Handle) (directory : Directory)
  | deleting (id : Nat) (handle : Handle) (directory : Directory)
  | removed (id : Nat) (handle : Handle)
  | absent (id : Nat)
  deriving DecidableEq

namespace Place

/-- How a call holds the lock of the entries. -/
def grip : Place → Grip
  | .looking .. | .checking .. | .leasing .. | .leased .. | .sweeping ..
  | .reviewing .. | .deleting .. => .shared
  | .probing .. | .inserting .. | .erasing .. => .exclusive
  | _ => .free

/-- The registration that a call holds a lease on. -/
def lease : Place → Option Handle
  | .leased _ _ handle | .working _ _ handle | .calling _ _ handle
  | .condemning _ handle | .marking _ handle _ | .sweepEntering _ handle _
  | .sweeping _ handle _ _ | .closing _ _ handle _ => some handle
  | _ => none

/-- The call has returned. -/
def hasReturned : Place → Bool
  | .answered .. | .registered .. | .refused .. | .removed .. | .absent .. =>
    true
  | _ => false

/-- Where a call is left when the process ends. -/
def abandoned (place : Place) : Place :=
  if place = .unstarted ∨ place.hasReturned then place else .lost

end Place

/-- What the calls share, apart from the lock. -/
structure Shared where
  entries : AList fun _ : Nat => Handle
  registrations : Handle → Registration
  issued : Nat
  nextId : Nat
  /-- How many calls of `register` have taken an id. -/
  taken : Nat
  /-- The directories with a file `.invalid`. -/
  invalidated : Directory → Bool

namespace Shared

variable (shared : Shared)

/-- Some entry of the table is this registration. -/
def Live (handle : Handle) : Prop :=
  ∃ id, shared.entries.lookup id = some handle

/-- Some entry refers to the directory. -/
def refersTo (directory : Directory) : Bool :=
  shared.entries.entries.any fun entry =>
    (shared.registrations entry.2).diskDir = some directory

/-- The registrations in the table. -/
def listed : List Handle :=
  shared.entries.entries.map Sigma.snd

def setActive (handle : Handle) (active : Nat) : Shared :=
  { shared with
    registrations := Function.update shared.registrations handle
      { shared.registrations handle with active } }

def invalidate (handle : Handle) : Shared :=
  { shared with
    registrations := Function.update shared.registrations handle
      { shared.registrations handle with invalid := true } }

/-- `persist_invalid_manifest`. -/
def persistInvalidManifest (directory : Directory) : Shared :=
  { shared with
    invalidated := Function.update shared.invalidated directory true }

def removeDirectory (directory : Directory) : Shared :=
  { shared with
    invalidated := Function.update shared.invalidated directory false }

def erase (id : Nat) : Shared :=
  { shared with entries := shared.entries.erase id }

def insert (id : Nat) (diskDir : Option Directory) : Shared :=
  { shared with
    entries := shared.entries.insert id shared.issued
    registrations := Function.update shared.registrations shared.issued
      { id, diskDir, invalid := false, active := 0 }
    issued := shared.issued + 1 }

/-- The id of a registration is taken. -/
def claim (nextId : Nat) : Shared :=
  { shared with nextId, taken := shared.taken + 1 }

section Registrations

variable (handle other : Handle) (active : Nat)

@[simp] theorem setActive_id :
    ((shared.setActive handle active).registrations other).id =
      (shared.registrations other).id := by
  by_cases same : other = handle
  · subst same
    simp [setActive]
  · simp [setActive, Function.update_of_ne same]

@[simp] theorem setActive_diskDir :
    ((shared.setActive handle active).registrations other).diskDir =
      (shared.registrations other).diskDir := by
  by_cases same : other = handle
  · subst same
    simp [setActive]
  · simp [setActive, Function.update_of_ne same]

@[simp] theorem setActive_invalid :
    ((shared.setActive handle active).registrations other).invalid =
      (shared.registrations other).invalid := by
  by_cases same : other = handle
  · subst same
    simp [setActive]
  · simp [setActive, Function.update_of_ne same]

@[simp] theorem setActive_active :
    ((shared.setActive handle active).registrations other).active =
      if other = handle then active else (shared.registrations other).active := by
  by_cases same : other = handle
  · subst same
    simp [setActive]
  · simp [setActive, same]

@[simp] theorem invalidate_id :
    ((shared.invalidate handle).registrations other).id = (shared.registrations other).id := by
  by_cases same : other = handle
  · subst same
    simp [invalidate]
  · simp [invalidate, Function.update_of_ne same]

@[simp] theorem invalidate_diskDir :
    ((shared.invalidate handle).registrations other).diskDir =
      (shared.registrations other).diskDir := by
  by_cases same : other = handle
  · subst same
    simp [invalidate]
  · simp [invalidate, Function.update_of_ne same]

@[simp] theorem invalidate_active :
    ((shared.invalidate handle).registrations other).active =
      (shared.registrations other).active := by
  by_cases same : other = handle
  · subst same
    simp [invalidate]
  · simp [invalidate, Function.update_of_ne same]

theorem invalidate_invalid :
    ((shared.invalidate handle).registrations other).invalid = true ↔
      other = handle ∨ (shared.registrations other).invalid = true := by
  by_cases same : other = handle
  · subst same
    simp [invalidate]
  · simp [invalidate, same]

end Registrations

end Shared

/-- The next step of a call, where there is only one. -/
def advance (shared : Shared) : Place → Option (Shared × Place)
  | .entering purpose id => some (shared, .looking purpose id)
  | .looking purpose id =>
    match shared.entries.lookup id with
    | some handle => some (shared, .checking purpose id handle)
    | none => some (shared, .answered purpose id none (.error notFound))
  | .checking purpose id handle =>
    if purpose = .readRange ∧ (shared.registrations handle).invalid then
      some (shared, .answered purpose id (some handle) (.error invalidSource))
    else some (shared, .leasing purpose id handle)
  | .leasing purpose id handle =>
    match checkedAdd (shared.registrations handle).active 1 with
    | some active =>
      some (shared.setActive handle active, .leased purpose id handle)
    | none =>
      some (shared, .answered purpose id (some handle) (.error leaseOverflow))
  | .leased purpose id handle => some (shared, .working purpose id handle)
  | .calling purpose id handle => some (shared, .working purpose id handle)
  | .condemning id handle =>
    match (shared.registrations handle).diskDir with
    | some directory =>
      some (shared.invalidate handle, .marking id handle directory)
    | none =>
      some (shared.invalidate handle, .closing .verifyComplete id handle .integrityError)
  | .marking id handle directory =>
    some (shared.persistInvalidManifest directory, .sweepEntering id handle directory)
  | .sweepEntering id handle directory =>
    some (shared, .sweeping id handle directory shared.listed)
  | .sweeping id handle directory (other :: others) =>
    if (shared.registrations other).diskDir = some directory then
      some (shared.invalidate other, .sweeping id handle directory others)
    else some (shared, .sweeping id handle directory others)
  | .sweeping id handle _ [] =>
    some (shared, .closing .verifyComplete id handle .integrityError)
  | .closing purpose id handle outcome =>
    some (shared.setActive handle ((shared.registrations handle).active - 1),
      .answered purpose id (some handle) outcome)
  | .registering diskDir => some (shared, .probing diskDir)
  | .probing diskDir =>
    if maxP2pSources ≤ shared.entries.entries.length then
      some (shared, .refused registryFull)
    else
      match followingId shared.nextId with
      | none => some (shared, .refused idsExhausted)
      | some nextId =>
        if diskDir.any shared.invalidated then
          some (shared.claim nextId, .refused previouslyInvalidated)
        else
          some (shared.claim nextId, .inserting diskDir shared.nextId)
  | .inserting diskDir id =>
    some (shared.insert id diskDir, .registered id shared.issued)
  | .removing id => some (shared, .erasing id)
  | .erasing id =>
    match shared.entries.lookup id with
    | some handle => some (shared.erase id, .awaiting id handle)
    | none => some (shared, .absent id)
  | .awaiting id handle =>
    if (shared.registrations handle).active = 0 then
      match (shared.registrations handle).diskDir with
      | some directory => some (shared, .reviewEntering id handle directory)
      | none => some (shared, .removed id handle)
    else none
  | .reviewEntering id handle directory =>
    some (shared, .reviewing id handle directory)
  | .reviewing id handle directory =>
    if shared.refersTo directory then some (shared, .removed id handle)
    else some (shared, .deleting id handle directory)
  | _ => none

/-- What a call does next: it begins, it takes its only next step, it calls the
provider, it has its result (for `verify_complete`, whether the digest is that of
the source), or `remove_dir_all` ends, with the marker gone or not. -/
inductive Choice
  | readRange (id : Nat)
  | verifyComplete (id : Nat)
  | register (offer : Offer)
  | remove (id : Nat)
  | advance
  | invoke
  | finish (result : Except ProxyError Bool)
  | delete (gone : Bool)

/-- Where a call begins. -/
def Choice.beginning : Choice → Option Place
  | .readRange id => some (.entering .readRange id)
  | .verifyComplete id => some (.entering .verifyComplete id)
  | .register offer =>
    if offer.sourceLength ≠ offer.manifestLength then
      some (.refused lengthsDiffer)
    else some (.registering offer.diskDir)
  | .remove id => some (.removing id)
  | _ => none

/-- Where a call goes once it has its result. -/
def finished (id : Nat) (handle : Handle) :
    Purpose → Except ProxyError Bool → Place
  | purpose, .error reason => .closing purpose id handle (.error reason)
  | .verifyComplete, .ok false => .condemning id handle
  | purpose, .ok _ => .closing purpose id handle .ok

/-- The next step of a call. -/
def next (shared : Shared) (place : Place) : Choice → Option (Shared × Place)
  | .advance => advance shared place
  | .invoke =>
    match place with
    | .working purpose id handle =>
      some (shared, .calling purpose id handle)
    | _ => none
  | .finish result =>
    match place with
    | .working purpose id handle =>
      some (shared, finished id handle purpose result)
    | _ => none
  | .delete gone =>
    match place with
    | .deleting id handle directory =>
      some (if gone then shared.removeDirectory directory else shared, .removed id handle)
    | _ => none
  | choice =>
    if place = .unstarted then
      choice.beginning.map fun beginning => (shared, beginning)
    else none

/-- The registry, its directories and the calls. -/
structure World where
  shared : Shared
  lock : RwLock
  calls : CallId → Place

namespace World

/-- A call moves on, if the lock allows it. -/
def move (world : World) (call : CallId) (shared : Shared) (place : Place) : Option World :=
  (world.lock.move (world.calls call).grip place.grip).map fun lock =>
    { shared, lock, calls := Function.update world.calls call place }

/-- A new registry on the same directories. -/
def fresh (invalidated : Directory → Bool) : World where
  shared := {
    entries := ∅
    registrations := fun _ =>
      { id := 0, diskDir := none, invalid := false, active := 0 }
    issued := 0
    nextId := 1
    taken := 0
    invalidated }
  lock := .unlocked
  calls := fun _ => .unstarted

/-- The process ends and a new one opens the directories; calls that have not
returned are lost, and with them their leases. -/
def restarted (world : World) : World where
  shared := {
    world.shared with
    entries := ∅
    registrations := fun handle =>
      { world.shared.registrations handle with active := 0 }
    nextId := 1
    taken := 0 }
  lock := .unlocked
  calls := fun call => (world.calls call).abandoned

end World

/-- A step of a call, or a restart. -/
inductive Action
  | act (call : CallId) (choice : Choice)
  | restart

/-- The step that an action makes, if it can. -/
def step : Action → World → Option World
  | .act call choice, world =>
    (next world.shared (world.calls call) choice).bind fun moved =>
      world.move call moved.1 moved.2
  | .restart, world => some world.restarted

/-- The next steps of one call. -/
def advances (call : CallId) (steps : Nat) : List Action :=
  List.replicate steps (.act call .advance)

end P2pLifecycle
end VideoProxy
