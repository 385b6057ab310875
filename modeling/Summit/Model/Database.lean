/-
**The database of the finalizer**: the part of `db.rs` that the actor writes and that a node starts
from.

A value is kept under its kind and its epoch, and a tracker for each kind follows the highest epoch.
The writes of an epoch boundary are committed together, so a node that stops comes back with those of
the boundaries it has passed. A state is kept as its encoding and decoded when it is loaded. In the
source an encoding that is refused cancels the node's token and is reported as no state; here it is an
error, after which no node runs.
-/

import Mathlib.Logic.Function.Basic
import Summit.Model.Actor

namespace Summit

open Bytes

section Database

variable [Crypto]

/-- A key: in the source the byte of the kind and eight of the epoch, or two for a tracker. -/
inductive DbKey where
  | latestConsensusStateEpoch
  | latestFinalizedHeaderEpoch
  | latestCheckpointEpoch
  | consensusState (epoch : Nat)
  | checkpoint (epoch : Nat)
  | finalizedHeader (epoch : Nat)
  deriving DecidableEq

inductive DbValue where
  | u64 (value : Nat)
  /-- The encoding of a state. -/
  | consensusState (bytes : List UInt8)
  | checkpoint (checkpoint : Checkpoint) (block : Block)
  | finalizedHeader (block : Block) (finalization : Finalization)

structure FinalizerState where
  store : DbKey → Option DbValue

namespace FinalizerState

def update (db : FinalizerState) (key : DbKey) (value : DbValue) : FinalizerState :=
  ⟨Function.update db.store key (some value)⟩

/-- The epoch that a tracker is at. -/
def latestEpoch (db : FinalizerState) (tracker : DbKey) : Nat :=
  match db.store tracker with
  | some (.u64 epoch) => epoch
  | _ => 0

/-- Store a value for an epoch, and move the tracker of its kind unless that is further. -/
def storeAt (db : FinalizerState) (key tracker : DbKey) (value : DbValue) (epoch : Nat) :
    FinalizerState :=
  let stored := db.update key value
  if epoch ≥ stored.latestEpoch tracker then stored.update tracker (.u64 epoch) else stored

def storeConsensusState (db : FinalizerState) (epoch : Nat) (state : ConsensusState) :
    FinalizerState :=
  db.storeAt (.consensusState epoch) .latestConsensusStateEpoch (.consensusState state.encode) epoch

def storeFinalizedCheckpoint (db : FinalizerState) (epoch : Nat) (checkpoint : Checkpoint)
    (block : Block) : FinalizerState :=
  db.storeAt (.checkpoint epoch) .latestCheckpointEpoch (.checkpoint checkpoint block) epoch

def storeFinalizedHeader (db : FinalizerState) (epoch : Nat) (block : Block)
    (finalization : Finalization) : FinalizerState :=
  db.storeAt (.finalizedHeader epoch) .latestFinalizedHeaderEpoch
    (.finalizedHeader block finalization) epoch

def persist (db : FinalizerState) : DbWrite → FinalizerState
  | .finalizedHeader epoch block finalization => db.storeFinalizedHeader epoch block finalization
  | .finalizedCheckpoint epoch checkpoint block => db.storeFinalizedCheckpoint epoch checkpoint block
  | .consensusState epoch state => db.storeConsensusState epoch state

def getConsensusState (db : FinalizerState) (epoch : Nat) :
    Except ReadError (Option ConsensusState) :=
  match db.store (.consensusState epoch) with
  | some (.consensusState bytes) => (Reader.decode ConsensusState.read bytes).map some
  | _ => .ok none

def getLatestConsensusState (db : FinalizerState) : Except ReadError (Option ConsensusState) :=
  match db.store .latestConsensusStateEpoch with
  | some (.u64 latestEpoch) => db.getConsensusState latestEpoch
  | _ => .ok none

/-- The state that a node starts from: the stored one, or the one it is given. -/
def startState (db : FinalizerState) (initial : ConsensusState) : Except ReadError ConsensusState :=
  db.getLatestConsensusState.map fun stored => stored.getD initial

end FinalizerState

end Database

end Summit
