/-
**The finalizer actor**: the message loop of `actor.rs`.

A notarized block is executed ahead of its finalization, on the state of its parent, and the result
is kept as a fork state; a block whose parent is not known waits as an orphan. A finalized block
takes over its fork state, or is executed on the canonical state when it has none, and the forks
that do not descend from it are dropped. Blocks that the execution layer answers SYNCING to are
buffered and tried again by `drainPending`.

A handler returns the state it leaves and, in place of the source's `Result`, the outcome or the
error that stops the actor. Sent messages and database writes are recorded in the order they are
made; a write succeeds.
-/

import Summit.Model.Checkpoint

set_option linter.unusedSectionVars false

namespace Summit

section Actor

variable [Crypto]

/-! ### The state of the actor -/

/-- The state of a block that is notarized and not yet finalized. -/
structure ForkState where
  blockDigest : Digest
  parentDigest : Digest
  consensusState : ConsensusState

/-- A finalized block as it is delivered. `ack` names the handle that acknowledges the delivery. -/
structure PendingFinalized where
  block : Block
  finalization : Option Finalization
  ack : Nat
  deriving DecidableEq

/-- A request to be told when a block is executed; `response` names the channel of the answer. -/
structure HeightNotify where
  height : Nat
  digest : Digest
  response : Nat
  deriving DecidableEq

inductive DbWrite where
  | finalizedHeader (epoch : Nat) (block : Block) (finalization : Finalization)
  | finalizedCheckpoint (epoch : Nat) (checkpoint : Checkpoint) (block : Block)
  | consensusState (epoch : Nat) (state : ConsensusState)

/-- The error that stops the actor; `halted` stands for a panic. -/
inductive FinalizerError where
  | conflictingFinalizedBlock (height : Nat) (digest head : Digest)
  | certificateMismatch (height : Nat)
  | nonCanonical (height : Nat) (digest parent head : Digest)
  | finalizedForkchoiceInvalid (height : Nat) (digest : Digest)
  | finalizedForkchoiceEngineError (height : Nat)
  | wrongParent (height : Nat) (parent head : Digest)
  | finalizedEngineError (height : Nat)
  | finalizedBlockInvalid (height : Nat) (digest : Digest)
  | notarizedEngineError (height : Nat)
  | pendingNotarizedCap (cap height : Nat)
  | halted
  deriving DecidableEq

inductive HandleOutcome (E : Type) where
  | applied
  | buffered (entry : E)

structure Finalizer where
  canonicalState : ConsensusState
  /-- By height and digest. -/
  forkStates : SortedMap Nat (SortedMap Digest ForkState)
  /-- Executed blocks that a finalized block has overtaken. -/
  deadForkDigests : List (Nat × Digest)
  /-- In the order of their arrival; the source finds them by their height and parent. -/
  orphanedBlocks : List Block
  pendingFinalized : List PendingFinalized
  pendingNotarized : List Block
  pendingNotarizedKeys : List Digest
  pendingHeightNotifys : List HeightNotify
  /-- The number of blocks handed to the execution layer. -/
  calls : Nat
  acknowledged : List PendingFinalized
  notified : List (HeightNotify × Bool)
  writes : List DbWrite

/-- The configuration of the actor, and the execution layer: `engine n` gives its answers about the
`n`-th block it is handed. -/
structure FinalizerEnv where
  engine : Nat → Engine
  protocolConsts : ProtocolConsts
  depositSignatureDomain : Digest
  nodePublicKey : PublicKey
  pendingNotarizedMax : Nat

namespace Finalizer

def new (state : ConsensusState) : Finalizer where
  canonicalState := state
  forkStates := .empty
  deadForkDigests := []
  orphanedBlocks := []
  pendingFinalized := []
  pendingNotarized := []
  pendingNotarizedKeys := []
  pendingHeightNotifys := []
  calls := 0
  acknowledged := []
  notified := []
  writes := []

/-! ### Fork states -/

def forkAt (s : Finalizer) (height : Nat) (digest : Digest) : Option ForkState :=
  (s.forkStates.find? height).bind fun forks => forks.find? digest

def insertFork (s : Finalizer) (height : Nat) (digest : Digest) (fork : ForkState) : Finalizer :=
  { s with
    forkStates := s.forkStates.insert height
      (((s.forkStates.find? height).getD .empty).insert digest fork) }

/-- The levels of fork states from the lowest up, each above `height` without the forks whose parent
is not among `liveParents`, the digests left on the level before; levels that are empty then go. -/
def pruneLevels (height : Nat) : List Digest → List (Nat × SortedMap Digest ForkState) →
    List (Nat × SortedMap Digest ForkState)
  | _, [] => []
  | liveParents, (forkHeight, forks) :: rest =>
    if forkHeight ≤ height then (forkHeight, forks) :: pruneLevels height liveParents rest
    else
      let live := forks.filter fun entry => entry.2.parentDigest ∈ liveParents
      if live.entries = [] then pruneLevels height live.keys rest
      else (forkHeight, live) :: pruneLevels height live.keys rest

/-- The forks that `pruneLevels` drops. -/
def deadForks (height : Nat) : List Digest → List (Nat × SortedMap Digest ForkState) →
    List (Nat × Digest)
  | _, [] => []
  | liveParents, (forkHeight, forks) :: rest =>
    if forkHeight ≤ height then deadForks height liveParents rest
    else
      let live := forks.filter fun entry => entry.2.parentDigest ∈ liveParents
      let dead := forks.filter fun entry => entry.2.parentDigest ∉ liveParents
      dead.keys.map (Prod.mk forkHeight) ++ deadForks height live.keys rest

theorem pruneLevels_keys (height : Nat) (liveParents : List Digest)
    (levels : List (Nat × SortedMap Digest ForkState)) :
    ((pruneLevels height liveParents levels).map Prod.fst).Sublist (levels.map Prod.fst) := by
  induction levels generalizing liveParents with
  | nil => exact List.Sublist.slnil
  | cons level rest ih =>
    rw [pruneLevels]
    split
    · exact (ih _).cons_cons _
    · dsimp only
      split
      · exact (ih _).cons _
      · exact (ih _).cons_cons _

/-- Answer the requests that `answer` decides. -/
def notify (s : Finalizer) (answer : HeightNotify → Option Bool) : Finalizer :=
  { s with
    pendingHeightNotifys := s.pendingHeightNotifys.filter fun waiter => (answer waiter).isNone
    notified := s.notified ++
      s.pendingHeightNotifys.filterMap fun waiter => (answer waiter).map (Prod.mk waiter) }

/-- Drop the forks above `height` that do not descend from the block `digest`. -/
def pruneForkStatesNotDescendingFrom (s : Finalizer) (height : Nat) (digest : Digest) :
    Finalizer :=
  let levels := s.forkStates.entries
  let dead := deadForks height [digest] levels
  { s with
    forkStates := s.forkStates.withEntries (pruneLevels height [digest] levels)
      (pruneLevels_keys height _ _)
    deadForkDigests := s.deadForkDigests ++ dead }.notify fun waiter =>
      if (waiter.height, waiter.digest) ∈ dead then some false else none

def heightNotifyExecuted (s : Finalizer) (height : Nat) (digest : Digest) : Finalizer :=
  s.notify fun waiter =>
    if waiter.height = height ∧ waiter.digest = digest then some true else none

def heightNotifyFinalizedUpTo (s : Finalizer) (height : Nat) (digest : Digest) : Finalizer :=
  s.notify fun waiter =>
    if waiter.height > height then none
    else some (decide (waiter.height = height ∧ waiter.digest = digest))

/-! ### Notarized blocks -/

/-- The block has been handed to the execution layer. -/
def called (s : Finalizer) : Finalizer := { s with calls := s.calls + 1 }

inductive ParentState where
  | found (state : ConsensusState)
  /-- The block is on a dead fork. -/
  | mismatch
  | missing

/-- The state that a notarized block is executed on: the canonical state for the next height, whose
head has to be the parent unless the chain is at genesis, and a fork state above it. -/
def parentState (s : Finalizer) (block : Block) : ParentState :=
  if block.height = s.canonicalState.latestHeight + 1 then
    if s.canonicalState.latestHeight > 0 ∧ block.parent ≠ s.canonicalState.headDigest then .mismatch
    else .found s.canonicalState
  else match s.forkAt (block.height - 1) block.parent with
    | some parent => .found parent.consensusState
    | none => .missing

/-- The orphans that wait for a block. -/
def orphanedChildren (s : Finalizer) (height : Nat) (digest : Digest) : List Block :=
  s.orphanedBlocks.filter fun block => block.height = height + 1 ∧ block.parent = digest

/-- Keep a block that the execution layer was SYNCING on, unless it is kept already. -/
def deferNotarized (env : FinalizerEnv) (s : Finalizer) (block : Block) :
    Except FinalizerError Finalizer :=
  if block.digest ∈ s.pendingNotarizedKeys then .ok s
  else if s.pendingNotarized.length ≥ env.pendingNotarizedMax then
    .error (.pendingNotarizedCap env.pendingNotarizedMax block.height)
  else .ok
    { s with
      pendingNotarizedKeys := s.pendingNotarizedKeys ++ [block.digest]
      pendingNotarized := s.pendingNotarized ++ [block] }

/-- Keep the state a notarized block was executed to. -/
def storeFork (s : Finalizer) (block : Block) (state : ConsensusState) : Finalizer :=
  (s.insertFork block.height block.digest
    { blockDigest := block.digest, parentDigest := block.parent, consensusState := state })
    |>.heightNotifyExecuted block.height block.digest

/-- Execute a notarized block on the state of its parent. The result is `applied` with the orphans
to go on with, or `buffered`. -/
def executeNotarized (env : FinalizerEnv) (s : Finalizer) (block : Block)
    (parent : ConsensusState) : Finalizer × Except FinalizerError (Option (List Block)) :=
  -- the fork path: the execution layer is not told that a speculative block is final
  match parent.executeBlock (env.engine s.calls) env.protocolConsts env.depositSignatureDomain
      (some s.canonicalState.forkchoice.finalizedBlockHash) block with
  | .applied state =>
    let stored := s.called.storeFork block state
    (stored, .ok (some (stored.orphanedChildren block.height block.digest)))
  | .syncing =>
    match deferNotarized env s.called block with
    | .ok deferred => (deferred, .ok none)
    | .error error => (s.called, .error error)
  | .invalidPayload => (s.called, .ok (some []))
  | .engineError => (s.called, .error (.notarizedEngineError block.height))
  | .halted => (s.called, .error .halted)

/-- One block of the work list: `none` when it was deferred, the orphans to go on with otherwise. -/
def processNotarized (env : FinalizerEnv) (s : Finalizer) (block : Block) :
    Finalizer × Except FinalizerError (Option (List Block)) :=
  if block.height ≤ s.canonicalState.latestHeight then (s, .ok (some []))
  else if (block.height, block.digest) ∈ s.deadForkDigests then (s, .ok (some []))
  else if (s.forkAt block.height block.digest).isSome then (s, .ok (some []))
  else match s.parentState block with
    | .mismatch => (s, .ok (some []))
    | .missing => ({ s with orphanedBlocks := s.orphanedBlocks ++ [block] }, .ok (some []))
    | .found parent => s.executeNotarized env block parent

/-- The work list, its top first. `buffered` says whether a block was deferred; the blocks left are
those the fuel does not reach. -/
def processAll (env : FinalizerEnv) :
    Nat → Finalizer → Bool → List Block → (Finalizer × Except FinalizerError Bool) × List Block
  | _, s, buffered, [] => ((s, .ok buffered), [])
  | 0, s, buffered, toProcess => ((s, .ok buffered), toProcess)
  | fuel + 1, s, buffered, block :: rest =>
    match s.processNotarized env block with
    | (next, .error error) => ((next, .error error), rest)
    | (next, .ok none) => processAll env fuel next true rest
    | (next, .ok (some children)) => processAll env fuel next buffered (children.reverse ++ rest)

/-- Every orphan is taken up at most once, when its parent is executed. -/
def handleNotarizedBlock (env : FinalizerEnv) (s : Finalizer) (block : Block) :
    Finalizer × Except FinalizerError (HandleOutcome Unit) :=
  match (processAll env (s.orphanedBlocks.length + 1) s false [block]).1 with
  | (next, .error error) => (next, .error error)
  | (next, .ok buffered) => (next, .ok (if buffered then .buffered () else .applied))

/-! ### Finalized blocks -/

def acknowledge (s : Finalizer) (entry : PendingFinalized) : Finalizer :=
  { s with acknowledged := s.acknowledged ++ [entry] }

/-- `commit_forkchoice` for a finalized block: the block is head, safe and finalized. -/
def commitFinalized (engine : Engine) (block : Block) : ExecuteOutcome Unit :=
  match engine.commitHash
      { headBlockHash := block.ethBlockHash
        safeBlockHash := block.ethBlockHash
        finalizedBlockHash := block.ethBlockHash } with
  | none => .engineError
  | some .syncing => .syncing
  | some .invalid | some .accepted => .invalidPayload
  | some .valid => .applied ()

/-- The state that a finalized block leads to; `none` while the execution layer is SYNCING. -/
def executeFinalized (env : FinalizerEnv) (s : Finalizer) (block : Block) :
    Except FinalizerError (Option ConsensusState) :=
  match s.forkAt block.height block.digest with
  | some fork =>
    if fork.blockDigest ≠ block.digest then .error .halted
    else match commitFinalized (env.engine s.calls) block with
      | .applied () => .ok (some fork.consensusState)
      | .syncing => .ok none
      | .invalidPayload => .error (.finalizedForkchoiceInvalid block.height block.digest)
      | .engineError => .error (.finalizedForkchoiceEngineError block.height)
      | .halted => .error .halted
  | none =>
    if block.parent ≠ s.canonicalState.headDigest then
      .error (.wrongParent block.height block.parent s.canonicalState.headDigest)
    else match s.canonicalState.executeBlock (env.engine s.calls) env.protocolConsts
        env.depositSignatureDomain none block with
      | .applied state => .ok (some state)
      | .syncing => .ok none
      | .invalidPayload => .error (.finalizedBlockInvalid block.height block.digest)
      | .engineError => .error (.finalizedEngineError block.height)
      | .halted => .error .halted

/-- Make a state canonical and drop what the finalized block overtakes. -/
def promote (s : Finalizer) (block : Block) (state : ConsensusState) : Finalizer :=
  let promoted : Finalizer :=
    { s with
      canonicalState := state.withLive
        (state.toLiveState.setForkchoiceSafeAndFinalized state.forkchoice.headBlockHash)
      forkStates := s.forkStates.filter fun level => block.height < level.1 }
  let pruned := promoted.pruneForkStatesNotDescendingFrom block.height block.digest
  { pruned with
    deadForkDigests := pruned.deadForkDigests.filter fun dead => block.height < dead.1
    orphanedBlocks := pruned.orphanedBlocks.filter fun orphan => block.height < orphan.height }
    |>.heightNotifyFinalizedUpTo block.height block.digest

/-- The end of the epoch after its last block, and the acknowledgement; `none` where the source
panics. The last block of an epoch has to come with its certificate. -/
def settle (env : FinalizerEnv) (s : Finalizer) (entry : PendingFinalized) : Option Finalizer :=
  if s.canonicalState.epocher.isLastBlockOfEpoch entry.block.height then
    entry.finalization.bind fun finalization =>
      (s.canonicalState.epochBoundary env.nodePublicKey entry.block).map fun result =>
        let epoch := s.canonicalState.epoch
        let header := DbWrite.finalizedHeader epoch entry.block finalization
        let checkpoint := result.2.map fun checkpoint =>
          DbWrite.finalizedCheckpoint epoch checkpoint entry.block
        let stored := DbWrite.consensusState (epoch + 1) result.1
        { s with
          canonicalState := result.1
          writes := s.writes ++ header :: checkpoint.toList ++ [stored] }.acknowledge entry
  else some (s.acknowledge entry)

/-- Take up the orphans one after the other. -/
def handleOrphans (env : FinalizerEnv) :
    Finalizer → List Block → Finalizer × Except FinalizerError Unit
  | s, [] => (s, .ok ())
  | s, child :: rest =>
    match s.handleNotarizedBlock env child with
    | (next, .error error) => (next, .error error)
    | (next, .ok _) => handleOrphans env next rest

/-- Take up the orphans that wait for a block that is now canonical. -/
def readoptOrphans (env : FinalizerEnv) (s : Finalizer) (block : Block) :
    Finalizer × Except FinalizerError Unit :=
  handleOrphans env
    { s with
      orphanedBlocks := s.orphanedBlocks.filter fun orphan =>
        ¬(orphan.height = block.height + 1 ∧ orphan.parent = block.digest) }
    (s.orphanedChildren block.height block.digest)

/-- What a finalized block does once its state is known. -/
def finishFinalized (env : FinalizerEnv) (s : Finalizer) (entry : PendingFinalized)
    (state : ConsensusState) :
    Finalizer × Except FinalizerError (HandleOutcome PendingFinalized) :=
  let promoted := s.promote entry.block state
  match promoted.settle env entry with
  | none => (promoted, .error .halted)
  | some settled =>
    match settled.readoptOrphans env entry.block with
    | (next, .error error) => (next, .error error)
    | (next, .ok ()) => (next, .ok .applied)

def handleFinalizedBlock (env : FinalizerEnv) (s : Finalizer) (entry : PendingFinalized) :
    Finalizer × Except FinalizerError (HandleOutcome PendingFinalized) :=
  let block := entry.block
  let height := s.canonicalState.latestHeight
  let head := s.canonicalState.headDigest
  if block.height ≤ height then
    -- delivered again; at the head another digest is a violation of safety
    if block.height = height ∧ block.digest ≠ head then
      (s, .error (.conflictingFinalizedBlock block.height block.digest head))
    else (s.acknowledge entry, .ok .applied)
  else if entry.finalization.any fun finalization => block.digest ≠ finalization.payload then
    (s, .error (.certificateMismatch block.height))
  else if block.height ≠ height + 1 ∨ block.parent ≠ head then
    (s, .error (.nonCanonical block.height block.digest block.parent head))
  else match s.executeFinalized env block with
    | .error error => (s.called, .error error)
    | .ok none => (s.called, .ok (.buffered entry))
    | .ok (some state) => s.called.finishFinalized env entry state

/-! ### The message loop -/

/-- A finalized block arrives. Behind blocks that wait for the execution layer it waits too. -/
def arriveFinalized (env : FinalizerEnv) (s : Finalizer) (entry : PendingFinalized) :
    Finalizer × Except FinalizerError Unit :=
  if s.pendingFinalized ≠ [] then
    ({ s with pendingFinalized := s.pendingFinalized ++ [entry] }, .ok ())
  else match s.handleFinalizedBlock env entry with
    | (next, .error error) => (next, .error error)
    | (next, .ok .applied) => (next, .ok ())
    | (next, .ok (.buffered entry)) =>
      ({ next with pendingFinalized := next.pendingFinalized ++ [entry] }, .ok ())

/-- Try the first deferred finalized block again, and say whether it was applied. -/
def retryFinalized (env : FinalizerEnv) (s : Finalizer) : Finalizer × Except FinalizerError Bool :=
  match s.pendingFinalized with
  | [] => (s, .ok false)
  | entry :: rest =>
    match { s with pendingFinalized := rest }.handleFinalizedBlock env entry with
    | (next, .error error) => (next, .error error)
    | (next, .ok .applied) => (next, .ok true)
    | (next, .ok (.buffered entry)) =>
      ({ next with pendingFinalized := entry :: next.pendingFinalized }, .ok false)

/-- Try the first deferred notarized block again, and say whether it was applied. -/
def retryNotarized (env : FinalizerEnv) (s : Finalizer) : Finalizer × Except FinalizerError Bool :=
  match s.pendingNotarized with
  | [] => (s, .ok false)
  | block :: rest =>
    let popped : Finalizer :=
      { s with
        pendingNotarized := rest
        pendingNotarizedKeys := s.pendingNotarizedKeys.filter (· ≠ block.digest) }
    match popped.handleNotarizedBlock env block with
    | (next, .error error) => (next, .error error)
    | (next, .ok .applied) => (next, .ok true)
    | (next, .ok (.buffered ())) => (next, .ok false)

/-- Retry as long as blocks are applied. -/
def retryWhile (retry : Finalizer → Finalizer × Except FinalizerError Bool) :
    Nat → Finalizer → Finalizer × Except FinalizerError Unit
  | 0, s => (s, .ok ())
  | fuel + 1, s =>
    match retry s with
    | (next, .error error) => (next, .error error)
    | (next, .ok false) => (next, .ok ())
    | (next, .ok true) => retryWhile retry fuel next

/-- The deferred finalized blocks in the order of their arrival, then up to `rounds` notarized ones;
the first block that is deferred again ends the attempt. -/
def drainPending (env : FinalizerEnv) (rounds : Nat) (s : Finalizer) :
    Finalizer × Except FinalizerError Unit :=
  match retryWhile (retryFinalized env) s.pendingFinalized.length s with
  | (next, .error error) => (next, .error error)
  | (next, .ok ()) =>
    if next.pendingFinalized ≠ [] then (next, .ok ())
    else retryWhile (retryNotarized env) rounds next

/-- A request to be told about a block: answered at once when its fate is known. -/
def notifyAtHeight (s : Finalizer) (waiter : HeightNotify) : Finalizer :=
  let answer : Option Bool :=
    if s.canonicalState.latestHeight > waiter.height then some false
    else if waiter.height = s.canonicalState.latestHeight then
      some (decide (waiter.digest = s.canonicalState.headDigest))
    else if (waiter.height, waiter.digest) ∈ s.deadForkDigests then some false
    else if (s.forkAt waiter.height waiter.digest).isSome then some true
    else none
  match answer with
  | some value => { s with notified := s.notified ++ [(waiter, value)] }
  | none => { s with pendingHeightNotifys := s.pendingHeightNotifys ++ [waiter] }

/-- What the actor handles: messages, and the two retries that the drain timer is made of. -/
inductive Event where
  | finalizedBlock (entry : PendingFinalized)
  | notarizedBlock (block : Block)
  | notifyAtHeight (waiter : HeightNotify)
  | retryFinalized
  | retryNotarized

def handle (env : FinalizerEnv) (s : Finalizer) : Event → Finalizer × Except FinalizerError Unit
  | .finalizedBlock entry => s.arriveFinalized env entry
  | .notarizedBlock block =>
    let result := s.handleNotarizedBlock env block
    (result.1, result.2.map fun _ => ())
  | .notifyAtHeight waiter => (s.notifyAtHeight waiter, .ok ())
  | .retryFinalized =>
    let result := s.retryFinalized env
    (result.1, result.2.map fun _ => ())
  | .retryNotarized =>
    -- the notarized blocks are tried when no finalized block is left
    if s.pendingFinalized ≠ [] then (s, .ok ())
    else
      let result := s.retryNotarized env
      (result.1, result.2.map fun _ => ())

/-- One event; `none` when the handler returns an error, which stops the actor. -/
def step (env : FinalizerEnv) (s : Finalizer) (event : Event) : Option Finalizer :=
  match s.handle env event with
  | (next, .ok ()) => some next
  | (_, .error _) => none

end Finalizer

end Actor

end Summit
