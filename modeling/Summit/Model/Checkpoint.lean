/-
**Checkpoint verification**: the headers of `header.rs` and
`verify_checkpoint_chain_with_weak_subjectivity` of `checkpoint.rs`.

Certificates are checked by code outside the repository: `CertificateScheme` holds the verifier that
the source builds from a domain and a committee. The texts of that library's errors, and of the hex
and key decoders that the genesis file goes through, are its own.
-/

import Summit.Model.Finalizer

set_option linter.unusedSectionVars false

namespace Summit

open Bytes

section Headers

variable [Crypto]

structure Header where
  parent : Digest
  height : Nat
  timestamp : Nat
  epoch : Nat
  view : Nat
  payloadHash : Digest
  executionRequestHash : Digest
  checkpointHash : Digest
  prevEpochHeaderHash : Digest
  addedValidators : List AddedValidator
  removedValidators : List PublicKey
  parentBeaconBlockRoot : Bytes32
  /-- The digest that was supplied or computed before, if any. -/
  cached : Option Digest

namespace Header

/-- The SSZ container: the fixed part with the offsets of the two lists, then the lists. -/
def asSszBytes (header : Header) : List UInt8 :=
  let added := header.addedValidators.flatMap fun validator =>
    validator.nodeKey.val.val ++ validator.consensusKey.val.val
  let removed := header.removedValidators.flatMap fun key => key.val.val
  [header.parent.val, leBytes 8 header.height, leBytes 8 header.timestamp, leBytes 8 header.epoch,
   leBytes 8 header.view, header.payloadHash.val, header.executionRequestHash.val,
   header.checkpointHash.val, header.prevEpochHeaderHash.val, leBytes 4 232,
   leBytes 4 (232 + added.length), header.parentBeaconBlockRoot.val, added, removed].flatten

def encode (header : Header) : List UInt8 :=
  beBytes 4 header.asSszBytes.length ++ header.asSszBytes

/-- The digest of the fields, whatever was cached. -/
def computedDigest (header : Header) : Digest := Crypto.sha256 header.encode

def getDigest (header : Header) : Digest := header.cached.getD header.computedDigest

end Header

/-- A finalization certificate with the proposal it signs. -/
structure Finalization where
  epoch : Nat
  view : Nat
  parentView : Nat
  payload : Digest
  certificate : List UInt8
  deriving DecidableEq

structure FinalizedHeader where
  header : Header
  finalization : Finalization

abbrev Peer := PublicKey × BlsPublicKey

/-- `Finalization::verify` under the verifier of a domain and a committee. -/
structure CertificateScheme where
  verify : Digest → List Peer → Finalization → Bool

end Headers

/-! ### Errors -/

inductive CheckpointVerificationError where
  | noHeaders
  | nonContiguousEpochs (expected found : Nat)
  | signatureVerificationFailed (epoch : Nat)
  | checkpointHashMismatch
  | prevEpochHeaderHashMismatch (epoch : Nat)
  | invalidGenesisHash (reason : String)
  | weakSubjectivityEpochUnavailable (epoch highest : Nat)
  | weakSubjectivityHeaderDigestMismatch (epoch : Nat) (expected found : Digest)
  | weakSubjectivityCheckpointTooOld (checkpointEpoch weakSubjectivityEpoch maxAgeEpochs : Nat)
  | validatorSetMismatch (reason : String)
  | validatorSetError (reason : String)
  | payloadDigestMismatch (epoch : Nat)
  | checkpointStatePositionMismatch (reason : String)
  | checkpointTransitionQueueMismatch (reason : String)
  | checkpointConsensusKeyMismatch (reason : String)
  deriving DecidableEq

/-- The bytes as the source's debug format prints them. -/
def showKey (key : Bytes32) : String := toString (key.val.map UInt8.toNat)

/-- The bytes in hexadecimal. -/
def showHex (digest : Digest) : String :=
  String.join (digest.val.map fun byte =>
    String.ofList [Nat.digitChar (byte.toNat / 16), Nat.digitChar (byte.toNat % 16)])

/-- The name of a status in the source's debug format. -/
def ValidatorStatus.debugName : ValidatorStatus → String
  | .active => "Active"
  | .inactive => "Inactive"
  | .submittedExitRequest => "SubmittedExitRequest"
  | .joining => "Joining"
  | .fullPayoutPending => "FullPayoutPending"

section Verification

variable [Crypto]

/-! ### The walk over the headers -/

/-- What the verifier reads of the genesis file. -/
structure VerifierGenesis where
  ethGenesisHash : String
  /-- The bytes of `ethGenesisHash`, if it is the hexadecimal form of 32 bytes. -/
  genesisHash : Option Digest
  /-- `get_validators`. -/
  validators : Except String (List Validator)
  configDigest : Digest

def chainDomainTag : List UInt8 := "summit-chain-v1".toUTF8.toList

def protocolVersion : Nat := 1

/-- The domain that the certificates of a chain are made over. -/
def chainDomain (configDigest : Digest) : Digest :=
  Crypto.sha256 (chainDomainTag ++ leBytes 4 protocolVersion ++ configDigest.val)

/-- The participants of the genesis epoch. -/
def genesisParticipants (validators : List Validator) : List Peer :=
  sortPeers (validators.map fun validator => (validator.nodePublicKey, validator.consensusPublicKey))

/-- The participants after the changes that a terminal header commits. -/
def nextParticipants (participants : List Peer) (added : List AddedValidator)
    (removed : List PublicKey) : List Peer :=
  sortPeers ((participants ++ added.map fun validator => (validator.nodeKey, validator.consensusKey))
    |>.filter fun peer => peer.1 ∉ removed)

/-- The two-way map of a committee is refused when a key occurs twice. -/
def biMap (participants : List Peer) : Except String Unit :=
  if ¬(participants.map Prod.fst).Nodup then .error "DuplicateKey"
  else if ¬(participants.map Prod.snd).Nodup then .error "DuplicateValue"
  else .ok ()

/-- One header of the walk: its payload, its epoch, its link and its certificate. -/
def checkHeader (scheme : CertificateScheme) (domain : Digest) (expectedEpoch : Nat)
    (expectedPrev : Digest) (participants : List Peer) (finalized : FinalizedHeader) :
    Except CheckpointVerificationError Unit :=
  if finalized.header.computedDigest ≠ finalized.finalization.payload then
    .error (.payloadDigestMismatch expectedEpoch)
  else if finalized.header.epoch ≠ expectedEpoch then
    .error (.nonContiguousEpochs expectedEpoch finalized.header.epoch)
  else if finalized.header.prevEpochHeaderHash ≠ expectedPrev then
    .error (.prevEpochHeaderHashMismatch expectedEpoch)
  else match biMap participants with
    | .error reason => .error (.validatorSetError s!"epoch {expectedEpoch}: {reason}")
    | .ok () =>
      if !scheme.verify domain participants finalized.finalization then
        .error (.signatureVerificationFailed expectedEpoch)
      else .ok ()

/-- Walk the headers from an epoch on, with the digest that the next one links to. The result is the
signing set of the last header and the participants after it. -/
def walkHeaders (scheme : CertificateScheme) (domain : Digest) :
    Nat → Digest → List Peer × List Peer → List FinalizedHeader →
      Except CheckpointVerificationError (List Peer × List Peer)
  | _, _, sets, [] => .ok sets
  | epoch, prev, (_, participants), finalized :: rest =>
    match checkHeader scheme domain epoch prev participants finalized with
    | .error error => .error error
    | .ok () =>
      walkHeaders scheme domain (epoch + 1) finalized.header.getDigest
        (participants, nextParticipants participants finalized.header.addedValidators
          finalized.header.removedValidators) rest

/-! ### Weak subjectivity -/

def weakSubjectivityMaxAgeEpochs : Nat := 5

structure WeakSubjectivityHeaderDigest where
  epoch : Nat
  headerDigest : Digest

def checkWeakSubjectivity (headers : List FinalizedHeader) :
    Option WeakSubjectivityHeaderDigest → Except CheckpointVerificationError Unit
  | none => .ok ()
  | some anchor =>
    match headers[anchor.epoch]? with
    | none => .error (.weakSubjectivityEpochUnavailable anchor.epoch (headers.length - 1))
    | some finalized =>
      if finalized.header.getDigest ≠ anchor.headerDigest then
        .error (.weakSubjectivityHeaderDigestMismatch anchor.epoch anchor.headerDigest
          finalized.header.getDigest)
      else if headers.length - 1 - anchor.epoch > weakSubjectivityMaxAgeEpochs then
        .error (.weakSubjectivityCheckpointTooOld (headers.length - 1) anchor.epoch
          weakSubjectivityMaxAgeEpochs)
      else .ok ()

/-! ### The checks of the state -/

/-- A validator of the signing set has an account that signs, with the key it signs with. -/
def checkSigner (state : StateData) (signer : Bytes32 × BlsPublicKey) :
    Except CheckpointVerificationError Unit :=
  let key := showKey signer.1
  match state.getAccount signer.1 with
  | none => .error (.validatorSetMismatch
      s!"validator {key} accumulated from headers but missing from checkpoint accounts")
  | some account =>
    if account.status ≠ .active ∧ account.status ≠ .submittedExitRequest then
      let status := account.status.debugName
      .error (.validatorSetMismatch
        s!"validator {key} is in signing set but has status {status} in checkpoint")
    else if account.consensusPublicKey ≠ signer.2 then
      .error (.checkpointConsensusKeyMismatch
        (s!"validator {key} consensus key in checkpoint does not match the key " ++
          "accumulated from the verified finalized headers"))
    else .ok ()

/-- An active account belongs to the signing set. -/
def checkActive (accumulated : SortedMap Bytes32 BlsPublicKey)
    (entry : Bytes32 × ValidatorAccount) : Except CheckpointVerificationError Unit :=
  if entry.2.status = .active ∧ accumulated.contains entry.1 = false then
    let key := showKey entry.1
    .error (.validatorSetMismatch
      s!"validator {key} is active in checkpoint but not in accumulated signing set")
  else .ok ()

def accumulate (signingSet : List Peer) : SortedMap Bytes32 BlsPublicKey :=
  SortedMap.ofList (signingSet.map fun peer => (peer.1.val, peer.2))

/-- Step 3: the accounts of the state against the signing set. -/
def checkSigningSet (signingSet : List Peer) (state : StateData) :
    Except CheckpointVerificationError Unit := do
  (accumulate signingSet).entries.forM (checkSigner state)
  state.validatorAccounts.entries.forM (checkActive (accumulate signingSet))

/-- Step 4: the position of the state is that of the terminal header. -/
def checkPosition (terminal : Header) (state : StateData) :
    Except CheckpointVerificationError Unit :=
  let latestHeight := state.latestHeight
  let expectedTerminalHeight := saturatingAdd latestHeight 1
  let height := terminal.height
  if terminal.height ≠ expectedTerminalHeight then
    .error (.checkpointStatePositionMismatch
      (s!"decoded latest_height {latestHeight} implies terminal height {expectedTerminalHeight}" ++
        s!", but terminal header is at height {height}"))
  else if state.epoch ≠ terminal.epoch then
    let epoch := state.epoch
    let terminalEpoch := terminal.epoch
    .error (.checkpointStatePositionMismatch
      s!"decoded epoch {epoch} does not match terminal header epoch {terminalEpoch}")
  else if state.headDigest ≠ terminal.parent then
    let head := showHex state.headDigest
    let parent := showHex terminal.parent
    .error (.checkpointStatePositionMismatch
      s!"decoded head_digest 0x{head} is not the terminal header's parent 0x{parent}")
  else .ok ()

/-- Step 5: the schedule of the state covers its position. -/
def checkSchedule (state : StateData) : Except CheckpointVerificationError Unit :=
  let epoch := state.epoch
  let height := state.latestHeight
  match state.epocher.epochBounds epoch with
  | none => .error (.checkpointStatePositionMismatch
      s!"embedded epocher does not cover decoded epoch {epoch}")
  | some (start, last) =>
    if height < start ∨ last < height then
      .error (.checkpointStatePositionMismatch
        (s!"decoded latest_height {height} is outside the epocher bounds " ++
          s!"[{start}, {last}] for decoded epoch {epoch}"))
    else .ok ()

/-- An added validator has an account, with the key that was committed. -/
def checkAdded (state : StateData) (nextEpoch : Nat) (added : AddedValidator) :
    Except CheckpointVerificationError Unit :=
  let key := showKey added.nodeKey.val
  match state.getAccount added.nodeKey.val with
  | none => .error (.validatorSetMismatch
      (s!"validator {key} is in the committed added_validators for epoch " ++
        s!"{nextEpoch} but has no account in the checkpoint"))
  | some account =>
    if account.consensusPublicKey ≠ added.consensusKey then
      .error (.checkpointConsensusKeyMismatch
        (s!"joining validator {key} account consensus key does not match " ++
          s!"the key committed in added_validators for epoch {nextEpoch}"))
    else .ok ()

def sortAdded (added : List AddedValidator) : List AddedValidator :=
  added.insertionSort fun lhs rhs => lhs.nodeKey.val ≤ rhs.nodeKey.val

def sortKeys (keys : List PublicKey) : List PublicKey :=
  keys.insertionSort fun lhs rhs => lhs.val ≤ rhs.val

def checkAddedQueue (terminal : Header) (state : StateData) :
    Except CheckpointVerificationError Unit :=
  let nextEpoch := state.epoch + 1
  let checkpointAdded := sortAdded ((state.getAddedValidators nextEpoch).getD [])
  let headerAdded := sortAdded terminal.addedValidators
  if checkpointAdded ≠ headerAdded then
    let decoded := checkpointAdded.length
    let committed := headerAdded.length
    .error (.checkpointTransitionQueueMismatch
      (s!"decoded added_validators for epoch {nextEpoch} ({decoded} entries) do not match the " ++
        s!"terminal header's committed additions ({committed} entries)"))
  else .ok ()

def checkRemovedQueue (terminal : Header) (state : StateData) :
    Except CheckpointVerificationError Unit :=
  let checkpointRemoved := sortKeys state.getRemovedValidators
  let headerRemoved := sortKeys terminal.removedValidators
  if checkpointRemoved ≠ headerRemoved then
    let decoded := checkpointRemoved.length
    let committed := headerRemoved.length
    .error (.checkpointTransitionQueueMismatch
      (s!"decoded removed_validators ({decoded} entries) do not match the terminal header's " ++
        s!"committed removals ({committed} entries)"))
  else .ok ()

/-- Step 6: the pending changes of the committee are those of the terminal header. -/
def checkTransitionQueues (terminal : Header) (state : StateData) :
    Except CheckpointVerificationError Unit := do
  checkAddedQueue terminal state
  (sortAdded terminal.addedValidators).forM (checkAdded state (state.epoch + 1))
  checkRemovedQueue terminal state

/-! ### The verifier -/

def readGenesisHash (genesis : VerifierGenesis) : Except CheckpointVerificationError Digest :=
  match genesis.genesisHash with
  | none => .error (.invalidGenesisHash genesis.ethGenesisHash)
  | some digest => .ok digest

def readValidators (genesis : VerifierGenesis) :
    Except CheckpointVerificationError (List Validator) :=
  match genesis.validators with
  | .error reason => .error (.validatorSetError reason)
  | .ok validators => .ok validators

/-- Step 2: the last header commits the checkpoint. -/
def checkCheckpointHash (terminal : Header) (checkpoint : Checkpoint) :
    Except CheckpointVerificationError Unit :=
  if terminal.checkpointHash ≠ Crypto.sha256 checkpoint.data then .error .checkpointHashMismatch
  else .ok ()

def decodeCheckpoint (checkpoint : Checkpoint) :
    Except CheckpointVerificationError ConsensusState :=
  match ConsensusState.tryFrom checkpoint with
  | .error error =>
    let shown := reprStr error
    .error (.validatorSetError s!"failed to deserialize checkpoint: {shown}")
  | .ok state => .ok state

/-- Verify a checkpoint against the headers of all epochs so far and a trusted recent one. -/
def verifyCheckpointChainWithWeakSubjectivity (scheme : CertificateScheme)
    (genesis : VerifierGenesis) (headers : List FinalizedHeader) (checkpoint : Checkpoint)
    (weakSubjectivity : Option WeakSubjectivityHeaderDigest) :
    Except CheckpointVerificationError Unit :=
  match headers.getLast? with
  | none => .error .noHeaders
  | some last => do
    let genesisHash ← readGenesisHash genesis
    let validators ← readValidators genesis
    let participants := genesisParticipants validators
    let sets ← walkHeaders scheme (chainDomain genesis.configDigest) 0 genesisHash
      (participants, participants) headers
    checkWeakSubjectivity headers weakSubjectivity
    checkCheckpointHash last.header checkpoint
    let state ← decodeCheckpoint checkpoint
    checkSigningSet sets.1 state.toStateData
    checkPosition last.header state.toStateData
    checkSchedule state.toStateData
    checkTransitionQueues last.header state.toStateData

end Verification

end Summit
