/-
**What an accepted checkpoint says about the committee.**

`Verified` lists what the verifier has checked when it accepts. Of the accounts that sign, it binds
the active ones to the signing set in both directions, but those that have submitted an exit in one
direction only: nothing is asked of such an account outside the signing set, nor that such a signer
is removed. So the committee of the state is that of the headers exactly when every submitted exit
belongs to the signing set and to the changes of the last header (`checkpoint_committee_iff`).
-/

import Summit.Lib.Checks
import Summit.Proof.Committee

set_option linter.unusedSectionVars false

namespace Summit

section CheckpointSound

variable [Crypto]

/-! ### The checks one by one -/

section Checks

variable {state : StateData}

theorem checkSigner_eq_ok {pubkey : Bytes32} {bls : BlsPublicKey} :
    checkSigner state (pubkey, bls) = .ok () ↔
      ∃ account, state.getAccount pubkey = some account ∧
        account.status.isCurrentEpochSigner = true ∧ account.consensusPublicKey = bls := by
  unfold checkSigner
  cases state.getAccount pubkey with
  | none =>
    constructor
    · nofun
    · rintro ⟨_, found, -⟩
      cases found
  | some account =>
    have signs : ¬(account.status ≠ .active ∧ account.status ≠ .submittedExitRequest) ↔
        account.status.isCurrentEpochSigner = true := by
      cases account.status <;> decide
    rw [Checks.refuse_eq_ok, Checks.refuse_eq_ok, signs, not_not]
    constructor
    · exact fun ⟨holds, same, _⟩ => ⟨account, rfl, holds, same⟩
    · rintro ⟨_, found, holds, same⟩
      obtain rfl := Option.some.inj found
      exact ⟨holds, same, rfl⟩

theorem checkActive_eq_ok {accumulated : SortedMap Bytes32 BlsPublicKey} {pubkey : Bytes32}
    {account : ValidatorAccount} :
    checkActive accumulated (pubkey, account) = .ok () ↔
      (account.status = .active → accumulated.contains pubkey = true) := by
  unfold checkActive
  rw [Checks.refuse_eq_ok, not_and, Bool.not_eq_false]
  exact and_iff_left rfl

theorem find?_accumulate {signingSet : List Peer} (nodup : (signingSet.map Prod.fst).Nodup)
    (pubkey : Bytes32) (bls : BlsPublicKey) :
    (accumulate signingSet).find? pubkey = some bls ↔
      ∃ node : PublicKey, node.val = pubkey ∧ (node, bls) ∈ signingSet := by
  have keys : ((signingSet.map fun peer => (peer.1.val, peer.2)).map Prod.fst).Nodup := by
    rw [List.map_map]
    have vals : (signingSet.map Prod.fst).map (fun node : PublicKey => node.val) =
        signingSet.map (Prod.fst ∘ fun peer => (peer.1.val, peer.2)) := by
      rw [List.map_map]
      rfl
    rw [← vals]
    exact nodup.map fun _ _ same => Subtype.ext same
  rw [accumulate, SortedMap.find?_ofList keys, List.mem_map]
  constructor
  · rintro ⟨⟨node, other⟩, member, same⟩
    obtain ⟨rfl, rfl⟩ := Prod.mk.inj same
    exact ⟨node, rfl, member⟩
  · rintro ⟨node, rfl, member⟩
    exact ⟨(node, bls), member, rfl⟩

/-- The signers have accounts that sign, and the active accounts are signers. -/
theorem checkSigningSet_eq_ok {signingSet : List Peer} (nodup : (signingSet.map Prod.fst).Nodup) :
    checkSigningSet signingSet state = .ok () ↔
      (∀ node bls, (node, bls) ∈ signingSet → ∃ account, state.getAccount node.val = some account ∧
        account.status.isCurrentEpochSigner = true ∧ account.consensusPublicKey = bls) ∧
      ∀ pubkey account, state.getAccount pubkey = some account → account.status = .active →
        ∃ node : PublicKey, node.val = pubkey ∧ ∃ bls, (node, bls) ∈ signingSet := by
  rw [checkSigningSet, Checks.seq_eq_ok, Checks.forM_eq_ok, Checks.forM_eq_ok]
  refine and_congr ⟨fun each node bls member => ?_, fun each entry member => ?_⟩
    ⟨fun each pubkey account found active => ?_, fun each entry member => ?_⟩
  · refine checkSigner_eq_ok.mp (each (node.val, bls) ?_)
    exact SortedMap.find?_eq_some_iff.mp ((find?_accumulate nodup _ _).mpr ⟨node, rfl, member⟩)
  · obtain ⟨node, same, listed⟩ :=
      (find?_accumulate nodup entry.1 entry.2).mp (SortedMap.find?_eq_some_iff.mpr member)
    refine checkSigner_eq_ok.mpr ?_
    rw [← same]
    exact each node entry.2 listed
  · have held := checkActive_eq_ok.mp
      (each (pubkey, account) (SortedMap.find?_eq_some_iff.mp found)) active
    obtain ⟨bls, here⟩ := Option.isSome_iff_exists.mp held
    obtain ⟨node, same, listed⟩ := (find?_accumulate nodup pubkey bls).mp here
    exact ⟨node, same, bls, listed⟩
  · refine checkActive_eq_ok.mpr fun active => ?_
    obtain ⟨node, same, bls, listed⟩ :=
      each entry.1 entry.2 (SortedMap.find?_eq_some_iff.mpr member) active
    exact Option.isSome_of_eq_some ((find?_accumulate nodup entry.1 bls).mpr ⟨node, same, listed⟩)

theorem checkAdded_eq_ok {nextEpoch : Nat} {added : AddedValidator} :
    checkAdded state nextEpoch added = .ok () ↔
      ∃ account, state.getAccount added.nodeKey.val = some account ∧
        account.consensusPublicKey = added.consensusKey := by
  unfold checkAdded
  cases state.getAccount added.nodeKey.val with
  | none =>
    constructor
    · nofun
    · rintro ⟨_, found, -⟩
      cases found
  | some account =>
    rw [Checks.refuse_eq_ok, not_not]
    constructor
    · exact fun ⟨same, _⟩ => ⟨account, rfl, same⟩
    · rintro ⟨_, found, same⟩
      obtain rfl := Option.some.inj found
      exact ⟨same, rfl⟩

/-- The changes of the state are those of the header, and whoever is added has an account. -/
theorem checkTransitionQueues_eq_ok {terminal : Header} :
    checkTransitionQueues terminal state = .ok () ↔
      sortAdded (state.scheduled (state.epoch + 1)) = sortAdded terminal.addedValidators ∧
      (∀ added ∈ terminal.addedValidators, ∃ account,
        state.getAccount added.nodeKey.val = some account ∧
        account.consensusPublicKey = added.consensusKey) ∧
      sortKeys state.removedValidators = sortKeys terminal.removedValidators := by
  rw [checkTransitionQueues, Checks.seq_eq_ok, Checks.seq_eq_ok, Checks.forM_eq_ok,
    checkAddedQueue, Checks.refuse_eq_ok, checkRemovedQueue, Checks.refuse_eq_ok, not_not, not_not]
  refine and_congr (and_iff_left rfl)
    (and_congr ⟨fun each added member => ?_, fun each added member => ?_⟩ (and_iff_left rfl))
  · exact checkAdded_eq_ok.mp (each added ((List.mem_insertionSort _).mpr member))
  · exact checkAdded_eq_ok.mpr (each added ((List.mem_insertionSort _).mp member))

end Checks

/-! ### The signing set of the walk -/

variable {participants : List Peer} {scheme : CertificateScheme} {domain prev : Digest}
  {epoch : Nat} {headers : List FinalizedHeader} {sets : List Peer × List Peer}
  {last : FinalizedHeader} {genesis : VerifierGenesis} {validators : List Validator}
  {checkpoint : Checkpoint} {state : ConsensusState} {anchor : Option WeakSubjectivityHeaderDigest}

theorem biMap_eq_ok :
    biMap participants = .ok () ↔
      (participants.map Prod.fst).Nodup ∧ (participants.map Prod.snd).Nodup := by
  rw [biMap, Checks.refuse_eq_ok, Checks.refuse_eq_ok, not_not, not_not]
  exact and_congr_right fun _ => and_iff_left rfl

theorem checkHeader_eq_ok {finalized : FinalizedHeader} :
    checkHeader scheme domain epoch prev participants finalized = .ok () ↔
      finalized.header.computedDigest = finalized.finalization.payload ∧
      finalized.header.epoch = epoch ∧ finalized.header.prevEpochHeaderHash = prev ∧
      ((participants.map Prod.fst).Nodup ∧ (participants.map Prod.snd).Nodup) ∧
      scheme.verify domain participants finalized.finalization = true := by
  rw [checkHeader, Checks.refuse_eq_ok, Checks.refuse_eq_ok, Checks.refuse_eq_ok, not_not, not_not,
    not_not, ← biMap_eq_ok]
  refine and_congr_right fun _ => and_congr_right fun _ => and_congr_right fun _ => ?_
  cases biMap participants with
  | error reason =>
    constructor
    · nofun
    · exact fun both => nomatch both.1
  | ok =>
    rw [Checks.refuse_eq_ok, Bool.not_eq_true', Bool.not_eq_false]
    exact ⟨fun both => ⟨rfl, both.1⟩, fun both => ⟨both.2, rfl⟩⟩

/-- The last header of a walk: the set that signs it has every key once, and its changes lead to the
participants after it. -/
theorem walkHeaders_last {result : List Peer × List Peer}
    (walk : walkHeaders scheme domain epoch prev sets headers = .ok result)
    (ends : headers.getLast? = some last) :
    (result.1.map Prod.fst).Nodup ∧
      result.2 = nextParticipants result.1 last.header.addedValidators
        last.header.removedValidators := by
  induction headers generalizing epoch prev sets with
  | nil => cases ends
  | cons finalized rest ih =>
    rw [walkHeaders] at walk
    split at walk
    · cases walk
    next accepted =>
    cases rest with
    | nil =>
      obtain rfl := Option.some.inj ends
      obtain rfl := Except.ok.inj walk
      exact ⟨(checkHeader_eq_ok.mp accepted).2.2.2.1.1, rfl⟩
    | cons next rest => exact ih walk (by rwa [List.getLast?_cons_cons] at ends)

/-! ### The whole verification -/

/-- What has been checked of an accepted checkpoint. -/
structure Verified (scheme : CertificateScheme) (genesis : VerifierGenesis)
    (headers : List FinalizedHeader) (checkpoint : Checkpoint)
    (anchor : Option WeakSubjectivityHeaderDigest) (last : FinalizedHeader)
    (validators : List Validator) (sets : List Peer × List Peer) (state : ConsensusState) :
    Prop where
  ends : headers.getLast? = some last
  listed : genesis.validators = .ok validators
  walk : ∃ genesisHash, genesis.genesisHash = some genesisHash ∧
    walkHeaders scheme (chainDomain genesis.configDigest) 0 genesisHash
      (genesisParticipants validators, genesisParticipants validators) headers = .ok sets
  anchored : checkWeakSubjectivity headers anchor = .ok ()
  hash : last.header.checkpointHash = Crypto.sha256 checkpoint.data
  decoded : ConsensusState.tryFrom checkpoint = .ok state
  signers : checkSigningSet sets.1 state.toStateData = .ok ()
  position : checkPosition last.header state.toStateData = .ok ()
  schedule : checkSchedule state.toStateData = .ok ()
  queues : checkTransitionQueues last.header state.toStateData = .ok ()

theorem readGenesisHash_eq_ok {digest : Digest} :
    readGenesisHash genesis = .ok digest ↔ genesis.genesisHash = some digest := by
  unfold readGenesisHash
  cases genesis.genesisHash with
  | none => exact ⟨nofun, nofun⟩
  | some other => exact ⟨fun same => congrArg some (Except.ok.inj same),
      fun same => congrArg Except.ok (Option.some.inj same)⟩

theorem readValidators_eq_ok :
    readValidators genesis = .ok validators ↔ genesis.validators = .ok validators := by
  unfold readValidators
  cases genesis.validators with
  | error => exact ⟨nofun, nofun⟩
  | ok other => exact ⟨fun same => congrArg Except.ok (Except.ok.inj same),
      fun same => congrArg Except.ok (Except.ok.inj same)⟩

theorem decodeCheckpoint_eq_ok :
    decodeCheckpoint checkpoint = .ok state ↔ ConsensusState.tryFrom checkpoint = .ok state := by
  unfold decodeCheckpoint
  cases ConsensusState.tryFrom checkpoint with
  | error => exact ⟨nofun, nofun⟩
  | ok other => exact ⟨fun same => congrArg Except.ok (Except.ok.inj same),
      fun same => congrArg Except.ok (Except.ok.inj same)⟩

theorem checkCheckpointHash_eq_ok {terminal : Header} :
    checkCheckpointHash terminal checkpoint = .ok () ↔
      terminal.checkpointHash = Crypto.sha256 checkpoint.data := by
  rw [checkCheckpointHash, Checks.refuse_eq_ok, not_not]
  exact and_iff_left rfl

/-- **The verifier accepts exactly what passes every check.** -/
theorem verifyCheckpointChain_eq_ok :
    verifyCheckpointChainWithWeakSubjectivity scheme genesis headers checkpoint anchor = .ok () ↔
      ∃ last validators sets state,
        Verified scheme genesis headers checkpoint anchor last validators sets state := by
  unfold verifyCheckpointChainWithWeakSubjectivity
  cases ends : headers.getLast? with
  | none =>
    constructor
    · nofun
    · rintro ⟨_, _, _, _, verified⟩
      rw [verified.ends] at ends
      cases ends
  | some last =>
    simp only [Checks.bind_eq_ok, readGenesisHash_eq_ok, readValidators_eq_ok,
      decodeCheckpoint_eq_ok]
    constructor
    · rintro ⟨genesisHash, given, validators, listed, sets, walk, _, anchored, _, hash, state,
        decoded, _, signers, _, position, _, schedule, queues⟩
      exact ⟨last, validators, sets, state, ends, listed, ⟨genesisHash, given, walk⟩, anchored,
        checkCheckpointHash_eq_ok.mp hash, decoded, signers, position, schedule, queues⟩
    · rintro ⟨other, validators, sets, state, verified⟩
      obtain rfl := Option.some.inj (ends.symm.trans verified.ends)
      obtain ⟨genesisHash, given, walk⟩ := verified.walk
      exact ⟨genesisHash, given, validators, verified.listed, sets, walk, (), verified.anchored, (),
        checkCheckpointHash_eq_ok.mpr verified.hash, state, verified.decoded, (), verified.signers, (), verified.position, (),
        verified.schedule, verified.queues⟩

/-! ### The committee -/

/-- The signers of the state are the signing set. -/
def StateData.SignsAs (state : StateData) (signingSet : List Peer) : Prop :=
  ∃ current, state.getCurrentEpochValidators = some current ∧
    ∀ peer, peer ∈ current ↔ peer ∈ signingSet

/-- After the committee transition, whichever node makes it, the active validators are the
participants. -/
def LiveState.BecomesAs (state : LiveState) (participants : List Peer) : Prop :=
  ∀ node, ∃ result active, state.applyCommitteeTransition node = some result ∧
    result.1.getActiveValidators = some active ∧ ∀ peer, peer ∈ active ↔ peer ∈ participants

/-- Whoever has submitted an exit is in the signing set, and is removed or added. -/
def StateData.ExitsCovered (state : StateData) (signingSet : List Peer) (terminal : Header) : Prop :=
  ∀ pubkey account, state.getAccount pubkey = some account →
    account.status = .submittedExitRequest →
    ∃ node : PublicKey, node.val = pubkey ∧ (∃ bls, (node, bls) ∈ signingSet) ∧
      (node ∈ terminal.removedValidators ∨
        ∃ validator ∈ terminal.addedValidators, validator.nodeKey = node)

/-- What the verifier has established about the accounts of the state. -/
structure Bound (state : LiveState) (signingSet : List Peer) (terminal : Header) : Prop where
  signer : ∀ node bls, (node, bls) ∈ signingSet → ∃ account,
    state.getAccount node.val = some account ∧ account.status.isCurrentEpochSigner = true ∧
      account.consensusPublicKey = bls
  active : ∀ pubkey account, state.getAccount pubkey = some account → account.status = .active →
    ∃ node : PublicKey, node.val = pubkey ∧ ∃ bls, (node, bls) ∈ signingSet
  scheduled : ∀ validator, validator ∈ state.scheduled (state.epoch + 1) ↔
    validator ∈ terminal.addedValidators
  added : ∀ validator ∈ terminal.addedValidators, ∃ account,
    state.getAccount validator.nodeKey.val = some account ∧
      account.consensusPublicKey = validator.consensusKey
  removed : ∀ node, node ∈ state.removedValidators ↔ node ∈ terminal.removedValidators

theorem Verified.bound
    (verified : Verified scheme genesis headers checkpoint anchor last validators sets state) :
    Bound state.toLiveState sets.1 last.header := by
  obtain ⟨genesisHash, -, walk⟩ := verified.walk
  have nodup := (walkHeaders_last walk verified.ends).1
  obtain ⟨signer, active⟩ := (checkSigningSet_eq_ok nodup).mp verified.signers
  obtain ⟨scheduled, added, removed⟩ := checkTransitionQueues_eq_ok.mp verified.queues
  refine ⟨signer, active, fun validator => ?_, added, fun node => ?_⟩
  · rw [← List.mem_insertionSort (fun lhs rhs : AddedValidator => lhs.nodeKey.val ≤ rhs.nodeKey.val)]
    exact (iff_of_eq (congrArg (validator ∈ ·) scheduled)).trans (List.mem_insertionSort _)
  · rw [← List.mem_insertionSort (fun lhs rhs : PublicKey => lhs.val ≤ rhs.val)]
    exact (iff_of_eq (congrArg (node ∈ ·) removed)).trans (List.mem_insertionSort _)

section Bound

variable {state : LiveState} {signingSet : List Peer} {terminal : Header}
  (bound : Bound state signingSet terminal)

include bound

/-- A signer of the signing set has the key of its account there. -/
theorem Bound.key {node : PublicKey} {bls : BlsPublicKey} {account : ValidatorAccount}
    (member : (node, bls) ∈ signingSet) (found : state.getAccount node.val = some account) :
    account.consensusPublicKey = bls := by
  obtain ⟨other, here, -, key⟩ := bound.signer node bls member
  obtain rfl := Option.some.inj (found.symm.trans here)
  exact key

/-- A removed validator, as the boundary looks for it. -/
theorem Bound.stays_iff (node : PublicKey) :
    (∀ key ∈ state.removedValidators, key.val ≠ node.val) ↔ node ∉ terminal.removedValidators := by
  rw [← bound.removed]
  constructor
  · exact fun apart member => apart node member rfl
  · intro absent key member same
    exact absent (Subtype.ext same ▸ member)

theorem Bound.joins_iff (node : PublicKey) :
    (∃ validator ∈ state.scheduled (state.epoch + 1), validator.nodeKey.val = node.val) ↔
      ∃ validator ∈ terminal.addedValidators, validator.nodeKey = node := by
  constructor
  · rintro ⟨validator, member, same⟩
    exact ⟨validator, (bound.scheduled validator).mp member, Subtype.ext same⟩
  · rintro ⟨validator, member, rfl⟩
    exact ⟨validator, (bound.scheduled validator).mpr member, rfl⟩

theorem Bound.transition (node : PublicKey) :
    ∃ result, state.applyCommitteeTransition node = some result ∧
      Restatus (Transition (state.scheduled (state.epoch + 1)) state.removedValidators)
        state.validatorAccounts result.1.validatorAccounts := by
  have each : ∀ validator ∈ state.scheduled (state.epoch + 1),
      (state.getAccount validator.nodeKey.val).isSome = true := by
    intro validator member
    obtain ⟨account, found, -⟩ := bound.added validator ((bound.scheduled validator).mp member)
    exact Option.isSome_of_eq_some found
  obtain ⟨result, applied⟩ := exists_applyCommitteeTransition node each
  exact ⟨result, applied, (restatus_applyCommitteeTransition applied).2⟩

theorem Bound.signsAs (covered : state.ExitsCovered signingSet terminal) :
    state.SignsAs signingSet := by
  -- whoever signs is in the signing set
  have listed (pubkey : Bytes32) (account : ValidatorAccount)
      (found : state.getAccount pubkey = some account)
      (signs : account.status.isCurrentEpochSigner = true) :
      ∃ node : PublicKey, node.val = pubkey ∧ ∃ bls, (node, bls) ∈ signingSet := by
    cases status : account.status with
    | active => exact bound.active pubkey account found status
    | submittedExitRequest =>
      obtain ⟨node, same, member, -⟩ := covered pubkey account found status
      exact ⟨node, same, member⟩
    | _ =>
      rw [status] at signs
      cases signs
  obtain ⟨current, result⟩ := exists_validatorsWith state.toStateData
    ValidatorStatus.isCurrentEpochSigner fun pubkey account found signs => by
      obtain ⟨node, rfl, -⟩ := listed pubkey account found signs
      rw [PublicKey.decode_val]
      rfl
  refine ⟨current, result, fun ⟨node, bls⟩ => ?_⟩
  rw [mem_validatorsWith result]
  refine ⟨?_, bound.signer node bls⟩
  rintro ⟨account, found, signs, rfl⟩
  obtain ⟨other, same, bls, member⟩ := listed node.val account found signs
  obtain rfl := Subtype.ext same
  rwa [bound.key member found]

theorem Bound.becomesAs (covered : state.ExitsCovered signingSet terminal) :
    state.BecomesAs (nextParticipants signingSet terminal.addedValidators
      terminal.removedValidators) := by
  intro self
  obtain ⟨result, applied, restatus⟩ := bound.transition self
  have decodes (pubkey : Bytes32) (account : ValidatorAccount)
      (found : result.1.getAccount pubkey = some account)
      (active : decide (account.status = .active) = true) :
      (PublicKey.decode pubkey).isSome = true := by
    obtain ⟨before, here, -, rule⟩ := restatus.of_some_after found
    rcases (rule.active_iff.mp (of_decide_eq_true active)).2 with old | ⟨validator, -, same⟩
    · obtain ⟨node, rfl, -⟩ := bound.active pubkey before here old
      rw [PublicKey.decode_val]
      rfl
    · rw [← same, PublicKey.decode_val]
      rfl
  obtain ⟨active, listed⟩ := exists_validatorsWith result.1.toStateData
    (fun status => status = .active) decodes
  refine ⟨result, active, applied, listed, fun ⟨node, bls⟩ => ?_⟩
  rw [mem_validatorsWith listed, nextParticipants, mem_sortPeers, List.mem_filter, List.mem_append,
    List.mem_map, decide_eq_true_eq]
  simp only [decide_eq_true_eq]
  constructor
  · rintro ⟨account, found, active, rfl⟩
    obtain ⟨before, here, same, rule⟩ := restatus.of_some_after found
    have key : account.consensusPublicKey = before.consensusPublicKey := by rw [same]; rfl
    obtain ⟨stays, old | joins⟩ := rule.active_iff.mp active
    · obtain ⟨other, same, bls, member⟩ := bound.active node.val before here old
      obtain rfl := Subtype.ext same
      rw [key, bound.key member here]
      exact ⟨Or.inl member, (bound.stays_iff other).mp stays⟩
    · obtain ⟨validator, member, rfl⟩ := (bound.joins_iff node).mp joins
      obtain ⟨other, there, committed⟩ := bound.added validator member
      obtain rfl := Option.some.inj (here.symm.trans there)
      refine ⟨Or.inr ⟨validator, member, ?_⟩, (bound.stays_iff _).mp stays⟩
      rw [key, committed]
  · rintro ⟨member, stays⟩
    have stays := (bound.stays_iff node).mpr stays
    -- whoever stays and was active or is added is active
    have becomes (account : ValidatorAccount) (found : state.getAccount node.val = some account)
        (seated : account.status = .active ∨
          ∃ validator ∈ terminal.addedValidators, validator.nodeKey = node) :
        result.1.getAccount node.val = some (account.withStatus .active) := by
      obtain ⟨status, after, rule⟩ := restatus.of_some found
      have active := rule.active_iff.mpr ⟨stays, seated.imp_right (bound.joins_iff node).mpr⟩
      rwa [active] at after
    rcases member with member | ⟨validator, member, same⟩
    · obtain ⟨account, found, signs, key⟩ := bound.signer node bls member
      refine ⟨_, becomes account found ?_, rfl, key⟩
      cases status : account.status with
      | active => exact Or.inl rfl
      | submittedExitRequest =>
        obtain ⟨other, same, -, changed⟩ := covered node.val account found status
        obtain rfl := Subtype.ext same
        exact Or.inr (changed.resolve_left ((bound.stays_iff other).mp stays))
      | _ =>
        rw [status] at signs
        cases signs
    · obtain ⟨rfl, rfl⟩ := Prod.mk.inj same
      obtain ⟨account, found, key⟩ := bound.added validator member
      exact ⟨_, becomes account found (Or.inr ⟨validator, member, rfl⟩), rfl, key⟩

/-- The other direction: an exit that is not covered shows. -/
theorem Bound.exitsCovered (signs : state.SignsAs signingSet)
    (becomes : state.BecomesAs (nextParticipants signingSet terminal.addedValidators
      terminal.removedValidators)) : state.ExitsCovered signingSet terminal := by
  intro pubkey account found submitted
  obtain ⟨current, result, same⟩ := signs
  have signer : account.status.isCurrentEpochSigner = true := by
    rw [submitted]
    rfl
  obtain ⟨node, rfl⟩ := decodes_of_validatorsWith result found signer
  have member : (node, account.consensusPublicKey) ∈ signingSet :=
    (same _).mp ((mem_validatorsWith result node _).mpr ⟨account, found, signer, rfl⟩)
  refine ⟨node, rfl, ⟨_, member⟩, ?_⟩
  by_contra uncovered
  obtain ⟨stays, apart⟩ := not_or.mp uncovered
  obtain ⟨moved, active, applied, listed, participants⟩ := becomes node
  have next : (node, account.consensusPublicKey) ∈ active := by
    rw [participants, nextParticipants, mem_sortPeers, List.mem_filter, decide_eq_true_eq]
    exact ⟨List.mem_append_left _ member, stays⟩
  obtain ⟨after, here, status, -⟩ := (mem_validatorsWith listed node _).mp next
  obtain ⟨before, there, -, rule⟩ :=
    (restatus_applyCommitteeTransition applied).2.of_some_after here
  obtain rfl := Option.some.inj (found.symm.trans there)
  rcases (rule.active_iff.mp (of_decide_eq_true status)).2 with old | joins
  · rw [submitted] at old
    cases old
  · exact apart ((bound.joins_iff node).mp joins)

end Bound

end CheckpointSound

/-- **The committee of an accepted checkpoint.** When the verifier accepts, the signers of the
decoded state are the signing set of the last header, and the active validators after the committee
transition are the participants after it, exactly when every account of the state that has submitted
an exit is in the signing set and among the changes of the last header. -/
theorem checkpoint_committee_iff [Crypto] {scheme : CertificateScheme} {genesis : VerifierGenesis}
    {headers : List FinalizedHeader} {checkpoint : Checkpoint}
    {anchor : Option WeakSubjectivityHeaderDigest}
    (accepted : verifyCheckpointChainWithWeakSubjectivity scheme genesis headers checkpoint anchor =
      .ok ()) :
    ∃ last validators sets state genesisHash,
      headers.getLast? = some last ∧ genesis.validators = .ok validators ∧
      genesis.genesisHash = some genesisHash ∧
      walkHeaders scheme (chainDomain genesis.configDigest) 0 genesisHash
        (genesisParticipants validators, genesisParticipants validators) headers = .ok sets ∧
      ConsensusState.tryFrom checkpoint = .ok state ∧
      ((state.SignsAs sets.1 ∧ state.BecomesAs sets.2) ↔
        state.ExitsCovered sets.1 last.header) := by
  obtain ⟨last, validators, sets, state, verified⟩ := verifyCheckpointChain_eq_ok.mp accepted
  obtain ⟨genesisHash, given, walk⟩ := verified.walk
  have bound := verified.bound
  refine ⟨last, validators, sets, state, genesisHash, verified.ends, verified.listed, given, walk,
    verified.decoded, ?_⟩
  rw [(walkHeaders_last walk verified.ends).2]
  exact ⟨fun ⟨signs, becomes⟩ => bound.exitsCovered signs becomes,
    fun covered => ⟨bound.signsAs covered, bound.becomesAs covered⟩⟩

open Bytes

attribute [local instance] Crypto.accepting

/-- A state at the penultimate block of the first epoch, with two accounts. -/
def penultimateData (first second : ValidatorStatus) : StateData :=
  { (StateData.new ⟨zeroChunk, zeroChunk, zeroChunk⟩ 32 10 ten_pos 1000 (FixedBytes.zero 20)
      4 4 0 4 1 0 4) with
    latestHeight := 8
    validatorAccounts :=
      (SortedMap.empty.insert zeroChunk { stakedAccount with status := first }).insert secondKey
        { stakedAccount with
          consensusPublicKey := secondBlsKey
          status := second } }

def penultimateCheckpoint (first second : ValidatorStatus) : Checkpoint :=
  Checkpoint.new (ConsensusState.ofData (penultimateData first second) 0 none)

/-- The terminal header of the first epoch, which commits a checkpoint and adds and removes
nobody. -/
def terminalHeader (checkpoint : Checkpoint) : Header where
  parent := zeroChunk
  height := 9
  timestamp := 0
  epoch := 0
  view := 0
  payloadHash := zeroChunk
  executionRequestHash := zeroChunk
  checkpointHash := Crypto.sha256 checkpoint.data
  prevEpochHeaderHash := zeroChunk
  addedValidators := []
  removedValidators := []
  parentBeaconBlockRoot := zeroChunk
  cached := none

/-- The header with a certificate for its digest. -/
def certifiedHeader (checkpoint : Checkpoint) : FinalizedHeader where
  header := terminalHeader checkpoint
  finalization :=
    { epoch := 0
      view := 0
      parentView := 0
      payload := (terminalHeader checkpoint).computedDigest
      certificate := [] }

/-- The validator under the zero key. -/
def loneValidator : Validator where
  nodePublicKey := zeroKey
  consensusPublicKey := stakedAccount.consensusPublicKey
  withdrawalCredentials := FixedBytes.zero 20

/-- A genesis file that lists the validator. -/
def loneGenesis : VerifierGenesis where
  ethGenesisHash := ""
  genesisHash := some zeroChunk
  validators := .ok [loneValidator]
  configDigest := zeroChunk

def loneParticipants : List Peer := genesisParticipants [loneValidator]

/-- Every certificate verifies. -/
def acceptingScheme : CertificateScheme where
  verify _ _ _ := true

theorem checkpoint_committee_iff_lone :
    verifyCheckpointChainWithWeakSubjectivity acceptingScheme loneGenesis
      [certifiedHeader (penultimateCheckpoint .active .inactive)]
      (penultimateCheckpoint .active .inactive) none = .ok () ∧
    ∃ sets state,
      walkHeaders acceptingScheme (chainDomain loneGenesis.configDigest) 0 zeroChunk
        (loneParticipants, loneParticipants)
        [certifiedHeader (penultimateCheckpoint .active .inactive)] = .ok sets ∧
      ConsensusState.tryFrom (penultimateCheckpoint .active .inactive) = .ok state ∧
      state.SignsAs sets.1 ∧ state.BecomesAs sets.2 := by
  have accepted : verifyCheckpointChainWithWeakSubjectivity acceptingScheme loneGenesis
      [certifiedHeader (penultimateCheckpoint .active .inactive)]
      (penultimateCheckpoint .active .inactive) none = .ok () :=
    Checks.eq_ok_of_toOption (by decide +kernel)
  obtain ⟨last, validators, sets, state, genesisHash, -, listed, given, walk, decoded, iff_⟩ :=
    checkpoint_committee_iff accepted
  obtain rfl := Except.ok.inj listed
  obtain rfl := Option.some.inj given
  have computed : (ConsensusState.tryFrom (penultimateCheckpoint .active .inactive)).toOption.map
        (fun state => state.validatorAccounts.entries.all fun entry =>
          entry.2.status ≠ .submittedExitRequest) = some true := by
    decide +kernel
  rw [decoded] at computed
  have none_ := Option.some.inj computed
  have covered : state.ExitsCovered sets.1 last.header := by
    intro pubkey account found submitted
    have other := List.all_eq_true.mp none_ _ (SortedMap.find?_eq_some_iff.mp found)
    exact absurd submitted (of_decide_eq_true other)
  exact ⟨accepted, sets, state, walk, decoded, iff_.mpr covered⟩

/-- The checkpoint of a state whose two accounts have both submitted an exit. -/
def exitingCheckpoint : Checkpoint :=
  penultimateCheckpoint .submittedExitRequest .submittedExitRequest

/-- **Exits outside the signing set are accepted.** Both accounts have submitted an exit, only the
first one is in the signing set, and the header removes nobody: the state has one signer more than
the signing set, and after the transition one active validator less than the participants. -/
theorem verifier_accepts_uncovered_exits :
    verifyCheckpointChainWithWeakSubjectivity acceptingScheme loneGenesis
      [certifiedHeader exitingCheckpoint] exitingCheckpoint none = .ok () ∧
    ∃ sets state,
      walkHeaders acceptingScheme (chainDomain loneGenesis.configDigest) 0 zeroChunk
        (loneParticipants, loneParticipants) [certifiedHeader exitingCheckpoint] = .ok sets ∧
      ConsensusState.tryFrom exitingCheckpoint = .ok state ∧
      sets.1.length = 1 ∧ (state.getCurrentEpochValidators.map List.length) = some 2 ∧
      sets.2.length = 1 ∧
      ((state.applyCommitteeTransition ⟨zeroChunk, rfl⟩).bind fun result =>
        result.1.getActiveValidators.map List.length) = some 0 := by
  have accepted : verifyCheckpointChainWithWeakSubjectivity acceptingScheme loneGenesis
      [certifiedHeader exitingCheckpoint] exitingCheckpoint none = .ok () :=
    Checks.eq_ok_of_toOption (by decide +kernel)
  have walked : (walkHeaders acceptingScheme (chainDomain loneGenesis.configDigest) 0 zeroChunk
        (loneParticipants, loneParticipants) [certifiedHeader exitingCheckpoint]).toOption.map
        (fun sets => (sets.1.length, sets.2.length)) = some (1, 1) := by
    decide +kernel
  have decoded : (ConsensusState.tryFrom exitingCheckpoint).toOption.map
        (fun state => (state.getCurrentEpochValidators.map List.length,
          (state.applyCommitteeTransition ⟨zeroChunk, rfl⟩).bind fun result =>
            result.1.getActiveValidators.map List.length)) = some (some 2, some 0) := by
    decide +kernel
  obtain ⟨sets, walk, lengths⟩ := Option.map_eq_some_iff.mp walked
  obtain ⟨state, read, facts⟩ := Option.map_eq_some_iff.mp decoded
  obtain ⟨signing, participants⟩ := by simpa only [Prod.mk.injEq] using lengths
  obtain ⟨signers, active⟩ := by simpa only [Prod.mk.injEq] using facts
  exact ⟨accepted, sets, state, Checks.eq_ok_of_toOption walk, Checks.eq_ok_of_toOption read, signing,
    signers, participants, active⟩

end Summit
