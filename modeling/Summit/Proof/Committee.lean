/-
**The committee and the headers.**

Within an epoch the signers and their keys do not change (`KeyStep.signerKey`). At the boundary a
signer stays active unless it is removed, and nobody else becomes active but the scheduled
validators, each with the consensus key of its account (`Scheduled`). So the active validators of
the next epoch are the signers and the added ones without the removed, and folding the headers over
the genesis validators gives the signing set of every epoch (`committee_of_headers`).
-/

import Summit.Model.Checkpoint
import Summit.Proof.Floor

set_option linter.unusedSectionVars false

namespace Summit

section Committee

variable [Crypto]

/-! ### The lists of validators -/

/-- The consensus key of an account whose status satisfies `p`. -/
def ValidatorAccount.keyIf (p : ValidatorStatus → Bool) (account : ValidatorAccount) :
    Option BlsPublicKey :=
  if p account.status then some account.consensusPublicKey else none

variable {peers : List Peer} {data data' : StateData} {p : ValidatorStatus → Bool}
  {pubkey : Bytes32} {account : ValidatorAccount} {warmUp delay minStake epoch n : Nat}
  {view view' : KeyView} {phase phase' : Phase} {validator : AddedValidator}

theorem mem_sortPeers {peer : Peer} : peer ∈ sortPeers peers ↔ peer ∈ peers :=
  List.mem_insertionSort _

/-- The keys of the accounts that satisfy `p`, read off the map of these keys. -/
theorem mapM_keyIf (p : ValidatorStatus → Bool) (entries : List (Bytes32 × ValidatorAccount)) :
    ((entries.filter fun entry => p entry.2.status).mapM fun entry =>
        (PublicKey.decode entry.1).map fun key => (key, entry.2.consensusPublicKey)) =
      (entries.filterMap fun entry => (entry.2.keyIf p).map (entry.1, ·)).mapM fun entry =>
        (PublicKey.decode entry.1).map fun key => (key, entry.2) := by
  induction entries with
  | nil => rfl
  | cons entry rest ih =>
    cases holds : p entry.2.status with
    | true =>
      have kept : (entry.2.keyIf p).map (entry.1, ·) =
          some (entry.1, entry.2.consensusPublicKey) := by
        rw [ValidatorAccount.keyIf, holds]
        rfl
      rw [List.filter_cons, if_pos holds, List.filterMap_cons, kept, List.mapM_cons,
        List.mapM_cons, ih]
    | false =>
      have dropped : (entry.2.keyIf p).map (entry.1, ·) = none := by
        rw [ValidatorAccount.keyIf, holds]
        rfl
      rw [List.filter_cons, if_neg (by rw [holds]; nofun), List.filterMap_cons, dropped, ih]

/-- The list depends on the keys of the statuses asked for only. -/
theorem validatorsWith_congr {p' : ValidatorStatus → Bool}
    (same : ∀ pubkey, (data'.getAccount pubkey).bind (ValidatorAccount.keyIf p') =
      (data.getAccount pubkey).bind (ValidatorAccount.keyIf p)) :
    data'.validatorsWith p' = data.validatorsWith p := by
  have maps : data'.validatorAccounts.filterMap (ValidatorAccount.keyIf p') =
      data.validatorAccounts.filterMap (ValidatorAccount.keyIf p) := by
    refine SortedMap.ext_find? fun pubkey => ?_
    rw [SortedMap.find?_filterMap, SortedMap.find?_filterMap]
    exact same pubkey
  have entries : data'.validatorAccounts.entries.filterMap
        (fun entry => (entry.2.keyIf p').map (entry.1, ·)) =
      data.validatorAccounts.entries.filterMap
        (fun entry => (entry.2.keyIf p).map (entry.1, ·)) := congrArg SortedMap.entries maps
  rw [StateData.validatorsWith, StateData.validatorsWith, mapM_keyIf, mapM_keyIf, entries]

theorem mem_validatorsWith (result : data.validatorsWith p = some peers) (node : PublicKey)
    (bls : BlsPublicKey) :
    (node, bls) ∈ peers ↔ ∃ account, data.getAccount node.val = some account ∧
      p account.status = true ∧ account.consensusPublicKey = bls := by
  obtain ⟨unsorted, mapped, rfl⟩ := Option.map_eq_some_iff.mp result
  rw [mem_sortPeers, Run.mem_of_mapM mapped]
  constructor
  · rintro ⟨⟨pubkey, account⟩, member, given⟩
    obtain ⟨listed, holds⟩ := List.mem_filter.mp member
    obtain ⟨key, decoded, same⟩ := Option.map_eq_some_iff.mp given
    obtain ⟨rfl, rfl⟩ := Prod.mk.inj same
    obtain rfl := PublicKey.decode_eq_some decoded
    exact ⟨account, SortedMap.find?_eq_some_iff.mpr listed, holds, rfl⟩
  · rintro ⟨account, found, holds, rfl⟩
    refine ⟨(node.val, account), List.mem_filter.mpr ⟨?_, holds⟩, ?_⟩
    · exact SortedMap.find?_eq_some_iff.mp found
    · rw [PublicKey.decode_val]
      rfl

/-- The list is sorted and has every node key once. -/
theorem exists_unsorted (result : data.validatorsWith p = some peers) :
    ∃ unsorted, peers = sortPeers unsorted ∧ (unsorted.map Prod.fst).Nodup := by
  obtain ⟨unsorted, mapped, rfl⟩ := Option.map_eq_some_iff.mp result
  refine ⟨unsorted, rfl, ?_⟩
  have keys : unsorted.map (fun peer => peer.1.val) =
      (data.validatorAccounts.entries.filter fun entry => p entry.2.status).map Prod.fst := by
    refine Run.map_of_mapM (fun entry peer given => ?_) mapped
    obtain ⟨key, decoded, rfl⟩ := Option.map_eq_some_iff.mp given
    exact PublicKey.decode_eq_some decoded
  have nodup : (unsorted.map fun peer => peer.1.val).Nodup := by
    rw [keys]
    exact data.validatorAccounts.nodup_keys.sublist (List.filter_sublist.map _)
  refine List.Nodup.of_map (fun key : PublicKey => key.val) ?_
  rwa [List.map_map]

/-- Peers with one node key each are sorted one way. -/
theorem sortPeers_eq {others : List Peer} (nodup : (peers.map Prod.fst).Nodup)
    (nodup' : (others.map Prod.fst).Nodup) (same : ∀ peer, peer ∈ peers ↔ peer ∈ others) :
    sortPeers peers = sortPeers others := by
  have total : Std.Total fun lhs rhs : Peer => lhs.1.val ≤ rhs.1.val :=
    ⟨fun lhs rhs => le_total lhs.1.val rhs.1.val⟩
  have trans : IsTrans Peer fun lhs rhs => lhs.1.val ≤ rhs.1.val :=
    ⟨fun _ _ _ low high => le_trans low high⟩
  have perm : peers.Perm others :=
    (List.perm_ext_iff_of_nodup (List.Nodup.of_map _ nodup) (List.Nodup.of_map _ nodup')).mpr same
  refine List.Perm.eq_of_pairwise (fun peer other member member' low high => ?_)
    (List.pairwise_insertionSort _ peers) (List.pairwise_insertionSort _ others) ?_
  · have here := mem_sortPeers.mp member
    have there := (same other).mpr (mem_sortPeers.mp member')
    exact List.inj_on_of_nodup_map nodup here there (Subtype.ext (le_antisymm low high))
  · exact (List.perm_insertionSort _ peers).trans
      (perm.trans (List.perm_insertionSort _ others).symm)

theorem decodes_of_validatorsWith (result : data.validatorsWith p = some peers)
    (found : data.getAccount pubkey = some account) (holds : p account.status = true) :
    ∃ node : PublicKey, node.val = pubkey := by
  obtain ⟨unsorted, mapped, -⟩ := Option.map_eq_some_iff.mp result
  have listed : (pubkey, account) ∈
      data.validatorAccounts.entries.filter fun entry => p entry.2.status :=
    List.mem_filter.mpr ⟨SortedMap.find?_eq_some_iff.mp found, holds⟩
  have decodes := Run.isSome_of_mapM mapped listed
  rw [Option.isSome_map] at decodes
  obtain ⟨node, decoded⟩ := Option.isSome_iff_exists.mp decodes
  exact ⟨node, PublicKey.decode_eq_some decoded⟩

theorem exists_validatorsWith (data : StateData) (p : ValidatorStatus → Bool)
    (each : ∀ pubkey account, data.getAccount pubkey = some account → p account.status = true →
      (PublicKey.decode pubkey).isSome = true) : ∃ peers, data.validatorsWith p = some peers := by
  have decodes : ∀ entry ∈ data.validatorAccounts.entries.filter fun entry => p entry.2.status,
      ((PublicKey.decode entry.1).map fun key => (key, entry.2.consensusPublicKey)).isSome =
        true := by
    intro entry member
    obtain ⟨listed, holds⟩ := List.mem_filter.mp member
    rw [Option.isSome_map]
    exact each entry.1 entry.2 (SortedMap.find?_eq_some_iff.mpr listed) holds
  obtain ⟨peers, mapped⟩ := Run.exists_mapM decodes
  exact ⟨sortPeers peers, by rw [StateData.validatorsWith, mapped]; rfl⟩

/-- Every account is under a node key. -/
def StateData.Keyed (data : StateData) : Prop :=
  ∀ pubkey account, data.getAccount pubkey = some account →
    (PublicKey.decode pubkey).isSome = true

theorem StateData.Keyed.validatorsWith (keyed : data.Keyed) (p : ValidatorStatus → Bool) :
    ∃ peers, data.validatorsWith p = some peers :=
  exists_validatorsWith data p fun pubkey account found _ => keyed pubkey account found

/-! ### The keys of one account -/

theorem KeyMove.keyed (move : KeyMove warmUp delay pubkey view view')
    (keyed : view.account.isSome = true → (PublicKey.decode pubkey).isSome = true) :
    (PublicKey.decode pubkey).isSome = true := by
  have decodes {account : ValidatorAccount} (found : view.account = some account) :
      (PublicKey.decode pubkey).isSome = true := keyed (by rw [found]; rfl)
  cases move with
  | credit request account mine credits | join request account mine =>
    rw [← mine, PublicKey.decode_val]
    rfl
  | exit account entry found | retire account entry found | withdraw account entry found =>
    exact decodes found
  | cancel account found => exact decodes found

/-- An account that there is before and after has the same consensus key. -/
def KeyView.SameKey (view view' : KeyView) : Prop :=
  ∀ account, view.account = some account → ∃ account', view'.account = some account' ∧
    account'.consensusPublicKey = account.consensusPublicKey

theorem KeyView.SameKey.trans {first second third : KeyView} (left : first.SameKey second)
    (right : second.SameKey third) : first.SameKey third := by
  intro account found
  obtain ⟨mid, there, key⟩ := left account found
  obtain ⟨after, here, key'⟩ := right mid there
  exact ⟨after, here, key'.trans key⟩

theorem KeyMove.sameKey (move : KeyMove warmUp delay pubkey view view') : view.SameKey view' := by
  intro account found
  cases move with
  | credit request other mine credits | join request other mine credits =>
    rcases credits with here | ⟨absent, -⟩
    · obtain rfl := Option.some.inj (found.symm.trans here)
      exact ⟨_, rfl, rfl⟩
    · rw [found] at absent
      cases absent
  | exit other entry here | retire other entry here =>
    obtain rfl := Option.some.inj (found.symm.trans here)
    exact ⟨_, rfl, rfl⟩
  | cancel other here =>
    obtain rfl := Option.some.inj (found.symm.trans here)
    exact ⟨_, rfl, rfl⟩
  | withdraw => exact ⟨account, found, rfl⟩

theorem KeyRemoval.sameKey (removal : KeyRemoval minStake view view') : view.SameKey view' := by
  intro account found
  cases removal with
  | cancel other here =>
    obtain rfl := Option.some.inj (found.symm.trans here)
    exact ⟨_, rfl, rfl⟩
  | stage => exact ⟨account, found, rfl⟩

/-- The consensus key of a signer. -/
def KeyView.signerKey (view : KeyView) : Option BlsPublicKey :=
  view.account.bind (ValidatorAccount.keyIf ValidatorStatus.isCurrentEpochSigner)

theorem signerKey_of_some (found : view.account = some account) :
    view.signerKey = account.keyIf ValidatorStatus.isCurrentEpochSigner := by
  rw [KeyView.signerKey, found]
  rfl

theorem signerKey_of_bystander (found : view.account = some account)
    (bystander : account.status.isCurrentEpochSigner = false) : view.signerKey = none := by
  rw [signerKey_of_some found, ValidatorAccount.keyIf, bystander]
  rfl

theorem KeyMove.signerKey (move : KeyMove warmUp delay pubkey view view') :
    view'.signerKey = view.signerKey := by
  cases move with
  | credit request account mine credits =>
    rcases credits with here | ⟨absent, inactive, -⟩
    · rw [signerKey_of_some here]
      rfl
    · have before : view.signerKey = none := by
        rw [KeyView.signerKey, absent]
        rfl
      rw [before]
      refine signerKey_of_bystander rfl ?_
      rw [ValidatorAccount.credit, inactive]
      rfl
  | join request account mine credits inactive =>
    have after : ({ view with
        account := some ((account.credit request).joinAt (view.epoch + warmUp))
        slots := fun epoch => view.slots epoch + if epoch = view.epoch + warmUp then 1 else 0 } :
          KeyView).signerKey = none := signerKey_of_bystander rfl rfl
    rw [after]
    rcases credits with here | ⟨absent, -⟩
    · exact (signerKey_of_bystander here (by rw [inactive]; rfl)).symm
    · rw [KeyView.signerKey, absent]
      rfl
  | exit account entry found active =>
    rw [signerKey_of_some found, ValidatorAccount.keyIf, active]
    rfl
  | cancel account found joining =>
    rw [signerKey_of_bystander found (by rw [joining]; rfl)]
    rfl
  | retire account entry found inactive =>
    rw [signerKey_of_bystander found (by rw [inactive]; rfl)]
    rfl
  | withdraw => rfl

theorem KeyRemoval.signerKey (removal : KeyRemoval minStake view view') :
    view'.signerKey = view.signerKey := by
  cases removal with
  | cancel account found joining =>
    rw [signerKey_of_bystander found (by rw [joining]; rfl)]
    rfl
  | stage => rfl

theorem signerKey_pay (late : 1 ≤ delay) {due entries : List PendingWithdrawal}
    (backed : view.Backed delay)
    (member : ∀ entry ∈ due, entry.kind = .validator → entry.pubkey = pubkey →
      entry ∈ view.entries ∧ entry.epoch ≤ view.epoch) (floor : 0 < view.prospectiveStake) :
    (view.pay pubkey due entries).signerKey = view.signerKey := by
  cases found : view.account with
  | none => rw [KeyView.signerKey, account_pay_of_none found, KeyView.signerKey, found]
  | some account =>
    cases signs : account.status.isCurrentEpochSigner with
    | true =>
      have kept := paid_of_signer backed found signs (Or.inr late) member floor
      rw [signerKey_of_some found, signerKey_of_some ((account_pay_of_some found).trans kept)]
      rfl
    | false =>
      rw [signerKey_of_bystander found signs, KeyView.signerKey, account_pay_of_some found]
      rcases paid_cases account with gone | ⟨balance, kept⟩
      · rw [gone]
        rfl
      · rw [kept, Option.bind_some, ValidatorAccount.keyIf, signs]
        rfl

/-- **Within an epoch the signers stay**, with their keys. -/
theorem KeyStep.signerKey (late : 1 ≤ delay)
    (step : KeyStep warmUp delay pubkey view phase phase' view') (backed : view.Backed delay)
    (floor : phase = .staged → phase' = .paid → 0 < view.prospectiveStake)
    (within : phase = .paid → phase' ≠ .collecting) : view'.signerKey = view.signerKey := by
  cases step with
  | touch => rfl
  | process stake bounded moves =>
    clear floor within
    induction moves with
    | refl => rfl
    | tail _ last ih => exact last.signerKey.trans ih
  | retain => rfl
  | remove removals settled =>
    clear settled floor within
    induction removals with
    | refl => rfl
    | tail _ last ih => exact last.signerKey.trans ih
  | pay due entries member rest => exact signerKey_pay late backed member (floor rfl rfl)
  | cross => exact absurd rfl (within rfl)

/-! ### The schedule -/

/-- Whoever is scheduled ahead has an account with the scheduled consensus key. -/
def StateData.Scheduled (data : StateData) : Prop :=
  ∀ epoch, data.epoch < epoch → ∀ validator ∈ data.scheduled epoch,
    ∃ account, data.getAccount validator.nodeKey.val = some account ∧
      account.consensusPublicKey = validator.consensusKey

theorem mem_scheduled_of_withoutAddedValidator {key : PublicKey} {other : Nat}
    (member : validator ∈
      (((LiveState.withoutAddedValidator data.addedValidators epoch key).getD
        data.addedValidators).find? other).getD []) : validator ∈ data.scheduled other := by
  unfold LiveState.withoutAddedValidator at member
  split at member
  · exact member
  next scheduled found =>
  dsimp only at member
  split at member
  · split at member
    · rw [Option.getD_some, SortedMap.find?_erase] at member
      split at member
      · cases member
      · exact member
    · rw [Option.getD_some, SortedMap.find?_insert] at member
      split at member
      · next same =>
        subst same
        rw [StateData.scheduled, found]
        exact List.mem_of_mem_eraseP member
      · exact member
  · exact member

theorem mem_scheduled_of_unscheduled
    (member : validator ∈ ((data.unscheduled pubkey account).find? epoch).getD []) :
    validator ∈ data.scheduled epoch := by
  unfold StateData.unscheduled at member
  split at member
  · split at member
    · exact mem_scheduled_of_withoutAddedValidator member
    · exact member
  · exact member

/-- A change schedules a validator with the key of its account only. -/
theorem Change.scheduled (change : Change warmUp delay data n data')
    (member : validator ∈ data'.scheduled epoch) :
    validator ∈ data.scheduled epoch ∨
      ∃ account, data'.getAccount validator.nodeKey.val = some account ∧
        account.consensusPublicKey = validator.consensusKey := by
  cases change with
  | refund | credit | exit | retire | withdraw => exact Or.inl member
  | join request account credits =>
    rw [StateData.scheduled, SortedMap.find?_insert] at member
    split at member
    · next same =>
      subst same
      rcases List.mem_append.mp member with old | new
      · exact Or.inl old
      · obtain rfl := List.mem_singleton.mp new
        exact Or.inr ⟨_, SortedMap.find?_insert_self _ _ _, rfl⟩
    · exact Or.inl member
  | cancel => exact Or.inl (mem_scheduled_of_unscheduled member)

theorem Removal.scheduled (removal : Removal minStake data n data')
    (member : validator ∈ data'.scheduled epoch) : validator ∈ data.scheduled epoch := by
  cases removal with
  | cancel => exact mem_scheduled_of_unscheduled member
  | stage => exact member

/-- Whoever was scheduled with the key of its account still is, if accounts keep their keys. -/
theorem StateData.Scheduled.mono (scheduled : data.Scheduled) (epoch : data'.epoch = data.epoch)
    (part : ∀ {epoch validator}, validator ∈ data'.scheduled epoch →
      validator ∈ data.scheduled epoch ∨
        ∃ account, data'.getAccount validator.nodeKey.val = some account ∧
          account.consensusPublicKey = validator.consensusKey)
    (same : ∀ pubkey, (data.keyView pubkey).SameKey (data'.keyView pubkey)) : data'.Scheduled := by
  intro other ahead validator member
  rcases part member with old | new
  · obtain ⟨account, found, key⟩ := scheduled other (epoch ▸ ahead) validator old
    obtain ⟨account', found', kept⟩ := same validator.nodeKey.val account found
    exact ⟨account', found', kept.trans key⟩
  · exact new

theorem Change.sameKey (change : Change warmUp delay data n data') (pubkey : Bytes32) :
    (data.keyView pubkey).SameKey (data'.keyView pubkey) := by
  have moves := change.keyMoves pubkey
  generalize data'.keyView pubkey = view' at moves
  induction moves with
  | refl => exact fun account found => ⟨account, found, rfl⟩
  | tail _ last ih => exact ih.trans last.sameKey

theorem Removal.sameKey (removal : Removal minStake data n data') (pubkey : Bytes32) :
    (data.keyView pubkey).SameKey (data'.keyView pubkey) := by
  have removals := Removals.keyRemovals (.single removal) pubkey
  generalize data'.keyView pubkey = view' at removals
  induction removals with
  | refl => exact fun account found => ⟨account, found, rfl⟩
  | tail _ last ih => exact ih.trans last.sameKey

theorem Moves.keeps_scheduled (moves : Moves warmUp delay data n data') (scheduled : data.Scheduled) :
    data'.Scheduled := by
  refine moves.invariant (fun before m after move held => ?_) scheduled
  cases move with
  | change change => exact held.mono change.settings.1.epoch change.scheduled change.sameKey
  | deposits queue => exact held

theorem Removals.keeps_scheduled (removals : Removals minStake data n data')
    (scheduled : data.Scheduled) : data'.Scheduled := by
  refine removals.invariant (fun before m after removal held => ?_) scheduled
  exact held.mono (Removals.settings (.single removal)).1.epoch
    (fun member => Or.inl (removal.scheduled member)) removal.sameKey

/-- Whoever is scheduled ahead is joining. -/
theorem joining_of_scheduled (orderly : (data.keyView validator.nodeKey.val).Orderly)
    (ahead : data.epoch < epoch) (member : validator ∈ data.scheduled epoch) :
    ∃ account, data.getAccount validator.nodeKey.val = some account ∧
      account.status = .joining ∧ account.joiningEpoch = epoch := by
  have taken := (slots_pos_iff validator.nodeKey.val epoch).mpr ⟨validator, member, rfl⟩
  rw [orderly.scheduled epoch ahead] at taken
  cases found : (data.keyView validator.nodeKey.val).account with
  | none => simp [KeyView.joins, found] at taken
  | some account =>
    rw [KeyView.joins_of_some found] at taken
    split at taken
    · next joins => exact ⟨account, found, joins⟩
    · cases taken

/-- **A step keeps the schedule in line with the accounts.** -/
theorem EpochStep.keeps_scheduled (step : EpochStep warmUp delay data phase phase' data')
    (life : ∀ pubkey, Lifecycle phase (data.keyView pubkey)) (scheduled : data.Scheduled) :
    data'.Scheduled := by
  cases step with
  | touch phase same =>
    rw [same]
    exact scheduled
  | process accepted moves => exact moves.keeps_scheduled scheduled
  | keep | drop => exact scheduled
  | remove _ removals => exact removals.keeps_scheduled scheduled
  | pay due front frontRefunds paid =>
    intro epoch ahead validator member
    have data_ := paid.data
    have ahead : data.epoch < epoch := by
      rw [data_] at ahead
      exact ahead
    have member : validator ∈ data.scheduled epoch := by
      rw [data_] at member
      exact member
    -- a joining account is not paid out of
    have orderly := (life validator.nodeKey.val).orderly
    obtain ⟨account, found, joining, -⟩ := joining_of_scheduled orderly ahead member
    have step : KeyStep warmUp delay _ _ _ _ _ :=
      keyStep_pay validator.nodeKey.val due front frontRefunds paid
    obtain ⟨account', found', key⟩ := scheduled epoch ahead validator member
    obtain rfl := Option.some.inj (found.symm.trans found')
    refine ⟨account, ?_, key⟩
    have after : (data'.keyView validator.nodeKey.val).account = some account := by
      generalize data'.keyView validator.nodeKey.val = view' at step
      cases step with
      | pay due entries member rest =>
        rw [account_pay_of_some found]
        exact paid_of_joining orderly found joining member
    exact after
  | cross crosses =>
    intro epoch ahead validator member
    rw [crosses.epoch] at ahead
    rw [StateData.scheduled, crosses.added, SortedMap.find?_erase, if_neg (by omega)] at member
    obtain ⟨account, found, key⟩ := scheduled epoch (by omega) validator member
    obtain ⟨status, found', -⟩ := crosses.accounts.of_some found
    exact ⟨_, found', key⟩

/-! ### The boundary -/

section Boundary

variable {data data' : StateData} (life : ∀ pubkey, Lifecycle .paid (data.keyView pubkey))
  (scheduled : data.Scheduled) (crosses : Crosses data data')

/-- Whoever is scheduled is scheduled once. -/
theorem nodup_scheduled {phase : Phase} (life : ∀ pubkey, Lifecycle phase (data.keyView pubkey))
    {epoch : Nat} (ahead : data.epoch < epoch) :
    ((data.scheduled epoch).map fun validator => validator.nodeKey).Nodup := by
  refine List.nodup_iff_count_le_one.mpr fun key => ?_
  have slots := (life key.val).orderly.scheduled epoch ahead
  have count : ((data.scheduled epoch).map fun validator => validator.nodeKey).count key =
      (data.keyView key.val).slots epoch := by
    rw [List.count_eq_countP, List.countP_map]
    refine List.countP_congr fun validator _ => ?_
    simp only [Function.comp_apply, beq_iff_eq, decide_eq_true_eq]
    exact Subtype.ext_iff
  rw [count, slots, KeyView.joins]
  split <;> omega

include life scheduled crosses

theorem Crosses.active_iff (node : PublicKey) (bls : BlsPublicKey) :
    (∃ account, data'.getAccount node.val = some account ∧ account.status = .active ∧
      account.consensusPublicKey = bls) ↔
    ((∃ account, data.getAccount node.val = some account ∧
        account.status.isCurrentEpochSigner = true ∧ account.consensusPublicKey = bls) ∨
      ⟨node, bls⟩ ∈ data.scheduled (data.epoch + 1)) ∧ node ∉ data.removedValidators := by
  have orderly := (life node.val).orderly
  have leaving := (life node.val).leaving
  have now := Nat.lt_succ_self data.epoch
  have gone : node ∉ data.removedValidators ↔ (data.keyView node.val).departures = 0 := by
    rw [← Nat.le_zero, ← Nat.not_lt, departures_pos_iff]
    exact ⟨fun absent ⟨key, member, same⟩ => absent (Subtype.ext same ▸ member),
      fun none_ member => none_ ⟨node, member, rfl⟩⟩
  rw [gone]
  constructor
  · rintro ⟨account', found', active, rfl⟩
    obtain ⟨account, found, same, rule⟩ := crosses.accounts.of_some_after found'
    have key : account'.consensusPublicKey = account.consensusPublicKey := by rw [same]; rfl
    rw [key]
    have passes := passes_of_transition node.val rule
    rcases cross_cases orderly leaving found passes with
      ⟨-, out⟩ | ⟨joining, joins, -⟩ | ⟨kept, -, stays, -⟩
    · rw [active] at out
      cases out
    · have slots := (orderly.scheduled (data.epoch + 1) now).trans
        (KeyView.joins_of_some found (data.epoch + 1))
      rw [if_pos ⟨joining, joins⟩] at slots
      obtain ⟨validator, member, mine⟩ :=
        (slots_pos_iff node.val (data.epoch + 1)).mp (by rw [slots]; exact Nat.one_pos)
      obtain rfl := Subtype.ext mine
      obtain ⟨other, here, bls⟩ := scheduled _ now validator member
      obtain rfl := Option.some.inj (found.symm.trans here)
      refine ⟨Or.inr (bls ▸ member), ?_⟩
      by_contra leaves
      have signs := leaving.2.2 (Nat.pos_of_ne_zero leaves)
      rw [KeyView.status_of_some found, joining] at signs
      cases signs
    · refine ⟨Or.inl ⟨account, found, ?_, rfl⟩, stays⟩
      rw [← kept, active]
      rfl
  · rintro ⟨member, stays⟩
    -- whoever signs or is scheduled has an account, and is active after the boundary
    have becomes (account : ValidatorAccount) (found : data.getAccount node.val = some account)
        (seated : account.status.isCurrentEpochSigner = true ∨
          0 < (data.keyView node.val).slots (data.epoch + 1)) :
        data'.getAccount node.val = some (account.withStatus .active) := by
      obtain ⟨status, found', rule⟩ := crosses.accounts.of_some found
      have passes := passes_of_transition node.val rule
      have active : status = .active := by
        by_cases added : 0 < (data.keyView node.val).slots (data.epoch + 1)
        · exact passes.activated stays added
        · have signs := seated.resolve_right added
          rw [passes.kept stays (Nat.eq_zero_of_not_pos added)]
          cases kind : account.status with
          | active => rfl
          | submittedExitRequest =>
            have once := leaving.2.1 (by rw [KeyView.status_of_some found, kind])
            omega
          | _ =>
            rw [kind] at signs
            cases signs
      rw [← active]
      exact found'
    rcases member with ⟨account, found, signs, key⟩ | member
    · exact ⟨_, becomes account found (Or.inl signs), rfl, key⟩
    · obtain ⟨account, found, key⟩ := scheduled _ now _ member
      have added := (slots_pos_iff node.val (data.epoch + 1)).mpr ⟨_, member, rfl⟩
      exact ⟨_, becomes account found (Or.inr added), rfl, key⟩

/-- **The committee of the next epoch** is what the verifier makes of the changes. -/
theorem Crosses.nextParticipants (keyed' : data'.Keyed) {current : List Peer}
    (result : data.getCurrentEpochValidators = some current) :
    data'.getActiveValidators = some (nextParticipants current (data.scheduled (data.epoch + 1))
      data.removedValidators) := by
  obtain ⟨active, result'⟩ := keyed'.validatorsWith fun status => status = .active
  rw [StateData.getActiveValidators, result']
  have members := mem_validatorsWith result'
  have signers := mem_validatorsWith result
  obtain ⟨unsorted, rfl, nodup⟩ := exists_unsorted result'
  obtain ⟨signing, rfl, nodup'⟩ := exists_unsorted result
  rw [Summit.nextParticipants]
  refine congrArg some (sortPeers_eq nodup ?_ ?_)
  · -- no signer is scheduled
    refine List.Nodup.sublist (List.filter_sublist.map _) ?_
    rw [List.map_append, List.map_map]
    refine List.nodup_append.mpr ⟨?_, nodup_scheduled life (Nat.lt_succ_self _), ?_⟩
    · exact ((List.perm_insertionSort _ signing).map _).nodup_iff.mpr nodup'
    · rintro node member other added rfl
      obtain ⟨⟨key, bls⟩, listed, rfl⟩ := List.mem_map.mp member
      obtain ⟨validator, member', rfl⟩ := List.mem_map.mp added
      obtain ⟨account, found, signs, -⟩ := (signers _ bls).mp listed
      obtain ⟨account', found', joining, -⟩ := joining_of_scheduled
        (life validator.nodeKey.val).orderly (Nat.lt_succ_self _) member'
      obtain rfl := Option.some.inj (found.symm.trans found')
      rw [joining] at signs
      cases signs
  · rintro ⟨node, bls⟩
    rw [← mem_sortPeers, members]
    simp only [decide_eq_true_eq]
    rw [Crosses.active_iff life scheduled crosses, List.mem_filter, List.mem_append, signers,
      decide_eq_true_eq]
    refine and_congr_left fun _ => or_congr_right ?_
    rw [List.mem_map]
    constructor
    · exact fun member => ⟨_, member, rfl⟩
    · rintro ⟨validator, member, same⟩
      obtain ⟨rfl, rfl⟩ := Prod.mk.inj same
      exact member

end Boundary

/-! ### Runs -/

theorem KeyStep.keyed (step : KeyStep warmUp delay pubkey view phase phase' view')
    (keyed : view.account.isSome = true → (PublicKey.decode pubkey).isSome = true)
    (after : view'.account.isSome = true) : (PublicKey.decode pubkey).isSome = true := by
  cases step with
  | touch | retain => exact keyed after
  | process stake bounded moves =>
    clear bounded
    induction moves with
    | refl => exact keyed after
    | tail _ last ih => exact last.keyed ih
  | remove removals settled =>
    clear settled
    induction removals with
    | refl => exact keyed after
    | tail _ last ih =>
      cases last with
      | cancel account found => exact ih (by rw [found]; rfl)
      | stage account found => exact ih (by rw [found]; rfl)
  | pay =>
    refine keyed ?_
    cases found : view.account with
    | none =>
      rw [account_pay_of_none found] at after
      cases after
    | some account => rfl
  | cross =>
    refine keyed ?_
    rwa [KeyView.cross, Option.isSome_map] at after

section Runs

variable {warmUp delay : Nat} {guard : EpochState → EpochEvent → Prop} {start : LiveState}
  {reached : EpochState}

theorem keyed_of_reaches (genesis : start.AtGenesis) (keyed : start.Keyed)
    (reaches : EpochState.Reaches warmUp delay guard ⟨.collecting, start⟩ reached) :
    reached.live.Keyed := by
  refine reaches.invariant (P := fun _ data => data.Keyed)
    (fun _ _ step held pubkey account found => ?_) genesis.indexed keyed
  refine (keyStep_of_epochStep pubkey step).keyed (fun some_ => ?_) (Option.isSome_of_eq_some found)
  obtain ⟨before, here⟩ := Option.isSome_iff_exists.mp some_
  exact held pubkey before here

theorem scheduled_of_reaches (genesis : start.AtGenesis)
    (reaches : EpochState.Reaches warmUp delay guard ⟨.collecting, start⟩ reached) :
    reached.live.Scheduled := by
  have none_ : start.Scheduled := by
    intro epoch _ validator member
    rw [StateData.scheduled, genesis.added] at member
    cases member
  refine (reaches.invariant (P := fun phase data =>
      (∀ pubkey, Lifecycle phase (data.keyView pubkey)) ∧ data.Scheduled)
    (fun _ _ step both => ⟨fun pubkey => ?_, step.keeps_scheduled both.1 both.2⟩)
    genesis.indexed ⟨genesis.lifecycle, none_⟩).2
  exact (keyStep_of_epochStep pubkey step).lifecycle (both.1 pubkey)

/-- **A step within an epoch keeps the committee.** -/
theorem currentEpochValidators_of_step (late : 1 ≤ delay) (genesis : start.AtGenesis)
    (positive : 0 < start.validatorMinimumStake)
    (reaches : EpochState.Reaches warmUp delay PositiveStakes ⟨.collecting, start⟩ reached)
    {next : EpochState}
    (step : EpochStep warmUp delay reached.live.toStateData reached.phase next.phase
      next.live.toStateData) (same : next.live.epoch = reached.live.epoch) :
    next.live.getCurrentEpochValidators = reached.live.getCurrentEpochValidators := by
  obtain ⟨floorRun, positives⟩ := floored_of_positive genesis positive reaches
  refine validatorsWith_congr fun pubkey => ?_
  refine (keyStep_of_epochStep pubkey step).signerKey late (backed_of_reaches genesis floorRun pubkey)
    (fun _ _ => positives.2) fun paid collecting => ?_
  rcases step.epoch with ⟨-, into⟩ | ⟨crossed, -⟩
  · cases paid.symm.trans (into collecting)
  · omega

/-- The changes that the terminal header of the epoch carries, read from the state before it. -/
def LiveState.terminalChanges (s : LiveState) : List AddedValidator × List PublicKey :=
  ((s.getAddedValidators (s.epoch + 1)).getD [], s.getRemovedValidators)

/-- From the penultimate block to the boundary the changes stay as they are. -/
theorem terminalChanges_of_step {s s' : EpochState}
    (step : EpochStep warmUp delay s.live.toStateData s.phase s'.phase s'.live.toStateData)
    (fixed : s.phase = .staged ∨ s.phase = .paid) (within : s'.live.epoch = s.live.epoch) :
    (s'.phase = .staged ∨ s'.phase = .paid) ∧
      s'.live.terminalChanges = s.live.terminalChanges := by
  have same (added : s'.live.addedValidators = s.live.addedValidators)
      (removed : s'.live.removedValidators = s.live.removedValidators) :
      s'.live.terminalChanges = s.live.terminalChanges := by
    rw [LiveState.terminalChanges, LiveState.terminalChanges, StateData.getAddedValidators,
      StateData.getAddedValidators, StateData.getRemovedValidators, StateData.getRemovedValidators,
      within, added, removed]
  obtain ⟨phase, live⟩ := s
  obtain ⟨phase', live'⟩ := s'
  generalize data : live'.toStateData = data' at step
  cases step with
  | touch phase touched =>
    refine ⟨fixed, same ?_ ?_⟩
    all_goals
      rw [data, touched]
  | pay due front frontRefunds paid =>
    have paid := paid.data
    refine ⟨Or.inr rfl, same ?_ ?_⟩
    all_goals
      rw [data, paid]
  | cross crosses =>
    have next := crosses.epoch
    rw [data] at within
    omega
  | process | keep | drop | remove => rcases fixed with early | early <;> cases early

/-- After a boundary everybody who signs is active. -/
theorem activeValidators_of_collecting {data : StateData}
    (life : ∀ pubkey, Lifecycle .collecting (data.keyView pubkey)) :
    data.getCurrentEpochValidators = data.getActiveValidators := by
  refine validatorsWith_congr fun pubkey => ?_
  cases found : data.getAccount pubkey with
  | none => rfl
  | some account =>
    have staying := (life pubkey).leaving.2
    have status : (data.keyView pubkey).status = some account.status := KeyView.status_of_some found
    rw [status] at staying
    rw [Option.bind_some, Option.bind_some, ValidatorAccount.keyIf, ValidatorAccount.keyIf]
    cases kind : account.status with
    | submittedExitRequest => exact absurd (congrArg some kind) staying
    | _ => rfl

/-! ### The headers of a run -/

/-- A run with the changes of its terminal headers. -/
structure HeaderRun where
  state : EpochState
  /-- The changes that the terminal header of the epoch is to carry. -/
  pending : List AddedValidator × List PublicKey
  /-- The changes of the terminal headers so far. -/
  headers : List (List AddedValidator × List PublicKey)

/-- The penultimate block fixes the changes, and the boundary comes with the terminal header. -/
def HeaderRun.step (warmUp delay : Nat) (run : HeaderRun) (event : EpochEvent) :
    Option HeaderRun :=
  (run.state.step warmUp delay event).map fun state =>
    match event with
    | .enforce => { run with state, pending := state.live.terminalChanges }
    | .boundary _ _ => { run with state, headers := run.headers ++ [run.pending] }
    | _ => { run with state }

def HeaderRun.ofGenesis (genesis : LiveState) : HeaderRun :=
  ⟨⟨.collecting, genesis⟩, ([], []), []⟩

def HeaderRun.Steps (warmUp delay : Nat) (guard : EpochState → EpochEvent → Prop)
    (run run' : HeaderRun) : Prop :=
  ∃ event, guard run.state event ∧ run.step warmUp delay event = some run'

abbrev HeaderRun.Reaches (warmUp delay : Nat) (guard : EpochState → EpochEvent → Prop) :
    HeaderRun → HeaderRun → Prop :=
  Relation.ReflTransGen (HeaderRun.Steps warmUp delay guard)

/-- The participants after the changes of a list of headers. -/
def foldHeaders (participants : List Peer) (headers : List (List AddedValidator × List PublicKey)) :
    List Peer :=
  headers.foldl (fun participants changes => nextParticipants participants changes.1 changes.2)
    participants

def Header.changes (header : Header) : List AddedValidator × List PublicKey :=
  (header.addedValidators, header.removedValidators)

/-- **The walk of the verifier** folds the changes. -/
theorem walkHeaders_fold {scheme : CertificateScheme} {domain : Digest}
    {headers : List FinalizedHeader} {epoch : Nat} {prev : Digest}
    {sets result : List Peer × List Peer}
    (walk : walkHeaders scheme domain epoch prev sets headers = .ok result) :
    result.2 = foldHeaders sets.2 (headers.map fun finalized => finalized.header.changes) := by
  induction headers generalizing epoch prev sets with
  | nil =>
    obtain rfl := Except.ok.inj walk
    rfl
  | cons finalized rest ih =>
    rw [walkHeaders] at walk
    split at walk
    · cases walk
    · exact ih walk

/-- What ties the headers of a run to its state. -/
structure HeaderRun.Follows (warmUp delay : Nat) (start : LiveState) (validators : List Peer)
    (run : HeaderRun) : Prop where
  reaches : EpochState.Reaches warmUp delay PositiveStakes ⟨.collecting, start⟩ run.state
  pending : run.state.phase = .staged ∨ run.state.phase = .paid →
    run.pending = run.state.live.terminalChanges
  current : run.state.live.getCurrentEpochValidators = some (foldHeaders validators run.headers)

theorem follows_of_step (late : 1 ≤ delay) (genesis : start.AtGenesis) (keyed : start.Keyed)
    (positive : 0 < start.validatorMinimumStake) {validators : List Peer} {run run' : HeaderRun}
    (follows : run.Follows warmUp delay start validators)
    (steps : HeaderRun.Steps warmUp delay PositiveStakes run run') :
    run'.Follows warmUp delay start validators := by
  obtain ⟨event, allowed, result⟩ := steps
  obtain ⟨state, step, same⟩ := Option.map_eq_some_iff.mp result
  have reaches := follows.reaches
  have reaches' : EpochState.Reaches warmUp delay PositiveStakes ⟨.collecting, start⟩ state :=
    reaches.tail ⟨event, allowed, step⟩
  have indexed := EpochState.Reaches.indexed reaches genesis.indexed
  have epochStep := (epochStep_of_step indexed step).1
  have passes := EpochState.passes_of_step step
  have current (within : state.live.epoch = run.state.live.epoch) :
      state.live.getCurrentEpochValidators = some (foldHeaders validators run.headers) :=
    (currentEpochValidators_of_step late genesis positive reaches epochStep within).trans
      follows.current
  have pending (fixed : run.state.phase = .staged ∨ run.state.phase = .paid)
      (within : state.live.epoch = run.state.live.epoch) :
      run.pending = state.live.terminalChanges :=
    (follows.pending fixed).trans (terminalChanges_of_step epochStep fixed within).2.symm
  cases event with
  | buffer requests =>
    obtain rfl := same
    have within : state.live.epoch = run.state.live.epoch := by
      obtain rfl := Option.some.inj step
      simp
    have phase : state.phase = run.state.phase := passes
    exact ⟨reaches', fun fixed => pending (phase ▸ fixed) within, current within⟩
  | process domain =>
    obtain rfl := same
    have within := epochStep.epoch_of_inside (by rw [passes.1]; nofun)
    refine ⟨reaches', fun fixed => ?_, current within⟩
    rw [passes.2] at fixed
    rcases fixed with early | early <;> cases early
  | enforce =>
    obtain rfl := same
    have within := epochStep.epoch_of_inside (by rw [passes.1]; nofun)
    exact ⟨reaches', fun _ => rfl, current within⟩
  | payouts =>
    obtain rfl := same
    have within := epochStep.epoch_of_inside (by rw [passes.1]; nofun)
    exact ⟨reaches', fun _ => pending (Or.inl passes.1) within, current within⟩
  | boundary key digest =>
    obtain rfl := same
    refine ⟨reaches', fun fixed => ?_, ?_⟩
    · rw [passes.2] at fixed
      rcases fixed with early | early <;> cases early
    have life := lifecycle_of_reaches genesis reaches
    have life' := lifecycle_of_reaches genesis reaches'
    rw [passes.1] at life
    rw [passes.2] at life'
    obtain ⟨-, crossed⟩ := Option.ite_none_right_eq_some.mp step
    obtain ⟨⟨live, checkpoint⟩, crossing, rfl⟩ := Option.map_eq_some_iff.mp crossed
    have next := Crosses.nextParticipants life (scheduled_of_reaches genesis reaches)
      (crosses_boundary crossing) (keyed_of_reaches genesis keyed reaches') follows.current
    rw [activeValidators_of_collecting life', next, foldHeaders, foldHeaders, List.foldl_append,
      follows.pending (Or.inr passes.1)]
    rfl

end Runs

end Committee

/-- **The committee and the headers.** In a run whose minimum stakes are all positive, the signers
and their keys stay the same throughout an epoch; after its boundary the active validators are the
signers and the added without the removed, as the terminal header carries them; and folding the
headers over the genesis validators, as the verifier does, gives the signers of every epoch. -/
theorem committee_of_headers [Crypto] {warmUp delay : Nat} (late : 1 ≤ delay) {start : LiveState}
    (genesis : start.AtGenesis) (keyed : start.Keyed)
    (positive : 0 < start.validatorMinimumStake) :
    (∀ s later, EpochState.Reaches warmUp delay PositiveStakes ⟨.collecting, start⟩ s →
      EpochState.Reaches warmUp delay PositiveStakes s later →
      later.live.epoch = s.live.epoch →
      ∃ current, s.live.getCurrentEpochValidators = some current ∧
        later.live.getCurrentEpochValidators = some current) ∧
    (∀ staged before after key digest,
      EpochState.Reaches warmUp delay PositiveStakes ⟨.collecting, start⟩ staged →
      staged.phase = .staged →
      EpochState.Reaches warmUp delay PositiveStakes staged before →
      before.live.epoch = staged.live.epoch →
      before.step warmUp delay (.boundary key digest) = some after →
      ∃ current active, staged.live.getCurrentEpochValidators = some current ∧
        after.live.getActiveValidators = some active ∧
        ∀ peer, peer ∈ active ↔
          (peer ∈ current ∨
            ∃ validator ∈ (staged.live.getAddedValidators (staged.live.epoch + 1)).getD [],
              peer = (validator.nodeKey, validator.consensusKey)) ∧
          peer.1 ∉ staged.live.getRemovedValidators) ∧
    ∃ validators, start.getActiveValidators = some validators ∧
      ∀ run, HeaderRun.Reaches warmUp delay PositiveStakes (HeaderRun.ofGenesis start) run →
        run.state.live.getCurrentEpochValidators = some (foldHeaders validators run.headers) ∧
        ∀ scheme domain prev headers sets,
          (headers.map fun finalized => finalized.header.changes) = run.headers →
          walkHeaders scheme domain 0 prev (validators, validators) headers = .ok sets →
          run.state.live.getCurrentEpochValidators = some sets.2 := by
  have stays (s later : EpochState)
      (first : EpochState.Reaches warmUp delay PositiveStakes ⟨.collecting, start⟩ s)
      (second : EpochState.Reaches warmUp delay PositiveStakes s later)
      (same : later.live.epoch = s.live.epoch) :
      later.live.getCurrentEpochValidators = s.live.getCurrentEpochValidators :=
    second.within (P := fun state =>
        state.live.getCurrentEpochValidators = s.live.getCurrentEpochValidators)
      (fun before _ _ step kept held => (currentEpochValidators_of_step late genesis positive
        (first.trans before) step kept).trans held)
      (EpochState.Reaches.indexed first genesis.indexed) same rfl
  refine ⟨fun s later first second same => ?_, ?_, ?_⟩
  · obtain ⟨current, result⟩ := (keyed_of_reaches genesis keyed first).validatorsWith
      ValidatorStatus.isCurrentEpochSigner
    exact ⟨current, result, (stays s later first second same).trans result⟩
  · intro staged before after key digest first phase second same crossing
    obtain ⟨current, result⟩ := (keyed_of_reaches genesis keyed first).validatorsWith
      ValidatorStatus.isCurrentEpochSigner
    have result' := (stays staged before first second same).trans result
    have reaches := first.trans second
    have fixed := second.within (P := fun state =>
        (state.phase = .staged ∨ state.phase = .paid) ∧
          state.live.terminalChanges = staged.live.terminalChanges)
      (fun _ _ _ step kept held =>
        have next := terminalChanges_of_step step held.1 kept
        ⟨next.1, next.2.trans held.2⟩)
      (EpochState.Reaches.indexed first genesis.indexed) same ⟨Or.inl phase, rfl⟩
    have passes := EpochState.passes_of_step crossing
    have life := lifecycle_of_reaches genesis reaches
    rw [passes.1] at life
    have allowed : PositiveStakes before (.boundary key digest) := fun _ other => nomatch other
    have keyed' := keyed_of_reaches genesis keyed (reaches.tail ⟨_, allowed, crossing⟩)
    obtain ⟨-, crossed⟩ := Option.ite_none_right_eq_some.mp crossing
    obtain ⟨⟨live, checkpoint⟩, crosses, rfl⟩ := Option.map_eq_some_iff.mp crossed
    have next := Crosses.nextParticipants life (scheduled_of_reaches genesis reaches)
      (crosses_boundary crosses) keyed' result'
    refine ⟨current, _, result, next, fun peer => ?_⟩
    obtain ⟨added, removed⟩ := Prod.mk.inj fixed.2
    have added : before.live.scheduled (before.live.epoch + 1) = _ := added
    have removed : before.live.removedValidators = _ := removed
    rw [added, removed, nextParticipants, mem_sortPeers, List.mem_filter, List.mem_append,
      List.mem_map, decide_eq_true_eq]
    simp only [eq_comm]
  · obtain ⟨validators, result⟩ := keyed.validatorsWith fun status => status = .active
    refine ⟨validators, result, fun run reaches => ?_⟩
    have begins : (HeaderRun.ofGenesis start).Follows warmUp delay start validators := by
      refine ⟨.refl, fun fixed => ?_, ?_⟩
      · rcases fixed with early | early <;> cases early
      · exact (activeValidators_of_collecting genesis.lifecycle).trans result
    have follows : run.Follows warmUp delay start validators := by
      induction reaches with
      | refl => exact begins
      | tail _ last ih => exact follows_of_step late genesis keyed positive ih last
    refine ⟨follows.current, fun scheme domain prev headers sets changes walk => ?_⟩
    rw [follows.current, ← changes]
    exact congrArg some (walkHeaders_fold walk).symm

open Bytes

attribute [local instance] Crypto.accepting

/-- A step of a run with headers that a request for a zero minimum stake stops. -/
def HeaderRun.positiveStep : HeaderRun → EpochEvent → Option HeaderRun :=
  Run.guarded (fun run => run.state.asksPositive) (HeaderRun.step 2 2)

/-- One of two validators leaves. -/
theorem committee_of_headers_exit :
    (pairGenesis 32 40 40).AtGenesis ∧ (pairGenesis 32 40 40).Keyed ∧
    ∃ run validators,
      (wholeEpoch [exitRequest]).foldlM HeaderRun.positiveStep
        (HeaderRun.ofGenesis (pairGenesis 32 40 40)) = some run ∧
      run.headers = [([], [⟨zeroChunk, rfl⟩])] ∧
      (pairGenesis 32 40 40).getActiveValidators = some validators ∧
      run.state.live.getCurrentEpochValidators = some (foldHeaders validators run.headers) := by
  have genesis := atGenesis_pairGenesis 32 40 40
  have keyed : (pairGenesis 32 40 40).Keyed := fun _ _ _ => rfl
  have positive : 0 < (pairGenesis 32 40 40).validatorMinimumStake := by decide +kernel
  have computed : ((wholeEpoch [exitRequest]).foldlM HeaderRun.positiveStep
        (HeaderRun.ofGenesis (pairGenesis 32 40 40))).map (fun run => run.headers) =
      some [([], [⟨zeroChunk, rfl⟩])] := by
    decide +kernel
  obtain ⟨run, folded, headers⟩ := Option.map_eq_some_iff.mp computed
  obtain ⟨validators, active, current⟩ :=
    (@committee_of_headers _ 2 2 (by decide) _ genesis keyed positive).2.2
  have reaches : HeaderRun.Reaches 2 2 PositiveStakes _ run :=
    Run.reflTransGen_of_guarded folded fun _ _ event _ asked result =>
      ⟨event, EpochState.positiveStakes asked event, result⟩
  exact ⟨genesis, keyed, run, validators, folded, headers, active, (current run reaches).1⟩

end Summit
