/-
**The parameters stay within their bounds.**

A stored parameter is the genesis value or one that was queued, and only values within the bounds of
their parameter are queued (`ProtocolParam.Accepted.inBounds`). `StateData.InBounds` says both of the
stored and of the queued values; every step keeps it (`inBounds_of_reaches`).
-/

import Summit.Proof.Lifecycle

set_option linter.unusedSectionVars false

namespace Summit

section ParamBounds

variable [Crypto]

/-- The stored values, each as the parameter that it is the value of. -/
def StateData.storedParams (data : StateData) : List ProtocolParam :=
  [.minimumStake data.validatorMinimumStake,
   .allowedTimestampFuture data.allowedTimestampFutureMs,
   .treasuryAddress data.treasuryAddress,
   .maxDepositsPerEpoch data.maxDepositsPerEpoch,
   .maxWithdrawalsPerEpoch data.maxWithdrawalsPerEpoch,
   .observersPerValidator data.observersPerValidator,
   .minimumValidatorCount data.minimumValidatorCount,
   .invalidDepositTax data.invalidDepositTax,
   .maxPendingWithdrawalsPerValidator data.maxPendingWithdrawalsPerValidator,
   .maxValidatorCount data.maxValidatorCount]

/-- Every stored and every queued value is within its bounds. -/
structure StateData.InBounds (data : StateData) : Prop where
  stored : ∀ param ∈ data.storedParams, param.InBounds
  queued : ∀ param ∈ data.protocolParamChanges, param.InBounds

/-! ### The queue -/

variable {data data' : StateData} {param : ProtocolParam} {warmUp delay : Nat} {s s' : LiveState}

theorem mem_of_mem_consistentChanges (member : param ∈ data.consistentChanges) :
    param ∈ data.protocolParamChanges := by
  have capped {param : ProtocolParam} (member : param ∈ data.cappedChanges) :
      param ∈ data.protocolParamChanges := by
    unfold StateData.cappedChanges at member
    split at member
    · exact (List.mem_filter.mp member).1
    · exact member
  unfold StateData.consistentChanges at member
  split at member
  · exact capped (List.mem_filter.mp member).1
  · exact capped member

theorem StateData.InBounds.queueParams (bounded : data.InBounds) {batch : List ProtocolParam}
    (accepted : ∀ param ∈ batch, param.Accepted) : (data.queueParams batch).InBounds := by
  refine ⟨bounded.stored, fun param member => ?_⟩
  rcases List.mem_append.mp (mem_of_mem_consistentChanges member) with old | new
  · exact bounded.queued param old
  · exact (accepted param new).inBounds

theorem StateData.InBounds.mono (bounded : data.InBounds)
    (stored : data'.storedParams = data.storedParams)
    (queued : ∀ param ∈ data'.protocolParamChanges, param ∈ data.protocolParamChanges) :
    data'.InBounds :=
  ⟨fun param member => bounded.stored param (stored ▸ member),
    fun param member => bounded.queued param (queued param member)⟩

theorem StateData.InBounds.settings (bounded : data.InBounds) (same : SameSettings data data') :
    data'.InBounds := by
  refine bounded.mono ?_ ?_
  · rw [same]
    rfl
  · rw [same]
    exact fun param member => member

/-- Within an epoch values are queued and dropped, but not stored. -/
theorem EpochStep.inBounds {phase phase' : Phase}
    (step : EpochStep warmUp delay data phase phase' data')
    (inside : phase = .paid → phase' ≠ .collecting) (bounded : data.InBounds) : data'.InBounds := by
  cases step with
  | touch phase same =>
    refine bounded.mono ?_ ?_
    · rw [same]
      rfl
    · rw [same]
      exact fun param member => member
  | process accepted moves => exact (bounded.queueParams accepted).settings moves.settings
  | keep => exact bounded
  | drop => exact bounded.mono rfl fun param member => (List.mem_filter.mp member).1
  | remove _ removals => exact bounded.settings removals.settings.1
  | pay due front frontRefunds paid =>
    refine bounded.mono ?_ ?_
    · rw [paid.data]
      rfl
    · rw [paid.data]
      exact fun param member => member
  | cross => exact absurd rfl (inside rfl)

/-! ### The boundary -/

/-- A parameter that is applied takes one place among the stored ones. -/
theorem storedParams_applyParam (result : s.applyParam param = some s') :
    s'.storedParams = s.storedParams ∨ ∃ place, s'.storedParams = s.storedParams.set place param := by
  unfold LiveState.applyParam at result
  split at result
  case h_1 => exact Or.inr ⟨0, Option.some.inj result ▸ rfl⟩
  case h_2 =>
    split at result
    · obtain ⟨epocher, -, rfl⟩ := Option.map_eq_some_iff.mp result
      exact Or.inl rfl
    · cases result
  case h_3 => exact Or.inr ⟨1, Option.some.inj result ▸ rfl⟩
  case h_4 => exact Or.inr ⟨2, Option.some.inj result ▸ rfl⟩
  case h_5 => exact Or.inr ⟨3, Option.some.inj result ▸ rfl⟩
  case h_6 => exact Or.inr ⟨4, Option.some.inj result ▸ rfl⟩
  case h_7 =>
    split at result
    · exact Or.inr ⟨5, Option.some.inj result ▸ rfl⟩
    · cases result
  case h_8 => exact Or.inr ⟨9, Option.some.inj result ▸ rfl⟩
  case h_9 => exact Or.inr ⟨6, Option.some.inj result ▸ rfl⟩
  case h_10 =>
    split at result
    · exact Or.inl (Option.some.inj result ▸ rfl)
    · exact Or.inr ⟨7, Option.some.inj result ▸ rfl⟩
  case h_11 => exact Or.inr ⟨8, Option.some.inj result ▸ rfl⟩

/-- What is stored at the end was stored before, or queued. -/
theorem mem_storedParams_foldlM {params : List ProtocolParam}
    (run : params.foldlM LiveState.applyParam s = some s') {stored : ProtocolParam}
    (member : stored ∈ s'.storedParams) : stored ∈ s.storedParams ∨ stored ∈ params := by
  induction params generalizing s with
  | nil =>
    obtain rfl := Option.some.inj run
    exact Or.inl member
  | cons param params ih =>
    obtain ⟨mid, first, later⟩ := Run.foldlM_cons_some run
    rcases ih later with early | late
    · rcases storedParams_applyParam first with same | ⟨place, same⟩
      · exact Or.inl (same ▸ early)
      · rw [same] at early
        rcases List.mem_or_eq_of_mem_set early with old | rfl
        · exact Or.inl old
        · exact Or.inr List.mem_cons_self
    · exact Or.inr (List.mem_cons_of_mem _ late)

theorem StateData.InBounds.applyProtocolParameterChanges {result : LiveState × Bool}
    (bounded : s.InBounds) (applied : s.applyProtocolParameterChanges = some result) :
    result.1.InBounds := by
  obtain ⟨changed, run, rfl⟩ := Option.map_eq_some_iff.mp applied
  refine ⟨fun param member => ?_, fun param member => nomatch member⟩
  rcases mem_storedParams_foldlM run member with old | queued
  · rw [LiveState.data_rejectInvalidValidatorCountChanges] at old
    exact bounded.stored param old
  · rw [LiveState.data_rejectInvalidValidatorCountChanges] at queued
    exact bounded.queued param (mem_of_mem_consistentChanges queued)

/-- **The boundary** stores queued values only. -/
theorem StateData.InBounds.boundary {key : PublicKey} {digest : Digest}
    {checkpoint : Option Checkpoint} (bounded : s.InBounds)
    (result : s.boundary key digest = some (s', checkpoint)) : s'.InBounds := by
  obtain ⟨changed, moved, applied, transition, rfl⟩ := boundary_eq_some result
  have same := (restatus_applyCommitteeTransition transition).1
  have after := bounded.applyProtocolParameterChanges applied
  refine after.mono ?_ ?_
  all_goals
    simp only [LiveState.takePendingCheckpoint, data_enterNextEpoch,
      LiveState.data_setPendingCheckpoint]
    rw [same]
  · rfl
  · exact fun param member => member

/-! ### Runs -/

/-- **Every step keeps the parameters within their bounds.** -/
theorem inBounds_of_reaches {guard : EpochState → EpochEvent → Prop} {start : LiveState}
    {reached : EpochState} (genesis : start.AtGenesis) (bounded : start.InBounds)
    (reaches : EpochState.Reaches warmUp delay guard ⟨.collecting, start⟩ reached) :
    reached.live.InBounds :=
  reaches.invariant_boundary (P := fun _ data => data.InBounds) EpochStep.inBounds
    (fun crossed held => held.boundary crossed) genesis.indexed bounded

end ParamBounds

attribute [local instance] Crypto.accepting

/-- Two validators, and every parameter within its bounds. -/
def boundedGenesis (minimumStake balance balance' : Nat) : LiveState :=
  (pairGenesis minimumStake balance balance').setAllowedTimestampFutureMs 1000

theorem atGenesis_boundedGenesis (minimumStake balance balance' : Nat) :
    (boundedGenesis minimumStake balance balance').AtGenesis := by
  have pair := atGenesis_pairGenesis minimumStake balance balance'
  exact ⟨pair.active, pair.deposits, pair.withdrawals, pair.requests, pair.params, pair.added,
    pair.removed, pair.exits⟩

theorem inBounds_boundedGenesis {minimumStake : Nat} (small : minimumStake < 2 ^ 64)
    (balance balance' : Nat) : (boundedGenesis minimumStake balance balance').InBounds := by
  refine ⟨?_, fun param member => ?_⟩
  · rw [boundedGenesis, LiveState.data_setAllowedTimestampFutureMs, pairGenesis,
      LiveState.data_setAccount, LiveState.data_setAccount]
    intro param member
    simp only [StateData.storedParams, List.mem_cons, List.not_mem_nil, or_false] at member
    rcases member with rfl | rfl | rfl | rfl | rfl | rfl | rfl | rfl | rfl | rfl
    · exact small
    all_goals
      simp [ProtocolParam.InBounds, LiveState.ofData, StateData.new]
      try decide
  · rw [(atGenesis_boundedGenesis minimumStake balance balance').params] at member
    cases member

end Summit
