/-
**The queued parameters and the values they lead to.**

A prospective value is the last queued one of its kind. Dropping changes of other kinds does not
move it, so the check of the validator counts keeps the minimum stake (`checked_minimumStake`). After
the check the two counts are in order and the cap covers the seats taken, if this was so of the
stored ones (`checked_ordered`, `checked_seated`); where both hold the check drops nothing
(`consistentChanges_eq_self`).
-/

import Summit.Model.Processing

set_option linter.unusedSectionVars false

namespace Summit

open Bytes

section Params

variable [Crypto]

/-- The data with the count changes that conflict dropped. -/
def StateData.checked (data : StateData) : StateData :=
  { data with protocolParamChanges := data.consistentChanges }

/-! ### Dropping changes of another kind -/

theorem findSome?_filter_of_keeps {pick : ProtocolParam → Option Nat} {keep : ProtocolParam → Bool}
    (keeps : ∀ param, (pick param).isSome = true → keep param = true) (params : List ProtocolParam) :
    (params.filter keep).findSome? pick = params.findSome? pick := by
  induction params with
  | nil => rfl
  | cons param rest ih =>
    rw [List.filter_cons]
    split
    · rw [List.findSome?_cons, List.findSome?_cons, ih]
    · next dropped =>
      have none_ : pick param = none := by
        by_contra some_
        exact dropped (keeps param (Option.isSome_iff_ne_none.mpr some_))
      rw [List.findSome?_cons, none_, ih]

section Prospective

variable {pick : ProtocolParam → Option Nat} {keep : ProtocolParam → Bool} (data : StateData)
  (current : Nat)

/-- Changes that are dropped do not move a prospective value of another kind. -/
theorem prospective_filter (keeps : ∀ param, (pick param).isSome = true → keep param = true) :
    { data with protocolParamChanges := data.protocolParamChanges.filter keep }.prospective pick
        current = data.prospective pick current := by
  rw [StateData.prospective, StateData.prospective, ← List.filter_reverse,
    findSome?_filter_of_keeps keeps]

/-- Without a queued change the value stays. -/
theorem prospective_of_none (none_ : ∀ param ∈ data.protocolParamChanges, pick param = none) :
    data.prospective pick current = current := by
  have absent : data.protocolParamChanges.reverse.findSome? pick = none :=
    List.findSome?_eq_none_iff.mpr fun param member => none_ param (List.mem_reverse.mp member)
  rw [StateData.prospective, absent]
  rfl

end Prospective

/-! ### The check of the validator counts -/

section Checked

variable (data : StateData)

theorem not_count_of_asMinimumStake {param : ProtocolParam}
    (stake : (StateData.asMinimumStake param).isSome = true) :
    StateData.isMinimumValidatorCount param = false ∧
      StateData.isMaxValidatorCount param = false := by
  cases param <;> first | exact ⟨rfl, rfl⟩ | cases stake

theorem not_max_of_asMinimumValidatorCount {param : ProtocolParam}
    (count : (StateData.asMinimumValidatorCount param).isSome = true) :
    StateData.isMaxValidatorCount param = false := by
  cases param <;> first | rfl | cases count

theorem prospective_capped {pick : ProtocolParam → Option Nat}
    (other : ∀ param, (pick param).isSome = true → StateData.isMaxValidatorCount param = false)
    (current : Nat) :
    { data with protocolParamChanges := data.cappedChanges }.prospective pick current =
      data.prospective pick current := by
  unfold StateData.cappedChanges
  split
  · exact prospective_filter data current fun param given => by rw [other param given]; rfl
  · rfl

theorem checked_minimumStake :
    data.checked.prospectiveMinimumStake = data.prospectiveMinimumStake := by
  have capped : _ = data.prospective StateData.asMinimumStake _ := prospective_capped data
    (fun param given => (not_count_of_asMinimumStake given).2) data.validatorMinimumStake
  rw [StateData.prospectiveMinimumStake, StateData.prospectiveMinimumStake, ← capped,
    StateData.checked]
  unfold StateData.consistentChanges
  split
  · refine prospective_filter { data with protocolParamChanges := data.cappedChanges } _
      fun param given => ?_
    obtain ⟨low, high⟩ := not_count_of_asMinimumStake given
    rw [low, high]
    rfl
  · rfl

/-- What the check leaves: no count change at all, or the capped changes with the counts in
order. -/
theorem consistentChanges_cases :
    (∀ param ∈ data.consistentChanges, StateData.asMinimumValidatorCount param = none ∧
      StateData.asMaxValidatorCount param = none) ∨
    data.consistentChanges = data.cappedChanges ∧
      data.prospectiveMinimumValidatorCount ≤
        { data with protocolParamChanges := data.cappedChanges }.prospectiveMaxValidatorCount := by
  unfold StateData.consistentChanges
  split
  · refine Or.inl fun param member => ?_
    have kept := (List.mem_filter.mp member).2
    simp only [StateData.isMinimumValidatorCount, StateData.isMaxValidatorCount,
      Bool.not_eq_true', Bool.or_eq_false_iff, Option.isSome_eq_false_iff,
      Option.isNone_iff_eq_none] at kept
    exact kept
  · next ordered => exact Or.inr ⟨rfl, Nat.le_of_not_lt ordered⟩

/-- **After the check the counts are in order.** -/
theorem checked_ordered (stored : data.minimumValidatorCount ≤ data.maxValidatorCount) :
    data.checked.prospectiveMinimumValidatorCount ≤ data.checked.prospectiveMaxValidatorCount := by
  rcases consistentChanges_cases data with dropped | ⟨same, ordered⟩
  · rw [StateData.prospectiveMinimumValidatorCount, StateData.prospectiveMaxValidatorCount,
      prospective_of_none data.checked _ fun param member => (dropped param member).1,
      prospective_of_none data.checked _ fun param member => (dropped param member).2]
    exact stored
  · rw [StateData.checked, same, StateData.prospectiveMinimumValidatorCount,
      prospective_capped data fun param => not_max_of_asMinimumValidatorCount]
    exact ordered

/-- **After the check the cap covers the seats taken.** -/
theorem checked_seated (stored : data.activeOrJoiningValidatorCount ≤ data.maxValidatorCount) :
    data.activeOrJoiningValidatorCount ≤ data.checked.prospectiveMaxValidatorCount := by
  rcases consistentChanges_cases data with dropped | ⟨same, ordered⟩
  · rw [StateData.prospectiveMaxValidatorCount,
      prospective_of_none data.checked _ fun param member => (dropped param member).2]
    exact stored
  · rw [StateData.checked, same]
    unfold StateData.cappedChanges at ordered ⊢
    split
    · -- the cap was below the seats and is dropped
      rw [StateData.prospectiveMaxValidatorCount, prospective_of_none]
      · exact stored
      · intro param member
        have kept := (List.mem_filter.mp member).2
        simpa [StateData.isMaxValidatorCount] using kept
    · next fits =>
      rw [if_neg fits] at ordered
      by_contra less
      refine fits ⟨ordered, ?_, Nat.lt_of_not_le less⟩
      by_contra none_
      refine less ?_
      rw [StateData.prospectiveMaxValidatorCount, prospective_of_none]
      · exact stored
      · intro param member
        have absent := mt (fun some_ => List.any_eq_true.mpr ⟨param, member, some_⟩) none_
        simpa [StateData.isMaxValidatorCount] using absent

/-- **The check drops nothing** where the counts are in order and the cap covers the seats. -/
theorem consistentChanges_eq_self
    (ordered : data.prospectiveMinimumValidatorCount ≤ data.prospectiveMaxValidatorCount)
    (seated : data.activeOrJoiningValidatorCount ≤ data.prospectiveMaxValidatorCount) :
    data.consistentChanges = data.protocolParamChanges := by
  have capped : data.cappedChanges = data.protocolParamChanges :=
    if_neg fun below => absurd below.2.2 (Nat.not_lt.mpr seated)
  rw [StateData.consistentChanges, capped]
  exact if_neg (Nat.not_lt.mpr ordered)

end Checked

/-! ### The values that the parser accepts -/

/-- A parameter change that the parser accepts. -/
def ProtocolParam.Accepted (param : ProtocolParam) : Prop :=
  ∃ request, ProtocolParam.tryFrom request = .ok param

/-- The value lies within the bounds of its parameter. -/
def ProtocolParam.InBounds : ProtocolParam → Prop
  | .minimumStake value => value < 2 ^ 64
  | .epochLength value => minEpochLength ≤ value ∧ value ≤ maxEpochLength
  | .allowedTimestampFuture value =>
    minAllowedTimestampFutureMs ≤ value ∧ value ≤ maxAllowedTimestampFutureMs
  | .treasuryAddress _ => True
  | .maxDepositsPerEpoch value => value ≤ maxMaxDepositsPerEpoch
  | .maxWithdrawalsPerEpoch value =>
    maxWithdrawalsPerEpochMin ≤ value ∧ value ≤ maxWithdrawalsPerEpochMax
  | .observersPerValidator value => value ≤ maxObserversPerValidator
  | .minimumValidatorCount value => minMinimumValidatorCount ≤ value ∧ value < 2 ^ 64
  | .invalidDepositTax value => value ≤ maxInvalidDepositTax
  | .maxPendingWithdrawalsPerValidator value =>
    maxPendingWithdrawalsPerValidatorMin ≤ value ∧ value ≤ maxPendingWithdrawalsPerValidatorMax
  | .maxValidatorCount value => minMaxValidatorCount ≤ value ∧ value ≤ maxMaxValidatorCount

variable {make : Nat → ProtocolParam} {param : ProtocolParam}

theorem parseU64Param_ok {what : String} {check : Nat → Except String Unit} {bytes : List UInt8}
    (result : parseU64Param what make check bytes = .ok param) :
    ∃ value < 2 ^ 64, check value = .ok () ∧ param = make value := by
  unfold parseU64Param at result
  split at result
  · cases result
  next length =>
  split at result
  · cases result
  · next passed =>
    refine ⟨leNat bytes, ?_, passed, (Except.ok.inj result).symm⟩
    refine lt_of_lt_of_eq (leNat_lt bytes) ?_
    rw [not_not.mp length]
    norm_num

theorem boundsCheck_ok {value : Nat} (passed : boundsCheck make value = .ok ()) :
    (make value).validate = .ok () := by
  unfold boundsCheck at passed
  split at passed
  · assumption
  · cases passed

/-- The shared check has bounds for the parameter. -/
def ProtocolParam.isValidated : ProtocolParam → Bool
  | .minimumStake _ | .minimumValidatorCount _ | .invalidDepositTax _ => false
  | _ => true

theorem inBounds_of_validate (passed : param.validate = .ok ()) (bounded : param.isValidated = true) :
    param.InBounds := by
  cases param with
  | minimumStake | minimumValidatorCount | invalidDepositTax => cases bounded
  | treasuryAddress => trivial
  | maxDepositsPerEpoch value | observersPerValidator value =>
    refine Nat.le_of_not_lt fun high => ?_
    rw [ProtocolParam.validate, if_pos high] at passed
    cases passed
  | epochLength value | allowedTimestampFuture value | maxWithdrawalsPerEpoch value
  | maxPendingWithdrawalsPerValidator value | maxValidatorCount value =>
    by_contra outside
    rw [ProtocolParam.InBounds] at outside
    rw [ProtocolParam.validate, if_neg outside] at passed
    cases passed

/-- **Every accepted value is within its bounds.** -/
theorem ProtocolParam.Accepted.inBounds (accepted : param.Accepted) : param.InBounds := by
  obtain ⟨request, result⟩ := accepted
  unfold ProtocolParam.tryFrom at result
  split at result
  case h_1 =>
    obtain ⟨value, small, -, rfl⟩ := parseU64Param_ok result
    exact small
  case h_4 =>
    split at result
    · cases result
    · obtain rfl := Except.ok.inj result
      trivial
  case h_8 =>
    obtain ⟨value, small, passed, rfl⟩ := parseU64Param_ok result
    refine ⟨?_, small⟩
    by_contra low
    rw [if_pos (Nat.lt_of_not_le low)] at passed
    cases passed
  case h_9 =>
    obtain ⟨value, -, passed, rfl⟩ := parseU64Param_ok result
    refine Nat.le_of_not_lt fun high => ?_
    rw [if_pos high] at passed
    cases passed
  case h_12 => cases result
  all_goals
    obtain ⟨value, -, passed, rfl⟩ := parseU64Param_ok result
    exact inBounds_of_validate (boundsCheck_ok passed) rfl

end Params

end Summit
