/-
**The epoch schedule.**

The segments, newest first, describe an increasing sequence of first heights (`firstHeight`): each
segment starts where its predecessor leads to (`Linked`). `bounds` computes two neighbours of that
sequence and `containing` inverts it (`firstHeight_le_epochAt`), whichever segments lie beyond the visible
range. A new length changes the sequence only after the epoch it is registered for, so the epochs up
to the one after the current keep their bounds for ever (`epochSchedule_partition`).
-/

import Mathlib.Logic.Relation
import Mathlib.Order.Monotone.Basic
import Mathlib.Order.WellFounded
import Summit.Model.Epocher

set_option linter.unusedSectionVars false

namespace Summit

open Bytes

namespace DynamicEpocher

/-! ### The sequence of first heights -/

/-- The first height of an epoch, by the newest segment that starts no later. -/
def firstHeight : List Segment → Nat → Nat
  | [], _ => 0
  | segment :: older, epoch =>
    if segment.startEpoch ≤ epoch then
      segment.startHeight + (epoch - segment.startEpoch) * segment.length
    else firstHeight older epoch

section

variable {segment : Segment} {older : List Segment} {epoch : Nat}

theorem firstHeight_of_le (started : segment.startEpoch ≤ epoch) :
    firstHeight (segment :: older) epoch =
      segment.startHeight + (epoch - segment.startEpoch) * segment.length := if_pos started

theorem firstHeight_of_lt (before : epoch < segment.startEpoch) :
    firstHeight (segment :: older) epoch = firstHeight older epoch :=
  if_neg (Nat.not_le.mpr before)

end

/-- The length of an epoch. -/
def lengthAt : List Segment → Nat → Nat
  | [], _ => 0
  | segment :: older, epoch =>
    if segment.startEpoch ≤ epoch then segment.length else lengthAt older epoch

/-- Newest first, each segment starts where the one before it leads to; the oldest one starts at
zero. -/
def Linked : List Segment → Prop
  | [] => False
  | [segment] => segment.startEpoch = 0 ∧ segment.startHeight = 0 ∧ 0 < segment.length
  | segment :: previous :: older =>
    previous.startEpoch < segment.startEpoch ∧
      segment.startHeight = previous.startHeight +
        (segment.startEpoch - previous.startEpoch) * previous.length ∧
      0 < segment.length ∧ Linked (previous :: older)

variable {segment : Segment} {segments : List Segment} {a b c epoch : Nat}
  {epocher : DynamicEpocher}

theorem Linked.older {older : List Segment} (linked : Linked (segment :: older)) (more : older ≠ []) :
    Linked older ∧ 0 < segment.startEpoch ∧
      segment.startHeight = firstHeight older segment.startEpoch := by
  cases older with
  | nil => exact absurd rfl more
  | cons previous rest =>
    obtain ⟨later, height, -, linked⟩ := linked
    refine ⟨linked, Nat.zero_lt_of_lt later, ?_⟩
    rw [firstHeight_of_le (Nat.le_of_lt later)]
    exact height

theorem Linked.positive {older : List Segment} (linked : Linked (segment :: older)) :
    0 < segment.length := by
  cases older with
  | nil => exact linked.2.2
  | cons => exact linked.2.2.1

theorem firstHeight_zero (linked : Linked segments) : firstHeight segments 0 = 0 := by
  induction segments with
  | nil => rfl
  | cons segment older ih =>
    cases older with
    | nil =>
      obtain ⟨epoch, height, -⟩ := linked
      simp [firstHeight, epoch, height]
    | cons previous rest =>
      obtain ⟨linked, later, -⟩ := linked.older (List.cons_ne_nil _ _)
      rw [firstHeight_of_lt later]
      exact ih linked

theorem lengthAt_pos (linked : Linked segments) (epoch : Nat) : 0 < lengthAt segments epoch := by
  induction segments with
  | nil => exact linked.elim
  | cons segment older ih =>
    rw [lengthAt]
    split
    · exact linked.positive
    · next before =>
      cases older with
      | nil =>
        rw [linked.1] at before
        exact absurd (Nat.zero_le _) before
      | cons => exact ih (linked.older (List.cons_ne_nil _ _)).1

/-- **An epoch starts where the one before it ends.** -/
theorem firstHeight_succ (linked : Linked segments) (epoch : Nat) :
    firstHeight segments (epoch + 1) = firstHeight segments epoch + lengthAt segments epoch := by
  induction segments with
  | nil => exact linked.elim
  | cons segment older ih =>
    by_cases started : segment.startEpoch ≤ epoch
    · rw [firstHeight_of_le started, firstHeight_of_le (Nat.le_succ_of_le started), lengthAt,
        if_pos started, show epoch + 1 - segment.startEpoch = epoch - segment.startEpoch + 1 by omega,
        Nat.succ_mul]
      omega
    · cases older with
      | nil =>
        rw [linked.1] at started
        exact absurd (Nat.zero_le _) started
      | cons previous rest =>
        obtain ⟨linked', -, height⟩ := linked.older (List.cons_ne_nil _ _)
        have step := ih linked'
        rw [firstHeight_of_lt (Nat.lt_of_not_le started), lengthAt, if_neg started, ← step]
        by_cases now : segment.startEpoch = epoch + 1
        · -- the segment starts with the next epoch, where the older ones lead to
          rw [firstHeight_of_le now.le, height, now, Nat.sub_self, Nat.zero_mul, Nat.add_zero]
        · rw [firstHeight_of_lt (by omega)]

theorem firstHeight_strictMono (linked : Linked segments) : StrictMono (firstHeight segments) := by
  refine strictMono_nat_of_lt_succ fun epoch => ?_
  rw [firstHeight_succ linked]
  exact Nat.lt_add_of_pos_right (lengthAt_pos linked epoch)

theorem firstHeight_succ_pos (linked : Linked segments) (epoch : Nat) :
    0 < firstHeight segments (epoch + 1) :=
  lt_of_le_of_lt (Nat.zero_le _) (firstHeight_strictMono linked (Nat.lt_succ_self epoch))

/-! ### Bounds -/

theorem checkedAdd_of_le (fits : a + b ≤ u64Max) : checkedAdd a b = some (a + b) :=
  if_pos fits

theorem find?_startEpoch (linked : Linked segments) (epoch : Nat) :
    ∃ segment, (segments.find? fun segment => segment.startEpoch ≤ epoch) = some segment ∧
      segment.startEpoch ≤ epoch ∧ segment.length = lengthAt segments epoch ∧
      firstHeight segments epoch =
        segment.startHeight + (epoch - segment.startEpoch) * segment.length := by
  induction segments with
  | nil => exact linked.elim
  | cons segment older ih =>
    by_cases started : segment.startEpoch ≤ epoch
    · refine ⟨segment, List.find?_cons_of_pos (decide_eq_true started), started, ?_, ?_⟩
      · rw [lengthAt, if_pos started]
      · rw [firstHeight_of_le started]
    · cases older with
      | nil =>
        rw [linked.1] at started
        exact absurd (Nat.zero_le _) started
      | cons previous rest =>
        obtain ⟨found, here, le, length, height⟩ := ih (linked.older (List.cons_ne_nil _ _)).1
        refine ⟨found, ?_, le, ?_, ?_⟩
        · rw [List.find?_cons_of_neg (by simpa using started), here]
        · rw [lengthAt, if_neg started, length]
        · rw [firstHeight_of_lt (Nat.lt_of_not_le started), height]

theorem checkedAdd_eq_some_iff : checkedAdd a b = some c ↔ a + b = c ∧ c ≤ u64Max := by
  rw [checkedAdd, Option.ite_none_right_eq_some, Option.some_inj]
  exact ⟨fun both => ⟨both.2, both.2 ▸ both.1⟩, fun both => ⟨both.1 ▸ both.2, both.1⟩⟩

theorem checkedMul_eq_some_iff : checkedMul a b = some c ↔ a * b = c ∧ c ≤ u64Max := by
  rw [checkedMul, Option.ite_none_right_eq_some, Option.some_inj]
  exact ⟨fun both => ⟨both.2, both.2 ▸ both.1⟩, fun both => ⟨both.1 ▸ both.2, both.1⟩⟩

/-- **The bounds of an epoch** are neighbours in the sequence that are 64 bits wide. -/
theorem bounds_eq_some_iff (linked : Linked segments.reverse) {first last : Nat} :
    bounds segments epoch = some (first, last) ↔
      firstHeight segments.reverse epoch = first ∧
        firstHeight segments.reverse (epoch + 1) = last + 1 ∧ last ≤ u64Max := by
  obtain ⟨segment, found, -, length, height⟩ := find?_startEpoch linked epoch
  have next := firstHeight_succ linked epoch
  have positive := lengthAt_pos linked epoch
  rw [← length] at next positive
  simp only [bounds, found, Option.bind_eq_bind, Option.bind_some, Option.bind_eq_some_iff,
    checkedMul_eq_some_iff, checkedAdd_eq_some_iff]
  constructor
  · rintro ⟨_, ⟨rfl, -⟩, _, ⟨rfl, -⟩, _, ⟨rfl, small⟩, same⟩
    obtain ⟨rfl, rfl⟩ := Prod.mk.inj (Option.some.inj same)
    exact ⟨height, by omega, small⟩
  · rintro ⟨rfl, later, small⟩
    exact ⟨_, ⟨rfl, by omega⟩, _, ⟨height.symm, by omega⟩, _, ⟨by omega, small⟩, rfl⟩

theorem bounds_eq (linked : Linked segments.reverse)
    (fits : firstHeight segments.reverse (epoch + 1) ≤ 2 ^ 64) :
    bounds segments epoch = some (firstHeight segments.reverse epoch,
      firstHeight segments.reverse (epoch + 1) - 1) := by
  have positive := firstHeight_succ_pos linked epoch
  exact (bounds_eq_some_iff linked).mpr ⟨rfl, by omega, by rw [u64Max]; omega⟩

/-! ### The epoch of a height -/

/-- The segment that a height is looked up in, and the epoch it leads to. -/
theorem exists_epochAt (linked : Linked segments) (height : Nat) :
    ∃ segment, (segments.find? fun segment => segment.startHeight ≤ height) = some segment ∧
      ∃ epoch, epoch = segment.startEpoch + (height - segment.startHeight) / segment.length ∧
        firstHeight segments epoch ≤ height ∧ height < firstHeight segments (epoch + 1) := by
  induction segments with
  | nil => exact linked.elim
  | cons segment older ih =>
    by_cases started : segment.startHeight ≤ height
    · refine ⟨segment, List.find?_cons_of_pos (decide_eq_true started), _, rfl, ?_, ?_⟩
      · rw [firstHeight_of_le (Nat.le_add_right _ _), Nat.add_sub_cancel_left]
        have low := Nat.div_mul_le_self (height - segment.startHeight) segment.length
        omega
      · rw [Nat.add_assoc, firstHeight_of_le (Nat.le_add_right _ _), Nat.add_sub_cancel_left]
        have high := Nat.lt_mul_div_succ (height - segment.startHeight) linked.positive
        rw [Nat.mul_comm] at high
        omega
    · cases older with
      | nil =>
        rw [linked.2.1] at started
        exact absurd (Nat.zero_le _) started
      | cons previous rest =>
        obtain ⟨linked', -, start⟩ := linked.older (List.cons_ne_nil _ _)
        obtain ⟨found, here, epoch, same, low, high⟩ := ih linked'
        -- the height lies below the start of the segment, so its epoch does too
        have before : epoch < segment.startEpoch := by
          refine (firstHeight_strictMono linked').lt_iff_lt.mp ?_
          rw [← start]
          omega
        refine ⟨found, ?_, epoch, same, ?_, ?_⟩
        · rw [List.find?_cons_of_neg (by simpa using started), here]
        · rw [firstHeight_of_lt before]
          exact low
        · by_cases now : segment.startEpoch = epoch + 1
          · rw [firstHeight_of_le now.le, now, Nat.sub_self, Nat.zero_mul, Nat.add_zero]
            exact Nat.lt_of_not_le started
          · rw [firstHeight_of_lt (by omega)]
            exact high

/-- **The epoch of a height is unique.** -/
theorem epoch_unique (linked : Linked segments) {height one two : Nat}
    (low : firstHeight segments one ≤ height) (high : height < firstHeight segments (one + 1))
    (low' : firstHeight segments two ≤ height) (high' : height < firstHeight segments (two + 1)) :
    one = two := by
  have mono := firstHeight_strictMono linked
  have first := mono.lt_iff_lt.mp (lt_of_le_of_lt low high')
  have second := mono.lt_iff_lt.mp (lt_of_le_of_lt low' high)
  omega

/-! ### Schedules -/

/-- The segments newest first. -/
def newestFirst (epocher : DynamicEpocher) : List Segment := epocher.segments.reverse

/-- The segments are linked, and none lies beyond the epoch that an update registers. -/
structure Scheduled (epocher : DynamicEpocher) : Prop where
  linked : Linked epocher.newestFirst
  ahead : ∀ segment ∈ epocher.segments, segment.startEpoch ≤ epocher.currentEpoch + 2

/-- The heights up to the epoch that an update registers are below `2 ^ 64`, and so are the epochs. -/
structure Fits (epocher : DynamicEpocher) : Prop where
  heights : firstHeight epocher.newestFirst (epocher.currentEpoch + 3) ≤ 2 ^ 64
  epochs : epocher.currentEpoch < 2 ^ 64 - 2

theorem scheduled_new {length : Nat} (positive : 0 < length) : Scheduled (new length positive) :=
  ⟨⟨rfl, rfl, positive⟩, fun segment member => by
    rw [List.mem_singleton.mp member]
    exact Nat.zero_le _⟩

section Scheduled

variable {epocher epocher' : DynamicEpocher}

variable {epoch height length : Nat}

theorem Scheduled.fits_epoch (scheduled : Scheduled epocher) (fits : Fits epocher)
    (visible : epoch ≤ epocher.currentEpoch + 2) :
    firstHeight epocher.newestFirst (epoch + 1) ≤ 2 ^ 64 :=
  ((firstHeight_strictMono scheduled.linked).monotone (by omega)).trans fits.heights

theorem Scheduled.epochBounds (scheduled : Scheduled epocher) (fits : Fits epocher)
    (visible : epoch ≤ epocher.currentEpoch + 1) :
    epocher.epochBounds epoch = some (firstHeight epocher.newestFirst epoch,
      firstHeight epocher.newestFirst (epoch + 1) - 1) := by
  rw [DynamicEpocher.epochBounds, if_neg (by omega)]
  exact bounds_eq scheduled.linked (scheduled.fits_epoch fits (by omega))

/-- **Looking up a height** inverts the bounds, within the visible range. -/
theorem Scheduled.containing_eq_some_iff (scheduled : Scheduled epocher) {info : EpochInfo} :
    epocher.containing height = some info ↔
      info.height = height ∧ info.epoch ≤ epocher.currentEpoch + 1 ∧
        bounds epocher.segments info.epoch = some (info.first, info.last) ∧
        info.first ≤ height ∧ height ≤ info.last := by
  obtain ⟨segment, found, epoch, same, low, high⟩ := exists_epochAt scheduled.linked height
  have found' : (epocher.segments.reverse.find? fun segment => segment.startHeight ≤ height) =
      some segment := found
  simp only [containing, found', Option.bind_eq_bind, Option.bind_some, ← same,
    Option.bind_eq_some_iff, checkedAdd_eq_some_iff]
  constructor
  · rintro ⟨_, ⟨rfl, -⟩, result⟩
    split at result
    · cases result
    · next visible =>
      obtain ⟨⟨first, last⟩, within, same⟩ := Option.bind_eq_some_iff.mp result
      obtain rfl := Option.some.inj same
      have bounded := (bounds_eq_some_iff scheduled.linked).mp within
      change firstHeight epocher.newestFirst epoch = first ∧
        firstHeight epocher.newestFirst (epoch + 1) = last + 1 ∧ last ≤ u64Max at bounded
      exact ⟨rfl, Nat.le_of_not_lt visible, within, show first ≤ height by omega,
        show height ≤ last by omega⟩
  · rintro ⟨rfl, visible, within, above, below⟩
    have bounded := (bounds_eq_some_iff scheduled.linked).mp within
    change firstHeight epocher.newestFirst info.epoch = info.first ∧
      firstHeight epocher.newestFirst (info.epoch + 1) = info.last + 1 ∧
      info.last ≤ u64Max at bounded
    have here : epoch = info.epoch :=
      epoch_unique scheduled.linked low high (by omega) (by omega)
    -- every epoch has a height of its own, so epochs are no wider than heights
    have wide := (firstHeight_strictMono scheduled.linked).le_apply (x := info.epoch)
    subst here
    refine ⟨_, ⟨rfl, by omega⟩, ?_⟩
    rw [if_neg (Nat.not_lt.mpr visible), within]
    rfl

theorem Scheduled.containing_iff (scheduled : Scheduled epocher) (height : Nat)
    (info : EpochInfo) :
    epocher.containing height = some info ↔
      info.height = height ∧ info.epoch ≤ epocher.currentEpoch + 1 ∧
        epocher.epochBounds info.epoch = some (info.first, info.last) ∧
        info.first ≤ height ∧ height ≤ info.last := by
  rw [scheduled.containing_eq_some_iff]
  refine and_congr_right fun _ => and_congr_right fun visible => ?_
  rw [DynamicEpocher.epochBounds, if_neg (Nat.not_lt.mpr visible)]

/-- **Beyond the visible range there is no epoch.** -/
theorem Scheduled.containing_eq_none (scheduled : Scheduled epocher) (fits : Fits epocher)
    (beyond : firstHeight epocher.newestFirst (epocher.currentEpoch + 2) ≤ height) :
    epocher.containing height = none := by
  rw [Option.eq_none_iff_forall_ne_some]
  intro info found
  obtain ⟨-, visible, within, -, below⟩ := (scheduled.containing_iff height info).mp found
  rw [scheduled.epochBounds fits visible] at within
  obtain ⟨-, last⟩ := Prod.mk.inj (Option.some.inj within)
  have mono := (firstHeight_strictMono scheduled.linked).monotone
    (show info.epoch + 1 ≤ epocher.currentEpoch + 2 by omega)
  have pos := firstHeight_succ_pos scheduled.linked info.epoch
  omega

/-! ### Steps -/

/-- Where the last segment starts, an epoch starts with it. -/
theorem first_of_last (older : List Segment) {segment : Segment} {first last : Nat}
    (result : bounds (older ++ [segment]) segment.startEpoch = some (first, last)) :
    first = segment.startHeight := by
  have found : (older ++ [segment]).reverse.find?
      (fun other => decide (other.startEpoch ≤ segment.startEpoch)) = some segment := by
    rw [List.reverse_append]
    exact List.find?_cons_of_pos (by simp)
  unfold bounds at result
  simp only [found, Option.bind_eq_bind, Option.bind_some] at result
  obtain ⟨offset, product, rest⟩ := Option.bind_eq_some_iff.mp result
  obtain ⟨start, sum, rest⟩ := Option.bind_eq_some_iff.mp rest
  obtain ⟨finish, -, same⟩ := Option.bind_eq_some_iff.mp rest
  obtain ⟨rfl, -⟩ := Prod.mk.inj (Option.some.inj same)
  obtain ⟨rfl, -⟩ := checkedMul_eq_some_iff.mp product
  obtain ⟨rfl, -⟩ := checkedAdd_eq_some_iff.mp sum
  simp

/-- The segments that an update leaves alone. -/
def settled (epocher : DynamicEpocher) : List Segment :=
  if (epocher.segments.getLast epocher.nonempty).startEpoch = epocher.currentEpoch + 2 then
    epocher.segments.dropLast
  else epocher.segments

theorem settled_subset : epocher.settled ⊆ epocher.segments := by
  unfold settled
  split
  · exact List.dropLast_subset _
  · exact List.Subset.refl _

/-- **What an update does**, and when: none of the conditions is about the new length. -/
theorem updateLength_eq_some_iff {positive : 0 < length} :
    epocher.updateLength length positive = some epocher' ↔
      epocher.currentEpoch + 2 ≤ u64Max ∧
      (epocher.segments.getLast epocher.nonempty).startEpoch ≤ epocher.currentEpoch + 2 ∧
      ∃ first last, bounds epocher.segments (epocher.currentEpoch + 2) = some (first, last) ∧
        epocher'.currentEpoch = epocher.currentEpoch ∧
        epocher'.segments = epocher.settled ++ [⟨epocher.currentEpoch + 2, first, length⟩] := by
  by_cases small : epocher.currentEpoch + 2 ≤ u64Max
  · have target : checkedAdd epocher.currentEpoch 2 = some (epocher.currentEpoch + 2) :=
      checkedAdd_of_le small
    unfold updateLength settled
    rw [target]
    dsimp only
    by_cases early :
        epocher.currentEpoch + 2 < (epocher.segments.getLast epocher.nonempty).startEpoch
    · rw [if_pos early]
      exact ⟨nofun, fun both => absurd both.2.1 (Nat.not_le.mpr early)⟩
    · rw [if_neg early]
      cases reached : bounds epocher.segments (epocher.currentEpoch + 2) with
      | none =>
        refine ⟨nofun, fun both => ?_⟩
        obtain ⟨-, -, _, _, absurd_, -⟩ := both
        cases absurd_
      | some pair =>
        obtain ⟨first, last⟩ := pair
        dsimp only
        by_cases same : (epocher.segments.getLast epocher.nonempty).startEpoch =
            epocher.currentEpoch + 2
        · -- the overwritten segment starts where the epoch starts
          have split_ := List.dropLast_append_getLast epocher.nonempty
          have starts : first = (epocher.segments.getLast epocher.nonempty).startHeight := by
            rw [← split_, ← same] at reached
            exact first_of_last epocher.segments.dropLast reached
          rw [if_pos same, if_pos same, Option.some_inj]
          constructor
          · rintro rfl
            refine ⟨small, Nat.le_of_not_lt early, first, last, rfl, rfl, ?_⟩
            rw [starts, ← same]
          · rintro ⟨-, -, _, _, pair, current, segments⟩
            obtain ⟨rfl, rfl⟩ := Prod.mk.inj (Option.some.inj pair)
            refine DynamicEpocher.ext ?_ current.symm
            rw [segments, starts, ← same]
        · rw [if_neg same, if_neg same, Option.some_inj]
          constructor
          · rintro rfl
            exact ⟨small, Nat.le_of_not_lt early, first, last, rfl, rfl, rfl⟩
          · rintro ⟨-, -, _, _, pair, current, segments⟩
            obtain ⟨rfl, rfl⟩ := Prod.mk.inj (Option.some.inj pair)
            exact DynamicEpocher.ext segments.symm current.symm
  · have target : checkedAdd epocher.currentEpoch 2 = none := if_neg small
    unfold updateLength
    rw [target]
    exact ⟨nofun, fun both => absurd both.1 small⟩

/-- What an update does to the segments: it gives the newest one another length, or puts one in
front of it. -/
theorem Scheduled.of_updateLength (scheduled : Scheduled epocher) {positive : 0 < length}
    {updated : DynamicEpocher} (result : epocher.updateLength length positive = some updated) :
    Scheduled updated ∧ updated.currentEpoch = epocher.currentEpoch ∧
      (∀ epoch ≤ epocher.currentEpoch + 2,
        firstHeight updated.newestFirst epoch = firstHeight epocher.newestFirst epoch) ∧
      ((∀ segment ∈ epocher.segments, segment.startEpoch ≠ epocher.currentEpoch + 2) →
        ∃ start, updated.segments =
          epocher.segments ++ [⟨epocher.currentEpoch + 2, start, length⟩]) := by
  obtain ⟨segments, current, nonempty, allPositive⟩ := epocher
  -- split off the newest segment
  obtain ⟨older, newest, rfl⟩ : ∃ older newest, segments = older ++ [newest] :=
    ⟨segments.dropLast, segments.getLast nonempty, (List.dropLast_append_getLast nonempty).symm⟩
  have ahead : newest.startEpoch ≤ current + 2 :=
    scheduled.ahead newest (List.mem_append_right _ (List.mem_singleton_self _))
  have linked : Linked (newest :: older.reverse) := by
    have linked := scheduled.linked
    rwa [newestFirst, List.reverse_append] at linked
  have reversed : (older ++ [newest]).reverse = newest :: older.reverse := List.reverse_append
  have governs : firstHeight (newest :: older.reverse) (current + 2) =
      newest.startHeight + (current + 2 - newest.startEpoch) * newest.length := if_pos ahead
  unfold DynamicEpocher.updateLength at result
  cases target : checkedAdd current 2 with
  | none =>
    rw [target] at result
    cases result
  | some targetEpoch =>
  obtain ⟨rfl, -⟩ := checkedAdd_eq_some_iff.mp target
  simp only [target, List.getLast_append_singleton, if_neg (Nat.not_lt.mpr ahead),
    List.dropLast_concat] at result
  cases start : DynamicEpocher.bounds (older ++ [newest]) (current + 2) with
  | none =>
    rw [start] at result
    cases result
  | some pair =>
  obtain ⟨startHeight, last⟩ := pair
  have starts : firstHeight (newest :: older.reverse) (current + 2) = startHeight := by
    have bounded := ((bounds_eq_some_iff scheduled.linked).mp start).1
    rwa [reversed] at bounded
  simp only [start] at result
  by_cases same : newest.startEpoch = current + 2
  · rw [if_pos same] at result
    obtain rfl := Option.some.inj result
    refine ⟨⟨?_, fun segment member => ?_⟩, rfl, fun epoch visible => ?_,
      fun apart => absurd same (apart newest (List.mem_append_right _ (List.mem_singleton_self _)))⟩
    · rw [newestFirst, List.reverse_append]
      cases rest : older.reverse with
      | nil =>
        rw [rest] at linked
        exact ⟨linked.1, linked.2.1, positive⟩
      | cons previous =>
        rw [rest] at linked
        exact ⟨linked.1, linked.2.1, positive, linked.2.2.2⟩
    · rcases List.mem_append.mp member with old | new
      · exact scheduled.ahead segment (List.mem_append_left _ old)
      · rw [List.mem_singleton.mp new]
        exact ahead
    · have visible : epoch ≤ current + 2 := visible
      rw [newestFirst, newestFirst, List.reverse_append, reversed]
      simp only [List.reverse_singleton, List.singleton_append, firstHeight]
      split
      · next now =>
        rw [show epoch - newest.startEpoch = 0 by omega, Nat.zero_mul, Nat.zero_mul]
      · rfl
  · rw [if_neg same] at result
    obtain rfl := Option.some.inj result
    refine ⟨⟨?_, fun segment member => ?_⟩, rfl, fun epoch visible => ?_, fun _ => ⟨_, rfl⟩⟩
    · rw [newestFirst, List.reverse_append, reversed]
      exact ⟨lt_of_le_of_ne ahead same, starts.symm.trans governs, positive, linked⟩
    · rcases List.mem_append.mp member with old | new
      · exact scheduled.ahead segment old
      · rw [List.mem_singleton.mp new]
    · have visible : epoch ≤ current + 2 := visible
      rw [newestFirst, newestFirst, List.reverse_append, reversed]
      simp only [List.reverse_singleton, List.singleton_append]
      rw [firstHeight]
      split
      · next now =>
        have now : current + 2 ≤ epoch := now
        obtain rfl : epoch = current + 2 := by omega
        rw [Nat.sub_self, Nat.zero_mul, Nat.add_zero, starts]
      · rfl

/-- An update goes through while the heights fit. -/
theorem Scheduled.exists_updateLength (scheduled : Scheduled epocher) (fits : Fits epocher)
    (positive : 0 < length) : ∃ updated, epocher.updateLength length positive = some updated := by
  have epochs := fits.epochs
  have target : checkedAdd epocher.currentEpoch 2 = some (epocher.currentEpoch + 2) :=
    checkedAdd_of_le (by rw [u64Max]; omega)
  have ahead := scheduled.ahead _ (List.getLast_mem epocher.nonempty)
  unfold DynamicEpocher.updateLength
  simp only [target, if_neg (Nat.not_lt.mpr ahead),
    bounds_eq scheduled.linked (scheduled.fits_epoch fits le_rfl)]
  split
  · exact ⟨_, rfl⟩
  · exact ⟨_, rfl⟩

theorem Scheduled.advanceEpoch (scheduled : Scheduled epocher) :
    Scheduled (epocher.advanceEpoch (epocher.currentEpoch + 1)) :=
  ⟨scheduled.linked, fun segment member => (scheduled.ahead segment member).trans (by
    show epocher.currentEpoch + 2 ≤ epocher.currentEpoch + 1 + 2
    omega)⟩

end Scheduled

/-- A step of a schedule: a new length or the next epoch, with all heights below `2 ^ 64`. -/
inductive Steps (epocher : DynamicEpocher) : DynamicEpocher → Prop where
  | update (length : Nat) (positive : 0 < length) {updated : DynamicEpocher}
      (result : epocher.updateLength length positive = some updated) (fits : Fits updated) :
    Steps epocher updated
  | advance (fits : Fits (epocher.advanceEpoch (epocher.currentEpoch + 1))) :
    Steps epocher (epocher.advanceEpoch (epocher.currentEpoch + 1))

abbrev Reaches : DynamicEpocher → DynamicEpocher → Prop := Relation.ReflTransGen Steps

section Runs

variable {epocher epocher' : DynamicEpocher}

theorem Steps.fits (step : Steps epocher epocher') : Fits epocher' := by
  cases step with
  | update _ _ _ fits => exact fits
  | advance fits => exact fits

/-- **A step keeps the schedule** and the visible first heights. -/
theorem Steps.scheduled (step : Steps epocher epocher') (scheduled : Scheduled epocher) :
    Scheduled epocher' ∧ epocher.currentEpoch ≤ epocher'.currentEpoch ∧
      ∀ epoch ≤ epocher.currentEpoch + 2,
        firstHeight epocher'.newestFirst epoch = firstHeight epocher.newestFirst epoch := by
  cases step with
  | update length positive result _ =>
    obtain ⟨scheduled', current, kept, -⟩ := scheduled.of_updateLength result
    exact ⟨scheduled', current.ge, kept⟩
  | advance _ => exact ⟨scheduled.advanceEpoch, Nat.le_succ _, fun _ _ => rfl⟩

/-- **A run keeps the schedule** and the visible first heights. -/
theorem Reaches.scheduled (run : Reaches epocher epocher') (scheduled : Scheduled epocher)
    (fits : Fits epocher) :
    Scheduled epocher' ∧ Fits epocher' ∧ epocher.currentEpoch ≤ epocher'.currentEpoch ∧
      ∀ epoch ≤ epocher.currentEpoch + 2,
        firstHeight epocher'.newestFirst epoch = firstHeight epocher.newestFirst epoch := by
  induction run with
  | refl => exact ⟨scheduled, fits, le_rfl, fun _ _ => rfl⟩
  | tail _ last ih =>
    obtain ⟨scheduled', fits', later, kept⟩ := ih
    obtain ⟨next, later', kept'⟩ := last.scheduled scheduled'
    exact ⟨next, last.fits, later.trans later', fun epoch visible =>
      (kept' epoch (by omega)).trans (kept epoch visible)⟩

/-- Bounds that are visible stay. -/
theorem Reaches.epochBounds (run : Reaches epocher epocher') (scheduled : Scheduled epocher)
    (fits : Fits epocher) {epoch : Nat} (visible : epoch ≤ epocher.currentEpoch + 1) :
    epocher'.epochBounds epoch = epocher.epochBounds epoch := by
  obtain ⟨scheduled', fits', later, kept⟩ := run.scheduled scheduled fits
  rw [scheduled'.epochBounds fits' (by omega), scheduled.epochBounds fits visible,
    kept epoch (by omega), kept (epoch + 1) (by omega)]

end Runs

/-! ### Codec -/

theorem Linked.startEpoch_lt {older : List Segment} (linked : Linked (segment :: older)) :
    ∀ other ∈ older, other.startEpoch < segment.startEpoch := by
  induction older generalizing segment with
  | nil => exact fun _ member => nomatch member
  | cons previous rest ih =>
    have later : previous.startEpoch < segment.startEpoch := linked.1
    intro other member
    rcases List.mem_cons.mp member with rfl | old
    · exact later
    · exact (ih (linked.older (List.cons_ne_nil _ _)).1 other old).trans later

/-- Every segment starts where the sequence leads to. -/
theorem Linked.governs (linked : Linked segments) :
    ∀ segment ∈ segments, firstHeight segments segment.startEpoch = segment.startHeight ∧
      lengthAt segments segment.startEpoch = segment.length := by
  induction segments with
  | nil => exact fun _ member => nomatch member
  | cons newest older ih =>
    intro segment member
    rcases List.mem_cons.mp member with rfl | old
    · rw [firstHeight_of_le le_rfl, lengthAt, if_pos le_rfl, Nat.sub_self, Nat.zero_mul]
      exact ⟨rfl, rfl⟩
    · have before := linked.startEpoch_lt segment old
      rw [firstHeight_of_lt before, lengthAt, if_neg (Nat.not_le.mpr before)]
      exact ih (linked.older (List.ne_nil_of_mem old)).1 segment old

theorem Scheduled.small (scheduled : Scheduled epocher) (fits : Fits epocher) :
    ∀ segment ∈ epocher.segments, segment.startEpoch < 2 ^ 64 ∧ segment.startHeight < 2 ^ 64 ∧
      segment.length < 2 ^ 64 := by
  intro segment member
  have ahead := scheduled.ahead segment member
  have epochs := fits.epochs
  have heights := fits.heights
  have mono := firstHeight_strictMono scheduled.linked
  obtain ⟨start, length⟩ := scheduled.linked.governs segment (List.mem_reverse.mpr member)
  have next := firstHeight_succ scheduled.linked segment.startEpoch
  rw [start, length] at next
  have below := mono (show segment.startEpoch < epocher.currentEpoch + 3 by omega)
  refine ⟨by omega, by omega, ?_⟩
  rcases Nat.lt_or_ge (segment.startEpoch + 1) (epocher.currentEpoch + 3) with inside | last
  · have small := mono inside
    omega
  · -- the newest segment starts above height zero
    have high := mono (show 0 < segment.startEpoch by omega)
    have whole := mono.monotone (show segment.startEpoch + 1 ≤ epocher.currentEpoch + 3 by omega)
    omega

theorem reads_segment (positive : 0 < segment.length) (epoch : segment.startEpoch < 2 ^ 64)
    (height : segment.startHeight < 2 ^ 64) (length : segment.length < 2 ^ 64) :
    Reads Segment.read (Segment.encode segment) ⟨segment, positive⟩ := by
  have last : Reads (if positive : 0 < segment.length then
        return (⟨segment, positive⟩ : { segment : Segment // 0 < segment.length })
      else Reader.fail (.invalid "DynamicEpocher" "zero-length segment")) [] ⟨segment, positive⟩ := by
    rw [dif_pos positive]
    exact reads_pure _
  refine Reads.congr ((reads_be epoch).bind ((reads_be height).bind ((reads_be length).bind last)))
    ?_ rfl
  rw [Segment.encode, List.append_nil, List.append_assoc]

/-- The segments with the proof that they are not empty. -/
def checkedSegments (epocher : DynamicEpocher) : List { segment : Segment // 0 < segment.length } :=
  epocher.segments.pmap Subtype.mk epocher.positive

theorem map_val_checkedSegments (epocher : DynamicEpocher) :
    epocher.checkedSegments.map Subtype.val = epocher.segments := by
  rw [checkedSegments, List.map_pmap, List.pmap_eq_map, List.map_id']

theorem flatMap_checkedSegments (epocher : DynamicEpocher) :
    epocher.checkedSegments.flatMap (fun segment => (Segment.encode segment.val)) =
      epocher.segments.flatMap Segment.encode := by
  rw [← map_val_checkedSegments epocher, List.flatMap_map]

/-- The numbers and the length of the schedule fit their fields. -/
structure Small (epocher : DynamicEpocher) : Prop where
  currentEpoch : epocher.currentEpoch < 2 ^ 64
  segments : ∀ segment ∈ epocher.segments, segment.startEpoch < 2 ^ 64 ∧
    segment.startHeight < 2 ^ 64 ∧ segment.length < 2 ^ 64
  few : epocher.segments.length < 2 ^ 32

/-- **A schedule is read back as it was written**, when its numbers fit. -/
theorem Small.reads (small : epocher.Small) : Reads read epocher.encode epocher := by
  have nonempty : epocher.checkedSegments ≠ [] := fun none_ => epocher.nonempty (by
    rw [← map_val_checkedSegments, none_]
    rfl)
  have count : epocher.checkedSegments.length = epocher.segments.length := List.length_pmap
  have each : ∀ segment ∈ epocher.checkedSegments,
      Reads Segment.read (Segment.encode segment.val) segment := by
    intro segment member
    have listed : segment.val ∈ epocher.segments :=
      map_val_checkedSegments epocher ▸ List.mem_map_of_mem member
    obtain ⟨epoch, height, length⟩ := small.segments segment.val listed
    exact reads_segment segment.property epoch height length
  have last : Reads (if nonempty : epocher.checkedSegments ≠ [] then
        return ({ segments := epocher.checkedSegments.map Subtype.val
                  currentEpoch := epocher.currentEpoch
                  nonempty := fun none_ => nonempty (List.map_eq_nil_iff.mp none_)
                  positive := by
                    intro segment member
                    obtain ⟨found, -, rfl⟩ := List.mem_map.mp member
                    exact found.property } : DynamicEpocher)
      else Reader.fail (.invalid "DynamicEpocher" "no segments")) [] epocher := by
    rw [dif_pos nonempty]
    refine Reads.congr (reads_pure _) rfl ?_
    exact DynamicEpocher.ext (map_val_checkedSegments epocher) rfl
  have segments := reads_many each
  rw [count] at segments
  refine Reads.congr
    ((reads_be small.currentEpoch).bind ((reads_be small.few).bind (segments.bind last))) ?_ rfl
  rw [encode, flatMap_checkedSegments, List.append_nil, List.append_assoc]

/-- A schedule whose heights fit is read back, while its number of segments fits the length field. -/
theorem Scheduled.reads (scheduled : Scheduled epocher) (fits : Fits epocher)
    (few : epocher.segments.length < 2 ^ 32) : Reads read epocher.encode epocher := by
  have epochs := fits.epochs
  exact Small.reads ⟨by omega, scheduled.small fits, few⟩

/-! ### Schedules of any number of segments -/

/-- Every segment has length one. -/
def UnitLengths (epocher : DynamicEpocher) : Prop := ∀ segment ∈ epocher.segments, segment.length = 1

theorem lengthAt_of_unit (linked : Linked segments)
    (unit : ∀ segment ∈ segments, segment.length = 1) (epoch : Nat) :
    lengthAt segments epoch = 1 := by
  obtain ⟨segment, found, -, length, -⟩ := find?_startEpoch linked epoch
  rw [← length]
  exact unit segment (List.mem_of_find?_eq_some found)

theorem UnitLengths.firstHeight (unit : epocher.UnitLengths) (scheduled : Scheduled epocher)
    (epoch : Nat) : DynamicEpocher.firstHeight epocher.newestFirst epoch = epoch := by
  induction epoch with
  | zero => exact firstHeight_zero scheduled.linked
  | succ epoch ih =>
    rw [firstHeight_succ scheduled.linked, ih, lengthAt_of_unit scheduled.linked]
    exact fun segment member => unit segment (List.mem_reverse.mp member)

theorem UnitLengths.fits (unit : epocher.UnitLengths) (scheduled : Scheduled epocher)
    (small : epocher.currentEpoch < 2 ^ 33) : Fits epocher := by
  refine ⟨?_, by omega⟩
  rw [unit.firstHeight scheduled]
  omega

/-- In each of `count` epochs the length is set to one. -/
theorem exists_unit_run {count : Nat} (small : count ≤ 2 ^ 32) :
    ∃ epocher, Reaches (new 1 Nat.one_pos) epocher ∧ epocher.currentEpoch = count ∧
      epocher.segments.length = count + 1 ∧ epocher.UnitLengths ∧ Scheduled epocher ∧
      ∀ segment ∈ epocher.segments, segment.startEpoch < epocher.currentEpoch + 2 := by
  induction count with
  | zero =>
    refine ⟨new 1 Nat.one_pos, .refl, rfl, rfl, ?_, scheduled_new Nat.one_pos, ?_⟩
    · exact fun segment member => by rw [List.mem_singleton.mp member]
    · exact fun segment member => by
        rw [List.mem_singleton.mp member]
        exact Nat.succ_pos _
  | succ count ih =>
    obtain ⟨epocher, run, current, length, unit, scheduled, before⟩ := ih (by omega)
    have fits := unit.fits scheduled (by omega)
    obtain ⟨updated, result⟩ := scheduled.exists_updateLength fits Nat.one_pos
    obtain ⟨scheduled', current', -, segments⟩ := scheduled.of_updateLength result
    obtain ⟨start, segments⟩ := segments fun segment member => (before segment member).ne
    have unit' : updated.UnitLengths := by
      intro segment member
      rw [segments] at member
      rcases List.mem_append.mp member with old | new
      · exact unit segment old
      · rw [List.mem_singleton.mp new]
    have update : Steps epocher updated :=
      .update 1 Nat.one_pos result (unit'.fits scheduled' (by omega))
    have next := scheduled'.advanceEpoch
    have unit'' : (updated.advanceEpoch (updated.currentEpoch + 1)).UnitLengths := unit'
    have advance : Steps updated _ :=
      .advance (unit''.fits next (show updated.currentEpoch + 1 < 2 ^ 33 by omega))
    refine ⟨_, (run.tail update).tail advance, ?_, ?_, unit'', next, ?_⟩
    · show updated.currentEpoch + 1 = count + 1
      rw [current', current]
    · show updated.segments.length = count + 1 + 1
      rw [segments, List.length_append, length]
      rfl
    · exact fun segment member => Nat.lt_succ_of_le (scheduled'.ahead segment member)

end DynamicEpocher

open DynamicEpocher

/-- **The schedule partitions the heights.** In every run of updates and advances whose heights and
epochs stay below their bounds, an update succeeds and leaves the visible epochs; these follow one
another from height zero on, and looking up a height inverts their bounds; bounds that are visible
never change; and a schedule with fewer than `2 ^ 32` segments is decoded as it was encoded. -/
theorem epochSchedule_partition {length : Nat} (positive : 0 < length)
    (fits : Fits (new length positive)) {epocher : DynamicEpocher}
    (run : Reaches (new length positive) epocher) :
    (∀ newLength (positive : 0 < newLength), ∃ updated,
      epocher.updateLength newLength positive = some updated ∧
      ∀ epoch ≤ epocher.currentEpoch + 1, updated.epochBounds epoch = epocher.epochBounds epoch) ∧
    (epocher.first 0 = some 0 ∧ ∀ epoch ≤ epocher.currentEpoch + 1, ∃ first last,
      epocher.first epoch = some first ∧ epocher.last epoch = some last ∧ first ≤ last ∧
      (epoch ≤ epocher.currentEpoch → epocher.first (epoch + 1) = some (last + 1))) ∧
    (∀ height info, epocher.containing height = some info ↔
      info.height = height ∧ info.epoch ≤ epocher.currentEpoch + 1 ∧
        epocher.first info.epoch = some info.first ∧ epocher.last info.epoch = some info.last ∧
        info.first ≤ height ∧ height ≤ info.last) ∧
    (∀ last, epocher.last (epocher.currentEpoch + 1) = some last →
      ∀ height, last < height → epocher.containing height = none) ∧
    (∀ later, Reaches epocher later → ∀ epoch ≤ epocher.currentEpoch + 1,
      later.epochBounds epoch = epocher.epochBounds epoch) ∧
    (epocher.segments.length < 2 ^ 32 → Reader.decode read epocher.encode = .ok epocher) := by
  obtain ⟨scheduled, fits, -, -⟩ := run.scheduled (scheduled_new positive) fits
  have visibleBounds {epoch : Nat} (visible : epoch ≤ epocher.currentEpoch + 1) :
      epocher.first epoch = some (firstHeight epocher.newestFirst epoch) ∧
        epocher.last epoch = some (firstHeight epocher.newestFirst (epoch + 1) - 1) := by
    rw [DynamicEpocher.first, DynamicEpocher.last, scheduled.epochBounds fits visible]
    exact ⟨rfl, rfl⟩
  have ascending (epoch : Nat) :=
    firstHeight_strictMono scheduled.linked (Nat.lt_add_one epoch)
  refine ⟨fun newLength positive => ?_, ⟨?_, fun epoch visible => ?_⟩, fun height info => ?_,
    fun last final height beyond => ?_, fun later onward epoch visible => ?_, fun few => ?_⟩
  · obtain ⟨updated, result⟩ := scheduled.exists_updateLength fits positive
    obtain ⟨scheduled', current, kept, -⟩ := scheduled.of_updateLength result
    refine ⟨updated, result, fun epoch visible => ?_⟩
    have whole := scheduled.fits_epoch fits (show epoch ≤ epocher.currentEpoch + 2 by omega)
    rw [← kept (epoch + 1) (by omega)] at whole
    rw [DynamicEpocher.epochBounds, current, if_neg (by omega), scheduled.epochBounds fits visible,
      ← kept epoch (by omega), ← kept (epoch + 1) (by omega)]
    exact bounds_eq scheduled'.linked whole
  · rw [(visibleBounds (Nat.zero_le _)).1, firstHeight_zero scheduled.linked]
  · obtain ⟨first, last⟩ := visibleBounds visible
    have above := ascending epoch
    refine ⟨_, _, first, last, by omega, fun inside => ?_⟩
    rw [(visibleBounds (show epoch + 1 ≤ epocher.currentEpoch + 1 by omega)).1,
      Nat.sub_add_cancel (by omega)]
  · rw [scheduled.containing_iff]
    refine and_congr_right fun _ => and_congr_right fun visible => ?_
    obtain ⟨first, last⟩ := visibleBounds visible
    rw [scheduled.epochBounds fits visible, first, last, Option.some_inj, Prod.mk.injEq,
      Option.some_inj, Option.some_inj, and_assoc]
  · rw [(visibleBounds le_rfl).2] at final
    refine scheduled.containing_eq_none fits ?_
    have above := ascending (epocher.currentEpoch + 1)
    have same := Option.some.inj final
    change firstHeight epocher.newestFirst (epocher.currentEpoch + 2) - 1 = last at same
    omega
  · exact onward.epochBounds scheduled fits visible
  · exact (scheduled.reads fits few).decode

/-- A genesis length and one longer epoch registered. -/
theorem epochSchedule_partition_longer :
    ∃ epocher, Fits (new 10 (by decide)) ∧ Reaches (new 10 (by decide)) epocher ∧
      epocher.segments = [⟨0, 0, 10⟩, ⟨2, 20, 15⟩] ∧
      Reader.decode read epocher.encode = .ok epocher := by
  have fits : Fits (new 10 (by decide)) := ⟨by decide, by decide⟩
  have computed : ((new 10 (by decide)).updateLength 15 (by decide)).map
      (fun updated => (updated.segments, updated.currentEpoch)) =
      some ([⟨0, 0, 10⟩, ⟨2, 20, 15⟩], 0) := by decide
  obtain ⟨epocher, result, facts⟩ := Option.map_eq_some_iff.mp computed
  obtain ⟨segments, current⟩ := Prod.mk.inj facts
  have fits' : Fits epocher := by
    refine ⟨?_, by rw [current]; decide⟩
    rw [newestFirst, segments, current]
    decide
  have run : Reaches (new 10 (by decide)) epocher := .single (.update 15 (by decide) result fits')
  have few : epocher.segments.length < 2 ^ 32 := by
    rw [segments]
    decide
  exact ⟨epocher, fits, run, segments,
    (epochSchedule_partition (by decide : 0 < 10) fits run).2.2.2.2.2 few⟩

/-- **A schedule of `2 ^ 32` segments is not decoded**: the length field wraps to zero. -/
theorem decode_fails_of_many_segments :
    ∃ epocher, Fits (new 1 Nat.one_pos) ∧ Reaches (new 1 Nat.one_pos) epocher ∧
      Reader.decode read epocher.encode = .error (.invalid "DynamicEpocher" "no segments") := by
  obtain ⟨epocher, run, current, length, -⟩ :=
    exists_unit_run (show 2 ^ 32 - 1 ≤ 2 ^ 32 by decide)
  refine ⟨epocher, ⟨by decide, by decide⟩, run, ?_⟩
  have epochs : epocher.currentEpoch < 256 ^ 8 := by
    rw [current]
    decide
  have count : beBytes 4 epocher.segments.length = beBytes 4 0 := by
    rw [length]
    decide
  have none_ : Reads (Reader.be 4) (beBytes 4 epocher.segments.length) 0 := by
    rw [count]
    exact reads_be (by decide)
  have run : DynamicEpocher.read.run epocher.encode =
      .error (.invalid "DynamicEpocher" "no segments") := by
    rw [encode, List.append_assoc, DynamicEpocher.read, (reads_be epochs).run_bind, none_.run_bind]
    rfl
  rw [Reader.decode, run]

end Summit
