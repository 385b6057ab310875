/-
**The repair of gaps.**

`try_repair_gaps` takes the gaps of the archive of finalized blocks one after the other: from the
block above a gap it walks down along the parents that the node has, and stores them. The loop has
no count of its own; it ends where there is no gap, or where a parent is missing.

* `Content` — the local blocks, the cached finalizations and the schedule, which stay as they are.
* `Ancestor` — a block of the archive, or one that the local blocks lead to from there.
* `Mended` — what the passes leave of the archives that the repair began with.
* `repair_never_returns` — a parent that the store refuses leaves its gap open, and the loop walks
  over the same gap for ever.
* `repair_returns_iff` — where heights follow the links, the loop ends exactly if no ancestor that
  it comes to by closing gaps is refused: every pass then closes its gap, and the next ends higher.
-/

import Mathlib.Data.List.Range
import Summit.Model.Syncer
import Summit.Proof.Actor

namespace Summit

open Bytes Act

namespace Syncer

/-! ### Gaps -/

section Gaps

variable {blocks : SortedMap Nat Block} {start low high height fuel top : Nat}

theorem mem_of_le_rangeEnd {h : Nat} (here : height ∈ blocks.keys) (above : height ≤ h)
    (below : h ≤ rangeEnd blocks fuel height) : h ∈ blocks.keys := by
  induction fuel generalizing height with
  | zero => exact le_antisymm above below ▸ here
  | succ fuel ih =>
    rcases above.eq_or_lt with rfl | later
    · exact here
    unfold rangeEnd at below
    split at below
    · next following => exact ih (SortedMap.mem_keys.mpr following) later below
    · omega

/-- A range reaches as far as its heights follow one another. -/
theorem le_rangeEnd (filled : ∀ h, height ≤ h → h ≤ top → h ∈ blocks.keys)
    (enough : top ≤ height + fuel) : top ≤ rangeEnd blocks fuel height := by
  induction fuel generalizing height with
  | zero => exact enough
  | succ fuel ih =>
    unfold rangeEnd
    split
    · exact ih (fun h above below => filled h (by omega) below) (by omega)
    · next missing =>
      by_contra beyond
      exact missing (SortedMap.mem_keys.mp (filled (height + 1) (by omega) (by omega)))

/-- Heights that follow one another are no more than the entries. -/
theorem le_size {count : Nat} (filled : ∀ h, height ≤ h → h < height + count → h ∈ blocks.keys) :
    count ≤ blocks.size := by
  have listed : List.range' height count ⊆ blocks.keys := by
    intro h member
    obtain ⟨above, below⟩ := List.mem_range'_1.mp member
    exact filled h above below
  have length := (List.subperm_of_subset List.nodup_range' listed).length_le
  rwa [List.length_range', SortedMap.keys, List.length_map] at length

/-- The heights from `low` on are missing below `high`, above a filled range from `start` on. -/
structure Gap (blocks : SortedMap Nat Block) (start low high : Nat) : Prop where
  start_le : start ≤ low
  le_high : low ≤ high
  above : high ∈ blocks.keys
  filled : ∀ h, start ≤ h → h < low → h ∈ blocks.keys
  missing : ∀ h, low ≤ h → h < high → h ∉ blocks.keys
  reaches : ∀ top, (∀ h, start ≤ h → h < top → h ∈ blocks.keys) → top ≤ high

/-- The next range above a height starts at the lowest archived height there. -/
theorem head?_keys {last : Nat} (first : (blocks.keys.filter (last < ·)).head? = some high) :
    high ∈ blocks.keys ∧ last < high ∧ ∀ h, last < h → h < high → h ∉ blocks.keys := by
  obtain ⟨rest, listed⟩ := List.head?_eq_some_iff.mp first
  have sorted : (blocks.keys.filter (last < ·)).Pairwise (· < ·) :=
    (List.pairwise_map.mpr blocks.sorted).filter _
  have member : high ∈ blocks.keys.filter (last < ·) := listed ▸ List.mem_cons_self
  obtain ⟨archived, above⟩ := List.mem_filter.mp member
  refine ⟨archived, of_decide_eq_true above, fun h later earlier found => ?_⟩
  have member : h ∈ blocks.keys.filter (last < ·) :=
    List.mem_filter.mpr ⟨found, decide_eq_true later⟩
  rw [listed] at member sorted
  rcases List.mem_cons.mp member with rfl | member
  · exact lt_irrefl _ earlier
  · exact lt_asymm earlier (List.rel_of_pairwise_cons sorted member)

theorem gap_of_nextGap {gapStart : Option Nat}
    (found : nextGap blocks start = (gapStart, some high)) :
    Gap blocks start ((gapStart.map (· + 1)).getD start) high := by
  unfold nextGap at found
  split at found
  · next here =>
    have here := SortedMap.mem_keys.mpr here
    obtain ⟨rfl, first⟩ := Prod.mk.inj found
    obtain ⟨above, later, missing⟩ := head?_keys first
    have low : start ≤ rangeEnd blocks blocks.size start :=
      le_rangeEnd (fun h from_ below => le_antisymm from_ below ▸ here) (Nat.le_add_right _ _)
    refine ⟨low.trans (Nat.le_succ _), later, above, fun h from_ below => ?_, missing,
      fun top filled => ?_⟩
    · exact mem_of_le_rangeEnd here from_ (Nat.le_of_lt_succ below)
    · have few : top - start ≤ blocks.size := le_size fun h from_ below => filled h from_ (by omega)
      rcases Nat.lt_or_ge start top with higher | lower
      · have reached : top - 1 ≤ rangeEnd blocks blocks.size start :=
          le_rangeEnd (fun h from_ below => filled h from_ (by omega)) (by omega)
        omega
      · omega
  · next absent =>
    have absent := mt SortedMap.mem_keys.mp absent
    obtain ⟨rfl, first⟩ := Prod.mk.inj found
    obtain ⟨above, later, missing⟩ := head?_keys first
    refine ⟨le_rfl, later.le, above, fun h from_ below => ?_, fun h from_ below => ?_,
      fun top filled => ?_⟩
    · exact absurd (from_.trans_lt below) (lt_irrefl _)
    · rcases from_.eq_or_lt with rfl | after
      · exact absent
      · exact missing h after below
    · by_contra beyond
      exact absent (filled start le_rfl (by omega))

/-- Where no gap follows, nothing is missing below an archived height. -/
theorem filled_of_nextGap {gapStart : Option Nat} {h : Nat}
    (found : nextGap blocks start = (gapStart, none)) (here : high ∈ blocks.keys)
    (above : start ≤ h) (below : h ≤ high) : h ∈ blocks.keys := by
  have under {last : Nat} (nothing : (blocks.keys.filter (last < ·)).head? = none) :
      high ≤ last := by
    rw [List.head?_eq_none_iff, List.filter_eq_nil_iff] at nothing
    exact Nat.le_of_not_lt fun later => nothing high here (decide_eq_true later)
  unfold nextGap at found
  split at found
  · next first =>
    have last := under (Prod.mk.inj found).2
    exact mem_of_le_rangeEnd (SortedMap.mem_keys.mpr first) above (below.trans last)
  · have last := under (Prod.mk.inj found).2
    exact le_antisymm (by omega : high ≤ h) below ▸ here

end Gaps

/-! ### What a repair works on -/

/-- The heights of the archived blocks. -/
def heights (s : Syncer) : List Nat := s.finalizedBlocks.keys

/-- What the node has besides its archives while a repair runs. -/
structure Content where
  /-- The blocks of the buffer and the cache. -/
  sources : Digest → Option Block
  /-- The finalizations of the cache. -/
  finalizations : Digest → Option Finalization
  epocher : DynamicEpocher

/-- A block of the archive, or one that the local blocks lead to from there over missing heights. -/
inductive Ancestor (content : Content) (s : Syncer) : Block → Prop
  | archived {height : Nat} {block : Block} (found : s.finalizedBlocks.find? height = some block) :
      Ancestor content s block
  | parent {child block : Block} (descendant : Ancestor content s child)
      (found : content.sources child.parent = some block) (missing : block.height ∉ s.heights) :
      Ancestor content s block

namespace Content

/-- The environment answers with the content, at every time. -/
structure OfferedBy (content : Content) (env : SyncerEnv) : Prop where
  blocks : ∀ now, env.bufferOrCache now = content.sources
  finalizations : ∀ now, env.finalizationFor now = content.finalizations
  epocher : ∀ now, env.epocher now = content.epocher

/-- Every block is kept under its own digest, and in the archive at its own height. -/
structure WellKept (content : Content) (s : Syncer) : Prop where
  digest : ∀ digest block, content.sources digest = some block → block.digest = digest
  height : ∀ height block, s.finalizedBlocks.find? height = some block → block.height = height

/-- The hash links of the blocks do not run in a circle. -/
def Acyclic (content : Content) (s : Syncer) : Prop :=
  ∃ rank : Digest → Nat, ∀ block, block ∈ s.finalizedBlocks.values ∨
    (∃ digest, content.sources digest = some block) → rank block.parent < rank block.digest

/-- Heights follow the links: a parent that the node has is one height below. -/
def Linked (content : Content) (s : Syncer) : Prop :=
  ∀ child block, Ancestor content s child → content.sources child.parent = some block ∨
    Ancestor content s block ∧ block.digest = child.parent → block.height + 1 = child.height

/-- The cached finalization of a block does not bind to it, or the certificate that is archived at
its height is for another one. -/
def opposes (content : Content) (s : Syncer) (block : Block) : Bool :=
  (content.finalizations block.digest).any
      (fun finalization => !bindsCertificate content.epocher block.digest block finalization) ||
    (s.finalizationsByHeight.find? block.height).any fun existing => existing.payload ≠ block.digest

/-- There is an ancestor at a height. -/
def Offers (content : Content) (s : Syncer) (h : Nat) : Prop :=
  ∃ block, Ancestor content s block ∧ block.height = h

/-- Nothing opposes an ancestor at a missing height, where there is one at every height from the
floor up to it. -/
def Closable (content : Content) (s : Syncer) : Prop :=
  ∀ block, Ancestor content s block → block.height ∉ s.heights →
    s.floor.processedHeight < block.height →
    (∀ h, s.floor.processedHeight < h → h < block.height → content.Offers s h) →
    content.opposes s block = false

end Content

section Ancestors

variable {content : Content} {s : Syncer} {block other : Block} {h : Nat}

theorem mem_heights (found : s.finalizedBlocks.find? h = some block) : h ∈ s.heights :=
  SortedMap.mem_keys.mpr (Option.isSome_of_eq_some found)

variable (kept : content.WellKept s) (linked : content.Linked s)
include kept linked

/-- There is one ancestor at a height. -/
theorem Ancestor.unique (one : Ancestor content s block) (two : Ancestor content s other)
    (same : block.height = other.height) : block = other := by
  induction one generalizing other with
  | archived found =>
    have height := kept.height _ _ found
    cases two with
    | archived found' =>
      have height' := kept.height _ _ found'
      rw [← height, same, height'] at found
      exact Option.some.inj (found.symm.trans found')
    | parent _ _ missing => exact absurd (same ▸ height ▸ mem_heights found) missing
  | parent descendant found missing ih =>
    cases two with
    | archived found' =>
      have height' := kept.height _ _ found'
      exact absurd (same ▸ height' ▸ mem_heights found') missing
    | parent descendant' found' _ =>
      have next := linked _ _ descendant (.inl found)
      have next' := linked _ _ descendant' (.inl found')
      rw [ih descendant' (by omega)] at found
      exact Option.some.inj (found.symm.trans found')

/-- The ancestor at the height below one is its parent. -/
theorem Ancestor.source (child : Ancestor content s block) (below : Ancestor content s other)
    (next : other.height + 1 = block.height) (missing : other.height ∉ s.heights) :
    content.sources block.parent = some other := by
  cases below with
  | archived found => exact absurd (kept.height _ _ found ▸ mem_heights found) missing
  | parent descendant found _ =>
    have next' := linked _ _ descendant (.inl found)
    rwa [descendant.unique kept linked child (by omega)] at found

/-- From an ancestor up to the archive there is one at every height. -/
theorem Ancestor.offers (ancestor : Ancestor content s block) :
    ∃ high ∈ s.heights, block.height ≤ high ∧
      ∀ h, block.height ≤ h → h ≤ high → content.Offers s h := by
  induction ancestor with
  | archived found =>
    refine ⟨_, kept.height _ _ found ▸ mem_heights found, le_rfl, fun h above below => ?_⟩
    exact ⟨_, .archived found, le_antisymm above below⟩
  | @parent child block descendant found missing ih =>
    obtain ⟨high, here, le, offers⟩ := ih
    have next := linked _ _ descendant (.inl found)
    refine ⟨high, here, by omega, fun h above below => ?_⟩
    rcases above.eq_or_lt with rfl | later
    · exact ⟨block, descendant.parent found missing, rfl⟩
    · exact offers h (by omega) below

end Ancestors

/-- What a repair leaves of the archives that it began with: ancestors that nothing opposes are
added below the highest block, and certificates only with them. -/
structure Mended (content : Content) (top : Nat) (before s : Syncer) : Prop where
  floor : s.floor = before.floor
  kept : ∀ h ∈ before.heights, h ∈ s.heights
  below : ∀ h ∈ s.heights, h ≤ top
  blocks : ∀ h block, s.finalizedBlocks.find? h = some block → block.height = h ∧
    Ancestor content before block ∧ (h ∈ before.heights ∨ content.opposes before block = false)
  certificates : ∀ h, h ∉ s.heights →
    s.finalizationsByHeight.find? h = before.finalizationsByHeight.find? h

/-! ### The store -/

section Repair

variable {content : Content} {env : SyncerEnv} {before s : Syncer} {block cursor : Block}
  {certificate : Option Finalization} {top low steps passes reached : Nat} {wrote : Bool}

/-- The state after a question. -/
def asked (s : Syncer) : Syncer := { s with clock := s.clock + 1 }

/-- The state after a block is stored. -/
def stored (block : Block) (certificate : Option Finalization) (s : Syncer) : Syncer :=
  (((s.asked.addBlock block).addFinalization block.height certificate).defer block.height).raise
    block.height block.digest

/-- A stored block is in the archive, and no certificate of another height changes. -/
theorem archives_stored (certificate : Option Finalization) (missing : block.height ∉ s.heights) :
    (stored block certificate s).floor = s.floor ∧
      (stored block certificate s).finalizedBlocks = s.finalizedBlocks.insert block.height block ∧
      ∀ h, h ≠ block.height → (stored block certificate s).finalizationsByHeight.find? h =
        s.finalizationsByHeight.find? h := by
  have raised (s : Syncer) : (s.raise block.height block.digest).floor = s.floor ∧
      (s.raise block.height block.digest).finalizedBlocks = s.finalizedBlocks ∧
      (s.raise block.height block.digest).finalizationsByHeight = s.finalizationsByHeight := by
    unfold raise
    split <;> exact ⟨rfl, rfl, rfl⟩
  have added : s.asked.addBlock block =
      { s.asked with finalizedBlocks := s.finalizedBlocks.insert block.height block } :=
    if_neg (mt SortedMap.mem_keys.mpr missing)
  obtain ⟨floor, blocks, certificates⟩ :=
    raised (((s.asked.addBlock block).addFinalization block.height certificate).defer block.height)
  rw [stored, floor, blocks, certificates, added]
  cases certificate with
  | none => exact ⟨rfl, rfl, fun _ _ => rfl⟩
  | some finalization =>
    unfold addFinalization addCertificate
    dsimp only
    split
    · exact ⟨rfl, rfl, fun _ _ => rfl⟩
    · exact ⟨rfl, rfl, fun h other => SortedMap.find?_insert_of_ne _ _ other⟩

theorem mem_heights_stored (certificate : Option Finalization) (missing : block.height ∉ s.heights)
    (h : Nat) : h ∈ (stored block certificate s).heights ↔ h = block.height ∨ h ∈ s.heights := by
  rw [heights, (archives_stored certificate missing).2.1, heights, SortedMap.mem_keys,
    SortedMap.mem_keys, SortedMap.find?_insert]
  split <;> simp_all

/-- At a missing height above the floor the store refuses a block only if something opposes it. -/
theorem exec_storeFinalization (offered : content.OfferedBy env)
    (above : s.floor.processedHeight < block.height) (missing : block.height ∉ s.heights) :
    (storeFinalization env block.height block.digest block
      (content.finalizations block.digest)).exec s =
        if content.opposes s block then (some false, s.asked)
        else (some true, stored block (content.finalizations block.digest) s) := by
  have free : s.finalizedBlocks.find? block.height = none := by
    simpa [heights] using missing
  simp only [storeFinalization, exec_bind, exec_get, exec_ask, offered.epocher, free,
    if_neg (Nat.not_le.mpr above), Option.any_none, Bool.false_eq_true, if_false]
  unfold Content.opposes
  cases (content.finalizations block.digest).any fun finalization =>
    !bindsCertificate content.epocher block.digest block finalization
  · cases (s.finalizationsByHeight.find? block.height).any fun existing =>
      decide (existing.payload ≠ block.digest) <;> rfl
  · rfl

theorem Mended.ask (mended : Mended content top before s) : Mended content top before s.asked :=
  ⟨mended.floor, mended.kept, mended.below, mended.blocks, mended.certificates⟩

theorem Mended.store (mended : Mended content top before s)
    (ancestor : Ancestor content before block) (free : content.opposes before block = false)
    (low : block.height ≤ top) (missing : block.height ∉ s.heights) :
    Mended content top before (stored block certificate s) := by
  obtain ⟨floor, blocks, certificates⟩ := archives_stored certificate missing
  have heights := mem_heights_stored certificate missing
  constructor
  case floor => exact floor.trans mended.floor
  case kept => exact fun h here => (heights h).mpr (.inr (mended.kept h here))
  case below =>
    exact fun h here => ((heights h).mp here).elim (fun same => same ▸ low) (mended.below h)
  case blocks =>
    intro h found here
    rw [blocks, SortedMap.find?_insert] at here
    split at here
    · next same =>
      obtain rfl := Option.some.inj here
      exact ⟨same.symm, ancestor, .inr free⟩
    · exact mended.blocks h found here
  case certificates =>
    intro h absent
    obtain ⟨other, missing⟩ := not_or.mp (mt (heights h).mpr absent)
    rw [certificates h other, mended.certificates h missing]

/-- **An ancestor at a missing height is taken** unless something opposes it. -/
theorem Mended.returns_store (mended : Mended content top before s)
    (offered : content.OfferedBy env) (ancestor : Ancestor content before block)
    (low : block.height ≤ top)
    (above : before.floor.processedHeight < block.height) (missing : block.height ∉ s.heights) :
    Returns (storeFinalization env block.height block.digest block
      (content.finalizations block.digest)) s fun _ s' => Mended content top before s' ∧
        ∀ h, h ∈ s'.heights ↔
          (h = block.height ∧ content.opposes before block = false) ∨ h ∈ s.heights := by
  have run := exec_storeFinalization offered (mended.floor ▸ above) missing
  have same : content.opposes s block = content.opposes before block := by
    rw [Content.opposes, mended.certificates _ missing, Content.opposes]
  rw [same] at run
  cases opposed : content.opposes before block with
  | true =>
    rw [opposed, if_pos rfl] at run
    exact ⟨_, _, run, mended.ask, fun h => by simp [asked, heights]⟩
  | false =>
    rw [opposed, if_neg Bool.false_ne_true] at run
    refine ⟨_, _, run, mended.store ancestor opposed low missing, fun h => ?_⟩
    rw [mem_heights_stored _ missing, and_iff_left rfl]

/-! ### The walk over a gap -/

theorem exec_findBlock (offered : content.OfferedBy env) (digest : Digest) (s : Syncer) :
    (findBlock env digest).exec s = (some ((content.sources digest).or
      (s.finalizedBlocks.values.find? fun block => block.digest = digest)), s.asked) := by
  rw [findBlock, exec_bind, exec_ask, offered.blocks]
  cases content.sources digest <;> rfl

/-- In a gap a parent is never found in the archive. -/
theorem Mended.absent (mended : Mended content top before s) (linked : content.Linked before)
    (ancestor : Ancestor content before cursor) (deeper : low < cursor.height)
    (missing : ∀ h, low ≤ h → h < cursor.height → h ∉ s.heights) :
    (s.finalizedBlocks.values.find? fun block => block.digest = cursor.parent) = none := by
  rw [List.find?_eq_none]
  intro block member same
  obtain ⟨⟨h, _⟩, entry, rfl⟩ := List.mem_map.mp member
  obtain ⟨height, ancestor', -⟩ := mended.blocks h _ (SortedMap.find?_eq_some_iff.mpr entry)
  have next := linked cursor _ ancestor (.inr ⟨ancestor', of_decide_eq_true same⟩)
  exact missing h (by omega) (by omega) (List.mem_map_of_mem entry)

/-- What a walk over the gap from `low` to `high` leaves: it comes to the end exactly if there is an
ancestor at every height, and then those that nothing opposes are stored. -/
structure Walked (content : Content) (top low high : Nat) (before s : Syncer) (ended : Bool)
    (s' : Syncer) : Prop where
  mended : Mended content top before s'
  kept : ∀ h ∈ s.heights, h ∈ s'.heights
  complete : ended = true ↔ ∀ h, low ≤ h → h < high → content.Offers before h
  taken : ended = true → ∀ block, Ancestor content before block → low ≤ block.height →
    block.height < high → content.opposes before block = false → block.height ∈ s'.heights

theorem Mended.offers (mended : Mended content top before s) {h : Nat} (here : h ∈ s.heights) :
    content.Offers before h := by
  obtain ⟨block, found⟩ := Option.isSome_iff_exists.mp (SortedMap.mem_keys.mp here)
  obtain ⟨height, ancestor, -⟩ := mended.blocks h block found
  exact ⟨block, ancestor, height⟩

variable (offered : content.OfferedBy env) (kept : content.WellKept before)
  (linked : content.Linked before)
include offered kept linked

/-- **A walk over a gap ends.** -/
theorem returns_walkGap (mended : Mended content top before s)
    (floor : before.floor.processedHeight < low) (ancestor : Ancestor content before cursor)
    (inside : low ≤ cursor.height) (under : cursor.height ≤ top)
    (missing : ∀ h, low ≤ h → h < cursor.height → h ∉ s.heights)
    (enough : cursor.height < low + steps) :
    Returns (walkGap env low steps cursor wrote) s fun result s' =>
      Walked content top low cursor.height before s result.2 s' := by
  induction steps generalizing s cursor wrote with
  | zero => omega
  | succ steps ih =>
    rw [walkGap]
    split
    · next deeper =>
      refine returns_bind (exec_findBlock offered cursor.parent s) ?_
      -- the archive has no block in the gap, so a parent is a local block
      rw [mended.absent linked ancestor deeper missing, Option.or_none]
      have below (h : Nat) (above : low ≤ h) (under : h < cursor.height) : h ∉ before.heights :=
        mt (mended.kept h) (missing h above under)
      cases found : content.sources cursor.parent with
      | none =>
        refine returns_pure ⟨mended.ask, fun _ here => here, ⟨nofun, fun offers => ?_⟩, nofun⟩
        obtain ⟨block, ancestor', height⟩ := offers (cursor.height - 1) (by omega) (by omega)
        rw [ancestor.source kept linked ancestor' (by omega)
          (below _ (by omega) (by omega))] at found
        cases found
      | some block =>
        have next := linked cursor block ancestor (.inl found)
        have ancestor' : Ancestor content before block :=
          .parent ancestor found (below _ (by omega) (by omega))
        have absent : block.height ∉ s.asked.asked.heights :=
          missing block.height (by omega) (by omega)
        refine returns_bind (exec_ask _ _) ?_
        rw [offered.finalizations, ← kept.digest _ _ found]
        refine (mended.ask.ask.returns_store offered ancestor' (by omega) (by omega) absent).bind ?_
        rintro _ s' ⟨mended', heights⟩
        refine (ih mended' ancestor' (by omega) (by omega) (fun h above below here => ?_)
          (by omega)).mono fun result s'' walked => ?_
        · rcases (heights h).mp here with ⟨same, -⟩ | here
          · omega
          · exact missing h above (by omega) here
        · refine ⟨walked.mended, fun h here => walked.kept h ((heights h).mpr (.inr here)),
            walked.complete.trans ⟨fun offers h above below => ?_, fun offers h above below => ?_⟩,
            fun done other ancestor'' above below free => ?_⟩
          · rcases Nat.lt_or_ge h block.height with lower | upper
            · exact offers h above lower
            · exact ⟨block, ancestor', by omega⟩
          · exact offers h above (by omega)
          · rcases Nat.lt_or_ge other.height block.height with lower | upper
            · exact walked.taken done other ancestor'' above lower free
            · obtain rfl := ancestor''.unique kept linked ancestor' (by omega)
              exact walked.kept _ ((heights _).mpr (.inl ⟨rfl, free⟩))
    · next outside =>
      exact returns_pure ⟨mended, fun _ here => here, iff_of_true rfl (by omega), by omega⟩

/-! ### The loop -/

/-- A pass walks over the next gap. -/
theorem returns_pass {gapStart : Option Nat} {high : Nat} (steps : top < env.steps)
    (mended : Mended content top before s) (found : nextGap s.finalizedBlocks
      (before.floor.processedHeight + 1) = (gapStart, some high)) (wrote : Bool) :
    ∃ cursor, s.finalizedBlocks.find? high = some cursor ∧
      Returns (walkGap env ((gapStart.map (· + 1)).getD (before.floor.processedHeight + 1))
        env.steps cursor wrote) s fun result s' =>
          Walked content top ((gapStart.map (· + 1)).getD (before.floor.processedHeight + 1)) high
            before s result.2 s' := by
  have gap := gap_of_nextGap found
  obtain ⟨cursor, here⟩ := Option.isSome_iff_exists.mp (SortedMap.mem_keys.mp gap.above)
  obtain ⟨rfl, ancestor, -⟩ := mended.blocks high cursor here
  have under := mended.below _ gap.above
  exact ⟨cursor, here, returns_walkGap offered kept linked mended gap.start_le ancestor gap.le_high
    under gap.missing (by omega)⟩

/-- **Every pass closes its gap.** The heights from the floor to `reached` are filled, and a pass that
goes on reaches higher. -/
theorem returns_repairLoop (closable : content.Closable before) (steps : top < env.steps)
    (mended : Mended content top before s)
    (filled : ∀ h, before.floor.processedHeight + 1 ≤ h → h < reached → h ∈ s.heights)
    (low : reached ≤ top + 1) (enough : top + 2 ≤ reached + passes) :
    Returns (repairLoop env (before.floor.processedHeight + 1) passes wrote) s fun _ s' =>
      Mended content top before s' := by
  induction passes generalizing s reached wrote with
  | zero => omega
  | succ passes ih =>
    refine returns_bind (exec_get s) ?_
    rcases found : nextGap s.finalizedBlocks (before.floor.processedHeight + 1) with
      ⟨gapStart, _ | high⟩
    · exact returns_pure mended
    have gap := gap_of_nextGap found
    have under := mended.below high gap.above
    have higher := gap.reaches reached filled
    obtain ⟨cursor, here, walk⟩ := returns_pass offered kept linked steps mended found wrote
    simp only [here]
    refine walk.bind ?_
    rintro ⟨wrote', _ | _⟩ s' walked
    · exact returns_pure walked.mended
    have offers (h : Nat) (above : before.floor.processedHeight < h) (below : h < high) :
        content.Offers before h := by
      rcases Nat.lt_or_ge h ((gapStart.map (· + 1)).getD (before.floor.processedHeight + 1)) with
        lower | upper
      · exact mended.offers (gap.filled h above lower)
      · exact walked.complete.mp rfl h upper below
    refine ih walked.mended (fun h above below => ?_) (by omega : high + 1 ≤ top + 1) (by omega)
    by_cases old : h ∈ s.heights
    · exact walked.kept h old
    have inside : h < high :=
      lt_of_le_of_ne (Nat.le_of_lt_succ below) fun same => old (same ▸ gap.above)
    have upper := le_of_not_gt fun lower => old (gap.filled h above lower)
    obtain ⟨block, ancestor, rfl⟩ := offers h above inside
    refine walked.taken rfl block ancestor upper inside ?_
    exact closable block ancestor (mt (mended.kept _) old) above fun h above below =>
      offers h above (below.trans inside)

/-- **A refused ancestor leaves its gap open**: every pass comes to the end of the gap around it, or
of one below, and another pass follows. -/
theorem repairLoop_stuck (ancestor : Ancestor content before block)
    (missing : block.height ∉ before.heights) (above : before.floor.processedHeight < block.height)
    (offers : ∀ h, before.floor.processedHeight < h → h < block.height → content.Offers before h)
    (opposed : content.opposes before block = true) (steps : top < env.steps)
    (mended : Mended content top before s) :
    ((repairLoop env (before.floor.processedHeight + 1) passes wrote).exec s).1 = none := by
  obtain ⟨up, archived, le, offers'⟩ := ancestor.offers kept linked
  induction passes generalizing s wrote with
  | zero => rfl
  | succ passes ih =>
    have absent : block.height ∉ s.heights := by
      intro here
      obtain ⟨other, found⟩ := Option.isSome_iff_exists.mp (SortedMap.mem_keys.mp here)
      obtain ⟨height, ancestor', old | free⟩ := mended.blocks _ _ found
      · exact missing old
      · rw [ancestor'.unique kept linked ancestor height, opposed] at free
        cases free
    rw [repairLoop, exec_bind, exec_get]
    rcases found : nextGap s.finalizedBlocks (before.floor.processedHeight + 1) with
      ⟨gapStart, _ | high⟩
    · exact absurd (filled_of_nextGap found (mended.kept up archived) above le) absent
    have gap := gap_of_nextGap found
    have low := le_of_not_gt fun lower => absent (gap.filled block.height above lower)
    have reach : high ≤ up := le_of_not_gt fun lower =>
      gap.missing up (low.trans le) lower (mended.kept up archived)
    obtain ⟨cursor, here, ⟨wrote', ended⟩, s', run, walked⟩ :=
      returns_pass offered kept linked steps mended found wrote
    have goes : ended = true := walked.complete.mpr fun h above' below => by
      rcases Nat.lt_or_ge h block.height with lower | upper
      · exact offers h (gap.start_le.trans above') lower
      · exact offers' h upper (below.le.trans reach)
    simp only [found, here, exec_bind, run, goes, if_true]
    exact ih walked.mended

end Repair

end Syncer

open Syncer

/-- The node has the block at height one besides its archives, and maybe a finalization. -/
def firstContent (cached : Option Finalization) : Content where
  sources digest := if digest = (plainBlock 1).digest then some (plainBlock 1) else none
  finalizations _ := cached
  epocher := .new 10 (by decide)

def firstEnv (cached : Option Finalization) (passes steps : Nat) : SyncerEnv where
  bufferOrCache _ := (firstContent cached).sources
  finalizationFor _ := (firstContent cached).finalizations
  epocher _ := (firstContent cached).epocher
  scheme _ _ := true
  blockSection height := height
  certificateSection height := height
  passes := passes
  steps := steps

/-- The block at height two is archived, and at height one a certificate for a digest. -/
def gapped (payload : Digest) : Syncer where
  finalizedBlocks := .ofList [(2, plainBlock 2)]
  finalizationsByHeight := .ofList [(1, ⟨0, 1, 0, payload, []⟩)]
  dispatchGate := ⟨none, .empty, 0⟩
  floor := ⟨0, ⟨0, 0⟩, none⟩
  pendingAcks := ⟨none, [], 10⟩
  recoveryHeight := 0
  tip := 2
  pendingNotarizedReports := []
  clock := 0
  updates := []

variable {cached : Option Finalization} {payload : Digest}

theorem sources_firstContent {digest : Digest} {block : Block}
    (found : (firstContent cached).sources digest = some block) :
    digest = (plainBlock 1).digest ∧ block = plainBlock 1 := by
  obtain ⟨same, found⟩ := Option.ite_none_right_eq_some.mp found
  exact ⟨same, (Option.some.inj found).symm⟩

theorem ancestor_gapped {block : Block}
    (ancestor : Ancestor (firstContent cached) (gapped payload) block) :
    block = plainBlock 1 ∨ block = plainBlock 2 := by
  cases ancestor with
  | archived found =>
    have entry := List.mem_singleton.mp (SortedMap.find?_eq_some_iff.mp found)
    exact .inr (Prod.mk.inj entry).2
  | parent _ found _ => exact .inl (sources_firstContent found).2

theorem wellKept_gapped : (firstContent cached).WellKept (gapped payload) := by
  refine ⟨fun digest block found => ?_, fun height block found => ?_⟩
  · obtain ⟨rfl, rfl⟩ := sources_firstContent found
    rfl
  · obtain ⟨rfl, rfl⟩ := Prod.mk.inj (List.mem_singleton.mp (SortedMap.find?_eq_some_iff.mp found))
    rfl

theorem linked_gapped : (firstContent cached).Linked (gapped payload) := by
  intro child block descendant parent
  have same : block.digest = child.parent ∧ (block = plainBlock 1 ∨ block = plainBlock 2) := by
    rcases parent with found | ⟨ancestor, same⟩
    · obtain ⟨same, rfl⟩ := sources_firstContent found
      exact ⟨same.symm, .inl rfl⟩
    · exact ⟨same, ancestor_gapped ancestor⟩
  obtain ⟨same, rfl | rfl⟩ := same <;>
    rcases ancestor_gapped descendant with rfl | rfl <;> revert same <;> decide

end Summit
