/-
**The two parsers of execution requests.**

An entry of the execution layer groups requests of one type; `parse_eth_entry` cuts it into chunks
or records. Deposits and withdrawals have a fixed size, so the parse of a concatenation is that of
its parts (`chunksExact_append`) and a chunk whose keys do not decode stays alone. A parameter record
carries its length, and a body parses exactly when it is a concatenation of encodings
(`tryFromEthEntryBytes_eq_ok`). `Agrees` compares the parser of a single request with the codec,
field by field at the same offsets.
-/

import Summit.Proof.StateCodec

set_option linter.unusedSectionVars false

namespace Summit

open Bytes

section Parsers

variable [Crypto]

/-! ### Fields at their offsets -/

section Cursor

variable {β : Type} {bytes : List UInt8} {start n : Nat}

theorem run_takeBytes_at (next : List UInt8 → Reader β) (inside : start + n ≤ bytes.length) :
    (Reader.takeBytes n >>= next).run (bytes.drop start) =
      (next ((bytes.drop start).take n)).run (bytes.drop (start + n)) := by
  have enough : ¬ (bytes.drop start).length < n := by
    rw [List.length_drop]
    omega
  have taken : (Reader.takeBytes n).run (bytes.drop start) =
      .ok ((bytes.drop start).take n, bytes.drop (start + n)) := by
    rw [← List.drop_drop]
    exact if_neg enough
  rw [StateT.run_bind, taken]
  rfl

theorem run_fixed_at (next : FixedBytes n → Reader β) (inside : start + n ≤ bytes.length) :
    (Reader.fixed n >>= next).run (bytes.drop start) =
      (next (bytesAt n bytes start)).run (bytes.drop (start + n)) := by
  have same : FixedBytes.padded n ((bytes.drop start).take n) = bytesAt n bytes start := by
    have enough : n ≤ (bytes.drop start).length := by
      rw [List.length_drop]
      omega
    refine Subtype.ext ?_
    show ((bytes.drop start).take n ++ _).take n = (bytes.drop start ++ _).take n
    rw [List.take_append_of_le_length enough, List.take_append_of_le_length, List.take_take,
      Nat.min_self]
    rw [List.length_take_of_le enough]
  rw [Reader.fixed, bind_assoc, run_takeBytes_at _ inside, same.symm]
  rfl

theorem run_le_at (next : Nat → Reader β) (inside : start + 8 ≤ bytes.length) :
    (Reader.le 8 >>= next).run (bytes.drop start) =
      (next (u64At bytes start)).run (bytes.drop (start + 8)) := by
  rw [Reader.le, bind_assoc, run_takeBytes_at _ inside]
  rfl

theorem run_need {next : Unit → Reader β} {error : ReadError} (enough : n ≤ bytes.length) :
    (Reader.need n error >>= next).run bytes = (next ()).run (bytes.drop 0) := by
  have passed : (Reader.need n error).run bytes = .ok ((), bytes) :=
    if_neg (Nat.not_lt.mpr enough)
  rw [StateT.run_bind, passed]
  rfl

theorem run_need_short {next : Unit → Reader β} {error : ReadError} (short : bytes.length < n) :
    (Reader.need n error >>= next).run bytes = .error error := by
  have refused : (Reader.need n error).run bytes = .error error := if_pos short
  rw [StateT.run_bind, refused]
  rfl

theorem run_orFail_some {α : Type} (next : α → Reader β) (error : ReadError) (a : α) :
    (Reader.orFail (some a) error >>= next).run bytes = (next a).run bytes := rfl

theorem run_pure_nil {value value' : β} :
    (pure value : Reader β).run (bytes.drop n) = .ok (value', []) ↔
      bytes.length ≤ n ∧ value = value' := by
  show Except.ok (value, bytes.drop n) = _ ↔ _
  rw [Except.ok.injEq, Prod.mk.injEq, List.drop_eq_nil_iff, and_comm]

end Cursor

/-! ### A parser and a codec -/

/-- The reader takes up a string exactly when the parser accepts it, with the same value. -/
def Agrees {α : Type} (reader : Reader α) (parse : List UInt8 → Except String α) : Prop :=
  ∀ body value, reader.run body = .ok (value, []) ↔ parse body = .ok value

theorem decode_eq_ok {α : Type} {reader : Reader α} {bytes : List UInt8} {value : α} :
    Reader.decode reader bytes = .ok value ↔ reader.run bytes = .ok (value, []) := by
  unfold Reader.decode
  split
  · next refused => simp [refused]
  · next accepted => simp [accepted]
  · next rest more accepted =>
    rw [accepted]
    refine ⟨nofun, fun same => ?_⟩
    obtain ⟨-, rfl⟩ := Prod.mk.inj (Except.ok.inj same)
    exact (more rfl).elim

/-- What holds of a body holds of a body in a larger type. -/
theorem Agrees.map {α β : Type} {reader : Reader α} {parse : List UInt8 → Except String α}
    (agrees : Agrees reader parse) (make : α → β) :
    Agrees (do return make (← reader)) fun body => (parse body).map make := by
  intro body value
  show _ ↔ (parse body).map make = .ok value
  constructor
  · intro accepted
    obtain ⟨inner, rest, read, made⟩ := run_bind_eq_ok.mp accepted
    obtain ⟨rfl, rfl⟩ := Prod.mk.inj (Except.ok.inj made)
    rw [(agrees body inner).mp read]
    rfl
  · intro accepted
    cases parsed : parse body with
    | error message => rw [parsed] at accepted; cases accepted
    | ok inner =>
      rw [parsed] at accepted
      obtain rfl := Except.ok.inj accepted
      exact run_bind_eq_ok.mpr ⟨inner, [], (agrees body inner).mpr parsed, rfl⟩

theorem agrees_deposit : Agrees DepositRequest.read DepositRequest.tryFromEthBytes := by
  intro body request
  unfold DepositRequest.read DepositRequest.tryFromEthBytes
  by_cases short : body.length < 288
  · rw [run_need_short short, if_pos (by omega)]
    exact ⟨nofun, nofun⟩
  rw [run_need (by omega), run_fixed_at _ (by omega)]
  cases nodeKey : PublicKey.decode (bytesAt 32 body 0) with
  | none =>
    split
    · exact ⟨nofun, nofun⟩
    · exact ⟨nofun, nofun⟩
  | some nodePubkey =>
    rw [run_orFail_some, run_fixed_at _ (by omega)]
    cases blsKey : BlsPublicKey.decode (bytesAt 48 body 32) with
    | none =>
      split
      · exact ⟨nofun, nofun⟩
      · exact ⟨nofun, nofun⟩
    | some consensusPubkey =>
      rw [run_orFail_some, run_fixed_at _ (by omega), run_le_at _ (by omega),
        run_fixed_at _ (by omega), run_fixed_at _ (by omega), run_le_at _ (by omega), run_pure_nil]
      split
      · exact ⟨fun fits => by omega, nofun⟩
      · next exact_ =>
        exact ⟨fun fits => congrArg Except.ok fits.2, fun same => ⟨by omega, Except.ok.inj same⟩⟩

/-- The sixteen bytes before the key are skipped on both sides. -/
theorem agrees_withdrawal : Agrees WithdrawalRequest.read WithdrawalRequest.tryFromEthBytes := by
  intro body request
  unfold WithdrawalRequest.read WithdrawalRequest.tryFromEthBytes
  by_cases short : body.length < 76
  · rw [run_need_short short, if_pos (by omega)]
    exact ⟨nofun, nofun⟩
  rw [run_need (by omega), run_fixed_at _ (by omega), run_takeBytes_at _ (by omega),
    run_fixed_at _ (by omega), run_le_at _ (by omega), run_pure_nil]
  split
  · exact ⟨fun fits => by omega, nofun⟩
  · exact ⟨fun fits => congrArg Except.ok fits.2, fun same => ⟨by omega, Except.ok.inj same⟩⟩

/-! ### Parameter records -/

namespace ProtocolParamRequest

variable {request : ProtocolParamRequest} {requests : List ProtocolParamRequest}

/-- The length of the value fits the byte it is written in. -/
def Short (request : ProtocolParamRequest) : Prop := request.param.length ≤ 255

theorem run_read_cons (paramId len : UInt8) (tail : List UInt8) :
    read.run (paramId :: len :: tail) =
      if tail.length < len.toNat then
        .error (.invalid "ProtocolParamRequest" "Insufficient bytes for param data")
      else .ok ({ paramId, param := tail.take len.toNat }, tail.drop len.toNat) := by
  rw [read, run_need (by simp)]
  show StateT.run (Reader.byte >>= _) ([paramId] ++ ([len] ++ tail)) = _
  rw [(reads_byte paramId).run_bind, (reads_byte len).run_bind]
  split
  · next short => rw [run_need_short short]
  · next enough =>
    rw [run_need (Nat.not_lt.mp enough), run_takeBytes_at _ (by omega), Nat.zero_add]
    rfl

theorem reads_param (short : request.Short) : Reads read request.encode request := by
  intro rest
  have len : (UInt8.ofNat request.param.length).toNat = request.param.length := by
    rw [UInt8.toNat_ofNat']
    exact Nat.mod_eq_of_lt (Nat.lt_succ_of_le short)
  show read.run (request.paramId :: UInt8.ofNat request.param.length ::
    (request.param ++ rest)) = _
  rw [run_read_cons, len, List.take_left, List.drop_left, if_neg]
  rw [List.length_append]
  omega

/-- A record that is read was written. -/
theorem eq_encode_of_run {buffer rest : List UInt8} (accepted : read.run buffer = .ok (request, rest)) :
    buffer = request.encode ++ rest ∧ request.Short := by
  match buffer, accepted with
  | [], accepted => cases accepted
  | [_], accepted => cases accepted
  | paramId :: len :: tail, accepted =>
    rw [run_read_cons] at accepted
    split at accepted
    · cases accepted
    next enough =>
    obtain ⟨rfl, rfl⟩ := Prod.mk.inj (Except.ok.inj accepted)
    have length : (tail.take len.toNat).length = len.toNat :=
      List.length_take_of_le (Nat.not_lt.mp enough)
    refine ⟨?_, ?_⟩
    · show _ = paramId :: UInt8.ofNat (tail.take len.toNat).length ::
        (tail.take len.toNat ++ tail.drop len.toNat)
      rw [length, UInt8.ofNat_toNat, List.take_append_drop]
    · show (tail.take len.toNat).length ≤ 255
      rw [length]
      exact Nat.le_of_lt_succ len.toNat_lt

theorem agrees_param : Agrees read tryFromEthBytes := by
  intro body request
  match body with
  | [] => exact ⟨nofun, nofun⟩
  | [_] => exact ⟨nofun, nofun⟩
  | paramId :: len :: tail =>
    rw [run_read_cons, tryFromEthBytes]
    by_cases short : tail.length < len.toNat
    · rw [if_pos short, if_pos (by omega)]
      exact ⟨nofun, nofun⟩
    rw [if_neg short, Except.ok.injEq, Prod.mk.injEq, List.drop_eq_nil_iff]
    split
    · exact ⟨fun fits => by omega, nofun⟩
    · exact ⟨fun fits => congrArg Except.ok fits.1, fun same => ⟨Except.ok.inj same, by omega⟩⟩

theorem two_le_length_encode (request : ProtocolParamRequest) : 2 ≤ request.encode.length := by
  simp [encode]

/-- With fuel for its length a concatenation of records is read record by record. -/
theorem readAll_flatMap {fuel : Nat} (short : ∀ request ∈ requests, request.Short)
    (enough : (requests.flatMap encode).length ≤ fuel) :
    readAll fuel (requests.flatMap encode) = .ok requests := by
  induction requests generalizing fuel with
  | nil =>
    cases fuel with
    | zero => rfl
    | succ fuel => exact if_pos rfl
  | cons request rest ih =>
    rw [List.flatMap_cons, List.length_append] at enough
    have some_ := two_le_length_encode request
    obtain ⟨fuel, rfl⟩ : ∃ less, fuel = less + 1 := ⟨fuel - 1, by omega⟩
    have filled : request.encode ++ rest.flatMap encode ≠ [] := fun none_ => by
      have := congrArg List.length none_
      rw [List.length_append] at this
      simp only [List.length_nil] at this
      omega
    rw [List.flatMap_cons, readAll, if_neg filled,
      reads_param (short request List.mem_cons_self) (rest.flatMap encode)]
    dsimp only
    rw [ih (fun other member => short other (List.mem_cons_of_mem _ member)) (by omega)]

/-- A body that parses is the concatenation of the records it parses to. -/
theorem eq_flatMap_of_readAll {fuel : Nat} {body : List UInt8} (enough : body.length ≤ fuel)
    (parsed : readAll fuel body = .ok requests) :
    body = requests.flatMap encode ∧ ∀ request ∈ requests, request.Short := by
  induction fuel generalizing body requests with
  | zero =>
    obtain rfl := Except.ok.inj parsed
    exact ⟨List.length_eq_zero_iff.mp (Nat.le_zero.mp enough), nofun⟩
  | succ fuel ih =>
    rw [readAll] at parsed
    split at parsed
    · next empty =>
      obtain rfl := Except.ok.inj parsed
      exact ⟨empty, nofun⟩
    split at parsed
    · cases parsed
    next request rest accepted =>
    obtain ⟨rfl, short⟩ := eq_encode_of_run accepted
    split at parsed
    · cases parsed
    next others tail =>
    obtain rfl := Except.ok.inj parsed
    have some_ := two_le_length_encode request
    rw [List.length_append] at enough
    obtain ⟨rfl, shorts⟩ := ih (by omega) tail
    exact ⟨rfl, List.forall_mem_cons.mpr ⟨short, shorts⟩⟩

theorem tryFromEthEntryBytes_eq_ok {body : List UInt8} :
    tryFromEthEntryBytes body = .ok requests ↔
      body = requests.flatMap encode ∧ ∀ request ∈ requests, request.Short := by
  constructor
  · exact eq_flatMap_of_readAll le_rfl
  · rintro ⟨rfl, short⟩
    exact readAll_flatMap short le_rfl

end ProtocolParamRequest

/-! ### Grouped entries -/

namespace ExecutionRequest

theorem parseEthEntry_deposits {body : List UInt8} (whole : 288 ∣ body.length) :
    parseEthEntry (0x00 :: body) = .ok ((chunksExact 288 body).map parseDepositChunk) := by
  rw [parseEthEntry, if_pos rfl, if_neg (not_not.mpr (Nat.mod_eq_zero_of_dvd whole))]

/-- A withdrawal chunk of the right size always parses. -/
def withdrawalOf (chunk : List UInt8) : WithdrawalRequest where
  sourceAddress := bytesAt 20 chunk 0
  validatorPubkey := bytesAt 32 chunk 36
  amount := u64At chunk 68

theorem parseEthEntry_withdrawals {body : List UInt8} (whole : 76 ∣ body.length) :
    parseEthEntry (0x01 :: body) =
      .ok ((chunksExact 76 body).map fun chunk => .valid (.withdrawal (withdrawalOf chunk))) := by
  have each : ∀ chunks : List (List UInt8), (∀ chunk ∈ chunks, chunk.length = 76) →
      chunks.mapM WithdrawalRequest.tryFromEthBytes = .ok (chunks.map withdrawalOf) := by
    intro chunks sized
    induction chunks with
    | nil => rfl
    | cons chunk rest ih =>
      have parsed : WithdrawalRequest.tryFromEthBytes chunk = .ok (withdrawalOf chunk) :=
        if_neg (not_not.mpr (sized chunk List.mem_cons_self))
      rw [List.mapM_cons, parsed, ih fun other member => sized other (List.mem_cons_of_mem _ member)]
      rfl
  have entry : WithdrawalRequest.tryFromEthEntryBytes body =
      .ok ((chunksExact 76 body).map withdrawalOf) := by
    rw [WithdrawalRequest.tryFromEthEntryBytes,
      if_neg (not_not.mpr (Nat.mod_eq_zero_of_dvd whole))]
    exact each _ fun chunk => length_of_mem_chunksExact
  rw [parseEthEntry, if_neg (by decide), if_pos rfl, entry]
  exact congrArg Except.ok (List.map_map ..)

theorem parseEthEntry_params_eq_ok {body : List UInt8} {parsed : List ParsedExecutionRequest} :
    parseEthEntry (0xFF :: body) = .ok parsed ↔ ∃ requests : List ProtocolParamRequest,
      body = requests.flatMap ProtocolParamRequest.encode ∧ (∀ request ∈ requests, request.Short) ∧
        parsed = requests.map fun request => .valid (.protocolParam request) := by
  rw [parseEthEntry, if_neg (by decide), if_neg (by decide), if_pos rfl]
  constructor
  · intro accepted
    split at accepted
    · cases accepted
    next requests entry =>
    obtain ⟨same, short⟩ := ProtocolParamRequest.tryFromEthEntryBytes_eq_ok.mp entry
    exact ⟨requests, same, short, (Except.ok.inj accepted).symm⟩
  · rintro ⟨requests, same, short, rfl⟩
    rw [ProtocolParamRequest.tryFromEthEntryBytes_eq_ok.mpr ⟨same, short⟩]

/-- The parser of a single request and the codec take up the same strings. -/
theorem tryFromEthBytes_eq_ok_iff (bytes : List UInt8) (request : ExecutionRequest) :
    tryFromEthBytes bytes = .ok request ↔ Reader.decode read bytes = .ok request := by
  rw [decode_eq_ok]
  match bytes with
  | [] => exact ⟨nofun, nofun⟩
  | kind :: body =>
    rw [tryFromEthBytes, read, run_need (by simp)]
    show _ ↔ StateT.run (Reader.byte >>= _) ([kind] ++ body) = _
    rw [(reads_byte kind).run_bind]
    split
    · exact (agrees_deposit.map _ body request).symm
    split
    · exact (agrees_withdrawal.map _ body request).symm
    split
    · exact (ProtocolParamRequest.agrees_param.map _ body request).symm
    · exact ⟨nofun, nofun⟩

theorem parseDepositChunk_encode {request : DepositRequest} (fits : request.Fits) :
    parseDepositChunk request.encode = .valid (.deposit request) := by
  have accepted := reads_deposit fits []
  rw [List.append_nil] at accepted
  rw [parseDepositChunk, (agrees_deposit _ _).mp accepted]

theorem length_encode_withdrawal (request : WithdrawalRequest) : request.encode.length = 76 := by
  simp [WithdrawalRequest.encode]

theorem withdrawalOf_encode {request : WithdrawalRequest} (fits : request.amount < 2 ^ 64) :
    withdrawalOf request.encode = request := by
  have reads : Reads WithdrawalRequest.read request.encode request := by
    refine Reads.need _ (length_encode_withdrawal request).ge ?_
    refine Reads.cons (reads_fixed request.sourceAddress) ?_
    refine Reads.cons (reads_takeBytes_of List.length_replicate) ?_
    refine Reads.cons (reads_fixed request.validatorPubkey) ?_
    refine Reads.cons (reads_le fits) ?_
    exact reads_pure _
  have accepted := reads []
  rw [List.append_nil] at accepted
  have parsed := (agrees_withdrawal _ _).mp accepted
  rw [WithdrawalRequest.tryFromEthBytes, if_neg (by simp [length_encode_withdrawal])] at parsed
  exact Except.ok.inj parsed

/-- The parse of a body in two parts is the parse of the first, then that of the second. -/
def Concatenates (kind : UInt8) (front back : List UInt8) : Prop :=
  ∃ first second, parseEthEntry (kind :: front) = .ok first ∧
    parseEthEntry (kind :: back) = .ok second ∧
    parseEthEntry (kind :: (front ++ back)) = .ok (first ++ second)

end ExecutionRequest

end Parsers

open ExecutionRequest in
/-- **Grouped parsing.** A list of requests of one type is read back from its encodings; bodies of
whole chunks, and parameter bodies that parse, parse part by part; a deposit chunk that is refused
leaves its own refund data and nothing else; and the parser of a single request agrees with the
codec on every string. -/
theorem parseEthEntry_groups [Crypto] :
    ((∀ requests : List DepositRequest, (∀ request ∈ requests, request.Fits) →
        parseEthEntry (0x00 :: requests.flatMap DepositRequest.encode) =
          .ok (requests.map fun request => .valid (.deposit request))) ∧
      (∀ requests : List WithdrawalRequest, (∀ request ∈ requests, request.amount < 2 ^ 64) →
        parseEthEntry (0x01 :: requests.flatMap WithdrawalRequest.encode) =
          .ok (requests.map fun request => .valid (.withdrawal request))) ∧
      ∀ requests : List ProtocolParamRequest, (∀ request ∈ requests, request.param.length ≤ 255) →
        parseEthEntry (0xFF :: requests.flatMap ProtocolParamRequest.encode) =
          .ok (requests.map fun request => .valid (.protocolParam request))) ∧
    ((∀ front back : List UInt8, 288 ∣ front.length → 288 ∣ back.length →
        Concatenates 0x00 front back) ∧
      (∀ (front chunk back : List UInt8) (reason : String), 288 ∣ front.length →
        chunk.length = 288 → 288 ∣ back.length →
        DepositRequest.tryFromEthBytes chunk = .error reason →
        ∃ first second, parseEthEntry (0x00 :: front) = .ok first ∧
          parseEthEntry (0x00 :: back) = .ok second ∧
          parseEthEntry (0x00 :: (front ++ (chunk ++ back))) = .ok (first ++
            .malformedDeposit
              { withdrawalCredentials := bytesAt 32 chunk 80
                amount := u64At chunk 112
                index := u64At chunk 280
                reason } :: second)) ∧
      (∀ front back : List UInt8, 76 ∣ front.length → 76 ∣ back.length →
        Concatenates 0x01 front back) ∧
      ∀ (front back : List UInt8) (first second : List ParsedExecutionRequest),
        parseEthEntry (0xFF :: front) = .ok first → parseEthEntry (0xFF :: back) = .ok second →
        parseEthEntry (0xFF :: (front ++ back)) = .ok (first ++ second)) ∧
    ∀ bytes request, tryFromEthBytes bytes = .ok request ↔ Reader.decode read bytes = .ok request := by
  refine ⟨⟨?_, ?_, ?_⟩, ⟨?_, ?_, ?_, ?_⟩, tryFromEthBytes_eq_ok_iff⟩
  · intro requests fits
    have sized : ∀ request : DepositRequest, request.encode.length = 288 := length_encode_deposit
    rw [parseEthEntry_deposits (dvd_length_flatMap sized requests),
      chunksExact_flatMap (by decide) sized, List.map_map]
    exact congrArg Except.ok (List.map_congr_left fun request member =>
      parseDepositChunk_encode (fits request member))
  · intro requests fits
    rw [parseEthEntry_withdrawals (dvd_length_flatMap length_encode_withdrawal requests),
      chunksExact_flatMap (by decide) length_encode_withdrawal, List.map_map]
    refine congrArg Except.ok (List.map_congr_left fun request member => ?_)
    show ParsedExecutionRequest.valid (.withdrawal (withdrawalOf request.encode)) = _
    rw [withdrawalOf_encode (fits request member)]
  · intro requests short
    exact parseEthEntry_params_eq_ok.mpr ⟨requests, rfl, short, rfl⟩
  · intro front back frontWhole backWhole
    refine ⟨_, _, parseEthEntry_deposits frontWhole, parseEthEntry_deposits backWhole, ?_⟩
    rw [parseEthEntry_deposits (by rw [List.length_append]; exact Nat.dvd_add frontWhole backWhole),
      chunksExact_append (by norm_num) frontWhole, List.map_append]
  · intro front chunk back reason frontWhole sized backWhole refused
    refine ⟨_, _, parseEthEntry_deposits frontWhole, parseEthEntry_deposits backWhole, ?_⟩
    have one : 288 ∣ chunk.length := sized ▸ dvd_rfl
    rw [parseEthEntry_deposits (by
        rw [List.length_append, List.length_append]
        exact Nat.dvd_add frontWhole (Nat.dvd_add one backWhole)),
      chunksExact_append (by norm_num) frontWhole, chunksExact_append (by norm_num) one,
      chunksExact_single (by norm_num) sized, List.map_append, List.map_append, List.map_singleton,
      parseDepositChunk, refused]
    rfl
  · intro front back frontWhole backWhole
    refine ⟨_, _, parseEthEntry_withdrawals frontWhole, parseEthEntry_withdrawals backWhole, ?_⟩
    rw [parseEthEntry_withdrawals (by rw [List.length_append]; exact Nat.dvd_add frontWhole backWhole),
      chunksExact_append (by norm_num) frontWhole, List.map_append]
  · intro front back first second one two
    obtain ⟨requests, rfl, short, rfl⟩ := parseEthEntry_params_eq_ok.mp one
    obtain ⟨requests', rfl, short', rfl⟩ := parseEthEntry_params_eq_ok.mp two
    refine parseEthEntry_params_eq_ok.mpr ⟨requests ++ requests', ?_, ?_, ?_⟩
    · rw [List.flatMap_append]
    · exact List.forall_mem_append.mpr ⟨short, short'⟩
    · rw [List.map_append]

/-- The zero key does not decode. -/
@[reducible] def Crypto.refusingZero : Crypto :=
  { Crypto.accepting with nodeKeyDecodes := fun key => key ≠ zeroChunk }

attribute [local instance] Crypto.refusingZero

/-- A deposit under a key that decodes. -/
def keyedDeposit : DepositRequest where
  nodePubkey := ⟨FixedBytes.padded 32 [1], by decide⟩
  consensusPubkey := ⟨FixedBytes.zero 48, rfl⟩
  withdrawalCredentials := zeroChunk
  amount := 40
  nodeSignature := FixedBytes.zero 64
  consensusSignature := FixedBytes.zero 96
  index := 0

open ExecutionRequest in
/-- Two parameter records in one entry, and a refused deposit between two that parse. -/
theorem parseEthEntry_groups_pair :
    parseEthEntry [0xFF, 1, 2, 7, 7, 3, 0] =
      .ok [.valid (.protocolParam ⟨1, [7, 7]⟩), .valid (.protocolParam ⟨3, []⟩)] ∧
    parseEthEntry (0x00 :: (keyedDeposit.encode ++ (List.replicate 288 0 ++ keyedDeposit.encode))) =
      .ok [.valid (.deposit keyedDeposit), .malformedDeposit
        { withdrawalCredentials := zeroChunk, amount := 0, index := 0,
          reason := "Invalid ed25519 public key" }, .valid (.deposit keyedDeposit)] := by
  refine ⟨parseEthEntry_groups.1.2.2 [⟨1, [7, 7]⟩, ⟨3, []⟩] (by decide), ?_⟩
  obtain ⟨first, second, one, two, whole⟩ := parseEthEntry_groups.2.1.2.1 keyedDeposit.encode
    (List.replicate 288 0) keyedDeposit.encode "Invalid ed25519 public key" (by decide +kernel)
    List.length_replicate (by decide +kernel) (by decide +kernel)
  have single := parseEthEntry_groups.1.1 [keyedDeposit] (by decide +kernel)
  rw [List.flatMap_singleton] at single
  obtain rfl := Except.ok.inj (one.symm.trans single)
  obtain rfl := Except.ok.inj (two.symm.trans single)
  have credentials : bytesAt 32 (List.replicate 288 0) 80 = zeroChunk := by decide +kernel
  have amount : u64At (List.replicate 288 0) 112 = 0 := by decide +kernel
  have index : u64At (List.replicate 288 0) 280 = 0 := by decide +kernel
  rw [credentials, amount, index] at whole
  exact whole

end Summit
