/-
**A block digest binds the whole block.**

The digest is the hash of the header, and the header holds the hashes of the payload and of the
request list, with zeros for an empty one; decoding compares them (`Verified`). A derived codec is
exact: what it accepts is the encoding of what it returns. So whatever is read from a buffer is a
`Verified` block behind its length (`readFlat_eq_ok`), whichever way the buffer is split, and two
such blocks with one digest are equal unless two of the strings they hash collide
(`Verified.eq_of_digest`). A finalized header that is decoded is the one that is encoded
(`reads_counted`).
-/

import Summit.Model.BlockCodec

set_option linter.unusedSectionVars false

namespace Summit

open Bytes

/-! ### Lengths and offsets -/

theorem beBytes_beNat {bytes : List UInt8} {width : Nat} (length : bytes.length = width) :
    beBytes width (beNat bytes) = bytes := by
  have same := leBytes_leNat bytes.reverse
  rw [List.length_reverse, length] at same
  rw [beBytes, beNat, same, List.reverse_reverse]

theorem leBytes_u32At {bytes : List UInt8} {start : Nat} (inside : start + 4 ≤ bytes.length) :
    leBytes 4 (u32At bytes start) = (bytes.drop start).take 4 := by
  have length : ((bytes.drop start).take 4).length = 4 := by
    rw [List.length_take, List.length_drop]
    omega
  have same := leBytes_leNat ((bytes.drop start).take 4)
  rwa [length] at same

/-- The twelve bytes of a fixed part, and what follows. -/
theorem eq_words_append {bytes : List UInt8} (long : 12 ≤ bytes.length) :
    bytes = leBytes 4 (u32At bytes 0) ++ (leBytes 4 (u32At bytes 4) ++
      (leBytes 4 (u32At bytes 8) ++ bytes.drop 12)) := by
  rw [leBytes_u32At (by omega), leBytes_u32At (by omega), leBytes_u32At (by omega)]
  have step : ∀ start, (bytes.drop start).take 4 ++ bytes.drop (start + 4) = bytes.drop start :=
    fun start => by rw [← List.drop_drop, List.take_append_drop]
  rw [step 8, step 4, step 0, List.drop_zero]

theorem u32At_append {value : Nat} (front : List UInt8) {back : List UInt8} (fits : value < 2 ^ 32) :
    u32At (front ++ (leBytes 4 value ++ back)) front.length = value := by
  rw [u32At, List.drop_left, List.take_left' (length_leBytes 4 value), leNat_leBytes fits]

theorem length_requestsSsz (requests : List (List UInt8)) :
    (requestsSsz requests).length = (requests.map fun request => 4 + request.length).sum := by
  have offsets : ∀ (start : Nat) (items : List (List UInt8)),
      ((sszOffsets start items).flatMap (leBytes 4)).length = 4 * items.length := by
    intro start items
    induction items generalizing start with
    | nil => rfl
    | cons item rest ih =>
      rw [sszOffsets, List.flatMap_cons, List.length_append, length_leBytes, ih, List.length_cons]
      omega
  rw [requestsSsz, List.length_append, offsets]
  induction requests with
  | nil => rfl
  | cons request rest ih =>
    rw [List.map_cons, List.sum_cons, ← ih, List.length_cons, List.flatten_cons, List.length_append]
    omega

/-! ### Buffers in chunks -/

theorem flatten_advance (n : Nat) (chunks : List (List UInt8)) :
    (advance n chunks).flatten = chunks.flatten.drop n := by
  induction chunks generalizing n with
  | nil => simp [advance]
  | cons chunk rest ih =>
    rw [advance, List.flatten_cons, List.drop_append]
    split
    · next inside => rw [List.flatten_cons, Nat.sub_eq_zero_of_le inside.le, List.drop_zero]
    · next past => rw [ih, List.drop_eq_nil_of_le (Nat.not_lt.mp past), List.nil_append]

theorem take_headD {chunks : List (List UInt8)} {n : Nat} (enough : n ≤ (chunks.headD []).length) :
    (chunks.headD []).take n = chunks.flatten.take n := by
  cases chunks with
  | nil => rfl
  | cons chunk rest => exact (List.take_append_of_le_length enough).symm

theorem toOption_eq_some {ε α : Type} {result : Except ε α} {value : α} :
    result.toOption = some value ↔ result = .ok value := by
  cases result with
  | error error => exact ⟨nofun, nofun⟩
  | ok found => exact ⟨fun same => congrArg _ (Option.some.inj same), fun same => by rw [same]; rfl⟩

section Blocks

variable [Crypto] [Payloads]

/-- What the derived codecs and that of finalizations promise: a value is returned for its own
encoding only, and decoding leaves no digest in the cache. -/
structure BlockDecoders.Exact (decoders : BlockDecoders) : Prop where
  header : ∀ {bytes header}, decoders.header bytes = some header →
    header.asSszBytes = bytes ∧ header.cached = none
  payload : ∀ {bytes payload}, decoders.payload bytes = some payload →
    Payloads.asSszBytes payload = bytes
  requests : ∀ {bytes requests}, decoders.requests bytes = some requests →
    requestsSsz requests = bytes
  finalization : ∀ {count buffer finalization rest},
    (decoders.readFinalization count).run buffer = .ok (finalization, rest) →
      buffer = decoders.writeFinalization finalization ++ rest ∧
      Reads (decoders.readFinalization count) (decoders.writeFinalization finalization) finalization

namespace FullBlock

variable {decoders : BlockDecoders} {block block' : FullBlock}

/-- The parts decode from their encodings, and the body is the one of the header. -/
structure Verified (decoders : BlockDecoders) (block : FullBlock) : Prop where
  header : decoders.header block.header.asSszBytes = some block.header
  payload : decoders.payload (Payloads.asSszBytes block.payload) = some block.payload
  requests : decoders.requests (requestsSsz block.executionRequests) = some block.executionRequests
  cold : block.header.cached = none
  payloadHash : Crypto.sha256 (Payloads.asSszBytes block.payload) = block.header.payloadHash
  requestHash : (if block.executionRequests ≠ [] then
      Crypto.sha256 (requestsSsz block.executionRequests) else zeroChunk) =
    block.header.executionRequestHash

theorem newWithVerify_eq_ok {header : Header} {payload : ExecutionPayload}
    {executionRequests : List (List UInt8)} :
    (newWithVerify header payload executionRequests).toOption = some block ↔
      block = { header, payload, executionRequests } ∧
      Crypto.sha256 (Payloads.asSszBytes payload) = header.payloadHash ∧
      (if executionRequests ≠ [] then Crypto.sha256 (requestsSsz executionRequests)
        else zeroChunk) = header.executionRequestHash := by
  rw [newWithVerify]
  by_cases paid : Crypto.sha256 (Payloads.asSszBytes payload) = header.payloadHash
  · rw [if_neg (not_not.mpr paid)]
    by_cases requested : (if executionRequests ≠ [] then
        Crypto.sha256 (requestsSsz executionRequests) else zeroChunk) = header.executionRequestHash
    · rw [if_neg (not_not.mpr requested)]
      exact ⟨fun made => ⟨(Option.some.inj made).symm, paid, requested⟩,
        fun same => congrArg some same.1.symm⟩
    · rw [if_pos requested]
      exact ⟨nofun, fun same => absurd same.2.2 requested⟩
  · rw [if_pos paid]
    exact ⟨nofun, fun same => absurd same.2.1 paid⟩

/-- The parts of a container are put together again. -/
theorem requestsSsz_splitParts {bytes header payload requests : List UInt8}
    (split : splitParts bytes = some (header, payload, requests)) :
    requestsSsz [header, payload, requests] = bytes := by
  obtain ⟨⟨long, first, second, third, inside⟩, parts⟩ := Option.ite_none_right_eq_some.mp split
  obtain ⟨rfl, rest⟩ := Prod.mk.inj (Option.some.inj parts)
  obtain ⟨rfl, rfl⟩ := Prod.mk.inj rest
  have headerLength : ((bytes.drop 12).take (u32At bytes 4 - 12)).length = u32At bytes 4 - 12 := by
    rw [List.length_take, List.length_drop]
    omega
  have payloadLength : ((bytes.drop (u32At bytes 4)).take
      (u32At bytes 8 - u32At bytes 4)).length = u32At bytes 8 - u32At bytes 4 := by
    rw [List.length_take, List.length_drop]
    omega
  have cut : ∀ start stop, start ≤ stop → (bytes.drop start).take (stop - start) ++
      bytes.drop stop = bytes.drop start := by
    intro start stop le
    conv_lhs => rw [← Nat.add_sub_cancel' le, ← List.drop_drop, Nat.add_sub_cancel_left]
    exact List.take_append_drop _ _
  conv_rhs => rw [eq_words_append long, first, ← cut 12 _ second, ← cut _ _ third]
  simp only [requestsSsz, sszOffsets, headerLength, payloadLength, List.length_cons,
    List.length_nil, List.flatMap_cons, List.flatMap_nil, List.flatten_cons, List.flatten_nil,
    List.append_nil, List.append_assoc]
  rw [show 4 * (0 + 1 + 1 + 1) + (u32At bytes 4 - 12) = u32At bytes 4 by omega,
    show u32At bytes 4 + (u32At bytes 8 - u32At bytes 4) = u32At bytes 8 by omega]

/-- Whatever is decoded is verified, and its encoding is what was decoded. -/
theorem verified_of_fromSszBytes (exact_ : decoders.Exact) {bytes : List UInt8}
    (decoded : fromSszBytes decoders bytes = some block) :
    Verified decoders block ∧ block.asSszBytes = bytes := by
  obtain ⟨⟨headerBytes, payloadBytes, requestBytes⟩, split, decoded⟩ :=
    Option.bind_eq_some_iff.mp decoded
  obtain ⟨header, headerRead, decoded⟩ := Option.bind_eq_some_iff.mp decoded
  obtain ⟨payload, payloadRead, decoded⟩ := Option.bind_eq_some_iff.mp decoded
  obtain ⟨requests, requestsRead, made⟩ := Option.bind_eq_some_iff.mp decoded
  obtain ⟨rfl, payloadHash, requestHash⟩ := newWithVerify_eq_ok.mp made
  obtain ⟨rfl, cold⟩ := exact_.header headerRead
  obtain rfl := exact_.payload payloadRead
  obtain rfl := exact_.requests requestsRead
  exact ⟨⟨headerRead, payloadRead, requestsRead, cold, payloadHash, requestHash⟩,
    requestsSsz_splitParts split⟩

/-! ### Reading -/

/-- Reading from one piece. -/
def readFlat (decoders : BlockDecoders) (buffer : List UInt8) :
    Except ReadError (FullBlock × List UInt8) :=
  if buffer.length < 4 then .error .endOfBuffer
  else if beNat (buffer.take 4) > (buffer.drop 4).length then
    .error (.invalid "Block" "improper encoded length")
  else match fromSszBytes decoders ((buffer.drop 4).take (beNat (buffer.take 4))) with
    | none => .error (.invalid "Block" "Unable to decode bytes for block")
    | some block => .ok (block, (buffer.drop 4).drop (beNat (buffer.take 4)))

/-- How the buffer is split does not matter. -/
theorem map_readCfg (chunks : List (List UInt8)) :
    (readCfg decoders chunks).map (Prod.map id List.flatten) =
      readFlat decoders chunks.flatten := by
  unfold readCfg readFlat
  dsimp only
  have bytes : (if ((advance 4 chunks).headD []).length ≥ beNat (chunks.flatten.take 4) then
        ((advance 4 chunks).headD []).take (beNat (chunks.flatten.take 4))
      else (advance 4 chunks).flatten.take (beNat (chunks.flatten.take 4))) =
      (chunks.flatten.drop 4).take (beNat (chunks.flatten.take 4)) := by
    rw [← flatten_advance]
    split
    · next enough => exact take_headD enough
    · rfl
  rw [bytes, flatten_advance]
  split
  · rfl
  split
  · rfl
  cases fromSszBytes decoders ((chunks.flatten.drop 4).take (beNat (chunks.flatten.take 4))) with
  | none => rfl
  | some block =>
    exact congrArg (fun rest => Except.ok (block, rest))
      ((flatten_advance _ _).trans (congrArg _ (flatten_advance _ _)))

theorem readCfg_eq_ok {chunks : List (List UInt8)} {rest : List UInt8} :
    readFlat decoders chunks.flatten = .ok (block, rest) ↔
      ∃ left, readCfg decoders chunks = .ok (block, left) ∧ left.flatten = rest := by
  rw [← map_readCfg]
  constructor
  · intro read
    cases result : readCfg decoders chunks with
    | error error => rw [result] at read; cases read
    | ok pair =>
      rw [result] at read
      obtain ⟨rfl, same⟩ := Prod.mk.inj (Except.ok.inj read)
      exact ⟨pair.2, rfl, same⟩
  · rintro ⟨left, read, rfl⟩
    rw [read]
    rfl

/-- **What is read** is the encoding of a verified block, and the rest. -/
theorem eq_encode_of_readFlat (exact_ : decoders.Exact) {buffer rest : List UInt8}
    (read : readFlat decoders buffer = .ok (block, rest)) :
    Verified decoders block ∧ buffer = block.encode ++ rest ∧
      ∀ tail, readFlat decoders (block.encode ++ tail) = .ok (block, tail) := by
  unfold readFlat at read
  split at read
  · cases read
  next long =>
  split at read
  · cases read
  next fits =>
  split at read
  · cases read
  next block decoded =>
  obtain ⟨rfl, rfl⟩ := Prod.mk.inj (Except.ok.inj read)
  obtain ⟨verified, bytes⟩ := verified_of_fromSszBytes exact_ decoded
  have four : (buffer.take 4).length = 4 := List.length_take_of_le (by omega)
  have small := beNat_lt (buffer.take 4)
  rw [four] at small
  have length : block.asSszBytes.length = beNat (buffer.take 4) := by
    rw [bytes, List.length_take_of_le (Nat.not_lt.mp fits)]
  refine ⟨verified, ?_, fun tail => ?_⟩
  · rw [encode, length, beBytes_beNat four, bytes, List.append_assoc, List.take_append_drop,
      List.take_append_drop]
  · have head : (block.encode ++ tail).take 4 = buffer.take 4 := by
      rw [encode, List.append_assoc, List.take_left' (length_beBytes _ _), length,
        beBytes_beNat four]
    have body : (block.encode ++ tail).drop 4 = block.asSszBytes ++ tail := by
      rw [encode, List.append_assoc, List.drop_left' (length_beBytes _ _)]
    unfold readFlat
    rw [head, body, ← length, List.take_left, List.drop_left, bytes, decoded, if_neg, if_neg]
    · rw [List.length_append]
      omega
    · rw [List.length_append, encode, List.length_append, length_beBytes]
      omega

theorem length_encode (block : FullBlock) : block.encode.length = block.encodeSize := by
  rw [encode, List.length_append, length_beBytes, asSszBytes, length_requestsSsz, encodeSize,
    ← length_requestsSsz block.executionRequests]
  simp only [List.map_cons, List.map_nil, List.sum_cons, List.sum_nil]
  omega

/-! ### Binding -/

/-- The strings that the digest of a block goes through. -/
def hashed (block : FullBlock) : List (List UInt8) :=
  [block.header.encode, Payloads.asSszBytes block.payload] ++
    if block.executionRequests = [] then [] else [requestsSsz block.executionRequests]

theorem Verified.eq_of_digest (one : Verified decoders block) (two : Verified decoders block')
    (free : ∀ x ∈ block.hashed, ∀ y ∈ block'.hashed, Crypto.sha256 x = Crypto.sha256 y → x = y)
    (nonzero : ∀ x ∈ block.hashed ++ block'.hashed, Crypto.sha256 x ≠ zeroChunk)
    (same : block.digest = block'.digest) : block = block' := by
  have headers : block.header = block'.header := by
    rw [digest, digest, Header.getDigest, Header.getDigest, one.cold, two.cold] at same
    have bytes := free _ (by simp [hashed]) _ (by simp [hashed]) same
    have ssz := (List.append_inj' bytes (by
      have lengths := congrArg List.length bytes
      simp only [Header.encode, List.length_append, length_beBytes] at lengths
      omega)).2
    have decoded := one.header
    rw [ssz, two.header] at decoded
    exact (Option.some.inj decoded).symm
  have payloads : block.payload = block'.payload := by
    have ssz := free _ (by simp [hashed]) _ (by simp [hashed])
      (one.payloadHash.trans (headers ▸ two.payloadHash.symm))
    have decoded := one.payload
    rw [ssz, two.payload] at decoded
    exact (Option.some.inj decoded).symm
  have requests : block.executionRequests = block'.executionRequests := by
    have hash := one.requestHash.trans (headers ▸ two.requestHash.symm)
    -- an empty list is committed to by zeros, which no string hashes to
    by_cases none_ : block.executionRequests = []
    · by_cases none' : block'.executionRequests = []
      · rw [none_, none']
      · rw [if_neg (not_not.mpr none_), if_pos none'] at hash
        exact absurd hash.symm (nonzero _ (by simp [hashed, none']))
    · by_cases none' : block'.executionRequests = []
      · rw [if_pos none_, if_neg (not_not.mpr none')] at hash
        exact absurd hash (nonzero _ (by simp [hashed, none_]))
      · rw [if_pos none_, if_pos none'] at hash
        have ssz := free _ (by simp [hashed, none_]) _ (by simp [hashed, none']) hash
        have decoded := one.requests
        rw [ssz, two.requests] at decoded
        exact (Option.some.inj decoded).symm
  obtain ⟨header, payload, executionRequests⟩ := block
  obtain ⟨header', payload', executionRequests'⟩ := block'
  obtain rfl : header = header' := headers
  obtain rfl : payload = payload' := payloads
  obtain rfl : executionRequests = executionRequests' := requests
  rfl

end FullBlock

/-! ### Finalized headers -/

namespace CountedHeader

variable {decoders : BlockDecoders} {finalized : CountedHeader}

/-- The parts decode from their encodings, and the certificate signs the header. -/
structure Verified (decoders : BlockDecoders) (finalized : CountedHeader) : Prop where
  header : decoders.header finalized.header.asSszBytes = some finalized.header
  finalization : Reads (decoders.readFinalization finalized.participantCount)
    (decoders.writeFinalization finalized.finalization) finalized.finalization
  count : finalized.participantCount ≤ maxFinalizedHeaderParticipants
  signed : finalized.finalization.payload = finalized.header.computedDigest
  few : (finalized.asSszBytes decoders).length < 2 ^ 32

theorem length_asSszBytes_counted (finalized : CountedHeader) :
    (finalized.asSszBytes decoders).length = 12 + finalized.header.asSszBytes.length +
      (decoders.writeFinalization finalized.finalization).length := by
  simp only [asSszBytes, List.flatten_cons, List.flatten_nil, List.length_append, length_leBytes,
    List.length_nil]
  omega

theorem verified_of_fromSszBytes (exact_ : decoders.Exact) {bytes : List UInt8}
    (few : bytes.length < 2 ^ 32) (decoded : fromSszBytes decoders bytes = some finalized) :
    Verified decoders finalized := by
  simp only [fromSszBytes, Option.bind_eq_bind, Option.bind_eq_some_iff, Option.guard_eq_some'] at decoded
  obtain ⟨-, ⟨long, -, low, inside⟩, -, count, header, headerRead, ⟨finalization, rest⟩, read,
    made⟩ := decoded
  have certified := exact_.finalization (toOption_eq_some.mp read)
  unfold new at made
  split at made
  · cases made
  next signed =>
  obtain rfl := Option.some.inj made
  obtain ⟨same, -⟩ := exact_.header headerRead
  refine ⟨same.symm ▸ headerRead, certified.2, count, not_not.mp signed, ?_⟩
  have headerLength := congrArg List.length same
  have rest_ := congrArg List.length certified.1
  rw [List.length_take, List.length_drop] at headerLength
  rw [List.length_drop, List.length_append] at rest_
  rw [length_asSszBytes_counted]
  dsimp only
  omega

theorem fromSszBytes_asSszBytes_counted (verified : Verified decoders finalized) :
    fromSszBytes decoders (finalized.asSszBytes decoders) = some finalized := by
  have few := verified.few
  have count := verified.count
  set bytes := finalized.asSszBytes decoders with def_
  have length : bytes.length = _ := length_asSszBytes_counted finalized
  have first : u32At bytes 0 = 12 := u32At_append [] (by norm_num)
  have counted : u32At bytes 4 = finalized.participantCount :=
    u32At_append (leBytes 4 12) (by
      unfold maxFinalizedHeaderParticipants at count
      omega)
  have second : u32At bytes 8 = 12 + finalized.header.asSszBytes.length :=
    u32At_append (leBytes 4 12 ++ leBytes 4 finalized.participantCount) (by omega)
  have body : bytes.drop 12 = finalized.header.asSszBytes ++
      decoders.writeFinalization finalized.finalization := by
    rw [def_, asSszBytes]
    simp only [List.flatten_cons, List.flatten_nil, List.append_nil]
    rw [← List.append_assoc, ← List.append_assoc, List.drop_left' (by simp)]
  have tail : bytes.drop (12 + finalized.header.asSszBytes.length) =
      decoders.writeFinalization finalized.finalization := by
    rw [← List.drop_drop, body, List.drop_left]
  have read := verified.finalization []
  rw [List.append_nil] at read
  simp only [fromSszBytes, Option.bind_eq_bind, Option.bind_eq_some_iff, Option.guard_eq_some', first,
    counted, second, Nat.add_sub_cancel_left, body, tail, List.take_left]
  refine ⟨(), ⟨by omega, trivial, by omega, by omega⟩, (), count, finalized.header, verified.header,
    (finalized.finalization, []), toOption_eq_some.mpr read, ?_⟩
  rw [new, if_neg (not_not.mpr verified.signed)]
  rfl

theorem reads_counted (verified : Verified decoders finalized) :
    Reads (read decoders) (finalized.encode decoders) finalized := by
  refine (reads_be verified.few).bind (Reads.need _ le_rfl ?_)
  refine Reads.congr ((reads_takeBytes (finalized.asSszBytes decoders)).bind
    (reads_orFail _ (fromSszBytes_asSszBytes_counted verified))) ?_ rfl
  exact List.append_nil _

theorem returns_counted (exact_ : decoders.Exact) :
    Returns (read decoders) (Verified decoders) := by
  refine (returns_be 4).bind fun len small => (returns_any _).bind fun _ _ =>
    (returns_takeBytes len).bind fun payload length => (returns_orFail _ _).mono
      fun finalized decoded => verified_of_fromSszBytes exact_ ?_ decoded
  rw [length]
  exact small

end CountedHeader

end Blocks

open FullBlock in
/-- **Binding.** A block that is read takes exactly its encoded size and is read again from its
encoding; the split of a buffer changes nothing; two blocks that are read and have one digest are
equal when no two of the strings they hash collide and none hashes to zeros; and a finalized header
that is read is signed by its certificate and read again from its encoding. -/
theorem digest_binds [Crypto] [Payloads] {decoders : BlockDecoders} (exact_ : decoders.Exact) :
    (∀ chunks block rest, readCfg decoders chunks = .ok (block, rest) →
      chunks.flatten.length = block.encodeSize + rest.flatten.length ∧
      ∀ chunks' tail, chunks'.flatten = block.encode ++ tail →
        ∃ left, readCfg decoders chunks' = .ok (block, left) ∧ left.flatten = tail) ∧
    (∀ chunks chunks', chunks.flatten = chunks'.flatten →
      (readCfg decoders chunks).map (Prod.map id List.flatten) =
        (readCfg decoders chunks').map (Prod.map id List.flatten)) ∧
    (∀ chunks chunks' block block' rest rest', readCfg decoders chunks = .ok (block, rest) →
      readCfg decoders chunks' = .ok (block', rest') →
      (∀ x ∈ block.hashed, ∀ y ∈ block'.hashed, Crypto.sha256 x = Crypto.sha256 y → x = y) →
      (∀ x ∈ block.hashed ++ block'.hashed, Crypto.sha256 x ≠ zeroChunk) →
      block.digest = block'.digest →
      block.header = block'.header ∧ block.payload = block'.payload ∧
        block.executionRequests = block'.executionRequests) ∧
    ∀ buffer finalized rest, (CountedHeader.read decoders).run buffer = .ok (finalized, rest) →
      finalized.finalization.payload = finalized.header.computedDigest ∧
      finalized.participantCount ≤ maxFinalizedHeaderParticipants ∧
      ∀ tail, (CountedHeader.read decoders).run (finalized.encode decoders ++ tail) =
        .ok (finalized, tail) := by
  refine ⟨?_, ?_, ?_, ?_⟩
  · intro chunks block rest read
    obtain ⟨-, same, again⟩ :=
      eq_encode_of_readFlat exact_ (readCfg_eq_ok.mpr ⟨rest, read, rfl⟩)
    refine ⟨by rw [same, List.length_append, length_encode], fun chunks' tail split => ?_⟩
    exact readCfg_eq_ok.mp (split ▸ again tail)
  · intro chunks chunks' same
    rw [map_readCfg, map_readCfg, same]
  · intro chunks chunks' block block' rest rest' one two free nonzero same
    have verified := (eq_encode_of_readFlat exact_ (readCfg_eq_ok.mpr ⟨rest, one, rfl⟩)).1
    have verified' := (eq_encode_of_readFlat exact_ (readCfg_eq_ok.mpr ⟨rest', two, rfl⟩)).1
    obtain rfl := verified.eq_of_digest verified' free nonzero same
    exact ⟨rfl, rfl, rfl⟩
  · intro buffer finalized rest read
    have verified := CountedHeader.returns_counted exact_ buffer finalized rest read
    exact ⟨verified.signed, verified.count, CountedHeader.reads_counted verified⟩

/-! ### A block in two pieces -/

/-- Stand-ins whose digest is the length of the string. -/
@[reducible] def Crypto.measuring : Crypto :=
  { Crypto.accepting with
    sha256 := fun bytes => FixedBytes.padded 32 (leBytes 8 (bytes.length + 1)) }

attribute [local instance] Crypto.measuring Payloads.plain

def measuredBlock : FullBlock :=
  FullBlock.computeDigest zeroChunk 1 1000 Payloads.default [[1]] 0 1 none zeroChunk [] [] zeroChunk

/-- Decoders that know one block. -/
def measuredDecoders : BlockDecoders where
  header bytes := if bytes = measuredBlock.header.asSszBytes then some measuredBlock.header else none
  payload bytes :=
    if bytes = Payloads.asSszBytes measuredBlock.payload then some measuredBlock.payload else none
  requests bytes :=
    if bytes = requestsSsz measuredBlock.executionRequests then some measuredBlock.executionRequests
    else none
  writeFinalization _ := []
  readFinalization _ := pure ⟨0, 1, 0, measuredBlock.header.computedDigest, []⟩

theorem measuredDecoders_exact : measuredDecoders.Exact where
  header decoded := by
    obtain ⟨same, found⟩ := Option.ite_none_right_eq_some.mp decoded
    exact ⟨Option.some.inj found ▸ same.symm, Option.some.inj found ▸ rfl⟩
  payload decoded := by
    obtain ⟨same, found⟩ := Option.ite_none_right_eq_some.mp decoded
    exact Option.some.inj found ▸ same.symm
  requests decoded := by
    obtain ⟨same, found⟩ := Option.ite_none_right_eq_some.mp decoded
    exact Option.some.inj found ▸ same.symm
  finalization read := by
    obtain ⟨rfl, rfl⟩ := Prod.mk.inj (Except.ok.inj read)
    exact ⟨rfl, reads_pure _⟩

/-- The header of the block with a certificate of one participant. -/
def measuredHeader : CountedHeader where
  header := measuredBlock.header
  finalization := ⟨0, 1, 0, measuredBlock.header.computedDigest, []⟩
  participantCount := 1

/-- A block is read from two chunks and from one, and its header with a certificate: the digests bind
the two blocks, and both are read again from their encodings. -/
theorem digest_binds_pieces : ∃ one rest two rest' finalized,
    FullBlock.readCfg measuredDecoders
        [measuredBlock.encode.take 10, measuredBlock.encode.drop 10] = .ok (one, rest) ∧
    FullBlock.readCfg measuredDecoders [measuredBlock.encode] = .ok (two, rest') ∧
    (CountedHeader.read measuredDecoders).run (measuredHeader.encode measuredDecoders) =
      .ok (finalized, []) ∧
    (∃ left, FullBlock.readCfg measuredDecoders [one.encode] = .ok (one, left) ∧
      left.flatten = []) ∧
    (one.header = two.header ∧ one.payload = two.payload ∧
      one.executionRequests = two.executionRequests) ∧
    finalized.finalization.payload = finalized.header.computedDigest := by
  have computed : ((FullBlock.readCfg measuredDecoders
        [measuredBlock.encode.take 10, measuredBlock.encode.drop 10]).toOption.bind fun one =>
      (FullBlock.readCfg measuredDecoders [measuredBlock.encode]).toOption.bind fun two =>
        ((CountedHeader.read measuredDecoders).run
            (measuredHeader.encode measuredDecoders)).toOption.map fun finalized =>
          decide ((∀ x ∈ one.1.hashed, ∀ y ∈ two.1.hashed,
              Crypto.sha256 x = Crypto.sha256 y → x = y) ∧
            (∀ x ∈ one.1.hashed ++ two.1.hashed, Crypto.sha256 x ≠ zeroChunk) ∧
            one.1.digest = two.1.digest ∧ finalized.2 = [])) = some true := by
    decide +kernel
  obtain ⟨⟨one, rest⟩, split, computed⟩ := Option.bind_eq_some_iff.mp computed
  obtain ⟨⟨two, rest'⟩, whole, computed⟩ := Option.bind_eq_some_iff.mp computed
  obtain ⟨⟨finalized, left⟩, counted, facts⟩ := Option.map_eq_some_iff.mp computed
  obtain ⟨free, nonzero, same, rfl⟩ := of_decide_eq_true facts
  rw [toOption_eq_some] at split whole counted
  obtain ⟨again, -, binds, signed⟩ := digest_binds measuredDecoders_exact
  exact ⟨one, rest, two, rest', finalized, split, whole, counted,
    (again _ one rest split).2 [one.encode] [] (by simp),
    binds _ _ one two rest rest' split whole free nonzero same, (signed _ finalized [] counted).1⟩

end Summit
