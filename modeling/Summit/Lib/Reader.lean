/-
**Readers of byte buffers.**

A `Reader` takes values off the front of a buffer or fails with a `ReadError`. `Reads reader bytes
value` is the law a codec is after: on any buffer that starts with `bytes` the reader returns
`value` and leaves exactly the rest. It composes along `bind` (`Reads.bind`), so the law of a
record's reader is assembled from the laws of its fields. Of a buffer that is accepted, whatever is in
it, `Takes reader n` says how much the reader takes off and `Returns reader P` what its value
satisfies.
-/

import Summit.Lib.Bytes

namespace Bytes

/-- Why a buffer is refused. -/
inductive ReadError where
  /-- The buffer ends inside a value. -/
  | endOfBuffer
  /-- The value read is refused: the type it was read for, and the reason. -/
  | invalid (what why : String)
  /-- The value read is refused by the decoder of another library. -/
  | refused
  /-- Bytes are left over after the value. -/
  | extraData (count : Nat)
  deriving DecidableEq, Repr

abbrev Reader := StateT (List UInt8) (Except ReadError)

namespace Reader

variable {α β : Type}

/-- Refuse the buffer. -/
def fail (error : ReadError) : Reader α := fun _ => .error error

/-- Refuse the buffer unless `condition` holds. -/
def ensure (condition : Bool) (error : ReadError) : Reader Unit := fun buffer =>
  if condition then .ok ((), buffer) else .error error

/-- Refuse the buffer unless it has `n` more bytes. -/
def need (n : Nat) (error : ReadError) : Reader Unit := fun buffer =>
  if buffer.length < n then .error error else .ok ((), buffer)

/-- The next `n` bytes. -/
def takeBytes (n : Nat) : Reader (List UInt8) := fun buffer =>
  if buffer.length < n then .error .endOfBuffer else .ok (buffer.take n, buffer.drop n)

/-- The next `n` bytes as an array. -/
def fixed (n : Nat) : Reader (FixedBytes n) := do
  let bytes ← takeBytes n
  return FixedBytes.padded n bytes

def byte : Reader UInt8 := do
  let bytes ← takeBytes 1
  return bytes.headD 0

/-- The next `width` bytes as a number, most significant first. -/
def be (width : Nat) : Reader Nat := do
  let bytes ← takeBytes width
  return beNat bytes

/-- The next `width` bytes as a number, least significant first. -/
def le (width : Nat) : Reader Nat := do
  let bytes ← takeBytes width
  return leNat bytes

/-- The value, or the error when there is none. -/
def orFail (value : Option α) (error : ReadError) : Reader α := fun buffer =>
  match value with
  | some value => .ok (value, buffer)
  | none => .error error

/-- `count` values one after the other. -/
def many (item : Reader α) : Nat → Reader (List α)
  | 0 => return []
  | count + 1 => do
    let value ← item
    let rest ← many item count
    return value :: rest

/-- Read a value that has to fill the buffer. -/
def decode (reader : Reader α) (buffer : List UInt8) : Except ReadError α :=
  match reader.run buffer with
  | .error error => .error error
  | .ok (value, []) => .ok value
  | .ok (_, rest) => .error (.extraData rest.length)

end Reader

/-! ### The law of a reader -/

/-- On every buffer that starts with `bytes` the reader returns `value` and leaves the rest. -/
def Reads {α : Type} (reader : Reader α) (bytes : List UInt8) (value : α) : Prop :=
  ∀ rest, reader.run (bytes ++ rest) = .ok (value, rest)

section Laws

variable {α β : Type}

theorem reads_pure (value : α) : Reads (pure value) [] value := fun _ => rfl

variable {reader : Reader α} {bytes one : List UInt8} {a : α} {next : α → Reader β} {b : β}
  {value : Option α} {n width : Nat}

theorem Reads.run_bind (reads : Reads reader bytes a) (next : α → Reader β) (rest : List UInt8) :
    (reader >>= next).run (bytes ++ rest) = (next a).run rest := by
  rw [StateT.run_bind, reads]
  rfl

theorem Reads.bind {two : List UInt8} (first : Reads reader one a) (second : Reads (next a) two b) :
    Reads (reader >>= next) (one ++ two) b := by
  intro rest
  rw [List.append_assoc, first.run_bind]
  exact second rest

theorem Reads.cons {others : List (List UInt8)} (first : Reads reader one a)
    (second : Reads (next a) others.flatten b) :
    Reads (reader >>= next) (one :: others).flatten b :=
  first.bind second

theorem Reads.ensure {next : Unit → Reader β} {condition : Prop} [Decidable condition]
    (error : ReadError) (holds : condition) (second : Reads (next ()) bytes b) :
    Reads (Reader.ensure condition error >>= next) bytes b := by
  intro rest
  have passed : (Reader.ensure condition error).run (bytes ++ rest) = .ok ((), bytes ++ rest) := by
    simp [Reader.ensure, StateT.run, holds]
  rw [StateT.run_bind, passed]
  exact second rest

theorem Reads.orFail (error : ReadError) (found : value = some a) (second : Reads (next a) bytes b) :
    Reads (Reader.orFail value error >>= next) bytes b := by
  intro rest
  rw [found]
  exact second rest

theorem Reads.need {next : Reader β} (error : ReadError) (enough : n ≤ bytes.length)
    (reads : Reads next bytes b) : Reads (do Reader.need n error; next) bytes b := by
  intro rest
  have looked : (Reader.need n error).run (bytes ++ rest) = .ok ((), bytes ++ rest) := by
    simp only [Reader.need, StateT.run, List.length_append]
    rw [if_neg (by omega)]
  rw [StateT.run_bind, looked]
  exact reads rest

theorem Reads.congr {bytes' : List UInt8} {value value' : α} (reads : Reads reader bytes value)
    (sameBytes : bytes = bytes') (sameValue : value = value') :
    Reads reader bytes' value' := sameBytes ▸ sameValue ▸ reads

theorem Reads.map (reads : Reads reader bytes a) (f : α → β) :
    Reads (do let value ← reader; return f value) bytes (f a) := by
  intro rest
  rw [StateT.run_bind, reads rest]
  rfl

theorem reads_ensure {condition : Bool} (error : ReadError) (holds : condition = true) :
    Reads (Reader.ensure condition error) [] () := by
  intro rest
  simp [Reader.ensure, StateT.run, holds]

theorem reads_orFail (error : ReadError) (found : value = some a) :
    Reads (Reader.orFail value error) [] a := by
  intro rest
  simp [Reader.orFail, StateT.run, found]

theorem reads_takeBytes (bytes : List UInt8) :
    Reads (Reader.takeBytes bytes.length) bytes bytes := by
  intro rest
  simp [Reader.takeBytes, StateT.run]

theorem reads_takeBytes_of (len : bytes.length = n) :
    Reads (Reader.takeBytes n) bytes bytes := len ▸ reads_takeBytes bytes

theorem reads_fixed (bytes : FixedBytes n) : Reads (Reader.fixed n) bytes.val bytes := by
  refine ((reads_takeBytes_of bytes.length_val).map (FixedBytes.padded n)).congr rfl ?_
  exact Subtype.ext (by simp [FixedBytes.padded])

theorem reads_byte (byte : UInt8) : Reads Reader.byte [byte] byte :=
  (reads_takeBytes [byte]).map fun bytes => bytes.headD 0

theorem reads_be (fits : n < 256 ^ width) : Reads (Reader.be width) (beBytes width n) n :=
  ((reads_takeBytes_of (length_beBytes width n)).map beNat).congr rfl (beNat_beBytes fits)

theorem reads_le (fits : n < 256 ^ width) : Reads (Reader.le width) (leBytes width n) n :=
  ((reads_takeBytes_of (length_leBytes width n)).map leNat).congr rfl (leNat_leBytes fits)

theorem reads_many {item : Reader α} {write : α → List UInt8} {values : List α}
    (each : ∀ value ∈ values, Reads item (write value) value) :
    Reads (Reader.many item values.length) (values.flatMap write) values := by
  induction values with
  | nil => exact reads_pure []
  | cons value rest ih =>
    have head := each value List.mem_cons_self
    have tail := ih fun v member => each v (List.mem_cons_of_mem _ member)
    exact head.bind (tail.map (value :: ·))

theorem Reads.decode {value : α} (reads : Reads reader bytes value) :
    Reader.decode reader bytes = .ok value := by
  have run := reads []
  rw [List.append_nil] at run
  rw [Reader.decode, run]

end Laws

/-! ### What a reader takes off -/

/-- Whatever the reader accepts, it takes `n` bytes. -/
def Takes {α : Type} (reader : Reader α) (n : Nat) : Prop :=
  ∀ buffer value rest, reader.run buffer = .ok (value, rest) → buffer.length = n + rest.length

section Takes

variable {α β : Type}

variable {reader : Reader α} {next : α → Reader β} {buffer rest : List UInt8} {n : Nat}

theorem run_bind_eq_ok {b : β} :
    (reader >>= next).run buffer = .ok (b, rest) ↔
      ∃ a mid, reader.run buffer = .ok (a, mid) ∧ (next a).run mid = .ok (b, rest) := by
  rw [StateT.run_bind]
  cases reader.run buffer with
  | error error =>
    refine ⟨(nomatch ·), ?_⟩
    rintro ⟨_, _, first, _⟩
    cases first
  | ok pair =>
    obtain ⟨a, mid⟩ := pair
    refine ⟨fun result => ⟨a, mid, rfl, result⟩, ?_⟩
    rintro ⟨a', mid', first, second⟩
    obtain ⟨rfl, rfl⟩ := Prod.mk.inj (Except.ok.inj first)
    exact second

theorem Takes.bind {m : Nat} (first : Takes reader n) (second : ∀ a, Takes (next a) m) :
    Takes (reader >>= next) (n + m) := by
  intro buffer value rest result
  obtain ⟨a, mid, one, two⟩ := run_bind_eq_ok.mp result
  have left := first buffer a mid one
  have right := second a mid value rest two
  omega

theorem takes_pure (value : α) : Takes (pure value) 0 := by
  intro buffer value' rest result
  obtain ⟨-, rfl⟩ := Prod.mk.inj (Except.ok.inj result)
  exact (Nat.zero_add _).symm

theorem takes_ensure (condition : Bool) (error : ReadError) :
    Takes (Reader.ensure condition error) 0 := by
  intro buffer value rest result
  unfold Reader.ensure StateT.run at result
  split at result
  · obtain ⟨-, rfl⟩ := Prod.mk.inj (Except.ok.inj result)
    exact (Nat.zero_add _).symm
  · cases result

theorem takes_need (n : Nat) (error : ReadError) : Takes (Reader.need n error) 0 := by
  intro buffer value rest result
  unfold Reader.need StateT.run at result
  dsimp only at result
  split at result
  · cases result
  · obtain ⟨-, rfl⟩ := Prod.mk.inj (Except.ok.inj result)
    exact (Nat.zero_add _).symm

theorem takes_orFail (value : Option α) (error : ReadError) :
    Takes (Reader.orFail value error) 0 := by
  intro buffer value' rest result
  cases value with
  | none => cases result
  | some value =>
    obtain ⟨-, rfl⟩ := Prod.mk.inj (Except.ok.inj result)
    exact (Nat.zero_add _).symm

theorem run_takeBytes {bytes : List UInt8}
    (result : (Reader.takeBytes n).run buffer = .ok (bytes, rest)) :
    n ≤ buffer.length ∧ bytes = buffer.take n ∧ rest = buffer.drop n := by
  unfold Reader.takeBytes StateT.run at result
  dsimp only at result
  split at result
  · cases result
  · next enough =>
    obtain ⟨rfl, rfl⟩ := Prod.mk.inj (Except.ok.inj result)
    exact ⟨Nat.le_of_not_lt enough, rfl, rfl⟩

theorem takes_takeBytes (n : Nat) : Takes (Reader.takeBytes n) n := by
  intro buffer bytes rest result
  obtain ⟨enough, -, rfl⟩ := run_takeBytes result
  rw [List.length_drop]
  omega

theorem takes_fixed (n : Nat) : Takes (Reader.fixed n) n :=
  (takes_takeBytes n).bind fun _ => takes_pure _

theorem takes_byte : Takes Reader.byte 1 :=
  (takes_takeBytes 1).bind fun _ => takes_pure _

theorem takes_le (width : Nat) : Takes (Reader.le width) width :=
  (takes_takeBytes width).bind fun _ => takes_pure _

/-- A number is read off the first bytes. -/
theorem run_be {width value : Nat} (result : (Reader.be width).run buffer = .ok (value, rest)) :
    width ≤ buffer.length ∧ value = beNat (buffer.take width) ∧ rest = buffer.drop width := by
  obtain ⟨bytes, mid, first, second⟩ := run_bind_eq_ok.mp result
  obtain ⟨enough, rfl, rfl⟩ := run_takeBytes first
  obtain ⟨rfl, rfl⟩ := Prod.mk.inj (Except.ok.inj second)
  exact ⟨enough, rfl, rfl⟩

end Takes

/-! ### What a reader returns -/

/-- Whatever the reader accepts, its value satisfies `P`. -/
def Returns {α : Type} (reader : Reader α) (P : α → Prop) : Prop :=
  ∀ buffer value rest, reader.run buffer = .ok (value, rest) → P value

section Returns

variable {α β : Type} {P : α → Prop} {Q : β → Prop}

theorem Returns.bind {reader : Reader α} {next : α → Reader β} (first : Returns reader P)
    (second : ∀ a, P a → Returns (next a) Q) : Returns (reader >>= next) Q := by
  intro buffer value rest result
  obtain ⟨a, mid, one, two⟩ := run_bind_eq_ok.mp result
  exact second a (first buffer a mid one) mid value rest two

theorem Returns.mono {reader : Reader α} {R : α → Prop} (returns : Returns reader P)
    (weaker : ∀ a, P a → R a) : Returns reader R :=
  fun buffer value rest result => weaker value (returns buffer value rest result)

theorem returns_any (reader : Reader α) : Returns reader fun _ => True := fun _ _ _ _ => trivial

theorem returns_be (width : Nat) : Returns (Reader.be width) fun n => n < 256 ^ width := by
  intro buffer value rest result
  obtain ⟨enough, rfl, -⟩ := run_be result
  have bound := beNat_lt (buffer.take width)
  rwa [List.length_take_of_le enough] at bound

theorem returns_takeBytes (n : Nat) :
    Returns (Reader.takeBytes n) fun bytes => bytes.length = n := by
  intro buffer bytes rest result
  obtain ⟨enough, rfl, -⟩ := run_takeBytes result
  exact List.length_take_of_le enough

theorem returns_orFail (value : Option α) (error : ReadError) :
    Returns (Reader.orFail value error) fun a => value = some a := by
  intro buffer a rest result
  cases value with
  | none => cases result
  | some found =>
    obtain ⟨rfl, -⟩ := Prod.mk.inj (Except.ok.inj result)
    rfl

end Returns

end Bytes
