import ClassFormat.Bytes
import ClassFormat.Notice
/-!
# Readers

A reader takes a value off the front of a byte list. It answers the value with the bytes behind it,
or the cause of failure, and in either case the notices it left on the way. A reader sees only the
bytes it takes: that is what makes the format read from left to right.

`loop` is the one way to repeat a reader. It keeps the notices and the state at hand, so that a
table of any length is read in constant stack, and `many` collects a table with it.
-/

namespace ClassFormat

/-- What a reader made of its input. -/
structure Reading (α : Type) where
  /-- The value and the bytes behind it, or the cause of failure. -/
  outcome : Except Error (α × Bytes)
  /-- Notices in the order in which they arose. -/
  notices : List Notice

/-- Takes a value off the front of a byte list. -/
def Reader (α : Type) : Type := Bytes → Reading α

namespace Reader

variable {α β σ : Type}

/-- Run a reader on an input. -/
@[inline] def run (reader : Reader α) (input : Bytes) : Reading α := reader input

@[inline] protected def pure (value : α) : Reader α := fun input => ⟨.ok (value, input), []⟩

@[inline] protected def bind (reader : Reader α) (next : α → Reader β) : Reader β := fun input =>
  match reader input with
  | ⟨.ok (value, rest), notices⟩ =>
    let reading := next value rest
    ⟨reading.outcome, notices ++ reading.notices⟩
  | ⟨.error cause, notices⟩ => ⟨.error cause, notices⟩

instance : Monad Reader where
  pure := Reader.pure
  bind := Reader.bind

/-- Refuse the input. -/
def fail (cause : Error) : Reader α := fun _ => ⟨.error cause, []⟩

/-- Leave a notice. -/
def note (notice : Notice) : Reader Unit := fun input => ⟨.ok ((), input), [notice]⟩

/-- A value found without reading. -/
def ofExcept : Except Error α → Reader α
  | .ok value => Reader.pure value
  | .error cause => fail cause

/-! ## Blocks and numbers -/

/-- The next `length` bytes, as long as there are that many. -/
def take (wanted : Shortfall) (length : Nat) : Reader Bytes := fun input =>
  let block := input.take length
  if block.length = length then ⟨.ok (block, input.drop length), []⟩
  else ⟨.error (.endOfInput wanted), []⟩

/-- A block of bytes of known length. -/
def block (length : Nat) : Reader Bytes := take .block length

/-- A big-endian number of `width` bytes. -/
def number (width : Nat) : Reader Nat := BigEndian.decode <$> take .number width

def u8 : Reader UInt8 := UInt8.ofNat <$> number 1
def u16 : Reader UInt16 := UInt16.ofNat <$> number 2
def u32 : Reader UInt32 := UInt32.ofNat <$> number 4
def u64 : Reader UInt64 := UInt64.ofNat <$> number 8
def i8 : Reader Int8 := UInt8.toInt8 <$> u8
def i16 : Reader Int16 := UInt16.toInt16 <$> u16
def i32 : Reader Int32 := UInt32.toInt32 <$> u32
def i64 : Reader Int64 := UInt64.toInt64 <$> u64

/-! ## Repetition -/

/-- Repeat a step while `more` holds of the state, at most `bound` times. The notices left so far
are at hand, last one first. -/
def loopFrom (more : σ → Bool) (step : σ → Reader σ) :
    Nat → σ → List Notice → Bytes → Reading σ
  | 0, state, noted, input => ⟨.ok (state, input), noted.reverse⟩
  | bound + 1, state, noted, input =>
    if more state then
      match step state input with
      | ⟨.ok (state, rest), notices⟩ =>
        loopFrom more step bound state (notices.reverse ++ noted) rest
      | ⟨.error cause, notices⟩ => ⟨.error cause, (notices.reverse ++ noted).reverse⟩
    else ⟨.ok (state, input), noted.reverse⟩

/-- Repeat a step while `more` holds of the state, at most `bound` times. -/
def loop (more : σ → Bool) (step : σ → Reader σ) (bound : Nat) (state : σ) : Reader σ :=
  loopFrom more step bound state []

/-- Repeat a step a given number of times. -/
def times (count : Nat) (step : σ → Reader σ) (state : σ) : Reader σ :=
  loop (fun _ => true) step count state

/-- Read a given number of values, one after another. -/
def many (count : Nat) (reader : Reader α) : Reader (List α) :=
  List.reverse <$> times count (fun found => (· :: found) <$> reader) []

/-- A sequence behind the number of its elements in two bytes. -/
def sequence (reader : Reader α) : Reader (List α) := do
  let count ← u16
  many count.toNat reader

/-- A sequence behind the number of its elements in one byte. -/
def shortSequence (reader : Reader α) : Reader (List α) := do
  let count ← u8
  many count.toNat reader

/-! ## Laws -/

@[simp] theorem run_pure (value : α) (input : Bytes) :
    (pure value : Reader α) input = ⟨.ok (value, input), []⟩ := rfl

@[simp] theorem run_fail (cause : Error) (input : Bytes) :
    (fail cause : Reader α) input = ⟨.error cause, []⟩ := rfl

@[simp] theorem run_note (notice : Notice) (input : Bytes) :
    note notice input = ⟨.ok ((), input), [notice]⟩ := rfl

/-- After a success the rest is for the next reader, whose notices come behind. -/
theorem run_bind_ok {reader : Reader α} {input rest : Bytes} {value : α} {notices : List Notice}
    (h : reader input = ⟨.ok (value, rest), notices⟩) (next : α → Reader β) :
    (reader >>= next) input
      = ⟨(next value rest).outcome, notices ++ (next value rest).notices⟩ := by
  change Reader.bind reader next input = _
  simp [Reader.bind, h]

/-- After a failure nothing more is read. -/
theorem run_bind_error {reader : Reader α} {input : Bytes} {cause : Error} {notices : List Notice}
    (h : reader input = ⟨.error cause, notices⟩) (next : α → Reader β) :
    (reader >>= next) input = ⟨.error cause, notices⟩ := by
  change Reader.bind reader next input = _
  simp [Reader.bind, h]

/-- A reading is a success with its rest or a failure, and has its notices either way. -/
theorem reading_cases (reading : Reading α) :
    (∃ value rest, reading = ⟨.ok (value, rest), reading.notices⟩)
      ∨ ∃ cause, reading = ⟨.error cause, reading.notices⟩ := by
  rcases reading with ⟨cause | ⟨value, rest⟩, notices⟩
  · exact .inr ⟨cause, rfl⟩
  · exact .inl ⟨value, rest, rfl⟩

instance : LawfulMonad Reader := LawfulMonad.mk' Reader
  (by
    intro α reader
    funext input
    change (reader >>= pure) input = reader input
    rcases reading_cases (reader input) with ⟨value, rest, h⟩ | ⟨cause, h⟩
    · rw [run_bind_ok h, h]
      simp
    · rw [run_bind_error h, h])
  (by
    intro α β value next
    funext input
    rw [run_bind_ok (run_pure value input)]
    simp)
  (by
    intro α β γ reader next last
    funext input
    rcases reading_cases (reader input) with ⟨value, rest, h⟩ | ⟨cause, h⟩
    · rw [run_bind_ok h (fun value => next value >>= last)]
      have h3 := run_bind_ok h next
      rcases h2 : next value rest with ⟨cause | ⟨value, rest⟩, notices⟩
      · rw [h2] at h3
        rw [run_bind_error h3, run_bind_error h2]
      · rw [h2] at h3
        rw [run_bind_ok h3, run_bind_ok h2]
        simp
    · rw [run_bind_error h, run_bind_error (run_bind_error h next)])

/-- The notices at hand when a loop starts come before its own. -/
theorem loopFrom_eq (more : σ → Bool) (step : σ → Reader σ) (bound : Nat) (state : σ)
    (noted : List Notice) (input : Bytes) :
    loopFrom more step bound state noted input
      = ⟨(loop more step bound state input).outcome,
          noted.reverse ++ (loop more step bound state input).notices⟩ := by
  unfold loop
  induction bound generalizing state noted input with
  | zero => simp [loopFrom]
  | succ bound ih =>
    by_cases hmore : more state
    · simp only [loopFrom, hmore, if_true]
      rcases step state input with ⟨cause | ⟨next, rest⟩, notices⟩
      · simp
      · simp only [List.append_nil]
        rw [ih next (notices.reverse ++ noted), ih next notices.reverse]
        simp
    · simp [loopFrom, hmore]

theorem loop_zero (more : σ → Bool) (step : σ → Reader σ) (state : σ) :
    loop more step 0 state = pure state := by
  funext input
  simp [loop, loopFrom]

/-- A loop is a step and the loop from the state after it, as long as there is more to do. -/
theorem loop_succ (more : σ → Bool) (step : σ → Reader σ) (bound : Nat) (state : σ) :
    loop more step (bound + 1) state
      = if more state then step state >>= loop more step bound else pure state := by
  funext input
  by_cases hmore : more state
  · simp only [hmore, if_true]
    rcases hstep : step state input with ⟨cause | ⟨next, rest⟩, notices⟩
    · rw [run_bind_error hstep]
      simp [loop, loopFrom, hmore, hstep]
    · rw [run_bind_ok hstep, loop, loopFrom]
      simp only [hmore, hstep, if_true]
      rw [loopFrom_eq]
      simp
  · simp [loop, loopFrom, hmore]

theorem times_zero (step : σ → Reader σ) (state : σ) : times 0 step state = pure state :=
  loop_zero ..

theorem times_succ (count : Nat) (step : σ → Reader σ) (state : σ) :
    times (count + 1) step state = step state >>= times count step := by
  rw [times, loop_succ]
  rfl

@[simp] theorem many_zero (reader : Reader α) : many 0 reader = pure [] := by
  simp [many, times_zero]

/-- Values found earlier stand in front of those of the loop. -/
theorem times_cons (reader : Reader α) (count : Nat) (found : List α) :
    List.reverse <$> times count (fun found => (· :: found) <$> reader) found
      = (found.reverse ++ ·) <$> many count reader := by
  induction count generalizing found with
  | zero => simp [times_zero]
  | succ count ih =>
    simp only [many, times_succ, map_bind, bind_map_left]
    congr 1
    funext value
    rw [ih, ih [value], Functor.map_map]
    simp

/-- A table is its first value and the table of the others. -/
theorem many_succ (count : Nat) (reader : Reader α) :
    many (count + 1) reader = reader >>= fun value => (value :: ·) <$> many count reader := by
  rw [many, times_succ, map_bind, bind_map_left]
  congr 1
  funext value
  rw [times_cons]
  rfl

end Reader

end ClassFormat
