import Mathlib.Data.List.Infix

/-!
# Sockets as the program sees them

The program reads and writes through the synchronous operations of Boost.Asio. Every operation
may be cut into pieces: `read_some` delivers some bytes, and `asio::read`, `asio::read_until` and
`asio::write` repeat `read_some` and `write_some` until they are done or one of them fails. A step
of the model is one such piece, and its result is a choice of the environment.

## Main definitions

* `ErrorCode`, `Outcome`: the results of the calls
* `Socket`: the bytes that go in and out of one socket
* `Socket.CanRead`, `Socket.CanFail`, `Socket.CanWrite`: the results a socket can give
* `Buffer`: the `std::array<char, 1500>` of a relay loop
* `stdString`, `ReadUntilDone`: the delimiter and the end of `asio::read_until`

## Main results

* `Buffer.take_fill`: the first bytes of a filled buffer are the bytes read
* `readUntilDone_delimiter`: with the delimiter of `handshake`, any nonempty buffer ends the read
-/

namespace LklSocks

/-- The error codes of `boost::system::system_error`: the program tells `asio::error::eof` from
all others. -/
inductive ErrorCode
  | eof
  | system (errno : ℤ)
  deriving DecidableEq, Repr

namespace ErrorCode

/-- `error_code()`, which is no error. -/
def success : ErrorCode := .system 0

/-- `ECONNRESET`. -/
def connectionReset : ErrorCode := .system 104

end ErrorCode

/-- What the call at which a thread stands does: it returns, with the bytes it read, the number
of bytes it wrote or the bytes the new peer is going to send, or it throws. -/
inductive Outcome
  | ok
  | data (bytes : List UInt8)
  | wrote (n : ℕ)
  | connected (incoming : List UInt8)
  | error (ec : ErrorCode)
  deriving DecidableEq, Repr

/-- A socket: whether it is open, the bytes that its peer sends before its EOF and that are not
yet read, and the history of the bytes read and written. A peer sends finitely many bytes, which
matters only for runs without end: a finite run reads finitely many of them. -/
structure Socket where
  isOpen : Bool
  incoming : List UInt8
  received : List UInt8
  sent : List UInt8
  deriving DecidableEq, Repr

namespace Socket

/-- A socket that was never open. -/
def closed : Socket := ⟨false, [], [], []⟩

/-- `read_some` can return `bs`: a nonempty part of what the peer sends next. -/
def CanRead (s : Socket) (bs : List UInt8) : Prop :=
  s.isOpen = true ∧ bs ≠ [] ∧ bs <+: s.incoming

/-- `read_some` can throw `ec`, which is an error. EOF needs that the peer sent
everything, or that the socket was shut down and closed under the reader. -/
def CanFail (s : Socket) (ec : ErrorCode) : Prop :=
  ec ≠ .success ∧ (ec = .eof → s.incoming = [] ∨ s.isOpen = false)

/-- `write_some` can write `n` of the bytes `bs`. -/
def CanWrite (s : Socket) (bs : List UInt8) (n : ℕ) : Prop :=
  s.isOpen = true ∧ 0 < n ∧ n ≤ bs.length

instance (s : Socket) (bs : List UInt8) : Decidable (s.CanRead bs) :=
  inferInstanceAs (Decidable (_ ∧ _ ∧ _))

instance (s : Socket) (ec : ErrorCode) : Decidable (s.CanFail ec) :=
  inferInstanceAs (Decidable (_ ∧ _))

instance (s : Socket) (bs : List UInt8) (n : ℕ) : Decidable (s.CanWrite bs n) :=
  inferInstanceAs (Decidable (_ ∧ _ ∧ _))

def read (s : Socket) (bs : List UInt8) : Socket :=
  { s with incoming := s.incoming.drop bs.length, received := s.received ++ bs }

def write (s : Socket) (bs : List UInt8) : Socket := { s with sent := s.sent ++ bs }

/-- `shutdown(shutdown_both)` and `close`, which the program calls together. -/
def close (s : Socket) : Socket := { s with isOpen := false }

/-- The socket after `open` and a successful connect or accept. -/
def connect (s : Socket) (incoming : List UInt8) : Socket :=
  { s with isOpen := true, incoming := incoming }

@[simp] theorem read_received (s : Socket) (bs : List UInt8) :
    (s.read bs).received = s.received ++ bs := rfl

/-- A read takes its bytes from the front of what the peer sends. -/
theorem CanRead.incoming_eq {s : Socket} {bs : List UInt8} (h : s.CanRead bs) :
    bs ++ (s.read bs).incoming = s.incoming := by
  obtain ⟨rest, hr⟩ := h.2.2
  simp [read, ← hr]

/-- What the peer sends in total is unchanged by a read. -/
theorem CanRead.total {s : Socket} {bs : List UInt8} (h : s.CanRead bs) :
    (s.read bs).received ++ (s.read bs).incoming = s.received ++ s.incoming := by
  rw [read_received, List.append_assoc, h.incoming_eq]

end Socket

/-! ## The buffer of a relay loop -/

/-- The size of the arrays of the relay loops. -/
def bufferSize : ℕ := 1500

/-- A `std::array<char, 1500>`. -/
structure Buffer where
  bytes : List UInt8
  length_eq : bytes.length = bufferSize

namespace Buffer

/-- An array of zeros. -/
def zeros : Buffer := ⟨List.replicate bufferSize 0, List.length_replicate⟩

/-- `read_some` stores the bytes it read at the front; the rest keeps its old contents. -/
def fill (b : Buffer) (bs : List UInt8) (h : bs.length ≤ bufferSize) : Buffer :=
  -- the bytes that were read come first, and the size stays
  ⟨bs ++ b.bytes.drop bs.length, by
    have := b.length_eq
    rw [List.length_append, List.length_drop]
    omega⟩

@[simp] theorem take_fill (b : Buffer) (bs : List UInt8) (h : bs.length ≤ bufferSize) :
    (b.fill bs h).bytes.take bs.length = bs := by
  simp [fill]

/-- The bytes that `asio::write(asio::buffer(buf, length))` has still to write. -/
def pending (b : Buffer) (length written : ℕ) : List UInt8 := (b.bytes.take length).drop written

theorem pending_fill (b : Buffer) (bs : List UInt8) (h : bs.length ≤ bufferSize) :
    (b.fill bs h).pending bs.length 0 = bs := by
  rw [pending, take_fill, List.drop_zero]

theorem take_append_pending (b : Buffer) (length written n : ℕ) :
    (b.pending length written).take n ++ b.pending length (written + n) =
      b.pending length written := by
  rw [pending, pending, ← List.drop_drop, List.take_append_drop]

end Buffer

/-! ## The end of `asio::read_until` -/

/-- The `std::string` of a string literal, given by its characters with the terminating zero:
the constructor stops at the first zero. -/
def stdString (chars : List UInt8) : List UInt8 := chars.takeWhile (· ≠ 0)

/-- The delimiter of `handshake`: the literal `"\0"` has the characters `0` and `0`. -/
def delimiter : List UInt8 := stdString [0, 0]

/-- `asio::read_until` returns: its buffer is nonempty and contains the delimiter. -/
def ReadUntilDone (delim buf : List UInt8) : Prop := buf ≠ [] ∧ delim <:+: buf

instance (delim buf : List UInt8) : Decidable (ReadUntilDone delim buf) :=
  inferInstanceAs (Decidable (_ ∧ _))

/-- **The delimiter is empty**, so `asio::read_until` returns after its first read. -/
theorem readUntilDone_delimiter (buf : List UInt8) :
    ReadUntilDone delimiter buf ↔ buf ≠ [] :=
  ⟨fun h => h.1, fun h => ⟨h, List.nil_infix⟩⟩

end LklSocks
