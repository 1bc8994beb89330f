import Switchyard.Http.Request

/-!
# Bodies

The body of a request is read only to find its end. A counted body ends after its bytes; chunks end
with one of size zero (RFC 9112, section 7.1), behind which more fields may stand. Reading stops when
some bytes of the body were found, when the body is over, or when there are no more bytes; it never
gives back more bytes than it was given: `length_rest_read_le`.
-/

namespace Switchyard

/-- The lines behind the last chunk. -/
structure Trailers where
  /-- Their bytes, last one first. -/
  bytes : List UInt8
  size : Nat
  /-- How many of them are complete. -/
  lines : Nat
  deriving DecidableEq, Repr

/-- Where the reading of a body in chunks is. -/
inductive ChunkStage where
  /-- A size has to begin. -/
  | sizeStart
  /-- In a size. -/
  | size (n : Nat)
  /-- In the blanks behind a size. -/
  | sizeBlank (n : Nat)
  /-- In what may follow a size. -/
  | extension (n : Nat)
  /-- At the last byte of a line with a size. -/
  | sizeEnd (n : Nat)
  /-- In a chunk with so many bytes to come. -/
  | data (left : Nat)
  /-- At the line end behind a chunk. -/
  | dataEnd
  /-- At the last byte of the line end behind a chunk. -/
  | dataEndFeed
  /-- At the start of a line behind the last chunk. -/
  | lastLine (trailers : Option Trailers)
  /-- In a field behind the last chunk. -/
  | trailer (trailers : Trailers)
  /-- At the last byte of the line of such a field. -/
  | trailerFeed (trailers : Trailers)
  /-- At the last byte of the body. -/
  | lastFeed (trailers : Option Trailers)
  deriving DecidableEq, Repr

/-- Where the reading of a body is. -/
inductive Body where
  /-- So many bytes are to come. -/
  | counted (left : Nat)
  /-- The body is cut into chunks; so many bytes stood behind their sizes. -/
  | chunked (stage : ChunkStage) (extended : Nat)
  deriving DecidableEq, Repr

/-- What reading a body comes to. -/
inductive BodyRead where
  /-- The body is over; these bytes stand behind it. -/
  | ended (rest : Bytes)
  /-- Bytes of the body were found; these stand behind them. -/
  | part (body : Body) (rest : Bytes)
  /-- All bytes were taken, and none was of the body. -/
  | hungry (body : Body)
  /-- A byte does not belong into this body, whose end cannot be found; these stand behind it. -/
  | lost (rest : Bytes)
  deriving DecidableEq, Repr

namespace Trailers

/-- The most bytes behind the last chunk. -/
def maxSize : Nat := 16 * 1024 - 1

/-- The most lines behind the last chunk. -/
def maxLines : Nat := 100

/-- The first byte of the first line. -/
def first (b : UInt8) : Trailers :=
  ⟨[b], 1, 0⟩

/-- Takes in a byte, if there is room for it. -/
def put (t : Trailers) (b : UInt8) : Option Trailers :=
  if t.size < maxSize then some { t with bytes := b :: t.bytes, size := t.size + 1 } else none

/-- Takes in the byte that ends a line, if there may be one more. -/
def putLine (t : Trailers) (b : UInt8) : Option Trailers :=
  if t.lines < maxLines then { t with lines := t.lines + 1 }.put b else none

/-- The lines are fields, at most one in each. -/
def areFields (t : Trailers) : Bool :=
  match Http.fields t.lines [] t.bytes.reverse with
  | .done .. => true
  | .short | .bad _ => false

end Trailers

namespace Body

/-- The body that a framing announces. -/
def ofFraming : Framing → Option Body
  | .empty => none
  | .counted n => some (counted n)
  | .chunked => some (chunked .sizeStart 0)

/-- The body is counted, so its last bytes come as one part. -/
def isCounted : Body → Bool
  | counted _ => true
  | chunked .. => false

/-- The most bytes behind all sizes of a body. -/
def maxExtended : Nat := 16 * 1024 - 1

/-- What a byte outside of the data leads to. -/
inductive Turn where
  | go (stage : ChunkStage) (extended : Nat)
  | ended
  | lost
  deriving DecidableEq, Repr

/-- What may follow the digits of a size. -/
def afterSize (n extended : Nat) (b : UInt8) : Turn :=
  if b = space ∨ b = tab then .go (.sizeBlank n) extended
  else if b.toNat = ';'.toNat then .go (.extension n) extended
  else if b = carriageReturn then .go (.sizeEnd n) extended
  else .lost

/-- Takes in a digit of a size, which stays below `2 ^ 64`. -/
def digit (n d extended : Nat) : Turn :=
  if 16 * n + d < UInt64.size then .go (.size (16 * n + d)) extended else .lost

/-- Goes on to the stage if there is one and the byte is the wanted one. -/
def expecting (wanted b : UInt8) (stage : Option ChunkStage) (extended : Nat) : Turn :=
  match stage with
  | some stage => if b = wanted then .go stage extended else .lost
  | none => .lost

/-- Takes in a byte of a line behind the last chunk. -/
def inTrailer (trailers : Option Trailers) (b : UInt8) (extended : Nat) : Turn :=
  match trailers with
  | some t => .go (if b = carriageReturn then .trailerFeed t else .trailer t) extended
  | none => .lost

/-- Takes in a byte outside of the data. -/
def step (stage : ChunkStage) (extended : Nat) (b : UInt8) : Turn :=
  let value := Hex.value? (Char.ofNat b.toNat)
  match stage with
  | .sizeStart =>
    match value with
    | some d => digit 0 d extended
    | none => .lost
  | .size n =>
    match value with
    | some d => digit n d extended
    | none => afterSize n extended b
  | .sizeBlank n => afterSize n extended b
  | .extension n =>
    if b = carriageReturn then .go (.sizeEnd n) extended
    else if b = lineFeed ∨ maxExtended ≤ extended then .lost
    else .go (.extension n) (extended + 1)
  | .sizeEnd n =>
    expecting lineFeed b (some (if n = 0 then .lastLine none else .data n)) extended
  | .dataEnd => expecting carriageReturn b (some .dataEndFeed) extended
  | .dataEndFeed => expecting lineFeed b (some .sizeStart) extended
  | .lastLine none =>
    .go (if b = carriageReturn then .lastFeed none else .trailer (.first b)) extended
  | .lastLine (some t) =>
    match t.put b with
    | some t => .go (if b = carriageReturn then .lastFeed (some t) else .trailer t) extended
    | none => .lost
  | .trailer t => inTrailer (t.put b) b extended
  | .trailerFeed t => expecting lineFeed b ((t.putLine b).map fun t => .lastLine (some t)) extended
  | .lastFeed trailers =>
    if b = lineFeed then
      match trailers with
      | none => .ended
      | some t => if (t.put b).any Trailers.areFields then .ended else .lost
    else .lost
  | .data _ => .lost

/-- Reads chunks as far as their next bytes. -/
def readChunks (stage : ChunkStage) (extended : Nat) : Bytes → BodyRead
  | [] => .hungry (chunked stage extended)
  | b :: bs =>
    match stage with
    | .data n =>
      if n ≤ (b :: bs).length then .part (chunked .dataEnd extended) ((b :: bs).drop n)
      else .part (chunked (.data (n - (b :: bs).length)) extended) []
    | stage =>
      match step stage extended b with
      | .go stage extended => readChunks stage extended bs
      | .ended => .ended bs
      | .lost => .lost bs

/-- Reads a body as far as its next bytes. -/
def read (body : Body) (bs : Bytes) : BodyRead :=
  match body with
  | counted n =>
    if bs = [] then .hungry body
    else if n ≤ bs.length then .ended (bs.drop n)
    else .part (counted (n - bs.length)) []
  | chunked stage extended => readChunks stage extended bs

end Body

/-- The bytes behind what was read. -/
def BodyRead.rest : BodyRead → Bytes
  | ended rest => rest
  | part _ rest => rest
  | hungry _ => []
  | lost rest => rest

theorem Body.length_rest_readChunks_le (stage : ChunkStage) (extended : Nat) (bs : Bytes) :
    (readChunks stage extended bs).rest.length ≤ bs.length := by
  induction bs generalizing stage extended with
  | nil => simp [readChunks, BodyRead.rest]
  | cons b bs ih =>
    unfold readChunks
    split
    · split <;> simp [BodyRead.rest]
    · split
      · exact Nat.le_succ_of_le (ih _ _)
      · simp [BodyRead.rest]
      · simp [BodyRead.rest]

theorem Body.length_rest_read_le (body : Body) (bs : Bytes) :
    (body.read bs).rest.length ≤ bs.length := by
  cases body with
  | counted n =>
    simp only [read]
    split
    · simp [BodyRead.rest]
    · split <;> simp [BodyRead.rest]
  | chunked stage extended => exact length_rest_readChunks_le stage extended bs

end Switchyard
