import Switchyard.Bytes

/-!
# Messages in blocks of 64 bytes

The framing that SHA-1 and SHA-224 share (FIPS 180-4, section 5.1.1): a message is followed by
the byte `0x80`, zero bytes, and its length in bits as 64-bit number, so that the whole is a
multiple of 64 bytes long (`length_pad`). The blocks are then folded into the state one by one.
-/

namespace Switchyard.Digest

/-- How many zero bytes pad a message of `n` bytes. -/
def zeroCount (n : Nat) : Nat :=
  (119 - n % 64) % 64

/-- The message with its padding. -/
def pad (message : Bytes) : Bytes :=
  let n := message.length
  message ++ 0x80 :: (List.replicate (zeroCount n) 0 ++ Bytes.ofNat 8 (8 * n))

theorem length_pad (message : Bytes) : (pad message).length % 64 = 0 := by
  simp only [pad, zeroCount, List.length_append, List.length_cons, List.length_replicate,
    Bytes.length_ofNat]
  omega

/-- Folds the blocks of 64 bytes into the state; a shorter rest counts as a block. -/
def foldBlocks {σ : Type} (step : σ → Bytes → σ) (state : σ) (bs : Bytes) : σ :=
  match _h : bs with
  | [] => state
  | _ :: _ => foldBlocks step (step state (bs.take 64)) (bs.drop 64)
termination_by bs.length
decreasing_by
  simp only [_h, List.length_drop, List.length_cons]
  omega

/-- The 32-bit words of a byte string, four bytes each, most significant first. -/
def words : Bytes → List UInt32
  | a :: b :: c :: d :: rest =>
    (a.toUInt32 <<< 24 ||| b.toUInt32 <<< 16 ||| c.toUInt32 <<< 8 ||| d.toUInt32) :: words rest
  | _ => []

/-- The four bytes of a word, most significant first. -/
def wordBytes (w : UInt32) : Bytes :=
  [(w >>> 24).toUInt8, (w >>> 16).toUInt8, (w >>> 8).toUInt8, w.toUInt8]

/-- The word with its bits moved `k` places up in a circle, for `0 < k < 32`. -/
def rotateLeft (w : UInt32) (k : UInt32) : UInt32 :=
  (w <<< k) ||| (w >>> (32 - k))

end Switchyard.Digest
