import MailClient.Digest.Md5
import MailClient.Text.Decimal

/-! The keyed digest of RFC 2104 over MD5. -/
namespace MailClient.Digest

def blockSize : Nat := 64

/-- A key longer than a block counts by its digest; zeros fill the block. -/
def keyBlock (key : Bytes) : Bytes :=
  let k := if key.length > blockSize then Md5.hash key else key
  k ++ List.replicate (blockSize - k.length) 0

def hmac (key message : Bytes) : Bytes :=
  let k := keyBlock key
  let inner := Md5.hash (k.map (· ^^^ 0x36) ++ message)
  Md5.hash (k.map (· ^^^ 0x5C) ++ inner)

def hexText (bs : Bytes) : String := String.join (bs.map fun b => Text.hex 2 b.toNat)

end MailClient.Digest
