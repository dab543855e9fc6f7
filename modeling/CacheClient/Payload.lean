import CacheClient.Failure

namespace CacheClient

class Encode (α : Type) where
  encode : α → Answer Bytes

class Decode (α : Type) where
  decode : Bytes → Answer α

export Encode (encode)
export Decode (decode)

instance : Encode Bytes := ⟨.ok⟩

instance : Decode Bytes := ⟨.ok⟩

/-- A text that ends before its first NUL byte; none stands for the empty text. -/
structure Terminated where
  text : Option Bytes

instance : Encode Terminated where
  encode value := .ok (value.text.getD []).beforeNul

end CacheClient
