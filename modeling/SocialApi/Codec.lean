import SocialApi.Postgres
import SocialApi.Keys

/-!
# Texts of timestamps, pages and cursors

`chrono`, `serde_json` and `base64` are not part of the repository; what the
services use of them is a `Codec`, and `Codec.RoundTrips` is what they rely on:
each reader reads back what its writer wrote.

* `Cursor.decode_encode`: a cursor survives its text (cursor.rs).
* `Codec.plain_roundTrips`: there is such a codec.
-/

namespace SocialApi

open SocialApi.Postgres

/-- `CachedUserLikePage` (like_queries.rs:20–24). -/
structure CachedUserLikePage where
  rows : List LikeRow
  hasMore : Bool
  deriving DecidableEq, Repr

/-- `Cursor` (cursor.rs:15–21). -/
structure Cursor where
  timestamp : DateTime
  id : I64
  deriving DecidableEq, Repr

/-- The functions of `chrono`, `serde_json` and `base64` that the services call. -/
structure Codec where
  toRfc3339 : DateTime → String
  parseFromRfc3339 : String → Option DateTime
  pageToJson : CachedUserLikePage → Option String
  pageFromJson : String → Option CachedUserLikePage
  cursorToJson : Cursor → String
  cursorFromJson : String → Option Cursor
  base64Encode : ByteArray → String
  base64Decode : String → Option ByteArray

/-- Every reader reads back what its writer wrote; the empty text is no timestamp. -/
structure Codec.RoundTrips (C : Codec) : Prop where
  rfc3339 : ∀ ts, C.parseFromRfc3339 (C.toRfc3339 ts) = some ts
  rfc3339_empty : C.parseFromRfc3339 "" = none
  page : ∀ p json, C.pageToJson p = some json → C.pageFromJson json = some p
  cursor : ∀ c, C.cursorFromJson (C.cursorToJson c) = some c
  base64 : ∀ bytes, C.base64Decode (C.base64Encode bytes) = some bytes

theorem Codec.RoundTrips.toRfc3339_ne {C : Codec} (h : C.RoundTrips) (ts : DateTime) :
    C.toRfc3339 ts ≠ "" := by
  intro he
  have hts := h.rfc3339 ts
  rw [he, h.rfc3339_empty] at hts
  cases hts

/-! ## Cursors -/

namespace Cursor

/-- `Cursor::encode` (cursor.rs:30–33). -/
def encode (C : Codec) (c : Cursor) : String := C.base64Encode (C.cursorToJson c).toUTF8

/-- `Cursor::decode` (cursor.rs:36–44). -/
def decode (C : Codec) (encoded : String) : Option Cursor := do
  let bytes ← C.base64Decode encoded
  let json ← String.fromUTF8? bytes
  C.cursorFromJson json

theorem fromUTF8?_toUTF8 (s : String) : String.fromUTF8? s.toUTF8 = some s := by
  unfold String.fromUTF8?
  exact dif_pos s.isValidUTF8

theorem decode_encode {C : Codec} (h : C.RoundTrips) (c : Cursor) :
    decode C (encode C c) = some c := by
  simp only [decode, encode, h.base64, Option.bind_eq_bind, Option.bind_some, fromUTF8?_toUTF8,
    h.cursor]

end Cursor

/-! ## A codec -/

namespace DateTime

/-- The timestamp with the given microseconds, if it is in range. -/
def ofMicros? (n : ℤ) : Option DateTime :=
  if h : -62167219200000000 ≤ n ∧ n < 253402300800000000 then some ⟨n, h.1, h.2⟩ else none

/-- The microseconds as an `i64` (`timestamp_micros`). -/
def timestampMicros (ts : DateTime) : I64 :=
  ⟨ts.micros, by have := ts.lower; omega, by have := ts.upper; omega⟩

theorem ofMicros?_micros (ts : DateTime) : ofMicros? ts.micros = some ts := by
  unfold ofMicros?
  rw [dif_pos ⟨ts.lower, ts.upper⟩]

end DateTime

namespace Codec

/-- The text of the epoch. -/
def epochText : String := "1970-01-01T00:00:00+00:00"

/-- A page with one row, created at the epoch, and its JSON. -/
def onePage : CachedUserLikePage := ⟨[⟨1, "post", 7, .epoch⟩], false⟩

def onePageJson : String :=
  "\x7b\"rows\":[\x7b\"id\":1,\"content_type\":\"post\"," ++
    "\"content_id\":\"00000000-0000-0000-0000-000000000007\"," ++
    "\"created_at\":\"1970-01-01T00:00:00Z\"\x7d],\"has_more\":false\x7d"

/-- The number of a cursor. -/
def cursorNumber (c : Cursor) : ℕ :=
  Nat.pair (c.timestamp.micros + 62167219200000000).toNat (c.id.val + 2 ^ 63).toNat

/-- A codec that writes the epoch and `onePage` as `chrono` and `serde_json` do, and
    everything else as numbers, or not at all. -/
def plain : Codec where
  toRfc3339 ts := if ts = .epoch then epochText else ts.timestampMicros.toString
  parseFromRfc3339 s :=
    if s = epochText then some .epoch else (I64.parse s).bind fun n => DateTime.ofMicros? n.val
  pageToJson p := if p = onePage then some onePageJson else none
  pageFromJson s := if s = onePageJson then some onePage else none
  cursorToJson c := String.ofList (Nat.toDigits 10 (cursorNumber c))
  cursorFromJson s := (I64.parseDigits s.toList).bind fun n =>
    (DateTime.ofMicros? (n.unpair.1 - 62167219200000000)).bind fun ts =>
      (I64.ofInt? (n.unpair.2 - 2 ^ 63)).map fun id => ⟨ts, id⟩
  base64Encode bytes := String.ofList (bytes.data.toList.map fun b => Char.ofNat b.toNat)
  base64Decode s := some ⟨(s.toList.map fun c => UInt8.ofNat c.toNat).toArray⟩

theorem plain_cursor (c : Cursor) : plain.cursorFromJson (plain.cursorToJson c) = some c := by
  have hts : ((c.timestamp.micros + 62167219200000000).toNat : ℤ) - 62167219200000000 =
      c.timestamp.micros := by have := c.timestamp.lower; omega
  have hid : ((c.id.val + 2 ^ 63).toNat : ℤ) - 2 ^ 63 = c.id.val := by
    have := c.id.lower; omega
  show (I64.parseDigits (String.ofList _).toList).bind _ = _
  rw [String.toList_ofList, I64.parseDigits_toDigits, Option.bind_some, cursorNumber,
    Nat.unpair_pair]
  simp only [hts, hid, DateTime.ofMicros?_micros, I64.ofInt?_val, Option.bind_some,
    Option.map_some]

theorem plain_base64 (bytes : ByteArray) :
    plain.base64Decode (plain.base64Encode bytes) = some bytes := by
  have hbyte : ∀ b : UInt8, UInt8.ofNat (Char.ofNat b.toNat).toNat = b := by
    intro b
    have hlt := b.toNat_lt
    rw [Char.toNat_ofNat, if_pos (Or.inl (by omega)), UInt8.ofNat_toNat]
  have hid : ((fun c : Char => UInt8.ofNat c.toNat) ∘ fun b : UInt8 => Char.ofNat b.toNat) = id :=
    funext hbyte
  simp only [plain, String.toList_ofList, List.map_map, hid, List.map_id, Array.toArray_toList]

theorem plain_roundTrips : plain.RoundTrips where
  rfc3339 ts := by
    have hne : I64.parse epochText = none := by decide
    by_cases ht : ts = .epoch
    · simp only [plain, if_true, ht]
    · have htext : ts.timestampMicros.toString ≠ epochText := by
        intro he
        rw [← he, I64.parse_toString] at hne
        cases hne
      simp only [plain, if_neg ht, if_neg htext, I64.parse_toString, Option.bind_some]
      exact DateTime.ofMicros?_micros ts
  rfc3339_empty := by decide
  page p json h := by
    have h : (if p = onePage then some onePageJson else none) = some json := h
    split_ifs at h with hp
    simp only [plain, ← Option.some.inj h, hp, if_true]
  cursor := plain_cursor
  base64 := plain_base64

end Codec
end SocialApi
