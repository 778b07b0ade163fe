import SocialApi.Types

/-!
# Texts and cache keys

The texts the services store: the decimal form of an `i64`
(`count.to_string()`, `value.parse::<i64>()`), the hyphenated form of a `Uuid`,
and the keys of the cache.

The caches are keyed by `CacheKey`, the arguments a key is built from;
`CacheKey.render` is the string the code builds with `format!`.
`render_lc_injective`, `render_ls_injective`, `render_ul_injective` and
`render_family` show that two different keys never render to the same string,
so that a map keyed by `CacheKey` behaves as the map keyed by the strings.

* `I64.parse_toString`: an `i64` is read back from its text.
* `Uuid.toList_injective`, `Uuid.length_toList`: the text of a `Uuid` has 36
  characters and determines it.
-/

namespace SocialApi

/-! ## The text of an `i64` -/

namespace I64

/-- `i64::to_string`. -/
def toString (c : I64) : String :=
  String.ofList (if c.val < 0 then '-' :: Nat.toDigits 10 c.val.natAbs
    else Nat.toDigits 10 c.val.natAbs)

/-- The value of a non-empty run of decimal digits. -/
def parseDigits (ds : List Char) : Option ℕ :=
  if ds ≠ [] ∧ ds.all Char.isDigit then some (Nat.ofDigitChars 10 ds 0) else none

/-- `str::parse::<i64>`: an optional sign, then at least one digit, in range. -/
def parse (s : String) : Option I64 :=
  match s.toList with
  | '-' :: ds => (parseDigits ds).bind fun n => ofInt? (-n)
  | '+' :: ds => (parseDigits ds).bind fun n => ofInt? n
  | ds => (parseDigits ds).bind fun n => ofInt? n

theorem parseDigits_toDigits (n : ℕ) : parseDigits (Nat.toDigits 10 n) = some n := by
  have hall : (Nat.toDigits 10 n).all Char.isDigit = true := by
    rw [List.all_eq_true]
    intro c hc
    exact Nat.isDigit_of_mem_toDigits (by norm_num) (by norm_num) hc
  unfold parseDigits
  rw [if_pos ⟨Nat.toDigits_ne_nil, hall⟩, Nat.ofDigitChars_ten_toDigits]

/-- A decimal number does not start with a sign. -/
theorem parse_unsigned {s : String} {n : ℕ} (h : s.toList = Nat.toDigits 10 n) :
    parse s = ofInt? n := by
  have hhead : ∀ c ds, Nat.toDigits 10 n = c :: ds → c.isDigit = true := by
    intro c ds hc
    exact Nat.isDigit_of_mem_toDigits (b := 10) (n := n) (by norm_num) (by norm_num) (by simp [hc])
  have hn := parseDigits_toDigits n
  unfold parse
  rw [h]
  split
  · rename_i ds hd; exact absurd (hhead _ _ hd) (by decide)
  · rename_i ds hd; exact absurd (hhead _ _ hd) (by decide)
  · rw [hn, Option.bind_some]

theorem parse_toString (c : I64) : parse c.toString = some c := by
  unfold toString
  split_ifs with h
  · have hneg : -(c.val.natAbs : ℤ) = c.val := by omega
    simp only [parse, String.toList_ofList, parseDigits_toDigits, Option.bind_some]
    rw [hneg, ofInt?_val]
  · have hpos : (c.val.natAbs : ℤ) = c.val := by omega
    rw [parse_unsigned (n := c.val.natAbs) (String.toList_ofList), hpos, ofInt?_val]

end I64

/-! ## The text of a `Uuid` -/

namespace Uuid

/-- `n` hexadecimal digits, the most significant of them digit number `hi`. -/
def digitRun (hi n : ℕ) : List (Option ℕ) := (List.range n).map fun j => some (hi - j)

/-- The hyphenated form `8-4-4-4-12`: for each character the number of its digit, or
    `none` for a hyphen. -/
def layout : List (Option ℕ) :=
  digitRun 31 8 ++ none :: digitRun 23 4 ++ none :: digitRun 19 4 ++ none :: digitRun 15 4 ++
    none :: digitRun 11 12

/-- Digit number `i` of the hexadecimal form, the least significant being number 0. -/
def nibble (u : Uuid) (i : ℕ) : ℕ := u.toNat / 16 ^ i % 16

/-- The characters of `Uuid`'s `Display`: lower-case and hyphenated. -/
def toList (u : Uuid) : List Char :=
  layout.map fun
    | none => '-'
    | some i => (nibble u i).digitChar

/-- `Uuid`'s `Display`. -/
def toString (u : Uuid) : String := String.ofList (toList u)

theorem length_toList (u : Uuid) : (toList u).length = 36 := by
  simp only [toList, List.length_map]
  decide

theorem digitChar_injective : ∀ a < 16, ∀ b < 16, Nat.digitChar a = Nat.digitChar b → a = b := by
  decide

/-- Numbers with the same `n` low hexadecimal digits agree modulo `16 ^ n`. -/
theorem mod_eq_of_nibbles {a b : ℕ} :
    ∀ n, (∀ i < n, a / 16 ^ i % 16 = b / 16 ^ i % 16) → a % 16 ^ n = b % 16 ^ n := by
  intro n
  induction n with
  | zero => intro _; simp [Nat.mod_one]
  | succ n ih =>
    intro h
    rw [pow_succ, Nat.mod_mul, Nat.mod_mul, ih fun i hi => h i (by omega), h n (by omega)]

theorem toList_injective : Function.Injective toList := by
  intro u v h
  have hmap := List.map_inj_left.mp h
  have hnib : ∀ i < 32, nibble u i = nibble v i := by
    intro i hi
    have hmem : ∀ j < 32, some j ∈ layout := by decide
    have := hmap (some i) (hmem i hi)
    exact digitChar_injective _ (Nat.mod_lt _ (by norm_num)) _ (Nat.mod_lt _ (by norm_num)) this
  have hmod := mod_eq_of_nibbles 32 hnib
  have hlt : ∀ w : Uuid, w.toNat % 16 ^ 32 = w.toNat := fun w =>
    Nat.mod_eq_of_lt (lt_of_lt_of_eq w.isLt (by norm_num))
  rw [hlt, hlt] at hmod
  exact BitVec.eq_of_toNat_eq hmod

end Uuid

/-! ## Cache keys -/

/-- The keys of `CacheManager`'s string cache. -/
inductive CacheKey where
  /-- `lc:{content_type}:{content_id}` (like_count_cache.rs:274–276). -/
  | lc (contentType : String) (contentId : Uuid)
  /-- `ls:{user_id}:{content_type}:{content_id}` (like_queries.rs:431–433). -/
  | ls (userId : Uuid) (contentType : String) (contentId : Uuid)
  /-- `ul:{user_id}:{filter_key}` (like_queries.rs:114–115). -/
  | ul (userId : Uuid) (filterKey : String)
  /-- `tok:{hash:x}` (profile_client.rs:39–41). -/
  | tok (hash : BitVec 64)
  /-- `lbf:{window}:{content_type}:{limit}` (like_queries.rs:337, leaderboard_refresh.rs:145–150). -/
  | lbf (window : TimeWindow) (contentType : String) (limit : ℕ)
  deriving DecidableEq, Repr

namespace CacheKey

/-- The string the code builds. -/
def render : CacheKey → String
  | lc ct cid => "lc:" ++ ct ++ ":" ++ cid.toString
  | ls uid ct cid => "ls:" ++ uid.toString ++ ":" ++ ct ++ ":" ++ cid.toString
  | ul uid filterKey => "ul:" ++ uid.toString ++ ":" ++ filterKey
  | tok hash => "tok:" ++ String.ofList (Nat.toDigits 16 hash.toNat)
  | lbf window ct limit =>
    "lbf:" ++ window.asStr ++ ":" ++ ct ++ ":" ++ String.ofList (Nat.toDigits 10 limit)

theorem render_lc_injective {ct ct' : String} {cid cid' : Uuid}
    (h : (lc ct cid).render = (lc ct' cid').render) : ct = ct' ∧ cid = cid' := by
  have h := congrArg String.toList h
  simp only [render, String.toList_append, Uuid.toString, String.toList_ofList] at h
  obtain ⟨hl, hr⟩ := List.append_inj' h (by simp [Uuid.length_toList])
  obtain ⟨hl, -⟩ := List.append_inj' hl rfl
  exact ⟨String.toList_inj.mp (List.append_cancel_left hl), Uuid.toList_injective hr⟩

theorem render_ls_injective {uid uid' : Uuid} {ct ct' : String} {cid cid' : Uuid}
    (h : (ls uid ct cid).render = (ls uid' ct' cid').render) : uid = uid' ∧ ct = ct' ∧ cid = cid' := by
  have h := congrArg String.toList h
  simp only [render, String.toList_append, Uuid.toString, String.toList_ofList] at h
  obtain ⟨hl, hr⟩ := List.append_inj' h (by simp [Uuid.length_toList])
  obtain ⟨hl, -⟩ := List.append_inj' hl rfl
  simp only [List.append_assoc] at hl
  obtain ⟨hu, hct⟩ := List.append_inj (List.append_cancel_left hl) (by simp [Uuid.length_toList])
  exact ⟨Uuid.toList_injective hu, String.toList_inj.mp (List.append_cancel_left hct),
    Uuid.toList_injective hr⟩

theorem render_ul_injective {uid uid' : Uuid} {f f' : String}
    (h : (ul uid f).render = (ul uid' f').render) : uid = uid' ∧ f = f' := by
  have h := congrArg String.toList h
  simp only [render, String.toList_append, Uuid.toString, String.toList_ofList,
    List.append_assoc] at h
  obtain ⟨hu, hf⟩ := List.append_inj (List.append_cancel_left h) (by simp [Uuid.length_toList])
  exact ⟨Uuid.toList_injective hu, String.toList_inj.mp (List.append_cancel_left hf)⟩

/-- A separator that does not occur before it. -/
theorem split_unique {α : Type} {sep : α} {as as' bs bs' : List α} (ha : sep ∉ as) (ha' : sep ∉ as')
    (h : as ++ sep :: bs = as' ++ sep :: bs') : as = as' ∧ bs = bs' := by
  induction as generalizing as' with
  | nil =>
    cases as' with
    | nil => exact ⟨rfl, (List.cons.inj h).2⟩
    | cons a as' =>
      rw [← (List.cons.inj h).1] at ha'
      exact absurd List.mem_cons_self ha'
  | cons a as ih =>
    cases as' with
    | nil =>
      rw [(List.cons.inj h).1] at ha
      exact absurd List.mem_cons_self ha
    | cons a' as' =>
      obtain ⟨rfl, hrest⟩ := List.cons.inj h
      obtain ⟨rfl, rfl⟩ := ih (fun hm => ha (List.mem_cons_of_mem _ hm))
        (fun hm => ha' (List.mem_cons_of_mem _ hm)) hrest
      exact ⟨rfl, rfl⟩

theorem colon_not_mem_toDigits (n : ℕ) : ':' ∉ Nat.toDigits 10 n := fun h => by
  have hdigit := Nat.isDigit_of_mem_toDigits (by omega) (by omega) h
  exact absurd hdigit (by decide)

theorem render_lbf_injective {w w' : TimeWindow} {ct ct' : String} {limit limit' : ℕ}
    (h : (lbf w ct limit).render = (lbf w' ct' limit').render) :
    w = w' ∧ ct = ct' ∧ limit = limit' := by
  have h := congrArg String.toList h
  simp only [render, String.toList_append, String.toList_ofList, List.append_assoc] at h
  have hcolon : ":".toList = [':'] := rfl
  simp only [hcolon, List.cons_append, List.nil_append] at h
  obtain ⟨hw, h⟩ := split_unique (by cases w <;> decide) (by cases w' <;> decide)
    (List.append_cancel_left h)
  have hrev := congrArg List.reverse h
  simp only [List.reverse_append, List.reverse_cons, List.append_assoc, List.cons_append,
    List.nil_append] at hrev
  obtain ⟨hlimit, hct⟩ := split_unique
    (fun hm => colon_not_mem_toDigits limit (List.mem_reverse.mp hm))
    (fun hm => colon_not_mem_toDigits limit' (List.mem_reverse.mp hm)) hrev
  refine ⟨?_, String.toList_inj.mp (List.reverse_injective hct), ?_⟩
  · cases w <;> cases w' <;> first | rfl | exact absurd hw (by decide)
  · have hparse := congrArg I64.parseDigits (List.reverse_injective hlimit)
    rw [I64.parseDigits_toDigits, I64.parseDigits_toDigits] at hparse
    exact Option.some.inj hparse

/-- The first three characters name the family of a key. -/
def family : CacheKey → List Char
  | lc _ _ => ['l', 'c', ':']
  | ls _ _ _ => ['l', 's', ':']
  | ul _ _ => ['u', 'l', ':']
  | tok _ => ['t', 'o', 'k']
  | lbf _ _ _ => ['l', 'b', 'f']

theorem render_family (k : CacheKey) : k.render.toList.take 3 = k.family := by
  cases k <;> simp [render, family]

end CacheKey

end SocialApi
