import Nozdormu.Data.Checksum
import Nozdormu.Data.Separator
import Nozdormu.Proxy.CacheFilters

/-!
# Signed URLs

`cdn-streaming/src/auth`: a URL carries a timestamp and a hash of its path and that timestamp, in
one of three layouts. Types A and C put both in front of the path, type B puts them into the query,
together with two values of the caller's choice.
-/

namespace Nozdormu.Auth

open Rust Data Bmff Proxy List

inductive AuthError where
  | missing
  | expired
  | invalidSignature
  | malformedUrl
deriving DecidableEq, Repr

inductive AuthType where
  | a
  | b
  | c
deriving DecidableEq, Repr

structure StreamingAuthConfig where
  authType : AuthType
  authKey : Str
  expireTime : Nat

/-- HMAC-SHA256. -/
structure Hmac where
  sign : (key payload : Bytes) → Bytes
  length_sign : ∀ key payload, (sign key payload).length = 32

/-- All bytes are looked at, wherever the first difference is. -/
def constantTimeEq (a b : Bytes) : Bool :=
  if a.length ≠ b.length then false
  else (a.zip b).foldl (fun diff xy => diff ||| (xy.1 ^^^ xy.2)) 0 == 0

/-- `&expected[..32.min(expected.len())]`; hex digits are single bytes. -/
def shortHash (hmac : Hmac) (key payload : Str) : Str :=
  (hexEncode (hmac.sign (strBytes key) (strBytes payload))).take 32

/-- The end of all three kinds of validation. -/
def checkSignature (hash expectedShort : Str) : Exec AuthError Unit := do
  ensure (byteLen hash = byteLen expectedShort) .invalidSignature
  ensure (constantTimeEq (strBytes hash) (strBytes expectedShort) = true) .invalidSignature

def checkExpiry (p : Profile) (config : StreamingAuthConfig) (now timestamp : Nat) :
    Exec AuthError Unit := do
  ensure (now ≤ (← p.add 64 timestamp config.expireTime)) .expired

/-- `strip_prefix('/')`, or all of it. -/
def noSlash (path : Str) : Str := (stripStart "/" path).getD path

def pathPayload (path : Str) (timestamp : Nat) : Str := path ++ '-' :: digits timestamp

/-- `validate` of types A and C: `order` says which of the two segments in front of the path is the
timestamp and which the hash. -/
def validatePath (order : Str → Str → Str × Str) (p : Profile) (hmac : Hmac)
    (config : StreamingAuthConfig) (now : Nat) (requestPath : Str) : Exec AuthError Str :=
  match splitN '/' 3 (noSlash requestPath) with
  | [first, second, rest] => do
    let (tsStr, hash) := order first second
    ensure (tsStr ≠ [] ∧ hash ≠ [] ∧ rest ≠ []) .malformedUrl
    match parseUInt 64 tsStr with
    | none => fail .malformedUrl
    | some timestamp => do
      checkExpiry p config now timestamp
      let originalPath := '/' :: rest
      checkSignature hash (shortHash hmac config.authKey (pathPayload originalPath timestamp))
      return originalPath
  | _ => fail .malformedUrl

namespace TypeA

/-- `/{timestamp}/{hash}/{path}` -/
def validate := validatePath fun first second => (first, second)

def sign (hmac : Hmac) (config : StreamingAuthConfig) (path : Str) (timestamp : Nat) : Str :=
  '/' :: digits timestamp ++ '/' :: shortHash hmac config.authKey (pathPayload path timestamp) ++
    '/' :: noSlash path

end TypeA

namespace TypeC

/-- `/{hash}/{timestamp}/{path}` -/
def validate := validatePath fun first second => (second, first)

def sign (hmac : Hmac) (config : StreamingAuthConfig) (path : Str) (timestamp : Nat) : Str :=
  '/' :: shortHash hmac config.authKey (pathPayload path timestamp) ++ '/' :: digits timestamp ++
    '/' :: noSlash path

end TypeC

namespace TypeB

def payload (path : Str) (timestamp : Nat) (rand uid : Str) : Str :=
  path ++ '-' :: digits timestamp ++ '-' :: rand ++ '-' :: uid

def extractAuthKey (query : Str) : Option Str :=
  (query.splitOn '&').findSome? fun param => stripStart "auth_key=" param

def validate (p : Profile) (hmac : Hmac) (config : StreamingAuthConfig) (now : Nat)
    (requestPath : Str) (queryString : Option Str) : Exec AuthError Str :=
  match queryString.bind extractAuthKey with
  | none => fail .missing
  | some authKeyValue =>
    match splitN '-' 4 authKeyValue with
    | [tsStr, rand, uid, hash] =>
      match parseUInt 64 tsStr with
      | none => fail .malformedUrl
      | some timestamp => do
        checkExpiry p config now timestamp
        checkSignature hash (shortHash hmac config.authKey (payload requestPath timestamp rand uid))
        return requestPath
    | _ => fail .malformedUrl

/-- `{path}?auth_key={timestamp}-{rand}-{uid}-{hash}` -/
def sign (hmac : Hmac) (config : StreamingAuthConfig) (path : Str) (timestamp : Nat)
    (rand uid : Option Str) : Str :=
  let rand := rand.getD "0"
  let uid := uid.getD "0"
  path ++ "?auth_key=" ++ digits timestamp ++ '-' :: rand ++ '-' :: uid ++
    '-' :: shortHash hmac config.authKey (payload path timestamp rand uid)

end TypeB

def validateUrl (p : Profile) (hmac : Hmac) (config : StreamingAuthConfig) (now : Nat)
    (requestPath : Str) (queryString : Option Str) : Exec AuthError Str :=
  match config.authType with
  | .a => TypeA.validate p hmac config now requestPath
  | .b => TypeB.validate p hmac config now requestPath queryString
  | .c => TypeC.validate p hmac config now requestPath

def signUrl (hmac : Hmac) (config : StreamingAuthConfig) (path : Str) (timestamp : Nat)
    (rand uid : Option Str) : Str :=
  match config.authType with
  | .a => TypeA.sign hmac config path timestamp
  | .b => TypeB.sign hmac config path timestamp rand uid
  | .c => TypeC.sign hmac config path timestamp

/-- The path and the query of a URL, as the proxy hands them to `validate_url`. -/
def pathAndQuery (url : Str) : Str × Option Str :=
  match splitOnce "?" url with
  | some (path, query) => (path, some query)
  | none => (url, none)

theorem strBytes_injective {s t : Str} (h : strBytes s = strBytes t) : s = t := by
  have hencode : s.utf8Encode = t.utf8Encode := congrArg List.toByteArray h
  rw [← String.toByteArray_ofList, ← String.toByteArray_ofList, String.toByteArray_inj] at hencode
  simpa using congrArg String.toList hencode

theorem zip_eq_iff {α : Type} {a b : List α} (hlength : a.length = b.length) :
    (∀ xy ∈ a.zip b, xy.1 = xy.2) ↔ a = b := by
  induction a generalizing b with
  | nil => simp [length_eq_zero_iff.1 hlength.symm]
  | cons x a ih =>
    cases b with
    | nil => cases hlength
    | cons y b =>
      rw [zip_cons_cons, forall_mem_cons, ih (Nat.succ.inj hlength), List.cons.injEq]

theorem constantTimeEq_iff {a b : Bytes} : constantTimeEq a b = true ↔ a = b := by
  have hfold : ∀ (l : List (UInt8 × UInt8)) diff,
      l.foldl (fun diff xy => diff ||| (xy.1 ^^^ xy.2)) diff = 0 ↔ diff = 0 ∧ ∀ xy ∈ l,
        xy.1 = xy.2 := by
    intro l
    induction l with
    | nil => simp
    | cons xy l ih =>
      intro diff
      rw [foldl_cons, ih, UInt8.or_eq_zero_iff, UInt8.xor_eq_zero_iff]
      simp [and_assoc]
  unfold constantTimeEq
  split
  next hlength => exact iff_of_false nofun fun heq => hlength (congrArg List.length heq)
  next hlength =>
    rw [beq_iff_eq, hfold, zip_eq_iff (not_not.1 hlength)]
    exact and_iff_right rfl

theorem hexChars_of_mem_hexEncode {bytes : Bytes} {c : Char} (h : c ∈ hexEncode bytes) :
    c ∈ hexChars := by
  obtain ⟨b, -, hc⟩ := mem_flatMap.1 h
  have hdigit : ∀ n < 16, hexChars.getD n '0' ∈ hexChars := by decide
  have hb := b.toNat_lt
  rcases mem_pair.1 hc with rfl | rfl
  · exact hdigit _ (by omega)
  · exact hdigit _ (by omega)

variable {p : Profile} {hmac : Hmac} {config : StreamingAuthConfig} {now timestamp : Nat}
  {key text : Str}

theorem length_shortHash : (shortHash hmac key text).length = 32 := by
  rw [shortHash, length_take, hexEncode]
  simp [hmac.length_sign]

theorem not_mem_shortHash {c : Char} (h : c ∉ hexChars) : c ∉ shortHash hmac key text :=
  fun hmem => h (hexChars_of_mem_hexEncode (mem_of_mem_take hmem))

theorem checkSignature_eq_ok {hash expectedShort : Str} :
    checkSignature hash expectedShort = .ok () ↔ hash = expectedShort := by
  unfold checkSignature
  rw [ensure_bind_eq_ok]
  constructor
  · rintro ⟨-, h⟩
    unfold ensure at h
    split at h
    next heq => exact strBytes_injective (constantTimeEq_iff.1 heq)
    next => cases h
  · rintro rfl
    exact ⟨rfl, if_pos (constantTimeEq_iff.2 rfl)⟩

theorem checkExpiry_ok (hsum : timestamp + config.expireTime < 2 ^ 64)
    (hnow : now ≤ timestamp + config.expireTime) : checkExpiry p config now timestamp = .ok () := by
  unfold checkExpiry
  rw [add_ok p hsum]
  exact if_pos hnow

/-! ## What is signed is accepted -/

variable {path : Str} {order : Str → Str → Str × Str}

theorem validatePath_signed {first second : Str} (horder : order first second =
      (digits timestamp, shortHash hmac config.authKey (pathPayload path timestamp)))
    (hfirst : '/' ∉ first) (hsecond : '/' ∉ second) (hpath : path.head? = some '/')
    (hlong : 1 < path.length) (hsum : timestamp + config.expireTime < 2 ^ 64)
    (hnow : now ≤ timestamp + config.expireTime) :
    validatePath order p hmac config now ('/' :: first ++ '/' :: second ++ '/' :: noSlash path) =
      .ok path := by
  obtain ⟨rest, rfl⟩ := List.head?_eq_some_iff.1 hpath
  have hnoSlash : ∀ s, noSlash ('/' :: s) = s := fun _ => rfl
  have hrest : rest ≠ [] := by
    rintro rfl
    exact absurd hlong (by simp)
  have hsplit : splitN '/' 3
      (noSlash ('/' :: first ++ '/' :: second ++ '/' :: noSlash ('/' :: rest))) =
      [first, second, rest] := by
    rw [cons_append, cons_append, hnoSlash, hnoSlash, append_assoc,
      cons_append, splitN_append hfirst, splitN_append hsecond]
    rfl
  have hdigits : digits timestamp ≠ [] := by
    intro hnil
    have hparse : parseUInt 64 (digits timestamp) = some timestamp := parseUInt_digits (by omega)
    rw [hnil] at hparse
    cases hparse
  have hhash : shortHash hmac config.authKey (pathPayload ('/' :: rest) timestamp) ≠ [] := by
    intro hnil
    have hlength : (shortHash hmac config.authKey (pathPayload ('/' :: rest) timestamp)).length =
        32 :=
      length_shortHash
    rw [hnil] at hlength
    cases hlength
  unfold validatePath
  rw [hsplit]
  simp only [horder]
  rw [ensure_bind_eq_ok]
  refine ⟨⟨hdigits, hhash, hrest⟩, ?_⟩
  rw [parseUInt_digits (by omega)]
  simp only [checkExpiry_ok hsum hnow, checkSignature_eq_ok.2 rfl]
  rfl

theorem slash_not_mem_digits (n : Nat) : '/' ∉ digits n := not_mem_digits (by decide) n

theorem slash_not_mem_shortHash : '/' ∉ shortHash hmac key text := not_mem_shortHash (by decide)

theorem pathAndQuery_append (h : '?' ∉ path) (query : Str) :
    pathAndQuery (path ++ '?' :: query) = (path, some query) := by
  have hsplit : splitOnce "?" (path ++ '?' :: query) = some (path, query) := splitOnce_cons h query
  simp only [pathAndQuery, hsplit]

theorem pathAndQuery_of_not_mem {url : Str} (h : '?' ∉ url) : pathAndQuery url = (url, none) := by
  have hnone : splitOnce "?" url = none := by
    induction url with
    | nil => rfl
    | cons c url ih =>
      rw [mem_cons, not_or] at h
      have hstrip : stripStart "?" (c :: url) = none := if_neg h.1
      rw [splitOnce, hstrip]
      simp only [ih h.2, Option.map_none]
  simp only [pathAndQuery, hnone]

theorem extractAuthKey_single {value : Str} (h : '&' ∉ value) :
    TypeB.extractAuthKey ("auth_key=" ++ value) = some value := by
  have hall : '&' ∉ "auth_key=" ++ value := by
    rw [mem_append, not_or]
    exact ⟨by decide, h⟩
  rw [TypeB.extractAuthKey, splitOn_eq_singleton hall]
  simp only [List.findSome?_cons, stripStart_append]

theorem validate_signedB {rand uid : Str} (hrand : '-' ∉ rand ∧ '&' ∉ rand)
    (huid : '-' ∉ uid ∧ '&' ∉ uid) (hsum : timestamp + config.expireTime < 2 ^ 64)
    (hnow : now ≤ timestamp + config.expireTime) :
    TypeB.validate p hmac config now path (some ("auth_key=" ++ (digits timestamp ++ '-' :: (rand ++
      '-' :: (uid ++ '-' :: shortHash hmac config.authKey
        (TypeB.payload path timestamp rand uid)))))) =
      .ok path := by
  have hand : '&' ∉ digits timestamp ++ '-' :: (rand ++ '-' :: (uid ++
      '-' :: shortHash hmac config.authKey (TypeB.payload path timestamp rand uid))) := by
    simp only [mem_append, mem_cons, not_or]
    exact ⟨not_mem_digits (by decide) timestamp, by decide, hrand.2, by decide, huid.2, by decide,
      not_mem_shortHash (by decide)⟩
  unfold TypeB.validate
  rw [Option.bind_some, extractAuthKey_single hand]
  simp only
  rw [splitN_append (not_mem_digits (by decide) timestamp), splitN_append hrand.1,
    splitN_append huid.1]
  simp only [splitN]
  rw [parseUInt_digits (by omega)]
  simp only [checkExpiry_ok hsum hnow, checkSignature_eq_ok.2 rfl]
  rfl

theorem of_default {P : Str → Prop} (hzero : P "0") {value : Option Str}
    (h : ∀ v, value = some v → P v) : P (value.getD "0") := by
  cases value with
  | none => exact hzero
  | some v => exact h v rfl

theorem validateUrl_signUrl (p : Profile) (hmac : Hmac) (config : StreamingAuthConfig)
    {rand uid : Option Str} (hpath : path.head? = some '/') (hlong : 1 < path.length)
    (hquery : '?' ∉ path) (hsum : timestamp + config.expireTime < 2 ^ 64)
    (hnow : now ≤ timestamp + config.expireTime) (hrand : ∀ r, rand = some r → '-' ∉ r ∧ '&' ∉ r)
    (huid : ∀ u, uid = some u → '-' ∉ u ∧ '&' ∉ u) :
    validateUrl p hmac config now (pathAndQuery (signUrl hmac config path timestamp rand uid)).1
      (pathAndQuery (signUrl hmac config path timestamp rand uid)).2 = .ok path := by
  have hnoSlash : '?' ∉ noSlash path := by
    obtain ⟨rest, rfl⟩ := List.head?_eq_some_iff.1 hpath
    exact fun hmem => hquery (mem_cons_of_mem _ hmem)
  have hplain : ∀ {first second : Str}, '?' ∉ first → '?' ∉ second →
      '?' ∉ '/' :: first ++ '/' :: second ++ '/' :: noSlash path := by
    intro first second hfirst hsecond
    simp only [mem_append, mem_cons, not_or]
    exact ⟨⟨⟨by decide, hfirst⟩, by decide, hsecond⟩, by decide, hnoSlash⟩
  have hdigits : '?' ∉ digits timestamp := not_mem_digits (by decide) timestamp
  unfold validateUrl signUrl
  cases config.authType with
  | a =>
    simp only [TypeA.sign]
    rw [pathAndQuery_of_not_mem (hplain hdigits (not_mem_shortHash (by decide)))]
    exact validatePath_signed rfl (slash_not_mem_digits timestamp)
      slash_not_mem_shortHash hpath hlong
      hsum hnow
  | b =>
    have hurl : TypeB.sign hmac config path timestamp rand uid = path ++ '?' ::
        ("auth_key=".toList ++
        (digits timestamp ++ '-' :: (rand.getD "0".toList ++ '-' :: (uid.getD "0".toList ++
          '-' :: shortHash hmac config.authKey (TypeB.payload path timestamp (rand.getD "0".toList)
            (uid.getD "0".toList)))))) := by
      simp [TypeB.sign]
    simp only [hurl, pathAndQuery_append hquery]
    have hzero : '-' ∉ "0".toList ∧ '&' ∉ "0".toList := by decide
    exact validate_signedB (of_default hzero hrand) (of_default hzero huid) hsum hnow
  | c =>
    simp only [TypeC.sign]
    rw [pathAndQuery_of_not_mem (hplain (not_mem_shortHash (by decide)) hdigits)]
    exact validatePath_signed rfl slash_not_mem_shortHash
      (slash_not_mem_digits timestamp) hpath hlong
      hsum hnow

/-! ## What is accepted was signed -/

/-- What a hash is computed for; `extra` are `rand` and `uid` of type B. -/
structure Token where
  path : Str
  timestamp : Nat
  extra : Option (Str × Str)
deriving DecidableEq

def Token.payload (t : Token) : Str :=
  match t.extra with
  | none => pathPayload t.path t.timestamp
  | some (rand, uid) => TypeB.payload t.path t.timestamp rand uid

def issued (authType : AuthType) (path : Str) (timestamp : Nat) (rand uid : Option Str) : Token :=
  match authType with
  | .b => ⟨path, timestamp, some (rand.getD "0", uid.getD "0")⟩
  | _ => ⟨path, timestamp, none⟩

/-- The parts of a request and the token and hash that they spell. -/
def Carries (requestPath : Str) (queryString : Option Str) (hash : Str) (t : Token) :
    AuthType → Prop
  | .a => t.extra = none ∧ ∃ tsStr rest, noSlash requestPath = tsStr ++ '/' :: hash ++ '/' :: rest ∧
      parseUInt 64 tsStr = some t.timestamp ∧ t.path = '/' :: rest
  | .b => ∃ tsStr rand uid, queryString.bind TypeB.extractAuthKey =
      some (tsStr ++ '-' :: rand ++ '-' :: uid ++ '-' :: hash) ∧
        parseUInt 64 tsStr = some t.timestamp ∧
      t.path = requestPath ∧ t.extra = some (rand, uid)
  | .c => t.extra = none ∧ ∃ tsStr rest, noSlash requestPath = hash ++ '/' :: tsStr ++ '/' :: rest ∧
      parseUInt 64 tsStr = some t.timestamp ∧ t.path = '/' :: rest

/-- Two texts that a hash does not tell apart. -/
def Collision (hmac : Hmac) (key x y : Str) : Prop :=
  x ≠ y ∧ shortHash hmac key x = shortHash hmac key y

/-- `rand` and `uid` hold no separator. -/
def Token.Clean (t : Token) : Prop := ∀ rand uid, t.extra = some (rand, uid) →
    '-' ∉ rand ∧ '-' ∉ uid

theorem pathPayload_inj {path' : Str} {timestamp timestamp' : Nat}
    (h : pathPayload path timestamp = pathPayload path' timestamp') :
    path = path' ∧ timestamp = timestamp' := by
  obtain ⟨hpath, hdigits⟩ := append_cons_inj_right (not_mem_digits (by decide) timestamp)
    (not_mem_digits (by decide) timestamp') h
  exact ⟨hpath, digits_inj hdigits⟩

theorem payload_inj {t t' : Token} (hkind : t.extra.isSome = t'.extra.isSome) (hclean : t.Clean)
    (hclean' : t'.Clean) (h : t.payload = t'.payload) : t = t' := by
  obtain ⟨path, timestamp, extra⟩ := t
  obtain ⟨path', timestamp', extra'⟩ := t'
  cases extra with
  | none =>
    obtain rfl : extra' = none := Option.isNone_iff_eq_none.1 (by simpa using hkind.symm)
    obtain ⟨rfl, rfl⟩ := pathPayload_inj h
    rfl
  | some values =>
    obtain ⟨values', rfl⟩ := Option.isSome_iff_exists.1 hkind.symm
    obtain ⟨hrand, huid⟩ := hclean values.1 values.2 rfl
    obtain ⟨hrand', huid'⟩ := hclean' values'.1 values'.2 rfl
    obtain ⟨hfront, hu⟩ := append_cons_inj_right huid huid' h
    obtain ⟨hfront, hr⟩ := append_cons_inj_right hrand hrand' hfront
    obtain ⟨rfl, rfl⟩ := pathPayload_inj hfront
    obtain rfl : values = values' := Prod.ext hr hu
    rfl

variable {requestPath : Str}

theorem validatePath_eq_ok (h : validatePath order p hmac config now requestPath = .ok path) :
    ∃ first second rest timestamp, noSlash requestPath = first ++ '/' :: second ++ '/' :: rest ∧
      parseUInt 64 (order first second).1 = some timestamp ∧ path = '/' :: rest ∧
      (order first second).2 = shortHash hmac config.authKey (pathPayload path timestamp) := by
  unfold validatePath at h
  split at h
  next first second rest hsplit =>
    obtain ⟨-, tail, hfirst, hsplit⟩ := splitN_eq_cons_cons hsplit
    obtain ⟨-, tail', hsecond, hsplit⟩ := splitN_eq_cons_cons hsplit
    obtain rfl : tail' = rest := (List.cons.inj hsplit).1
    obtain ⟨-, h⟩ := ensure_bind_eq_ok.1 h
    split at h
    next => cases h
    next timestamp hparse =>
      obtain ⟨⟨⟩, -, h⟩ := bind_eq_ok.1 h
      obtain ⟨⟨⟩, hsignature, h⟩ := bind_eq_ok.1 h
      obtain rfl : '/' :: tail' = path := Except.ok.inj h
      refine ⟨first, second, tail', timestamp, ?_, hparse, rfl, checkSignature_eq_ok.1 hsignature⟩
      rw [hfirst, hsecond, append_assoc, cons_append]
  next => cases h

theorem validateB_eq_ok {queryString : Option Str}
    (h : TypeB.validate p hmac config now requestPath queryString = .ok path) :
    ∃ tsStr rand uid timestamp, queryString.bind TypeB.extractAuthKey =
        some (tsStr ++ '-' :: rand ++ '-' :: uid ++
          '-' :: shortHash hmac config.authKey (TypeB.payload path timestamp rand uid)) ∧
      parseUInt 64 tsStr = some timestamp ∧ path = requestPath ∧ '-' ∉ rand ∧ '-' ∉ uid := by
  unfold TypeB.validate at h
  split at h
  next => cases h
  next value hvalue =>
    split at h
    next tsStr rand uid hash hsplit =>
      obtain ⟨-, tail, hts, hsplit⟩ := splitN_eq_cons_cons hsplit
      obtain ⟨hrand, tail', hr, hsplit⟩ := splitN_eq_cons_cons hsplit
      obtain ⟨huid, tail'', hu, hsplit⟩ := splitN_eq_cons_cons hsplit
      obtain rfl : tail'' = hash := (List.cons.inj hsplit).1
      split at h
      next => cases h
      next timestamp hparse =>
        obtain ⟨⟨⟩, -, h⟩ := bind_eq_ok.1 h
        obtain ⟨⟨⟩, hsignature, h⟩ := bind_eq_ok.1 h
        obtain rfl : requestPath = path := Except.ok.inj h
        refine ⟨tsStr, rand, uid, timestamp, ?_, hparse, rfl, hrand, huid⟩
        rw [hvalue, hts, hr, hu, checkSignature_eq_ok.1 hsignature]
        simp
    next => cases h

theorem exists_token {queryString : Option Str}
    (h : validateUrl p hmac config now requestPath queryString = .ok path) :
    ∃ t : Token, Carries requestPath queryString (shortHash hmac config.authKey t.payload) t
        config.authType ∧ t.path = path ∧ t.Clean ∧ t.extra.isSome = decide
        (config.authType = .b) := by
  unfold validateUrl at h
  cases htype : config.authType with
  | a =>
    rw [htype] at h
    obtain ⟨tsStr, hash, rest, timestamp, hsplit, hparse, hpath, hhash⟩ := validatePath_eq_ok h
    obtain rfl : hash = _ := hhash
    exact ⟨⟨path, timestamp, none⟩, ⟨rfl, tsStr, rest, hsplit, hparse, hpath⟩, rfl, nofun, rfl⟩
  | b =>
    rw [htype] at h
    obtain ⟨tsStr, rand, uid, timestamp, hvalue, hparse, hpath, hrand, huid⟩ := validateB_eq_ok h
    refine ⟨⟨path, timestamp, some (rand, uid)⟩,
      ⟨tsStr, rand, uid, hvalue, hparse, hpath, rfl⟩, rfl,
      ?_, rfl⟩
    intro rand' uid' heq
    cases heq
    exact ⟨hrand, huid⟩
  | c =>
    rw [htype] at h
    obtain ⟨hash, tsStr, rest, timestamp, hsplit, hparse, hpath, hhash⟩ := validatePath_eq_ok h
    obtain rfl : hash = _ := hhash
    exact ⟨⟨path, timestamp, none⟩, ⟨rfl, tsStr, rest, hsplit, hparse, hpath⟩, rfl, nofun, rfl⟩

/-- What `sign_url` makes is accepted and the path comes back; what `validate_url` accepts carries
the hash of a token with the path that it returns, and no other token was issued with that hash,
unless the two collide. -/
theorem signUrl_sound (p : Profile) (hmac : Hmac) (config : StreamingAuthConfig) (now : Nat) :
    (∀ (path : Str) (timestamp : Nat) (rand uid : Option Str), path.head? = some '/' →
      1 < path.length → '?' ∉ path → timestamp + config.expireTime < 2 ^ 64 →
      now ≤ timestamp + config.expireTime → (∀ r, rand = some r → '-' ∉ r ∧ '&' ∉ r) →
      (∀ u, uid = some u → '-' ∉ u ∧ '&' ∉ u) →
      validateUrl p hmac config now (pathAndQuery (signUrl hmac config path timestamp rand uid)).1
        (pathAndQuery (signUrl hmac config path timestamp rand uid)).2 = .ok path) ∧
    ∀ (requestPath : Str) (queryString : Option Str) (path : Str),
      validateUrl p hmac config now requestPath queryString = .ok path →
      ∃ t : Token, t.path = path ∧
        Carries requestPath queryString (shortHash hmac config.authKey t.payload) t
          config.authType ∧
        ∀ (path' : Str) (timestamp : Nat) (rand uid : Option Str),
          (∀ r, rand = some r → '-' ∉ r) → (∀ u, uid = some u → '-' ∉ u) →
          ¬ Collision hmac config.authKey t.payload
            (issued config.authType path' timestamp rand uid).payload →
          shortHash hmac config.authKey (issued config.authType path' timestamp rand uid).payload =
            shortHash hmac config.authKey t.payload →
          issued config.authType path' timestamp rand uid = t := by
  constructor
  · intro path timestamp rand uid hpath hlong hquery hsum hnow hrand huid
    exact validateUrl_signUrl p hmac config hpath hlong hquery hsum hnow hrand huid
  intro requestPath queryString path h
  obtain ⟨t, hcarries, hpath, hclean, hkind⟩ := exists_token h
  refine ⟨t, hpath, hcarries, ?_⟩
  intro path' timestamp rand uid hrand huid hfree hsame
  obtain ⟨hclean', hkind'⟩ : (issued config.authType path' timestamp rand uid).Clean ∧
      (issued config.authType path' timestamp rand uid).extra.isSome = decide
        (config.authType = .b) := by
    cases config.authType with
    | a | c => exact ⟨nofun, rfl⟩
    | b =>
      refine ⟨?_, rfl⟩
      intro rand' uid' heq
      cases heq
      exact ⟨of_default (by decide) hrand, of_default (by decide) huid⟩
  refine payload_inj (hkind'.trans hkind.symm) hclean' hclean ?_
  by_contra hne
  exact hfree ⟨Ne.symm hne, hsame.symm⟩

/-- A hash of the key and the text. -/
def polyHmac : Hmac := ⟨fun key payload => polyHash 32 (key ++ payload), fun _ _ =>
    length_polyHash ..⟩

def filmConfig : StreamingAuthConfig := ⟨.b, "secret", 1800⟩

/-- A path with dashes, signed at 500 and asked for at 2000. -/
theorem signUrl_sound_film :
    let url := pathAndQuery
      (signUrl polyHmac filmConfig "/a-1/film.mp4" 500 (some "r") none)
    validateUrl .release polyHmac filmConfig 2000 url.1 url.2 = .ok "/a-1/film.mp4" ∧
      ∃ t : Token, t.path = "/a-1/film.mp4" ∧
        Carries url.1 url.2 (shortHash polyHmac filmConfig.authKey t.payload) t .b := by
  obtain ⟨hsigned, hsound⟩ := signUrl_sound .release polyHmac filmConfig 2000
  have haccepted := hsigned "/a-1/film.mp4" 500 (some "r") none rfl (by decide)
    (by decide) (by decide) (by decide) (fun r hr => by cases hr; decide) nofun
  obtain ⟨t, hpath, hcarries, -⟩ := hsound _ _ _ haccepted
  exact ⟨haccepted, t, hpath, hcarries⟩

end Nozdormu.Auth
