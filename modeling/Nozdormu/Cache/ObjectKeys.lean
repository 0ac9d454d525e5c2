import Nozdormu.Auth.UrlSigning
import Nozdormu.Cache.MultiDelete

/-!
# Keys of objects

How `cdn-cache/src/oss.rs` writes the key of an object into a URL and into the body of a
multi-object delete. Both can be read back, so no two keys are taken for one another
(`objectKeys_readable`).
-/

namespace Nozdormu.Cache

open Rust Bmff Proxy Auth List

def isUnreserved (c : Char) : Bool := c.isAlphanum || c ∈ "-_.~".toList

/-- One round of `encode_component_into`. -/
def encodeByte (b : UInt8) : Str :=
  if isUnreserved (.ofNat b.toNat) then [.ofNat b.toNat]
  else ['%', (Nat.digitChar (b.toNat / 16)).toUpper, (Nat.digitChar (b.toNat % 16)).toUpper]

def uriEncodePath (path : Str) : Str :=
  ['/'].intercalate ((path.splitOn '/').map fun segment => (strBytes segment).flatMap encodeByte)

structure OssClient where
  endpoint : Str
  bucket : Str
  useSsl : Bool
  pathStyle : Bool

def OssClient.objectUrl (self : OssClient) (key : Str) : Str :=
  let endpoint := (self.endpoint.reverse.dropWhile (· = '/')).reverse
  let host := ((stripStart "https://" endpoint).or (stripStart "http://" endpoint)).getD endpoint
  (if self.useSsl then "https://" else "http://") ++
    (if self.pathStyle then host ++ '/' :: self.bucket else self.bucket ++ '.' :: host) ++
      '/' :: uriEncodePath key

def hexValue (c : Char) : Nat := if c.isDigit then c.toNat - '0'.toNat else c.toUpper.toNat
    - 'A'.toNat + 10

def percentDecode : Str → Bytes
  | '%' :: a :: b :: text => .ofNat (16 * hexValue a + hexValue b) :: percentDecode text
  | c :: text => String.utf8EncodeChar c ++ percentDecode text
  | [] => []

theorem percentDecode_encodeByte (b : UInt8) (text : Str) :
    percentDecode (encodeByte b ++ text) = b :: percentDecode text := by
  have hplain : ∀ n < 256, isUnreserved (.ofNat n) →
      Char.ofNat n ≠ '%' ∧ String.utf8EncodeChar (.ofNat n) = [.ofNat n] := by decide +kernel
  have hhex : ∀ n < 256, 16 * hexValue (Nat.digitChar (n / 16)).toUpper +
      hexValue (Nat.digitChar (n % 16)).toUpper = n := by decide +kernel
  unfold encodeByte
  split
  next h =>
    obtain ⟨hne, hbytes⟩ := hplain _ b.toNat_lt h
    rw [singleton_append, percentDecode, hbytes, UInt8.ofNat_toNat, singleton_append]
    exact fun _ _ _ h => absurd h hne
  next =>
    show percentDecode ('%' :: _ :: _ :: text) = _
    rw [percentDecode, hhex _ b.toNat_lt, UInt8.ofNat_toNat]

theorem percentDecode_uriEncodePath (path : Str) :
    percentDecode (uriEncodePath path) = strBytes path := by
  have hcomponent : ∀ (bs : Bytes) (text : Str), percentDecode (bs.flatMap encodeByte ++ text) =
      bs ++ percentDecode text := by
    intro bs text
    induction bs with
    | nil => rfl
    | cons b bs ih => rw [flatMap_cons, append_assoc, percentDecode_encodeByte, ih, cons_append]
  have hsegments : ∀ segments : List Str, percentDecode
      (['/'].intercalate (segments.map fun segment =>
      (strBytes segment).flatMap encodeByte)) = strBytes (['/'].intercalate segments) := by
    intro segments
    induction segments with
    | nil => rfl
    | cons a segments ih =>
      cases segments with
      | nil => simpa [percentDecode] using hcomponent (strBytes a) []
      | cons b segments =>
        have hslash : ∀ text, percentDecode ('/' :: text) = 47 :: percentDecode text := fun _ => rfl
        rw [map_cons] at ih ⊢
        rw [map_cons, intercalate_cons_cons, intercalate_cons_cons, append_assoc, hcomponent,
          singleton_append, hslash, ih]
        simp only [strBytes, flatMap_append, append_assoc]
        rfl
  rw [uriEncodePath, hsegments, intercalate_splitOn]

def isXmlChar (c : Char) : Bool := c ∈ ['\t', '\n', '\r'] || ' ' ≤ c && c ∉ ['\uFFFE', '\uFFFF']

/-- The text that character data stands for, by the rules of XML. -/
def unescapeXml : (entity : Option Str) → (text : Str) → Option Str
  | none, [] => some []
  | some _, [] => none
  | none, c :: text =>
    if c = '&' then unescapeXml (some []) text
    else if c = '\r' then (unescapeXml none text).map fun s =>
      if text.head? = some '\n' then s else '\n' :: s
    else if isXmlChar c ∧ c ≠ '<' then (unescapeXml none text).map (c :: ·)
    else none
  | some name, c :: text =>
    if c = ';' then do
      let c ← [("amp", '&'), ("lt", '<'), ("gt", '>'), ("quot", '"'), ("apos", '\'')].lookup
          (String.ofList name)
      return c :: (← unescapeXml none text)
    else unescapeXml (some (name ++ [c])) text

def keyElements (xml : Str) : List (Option Str) :=
  ((xml.splitOn '<').filterMap (stripStart "Key>")).map (unescapeXml none)

theorem unescapeXml_escapeXml {key : Str} (h : ∀ c ∈ key, isXmlChar c ∧ c ≠ '\r') :
    unescapeXml none (key.flatMap escapeXml) = some key := by
  induction key with
  | nil => rfl
  | cons c key ih =>
    rw [forall_mem_cons] at h
    rw [flatMap_cons]
    have ih := ih h.2
    generalize key.flatMap escapeXml = text at ih
    unfold escapeXml
    split
    case h_6 hamp hlt _ _ _ =>
      simp [unescapeXml, ih, h.1, show c ≠ '&' from hamp, show c ≠ '<' from hlt]
    all_goals simp [unescapeXml, ih, lookup_cons]

theorem keyElements_append (a b : Str) :
    keyElements (a ++ '<' :: b) = keyElements a ++ keyElements b := by
  rw [keyElements, splitOn_append_cons_self, filterMap_append, map_append]
  rfl

theorem keyElements_key (key : Str) : keyElements ("Key>" ++ key.flatMap escapeXml) =
    [unescapeXml none (key.flatMap escapeXml)] := by
  have htext : '<' ∉ key.flatMap escapeXml := by
    rw [mem_flatMap]
    rintro ⟨c, -, hc⟩
    unfold escapeXml at hc
    split at hc
    case h_6 hlt _ _ _ => exact hlt (mem_singleton.1 hc).symm
    all_goals simp at hc
  rw [keyElements, splitOn_eq_singleton (by simpa using htext),
    filterMap_cons_some (stripStart_append _ _)]
  rfl

theorem keyElements_buildDeleteXml {keys : List Str}
    (h : ∀ key ∈ keys, ∀ c ∈ key, isXmlChar c ∧ c ≠ '\r') :
    keyElements (buildDeleteXml keys) = keys.map some := by
  have htags : keyElements "Object>".toList = [] ∧ keyElements "/Key>".toList = [] ∧
      keyElements "/Object>".toList = [] := by decide +kernel
  -- what follows the objects begins with a tag as well
  have hobjects : ∃ rest, keys.flatMap
      (fun key => "<Object><Key>".toList ++ key.flatMap escapeXml ++
      "</Key></Object>".toList) ++ "</Delete>".toList = '<' :: rest ∧
        keyElements rest = keys.map some := by
    induction keys with
    | nil => exact ⟨"/Delete>".toList, by decide, by decide +kernel⟩
    | cons key keys ih =>
      rw [forall_mem_cons] at h
      obtain ⟨rest, hrest, hkeys⟩ := ih h.2
      refine ⟨"Object>".toList ++
        '<' :: ("Key>".toList ++ key.flatMap escapeXml ++ '<' :: ("/Key>".toList ++
        '<' :: ("/Object>".toList ++ '<' :: rest))), ?_, ?_⟩
      · rw [flatMap_cons, append_assoc, hrest]
        simp
      · simp only [keyElements_append, keyElements_key, unescapeXml_escapeXml h.1, hkeys, htags]
        rfl
  obtain ⟨rest, hrest, hkeys⟩ := hobjects
  unfold buildDeleteXml
  rw [append_assoc, hrest, keyElements_append, hkeys, append_left_eq_self]
  decide +kernel

/-- **Keys are read back**, from the `Key` elements of a request if XML can represent them, and from
their path. -/
theorem objectKeys_readable :
    (∀ keys : List Str, (∀ key ∈ keys, ∀ c ∈ key, isXmlChar c ∧ c ≠ '\r') →
      keyElements (buildDeleteXml keys) = keys.map some) ∧
    (∀ key, percentDecode (uriEncodePath key) = strBytes key) ∧
    ∀ oss : OssClient, Function.Injective oss.objectUrl := by
  refine ⟨fun _ => keyElements_buildDeleteXml, percentDecode_uriEncodePath,
    fun oss key key' h => ?_⟩
  have hpath := congrArg percentDecode (List.cons.inj (append_cancel_left h)).2
  rw [percentDecode_uriEncodePath, percentDecode_uriEncodePath] at hpath
  exact strBytes_injective hpath

/-- A key with all that is escaped. -/
theorem objectKeys_readable_escaped : keyElements (buildDeleteXml ["a&<b>\"'".toList]) =
    [some "a&<b>\"'".toList] :=
  objectKeys_readable.1 _ (by simp [isXmlChar])

end Nozdormu.Cache
