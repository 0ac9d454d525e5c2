import Mathlib.Data.List.Sort
import Nozdormu.Bmff.Bytes
import Nozdormu.Rust.Str

/-!
# Cache keys

`cdn-cache/src/key.rs`: the bytes that are hashed into the key of a request, and where the body
of an entry lies in the object store.
-/

namespace Nozdormu.Cache

open Rust Bmff

/-- `b'&'`, `b':'` and `b'='`. -/
def amp : UInt8 := 38
def colon : UInt8 := 58
def equals : UInt8 := 61

def isAsciiUppercase (b : UInt8) : Bool := 65 ≤ b && b ≤ 90

def toAsciiLowercase (b : UInt8) : UInt8 := if isAsciiUppercase b then b + 32 else b

def sortQuery (qs : Bytes) : Bytes :=
  [amp].intercalate ((qs.splitOn amp).insertionSort (· ≤ ·))

/-- The arguments of `generate_cache_key`, each string as its bytes. -/
structure KeyParts where
  siteId : Bytes
  host : Bytes
  path : Bytes
  queryString : Option Bytes
  sortQueryString : Bool
  varyHeaders : List (Bytes × Bytes)
deriving DecidableEq, Repr

namespace KeyParts

/-- An absent and an empty query give nothing. -/
def queryPart (a : KeyParts) : Bytes :=
  match a.queryString with
  | some qs => if qs.isEmpty then [] else if a.sortQueryString then sortQuery qs else qs
  | none => []

/-- `name=value` with the name in lower case. -/
def varyEntry (h : Bytes × Bytes) : Bytes := h.1.map toAsciiLowercase ++ equals :: h.2

def varyPart (a : KeyParts) : Bytes := [amp].intercalate (a.varyHeaders.map varyEntry)

/-- What `generate_cache_key` feeds to the hasher. -/
def hashed (a : KeyParts) : Bytes :=
  a.siteId ++ colon :: (a.host ++
    colon :: (a.path ++ colon :: (a.queryPart ++ colon :: a.varyPart)))

end KeyParts

/-- The key, with the MD5 digest in hexadecimal as a parameter. -/
def generateCacheKey (md5 : Bytes → Str) (a : KeyParts) : Str := md5 a.hashed

def strContains (pat s : Str) : Bool := (splitOnce pat s).isSome

theorem not_mem_of_strContains {c : Char} {s : Str} (h : strContains [c] s = false) : c ∉ s := by
  intro hmem
  obtain ⟨front, rest, rfl, hfront⟩ := List.eq_append_cons_of_mem hmem
  rw [strContains, splitOnce_cons hfront] at h
  cases h

/-- A site id that could leave its directory is replaced. -/
def safeSiteId (siteId : Str) : Str :=
  if strContains "/" siteId || strContains "\\" siteId || strContains ".." siteId
      || siteId.isEmpty then "_invalid_"
  else siteId

/-- `&key[..2]`, which counts bytes. -/
def keyPrefix {ε : Type} (key : Str) : Exec ε Str :=
  if 2 ≤ byteLen key then strPrefix key 2 else return key

def cacheObjectPath {ε : Type} (siteId key : Str) : Exec ε Str := do
  let pre ← keyPrefix key
  return "cache/" ++ safeSiteId siteId ++ "/" ++ pre ++ "/" ++ key

example : (cacheObjectPath "site1" "abcdef1234567890" : Exec Empty Str)
      = .ok "cache/site1/ab/abcdef1234567890" ∧
    (cacheObjectPath "../../../admin" "abcdef" : Exec Empty Str)
      = .ok "cache/_invalid_/ab/abcdef" := by decide

end Nozdormu.Cache
