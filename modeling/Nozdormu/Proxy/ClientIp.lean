import Nozdormu.Data.Separator
import Nozdormu.Proxy.CacheFilters
import Nozdormu.Waf.SetsCache

/-!
# The address of the client
-/

namespace Nozdormu.Proxy

open Rust Data Waf List

inductive IpAddr where
  | v4 (addr : BitVec 32)
  | v6 (addr : BitVec 128)
deriving DecidableEq, Repr

/-- `IpNet::contains`: the same family, and the same bits in the prefix. -/
def netContains : IpNet → IpAddr → Bool
  | .v4 net len, .v4 addr => net >>> (32 - len.val) = addr >>> (32 - len.val)
  | .v6 net len, .v6 addr => net >>> (128 - len.val) = addr >>> (128 - len.val)
  | _, _ => false

/-- One to three digits, and no zero in front of another digit. -/
def octet (s : Str) : Option (BitVec 8) :=
  if s.all Char.isDigit ∧ (s.head? = some '0' → s.length = 1) then (parseUInt 8 s).map
    (BitVec.ofNat 8)
  else none

def ipv4FromStr (s : Str) : Option (BitVec 32) :=
  match (s.splitOn '.').map octet with
  | [some a, some b, some c, some d] => some (a ++ b ++ c ++ d)
  | _ => none

/-- `IpAddr::from_str`. How an IPv6 address is written is a parameter. -/
def ipFromStr (ipv6FromStr : Str → Option (BitVec 128)) (s : Str) : Option IpAddr :=
  ((ipv4FromStr s).map IpAddr.v4).or ((ipv6FromStr s).map IpAddr.v6)

/-! ## `real_ip_from_xff` -/

/-- `TRUSTED_PROXIES`: 127.0.0.0/8, 10.0.0.0/8, 172.16.0.0/12, 192.168.0.0/16, ::1/128 and fc00::/7.
-/
def defaultTrusted : List IpNet :=
  [.v4 0x7F000000#32 8, .v4 0x0A000000#32 8, .v4 0xAC100000#32 12,
    .v4 0xC0A80000#32 16, .v6 1#128 128,
    .v6 (0xFC#128 <<< 120) 7]

def isTrusted (ip : IpAddr) (trusted : List IpNet) : Bool := trusted.any (netContains · ip)

section

variable (ipv6FromStr : Str → Option (BitVec 128)) (extraTrusted : List IpNet)

/-- The address of an entry, if there is one and it is in neither list. -/
def untrustedEntry (entry : Str) : Option IpAddr :=
  (ipFromStr ipv6FromStr (trim entry)).filter fun ip =>
    !isTrusted ip defaultTrusted && !isTrusted ip extraTrusted

def realIpFromXff (xff : Str) (remoteAddr : IpAddr) : IpAddr :=
  ((xff.splitOn ',').reverse.findSome? (untrustedEntry ipv6FromStr extraTrusted)).getD remoteAddr

/-- Step 4 of `request_filter`. -/
def clientIp (peer : Option IpAddr) (headers : HeaderMap) : Option IpAddr :=
  match peer, headers.text "x-forwarded-for" with
  | some remoteIp, some xff => some (realIpFromXff ipv6FromStr extraTrusted xff remoteIp)
  | _, _ => peer

/-- `ip` is the rightmost address in the header that is in neither list. -/
def Rightmost (xff : Str) (ip : IpAddr) : Prop :=
  ∃ front entry back, xff.splitOn ',' = front ++ entry :: back ∧
    untrustedEntry ipv6FromStr extraTrusted entry = some ip ∧
    ∀ e ∈ back, untrustedEntry ipv6FromStr extraTrusted e = none

end

section

variable {ipv6FromStr : Str → Option (BitVec 128)} {extraTrusted : List IpNet}

variable {xff : Str} {ip : IpAddr}

theorem scan_eq_some_iff :
    (xff.splitOn ',').reverse.findSome? (untrustedEntry ipv6FromStr extraTrusted) = some ip ↔
      Rightmost ipv6FromStr extraTrusted xff ip := by
  rw [List.findSome?_eq_some_iff]
  constructor
  · intro h
    obtain ⟨back, entry, front, hsplit, hentry, hback⟩ := h
    refine ⟨front.reverse, entry, back.reverse, ?_, hentry, fun e he => hback e (mem_reverse.1 he)⟩
    rw [← reverse_reverse (xff.splitOn ','), hsplit]
    simp
  · intro h
    obtain ⟨front, entry, back, hsplit, hentry, hback⟩ := h
    refine ⟨back.reverse, entry, front.reverse, ?_, hentry, fun e he => hback e (mem_reverse.1 he)⟩
    rw [hsplit]
    simp

theorem realIpFromXff_of_rightmost (h : Rightmost ipv6FromStr extraTrusted xff ip)
    (remoteAddr : IpAddr) : realIpFromXff ipv6FromStr extraTrusted xff remoteAddr = ip := by
  rw [realIpFromXff, scan_eq_some_iff.2 h, Option.getD_some]

theorem Rightmost.prepend (h : Rightmost ipv6FromStr extraTrusted xff ip)
    (spoofed : Str) : Rightmost ipv6FromStr extraTrusted (spoofed ++ ',' :: xff) ip := by
  obtain ⟨front, entry, back, hsplit, hentry, hback⟩ := h
  refine ⟨spoofed.splitOn ',' ++ front, entry, back, ?_, hentry, hback⟩
  rw [splitOn_append_cons_self, hsplit, append_assoc]

theorem exists_rightmost {xff : Str}
    (h : ∃ entry ∈ xff.splitOn ',', (untrustedEntry ipv6FromStr extraTrusted entry).isSome) :
    ∃ ip, Rightmost ipv6FromStr extraTrusted xff ip := by
  obtain ⟨entry, hmem, hsome⟩ := h
  have hfound : ((xff.splitOn ',').reverse.findSome?
      (untrustedEntry ipv6FromStr extraTrusted)).isSome :=
    List.findSome?_isSome_iff.2 ⟨entry, mem_reverse.2 hmem, hsome⟩
  obtain ⟨ip, hip⟩ := Option.isSome_iff_exists.1 hfound
  exact ⟨ip, scan_eq_some_iff.1 hip⟩

/-- An attacker in front of the proxies cannot change the address by what the header began with. -/
theorem realIpFromXff_prepend (xff spoofed : Str) (remoteAddr : IpAddr)
    (h : ∃ entry ∈ xff.splitOn ',', (untrustedEntry ipv6FromStr extraTrusted entry).isSome) :
    ∃ ip, Rightmost ipv6FromStr extraTrusted xff ip ∧
      realIpFromXff ipv6FromStr extraTrusted xff remoteAddr = ip ∧
      realIpFromXff ipv6FromStr extraTrusted (spoofed ++ ',' :: xff) remoteAddr = ip := by
  obtain ⟨ip, hip⟩ := exists_rightmost h
  exact ⟨ip, hip, realIpFromXff_of_rightmost hip _,
    realIpFromXff_of_rightmost (hip.prepend spoofed) _⟩

/-- Behind a proxy at 10.0.0.2. -/
theorem realIpFromXff_prepend_spoofed :
    ∃ ip, Rightmost (fun _ => none) [] "203.0.113.7, 10.0.0.1" ip ∧
    realIpFromXff (fun _ => none) [] "203.0.113.7, 10.0.0.1" (.v4 0x0A000002#32) = ip ∧
    realIpFromXff (fun _ => none) [] ("8.8.8.8, x" ++ ',' :: "203.0.113.7, 10.0.0.1")
      (.v4 0x0A000002#32) = ip :=
  realIpFromXff_prepend "203.0.113.7, 10.0.0.1" "8.8.8.8, x" (.v4 0x0A000002#32)
    ⟨"203.0.113.7", by decide +kernel, by decide +kernel⟩

/-- The peer is taken for the client exactly if the header names no other address. -/
theorem clientIp_eq_peer_iff (peer : IpAddr) (headers : HeaderMap) :
    clientIp ipv6FromStr extraTrusted (some peer) headers = some peer ↔
      ∀ xff ip, headers.text "x-forwarded-for" = some xff →
        Rightmost ipv6FromStr extraTrusted xff ip → ip = peer := by
  unfold clientIp
  cases hxff : headers.text "x-forwarded-for" with
  | none => exact ⟨fun _ => nofun, fun _ => rfl⟩
  | some xff =>
    constructor
    · intro h xff' ip hxff' hip
      cases hxff'
      rw [← realIpFromXff_of_rightmost hip peer]
      exact Option.some.inj h
    intro h
    show some (realIpFromXff ipv6FromStr extraTrusted xff peer) = some peer
    cases hscan : (xff.splitOn ',').reverse.findSome? (untrustedEntry ipv6FromStr extraTrusted) with
    | none => rw [realIpFromXff, hscan, Option.getD_none]
    | some ip =>
      have hip := scan_eq_some_iff.1 hscan
      rw [realIpFromXff_of_rightmost hip, h xff ip rfl hip]

end

/-- A peer at 198.51.100.9, which no list names, becomes 203.0.113.7. -/
theorem clientIp_spoofed : isTrusted (.v4 0xC6336409#32) defaultTrusted = false ∧
    ∀ ipv6FromStr : Str → Option (BitVec 128),
      clientIp ipv6FromStr [] (some (.v4 0xC6336409#32))
        [("x-forwarded-for".toList, strBytes "203.0.113.7".toList)] = some (.v4 0xCB007107#32) := by
  have hsplit : "203.0.113.7".toList.splitOn ',' = [] ++ "203.0.113.7".toList :: [] := by
    decide +kernel
  refine ⟨by decide +kernel, fun ipv6FromStr => ?_⟩
  have hentry : untrustedEntry ipv6FromStr [] "203.0.113.7".toList = some (.v4 0xCB007107#32) := by
    rfl
  exact congrArg some (realIpFromXff_of_rightmost ⟨[], _, [], hsplit, hentry, nofun⟩ _)

end Nozdormu.Proxy
