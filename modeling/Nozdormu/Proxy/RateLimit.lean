import Nozdormu.Data.Checksum
import Nozdormu.Proxy.ClientIp

/-!
# Rate limits
-/

namespace Nozdormu.Proxy

open Rust Data List

inductive CcAction where
  | block
  | challenge
  | log
  | delay
deriving DecidableEq, Repr

inductive CcKeyType where
  | ip
  | ipUrl
  | ipPath
deriving DecidableEq, Repr

/-- The numbers are `u64`, here and below. -/
structure CcRule where
  path : Str
  rate : Nat
  window : Nat
  blockDuration : Nat
  action : CcAction
  keyType : CcKeyType

structure CcConfig where
  enabled : Bool
  defaultRate : Nat
  defaultWindow : Nat
  defaultBlockDuration : Nat
  defaultAction : CcAction
  rules : List CcRule

inductive CcActionResult where
  | allow
  | block (retryAfter : Nat) (reason : Str)
  | challenge (cookieValue reason : Str)
  | delay (delayMs : Nat) (reason : Str)
  | log (reason : Str)
deriving DecidableEq, Repr

structure CcRequest where
  clientIp : IpAddr
  uri : Str
  path : Str
  cookieHeader : Option Str
  cc : CcConfig
  siteId : Str

/-- The two caches of `moka`, with the nanosecond at which each entry expires. -/
structure CcState where
  blocked : Str → Option Nat := fun _ => none
  counters : Str → Option (Nat × Nat) := fun _ => none
  /-- the calls of `incr_by_ex`: key, amount, seconds -/
  synced : List (Str × Nat × Nat) := []

namespace CcState

/-- `Duration::from_secs`. -/
def nanos (secs : Nat) : Nat := 10 ^ 9 * secs

variable (s : CcState) (now : Nat) (key : Str)

def isBlocked : Bool := (s.blocked key).any (now < ·)

/-- An entry that is replaced before it expires keeps its time. -/
def blockIp (duration : Nat) : CcState :=
  if s.isBlocked now key then s
  else { s with blocked := Function.update s.blocked key (some (now + nanos duration)) }

/-- A counter after one more request. -/
def counted (window : Nat) (entry : Option (Nat × Nat)) : Nat × Nat :=
  let e := (entry.filter (now < ·.2)).getD (0, now + nanos window)
  ((e.1 + 1) % 2 ^ 64, e.2)

def increment (window : Nat) : Nat × CcState :=
  let entry := counted now window (s.counters key)
  (entry.1, { s with counters := Function.update s.counters key (some entry) })

def unblockIp : CcState := { s with blocked := Function.update s.blocked key none }

def evict : CcState := { s with counters := Function.update s.counters key none }

end CcState

/-- `max_by_key` returns the last of several longest. -/
def matchRule (path : Str) (rules : List CcRule) : Option CcRule :=
  (rules.filter fun r => (stripStart r.path path).isSome).foldl
    (fun best r => if best.all fun b => byteLen b.path ≤ byteLen r.path then some r else best) none

def shouldSyncRedis (count : Nat) : Bool := 10 ≤ count ∧ count % 10 = 0

def extractChallengeCookie (cookieHeader : Option Str) : Option Str := do
  let header ← cookieHeader
  (header.splitOn ';').findSome? fun part => stripStart "__cc_challenge=" (trim part)

/-- The engine, with what it takes from libraries. -/
structure CcEngine where
  defaultRate : Nat
  defaultWindow : Nat
  defaultBlockDuration : Nat
  redis : Bool
  /-- `ChallengeManager::issue` at a time -/
  issue : Nat → IpAddr → Str
  /-- `ChallengeManager::verify` at a time -/
  verify : Nat → IpAddr → Str → Bool
  /-- how an address is written -/
  display : IpAddr → Str
  /-- `crc32fast::hash`, in eight hexadecimal digits -/
  crc32 : Str → Str

/-- Checks run at the same time: one that comes `late` looked for a ban before there was one. -/
inductive CcEvent where
  | check (now : Nat) (r : CcRequest) (late : Bool)
  | unblockIp (ban : Str)
  | evict (key : Str)

namespace CcEngine

variable (self : CcEngine)

def blockKey (siteId : Str) (ip : IpAddr) : Str := siteId ++ '\x00' :: self.display ip

def makeCounterKey (siteId : Str) (ip : IpAddr) (uri path : Str) (keyType : CcKeyType) : Str :=
  let front := "nozdormu:cc:counter:" ++ siteId ++ ':' :: self.display ip
  match keyType with
  | .ip => front
  | .ipUrl => front ++ ':' :: self.crc32 uri
  | .ipPath => front ++ ':' :: self.crc32 path

/-- The rule of a request. Defaults of the site that are 0 are those of the engine. -/
def limits (r : CcRequest) : CcRule :=
  let orElse (site own : Nat) := if 0 < site then site else own
  (matchRule r.path r.cc.rules).getD
    { path := []
      rate := orElse r.cc.defaultRate self.defaultRate
      window := orElse r.cc.defaultWindow self.defaultWindow
      blockDuration := orElse r.cc.defaultBlockDuration self.defaultBlockDuration
      action := r.cc.defaultAction
      keyType := .ipUrl }

def counterKey (r : CcRequest) : Str :=
  self.makeCounterKey r.siteId r.clientIp r.uri r.path (self.limits r).keyType

/-- What is done about request number `n`, beyond the limit. -/
def punish (now : Nat) (r : CcRequest) (n : Nat) (s : CcState) : CcActionResult × CcState :=
  let limit := self.limits r
  let reason (what : String) : Str := what.toList ++ digits n ++ '/' :: digits limit.rate ++ " in "
    ++ digits limit.window ++ "s on " ++ r.path
  match limit.action with
  | .block => (.block limit.blockDuration (reason "rate limit exceeded: "),
      s.blockIp now (self.blockKey r.siteId r.clientIp) limit.blockDuration)
  | .challenge => (.challenge (self.issue now r.clientIp) (reason "JS challenge triggered: "), s)
  | .delay => (.delay 1000 (reason "rate limit delay: "), s)
  | .log => (.log (reason "rate limit logged: "), s)

/-- `check` from the counter on. -/
def count (now : Nat) (r : CcRequest) (s : CcState) : CcActionResult × CcState :=
  let limit := self.limits r
  let (n, s) := s.increment now (self.counterKey r) limit.window
  let s := { s with
    synced := s.synced ++ if shouldSyncRedis n &&
      self.redis then [(self.counterKey r, 10, limit.window)] else [] }
  if n ≤ limit.rate then (.allow, s) else self.punish now r n s

def check (now : Nat) (r : CcRequest) (late : Bool) (s : CcState) : CcActionResult × CcState :=
  if !r.cc.enabled then (.allow, s)
  else if !late && s.isBlocked now (self.blockKey r.siteId r.clientIp) then
    (.block self.defaultBlockDuration
      ("IP " ++ self.display r.clientIp ++ " is currently banned"), s)
  else if (self.limits r).action = .challenge ∧
      (extractChallengeCookie r.cookieHeader).any (self.verify now r.clientIp) then (.allow, s)
  else self.count now r s

def step (s : CcState) : CcEvent → CcState
  | .check now r late => (self.check now r late s).2
  | .unblockIp ban => s.unblockIp ban
  | .evict key => s.evict key

def run (events : List CcEvent) : CcState := events.foldl self.step {}

/-- How many requests that count for the key are allowed. -/
def allowed (key : Str) : (s : CcState) → (events : List CcEvent) → Nat
  | _, [] => 0
  | s, .check now r late :: events =>
    (if self.counterKey r = key ∧ (self.check now r late s).1 = .allow then 1 else 0)
      + allowed key (self.check now r late s).2 events
  | s, .unblockIp ban :: events => allowed key (s.unblockIp ban) events
  | s, .evict key' :: events => allowed key (s.evict key') events

/-- The request is in the span of `window` nanoseconds from `start` on, and has a limit of at most
`rate` in that time. -/
structure Limited (engine : CcEngine) (rate window start now : Nat) (r : CcRequest) : Prop where
  span : start ≤ now ∧ now < start + window
  enabled : r.cc.enabled = true
  action : (engine.limits r).action ≠ .challenge
  rate : (engine.limits r).rate ≤ rate
  window : window ≤ CcState.nanos (engine.limits r).window

/-- What a counter allows until `stop`: the rest of its own window, and the next one if that begins
before. -/
def budget (rate stop : Nat) (entry : Option (Nat × Nat)) : Nat :=
  entry.elim rate fun e => rate - e.1 + if stop ≤ e.2 then 0 else rate

/-- `n` more requests can be counted. -/
def Counting (n : Nat) (entry : Option (Nat × Nat)) :
    Prop := n < 2 ^ 64 ∧ ∀ e ∈ entry, e.1 + n < 2 ^ 64

variable {self} {key : Str} {rate start window now n : Nat} {r : CcRequest} {s : CcState}

theorem Counting.of_succ {entry : Option (Nat × Nat)} (h : Counting (n + 1) entry) :
    Counting n entry :=
  ⟨Nat.lt_of_succ_lt h.1, fun e he => Nat.lt_of_succ_lt (h.2 e he)⟩

/-- In the window that runs, or in a new one. -/
theorem counted_cases (now w : Nat) {entry : Option (Nat × Nat)} (h : Counting (n + 1) entry) :
    (∃ e ∈ entry, CcState.counted now w entry = (e.1 + 1, e.2)) ∨
    (∀ e ∈ entry, e.2 ≤ now) ∧ CcState.counted now w entry = (1, now + CcState.nanos w) := by
  cases entry with
  | none => exact .inr ⟨nofun, rfl⟩
  | some e =>
    have hroom : (e.1 + 1) % 2 ^ 64 = e.1 + 1 := Nat.mod_eq_of_lt (by have := h.2 e rfl; omega)
    by_cases hlive : now < e.2
    · exact .inl ⟨e, rfl, by simpa [CcState.counted, Option.filter_some, hlive] using hroom⟩
    · refine .inr ⟨fun e' he => Option.some.inj he ▸ Nat.le_of_not_lt hlive, ?_⟩
      simp [CcState.counted, Option.filter_some, hlive]

theorem Counting.counted {entry : Option (Nat × Nat)} (h : Counting (n + 1) entry) (now w : Nat) :
    Counting n (some (CcState.counted now w entry)) := by
  obtain ⟨hn, hroom⟩ := h
  refine ⟨by omega, ?_⟩
  rintro _ ⟨rfl⟩
  obtain ⟨e, he, hcounted⟩ | ⟨-, hcounted⟩ := counted_cases now w ⟨hn, hroom⟩
  · have := hroom e he
    simp only [hcounted]
    omega
  · simp only [hcounted]
    omega

theorem budget_counted {stop w : Nat} {entry : Option (Nat × Nat)} (h : Counting (n + 1) entry)
    (hnow : now < stop) (hstop : stop ≤ now + CcState.nanos w) :
    (if (CcState.counted now w entry).1 ≤ rate then 1 else 0) +
      budget rate stop (some (CcState.counted now w entry)) ≤ budget rate stop entry := by
  obtain ⟨e, rfl, hcounted⟩ | ⟨hover, hcounted⟩ := counted_cases now w h
  · simp only [hcounted, budget, Option.elim_some]
    split <;> omega
  · -- a counter whose window is over leaves the whole of the next
    have hfull : rate ≤ budget rate stop entry := by
      cases entry with
      | none => exact Nat.le_refl rate
      | some e =>
        have := hover e rfl
        simp only [budget, Option.elim_some, if_neg (show ¬ stop ≤ e.2 by omega)]
        omega
    refine Nat.le_trans ?_ hfull
    simp only [hcounted, budget, Option.elim_some, if_pos hstop]
    split <;> omega

theorem counters_count : (self.count now r s).2.counters = Function.update s.counters
    (self.counterKey r)
    (some (CcState.counted now (self.limits r).window (s.counters (self.counterKey r)))) := by
  unfold count punish CcState.blockIp
  dsimp only
  repeat' split
  all_goals rfl

theorem count_allow (h : (self.count now r s).1 = .allow) :
    (CcState.counted now (self.limits r).window (s.counters (self.counterKey r))).1 ≤
    (self.limits r).rate := by
  unfold count punish at h
  dsimp only at h
  split at h
  next hle => exact hle
  next => split at h <;> cases h

/-- A check that does not come to the counter changes nothing, and allows only where there is no
limit. -/
theorem check_cases (self : CcEngine) (now : Nat) (r : CcRequest) (late : Bool) (s : CcState) :
    (self.check now r late s).2 = s ∧ ((self.check now r late s).1 = .allow →
      r.cc.enabled = false ∨ (self.limits r).action = .challenge) ∨
    r.cc.enabled = true ∧ self.check now r late s = self.count now r s := by
  unfold check
  split
  next h => exact .inl ⟨rfl, fun _ => .inl (by simpa using h)⟩
  next h =>
    split
    · exact .inl ⟨rfl, nofun⟩
    split
    next h => exact .inl ⟨rfl, fun _ => .inr h.1⟩
    next => exact .inr ⟨by simpa using h, rfl⟩

theorem Counting.check (h : Counting (n + 1) (s.counters key)) (late : Bool) :
    Counting n ((self.check now r late s).2.counters key) := by
  obtain ⟨hsame, -⟩ | ⟨-, hcount⟩ := self.check_cases now r late s
  · rw [hsame]
    exact h.of_succ
  rw [hcount, counters_count]
  by_cases hkey : key = self.counterKey r
  · subst hkey
    rw [Function.update_self]
    exact h.counted ..
  · rw [Function.update_of_ne hkey]
    exact h.of_succ

/-- What a request for the counter is allowed comes out of the budget. -/
theorem budget_check (late : Bool) (h : Counting (n + 1) (s.counters key))
    (hlimited : self.counterKey r = key → self.Limited rate window start now r) :
    (if self.counterKey r = key ∧ (self.check now r late s).1 = .allow then 1 else 0)
      + budget rate (start + window) ((self.check now r late s).2.counters key) ≤
    budget rate (start + window) (s.counters key) := by
  obtain ⟨hsame, hallow⟩ | ⟨-, hcount⟩ := self.check_cases now r late s
  · rw [hsame, if_neg, Nat.zero_add]
    rintro ⟨hkey, hres⟩
    obtain hoff | hoff := hallow hres
    · cases hoff.symm.trans (hlimited hkey).enabled
    · exact (hlimited hkey).action hoff
  rw [hcount, counters_count]
  by_cases hkey : self.counterKey r = key
  · subst hkey
    have hlimit := hlimited rfl
    rw [Function.update_self]
    refine Nat.le_trans (Nat.add_le_add_right ?_ _)
      (budget_counted h hlimit.span.2 (Nat.add_le_add hlimit.span.1 hlimit.window))
    split
    next hres => rw [if_pos (Nat.le_trans (count_allow hres.2) hlimit.rate)]
    next => exact Nat.zero_le _
  · rw [Function.update_of_ne (Ne.symm hkey), if_neg fun h => hkey h.1, Nat.zero_add]

/-- **At most twice the rate.** Of the requests for one counter in a span as long as its window, at
most twice its rate are allowed, whatever came before, unless the counter is evicted. -/
theorem allowed_le (self : CcEngine) (key : Str) (rate window start : Nat)
    (events : List CcEvent) (s : CcState)
    (hcounting : Counting events.length (s.counters key)) (hkept : .evict key ∉ events)
    (hlimited : ∀ now r late, .check now r late ∈ events → self.counterKey r = key →
      self.Limited rate window start now r) : self.allowed key s events ≤ 2 * rate := by
  have hbudget : self.allowed key s events ≤ budget rate (start + window) (s.counters key) := by
    induction events generalizing s with
    | nil => exact Nat.zero_le _
    | cons e events ih =>
      have hrest := fun s hs => ih s hs (fun h => hkept (.tail _ h))
        fun now r late h => hlimited now r late (.tail _ h)
      cases e with
      | check now r late =>
        exact Nat.le_trans (Nat.add_le_add_left (hrest _ (hcounting.check late)) _)
          (budget_check late hcounting (hlimited now r late mem_cons_self))
      | unblockIp ban => exact hrest (s.unblockIp ban) hcounting.of_succ
      | evict key' =>
        have hne : key ≠ key' := fun h => hkept (h ▸ mem_cons_self)
        have hsame : (s.evict key').counters key = s.counters key := Function.update_of_ne hne ..
        exact hsame ▸ hrest (s.evict key') (hsame ▸ hcounting.of_succ)
  refine Nat.le_trans hbudget ?_
  unfold budget
  cases s.counters key with
  | none => exact Nat.le_mul_of_pos_left rate (by decide)
  | some e =>
    dsimp only [Option.elim_some]
    split <;> omega

/-- One request in a minute, and a ban of ten. -/
def oncePerMinute : CcRequest where
  clientIp := .v4 0xC0000201
  uri := "/"
  path := "/"
  cookieHeader := none
  cc := ⟨true, 1, 60, 600, .block, []⟩
  siteId := "site1"

def dottedDecimal (addr : BitVec 32) : Str :=
  let n := addr.toNat
  digits (n / 2 ^ 24) ++ '.' :: (digits (n / 2 ^ 16 % 256) ++ '.' :: (digits (n / 2 ^ 8 % 256) ++
    '.' :: digits (n % 256)))

example : dottedDecimal 0xC0000201 = "192.0.2.1" := by decide +kernel

theorem dottedDecimal_injective : dottedDecimal.Injective := by
  intro a b h
  obtain ⟨h₁, h⟩ := append_cons_inj (not_mem_digits rfl _) (not_mem_digits rfl _) h
  obtain ⟨h₂, h⟩ := append_cons_inj (not_mem_digits rfl _) (not_mem_digits rfl _) h
  obtain ⟨h₃, h₄⟩ := append_cons_inj (not_mem_digits rfl _) (not_mem_digits rfl _) h
  have := digits_inj h₁
  have := digits_inj h₂
  have := digits_inj h₃
  have := digits_inj h₄
  exact BitVec.eq_of_toNat_eq (by omega)

theorem not_mem_dottedDecimal {c : Char} (hdigit : c.isDigit = false) (hdot : c ≠ '.')
    (addr : BitVec 32) :
    c ∉ dottedDecimal addr := by
  simp [dottedDecimal, not_mem_digits hdigit, hdot]

/-- Addresses as they are displayed; those of IPv6, which do not occur below, as one number. -/
def decimalEngine : CcEngine where
  defaultRate := 100
  defaultWindow := 60
  defaultBlockDuration := 600
  redis := false
  issue _ _ := []
  verify _ _ _ := false
  display
    | .v4 addr => dottedDecimal addr
    | .v6 addr => ':' :: digits addr.toNat
  crc32 text := hexEncode (crcBytes (strBytes text))

theorem allowed_le_one : decimalEngine.allowed (decimalEngine.counterKey oncePerMinute) {}
    [.check 0 oncePerMinute false, .check 1 oncePerMinute false] ≤ 2 * 1 := by
  refine allowed_le _ _ 1 (60 * 10 ^ 9) 0 _ _ ⟨by decide, nofun⟩ (by simp) ?_
  intro now r late hr _
  simp only [mem_cons, CcEvent.check.injEq, not_mem_nil, or_false] at hr
  obtain ⟨rfl, rfl, -⟩ | ⟨rfl, rfl, -⟩ := hr
  all_goals exact ⟨by decide, rfl, by decide, by decide, by decide⟩

/-- The request goes over the limit of a blocking rule, and its ban lasts. -/
structure Exceeds (engine : CcEngine) (s : CcState) (then' now : Nat) (r : CcRequest) : Prop where
  enabled : r.cc.enabled = true
  action : (engine.limits r).action = .block
  rate : (engine.limits r).rate <
    (s.increment then' (engine.counterKey r) (engine.limits r).window).1
  lasts : now < then' + CcState.nanos (engine.limits r).blockDuration

theorem isBlocked_blockIp {then' duration : Nat} {key ban : Str}
    (h : (s.blockIp then' key duration).isBlocked now ban = true) :
    s.isBlocked now ban = true ∨ ban = key ∧ now < then' + CcState.nanos duration := by
  unfold CcState.blockIp at h
  split at h
  next => exact .inl h
  next =>
    by_cases hban : ban = key
    · subst hban
      exact .inr ⟨rfl, by simpa [CcState.isBlocked] using h⟩
    · exact .inl (by simpa [CcState.isBlocked, Function.update_of_ne hban] using h)

theorem isBlocked_count {then' : Nat} {ban : Str} (henabled : r.cc.enabled = true)
    (h : (self.count then' r s).2.isBlocked now ban = true) :
    s.isBlocked now ban = true ∨ ban = self.blockKey r.siteId r.clientIp ∧
      self.Exceeds s then' now r := by
  unfold count punish at h
  dsimp only at h
  split at h
  next => exact .inl h
  next hrate =>
    split at h
    next haction =>
      obtain hbefore | ⟨hban, hlasts⟩ := isBlocked_blockIp h
      · exact .inl hbefore
      · exact .inr ⟨hban, henabled, haction, Nat.lt_of_not_le hrate, hlasts⟩
    all_goals exact .inl h

/-- **Bans hit who earned them.** An address is banned on a site only after a request of that
address on that site that went over the limit of a blocking rule, and no longer than the rule says.
-/
theorem exceeds_of_isBlocked (self : CcEngine) (hdisplay : self.display.Injective)
    (hchars : ∀ ip, '\x00' ∉ self.display ip) (events : List CcEvent) {now : Nat}
    {siteId : Str} {ip : IpAddr}
    (h : (self.run events).isBlocked now (self.blockKey siteId ip) = true) :
    ∃ before after then' r late, events = before ++ .check then' r late :: after ∧
      r.siteId = siteId ∧ r.clientIp = ip ∧ self.Exceeds (self.run before) then' now r := by
  induction events using List.reverseRecOn with
  | nil => cases h
  | append_singleton events e ih =>
    by_cases hbefore : (self.run events).isBlocked now (self.blockKey siteId ip) = true
    · obtain ⟨before, after, then', r, late, rfl, hrest⟩ := ih hbefore
      exact ⟨before, after ++ [e], then', r, late, by simp, hrest⟩
    have hrun : self.run (events ++ [e]) = self.step (self.run events) e := foldl_concat ..
    rw [hrun] at h
    cases e with
    | check then' r late =>
      obtain ⟨hsame, -⟩ | ⟨henabled, hcount⟩ := self.check_cases then' r late (self.run events)
      · rw [step, hsame] at h
        exact absurd h hbefore
      · rw [step, hcount] at h
        obtain ⟨hban, hexceeds⟩ := (isBlocked_count henabled h).resolve_left hbefore
        obtain ⟨hsite, hip⟩ := append_cons_inj_right (hchars ip) (hchars r.clientIp) hban
        exact ⟨events, [], then', r, late, rfl, hsite.symm, hdisplay hip.symm, hexceeds⟩
    | unblockIp ban =>
      refine absurd ?_ hbefore
      by_cases hban : self.blockKey siteId ip = ban
      · simp [step, CcState.isBlocked, CcState.unblockIp, hban] at h
      · simpa [step, CcState.isBlocked, CcState.unblockIp, Function.update_of_ne hban] using h
    | evict key => exact absurd h hbefore

/-- The second request in a minute. -/
theorem exceeds_of_isBlocked_second :
    ∃ before after then' r late,
    [CcEvent.check 0 oncePerMinute false, .check 1 oncePerMinute false] =
        before ++ .check then' r late :: after ∧ r.siteId = "site1".toList ∧
          r.clientIp = .v4 0xC0000201 ∧
      decimalEngine.Exceeds (decimalEngine.run before) then' 2 r := by
  refine exceeds_of_isBlocked decimalEngine ?_ ?_ _ (by decide +kernel)
  · intro a b h
    cases a <;> cases b
    · exact congrArg _ (dottedDecimal_injective h)
    · exact absurd (mem_of_head? (congrArg List.head? h)) (not_mem_dottedDecimal rfl (by decide) _)
    · exact absurd (mem_of_head? (congrArg List.head? h).symm)
        (not_mem_dottedDecimal rfl (by decide) _)
    · exact congrArg _ (BitVec.eq_of_toNat_eq (digits_inj (tail_eq_of_cons_eq h)))
  · rintro (addr | addr)
    · exact not_mem_dottedDecimal rfl (by decide) _
    · exact not_mem_cons_of_ne_of_not_mem (by decide) (not_mem_digits rfl _)

end CcEngine

end Nozdormu.Proxy
