import Nozdormu.Cache.Key
import Nozdormu.Data.Separator

/-!
# Requests that share a cache key

The parts of a key are joined by `:`, `&` and `=`, and nothing is escaped, so a part that contains
a separator can be read as two. Two requests should share their hashed bytes only if they are for
the same resource: same site, host and path, the same query up to the order of parameters (where
the site sorts them), the same varying headers up to the case of their names.
-/

namespace Nozdormu.Cache

open Bmff Data List

variable {headers : List (Bytes × Bytes)} (a : KeyParts) {v k : Bytes}

namespace KeyParts

def query (a : KeyParts) : Bytes := a.queryString.getD []

def loweredVary (a : KeyParts) : List (Bytes × Bytes) :=
  a.varyHeaders.map fun h => (h.1.map toAsciiLowercase, h.2)

structure Same (a b : KeyParts) : Prop where
  siteId : a.siteId = b.siteId
  host : a.host = b.host
  path : a.path = b.path
  query : if a.sortQueryString then (a.query.splitOn amp).Perm (b.query.splitOn amp)
    else a.query = b.query
  vary : a.loweredVary = b.loweredVary

/-- No request for another resource has the same hashed bytes. -/
def Unshared (a : KeyParts) : Prop :=
  ∀ b : KeyParts, (b.siteId = a.siteId → b.sortQueryString = a.sortQueryString) →
    b.hashed = a.hashed → Same a b

def NameLike (name : Bytes) : Prop := ∀ b ∈ name, isAsciiUppercase b = false

/-- A value into which no name can be read: it does not end with a colon, and between its start, an
ampersand or a colon and a later equals sign there is an uppercase letter, which no name has. -/
structure RigidValue (v : Bytes) : Prop where
  colon_end : ¬ [colon] <:+ v
  no_name : ∀ pre name rest, v = pre ++ (name ++ equals :: rest) →
    pre = [] ∨ [amp] <:+ pre ∨ [colon] <:+ pre → ¬ NameLike name

structure Rigid (a : KeyParts) : Prop where
  siteId : colon ∉ a.siteId
  host : colon ∉ a.host
  path : colon ∉ a.path
  query : colon ∉ a.query
  vary : a.varyHeaders = [] ∨
    ∃ k v, a.varyHeaders = [(k, v)] ∧ colon ∉ k ∧ equals ∉ k ∧ RigidValue v

/-! ## The text of the varying headers -/

theorem isAsciiUppercase_iff {b : UInt8} : isAsciiUppercase b = true ↔ 65 ≤ b.toNat ∧
    b.toNat ≤ 90 := by
  simp only [isAsciiUppercase, Bool.and_eq_true, decide_eq_true_eq, UInt8.le_iff_toNat_le]
  exact Iff.rfl

theorem toNat_toAsciiLowercase (b : UInt8) :
    (toAsciiLowercase b).toNat = if isAsciiUppercase b then b.toNat + 32 else b.toNat := by
  unfold toAsciiLowercase
  split
  next h =>
    have hrange := isAsciiUppercase_iff.1 h
    have hadd : (b + 32).toNat = (b.toNat + 32) % 256 := UInt8.toNat_add b 32
    omega
  next => rfl

theorem nameLike_lower (name : Bytes) : NameLike (name.map toAsciiLowercase) := by
  intro b hb
  obtain ⟨b', -, rfl⟩ := mem_map.1 hb
  rw [Bool.eq_false_iff]
  intro hupper
  have hrange := isAsciiUppercase_iff.1 hupper
  rw [toNat_toAsciiLowercase] at hrange
  split at hrange
  next h => have := isAsciiUppercase_iff.1 h; omega
  next h => exact h (isAsciiUppercase_iff.2 hrange)

theorem NameLike.map_lower {name : Bytes} (h : NameLike name) :
    name.map toAsciiLowercase = name := by
  conv_rhs => rw [← map_id name]
  exact map_congr_left fun b hb => if_neg (by rw [h b hb]; exact Bool.false_ne_true)

theorem mem_lower {c : UInt8} (hc : c.toNat < 65) {name : Bytes} :
    c ∈ name.map toAsciiLowercase ↔ c ∈ name := by
  have hlower : ∀ b : UInt8, toAsciiLowercase b = c ↔ b = c := by
    intro b
    rw [← UInt8.toNat_inj, ← UInt8.toNat_inj, toNat_toAsciiLowercase]
    split
    next h => have := isAsciiUppercase_iff.1 h; omega
    next => rfl
  rw [mem_map]
  constructor
  · intro h
    obtain ⟨b, hb, heq⟩ := h
    rwa [← (hlower b).1 heq]
  · intro h
    exact ⟨c, h, (hlower c).2 rfl⟩

def varyText (headers : List (Bytes × Bytes)) : Bytes :=
  [amp].intercalate (headers.map fun h => h.1 ++ equals :: h.2)

theorem varyPart_eq : a.varyPart = varyText a.loweredVary := by
  unfold varyPart varyText loweredVary
  rw [map_map]
  rfl

theorem varyText_cons (k v : Bytes) (headers : List (Bytes × Bytes)) : varyText ((k, v) :: headers)
      = k ++ equals :: (v ++ if headers.isEmpty then [] else amp :: varyText headers) := by
  unfold varyText
  rw [map_cons, intercalate_cons, append_assoc, cons_append]
  cases headers <;> rfl

theorem varyText_singleton (k v : Bytes) : varyText [(k, v)] = k ++ equals :: v := by
  rw [varyText_cons]
  simp

theorem queryPart_eq : a.queryPart = if a.sortQueryString then sortQuery a.query else a.query := by
  have hnil : sortQuery [] = [] := by decide
  unfold queryPart query
  cases a.queryString with
  | none => simp [hnil]
  | some qs =>
    cases qs with
    | nil => simp [hnil]
    | cons b qs => rfl

theorem sortQuery_perm (qs : Bytes) :
    ((qs.splitOn amp).insertionSort (· ≤ ·)).Perm (qs.splitOn amp) := perm_insertionSort _ _

theorem colon_mem_queryPart : colon ∈ a.queryPart ↔ colon ∈ a.query := by
  rw [queryPart_eq]
  split
  · exact mem_intercalate_perm (by decide) (sortQuery_perm _)
  · exact Iff.rfl

/-! ## A rigid request shares its bytes with no other resource -/

theorem RigidValue.not_behind (hv : RigidValue v)
    (hnames : ∀ h ∈ headers, NameLike h.1) : ¬ Behind colon v (varyText headers) := by
  intro h
  obtain ⟨m, hm⟩ := h
  cases headers with
  | nil => exact hv.colon_end ⟨m, hm.symm⟩
  | cons first headers =>
    obtain ⟨k, v'⟩ := first
    rw [varyText_cons, append_cons] at hm
    exact hv.no_name (m ++ [colon]) k _ hm (.inr (.inr ⟨m, rfl⟩)) (hnames _ (mem_cons_self ..))

theorem RigidValue.headers_eq (hv : RigidValue v) (hk : equals ∉ k)
    (hnames : ∀ h ∈ headers, NameLike h.1)
    (h : varyText headers = varyText [(k, v)]) : headers = [(k, v)] := by
  rw [varyText_singleton] at h
  cases headers with
  | nil => exact absurd h.symm (by simp [varyText, List.intercalate])
  | cons first headers =>
    obtain ⟨k', v'⟩ := first
    rw [varyText_cons] at h
    have hk' := hnames (k', v') (mem_cons_self ..)
    rcases append_cons_cases hk h.symm with heq | hlonger
    · obtain ⟨rfl, hvalue⟩ := heq
      cases headers with
      | nil => simp_all
      | cons second headers =>
        -- an ampersand in the value would start the second header
        obtain ⟨k₂, v₂⟩ := second
        rw [if_neg (by simp), varyText_cons, append_cons] at hvalue
        exact absurd (hnames (k₂, v₂) (by simp))
          (hv.no_name (v' ++ [amp]) k₂ _ hvalue.symm (.inr (.inl ⟨v', rfl⟩)))
    · -- an equals sign in the value would end a longer name
      obtain ⟨m, rfl, hvalue⟩ := hlonger
      refine absurd (fun b hb => hk' b ?_) (hv.no_name [] m _ hvalue (.inl rfl))
      exact mem_append_right _ (mem_cons_of_mem _ hb)

theorem nameLike_loweredVary : ∀ h ∈ a.loweredVary, NameLike h.1 := by
  intro h hh
  obtain ⟨h', -, rfl⟩ := mem_map.1 hh
  exact nameLike_lower h'.1

theorem Rigid.not_behind {a : KeyParts} (ha : Rigid a) (b : KeyParts) :
    ¬ Behind colon a.varyPart b.varyPart := by
  intro h
  rw [varyPart_eq, varyPart_eq] at h
  rcases ha.vary with hnone | hone
  · obtain ⟨m, hm⟩ := h
    rw [loweredVary, hnone] at hm
    exact absurd hm.symm (by simp [varyText, List.intercalate])
  obtain ⟨k, v, hvary, hcolon, -, hv⟩ := hone
  have hlower : a.loweredVary = [(k.map toAsciiLowercase, v)] := by rw [loweredVary, hvary]; rfl
  rw [hlower, varyText_singleton, append_cons] at h
  refine hv.not_behind (nameLike_loweredVary b) (behind_of_append ?_ h)
  simp only [mem_append, mem_singleton]
  exact fun hmem => hmem.elim (fun hname => hcolon ((mem_lower (by decide)).1 hname)) (by decide)

theorem Rigid.vary_eq {a : KeyParts} (ha : Rigid a) {b : KeyParts} (h : b.varyPart = a.varyPart) :
    a.loweredVary = b.loweredVary := by
  rw [varyPart_eq, varyPart_eq] at h
  rcases ha.vary with hnone | hone
  · have hnil : a.loweredVary = [] := by rw [loweredVary, hnone]; rfl
    rw [hnil] at h ⊢
    cases hb : b.loweredVary with
    | nil => rfl
    | cons first headers =>
      rw [hb, varyText_cons] at h
      exact absurd h (by simp [varyText, List.intercalate])
  · obtain ⟨k, v, hvary, -, hequals, hv⟩ := hone
    have hlower : a.loweredVary = [(k.map toAsciiLowercase, v)] := by rw [loweredVary, hvary]; rfl
    rw [hlower] at h ⊢
    exact (hv.headers_eq (fun hmem => hequals ((mem_lower (by decide)).1 hmem))
      (nameLike_loweredVary b) h).symm

theorem Rigid.unshared {a : KeyParts} (ha : Rigid a) : Unshared a := by
  intro b hsort h
  have hquery : colon ∉ a.queryPart := fun hmem => ha.query ((colon_mem_queryPart a).1 hmem)
  -- a second reading that is behind at one part is behind in the headers, where it cannot be
  rcases behind_of_eq ha.siteId h.symm with ⟨hsite, h⟩ | hbehind
  swap
  · exact absurd (behind_step hquery (behind_step ha.path (behind_step ha.host hbehind)))
      (ha.not_behind b)
  rcases behind_of_eq ha.host h.symm with ⟨hhost, h⟩ | hbehind
  swap
  · exact absurd (behind_step hquery (behind_step ha.path hbehind)) (ha.not_behind b)
  rcases behind_of_eq ha.path h.symm with ⟨hpath, h⟩ | hbehind
  swap
  · exact absurd (behind_step hquery hbehind) (ha.not_behind b)
  rcases behind_of_eq hquery h.symm with ⟨hq, h⟩ | hbehind
  swap
  · exact absurd hbehind (ha.not_behind b)
  refine ⟨hsite.symm, hhost.symm, hpath.symm, ?_, ha.vary_eq h⟩
  rw [queryPart_eq, queryPart_eq, hsort hsite] at hq
  split
  next hs =>
    rw [if_pos hs, if_pos hs] at hq
    -- sorted queries that are equal have the same parameters
    have hsplit := congrArg (List.splitOn amp) hq.symm
    unfold sortQuery at hsplit
    rw [splitOn_intercalate_perm (sortQuery_perm _),
      splitOn_intercalate_perm (sortQuery_perm _)] at hsplit
    exact (sortQuery_perm _).symm.trans (hsplit ▸ sortQuery_perm _)
  next hs =>
    rw [if_neg hs, if_neg hs] at hq
    exact hq.symm

/-! ## Any other request shares its bytes -/

theorem NameLike.append {x y : Bytes} (hx : NameLike x) (hy : NameLike y) : NameLike (x ++ y) :=
  fun b hb => (mem_append.1 hb).elim (hx b) (hy b)

theorem nameLike_equals : NameLike [equals] := by
  intro b hb
  rw [mem_singleton.1 hb]
  rfl

theorem hashed_eq : a.hashed = a.siteId ++ colon :: (a.host ++ colon :: (a.path ++ colon ::
        (a.queryPart ++ colon :: varyText a.loweredVary))) := by
  rw [hashed, varyPart_eq]

theorem loweredVary_of_nameLike {a : KeyParts} (h : ∀ header ∈ a.varyHeaders, NameLike header.1) :
    a.loweredVary = a.varyHeaders := by
  conv_rhs => rw [← map_id a.varyHeaders]
  refine map_congr_left fun header hh => ?_
  rw [(h header hh).map_lower]
  rfl

variable {a : KeyParts}

theorem not_unshared_of_site (siteId host path query : Bytes)
    (hnames : ∀ h ∈ headers, NameLike h.1) (hsite : siteId ≠ a.siteId) (htext : siteId ++ colon ::
      (host ++ colon :: (path ++ colon :: (query ++ colon :: varyText headers)))
      = a.hashed) : ¬ Unshared a := by
  intro h
  let b : KeyParts := ⟨siteId, host, path, some query, false, headers⟩
  have hbytes : b.hashed = a.hashed := by
    rw [← htext, hashed_eq, loweredVary_of_nameLike hnames, queryPart_eq]
    rfl
  exact hsite (h b (fun hb => absurd hb hsite) hbytes).siteId.symm

theorem not_unshared_of_vary (headers : List (Bytes × Bytes)) (hnames : ∀ h ∈ headers, NameLike h.1)
    (hne : a.loweredVary ≠ headers) (htext : varyText headers = varyText a.loweredVary) :
    ¬ Unshared a := by
  intro h
  let b : KeyParts := { a with varyHeaders := headers }
  have hlower : b.loweredVary = headers := loweredVary_of_nameLike hnames
  have hbytes : b.hashed = a.hashed := by
    rw [hashed_eq, hashed_eq a, hlower, htext]
    rfl
  exact hne ((h b (fun _ => rfl) hbytes).vary.trans hlower)

theorem append_cons_ne {c : UInt8} (x y : Bytes) : x ++ c :: y ≠ x := by simp

theorem Unshared.not_mem (h : Unshared a) :
    colon ∉ a.siteId ∧ colon ∉ a.host ∧ colon ∉ a.path ∧ colon ∉ a.queryPart := by
  have hnames := nameLike_loweredVary a
  refine ⟨fun hmem => ?_, fun hmem => ?_, fun hmem => ?_, fun hmem => ?_⟩
  · obtain ⟨x, y, hxy⟩ := append_of_mem hmem
    refine not_unshared_of_site x y a.host (a.path ++ colon :: a.queryPart) hnames ?_ ?_ h
    · rw [hxy]
      exact (append_cons_ne x y).symm
    · simp [hashed_eq, hxy]
  · obtain ⟨x, y, hxy⟩ := append_of_mem hmem
    refine not_unshared_of_site (a.siteId ++ colon :: x) y a.path a.queryPart hnames
      (append_cons_ne _ _) ?_ h
    simp [hashed_eq, hxy]
  · obtain ⟨x, y, hxy⟩ := append_of_mem hmem
    refine not_unshared_of_site (a.siteId ++ colon :: a.host) x y a.queryPart hnames
      (append_cons_ne _ _) ?_ h
    simp [hashed_eq, hxy]
  · obtain ⟨x, y, hxy⟩ := append_of_mem hmem
    refine not_unshared_of_site (a.siteId ++ colon :: a.host) a.path x y hnames
      (append_cons_ne _ _) ?_ h
    simp [hashed_eq, hxy]

theorem Unshared.not_behind (h : Unshared a) (headers : List (Bytes × Bytes))
    (hnames : ∀ h ∈ headers, NameLike h.1) :
    ¬ Behind colon (varyText a.loweredVary) (varyText headers) := by
  intro hbehind
  obtain ⟨m, hm⟩ := hbehind
  refine not_unshared_of_site (a.siteId ++ colon :: a.host) a.path a.queryPart m hnames
    (append_cons_ne _ _) ?_ h
  rw [hashed_eq, hm]
  simp

theorem forall_singleton {P : Bytes → Prop} (h : P k) : ∀ header ∈ [(k, v)], P header.1 := by
  intro header hh
  rw [mem_singleton.1 hh]
  exact h

theorem Unshared.rigidValue (h : Unshared a) (hlower : a.loweredVary = [(k, v)])
    (hk : NameLike k) : RigidValue v := by
  have htext : varyText a.loweredVary = k ++ equals :: v := by rw [hlower, varyText_singleton]
  constructor
  · intro hend
    obtain ⟨m, rfl⟩ := hend
    refine h.not_behind [] (by simp) ⟨k ++ equals :: m, ?_⟩
    rw [htext]
    simp [varyText, List.intercalate]
  · intro pre name rest hv hpre hname
    rcases hpre with rfl | hamp | hcolon
    · refine not_unshared_of_vary [(k ++ ([equals] ++ name), rest)]
        (forall_singleton (hk.append (nameLike_equals.append hname))) ?_ ?_ h
      · rw [hlower]
        intro heq
        have hk' := (Prod.mk.inj (singleton_inj.1 heq)).1
        exact append_cons_ne k name hk'.symm
      · rw [htext, varyText_singleton, hv]
        simp
    · obtain ⟨m, rfl⟩ := hamp
      refine not_unshared_of_vary [(k, m), (name, rest)] ?_ ?_ ?_ h
      · intro header hh
        rcases mem_cons.1 hh with rfl | hh
        · exact hk
        · exact forall_singleton hname header hh
      · rw [hlower]
        exact nofun
      · rw [htext, varyText_cons, varyText_singleton, hv]
        simp
    · obtain ⟨m, rfl⟩ := hcolon
      refine h.not_behind [(name, rest)] (forall_singleton hname) ⟨k ++ equals :: m, ?_⟩
      rw [htext, varyText_singleton, hv]
      simp

theorem Unshared.name (h : Unshared a) (hlower : a.loweredVary = [(k, v)])
    (hk : NameLike k) : colon ∉ k ∧ equals ∉ k := by
  have htext : varyText a.loweredVary = k ++ equals :: v := by rw [hlower, varyText_singleton]
  constructor
  · intro hmem
    obtain ⟨x, y, rfl⟩ := append_of_mem hmem
    rw [append_cons] at hk
    refine h.not_behind [(y, v)] (forall_singleton fun b hb => hk b (mem_append_right _ hb)) ⟨x, ?_⟩
    rw [htext, varyText_singleton]
    simp
  · intro hmem
    obtain ⟨x, y, rfl⟩ := append_of_mem hmem
    have hx : NameLike x := fun b hb => hk b (mem_append_left _ hb)
    refine not_unshared_of_vary [(x, y ++ equals :: v)] (forall_singleton hx) ?_ ?_ h
    · rw [hlower]
      intro heq
      exact append_cons_ne x y (Prod.mk.inj (singleton_inj.1 heq)).1
    · rw [htext, varyText_singleton]
      simp

theorem Unshared.vary (h : Unshared a) : a.varyHeaders = [] ∨ ∃ k v, a.varyHeaders = [(k, v)] := by
  cases hvary : a.varyHeaders with
  | nil => exact .inl rfl
  | cons first headers =>
    obtain ⟨k, v⟩ := first
    cases headers with
    | nil => exact .inr ⟨k, v, rfl⟩
    | cons second headers =>
      exfalso
      have hlower : a.loweredVary = (k.map toAsciiLowercase, v)
          :: (second :: headers).map fun h => (h.1.map toAsciiLowercase, h.2) := by
        rw [loweredVary, hvary]
        rfl
      refine not_unshared_of_vary [(k.map toAsciiLowercase, v ++ amp :: varyText
        ((second :: headers).map fun h => (h.1.map toAsciiLowercase, h.2)))]
        (forall_singleton (nameLike_lower k)) ?_ ?_ h
      · rw [hlower]
        intro heq
        cases (List.cons.inj heq).2
      · rw [hlower, varyText_singleton, varyText_cons, if_neg (by simp)]

/-- **Which requests share their key.** A request has its hashed bytes to itself exactly if it is
rigid. -/
theorem unshared_iff (a : KeyParts) : Unshared a ↔ Rigid a := by
  refine ⟨fun h => ?_, Rigid.unshared⟩
  obtain ⟨hsite, hhost, hpath, hquery⟩ := h.not_mem
  refine ⟨hsite, hhost, hpath, fun hmem => hquery ((colon_mem_queryPart a).2 hmem), ?_⟩
  rcases h.vary with hnone | hone
  · exact .inl hnone
  · obtain ⟨k, v, hvary⟩ := hone
    have hlower : a.loweredVary = [(k.map toAsciiLowercase, v)] := by rw [loweredVary, hvary]; rfl
    obtain ⟨hcolon, hequals⟩ := h.name hlower (nameLike_lower k)
    exact .inr ⟨k, v, hvary, fun hmem => hcolon ((mem_lower (by decide)).2 hmem),
      fun hmem => hequals ((mem_lower (by decide)).2 hmem), h.rigidValue hlower (nameLike_lower k)⟩

def colonPath : KeyParts := ⟨[115], [104], [47, 97, 58, 98], none, true, []⟩

def colonQuery : KeyParts := ⟨[115], [104], [47, 97], some [98, 58], true, []⟩

/-- Whatever the digest is, the two have one key. -/
theorem unshared_colon_fails :
    colonPath.path ≠ colonQuery.path ∧ colonQuery.hashed = colonPath.hashed ∧
      (∀ md5, generateCacheKey md5 colonQuery = generateCacheKey md5 colonPath) ∧
      ¬ Unshared colonPath := by
  have hpath : colonPath.path ≠ colonQuery.path := by decide
  have hbytes : colonQuery.hashed = colonPath.hashed := by decide +kernel
  refine ⟨hpath, hbytes, fun md5 => congrArg md5 hbytes, fun h => ?_⟩
  exact hpath (h colonQuery (fun _ => rfl) hbytes).path

end KeyParts

end Nozdormu.Cache
