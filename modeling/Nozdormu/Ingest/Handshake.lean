import Nozdormu.Ingest.Session

/-!
# The RTMP handshake

The first phase of `handle_rtmp_connection` in `cdn-ingest/src/rtmp/session.rs`: reads are passed
to the handshake library until it is done, later reads to the server session. The library may be
done in the middle of a read and returns the rest of it, and the loop drops that rest.
-/

namespace Nozdormu.Ingest

open Rust Bmff List

/-- What one `read` into the buffer of 4096 bytes returns, short of the end of the stream. -/
structure TcpRead where
  bytes : Bytes
  nonempty : bytes ≠ []
  fits : bytes.length ≤ 4096

def streamOf (reads : List TcpRead) : Bytes := reads.flatMap TcpRead.bytes

theorem append_streamOf_cons (got : Bytes) (read : TcpRead) (reads : List TcpRead) :
    got ++ streamOf (read :: reads) = got ++ read.bytes ++ streamOf reads := by
  rw [streamOf, flatMap_cons, append_assoc]
  rfl

inductive HandshakeProcessResult (σ : Type) where
  | inProgress (handshake : σ)
  | completed (remainingBytes : Bytes)
deriving DecidableEq, Repr

/-- The handshake library; its responses to the client are left out. -/
structure HandshakeLib (σ : Type) where
  new : σ
  processBytes : σ → Bytes → Except String (HandshakeProcessResult σ)

variable {σ : Type}

/-- The reads behind the one that completes the handshake. -/
def handshakeLoop (lib : HandshakeLib σ) : (handshake : σ) → (reads : List TcpRead) →
    Exec IngestError (List TcpRead)
  | _, [] => fail (.protocol "connection closed during handshake")
  | handshake, read :: reads =>
    match lib.processBytes handshake read.bytes with
    | .error e => fail (.protocol ("handshake: " ++ e))
    | .ok (.inProgress handshake) => handshakeLoop lib handshake reads
    -- the remaining bytes are looked at and forgotten
    | .ok (.completed _) => return reads

def sessionFrom (lib : HandshakeLib σ) (handshake : σ) (reads : List TcpRead) :
    Exec IngestError Bytes :=
  return streamOf (← handshakeLoop lib handshake reads)

def sessionInput (lib : HandshakeLib σ) (reads : List TcpRead) : Exec IngestError Bytes :=
  sessionFrom lib lib.new reads

/-! ## A correct library -/

/-- What the library is trusted with. -/
structure HandshakeSpec (lib : HandshakeLib σ) where
  /-- the bytes that led to a state -/
  received : σ → Bytes
  /-- the answer to a stream: not yet, an error, or how many bytes the handshake took -/
  answer : Bytes → Option (Except String Nat)
  received_new : received lib.new = []
  answer_new : answer [] = none
  /-- later bytes do not change an answer -/
  stable : ∀ got more r, answer got = some r → answer (got ++ more) = some r
  inProgress : ∀ h data, answer (received h ++ data) = none →
    ∃ h', lib.processBytes h data = .ok (.inProgress h') ∧ received h' = received h ++ data
  failed : ∀ h data e, answer (received h ++ data) = some (.error e) →
    lib.processBytes h data = .error e
  /-- the unconsumed bytes are returned -/
  completed : ∀ h data k, answer (received h ++ data) = some (.ok k) →
    lib.processBytes h data = .ok (.completed ((received h ++ data).drop k))

namespace HandshakeSpec

variable {lib : HandshakeLib σ} (spec : HandshakeSpec lib)

/-- Where the read that completes the handshake ends, `got` having been received before. -/
def readEnd : (got : Bytes) → (reads : List TcpRead) → Option Nat
  | _, [] => none
  | got, read :: reads =>
    match spec.answer (got ++ read.bytes) with
    | none => readEnd (got ++ read.bytes) reads
    | some (.error _) => none
    | some (.ok _) => some (got ++ read.bytes).length

/-- What the session gets of a stream, depending on the end of that read. -/
def inputFrom (stream : Bytes) (stop : Option Nat) : Exec IngestError Bytes :=
  match spec.answer stream with
  | none => fail (.protocol "connection closed during handshake")
  | some (.error e) => fail (.protocol ("handshake: " ++ e))
  | some (.ok _) => return stream.drop (stop.getD 0)

variable {spec} {got : Bytes} {reads : List TcpRead}

theorem sessionFrom_eq (reads : List TcpRead) : ∀ {h : σ}, spec.answer (spec.received h) = none →
    sessionFrom lib h reads
      = spec.inputFrom (spec.received h ++ streamOf reads) (spec.readEnd (spec.received h) reads) :=
        by
  induction reads with
  | nil =>
    intro h hnone
    rw [inputFrom, streamOf, flatMap_nil, append_nil, hnone]
    rfl
  | cons read reads ih =>
    intro h hnone
    rw [sessionFrom, handshakeLoop, readEnd, append_streamOf_cons]
    cases hanswer : spec.answer (spec.received h ++ read.bytes) with
    | none =>
      obtain ⟨h', hprocess, hreceived⟩ := spec.inProgress h read.bytes hanswer
      rw [hprocess, ← hreceived]
      exact ih (hreceived ▸ hanswer)
    | some r =>
      rw [inputFrom, spec.stable _ _ _ hanswer]
      cases r with
      | error e => rw [spec.failed h read.bytes e hanswer]; rfl
      | ok k =>
        rw [spec.completed h read.bytes k hanswer, Option.getD_some, drop_left]
        rfl

theorem readEnd_of_answer (spec : HandshakeSpec lib) (reads : List TcpRead)
    (hnone : spec.answer got = none) :
    (∃ k, spec.answer (got ++ streamOf reads) = some (.ok k)) →
      ∃ n ≤ (got ++ streamOf reads).length, spec.readEnd got reads = some n := by
  induction reads generalizing got with
  | nil =>
    rintro ⟨k, hk⟩
    rw [streamOf, flatMap_nil, append_nil, hnone] at hk
    cases hk
  | cons read reads ih =>
    rw [append_streamOf_cons, readEnd]
    intro hok
    cases hanswer : spec.answer (got ++ read.bytes) with
    | none => exact ih hanswer hok
    | some r =>
      obtain ⟨k, hk⟩ := hok
      rw [spec.stable _ _ _ hanswer] at hk
      cases hk
      exact ⟨_, by simp, rfl⟩

theorem readEnd_eq_none (hnot : ∀ k, spec.answer (got ++ streamOf reads) ≠ some (.ok k)) :
    spec.readEnd got reads = none := by
  induction reads generalizing got with
  | nil => rfl
  | cons read reads ih =>
    rw [append_streamOf_cons] at hnot
    rw [readEnd]
    cases hanswer : spec.answer (got ++ read.bytes) with
    | none => exact ih hnot
    | some r =>
      cases r with
      | error e => rfl
      | ok k => exact absurd (spec.stable _ _ _ hanswer) (hnot k)

theorem sessionInput_eq (spec : HandshakeSpec lib) (reads : List TcpRead) :
    sessionInput lib reads = spec.inputFrom (streamOf reads) (spec.readEnd [] reads) := by
  have hnew : spec.answer (spec.received lib.new) = none := by
    rw [spec.received_new, spec.answer_new]
  have h := sessionFrom_eq reads hnew
  rwa [spec.received_new, nil_append] at h

end HandshakeSpec

/-- **Two ways of reading a stream** give the same input to the session exactly if the read that
completes the handshake ends at the same place in both. -/
theorem sessionInput_eq_iff (lib : HandshakeLib σ) (spec : HandshakeSpec lib)
    (reads reads' : List TcpRead) (h : streamOf reads = streamOf reads') :
    sessionInput lib reads = sessionInput lib reads' ↔ spec.readEnd [] reads =
      spec.readEnd [] reads' := by
  rw [spec.sessionInput_eq, spec.sessionInput_eq, ← h]
  by_cases hok : ∃ k, spec.answer ([] ++ streamOf reads) = some (.ok k)
  · obtain ⟨n, hn, hend⟩ := spec.readEnd_of_answer reads spec.answer_new hok
    obtain ⟨m, hm, hend'⟩ := spec.readEnd_of_answer reads' spec.answer_new (h ▸ hok)
    obtain ⟨k, hk⟩ := hok
    rw [nil_append] at hk hn hm
    rw [← h] at hm
    rw [hend, hend', HandshakeSpec.inputFrom, HandshakeSpec.inputFrom, hk]
    constructor
    · intro hdrop
      have hlen := congrArg List.length (Except.ok.inj hdrop)
      rw [Option.getD_some, Option.getD_some, length_drop, length_drop] at hlen
      rw [show n = m by omega]
    · intro hnm
      rw [hnm]
  · push Not at hok
    rw [spec.readEnd_eq_none hok, spec.readEnd_eq_none (h ▸ hok)]
    exact iff_of_true rfl rfl

/-! ## A handshake of fixed length -/

/-- The version in C0 has to be 3; C1 and C2 are not looked at. -/
def plainAnswer (got : Bytes) : Option (Except String Nat) :=
  match got with
  | [] => none
  | version :: _ =>
    if version ≠ 3 then some (.error "bad version id")
    else if got.length < 3073 then none
    else some (.ok 3073)

def plainHandshake : HandshakeLib Bytes where
  new := []
  processBytes got data :=
    match plainAnswer (got ++ data) with
    | none => .ok (.inProgress (got ++ data))
    | some (.error e) => .error e
    | some (.ok taken) => .ok (.completed ((got ++ data).drop taken))

theorem plainAnswer_append (got more : Bytes) {r : Except String Nat}
    (h : plainAnswer got = some r) :
    plainAnswer (got ++ more) = some r := by
  cases got with
  | nil => cases h
  | cons version got =>
    rw [plainAnswer] at h
    rw [cons_append, plainAnswer]
    split at h
    next hversion => rwa [if_pos hversion]
    next hversion =>
      split at h
      next => cases h
      next hlen =>
        rw [if_neg hversion, if_neg, h]
        rw [length_cons, length_append]
        rw [length_cons] at hlen
        omega

def plainSpec : HandshakeSpec plainHandshake where
  received got := got
  answer := plainAnswer
  received_new := rfl
  answer_new := rfl
  stable got more _ := plainAnswer_append got more
  inProgress got data h := ⟨got ++ data, by simp only [plainHandshake, h], rfl⟩
  failed got data e h := by simp only [plainHandshake, h]
  completed got data k h := by simp only [plainHandshake, h]

/-- C0 with the version 3, C1 and C2. -/
def clientHandshake : Bytes := 3 :: List.replicate 3072 0

def separateReads : List TcpRead :=
  [⟨clientHandshake, by decide, by decide +kernel⟩, ⟨[2], by decide, by decide⟩]

def jointRead : List TcpRead :=
  [⟨clientHandshake ++ [2], by decide, by decide +kernel⟩]

theorem sessionInput_eq_iff_plain :
    streamOf separateReads = streamOf jointRead ∧
      (sessionInput plainHandshake separateReads = sessionInput plainHandshake jointRead ↔
        plainSpec.readEnd [] separateReads = plainSpec.readEnd [] jointRead) :=
  ⟨by decide +kernel, sessionInput_eq_iff _ _ _ _ (by decide +kernel)⟩

/-- The byte behind the handshake is lost if it comes with the handshake. -/
theorem sessionInput_joint_fails :
    streamOf separateReads = streamOf jointRead ∧
      sessionInput plainHandshake separateReads = .ok [2] ∧
      sessionInput plainHandshake jointRead = .ok [] := by
  decide +kernel

end Nozdormu.Ingest
